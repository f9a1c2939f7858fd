import CrabOs.Foundations.CommonPrefix
import CrabOs.Shell.Editing

/-! Tab completion: the typed text grows to the longest common prefix of the names that start with
it, and a single such name is followed by a space. -/
namespace CrabOs.Crabsh
open CrabOs.Vga AtomicProgram CommonPrefix

namespace Line
variable {l : Line} {b a : List UInt8}

lemma holds_of_asStr {text : String} (h : l.asStr = some text) (hcursor : l.cursor = l.len)
    (hp : ∀ x ∈ AsciiText.bytes text, IsPrintable x) : l.Holds (AsciiText.bytes text) [] := by
  unfold asStr at h
  split_ifs at h with hbound
  have hc : l.content = AsciiText.bytes text := (AsciiText.bytes_of_fromUtf8 h).symm
  have hlen : (AsciiText.bytes text).length = l.len := by
    rw [← hc,content,List.length_take,Vector.length_toList,min_eq_left hbound]
  refine ⟨by simp [hlen],by rw [hcursor,hlen],hbound,fun i hi => ?_,by simpa using hp⟩
  rw [List.append_nil,← hc,content,List.getElem?_take,if_pos hi]
  simp

/-- Printable bytes that fit are all accepted. -/
lemma Holds.insertAll {bytes : List UInt8} (h : l.Holds b a) (hp : ∀ x ∈ bytes, IsPrintable x)
    (hroom : l.len+bytes.length ≤ maxInput) :
    ∃ l', l.insertAll bytes = some l' ∧ l'.Holds (b++bytes) a ∧ l'.overflow = l.overflow := by
  induction bytes generalizing l b with
  | nil => exact ⟨l,rfl,by rwa [List.append_nil],rfl⟩
  | cons x bytes ih =>
    rw [List.length_cons] at hroom
    rw [List.forall_mem_cons] at hp
    obtain ⟨r,hr,hh,hflag⟩ := h.insert hp.1 (by omega)
    have hlen := hh.len
    have hlen' := h.len
    rw [List.length_append,List.length_singleton] at hlen
    obtain ⟨l',hl',hh',hflag'⟩ := ih hh hp.2 (by omega)
    refine ⟨l',by rw [Line.insertAll,hr]; exact hl',?_,hflag'.trans hflag⟩
    rwa [List.append_assoc,List.singleton_append] at hh'

lemma Holds.insertSpace (h : l.Holds b []) (hroom : l.len < maxInput) :
    ∃ l', l.insertAll [32] = some l' ∧ l'.Holds (b++[32]) [] ∧ l'.overflow = l.overflow :=
  h.insertAll (List.forall_mem_singleton.mpr (by decide)) hroom

/-- The text grows to a longer one. -/
lemma Holds.grow {c : List UInt8} (h : l.Holds b []) (hb : b <+: c) (hp : ∀ x ∈ c, IsPrintable x)
    (hlen : c.length ≤ maxInput) :
    ∃ l', l.insertAll (c.drop l.len) = some l' ∧ l'.Holds c [] ∧ l'.overflow = l.overflow := by
  obtain ⟨rest,rfl⟩ := hb
  have hl : l.len = b.length := h.len
  rw [List.length_append] at hlen
  rw [hl,List.drop_left]
  exact h.insertAll (fun x hx => hp x (List.mem_append_right b hx)) (by omega)

end Line

/-- A command name that fits on a line with a space behind it. -/
structure IsName (name : String) : Prop where
  printable : ∀ x ∈ AsciiText.bytes name, IsPrintable x ∧ x ≠ 32
  short : (AsciiText.bytes name).length ≤ 255

instance (name : String) : Decidable (IsName name) :=
  decidable_of_iff ((AsciiText.bytes name).all (fun x => decide (IsPrintable x ∧ x ≠ 32)) = true ∧
    (AsciiText.bytes name).length ≤ 255)
    ⟨fun h => ⟨AsciiText.forall_mem_of_all h.1,h.2⟩,fun h => ⟨by simpa using h.printable,h.short⟩⟩

lemma isName_commands : ∀ name ∈ commands.map Prod.fst, IsName name :=
  AsciiText.forall_mem_of_all (by decide)

lemma IsName.ascii {name : String} (h : IsName name) : ∀ x ∈ AsciiText.bytes name, x < 128 :=
  fun x hx => (h.printable x hx).1.lt

/-- The names that start with the typed text. -/
def matching (names : List String) (typed : String) : List String :=
  names.filter (fun name => Shell.startsWith name typed)

/-- What Tab makes of the typed text. -/
structure Completes (names : List String) (typed result : String) : Prop where
  extends_typed : AsciiText.bytes typed <+: AsciiText.bytes result
  unknown : matching names typed = [] → result = typed
  /-- The space behind a single name ends the matching; the name before it matches only itself. -/
  single : ∀ name, matching names typed = [name] →
    result = name++" " ∧ matching names name = [name] ∧ matching names result = []
  several : 2 ≤ (matching names typed).length →
    IsCommonPrefix ((matching names typed).map AsciiText.bytes) (AsciiText.bytes result) ∧
      matching names result = matching names typed

section Matching
variable {names : List String} {name typed result : String}

lemma startsWith_iff (h : IsName name) :
    Shell.startsWith name typed = true ↔ AsciiText.bytes typed <+: AsciiText.bytes name := by
  rw [Shell.startsWith,List.isPrefixOf_iff_prefix,AsciiText.toList_prefix_iff h.ascii]

lemma mem_matching (hnames : ∀ name ∈ names, IsName name) :
    name ∈ matching names typed ↔
      name ∈ names ∧ AsciiText.bytes typed <+: AsciiText.bytes name := by
  rw [matching,List.mem_filter]
  exact and_congr_right fun h => startsWith_iff (hnames name h)

lemma forall_matching (hnames : ∀ name ∈ names, IsName name) {found : List String}
    (h : matching names typed = found) :
    ∀ name ∈ found, IsName name ∧ AsciiText.bytes typed <+: AsciiText.bytes name := by
  intro name hname
  rw [← h,mem_matching hnames] at hname
  exact ⟨hnames name hname.1,hname.2⟩

/-- A longer text that all the names still start with matches the same names. -/
lemma matching_eq (hnames : ∀ name ∈ names, IsName name)
    (htyped : AsciiText.bytes typed <+: AsciiText.bytes result)
    (hresult : ∀ name ∈ matching names typed, AsciiText.bytes result <+: AsciiText.bytes name) :
    matching names result = matching names typed := by
  apply List.filter_congr
  intro name hname
  rw [Bool.eq_iff_iff,startsWith_iff (hnames name hname),startsWith_iff (hnames name hname)]
  exact ⟨htyped.trans,fun h => hresult name ((mem_matching hnames).mpr ⟨hname,h⟩)⟩

lemma matching_space (hnames : ∀ name ∈ names, IsName name) :
    matching names (name++" ") = [] := by
  apply List.filter_eq_nil_iff.mpr
  intro other hother h
  rw [startsWith_iff (hnames other hother),AsciiText.bytes_append] at h
  have hspace : (32 : UInt8) ∈ AsciiText.bytes other := h.subset (List.mem_append_right _ (by decide))
  exact ((hnames other hother).printable 32 hspace).2 rfl

lemma ofBytes_space (h : IsName name) :
    AsciiText.ofBytes (AsciiText.bytes name++[32]) = name++" " := by
  have hb : AsciiText.bytes (name++" ") = AsciiText.bytes name++[32] := AsciiText.bytes_append name " "
  rw [← hb]
  apply AsciiText.ofBytes_bytes
  apply AsciiText.ascii_of_bytes
  intro x hx
  rw [hb] at hx
  rcases List.mem_append.mp hx with hx | hx
  · exact h.ascii x hx
  · rw [List.mem_singleton.mp hx]
    decide

end Matching

namespace Shell
variable {s : Shell} {first typed : String} {others : List String}

lemma commonLength_eq (first name : String) (limit : ℕ) : commonLength first name limit =
    min limit (agreement (AsciiText.bytes first) (AsciiText.bytes name)) := by
  rw [commonLength,← List.take_takeWhile,List.length_take,agreement]

/-- What `complete` finds common to the names. -/
def commonStart (first : String) (others : List String) : List UInt8 :=
  (AsciiText.bytes first).take
    (others.foldl (fun limit name => commonLength first name limit) (AsciiText.bytes first).length)

lemma foldl_commonLength (first : String) (others : List String) (limit : ℕ) :
    others.foldl (fun limit name => commonLength first name limit) limit =
      (others.map AsciiText.bytes).foldl
        (fun limit l => min limit (agreement (AsciiText.bytes first) l)) limit := by
  simp only [List.foldl_map,commonLength_eq]

lemma commonStart_isCommonPrefix (first : String) (others : List String) :
    IsCommonPrefix ((first :: others).map AsciiText.bytes) (commonStart first others) := by
  rw [commonStart,foldl_commonLength]
  exact isCommonPrefix_foldl (AsciiText.bytes first) (others.map AsciiText.bytes)

lemma commonStart_length (first : String) (others : List String) :
    (commonStart first others).length = others.foldl
      (fun limit name => commonLength first name limit) (AsciiText.bytes first).length := by
  rw [commonStart,List.length_take,foldl_commonLength]
  exact min_eq_left (le_foldl_min.mp le_rfl).1

/-- It lies between the typed text and each of the names. -/
lemma commonStart_between
    (h : ∀ name ∈ first :: others, AsciiText.bytes typed <+: AsciiText.bytes name) :
    AsciiText.bytes typed <+: commonStart first others ∧
      ∀ name ∈ first :: others, commonStart first others <+: AsciiText.bytes name := by
  have hcommon := commonStart_isCommonPrefix first others
  exact ⟨hcommon.longest _ (List.forall_mem_map.mpr h),List.forall_mem_map.mp hcommon.common⟩

@[simp] lemma commonStart_nil (first : String) : commonStart first [] = AsciiText.bytes first :=
  List.take_length

/-- The sections that print the names below the line. -/
def candidates (names : List String) : List Section :=
  [println ""]++names.map (fun name => print (name++"  "))++[println ""]

def IsRedraw (ops : Section) : Prop :=
  ∃ anchor text cursor oldLen, ops = [.replaceInput anchor text cursor oldLen]

lemma not_isRedraw_println (text : String) : ¬IsRedraw (println text) := by
  rintro ⟨anchor,line,cursor,oldLen,h⟩
  cases h

lemma redraw_performs (h : s.line.Valid) (oldLen : ℕ) (P : List Section → Unit → Prop) :
    (s.redraw oldLen).Performs P ↔
      P [[.replaceInput s.anchor s.line.text s.line.cursor oldLen]] () := by
  rw [redraw_eq h,performs_performAll]

lemma prompt_performs (P : List Section → Position → Prop) :
    prompt.Performs P ↔ ∀ anchor, P [promptSection] anchor := .rfl

/-- The line grows to what the names have in common, and a single name gets its space. -/
lemma completeFrom_performs (hs : s.line.Holds (AsciiText.bytes typed) [])
    (hnames : ∀ name ∈ first :: others,
      IsName name ∧ AsciiText.bytes typed <+: AsciiText.bytes name) :
    (s.completeFrom first others).Performs fun calls s' =>
      s'.line.Holds (commonStart first others++if others = [] then [32] else []) [] ∧
      s'.line.overflow = s.line.overflow ∧
      (others ≠ [] ∧ (commonStart first others).length = s.line.len →
        candidates (first :: others) <:+: calls) ∧
      (¬(others ≠ [] ∧ (commonStart first others).length = s.line.len) →
        ∀ ops ∈ calls, IsRedraw ops) := by
  obtain ⟨hlong,hstarts⟩ := commonStart_between fun name hn => (hnames name hn).2
  have hfirst := hstarts first List.mem_cons_self
  have hname := (hnames first List.mem_cons_self).1
  have hshort := hname.short
  have hbound := hfirst.length_le
  obtain ⟨l,hl,hh,hflag⟩ := hs.grow hlong
    (fun x hx => (hname.printable x (hfirst.subset hx)).1) (by unfold maxInput; omega)
  rw [commonStart] at hl
  simp only [completeFrom,hl,ofOption_some,bind_eq,ret_bind]
  rw [← commonStart_length]
  by_cases hone : others = []
  · have hlen : l.len = (commonStart first others).length := hh.len
    obtain ⟨l',hl',hh',hflag'⟩ := hh.insertSpace (by unfold maxInput; omega)
    rw [if_pos hone,if_pos hone,hl',ofOption_some,ret_bind,performs_bind,redraw_performs hh'.valid]
    exact ⟨hh',hflag'.trans hflag,fun h => absurd hone h.1,
      fun _ ops hops => ⟨_,_,_,_,List.mem_singleton.mp hops⟩⟩
  · rw [if_neg hone,if_neg hone,List.append_nil]
    by_cases hsame : (commonStart first others).length = s.line.len
    · rw [if_pos hsame,performs_bind,redraw_performs hh.valid.cursorToEnd,
        performs_bind,performs_performAll,performs_bind,prompt_performs]
      intro anchor
      rw [performs_bind,redraw_performs hh.valid.cursorToEnd]
      have hend := hh.move (commonStart first others) [] rfl
      rw [show (commonStart first others).length = l.len from hh.len.symm] at hend
      exact ⟨hend,hflag,fun _ => List.infix_append' _ _ _,fun h => absurd ⟨hone,hsame⟩ h⟩
    · rw [if_neg hsame,performs_bind,redraw_performs hh.valid]
      exact ⟨hh,hflag,fun h => absurd h.2 hsame,
        fun _ ops hops => ⟨_,_,_,_,List.mem_singleton.mp hops⟩⟩

/-- Redraws print no candidates. -/
lemma not_candidates {calls : List Section} {names : List String}
    (h : ∀ ops ∈ calls, IsRedraw ops) : ¬candidates names <:+: calls := by
  intro hin
  have hmem : println "" ∈ candidates names := by simp [candidates]
  exact not_isRedraw_println "" (h _ (hin.subset hmem))

/-! ### The completed text -/

section Completes
variable {names : List String} {name : String}

lemma completes_none (h : matching names typed = []) : Completes names typed typed := by
  refine ⟨List.prefix_rfl,fun _ => rfl,fun name hone => ?_,fun hseveral => ?_⟩
  · rw [h] at hone
    cases hone
  · rw [h] at hseveral
    cases hseveral

lemma completes_single (hnames : ∀ name ∈ names, IsName name) (h : matching names typed = [name]) :
    Completes names typed (name++" ") := by
  obtain ⟨-,htyped⟩ := forall_matching hnames h name List.mem_cons_self
  refine ⟨?_,fun hnone => ?_,fun other hother => ?_,fun hseveral => ?_⟩
  · rw [AsciiText.bytes_append]
    exact htyped.trans (List.prefix_append _ _)
  · rw [h] at hnone
    cases hnone
  · rw [h] at hother
    cases hother
    refine ⟨rfl,?_,matching_space hnames⟩
    rw [matching_eq hnames htyped,h]
    rw [h]
    exact List.forall_mem_singleton.mpr List.prefix_rfl
  · rw [h] at hseveral
    exact absurd hseveral (by simp)

lemma completes_several (hnames : ∀ name ∈ names, IsName name)
    (h : matching names typed = first :: others) (hone : others ≠ []) :
    Completes names typed (AsciiText.ofBytes (commonStart first others)) := by
  have hfound := forall_matching hnames h
  obtain ⟨hlong,hstarts⟩ := commonStart_between fun name hn => (hfound name hn).2
  have hbytes := AsciiText.bytes_ofBytes fun x hx =>
    (hfound first List.mem_cons_self).1.ascii x ((hstarts first List.mem_cons_self).subset hx)
  refine ⟨?_,fun hnone => ?_,fun name hsingle => ?_,fun _ => ?_⟩
  · rwa [hbytes]
  · rw [h] at hnone
    cases hnone
  · rw [h] at hsingle
    exact absurd (List.cons.inj hsingle).2 hone
  · rw [hbytes,h]
    refine ⟨commonStart_isCommonPrefix first others,
      (matching_eq hnames (by rwa [hbytes]) ?_).trans h⟩
    rwa [h,hbytes]

end Completes

section Complete
variable {table : List (String × String)}

lemma complete_nil (hcursor : s.line.cursor = s.line.len) (htyped : s.line.asStr = some typed)
    (hspace : ' ' ∉ typed.toList) (h : matching (table.map Prod.fst) typed = []) :
    s.complete table = .ret s := by
  unfold matching at h
  rw [complete,if_neg (not_not_intro hcursor),htyped]
  simp only [ofOption_some,bind_eq,ret_bind,if_neg hspace,h,pure_eq]

lemma complete_cons (hcursor : s.line.cursor = s.line.len) (htyped : s.line.asStr = some typed)
    (hspace : ' ' ∉ typed.toList) (h : matching (table.map Prod.fst) typed = first :: others) :
    s.complete table = s.completeFrom first others := by
  unfold matching at h
  rw [complete,if_neg (not_not_intro hcursor),htyped]
  simp only [ofOption_some,bind_eq,ret_bind,if_neg hspace,h]

/-- For every table of printable names without spaces and every line that is read to its end, Tab
extends the typed text to what the matching names have in common. The names are printed exactly
when there are several of them and the line did not grow. -/
theorem complete_extends
    (hnames : ∀ name ∈ table.map Prod.fst, IsName name) (hcursor : s.line.cursor = s.line.len)
    (htyped : s.line.asStr = some typed) (hspace : ' ' ∉ typed.toList) :
    (s.complete table).Performs fun calls s' => ∃ result, s'.line.asStr = some result ∧
      Completes (table.map Prod.fst) typed result ∧
      (matching (table.map Prod.fst) typed = [] → s'.line = s.line) ∧
      s'.line.overflow = s.line.overflow ∧
      (candidates (matching (table.map Prod.fst) typed) <:+: calls ↔
        2 ≤ (matching (table.map Prod.fst) typed).length ∧ s'.line.len = s.line.len) ∧
      (¬(2 ≤ (matching (table.map Prod.fst) typed).length ∧ s'.line.len = s.line.len) →
        ∀ ops ∈ calls, IsRedraw ops) := by
  cases hmatch : matching (table.map Prod.fst) typed with
  | nil =>
    rw [complete_nil hcursor htyped hspace hmatch]
    refine ⟨typed,htyped,completes_none hmatch,fun _ => rfl,rfl,?_,?_⟩
    · simp [candidates]
    · exact fun _ ops hops => absurd hops List.not_mem_nil
  | cons first others =>
    have hfound := forall_matching hnames hmatch
    obtain ⟨hname,hstarts⟩ := hfound first List.mem_cons_self
    have hline : s.line.Holds (AsciiText.bytes typed) [] := Line.holds_of_asStr htyped hcursor
      fun x hx => (hname.printable x (hstarts.subset hx)).1
    rw [complete_cons hcursor htyped hspace hmatch]
    refine (completeFrom_performs hline hfound).mono fun calls s' h => ?_
    obtain ⟨hh,hflag,hlisted,hsilent⟩ := h
    by_cases hone : others = []
    · subst hone
      have hredraws := hsilent fun h => h.1 rfl
      rw [if_pos rfl,commonStart_nil] at hh
      refine ⟨first++" ",?_,completes_single hnames hmatch,fun h => absurd h (by simp),hflag,
        iff_of_false (not_candidates hredraws) (by simp),fun _ => hredraws⟩
      rw [hh.asStr,List.append_nil,← ofBytes_space hname]
    · rw [if_neg hone,List.append_nil] at hh
      have hlen : s'.line.len = (commonStart first others).length := hh.len
      have hcount : 2 ≤ (first :: others).length := by
        rw [List.length_cons]
        exact Nat.succ_le_succ (List.length_pos_iff.mpr hone)
      rw [hlen]
      refine ⟨AsciiText.ofBytes (commonStart first others),by rw [hh.asStr,List.append_nil],
        completes_several hnames hmatch hone,fun h => absurd h (by simp),hflag,⟨fun hlist => ?_,
        fun h => hlisted ⟨hone,h.2⟩⟩,fun h => hsilent fun hs => h ⟨hcount,hs.2⟩⟩
      by_contra hn
      exact not_candidates (hsilent fun hs => hn ⟨hcount,hs.2⟩) hlist

end Complete

/-- Tab behind `h` gives what `help`, `history` and `hostname` have in common. -/
theorem complete_extends_h :
    ((⟨⟨0,Vector.replicate 12 0,Vector.replicate 48 0,false⟩,
      ⟨Vector.replicate maxInput 104,1,1,false⟩,History.new,⟨0,0⟩⟩ : Shell).complete
        commands).Performs fun _ s' => ∃ result, s'.line.asStr = some result ∧
      IsCommonPrefix (["help","history","hostname"].map AsciiText.bytes)
        (AsciiText.bytes result) := by
  have hmatch : matching (commands.map Prod.fst) "h" = ["help","history","hostname"] := by decide
  have htyped : (⟨Vector.replicate maxInput 104,1,1,false⟩ : Line).asStr = some "h" := rfl
  refine (complete_extends isName_commands rfl htyped (by decide)).mono ?_
  rintro calls s' ⟨result,hresult,hcompletes,-⟩
  obtain ⟨hcommon,-⟩ := hcompletes.several (by rw [hmatch]; decide)
  rw [hmatch] at hcommon
  exact ⟨result,hresult,hcommon⟩

/-- Tab behind `m` gives `mem` with its space, which no name starts with. -/
theorem space_ends_matching :
    matching (commands.map Prod.fst) "m" = ["mem"] ∧
    matching (commands.map Prod.fst) "mem " = [] ∧
    ((⟨⟨0,Vector.replicate 12 0,Vector.replicate 48 0,false⟩,
      ⟨Vector.replicate maxInput 109,1,1,false⟩,History.new,⟨0,0⟩⟩ : Shell).complete
        commands).Performs fun _ s' => s'.line.asStr = some "mem " := by
  have hmatch : matching (commands.map Prod.fst) "m" = ["mem"] := by decide
  refine ⟨hmatch,by decide,?_⟩
  have hmem : IsName "mem" := isName_commands "mem" (by decide)
  generalize hs : Shell.mk _ _ _ _ = s
  have hcursor : s.line.cursor = s.line.len := by rw [← hs]
  have htyped : s.line.asStr = some "m" := by
    rw [← hs]
    rfl
  rw [complete_cons hcursor htyped (by decide) hmatch]
  have hprintable : ∀ x ∈ AsciiText.bytes "m", IsPrintable x :=
    AsciiText.forall_mem_of_all (by decide)
  refine (completeFrom_performs (Line.holds_of_asStr htyped hcursor hprintable)
    (forall_matching isName_commands hmatch)).mono fun calls s' h => ?_
  rw [h.1.asStr,List.append_nil,if_pos rfl,commonStart_nil,ofBytes_space hmem]
  rfl

end Shell
end CrabOs.Crabsh
