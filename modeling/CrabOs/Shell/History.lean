import CrabOs.Shell.Line

/-! Command history: a ring of the last 16 lines, browsed with the current line kept as a
draft. -/
namespace CrabOs.Crabsh

def historySize : ℕ := 16

instance : NeZero historySize := ⟨by decide⟩

structure History where
  lines : Vector Line historySize
  start : ℕ
  len : ℕ
  browsing : Option ℕ
  draft : Line

/-- `char::is_whitespace`, the Unicode property White_Space. -/
def isWhitespace (c : Char) : Bool :=
  let n := c.toNat
  (0x9 ≤ n && n ≤ 0xd) || n = 0x20 || n = 0x85 || n = 0xa0 || n = 0x1680 ||
    (0x2000 ≤ n && n ≤ 0x200a) || n = 0x2028 || n = 0x2029 || n = 0x202f || n = 0x205f ||
    n = 0x3000

/-- `text.trim().is_empty()`. -/
def trimIsEmpty (text : String) : Bool := text.toList.all isWhitespace

namespace History

def new : History := ⟨Vector.replicate historySize Line.new,0,0,none,Line.new⟩

def get (h : History) (index : ℕ) : Line := RingBuffer.read h.lines (h.start+index)

/-- Whether the newest entry has this text; reading it aborts on an entry that is no string. -/
def repeatsNewest (h : History) (text : String) : Option Bool :=
  if 0 < h.len then (h.get (h.len-1)).asStr.map (fun newest => newest = text) else some false

/-- Store a line behind the newest, evicting the oldest from a full ring. -/
def push (h : History) (line : Line) : Option History :=
  if h.len = historySize then
    if h.start < historySize then
      some { h with
        lines := RingBuffer.write h.lines h.start line
        start := (h.start+1) % historySize }
    else none
  else
    some { h with
      lines := RingBuffer.write h.lines (h.start+h.len) line
      len := h.len+1 }

def record (h : History) (line : Line) : Option History := do
  let settled := { h with browsing := none }
  let text ← line.asStr
  if trimIsEmpty text then some settled
  else
    let repeated ← settled.repeatsNewest text
    if repeated then some settled else settled.push line

def previous (h : History) (current : Line) : History × Line :=
  if h.len = 0 then (h,current)
  else
    let (index,draft) := match h.browsing with
      | some index => (index-1,h.draft)
      | none => (h.len-1,current)
    let line := h.get index
    ({ h with browsing := some index, draft := draft },{ line with cursor := line.len })

def next (h : History) (current : Line) : History × Line :=
  match h.browsing with
  | some index =>
    if index+1 < h.len then
      let line := h.get (index+1)
      ({ h with browsing := some (index+1) },{ line with cursor := line.len })
    else ({ h with browsing := none },h.draft)
  | none => (h,current)

/-- The ring holds exactly the listed lines, oldest first. -/
structure Holds (h : History) (ls : List Line) : Prop where
  len : h.len = ls.length
  bound : h.len ≤ historySize
  start : h.start < historySize
  entries : ∀ i < h.len, some (h.get i) = ls[i]?
  browsing : ∀ i, h.browsing = some i → i < h.len

theorem holds_new : new.Holds [] := ⟨rfl,Nat.zero_le _,by decide,by simp [new],by simp [new]⟩

variable {h : History} {ls : List Line}

lemma Holds.settled (hh : h.Holds ls) : { h with browsing := none }.Holds ls :=
  ⟨hh.len,hh.bound,hh.start,hh.entries,by simp⟩

lemma Holds.push_full (hh : h.Holds ls) (hb : h.browsing = none) (hfull : h.len = historySize)
    (line : Line) :
    ∃ h', h.push line = some h' ∧ h'.Holds (ls.drop 1++[line]) ∧ h'.browsing = none := by
  have hlen := hh.len
  have hpos := NeZero.pos historySize
  refine ⟨{ h with
      lines := RingBuffer.write h.lines h.start line
      start := (h.start+1) % historySize },by simp [History.push,hfull,hh.start],?_,hb⟩
  refine ⟨?_,hh.bound,Nat.mod_lt _ hpos,?_,by simp [hb]⟩
  · simp only [List.length_append,List.length_drop,List.length_singleton]
    omega
  · intro i hi
    change i < h.len at hi
    change some (RingBuffer.read (RingBuffer.write h.lines h.start line)
      ((h.start+1) % historySize+i)) = _
    rw [RingBuffer.read_mod_add]
    rcases Nat.lt_or_ge (i+1) h.len with hlt | hge
    · rw [RingBuffer.read_write_of_window _ h.start _ le_rfl (by omega) (by omega)
        (by omega) (by omega),List.getElem?_append_left (by simp only [List.length_drop]; omega),
        List.getElem?_drop,Nat.add_assoc,Nat.add_comm 1]
      exact hh.entries (i+1) hlt
    · rw [show h.start+1+i = h.start+historySize by omega,RingBuffer.read_add_size,
        RingBuffer.read_write_self,List.getElem?_append_right (by simp only [List.length_drop]; omega),
        show i-(ls.drop 1).length = 0 by simp only [List.length_drop]; omega]
      rfl

lemma Holds.push_room (hh : h.Holds ls) (hb : h.browsing = none) (hroom : h.len < historySize)
    (line : Line) :
    ∃ h', h.push line = some h' ∧ h'.Holds (ls++[line]) ∧ h'.browsing = none := by
  have hlen := hh.len
  refine ⟨{ h with
      lines := RingBuffer.write h.lines (h.start+h.len) line
      len := h.len+1 },by simp [History.push,hroom.ne],?_,hb⟩
  refine ⟨by simp [hlen],hroom,hh.start,?_,by simp [hb]⟩
  intro i hi
  change i < h.len+1 at hi
  change some (RingBuffer.read (RingBuffer.write h.lines (h.start+h.len) line) (h.start+i)) = _
  rcases Nat.lt_or_ge i h.len with hlt | hge
  · rw [RingBuffer.read_write_of_window _ h.start _ (by omega) (by omega) (by omega)
      (by omega) (by omega),List.getElem?_append_left (by omega)]
    exact hh.entries i hlt
  · obtain rfl : i = h.len := by omega
    rw [RingBuffer.read_write_self,List.getElem?_append_right (by omega),hlen,Nat.sub_self]
    rfl

/-- The last `n` elements. -/
def lastN {α : Type*} (n : ℕ) (l : List α) : List α := l.drop (l.length-n)

/-- Storing a line keeps the newest 16. -/
theorem Holds.push (hh : h.Holds ls) (hb : h.browsing = none) (line : Line) :
    ∃ h', h.push line = some h' ∧ h'.Holds (lastN historySize (ls++[line])) ∧
      h'.browsing = none := by
  have hlen := hh.len
  have hbound := hh.bound
  have hpos := NeZero.pos historySize
  unfold lastN
  rw [List.length_append,List.length_singleton]
  rcases Nat.lt_or_ge h.len historySize with hroom | hfull
  · rw [show ls.length+1-historySize = 0 by omega,List.drop_zero]
    exact hh.push_room hb hroom line
  · rw [show ls.length+1-historySize = 1 by omega,List.drop_append_of_le_length (by omega)]
    exact hh.push_full hb (by omega) line

theorem Holds.previous (hh : h.Holds ls) (current : Line) : (h.previous current).1.Holds ls := by
  unfold History.previous
  split_ifs with hlen
  · exact hh
  · refine ⟨hh.len,hh.bound,hh.start,hh.entries,?_⟩
    intro i hi
    cases hb : h.browsing with
    | none =>
      simp only [hb,Option.some.injEq] at hi
      change i < h.len
      omega
    | some j =>
      have hj := hh.browsing j hb
      simp only [hb,Option.some.injEq] at hi
      change i < h.len
      omega

theorem Holds.next (hh : h.Holds ls) (current : Line) : (h.next current).1.Holds ls := by
  unfold History.next
  cases hb : h.browsing with
  | none => exact hh
  | some j =>
    dsimp only
    split_ifs with hj
    · refine ⟨hh.len,hh.bound,hh.start,hh.entries,?_⟩
      intro i hi
      cases hi
      exact hj
    · exact hh.settled

end History

/-! ### What the ring should hold -/

/-- Remove every element equal to its immediate predecessor. -/
def dropRepeatsAfter {α : Type*} [DecidableEq α] (previous : Option α) : List α → List α
  | [] => []
  | x :: xs =>
    if previous = some x then dropRepeatsAfter (some x) xs
    else x :: dropRepeatsAfter (some x) xs

def dropRepeats {α : Type*} [DecidableEq α] (l : List α) : List α := dropRepeatsAfter none l

/-- A line of nothing but spaces. -/
def isBlank (text : String) : Bool := text.toList.all (fun c => c = ' ')

/-- The entries a ring of unbounded size would hold. -/
def remembered (submitted : List String) : List String :=
  dropRepeats (submitted.filter (fun text => !isBlank text))

section Repeats
variable {α : Type*} [DecidableEq α]

lemma dropRepeatsAfter_concat (p : Option α) (l : List α) (x : α) :
    dropRepeatsAfter p (l++[x]) =
      dropRepeatsAfter p l++(if l.getLast?.or p = some x then [] else [x]) := by
  induction l generalizing p with
  | nil => by_cases h : p = some x <;> simp [dropRepeatsAfter,h]
  | cons y l ih =>
    have hlast : (y :: l).getLast?.or p = l.getLast?.or (some y) := by
      cases l <;> simp [List.getLast?_cons]
    by_cases h : p = some y
    · simp only [List.cons_append,dropRepeatsAfter,h,if_true]
      rw [ih,← h,hlast,h]
    · simp only [List.cons_append,dropRepeatsAfter,h,if_false]
      rw [ih,hlast]

lemma getLast?_dropRepeatsAfter (p : Option α) (l : List α) :
    (dropRepeatsAfter p l).getLast?.or p = l.getLast?.or p := by
  induction l using List.reverseRecOn with
  | nil => rfl
  | append_singleton l x ih =>
    rw [dropRepeatsAfter_concat]
    split_ifs with h
    · rw [List.append_nil,ih,h]
      simp
    · simp

/-- Appending an element keeps it exactly when it differs from the newest one kept. -/
theorem dropRepeats_concat (l : List α) (x : α) :
    dropRepeats (l++[x]) =
      if (dropRepeats l).getLast? = some x then dropRepeats l else dropRepeats l++[x] := by
  have hlast := getLast?_dropRepeatsAfter none l
  simp only [Option.or_none] at hlast
  unfold dropRepeats
  rw [dropRepeatsAfter_concat,hlast,Option.or_none]
  split_ifs <;> simp

end Repeats

lemma remembered_concat (submitted : List String) (text : String) :
    remembered (submitted++[text]) =
      if isBlank text ∨ (remembered submitted).getLast? = some text then remembered submitted
      else remembered submitted++[text] := by
  unfold remembered
  rw [List.filter_append]
  by_cases hb : isBlank text
  · simp [hb]
  · simp only [hb,Bool.false_eq_true,false_or,List.filter_cons,List.filter_nil,Bool.not_false,
      if_true]
    exact dropRepeats_concat _ _

/-- On printable text, Unicode trimming removes spaces only. -/
lemma trimIsEmpty_eq {bs : List UInt8} (h : ∀ x ∈ bs, IsPrintable x) :
    trimIsEmpty (AsciiText.ofBytes bs) = isBlank (AsciiText.ofBytes bs) := by
  have hbyte : ∀ x ∈ bs, (isWhitespace (Char.ofUInt8 x) = true ↔ Char.ofUInt8 x = ' ') := by
    intro x hx
    obtain ⟨h1,h2⟩ := h x hx
    have hspace : Char.ofUInt8 x = ' ' ↔ x.toNat = 0x20 := by
      rw [← Char.toNat_inj,AsciiText.toNat_ofUInt8]
      rfl
    simp only [isWhitespace,AsciiText.toNat_ofUInt8,decide_eq_true_eq,hspace,Bool.or_eq_true,
      Bool.and_eq_true]
    omega
  apply Bool.eq_iff_iff.mpr
  simp only [trimIsEmpty,isBlank,AsciiText.toList_ofBytes,List.all_map,List.all_eq_true,
    Function.comp_apply,decide_eq_true_eq]
  exact forall₂_congr hbyte

namespace History

lemma lastN_concat {α : Type*} (n : ℕ) (l : List α) (x : α) :
    lastN n (lastN n l++[x]) = lastN n (l++[x]) := by
  unfold lastN
  simp only [List.length_append,List.length_drop,List.length_singleton]
  rcases Nat.lt_or_ge l.length n with h | h
  · rw [show l.length-n = 0 by omega,List.drop_zero,Nat.sub_zero]
  · rw [List.drop_append,List.drop_drop,List.drop_append,List.length_drop]
    congr 2 <;> omega

lemma getLast?_lastN {α : Type*} {n : ℕ} (hn : 0 < n) (l : List α) :
    (lastN n l).getLast? = l.getLast? := by
  unfold lastN
  rw [List.getLast?_drop]
  split_ifs with h
  · have : l = [] := List.length_eq_zero_iff.mp (by omega)
    simp [this]
  · rfl

variable {h : History} {ls : List Line}

/-- The duplicate check reads the newest recorded line. -/
lemma Holds.repeatsNewest (hh : h.Holds ls) (hv : ∀ l ∈ ls, l.Valid) (text : String) :
    h.repeatsNewest text = some (decide ((ls.map Line.text).getLast? = some text)) := by
  have hlen := hh.len
  unfold History.repeatsNewest
  split_ifs with hpos
  · have hget := hh.entries (h.len-1) (by omega)
    have hlast : ls.getLast? = some (h.get (h.len-1)) := by
      rw [List.getLast?_eq_getElem?,← hlen,hget]
    have hvalid := hv _ (List.mem_of_getLast? hlast)
    rw [hvalid.asStr,List.getLast?_map,hlast]
    simp
  · have : ls = [] := List.length_eq_zero_iff.mp (by omega)
    simp [this]

/-- One submitted line, against the list of all lines kept so far. -/
theorem Holds.record {kept : List Line} (hh : h.Holds (lastN historySize kept))
    (hv : ∀ l ∈ kept, l.Valid) {line : Line} (hline : line.Valid) :
    ∃ h', h.record line = some h' ∧ h'.browsing = none ∧
      h'.Holds (lastN historySize
        (if isBlank line.text ∨ (kept.map Line.text).getLast? = some line.text then kept
          else kept++[line])) := by
  have hset := hh.settled
  have htrim : trimIsEmpty line.text = isBlank line.text :=
    trimIsEmpty_eq (fun x hx => hline.printable hx)
  have hrep : { h with browsing := none }.repeatsNewest line.text =
      some (decide ((kept.map Line.text).getLast? = some line.text)) := by
    rw [hset.repeatsNewest (fun l hl => hv l (List.mem_of_mem_drop hl)),List.getLast?_map,
      List.getLast?_map,getLast?_lastN (by decide)]
  by_cases hb : isBlank line.text
  · refine ⟨_,?_,rfl,by simpa [hb] using hset⟩
    simp [History.record,hline.asStr,htrim,hb]
  · by_cases hl : (kept.map Line.text).getLast? = some line.text
    · refine ⟨_,?_,rfl,by simpa [hl] using hset⟩
      simp [History.record,hline.asStr,htrim,hb,hrep,hl]
    · obtain ⟨h',hp,hholds,hnone⟩ := hset.push rfl line
      refine ⟨h',?_,hnone,?_⟩
      · simp [-List.getLast?_map,History.record,hline.asStr,htrim,hb,hrep,hl,hp]
      · rw [lastN_concat] at hholds
        rwa [if_neg (by tauto)]

/-- The calls that change a history. -/
inductive Call
  | record (line : Line)
  | previous (current : Line)
  | next (current : Line)

def call (h : History) : Call → Option History
  | .record line => h.record line
  | .previous current => some (h.previous current).1
  | .next current => some (h.next current).1

def calls : List Call → History → Option History
  | [],h => some h
  | c :: cs,h => (h.call c).bind (calls cs)

/-- The texts handed to `record`, in order. -/
def submitted (cs : List Call) : List String :=
  cs.filterMap fun
    | .record line => line.asStr
    | _ => none

lemma calls_append (cs ds : List Call) (h : History) :
    calls (cs++ds) h = (calls cs h).bind (calls ds) := by
  induction cs generalizing h with
  | nil => rfl
  | cons c cs ih =>
    simp only [List.cons_append,calls]
    cases h.call c with
    | none => rfl
    | some h' => exact ih h'

/-- After any calls the ring holds the last 16 of the lines kept so far. -/
theorem calls_hold (cs : List Call) (hv : ∀ line, .record line ∈ cs → line.Valid) :
    ∃ h kept, calls cs new = some h ∧ h.Holds (lastN historySize kept) ∧
      (∀ l ∈ kept, l.Valid) ∧ kept.map Line.text = remembered (submitted cs) := by
  -- The newest call is the last, so the induction peels calls off the end.
  induction cs using List.reverseRecOn with
  | nil => exact ⟨new,[],rfl,holds_new,by simp,rfl⟩
  | append_singleton cs c ih =>
    obtain ⟨h,kept,hrun,hh,hkv,hkept⟩ := ih (fun line hl => hv line (by simp [hl]))
    have hsub : submitted (cs++[c]) = submitted cs++submitted [c] := List.filterMap_append
    rw [calls_append,hrun,hsub]
    cases c with
    | record line =>
      have hline := hv line (by simp)
      obtain ⟨h',hr,-,hh'⟩ := hh.record hkv hline
      refine ⟨h',_,by simp [calls,call,hr],hh',?_,?_⟩
      · split_ifs
        · exact hkv
        · intro l hl
          rcases List.mem_append.mp hl with hl | hl
          · exact hkv l hl
          · rw [List.mem_singleton.mp hl]; exact hline
      · have hone : submitted [.record line] = [line.text] := by simp [submitted,hline.asStr]
        rw [hone,remembered_concat,← hkept]
        split_ifs <;> simp
    | previous current =>
      exact ⟨_,kept,rfl,hh.previous current,hkv,by simp [submitted,hkept]⟩
    | next current =>
      exact ⟨_,kept,rfl,hh.next current,hkv,by simp [submitted,hkept]⟩

/-- The browsable entries are the last 16 submitted lines, without blank lines and without
immediate repetitions, and browsing never leaves them. -/
theorem entries_are_last_remembered (cs : List Call)
    (hv : ∀ line, .record line ∈ cs → line.Valid) :
    ∃ h, calls cs new = some h ∧
      (List.range h.len).map (fun i => (h.get i).asStr) =
        (lastN 16 (remembered (submitted cs))).map some ∧
      ∀ i, h.browsing = some i → i < h.len := by
  obtain ⟨h,kept,hrun,hh,hkv,hkept⟩ := calls_hold cs hv
  refine ⟨h,hrun,?_,hh.browsing⟩
  have hlen := hh.len
  apply List.ext_getElem?
  intro i
  have hmap : lastN 16 (remembered (submitted cs)) = (lastN historySize kept).map Line.text := by
    rw [← hkept]
    simp [lastN,historySize]
  rw [hmap,List.getElem?_map,List.getElem?_map,List.getElem?_map]
  rcases Nat.lt_or_ge i h.len with hi | hi
  · have he := hh.entries i hi
    have hmem : h.get i ∈ kept := List.mem_of_mem_drop (List.mem_of_getElem? he.symm)
    rw [← he]
    simp [hi,(hkv _ hmem).asStr]
  · rw [List.getElem?_eq_none (by simpa using hi),
      List.getElem?_eq_none (by rw [← hlen]; exact hi)]
    rfl

/-- The same line twice, then browsing, leaves one entry. -/
theorem entries_after_repeated_line : ∃ line : Line, line.Valid ∧ line.content = [120] ∧
    ∃ h, calls [.record line,.record line,.previous Line.new] new = some h ∧
      (List.range h.len).map (fun i => (h.get i).asStr) = [some "x"] := by
  obtain ⟨line,-,hh,-⟩ :=
    Line.holds_new.insert (x := 120) ⟨by decide,by decide⟩ (by decide)
  have htext : line.asStr = some "x" := by rw [hh.asStr]; decide
  obtain ⟨h,hrun,he,-⟩ := entries_are_last_remembered
    [.record line,.record line,.previous Line.new] (by
      intro l hl
      simp only [List.mem_cons,Call.record.injEq,reduceCtorEq,List.not_mem_nil,or_false,
        or_self] at hl
      exact hl ▸ hh.valid)
  refine ⟨line,hh.valid,hh.content,h,hrun,he.trans ?_⟩
  have hsub : submitted [.record line,.record line,.previous Line.new] = ["x","x"] := by
    simp [submitted,htext]
  rw [hsub]
  decide

end History
end CrabOs.Crabsh
