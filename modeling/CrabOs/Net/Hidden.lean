import CrabOs.Net.Scan

/-! Script and style elements: which of their text stays hidden, and where hiding ends. -/
namespace CrabOs.Net
open CrabOs.Vga
open AsciiText (isAsciiWhitespace)

/-- The elements whose text is not shown. -/
inductive HiddenElement
  | script | style
  deriving DecidableEq

namespace HiddenElement

def name : HiddenElement → List UInt8
  | script => AsciiText.bytes "script"
  | style => AsciiText.bytes "style"

def other : HiddenElement → HiddenElement
  | script => style
  | style => script

/-- The bytes an end tag of the element starts with. -/
def endTag (e : HiddenElement) : List UInt8 := 60 :: 47 :: e.name

end HiddenElement

/-- Somewhere in the text an end tag of the element starts, in any letter case. -/
def HasEndTag (e : HiddenElement) (text : List UInt8) : Prop :=
  e.endTag <:+: text.map toAsciiLowercase

/-- What stands between the brackets of an opening tag: a name and what follows it. -/
structure Opening (e : HiddenElement) where
  name : List UInt8
  attributes : List UInt8
  named : eqIgnoreAsciiCase name e.name
  plain : 62 ∉ attributes
  delimited : attributes = [] ∨ ∃ byte rest, attributes = byte :: rest ∧
    (isAsciiWhitespace byte ∨ byte = 47)

instance (e : HiddenElement) : DecidablePred (HasEndTag e) :=
  fun _ => inferInstanceAs (Decidable (_ <:+: _))

lemma HasEndTag.mono {e : HiddenElement} {a b : List UInt8} (h : HasEndTag e a) (hab : a <:+: b) :
    HasEndTag e b := List.IsInfix.trans h (hab.map _)

section Pieces

/-- What the scan reads at a time: a tag, of which only the name matters, or a byte. -/
inductive Piece
  | tag (name : List UInt8)
  | byte (b : UInt8)
  deriving DecidableEq

/-- Cut a text as the scan does, while more than `stop` bytes of it are left. -/
def pieces (stop : ℕ) : ℕ → List UInt8 → List Piece
  | 0,_ => []
  | _+1,[] => []
  | fuel+1,byte :: tail =>
    if tail.length < stop then []
    else if byte = 60 ∧ 62 ∈ tail then
      let inner := tail.takeWhile (· ≠ 62)
      .tag (tagName inner) :: pieces stop fuel (tail.drop (inner.length+1))
    else .byte byte :: pieces stop fuel tail

lemma pieces_stop {stop fuel : ℕ} {rest : List UInt8} (h : rest.length ≤ stop) :
    pieces stop fuel rest = [] := by
  cases fuel with
  | zero => rfl
  | succ fuel =>
    cases rest with
    | nil => rfl
    | cons byte tail => exact if_pos h

lemma pieces_tag {stop fuel : ℕ} {inner after : List UInt8} (hn : 62 ∉ inner)
    (h : stop < (60 :: (inner++62 :: after)).length) :
    pieces stop (fuel+1) (60 :: (inner++62 :: after)) =
      .tag (tagName inner) :: pieces stop fuel after := by
  rw [List.length_cons] at h
  rw [pieces,if_neg (by omega),if_pos (by simp)]
  dsimp only
  rw [Separators.takeWhile_ne_append hn]
  simp

lemma pieces_byte {stop fuel : ℕ} {byte : UInt8} {tail : List UInt8} (hb : byte = 60 → 62 ∉ tail)
    (h : stop < (byte :: tail).length) :
    pieces stop (fuel+1) (byte :: tail) = .byte byte :: pieces stop fuel tail := by
  rw [List.length_cons] at h
  rw [pieces,if_neg (by omega),if_neg (fun ht => hb ht.1 ht.2)]

namespace Piece

/-- The piece appends to this output when it is read outside of hidden text. -/
def prints (output : List Char) : Piece → Bool
  | tag name => matchesBlock name && output.getLast? ≠ some '\n'
  | byte b => isAsciiGraphic b ||
      (isAsciiWhitespace b && output.getLast? ≠ some ' ' && output.getLast? ≠ some '\n')

/-- An opening tag of a script or a style. -/
def opens : Piece → Bool
  | tag name => startsHiding name
  | byte _ => false

/-- An end tag of a script or a style. -/
def closes : Piece → Bool
  | tag name => endsHiding name
  | byte _ => false

/-- An end tag of this element. -/
def closesOf (e : HiddenElement) : Piece → Bool
  | tag name => eqIgnoreAsciiCase name (47 :: e.name)
  | byte _ => false

/-- The hidden flag behind the piece. -/
def hides (hidden : Bool) (p : Piece) : Bool := p.opens || (hidden && !p.closes)

end Piece

end Pieces

section Quiet

lemma eqIgnoreAsciiCase_iff {name candidate : List UInt8}
    (hc : candidate.map toAsciiLowercase = candidate) :
    eqIgnoreAsciiCase name candidate ↔ name.map toAsciiLowercase = candidate := by
  unfold eqIgnoreAsciiCase
  rw [decide_eq_true_eq,hc]

/-- No block name starts or ends hiding. -/
lemma matchesBlock_plain {name : List UInt8} (h : matchesBlock name) :
    startsHiding name = false ∧ endsHiding name = false := by
  obtain ⟨block,hb,he⟩ := List.any_eq_true.mp h
  have hn : name.map toAsciiLowercase = (AsciiText.bytes block).map toAsciiLowercase := by
    simpa [eqIgnoreAsciiCase] using he
  unfold startsHiding endsHiding eqIgnoreAsciiCase
  rw [hn]
  clear h he hn
  revert block
  decide

namespace HtmlState

lemma append_ne_self (output : List Char) (c : Char) : output++[c] ≠ output := by
  intro h
  simpa using congrArg List.length h

/-- A tag prints when its name is a block's, outside of hidden text. -/
lemma tag_piece (rest name : List UInt8) (hidden : Bool) (output : List Char) :
    if !hidden && (Piece.tag name).prints output then
      (HtmlState.tag ⟨rest,hidden,output⟩ name).output ≠ output
    else HtmlState.tag ⟨rest,hidden,output⟩ name = ⟨rest,(Piece.tag name).hides hidden,output⟩ := by
  have hp : (!hidden && (Piece.tag name).prints output) =
      (!hidden && matchesBlock name && !endsWith ⟨rest,hidden,output⟩ '\n') := by
    unfold Piece.prints endsWith
    rw [Bool.and_assoc]
    simp
  rw [hp,tag_eq]
  split_ifs with h hs he
  · rw [Bool.and_eq_true,Bool.and_eq_true] at h
    rw [(matchesBlock_plain h.1.2).1] at hs
    contradiction
  · rw [Bool.and_eq_true,Bool.and_eq_true] at h
    rw [(matchesBlock_plain h.1.2).2] at he
    contradiction
  · exact append_ne_self output '\n'
  · next hs => simp [Piece.hides,Piece.opens,hs]
  · next hs he => simp [Piece.hides,Piece.opens,Piece.closes,hs,he]
  · next hs he => simp [Piece.hides,Piece.opens,Piece.closes,hs,he]

/-- A byte of text prints unless it is a blank behind a blank, or no character at all. -/
lemma text_piece (byte : UInt8) (tail : List UInt8) (output : List Char) :
    if !false && (Piece.byte byte).prints output then
      (HtmlState.text ⟨tail,false,output⟩ byte).output ≠ output
    else HtmlState.text ⟨tail,false,output⟩ byte = ⟨tail,false,output⟩ := by
  unfold text Piece.prints endsWith
  by_cases hg : isAsciiGraphic byte
  · simp [hg,not_whitespace_of_graphic hg]
  · by_cases hw : isAsciiWhitespace byte
    · by_cases hs : output.getLast? = some ' ' <;> by_cases hl : output.getLast? = some '\n' <;>
        simp [hg,hw,hs,hl]
    · simp [hg,hw]

lemma byte_piece {byte : UInt8} {tail : List UInt8} (h : byte = 60 → 62 ∉ tail) (hidden : Bool)
    (output : List Char) :
    if !hidden && (Piece.byte byte).prints output then
      (next ⟨byte :: tail,hidden,output⟩).output ≠ output
    else next ⟨byte :: tail,hidden,output⟩ = ⟨tail,(Piece.byte byte).hides hidden,output⟩ := by
  have hkeep : (Piece.byte byte).hides hidden = hidden := by simp [Piece.hides,Piece.opens,Piece.closes]
  rw [hkeep]
  cases hidden with
  | true => exact next_hidden h output
  | false =>
    cases hf : entities.find? (fun entity => entity.1.isPrefixOf (byte :: tail)) with
    | some found =>
      have hb := byte_of_entity hf
      rw [next_entity h hf]
      subst hb
      rw [if_pos (by rfl)]
      exact append_ne_self output found.2
    | none =>
      rw [next_plain h hf]
      exact text_piece byte tail output

/-- One iteration reads the first piece of the rest. -/
lemma next_piece {s : HtmlState} (h : s.rest ≠ []) : ∃ p after, after.length < s.rest.length ∧
    (∀ stop fuel, stop < s.rest.length →
      pieces stop (fuel+1) s.rest = p :: pieces stop fuel after) ∧
    if !s.hidden && p.prints s.output then s.next.output ≠ s.output
    else s.next = ⟨after,p.hides s.hidden,s.output⟩ := by
  obtain ⟨rest,hidden,output⟩ := s
  rcases front_cases h with ⟨inner,after,hn,rfl⟩ | ⟨byte,tail,hb,rfl⟩
  · refine ⟨.tag (tagName inner),after,?_,fun stop fuel hs => pieces_tag hn hs,?_⟩
    · simp only [List.length_cons,List.length_append]
      omega
    · rw [next_tag hn]
      exact tag_piece after (tagName inner) hidden output
  · exact ⟨.byte byte,tail,Nat.lt_succ_self _,fun stop fuel hs => pieces_byte hb hs,
      byte_piece hb hidden output⟩

end HtmlState

/-- Nothing is printed by the pieces, read one after the other. -/
def Quiet (output : List Char) : Bool → List Piece → Prop
  | _,[] => True
  | hidden,p :: ps => (!hidden && p.prints output) = false ∧ Quiet output (p.hides hidden) ps

/-- The iterations before the last `stop` bytes append nothing exactly when their pieces print
nothing. -/
lemma quiet_iff (stop fuel : ℕ) {s : HtmlState} (hf : s.rest.length ≤ fuel) :
    (∀ k, stop < (HtmlState.run k s).rest.length → (HtmlState.run (k+1) s).output = s.output) ↔
      Quiet s.output s.hidden (pieces stop fuel s.rest) := by
  induction fuel generalizing s with
  | zero =>
    refine ⟨fun _ => trivial,fun _ k hk => ?_⟩
    have hl := HtmlState.run_rest_le k s
    omega
  | succ fuel ih =>
    by_cases hs : s.rest.length ≤ stop
    · rw [pieces_stop hs]
      refine ⟨fun _ => trivial,fun _ k hk => ?_⟩
      have hl := HtmlState.run_rest_le k s
      omega
    · have hne : s.rest ≠ [] := by
        rintro hr
        rw [hr] at hs
        exact hs (Nat.zero_le _)
      obtain ⟨p,after,hlt,hp,hnext⟩ := HtmlState.next_piece hne
      rw [hp stop fuel (by omega),Quiet]
      split at hnext
      · next hprints =>
        refine ⟨fun h => absurd (h 0 (by simpa using hs)) hnext,fun h => ?_⟩
        rw [h.1] at hprints
        contradiction
      · next hprints =>
        rw [Bool.not_eq_true] at hprints
        have hi := ih (s := ⟨after,p.hides s.hidden,s.output⟩) (by dsimp only; omega)
        dsimp only at hi
        rw [← hi]
        simp only [hprints,true_and]
        constructor
        · intro h k hk
          rw [← hnext,← HtmlState.run_succ] at hk ⊢
          exact h (k+1) hk
        · intro h k hk
          cases k with
          | zero =>
            rw [HtmlState.run_succ,hnext]
            rfl
          | succ k =>
            rw [HtmlState.run_succ,hnext] at hk ⊢
            exact h k hk

/-- A list of pieces is quiet when each one that would print is read inside hidden text. -/
lemma quiet_iff_forall {output : List Char} {hidden : Bool} {ps : List Piece} :
    Quiet output hidden ps ↔ ∀ before p after, ps = before++p :: after → p.prints output →
      before.foldl Piece.hides hidden = true := by
  induction ps generalizing hidden with
  | nil => simp [Quiet]
  | cons q ps ih =>
    rw [Quiet,ih]
    constructor
    · rintro ⟨hq,h⟩ before p after hs hp
      cases before with
      | nil =>
        cases hs
        simpa [hp] using hq
      | cons b before =>
        cases hs
        exact h before p after rfl hp
    · intro h
      constructor
      · cases hp : q.prints output with
        | false => rw [Bool.and_false]
        | true => simpa using h [] q ps rfl hp
      · intro before p after hs hp
        exact h (q :: before) p after (by rw [hs,List.cons_append]) hp

/-- Text is hidden behind an opening tag, up to the next end tag. -/
lemma foldl_hides {ps : List Piece} : ps.foldl Piece.hides false = true ↔
    ∃ earlier p later, ps = earlier++p :: later ∧ p.opens ∧ ∀ q ∈ later, ¬q.closes := by
  induction ps using List.reverseRecOn with
  | nil => simp
  | append_singleton ps p ih =>
    rw [List.foldl_append,List.foldl_cons,List.foldl_nil]
    unfold Piece.hides
    rw [Bool.or_eq_true,Bool.and_eq_true,Bool.not_eq_true']
    constructor
    · rintro (ho | ⟨hf,hc⟩)
      · exact ⟨ps,p,[],rfl,ho,fun q hq => absurd hq List.not_mem_nil⟩
      · obtain ⟨earlier,q,later,rfl,ho,hl⟩ := ih.mp hf
        refine ⟨earlier,q,later++[p],by simp,ho,?_⟩
        rw [List.forall_mem_append]
        exact ⟨hl,by simpa using hc⟩
    · rintro ⟨earlier,q,later,hs,ho,hl⟩
      induction later using List.reverseRecOn with
      | nil =>
        obtain ⟨-,hq⟩ := List.append_inj' hs rfl
        cases hq
        exact .inl ho
      | append_singleton later r =>
        have hs' : ps++[p] = (earlier++q :: later)++[r] := by simpa using hs
        obtain ⟨hps,hr⟩ := List.append_inj' hs' rfl
        cases hr
        rw [List.forall_mem_append] at hl
        exact .inr ⟨ih.mpr ⟨earlier,q,later,hps,ho,hl.1⟩,by simpa using hl.2 p⟩

end Quiet

section EndTags

lemma endTag_head (e : HiddenElement) : 60 ∉ 47 :: e.name := by cases e <;> decide

lemma name_lower (e : HiddenElement) : e.name.map toAsciiLowercase = e.name := by
  cases e <;> decide

lemma endTag_lower (e : HiddenElement) :
    (47 :: e.name).map toAsciiLowercase = 47 :: e.name := by cases e <;> decide

/-- A comparison with both elements, each written `text e` in small letters. -/
lemma eqIgnoreAsciiCase_either {text : HiddenElement → List UInt8}
    (ht : ∀ e, (text e).map toAsciiLowercase = text e) (name : List UInt8) :
    (eqIgnoreAsciiCase name (text .script) || eqIgnoreAsciiCase name (text .style)) ↔
      ∃ e, name.map toAsciiLowercase = text e := by
  rw [Bool.or_eq_true,eqIgnoreAsciiCase_iff (ht _),eqIgnoreAsciiCase_iff (ht _)]
  constructor
  · rintro (h | h)
    · exact ⟨.script,h⟩
    · exact ⟨.style,h⟩
  · rintro ⟨e,h⟩
    cases e with
    | script => exact .inl h
    | style => exact .inr h

lemma startsHiding_iff (name : List UInt8) :
    startsHiding name ↔ ∃ e : HiddenElement, name.map toAsciiLowercase = e.name :=
  eqIgnoreAsciiCase_either name_lower name

lemma endsHiding_iff (name : List UInt8) :
    endsHiding name ↔ ∃ e : HiddenElement, name.map toAsciiLowercase = 47 :: e.name :=
  eqIgnoreAsciiCase_either endTag_lower name

/-- A tag that is read inside a text and names an end tag is an end tag in that text: what follows
the text starts with a bracket, which no name has. -/
lemma endTag_of_name {e : HiddenElement} {c tail inner after : List UInt8}
    (ht : tail = [] ∨ ∃ t, tail = 60 :: t) (hi : c++tail = inner++62 :: after)
    (hn : (tagName inner).map toAsciiLowercase = 47 :: e.name) : HasEndTag e (60 :: c) := by
  have hp : tagName inner <+: c++tail := by
    rw [hi]
    exact (List.takeWhile_prefix _).trans (List.prefix_append _ _)
  have hc : tagName inner <+: c := by
    rcases List.prefix_or_prefix_of_prefix hp (List.prefix_append c tail) with h | ⟨x,hx⟩
    · exact h
    · cases x with
      | nil =>
        rw [List.append_nil] at hx
        rw [hx]
      | cons y x =>
        rw [← hx,List.prefix_append_right_inj] at hp
        have hy : y = 60 := by
          rcases ht with rfl | ⟨t,rfl⟩
          · simp at hp
          · exact (List.cons_prefix_cons.mp hp).1
        have hm : 60 ∈ (tagName inner).map toAsciiLowercase :=
          List.mem_map.mpr ⟨60,by rw [← hx,hy]; simp,by decide⟩
        rw [hn] at hm
        exact absurd hm (endTag_head e)
  have hl : e.endTag = (60 :: tagName inner).map toAsciiLowercase := by
    rw [List.map_cons,hn]
    rfl
  unfold HasEndTag
  rw [hl]
  exact (List.IsPrefix.map _ (List.cons_prefix_cons.mpr ⟨rfl,hc⟩)).isInfix

lemma closesOf_iff {e : HiddenElement} {name : List UInt8} :
    (Piece.tag name).closesOf e ↔ name.map toAsciiLowercase = 47 :: e.name :=
  eqIgnoreAsciiCase_iff (endTag_lower e)

lemma closes_iff (e : HiddenElement) (p : Piece) :
    p.closes ↔ p.closesOf e ∨ p.closesOf e.other := by
  cases p with
  | byte b => simp [Piece.closes,Piece.closesOf]
  | tag name =>
    rw [closesOf_iff,closesOf_iff]
    change endsHiding name ↔ _
    rw [endsHiding_iff]
    constructor
    · rintro ⟨d,h⟩
      cases e <;> cases d <;> first | exact .inl h | exact .inr h
    · rintro (h | h)
      · exact ⟨e,h⟩
      · exact ⟨e.other,h⟩

/-- Pieces of a text without an end tag are no end tags. -/
lemma pieces_not_closing {e : HiddenElement} {tail : List UInt8}
    (ht : tail = [] ∨ ∃ t, tail = 60 :: t) (fuel : ℕ) {content : List UInt8}
    (hc : ¬HasEndTag e content) :
    ∀ p ∈ pieces tail.length fuel (content++tail), ¬p.closesOf e := by
  induction fuel generalizing content with
  | zero => exact fun p hp => absurd hp List.not_mem_nil
  | succ fuel ih =>
    cases content with
    | nil =>
      rw [List.nil_append,pieces_stop le_rfl]
      exact fun p hp => absurd hp List.not_mem_nil
    | cons byte content =>
      have hs : ∀ {c : List UInt8}, c <:+ byte :: content → ¬HasEndTag e c :=
        fun hc' h => hc (h.mono hc'.isInfix)
      by_cases hb : byte = 60 ∧ 62 ∈ content++tail
      · obtain ⟨rfl,hm⟩ := hb
        by_cases hin : 62 ∈ content
        · -- the tag ends inside the text
          obtain ⟨inner,after,rfl,hn⟩ := List.eq_append_cons_of_mem hin
          have hr : 60 :: (inner++62 :: after)++tail = 60 :: (inner++62 :: (after++tail)) := by simp
          rw [hr,pieces_tag hn (by simp; omega),List.forall_mem_cons]
          constructor
          · intro hp
            have hi : inner++62 :: after++tail = inner++62 :: (after++tail) := by simp
            exact hc (endTag_of_name ht hi (closesOf_iff.mp hp))
          · exact ih (hs ⟨60 :: (inner++[62]),by simp⟩)
        · -- it goes on to the first bracket behind it
          obtain ⟨inner,after,rfl,hn⟩ :=
            List.eq_append_cons_of_mem ((List.mem_append.mp hm).resolve_left hin)
          have hr : 60 :: content++(inner++62 :: after) = 60 :: ((content++inner)++62 :: after) := by
            simp
          have hn' : 62 ∉ content++inner := by simp [hin,hn]
          rw [hr,pieces_tag hn' (by simp),pieces_stop (by simp; omega),List.forall_mem_cons]
          refine ⟨fun hp => ?_,fun p hp => absurd hp List.not_mem_nil⟩
          have hi : content++(inner++62 :: after) = content++inner++62 :: after := by simp
          exact hc (endTag_of_name ht hi (closesOf_iff.mp hp))
      · rw [List.cons_append,pieces_byte (fun h hm => hb ⟨h,hm⟩) (by simp),
          List.forall_mem_cons]
        exact ⟨by simp [Piece.closesOf],ih (hs (List.suffix_cons _ _))⟩

lemma toAsciiLowercase_bracket {byte : UInt8} (h : toAsciiLowercase byte = 60) : byte = 60 := by
  unfold toAsciiLowercase at h
  split at h
  · next hu =>
    rw [Bool.and_eq_true,decide_eq_true_eq,decide_eq_true_eq,UInt8.le_iff_toNat_le,
      UInt8.le_iff_toNat_le] at hu
    have hn := congrArg UInt8.toNat h
    rw [UInt8.toNat_add] at hn
    change 65 ≤ byte.toNat ∧ byte.toNat ≤ 90 at hu
    change (byte.toNat+32) % 256 = 60 at hn
    omega
  · exact h

lemma bracket_of_endTag {e : HiddenElement} {tail : List UInt8}
    (h : tail = [] ∨ e.endTag <+: tail.map toAsciiLowercase) : tail = [] ∨ ∃ t, tail = 60 :: t := by
  cases tail with
  | nil => exact .inl rfl
  | cons byte tail =>
    have hp := h.resolve_left (List.cons_ne_nil _ _)
    have hb := (List.cons_prefix_cons.mp hp).1
    exact .inr ⟨tail,by rw [toAsciiLowercase_bracket hb.symm]⟩

namespace Opening
variable {e : HiddenElement} (opening : Opening e)

/-- A state at the opening tag, with the text of the element and the end of the body behind it. -/
def state (content tail : List UInt8) (output : List Char) : HtmlState :=
  ⟨60 :: (opening.name++opening.attributes++62 :: (content++tail)),false,output⟩

lemma name_eq : opening.name.map toAsciiLowercase = e.name :=
  (eqIgnoreAsciiCase_iff (name_lower e)).mp opening.named

lemma inner_plain : 62 ∉ opening.name++opening.attributes := by
  rw [List.mem_append,not_or]
  refine ⟨fun hm => ?_,opening.plain⟩
  have hl : 62 ∈ e.name := by
    rw [← opening.name_eq]
    exact List.mem_map.mpr ⟨62,hm,by decide⟩
  revert hl
  cases e <;> decide

lemma not_closing (d : HiddenElement) :
    ¬(Piece.tag (tagName (opening.name++opening.attributes))).closesOf d := by
  rw [closesOf_iff]
  intro h
  have hp : 47 :: d.name <+: e.name++opening.attributes.map toAsciiLowercase := by
    rw [← h,← opening.name_eq,← List.map_append]
    exact (List.takeWhile_prefix _).map _
  cases e <;> exact absurd (List.cons_prefix_cons.mp hp).1 (by decide)

end Opening
end EndTags

/-- Each piece that would print comes behind an opening tag of a script or a style, with no end tag
of the other element than `e` in between. -/
def Covered (e : HiddenElement) (output : List Char) (ps : List Piece) : Prop :=
  ∀ before p after, ps = before++p :: after → p.prints output →
    ∃ earlier q later, before = earlier++q :: later ∧ q.opens ∧
      ∀ r ∈ later, ¬r.closesOf e.other

lemma covered_iff {e : HiddenElement} {output : List Char} {ps : List Piece}
    (h : ∀ p ∈ ps, ¬p.closesOf e) : Quiet output false ps ↔ Covered e output ps := by
  rw [quiet_iff_forall]
  unfold Covered
  apply forall₃_congr
  intro before p after
  apply forall₂_congr
  rintro rfl hp
  rw [foldl_hides]
  apply exists₃_congr
  intro earlier q later
  apply and_congr_right
  rintro rfl
  apply and_congr_right
  intro _
  apply forall₂_congr
  intro r hr
  have hne : ¬r.closesOf e := h r (by simp [hr])
  rw [closes_iff e,or_iff_right hne]

/-- The text of a script or a style stays hidden exactly when it is covered: an end tag of the other
element shows what follows it. -/
theorem hidden_text_iff {e : HiddenElement} (opening : Opening e) (content tail : List UInt8)
    (output : List Char) (hc : ¬HasEndTag e content)
    (ht : tail = [] ∨ e.endTag <+: tail.map toAsciiLowercase) :
    (∀ k, tail.length < ((opening.state content tail output).run k).rest.length →
      ((opening.state content tail output).run (k+1)).output = output) ↔
      Covered e output (pieces tail.length (opening.state content tail output).rest.length
        (opening.state content tail output).rest) := by
  have hq := quiet_iff tail.length _ (s := opening.state content tail output) le_rfl
  refine Iff.trans hq (covered_iff ?_)
  change ∀ p ∈ pieces tail.length (_+1)
    (60 :: (opening.name++opening.attributes++62 :: (content++tail))),¬p.closesOf e
  rw [pieces_tag opening.inner_plain (by simp; omega),List.forall_mem_cons]
  exact ⟨opening.not_closing e,pieces_not_closing (bracket_of_endTag ht) _ hc⟩

def scriptTag : Opening .script where
  name := AsciiText.bytes "script"
  attributes := []
  named := by decide
  plain := by decide
  delimited := .inl rfl

theorem hidden_text_example : ¬HasEndTag .script (AsciiText.bytes "x") ∧
    ∀ k, (AsciiText.bytes "</script>").length <
      ((scriptTag.state (AsciiText.bytes "x") (AsciiText.bytes "</script>") []).run k).rest.length →
    ((scriptTag.state (AsciiText.bytes "x") (AsciiText.bytes "</script>") []).run (k+1)).output =
      [] := by
  refine ⟨by decide,?_⟩
  apply (hidden_text_iff scriptTag _ _ [] (by decide) (.inr (by decide))).mpr
  have hp : pieces (AsciiText.bytes "</script>").length
      (scriptTag.state (AsciiText.bytes "x") (AsciiText.bytes "</script>") []).rest.length
      (scriptTag.state (AsciiText.bytes "x") (AsciiText.bytes "</script>") []).rest =
      [.tag (AsciiText.bytes "script"),.byte 120] := by decide
  rw [hp]
  rintro before p after hs hprints
  rcases before with - | ⟨q,before⟩
  · cases hs
    contradiction
  · obtain ⟨rfl,hs⟩ := List.cons_eq_cons.mp hs
    rcases before with - | ⟨r,before⟩
    · exact ⟨[],_,[],rfl,by decide,by decide⟩
    · simp at hs

/-- The end tag of a style shows the text of a script. -/
theorem script_text_leaks : ¬HasEndTag .script (AsciiText.bytes "</style>x") ∧
    ¬∀ k, ([] : List UInt8).length <
        ((scriptTag.state (AsciiText.bytes "</style>x") [] []).run k).rest.length →
      ((scriptTag.state (AsciiText.bytes "</style>x") [] []).run (k+1)).output = [] := by
  refine ⟨by decide,fun h => ?_⟩
  have hx := h 2 (by decide)
  revert hx
  decide

end CrabOs.Net
