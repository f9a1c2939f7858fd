import CrabOs.Foundations.Separators
import CrabOs.Net.Web

/-! One iteration of the loop of `render_html`: what it reads off the body and what it does. -/
namespace CrabOs.Net
open CrabOs.Vga
open AsciiText (isAsciiWhitespace)

/-- The name of a tag, cut from what stands between its angle brackets. -/
def tagName (inner : List UInt8) : List UInt8 := inner.takeWhile (fun b => !isAsciiWhitespace b)

def startsHiding (name : List UInt8) : Bool :=
  eqIgnoreAsciiCase name (AsciiText.bytes "script") ||
    eqIgnoreAsciiCase name (AsciiText.bytes "style")

def endsHiding (name : List UInt8) : Bool :=
  eqIgnoreAsciiCase name (AsciiText.bytes "/script") ||
    eqIgnoreAsciiCase name (AsciiText.bytes "/style")

lemma isAsciiGraphic_iff (byte : UInt8) :
    isAsciiGraphic byte ↔ 33 ≤ byte.toNat ∧ byte.toNat ≤ 126 := by
  unfold isAsciiGraphic
  rw [Bool.and_eq_true,decide_eq_true_eq,decide_eq_true_eq,UInt8.le_iff_toNat_le,
    UInt8.le_iff_toNat_le]
  rfl

lemma not_whitespace_of_graphic {byte : UInt8} (h : isAsciiGraphic byte) :
    isAsciiWhitespace byte = false := by
  by_contra hw
  rw [Bool.not_eq_false] at hw
  simp only [isAsciiWhitespace,Bool.or_eq_true,decide_eq_true_eq] at hw
  rcases hw with (((rfl | rfl) | rfl) | rfl) | rfl <;> contradiction

namespace HtmlState

def next (s : HtmlState) : HtmlState := run 1 s

@[simp] lemma run_zero (s : HtmlState) : run 0 s = s := rfl

lemma run_nil {s : HtmlState} (h : s.rest = []) (k : ℕ) : run k s = s := by
  cases k with
  | zero => rfl
  | succ k => rw [run,h]

lemma run_succ (k : ℕ) (s : HtmlState) : run (k+1) s = run k s.next := by
  unfold next
  cases h : s.rest with
  | nil => rw [run_nil h,run_nil h,run_nil h]
  | cons byte tail => simp only [run,h]

lemma run_add (j k : ℕ) (s : HtmlState) : run (j+k) s = run k (run j s) := by
  induction j generalizing s with
  | zero => rw [Nat.zero_add,run_zero]
  | succ j ih => rw [Nat.succ_add,run_succ,run_succ,ih]

/-- The iterations of the loop, by what they find at the front of the body. -/
inductive Iterates : HtmlState → HtmlState → Prop
  | tag {inner after : List UInt8} {hidden : Bool} {output : List Char} (h : 62 ∉ inner) :
    Iterates ⟨60 :: (inner++62 :: after),hidden,output⟩
      (HtmlState.tag ⟨after,hidden,output⟩ (tagName inner))
  | hidden {byte : UInt8} {tail : List UInt8} {output : List Char} (h : byte = 60 → 62 ∉ tail) :
    Iterates ⟨byte :: tail,true,output⟩ ⟨tail,true,output⟩
  | entity {entity after : List UInt8} {character : Char} {output : List Char}
    (h : (entity,character) ∈ entities) :
    Iterates ⟨entity++after,false,output⟩ ⟨after,false,output++[character]⟩
  | text {byte : UInt8} {tail : List UInt8} {output : List Char} (h : byte = 60 → 62 ∉ tail)
    (hn : ∀ e ∈ entities, ¬e.1 <+: byte :: tail) :
    Iterates ⟨byte :: tail,false,output⟩ (HtmlState.text ⟨tail,false,output⟩ byte)

lemma tag_eq (s : HtmlState) (name : List UInt8) : s.tag name =
    if startsHiding name then { s with hidden := true }
    else if endsHiding name then { s with hidden := false }
    else if !s.hidden && matchesBlock name && !s.endsWith '\n' then
      { s with output := s.output++['\n'] }
    else s := rfl

lemma tag_with_rest (s : HtmlState) (rest name : List UInt8) :
    { s.tag name with rest := rest } = ({ s with rest := rest } : HtmlState).tag name := by
  unfold tag endsWith
  split_ifs <;> rfl

lemma text_with_rest (s : HtmlState) (rest : List UInt8) (byte : UInt8) :
    { s.text byte with rest := rest } = ({ s with rest := rest } : HtmlState).text byte := by
  unfold text endsWith
  split_ifs <;> rfl

lemma next_tag {inner : List UInt8} (h : 62 ∉ inner) (after : List UInt8) (hidden : Bool)
    (output : List Char) : next ⟨60 :: (inner++62 :: after),hidden,output⟩ =
      HtmlState.tag ⟨after,hidden,output⟩ (tagName inner) := by
  have hi : (60 :: (inner++62 :: after)).idxOf? 62 = some (inner.length+1) := by
    rw [List.idxOf?_cons,Separators.idxOf?_append h]
    rfl
  change step ⟨60 :: (inner++62 :: after),hidden,output⟩ 60 (inner++62 :: after) = _
  unfold step
  rw [if_pos rfl]
  dsimp only
  rw [hi]
  dsimp only
  rw [tag_with_rest]
  simp [tagName]

lemma no_tag {byte : UInt8} {tail : List UInt8} (h : byte = 60 → 62 ∉ tail) :
    (if byte = 60 then (byte :: tail).idxOf? 62 else none) = none := by
  split
  · next hb =>
    rw [List.idxOf?_eq_none_iff]
    subst hb
    simpa using h rfl
  · rfl

lemma next_hidden {byte : UInt8} {tail : List UInt8} (h : byte = 60 → 62 ∉ tail)
    (output : List Char) : next ⟨byte :: tail,true,output⟩ = ⟨tail,true,output⟩ := by
  change step ⟨byte :: tail,true,output⟩ byte tail = _
  unfold step
  dsimp only
  rw [no_tag h]
  rfl

lemma next_entity {byte : UInt8} {tail entity : List UInt8} {character : Char}
    (h : byte = 60 → 62 ∉ tail)
    (hf : entities.find? (fun entity => entity.1.isPrefixOf (byte :: tail)) =
      some (entity,character)) (output : List Char) :
    next ⟨byte :: tail,false,output⟩ =
      ⟨(byte :: tail).drop entity.length,false,output++[character]⟩ := by
  change step ⟨byte :: tail,false,output⟩ byte tail = _
  unfold step
  dsimp only
  rw [no_tag h]
  simp only [Bool.false_eq_true,if_false,hf]

lemma next_plain {byte : UInt8} {tail : List UInt8} (h : byte = 60 → 62 ∉ tail)
    (hf : entities.find? (fun entity => entity.1.isPrefixOf (byte :: tail)) = none)
    (output : List Char) :
    next ⟨byte :: tail,false,output⟩ = HtmlState.text ⟨tail,false,output⟩ byte := by
  change step ⟨byte :: tail,false,output⟩ byte tail = _
  unfold step
  dsimp only
  rw [no_tag h]
  simp only [Bool.false_eq_true,if_false,hf,text_with_rest]

/-- A body that is not at its end starts with a tag or with a byte that starts none. -/
lemma front_cases {rest : List UInt8} (h : rest ≠ []) :
    (∃ inner after, 62 ∉ inner ∧ rest = 60 :: (inner++62 :: after)) ∨
      ∃ byte tail, (byte = 60 → 62 ∉ tail) ∧ rest = byte :: tail := by
  cases rest with
  | nil => contradiction
  | cons byte tail =>
    by_cases ht : byte = 60 ∧ 62 ∈ tail
    · obtain ⟨rfl,hm⟩ := ht
      obtain ⟨inner,after,rfl,hn⟩ := List.eq_append_cons_of_mem hm
      exact .inl ⟨inner,after,hn,rfl⟩
    · exact .inr ⟨byte,tail,fun hb hm => ht ⟨hb,hm⟩,rfl⟩

theorem iterates_next {s : HtmlState} (h : s.rest ≠ []) : Iterates s s.next := by
  obtain ⟨rest,hidden,output⟩ := s
  rcases front_cases h with ⟨inner,after,hn,rfl⟩ | ⟨byte,tail,hb,rfl⟩
  · rw [next_tag hn]
    exact .tag hn
  · cases hidden with
    | true =>
      rw [next_hidden hb]
      exact .hidden hb
    | false =>
      cases hf : entities.find? (fun entity => entity.1.isPrefixOf (byte :: tail)) with
      | none =>
        rw [next_plain hb hf]
        refine .text hb fun e he hp => ?_
        have hn := List.find?_eq_none.mp hf e he
        exact hn (List.isPrefixOf_iff_prefix.mpr hp)
      | some found =>
        obtain ⟨entity,character⟩ := found
        have hm := List.mem_of_find?_eq_some hf
        have hp := List.find?_some hf
        obtain ⟨after,ha⟩ := List.isPrefixOf_iff_prefix.mp hp
        dsimp only at ha
        rw [next_entity hb hf,← ha,List.drop_left]
        exact .entity hm

/-- What every iteration keeps, the loop keeps. -/
lemma run_invariant {I : HtmlState → Prop} (hI : ∀ s t, I s → Iterates s t → I t) (k : ℕ)
    {s : HtmlState} (h : I s) : I (run k s) := by
  induction k generalizing s with
  | zero => exact h
  | succ k ih =>
    rw [run_succ]
    by_cases hr : s.rest = []
    · rw [next,run_nil hr]
      exact ih h
    · exact ih (hI s s.next h (iterates_next hr))

lemma tag_rest (s : HtmlState) (name : List UInt8) : (s.tag name).rest = s.rest := by
  unfold tag
  split_ifs <;> rfl

lemma text_hidden (s : HtmlState) (byte : UInt8) : (s.text byte).hidden = s.hidden := by
  unfold text
  split_ifs <;> rfl

lemma text_rest (s : HtmlState) (byte : UInt8) : (s.text byte).rest = s.rest := by
  unfold text
  split_ifs <;> rfl

lemma entities_ne_nil {e : List UInt8 × Char} (h : e ∈ entities) : e.1 ≠ [] := by
  revert e
  decide

lemma entities_head {e : List UInt8 × Char} (h : e ∈ entities) : e.1.head? = some 38 := by
  revert e
  decide

/-- Entities start with an ampersand. -/
lemma byte_of_entity {byte : UInt8} {tail : List UInt8} {e : List UInt8 × Char}
    (h : entities.find? (fun entity => entity.1.isPrefixOf (byte :: tail)) = some e) :
    byte = 38 := by
  have hp := List.find?_some h
  obtain ⟨after,ha⟩ := List.isPrefixOf_iff_prefix.mp hp
  have hc := congrArg List.head? ha
  rw [List.head?_append,entities_head (List.mem_of_find?_eq_some h)] at hc
  cases hc
  rfl

/-- Each iteration takes at least one byte off the front. -/
lemma Iterates.shorter {s t : HtmlState} (h : Iterates s t) :
    t.rest <:+ s.rest ∧ t.rest.length < s.rest.length := by
  cases h with
  | @tag inner after _ _ h =>
    rw [tag_rest]
    refine ⟨⟨60 :: (inner++[62]),by simp⟩,?_⟩
    simp only [List.length_cons,List.length_append]
    omega
  | hidden h => exact ⟨List.suffix_cons _ _,Nat.lt_succ_self _⟩
  | entity h =>
    have hl := List.length_pos_iff.mpr (entities_ne_nil h)
    refine ⟨List.suffix_append _ _,?_⟩
    simp only [List.length_append] at hl ⊢
    omega
  | text h hn =>
    rw [text_rest]
    exact ⟨List.suffix_cons _ _,Nat.lt_succ_self _⟩

lemma run_rest_le (k : ℕ) (s : HtmlState) : (run k s).rest.length ≤ s.rest.length-k := by
  induction k generalizing s with
  | zero => exact le_rfl
  | succ k ih =>
    rw [run_succ]
    by_cases h : s.rest = []
    · rw [next,run_nil h,run_nil h,h]
      exact Nat.zero_le _
    · have hl := (iterates_next h).shorter.2
      exact (ih s.next).trans (by omega)

/-- As many iterations as the body has bytes read all of it. -/
lemma run_length (s : HtmlState) : (run s.rest.length s).rest = [] :=
  List.length_eq_zero_iff.mp (by simpa using run_rest_le s.rest.length s)

/-- `t` is a state the loop goes through from `s`. -/
def Reaches (s t : HtmlState) : Prop := ∃ k, run k s = t

lemma Reaches.refl (s : HtmlState) : Reaches s s := ⟨0,rfl⟩

lemma Reaches.of_next {s t : HtmlState} (h : Reaches s.next t) : Reaches s t := by
  obtain ⟨k,hk⟩ := h
  exact ⟨k+1,by rw [run_succ,hk]⟩

lemma Reaches.trans {s t u : HtmlState} (h : Reaches s t) (h' : Reaches t u) : Reaches s u := by
  obtain ⟨j,rfl⟩ := h
  obtain ⟨k,rfl⟩ := h'
  exact ⟨j+k,run_add j k s⟩

/-- The whole loop gives the same from every state on its way. -/
lemma Reaches.run_eq {s t : HtmlState} (h : Reaches s t) :
    run s.rest.length s = run t.rest.length t := by
  obtain ⟨k,rfl⟩ := h
  rw [← run_nil (run_length s) (k+(run k s).rest.length),← run_add,
    ← run_nil (run_length (run k s)) s.rest.length,← run_add,← run_add]
  congr 1
  omega

lemma run_eq_self {s : HtmlState} {k : ℕ} (h : (run k s).rest.length = s.rest.length) :
    run k s = s := by
  by_cases hs : s.rest = []
  · exact run_nil hs k
  · have hl := run_rest_le k s
    have hp := List.length_pos_iff.mpr hs
    have hk : k = 0 := by omega
    rw [hk,run_zero]

/-- The loop is at each length of the remaining body at most once. -/
lemma Reaches.unique {s t u : HtmlState} (ht : Reaches s t) (hu : Reaches s u)
    (h : t.rest.length = u.rest.length) : t = u := by
  obtain ⟨j,rfl⟩ := ht
  obtain ⟨k,rfl⟩ := hu
  rcases Nat.le_total j k with hjk | hkj
  · obtain ⟨d,rfl⟩ := Nat.exists_eq_add_of_le hjk
    rw [run_add] at h ⊢
    exact (run_eq_self h.symm).symm
  · obtain ⟨d,rfl⟩ := Nat.exists_eq_add_of_le hkj
    rw [run_add] at h ⊢
    exact run_eq_self h

end HtmlState
end CrabOs.Net
