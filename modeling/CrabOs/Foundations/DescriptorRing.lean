import CrabOs.Foundations.RingBuffer

/-! Rings of slots shared by a producer and a consumer. The items in flight sit in consecutive
slots from the consumer's position on, and all other slots are free. -/
namespace DescriptorRing
open RingBuffer

variable {α β : Type}

/-- Slots made of two arrays, of which one or both are written. -/
lemma pair_update {ι : Type} [DecidableEq ι] (f : ι → α) (g : ι → β) (i : ι) (a : α) (b : β) :
    (fun j => (Function.update f i a j,Function.update g i b j)) =
      Function.update (fun j => (f j,g j)) i (a,b) := by
  funext j
  by_cases h : j = i
  · subst h
    simp only [Function.update_self]
  · simp only [Function.update_of_ne h]

variable {n : ℕ} [NeZero n]

/-- The slots from number `start` on hold the items in order; the other slots are free. -/
structure Window (Holds : β → α → Prop) (Free : α → Prop) (ring : Fin n → α) (start : ℕ)
    (items : List β) : Prop where
  length_le : items.length ≤ n
  holds : ∀ j item, items[j]? = some item → Holds item (ring (slot n (start+j)))
  free : ∀ j, items.length ≤ j → j < n → Free (ring (slot n (start+j)))

lemma slot_succ (i : ℕ) : slot n (i+1) = slot n i+1 := by
  apply Fin.ext
  simp [slot,Fin.val_add]

/-- Numbers of one round have different slots. -/
lemma slot_add_ne (start : ℕ) {i j : ℕ} (hi : i < n) (hj : j < n) (h : i ≠ j) :
    slot n (start+i) ≠ slot n (start+j) :=
  slot_ne_of_window (Nat.le_add_right start i) (by omega) (Nat.le_add_right start j) (by omega)
    (by omega)

lemma slot_eq_iff {i j : ℕ} (hij : i ≤ j) (hj : j ≤ i+n) : slot n i = slot n j ↔ j = i ∨ j = i+n := by
  constructor
  · intro h
    by_contra hne
    exact slot_ne (n := n) (show i < j by omega) (by omega) h
  · rintro (rfl | rfl)
    · rfl
    · exact Fin.ext (Nat.add_mod_right i n).symm

namespace Window
variable {Holds : β → α → Prop} {Free : α → Prop} {ring : Fin n → α} {start : ℕ}
  {items : List β} {item : β} {a : α}

lemma front (h : Window Holds Free ring start (item :: items)) : Holds item (ring (slot n start)) :=
  h.holds 0 item rfl

/-- If the slot behind the items is free, it is not the slot of an item. -/
lemma length_lt (h : Window Holds Free ring start items)
    (hexclusive : ∀ item a, Holds item a → ¬Free a)
    (hfree : Free (ring (slot n (start+items.length)))) : items.length < n := by
  refine lt_of_le_of_ne h.length_le fun hfull => ?_
  have hslot : slot n (start+items.length) = slot n start := by
    rw [hfull]
    exact Fin.ext (Nat.add_mod_right start n)
  have hpos : 0 < items.length := by
    rw [hfull]
    exact NeZero.pos n
  have hfirst := h.holds 0 _ (List.getElem?_eq_getElem hpos)
  rw [hslot] at hfree
  exact hexclusive _ _ hfirst hfree

/-- The next free slot may be written as long as it stays free. -/
lemma prepare (h : Window Holds Free ring start items) (hlt : items.length < n) (ha : Free a) :
    Window Holds Free (Function.update ring (slot n (start+items.length)) a) start items where
  length_le := h.length_le
  holds j item hj := by
    have hjlt := (List.getElem?_eq_some_iff.mp hj).1
    rw [Function.update_of_ne (slot_add_ne start (by omega) hlt (by omega))]
    exact h.holds j item hj
  free j hj hjn := by
    by_cases hjlen : j = items.length
    · subst hjlen
      rw [Function.update_self]
      exact ha
    · rw [Function.update_of_ne (slot_add_ne start hjn hlt hjlen)]
      exact h.free j hj hjn

/-- The producer fills the next free slot. -/
lemma push (h : Window Holds Free ring start items) (hlt : items.length < n) (ha : Holds item a) :
    Window Holds Free (Function.update ring (slot n (start+items.length)) a) start
      (items++[item]) where
  length_le := by
    rw [List.length_append]
    exact hlt
  holds j item' hj := by
    rw [List.getElem?_append] at hj
    split_ifs at hj with hjlt
    · rw [Function.update_of_ne (slot_add_ne start (by omega) hlt (by omega))]
      exact h.holds j item' hj
    · rw [List.getElem?_singleton] at hj
      split_ifs at hj with hzero
      cases hj
      rw [show start+j = start+items.length by omega,Function.update_self]
      exact ha
  free j hj hjn := by
    rw [List.length_append,List.length_singleton] at hj
    rw [Function.update_of_ne (slot_add_ne start hjn hlt (by omega))]
    exact h.free j (by omega) hjn

/-- The consumer gives the first slot back. -/
lemma pop (h : Window Holds Free ring start (item :: items)) (ha : Free a) :
    Window Holds Free (Function.update ring (slot n start) a) (start+1) items where
  length_le := by
    have hle := h.length_le
    rw [List.length_cons] at hle
    omega
  holds j item' hj := by
    have hlt := (List.getElem?_eq_some_iff.mp hj).1
    have hle := h.length_le
    rw [List.length_cons] at hle
    have hne : slot n (start+(j+1)) ≠ slot n start :=
      slot_add_ne start (j := 0) (by omega) (by omega) (by omega)
    rw [show start+1+j = start+(j+1) by omega,Function.update_of_ne hne]
    exact h.holds (j+1) item' hj
  free j hj hjn := by
    by_cases hlast : j+1 = n
    · rw [show start+1+j = start+n by omega,
        show slot n (start+n) = slot n start from Fin.ext (Nat.add_mod_right start n),
        Function.update_self]
      exact ha
    · have hne : slot n (start+(j+1)) ≠ slot n start :=
        slot_add_ne start (j := 0) (by omega) (by omega) (by omega)
      rw [show start+1+j = start+(j+1) by omega,Function.update_of_ne hne]
      exact h.free (j+1) (by rw [List.length_cons]; omega) (by omega)

end Window
end DescriptorRing
