import Mathlib.Tactic

/-! First-in first-out queues of bounded capacity, with pushes that fail on a full queue. -/

/-- A queue never holds more than its capacity. -/
structure BoundedQueue (α : Type) (capacity : ℕ) where
  items : List α
  bounded : items.length ≤ capacity

namespace BoundedQueue
variable {α : Type} {n : ℕ} {q q' : BoundedQueue α n} {a : α}

def empty : BoundedQueue α n := ⟨[],Nat.zero_le _⟩

def push (q : BoundedQueue α n) (a : α) : Option (BoundedQueue α n) :=
  if h : q.items.length < n then
    some ⟨q.items++[a],by rw [List.length_append]; exact h⟩
  else none

def pop : BoundedQueue α n → Option (α × BoundedQueue α n)
  | ⟨[],_⟩ => none
  | ⟨a :: rest,h⟩ => some (a,⟨rest,Nat.le_of_succ_le h⟩)

@[simp] lemma items_empty : (empty : BoundedQueue α n).items = [] := rfl

lemma items_push (h : q.push a = some q') : q'.items = q.items++[a] := by
  unfold push at h
  split_ifs at h
  cases h
  rfl

lemma length_push (h : q.push a = some q') : q'.items.length = q.items.length+1 := by
  rw [items_push h,List.length_append]
  rfl

lemma push_eq_none_iff : q.push a = none ↔ q.items.length = n := by
  unfold push
  have := q.bounded
  split_ifs with h
  · simp only [false_iff]
    omega
  · simp only [true_iff]
    omega

lemma exists_push (h : q.items.length < n) : ∃ q', q.push a = some q' := by
  cases hp : q.push a with
  | none => rw [push_eq_none_iff.mp hp] at h; exact absurd h (lt_irrefl n)
  | some q' => exact ⟨q',rfl⟩

lemma items_of_pop (h : q.pop = some (a,q')) : q.items = a :: q'.items := by
  obtain ⟨items,hq⟩ := q
  cases items with
  | nil => cases h
  | cons b rest => cases h; rfl

lemma pop_eq_none_iff : q.pop = none ↔ q.items = [] := by
  obtain ⟨items,hq⟩ := q
  cases items <;> simp [pop]

end BoundedQueue
