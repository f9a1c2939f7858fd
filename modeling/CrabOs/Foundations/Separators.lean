import Mathlib.Data.List.TakeWhile
import Mathlib.Tactic

/-! Lists that are cut at the first occurrence of a separator, or joined with one. -/
namespace Separators
variable {α : Type*}

section Cutting
variable [DecidableEq α] {a : α} {l before after : List α}

lemma forall_ne (h : a ∉ l) : ∀ b ∈ l, (b ≠ a : Bool) := by
  intro b hb
  rw [decide_eq_true_eq]
  rintro rfl
  exact h hb

lemma takeWhile_ne (h : a ∉ l) : l.takeWhile (· ≠ a) = l :=
  List.takeWhile_eq_self_iff.mpr (forall_ne h)

lemma dropWhile_ne (h : a ∉ l) : l.dropWhile (· ≠ a) = [] :=
  List.dropWhile_eq_nil_iff.mpr (forall_ne h)

lemma takeWhile_ne_append (h : a ∉ before) : (before++a :: after).takeWhile (· ≠ a) = before := by
  rw [List.takeWhile_append_of_pos (forall_ne h),List.takeWhile_cons_of_neg (by simp),
    List.append_nil]

lemma dropWhile_ne_append (h : a ∉ before) :
    (before++a :: after).dropWhile (· ≠ a) = a :: after := by
  rw [List.dropWhile_append_of_pos (forall_ne h),List.dropWhile_cons_of_neg (by simp)]

lemma idxOf?_append (h : a ∉ before) (after : List α) :
    (before++a :: after).idxOf? a = some before.length := by
  induction before with
  | nil =>
    rw [List.nil_append,List.idxOf?_cons,beq_self_eq_true]
    rfl
  | cons b before ih =>
    rw [List.mem_cons,not_or] at h
    rw [List.cons_append,List.idxOf?_cons,ih h.2]
    simp [Ne.symm h.1]

end Cutting

/-- A joined list holds what its parts and the separator hold. -/
lemma forall_mem_intercalate {P : α → Prop} {separator : List α} {parts : List (List α)}
    (hs : ∀ x ∈ separator, P x) (h : ∀ part ∈ parts, ∀ x ∈ part, P x) :
    ∀ x ∈ separator.intercalate parts, P x := by
  induction parts with
  | nil => exact fun x hx => absurd hx List.not_mem_nil
  | cons part parts ih =>
    have hpart := h part List.mem_cons_self
    have hrest := ih fun p hp => h p (List.mem_cons_of_mem _ hp)
    cases parts with
    | nil =>
      rw [List.intercalate_singleton]
      exact hpart
    | cons next parts =>
      rw [List.intercalate_cons_cons,List.forall_mem_append,List.forall_mem_append]
      exact ⟨⟨hpart,hs⟩,hrest⟩

end Separators
