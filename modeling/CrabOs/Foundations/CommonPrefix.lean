import Mathlib.Tactic

/-! The longest common prefix of lists, by pairwise comparison with the first of them. -/
namespace CommonPrefix
variable {α : Type*}

/-- All the lists start with `p`, and with nothing that goes beyond it. -/
structure IsCommonPrefix (ls : List (List α)) (p : List α) : Prop where
  common : ∀ l ∈ ls, p <+: l
  longest : ∀ q, (∀ l ∈ ls, q <+: l) → q <+: p

/-- Cutting the bound at each list in turn cuts it at all of them. -/
lemma le_foldl_min {f : List α → ℕ} {ls : List (List α)} {k n : ℕ} :
    k ≤ ls.foldl (fun limit l => min limit (f l)) n ↔ k ≤ n ∧ ∀ l ∈ ls, k ≤ f l := by
  induction ls generalizing n with
  | nil => simp
  | cons l ls ih => rw [List.foldl_cons,ih,le_min_iff,List.forall_mem_cons,and_assoc]

variable [DecidableEq α]

/-- The number of places, from the start, where two lists agree. -/
def agreement (a b : List α) : ℕ := ((a.zip b).takeWhile (fun pair => pair.1 = pair.2)).length

lemma take_prefix_iff {a b : List α} {n : ℕ} (hn : n ≤ a.length) :
    a.take n <+: b ↔ n ≤ agreement a b := by
  induction a generalizing b n with
  | nil =>
    have hzero : n = 0 := Nat.le_zero.mp hn
    simp [hzero]
  | cons x a ih =>
    cases n with
    | zero => simp
    | succ n =>
      have hn' : n ≤ a.length := Nat.le_of_succ_le_succ hn
      cases b with
      | nil => simp [agreement]
      | cons y b =>
        rw [List.take_succ_cons,List.cons_prefix_cons,ih hn']
        by_cases hxy : x = y <;> simp [agreement,hxy]

theorem isCommonPrefix_foldl (a : List α) (ls : List (List α)) :
    IsCommonPrefix (a :: ls)
      (a.take (ls.foldl (fun limit l => min limit (agreement a l)) a.length)) := by
  obtain ⟨hle,hagree⟩ := le_foldl_min.mp (le_refl
    (ls.foldl (fun limit l => min limit (agreement a l)) a.length))
  constructor
  · intro l hl
    rcases List.mem_cons.mp hl with rfl | hl
    · exact List.take_prefix _ _
    · exact (take_prefix_iff hle).mpr (hagree l hl)
  · intro q hq
    have ha : q <+: a := hq a List.mem_cons_self
    refine List.prefix_take_iff.mpr ⟨ha,le_foldl_min.mpr ⟨ha.length_le,fun l hl => ?_⟩⟩
    apply (take_prefix_iff ha.length_le).mp
    rw [← List.prefix_iff_eq_take.mp ha]
    exact hq l (List.mem_cons_of_mem a hl)

end CommonPrefix
