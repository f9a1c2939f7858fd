import Mathlib.Tactic

/-! Spans of addresses that do not overlap, and how much room they take. -/

/-- The addresses from `start` up to, but not including, `start+size`. -/
structure Span where
  start : ℕ
  size : ℕ
  deriving DecidableEq

namespace Span

def stop (a : Span) : ℕ := a.start+a.size

/-- No address lies in both. -/
def Apart (a b : Span) : Prop := a.stop ≤ b.start ∨ b.stop ≤ a.start

def Within (a b : Span) : Prop := b.start ≤ a.start ∧ a.stop ≤ b.stop

lemma Apart.symm {a b : Span} (h : a.Apart b) : b.Apart a := Or.symm h

lemma Within.apart {a b c : Span} (h : a.Within b) (hbc : b.Apart c) : a.Apart c := by
  unfold Within Apart at *
  omega

lemma Within.trans {a b c : Span} (hab : a.Within b) (hbc : b.Within c) : a.Within c :=
  ⟨hbc.1.trans hab.1,hab.2.trans hbc.2⟩

/-- The spans lie in one region and do not overlap. -/
structure Packed (region : Span) (spans : List Span) : Prop where
  inside : ∀ a ∈ spans, a.Within region
  apart : spans.Pairwise Apart

def total (spans : List Span) : ℕ := (spans.map size).sum

@[simp] lemma total_nil : total [] = 0 := rfl
@[simp] lemma total_cons (a : Span) (spans : List Span) : total (a :: spans) = a.size+total spans :=
  by simp [total]
@[simp] lemma total_append (l₁ l₂ : List Span) : total (l₁++l₂) = total l₁+total l₂ := by
  simp [total]

lemma total_perm {l₁ l₂ : List Span} (h : l₁.Perm l₂) : total l₁ = total l₂ :=
  (h.map size).sum_eq

namespace Packed
variable {region a b c : Span} {spans l₁ l₂ : List Span}

lemma perm (h : Packed region l₁) (hp : l₁.Perm l₂) : Packed region l₂ :=
  ⟨fun a ha => h.inside a (hp.mem_iff.mpr ha),h.apart.perm hp fun hab => hab.symm⟩

lemma tail (h : Packed region (a :: spans)) : Packed region spans :=
  ⟨fun b hb => h.inside b (List.mem_cons_of_mem a hb),(List.pairwise_cons.mp h.apart).2⟩

lemma cons (h : Packed region spans) (ha : a.Within region) (hapart : ∀ b ∈ spans, a.Apart b) :
    Packed region (a :: spans) := by
  refine ⟨?_,List.pairwise_cons.mpr ⟨hapart,h.apart⟩⟩
  intro b hb
  rcases List.mem_cons.mp hb with rfl | hb
  · exact ha
  · exact h.inside b hb

/-- A span may be replaced by a part of itself. -/
lemma shrink (h : Packed region (a :: spans)) (hb : b.Within a) : Packed region (b :: spans) :=
  h.tail.cons (hb.trans (h.inside a List.mem_cons_self)) fun c hc =>
    hb.apart ((List.pairwise_cons.mp h.apart).1 c hc)

/-- A span may be replaced by two parts of itself. -/
lemma split (h : Packed region (a :: spans)) (hb : b.Within a) (hc : c.Within a)
    (hbc : b.Apart c) : Packed region (b :: c :: spans) := by
  refine (h.shrink hc).cons (hb.trans (h.inside a List.mem_cons_self)) ?_
  intro d hd
  rcases List.mem_cons.mp hd with rfl | hd
  · exact hbc
  · exact hb.apart ((List.pairwise_cons.mp h.apart).1 d hd)

/-- The addresses that some span covers. -/
def cover (spans : List Span) : Finset ℕ :=
  spans.foldr (fun a s => Finset.Ico a.start a.stop ∪ s) ∅

lemma mem_cover {n : ℕ} : n ∈ cover spans ↔ ∃ a ∈ spans, a.start ≤ n ∧ n < a.stop := by
  induction spans with
  | nil => simp [cover]
  | cons a spans ih =>
    change n ∈ Finset.Ico a.start a.stop ∪ cover spans ↔ _
    simp [ih]

/-- Spans that do not overlap cover as many addresses as they are long together. -/
lemma card_cover (h : spans.Pairwise Apart) : (cover spans).card = total spans := by
  induction spans with
  | nil => rfl
  | cons a spans ih =>
    obtain ⟨ha,h⟩ := List.pairwise_cons.mp h
    have hd : Disjoint (Finset.Ico a.start a.stop) (cover spans) := by
      rw [Finset.disjoint_left]
      intro n hn hc
      obtain ⟨b,hb,hbn⟩ := mem_cover.mp hc
      rw [Finset.mem_Ico] at hn
      have := ha b hb
      unfold Apart at this
      omega
    change (Finset.Ico a.start a.stop ∪ cover spans).card = _
    rw [Finset.card_union_of_disjoint hd,ih h,Nat.card_Ico,total_cons]
    simp [stop]

/-- They fit into the region. -/
theorem total_le (h : Packed region spans) : total spans ≤ region.size := by
  rw [← card_cover h.apart]
  have hsub : cover spans ⊆ Finset.Ico region.start region.stop := by
    intro n hn
    obtain ⟨a,ha,hn⟩ := mem_cover.mp hn
    have := h.inside a ha
    unfold Within at this
    rw [Finset.mem_Ico]
    omega
  have hcard := Finset.card_le_card hsub
  rw [Nat.card_Ico] at hcard
  simpa [stop] using hcard

end Packed
end Span
