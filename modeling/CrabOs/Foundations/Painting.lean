import Mathlib.Tactic

/-! Programs that draw on a canvas, described by what they do to each single cell. A drawing
program may fail, when it leaves the canvas. -/
namespace Painting

variable {S ι α : Type}

/-- `for k in 0..n`. -/
def loop (body : ℕ → S → Option S) : ℕ → S → Option S
  | 0,s => some s
  | n+1,s => (loop body n s).bind (body n)

/-- One drawing program after the other. -/
def inOrder : List (S → Option S) → S → Option S
  | [],s => some s
  | draw :: rest,s => (draw s).bind (inOrder rest)

/-- Whatever is on the canvas, the program succeeds and changes each cell as the patch says. -/
def Paints (get : S → ι → α) (draw : S → Option S) (patch : ι → α → α) : Prop :=
  ∀ s, ∃ s', draw s = some s' ∧ ∀ i, get s' i = patch i (get s i)

open Classical in
/-- Change the cells of a region and no others. -/
noncomputable def stamp (region : Set ι) (value : ι → α → α) : ι → α → α :=
  fun i a => if i ∈ region then value i a else a

section Stamp
variable {region region₁ region₂ : Set ι} {value value₁ value₂ : ι → α → α}

lemma stamp_of {i : ι} (h : i ∈ region) (a : α) : stamp region value i a = value i a := if_pos h

lemma stamp_of_not {i : ι} (h : i ∉ region) (a : α) : stamp region value i a = a := if_neg h

/-- Two regions one after the other; the values must say which one wins where they overlap. -/
lemma stamp_stamp (hfirst : ∀ i a, i ∈ region₁ → i ∉ region₂ → value₁ i a = value i a)
    (hsecond : ∀ i a, i ∈ region₂ → value₂ i (stamp region₁ value₁ i a) = value i a) :
    (fun i a => stamp region₂ value₂ i (stamp region₁ value₁ i a)) =
      stamp (region₁ ∪ region₂) value := by
  funext i a
  by_cases h₂ : i ∈ region₂
  · rw [stamp_of h₂,stamp_of (Set.mem_union_right region₁ h₂),hsecond i a h₂]
  · rw [stamp_of_not h₂]
    by_cases h₁ : i ∈ region₁
    · rw [stamp_of h₁,stamp_of (Set.mem_union_left region₂ h₁),hfirst i a h₁ h₂]
    · rw [stamp_of_not h₁,stamp_of_not fun h => h.elim h₁ h₂]

end Stamp

namespace Paints
variable {get : S → ι → α} {draw draw' : S → Option S} {patch patch' : ι → α → α}

/-- One program after the other. -/
lemma andThen (h : Paints get draw patch) (h' : Paints get draw' patch') :
    Paints get (fun s => (draw s).bind draw') (fun i a => patch' i (patch i a)) := by
  intro s
  obtain ⟨t,ht,hget⟩ := h s
  obtain ⟨u,hu,hget'⟩ := h' t
  refine ⟨u,?_,fun i => ?_⟩
  · simp only [ht,Option.bind_some]
    exact hu
  · rw [hget',hget]

lemma single (h : Paints get draw patch) : Paints get (inOrder [draw]) patch := by
  intro s
  obtain ⟨t,ht,hget⟩ := h s
  refine ⟨t,?_,hget⟩
  rw [inOrder,ht]
  rfl

/-- A program after which the rest of a list is drawn. -/
lemma cons {rest : List (S → Option S)} (h : Paints get draw patch)
    (hrest : Paints get (inOrder rest) patch') :
    Paints get (inOrder (draw :: rest)) (fun i a => patch' i (patch i a)) :=
  h.andThen hrest

/-- What is drawn first remains where nothing is drawn later. -/
lemma below {rest : List (S → Option S)} {region₁ region₂ : Set ι} {value₁ value : ι → α → α}
    (h : Paints get draw (stamp region₁ value₁))
    (hrest : Paints get (inOrder rest) (stamp region₂ value))
    (hconst : ∀ i a b, value i a = value i b)
    (hfirst : ∀ i a, i ∈ region₁ → i ∉ region₂ → value₁ i a = value i a) :
    Paints get (inOrder (draw :: rest)) (stamp (region₁ ∪ region₂) value) := by
  rw [← stamp_stamp hfirst fun i a _ => hconst i _ a]
  exact h.cons hrest

/-- The region and the values may be described in another way. -/
lemma restate {region region' : Set ι} {value : ι → α → α}
    (h : Paints get draw (stamp region value)) (value' : ι → α → α) (hregion : ∀ i, i ∈ region' ↔ i ∈ region)
    (hvalue : ∀ i a, i ∈ region → value i a = value' i a) :
    Paints get draw (stamp region' value') := by
  have hset : region' = region := Set.ext hregion
  have hstamp : stamp region value = stamp region value' := by
    funext i a
    by_cases hi : i ∈ region
    · rw [stamp_of hi,stamp_of hi,hvalue i a hi]
    · rw [stamp_of_not hi,stamp_of_not hi]
  rw [hset,← hstamp]
  exact h

/-- A loop whose rounds write the same values to their regions. -/
lemma loop {body : ℕ → S → Option S} {n : ℕ} {region : ℕ → Set ι} {value : ι → α → α}
    (hbody : ∀ k < n, Paints get (body k) (stamp (region k) value))
    (hvalue : ∀ i a, value i (value i a) = value i a) :
    Paints get (Painting.loop body n) (stamp {i | ∃ k < n, i ∈ region k} value) := by
  induction n with
  | zero =>
    intro s
    refine ⟨s,rfl,fun i => ?_⟩
    rw [stamp_of_not]
    rintro ⟨k,hk,-⟩
    exact absurd hk (Nat.not_lt_zero k)
  | succ n ih =>
    have hrounds := ih fun k hk => hbody k (Nat.lt_succ_of_lt hk)
    have hpaints := hrounds.andThen (hbody n (Nat.lt_succ_self n))
    have hunion : {i | ∃ k < n+1, i ∈ region k} = {i | ∃ k < n, i ∈ region k} ∪ region n := by
      ext i
      constructor
      · rintro ⟨k,hk,hi⟩
        rcases Nat.lt_succ_iff_lt_or_eq.mp hk with hlt | rfl
        · exact .inl ⟨k,hlt,hi⟩
        · exact .inr hi
      · rintro (⟨k,hk,hi⟩ | hi)
        · exact ⟨k,Nat.lt_succ_of_lt hk,hi⟩
        · exact ⟨n,Nat.lt_succ_self n,hi⟩
    rw [hunion,← stamp_stamp]
    · exact hpaints
    · exact fun i a _ _ => rfl
    · intro i a _
      by_cases h : i ∈ {i | ∃ k < n, i ∈ region k}
      · rw [stamp_of h,hvalue]
      · rw [stamp_of_not h]

end Paints

/-- The program draws only cells with a property over such cells. -/
def Keeps (get : S → ι → α) (property : α → Prop) (draw : S → Option S) : Prop :=
  ∃ patch, Paints get draw patch ∧ ∀ i a, property a → property (patch i a)

namespace Keeps
variable {get : S → ι → α} {property : α → Prop} {draw draw' : S → Option S}

lemma skip : Keeps get property some := ⟨fun _ a => a,fun s => ⟨s,rfl,fun _ => rfl⟩,fun _ _ h => h⟩

lemma andThen (h : Keeps get property draw) (h' : Keeps get property draw') :
    Keeps get property fun s => (draw s).bind draw' := by
  obtain ⟨patch,hpaints,hkeeps⟩ := h
  obtain ⟨patch',hpaints',hkeeps'⟩ := h'
  exact ⟨_,hpaints.andThen hpaints',fun i a ha => hkeeps' i _ (hkeeps i a ha)⟩

lemma inOrder {draws : List (S → Option S)} (h : ∀ draw ∈ draws, Keeps get property draw) :
    Keeps get property (Painting.inOrder draws) := by
  induction draws with
  | nil => exact skip
  | cons draw rest ih =>
    have hrest := ih fun draw' hd => h draw' (List.mem_cons_of_mem draw hd)
    exact (h draw List.mem_cons_self).andThen hrest

lemma loop {body : ℕ → S → Option S} {n : ℕ} (h : ∀ k < n, Keeps get property (body k)) :
    Keeps get property (Painting.loop body n) := by
  induction n with
  | zero => exact skip
  | succ n ih =>
    have hrounds := ih fun k hk => h k (Nat.lt_succ_of_lt hk)
    exact hrounds.andThen (h n (Nat.lt_succ_self n))

/-- What is drawn over a filled canvas is the same picture every time. -/
lemma picture (property : α → Prop) {rest : List (S → Option S)} {value : ι → α}
    (hfill : Paints get draw fun i _ => value i) (hvalue : ∀ i, property (value i))
    (hrest : ∀ draw' ∈ rest, Keeps get property draw') :
    ∃ picture : ι → α, Paints get (Painting.inOrder (draw :: rest)) (fun i _ => picture i) ∧
      ∀ i, property (picture i) := by
  obtain ⟨patch,hpaints,hkeeps⟩ := inOrder hrest
  exact ⟨_,hfill.cons hpaints,fun i => hkeeps i _ (hvalue i)⟩

end Keeps
end Painting
