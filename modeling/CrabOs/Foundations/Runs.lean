import Mathlib.Tactic

/-! Runs of a machine whose moves may be impossible: invariants, properties of every state a run
goes through, and when such a property depends only on how the moves are made. -/

namespace Runs

variable {σ μ : Type} (step : σ → μ → Option σ)

/-- Make the moves in order; a move that is impossible ends the run with nothing. -/
def run : List μ → σ → Option σ
  | [],s => some s
  | move :: moves,s => (step s move).bind (run moves)

/-- Every state the run goes through has the property. -/
def Always (P : σ → Prop) : List μ → σ → Prop
  | [],s => P s
  | move :: moves,s => P s ∧ ∀ s', step s move = some s' → Always P moves s'

/-- Every move of the run that is possible is made as the condition says. -/
def Meets (Q : σ → μ → Prop) : List μ → σ → Prop
  | [],_ => True
  | move :: moves,s => ∀ s', step s move = some s' → Q s move ∧ Meets Q moves s'

/-- The largest value in a state the run goes through. -/
def peak (f : σ → ℕ) : List μ → σ → ℕ
  | [],s => f s
  | move :: moves,s => max (f s) (((step s move).map (peak f moves)).getD 0)

variable {step} {P I : σ → Prop} {Q : σ → μ → Prop} {s s' : σ} {moves : List μ}

/-- A function with the equations of a run is the run. -/
theorem eq_run {f : List μ → σ → Option σ} (hnil : ∀ s, f [] s = some s)
    (hcons : ∀ move moves s, f (move :: moves) s = (step s move).bind (f moves)) :
    f = run step := by
  funext moves
  induction moves with
  | nil => exact funext hnil
  | cons move moves ih =>
    funext s
    rw [hcons,ih]
    rfl

theorem run_append (first second : List μ) (s : σ) :
    run step (first++second) s = (run step first s).bind (run step second) := by
  induction first generalizing s with
  | nil => rfl
  | cons move moves ih =>
    rw [List.cons_append,run,run,Option.bind_assoc]
    exact congrArg _ (funext ih)

/-- A run of moves that come in groups is a run of the groups. -/
theorem run_flatMap {ν : Type} (group : ν → List μ) (groups : List ν) (s : σ) :
    run step (groups.flatMap group) s = run (fun s g => run step (group g) s) groups s := by
  induction groups generalizing s with
  | nil => rfl
  | cons g groups ih =>
    rw [List.flatMap_cons,run_append,run]
    exact congrArg _ (funext ih)

/-- What every move keeps, every run keeps. -/
theorem invariant_run (hstep : ∀ s move s', I s → step s move = some s' → I s') (h : I s)
    (hr : run step moves s = some s') : I s' := by
  induction moves generalizing s with
  | nil =>
    cases hr
    exact h
  | cons move moves ih =>
    obtain ⟨t,ht,hr⟩ := Option.bind_eq_some_iff.mp hr
    exact ih (hstep s move t h ht) hr

/-- A move that is known to end in a state of the invariant is possible and keeps it. -/
lemma possible_of_eq {legal : Prop} {move : μ} {t : σ} (h : step s move = some t) (hI : I t) :
    (legal → (step s move).isSome) ∧ ∀ s', step s move = some s' → I s' := by
  rw [h]
  refine ⟨fun _ => rfl,fun s' hs' => ?_⟩
  cases hs'
  exact hI

/-- If every state of the invariant can make the moves of the run and keeps it, the run does not end
early. -/
theorem run_possible (hstep : ∀ s, ∀ move ∈ moves, I s → ∃ s', step s move = some s' ∧ I s')
    (h : I s) : ∃ s', run step moves s = some s' ∧ I s' := by
  induction moves generalizing s with
  | nil => exact ⟨s,rfl,h⟩
  | cons move moves ih =>
    obtain ⟨t,ht,hI⟩ := hstep s move List.mem_cons_self h
    obtain ⟨s',hs',hI'⟩ := ih (fun s move' hmem => hstep s move' (List.mem_cons_of_mem move hmem)) hI
    exact ⟨s',by rw [run,ht]; exact hs',hI'⟩

/-- If every state of the invariant can make every move and keeps it, no run ends early. -/
theorem run_total (hstep : ∀ s move, I s → ∃ s', step s move = some s' ∧ I s') (h : I s)
    (moves : List μ) : ∃ s', run step moves s = some s' ∧ I s' :=
  run_possible (fun s move _ => hstep s move) h

/-- Two machines that look the same after each move look the same after every run. -/
theorem run_view {τ β : Type} {step' : τ → μ → Option τ} {view : σ → β} {view' : τ → β}
    (hstep : ∀ s t move, I s → view s = view' t →
      (step s move).map view = (step' t move).map view')
    (hI : ∀ s move s', I s → step s move = some s' → I s') {t : τ} (h : I s)
    (hview : view s = view' t) (moves : List μ) :
    (run step moves s).map view = (run step' moves t).map view' := by
  induction moves generalizing s t with
  | nil => exact congrArg some hview
  | cons move moves ih =>
    have hnext := hstep s t move h hview
    rw [run,run]
    cases hs : step s move with
    | none =>
      rw [hs,Option.map_none] at hnext
      rw [Option.map_eq_none_iff.mp hnext.symm]
      rfl
    | some s' =>
      rw [hs,Option.map_some] at hnext
      obtain ⟨t',ht,hview'⟩ := Option.map_eq_some_iff.mp hnext.symm
      rw [ht]
      exact ih (hI s move s' h hs) hview'.symm

lemma Always.start (h : Always step P moves s) : P s := by
  cases moves with
  | nil => exact h
  | cons move moves => exact h.1

/-- The property holds wherever the run ends. -/
lemma Always.run (h : Always step P moves s) (hr : run step moves s = some s') : P s' := by
  induction moves generalizing s with
  | nil =>
    cases hr
    exact h
  | cons move moves ih =>
    obtain ⟨t,ht,hr⟩ := Option.bind_eq_some_iff.mp hr
    exact ih (h.2 t ht) hr

theorem always_of_invariant (hstep : ∀ s move s', I s → step s move = some s' → I s')
    (hP : ∀ s, I s → P s) (h : I s) (moves : List μ) : Always step P moves s := by
  induction moves generalizing s with
  | nil => exact hP s h
  | cons move moves ih => exact ⟨hP s h,fun t ht => ih (hstep s move t h ht)⟩

/-- A property that each move keeps exactly when it is made as the condition says holds throughout
a run exactly when all its moves are. -/
theorem always_iff_meets (hstep : ∀ s move s', I s → P s → step s move = some s' →
      I s' ∧ (P s' ↔ Q s move))
    (hI : I s) (hP : P s) (moves : List μ) : Always step P moves s ↔ Meets step Q moves s := by
  induction moves generalizing s with
  | nil => exact iff_of_true hP trivial
  | cons move moves ih =>
    constructor
    · rintro ⟨-,h⟩ t ht
      obtain ⟨hIt,hPt⟩ := hstep s move t hI hP ht
      have hP' : P t := (h t ht).start
      exact ⟨hPt.mp hP',(ih hIt hP').mp (h t ht)⟩
    · intro h
      refine ⟨hP,fun t ht => ?_⟩
      obtain ⟨hIt,hPt⟩ := hstep s move t hI hP ht
      obtain ⟨hQ,hrest⟩ := h t ht
      have hP' : P t := hPt.mpr hQ
      exact (ih hIt hP').mpr hrest

/-- A value that each move raises to the new one when that is larger, and otherwise leaves, is the
largest one so far. -/
theorem eq_peak {f mark : σ → ℕ} (hstep : ∀ s move s', I s → step s move = some s' →
      I s' ∧ mark s' = max (mark s) (f s'))
    (hle : ∀ s, I s → f s ≤ mark s) (h : I s) (hr : run step moves s = some s') :
    mark s' = max (mark s) (peak step f moves s) := by
  induction moves generalizing s with
  | nil =>
    cases hr
    exact (max_eq_left (hle _ h)).symm
  | cons move moves ih =>
    obtain ⟨t,ht,hr⟩ := Option.bind_eq_some_iff.mp hr
    obtain ⟨hI,hmark⟩ := hstep s move t h ht
    have hfirst := hle s h
    have hstart : f t ≤ peak step f moves t := by
      cases moves with
      | nil => exact le_rfl
      | cons => exact le_max_left _ _
    rw [ih hI hr,hmark,peak,ht,Option.map_some,Option.getD_some]
    omega

end Runs
