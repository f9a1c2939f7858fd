import CrabOs.Foundations.AtomicProgram

/-! Programs whose calls take time, and loops that end at a deadline. -/

/-- The time, and how often a waiting program can still be woken before the time moves. -/
structure Timer where
  clock : ℤ
  patience : ℕ

/-- Which calls read the time and wait. -/
structure Clock (C : Type) (R : C → Type) where
  read : C
  value : R read → ℤ
  wait : C

namespace Timer

/-- The time never goes back, moves by at most `delay`, and a wait is woken at most `wakes` times
before it moves. -/
structure Passes (delay wakes : ℕ) (s s' : Timer) : Prop where
  later : s.clock ≤ s'.clock
  soon : s'.clock ≤ s.clock+delay
  bounded : s'.patience ≤ wakes
  patient : s.clock < s'.clock ∨ s'.patience ≤ s.patience

/-- The time has moved or a wake-up is used up. -/
structure Advances (s s' : Timer) : Prop where
  later : s.clock ≤ s'.clock
  used : s.clock < s'.clock ∨ s'.patience < s.patience

variable {delay wakes : ℕ} {s s' s'' : Timer}

lemma Passes.advances (h : Passes delay wakes s s') (h' : Advances s' s'') : Advances s s'' := by
  refine ⟨h.later.trans h'.later,?_⟩
  have h1 := h.patient
  have h2 := h'.used
  have h3 := h.later
  have h4 := h'.later
  omega

/-- How many rounds a loop has left while the time is not over `limit`. -/
def rounds (wakes : ℕ) (limit : ℤ) (s : Timer) : ℕ :=
  (limit-s.clock).toNat*(wakes+1)+s.patience

lemma rounds_lt {limit : ℤ} (h : Advances s s') (hw : s'.patience ≤ wakes)
    (hl : s'.clock ≤ limit) : rounds wakes limit s' < rounds wakes limit s := by
  unfold rounds
  rcases h.used with hclock | hpatience
  · have hless : (limit-s'.clock).toNat+1 ≤ (limit-s.clock).toNat := by omega
    have hmul := Nat.mul_le_mul_right (wakes+1) hless
    rw [Nat.add_mul,Nat.one_mul] at hmul
    omega
  · have hless : (limit-s'.clock).toNat ≤ (limit-s.clock).toNat := by
      have := h.later
      omega
    have hmul := Nat.mul_le_mul_right (wakes+1) hless
    omega

end Timer

namespace Clock
open AtomicProgram

variable {C : Type} {R : C → Type} {α β τ : Type}

/-- Every call is legal and takes its time. -/
def timed (K : Clock C R) (delay wakes : ℕ) : Guarded C R Timer where
  guard _ _ := True
  outcome c s s' r := s.Passes delay wakes s' ∧ (∀ h : c = K.read,K.value (h ▸ r) = s'.clock) ∧
    (c = K.wait → s.Advances s')

variable (K : Clock C R) (delay wakes : ℕ)

/-- From every time the program returns within `time`. -/
def Lasts (time : ℕ) (p : AtomicProgram C R α) : Prop :=
  ∀ s, p.Spec (K.timed delay wakes) (fun s' _ => s'.clock ≤ s.clock+time) s

/-- The body of a loop leaves it after at most so many calls, or goes on before the deadline. -/
def Round (calls : ℕ) (deadline : ℤ) (p : AtomicProgram C R (τ ⊕ α)) : Prop :=
  ∀ s, p.Spec (K.timed delay wakes) (fun s' => Sum.elim
    (fun _ => s.Advances s' ∧ s'.patience ≤ wakes ∧ s'.clock ≤ deadline+delay)
    (fun _ => s'.clock ≤ s.clock+(calls*delay : ℕ))) s

variable {K delay wakes} {time time' calls : ℕ} {deadline : ℤ}

lemma Lasts.mono {p : AtomicProgram C R α} (h : Lasts K delay wakes time p) (ht : time ≤ time') :
    Lasts K delay wakes time' p := by
  intro s
  refine (h s).mono fun s' _ hs => ?_
  have : (time : ℤ) ≤ time' := by exact_mod_cast ht
  omega

lemma lasts_ret (a : α) : Lasts K delay wakes time (.ret a) := by
  intro s
  rw [spec_ret]
  omega

lemma lasts_call {c : C} {next : R c → AtomicProgram C R α}
    (h : ∀ r, Lasts K delay wakes time (next r)) :
    Lasts K delay wakes (time+delay) (.call c next) := by
  refine fun s => ⟨trivial,fun s' r ho => (h r s').mono fun s'' _ hs => ?_⟩
  have := ho.1.soon
  push_cast
  omega

lemma lasts_bind {p : AtomicProgram C R α} {f : α → AtomicProgram C R β}
    (hp : Lasts K delay wakes time p) (hf : ∀ a, Lasts K delay wakes time' (f a)) :
    Lasts K delay wakes (time+time') (p.bind f) := by
  intro s
  rw [spec_bind]
  refine (hp s).mono fun s' a hs => (hf a s').mono fun s'' _ hs' => ?_
  push_cast
  omega

lemma Round.mono {calls' : ℕ} {p : AtomicProgram C R (τ ⊕ α)}
    (h : Round K delay wakes calls deadline p) (hc : calls ≤ calls') :
    Round K delay wakes calls' deadline p := by
  refine fun s => (h s).mono ?_
  rintro s' (t | a) hs
  · exact hs
  · have : ((calls*delay : ℕ) : ℤ) ≤ (calls'*delay : ℕ) := by
      exact_mod_cast Nat.mul_le_mul_right delay hc
    exact le_trans hs (by omega)

lemma round_leave (a : α) : Round K delay wakes calls deadline (.ret (.inr a : τ ⊕ α)) := by
  intro s
  rw [spec_ret]
  exact Int.le_add_of_nonneg_right (Int.natCast_nonneg _)

lemma round_call {c : C} {next : R c → AtomicProgram C R (τ ⊕ α)}
    (h : ∀ r, Round K delay wakes calls deadline (next r)) :
    Round K delay wakes (calls+1) deadline (.call c next) := by
  refine fun s => ⟨trivial,fun s' r ho => (h r s').mono ?_⟩
  rintro s'' (t | a) hs
  · exact ⟨ho.1.advances hs.1,hs.2⟩
  · have hsoon := ho.1.soon
    have hs : s''.clock ≤ s'.clock+(calls*delay : ℕ) := hs
    change s''.clock ≤ s.clock+((calls+1)*delay : ℕ)
    rw [Nat.add_mul,Nat.one_mul]
    push_cast at hs ⊢
    omega

/-- The check at the end of a body: leave at the deadline, else wait and go on. -/
lemma round_check (a : α) (t : τ) : Round K delay wakes 1 deadline
    (.call K.read fun r => if deadline ≤ K.value r then .ret (.inr a) else
      .call K.wait fun _ => .ret (.inl t)) := by
  refine fun s => ⟨trivial,fun s' r ho => ?_⟩
  obtain ⟨hpass,hread,-⟩ := ho
  have hread : K.value r = s'.clock := hread rfl
  beta_reduce
  split_ifs with hd
  · have hsoon := hpass.soon
    change s'.clock ≤ s.clock+(1*delay : ℕ)
    rw [Nat.one_mul]
    exact hsoon
  · refine ⟨trivial,fun s'' r' ho' => ?_⟩
    obtain ⟨hpass',-,hwait⟩ := ho'
    refine ⟨hpass.advances (hwait rfl),hpass'.bounded,?_⟩
    have := hpass'.soon
    omega

/-- A loop whose deadline is `limit` after its start returns a few calls after the deadline at
most. -/
theorem lasts_loop (body : ℤ → τ → AtomicProgram C R (τ ⊕ α)) (limit : ℕ) {fuel : ℕ}
    (hbody : ∀ deadline t, Round K delay wakes calls deadline (body deadline t))
    (hfuel : (limit+delay+1)*(wakes+1) ≤ fuel) (t : τ) :
    Lasts K delay wakes (limit+(calls+2)*delay)
      (.call K.read fun r => iterate (body (K.value r+limit)) fuel t) := by
  refine fun s => ⟨trivial,fun s₁ r ho => ?_⟩
  obtain ⟨hpass,hread,-⟩ := ho
  have hread : K.value r = s₁.clock := hread rfl
  beta_reduce
  generalize hd : K.value r+limit = deadline
  have hend : deadline ≤ s.clock+delay+limit := by
    have := hpass.soon
    omega
  refine spec_iterate (fun _ s' => s'.clock ≤ deadline+delay ∧ s'.patience ≤ wakes)
    (fun _ s' => s'.rounds wakes (deadline+delay)) ?_ ⟨by omega,hpass.bounded⟩ ?_
  · rintro t₁ s₂ ⟨hclock,-⟩
    refine (hbody deadline t₁ s₂).mono ?_
    rintro s₃ (t₂ | a) hs
    · exact ⟨⟨hs.2.2,hs.2.1⟩,Timer.rounds_lt hs.1 hs.2.1 hs.2.2⟩
    · have hs : s₃.clock ≤ s₂.clock+(calls*delay : ℕ) := hs
      change s₃.clock ≤ s.clock+(limit+(calls+2)*delay : ℕ)
      rw [Nat.add_mul]
      push_cast at hs ⊢
      omega
  · unfold Timer.rounds
    have hleft : (deadline+delay-s₁.clock).toNat = limit+delay := by omega
    rw [hleft]
    have := hpass.bounded
    rw [Nat.add_mul,Nat.one_mul] at hfuel
    omega

end Clock
