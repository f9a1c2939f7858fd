import Mathlib.Tactic

/-! Programs as finite trees of atomic calls, their sequential runs, and the rely rule for
runs in which an environment acts between any two calls. -/

/-- A program returns, aborts, or makes one atomic call and continues with its answer. -/
inductive AtomicProgram (C : Type) (R : C → Type) (α : Type)
  | ret (a : α)
  | fail
  | call (c : C) (next : R c → AtomicProgram C R α)

namespace AtomicProgram

variable {C : Type} {R : C → Type} {α β σ : Type}

def bind : AtomicProgram C R α → (α → AtomicProgram C R β) → AtomicProgram C R β
  | .ret a,f => f a
  | .fail,_ => .fail
  | .call c next,f => .call c (fun r => (next r).bind f)

instance : Monad (AtomicProgram C R) where
  pure := .ret
  bind := bind

/-- A single atomic call. -/
def perform (c : C) : AtomicProgram C R (R c) := .call c .ret

/-- Abort when the value is missing. -/
def ofOption : Option α → AtomicProgram C R α
  | some a => .ret a
  | none => .fail

/-- Make calls in order and drop their answers. -/
def performAll : List C → AtomicProgram C R Unit
  | [] => .ret ()
  | c :: cs => .call c (fun _ => performAll cs)

/-- Make each call through another interface that gives the same answers. -/
def mapCalls {C' : Type} {R' : C' → Type} (f : C → C') (answer : (c : C) → R' (f c) → R c) :
    AtomicProgram C R α → AtomicProgram C' R' α
  | .ret a => .ret a
  | .fail => .fail
  | .call c next => .call (f c) (fun r => (next (answer c r)).mapCalls f answer)

@[simp] lemma pure_eq (a : α) : (pure a : AtomicProgram C R α) = .ret a := rfl
@[simp] lemma bind_eq (p : AtomicProgram C R α) (f : α → AtomicProgram C R β) :
    p >>= f = p.bind f := rfl
@[simp] lemma ret_bind (a : α) (f : α → AtomicProgram C R β) : (ret a).bind f = f a := rfl
@[simp] lemma fail_bind (f : α → AtomicProgram C R β) :
    (fail : AtomicProgram C R α).bind f = .fail := rfl
@[simp] lemma call_bind (c : C) (next : R c → AtomicProgram C R α)
    (f : α → AtomicProgram C R β) :
    (call c next).bind f = .call c (fun r => (next r).bind f) := rfl
@[simp] lemma ofOption_some (a : α) :
    (ofOption (some a) : AtomicProgram C R α) = .ret a := rfl

@[simp] theorem bind_ret (p : AtomicProgram C R α) : p.bind .ret = p := by
  induction p with
  | ret a => rfl
  | fail => rfl
  | call c next ih => rw [call_bind,funext ih]

theorem bind_assoc {γ : Type} (p : AtomicProgram C R α) (f : α → AtomicProgram C R β)
    (g : β → AtomicProgram C R γ) : (p.bind f).bind g = p.bind fun a => (f a).bind g := by
  induction p with
  | ret a => rfl
  | fail => rfl
  | call c next ih =>
    rw [call_bind,call_bind,call_bind]
    exact congrArg _ (funext ih)

/-- Whatever the calls answer, the program returns a value with property `P`. -/
def All (P : α → Prop) : AtomicProgram C R α → Prop
  | .ret a => P a
  | .fail => False
  | .call _ next => ∀ r, (next r).All P

@[simp] lemma all_ret (P : α → Prop) (a : α) : (ret a : AtomicProgram C R α).All P ↔ P a := .rfl
@[simp] lemma all_call (P : α → Prop) (c : C) (next : R c → AtomicProgram C R α) :
    (call c next).All P ↔ ∀ r, (next r).All P := .rfl

@[simp] theorem all_bind (P : β → Prop) (p : AtomicProgram C R α) (f : α → AtomicProgram C R β) :
    (p.bind f).All P ↔ p.All (fun a => (f a).All P) := by
  induction p with
  | ret a => exact .rfl
  | fail => exact .rfl
  | call c next ih => exact forall_congr' ih

@[simp] lemma all_perform (P : R c → Prop) : (perform c : AtomicProgram C R (R c)).All P ↔ ∀ r, P r :=
  .rfl

lemma all_performAll [∀ c, Nonempty (R c)] (P : Unit → Prop) (cs : List C) :
    (performAll cs : AtomicProgram C R Unit).All P ↔ P () := by
  induction cs with
  | nil => exact .rfl
  | cons c cs ih => simp [performAll,ih]

lemma All.mono {P Q : α → Prop} {p : AtomicProgram C R α} (h : p.All P) (hpq : ∀ a, P a → Q a) :
    p.All Q := by
  induction p with
  | ret a => exact hpq a h
  | fail => exact h
  | call c next ih => exact fun r => ih r (h r)

/-- The values a program can return when its calls may answer anything. -/
inductive Returns : AtomicProgram C R α → α → Prop
  | ret (a : α) : Returns (.ret a) a
  | call {c : C} {next : R c → AtomicProgram C R α} {a : α} (r : R c) (h : Returns (next r) a) :
      Returns (.call c next) a

theorem returns_bind {p : AtomicProgram C R α} {f : α → AtomicProgram C R β} {b : β} :
    (p.bind f).Returns b ↔ ∃ a, p.Returns a ∧ (f a).Returns b := by
  induction p with
  | ret a =>
    constructor
    · exact fun h => ⟨a,.ret a,h⟩
    · rintro ⟨a',ha,hb⟩
      cases ha
      exact hb
  | fail =>
    constructor
    · intro h
      cases h
    · rintro ⟨a,ha,-⟩
      cases ha
  | call c next ih =>
    constructor
    · intro h
      cases h with
      | call r h =>
        obtain ⟨a,ha,hb⟩ := (ih r).mp h
        exact ⟨a,.call r ha,hb⟩
    · rintro ⟨a,ha,hb⟩
      cases ha with
      | call r ha => exact .call r ((ih r).mpr ⟨a,ha,hb⟩)

lemma returns_ret {a b : α} : (ret a : AtomicProgram C R α).Returns b ↔ b = a := by
  constructor
  · intro h
    cases h
    rfl
  · rintro rfl
    exact .ret b

lemma returns_ofOption {x : Option α} {a : α} :
    (ofOption x : AtomicProgram C R α).Returns a ↔ x = some a := by
  cases x with
  | none =>
    constructor
    · intro h
      cases h
    · intro h
      cases h
  | some b =>
    rw [ofOption_some,returns_ret,Option.some_inj]
    exact eq_comm

lemma All.of_returns {P : α → Prop} {p : AtomicProgram C R α} {a : α} (h : p.All P)
    (hr : p.Returns a) : P a := by
  induction hr with
  | ret a => exact h
  | call r _ ih => exact ih (h r)

lemma All.exists_returns [∀ c, Nonempty (R c)] {P : α → Prop} {p : AtomicProgram C R α}
    (h : p.All P) : ∃ a, p.Returns a ∧ P a := by
  induction p with
  | ret a => exact ⟨a,.ret a,h⟩
  | fail => exact h.elim
  | call c next ih =>
    obtain ⟨r⟩ := ‹∀ c, Nonempty (R c)› c
    obtain ⟨a,ha,hp⟩ := ih r (h r)
    exact ⟨a,.call r ha,hp⟩

/-! ### Two programs that make the same calls -/

/-- The programs make the same calls whatever these answer, and their values are related. -/
inductive Related (Q : α → β → Prop) : AtomicProgram C R α → AtomicProgram C R β → Prop
  | ret {a : α} {b : β} (h : Q a b) : Related Q (.ret a) (.ret b)
  | fail : Related Q .fail .fail
  | call (c : C) {next : R c → AtomicProgram C R α} {next' : R c → AtomicProgram C R β}
      (h : ∀ r, Related Q (next r) (next' r)) : Related Q (.call c next) (.call c next')

namespace Related
variable {α' β' : Type} {Q : α → β → Prop} {p : AtomicProgram C R α} {q : AtomicProgram C R β}

lemma refl {Q : α → α → Prop} (h : ∀ a, Q a a) (p : AtomicProgram C R α) : Related Q p p := by
  induction p with
  | ret a => exact .ret (h a)
  | fail => exact .fail
  | call c next ih => exact .call c ih

lemma mono {Q' : α → β → Prop} (h : Related Q p q) (hq : ∀ a b, Q a b → Q' a b) :
    Related Q' p q := by
  induction h with
  | ret h => exact .ret (hq _ _ h)
  | fail => exact .fail
  | call c _ ih => exact .call c ih

lemma bind {Q' : α' → β' → Prop} {f : α → AtomicProgram C R α'} {g : β → AtomicProgram C R β'}
    (h : Related Q p q) (hfg : ∀ a b, Q a b → Related Q' (f a) (g b)) :
    Related Q' (p.bind f) (q.bind g) := by
  induction h with
  | ret h => exact hfg _ _ h
  | fail => exact .fail
  | call c _ ih => exact .call c ih

/-- Both sides go on from one shared program. -/
lemma bind_same {Q' : α' → β' → Prop} (p : AtomicProgram C R α) {f : α → AtomicProgram C R α'}
    {g : α → AtomicProgram C R β'} (hfg : ∀ a, Related Q' (f a) (g a)) :
    Related Q' (p.bind f) (p.bind g) := by
  refine (refl (fun _ => rfl) p).bind ?_
  rintro a _ rfl
  exact hfg a

lemma ite {c : Prop} [Decidable c] {p' : AtomicProgram C R α} {q' : AtomicProgram C R β}
    (h : c → Related Q p q) (h' : ¬c → Related Q p' q') :
    Related Q (if c then p else p') (if c then q else q') := by
  split_ifs with hc
  · exact h hc
  · exact h' hc

lemma returns (h : Related Q p q) {a : α} (ha : p.Returns a) : ∃ b, q.Returns b ∧ Q a b := by
  induction h with
  | ret h =>
    cases ha
    exact ⟨_,.ret _,h⟩
  | fail => cases ha
  | call c _ ih =>
    cases ha with
    | call r ha =>
      obtain ⟨b,hb,hq⟩ := ih r ha
      exact ⟨b,.call r hb,hq⟩

end Related

/-- How a state answers each call; `none` is an abort of the whole run. -/
abbrev Handler (C : Type) (R : C → Type) (σ : Type) := (c : C) → σ → Option (σ × R c)

/-- Execute every call in order, without interference. -/
def run (H : Handler C R σ) : AtomicProgram C R α → σ → Option (σ × α)
  | .ret a,s => some (s,a)
  | .fail,_ => none
  | .call c next,s => (H c s).bind fun r => (next r.2).run H r.1

@[simp] theorem run_ret (H : Handler C R σ) (a : α) (s : σ) :
    (ret a : AtomicProgram C R α).run H s = some (s,a) := rfl

theorem run_call (H : Handler C R σ) (c : C) (next : R c → AtomicProgram C R α) (s : σ) :
    (call c next).run H s = (H c s).bind fun r => (next r.2).run H r.1 := rfl

theorem run_bind (H : Handler C R σ) (p : AtomicProgram C R α)
    (f : α → AtomicProgram C R β) (s : σ) :
    (p.bind f).run H s = (p.run H s).bind fun r => (f r.2).run H r.1 := by
  induction p generalizing s with
  | ret a => rfl
  | fail => rfl
  | call c next ih =>
    simp only [call_bind,run_call]
    cases hc : H c s with
    | none => rfl
    | some r => exact ih r.2 r.1

/-- What the program returns in every case, its run returns. -/
theorem All.run {H : Handler C R σ} {P : α → Prop} {p : AtomicProgram C R α} {s s' : σ} {a : α}
    (h : p.All P) (hrun : p.run H s = some (s',a)) : P a := by
  induction p generalizing s with
  | ret b => cases hrun; exact h
  | fail => cases hrun
  | call c next ih =>
    rw [run_call] at hrun
    obtain ⟨⟨u,r⟩,-,hrun⟩ := Option.bind_eq_some_iff.mp hrun
    exact ih r (h r) hrun

lemma Returns.of_run {H : Handler C R σ} {p : AtomicProgram C R α} {s s' : σ} {a : α}
    (hrun : p.run H s = some (s',a)) : p.Returns a := by
  induction p generalizing s with
  | ret b =>
    cases hrun
    exact .ret _
  | fail => cases hrun
  | call c next ih =>
    rw [run_call] at hrun
    obtain ⟨⟨u,r⟩,-,hrun⟩ := Option.bind_eq_some_iff.mp hrun
    exact .call r (ih r hrun)

lemma Returns.of_mapCalls {C' : Type} {R' : C' → Type} {f : C → C'}
    {answer : (c : C) → R' (f c) → R c} {p : AtomicProgram C R α} {a : α}
    (h : (p.mapCalls f answer).Returns a) : p.Returns a := by
  induction p with
  | ret b =>
    cases h
    exact .ret _
  | fail => cases h
  | call c next ih =>
    cases h with
    | call r h => exact .call (answer c r) (ih (answer c r) h)

/-! ### The calls a program can make -/

/-- Whatever the calls answer, every call of the program has property `P`. -/
def Makes (P : C → Prop) : AtomicProgram C R α → Prop
  | .ret _ => True
  | .fail => True
  | .call c next => P c ∧ ∀ r, (next r).Makes P

section Makes
variable {P : C → Prop}

lemma Makes.bind {p : AtomicProgram C R α} {f : α → AtomicProgram C R β} (hp : p.Makes P)
    (hf : ∀ a, (f a).Makes P) : (p.bind f).Makes P := by
  induction p with
  | ret a => exact hf a
  | fail => trivial
  | call c next ih => exact ⟨hp.1,fun r => ih r (hp.2 r)⟩

lemma makes_performAll {cs : List C} (h : ∀ c ∈ cs, P c) :
    (performAll cs : AtomicProgram C R Unit).Makes P := by
  induction cs with
  | nil => trivial
  | cons c cs ih => exact ⟨h c (by simp),fun _ => ih fun c' hc => h c' (by simp [hc])⟩

lemma makes_ofOption (a : Option α) : (ofOption a : AtomicProgram C R α).Makes P := by
  cases a <;> trivial

lemma Makes.mapCalls {C' : Type} {R' : C' → Type} {P' : C' → Prop} {f : C → C'}
    {answer : (c : C) → R' (f c) → R c} {p : AtomicProgram C R α} (h : p.Makes P)
    (hf : ∀ c, P c → P' (f c)) : (p.mapCalls f answer).Makes P' := by
  induction p with
  | ret a => trivial
  | fail => trivial
  | call c next ih => exact ⟨hf c h.1,fun r => ih _ (h.2 _)⟩

/-- What the calls of a program preserve is preserved by its run. -/
theorem Makes.run {H : Handler C R σ} {I : σ → Prop} {p : AtomicProgram C R α} {s s' : σ} {a : α}
    (h : p.Makes P) (hstep : ∀ c s s' r, P c → I s → H c s = some (s',r) → I s') (hs : I s)
    (hrun : p.run H s = some (s',a)) : I s' := by
  induction p generalizing s with
  | ret a => cases hrun; exact hs
  | fail => cases hrun
  | call c next ih =>
    rw [run_call] at hrun
    obtain ⟨⟨u,r⟩,hu,hrun⟩ := Option.bind_eq_some_iff.mp hrun
    exact ih r (h.2 r) (hstep c s u r h.1 hs hu) hrun

end Makes

/-! ### The calls of a run that returns -/

/-- Whatever the calls answer, the program returns, and `P` holds of the calls it made and of its
value. -/
def Performs (P : List C → α → Prop) : AtomicProgram C R α → Prop
  | .ret a => P [] a
  | .fail => False
  | .call c next => ∀ r, (next r).Performs (fun cs a => P (c :: cs) a)

section Performs
variable {P : List C → α → Prop}

theorem performs_bind {P : List C → β → Prop} (p : AtomicProgram C R α)
    (f : α → AtomicProgram C R β) : (p.bind f).Performs P ↔
      p.Performs (fun cs a => (f a).Performs (fun cs' b => P (cs++cs') b)) := by
  induction p generalizing P with
  | ret a => exact .rfl
  | fail => exact .rfl
  | call c next ih => exact forall_congr' fun r => ih r

lemma performs_performAll [∀ c, Nonempty (R c)] {P : List C → Unit → Prop} (cs : List C) :
    (performAll cs : AtomicProgram C R Unit).Performs P ↔ P cs () := by
  induction cs generalizing P with
  | nil => exact .rfl
  | cons c cs ih => exact (forall_congr' fun r => ih).trans (forall_const (R c))

lemma Performs.mono {P' : List C → α → Prop} {p : AtomicProgram C R α} (h : p.Performs P)
    (hp : ∀ cs a, P cs a → P' cs a) : p.Performs P' := by
  induction p generalizing P P' with
  | ret a => exact hp [] a h
  | fail => exact h
  | call c next ih => exact fun r => ih r (h r) fun cs a => hp (c :: cs) a

end Performs

/-! ### Guarded runs -/

/-- A meaning of the calls, each of them legal only where its guard holds. A call may have
several outcomes. -/
structure Guarded (C : Type) (R : C → Type) (σ : Type) where
  guard : C → σ → Prop
  outcome : (c : C) → σ → σ → R c → Prop

/-- In every run from a state all calls are legal, and the run returns with `Q`. -/
def Spec (G : Guarded C R σ) : AtomicProgram C R α → (σ → α → Prop) → σ → Prop
  | .ret a,Q,s => Q s a
  | .fail,_,_ => False
  | .call c next,Q,s => G.guard c s ∧ ∀ s' r, G.outcome c s s' r → (next r).Spec G Q s'

section Guarded
variable {G : Guarded C R σ} {Q : σ → α → Prop} {s : σ}

@[simp] lemma spec_ret (a : α) : (ret a : AtomicProgram C R α).Spec G Q s ↔ Q s a := .rfl

theorem spec_bind (p : AtomicProgram C R α) (f : α → AtomicProgram C R β) {Q : σ → β → Prop} :
    (p.bind f).Spec G Q s ↔ p.Spec G (fun s a => (f a).Spec G Q s) s := by
  induction p generalizing s with
  | ret a => exact .rfl
  | fail => exact .rfl
  | call c next ih =>
    exact and_congr_right fun _ => forall_congr' fun s' => forall_congr' fun r =>
      imp_congr_right fun _ => ih r

lemma Spec.mono {p : AtomicProgram C R α} {Q' : σ → α → Prop} (h : p.Spec G Q s)
    (hq : ∀ s a, Q s a → Q' s a) : p.Spec G Q' s := by
  induction p generalizing s with
  | ret a => exact hq s a h
  | fail => exact h
  | call c next ih => exact ⟨h.1,fun s' r ho => ih r (h.2 s' r ho)⟩

/-- A concrete state that simulates the guarded one runs the program without aborting. -/
theorem Spec.run {τ : Type} {H : Handler C R τ} {sim : τ → σ → Prop}
    (hsim : ∀ c t s, sim t s → G.guard c s →
      ∃ t' r s', H c t = some (t',r) ∧ G.outcome c s s' r ∧ sim t' s')
    {p : AtomicProgram C R α} (h : p.Spec G Q s) {t : τ} (ht : sim t s) :
    ∃ t' a s', p.run H t = some (t',a) ∧ sim t' s' ∧ Q s' a := by
  induction p generalizing s t with
  | ret a => exact ⟨t,a,s,rfl,ht,h⟩
  | fail => exact h.elim
  | call c next ih =>
    obtain ⟨u,r,s₁,hu,ho,hs₁⟩ := hsim c t s ht h.1
    obtain ⟨t',a,s',hrun,hs',hq⟩ := ih r (h.2 s₁ r ho) hs₁
    exact ⟨t',a,s',by rw [run_call,hu]; exact hrun,hs',hq⟩

lemma spec_call {c : C} {next : R c → AtomicProgram C R α} : (call c next).Spec G Q s ↔
    G.guard c s ∧ ∀ s' r, G.outcome c s s' r → (next r).Spec G Q s' := .rfl

end Guarded

/-! ### Runs that need not return -/

/-- In every run from a state all calls are legal, and a run that returns does so with `Q`. -/
def Safe (G : Guarded C R σ) : AtomicProgram C R α → (σ → α → Prop) → σ → Prop
  | .ret a,Q,s => Q s a
  | .fail,_,_ => True
  | .call c next,Q,s => G.guard c s ∧ ∀ s' r, G.outcome c s s' r → (next r).Safe G Q s'

section Safe
variable {G : Guarded C R σ} {Q : σ → α → Prop} {s : σ}

@[simp] lemma safe_ret (a : α) : (ret a : AtomicProgram C R α).Safe G Q s ↔ Q s a := .rfl
lemma safe_call {c : C} {next : R c → AtomicProgram C R α} : (call c next).Safe G Q s ↔
    G.guard c s ∧ ∀ s' r, G.outcome c s s' r → (next r).Safe G Q s' := .rfl

theorem safe_bind (p : AtomicProgram C R α) (f : α → AtomicProgram C R β) {Q : σ → β → Prop} :
    (p.bind f).Safe G Q s ↔ p.Safe G (fun s a => (f a).Safe G Q s) s := by
  induction p generalizing s with
  | ret a => exact .rfl
  | fail => exact .rfl
  | call c next ih =>
    exact and_congr_right fun _ => forall_congr' fun s' => forall_congr' fun r =>
      imp_congr_right fun _ => ih r

lemma Safe.mono {p : AtomicProgram C R α} {Q' : σ → α → Prop} (h : p.Safe G Q s)
    (hq : ∀ s a, Q s a → Q' s a) : p.Safe G Q' s := by
  induction p generalizing s with
  | ret a => exact hq s a h
  | fail => exact h
  | call c next ih => exact ⟨h.1,fun s' r ho => ih r (h.2 s' r ho)⟩

end Safe

/-! ### Loops -/

/-- Repeat a body that carries a value until it leaves the loop, at most so many times. -/
def iterate {τ : Type} (body : τ → AtomicProgram C R (τ ⊕ α)) : ℕ → τ → AtomicProgram C R α
  | 0,_ => .fail
  | n+1,t => (body t).bind fun
    | .inl t' => iterate body n t'
    | .inr a => .ret a

/-- Run a body for one element after the other until it gives a result. -/
def firstSome {τ : Type} (body : τ → AtomicProgram C R (Option α)) :
    List τ → AtomicProgram C R (Option α)
  | [] => .ret none
  | t :: rest => (body t).bind fun
    | some a => .ret (some a)
    | none => firstSome body rest

section Iterate
variable {τ : Type} {G : Guarded C R σ} {Q : σ → α → Prop} {body : τ → AtomicProgram C R (τ ⊕ α)}

/-- What the body keeps until it leaves the loop holds whenever a run of the loop is over. -/
theorem safe_iterate (I : τ → σ → Prop)
    (hbody : ∀ t s, I t s → (body t).Safe G (fun s => Sum.elim (I · s) (Q s)) s) (n : ℕ) {t : τ}
    {s : σ} (ht : I t s) : (iterate body n t).Safe G Q s := by
  induction n generalizing t s with
  | zero => trivial
  | succ n ih =>
    rw [iterate,safe_bind]
    refine (hbody t s ht).mono ?_
    rintro s' (t' | a) hr
    · exact ih hr
    · exact hr

/-- A loop returns when each round that stays in it lowers a number. -/
theorem spec_iterate (I : τ → σ → Prop) (rounds : τ → σ → ℕ)
    (hbody : ∀ t s, I t s → (body t).Spec G
      (fun s' => Sum.elim (fun t' => I t' s' ∧ rounds t' s' < rounds t s) (Q s')) s) {n : ℕ} {t : τ}
    {s : σ} (ht : I t s) (hn : rounds t s < n) : (iterate body n t).Spec G Q s := by
  induction n generalizing t s with
  | zero => omega
  | succ n ih =>
    rw [iterate,spec_bind]
    refine (hbody t s ht).mono ?_
    rintro s' (t' | a) hr
    · exact ih hr.1 (by have := hr.2; omega)
    · exact hr

end Iterate

/-! ### Runs with a known value -/

/-- From every state with `I` the run returns this value and keeps `I`. -/
def Computes (H : Handler C R σ) (I : σ → Prop) (p : AtomicProgram C R α) (a : α) : Prop :=
  ∀ s, I s → ∃ s', p.run H s = some (s',a) ∧ I s'

section Computes
variable {H : Handler C R σ} {I : σ → Prop}

lemma computes_ret (a : α) : Computes H I (.ret a) a := fun s hs => ⟨s,rfl,hs⟩

lemma computes_bind {p : AtomicProgram C R α} {f : α → AtomicProgram C R β} {a : α} {b : β}
    (hp : Computes H I p a) (hf : Computes H I (f a) b) : Computes H I (p.bind f) b := by
  intro s hs
  obtain ⟨s₁,hrun,hs₁⟩ := hp s hs
  obtain ⟨s₂,hrun',hs₂⟩ := hf s₁ hs₁
  refine ⟨s₂,?_,hs₂⟩
  rw [run_bind,hrun]
  exact hrun'

/-- Such a loop finds the first result. -/
theorem computes_firstSome {τ : Type} {body : τ → AtomicProgram C R (Option α)} {f : τ → Option α}
    {l : List τ} (h : ∀ t ∈ l, Computes H I (body t) (f t)) :
    Computes H I (firstSome body l) (l.findSome? f) := by
  induction l with
  | nil => exact computes_ret none
  | cons t rest ih =>
    refine computes_bind (h t List.mem_cons_self) ?_
    rw [List.findSome?_cons]
    cases f t with
    | some a => exact computes_ret (some a)
    | none => exact ih fun t ht => h t (List.mem_cons_of_mem _ ht)

/-- The rules of a machine that answers every call in one way. -/
def Guarded.ofHandler (H : Handler C R σ) : Guarded C R σ where
  guard _ _ := True
  outcome c s s' r := H c s = some (s',r)

lemma safe_of_run {p : AtomicProgram C R α} {s s' : σ} {a : α} (h : p.run H s = some (s',a)) :
    p.Safe (.ofHandler H) (fun t b => t = s' ∧ b = a) s := by
  induction p generalizing s with
  | ret b =>
    cases h
    exact ⟨rfl,rfl⟩
  | fail => trivial
  | call c next ih =>
    refine ⟨trivial,fun s₁ r ho => ih r ?_⟩
    have ho : H c s = some (s₁,r) := ho
    rw [run_call,ho] at h
    exact h

lemma Computes.safe {p : AtomicProgram C R α} {s : σ} {a : α} (h : Computes H I p a) (hs : I s) :
    p.Safe (.ofHandler H) (fun t b => b = a ∧ I t) s := by
  obtain ⟨s',hrun,hs'⟩ := h s hs
  refine (safe_of_run hrun).mono ?_
  rintro t b ⟨rfl,rfl⟩
  exact ⟨rfl,hs'⟩

end Computes

/-! ### A part of a machine -/

/-- A program that is safe for one part of a machine is safe for the whole, if the calls reach that
part and keep `I` of the rest. -/
theorem Safe.mapCalls {C' : Type} {R' : C' → Type} {σ' : Type} {G : Guarded C R σ}
    {G' : Guarded C' R' σ'} {f : C → C'} {answer : (c : C) → R' (f c) → R c} (view : σ' → σ)
    (I : σ' → Prop) (hguard : ∀ c s, I s → G.guard c (view s) → G'.guard (f c) s)
    (houtcome : ∀ c s s' r, I s → G'.outcome (f c) s s' r →
      G.outcome c (view s) (view s') (answer c r) ∧ I s')
    {p : AtomicProgram C R α} {Q : σ → α → Prop} {s : σ'} (h : p.Safe G Q (view s)) (hs : I s) :
    (p.mapCalls f answer).Safe G' (fun s' a => Q (view s') a ∧ I s') s := by
  induction p generalizing s with
  | ret a => exact ⟨h,hs⟩
  | fail => trivial
  | call c next ih =>
    refine ⟨hguard c s hs h.1,fun s' r ho => ?_⟩
    obtain ⟨ho,hs'⟩ := houtcome c s s' r hs ho
    exact ih _ (h.2 _ _ ho) hs'

end AtomicProgram
