import CrabOs.Foundations.Runs
import CrabOs.Desktop.Rules
import CrabOs.Shell.LiveView

/-! The keyboard task with the mouse interrupt between any two of its atomic steps: when the
sections of a shell stay on its own terminal. -/
namespace CrabOs
open Vga Crabsh AtomicProgram

inductive Phase (D : Decoder)
  | waiting (keyboard : D.State) (shells : Shells)
  | running (keyboard : D.State) (program : ConsoleProgram Shells)
  | panicked

/-- What the rest of a phase is known to do. -/
def Phase.Specified {D : Decoder} (v : View) : Phase D → Prop
  | .waiting _ shells => Settled v shells
  | .running _ p => p.Spec consoleRules Settled v
  | .panicked => False

/-- The keyboard task between two atomic steps. The task does not see `packetFocus`: it is the
focus after the last mouse packet since the task last called `set_active_terminal`, if any. -/
structure Machine (D : Decoder) where
  console : Console
  phase : Phase D
  packetFocus : Option (Fin 2)

/-- A wait ends with an event or a loss; the task proceeds by one call; the mouse may act at
any point. -/
inductive Action
  | event (env : Environment) (event : InputEvent)
  | inputLost
  | proceed
  | mouse (byte : UInt8)

def ConsoleCall.packetFocusAfter : ConsoleCall → Option (Fin 2) → Option (Fin 2)
  | .setActiveTerminal _,_ => none
  | _,packetFocus => packetFocus

namespace Machine
variable {D : Decoder}

def start : Machine D := ⟨Console.initial,.running D.new startShells,none⟩

def proceed (m : Machine D) (keyboard : D.State) : ConsoleProgram Shells → Machine D
  | .ret shells => { m with phase := .waiting keyboard shells }
  | .fail => { m with phase := .panicked }
  | .call c next => match Console.handler c m.console with
    | some (k,r) => ⟨k,.running keyboard (next r),c.packetFocusAfter m.packetFocus⟩
    | none => { m with phase := .panicked }

def interrupt (m : Machine D) (byte : UInt8) : Machine D :=
  match m.console.mouseByte byte with
  | some (k,r) => ⟨k,m.phase,if r.completed then some k.desktop.active else m.packetFocus⟩
  | none => { m with phase := .panicked }

/-- An action that is not possible has no next state. -/
def step (info : SystemInfo) (m : Machine D) (action : Action) : Option (Machine D) :=
  match action,m.phase with
  | .event env event,.waiting keyboard shells =>
    let (keyboard,key) := D.decode keyboard event
    some { m with phase := .running keyboard (handleEvent info env shells key event) }
  | .inputLost,.waiting _ shells => some { m with phase := .running D.new (handleLoss shells) }
  | .proceed,.running keyboard p => some (m.proceed keyboard p)
  | .mouse byte,_ => some (m.interrupt byte)
  | _,_ => none

def run (info : SystemInfo) : List Action → Machine D → Option (Machine D)
  | [],m => some m
  | action :: actions,m => (m.step info action).bind (run info actions)

/-- The mouse packets since the last call of `set_active_terminal`, if any, left the focus on the
shell whose section is next. -/
def Undisturbed (m : Machine D) : Prop :=
  ∀ keyboard i ops next, m.phase = .running keyboard (.call (.withWriter (some i) ops) next) →
    ∀ j, m.packetFocus = some j → j = i

def UndisturbedRun (info : SystemInfo) : List Action → Machine D → Prop
  | [],_ => True
  | action :: actions,m => (action = .proceed → m.Undisturbed) ∧
    ∀ m', m.step info action = some m' → UndisturbedRun info actions m'

/-- A position of the ring of a terminal. -/
structure PositionOf (w : Writer) (p : Position) : Prop where
  low : w.firstLine ≤ p.line
  high : p.line ≤ w.lastLine
  column : p.column ≤ w.columns

/-- Sections went where they belong, nothing has failed, and the anchor of a shell is a position
of its terminal, at a wait and whenever its input line is redrawn. -/
structure Isolated (m : Machine D) : Prop where
  alive : m.phase ≠ .panicked
  faithful : ∀ r ∈ m.console.trace, r.Faithful
  stored : ∀ keyboard shells, m.phase = .waiting keyboard shells → ∀ i s, shells i = some s →
    PositionOf (m.console.terminals i) s.anchor
  used : ∀ keyboard i anchor text cursor oldLen rest next, m.phase = .running keyboard
      (.call (.withWriter (some i) (.replaceInput anchor text cursor oldLen :: rest)) next) →
    PositionOf (m.console.terminals i) anchor

structure Inv (m : Machine D) (v : View) : Prop where
  looks : m.console.Looks v
  active : m.console.activeTerminal = m.packetFocus.getD v.focus
  faithful : ∀ r ∈ m.console.trace, r.Faithful
  phase : m.phase.Specified v

variable {m m' : Machine D} {v : View}

lemma inv_start : (start : Machine D).Inv View.initial :=
  ⟨inStep_initial.1,rfl,by simp [start,Console.initial],spec_startShells⟩

lemma positionOf_anchored {w : Writer} {screen : Screen} {s : Shell} (hw : screen.Shows w)
    (hwide : 36 ≤ screen.columns) (h : Anchored screen s) : PositionOf w s.anchor := by
  refine ⟨by rw [hw.first]; exact h.low,by rw [hw.last]; exact h.high,?_⟩
  rw [hw.columns,h.column]
  exact le_trans (by decide) hwide

lemma positionOf_guard {w : Writer} {screen : Screen} {anchor : Position} {text : String}
    {cursor oldLen : ℕ} {rest : Section} (hw : screen.Shows w)
    (h : screen.guard (.replaceInput anchor text cursor oldLen :: rest)) : PositionOf w anchor := by
  cases screen with
  | stale n first last => obtain ⟨_,he,-⟩ := h; cases he
  | live t =>
    have hm : Writer.Mirrors w t := hw
    obtain ⟨⟨-,-,-,-,-,hline,hnear,hcolumn⟩,-⟩ := h
    have hfirst := hm.first
    rw [hm.last] at hline hnear
    rw [hm.columns] at hcolumn
    simp only [scrollbackLines] at hfirst
    exact ⟨by omega,hline,hcolumn⟩

lemma Inv.isolated (h : m.Inv v) : m.Isolated := by
  have hphase := h.phase
  refine ⟨fun he => ?_,h.faithful,fun keyboard shells he i s hs => ?_,?_⟩
  · rw [he] at hphase
    exact hphase
  · rw [he] at hphase
    have hset : Settled v shells := hphase
    exact positionOf_anchored (h.looks.screens i) (hset.wide i) (hset.shell i s hs).2
  · intro keyboard i anchor text cursor oldLen rest next he
    rw [he] at hphase
    exact positionOf_guard (h.looks.screens i) hphase.1.2

lemma Inv.interrupt (h : m.Inv v) (byte : UInt8) : (m.interrupt byte).Inv v := by
  obtain ⟨k,r,hk,hlooks,-,htrace,hactive⟩ := h.looks.mouseByte byte
  unfold Machine.interrupt
  rw [hk]
  refine ⟨hlooks,?_,by rw [htrace]; exact h.faithful,h.phase⟩
  dsimp only
  rw [hactive]
  split_ifs
  · rfl
  · exact h.active

/-- One step of the task, unless a section is about to go astray. -/
lemma Inv.proceed (h : m.Inv v) {keyboard : D.State} {p : ConsoleProgram Shells}
    (hp : m.phase = .running keyboard p) (hm : m.Undisturbed) :
    ∃ v', (m.proceed keyboard p).Inv v' := by
  have hphase := h.phase
  rw [hp] at hphase
  cases p with
  | ret shells => exact ⟨v,h.looks,h.active,h.faithful,hphase⟩
  | fail => exact hphase.elim
  | call c next =>
    have hspec : consoleRules.guard c v ∧ ∀ v' r, consoleRules.outcome c v v' r →
      (next r).Spec consoleRules Settled v' := hphase
    obtain ⟨k,r,v',hk,ho,hlooks,hactive,hfocus,hfaithful⟩ := h.looks.call hspec.1 fun i ops hc => by
      subst hc
      rw [h.active]
      cases hf : m.packetFocus with
      | none => exact hspec.1.1
      | some j => exact hm keyboard i ops next hp j hf
    refine ⟨v',?_⟩
    simp only [Machine.proceed,hk]
    refine ⟨hlooks,?_,hfaithful h.faithful,hspec.2 v' r ho⟩
    dsimp only
    rw [hactive,hfocus,h.active]
    cases c <;> rfl

theorem Inv.step (h : m.Inv v) {info : SystemInfo} {action : Action}
    (hm : action = .proceed → m.Undisturbed) (hstep : m.step info action = some m') :
    ∃ v', m'.Inv v' := by
  have hphase := h.phase
  unfold Machine.step at hstep
  split at hstep
  next env event keyboard shells hp =>
    cases hstep
    rw [hp] at hphase
    exact ⟨v,h.looks,h.active,h.faithful,spec_handleEvent hphase info env _ event⟩
  next keyboard shells hp =>
    cases hstep
    rw [hp] at hphase
    exact ⟨v,h.looks,h.active,h.faithful,(spec_handleLoss hphase).mono fun _ _ hs => hs.1⟩
  next keyboard p hp =>
    cases hstep
    exact h.proceed hp (hm rfl)
  next byte =>
    cases hstep
    exact ⟨v,h.interrupt byte⟩
  next => cases hstep

/-- A disturbed section goes to the terminal the mouse chose, or fails there. -/
lemma Inv.disturbed (h : m.Inv v) (hm : ¬m.Undisturbed) (info : SystemInfo) :
    ∃ m', m.step info .proceed = some m' ∧ ¬m'.Isolated := by
  unfold Undisturbed at hm
  push Not at hm
  obtain ⟨keyboard,i,ops,next,hp,j,hj,hne⟩ := hm
  have hactive : m.console.activeTerminal = j := by rw [h.active,hj]; rfl
  refine ⟨m.proceed keyboard (.call (.withWriter (some i) ops) next),?_,fun hi => ?_⟩
  · unfold Machine.step
    rw [hp]
  · cases hk : Console.handler (.withWriter (some i) ops) m.console with
    | none =>
      simp only [Machine.proceed,hk] at hi
      exact hi.alive rfl
    | some answer =>
      obtain ⟨k,r⟩ := answer
      simp only [Machine.proceed,hk] at hi
      obtain ⟨w,-,hw⟩ := Option.map_eq_some_iff.mp hk
      cases hw
      have hrecord := hi.faithful ⟨some i,m.console.activeTerminal,ops⟩ (by simp) i rfl
      exact hne (hactive.symm.trans hrecord)

/-- Every state a schedule passes through is isolated. -/
def AlwaysIsolated (info : SystemInfo) (actions : List Action) (m : Machine D) : Prop :=
  ∀ before, before <+: actions → ∀ x, run info before m = some x → x.Isolated

lemma alwaysIsolated_cons (info : SystemInfo) (action : Action) (actions : List Action) :
    AlwaysIsolated info (action :: actions) m ↔
      m.Isolated ∧ ∀ m', m.step info action = some m' → AlwaysIsolated info actions m' := by
  constructor
  · intro h
    refine ⟨h [] (List.nil_prefix) m rfl,fun m' hm' before hb x hx => ?_⟩
    exact h (action :: before) (List.cons_prefix_cons.mpr ⟨rfl,hb⟩) x (by rw [run,hm']; exact hx)
  · rintro ⟨hm,hrest⟩ before hb x hx
    cases before with
    | nil => cases hx; exact hm
    | cons a before =>
      obtain ⟨rfl,hrestb⟩ := List.cons_prefix_cons.mp hb
      obtain ⟨m',hm',hx⟩ := Option.bind_eq_some_iff.mp hx
      exact hrest m' hm' before hrestb x hx

theorem Inv.alwaysIsolated_iff (h : m.Inv v) (info : SystemInfo) (actions : List Action) :
    AlwaysIsolated info actions m ↔ UndisturbedRun info actions m := by
  induction actions generalizing m v with
  | nil =>
    refine ⟨fun _ => trivial,fun _ before hb x hx => ?_⟩
    rw [List.prefix_nil.mp hb] at hx
    cases hx
    exact h.isolated
  | cons action actions ih =>
    rw [alwaysIsolated_cons]
    have hnext : ∀ m', m.step info action = some m' → (action = .proceed → m.Undisturbed) →
        (AlwaysIsolated info actions m' ↔ UndisturbedRun info actions m') := by
      intro m' hstep hm
      obtain ⟨v',hv'⟩ := h.step hm hstep
      exact ih hv'
    constructor
    · rintro ⟨-,hrest⟩
      have hm : action = .proceed → m.Undisturbed := by
        rintro rfl
        by_contra hm
        obtain ⟨m',hm',hbad⟩ := h.disturbed hm info
        exact hbad (hrest m' hm' [] List.nil_prefix m' rfl)
      exact ⟨hm,fun m' hm' => (hnext m' hm' hm).mp (hrest m' hm')⟩
    · rintro ⟨hm,hrest⟩
      exact ⟨h.isolated,fun m' hm' => (hnext m' hm' hm).mpr (hrest m' hm')⟩

end Machine

/-- The terminals of the two shells are isolated in exactly those runs of the keyboard task in
which the mouse does not take the active terminal away from a shell before one of its sections. -/
theorem isolated_iff_undisturbed (D : Decoder) (info : SystemInfo) (actions : List Action) :
    Machine.AlwaysIsolated info actions (Machine.start : Machine D) ↔
      Machine.UndisturbedRun info actions (Machine.start : Machine D) :=
  Machine.inv_start.alwaysIsolated_iff info actions

/-! ### A motion packet during a resize -/

/-- Calls that neither open nor close a window. -/
def KeepsDesktop : ConsoleCall → Prop
  | .closeWindow _ => False
  | .openWindow => False
  | _ => True

lemma handler_desktop {c : ConsoleCall} {k k' : Console} {r : c.Answer} (hc : KeepsDesktop c)
    (h : Console.handler c k = some (k',r)) : k'.desktop = k.desktop := by
  cases c with
  | closeWindow index => exact hc.elim
  | openWindow => exact hc.elim
  | setTerminalColumns index columns =>
    obtain ⟨w,-,he⟩ := Option.map_eq_some_iff.mp h
    cases he
    rfl
  | withWriter owner ops =>
    obtain ⟨w,-,he⟩ := Option.map_eq_some_iff.mp h
    cases he
    rfl
  | _ => cases h; rfl

lemma run_desktop {α : Type} {p : ConsoleProgram α} (hp : p.Makes KeepsDesktop) {k k' : Console}
    {a : α} (h : p.run Console.handler k = some (k',a)) : k'.desktop = k.desktop :=
  hp.run (I := fun x => x.desktop = k.desktop)
    (fun _ _ _ _ hc hi hstep => (handler_desktop hc hstep).trans hi) rfl h

lemma handler_packetLen {c : ConsoleCall} {k k' : Console} {r : c.Answer}
    (h : Console.handler c k = some (k',r)) : k'.desktop.packetLen = k.desktop.packetLen := by
  cases c with
  | closeWindow index => cases h; rfl
  | openWindow =>
    cases h
    exact Desktop.openWindow_packetLen _
  | _ => exact congrArg Desktop.packetLen (handler_desktop (by trivial) h)

lemma run_packetLen {α : Type} {p : ConsoleProgram α} {k k' : Console} {a : α}
    (h : p.run Console.handler k = some (k',a)) : k'.desktop.packetLen = k.desktop.packetLen := by
  induction p generalizing k with
  | ret b => cases h; rfl
  | fail => cases h
  | call c rest ih =>
    obtain ⟨⟨k₁,r⟩,hk₁,hrest⟩ := Option.bind_eq_some_iff.mp h
    exact (ih r hrest).trans (handler_packetLen hk₁)

namespace Machine
variable {D : Decoder}

lemma run_append (info : SystemInfo) (as bs : List Action) (m : Machine D) :
    run info (as++bs) m = (run info as m).bind (run info bs) := by
  have hrun : (run info : List Action → Machine D → _) =
      Runs.run fun m action => m.step info action :=
    Runs.eq_run (fun _ => rfl) fun _ _ _ => rfl
  rw [hrun]
  exact Runs.run_append as bs m

lemma run_proceed (info : SystemInfo) {c : ConsoleCall} {k k' : Console} {r : c.Answer}
    (h : Console.handler c k = some (k',r)) (actions : List Action) (keyboard : D.State)
    (next : c.Answer → ConsoleProgram Shells) (g : Option (Fin 2)) :
    run info (.proceed :: actions) ⟨k,.running keyboard (.call c next),g⟩ =
      run info actions ⟨k',.running keyboard (next r),c.packetFocusAfter g⟩ := by
  simp only [run,step,proceed,h,Option.bind_some]

/-- The task gets from one state to another while the mouse is silent. -/
def Silently (info : SystemInfo) (m m' : Machine D) : Prop :=
  ∃ n, run info (List.replicate n .proceed) m = some m'

lemma Silently.trans {info : SystemInfo} {m₁ m₂ m₃ : Machine D} (h₁ : Silently info m₁ m₂)
    (h₂ : Silently info m₂ m₃) : Silently info m₁ m₃ := by
  obtain ⟨n₁,h₁⟩ := h₁
  obtain ⟨n₂,h₂⟩ := h₂
  exact ⟨n₁+n₂,by rw [List.replicate_add,run_append,h₁]; exact h₂⟩

lemma silently_call (info : SystemInfo) {c : ConsoleCall} {k k' : Console} {r : c.Answer}
    (h : Console.handler c k = some (k',r)) (keyboard : D.State)
    (next : c.Answer → ConsoleProgram Shells) (g : Option (Fin 2)) :
    Silently info ⟨k,.running keyboard (.call c next),g⟩
      ⟨k',.running keyboard (next r),c.packetFocusAfter g⟩ :=
  ⟨1,run_proceed info h [] keyboard next g⟩

/-- A program that runs to its end does so in the machine. -/
lemma silently_program (info : SystemInfo) {α : Type} {p : ConsoleProgram α} {k k' : Console}
    {a : α} (h : p.run Console.handler k = some (k',a)) (keyboard : D.State)
    (next : α → ConsoleProgram Shells) (g : Option (Fin 2)) :
    ∃ g', Silently info ⟨k,.running keyboard (p.bind next),g⟩ ⟨k',.running keyboard (next a),g'⟩ := by
  induction p generalizing k g with
  | ret b => cases h; exact ⟨g,0,rfl⟩
  | fail => cases h
  | call c rest ih =>
    obtain ⟨⟨k₁,r⟩,hk₁,hrest⟩ := Option.bind_eq_some_iff.mp h
    obtain ⟨g',hn⟩ := ih r hrest (c.packetFocusAfter g)
    exact ⟨g',(silently_call info hk₁ keyboard _ g).trans hn⟩

lemma silently_waiting (info : SystemInfo) {p : ConsoleProgram Shells} {k k' : Console}
    {shells : Shells} (h : p.run Console.handler k = some (k',shells)) (keyboard : D.State)
    (g : Option (Fin 2)) :
    ∃ g', Silently info ⟨k,.running keyboard p,g⟩ ⟨k',.waiting keyboard shells,g'⟩ := by
  obtain ⟨g',hp⟩ := silently_program info h keyboard .ret g
  rw [bind_ret] at hp
  exact ⟨g',hp.trans ⟨1,rfl⟩⟩

/-- Three bytes of a packet without a button publish the focus as it is. -/
lemma run_packet (info : SystemInfo) {k : Console} (hk : k.desktop.packetLen = 0) (phase : Phase D)
    (g : Option (Fin 2)) :
    ∃ k' g', run info [.mouse 8,.mouse 0,.mouse 0] ⟨k,phase,g⟩ = some ⟨k',phase,g'⟩ ∧
      k'.activeTerminal = k.desktop.active := by
  obtain ⟨d₁,d₂,r,h₁,h₂,h₃,hdone,hactive⟩ := Desktop.motion_packet hk
  refine ⟨{ k with desktop := r.desktop, activeTerminal := r.desktop.active },
    some r.desktop.active,?_,hactive⟩
  simp [run,step,interrupt,Console.mouseByte,h₁,h₂,h₃,hdone]

/-- `resize_open_shells` makes the first terminal active and is about to clear it. -/
lemma silently_resize (info : SystemInfo) {k : Console} {shells : Shells} {s : Shell}
    {fresh : Option (Fin 2)} (hopen : k.desktop.isOpen 0) (hs : shells 0 = some s)
    (hfresh : fresh ≠ some 0) (keyboard : D.State) (g : Option (Fin 2)) :
    ∃ next, Silently info ⟨k,.running keyboard (resizeOpenShells shells fresh),g⟩
      ⟨{ k with activeTerminal := 0 },
        .running keyboard (.call (.withWriter (some 0) [.clear]) next),none⟩ := by
  refine Exists.imp (fun _ hn => (silently_call info (c := .isOpen 0) rfl keyboard _ g).trans hn) ?_
  dsimp only
  rw [if_pos ⟨hopen,hfresh⟩,hs]
  exact ⟨_,silently_call info (c := .setActiveTerminal 0) rfl keyboard _ _⟩

lemma run_misplaced (info : SystemInfo) {k : Console} (hactive : k.desktop.active = 1)
    (hlen : k.desktop.packetLen = 0) (keyboard : D.State)
    (next : Position → ConsoleProgram Shells) (g : Option (Fin 2)) :
    ∃ x, run info [.mouse 8,.mouse 0,.mouse 0,.proceed]
      ⟨k,.running keyboard (.call (.withWriter (some 0) [.clear]) next),g⟩ = some x ∧
        ⟨some 0,1,[.clear]⟩ ∈ x.console.trace := by
  obtain ⟨k',g',hpacket,hk'⟩ := run_packet (D := D) info hlen
    (.running keyboard (.call (.withWriter (some 0) [.clear]) next)) g
  obtain ⟨x,hx,hrecord⟩ : ∃ x, run info [.proceed]
      ⟨k',.running keyboard (.call (.withWriter (some 0) [.clear]) next),g'⟩ = some x ∧
        ⟨some 0,k'.activeTerminal,[.clear]⟩ ∈ x.console.trace :=
    ⟨_,run_proceed info (c := .withWriter (some 0) [.clear]) rfl _ keyboard next g',by simp⟩
  refine ⟨x,?_,by rw [← hactive,← hk']; exact hrecord⟩
  change run info ([.mouse 8,.mouse 0,.mouse 0]++[.proceed]) _ = _
  rw [run_append,hpacket,Option.bind_some,hx]

lemma openTerminal_run {k k' : Console} {opened : Option (Fin 2)} {i : Fin 2}
    (hfirst : Desktop.firstClosed k.desktop.isOpen = some i)
    (h : openTerminal.run Console.handler k = some (k',opened)) :
    opened = some i ∧ k'.desktop = k.desktop.openWindow.1 := by
  have hanswer : Console.handler .openWindow k =
      some ({ k with desktop := k.desktop.openWindow.1 },some i) := by
    rw [← hfirst,← Desktop.openWindow_snd]
    rfl
  obtain ⟨r,hr,h⟩ := Option.bind_eq_some_iff.mp h
  obtain rfl := Option.some.inj (hanswer.symm.trans hr)
  refine ⟨All.run (P := (· = some i)) ?_ h,run_desktop ?_ h⟩
  · exact fun _ _ _ _ _ => rfl
  · exact ⟨trivial,fun _ => ⟨trivial,fun _ => ⟨trivial,fun _ => ⟨trivial,fun _ =>
      ⟨trivial,fun _ => trivial⟩⟩⟩⟩⟩

/-- Opening the second terminal, up to the point where the first one is cleared. -/
lemma silently_open (info : SystemInfo) (env : Environment) {k : Console} {shells : Shells}
    {v : View} (hk : k.InStep v) (hset : Settled v shells) (h₀ : v.opens 0 = true)
    (h₁ : v.opens 1 = false) (keyboard : D.State) (g : Option (Fin 2)) :
    ∃ k' next g', Silently info ⟨k,.running keyboard (openShell info env shells),g⟩
      ⟨k',.running keyboard (.call (.withWriter (some 0) [.clear]) next),g'⟩ ∧
        k'.desktop = k.desktop.openWindow.1 := by
  obtain ⟨s,hs,-⟩ := hset.prompting 0 h₀
  obtain ⟨k₂,shells₂,v₂,hrun,-,-⟩ := hk.run (spec_openShell hset info env)
  have hfirst : Desktop.firstClosed k.desktop.isOpen = some 1 := by
    rw [hk.1.opens]
    simp [Desktop.firstClosed,h₀,h₁]
  have hopens : k.desktop.openWindow.1.isOpen 0 = true := by
    rw [Desktop.openWindow_isOpen,hfirst,hk.1.opens]
    exact h₀
  unfold openShell at hrun ⊢
  rw [bind_eq,run_bind] at hrun
  obtain ⟨⟨k₃,opened⟩,hopen,hrest⟩ := Option.bind_eq_some_iff.mp hrun
  obtain ⟨rfl,hdesktop⟩ := openTerminal_run hfirst hopen
  obtain ⟨g₁,hfront⟩ := silently_program info hopen keyboard _ g
  refine Exists.imp (fun _ => Exists.imp fun _ => Exists.imp fun _ => And.imp_left hfront.trans) ?_
  cases hs₁ : shells 1 with
  | some s₁ =>
    simp only [hs₁]
    obtain ⟨next,hreset⟩ := silently_resize info (by rw [hdesktop]; exact hopens) hs
      (show none ≠ some 0 by simp) keyboard g₁
    exact ⟨_,next,none,hreset,hdesktop⟩
  | none =>
    simp only [hs₁] at hrest ⊢
    change ((onBehalf 1 (Shell.new info env)).bind _).run Console.handler
      { k₃ with activeTerminal := 1 } = _ at hrest
    rw [run_bind] at hrest
    obtain ⟨⟨k₄,s₁⟩,hnew,-⟩ := Option.bind_eq_some_iff.mp hrest
    have hkeeps : (onBehalf 1 (Shell.new info env)).Makes KeepsDesktop :=
      (Shell.new_makes info env).mapCalls fun _ _ => trivial
    have hdesktop₄ : k₄.desktop = k.desktop.openWindow.1 :=
      (run_desktop hkeeps hnew).trans hdesktop
    obtain ⟨g₂,hback⟩ := silently_program info hnew keyboard
      (fun s => resizeOpenShells (Function.update shells 1 (some s)) (some 1)) none
    have hfirst : Function.update shells 1 (some s₁) 0 = some s := hs
    obtain ⟨next,hreset⟩ := silently_resize info (by rw [hdesktop₄]; exact hopens) hfirst (show some 1 ≠ some 0 by simp) keyboard g₂
    exact ⟨_,next,none,((silently_call info (c := .setActiveTerminal 1) rfl keyboard _ g₁).trans
      hback).trans hreset,hdesktop₄⟩

lemma run_event (info : SystemInfo) (env : Environment) (actions : List Action) (k : Console)
    (keyboard : D.State) (shells : Shells) (g : Option (Fin 2)) :
    run info (.event env .openTerminal :: actions) ⟨k,.waiting keyboard shells,g⟩ =
      run info actions ⟨k,.running keyboard (openShell info env shells),g⟩ := by
  have hkey : dispatchKey info env shells (.unicode '\x11') = openShell info env shells := by
    unfold dispatchKey
    rw [if_neg (by decide),if_pos rfl]
  rw [← hkey]
  rfl

/-- Two terminals are opened one after the other, and a packet without buttons or motion comes
before the task proceeds to the end of the second one. -/
def packetWhileOpening (env : Environment) (n₁ n₂ n₃ : ℕ) : List Action :=
  List.replicate n₁ Action.proceed++(Action.event env .openTerminal ::
    (List.replicate n₂ Action.proceed++(Action.event env .openTerminal ::
    (List.replicate n₃ Action.proceed++[.mouse 8,.mouse 0,.mouse 0,.proceed]))))

lemma exists_misplaced (D : Decoder) (info : SystemInfo) (env : Environment) :
    ∃ (n₁ n₂ n₃ : ℕ) (x : Machine D),
      run info (packetWhileOpening env n₁ n₂ n₃) start = some x ∧
        ⟨some 0,1,[.clear]⟩ ∈ x.console.trace := by
  obtain ⟨k₀,shells₀,v₀,hrun₀,hstep₀,hset₀⟩ := inStep_initial.run spec_startShells
  have hdesktop : k₀.desktop = Desktop.initial := by
    refine run_desktop (p := startShells) ?_ hrun₀
    exact ⟨trivial,fun _ => ⟨trivial,fun _ => ⟨trivial,fun _ => trivial⟩⟩⟩
  have hopens₀ : v₀.opens = fun _ => false := by rw [← hstep₀.1.opens,hdesktop]; rfl
  obtain ⟨g₀,n₁,h₁⟩ := silently_waiting info hrun₀ D.new none
  obtain ⟨k₁,shells₁,v₁,hrun₁,hstep₁,hset₁,hopens₁⟩ := hstep₀.run (spec_openShell hset₀ info env)
  obtain ⟨g₁,n₂,h₂⟩ := silently_waiting info hrun₁ D.new g₀
  rw [hopens₀] at hopens₁
  have hlen : k₁.desktop.packetLen = 0 := by
    rw [run_packetLen hrun₁,hdesktop]
    rfl
  have hsecond : v₁.opens 0 = true ∧ v₁.opens 1 = false := by rw [hopens₁]; decide
  obtain ⟨k₂,next,g₂,⟨n₃,h₃⟩,hdesktop₂⟩ :=
    silently_open info env hstep₁ hset₁ hsecond.1 hsecond.2 D.new g₁
  have hactive₂ : k₂.desktop.active = 1 := by
    rw [hdesktop₂]
    exact Desktop.openWindow_active (by rw [hstep₁.1.opens,hopens₁]; decide)
  have hlen₂ : k₂.desktop.packetLen = 0 := by
    rw [hdesktop₂,Desktop.openWindow_packetLen,hlen]
  obtain ⟨x,hx,hrecord⟩ := run_misplaced info hactive₂ hlen₂ D.new next g₂
  refine ⟨n₁,n₂,n₃,x,?_,hrecord⟩
  rw [packetWhileOpening,run_append,show (start : Machine D) = ⟨Console.initial,.running D.new startShells,none⟩ from rfl,
    h₁,Option.bind_some,run_event,run_append,h₂,Option.bind_some,run_event,run_append,h₃,
    Option.bind_some,hx]

end Machine

/-- The section that clears the first terminal goes to the second one. -/
theorem motion_packet_misplaces_section :
    ∃ (n₁ n₂ n₃ : ℕ) (x : Machine .releases),
      Machine.run plainInfo (Machine.packetWhileOpening plainEnvironment n₁ n₂ n₃) Machine.start =
        some x ∧ ∃ r ∈ x.console.trace, ¬r.Faithful := by
  obtain ⟨n₁,n₂,n₃,x,hx,hrecord⟩ := Machine.exists_misplaced .releases plainInfo plainEnvironment
  exact ⟨n₁,n₂,n₃,x,hx,_,hrecord,fun hfaithful => absurd (hfaithful 0 rfl) (by decide)⟩

end CrabOs
