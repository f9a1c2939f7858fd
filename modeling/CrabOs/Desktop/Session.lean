import CrabOs.Foundations.Runs
import CrabOs.Desktop.Rules
import CrabOs.Shell.LiveView

/-! The keyboard task over whole sessions: events are handled one by one, and the mouse acts
while the task waits for the next one. -/
namespace CrabOs
open Vga Crabsh AtomicProgram

/-- What `run_shell` holds at a wait. The trace of the console covers the last event. -/
structure Session (D : Decoder) where
  console : Console
  keyboard : D.State
  shells : Shells

/-- What ends a wait, or happens during it. -/
inductive SessionInput
  | event (env : Environment) (event : InputEvent)
  | inputLost
  | mouse (byte : UInt8)

namespace Session
variable {D : Decoder}

def perform (keyboard : D.State) (p : ConsoleProgram Shells) (k : Console) : Option (Session D) :=
  (p.run Console.handler { k with trace := [] }).map fun r => ⟨r.1,keyboard,r.2⟩

def start : Option (Session D) := perform D.new startShells Console.initial

def step (info : SystemInfo) (x : Session D) : SessionInput → Option (Session D)
  | .event env event =>
    let (keyboard,key) := D.decode x.keyboard event
    perform keyboard (handleEvent info env x.shells key event) x.console
  | .inputLost => perform D.new (handleLoss x.shells) x.console
  | .mouse byte => (x.console.mouseByte byte).map fun r => { x with console := r.1 }

def run (info : SystemInfo) : List SessionInput → Session D → Option (Session D)
  | [],x => some x
  | input :: inputs,x => (x.step info input).bind (run info inputs)

end Session

/-! ### Redrawing -/

/-- The view is the live display, and the cursor is on one of its rows. -/
structure InView (w : Writer) : Prop where
  live : w.viewTop = w.liveTop
  low : w.viewTop ≤ w.cursor.line
  high : w.cursor.line < w.viewTop+terminalRows

/-- No call redraws an input line. -/
def Plain : ConsoleCall → Prop
  | .withWriter _ ops => ¬Writer.Redraws ops
  | _ => True

lemma not_redraws_nil : ¬Writer.Redraws [] := by simp [Writer.Redraws]

lemma refresh_plain : refresh.Makes Plain := ⟨not_redraws_nil,fun _ => trivial⟩

lemma performAll_plain {calls : List ConsoleCall} (h : ∀ c ∈ calls, Plain c) :
    (performAll calls : ConsoleProgram Unit).Makes Plain := makes_performAll h

lemma onBehalf_plain {α : Type} {i : Fin 2} {p : ShellProgram α} (h : p.Makes OnlyOutput) :
    (onBehalf i p).Makes Plain := h.mapCalls fun _ hops => hops.no_redraw

lemma syncTerminalWidths_plain : syncTerminalWidths.Makes Plain :=
  ⟨trivial,fun _ => performAll_plain (by simp [Plain])⟩

lemma focusActive_plain : focusActive.Makes Plain :=
  ⟨trivial,fun _ => performAll_plain (by simp [Plain])⟩

lemma closeTerminal_plain (index : ℕ) : (closeTerminal index).Makes Plain :=
  Makes.bind (performAll_plain (by simp [Plain])) fun _ =>
    Makes.bind syncTerminalWidths_plain fun _ =>
    Makes.bind focusActive_plain fun _ => refresh_plain

lemma openTerminal_plain : openTerminal.Makes Plain := by
  refine ⟨trivial,fun (opened : Option (Fin 2)) => ?_⟩
  cases opened with
  | none => trivial
  | some index =>
    exact Makes.bind syncTerminalWidths_plain fun _ =>
      Makes.bind (performAll_plain (by simp [Plain])) fun _ =>
      Makes.bind refresh_plain fun _ => trivial

lemma startShells_plain : startShells.Makes Plain :=
  Makes.bind (performAll_plain (by simp [Plain])) fun _ => Makes.bind refresh_plain fun _ =>
    Makes.bind (performAll_plain (by simp [Plain])) fun _ => trivial

lemma resizeShell_plain (fresh : Option (Fin 2)) (shells : Shells) (index : Fin 2) :
    (resizeShell fresh shells index).Makes Plain := by
  refine ⟨trivial,fun (opened : Bool) => ?_⟩
  dsimp only
  split_ifs
  · refine Makes.bind (performAll_plain (by simp [Plain])) fun _ => ?_
    cases shells index with
    | none => trivial
    | some shell => exact Makes.bind (onBehalf_plain shell.resetForResize_makes) fun _ => trivial
  · trivial

lemma resizeOpenShells_plain (shells : Shells) (fresh : Option (Fin 2)) :
    (resizeOpenShells shells fresh).Makes Plain :=
  Makes.bind (resizeShell_plain _ _ _) fun _ => Makes.bind (resizeShell_plain _ _ _) fun _ =>
    Makes.bind focusActive_plain fun _ => trivial

lemma closeFocused_plain (shells : Shells) : (closeFocused shells).Makes Plain := by
  refine ⟨trivial,fun (active : Fin 2) => ⟨trivial,fun (opened : Bool) => ?_⟩⟩
  dsimp only
  split_ifs
  · exact Makes.bind ⟨trivial,fun (active : Fin 2) => closeTerminal_plain active.val⟩ fun _ =>
      resizeOpenShells_plain _ _
  · trivial

lemma openShell_plain (info : SystemInfo) (env : Environment) (shells : Shells) :
    (openShell info env shells).Makes Plain := by
  refine Makes.bind openTerminal_plain fun opened => ?_
  cases opened with
  | none => trivial
  | some index =>
    cases hs : shells index with
    | some s => simp only [hs]; exact resizeOpenShells_plain _ _
    | none =>
      simp only [hs]
      exact Makes.bind (performAll_plain (by simp [Plain])) fun _ =>
        Makes.bind (onBehalf_plain (Shell.new_makes info env)) fun _ => resizeOpenShells_plain _ _

/-- Every redraw went to an open terminal that shows its live display. -/
def Redrawn (k : Console) : Prop :=
  ∀ r ∈ k.trace, Writer.Redraws r.ops → k.desktop.isOpen r.target ∧ (k.terminals r.target).Follows

lemma withWriter_cases {k k' : Console} {owner : Option (Fin 2)} {ops : Section}
    {position : Position} (h : k.withWriter owner ops = some (k',position)) :
    ∃ w, Writer.applyAll ops (k.terminals k.activeTerminal) = some w ∧
      k' = { k.setTerminal k.activeTerminal w with
        trace := k.trace++[⟨owner,k.activeTerminal,ops⟩] } := by
  obtain ⟨⟨w,p⟩,hw,hk⟩ := Option.map_eq_some_iff.mp h
  obtain ⟨u,hu,he⟩ := Option.map_eq_some_iff.mp hw
  cases he
  cases hk
  exact ⟨_,hu,rfl⟩

/-- A plain program leaves nothing redrawn. -/
lemma redrawn_of_plain {α : Type} {p : ConsoleProgram α} (hp : p.Makes Plain) {k k' : Console}
    {a : α} (hk : k.trace = []) (hrun : p.run Console.handler k = some (k',a)) : Redrawn k' := by
  have hnone : ∀ r ∈ k'.trace, ¬Writer.Redraws r.ops := by
    refine hp.run (I := fun k => ∀ r ∈ k.trace, ¬Writer.Redraws r.ops) ?_ (by simp [hk]) hrun
    intro c k k' answer hc hi hstep
    cases c with
    | withWriter owner ops =>
      obtain ⟨w,-,rfl⟩ := withWriter_cases hstep
      intro r hr
      rcases List.mem_append.mp hr with hr | hr
      · exact hi r hr
      · rw [List.mem_singleton.mp hr]
        exact hc
    | setTerminalColumns index columns =>
      obtain ⟨w,-,he⟩ := Option.map_eq_some_iff.mp hstep
      cases he
      exact hi
    | _ => cases hstep; exact hi
  exact fun r hr hd => absurd hd (hnone r hr)

/-- Sections of a shell for its own terminal that do not scroll up. -/
def LiveSection (i : Fin 2) (c : ConsoleCall) : Prop :=
  ∃ ops, c = .withWriter (some i) ops ∧ Shell.StaysLive ops

/-- All redraws so far went to the active terminal, which shows its live display. -/
structure Following (i : Fin 2) (k : Console) : Prop where
  active : k.activeTerminal = i
  opened : k.desktop.isOpen i
  live : ∀ r ∈ k.trace, Writer.Redraws r.ops → r.target = i ∧ (k.terminals i).Follows

lemma Following.redrawn {i : Fin 2} {k : Console} (h : Following i k) : Redrawn k := by
  intro r hr hd
  obtain ⟨ht,hf⟩ := h.live r hr hd
  rw [ht]
  exact ⟨h.opened,hf⟩

lemma Following.step {i : Fin 2} {k k' : Console} {ops : Section} {position : Position}
    (h : Following i k) (hops : Shell.StaysLive ops)
    (hstep : k.withWriter (some i) ops = some (k',position)) : Following i k' := by
  obtain ⟨w,hw,rfl⟩ := withWriter_cases hstep
  have hactive := h.active
  subst hactive
  refine ⟨rfl,h.opened,fun r hr hd => ?_⟩
  simp only [Console.setTerminal,Function.update_self]
  rcases List.mem_append.mp hr with hr | hr
  · obtain ⟨ht,hf⟩ := h.live r hr hd
    exact ⟨ht,Writer.follows_applyAll hops (.inl hf) hw⟩
  · rw [List.mem_singleton.mp hr] at hd ⊢
    exact ⟨rfl,Writer.follows_applyAll hops (.inr hd) hw⟩

/-- A shell function of an open, active terminal that stays live or does not redraw. -/
lemma redrawn_onBehalf {α : Type} {i : Fin 2} {p : ShellProgram α} {k k' : Console} {a : α}
    (hp : p.Makes Shell.StaysLive ∨ p.Makes (fun ops => ¬Writer.Redraws ops))
    (hactive : k.activeTerminal = i) (hopen : k.desktop.isOpen i) (hk : k.trace = [])
    (hrun : (onBehalf i p).run Console.handler k = some (k',a)) : Redrawn k' := by
  rcases hp with hp | hp
  · have hcalls : (onBehalf i p).Makes (LiveSection i) := hp.mapCalls fun ops hops => ⟨ops,rfl,hops⟩
    refine (hcalls.run (I := Following i) ?_ ⟨hactive,hopen,by simp [hk]⟩ hrun).redrawn
    rintro c k k' position ⟨ops,rfl,hops⟩ hi hstep
    exact hi.step hops hstep
  · have hcalls : (onBehalf i p).Makes Plain := hp.mapCalls fun _ hops => hops
    exact redrawn_of_plain hcalls hk hrun

variable {k k' : Console} {shells shells' : Shells}

/-- The part `handle_key` and `input_lost` have in common. -/
lemma redrawn_focused {i : Fin 2} {p : ShellProgram Shell}
    (hp : p.Makes Shell.StaysLive ∨ p.Makes (fun ops => ¬Writer.Redraws ops))
    (hopen : k.desktop.isOpen i) (hk : k.trace = [])
    (hrun : ((performAll [.setActiveTerminal i] : ConsoleProgram Unit).bind fun _ =>
      (onBehalf i p).bind fun s => .ret (Function.update shells i (some s))).run Console.handler k =
        some (k',shells')) : Redrawn k' := by
  change ((onBehalf i p).bind _).run Console.handler { k with activeTerminal := i } = _ at hrun
  rw [run_bind] at hrun
  obtain ⟨⟨k₁,s⟩,hfirst,hrest⟩ := Option.bind_eq_some_iff.mp hrun
  cases hrest
  exact redrawn_onBehalf (k := { k with activeTerminal := i }) hp rfl hopen hk hfirst

/-- The shells of open terminals are sound. -/
def SoundShells (k : Console) (shells : Shells) : Prop :=
  ∀ i, k.desktop.isOpen i → ∃ s, shells i = some s ∧ s.Sound

lemma handleLoss_redrawn (h : SoundShells k shells) (hk : k.trace = [])
    (hrun : (handleLoss shells).run Console.handler k = some (k',shells')) : Redrawn k' := by
  change (if k.desktop.isOpen k.desktop.active = true then _ else _ : ConsoleProgram Shells).run
    Console.handler k = _ at hrun
  split_ifs at hrun with hopen
  · obtain ⟨s,hs,-⟩ := h _ hopen
    rw [hs] at hrun
    exact redrawn_focused (.inl s.inputLost_makes) hopen hk hrun
  · exact redrawn_of_plain (p := .ret shells) trivial hk hrun

lemma handleFocused_redrawn (h : SoundShells k shells) (hk : k.trace = []) (env : Environment)
    (key : DecodedKey)
    (hrun : (handleFocused env shells key).run Console.handler k = some (k',shells')) :
    Redrawn k' := by
  change (if k.desktop.isOpen k.desktop.active = true then _ else _ : ConsoleProgram Shells).run
    Console.handler k = _ at hrun
  split_ifs at hrun with hopen
  · obtain ⟨s,hs,hsound⟩ := h _ hopen
    rw [hs] at hrun
    exact redrawn_focused (Shell.handleKey_makes hsound env key) hopen hk hrun
  · exact redrawn_of_plain (p := .ret shells) trivial hk hrun

/-- After any event, what was redrawn is open and live. -/
theorem handleEvent_redrawn (h : SoundShells k shells) (hk : k.trace = []) (info : SystemInfo)
    (env : Environment) (key : Option DecodedKey) (event : InputEvent)
    (hrun : (handleEvent info env shells key event).run Console.handler k = some (k',shells')) :
    Redrawn k' := by
  have dispatch : ∀ key, (dispatchKey info env shells key).run Console.handler k =
      some (k',shells') → Redrawn k' := by
    intro key hrun
    unfold dispatchKey at hrun
    split_ifs at hrun
    · exact redrawn_of_plain (closeFocused_plain shells) hk hrun
    · exact redrawn_of_plain (openShell_plain info env shells) hk hrun
    · exact handleFocused_redrawn h hk env key hrun
  cases event with
  | openTerminal => exact dispatch _ hrun
  | closeTerminal index =>
    exact redrawn_of_plain (Makes.bind (closeTerminal_plain index) fun _ =>
      resizeOpenShells_plain shells none) hk hrun
  | scancode code =>
    cases key with
    | none => exact redrawn_of_plain (p := .ret shells) trivial hk hrun
    | some key => exact dispatch key hrun

/-! ### The session invariant -/

namespace Session
variable {D : Decoder}

/-- What holds at every wait. -/
structure Orderly (x : Session D) : Prop where
  active : ∀ i, x.console.desktop.isOpen i →
    x.console.desktop.isOpen x.console.desktop.active ∧
      x.console.desktop.isOpen x.console.activeTerminal
  shell : ∀ i, x.console.desktop.isOpen i → ∃ s, x.shells i = some s ∧
    (x.console.terminals i).firstLine ≤ s.anchor.line ∧
      s.anchor.line ≤ (x.console.terminals i).lastLine
  width : ∀ i, x.console.desktop.isOpen i → ∃ rect, x.console.desktop.layout i = some rect ∧
    ((x.console.terminals i).columns : ℤ) = rect.width-2 ∧
      (x.console.terminals i).cursor.column ≤ (x.console.terminals i).columns
  view : ∀ r ∈ x.console.trace, Writer.Redraws r.ops → InView (x.console.terminals r.target)

/-- The invariant behind it. -/
structure Calm (x : Session D) (v : View) : Prop where
  looks : x.console.InStep v
  settled : Settled v x.shells
  redrawn : Redrawn x.console

variable {x : Session D} {v : View}

lemma Calm.sound (h : x.Calm v) : SoundShells x.console x.shells := by
  intro i hi
  rw [h.looks.1.opens] at hi
  obtain ⟨s,hs,hprompt⟩ := h.settled.prompting i hi
  exact ⟨s,hs,hprompt.1⟩

/-- The terminal of an open window mirrors a terminal that displays the line of its shell. -/
lemma Calm.displays (h : x.Calm v) {i : Fin 2} (hi : x.console.desktop.isOpen i) :
    ∃ s t, x.shells i = some s ∧ Writer.Mirrors (x.console.terminals i) t ∧
      Displays t s.anchor s.line.content s.line.cursor := by
  rw [h.looks.1.opens] at hi
  obtain ⟨s,hs,hprompt⟩ := h.settled.prompting i hi
  have hshows := h.looks.1.screens i
  cases hscreen : v.screens i with
  | stale => rw [hscreen] at hprompt; exact hprompt.2.elim
  | live t =>
    rw [hscreen] at hprompt hshows
    exact ⟨s,t,hs,hshows,hprompt.2⟩

lemma inView_of_displays {w : Writer} {t : Terminal} {anchor : Position} {text : List UInt8}
    {cursor : ℕ} (hm : w.Mirrors t) (hd : Displays t anchor text cursor) (hf : w.Follows) :
    InView w := by
  have hnear := hd.near
  have hline := Position.line_le_offset anchor cursor hd.pos
  rw [← hd.cursor_eq,hm.cursor] at hline
  rw [hm.last] at hnear
  have hhigh := hm.line_high
  have hview : w.viewTop = w.lastLine-15 := hf
  refine ⟨hf,by omega,?_⟩
  rw [hview,terminalRows]
  omega

lemma layout_of_open {d : Desktop} {i : Fin 2} (h : d.isOpen i) :
    ∃ rect, d.layout i = some rect ∧ rect.width = openWidth d.isOpen := by
  have hwidth := Console.layout_width d i
  rw [if_pos h] at hwidth
  obtain ⟨rect,hrect,he⟩ := Option.map_eq_some_iff.mp hwidth
  exact ⟨rect,hrect,he⟩

lemma Calm.orderly (h : x.Calm v) : x.Orderly := by
  refine ⟨fun i hi => ?_,fun i hi => ?_,fun i hi => ?_,fun r hr hd => ?_⟩
  · refine ⟨h.looks.1.desktop.focus i hi,?_⟩
    rw [h.looks.1.opens] at hi ⊢
    rw [h.looks.2]
    exact h.settled.focused i hi
  · obtain ⟨s,t,hs,hm,hd⟩ := h.displays hi
    have hnear := hd.near
    have hline := hd.line
    have hfirst := hm.first
    rw [hm.last] at hnear hline
    simp only [scrollbackLines] at hfirst
    exact ⟨s,hs,by omega,hline⟩
  · obtain ⟨s,t,hs,hm,hd⟩ := h.displays hi
    obtain ⟨rect,hrect,hwidth⟩ := layout_of_open hi
    refine ⟨rect,hrect,?_,hm.column⟩
    rw [hwidth,(h.looks.1.screens i).columns,h.settled.fitted i (by rw [← h.looks.1.opens]; exact hi),
      h.looks.1.opens]
    unfold openColumns openWidth
    split_ifs <;> rfl
  · obtain ⟨ho,hf⟩ := h.redrawn r hr hd
    obtain ⟨s,t,hs,hm,hd⟩ := h.displays ho
    exact inView_of_displays hm hd hf

lemma calm_perform {p : ConsoleProgram Shells} {k : Console} {keyboard : D.State}
    (hk : k.InStep v) (hp : p.Spec consoleRules Settled v)
    (hd : ∀ k' shells', p.run Console.handler { k with trace := [] } = some (k',shells') →
      Redrawn k') :
    ∃ (x : Session D) (v' : View), perform keyboard p k = some x ∧ x.Calm v' := by
  have hk' : Console.InStep { k with trace := [] } v := ⟨⟨hk.1.desktop,hk.1.opens,hk.1.screens⟩,hk.2⟩
  obtain ⟨k₁,shells',v',hrun,hstep,hset⟩ := hk'.run hp
  exact ⟨⟨k₁,keyboard,shells'⟩,v',by rw [perform,hrun]; rfl,hstep,hset,hd k₁ shells' hrun⟩

lemma calm_start : ∃ (x : Session D) (v : View), start = some x ∧ x.Calm v :=
  calm_perform inStep_initial spec_startShells fun _ _ hrun =>
    redrawn_of_plain startShells_plain rfl hrun

lemma Calm.mouse (h : x.Calm v) (byte : UInt8) :
    ∃ k r v', x.console.mouseByte byte = some (k,r) ∧ Calm { x with console := k } v' := by
  obtain ⟨k,r,hk,hlooks,hterm,htrace,hactive⟩ := h.looks.1.mouseByte byte
  refine ⟨k,r,{ v with focus := k.activeTerminal },hk,
    ⟨⟨hlooks.desktop,hlooks.opens,hlooks.screens⟩,rfl⟩,h.settled.focus fun i hi => ?_,?_⟩
  · rw [hactive]
    split_ifs
    · rw [← hlooks.opens] at hi ⊢
      exact hlooks.desktop.focus i hi
    · rw [h.looks.2]
      exact h.settled.focused i hi
  · intro r hr hd
    dsimp only at hr ⊢
    rw [htrace] at hr
    rw [hterm,hlooks.opens,← h.looks.1.opens]
    exact h.redrawn r hr hd

theorem Calm.step (h : x.Calm v) (info : SystemInfo) (input : SessionInput) :
    ∃ x' v', x.step info input = some x' ∧ x'.Calm v' := by
  cases input with
  | event env event =>
    exact calm_perform h.looks (spec_handleEvent h.settled info env _ event) fun k' shells' hrun =>
      handleEvent_redrawn (k := { x.console with trace := [] }) h.sound rfl info env _ event hrun
  | inputLost =>
    exact calm_perform h.looks ((spec_handleLoss h.settled).mono fun _ _ hs => hs.1)
      fun k' shells' hrun => handleLoss_redrawn (k := { x.console with trace := [] }) h.sound rfl hrun
  | mouse byte =>
    obtain ⟨k,r,v',hk,hc⟩ := h.mouse byte
    exact ⟨_,v',by rw [Session.step,hk]; rfl,hc⟩

lemma run_eq (info : SystemInfo) :
    (run info : List SessionInput → Session D → _) = Runs.run fun x input => x.step info input :=
  Runs.eq_run (fun _ => rfl) fun _ _ _ => rfl

theorem Calm.run (h : x.Calm v) (info : SystemInfo) (inputs : List SessionInput) :
    ∃ x' v', Session.run info inputs x = some x' ∧ x'.Calm v' := by
  have hstep : ∀ (y : Session D) input, (∃ u, y.Calm u) →
      ∃ y', y.step info input = some y' ∧ ∃ u, y'.Calm u := by
    intro y input ⟨u,hu⟩
    obtain ⟨y',u',hy',hc⟩ := hu.step info input
    exact ⟨y',hy',u',hc⟩
  obtain ⟨x',hx',v',hc⟩ := Runs.run_total hstep ⟨v,h⟩ inputs
  exact ⟨x',v',by rw [run_eq]; exact hx',hc⟩

end Session

/-- Whatever events are handled, lost or caused by the mouse at waits, no call aborts and every
wait finds the windows, the shells and their terminals in order. -/
theorem session_orderly (D : Decoder) (info : SystemInfo) (inputs : List SessionInput) :
    ∃ x : Session D, Session.start.bind (Session.run info inputs) = some x ∧ x.Orderly := by
  obtain ⟨x,v,hx,hc⟩ := Session.calm_start (D := D)
  obtain ⟨x',v',hx',hc'⟩ := hc.run info inputs
  exact ⟨x',by rw [hx]; exact hx',hc'.orderly⟩

end CrabOs
