import CrabOs.Desktop.Console

/-! What each console call does, as far as it cannot be changed by the mouse, and the effect of
handling one event in these terms. -/
namespace CrabOs
open Vga Crabsh AtomicProgram

/-- The part of the console the mouse leaves alone: which windows are open, what the terminals
show, and the terminal that was last made active by a call. -/
structure View where
  opens : Fin 2 → Bool
  screens : Fin 2 → Screen
  focus : Fin 2

namespace View

def setScreen (v : View) (index : Fin 2) (screen : Screen) : View :=
  { v with screens := Function.update v.screens index screen }

@[simp] lemma setScreen_opens (v : View) (i : Fin 2) (screen : Screen) :
    (v.setScreen i screen).opens = v.opens := rfl
@[simp] lemma setScreen_focus (v : View) (i : Fin 2) (screen : Screen) :
    (v.setScreen i screen).focus = v.focus := rfl
@[simp] lemma setScreen_same (v : View) (i : Fin 2) (screen : Screen) :
    (v.setScreen i screen).screens i = screen := Function.update_self ..
lemma setScreen_ne (v : View) {i j : Fin 2} (h : j ≠ i) (screen : Screen) :
    (v.setScreen i screen).screens j = v.screens j := Function.update_of_ne h ..

end View

/-- The width of the windows that are open. -/
def openWidth (opens : Fin 2 → Bool) : ℤ := if opens 0 && opens 1 then 38 else 74

/-- The columns of the terminals in these windows. -/
def openColumns (opens : Fin 2 → Bool) : ℕ := if opens 0 && opens 1 then 36 else 72

def consoleRules : Guarded ConsoleCall ConsoleCall.Answer View where
  guard
    | .setTerminalColumns _ columns,_ => 0 < columns ∧ columns ≤ bufferWidth
    | .withWriter (some index) ops,v => v.focus = index ∧ (v.screens index).guard ops
    | .withWriter none ops,_ => ops = []
    | _,_ => True
  outcome
    | .activeTerminal,v,v',active => v' = v ∧ ∀ i, v.opens i → v.opens active
    | .isOpen index,v,v',opened => v' = v ∧ opened = v.opens index
    | .closeWindow index,v,v',_ =>
      v' = { v with opens := Function.update v.opens (terminalIndex index) false }
    | .openWindow,v,v',opened => opened = Desktop.firstClosed v.opens ∧
      v' = { v with opens := opened.elim v.opens fun index => Function.update v.opens index true }
    | .windows,v,v',rects => v' = v ∧
      ∀ i, (rects i).map Rect.width = if v.opens i then some (openWidth v.opens) else none
    | .setTerminalColumns index columns,v,v',_ =>
      v' = v.setScreen index ((v.screens index).resize columns)
    | .setActiveTerminal index,v,v',_ => v' = { v with focus := index }
    | .withWriter (some index) ops,v,v',position =>
      v' = v.setScreen index ((v.screens index).apply ops) ∧
        position = ((v.screens index).apply ops).cursor
    | .withWriter none _,v,v',_ => v' = v

/-! ### The rules are those of the console -/

/-- The console looks as the view says. -/
structure Console.Looks (k : Console) (v : View) : Prop where
  desktop : k.desktop.Sound
  opens : k.desktop.isOpen = v.opens
  screens : ∀ i, (v.screens i).Shows (k.terminals i)

/-- The terminal a call makes active. -/
def ConsoleCall.focusAfter : ConsoleCall → Fin 2 → Fin 2
  | .setActiveTerminal index,_ => index
  | _,focus => focus

/-- A section made for a shell went to the terminal of that shell. -/
def SectionRecord.Faithful (r : SectionRecord) : Prop := ∀ index, r.owner = some index → r.target = index

namespace Console
variable {k : Console} {v : View}

lemma Looks.setTerminal (h : k.Looks v) (index : Fin 2) {w : Writer} {screen : Screen}
    (hw : screen.Shows w) : (k.setTerminal index w).Looks (v.setScreen index screen) := by
  refine ⟨h.desktop,h.opens,fun i => ?_⟩
  by_cases hi : i = index
  · subst hi
    rw [View.setScreen_same]
    simpa [Console.setTerminal] using hw
  · rw [View.setScreen_ne _ hi]
    simpa [Console.setTerminal,Function.update_of_ne hi] using h.screens i

lemma layout_width (d : Desktop) (i : Fin 2) :
    (d.layout i).map Rect.width = if d.isOpen i then some (openWidth d.isOpen) else none := by
  unfold Desktop.layout Desktop.openCount openWidth
  cases h0 : d.isOpen 0 <;> cases h1 : d.isOpen 1 <;> fin_cases i <;> simp [h0,h1,Desktop.windowW]

/-- A legal call succeeds as its rule says, if a section made for a shell finds the terminal of
that shell active. -/
theorem Looks.call (h : k.Looks v) {c : ConsoleCall} (hg : consoleRules.guard c v)
    (hactive : ∀ index ops, c = .withWriter (some index) ops → k.activeTerminal = index) :
    ∃ k' r v', handler c k = some (k',r) ∧ consoleRules.outcome c v v' r ∧ k'.Looks v' ∧
      k'.activeTerminal = c.focusAfter k.activeTerminal ∧ v'.focus = c.focusAfter v.focus ∧
      ((∀ r ∈ k.trace, r.Faithful) → ∀ r ∈ k'.trace, r.Faithful) := by
  have hopens := h.opens
  cases c with
  | activeTerminal =>
    refine ⟨k,_,v,rfl,⟨rfl,fun i hi => ?_⟩,h,rfl,rfl,id⟩
    rw [← hopens] at hi ⊢
    exact h.desktop.focus i hi
  | isOpen index => exact ⟨k,_,v,rfl,⟨rfl,by rw [← hopens]⟩,h,rfl,rfl,id⟩
  | closeWindow index =>
    refine ⟨_,_,_,rfl,rfl,⟨h.desktop.closeWindow index,?_,h.screens⟩,rfl,rfl,id⟩
    rw [← hopens]
    rfl
  | openWindow =>
    have hfirst : k.desktop.openWindow.2 = Desktop.firstClosed v.opens := by
      rw [Desktop.openWindow_snd,hopens]
    refine ⟨_,_,_,rfl,⟨hfirst,rfl⟩,⟨h.desktop.openWindow,?_,h.screens⟩,rfl,rfl,id⟩
    dsimp only
    rw [hfirst,Desktop.openWindow_isOpen,hopens]
  | windows => exact ⟨k,_,v,rfl,⟨rfl,fun i => by rw [← hopens]; exact layout_width _ i⟩,h,rfl,rfl,id⟩
  | setTerminalColumns index columns =>
    obtain ⟨w,hw,hs⟩ := (h.screens index).resize hg.1 hg.2
    refine ⟨k.setTerminal index w,(),_,?_,rfl,h.setTerminal index hs,rfl,rfl,id⟩
    rw [handler,hw]
    rfl
  | setActiveTerminal index =>
    exact ⟨_,_,_,rfl,rfl,⟨h.desktop,h.opens,h.screens⟩,rfl,rfl,id⟩
  | withWriter owner ops =>
    cases owner with
    | none =>
      obtain rfl : ops = [] := hg
      refine ⟨{ k with trace := k.trace++[⟨none,k.activeTerminal,[]⟩] },
        (k.terminals k.activeTerminal).position,v,?_,rfl,⟨h.desktop,h.opens,h.screens⟩,rfl,rfl,?_⟩
      · simp only [handler,Console.withWriter,writerHandler,Writer.applyAll,Console.setTerminal,
          Option.map_some,Function.update_eq_self]
        rfl
      · intro ht r hr
        rcases List.mem_append.mp hr with hr | hr
        · exact ht r hr
        · rw [List.mem_singleton.mp hr]
          exact fun index hi => by cases hi
    | some index =>
      have hk := hactive index ops rfl
      obtain ⟨w,hw,hs⟩ := (h.screens index).apply hg.2
      have hl := h.setTerminal index hs
      refine ⟨{ k.setTerminal index w with trace := k.trace++[⟨some index,index,ops⟩] },_,_,?_,
        ⟨rfl,rfl⟩,⟨hl.desktop,hl.opens,hl.screens⟩,rfl,rfl,?_⟩
      · rw [handler,Console.withWriter,hk,hw]
        rfl
      · intro ht r hr
        rcases List.mem_append.mp hr with hr | hr
        · exact ht r hr
        · rw [List.mem_singleton.mp hr]
          intro i hi
          cases hi
          rfl

/-- A byte from the mouse changes at most which terminal is active. -/
theorem Looks.mouseByte (h : k.Looks v) (byte : UInt8) :
    ∃ k' r, k.mouseByte byte = some (k',r) ∧ k'.Looks v ∧ k'.terminals = k.terminals ∧
      k'.trace = k.trace ∧
      k'.activeTerminal = if r.completed then k'.desktop.active else k.activeTerminal := by
  obtain ⟨result,hresult,hsound,hopen,-⟩ := h.desktop.mouseByte byte
  refine ⟨{ k with
    desktop := result.desktop
    activeTerminal := if result.completed then result.desktop.active else k.activeTerminal },result,
      ?_,⟨hsound,hopen.trans h.opens,h.screens⟩,rfl,rfl,rfl⟩
  rw [Console.mouseByte,hresult,Option.map_some]

/-- The console looks as the view says, and the terminal last chosen is still active. -/
def InStep (k : Console) (v : View) : Prop := k.Looks v ∧ k.activeTerminal = v.focus

lemma InStep.call (h : k.InStep v) {c : ConsoleCall} (hg : consoleRules.guard c v) :
    ∃ k' r v', handler c k = some (k',r) ∧ consoleRules.outcome c v v' r ∧ k'.InStep v' := by
  obtain ⟨k',r,v',hk',ho,hl',ha,hv,-⟩ := h.1.call hg fun index ops hc => by
    subst hc
    rw [h.2]
    exact hg.1
  exact ⟨k',r,v',hk',ho,hl',by rw [ha,hv,h.2]⟩

/-- Without interference a specified program runs as its specification says. -/
theorem InStep.run {α : Type} {p : ConsoleProgram α} {P : View → α → Prop} (h : k.InStep v)
    (hp : p.Spec consoleRules P v) :
    ∃ k' a v', p.run handler k = some (k',a) ∧ k'.InStep v' ∧ P v' a :=
  hp.run (fun _ _ _ hk hg => InStep.call hk hg) h

end Console

/-! ### Handling an event -/

/-- The anchor of a shell is a position of its terminal. -/
structure Anchored (screen : Screen) (s : Shell) : Prop where
  low : screen.first ≤ s.anchor.line
  high : s.anchor.line ≤ screen.last
  column : s.anchor.column = promptWidth

lemma anchored_of_atPrompt {screen : Screen} {s : Shell} (h : AtPrompt screen s) :
    Anchored screen s := by
  cases screen with
  | stale => exact h.2.elim
  | live t =>
    have hd : Displays t s.anchor s.line.content s.line.cursor := h.2
    have hnear := hd.near
    refine ⟨?_,hd.line,hd.column⟩
    change t.lastLine-(scrollbackLines-1) ≤ s.anchor.line
    simp only [scrollbackLines]
    omega

/-- All shells are sound and anchored, and no terminal is narrow. -/
structure Kept (v : View) (shells : Shells) : Prop where
  shell : ∀ i s, shells i = some s → s.Sound ∧ Anchored (v.screens i) s
  wide : ∀ i, 36 ≤ (v.screens i).columns

/-- The terminals of open windows have the width of their windows. -/
def Fitted (v : View) : Prop := ∀ i, v.opens i → (v.screens i).columns = openColumns v.opens

/-- An open terminal has a shell that waits at its prompt. -/
def Prompting (v : View) (shells : Shells) (i : Fin 2) : Prop :=
  v.opens i → ∃ s, shells i = some s ∧ AtPrompt (v.screens i) s

/-- The state between two events. -/
structure Settled (v : View) (shells : Shells) : Prop extends Kept v shells where
  focused : ∀ i, v.opens i → v.opens v.focus
  fitted : Fitted v
  prompting : ∀ i, Prompting v shells i

variable {v : View} {shells : Shells}

lemma Kept.resize (h : Kept v shells) (i : Fin 2) {n : ℕ} (hn : 36 ≤ n) :
    Kept (v.setScreen i ((v.screens i).resize n)) shells := by
  refine ⟨fun j s hs => ?_,fun j => ?_⟩
  · obtain ⟨hsound,ha⟩ := h.shell j s hs
    by_cases hj : j = i
    · subst hj
      rw [View.setScreen_same]
      exact ⟨hsound,ha.low,ha.high,ha.column⟩
    · rw [View.setScreen_ne _ hj]
      exact ⟨hsound,ha⟩
  · by_cases hj : j = i
    · subst hj
      rw [View.setScreen_same]
      exact hn
    · rw [View.setScreen_ne _ hj]
      exact h.wide j

/-- A shell function moves the screen of its own terminal and nothing else. -/
theorem spec_onBehalf {α β : Type} {i : Fin 2} {p : ShellProgram α} {Q : Screen → α → Prop}
    {next : α → ConsoleProgram β} {P : View → β → Prop}
    (h : p.Spec Screen.sections Q (v.screens i)) (hf : v.focus = i)
    (hn : ∀ screen a, Q screen a → screen.columns = (v.screens i).columns →
      (next a).Spec consoleRules P (v.setScreen i screen)) :
    ((onBehalf i p).bind next).Spec consoleRules P v := by
  induction p generalizing v with
  | ret a =>
    have hv : v.setScreen i (v.screens i) = v := by
      simp [View.setScreen,Function.update_eq_self]
    have := hn (v.screens i) a h rfl
    rwa [hv] at this
  | fail => exact h.elim
  | call ops rest ih =>
    refine ⟨⟨hf,h.1⟩,?_⟩
    rintro v' position ⟨rfl,rfl⟩
    have hspec := h.2 _ _ ⟨rfl,rfl⟩
    refine ih _ (by rw [View.setScreen_same]; exact hspec) hf ?_
    intro screen a hq hcols
    rw [View.setScreen_same] at hcols
    have hset : (v.setScreen i ((v.screens i).apply ops)).setScreen i screen = v.setScreen i screen := by
      simp [View.setScreen,Function.update_idem]
    rw [hset]
    exact hn screen a hq (hcols.trans (Screen.apply_columns ops _))

lemma spec_focus {α : Type} {i : Fin 2} {next : Unit → ConsoleProgram α} {P : View → α → Prop}
    (hn : (next ()).Spec consoleRules P { v with focus := i }) :
    ((performAll [.setActiveTerminal i]).bind next).Spec consoleRules P v :=
  ⟨trivial,by rintro v' r rfl; exact hn⟩

lemma spec_refresh {α : Type} {next : Unit → ConsoleProgram α} {P : View → α → Prop}
    (hn : (next ()).Spec consoleRules P v) : (refresh.bind next).Spec consoleRules P v :=
  ⟨rfl,by rintro v' r rfl; exact hn⟩

/-- Reading the focus and making it active again. -/
lemma spec_focusActive {α : Type} {next : Unit → ConsoleProgram α} {P : View → α → Prop}
    (hn : ∀ focus, (∀ i, v.opens i → v.opens focus) →
      (next ()).Spec consoleRules P { v with focus := focus }) :
    (focusActive.bind next).Spec consoleRules P v := by
  refine ⟨trivial,?_⟩
  rintro v' active ⟨rfl,hopen⟩
  refine ⟨trivial,?_⟩
  rintro v'' r rfl
  exact hn active hopen

lemma Kept.focus (h : Kept v shells) (focus : Fin 2) : Kept { v with focus := focus } shells :=
  ⟨h.shell,h.wide⟩

lemma Settled.focus (h : Settled v shells) {focus : Fin 2}
    (hopen : ∀ i, v.opens i → v.opens focus) : Settled { v with focus := focus } shells :=
  ⟨h.toKept.focus focus,hopen,h.fitted,h.prompting⟩

variable (shells) in
/-- The widths of both terminals follow the windows that are open. -/
lemma spec_syncTerminalWidths {α : Type} {next : Unit → ConsoleProgram α} {P : View → α → Prop}
    (h : Kept v shells)
    (hn : ∀ v', v'.opens = v.opens → Kept v' shells → Fitted v' → (next ()).Spec consoleRules P v') :
    (syncTerminalWidths.bind next).Spec consoleRules P v := by
  refine ⟨trivial,?_⟩
  rintro v' rects ⟨rfl,hrects⟩
  have hcols : ∀ i, terminalColumns (rects i) = if v'.opens i then openColumns v'.opens else 76 := by
    intro i
    have hr := hrects i
    unfold terminalColumns openColumns
    unfold openWidth at hr
    cases hri : rects i with
    | none =>
      rw [hri] at hr
      split_ifs at hr ⊢ <;> simp_all
    | some r =>
      rw [hri] at hr
      split_ifs at hr ⊢ <;> simp_all
  have hbounds : ∀ i, 36 ≤ terminalColumns (rects i) ∧ terminalColumns (rects i) ≤ bufferWidth := by
    intro i
    rw [hcols]
    unfold openColumns bufferWidth
    split_ifs <;> omega
  have hpos : ∀ i, 0 < terminalColumns (rects i) := fun i => by have := (hbounds i).1; omega
  refine ⟨⟨hpos 0,(hbounds 0).2⟩,?_⟩
  rintro v₁ _ rfl
  refine ⟨⟨hpos 1,(hbounds 1).2⟩,?_⟩
  rintro v₂ _ rfl
  refine hn _ rfl ((h.resize 0 (hbounds 0).1).resize 1 (hbounds 1).1) ?_
  intro i hi
  change v'.opens i = true at hi
  have hscreen : ∀ i, ((((v'.setScreen 0 ((v'.screens 0).resize (terminalColumns (rects 0)))).setScreen
      1 (((v'.setScreen 0 ((v'.screens 0).resize (terminalColumns (rects 0)))).screens 1).resize
        (terminalColumns (rects 1)))).screens i)).columns = terminalColumns (rects i) := by
    intro i
    fin_cases i <;> rfl
  rw [hscreen,hcols,if_pos hi]
  rfl

/-- What one shell function of terminal `i` leaves of a view. -/
lemma Kept.setScreen (h : Kept v shells) {i : Fin 2} {screen : Screen} {s : Shell}
    (hs : AtPrompt screen s) (hcols : screen.columns = (v.screens i).columns) :
    Kept (v.setScreen i screen) (Function.update shells i (some s)) := by
  refine ⟨fun j s' hs' => ?_,fun j => ?_⟩
  · by_cases hj : j = i
    · subst hj
      rw [Function.update_self] at hs'
      cases hs'
      rw [View.setScreen_same]
      exact ⟨hs.1,anchored_of_atPrompt hs⟩
    · rw [Function.update_of_ne hj] at hs'
      rw [View.setScreen_ne _ hj]
      exact h.shell j s' hs'
  · by_cases hj : j = i
    · subst hj
      rw [View.setScreen_same,hcols]
      exact h.wide j
    · rw [View.setScreen_ne _ hj]
      exact h.wide j

lemma Fitted.setScreen (h : Fitted v) {i : Fin 2} {screen : Screen}
    (hcols : screen.columns = (v.screens i).columns) : Fitted (v.setScreen i screen) := by
  intro j hj
  by_cases he : j = i
  · subst he
    rw [View.setScreen_same,hcols]
    exact h j hj
  · rw [View.setScreen_ne _ he]
    exact h j hj

lemma prompting_setScreen {i : Fin 2} {screen : Screen} {s : Shell} (hs : AtPrompt screen s) :
    Prompting (v.setScreen i screen) (Function.update shells i (some s)) i :=
  fun _ => ⟨s,by rw [Function.update_self],by rw [View.setScreen_same]; exact hs⟩

lemma Prompting.setScreen {i j : Fin 2} (h : Prompting v shells j) (hj : j ≠ i) {screen : Screen}
    {s : Shell} : Prompting (v.setScreen i screen) (Function.update shells i (some s)) j := by
  intro hopen
  rw [Function.update_of_ne hj,View.setScreen_ne _ hj]
  exact h hopen

lemma Settled.setScreen (h : Settled v shells) {i : Fin 2} {screen : Screen} {s : Shell}
    (hs : AtPrompt screen s) (hcols : screen.columns = (v.screens i).columns) :
    Settled (v.setScreen i screen) (Function.update shells i (some s)) := by
  refine ⟨h.toKept.setScreen hs hcols,h.focused,h.fitted.setScreen hcols,fun j => ?_⟩
  by_cases hj : j = i
  · subst hj
    exact prompting_setScreen hs
  · exact (h.prompting j).setScreen hj

/-- One shell is reset, unless its window is closed or it is fresh. -/
lemma spec_resizeShell {α : Type} {next : Shells → ConsoleProgram α} {P : View → α → Prop}
    {fresh : Option (Fin 2)} {i : Fin 2} (h : Kept v shells) (hfit : Fitted v)
    (hshell : v.opens i → (shells i).isSome) (hfresh : fresh = some i → Prompting v shells i)
    (hn : ∀ v' shells', v'.opens = v.opens → Kept v' shells' → Fitted v' → Prompting v' shells' i →
      (∀ j ≠ i, shells' j = shells j ∧ (Prompting v shells j → Prompting v' shells' j)) →
      (next shells').Spec consoleRules P v') :
    ((resizeShell fresh shells i).bind next).Spec consoleRules P v := by
  refine ⟨trivial,?_⟩
  rintro v' opened ⟨rfl,rfl⟩
  change ((if v'.opens i = true ∧ fresh ≠ some i then _ else _ : ConsoleProgram Shells).bind
    next).Spec consoleRules P v'
  split_ifs with hreset
  · obtain ⟨s,hs⟩ := Option.isSome_iff_exists.mp (hshell hreset.1)
    simp only [hs,bind_eq]
    rw [spec_bind]
    refine spec_focus (spec_onBehalf (v := { v' with focus := i })
      (spec_resetForResize (h.shell i s hs).1 (h.wide i)) rfl ?_)
    intro screen s' hprompt hcols
    have hk := (h.focus i).setScreen (i := i) hprompt hcols
    have hf : Fitted ({ v' with focus := i }.setScreen i screen) :=
      Fitted.setScreen (v := { v' with focus := i }) hfit hcols
    refine hn _ _ rfl hk hf (prompting_setScreen hprompt) fun j hj => ⟨Function.update_of_ne hj ..,?_⟩
    exact fun hp => Prompting.setScreen (v := { v' with focus := i }) hp hj
  · refine hn v' shells rfl h hfit ?_ fun j _ => ⟨rfl,id⟩
    rcases not_and_or.mp hreset with hclosed | hsame
    · exact fun hopen => absurd hopen hclosed
    · exact hfresh (not_not.mp hsame)

/-- After a resize every open terminal waits at a prompt of its width. -/
theorem spec_resizeOpenShells {fresh : Option (Fin 2)} (h : Kept v shells) (hfit : Fitted v)
    (hshell : ∀ i, v.opens i → (shells i).isSome)
    (hfresh : ∀ i, fresh = some i → Prompting v shells i) :
    (resizeOpenShells shells fresh).Spec consoleRules
      (fun v' shells' => Settled v' shells' ∧ v'.opens = v.opens) v := by
  refine spec_resizeShell h hfit (hshell 0) (hfresh 0) ?_
  intro v₁ shells₁ ho₁ hk₁ hf₁ hp₁ hframe₁
  obtain ⟨hsame,hkeep⟩ := hframe₁ 1 (by decide)
  refine spec_resizeShell hk₁ hf₁ (by rw [ho₁,hsame]; exact hshell 1)
    (fun he => hkeep (hfresh 1 he)) ?_
  intro v₂ shells₂ ho₂ hk₂ hf₂ hp₂ hframe₂
  obtain ⟨-,hkeep₂⟩ := hframe₂ 0 (by decide)
  refine spec_focusActive fun focus hopen => ?_
  refine ⟨⟨hk₂.focus focus,hopen,hf₂,?_⟩,ho₂.trans ho₁⟩
  intro i
  fin_cases i
  · exact hkeep₂ hp₁
  · exact hp₂

/-- Closing a window refits the terminals that are left. -/
lemma spec_closeTerminal {α : Type} {next : Unit → ConsoleProgram α} {P : View → α → Prop}
    {index : ℕ} (h : Kept v shells)
    (hn : ∀ v', v'.opens = Function.update v.opens (terminalIndex index) false → Kept v' shells →
      Fitted v' → (next ()).Spec consoleRules P v') :
    ((closeTerminal index).bind next).Spec consoleRules P v := by
  rw [spec_bind]
  refine ⟨trivial,?_⟩
  rintro v' _ rfl
  refine spec_syncTerminalWidths shells ⟨h.shell,h.wide⟩ ?_
  intro v₁ ho hk hf
  refine spec_focusActive fun focus _ => ?_
  exact ⟨rfl,by rintro v₂ _ rfl; exact hn _ ho (hk.focus focus) hf⟩

/-- Nothing is open when the kernel starts. -/
def View.initial : View := ⟨fun _ => false,fun _ => .live Terminal.new,0⟩

lemma inStep_initial : Console.initial.InStep View.initial :=
  ⟨⟨Desktop.sound_initial,rfl,fun _ => Writer.mirrors_new⟩,rfl⟩

lemma settled_initial : Settled View.initial fun _ => none where
  shell _ _ hs := nomatch hs
  wide _ := (by decide : 36 ≤ bufferWidth)
  focused _ hi := nomatch hi
  fitted _ hi := nomatch hi
  prompting _ hi := nomatch hi

lemma spec_startShells : startShells.Spec consoleRules Settled View.initial :=
  spec_focus (spec_refresh (spec_focus settled_initial))

/-- Closing any window, whatever is open, and resetting the shells that stay. -/
theorem spec_closeAndResize (h : Settled v shells) (index : ℕ) :
    ((closeTerminal index).bind fun _ => resizeOpenShells shells none).Spec consoleRules
      (fun v' shells' => Settled v' shells' ∧
        v'.opens = Function.update v.opens (terminalIndex index) false) v := by
  refine spec_closeTerminal h.toKept fun v' ho hk hf => ?_
  refine (spec_resizeOpenShells hk hf (fun i hi => ?_) (by simp)).mono
    fun v'' shells' hs => ⟨hs.1,hs.2.trans ho⟩
  rw [ho] at hi
  by_cases he : i = terminalIndex index
  · subst he
    simp at hi
  · rw [Function.update_of_ne he] at hi
    obtain ⟨s,hs,-⟩ := h.prompting i hi
    rw [hs]
    rfl

theorem spec_handleLoss (h : Settled v shells) :
    (handleLoss shells).Spec consoleRules (fun v' shells' => Settled v' shells' ∧ v'.opens = v.opens) v := by
  refine ⟨trivial,?_⟩
  rintro v' active ⟨rfl,hactive⟩
  refine ⟨trivial,?_⟩
  rintro v'' opened ⟨rfl,rfl⟩
  change (if v''.opens active = true then _ else _ : ConsoleProgram Shells).Spec _ _ _
  split_ifs with hopen
  · obtain ⟨s,hs,hp⟩ := h.prompting active hopen
    simp only [hs]
    refine spec_focus (spec_onBehalf (v := { v'' with focus := active }) (Q := AtPrompt) ?_ rfl ?_)
    · cases hscreen : v''.screens active with
      | stale => rw [hscreen] at hp; exact hp.2.elim
      | live t =>
        rw [hscreen] at hp
        exact spec_inputLost hp.1 hp.2
    · intro screen s' hprompt hcols
      exact ⟨(h.focus hactive).setScreen hprompt hcols,rfl⟩
  · exact ⟨h,rfl⟩

theorem spec_closeFocused (h : Settled v shells) :
    (closeFocused shells).Spec consoleRules (fun v' shells' => Settled v' shells') v := by
  refine ⟨trivial,?_⟩
  rintro v' active ⟨rfl,-⟩
  refine ⟨trivial,?_⟩
  rintro v'' opened ⟨rfl,rfl⟩
  change (if v''.opens active = true then _ else _ : ConsoleProgram Shells).Spec _ _ _
  split_ifs
  · refine ⟨trivial,?_⟩
    rintro v₁ active' ⟨rfl,-⟩
    exact (spec_closeAndResize h active'.val).mono fun _ _ hs => hs.1
  · exact h

lemma firstClosed_closed {opens : Fin 2 → Bool} {i : Fin 2}
    (h : Desktop.firstClosed opens = some i) : opens i = false := by
  simpa using List.find?_some h

/-- Opening shows one more terminal, with its own shell, and resets the other one. -/
theorem spec_openShell (h : Settled v shells) (info : SystemInfo) (env : Environment) :
    (openShell info env shells).Spec consoleRules (fun v' shells' => Settled v' shells' ∧
      v'.opens = (Desktop.firstClosed v.opens).elim v.opens fun i => Function.update v.opens i true)
      v := by
  refine ⟨trivial,?_⟩
  rintro v₁ opened ⟨rfl,rfl⟩
  cases hfirst : Desktop.firstClosed v.opens with
  | none => exact ⟨⟨⟨h.shell,h.wide⟩,h.focused,h.fitted,h.prompting⟩,rfl⟩
  | some index =>
    have hclosed := firstClosed_closed hfirst
    change (((syncTerminalWidths.bind fun _ => (performAll [.setActiveTerminal index]).bind fun _ =>
      refresh.bind fun _ => AtomicProgram.ret (some index)) : ConsoleProgram (Option (Fin 2))).bind
        _).Spec consoleRules _ _
    rw [spec_bind]
    refine spec_syncTerminalWidths shells ⟨h.shell,h.wide⟩ fun v₂ ho hk hf => ?_
    refine spec_focus (spec_refresh ?_)
    have hopens : ∀ i, v₂.opens i → i ≠ index → (shells i).isSome := by
      intro i hi hne
      rw [ho] at hi
      change Function.update v.opens index true i = true at hi
      rw [Function.update_of_ne hne] at hi
      obtain ⟨s,hs,-⟩ := h.prompting i hi
      rw [hs]
      rfl
    rw [spec_ret]
    cases hs : shells index with
    | some s =>
      simp only [hs]
      refine (spec_resizeOpenShells (hk.focus index) hf (fun i hi => ?_) (by simp)).mono
        fun _ _ hset => ⟨hset.1,hset.2.trans ho⟩
      by_cases he : i = index
      · subst he
        rw [hs]
        rfl
      · exact hopens i hi he
    | none =>
      simp only [hs]
      refine spec_focus (spec_onBehalf (v := { v₂ with focus := index })
        (spec_new info env (hk.wide index)) rfl fun screen s' hprompt hcols => ?_)
      have hk' := (hk.focus index).setScreen (i := index) hprompt hcols
      have hf' : Fitted ({ v₂ with focus := index }.setScreen index screen) :=
        Fitted.setScreen (v := { v₂ with focus := index }) hf hcols
      refine (spec_resizeOpenShells hk' hf' (fun i hi => ?_) (fun i hi => ?_)).mono
        fun _ _ hset => ⟨hset.1,hset.2.trans ho⟩
      · by_cases he : i = index
        · subst he
          rw [Function.update_self]
          rfl
        · rw [Function.update_of_ne he]
          exact hopens i hi he
      · cases hi
        exact prompting_setScreen hprompt

theorem spec_handleFocused (h : Settled v shells) (env : Environment) (key : DecodedKey) :
    (handleFocused env shells key).Spec consoleRules
      (fun v' shells' => Settled v' shells' ∧ v'.opens = v.opens) v := by
  refine ⟨trivial,?_⟩
  rintro v' active ⟨rfl,hactive⟩
  refine ⟨trivial,?_⟩
  rintro v'' opened ⟨rfl,rfl⟩
  change (if v''.opens active = true then _ else _ : ConsoleProgram Shells).Spec _ _ _
  split_ifs with hopen
  · obtain ⟨s,hs,hp⟩ := h.prompting active hopen
    simp only [hs]
    refine spec_focus (spec_onBehalf (v := { v'' with focus := active }) (Q := AtPrompt) ?_ rfl ?_)
    · cases hscreen : v''.screens active with
      | stale => rw [hscreen] at hp; exact hp.2.elim
      | live t =>
        rw [hscreen] at hp
        exact spec_handleKey hp.1 hp.2 env key
    · intro screen s' hprompt hcols
      exact ⟨(h.focus hactive).setScreen hprompt hcols,rfl⟩
  · exact ⟨h,rfl⟩

theorem spec_dispatchKey (h : Settled v shells) (info : SystemInfo) (env : Environment)
    (key : DecodedKey) :
    (dispatchKey info env shells key).Spec consoleRules (fun v' shells' => Settled v' shells') v := by
  unfold dispatchKey
  split_ifs
  · exact spec_closeFocused h
  · exact (spec_openShell h info env).mono fun _ _ hs => hs.1
  · exact (spec_handleFocused h env key).mono fun _ _ hs => hs.1

/-- Any event leads from a settled console to a settled console. -/
theorem spec_handleEvent (h : Settled v shells) (info : SystemInfo) (env : Environment)
    (key : Option DecodedKey) (event : InputEvent) :
    (handleEvent info env shells key event).Spec consoleRules
      (fun v' shells' => Settled v' shells') v := by
  cases event with
  | openTerminal => exact spec_dispatchKey h info env _
  | closeTerminal index => exact (spec_closeAndResize h index).mono fun _ _ hs => hs.1
  | scancode code =>
    cases key with
    | none => exact h
    | some key => exact spec_dispatchKey h info env key

end CrabOs
