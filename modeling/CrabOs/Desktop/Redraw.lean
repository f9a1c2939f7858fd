import CrabOs.Desktop.Console
import CrabOs.Desktop.FrameCache

/-! What is on the screen while the kernel waits: every change of the desktop or of a terminal is
followed by a redraw of its own, or by one that the redraw worker owes. -/
namespace CrabOs
open Vga Crabsh AtomicProgram

/-! ### What the video memory shows -/

namespace Vga

lemma Frame.ext_pixel {f g : Frame} (h : ∀ s, f.pixel s = g.pixel s) : f = g := by
  apply Vector.ext
  intro i hi
  have hrow : i/bufferWidth < bufferHeight := by
    simp only [screenCells,bufferWidth,bufferHeight] at *
    omega
  have hspot := h ⟨i/bufferWidth,i%bufferWidth,hrow,Nat.mod_lt _ (by decide)⟩
  simpa only [Frame.pixel,Spot.index,Nat.div_add_mod'] using hspot

namespace Display

/-- The memory holds the frame that is composed of this state, whatever was drawn before. -/
def Shows (s : Display) (u : Update) : Prop := ∀ old, ∃ frame,
  u.desktop.renderDesktop u.terminals old = some frame ∧ s.memory = frame.map Pixel.char

lemma render_shows {s : Display} {u : Update} (hvalid : u.desktop.Valid) (h : Coherent s) :
    ∃ t, s.render u = some t ∧ Coherent t ∧ t.Shows u := by
  obtain ⟨_,-,hrender⟩ := Desktop.renderDesktop_paints
  obtain ⟨_,-,hpaints⟩ := hrender u.desktop hvalid u.terminals
  obtain ⟨frame,hframe,hpixel⟩ := hpaints s.frame
  obtain ⟨t,ht,hcoherent,rfl,hmemory⟩ := render_spec h hframe
  have hchars : t.memory = t.frame.map Pixel.char := by
    apply Vector.ext
    intro i hi
    rw [Vector.getElem_map]
    exact hmemory ⟨i,hi⟩
  refine ⟨t,ht,hcoherent,fun old => ⟨t.frame,?_,hchars⟩⟩
  obtain ⟨frame',hframe',hpixel'⟩ := hpaints old
  rw [hframe',Frame.ext_pixel fun spot => (hpixel' spot).trans (hpixel spot).symm]

end Display
end Vga

/-! ### Programs that leave the screen up to date -/

/-- Whether the screen is out of date after a call. A section of a terminal is drawn by the
`with_writer` it was made in. -/
def ConsoleCall.staleAfter : (c : ConsoleCall) → c.Answer → Bool → Bool
  | .closeWindow _,_,_ => true
  | .openWindow,opened,stale => stale || Option.isSome (α := Fin 2) opened
  | .setTerminalColumns _ _,_,_ => true
  | .withWriter _ _,_,_ => false
  | _,_,stale => stale

def staleness : Guarded ConsoleCall ConsoleCall.Answer Bool where
  guard _ _ := True
  outcome c stale stale' r := stale' = c.staleAfter r stale

/-- When the program is over, the screen is up to date. -/
def Drawn {α : Type} (stale : Bool) (p : ConsoleProgram α) : Prop :=
  p.Safe staleness (fun stale _ => stale = false) stale

section Drawn
variable {α β : Type} {stale : Bool}

lemma safe_staleness (p : ConsoleProgram α) : p.Safe staleness (fun _ _ => True) stale := by
  induction p generalizing stale with
  | ret a => trivial
  | fail => trivial
  | call c next ih => exact ⟨trivial,fun _ r _ => ih r⟩

lemma Drawn.bind {p : ConsoleProgram α} {f : α → ConsoleProgram β} (h : Drawn stale p)
    (hf : ∀ a, Drawn false (f a)) : Drawn stale (p.bind f) := by
  rw [Drawn,safe_bind]
  refine Safe.mono h fun stale' a hs => ?_
  rw [hs]
  exact hf a

/-- What ends with a redraw leaves the screen up to date. -/
lemma Drawn.after {p : ConsoleProgram α} {f : α → ConsoleProgram β}
    (hf : ∀ stale a, Drawn stale (f a)) : Drawn stale (p.bind f) := by
  rw [Drawn,safe_bind]
  exact (safe_staleness p).mono fun stale a _ => hf stale a

lemma drawn_ret (a : α) : Drawn false (.ret a) := rfl

lemma drawn_call {c : ConsoleCall} {next : c.Answer → ConsoleProgram α}
    (h : ∀ r, Drawn (c.staleAfter r stale) (next r)) : Drawn stale (.call c next) := by
  refine ⟨trivial,fun stale' r hs => ?_⟩
  rw [hs]
  exact h r

lemma drawn_onBehalf (index : Fin 2) (p : ShellProgram α) : Drawn false (onBehalf index p) := by
  induction p with
  | ret a => exact drawn_ret a
  | fail => trivial
  | call c next ih => exact drawn_call ih

lemma drawn_setActiveTerminal (index : Fin 2) :
    Drawn false (performAll [.setActiveTerminal index]) := drawn_call fun _ => drawn_ret ()

lemma drawn_focusActive : Drawn false focusActive :=
  drawn_call fun active => drawn_setActiveTerminal active

lemma drawn_refresh : Drawn stale refresh := drawn_call fun _ => drawn_ret ()

lemma drawn_startShells : Drawn stale startShells := by
  refine Drawn.after fun stale _ => ?_
  refine drawn_refresh.bind fun _ => ?_
  exact (drawn_setActiveTerminal 0).bind fun _ => drawn_ret _

lemma drawn_closeTerminal (index : ℕ) : Drawn stale (closeTerminal index) :=
  Drawn.after fun _ _ => Drawn.after fun _ _ => Drawn.after fun _ _ => drawn_refresh

lemma drawn_closeActive : Drawn stale closeActive :=
  drawn_call fun active => drawn_closeTerminal active.val

lemma drawn_openTerminal : Drawn false openTerminal := by
  refine drawn_call fun (opened : Option (Fin 2)) => ?_
  cases opened with
  | none => exact drawn_ret none
  | some index =>
    exact Drawn.after fun _ _ => Drawn.after fun _ _ => drawn_refresh.bind fun _ => drawn_ret _

variable (shells : Shells)

lemma drawn_resizeShell (fresh : Option (Fin 2)) (index : Fin 2) :
    Drawn false (resizeShell fresh shells index) := by
  refine drawn_call fun opened => ?_
  split_ifs
  · refine (drawn_setActiveTerminal index).bind fun _ => ?_
    cases shells index with
    | none => exact drawn_ret shells
    | some shell => exact (drawn_onBehalf index _).bind fun _ => drawn_ret _
  · exact drawn_ret shells

lemma drawn_resizeOpenShells (fresh : Option (Fin 2)) :
    Drawn false (resizeOpenShells shells fresh) := by
  refine (drawn_resizeShell shells fresh 0).bind fun shells => ?_
  refine (drawn_resizeShell shells fresh 1).bind fun shells => ?_
  exact drawn_focusActive.bind fun _ => drawn_ret _

lemma drawn_handleLoss : Drawn false (handleLoss shells) := by
  refine drawn_call fun (active : Fin 2) => drawn_call fun opened => ?_
  split_ifs
  · cases shells active with
    | none => exact drawn_ret shells
    | some shell =>
      refine (drawn_setActiveTerminal active).bind fun _ => ?_
      exact (drawn_onBehalf active _).bind fun _ => drawn_ret _
  · exact drawn_ret shells

lemma drawn_closeFocused : Drawn false (closeFocused shells) := by
  refine drawn_call fun (active : Fin 2) => drawn_call fun opened => ?_
  split_ifs
  · exact drawn_closeActive.bind fun _ => drawn_resizeOpenShells shells none
  · exact drawn_ret shells

lemma drawn_openShell (info : SystemInfo) (env : Environment) :
    Drawn false (openShell info env shells) := by
  refine drawn_openTerminal.bind fun opened => ?_
  cases opened with
  | none => exact drawn_ret shells
  | some index =>
    dsimp only
    cases shells index with
    | some _ => exact drawn_resizeOpenShells shells none
    | none =>
      refine (drawn_setActiveTerminal index).bind fun _ => ?_
      exact (drawn_onBehalf index _).bind fun _ => drawn_resizeOpenShells _ _

lemma drawn_handleFocused (env : Environment) (key : DecodedKey) :
    Drawn false (handleFocused env shells key) := by
  refine drawn_call fun (active : Fin 2) => drawn_call fun opened => ?_
  split_ifs
  · refine (drawn_setActiveTerminal active).bind fun _ => ?_
    cases shells active with
    | none => exact drawn_ret shells
    | some shell => exact (drawn_onBehalf active _).bind fun _ => drawn_ret _
  · exact drawn_ret shells

lemma drawn_dispatchKey (info : SystemInfo) (env : Environment) (key : DecodedKey) :
    Drawn false (dispatchKey info env shells key) := by
  unfold dispatchKey
  split_ifs
  · exact drawn_closeFocused shells
  · exact drawn_openShell shells info env
  · exact drawn_handleFocused shells env key

theorem drawn_handleEvent (info : SystemInfo) (env : Environment) (key : Option DecodedKey)
    (event : InputEvent) : Drawn false (handleEvent info env shells key event) := by
  cases event with
  | openTerminal => exact drawn_dispatchKey shells info env _
  | closeTerminal index =>
    exact (drawn_closeTerminal index).bind fun _ => drawn_resizeOpenShells shells none
  | scancode code =>
    cases key with
    | none => exact drawn_ret shells
    | some key => exact drawn_dispatchKey shells info env key

end Drawn

/-! ### The two tasks and the mouse -/

/-- The keyboard task waits for an event, makes the next call of its program, or draws what the
last one wrote. -/
inductive ShellTask (D : Decoder)
  | waiting (keyboard : D.State) (shells : Shells)
  | running (keyboard : D.State) (program : ConsoleProgram Shells)
  | drawing (keyboard : D.State) (program : ConsoleProgram Shells)
  | panicked

/-- The redraw worker waits for `REDRAW_PENDING`, or is at one of the two sections of `refresh`. -/
inductive RedrawWorker
  | waiting
  | refreshing
  | drawing
deriving DecidableEq

/-- The kernel between two atomic steps, with the screen. -/
structure Workplace (D : Decoder) where
  console : Console
  display : Display
  redrawPending : Bool
  shell : ShellTask D
  worker : RedrawWorker

/-- Only a task that waits lets the other one run; the mouse may act at any point. -/
inductive Turn
  | event (env : Environment) (event : InputEvent)
  | inputLost
  | pollWorker
  | proceed
  | mouse (byte : UInt8)

def ConsoleCall.draws : ConsoleCall → Bool
  | .withWriter _ _ => true
  | _ => false

def Console.update (k : Console) : Update := ⟨k.desktop,k.terminals⟩

namespace Workplace
variable {D : Decoder}

def boot (memory : Vector ScreenChar screenCells) : Workplace D :=
  ⟨Console.initial,Display.boot memory,false,.running D.new startShells,.waiting⟩

/-- `render_desktop`. -/
def draw (m : Workplace D) : Workplace D := match m.display.render m.console.update with
  | some display => { m with display := display }
  | none => { m with shell := .panicked }

def proceedShell (m : Workplace D) (keyboard : D.State) : ConsoleProgram Shells → Workplace D
  | .ret shells => { m with shell := .waiting keyboard shells }
  | .fail => { m with shell := .panicked }
  | .call c next => match Console.handler c m.console with
    | some (k,r) => { m with
        console := k
        shell := if c.draws then .drawing keyboard (next r) else .running keyboard (next r) }
    | none => { m with shell := .panicked }

/-- The empty section of `refresh`. -/
def touch (m : Workplace D) : Workplace D := match m.console.withWriter none [] with
  | some (k,_) => { m with console := k, worker := .drawing }
  | none => { m with shell := .panicked }

def interrupt (m : Workplace D) (byte : UInt8) : Workplace D := match m.console.mouseByte byte with
  | some (k,r) => { m with console := k, redrawPending := m.redrawPending || r.completed }
  | none => { m with shell := .panicked }

/-- The poll of the redraw worker takes the flag. -/
def pollWorker (m : Workplace D) : Workplace D :=
  if m.redrawPending then { m with redrawPending := false, worker := .refreshing } else m

/-- A turn that is not possible has no next state. -/
def step (info : SystemInfo) (m : Workplace D) (turn : Turn) : Option (Workplace D) :=
  match turn,m.shell,m.worker with
  | .event env event,.waiting keyboard shells,.waiting =>
    let (keyboard,key) := D.decode keyboard event
    some { m with shell := .running keyboard (handleEvent info env shells key event) }
  | .inputLost,.waiting _ shells,.waiting =>
    some { m with shell := .running D.new (handleLoss shells) }
  | .pollWorker,.waiting _ _,.waiting => some m.pollWorker
  | .proceed,.waiting _ _,.refreshing => some m.touch
  | .proceed,.waiting _ _,.drawing => some { m.draw with worker := .waiting }
  | .proceed,.running keyboard p,.waiting => some (m.proceedShell keyboard p)
  | .proceed,.drawing keyboard p,.waiting => some { m with shell := .running keyboard p }.draw
  | .mouse byte,_,_ => some (m.interrupt byte)
  | _,_,_ => none

end Workplace

/-! ### What each turn does to the screen -/

lemma mouseByte_unseen {d : Desktop} {byte : UInt8} {result : MouseResult}
    (h : d.mouseByte byte = some result) (hpart : result.completed = false) :
    result.desktop.renderDesktop = d.renderDesktop := by
  unfold Desktop.mouseByte at h
  split_ifs at h
  · cases h
    rfl
  · obtain ⟨packet,-,hr⟩ := Option.map_eq_some_iff.mp h
    dsimp only at hr
    split_ifs at hr
    · rw [← hr] at hpart
      cases hpart
    · rw [← hr]
      rfl

lemma openWindow_none {d : Desktop} (h : d.openWindow.2 = none) : d.openWindow.1 = d := by
  unfold Desktop.openWindow at h ⊢
  cases hi : Desktop.firstClosed d.isOpen with
  | none => rfl
  | some index =>
    rw [hi] at h
    cases h

namespace Console
variable {k k' : Console}

lemma handler_settled {c : ConsoleCall} {r : c.Answer} (hk : k.desktop.Settled)
    (h : handler c k = some (k',r)) : k'.desktop.Settled := by
  cases c with
  | closeWindow index =>
    cases h
    exact hk.closeWindow index
  | openWindow =>
    cases h
    exact hk.openWindow
  | setTerminalColumns index columns =>
    obtain ⟨_,-,hk'⟩ := Option.map_eq_some_iff.mp h
    cases hk'
    exact hk
  | withWriter owner ops =>
    obtain ⟨_,-,hk'⟩ := Option.map_eq_some_iff.mp h
    cases hk'
    exact hk
  | _ =>
    cases h
    exact hk

/-- A call that leaves the screen up to date without a redraw changes nothing that is drawn. -/
lemma handler_update {c : ConsoleCall} {r : c.Answer} {stale : Bool} (hdraws : c.draws = false)
    (hc : c.staleAfter r stale = false) (h : handler c k = some (k',r)) :
    k'.update = k.update ∧ stale = false := by
  cases c with
  | closeWindow index => cases hc
  | setTerminalColumns index columns => cases hc
  | withWriter owner ops => cases hdraws
  | openWindow =>
    obtain ⟨hstale,hnone⟩ := (Bool.or_eq_false_iff).mp hc
    refine ⟨?_,hstale⟩
    cases h
    simp only [update,openWindow_none (Option.not_isSome_iff_eq_none.mp (by simpa using hnone))]
  | _ =>
    cases h
    exact ⟨rfl,hc⟩

lemma withWriter_touch (k : Console) :
    ∃ k' position, k.withWriter none [] = some (k',position) ∧ k'.update = k.update := by
  refine ⟨_,_,rfl,?_⟩
  simp only [update,setTerminal,Function.update_eq_self]

end Console

/-- The program of the keyboard task leaves the screen up to date from where it is. -/
def ShellTask.Draws {D : Decoder} (stale : Bool) : ShellTask D → Prop
  | .waiting _ _ => stale = false
  | .running _ p => Drawn stale p
  | .drawing _ p => Drawn false p
  | .panicked => True

namespace Workplace
variable {D : Decoder} {m m' : Workplace D} {info : SystemInfo}

/-- What the screen does not show yet, one of the tasks is bound to draw. -/
structure Inv (m : Workplace D) : Prop where
  coherent : m.display.Coherent
  settled : m.console.desktop.Settled
  drawn : ∃ stale, m.shell.Draws stale ∧ (stale = false →
    m.redrawPending = true ∨ m.worker ≠ .waiting ∨ m.display.Shows m.console.update)

lemma inv_boot (memory : Vector ScreenChar screenCells) : (boot memory : Workplace D).Inv :=
  ⟨Display.coherent_boot memory,Desktop.settled_initial,true,drawn_startShells,nofun⟩

lemma Inv.panic (h : m.Inv) : ({ m with shell := .panicked } : Workplace D).Inv :=
  ⟨h.coherent,h.settled,true,trivial,nofun⟩

lemma draw_shows (hcoherent : m.display.Coherent) (hsettled : m.console.desktop.Settled) :
    ∃ display, m.draw = { m with display := display } ∧ display.Coherent ∧
      display.Shows m.console.update := by
  obtain ⟨display,hrender,hcoherent,hshows⟩ :=
    Display.render_shows (u := m.console.update) hsettled.valid hcoherent
  refine ⟨display,?_,hcoherent,hshows⟩
  rw [Workplace.draw,hrender]

lemma touch_update (m : Workplace D) :
    ∃ k, m.touch = { m with console := k, worker := .drawing } ∧ k.update = m.console.update := by
  obtain ⟨k,position,hk,hupdate⟩ := m.console.withWriter_touch
  refine ⟨k,?_,hupdate⟩
  rw [Workplace.touch,hk]

lemma Inv.interrupt (h : m.Inv) (byte : UInt8) : (m.interrupt byte).Inv := by
  obtain ⟨result,-,hresult,hsettled⟩ := h.settled.mouseByte byte
  obtain ⟨stale,hdraws,hstale⟩ := h.drawn
  simp only [Workplace.interrupt,Console.mouseByte,hresult,Option.map_some]
  refine ⟨h.coherent,hsettled,stale,hdraws,fun hs => ?_⟩
  cases hcompleted : result.completed with
  | true => exact .inl (Bool.or_true _)
  | false =>
    refine (hstale hs).imp (fun hp => by simp only [hp,Bool.true_or])
      (Or.imp_right fun hshows => ?_)
    simp only [Display.Shows,Console.update,mouseByte_unseen hresult hcompleted]
    exact hshows

lemma Inv.proceedShell (h : m.Inv) {keyboard : D.State} {p : ConsoleProgram Shells}
    (hp : m.shell = .running keyboard p) : (m.proceedShell keyboard p).Inv := by
  obtain ⟨stale,hdraws,hstale⟩ := h.drawn
  rw [hp] at hdraws
  cases p with
  | ret shells => exact ⟨h.coherent,h.settled,stale,hdraws,hstale⟩
  | fail => exact h.panic
  | call c next =>
    have hnext : ∀ r, Drawn (c.staleAfter r stale) (next r) := fun r => hdraws.2 _ r rfl
    cases hk : Console.handler c m.console with
    | none =>
      simp only [Workplace.proceedShell,hk]
      exact h.panic
    | some answer =>
      obtain ⟨k,r⟩ := answer
      have hsettled := Console.handler_settled h.settled hk
      simp only [Workplace.proceedShell,hk]
      cases hc : c.draws with
      | true =>
        refine ⟨h.coherent,hsettled,true,?_,nofun⟩
        cases c with
        | withWriter owner ops => exact hnext r
        | _ => cases hc
      | false =>
        refine ⟨h.coherent,hsettled,c.staleAfter r stale,hnext r,fun hs => ?_⟩
        obtain ⟨hupdate,hs⟩ := Console.handler_update hc hs hk
        dsimp only
        rw [hupdate]
        exact hstale hs

theorem Inv.step (h : m.Inv) {turn : Turn} (hstep : m.step info turn = some m') : m'.Inv := by
  obtain ⟨stale,hdraws,hstale⟩ := h.drawn
  unfold Workplace.step at hstep
  split at hstep
  next env event keyboard shells hshell hworker =>
    cases hstep
    rw [hshell] at hdraws
    exact ⟨h.coherent,h.settled,false,drawn_handleEvent shells info env _ event,
      fun _ => hstale hdraws⟩
  next keyboard shells hshell hworker =>
    cases hstep
    rw [hshell] at hdraws
    exact ⟨h.coherent,h.settled,false,drawn_handleLoss shells,fun _ => hstale hdraws⟩
  next keyboard shells hshell hworker =>
    cases hstep
    unfold Workplace.pollWorker
    split_ifs
    · exact ⟨h.coherent,h.settled,stale,hdraws,fun _ => .inr (.inl nofun)⟩
    · exact h
  next keyboard shells hshell hworker =>
    cases hstep
    obtain ⟨k,hk,hupdate⟩ := m.touch_update
    have hdesktop : k.desktop = m.console.desktop := congrArg Update.desktop hupdate
    rw [hk]
    refine ⟨h.coherent,?_,stale,hdraws,fun _ => .inr (.inl nofun)⟩
    rw [hdesktop]
    exact h.settled
  next keyboard shells hshell hworker =>
    cases hstep
    obtain ⟨display,hdraw,hcoherent,hshows⟩ := draw_shows h.coherent h.settled
    rw [hdraw]
    exact ⟨hcoherent,h.settled,stale,hdraws,fun _ => .inr (.inr hshows)⟩
  next keyboard p hshell hworker =>
    cases hstep
    exact h.proceedShell hshell
  next keyboard p hshell hworker =>
    cases hstep
    rw [hshell] at hdraws
    obtain ⟨display,hdraw,hcoherent,hshows⟩ :=
      draw_shows (m := { m with shell := .running keyboard p }) h.coherent h.settled
    rw [hdraw]
    exact ⟨hcoherent,h.settled,false,hdraws,fun _ => .inr (.inr hshows)⟩
  next byte =>
    cases hstep
    exact h.interrupt byte
  next => cases hstep

/-- Both tasks wait. -/
structure Idle (m : Workplace D) : Prop where
  shell : ∃ keyboard shells, m.shell = .waiting keyboard shells
  worker : m.worker = .waiting

/-- What the redraw worker does when it is polled, up to its next wait. -/
def redraw (m : Workplace D) : List Turn :=
  if m.redrawPending then [.pollWorker,.proceed,.proceed] else [.pollWorker]

lemma run_redraw (info : SystemInfo) {console : Console} {display : Display}
    (hcoherent : display.Coherent) (hsettled : console.desktop.Settled) (keyboard : D.State)
    (shells : Shells) : ∃ k display', k.update = console.update ∧ display'.Shows console.update ∧
      Runs.run (step info) [.pollWorker,.proceed,.proceed]
          ⟨console,display,true,.waiting keyboard shells,.waiting⟩ =
        some ⟨k,display',false,.waiting keyboard shells,.waiting⟩ := by
  let woken : Workplace D := ⟨console,display,false,.waiting keyboard shells,.refreshing⟩
  obtain ⟨k,hk,hupdate⟩ := woken.touch_update
  have hdesktop : k.desktop = console.desktop := congrArg Update.desktop hupdate
  let touched : Workplace D := ⟨k,display,false,.waiting keyboard shells,.drawing⟩
  obtain ⟨display',hdraw,-,hshows⟩ := draw_shows (m := touched) hcoherent
    (by rw [hdesktop]; exact hsettled)
  have hsection : step info woken .proceed = some touched := congrArg some hk
  have hrender : step info touched .proceed = some { touched.draw with worker := .waiting } := rfl
  refine ⟨k,display',hupdate,?_,?_⟩
  · rw [← show k.update = console.update from hupdate]
    exact hshows
  · change (step info woken .proceed).bind (Runs.run (step info) [.proceed]) = _
    rw [hsection,Option.bind_some,Runs.run,hrender,hdraw]
    rfl

/-- Whenever both tasks wait, the screen shows the desktop and the terminals as they are, unless a
redraw is pending; and then one poll of the redraw worker makes it show them. -/
theorem screen_current {memory : Vector ScreenChar screenCells} {turns : List Turn}
    (hr : Runs.run (step info) turns (boot memory) = some m) (hidle : m.Idle) :
    (m.redrawPending = false → m.display.Shows m.console.update) ∧
      ∃ m', Runs.run (step info) m.redraw m = some m' ∧ m'.Idle ∧ m'.redrawPending = false ∧
        m'.console.update = m.console.update ∧ m'.display.Shows m.console.update := by
  have hinv : m.Inv := Runs.invariant_run (fun _ _ _ h hstep => h.step hstep) (inv_boot memory) hr
  obtain ⟨hcoherent,hsettled,stale,hdraws,hstale⟩ := hinv
  obtain ⟨console,display,pending,shell,worker⟩ := m
  obtain ⟨⟨keyboard,shells,rfl⟩,rfl⟩ := hidle
  cases pending with
  | false =>
    have hshows : display.Shows console.update :=
      (hstale hdraws).elim nofun (Or.elim · (absurd rfl) id)
    exact ⟨fun _ => hshows,_,rfl,⟨⟨keyboard,shells,rfl⟩,rfl⟩,rfl,rfl,hshows⟩
  | true =>
    refine ⟨nofun,?_⟩
    obtain ⟨k,display',hupdate,hshows,hrun⟩ := run_redraw info hcoherent hsettled keyboard shells
    exact ⟨_,hrun,⟨⟨keyboard,shells,rfl⟩,rfl⟩,rfl,hupdate,hshows⟩

/-- A mouse packet that arrives before the kernel has drawn its first frame. -/
theorem screen_current_boot : ∃ m m' : Workplace Decoder.releases,
    Runs.run (step plainInfo)
        [.mouse 8,.mouse 0,.mouse 0,.proceed,.proceed,.proceed,.proceed,.proceed]
        (boot (.replicate screenCells ⟨63,0⟩)) = some m ∧ m.redrawPending = true ∧
      Runs.run (step plainInfo) m.redraw m = some m' ∧ m'.display.Shows m.console.update := by
  generalize (.replicate screenCells ⟨63,0⟩ : Vector ScreenChar screenCells) = memory
  let rest : ConsoleProgram Shells := .call (.setActiveTerminal 0) fun _ => .ret fun _ => none
  obtain ⟨k,hfirst⟩ : ∃ k, Runs.run (step plainInfo) [.mouse 8,.mouse 0,.mouse 0,.proceed,.proceed]
      (boot memory : Workplace Decoder.releases) =
        some ⟨k,Display.boot memory,true,.drawing () rest,.waiting⟩ := ⟨_,rfl⟩
  have hinv := Runs.invariant_run (I := Inv) (fun _ _ _ h hstep => h.step hstep) (inv_boot memory)
    hfirst
  obtain ⟨display,hdraw,-⟩ := draw_shows
    (m := (⟨k,Display.boot memory,true,.running () rest,.waiting⟩ : Workplace Decoder.releases))
    hinv.coherent hinv.settled
  have hrun : Runs.run (step plainInfo)
      ([.mouse 8,.mouse 0,.mouse 0,.proceed,.proceed]++([.proceed]++[.proceed,.proceed]))
      (boot memory : Workplace Decoder.releases) =
        some ⟨{ k with activeTerminal := 0 },display,true,.waiting () fun _ => none,.waiting⟩ := by
    rw [Runs.run_append,hfirst,Option.bind_some,Runs.run_append]
    change (some (draw _)).bind _ = _
    rw [hdraw]
    rfl
  obtain ⟨-,m',hredraw,-,-,-,hshows⟩ := screen_current hrun ⟨⟨_,_,rfl⟩,rfl⟩
  exact ⟨_,m',hrun,rfl,hredraw,hshows⟩

end Workplace
end CrabOs
