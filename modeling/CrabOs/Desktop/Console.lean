import CrabOs.Desktop.Desktop
import CrabOs.Shell.Screen

/-! The console of the kernel: the desktop, the focused terminal and both writers, and what
`run_shell` does for one input event as a program of atomic calls. -/
namespace CrabOs
open Vga Crabsh AtomicProgram

/-- One locked section: the shell it is made for, if any, and the terminal it went to. -/
structure SectionRecord where
  owner : Option (Fin 2)
  target : Fin 2
  ops : Section

/-- `activeTerminal` is the global `ACTIVE_TERMINAL`, which the desktop has its own copy of.
The trace records every section made so far. -/
structure Console where
  desktop : Desktop
  activeTerminal : Fin 2
  terminals : Fin 2 → Writer
  trace : List SectionRecord

def Console.initial : Console := ⟨Desktop.initial,0,fun _ => Writer.new,[]⟩

/-- The calls that run with interrupts disabled or on a single atomic variable. -/
inductive ConsoleCall
  | activeTerminal
  | isOpen (index : Fin 2)
  | closeWindow (index : ℕ)
  | openWindow
  | windows
  | setTerminalColumns (index : Fin 2) (columns : ℕ)
  | setActiveTerminal (index : Fin 2)
  | withWriter (owner : Option (Fin 2)) (ops : Section)

def ConsoleCall.Answer : ConsoleCall → Type
  | .activeTerminal => Fin 2
  | .isOpen _ => Bool
  | .closeWindow _ => Unit
  | .openWindow => Option (Fin 2)
  | .windows => Fin 2 → Option Rect
  | .setTerminalColumns _ _ => Unit
  | .setActiveTerminal _ => Unit
  | .withWriter _ _ => Position

abbrev ConsoleProgram := AtomicProgram ConsoleCall ConsoleCall.Answer

namespace Console

def setTerminal (k : Console) (index : Fin 2) (w : Writer) : Console :=
  { k with terminals := Function.update k.terminals index w }

/-- `with_writer` locks whichever terminal is active when it starts. -/
def withWriter (k : Console) (owner : Option (Fin 2)) (ops : Section) :
    Option (Console × Position) :=
  (writerHandler ops (k.terminals k.activeTerminal)).map fun r =>
    ({ k.setTerminal k.activeTerminal r.1 with
        trace := k.trace++[⟨owner,k.activeTerminal,ops⟩] },r.2)

def handler : Handler ConsoleCall ConsoleCall.Answer Console
  | .activeTerminal,k => some (k,k.desktop.active)
  | .isOpen index,k => some (k,k.desktop.isOpen index)
  | .closeWindow index,k => some ({ k with desktop := k.desktop.closeWindow index },())
  | .openWindow,k => some ({ k with desktop := k.desktop.openWindow.1 },k.desktop.openWindow.2)
  | .windows,k => some (k,k.desktop.layout)
  | .setTerminalColumns index columns,k =>
    ((k.terminals index).setColumns columns).map fun w => (k.setTerminal index w,())
  | .setActiveTerminal index,k => some ({ k with activeTerminal := index },())
  | .withWriter owner ops,k => k.withWriter owner ops

/-- A byte from the mouse; a complete packet publishes the focus. -/
def mouseByte (k : Console) (byte : UInt8) : Option (Console × MouseResult) :=
  (k.desktop.mouseByte byte).map fun result =>
    ({ k with
        desktop := result.desktop
        activeTerminal := if result.completed then result.desktop.active else k.activeTerminal },
      result)

end Console

/-! ### The keyboard task -/

abbrev Shells := Fin 2 → Option Shell

/-- The sections of a shell, made for the shell of a terminal. -/
def onBehalf {α : Type} (index : Fin 2) (p : ShellProgram α) : ConsoleProgram α :=
  p.mapCalls (ConsoleCall.withWriter (some index)) (fun _ position => position)

def refresh : ConsoleProgram Unit := .call (.withWriter none []) (fun _ => .ret ())

def terminalColumns (rect : Option Rect) : ℕ := rect.elim 76 (fun r => (r.width-2).toNat)

def syncTerminalWidths : ConsoleProgram Unit :=
  .call .windows fun (rects : Fin 2 → Option Rect) =>
    performAll [.setTerminalColumns 0 (terminalColumns (rects 0)),
      .setTerminalColumns 1 (terminalColumns (rects 1))]

/-- `set_active_terminal(active_terminal())`. -/
def focusActive : ConsoleProgram Unit :=
  .call .activeTerminal fun (active : Fin 2) => performAll [.setActiveTerminal active]

def closeTerminal (index : ℕ) : ConsoleProgram Unit := do
  performAll [.closeWindow index]
  syncTerminalWidths
  focusActive
  refresh

def closeActive : ConsoleProgram Unit :=
  .call .activeTerminal fun (active : Fin 2) => closeTerminal active.val

def openTerminal : ConsoleProgram (Option (Fin 2)) :=
  .call .openWindow fun (opened : Option (Fin 2)) => match opened with
    | none => .ret none
    | some index => do
      syncTerminalWidths
      performAll [.setActiveTerminal index]
      refresh
      return some index

/-- `run_shell` up to its loop. -/
def startShells : ConsoleProgram Shells := do
  performAll [.setActiveTerminal 0]
  refresh
  performAll [.setActiveTerminal 0]
  return fun _ => none

/-- One iteration of the loop of `resize_open_shells`. -/
def resizeShell (fresh : Option (Fin 2)) (shells : Shells) (index : Fin 2) :
    ConsoleProgram Shells :=
  .call (.isOpen index) fun (opened : Bool) =>
    if opened = true ∧ fresh ≠ some index then do
      performAll [.setActiveTerminal index]
      match shells index with
      | none => return shells
      | some shell => do
        let shell ← onBehalf index shell.resetForResize
        return Function.update shells index (some shell)
    else .ret shells

def resizeOpenShells (shells : Shells) (fresh : Option (Fin 2)) : ConsoleProgram Shells := do
  let shells ← resizeShell fresh shells 0
  let shells ← resizeShell fresh shells 1
  focusActive
  return shells

/-- The branch for lost scancodes. -/
def handleLoss (shells : Shells) : ConsoleProgram Shells :=
  .call .activeTerminal fun (active : Fin 2) => .call (.isOpen active) fun (opened : Bool) =>
    if opened = true then
      match shells active with
      | none => .ret shells
      | some shell => do
        performAll [.setActiveTerminal active]
        let shell ← onBehalf active shell.inputLost
        return Function.update shells active (some shell)
    else .ret shells

/-- Ctrl+C. -/
def closeFocused (shells : Shells) : ConsoleProgram Shells :=
  .call .activeTerminal fun (active : Fin 2) => .call (.isOpen active) fun (opened : Bool) =>
    if opened = true then do
      closeActive
      resizeOpenShells shells none
    else .ret shells

/-- Ctrl+Q. -/
def openShell (info : SystemInfo) (env : Environment) (shells : Shells) :
    ConsoleProgram Shells := do
  match ← openTerminal with
  | none => return shells
  | some index => match shells index with
    | some _ => resizeOpenShells shells none
    | none => do
      performAll [.setActiveTerminal index]
      let shell ← onBehalf index (Shell.new info env)
      resizeOpenShells (Function.update shells index (some shell)) (some index)

/-- Any other key goes to the focused shell. -/
def handleFocused (env : Environment) (shells : Shells) (key : DecodedKey) :
    ConsoleProgram Shells :=
  .call .activeTerminal fun (active : Fin 2) => .call (.isOpen active) fun (opened : Bool) =>
    if opened = true then do
      performAll [.setActiveTerminal active]
      match shells active with
      | none => return shells
      | some shell => do
        let shell ← onBehalf active (shell.handleKey env key)
        return Function.update shells active (some shell)
    else .ret shells

def dispatchKey (info : SystemInfo) (env : Environment) (shells : Shells) (key : DecodedKey) :
    ConsoleProgram Shells :=
  if key = .unicode '\x03' then closeFocused shells
  else if key = .unicode '\x11' then openShell info env shells
  else handleFocused env shells key

/-- What `run_shell` does with an event it has not lost; `key` is what the decoder makes of a
scancode. -/
def handleEvent (info : SystemInfo) (env : Environment) (shells : Shells)
    (key : Option DecodedKey) : InputEvent → ConsoleProgram Shells
  | .openTerminal => dispatchKey info env shells (.unicode '\x11')
  | .closeTerminal index => do
    closeTerminal index
    resizeOpenShells shells none
  | .scancode _ => match key with
    | some key => dispatchKey info env shells key
    | none => .ret shells

/-- The keyboard decoder: `add_byte` followed by `process_keyevent`. -/
structure Decoder where
  State : Type
  new : State
  addByte : State → UInt8 → State × Option DecodedKey

/-- The decoder is only fed scancodes. -/
def Decoder.decode (D : Decoder) (state : D.State) : InputEvent → D.State × Option DecodedKey
  | .scancode code => D.addByte state code
  | _ => (state,none)

/-- A decoder to which every scancode is the release of a key, which makes no key. -/
def Decoder.releases : Decoder := ⟨Unit,(),fun state _ => (state,none)⟩

/-- A machine that reports nothing about itself. -/
def plainInfo : SystemInfo := ⟨0,Vector.replicate 12 0,Vector.replicate 48 0,false⟩

/-- The rest of the kernel right after boot, without a network. -/
def plainEnvironment : Environment :=
  ⟨0,0,none,none,fun _ => .error "no initialized Ethernet controller"⟩

end CrabOs
