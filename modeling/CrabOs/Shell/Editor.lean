import CrabOs.Foundations.AtomicProgram
import CrabOs.Shell.Commands

/-! The shell: keys, the line they edit, and the writer sections each key makes. -/
namespace CrabOs.Crabsh
open CrabOs.Vga AtomicProgram

inductive KeyCode
  | home | endKey | arrowLeft | arrowRight | arrowUp | arrowDown | delete | pageUp | pageDown
  /-- Any other key; the shell ignores all of them. -/
  | other
  deriving DecidableEq

inductive DecodedKey
  | unicode (character : Char)
  | rawKey (code : KeyCode)
  deriving DecidableEq

/-- The arms of `handle_key`. -/
inductive KeyAction
  | submit | cancel | clearScreen | complete
  | backspace | delete | home | endOfLine | left | right | previous | next
  | eraseToStart | eraseToEnd | eraseWord | pageUp | pageDown
  | insert (byte : UInt8)
  | ignore
  deriving DecidableEq

def DecodedKey.action : DecodedKey → KeyAction
  | .unicode character =>
    if character = '\n' ∨ character = '\r' then .submit
    else if character = '\x03' then .cancel
    else if character = '\x0c' then .clearScreen
    else if character = '\t' then .complete
    else if character = '\x08' then .backspace
    else if character = '\x7f' ∨ character = '\x04' then .delete
    else if character = '\x01' then .home
    else if character = '\x05' then .endOfLine
    else if character = '\x02' then .left
    else if character = '\x06' then .right
    else if character = '\x10' then .previous
    else if character = '\x0e' then .next
    else if character = '\x15' then .eraseToStart
    else if character = '\x0b' then .eraseToEnd
    else if character = '\x17' then .eraseWord
    else if character.toNat < 128 then .insert character.toUInt8
    else .ignore
  | .rawKey .home => .home
  | .rawKey .endKey => .endOfLine
  | .rawKey .arrowLeft => .left
  | .rawKey .arrowRight => .right
  | .rawKey .arrowUp => .previous
  | .rawKey .arrowDown => .next
  | .rawKey .delete => .delete
  | .rawKey .pageUp => .pageUp
  | .rawKey .pageDown => .pageDown
  | .rawKey .other => .ignore

namespace Line

/-- Ctrl+U. -/
def eraseToStart (l : Line) : Option Line :=
  (copyWithin l.bytes l.cursor l.len 0).map fun bytes =>
    ⟨bytes,l.len-l.cursor,0,if l.len-l.cursor < l.len then false else l.overflow⟩

/-- Ctrl+K. -/
def eraseToEnd (l : Line) : Line :=
  { l with len := l.cursor, overflow := if l.cursor < l.len then false else l.overflow }

/-- Repeated `insert`, as tab completion makes it. -/
def insertAll : List UInt8 → Line → Option Line
  | [],l => some l
  | byte :: bytes,l => (l.insert byte).bind fun r => insertAll bytes r.1

end Line

structure Shell where
  info : SystemInfo
  line : Line
  history : History
  anchor : Position

/-- Each call locks the active writer once; its answer is the position of the cursor when the
lock is released. -/
abbrev ShellProgram := AtomicProgram Section (fun _ => Position)

namespace Shell

def promptSection : Section :=
  [.setColor .lightGreen .black,.writeString "shaolin@crabos",
    .setColor .lightGray .black,.writeString ":",
    .setColor .lightBlue .black,.writeString "~",
    .setColor .lightGray .black,.writeString "$ "]

def prompt : ShellProgram Position := perform promptSection

def new (info : SystemInfo) (env : Environment) : ShellProgram Shell := do
  performAll [[.clear],info.fastfetch env,
    println "Welcome to CrabOS. Type 'help' to get started.",
    println "Tab completes commands. Up/Down recalls history. PgUp/PgDn scrolls.\n"]
  let anchor ← prompt
  return ⟨info,Line.new,History.new,anchor⟩

def resetForResize (shell : Shell) : ShellProgram Shell := do
  performAll [[.clear]]
  let anchor ← prompt
  return { shell with line := Line.new, anchor := anchor }

def redraw (shell : Shell) (oldLen : ℕ) : ShellProgram Unit := do
  let text ← ofOption shell.line.asStr
  performAll [[.replaceInput shell.anchor text shell.line.cursor oldLen]]

/-- `self.line.cursor = self.line.len`. -/
def cursorToEnd (shell : Shell) : Shell :=
  { shell with line := { shell.line with cursor := shell.line.len } }

/-- `self.history.browsing = None`. -/
def stopBrowsing (shell : Shell) : Shell :=
  { shell with history := { shell.history with browsing := none } }

/-- An empty line at a fresh prompt. -/
def freshPrompt (shell : Shell) : ShellProgram Shell := do
  let anchor ← prompt
  return { shell with line := Line.new, anchor := anchor }

def inputLost (shell : Shell) : ShellProgram Shell := do
  let shell := shell.cursorToEnd
  shell.redraw shell.line.len
  performAll [println "^C",println "crabsh: keyboard input overflow; line discarded.",
    println "Release modifier keys before typing again."]
  shell.stopBrowsing.freshPrompt

/-- What Enter does between the echoed newline and the next prompt. -/
def submit (env : Environment) (shell : Shell) : ShellProgram Shell :=
  if shell.line.overflow then do
    performAll [println "crabsh: input exceeds 256 bytes; command discarded."]
    return shell.stopBrowsing
  else do
    let history ← ofOption (shell.history.record shell.line)
    let text ← ofOption shell.line.asStr
    let sections ← ofOption (execute shell.info history env text)
    performAll sections
    return { shell with history := history }

/-- `name.starts_with(prefix)`. -/
def startsWith (name start : String) : Bool := start.toList.isPrefixOf name.toList

/-- The length of the common start of two names, at most `limit`. -/
def commonLength (first name : String) (limit : ℕ) : ℕ :=
  ((((AsciiText.bytes first).zip (AsciiText.bytes name)).take limit).takeWhile
    (fun pair => pair.1 = pair.2)).length

/-- `complete` with the table of names that start with the line. -/
def completeFrom (shell : Shell) (first : String) (others : List String) :
    ShellProgram Shell := do
  let oldLen := shell.line.len
  let commonLen := others.foldl (fun limit name => commonLength first name limit)
    (AsciiText.bytes first).length
  let line ← ofOption
    (shell.line.insertAll (((AsciiText.bytes first).take commonLen).drop oldLen))
  if others = [] then
    let line ← ofOption (line.insertAll [32])
    let shell := { shell with line := line }
    shell.redraw oldLen
    return shell
  else if commonLen = oldLen then
    let shell := { shell with line := line }.cursorToEnd
    shell.redraw oldLen
    performAll ([println ""]++(first :: others).map (fun name => print (name++"  "))++[println ""])
    let anchor ← prompt
    let shell := { shell with anchor := anchor }
    shell.redraw oldLen
    return shell
  else
    let shell := { shell with line := line }
    shell.redraw oldLen
    return shell

def complete (commands : List (String × String)) (shell : Shell) : ShellProgram Shell :=
  if shell.line.cursor ≠ shell.line.len then return shell
  else do
    let text ← ofOption shell.line.asStr
    if ' ' ∈ text.toList then return shell
    else match (commands.map Prod.fst).filter (fun name => startsWith name text) with
      | [] => return shell
      | first :: others => shell.completeFrom first others

/-- The keys that fall through to the redraw at the end of `handle_key`. -/
def redrawWith (shell : Shell) (line : Option Line) : ShellProgram Shell := do
  let line ← ofOption line
  let edited := { shell with line := line }
  edited.redraw shell.line.len
  return edited

def handleKey (env : Environment) (shell : Shell) (key : DecodedKey) : ShellProgram Shell :=
  match key.action with
  | .submit => do
    let ended := shell.cursorToEnd
    ended.redraw shell.line.len
    performAll [println ""]
    let shell ← ended.submit env
    shell.freshPrompt
  | .cancel => do
    let ended := shell.cursorToEnd
    ended.redraw shell.line.len
    performAll [println "^C"]
    ended.stopBrowsing.freshPrompt
  | .clearScreen => do
    performAll [[.clear]]
    let anchor ← prompt
    let shell := { shell with anchor := anchor }
    shell.redraw 0
    return shell
  | .complete => shell.complete commands
  | .backspace => shell.redrawWith shell.line.backspace
  | .delete => shell.redrawWith shell.line.delete
  | .home => shell.redrawWith (some { shell.line with cursor := 0 })
  | .endOfLine => shell.redrawWith (some { shell.line with cursor := shell.line.len })
  | .left => shell.redrawWith (some { shell.line with cursor := shell.line.cursor-1 })
  | .right =>
    shell.redrawWith (some { shell.line with cursor := min (shell.line.cursor+1) shell.line.len })
  | .previous =>
    let (history,line) := shell.history.previous shell.line
    { shell with history := history }.redrawWith (some line)
  | .next =>
    let (history,line) := shell.history.next shell.line
    { shell with history := history }.redrawWith (some line)
  | .eraseToStart => shell.redrawWith shell.line.eraseToStart
  | .eraseToEnd => shell.redrawWith (some shell.line.eraseToEnd)
  | .eraseWord => shell.redrawWith shell.line.deleteWord
  | .pageUp => do
    performAll [[.scrollUp]]
    return shell
  | .pageDown => do
    performAll [[.scrollDown]]
    return shell
  | .insert byte => shell.redrawWith ((shell.line.insert byte).map Prod.fst)
  | .ignore => return shell

end Shell
end CrabOs.Crabsh
