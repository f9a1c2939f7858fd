import CrabOs.Foundations.RingBuffer
import CrabOs.Foundations.AsciiText

/-! The VGA text console: a cursor over a ring of 128 scrollback lines. An operation that
would index out of range or fail an assertion returns `none`. -/
namespace CrabOs.Vga

inductive Color
  | black | blue | green | cyan | red | magenta | brown | lightGray
  | darkGray | lightBlue | lightGreen | lightCyan | lightRed | pink | yellow | white
  deriving DecidableEq, Repr

def Color.code : Color → UInt8
  | .black => 0 | .blue => 1 | .green => 2 | .cyan => 3
  | .red => 4 | .magenta => 5 | .brown => 6 | .lightGray => 7
  | .darkGray => 8 | .lightBlue => 9 | .lightGreen => 10 | .lightCyan => 11
  | .lightRed => 12 | .pink => 13 | .yellow => 14 | .white => 15

/-- The attribute byte `background << 4 | foreground`. -/
def colorCode (foreground background : Color) : UInt8 := background.code <<< 4 ||| foreground.code

structure ScreenChar where
  asciiCharacter : UInt8
  colorCode : UInt8
  deriving DecidableEq, Repr

def blank : ScreenChar := ⟨32,Color.lightGray.code⟩

def bufferHeight : ℕ := 25
def bufferWidth : ℕ := 80
def terminalRows : ℕ := 16
def scrollbackLines : ℕ := 128

instance : NeZero scrollbackLines := ⟨by decide⟩

abbrev Row := Vector ScreenChar bufferWidth

def blankRow : Row := Vector.replicate bufferWidth blank

structure Position where
  line : ℕ
  column : ℕ
  deriving DecidableEq, Repr, Inhabited

/-- The position `bytes` cells later; a full row keeps its wrap pending. -/
def Position.offset (p : Position) (bytes width : ℕ) : Position :=
  let offset := p.column+bytes
  if 0 < offset ∧ offset % width = 0 then ⟨p.line+offset/width-1,width⟩
  else ⟨p.line+offset/width,offset % width⟩

structure Writer where
  lines : Vector Row scrollbackLines
  cursor : Position
  lastLine : ℕ
  firstLine : ℕ
  viewTop : ℕ
  color : UInt8
  columns : ℕ

/-- `u8::is_ascii_graphic`. -/
def isAsciiGraphic (byte : UInt8) : Bool := 0x21 ≤ byte && byte ≤ 0x7e

/-- The glyph stored for a byte that is not a control of the console. -/
def glyph (byte : UInt8) : UInt8 := if isAsciiGraphic byte || byte = 32 then byte else 0xfe

/-- The byte written for one character of a string. -/
def charByte (character : Char) : UInt8 :=
  if character.toNat < 128 then character.toUInt8 else 0xfe

namespace Writer

def new : Writer :=
  { lines := Vector.replicate scrollbackLines blankRow
    cursor := ⟨0,0⟩
    lastLine := 0
    firstLine := 0
    viewTop := 0
    color := Color.lightGray.code
    columns := bufferWidth }

def clear (w : Writer) : Writer :=
  { w with
    lines := Vector.replicate scrollbackLines blankRow
    cursor := ⟨0,0⟩
    lastLine := 0
    firstLine := 0
    viewTop := 0
    color := Color.lightGray.code }

def setColor (w : Writer) (foreground background : Color) : Writer :=
  { w with color := colorCode foreground background }

def position (w : Writer) : Position := w.cursor

def setColumns (w : Writer) (columns : ℕ) : Option Writer :=
  if 1 ≤ columns ∧ columns ≤ bufferWidth then some { w with columns := columns } else none

def liveTop (w : Writer) : ℕ := w.lastLine-(terminalRows-1)

/-- One iteration of the loop of `ensure_line`. -/
def appendLine (w : Writer) : Writer :=
  { w with
    lastLine := w.lastLine+1
    lines := RingBuffer.write w.lines (w.lastLine+1) blankRow }

/-- The loop of `ensure_line` for a known number of missing lines. -/
def appendLines : ℕ → Writer → Writer
  | 0,w => w
  | n+1,w => appendLines n w.appendLine

def ensureLine (w : Writer) (line : ℕ) : Writer :=
  let grown := appendLines (line-w.lastLine) w
  { grown with
    firstLine := grown.lastLine-(scrollbackLines-1)
    viewTop := grown.liveTop }

/-- Every byte first returns the view to the live display. -/
def followLive (w : Writer) : Writer := { w with viewTop := w.liveTop }

/-- `write_byte(b'\n')`. -/
def newline (w : Writer) : Writer :=
  let moved := { w.followLive with cursor := ⟨w.cursor.line+1,0⟩ }
  moved.ensureLine moved.cursor.line

/-- `write_byte(b'\r')`. -/
def carriageReturn (w : Writer) : Writer :=
  { w.followLive with cursor := ⟨w.cursor.line,0⟩ }

/-- Store one cell at the cursor and step over it. -/
def putCell (w : Writer) (cell : ScreenChar) : Option Writer :=
  if h : w.cursor.column < bufferWidth then
    let row := RingBuffer.read w.lines w.cursor.line
    some { w with
      lines := RingBuffer.write w.lines w.cursor.line (row.set w.cursor.column cell h)
      cursor := ⟨w.cursor.line,w.cursor.column+1⟩ }
  else none

/-- The last arm of `write_byte`: a pending wrap is resolved before the cell is stored. -/
def putByte (w : Writer) (byte : UInt8) : Option Writer :=
  let live := w.followLive
  let ready := if live.cursor.column = live.columns then live.newline else live
  ready.putCell ⟨glyph byte,ready.color⟩

/-- Repeated `write_byte(b' ')`. -/
def putSpaces : ℕ → Writer → Option Writer
  | 0,w => some w
  | n+1,w => (w.putByte 32).bind (putSpaces n)

def writeByte (w : Writer) (byte : UInt8) : Option Writer :=
  if byte = 10 then some w.newline
  else if byte = 13 then some w.carriageReturn
  else if byte = 9 then putSpaces (4-w.cursor.column % 4) w.followLive
  else w.putByte byte

def writeBytes : List UInt8 → Writer → Option Writer
  | [],w => some w
  | byte :: bytes,w => (w.writeByte byte).bind (writeBytes bytes)

def writeString (w : Writer) (text : String) : Option Writer :=
  writeBytes (text.toList.map charByte) w

/-- `str::is_ascii`. -/
def isAscii (text : String) : Bool := text.toList.all (fun c => c.toNat < 128)

/-- Redraw ASCII input, erasing stale characters after deletions. The three guards are the
assertions of the source; `text.len()` counts UTF-8 bytes. -/
def replaceInput (w : Writer) (anchor : Position) (text : String) (cursor oldLen : ℕ) :
    Option Writer :=
  if w.firstLine ≤ anchor.line ∧ isAscii text ∧ cursor ≤ text.utf8ByteSize then
    ({ w with cursor := anchor }.writeString text).bind fun written =>
      (putSpaces (oldLen-text.utf8ByteSize) written).bind fun erased =>
        let moved := { erased with cursor := anchor.offset cursor erased.columns }
        some (moved.ensureLine moved.cursor.line)
  else none

def scrollUp (w : Writer) : Writer :=
  { w with viewTop := max (w.viewTop-(terminalRows-1)) w.firstLine }

def scrollDown (w : Writer) : Writer :=
  { w with viewTop := min (w.viewTop+terminalRows-1) w.liveTop }

end Writer

/-- The calls a locked writer section makes. -/
inductive WriterOp
  | writeByte (byte : UInt8)
  | writeString (text : String)
  | setColor (foreground background : Color)
  | clear
  | scrollUp
  | scrollDown
  | replaceInput (anchor : Position) (text : String) (cursor oldLen : ℕ)

namespace Writer

def apply (w : Writer) : WriterOp → Option Writer
  | .writeByte byte => w.writeByte byte
  | .writeString text => w.writeString text
  | .setColor foreground background => some (w.setColor foreground background)
  | .clear => some w.clear
  | .scrollUp => some w.scrollUp
  | .scrollDown => some w.scrollDown
  | .replaceInput anchor text cursor oldLen => w.replaceInput anchor text cursor oldLen

def applyAll : List WriterOp → Writer → Option Writer
  | [],w => some w
  | op :: ops,w => (w.apply op).bind (applyAll ops)

end Writer
end CrabOs.Vga
