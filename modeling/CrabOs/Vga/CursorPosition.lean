import CrabOs.Vga.Refinement

/-! `Position::offset` says where the console is after writing text, without writing it. -/
namespace CrabOs.Vga
namespace Writer

/-- The last byte written was stored in the row of the cursor, just before it. -/
def JustStored (w : Writer) (byte : UInt8) : Prop :=
  ∃ col, w.cursor.column = col+1 ∧
    (RingBuffer.read w.lines w.cursor.line)[col]? = some ⟨glyph byte,w.color⟩

/-- The width fits the buffer and the cursor the width; its wrap may be pending. -/
structure Fits (w : Writer) : Prop where
  pos : 0 < w.columns
  width : w.columns ≤ bufferWidth
  column : w.cursor.column ≤ w.columns

/-- What writing text from one state to another has done. -/
structure Advanced (w w' : Writer) (n : ℕ) : Prop where
  cursor : w'.cursor = w.cursor.offset n w.columns
  columns : w'.columns = w.columns
  color : w'.color = w.color

variable {w w' : Writer}

lemma Advanced.fits {n : ℕ} (h : Advanced w w' n) (hw : w.Fits) : w'.Fits := by
  refine ⟨?_,?_,?_⟩
  · rw [h.columns]
    exact hw.pos
  · rw [h.columns]
    exact hw.width
  · rw [h.columns,h.cursor]
    exact Position.offset_column_le _ _ hw.pos

lemma Advanced.trans {w'' : Writer} {m n : ℕ} (h : Advanced w w' m) (h' : Advanced w' w'' n)
    (hw : w.Fits) : Advanced w w'' (m+n) := by
  refine ⟨?_,h'.columns.trans h.columns,h'.color.trans h.color⟩
  rw [h'.cursor,h.cursor,h.columns,Position.offset_offset hw.column hw.pos]

/-- The writer once a pending wrap is resolved. -/
def resolved (w : Writer) : Writer :=
  if w.cursor.column = w.columns then w.followLive.newline else w.followLive

lemma resolved_cursor (w : Writer) : w.resolved.cursor = w.unrolled.landing := by
  unfold resolved Terminal.landing
  by_cases hwrap : w.cursor.column = w.columns
  · rw [if_pos hwrap,newline_cursor]
    exact (if_pos hwrap).symm
  · rw [if_neg hwrap]
    exact (if_neg hwrap).symm

lemma resolved_frame (w : Writer) :
    w.resolved.columns = w.columns ∧ w.resolved.color = w.color := by
  unfold resolved
  split_ifs
  · exact ⟨newline_columns _,by simp [newline,followLive]⟩
  · exact ⟨rfl,rfl⟩

/-- A byte that is stored moves the cursor by one cell. -/
lemma putByte_advances (hw : w.Fits) (byte : UInt8) :
    ∃ w', w.putByte byte = some w' ∧ Advanced w w' 1 ∧ w'.JustStored byte := by
  have hstored : w.putByte byte = w.resolved.putCell ⟨glyph byte,w.resolved.color⟩ := rfl
  have hlanding := Terminal.landing_column (t := w.unrolled) hw.pos hw.column
  obtain ⟨hcolumns,hcolor⟩ := w.resolved_frame
  have hroom : w.resolved.cursor.column < bufferWidth := by
    rw [resolved_cursor]
    exact hlanding.trans_le hw.width
  rw [hstored,putCell_eq hroom]
  refine ⟨_,rfl,⟨?_,hcolumns,hcolor⟩,⟨w.resolved.cursor.column,rfl,?_⟩⟩
  · have hcursor : (w.unrolled.putByte byte).cursor =
        ⟨w.unrolled.landing.line,w.unrolled.landing.column+1⟩ := by
      rw [Terminal.putByte_eq]
      rfl
    rw [Terminal.putByte_cursor hw.pos hw.column,← resolved_cursor] at hcursor
    exact hcursor.symm
  · rw [RingBuffer.read_write_self]
    exact Vector.getElem?_set_self hroom

/-- Writing text moves the cursor by as many cells as it has bytes. -/
lemma writeBytes_advances {bytes : List UInt8} (hb : ∀ byte ∈ bytes, IsCell byte) (hw : w.Fits) :
    ∃ w', writeBytes bytes w = some w' ∧ Advanced w w' bytes.length ∧
      ∀ byte, bytes.getLast? = some byte → w'.JustStored byte := by
  induction bytes generalizing w with
  | nil => exact ⟨w,rfl,⟨(Position.offset_zero hw.column).symm,rfl,rfl⟩,nofun⟩
  | cons byte bytes ih =>
    obtain ⟨⟨h10,h13,h9⟩,hrest⟩ := List.forall_mem_cons.mp hb
    obtain ⟨v,hput,hadvanced,hstored⟩ := putByte_advances hw byte
    obtain ⟨u,hwrite,hadvanced',hstored'⟩ := ih hrest (hadvanced.fits hw)
    have hbyte : w.writeByte byte = some v := by
      rw [writeByte,if_neg h10,if_neg h13,if_neg h9,hput]
    refine ⟨u,by rw [writeBytes,hbyte,Option.bind_some,hwrite],?_,fun last hlast => ?_⟩
    · rw [List.length_cons,Nat.add_comm]
      exact hadvanced.trans hadvanced' hw
    · cases bytes with
      | nil =>
        cases hwrite
        cases hlast
        exact hstored
      | cons next rest => exact hstored' last hlast

lemma putSpaces_advances (n : ℕ) (hw : w.Fits) :
    ∃ w', putSpaces n w = some w' ∧ Advanced w w' n := by
  induction n generalizing w with
  | zero => exact ⟨w,rfl,(Position.offset_zero hw.column).symm,rfl,rfl⟩
  | succ n ih =>
    obtain ⟨v,hput,hadvanced,-⟩ := putByte_advances hw 32
    obtain ⟨u,hspaces,hadvanced'⟩ := ih (hadvanced.fits hw)
    refine ⟨u,by rw [putSpaces,hput,Option.bind_some,hspaces],?_⟩
    rw [Nat.add_comm]
    exact hadvanced.trans hadvanced' hw

/-- A redraw leaves the cursor where the closed form says. -/
lemma replaceInput_moves {anchor : Position} {text : String} (h : Printable text)
    (hw : Fits { w with cursor := anchor }) (hline : w.firstLine ≤ anchor.line) {cursor : ℕ}
    (hcursor : cursor ≤ (textBytes text).length) (oldLen : ℕ) :
    ∃ w', w.replaceInput anchor text cursor oldLen = some w' ∧
      w'.cursor = anchor.offset cursor w.columns := by
  obtain ⟨v,hwrite,hadvanced,-⟩ := writeBytes_advances (fun _ => h.isCell) hw
  obtain ⟨u,hspaces,hadvanced'⟩ := putSpaces_advances (oldLen-text.utf8ByteSize) (hadvanced.fits hw)
  have hstring : writeString { w with cursor := anchor } text = some v := hwrite
  have hguard : w.firstLine ≤ anchor.line ∧ isAscii text ∧ cursor ≤ text.utf8ByteSize := by
    rw [h.byteSize]
    exact ⟨hline,h.isAscii,hcursor⟩
  have hredraw : w.replaceInput anchor text cursor oldLen =
      some ({ u with cursor := anchor.offset cursor u.columns }.ensureLine
        (anchor.offset cursor u.columns).line) := by
    rw [replaceInput,if_pos hguard,hstring,Option.bind_some,hspaces,Option.bind_some]
  refine ⟨_,hredraw,?_⟩
  rw [ensureLine_cursor,hadvanced'.columns,hadvanced.columns]

/-- The closed form is where writing the text byte by byte ends, pending wraps included: in the row
the last byte was stored in. A newline after a redraw with the cursor at the end of the text goes
to the row below that one. -/
theorem offset_is_written {anchor : Position} (hpos : 1 ≤ w.columns) (hwidth : w.columns ≤ bufferWidth)
    (hcolumn : anchor.column ≤ w.columns) {text : String} (h : Printable text) :
    ∃ w', writeBytes (textBytes text) { w with cursor := anchor } = some w' ∧
      w'.cursor = anchor.offset (textBytes text).length w.columns ∧
      (∀ byte, (textBytes text).getLast? = some byte → w'.JustStored byte) ∧
      ∀ oldLen, w.firstLine ≤ anchor.line → ∃ redrawn below,
        w.replaceInput anchor text (textBytes text).length oldLen = some redrawn ∧
        redrawn.writeByte 10 = some below ∧ below.cursor = ⟨w'.cursor.line+1,0⟩ := by
  have hfits : Fits { w with cursor := anchor } := ⟨hpos,hwidth,hcolumn⟩
  obtain ⟨w',hwrite,hadvanced,hstored⟩ := writeBytes_advances (fun _ => h.isCell) hfits
  refine ⟨w',hwrite,hadvanced.cursor,hstored,fun oldLen hline => ?_⟩
  obtain ⟨redrawn,hredraw,hcursor⟩ := replaceInput_moves h hfits hline le_rfl oldLen
  refine ⟨redrawn,redrawn.newline,hredraw,rfl,?_⟩
  rw [newline_cursor,hcursor,hadvanced.cursor]

/-- Eight bytes from a pending wrap on fill two rows of four; the newline goes to the third. -/
theorem offset_is_written_two_rows :
    ∃ w', writeBytes (textBytes "abcdefgh") { new with columns := 4, cursor := ⟨0,4⟩ } = some w' ∧
      w'.cursor = ⟨2,4⟩ ∧ ∃ redrawn below,
        { new with columns := 4 }.replaceInput ⟨0,4⟩ "abcdefgh" 8 0 = some redrawn ∧
        redrawn.writeByte 10 = some below ∧ below.cursor = ⟨3,0⟩ := by
  have hcolumn : (⟨0,4⟩ : Position).column ≤ { new with columns := 4 }.columns := by decide
  obtain ⟨w',hwrite,hcursor,-,hbelow⟩ := offset_is_written (by decide) (by decide) hcolumn
    (show Printable "abcdefgh" by decide)
  have hposition : w'.cursor = ⟨2,4⟩ := hcursor.trans (by decide)
  obtain ⟨redrawn,below,hredraw,hnewline,hline⟩ := hbelow 0 (by decide)
  refine ⟨w',hwrite,hposition,redrawn,below,hredraw,hnewline,?_⟩
  rw [hline,hposition]

end Writer
end CrabOs.Vga
