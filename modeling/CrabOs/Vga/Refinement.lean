import CrabOs.Vga.Terminal

/-! The scrollback ring refines the unbounded terminal: every logical line still in the ring
shows what the reference terminal shows on that line. -/
namespace CrabOs.Vga
namespace Writer

/-- The stored cell of a logical line. -/
def cell (w : Writer) (l : ℕ) (c : Fin bufferWidth) : ScreenChar :=
  (RingBuffer.read w.lines l)[c]

/-- The two terminals agree on everything but where the cursor and the view may stand. -/
structure Tracks (w : Writer) (t : Terminal) : Prop where
  cursor : t.cursor = w.cursor
  last : t.lastLine = w.lastLine
  color : t.color = w.color
  columns : t.columns = w.columns
  first : w.firstLine = w.lastLine-(scrollbackLines-1)
  width_pos : 0 < w.columns
  width_le : w.columns ≤ bufferWidth
  rows : ∀ l, w.firstLine ≤ l → l ≤ w.lastLine → ∀ c, w.cell l c = t.lines l c
  beyond : ∀ l, w.lastLine < l → ∀ c, t.lines l c = blank

/-- The cursor and the view stand on lines of the ring. -/
structure InBounds (w : Writer) : Prop where
  line_low : w.firstLine ≤ w.cursor.line
  line_high : w.cursor.line ≤ w.lastLine
  column : w.cursor.column ≤ w.columns
  view_low : w.firstLine ≤ w.viewTop
  view_high : w.viewTop ≤ w.liveTop

structure Mirrors (w : Writer) (t : Terminal) : Prop extends Tracks w t, InBounds w

/-- The unbounded terminal that shows what the ring holds. -/
def unrolled (w : Writer) : Terminal :=
  ⟨fun l c => if h : c < bufferWidth then if l ≤ w.lastLine then w.cell l ⟨c,h⟩ else blank
    else blank,w.cursor,w.lastLine,w.color,w.columns⟩

/-- Mirroring asks nothing of the rows: what a ring in bounds holds is what some terminal shows. -/
theorem InBounds.mirrors {w : Writer} (h : w.InBounds)
    (hfirst : w.firstLine = w.lastLine-(scrollbackLines-1)) (hpos : 0 < w.columns)
    (hle : w.columns ≤ bufferWidth) : w.Mirrors w.unrolled := by
  refine ⟨⟨rfl,rfl,rfl,rfl,hfirst,hpos,hle,?_,?_⟩,h⟩
  · intro l _ hlast c
    simp only [unrolled,c.isLt,hlast,dif_pos,if_pos]
  · intro l hlast c
    have hnot : ¬l ≤ w.lastLine := Nat.not_le.mpr hlast
    simp [unrolled,hnot]

@[simp] lemma cell_clear (w : Writer) (l : ℕ) (c : Fin bufferWidth) : w.clear.cell l c = blank := by
  simp [cell,clear,blankRow]

/-- Agreement on the rows of the ring from a given line on. -/
def RowsFrom (w : Writer) (t : Terminal) (low : ℕ) : Prop :=
  ∀ l, low ≤ l → l ≤ w.lastLine → ∀ c, w.cell l c = t.lines l c

/-- A recycled row is one that has left the window. -/
lemma appendLine_rows {w : Writer} {t : Terminal} {low high : ℕ} (h : RowsFrom w t low)
    (hle : low ≤ high) (hwindow : w.lastLine+1 < high+scrollbackLines)
    (hbeyond : ∀ c, t.lines (w.lastLine+1) c = blank) : RowsFrom w.appendLine t high := by
  intro l hl hlast c
  change l ≤ w.lastLine+1 at hlast
  rcases Nat.lt_or_ge w.lastLine l with hnew | hold
  · obtain rfl : l = w.lastLine+1 := by omega
    simp [cell,appendLine,blankRow,hbeyond]
  · rw [← h l (by omega) hold c]
    have hs := NeZero.pos scrollbackLines
    exact congrArg (fun row : Row => row[c]) (RingBuffer.read_write_of_slot_ne _ _
      (RingBuffer.slot_ne (i := l) (by omega) (by omega)).symm)

lemma appendLines_lastLine (n : ℕ) (w : Writer) : (appendLines n w).lastLine = w.lastLine+n := by
  induction n generalizing w with
  | zero => rfl
  | succ n ih => rw [appendLines,ih]; simp only [appendLine]; omega

lemma appendLines_rows (n : ℕ) {w : Writer} {t : Terminal} {low : ℕ} (h : RowsFrom w t low)
    (hwindow : w.lastLine < low+scrollbackLines)
    (hbeyond : ∀ l, w.lastLine < l → ∀ c, t.lines l c = blank) :
    RowsFrom (appendLines n w) t (max low (w.lastLine+n-(scrollbackLines-1))) := by
  induction n generalizing w low with
  | zero => exact fun l hl hlast c => h l (by omega) hlast c
  | succ n ih =>
    have hs := NeZero.pos scrollbackLines
    have hrows : RowsFrom w.appendLine t (max low (w.lastLine+1-(scrollbackLines-1))) :=
      appendLine_rows h (le_max_left _ _) (by omega) (hbeyond _ (by omega))
    have hstep := ih hrows (by simp only [appendLine]; omega)
      (fun l hl => hbeyond l (by simp only [appendLine] at hl; omega))
    intro l hl hlast c
    exact hstep l (by simp only [appendLine]; omega) hlast c

lemma appendLines_frame (n : ℕ) (w : Writer) :
    (appendLines n w).cursor = w.cursor ∧ (appendLines n w).color = w.color ∧
      (appendLines n w).columns = w.columns := by
  induction n generalizing w with
  | zero => exact ⟨rfl,rfl,rfl⟩
  | succ n ih => exact ih w.appendLine

@[simp] lemma ensureLine_lastLine (w : Writer) (n : ℕ) :
    (w.ensureLine n).lastLine = max w.lastLine n := by
  simp only [ensureLine,appendLines_lastLine]
  omega

@[simp] lemma ensureLine_cursor (w : Writer) (n : ℕ) : (w.ensureLine n).cursor = w.cursor := by
  simp only [ensureLine,appendLines_frame]

@[simp] lemma ensureLine_color (w : Writer) (n : ℕ) : (w.ensureLine n).color = w.color := by
  simp only [ensureLine,appendLines_frame]

@[simp] lemma ensureLine_columns (w : Writer) (n : ℕ) : (w.ensureLine n).columns = w.columns := by
  simp only [ensureLine,appendLines_frame]

lemma ensureLine_firstLine (w : Writer) (n : ℕ) :
    (w.ensureLine n).firstLine = max w.lastLine n-(scrollbackLines-1) := by
  rw [← ensureLine_lastLine]
  simp only [ensureLine]

lemma ensureLine_viewTop (w : Writer) (n : ℕ) :
    (w.ensureLine n).viewTop = (w.ensureLine n).liveTop := by
  simp only [ensureLine,liveTop]

lemma ensureLine_cell (w : Writer) (n l : ℕ) (c : Fin bufferWidth) :
    (w.ensureLine n).cell l c = (appendLines (n-w.lastLine) w).cell l c := by
  simp only [ensureLine,cell]

/-- Growing the ring keeps every surviving row. -/
theorem Tracks.ensureLine {w : Writer} {t : Terminal} (h : Tracks w t) (n : ℕ) :
    Tracks (w.ensureLine n) (t.ensureLine n) := by
  have hs := NeZero.pos scrollbackLines
  have hfirst := h.first
  constructor
  · simpa [Terminal.ensureLine] using h.cursor
  · simp [Terminal.ensureLine,h.last]
  · simpa [Terminal.ensureLine] using h.color
  · simpa [Terminal.ensureLine] using h.columns
  · rw [ensureLine_lastLine,ensureLine_firstLine]
  · simpa using h.width_pos
  · simpa using h.width_le
  · intro l hl hlast c
    rw [ensureLine_firstLine] at hl
    rw [ensureLine_lastLine] at hlast
    rw [ensureLine_cell]
    exact appendLines_rows (n-w.lastLine) h.rows (by omega) h.beyond l (by omega)
      (by rw [appendLines_lastLine]; omega) c
  · intro l hl c
    rw [ensureLine_lastLine] at hl
    exact h.beyond l (by omega) c

theorem Tracks.followLive {w : Writer} {t : Terminal} (h : Tracks w t) : Tracks w.followLive t :=
  ⟨h.cursor,h.last,h.color,h.columns,h.first,h.width_pos,h.width_le,h.rows,h.beyond⟩

theorem Tracks.moveTo {w : Writer} {t : Terminal} (h : Tracks w t) (p : Position) :
    Tracks { w with cursor := p } (t.moveTo p) :=
  ⟨rfl,h.last,h.color,h.columns,h.first,h.width_pos,h.width_le,h.rows,h.beyond⟩

lemma liveTop_bounds {w : Writer} {t : Terminal} (h : Tracks w t) : w.firstLine ≤ w.liveTop := by
  have := h.first
  simp only [liveTop,scrollbackLines,terminalRows] at *
  omega

theorem Mirrors.followLive {w : Writer} {t : Terminal} (h : Mirrors w t) :
    Mirrors w.followLive t :=
  ⟨h.toTracks.followLive,h.line_low,h.line_high,h.column,
    liveTop_bounds h.toTracks.followLive,le_rfl⟩

/-- After growing to its cursor line the console is back in bounds. -/
theorem Tracks.settle {w : Writer} {t : Terminal} (h : Tracks w t)
    (hfirst : max w.lastLine w.cursor.line ≤ w.cursor.line+(scrollbackLines-1))
    (hcolumn : w.cursor.column ≤ w.columns) :
    Mirrors (w.ensureLine w.cursor.line) (t.ensureLine w.cursor.line) := by
  have htracks := h.ensureLine w.cursor.line
  refine ⟨htracks,?_,?_,?_,?_,?_⟩
  · rw [ensureLine_firstLine,ensureLine_cursor]; omega
  · rw [ensureLine_lastLine,ensureLine_cursor]; exact le_max_right _ _
  · simpa using hcolumn
  · rw [ensureLine_viewTop]; exact liveTop_bounds htracks
  · rw [ensureLine_viewTop]

@[simp] lemma newline_cursor (w : Writer) : w.newline.cursor = ⟨w.cursor.line+1,0⟩ := by
  simp [newline]

@[simp] lemma newline_columns (w : Writer) : w.newline.columns = w.columns := by
  simp [newline,followLive]

theorem Mirrors.newline {w : Writer} {t : Terminal} (h : Mirrors w t) :
    Mirrors w.newline t.newline := by
  have hlow := h.line_low
  have hfirst := h.first
  have hmoved := h.toTracks.followLive.moveTo ⟨w.cursor.line+1,0⟩
  rw [Terminal.newline,h.cursor]
  apply hmoved.settle
  · simp only [Writer.followLive,scrollbackLines] at *
    omega
  · exact Nat.zero_le _

theorem Mirrors.carriageReturn {w : Writer} {t : Terminal} (h : Mirrors w t) :
    Mirrors w.carriageReturn t.carriageReturn := by
  rw [Terminal.carriageReturn,h.cursor]
  have hmoved := h.toTracks.followLive.moveTo ⟨w.cursor.line,0⟩
  exact ⟨hmoved,h.line_low,h.line_high,Nat.zero_le _,liveTop_bounds hmoved,le_rfl⟩

/-- Storing a cell changes that cell of the cursor's row and no other. -/
lemma putCell_eq {w : Writer} (h : w.cursor.column < bufferWidth) (x : ScreenChar) :
    w.putCell x = some { w with
      lines := RingBuffer.write w.lines w.cursor.line
        ((RingBuffer.read w.lines w.cursor.line).set w.cursor.column x h)
      cursor := ⟨w.cursor.line,w.cursor.column+1⟩ } := by
  simp [putCell,h]

theorem Mirrors.putCell {w : Writer} {t : Terminal} (h : Mirrors w t)
    (hcolumn : w.cursor.column < w.columns) (x : ScreenChar) :
    ∃ w', w.putCell x = some w' ∧ Mirrors w' (t.putCell x) := by
  have hwidth : w.cursor.column < bufferWidth := lt_of_lt_of_le hcolumn h.width_le
  refine ⟨_,putCell_eq hwidth x,⟨?_,h.last,h.color,h.columns,h.first,h.width_pos,h.width_le,
    ?_,?_⟩,h.line_low,h.line_high,hcolumn,h.view_low,h.view_high⟩
  · simp [Terminal.putCell,h.cursor]
  · intro l hl hlast c
    change w.firstLine ≤ l at hl
    change l ≤ w.lastLine at hlast
    have hrow := h.rows l hl hlast c
    have hfirst := h.first
    have hlow := h.line_low
    have hhigh := h.line_high
    simp only [Terminal.putCell,h.cursor]
    by_cases he : w.cursor.line = l
    · subst he
      simp only [cell,RingBuffer.read_write_self,Fin.getElem_fin,Vector.getElem_set] at *
      simp [hrow,eq_comm]
    · rw [if_neg (fun hh => he hh.1.symm),← hrow]
      simp only [scrollbackLines] at hfirst
      exact congrArg (fun row : Row => row[c])
        (RingBuffer.read_write_of_window _ _ _ hlow (by simp only [scrollbackLines]; omega) hl
          (by simp only [scrollbackLines]; omega) he)
  · intro l hl c
    have hhigh := h.line_high
    change w.lastLine < l at hl
    simp only [Terminal.putCell,h.cursor]
    rw [if_neg (fun hh => by omega)]
    exact h.beyond l hl c

theorem Mirrors.putByte {w : Writer} {t : Terminal} (h : Mirrors w t) (b : UInt8) :
    ∃ w', w.putByte b = some w' ∧ Mirrors w' (t.putByte b) := by
  have hlive := h.followLive
  unfold Writer.putByte Terminal.putByte
  rw [hlive.cursor,hlive.columns]
  by_cases hwrap : w.followLive.cursor.column = w.followLive.columns
  · have hnew := hlive.newline
    simp only [hwrap,if_true]
    rw [← hnew.color]
    exact hnew.putCell (by simpa using hlive.width_pos) _
  · simp only [hwrap,if_false]
    rw [← hlive.color]
    exact hlive.putCell (lt_of_le_of_ne hlive.column hwrap) _

theorem Mirrors.putSpaces (n : ℕ) {w : Writer} {t : Terminal} (h : Mirrors w t) :
    ∃ w', putSpaces n w = some w' ∧ Mirrors w' (Terminal.putSpaces n t) := by
  induction n generalizing w t with
  | zero => exact ⟨w,rfl,h⟩
  | succ n ih =>
    obtain ⟨w',hw',hm⟩ := h.putByte 32
    obtain ⟨v,hv,hm'⟩ := ih hm
    exact ⟨v,by simp [Writer.putSpaces,hw',hv],hm'⟩

theorem Mirrors.writeByte {w : Writer} {t : Terminal} (h : Mirrors w t) (b : UInt8) :
    ∃ w', w.writeByte b = some w' ∧ Mirrors w' (t.writeByte b) := by
  unfold Writer.writeByte Terminal.writeByte
  split_ifs
  · exact ⟨_,rfl,h.newline⟩
  · exact ⟨_,rfl,h.carriageReturn⟩
  · rw [h.cursor]
    exact h.followLive.putSpaces _
  · exact h.putByte b

theorem Mirrors.writeBytes (bs : List UInt8) {w : Writer} {t : Terminal} (h : Mirrors w t) :
    ∃ w', writeBytes bs w = some w' ∧ Mirrors w' (Terminal.writeBytes bs t) := by
  induction bs generalizing w t with
  | nil => exact ⟨w,rfl,h⟩
  | cons b bs ih =>
    obtain ⟨w',hw',hm⟩ := h.writeByte b
    obtain ⟨v,hv,hm'⟩ := ih hm
    exact ⟨v,by simp [Writer.writeBytes,hw',hv],hm'⟩

theorem Mirrors.writeString {w : Writer} {t : Terminal} (h : Mirrors w t) (text : String) :
    ∃ w', w.writeString text = some w' ∧ Mirrors w' (t.writeString text) :=
  h.writeBytes _

theorem Mirrors.setColor {w : Writer} {t : Terminal} (h : Mirrors w t) (f b : Color) :
    Mirrors (w.setColor f b) (t.setColor f b) :=
  ⟨⟨h.cursor,h.last,rfl,h.columns,h.first,h.width_pos,h.width_le,h.rows,h.beyond⟩,
    h.line_low,h.line_high,h.column,h.view_low,h.view_high⟩

/-- Clearing needs nothing of the old contents, only a legal width. -/
theorem mirrors_clear {w : Writer} {t : Terminal} (hcolumns : t.columns = w.columns)
    (hpos : 0 < w.columns) (hle : w.columns ≤ bufferWidth) : Mirrors w.clear t.clear := by
  refine ⟨⟨rfl,rfl,rfl,hcolumns,?_,hpos,hle,fun l _ _ c => cell_clear w l c,fun _ _ _ => rfl⟩,
    le_rfl,le_rfl,Nat.zero_le _,le_rfl,Nat.zero_le _⟩
  simp [Writer.clear]

theorem mirrors_new : Mirrors new Terminal.new :=
  mirrors_clear (w := new) (t := Terminal.new) rfl (by decide) (by decide)

theorem Mirrors.clear {w : Writer} {t : Terminal} (h : Mirrors w t) : Mirrors w.clear t.clear :=
  mirrors_clear h.columns h.width_pos h.width_le

theorem Mirrors.scrollUp {w : Writer} {t : Terminal} (h : Mirrors w t) : Mirrors w.scrollUp t := by
  have hlive := liveTop_bounds h.toTracks
  have hhigh := h.view_high
  refine ⟨⟨h.cursor,h.last,h.color,h.columns,h.first,h.width_pos,h.width_le,h.rows,h.beyond⟩,
    h.line_low,h.line_high,h.column,le_max_right _ _,?_⟩
  change max (w.viewTop-(terminalRows-1)) w.firstLine ≤ w.liveTop
  omega

theorem Mirrors.scrollDown {w : Writer} {t : Terminal} (h : Mirrors w t) :
    Mirrors w.scrollDown t := by
  have hlive := liveTop_bounds h.toTracks
  have hlow := h.view_low
  refine ⟨⟨h.cursor,h.last,h.color,h.columns,h.first,h.width_pos,h.width_le,h.rows,h.beyond⟩,
    h.line_low,h.line_high,h.column,?_,min_le_right _ _⟩
  change w.firstLine ≤ min (w.viewTop+terminalRows-1) w.liveTop
  simp only [terminalRows]
  omega

/-- A redraw of bounded input keeps its anchor in the ring. -/
theorem Mirrors.replaceInput {w : Writer} {t : Terminal} (h : Mirrors w t) {anchor : Position}
    {text : String} {cursor oldLen : ℕ} (htext : Printable text)
    (hlen : (textBytes text).length ≤ 256) (hcursor : cursor ≤ (textBytes text).length)
    (hold : oldLen ≤ 256) (hwide : 36 ≤ w.columns) (hlow : w.firstLine ≤ anchor.line)
    (hhigh : anchor.line ≤ w.lastLine) (hcolumn : anchor.column ≤ w.columns) :
    ∃ w', w.replaceInput anchor text cursor oldLen = some w' ∧
      Mirrors w' (t.replaceInput anchor text cursor oldLen) := by
  have hmoved : Mirrors { w with cursor := anchor } (t.moveTo anchor) :=
    ⟨h.toTracks.moveTo anchor,hlow,hhigh,hcolumn,h.view_low,h.view_high⟩
  obtain ⟨v,hv,hmv⟩ := hmoved.writeString text
  obtain ⟨u,hu,hmu⟩ := hmv.putSpaces (oldLen-text.utf8ByteSize)
  have hcolumns : u.columns = t.columns := by
    rw [← hmu.columns]
    simp [Terminal.writeString]
  have hpos : 0 < t.columns := by rw [h.columns]; exact h.width_pos
  have hac : anchor.column ≤ t.columns := by rw [h.columns]; exact hcolumn
  have hlast : u.lastLine ≤ max w.lastLine (anchor.line+8) := by
    have hgrow := Terminal.replaceInput_lastLine oldLen htext hpos hac
      (by rw [h.last]; exact hhigh) hcursor
    have hle := Position.offset_line_le anchor (max (textBytes text).length oldLen) t.columns
    have hdiv : (anchor.column+max (textBytes text).length oldLen)/t.columns ≤ 8 := by
      apply Nat.le_of_lt_succ
      rw [Nat.div_lt_iff_lt_mul hpos,h.columns]
      omega
    have hu' : u.lastLine ≤ (t.replaceInput anchor text cursor oldLen).lastLine := by
      rw [← hmu.last]
      exact le_max_left _ _
    rw [hgrow,h.last] at hu'
    omega
  have hoff := Position.line_le_offset anchor cursor hpos
  have hoff' := Position.offset_column_le anchor cursor hpos
  have hm := (hmu.toTracks.moveTo (anchor.offset cursor t.columns)).settle
    (by simp only [scrollbackLines]; have := h.first; simp only [scrollbackLines] at this; omega)
    (by simpa [hcolumns] using hoff')
  refine ⟨_,?_,hm⟩
  rw [Writer.replaceInput,if_pos ⟨hlow,htext.isAscii,by rw [htext.byteSize]; exact hcursor⟩,hv]
  simp [hu,hcolumns]

/-- The side conditions of an operation on a console that has handed out `anchors`. -/
def Permitted (w : Writer) (anchors : List Position) : WriterOp → Prop
  | .replaceInput anchor text cursor oldLen =>
    Printable text ∧ text.utf8ByteSize ≤ 256 ∧ cursor ≤ text.utf8ByteSize ∧ oldLen ≤ 256 ∧
      anchor ∈ anchors ∧ w.firstLine ≤ anchor.line
  | _ => True

/-- Clearing invalidates every position handed out before. -/
def anchorsAfter (anchors : List Position) : WriterOp → List Position
  | .clear => []
  | _ => anchors

/-- A console and the reference terminal run by the same calls. The list holds the positions
returned since the last clear; a width is only set together with a clear. -/
inductive Lockstep : Writer → Terminal → List Position → Prop
  | new : Lockstep Writer.new Terminal.new []
  | position {w t as} (h : Lockstep w t as) : Lockstep w t (w.position :: as)
  | apply {w w' t as} (op : WriterOp) (h : Lockstep w t as) (permitted : Permitted w as op)
      (result : w.apply op = some w') : Lockstep w' (t.apply op) (anchorsAfter as op)
  | resize {w w' t as} (columns : ℕ) (h : Lockstep w t as)
      (permitted : columns ∈ [36,72,76,80]) (result : w.setColumns columns = some w') :
      Lockstep w'.clear (t.setColumns columns).clear []

/-- Any permitted operation succeeds and keeps the two terminals together. -/
theorem Mirrors.apply {w : Writer} {t : Terminal} {as : List Position} (h : Mirrors w t)
    (hwide : 36 ≤ w.columns) (has : ∀ a ∈ as, a.line ≤ w.lastLine ∧ a.column ≤ w.columns)
    {op : WriterOp} (hop : Permitted w as op) :
    ∃ w', w.apply op = some w' ∧ Mirrors w' (t.apply op) := by
  cases op with
  | writeByte b => exact h.writeByte b
  | writeString text => exact h.writeString text
  | setColor f b => exact ⟨_,rfl,h.setColor f b⟩
  | clear => exact ⟨_,rfl,h.clear⟩
  | scrollUp => exact ⟨_,rfl,h.scrollUp⟩
  | scrollDown => exact ⟨_,rfl,h.scrollDown⟩
  | replaceInput anchor text cursor oldLen =>
    obtain ⟨htext,hlen,hcursor,hold,hmem,hlow⟩ := hop
    rw [htext.byteSize] at hlen hcursor
    obtain ⟨hhigh,hcolumn⟩ := has anchor hmem
    exact h.replaceInput htext hlen hcursor hold hwide hlow hhigh hcolumn

lemma setColumns_eq {w : Writer} {columns : ℕ} (h : columns ∈ [36,72,76,80]) :
    w.setColumns columns = some { w with columns := columns } := by
  rw [setColumns,if_pos]
  simp only [List.mem_cons,List.not_mem_nil,or_false] at h
  simp only [bufferWidth]
  omega

/-- The invariant carried along a run. -/
structure Kept (w : Writer) (t : Terminal) (as : List Position) : Prop where
  mirrors : Mirrors w t
  wide : 36 ≤ w.columns
  anchors : ∀ a ∈ as, a.line ≤ w.lastLine ∧ a.column ≤ w.columns

theorem Lockstep.kept {w : Writer} {t : Terminal} {as : List Position} (h : Lockstep w t as) :
    Kept w t as := by
  induction h with
  | new => exact ⟨mirrors_new,by decide,by simp⟩
  | @position w t as h ih =>
    refine ⟨ih.mirrors,ih.wide,?_⟩
    intro a ha
    rcases List.mem_cons.mp ha with rfl | ha
    · exact ⟨ih.mirrors.line_high,ih.mirrors.column⟩
    · exact ih.anchors a ha
  | @apply w w' t as op h permitted result ih =>
    obtain ⟨v,hv,hm⟩ := ih.mirrors.apply ih.wide ih.anchors permitted
    obtain rfl : v = w' := Option.some.inj (hv.symm.trans result)
    have hcolumns : v.columns = w.columns := by
      rw [← hm.columns,Terminal.apply_columns,ih.mirrors.columns]
    refine ⟨hm,hcolumns ▸ ih.wide,?_⟩
    by_cases hop : op = .clear
    · subst hop; simp [anchorsAfter]
    · have has : anchorsAfter as op = as := by cases op <;> simp_all [anchorsAfter]
      have hlast := t.lastLine_le_apply hop
      rw [hm.last,ih.mirrors.last] at hlast
      intro a ha
      obtain ⟨h1,h2⟩ := ih.anchors a (has ▸ ha)
      exact ⟨h1.trans hlast,hcolumns ▸ h2⟩
  | @resize w w' t as columns h permitted result ih =>
    rw [setColumns_eq permitted] at result
    cases result
    simp only [List.mem_cons,List.not_mem_nil,or_false] at permitted
    refine ⟨mirrors_clear rfl ?_ ?_,?_,by simp⟩
    · change 0 < columns; omega
    · change columns ≤ 80; omega
    · change 36 ≤ columns; omega

/-- Over any run of console calls the ring stays in bounds, no call aborts, and every line
still in the ring is the line of the unbounded terminal. -/
theorem scrollback_refines_terminal {w : Writer} {t : Terminal} {as : List Position}
    (h : Lockstep w t as) :
    w.firstLine = w.lastLine-127 ∧
    (w.firstLine ≤ w.cursor.line ∧ w.cursor.line ≤ w.lastLine) ∧
    w.cursor.column ≤ w.columns ∧
    (w.firstLine ≤ w.viewTop ∧ w.viewTop ≤ w.lastLine-15) ∧
    (∀ op, Permitted w as op → (w.apply op).isSome) ∧
    (∀ columns ∈ [36,72,76,80], (w.setColumns columns).isSome) ∧
    ∀ l, w.firstLine ≤ l → l ≤ w.lastLine → ∀ c, w.cell l c = t.lines l c := by
  have hk := h.kept
  have hm := hk.mirrors
  refine ⟨hm.first,⟨hm.line_low,hm.line_high⟩,hm.column,⟨hm.view_low,hm.view_high⟩,?_,?_,hm.rows⟩
  · intro op hop
    obtain ⟨w',hw',_⟩ := hm.apply hk.wide hk.anchors hop
    simp [hw']
  · intro columns hcolumns
    simp [setColumns_eq hcolumns]

/-- The refinement at a console whose redrawn input starts at a position it handed out. -/
theorem scrollback_refines_after_redraw : ∃ w t as, Lockstep w t as ∧ w.cursor = ⟨0,1⟩ ∧
    w.firstLine = w.lastLine-127 ∧
      ∀ l, w.firstLine ≤ l → l ≤ w.lastLine → ∀ c, w.cell l c = t.lines l c := by
  have hstart : Lockstep new Terminal.new [⟨0,0⟩] := .position .new
  have hprintable : Printable "hi" := by decide
  have hop : Permitted new [⟨0,0⟩] (.replaceInput ⟨0,0⟩ "hi" 1 5) :=
    ⟨hprintable,by decide,by decide,by decide,by simp,le_rfl⟩
  obtain ⟨w,hw,hm⟩ := mirrors_new.apply (by decide) hstart.kept.anchors hop
  have hrun := Lockstep.apply _ hstart hop hw
  have hcursor : w.cursor = ⟨0,1⟩ := by
    rw [← hm.cursor]
    exact Terminal.replaceInput_cursor hprintable
  have h := scrollback_refines_terminal hrun
  exact ⟨w,_,_,hrun,hcursor,h.1,h.2.2.2.2.2.2⟩

end Writer
end CrabOs.Vga
