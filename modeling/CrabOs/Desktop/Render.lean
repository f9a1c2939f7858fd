import CrabOs.Desktop.Geometry
import CrabOs.Vga.Frame

/-! The frame `render_desktop_inner` composes: the backdrop, the two windows with their terminals,
the focused one last, the cursor and the pointer. -/
namespace CrabOs.Vga
open Painting

/-- Everything that is drawn before the windows. -/
def drawBackdrop : Frame → Option Frame := inOrder [
  Frame.fill ⟨⟨32,colorCode .lightBlue .blue⟩,.backdrop⟩,
  loop (fun k => loop (fun col => if (k+5+col) % 12 = 0 then
      drawCell .backdrop (k+5) col [0xfa] .lightBlue .blue
    else some) bufferWidth) 19,
  loop (fun col => inOrder [
    drawCell .backdrop 0 col (literal " ") .white .black,
    drawCell .backdrop 24 col (literal " ") .lightGray .black]) bufferWidth,
  drawCell .backdrop 0 2 (literal "C R A B O S") .lightCyan .black,
  drawCell .backdrop 0 58 (literal "DESKTOP / WORKSPACE 01") .lightGray .black,
  drawCell .backdrop 1 4 (literal " +----+ ") .lightCyan .blue,
  drawCell .backdrop 2 4 (literal " | >_ | ") .white .black,
  drawCell .backdrop 3 3 (literal " Terminal ") .white .blue,
  drawCell .backdrop 10 29 (literal "C R A B O S") .white .blue,
  drawCell .backdrop 12 24 (literal "A little shell. A lot of possibility.") .lightCyan .blue,
  drawCell .backdrop 15 24 (literal "Click Terminal to get started") .lightGray .blue,
  drawCell .backdrop 24 2 (literal "Terminal: click icon / Ctrl+Q") .lightCyan .black,
  drawCell .backdrop 24 38 (literal "Drag title to move   [x] / Ctrl+C: close") .lightGray .black]

/-- One line of a terminal. -/
def drawLine (x y width : ℕ) (index : Fin 2) (terminal : Writer) (row : ℕ) : Frame → Option Frame :=
  loop (fun col frame => ((RingBuffer.read terminal.lines (terminal.viewTop+row))[col]?).bind
    fun char => Frame.modify ((y+2+row)*bufferWidth+x+1+col)
      (Pixel.draw (.window index .body) char) frame) (width-2)

/-- The lines of a terminal that are in view. -/
def drawLines (x y width : ℕ) (index : Fin 2) (terminal : Writer) : Frame → Option Frame :=
  loop (fun row => if terminal.viewTop+row ≤ terminal.lastLine then
      drawLine x y width index terminal row
    else some) terminalRows

def Pixel.highlight (pixel : Pixel) : Pixel :=
  { pixel with char := { pixel.char with colorCode := colorCode .black .lightGray } }

/-- The cursor of a terminal, while its line is in view. -/
def drawCursor (x y width : ℕ) (terminal : Writer) : Frame → Option Frame :=
  if terminal.viewTop ≤ terminal.cursor.line ∧
      terminal.cursor.line-terminal.viewTop < terminalRows then
    Frame.modify ((y+2+(terminal.cursor.line-terminal.viewTop))*bufferWidth+x+1+
      min terminal.cursor.column (width-3)) Pixel.highlight
  else some

/-! ### What each pass does -/

lemma drawBackdropCell_keeps {row : ℕ} (hrow : row < bufferHeight) (col : ℕ) (text : List UInt8)
    (foreground background : Color) :
    Keeps Frame.pixel (fun pixel => pixel.layer = .backdrop)
      (drawCell .backdrop row col text foreground background) := by
  refine ⟨_,drawCell_paints .backdrop hrow col text foreground background,fun s a ha => ?_⟩
  unfold stamp
  split_ifs
  · rfl
  · exact ha

/-- The backdrop does not depend on what was on the screen, and belongs to no window. -/
theorem drawBackdrop_paints : ∃ backdrop : Spot → Pixel,
    Paints Frame.pixel drawBackdrop (fun s _ => backdrop s) ∧
      ∀ s, (backdrop s).layer = .backdrop := by
  refine Keeps.picture (fun pixel => pixel.layer = .backdrop)
    (Frame.fill_paints ⟨⟨32,colorCode .lightBlue .blue⟩,.backdrop⟩) (fun _ => rfl) ?_
  simp only [List.mem_cons,List.not_mem_nil,or_false,forall_eq_or_imp,forall_eq]
  refine ⟨Keeps.loop fun k hk => Keeps.loop fun col _ => ?_,Keeps.loop fun col _ =>
    Keeps.inOrder ?_,?_,?_,?_,?_,?_,?_,?_,?_,?_,?_⟩
  · split_ifs
    · exact drawBackdropCell_keeps (show k+5 < 25 by omega) _ _ _ _
    · exact Keeps.skip
  · simp only [List.mem_cons,List.not_mem_nil,or_false,forall_eq_or_imp,forall_eq]
    exact ⟨drawBackdropCell_keeps (by decide) _ _ _ _,drawBackdropCell_keeps (by decide) _ _ _ _⟩
  all_goals exact drawBackdropCell_keeps (by decide) _ _ _ _

/-! The text of a terminal. -/

/-- The character the ring holds at a place of a logical line. -/
def Writer.shown (w : Writer) (line col : ℕ) : ScreenChar :=
  ((RingBuffer.read w.lines line)[col]?).getD blank

section Lines
variable {x y width : ℕ} (index : Fin 2) (terminal : Writer) (hx : x+width ≤ bufferWidth)
  (hy : y+20 ≤ bufferHeight)
include hx hy

lemma drawLine_paints {row : ℕ} (hrow : row < terminalRows) :
    Paints Frame.pixel (drawLine x y width index terminal row)
      (stamp {s | s.row = y+2+row ∧ x < s.col ∧ s.col+1 < x+width} fun s _ =>
        ⟨terminal.shown (terminal.viewTop+row) (s.col-(x+1)),.window index .body⟩) := by
  simp only [terminalRows,bufferWidth,bufferHeight] at hrow hx hy
  have hround : ∀ col < width-2, Paints Frame.pixel
      (fun frame => ((RingBuffer.read terminal.lines (terminal.viewTop+row))[col]?).bind
        fun char => Frame.modify ((y+2+row)*bufferWidth+x+1+col)
          (Pixel.draw (.window index .body) char) frame)
      (stamp {s | s.row = y+2+row ∧ s.col = x+1+col} fun s _ =>
        ⟨terminal.shown (terminal.viewTop+row) (s.col-(x+1)),.window index .body⟩) := by
    intro col hcol
    have hchar : (RingBuffer.read terminal.lines (terminal.viewTop+row))[col]? =
        some (terminal.shown (terminal.viewTop+row) col) := by
      have hlt : col < bufferWidth := by
        unfold bufferWidth
        omega
      simp [Writer.shown,hlt]
    have hspot : (y+2+row)*bufferWidth+x+1+col = (y+2+row)*bufferWidth+(x+1+col) := by omega
    simp only [hchar,Option.bind_some,hspot]
    refine (Frame.modify_paints ⟨y+2+row,x+1+col,by unfold bufferHeight; omega,
      by unfold bufferWidth; omega⟩ _).restate _ ?_ ?_
    · intro s
      simp only [Set.mem_ofPred_eq,Set.mem_singleton_iff,Spot.ext_iff]
    · rintro s a rfl
      simp [Pixel.draw,Layer.onto]
  refine (Paints.loop hround fun _ _ => rfl).restate _ ?_ fun _ _ _ => rfl
  intro s
  simp only [Set.mem_ofPred_eq]
  constructor
  · rintro ⟨hs,hcol,hcol'⟩
    exact ⟨s.col-x-1,by omega,by omega⟩
  · rintro ⟨k,hk,h⟩
    omega

/-- The text area of a window, as far as the lines in view exist. -/
def textArea (x y width : ℕ) (terminal : Writer) : Set Spot :=
  {s | y+2 ≤ s.row ∧ s.row < y+2+terminalRows ∧ x < s.col ∧ s.col+1 < x+width ∧
    terminal.viewTop+(s.row-(y+2)) ≤ terminal.lastLine}

def textPixel (x y : ℕ) (index : Fin 2) (terminal : Writer) (s : Spot) : Pixel :=
  ⟨terminal.shown (terminal.viewTop+(s.row-(y+2))) (s.col-(x+1)),.window index .body⟩

lemma drawLines_paints : Paints Frame.pixel (drawLines x y width index terminal)
    (stamp (textArea x y width terminal) fun s _ => textPixel x y index terminal s) := by
  have hround : ∀ row < terminalRows, Paints Frame.pixel
      (if terminal.viewTop+row ≤ terminal.lastLine then drawLine x y width index terminal row
        else some)
      (stamp {s | (s.row = y+2+row ∧ x < s.col ∧ s.col+1 < x+width) ∧
        terminal.viewTop+row ≤ terminal.lastLine} fun s _ => textPixel x y index terminal s) := by
    intro row hrow
    by_cases hline : terminal.viewTop+row ≤ terminal.lastLine
    · rw [if_pos hline]
      refine (drawLine_paints index terminal hx hy hrow).restate _ ?_ ?_
      · exact fun s => ⟨fun h => h.1,fun h => ⟨h,hline⟩⟩
      · rintro s a ⟨hs,-⟩
        rw [textPixel,show s.row-(y+2) = row by omega]
    · rw [if_neg hline]
      intro frame
      refine ⟨frame,rfl,fun s => ?_⟩
      rw [stamp_of_not fun h => hline h.2]
  refine (Paints.loop hround fun _ _ => rfl).restate _ ?_ fun _ _ _ => rfl
  intro s
  simp only [textArea,Set.mem_ofPred_eq]
  constructor
  · rintro ⟨hrow,hrow',hcol,hcol',hline⟩
    exact ⟨s.row-(y+2),by omega,⟨by omega,hcol,hcol'⟩,hline⟩
  · rintro ⟨k,hk,⟨hrow,hcol,hcol'⟩,hline⟩
    rw [show s.row-(y+2) = k by omega]
    exact ⟨by omega,by omega,hcol,hcol',hline⟩

end Lines

section Content
variable {x y width : ℕ} (index active : Fin 2) (terminal : Writer)

/-- A window with the text of its terminal. -/
noncomputable def contentPixel (x y width : ℕ) (index active : Fin 2) (terminal : Writer)
    (s : Spot) : Pixel :=
  stamp (textArea x y width terminal) (fun s _ => textPixel x y index terminal s) s
    (windowPixel x y width index active s)

theorem drawContent_paints (hx : x+width ≤ bufferWidth) (hy : y+20 ≤ bufferHeight)
    (hwidth : 26 ≤ width) :
    Paints Frame.pixel (inOrder [drawWindow x y width index active,
        drawLines x y width index terminal])
      (stamp (area x y width) fun s _ => contentPixel x y width index active terminal s) := by
  have hpaints := (drawWindow_paints (x := x) index active hy hwidth).cons
    (drawLines_paints index terminal hx hy).single
  have hpatch : (fun s a => stamp (textArea x y width terminal)
        (fun s _ => textPixel x y index terminal s) s
        (stamp (area x y width) (fun s _ => windowPixel x y width index active s) s a)) =
      stamp (area x y width ∪ textArea x y width terminal)
        fun s _ => contentPixel x y width index active terminal s := by
    apply stamp_stamp
    · intro s _ _ hs
      exact (stamp_of_not hs _).symm
    · intro s _ hs
      rw [contentPixel,stamp_of hs]
  have hunion : area x y width ∪ textArea x y width terminal = area x y width := by
    apply Set.union_eq_left.mpr
    rintro s ⟨hrow,hrow',hcol,hcol',-⟩
    simp only [terminalRows] at hrow'
    exact ⟨by omega,by omega,by omega,by omega⟩
  rw [hpatch,hunion] at hpaints
  exact hpaints

/-- The text area shows the lines in view, and blanks where there is no line. -/
lemma contentPixel_text {row col : ℕ} {s : Spot} (hrow : row < terminalRows) (hcol : col+2 < width)
    (hsrow : s.row = y+2+row) (hscol : s.col = x+1+col) :
    (contentPixel x y width index active terminal s).char =
      if terminal.viewTop+row ≤ terminal.lastLine then terminal.shown (terminal.viewTop+row) col
      else blank := by
  simp only [terminalRows] at hrow
  have hoffset : s.row-(y+2) = row ∧ s.col-(x+1) = col := by omega
  unfold contentPixel
  by_cases hline : terminal.viewTop+row ≤ terminal.lastLine
  · have hs : s ∈ textArea x y width terminal := by
      refine ⟨by omega,by simp only [terminalRows]; omega,by omega,by omega,?_⟩
      rw [hoffset.1]
      exact hline
    rw [stamp_of hs,if_pos hline,textPixel,hoffset.1,hoffset.2]
  · have hs : s ∉ textArea x y width terminal := by
      rintro ⟨-,-,-,-,hline'⟩
      rw [hoffset.1] at hline'
      exact hline hline'
    rw [stamp_of_not hs,if_neg hline,windowPixel_row index active (by omega),rowPixel,
      if_neg (by omega)]

lemma contentPixel_close {k : ℕ} {s : Spot} (hwidth : 4 ≤ width) (hk : k < 3) (hrow : s.row = y)
    (hcol : s.col+4 = x+width+k) : (contentPixel x y width index active terminal s).char =
      ⟨(literal "[x]").getD k 0,colorCode .white .red⟩ := by
  have hs : s ∉ textArea x y width terminal := by
    intro h
    have := h.1
    omega
  rw [contentPixel,stamp_of_not hs,windowPixel_close index active hwidth ⟨hrow,by omega,by omega⟩,
    show s.col-(x+width-4) = k by omega]

/-- The text belongs to the body of the window. -/
lemma contentPixel_layer (s : Spot) : (contentPixel x y width index active terminal s).layer =
    .window index (windowPart width (s.row-y) (s.col-x)) := by
  unfold contentPixel
  by_cases hs : s ∈ textArea x y width terminal
  · have hrow : s.row-y ≠ 0 := by
      have := hs.1
      omega
    rw [stamp_of hs,textPixel,windowPart,if_neg hrow]
  · rw [stamp_of_not hs]
    rfl

end Content

/-- Where the cursor cell of a window is, when its line is in view. -/
def AtCursor (x y width : ℕ) (terminal : Writer) (s : Spot) : Prop :=
  terminal.viewTop ≤ terminal.cursor.line ∧
    terminal.cursor.line-terminal.viewTop < terminalRows ∧
    s.row = y+2+(terminal.cursor.line-terminal.viewTop) ∧
    s.col = x+1+min terminal.cursor.column (width-3)

lemma drawCursor_paints {x y width : ℕ} (terminal : Writer) (hx : x+width ≤ bufferWidth)
    (hy : y+20 ≤ bufferHeight) (hwidth : 3 ≤ width) :
    Paints Frame.pixel (drawCursor x y width terminal)
      (stamp {s | AtCursor x y width terminal s} fun _ => Pixel.highlight) := by
  simp only [bufferWidth,bufferHeight] at hx hy
  unfold drawCursor
  by_cases hview : terminal.viewTop ≤ terminal.cursor.line ∧
      terminal.cursor.line-terminal.viewTop < terminalRows
  · rw [if_pos hview]
    have hrow := hview.2
    simp only [terminalRows] at hrow
    have hcol := min_le_right terminal.cursor.column (width-3)
    rw [show (y+2+(terminal.cursor.line-terminal.viewTop))*bufferWidth+x+1+
        min terminal.cursor.column (width-3) =
      (y+2+(terminal.cursor.line-terminal.viewTop))*bufferWidth+
        (x+1+min terminal.cursor.column (width-3)) by omega]
    refine (Frame.modify_paints ⟨y+2+(terminal.cursor.line-terminal.viewTop),
      x+1+min terminal.cursor.column (width-3),by unfold bufferHeight; omega,
      by unfold bufferWidth; omega⟩ Pixel.highlight).restate _ ?_ fun _ _ _ => rfl
    intro s
    simp only [AtCursor,Set.mem_ofPred_eq,Set.mem_singleton_iff,Spot.ext_iff]
    exact ⟨fun h => h.2.2,fun h => ⟨hview.1,hview.2,h⟩⟩
  · rw [if_neg hview]
    intro frame
    refine ⟨frame,rfl,fun s => ?_⟩
    rw [stamp_of_not fun h => hview ⟨h.1,h.2.1⟩]

end CrabOs.Vga

namespace CrabOs
open Vga Painting

/-- `value as usize`. -/
def asUsize (value : ℤ) : ℕ := (value % 2^64).toNat

namespace Desktop

def drawTerminal (d : Desktop) (terminals : Fin 2 → Writer) (index : Fin 2) :
    Frame → Option Frame :=
  match d.layout index with
  | none => some
  | some r => inOrder [
      drawWindow (asUsize r.x) (asUsize r.y) (asUsize r.width) index d.active,
      drawLines (asUsize r.x) (asUsize r.y) (asUsize r.width) index (terminals index)]

def highlightCursor (d : Desktop) (terminals : Fin 2 → Writer) : Frame → Option Frame :=
  match d.layout d.active with
  | none => some
  | some r => drawCursor (asUsize r.x) (asUsize r.y) (asUsize r.width) (terminals d.active)

/-- `render_desktop_inner` up to where the frame is copied to the screen. -/
def renderDesktop (d : Desktop) (terminals : Fin 2 → Writer) : Frame → Option Frame := inOrder [
  drawBackdrop,
  d.drawTerminal terminals (otherTerminal d.active),
  d.drawTerminal terminals d.active,
  d.highlightCursor terminals,
  drawCell .pointer (asUsize d.pointerY) (asUsize d.pointerX) (literal "+") .white .blue]

end Desktop
end CrabOs
