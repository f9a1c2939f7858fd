import CrabOs.Foundations.Painting
import CrabOs.Vga.Refinement

/-! The frame of the text-mode desktop, cell by cell. Every cell also records which part of the
desktop was drawn there last. -/
namespace CrabOs.Vga
open Painting

def screenCells : ℕ := bufferHeight*bufferWidth

/-- The parts of a window `draw_window` tells apart. -/
inductive Part
  | title
  | close
  | body
  deriving DecidableEq

inductive Layer
  | backdrop
  | window (index : Fin 2) (part : Part)
  | pointer
  deriving DecidableEq

/-- The pointer leaves the record of what is below it. -/
def Layer.onto : Layer → Layer → Layer
  | .pointer,old => old
  | new,_ => new

/-- `layer` is not in the source; it only records who drew the cell. -/
structure Pixel where
  char : ScreenChar
  layer : Layer
  deriving DecidableEq

abbrev Frame := Vector Pixel screenCells

/-- Draw a character as part of a layer. -/
def Pixel.draw (layer : Layer) (char : ScreenChar) (old : Pixel) : Pixel :=
  ⟨char,layer.onto old.layer⟩

/-- A place on the screen. -/
@[ext] structure Spot where
  row : ℕ
  col : ℕ
  row_lt : row < bufferHeight
  col_lt : col < bufferWidth

namespace Spot

def index (s : Spot) : ℕ := s.row*bufferWidth+s.col

lemma index_lt (s : Spot) : s.index < screenCells := by
  have hrow := s.row_lt
  have hcol := s.col_lt
  simp only [index,screenCells,bufferHeight,bufferWidth] at *
  omega

lemma index_inj {s t : Spot} (h : s.index = t.index) : s = t := by
  have hs := s.col_lt
  have ht := t.col_lt
  simp only [index,bufferWidth] at *
  apply Spot.ext
  · omega
  · omega

end Spot

namespace Frame

def pixel (frame : Frame) (s : Spot) : Pixel :=
  have := s.index_lt
  frame[s.index]

/-- An index outside the frame aborts. -/
def modify (index : ℕ) (f : Pixel → Pixel) (frame : Frame) : Option Frame :=
  if h : index < screenCells then some (frame.set index (f frame[index]) h) else none

lemma modify_paints (s : Spot) (f : Pixel → Pixel) :
    Paints pixel (modify s.index f) (stamp {s} fun _ => f) := by
  intro frame
  refine ⟨_,dif_pos s.index_lt,fun t => ?_⟩
  by_cases h : t = s
  · subst h
    rw [stamp_of (Set.mem_singleton t)]
    exact Vector.getElem_set_self _
  · rw [stamp_of_not (Set.notMem_singleton_iff.mpr h)]
    have hne : s.index ≠ t.index := fun he => h (Spot.index_inj he).symm
    exact Vector.getElem_set_ne _ _ hne

/-- `frame.fill(..)`. -/
def fill (pixel : Pixel) (_ : Frame) : Option Frame := some (Vector.replicate screenCells pixel)

lemma fill_paints (p : Pixel) : Paints pixel (fill p) (fun _ _ => p) := by
  intro frame
  refine ⟨_,rfl,fun s => ?_⟩
  simp [pixel]

end Frame

/-- The bytes of a text literal. -/
def literal (text : String) : List UInt8 := text.toList.map charByte

/-- A text is cut off at the right edge of the screen. -/
def drawCell (layer : Layer) (row : ℕ) :
    ℕ → List UInt8 → Color → Color → Frame → Option Frame
  | _,[],_,_,frame => some frame
  | col,byte :: text,foreground,background,frame =>
    if bufferWidth ≤ col then some frame
    else (Frame.modify (row*bufferWidth+col)
      (Pixel.draw layer ⟨byte,colorCode foreground background⟩) frame).bind
        (drawCell layer row (col+1) text foreground background)

/-- The places of a row from a column on. -/
def span (row col length : ℕ) : Set Spot := {s | s.row = row ∧ col ≤ s.col ∧ s.col < col+length}

theorem drawCell_paints (layer : Layer) {row : ℕ} (hrow : row < bufferHeight) (col : ℕ)
    (text : List UInt8) (foreground background : Color) :
    Paints Frame.pixel (drawCell layer row col text foreground background)
      (stamp (span row col text.length) fun s =>
        Pixel.draw layer ⟨text.getD (s.col-col) 0,colorCode foreground background⟩) := by
  induction text generalizing col with
  | nil =>
    intro frame
    refine ⟨frame,rfl,fun s => ?_⟩
    rw [stamp_of_not]
    rintro ⟨-,hlow,hhigh⟩
    rw [List.length_nil] at hhigh
    omega
  | cons byte text ih =>
    by_cases hcol : bufferWidth ≤ col
    · intro frame
      refine ⟨frame,if_pos hcol,fun s => ?_⟩
      rw [stamp_of_not]
      rintro ⟨-,hlow,-⟩
      have := s.col_lt
      omega
    · have hfirst := Frame.modify_paints ⟨row,col,hrow,not_le.mp hcol⟩
        (Pixel.draw layer ⟨byte,colorCode foreground background⟩)
      have hpaints := hfirst.andThen (ih (col+1))
      have hregion : span row col (byte :: text).length =
          {⟨row,col,hrow,not_le.mp hcol⟩} ∪ span row (col+1) text.length := by
        ext s
        simp only [span,List.length_cons,Set.mem_ofPred_eq,Set.mem_union,Set.mem_singleton_iff,
          Spot.ext_iff]
        omega
      rw [hregion,← stamp_stamp]
      · intro frame
        obtain ⟨frame',hdraw,hpixel⟩ := hpaints frame
        refine ⟨frame',?_,hpixel⟩
        rw [drawCell,if_neg hcol]
        exact hdraw
      · rintro s a rfl -
        simp
      · rintro s a ⟨-,hlow,-⟩
        have hspot : s ∉ ({⟨row,col,hrow,not_le.mp hcol⟩} : Set Spot) := by
          rintro rfl
          exact absurd hlow (Nat.not_succ_le_self col)
        rw [stamp_of_not hspot,show s.col-col = s.col-(col+1)+1 by omega,List.getD_cons_succ]

/-- A text that belongs to a window. -/
lemma drawText_paints (index : Fin 2) (part : Part) {row : ℕ} (hrow : row < bufferHeight) (col : ℕ)
    {text : List UInt8} {length : ℕ} (hlength : text.length = length)
    (foreground background : Color) :
    Paints Frame.pixel (drawCell (.window index part) row col text foreground background)
      (stamp (span row col length) fun s _ =>
        ⟨⟨text.getD (s.col-col) 0,colorCode foreground background⟩,.window index part⟩) := by
  subst hlength
  exact drawCell_paints (.window index part) hrow col text foreground background

/-- One blank cell that belongs to a window. -/
lemma drawSpace_paints (index : Fin 2) (part : Part) {row : ℕ} (hrow : row < bufferHeight)
    (col : ℕ) (foreground background : Color) :
    Paints Frame.pixel (drawCell (.window index part) row col (literal " ") foreground background)
      (stamp (span row col 1) fun _ _ =>
        ⟨⟨32,colorCode foreground background⟩,.window index part⟩) := by
  have hlength : (literal " ").length = 1 := rfl
  refine (drawText_paints index part hrow col hlength foreground background).restate _
    (fun _ => .rfl) ?_
  rintro s a ⟨-,hlow,hhigh⟩
  rw [show s.col-col = 0 by omega]
  rfl

/-! ### Windows -/

def windowTitle (index : Fin 2) : List UInt8 :=
  if index.val = 0 then literal " Terminal 1 - crabsh " else literal " Terminal 2 - crabsh "

def drawWindow (x y width : ℕ) (index active : Fin 2) : Frame → Option Frame :=
  let titleBackground := if active = index then Color.cyan else .darkGray
  inOrder [
    loop (fun col => inOrder [
      drawCell (.window index .title) y (x+col) (literal " ") .white titleBackground,
      drawCell (.window index .body) (y+19) (x+col) (literal " ") .white .darkGray]) width,
    loop (fun k => inOrder [
      drawCell (.window index .body) (y+(k+1)) x (literal " ") .white .darkGray,
      drawCell (.window index .body) (y+(k+1)) (x+width-1) (literal " ") .white .darkGray,
      loop (fun j => inOrder [
        drawCell (.window index .body) (y+(k+1)) (x+(j+1)) (literal " ") .lightGray .black])
        (width-2)]) 18,
    drawCell (.window index .title) y (x+1) (windowTitle index) .white titleBackground,
    drawCell (.window index .close) y (x+width-4) (literal "[x]") .white .red,
    drawCell (.window index .body) (y+19) (x+2) (literal " crabsh / PS/2 ") .lightGray .darkGray]

/-- The character of an empty window at an offset from its corner. -/
def windowChar (width : ℕ) (index active : Fin 2) (row col : ℕ) : ScreenChar :=
  let titleBackground := if active = index then Color.cyan else .darkGray
  if row = 0 then
    if width-4 ≤ col ∧ col < width-1 then ⟨(literal "[x]").getD (col-(width-4)) 0,
      colorCode .white .red⟩
    else if 1 ≤ col ∧ col < 22 then ⟨(windowTitle index).getD (col-1) 0,
      colorCode .white titleBackground⟩
    else ⟨32,colorCode .white titleBackground⟩
  else if row = 19 then
    if 2 ≤ col ∧ col < 17 then ⟨(literal " crabsh / PS/2 ").getD (col-2) 0,
      colorCode .lightGray .darkGray⟩
    else ⟨32,colorCode .white .darkGray⟩
  else if col = 0 ∨ col = width-1 then ⟨32,colorCode .white .darkGray⟩
  else blank

def windowPart (width row col : ℕ) : Part :=
  if row = 0 then if width-4 ≤ col ∧ col < width-1 then .close else .title else .body

/-- What an empty window shows at a place. -/
def windowPixel (x y width : ℕ) (index active : Fin 2) (s : Spot) : Pixel :=
  ⟨windowChar width index active (s.row-y) (s.col-x),
    .window index (windowPart width (s.row-y) (s.col-x))⟩

/-- What the top and the bottom row show before any text is drawn. -/
def edgePixel (y : ℕ) (index : Fin 2) (titleBackground : Color) (s : Spot) : Pixel :=
  if s.row = y then ⟨⟨32,colorCode .white titleBackground⟩,.window index .title⟩
  else ⟨⟨32,colorCode .white .darkGray⟩,.window index .body⟩

/-- What a row between them shows. -/
def rowPixel (x width : ℕ) (index : Fin 2) (s : Spot) : Pixel :=
  if s.col = x ∨ s.col = x+width-1 then ⟨⟨32,colorCode .white .darkGray⟩,.window index .body⟩
  else ⟨blank,.window index .body⟩

/-- The places a window takes up. -/
def area (x y width : ℕ) : Set Spot :=
  {s | y ≤ s.row ∧ s.row < y+20 ∧ x ≤ s.col ∧ s.col < x+width}

section Parts
variable {x y width : ℕ} (index : Fin 2) (hy : y+20 ≤ bufferHeight)
include hy

/-- The loop that draws the top and the bottom row. -/
lemma drawEdges_paints (titleBackground : Color) :
    Paints Frame.pixel (loop (fun col => inOrder [
        drawCell (.window index .title) y (x+col) (literal " ") .white titleBackground,
        drawCell (.window index .body) (y+19) (x+col) (literal " ") .white .darkGray]) width)
      (stamp {s | (s.row = y ∨ s.row = y+19) ∧ x ≤ s.col ∧ s.col < x+width} fun s _ =>
        edgePixel y index titleBackground s) := by
  have hround : ∀ col < width, Paints Frame.pixel (inOrder [
        drawCell (.window index .title) y (x+col) (literal " ") .white titleBackground,
        drawCell (.window index .body) (y+19) (x+col) (literal " ") .white .darkGray])
      (stamp (span y (x+col) 1 ∪ span (y+19) (x+col) 1) fun s _ =>
        edgePixel y index titleBackground s) := by
    intro col _
    refine (drawSpace_paints index .title (by omega) _ _ _).below
      ((drawSpace_paints index .body (by omega) _ _ _).restate _ (fun _ => .rfl) ?_).single
      (fun _ _ _ => rfl) ?_
    · rintro s a ⟨hrow,-⟩
      rw [edgePixel,if_neg (by omega)]
    · rintro s a ⟨hrow,-⟩ -
      rw [edgePixel,if_pos hrow]
  refine (Paints.loop hround fun _ _ => rfl).restate _ ?_ fun _ _ _ => rfl
  intro s
  simp only [span,Set.mem_ofPred_eq,Set.mem_union]
  constructor
  · rintro ⟨hrow,hcol,hcol'⟩
    exact ⟨s.col-x,by omega,by omega⟩
  · rintro ⟨k,hk,h⟩
    omega

/-- The loop that draws the inside of a row. -/
lemma drawInside_paints (x width : ℕ) {row : ℕ} (hrow : row < 20) :
    Paints Frame.pixel (loop (fun j => inOrder [
        drawCell (.window index .body) (y+row) (x+(j+1)) (literal " ") .lightGray .black]) (width-2))
      (stamp {s | s.row = y+row ∧ x < s.col ∧ s.col+1 < x+width} fun _ _ =>
        ⟨blank,.window index .body⟩) := by
  have hround : ∀ j < width-2, Paints Frame.pixel (inOrder [
        drawCell (.window index .body) (y+row) (x+(j+1)) (literal " ") .lightGray .black])
      (stamp (span (y+row) (x+(j+1)) 1) fun _ _ => ⟨blank,.window index .body⟩) :=
    fun j _ => (drawSpace_paints index .body (by omega) _ _ _).single
  refine (Paints.loop hround fun _ _ => rfl).restate _ ?_ fun _ _ _ => rfl
  intro s
  simp only [span,Set.mem_ofPred_eq]
  constructor
  · rintro ⟨hs,hcol,hcol'⟩
    exact ⟨s.col-x-1,by omega,by omega⟩
  · rintro ⟨k,hk,h⟩
    omega

/-- A row between the edges: its two borders, then the inside. -/
lemma drawRow_paints (x : ℕ) (hwidth : 2 ≤ width) {row : ℕ} (hrow : row < 20) :
    Paints Frame.pixel (inOrder [
        drawCell (.window index .body) (y+row) x (literal " ") .white .darkGray,
        drawCell (.window index .body) (y+row) (x+width-1) (literal " ") .white .darkGray,
        loop (fun j => inOrder [
          drawCell (.window index .body) (y+row) (x+(j+1)) (literal " ") .lightGray .black])
          (width-2)])
      (stamp (span (y+row) x width) fun s _ => rowPixel x width index s) := by
  let pixel : Spot → Pixel → Pixel := fun s _ => rowPixel x width index s
  have hbottom : y+row < bufferHeight := by omega
  have hborder : ∀ col, col = x ∨ col = x+width-1 → ∀ s a, s ∈ span (y+row) col 1 →
      (⟨⟨32,colorCode .white .darkGray⟩,.window index .body⟩ : Pixel) = pixel s a := by
    rintro col hedge s a ⟨-,hcol,hcol'⟩
    exact (if_pos (by omega)).symm
  have hinside := (drawInside_paints index hy x width hrow).restate pixel (fun _ => .rfl) (by
    rintro s a ⟨-,hcol,hcol'⟩
    exact (if_neg (by omega)).symm)
  have hright := (drawSpace_paints index .body hbottom (x+width-1) .white .darkGray).below
    hinside.single (fun _ _ _ => rfl) fun s a hs _ => hborder _ (.inr rfl) s a hs
  refine ((drawSpace_paints index .body hbottom x .white .darkGray).below hright
    (fun _ _ _ => rfl) fun s a hs _ => hborder _ (.inl rfl) s a hs).restate _ ?_ fun _ _ _ => rfl
  intro s
  simp only [span,Set.mem_union,Set.mem_ofPred_eq]
  omega

/-- The loop that draws the rows between the edges. -/
lemma drawRows_paints (hwidth : 2 ≤ width) :
    Paints Frame.pixel (loop (fun k => inOrder [
        drawCell (.window index .body) (y+(k+1)) x (literal " ") .white .darkGray,
        drawCell (.window index .body) (y+(k+1)) (x+width-1) (literal " ") .white .darkGray,
        loop (fun j => inOrder [
          drawCell (.window index .body) (y+(k+1)) (x+(j+1)) (literal " ") .lightGray .black])
          (width-2)]) 18)
      (stamp {s | y < s.row ∧ s.row < y+19 ∧ x ≤ s.col ∧ s.col < x+width} fun s _ =>
        rowPixel x width index s) := by
  refine (Paints.loop (fun k _ => drawRow_paints index hy x hwidth (by omega))
    fun _ _ => rfl).restate _ ?_ fun _ _ _ => rfl
  intro s
  simp only [span,Set.mem_ofPred_eq]
  constructor
  · rintro ⟨hrow,hrow',hcol,hcol'⟩
    exact ⟨s.row-y-1,by omega,by omega⟩
  · rintro ⟨k,hk,h⟩
    omega

end Parts

lemma length_windowTitle (index : Fin 2) : (windowTitle index).length = 21 := by
  unfold windowTitle
  split_ifs
  · rfl
  · rfl

section Pixels
variable {x y width : ℕ} (index active : Fin 2) {s : Spot}

lemma windowPixel_status (h : s ∈ span (y+19) (x+2) 15) : windowPixel x y width index active s =
    ⟨⟨(literal " crabsh / PS/2 ").getD (s.col-(x+2)) 0,colorCode .lightGray .darkGray⟩,
      .window index .body⟩ := by
  obtain ⟨hrow,hcol,hcol'⟩ := h
  unfold windowPixel windowChar windowPart
  rw [show s.row-y = 19 by omega,if_neg (by decide),if_pos rfl,if_pos (by omega),
    if_neg (by decide),Nat.sub_sub]

lemma windowPixel_close (hwidth : 4 ≤ width) (h : s ∈ span y (x+width-4) 3) :
    windowPixel x y width index active s =
      ⟨⟨(literal "[x]").getD (s.col-(x+width-4)) 0,colorCode .white .red⟩,
        .window index .close⟩ := by
  obtain ⟨hrow,hcol,hcol'⟩ := h
  have hclose : width-4 ≤ s.col-x ∧ s.col-x < width-1 := by omega
  unfold windowPixel windowChar windowPart
  rw [show s.row-y = 0 by omega,if_pos rfl,if_pos hclose,if_pos rfl,if_pos hclose,
    show s.col-x-(width-4) = s.col-(x+width-4) by omega]

lemma windowPixel_title (hwidth : 26 ≤ width) (h : s ∈ span y (x+1) 21) :
    windowPixel x y width index active s = ⟨⟨(windowTitle index).getD (s.col-(x+1)) 0,
      colorCode .white (if active = index then .cyan else .darkGray)⟩,.window index .title⟩ := by
  obtain ⟨hrow,hcol,hcol'⟩ := h
  have hclose : ¬(width-4 ≤ s.col-x ∧ s.col-x < width-1) := by omega
  unfold windowPixel windowChar windowPart
  rw [show s.row-y = 0 by omega,if_pos rfl,if_neg hclose,if_pos (by omega),if_pos rfl,
    if_neg hclose,Nat.sub_sub]

lemma windowPixel_row (h : y < s.row ∧ s.row < y+19 ∧ x ≤ s.col ∧ s.col < x+width) :
    windowPixel x y width index active s = rowPixel x width index s := by
  obtain ⟨hrow,hrow',hcol,hcol'⟩ := h
  have hborder : (s.col-x = 0 ∨ s.col-x = width-1) ↔ (s.col = x ∨ s.col = x+width-1) := by omega
  have hfirst : ¬s.row-y = 0 := by omega
  have hlast : ¬s.row-y = 19 := by omega
  simp only [windowPixel,windowChar,windowPart,rowPixel,hfirst,hlast,hborder,if_false]
  split_ifs
  · rfl
  · rfl

/-- The cells of the two edges no text is drawn over. -/
lemma windowPixel_edge (h : (s.row = y ∨ s.row = y+19) ∧ x ≤ s.col ∧ s.col < x+width)
    (htitle : s ∉ span y (x+1) 21) (hclose : s ∉ span y (x+width-4) 3)
    (hstatus : s ∉ span (y+19) (x+2) 15) (hwidth : 4 ≤ width) :
    windowPixel x y width index active s =
      edgePixel y index (if active = index then .cyan else .darkGray) s := by
  simp only [span,Set.mem_ofPred_eq] at htitle hclose hstatus
  by_cases hrow : s.row = y
  · have hfirst : s.row-y = 0 := by omega
    have hclose' : ¬(width-4 ≤ s.col-x ∧ s.col-x < width-1) := by omega
    have htitle' : ¬(1 ≤ s.col-x ∧ s.col-x < 22) := by omega
    rw [edgePixel,if_pos hrow]
    simp only [windowPixel,windowChar,windowPart,hfirst,hclose',htitle',if_true,if_false]
  · have hlast : s.row-y = 19 := by omega
    have hstatus' : ¬(2 ≤ s.col-x ∧ s.col-x < 17) := by omega
    rw [edgePixel,if_neg hrow]
    simp [windowPixel,windowChar,windowPart,hlast,hstatus']

end Pixels

/-- `draw_window` fills its rectangle and touches nothing else. -/
theorem drawWindow_paints {x y width : ℕ} (index active : Fin 2) (hy : y+20 ≤ bufferHeight)
    (hwidth : 26 ≤ width) :
    Paints Frame.pixel (drawWindow x y width index active)
      (stamp (area x y width) fun s _ => windowPixel x y width index active s) := by
  have hlast : (literal " crabsh / PS/2 ").length = 15 := rfl
  have hthree : (literal "[x]").length = 3 := rfl
  have hbottom : y+19 < bufferHeight := by omega
  have htop : y < bufferHeight := by omega
  let pixel : Spot → Pixel → Pixel := fun s _ => windowPixel x y width index active s
  -- From the last text back to the first loop, each part is drawn below what follows it.
  have hstatus := ((drawText_paints index .body hbottom (x+2) hlast .lightGray .darkGray).restate
    pixel (fun _ => .rfl) fun s _ hs => (windowPixel_status index active hs).symm).single
  have hclose := (drawText_paints index .close htop (x+width-4) hthree .white .red).below hstatus
    (fun _ _ _ => rfl) fun s _ hs _ => (windowPixel_close index active (by omega) hs).symm
  have htitle := (drawText_paints index .title htop (x+1) (length_windowTitle index) .white
    (if active = index then .cyan else .darkGray)).below hclose (fun _ _ _ => rfl)
    fun s _ hs _ => (windowPixel_title index active hwidth hs).symm
  have hrows := (drawRows_paints index hy (by omega)).below htitle (fun _ _ _ => rfl)
    fun s _ hs _ => (windowPixel_row index active hs).symm
  refine ((drawEdges_paints index hy _).below hrows (fun _ _ _ => rfl) ?_).restate _ ?_
    fun _ _ _ => rfl
  · intro s _ hs hnot
    simp only [Set.mem_union,not_or] at hnot
    exact (windowPixel_edge index active hs hnot.2.1 hnot.2.2.1 hnot.2.2.2 (by omega)).symm
  · intro s
    simp only [area,span,Set.mem_union,Set.mem_ofPred_eq]
    omega

end CrabOs.Vga
