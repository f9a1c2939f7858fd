import CrabOs.Desktop.Render

/-! What the composed frame shows: later passes win, and the places where they overlap follow from
the layout. -/
namespace CrabOs
open Vga Painting

lemma asUsize_cast (n : ℕ) (h : n < 2^64) : asUsize n = n := by
  unfold asUsize
  omega

/-- The rectangle takes up the place. -/
def Rect.Covers (r : Rect) (s : Spot) : Prop :=
  r.x ≤ s.col ∧ (s.col : ℤ) < r.x+r.width ∧ r.y ≤ s.row ∧ (s.row : ℤ) < r.y+Desktop.windowH

namespace Desktop

/-- Rectangles on the screen have natural coordinates. -/
lemma OnScreen.natural {r : Rect} (h : OnScreen r) (hwidth : 0 ≤ r.width) :
    ∃ x y width : ℕ, r = ⟨x,y,width⟩ ∧ x+width ≤ bufferWidth ∧ y+20 ≤ bufferHeight := by
  obtain ⟨hleft,hright,htop,hbottom⟩ := h
  obtain ⟨rx,ry,rwidth⟩ := r
  simp only [screenW,windowH] at *
  refine ⟨rx.toNat,ry.toNat,rwidth.toNat,?_,?_,?_⟩
  · rw [Rect.mk.injEq]
    omega
  · unfold bufferWidth
    omega
  · unfold bufferHeight
    omega

/-- The places of an open window. -/
def windowArea (d : Desktop) (index : Fin 2) : Set Spot :=
  {s | ∃ r, d.layout index = some r ∧ r.Covers s}

/-- The offsets of a place in the text area of a rectangle. -/
def InText (r : Rect) (row col : ℕ) (s : Spot) : Prop :=
  row < terminalRows ∧ (col : ℤ) < r.width-2 ∧ (s.row : ℤ) = r.y+2+row ∧ (s.col : ℤ) = r.x+1+col

/-- The cell of the text area the cursor of a terminal is drawn at. -/
def OnCursor (terminal : Writer) (width : ℤ) (row col : ℕ) : Prop :=
  terminal.viewTop+row = terminal.cursor.line ∧ (col : ℤ) = min (terminal.cursor.column : ℤ) (width-3)

/-- The cell of the pointer. -/
def pointerArea (d : Desktop) : Set Spot :=
  {s | (s.row : ℤ) = d.pointerY ∧ (s.col : ℤ) = d.pointerX}

/-- The cells of a rectangle the close button is drawn at. -/
def OnClose (r : Rect) (k : ℕ) (s : Spot) : Prop :=
  k < 3 ∧ (s.row : ℤ) = r.y ∧ (s.col : ℤ) = r.x+r.width-4+k

/-- What a window with its terminal shows at a place. -/
structure WindowShows (d : Desktop) (terminals : Fin 2 → Writer) (index : Fin 2)
    (picture : Spot → Pixel) : Prop where
  text : ∀ r row col s, d.layout index = some r → InText r row col s →
    (picture s).char = if (terminals index).viewTop+row ≤ (terminals index).lastLine then
      (terminals index).shown ((terminals index).viewTop+row) col else blank
  layer : ∀ r s, d.layout index = some r → r.Covers s → (picture s).layer =
    .window index (windowPart r.width.toNat ((s.row : ℤ)-r.y).toNat ((s.col : ℤ)-r.x).toNat)
  close : ∀ r k s, d.layout index = some r → OnClose r k s →
    (picture s).char = ⟨(literal "[x]").getD k 0,colorCode .white .red⟩

/-- An open window is drawn over its rectangle, a closed one nowhere. -/
theorem drawTerminal_paints {d : Desktop} (h : Valid d) (terminals : Fin 2 → Writer)
    (index : Fin 2) : ∃ picture : Spot → Pixel,
      Paints Frame.pixel (d.drawTerminal terminals index)
        (stamp (d.windowArea index) fun s _ => picture s) ∧
      WindowShows d terminals index picture := by
  unfold drawTerminal
  cases hr : d.layout index with
  | none =>
    refine ⟨fun _ => ⟨blank,.backdrop⟩,fun frame => ⟨frame,rfl,fun s => ?_⟩,?_,?_,?_⟩
    · rw [stamp_of_not]
      rintro ⟨r,hr',-⟩
      rw [hr] at hr'
      cases hr'
    · intro r row col s hr'
      rw [hr] at hr'
      cases hr'
    · intro r s hr'
      rw [hr] at hr'
      cases hr'
    · intro r k s hr'
      rw [hr] at hr'
      cases hr'
  | some r =>
    have hwidth := width_cases hr
    obtain ⟨x,y,width,rfl,hx,hy⟩ := (h.rects index r hr).natural (by omega)
    simp only [bufferWidth,bufferHeight] at hx hy hwidth
    simp only [asUsize_cast x (by omega),asUsize_cast y (by omega),asUsize_cast width (by omega)]
    refine ⟨contentPixel x y width index d.active (terminals index),?_,?_,?_,?_⟩
    · refine (drawContent_paints index d.active (terminals index) hx hy (by omega)).restate _ ?_
        fun _ _ _ => rfl
      intro s
      simp only [windowArea,hr,Option.some.injEq,exists_eq_left',Rect.Covers,windowH,area,
        Set.mem_ofPred_eq]
      omega
    · rintro r row col s hr' ⟨hrow,hcol,hsrow,hscol⟩
      rw [hr] at hr'
      cases hr'
      dsimp only at hcol hsrow hscol
      exact contentPixel_text index d.active (terminals index) hrow (by omega) (by omega) (by omega)
    · rintro r s hr' -
      rw [hr] at hr'
      cases hr'
      rw [contentPixel_layer]
      dsimp only
      rw [Int.toNat_natCast,Int.toNat_sub,Int.toNat_sub]
    · rintro r k s hr' ⟨hk,hsrow,hscol⟩
      rw [hr] at hr'
      cases hr'
      dsimp only at hsrow hscol
      exact contentPixel_close index d.active (terminals index) (by omega) hk (by omega) (by omega)

/-- The cells the cursor of the focused terminal is drawn at: one, or none. -/
def cursorArea (d : Desktop) (terminals : Fin 2 → Writer) : Set Spot :=
  {s | ∃ r row col, d.layout d.active = some r ∧ InText r row col s ∧
    OnCursor (terminals d.active) r.width row col}

lemma highlightCursor_paints {d : Desktop} (h : Valid d) (terminals : Fin 2 → Writer) :
    Paints Frame.pixel (d.highlightCursor terminals)
      (stamp (d.cursorArea terminals) fun _ => Pixel.highlight) := by
  unfold highlightCursor
  cases hr : d.layout d.active with
  | none =>
    intro frame
    refine ⟨frame,rfl,fun s => ?_⟩
    rw [stamp_of_not]
    rintro ⟨r,row,col,hr',-⟩
    rw [hr] at hr'
    cases hr'
  | some r =>
    have hwidth := width_cases hr
    obtain ⟨x,y,width,rfl,hx,hy⟩ := (h.rects d.active r hr).natural (by omega)
    dsimp only at hwidth
    have hx' : x+width ≤ 80 := hx
    have hy' : y+20 ≤ 25 := hy
    simp only [asUsize_cast x (by omega),asUsize_cast y (by omega),asUsize_cast width (by omega)]
    refine (drawCursor_paints (terminals d.active) hx hy (by omega)).restate _ ?_ fun _ _ _ => rfl
    intro s
    constructor
    · rintro ⟨r,row,col,hr',⟨hrow,hcol,hsrow,hscol⟩,hline,hcursor⟩
      rw [hr] at hr'
      cases hr'
      dsimp only at hcol hsrow hscol hcursor
      refine ⟨?_,?_,?_,?_⟩
      all_goals omega
    · rintro ⟨hview,hrow,hsrow,hscol⟩
      refine ⟨_,(terminals d.active).cursor.line-(terminals d.active).viewTop,
        min (terminals d.active).cursor.column (width-3),hr,⟨hrow,?_,?_,?_⟩,?_,?_⟩
      · dsimp only
        omega
      · dsimp only
        omega
      · dsimp only
        omega
      · omega
      · dsimp only
        omega

lemma drawPointer_paints {d : Desktop} (h : Valid d) :
    Paints Frame.pixel
      (drawCell .pointer (asUsize d.pointerY) (asUsize d.pointerX) (literal "+") .white .blue)
      (stamp d.pointerArea fun _ => Pixel.draw .pointer ⟨43,colorCode .white .blue⟩) := by
  obtain ⟨hx,hx'⟩ := h.pointerX
  obtain ⟨hy,hy'⟩ := h.pointerY
  simp only [screenW,screenH] at hx' hy'
  have hrow : asUsize d.pointerY < bufferHeight := by
    unfold asUsize bufferHeight
    omega
  refine (drawCell_paints .pointer hrow (asUsize d.pointerX) (literal "+") .white .blue).restate _
    ?_ ?_
  · intro s
    have hlength : (literal "+").length = 1 := rfl
    simp only [pointerArea,span,hlength,asUsize,Set.mem_ofPred_eq]
    omega
  · rintro s a ⟨-,hlow,hhigh⟩
    have hlength : (literal "+").length = 1 := rfl
    rw [show s.col-asUsize d.pointerX = 0 by omega]
    rfl

/-- The composed frame, pass by pass. -/
noncomputable def composed (d : Desktop) (terminals : Fin 2 → Writer) (backdrop : Spot → Pixel)
    (window : Fin 2 → Spot → Pixel) (s : Spot) : Pixel :=
  stamp d.pointerArea (fun _ => Pixel.draw .pointer ⟨43,colorCode .white .blue⟩) s
    (stamp (d.cursorArea terminals) (fun _ => Pixel.highlight) s
      (stamp (d.windowArea d.active) (fun s _ => window d.active s) s
        (stamp (d.windowArea (otherTerminal d.active))
          (fun s _ => window (otherTerminal d.active) s) s (backdrop s))))

/-- Nothing is drawn outside the frame, whatever the terminals are. -/
theorem renderDesktop_paints : ∃ backdrop : Spot → Pixel,
    (∀ s, (backdrop s).layer = .backdrop) ∧
    ∀ d, Valid d → ∀ terminals, ∃ window : Fin 2 → Spot → Pixel,
      (∀ index, WindowShows d terminals index (window index)) ∧
      Paints Frame.pixel (d.renderDesktop terminals)
        (fun s _ => composed d terminals backdrop window s) := by
  obtain ⟨backdrop,hbackdrop,hlayer⟩ := drawBackdrop_paints
  refine ⟨backdrop,hlayer,fun d h terminals => ?_⟩
  choose window hpaints hshows using drawTerminal_paints h terminals
  refine ⟨window,hshows,?_⟩
  exact hbackdrop.cons ((hpaints (otherTerminal d.active)).cons ((hpaints d.active).cons
    ((highlightCursor_paints h terminals).cons (drawPointer_paints h).single)))

/-- In every run of critical sections nothing overflows, the desktop stays valid, and every index
into the frame is in range whatever the terminals hold. -/
theorem desktop_stays_valid (events : List Event) :
    ∃ d, Runs.run step events initial = some d ∧ Valid d ∧
      ∀ terminals frame, (d.renderDesktop terminals frame).isSome := by
  obtain ⟨d,hrun,hsettled⟩ := settled_initial.run events
  refine ⟨d,hrun,hsettled.valid,fun terminals frame => ?_⟩
  obtain ⟨backdrop,-,hrender⟩ := renderDesktop_paints
  obtain ⟨window,-,hpaints⟩ := hrender d hsettled.valid terminals
  obtain ⟨frame',hframe,-⟩ := hpaints frame
  rw [hframe]
  rfl

/-! ### What the user sees -/

/-- The cell of the logical line in a row of the view. -/
def visibleChar (w : Writer) (t : Terminal) (row col : ℕ) : ScreenChar :=
  if w.viewTop+row ≤ w.lastLine then t.lines (w.viewTop+row) col else blank

/-- The frame shows the lines in view of the focused terminal, and those of the other one where
they are not covered; only the cursor of the focused terminal and the pointer are drawn over them.
Everywhere else the frame is the same for all terminals. -/
structure ShowsTerminals (d : Desktop) (w : Fin 2 → Writer) (t : Fin 2 → Terminal)
    (frame : Frame) : Prop where
  text : ∀ index r row col s, d.layout index = some r → InText r row col s →
    (index ≠ d.active → s ∉ d.windowArea d.active) → s ∉ d.pointerArea →
    ¬(index = d.active ∧ OnCursor (w index) r.width row col) →
    (frame.pixel s).char = visibleChar (w index) (t index) row col
  cursor : ∀ r row col s, d.layout d.active = some r → InText r row col s →
    OnCursor (w d.active) r.width row col → s ∉ d.pointerArea →
    (frame.pixel s).char = { visibleChar (w d.active) (t d.active) row col with
      colorCode := colorCode .black .lightGray }
  pointer : ∀ s, s ∈ d.pointerArea → (frame.pixel s).char = ⟨43,colorCode .white .blue⟩
  outside : ∀ s, (∀ index, s ∉ d.windowArea index) → s ∉ d.pointerArea →
    ∀ w' old frame', d.renderDesktop w' old = some frame' → frame'.pixel s = frame.pixel s

lemma InText.covers {r : Rect} {row col : ℕ} {s : Spot} (h : InText r row col s) : r.Covers s := by
  obtain ⟨hrow,hcol,hsrow,hscol⟩ := h
  simp only [terminalRows] at hrow
  unfold Rect.Covers windowH
  omega

lemma InText.unique {r : Rect} {row col row' col' : ℕ} {s : Spot} (h : InText r row col s)
    (h' : InText r row' col' s) : row = row' ∧ col = col' := by
  obtain ⟨-,-,hsrow,hscol⟩ := h
  obtain ⟨-,-,hsrow',hscol'⟩ := h'
  omega

lemma mem_cursorArea {d : Desktop} {terminals : Fin 2 → Writer} {r : Rect} {row col : ℕ} {s : Spot}
    (hr : d.layout d.active = some r) (hs : InText r row col s) :
    s ∈ d.cursorArea terminals ↔ OnCursor (terminals d.active) r.width row col := by
  constructor
  · rintro ⟨r',row',col',hr',hs',hcursor⟩
    rw [hr] at hr'
    cases hr'
    obtain ⟨rfl,rfl⟩ := hs.unique hs'
    exact hcursor
  · exact fun hcursor => ⟨r,row,col,hr,hs,hcursor⟩

lemma cursorArea_subset (d : Desktop) (terminals : Fin 2 → Writer) :
    d.cursorArea terminals ⊆ d.windowArea d.active := by
  rintro s ⟨r,row,col,hr,hs,-⟩
  exact ⟨r,hr,hs.covers⟩

/-- The ring holds what the reference terminal holds on every line in view. -/
lemma shown_eq {w : Writer} {t : Terminal} (h : w.Mirrors t) {row col : ℕ}
    (hcol : col < bufferWidth) : (if w.viewTop+row ≤ w.lastLine then w.shown (w.viewTop+row) col
      else blank) = visibleChar w t row col := by
  unfold visibleChar
  split_ifs with hline
  · have hlow : w.firstLine ≤ w.viewTop+row := le_trans h.view_low (Nat.le_add_right _ _)
    rw [← h.rows _ hlow hline ⟨col,hcol⟩]
    simp [Writer.shown,Writer.cell,hcol]
  · rfl

lemma otherTerminal_of_ne {index active : Fin 2} (h : index ≠ active) :
    index = otherTerminal active := by
  revert index active
  decide

section Composed
variable {d : Desktop} {terminals : Fin 2 → Writer} {backdrop : Spot → Pixel}
  {window : Fin 2 → Spot → Pixel} {s : Spot}

/-- Inside the focused window only its cursor is drawn over it. -/
lemma composed_active (hs : s ∈ d.windowArea d.active) (hpointer : s ∉ d.pointerArea) :
    composed d terminals backdrop window s =
      stamp (d.cursorArea terminals) (fun _ => Pixel.highlight) s (window d.active s) := by
  unfold composed
  rw [stamp_of_not hpointer,stamp_of hs]

lemma composed_other (hs : s ∈ d.windowArea (otherTerminal d.active))
    (huncovered : s ∉ d.windowArea d.active) (hpointer : s ∉ d.pointerArea) :
    composed d terminals backdrop window s = window (otherTerminal d.active) s := by
  unfold composed
  rw [stamp_of_not hpointer,stamp_of_not fun h => huncovered (cursorArea_subset _ _ h),
    stamp_of_not huncovered,stamp_of hs]

lemma composed_outside (hs : ∀ index, s ∉ d.windowArea index) (hpointer : s ∉ d.pointerArea) :
    composed d terminals backdrop window s = backdrop s := by
  unfold composed
  rw [stamp_of_not hpointer,stamp_of_not fun h => hs _ (cursorArea_subset _ _ h),
    stamp_of_not (hs _),stamp_of_not (hs _)]

lemma composed_pointer (hs : s ∈ d.pointerArea) :
    (composed d terminals backdrop window s).char = ⟨43,colorCode .white .blue⟩ := by
  unfold composed
  rw [stamp_of hs]
  rfl

end Composed

/-- A window shows the lines of the reference terminal in its text area. -/
lemma WindowShows.visible {d : Desktop} {w : Fin 2 → Writer} {t : Fin 2 → Terminal}
    {index : Fin 2} {picture : Spot → Pixel} {r : Rect} {row col : ℕ} {s : Spot}
    (h : WindowShows d w index picture) (hd : Valid d) (hw : (w index).Mirrors (t index))
    (hr : d.layout index = some r) (hs : InText r row col s) :
    (picture s).char = visibleChar (w index) (t index) row col := by
  have hcol : col < bufferWidth := by
    have hlt := s.col_lt
    have hscol := hs.2.2.2
    have hleft := (hd.rects index r hr).left
    omega
  rw [h.text r row col s hr hs,shown_eq hw hcol]

theorem renderDesktop_shows {d : Desktop} (hd : Valid d) {w : Fin 2 → Writer}
    {t : Fin 2 → Terminal} (hw : ∀ index, (w index).Mirrors (t index)) (old : Frame) :
    ∃ frame, d.renderDesktop w old = some frame ∧ ShowsTerminals d w t frame := by
  obtain ⟨backdrop,-,hrender⟩ := renderDesktop_paints
  obtain ⟨window,hwindow,hpaints⟩ := hrender d hd w
  obtain ⟨frame,hframe,hcells⟩ := hpaints old
  have hpixel : ∀ s, frame.pixel s = composed d w backdrop window s := hcells
  refine ⟨frame,hframe,?_⟩
  constructor
  case text =>
    intro index r row col s hr hs huncovered hpointer hcursor
    have hchar := (hwindow index).visible hd (hw index) hr hs
    have harea : s ∈ d.windowArea index := ⟨r,hr,hs.covers⟩
    rw [hpixel,← hchar]
    by_cases hactive : index = d.active
    · subst hactive
      have hnot : s ∉ d.cursorArea w := by
        rw [mem_cursorArea hr hs]
        exact fun h => hcursor ⟨rfl,h⟩
      rw [composed_active harea hpointer,stamp_of_not hnot]
    · obtain rfl := otherTerminal_of_ne hactive
      rw [composed_other harea (huncovered hactive) hpointer]
  case cursor =>
    intro r row col s hr hs hcursor hpointer
    have hchar := (hwindow d.active).visible hd (hw d.active) hr hs
    have harea : s ∈ d.windowArea d.active := ⟨r,hr,hs.covers⟩
    rw [hpixel,composed_active harea hpointer,stamp_of ((mem_cursorArea hr hs).mpr hcursor),
      Pixel.highlight,hchar]
  case pointer =>
    intro s hs
    rw [hpixel]
    exact composed_pointer hs
  case outside =>
    intro s hs hpointer w' old' frame' hframe'
    obtain ⟨window',-,hpaints'⟩ := hrender d hd w'
    obtain ⟨frame'',hframe'',hcells'⟩ := hpaints' old'
    obtain rfl := Option.some.inj (hframe''.symm.trans hframe')
    have hpixel' : ∀ s, frame''.pixel s = composed d w' backdrop window' s := hcells'
    rw [hpixel,hpixel',composed_outside hs hpointer,composed_outside hs hpointer]

theorem renderDesktop_shows_two_windows :
    ∃ frame, initial.openWindow.1.openWindow.1.renderDesktop (fun _ => .new)
        (.replicate _ ⟨blank,.backdrop⟩) = some frame ∧
      ShowsTerminals initial.openWindow.1.openWindow.1 (fun _ => .new) (fun _ => .new) frame :=
  renderDesktop_shows settled_initial.openWindow.openWindow.valid (fun _ => Writer.mirrors_new) _

end Desktop
end CrabOs
