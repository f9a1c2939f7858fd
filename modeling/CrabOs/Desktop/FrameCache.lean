import CrabOs.Desktop.Composition

/-! The end of `render_desktop_inner`: only the cells that differ from the copy of the previous
frame are written to the video memory. -/
namespace CrabOs.Vga
open Painting

structure FrameCache where
  cells : Vector ScreenChar screenCells
  valid : Bool

/-- The statics `FRAME` and `PREVIOUS_FRAME`, and the video memory. -/
structure Display where
  frame : Frame
  previous : FrameCache
  memory : Vector ScreenChar screenCells

namespace Display

/-- Whatever the video memory holds at boot, the copy is all blanks. -/
def boot (memory : Vector ScreenChar screenCells) : Display :=
  ⟨.replicate screenCells ⟨blank,.backdrop⟩,⟨.replicate screenCells blank,false⟩,memory⟩

/-- One round of the loop; an index outside the screen aborts. -/
def copyCell (index : ℕ) (s : Display) : Option Display :=
  if h : index < screenCells then
    if !s.previous.valid || s.previous.cells[index] != s.frame[index].char then
      some { s with
        memory := s.memory.set index s.frame[index].char
        previous := { s.previous with cells := s.previous.cells.set index s.frame[index].char } }
    else some s
  else none

/-- The loop over the screen. -/
def copyFrame (s : Display) : Option Display :=
  (loop copyCell screenCells s).map fun s => { s with previous := { s.previous with valid := true } }

/-- The screen whose every cell is written in every frame. -/
def copyCellAlways (index : ℕ) (s : Display) : Option Display :=
  if h : index < screenCells then
    some { s with memory := s.memory.set index s.frame[index].char }
  else none

def copyFrameAlways (s : Display) : Option Display := loop copyCellAlways screenCells s

/-- What the display knows about one cell. -/
structure Cell where
  valid : Bool
  composed : Pixel
  cached : ScreenChar
  shown : ScreenChar

def cell (s : Display) (i : Fin screenCells) : Cell :=
  ⟨s.previous.valid,s.frame[i],s.previous.cells[i],s.memory[i]⟩

/-- The condition under which a round writes its cell. -/
def Cell.stale (c : Cell) : Bool := !c.valid || c.cached != c.composed.char

/-- What a round does to its cell. -/
def Cell.copy (c : Cell) : Cell :=
  if c.stale then { c with cached := c.composed.char, shown := c.composed.char } else c

def Cell.copyAlways (c : Cell) : Cell := { c with shown := c.composed.char }

lemma Cell.copy_copy (c : Cell) : c.copy.copy = c.copy := by
  unfold copy
  split_ifs
  · rfl
  · rfl
  · rfl

lemma copyCell_paints {k : ℕ} (hk : k < screenCells) :
    Paints cell (copyCell k) (stamp {i | i.val = k} fun _ => Cell.copy) := by
  intro s
  have hround : copyCell k s = some (if (s.cell ⟨k,hk⟩).stale then
      { s with
        memory := s.memory.set k s.frame[k].char
        previous := { s.previous with cells := s.previous.cells.set k s.frame[k].char } }
    else s) := by
    rw [copyCell,dif_pos hk,apply_ite some]
    rfl
  refine ⟨_,hround,fun i => ?_⟩
  by_cases hi : i.val = k
  · subst hi
    rw [stamp_of (by exact rfl),Cell.copy]
    split_ifs
    · simp [cell]
    · rfl
  · rw [stamp_of_not (by exact hi)]
    split_ifs
    · simp [cell,Vector.getElem_set_ne _ _ (Ne.symm hi)]
    · rfl

lemma copyCellAlways_paints {k : ℕ} (hk : k < screenCells) :
    Paints cell (copyCellAlways k) (stamp {i | i.val = k} fun _ => Cell.copyAlways) := by
  intro s
  refine ⟨_,dif_pos hk,fun i => ?_⟩
  by_cases hi : i.val = k
  · subst hi
    rw [stamp_of (by exact rfl)]
    simp [cell,Cell.copyAlways]
  · rw [stamp_of_not (by exact hi)]
    simp [cell,Vector.getElem_set_ne _ _ (Ne.symm hi)]

/-- A loop whose rounds each treat one cell treats every cell. -/
lemma screenLoop_paints {body : ℕ → Display → Option Display} {f : Cell → Cell}
    (hbody : ∀ k < screenCells, Paints cell (body k) (stamp {i | i.val = k} fun _ => f))
    (hf : ∀ c, f (f c) = f c) : Paints cell (loop body screenCells) fun _ => f := by
  intro s
  obtain ⟨t,ht,hcells⟩ := Paints.loop hbody (fun _ => hf) s
  refine ⟨t,ht,fun i => ?_⟩
  rw [hcells,stamp_of]
  exact ⟨i.val,i.isLt,rfl⟩

lemma copyFrame_paints :
    Paints cell copyFrame fun _ c => { c.copy with valid := true } := by
  intro s
  obtain ⟨t,ht,hcells⟩ := screenLoop_paints (fun _ => copyCell_paints) Cell.copy_copy s
  refine ⟨_,by rw [copyFrame,ht]; rfl,fun i => ?_⟩
  exact congrArg (fun c : Cell => { c with valid := true }) (hcells i)

lemma copyFrameAlways_paints : Paints cell copyFrameAlways fun _ => Cell.copyAlways :=
  screenLoop_paints (fun _ => copyCellAlways_paints) fun _ => rfl

/-- What can be seen of a display, and what the next frame is composed on. -/
def view (s : Display) : Frame × Vector ScreenChar screenCells := (s.frame,s.memory)

/-- A valid copy is what the video memory holds. -/
def Coherent (s : Display) : Prop := ∀ i, (s.cell i).valid → (s.cell i).cached = (s.cell i).shown

lemma coherent_boot (memory : Vector ScreenChar screenCells) : Coherent (boot memory) := by
  intro i h
  cases h

lemma Cell.copy_shown {c : Cell} (h : c.valid → c.cached = c.shown) :
    c.copy.shown = c.composed.char := by
  unfold copy
  by_cases hstale : c.stale
  · rw [if_pos hstale]
  · rw [if_neg hstale]
    simp only [stale,Bool.or_eq_true,Bool.not_eq_true',bne_iff_ne,ne_eq,not_or,not_not,
      Bool.not_eq_false] at hstale
    rw [← h hstale.1,hstale.2]

lemma Cell.copy_cached (c : Cell) : c.copy.cached = c.composed.char := by
  unfold copy
  by_cases hstale : c.stale
  · rw [if_pos hstale]
  · rw [if_neg hstale]
    simp only [stale,Bool.or_eq_true,bne_iff_ne,ne_eq,not_or,not_not] at hstale
    exact hstale.2

lemma Cell.copy_composed (c : Cell) : c.copy.composed = c.composed := by
  unfold copy
  split_ifs
  · rfl
  · rfl

/-- Displays whose cells show the same look the same. -/
lemma view_eq {s t : Display} (hframe : ∀ i, (s.cell i).composed = (t.cell i).composed)
    (hmemory : ∀ i, (s.cell i).shown = (t.cell i).shown) : s.view = t.view := by
  refine Prod.ext ?_ ?_
  · exact Vector.ext fun i hi => hframe ⟨i,hi⟩
  · exact Vector.ext fun i hi => hmemory ⟨i,hi⟩

/-- Copying what differs and copying everything look the same. -/
lemma copyFrame_spec {s : Display} (h : Coherent s) :
    ∃ t, copyFrame s = some t ∧ Coherent t ∧ t.frame = s.frame ∧
      ∀ i : Fin screenCells, t.memory[i] = s.frame[i].char := by
  obtain ⟨t,ht,hcells⟩ := copyFrame_paints s
  have hshown : ∀ i, (t.cell i).shown = (s.cell i).composed.char := by
    intro i
    rw [hcells]
    exact Cell.copy_shown (h i)
  refine ⟨t,ht,fun i _ => ?_,?_,hshown⟩
  · rw [hshown,hcells]
    exact Cell.copy_cached _
  · apply Vector.ext
    intro i hi
    have hcomposed : (t.cell ⟨i,hi⟩).composed = (s.cell ⟨i,hi⟩).composed := by
      rw [hcells]
      exact Cell.copy_composed _
    exact hcomposed

lemma copyFrameAlways_spec (s : Display) :
    ∃ t, copyFrameAlways s = some t ∧ t.frame = s.frame ∧
      ∀ i : Fin screenCells, t.memory[i] = s.frame[i].char := by
  obtain ⟨t,ht,hcells⟩ := copyFrameAlways_paints s
  refine ⟨t,ht,?_,fun i => ?_⟩
  · exact Vector.ext fun i hi => congrArg Cell.composed (hcells ⟨i,hi⟩)
  · exact congrArg Cell.shown (hcells i)

end Display

/-- What the frame is composed of. -/
structure Update where
  desktop : Desktop
  terminals : Fin 2 → Writer

namespace Display

/-- `render_desktop_inner`. -/
def render (s : Display) (u : Update) : Option Display :=
  (u.desktop.renderDesktop u.terminals s.frame).bind fun frame => copyFrame { s with frame := frame }

/-- The same with every cell written. -/
def renderAlways (s : Display) (u : Update) : Option Display :=
  (u.desktop.renderDesktop u.terminals s.frame).bind fun frame =>
    copyFrameAlways { s with frame := frame }

lemma render_spec {s : Display} {u : Update} {frame : Frame} (h : Coherent s)
    (hframe : u.desktop.renderDesktop u.terminals s.frame = some frame) :
    ∃ t, s.render u = some t ∧ Coherent t ∧ t.frame = frame ∧
      ∀ i : Fin screenCells, t.memory[i] = t.frame[i].char := by
  have hcoherent : Coherent { s with frame := frame } := h
  obtain ⟨t,ht,hcoherent',hsame,hmemory⟩ := copyFrame_spec hcoherent
  refine ⟨t,?_,hcoherent',hsame,fun i => ?_⟩
  · rw [render,hframe,Option.bind_some,ht]
  · rw [hmemory,hsame]

lemma render_coherent {s t : Display} {u : Update} (h : Coherent s) (ht : s.render u = some t) :
    Coherent t ∧ u.desktop.renderDesktop u.terminals s.frame = some t.frame ∧
      ∀ i : Fin screenCells, t.memory[i] = t.frame[i].char := by
  obtain ⟨frame,hframe,-⟩ := Option.bind_eq_some_iff.mp ht
  obtain ⟨t',ht',hcoherent,rfl,hmemory⟩ := render_spec h hframe
  obtain rfl := Option.some.inj (ht'.symm.trans ht)
  exact ⟨hcoherent,hframe,hmemory⟩

lemma render_view {s f : Display} (h : Coherent s) (hview : s.view = f.view) (u : Update) :
    (s.render u).map view = (f.renderAlways u).map view := by
  have hframe : s.frame = f.frame := congrArg Prod.fst hview
  cases hcompose : u.desktop.renderDesktop u.terminals s.frame with
  | none =>
    rw [render,renderAlways,← hframe,hcompose]
    simp only [Option.bind_none,Option.map_none]
  | some frame =>
    obtain ⟨t,ht,-,hsame,hmemory⟩ := render_spec h hcompose
    obtain ⟨g,hg,hsame',hmemory'⟩ := copyFrameAlways_spec { f with frame := frame }
    rw [ht,renderAlways,← hframe,hcompose]
    simp only [Option.bind_some,hg,Option.map_some,Option.some.injEq]
    apply view_eq
    · intro i
      simp only [cell,hsame,hsame']
    · intro i
      simp only [cell,hmemory,hmemory',hsame]

lemma render_returns {s : Display} {u : Update} (hvalid : u.desktop.Valid) (h : Coherent s) :
    ∃ t, s.render u = some t ∧ Coherent t := by
  obtain ⟨_,-,hrender⟩ := Desktop.renderDesktop_paints
  obtain ⟨_,-,hpaints⟩ := hrender u.desktop hvalid u.terminals
  obtain ⟨frame,hframe,-⟩ := hpaints s.frame
  obtain ⟨t,ht,hcoherent,-⟩ := render_spec h hframe
  exact ⟨t,ht,hcoherent⟩

/-- From boot on, whatever the video memory holds, drawing only the differences looks as if every
cell had been drawn: after each call the memory holds the frame just composed. -/
theorem differential_drawing (memory : Vector ScreenChar screenCells) (updates : List Update) :
    (Runs.run render updates (boot memory)).map view =
        (Runs.run renderAlways updates (boot memory)).map view ∧
      (∀ s u t, Runs.run render updates (boot memory) = some s → s.render u = some t →
        u.desktop.renderDesktop u.terminals s.frame = some t.frame ∧
          ∀ i : Fin screenCells, t.memory[i] = t.frame[i].char) ∧
      ((∀ u ∈ updates, u.desktop.Valid) → (Runs.run render updates (boot memory)).isSome) := by
  have hkeeps : ∀ s u t, Coherent s → s.render u = some t → Coherent t :=
    fun s u t h ht => (render_coherent h ht).1
  refine ⟨?_,?_,?_⟩
  · exact Runs.run_view (fun s f u h hview => render_view h hview u) hkeeps (coherent_boot memory)
      rfl updates
  · intro s u t hs ht
    have hcoherent := Runs.invariant_run hkeeps (coherent_boot memory) hs
    exact (render_coherent hcoherent ht).2
  · intro hvalid
    obtain ⟨s,hs,-⟩ := Runs.run_possible (fun s u hu h => render_returns (hvalid u hu) h)
      (coherent_boot memory)
    rw [hs]
    rfl

theorem differential_drawing_two_windows :
    ∃ s t, Runs.run render [⟨Desktop.initial,fun _ => .new⟩]
        (boot (.replicate screenCells ⟨63,0⟩)) = some s ∧
      s.render ⟨Desktop.initial.openWindow.1,fun _ => .new⟩ = some t ∧
      ∀ i : Fin screenCells, t.memory[i] = t.frame[i].char := by
  have hfirst : Desktop.initial.Valid := Desktop.settled_initial.valid
  have hsecond : Desktop.initial.openWindow.1.Valid := Desktop.settled_initial.openWindow.valid
  obtain ⟨-,hshows,hreturns⟩ := differential_drawing (.replicate screenCells ⟨63,0⟩)
    [⟨Desktop.initial,fun _ => .new⟩]
  obtain ⟨s,hs⟩ := Option.isSome_iff_exists.mp (hreturns fun u hu => by
    rw [List.mem_singleton.mp hu]
    exact hfirst)
  have hcoherent := Runs.invariant_run (fun s u t h ht => (render_coherent h ht).1)
    (coherent_boot _) hs
  obtain ⟨t,ht,-⟩ := render_returns (u := ⟨Desktop.initial.openWindow.1,fun _ => .new⟩) hsecond
    hcoherent
  exact ⟨s,t,hs,ht,(hshows s _ t hs ht).2⟩

end Display
end CrabOs.Vga
