import CrabOs.Desktop.Motion

/-! Dragging a window by its title bar: from the press to the release it keeps its place under the
pointer, as far as the screen allows. -/
namespace CrabOs.Desktop

variable {d d' : Desktop} {p : Packet}

/-! ### What a packet does -/

/-- The desktop when all bytes of a packet are there and the pointer has moved. -/
def moved (d : Desktop) (p : Packet) : Desktop :=
  { d with packet := #v[p.flags,p.x,p.y], packetLen := 3 }.movePointer p.dx p.dy

/-- The end of a packet. -/
def settle (d : Desktop) (p : Packet) : Desktop :=
  { d with buttons := p.flags &&& 7, packetLen := 0 }

lemma set_packet (v : Vector UInt8 3) {n : ℕ} (hn : n = 0) (p : Packet) :
    ((v.set n p.flags (by omega)).set (n+1) p.x (by omega)).set (n+1+1) p.y (by omega) =
      #v[p.flags,p.x,p.y] := by
  subst hn
  apply Vector.ext
  intro i hi
  interval_cases i
  all_goals simp

lemma feed_eq (h : Settled d) (hlen : d.packetLen = 0) (hsync : p.flags &&& 8 ≠ 0) :
    d.feed p = some ({ d with packet := #v[p.flags,p.x,p.y], packetLen := 3 } :
      Desktop).finishPacket.desktop := by
  obtain ⟨h₁,hs₁⟩ := h.step_mouse (mouseByte_stored (by omega) fun _ => hsync)
  obtain ⟨h₂,hs₂⟩ := hs₁.step_mouse (mouseByte_stored (by simp [hlen]) (by simp [hlen]))
  obtain ⟨h₃,-⟩ := hs₂.step_mouse (mouseByte_completes (by simp [hlen]) p.y)
  rw [feed,Packet.bytes,Runs.run,h₁,Option.bind_some,Runs.run,h₂,Option.bind_some,Runs.run,h₃]
  simp only [set_packet d.packet hlen p]
  simp only [hlen]
  rfl

lemma finishPacket_moved (d : Desktop) (p : Packet) :
    ({ d with packet := #v[p.flags,p.x,p.y], packetLen := 3 } : Desktop).finishPacket.desktop =
      ((if p.flags &&& 1 = 0 then { d.moved p with drag := none }
        else if d.buttons &&& 1 = 0 then (d.moved p).press.1
        else d.moved p).dragWindow).settle p := by
  have hpress : ∀ m : Desktop, (if p.flags &&& 1 = 0 then { m with drag := none }
      else if d.buttons &&& 1 = 0 then m.press.1 else m) =
    if p.flags &&& 1 = 0 then { (if p.flags &&& 1 ≠ 0 ∧ d.buttons &&& 1 = 0 then m.press
        else (m,none)).1 with drag := none }
      else (if p.flags &&& 1 ≠ 0 ∧ d.buttons &&& 1 = 0 then m.press else (m,none)).1 := by
    intro m
    by_cases hleft : p.flags &&& 1 = 0
    · simp [hleft]
    · by_cases hup : d.buttons &&& 1 = 0
      · simp [hleft,hup]
      · simp [hleft,hup]
  rw [hpress]
  simp only [finishPacket,displacement_eq]
  rfl

section Feed
variable (h : Settled d) (hlen : d.packetLen = 0) (hsync : p.flags &&& 8 ≠ 0)
include h hlen hsync

/-- While the left button is held, the window follows. -/
lemma feed_held (hleft : p.flags &&& 1 ≠ 0) (hheld : d.buttons &&& 1 ≠ 0) :
    d.feed p = some ((d.moved p).dragWindow.settle p) := by
  rw [feed_eq h hlen hsync,finishPacket_moved,if_neg hleft,if_neg hheld]

/-- When the left button goes down, something may be grabbed. -/
lemma feed_press (hleft : p.flags &&& 1 ≠ 0) (hup : d.buttons &&& 1 = 0) :
    d.feed p = some ((d.moved p).press.1.dragWindow.settle p) := by
  rw [feed_eq h hlen hsync,finishPacket_moved,if_neg hleft,if_pos hup]

/-- Without the left button nothing is moved but the pointer. -/
lemma feed_released (hup : p.flags &&& 1 = 0) :
    d.feed p = some ({ d.moved p with drag := none }.settle p) := by
  rw [feed_eq h hlen hsync,finishPacket_moved,if_pos hup]
  rfl

end Feed

/-! ### Where the window goes -/

/-- The rectangle moved by this, as far as the screen allows. -/
def follow (r : Rect) (dx dy : ℤ) : Rect :=
  ⟨clamp (r.x+dx) 0 (screenW-r.width),clamp (r.y+dy) 1 (screenH-windowH-1),r.width⟩

/-- The pointer is on the title bar of a window, next to the close button. -/
structure Grabs (d : Desktop) (index : Fin 2) (r : Rect) : Prop where
  hit : d.hit = some index
  rect : d.layout index = some r
  title : d.pointerY = r.y
  apart : ¬(r.x+r.width-4 ≤ d.pointerX ∧ d.pointerX < r.x+r.width-1)

lemma press_grabs {index : Fin 2} {r : Rect} (h : d.Grabs index r) :
    d.press.1 = { d with
      drag := some ⟨index,d.pointerX-r.x,d.pointerY-r.y⟩, active := index } := by
  unfold press
  simp only [h.hit,h.rect]
  rw [if_neg fun hclose => h.apart hclose.2,if_pos h.title]

lemma layout_windows (d : Desktop) (windows : Fin 2 → Window) (j : Fin 2) :
    { d with windows := windows }.layout j = if d.isOpen j then
      if d.openCount = 1 then
        some ⟨clamp (windows j).x 0 (screenW-windowW),(windows j).y,windowW⟩
      else some ⟨(windows j).x,(windows j).y,38⟩
    else none := rfl

lemma layout_dragWindow {index : Fin 2} {r r' : Rect} {x y : ℤ}
    (hdrag : d.drag = some ⟨index,x-r.x,y-r.y⟩) (hr' : d.layout index = some r')
    (hwidth : r'.width = r.width) : d.dragWindow.layout =
      Function.update d.layout index (some (follow r (d.pointerX-x) (d.pointerY-y))) := by
  have hx : d.pointerX-(x-r.x) = r.x+(d.pointerX-x) := by ring
  have hy : d.pointerY-(y-r.y) = r.y+(d.pointerY-y) := by ring
  rw [dragWindow_eq hdrag hr',hwidth,hx,hy]
  obtain ⟨hopen,hcount⟩ := layout_width hr'
  rw [hwidth] at hcount
  funext j
  rw [layout_windows]
  by_cases hj : j = index
  · subst hj
    rw [Function.update_self,Function.update_self,if_pos hopen]
    by_cases hone : d.openCount = 1
    · rw [if_pos hone] at hcount ⊢
      rw [follow,hcount]
      exact congrArg (fun x => some (Rect.mk x _ _)) (clamp_of_bounds (clamp_bounds _ (by decide)))
    · rw [if_neg hone] at hcount ⊢
      rw [follow,hcount]
  · rw [Function.update_of_ne hj,Function.update_of_ne hj]
    rfl

/-- The window has followed the pointer from where it was grabbed, and nothing else has moved. -/
structure Dragging (before : Desktop) (index : Fin 2) (r : Rect) (x y : ℤ) (d : Desktop) :
    Prop where
  settled : Settled d
  packetLen : d.packetLen = 0
  held : d.buttons &&& 1 ≠ 0
  drag : d.drag = some ⟨index,x-r.x,y-r.y⟩
  active : d.active = index
  layout : d.layout =
    Function.update before.layout index (some (follow r (d.pointerX-x) (d.pointerY-y)))

lemma held_settle (d : Desktop) (hleft : p.flags &&& 1 ≠ 0) : (d.settle p).buttons &&& 1 ≠ 0 := by
  change (p.flags &&& 7) &&& 1 ≠ 0
  rwa [UInt8.and_assoc,show (7 : UInt8) &&& 1 = 1 from rfl]

lemma dragging_settle {before m : Desktop} {index : Fin 2} {r r' : Rect} {x y : ℤ}
    (hsettled : Settled (m.dragWindow.settle p)) (hleft : p.flags &&& 1 ≠ 0)
    (hdrag : m.drag = some ⟨index,x-r.x,y-r.y⟩) (hactive : m.active = index)
    (hr' : m.layout index = some r') (hwidth : r'.width = r.width)
    (hothers : ∀ rect,
      Function.update m.layout index rect = Function.update before.layout index rect) :
    Dragging before index r x y (m.dragWindow.settle p) := by
  have hx : (m.dragWindow.settle p).pointerX = m.pointerX :=
    congrArg Travel.pointerX (dragWindow_travel m)
  have hy : (m.dragWindow.settle p).pointerY = m.pointerY :=
    congrArg Travel.pointerY (dragWindow_travel m)
  refine ⟨hsettled,rfl,held_settle _ hleft,(dragWindow_drag m).trans hdrag,
    (dragWindow_active m).trans hactive,?_⟩
  rw [hx,hy,← hothers]
  exact layout_dragWindow hdrag hr' hwidth

lemma Dragging.feed {before : Desktop} {index : Fin 2} {r : Rect} {x y : ℤ}
    (h : Dragging before index r x y d) (hsync : p.flags &&& 8 ≠ 0) (hleft : p.flags &&& 1 ≠ 0) :
    ∃ d', d.feed p = some d' ∧ Dragging before index r x y d' := by
  obtain ⟨d',hfeed,hsettled,-⟩ := h.settled.feed h.packetLen hsync
  refine ⟨d',hfeed,?_⟩
  rw [feed_held h.settled h.packetLen hsync hleft h.held] at hfeed
  cases hfeed
  have hlayout : (d.moved p).layout = _ := h.layout
  have hrect := congrFun hlayout index
  rw [Function.update_self] at hrect
  refine dragging_settle hsettled hleft h.drag h.active hrect rfl fun rect => ?_
  rw [hlayout,Function.update_idem]

/-- The packet of the press leaves the window where it is. -/
lemma dragging_press (h : Settled d) (hlen : d.packetLen = 0) (hsync : p.flags &&& 8 ≠ 0)
    (hleft : p.flags &&& 1 ≠ 0) (hup : d.buttons &&& 1 = 0) {index : Fin 2} {r : Rect}
    (hgrabs : (d.movePointer p.dx p.dy).Grabs index r) :
    ∃ d', d.feed p = some d' ∧ Dragging d index r (d.movePointer p.dx p.dy).pointerX
      (d.movePointer p.dx p.dy).pointerY d' := by
  obtain ⟨d',hfeed,hsettled,-⟩ := h.feed hlen hsync
  refine ⟨d',hfeed,?_⟩
  have hmoved : (d.moved p).Grabs index r := ⟨hgrabs.hit,hgrabs.rect,hgrabs.title,hgrabs.apart⟩
  rw [feed_press h hlen hsync hleft hup,press_grabs hmoved] at hfeed
  cases hfeed
  exact dragging_settle hsettled hleft rfl rfl hgrabs.rect rfl fun _ => rfl

/-- Packets without the left button, and the windows stay where they are. -/
lemma run_released {released : List Packet} (h : Settled d) (hlen : d.packetLen = 0)
    (hreleased : ∀ q ∈ released, q.flags &&& 8 ≠ 0 ∧ q.flags &&& 1 = 0) :
    ∃ d', Runs.run feed released d = some d' ∧ d'.layout = d.layout := by
  induction released generalizing d with
  | nil => exact ⟨d,rfl,rfl⟩
  | cons q released ih =>
    obtain ⟨hsync,hup⟩ := hreleased q List.mem_cons_self
    obtain ⟨d₁,hfeed,hsettled,hlen₁,-⟩ := h.feed hlen hsync
    obtain ⟨d₂,hrun,hlayout⟩ := ih hsettled hlen₁ fun q' hq' =>
      hreleased q' (List.mem_cons_of_mem q hq')
    refine ⟨d₂,by rw [Runs.run,hfeed,Option.bind_some,hrun],hlayout.trans ?_⟩
    rw [feed_released h hlen hsync hup] at hfeed
    cases hfeed
    rfl

lemma Dragging.run {before : Desktop} {index : Fin 2} {r : Rect} {x y : ℤ} {held : List Packet}
    (h : Dragging before index r x y d)
    (hheld : ∀ q ∈ held, q.flags &&& 8 ≠ 0 ∧ q.flags &&& 1 ≠ 0) :
    ∃ d', Runs.run Desktop.feed held d = some d' ∧ Dragging before index r x y d' :=
  Runs.run_possible (fun _ q hq h => h.feed (hheld q hq).1 (hheld q hq).2) h

/-- From the press on its title bar to the release a window keeps its place under the pointer, as
far as the screen allows, and the other window stays where it is; after the release nothing
moves. -/
theorem drag_follows_pointer {history : List Event} (hd : Runs.run step history initial = some d)
    (hlen : d.packetLen = 0) (hsync : p.flags &&& 8 ≠ 0) (hleft : p.flags &&& 1 ≠ 0)
    (hup : d.buttons &&& 1 = 0) {index : Fin 2} {r : Rect}
    (hgrabs : (d.movePointer p.dx p.dy).Grabs index r) {held released : List Packet}
    (hheld : ∀ q ∈ held, q.flags &&& 8 ≠ 0 ∧ q.flags &&& 1 ≠ 0)
    (hreleased : ∀ q ∈ released, q.flags &&& 8 ≠ 0 ∧ q.flags &&& 1 = 0) :
    ∃ d₁ d₂, Runs.run step ((p :: held).flatMap Packet.bytes) d = some d₁ ∧
      d₁.layout = Function.update d.layout index
        (some (follow r (d₁.pointerX-(d.movePointer p.dx p.dy).pointerX)
          (d₁.pointerY-(d.movePointer p.dx p.dy).pointerY))) ∧ d₁.active = index ∧
      Runs.run step (released.flatMap Packet.bytes) d₁ = some d₂ ∧ d₂.layout = d₁.layout := by
  obtain ⟨d₀,hrun₀,hsettled⟩ := settled_initial.run history
  obtain rfl := Option.some.inj (hd.symm.trans hrun₀)
  obtain ⟨d',hfeed,hdragging⟩ := dragging_press hsettled hlen hsync hleft hup hgrabs
  obtain ⟨d₁,hrun,hdragging⟩ := hdragging.run hheld
  obtain ⟨d₂,hrest,hlayout⟩ := run_released hdragging.settled hdragging.packetLen hreleased
  refine ⟨d₁,d₂,?_,hdragging.layout,hdragging.active,?_,hlayout⟩
  · rw [Runs.run_flatMap]
    change (d.feed p).bind _ = _
    rw [hfeed]
    exact hrun
  · rw [Runs.run_flatMap]
    exact hrest

/-- Up to the title bar of a new window, which is then dragged past the left edge. -/
def pointAtTitle : List Event :=
  .openTerminal :: ([⟨8,0,144⟩,⟨8,0,144⟩] : List Packet).flatMap Packet.bytes

theorem drag_follows_pointer_left : ∃ d d₁ d₂, Runs.run step pointAtTitle initial = some d ∧
    Runs.run step (([⟨9,0,0⟩,⟨0x19,0xd8,0⟩] : List Packet).flatMap Packet.bytes) d = some d₁ ∧
      d₁.layout 0 = some ⟨0,4,74⟩ ∧
      Runs.run step (([⟨8,80,0⟩] : List Packet).flatMap Packet.bytes) d₁ = some d₂ ∧
      d₂.layout = d₁.layout := by
  obtain ⟨d,hd,hlen,hup,hgrabs,hx₀,hy₀,d',hd',hx,hy⟩ : ∃ d,
      Runs.run step pointAtTitle initial = some d ∧ d.packetLen = 0 ∧ d.buttons &&& 1 = 0 ∧
      (d.movePointer (Packet.dx ⟨9,0,0⟩) (Packet.dy ⟨9,0,0⟩)).Grabs 0 ⟨3,4,74⟩ ∧
      (d.movePointer (Packet.dx ⟨9,0,0⟩) (Packet.dy ⟨9,0,0⟩)).pointerX = 72 ∧
      (d.movePointer (Packet.dx ⟨9,0,0⟩) (Packet.dy ⟨9,0,0⟩)).pointerY = 4 ∧
      ∃ d', Runs.run step (([⟨9,0,0⟩,⟨0x19,0xd8,0⟩] : List Packet).flatMap Packet.bytes) d =
        some d' ∧ d'.pointerX = 67 ∧ d'.pointerY = 4 :=
    ⟨_,rfl,rfl,rfl,⟨rfl,rfl,rfl,by decide⟩,rfl,rfl,_,rfl,rfl,rfl⟩
  have hheld : ∀ q ∈ ([⟨0x19,0xd8,0⟩] : List Packet), q.flags &&& 8 ≠ 0 ∧ q.flags &&& 1 ≠ 0 := by
    simp only [List.forall_mem_singleton]
    decide
  have hreleased : ∀ q ∈ ([⟨8,80,0⟩] : List Packet), q.flags &&& 8 ≠ 0 ∧ q.flags &&& 1 = 0 := by
    simp only [List.forall_mem_singleton]
    decide
  obtain ⟨d₁,d₂,hrun,hlayout,-,hrest,hkept⟩ :=
    drag_follows_pointer hd hlen (by decide) (by decide) hup hgrabs hheld hreleased
  obtain rfl := Option.some.inj (hd'.symm.trans hrun)
  refine ⟨d,d',d₂,hd,hrun,?_,hrest,hkept⟩
  rw [hlayout,hx₀,hy₀,hx,hy,Function.update_self]
  rfl

end CrabOs.Desktop
