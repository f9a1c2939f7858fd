import Mathlib.Tactic
import CrabOs.Shell.Line

/-! The text-mode desktop: two windows, the focus, and the PS/2 mouse packets that move the
pointer, drag windows and change the focus. -/
namespace CrabOs
open Crabsh (storeByte)

/-- The terminals and their windows are numbered 0 and 1. -/
instance twoTerminals : NeZero 2 := ⟨two_ne_zero⟩

/-- What the keyboard task is told. -/
inductive InputEvent
  | scancode (code : UInt8)
  | openTerminal
  | closeTerminal (index : ℕ)
  deriving DecidableEq

structure Window where
  x : ℤ
  y : ℤ
  deriving DecidableEq

/-- A window as it is laid out; every window is `windowH` cells high. -/
structure Rect where
  x : ℤ
  y : ℤ
  width : ℤ
  deriving DecidableEq

structure Drag where
  index : Fin 2
  offsetX : ℤ
  offsetY : ℤ
  deriving DecidableEq

structure Desktop where
  windows : Fin 2 → Window
  isOpen : Fin 2 → Bool
  drag : Option Drag
  packet : Vector UInt8 3
  packetLen : ℕ
  pointerX : ℤ
  pointerY : ℤ
  motionX : ℤ
  motionY : ℤ
  buttons : UInt8
  active : Fin 2

/-- What one byte from the mouse leads to: the action it requests, and whether it completed a
packet. -/
structure MouseResult where
  desktop : Desktop
  action : Option InputEvent
  completed : Bool

/-- `index.min(1)`. -/
def terminalIndex (index : ℕ) : Fin 2 := if index = 0 then 0 else 1

/-- `index ^ 1`. -/
def otherTerminal (index : Fin 2) : Fin 2 := if index = 0 then 1 else 0

namespace Desktop

def screenW : ℤ := 80
def screenH : ℤ := 25
def windowW : ℤ := 74
def windowH : ℤ := 20
def mouseCellsPerCountX : ℤ := 8
def mouseCellsPerCountY : ℤ := 16

/-- `Ord::clamp` for an ordered pair of bounds. -/
def clamp (value low high : ℤ) : ℤ := max low (min value high)

def initial : Desktop :=
  { windows := fun index => if index = 0 then ⟨3,4⟩ else ⟨41,4⟩
    isOpen := fun _ => false
    drag := none
    packet := Vector.replicate 3 0
    packetLen := 0
    pointerX := 72
    pointerY := 22
    motionX := 0
    motionY := 0
    buttons := 0
    active := 0 }

def openCount (d : Desktop) : ℕ := (if d.isOpen 0 then 1 else 0)+(if d.isOpen 1 then 1 else 0)

/-- One open window uses most of the width, two share it. -/
def layout (d : Desktop) (index : Fin 2) : Option Rect :=
  if d.isOpen index then
    if d.openCount = 1 then
      some ⟨clamp (d.windows index).x 0 (screenW-windowW),(d.windows index).y,windowW⟩
    else some ⟨(d.windows index).x,(d.windows index).y,38⟩
  else none

/-- Move the pointer by whole cells and keep the remaining motion. -/
def movePointer (d : Desktop) (dx dy : ℤ) : Desktop :=
  let motionX := d.motionX+dx
  let motionY := d.motionY+dy
  { d with
    motionX := motionX.tmod mouseCellsPerCountX
    motionY := motionY.tmod mouseCellsPerCountY
    pointerX := clamp (d.pointerX+motionX.tdiv mouseCellsPerCountX) 0 (screenW-1)
    pointerY := clamp (d.pointerY-motionY.tdiv mouseCellsPerCountY) 0 (screenH-1) }

def hits (d : Desktop) (index : Fin 2) : Bool :=
  match d.layout index with
  | some r => r.x ≤ d.pointerX ∧ d.pointerX < r.x+r.width ∧ r.y ≤ d.pointerY ∧
      d.pointerY < r.y+windowH
  | none => false

/-- The window a press lands on; the focused one lies on top. -/
def hit (d : Desktop) : Option (Fin 2) :=
  [d.active,otherTerminal d.active].find? d.hits

/-- A press of the left button: focus, close or start to drag the window, or use the icon. -/
def press (d : Desktop) : Desktop × Option InputEvent :=
  let released := { d with drag := none }
  match d.hit with
  | some index => match d.layout index with
    | some r =>
      let focused := { released with active := index }
      if d.pointerY = r.y ∧ r.x+r.width-4 ≤ d.pointerX ∧ d.pointerX < r.x+r.width-1 then
        (focused,some (.closeTerminal index))
      else if d.pointerY = r.y then
        ({ focused with drag := some ⟨index,d.pointerX-r.x,d.pointerY-r.y⟩ },none)
      else (focused,none)
    | none => (released,none)
  | none =>
    if 3 ≤ d.pointerX ∧ d.pointerX ≤ 12 ∧ 1 ≤ d.pointerY ∧ d.pointerY ≤ 3 then
      (released,some .openTerminal)
    else (released,none)

/-- Follow the pointer with the window that is being dragged. -/
def dragWindow (d : Desktop) : Desktop :=
  match d.drag with
  | some drag =>
    let width := (d.layout drag.index).elim 38 Rect.width
    let moved : Window := ⟨clamp (d.pointerX-drag.offsetX) 0 (screenW-width),
      clamp (d.pointerY-drag.offsetY) 1 (screenH-windowH-1)⟩
    { d with windows := Function.update d.windows drag.index moved }
  | none => d

/-- A signed 9-bit displacement. -/
def displacement (byte flags sign : UInt8) : ℤ :=
  (byte.toNat : ℤ)-(if flags &&& sign ≠ 0 then 256 else 0)

/-- The third byte of a packet. -/
def finishPacket (d : Desktop) : MouseResult :=
  let flags := d.packet[0]
  let moved := d.movePointer (displacement d.packet[1] flags 0x10)
    (displacement d.packet[2] flags 0x20)
  let (pressed,action) :=
    if flags &&& 1 ≠ 0 ∧ d.buttons &&& 1 = 0 then moved.press else (moved,none)
  let released := if flags &&& 1 = 0 then { pressed with drag := none } else pressed
  ⟨{ released.dragWindow with buttons := flags &&& 7, packetLen := 0 },action,true⟩

/-- One byte of the packet stream; a byte past the packet aborts. -/
def mouseByte (d : Desktop) (byte : UInt8) : Option MouseResult :=
  if d.packetLen = 0 ∧ byte &&& 8 = 0 then some ⟨d,none,false⟩
  else (storeByte d.packet d.packetLen byte).map fun packet =>
    let stored := { d with packet := packet, packetLen := d.packetLen+1 }
    if stored.packetLen = 3 then stored.finishPacket else ⟨stored,none,false⟩

/-- The critical section of `close_terminal`. -/
def closeWindow (d : Desktop) (index : ℕ) : Desktop :=
  let closed := terminalIndex index
  { d with
    drag := none
    isOpen := Function.update d.isOpen closed false
    active := if d.isOpen (otherTerminal closed) then otherTerminal closed else closed }

/-- The first window that is not open. -/
def firstClosed (isOpen : Fin 2 → Bool) : Option (Fin 2) := [0,1].find? (fun index => !isOpen index)

/-- The critical section of `open_terminal`. -/
def openWindow (d : Desktop) : Desktop × Option (Fin 2) :=
  match firstClosed d.isOpen with
  | none => (d,none)
  | some index =>
    ({ d with
      windows := if d.isOpen 0 || d.isOpen 1 then fun i => if i = 0 then ⟨1,4⟩ else ⟨41,4⟩
        else Function.update d.windows index ⟨3,4⟩
      drag := none
      isOpen := Function.update d.isOpen index true
      active := index },some index)

/-! ### Focus -/

/-- The focused window is open whenever any window is, and a packet is never complete between
two bytes. -/
structure Sound (d : Desktop) : Prop where
  focus : ∀ index, d.isOpen index → d.isOpen d.active
  packet : d.packetLen < 3

lemma sound_initial : initial.Sound := ⟨by simp [initial],by decide⟩

lemma layout_isSome (d : Desktop) (index : Fin 2) : (d.layout index).isSome = d.isOpen index := by
  unfold layout
  split_ifs with h <;> simp [h]

lemma hit_open {d : Desktop} {index : Fin 2} (h : d.hit = some index) : d.isOpen index := by
  have hhits := List.find?_some h
  rw [← layout_isSome]
  unfold hits at hhits
  split at hhits
  · simp [*]
  · simp at hhits

@[simp] lemma movePointer_isOpen (d : Desktop) (dx dy : ℤ) : (d.movePointer dx dy).isOpen = d.isOpen :=
  rfl
@[simp] lemma movePointer_active (d : Desktop) (dx dy : ℤ) : (d.movePointer dx dy).active = d.active :=
  rfl

lemma press_isOpen (d : Desktop) : d.press.1.isOpen = d.isOpen := by
  unfold press
  repeat' split
  all_goals rfl

/-- A press keeps the focus or moves it to an open window. -/
lemma press_active (d : Desktop) :
    d.press.1.active = d.active ∨ d.isOpen d.press.1.active = true := by
  cases hh : d.hit with
  | none => exact .inl (by unfold press; simp only [hh]; split <;> rfl)
  | some index =>
    cases hl : d.layout index with
    | none => exact .inl (by unfold press; simp only [hh,hl])
    | some r =>
      refine .inr ?_
      have hactive : d.press.1.active = index := by
        unfold press
        simp only [hh,hl]
        split_ifs <;> rfl
      rw [hactive]
      exact hit_open hh

@[simp] lemma dragWindow_isOpen (d : Desktop) : d.dragWindow.isOpen = d.isOpen := by
  unfold dragWindow
  split <;> rfl

@[simp] lemma dragWindow_active (d : Desktop) : d.dragWindow.active = d.active := by
  unfold dragWindow
  split <;> rfl

lemma finishPacket_isOpen (d : Desktop) : d.finishPacket.desktop.isOpen = d.isOpen := by
  unfold finishPacket
  dsimp only
  rw [dragWindow_isOpen]
  split_ifs <;> first | rfl | exact press_isOpen _

lemma finishPacket_active (d : Desktop) :
    d.finishPacket.desktop.active = d.active ∨ d.isOpen d.finishPacket.desktop.active = true := by
  unfold finishPacket
  dsimp only
  rw [dragWindow_active]
  split_ifs <;> first | exact .inl rfl | exact press_active _

lemma press_action {d : Desktop} {event : InputEvent} (h : d.press.2 = some event) (code : UInt8) :
    event ≠ .scancode code := by
  rintro rfl
  unfold press at h
  dsimp only at h
  split at h
  · split at h
    · split_ifs at h
      simp at h
    · simp at h
  · split_ifs at h
    simp at h

/-- The mouse requests windows to be opened or closed and makes no keys. -/
lemma mouseByte_action {d : Desktop} {byte : UInt8} {result : MouseResult} {event : InputEvent}
    (h : d.mouseByte byte = some result) (ha : result.action = some event) (code : UInt8) :
    event ≠ .scancode code := by
  unfold mouseByte at h
  split_ifs at h
  · cases h; cases ha
  · obtain ⟨packet,-,rfl⟩ := Option.map_eq_some_iff.mp h
    dsimp only at ha
    split_ifs at ha
    · unfold finishPacket at ha
      dsimp only at ha
      split_ifs at ha
      exact press_action ha code

/-- Without a press a packet leaves the focus alone. -/
lemma finishPacket_active_of_released (d : Desktop) (h : d.packet[0] &&& 1 = 0) :
    d.finishPacket.desktop.active = d.active := by
  unfold finishPacket
  dsimp only
  rw [dragWindow_active]
  simp [h]

lemma mouseByte_stored {d : Desktop} {byte : UInt8} (h : d.packetLen < 2)
    (hb : d.packetLen = 0 → byte &&& 8 ≠ 0) :
    d.mouseByte byte = some ⟨{ d with
      packet := d.packet.set d.packetLen byte (by omega), packetLen := d.packetLen+1 },none,false⟩ := by
  unfold mouseByte
  rw [if_neg (fun hskip => hb hskip.1 hskip.2),storeByte,dif_pos (by omega),Option.map_some]
  dsimp only
  rw [if_neg (by omega)]

lemma mouseByte_completes {d : Desktop} (h : d.packetLen = 2) (byte : UInt8) :
    d.mouseByte byte = some (finishPacket { d with
      packet := d.packet.set d.packetLen byte (by omega), packetLen := d.packetLen+1 }) := by
  unfold mouseByte
  rw [if_neg (by omega),storeByte,dif_pos (by omega),Option.map_some]
  dsimp only
  rw [if_pos (by omega)]

/-- A packet without a button, from its first byte on, keeps the focus. -/
lemma motion_packet {d : Desktop} (h : d.packetLen = 0) :
    ∃ d₁ d₂ r, d.mouseByte 8 = some ⟨d₁,none,false⟩ ∧ d₁.mouseByte 0 = some ⟨d₂,none,false⟩ ∧
      d₂.mouseByte 0 = some r ∧ r.completed = true ∧ r.desktop.active = d.active := by
  refine ⟨_,_,_,mouseByte_stored (by omega) (fun _ => by decide),mouseByte_stored ?_ ?_,
    mouseByte_completes ?_ 0,rfl,?_⟩
  · simp [h]
  · simp
  · simp [h]
  · rw [finishPacket_active_of_released]
    simp only [h,zero_add,Vector.getElem_set]
    exact (by decide : (8 : UInt8) &&& 1 = 0)

/-- The mouse never opens or closes a window, and keeps the focus on an open one. -/
theorem Sound.mouseByte {d : Desktop} (h : d.Sound) (byte : UInt8) :
    ∃ result, d.mouseByte byte = some result ∧ result.desktop.Sound ∧
      result.desktop.isOpen = d.isOpen ∧
      (result.completed = false → result.desktop.active = d.active) := by
  unfold Desktop.mouseByte
  split_ifs with hskip
  · exact ⟨_,rfl,h,rfl,fun _ => rfl⟩
  · rw [storeByte,dif_pos h.packet]
    refine ⟨_,rfl,?_⟩
    dsimp only
    split_ifs with hfull
    · refine ⟨⟨fun index hi => ?_,by simp [finishPacket]⟩,finishPacket_isOpen _,by simp [finishPacket]⟩
      rw [finishPacket_isOpen] at hi ⊢
      rcases finishPacket_active { d with
        packet := d.packet.set d.packetLen byte h.packet, packetLen := d.packetLen+1 } with ha | ha
      · rw [ha]; exact h.focus index hi
      · exact ha
    · have := h.packet
      exact ⟨⟨h.focus,by simp only at hfull ⊢; omega⟩,rfl,fun _ => rfl⟩

lemma Sound.closeWindow {d : Desktop} (h : d.Sound) (index : ℕ) : (d.closeWindow index).Sound := by
  refine ⟨fun i hi => ?_,h.packet⟩
  have hcases : ∀ i : Fin 2, i = terminalIndex index ∨ i = otherTerminal (terminalIndex index) := by
    generalize terminalIndex index = j
    revert j
    decide
  have hne : otherTerminal (terminalIndex index) ≠ terminalIndex index := by
    generalize terminalIndex index = j
    revert j
    decide
  simp only [Desktop.closeWindow] at hi ⊢
  rcases hcases i with rfl | rfl
  · simp at hi
  · rw [Function.update_of_ne hne] at hi
    rw [if_pos hi,Function.update_of_ne hne]
    exact hi

lemma openWindow_snd (d : Desktop) : d.openWindow.2 = firstClosed d.isOpen := by
  unfold openWindow
  split <;> simp only [*]

lemma openWindow_isOpen (d : Desktop) : d.openWindow.1.isOpen =
    (firstClosed d.isOpen).elim d.isOpen fun index => Function.update d.isOpen index true := by
  unfold openWindow
  split <;> simp only [*,Option.elim]

lemma openWindow_active {d : Desktop} {index : Fin 2} (h : firstClosed d.isOpen = some index) :
    d.openWindow.1.active = index := by
  unfold openWindow
  rw [h]

lemma openWindow_packetLen (d : Desktop) : d.openWindow.1.packetLen = d.packetLen := by
  unfold openWindow
  split <;> rfl

lemma Sound.openWindow {d : Desktop} (h : d.Sound) : d.openWindow.1.Sound := by
  unfold Desktop.openWindow
  cases firstClosed d.isOpen with
  | none => exact h
  | some index => exact ⟨fun _ _ => by simp,h.packet⟩

end Desktop
end CrabOs
