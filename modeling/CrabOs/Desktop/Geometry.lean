import CrabOs.Desktop.Desktop
import CrabOs.Foundations.Runs

/-! Where the pointer and the windows can be. The arithmetic of the desktop is done in `i16`; here
it is followed operation by operation, and an overflow aborts. -/
namespace CrabOs.Desktop

/-- The result of an `i16` operation. -/
def i16 (value : ℤ) : Option ℤ := if -32768 ≤ value ∧ value ≤ 32767 then some value else none

lemma i16_eq {value : ℤ} (hlow : -32768 ≤ value) (hhigh : value ≤ 32767) :
    i16 value = some value := if_pos ⟨hlow,hhigh⟩

/-! ### The operations of one packet -/

def checkedDisplacement (byte flags sign : UInt8) : Option ℤ :=
  i16 ((byte.toNat : ℤ)-(if flags &&& sign ≠ 0 then 256 else 0))

def checkedMovePointer (d : Desktop) (dx dy : ℤ) : Option Desktop := do
  let motionX ← i16 (d.motionX+dx)
  let motionY ← i16 (d.motionY+dy)
  let pointerX ← i16 (d.pointerX+motionX.tdiv mouseCellsPerCountX)
  let pointerY ← i16 (d.pointerY-motionY.tdiv mouseCellsPerCountY)
  return { d with
    motionX := motionX.tmod mouseCellsPerCountX
    motionY := motionY.tmod mouseCellsPerCountY
    pointerX := clamp pointerX 0 (screenW-1)
    pointerY := clamp pointerY 0 (screenH-1) }

/-- The sums of the hit test, also those that `&&` would skip. -/
def checkedHits (d : Desktop) (index : Fin 2) : Option Bool :=
  match d.layout index with
  | some r => do
    let right ← i16 (r.x+r.width)
    let bottom ← i16 (r.y+windowH)
    return decide (r.x ≤ d.pointerX ∧ d.pointerX < right ∧ r.y ≤ d.pointerY ∧
      d.pointerY < bottom)
  | none => some false

def checkedHit (d : Desktop) : Option (Option (Fin 2)) := do
  let onActive ← d.checkedHits d.active
  let onOther ← d.checkedHits (otherTerminal d.active)
  return if onActive then some d.active
    else if onOther then some (otherTerminal d.active) else none

def checkedPress (d : Desktop) : Option (Desktop × Option InputEvent) := do
  let released := { d with drag := none }
  match ← d.checkedHit with
  | some index => match d.layout index with
    | some r =>
      let focused := { released with active := index }
      let right ← i16 (r.x+r.width)
      let closeLeft ← i16 (right-4)
      let closeRight ← i16 (right-1)
      if d.pointerY = r.y ∧ closeLeft ≤ d.pointerX ∧ d.pointerX < closeRight then
        return (focused,some (.closeTerminal index))
      else if d.pointerY = r.y then
        let offsetX ← i16 (d.pointerX-r.x)
        let offsetY ← i16 (d.pointerY-r.y)
        return ({ focused with drag := some ⟨index,offsetX,offsetY⟩ },none)
      else return (focused,none)
    | none => return (released,none)
  | none =>
    if 3 ≤ d.pointerX ∧ d.pointerX ≤ 12 ∧ 1 ≤ d.pointerY ∧ d.pointerY ≤ 3 then
      return (released,some .openTerminal)
    else return (released,none)

def checkedDragWindow (d : Desktop) : Option Desktop :=
  match d.drag with
  | some drag => do
    let x ← i16 (d.pointerX-drag.offsetX)
    let y ← i16 (d.pointerY-drag.offsetY)
    let width := (d.layout drag.index).elim 38 Rect.width
    let rightmost ← i16 (screenW-width)
    let moved : Window := ⟨clamp x 0 rightmost,clamp y 1 (screenH-windowH-1)⟩
    return { d with windows := Function.update d.windows drag.index moved }
  | none => some d

/-- The left button goes down with this packet. -/
def checkedPressIf (d : Desktop) (pressed : Prop) [Decidable pressed] :
    Option (Desktop × Option InputEvent) :=
  if pressed then d.checkedPress else some (d,none)

def checkedFinishPacket (d : Desktop) : Option MouseResult := do
  let flags ← d.packet[0]?
  let dx ← checkedDisplacement (← d.packet[1]?) flags 0x10
  let dy ← checkedDisplacement (← d.packet[2]?) flags 0x20
  let moved ← d.checkedMovePointer dx dy
  let pressed ← moved.checkedPressIf (flags &&& 1 ≠ 0 ∧ d.buttons &&& 1 = 0)
  let released := if flags &&& 1 = 0 then { pressed.1 with drag := none } else pressed.1
  let dragged ← released.checkedDragWindow
  return ⟨{ dragged with buttons := flags &&& 7, packetLen := 0 },pressed.2,true⟩

/-- `mouse_byte` with the overflow checks. -/
def checkedMouseByte (d : Desktop) (byte : UInt8) : Option MouseResult :=
  if d.packetLen = 0 ∧ byte &&& 8 = 0 then some ⟨d,none,false⟩
  else (Crabsh.storeByte d.packet d.packetLen byte).bind fun packet =>
    let stored := { d with packet := packet, packetLen := d.packetLen+1 }
    if stored.packetLen = 3 then stored.checkedFinishPacket else some ⟨stored,none,false⟩

/-! ### The invariant -/

/-- The rectangle is on the screen, below the top row and above the bottom row. -/
structure OnScreen (r : Rect) : Prop where
  left : 0 ≤ r.x
  right : r.x+r.width ≤ screenW
  top : 1 ≤ r.y
  bottom : r.y+windowH ≤ 24

/-- The drag is of the focused window, which is open, by its title bar. -/
structure Grabbed (d : Desktop) (drag : Drag) : Prop where
  focused : drag.index = d.active
  title : ∃ r, d.layout drag.index = some r ∧ 0 ≤ drag.offsetX ∧ drag.offsetX < r.width ∧
    drag.offsetY = 0

/-- What the rest of the kernel may rely on between two critical sections. -/
structure Valid (d : Desktop) : Prop where
  packetLen : d.packetLen ≤ 2
  pointerX : 0 ≤ d.pointerX ∧ d.pointerX < screenW
  pointerY : 0 ≤ d.pointerY ∧ d.pointerY < screenH
  focus : ∀ index, d.isOpen index → d.isOpen d.active
  rects : ∀ index r, d.layout index = some r → OnScreen r
  drag : ∀ drag, d.drag = some drag → d.Grabbed drag ∧ d.buttons &&& 1 ≠ 0

/-- Positions that are on the screen with either width. -/
structure Placed (w : Window) : Prop where
  left : 0 ≤ w.x
  right : w.x ≤ 42
  top : 1 ≤ w.y
  bottom : w.y ≤ 4

/-- What holds also while a packet is handled. Closed windows keep positions that would be on the
screen, and the rest of a motion is less than a cell. -/
structure Steady (d : Desktop) : Prop where
  pointerX : 0 ≤ d.pointerX ∧ d.pointerX < 80
  pointerY : 0 ≤ d.pointerY ∧ d.pointerY < 25
  motionX : -8 < d.motionX ∧ d.motionX < 8
  motionY : -16 < d.motionY ∧ d.motionY < 16
  focus : ∀ index, d.isOpen index → d.isOpen d.active
  placed : ∀ index, Placed (d.windows index)
  drag : ∀ drag, d.drag = some drag → d.Grabbed drag

lemma clamp_bounds (value : ℤ) {low high : ℤ} (h : low ≤ high) :
    low ≤ clamp value low high ∧ clamp value low high ≤ high :=
  ⟨le_max_left _ _,max_le h (min_le_right _ _)⟩

lemma layout_open {d : Desktop} {index : Fin 2} (h : d.isOpen index) :
    ∃ r, d.layout index = some r := by
  rw [← Option.isSome_iff_exists,layout_isSome]
  exact h

/-- The width depends only on how many windows are open. -/
lemma layout_width {d : Desktop} {index : Fin 2} {r : Rect} (h : d.layout index = some r) :
    d.isOpen index ∧ r.width = if d.openCount = 1 then 74 else 38 := by
  unfold layout at h
  split_ifs at h with hopen hcount
  · cases h
    exact ⟨hopen,(if_pos hcount).symm⟩
  · cases h
    exact ⟨hopen,(if_neg hcount).symm⟩

lemma width_cases {d : Desktop} {index : Fin 2} {r : Rect} (h : d.layout index = some r) :
    r.width = 74 ∨ r.width = 38 := by
  rw [(layout_width h).2]
  split_ifs
  · exact .inl rfl
  · exact .inr rfl

/-- Moving windows around does not resize them. -/
lemma layout_resized {d d' : Desktop} {index : Fin 2} {r : Rect} (hopen : d'.isOpen = d.isOpen)
    (h : d.layout index = some r) : ∃ r', d'.layout index = some r' ∧ r'.width = r.width := by
  obtain ⟨hindex,hwidth⟩ := layout_width h
  have hcount : d'.openCount = d.openCount := by
    unfold openCount
    rw [hopen]
  rw [← hopen] at hindex
  obtain ⟨r',hr'⟩ := layout_open hindex
  refine ⟨r',hr',?_⟩
  rw [(layout_width hr').2,hwidth,hcount]

lemma dragWindow_eq {d : Desktop} {drag : Drag} {r : Rect} (h : d.drag = some drag)
    (hr : d.layout drag.index = some r) :
    d.dragWindow = { d with
      windows := Function.update d.windows drag.index
        ⟨clamp (d.pointerX-drag.offsetX) 0 (screenW-r.width),
          clamp (d.pointerY-drag.offsetY) 1 (screenH-windowH-1)⟩ } := by
  simp only [dragWindow,h,hr,Option.elim_some]

/-- Windows on the screen are laid out on the screen. -/
lemma onScreen {d : Desktop} {index : Fin 2} {r : Rect} (hplaced : Placed (d.windows index))
    (h : d.layout index = some r) : OnScreen r := by
  obtain ⟨hleft,hright,htop,hbottom⟩ := hplaced
  unfold layout at h
  split_ifs at h
  · cases h
    have hwidth : (0 : ℤ) ≤ screenW-windowW := by decide
    obtain ⟨hlow,hhigh⟩ := clamp_bounds (d.windows index).x hwidth
    constructor
    all_goals simp only [screenW,windowW,windowH] at *
    all_goals omega
  · cases h
    constructor
    all_goals simp only [screenW,windowH]
    all_goals omega

lemma displacement_bounds (byte flags sign : UInt8) :
    -256 ≤ displacement byte flags sign ∧ displacement byte flags sign ≤ 255 := by
  have hbyte := byte.toNat_lt
  unfold displacement
  split_ifs
  · omega
  · omega

lemma checkedDisplacement_eq (byte flags sign : UInt8) :
    checkedDisplacement byte flags sign = some (displacement byte flags sign) := by
  obtain ⟨hlow,hhigh⟩ := displacement_bounds byte flags sign
  exact i16_eq (le_trans (by decide) hlow) (le_trans hhigh (by decide))

/-- Truncated division by a positive number. -/
lemma tdiv_tmod_bounds (value : ℤ) {n : ℤ} (hn : 0 < n) :
    n*value.tdiv n+value.tmod n = value ∧ -n < value.tmod n ∧ value.tmod n < n :=
  ⟨Int.mul_tdiv_add_tmod value n,Int.lt_tmod_of_pos value hn,Int.tmod_lt_of_pos value hn⟩

namespace Steady
variable {d : Desktop}

lemma release (h : Steady d) : Steady { d with drag := none } :=
  ⟨h.pointerX,h.pointerY,h.motionX,h.motionY,h.focus,h.placed,nofun⟩

lemma movePointer (h : Steady d) (dx dy : ℤ) : Steady (d.movePointer dx dy) where
  pointerX := by
    obtain ⟨hlow,hhigh⟩ := clamp_bounds
      (d.pointerX+(d.motionX+dx).tdiv mouseCellsPerCountX) (show (0 : ℤ) ≤ screenW-1 by decide)
    exact ⟨hlow,Int.lt_of_le_sub_one hhigh⟩
  pointerY := by
    obtain ⟨hlow,hhigh⟩ := clamp_bounds
      (d.pointerY-(d.motionY+dy).tdiv mouseCellsPerCountY) (show (0 : ℤ) ≤ screenH-1 by decide)
    exact ⟨hlow,Int.lt_of_le_sub_one hhigh⟩
  motionX := (tdiv_tmod_bounds (d.motionX+dx) (by decide)).2
  motionY := (tdiv_tmod_bounds (d.motionY+dy) (by decide)).2
  focus := h.focus
  placed := h.placed
  drag drag hd := ⟨(h.drag drag hd).focused,(h.drag drag hd).title⟩

lemma checkedMovePointer_eq (h : Steady d) {dx dy : ℤ} (hdx : -256 ≤ dx ∧ dx ≤ 255)
    (hdy : -256 ≤ dy ∧ dy ≤ 255) : d.checkedMovePointer dx dy = some (d.movePointer dx dy) := by
  obtain ⟨hx,hx'⟩ := h.motionX
  obtain ⟨hy,hy'⟩ := h.motionY
  obtain ⟨hpx,hpx'⟩ := h.pointerX
  obtain ⟨hpy,hpy'⟩ := h.pointerY
  have hdivX := tdiv_tmod_bounds (d.motionX+dx) (show (0 : ℤ) < 8 by decide)
  have hdivY := tdiv_tmod_bounds (d.motionY+dy) (show (0 : ℤ) < 16 by decide)
  have hmotionX : i16 (d.motionX+dx) = some (d.motionX+dx) := i16_eq (by omega) (by omega)
  have hmotionY : i16 (d.motionY+dy) = some (d.motionY+dy) := i16_eq (by omega) (by omega)
  have hpointerX : i16 (d.pointerX+(d.motionX+dx).tdiv mouseCellsPerCountX) = some _ :=
    i16_eq (by unfold mouseCellsPerCountX; omega) (by unfold mouseCellsPerCountX; omega)
  have hpointerY : i16 (d.pointerY-(d.motionY+dy).tdiv mouseCellsPerCountY) = some _ :=
    i16_eq (by unfold mouseCellsPerCountY; omega) (by unfold mouseCellsPerCountY; omega)
  simp only [checkedMovePointer,hmotionX,hmotionY,hpointerX,hpointerY,Option.bind_eq_bind,
    Option.bind_some]
  rfl

/-- The bounds of a rectangle on the screen, as the arithmetic needs them. -/
lemma rect_bounds (h : Steady d) {index : Fin 2} {r : Rect} (hr : d.layout index = some r) :
    0 ≤ r.x ∧ r.x+r.width ≤ 80 ∧ 38 ≤ r.width ∧ 1 ≤ r.y ∧ r.y ≤ 4 := by
  obtain ⟨hleft,hright,htop,hbottom⟩ := onScreen (h.placed index) hr
  simp only [screenW,windowH] at hright hbottom
  have hwidth := width_cases hr
  omega

lemma checkedHits_eq (h : Steady d) (index : Fin 2) :
    d.checkedHits index = some (d.hits index) := by
  unfold checkedHits hits
  cases hr : d.layout index with
  | none => rfl
  | some r =>
    obtain ⟨hleft,hright,hwidth,htop,hbottom⟩ := h.rect_bounds hr
    have hsumX : i16 (r.x+r.width) = some _ := i16_eq (by omega) (by omega)
    have hsumY : i16 (r.y+windowH) = some _ :=
      i16_eq (by unfold windowH; omega) (by unfold windowH; omega)
    simp only [hsumX,hsumY,Option.bind_eq_bind,Option.bind_some]
    rfl

lemma checkedHit_eq (h : Steady d) : d.checkedHit = some d.hit := by
  simp only [checkedHit,h.checkedHits_eq,Option.bind_eq_bind,Option.bind_some,hit,List.find?]
  cases d.hits d.active with
  | true => rfl
  | false =>
    cases d.hits (otherTerminal d.active) with
    | true => rfl
    | false => rfl

lemma checkedPress_eq (h : Steady d) : d.checkedPress = some d.press := by
  obtain ⟨hpx,hpx'⟩ := h.pointerX
  obtain ⟨hpy,hpy'⟩ := h.pointerY
  unfold checkedPress press
  simp only [h.checkedHit_eq,Option.bind_eq_bind,Option.bind_some]
  cases d.hit with
  | none =>
    dsimp only
    split_ifs
    · rfl
    · rfl
  | some index =>
    cases hr : d.layout index with
    | none => simp only [hr]; rfl
    | some r =>
      obtain ⟨hleft,hright,hwidth,htop,hbottom⟩ := h.rect_bounds hr
      have hsum : i16 (r.x+r.width) = some _ := i16_eq (by omega) (by omega)
      have hcloseLeft : i16 (r.x+r.width-4) = some _ := i16_eq (by omega) (by omega)
      have hcloseRight : i16 (r.x+r.width-1) = some _ := i16_eq (by omega) (by omega)
      have hoffsetX : i16 (d.pointerX-r.x) = some _ := i16_eq (by omega) (by omega)
      have hoffsetY : i16 (d.pointerY-r.y) = some _ := i16_eq (by omega) (by omega)
      simp only [hr,hsum,hcloseLeft,hcloseRight,hoffsetX,hoffsetY,Option.bind_some]
      split_ifs
      · rfl
      · rfl
      · rfl

end Steady

/-- The pointer is inside a window that is hit. -/
lemma hit_inside {d : Desktop} {index : Fin 2} {r : Rect} (h : d.hit = some index)
    (hr : d.layout index = some r) :
    r.x ≤ d.pointerX ∧ d.pointerX < r.x+r.width ∧ r.y ≤ d.pointerY ∧ d.pointerY < r.y+windowH := by
  have hhits := List.find?_some h
  unfold hits at hhits
  rw [hr] at hhits
  exact of_decide_eq_true hhits

namespace Steady
variable {d : Desktop}

lemma focusOn (h : Steady d) {index : Fin 2} (hopen : d.isOpen index) :
    Steady { d with drag := none, active := index } :=
  ⟨h.pointerX,h.pointerY,h.motionX,h.motionY,fun _ _ => hopen,h.placed,nofun⟩

/-- A press only changes the focus and the drag, and takes hold of a title bar at most. -/
lemma press (h : Steady d) : Steady d.press.1 := by
  unfold Desktop.press
  cases hhit : d.hit with
  | none =>
    dsimp only
    split_ifs
    · exact h.release
    · exact h.release
  | some index =>
    cases hr : d.layout index with
    | none =>
      simp only [hr]
      exact h.release
    | some r =>
      have hfocused := h.focusOn (hit_open hhit)
      simp only [hr]
      split_ifs with hclose htitle
      · exact hfocused
      · refine ⟨h.pointerX,h.pointerY,h.motionX,h.motionY,hfocused.focus,h.placed,?_⟩
        rintro drag hdrag
        obtain ⟨hleft,hright,-⟩ := hit_inside hhit hr
        cases hdrag
        refine ⟨rfl,r,hr,?_,?_,?_⟩
        · change 0 ≤ d.pointerX-r.x
          omega
        · change d.pointerX-r.x < r.width
          omega
        · change d.pointerY-r.y = 0
          omega
      · exact hfocused

lemma checkedDragWindow_eq (h : Steady d) : d.checkedDragWindow = some d.dragWindow := by
  obtain ⟨hpx,hpx'⟩ := h.pointerX
  obtain ⟨hpy,hpy'⟩ := h.pointerY
  unfold checkedDragWindow Desktop.dragWindow
  cases hdrag : d.drag with
  | none => rfl
  | some drag =>
    obtain ⟨-,r,hr,hlow,hhigh,hzero⟩ := h.drag drag hdrag
    obtain ⟨hleft,hright,hwidth,htop,hbottom⟩ := h.rect_bounds hr
    have hx : i16 (d.pointerX-drag.offsetX) = some _ := i16_eq (by omega) (by omega)
    have hy : i16 (d.pointerY-drag.offsetY) = some _ := i16_eq (by omega) (by omega)
    have hrightmost : i16 (screenW-r.width) = some _ :=
      i16_eq (by unfold screenW; omega) (by unfold screenW; omega)
    simp only [hr,Option.elim_some,hx,hy,hrightmost,Option.bind_eq_bind,Option.bind_some]
    rfl

/-- The window that is dragged stays on the screen. -/
lemma dragWindow (h : Steady d) : Steady d.dragWindow := by
  cases hdrag : d.drag with
  | none =>
    have hsame : d.dragWindow = d := by
      unfold Desktop.dragWindow
      rw [hdrag]
    rw [hsame]
    exact h
  | some drag =>
    obtain ⟨hfocused,r,hr,hlow,hhigh,hzero⟩ := h.drag drag hdrag
    have hwidth := (h.rect_bounds hr).2.2.1
    have hright := (h.rect_bounds hr).2.1
    have hleft := (h.rect_bounds hr).1
    rw [dragWindow_eq hdrag hr]
    constructor
    case pointerX => exact h.pointerX
    case pointerY => exact h.pointerY
    case motionX => exact h.motionX
    case motionY => exact h.motionY
    case focus => exact h.focus
    case placed =>
      intro index
      by_cases hindex : index = drag.index
      · subst hindex
        have hroom : 0 ≤ screenW-r.width := by
          unfold screenW
          omega
        have hx := clamp_bounds (d.pointerX-drag.offsetX) hroom
        have hy := clamp_bounds (d.pointerY-drag.offsetY) (show 1 ≤ screenH-windowH-1 by decide)
        dsimp only
        rw [Function.update_self]
        refine ⟨hx.1,hx.2.trans ?_,hy.1,hy.2⟩
        unfold screenW
        omega
      · dsimp only
        rw [Function.update_of_ne hindex]
        exact h.placed index
    case drag =>
      intro drag' hdrag'
      have hsame : drag' = drag := Option.some.inj (hdrag'.symm.trans hdrag)
      subst hsame
      refine ⟨hfocused,?_⟩
      generalize hd' : ({ d with windows := _ } : Desktop) = d'
      have hopen : d'.isOpen = d.isOpen := by
        rw [← hd']
      obtain ⟨r',hr',hwidth'⟩ := layout_resized hopen hr
      exact ⟨r',hr',hlow,by rw [hwidth']; exact hhigh,hzero⟩

/-- What is kept of a packet between bytes does not matter. -/
lemma store (h : Steady d) (packet : Vector UInt8 3) (buttons : UInt8) (packetLen : ℕ) :
    Steady { d with packet := packet, buttons := buttons, packetLen := packetLen } :=
  ⟨h.pointerX,h.pointerY,h.motionX,h.motionY,h.focus,h.placed,fun drag hdrag =>
    ⟨(h.drag drag hdrag).focused,(h.drag drag hdrag).title⟩⟩

/-- The third byte of a packet overflows nowhere and keeps everything in place. -/
lemma finishPacket (h : Steady d) : d.checkedFinishPacket = some d.finishPacket ∧
    Steady d.finishPacket.desktop := by
  have hmoved := h.movePointer (displacement d.packet[1] d.packet[0] 0x10)
    (displacement d.packet[2] d.packet[0] 0x20)
  have hmove := h.checkedMovePointer_eq (displacement_bounds d.packet[1] d.packet[0] 0x10)
    (displacement_bounds d.packet[2] d.packet[0] 0x20)
  have hbyte : ∀ i (hi : i < 3), d.packet[i]? = some d.packet[i] :=
    fun i hi => Vector.getElem?_eq_getElem hi
  unfold checkedFinishPacket Desktop.finishPacket
  simp only [hbyte 0 (by decide),hbyte 1 (by decide),hbyte 2 (by decide),checkedDisplacement_eq,
    hmove,Option.bind_eq_bind,Option.bind_some]
  generalize d.movePointer _ _ = moved at hmoved
  have hpress : moved.checkedPressIf (d.packet[0] &&& 1 ≠ 0 ∧ d.buttons &&& 1 = 0) =
      some (if d.packet[0] &&& 1 ≠ 0 ∧ d.buttons &&& 1 = 0 then moved.press else (moved,none)) := by
    unfold checkedPressIf
    rw [hmoved.checkedPress_eq]
    split_ifs
    · rfl
    · rfl
  have hpressed : Steady (if d.packet[0] &&& 1 ≠ 0 ∧ d.buttons &&& 1 = 0 then moved.press
      else (moved,none)).1 := by
    split_ifs
    · exact hmoved.press
    · exact hmoved
  rw [hpress,Option.bind_some]
  generalize (if d.packet[0] &&& 1 ≠ 0 ∧ d.buttons &&& 1 = 0 then moved.press
      else (moved,none)) = pressed at hpressed
  have hreleased : Steady (if d.packet[0] &&& 1 = 0 then { pressed.1 with drag := none }
      else pressed.1) := by
    split_ifs
    · exact hpressed.release
    · exact hpressed
  rw [hreleased.checkedDragWindow_eq]
  exact ⟨rfl,hreleased.dragWindow.store _ _ _⟩

end Steady

lemma dragWindow_drag (d : Desktop) : d.dragWindow.drag = d.drag := by
  unfold dragWindow
  split
  · rfl
  · rfl

/-- After a packet without the left button there is no drag. -/
lemma finishPacket_drag {d : Desktop} {drag : Drag} (h : d.finishPacket.desktop.drag = some drag) :
    d.finishPacket.desktop.buttons &&& 1 ≠ 0 := by
  change (d.packet[0] &&& 7) &&& 1 ≠ 0
  rw [UInt8.and_assoc,show (7 : UInt8) &&& 1 = 1 from rfl]
  intro hreleased
  unfold finishPacket at h
  dsimp only at h
  rw [dragWindow_drag,if_pos hreleased] at h
  cases h

/-! ### Every sequence of critical sections -/

inductive Event
  | mouse (byte : UInt8)
  | openTerminal
  | closeTerminal (index : ℕ)

/-- One critical section; an overflow or an index out of range aborts. -/
def step (d : Desktop) : Event → Option Desktop
  | .mouse byte => (d.checkedMouseByte byte).map MouseResult.desktop
  | .openTerminal => some d.openWindow.1
  | .closeTerminal index => some (d.closeWindow index)

/-- The invariant between two critical sections. -/
structure Settled (d : Desktop) : Prop extends Steady d where
  packetLen : d.packetLen ≤ 2
  held : ∀ drag, d.drag = some drag → d.buttons &&& 1 ≠ 0

lemma placed_ite {w w' : Window} (h : Placed w) (h' : Placed w') (c : Prop) [Decidable c] :
    Placed (if c then w else w') := by
  split_ifs
  · exact h
  · exact h'

lemma settled_initial : Settled initial where
  pointerX := by decide
  pointerY := by decide
  motionX := by decide
  motionY := by decide
  focus := by decide
  placed _ := placed_ite ⟨by decide,by decide,by decide,by decide⟩
    ⟨by decide,by decide,by decide,by decide⟩ _
  drag := nofun
  packetLen := by decide
  held := nofun

namespace Settled
variable {d : Desktop}

lemma valid (h : Settled d) : Valid d where
  packetLen := h.packetLen
  pointerX := h.pointerX
  pointerY := h.pointerY
  focus := h.focus
  rects index _ hr := onScreen (h.placed index) hr
  drag drag hdrag := ⟨h.drag drag hdrag,h.held drag hdrag⟩

lemma mouseByte (h : Settled d) (byte : UInt8) :
    ∃ result, d.checkedMouseByte byte = some result ∧ d.mouseByte byte = some result ∧
      Settled result.desktop := by
  unfold checkedMouseByte Desktop.mouseByte
  have hlen := h.packetLen
  split_ifs with hskip
  · exact ⟨_,rfl,rfl,h⟩
  · rw [Crabsh.storeByte,dif_pos (by omega),Option.bind_some,Option.map_some]
    dsimp only
    have hstored := h.toSteady.store (d.packet.set d.packetLen byte (by omega)) d.buttons
      (d.packetLen+1)
    split_ifs with hfull
    · obtain ⟨hchecked,hsteady⟩ := hstored.finishPacket
      exact ⟨_,hchecked,rfl,hsteady,Nat.zero_le _,fun _ => finishPacket_drag⟩
    · exact ⟨_,rfl,rfl,hstored,by dsimp only; omega,h.held⟩

lemma openWindow (h : Settled d) : Settled d.openWindow.1 := by
  unfold Desktop.openWindow
  cases firstClosed d.isOpen with
  | none => exact h
  | some index =>
    refine ⟨⟨h.pointerX,h.pointerY,h.motionX,h.motionY,?_,?_,nofun⟩,h.packetLen,nofun⟩
    · intro _ _
      exact Function.update_self _ _ _
    · intro i
      dsimp only
      split_ifs with hopen
      · exact placed_ite ⟨by decide,by decide,by decide,by decide⟩
          ⟨by decide,by decide,by decide,by decide⟩ _
      · by_cases hi : i = index
        · subst hi
          rw [Function.update_self]
          exact ⟨by decide,by decide,by decide,by decide⟩
        · rw [Function.update_of_ne hi]
          exact h.placed i

lemma closeWindow (h : Settled d) (index : ℕ) : Settled (d.closeWindow index) :=
  ⟨⟨h.pointerX,h.pointerY,h.motionX,h.motionY,
    (Sound.closeWindow ⟨h.focus,Nat.lt_succ_of_le h.packetLen⟩ index).focus,h.placed,nofun⟩,
    h.packetLen,nofun⟩

/-- No section aborts, and each keeps the invariant. -/
theorem step (h : Settled d) (event : Event) : ∃ d', d.step event = some d' ∧ Settled d' := by
  cases event with
  | mouse byte =>
    obtain ⟨result,hresult,-,hsettled⟩ := h.mouseByte byte
    refine ⟨result.desktop,?_,hsettled⟩
    rw [Desktop.step,hresult]
    rfl
  | openTerminal => exact ⟨_,rfl,h.openWindow⟩
  | closeTerminal index => exact ⟨_,rfl,h.closeWindow index⟩

theorem run (h : Settled d) (events : List Event) :
    ∃ d', Runs.run Desktop.step events d = some d' ∧ Settled d' :=
  Runs.run_total (fun _ event hd => hd.step event) h events

end Settled
end CrabOs.Desktop
