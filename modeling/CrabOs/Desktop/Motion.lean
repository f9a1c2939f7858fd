import CrabOs.Desktop.Geometry

/-! The motion of the mouse: whole cells go to the pointer and the rest is kept for the next packet,
so no motion is lost however it is split into packets. -/
namespace CrabOs.Desktop

/-- The three bytes of a packet. -/
structure Packet where
  flags : UInt8
  x : UInt8
  y : UInt8

namespace Packet

def bytes (p : Packet) : List Event := [.mouse p.flags,.mouse p.x,.mouse p.y]

/-- The 9-bit two's complement number with the sign bit in the flags. -/
def signed (flags sign byte : UInt8) : ℤ :=
  (BitVec.ofBool (flags &&& sign != 0) ++ byte.toBitVec).toInt

def dx (p : Packet) : ℤ := signed p.flags 0x10 p.x

def dy (p : Packet) : ℤ := signed p.flags 0x20 p.y

end Packet

lemma displacement_eq (byte flags sign : UInt8) :
    displacement byte flags sign = Packet.signed flags sign byte := by
  have hsigned : Packet.signed flags sign byte =
      2^8*-(flags &&& sign != 0).toInt+(byte.toNat : ℤ) := by
    rw [Packet.signed,BitVec.toInt_append,BitVec.toInt_ofBool,UInt8.toNat_toBitVec]
    rfl
  rw [hsigned,displacement]
  by_cases hsign : flags &&& sign = 0
  · rw [if_neg (not_not.mpr hsign),hsign]
    simp
  · rw [if_pos hsign,bne_iff_ne.mpr hsign,Bool.toInt_true]
    ring

/-- Where the pointer and the motion not yet shown are. -/
structure Travel where
  pointerX : ℤ
  pointerY : ℤ
  motionX : ℤ
  motionY : ℤ

def travel (d : Desktop) : Travel := ⟨d.pointerX,d.pointerY,d.motionX,d.motionY⟩

lemma press_travel (d : Desktop) : d.press.1.travel = d.travel := by
  unfold press
  repeat' split
  all_goals rfl

lemma dragWindow_travel (d : Desktop) : d.dragWindow.travel = d.travel := by
  unfold dragWindow
  split
  · rfl
  · rfl

/-- Presses and drags leave the pointer alone. -/
lemma finishPacket_travel {d : Desktop} {p : Packet} (hflags : d.packet[0]? = some p.flags)
    (hx : d.packet[1]? = some p.x) (hy : d.packet[2]? = some p.y) :
    d.finishPacket.desktop.travel = (d.movePointer p.dx p.dy).travel := by
  obtain ⟨_,hf⟩ := Vector.getElem?_eq_some_iff.mp hflags
  obtain ⟨_,hx'⟩ := Vector.getElem?_eq_some_iff.mp hx
  obtain ⟨_,hy'⟩ := Vector.getElem?_eq_some_iff.mp hy
  unfold finishPacket
  dsimp only
  rw [hf,hx',hy',displacement_eq,displacement_eq,← Packet.dx,← Packet.dy]
  generalize d.movePointer _ _ = moved
  generalize hdrag : dragWindow _ = dragged
  have htravel : dragged.travel = moved.travel := by
    rw [← hdrag,dragWindow_travel]
    split_ifs
    · exact press_travel moved
    · rfl
    · exact press_travel moved
    · rfl
  exact htravel

lemma Settled.step_mouse {d : Desktop} (h : Settled d) {byte : UInt8} {result : MouseResult}
    (hresult : d.mouseByte byte = some result) :
    d.step (.mouse byte) = some result.desktop ∧ Settled result.desktop := by
  obtain ⟨result',hchecked,hresult',hsettled⟩ := h.mouseByte byte
  obtain rfl := Option.some.inj (hresult'.symm.trans hresult)
  exact ⟨by rw [Desktop.step,hchecked]; rfl,hsettled⟩

/-- The bytes of a packet, from its first one on. -/
def feed (d : Desktop) (p : Packet) : Option Desktop := Runs.run step p.bytes d

/-- A packet moves the pointer. -/
lemma Settled.feed {d : Desktop} (h : Settled d) (hlen : d.packetLen = 0) {p : Packet}
    (hsync : p.flags &&& 8 ≠ 0) : ∃ d', d.feed p = some d' ∧ Settled d' ∧ d'.packetLen = 0 ∧
      d'.travel = (d.movePointer p.dx p.dy).travel := by
  obtain ⟨h₁,hs₁⟩ := h.step_mouse (mouseByte_stored (by omega) fun _ => hsync)
  obtain ⟨h₂,hs₂⟩ := hs₁.step_mouse (mouseByte_stored (by simp [hlen]) (by simp [hlen]))
  obtain ⟨h₃,hs₃⟩ := hs₂.step_mouse (mouseByte_completes (by simp [hlen]) p.y)
  refine ⟨_,?_,hs₃,rfl,?_⟩
  · rw [Desktop.feed,Packet.bytes,Runs.run,h₁,Option.bind_some,Runs.run,h₂,Option.bind_some,
      Runs.run,h₃]
    rfl
  · exact finishPacket_travel (by simp [hlen]) (by simp [hlen]) (by simp [hlen])

/-! ### Conservation -/

/-- The pointer and the motion not yet shown together, in counts of the mouse. -/
def Travel.countX (p : Travel) : ℤ := mouseCellsPerCountX*p.pointerX+p.motionX

/-- The screen counts downwards, the mouse upwards. -/
def Travel.countY (p : Travel) : ℤ := mouseCellsPerCountY*p.pointerY-p.motionY

/-- The packet does not move the pointer off the screen. -/
def Unclamped (d : Desktop) (p : Packet) : Prop :=
  (0 ≤ d.pointerX+(d.motionX+p.dx).tdiv mouseCellsPerCountX ∧
    d.pointerX+(d.motionX+p.dx).tdiv mouseCellsPerCountX ≤ screenW-1) ∧
  (0 ≤ d.pointerY-(d.motionY+p.dy).tdiv mouseCellsPerCountY ∧
    d.pointerY-(d.motionY+p.dy).tdiv mouseCellsPerCountY ≤ screenH-1)

lemma clamp_of_bounds {value low high : ℤ} (h : low ≤ value ∧ value ≤ high) :
    clamp value low high = value := by
  rw [clamp,min_eq_left h.2,max_eq_right h.1]

lemma Unclamped.conserves {d : Desktop} {p : Packet} (h : d.Unclamped p) :
    (d.movePointer p.dx p.dy).travel.countX = d.travel.countX+p.dx ∧
      (d.movePointer p.dx p.dy).travel.countY = d.travel.countY-p.dy := by
  have hx := (tdiv_tmod_bounds (d.motionX+p.dx) (show 0 < mouseCellsPerCountX by decide)).1
  have hy := (tdiv_tmod_bounds (d.motionY+p.dy) (show 0 < mouseCellsPerCountY by decide)).1
  constructor
  · simp only [movePointer,travel,Travel.countX,clamp_of_bounds h.1]
    rw [mul_add]
    linarith only [hx]
  · simp only [movePointer,travel,Travel.countY,clamp_of_bounds h.2]
    rw [mul_sub]
    linarith only [hy]

/-- Every sequence of packets can be fed, and without clamping it moves the pointer and the motion
not yet shown by the sum of what the packets say. -/
lemma Settled.feedAll {d : Desktop} (h : Settled d) (hlen : d.packetLen = 0) {packets : List Packet}
    (hsync : ∀ p ∈ packets, p.flags &&& 8 ≠ 0) :
    ∃ d', Runs.run Desktop.feed packets d = some d' ∧ Settled d' ∧ d'.packetLen = 0 ∧
      (Runs.Meets Desktop.feed Unclamped packets d →
        d'.travel.countX = d.travel.countX+(packets.map Packet.dx).sum ∧
        d'.travel.countY = d.travel.countY-(packets.map Packet.dy).sum) := by
  induction packets generalizing d with
  | nil => exact ⟨d,rfl,h,hlen,fun _ => by simp⟩
  | cons p packets ih =>
    obtain ⟨d₁,hfeed,hsettled,hlen₁,htravel⟩ := h.feed hlen (hsync p List.mem_cons_self)
    obtain ⟨d₂,hrun,hsettled₂,hlen₂,hconserved⟩ := ih hsettled hlen₁ fun q hq =>
      hsync q (List.mem_cons_of_mem p hq)
    refine ⟨d₂,by rw [Runs.run,hfeed,Option.bind_some,hrun],hsettled₂,hlen₂,fun hmeets => ?_⟩
    obtain ⟨hunclamped,hmeets₁⟩ := hmeets d₁ hfeed
    obtain ⟨hx,hy⟩ := hconserved hmeets₁
    obtain ⟨hx₁,hy₁⟩ := hunclamped.conserves
    rw [htravel] at hx hy
    rw [List.map_cons,List.sum_cons,List.map_cons,List.sum_cons,hx,hy,hx₁,hy₁]
    constructor
    · ring
    · ring

/-- The motion that is kept is less than what moves the pointer by one cell. -/
def SmallMotion (d : Desktop) : Prop :=
  |d.motionX| < mouseCellsPerCountX ∧ |d.motionY| < mouseCellsPerCountY

lemma Settled.smallMotion {d : Desktop} (h : Settled d) : SmallMotion d :=
  ⟨abs_lt.mpr h.motionX,abs_lt.mpr h.motionY⟩

/-- From every state the desktop can be in between two packets, a sequence of packets moves the
pointer and the rest of the motion by exactly what the packets say, unless the screen ends; the
rest is always less than a cell, so the pointer is less than a cell from where the mouse is. -/
theorem motion_conserved (history : List Event) (d : Desktop)
    (hd : Runs.run step history initial = some d) (hlen : d.packetLen = 0) (packets : List Packet)
    (hsync : ∀ p ∈ packets, p.flags &&& 8 ≠ 0) :
    ∃ d', Runs.run step (packets.flatMap Packet.bytes) d = some d' ∧
      Runs.Always step SmallMotion (packets.flatMap Packet.bytes) d ∧
      (Runs.Meets feed Unclamped packets d →
        8*d'.pointerX+d'.motionX = 8*d.pointerX+d.motionX+(packets.map Packet.dx).sum ∧
        16*d'.pointerY-d'.motionY = 16*d.pointerY-d.motionY-(packets.map Packet.dy).sum ∧
        |8*d'.pointerX-(8*d.pointerX+d.motionX+(packets.map Packet.dx).sum)| < 8 ∧
        |16*d'.pointerY-(16*d.pointerY-d.motionY-(packets.map Packet.dy).sum)| < 16) := by
  have hkeeps : ∀ d event d', Settled d → d.step event = some d' → Settled d' := by
    intro d event d' h hstep
    obtain ⟨d'',hstep',hsettled⟩ := h.step event
    obtain rfl := Option.some.inj (hstep'.symm.trans hstep)
    exact hsettled
  have hsettled : Settled d := Runs.invariant_run hkeeps settled_initial hd
  obtain ⟨d',hrun,hsettled',-,hconserved⟩ := hsettled.feedAll hlen hsync
  refine ⟨d',?_,Runs.always_of_invariant hkeeps (fun _ h => h.smallMotion) hsettled _,
    fun hmeets => ?_⟩
  · rw [Runs.run_flatMap]
    exact hrun
  · obtain ⟨hx,hy⟩ := hconserved hmeets
    obtain ⟨hsmallX,hsmallY⟩ := hsettled'.smallMotion
    simp only [Travel.countX,Travel.countY,travel,mouseCellsPerCountX,mouseCellsPerCountY]
      at hx hy hsmallX hsmallY
    rw [abs_lt] at hsmallX hsmallY
    refine ⟨hx,hy,abs_lt.mpr ?_,abs_lt.mpr ?_⟩
    · constructor
      · linarith only [hx,hsmallX.2]
      · linarith only [hx,hsmallX.1]
    · constructor
      · linarith only [hy,hsmallY.1]
      · linarith only [hy,hsmallY.2]

/-- Seven counts to the left, then nine to the right and three down. -/
theorem motion_conserved_back_and_forth :
    ∃ d', Runs.run step (([⟨0x18,0xf9,0⟩,⟨0x28,9,0xfd⟩] : List Packet).flatMap Packet.bytes)
        initial = some d' ∧ 8*d'.pointerX+d'.motionX = 8*72+2 ∧
      16*d'.pointerY-d'.motionY = 16*22+3 := by
  have hsync : ∀ p ∈ ([⟨0x18,0xf9,0⟩,⟨0x28,9,0xfd⟩] : List Packet), p.flags &&& 8 ≠ 0 := by
    simp only [List.mem_cons,List.not_mem_nil,or_false,forall_eq_or_imp,forall_eq]
    decide
  obtain ⟨d₁,hfeed,-,-,htravel⟩ := settled_initial.feed (p := ⟨0x18,0xf9,0⟩) rfl (by decide)
  have hmeets : Runs.Meets feed Unclamped [⟨0x18,0xf9,0⟩,⟨0x28,9,0xfd⟩] initial := by
    intro d hd
    obtain rfl := Option.some.inj (hfeed.symm.trans hd)
    refine ⟨by unfold Unclamped; decide,fun _ _ => ⟨?_,trivial⟩⟩
    have hx : d₁.pointerX = 72 := congrArg Travel.pointerX htravel
    have hy : d₁.pointerY = 22 := congrArg Travel.pointerY htravel
    have hmx : d₁.motionX = -7 := congrArg Travel.motionX htravel
    have hmy : d₁.motionY = 0 := congrArg Travel.motionY htravel
    rw [Unclamped,hx,hy,hmx,hmy]
    decide
  obtain ⟨d',hrun,-,hconserved⟩ := motion_conserved [] initial rfl rfl
    [⟨0x18,0xf9,0⟩,⟨0x28,9,0xfd⟩] hsync
  obtain ⟨hx,hy,-⟩ := hconserved hmeets
  exact ⟨d',hrun,hx,hy⟩

end CrabOs.Desktop
