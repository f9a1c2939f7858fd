import CrabOs.Net.E1000

/-! Receiving through the receive ring. One descriptor always stays with the driver, so the card
never meets one that the driver has not given back. -/
namespace CrabOs.Net
open RingBuffer DescriptorRing Runs

/-- What `receive_packet` makes of a frame. -/
def Frame.passed (frame : Frame) : Option (List UInt8) :=
  if frame.Deliverable then some frame.bytes else none

/-- The frame as the card has stored it. -/
structure StoredIn (frame : Frame) (entry : RxDescriptor × Packet) : Prop where
  status : entry.1.status = 1 ||| 2
  length : entry.1.length.toNat = frame.bytes.length
  errors : entry.1.errors = frame.errors
  bytes : frame.bytes.length ≤ packetSize →
    Packet.upTo entry.2 frame.bytes.length = frame.bytes

/-- The descriptor is the card's to fill. -/
def Cleared (entry : RxDescriptor × Packet) : Prop := entry.1.status = 0

namespace E1000

def rxRing (e : E1000) : Slot → RxDescriptor × Packet := fun i => (e.dma.rx i,e.dma.rxPackets i)

lemma rxRing_clearRxStatus (e : E1000) :
    e.clearRxStatus.rxRing = Function.update e.rxRing e.rxNext
      ({ (e.rxRing e.rxNext).1 with status := 0 },(e.rxRing e.rxNext).2) := by
  have hpair := pair_update e.dma.rx e.dma.rxPackets e.rxNext
    { e.dma.rx e.rxNext with status := 0 } (e.dma.rxPackets e.rxNext)
  rw [Function.update_eq_self] at hpair
  exact hpair

lemma rxRing_cardStore (e : E1000) (frame : Frame) :
    (e.cardStore frame).rxRing = Function.update e.rxRing e.registers.rdh
      (⟨.ofNat frame.bytes.length,1 ||| 2,frame.errors⟩,
        Packet.fill (e.rxRing e.registers.rdh).2 frame.bytes) :=
  pair_update e.dma.rx e.dma.rxPackets e.registers.rdh _ _

lemma storedIn_cardStore (e : E1000) (frame : Frame) :
    StoredIn frame (⟨.ofNat frame.bytes.length,1 ||| 2,frame.errors⟩,
      Packet.fill (e.rxRing e.registers.rdh).2 frame.bytes) where
  status := rfl
  length := Nat.mod_eq_of_lt frame.fits
  errors := rfl
  bytes hle := Packet.upTo_fill _ hle

/-- The driver takes from a descriptor what the card has stored there. -/
lemma takePacket_eq {e : E1000} {frame : Frame} (h : StoredIn frame (e.rxRing e.rxNext)) :
    e.takePacket (1 ||| 2) = frame.passed := by
  have hlength : (e.dma.rx e.rxNext).length.toNat = frame.bytes.length := h.length
  have herrors : (e.dma.rx e.rxNext).errors = frame.errors := h.errors
  unfold takePacket Frame.passed
  simp only [hlength,herrors]
  by_cases hdeliverable : frame.Deliverable
  · rw [if_pos hdeliverable,if_pos ⟨by decide,hdeliverable⟩]
    exact congrArg some (h.bytes hdeliverable.2)
  · rw [if_neg hdeliverable,if_neg fun hc => hdeliverable hc.2]

end E1000

/-- The driver has cleared the status of one descriptor that it has not given back yet. -/
def Point.inHand : Point → ℕ
  | .returning _ => 1
  | _ => 0

/-- What the driver has read of the frames so far. -/
def Point.Read (frames : List Frame) (returned : ℕ) : Point → Prop
  | .taking status => status = 1 ||| 2 ∧ returned < frames.length
  | .freeing packet | .returning packet =>
    ∃ frame, frames[returned]? = some frame ∧ packet = frame.passed
  | _ => True

structure RxInv (m : Machine) : Prop where
  taken : m.returned+m.point.inHand ≤ m.stored.length
  window : Window StoredIn Cleared m.driver.rxRing (m.returned+m.point.inHand)
    (m.stored.drop (m.returned+m.point.inHand))
  held : Window (fun frame slot => slot = some frame) (fun slot => slot = none) m.held m.returned
    (m.stored.drop m.returned)
  room : m.stored.length < m.returned+ringSize
  head : m.driver.registers.rdh = slot ringSize m.stored.length
  next : m.driver.rxNext = slot ringSize m.returned
  tail : m.driver.registers.rdt = slot ringSize (m.returned+7)
  delivered : m.delivered = ((m.stored.take m.returned).filter Frame.Deliverable).map Frame.bytes
  read : m.point.Read m.stored m.returned

lemma rxInv_initial (dma : DmaState) : RxInv (Machine.initial dma) where
  taken := le_rfl
  window := by
    refine ⟨Nat.zero_le _,?_,fun _ _ _ => rfl⟩
    intro j item hj
    simp [Machine.initial] at hj
  held := by
    refine ⟨Nat.zero_le _,?_,fun _ _ _ => rfl⟩
    intro j item hj
    simp [Machine.initial] at hj
  room := Nat.zero_lt_succ 7
  head := rfl
  next := rfl
  tail := rfl
  delivered := rfl
  read := trivial

namespace RxInv
variable {m m' : Machine}

lemma read_of (h : RxInv m) {point : Point} (hp : m.point = point) :
    point.Read m.stored m.returned := by
  subst hp
  exact h.read

lemma window_of (h : RxInv m) (hp : m.point.inHand = 0) :
    Window StoredIn Cleared m.driver.rxRing m.returned (m.stored.drop m.returned) := by
  have hwindow := h.window
  rw [hp] at hwindow
  exact hwindow

/-- The descriptor the driver looks at holds the first frame not given back, if there is one. -/
lemma front (h : RxInv m) (hp : m.point.inHand = 0) {frame : Frame}
    (hframe : m.stored[m.returned]? = some frame) :
    StoredIn frame (m.driver.rxRing m.driver.rxNext) := by
  rw [h.next]
  apply (h.window_of hp).holds 0
  rw [List.getElem?_drop]
  exact hframe

/-- Steps that only move on. -/
lemma moveTo (h : RxInv m) {point point' : Point} (hp : m.point = point)
    (hhand : point'.inHand = point.inHand) (hread : point'.Read m.stored m.returned) :
    RxInv { m with point := point' } where
  taken := by
    change m.returned+point'.inHand ≤ _
    rw [hhand,← hp]
    exact h.taken
  window := by
    change Window _ _ _ (m.returned+point'.inHand) (m.stored.drop (m.returned+point'.inHand))
    rw [hhand,← hp]
    exact h.window
  held := h.held
  room := h.room
  head := h.head
  next := h.next
  tail := h.tail
  delivered := h.delivered
  read := hread

/-- Steps on the transmit side leave the receive side as it is. -/
lemma transmitSide (h : RxInv m) (e : E1000) (hring : e.rxRing = m.driver.rxRing)
    (hhead : e.registers.rdh = m.driver.registers.rdh)
    (htail : e.registers.rdt = m.driver.registers.rdt) (hnext : e.rxNext = m.driver.rxNext)
    (consumed accepted transmitted : List (List UInt8)) :
    RxInv { m with
      driver := e, consumed := consumed, accepted := accepted, transmitted := transmitted } where
  taken := h.taken
  window := by
    change Window _ _ e.rxRing _ _
    rw [hring]
    exact h.window
  held := h.held
  room := h.room
  head := hhead.trans h.head
  next := hnext.trans h.next
  tail := htail.trans h.tail
  delivered := h.delivered
  read := h.read

lemma receive (h : RxInv m) (hp : m.point = .receiving) :
    RxInv { m with point :=
      if m.driver.rxStatus &&& 1 = 0 then .idle else .taking m.driver.rxStatus } := by
  have hhand : m.point.inHand = 0 := by
    rw [hp]
    rfl
  split_ifs with hstatus
  · exact h.moveTo hp rfl trivial
  · refine h.moveTo hp rfl ?_
    by_cases hmore : m.returned < m.stored.length
    · have hfront := h.front hhand (List.getElem?_eq_getElem hmore)
      exact ⟨hfront.status,hmore⟩
    · -- No frame waits, so the descriptor is cleared and its DD bit cannot have been seen.
      have hempty : m.stored.drop m.returned = [] := List.drop_eq_nil_of_le (not_lt.mp hmore)
      have hcleared := (h.window_of hhand).free 0 (by rw [hempty]; rfl) (by decide)
      have hzero : m.driver.rxStatus = 0 := by
        unfold E1000.rxStatus
        rw [h.next]
        exact hcleared
      rw [hzero] at hstatus
      exact absurd rfl hstatus

lemma take (h : RxInv m) {status : UInt8} (hp : m.point = .taking status) :
    RxInv { m with point := .freeing (m.driver.takePacket status) } := by
  obtain ⟨rfl,hmore⟩ := h.read_of hp
  have hframe := List.getElem?_eq_getElem hmore
  exact h.moveTo hp rfl ⟨_,hframe,E1000.takePacket_eq (h.front (by rw [hp]; rfl) hframe)⟩

lemma clear (h : RxInv m) {packet : Option (List UInt8)} (hp : m.point = .freeing packet) :
    RxInv { m with driver := m.driver.clearRxStatus, point := .returning packet } := by
  obtain ⟨frame,hframe,hpacket⟩ := h.read_of hp
  have hmore := (List.getElem?_eq_some_iff.mp hframe).1
  have hwindow := h.window_of (by rw [hp]; rfl)
  constructor
  case taken => exact hmore
  case window =>
    change Window _ _ m.driver.clearRxStatus.rxRing (m.returned+1) (m.stored.drop (m.returned+1))
    rw [m.driver.rxRing_clearRxStatus,h.next]
    rw [List.drop_eq_getElem_cons hmore] at hwindow
    exact hwindow.pop rfl
  case held => exact h.held
  case room => exact h.room
  case head => exact h.head
  case next => exact h.next
  case tail => exact h.tail
  case delivered => exact h.delivered
  case read => exact ⟨frame,hframe,hpacket⟩

lemma finish (h : RxInv m) {packet : Option (List UInt8)} (hp : m.point = .returning packet) :
    RxInv (m.finishReceive packet) := by
  obtain ⟨frame,hframe,hpacket⟩ := h.read_of hp
  obtain ⟨hmore,hget⟩ := List.getElem?_eq_some_iff.mp hframe
  have hpoint : (m.finishReceive packet).point.inHand = 0 ∧
      (m.finishReceive packet).point.Read m.stored (m.returned+1) := by
    change (if packet.isSome then Point.token else .idle).inHand = 0 ∧
      (if packet.isSome then Point.token else .idle).Read m.stored (m.returned+1)
    split_ifs
    · exact ⟨rfl,trivial⟩
    · exact ⟨rfl,trivial⟩
  have hwindow := h.window
  rw [hp] at hwindow
  constructor
  case taken =>
    rw [hpoint.1]
    exact hmore
  case window =>
    rw [hpoint.1]
    exact hwindow
  case held =>
    have hheld := h.held
    rw [List.drop_eq_getElem_cons hmore] at hheld
    change Window _ _ (Function.update m.held m.driver.rxNext none) (m.returned+1)
      (m.stored.drop (m.returned+1))
    rw [h.next]
    exact hheld.pop rfl
  case room => exact lt_of_lt_of_le h.room (by change _ ≤ m.returned+1+ringSize; omega)
  case head => exact h.head
  case next =>
    change m.driver.rxNext+1 = slot ringSize (m.returned+1)
    rw [h.next,slot_succ]
  case tail =>
    change m.driver.rxNext = slot ringSize (m.returned+1+7)
    rw [h.next]
    exact Fin.ext (Nat.add_mod_right m.returned ringSize).symm
  case delivered =>
    change m.delivered++packet.toList =
      ((m.stored.take (m.returned+1)).filter Frame.Deliverable).map Frame.bytes
    rw [List.take_succ_eq_append_getElem hmore,hget,List.filter_append,List.map_append,h.delivered,
      hpacket]
    unfold Frame.passed
    by_cases hdeliverable : frame.Deliverable
    · simp [hdeliverable]
    · simp [hdeliverable]
  case read => exact hpoint.2

/-- The card stores only while a descriptor is left that the driver has given back. -/
lemma stored_lt (h : RxInv m) (hne : m.driver.registers.rdh ≠ m.driver.registers.rdt) :
    m.stored.length < m.returned+7 := by
  have hroom := h.room
  rw [h.head,h.tail] at hne
  refine lt_of_le_of_ne (Nat.le_of_lt_succ hroom) fun heq => ?_
  rw [heq] at hne
  exact hne rfl

lemma Read.append {frames : List Frame} {returned : ℕ} {point : Point}
    (h : point.Read frames returned) (frame : Frame) : point.Read (frames++[frame]) returned := by
  cases point with
  | taking status =>
    refine ⟨h.1,?_⟩
    rw [List.length_append]
    exact Nat.lt_add_right _ h.2
  | freeing packet | returning packet =>
    obtain ⟨first,hfirst,hpacket⟩ := h
    refine ⟨first,?_,hpacket⟩
    rw [List.getElem?_append_left (List.getElem?_eq_some_iff.mp hfirst).1]
    exact hfirst
  | _ => trivial

lemma cardStore (h : RxInv m) (frame : Frame)
    (hne : m.driver.registers.rdh ≠ m.driver.registers.rdt) :
    RxInv { m with
      driver := m.driver.cardStore frame
      stored := m.stored++[frame]
      held := Function.update m.held m.driver.registers.rdh (some frame) } := by
  have htaken := h.taken
  have hlt := h.stored_lt hne
  have hlength : (m.stored++[frame]).length = m.stored.length+1 := List.length_append
  constructor
  case taken =>
    change m.returned+m.point.inHand ≤ (m.stored++[frame]).length
    omega
  case window =>
    change Window _ _ (m.driver.cardStore frame).rxRing (m.returned+m.point.inHand)
      ((m.stored++[frame]).drop (m.returned+m.point.inHand))
    have hslot : m.driver.registers.rdh = slot ringSize (m.returned+m.point.inHand+
        (m.stored.drop (m.returned+m.point.inHand)).length) := by
      rw [h.head,List.length_drop,Nat.add_sub_cancel' htaken]
    rw [m.driver.rxRing_cardStore,List.drop_append_of_le_length htaken,hslot]
    refine h.window.push ?_ ?_
    · rw [List.length_drop]
      change _ < 8
      omega
    · rw [← hslot]
      exact m.driver.storedIn_cardStore frame
  case held =>
    have hle : m.returned ≤ m.stored.length := by omega
    change Window _ _ (Function.update m.held m.driver.registers.rdh (some frame)) m.returned
      ((m.stored++[frame]).drop m.returned)
    have hslot : m.driver.registers.rdh =
        slot ringSize (m.returned+(m.stored.drop m.returned).length) := by
      rw [h.head,List.length_drop,Nat.add_sub_cancel' hle]
    rw [List.drop_append_of_le_length hle,hslot]
    refine h.held.push ?_ rfl
    rw [List.length_drop]
    change _ < 8
    omega
  case room =>
    change (m.stored++[frame]).length < m.returned+8
    omega
  case head =>
    change m.driver.registers.rdh+1 = slot ringSize (m.stored++[frame]).length
    rw [h.head,hlength,slot_succ]
  case next => exact h.next
  case tail => exact h.tail
  case delivered =>
    change m.delivered = (((m.stored++[frame]).take m.returned).filter _).map _
    rw [List.take_append_of_le_length (by omega)]
    exact h.delivered
  case read => exact Read.append h.read frame

/-- Steps of `send_packet`. -/
lemma sendStep (h : RxInv m) {point : Point} (hp : m.point = point) (e : E1000) (point' : Point)
    (hhand : point'.inHand = point.inHand) (hread : point'.Read m.stored m.returned)
    (hring : e.rxRing = m.driver.rxRing) (hhead : e.registers.rdh = m.driver.registers.rdh)
    (htail : e.registers.rdt = m.driver.registers.rdt) (hnext : e.rxNext = m.driver.rxNext)
    (consumed accepted : List (List UInt8)) :
    RxInv { m with driver := e, point := point', consumed := consumed, accepted := accepted } :=
  (h.moveTo hp hhand hread).transmitSide e hring hhead htail hnext consumed accepted _

lemma proceed (h : RxInv m) (hs : m.proceed = some m') : RxInv m' := by
  unfold Machine.proceed at hs
  cases hp : m.point with
  | idle | token =>
    rw [hp] at hs
    cases hs
  | receiving =>
    rw [hp] at hs
    cases hs
    exact h.receive hp
  | taking status =>
    rw [hp] at hs
    cases hs
    exact h.take hp
  | freeing packet =>
    rw [hp] at hs
    cases hs
    exact h.clear hp
  | returning packet =>
    rw [hp] at hs
    cases hs
    exact h.finish hp
  | sending packet =>
    rw [hp] at hs
    cases hs
    split_ifs
    · exact h.moveTo hp rfl trivial
    · exact h.moveTo hp rfl trivial
  | copying packet =>
    rw [hp] at hs
    cases hs
    exact h.sendStep hp (m.driver.copyPacket packet) (.describing packet) rfl trivial
      rfl rfl rfl rfl _ _
  | describing packet =>
    rw [hp] at hs
    cases hs
    exact h.sendStep hp (m.driver.describePacket packet) (.posting packet) rfl
      trivial rfl rfl rfl rfl _ _
  | posting packet =>
    rw [hp] at hs
    cases hs
    exact h.sendStep hp m.driver.clearTxStatus (.ringing packet) rfl trivial rfl rfl
      rfl rfl _ _
  | ringing packet =>
    rw [hp] at hs
    cases hs
    exact h.sendStep hp m.driver.ringDoorbell .idle rfl trivial rfl rfl rfl rfl _ _

theorem step (h : RxInv m) {move : Move} (hs : m.step move = some m') : RxInv m' := by
  cases move with
  | transmit | receive =>
    obtain ⟨hp,hs⟩ := Option.ite_none_right_eq_some.mp hs
    cases hs
    split_ifs
    · exact h.moveTo hp rfl trivial
    · exact h.moveTo hp rfl trivial
  | consume packet =>
    obtain ⟨hp,hs⟩ := Option.ite_none_right_eq_some.mp hs
    cases hs
    exact h.sendStep hp m.driver (.sending packet) rfl trivial rfl rfl rfl rfl _ _
  | discard =>
    obtain ⟨hp,hs⟩ := Option.ite_none_right_eq_some.mp hs
    cases hs
    exact h.moveTo hp rfl trivial
  | proceed => exact h.proceed hs
  | cardTransmit =>
    obtain ⟨-,hs⟩ := Option.ite_none_left_eq_some.mp hs
    cases hs
    exact h.transmitSide m.driver.cardTransmit rfl rfl rfl rfl _ _ _
  | cardStore frame =>
    obtain ⟨hne,hs⟩ := Option.ite_none_left_eq_some.mp hs
    cases hs
    exact h.cardStore frame hne

end RxInv

/-- What the stack relies on. It has been handed the deliverable ones of the frames the driver has
given back, in order; the other frames stored are still in their descriptors, one after the other
from `rx_next` on; and the card writes to a descriptor only when the driver has given it back. -/
structure Receives (m : Machine) : Prop where
  inOrder : m.delivered <+: (m.stored.filter Frame.Deliverable).map Frame.bytes
  passedOn : m.delivered =
    ((m.stored.take m.returned).filter Frame.Deliverable).map Frame.bytes
  waiting : ∀ j frame, m.stored[m.returned+j]? = some frame →
    m.held (slot ringSize (m.driver.rxNext.val+j)) = some frame
  tail : m.driver.registers.rdt.val = (m.driver.rxNext.val+7) % ringSize
  givenBack : m.driver.registers.rdh ≠ m.driver.registers.rdt →
    m.held m.driver.registers.rdh = none

theorem RxInv.receives {m : Machine} (h : RxInv m) : Receives m where
  inOrder := by
    rw [h.delivered]
    exact ((List.take_prefix m.returned m.stored).filter _).map _
  passedOn := h.delivered
  waiting j frame hj := by
    have hslot : slot ringSize (m.driver.rxNext.val+j) = slot ringSize (m.returned+j) := by
      rw [h.next]
      exact Fin.ext (Nat.mod_add_mod _ _ _)
    rw [hslot]
    apply h.held.holds
    rw [List.getElem?_drop]
    exact hj
  tail := by
    rw [h.tail,h.next]
    exact (Nat.mod_add_mod _ _ _).symm
  givenBack hne := by
    have hle := h.taken
    have hlt := h.stored_lt hne
    have hfree := h.held.free (m.stored.length-m.returned) (by rw [List.length_drop])
      (by change _ < 8; omega)
    rw [show m.returned+(m.stored.length-m.returned) = m.stored.length by omega,← h.head] at hfree
    exact hfree

/-- However the calls and the card are interleaved. -/
theorem receives_always (dma : DmaState) (moves : List Move) :
    Always Machine.step Receives moves (.initial dma) :=
  always_of_invariant (fun _ _ _ h hs => h.step hs) (fun _ h => h.receives) (rxInv_initial dma)
    moves

end CrabOs.Net
