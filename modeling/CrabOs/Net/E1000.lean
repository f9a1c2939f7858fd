import CrabOs.Foundations.DescriptorRing
import CrabOs.Foundations.Runs

/-! The e1000 driver and the card. The card acts at any time, also between two accesses of the
driver to memory it shares with the card. Descriptor `i` always points to packet buffer `i`. -/
namespace CrabOs.Net

abbrev ringSize : ℕ := 8
def packetSize : ℕ := 2048

instance ringNotEmpty : NeZero ringSize := ⟨by decide⟩

/-- An index of a ring; adding to it wraps as `% RING_SIZE`. -/
abbrev Slot := Fin ringSize
abbrev Packet := Vector UInt8 packetSize

structure RxDescriptor where
  length : UInt16
  status : UInt8
  errors : UInt8
  deriving DecidableEq

def RxDescriptor.empty : RxDescriptor := ⟨0,0,0⟩

structure TxDescriptor where
  length : UInt16
  command : UInt8
  status : UInt8
  deriving DecidableEq

def TxDescriptor.empty : TxDescriptor := ⟨0,0,1⟩

structure DmaState where
  rx : Slot → RxDescriptor
  tx : Slot → TxDescriptor
  rxPackets : Slot → Packet
  txPackets : Slot → Packet

/-- `buffer[..bytes.len()].copy_from_slice(bytes)`; bytes behind the buffer are not written. -/
def Packet.fill (buffer : Packet) (bytes : List UInt8) : Packet :=
  .ofFn fun i => bytes.getD i buffer[i]

/-- `buffer[..length]`. -/
def Packet.upTo (buffer : Packet) (length : ℕ) : List UInt8 := buffer.toList.take length

lemma Packet.upTo_fill (buffer : Packet) {bytes : List UInt8} (h : bytes.length ≤ packetSize) :
    Packet.upTo (Packet.fill buffer bytes) bytes.length = bytes := by
  unfold upTo fill
  apply List.ext_getElem
  · simp [h]
  · intro i hi hi'
    simp [List.getElem?_eq_getElem hi']

/-- The head and tail registers; the other registers are only used while the card is set up. -/
structure Registers where
  rdh : Slot
  rdt : Slot
  tdh : Slot
  tdt : Slot
  deriving DecidableEq

structure E1000 where
  registers : Registers
  dma : DmaState
  rxNext : Slot
  txNext : Slot

namespace E1000

/-- The state `E1000::new` sets up; the packet buffers keep what they hold. -/
def new (dma : DmaState) : E1000 where
  registers := ⟨0,7,0,0⟩
  dma := { dma with rx := fun _ => .empty, tx := fun _ => .empty }
  rxNext := 0
  txNext := 0

def transmitReady (e : E1000) : Bool := (e.dma.tx e.txNext).status &&& 1 != 0

/-! The accesses of `receive_packet` to shared memory, in order. -/

def rxStatus (e : E1000) : UInt8 := (e.dma.rx e.rxNext).status

def takePacket (e : E1000) (status : UInt8) : Option (List UInt8) :=
  let descriptor := e.dma.rx e.rxNext
  if status &&& 2 ≠ 0 ∧ descriptor.errors = 0 ∧ descriptor.length.toNat ≤ packetSize then
    some (Packet.upTo (e.dma.rxPackets e.rxNext) descriptor.length.toNat)
  else none

def clearRxStatus (e : E1000) : E1000 :=
  let descriptor := { e.dma.rx e.rxNext with status := 0 }
  { e with dma := { e.dma with rx := Function.update e.dma.rx e.rxNext descriptor } }

/-- The tail register is written and `rx_next`, which the card does not see, is advanced. -/
def returnDescriptor (e : E1000) : E1000 :=
  { e with registers := { e.registers with rdt := e.rxNext }, rxNext := e.rxNext+1 }

def receivePacket (e : E1000) : Option (List UInt8) × E1000 :=
  let status := e.rxStatus
  if status &&& 1 = 0 then (none,e)
  else (e.takePacket status,e.clearRxStatus.returnDescriptor)

/-! The accesses of `send_packet` to shared memory, in order. -/

def copyPacket (e : E1000) (packet : List UInt8) : E1000 :=
  let buffer := Packet.fill (e.dma.txPackets e.txNext) packet
  { e with dma := { e.dma with txPackets := Function.update e.dma.txPackets e.txNext buffer } }

def describePacket (e : E1000) (packet : List UInt8) : E1000 :=
  let descriptor :=
    { e.dma.tx e.txNext with length := .ofNat packet.length, command := 1 ||| 2 ||| 8 }
  { e with dma := { e.dma with tx := Function.update e.dma.tx e.txNext descriptor } }

def clearTxStatus (e : E1000) : E1000 :=
  let descriptor := { e.dma.tx e.txNext with status := 0 }
  { e with dma := { e.dma with tx := Function.update e.dma.tx e.txNext descriptor } }

/-- `tx_next`, which the card does not see, is advanced and the tail register is written. -/
def ringDoorbell (e : E1000) : E1000 :=
  { e with txNext := e.txNext+1, registers := { e.registers with tdt := e.txNext+1 } }

def sendPacket (e : E1000) (packet : List UInt8) : E1000 :=
  if packetSize < packet.length then e
  else if !e.transmitReady then e
  else ((e.copyPacket packet).describePacket packet).clearTxStatus.ringDoorbell

end E1000

/-- A frame on the wire that the card stores with one descriptor. -/
structure Frame where
  bytes : List UInt8
  errors : UInt8
  fits : bytes.length < 2^16

/-- Frames `receive_packet` passes on. -/
def Frame.Deliverable (frame : Frame) : Prop :=
  frame.errors = 0 ∧ frame.bytes.length ≤ packetSize

instance (frame : Frame) : Decidable frame.Deliverable :=
  inferInstanceAs (Decidable (_ ∧ _))

/-! ### The card -/
namespace E1000

/-- The bytes of the descriptor at the head. -/
def headPacket (e : E1000) : List UInt8 :=
  Packet.upTo (e.dma.txPackets e.registers.tdh) (e.dma.tx e.registers.tdh).length.toNat

/-- The card has sent the packet at the head. -/
def cardTransmit (e : E1000) : E1000 :=
  let head := e.registers.tdh
  let descriptor := { e.dma.tx head with status := (e.dma.tx head).status ||| 1 }
  { e with
    registers := { e.registers with tdh := head+1 }
    dma := { e.dma with tx := Function.update e.dma.tx head descriptor } }

/-- The card stores a frame and sets the DD and EOP bits. -/
def cardStore (e : E1000) (frame : Frame) : E1000 :=
  let head := e.registers.rdh
  let descriptor : RxDescriptor := ⟨.ofNat frame.bytes.length,1 ||| 2,frame.errors⟩
  let buffer := Packet.fill (e.dma.rxPackets head) frame.bytes
  { e with
    registers := { e.registers with rdh := head+1 }
    dma := { e.dma with
      rx := Function.update e.dma.rx head descriptor
      rxPackets := Function.update e.dma.rxPackets head buffer } }

end E1000

/-- Where the network stack and the driver are. -/
inductive Point
  | idle
  | receiving
  | taking (status : UInt8)
  | freeing (packet : Option (List UInt8))
  | returning (packet : Option (List UInt8))
  | token
  | sending (packet : List UInt8)
  | copying (packet : List UInt8)
  | describing (packet : List UInt8)
  | posting (packet : List UInt8)
  | ringing (packet : List UInt8)
  deriving DecidableEq

/-- The stack's calls, the driver's next access to shared memory, and what the card does. A token
holds the driver until it is consumed or dropped. -/
inductive Move
  | transmit
  | receive
  | consume (packet : List UInt8)
  | discard
  | proceed
  | cardTransmit
  | cardStore (frame : Frame)

/-- The lists, `held` and `returned` only record what happened: the packets tokens were consumed
with, those put on the ring and those the card sent; the frames it stored, the frame in each
descriptor until the driver gives it back, how many it gave back, and the packets handed to the
stack. -/
structure Machine where
  driver : E1000
  point : Point
  consumed : List (List UInt8)
  accepted : List (List UInt8)
  transmitted : List (List UInt8)
  stored : List Frame
  held : Slot → Option Frame
  returned : ℕ
  delivered : List (List UInt8)

namespace Machine

def initial (dma : DmaState) : Machine where
  driver := .new dma
  point := .idle
  consumed := []
  accepted := []
  transmitted := []
  stored := []
  held := fun _ => none
  returned := 0
  delivered := []

/-- The end of `receive_packet` and of `Device::receive`. -/
def finishReceive (m : Machine) (packet : Option (List UInt8)) : Machine :=
  { m with
    driver := m.driver.returnDescriptor
    point := if packet.isSome then .token else .idle
    held := Function.update m.held m.driver.rxNext none
    returned := m.returned+1
    delivered := m.delivered++packet.toList }

/-- The end of `send_packet`. -/
def finishSend (m : Machine) (packet : List UInt8) : Machine :=
  { m with
    driver := m.driver.ringDoorbell
    point := .idle
    accepted := m.accepted++[packet] }

def proceed (m : Machine) : Option Machine :=
  match m.point with
  | .idle | .token => none
  | .receiving =>
    let status := m.driver.rxStatus
    some { m with point := if status &&& 1 = 0 then .idle else .taking status }
  | .taking status => some { m with point := .freeing (m.driver.takePacket status) }
  | .freeing packet =>
    some { m with driver := m.driver.clearRxStatus, point := .returning packet }
  | .returning packet => some (m.finishReceive packet)
  | .sending packet =>
    some { m with point :=
      if packetSize < packet.length ∨ !m.driver.transmitReady then .idle else .copying packet }
  | .copying packet =>
    some { m with driver := m.driver.copyPacket packet, point := .describing packet }
  | .describing packet =>
    some { m with driver := m.driver.describePacket packet, point := .posting packet }
  | .posting packet =>
    some { m with driver := m.driver.clearTxStatus, point := .ringing packet }
  | .ringing packet => some (m.finishSend packet)

/-- The card does nothing while a head register equals its tail. -/
def step (m : Machine) : Move → Option Machine
  | .transmit =>
    if m.point = .idle then
      some { m with point := if m.driver.transmitReady then .token else .idle }
    else none
  | .receive =>
    if m.point = .idle then
      some { m with point := if m.driver.transmitReady then .receiving else .idle }
    else none
  | .consume packet =>
    if m.point = .token then
      some { m with point := .sending packet, consumed := m.consumed++[packet] }
    else none
  | .discard => if m.point = .token then some { m with point := .idle } else none
  | .proceed => m.proceed
  | .cardTransmit =>
    if m.driver.registers.tdh = m.driver.registers.tdt then none
    else some { m with
      driver := m.driver.cardTransmit
      transmitted := m.transmitted++[m.driver.headPacket] }
  | .cardStore frame =>
    if m.driver.registers.rdh = m.driver.registers.rdt then none
    else some { m with
      driver := m.driver.cardStore frame
      stored := m.stored++[frame]
      held := Function.update m.held m.driver.registers.rdh (some frame) }

/-- Without the card, the accesses of `send_packet` make up the whole call. -/
theorem run_sendPacket (m : Machine) {packet : List UInt8} (hp : m.point = .sending packet) :
    ∃ n m', Runs.run step (List.replicate n .proceed) m = some m' ∧ m'.point = .idle ∧
      m'.driver = m.driver.sendPacket packet := by
  have hfirst : m.step .proceed = some { m with point :=
      if packetSize < packet.length ∨ !m.driver.transmitReady then .idle else .copying packet } := by
    rw [step,proceed,hp]
  by_cases hrefused : packetSize < packet.length ∨ !m.driver.transmitReady
  · rw [if_pos hrefused] at hfirst
    refine ⟨1,_,by rw [List.replicate_one,Runs.run,hfirst]; rfl,rfl,?_⟩
    unfold E1000.sendPacket
    rcases hrefused with hlarge | hbusy
    · rw [if_pos hlarge]
    · rw [if_pos hbusy,ite_self]
  · rw [if_neg hrefused] at hfirst
    obtain ⟨hsmall,hready⟩ := not_or.mp hrefused
    refine ⟨5,_,by rw [List.replicate_succ,Runs.run,hfirst]; rfl,rfl,?_⟩
    unfold E1000.sendPacket
    rw [if_neg hsmall,if_neg hready]
    rfl

/-- Without the card, the accesses of `receive_packet` make up the whole call. -/
theorem run_receivePacket (m : Machine) (hp : m.point = .receiving) :
    ∃ n m', Runs.run step (List.replicate n .proceed) m = some m' ∧
      m'.driver = m.driver.receivePacket.2 ∧
      m'.delivered = m.delivered++m.driver.receivePacket.1.toList ∧
      m'.point = if m.driver.receivePacket.1.isSome then .token else .idle := by
  have hfirst : m.step .proceed = some { m with point :=
      if m.driver.rxStatus &&& 1 = 0 then .idle else .taking m.driver.rxStatus } := by
    rw [step,proceed,hp]
  by_cases hstatus : m.driver.rxStatus &&& 1 = 0
  · rw [if_pos hstatus] at hfirst
    have hcall : m.driver.receivePacket = (none,m.driver) := if_pos hstatus
    rw [hcall]
    refine ⟨1,{ m with point := .idle },by rw [List.replicate_one,Runs.run,hfirst]; rfl,rfl,?_,rfl⟩
    exact (List.append_nil _).symm
  · rw [if_neg hstatus] at hfirst
    have hcall : m.driver.receivePacket =
      (m.driver.takePacket m.driver.rxStatus,m.driver.clearRxStatus.returnDescriptor) :=
      if_neg hstatus
    rw [hcall]
    exact ⟨4,_,by rw [List.replicate_succ,Runs.run,hfirst]; rfl,rfl,rfl,rfl⟩

end Machine
end CrabOs.Net
