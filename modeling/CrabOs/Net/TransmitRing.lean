import CrabOs.Net.E1000

/-! Sending through the transmit ring while the card sends at its own pace. The driver takes a
descriptor with the DD bit for free; the card takes the ring for empty when the head is at the
tail. -/
namespace CrabOs.Net
open RingBuffer DescriptorRing Runs

/-- Packets `send_packet` does not refuse for their size. -/
def Fits (packet : List UInt8) : Prop := packet.length ≤ packetSize

instance : DecidablePred Fits := fun packet => inferInstanceAs (Decidable (packet.length ≤ _))

/-- The descriptor and its buffer describe the packet. -/
structure Described (packet : List UInt8) (entry : TxDescriptor × Packet) : Prop where
  length : entry.1.length.toNat = packet.length
  bytes : Packet.upTo entry.2 packet.length = packet
  command : entry.1.command = 1 ||| 2 ||| 8

/-- The packet waits for the card. -/
structure Posted (packet : List UInt8) (entry : TxDescriptor × Packet) : Prop
    extends Described packet entry where
  status : entry.1.status = 0

/-- The DD bit is set. -/
def Done (entry : TxDescriptor × Packet) : Prop := entry.1.status &&& 1 ≠ 0

lemma Posted.not_done {packet : List UInt8} {entry : TxDescriptor × Packet}
    (h : Posted packet entry) : ¬Done entry := by
  unfold Done
  rw [h.status]
  decide

lemma Done.of_status {entry entry' : TxDescriptor × Packet} (h : Done entry)
    (hs : entry'.1.status = entry.1.status) : Done entry' := by
  unfold Done
  rw [hs]
  exact h

namespace E1000

def txRing (e : E1000) : Slot → TxDescriptor × Packet := fun i => (e.dma.tx i,e.dma.txPackets i)

lemma transmitReady_iff (e : E1000) : e.transmitReady = true ↔ Done (e.txRing e.txNext) := by
  simp [transmitReady,Done,txRing]

lemma txRing_copyPacket (e : E1000) (packet : List UInt8) :
    (e.copyPacket packet).txRing = Function.update e.txRing e.txNext
      ((e.txRing e.txNext).1,Packet.fill (e.txRing e.txNext).2 packet) := by
  have hpair := pair_update e.dma.tx e.dma.txPackets e.txNext (e.dma.tx e.txNext)
    (Packet.fill (e.dma.txPackets e.txNext) packet)
  rw [Function.update_eq_self] at hpair
  exact hpair

/-- Only the descriptor of a slot is written. -/
lemma txRing_update {e e' : E1000} {i : Slot} {descriptor : TxDescriptor}
    (htx : e'.dma.tx = Function.update e.dma.tx i descriptor)
    (hpackets : e'.dma.txPackets = e.dma.txPackets) :
    e'.txRing = Function.update e.txRing i (descriptor,(e.txRing i).2) := by
  have hpair := pair_update e.dma.tx e.dma.txPackets i descriptor (e.dma.txPackets i)
  rw [Function.update_eq_self] at hpair
  unfold txRing
  rw [htx,hpackets]
  exact hpair

end E1000

/-- The packet a token was consumed with, until `send_packet` returns. -/
def Point.outgoing : Point → List (List UInt8)
  | .sending packet | .copying packet | .describing packet | .posting packet
  | .ringing packet => [packet]
  | _ => []

/-- The packet in a descriptor the tail register is not moved past yet. -/
def Point.posted : Point → List (List UInt8)
  | .ringing packet => [packet]
  | _ => []

/-- What the driver has done to the next descriptor. Until it clears the status the DD bit it has
seen stays, as the card clears none. -/
def Point.Prepared : Point → TxDescriptor × Packet → Prop
  | .idle,_ => True
  | .copying packet,entry => Done entry ∧ Fits packet
  | .describing packet,entry =>
    Done entry ∧ Fits packet ∧ Packet.upTo entry.2 packet.length = packet
  | .posting packet,entry => Done entry ∧ Fits packet ∧ Described packet entry
  | .ringing packet,_ => Fits packet
  | _,entry => Done entry

/-- Where the DD bit is not needed nothing is said of the descriptor. -/
lemma Point.Prepared.of_not_done {point : Point} {entry : TxDescriptor × Packet}
    (h : point.Prepared entry) (hnot : ¬Done entry) (entry' : TxDescriptor × Packet) :
    point.Prepared entry' := by
  cases point with
  | idle => trivial
  | ringing packet => exact h
  | copying packet => exact absurd h.1 hnot
  | describing packet => exact absurd h.1 hnot
  | posting packet => exact absurd h.1 hnot
  | receiving => exact absurd h hnot
  | taking status => exact absurd h hnot
  | freeing packet => exact absurd h hnot
  | returning packet => exact absurd h hnot
  | token => exact absurd h hnot
  | sending packet => exact absurd h hnot

namespace Machine

/-- The packets on the ring. -/
def pending (m : Machine) : List (List UInt8) := m.accepted.drop m.transmitted.length

end Machine

/-- Holds in every run, also when the ring has been filled. -/
structure TxInv (m : Machine) : Prop where
  sent : m.transmitted <+: m.accepted
  window : Window Posted Done m.driver.txRing m.transmitted.length (m.pending++m.point.posted)
  head : m.driver.registers.tdh = slot ringSize m.transmitted.length
  tail : m.driver.registers.tdt = slot ringSize m.accepted.length
  next : m.driver.txNext = slot ringSize m.accepted.length
  consumed : m.consumed.filter Fits = m.accepted++m.point.outgoing.filter Fits
  prepared : m.point.Prepared (m.driver.txRing m.driver.txNext)

lemma txInv_initial (dma : DmaState) : TxInv (Machine.initial dma) where
  sent := List.nil_prefix
  window := by
    refine ⟨by simp [Machine.initial,Machine.pending,Point.posted],?_,?_⟩
    · intro j item hj
      simp [Machine.initial,Machine.pending,Point.posted] at hj
    · intro j _ _
      change (1 : UInt8) &&& 1 ≠ 0
      decide
  head := rfl
  tail := rfl
  next := rfl
  consumed := rfl
  prepared := trivial

namespace TxInv
variable {m m' : Machine}

lemma length_pending (h : TxInv m) :
    m.accepted.length = m.transmitted.length+m.pending.length := by
  have hle := h.sent.length_le
  unfold Machine.pending
  rw [List.length_drop]
  omega

lemma accepted_eq (h : TxInv m) : m.accepted = m.transmitted++m.pending :=
  (List.prefix_iff_eq_append.mp h.sent).symm

lemma pending_le (h : TxInv m) : m.pending.length ≤ ringSize := by
  have hle := h.window.length_le
  rw [List.length_append] at hle
  omega

/-- The next descriptor is the first one behind those the card has been told of. -/
lemma next_slot (h : TxInv m) :
    m.driver.txNext = slot ringSize (m.transmitted.length+m.pending.length) := by
  rw [h.next,h.length_pending]

/-- A DD bit in the next descriptor means that there is room for a packet. -/
lemma room (h : TxInv m) (hposted : m.point.posted = [])
    (hdone : Done (m.driver.txRing m.driver.txNext)) : m.pending.length < ringSize := by
  have hwindow := h.window
  rw [hposted,List.append_nil] at hwindow
  rw [h.next_slot] at hdone
  exact hwindow.length_lt (fun _ _ hp => hp.not_done) hdone

/-- A write to the next descriptor or its buffer that keeps the DD bit. -/
lemma window_write (h : TxInv m) (hposted : m.point.posted = [])
    (hdone : Done (m.driver.txRing m.driver.txNext)) {entry : TxDescriptor × Packet}
    (hentry : Done entry) :
    Window Posted Done (Function.update m.driver.txRing m.driver.txNext entry)
      m.transmitted.length (m.pending++[]) := by
  have hwindow := h.window
  rw [hposted] at hwindow
  rw [h.next_slot,List.append_nil]
  rw [List.append_nil] at hwindow
  exact hwindow.prepare (h.room hposted hdone) hentry

lemma prepared_of (h : TxInv m) {point : Point} (hp : m.point = point) :
    point.Prepared (m.driver.txRing m.driver.txNext) := by
  subst hp
  exact h.prepared

/-- Steps that only move on, with what the next descriptor then has to be. -/
lemma moveTo (h : TxInv m) {point point' : Point} (hp : m.point = point)
    (hposted : point'.posted = point.posted)
    (houtgoing : point'.outgoing.filter Fits = point.outgoing.filter Fits)
    (hprepared : point'.Prepared (m.driver.txRing m.driver.txNext)) :
    TxInv { m with point := point' } where
  sent := h.sent
  window := by
    change Window _ _ _ _ (m.pending++point'.posted)
    rw [hposted,← hp]
    exact h.window
  head := h.head
  tail := h.tail
  next := h.next
  consumed := by
    change _ = _++point'.outgoing.filter Fits
    rw [houtgoing,← hp]
    exact h.consumed
  prepared := hprepared

/-- Steps on the receive side leave the transmit side as it is. -/
lemma receiveSide (h : TxInv m) (e : E1000) (hring : e.txRing = m.driver.txRing)
    (hhead : e.registers.tdh = m.driver.registers.tdh)
    (htail : e.registers.tdt = m.driver.registers.tdt) (hnext : e.txNext = m.driver.txNext)
    (stored : List Frame) (held : Slot → Option Frame) (returned : ℕ)
    (delivered : List (List UInt8)) :
    TxInv { m with
      driver := e, stored := stored, held := held, returned := returned, delivered := delivered }
    where
  sent := h.sent
  window := by
    change Window _ _ e.txRing _ _
    rw [hring]
    exact h.window
  head := hhead.trans h.head
  tail := htail.trans h.tail
  next := hnext.trans h.next
  consumed := h.consumed
  prepared := by
    change m.point.Prepared (e.txRing e.txNext)
    rw [hring,hnext]
    exact h.prepared

lemma ready_or_idle (h : TxInv m) (hp : m.point = .idle) (ready : Point)
    (hreadyPosted : ready.posted = []) (hreadyOut : ready.outgoing = [])
    (hready : ∀ entry, Done entry → ready.Prepared entry) :
    TxInv { m with point := if m.driver.transmitReady then ready else .idle } := by
  split_ifs with hdone
  · apply h.moveTo hp
    · rw [hreadyPosted]
      rfl
    · rw [hreadyOut]
      rfl
    · exact hready _ (m.driver.transmitReady_iff.mp hdone)
  · exact h.moveTo hp rfl rfl trivial

lemma consume (h : TxInv m) (hp : m.point = .token) (packet : List UInt8) :
    TxInv { m with point := .sending packet, consumed := m.consumed++[packet] } where
  sent := h.sent
  window := by
    have hwindow := h.window
    rw [hp] at hwindow
    exact hwindow
  head := h.head
  tail := h.tail
  next := h.next
  consumed := by
    have hconsumed := h.consumed
    rw [hp] at hconsumed
    change (m.consumed++[packet]).filter Fits = m.accepted++[packet].filter Fits
    rw [List.filter_append,hconsumed]
    simp [Point.outgoing]
  prepared := by
    have hdone : Done (m.driver.txRing m.driver.txNext) := h.prepared_of hp
    exact hdone

lemma check (h : TxInv m) {packet : List UInt8} (hp : m.point = .sending packet) :
    TxInv { m with point :=
      if packetSize < packet.length ∨ !m.driver.transmitReady then .idle else .copying packet } := by
  have hdone : Done (m.driver.txRing m.driver.txNext) := h.prepared_of hp
  have hready := m.driver.transmitReady_iff.mpr hdone
  split_ifs with hrefused
  · have hlarge : packetSize < packet.length := by
      simpa [hready] using hrefused
    have hnot : ¬Fits packet := not_le.mpr hlarge
    exact h.moveTo hp rfl (by simp [Point.outgoing,hnot]) trivial
  · have hfits : Fits packet := not_lt.mp fun hlarge => hrefused (.inl hlarge)
    exact h.moveTo hp rfl rfl ⟨hdone,hfits⟩

/-- A step of `send_packet` that writes to the next descriptor or its buffer. -/
lemma write (h : TxInv m) {e : E1000} {point : Point} {entry : TxDescriptor × Packet}
    (hposted : m.point.posted = []) (hpoint : point.posted = [])
    (houtgoing : point.outgoing = m.point.outgoing)
    (hdone : Done (m.driver.txRing m.driver.txNext)) (hentry : Done entry)
    (hring : e.txRing = Function.update m.driver.txRing m.driver.txNext entry)
    (hregisters : e.registers = m.driver.registers) (hnext : e.txNext = m.driver.txNext)
    (hprepared : point.Prepared entry) : TxInv { m with driver := e, point := point } where
  sent := h.sent
  window := by
    change Window Posted Done e.txRing m.transmitted.length (m.pending++point.posted)
    rw [hpoint,hring]
    exact h.window_write hposted hdone hentry
  head := by
    change e.registers.tdh = _
    rw [hregisters]
    exact h.head
  tail := by
    change e.registers.tdt = _
    rw [hregisters]
    exact h.tail
  next := hnext.trans h.next
  consumed := by
    change _ = _++point.outgoing.filter Fits
    rw [houtgoing]
    exact h.consumed
  prepared := by
    change point.Prepared (e.txRing e.txNext)
    rw [hring,hnext,Function.update_self]
    exact hprepared

lemma copy (h : TxInv m) {packet : List UInt8} (hp : m.point = .copying packet) :
    TxInv { m with driver := m.driver.copyPacket packet, point := .describing packet } := by
  obtain ⟨hdone,hfits⟩ := h.prepared_of hp
  have hentry : Done ((m.driver.txRing m.driver.txNext).1,
    Packet.fill (m.driver.txRing m.driver.txNext).2 packet) := hdone.of_status rfl
  exact h.write (by rw [hp]; rfl) rfl (by rw [hp]; rfl) hdone hentry
    (m.driver.txRing_copyPacket packet) rfl rfl ⟨hentry,hfits,Packet.upTo_fill _ hfits⟩

lemma describe (h : TxInv m) {packet : List UInt8} (hp : m.point = .describing packet) :
    TxInv { m with driver := m.driver.describePacket packet, point := .posting packet } := by
  obtain ⟨hdone,hfits,hbytes⟩ := h.prepared_of hp
  have hring : (m.driver.describePacket packet).txRing = _ := E1000.txRing_update rfl rfl
  have hsmall : packet.length < 2^16 := lt_of_le_of_lt hfits (by decide)
  refine h.write (by rw [hp]; rfl) rfl (by rw [hp]; rfl) hdone ?_ hring rfl rfl ?_
  · exact hdone
  · exact ⟨hdone,hfits,Nat.mod_eq_of_lt hsmall,hbytes,rfl⟩

lemma post (h : TxInv m) {packet : List UInt8} (hp : m.point = .posting packet) :
    TxInv { m with driver := m.driver.clearTxStatus, point := .ringing packet } := by
  obtain ⟨hdone,hfits,hdescribed⟩ := h.prepared_of hp
  have hposted : m.point.posted = [] := by
    rw [hp]
    rfl
  have hring : m.driver.clearTxStatus.txRing = _ := E1000.txRing_update rfl rfl
  constructor
  case sent => exact h.sent
  case window =>
    have hwindow := h.window
    rw [hposted,List.append_nil] at hwindow
    change Window Posted Done m.driver.clearTxStatus.txRing m.transmitted.length
      (m.pending++[packet])
    rw [hring,h.next_slot]
    refine hwindow.push (h.room hposted hdone) ?_
    rw [h.next_slot] at hdescribed
    exact ⟨⟨hdescribed.length,hdescribed.bytes,hdescribed.command⟩,rfl⟩
  case head => exact h.head
  case tail => exact h.tail
  case next => exact h.next
  case consumed =>
    have hconsumed := h.consumed
    rw [hp] at hconsumed
    exact hconsumed
  case prepared => exact hfits

lemma ring (h : TxInv m) {packet : List UInt8} (hp : m.point = .ringing packet) :
    TxInv (m.finishSend packet) ∧ (m.finishSend packet).pending = m.pending++[packet] := by
  have hfits : Fits packet := h.prepared_of hp
  have hpending : (m.finishSend packet).pending = m.pending++[packet] :=
    List.drop_append_of_le_length h.sent.length_le
  have htail : m.driver.txNext+1 = slot ringSize (m.accepted++[packet]).length := by
    rw [h.next,List.length_append,← slot_succ]
    rfl
  refine ⟨?_,hpending⟩
  constructor
  case sent => exact h.sent.trans (List.prefix_append _ _)
  case window =>
    have hwindow := h.window
    rw [hp] at hwindow
    rw [hpending]
    change Window Posted Done m.driver.txRing m.transmitted.length (m.pending++[packet]++[])
    rw [List.append_nil]
    exact hwindow
  case head => exact h.head
  case tail => exact htail
  case next => exact htail
  case consumed =>
    have hconsumed := h.consumed
    rw [hp] at hconsumed
    change m.consumed.filter Fits = m.accepted++[packet]++[]
    rw [hconsumed]
    simp [Point.outgoing,hfits]
  case prepared => trivial

/-- While the head is not at the tail, the card sends the first pending packet as it is. -/
lemma cardTransmit (h : TxInv m) (hne : m.driver.registers.tdh ≠ m.driver.registers.tdt) :
    TxInv { m with
        driver := m.driver.cardTransmit
        transmitted := m.transmitted++[m.driver.headPacket] } ∧
      m.pending = m.driver.headPacket :: m.accepted.drop (m.transmitted.length+1) := by
  have haccepted := h.accepted_eq
  have hwindow := h.window
  cases hpending : m.pending with
  | nil =>
    rw [hpending,List.append_nil] at haccepted
    rw [h.head,h.tail,haccepted] at hne
    exact absurd rfl hne
  | cons packet rest =>
    rw [hpending] at hwindow haccepted
    have hfront : Posted packet (m.driver.txRing m.driver.registers.tdh) := by
      rw [h.head]
      exact hwindow.front
    have hpacket : m.driver.headPacket = packet := by
      have hbytes := hfront.bytes
      rw [← hfront.length] at hbytes
      exact hbytes
    have hrest : m.accepted.drop (m.transmitted.length+1) = rest := by
      rw [haccepted,← List.drop_drop,List.drop_left]
      rfl
    rw [hpacket,hrest]
    refine ⟨?_,rfl⟩
    have hpending' : Machine.pending { m with
        driver := m.driver.cardTransmit, transmitted := m.transmitted++[packet] } = rest := by
      unfold Machine.pending
      rw [List.length_append]
      exact hrest
    have hring : m.driver.cardTransmit.txRing = _ := E1000.txRing_update rfl rfl
    constructor
    case sent =>
      rw [haccepted]
      exact ⟨rest,by simp⟩
    case window =>
      rw [hpending']
      change Window Posted Done m.driver.cardTransmit.txRing (m.transmitted++[packet]).length
        (rest++m.point.posted)
      rw [hring,h.head,List.length_append]
      refine hwindow.pop ?_
      rw [← h.head]
      change ((m.driver.txRing m.driver.registers.tdh).1.status ||| 1) &&& 1 ≠ 0
      rw [hfront.status]
      decide
    case head =>
      change m.driver.registers.tdh+1 = slot ringSize (m.transmitted++[packet]).length
      rw [h.head,List.length_append,← slot_succ]
      rfl
    case tail => exact h.tail
    case next => exact h.next
    case consumed => exact h.consumed
    case prepared =>
      change m.point.Prepared (m.driver.cardTransmit.txRing m.driver.txNext)
      rw [hring]
      by_cases hsame : m.driver.txNext = m.driver.registers.tdh
      · have hprepared := h.prepared
        rw [hsame] at hprepared
        exact hprepared.of_not_done hfront.not_done _
      · rw [Function.update_of_ne hsame]
        exact h.prepared

/-- The packets on the ring change only by the write to the tail register. -/
lemma proceed (h : TxInv m) (hs : m.proceed = some m') :
    TxInv m' ∧ ((∀ packet, m.point ≠ .ringing packet) ∧ m'.pending = m.pending ∨
      ∃ packet, m.point = .ringing packet ∧ m'.pending = m.pending++[packet]) := by
  unfold Machine.proceed at hs
  cases hp : m.point with
  | idle | token =>
    rw [hp] at hs
    cases hs
  | receiving =>
    have hdone : Done (m.driver.txRing m.driver.txNext) := h.prepared_of hp
    rw [hp] at hs
    cases hs
    refine ⟨?_,.inl ⟨nofun,rfl⟩⟩
    split_ifs
    · exact h.moveTo hp rfl rfl trivial
    · exact h.moveTo hp rfl rfl hdone
  | taking status =>
    have hdone : Done (m.driver.txRing m.driver.txNext) := h.prepared_of hp
    rw [hp] at hs
    cases hs
    exact ⟨h.moveTo hp rfl rfl hdone,.inl ⟨nofun,rfl⟩⟩
  | freeing packet =>
    have hdone : Done (m.driver.txRing m.driver.txNext) := h.prepared_of hp
    rw [hp] at hs
    cases hs
    have hmoved : TxInv { m with point := .returning packet } :=
      h.moveTo hp rfl rfl hdone
    exact ⟨hmoved.receiveSide m.driver.clearRxStatus rfl rfl rfl rfl _ _ _ _,.inl ⟨nofun,rfl⟩⟩
  | returning packet =>
    have hdone : Done (m.driver.txRing m.driver.txNext) := h.prepared_of hp
    rw [hp] at hs
    cases hs
    have hmoved : TxInv { m with point := if packet.isSome then .token else .idle } := by
      split_ifs
      · exact h.moveTo hp rfl rfl hdone
      · exact h.moveTo hp rfl rfl trivial
    exact ⟨hmoved.receiveSide m.driver.returnDescriptor rfl rfl rfl rfl _ _ _ _,
      .inl ⟨nofun,rfl⟩⟩
  | sending packet =>
    rw [hp] at hs
    cases hs
    exact ⟨h.check hp,.inl ⟨nofun,rfl⟩⟩
  | copying packet =>
    rw [hp] at hs
    cases hs
    exact ⟨h.copy hp,.inl ⟨nofun,rfl⟩⟩
  | describing packet =>
    rw [hp] at hs
    cases hs
    exact ⟨h.describe hp,.inl ⟨nofun,rfl⟩⟩
  | posting packet =>
    rw [hp] at hs
    cases hs
    exact ⟨h.post hp,.inl ⟨nofun,rfl⟩⟩
  | ringing packet =>
    rw [hp] at hs
    cases hs
    exact ⟨(h.ring hp).1,.inr ⟨packet,rfl,(h.ring hp).2⟩⟩

/-- Every move keeps the invariant; a write to the tail register adds one packet to the ring and
nothing else adds any. -/
theorem step (h : TxInv m) {move : Move} (hs : m.step move = some m') :
    TxInv m' ∧ ((∃ packet, m.point = .ringing packet ∧ move = .proceed) ∧
        m'.pending.length = m.pending.length+1 ∨
      ¬(∃ packet, m.point = .ringing packet ∧ move = .proceed) ∧
        m'.pending.length ≤ m.pending.length) := by
  cases move with
  | transmit =>
    obtain ⟨hp,hs⟩ := Option.ite_none_right_eq_some.mp hs
    cases hs
    exact ⟨h.ready_or_idle hp .token rfl rfl fun _ hd => hd,.inr ⟨by simp,le_rfl⟩⟩
  | receive =>
    obtain ⟨hp,hs⟩ := Option.ite_none_right_eq_some.mp hs
    cases hs
    exact ⟨h.ready_or_idle hp .receiving rfl rfl fun _ hd => hd,.inr ⟨by simp,le_rfl⟩⟩
  | consume packet =>
    obtain ⟨hp,hs⟩ := Option.ite_none_right_eq_some.mp hs
    cases hs
    exact ⟨h.consume hp packet,.inr ⟨by simp,le_rfl⟩⟩
  | discard =>
    obtain ⟨hp,hs⟩ := Option.ite_none_right_eq_some.mp hs
    cases hs
    exact ⟨h.moveTo hp rfl rfl trivial,.inr ⟨by simp,le_rfl⟩⟩
  | proceed =>
    obtain ⟨hinv,⟨hp,hsame⟩ | ⟨packet,hp,hmore⟩⟩ := h.proceed hs
    · refine ⟨hinv,.inr ⟨?_,by rw [hsame]⟩⟩
      rintro ⟨packet,hring,-⟩
      exact hp packet hring
    · refine ⟨hinv,.inl ⟨⟨packet,hp,rfl⟩,?_⟩⟩
      rw [hmore,List.length_append]
      rfl
  | cardTransmit =>
    obtain ⟨hne,hs⟩ := Option.ite_none_left_eq_some.mp hs
    cases hs
    obtain ⟨hinv,-⟩ := h.cardTransmit hne
    refine ⟨hinv,.inr ⟨by simp,?_⟩⟩
    unfold Machine.pending
    simp only [List.length_drop,List.length_append]
    omega
  | cardStore frame =>
    obtain ⟨-,hs⟩ := Option.ite_none_left_eq_some.mp hs
    cases hs
    exact ⟨h.receiveSide (m.driver.cardStore frame) rfl rfl rfl rfl _ _ _ _,.inr ⟨by simp,le_rfl⟩⟩

end TxInv

/-- What the stack relies on. Every packet that fits goes to the ring, where it stays as it is
until the card has sent it, in order and once; nothing is left behind when the head is at the
tail, and the card gets through what is there. -/
structure Transmits (m : Machine) : Prop where
  accepts : m.consumed.filter Fits = m.accepted++m.point.outgoing.filter Fits
  inOrder : m.transmitted <+: m.accepted
  intact : ∀ j packet, m.pending[j]? = some packet →
    Posted packet (m.driver.txRing (slot ringSize (m.driver.registers.tdh.val+j)))
  emptied : m.driver.registers.tdh = m.driver.registers.tdt → m.transmitted = m.accepted
  drains : ∃ m', run Machine.step (List.replicate m.pending.length .cardTransmit) m = some m' ∧
    m'.transmitted = m.accepted

namespace TxInv
variable {m m' : Machine}

lemma tdh_eq_tdt_iff (h : TxInv m) : m.driver.registers.tdh = m.driver.registers.tdt ↔
    m.pending.length = 0 ∨ m.pending.length = ringSize := by
  have hle := h.pending_le
  rw [h.head,h.tail,h.length_pending,slot_eq_iff (by omega) (by omega)]
  omega

lemma intact (h : TxInv m) {j : ℕ} {packet : List UInt8} (hj : m.pending[j]? = some packet) :
    Posted packet (m.driver.txRing (slot ringSize (m.driver.registers.tdh.val+j))) := by
  have hlt := (List.getElem?_eq_some_iff.mp hj).1
  have hslot : slot ringSize (m.driver.registers.tdh.val+j) =
      slot ringSize (m.transmitted.length+j) := by
    rw [h.head]
    exact Fin.ext (Nat.mod_add_mod _ _ _)
  rw [hslot]
  apply h.window.holds
  rw [List.getElem?_append_left hlt]
  exact hj

/-- The card sends all that is pending, unless the ring looks empty to it. -/
lemma drains (h : TxInv m) (hlt : m.pending.length < ringSize) :
    ∃ m', run Machine.step (List.replicate m.pending.length .cardTransmit) m = some m' ∧
      m'.transmitted = m.accepted := by
  generalize hn : m.pending.length = n
  induction n generalizing m with
  | zero =>
    refine ⟨m,rfl,?_⟩
    rw [h.accepted_eq,List.eq_nil_of_length_eq_zero hn,List.append_nil]
  | succ n ih =>
    have hne : m.driver.registers.tdh ≠ m.driver.registers.tdt := by
      rw [Ne,h.tdh_eq_tdt_iff]
      omega
    obtain ⟨hinv,hpending⟩ := h.cardTransmit hne
    have hrest : (Machine.pending { m with
        driver := m.driver.cardTransmit
        transmitted := m.transmitted++[m.driver.headPacket] }).length = n := by
      rw [hpending,List.length_cons] at hn
      unfold Machine.pending
      rw [List.length_append]
      exact Nat.succ.inj hn
    obtain ⟨m',hrun,hm'⟩ := ih hinv (by omega) hrest
    refine ⟨m',?_,hm'⟩
    rw [List.replicate_succ,run,Machine.step,if_neg hne]
    exact hrun

theorem transmits_iff (h : TxInv m) : Transmits m ↔ m.pending.length < ringSize := by
  constructor
  · intro ht
    refine lt_of_le_of_ne h.pending_le fun hfull => ?_
    have hsent := ht.emptied (h.tdh_eq_tdt_iff.mpr (.inr hfull))
    have hlength := h.length_pending
    rw [hsent,hfull] at hlength
    simp at hlength
  · intro hlt
    refine ⟨h.consumed,h.sent,fun _ _ => h.intact,?_,h.drains hlt⟩
    intro heq
    have hzero : m.pending.length = 0 := (h.tdh_eq_tdt_iff.mp heq).resolve_right hlt.ne
    rw [h.accepted_eq,List.eq_nil_of_length_eq_zero hzero,List.append_nil]

end TxInv

/-- A write to the tail register does not move the tail onto the head. -/
def LeavesGap (m : Machine) (move : Move) : Prop :=
  (∃ packet, m.point = .ringing packet ∧ move = .proceed) →
    m.driver.txNext+1 ≠ m.driver.registers.tdh

lemma TxInv.transmits_step {m m' : Machine} {move : Move} (h : TxInv m) (ht : Transmits m)
    (hs : m.step move = some m') : TxInv m' ∧ (Transmits m' ↔ LeavesGap m move) := by
  have hlt := h.transmits_iff.mp ht
  obtain ⟨hinv,⟨hring,hmore⟩ | ⟨hring,hless⟩⟩ := h.step hs
  · refine ⟨hinv,?_⟩
    have hgap : m.driver.txNext+1 = m.driver.registers.tdh ↔ m.pending.length+1 = ringSize := by
      rw [h.next,h.head,h.length_pending,← slot_succ,eq_comm,slot_eq_iff (by omega) (by omega)]
      omega
    rw [hinv.transmits_iff,hmore]
    constructor
    · intro hroom _ heq
      exact hroom.ne (hgap.mp heq)
    · intro hleaves
      exact lt_of_le_of_ne hlt fun heq => hleaves hring (hgap.mpr heq)
  · refine ⟨hinv,iff_of_true (hinv.transmits_iff.mpr (by omega)) fun hring' => ?_⟩
    exact absurd hring' hring

/-- Packets get through as long as the driver never fills the ring completely: the card takes a
ring with eight packets for an empty one. -/
theorem transmits_iff_leavesGap (dma : DmaState) (moves : List Move) :
    Always Machine.step Transmits moves (.initial dma) ↔
      Meets Machine.step LeavesGap moves (.initial dma) := by
  have hinitial := txInv_initial dma
  refine always_iff_meets (I := TxInv) (fun m move m' h ht hs => h.transmits_step ht hs) hinitial ?_
    moves
  rw [hinitial.transmits_iff]
  change 0 < ringSize
  decide

/-- Eight packets sent before the card has sent one stay on the ring. -/
theorem eighth_packet_stops_the_ring :
    ¬Always Machine.step Transmits
      (List.replicate 8 [.transmit,.consume [0x2a],.proceed,.proceed,.proceed,.proceed,
        .proceed]).flatten
      (.initial ⟨fun _ => .empty,fun _ => .empty,fun _ => .replicate _ 0,
        fun _ => .replicate _ 0⟩) := by
  intro h
  have hrun : (run Machine.step (List.replicate 8 [.transmit,.consume [0x2a],.proceed,.proceed,
        .proceed,.proceed,.proceed]).flatten
      (.initial ⟨fun _ => .empty,fun _ => .empty,fun _ => .replicate _ 0,
        fun _ => .replicate _ 0⟩)).map (fun m => (m.driver.registers,m.transmitted,
          m.accepted.length)) = some (⟨0,7,0,0⟩,[],8) := by
    decide
  obtain ⟨m,hm,hfinal⟩ := Option.map_eq_some_iff.mp hrun
  have hsent := (h.run hm).emptied
  simp only [Prod.mk.injEq] at hfinal
  obtain ⟨hregisters,htransmitted,hlength⟩ := hfinal
  rw [hregisters,htransmitted] at hsent
  rw [← hsent rfl] at hlength
  cases hlength

end CrabOs.Net
