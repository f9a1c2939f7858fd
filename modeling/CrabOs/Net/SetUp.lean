import CrabOs.Foundations.AtomicProgram
import CrabOs.Memory.Translate
import CrabOs.Net.E1000

/-! `E1000::new`: the reset of the card, its address and the rings in memory that it shares with the
driver. -/
namespace CrabOs.Net.SetUp
open AtomicProgram Memory

/-- Accesses to the registers of the card and to the descriptors. -/
inductive Call
  | read (register : ℕ)
  | write (register : ℕ) (value : UInt32)
  | clearRx (index : Slot)
  | pointRx (index : Slot) (address : ℕ)
  | clearTx (index : Slot)
  | pointTx (index : Slot) (address : ℕ)

abbrev Answer : Call → Type
  | .read _ => UInt32
  | _ => Unit

abbrev Program (α : Type) := AtomicProgram Call Answer α

abbrev ask (call : Call) : Program (Answer call) := perform call

/-- `1 << position`. -/
def bit (position : UInt32) : UInt32 := 1 <<< position

/-- `value << position`. -/
def field (value position : UInt32) : UInt32 := value <<< position

/-! The addresses of the parts of `DmaState`: a descriptor has 16 bytes, a packet has a page. -/

def rxRing (dma : ℕ) : ℕ := dma
def txRing (dma : ℕ) : ℕ := dma+16*ringSize
def rxPacket (dma : ℕ) (index : Slot) : ℕ := dma+frameSize+frameSize*index
def txPacket (dma : ℕ) (index : Slot) : ℕ := dma+frameSize+frameSize*ringSize+frameSize*index

section
variable (tables : PageTables) (root : ℕ)

/-- `E1000::physical`; a huge page is a panic. -/
def physical (pointer : ℕ) : Program (Except String ℕ) :=
  match translateAddr tables root pointer with
  | none => .fail
  | some none => return .error "DMA address is not mapped"
  | some (some address) => return .ok address

/-- The loop that waits for the reset, with the number of rounds left. -/
def awaitReset : ℕ → Program Unit
  | 0 => return ()
  | n+1 => do
    let control : UInt32 ← ask (.read 0x0000)
    if control &&& bit 26 = 0 then return ()
    else awaitReset n

/-- The loop over the descriptors. -/
def fillRings (dma : ℕ) : List Slot → Program (Except String Unit)
  | [] => return .ok ()
  | index :: rest => do
    ask (.clearRx index)
    match ← physical tables root (rxPacket dma index) with
    | .error message => return .error message
    | .ok address =>
      ask (.pointRx index address)
      ask (.clearTx index)
      match ← physical tables root (txPacket dma index) with
      | .error message => return .error message
      | .ok address =>
        ask (.pointTx index address)
        fillRings dma rest

/-- The bytes of the two address registers in order. -/
def macBytes (low high : UInt32) : Vector UInt8 6 :=
  #v[low.toUInt8,(low >>> 8).toUInt8,(low >>> 16).toUInt8,(low >>> 24).toUInt8,
    high.toUInt8,(high >>> 8).toUInt8]

/-- The values that start the two directions. -/
def transmitControl : UInt32 := 2 ||| bit 3 ||| field 15 4 ||| field 64 12
def receiveControl : UInt32 := 2 ||| bit 15 ||| bit 26

/-- The writes that tell the card where the rings are, and that start it. -/
def startCard (rxAddress txAddress : ℕ) : List Call :=
  [.write 0x2800 (.ofNat rxAddress),.write 0x2804 (.ofNat (rxAddress/2^32)),
    .write 0x2808 (.ofNat (ringSize*16)),.write 0x2810 0,.write 0x2818 (.ofNat (ringSize-1)),
    .write 0x3800 (.ofNat txAddress),.write 0x3804 (.ofNat (txAddress/2^32)),
    .write 0x3808 (.ofNat (ringSize*16)),.write 0x3810 0,.write 0x3818 0,.write 0x0410 0,
    .write 0x0400 transmitControl,.write 0x0100 receiveControl]

/-- From the rings on. -/
def shareRings (dma : ℕ) : Program (Except String Unit) := do
  match ← fillRings tables root dma (List.finRange ringSize) with
  | .error message => return .error message
  | .ok _ => match ← physical tables root (rxRing dma) with
    | .error message => return .error message
    | .ok rxAddress => match ← physical tables root (txRing dma) with
      | .error message => return .error message
      | .ok txAddress =>
        performAll (startCard rxAddress txAddress)
        return .ok ()

/-- `E1000::new`, with the address of the card that it keeps. -/
def new (dma : ℕ) : Program (Except String (Vector UInt8 6)) := do
  ask (.write 0xd8 0xffffffff)
  let control : UInt32 ← ask (.read 0x0000)
  ask (.write 0x0000 (control ||| bit 26))
  awaitReset 100000
  let control : UInt32 ← ask (.read 0x0000)
  if control &&& bit 26 ≠ 0 then return .error "e1000 reset timed out"
  else
    ask (.write 0xd8 0xffffffff)
    let low : UInt32 ← ask (.read 0x5400)
    let high : UInt32 ← ask (.read 0x5404)
    if high &&& bit 31 = 0 then return .error "e1000 MAC address is invalid"
    else
      let control : UInt32 ← ask (.read 0x0000)
      ask (.write 0x0000 (control ||| bit 6))
      match ← shareRings tables root dma with
      | .error message => return .error message
      | .ok _ => return .ok (macBytes low high)

end

/-! ### The card -/

/-- The bytes of `map_mmio` for the registers. -/
def windowSize : ℕ := 0x20000

/-- What the driver has written to the registers since it asked for the last reset, the address the
card has of its own, and the descriptors in memory. -/
structure Card where
  registers : ℕ → UInt32
  address : UInt32 × UInt32
  rx : Slot → RxDescriptor
  rxAddress : Slot → ℕ
  tx : Slot → TxDescriptor
  txAddress : Slot → ℕ

namespace Card
variable (tables : PageTables) (root dma : ℕ) (card : Card)

/-- The 64-bit address in two registers. -/
def base (register : ℕ) : ℕ :=
  (card.registers register).toNat+2^32*(card.registers (register+4)).toNat

/-- The card finds every byte of a buffer where the driver has it. -/
def Shares (address pointer length : ℕ) : Prop :=
  ∀ k < length, translateAddr tables root (pointer+k) = some (some (address+k))

/-- The receiver can be started. -/
structure RxReady : Prop where
  ring : Shares tables root (card.base 0x2800) (rxRing dma) (16*ringSize)
  length : card.registers 0x2808 = .ofNat (16*ringSize)
  head : card.registers 0x2810 = 0
  tail : card.registers 0x2818 = .ofNat (ringSize-1)
  empty : ∀ i, card.rx i = .empty
  packets : ∀ i, Shares tables root (card.rxAddress i) (rxPacket dma i) packetSize

structure TxReady : Prop where
  ring : Shares tables root (card.base 0x3800) (txRing dma) (16*ringSize)
  length : card.registers 0x3808 = .ofNat (16*ringSize)
  head : card.registers 0x3810 = 0
  tail : card.registers 0x3818 = 0
  empty : ∀ i, card.tx i = .empty
  packets : ∀ i, Shares tables root (card.txAddress i) (txPacket dma i) packetSize

def write (register : ℕ) (value : UInt32) : Card :=
  if register = 0 ∧ value &&& bit 26 ≠ 0 then { card with registers := fun _ => 0 }
  else { card with registers := Function.update card.registers register value }

/-- The registers are in the window that is mapped for them, and neither direction is started before
its ring is ready. -/
def guard : Call → Card → Prop
  | .read register,_ => register+4 ≤ windowSize
  | .write register value,card => register+4 ≤ windowSize ∧
    (register = 0x0100 → value &&& 2 ≠ 0 → card.RxReady tables root dma) ∧
      (register = 0x0400 → value &&& 2 ≠ 0 → card.TxReady tables root dma)
  | _,_ => True

/-- The card may answer anything, but with its own address. -/
def outcome : (c : Call) → Card → Card → Answer c → Prop
  | .read register,card,card',value => card' = card ∧ (register = 0x5400 → value = card.address.1) ∧
    (register = 0x5404 → value = card.address.2)
  | .write register value,card,card',_ => card' = card.write register value
  | .clearRx index,card,card',_ => card' = { card with
      rx := Function.update card.rx index .empty
      rxAddress := Function.update card.rxAddress index 0 }
  | .pointRx index address,card,card',_ =>
    card' = { card with rxAddress := Function.update card.rxAddress index address }
  | .clearTx index,card,card',_ => card' = { card with
      tx := Function.update card.tx index .empty
      txAddress := Function.update card.txAddress index 0 }
  | .pointTx index address,card,card',_ =>
    card' = { card with txAddress := Function.update card.txAddress index address }

def rules : Guarded Call Answer Card := ⟨guard tables root dma,outcome⟩

end Card

section Rules
variable {tables : PageTables} {root dma : ℕ} {card : Card}

lemma Card.write_of_ne {register : ℕ} (h : register ≠ 0) (value : UInt32) :
    card.write register value =
      { card with registers := Function.update card.registers register value } :=
  if_neg fun hr => h hr.1

lemma Card.shares_page {address pointer length : ℕ}
    (h : translateAddr tables root pointer = some (some address))
    (hpage : pointer % frameSize+length ≤ frameSize) :
    Card.Shares tables root address pointer length :=
  fun _ hk => translateAddr_page h (by omega)

lemma base_split {address : ℕ} (h : address < 2^52) :
    (UInt32.ofNat address).toNat+2^32*(UInt32.ofNat (address/2^32)).toNat = address := by
  rw [UInt32.toNat_ofNat',UInt32.toNat_ofNat']
  omega

lemma guard_read {register : ℕ} (h : register+4 ≤ windowSize) :
    (Card.rules tables root dma).guard (.read register) card := h

lemma safe_physical (pointer : ℕ) :
    (physical tables root pointer).Safe (Card.rules tables root dma) (fun card' result =>
      card' = card ∧ ∀ address, result = .ok address →
        translateAddr tables root pointer = some (some address)) card := by
  unfold physical
  split
  · trivial
  · exact ⟨rfl,fun _ hr => by cases hr⟩
  next address htranslate =>
    refine ⟨rfl,fun address' hr => ?_⟩
    rw [htranslate,Except.ok.inj hr]

lemma safe_awaitReset (n : ℕ) :
    (awaitReset n).Safe (Card.rules tables root dma) (fun card' _ => card' = card) card := by
  induction n with
  | zero => rfl
  | succ n ih =>
    refine ⟨guard_read (by decide),fun card₁ control ho => ?_⟩
    obtain ⟨rfl,-⟩ := ho
    change Safe _ (if _ then _ else _) _ _
    split_ifs
    · rfl
    · exact ih

/-- The descriptors with this index are empty and point to their packets. -/
structure Filled (tables : PageTables) (root dma : ℕ) (card : Card) (index : Slot) : Prop where
  rx : card.rx index = .empty
  rxAddress : translateAddr tables root (rxPacket dma index) = some (some (card.rxAddress index))
  tx : card.tx index = .empty
  txAddress : translateAddr tables root (txPacket dma index) = some (some (card.txAddress index))

/-- The registers stay as they are while the descriptors are written. -/
structure SameRegisters (card card' : Card) : Prop where
  registers : card'.registers = card.registers
  address : card'.address = card.address

lemma safe_fillRings {filled rest : List Slot} {old : Card} (hsame : SameRegisters old card)
    (hfilled : ∀ i ∈ filled, Filled tables root dma card i) :
    (fillRings tables root dma rest).Safe (Card.rules tables root dma) (fun card' result =>
      SameRegisters old card' ∧
        (result = .ok () → ∀ i, i ∈ filled ∨ i ∈ rest → Filled tables root dma card' i)) card := by
  induction rest generalizing filled card with
  | nil =>
    refine ⟨hsame,fun _ i hi => hfilled i ?_⟩
    simpa using hi
  | cons index rest ih =>
    simp only [fillRings,ask,perform,bind_eq,pure_eq,call_bind,ret_bind]
    refine ⟨trivial,fun card₁ _ h₁ => ?_⟩
    rw [safe_bind]
    refine (safe_physical (rxPacket dma index)).mono ?_
    rintro card₂ (message | rxAddress) ⟨rfl,hrx⟩
    · rw [show card₂ = _ from h₁]
      exact ⟨⟨hsame.registers,hsame.address⟩,fun hr => by cases hr⟩
    · refine ⟨trivial,fun card₃ _ h₃ => ⟨trivial,fun card₄ _ h₄ => ?_⟩⟩
      rw [safe_bind]
      refine (safe_physical (txPacket dma index)).mono ?_
      rintro card₅ (message | txAddress) ⟨rfl,htx⟩
      · rw [show card₅ = _ from h₄,show card₃ = _ from h₃,show card₂ = _ from h₁]
        exact ⟨⟨hsame.registers,hsame.address⟩,fun hr => by cases hr⟩
      · refine ⟨trivial,fun card₆ _ h₆ => ?_⟩
        have hall : SameRegisters old card₆ ∧
            ∀ i ∈ index :: filled, Filled tables root dma card₆ i := by
          rw [show card₆ = _ from h₆,show card₅ = _ from h₄,show card₃ = _ from h₃,
            show card₂ = _ from h₁]
          refine ⟨⟨hsame.registers,hsame.address⟩,fun i hi => ?_⟩
          by_cases hindex : i = index
          · subst hindex
            constructor
            all_goals simp [hrx rxAddress rfl,htx txAddress rfl]
          · have hold := hfilled i ((List.mem_cons.mp hi).resolve_left hindex)
            constructor
            all_goals simp only [Function.update_of_ne hindex]
            exacts [hold.rx,hold.rxAddress,hold.tx,hold.txAddress]
        refine (ih hall.1 hall.2).mono fun card' result hr => ⟨hr.1,fun hok i hi => ?_⟩
        refine hr.2 hok i ?_
        rcases hi with hi | hi
        · exact .inl (List.mem_cons_of_mem _ hi)
        · rcases List.mem_cons.mp hi with rfl | hi
          · exact .inl List.mem_cons_self
          · exact .inr hi

/-- A register other than the control register is written. -/
lemma safe_write {α : Type} {register : ℕ} {value : UInt32} {next : Unit → Program α}
    {Q : Card → α → Prop} (h0 : register ≠ 0)
    (hguard : Card.guard tables root dma (.write register value) card)
    (h : (next ()).Safe (Card.rules tables root dma) Q
      { card with registers := Function.update card.registers register value }) :
    (call (.write register value) next).Safe (Card.rules tables root dma) Q card := by
  refine ⟨hguard,fun card₁ _ ho => ?_⟩
  rw [show card₁ = _ from ho,Card.write_of_ne h0]
  exact h

def writeAll (registers : ℕ → UInt32) (writes : List (ℕ × UInt32)) : ℕ → UInt32 :=
  writes.foldl (fun registers w => Function.update registers w.1 w.2) registers

/-- Writes that neither reset the card nor start it. -/
lemma safe_writes {writes : List (ℕ × UInt32)} {calls : List Call} {Q : Card → Unit → Prop}
    (hquiet : ∀ w ∈ writes, w.1+4 ≤ windowSize ∧ w.1 ≠ 0 ∧ w.1 ≠ 0x0100 ∧ w.1 ≠ 0x0400)
    (h : (performAll calls).Safe (Card.rules tables root dma) Q
      { card with registers := writeAll card.registers writes }) :
    (performAll (writes.map (fun w => .write w.1 w.2)++calls)).Safe (Card.rules tables root dma) Q
      card := by
  induction writes generalizing card with
  | nil => exact h
  | cons w writes ih =>
    obtain ⟨hw,h0,h1,h4⟩ := hquiet w List.mem_cons_self
    refine safe_write h0 ⟨hw,fun hr => absurd hr h1,fun hr => absurd hr h4⟩ ?_
    exact ih (fun w hw => hquiet w (List.mem_cons_of_mem _ hw)) h

/-- Both rings are ready and both directions are started. -/
structure Running (tables : PageTables) (root dma : ℕ) (card : Card) : Prop where
  rx : card.RxReady tables root dma
  tx : card.TxReady tables root dma
  receiving : card.registers 0x0100 &&& 2 ≠ 0
  transmitting : card.registers 0x0400 &&& 2 ≠ 0

lemma rxPacket_page (hdma : dma % frameSize = 0) (i : Slot) :
    rxPacket dma i % frameSize+packetSize ≤ frameSize := by
  unfold rxPacket packetSize
  unfold frameSize at hdma ⊢
  omega

lemma txPacket_page (hdma : dma % frameSize = 0) (i : Slot) :
    txPacket dma i % frameSize+packetSize ≤ frameSize := by
  unfold txPacket packetSize ringSize
  unfold frameSize at hdma ⊢
  omega

lemma Card.base_update {register ring : ℕ} (hr : register < ring) (value : UInt32) :
    Card.base { card with registers := Function.update card.registers register value } ring =
      card.base ring := by
  change (Function.update card.registers register value ring).toNat+
    2^32*(Function.update card.registers register value (ring+4)).toNat = _
  rw [Function.update_of_ne (by omega),Function.update_of_ne (by omega)]
  rfl

/-- The control registers of the two directions are not among those of the rings. -/
lemma Card.RxReady.update (h : card.RxReady tables root dma) {register : ℕ}
    (hr : register < 0x2800) (value : UInt32) : Card.RxReady tables root dma
      { card with registers := Function.update card.registers register value } := by
  have hkeep : ∀ other, 0x2800 ≤ other →
      Function.update card.registers register value other = card.registers other :=
    fun other ho => Function.update_of_ne (by omega) _ _
  refine ⟨?_,?_,?_,?_,h.empty,h.packets⟩
  · rw [Card.base_update hr]
    exact h.ring
  · exact (hkeep _ (by decide)).trans h.length
  · exact (hkeep _ (by decide)).trans h.head
  · exact (hkeep _ (by decide)).trans h.tail

lemma Card.TxReady.update (h : card.TxReady tables root dma) {register : ℕ}
    (hr : register < 0x2800) (value : UInt32) : Card.TxReady tables root dma
      { card with registers := Function.update card.registers register value } := by
  have hkeep : ∀ other, 0x2800 ≤ other →
      Function.update card.registers register value other = card.registers other :=
    fun other ho => Function.update_of_ne (by omega) _ _
  refine ⟨?_,?_,?_,?_,h.empty,h.packets⟩
  · rw [Card.base_update (hr.trans (by decide))]
    exact h.ring
  · exact (hkeep _ (by decide)).trans h.length
  · exact (hkeep _ (by decide)).trans h.head
  · exact (hkeep _ (by decide)).trans h.tail

def ringWrites (rxAddress txAddress : ℕ) : List (ℕ × UInt32) :=
  [(0x2800,.ofNat rxAddress),(0x2804,.ofNat (rxAddress/2^32)),(0x2808,.ofNat (ringSize*16)),
    (0x2810,0),(0x2818,.ofNat (ringSize-1)),(0x3800,.ofNat txAddress),
    (0x3804,.ofNat (txAddress/2^32)),(0x3808,.ofNat (ringSize*16)),(0x3810,0),(0x3818,0),(0x0410,0)]

lemma forall_ringWrites (rxAddress txAddress : ℕ) :
    ∀ w ∈ ringWrites rxAddress txAddress,
      w.1+4 ≤ windowSize ∧ w.1 ≠ 0 ∧ w.1 ≠ 0x0100 ∧ w.1 ≠ 0x0400 := by
  simp [ringWrites,windowSize]

lemma safe_startCard (hdma : dma % frameSize = 0) {rxAddress txAddress : ℕ}
    (hrx : translateAddr tables root (rxRing dma) = some (some rxAddress))
    (htx : translateAddr tables root (txRing dma) = some (some txAddress))
    (hfilled : ∀ i, Filled tables root dma card i) :
    (performAll (startCard rxAddress txAddress)).Safe (Card.rules tables root dma)
      (fun card' _ => Running tables root dma card' ∧ card'.address = card.address) card := by
  have hrxRing : Card.Shares tables root rxAddress (rxRing dma) (16*ringSize) := by
    refine Card.shares_page hrx ?_
    unfold rxRing ringSize
    rw [hdma]
    decide
  have htxRing : Card.Shares tables root txAddress (txRing dma) (16*ringSize) := by
    refine Card.shares_page htx ?_
    unfold txRing ringSize
    unfold frameSize at hdma ⊢
    omega
  have hrxPackets : ∀ i, Card.Shares tables root (card.rxAddress i) (rxPacket dma i) packetSize :=
    fun i => Card.shares_page (hfilled i).rxAddress (rxPacket_page hdma i)
  have htxPackets : ∀ i, Card.Shares tables root (card.txAddress i) (txPacket dma i) packetSize :=
    fun i => Card.shares_page (hfilled i).txAddress (txPacket_page hdma i)
  have hsplit := base_split (translateAddr_lt hrx)
  have hsplit' := base_split (translateAddr_lt htx)
  have hcalls : startCard rxAddress txAddress =
      (ringWrites rxAddress txAddress).map (fun w => Call.write w.1 w.2)++
        [.write 0x0400 transmitControl,.write 0x0100 receiveControl] := rfl
  rw [hcalls]
  refine safe_writes (forall_ringWrites _ _) ?_
  have hregister : ∀ w ∈ ringWrites rxAddress txAddress,
      writeAll card.registers (ringWrites rxAddress txAddress) w.1 = w.2 := by
    simp [ringWrites,writeAll,Function.update]
  generalize writeAll card.registers (ringWrites rxAddress txAddress) = registers at hregister ⊢
  simp only [ringWrites,List.forall_mem_cons] at hregister
  obtain ⟨h1,h2,h3,h4,h5,h6,h7,h8,h9,h10,-⟩ := hregister
  have hrxReady : Card.RxReady tables root dma { card with registers := registers } := by
    refine ⟨?_,h3,h4,h5,fun i => (hfilled i).rx,hrxPackets⟩
    have hbase : Card.base { card with registers := registers } 0x2800 = rxAddress := by
      change (registers 0x2800).toNat+2^32*(registers 0x2804).toNat = rxAddress
      rw [h1,h2]
      exact hsplit
    rw [hbase]
    exact hrxRing
  have htxReady : Card.TxReady tables root dma { card with registers := registers } := by
    refine ⟨?_,h8,h9,h10,fun i => (hfilled i).tx,htxPackets⟩
    have hbase : Card.base { card with registers := registers } 0x3800 = txAddress := by
      change (registers 0x3800).toNat+2^32*(registers 0x3804).toNat = txAddress
      rw [h6,h7]
      exact hsplit'
    rw [hbase]
    exact htxRing
  refine safe_write (by decide) ⟨by decide,fun hr => absurd hr (by decide),fun _ _ => htxReady⟩ ?_
  refine safe_write (by decide) ⟨by decide,fun _ _ => hrxReady.update (by decide) _,
    fun hr => absurd hr (by decide)⟩ ⟨⟨?_,?_,?_,?_⟩,rfl⟩
  · exact (hrxReady.update (by decide) _).update (by decide) _
  · exact (htxReady.update (by decide) _).update (by decide) _
  · change Function.update (Function.update registers 0x0400 transmitControl) 0x0100 receiveControl
      0x0100 &&& 2 ≠ 0
    rw [Function.update_self]
    decide
  · change Function.update (Function.update registers 0x0400 transmitControl) 0x0100 receiveControl
      0x0400 &&& 2 ≠ 0
    rw [Function.update_of_ne (by decide),Function.update_self]
    decide

lemma safe_shareRings (hdma : dma % frameSize = 0) :
    (shareRings tables root dma).Safe (Card.rules tables root dma) (fun card' result =>
      card'.address = card.address ∧ match result with
        | .error _ => card'.registers = card.registers
        | .ok _ => Running tables root dma card') card := by
  simp only [shareRings,bind_eq,pure_eq]
  rw [safe_bind]
  have hnone : ∀ i ∈ ([] : List Slot), Filled tables root dma card i := by simp
  have hsame : SameRegisters card card := ⟨rfl,rfl⟩
  refine (safe_fillRings hsame hnone).mono ?_
  rintro card₁ (message | _) ⟨hsame,hfilled⟩
  · exact ⟨hsame.address,hsame.registers⟩
  · dsimp only
    rw [safe_bind]
    refine (safe_physical (rxRing dma)).mono ?_
    rintro card₂ (message | rxAddress) ⟨rfl,hrx⟩
    · exact ⟨hsame.address,hsame.registers⟩
    · dsimp only
      rw [safe_bind]
      refine (safe_physical (txRing dma)).mono ?_
      rintro card₃ (message | txAddress) ⟨rfl,htx⟩
      · exact ⟨hsame.address,hsame.registers⟩
      · dsimp only
        rw [safe_bind]
        refine (safe_startCard hdma (hrx _ rfl) (htx _ rfl) fun i =>
          hfilled rfl i (.inr (List.mem_finRange i))).mono ?_
        rintro card₄ _ ⟨hrunning,haddress⟩
        exact ⟨haddress.trans hsame.address,hrunning⟩

/-- The state of the rings that the driver starts with, around packets that hold anything. -/
def Card.driver (card : Card) (packets : DmaState) : E1000 where
  registers := ⟨.ofNat ringSize (card.registers 0x2810).toNat,
    .ofNat ringSize (card.registers 0x2818).toNat,.ofNat ringSize (card.registers 0x3810).toNat,
    .ofNat ringSize (card.registers 0x3818).toNat⟩
  dma := { packets with rx := card.rx, tx := card.tx }
  rxNext := 0
  txNext := 0

lemma Running.driver (h : Running tables root dma card) (packets : DmaState) :
    card.driver packets = .new packets := by
  unfold Card.driver E1000.new
  rw [h.rx.head,h.rx.tail,h.tx.head,h.tx.tail,funext h.rx.empty,funext h.tx.empty]
  rfl

end Rules

lemma or_and_bit (control : UInt32) : (control ||| bit 26) &&& bit 26 ≠ 0 := by
  unfold bit
  intro h
  have := congrArg (fun v : UInt32 => v.toBitVec.getLsbD 26) h
  simp at this

lemma guard_quiet {tables : PageTables} {root dma register : ℕ} {value : UInt32} {card : Card}
    (h : register+4 ≤ windowSize ∧ register ≠ 0x0100 ∧ register ≠ 0x0400) :
    Card.guard tables root dma (.write register value) card :=
  ⟨h.1,fun hr => absurd hr h.2.1,fun hr => absurd hr h.2.2⟩

/-- Neither direction has been started. -/
structure Stopped (address : UInt32 × UInt32) (card : Card) : Prop where
  address : card.address = address
  receiver : card.registers 0x0100 = 0
  transmitter : card.registers 0x0400 = 0

lemma Stopped.write {address : UInt32 × UInt32} {card : Card} (h : Stopped address card)
    (register : ℕ) (value : UInt32) (hr : register ≠ 0x0100 ∧ register ≠ 0x0400) :
    Stopped address (card.write register value) := by
  unfold Card.write
  split_ifs
  · exact ⟨h.address,rfl,rfl⟩
  · refine ⟨h.address,?_,?_⟩
    · exact (Function.update_of_ne hr.1.symm _ _).trans h.receiver
    · exact (Function.update_of_ne hr.2.symm _ _).trans h.transmitter

/-- What `E1000::new` leaves behind: nothing started, or all of it. -/
def Left (tables : PageTables) (root dma : ℕ) (address : UInt32 × UInt32) (card : Card) :
    Except String (Vector UInt8 6) → Prop
  | .error _ => Stopped address card
  | .ok mac => Running tables root dma card ∧ mac = macBytes address.1 address.2 ∧
    address.2 &&& bit 31 ≠ 0

lemma safe_new {tables : PageTables} {root dma : ℕ} (hdma : dma % frameSize = 0) (card : Card) :
    (new tables root dma).Safe (Card.rules tables root dma)
      (fun card' result => Left tables root dma card.address card' result) card := by
  simp only [new,ask,perform,bind_eq,pure_eq,call_bind,ret_bind]
  refine ⟨guard_quiet (by decide),fun card₁ _ h₁ => ⟨guard_read (by decide),fun card₂ control h₂ =>
    ⟨guard_quiet (by decide),fun card₃ _ h₃ => ?_⟩⟩⟩
  obtain ⟨rfl,-⟩ := h₂
  have hreset : Stopped card.address card₃ := by
    rw [show card₃ = _ from h₃,Card.write,if_pos ⟨rfl,or_and_bit control⟩,show card₂ = _ from h₁]
    exact ⟨rfl,rfl,rfl⟩
  rw [safe_bind]
  refine (safe_awaitReset 100000).mono fun card₄ _ h₄ => ?_
  obtain rfl := h₄
  refine ⟨guard_read (by decide),fun card₅ control' h₅ => ?_⟩
  obtain ⟨rfl,-⟩ := h₅
  beta_reduce
  split_ifs
  · exact hreset
  refine ⟨guard_quiet (by decide),fun card₆ _ h₆ => ⟨guard_read (by decide),
    fun card₇ low h₇ => ⟨guard_read (by decide),fun card₈ high h₈ => ?_⟩⟩⟩
  obtain ⟨rfl,hlow,-⟩ := h₇
  obtain ⟨rfl,-,hhigh⟩ := h₈
  have hmasked := hreset.write 0xd8 0xffffffff (by decide)
  rw [← show card₈ = _ from h₆] at hmasked
  beta_reduce
  split_ifs with hvalid
  · exact hmasked
  refine ⟨guard_read (by decide),fun card₉ control'' h₉ =>
    ⟨guard_quiet (by decide),fun card' _ h' => ?_⟩⟩
  obtain ⟨rfl,-⟩ := h₉
  have hlinked := hmasked.write 0x0000 (control'' ||| bit 6) (by decide)
  rw [← show card' = _ from h'] at hlinked
  rw [safe_bind]
  refine (safe_shareRings hdma).mono ?_
  rintro final (message | _) ⟨haddress,hresult⟩
  · change final.registers = card'.registers at hresult
    refine ⟨haddress.trans hlinked.address,?_,?_⟩
    · rw [hresult]
      exact hlinked.receiver
    · rw [hresult]
      exact hlinked.transmitter
  · have hmac : macBytes low high = macBytes card.address.1 card.address.2 := by
      rw [hlow rfl,hhigh rfl,hmasked.address]
    refine ⟨hresult,hmac,?_⟩
    rw [hhigh rfl,hmasked.address] at hvalid
    exact hvalid

/-- On every card: its registers are accessed in the mapped window, and a direction is started only
when its ring is ready, with every byte of the rings and the packets where the driver has it. After
an error neither is started; else both are, the rings are in their first state, and the address is
the card's. -/
theorem new_shares_rings (tables : PageTables) (root : ℕ) {dma : ℕ} (hdma : dma % frameSize = 0)
    (card : Card) : (new tables root dma).Safe (Card.rules tables root dma) (fun card' result =>
      match result with
      | .error _ => card'.registers 0x0100 = 0 ∧ card'.registers 0x0400 = 0
      | .ok mac => Running tables root dma card' ∧
        (∀ packets, card'.driver packets = .new packets) ∧
        mac = macBytes card.address.1 card.address.2 ∧ card.address.2 &&& bit 31 ≠ 0) card := by
  refine (safe_new hdma card).mono ?_
  rintro card' (message | mac) hleft
  · exact ⟨hleft.receiver,hleft.transmitter⟩
  · exact ⟨hleft.1,hleft.1.driver,hleft.2⟩

/-- Tables in the frames 1 to 4 that map a page of the first two gigabytes to the frame its level 1
index names. -/
def plainTables : PageTables := fun frame index =>
  if frame < 4 then .ofNat ((frame+1)*frameSize+1) else .ofNat ((index+256)*frameSize+1)

theorem new_shares_rings_plain : (new plainTables 1 0x200000).Safe
    (Card.rules plainTables 1 0x200000) (fun card' result => match result with
      | .error _ => card'.registers 0x0100 = 0 ∧ card'.registers 0x0400 = 0
      | .ok mac => Running plainTables 1 0x200000 card' ∧
        (∀ packets, card'.driver packets = .new packets) ∧
        mac = macBytes 0x12005452 0x80005634 ∧ (0x80005634 : UInt32) &&& bit 31 ≠ 0)
    ⟨fun _ => 0,(0x12005452,0x80005634),fun _ => .empty,fun _ => 0,fun _ => .empty,fun _ => 0⟩ :=
  new_shares_rings plainTables 1 (by decide) _

end CrabOs.Net.SetUp
