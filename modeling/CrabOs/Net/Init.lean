import CrabOs.Memory.Mmio
import CrabOs.Net.Pci
import CrabOs.Net.SetUp

/-! `net::init`: from the search on the PCI bus to a running card. -/
namespace CrabOs.Net.Init
open AtomicProgram Memory

/-- The accesses to the ports and to the card are those of its parts. -/
inductive Call
  | port (c : Pci.Call)
  | mapMmio (physicalStart length : ℕ)
  | card (registers : ℕ) (c : SetUp.Call)
  | storeDevice (registers : ℕ) (mac : Vector UInt8 6)

/-- `none` is an error of the mapper. -/
abbrev Answer : Call → Type
  | .port c => Pci.Answer c
  | .mapMmio _ _ => Option ℕ
  | .card _ c => SetUp.Answer c
  | .storeDevice _ _ => Unit

abbrev Program (α : Type) := AtomicProgram Call Answer α

abbrev ask (call : Call) : Program (Answer call) := perform call

def onPorts {α : Type} (p : Pci.Program α) : Program α := p.mapCalls .port fun _ r => r

def onCard {α : Type} (registers : ℕ) (p : SetUp.Program α) : Program α :=
  p.mapCalls (.card registers) fun _ r => r

/-- `net::init`; `tables` are the page tables after the mapping. -/
def init (tables : PageTables) (root dma : ℕ) : Program (Except String Unit) := do
  match ← onPorts Pci.findQemuE1000 with
  | none => return .ok ()
  | some address => match (← onPorts address.memoryBar0).filter (· ≠ 0) with
    | none => return .error "e1000 BAR0 is missing"
    | some bar =>
      -- `PhysAddr::new` panics.
      let start ← ofOption (BootInfoFrameAllocator.physAddr52 bar)
      match ← ask (.mapMmio start SetUp.windowSize) with
      | none => return .error "e1000 MMIO mapping failed"
      | some registers =>
        onPorts address.enableBusMaster
        match ← onCard registers (SetUp.new tables root dma) with
        | .error message => return .error message
        | .ok mac =>
          ask (.storeDevice registers mac)
          return .ok ()

/-! ### The machine -/

structure Machine (σ : Type) where
  bus : Pci.Bus
  paging : σ
  card : SetUp.Card
  device : Option (ℕ × Vector UInt8 6)

/-- The first controller on the bus. -/
def controller (space : Pci.Location → UInt32) : Option Pci.Address :=
  (Pci.addresses space).find? fun a => space (a.location 0) = Pci.identity 0x8086 0x100e

def registerOf : SetUp.Call → Option ℕ
  | .read register => some register
  | .write register _ => some register
  | _ => none

section Rules
variable {σ ε : Type} (p : Paging σ ε) (store : Pci.Location → UInt32 → UInt32 → UInt32)
  (tables : PageTables) (root dma : ℕ)

/-- A register of the window lies in the memory of the controller, which may use the bus. -/
structure Reaches (m : Machine σ) (registers register : ℕ) : Prop where
  controller : ∃ a bar, controller m.bus.space = some a ∧
    Pci.barOf (m.bus.space (a.location 0x10)) (m.bus.space (a.location 0x14)) = some bar ∧
    m.bus.space (a.location 0x04) &&& 6 = 6 ∧
    ∀ k < 4, p.entry m.paging (containingAddress (registers+register+k)) =
        some (containingAddress (bar+register+k)) ∧
      (registers+register+k) % frameSize = (bar+register+k) % frameSize

def guard : Call → Machine σ → Prop
  | .card registers c,m => SetUp.Card.guard tables root dma c m.card ∧
    ∀ register, registerOf c = some register → Reaches p m registers register
  | _,_ => True

def outcome : (c : Call) → Machine σ → Machine σ → Answer c → Prop
  | .port c,m,m',r => ∃ bus, Pci.handler store c m.bus = some (bus,r) ∧ m' = { m with bus := bus }
  | .mapMmio physicalStart length,m,m',r => ∃ result paging,
    Memory.mapMmio p physicalStart length m.paging = some (result,paging) ∧
      r = result.toOption ∧ m' = { m with paging := paging }
  | .card _ c,m,m',r => ∃ card, SetUp.Card.outcome c m.card card r ∧ m' = { m with card := card }
  | .storeDevice registers mac,m,m',_ => m' = { m with device := some (registers,mac) }

def rules : Guarded Call Answer (Machine σ) := ⟨guard p tables root dma,outcome p store⟩

end Rules

section Steps
variable {σ ε α : Type} {p : Paging σ ε} {store : Pci.Location → UInt32 → UInt32 → UInt32}
  {tables : PageTables} {root dma : ℕ} {m : Machine σ}

end Steps

section Bus
variable {space space' : Pci.Location → UInt32}

end Bus

section Reach
variable {σ ε : Type} {p : Paging σ ε} (hp : p.Documented)
  {store : Pci.Location → UInt32 → UInt32 → UInt32}
  (hstore : ∀ l old value, l.register = 1 → store l old value &&& 6 = value &&& 6)
include hp hstore

end Reach

end CrabOs.Net.Init
