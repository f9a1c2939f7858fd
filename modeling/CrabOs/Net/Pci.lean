import CrabOs.Foundations.AtomicProgram

/-! The configuration space of the PCI bus behind its two ports, and the search for a device. -/
namespace CrabOs.Pci
open AtomicProgram

@[ext] structure Address where
  bus : UInt8
  device : UInt8
  function : UInt8
  deriving DecidableEq

inductive Call
  | inl (port : ℕ)
  | outl (port : ℕ) (value : UInt32)

abbrev Answer : Call → Type
  | .inl _ => UInt32
  | .outl _ _ => Unit

abbrev Program (α : Type) := AtomicProgram Call Answer α

abbrev ask (call : Call) : Program (Answer call) := perform call

namespace Address

/-- What is written to the selector port. -/
def word (a : Address) (register : UInt8) : UInt32 :=
  (0x80000000 : UInt32) ||| a.bus.toUInt32 <<< 16 ||| a.device.toUInt32 <<< 11 |||
    a.function.toUInt32 <<< 8 ||| (register &&& 0xfc).toUInt32

def read (a : Address) (register : UInt8) : Program UInt32 := do
  ask (.outl 0xcf8 (a.word register))
  ask (.inl 0xcfc)

def write (a : Address) (register : UInt8) (value : UInt32) : Program Unit := do
  ask (.outl 0xcf8 (a.word register))
  ask (.outl 0xcfc value)

def enableBusMaster (a : Address) : Program Unit := do
  let command : UInt32 ← a.read 0x04
  a.write 0x04 (command ||| 0x00000006)

def memoryBar0 (a : Address) : Program (Option ℕ) := do
  let bar : UInt32 ← a.read 0x10
  if bar &&& 1 ≠ 0 then return none
  else
    let low := (bar &&& ~~~0xf).toNat
    match ((bar >>> 1) &&& 3).toNat with
    | 0 => return some low
    | 2 =>
      let high : UInt32 ← a.read 0x14
      return some (low ||| high.toNat <<< 32)
    | _ => return none

end Address

/-- The numbers below `n` as bytes. -/
def bytesBelow (n : ℕ) : List UInt8 := (List.range n).map .ofNat

/-- The body of the loop over the functions of a device. -/
def matchFunction (vendor deviceId : UInt16) (bus device function : UInt8) :
    Program (Option Address) := do
  let address : Address := ⟨bus,device,function⟩
  let id : UInt32 ← address.read 0
  if id = (deviceId.toUInt32 <<< 16 ||| vendor.toUInt32) then return some address
  else return none

/-- The body of the loop over the devices of a bus. -/
def searchDevice (vendor deviceId : UInt16) (bus device : UInt8) : Program (Option Address) := do
  let first : Address := ⟨bus,device,0⟩
  let id : UInt32 ← first.read 0
  if id &&& 0xffff = 0xffff then return none
  else
    let header : UInt32 ← first.read 0x0c
    let functions := if header &&& 0x00800000 ≠ 0 then 8 else 1
    firstSome (matchFunction vendor deviceId bus device) (bytesBelow functions)

def find (vendor deviceId : UInt16) : Program (Option Address) :=
  firstSome (fun bus => firstSome (searchDevice vendor deviceId bus) (bytesBelow 32))
    (bytesBelow 256)

def findI225V : Program (Option Address) := find 0x8086 0x15f3

def findQemuE1000 : Program (Option Address) := find 0x8086 0x100e

/-! ### The bus -/

/-- A register of four bytes: bus, device, function and number. -/
structure Location where
  bus : ℕ
  device : ℕ
  function : ℕ
  register : ℕ
  deriving DecidableEq

/-- How a selected location is read out of the selector. -/
def decode (selector : UInt32) : Option Location :=
  let n := selector.toNat
  if n < 2^31 then none
  else some ⟨n/2^16 % 256,n/2^11 % 32,n/2^8 % 8,n/4 % 64⟩

structure Bus where
  selector : UInt32
  space : Location → UInt32

/-- `store` is what a register makes of a value written to it. -/
def handler (store : Location → UInt32 → UInt32 → UInt32) : Handler Call Answer Bus
  | .inl port,b => some (b,if port = 0xcfc then ((decode b.selector).map b.space).getD 0xffffffff
    else 0xffffffff)
  | .outl port value,b =>
    if port = 0xcf8 then some ({ b with selector := value },())
    else if port = 0xcfc then match decode b.selector with
      | none => some (b,())
      | some l =>
        some ({ b with space := Function.update b.space l (store l (b.space l) value) },())
    else some (b,())

namespace Address

/-- The numbers of devices and functions that the selector has room for. -/
def Valid (a : Address) : Prop := a.device.toNat < 32 ∧ a.function.toNat < 8

def location (a : Address) (register : UInt8) : Location :=
  ⟨a.bus.toNat,a.device.toNat,a.function.toNat,register.toNat/4⟩

lemma and_fc : ∀ n < 256, n &&& 252 = n/4*4 := by decide +kernel

lemma toNat_word {a : Address} (h : a.Valid) (register : UInt8) : (a.word register).toNat =
    2^31+a.bus.toNat*2^16+a.device.toNat*2^11+a.function.toNat*2^8+register.toNat/4*4 := by
  obtain ⟨hdevice,hfunction⟩ := h
  have hbus := a.bus.toNat_lt
  have hregister := register.toNat_lt
  have hshift : ∀ (v : UInt8) (k : ℕ), k ≤ 16 →
      (v.toUInt32 <<< UInt32.ofNat k).toNat = 2^k*v.toNat := by
    intro v k hk
    have hv := v.toNat_lt
    have hpow : 2^k ≤ 2^16 := Nat.pow_le_pow_right (by decide) hk
    have hmod : k % 2^32 % 32 = k := by omega
    rw [UInt32.toNat_shiftLeft,UInt8.toNat_toUInt32,UInt32.toNat_ofNat',hmod,Nat.shiftLeft_eq,
      Nat.mul_comm,Nat.mod_eq_of_lt]
    nlinarith
  have hlow : ((register &&& 0xfc).toUInt32).toNat = register.toNat/4*4 := by
    rw [UInt8.toNat_toUInt32,UInt8.toNat_and]
    exact and_fc _ hregister
  have hbus' : (a.bus.toUInt32 <<< 16).toNat = 2^16*a.bus.toNat := hshift _ 16 (by decide)
  have hdevice' : (a.device.toUInt32 <<< 11).toNat = 2^11*a.device.toNat := hshift _ 11 (by decide)
  have hfunction' : (a.function.toUInt32 <<< 8).toNat = 2^8*a.function.toNat :=
    hshift _ 8 (by decide)
  unfold word
  simp only [UInt32.toNat_or,hbus',hdevice',hfunction',hlow]
  -- Each part lies below the lowest bit of those before it.
  have hor : ∀ {i x a b : ℕ}, x = 2^i*a → b < 2^i → x ||| b = x+b := by
    rintro i x a b rfl hb
    exact (Nat.two_pow_add_eq_or_of_lt hb a).symm
  rw [hor (i := 31) (x := (0x80000000 : UInt32).toNat) (a := 1) rfl (by omega)]
  change 2^31+2^16*a.bus.toNat ||| _ ||| _ ||| _ = _
  have h2 : 2^31+2^16*a.bus.toNat = 2^16*(2^15+a.bus.toNat) := by omega
  have h3 : 2^31+2^16*a.bus.toNat+2^11*a.device.toNat =
      2^11*(2^20+2^5*a.bus.toNat+a.device.toNat) := by omega
  have h4 : 2^31+2^16*a.bus.toNat+2^11*a.device.toNat+2^8*a.function.toNat =
      2^8*(2^23+2^8*a.bus.toNat+2^3*a.device.toNat+a.function.toNat) := by omega
  rw [hor h2 (b := 2^11*a.device.toNat) (by omega),hor h3 (b := 2^8*a.function.toNat) (by omega),
    hor h4 (b := register.toNat/4*4) (by omega)]
  omega

/-- The selector names the register that was meant. -/
lemma decode_word {a : Address} (h : a.Valid) (register : UInt8) :
    decode (a.word register) = some (a.location register) := by
  have hdevice := h.1
  have hfunction := h.2
  have hbus := a.bus.toNat_lt
  have hregister := register.toNat_lt
  unfold decode location
  rw [toNat_word h,if_neg (by omega)]
  simp only [Option.some.injEq,Location.mk.injEq]
  omega

end Address

section Access
variable {store : Location → UInt32 → UInt32 → UInt32} {space : Location → UInt32}

/-- A read gives the register and changes none. -/
lemma computes_read {a : Address} (h : a.Valid) (register : UInt8) :
    Computes (handler store) (fun b => b.space = space) (a.read register)
      (space (a.location register)) := by
  rintro b rfl
  refine ⟨⟨a.word register,b.space⟩,?_,rfl⟩
  have hselect : handler store (.outl 0xcf8 (a.word register)) b =
      some (⟨a.word register,b.space⟩,()) := rfl
  have hdata : handler store (.inl 0xcfc) ⟨a.word register,b.space⟩ =
      some (⟨a.word register,b.space⟩,b.space (a.location register)) := by
    simp [handler,Address.decode_word h]
  change (handler store (.outl 0xcf8 (a.word register)) b).bind _ = _
  rw [hselect,Option.bind_some]
  change (handler store (.inl 0xcfc) _).bind _ = _
  rw [hdata]
  rfl

/-- The base address in two registers, if these are one of memory. -/
def barOf (bar high : UInt32) : Option ℕ :=
  if bar &&& 1 ≠ 0 then none
  else match ((bar >>> 1) &&& 3).toNat with
    | 0 => some (bar &&& ~~~0xf).toNat
    | 2 => some ((bar &&& ~~~0xf).toNat ||| high.toNat <<< 32)
    | _ => none

end Access

/-! ### The search -/

section Search
variable (space : Location → UInt32)

/-- How many functions of a device the search looks at. -/
def functionCount (bus device : UInt8) : ℕ :=
  let first : Address := ⟨bus,device,0⟩
  if space (first.location 0) &&& 0xffff = 0xffff then 0
  else if space (first.location 0x0c) &&& 0x00800000 ≠ 0 then 8
  else 1

/-- What can be found: the first function of each device there is, and all of those that say they
have several. -/
structure Discoverable (a : Address) : Prop where
  device : a.device.toNat < 32
  function : a.function.toNat < functionCount space a.bus a.device

/-- All of it in the order of the search. -/
def addresses : List Address :=
  (bytesBelow 256).flatMap fun bus => (bytesBelow 32).flatMap fun device =>
    (bytesBelow (functionCount space bus device)).map fun function => ⟨bus,device,function⟩

/-- The position in that order. -/
def Address.position (a : Address) : ℕ :=
  a.bus.toNat*256+a.device.toNat*8+a.function.toNat

lemma functionCount_le (bus device : UInt8) : functionCount space bus device ≤ 8 := by
  unfold functionCount
  dsimp only
  split_ifs <;> decide

lemma mem_bytesBelow {n : ℕ} (hn : n ≤ 256) {v : UInt8} : v ∈ bytesBelow n ↔ v.toNat < n := by
  unfold bytesBelow
  rw [List.mem_map]
  constructor
  · rintro ⟨k,hk,rfl⟩
    have hk := List.mem_range.mp hk
    rw [UInt8.toNat_ofNat']
    omega
  · intro hv
    exact ⟨v.toNat,List.mem_range.mpr hv,UInt8.ofNat_toNat⟩

lemma pairwise_bytesBelow {n : ℕ} (hn : n ≤ 256) :
    (bytesBelow n).Pairwise fun v v' => v.toNat < v'.toNat := by
  unfold bytesBelow
  rw [List.pairwise_map]
  refine List.pairwise_lt_range.imp_of_mem fun {k k'} hk hk' hlt => ?_
  have hk := List.mem_range.mp hk
  have hk' := List.mem_range.mp hk'
  rw [UInt8.toNat_ofNat',UInt8.toNat_ofNat']
  omega

variable {space}

lemma mem_addresses {a : Address} : a ∈ addresses space ↔ Discoverable space a := by
  unfold addresses
  simp only [List.mem_flatMap,List.mem_map]
  constructor
  · rintro ⟨bus,-,device,hdevice,function,hfunction,rfl⟩
    exact ⟨(mem_bytesBelow (by decide)).mp hdevice,
      (mem_bytesBelow ((functionCount_le space _ _).trans (by decide))).mp hfunction⟩
  · rintro ⟨hdevice,hfunction⟩
    exact ⟨a.bus,(mem_bytesBelow (by decide)).mpr a.bus.toNat_lt,a.device,
      (mem_bytesBelow (by decide)).mpr hdevice,a.function,
      (mem_bytesBelow ((functionCount_le space _ _).trans (by decide))).mpr hfunction,rfl⟩

lemma Discoverable.valid {a : Address} (h : Discoverable space a) : a.Valid :=
  ⟨h.device,h.function.trans_le (functionCount_le space _ _)⟩

lemma pairwise_addresses :
    (addresses space).Pairwise fun a a' => a.position < a'.position := by
  unfold addresses
  rw [List.pairwise_flatMap]
  constructor
  · intro bus _
    rw [List.pairwise_flatMap]
    constructor
    · intro device _
      rw [List.pairwise_map]
      refine (pairwise_bytesBelow ((functionCount_le space _ _).trans (by decide))).imp ?_
      intro function function' hlt
      unfold Address.position
      dsimp only
      omega
    · refine (pairwise_bytesBelow (by decide)).imp fun {device device'} hlt a ha a' ha' => ?_
      obtain ⟨function,hfunction,rfl⟩ := List.mem_map.mp ha
      obtain ⟨function',-,rfl⟩ := List.mem_map.mp ha'
      have hcount := functionCount_le space bus device
      have hless := (mem_bytesBelow (hcount.trans (by decide))).mp hfunction
      unfold Address.position
      dsimp only
      omega
  · refine (pairwise_bytesBelow (by decide)).imp fun {bus bus'} hlt a ha a' ha' => ?_
    obtain ⟨device,hdevice,ha⟩ := List.mem_flatMap.mp ha
    obtain ⟨device',-,ha'⟩ := List.mem_flatMap.mp ha'
    obtain ⟨function,hfunction,rfl⟩ := List.mem_map.mp ha
    obtain ⟨function',-,rfl⟩ := List.mem_map.mp ha'
    have hcount := functionCount_le space bus device
    have hless := (mem_bytesBelow (hcount.trans (by decide))).mp hfunction
    have hsmall := (mem_bytesBelow (by decide)).mp hdevice
    unfold Address.position
    dsimp only
    omega

/-- The identity that `find` looks for. -/
def identity (vendor deviceId : UInt16) : UInt32 := deviceId.toUInt32 <<< 16 ||| vendor.toUInt32

variable {store : Location → UInt32 → UInt32 → UInt32} {vendor deviceId : UInt16}

lemma computes_matchFunction {a : Address} (h : a.Valid) :
    Computes (handler store) (fun b => b.space = space)
      (matchFunction vendor deviceId a.bus a.device a.function)
      (if space (a.location 0) = identity vendor deviceId then some a else none) := by
  refine computes_bind (computes_read h 0) ?_
  change Computes _ _ (if _ then _ else _) _
  unfold identity
  split_ifs
  · exact computes_ret _
  · exact computes_ret _

lemma find?_map_eq {α β : Type} (f : α → β) (P : β → Prop) [DecidablePred P] (l : List α) :
    (l.map f).find? (fun b => P b) = l.findSome? fun a => if P (f a) then some (f a) else none := by
  induction l with
  | nil => rfl
  | cons a l ih =>
    rw [List.map_cons,List.find?_cons,List.findSome?_cons,ih]
    by_cases h : P (f a) <;> simp [h]

lemma computes_searchDevice {bus device : UInt8} (hdevice : device.toNat < 32) :
    Computes (handler store) (fun b => b.space = space) (searchDevice vendor deviceId bus device)
      (((bytesBelow (functionCount space bus device)).map fun function =>
        (⟨bus,device,function⟩ : Address)).find? fun a =>
          space (a.location 0) = identity vendor deviceId) := by
  have hfirst : (⟨bus,device,0⟩ : Address).Valid :=
    ⟨hdevice,show (0 : UInt8).toNat < 8 by decide⟩
  have hfunctions : ∀ n ≤ 8, Computes (handler store) (fun b => b.space = space)
      (firstSome (matchFunction vendor deviceId bus device) (bytesBelow n))
      (((bytesBelow n).map fun function => (⟨bus,device,function⟩ : Address)).find? fun a =>
        space (a.location 0) = identity vendor deviceId) := by
    intro n hn
    rw [find?_map_eq]
    refine computes_firstSome fun function hf => ?_
    have hless := (mem_bytesBelow (hn.trans (by decide))).mp hf
    have hvalid : (⟨bus,device,function⟩ : Address).Valid := ⟨hdevice,hless.trans_le hn⟩
    exact computes_matchFunction (a := ⟨bus,device,function⟩) hvalid
  refine computes_bind (computes_read hfirst 0) ?_
  change Computes _ _ (if _ then _ else _) _
  unfold functionCount
  dsimp only
  by_cases habsent : space (Address.location ⟨bus,device,0⟩ 0) &&& 0xffff = 0xffff
  · rw [if_pos habsent,if_pos habsent]
    exact computes_ret none
  · rw [if_neg habsent,if_neg habsent]
    refine computes_bind (computes_read hfirst 0x0c) ?_
    refine hfunctions _ ?_
    split_ifs <;> decide

/-- The loops search the whole list in order. -/
lemma computes_find : Computes (handler store) (fun b => b.space = space) (find vendor deviceId)
    ((addresses space).find? fun a => space (a.location 0) = identity vendor deviceId) := by
  unfold addresses
  rw [List.find?_flatMap]
  refine computes_firstSome fun bus _ => ?_
  rw [List.find?_flatMap]
  exact computes_firstSome fun device hd =>
    computes_searchDevice ((mem_bytesBelow (by decide)).mp hd)

end Search

lemma find?_pairwise {α : Type} {R : α → α → Prop} {p : α → Bool} {l : List α} {a : α}
    (hl : l.Pairwise R) (h : l.find? p = some a) : ∀ b ∈ l, p b → b = a ∨ R a b := by
  obtain ⟨-,before,after,rfl,hbefore⟩ := List.find?_eq_some_iff_append.mp h
  intro b hb hp
  rw [List.pairwise_append,List.pairwise_cons] at hl
  rcases List.mem_append.mp hb with hb | hb
  · have := hbefore b hb
    rw [hp] at this
    contradiction
  · rcases List.mem_cons.mp hb with rfl | hb
    · exact .inl rfl
    · exact .inr (hl.2.1.1 b hb)

/-- The search ends at the first device with the identity, in the order of buses, devices and
functions, or else there is none. It changes no register. -/
theorem find_first (store : Location → UInt32 → UInt32 → UInt32) (b : Bus)
    (vendor deviceId : UInt16) : ∃ b' result,
      (find vendor deviceId).run (handler store) b = some (b',result) ∧ b'.space = b.space ∧
      (∀ a, result = some a → Discoverable b.space a ∧
        b.space (a.location 0) = identity vendor deviceId ∧
        ∀ a', Discoverable b.space a' → b.space (a'.location 0) = identity vendor deviceId →
          a' = a ∨ a.position < a'.position) ∧
      (result = none → ∀ a, Discoverable b.space a →
        b.space (a.location 0) ≠ identity vendor deviceId) := by
  obtain ⟨b',hrun,hspace⟩ : ∃ b', (find vendor deviceId).run (handler store) b = some (b',_) ∧
      b'.space = b.space := computes_find b rfl
  refine ⟨b',_,hrun,hspace,fun a ha => ⟨?_,?_,fun a' ha' hid => ?_⟩,fun hnone a ha => ?_⟩
  · exact mem_addresses.mp (List.mem_of_find?_eq_some ha)
  · have hid := List.find?_some ha
    exact of_decide_eq_true hid
  · exact find?_pairwise pairwise_addresses ha a' (mem_addresses.mpr ha') (decide_eq_true hid)
  · have hno := List.find?_eq_none.mp hnone a (mem_addresses.mpr ha)
    simpa using hno

end CrabOs.Pci
