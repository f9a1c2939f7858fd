import CrabOs.Allocator.Layout

/-! The frames of physical memory that the memory map of the bootloader lists as usable, handed out
one after the other by an allocator that only counts. -/
namespace CrabOs.Memory
open Allocator (checkedAdd)

/-- The bytes of a frame and of a page. -/
def frameSize : ℕ := 4096

/-- A region of the memory map with the addresses `start_addr()` and `end_addr()` of its range. The
types of regions are the bootloader's. -/
structure MemoryRegion (τ : Type) where
  startAddr : ℕ
  endAddr : ℕ
  regionType : τ

/-- The number of the frame, or page, that contains an address. -/
def containingAddress (addr : ℕ) : ℕ := addr/frameSize

/-- `(start..stop).step_by(step)`. -/
def stepBy (start stop step : ℕ) : List ℕ := List.range' start ((stop-start+step-1)/step) step

/-- `Iterator::nth`: every item up to the one asked for is made, and making one may panic. -/
def nth : ℕ → List (Option ℕ) → Option (Option ℕ)
  | _,[] => some none
  | 0,item :: _ => item.map some
  | n+1,item :: rest => item.bind fun _ => nth n rest

structure BootInfoFrameAllocator (τ : Type) where
  memoryMap : List (MemoryRegion τ)
  next : ℕ

namespace BootInfoFrameAllocator
variable {τ : Type} [DecidableEq τ] (usable : τ) (physAddr : ℕ → Option ℕ)

def init (memoryMap : List (MemoryRegion τ)) : BootInfoFrameAllocator τ := ⟨memoryMap,0⟩

/-- The items of the iterator; `physAddr` is `PhysAddr::new`. -/
def usableFrames (a : BootInfoFrameAllocator τ) : List (Option ℕ) :=
  let usableRegions := a.memoryMap.filter fun r => r.regionType = usable
  let frameAddresses := usableRegions.flatMap fun r => stepBy r.startAddr r.endAddr frameSize
  frameAddresses.map fun addr => (physAddr addr).map containingAddress

def allocateFrame (a : BootInfoFrameAllocator τ) :
    Option (Option ℕ × BootInfoFrameAllocator τ) := do
  let frame ← nth a.next (a.usableFrames usable physAddr)
  let next ← checkedAdd a.next 1
  return (frame,{ a with next := next })

/-- The results of calls one after the other. -/
def allocateFrames : ℕ → BootInfoFrameAllocator τ →
    Option (List (Option ℕ) × BootInfoFrameAllocator τ)
  | 0,a => some ([],a)
  | n+1,a => do
    let (results,a) ← allocateFrames n a
    let (frame,a) ← a.allocateFrame usable physAddr
    return (results++[frame],a)

end BootInfoFrameAllocator

/-! ### The frames of a memory map -/

namespace MemoryRegion
variable {τ : Type} (r : MemoryRegion τ)

/-- The range consists of whole frames. -/
def FrameRange : Prop := frameSize ∣ r.startAddr ∧ frameSize ∣ r.endAddr

/-- The frame lies in the region with all its bytes. -/
def Holds (frame : ℕ) : Prop :=
  r.startAddr ≤ frameSize*frame ∧ frameSize*frame+frameSize ≤ r.endAddr

def frames : List ℕ := List.range' (r.startAddr/frameSize) ((r.endAddr-r.startAddr)/frameSize)

variable {r}

lemma mem_frames (h : r.FrameRange) {frame : ℕ} : frame ∈ r.frames ↔ r.Holds frame := by
  obtain ⟨⟨a,ha⟩,⟨b,hb⟩⟩ := h
  simp only [frames,Holds,List.mem_range'_1,ha,hb,frameSize]
  omega

lemma stepBy_frames (h : r.FrameRange) :
    stepBy r.startAddr r.endAddr frameSize = r.frames.map (frameSize*·) := by
  obtain ⟨⟨a,ha⟩,⟨b,hb⟩⟩ := h
  have hcount : (r.endAddr-r.startAddr+frameSize-1)/frameSize =
      (r.endAddr-r.startAddr)/frameSize := by
    rw [ha,hb]
    unfold frameSize
    omega
  have hstart : r.startAddr = frameSize*(r.startAddr/frameSize) := by
    rw [ha]
    unfold frameSize
    omega
  rw [stepBy,hcount,frames]
  apply List.ext_getElem
  · simp
  · intro i hi hi'
    rw [List.getElem_map,List.getElem_range',List.getElem_range',Nat.mul_add,← hstart,Nat.one_mul]

end MemoryRegion

section Map
variable {τ : Type} [DecidableEq τ] {usable : τ} {memoryMap : List (MemoryRegion τ)}

/-- The usable regions in the order of the map. -/
def usableRegions (usable : τ) (memoryMap : List (MemoryRegion τ)) : List (MemoryRegion τ) :=
  memoryMap.filter fun r => r.regionType = usable

/-- All their frames in order. -/
def bootFrames (usable : τ) (memoryMap : List (MemoryRegion τ)) : List ℕ :=
  (usableRegions usable memoryMap).flatMap MemoryRegion.frames

lemma mem_bootFrames (h : ∀ r ∈ usableRegions usable memoryMap, r.FrameRange) {frame : ℕ} :
    frame ∈ bootFrames usable memoryMap ↔
      ∃ r ∈ memoryMap, r.regionType = usable ∧ r.Holds frame := by
  unfold bootFrames
  rw [List.mem_flatMap]
  constructor
  · rintro ⟨r,hr,hframe⟩
    have hheld := (MemoryRegion.mem_frames (h r hr)).mp hframe
    obtain ⟨hmem,husable⟩ := List.mem_filter.mp hr
    exact ⟨r,hmem,of_decide_eq_true husable,hheld⟩
  · rintro ⟨r,hmem,husable,hheld⟩
    have hr : r ∈ usableRegions usable memoryMap :=
      List.mem_filter.mpr ⟨hmem,decide_eq_true husable⟩
    exact ⟨r,hr,(MemoryRegion.mem_frames (h r hr)).mpr hheld⟩

/-- No frame lies in two of the regions. -/
def Disjointed (regions : List (MemoryRegion τ)) : Prop :=
  regions.Pairwise fun r r' => ∀ frame, r.Holds frame → ¬r'.Holds frame

lemma nodup_bootFrames (h : ∀ r ∈ usableRegions usable memoryMap, r.FrameRange)
    (hdisjoint : Disjointed (usableRegions usable memoryMap)) :
    (bootFrames usable memoryMap).Nodup := by
  refine List.nodup_flatMap.mpr ⟨fun r _ => List.nodup_range' 1,?_⟩
  refine hdisjoint.imp_of_mem fun {r r'} hr hr' hapart frame hframe hframe' => ?_
  exact hapart frame ((MemoryRegion.mem_frames (h r hr)).mp hframe)
    ((MemoryRegion.mem_frames (h r' hr')).mp hframe')

end Map

/-! ### Successive calls -/

section Nth
variable {frames : List ℕ} {make : ℕ → Option ℕ} {k : ℕ}

lemma nth_some {answer : Option ℕ} (hmake : ∀ n m, make n = some m → m = n)
    (h : nth k (frames.map make) = some answer) : answer = frames[k]? := by
  induction frames generalizing k with
  | nil =>
    rw [List.map_nil,nth] at h
    cases h
    rfl
  | cons frame frames ih =>
    cases k with
    | zero =>
      obtain ⟨made,hmade,rfl⟩ := Option.map_eq_some_iff.mp h
      rw [hmake frame made hmade]
      rfl
    | succ k =>
      obtain ⟨_,-,h⟩ := Option.bind_eq_some_iff.mp h
      exact ih h

lemma nth_isSome (hmake : ∀ n ∈ frames, (make n).isSome) : (nth k (frames.map make)).isSome := by
  induction frames generalizing k with
  | nil =>
    rw [List.map_nil,nth]
    rfl
  | cons frame frames ih =>
    obtain ⟨hframe,hframes⟩ := List.forall_mem_cons.mp hmake
    obtain ⟨made,hmade⟩ := Option.isSome_iff_exists.mp hframe
    cases k with
    | zero => simp [nth,hmade]
    | succ k =>
      simp only [List.map_cons,nth,hmade,Option.bind_some]
      exact ih hframes

end Nth

namespace BootInfoFrameAllocator
variable {τ : Type} [DecidableEq τ] {usable : τ} {physAddr : ℕ → Option ℕ}
  {memoryMap : List (MemoryRegion τ)} {a : BootInfoFrameAllocator τ}

/-- Make the frame with a number. -/
def makeFrame (physAddr : ℕ → Option ℕ) (frame : ℕ) : Option ℕ :=
  (physAddr (frameSize*frame)).map containingAddress

lemma usableFrames_eq (h : ∀ r ∈ usableRegions usable a.memoryMap, r.FrameRange) :
    a.usableFrames usable physAddr =
      (bootFrames usable a.memoryMap).map (makeFrame physAddr) := by
  have haddresses : (usableRegions usable a.memoryMap).flatMap (fun r =>
      stepBy r.startAddr r.endAddr frameSize) =
        (bootFrames usable a.memoryMap).map (frameSize*·) := by
    rw [bootFrames,List.map_flatMap]
    exact List.flatMap_congr fun r hr => MemoryRegion.stepBy_frames (h r hr)
  unfold usableFrames
  change ((usableRegions usable a.memoryMap).flatMap _).map _ = _
  rw [haddresses,List.map_map]
  rfl

lemma makeFrame_some (hsame : ∀ addr a, physAddr addr = some a → a = addr) (n m : ℕ)
    (h : makeFrame physAddr n = some m) : m = n := by
  obtain ⟨addr,haddr,rfl⟩ := Option.map_eq_some_iff.mp h
  rw [hsame _ _ haddr]
  exact Nat.mul_div_cancel_left n (by decide)

section Calls
variable (hranges : ∀ r ∈ usableRegions usable memoryMap, r.FrameRange)
  (hsame : ∀ addr a, physAddr addr = some a → a = addr)
include hranges hsame

/-- The k-th call returns the k-th frame, or nothing when there are no more frames. -/
lemma allocateFrames_some {n : ℕ} {results : List (Option ℕ)}
    (h : allocateFrames usable physAddr n (init memoryMap) = some (results,a)) :
    a = ⟨memoryMap,n⟩ ∧
      results = (List.range n).map fun k => (bootFrames usable memoryMap)[k]? := by
  induction n generalizing results a with
  | zero =>
    cases h
    exact ⟨rfl,rfl⟩
  | succ n ih =>
    obtain ⟨⟨earlier,b⟩,hearlier,h⟩ := Option.bind_eq_some_iff.mp h
    obtain ⟨rfl,rfl⟩ := ih hearlier
    obtain ⟨⟨frame,b⟩,hcall,h⟩ := Option.bind_eq_some_iff.mp h
    obtain ⟨frame',hframe,hcall⟩ := Option.bind_eq_some_iff.mp hcall
    obtain ⟨next,hnext,hcall⟩ := Option.bind_eq_some_iff.mp hcall
    cases hcall
    cases h
    rw [usableFrames_eq hranges] at hframe
    have hanswer := nth_some (makeFrame_some hsame) hframe
    unfold checkedAdd at hnext
    split_ifs at hnext
    refine ⟨?_,?_⟩
    · rw [← Option.some.inj hnext]
    · rw [List.range_succ,List.map_append,hanswer]
      rfl

lemma allocateFrames_isSome {n : ℕ} (hn : n < 2^64)
    (hmake : ∀ frame ∈ bootFrames usable memoryMap, (makeFrame physAddr frame).isSome) :
    (allocateFrames usable physAddr n (init memoryMap)).isSome := by
  induction n with
  | zero => rfl
  | succ n ih =>
    obtain ⟨⟨results,a⟩,hearlier⟩ := Option.isSome_iff_exists.mp (ih (Nat.lt_of_succ_lt hn))
    obtain ⟨rfl,-⟩ := allocateFrames_some hranges hsame hearlier
    obtain ⟨frame,hframe⟩ := Option.isSome_iff_exists.mp (nth_isSome (k := n) hmake)
    rw [← usableFrames_eq (a := ⟨memoryMap,n⟩) hranges] at hframe
    have hnext : checkedAdd n 1 = some (n+1) := if_pos hn
    simp only [allocateFrames,hearlier,allocateFrame,hframe,hnext,Option.bind_eq_bind,
      Option.bind_some]
    rfl

end Calls

/-- Successive calls return the frames of the usable regions, each once and in the order of the map,
and nothing after the last one. They return as long as they can be counted and the addresses are
physical ones. `physAddr` is `PhysAddr::new`, which changes no address and accepts all of 52 bits. -/
theorem boot_frames_once (hsame : ∀ addr a, physAddr addr = some a → a = addr)
    (hvalid : ∀ addr < 2^52, (physAddr addr).isSome)
    (hranges : ∀ r ∈ usableRegions usable memoryMap, r.FrameRange)
    (hdisjoint : Disjointed (usableRegions usable memoryMap)) :
    (bootFrames usable memoryMap).Nodup ∧
      (∀ frame, frame ∈ bootFrames usable memoryMap ↔
        ∃ r ∈ memoryMap, r.regionType = usable ∧ r.Holds frame) ∧
      (∀ n results a, allocateFrames usable physAddr n (init memoryMap) = some (results,a) →
        results = (List.range n).map fun k => (bootFrames usable memoryMap)[k]?) ∧
      ((∀ r ∈ usableRegions usable memoryMap, r.endAddr ≤ 2^52) → ∀ n < 2^64,
        (allocateFrames usable physAddr n (init memoryMap)).isSome) := by
  refine ⟨nodup_bootFrames hranges hdisjoint,fun frame => mem_bootFrames hranges,
    fun n results a h => (allocateFrames_some hranges hsame h).2,fun hend n hn => ?_⟩
  refine allocateFrames_isSome hranges hsame hn fun frame hframe => ?_
  obtain ⟨r,hr,hmem⟩ := List.mem_flatMap.mp hframe
  have hheld := ((MemoryRegion.mem_frames (hranges r hr)).mp hmem).2
  have hlow : frameSize*frame < 2^52 := by
    have hbound := hend r hr
    unfold frameSize at *
    omega
  rw [makeFrame,Option.isSome_map]
  exact hvalid _ hlow

/-- Usable regions around one in use, an empty one among them. -/
def smallMap : List (MemoryRegion Bool) :=
  [⟨0x1000,0x3000,true⟩,⟨0x3000,0x5000,false⟩,⟨0x5000,0x5000,true⟩,⟨0x5000,0x6000,true⟩]

/-- Physical addresses have 52 bits. -/
def physAddr52 (addr : ℕ) : Option ℕ := if addr < 2^52 then some addr else none

theorem boot_frames_once_smallMap :
    ∃ a, allocateFrames true physAddr52 4 (init smallMap) =
      some ([some 1,some 2,some 5,none],a) := by
  have hregions : usableRegions true smallMap =
      [⟨0x1000,0x3000,true⟩,⟨0x5000,0x5000,true⟩,⟨0x5000,0x6000,true⟩] := rfl
  have hranges : ∀ r ∈ usableRegions true smallMap, r.FrameRange := by
    rw [hregions]
    simp only [List.mem_cons,List.not_mem_nil,or_false,forall_eq_or_imp,forall_eq]
    exact ⟨⟨by decide,by decide⟩,⟨by decide,by decide⟩,⟨by decide,by decide⟩⟩
  have hdisjoint : Disjointed (usableRegions true smallMap) := by
    rw [hregions]
    simp only [Disjointed,MemoryRegion.Holds,frameSize,List.pairwise_cons,List.mem_cons,
      List.not_mem_nil,or_false,forall_eq_or_imp,forall_eq]
    refine ⟨⟨?_,?_⟩,?_,nofun,.nil⟩
    all_goals intro frame
    all_goals omega
  have hend : ∀ r ∈ usableRegions true smallMap, r.endAddr ≤ 2^52 := by
    rw [hregions]
    simp only [List.mem_cons,List.not_mem_nil,or_false,forall_eq_or_imp,forall_eq]
    decide
  have hsame : ∀ addr a, physAddr52 addr = some a → a = addr := by
    intro addr a h
    unfold physAddr52 at h
    split_ifs at h
    exact (Option.some.inj h).symm
  have hvalid : ∀ addr < 2^52, (physAddr52 addr).isSome := by
    intro addr h
    rw [physAddr52,if_pos h]
    rfl
  obtain ⟨-,-,hresults,hreturns⟩ := boot_frames_once hsame hvalid hranges hdisjoint
  obtain ⟨⟨results,a⟩,h⟩ := Option.isSome_iff_exists.mp (hreturns hend 4 (by decide))
  exact ⟨a,by rw [h,hresults 4 results a h]; rfl⟩

end BootInfoFrameAllocator
end CrabOs.Memory
