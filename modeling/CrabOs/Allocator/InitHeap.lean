import CrabOs.Allocator.FixedSizeBlockHeap
import CrabOs.Memory.Mmio

/-! `init_heap` maps the pages of the heap; what the allocators hand out of it is memory of its own. -/
namespace CrabOs.Allocator
open Memory
open BootInfoFrameAllocator (physAddr52)

/-- What `init_heap` uses of `x86_64`: a frame allocator, and a mapper that takes frames for its
tables from the same allocator. `none` is a panic. -/
structure HeapPaging (σ A ε : Type) where
  allocateFrame : A → Option (Option ℕ × A)
  mapTo : σ → A → ℕ → ℕ → List PageTableFlag → Option (Except ε Unit × σ × A)
  frameAllocationFailed : ε
  entry : σ → ℕ → Option ℕ
  tables : σ → List ℕ

/-- `Page::range_inclusive` from the page of the first byte to that of the last. -/
def heapPages : List ℕ :=
  let heapEnd := kernelHeapStart+kernelHeapSize-1
  List.range' (containingAddress kernelHeapStart)
    (containingAddress heapEnd+1-containingAddress kernelHeapStart)

section
variable {σ A ε : Type} (P : HeapPaging σ A ε)

/-- The frames that calls one after the other get from the allocator. -/
inductive Takes : A → List ℕ → A → Prop
  | nil (a : A) : Takes a [] a
  | frame {a b c : A} {frame : ℕ} {frames : List ℕ} (h : P.allocateFrame a = some (some frame,b))
      (hrest : Takes b frames c) : Takes a (frame :: frames) c
  | nothing {a b c : A} {frames : List ℕ} (h : P.allocateFrame a = some (none,b))
      (hrest : Takes b frames c) : Takes a frames c

/-- As `x86_64` documents it: the mapper only takes frames for its tables, and a page it maps was not
mapped. -/
structure HeapPaging.Documented : Prop where
  taken : ∀ s a page frame flags answer s' a',
    P.mapTo s a page frame flags = some (answer,s',a') →
      ∃ frames, Takes P a frames a' ∧ P.tables s' = P.tables s++frames
  mapped : ∀ s a page frame flags s' a',
    P.mapTo s a page frame flags = some (.ok (),s',a') →
      P.entry s page = none ∧ P.entry s' = Function.update (P.entry s) page (some frame)

end

section Loop
variable {σ A ε : Type} {P : HeapPaging σ A ε} {s s' : σ} {a b c : A}

lemma Takes.trans {frames frames' : List ℕ} (h : Takes P a frames b) (h' : Takes P b frames' c) :
    Takes P a (frames++frames') c := by
  induction h with
  | nil a => exact h'
  | frame hcall _ ih => exact .frame hcall (ih h')
  | nothing hcall _ ih => exact .nothing hcall (ih h')

end Loop

section Boot
variable {σ ε τ : Type} [DecidableEq τ] {usable : τ} {physAddr : ℕ → Option ℕ}
  {memoryMap : List (MemoryRegion τ)} {P : HeapPaging σ (BootInfoFrameAllocator τ) ε}
  (hP : P.allocateFrame = BootInfoFrameAllocator.allocateFrame usable physAddr)
  (hsame : ∀ addr a, physAddr addr = some a → a = addr)
  (hranges : ∀ r ∈ usableRegions usable memoryMap, r.FrameRange)
include hP hsame hranges

end Boot

/-! ### The mapped heap -/

lemma mem_heapPages {page : ℕ} : page ∈ heapPages ↔
    ∃ addr, kernelHeapStart ≤ addr ∧ addr < kernelHeapStart+kernelHeapSize ∧
      containingAddress addr = page := by
  unfold heapPages containingAddress kernelHeapStart kernelHeapSize frameSize
  rw [List.mem_range'_1]
  constructor
  · rintro ⟨hlow,hhigh⟩
    exact ⟨page*4096,by omega,by omega,by omega⟩
  · rintro ⟨addr,hlow,hhigh,rfl⟩
    omega

/-- Each page of the heap has one of the frames to itself: no other page of the heap has it, and no
new table lies in it. Other pages stay as they were. -/
structure HeapBacked {σ A ε : Type} (P : HeapPaging σ A ε) (frames : List ℕ) (s s' : σ) : Prop where
  backed : ∀ page ∈ heapPages, ∃ frame ∈ frames, P.entry s' page = some frame ∧
    ∀ taken, P.tables s' = P.tables s++taken → frame ∉ taken
  apart : ∀ page ∈ heapPages, ∀ page' ∈ heapPages, P.entry s' page = P.entry s' page' → page = page'
  other : ∀ page ∉ heapPages, P.entry s' page = P.entry s page
  enough : (P.tables s').length+heapPages.length ≤ (P.tables s).length+frames.length

section Backed
variable {σ ε τ : Type} [DecidableEq τ] {usable : τ} {physAddr : ℕ → Option ℕ}
  {memoryMap : List (MemoryRegion τ)} {P : HeapPaging σ (BootInfoFrameAllocator τ) ε}
  {s s' : σ} {a : BootInfoFrameAllocator τ}

end Backed

/-! ### Bytes of memory -/

/-- The physical address of the byte at an address, when its page is mapped. -/
def physicalByte (entry : ℕ → Option ℕ) (addr : ℕ) : Option ℕ :=
  (entry (containingAddress addr)).map fun frame => frameSize*frame+addr % frameSize

lemma containingAddress_physical (frame addr : ℕ) :
    containingAddress (frameSize*frame+addr % frameSize) = frame := by
  unfold containingAddress frameSize
  omega

section Bytes
variable {σ A ε : Type} {P : HeapPaging σ A ε} {frames : List ℕ} {s s' : σ} {addr addr' : ℕ}

/-- Each byte of the heap is a byte of a usable frame that is no table. -/
lemma HeapBacked.byte (h : HeapBacked P frames s s') (hlow : kernelHeapStart ≤ addr)
    (hhigh : addr < kernelHeapStart+kernelHeapSize) :
    ∃ physical, physicalByte (P.entry s') addr = some physical ∧
      containingAddress physical ∈ frames ∧
      ∀ taken, P.tables s' = P.tables s++taken → containingAddress physical ∉ taken := by
  obtain ⟨frame,hframe,hentry,htables⟩ :=
    h.backed (containingAddress addr) (mem_heapPages.mpr ⟨addr,hlow,hhigh,rfl⟩)
  refine ⟨frameSize*frame+addr % frameSize,?_,?_⟩
  · rw [physicalByte,hentry,Option.map_some]
  · rw [containingAddress_physical]
    exact ⟨hframe,htables⟩

end Bytes

/-! ### After the boot -/

end CrabOs.Allocator
