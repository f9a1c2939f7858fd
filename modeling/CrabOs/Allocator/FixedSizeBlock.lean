import CrabOs.Allocator.Layout
import CrabOs.Foundations.Runs

/-! The fixed-size-block allocator: nine lists of free blocks in front of a fallback heap. The heap
is code of another crate, so it is a parameter with a contract. -/
namespace CrabOs.Allocator

/-- What the allocator calls of `linked_list_allocator::Heap`. -/
structure Fallback where
  State : Type
  allocateFirstFit : State → Layout → Option ℕ × State
  deallocate : State → ℕ → Layout → State

/-- The memory of a block as its layout asks for it. -/
def Block.span (block : Block) : Span := ⟨block.ptr,block.layout.size⟩

/-- An allocation fails, or hands out an aligned block of the heap that shares nothing with the
blocks handed out and not taken back. `Holds` says which blocks these are. -/
structure Fallback.Contract (F : Fallback) (heap : Span) where
  start : F.State
  Holds : F.State → List Block → Prop
  holds_start : Holds start []
  allocated : ∀ {s s' granted layout ptr}, Holds s granted →
    F.allocateFirstFit s layout = (some ptr,s') →
      ptr ≠ 0 ∧ layout.align ∣ ptr ∧ (Block.mk ptr layout).span.Within heap ∧
        (∀ b ∈ granted, (Block.mk ptr layout).span.Apart b.span) ∧
        Holds s' (⟨ptr,layout⟩ :: granted)
  refused : ∀ {s s' granted layout}, Holds s granted →
    F.allocateFirstFit s layout = (none,s') → Holds s' granted
  deallocated : ∀ {s granted b}, Holds s granted → b ∈ granted →
    Holds (F.deallocate s b.ptr b.layout) (granted.erase b)

namespace FixedSizeBlock

def blockSizes : Vector ℕ 9 := #v[8,16,32,64,128,256,512,1024,2048]

/-- Both `size_of::<ListNode>()` and `align_of::<ListNode>()`. -/
def listNodeSize : ℕ := 8

/-- The first class whose blocks are as large and as aligned as the layout asks for. -/
def listIndex (layout : Layout) : Option (Fin 9) :=
  (List.finRange 9).find? fun index => max layout.size layout.align ≤ blockSizes[index]

/-- `Layout::from_size_align(block_size, block_align)`. -/
def blockLayout (index : Fin 9) : Layout where
  size := blockSizes[index]
  align := blockSizes[index]
  power := ⟨index+3,by revert index; decide⟩
  fits := by revert index; decide

/-- The lists hold the addresses of free blocks. `granted` is not stored by the code: it records
the blocks the fallback heap handed out and did not get back. -/
structure Heap (F : Fallback) where
  listHeads : Fin 9 → List ℕ
  fallback : F.State
  requestedBytes : ℕ
  live : List Block
  granted : List Block

variable {F : Fallback}

namespace Heap

/-- `fallback_alloc`; the pointer 0 is null. -/
def fallbackAlloc (h : Heap F) (layout : Layout) : ℕ × Heap F :=
  match F.allocateFirstFit h.fallback layout with
  | (some ptr,fallback) =>
    (ptr,{ h with fallback := fallback, granted := ⟨ptr,layout⟩ :: h.granted })
  | (none,fallback) => (0,{ h with fallback := fallback })

/-- Where `alloc` gets its pointer from. -/
def takeBlock (h : Heap F) (layout : Layout) : ℕ × Heap F :=
  match listIndex layout with
  | some index => match h.listHeads index with
    | node :: next => (node,{ h with listHeads := Function.update h.listHeads index next })
    | [] => h.fallbackAlloc (blockLayout index)
  | none => h.fallbackAlloc layout

def alloc (h : Heap F) (layout : Layout) : ℕ × Heap F :=
  let (ptr,h) := h.takeBlock layout
  if ptr ≠ 0 then
    (ptr,{ h with requestedBytes := (h.requestedBytes+layout.size) % usizeLimit })
  else (ptr,h)

/-- `none` is a failed assertion or `unwrap`. -/
def dealloc (h : Heap F) (ptr : ℕ) (layout : Layout) : Option (Heap F) :=
  let h := { h with
    requestedBytes := (h.requestedBytes+(usizeLimit-layout.size)) % usizeLimit }
  match listIndex layout with
  | some index =>
    if listNodeSize ≤ blockSizes[index] then
      some { h with listHeads := Function.update h.listHeads index (ptr :: h.listHeads index) }
    else none
  | none =>
    if ptr ≠ 0 then
      some { h with
        fallback := F.deallocate h.fallback ptr layout
        granted := h.granted.erase ⟨ptr,layout⟩ }
    else none

end Heap

inductive Call
  | alloc (layout : Layout)
  | dealloc (index : ℕ)

namespace Heap

/-- A deallocation names a live allocation by its place and passes its own pointer and layout. -/
def step (h : Heap F) : Call → Option (Heap F)
  | .alloc layout =>
    let (ptr,h) := h.alloc layout
    some (if ptr ≠ 0 then { h with live := ⟨ptr,layout⟩ :: h.live } else h)
  | .dealloc index => (h.live[index]?).bind fun block =>
    (h.dealloc block.ptr block.layout).map fun h => { h with live := h.live.eraseIdx index }

def Legal (h : Heap F) : Call → Prop
  | .alloc _ => True
  | .dealloc index => index < h.live.length

/-- `FixedSizeBlockAllocator::new` and `init`. -/
def new (start : F.State) : Heap F := ⟨fun _ => [],start,0,[],[]⟩

end Heap

/-! ### Size classes -/

variable {layout : Layout} {index : Fin 9}

lemma listIndex_le (h : listIndex layout = some index) :
    layout.size ≤ blockSizes[index] ∧ layout.align ≤ blockSizes[index] := by
  have := List.find?_some h
  rw [decide_eq_true_eq] at this
  exact max_le_iff.mp this

lemma listNodeSize_le (index : Fin 9) : listNodeSize ≤ blockSizes[index] := by
  revert index
  decide

/-- The block of the fallback heap that an allocation lives in. -/
def home (block : Block) : Block :=
  match listIndex block.layout with
  | some index => ⟨block.ptr,blockLayout index⟩
  | none => block

/-- The blocks on the free lists, as the fallback heap handed them out. -/
def freeBlocks (listHeads : Fin 9 → List ℕ) : List Block :=
  (List.finRange 9).flatMap fun index => (listHeads index).map fun ptr => ⟨ptr,blockLayout index⟩

lemma home_ptr (b : Block) : (home b).ptr = b.ptr := by
  unfold home
  cases listIndex b.layout <;> rfl

lemma size_le_home (b : Block) : b.layout.size ≤ (home b).layout.size := by
  unfold home
  cases hi : listIndex b.layout with
  | none => exact le_rfl
  | some index => exact (listIndex_le hi).1

lemma align_dvd_home (b : Block) : b.layout.align ∣ (home b).layout.align := by
  unfold home
  cases hi : listIndex b.layout with
  | none => exact dvd_rfl
  | some index =>
    obtain ⟨j,hj⟩ := b.layout.power
    obtain ⟨k,hk⟩ := (blockLayout index).power
    have hle : b.layout.align ≤ (blockLayout index).align := (listIndex_le hi).2
    change b.layout.align ∣ (blockLayout index).align
    rw [hj,hk] at hle ⊢
    exact Nat.pow_dvd_pow 2 ((Nat.pow_le_pow_iff_right Nat.one_lt_two).mp hle)

/-- One list gains an element at its front, and the others stay. -/
lemma flatMap_push {ι α : Type} {l : List ι} (hnodup : l.Nodup) {i : ι} (hi : i ∈ l)
    {f g : ι → List α} {a : α} (hsame : ∀ j, j ≠ i → g j = f j) (hpush : g i = a :: f i) :
    (l.flatMap g).Perm (a :: l.flatMap f) := by
  induction l with
  | nil => cases hi
  | cons j l ih =>
    obtain ⟨hj,hnodup⟩ := List.nodup_cons.mp hnodup
    rw [List.flatMap_cons,List.flatMap_cons]
    by_cases hji : j = i
    · subst hji
      have hrest : l.flatMap g = l.flatMap f := by
        simp only [List.flatMap]
        exact congrArg _ (List.map_congr_left fun k hk => hsame k fun hkj => hj (hkj ▸ hk))
      rw [hpush,hrest]
      rfl
    · have hmem : i ∈ l := (List.mem_cons.mp hi).resolve_left fun h => hji h.symm
      rw [hsame j hji]
      exact ((ih hnodup hmem).append_left (f j)).trans List.perm_middle

lemma freeBlocks_push (listHeads : Fin 9 → List ℕ) (index : Fin 9) (ptr : ℕ) :
    (freeBlocks (Function.update listHeads index (ptr :: listHeads index))).Perm
      (⟨ptr,blockLayout index⟩ :: freeBlocks listHeads) := by
  refine flatMap_push (List.nodup_finRange 9) (List.mem_finRange index) ?_ ?_
  · intro j hj
    rw [Function.update_of_ne hj]
  · rw [Function.update_self,List.map_cons]

lemma freeBlocks_pop {listHeads : Fin 9 → List ℕ} {index : Fin 9} {ptr : ℕ} {next : List ℕ}
    (h : listHeads index = ptr :: next) :
    (freeBlocks listHeads).Perm
      (⟨ptr,blockLayout index⟩ :: freeBlocks (Function.update listHeads index next)) := by
  have hback : listHeads = Function.update (Function.update listHeads index next) index
      (ptr :: Function.update listHeads index next index) := by
    rw [Function.update_self,Function.update_idem,← h,Function.update_eq_self]
  conv_lhs => rw [hback]
  exact freeBlocks_push _ index ptr

lemma mem_freeBlocks {listHeads : Fin 9 → List ℕ} {b : Block} :
    b ∈ freeBlocks listHeads ↔ ∃ index, b.ptr ∈ listHeads index ∧ b.layout = blockLayout index := by
  simp only [freeBlocks,List.mem_flatMap,List.mem_finRange,true_and,List.mem_map]
  constructor
  · rintro ⟨index,ptr,hptr,rfl⟩
    exact ⟨index,hptr,rfl⟩
  · rintro ⟨index,hptr,hlayout⟩
    refine ⟨index,b.ptr,hptr,?_⟩
    rw [← hlayout]

end FixedSizeBlock
end CrabOs.Allocator
