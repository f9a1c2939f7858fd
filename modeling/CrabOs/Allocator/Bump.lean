import CrabOs.Allocator.Layout
import CrabOs.Foundations.Runs

/-! The bump allocator: memory is handed out in order, and is all free again when a counter says that
no allocation is live. -/
namespace CrabOs.Allocator

structure BumpAllocator where
  heapStart : ℕ
  heapEnd : ℕ
  next : ℕ
  allocations : ℕ
  deriving DecidableEq

namespace BumpAllocator

def new : BumpAllocator := ⟨0,0,0,0⟩

def init (bump : BumpAllocator) (heapStart heapSize : ℕ) : Option BumpAllocator := do
  let heapEnd ← checkedAdd heapStart heapSize
  return { bump with heapStart := heapStart, heapEnd := heapEnd, next := heapStart }

/-- The answer `none` is a null pointer. -/
def alloc (bump : BumpAllocator) (layout : Layout) : Option (Option ℕ × BumpAllocator) := do
  let allocStart ← alignUp bump.next layout.align
  match checkedAdd allocStart layout.size with
  | none => return (none,bump)
  | some allocEnd =>
    if bump.heapEnd < allocEnd then return (none,bump)
    else
      let allocations ← checkedAdd bump.allocations 1
      return (some allocStart,{ bump with next := allocEnd, allocations := allocations })

/-- Neither the pointer nor the layout is looked at. -/
def dealloc (bump : BumpAllocator) : Option BumpAllocator := do
  let allocations ← checkedSub bump.allocations 1
  return { bump with
    allocations := allocations
    next := if allocations = 0 then bump.heapStart else bump.next }

/-- The allocator and, as a record of what was handed out, the live allocations. -/
structure Heap where
  bump : BumpAllocator
  live : List Block

inductive Call
  | alloc (layout : Layout)
  | dealloc (index : ℕ)

/-- `none` is a panic, or a deallocation of what is not live. -/
def Heap.step (h : Heap) : Call → Option Heap
  | .alloc layout => (h.bump.alloc layout).map fun
    | (some ptr,bump) => ⟨bump,⟨ptr,layout⟩ :: h.live⟩
    | (none,bump) => ⟨bump,h.live⟩
  | .dealloc index => (h.live[index]?).bind fun _ =>
    h.bump.dealloc.map fun bump => ⟨bump,h.live.eraseIdx index⟩

/-- What a caller may ask for: some memory, or to free a live allocation. The counter has room. -/
def Heap.Legal (h : Heap) : Call → Prop
  | .alloc layout => 0 < layout.size ∧ h.live.length+1 < usizeLimit
  | .dealloc index => index < h.live.length

/-! ### What each function does -/

section Functions
variable {bump : BumpAllocator} {layout : Layout}

/-- All that an allocation can do: nothing, or take the memory from the next aligned address on, if
the counter does not overflow. -/
lemma alloc_cases (hlimit : bump.next+layout.align < usizeLimit) :
    bump.alloc layout = some (none,bump) ∨
      ∃ start, bump.next ≤ start ∧ layout.align ∣ start ∧ start+layout.size ≤ bump.heapEnd ∧
        bump.alloc layout = (checkedAdd bump.allocations 1).map fun allocations =>
          (some start,{ bump with next := start+layout.size, allocations := allocations }) := by
  obtain ⟨start,hup,hlow,-,hdvd,-⟩ := alignUp_eq layout.power hlimit
  simp only [alloc,hup,Option.bind_eq_bind,Option.bind_some]
  by_cases hsum : start+layout.size < usizeLimit
  · have hend : checkedAdd start layout.size = some (start+layout.size) := if_pos hsum
    rw [hend]
    dsimp only
    rcases Nat.lt_or_ge bump.heapEnd (start+layout.size) with hout | hin
    · exact .inl (if_pos hout)
    · refine .inr ⟨start,hlow,hdvd,hin,?_⟩
      rw [if_neg (Nat.not_lt.mpr hin)]
      cases checkedAdd bump.allocations 1 with
      | none => rfl
      | some allocations => rfl
  · have hend : checkedAdd start layout.size = none := if_neg hsum
    rw [hend]
    exact .inl rfl

/-- Rounding `next` up overflows. -/
lemma alloc_overflow (hover : usizeLimit ≤ bump.next+layout.align) : bump.alloc layout = none := by
  simp [alloc,alignUp,checkedAdd,Nat.not_lt.mpr hover]

/-- A null pointer leaves the allocator as it was. -/
lemma alloc_null {bump' : BumpAllocator} (h : bump.alloc layout = some (none,bump')) :
    bump' = bump := by
  rcases Nat.lt_or_ge (bump.next+layout.align) usizeLimit with hlimit | hover
  · rcases alloc_cases hlimit with hnull | ⟨start,-,-,-,halloc⟩
    · rw [hnull] at h
      cases h
      rfl
    · rw [halloc] at h
      obtain ⟨allocations,-,h⟩ := Option.map_eq_some_iff.mp h
      cases h
  · rw [alloc_overflow hover] at h
    cases h

lemma dealloc_eq (h : 0 < bump.allocations) : bump.dealloc = some { bump with
    allocations := bump.allocations-1
    next := if bump.allocations-1 = 0 then bump.heapStart else bump.next } := by
  have hsub : checkedSub bump.allocations 1 = some (bump.allocations-1) := if_pos h
  simp only [dealloc,hsub,Option.bind_eq_bind,Option.bind_some]
  rfl

end Functions

/-! ### Every sequence of calls -/

/-- The addresses of an allocation. -/
def payload (block : Block) : Span := ⟨block.ptr,block.layout.size⟩

/-- The live allocations are apart, inside the heap and aligned; they are as many as the counter says,
and all of them end before `next`. -/
structure Safe (heap : Span) (h : Heap) : Prop where
  packed : Span.Packed heap (h.live.map payload)
  aligned : ∀ b ∈ h.live, b.layout.align ∣ b.ptr
  counted : h.bump.allocations = h.live.length
  next : ∀ b ∈ h.live, (payload b).stop ≤ h.bump.next

structure Inv (heap : Span) (h : Heap) : Prop extends Safe heap h where
  heapStart : h.bump.heapStart = heap.start
  heapEnd : h.bump.heapEnd = heap.stop
  low : heap.start ≤ h.bump.next
  high : h.bump.next ≤ heap.stop

variable {heap : Span} {h h' : Heap}

/-- A block from `next` on joins the live allocations. -/
lemma Inv.push (hi : Inv heap h) {layout : Layout} {start allocations : ℕ}
    (hlow : h.bump.next ≤ start) (hdvd : layout.align ∣ start)
    (hhigh : start+layout.size ≤ h.bump.heapEnd)
    (hcount : checkedAdd h.bump.allocations 1 = some allocations) :
    Inv heap ⟨{ h.bump with next := start+layout.size, allocations := allocations },
      ⟨start,layout⟩ :: h.live⟩ := by
  have hwithin : (payload ⟨start,layout⟩).Within heap := by
    rw [hi.heapEnd] at hhigh
    exact ⟨hi.low.trans hlow,hhigh⟩
  refine ⟨⟨?_,?_,?_,?_⟩,hi.heapStart,hi.heapEnd,?_,?_⟩
  · refine hi.packed.cons hwithin fun span hspan => ?_
    obtain ⟨b,hb,rfl⟩ := List.mem_map.mp hspan
    exact .inr ((hi.next b hb).trans hlow)
  · exact List.forall_mem_cons.mpr ⟨hdvd,hi.aligned⟩
  · unfold checkedAdd at hcount
    split_ifs at hcount
    rw [← Option.some.inj hcount,hi.counted]
    rfl
  · refine List.forall_mem_cons.mpr ⟨le_rfl,fun b hb => ?_⟩
    exact (hi.next b hb).trans (hlow.trans (Nat.le_add_right _ _))
  · exact hi.low.trans (hlow.trans (Nat.le_add_right _ _))
  · exact hwithin.2

/-- One allocation less; when it was the last one the whole heap is free again. -/
lemma Inv.pop (hi : Inv heap h) {index : ℕ} {b : Block} (hlive : h.live[index]? = some b) :
    ∃ h', h.step (.dealloc index) = some h' ∧ Inv heap h' := by
  have hspans : (h.live.map payload).Perm (payload b :: (h.live.eraseIdx index).map payload) :=
    (perm_eraseIdx hlive).map payload
  have hlength : h.live.length = (h.live.eraseIdx index).length+1 := (perm_eraseIdx hlive).length_eq
  have hpos : 0 < h.bump.allocations := by
    rw [hi.counted,hlength]
    exact Nat.succ_pos _
  have hleft : h.bump.allocations-1 = (h.live.eraseIdx index).length := by
    rw [hi.counted,hlength]
    rfl
  have hstep : h.step (.dealloc index) = some ⟨{ h.bump with
      allocations := h.bump.allocations-1
      next := if h.bump.allocations-1 = 0 then h.bump.heapStart else h.bump.next },
        h.live.eraseIdx index⟩ := by
    rw [Heap.step,hlive,Option.bind_some,dealloc_eq hpos]
    rfl
  refine ⟨_,hstep,⟨?_,?_,?_,?_⟩,hi.heapStart,hi.heapEnd,?_,?_⟩
  · exact (hi.packed.perm hspans).tail
  · exact fun c hc => hi.aligned c (List.mem_of_mem_eraseIdx hc)
  · exact hleft
  · intro c hc
    have hsome : h.bump.allocations-1 ≠ 0 := by
      rw [hleft]
      exact (List.length_pos_of_mem hc).ne'
    dsimp only
    rw [if_neg hsome]
    exact hi.next c (List.mem_of_mem_eraseIdx hc)
  · dsimp only
    split_ifs
    · exact hi.heapStart.ge
    · exact hi.low
  · dsimp only
    split_ifs
    · rw [hi.heapStart]
      exact Nat.le_add_right _ _
    · exact hi.high

lemma align_le_of_size_pos {layout : Layout} (h : 0 < layout.size) : layout.align ≤ 2^62 := by
  have hfits := layout.fits
  obtain ⟨k,hk⟩ := layout.power
  rw [hk] at hfits ⊢
  have hlt : 2^k < 2^63 := by omega
  have hk : k < 63 := (Nat.pow_lt_pow_iff_right Nat.one_lt_two).mp hlt
  exact Nat.pow_le_pow_right Nat.two_pos (Nat.le_of_lt_succ hk)

/-- Every legal call returns, and every call that returns keeps the heap safe. -/
theorem Inv.step (hi : Inv heap h) (hb : heap.stop ≤ 2^63) {call : Call} :
    (h.Legal call → (h.step call).isSome) ∧ ∀ h', h.step call = some h' → Inv heap h' := by
  cases call with
  | alloc layout =>
    rcases Nat.lt_or_ge (h.bump.next+layout.align) usizeLimit with hlimit | hover
    · rcases alloc_cases hlimit with hnull | ⟨start,hlow,hdvd,hhigh,halloc⟩
      · exact Runs.possible_of_eq (by rw [Heap.step,hnull]; rfl) hi
      · cases hcount : checkedAdd h.bump.allocations 1 with
        | none =>
          refine ⟨fun hl => ?_,fun h' hh' => ?_⟩
          · have hroom : h.bump.allocations+1 < usizeLimit := by
              rw [hi.counted]
              exact hl.2
            simp [checkedAdd,hroom] at hcount
          · simp [Heap.step,halloc,hcount] at hh'
        | some allocations =>
          refine Runs.possible_of_eq ?_ (hi.push hlow hdvd hhigh hcount)
          rw [Heap.step,halloc,hcount]
          rfl
    · refine ⟨fun hl => ?_,fun h' hh' => ?_⟩
      · have halign := align_le_of_size_pos hl.1
        have hhigh := hi.high
        unfold usizeLimit at hover
        omega
      · simp [Heap.step,alloc_overflow hover] at hh'
  | dealloc index =>
    cases hlive : h.live[index]? with
    | none =>
      refine ⟨fun hl => ?_,fun h' hh' => ?_⟩
      · exact absurd hl (Nat.not_lt.mpr (List.getElem?_eq_none_iff.mp hlive))
      · simp [Heap.step,hlive] at hh'
    | some b =>
      obtain ⟨h₁,hstep,hi₁⟩ := hi.pop hlive
      exact Runs.possible_of_eq hstep hi₁

/-- Whatever is allocated and freed, the live allocations stay apart, aligned and counted; a null
pointer changes nothing, and no legal call panics. -/
theorem bump_safe {heapStart heapSize : ℕ} (hb : heapStart+heapSize ≤ 2^63) :
    ∃ bump, new.init heapStart heapSize = some bump ∧
      ∀ calls h, Runs.run Heap.step calls ⟨bump,[]⟩ = some h →
        Safe ⟨heapStart,heapSize⟩ h ∧
        (∀ layout bump', h.bump.alloc layout = some (none,bump') → bump' = h.bump) ∧
        ∀ call, h.Legal call → (h.step call).isSome := by
  have hend : checkedAdd heapStart heapSize = some (heapStart+heapSize) :=
    if_pos (lt_of_le_of_lt hb (by decide))
  refine ⟨⟨heapStart,heapStart+heapSize,heapStart,0⟩,?_,fun calls h hr => ?_⟩
  · simp only [init,hend,Option.bind_eq_bind,Option.bind_some]
    rfl
  · have hstart : Inv ⟨heapStart,heapSize⟩ ⟨⟨heapStart,heapStart+heapSize,heapStart,0⟩,[]⟩ :=
      ⟨⟨⟨nofun,.nil⟩,nofun,rfl,nofun⟩,rfl,rfl,le_rfl,Nat.le_add_right _ _⟩
    have hi := Runs.invariant_run (fun _ _ _ hi hs => (hi.step hb).2 _ hs) hstart hr
    exact ⟨hi.toSafe,fun _ _ => alloc_null,fun call => (hi.step hb).1⟩

/-- The kernel's heap. -/
theorem bump_safe_kernelHeap : ∃ bump, new.init kernelHeapStart kernelHeapSize = some bump ∧
    ∀ calls h, Runs.run Heap.step calls ⟨bump,[]⟩ = some h →
      Safe ⟨kernelHeapStart,kernelHeapSize⟩ h ∧
      (∀ layout bump', h.bump.alloc layout = some (none,bump') → bump' = h.bump) ∧
      ∀ call, h.Legal call → (h.step call).isSome :=
  bump_safe (by decide)

end BumpAllocator
end CrabOs.Allocator
