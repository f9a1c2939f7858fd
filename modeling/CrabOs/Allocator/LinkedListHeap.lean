import CrabOs.Allocator.LinkedList

/-! Every sequence of calls to the linked-list allocator keeps its memory apart; it keeps all of
its memory exactly when no allocation needs padding. -/
namespace CrabOs.Allocator.LinkedList
open Span

/-- Free regions and live allocations share the heap without overlap. -/
structure Safe (heap : Span) (h : Heap) : Prop where
  packed : Packed heap (h.regions++h.live.map taken)
  regions : ∀ r ∈ h.regions, 2^nodeAlign ∣ r.start ∧ nodeSize ≤ r.size
  blocks : ∀ b ∈ h.live, b.layout.align ∣ b.ptr ∧ b.layout.size ≤ (taken b).size

/-- The layouts of the live allocations were accepted, and raised as `size_align` does. -/
structure Inv (heap : Span) (h : Heap) : Prop extends Safe heap h where
  accepted : ∀ b ∈ h.live, ∃ align, sizeAlign b.layout = some ((taken b).size,align) ∧ align ∣ b.ptr

/-- Nothing of the heap is lost. -/
def Conserves (heapSize : ℕ) (h : Heap) : Prop :=
  total h.regions+total (h.live.map taken) = heapSize

/-- The first region that is accepted already starts at a multiple of the alignment. -/
def NoPadding (h : Heap) : Call → Prop
  | .alloc layout => ∀ size align region, sizeAlign layout = some (size,align) →
      h.regions.find? (accepts size align) = some region → align ∣ region.start
  | .dealloc _ => True

variable {heap : Span} {h h' : Heap}

lemma taken_eq {b : Block} {size align : ℕ} (hs : sizeAlign b.layout = some (size,align)) :
    taken b = ⟨b.ptr,size⟩ := by simp [taken,hs]

lemma Inv.usable (hi : Inv heap h) (hb : heap.stop ≤ 2^63) : ∀ r ∈ h.regions, Usable r := by
  intro r hr
  obtain ⟨ha,hn⟩ := hi.regions r hr
  exact ⟨ha,hn,((hi.packed.inside r (List.mem_append_left _ hr)).2).trans hb⟩

section Step
variable {size align start : ℕ} {region : Span}

lemma mem_tail {r : Span} {stop : ℕ} (h : r ∈ tail region stop) :
    r = ⟨stop,region.stop-stop⟩ ∧ stop < region.stop := by
  unfold tail at h
  split_ifs at h with hlt
  · exact ⟨List.mem_singleton.mp h,hlt⟩
  · cases h

lemma total_tail (hhigh : start ≤ region.stop) : total (tail region start) = region.stop-start := by
  unfold tail
  split_ifs
  · simp
  · simp only [total_nil]
    omega

/-- A block carved from a region and the tail behind it take the region's place. -/
lemma packed_carve {spans : List Span} (hp : Packed heap (region :: spans))
    (hc : Carved region size align start) :
    Packed heap (⟨start,size⟩ :: (tail region (start+size)++spans)) := by
  have hlow := hc.low
  have hhigh := hc.high
  have hblock : (⟨start,size⟩ : Span).Within region := ⟨hlow,hhigh⟩
  unfold tail
  split_ifs with hlt
  · refine hp.split hblock ⟨?_,?_⟩ (.inl le_rfl)
    · change region.start ≤ start+size
      omega
    · change start+size+(region.stop-(start+size)) ≤ region.stop
      omega
  · exact hp.shrink hblock

end Step

theorem Inv.alloc (hi : Inv heap h) (hb : heap.stop ≤ 2^63) {layout : Layout} {size align : ℕ}
    (hs : sizeAlign layout = some (size,align)) :
    h.regions.find? (accepts size align) = none ∧ h.step (.alloc layout) = some h ∨
      ∃ region start h', h.regions.find? (accepts size align) = some region ∧
        Carved region size align start ∧ h.step (.alloc layout) = some h' ∧ Inv heap h' ∧
        total h'.regions+total (h'.live.map taken)+(start-region.start) =
          total h.regions+total (h.live.map taken) := by
  obtain ⟨regions,live⟩ := h
  have hadjusted := sizeAlign_adjusted hs
  rcases alloc_cases (hi.usable hb) hs with ⟨hfirst,hnull⟩ |
    ⟨before,region,after,start,hregions,hfirst,hcarved,halloc⟩
  · exact .inl ⟨hfirst,by simp only [Heap.step,hnull,Option.map_some]⟩
  · dsimp only at hregions
    have hspan : taken ⟨start,layout⟩ = ⟨start,size⟩ := taken_eq hs
    refine .inr ⟨region,start,⟨tail region (start+size)++(before++after),⟨start,layout⟩ :: live⟩,
      hfirst,hcarved,by simp only [Heap.step,halloc,Option.map_some],⟨⟨?_,?_,?_⟩,?_⟩,?_⟩
    · have hp : Packed heap (region :: (before++after++live.map taken)) := by
        refine hi.packed.perm ?_
        rw [hregions]
        exact List.perm_middle.append_right _
      refine (packed_carve hp hcarved).perm ?_
      rw [List.map_cons,hspan,← List.append_assoc]
      exact List.perm_middle.symm
    · intro r hr
      rcases List.mem_append.mp hr with hr | hr
      · obtain ⟨rfl,hlt⟩ := mem_tail hr
        refine ⟨Nat.dvd_add (hadjusted.raised.trans hcarved.aligned) hadjusted.step,?_⟩
        exact hcarved.rest.resolve_left hlt.ne
      · refine hi.regions r ?_
        rw [hregions]
        simp only [List.mem_append,List.mem_cons] at hr ⊢
        tauto
    · intro b hmem
      rcases List.mem_cons.mp hmem with rfl | hmem
      · rw [hspan]
        exact ⟨hadjusted.aligned.trans hcarved.aligned,hadjusted.covers⟩
      · exact hi.blocks b hmem
    · intro b hmem
      rcases List.mem_cons.mp hmem with rfl | hmem
      · rw [hspan]
        exact ⟨align,hs,hcarved.aligned⟩
      · exact hi.accepted b hmem
    · have hlow := hcarved.low
      have hhigh := hcarved.high
      have hstop : region.stop = region.start+region.size := rfl
      simp only [hregions,List.map_cons,hspan,total_append,total_cons,total_tail hhigh]
      omega

/-- A live allocation goes back to the front of the list as it was taken. -/
theorem Inv.dealloc (hi : Inv heap h) (hb : heap.stop ≤ 2^63) {index : ℕ} {b : Block}
    (hlive : h.live[index]? = some b) :
    ∃ h', h.step (.dealloc index) = some h' ∧ Inv heap h' ∧
      total h'.regions+total (h'.live.map taken) =
        total h.regions+total (h.live.map taken) := by
  obtain ⟨regions,live⟩ := h
  dsimp only at hlive
  have hmem : b ∈ live := List.mem_of_getElem? hlive
  obtain ⟨align,hs,hdvd⟩ := hi.accepted b hmem
  have hadjusted := sizeAlign_adjusted hs
  have hspans : (live.map taken).Perm (taken b :: (live.eraseIdx index).map taken) :=
    (perm_eraseIdx hlive).map taken
  have hinside := hi.packed.inside (taken b) (List.mem_append_right _ (List.mem_map_of_mem hmem))
  have hbound : b.ptr+(taken b).size < usizeLimit :=
    lt_of_le_of_lt (hinside.2.trans hb) (by decide)
  have hfree : addFreeRegion regions b.ptr (taken b).size = some (taken b :: regions) :=
    addFreeRegion_eq (hadjusted.raised.trans hdvd) hadjusted.node hbound regions
  refine ⟨⟨taken b :: regions,live.eraseIdx index⟩,?_,⟨⟨?_,?_,?_⟩,?_⟩,?_⟩
  · simp only [Heap.step,hlive,Option.bind_some,LinkedList.dealloc,hs,Option.bind_eq_bind,hfree,
      Option.map_some]
  · refine hi.packed.perm ?_
    exact (hspans.append_left regions).trans List.perm_middle
  · intro r hr
    rcases List.mem_cons.mp hr with rfl | hr
    · exact ⟨hadjusted.raised.trans hdvd,hadjusted.node⟩
    · exact hi.regions r hr
  · exact fun c hc => hi.blocks c (List.mem_of_mem_eraseIdx hc)
  · exact fun c hc => hi.accepted c (List.mem_of_mem_eraseIdx hc)
  · rw [total_perm hspans]
    simp only [total_cons]
    omega

/-- Every legal call returns, and every call that returns keeps the heap safe. -/
theorem Inv.step (hi : Inv heap h) (hb : heap.stop ≤ 2^63) {call : Call} :
    (h.Legal call → (h.step call).isSome) ∧ ∀ h', h.step call = some h' → Inv heap h' := by
  cases call with
  | alloc layout =>
    cases hs : sizeAlign layout with
    | none =>
      refine ⟨fun hl => ?_,fun h' hh' => ?_⟩
      · simp [Heap.Legal,hs] at hl
      · simp [Heap.step,LinkedList.alloc,hs] at hh'
    | some adjusted =>
      rcases hi.alloc hb hs with ⟨-,hstep⟩ | ⟨-,-,h₁,-,-,hstep,hi₁,-⟩
      · exact Runs.possible_of_eq hstep hi
      · exact Runs.possible_of_eq hstep hi₁
  | dealloc index =>
    cases hlive : h.live[index]? with
    | none =>
      refine ⟨fun hl => ?_,fun h' hh' => ?_⟩
      · exact absurd hl (Nat.not_lt.mpr (List.getElem?_eq_none_iff.mp hlive))
      · simp [Heap.step,hlive] at hh'
    | some b =>
      obtain ⟨h₁,hstep,hi₁,-⟩ := hi.dealloc hb hlive
      exact Runs.possible_of_eq hstep hi₁

/-- A call keeps what the heap accounts for exactly when it needs no padding. -/
lemma Inv.conserves_iff (hi : Inv heap h) (hb : heap.stop ≤ 2^63) {call : Call}
    (hc : Conserves heap.size h) (hstep : h.step call = some h') :
    Conserves heap.size h' ↔ NoPadding h call := by
  unfold Conserves at *
  cases call with
  | alloc layout =>
    cases hs : sizeAlign layout with
    | none => simp [Heap.step,LinkedList.alloc,hs] at hstep
    | some adjusted =>
      obtain ⟨size,align⟩ := adjusted
      rcases hi.alloc hb hs with ⟨hfirst,hnull⟩ | ⟨region,start,h₁,hfirst,hcarved,hstep₁,-,htotal⟩
      · obtain rfl := Option.some.inj (hnull.symm.trans hstep)
        refine iff_of_true hc ?_
        rintro size' align' region hs' hfirst'
        rw [hs] at hs'
        cases hs'
        rw [hfirst] at hfirst'
        cases hfirst'
      · obtain rfl := Option.some.inj (hstep₁.symm.trans hstep)
        have hlow := hcarved.low
        have hpadding : total h₁.regions+total (h₁.live.map taken) = heap.size ↔
            start = region.start := by omega
        rw [hpadding,hcarved.padding]
        constructor
        · rintro hdvd size' align' region' hs' hfirst'
          rw [hs] at hs'
          cases hs'
          rw [hfirst] at hfirst'
          cases hfirst'
          exact hdvd
        · exact fun hno => hno size align region hs hfirst
  | dealloc index =>
    cases hlive : h.live[index]? with
    | none => simp [Heap.step,hlive] at hstep
    | some b =>
      obtain ⟨h₁,hstep₁,-,htotal⟩ := hi.dealloc hb hlive
      obtain rfl := Option.some.inj (hstep₁.symm.trans hstep)
      exact iff_of_true (htotal.trans hc) trivial

section Heap
variable {heapStart heapSize : ℕ} (ha : 2^nodeAlign ∣ heapStart) (hs : nodeSize ≤ heapSize)
  (hb : heapStart+heapSize ≤ 2^63)
include ha hs hb

lemma init_eq : init heapStart heapSize = some [⟨heapStart,heapSize⟩] :=
  addFreeRegion_eq ha hs (lt_of_le_of_lt hb (by decide)) []

omit hb in
lemma inv_init : Inv ⟨heapStart,heapSize⟩ ⟨[⟨heapStart,heapSize⟩],[]⟩ where
  packed := ⟨by simp [Within],by simp⟩
  regions := by simp [ha,hs]
  blocks := by simp
  accepted := by simp

/-- Whatever is allocated and freed, the memory stays apart and no legal call panics. -/
theorem linkedList_safe : ∃ regions, init heapStart heapSize = some regions ∧
    ∀ calls h, Runs.run Heap.step calls ⟨regions,[]⟩ = some h →
      Safe ⟨heapStart,heapSize⟩ h ∧ ∀ call, h.Legal call → (h.step call).isSome := by
  refine ⟨_,init_eq ha hs hb,fun calls h hr => ?_⟩
  have hi : Inv ⟨heapStart,heapSize⟩ h :=
    Runs.invariant_run (fun _ _ _ hi hs => (hi.step hb).2 _ hs) (inv_init ha hs) hr
  exact ⟨hi.toSafe,fun call => (hi.step hb).1⟩

/-- The free list and the live allocations account for every byte of the heap throughout a run
exactly when no allocation of the run needs padding. -/
theorem linkedList_conserves_iff (calls : List Call) : ∃ regions,
    init heapStart heapSize = some regions ∧
      (Runs.Always Heap.step (Conserves heapSize) calls ⟨regions,[]⟩ ↔
        Runs.Meets Heap.step NoPadding calls ⟨regions,[]⟩) := by
  refine ⟨_,init_eq ha hs hb,?_⟩
  refine Runs.always_iff_meets (I := Inv ⟨heapStart,heapSize⟩) ?_ (inv_init ha hs)
    (by simp [Conserves]) calls
  intro h call h' hi hc hstep
  exact ⟨(hi.step hb).2 h' hstep,hi.conserves_iff hb hc hstep⟩

end Heap

/-- The kernel's heap. -/
theorem linkedList_safe_kernelHeap : ∃ regions, init kernelHeapStart kernelHeapSize = some regions ∧
    ∀ calls h, Runs.run Heap.step calls ⟨regions,[]⟩ = some h →
      Safe ⟨kernelHeapStart,kernelHeapSize⟩ h ∧ ∀ call, h.Legal call → (h.step call).isSome :=
  linkedList_safe (by decide) (by decide) (by decide)

/-- One allocation from the kernel's heap, which starts aligned. -/
theorem linkedList_conserves_kernelHeap : ∃ regions,
    init kernelHeapStart kernelHeapSize = some regions ∧
      (Runs.Always Heap.step (Conserves kernelHeapSize) [.alloc ⟨100,64,⟨6,rfl⟩,by decide⟩]
          ⟨regions,[]⟩ ↔
        Runs.Meets Heap.step NoPadding [.alloc ⟨100,64,⟨6,rfl⟩,by decide⟩] ⟨regions,[]⟩) :=
  linkedList_conserves_iff (by decide) (by decide) (by decide) _

/-- 24 bytes, then 16 bytes aligned to 16: the eight bytes skipped between them are not free again
when both allocations are. -/
theorem padding_is_lost : ∃ regions h, init kernelHeapStart kernelHeapSize = some regions ∧
    Runs.run Heap.step [.alloc ⟨24,8,⟨3,rfl⟩,by decide⟩,.alloc ⟨16,16,⟨4,rfl⟩,by decide⟩,
      .dealloc 0,.dealloc 0] ⟨regions,[]⟩ = some h ∧
    h.live = [] ∧ total h.regions = kernelHeapSize-8 ∧ ¬Conserves kernelHeapSize h := by
  refine ⟨_,_,rfl,rfl,rfl,rfl,?_⟩
  unfold Conserves
  decide

end CrabOs.Allocator.LinkedList
