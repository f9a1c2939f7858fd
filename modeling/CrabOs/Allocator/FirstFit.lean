import CrabOs.Allocator.LinkedListHeap

/-! The linked-list allocator takes the first free region that is accepted and leaves the others
alone, in heaps anywhere in the address space and for every layout `align_to` accepts. -/
namespace CrabOs.Allocator.LinkedList

/-- `alloc` returns: a null pointer and the same list when every region is rejected, otherwise the
start of a block in the first region that is accepted, of which only the tail behind the block is
added again. -/
def FirstFit (regions : List Span) (layout : Layout) : Prop :=
  ∃ size align, sizeAlign layout = some (size,align) ∧
    ((∀ r ∈ regions, allocFromRegion r size align = some none) ∧
        alloc regions layout = some (none,regions) ∨
      ∃ before region after start, Reaches size align regions before region after ∧
        allocFromRegion region size align = some (some start) ∧ 0 < start ∧
        alloc regions layout = some (some start,tail region (start+size)++(before++after)))

/-- The layout can be raised to the alignment of a node. -/
def Adjustable (layout : Layout) : Prop := layout.size+max layout.align (2^nodeAlign) ≤ 2^63

/-- No region the search gets to is so high that rounding its start up overflows. -/
def Searchable (regions : List Span) (layout : Layout) : Prop :=
  ∀ size align before region after, sizeAlign layout = some (size,align) →
    Reaches size align regions before region after → region.start+align < usizeLimit

variable {layout : Layout} {regions regions' : List Span} {size align addr : ℕ}

lemma adjustable_iff : Adjustable layout ↔ ∃ size align, sizeAlign layout = some (size,align) := by
  unfold Adjustable sizeAlign Layout.alignTo
  constructor
  · intro h
    rw [dif_pos h]
    exact ⟨_,_,rfl⟩
  · rintro ⟨size,align,h⟩
    by_contra hno
    rw [dif_neg hno] at h
    cases h

lemma findRegion_overflow {before after : List Span} {region : Span}
    (h : Reaches size align regions before region after) (hover : usizeLimit ≤ region.start+align) :
    findRegion size align regions = none := by
  obtain ⟨rfl,hbefore⟩ := h
  induction before with
  | nil => simp [findRegion,allocFromRegion_overflow hover]
  | cons r before ih =>
    obtain ⟨hr,hrest⟩ := List.forall_mem_cons.mp hbefore
    simp [findRegion,hr,ih hrest]

/-- A list of regions in which nothing overflows. -/
def AllLinked (regions : List Span) : Prop := ∀ r ∈ regions, Linked r ∧ 0 < r.start

theorem firstFit_iff (h : AllLinked regions) :
    FirstFit regions layout ↔ Adjustable layout ∧ Searchable regions layout := by
  constructor
  · rintro ⟨size,align,hs,hfit⟩
    refine ⟨adjustable_iff.mpr ⟨size,align,hs⟩,?_⟩
    intro size' align' before region after hs' hreach
    rw [hs] at hs'
    cases hs'
    by_contra hover
    have hpanic : alloc regions layout = none := by
      simp [alloc,hs,findRegion_overflow hreach (Nat.le_of_not_lt hover)]
    rcases hfit with ⟨-,hnull⟩ | ⟨_,_,_,_,-,-,-,halloc⟩
    · rw [hpanic] at hnull
      cases hnull
    · rw [hpanic] at halloc
      cases halloc
  · rintro ⟨hadjustable,hsearchable⟩
    obtain ⟨size,align,hs⟩ := adjustable_iff.mp hadjustable
    refine ⟨size,align,hs,?_⟩
    rcases alloc_outcomes (fun r hr => (h r hr).1) hs with hnull |
      ⟨before,region,after,start,hreach,hyes,hcarved,halloc⟩ | ⟨before,region,after,hreach,hover,-⟩
    · exact .inl hnull
    · have hlow : 0 < region.start := (h region (by simp [hreach.1])).2
      exact .inr ⟨before,region,after,start,hreach,hyes,lt_of_lt_of_le hlow hcarved.low,halloc⟩
    · exact absurd (hsearchable size align before region after hs hreach) (Nat.not_lt.mpr hover)

/-! ### Every list a run reaches -/

/-- Free regions and live allocations are all of them regions that can be in the list. -/
structure Sane (h : Heap) : Prop where
  regions : AllLinked h.regions
  live : AllLinked (h.live.map taken)

lemma addFreeRegion_linked (h : addFreeRegion regions addr size = some regions')
    (hb : addr+size < usizeLimit) : regions' = ⟨addr,size⟩ :: regions ∧ Linked ⟨addr,size⟩ := by
  obtain ⟨start,hup,h⟩ := Option.bind_eq_some_iff.mp h
  split_ifs at h with hasserts
  · obtain ⟨rfl,hnode⟩ := hasserts
    have hlimit : start+2^nodeAlign < usizeLimit := by
      unfold nodeSize at hnode
      unfold nodeAlign
      omega
    obtain ⟨start',hup',-,-,hdvd,-⟩ := alignUp_eq ⟨nodeAlign,rfl⟩ hlimit
    obtain rfl := Option.some.inj (hup'.symm.trans hup)
    exact ⟨(Option.some.inj h).symm,hdvd,hnode,hb⟩

lemma linked_carved {region : Span} {start : ℕ} (hr : Linked region)
    (ha : Adjusted layout size align) (hc : Carved region size align start) :
    Linked ⟨start,size⟩ ∧ ∀ r ∈ tail region (start+size), Linked r := by
  have hdvd : 2^nodeAlign ∣ start := ha.raised.trans hc.aligned
  refine ⟨⟨hdvd,ha.node,lt_of_le_of_lt hc.high hr.bound⟩,fun r hmem => ?_⟩
  obtain ⟨rfl,hlt⟩ := mem_tail hmem
  refine ⟨Nat.dvd_add hdvd ha.step,hc.rest.resolve_left hlt.ne,?_⟩
  have hbound := hr.bound
  change start+size+(region.stop-(start+size)) < usizeLimit
  omega

section Step
variable {h : Heap}

/-- A block carved out of a free region becomes live, and its tail a free region. -/
lemma Sane.take (hi : Sane h) {before after : List Span} {region : Span} {start : ℕ}
    (hs : sizeAlign layout = some (size,align)) (hregions : h.regions = before++region :: after)
    (hc : Carved region size align start) :
    Sane ⟨tail region (start+size)++(before++after),⟨start,layout⟩ :: h.live⟩ := by
  obtain ⟨hlinked,hlow⟩ := hi.regions region (by simp [hregions])
  have hstart : 0 < start := lt_of_lt_of_le hlow hc.low
  obtain ⟨hblock,htail⟩ := linked_carved hlinked (sizeAlign_adjusted hs) hc
  constructor
  case regions =>
    intro r hr
    rcases List.mem_append.mp hr with hr | hr
    · refine ⟨htail r hr,?_⟩
      rw [(mem_tail hr).1]
      exact Nat.add_pos_left hstart size
    · refine hi.regions r ?_
      rw [hregions]
      simp only [List.mem_append,List.mem_cons] at hr ⊢
      tauto
  case live =>
    refine List.forall_mem_cons.mpr ⟨?_,hi.live⟩
    rw [taken_eq hs]
    exact ⟨hblock,hstart⟩

/-- A live block becomes a free region again. -/
lemma Sane.free (hi : Sane h) {index : ℕ} {b : Block} (hlive : h.live[index]? = some b)
    (hfree : dealloc h.regions b.ptr b.layout = some regions') :
    Sane ⟨regions',h.live.eraseIdx index⟩ := by
  obtain ⟨⟨size,align⟩,hs,hadd⟩ := Option.bind_eq_some_iff.mp hfree
  obtain ⟨hlinked,hlow⟩ := hi.live (taken b) (List.mem_map_of_mem (List.mem_of_getElem? hlive))
  rw [taken_eq hs] at hlinked hlow
  obtain ⟨rfl,-⟩ := addFreeRegion_linked hadd hlinked.bound
  constructor
  case regions => exact List.forall_mem_cons.mpr ⟨⟨hlinked,hlow⟩,hi.regions⟩
  case live =>
    intro r hr
    obtain ⟨c,hc,rfl⟩ := List.mem_map.mp hr
    exact hi.live _ (List.mem_map_of_mem (List.mem_of_mem_eraseIdx hc))

lemma Sane.step (hi : Sane h) {h' : Heap} {call : Call} (hstep : h.step call = some h') :
    Sane h' := by
  cases call with
  | alloc layout =>
    cases hs : sizeAlign layout with
    | none => simp [Heap.step,alloc,hs] at hstep
    | some adjusted =>
      obtain ⟨size,align⟩ := adjusted
      rcases alloc_outcomes (fun r hr => (hi.regions r hr).1) hs with ⟨-,hnull⟩ |
        ⟨before,region,after,start,⟨hregions,-⟩,-,hcarved,halloc⟩ | ⟨-,-,-,-,-,hpanic⟩
      · simp only [Heap.step,hnull,Option.map_some,Option.some.injEq] at hstep
        rw [← hstep]
        exact hi
      · simp only [Heap.step,halloc,Option.map_some,Option.some.injEq] at hstep
        rw [← hstep]
        exact hi.take hs hregions hcarved
      · simp [Heap.step,hpanic] at hstep
  | dealloc index =>
    obtain ⟨b,hlive,hstep⟩ := Option.bind_eq_some_iff.mp hstep
    obtain ⟨regions',hfree,rfl⟩ := Option.map_eq_some_iff.mp hstep
    exact hi.free hlive hfree

end Step

lemma sane_init {heapStart heapSize : ℕ} (hpos : 0 < heapStart)
    (hb : heapStart+heapSize < usizeLimit) (hinit : init heapStart heapSize = some regions) :
    regions = [⟨heapStart,heapSize⟩] ∧ Sane ⟨regions,[]⟩ := by
  obtain ⟨rfl,hlinked⟩ := addFreeRegion_linked hinit hb
  exact ⟨rfl,List.forall_mem_singleton.mpr ⟨hlinked,hpos⟩,nofun⟩

/-- In heaps below `2^63` rounding up never overflows. -/
lemma searchable_of_low {heap : Span} {h : Heap} (hi : Inv heap h) (hb : heap.stop ≤ 2^63)
    (layout : Layout) : Searchable h.regions layout := by
  rintro size align before region after hs ⟨hregions,-⟩
  have hu := hi.usable hb region (by simp [hregions])
  have hnode := hu.node
  have hbound := hu.bound
  have halign := (sizeAlign_adjusted hs).bound
  unfold usizeLimit
  unfold Span.stop nodeSize at *
  omega

/-- Allocation is first-fit and leaves the list alone when it fails, for every list a run reaches
and exactly the layouts that can be adjusted and searched for. -/
theorem linkedList_firstFit_iff {heapStart heapSize : ℕ} (hpos : 0 < heapStart)
    (hb : heapStart+heapSize < usizeLimit) (hinit : init heapStart heapSize = some regions)
    {calls : List Call} {h : Heap} (hrun : Runs.run Heap.step calls ⟨regions,[]⟩ = some h)
    (layout : Layout) :
    (FirstFit h.regions layout ↔ Adjustable layout ∧ Searchable h.regions layout) ∧
      (heapStart+heapSize ≤ 2^63 → Searchable h.regions layout) := by
  obtain ⟨hregions,hsane⟩ := sane_init hpos hb hinit
  refine ⟨?_,fun hlow => ?_⟩
  · have hsane' : Sane h := Runs.invariant_run (fun _ _ _ hi hs => hi.step hs) hsane hrun
    exact firstFit_iff hsane'.regions
  · have hlinked : Linked ⟨heapStart,heapSize⟩ := (hsane.regions _ (by simp [hregions])).1
    rw [hregions] at hrun
    have hinv : Inv ⟨heapStart,heapSize⟩ h :=
      Runs.invariant_run (fun _ _ _ hi hs => (hi.step hlow).2 _ hs)
        (inv_init hlinked.aligned hlinked.node) hrun
    exact searchable_of_low hinv hlow layout

/-- The kernel's heap, after one allocation. -/
theorem linkedList_firstFit_kernelHeap : ∃ regions h,
    init kernelHeapStart kernelHeapSize = some regions ∧
      Runs.run Heap.step [.alloc ⟨100,64,⟨6,rfl⟩,by decide⟩] ⟨regions,[]⟩ = some h ∧
      FirstFit h.regions ⟨24,8,⟨3,rfl⟩,by decide⟩ := by
  refine ⟨_,_,rfl,rfl,?_⟩
  have hinit : init kernelHeapStart kernelHeapSize = some [⟨kernelHeapStart,kernelHeapSize⟩] := rfl
  have hrun : Runs.run Heap.step [.alloc ⟨100,64,⟨6,rfl⟩,by decide⟩]
      ⟨[⟨kernelHeapStart,kernelHeapSize⟩],[]⟩ = some _ := rfl
  obtain ⟨hiff,hlow⟩ := linkedList_firstFit_iff (by decide) (by decide) hinit hrun
    ⟨24,8,⟨3,rfl⟩,by decide⟩
  exact hiff.mpr ⟨by unfold Adjustable; decide,hlow (by decide)⟩

/-- `isize::MAX` bytes cannot be padded to the alignment of a node: the allocator of the kernel's
heap panics where it has no region to offer. -/
theorem isizeMax_panics : ∃ regions, init kernelHeapStart kernelHeapSize = some regions ∧
    alloc regions ⟨2^63-1,1,⟨0,rfl⟩,by decide⟩ = none ∧
      ¬FirstFit regions ⟨2^63-1,1,⟨0,rfl⟩,by decide⟩ := by
  refine ⟨_,rfl,rfl,?_⟩
  rintro ⟨size,align,hs,-⟩
  rw [show sizeAlign ⟨2^63-1,1,⟨0,rfl⟩,by decide⟩ = none from rfl] at hs
  cases hs

end CrabOs.Allocator.LinkedList
