import CrabOs.Allocator.FixedSizeBlockHeap

/-! How much of the fallback heap the fixed-size-block allocator keeps: blocks of a class never go
back, and a new one is asked for only when none of the class is free. -/
namespace CrabOs.Allocator.FixedSizeBlock

variable {F : Fallback} {heap : Span}

/-- The blocks that belong to a class. -/
def ofClass (index : Fin 9) (blocks : List Block) : ℕ :=
  blocks.countP fun b => listIndex b.layout = some index

/-- The bytes asked for in blocks that belong to no class. -/
def largeBytes (blocks : List Block) : ℕ :=
  liveBytes (blocks.filter fun b => listIndex b.layout = none)

/-- The bytes of the fallback heap that are handed out. -/
def heldBytes (h : Heap F) : ℕ := Span.total (h.granted.map Block.span)

lemma listIndex_blockLayout (index : Fin 9) : listIndex (blockLayout index) = some index := by
  revert index
  decide

lemma listIndex_home (b : Block) : listIndex (home b).layout = listIndex b.layout := by
  unfold home
  cases hi : listIndex b.layout with
  | none => exact hi
  | some index => exact listIndex_blockLayout index

lemma home_home (b : Block) : home (home b) = home b := by
  rw [home,listIndex_home]
  unfold home
  cases listIndex b.layout <;> rfl

lemma ofClass_home (index : Fin 9) (blocks : List Block) :
    ofClass index (blocks.map home) = ofClass index blocks := by
  unfold ofClass
  rw [List.countP_map]
  exact List.countP_congr fun b _ => by simp only [Function.comp_apply,listIndex_home]

lemma ofClass_free (index : Fin 9) (listHeads : Fin 9 → List ℕ) :
    ofClass index (freeBlocks listHeads) = (listHeads index).length := by
  have hclass : ∀ j, (((listHeads j).map fun ptr => Block.mk ptr (blockLayout j)).countP
      fun b => listIndex b.layout = some index) = if index = j then (listHeads j).length else 0 := by
    intro j
    rw [List.countP_map]
    split_ifs with hj
    · subst hj
      exact List.countP_eq_length.mpr fun ptr _ => by simp [listIndex_blockLayout]
    · refine List.countP_eq_zero.mpr fun ptr _ => ?_
      simp only [Function.comp_apply,listIndex_blockLayout,Option.some.injEq,decide_eq_true_eq]
      exact fun h => hj h.symm
  unfold ofClass freeBlocks
  rw [List.countP_flatMap,← Fin.sum_univ_def]
  simp only [Function.comp_apply,hclass]
  rw [Finset.sum_ite_eq,if_pos (Finset.mem_univ _)]

lemma ofClass_cons (index : Fin 9) (b : Block) (blocks : List Block) :
    ofClass index (b :: blocks) =
      ofClass index blocks+if listIndex b.layout = some index then 1 else 0 := by
  simp only [ofClass,List.countP_cons,decide_eq_true_eq]

/-- The sizes of blocks, class by class. -/
lemma total_home (blocks : List Block) : Span.total (blocks.map fun b => (home b).span) =
    largeBytes blocks+∑ index : Fin 9, (blockLayout index).size*ofClass index blocks := by
  induction blocks with
  | nil => simp [largeBytes,liveBytes,ofClass]
  | cons b blocks ih =>
    rw [List.map_cons,Span.total_cons,ih]
    cases hi : listIndex b.layout with
    | none =>
      have hsize : (home b).span.size = b.layout.size := by simp only [home,hi,Block.span]
      have hlarge : largeBytes (b :: blocks) = b.layout.size+largeBytes blocks := by
        simp [largeBytes,liveBytes,hi]
      simp only [hsize,hlarge,ofClass_cons,hi,reduceCtorEq,if_false,Nat.add_zero,Nat.add_assoc]
    | some j =>
      have hsize : (home b).span.size = (blockLayout j).size := by
        simp only [home,hi,Block.span]
      have hlarge : largeBytes (b :: blocks) = largeBytes blocks := by
        simp [largeBytes,hi]
      have hclass : ∀ index : Fin 9, (blockLayout index).size*ofClass index (b :: blocks) =
          (blockLayout index).size*ofClass index blocks+
            if j = index then (blockLayout index).size else 0 := by
        intro index
        rw [ofClass_cons,hi,Nat.mul_add]
        simp only [Option.some.injEq,mul_ite,mul_one,mul_zero]
      simp only [hsize,hlarge,hclass,Finset.sum_add_distrib,Finset.sum_ite_eq,
        if_pos (Finset.mem_univ j)]
      omega

namespace Inv
variable {c : F.Contract heap} {h h' : Heap F}

/-- Every block of a class that was handed out is in use or free. -/
lemma ofClass_granted (hi : Inv c h) (index : Fin 9) :
    ofClass index h.granted = ofClass index h.live+(h.listHeads index).length := by
  rw [← ofClass_free,← ofClass_home index h.live]
  unfold ofClass
  rw [hi.shared.countP_eq,List.countP_append]

lemma ofClass_le (hi : Inv c h) (index : Fin 9) :
    ofClass index h.live ≤ ofClass index h.granted :=
  (hi.ofClass_granted index).symm ▸ Nat.le_add_right _ _

lemma fallbackAlloc_ofClass (hi : Inv c h) {asked layout : Layout} {ptr : ℕ}
    (hasked : listIndex asked = listIndex layout)
    (hempty : ∀ i, listIndex layout = some i → h.listHeads i = [])
    (hcall : h.fallbackAlloc asked = (ptr,h')) (index : Fin 9) :
    ofClass index h'.granted = max (ofClass index h.granted)
      (ofClass index (if ptr ≠ 0 then ⟨ptr,layout⟩ :: h.live else h.live)) := by
  have hle := hi.ofClass_le index
  have hfree := hi.ofClass_granted index
  unfold Heap.fallbackAlloc at hcall
  split at hcall
  next fallback hanswer =>
    cases hcall
    rw [if_pos (c.allocated hi.holds hanswer).1,ofClass_cons,ofClass_cons,hasked]
    split_ifs with hclass
    · rw [hempty index hclass,List.length_nil] at hfree
      omega
    · exact (max_eq_left hle).symm
  next fallback hanswer =>
    cases hcall
    exact (max_eq_left hle).symm

/-- A class gets a block only when none is free. -/
lemma takeBlock_ofClass (hi : Inv c h) {layout : Layout} {ptr : ℕ}
    (htake : h.takeBlock layout = (ptr,h')) (index : Fin 9) :
    ofClass index h'.granted = max (ofClass index h.granted)
      (ofClass index (if ptr ≠ 0 then ⟨ptr,layout⟩ :: h.live else h.live)) := by
  unfold Heap.takeBlock at htake
  cases hindex : listIndex layout with
  | none =>
    rw [hindex] at htake
    exact hi.fallbackAlloc_ofClass rfl (fun i hi => by rw [hindex] at hi; cases hi) htake index
  | some i =>
    rw [hindex] at htake
    dsimp only at htake
    cases hlist : h.listHeads i with
    | nil =>
      rw [hlist] at htake
      refine hi.fallbackAlloc_ofClass ?_ (fun j hj => ?_) htake index
      · rw [listIndex_blockLayout,hindex]
      · rw [hindex] at hj
        cases hj
        exact hlist
    | cons node next =>
      rw [hlist] at htake
      cases htake
      have hle := hi.ofClass_le index
      have hfree := hi.ofClass_granted index
      refine (max_eq_left ?_).symm
      change _ ≤ ofClass index h.granted
      split_ifs with hnull
      · rw [ofClass_cons,hindex]
        split_ifs with hclass
        · cases hclass
          rw [hlist,List.length_cons] at hfree
          omega
        · exact hle
      · exact hle

/-- One call: a class has as many blocks as it had, or as it has in use now. -/
theorem step_ofClass (hi : Inv c h) {call : Call} (hstep : h.step call = some h')
    (index : Fin 9) :
    ofClass index h'.granted = max (ofClass index h.granted) (ofClass index h'.live) := by
  have hle := hi.ofClass_le index
  cases call with
  | alloc layout =>
    cases htake : h.takeBlock layout with
    | mk ptr h₁ =>
      have hclass := hi.takeBlock_ofClass htake index
      have hlive : h₁.live = h.live := by
        rcases hi.takeBlock_cases layout with ⟨fallback,heq,-⟩ | ⟨ptr',h₂,heq,-,hfound⟩
        · rw [htake] at heq
          cases heq
          rfl
        · rw [htake] at heq
          cases heq
          exact hfound.live
      simp only [Heap.step,Heap.alloc,htake] at hstep
      split_ifs at hstep hclass with hnull
      · cases hstep
        rw [hlive]
        exact hclass
      · cases hstep
        rw [hlive]
        exact hclass
  | dealloc place =>
    obtain ⟨b,hb,hstep⟩ := Option.bind_eq_some_iff.mp hstep
    obtain ⟨h₁,hdealloc,rfl⟩ := Option.map_eq_some_iff.mp hstep
    have hfewer : ofClass index (h.live.eraseIdx place) ≤ ofClass index h.live :=
      (List.eraseIdx_sublist _ _).countP_le
    obtain ⟨hlive,hgranted⟩ : h₁.live = h.live ∧
        ofClass index h₁.granted = ofClass index h.granted := by
      simp only [Heap.dealloc] at hdealloc
      split at hdealloc
      next i hi' =>
        split_ifs at hdealloc
        cases hdealloc
        exact ⟨rfl,rfl⟩
      next hnone =>
        split_ifs at hdealloc
        cases hdealloc
        have hmem : (⟨b.ptr,b.layout⟩ : Block) ∈ h.granted := by
          have hhome := hi.live_mem (List.mem_of_getElem? hb)
          rwa [home,hnone] at hhome
        have hperm := (List.perm_cons_erase hmem).countP_eq
          fun b => listIndex b.layout = some index
        refine ⟨rfl,?_⟩
        unfold ofClass
        rw [hperm,List.countP_cons,hnone]
        rfl
    dsimp only
    rw [hlive,hgranted]
    exact (max_eq_left (hfewer.trans hle)).symm

/-- Blocks of no class are held only while they are in use. -/
lemma heldBytes_eq (hi : Inv c h) : heldBytes h =
    largeBytes h.live+∑ index : Fin 9, (blockLayout index).size*ofClass index h.granted := by
  have hhome : h.granted.map (fun b => (home b).span) = h.granted.map Block.span := by
    refine List.map_congr_left fun b hb => congrArg Block.span ?_
    rcases List.mem_append.mp (hi.shared.mem_iff.mp hb) with hlive | hfree
    · obtain ⟨b,-,rfl⟩ := List.mem_map.mp hlive
      exact home_home b
    · obtain ⟨index,-,hlayout⟩ := mem_freeBlocks.mp hfree
      have hindex : listIndex b.layout = some index := by rw [hlayout,listIndex_blockLayout]
      unfold home
      rw [hindex]
      dsimp only
      rw [← hlayout]
  have hlarge : largeBytes h.granted = largeBytes h.live := by
    have hfree : (freeBlocks h.listHeads).filter (fun b => listIndex b.layout = none) = [] := by
      refine List.filter_eq_nil_iff.mpr fun b hb => ?_
      obtain ⟨index,-,hlayout⟩ := mem_freeBlocks.mp hb
      rw [hlayout,listIndex_blockLayout]
      simp
    have hlive : ∀ blocks : List Block,
        liveBytes ((blocks.map home).filter fun b => listIndex b.layout = none) =
          liveBytes (blocks.filter fun b => listIndex b.layout = none) := by
      intro blocks
      rw [List.filter_map]
      simp only [Function.comp_def,listIndex_home]
      unfold liveBytes
      rw [List.map_map]
      refine congrArg List.sum (List.map_congr_left fun b hb => ?_)
      have hnone := of_decide_eq_true (List.mem_filter.mp hb).2
      simp only [Function.comp_apply,home,hnone]
    have hperm := ((hi.shared.filter fun b => listIndex b.layout = none).map
      fun b => b.layout.size).sum_eq
    rw [List.filter_append,hfree,List.append_nil] at hperm
    exact hperm.trans (hlive h.live)
  unfold heldBytes
  rw [← hhome,total_home,hlarge]

end Inv

/-- What the allocator holds of the fallback heap after any calls: the live allocations of no class,
and for each class as many blocks as were in use at one time. -/
theorem fixedSizeBlock_held (c : F.Contract heap) (hsize : heap.size < usizeLimit)
    {calls : List Call} {h : Heap F}
    (hr : Runs.run Heap.step calls (Heap.new c.start) = some h) :
    heldBytes h = largeBytes h.live+∑ index : Fin 9,
      blockSizes[index]*Runs.peak Heap.step (fun h => ofClass index h.live) calls (.new c.start) := by
  have hstep : ∀ (h : Heap F) call h', Inv c h → h.step call = some h' → Inv c h' :=
    fun _ _ _ hi hs => (hi.step hsize).2 _ hs
  have hi : Inv c h := Runs.invariant_run hstep (inv_new c) hr
  have hpeak : ∀ index, ofClass index h.granted =
      Runs.peak Heap.step (fun h => ofClass index h.live) calls (.new c.start) := by
    intro index
    have hmax := Runs.eq_peak (f := fun h : Heap F => ofClass index h.live)
      (fun _ _ _ hi hs => ⟨hstep _ _ _ hi hs,hi.step_ofClass hs index⟩)
      (fun _ hi => hi.ofClass_le index) (inv_new c) hr
    rwa [show ofClass index (Heap.new c.start).granted = 0 from rfl,Nat.zero_max] at hmax
  rw [hi.heldBytes_eq]
  simp only [hpeak,blockLayout]

/-- Two blocks of one class, both given back, and one taken again. -/
def twiceFreed : List Call :=
  [.alloc ⟨16,16,⟨4,rfl⟩,by decide⟩,.alloc ⟨10,4,⟨2,rfl⟩,by decide⟩,.dealloc 0,.dealloc 0,
    .alloc ⟨12,4,⟨2,rfl⟩,by decide⟩,.dealloc 0]

theorem fixedSizeBlock_held_twiceFreed :
    ∃ h : Heap (cutting ⟨kernelHeapStart,kernelHeapSize⟩),
      Runs.run Heap.step twiceFreed (.new kernelHeapStart) = some h ∧ h.live = [] ∧
        heldBytes h = 2*16 := by
  obtain ⟨h,hr,hlive⟩ : ∃ h : Heap (cutting ⟨kernelHeapStart,kernelHeapSize⟩),
      Runs.run Heap.step twiceFreed (.new kernelHeapStart) = some h ∧ h.live = [] := ⟨_,rfl,rfl⟩
  refine ⟨h,hr,hlive,?_⟩
  rw [fixedSizeBlock_held (cuttingContract ⟨kernelHeapStart,kernelHeapSize⟩ (by decide))
    (by decide) hr,hlive]
  rfl

end CrabOs.Allocator.FixedSizeBlock
