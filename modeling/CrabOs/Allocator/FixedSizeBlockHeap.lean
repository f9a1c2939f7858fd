import CrabOs.Allocator.FixedSizeBlock

/-! Every sequence of calls to the fixed-size-block allocator: each block the fallback heap handed
out is live or on the list of its class, once. -/
namespace CrabOs.Allocator.FixedSizeBlock
open Span

variable {F : Fallback} {heap : Span}

/-- The bytes asked for with the live allocations. -/
def liveBytes (live : List Block) : ℕ := (live.map fun b => b.layout.size).sum

/-- What callers and the fallback heap rely on. -/
structure Sound (h : Heap F) : Prop where
  apart : (h.live.map fun b => (home b).span).Pairwise Apart
  fits : ∀ b ∈ h.live, b.layout.align ∣ b.ptr ∧ b.layout.size ≤ (home b).span.size
  once : ((freeBlocks h.listHeads).map Block.ptr).Nodup
  dead : ∀ f ∈ freeBlocks h.listHeads, ∀ b ∈ h.live, f.span.Apart (home b).span ∧
    (0 < b.layout.size → f.ptr ≠ b.ptr)
  obtained : ∀ index, ∀ ptr ∈ h.listHeads index, ⟨ptr,blockLayout index⟩ ∈ h.granted
  returned : ∀ b ∈ h.live, listIndex b.layout = none → b ∈ h.granted
  requested : h.requestedBytes = liveBytes h.live

/-- Each block handed out is the home of one live allocation or on one list. -/
structure Inv (c : F.Contract heap) (h : Heap F) : Prop where
  holds : c.Holds h.fallback h.granted
  packed : Packed heap (h.granted.map Block.span)
  aligned : ∀ b ∈ h.granted, b.ptr ≠ 0 ∧ b.layout.align ∣ b.ptr
  shared : h.granted.Perm (h.live.map home++freeBlocks h.listHeads)
  requested : h.requestedBytes = liveBytes h.live

variable {c : F.Contract heap} {h h' : Heap F}

lemma inv_new (c : F.Contract heap) : Inv c (Heap.new c.start) where
  holds := c.holds_start
  packed := ⟨by simp [Heap.new],by simp [Heap.new]⟩
  aligned := by simp [Heap.new]
  shared := by simp [Heap.new,freeBlocks]
  requested := rfl

namespace Inv

lemma live_mem (hi : Inv c h) {b : Block} (hb : b ∈ h.live) : home b ∈ h.granted :=
  hi.shared.mem_iff.mpr (List.mem_append_left _ (List.mem_map_of_mem hb))

lemma free_mem (hi : Inv c h) {b : Block} (hb : b ∈ freeBlocks h.listHeads) : b ∈ h.granted :=
  hi.shared.mem_iff.mpr (List.mem_append_right _ hb)

lemma spans (hi : Inv c h) :
    Packed heap (h.live.map (fun b => (home b).span)++(freeBlocks h.listHeads).map Block.span) := by
  refine hi.packed.perm ((hi.shared.map Block.span).trans ?_)
  rw [List.map_append,List.map_map]
  rfl

/-- The live allocations fit into the heap, so their bytes can be counted. -/
lemma liveBytes_le (hi : Inv c h) : liveBytes h.live ≤ heap.size := by
  have htotal := hi.spans.total_le
  rw [total_append] at htotal
  have hle : liveBytes h.live ≤ total (h.live.map fun b => (home b).span) := by
    unfold liveBytes total
    rw [List.map_map]
    exact List.sum_le_sum fun b _ => size_le_home b
  omega

theorem sound (hi : Inv c h) : Sound h := by
  have hspans := hi.spans
  have hpos : ∀ f ∈ freeBlocks h.listHeads, 0 < f.layout.size := by
    intro f hf
    obtain ⟨index,-,hlayout⟩ := mem_freeBlocks.mp hf
    rw [hlayout]
    exact lt_of_lt_of_le (by decide) (listNodeSize_le index)
  obtain ⟨hlive,hfree,hcross⟩ := List.pairwise_append.mp hspans.apart
  constructor
  case apart => exact hlive
  case fits =>
    intro b hb
    have haligned := (hi.aligned _ (hi.live_mem hb)).2
    rw [home_ptr] at haligned
    exact ⟨(align_dvd_home b).trans haligned,size_le_home b⟩
  case once =>
    rw [List.Nodup,List.pairwise_map]
    rw [List.pairwise_map] at hfree
    refine hfree.imp_of_mem ?_
    intro a b ha hb hapart heq
    have hposa := hpos a ha
    have hposb := hpos b hb
    simp only [Apart,Span.stop,Block.span] at hapart
    omega
  case dead =>
    intro f hf b hb
    have hapart := hcross _ (List.mem_map_of_mem hb) _ (List.mem_map_of_mem hf)
    refine ⟨hapart.symm,fun hsize heq => ?_⟩
    have hposf := hpos f hf
    have hle := size_le_home b
    have hptr := home_ptr b
    simp only [Apart,Span.stop,Block.span] at hapart
    omega
  case obtained =>
    exact fun index ptr hptr => hi.free_mem (mem_freeBlocks.mpr ⟨index,hptr,rfl⟩)
  case returned =>
    intro b hb hnone
    have hmem := hi.live_mem hb
    rwa [home,hnone] at hmem
  case requested => exact hi.requested

/-- The heap after a block was found for an allocation that is not listed as live yet. -/
structure Found (c : F.Contract heap) (h : Heap F) (layout : Layout) (ptr : ℕ) (h' : Heap F) :
    Prop where
  holds : c.Holds h'.fallback h'.granted
  packed : Packed heap (h'.granted.map Block.span)
  aligned : ∀ b ∈ h'.granted, b.ptr ≠ 0 ∧ b.layout.align ∣ b.ptr
  shared : h'.granted.Perm (home ⟨ptr,layout⟩ :: (h.live.map home++freeBlocks h'.listHeads))
  live : h'.live = h.live
  requested : h'.requestedBytes = h.requestedBytes

lemma fallbackAlloc_cases (hi : Inv c h) {layout asked : Layout}
    (hhome : ∀ ptr, home ⟨ptr,layout⟩ = ⟨ptr,asked⟩) :
    (∃ fallback, h.fallbackAlloc asked = (0,{ h with fallback := fallback }) ∧
        c.Holds fallback h.granted) ∨
      ∃ ptr h', h.fallbackAlloc asked = (ptr,h') ∧ ptr ≠ 0 ∧ Found c h layout ptr h' := by
  unfold Heap.fallbackAlloc
  split
  next ptr fallback hanswer =>
    obtain ⟨hne,hdvd,hwithin,hapart,hholds⟩ := c.allocated hi.holds hanswer
    refine .inr ⟨ptr,_,rfl,hne,hholds,?_,?_,?_,rfl,rfl⟩
    · refine hi.packed.cons hwithin ?_
      intro a ha
      obtain ⟨b,hb,rfl⟩ := List.mem_map.mp ha
      exact hapart b hb
    · intro b hb
      rcases List.mem_cons.mp hb with rfl | hb
      · exact ⟨hne,hdvd⟩
      · exact hi.aligned b hb
    · rw [hhome]
      exact hi.shared.cons _
  next fallback hanswer => exact .inl ⟨fallback,rfl,c.refused hi.holds hanswer⟩

theorem takeBlock_cases (hi : Inv c h) (layout : Layout) :
    (∃ fallback, h.takeBlock layout = (0,{ h with fallback := fallback }) ∧
        c.Holds fallback h.granted) ∨
      ∃ ptr h', h.takeBlock layout = (ptr,h') ∧ ptr ≠ 0 ∧ Found c h layout ptr h' := by
  unfold Heap.takeBlock
  cases hindex : listIndex layout with
  | none => exact hi.fallbackAlloc_cases fun ptr => by simp only [home,hindex]
  | some index =>
    have hhome : ∀ ptr, home ⟨ptr,layout⟩ = ⟨ptr,blockLayout index⟩ := by
      intro ptr
      simp only [home,hindex]
    dsimp only
    cases hlist : h.listHeads index with
    | nil => exact hi.fallbackAlloc_cases hhome
    | cons node next =>
      have hpop := freeBlocks_pop hlist
      have hmem : (⟨node,blockLayout index⟩ : Block) ∈ h.granted :=
        hi.free_mem (hpop.mem_iff.mpr List.mem_cons_self)
      refine .inr ⟨node,_,rfl,(hi.aligned _ hmem).1,hi.holds,hi.packed,hi.aligned,?_,rfl,rfl⟩
      rw [hhome]
      exact (hi.shared.trans (hpop.append_left _)).trans List.perm_middle

/-- A failing allocation changes nothing, and any other adds one live allocation. -/
theorem alloc (hi : Inv c h) (hsize : heap.size < usizeLimit) (layout : Layout) :
    (∃ fallback, h.alloc layout = (0,{ h with fallback := fallback }) ∧
        h.step (.alloc layout) = some { h with fallback := fallback } ∧
        Inv c { h with fallback := fallback }) ∨
      (h.alloc layout).1 ≠ 0 ∧ ∃ h', h.step (.alloc layout) = some h' ∧ Inv c h' := by
  rcases hi.takeBlock_cases layout with ⟨fallback,htake,hholds⟩ | ⟨ptr,h₁,htake,hne,hfound⟩
  · refine .inl ⟨fallback,by simp [Heap.alloc,htake],by simp [Heap.step,Heap.alloc,htake],?_⟩
    exact ⟨hholds,hi.packed,hi.aligned,hi.shared,hi.requested⟩
  · have hnew : Inv c { h₁ with
        requestedBytes := liveBytes (⟨ptr,layout⟩ :: h.live), live := ⟨ptr,layout⟩ :: h.live } :=
      ⟨hfound.holds,hfound.packed,hfound.aligned,hfound.shared,rfl⟩
    have hbytes : (h₁.requestedBytes+layout.size) % usizeLimit =
        liveBytes (⟨ptr,layout⟩ :: h.live) := by
      have hle : liveBytes (⟨ptr,layout⟩ :: h.live) ≤ heap.size := hnew.liveBytes_le
      have hsum : liveBytes (⟨ptr,layout⟩ :: h.live) = layout.size+liveBytes h.live := by
        simp [liveBytes]
      rw [hfound.requested,hi.requested]
      rw [Nat.mod_eq_of_lt] <;> omega
    refine .inr ⟨by simp [Heap.alloc,htake,hne],_,?_,hnew⟩
    simp only [Heap.step,Heap.alloc,htake,hne,ne_eq,not_false_eq_true,if_true,hbytes,hfound.live]

/-- A block goes back to its list or to the fallback heap. -/
theorem dealloc (hi : Inv c h) (hsize : heap.size < usizeLimit) {index : ℕ} {b : Block}
    (hlive : h.live[index]? = some b) : ∃ h', h.step (.dealloc index) = some h' ∧ Inv c h' := by
  have hmem : b ∈ h.live := List.mem_of_getElem? hlive
  have hperm := perm_eraseIdx hlive
  have hbytes : (h.requestedBytes+(usizeLimit-b.layout.size)) % usizeLimit =
      liveBytes (h.live.eraseIdx index) := by
    have hle := hi.liveBytes_le
    have hfits := b.layout.fits
    have hsum : liveBytes h.live = b.layout.size+liveBytes (h.live.eraseIdx index) := by
      unfold liveBytes
      rw [(hperm.map _).sum_eq,List.map_cons,List.sum_cons]
    have hadd : h.requestedBytes+(usizeLimit-b.layout.size) =
        liveBytes (h.live.eraseIdx index)+usizeLimit := by
      rw [hi.requested]
      unfold usizeLimit at *
      omega
    rw [hadd,Nat.add_mod_right,Nat.mod_eq_of_lt (by omega)]
  have hshared : h.granted.Perm
      (home b :: ((h.live.eraseIdx index).map home++freeBlocks h.listHeads)) :=
    hi.shared.trans ((hperm.map home).append_right _)
  cases hindex : listIndex b.layout with
  | some i =>
    have hhome : home b = ⟨b.ptr,blockLayout i⟩ := by simp only [home,hindex]
    rw [hhome] at hshared
    refine ⟨{ h with
        listHeads := Function.update h.listHeads i (b.ptr :: h.listHeads i)
        requestedBytes := liveBytes (h.live.eraseIdx index)
        live := h.live.eraseIdx index },?_,hi.holds,hi.packed,hi.aligned,
      hshared.trans (List.perm_middle.symm.trans ((freeBlocks_push _ _ _).symm.append_left _)),rfl⟩
    simp only [Heap.step,hlive,Option.bind_some,Heap.dealloc,hindex,if_pos (listNodeSize_le i),
      Option.map_some,hbytes]
  | none =>
    have hhome : home b = b := by simp only [home,hindex]
    rw [hhome] at hshared
    have hgranted : b ∈ h.granted := hshared.mem_iff.mpr List.mem_cons_self
    have hne := (hi.aligned b hgranted).1
    have hrest : (h.granted.erase b).Perm
        ((h.live.eraseIdx index).map home++freeBlocks h.listHeads) := by
      have herase := hshared.erase b
      rwa [List.erase_cons_head] at herase
    refine ⟨{ h with
        fallback := F.deallocate h.fallback b.ptr b.layout
        requestedBytes := liveBytes (h.live.eraseIdx index)
        live := h.live.eraseIdx index
        granted := h.granted.erase b },?_,c.deallocated hi.holds hgranted,?_,?_,hrest,rfl⟩
    · simp only [Heap.step,hlive,Option.bind_some,Heap.dealloc,hindex,if_pos hne,Option.map_some,
        hbytes]
    · have hback := (List.perm_cons_erase hgranted).map Block.span
      exact (hi.packed.perm hback).tail
    · exact fun g hg => hi.aligned g (List.mem_of_mem_erase hg)

theorem step (hi : Inv c h) (hsize : heap.size < usizeLimit) {call : Call} :
    (h.Legal call → (h.step call).isSome) ∧ ∀ h', h.step call = some h' → Inv c h' := by
  cases call with
  | alloc layout =>
    rcases hi.alloc hsize layout with ⟨fallback,-,hstep,hi₁⟩ | ⟨-,h₁,hstep,hi₁⟩
    · exact Runs.possible_of_eq hstep hi₁
    · exact Runs.possible_of_eq hstep hi₁
  | dealloc index =>
    cases hlive : h.live[index]? with
    | none =>
      refine ⟨fun hl => ?_,fun h' hh' => ?_⟩
      · exact absurd hl (Nat.not_lt.mpr (List.getElem?_eq_none_iff.mp hlive))
      · simp [Heap.step,hlive] at hh'
    | some b =>
      obtain ⟨h₁,hstep,hi₁⟩ := hi.dealloc hsize hlive
      exact Runs.possible_of_eq hstep hi₁

end Inv

/-- Whatever is allocated and freed. -/
theorem fixedSizeBlock_sound (c : F.Contract heap) (hsize : heap.size < usizeLimit)
    (calls : List Call) {h : Heap F}
    (hr : Runs.run Heap.step calls (Heap.new c.start) = some h) :
    Sound h ∧ (∀ call, h.Legal call → (h.step call).isSome) ∧
      ∀ layout, (h.alloc layout).1 = 0 →
        ∃ fallback, h.alloc layout = (0,{ h with fallback := fallback }) := by
  have hi : Inv c h :=
    Runs.invariant_run (fun _ _ _ hi hs => (hi.step hsize).2 _ hs) (inv_new c) hr
  refine ⟨hi.sound,fun call => (hi.step hsize).1,fun layout hnull => ?_⟩
  rcases hi.alloc hsize layout with ⟨fallback,halloc,-⟩ | ⟨hne,-⟩
  · exact ⟨fallback,halloc⟩
  · exact absurd hnull hne

/-- A heap that only ever cuts blocks off its unused rest. On a fresh heap this is what first fit
does. -/
def cutting (heap : Span) : Fallback where
  State := ℕ
  allocateFirstFit next layout :=
    let ptr := roundUp next layout.align
    if ptr+layout.size ≤ heap.stop then (some ptr,ptr+layout.size) else (none,next)
  deallocate next _ _ := next

def cuttingContract (heap : Span) (hpos : 0 < heap.start) : (cutting heap).Contract heap where
  start := heap.start
  Holds next granted := heap.start ≤ next ∧ ∀ b ∈ granted, b.span.stop ≤ next
  holds_start := ⟨le_rfl,by simp⟩
  allocated := by
    rintro (next : ℕ) (next' : ℕ) granted layout ptr ⟨hlow,hgranted⟩ hanswer
    simp only [cutting] at hanswer
    split_ifs at hanswer with hfit
    · cases hanswer
      have hpad : next ≤ roundUp next layout.align := le_roundUp layout.align_pos next
      refine ⟨by omega,dvd_roundUp _ _,⟨hlow.trans hpad,hfit⟩,?_,by omega,?_⟩
      · exact fun b hb => .inr ((hgranted b hb).trans hpad)
      · intro b hb
        rcases List.mem_cons.mp hb with rfl | hb
        · exact le_rfl
        · exact (hgranted b hb).trans (hpad.trans (Nat.le_add_right _ _))
    · cases hanswer
  refused := by
    rintro (next : ℕ) (next' : ℕ) granted layout hholds hanswer
    simp only [cutting] at hanswer
    split_ifs at hanswer
    · cases hanswer
    · cases hanswer
      exact hholds
  deallocated := fun hholds _ => ⟨hholds.1,fun g hg => hholds.2 g (List.mem_of_mem_erase hg)⟩

/-- A block of the kernel's heap that is freed and taken again for a smaller layout. -/
theorem fixedSizeBlock_sound_recycled : ∃ h : Heap (cutting ⟨kernelHeapStart,kernelHeapSize⟩),
    Runs.run Heap.step [.alloc ⟨16,16,⟨4,rfl⟩,by decide⟩,.dealloc 0,.alloc ⟨10,4,⟨2,rfl⟩,by decide⟩]
        (Heap.new kernelHeapStart) = some h ∧
      h.live.map Block.ptr = [kernelHeapStart] ∧ h.requestedBytes = 10 ∧ Sound h := by
  refine ⟨_,rfl,rfl,rfl,?_⟩
  exact (fixedSizeBlock_sound (cuttingContract ⟨kernelHeapStart,kernelHeapSize⟩ (by decide))
    (by decide) [.alloc ⟨16,16,⟨4,rfl⟩,by decide⟩,.dealloc 0,.alloc ⟨10,4,⟨2,rfl⟩,by decide⟩] rfl).1

end CrabOs.Allocator.FixedSizeBlock
