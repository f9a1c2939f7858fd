import CrabOs.Allocator.Layout
import CrabOs.Foundations.Runs

/-! The linked-list allocator: a list of free regions, each with its node at its start. -/
namespace CrabOs.Allocator

/-- `size_of::<ListNode>()`. -/
def nodeSize : ℕ := 16

/-- `align_of::<ListNode>()` is `2^nodeAlign`. -/
def nodeAlign : ℕ := 3

namespace LinkedList

/-- `size_align`; its `expect` fails when the size does not fit the alignment of a node. -/
def sizeAlign (layout : Layout) : Option (ℕ × ℕ) :=
  (layout.alignTo nodeAlign).map fun raised => (max raised.paddedSize nodeSize,raised.align)

/-- `ListNode::end_addr`. -/
def endAddr (region : Span) : Option ℕ := checkedAdd region.start region.size

/-- Put a region in front of the list; its two assertions are checked first. -/
def addFreeRegion (regions : List Span) (addr size : ℕ) : Option (List Span) := do
  let aligned ← alignUp addr (2^nodeAlign)
  if aligned = addr ∧ nodeSize ≤ size then some (⟨addr,size⟩ :: regions) else none

def init (heapStart heapSize : ℕ) : Option (List Span) := addFreeRegion [] heapStart heapSize

/-- Where the block would start in this region; `some none` is `Err`, `none` a panic. -/
def allocFromRegion (region : Span) (size align : ℕ) : Option (Option ℕ) := do
  let allocStart ← alignUp region.start align
  match checkedAdd allocStart size with
  | none => some none
  | some allocEnd => do
    let stop ← endAddr region
    if stop < allocEnd then some none
    else
      let excess ← checkedSub stop allocEnd
      if 0 < excess ∧ excess < nodeSize then some none else some (some allocStart)

/-- `alloc_from_region` answers `Ok`. -/
def accepts (size align : ℕ) (region : Span) : Bool :=
  ((allocFromRegion region size align).bind fun answer => answer).isSome

/-- Unlink the first region that has room, and say where the block starts in it. -/
def findRegion (size align : ℕ) : List Span → Option (Option (Span × ℕ) × List Span)
  | [] => some (none,[])
  | region :: rest => do
    match ← allocFromRegion region size align with
    | some allocStart => return (some (region,allocStart),rest)
    | none =>
      let (found,rest) ← findRegion size align rest
      return (found,region :: rest)

/-- The answer `none` is a null pointer. -/
def alloc (regions : List Span) (layout : Layout) : Option (Option ℕ × List Span) := do
  let (size,align) ← sizeAlign layout
  match ← findRegion size align regions with
  | (none,regions) => return (none,regions)
  | (some (region,allocStart),regions) =>
    let allocEnd ← checkedAdd allocStart size
    let stop ← endAddr region
    let excess ← checkedSub stop allocEnd
    if 0 < excess then
      let regions ← addFreeRegion regions allocEnd excess
      return (some allocStart,regions)
    else return (some allocStart,regions)

def dealloc (regions : List Span) (ptr : ℕ) (layout : Layout) : Option (List Span) := do
  let (size,_) ← sizeAlign layout
  addFreeRegion regions ptr size

/-- The addresses an allocation takes. -/
def taken (block : Block) : Span := ⟨block.ptr,((sizeAlign block.layout).map Prod.fst).getD 0⟩

/-- The free list and, as a record of what was handed out, the live allocations. -/
structure Heap where
  regions : List Span
  live : List Block

inductive Call
  | alloc (layout : Layout)
  | dealloc (index : ℕ)

namespace Heap

/-- `none` is a panic, or a call that no caller may make. A deallocation names a live allocation by
its place and passes its own pointer and layout. -/
def step (h : Heap) : Call → Option Heap
  | .alloc layout => (alloc h.regions layout).map fun
    | (some ptr,regions) => ⟨regions,⟨ptr,layout⟩ :: h.live⟩
    | (none,regions) => ⟨regions,h.live⟩
  | .dealloc index => (h.live[index]?).bind fun block =>
    (dealloc h.regions block.ptr block.layout).map fun regions => ⟨regions,h.live.eraseIdx index⟩

/-- What a caller may ask for: a layout that `size_align` accepts, or a live allocation. -/
def Legal (h : Heap) : Call → Prop
  | .alloc layout => (sizeAlign layout).isSome
  | .dealloc index => index < h.live.length

end Heap
/-! ### What each function does -/

/-- What `size_align` makes of a layout. -/
structure Adjusted (layout : Layout) (size align : ℕ) : Prop where
  covers : layout.size ≤ size
  node : nodeSize ≤ size
  step : 2^nodeAlign ∣ size
  raised : 2^nodeAlign ∣ align
  aligned : layout.align ∣ align
  power : ∃ k, align = 2^k
  bound : align ≤ 2^63

lemma dvd_of_power {a b : ℕ} (ha : ∃ k, a = 2^k) (hb : ∃ k, b = 2^k) (h : a ≤ b) : a ∣ b := by
  obtain ⟨j,rfl⟩ := ha
  obtain ⟨k,rfl⟩ := hb
  exact Nat.pow_dvd_pow 2 ((Nat.pow_le_pow_iff_right Nat.one_lt_two).mp h)

lemma sizeAlign_adjusted {layout : Layout} {size align : ℕ}
    (h : sizeAlign layout = some (size,align)) : Adjusted layout size align := by
  obtain ⟨raised,hr,he⟩ := Option.map_eq_some_iff.mp h
  cases he
  have hsize : raised.size = layout.size ∧ raised.align = max layout.align (2^nodeAlign) := by
    unfold Layout.alignTo at hr
    split_ifs at hr
    cases hr
    exact ⟨rfl,rfl⟩
  have hnode : 2^nodeAlign ∣ raised.align :=
    dvd_of_power ⟨nodeAlign,rfl⟩ raised.power (by rw [hsize.2]; exact le_max_right _ _)
  have hpadded := raised.size_le_paddedSize
  have hfits := raised.fits
  constructor
  case covers => exact le_trans (hsize.1 ▸ hpadded) (le_max_left _ _)
  case node => exact le_max_right _ _
  case step =>
    rcases max_choice raised.paddedSize nodeSize with hmax | hmax
    · rw [hmax]
      exact hnode.trans raised.dvd_paddedSize
    · rw [hmax]
      decide
  case raised => exact hnode
  case aligned =>
    exact dvd_of_power layout.power raised.power (by rw [hsize.2]; exact le_max_left _ _)
  case power => exact raised.power
  case bound => omega

/-- The regions of a heap whose addresses are below `2^63`. -/
structure Usable (region : Span) : Prop where
  aligned : 2^nodeAlign ∣ region.start
  node : nodeSize ≤ region.size
  bound : region.stop ≤ 2^63

/-- The block taken from a region: it starts aligned, lies inside, and what is left behind it is
nothing or can hold a node. -/
structure Carved (region : Span) (size align start : ℕ) : Prop where
  low : region.start ≤ start
  aligned : align ∣ start
  high : start+size ≤ region.stop
  rest : start+size = region.stop ∨ nodeSize ≤ region.stop-(start+size)
  padding : start = region.start ↔ align ∣ region.start

variable {layout : Layout} {region : Span} {regions : List Span} {size align addr : ℕ}

/-- A region that can be in the list. -/
structure Linked (region : Span) : Prop where
  aligned : 2^nodeAlign ∣ region.start
  node : nodeSize ≤ region.size
  bound : region.stop < usizeLimit

lemma Usable.linked (h : Usable region) : Linked region :=
  ⟨h.aligned,h.node,lt_of_le_of_lt h.bound (by decide)⟩

lemma endAddr_eq (h : Linked region) : endAddr region = some region.stop := if_pos h.bound

lemma addFreeRegion_eq (hd : 2^nodeAlign ∣ addr) (hs : nodeSize ≤ size)
    (hb : addr+size < usizeLimit) (regions : List Span) :
    addFreeRegion regions addr size = some (⟨addr,size⟩ :: regions) := by
  have hlimit : addr+2^nodeAlign < usizeLimit := by
    unfold nodeSize at hs
    unfold nodeAlign
    omega
  obtain ⟨start,hup,-,-,-,hsame⟩ := alignUp_eq ⟨nodeAlign,rfl⟩ hlimit
  simp only [addFreeRegion,hup,Option.bind_eq_bind,Option.bind_some]
  exact if_pos ⟨hsame.mpr hd,hs⟩

lemma allocFromRegion_cases (hr : Linked region) (ha : Adjusted layout size align)
    (hlimit : region.start+align < usizeLimit) :
    allocFromRegion region size align = some none ∨
      ∃ start, allocFromRegion region size align = some (some start) ∧
        Carved region size align start := by
  obtain ⟨start,hup,hlow,-,hdvd,hsame⟩ := alignUp_eq ha.power hlimit
  simp only [allocFromRegion,hup,Option.bind_eq_bind,Option.bind_some,endAddr_eq hr]
  unfold checkedAdd
  split_ifs with hfit
  · dsimp only
    rcases Nat.lt_or_ge region.stop (start+size) with hout | hin
    · exact .inl (if_pos hout)
    · rw [if_neg (Nat.not_lt.mpr hin)]
      simp only [checkedSub,if_pos hin,Option.bind_some]
      split_ifs with hexcess
      · exact .inl rfl
      · exact .inr ⟨start,rfl,⟨hlow,hdvd,hin,by omega,hsame⟩⟩
  · exact .inl rfl

/-- Rounding the start of the region up overflows. -/
lemma allocFromRegion_overflow (h : usizeLimit ≤ region.start+align) :
    allocFromRegion region size align = none := by
  simp [allocFromRegion,alignUp,checkedAdd,Nat.not_lt.mpr h]

/-- The search gets as far as the region: every region before it is rejected. -/
def Reaches (size align : ℕ) (regions before : List Span) (region : Span) (after : List Span) : Prop :=
  regions = before++region :: after ∧ ∀ r ∈ before, allocFromRegion r size align = some none

lemma Reaches.cons {before after rest : List Span} {r : Span}
    (h : Reaches size align rest before region after)
    (hr : allocFromRegion r size align = some none) :
    Reaches size align (r :: rest) (r :: before) region after := by
  obtain ⟨rfl,hbefore⟩ := h
  exact ⟨rfl,List.forall_mem_cons.mpr ⟨hr,hbefore⟩⟩

/-- Exactly the first region that is accepted is taken out. -/
lemma findRegion_cases (hr : ∀ r ∈ regions, Linked r) (ha : Adjusted layout size align) :
    (∀ r ∈ regions, allocFromRegion r size align = some none) ∧
        findRegion size align regions = some (none,regions) ∨
      (∃ before region after start, Reaches size align regions before region after ∧
        allocFromRegion region size align = some (some start) ∧ Carved region size align start ∧
        findRegion size align regions = some (some (region,start),before++after)) ∨
      ∃ before region after, Reaches size align regions before region after ∧
        usizeLimit ≤ region.start+align ∧ findRegion size align regions = none := by
  induction regions with
  | nil => exact .inl ⟨nofun,rfl⟩
  | cons r rest ih =>
    have hlinked : Linked r := hr r List.mem_cons_self
    rcases Nat.lt_or_ge (r.start+align) usizeLimit with hlimit | hover
    · rcases allocFromRegion_cases hlinked ha hlimit with hno | ⟨start,hyes,hcarved⟩
      · rcases ih (fun r' hr' => hr r' (List.mem_cons_of_mem r hr')) with ⟨hall,hrest⟩ |
          ⟨before,region,after,start,hreach,hyes,hcarved,hrest⟩ |
          ⟨before,region,after,hreach,hover,hrest⟩
        · exact .inl ⟨List.forall_mem_cons.mpr ⟨hno,hall⟩,by simp [findRegion,hno,hrest]⟩
        · exact .inr (.inl ⟨r :: before,region,after,start,hreach.cons hno,hyes,hcarved,
            by simp [findRegion,hno,hrest]⟩)
        · exact .inr (.inr ⟨r :: before,region,after,hreach.cons hno,hover,
            by simp [findRegion,hno,hrest]⟩)
      · exact .inr (.inl ⟨[],r,rest,start,⟨rfl,nofun⟩,hyes,hcarved,by simp [findRegion,hyes]⟩)
    · exact .inr (.inr ⟨[],r,rest,⟨rfl,nofun⟩,hover,
        by simp [findRegion,allocFromRegion_overflow hover]⟩)

/-- The tail of the region goes back in front of the list, if there is one. -/
def tail (region : Span) (stop : ℕ) : List Span :=
  if stop < region.stop then [⟨stop,region.stop-stop⟩] else []

/-- All that an allocation can do once its layout is adjusted. -/
lemma alloc_outcomes (hr : ∀ r ∈ regions, Linked r) (hs : sizeAlign layout = some (size,align)) :
    (∀ r ∈ regions, allocFromRegion r size align = some none) ∧
        alloc regions layout = some (none,regions) ∨
      (∃ before region after start, Reaches size align regions before region after ∧
        allocFromRegion region size align = some (some start) ∧ Carved region size align start ∧
        alloc regions layout =
          some (some start,tail region (start+size)++(before++after))) ∨
      ∃ before region after, Reaches size align regions before region after ∧
        usizeLimit ≤ region.start+align ∧ alloc regions layout = none := by
  have ha := sizeAlign_adjusted hs
  rcases findRegion_cases hr ha with ⟨hall,hnone⟩ |
    ⟨before,region,after,start,hreach,hyes,hcarved,hfound⟩ | ⟨before,region,after,hreach,hover,hpanic⟩
  · exact .inl ⟨hall,by simp [alloc,hs,hnone]⟩
  · refine .inr (.inl ⟨before,region,after,start,hreach,hyes,hcarved,?_⟩)
    have hlinked : Linked region := hr region (by simp [hreach.1])
    have hbound := hlinked.bound
    have hhigh := hcarved.high
    have hsum : checkedAdd start size = some (start+size) := if_pos (by omega)
    have hsub : checkedSub region.stop (start+size) = some (region.stop-(start+size)) := if_pos hhigh
    simp only [alloc,hs,hfound,hsum,hsub,endAddr_eq hlinked,Option.bind_eq_bind,Option.bind_some]
    unfold tail
    by_cases hexcess : 0 < region.stop-(start+size)
    · have hdvd : 2^nodeAlign ∣ start+size :=
        Nat.dvd_add (ha.raised.trans hcarved.aligned) ha.step
      have hrest := hcarved.rest
      rw [if_pos hexcess,if_pos (by omega),
        addFreeRegion_eq hdvd (by omega) (by omega)]
      rfl
    · rw [if_neg hexcess,if_neg (by omega)]
      rfl
  · exact .inr (.inr ⟨before,region,after,hreach,hover,by simp [alloc,hs,hpanic]⟩)

lemma accepts_of_none {r : Span} (h : allocFromRegion r size align = some none) :
    ¬accepts size align r := by simp [accepts,h]

lemma accepts_of_some {r : Span} {start : ℕ}
    (h : allocFromRegion r size align = some (some start)) : accepts size align r := by
  simp [accepts,h]

/-- In a heap below `2^63` nothing overflows. -/
theorem alloc_cases (hr : ∀ r ∈ regions, Usable r) (hs : sizeAlign layout = some (size,align)) :
    regions.find? (accepts size align) = none ∧ alloc regions layout = some (none,regions) ∨
      ∃ before region after start, regions = before++region :: after ∧
        regions.find? (accepts size align) = some region ∧ Carved region size align start ∧
        alloc regions layout =
          some (some start,tail region (start+size)++(before++after)) := by
  have ha := sizeAlign_adjusted hs
  rcases alloc_outcomes (fun r hmem => (hr r hmem).linked) hs with ⟨hall,hnull⟩ |
    ⟨before,region,after,start,⟨hregions,hbefore⟩,hyes,hcarved,halloc⟩ |
    ⟨before,region,after,⟨hregions,-⟩,hover,-⟩
  · exact .inl ⟨List.find?_eq_none.mpr fun r hmem => accepts_of_none (hall r hmem),hnull⟩
  · refine .inr ⟨before,region,after,start,hregions,?_,hcarved,halloc⟩
    have hskipped : before.find? (accepts size align) = none :=
      List.find?_eq_none.mpr fun r hmem => accepts_of_none (hbefore r hmem)
    rw [hregions,List.find?_append,hskipped,Option.none_or,
      List.find?_cons_of_pos (accepts_of_some hyes)]
  · have hu := hr region (by simp [hregions])
    have hnode := hu.node
    have hbound := hu.bound
    have halign := ha.bound
    unfold usizeLimit at hover
    unfold Span.stop nodeSize at *
    omega

end LinkedList
end CrabOs.Allocator
