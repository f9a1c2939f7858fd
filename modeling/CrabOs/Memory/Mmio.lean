import CrabOs.Memory.BootFrames

/-! Mapping the registers of a device: `map_mmio` maps exactly the pages its bytes lie in. -/
namespace CrabOs.Memory
open Allocator (checkedAdd checkedSub checkedMul)

inductive PageTableFlag
  | present
  | writable
  | noCache
  | writeThrough
  deriving DecidableEq

/-- What `map_mmio` uses of `x86_64`: arithmetic on addresses, which may panic, and a mapper with its
frame allocator. Pages and frames are named by their numbers. -/
structure Paging (σ ε : Type) where
  alignDown : ℕ → ℕ → ℕ
  physAdd : ℕ → ℕ → Option ℕ
  virtAdd : ℕ → ℕ → Option ℕ
  mapTo : σ → ℕ → ℕ → List PageTableFlag → Except ε Unit × σ
  entry : σ → ℕ → Option ℕ

/-- As `x86_64` documents it: what is returned is the sum, and `map_to` maps a page that was not
mapped and changes nothing else. -/
structure Paging.Documented {σ ε : Type} (p : Paging σ ε) : Prop where
  alignDown : ∀ addr, p.alignDown addr frameSize = addr/frameSize*frameSize
  physAdd : ∀ addr distance sum, p.physAdd addr distance = some sum → sum = addr+distance
  virtAdd : ∀ addr distance sum, p.virtAdd addr distance = some sum → sum = addr+distance
  mapTo : ∀ s page frame flags s', p.mapTo s page frame flags = (.ok (),s') →
    p.entry s page = none ∧ p.entry s' = Function.update (p.entry s) page (some frame)

def virtualStart : ℕ := 0x555500000000

def mmioFlags : List PageTableFlag := [.present,.writable,.noCache,.writeThrough]

section
variable {σ ε : Type} (p : Paging σ ε)

/-- The loop over the pages from `index` on, with how many are left. -/
def mapPages (physicalPage : ℕ) : ℕ → ℕ → σ → Option (Except ε Unit × σ)
  | _,0,s => some (.ok (),s)
  | index,n+1,s => do
    let distance ← checkedMul index frameSize
    let page ← p.virtAdd virtualStart distance
    let frame ← p.physAdd physicalPage distance
    match p.mapTo s (containingAddress page) (containingAddress frame) mmioFlags with
    | (.error e,s) => return (.error e,s)
    | (.ok (),s) => mapPages physicalPage (index+1) n s

def mapMmio (physicalStart length : ℕ) (s : σ) : Option (Except ε ℕ × σ) := do
  let physicalPage := p.alignDown physicalStart frameSize
  let offset ← checkedSub physicalStart physicalPage
  let bytes ← checkedAdd offset length
  let pageCount := (bytes+frameSize-1)/frameSize
  match ← mapPages p physicalPage 0 pageCount s with
  | (.error e,s) => return (.error e,s)
  | (.ok (),s) =>
    let mapped ← p.virtAdd virtualStart offset
    return (.ok mapped,s)

end

section Pages
variable {σ ε : Type} {p : Paging σ ε} (h : p.Documented) {physicalPage : ℕ}
include h

/-- Pages in a row are mapped to frames in a row. -/
lemma mapPages_entry {index n : ℕ} {s s' : σ}
    (hmap : mapPages p physicalPage index n s = some (.ok (),s')) (page : ℕ) :
    p.entry s' page =
      if containingAddress virtualStart+index ≤ page ∧
          page < containingAddress virtualStart+index+n then
        some (containingAddress physicalPage+(page-containingAddress virtualStart))
      else p.entry s page := by
  induction n generalizing index s with
  | zero =>
    cases hmap
    rw [if_neg (by omega)]
  | succ n ih =>
    obtain ⟨distance,hdistance,hmap⟩ := Option.bind_eq_some_iff.mp hmap
    obtain ⟨virt,hvirt,hmap⟩ := Option.bind_eq_some_iff.mp hmap
    obtain ⟨phys,hphys,hmap⟩ := Option.bind_eq_some_iff.mp hmap
    obtain ⟨⟨answer,t⟩,hstep⟩ : ∃ r, p.mapTo s (containingAddress virt) (containingAddress phys)
        mmioFlags = r := ⟨_,rfl⟩
    simp only [hstep] at hmap
    cases answer with
    | error e =>
      cases hmap
    | ok _ =>
      obtain ⟨-,hentry⟩ := h.mapTo _ _ _ _ _ hstep
      have hnumber : containingAddress virt = containingAddress virtualStart+index ∧
          containingAddress phys = containingAddress physicalPage+index := by
        unfold checkedMul at hdistance
        split_ifs at hdistance
        rw [h.virtAdd _ _ _ hvirt,h.physAdd _ _ _ hphys,← Option.some.inj hdistance]
        unfold containingAddress
        constructor
        · exact Nat.add_mul_div_right _ _ (by decide)
        · exact Nat.add_mul_div_right _ _ (by decide)
      rw [ih hmap,hentry,hnumber.1,hnumber.2]
      by_cases hfirst : page = containingAddress virtualStart+index
      · rw [if_neg (by omega),if_pos (by omega),hfirst,Function.update_self,Nat.add_sub_cancel_left]
      · rw [Function.update_of_ne hfirst]
        exact if_congr (by omega) rfl rfl

/-- What has happened when `map_mmio` succeeds. -/
lemma mapMmio_ok {physicalStart length : ℕ} {s s' : σ} {mapped : ℕ}
    (hmap : mapMmio p physicalStart length s = some (.ok mapped,s')) :
    mapped = virtualStart+physicalStart % frameSize ∧
      mapPages p (physicalStart/frameSize*frameSize) 0
        ((physicalStart % frameSize+length+frameSize-1)/frameSize) s = some (.ok (),s') := by
  obtain ⟨offset,hoffset,hmap⟩ := Option.bind_eq_some_iff.mp hmap
  obtain ⟨bytes,hbytes,hmap⟩ := Option.bind_eq_some_iff.mp hmap
  obtain ⟨⟨answer,t⟩,hpages,hmap⟩ := Option.bind_eq_some_iff.mp hmap
  cases answer with
  | error e => cases hmap
  | ok _ =>
    obtain ⟨sum,hsum,hmap⟩ := Option.bind_eq_some_iff.mp hmap
    cases hmap
    rw [h.alignDown] at hoffset hpages
    unfold checkedSub at hoffset
    unfold checkedAdd at hbytes
    split_ifs at hoffset hbytes
    have hrest : physicalStart-physicalStart/frameSize*frameSize = physicalStart % frameSize := by
      rw [Nat.mul_comm]
      exact (Nat.mod_eq_sub_mul_div).symm
    rw [hrest] at hoffset
    obtain rfl := Option.some.inj hoffset
    obtain rfl := Option.some.inj hbytes
    exact ⟨h.virtAdd _ _ _ hsum,hpages⟩

omit h in
/-- The pages of the window are those its bytes lie in. -/
lemma window_pages {start length page : ℕ} (hlength : 1 ≤ length) :
    (start/frameSize ≤ page ∧
        page < start/frameSize+(start % frameSize+length+frameSize-1)/frameSize) ↔
      ∃ k < length, page = containingAddress (start+k) := by
  unfold containingAddress frameSize
  constructor
  · rintro ⟨hlow,hhigh⟩
    exact ⟨page*4096-start,by omega,by omega⟩
  · rintro ⟨k,hk,rfl⟩
    omega

end Pages

/-- When `map_mmio` succeeds, each byte of the window is mapped at the same place of its page, and no
page without such a byte has been mapped. -/
theorem mmio_window_mapped {σ ε : Type} {p : Paging σ ε} (h : p.Documented)
    {physicalStart length : ℕ} (hlength : 1 ≤ length) {s s' : σ} {mapped : ℕ}
    (hmap : mapMmio p physicalStart length s = some (.ok mapped,s')) :
    (∀ k < length,
        p.entry s' (containingAddress (mapped+k)) = some (containingAddress (physicalStart+k)) ∧
          (mapped+k) % frameSize = (physicalStart+k) % frameSize) ∧
      ∀ page, (∀ k < length, page ≠ containingAddress (mapped+k)) →
        p.entry s' page = p.entry s page := by
  obtain ⟨rfl,hpages⟩ := mapMmio_ok h hmap
  have hentry := mapPages_entry h hpages
  have hstart : containingAddress virtualStart =
        (virtualStart+physicalStart % frameSize)/frameSize ∧
      physicalStart % frameSize = (virtualStart+physicalStart % frameSize) % frameSize := by
    unfold containingAddress virtualStart frameSize
    omega
  have hwindow : ∀ page, (containingAddress virtualStart+0 ≤ page ∧
      page < containingAddress virtualStart+0+
        (physicalStart % frameSize+length+frameSize-1)/frameSize) ↔
      ∃ k < length, page = containingAddress (virtualStart+physicalStart % frameSize+k) := by
    intro page
    rw [← window_pages hlength,← hstart.1,← hstart.2,Nat.add_zero]
  refine ⟨fun k hk => ⟨?_,?_⟩,fun page hpage => ?_⟩
  · rw [hentry,if_pos ((hwindow _).mpr ⟨k,hk,rfl⟩)]
    unfold containingAddress virtualStart frameSize
    rw [Option.some.injEq]
    omega
  · unfold virtualStart frameSize
    omega
  · rw [hentry,if_neg]
    rw [hwindow]
    rintro ⟨k,hk,rfl⟩
    exact hpage k hk rfl

/-- Page tables as a function, and the addresses of `x86_64`. -/
def plainPaging : Paging (ℕ → Option ℕ) String where
  alignDown addr align := addr/align*align
  physAdd addr distance := BootInfoFrameAllocator.physAddr52 (addr+distance)
  virtAdd addr distance := if addr+distance < 2^47 then some (addr+distance) else none
  mapTo entries page frame _ :=
    if (entries page).isSome then (.error "PageAlreadyMapped",entries)
    else (.ok (),Function.update entries page (some frame))
  entry entries := entries

lemma plainPaging_documented : plainPaging.Documented where
  alignDown _ := rfl
  physAdd addr distance sum hsum := by
    simp only [plainPaging,BootInfoFrameAllocator.physAddr52] at hsum
    split_ifs at hsum
    exact (Option.some.inj hsum).symm
  virtAdd addr distance sum hsum := by
    simp only [plainPaging] at hsum
    split_ifs at hsum
    exact (Option.some.inj hsum).symm
  mapTo entries page frame flags entries' hmap := by
    simp only [plainPaging] at hmap ⊢
    split_ifs at hmap with hmapped
    · cases hmap
    · cases hmap
      exact ⟨Option.not_isSome_iff_eq_none.mp hmapped,rfl⟩

/-- Sixteen bytes around the end of a page take two pages. -/
theorem mmio_window_mapped_two_pages : ∃ mapped entries,
    mapMmio plainPaging 0xfebc0ff8 16 (fun _ => none) = some (.ok mapped,entries) ∧
      (∀ k < 16, entries (containingAddress (mapped+k)) =
          some (containingAddress (0xfebc0ff8+k)) ∧
        (mapped+k) % frameSize = (0xfebc0ff8+k) % frameSize) ∧
      ∀ page, (∀ k < 16, page ≠ containingAddress (mapped+k)) → entries page = none := by
  have hmap : mapMmio plainPaging 0xfebc0ff8 16 (fun _ => none) =
      some (.ok 0x555500000ff8,Function.update (Function.update (fun _ => none)
        0x555500000 (some 0xfebc0)) 0x555500001 (some 0xfebc1)) := by
    simp [mapMmio,plainPaging,mapPages,checkedSub,checkedAdd,checkedMul,Allocator.usizeLimit,
      containingAddress,frameSize,virtualStart,BootInfoFrameAllocator.physAddr52]
  exact ⟨_,_,hmap,mmio_window_mapped plainPaging_documented (by decide) hmap⟩

end CrabOs.Memory
