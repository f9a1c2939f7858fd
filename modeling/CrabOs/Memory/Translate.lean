import CrabOs.Memory.BootFrames

/-! The walk through the page tables from a virtual to a physical address. -/
namespace CrabOs.Memory

inductive FrameError
  | frameNotPresent
  | hugeFrame

/-- The entries of the tables, by the frame a table lies in and the index. -/
abbrev PageTables := ℕ → ℕ → UInt64

/-- `PageTableEntry::frame`. -/
def entryFrame (entry : UInt64) : Except FrameError ℕ :=
  if entry &&& 1 = 0 then .error .frameNotPresent
  else if entry &&& 0x80 ≠ 0 then .error .hugeFrame
  else .ok (containingAddress (entry &&& 0x000ffffffffff000).toNat)

/-- `p4_index` down to `p1_index`. -/
def tableIndexes (addr : ℕ) : List ℕ :=
  [addr/2^39 % 512,addr/2^30 % 512,addr/2^21 % 512,addr/2^12 % 512]

/-- The loop over the indexes; a huge page is a panic. -/
def walk (tables : PageTables) : List ℕ → ℕ → Option (Option ℕ)
  | [],frame => some (some frame)
  | index :: indexes,frame => match entryFrame (tables frame index) with
    | .ok next => walk tables indexes next
    | .error .frameNotPresent => some none
    | .error .hugeFrame => none

/-- `translate_addr` with the frame of the level 4 table from `CR3`. -/
def translateAddr (tables : PageTables) (level4TableFrame addr : ℕ) : Option (Option ℕ) := do
  let frame ← walk tables (tableIndexes addr) level4TableFrame
  return frame.map fun frame => frameSize*frame+addr % frameSize

lemma entryFrame_lt {entry : UInt64} {frame : ℕ} (h : entryFrame entry = .ok frame) :
    frame < 2^40 := by
  unfold entryFrame at h
  split_ifs at h
  obtain rfl := Except.ok.inj h
  have hmask : (entry &&& 0x000ffffffffff000).toNat ≤ 0x000ffffffffff000 := by
    rw [UInt64.toNat_and]
    exact Nat.and_le_right
  unfold containingAddress frameSize
  omega

lemma walk_lt {tables : PageTables} {indexes : List ℕ} {frame frame' : ℕ} (hn : indexes ≠ [])
    (h : walk tables indexes frame = some (some frame')) : frame' < 2^40 := by
  induction indexes generalizing frame with
  | nil => contradiction
  | cons index indexes ih =>
    unfold walk at h
    split at h
    next next hnext =>
      cases indexes with
      | nil =>
        cases h
        exact entryFrame_lt hnext
      | cons index' indexes => exact ih (List.cons_ne_nil _ _) h
    next => cases h
    next => cases h

/-- A physical address has 52 bits. -/
lemma translateAddr_lt {tables : PageTables} {root addr physical : ℕ}
    (h : translateAddr tables root addr = some (some physical)) : physical < 2^52 := by
  obtain ⟨frame,hwalk,hframe⟩ := Option.bind_eq_some_iff.mp h
  cases frame with
  | none => cases hframe
  | some frame =>
    cases hframe
    have hlt := walk_lt (List.cons_ne_nil _ _) hwalk
    have hmod := Nat.mod_lt addr (show 0 < frameSize by decide)
    change frameSize*frame+addr % frameSize < 2^52
    unfold frameSize at hmod ⊢
    omega

lemma tableIndexes_page {addr k : ℕ} (h : addr % frameSize+k < frameSize) :
    tableIndexes (addr+k) = tableIndexes addr := by
  unfold frameSize at h
  have h12 : (addr+k)/2^12 = addr/2^12 := by omega
  have hshift : ∀ a, a/2^21 = a/2^12/2^9 ∧ a/2^30 = a/2^12/2^18 ∧ a/2^39 = a/2^12/2^27 := by
    intro a
    omega
  unfold tableIndexes
  rw [(hshift (addr+k)).1,(hshift (addr+k)).2.1,(hshift (addr+k)).2.2,h12,← (hshift addr).1,
    ← (hshift addr).2.1,← (hshift addr).2.2]

/-- The bytes of one page lie behind each other in one frame. -/
theorem translateAddr_page {tables : PageTables} {root addr physical k : ℕ}
    (h : translateAddr tables root addr = some (some physical))
    (hk : addr % frameSize+k < frameSize) :
    translateAddr tables root (addr+k) = some (some (physical+k)) := by
  obtain ⟨frame,hwalk,hframe⟩ := Option.bind_eq_some_iff.mp h
  unfold translateAddr
  rw [tableIndexes_page hk,hwalk]
  cases frame with
  | none => cases hframe
  | some frame =>
    cases hframe
    have hmod : (addr+k) % frameSize = addr % frameSize+k := by
      rw [← Nat.mod_add_mod]
      exact Nat.mod_eq_of_lt hk
    rw [Option.bind_eq_bind,Option.bind_some,Option.map_some,hmod,Nat.add_assoc]
    rfl

end CrabOs.Memory
