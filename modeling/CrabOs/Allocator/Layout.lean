import CrabOs.Foundations.Spans

/-! Sizes, alignments and `usize` arithmetic as the allocators use them. Arithmetic that overflows
panics, so it has no result here. -/
namespace CrabOs.Allocator

def usizeLimit : ℕ := 2^64

/-- `HEAP_START`. -/
def kernelHeapStart : ℕ := 0x444444440000

/-- `HEAP_SIZE`. -/
def kernelHeapSize : ℕ := 100*1024

/-- `usize::checked_add`, and `+` with overflow checks. -/
def checkedAdd (a b : ℕ) : Option ℕ := if a+b < usizeLimit then some (a+b) else none

/-- `-` with overflow checks. -/
def checkedSub (a b : ℕ) : Option ℕ := if b ≤ a then some (a-b) else none

/-- `*` with overflow checks. -/
def checkedMul (a b : ℕ) : Option ℕ := if a*b < usizeLimit then some (a*b) else none

/-- `!a`. -/
def complement (a : ℕ) : ℕ := usizeLimit-1-a

/-- `(addr + align - 1) & !(align - 1)`. -/
def alignUp (addr align : ℕ) : Option ℕ := do
  let sum ← checkedAdd addr align
  let last ← checkedSub sum 1
  let mask ← checkedSub align 1
  return last &&& complement mask

/-- The least multiple of the alignment from `n` on, as a number without a limit. -/
def roundUp (n align : ℕ) : ℕ := (n+align-1)/align*align

lemma le_roundUp {align : ℕ} (h : 0 < align) (n : ℕ) : n ≤ roundUp n align := by
  have hd := Nat.div_add_mod (n+align-1) align
  have hm := Nat.mod_lt (n+align-1) h
  rw [Nat.mul_comm] at hd
  unfold roundUp
  omega

lemma roundUp_lt {align : ℕ} (h : 0 < align) (n : ℕ) : roundUp n align < n+align := by
  have hle := Nat.div_mul_le_self (n+align-1) align
  unfold roundUp
  omega

lemma dvd_roundUp (n align : ℕ) : align ∣ roundUp n align := Nat.dvd_mul_left _ _

/-- A size and an alignment that `core::alloc::Layout` admits: the alignment is a power of two, and
the size rounded up to it is at most `isize::MAX`. -/
structure Layout where
  size : ℕ
  align : ℕ
  power : ∃ k, align = 2^k
  fits : size+align ≤ 2^63
  deriving DecidableEq

/-- Memory at a pointer, and the layout it was asked for with. -/
structure Block where
  ptr : ℕ
  layout : Layout
  deriving DecidableEq

/-- The allocation at one place of the live list, and the others. -/
lemma perm_eraseIdx {live : List Block} {index : ℕ} {b : Block} (h : live[index]? = some b) :
    live.Perm (b :: live.eraseIdx index) := by
  obtain ⟨hlt,rfl⟩ := List.getElem?_eq_some_iff.mp h
  exact (List.getElem_cons_eraseIdx_perm hlt).symm

namespace Layout

lemma align_pos (l : Layout) : 0 < l.align := by
  obtain ⟨k,hk⟩ := l.power
  rw [hk]
  exact Nat.two_pow_pos k

/-- `Layout::align_to`: raise the alignment, or fail when the size no longer fits. -/
def alignTo (l : Layout) (k : ℕ) : Option Layout :=
  if h : l.size+max l.align (2^k) ≤ 2^63 then
    some ⟨l.size,max l.align (2^k),by
      obtain ⟨j,hj⟩ := l.power
      rcases le_total l.align (2^k) with hle | hle
      · exact ⟨k,max_eq_right hle⟩
      · exact ⟨j,(max_eq_left hle).trans hj⟩,h⟩
  else none

/-- The size of `pad_to_align`. -/
def paddedSize (l : Layout) : ℕ := roundUp l.size l.align

end Layout

/-! ### Rounding up -/

lemma and_complement {n k : ℕ} (hn : n < usizeLimit) (hk : k ≤ 64) :
    n &&& complement (2^k-1) = n/2^k*2^k := by
  have hmask : complement (2^k-1) = (2^(64-k)-1) <<< k := by
    have hpow : (2 : ℕ)^(64-k)*2^k = 2^64 := by rw [← pow_add]; congr 1; omega
    have hpos := Nat.two_pow_pos k
    rw [Nat.shiftLeft_eq,Nat.sub_mul,hpow,complement,usizeLimit]
    omega
  apply Nat.eq_of_testBit_eq
  intro i
  have hdiv : n/2^k*2^k = (n >>> k) <<< k := by rw [Nat.shiftLeft_eq,Nat.shiftRight_eq_div_pow]
  rw [hmask,hdiv,Nat.testBit_and,Nat.testBit_shiftLeft,Nat.testBit_shiftLeft,
    Nat.testBit_two_pow_sub_one,Nat.testBit_shiftRight]
  by_cases hki : k ≤ i
  · have hadd : k+(i-k) = i := by omega
    rw [hadd]
    by_cases hi : i < 64
    · have hlt : i-k < 64-k := by omega
      simp [hki,hlt]
    · have hbit : n.testBit i = false :=
        Nat.testBit_lt_two_pow (lt_of_lt_of_le hn (Nat.pow_le_pow_right (by decide) (by omega)))
      simp [hbit]
  · simp [hki]

/-- Without overflow the result is the least multiple of the alignment from the address on. -/
theorem alignUp_eq {addr align : ℕ} (hp : ∃ k, align = 2^k) (h : addr+align < usizeLimit) :
    ∃ start, alignUp addr align = some start ∧ addr ≤ start ∧ start < addr+align ∧
      align ∣ start ∧ (start = addr ↔ align ∣ addr) := by
  obtain ⟨k,rfl⟩ := hp
  have hpos := Nat.two_pow_pos k
  have hk : k ≤ 64 := by
    by_contra hk
    have hle : (2 : ℕ)^64 ≤ 2^k := Nat.pow_le_pow_right (by decide) (by omega)
    rw [usizeLimit] at h
    omega
  refine ⟨roundUp addr (2^k),?_,le_roundUp hpos addr,roundUp_lt hpos addr,dvd_roundUp _ _,?_⟩
  · simp only [alignUp,checkedAdd,if_pos h,checkedSub,if_pos (show 1 ≤ addr+2^k by omega),
      if_pos (show 1 ≤ 2^k from hpos),Option.bind_eq_bind,Option.bind_some,pure]
    rw [and_complement (by omega) hk]
    rfl
  · constructor
    · intro he
      rw [← he]
      exact dvd_roundUp _ _
    · rintro ⟨m,rfl⟩
      unfold roundUp
      have hsum : 2^k*m+2^k-1 = (2^k-1)+2^k*m := by omega
      rw [hsum,Nat.add_mul_div_left _ _ hpos,Nat.div_eq_of_lt (by omega),Nat.zero_add,Nat.mul_comm]

namespace Layout
variable (l : Layout)

lemma align_dvd : l.align ∣ 2^63 := by
  obtain ⟨k,hk⟩ := l.power
  have hfits := l.fits
  rw [hk] at hfits ⊢
  have hle : 2^k ≤ 2^63 := by omega
  exact Nat.pow_dvd_pow 2 ((Nat.pow_le_pow_iff_right Nat.one_lt_two).mp hle)

lemma dvd_paddedSize : l.align ∣ l.paddedSize := dvd_roundUp _ _

lemma size_le_paddedSize : l.size ≤ l.paddedSize := le_roundUp l.align_pos _

end Layout
end CrabOs.Allocator
