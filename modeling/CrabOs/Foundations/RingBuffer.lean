import Mathlib.Tactic

/-! Fixed-size buffers read and written at logical indices modulo their size. Two logical
indices of one window of that size never alias. -/
namespace RingBuffer

variable {α : Type*} {n : ℕ} [NeZero n]

/-- The slot of a logical index. -/
def slot (n : ℕ) [NeZero n] (i : ℕ) : Fin n := Fin.ofNat n i

def read (v : Vector α n) (i : ℕ) : α := v[(slot n i).val]

def write (v : Vector α n) (i : ℕ) (a : α) : Vector α n :=
  v.set (slot n i).val a (slot n i).isLt

/-- Distinct logical indices less than one buffer size apart have distinct slots. -/
theorem slot_ne {i j : ℕ} (hij : i < j) (hwindow : j < i+n) : slot n i ≠ slot n j := by
  intro h
  have hmod : i % n = j % n := congrArg Fin.val h
  have hdvd : n ∣ j-i := (Nat.modEq_iff_dvd' hij.le).mp hmod
  have hzero := Nat.eq_zero_of_dvd_of_lt hdvd (by omega)
  omega

lemma slot_ne_of_window {first i j : ℕ} (hi : first ≤ i) (hin : i < first+n)
    (hj : first ≤ j) (hjn : j < first+n) (h : i ≠ j) : slot n i ≠ slot n j := by
  rcases Nat.lt_or_gt_of_ne h with hlt | hgt
  · exact slot_ne hlt (by omega)
  · exact (slot_ne hgt (by omega)).symm

@[simp] theorem read_write_self (v : Vector α n) (i : ℕ) (a : α) :
    read (write v i a) i = a := by
  simp [read,write]

lemma read_write_of_slot_ne (v : Vector α n) {i j : ℕ} (a : α) (h : slot n i ≠ slot n j) :
    read (write v i a) j = read v j := by
  have hv : (slot n i).val ≠ (slot n j).val := fun e => h (Fin.ext e)
  simp [read,write,hv]

/-- A write inside a window leaves every other index of that window unchanged. -/
theorem read_write_of_window (v : Vector α n) (first : ℕ) {i j : ℕ} (a : α)
    (hi : first ≤ i) (hin : i < first+n) (hj : first ≤ j) (hjn : j < first+n) (h : i ≠ j) :
    read (write v i a) j = read v j :=
  read_write_of_slot_ne v a (slot_ne_of_window hi hin hj hjn h)

/-- A start may be kept reduced modulo the size. -/
@[simp] theorem read_mod_add (v : Vector α n) (i j : ℕ) : read v (i % n+j) = read v (i+j) := by
  have hs : slot n (i % n+j) = slot n (i+j) := Fin.ext (Nat.mod_add_mod i n j)
  simp only [read,hs]

@[simp] theorem read_add_size (v : Vector α n) (i : ℕ) : read v (i+n) = read v i := by
  have hs : slot n (i+n) = slot n i := Fin.ext (Nat.add_mod_right i n)
  simp only [read,hs]

@[simp] theorem read_replicate (i : ℕ) (a : α) : read (Vector.replicate n a) i = a := by
  simp [read]

end RingBuffer
