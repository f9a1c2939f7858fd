import CrabOs.Allocator.Layout

/-! The time since boot in seconds and in milliseconds, from the ticks of the timer. -/
namespace CrabOs.Interrupts
open Allocator (checkedAdd checkedMul)

/-- `PIT_FREQUENCY`: how often the timer counts in a second. -/
def pitFrequency : ℕ := 1193182

/-- `PIT_DIVISOR`: how often it counts for one tick. -/
def pitDivisor : ℕ := 11932

def uptimeSeconds (ticks : UInt64) : Option ℕ := do
  let whole ← checkedMul (ticks.toNat/pitFrequency) pitDivisor
  let rest ← checkedMul (ticks.toNat % pitFrequency) pitDivisor
  checkedAdd whole (rest/pitFrequency)

/-- `value as i64`. -/
def asI64 (value : ℕ) : ℤ := if value < 2^63 then value else value-2^64

def uptimeMillis (ticks : UInt64) : Option ℤ := do
  let counts ← checkedMul ticks.toNat pitDivisor
  let thousands ← checkedMul counts 1000
  return asI64 (thousands/pitFrequency)

/-- The counts of the timer, and from them the time, without a limit. -/
def exactSeconds (ticks : UInt64) : ℕ := ticks.toNat*pitDivisor/pitFrequency

def exactMillis (ticks : UInt64) : ℕ := ticks.toNat*pitDivisor*1000/pitFrequency

lemma exactSeconds_eq (ticks : UInt64) : exactSeconds ticks = exactMillis ticks/1000 := by
  unfold exactSeconds exactMillis
  rw [Nat.div_div_eq_div_mul,Nat.mul_div_mul_right _ _ (by decide)]

lemma exactMillis_le {earlier ticks : UInt64} (h : earlier ≤ ticks) :
    exactMillis earlier ≤ exactMillis ticks :=
  Nat.div_le_div_right (Nat.mul_le_mul_right 1000 (Nat.mul_le_mul_right pitDivisor h))

lemma exactSeconds_le {earlier ticks : UInt64} (h : earlier ≤ ticks) :
    exactSeconds earlier ≤ exactSeconds ticks := by
  rw [exactSeconds_eq,exactSeconds_eq]
  exact Nat.div_le_div_right (exactMillis_le h)

/-- The quotient is split, so nothing overflows. -/
lemma uptimeSeconds_eq (ticks : UInt64) : uptimeSeconds ticks = some (exactSeconds ticks) := by
  have hticks := ticks.toNat_lt
  have hwhole : checkedMul (ticks.toNat/pitFrequency) pitDivisor =
      some (ticks.toNat/pitFrequency*pitDivisor) := by
    refine if_pos ?_
    unfold pitFrequency pitDivisor Allocator.usizeLimit
    omega
  have hrest : checkedMul (ticks.toNat % pitFrequency) pitDivisor =
      some (ticks.toNat % pitFrequency*pitDivisor) := by
    refine if_pos ?_
    unfold pitFrequency pitDivisor Allocator.usizeLimit
    omega
  have hsplit : ticks.toNat/pitFrequency*pitDivisor+
      ticks.toNat % pitFrequency*pitDivisor/pitFrequency = exactSeconds ticks := by
    unfold exactSeconds pitFrequency pitDivisor
    omega
  have hsum : exactSeconds ticks < Allocator.usizeLimit := by
    unfold exactSeconds pitFrequency pitDivisor Allocator.usizeLimit
    omega
  simp only [uptimeSeconds,hwhole,hrest,Option.bind_eq_bind,Option.bind_some,checkedAdd,hsplit]
  exact if_pos hsum

/-- The product is taken first. -/
lemma uptimeMillis_eq (ticks : UInt64) : uptimeMillis ticks =
    if ticks.toNat*pitDivisor*1000 < 2^64 then some (exactMillis ticks : ℤ) else none := by
  unfold uptimeMillis checkedMul Allocator.usizeLimit
  by_cases hcounts : ticks.toNat*pitDivisor < 2^64
  · rw [if_pos hcounts,Option.bind_eq_bind,Option.bind_some]
    by_cases hthousands : ticks.toNat*pitDivisor*1000 < 2^64
    · have hsigned : exactMillis ticks < 2^63 := by
        unfold exactMillis pitFrequency
        omega
      rw [if_pos hthousands,if_pos hthousands,Option.bind_some,← exactMillis,asI64,if_pos hsigned]
      rfl
    · rw [if_neg hthousands,if_neg hthousands]
      rfl
  · rw [if_neg hcounts,if_neg (by omega)]
    rfl

/-- Both clocks return at this tick and every one before it, without losing anything to rounding
early or to overflow; they agree and do not go back. -/
def ClocksAgree (ticks : UInt64) : Prop :=
  ∃ seconds : ℕ, ∃ millis : ℤ, uptimeSeconds ticks = some seconds ∧ uptimeMillis ticks = some millis ∧
    seconds = ticks.toNat*pitDivisor/pitFrequency ∧
    millis = (ticks.toNat*pitDivisor*1000/pitFrequency : ℕ) ∧ (seconds : ℤ) = millis/1000 ∧
    ∀ earlier ≤ ticks, ∃ seconds' : ℕ, ∃ millis' : ℤ, uptimeSeconds earlier = some seconds' ∧
      uptimeMillis earlier = some millis' ∧ seconds' ≤ seconds ∧ millis' ≤ millis

/-- The clocks agree exactly as long as the product fits. -/
theorem clocksAgree_iff (ticks : UInt64) :
    ClocksAgree ticks ↔ ticks.toNat*pitDivisor*1000 < 2^64 := by
  constructor
  · rintro ⟨-,millis,-,hmillis,-⟩
    by_contra hlimit
    rw [uptimeMillis_eq,if_neg hlimit] at hmillis
    cases hmillis
  · intro hlimit
    have hmillis : ∀ earlier ≤ ticks, uptimeMillis earlier = some (exactMillis earlier : ℤ) := by
      intro earlier hle
      have hless : earlier.toNat*pitDivisor*1000 ≤ ticks.toNat*pitDivisor*1000 :=
        Nat.mul_le_mul_right 1000 (Nat.mul_le_mul_right pitDivisor hle)
      rw [uptimeMillis_eq,if_pos (lt_of_le_of_lt hless hlimit)]
    refine ⟨exactSeconds ticks,exactMillis ticks,uptimeSeconds_eq ticks,
      hmillis ticks (UInt64.le_refl ticks),rfl,rfl,?_,fun earlier hle => ?_⟩
    · rw [exactSeconds_eq]
      rfl
    · exact ⟨exactSeconds earlier,exactMillis earlier,uptimeSeconds_eq earlier,hmillis earlier hle,
        exactSeconds_le hle,Int.ofNat_le.mpr (exactMillis_le hle)⟩

/-- After 490 years the milliseconds overflow while the seconds go on. -/
theorem uptimeMillis_overflows : uptimeMillis 1545989278722 = none ∧
    uptimeSeconds 1545989278722 = some 15460126010 ∧ ¬ClocksAgree 1545989278722 := by
  have hnone : uptimeMillis 1545989278722 = none := by decide
  refine ⟨hnone,by decide,?_⟩
  rintro ⟨-,millis,-,hmillis,-⟩
  rw [hnone] at hmillis
  cases hmillis

end CrabOs.Interrupts
