import Mathlib.Tactic.GCongr
import Mathlib.Tactic.Ring
import Rabbitbone.Native.Timer

/-!
# The clock does not run backwards

The loop divides bit by bit.  When the bits of the product from `bit` on have been seen, the
remainder is theirs, and the quotient is theirs moved up to its place; a bit of the quotient from
the 64th on means that it does not fit.
-/

namespace Rabbitbone.Spec.Timer

open Native.Timer

variable {n d bit : Nat}

/-- One more bit of the number that is divided. -/
theorem div_pow_bit (n bit : Nat) : n / 2 ^ bit = 2 * (n / 2 ^ (bit + 1)) + n / 2 ^ bit % 2 := by
  rw [pow_succ, ← Nat.div_div_eq_div_mul]
  omega

/-- The bit that the loop looks at. -/
theorem toNat_next (n : Nat) (hbit : bit < 128) :
    (if 64 ≤ bit then UInt64.ofNat (n >>> 64) >>> UInt64.ofNat (bit - 64) &&& 1
      else UInt64.ofNat n >>> UInt64.ofNat bit &&& 1).toNat = n / 2 ^ bit % 2 := by
  have hshift : ∀ m k : Nat, k < 64 → (UInt64.ofNat m >>> UInt64.ofNat k &&& 1).toNat =
      (m.testBit k).toNat := by
    intro m k hk
    have hmod := Nat.testBit_mod_two_pow m 64 k
    rw [decide_eq_true hk, Bool.true_and] at hmod
    rw [← hmod, Nat.toNat_testBit]
    simp [Nat.shiftRight_eq_div_pow, Nat.and_one_is_mod, Nat.mod_eq_of_lt hk]
  rw [← Nat.toNat_testBit]
  split
  · rw [hshift _ _ (by omega), Nat.testBit_shiftRight, Nat.add_sub_cancel' ‹_›]
  · exact hshift _ _ (by omega)

/-- Before the bits below `bit` are divided. -/
structure Divided (n d bit rem : Nat) (q : UInt64) : Prop where
  rem_eq : rem = n / 2 ^ bit % d
  quot_eq : q.toNat = n / 2 ^ bit / d * 2 ^ bit

private theorem toNat_set_bit {q : UInt64} {x : Nat} (hq : q.toNat = x * 2 ^ (bit + 1))
    (hbit : bit < 64) :
    (q ||| 1 <<< UInt64.ofNat bit).toNat = (2 * x + 1) * 2 ^ bit := by
  have hone : (1 <<< UInt64.ofNat bit : UInt64).toNat = 2 ^ bit := by
    have := Nat.pow_lt_pow_right (a := 2) (by omega) hbit
    simp [Nat.shiftLeft_eq, Nat.mod_eq_of_lt hbit]
    omega
  have hor := Nat.shiftLeft_add_eq_or_of_lt
      (Nat.pow_lt_pow_right (a := 2) (by omega) (Nat.lt_add_one bit)) x
  rw [UInt64.toNat_or, hone, hq, ← Nat.shiftLeft_eq, ← hor, Nat.shiftLeft_eq]
  ring

private theorem mulDivLoop_eq {divisor q : UInt64} {rem : Nat} (hpos : 0 < divisor.toNat)
    (hbit : bit ≤ 128) (h : Divided n divisor.toNat bit rem q) :
    (mulDivLoop (UInt64.ofNat (n >>> 64)) (UInt64.ofNat n) divisor bit rem q).toNat =
      min (n / divisor.toNat) (2 ^ 64 - 1) := by
  induction bit generalizing rem q with
  | zero =>
    have hq := h.quot_eq
    rw [pow_zero, Nat.div_one, Nat.mul_one] at hq
    rw [mulDivLoop, hq]
    have := q.toNat_lt
    omega
  | succ bit ih =>
    have hlt := Nat.mod_lt (n / 2 ^ (bit + 1)) hpos
    rw [← h.rem_eq] at hlt
    -- the remainder stays below the divisor, so shifting it loses nothing
    have hrem : (rem <<< 1) % 2 ^ 128 ||| n / 2 ^ bit % 2 = 2 * rem + n / 2 ^ bit % 2 := by
      have := divisor.toNat_lt
      rw [Nat.mod_eq_of_lt (by omega), ← Nat.shiftLeft_add_eq_or_of_lt (by omega)]
      omega
    simp only [mulDivLoop]
    rw [toNat_next n (by omega), hrem]
    have hsplit : divisor.toNat * (2 * (n / 2 ^ (bit + 1) / divisor.toNat)) +
        (2 * rem + n / 2 ^ bit % 2) =
        n / 2 ^ bit := by
      have hx := Nat.div_add_mod (n / 2 ^ (bit + 1)) divisor.toNat
      have hbits := div_pow_bit n bit
      rw [← h.rem_eq] at hx
      rw [Nat.mul_left_comm]
      omega
    split
    · next hle =>
      obtain ⟨hquot, hmod⟩ := (Nat.div_mod_unique hpos).mpr
        (⟨by rw [← hsplit, Nat.mul_add, Nat.mul_one]; omega, by omega⟩ :
          (2 * rem + n / 2 ^ bit % 2 - divisor.toNat) + divisor.toNat *
            (2 * (n / 2 ^ (bit + 1) / divisor.toNat) + 1) =
            n / 2 ^ bit ∧ 2 * rem + n / 2 ^ bit % 2 - divisor.toNat < divisor.toNat)
      split
      · next hhigh =>
        -- a quotient bit above 63 saturates
        have hone : 1 ≤ n / divisor.toNat / 2 ^ bit := by
          rw [Nat.div_div_eq_div_mul, Nat.mul_comm, ← Nat.div_div_eq_div_mul, hquot]
          omega
        have hbig := (Nat.one_le_div_iff (Nat.two_pow_pos bit)).mp hone
        have hpow := Nat.pow_le_pow_right (n := 2) (by omega) hhigh
        change 2 ^ 64 - 1 = _
        omega
      · refine ih (by omega) ⟨hmod.symm, ?_⟩
        rw [hquot, toNat_set_bit h.quot_eq (by omega)]
    · obtain ⟨hquot, hmod⟩ := (Nat.div_mod_unique hpos).mpr
          ⟨(Nat.add_comm _ _).trans hsplit, by omega⟩
      refine ih (by omega) ⟨hmod.symm, ?_⟩
      rw [hquot, h.quot_eq, pow_succ]
      ring

private theorem toNat_u64MulDivSaturating (a b : UInt64) {c : UInt64} (hc : 0 < c) :
    (u64MulDivSaturating a b c).toNat = min (a.toNat * b.toNat / c.toNat) (2 ^ 64 - 1) := by
  have hlt : a.toNat * b.toNat < 2 ^ 128 :=
    (Nat.mul_lt_mul'' a.toNat_lt b.toNat_lt).trans_eq (by decide)
  have hpos : 0 < c.toNat := UInt64.lt_iff_toNat_lt.mp hc
  rw [u64MulDivSaturating, if_neg fun h => by simp [h] at hpos]
  simp only [Nat.mod_eq_of_lt hlt]
  refine mulDivLoop_eq hpos (Nat.le_refl _) ⟨?_, ?_⟩
  · rw [Nat.div_eq_of_lt hlt, Nat.zero_mod]
  · rw [Nat.div_eq_of_lt hlt, Nat.zero_div, Nat.zero_mul]
    rfl

private theorem toNat_u64AddSaturating (a b : UInt64) :
    (u64AddSaturating a b).toNat = min (a.toNat + b.toNat) (2 ^ 64 - 1) := by
  have ha := a.toNat_lt
  rw [u64AddSaturating]
  split
  · change 2 ^ 64 - 1 = _
    omega
  · rw [UInt64.toNat_add]
    omega

private theorem toNat_sub_base (base tsc : UInt64) :
    (if base ≤ tsc then tsc - base else 0).toNat = tsc.toNat - base.toNat := by
  split
  · next h => exact UInt64.toNat_sub_of_le _ _ h
  next h =>
  rw [UInt64.le_iff_toNat_le] at h
  simp
  omega

private theorem toNat_timerNowNs {c : Calibration} (hcal : c.tscCalibrated = true)
    (hhz : c.tscHz ≠ 0)
    (tsc : UInt64) (hpet : Option UInt64) (pit : UInt64) : (timerNowNs c tsc hpet pit).toNat =
      min (c.nsBase.toNat + min
        ((tsc.toNat - c.tscBase.toNat) * 1000000000 / c.tscHz.toNat) (2 ^ 64 - 1))
        (2 ^ 64 - 1) := by
  simp only [timerNowNs, hcal, hhz, ne_eq, not_false_eq_true, and_self, if_true]
  rw [toNat_u64AddSaturating, toNat_u64MulDivSaturating _ _ (UInt64.pos_iff_ne_zero.mpr hhz),
    toNat_sub_base]
  rfl

/-- The quotient is exact up to the largest number there is, so the clock follows the time stamp
counter. -/
theorem mulDiv_exact_and_clock_monotone : (∀ a b c : UInt64, 0 < c →
      (u64MulDivSaturating a b c).toNat = min (a.toNat * b.toNat / c.toNat) (2 ^ 64 - 1)) ∧
    ∀ (c : Calibration) (tsc tsc' : UInt64) (hpet hpet' : Option UInt64) (pit pit' : UInt64),
      c.tscCalibrated = true → c.tscHz ≠ 0 → tsc ≤ tsc' →
        timerNowNs c tsc hpet pit ≤ timerNowNs c tsc' hpet' pit' := by
  refine ⟨fun a b c hc => toNat_u64MulDivSaturating a b hc,
    fun c tsc tsc' _ _ _ _ hcal hhz hle => ?_⟩
  rw [UInt64.le_iff_toNat_le] at hle ⊢
  rw [toNat_timerNowNs hcal hhz, toNat_timerNowNs hcal hhz]
  gcongr

/-- A clock of 3 GHz, one second on. -/
theorem clock_one_second :
    timerNowNs ⟨true, 3000000000, 7, 5⟩ 7 none 0 ≤
      timerNowNs ⟨true, 3000000000, 7, 5⟩ 3000000007 none 0 :=
  mulDiv_exact_and_clock_monotone.2 _ _ _ _ _ _ _ rfl (by decide) (by decide)

end Rabbitbone.Spec.Timer
