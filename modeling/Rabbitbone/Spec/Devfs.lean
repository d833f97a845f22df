import Rabbitbone.Native.Devfs

/-!
# The name of a network device is its number

The test for overflow in `parse_net_path` misses some values that have wrapped.  None of them is the
number of a device: a value never gets smaller, and it wraps only above `2 ^ 64 / 10`.
-/

namespace Rabbitbone.Spec.Devfs

open Native.Devfs Native.Path List

/-- The number that is written in digits, behind the digits of `n`. -/
def decimal (n : Nat) (digits : List UInt8) : Nat :=
  digits.foldl (fun n c => n * 10 + (c.toNat - 48)) n

variable {i n : Nat} {p : List UInt8}

private theorem le_decimal (p : List UInt8) (n : Nat) : n ≤ decimal n p := by
  induction p generalizing n with
  | nil => exact le_rfl
  | cons c p ih =>
    have := ih (n * 10 + (c.toNat - 48))
    show n ≤ decimal (n * 10 + (c.toNat - 48)) p
    omega

private theorem le_of_readDigits {rest : List UInt8} (h : readDigits p n = some (i, rest)) :
    n ≤ i := by
  induction p generalizing n with
  | nil =>
    cases h
    exact le_rfl
  | cons c p ih =>
    simp only [readDigits] at h
    split at h
    · split at h
      · cases h
      · have := ih h
        omega
    · cases h
      exact le_rfl

/-- Below a tenth of the range the loop computes the number. -/
theorem readDigits_iff (hi : i < 2 ^ 64 / 10) :
    readDigits p n = some (i, []) ↔ (∀ c ∈ p, isDigit c) ∧ decimal n p = i := by
  induction p generalizing n with
  | nil => simp [readDigits, decimal]
  | cons c p ih =>
    rw [readDigits, forall_mem_cons, show decimal n (c :: p) =
      decimal (n * 10 + (c.toNat - 48)) p from rfl]
    by_cases hc : isDigit c
    · have hdigit : (c.toNat - 48) ≤ 9 := by
        simp only [isDigit, Bool.and_eq_true, decide_eq_true_eq, UInt8.le_iff_toNat_le] at hc
        exact Nat.sub_le_of_le_add hc.2
      by_cases hwrap : n * 10 + (c.toNat - 48) < 2 ^ 64
      · rw [if_pos hc, Nat.mod_eq_of_lt hwrap]
        simp [hc, ih, show ¬n * 10 + (c.toNat - 48) < n by omega]
      -- Neither the loop nor the number comes back below a value that large.
      have hdec := le_decimal p (n * 10 + (c.toNat - 48))
      refine iff_of_false (fun h => ?_) fun h => by omega
      simp only [hc, if_true] at h
      split at h
      · cases h
      · have := le_of_readDigits h
        omega
    · simp [hc]

/-- A path is that of the network device `i` iff behind its slashes it is `net` and digits that
write `i`. -/
theorem parseNetPath_iff (count : Fin (netMaxDevs + 1)) (path : List UInt8) (i : Nat) :
    parseNetPath count path = some i ↔
      ∃ digits, path.dropWhile (· == slash) = [0x6e, 0x65, 0x74] ++ digits ∧ digits ≠ [] ∧
        (∀ c ∈ digits, isDigit c) ∧ decimal 0 digits = i ∧ i < count := by
  have hcount := count.isLt
  unfold netMaxDevs at hcount
  unfold parseNetPath
  generalize path.dropWhile (· == slash) = q
  constructor
  · intro h
    dsimp only at h
    split at h
    · cases h
    next hnet =>
    split at h
    · cases h
    next hfirst =>
    split at h
    · cases h
    next hread =>
    split at h
    · cases h
    next hrest =>
    split at h
    · cases h
    next hlt =>
    cases h
    rw [not_not.mp hrest] at hread
    obtain ⟨hdigits, hvalue⟩ := (readDigits_iff (by omega)).mp hread
    refine ⟨q.drop 3, ?_, fun hnil => hfirst (by simp [hnil]), hdigits, hvalue, by omega⟩
    rw [← not_not.mp hnet, take_append_drop]
  · rintro ⟨digits, rfl, hne, hdigits, hvalue, hlt⟩
    obtain ⟨c, digits, rfl⟩ := exists_cons_of_ne_nil hne
    have hread := (readDigits_iff (by omega)).mpr ⟨hdigits, hvalue⟩
    simp [hread, hdigits c, Nat.not_le.mpr hlt]

end Rabbitbone.Spec.Devfs
