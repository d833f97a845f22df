import Mathlib.Data.Nat.Notation
import Mathlib.Tactic.Ring

/-!
# Memory of bytes

A memory holds a byte at every address.  Numbers are kept in it with the low byte first.  What is
read at an address depends on the bytes there only (`load_congr`), so that a write elsewhere does
not change it.
-/

/-- A byte at every address. -/
abbrev ByteMemory := ℕ → UInt8

namespace ByteMemory

/-- The number in the `n` bytes from the address `a` on. -/
def load (m : ByteMemory) : ℕ → ℕ → ℕ
  | _, 0 => 0
  | a, n + 1 => (m a).toNat + 256 * load m (a + 1) n

/-- Put a number in `n` bytes. -/
def store (m : ByteMemory) (a n v : ℕ) : ByteMemory := fun i =>
  if a ≤ i ∧ i < a + n then UInt8.ofNat (v / 256 ^ (i - a)) else m i

/-- Put the same byte at `n` addresses. -/
def fill (m : ByteMemory) (a n : ℕ) (b : UInt8) : ByteMemory := fun i =>
  if a ≤ i ∧ i < a + n then b else m i

/-- Copy `n` bytes. -/
def copy (m : ByteMemory) (dst src n : ℕ) : ByteMemory := fun i =>
  if dst ≤ i ∧ i < dst + n then m (src + (i - dst)) else m i

/-- A load reads its own bytes only. -/
theorem load_congr {m m' : ByteMemory} {a n : ℕ} (h : ∀ i, a ≤ i → i < a + n → m i = m' i) :
    load m a n = load m' a n := by
  induction n generalizing a with
  | zero => rfl
  | succ n ih =>
    rw [load, load, h a (by omega) (by omega), ih fun i hi hi' => h i (by omega) (by omega)]

/-- What is stored is read back, as far as it fits. -/
theorem load_store (m : ByteMemory) (a n v : ℕ) (hv : v < 256 ^ n) :
    load (store m a n v) a n = v := by
  have key : ∀ k a', a ≤ a' → a' + k = a + n →
      load (store m a n v) a' k = v / 256 ^ (a' - a) % 256 ^ k := by
    intro k
    induction k with
    | zero => intro a' _ _; simp [load, Nat.mod_one]
    | succ k ih =>
      intro a' ha hk
      rw [load, ih (a' + 1) (by omega) (by omega)]
      have hbyte : (store m a n v a').toNat = v / 256 ^ (a' - a) % 256 := by
        rw [store, if_pos (by omega), UInt8.toNat_ofNat']
      rw [hbyte, show a' + 1 - a = (a' - a) + 1 by omega, pow_succ, ← Nat.div_div_eq_div_mul,
        pow_succ' 256 k, Nat.mod_mul]
  rw [key n a le_rfl rfl, Nat.sub_self, pow_zero, Nat.div_one, Nat.mod_eq_of_lt hv]

/-- A load beside a store reads what was there. -/
theorem load_store_of_disjoint (m : ByteMemory) {a n a' n' : ℕ} (v : ℕ)
    (h : a' + n' ≤ a ∨ a + n ≤ a') : load (store m a n v) a' n' = load m a' n' :=
  load_congr fun i _ _ => if_neg (by omega)

theorem store_of_disjoint (m : ByteMemory) {a n i : ℕ} (v : ℕ) (h : i < a ∨ a + n ≤ i) :
    store m a n v i = m i :=
  if_neg (by omega)

end ByteMemory
