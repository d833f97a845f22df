import Rabbitbone.Native.Ext4.Node

/-!
# Numbers in blocks of bytes

A number stored with `putLe32` is read back by `Block.word`, and the other numbers stay.
-/

namespace Rabbitbone.Spec.Ext4

open Native.Ext4

/-- The bytes of a number, put together again. -/
theorem ofNat_bytes (w : UInt32) :
    UInt32.ofNat ((byteOf w.toNat 0).toNat + 2 ^ 8 * (byteOf w.toNat 1).toNat
      + 2 ^ 16 * (byteOf w.toNat 2).toNat + 2 ^ 24 * (byteOf w.toNat 3).toNat) = w := by
  have hlt : w.toNat < 2 ^ 32 := w.toNat_lt
  have hsum : (byteOf w.toNat 0).toNat + 2 ^ 8 * (byteOf w.toNat 1).toNat
      + 2 ^ 16 * (byteOf w.toNat 2).toNat + 2 ^ 24 * (byteOf w.toNat 3).toNat = w.toNat := by
    simp only [byteOf, UInt8.toNat_ofNat']
    omega
  rw [hsum, UInt32.ofNat_toNat]

/-- A number is read from its four bytes. -/
theorem word_congr {a b : Block} {k : Nat} (h : ∀ i, 4 * k ≤ i → i < 4 * k + 4 → a i = b i) :
    a.word k = b.word k := by
  simp only [Block.word, le32At]
  rw [h _ (by omega) (by omega), h _ (by omega) (by omega), h _ (by omega) (by omega),
    h _ (by omega) (by omega)]

@[simp] theorem word_putLe32_self (b : Block) (k : Nat) (w : UInt32) :
    (putLe32 b k w).word k = w := by
  have hbyte : ∀ j < 4, putLe32 b k w (4 * k + j) = byteOf w.toNat j := by
    intro j hj
    rw [putLe32, if_pos (by omega), Nat.add_sub_cancel_left]
  rw [Block.word, le32At, hbyte 1 (by omega), hbyte 2 (by omega), hbyte 3 (by omega),
    show putLe32 b k w (4 * k) = byteOf w.toNat 0 from hbyte 0 (by omega), ofNat_bytes]

theorem word_putLe32_of_ne {j k : Nat} (h : j ≠ k) (b : Block) (w : UInt32) :
    (putLe32 b k w).word j = b.word j := by
  refine word_congr fun i hlo hhi => ?_
  rw [putLe32, if_neg (by omega)]

@[simp] theorem putLe32_putLe32_self (b : Block) (k : Nat) (w w' : UInt32) :
    putLe32 (putLe32 b k w) k w' = putLe32 b k w' := by
  funext i
  simp only [putLe32]
  split <;> rfl

/-- The first bytes of a block are all that a checksum over them sees. -/
theorem bytes_congr {a b : Block} {n : Nat} (h : ∀ i < n, a i = b i) :
    a.bytes 0 n = b.bytes 0 n := by
  refine List.map_congr_left fun i hi => ?_
  rw [Nat.zero_add]
  exact h i (List.mem_range.mp hi)

end Rabbitbone.Spec.Ext4
