import Mathlib.Data.Nat.Bitwise
import Rabbitbone.Native.Ext4.Alloc

/-!
# Bitmaps and the search for a clear bit

What the bit operations of `internal.h` do, and what the scans of `alloc_block_goal` and
`alloc_inode` return.

## Key results

- `scanGroups_spec`, `scanInodeGroups_spec`: a scan leaves the volume alone, and a bit it found is
  clear and may be handed out.
-/

namespace Rabbitbone.Spec.Ext4

open FallibleState Native.Ext4 Function

private theorem bitMask_toNat (bit : Nat) : (bitMask bit).toNat = 2 ^ (bit % 8) := by
  have hdec : ∀ k < 8, ((1 : UInt8) <<< UInt8.ofNat k).toNat = 2 ^ k := by decide
  exact hdec _ (Nat.mod_lt _ (by omega))

private theorem bitmapGet_eq (bm : Block) (bit : Nat) :
    bitmapGet bm bit = (bm (bit / 8)).toNat.testBit (bit % 8) := by
  have h : (bm (bit / 8) &&& bitMask bit).toNat
      = ((bm (bit / 8)).toNat.testBit (bit % 8)).toNat * 2 ^ (bit % 8) := by
    rw [UInt8.toNat_and, bitMask_toNat, Nat.and_two_pow]
  have hiff : bm (bit / 8) &&& bitMask bit = 0 ↔
      (bm (bit / 8)).toNat.testBit (bit % 8) = false := by
    rw [← UInt8.toNat_inj, h]
    cases (bm (bit / 8)).toNat.testBit (bit % 8) <;> simp
  simp [bitmapGet, hiff]

/-- Setting a bit sets that bit. -/
theorem bitmapGet_set8 (bm : Block) (bit i : Nat) :
    bitmapGet (bitmapSet8 bm bit) i = (decide (i = bit) || bitmapGet bm i) := by
  rw [bitmapGet_eq, bitmapGet_eq, bitmapSet8]
  by_cases hbyte : i / 8 = bit / 8
  · rw [hbyte, update_self, UInt8.toNat_or, bitMask_toNat, Nat.testBit_or,
      Nat.testBit_two_pow, Bool.or_comm]
    congr 1
    have h : bit % 8 = i % 8 ↔ i = bit := by omega
    simp [h]
  · have hne : i ≠ bit := by rintro rfl; exact hbyte rfl
    rw [update_of_ne hbyte, decide_eq_false hne, Bool.false_or]

/-- Clearing a bit clears that bit. -/
theorem bitmapGet_clear8 (bm : Block) (bit i : Nat) :
    bitmapGet (bitmapClear8 bm bit) i = (!decide (i = bit) && bitmapGet bm i) := by
  rw [bitmapGet_eq, bitmapGet_eq, bitmapClear8]
  by_cases hbyte : i / 8 = bit / 8
  · have hmask : (~~~bitMask bit).toNat.testBit (i % 8) = !decide (i = bit) := by
      have hdec : ∀ k < 8, ∀ j < 8,
          (~~~((1 : UInt8) <<< UInt8.ofNat k)).toNat.testBit j = !decide (j = k) := by decide
      rw [bitMask, hdec _ (Nat.mod_lt _ (by omega)) _ (Nat.mod_lt _ (by omega))]
      have h : i % 8 = bit % 8 ↔ i = bit := by omega
      simp [h]
    rw [hbyte, update_self, UInt8.toNat_and, Nat.testBit_and, hmask, Bool.and_comm]
  · have hne : i ≠ bit := by rintro rfl; exact hbyte rfl
    rw [update_of_ne hbyte, decide_eq_false hne]
    rfl

variable {bm : Block} {bit b g : Nat} {v : Volume}

/-- A bit within the block survives storing. -/
theorem bitmapGet_cut {size : Nat} (h : bit < 8 * size) :
    bitmapGet (bm.cut size) bit = bitmapGet bm bit := by
  rw [bitmapGet, bitmapGet, Block.cut, if_pos (by omega)]

/-! ### Access -/

theorem readBlock_of_lt (h : b < v.mnt.blocksCount) : (readBlock b).run v = (.ok (v.blocks b), v) :=
  (bind_of_ok (run_get v)).trans (bind_of_ok (require_of_pos h))

theorem readBlock_of_le (h : ¬b < v.mnt.blocksCount) : (readBlock b).run v = (.error .range, v) :=
  (bind_of_ok (run_get v)).trans (bind_of_error (require_of_neg h))

theorem writeBlock_of_lt {buffer : Block} (h : b < v.mnt.blocksCount) :
    (writeBlock b buffer).run v = (.ok (), v.setBlock b buffer) :=
  (bind_of_ok (run_get v)).trans (bind_of_ok (require_of_pos h))

theorem readGroupDesc_of_lt (h : g < v.mnt.groupCount ∧ v.mnt.groupDescInRange g) :
    (readGroupDesc g).run v = (.ok (v.groups g), v) :=
  (bind_of_ok (run_get v)).trans (bind_of_ok (require_of_pos h))

theorem readGroupDesc_of_le (h : ¬(g < v.mnt.groupCount ∧ v.mnt.groupDescInRange g)) :
    (readGroupDesc g).run v = (.error .range, v) :=
  (bind_of_ok (run_get v)).trans (bind_of_error (require_of_neg h))

theorem writeGroupDesc_of_lt {gd : GroupDesc}
    (h : g < v.mnt.groupCount ∧ v.mnt.groupDescInRange g) :
    (writeGroupDesc g gd).run v = (.ok (), v.setGroup g gd) :=
  (bind_of_ok (run_get v)).trans (bind_of_ok (require_of_pos h))

/-! ### Scans -/

theorem groupValidBlocks_le (mnt : Mount) (g : Nat) :
    mnt.groupValidBlocks g ≤ mnt.blocksPerGroup := by
  unfold Mount.groupValidBlocks
  dsimp only
  split
  · omega
  · split <;> omega

private theorem scanBits_some {mnt : Mount} {group valid bit0 count scan : Nat}
    (hcount : scan + count ≤ valid) (h : scanBits mnt bm group valid bit0 count scan = some bit) :
    mnt.allocatable (group * mnt.blocksPerGroup + bit) = true ∧ bitmapGet bm bit = false ∧
      (bit < valid ∨ bit < bit0) := by
  induction count generalizing scan with
  | zero => simp [scanBits] at h
  | succ count ih =>
    rw [scanBits] at h
    generalize hb : (if valid ≤ bit0 + scan then bit0 + scan - valid else bit0 + scan) = b at h
    split at h
    · exact ih (by omega) h
    rename_i hfree
    obtain rfl := Option.some.inj h
    simp only [Bool.or_eq_true, Bool.not_eq_true', not_or, Bool.not_eq_false,
      Bool.not_eq_true] at hfree
    exact ⟨hfree.1, hfree.2, by split at hb <;> omega⟩

/-- A clear bit that `alloc_block_goal` may take. -/
structure FoundBlock (v : Volume) (f : FoundBit) : Prop where
  group_lt : f.group < v.mnt.groupCount
  inRange : v.mnt.groupDescInRange f.group
  gd : f.gd = v.groups f.group
  free : f.gd.freeBlocks ≠ 0
  bitmap_lt : f.gd.blockBitmap < v.mnt.blocksCount
  bm : f.bm = v.blocks f.gd.blockBitmap
  bit_lt : f.bit < v.mnt.blocksPerGroup
  allocatable : v.mnt.allocatable (f.group * v.mnt.blocksPerGroup + f.bit) = true
  clear : bitmapGet f.bm f.bit = false

/-- The outcome of a scan: it changes nothing, and what it found satisfies `P`. -/
def ScanResult (v : Volume) (P : FoundBit → Prop)
    (r : Except Ext4Status (Option FoundBit) × Volume) :
    Prop :=
  r.2 = v ∧ ∀ f, r.1 = .ok (some f) → P f

/-- The scan changes nothing, and what it finds is a clear bit of a block. -/
theorem scanGroups_spec (v : Volume) (startGroup : Nat) {startBit : Nat}
    (hbit : startBit < v.mnt.blocksPerGroup) (count pass : Nat) :
    ScanResult v (FoundBlock v) ((scanGroups startGroup startBit count pass).run v) := by
  induction count generalizing pass with
  | zero => exact ⟨rfl, nofun⟩
  | succ count ih =>
    rw [scanGroups, bind_of_ok (run_get v)]
    dsimp only
    generalize hgroup : (if v.mnt.groupCount ≤ (startGroup + pass) % 2 ^ 32 then
      (startGroup + pass) % 2 ^ 32 - v.mnt.groupCount else (startGroup + pass) % 2 ^ 32) = group
    by_cases hg : group < v.mnt.groupCount ∧ v.mnt.groupDescInRange group
    · rw [bind_of_ok (readGroupDesc_of_lt hg)]
      split
      · exact ih _
      rename_i hfree
      by_cases hbb : (v.groups group).blockBitmap < v.mnt.blocksCount
      · rw [bind_of_ok (readBlock_of_lt hbb)]
        generalize hbit0 : (if group = startGroup then startBit else 0) = bit0
        cases hscan : scanBits v.mnt (v.blocks (v.groups group).blockBitmap) group
          (v.mnt.groupValidBlocks group) bit0 (v.mnt.groupValidBlocks group) 0 with
        | none => exact ih _
        | some bit =>
          refine ⟨rfl, fun f hf => ?_⟩
          cases hf
          obtain ⟨hall, hclear, hlt⟩ := scanBits_some (by omega) hscan
          have hvalid := groupValidBlocks_le v.mnt group
          have hbit0' : bit0 ≤ startBit := by
            rw [← hbit0]
            split <;> omega
          exact ⟨hg.1, hg.2, rfl, hfree, hbb, rfl, by dsimp only; omega, hall, hclear⟩
      · rw [bind_of_error (readBlock_of_le hbb)]
        exact ⟨rfl, nofun⟩
    · rw [bind_of_error (readGroupDesc_of_le hg)]
      exact ⟨rfl, nofun⟩

private theorem scanInodeBits_some {mnt : Mount} {group count bit' : Nat}
    (h : scanInodeBits mnt bm group count bit = some bit') :
    mnt.inodeAllocatable (group * mnt.inodesPerGroup + bit' + 1) = true ∧
      bitmapGet bm bit' = false ∧ bit' < bit + count := by
  induction count generalizing bit with
  | zero => simp [scanInodeBits] at h
  | succ count ih =>
    rw [scanInodeBits] at h
    split at h
    · obtain ⟨hall, hclear, hlt⟩ := ih h
      exact ⟨hall, hclear, by omega⟩
    rename_i hfree
    obtain rfl := Option.some.inj h
    simp only [Bool.or_eq_true, Bool.not_eq_true', not_or, Bool.not_eq_false,
      Bool.not_eq_true] at hfree
    exact ⟨hfree.1, hfree.2, by omega⟩

/-- A clear bit that `alloc_inode` may take. -/
structure FoundInode (v : Volume) (f : FoundBit) : Prop where
  group_lt : f.group < v.mnt.groupCount
  inRange : v.mnt.groupDescInRange f.group
  gd : f.gd = v.groups f.group
  free : f.gd.freeInodes ≠ 0
  bitmap_lt : f.gd.inodeBitmap < v.mnt.blocksCount
  bm : f.bm = v.blocks f.gd.inodeBitmap
  bit_lt : f.bit < v.mnt.inodesPerGroup
  allocatable : v.mnt.inodeAllocatable (f.group * v.mnt.inodesPerGroup + f.bit + 1) = true
  clear : bitmapGet f.bm f.bit = false

/-- The scan changes nothing, and what it finds is a clear bit of an inode. -/
theorem scanInodeGroups_spec (v : Volume) (count group : Nat) :
    ScanResult v (FoundInode v) ((scanInodeGroups count group).run v) := by
  induction count generalizing group with
  | zero => exact ⟨rfl, nofun⟩
  | succ count ih =>
    rw [scanInodeGroups, bind_of_ok (run_get v)]
    by_cases hg : group < v.mnt.groupCount ∧ v.mnt.groupDescInRange group
    · rw [bind_of_ok (readGroupDesc_of_lt hg)]
      split
      · exact ih _
      rename_i hfree
      by_cases hib : (v.groups group).inodeBitmap < v.mnt.blocksCount
      · rw [bind_of_ok (readBlock_of_lt hib)]
        cases hscan : scanInodeBits v.mnt (v.blocks (v.groups group).inodeBitmap) group
          v.mnt.inodesPerGroup 0 with
        | none => exact ih _
        | some bit =>
          refine ⟨rfl, fun f hf => ?_⟩
          cases hf
          obtain ⟨hall, hclear, hlt⟩ := scanInodeBits_some hscan
          exact ⟨hg.1, hg.2, rfl, hfree, hib, rfl, by dsimp only; omega, hall, hclear⟩
      · rw [bind_of_error (readBlock_of_le hib)]
        exact ⟨rfl, nofun⟩
    · rw [bind_of_error (readGroupDesc_of_le hg)]
      exact ⟨rfl, nofun⟩

end Rabbitbone.Spec.Ext4
