import Rabbitbone.Spec.Ext4.AllocRun

/-!
# The allocator finds every free block

`alloc_block_goal` starts at some bit of some group and goes round, over the bits of each group and
over the groups.  On a consistent volume it visits every bit once, so it reports a full volume
exactly if no bit is left to take.

## Key results

- `scanBits_none`: a scan of one group that finds nothing has seen every bit.
- `scanGroups_total`: on a consistent volume the scan ends without an error, and it finds something
  or has seen every group it has passed.
- `ConsistentVolume.groupCount_le`: the descriptor table of a consistent volume ends in the third
  group, so the number of groups is far from overflowing the group counter.
-/

namespace Rabbitbone.Spec.Ext4

open FallibleState Native.Ext4 Finset Nat

variable {v : Volume} {g bit0 count b bit pass start : Nat}

/-- A consistent volume: valid places of the metadata, right counts, and a descriptor table that is
part of the volume and shares no block with a bitmap. -/
structure ConsistentVolume (v : Volume) : Prop extends Layout v, Counted v where
  table : ∀ g < v.mnt.groupCount, v.mnt.groupDescInRange g
  outside : ∀ g < v.mnt.groupCount, (v.groups g).blockBitmap < v.mnt.groupDescTableBlock ∨
      v.mnt.groupDescTableBlock +
        divRoundUp (v.mnt.groupCount * v.mnt.groupDescSize) v.mnt.blockSize
        ≤ (v.groups g).blockBitmap

/-- A clear bit of a block bitmap that belongs to a data block of the volume outside the journal. -/
structure FreeBit (v : Volume) (g bit : Nat) : Prop where
  group_lt : g < v.mnt.groupCount
  bit_lt : bit < v.mnt.blocksPerGroup
  allocatable : v.mnt.allocatable (g * v.mnt.blocksPerGroup + bit) = true
  clear : blockBit v g bit = false

/-- A free bit stands for a block of the volume. -/
theorem FreeBit.valid (h : FreeBit v g bit) : bit < v.mnt.groupValidBlocks g := by
  have hlt := allocatable_lt h.allocatable
  have hbit := h.bit_lt
  rw [Mount.groupValidBlocks]
  split
  · omega
  · split <;> omega

/-! ### The bits of a group -/

/-- The bit that the turn `scan` of the loop looks at. -/
def bitAt (valid bit0 scan : Nat) : Nat :=
  if valid ≤ bit0 + scan then bit0 + scan - valid else bit0 + scan

/-- Every bit has its turn. -/
theorem exists_bitAt {valid : Nat} (h0 : bit0 < valid) (h : bit < valid) :
    ∃ scan < valid, bitAt valid bit0 scan = bit := by
  by_cases hle : bit0 ≤ bit
  · refine ⟨bit - bit0, by omega, ?_⟩
    rw [bitAt, if_neg (by omega)]
    omega
  refine ⟨bit + valid - bit0, by omega, ?_⟩
  rw [bitAt, if_pos (by omega)]
  omega

private theorem scanBits_none {mnt : Mount} {bm : Block} {group valid scan : Nat}
    (h : scanBits mnt bm group valid bit0 count scan = none) {k : Nat} (hk : scan ≤ k)
    (hlt : k < scan + count)
    (hall : mnt.allocatable (group * mnt.blocksPerGroup + bitAt valid bit0 k) = true) :
    bitmapGet bm (bitAt valid bit0 k) = true := by
  induction count generalizing scan with
  | zero => omega
  | succ count ih =>
    change (if (!mnt.allocatable (group * mnt.blocksPerGroup + bitAt valid bit0 scan) ||
        bitmapGet bm (bitAt valid bit0 scan)) = true
      then scanBits mnt bm group valid bit0 count (scan + 1)
      else some (bitAt valid bit0 scan)) = none at h
    split at h
    · rename_i hskip
      rcases eq_or_lt_of_le hk with rfl | hlt'
      · -- the bit of this turn is no data block or set
        rw [hall] at hskip
        exact hskip
      · exact ih h hlt' (by omega)
    · exact nomatch h

/-- A group without a free bit. -/
def Full (v : Volume) (g : Nat) : Prop := ∀ bit, ¬FreeBit v g bit

private theorem full_of_scanBits
    (h0 : v.mnt.groupValidBlocks g ≠ 0 → bit0 < v.mnt.groupValidBlocks g)
    (h : scanBits v.mnt (v.blocks (v.groups g).blockBitmap) g (v.mnt.groupValidBlocks g) bit0
      (v.mnt.groupValidBlocks g) 0 = none) : Full v g := by
  intro bit hbit
  have hvalid := hbit.valid
  obtain ⟨scan, hscan, rfl⟩ := exists_bitAt (h0 (by omega)) hvalid
  have hset := scanBits_none h (zero_le scan) (by omega) hbit.allocatable
  exact absurd (hset.symm.trans hbit.clear) Bool.true_eq_false.mp

private theorem full_of_freeBlocks (hc : Counted v) (h : (v.groups g).freeBlocks = 0) :
    Full v g := by
  intro bit hbit
  have hcount := hc.blocks.group g hbit.group_lt
  rw [h] at hcount
  have hempty := card_eq_zero.mp hcount.symm
  have hfirst : v.mnt.firstDataBlock ≤ g * v.mnt.blocksPerGroup + bit := by
    have hall := hbit.allocatable
    simp only [Mount.allocatable, Bool.and_eq_true, decide_eq_true_eq] at hall
    rw [← allocatorFirstDataBlock_eq]
    exact hall.1.1
  have hmem : bit ∈ (blockDom v.mnt g).filter fun k => blockBit v g k = false := by
    rw [mem_filter, blockDom, mem_filter, mem_range]
    exact ⟨⟨hbit.valid, hfirst⟩, hbit.clear⟩
  rw [hempty] at hmem
  exact absurd hmem (notMem_empty bit)

/-! ### The groups -/

private theorem le_divRoundUp_mul (a : Nat) (hb : 0 < b) : a ≤ divRoundUp a b * b := by
  have h := div_add_mod a b
  have hlt := mod_lt a hb
  rw [divRoundUp, add_mul, mul_comm (a / b) b]
  split
  · omega
  · omega

/-- The bitmap of the third group is behind the descriptor table, which has at least 32 bytes for
each group. -/
theorem ConsistentVolume.groupCount_le (h : ConsistentVolume v) :
    v.mnt.groupCount ≤ 3 * 2 ^ 22 := by
  by_cases hthree : v.mnt.groupCount ≤ 2
  · omega
  obtain ⟨-, hdiv⟩ := h.blockBitmap 2 (by omega)
  have hpos := v.mnt.blocksPerGroup_pos
  have hper := v.mnt.blocksPerGroup_le
  have hsize := v.mnt.blockSize_mem
  have htable : v.mnt.groupDescTableBlock ≤ 2 := by
    rw [Mount.groupDescTableBlock]
    split <;> omega
  -- the bitmap is a block of the group 2
  have hlow : 2 * v.mnt.blocksPerGroup ≤ (v.groups 2).blockBitmap := by
    have hmul := div_mul_le_self (v.groups 2).blockBitmap v.mnt.blocksPerGroup
    rwa [hdiv] at hmul
  have hhigh : (v.groups 2).blockBitmap < 3 * v.mnt.blocksPerGroup := by
    have hmul := lt_div_mul_add hpos (a := (v.groups 2).blockBitmap)
    rw [hdiv] at hmul
    omega
  have hbytes := le_divRoundUp_mul (v.mnt.groupCount * v.mnt.groupDescSize)
    (show 0 < v.mnt.blockSize by omega)
  have hdesc : v.mnt.groupCount * 32 ≤ v.mnt.groupCount * v.mnt.groupDescSize :=
    mul_le_mul_left _ v.mnt.groupDescSize_mem.1
  rcases h.outside 2 (by omega) with hbefore | hbehind
  · omega
  have hblocks : divRoundUp (v.mnt.groupCount * v.mnt.groupDescSize) v.mnt.blockSize
      ≤ 3 * 32768 := by omega
  have htotal := Nat.mul_le_mul hblocks (show v.mnt.blockSize ≤ 4096 by omega)
  omega

/-- The group that the turn `pass` of the loop looks at. -/
def groupAt (count start pass : Nat) : Nat :=
  if count ≤ start + pass then start + pass - count else start + pass

/-- Every group has its turn. -/
theorem exists_groupAt (hstart : start ≤ count) (hg : g < count) :
    ∃ pass < count, groupAt count start pass = g := by
  rcases eq_or_lt_of_le hstart with rfl | hlt
  · refine ⟨g, hg, ?_⟩
    rw [groupAt, if_pos (Nat.le_add_right ..)]
    omega
  · exact exists_bitAt hlt hg

private theorem groupAt_lt (hstart : start ≤ count) (hpass : pass < count) :
    groupAt count start pass < count := by
  rw [groupAt]
  split <;> omega

/-- The scan of the groups of a consistent volume ends without an error. -/
theorem scanGroups_total (h : ConsistentVolume v) {startGroup startBit : Nat}
    (hstart : startGroup ≤ v.mnt.groupCount)
    (hbit : startGroup < v.mnt.groupCount → startBit < v.mnt.groupValidBlocks startGroup)
    (hcount : pass + count ≤ v.mnt.groupCount) :
    (∃ f, (scanGroups startGroup startBit count pass).run v = (.ok (some f), v)) ∨
      (scanGroups startGroup startBit count pass).run v = (.ok none, v) ∧
        ∀ k, pass ≤ k → k < pass + count → Full v (groupAt v.mnt.groupCount startGroup k) := by
  induction count generalizing pass with
  | zero => exact .inr ⟨rfl, fun k hk hlt => by omega⟩
  | succ count ih =>
    have hle := h.groupCount_le
    have hmod : (startGroup + pass) % 2 ^ 32 = startGroup + pass := mod_eq_of_lt (by omega)
    have hg := groupAt_lt hstart (show pass < v.mnt.groupCount by omega)
    have hbb := (h.blockBitmap _ hg).1
    -- a group that is skipped is full
    have hskip : Full v (groupAt v.mnt.groupCount startGroup pass) →
        (∃ f, (scanGroups startGroup startBit count (pass + 1)).run v = (.ok (some f), v)) ∨
          (scanGroups startGroup startBit count (pass + 1)).run v = (.ok none, v) ∧
            ∀ k, pass ≤ k → k < pass + (count + 1) →
              Full v (groupAt v.mnt.groupCount startGroup k) := by
      intro hfull
      rcases ih (show pass + 1 + count ≤ v.mnt.groupCount by omega) with hfound | ⟨hnone, hrest⟩
      · exact .inl hfound
      refine .inr ⟨hnone, fun k hk hlt => ?_⟩
      rcases eq_or_lt_of_le hk with rfl | hlt'
      · exact hfull
      · exact hrest k hlt' (by omega)
    rw [scanGroups, bind_of_ok (run_get v)]
    dsimp only
    rw [hmod, ← groupAt, bind_of_ok (readGroupDesc_of_lt ⟨hg, h.table _ hg⟩)]
    generalize groupAt v.mnt.groupCount startGroup pass = g at hg hbb hskip
    by_cases hfree : (v.groups g).freeBlocks = 0
    · rw [if_pos hfree]
      exact hskip (full_of_freeBlocks h.toCounted hfree)
    rw [if_neg hfree, bind_of_ok (readBlock_of_lt hbb)]
    cases hscan : scanBits v.mnt (v.blocks (v.groups g).blockBitmap) g (v.mnt.groupValidBlocks g)
      (if g = startGroup then startBit else 0) (v.mnt.groupValidBlocks g) 0 with
    | none =>
      refine hskip (full_of_scanBits (fun hne => ?_) hscan)
      split
      · rename_i heq
        rw [heq]
        exact hbit (heq ▸ hg)
      · omega
    | some bit => exact .inl ⟨_, rfl⟩

/-! ### The allocator -/

/-- A goal is a data block of the volume once it is normalized. -/
theorem allocatorNormalizeGoal_lt (v : Volume) (goal : Nat) :
    v.allocatorNormalizeGoal goal < v.mnt.blocksCount := by
  have hfirst := firstDataBlock_lt v.mnt
  rw [← allocatorFirstDataBlock_eq] at hfirst
  rw [Volume.allocatorNormalizeGoal]
  generalize (if v.mnt.allocatable goal then goal else v.allocatorNextBlock) = next
  split
  · rename_i hall
    exact allocatable_lt hall
  · exact hfirst

/-- On a consistent volume `alloc_block_goal`, if it gets its buffers, reports that there is no
block left exactly if no bitmap has a clear bit that belongs to a data block outside the journal,
whatever the goal is. -/
theorem allocBlockGoal_noMemory_iff {v : Volume} (h : ConsistentVolume v) {tmpBlocks : Nat}
    (htmp : 2 ≤ tmpBlocks) (goal : Nat) (zero : Bool) :
    ((allocBlockGoal tmpBlocks goal zero).run v).1 = .error .noMemory ↔
      ¬∃ g bit, FreeBit v g bit := by
  have hgoal := allocatorNormalizeGoal_lt v goal
  have hle := h.groupCount_le
  rw [allocBlockGoal, bind_of_ok (run_get v)]
  dsimp only
  rw [if_neg (by omega)]
  generalize v.allocatorNormalizeGoal goal = goal at hgoal ⊢
  have hstart := h.group_le hgoal
  rw [mod_eq_of_lt (show goal / v.mnt.blocksPerGroup < 2 ^ 32 by omega)]
  have hspec := scanGroups_spec v (goal / v.mnt.blocksPerGroup)
    (mod_lt goal v.mnt.blocksPerGroup_pos) v.mnt.groupCount 0
  rcases scanGroups_total h hstart (fun _ => mod_lt_chunk v.mnt.blocksPerGroup_pos hgoal)
    (le_of_eq (zero_add v.mnt.groupCount)) with ⟨f, hfound⟩ | ⟨hnone, hfull⟩
  · have hf := hspec.2 f (by rw [hfound])
    obtain ⟨b, v', hok, -⟩ := takeBlock_of_counted htmp h.toCounted hf zero
    rw [bind_of_ok hfound]
    rw [hok]
    refine iff_of_false (by simp) (not_not.mpr ⟨f.group, f.bit, ?_⟩)
    refine ⟨hf.group_lt, hf.bit_lt, hf.allocatable, ?_⟩
    rw [blockBit, ← hf.gd, ← hf.bm]
    exact hf.clear
  · rw [bind_of_ok hnone]
    refine iff_of_true rfl ?_
    rintro ⟨g, bit, hbit⟩
    obtain ⟨pass, hpass, rfl⟩ := exists_groupAt hstart hbit.group_lt
    exact hfull pass (zero_le pass) (by omega) bit hbit

private theorem smallVolume_consistent : ConsistentVolume (smallVolume 0x1f 11) where
  toLayout := smallVolume_layout
  toCounted := smallVolume_counted
  table := by decide
  outside := by decide

/-- The small volume has free blocks, so the allocator does not run out. -/
theorem allocBlockGoal_small :
    ((allocBlockGoal 2 15 false).run (smallVolume 0x1f 11)).1 ≠ .error .noMemory ∧
      FreeBit (smallVolume 0x1f 11) 0 5 := by
  have hfree : FreeBit (smallVolume 0x1f 11) 0 5 := ⟨by decide, by decide, by decide, by decide⟩
  exact ⟨fun h => (allocBlockGoal_noMemory_iff smallVolume_consistent le_rfl 15 false).mp h
    ⟨0, 5, hfree⟩, hfree⟩

end Rabbitbone.Spec.Ext4
