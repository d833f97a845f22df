import Rabbitbone.Spec.Ext4.AllocRun
import Rabbitbone.Spec.Ext4.NodeList

/-!
# What the conversion of an unwritten block overwrites

`extent_array_convert_unwritten_block` replaces one extent by up to three.  Its shift loop starts
one slot behind the new last entry, so an array that becomes full is overrun by one slot.

## Key results

- `convertUnwrittenBlock_frame_iff`: exactly when nothing behind the `eh_max` slots changes.
- `convertUnwrittenBlock_overruns`: an inode that loses the upper half of its size.
-/

namespace Rabbitbone.Spec.Ext4

open FallibleState Native.Ext4

theorem logicalEnd_eq_some {s : Slot} (hlen : s.extentLenBlocks ≠ 0)
    (hend : s.eeBlock + s.extentLenBlocks < 2 ^ 32) :
    s.logicalEnd = some (s.eeBlock + s.extentLenBlocks) := by
  rw [Slot.logicalEnd, extentLogicalEndChecked, if_pos ⟨hlen, hend⟩]

/-! ### Merging stays within the entries -/

private theorem mergeSlots_entries (n : Node) (i : Nat) (u : Bool) :
    (n.mergeSlots i u).entries = n.entries - 1 := by
  rw [Node.mergeSlots, removeSlot_entries, setSlot_entries]

variable {j pos : Nat} {n : Node}

/-- Merging touches no slot behind the entries. -/
private theorem mergeSlots_slot_of_le {i : Nat} (u : Bool) (hi : i + 1 < n.entries)
    (hj : n.entries ≤ j) : (n.mergeSlots i u).slot j = n.slot j := by
  rw [Node.mergeSlots, removeSlot_slot (by rwa [setSlot_entries]), setSlot_entries,
    if_neg (by omega), if_neg (by omega), setSlot_slot, if_neg (by omega)]

private theorem mergeWithPrev_entries_le (n : Node) (pos : Nat) :
    (mergeWithPrev n pos).1.entries ≤ n.entries := by
  unfold mergeWithPrev
  split
  · rw [mergeSlots_entries]
    omega
  · exact Nat.le_refl _

private theorem mergeWithPrev_slot_of_le (hpos : pos < n.entries)
    (hj : n.entries ≤ j) : (mergeWithPrev n pos).1.slot j = n.slot j := by
  unfold mergeWithPrev
  split
  · exact mergeSlots_slot_of_le _ (by omega) hj
  · rfl

private theorem mergeWithNext_slot_of_le (hj : n.entries ≤ j) :
    (mergeWithNext n pos).slot j = n.slot j := by
  unfold mergeWithNext
  split
  · rename_i h
    exact mergeSlots_slot_of_le _ h.1 hj
  · rfl

private theorem mergeNeighbors_slot_of_le (hj : n.entries ≤ j) :
    (extentArrayMergeNeighbors n pos).slot j = n.slot j := by
  unfold extentArrayMergeNeighbors
  split
  · rfl
  generalize hp : (if n.entries ≤ pos then n.entries - 1 else pos) = p
  have hlt : p < n.entries := by split at hp <;> omega
  have hle := mergeWithPrev_entries_le n p
  rw [mergeWithNext_slot_of_le (by omega), mergeWithPrev_slot_of_le hlt hj]

/-! ### The conversion -/

/-- The number of unwritten pieces that are left beside the converted block. -/
def splitCount (s : Slot) (logical : Nat) : Nat :=
  (if s.eeBlock < logical then 1 else 0) +
    (if logical + 1 < s.eeBlock + s.extentLenBlocks then 1 else 0)

/-- An extent is cut in one piece more than it is split. -/
private theorem length_convertPieces (s : Slot) (logical : Nat) :
    (convertPieces s (s.eeBlock + s.extentLenBlocks) logical).length =
      splitCount s logical + 1 := by
  unfold convertPieces splitCount
  split <;> split <;> rfl

/-- The physical block of a logical block of an extent. -/
def physBlock (s : Slot) (logical : Nat) : Nat := s.extentStartBlock + (logical - s.eeBlock)

/-- The outcome of a conversion that changes nothing but the header, the slots below `eh_max` and
the data block. -/
def ConvertFrame (v : Volume) (n : Node) (phys : Nat) :
    Except Ext4Status (Nat × Node) × Volume → Prop
  | (.ok (_, n'), v') => (∀ i, n.max ≤ i → n'.slot i = n.slot i) ∧ v' = v.setBlock phys zeroBlock
  | (.error _, v') => v' = v

section

variable {v : Volume} {n : Node} {pos logical : Nat}

/-- The conversion fails without a change, or goes through. -/
theorem convertUnwrittenBlock_run (hpos : pos < n.entries)
    (hunwritten : (n.slot pos).extentIsUnwritten = true)
    (hend : (n.slot pos).eeBlock + (n.slot pos).extentLenBlocks < 2 ^ 32)
    (hin : (n.slot pos).eeBlock ≤ logical ∧
      logical < (n.slot pos).eeBlock + (n.slot pos).extentLenBlocks) :
    (extentArrayConvertUnwrittenBlock n pos logical).run v =
      if ¬physBlock (n.slot pos) logical < v.mnt.blocksCount then (.error .range, v)
      else if ¬n.entries + splitCount (n.slot pos) logical ≤ n.max then (.error .unsupported, v)
      else (.ok (physBlock (n.slot pos) logical, extentArrayMergeNeighbors (n.splitSlot pos
        (convertPieces (n.slot pos) ((n.slot pos).eeBlock + (n.slot pos).extentLenBlocks) logical))
          pos), v.setBlock (physBlock (n.slot pos) logical) zeroBlock) := by
  have hlast := logicalEnd_eq_some (by omega) hend
  rw [extentArrayConvertUnwrittenBlock, bind_of_ok (run_get v),
    bind_of_ok (require_of_pos ⟨hpos, hunwritten⟩), bind_of_ok (ofOption_of_some hlast),
    bind_of_ok (require_of_pos hin), ← physBlock]
  by_cases hphys : physBlock (n.slot pos) logical < v.mnt.blocksCount
  · rw [if_neg (not_not_intro hphys), bind_of_ok (require_of_pos hphys)]
    dsimp only
    rw [length_convertPieces, Nat.add_sub_cancel]
    by_cases hmax : n.entries + splitCount (n.slot pos) logical ≤ n.max
    · rw [if_neg (not_not_intro hmax), bind_of_ok (require_of_pos hmax), writeDataBlock,
        bind_of_ok (writeBlock_of_lt hphys), run_pure]
    · rw [if_pos hmax, bind_of_error (require_of_neg hmax)]
  · rw [if_pos hphys, bind_of_error (require_of_neg hphys)]

/-- The slots behind `eh_max` after a conversion. -/
theorem convertUnwrittenBlock_slot (hpos : pos < n.entries)
    (hmax : n.entries + splitCount (n.slot pos) logical ≤ n.max) {i : Nat} (hi : n.max ≤ i) :
    (extentArrayMergeNeighbors (n.splitSlot pos (convertPieces (n.slot pos)
        ((n.slot pos).eeBlock + (n.slot pos).extentLenBlocks) logical)) pos).slot i
      = if i = n.entries + splitCount (n.slot pos) logical then n.slot n.entries else n.slot i := by
  have hlen := length_convertPieces (n.slot pos) logical
  generalize convertPieces (n.slot pos) _ logical = ps at hlen ⊢
  have hne : ps ≠ [] := List.ne_nil_of_length_pos (by omega)
  have hlt := max_lt n
  have hentries : (n.splitSlot pos ps).entries = _ := splitSlot_entries (by omega)
  rw [mergeNeighbors_slot_of_le (by rw [hentries, hlen]; omega), splitSlot_slot hpos hne,
    if_neg (by omega), hlen, Nat.add_sub_cancel]
  by_cases heq : i = n.entries + splitCount (n.slot pos) logical
  · rw [if_pos (by omega), if_pos heq, heq, Nat.add_sub_cancel]
  · rw [if_neg (by omega), if_neg heq]

/-- A conversion overwrites something behind the slots of the node exactly when it splits the
extent, fills the node, and the first unused slot differs from what is behind the last one. -/
theorem convertUnwrittenBlock_frame_iff (hpos : pos < n.entries)
    (hunwritten : (n.slot pos).extentIsUnwritten = true)
    (hend : (n.slot pos).eeBlock + (n.slot pos).extentLenBlocks < 2 ^ 32)
    (hin : (n.slot pos).eeBlock ≤ logical ∧
      logical < (n.slot pos).eeBlock + (n.slot pos).extentLenBlocks) :
    ConvertFrame v n (physBlock (n.slot pos) logical)
        ((extentArrayConvertUnwrittenBlock n pos logical).run v) ↔
      ¬(physBlock (n.slot pos) logical < v.mnt.blocksCount ∧
        n.entries + splitCount (n.slot pos) logical = n.max ∧ n.slot n.entries ≠ n.slot n.max) := by
  rw [convertUnwrittenBlock_run hpos hunwritten hend hin]
  by_cases hphys : physBlock (n.slot pos) logical < v.mnt.blocksCount
  swap
  · rw [if_pos hphys]
    exact iff_of_true rfl fun h => hphys h.1
  rw [if_neg (not_not_intro hphys)]
  by_cases hmax : n.entries + splitCount (n.slot pos) logical ≤ n.max
  swap
  · rw [if_pos hmax]
    exact iff_of_true rfl fun h => hmax h.2.1.le
  rw [if_neg (not_not_intro hmax)]
  constructor
  · intro ⟨hframe, _⟩ ⟨_, hfull, hne⟩
    have hslot := hframe n.max (Nat.le_refl _)
    rw [convertUnwrittenBlock_slot hpos hmax (Nat.le_refl _), if_pos hfull.symm] at hslot
    exact hne hslot
  · intro hnot
    refine ⟨fun i hi => ?_, rfl⟩
    rw [convertUnwrittenBlock_slot hpos hmax hi]
    split
    · rename_i heq
      -- Only the slot `eh_max` itself can be hit, and then it must hold the same bytes.
      have hfull : n.entries + splitCount (n.slot pos) logical = n.max := by omega
      have himax : i = n.max := by omega
      rw [himax]
      by_contra hne
      exact hnot ⟨hphys, hfull, hne⟩
    · rfl

end

/-- A file of 4 GiB and three blocks with an unwritten extent of `len` blocks and a written one. -/
def largeFile (len : Nat) : Inode where
  mode := 0x8000
  sizeLo := 12288
  dtime := 0
  linksCount := 1
  blocksLo := 32
  flags := 0x80000
  node :=
    { Node.fresh 2 4 0 with
      slot := fun i =>
        if i = 0 then extentPiece 0 8 len true
        else if i = 1 then extentPiece 10 12 1 false
        else if i = 4 then ⟨7, 0, 1⟩
        else Slot.zero }

/-- The last block of two is split off; a slot stays free, and nothing behind the slots changes. -/
theorem convertUnwrittenBlock_frame_split : ConvertFrame (smallVolume 0x1f 11) (largeFile 2).node
      (physBlock ((largeFile 2).node.slot 0) 1)
      ((extentArrayConvertUnwrittenBlock (largeFile 2).node 0 1).run (smallVolume 0x1f 11)) :=
  (convertUnwrittenBlock_frame_iff (by decide) (by decide) (by decide) (by decide)).mpr (by decide)

/-- Converting the middle block of three fills the inode's four slots, and the shift stores an
unused slot over `i_generation`, `i_file_acl_lo` and `i_size_high`. -/
theorem convertUnwrittenBlock_overruns :
    ∃ n', ((extentArrayConvertUnwrittenBlock (largeFile 3).node 0 1).run (smallVolume 0x1f 11)).1
        = .ok (9, n') ∧
      n'.slot 4 ≠ (largeFile 3).node.slot 4 ∧
      (largeFile 3).size = 2 ^ 32 + 12288 ∧ { largeFile 3 with node := n' }.size = 12288 :=
  ⟨_, rfl, by decide, by decide, by decide⟩

end Rabbitbone.Spec.Ext4
