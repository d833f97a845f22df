import Rabbitbone.Native.Ext4.Alloc

/-!
# Arrays of extents

Model of the conversion of an unwritten block in `kernel/fs/ext4/extents_array_write.inc`, and of
what the rest of the extent code asks of an array.

A function that changes an array in place takes the node and returns the new one, on success only.
One path of the source fails after its stores: the split is in the array when the block buffer or
the write that clears the block fails.  Memory and device do not fail here.

An extent starts below 2^48 and has at most 32768 blocks, so the checked additions on physical block
numbers cannot overflow and are plain additions here.
-/

namespace Rabbitbone.Native.Ext4

open FallibleState

/-- `extent_logical_end_checked`. -/
def extentLogicalEndChecked (first len : Nat) : Option Nat :=
  if len ≠ 0 ∧ first + len < 2 ^ 32 then some (first + len) else none

/-- The logical end of an extent. -/
def Slot.logicalEnd (s : Slot) : Option Nat := extentLogicalEndChecked s.eeBlock s.extentLenBlocks

/-- The end of an extent on the volume, `extent_physical_end_checked`. -/
def Slot.physicalEnd (s : Slot) : Nat := s.extentStartBlock + s.extentLenBlocks

/-- `extent_inline_capacity`. -/
def extentInlineCapacity : Nat := 4

/-- `extent_leaf_capacity`. -/
def Mount.extentLeafCapacity (mnt : Mount) : Nat := (mnt.blockSize - 12) / 12

/-! ### Merging -/

/-- `extent_pair_can_merge`. -/
def extentPairCanMerge (a b : Slot) : Bool :=
  a.extentLenBlocks ≠ 0 && b.extentLenBlocks ≠ 0 &&
  a.extentLenBlocks + b.extentLenBlocks ≤ 32768 &&
  a.extentIsUnwritten = b.extentIsUnwritten &&
  a.logicalEnd = some b.eeBlock && a.physicalEnd = b.extentStartBlock

/-- Give the extent `i` the length of `i` and `i + 1` together and remove `i + 1`. -/
def Node.mergeSlots (n : Node) (i : Nat) (unwritten : Bool) : Node :=
  let len := (n.slot i).extentLenBlocks + (n.slot (i + 1)).extentLenBlocks
  (n.setSlot i ((n.slot i).extentSetLenBlocksState len unwritten)).removeSlot (i + 1)

/-- `extent_array_merge_neighbors`, first half: `pos` with the extent before it. -/
def mergeWithPrev (n : Node) (pos : Nat) : Node × Nat :=
  if 0 < pos ∧ extentPairCanMerge (n.slot (pos - 1)) (n.slot pos) then
    (n.mergeSlots (pos - 1) (n.slot (pos - 1)).extentIsUnwritten, pos - 1)
  else (n, pos)

/-- `extent_array_merge_neighbors`, second half: `pos` with the extent behind it. -/
def mergeWithNext (n : Node) (pos : Nat) : Node :=
  if pos + 1 < n.entries ∧ extentPairCanMerge (n.slot pos) (n.slot (pos + 1)) then
    n.mergeSlots pos (n.slot pos).extentIsUnwritten
  else n

/-- `extent_array_merge_neighbors`. -/
def extentArrayMergeNeighbors (n : Node) (pos : Nat) : Node :=
  if n.entries = 0 then n
  else
    let (merged, pos) := mergeWithPrev n (if n.entries ≤ pos then n.entries - 1 else pos)
    mergeWithNext merged pos

/-! ### Converting an unwritten block -/

/-- A cleared slot that is made an extent. -/
def extentPiece (first start len : Nat) (unwritten : Bool) : Slot :=
  ((Slot.zero.setBlock first).extentSetStartBlock start).extentSetLenBlocksState len unwritten

/-- The `pieces` of `extent_array_convert_unwritten_block`: what is left of the extent before
`logical`, the written block, and what is left behind it. -/
def convertPieces (s : Slot) (last logical : Nat) : List Slot :=
  let phys := s.extentStartBlock + (logical - s.eeBlock)
  (if s.eeBlock < logical then [extentPiece s.eeBlock s.extentStartBlock (logical - s.eeBlock) true]
    else []) ++
  [extentPiece logical phys 1 false] ++
  (if logical + 1 < last then [extentPiece (logical + 1) (phys + 1) (last - logical - 1) true]
    else [])

/-- `for (i = 0; i < n; ++i) ext[pos + i] = pieces[i];`. -/
def Node.setSlots (n : Node) (pos : Nat) : List Slot → Node
  | [] => n
  | piece :: pieces => (n.setSlot pos piece).setSlots (pos + 1) pieces

/-- The slot `pos` replaced by `pieces`; the shift starts one slot behind the new last entry. -/
def Node.splitSlot (n : Node) (pos : Nat) (pieces : List Slot) : Node :=
  let add := pieces.length - 1
  ((n.shiftUp add (n.entries + add) (n.entries - pos)).setSlots pos pieces).setEntries
    (n.entries + add)

/-- `extent_array_convert_unwritten_block`. -/
def extentArrayConvertUnwrittenBlock (n : Node) (pos logical : Nat) : VolumeM (Nat × Node) := do
  let v ← get
  require (pos < n.entries ∧ (n.slot pos).extentIsUnwritten = true) .corrupt
  let last ← ofOption (n.slot pos).logicalEnd .corrupt
  require ((n.slot pos).eeBlock ≤ logical ∧ logical < last) .corrupt
  let phys := (n.slot pos).extentStartBlock + (logical - (n.slot pos).eeBlock)
  require (phys < v.mnt.blocksCount) .range
  let pieces := convertPieces (n.slot pos) last logical
  require (n.entries + (pieces.length - 1) ≤ n.max) .unsupported
  writeDataBlock phys zeroBlock
  pure (phys, extentArrayMergeNeighbors (n.splitSlot pos pieces) pos)

end Rabbitbone.Native.Ext4
