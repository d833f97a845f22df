import Rabbitbone.Native.Ext4.ExtentArray

/-!
# The blocks of an inode

Model of `kernel/fs/ext4/inode_mapping.inc`: the physical block of a logical one, for inodes with an
extent tree and for those that have the direct and the indirect blocks of ext2.
-/

namespace Rabbitbone.Native.Ext4

open FallibleState

/-! ### Direct and indirect blocks -/

/-- `inode->i_block[k]`. -/
def Inode.iBlock (inode : Inode) (k : Nat) : UInt32 := le32At (encodeNode inode.node) (4 * k)

/-- `inode->i_block[k] = w`. -/
def Inode.setIBlockWord (inode : Inode) (k : Nat) (w : UInt32) : Inode :=
  { inode with node := decodeNode (putLe32 (encodeNode inode.node) k w) }

/-- `EXT4_N_BLOCKS` direct blocks before the indirect one, and the entries of that. -/
def Mount.legacyBlocks (mnt : Mount) : Nat := 12 + mnt.blockSize / 4

/-- `map_legacy_block`. -/
def mapLegacyBlock (inode : Inode) (logical : Nat) : VolumeM Nat := do
  let v ← get
  if logical < 12 then do
    let b := (inode.iBlock logical).toNat
    require (b ≠ 0) .range
    require (b < v.mnt.blocksCount ∧ v.mnt.blockIsJournal b = false) .corrupt
    pure b
  else do
    require (logical < v.mnt.legacyBlocks) .unsupported
    let indirect := (inode.iBlock 12).toNat
    require (indirect ≠ 0) .range
    require (indirect < v.mnt.blocksCount ∧ v.mnt.blockIsJournal indirect = false) .corrupt
    let block ← readBlock indirect
    let b := (le32At block (4 * (logical - 12))).toNat
    require (b ≠ 0) .range
    require (b < v.mnt.blocksCount ∧ v.mnt.blockIsJournal b = false) .corrupt
    pure b

/-! ### Extent trees -/

/-- The loop that looks for the last entry with a key up to `logical`, from `i` on with `count`
turns left. -/
def chooseEntry (n : Node) (logical : Nat) : Nat → Nat → Option Nat → Option Nat
  | 0, _, chosen => chosen
  | count + 1, i, chosen =>
    if (n.slot i).eiBlock ≤ logical then chooseEntry n logical count (i + 1) (some i) else chosen

/-- `map_extent_tree` at depth 0: the extents from `i` on with `count` turns left. -/
def mapExtents (n : Node) (logical : Nat) : Nat → Nat → VolumeM Nat
  | 0, _ => fail .range
  | count + 1, i =>
    if (n.slot i).extentIsUnwritten then mapExtents n logical count (i + 1)
    else do
      let v ← get
      let last ← ofOption (n.slot i).logicalEnd .corrupt
      if (n.slot i).eeBlock ≤ logical ∧ logical < last then do
        let phys := (n.slot i).extentStartBlock + (logical - (n.slot i).eeBlock)
        require (phys < v.mnt.blocksCount) .range
        pure phys
      else mapExtents n logical count (i + 1)

/-- The recursion of `map_extent_tree`; `cap` is the room of the node.  `leaf` gives the block of an
index entry: with `Slot.eiLeaf` spelled out here, the kernel would unfold the recursion by counting
up to `2 ^ 32`. -/
def mapExtentTreeWith (leaf : Slot → Nat) (logical : Nat) : Nat → Nat → Node → VolumeM Nat
  | depth, cap, n => do
    require (depth ≤ 5) .corrupt
    require (n.magic = extMagic) .corrupt
    require (n.entries ≤ n.max ∧ n.entries ≤ cap) .corrupt
    require (n.depth = depth) .corrupt
    match depth with
    | 0 => mapExtents n logical n.entries 0
    | depth + 1 => do
      let v ← get
      let best ← ofOption (chooseEntry n logical n.entries 0 none) .range
      let block ← readBlock (leaf (n.slot best))
      mapExtentTreeWith leaf logical depth v.mnt.extentLeafCapacity (decodeNode block)

/-- `map_extent_tree`. -/
def mapExtentTree : Nat → Nat → Nat → Node → VolumeM Nat := mapExtentTreeWith Slot.eiLeaf

/-- `map_inode_block`. -/
def mapInodeBlock (inode : Inode) (logical : Nat) : VolumeM Nat :=
  if inode.usesExtents then do
    require (inode.node.depth ≤ 5) .corrupt
    mapExtentTree logical inode.node.depth extentInlineCapacity inode.node
  else mapLegacyBlock inode logical

/-- The loop over the children of an index node, from `i` on with `count` turns left. -/
def forChildren {α : Type} (n : Node) (step : Nat → α → VolumeM α) : Nat → Nat → α → VolumeM α
  | 0, _, acc => pure acc
  | count + 1, i, acc => do
    let acc ← step (n.slot i).eiLeaf acc
    forChildren n step count (i + 1) acc

end Rabbitbone.Native.Ext4
