import Rabbitbone.Native.Ext4.Mapping

/-!
# Checking an extent tree

Model of `ext4_inspect_inode_extents` in `kernel/fs/ext4/extent_metadata_validation.inc`: the nodes
of a tree are checked one at a time, from the root down.  The counters of the report are left out.
-/

namespace Rabbitbone.Native.Ext4

open FallibleState

/-- `inspect_extent_array`: a turn of the loop gets the end of the extent before and returns that of
the extent `i`. -/
def inspectExtent (n : Node) (i prevEnd : Nat) : VolumeM Nat := do
  let v ← get
  let last ← ofOption (n.slot i).logicalEnd .corrupt
  require (i = 0 ∨ prevEnd ≤ (n.slot i).eeBlock) .corrupt
  require ((n.slot i).extentStartBlock < v.mnt.blocksCount ∧
    (n.slot i).extentLenBlocks ≤ v.mnt.blocksCount ∧
    (n.slot i).physicalEnd ≤ v.mnt.blocksCount) .range
  pure last

/-- `inspect_extent_node` in an index node: a turn of the loop gets the key before and returns that
of the entry `i`.  `child` checks a child and returns its first block. -/
def inspectIndex (n : Node) (child : Node → VolumeM Nat) (i prevFirst : Nat) : VolumeM Nat := do
  let v ← get
  require (i = 0 ∨ prevFirst < (n.slot i).eiBlock) .corrupt
  require ((n.slot i).eiLeaf < v.mnt.blocksCount ∧
    v.mnt.blockIsJournal (n.slot i).eiLeaf = false) .range
  let block ← readBlock (n.slot i).eiLeaf
  let childFirst ← child (decodeNode block)
  require ((n.slot i).eiBlock = childFirst) .corrupt
  pure (n.slot i).eiBlock

/-- `*first_out`, which stays 0 for a node without entries. -/
def Node.first (n : Node) : Nat := if n.entries = 0 then 0 else (n.slot 0).eeBlock

/-- `inspect_extent_node`; `cap` is the room of the node. -/
def inspectExtentNode : Nat → Nat → Node → VolumeM Nat
  | depth, cap, n => do
    let v ← get
    require (n.magic = extMagic) .corrupt
    require (n.depth = depth ∧ n.depth ≤ 5 ∧ n.entries ≤ n.max ∧ n.max ≤ cap) .corrupt
    match depth with
    | 0 => do
      let _ ← forLoop (inspectExtent n) n.entries 0 0
      pure n.first
    | depth + 1 => do
      let child := inspectExtentNode depth v.mnt.extentLeafCapacity
      let _ ← forLoop (inspectIndex n child) n.entries 0 0
      pure n.first

/-- `ext4_inspect_inode_extents`. -/
def ext4InspectInodeExtents (inode : Inode) : VolumeM Unit :=
  if inode.usesExtents then do
    require (inode.node.magic = extMagic) .corrupt
    require (inode.node.entries ≤ inode.node.max) .corrupt
    let _ ← inspectExtentNode inode.node.depth extentInlineCapacity inode.node
    pure ()
  else pure ()

end Rabbitbone.Native.Ext4
