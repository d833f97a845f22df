import Rabbitbone.Native.Ext4.Mapping

/-!
# Removed inodes and the orphan list

Model of `kernel/fs/ext4/orphan_cleanup.inc` and of the end of `kernel/fs/ext4/link_unlink.inc`:
freeing all blocks of an inode, the list of inodes that have no name but still exist, and the
removal of the last link.

The list starts at `s_last_orphan` and goes on in `i_dtime`.  The superblock is a record of the
volume, so that storing it is part of changing it.
-/

namespace Rabbitbone.Native.Ext4

open FallibleState

/-! ### The blocks of an inode -/

/-- The blocks of one extent, from the `j`-th on with `count` turns left. -/
def freeExtentRun (start : Nat) : Nat → Nat → VolumeM Unit
  | 0, _ => pure ()
  | count + 1, j => do
    require (start + j < 2 ^ 64) .range
    freeBlock (start + j)
    freeExtentRun start count (j + 1)

/-- `free_extent_array_blocks`, from the extent `i` on with `count` turns left. -/
def freeExtentArrayBlocks (n : Node) : Nat → Nat → VolumeM Unit
  | 0, _ => pure ()
  | count + 1, i => do
    freeExtentRun (n.slot i).extentStartBlock (n.slot i).extentLenBlocks 0
    freeExtentArrayBlocks n count (i + 1)

/-- `free_extent_tree_blocks`. -/
def freeExtentTreeBlocks : Nat → Node → VolumeM Unit
  | 0, n => do
    require (n.magic = extMagic ∧ n.depth = 0) .corrupt
    freeExtentArrayBlocks n n.entries 0
  | depth + 1, n => do
    require (n.magic = extMagic ∧ n.depth = depth + 1) .corrupt
    forChildren n (fun child _ => do
      let block ← readBlock child
      freeExtentTreeBlocks depth (decodeNode block)
      freeBlock child) n.entries 0 ()

/-- The direct blocks of an inode without extents, from the `k`-th on with `count` turns left. -/
def freeDirectBlocks : Nat → Nat → Inode → VolumeM Inode
  | 0, _, inode => pure inode
  | count + 1, k, inode =>
    if inode.iBlock k = 0 then freeDirectBlocks count (k + 1) inode
    else do
      freeBlock (inode.iBlock k).toNat
      freeDirectBlocks count (k + 1) (inode.setIBlockWord k 0)

/-- The blocks that an indirect block names, from the `k`-th on with `count` turns left. -/
def freeIndirectEntries (block : Block) : Nat → Nat → VolumeM Unit
  | 0, _ => pure ()
  | count + 1, k =>
    if le32At block (4 * k) = 0 then freeIndirectEntries block count (k + 1)
    else do
      freeBlock (le32At block (4 * k)).toNat
      freeIndirectEntries block count (k + 1)

/-- The indirect block of an inode without extents, with the blocks it names. -/
def freeIndirectBlock (inode : Inode) : VolumeM Inode := do
  let v ← get
  let indirect := (inode.iBlock 12).toNat
  if indirect = 0 then pure inode
  else do
    let block ← readBlock indirect
    freeIndirectEntries block (v.mnt.blockSize / 4) 0
    freeBlock indirect
    pure (inode.setIBlockWord 12 0)

/-- The end of `free_inode_blocks`: the index block of a directory. -/
def freeIndexBlock (inode : Inode) : VolumeM Inode :=
  if inode.isDir ∧ inode.hasIndex ∧ inode.fileAclLo ≠ 0 then do
    freeBlock inode.fileAclLo.toNat
    pure (inode.setFileAclLo 0).clearIndex
  else pure inode.clearIndex

/-- `memset(inode->i_block, 0, sizeof(inode->i_block))`. -/
def Inode.clearIBlock (inode : Inode) : Inode := inode.setIBlock ⟨0, 0, 0, 0, 0, fun _ => Slot.zero⟩

/-- `free_inode_blocks`. -/
def freeInodeBlocks (inode : Inode) : VolumeM Inode :=
  if inode.isSymlink ∧ inode.size ≤ 60 ∧ inode.blocksLo = 0 then
    -- the target of a short symbolic link is in `i_block` itself
    pure { inode.clearIBlock.setSize 0 with flags := 0 }
  else if inode.usesExtents then do
    require (inode.node.magic = extMagic) .corrupt
    freeExtentTreeBlocks inode.node.depth inode.node
    freeIndexBlock { inode.clearIBlock.setSize 0 with blocksLo := 0 }
  else do
    let inode ← freeDirectBlocks 12 0 inode
    let inode ← freeIndirectBlock inode
    let inode ← freeIndexBlock inode
    pure { inode.setSize 0 with blocksLo := 0 }

/-! ### The orphan list -/

/-- `orphan_push`. -/
def orphanPush (ino : Nat) (inode : Inode) : VolumeM Inode := do
  require (ino ≠ 0) .range
  let v ← get
  let inode := { inode with dtime := v.sbLastOrphan }
  writeInode ino inode
  modify fun v => { v with sbLastOrphan := UInt32.ofNat ino }
  pure inode

/-- The end of `orphan_remove`: take the inode `cur` out from behind `prev`. -/
def orphanUnlink (prev cur : Nat) (inode : Inode) : VolumeM Unit := do
  if prev = 0 then modify fun v => { v with sbLastOrphan := inode.dtime }
  else do
    let pinode ← ext4ReadInode prev
    writeInode prev { pinode with dtime := inode.dtime }
  writeInode cur { inode with dtime := 0 }

/-- The loop of `orphan_remove`, at `cur` behind `prev` with `turns` turns left. -/
def orphanRemoveLoop (ino : Nat) : Nat → Nat → Nat → VolumeM Unit
  | 0, _, cur => if cur = 0 then pure () else fail .corrupt
  | turns + 1, prev, cur =>
    if cur = 0 then pure ()
    else do
      let inode ← ext4ReadInode cur
      if cur = ino then orphanUnlink prev cur inode
      else orphanRemoveLoop ino turns cur inode.dtime.toNat

/-- `orphan_remove`. -/
def orphanRemove (ino : Nat) : VolumeM Unit := do
  require (ino ≠ 0) .range
  let v ← get
  orphanRemoveLoop ino v.mnt.inodesCount 0 v.sbLastOrphan.toNat

/-- `free_inode` of an orphan: an inode that is free already is passed over. -/
def freeOrphanInode (ino : Nat) (dir : Bool) : VolumeM Unit := do
  match ← attempt (freeInode ino dir) with
  | .ok _ => pure ()
  | .error .corrupt => pure ()
  | .error e => fail e

/-- The loop of `ext4_recover_orphans`, at `cur` with `turns` turns left. -/
def recoverOrphansLoop : Nat → Nat → VolumeM Unit
  | 0, cur => if cur = 0 then pure () else fail .corrupt
  | turns + 1, cur =>
    if cur = 0 then pure ()
    else do
      let inode ← ext4ReadInode cur
      let _ ← freeInodeBlocks inode
      writeInode cur Inode.zero
      freeOrphanInode cur inode.isDir
      recoverOrphansLoop turns inode.dtime.toNat

/-- `ext4_recover_orphans`. -/
def ext4RecoverOrphans : VolumeM Unit := do
  let v ← get
  recoverOrphansLoop v.mnt.inodesCount v.sbLastOrphan.toNat
  modify fun v => { v with sbLastOrphan := 0 }

/-! ### Removing the last link -/

/-- `free_removed_inode`. -/
def freeRemovedInode (ino : Nat) (inode : Inode) (isDir : Bool) : VolumeM Unit := do
  require (ino ≠ 0) .range
  let inode ← orphanPush ino inode
  let _ ← freeInodeBlocks inode
  writeInode ino Inode.zero
  freeInode ino isDir
  orphanRemove ino

end Rabbitbone.Native.Ext4
