import Rabbitbone.ForStd.FallibleState
import Rabbitbone.Native.Ext4.Node

/-!
# A mounted ext4 volume

Model of `ext4_mount_t` and of the block and descriptor access of `kernel/fs/ext4/block_io.inc` and
`kernel/fs/ext4/group_inode_metadata.inc`.

The write cache, the data cache and the device are one map from block numbers to contents: a read
returns the last content written by either path.  The one place where the caches show is
`free_block`, which drops the cached content of the freed block, so that the block then has what the
device happens to hold.  Group descriptors, inodes and the superblock are records apart from the
blocks, and block and inode bitmaps are blocks of the map: on the device the records lie in blocks
too, and the mount does not check that no bitmap is placed in one of these.

Device accesses succeed and buffers can be allocated: the branches that undo a step after a failed
write are left out.  Only `alloc_block_goal`, which has one status for a full volume and for a
missing buffer, gets the number of its buffers as an argument.
-/

namespace Rabbitbone.Native.Ext4

/-- `ext4_status_t`, without `EXT4_OK`. -/
inductive Ext4Status where
  | io
  | badMagic
  | unsupported
  | range
  | corrupt
  | notFound
  | notDir
  | noMemory
  | exist
  | notEmpty
  deriving DecidableEq, Repr

/-- `div_round_up_u64`. -/
def divRoundUp (a b : Nat) : Nat := a / b + if a % b = 0 then 0 else 1

/-- The part of `ext4_mount_t` that stays as `ext4_mount_bounded` set it, with what it has
checked. -/
structure Mount where
  blockSize : Nat
  blocksCount : Nat
  inodesCount : Nat
  inodesPerGroup : Nat
  blocksPerGroup : Nat
  inodeSize : Nat
  groupDescSize : Nat
  groupCount : Nat
  journalFirstBlock : Nat
  journalBlocks : Nat
  /-- `s_first_data_block`. -/
  firstDataBlock : Nat
  /-- `s_first_ino`. -/
  firstIno : Nat
  blockSize_mem : blockSize = 1024 ∨ blockSize = 2048 ∨ blockSize = 4096
  blocksCount_lt : blocksCount < 2 ^ 64
  inodesCount_lt : inodesCount < 2 ^ 32
  inodesPerGroup_pos : 0 < inodesPerGroup
  inodesPerGroup_le : inodesPerGroup ≤ 8 * blockSize
  blocksPerGroup_pos : 0 < blocksPerGroup
  blocksPerGroup_le : blocksPerGroup ≤ 8 * blockSize
  groupDescSize_mem : 32 ≤ groupDescSize ∧ groupDescSize ≤ 64 ∧ groupDescSize % 8 = 0
  inodeSize_mem : 128 ≤ inodeSize ∧ inodeSize ≤ blockSize
  firstDataBlock_le : firstDataBlock ≤ blocksCount
  groupCount_eq : groupCount = divRoundUp (blocksCount - firstDataBlock) blocksPerGroup
  groupCount_pos : 0 < groupCount
  groupCount_lt : groupCount < 2 ^ 32
  journal_mem : journalBlocks = 0 ∨ journalBlocks = 2 ∧ journalFirstBlock + 2 = blocksCount

/-- The fields of `ext4_group_desc_disk_t` that are used; each is the two halves put together. -/
structure GroupDesc where
  blockBitmap : Nat
  inodeBitmap : Nat
  inodeTable : Nat
  freeBlocks : UInt32
  freeInodes : UInt32
  usedDirs : UInt32
  deriving DecidableEq, Repr

/-- What of a counter a descriptor of `size` bytes stores, when the high half is at `hiOffset`. -/
def storedCounter (size hiOffset : Nat) (c : UInt32) : UInt32 :=
  if hiOffset + 2 ≤ size then c else c % 0x10000

/-- The counters of a descriptor as `write_group_desc` stores them. -/
def GroupDesc.stored (size : Nat) (gd : GroupDesc) : GroupDesc :=
  { gd with
    freeBlocks := storedCounter size 44 gd.freeBlocks
    freeInodes := storedCounter size 46 gd.freeInodes
    usedDirs := storedCounter size 48 gd.usedDirs }

/-- A mounted volume.  `device k b` is what the device holds of the block `b` when the cached blocks
are dropped for the `k`-th time. -/
structure Volume where
  mnt : Mount
  allocatorNextBlock : Nat
  sbFreeBlocks : UInt64
  sbFreeInodes : UInt32
  sbLastOrphan : UInt32
  groups : Nat → GroupDesc
  blocks : Nat → Block
  inodes : Nat → Inode
  device : Nat → Nat → Block
  discards : Nat

/-- A function of the file system. -/
abbrev VolumeM (α : Type) : Type := FallibleState Volume Ext4Status α

open FallibleState

namespace Volume

/-- Replace the content of a block. -/
def setBlock (v : Volume) (b : Nat) (buffer : Block) : Volume :=
  { v with blocks := Function.update v.blocks b (buffer.cut v.mnt.blockSize) }

/-- Replace a group descriptor. -/
def setGroup (v : Volume) (g : Nat) (gd : GroupDesc) : Volume :=
  { v with groups := Function.update v.groups g (gd.stored v.mnt.groupDescSize) }

end Volume

/-! ### Blocks and descriptors -/

/-- `read_block`. -/
def readBlock (b : Nat) : VolumeM Block := do
  let v ← get
  require (b < v.mnt.blocksCount) .range
  pure (v.blocks b)

/-- `write_block`. -/
def writeBlock (b : Nat) (buffer : Block) : VolumeM Unit := do
  let v ← get
  require (b < v.mnt.blocksCount) .range
  modify fun v => v.setBlock b buffer

/-- `read_data_block`. -/
def readDataBlock (b : Nat) : VolumeM Block := readBlock b

/-- `write_data_block`. -/
def writeDataBlock (b : Nat) (buffer : Block) : VolumeM Unit := writeBlock b buffer

/-- `write_cache_discard_block` and `data_cache_discard_block`. -/
def discardBlock (b : Nat) : VolumeM Unit :=
  modify fun v => { v with
    blocks := Function.update v.blocks b (v.device v.discards b)
    discards := v.discards + 1 }

/-- `group_desc_table_block`. -/
def Mount.groupDescTableBlock (mnt : Mount) : Nat := if mnt.blockSize = 1024 then 2 else 1

/-- The bytes of a descriptor lie in blocks of the volume, as `read_metadata_bytes` asks. -/
def Mount.groupDescInRange (mnt : Mount) (group : Nat) : Prop :=
  (mnt.groupDescTableBlock * mnt.blockSize + (group + 1) * mnt.groupDescSize - 1) / mnt.blockSize
    < mnt.blocksCount

instance (mnt : Mount) (group : Nat) : Decidable (mnt.groupDescInRange group) :=
  inferInstanceAs (Decidable (_ < _))

/-- `read_group_desc`. -/
def readGroupDesc (group : Nat) : VolumeM GroupDesc := do
  let v ← get
  require (group < v.mnt.groupCount ∧ v.mnt.groupDescInRange group) .range
  pure (v.groups group)

/-- `write_group_desc`. -/
def writeGroupDesc (group : Nat) (gd : GroupDesc) : VolumeM Unit := do
  let v ← get
  require (group < v.mnt.groupCount ∧ v.mnt.groupDescInRange group) .range
  modify fun v => v.setGroup group gd

/-- The inode `ino` has its bytes in blocks of the volume, as `ext4_read_inode` and `write_inode`
check. -/
def Volume.inodeInRange (v : Volume) (ino : Nat) : Prop :=
  let group := (ino - 1) / v.mnt.inodesPerGroup
  let offset := (v.groups group).inodeTable * v.mnt.blockSize
    + (ino - 1) % v.mnt.inodesPerGroup * v.mnt.inodeSize
  ino ≠ 0 ∧ ino ≤ v.mnt.inodesCount ∧ group < v.mnt.groupCount ∧ v.mnt.groupDescInRange group ∧
    offset < 2 ^ 64 ∧
    (offset + min v.mnt.inodeSize 160 - 1) / v.mnt.blockSize < v.mnt.blocksCount

instance (v : Volume) (ino : Nat) : Decidable (v.inodeInRange ino) :=
  inferInstanceAs (Decidable (_ ∧ _ ∧ _ ∧ _ ∧ _ ∧ _))

/-- `ext4_read_inode`. -/
def ext4ReadInode (ino : Nat) : VolumeM Inode := do
  let v ← get
  require (v.inodeInRange ino) .range
  pure (v.inodes ino)

/-- `write_inode`. -/
def writeInode (ino : Nat) (inode : Inode) : VolumeM Unit := do
  let v ← get
  require (v.inodeInRange ino) .range
  modify fun v => { v with inodes := Function.update v.inodes ino inode }

namespace Mount

/-- `group_valid_blocks`. -/
def groupValidBlocks (mnt : Mount) (group : Nat) : Nat :=
  let start := group * mnt.blocksPerGroup
  if mnt.blocksCount ≤ start then 0
  else if mnt.blocksCount - start < mnt.blocksPerGroup then mnt.blocksCount - start
  else mnt.blocksPerGroup

/-- `group_valid_inodes`. -/
def groupValidInodes (mnt : Mount) (group : Nat) : Nat :=
  let start := group * mnt.inodesPerGroup
  if mnt.inodesCount ≤ start then 0
  else if mnt.inodesCount - start < mnt.inodesPerGroup then mnt.inodesCount - start
  else mnt.inodesPerGroup

/-- `ext4_block_is_journal`. -/
def blockIsJournal (mnt : Mount) (block : Nat) : Bool :=
  if mnt.journalBlocks = 0 then false
  else
    let journalEnd := mnt.journalFirstBlock + mnt.journalBlocks
    if 2 ^ 64 ≤ journalEnd then true
    else if mnt.blocksCount ≤ mnt.journalFirstBlock || mnt.blocksCount < journalEnd then true
    else mnt.journalFirstBlock ≤ block && block < journalEnd

end Mount

end Rabbitbone.Native.Ext4
