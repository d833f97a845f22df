import Rabbitbone.Native.Ext4.Volume

/-!
# Block and inode allocation

Model of `kernel/fs/ext4/allocation.inc`: the bitmaps, the allocation of a block near a goal, the
allocation of an inode, and the two ways back.
-/

namespace Rabbitbone.Native.Ext4

open FallibleState

/-! ### Bitmaps -/

/-- `(u8)(1u << (bit % 8u))`. -/
def bitMask (bit : Nat) : UInt8 := 1 <<< UInt8.ofNat (bit % 8)

/-- `bitmap_get`. -/
def bitmapGet (bm : Block) (bit : Nat) : Bool := bm (bit / 8) &&& bitMask bit ≠ 0

/-- `bitmap_set8`. -/
def bitmapSet8 (bm : Block) (bit : Nat) : Block :=
  Function.update bm (bit / 8) (bm (bit / 8) ||| bitMask bit)

/-- `bitmap_clear8`. -/
def bitmapClear8 (bm : Block) (bit : Nat) : Block :=
  Function.update bm (bit / 8) (bm (bit / 8) &&& ~~~bitMask bit)

/-! ### Goals -/

/-- `allocator_first_data_block`. -/
def Mount.allocatorFirstDataBlock (mnt : Mount) : Nat :=
  if mnt.blocksCount ≤ mnt.firstDataBlock then 0 else mnt.firstDataBlock

/-- A block that the allocator may hand out when its bit is clear, and take as a goal. -/
def Mount.allocatable (mnt : Mount) (block : Nat) : Bool :=
  mnt.allocatorFirstDataBlock ≤ block && block < mnt.blocksCount && !mnt.blockIsJournal block

/-- `allocator_normalize_goal`. -/
def Volume.allocatorNormalizeGoal (v : Volume) (goal : Nat) : Nat :=
  let goal := if v.mnt.allocatable goal then goal else v.allocatorNextBlock
  if v.mnt.allocatable goal then goal else v.mnt.allocatorFirstDataBlock

/-- `allocator_note_success`. -/
def allocatorNoteSuccess (block : Nat) : VolumeM Unit :=
  modify fun v =>
    let first := v.mnt.allocatorFirstDataBlock
    let next := if 2 ^ 64 ≤ block + 1 then first else block + 1
    let next := if v.mnt.blocksCount ≤ next || v.mnt.blockIsJournal next then first else next
    { v with allocatorNextBlock := next }

/-! ### Allocating a block -/

/-- The bits of one group, from `bit0 + scan` on and round the end, with `count` turns left. -/
def scanBits (mnt : Mount) (bm : Block) (group valid bit0 : Nat) : Nat → Nat → Option Nat
  | 0, _ => none
  | count + 1, scan =>
    let bit := if valid ≤ bit0 + scan then bit0 + scan - valid else bit0 + scan
    let abs := group * mnt.blocksPerGroup + bit
    if !mnt.allocatable abs || bitmapGet bm bit then
      scanBits mnt bm group valid bit0 count (scan + 1)
    else some bit

/-- A clear bit: its group with the descriptor and the bitmap, and the bit. -/
structure FoundBit where
  group : Nat
  gd : GroupDesc
  bm : Block
  bit : Nat

/-- The groups from `startGroup + pass` on and round the end, with `count` turns left. -/
def scanGroups (startGroup startBit : Nat) : Nat → Nat → VolumeM (Option FoundBit)
  | 0, _ => pure none
  | count + 1, pass => do
    let v ← get
    let next := (startGroup + pass) % 2 ^ 32
    let group := if v.mnt.groupCount ≤ next then next - v.mnt.groupCount else next
    let gd ← readGroupDesc group
    if gd.freeBlocks = 0 then scanGroups startGroup startBit count (pass + 1)
    else do
      let bm ← readBlock gd.blockBitmap
      let valid := v.mnt.groupValidBlocks group
      let bit0 := if group = startGroup then startBit else 0
      match scanBits v.mnt bm group valid bit0 valid 0 with
      | none => scanGroups startGroup startBit count (pass + 1)
      | some bit => pure (some ⟨group, gd, bm, bit⟩)

/-- Fill a new block with zeros if asked to, through the second buffer of the call. -/
def zeroFillBlock (tmpBlocks block : Nat) (zeroFill : Bool) : VolumeM Unit :=
  if !zeroFill then pure ()
  else if tmpBlocks < 2 then fail .noMemory
  else writeDataBlock block zeroBlock

/-- `alloc_block_goal` behind the search: take the bit that was found. -/
def takeBlock (tmpBlocks : Nat) (found : FoundBit) (zeroFill : Bool) : VolumeM Nat := do
  writeBlock found.gd.blockBitmap (bitmapSet8 found.bm found.bit)
  let v ← get
  if found.gd.freeBlocks = 0 || v.sbFreeBlocks = 0 then do
    writeBlock found.gd.blockBitmap (bitmapClear8 (bitmapSet8 found.bm found.bit) found.bit)
    fail .corrupt
  else do
    writeGroupDesc found.group { found.gd with freeBlocks := found.gd.freeBlocks - 1 }
    modify fun v => { v with sbFreeBlocks := v.sbFreeBlocks - 1 }
    let abs := found.group * v.mnt.blocksPerGroup + found.bit
    zeroFillBlock tmpBlocks abs zeroFill
    allocatorNoteSuccess abs
    pure abs

/-- `alloc_block_goal`; the first `tmpBlocks` calls of `ext4_tmp_block` get a buffer. -/
def allocBlockGoal (tmpBlocks goal : Nat) (zeroFill : Bool) : VolumeM Nat := do
  let v ← get
  let goal := v.allocatorNormalizeGoal goal
  let startGroup := goal / v.mnt.blocksPerGroup % 2 ^ 32
  let startBit := goal % v.mnt.blocksPerGroup
  if tmpBlocks = 0 then fail .noMemory
  else do
    match ← scanGroups startGroup startBit v.mnt.groupCount 0 with
    | none => fail .noMemory
    | some found => takeBlock tmpBlocks found zeroFill

/-! ### Freeing a block -/

/-- `ext4_block_is_known_metadata`, with the descriptor of the block's group. -/
def Mount.blockIsKnownMetadata (mnt : Mount) (block : Nat) (gd : GroupDesc) : Bool :=
  let superBlock := if mnt.blockSize = 1024 then 1 else 0
  let gdtFirst := mnt.groupDescTableBlock
  let gdtBlocks := divRoundUp (mnt.groupCount * mnt.groupDescSize) mnt.blockSize
  let tableBlocks := divRoundUp (mnt.inodesPerGroup * mnt.inodeSize) mnt.blockSize
  block < mnt.allocatorFirstDataBlock || mnt.blockIsJournal block || block = superBlock ||
    (gdtFirst ≤ block && block < gdtFirst + gdtBlocks) || block = gd.blockBitmap ||
    block = gd.inodeBitmap || 2 ^ 64 ≤ gd.inodeTable + tableBlocks ||
    (gd.inodeTable ≤ block && block < gd.inodeTable + tableBlocks)

/-- `free_block`. -/
def freeBlock (block : Nat) : VolumeM Unit := do
  let v ← get
  require (block < v.mnt.blocksCount) .range
  let group := block / v.mnt.blocksPerGroup % 2 ^ 32
  require (group < v.mnt.groupCount) .range
  let bit := block % v.mnt.blocksPerGroup
  let gd ← readGroupDesc group
  require (¬v.mnt.blockIsKnownMetadata block gd) .corrupt
  discardBlock block
  let bm ← readBlock gd.blockBitmap
  require (bitmapGet bm bit) .corrupt
  require (gd.freeBlocks.toNat < v.mnt.groupValidBlocks group ∧
    v.sbFreeBlocks.toNat < v.mnt.blocksCount) .corrupt
  writeBlock gd.blockBitmap (bitmapClear8 bm bit)
  writeGroupDesc group { gd with freeBlocks := gd.freeBlocks + 1 }
  modify fun v => { v with sbFreeBlocks := v.sbFreeBlocks + 1 }

/-! ### Inodes -/

/-- The first inode `alloc_inode` hands out. -/
def Mount.firstUsableInode (mnt : Mount) : Nat := if mnt.firstIno = 0 then 11 else mnt.firstIno

/-- An inode that the allocator may hand out when its bit is clear. -/
def Mount.inodeAllocatable (mnt : Mount) (ino : Nat) : Bool :=
  ino ≤ 0xffffffff && mnt.firstUsableInode ≤ ino && ino ≤ mnt.inodesCount

/-- The bits of one group from `bit` on, with `count` turns left. -/
def scanInodeBits (mnt : Mount) (bm : Block) (group : Nat) : Nat → Nat → Option Nat
  | 0, _ => none
  | count + 1, bit =>
    if !mnt.inodeAllocatable (group * mnt.inodesPerGroup + bit + 1) || bitmapGet bm bit then
      scanInodeBits mnt bm group count (bit + 1)
    else some bit

/-- The groups from `group` on, with `count` turns left. -/
def scanInodeGroups : Nat → Nat → VolumeM (Option FoundBit)
  | 0, _ => pure none
  | count + 1, group => do
    let v ← get
    let gd ← readGroupDesc group
    if gd.freeInodes = 0 then scanInodeGroups count (group + 1)
    else do
      let bm ← readBlock gd.inodeBitmap
      match scanInodeBits v.mnt bm group v.mnt.inodesPerGroup 0 with
      | none => scanInodeGroups count (group + 1)
      | some bit => pure (some ⟨group, gd, bm, bit⟩)

/-- `alloc_inode` behind the search: take the bit that was found. -/
def takeInode (found : FoundBit) (dir : Bool) : VolumeM Nat := do
  let v ← get
  require (¬(found.gd.freeInodes = 0 ∨ v.sbFreeInodes = 0 ∨
    (dir = true ∧ found.gd.usedDirs = 0xffffffff))) .corrupt
  writeBlock found.gd.inodeBitmap (bitmapSet8 found.bm found.bit)
  writeGroupDesc found.group { found.gd with
    freeInodes := found.gd.freeInodes - 1
    usedDirs := if dir then found.gd.usedDirs + 1 else found.gd.usedDirs }
  modify fun v => { v with sbFreeInodes := v.sbFreeInodes - 1 }
  pure (found.group * v.mnt.inodesPerGroup + found.bit + 1)

/-- `alloc_inode`. -/
def allocInode (dir : Bool) : VolumeM Nat := do
  let v ← get
  match ← scanInodeGroups v.mnt.groupCount 0 with
  | none => fail .noMemory
  | some found => takeInode found dir

/-- `free_inode`. -/
def freeInode (ino : Nat) (dir : Bool) : VolumeM Unit := do
  let v ← get
  require (ino ≠ 0 ∧ ino ≤ v.mnt.inodesCount) .range
  let group := (ino - 1) / v.mnt.inodesPerGroup
  require (group < v.mnt.groupCount) .range
  let bit := (ino - 1) % v.mnt.inodesPerGroup
  let gd ← readGroupDesc group
  let bm ← readBlock gd.inodeBitmap
  require (bitmapGet bm bit) .corrupt
  require (gd.freeInodes.toNat < v.mnt.inodesPerGroup ∧ v.sbFreeInodes.toNat < v.mnt.inodesCount ∧
    ¬(dir = true ∧ gd.usedDirs = 0)) .corrupt
  writeBlock gd.inodeBitmap (bitmapClear8 bm bit)
  writeGroupDesc group { gd with
    freeInodes := gd.freeInodes + 1
    usedDirs := if dir then gd.usedDirs - 1 else gd.usedDirs }
  modify fun v => { v with sbFreeInodes := v.sbFreeInodes + 1 }

end Rabbitbone.Native.Ext4
