import Rabbitbone.Native.Ext4.Cache
import Rabbitbone.Native.Ext4.Orphan

/-!
# Mounting a volume

Model of `ext4_mount_bounded` of `kernel/fs/ext4/mount_sync.inc` with what it calls: the checks of
the superblock, the search for the journal area, its reservation, the replay of the journal, the
recovery of orphans and the recount of the free counters.

Up to the replay the volume is bytes: the superblock in memory, the device and the caches in front
of it.  What comes after the replay works on inodes and descriptors, so there the bytes are read as
a `Volume`, and the fields of the superblock that it changes are put back into the bytes when
`write_super` is called.

Devices of unknown size are left out.
-/

namespace Rabbitbone.Native.Ext4

open FallibleState

/-! ### The superblock -/

/-- `sb_free_blocks`. -/
def sbFreeBlocks (sb : Block) : UInt64 :=
  UInt64.ofNat (le64FromLoHi (sb.word 3).toNat (sb.word 86).toNat)

/-- `sb_set_free_blocks`. -/
def sbSetFreeBlocks (sb : Block) (count : UInt64) : Block :=
  putLe32 (putLe32 sb 3 (UInt32.ofNat count.toNat)) 86 (UInt32.ofNat (count.toNat / 2 ^ 32))

/-- `sb_free_inodes`. -/
def sbFreeInodes (sb : Block) : UInt32 := sb.word 4

/-- `sb_set_free_inodes`. -/
def sbSetFreeInodes (sb : Block) (count : UInt32) : Block := putLe32 sb 4 count

/-- `s_last_orphan`. -/
def sbLastOrphan (sb : Block) : UInt32 := sb.word 58

/-- `super_checksum`: `s_checksum` itself counts as zero. -/
def superChecksum (sb : Block) : UInt32 := crc32 ((putLe32 sb 255 0).bytes 0 1024)

/-- `sb.s_checksum = super_checksum(&sb)`. -/
def sbSeal (sb : Block) : Block := putLe32 sb 255 (superChecksum sb)

/-- The superblock in memory after the file system has changed its counters and its list of orphans
and has called `write_super`. -/
def sbStore (sb : Block) (v : Volume) : Block :=
  sbSeal (putLe32 (sbSetFreeInodes (sbSetFreeBlocks sb v.sbFreeBlocks) v.sbFreeInodes) 58
    v.sbLastOrphan)

/-- A device and the partition that is to be mounted, in sectors. -/
structure Partition where
  sectorSize : Nat
  sectorCount : Nat
  lba : Nat
  sectors : Nat

/-- The checks of the arguments, and of the range from which the superblock is read. -/
def Partition.check (part : Partition) : Except Ext4Status Unit :=
  if part.sectorSize ≠ 0 ∧ part.sectorSize ≠ 512 then .error .unsupported
  else if part.sectorCount ≤ part.lba then .error .range
  else if part.sectors = 0 ∨ part.sectorCount - part.lba < part.sectors then .error .range
  else if 2 ^ 64 ≤ part.sectors * 512 ∨ part.sectors * 512 < 2048 then .error .range
  else .ok ()

/-- The mount that a superblock describes, without a journal. -/
def mountGeometry (part : Partition) (sb : Block) : Except Ext4Status Mount :=
  let logBlock := (sb.word 6).toNat
  let blockSize := 1024 * 2 ^ logBlock
  let blocksCount := le64FromLoHi (sb.word 1).toNat (sb.word 84).toNat
  let incompat := sb.word 24
  let inodesCount := (sb.word 0).toNat
  let inodesPerGroup := (sb.word 10).toNat
  let blocksPerGroup := (sb.word 8).toNat
  let inodeSize := if le16At sb 88 ≠ 0 then (le16At sb 88).toNat else 128
  let groupDescSize := if incompat &&& 0x80 ≠ 0 then (le16At sb 254).toNat else 32
  let firstData := (sb.word 5).toNat
  let groupCount := divRoundUp (blocksCount - firstData) blocksPerGroup
  if le16At sb 56 ≠ 0xef53 then .error .badMagic
  else if hlog : 2 < logBlock then .error .unsupported
  else if 2 ^ 64 ≤ blocksCount * blockSize ∨ part.sectors * 512 < blocksCount * blockSize then
    .error .range
  else if sb.word 23 ≠ 0 ∨ incompat &&& ~~~0xc2 ≠ 0 ∨ sb.word 25 &&& ~~~3 ≠ 0 then
    .error .unsupported
  else if hper : blockSize * 8 < blocksPerGroup ∨ blockSize * 8 < inodesPerGroup then
    .error .corrupt
  else if hpos : blocksCount = 0 ∨ inodesCount = 0 ∨ blocksPerGroup = 0 ∨ inodesPerGroup = 0 then
    .error .corrupt
  else if hfirst : blocksCount < firstData then .error .corrupt
  else if hino : inodeSize < 128 ∨ blockSize < inodeSize then .error .unsupported
  else if hdesc : groupDescSize < 32 ∨ 64 < groupDescSize ∨ groupDescSize % 8 ≠ 0 then
    .error .unsupported
  else if hgroups : groupCount = 0 ∨ 0xffffffff < groupCount then .error .corrupt
  else .ok
    { blockSize := blockSize
      blocksCount := blocksCount
      inodesCount := inodesCount
      inodesPerGroup := inodesPerGroup
      blocksPerGroup := blocksPerGroup
      inodeSize := inodeSize
      groupDescSize := groupDescSize
      groupCount := groupCount
      journalFirstBlock := 0
      journalBlocks := 0
      firstDataBlock := firstData
      firstIno := (sb.word 21).toNat
      blockSize_mem := by
        have hcases : logBlock = 0 ∨ logBlock = 1 ∨ logBlock = 2 := by omega
        rcases hcases with h | h | h <;> simp [blockSize, h]
      blocksCount_lt := by
        have hlo := (sb.word 1).toNat_lt
        have hhi := (sb.word 84).toNat_lt
        simp only [blocksCount, le64FromLoHi]
        omega
      inodesCount_lt := (sb.word 0).toNat_lt
      inodesPerGroup_pos := by omega
      inodesPerGroup_le := by omega
      blocksPerGroup_pos := by omega
      blocksPerGroup_le := by omega
      groupDescSize_mem := by omega
      inodeSize_mem := by omega
      firstDataBlock_le := by omega
      groupCount_eq := rfl
      groupCount_pos := by omega
      groupCount_lt := by omega
      journal_mem := .inl rfl }

/-- The mount with the last two blocks as its journal. -/
def Mount.withJournal (mnt : Mount) (h : 2 ≤ mnt.blocksCount) : Mount :=
  { mnt with
    journalFirstBlock := mnt.blocksCount - 2
    journalBlocks := 2
    journal_mem := .inr ⟨rfl, by omega⟩ }

/-! ### Bytes behind the caches -/

/-- The loop of `read_metadata_bytes`: `bytes` bytes from `cur` on, with `turns` turns left. -/
def readMetadataBytes (m : Nat) : Nat → Nat → Nat → CacheM Block
  | 0, _, _ => pure zeroBlock
  | turns + 1, cur, bytes =>
    if bytes = 0 then pure zeroBlock
    else do
      require (cur < 2 ^ 64) .range
      let s ← get
      let bs := (s.vols m).mnt.blockSize
      let take := min (bs - cur % bs) bytes
      let block ← cachedReadBlock m (cur / bs)
      let rest ← readMetadataBytes m turns (cur + take) (bytes - take)
      pure fun i => if i < take then block (cur % bs + i) else rest (i - take)

/-- The loop of `write_metadata_bytes`: `bytes` bytes of `src` from `cur` on, with `turns` turns
left. -/
def writeMetadataBytes (m : Nat) : Nat → Nat → Block → Nat → CacheM Unit
  | 0, _, _, _ => pure ()
  | turns + 1, cur, src, bytes =>
    if bytes = 0 then pure ()
    else do
      require (cur < 2 ^ 64) .range
      let s ← get
      let bs := (s.vols m).mnt.blockSize
      let take := min (bs - cur % bs) bytes
      let block ← cachedReadBlock m (cur / bs)
      cachedWriteBlock m (cur / bs) (block.overlay (cur % bs) take src)
      writeMetadataBytes m turns (cur + take) (fun i => src (i + take)) (bytes - take)

/-- The first byte of a group descriptor. -/
def Mount.groupDescOffset (mnt : Mount) (group : Nat) : Nat :=
  mnt.groupDescTableBlock * mnt.blockSize + group * mnt.groupDescSize

/-- `read_group_desc`: the bytes that a short descriptor does not have are zero. -/
def readGroupDescBytes (m group : Nat) : CacheM Block := do
  let s ← get
  let mnt := (s.vols m).mnt
  require (group < mnt.groupCount) .range
  readMetadataBytes m mnt.groupDescSize (mnt.groupDescOffset group) mnt.groupDescSize

/-- Store a number in two bytes. -/
def putLe16 (b : Block) (off : Nat) (w : UInt16) : Block := fun i =>
  if off ≤ i ∧ i < off + 2 then byteOf w.toNat (i - off) else b i

/-- `group_desc_checksum`. -/
def groupDescChecksum (mnt : Mount) (sb : Block) (group : Nat) (gd : Block) : UInt16 :=
  let seed := crc32 (sb.bytes 104 16)
  let seed := crc32Update seed ((putLe32 zeroBlock 0 (UInt32.ofNat group)).bytes 0 4)
  UInt16.ofNat (crc32Update seed ((putLe16 gd 30 0).bytes 0 mnt.groupDescSize)).toNat

/-- `write_group_desc`. -/
def writeGroupDescBytes (m group : Nat) (sb gd : Block) : CacheM Unit := do
  let s ← get
  let mnt := (s.vols m).mnt
  require (group < mnt.groupCount) .range
  writeMetadataBytes m mnt.groupDescSize (mnt.groupDescOffset group)
    (putLe16 gd 30 (groupDescChecksum mnt sb group gd)) mnt.groupDescSize

/-- The fields of a descriptor. -/
def decodeGroupDesc (gd : Block) : GroupDesc where
  blockBitmap := le64FromLoHi (gd.word 0).toNat (gd.word 8).toNat
  inodeBitmap := le64FromLoHi (gd.word 1).toNat (gd.word 9).toNat
  inodeTable := le64FromLoHi (gd.word 2).toNat (gd.word 10).toNat
  freeBlocks := UInt32.ofNat ((le16At gd 44).toNat * 2 ^ 16 + (le16At gd 12).toNat)
  freeInodes := UInt32.ofNat ((le16At gd 46).toNat * 2 ^ 16 + (le16At gd 14).toNat)
  usedDirs := UInt32.ofNat ((le16At gd 48).toNat * 2 ^ 16 + (le16At gd 16).toNat)

/-- `gd_set_free_blocks`. -/
def gdSetFreeBlocks (gd : Block) (count : UInt32) : Block :=
  putLe16 (putLe16 gd 12 (UInt16.ofNat count.toNat)) 44 (UInt16.ofNat (count.toNat / 2 ^ 16))

/-! ### The journal area -/

/-- `ext4_block_bitmap_is_free`. -/
def blockBitmapIsFree (m block : Nat) : CacheM Bool := do
  let s ← get
  let mnt := (s.vols m).mnt
  require (block < mnt.blocksCount) .range
  let gd ← readGroupDescBytes m (block / mnt.blocksPerGroup % 2 ^ 32)
  let bm ← cachedReadBlock m (decodeGroupDesc gd).blockBitmap
  pure (!bitmapGet bm (block % mnt.blocksPerGroup))

/-- `ext4_journal_area_is_free`, from `block` on with `count` turns left. -/
def journalAreaIsFree (m : Nat) : Nat → Nat → CacheM Bool
  | 0, _ => pure true
  | count + 1, block => do
    if ← blockBitmapIsFree m block then journalAreaIsFree m count (block + 1)
    else pure false

/-- `ext4_journal_area_has_rabbitbone_marker`. -/
def journalAreaHasMarker (m : Nat) (mnt : Mount) : CacheM Bool := do
  let header ← cachedReadBlock m mnt.journalFirstBlock
  pure (journalRecordHeaderValid mnt header)

/-- A mount that is being made: the caches and the superblock in memory. -/
structure Mounting where
  cache : Cached
  sb : Block

/-- A part of `ext4_mount_bounded`. -/
abbrev MountM (α : Type) : Type := FallibleState Mounting Ext4Status α

/-- Run a function of the caches. -/
def onCache {α : Type} (x : CacheM α) : MountM α :=
  ⟨fun s => ((x.run s.cache).1, { s with cache := (x.run s.cache).2 })⟩

/-- `write_super`. -/
def mountWriteSuper (m : Nat) : MountM Unit := do
  modify fun s => { s with sb := sbSeal s.sb }
  let s ← get
  onCache (cachedWriteSuper m s.sb)

/-- `if (sfree) sb_set_free_blocks(mnt, sfree - 1u)`. -/
def sbReserveBlock (sb : Block) : Block :=
  if sbFreeBlocks sb = 0 then sb else sbSetFreeBlocks sb (sbFreeBlocks sb - 1)

/-- `if (gfree) gd_set_free_blocks(&gd, gfree - 1u)`. -/
def gdReserveBlock (gd : Block) : Block :=
  if (decodeGroupDesc gd).freeBlocks = 0 then gd
  else gdSetFreeBlocks gd ((decodeGroupDesc gd).freeBlocks - 1)

/-- `reserve_block_if_free`. -/
def reserveBlockIfFree (m block : Nat) : MountM Unit := do
  let s ← get
  let mnt := (s.cache.vols m).mnt
  require (block < mnt.blocksCount) .range
  let group := block / mnt.blocksPerGroup % 2 ^ 32
  let bit := block % mnt.blocksPerGroup
  let gd ← onCache (readGroupDescBytes m group)
  let bm ← onCache (cachedReadBlock m (decodeGroupDesc gd).blockBitmap)
  if bitmapGet bm bit then pure ()
  else do
    onCache (onVolume m (rawWriteBlock (decodeGroupDesc gd).blockBitmap (bitmapSet8 bm bit)))
    onCache (writeGroupDescBytes m group s.sb (gdReserveBlock gd))
    modify fun s => { s with sb := sbReserveBlock s.sb }
    mountWriteSuper m

/-- The reservation of a journal area that is free. -/
def reserveJournal (m : Nat) (mnt : Mount) (free : Bool) : MountM Unit :=
  if free then do
    reserveBlockIfFree m mnt.journalFirstBlock
    reserveBlockIfFree m (mnt.journalFirstBlock + 1)
  else pure ()

/-- The journal area that a volume has in its last two blocks: it is free, or a journal already. -/
def findJournal (m : Nat) (mnt : Mount) : CacheM (Option Bool) := do
  if ← journalAreaIsFree m 2 mnt.journalFirstBlock then pure (some true)
  else if ← journalAreaHasMarker m mnt then pure (some false)
  else pure none

/-! ### The volume behind the replay -/

/-- What a read of a block returns. -/
def Cached.view (s : Cached) (m b : Nat) : Block :=
  match s.writeCacheFindSlot m b with
  | some i => (s.writeSlots i).data
  | none =>
    match slotList.find? fun i => (s.dataSlots i).isAt m b with
    | some i => (s.dataSlots i).data
    | none => (s.vols m).disk b

/-- The fields of an inode. -/
def decodeInode (b : Block) : Inode where
  mode := le16At b 0
  sizeLo := b.word 1
  dtime := b.word 5
  linksCount := le16At b 26
  blocksLo := b.word 7
  flags := b.word 8
  node := decodeNode fun i => b (40 + i)

/-- The volume that the bytes are read as; `device` is what later becomes of the device. -/
def decodeVolume (mnt : Mount) (view : Nat → Block) (sb : Block) (device : Nat → Nat → Block) :
    Volume :=
  let bytes := fun off i => view ((off + i) / mnt.blockSize) ((off + i) % mnt.blockSize)
  let groups := fun group =>
    decodeGroupDesc ((Block.cut mnt.groupDescSize) (bytes (mnt.groupDescOffset group)))
  { mnt := mnt
    allocatorNextBlock := mnt.firstDataBlock
    sbFreeBlocks := sbFreeBlocks sb
    sbFreeInodes := sbFreeInodes sb
    sbLastOrphan := sbLastOrphan sb
    groups := groups
    blocks := fun b => (view b).cut mnt.blockSize
    inodes := fun ino =>
      decodeInode ((Block.cut (min mnt.inodeSize 160)) (bytes
        ((groups ((ino - 1) / mnt.inodesPerGroup)).inodeTable * mnt.blockSize
          + (ino - 1) % mnt.inodesPerGroup * mnt.inodeSize)))
    device := device
    discards := 0 }

/-- The clear bits of a bitmap below `valid` that stand for something from `first` on. -/
def countClear (bm : Block) (start first valid : Nat) : UInt32 :=
  UInt32.ofNat ((List.range valid).countP fun bit =>
    decide (first ≤ start + bit) && !bitmapGet bm bit)

/-- Store the counters of a group if they differ. -/
def recountGroup (group : Nat) (gd : GroupDesc) (freeBlocks freeInodes : UInt32) : VolumeM Unit :=
  if freeBlocks = gd.freeBlocks ∧ freeInodes = gd.freeInodes then pure ()
  else writeGroupDesc group { gd with freeBlocks := freeBlocks, freeInodes := freeInodes }

/-- The loop of `ext4_recount_free_counters`, at `group` with `count` turns left. -/
def recountGroups : Nat → Nat → UInt64 → UInt32 → VolumeM (UInt64 × UInt32)
  | 0, _, totalBlocks, totalInodes => pure (totalBlocks, totalInodes)
  | count + 1, group, totalBlocks, totalInodes => do
    let v ← get
    let gd ← readGroupDesc group
    let bm ← readBlock gd.blockBitmap
    let freeBlocks := countClear bm (group * v.mnt.blocksPerGroup) v.mnt.firstDataBlock
      (v.mnt.groupValidBlocks group)
    let bm ← readBlock gd.inodeBitmap
    let freeInodes := countClear bm 0 0 (v.mnt.groupValidInodes group)
    recountGroup group gd freeBlocks freeInodes
    recountGroups count (group + 1) (totalBlocks + freeBlocks.toUInt64) (totalInodes + freeInodes)

/-- `ext4_recount_free_counters`: whether it calls `write_super`. -/
def ext4RecountFreeCounters : VolumeM Bool := do
  let v ← get
  let total ← recountGroups v.mnt.groupCount 0 0 0
  let v ← get
  if total.1 = v.sbFreeBlocks ∧ total.2 = v.sbFreeInodes then pure false
  else do
    modify fun v => { v with sbFreeBlocks := total.1, sbFreeInodes := total.2 }
    pure true

/-- A mounted volume: what the functions of the file system work on, and the superblock in
memory. -/
structure Mounted where
  vol : Volume
  sb : Block

/-- The end of `ext4_recover` and the recount.  `write_super` is called at the end of
`ext4_recover_orphans` if there were any, and at the end of the recount if a total has changed. -/
def mountRecover (v : Volume) (sb : Block) : Except Ext4Status Mounted :=
  match ext4RecoverOrphans.run v with
  | (.error e, _) => .error e
  | (.ok (), v₁) =>
    let sb₁ := if v.sbLastOrphan = 0 then sb else sbStore sb v₁
    match ext4RecountFreeCounters.run v₁ with
    | (.error e, _) => .error e
    | (.ok wrote, v₂) => .ok ⟨v₂, if wrote then sbStore sb₁ v₂ else sb₁⟩

/-- The end of `ext4_mount_bounded`: a missing checksum is filled in, a wrong one refused. -/
def mountChecksum (r : Mounted) : Except Ext4Status Mounted :=
  if r.sb.word 255 = 0 then .ok { r with sb := sbSeal r.sb }
  else if r.sb.word 255 = superChecksum r.sb then .ok r
  else .error .corrupt

/-! ### Mounting -/

/-- The bytes of the superblock on a partition. -/
def superAt (image : Nat → UInt8) : Block := fun i => image (1024 + i)

/-- A partition as blocks. -/
def imageBlocks (blockSize : Nat) (image : Nat → UInt8) (b : Nat) : Block := fun i =>
  image (b * blockSize + i)

/-- Take up the volume `m` with a mount. -/
def Mounting.setMount (s : Mounting) (m : Nat) (mnt : Mount) : Mounting :=
  { s with cache := { s.cache with
      vols := Function.update s.cache.vols m { s.cache.vols m with mnt := mnt } } }

/-- The part of `ext4_mount_bounded` with a journal area: reserve it, replay the journal and
recover. -/
def mountJournal (m : Nat) (mnt : Mount) (device : Nat → Nat → Block) (free : Bool) :
    MountM Mounted := do
  modify fun s => s.setMount m mnt
  reserveJournal m mnt free
  onCache (onVolume m recoverJournal)
  let s ← get
  match mountRecover (decodeVolume mnt (s.cache.view m) s.sb device) s.sb with
  | .error e => fail e
  | .ok r => pure r

/-- `ext4_mount_bounded` behind the checks of the superblock. -/
def mountVolume (m : Nat) (mnt : Mount) (device : Nat → Nat → Block) : MountM Mounted := do
  onCache (ext4FlushAndInvalidateReadCaches m)
  if h : mnt.firstDataBlock + 8 < mnt.blocksCount then do
    match ← onCache (findJournal m (mnt.withJournal (by omega))) with
    | some free => mountJournal m (mnt.withJournal (by omega)) device free
    | none => do
      let s ← get
      pure ⟨decodeVolume mnt (s.cache.view m) s.sb device, s.sb⟩
  else do
    let s ← get
    pure ⟨decodeVolume mnt (s.cache.view m) s.sb device, s.sb⟩

/-- `ext4_mount_bounded`: mount the partition with the bytes `image` as the volume `m`, with the
caches `s`. -/
def ext4MountBounded (m : Nat) (part : Partition) (image : Nat → UInt8) (device : Nat → Nat → Block)
    (s : Cached) : Except Ext4Status Mounted := do
  part.check
  let mnt ← mountGeometry part (superAt image)
  let vol : RawVolume := ⟨mnt, false, 0, imageBlocks mnt.blockSize image, []⟩
  let r ← ((mountVolume m mnt device).run
    ⟨{ s with vols := Function.update s.vols m vol }, superAt image⟩).1
  mountChecksum r

end Rabbitbone.Native.Ext4
