import Rabbitbone.ForStd.SectorDisk
import Rabbitbone.Native.Crc32
import Rabbitbone.Native.Ext4.Volume

/-!
# The journal

Model of `kernel/fs/ext4/journal.inc` and of `ext4_recover`, on the volume below its caches.  The
journal is two blocks at the end of the volume: a header with one record, and the content of the
block that the record is about.

A block goes to the device in sectors of 512 bytes.  The volume keeps the sector writes in the order
in which they were issued, so that a crash is a prefix of that log.
-/

namespace Rabbitbone.Native.Ext4

open FallibleState SectorDisk

/-- A mounted volume below its caches: the fields of `ext4_mount_t` that the journal changes, what
the device holds, and the sector writes since the volume was taken up. -/
structure RawVolume where
  mnt : Mount
  journalReady : Bool
  journalSeq : UInt32
  disk : Nat → Block
  log : List (SectorWrite UInt8)

/-- A function of the volume below its caches. -/
abbrev RawM (α : Type) : Type := FallibleState RawVolume Ext4Status α

/-- The sectors of a block. -/
def Mount.sectors (mnt : Mount) : Nat := mnt.blockSize / 512

/-- Write a block to the device. -/
def RawVolume.write (v : RawVolume) (b : Nat) (buffer : Block) : RawVolume :=
  { v with
    disk := applyAll 512 (blockWrites v.mnt.sectors b buffer) v.disk
    log := v.log ++ blockWrites v.mnt.sectors b buffer }

/-- `read_block` when nothing is cached. -/
def rawReadBlock (b : Nat) : RawM Block := do
  let v ← get
  require (b < v.mnt.blocksCount) .range
  pure (v.disk b)

/-- `raw_write_block`. -/
def rawWriteBlock (b : Nat) (buffer : Block) : RawM Unit := do
  let v ← get
  require (b < v.mnt.blocksCount) .range
  modify fun v => v.write b buffer

/-! ### Records -/

/-- `RABBITBONE_EXT4_JOURNAL_MAGIC`. -/
def journalMagic : UInt32 := 0x4a524f41

/-- `journal_header_crc`: `header_crc` itself counts as zero. -/
def journalHeaderCrc (jr : Block) : UInt32 := crc32 ((putLe32 jr 8 0).bytes 0 68)

/-- `jr->target_block`. -/
def journalTarget (jr : Block) : Nat :=
  le64FromLoHi (jr.word 4).toNat (jr.word 5).toNat

/-- `jr->payload_crc`. -/
def journalPayloadCrc (jr : Block) : UInt32 := jr.word 7

/-- The fields of a record before its checksum. -/
def journalFields (state seq : UInt32) (target : Nat) (blockSize payloadCrc : UInt32) : Block :=
  let jr := putLe32 zeroBlock 0 journalMagic
  let jr := putLe32 jr 1 1
  let jr := putLe32 jr 2 state
  let jr := putLe32 jr 3 seq
  let jr := putLe32 jr 4 (UInt32.ofNat target)
  let jr := putLe32 jr 5 (UInt32.ofNat (target / 2 ^ 32))
  let jr := putLe32 jr 6 blockSize
  putLe32 jr 7 payloadCrc

/-- A header block with a record in it. -/
def journalRecord (state seq : UInt32) (target : Nat) (blockSize payloadCrc : UInt32) : Block :=
  let jr := journalFields state seq target blockSize payloadCrc
  putLe32 jr 8 (journalHeaderCrc jr)

/-- `journal_make_idle_record`. -/
def journalMakeIdleRecord (mnt : Mount) (seq : UInt32) : Block :=
  journalRecord 0 seq 0 (UInt32.ofNat mnt.blockSize) 0

/-- `journal_record_header_valid`. -/
def journalRecordHeaderValid (mnt : Mount) (jr : Block) : Bool :=
  jr.word 0 = journalMagic && jr.word 1 = 1 && jr.word 8 = journalHeaderCrc jr &&
    jr.word 6 = UInt32.ofNat mnt.blockSize &&
    (jr.word 2 = 0 ||
      jr.word 2 = 1 && journalTarget jr < mnt.blocksCount && !mnt.blockIsJournal (journalTarget jr))

/-- A record that `ext4_recover` looks at: valid and in the state 1. -/
def journalCommitted (mnt : Mount) (jr : Block) : Bool :=
  journalRecordHeaderValid mnt jr && jr.word 2 = 1

/-! ### Committing a block -/

/-- `journal_clear`. -/
def journalClear : RawM Unit := do
  let v ← get
  if v.mnt.journalBlocks = 0 then pure ()
  else rawWriteBlock v.mnt.journalFirstBlock (journalMakeIdleRecord v.mnt v.journalSeq)

/-- `journal_commit_ordered_block`. -/
def journalCommitOrderedBlock (target : Nat) (buffer : Block) : RawM Unit := do
  let v ← get
  if v.journalReady = false ∨ v.mnt.blockIsJournal target ∨ v.mnt.journalBlocks < 2 then
    rawWriteBlock target buffer
  else do
    let seq := v.journalSeq + 1
    modify fun v => { v with journalSeq := seq }
    let jr := journalRecord 1 seq target (UInt32.ofNat v.mnt.blockSize)
      (crc32 (buffer.bytes 0 v.mnt.blockSize))
    let payloadBlock := v.mnt.journalFirstBlock + 1
    if 2 ^ 64 ≤ payloadBlock ∨ v.mnt.blocksCount ≤ payloadBlock then rawWriteBlock target buffer
    else do
      rawWriteBlock payloadBlock buffer
      rawWriteBlock v.mnt.journalFirstBlock jr
      rawWriteBlock target buffer

/-! ### Recovery -/

/-- `ext4_recover`: write the payload of the record to its target if the record is committed and the
payload is the one it was made for. -/
def replayRecord (header : Block) : RawM Unit := do
  let v ← get
  if journalCommitted v.mnt header then do
    let payloadBlock := v.mnt.journalFirstBlock + 1
    require (payloadBlock < 2 ^ 64 ∧ payloadBlock < v.mnt.blocksCount) .range
    let payload ← rawReadBlock payloadBlock
    if crc32 (payload.bytes 0 v.mnt.blockSize) = journalPayloadCrc header then
      rawWriteBlock (journalTarget header) payload
    else pure ()
  else pure ()

/-- `ext4_recover` up to the orphans: replay the record and clear the journal. -/
def recoverJournal : RawM Unit := do
  let v ← get
  if v.mnt.journalBlocks < 2 then pure ()
  else do
    match ← attempt (rawReadBlock v.mnt.journalFirstBlock) with
    | .error _ => pure ()
    | .ok header => replayRecord header
    journalClear

/-- `ext4_recover` of a mount with `s_last_orphan` in its superblock.  `release` is what
`ext4_recover_orphans` does with a list that is not empty: it frees the inodes and their blocks. -/
def ext4Recover (lastOrphan : UInt32) (release : UInt32 → RawM Unit) : RawM Unit := do
  recoverJournal
  if lastOrphan = 0 then pure () else release lastOrphan

/-- The device after a crash behind the first `k` sector writes of `x`. -/
def RawVolume.crash (v : RawVolume) (x : RawM Unit) (k : Nat) : Nat → Block :=
  applyAll 512 ((x.run { v with log := [] }).2.log.take k) v.disk

end Rabbitbone.Native.Ext4
