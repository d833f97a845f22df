import Rabbitbone.Native.Ext4.Journal

/-!
# The write cache and the data cache

Model of `kernel/fs/ext4/block_io.inc`, `data_cache.inc`, `write_cache.inc` and of
`ext4_sync_metadata`.  Metadata blocks are kept in the write cache until they are committed through
the journal; file data is kept in the data cache, which also holds clean blocks that were read or
read ahead, and is written to the device directly.

Both caches are shared by all mounted volumes.  A volume stands for the device, the first sector,
the number of sectors and the block size that the slots are compared by.  The tables are allocated
when they are first needed; until then all their slots are invalid.  `memory` says which of these
allocations succeed.
-/

namespace Rabbitbone.Native.Ext4

open FallibleState SectorDisk

/-- `ext4_write_cache_slot_t`. -/
structure WriteSlot where
  valid : Bool
  dirty : Bool
  vol : Nat
  block : Nat
  data : Block

/-- `ext4_data_cache_slot_t`. -/
structure DataSlot where
  valid : Bool
  dirty : Bool
  vol : Nat
  block : Nat
  lastUsed : UInt64
  readahead : Bool
  data : Block

/-- A slot of one of the tables; `EXT4_WRITE_CACHE_SLOTS` and `EXT4_DATA_CACHE_SLOTS` are both
12. -/
abbrev SlotIdx := Fin 12

/-- The mounted volumes and the two caches in front of them. -/
structure Cached where
  vols : Nat → RawVolume
  writeReady : Bool
  writeSlots : SlotIdx → WriteSlot
  dataReady : Bool
  dataSlots : SlotIdx → DataSlot
  clock : UInt64
  memory : Nat → Bool
  allocs : Nat

/-- A function of the cached volumes. -/
abbrev CacheM (α : Type) : Type := FallibleState Cached Ext4Status α

/-- Run a function of one volume below the caches. -/
def onVolume {α : Type} (m : Nat) (x : RawM α) : CacheM α :=
  ⟨fun s => ((x.run (s.vols m)).1,
    { s with vols := Function.update s.vols m (x.run (s.vols m)).2 })⟩

/-- The slots of a table in the order of the loops. -/
def slotList : List SlotIdx := List.finRange 12

/-- Run `x` for the slots of a list in turn. -/
def forSlots (x : SlotIdx → CacheM Unit) : List SlotIdx → CacheM Unit
  | [] => pure ()
  | i :: l => do
    x i
    forSlots x l

/-- `kcalloc` of a table: whether it succeeds. -/
def kcallocTable : CacheM Bool := do
  let s ← get
  modify fun s => { s with allocs := s.allocs + 1 }
  pure (s.memory s.allocs)

/-! ### The write cache -/

/-- `write_cache_slot_matches`. -/
def WriteSlot.isAt (w : WriteSlot) (m b : Nat) : Bool := w.valid && w.vol = m && w.block = b

/-- A slot that is marked invalid. -/
def WriteSlot.drop (w : WriteSlot) : WriteSlot := { w with dirty := false, valid := false }

/-- Change a slot of the write cache. -/
def Cached.setWriteSlot (s : Cached) (i : SlotIdx) (w : WriteSlot) : Cached :=
  { s with writeSlots := Function.update s.writeSlots i w }

/-- `write_cache_ensure`. -/
def writeCacheEnsure : CacheM Bool := do
  let s ← get
  if s.writeReady then pure true
  else do
    let ok ← kcallocTable
    modify fun s => { s with writeReady := ok }
    pure ok

/-- `write_cache_find_slot`. -/
def Cached.writeCacheFindSlot (s : Cached) (m b : Nat) : Option SlotIdx :=
  slotList.find? fun i => (s.writeSlots i).isAt m b

/-- `write_cache_discard_block`. -/
def Cached.writeCacheDiscardBlock (s : Cached) (m b : Nat) : Cached :=
  { s with
    writeSlots := fun i =>
      if (s.writeSlots i).isAt m b then (s.writeSlots i).drop else s.writeSlots i }

/-- Write the block of a slot out: a slot of the volume `m` goes through its journal, a slot of
another one is written directly. -/
def writeOut (m : Nat) (w : WriteSlot) : CacheM Unit := do
  let s ← get
  if w.vol = m ∧ w.block < (s.vols m).mnt.blocksCount then
    onVolume m (journalCommitOrderedBlock w.block w.data)
  else onVolume w.vol (rawWriteBlock w.block w.data)

/-- `write_cache_flush_slot_with_mount`. -/
def writeCacheFlushSlotWithMount (m : Nat) (i : SlotIdx) : CacheM Unit := do
  let s ← get
  let w := s.writeSlots i
  if w.valid ∧ w.dirty then do
    writeOut m w
    modify fun s => s.setWriteSlot i w.drop
  else pure ()

/-- `ext4_flush_write_cache_for_mount`. -/
def ext4FlushWriteCacheForMount (m : Nat) : CacheM Unit :=
  forSlots (fun i => do
    let s ← get
    let w := s.writeSlots i
    if w.valid ∧ w.dirty ∧ w.vol = m then do
      onVolume m (journalCommitOrderedBlock w.block w.data)
      modify fun s => s.setWriteSlot i w.drop
    else pure ()) slotList

/-! ### The data cache -/

/-- `data_cache_slot_matches`. -/
def DataSlot.isAt (d : DataSlot) (m b : Nat) : Bool := d.valid && d.vol = m && d.block = b

/-- `data_cache_drop_slot`. -/
def DataSlot.drop (d : DataSlot) : DataSlot :=
  { d with dirty := false, valid := false, readahead := false, lastUsed := 0 }

/-- Change a slot of the data cache. -/
def Cached.setDataSlot (s : Cached) (i : SlotIdx) (d : DataSlot) : Cached :=
  { s with dataSlots := Function.update s.dataSlots i d }

/-- `data_cache_tick`: the clock skips zero. -/
def dataCacheTick : CacheM UInt64 := do
  let s ← get
  let clock := if s.clock + 1 = 0 then 1 else s.clock + 1
  modify fun s => { s with clock := clock }
  pure clock

/-- `data_cache_ensure`. -/
def dataCacheEnsure : CacheM Bool := do
  let s ← get
  if s.dataReady then pure true
  else do
    let ok ← kcallocTable
    modify fun s => { s with dataReady := ok }
    pure ok

/-- `data_cache_touch`. -/
def dataCacheTouch (i : SlotIdx) : CacheM Unit := do
  let clock ← dataCacheTick
  modify fun s => s.setDataSlot i { s.dataSlots i with lastUsed := clock }

/-- `data_cache_find_slot`. -/
def dataCacheFindSlot (m b : Nat) : CacheM (Option SlotIdx) := do
  let s ← get
  match slotList.find? fun i => (s.dataSlots i).isAt m b with
  | none => pure none
  | some i => do
    dataCacheTouch i
    pure (some i)

/-- `data_cache_discard_block`. -/
def Cached.dataCacheDiscardBlock (s : Cached) (m b : Nat) : Cached :=
  { s with
    dataSlots := fun i =>
      if (s.dataSlots i).isAt m b then (s.dataSlots i).drop else s.dataSlots i }

/-- `data_cache_discard_clean_mount`. -/
def Cached.dataCacheDiscardCleanMount (s : Cached) (m : Nat) : Cached :=
  { s with
    dataSlots := fun i =>
      let d := s.dataSlots i
      if d.valid && d.vol = m && !d.dirty then d.drop else d }

/-- `write_cache_discard_clean_mount`. -/
def Cached.writeCacheDiscardCleanMount (s : Cached) (m : Nat) : Cached :=
  { s with
    writeSlots := fun i =>
      let w := s.writeSlots i
      if w.valid && w.vol = m && !w.dirty then { w with valid := false } else w }

/-- `data_cache_flush_slot`, on the volume that the slot is of. -/
def dataCacheFlushSlot (i : SlotIdx) : CacheM Unit := do
  let s ← get
  let d := s.dataSlots i
  if d.valid ∧ d.dirty then do
    onVolume d.vol (rawWriteBlock d.block d.data)
    modify fun s => s.setDataSlot i d.drop
  else pure ()

/-- `ext4_flush_data_cache_for_mount`. -/
def ext4FlushDataCacheForMount (m : Nat) : CacheM Unit :=
  forSlots (fun i => do
    let s ← get
    if (s.dataSlots i).valid ∧ (s.dataSlots i).dirty ∧ (s.dataSlots i).vol = m then
      dataCacheFlushSlot i
    else pure ()) slotList

/-- `ext4_flush_data_cache_for_inode`, with the blocks that the inode's logical blocks map to. -/
def ext4FlushDataCacheForInode (m : Nat) : List Nat → CacheM Unit
  | [] => pure ()
  | phys :: l => do
    forSlots (fun i => do
      let s ← get
      if (s.dataSlots i).isAt m phys ∧ (s.dataSlots i).dirty then dataCacheFlushSlot i
      else pure ()) slotList
    ext4FlushDataCacheForInode m l

/-- `ext4_flush_and_invalidate_read_caches`. -/
def ext4FlushAndInvalidateReadCaches (m : Nat) : CacheM Unit := do
  ext4FlushDataCacheForMount m
  ext4FlushWriteCacheForMount m
  modify fun s => s.dataCacheDiscardCleanMount m
  modify fun s => s.writeCacheDiscardCleanMount m

/-- `data_cache_dirty_count_mount`. -/
def Cached.dataCacheDirtyCountMount (s : Cached) (m : Nat) : Nat :=
  slotList.countP fun i => (s.dataSlots i).valid && (s.dataSlots i).vol = m && (s.dataSlots i).dirty

/-- The older of two slots; the first one if they are as old. -/
def Cached.olderSlot (s : Cached) (best : Option SlotIdx) (i : SlotIdx) : Option SlotIdx :=
  match best with
  | none => some i
  | some j => if (s.dataSlots i).lastUsed < (s.dataSlots j).lastUsed then some i else some j

/-- The first loop of `data_cache_lru_slot`: an invalid slot, or the oldest one of the volume. -/
def Cached.lruOfMount (s : Cached) (m : Nat) (preferClean : Bool) :
    List SlotIdx → Option SlotIdx → Option SlotIdx
  | [], best => best
  | i :: l, best =>
    let d := s.dataSlots i
    if !d.valid then some i
    else if d.vol ≠ m || preferClean && d.dirty then s.lruOfMount m preferClean l best
    else s.lruOfMount m preferClean l (s.olderSlot best i)

/-- `data_cache_lru_slot`. -/
def Cached.dataCacheLruSlot (s : Cached) (m : Nat) (preferClean : Bool) : Option SlotIdx :=
  match s.lruOfMount m preferClean slotList none with
  | some i => some i
  | none => slotList.foldl s.olderSlot none

/-- The oldest dirty slot of a volume. -/
def Cached.oldestDirty (s : Cached) (m : Nat) : Option SlotIdx :=
  (slotList.filter fun i =>
    (s.dataSlots i).valid && (s.dataSlots i).vol = m && (s.dataSlots i).dirty).foldl
      s.olderSlot none

/-- The loop of `data_cache_flush_pressure`, with `count` turns left. -/
def flushPressureLoop (m : Nat) : Nat → CacheM Unit
  | 0 => pure ()
  | count + 1 => do
    let s ← get
    match s.oldestDirty m with
    | none => pure ()
    | some i => do
      dataCacheFlushSlot i
      let s ← get
      if s.dataCacheDirtyCountMount m ≤ 9 then pure () else flushPressureLoop m count

/-- `data_cache_flush_pressure`: `EXT4_DATA_CACHE_DIRTY_HIGH_WATER` is 9 and
`EXT4_DATA_CACHE_WRITEBACK_BATCH` is 4. -/
def dataCacheFlushPressure (m : Nat) : CacheM Unit := do
  let s ← get
  if s.dataCacheDirtyCountMount m ≤ 9 then pure () else flushPressureLoop m 4

/-- The slot for a block: the one that holds it or the one to be taken from another block. -/
def dataCacheSlotFor (m b : Nat) (preferClean : Bool) : CacheM (Option SlotIdx) := do
  match ← dataCacheFindSlot m b with
  | some i => pure (some i)
  | none => do
    let s ← get
    pure (s.dataCacheLruSlot m preferClean)

/-- Fill a slot of the data cache. -/
def dataCacheFillSlot (i : SlotIdx) (m b : Nat) (buffer : Block) (dirty readahead : Bool) :
    CacheM Unit := do
  let clock ← dataCacheTick
  modify fun s => s.setDataSlot i ⟨true, dirty, m, b, clock, readahead, buffer⟩

/-- What is done with a block that the cache has no room for. -/
def writeIfDirty (m b : Nat) (buffer : Block) (dirty : Bool) : CacheM Unit :=
  if dirty then onVolume m (rawWriteBlock b buffer) else pure ()

/-- `data_cache_install_slot`: write the block of a slot out before it is taken for the block
`b`. -/
def dataCacheEvict (i : SlotIdx) (m b : Nat) : CacheM Unit := do
  let s ← get
  let d := s.dataSlots i
  if d.valid ∧ (d.dirty ∨ ¬d.isAt m b) then dataCacheFlushSlot i else pure ()

/-- `data_cache_install_slot`. -/
def dataCacheInstallSlot (m b : Nat) (buffer : Block) (dirty readahead : Bool) : CacheM Unit := do
  let s ← get
  require (b < (s.vols m).mnt.blocksCount) .range
  if ← dataCacheEnsure then do
    match ← dataCacheSlotFor m b (!dirty) with
    | none => writeIfDirty m b buffer dirty
    | some i => do
      dataCacheEvict i m b
      dataCacheFillSlot i m b buffer dirty readahead
      if dirty then dataCacheFlushPressure m else pure ()
  else writeIfDirty m b buffer dirty

/-- `data_cache_store_block`. -/
def dataCacheStoreBlock (m b : Nat) (buffer : Block) : CacheM Unit := do
  let s ← get
  require (b < (s.vols m).mnt.blocksCount) .range
  if (s.vols m).mnt.blockIsJournal b then onVolume m (rawWriteBlock b buffer)
  else dataCacheInstallSlot m b buffer true false

/-- `data_cache_store_clean_block`. -/
def dataCacheStoreCleanBlock (m b : Nat) (buffer : Block) (readahead : Bool) : CacheM Unit := do
  let s ← get
  require (b < (s.vols m).mnt.blocksCount) .range
  if (s.vols m).mnt.blockIsJournal b then pure ()
  else do
    match ← dataCacheFindSlot m b with
    | some _ => pure ()
    | none => dataCacheInstallSlot m b buffer false readahead

/-- `data_cache_prepare_slot`: write the block of a slot out, or drop it, before the slot is taken
for the block `b`. -/
def dataCacheVacate (i : SlotIdx) (m b : Nat) : CacheM Unit := do
  let s ← get
  let d := s.dataSlots i
  if d.valid ∧ d.dirty then dataCacheFlushSlot i
  else if d.valid ∧ ¬d.isAt m b then modify fun s => s.setDataSlot i d.drop
  else pure ()

/-- `data_cache_prepare_slot`. -/
def dataCachePrepareSlot (m b : Nat) (preferClean : Bool) : CacheM SlotIdx := do
  let s ← get
  require (b < (s.vols m).mnt.blocksCount) .range
  let ready ← dataCacheEnsure
  require (ready = true) .noMemory
  match ← dataCacheSlotFor m b preferClean with
  | none => fail .noMemory
  | some i => do
    dataCacheVacate i m b
    pure i

/-- The loop of `data_cache_readahead`, from the block `next` on with `count` turns left. -/
def readaheadLoop (m : Nat) : Nat → Nat → CacheM Unit
  | 0, _ => pure ()
  | count + 1, next => do
    let s ← get
    if (s.vols m).mnt.blocksCount ≤ next ∨ (s.vols m).mnt.blockIsJournal next then pure ()
    else do
      let found ← dataCacheFindSlot m next
      if found.isSome ∨ (s.writeCacheFindSlot m next).isSome then readaheadLoop m count (next + 1)
      else do
        match ← attempt (dataCachePrepareSlot m next true) with
        | .error _ => pure ()
        | .ok i => do
          let data ← onVolume m (rawReadBlock next)
          dataCacheFillSlot i m next data false true
          readaheadLoop m count (next + 1)

/-- `data_cache_readahead`: `EXT4_DATA_CACHE_READAHEAD` is 2. -/
def dataCacheReadahead (m first : Nat) : CacheM Unit := readaheadLoop m 2 first

/-! ### Blocks -/

/-- `read_block`. -/
def cachedReadBlock (m b : Nat) : CacheM Block := do
  let s ← get
  require (b < (s.vols m).mnt.blocksCount) .range
  match s.writeCacheFindSlot m b with
  | some i => pure (s.writeSlots i).data
  | none => do
    match ← dataCacheFindSlot m b with
    | some i => pure (s.dataSlots i).data
    | none => onVolume m (rawReadBlock b)

/-- `read_data_block`. -/
def cachedReadDataBlock (m b : Nat) : CacheM Block := do
  let s ← get
  require (b < (s.vols m).mnt.blocksCount) .range
  match ← dataCacheFindSlot m b with
  | some i => pure (s.dataSlots i).data
  | none => do
    let buffer ← cachedReadBlock m b
    dataCacheStoreCleanBlock m b buffer false
    dataCacheReadahead m (b + 1)
    pure buffer

/-- The slot of the write cache for a block: the one that holds it, a free one, or the first one,
whose block is written out. -/
def writeCacheSlotFor (m b : Nat) : CacheM SlotIdx := do
  let s ← get
  match s.writeCacheFindSlot m b with
  | some i => pure i
  | none =>
    match slotList.find? fun i => !(s.writeSlots i).valid with
    | some i => pure i
    | none => do
      writeCacheFlushSlotWithMount m 0
      pure 0

/-- Put a block into the write cache. -/
def writeCacheFill (m b : Nat) (buffer : Block) : CacheM Unit := do
  let i ← writeCacheSlotFor m b
  modify fun s => s.setWriteSlot i ⟨true, true, m, b, buffer⟩

/-- `write_cache_store_block`, `write_block`. -/
def cachedWriteBlock (m b : Nat) (buffer : Block) : CacheM Unit := do
  let s ← get
  require (b < (s.vols m).mnt.blocksCount) .range
  modify fun s => s.dataCacheDiscardBlock m b
  if (s.vols m).mnt.blockIsJournal b then onVolume m (journalCommitOrderedBlock b buffer)
  else if (s.writeCacheFindSlot m b).isSome then writeCacheFill m b buffer
  else if ← writeCacheEnsure then writeCacheFill m b buffer
  else onVolume m (journalCommitOrderedBlock b buffer)

/-- `write_data_block`. -/
def cachedWriteDataBlock (m b : Nat) (buffer : Block) : CacheM Unit := do
  let s ← get
  require (b < (s.vols m).mnt.blocksCount) .range
  modify fun s => s.writeCacheDiscardBlock m b
  dataCacheStoreBlock m b buffer

/-- What `free_block` does to the caches. -/
def cachedDiscardBlock (m b : Nat) : CacheM Unit := do
  modify fun s => s.writeCacheDiscardBlock m b
  modify fun s => s.dataCacheDiscardBlock m b

/-! ### Sync -/

/-- The bytes of `new` from `off` on put over `count` bytes of a block. -/
def Block.overlay (old : Block) (off count : Nat) (new : Block) : Block := fun i =>
  if off ≤ i ∧ i < off + count then new (i - off) else old i

/-- `write_super`: the 1024 bytes of the superblock are put into the block that has them. -/
def cachedWriteSuper (m : Nat) (sb : Block) : CacheM Unit := do
  let s ← get
  let bs := (s.vols m).mnt.blockSize
  let block ← cachedReadBlock m (1024 / bs)
  cachedWriteBlock m (1024 / bs) (block.overlay (1024 % bs) 1024 sb)

/-- `ext4_sync_metadata`, with the superblock `sb` of the mount. -/
def ext4SyncMetadata (m : Nat) (sb : Block) : CacheM Unit := do
  ext4FlushDataCacheForMount m
  cachedWriteSuper m sb
  ext4FlushWriteCacheForMount m
  onVolume m journalClear

end Rabbitbone.Native.Ext4
