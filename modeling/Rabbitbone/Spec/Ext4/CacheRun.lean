import Rabbitbone.Spec.Ext4.CacheOps

/-!
# The caches behave like a map

`CacheOp` lists what the file system does with its blocks.  `CacheOp.apply` is the meaning of an
operation for someone who knows of no caches: a write replaces the content of a block, a free makes
it unknown, `ext4_sync_metadata` puts the superblock into its block, and everything else changes
nothing.

## Key results

- `coherent_exec`: every operation keeps the caches coherent, with the map that it means.
- `execAll_actsAs`: after any run from boot, a read by either path returns what the map says, and
  `ext4_sync_metadata` leaves the map on the device.
-/

namespace Rabbitbone.Spec.Ext4

open Native.Ext4 FallibleState SectorDisk

/-- An operation on the blocks of the volume `m`. -/
inductive CacheOp where
  | read (m b : Nat)
  | readData (m b : Nat)
  | readahead (m b : Nat)
  | write (m b : Nat) (X : Block)
  | writeData (m b : Nat) (X : Block)
  | discard (m b : Nat)
  | flushData (m : Nat)
  | flushInode (m : Nat) (phys : List Nat)
  | flushPressure (m : Nat)
  | flushWrite (m : Nat)
  | invalidate (m : Nat)
  | sync (m : Nat) (sb : Block)

/-- What the file system runs. -/
def CacheOp.exec : CacheOp → CacheM Unit
  | read m b => do
    let _ ← cachedReadBlock m b
    pure ()
  | readData m b => do
    let _ ← cachedReadDataBlock m b
    pure ()
  | readahead m b => dataCacheReadahead m b
  | write m b X => cachedWriteBlock m b X
  | writeData m b X => cachedWriteDataBlock m b X
  | discard m b => cachedDiscardBlock m b
  | flushData m => ext4FlushDataCacheForMount m
  | flushInode m phys => ext4FlushDataCacheForInode m phys
  | flushPressure m => dataCacheFlushPressure m
  | flushWrite m => ext4FlushWriteCacheForMount m
  | invalidate m => ext4FlushAndInvalidateReadCaches m
  | sync m sb => ext4SyncMetadata m sb

/-- What it means for the contents of the blocks.  A block that is not on the volume is not
written. -/
def CacheOp.apply (mnts : Nat → Mount) : CacheOp → BlockMap → BlockMap
  | write m b X, M | writeData m b X, M => if b < (mnts m).blocksCount then written M m b X else M
  | discard m b, M => forgotten M m b
  | sync m sb, M =>
    if superBlock (mnts m) < (mnts m).blocksCount then superWritten M (mnts m) m sb else M
  | _, M => M

/-- The state after a run; an operation that fails leaves its error to the caller and goes on. -/
def execAll : List CacheOp → Cached → Cached
  | [], s => s
  | op :: ops, s => execAll ops (op.exec.run s).2

/-- The map after a run. -/
def applyOps (mnts : Nat → Mount) : List CacheOp → BlockMap → BlockMap
  | [], M => M
  | op :: ops, M => applyOps mnts ops (op.apply mnts M)

/-- The caches at boot: no tables. -/
def Cached.boot (vols : Nat → RawVolume) (memory : Nat → Bool) : Cached where
  vols := vols
  writeReady := false
  writeSlots := fun _ => ⟨false, false, 0, 0, zeroBlock⟩
  dataReady := false
  dataSlots := fun _ => ⟨false, false, 0, 0, 0, false, zeroBlock⟩
  clock := 0
  memory := memory
  allocs := 0

/-- What the devices hold. -/
def deviceMap (vols : Nat → RawVolume) : BlockMap := fun k => some ((vols k.1).disk k.2)

private theorem coherent_boot (vols : Nat → RawVolume) (memory : Nat → Bool) :
    Coherent (Cached.boot vols memory) (deviceMap vols) where
  dataTable := fun _ _ => rfl
  writeDirty := fun _ h => absurd h (by simp [Cached.boot])
  writeReach := fun _ _ h => absurd h (by simp [Cached.boot, writeKey])
  dataReach := fun _ _ h => absurd h (by simp [Cached.boot, dataKey])
  writeInj := fun _ _ _ h => absurd h (by simp [Cached.boot, writeKey])
  dataInj := fun _ _ _ h => absurd h (by simp [Cached.boot, dataKey])
  apart := fun _ _ _ h => absurd h (by simp [Cached.boot, writeKey])
  writeVal := fun _ _ _ h => absurd h (by simp [Cached.boot, writeKey])
  dataVal := fun _ _ _ h => absurd h (by simp [Cached.boot, dataKey])
  diskVal := fun k c _ hk _ _ => by
    rw [deviceMap, Option.some.injEq] at hk
    rw [← hk]
    exact .refl _

section

variable {s : Cached} {M : BlockMap} {x : CacheM Unit} {b m : Nat}

/-! ### Steps -/

/-- The state after an operation, with the map that it holds. -/
structure Step (s : Cached) (M' : BlockMap) (s' : Cached) : Prop where
  coherent : Coherent s' M'
  mounts : SameMounts s s'

theorem Step.of_run {r : Except Ext4Status Unit} {s' : Cached}
    (hrun : x.run s = (r, s')) (hcoh : Coherent s' M) (hmounts : SameMounts s s') :
    Step s M (x.run s).2 := by
  rw [hrun]
  exact ⟨hcoh, hmounts⟩

/-- A block that is not on the volume is refused before anything is done. -/
theorem step_range (h : Coherent s M) (hrun : x.run s = (.error .range, s)) :
    Step s M (x.run s).2 :=
  .of_run hrun h (.refl s)

private theorem cachedReadBlock_range (hlt : ¬b < (s.vols m).mnt.blocksCount) :
    (cachedReadBlock m b).run s = (.error .range, s) := by
  rw [cachedReadBlock, bind_of_ok (run_get s), bind_of_error (require_of_neg hlt)]

private theorem cachedReadDataBlock_range (hlt : ¬b < (s.vols m).mnt.blocksCount) :
    (cachedReadDataBlock m b).run s = (.error .range, s) := by
  rw [cachedReadDataBlock, bind_of_ok (run_get s), bind_of_error (require_of_neg hlt)]

section

variable (h : Coherent s M)
include h

/-- A read keeps the caches coherent. -/
theorem step_read (m b : Nat) : Step s M ((CacheOp.read m b).exec.run s).2 := by
  by_cases hlt : b < (s.vols m).mnt.blocksCount
  · obtain ⟨X, s', hrun, hsim, -⟩ := cachedReadBlock_run h hlt
    exact .of_run ((bind_of_ok hrun).trans (run_pure _ _)) (h.similar hsim) hsim.sameMounts
  · exact step_range h (bind_of_error (cachedReadBlock_range hlt))

private theorem step_readData (m b : Nat) : Step s M ((CacheOp.readData m b).exec.run s).2 := by
  by_cases hlt : b < (s.vols m).mnt.blocksCount
  · obtain ⟨X, s', hrun, hcoh, hmounts, -⟩ := cachedReadDataBlock_run h hlt
    exact .of_run ((bind_of_ok hrun).trans (run_pure _ _)) hcoh hmounts
  · exact step_range h (bind_of_error (cachedReadDataBlock_range hlt))

/-- A write keeps the caches coherent and is the last one of its block. -/
theorem step_write (m b : Nat) (X : Block) :
    Step s (if b < (s.vols m).mnt.blocksCount then written M m b X else M)
      ((CacheOp.write m b X).exec.run s).2 := by
  split
  · rename_i hlt
    obtain ⟨s', hrun, hcoh, hmounts, -⟩ := cachedWriteBlock_run h hlt X
    exact .of_run hrun hcoh hmounts
  rename_i hlt
  refine step_range h ?_
  rw [CacheOp.exec, cachedWriteBlock, bind_of_ok (run_get s), bind_of_error (require_of_neg hlt)]

private theorem step_writeData (m b : Nat) (X : Block) :
    Step s (if b < (s.vols m).mnt.blocksCount then written M m b X else M)
      ((CacheOp.writeData m b X).exec.run s).2 := by
  split
  · rename_i hlt
    obtain ⟨s', hrun, hcoh, hmounts⟩ := cachedWriteDataBlock_run h hlt X
    exact .of_run hrun hcoh hmounts
  rename_i hlt
  refine step_range h ?_
  rw [CacheOp.exec, cachedWriteDataBlock, bind_of_ok (run_get s),
    bind_of_error (require_of_neg hlt)]

/-- Without a block for the superblock the sync fails after the data cache was flushed. -/
theorem ext4SyncMetadata_range {m : Nat}
    (hlt : ¬superBlock (s.vols m).mnt < (s.vols m).mnt.blocksCount) (sb : Block) :
    ∃ s', (ext4SyncMetadata m sb).run s = (.error .range, s') ∧ Coherent s' M ∧
      SameMounts s s' := by
  obtain ⟨s₁, hdata, h₁, -⟩ := ext4FlushDataCacheForMount_run h m
  have hrange : (cachedWriteSuper m sb).run s₁ = (.error .range, s₁) := by
    rw [cachedWriteSuper, bind_of_ok (run_get s₁)]
    exact bind_of_error (cachedReadBlock_range (by rw [h₁.mounts m]; exact hlt))
  exact ⟨s₁, by rw [ext4SyncMetadata, bind_of_ok hdata, bind_of_error hrange], h₁.coherent,
    h₁.mounts⟩

private theorem step_sync (m : Nat) (sb : Block) :
    Step s (if superBlock (s.vols m).mnt < (s.vols m).mnt.blocksCount
      then superWritten M (s.vols m).mnt m sb else M) ((CacheOp.sync m sb).exec.run s).2 := by
  split
  · rename_i hlt
    obtain ⟨s', hrun, hcoh, hmounts, -⟩ := ext4SyncMetadata_run h hlt sb
    exact .of_run hrun hcoh hmounts
  rename_i hlt
  obtain ⟨s', hrun, hcoh, hmounts⟩ := ext4SyncMetadata_range h hlt sb
  exact .of_run hrun hcoh hmounts

/-- Every operation keeps the caches coherent. -/
theorem coherent_exec (op : CacheOp) :
    Step s (op.apply (fun m => (s.vols m).mnt) M) (op.exec.run s).2 := by
  cases op with
  | read m b => exact step_read h m b
  | readData m b => exact step_readData h m b
  | readahead m b =>
    obtain ⟨s', hrun, hcoh, hmounts⟩ := readaheadLoop_run m 2 h b
    exact .of_run hrun hcoh hmounts
  | write m b X => exact step_write h m b X
  | writeData m b X => exact step_writeData h m b X
  | discard m b =>
    obtain ⟨s', hrun, hcoh, hmounts⟩ := cachedDiscardBlock_run h m b
    exact .of_run hrun hcoh hmounts
  | flushData m =>
    obtain ⟨s', hrun, hinv, -⟩ := ext4FlushDataCacheForMount_run h m
    exact .of_run hrun hinv.coherent hinv.mounts
  | flushInode m phys =>
    obtain ⟨s', hrun, hinv⟩ := ext4FlushDataCacheForInode_run h m phys
    exact .of_run hrun hinv.coherent hinv.mounts
  | flushPressure m =>
    obtain ⟨s', hrun, hinv⟩ := dataCacheFlushPressure_run h m
    exact .of_run hrun hinv.coherent hinv.mounts
  | flushWrite m =>
    obtain ⟨s', hrun, hinv, -⟩ := ext4FlushWriteCacheForMount_run h m
    exact .of_run hrun hinv.coherent hinv.mounts
  | invalidate m =>
    obtain ⟨s', hrun, hcoh, hmounts⟩ := ext4FlushAndInvalidateReadCaches_run h m
    exact .of_run hrun hcoh hmounts
  | sync m sb => exact step_sync h m sb

end

/-! ### Runs -/

private theorem coherent_execAll (ops : List CacheOp) (h : Coherent s M) :
    Step s (applyOps (fun m => (s.vols m).mnt) ops M) (execAll ops s) := by
  induction ops generalizing s M with
  | nil => exact ⟨h, .refl s⟩
  | cons op ops ih =>
    have hstep := coherent_exec h op
    have hrest := ih hstep.coherent
    rw [funext hstep.mounts] at hrest
    exact ⟨hrest.coherent, hstep.mounts.trans hrest.mounts⟩

/-- The state behaves like the map `M`, as far as it says what a block outside the journal holds:
both ways of reading return it, and after `ext4_sync_metadata` the device alone has it. -/
structure ActsAs (s : Cached) (M : BlockMap) : Prop where
  read : ∀ m b c, InReach s (m, b) → M (m, b) = some c →
    ∃ X, ((cachedReadBlock m b).run s).1 = .ok X ∧ SameContent (s.vols m).mnt X c
  readData : ∀ m b c, InReach s (m, b) → M (m, b) = some c →
    ∃ X, ((cachedReadDataBlock m b).run s).1 = .ok X ∧ SameContent (s.vols m).mnt X c
  sync : ∀ m sb, ((ext4SyncMetadata m sb).run s).1 = .ok () →
    OnDevice ((ext4SyncMetadata m sb).run s).2 (superWritten M (s.vols m).mnt m sb) m

private theorem Coherent.actsAs (h : Coherent s M) : ActsAs s M where
  read m b c hr hc := by
    obtain ⟨X, s', hrun, -, hX⟩ := cachedReadBlock_run h hr.1
    exact ⟨X, by rw [hrun], hX hr.2 c hc⟩
  readData m b c hr hc := by
    obtain ⟨X, s', hrun, -, -, hX⟩ := cachedReadDataBlock_run h hr.1
    exact ⟨X, by rw [hrun], hX hr.2 c hc⟩
  sync m sb hok := by
    by_cases hlt : superBlock (s.vols m).mnt < (s.vols m).mnt.blocksCount
    · obtain ⟨s', hrun, -, -, hdev⟩ := ext4SyncMetadata_run h hlt sb
      rw [hrun]
      exact hdev
    obtain ⟨s', hrun, -⟩ := ext4SyncMetadata_range h hlt sb
    rw [hrun] at hok
    exact absurd hok (by simp)

end

/-- After any run from boot the caches and the devices behave like the map that the run means. -/
theorem execAll_actsAs (vols : Nat → RawVolume) (memory : Nat → Bool) (ops : List CacheOp) :
    ActsAs (execAll ops (Cached.boot vols memory))
      (applyOps (fun m => (vols m).mnt) ops (deviceMap vols)) :=
  (coherent_execAll ops (coherent_boot vols memory)).coherent.actsAs

/-- Block 5 is written as metadata and read back as data. -/
theorem execAll_actsAs_write : (∃ X, ((cachedReadDataBlock 0 5).run
        (execAll [.write 0 5 fun _ => 1] (Cached.boot (fun _ => emptyJournal) fun _ => true))).1
      = .ok X ∧ SameContent journalMount X fun _ => 1) :=
  (execAll_actsAs (fun _ => emptyJournal) (fun _ => true) [.write 0 5 fun _ => 1]).readData 0 5 _
    ⟨by decide, by decide⟩ rfl

/-- The last write to block 5 was ones, and after the block was freed a read returns what the device
had before. -/
theorem read_after_discard_is_stale :
    (((cachedReadBlock 0 5).run (execAll [.write 0 5 fun _ => 1, .discard 0 5]
      (Cached.boot (fun _ => emptyJournal) fun _ => true))).1.toOption.map fun X => X 0)
        = some 0 := by
  decide

end Rabbitbone.Spec.Ext4
