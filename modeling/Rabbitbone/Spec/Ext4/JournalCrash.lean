import Rabbitbone.Native.Ext4.Journal
import Rabbitbone.Spec.Ext4.AllocRun
import Rabbitbone.Spec.Ext4.Bytes

/-!
# Crashes in a journal commit

`journal_commit_ordered_block` writes the new content to the payload block, then the record, then
the target.  A crash can come behind any sector.  Up to the first sector of the record the journal
still holds the record of an earlier commit, with a payload block that is partly or wholly
overwritten; from there on recovery writes the new content to the target.

The record of an earlier commit stays in the journal after its block has been written, and recovery
replays it whenever the payload still has its checksum.  That does no harm as long as the block
holds what the record says; a block that was freed and reused for file data no longer does.

## Key results

- `recoverJournal_run`: what recovery does to the disk.
- `crashed_early`, `crashed_late`: the disk behind the first `k` sector writes of a commit.
- `commit_crash_iff`: with no orphans on the volume, every crash is recovered from exactly if
  replaying the earlier record does no harm.
-/

namespace Rabbitbone.Spec.Ext4

open Native Native.Ext4 FallibleState SectorDisk Function UInt32

/-! ### The journal's place -/

variable {mnt : Mount} {b k target : Nat} {seq payloadCrc blockSize state : UInt32} {a : Block}
  {d : Nat → Block} {v : RawVolume}

/-- The two blocks of the journal are the last ones of the volume. -/
theorem journal_blocks_eq (h : mnt.journalBlocks = 2) :
    mnt.journalFirstBlock + 2 = mnt.blocksCount := by
  rcases mnt.journal_mem with h0 | ⟨-, h2⟩
  · omega
  · exact h2

private theorem blockIsJournal_iff (h : mnt.journalBlocks = 2) :
    mnt.blockIsJournal b = true ↔ b = mnt.journalFirstBlock ∨ b = mnt.journalFirstBlock + 1 := by
  have heq := journal_blocks_eq h
  have hlt := mnt.blocksCount_lt
  have hend : ¬2 ^ 64 ≤ mnt.journalFirstBlock + 2 := by omega
  have hfirst : ¬mnt.blocksCount ≤ mnt.journalFirstBlock := by omega
  have hlast : ¬mnt.blocksCount < mnt.journalFirstBlock + 2 := by omega
  simp only [Mount.blockIsJournal, h, hend, hfirst, hlast]
  simp
  omega

/-- The sectors of a block are its bytes. -/
theorem div_lt_sectors {i : Nat} : i / 512 < mnt.sectors ↔ i < mnt.blockSize := by
  rw [Mount.sectors]
  rcases mnt.blockSize_mem with h | h | h <;> rw [h] <;> omega

private theorem sectors_pos (mnt : Mount) : 0 < mnt.sectors := by
  rw [Mount.sectors]
  rcases mnt.blockSize_mem with h | h | h <;> rw [h] <;> decide

/-! ### Contents -/

/-- Two contents of a block are the same: they agree in the bytes that exist. -/
def SameContent (mnt : Mount) (a b : Block) : Prop := ∀ i < mnt.blockSize, a i = b i

theorem SameContent.refl {mnt : Mount} (a : Block) : SameContent mnt a a := fun _ _ => rfl

theorem SameContent.trans {b c : Block} (h : SameContent mnt a b) (h' : SameContent mnt b c) :
    SameContent mnt a c :=
  fun i hi => (h i hi).trans (h' i hi)

/-- A block that was written to its end. -/
theorem torn_sectors_same (mnt : Mount) (new old : Block) :
    SameContent mnt (torn 512 mnt.sectors new old) new := by
  intro i hi
  rw [torn, if_pos (div_lt_sectors.mpr hi)]

/-! ### Records -/

/-- A record is read from the first sector of its block. -/
theorem record_congr (mnt : Mount) {b : Block} (h : ∀ i < 512, a i = b i) :
    journalCommitted mnt a = journalCommitted mnt b ∧ journalTarget a = journalTarget b ∧
      journalPayloadCrc a = journalPayloadCrc b := by
  have hword : ∀ k < 17, a.word k = b.word k := fun k hk =>
    word_congr fun i _ hi => h i (by omega)
  have hcrc : journalHeaderCrc a = journalHeaderCrc b := by
    refine congrArg crc32 (bytes_congr fun i hi => ?_)
    simp only [putLe32, h i (by omega)]
  have htarget : journalTarget a = journalTarget b := by
    rw [journalTarget, journalTarget, hword 4 (by omega), hword 5 (by omega)]
  refine ⟨?_, htarget, hword 7 (by omega)⟩
  rw [journalCommitted, journalCommitted, journalRecordHeaderValid, journalRecordHeaderValid,
    hword 0 (by omega), hword 1 (by omega), hword 2 (by omega), hword 6 (by omega),
    hword 8 (by omega), hcrc, htarget]

/-- The words of a record. -/
theorem journalRecord_words (state seq : UInt32) (target : Nat) (blockSize payloadCrc : UInt32) :
    let jr := journalRecord state seq target blockSize payloadCrc
    jr.word 0 = journalMagic ∧ jr.word 1 = 1 ∧ jr.word 2 = state ∧
      jr.word 4 = ofNat target ∧ jr.word 5 = ofNat (target / 2 ^ 32) ∧
      jr.word 6 = blockSize ∧ jr.word 7 = payloadCrc ∧ jr.word 8 = journalHeaderCrc jr := by
  simp only [journalRecord, journalFields, journalHeaderCrc, word_putLe32_self,
    putLe32_putLe32_self]
  simp [word_putLe32_of_ne]

private theorem journalTarget_journalRecord (h : target < 2 ^ 64) :
    journalTarget (journalRecord state seq target blockSize payloadCrc) = target := by
  obtain ⟨-, -, -, hlo, hhi, -⟩ := journalRecord_words state seq target blockSize payloadCrc
  rw [journalTarget, hlo, hhi, le64FromLoHi, toNat_ofNat', toNat_ofNat']
  omega

private theorem journalPayloadCrc_journalRecord :
    journalPayloadCrc (journalRecord state seq target blockSize payloadCrc) = payloadCrc := by
  obtain ⟨-, -, -, -, -, -, hcrc, -⟩ := journalRecord_words state seq target blockSize payloadCrc
  exact hcrc

/-- The record of a commit is valid and in the state 1. -/
theorem journalCommitted_journalRecord (hlt : target < mnt.blocksCount)
    (hnot : mnt.blockIsJournal target = false) : journalCommitted mnt
      (journalRecord 1 seq target (ofNat mnt.blockSize) payloadCrc) = true := by
  obtain ⟨h0, h1, h2, -, -, h6, -, h8⟩ :=
    journalRecord_words 1 seq target (ofNat mnt.blockSize) payloadCrc
  rw [journalCommitted, journalRecordHeaderValid, h0, h1, h2, h6, h8,
    journalTarget_journalRecord (hlt.trans mnt.blocksCount_lt)]
  simp [hlt, hnot]

/-- An idle record is not replayed. -/
theorem journalCommitted_idle (mnt : Mount) (seq : UInt32) :
    journalCommitted mnt (journalMakeIdleRecord mnt seq) = false := by
  obtain ⟨-, -, h2, -⟩ := journalRecord_words 0 seq 0 (ofNat mnt.blockSize) 0
  rw [journalMakeIdleRecord, journalCommitted, h2]
  simp

/-! ### Recovery -/

/-- The record in `header` is replayed when the payload block holds `payload`. -/
def Armed (mnt : Mount) (header payload : Block) : Prop :=
  journalCommitted mnt header = true ∧
    crc32 (payload.bytes 0 mnt.blockSize) = journalPayloadCrc header

instance (mnt : Mount) (header payload : Block) : Decidable (Armed mnt header payload) :=
  inferInstanceAs (Decidable (_ ∧ _))

/-- The disk after the record in the journal has been replayed. -/
def replayed (mnt : Mount) (d : Nat → Block) : Nat → Block :=
  let header := d mnt.journalFirstBlock
  let payload := d (mnt.journalFirstBlock + 1)
  if Armed mnt header payload then
    update d (journalTarget header) (torn 512 mnt.sectors payload (d (journalTarget header)))
  else d

/-- The disk after recovery. -/
def recovered (mnt : Mount) (seq : UInt32) (d : Nat → Block) : Nat → Block :=
  update (replayed mnt d) mnt.journalFirstBlock
    (torn 512 mnt.sectors (journalMakeIdleRecord mnt seq) (d mnt.journalFirstBlock))

private theorem journalCommitted_target {jr : Block} (h : journalCommitted mnt jr = true) :
    journalTarget jr < mnt.blocksCount ∧ mnt.blockIsJournal (journalTarget jr) = false := by
  simp only [journalCommitted, journalRecordHeaderValid, Bool.and_eq_true, Bool.or_eq_true,
    decide_eq_true_eq, Bool.not_eq_true'] at h
  obtain ⟨⟨-, h0 | ⟨⟨-, hlt⟩, hnot⟩⟩, h1⟩ := h
  · rw [h0] at h1
    exact absurd h1 (by decide)
  · exact ⟨hlt, hnot⟩

theorem rawWriteBlock_run (h : b < v.mnt.blocksCount) (buffer : Block) :
    (rawWriteBlock b buffer).run v = (.ok (), v.write b buffer) := by
  rw [rawWriteBlock, bind_of_ok (run_get v), bind_of_ok (require_of_pos h), run_modify]

theorem rawReadBlock_run (h : b < v.mnt.blocksCount) :
    (rawReadBlock b).run v = (.ok (v.disk b), v) := by
  rw [rawReadBlock, bind_of_ok (run_get v), bind_of_ok (require_of_pos h), run_pure]

/-- A block that is written has its sectors from the buffer. -/
theorem write_disk (v : RawVolume) (b : Nat) (buffer : Block) : (v.write b buffer).disk
      = update v.disk b (torn 512 v.mnt.sectors buffer (v.disk b)) :=
  applyAll_blockWrites _ _ _ _

/-- Replaying succeeds and changes the disk only. -/
theorem replayRecord_run (hj : v.mnt.journalBlocks = 2) :
    ∃ v', (replayRecord (v.disk v.mnt.journalFirstBlock)).run v = (.ok (), v') ∧
      v'.mnt = v.mnt ∧ v'.journalSeq = v.journalSeq ∧ v'.disk = replayed v.mnt v.disk := by
  have hblocks := journal_blocks_eq hj
  have hlt := v.mnt.blocksCount_lt
  have hpayload : v.mnt.journalFirstBlock + 1 < v.mnt.blocksCount := by omega
  rw [replayRecord, bind_of_ok (run_get v)]
  by_cases hcommitted : journalCommitted v.mnt (v.disk v.mnt.journalFirstBlock) = true
  swap
  · rw [if_neg hcommitted]
    refine ⟨v, rfl, rfl, rfl, ?_⟩
    rw [replayed, if_neg fun h => hcommitted h.1]
  rw [if_pos hcommitted]
  rw [bind_of_ok (require_of_pos ⟨hpayload.trans hlt, hpayload⟩),
    bind_of_ok (rawReadBlock_run hpayload)]
  by_cases hcrc : crc32 ((v.disk (v.mnt.journalFirstBlock + 1)).bytes 0 v.mnt.blockSize)
      = journalPayloadCrc (v.disk v.mnt.journalFirstBlock)
  · rw [if_pos hcrc, rawWriteBlock_run (journalCommitted_target hcommitted).1]
    refine ⟨_, rfl, rfl, rfl, ?_⟩
    rw [write_disk, replayed, if_pos ⟨hcommitted, hcrc⟩]
  rw [if_neg hcrc]
  refine ⟨v, rfl, rfl, rfl, ?_⟩
  rw [replayed, if_neg fun h => hcrc h.2]

private theorem replayed_first (hj : mnt.journalBlocks = 2) (d : Nat → Block) :
    replayed mnt d mnt.journalFirstBlock = d mnt.journalFirstBlock := by
  rw [replayed]
  split
  · rename_i harmed
    refine update_of_ne (fun heq => ?_) _ _
    have hnot := (journalCommitted_target harmed.1).2
    rw [(blockIsJournal_iff hj).mpr (Or.inl heq.symm)] at hnot
    exact absurd hnot (by decide)
  · rfl

/-- Recovery succeeds, and this is the disk it leaves. -/
theorem recoverJournal_run (hj : v.mnt.journalBlocks = 2) :
    ∃ v', recoverJournal.run v = (.ok (), v') ∧ v'.mnt = v.mnt ∧ v'.journalSeq = v.journalSeq ∧
      v'.disk = recovered v.mnt v.journalSeq v.disk := by
  have hblocks := journal_blocks_eq hj
  have hfirst : v.mnt.journalFirstBlock < v.mnt.blocksCount := by omega
  obtain ⟨v₁, hreplay, hmnt, hseq, hdisk⟩ := replayRecord_run hj
  have hread : (attempt (rawReadBlock v.mnt.journalFirstBlock)).run v
      = (.ok (.ok (v.disk v.mnt.journalFirstBlock)), v) :=
    attempt_ok.mpr (rawReadBlock_run hfirst)
  rw [recoverJournal, bind_of_ok (run_get v), if_neg (by omega), bind_of_ok hread]
  rw [bind_of_ok hreplay, journalClear, bind_of_ok (run_get v₁), if_neg (by rw [hmnt, hj]; decide),
    rawWriteBlock_run (by rwa [hmnt])]
  refine ⟨_, rfl, hmnt, hseq, ?_⟩
  rw [write_disk, hmnt, hseq, hdisk, recovered, replayed_first hj]

/-- Without orphans this is all that `ext4_recover` does. -/
theorem ext4Recover_run (release : UInt32 → RawM Unit) (hj : v.mnt.journalBlocks = 2) :
    ∃ v', (ext4Recover 0 release).run v = (.ok (), v') ∧ v'.mnt = v.mnt ∧
      v'.journalSeq = v.journalSeq ∧ v'.disk = recovered v.mnt v.journalSeq v.disk := by
  obtain ⟨v', hrun, hkept⟩ := recoverJournal_run hj
  refine ⟨v', ?_, hkept⟩
  rw [ext4Recover, bind_of_ok hrun, if_pos rfl, run_pure]

/-- Recovery writes the payload to the target of an armed record. -/
theorem recovered_target (hj : mnt.journalBlocks = 2) (seq : UInt32)
    (h : Armed mnt (d mnt.journalFirstBlock) (d (mnt.journalFirstBlock + 1))) :
    SameContent mnt (recovered mnt seq d (journalTarget (d mnt.journalFirstBlock)))
      (d (mnt.journalFirstBlock + 1)) := by
  have hne : journalTarget (d mnt.journalFirstBlock) ≠ mnt.journalFirstBlock := by
    intro heq
    have hnot := (journalCommitted_target h.1).2
    rw [(blockIsJournal_iff hj).mpr (Or.inl heq)] at hnot
    exact absurd hnot (by decide)
  rw [recovered, update_of_ne hne, replayed, if_pos h, update_self]
  exact torn_sectors_same _ _ _

/-- Recovery leaves every other block outside the journal alone. -/
theorem recovered_other (hj : mnt.journalBlocks = 2) (hb : mnt.blockIsJournal b = false)
    (h : Armed mnt (d mnt.journalFirstBlock) (d (mnt.journalFirstBlock + 1)) →
      b ≠ journalTarget (d mnt.journalFirstBlock)) : recovered mnt seq d b = d b := by
  have hne : b ≠ mnt.journalFirstBlock := by
    intro heq
    rw [(blockIsJournal_iff hj).mpr (Or.inl heq)] at hb
    exact absurd hb (by decide)
  rw [recovered, update_of_ne hne, replayed]
  split
  · rename_i harmed
    exact update_of_ne (h harmed) _ _
  · rfl

/-- After recovery the journal is idle, and nothing is replayed again. -/
theorem recovered_recovered (seq : UInt32) (d : Nat → Block) :
    recovered mnt seq (recovered mnt seq d) = recovered mnt seq d := by
  have hheader : recovered mnt seq d mnt.journalFirstBlock
      = torn 512 mnt.sectors (journalMakeIdleRecord mnt seq) (d mnt.journalFirstBlock) :=
    update_self _ _ _
  have hidle : ¬Armed mnt (recovered mnt seq d mnt.journalFirstBlock)
      (recovered mnt seq d (mnt.journalFirstBlock + 1)) := by
    intro harmed
    have hcommitted := harmed.1
    have hsame : ∀ i < 512, recovered mnt seq d mnt.journalFirstBlock i
        = journalMakeIdleRecord mnt seq i := by
      intro i hi
      have := sectors_pos mnt
      rw [hheader, torn, if_pos (by omega)]
    rw [(record_congr mnt hsame).1, journalCommitted_idle] at hcommitted
    exact absurd hcommitted (by decide)
  conv_lhs => rw [recovered, replayed, if_neg hidle, hheader]
  funext b
  by_cases hb : b = mnt.journalFirstBlock
  · subst hb
    rw [update_self, hheader]
    funext i
    simp only [torn]
    split <;> rfl
  · rw [update_of_ne hb]

/-! ### The disk after a crash -/

/-- The disk behind the first `k` sector writes of a commit. -/
def crashed (v : RawVolume) (target : Nat) (new : Block) (k : Nat) : Nat → Block :=
  v.crash (journalCommitOrderedBlock target new) k

/-- The record that a commit writes. -/
def commitRecord (v : RawVolume) (target : Nat) (new : Block) : Block :=
  journalRecord 1 (v.journalSeq + 1) target (ofNat v.mnt.blockSize)
    (crc32 (new.bytes 0 v.mnt.blockSize))

section

variable {v : RawVolume} {target : Nat} {new : Block}

/-- The blocks outside the journal are neither of its two. -/
theorem ne_of_not_journal (hj : v.mnt.journalBlocks = 2) (hb : v.mnt.blockIsJournal b = false) :
    b ≠ v.mnt.journalFirstBlock ∧ b ≠ v.mnt.journalFirstBlock + 1 := by
  refine not_or.mp fun h => ?_
  rw [(blockIsJournal_iff hj).mpr h] at hb
  exact absurd hb (by decide)

variable (hj : v.mnt.journalBlocks = 2) (hready : v.journalReady = true)
  (hlt : target < v.mnt.blocksCount) (hnot : v.mnt.blockIsJournal target = false)
include hj hready hlt hnot

/-- The sector writes of a commit. -/
theorem commit_log : ((journalCommitOrderedBlock target new).run { v with log := [] }).2.log
      = blockWrites v.mnt.sectors (v.mnt.journalFirstBlock + 1) new
        ++ (blockWrites v.mnt.sectors v.mnt.journalFirstBlock (commitRecord v target new)
          ++ blockWrites v.mnt.sectors target new) := by
  have hblocks := journal_blocks_eq hj
  have hcount := v.mnt.blocksCount_lt
  have hdirect : ¬(v.journalReady = false ∨ v.mnt.blockIsJournal target = true
      ∨ v.mnt.journalBlocks < 2) := by
    rw [hready, hnot, hj]
    decide
  have hroom : ¬(2 ^ 64 ≤ v.mnt.journalFirstBlock + 1
      ∨ v.mnt.blocksCount ≤ v.mnt.journalFirstBlock + 1) := by omega
  rw [journalCommitOrderedBlock, bind_of_ok (run_get _)]
  rw [if_neg hdirect, bind_of_ok (run_modify _ _), if_neg hroom,
    bind_of_ok (rawWriteBlock_run (by dsimp only; omega) _),
    bind_of_ok (rawWriteBlock_run (by dsimp only [RawVolume.write]; omega) _),
    rawWriteBlock_run (by dsimp only [RawVolume.write]; omega)]
  simp only [RawVolume.write, List.nil_append, List.append_assoc]
  rfl

/-- Up to the first sector of the record only the payload block has changed. -/
theorem crashed_early (hk : k ≤ v.mnt.sectors) :
    crashed v target new k v.mnt.journalFirstBlock = v.disk v.mnt.journalFirstBlock ∧
      crashed v target new k (v.mnt.journalFirstBlock + 1)
        = torn 512 k new (v.disk (v.mnt.journalFirstBlock + 1)) ∧
      ∀ b, v.mnt.blockIsJournal b = false → crashed v target new k b = v.disk b := by
  have hfirst : v.mnt.journalFirstBlock ≠ v.mnt.journalFirstBlock + 1 := by omega
  rw [crashed, RawVolume.crash, commit_log hj hready hlt hnot, applyAll_take_append,
    length_blockWrites, Nat.sub_eq_zero_of_le hk, List.take_zero, applyAll_nil,
    applyAll_take_blockWrites, Nat.min_eq_left hk]
  refine ⟨update_of_ne hfirst _ _, update_self _ _ _, fun b hb => ?_⟩
  exact update_of_ne (ne_of_not_journal hj hb).2 _ _

/-- From there on the journal holds the new record and the new content, and only the target may have
changed besides. -/
theorem crashed_late (hk : v.mnt.sectors < k) :
    (∀ i < 512, crashed v target new k v.mnt.journalFirstBlock i = commitRecord v target new i) ∧
      SameContent v.mnt (crashed v target new k (v.mnt.journalFirstBlock + 1)) new ∧
      ∀ b, b ≠ target → v.mnt.blockIsJournal b = false → crashed v target new k b = v.disk b := by
  have hne := ne_of_not_journal hj hnot
  have hsecond : v.mnt.journalFirstBlock + 1 ≠ v.mnt.journalFirstBlock := by omega
  rw [crashed, RawVolume.crash, commit_log hj hready hlt hnot, applyAll_take_append,
    length_blockWrites, applyAll_take_append, length_blockWrites, applyAll_take_blockWrites,
    applyAll_take_blockWrites, applyAll_take_blockWrites, Nat.min_eq_right hk.le]
  refine ⟨fun i hi => ?_, ?_, fun b hb hbj => ?_⟩
  · have hpos := sectors_pos v.mnt
    rw [update_of_ne hne.1.symm, update_self, torn, if_pos (by omega)]
  · rw [update_of_ne hne.2.symm, update_of_ne hsecond, update_self]
    exact torn_sectors_same _ _ _
  · have hbne := ne_of_not_journal hj hbj
    rw [update_of_ne hb, update_of_ne hbne.1, update_of_ne hbne.2]

/-! ### All crashes -/

/-- The volume that is taken up again after the crash. -/
def afterCrash (v : RawVolume) (target : Nat) (new : Block) (k : Nat) (seq : UInt32) : RawVolume :=
  ⟨v.mnt, false, seq, crashed v target new k, []⟩

/-- The disk `d` has the target wholly old or wholly new, and every other block outside the journal
as it was in `v`. -/
def OldOrNew (v : RawVolume) (target : Nat) (new : Block) (d : Nat → Block) : Prop :=
  (SameContent v.mnt (d target) (v.disk target) ∨ SameContent v.mnt (d target) new) ∧
    ∀ b, b ≠ target → v.mnt.blockIsJournal b = false → SameContent v.mnt (d b) (v.disk b)

/-- The recovery `x` succeeds on the volume `w` and leaves the target wholly old or wholly new and
every other block outside the journal alone; running it again changes nothing. -/
structure RecoversFrom (x : RawM Unit) (v : RawVolume) (target : Nat) (new : Block)
    (w : RawVolume) :
    Prop where
  returns : (x.run w).1 = .ok ()
  oldOrNew : OldOrNew v target new (x.run w).2.disk
  again : (x.run (x.run w).2).2.disk = (x.run w).2.disk

/-- Whatever part of the payload block has been overwritten: if the record that the journal holds is
replayed then, its target already holds what is written to it, or it is the target of the commit and
gets its new content. -/
def StaleRecordHarmless (v : RawVolume) (target : Nat) (new : Block) : Prop :=
  ∀ j ≤ v.mnt.sectors, Armed v.mnt (v.disk v.mnt.journalFirstBlock)
        (torn 512 j new (v.disk (v.mnt.journalFirstBlock + 1))) →
      SameContent v.mnt (torn 512 j new (v.disk (v.mnt.journalFirstBlock + 1)))
          (v.disk (journalTarget (v.disk v.mnt.journalFirstBlock))) ∨
        journalTarget (v.disk v.mnt.journalFirstBlock) = target ∧
          SameContent v.mnt (torn 512 j new (v.disk (v.mnt.journalFirstBlock + 1))) new

omit hready hlt hnot in
/-- What recovery does from a crash is said on the disk alone. -/
theorem recoversFrom_iff : RecoversFrom (ext4Recover 0 release) v target new
      (afterCrash v target new k seq) ↔
      OldOrNew v target new (recovered v.mnt seq (crashed v target new k)) := by
  obtain ⟨w₁, hrun₁, hmnt₁, hseq₁, hdisk₁⟩ :=
    ext4Recover_run (v := afterCrash v target new k seq) release hj
  obtain ⟨w₂, hrun₂, -, -, hdisk₂⟩ := ext4Recover_run release (by rw [hmnt₁]; exact hj)
  have hdisk : w₁.disk = recovered v.mnt seq (crashed v target new k) := hdisk₁
  constructor
  · rintro ⟨-, holdOrNew, -⟩
    rwa [hrun₁, hdisk] at holdOrNew
  · intro holdOrNew
    refine ⟨by rw [hrun₁], by rwa [hrun₁, hdisk], ?_⟩
    rw [hrun₁, hrun₂, hdisk₂, hmnt₁, hseq₁, hdisk]
    exact recovered_recovered seq _

/-- A crash behind the first sector of the record: the new record is replayed. -/
theorem recovered_late (hk : v.mnt.sectors < k) (seq : UInt32) :
    OldOrNew v target new (recovered v.mnt seq (crashed v target new k)) := by
  obtain ⟨hrecord, hcontent, hothers⟩ :
      (∀ i < 512, crashed v target new k v.mnt.journalFirstBlock i = commitRecord v target new i)
        ∧ _ :=
    crashed_late hj hready hlt hnot hk
  obtain ⟨hcommitted, htarget, hcrc⟩ := record_congr v.mnt hrecord
  rw [commitRecord, journalCommitted_journalRecord hlt hnot] at hcommitted
  rw [commitRecord, journalTarget_journalRecord (hlt.trans v.mnt.blocksCount_lt)] at htarget
  rw [commitRecord, journalPayloadCrc_journalRecord] at hcrc
  have hwritten := recovered_target hj seq ⟨hcommitted, by rw [hcrc, bytes_congr hcontent]⟩
  rw [htarget] at hwritten
  refine ⟨Or.inr fun i hi => (hwritten i hi).trans (hcontent i hi), fun b hb hbj => ?_⟩
  rw [recovered_other hj hbj (fun _ => by rwa [htarget]), hothers b hb hbj]
  exact .refl _

/-- A crash up to there: the earlier record is replayed if the payload block has its checksum. -/
theorem recovered_early_iff (hk : k ≤ v.mnt.sectors) (seq : UInt32) :
    let header := v.disk v.mnt.journalFirstBlock
    let payload := torn 512 k new (v.disk (v.mnt.journalFirstBlock + 1))
    OldOrNew v target new (recovered v.mnt seq (crashed v target new k)) ↔
      (Armed v.mnt header payload → SameContent v.mnt payload (v.disk (journalTarget header)) ∨
          journalTarget header = target ∧ SameContent v.mnt payload new) := by
  intro header payload
  obtain ⟨hheader, hpayload, hblock⟩ :
    crashed v target new k v.mnt.journalFirstBlock = header ∧ _ :=
    crashed_early hj hready hlt hnot hk
  by_cases harmed : Armed v.mnt header payload
  swap
  · -- nothing is replayed
    refine iff_of_true ?_ fun h => absurd h harmed
    have hall : ∀ b, v.mnt.blockIsJournal b = false →
        recovered v.mnt seq (crashed v target new k) b = v.disk b := by
      intro b hbj
      rw [recovered_other hj hbj (fun h => absurd (by rwa [hheader, hpayload] at h) harmed),
        hblock b hbj]
    refine ⟨Or.inl ?_, fun b _ hbj => ?_⟩
    · rw [hall target hnot]
      exact .refl _
    · rw [hall b hbj]
      exact .refl _
  have hwritten : SameContent v.mnt
      (recovered v.mnt seq (crashed v target new k) (journalTarget header)) payload := by
    have h := recovered_target hj seq (d := crashed v target new k) (by rwa [hheader, hpayload])
    rwa [hheader, hpayload] at h
  have hrest : ∀ b, b ≠ journalTarget header → v.mnt.blockIsJournal b = false →
      recovered v.mnt seq (crashed v target new k) b = v.disk b := by
    intro b hb hbj
    rw [recovered_other hj hbj (fun _ => by rwa [hheader]), hblock b hbj]
  have htj := (journalCommitted_target harmed.1).2
  constructor
  · rintro ⟨htarget, hothers⟩ -
    by_cases heq : journalTarget header = target
    · rw [heq] at hwritten ⊢
      rcases htarget with hold | hnew
      · exact Or.inl fun i hi => (hwritten i hi).symm.trans (hold i hi)
      · exact Or.inr ⟨rfl, fun i hi => (hwritten i hi).symm.trans (hnew i hi)⟩
    · exact Or.inl fun i hi => (hwritten i hi).symm.trans (hothers _ heq htj i hi)
  · intro hcase
    rcases hcase harmed with hsame | ⟨heq, hsame⟩
    · have hall : ∀ b, v.mnt.blockIsJournal b = false →
          SameContent v.mnt (recovered v.mnt seq (crashed v target new k) b) (v.disk b) := by
        intro b hbj
        by_cases hb : b = journalTarget header
        · rw [hb]
          exact fun i hi => (hwritten i hi).trans (hsame i hi)
        · rw [hrest b hb hbj]
          exact .refl _
      exact ⟨Or.inl (hall target hnot), fun b _ hbj => hall b hbj⟩
    · rw [heq] at hwritten
      refine ⟨Or.inr fun i hi => (hwritten i hi).trans (hsame i hi), fun b hb hbj => ?_⟩
      rw [hrest b (by rwa [heq]) hbj]
      exact .refl _

omit hj hready hlt hnot in
/-- If the superblock has no orphans, every crash in a commit is recovered from exactly if replaying
the record that the journal holds does no harm. -/
theorem commit_crash_iff {lastOrphan : UInt32} (release : UInt32 → RawM Unit)
    (horphan : lastOrphan = 0) (hj : v.mnt.journalBlocks = 2) (hready : v.journalReady = true)
    (hlt : target < v.mnt.blocksCount) (hnot : v.mnt.blockIsJournal target = false) :
    (∀ k seq, RecoversFrom (ext4Recover lastOrphan release) v target new
      (afterCrash v target new k seq)) ↔ StaleRecordHarmless v target new := by
  subst horphan
  constructor
  · intro hall j hjle
    exact (recovered_early_iff hj hready hlt hnot hjle 0).mp ((recoversFrom_iff hj).mp (hall j 0))
  · intro hharmless k seq
    rw [recoversFrom_iff hj]
    rcases Nat.lt_or_ge v.mnt.sectors k with hk | hk
    · exact recovered_late hj hready hlt hnot hk seq
    · exact (recovered_early_iff hj hready hlt hnot hk seq).mpr (hharmless k hk)

end

/-! ### A small journal -/

/-- The small volume with the journal in its last two blocks. -/
def journalMount : Mount :=
  { smallMount with journalFirstBlock := 14, journalBlocks := 2, journal_mem := by decide }

/-- A volume with empty blocks, its journal included. -/
def emptyJournal : RawVolume := ⟨journalMount, true, 0, fun _ => zeroBlock, []⟩

/-- The hypotheses hold of the empty journal, and a crash in the middle of the payload is recovered
from. -/
theorem commit_crash_empty :
    RecoversFrom (ext4Recover 0 fun _ => fail .io) emptyJournal 6 (fun _ => 2)
      (afterCrash emptyJournal 6 (fun _ => 2) 3 0) :=
  (commit_crash_iff _ rfl rfl rfl (by decide) (by decide)).mpr
    (fun _ _ harmed => absurd harmed.1 (by decide)) 3 0

/-- The record of a commit of zeros to block 5. -/
def staleRecord : Block := journalRecord 1 1 5 4096 (crc32 (zeroBlock.bytes 0 4096))

/-- A volume whose journal holds that record, and whose block 5 has been written since. -/
def staleJournal : RawVolume :=
  { emptyJournal with
    disk := fun b => if b = 14 then staleRecord else if b = 5 then fun _ => 1 else zeroBlock }

/-- Nothing of the commit to block 6 has been written, and recovery puts zeros into block 5. -/
theorem commit_crash_replays_stale :
    ¬RecoversFrom (ext4Recover 0 fun _ => fail .io) staleJournal 6 (fun _ => 2)
      (afterCrash staleJournal 6 (fun _ => 2) 0 0) := by
  have htarget : journalTarget staleRecord = 5 := journalTarget_journalRecord (by decide)
  have harmed : Armed journalMount staleRecord (torn 512 0 (fun _ => 2) zeroBlock) := by
    refine ⟨journalCommitted_journalRecord (by decide) (by decide), ?_⟩
    rw [torn_zero, staleRecord, journalPayloadCrc_journalRecord]
    rfl
  intro h
  have hcase := (recovered_early_iff rfl rfl (by decide) (by decide) (Nat.zero_le _) 0).mp
    ((recoversFrom_iff rfl).mp h)
  rcases hcase harmed with hsame | ⟨heq, -⟩
  · have hbyte : zeroBlock 0 = staleJournal.disk (journalTarget staleRecord) 0 :=
      hsame 0 (by decide)
    exact absurd hbyte (by decide)
  · exact absurd (htarget.symm.trans heq) (by decide)

end Rabbitbone.Spec.Ext4
