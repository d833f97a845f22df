import Rabbitbone.Spec.Ext4.AllocCounts

/-!
# Runs of the allocator

Any sequence of calls of `alloc_block_goal`, `free_block`, `alloc_inode` and `free_inode`, whether
they succeed or not.

## Key results

- `AllocOp.exec_keeps`: one call keeps the layout and the free counts.
- `runOps_counted`: so does every run, and in the state that it reaches an allocation takes one
  clear bit, which freeing gives back.
- `runOps_overwrites_bitmap`: without a valid layout the allocator can hand out a bitmap.
-/

namespace Rabbitbone.Spec.Ext4

open FallibleState Native.Ext4 Function

/-- A call of the allocator. -/
inductive AllocOp where
  | allocBlock (goal : Nat) (zeroFill : Bool)
  | freeBlock (block : Nat)
  | allocInode (dir : Bool)
  | freeInode (ino : Nat) (dir : Bool)
  deriving DecidableEq, Repr

/-- The volume after a call. -/
def AllocOp.exec (v : Volume) : AllocOp → Volume
  | .allocBlock goal zeroFill => ((allocBlockGoal 2 goal zeroFill).run v).2
  | .freeBlock block => ((Native.Ext4.freeBlock block).run v).2
  | .allocInode dir => ((Native.Ext4.allocInode dir).run v).2
  | .freeInode ino dir => ((Native.Ext4.freeInode ino dir).run v).2

/-- The volume after a sequence of calls. -/
def runOps (ops : List AllocOp) (v : Volume) : Volume := ops.foldl AllocOp.exec v

/-! ### Steps -/

variable {v v' : Volume} {b ino : Nat} {zero dir : Bool}

/-- With right counts a group that has a free block leaves the total positive, so a bit that was
found is taken. -/
theorem takeBlock_of_counted (htmp : 2 ≤ n) (hc : Counted v) {f : FoundBit} (hf : FoundBlock v f)
    (zero : Bool) : ∃ b v', (takeBlock n f zero).run v = (.ok b, v') ∧ Allocated v b zero v' := by
  cases takeBlock_cases htmp hf zero with
  | inr hok =>
    obtain ⟨v', hrun, hall⟩ := hok
    exact ⟨_, v', hrun, hall⟩
  | inl hfull =>
    have hsum := hc.blocks.sum
    have hle := Finset.single_le_sum (f := fun g => (v.groups g).freeBlocks.toNat)
      (fun g _ => Nat.zero_le _) (Finset.mem_range.mpr hf.group_lt)
    have hfree := hf.free
    rw [hf.gd, Ne, ← UInt32.toNat_inj] at hfree
    rw [hfull.1] at hsum
    exact absurd (Nat.le_zero.mp (hle.trans_eq hsum.symm)) hfree

private theorem AllocOp.exec_keeps (hl : Layout v) (hc : Counted v) (op : AllocOp) :
    Layout (op.exec v) ∧ Counted (op.exec v) := by
  cases op with
  | allocBlock goal zeroFill =>
    rw [exec]
    rcases allocBlockGoal_cases le_rfl goal zeroFill v with ⟨e, he⟩ | ⟨f, hf, heq⟩
    · rw [he]
      exact ⟨hl, hc⟩
    obtain ⟨b, v', hrun, hall⟩ := takeBlock_of_counted le_rfl hc hf zeroFill
    rw [heq, hrun]
    exact ⟨hall.layout hl, hall.counted hl hc⟩
  | freeBlock block =>
    rw [exec]
    rcases freeBlock_cases v block with ⟨e, v', he, hdrop, -⟩ | ⟨v', hok, hrel, hf⟩
    · rw [he]
      exact ⟨hdrop.layout hl, hdrop.counted hl hc⟩
    · rw [hok]
      exact ⟨hrel.layout hl hf, hrel.counted hl hf hc⟩
  | allocInode dir =>
    rw [exec]
    rcases allocInode_cases dir v with ⟨e, he⟩ | ⟨ino, v', hok, hall⟩
    · rw [he]
      exact ⟨hl, hc⟩
    · rw [hok]
      exact ⟨hall.layout hl, hall.counted hl hc⟩
  | freeInode ino dir =>
    rw [exec]
    rcases freeInode_cases v ino dir with ⟨e, he, -⟩ | ⟨v', hok, hrel, hf⟩
    · rw [he]
      exact ⟨hl, hc⟩
    · rw [hok]
      exact ⟨hrel.layout hl hf, hrel.counted hl hf hc⟩

private theorem runOps_keeps (hl : Layout v) (hc : Counted v) (ops : List AllocOp) :
    Layout (runOps ops v) ∧ Counted (runOps ops v) := by
  induction ops generalizing v with
  | nil => exact ⟨hl, hc⟩
  | cons op ops ih =>
    obtain ⟨hl', hc'⟩ := op.exec_keeps hl hc
    exact ih hl' hc'

/-! ### Taking a bit and giving it back -/

/-- A block that the allocator handed out: clear before, of the data area, and the only bit that
has changed. -/
structure BlockTaken (v : Volume) (b : Nat) (v' : Volume) : Prop where
  clear : used v b = false
  first_le : v.mnt.firstDataBlock ≤ b
  lt : b < v.mnt.blocksCount
  notJournal : v.mnt.blockIsJournal b = false
  blockBits : ∀ g < v.mnt.groupCount, ∀ bit < 8 * v.mnt.blockSize, blockBit v' g bit =
    (decide (g = b / v.mnt.blocksPerGroup ∧ bit = b % v.mnt.blocksPerGroup) || blockBit v g bit)
  inodeBits : ∀ g < v.mnt.groupCount, ∀ bit < 8 * v.mnt.blockSize,
    inodeBit v' g bit = inodeBit v g bit

/-- An inode that the allocator handed out. -/
structure InodeTaken (v : Volume) (ino : Nat) (v' : Volume) : Prop where
  clear : inodeUsed v ino = false
  first_le : v.mnt.firstUsableInode ≤ ino
  le : ino ≤ v.mnt.inodesCount
  inodeBits : ∀ g < v.mnt.groupCount, ∀ bit < 8 * v.mnt.blockSize, inodeBit v' g bit =
    (decide (g = inodeGroup v ino ∧ bit = (ino - 1) % v.mnt.inodesPerGroup) || inodeBit v g bit)
  blockBits : ∀ g < v.mnt.groupCount, ∀ bit < 8 * v.mnt.blockSize,
    blockBit v' g bit = blockBit v g bit

/-- The bitmaps, the descriptors and the totals of the superblock are the same. -/
structure SameAllocation (v v' : Volume) : Prop where
  mnt : v'.mnt = v.mnt
  groups : ∀ g < v.mnt.groupCount, v'.groups g = v.groups g
  sbFreeBlocks : v'.sbFreeBlocks = v.sbFreeBlocks
  sbFreeInodes : v'.sbFreeInodes = v.sbFreeInodes
  blockBits : ∀ g < v.mnt.groupCount, ∀ bit < 8 * v.mnt.blockSize,
    blockBit v' g bit = blockBit v g bit
  inodeBits : ∀ g < v.mnt.groupCount, ∀ bit < 8 * v.mnt.blockSize,
    inodeBit v' g bit = inodeBit v g bit

private theorem Allocated.blockTaken (hl : Layout v) (h : Allocated v b zero v') :
    BlockTaken v b v' := by
  have hall := h.allocatable
  simp only [Mount.allocatable, Bool.and_eq_true, decide_eq_true_eq, Bool.not_eq_true',
    allocatorFirstDataBlock_eq] at hall
  exact ⟨h.clear, hall.1.1, hall.1.2, hall.2, fun g hg bit hbit => h.blockBit_eq hl hg bit hbit,
    fun g hg bit _ => h.inodeBit_eq hl hg bit⟩

private theorem InodeAllocated.inodeTaken (hl : Layout v) (h : InodeAllocated v ino dir v') :
    InodeTaken v ino v' := by
  have hall := h.allocatable
  simp only [Mount.inodeAllocatable, Bool.and_eq_true, decide_eq_true_eq] at hall
  exact ⟨h.clear, hall.1.2, hall.2, fun g hg bit hbit => h.inodeBit_eq hl hg bit hbit,
    fun g hg bit _ => h.blockBit_eq hl hg bit⟩

/-- A block that was handed out is looked for in its own group. -/
theorem Allocated.freeGroup_eq (h : Allocated v b zero v') :
    freeGroup v' b = b / v.mnt.blocksPerGroup := by
  have hlt := h.group_lt
  have hcount := v.mnt.groupCount_lt
  rw [freeGroup, h.mnt]
  exact Nat.mod_eq_of_lt (by omega)

/-- `free_block` accepts a block that was just handed out. -/
theorem Allocated.freeable (hl : Layout v) (hc : Counted v) (h : Allocated v b zero v') :
    Freeable v' b := by
  have htaken := h.taken hl hc
  have hblocks := hc.blocks.free_le h.group_lt
  have hcard := card_blockDom_le v.mnt (b / v.mnt.blocksPerGroup)
  constructor
  case lt =>
    rw [h.mnt]
    exact allocatable_lt h.allocatable
  case sfree =>
    have hle := hc.sbFreeBlocks_le
    have htotal := htaken.totalEq
    rw [h.mnt]
    omega
  all_goals rw [h.freeGroup_eq]
  case notMetadata =>
    rw [h.samePlaces.blockIsKnownMetadata]
    exact h.notMetadata hl
  case bitmap_lt =>
    rw [h.samePlaces.blockBitmap, h.mnt]
    exact h.bitmap_lt
  all_goals rw [h.mnt]
  case group_lt => exact h.group_lt
  case inRange => exact h.inRange
  case set => exact htaken.set
  case gfree =>
    have hfree := htaken.freeAt
    change _ < chunk v.mnt.blocksCount v.mnt.blocksPerGroup _
    omega

/-- Freeing the block that was just handed out restores the allocation. -/
theorem Allocated.restored {v'' : Volume} (hl : Layout v) (hc : Counted v)
    (h : Allocated v b zero v') (hr : Released v' b v'') (hf : Freeable v' b) :
    SameAllocation v v'' := by
  have hl' := h.layout hl
  have hgroup := h.freeGroup_eq
  constructor
  case mnt => rw [hr.mnt, h.mnt]
  case groups =>
    intro g hg
    rw [hr.groups, hgroup]
    by_cases hgb : g = b / v.mnt.blocksPerGroup
    · subst hgb
      rw [update_self, h.groups, update_self, h.mnt]
      have hle := hc.freeBlocks_le hg
      have hsub := toNat_sub_one h.gfree
      -- the counter is not zero and fits in 16 bits, so it comes back
      have hcancel : storedCounter v.mnt.groupDescSize 44
          ((v.groups (b / v.mnt.blocksPerGroup)).freeBlocks - 1) + 1
            = (v.groups (b / v.mnt.blocksPerGroup)).freeBlocks := by
        rw [storedCounter_of_lt (by omega), UInt32.sub_add_cancel]
      conv_rhs => rw [← hl.stored _ hg]
      simp only [GroupDesc.stored, storedCounter_idem, hcancel]
    · rw [update_of_ne hgb, h.groups, update_of_ne hgb]
  case sbFreeBlocks => rw [hr.sbFreeBlocks, h.sbFreeBlocks, UInt64.sub_add_cancel]
  case sbFreeInodes => rw [hr.sbFreeInodes, h.sbFreeInodes]
  case blockBits =>
    intro g hg bit hbit
    rw [hr.blockBit_eq hl' hf (by rwa [h.mnt]) bit (by rwa [h.mnt]), hgroup, h.mnt,
      h.blockBit_eq hl hg bit hbit]
    by_cases hgb : g = b / v.mnt.blocksPerGroup ∧ bit = b % v.mnt.blocksPerGroup
    · rw [decide_eq_true hgb, hgb.1, hgb.2]
      exact h.clear.symm
    · rw [decide_eq_false hgb]
      rfl
  case inodeBits =>
    intro g hg bit hbit
    rw [hr.inodeBit_eq hl' hf (by rwa [h.mnt]), h.inodeBit_eq hl hg]

/-- The directory count of a group leaves room for one more in its descriptor. -/
def DirCountFits (v : Volume) (g : Nat) : Prop :=
  50 ≤ v.mnt.groupDescSize ∨ (v.groups g).usedDirs.toNat < 0xffff

private theorem DirCountFits.stored_eq {g : Nat} (h : DirCountFits v g) :
    storedCounter v.mnt.groupDescSize 48 ((v.groups g).usedDirs + 1) =
      (v.groups g).usedDirs + 1 := by
  cases h with
  | inl hsize => exact if_pos hsize
  | inr hlt =>
    have hadd := UInt32.toNat_add (v.groups g).usedDirs 1
    have hone : (1 : UInt32).toNat = 1 := rfl
    exact storedCounter_of_lt (by omega)

/-- An inode keeps its group when it is handed out. -/
theorem InodeAllocated.inodeGroup_eq (h : InodeAllocated v ino dir v') :
    inodeGroup v' ino = inodeGroup v ino := by
  rw [inodeGroup, h.mnt, inodeGroup]

/-- `free_inode` accepts an inode that was just handed out. -/
theorem InodeAllocated.freeable (hl : Layout v) (hc : Counted v) (h : InodeAllocated v ino dir v')
    (hdir : dir = true → DirCountFits v (inodeGroup v ino)) : InodeFreeable v' ino dir := by
  have htaken := h.taken hl hc
  have hall := h.allocatable
  simp only [Mount.inodeAllocatable, Bool.and_eq_true, decide_eq_true_eq] at hall
  have hgroup := h.inodeGroup_eq
  constructor
  case pos => exact Nat.pos_iff_ne_zero.mp h.pos
  case le =>
    rw [h.mnt]
    exact hall.2
  case set =>
    rw [inodeUsed, h.mnt]
    exact htaken.set
  case sfree =>
    have hle := hc.sbFreeInodes_le
    have htotal := htaken.totalEq
    rw [h.mnt]
    omega
  all_goals rw [hgroup]
  case bitmap_lt =>
    rw [h.samePlaces.inodeBitmap, h.mnt]
    exact h.bitmap_lt
  case dirs =>
    intro hzero
    obtain ⟨rfl, hdirs⟩ := hzero
    rw [h.groups, update_self] at hdirs
    dsimp only [GroupDesc.stored] at hdirs
    rw [if_pos rfl, (hdir rfl).stored_eq] at hdirs
    -- `alloc_inode` has refused a count whose successor is zero.
    exact h.dirs rfl (by grind)
  all_goals rw [h.mnt]
  case group_lt => exact h.group_lt
  case inRange => exact h.inRange
  case gfree =>
    have hle := hc.freeInodes_le h.group_lt
    have hfree := htaken.freeAt
    omega

/-- So does freeing the inode that was just handed out, if the directory count fits. -/
theorem InodeAllocated.restored {v'' : Volume} (hl : Layout v) (hc : Counted v)
    (h : InodeAllocated v ino dir v') (hr : InodeReleased v' ino dir v'')
    (hf : InodeFreeable v' ino dir) (hdir : dir = true → DirCountFits v (inodeGroup v ino)) :
    SameAllocation v v'' := by
  have hl' := h.layout hl
  have hgroup := h.inodeGroup_eq
  constructor
  case mnt => rw [hr.mnt, h.mnt]
  case groups =>
    intro g hg
    rw [hr.groups, hgroup]
    by_cases hgi : g = inodeGroup v ino
    · subst hgi
      rw [update_self, h.groups, update_self, h.mnt]
      have hle := hc.freeInodes_le hg
      have hper := inodesPerGroup_le v.mnt
      have hsub := toNat_sub_one h.gfree
      have hcancel : storedCounter v.mnt.groupDescSize 46
          ((v.groups (inodeGroup v ino)).freeInodes - 1) + 1
            = (v.groups (inodeGroup v ino)).freeInodes := by
        rw [storedCounter_of_lt (by omega), UInt32.sub_add_cancel]
      conv_rhs => rw [← hl.stored _ hg]
      -- the directory count goes up and down again
      cases dir with
      | false =>
        simp only [GroupDesc.stored, storedCounter_idem, hcancel, Bool.false_eq_true, if_false]
      | true =>
        simp only [GroupDesc.stored, storedCounter_idem, hcancel, if_true, (hdir rfl).stored_eq,
          UInt32.add_sub_cancel]
    · rw [update_of_ne hgi, h.groups, update_of_ne hgi]
  case sbFreeBlocks => rw [hr.sbFreeBlocks, h.sbFreeBlocks]
  case sbFreeInodes => rw [hr.sbFreeInodes, h.sbFreeInodes, UInt32.sub_add_cancel]
  case inodeBits =>
    intro g hg bit hbit
    rw [hr.inodeBit_eq hl' hf (by rwa [h.mnt]) bit (by rwa [h.mnt]), hgroup, h.mnt,
      h.inodeBit_eq hl hg bit hbit]
    by_cases hgi : g = inodeGroup v ino ∧ bit = (ino - 1) % v.mnt.inodesPerGroup
    · rw [decide_eq_true hgi, hgi.1, hgi.2]
      exact h.clear.symm
    · rw [decide_eq_false hgi]
      rfl
  case blockBits =>
    intro g hg bit hbit
    rw [hr.blockBit_eq hl' hf (by rwa [h.mnt]), h.blockBit_eq hl hg]

/-- Every run keeps the free counts right.  In the state that it reaches, an allocation takes one
clear bit, and freeing what it returned gives that bit and the counts back. -/
theorem runOps_counted {v : Volume} (hl : Layout v) (hc : Counted v) (ops : List AllocOp) :
    Counted (runOps ops v) ∧
      (∀ goal zero b w, (allocBlockGoal 2 goal zero).run (runOps ops v) = (.ok b, w) →
        BlockTaken (runOps ops v) b w ∧
          ∃ w', (freeBlock b).run w = (.ok (), w') ∧ SameAllocation (runOps ops v) w') ∧
      (∀ dir ino w, (allocInode dir).run (runOps ops v) = (.ok ino, w) →
        InodeTaken (runOps ops v) ino w ∧
          ((dir = true → DirCountFits (runOps ops v) (inodeGroup (runOps ops v) ino)) →
            ∃ w', (freeInode ino dir).run w = (.ok (), w') ∧
              SameAllocation (runOps ops v) w')) := by
  obtain ⟨hl, hc⟩ := runOps_keeps hl hc ops
  refine ⟨hc, fun goal zero b w hrun => ?_, fun dir ino w hrun => ?_⟩
  · have hall := allocBlockGoal_ok le_rfl hrun
    refine ⟨hall.blockTaken hl, ?_⟩
    have hf := hall.freeable hl hc
    rcases freeBlock_cases w b with ⟨e, w', -, -, hnot⟩ | ⟨w', hok, hrel, -⟩
    · exact absurd hf hnot
    · exact ⟨w', hok, hall.restored hl hc hrel hf⟩
  · have hall := allocInode_ok hrun
    refine ⟨hall.inodeTaken hl, fun hdir => ?_⟩
    have hf := hall.freeable hl hc hdir
    rcases freeInode_cases w ino dir with ⟨e, -, hnot⟩ | ⟨w', hok, hrel, -⟩
    · exact absurd hf hnot
    · exact ⟨w', hok, hall.restored hl hc hrel hf hdir⟩

/-! ### A small volume -/

/-- A volume of one group: superblock, descriptors, block bitmap, inode bitmap and inode table are
the first five of its sixteen blocks. -/
def smallMount : Mount where
  blockSize := 4096
  blocksCount := 16
  inodesCount := 16
  inodesPerGroup := 16
  blocksPerGroup := 16
  inodeSize := 256
  groupDescSize := 32
  groupCount := 1
  journalFirstBlock := 0
  journalBlocks := 0
  firstDataBlock := 0
  firstIno := 11
  blockSize_mem := by decide
  blocksCount_lt := by decide
  inodesCount_lt := by decide
  inodesPerGroup_pos := by decide
  inodesPerGroup_le := by decide
  blocksPerGroup_pos := by decide
  blocksPerGroup_le := by decide
  groupDescSize_mem := by decide
  inodeSize_mem := by decide
  firstDataBlock_le := by decide
  groupCount_eq := by decide
  groupCount_pos := by decide
  groupCount_lt := by decide
  journal_mem := by decide

/-- The small volume whose block bitmap starts with `bits` and has `free` free blocks. -/
def smallVolume (bits : UInt8) (free : UInt32) : Volume where
  mnt := smallMount
  allocatorNextBlock := 0
  sbFreeBlocks := free.toUInt64
  sbFreeInodes := 6
  sbLastOrphan := 0
  groups := fun _ => ⟨2, 3, 4, free, 6, 1⟩
  blocks := fun b i =>
    if b = 2 then if i = 0 then bits else 0
    else if b = 3 then if i = 0 then 0xff else if i = 1 then 3 else 0
    else 0
  inodes := fun _ => { Inode.zero with node := Node.fresh 0 4 0 }
  device := fun _ _ => zeroBlock
  discards := 0

theorem smallVolume_layout : Layout (smallVolume 0x1f 11) := by
  have hone : ∀ g < (smallVolume 0x1f 11).mnt.groupCount, g = 0 := by decide
  constructor
  case firstDataBlock => decide
  case blockBitmap =>
    intro g hg
    obtain rfl := hone g hg
    decide
  case inodeBitmap =>
    intro g hg
    obtain rfl := hone g hg
    decide
  case reserved =>
    have hblocks : ∀ b < 16, smallMount.blockIsKnownMetadata b ⟨2, 3, 4, 11, 6, 1⟩ = true →
        used (smallVolume 0x1f 11) b = true := by decide
    intro b _ hall
    exact hblocks b (allocatable_lt hall)
  case stored =>
    intro g hg
    obtain rfl := hone g hg
    decide

theorem smallVolume_counted : Counted (smallVolume 0x1f 11) := by
  refine ⟨⟨?_, ?_⟩, ⟨?_, ?_⟩⟩ <;> decide

/-- The hypotheses hold of the small volume, and of every state it is brought to. -/
theorem runOps_counted_small :
    Counted (runOps [.allocBlock 7 true, .allocInode true, .freeBlock 7] (smallVolume 0x1f 11)) :=
  (runOps_counted smallVolume_layout smallVolume_counted _).1

/-- The counts of a volume whose block bitmap is marked free are right until the allocator hands out
the bitmap and fills it with zeros. -/
theorem runOps_overwrites_bitmap : Counted (smallVolume 0x1b 12) ∧
      ((allocBlockGoal 2 2 true).run (smallVolume 0x1b 12)).1 = .ok 2 ∧
      ¬Counted (runOps [.allocBlock 2 true] (smallVolume 0x1b 12)) := by
  refine ⟨?_, ?_, ?_⟩
  · refine ⟨⟨?_, ?_⟩, ⟨?_, ?_⟩⟩ <;> decide
  · rfl
  · intro h
    exact absurd (h.blocks.group 0 (by decide)) (by decide)

end Rabbitbone.Spec.Ext4
