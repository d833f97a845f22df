import Mathlib.Data.Nat.Notation
import Mathlib.Tactic.Common
import Rabbitbone.ForStd.Except
import Rabbitbone.Native.Ext4.Mount
import Rabbitbone.Spec.Ext4.CacheRun
import Rabbitbone.Spec.Ext4.OrphanList

/-!
# Groups of a mounted volume

`ext4_mount_bounded` counts the groups from `s_first_data_block` on, while the allocator,
`free_block` and `group_valid_blocks` number the blocks of the groups from 0 on.  So the last blocks
of a volume can lie behind its last group.

## Key results

- `ext4MountBounded_mnt`: the geometry of a mounted volume is the one its superblock describes.
- `mount_blocks_indexed_iff`: every block of it has a bit in a group iff the last group has more
  blocks than there are in front of the first data block.
-/

namespace Rabbitbone.Spec.Ext4

open Native Native.Ext4 FallibleState Nat

variable {r : Mounted} {device : Nat → Nat → Block} {m : Nat} {part : Partition}

/-! ### The mount of a volume does not change -/

section

/-- The part of a volume that stays as `ext4_mount_bounded` has set it. -/
abbrev mountOf (v : Volume) : Mount := v.mnt

private theorem mnt_of_freeFrame {α : Type} {x : VolumeM α} (h : Preserves x freeFrame) :
    Preserves x mountOf :=
  fun v => congrArg Prod.fst (h v)

private theorem preserves_mnt_readInode (ino : Nat) : Preserves (ext4ReadInode ino) mountOf :=
  .bind .get fun _ => .bind (.require _ _) fun _ => .pure _

private theorem preserves_mnt_writeInode (ino : Nat) (inode : Inode) :
    Preserves (writeInode ino inode) mountOf :=
  .bind .get fun _ => .bind (.require _ _) fun _ => .modify fun _ => rfl

private theorem preserves_mnt_freeOrphanInode (ino : Nat) (dir : Bool) :
    Preserves (freeOrphanInode ino dir) mountOf := by
  refine .bind (.attempt (mnt_of_freeFrame (freeInode_freeFrame ino dir))) fun r => ?_
  split
  · exact .pure _
  · exact .pure _
  · exact .fail _

private theorem preserves_mnt_recoverOrphansLoop (turns cur : Nat) :
    Preserves (recoverOrphansLoop turns cur) mountOf := by
  induction turns generalizing cur with
  | zero =>
    rw [recoverOrphansLoop]
    split
    · exact .pure _
    · exact .fail _
  | succ turns ih =>
    rw [recoverOrphansLoop]
    split
    · exact .pure _
    exact .bind (preserves_mnt_readInode _) fun _ =>
      .bind (mnt_of_freeFrame (freeInodeBlocks_freeFrame _)) fun _ =>
        .bind (preserves_mnt_writeInode _ _) fun _ =>
          .bind (preserves_mnt_freeOrphanInode _ _) fun _ => ih _

/-- Recovering orphans does not change the geometry. -/
private theorem preserves_mnt_recoverOrphans : Preserves ext4RecoverOrphans mountOf :=
  .bind .get fun _ => .bind (preserves_mnt_recoverOrphansLoop _ _) fun _ => .modify fun _ => rfl

private theorem recountGroup_freeFrame (group : Nat) (gd : GroupDesc)
    (freeBlocks freeInodes : UInt32) :
    Preserves (recountGroup group gd freeBlocks freeInodes) freeFrame := by
  rw [recountGroup]
  split
  · exact .pure _
  · exact writeGroupDesc_freeFrame _ _

private theorem recountGroups_freeFrame (count group : Nat) (totalBlocks : UInt64)
    (totalInodes : UInt32) :
    Preserves (recountGroups count group totalBlocks totalInodes) freeFrame := by
  induction count generalizing group totalBlocks totalInodes with
  | zero => exact .pure _
  | succ count ih =>
    exact .bind .get fun _ => .bind (readGroupDesc_freeFrame _) fun _ =>
      .bind (readBlock_freeFrame _) fun _ => .bind (readBlock_freeFrame _) fun _ =>
        .bind (recountGroup_freeFrame _ _ _ _) fun _ => ih _ _ _

/-- Neither does recounting. -/
private theorem preserves_mnt_recount : Preserves ext4RecountFreeCounters mountOf := by
  refine .bind .get fun _ => .bind (mnt_of_freeFrame (recountGroups_freeFrame _ _ _ _)) fun _ =>
    .bind .get fun _ => ?_
  split
  · exact .pure _
  · exact .bind (.modify fun _ => rfl) fun _ => .pure _

end

/-! ### The geometry of a mounted volume -/

/-- Two mounts that differ at most in their journal. -/
def SameGeometry (mnt mnt' : Mount) : Prop :=
  mnt'.blocksCount = mnt.blocksCount ∧ mnt'.blocksPerGroup = mnt.blocksPerGroup ∧
    mnt'.blockSize = mnt.blockSize ∧ mnt'.firstDataBlock = mnt.firstDataBlock ∧
    mnt'.groupCount = mnt.groupCount

private theorem mountRecover_mnt {v : Volume} {sb : Block} (h : mountRecover v sb = .ok r) :
    r.vol.mnt = v.mnt := by
  rw [mountRecover] at h
  split at h
  · exact nomatch h
  rename_i v₁ hrecover
  dsimp only at h
  split at h
  · exact nomatch h
  rename_i wrote v₂ hrecount
  rw [← Except.ok.inj h]
  exact (preserves_mnt_recount.eq hrecount).trans (preserves_mnt_recoverOrphans.eq hrecover)

private theorem mountJournal_mnt {mnt : Mount} {free : Bool} {s s' : Mounting}
    (h : (mountJournal m mnt device free).run s = (.ok r, s')) : r.vol.mnt = mnt := by
  rw [mountJournal, modify_bind_ok, bind_ok] at h
  obtain ⟨_, s₁, -, h⟩ := h
  rw [bind_ok] at h
  obtain ⟨_, s₂, -, h⟩ := h
  rw [get_bind_ok] at h
  split at h
  · exact (fail_ok.mp h).elim
  rename_i r' hr
  obtain ⟨rfl, -⟩ := pure_ok.mp h
  exact mountRecover_mnt hr

/-- A mounted volume has the geometry it was read with. -/
private theorem mountVolume_mnt {mnt : Mount} {s s' : Mounting}
    (h : (mountVolume m mnt device).run s = (.ok r, s')) : SameGeometry mnt r.vol.mnt := by
  rw [mountVolume, bind_ok] at h
  obtain ⟨_, s₁, -, h⟩ := h
  split at h
  · rw [bind_ok] at h
    obtain ⟨found, s₂, -, h⟩ := h
    cases found with
    | some free =>
      rw [mountJournal_mnt h]
      exact ⟨rfl, rfl, rfl, rfl, rfl⟩
    | none =>
      rw [get_bind_ok, pure_ok] at h
      rw [h.1]
      exact ⟨rfl, rfl, rfl, rfl, rfl⟩
  · rw [get_bind_ok, pure_ok] at h
    rw [h.1]
    exact ⟨rfl, rfl, rfl, rfl, rfl⟩

/-- `s_first_data_block`. -/
def sbFirstDataBlock (sb : Block) : Nat := (sb.word 5).toNat

/-- `s_blocks_count`. -/
def sbBlocksCount (sb : Block) : Nat := le64FromLoHi (sb.word 1).toNat (sb.word 84).toNat

/-- `s_blocks_per_group`. -/
def sbBlocksPerGroup (sb : Block) : Nat := (sb.word 8).toNat

/-- The geometry is that of the superblock. -/
private theorem mountGeometry_fields {sb : Block} {mnt : Mount}
    (h : mountGeometry part sb = .ok mnt) :
    mnt.blocksCount = sbBlocksCount sb ∧ mnt.blocksPerGroup = sbBlocksPerGroup sb ∧
      mnt.firstDataBlock = sbFirstDataBlock sb := by
  simp only [mountGeometry, Except.ite_error_eq_ok, Except.dite_error_eq_ok] at h
  obtain ⟨_, _, _, _, _, _, _, _, _, _, h⟩ := h
  rw [← Except.ok.inj h]
  exact ⟨rfl, rfl, rfl⟩

/-- The geometry of a mounted volume is the one that its superblock describes. -/
theorem ext4MountBounded_mnt {image : Nat → UInt8} {s : Cached}
    (h : ext4MountBounded m part image device s = .ok r) :
    r.vol.mnt.blocksCount = sbBlocksCount (superAt image) ∧
      r.vol.mnt.blocksPerGroup = sbBlocksPerGroup (superAt image) ∧
      r.vol.mnt.firstDataBlock = sbFirstDataBlock (superAt image) := by
  rw [ext4MountBounded] at h
  simp only [bind, Except.bind] at h
  split at h
  · exact nomatch h
  split at h
  · exact nomatch h
  split at h
  · exact nomatch h
  rename_i _ _ mnt hgeometry _ r' hr
  have hvol : r.vol = r'.vol := by
    rw [mountChecksum] at h
    repeat' split at h
    · rw [← Except.ok.inj h]
    · rw [← Except.ok.inj h]
    · exact nomatch h
  obtain ⟨hcount, hper, -, hfirst, -⟩ := mountVolume_mnt (Prod.ext hr rfl)
  obtain ⟨hcount', hper', hfirst'⟩ := mountGeometry_fields hgeometry
  rw [hvol]
  exact ⟨hcount.trans hcount', hper.trans hper', hfirst.trans hfirst'⟩

/-! ### The bit of a block -/

/-- The group of a block, as the allocator and `free_block` compute it:
`(u32)(block / mnt->blocks_per_group)`. -/
def groupOfBlock (mnt : Mount) (block : Nat) : Nat := block / mnt.blocksPerGroup % 2 ^ 32

/-- The bit of a block in the bitmap of its group. -/
def bitInGroup (mnt : Mount) (block : Nat) : Nat := block % mnt.blocksPerGroup

/-- The block has a bit: its group exists, the bit is one of the group's blocks, and it is in the
block with the bitmap. -/
structure Indexed (mnt : Mount) (block : Nat) : Prop where
  group : groupOfBlock mnt block < mnt.groupCount
  valid : bitInGroup mnt block < mnt.groupValidBlocks (groupOfBlock mnt block)
  bitmap : bitInGroup mnt block < 8 * mnt.blockSize

section

variable {mnt : Mount} {block : Nat}

private theorem lt_divRoundUp {a b k : Nat} (hb : 0 < b) : k < divRoundUp a b ↔ k * b < a := by
  rw [divRoundUp]
  have hdiv := div_add_mod a b
  constructor
  · intro hk
    split at hk
    · calc k * b < a / b * b := (Nat.mul_lt_mul_right hb).mpr (by omega)
        _ ≤ a := div_mul_le_self a b
    · calc k * b ≤ a / b * b := mul_le_mul_right b (by omega)
        _ < a := by rw [mul_comm]; omega
  · intro hk
    have hle : k ≤ a / b := (le_div_iff_mul_le hb).mpr (le_of_lt hk)
    split
    · -- a multiple of `b`, and `k * b` is not it
      rename_i hzero
      rw [add_zero]
      refine lt_of_le_of_ne hle fun heq => ?_
      rw [heq, mul_comm] at hk
      omega
    · omega

/-- The groups that exist are those that begin, counted from 0, at a block with as many blocks
behind it as there are in front of the first data block. -/
theorem lt_groupCount {group : Nat} :
    group < mnt.groupCount ↔ group * mnt.blocksPerGroup + mnt.firstDataBlock < mnt.blocksCount := by
  rw [mnt.groupCount_eq, lt_divRoundUp mnt.blocksPerGroup_pos]
  omega

/-- A block of the volume has a valid bit in its group. -/
private theorem bit_lt_valid (h : block < mnt.blocksCount) :
    block % mnt.blocksPerGroup < mnt.groupValidBlocks (block / mnt.blocksPerGroup) := by
  have hdiv := div_add_mod block mnt.blocksPerGroup
  have hmod := mod_lt block mnt.blocksPerGroup_pos
  rw [Mount.groupValidBlocks, mul_comm]
  split
  · omega
  split
  · omega
  · exact hmod

/-- A block in a group that exists has its bit there. -/
theorem indexed_of_group (h : block < mnt.blocksCount)
    (hgroup : block / mnt.blocksPerGroup < mnt.groupCount) : Indexed mnt block := by
  have hsmall : groupOfBlock mnt block = block / mnt.blocksPerGroup :=
    mod_eq_of_lt (lt_trans hgroup mnt.groupCount_lt)
  refine ⟨hsmall ▸ hgroup, ?_, ?_⟩
  · rw [hsmall]
    exact bit_lt_valid h
  · exact lt_of_lt_of_le (mod_lt block mnt.blocksPerGroup_pos) mnt.blocksPerGroup_le

/-- `free_block` of a block without a group. -/
theorem freeBlock_of_no_group {v : Volume} (h : v.mnt.groupCount ≤ groupOfBlock v.mnt block) :
    ((freeBlock block).run v).1 = .error .range := by
  rw [freeBlock, bind_of_ok (run_get v)]
  by_cases hblock : block < v.mnt.blocksCount
  · rw [bind_of_ok (require_of_pos hblock)]
    have hgroup : ¬block / v.mnt.blocksPerGroup % 2 ^ 32 < v.mnt.groupCount := not_lt.mpr h
    rw [bind_of_error (require_of_neg hgroup)]
  · rw [bind_of_error (require_of_neg hblock)]

/-- Every block has a bit iff the last group has more blocks than are in front of the first data
block. -/
theorem blocks_indexed_iff (hcount : 0 < mnt.blocksCount) :
    (∀ block < mnt.blocksCount, Indexed mnt block) ↔
      mnt.firstDataBlock ≤ (mnt.blocksCount - 1) % mnt.blocksPerGroup := by
  have hpos := mnt.blocksPerGroup_pos
  have hdiv := div_add_mod (mnt.blocksCount - 1) mnt.blocksPerGroup
  -- the group of the last block exists
  have hlast : (mnt.blocksCount - 1) / mnt.blocksPerGroup < mnt.groupCount ↔
      mnt.firstDataBlock ≤ (mnt.blocksCount - 1) % mnt.blocksPerGroup := by
    rw [lt_groupCount, mul_comm]
    omega
  rw [← hlast]
  constructor
  · intro h
    by_contra hge
    -- the first block behind the last group: its group number does not overflow
    have hle : mnt.groupCount * mnt.blocksPerGroup ≤ mnt.blocksCount - 1 :=
      (le_div_iff_mul_le hpos).mp (Nat.le_of_not_lt hge)
    have hgroup := (h (mnt.groupCount * mnt.blocksPerGroup) (by omega)).group
    rw [groupOfBlock, Nat.mul_div_cancel _ hpos, mod_eq_of_lt mnt.groupCount_lt] at hgroup
    exact absurd hgroup (lt_irrefl _)
  · intro h block hblock
    exact indexed_of_group hblock
      (lt_of_le_of_lt (Nat.div_le_div_right (le_sub_one_of_lt hblock)) h)

end

/-- Every block of a mounted volume has a bit in a group iff the last group, counted from block 0,
has more blocks than there are in front of the first data block. -/
theorem mount_blocks_indexed_iff {m : Nat} {part : Partition} {image : Nat → UInt8}
    {device : Nat → Nat → Block} {s : Cached} {r : Mounted}
    (h : ext4MountBounded m part image device s = .ok r) :
    (∀ block < r.vol.mnt.blocksCount, Indexed r.vol.mnt block) ↔ sbFirstDataBlock (superAt image)
        ≤ (sbBlocksCount (superAt image) - 1) % sbBlocksPerGroup (superAt image) := by
  obtain ⟨hcount, hper, hfirst⟩ := ext4MountBounded_mnt h
  have hpos : 0 < r.vol.mnt.blocksCount := by
    have := lt_groupCount.mp r.vol.mnt.groupCount_pos
    omega
  rw [blocks_indexed_iff hpos, hcount, hper, hfirst]

/-- A superblock of a volume of `count` blocks of 1024 bytes in groups of 8, with one block in front
of the first data block. -/
def smallGroupsSuper (count : UInt32) : Block :=
  let sb := putLe32 zeroBlock 0 16
  let sb := putLe32 sb 1 count
  let sb := putLe32 sb 5 1
  let sb := putLe32 sb 8 8
  let sb := putLe32 sb 10 16
  putLe32 sb 14 0xef53

/-- Mount a device of 16 KiB with this superblock at boot. -/
def smallGroupsMount (count : UInt32) : Except Ext4Status Mounted :=
  ext4MountBounded 0 ⟨512, 32, 0, 32⟩
    (fun i => if i < 1024 then 0 else smallGroupsSuper count (i - 1024))
    (fun _ _ => zeroBlock) (Cached.boot (fun _ => emptyJournal) fun _ => true)

private theorem smallGroupsMount_ok {count : UInt32}
    (h : (smallGroupsMount count).toOption.isSome = true) :
    ∃ r, smallGroupsMount count = .ok r := by
  match hr : smallGroupsMount count with
  | .error e =>
    rw [hr] at h
    exact nomatch h
  | .ok r => exact ⟨r, rfl⟩

/-- One whole group. -/
theorem mount_one_group_indexed :
    ∃ r, smallGroupsMount 8 = .ok r ∧ ∀ block < r.vol.mnt.blocksCount, Indexed r.vol.mnt block := by
  obtain ⟨r, hr⟩ := smallGroupsMount_ok
      (by decide +kernel : (smallGroupsMount 8).toOption.isSome = true)
  exact ⟨r, hr, (mount_blocks_indexed_iff hr).mpr (by decide +kernel)⟩

/-- With one block more the volume still has one group, and the last block cannot be freed. -/
theorem mount_last_block_not_indexed :
    ∃ r, smallGroupsMount 9 = .ok r ∧ 8 < r.vol.mnt.blocksCount ∧ ¬Indexed r.vol.mnt 8 ∧
      ((freeBlock 8).run r.vol).1 = .error .range := by
  obtain ⟨r, hr⟩ := smallGroupsMount_ok
      (by decide +kernel : (smallGroupsMount 9).toOption.isSome = true)
  obtain ⟨hcount, hper, hfirst⟩ := ext4MountBounded_mnt hr
  have hcount' : r.vol.mnt.blocksCount = 9 := hcount.trans (by decide +kernel)
  have hper' : r.vol.mnt.blocksPerGroup = 8 := hper.trans (by decide +kernel)
  have hfirst' : r.vol.mnt.firstDataBlock = 1 := hfirst.trans (by decide +kernel)
  have hgroups : r.vol.mnt.groupCount = 1 := by
    rw [r.vol.mnt.groupCount_eq, hcount', hper', hfirst']
    rfl
  have hgroup : groupOfBlock r.vol.mnt 8 = 1 := by
    rw [groupOfBlock, hper']
    rfl
  refine ⟨r, hr, by omega, fun h => ?_, freeBlock_of_no_group (by omega)⟩
  have := h.group
  omega

end Rabbitbone.Spec.Ext4
