import Rabbitbone.Spec.Ext4.Bitmap

/-!
# What allocation and freeing do to a volume

The effect of each function of `allocation.inc`, as facts about every block, every descriptor and
the counters.

## Key results

- `allocBlockGoal_cases`, `allocBlockGoal_ok`: an allocation fails without a change or takes one
  clear bit.
- `freeBlock_cases`: freeing clears the bit, or fails and has at most dropped the block's content.
- `allocInode_cases`, `freeInode_cases`: the same for inodes.
-/

namespace Rabbitbone.Spec.Ext4

open FallibleState Native.Ext4 Function Volume Nat

variable {b : Nat} {v v' : Volume} {zero : Bool} {f : FoundBit} {mnt : Mount}

/-- The bit of the block `b` in the bitmap of its group. -/
def used (v : Volume) (b : Nat) : Bool :=
  bitmapGet (v.blocks (v.groups (b / v.mnt.blocksPerGroup)).blockBitmap) (b % v.mnt.blocksPerGroup)

/-- The bit of an inode in the bitmap of its group. -/
def inodeUsed (v : Volume) (ino : Nat) : Bool :=
  bitmapGet (v.blocks (v.groups ((ino - 1) / v.mnt.inodesPerGroup)).inodeBitmap)
    ((ino - 1) % v.mnt.inodesPerGroup)

/-! ### Allocating a block -/

/-- The block `b` was clear and is taken, and filled with zeros when that was asked for. -/
structure Allocated (v : Volume) (b : Nat) (zero : Bool) (v' : Volume) : Prop where
  group_lt : b / v.mnt.blocksPerGroup < v.mnt.groupCount
  inRange : v.mnt.groupDescInRange (b / v.mnt.blocksPerGroup)
  bitmap_lt : (v.groups (b / v.mnt.blocksPerGroup)).blockBitmap < v.mnt.blocksCount
  allocatable : v.mnt.allocatable b = true
  clear : used v b = false
  gfree : (v.groups (b / v.mnt.blocksPerGroup)).freeBlocks ≠ 0
  sfree : v.sbFreeBlocks ≠ 0
  mnt : v'.mnt = v.mnt
  inodes : v'.inodes = v.inodes
  device : v'.device = v.device
  discards : v'.discards = v.discards
  sbFreeBlocks : v'.sbFreeBlocks = v.sbFreeBlocks - 1
  sbFreeInodes : v'.sbFreeInodes = v.sbFreeInodes
  groups : v'.groups = update v.groups (b / v.mnt.blocksPerGroup)
    (GroupDesc.stored v.mnt.groupDescSize { v.groups (b / v.mnt.blocksPerGroup) with
      freeBlocks := (v.groups (b / v.mnt.blocksPerGroup)).freeBlocks - 1 })
  blocks : ∀ c, v'.blocks c =
    if c = b ∧ zero = true then zeroBlock.cut v.mnt.blockSize
    else if c = (v.groups (b / v.mnt.blocksPerGroup)).blockBitmap then
      (bitmapSet8 (v.blocks c) (b % v.mnt.blocksPerGroup)).cut v.mnt.blockSize
    else v.blocks c

theorem allocatable_lt (h : mnt.allocatable b = true) : b < mnt.blocksCount := by
  simp only [Mount.allocatable, Bool.and_eq_true, decide_eq_true_eq] at h
  exact h.1.2

/-- The block of a bit that was found. -/
theorem FoundBlock.div_mod (hf : FoundBlock v f) :
    (f.group * v.mnt.blocksPerGroup + f.bit) / v.mnt.blocksPerGroup = f.group ∧
      (f.group * v.mnt.blocksPerGroup + f.bit) % v.mnt.blocksPerGroup = f.bit := by
  have hpos := v.mnt.blocksPerGroup_pos
  rw [mul_comm, mul_add_div hpos, div_eq_of_lt hf.bit_lt, mul_add_mod, mod_eq_of_lt hf.bit_lt]
  exact ⟨rfl, rfl⟩

private theorem zeroFillBlock_of_lt (htmp : 2 ≤ n) (h : b < v.mnt.blocksCount) :
    (zeroFillBlock n b zero).run v = (.ok (), if zero then v.setBlock b zeroBlock else v) := by
  cases zero with
  | true =>
    rw [zeroFillBlock, if_neg (by decide), if_neg (not_lt.mpr htmp)]
    exact writeBlock_of_lt h
  | false => rfl

/-- With its two buffers, an allocation takes the bit that was found unless the superblock has no
free block. -/
theorem takeBlock_cases (htmp : 2 ≤ n) (hf : FoundBlock v f) (zero : Bool) :
    (v.sbFreeBlocks = 0 ∧ ∃ v', (takeBlock n f zero).run v = (.error .corrupt, v')) ∨
      ∃ v', (takeBlock n f zero).run v = (.ok (f.group * v.mnt.blocksPerGroup + f.bit), v') ∧
        Allocated v (f.group * v.mnt.blocksPerGroup + f.bit) zero v' := by
  obtain ⟨hdiv, hmod⟩ := hf.div_mod
  have hlt := allocatable_lt hf.allocatable
  have hrange : f.group < v.mnt.groupCount ∧ v.mnt.groupDescInRange f.group :=
    ⟨hf.group_lt, hf.inRange⟩
  rw [takeBlock, bind_of_ok (writeBlock_of_lt hf.bitmap_lt), bind_of_ok (run_get _)]
  -- without a free block in the superblock the bitmap is written back
  by_cases hsb : v.sbFreeBlocks = 0
  · refine .inl ⟨hsb, ?_⟩
    rw [if_pos (by simp [setBlock, hsb]), bind_of_ok (writeBlock_of_lt (by exact hf.bitmap_lt))]
    exact ⟨_, rfl⟩
  refine .inr ?_
  rw [if_neg (by simp [setBlock, hsb, hf.free]),
    bind_of_ok (writeGroupDesc_of_lt (by exact hrange)), bind_of_ok (run_modify _ _)]
  rw [bind_of_ok (zeroFillBlock_of_lt htmp (by exact hlt)), allocatorNoteSuccess,
    bind_of_ok (run_modify _ _)]
  refine ⟨_, rfl, ?_⟩
  have hgd := hf.gd
  have hbm := hf.bm
  constructor
  case blocks =>
    intro c
    rw [hdiv, hmod, ← hgd]
    cases zero with
    | true =>
      by_cases hc : c = f.group * v.mnt.blocksPerGroup + f.bit
      · subst hc
        simp [setBlock, setGroup]
      by_cases hcb : c = f.gd.blockBitmap
      · subst hcb
        simp [setBlock, setGroup, hc, hbm]
      · simp [setBlock, setGroup, hc, hcb]
    | false =>
      by_cases hcb : c = f.gd.blockBitmap
      · subst hcb
        simp [setBlock, setGroup, hbm]
      · simp [setBlock, setGroup, hcb]
  case clear => rw [used, hdiv, hmod, ← hgd, ← hbm, hf.clear]
  all_goals try rw [hdiv]
  all_goals try rw [← hgd]
  case group_lt => exact hf.group_lt
  case inRange => exact hf.inRange
  case bitmap_lt => exact hf.bitmap_lt
  case allocatable => exact hf.allocatable
  case gfree => exact hf.free
  case sfree => exact hsb
  all_goals cases zero <;> rfl

/-- An allocation fails without a change or goes on to take a clear bit. -/
theorem allocBlockGoal_cases (htmp : 2 ≤ n) (goal : Nat) (zero : Bool) (v : Volume) :
    (∃ e, (allocBlockGoal n goal zero).run v = (.error e, v)) ∨
      ∃ f, FoundBlock v f ∧ (allocBlockGoal n goal zero).run v = (takeBlock n f zero).run v := by
  rw [allocBlockGoal, bind_of_ok (run_get v)]
  dsimp only
  rw [if_neg (by omega)]
  generalize v.allocatorNormalizeGoal goal = goal
  obtain ⟨hsame, hfound⟩ := scanGroups_spec v (goal / v.mnt.blocksPerGroup % 2 ^ 32)
    (mod_lt goal v.mnt.blocksPerGroup_pos) v.mnt.groupCount 0
  match hscan : (scanGroups (goal / v.mnt.blocksPerGroup % 2 ^ 32) (goal % v.mnt.blocksPerGroup)
      v.mnt.groupCount 0).run v with
  | (.error e, v') =>
    rw [hscan] at hsame
    subst hsame
    exact .inl ⟨e, bind_of_error hscan⟩
  | (.ok none, v') =>
    rw [hscan] at hsame
    subst hsame
    exact .inl ⟨.noMemory, bind_of_ok hscan⟩
  | (.ok (some f), v') =>
    rw [hscan] at hsame
    subst hsame
    exact .inr ⟨f, hfound f (by rw [hscan]), bind_of_ok hscan⟩

/-- A successful allocation has taken the block it returns. -/
theorem allocBlockGoal_ok {goal : Nat} (htmp : 2 ≤ n)
    (h : (allocBlockGoal n goal zero).run v = (.ok b, v')) : Allocated v b zero v' := by
  rcases allocBlockGoal_cases htmp goal zero v with ⟨e, he⟩ | ⟨f, hf, heq⟩
  · simp [he] at h
  rw [heq] at h
  rcases takeBlock_cases htmp hf zero with ⟨-, v₁, he⟩ | ⟨v₁, hok, hall⟩
  · simp [he] at h
  rw [hok] at h
  cases h
  exact hall

/-! ### Freeing a block -/

/-- The group in which `free_block` looks for a block. -/
def freeGroup (v : Volume) (b : Nat) : Nat := b / v.mnt.blocksPerGroup % 2 ^ 32

/-- What `free_block` asks for before it changes a bitmap. -/
structure Freeable (v : Volume) (b : Nat) : Prop where
  lt : b < v.mnt.blocksCount
  group_lt : freeGroup v b < v.mnt.groupCount
  inRange : v.mnt.groupDescInRange (freeGroup v b)
  notMetadata : v.mnt.blockIsKnownMetadata b (v.groups (freeGroup v b)) = false
  bitmap_lt : (v.groups (freeGroup v b)).blockBitmap < v.mnt.blocksCount
  set : bitmapGet (v.blocks (v.groups (freeGroup v b)).blockBitmap)
    (b % v.mnt.blocksPerGroup) = true
  gfree : (v.groups (freeGroup v b)).freeBlocks.toNat < v.mnt.groupValidBlocks (freeGroup v b)
  sfree : v.sbFreeBlocks.toNat < v.mnt.blocksCount

/-- The block `b` was released. -/
structure Released (v : Volume) (b : Nat) (v' : Volume) : Prop where
  mnt : v'.mnt = v.mnt
  inodes : v'.inodes = v.inodes
  sbFreeBlocks : v'.sbFreeBlocks = v.sbFreeBlocks + 1
  sbFreeInodes : v'.sbFreeInodes = v.sbFreeInodes
  groups : v'.groups = update v.groups (freeGroup v b)
    (GroupDesc.stored v.mnt.groupDescSize { v.groups (freeGroup v b) with
      freeBlocks := (v.groups (freeGroup v b)).freeBlocks + 1 })
  blocks : ∀ c, c ≠ b → v'.blocks c =
    if c = (v.groups (freeGroup v b)).blockBitmap then
      (bitmapClear8 (v.blocks c) (b % v.mnt.blocksPerGroup)).cut v.mnt.blockSize
    else v.blocks c

/-- Nothing but the content of the block `b` may have changed. -/
structure Dropped (v : Volume) (b : Nat) (v' : Volume) : Prop where
  mnt : v'.mnt = v.mnt
  groups : v'.groups = v.groups
  sbFreeBlocks : v'.sbFreeBlocks = v.sbFreeBlocks
  sbFreeInodes : v'.sbFreeInodes = v.sbFreeInodes
  blocks : ∀ c, c ≠ b → v'.blocks c = v.blocks c
  notMetadata : v'.blocks b ≠ v.blocks b → b < v.mnt.blocksCount ∧
    v.mnt.blockIsKnownMetadata b (v.groups (freeGroup v b)) = false

/-- What a group does not know as metadata is none of its bitmaps. -/
theorem ne_bitmap_of_notMetadata {gd : GroupDesc}
    (h : mnt.blockIsKnownMetadata b gd = false) : b ≠ gd.blockBitmap ∧ b ≠ gd.inodeBitmap := by
  simp only [Mount.blockIsKnownMetadata, Bool.or_eq_false_iff, decide_eq_false_iff_not] at h
  exact ⟨h.1.1.1.2, h.1.1.2⟩

/-- The volume in which `free_block` reads the bitmap. -/
def dropBlock (v : Volume) (b : Nat) : Volume :=
  { v with
    blocks := update v.blocks b (v.device v.discards b)
    discards := v.discards + 1 }

private theorem dropBlock_dropped (hlt : b < v.mnt.blocksCount)
    (h : v.mnt.blockIsKnownMetadata b (v.groups (freeGroup v b)) = false) :
    Dropped v b (dropBlock v b) :=
  ⟨rfl, rfl, rfl, rfl, fun _ hc => update_of_ne hc _ _, fun _ => ⟨hlt, h⟩⟩

theorem Dropped.refl (v : Volume) (b : Nat) : Dropped v b v :=
  ⟨rfl, rfl, rfl, rfl, fun _ _ => rfl, fun h => absurd rfl h⟩

/-- Freeing releases a block that `free_block` accepts, and otherwise fails. -/
theorem freeBlock_cases (v : Volume) (b : Nat) :
    (∃ e v', (freeBlock b).run v = (.error e, v') ∧ Dropped v b v' ∧ ¬Freeable v b) ∨
      ∃ v', (freeBlock b).run v = (.ok (), v') ∧ Released v b v' ∧ Freeable v b := by
  rw [freeBlock, bind_of_ok (run_get v)]
  -- the checks in the order of the source; from the discard on the content is lost
  by_cases hlt : b < v.mnt.blocksCount
  swap
  · rw [bind_of_error (require_of_neg hlt)]
    exact .inl ⟨_, _, rfl, .refl v b, fun h => hlt h.lt⟩
  rw [bind_of_ok (require_of_pos hlt)]
  by_cases hgroup : freeGroup v b < v.mnt.groupCount
  swap
  · rw [bind_of_error (require_of_neg (by exact hgroup))]
    exact .inl ⟨_, _, rfl, .refl v b, fun h => hgroup h.group_lt⟩
  rw [bind_of_ok (require_of_pos (by exact hgroup))]
  by_cases hrange : v.mnt.groupDescInRange (freeGroup v b)
  swap
  · rw [bind_of_error (readGroupDesc_of_le (by exact fun h => hrange h.2))]
    exact .inl ⟨_, _, rfl, .refl v b, fun h => hrange h.inRange⟩
  rw [bind_of_ok (readGroupDesc_of_lt (by exact ⟨hgroup, hrange⟩))]
  by_cases hmeta : v.mnt.blockIsKnownMetadata b (v.groups (freeGroup v b)) = false
  swap
  · rw [bind_of_error (require_of_neg (by simpa [freeGroup] using hmeta))]
    exact .inl ⟨_, _, rfl, .refl v b, fun h => hmeta h.notMetadata⟩
  rw [bind_of_ok (require_of_pos (by exact Bool.not_eq_true _ ▸ hmeta)), discardBlock,
    bind_of_ok (run_modify _ _), ← dropBlock, ← freeGroup]
  have hdrop := dropBlock_dropped hlt hmeta
  have hne := (ne_bitmap_of_notMetadata hmeta).1
  have hread : (dropBlock v b).blocks (v.groups (freeGroup v b)).blockBitmap
      = v.blocks (v.groups (freeGroup v b)).blockBitmap := update_of_ne hne.symm _ _
  by_cases hbb : (v.groups (freeGroup v b)).blockBitmap < v.mnt.blocksCount
  swap
  · rw [bind_of_error (readBlock_of_le (by exact hbb))]
    exact .inl ⟨_, _, rfl, hdrop, fun h => hbb h.bitmap_lt⟩
  rw [bind_of_ok (readBlock_of_lt (by exact hbb)), hread]
  by_cases hset : bitmapGet (v.blocks (v.groups (freeGroup v b)).blockBitmap)
      (b % v.mnt.blocksPerGroup) = true
  swap
  · rw [bind_of_error (require_of_neg hset)]
    exact .inl ⟨_, _, rfl, hdrop, fun h => hset h.set⟩
  rw [bind_of_ok (require_of_pos hset)]
  by_cases hfree : (v.groups (freeGroup v b)).freeBlocks.toNat
      < v.mnt.groupValidBlocks (freeGroup v b) ∧ v.sbFreeBlocks.toNat < v.mnt.blocksCount
  swap
  · rw [bind_of_error (require_of_neg (by exact hfree))]
    exact .inl ⟨_, _, rfl, hdrop, fun h => hfree ⟨h.gfree, h.sfree⟩⟩
  rw [bind_of_ok (require_of_pos (by exact hfree)), bind_of_ok (writeBlock_of_lt (by exact hbb)),
    bind_of_ok (writeGroupDesc_of_lt (by exact ⟨hgroup, hrange⟩)), run_modify]
  refine .inr ⟨_, rfl, ⟨rfl, rfl, rfl, rfl, rfl, fun c hc => ?_⟩,
    ⟨hlt, hgroup, hrange, hmeta, hbb, hset, hfree.1, hfree.2⟩⟩
  by_cases hcb : c = (v.groups (freeGroup v b)).blockBitmap
  · subst hcb
    simp [setBlock, setGroup, dropBlock]
  · simp [setBlock, setGroup, dropBlock, hcb, hc]

/-! ### Allocating an inode -/

/-- The group of an inode. -/
def inodeGroup (v : Volume) (ino : Nat) : Nat := (ino - 1) / v.mnt.inodesPerGroup

/-- The inode `ino` was clear and is taken. -/
structure InodeAllocated (v : Volume) (ino : Nat) (dir : Bool) (v' : Volume) : Prop where
  pos : 0 < ino
  group_lt : inodeGroup v ino < v.mnt.groupCount
  inRange : v.mnt.groupDescInRange (inodeGroup v ino)
  bitmap_lt : (v.groups (inodeGroup v ino)).inodeBitmap < v.mnt.blocksCount
  allocatable : v.mnt.inodeAllocatable ino = true
  clear : inodeUsed v ino = false
  gfree : (v.groups (inodeGroup v ino)).freeInodes ≠ 0
  sfree : v.sbFreeInodes ≠ 0
  dirs : dir = true → (v.groups (inodeGroup v ino)).usedDirs ≠ 0xffffffff
  mnt : v'.mnt = v.mnt
  sbFreeBlocks : v'.sbFreeBlocks = v.sbFreeBlocks
  sbFreeInodes : v'.sbFreeInodes = v.sbFreeInodes - 1
  groups : v'.groups = update v.groups (inodeGroup v ino)
    (GroupDesc.stored v.mnt.groupDescSize { v.groups (inodeGroup v ino) with
      freeInodes := (v.groups (inodeGroup v ino)).freeInodes - 1
      usedDirs := if dir then (v.groups (inodeGroup v ino)).usedDirs + 1
        else (v.groups (inodeGroup v ino)).usedDirs })
  blocks : ∀ c, v'.blocks c =
    if c = (v.groups (inodeGroup v ino)).inodeBitmap then
      (bitmapSet8 (v.blocks c) ((ino - 1) % v.mnt.inodesPerGroup)).cut v.mnt.blockSize
    else v.blocks c

/-- An inode allocation fails without a change or takes a clear bit. -/
theorem allocInode_cases (dir : Bool) (v : Volume) : (∃ e, (allocInode dir).run v = (.error e, v)) ∨
      ∃ ino v', (allocInode dir).run v = (.ok ino, v') ∧ InodeAllocated v ino dir v' := by
  rw [allocInode, bind_of_ok (run_get v)]
  obtain ⟨hsame, hfound⟩ := scanInodeGroups_spec v v.mnt.groupCount 0
  match hscan : (scanInodeGroups v.mnt.groupCount 0).run v with
  | (.error e, v') =>
    rw [hscan] at hsame
    subst hsame
    exact .inl ⟨e, bind_of_error hscan⟩
  | (.ok none, v') =>
    rw [hscan] at hsame
    subst hsame
    exact .inl ⟨.noMemory, bind_of_ok hscan⟩
  | (.ok (some f), v') =>
    rw [hscan] at hsame
    subst hsame
    have hf := hfound f (by rw [hscan])
    rw [bind_of_ok hscan]
    dsimp only
    rw [takeInode, bind_of_ok (run_get _)]
    by_cases hcond : f.gd.freeInodes = 0 ∨ v'.sbFreeInodes = 0 ∨
        (dir = true ∧ f.gd.usedDirs = 0xffffffff)
    · rw [bind_of_error (require_of_neg (by exact not_not_intro hcond))]
      exact .inl ⟨_, rfl⟩
    rw [bind_of_ok (require_of_pos hcond), bind_of_ok (writeBlock_of_lt hf.bitmap_lt),
      bind_of_ok (writeGroupDesc_of_lt (by exact ⟨hf.group_lt, hf.inRange⟩)),
      bind_of_ok (run_modify _ _), run_pure]
    refine .inr ⟨_, _, rfl, ?_⟩
    have hpos := v'.mnt.inodesPerGroup_pos
    have hdiv : inodeGroup v' (f.group * v'.mnt.inodesPerGroup + f.bit + 1) = f.group := by
      rw [inodeGroup, Nat.add_sub_cancel, mul_comm, mul_add_div hpos, div_eq_of_lt hf.bit_lt,
        add_zero]
    have hmod : (f.group * v'.mnt.inodesPerGroup + f.bit + 1 - 1) % v'.mnt.inodesPerGroup
        = f.bit := by
      rw [Nat.add_sub_cancel, mul_comm, mul_add_mod, mod_eq_of_lt hf.bit_lt]
    have hgd := hf.gd
    have hbm := hf.bm
    constructor
    case blocks =>
      intro c
      rw [hdiv, hmod, ← hgd]
      by_cases hcb : c = f.gd.inodeBitmap
      · subst hcb
        simp [setBlock, setGroup, hbm]
      · simp [setBlock, setGroup, hcb]
    case clear => rw [inodeUsed, ← inodeGroup, hdiv, hmod, ← hgd, ← hbm, hf.clear]
    case sfree => exact fun h => hcond (.inr (.inl h))
    case dirs =>
      rw [hdiv, ← hgd]
      exact fun hdir hmax => hcond (.inr (.inr ⟨hdir, hmax⟩))
    all_goals try rw [hdiv]
    all_goals try rw [← hgd]
    case pos => omega
    case group_lt => exact hf.group_lt
    case inRange => exact hf.inRange
    case bitmap_lt => exact hf.bitmap_lt
    case allocatable => exact hf.allocatable
    case gfree => exact hf.free
    all_goals rfl

/-- A successful allocation has taken the inode it returns. -/
theorem allocInode_ok {dir : Bool} {ino : Nat}
    (h : (allocInode dir).run v = (.ok ino, v')) : InodeAllocated v ino dir v' := by
  rcases allocInode_cases dir v with ⟨e, he⟩ | ⟨ino', v₁, hok, hall⟩
  · simp [he] at h
  rw [hok] at h
  cases h
  exact hall

/-! ### Freeing an inode -/

/-- What `free_inode` asks for before it changes a bitmap. -/
structure InodeFreeable (v : Volume) (ino : Nat) (dir : Bool) : Prop where
  pos : ino ≠ 0
  le : ino ≤ v.mnt.inodesCount
  group_lt : inodeGroup v ino < v.mnt.groupCount
  inRange : v.mnt.groupDescInRange (inodeGroup v ino)
  bitmap_lt : (v.groups (inodeGroup v ino)).inodeBitmap < v.mnt.blocksCount
  set : inodeUsed v ino = true
  gfree : (v.groups (inodeGroup v ino)).freeInodes.toNat < v.mnt.inodesPerGroup
  sfree : v.sbFreeInodes.toNat < v.mnt.inodesCount
  dirs : ¬(dir = true ∧ (v.groups (inodeGroup v ino)).usedDirs = 0)

/-- The inode `ino` was released. -/
structure InodeReleased (v : Volume) (ino : Nat) (dir : Bool) (v' : Volume) : Prop where
  mnt : v'.mnt = v.mnt
  sbFreeBlocks : v'.sbFreeBlocks = v.sbFreeBlocks
  sbFreeInodes : v'.sbFreeInodes = v.sbFreeInodes + 1
  groups : v'.groups = update v.groups (inodeGroup v ino)
    (GroupDesc.stored v.mnt.groupDescSize { v.groups (inodeGroup v ino) with
      freeInodes := (v.groups (inodeGroup v ino)).freeInodes + 1
      usedDirs := if dir then (v.groups (inodeGroup v ino)).usedDirs - 1
        else (v.groups (inodeGroup v ino)).usedDirs })
  blocks : ∀ c, v'.blocks c =
    if c = (v.groups (inodeGroup v ino)).inodeBitmap then
      (bitmapClear8 (v.blocks c) ((ino - 1) % v.mnt.inodesPerGroup)).cut v.mnt.blockSize
    else v.blocks c

/-- Freeing releases an inode that `free_inode` accepts, and otherwise changes nothing. -/
theorem freeInode_cases (v : Volume) (ino : Nat) (dir : Bool) :
    (∃ e, (freeInode ino dir).run v = (.error e, v) ∧ ¬InodeFreeable v ino dir) ∨
      ∃ v', (freeInode ino dir).run v = (.ok (), v') ∧ InodeReleased v ino dir v' ∧
        InodeFreeable v ino dir := by
  rw [freeInode, bind_of_ok (run_get v)]
  -- the checks in the order of the source
  by_cases hino : ino ≠ 0 ∧ ino ≤ v.mnt.inodesCount
  swap
  · rw [bind_of_error (require_of_neg hino)]
    exact .inl ⟨_, rfl, fun h => hino ⟨h.pos, h.le⟩⟩
  rw [bind_of_ok (require_of_pos hino)]
  rw [← inodeGroup]
  by_cases hgroup : inodeGroup v ino < v.mnt.groupCount
  swap
  · rw [bind_of_error (require_of_neg hgroup)]
    exact .inl ⟨_, rfl, fun h => hgroup h.group_lt⟩
  rw [bind_of_ok (require_of_pos hgroup)]
  by_cases hrange : v.mnt.groupDescInRange (inodeGroup v ino)
  swap
  · rw [bind_of_error (readGroupDesc_of_le fun h => hrange h.2)]
    exact .inl ⟨_, rfl, fun h => hrange h.inRange⟩
  rw [bind_of_ok (readGroupDesc_of_lt ⟨hgroup, hrange⟩)]
  by_cases hib : (v.groups (inodeGroup v ino)).inodeBitmap < v.mnt.blocksCount
  swap
  · rw [bind_of_error (readBlock_of_le hib)]
    exact .inl ⟨_, rfl, fun h => hib h.bitmap_lt⟩
  rw [bind_of_ok (readBlock_of_lt hib)]
  by_cases hset : inodeUsed v ino = true
  swap
  · rw [bind_of_error (require_of_neg (by exact hset))]
    exact .inl ⟨_, rfl, fun h => hset h.set⟩
  rw [bind_of_ok (require_of_pos (by exact hset))]
  by_cases hfree : (v.groups (inodeGroup v ino)).freeInodes.toNat < v.mnt.inodesPerGroup ∧
      v.sbFreeInodes.toNat < v.mnt.inodesCount ∧
      ¬(dir = true ∧ (v.groups (inodeGroup v ino)).usedDirs = 0)
  swap
  · rw [bind_of_error (require_of_neg hfree)]
    exact .inl ⟨_, rfl, fun h => hfree ⟨h.gfree, h.sfree, h.dirs⟩⟩
  rw [bind_of_ok (require_of_pos hfree), bind_of_ok (writeBlock_of_lt hib),
    bind_of_ok (writeGroupDesc_of_lt (by exact ⟨hgroup, hrange⟩)), run_modify]
  refine .inr ⟨_, rfl, ⟨rfl, rfl, rfl, rfl, fun c => ?_⟩,
    ⟨hino.1, hino.2, hgroup, hrange, hib, hset, hfree.1, hfree.2.1, hfree.2.2⟩⟩
  by_cases hcb : c = (v.groups (inodeGroup v ino)).inodeBitmap
  · subst hcb
    simp [setBlock, setGroup]
  · simp [setBlock, setGroup, hcb]

end Rabbitbone.Spec.Ext4
