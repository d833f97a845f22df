import Rabbitbone.ForStd.FreeCount
import Rabbitbone.Spec.Ext4.AllocEffect

/-!
# The free counts of a volume

`Counted` says that the free counts of the descriptors and of the superblock are the numbers of
clear bits, as `ext4_recount_free_counters` counts them.  Every allocation and every freeing keeps
that, on a volume whose metadata is marked used (`Layout`).
-/

namespace Rabbitbone.Spec.Ext4

open FallibleState Native.Ext4 Function Finset

/-- The bit `bit` in the block bitmap of the group `g`. -/
def blockBit (v : Volume) (g bit : Nat) : Bool := bitmapGet (v.blocks (v.groups g).blockBitmap) bit

/-- The bit `bit` in the inode bitmap of the group `g`. -/
def inodeBit (v : Volume) (g bit : Nat) : Bool := bitmapGet (v.blocks (v.groups g).inodeBitmap) bit

/-- The bits of a block bitmap that stand for blocks. -/
def blockDom (mnt : Mount) (g : Nat) : Finset Nat :=
  (range (mnt.groupValidBlocks g)).filter fun bit =>
    mnt.firstDataBlock ≤ g * mnt.blocksPerGroup + bit

/-- The bits of an inode bitmap that stand for inodes. -/
def inodeDom (mnt : Mount) (g : Nat) : Finset Nat := range (mnt.groupValidInodes g)

/-- The free counts are the numbers of clear bits, and the totals are their sums. -/
structure Counted (v : Volume) : Prop where
  blocks : FreeCount v.mnt.groupCount (blockDom v.mnt) (blockBit v)
    (fun g => (v.groups g).freeBlocks.toNat) v.sbFreeBlocks.toNat
  inodes : FreeCount v.mnt.groupCount (inodeDom v.mnt) (inodeBit v)
    (fun g => (v.groups g).freeInodes.toNat) v.sbFreeInodes.toNat

/-- A valid layout: the bitmaps of a group are two blocks of that group, what `free_block` knows as
metadata is marked used, the first data block is 0 or 1, and the descriptors hold what is stored of
them. -/
structure Layout (v : Volume) : Prop where
  firstDataBlock : v.mnt.firstDataBlock ≤ 1
  blockBitmap : ∀ g < v.mnt.groupCount, (v.groups g).blockBitmap < v.mnt.blocksCount ∧
    (v.groups g).blockBitmap / v.mnt.blocksPerGroup = g
  inodeBitmap : ∀ g < v.mnt.groupCount, (v.groups g).inodeBitmap < v.mnt.blocksCount ∧
    (v.groups g).inodeBitmap / v.mnt.blocksPerGroup = g ∧
    (v.groups g).inodeBitmap ≠ (v.groups g).blockBitmap
  reserved : ∀ b, b / v.mnt.blocksPerGroup < v.mnt.groupCount → v.mnt.allocatable b = true →
    v.mnt.blockIsKnownMetadata b (v.groups (b / v.mnt.blocksPerGroup)) = true → used v b = true
  stored : ∀ g < v.mnt.groupCount, (v.groups g).stored v.mnt.groupDescSize = v.groups g

/-! ### Bounds of the counts -/

/-- A block bitmap fits in one block of at most 4096 bytes. -/
theorem blocksPerGroup_le (mnt : Mount) : mnt.blocksPerGroup ≤ 32768 := by
  have h1 := mnt.blocksPerGroup_le
  have h2 := mnt.blockSize_mem
  omega

theorem inodesPerGroup_le (mnt : Mount) : mnt.inodesPerGroup ≤ 32768 := by
  have h1 := mnt.inodesPerGroup_le
  have h2 := mnt.blockSize_mem
  omega

/-- A group has no more bits for blocks than it has blocks. -/
theorem card_blockDom_le (mnt : Mount) (g : Nat) :
    (blockDom mnt g).card ≤ chunk mnt.blocksCount mnt.blocksPerGroup g := by
  have h := card_filter_le (range (mnt.groupValidBlocks g)) fun bit =>
    mnt.firstDataBlock ≤ g * mnt.blocksPerGroup + bit
  rwa [card_range] at h

private theorem card_inodeDom (mnt : Mount) (g : Nat) :
    (inodeDom mnt g).card = chunk mnt.inodesCount mnt.inodesPerGroup g := card_range _

/-- A volume that ends at its first data block would have no group. -/
theorem firstDataBlock_lt (mnt : Mount) : mnt.firstDataBlock < mnt.blocksCount := by
  have hpos := mnt.groupCount_pos
  rw [mnt.groupCount_eq, divRoundUp] at hpos
  by_contra hge
  have hzero : mnt.blocksCount - mnt.firstDataBlock = 0 := by omega
  simp [hzero] at hpos

/-- The allocator starts at the first data block, which the volume has. -/
theorem allocatorFirstDataBlock_eq (mnt : Mount) :
    mnt.allocatorFirstDataBlock = mnt.firstDataBlock :=
  if_neg (Nat.not_le.mpr (firstDataBlock_lt mnt))

variable {mnt : Mount} {g g' : Nat} {c : UInt32}

private theorem mem_blockDom {b : Nat} (hfirst : mnt.allocatorFirstDataBlock ≤ b)
    (hlt : b < mnt.blocksCount) :
    b % mnt.blocksPerGroup ∈ blockDom mnt (b / mnt.blocksPerGroup) := by
  rw [allocatorFirstDataBlock_eq] at hfirst
  rw [blockDom, mem_filter, mem_range, Nat.div_add_mod']
  exact ⟨mod_lt_chunk mnt.blocksPerGroup_pos hlt, hfirst⟩

private theorem mem_inodeDom {ino : Nat} (hpos : ino ≠ 0) (hle : ino ≤ mnt.inodesCount) :
    (ino - 1) % mnt.inodesPerGroup ∈ inodeDom mnt ((ino - 1) / mnt.inodesPerGroup) :=
  mem_range.mpr (mod_lt_chunk mnt.inodesPerGroup_pos (by omega))

private theorem lt_of_mem_blockDom {bit : Nat} (h : bit ∈ blockDom mnt g) :
    bit < 8 * mnt.blockSize := by
  have h1 := mem_range.mp (mem_filter.mp h).1
  have h2 := groupValidBlocks_le mnt g
  have h3 := mnt.blocksPerGroup_le
  omega

private theorem lt_of_mem_inodeDom {bit : Nat} (h : bit ∈ inodeDom mnt g) :
    bit < 8 * mnt.blockSize := by
  have h1 : bit < chunk mnt.inodesCount mnt.inodesPerGroup g := mem_range.mp h
  have h2 := chunk_le mnt.inodesCount mnt.inodesPerGroup g
  have h3 := mnt.inodesPerGroup_le
  omega

namespace Counted

variable {v : Volume}

/-- No group counts more free blocks than a descriptor of 16 bits can hold. -/
theorem freeBlocks_le (h : Counted v) (hg : g < v.mnt.groupCount) :
    (v.groups g).freeBlocks.toNat ≤ 32768 := by
  have h1 : (v.groups g).freeBlocks.toNat ≤ _ := h.blocks.free_le hg
  have h2 := card_blockDom_le v.mnt g
  have h3 := chunk_le v.mnt.blocksCount v.mnt.blocksPerGroup g
  have h4 := blocksPerGroup_le v.mnt
  omega

/-- No group counts more free inodes than it has. -/
theorem freeInodes_le (h : Counted v) (hg : g < v.mnt.groupCount) :
    (v.groups g).freeInodes.toNat ≤ v.mnt.inodesPerGroup := by
  have h1 : (v.groups g).freeInodes.toNat ≤ _ := h.inodes.free_le hg
  rw [card_inodeDom] at h1
  exact h1.trans (chunk_le ..)

/-- The total of free blocks is at most the number of blocks. -/
theorem sbFreeBlocks_le (h : Counted v) : v.sbFreeBlocks.toNat ≤ v.mnt.blocksCount := by
  calc v.sbFreeBlocks.toNat
      ≤ ∑ g ∈ range v.mnt.groupCount, (blockDom v.mnt g).card := h.blocks.total_le
    _ ≤ ∑ g ∈ range v.mnt.groupCount, chunk v.mnt.blocksCount v.mnt.blocksPerGroup g :=
        sum_le_sum fun g _ => card_blockDom_le v.mnt g
    _ ≤ v.mnt.blocksCount := sum_chunk_le ..

/-- The total of free inodes is at most the number of inodes. -/
theorem sbFreeInodes_le (h : Counted v) : v.sbFreeInodes.toNat ≤ v.mnt.inodesCount := by
  calc v.sbFreeInodes.toNat
      ≤ ∑ g ∈ range v.mnt.groupCount, (inodeDom v.mnt g).card := h.inodes.total_le
    _ = ∑ g ∈ range v.mnt.groupCount, chunk v.mnt.inodesCount v.mnt.inodesPerGroup g :=
        sum_congr rfl fun g _ => card_inodeDom v.mnt g
    _ ≤ v.mnt.inodesCount := sum_chunk_le ..

end Counted

/-! ### The bitmaps of a valid layout -/

namespace Layout

variable {v : Volume}

section

variable (h : Layout v) (hg : g < v.mnt.groupCount) (hg' : g' < v.mnt.groupCount)
include h hg hg'

private theorem blockBitmap_ne (hne : g ≠ g') :
    (v.groups g).blockBitmap ≠ (v.groups g').blockBitmap := by
  intro heq
  apply hne
  rw [← (h.blockBitmap g hg).2, heq, (h.blockBitmap g' hg').2]

private theorem inodeBitmap_ne (hne : g ≠ g') :
    (v.groups g).inodeBitmap ≠ (v.groups g').inodeBitmap := by
  intro heq
  apply hne
  rw [← (h.inodeBitmap g hg).2.1, heq, (h.inodeBitmap g' hg').2.1]

private theorem inodeBitmap_ne_blockBitmap :
    (v.groups g).inodeBitmap ≠ (v.groups g').blockBitmap := by
  intro heq
  have hgg : g = g' := by rw [← (h.inodeBitmap g hg).2.1, heq, (h.blockBitmap g' hg').2]
  subst hgg
  exact (h.inodeBitmap g hg).2.2 heq

end

/-- The group of a block is at most the group behind the last one: with a first data block of 1 the
last block of the volume may have no group. -/
theorem group_le (h : Layout v) {b : Nat} (hb : b < v.mnt.blocksCount) :
    b / v.mnt.blocksPerGroup ≤ v.mnt.groupCount := by
  have hfirst := h.firstDataBlock
  rw [v.mnt.groupCount_eq, divRoundUp]
  calc b / v.mnt.blocksPerGroup
      ≤ (v.mnt.blocksCount - v.mnt.firstDataBlock) / v.mnt.blocksPerGroup :=
        Nat.div_le_div_right (by omega)
    _ ≤ _ := Nat.le_add_right _ _

/-- The group that `free_block` computes in 32 bits is the group of the block. -/
theorem freeGroup_eq (h : Layout v) {b : Nat} (hb : b < v.mnt.blocksCount) :
    freeGroup v b = b / v.mnt.blocksPerGroup :=
  Nat.mod_eq_of_lt ((h.group_le hb).trans_lt v.mnt.groupCount_lt)

/-- A block that its own group does not know as metadata is no bitmap of any group. -/
theorem ne_bitmap (h : Layout v) {b : Nat} (hg : g < v.mnt.groupCount)
    (hmeta : v.mnt.blockIsKnownMetadata b (v.groups (b / v.mnt.blocksPerGroup)) = false) :
    b ≠ (v.groups g).blockBitmap ∧ b ≠ (v.groups g).inodeBitmap := by
  obtain ⟨hbb, hib⟩ := ne_bitmap_of_notMetadata hmeta
  constructor
  · intro heq
    rw [heq, (h.blockBitmap g hg).2] at hbb
    exact hbb rfl
  · intro heq
    rw [heq, (h.inodeBitmap g hg).2.1] at hib
    exact hib rfl

/-- The fields of a descriptor that a step does not write are as they were. -/
theorem same_field (h : Layout v) {α : Type} (f : GroupDesc → α) (hg : g < v.mnt.groupCount)
    {gd : GroupDesc} (heq : f gd = f ((v.groups g).stored v.mnt.groupDescSize)) (k : Nat) :
    f (update v.groups g gd k) = f (v.groups k) := by
  by_cases hk : k = g
  · rw [hk, update_self, heq, h.stored g hg]
  · rw [update_of_ne hk]

/-- A clear block that the allocator may hand out is no metadata. -/
theorem notMetadata (h : Layout v) {b : Nat} (hg : b / v.mnt.blocksPerGroup < v.mnt.groupCount)
    (hall : v.mnt.allocatable b = true) (hclear : used v b = false) :
    v.mnt.blockIsKnownMetadata b (v.groups (b / v.mnt.blocksPerGroup)) = false := by
  by_contra hmeta
  rw [h.reserved b hg hall (by simpa using hmeta)] at hclear
  exact Bool.noConfusion hclear

end Layout

/-! ### What every step keeps -/

/-- The mount and the places of the metadata are the same. -/
structure SamePlaces (v v' : Volume) : Prop where
  mnt : v'.mnt = v.mnt
  blockBitmap : ∀ g, (v'.groups g).blockBitmap = (v.groups g).blockBitmap
  inodeBitmap : ∀ g, (v'.groups g).inodeBitmap = (v.groups g).inodeBitmap
  inodeTable : ∀ g, (v'.groups g).inodeTable = (v.groups g).inodeTable
  stored : ∀ g, v'.groups g = v.groups g ∨ (v'.groups g).stored v.mnt.groupDescSize = v'.groups g

theorem storedCounter_idem (size off : Nat) (c : UInt32) :
    storedCounter size off (storedCounter size off c) = storedCounter size off c := by
  unfold storedCounter
  split
  · rfl
  · rw [← UInt32.toNat_inj]
    simp [UInt32.toNat_mod]

/-- A counter of 16 bits is stored as it is, whatever the size of the descriptor. -/
theorem storedCounter_of_lt {size off : Nat} (h : c.toNat < 65536) :
    storedCounter size off c = c := by
  unfold storedCounter
  split
  · rfl
  · rw [← UInt32.toNat_inj, UInt32.toNat_mod]
    exact Nat.mod_eq_of_lt h

private theorem GroupDesc.stored_idem (size : Nat) (gd : GroupDesc) :
    (gd.stored size).stored size = gd.stored size := by
  simp only [GroupDesc.stored, storedCounter_idem]

/-- Writing the counters of one descriptor moves no metadata. -/
theorem SamePlaces.of_update {v v' : Volume} {gd : GroupDesc} (hmnt : v'.mnt = v.mnt)
    (hgroups : v'.groups = update v.groups g (gd.stored v.mnt.groupDescSize))
    (hbb : gd.blockBitmap = (v.groups g).blockBitmap)
    (hib : gd.inodeBitmap = (v.groups g).inodeBitmap)
    (hit : gd.inodeTable = (v.groups g).inodeTable) : SamePlaces v v' := by
  have hcases : ∀ k, v'.groups k = v.groups k ∨
      k = g ∧ v'.groups k = gd.stored v.mnt.groupDescSize := by
    intro k
    rw [hgroups]
    by_cases hk : k = g
    · exact .inr ⟨hk, by rw [hk, update_self]⟩
    · exact .inl (update_of_ne hk _ _)
  refine ⟨hmnt, fun k => ?_, fun k => ?_, fun k => ?_, fun k => ?_⟩ <;>
    obtain heq | ⟨rfl, heq⟩ := hcases k <;> rw [heq]
  · exact hbb
  · exact hib
  · exact hit
  · exact .inl rfl
  · exact .inr (GroupDesc.stored_idem _ _)

/-- What is metadata depends on the places only. -/
theorem SamePlaces.blockIsKnownMetadata {v v' : Volume} (h : SamePlaces v v') (b g : Nat) :
    v'.mnt.blockIsKnownMetadata b (v'.groups g) = v.mnt.blockIsKnownMetadata b (v.groups g) := by
  simp only [Mount.blockIsKnownMetadata, h.mnt, h.blockBitmap, h.inodeBitmap, h.inodeTable]

/-- A step that moves no metadata and clears no bit of it keeps the layout valid. -/
theorem Layout.of_samePlaces {v v' : Volume} (h : Layout v) (hs : SamePlaces v v')
    (hused : ∀ b, b / v.mnt.blocksPerGroup < v.mnt.groupCount →
      v.mnt.blockIsKnownMetadata b (v.groups (b / v.mnt.blocksPerGroup)) = true →
      used v b = true → used v' b = true) : Layout v' := by
  constructor
  case firstDataBlock =>
    rw [hs.mnt]
    exact h.firstDataBlock
  case blockBitmap =>
    rw [hs.mnt]
    intro g hg
    rw [hs.blockBitmap]
    exact h.blockBitmap g hg
  case inodeBitmap =>
    rw [hs.mnt]
    intro g hg
    rw [hs.blockBitmap, hs.inodeBitmap]
    exact h.inodeBitmap g hg
  case reserved =>
    intro b hb hall hmeta
    rw [hs.blockIsKnownMetadata, hs.mnt] at hmeta
    rw [hs.mnt] at hb hall
    exact hused b hb hmeta (h.reserved b hb hall hmeta)
  case stored =>
    rw [hs.mnt]
    intro g hg
    cases hs.stored g with
    | inl heq =>
      rw [heq]
      exact h.stored g hg
    | inr hst => exact hst

/-- So does a step that leaves the block bitmaps alone. -/
theorem Layout.of_blockBit {v v' : Volume} (h : Layout v) (hs : SamePlaces v v')
    (hbit : ∀ g < v.mnt.groupCount, ∀ bit, blockBit v' g bit = blockBit v g bit) : Layout v' := by
  refine h.of_samePlaces hs fun c hg _ hused => ?_
  rw [used, hs.mnt, ← blockBit, hbit _ hg]
  exact hused

/-! ### The bits after a step -/

theorem toNat_sub_one (h : c ≠ 0) : c.toNat = (c - 1).toNat + 1 := by
  have hpos : 1 ≤ c.toNat := by
    rw [Ne, ← UInt32.toNat_inj] at h
    exact Nat.pos_of_ne_zero h
  have hsub := UInt32.toNat_sub_of_le c 1 (UInt32.le_iff_toNat_le.mpr hpos)
  have hone : (1 : UInt32).toNat = 1 := rfl
  omega

private theorem toNat_add_one (h : c.toNat ≤ 32768) : (c + 1).toNat = c.toNat + 1 := by
  have hadd := UInt32.toNat_add c 1
  have hone : (1 : UInt32).toNat = 1 := rfl
  omega

section Allocated

variable {v v' : Volume} {b : Nat} {zero : Bool}

/-- An allocation moves no metadata. -/
theorem Allocated.samePlaces (h : Allocated v b zero v') : SamePlaces v v' :=
  .of_update h.mnt h.groups rfl rfl rfl

section

variable (hl : Layout v) (h : Allocated v b zero v')
include hl h

/-- The allocator hands out no metadata: that is marked used. -/
theorem Allocated.notMetadata :
    v.mnt.blockIsKnownMetadata b (v.groups (b / v.mnt.blocksPerGroup)) = false :=
  hl.notMetadata h.group_lt h.allocatable h.clear

/-- An allocation sets one bit.  The block it may fill with zeros is no bitmap. -/
theorem Allocated.blockBit_eq (hg : g < v.mnt.groupCount) (bit : Nat)
    (hbit : bit < 8 * v.mnt.blockSize) :
    blockBit v' g bit = (decide (g = b / v.mnt.blocksPerGroup ∧ bit = b % v.mnt.blocksPerGroup) ||
      blockBit v g bit) := by
  obtain ⟨hne, -⟩ := hl.ne_bitmap hg (h.notMetadata hl)
  rw [blockBit, h.samePlaces.blockBitmap, h.blocks, if_neg fun hc => hne hc.1.symm]
  by_cases hgb : g = b / v.mnt.blocksPerGroup
  · subst hgb
    rw [if_pos rfl, bitmapGet_cut hbit, bitmapGet_set8]
    simp [blockBit]
  · rw [if_neg (hl.blockBitmap_ne hg h.group_lt hgb)]
    simp [blockBit, hgb]

/-- An allocation of a block touches no inode bitmap. -/
theorem Allocated.inodeBit_eq (hg : g < v.mnt.groupCount) (bit : Nat) :
    inodeBit v' g bit = inodeBit v g bit := by
  obtain ⟨-, hne⟩ := hl.ne_bitmap hg (h.notMetadata hl)
  rw [inodeBit, h.samePlaces.inodeBitmap, h.blocks, if_neg fun hc => hne hc.1.symm,
    if_neg (hl.inodeBitmap_ne_blockBitmap hg h.group_lt), inodeBit]

theorem Allocated.freeInodes (g : Nat) : (v'.groups g).freeInodes = (v.groups g).freeInodes := by
  rw [h.groups]
  refine hl.same_field GroupDesc.freeInodes h.group_lt ?_ g
  rfl

/-- An allocation clears no bit, so the metadata stays marked. -/
theorem Allocated.layout : Layout v' := by
  refine hl.of_samePlaces h.samePlaces fun c hg _ hused => ?_
  have hmod := Nat.mod_lt c v.mnt.blocksPerGroup_pos
  have hle := v.mnt.blocksPerGroup_le
  have hbit := h.blockBit_eq hl hg (c % v.mnt.blocksPerGroup) (by omega)
  rw [used, h.mnt, ← blockBit, hbit]
  simpa [used, blockBit] using Or.inr hused

variable (hc : Counted v)
include hc

omit hl in
/-- The group of the block counts one block less, also as it is stored. -/
theorem Allocated.freeBlocks : (v.groups (b / v.mnt.blocksPerGroup)).freeBlocks.toNat
      = (v'.groups (b / v.mnt.blocksPerGroup)).freeBlocks.toNat + 1 := by
  have hle := hc.freeBlocks_le h.group_lt
  have hsub := toNat_sub_one h.gfree
  rw [h.groups, update_self]
  dsimp only [GroupDesc.stored]
  rw [storedCounter_of_lt (by omega)]
  exact hsub

/-- An allocation takes a bit of the block bitmaps. -/
theorem Allocated.taken : TakenBit v.mnt.groupCount (blockDom v.mnt) (b / v.mnt.blocksPerGroup)
      (b % v.mnt.blocksPerGroup) (blockBit v) (fun g => (v.groups g).freeBlocks.toNat)
      v.sbFreeBlocks.toNat (blockBit v') (fun g => (v'.groups g).freeBlocks.toNat)
      v'.sbFreeBlocks.toNat := by
  have hmem : b % v.mnt.blocksPerGroup ∈ blockDom v.mnt (b / v.mnt.blocksPerGroup) := by
    have hall := h.allocatable
    simp only [Mount.allocatable, Bool.and_eq_true, decide_eq_true_eq] at hall
    exact mem_blockDom hall.1.1 hall.1.2
  constructor
  case group_lt => exact h.group_lt
  case mem => exact hmem
  case clear => exact h.clear
  case set =>
    rw [h.blockBit_eq hl h.group_lt _ (lt_of_mem_blockDom hmem)]
    simp
  case other =>
    intro g hg k hk hne
    rw [h.blockBit_eq hl hg _ (lt_of_mem_blockDom hk), decide_eq_false hne, Bool.false_or]
  case freeAt => exact h.freeBlocks hc
  case freeOther =>
    intro g hg hne
    rw [h.groups, update_of_ne hne]
  case totalEq =>
    have hne := h.sfree
    rw [Ne, ← UInt64.toNat_inj] at hne
    have hpos : 0 < v.sbFreeBlocks.toNat := Nat.pos_of_ne_zero hne
    have hsub := UInt64.toNat_sub_of_le v.sbFreeBlocks 1 (UInt64.le_iff_toNat_le.mpr hpos)
    have hone : (1 : UInt64).toNat = 1 := rfl
    rw [h.sbFreeBlocks]
    omega

/-- An allocation keeps the counts right. -/
theorem Allocated.counted : Counted v' := by
  constructor
  · rw [h.mnt]
    exact (h.taken hl hc).freeCount_iff.mp hc.blocks
  · rw [h.mnt]
    refine hc.inodes.congr (fun g hg k _ => h.inodeBit_eq hl hg k) (fun g _ => ?_) ?_
    · rw [h.freeInodes hl]
    · rw [h.sbFreeInodes]

end

end Allocated

section Released

variable {v v' : Volume} {b : Nat}

theorem Released.samePlaces (h : Released v b v') : SamePlaces v v' :=
  .of_update h.mnt h.groups rfl rfl rfl

private theorem Freeable.notMetadata_div (hl : Layout v) (hf : Freeable v b) :
    v.mnt.blockIsKnownMetadata b (v.groups (b / v.mnt.blocksPerGroup)) = false := by
  rw [← hl.freeGroup_eq hf.lt]
  exact hf.notMetadata

section

variable (hl : Layout v) (h : Released v b v') (hf : Freeable v b)
include hl h hf

/-- Freeing clears one bit, in the group that `free_block` computes. -/
theorem Released.blockBit_eq (hg : g < v.mnt.groupCount) (bit : Nat)
    (hbit : bit < 8 * v.mnt.blockSize) :
    blockBit v' g bit = (!decide (g = freeGroup v b ∧ bit = b % v.mnt.blocksPerGroup) &&
      blockBit v g bit) := by
  obtain ⟨hne, -⟩ := hl.ne_bitmap hg (hf.notMetadata_div hl)
  rw [blockBit, h.samePlaces.blockBitmap, h.blocks _ hne.symm]
  by_cases hgb : g = freeGroup v b
  · subst hgb
    rw [if_pos rfl, bitmapGet_cut hbit, bitmapGet_clear8]
    simp [blockBit]
  · rw [if_neg (hl.blockBitmap_ne hg hf.group_lt hgb)]
    simp [blockBit, hgb]

/-- Freeing a block touches no inode bitmap. -/
theorem Released.inodeBit_eq (hg : g < v.mnt.groupCount) (bit : Nat) :
    inodeBit v' g bit = inodeBit v g bit := by
  obtain ⟨-, hne⟩ := hl.ne_bitmap hg (hf.notMetadata_div hl)
  rw [inodeBit, h.samePlaces.inodeBitmap, h.blocks _ hne.symm,
    if_neg (hl.inodeBitmap_ne_blockBitmap hg hf.group_lt), inodeBit]

theorem Released.freeInodes (g : Nat) : (v'.groups g).freeInodes = (v.groups g).freeInodes := by
  rw [h.groups]
  refine hl.same_field GroupDesc.freeInodes hf.group_lt ?_ g
  rfl

omit hl in
/-- The group of the block counts one block more, which its descriptor can hold. -/
theorem Released.freeBlocks : (v'.groups (freeGroup v b)).freeBlocks.toNat
      = (v.groups (freeGroup v b)).freeBlocks.toNat + 1 := by
  have hlt := hf.gfree
  have hvalid := groupValidBlocks_le v.mnt (freeGroup v b)
  have hper := blocksPerGroup_le v.mnt
  have hadd : _ = (v.groups (freeGroup v b)).freeBlocks.toNat + 1 := toNat_add_one (by omega)
  rw [h.groups, update_self]
  dsimp only [GroupDesc.stored]
  rw [storedCounter_of_lt (by omega), hadd]

/-- Releasing a block is taking it, read backwards. -/
theorem Released.taken :
    TakenBit v.mnt.groupCount (blockDom v.mnt) (freeGroup v b) (b % v.mnt.blocksPerGroup)
      (blockBit v') (fun g => (v'.groups g).freeBlocks.toNat) v'.sbFreeBlocks.toNat
      (blockBit v) (fun g => (v.groups g).freeBlocks.toNat) v.sbFreeBlocks.toNat := by
  have hmem : b % v.mnt.blocksPerGroup ∈ blockDom v.mnt (freeGroup v b) := by
    rw [hl.freeGroup_eq hf.lt]
    refine mem_blockDom ?_ hf.lt
    have hmeta := hf.notMetadata
    simp only [Mount.blockIsKnownMetadata, Bool.or_eq_false_iff, decide_eq_false_iff_not] at hmeta
    omega
  constructor
  case group_lt => exact hf.group_lt
  case mem => exact hmem
  case clear =>
    rw [h.blockBit_eq hl hf hf.group_lt _ (lt_of_mem_blockDom hmem)]
    simp
  case set => exact hf.set
  case other =>
    intro g hg k hk hne
    rw [h.blockBit_eq hl hf hg _ (lt_of_mem_blockDom hk), decide_eq_false hne, Bool.not_false,
      Bool.true_and]
  case freeAt => exact h.freeBlocks hf
  case freeOther =>
    intro g hg hne
    rw [h.groups, update_of_ne hne]
  case totalEq =>
    have hlt := hf.sfree
    have hcount := v.mnt.blocksCount_lt
    rw [h.sbFreeBlocks, UInt64.toNat_add, UInt64.toNat_one]
    omega

/-- Freeing a block keeps the counts right. -/
theorem Released.counted (hc : Counted v) : Counted v' := by
  constructor
  · rw [h.mnt]
    exact (h.taken hl hf).freeCount_iff.mpr hc.blocks
  · rw [h.mnt]
    refine hc.inodes.congr (fun g hg k _ => h.inodeBit_eq hl hf hg k) (fun g _ => ?_) ?_
    · rw [h.freeInodes hl hf]
    · rw [h.sbFreeInodes]

/-- Freeing a block keeps the layout valid. -/
theorem Released.layout : Layout v' := by
  refine hl.of_samePlaces h.samePlaces fun c hg hmeta hused => ?_
  have hmod := Nat.mod_lt c v.mnt.blocksPerGroup_pos
  have hle := v.mnt.blocksPerGroup_le
  have hbit := h.blockBit_eq hl hf hg (c % v.mnt.blocksPerGroup) (by omega)
  -- The released block is no metadata, so a block of the metadata is another one.
  have hne : ¬(c / v.mnt.blocksPerGroup = freeGroup v b ∧
      c % v.mnt.blocksPerGroup = b % v.mnt.blocksPerGroup) := by
    rw [hl.freeGroup_eq hf.lt]
    intro heq
    have hcb : c = b := by
      rw [← Nat.div_add_mod' c v.mnt.blocksPerGroup, heq.1, heq.2, Nat.div_add_mod']
    rw [hcb, hf.notMetadata_div hl] at hmeta
    exact Bool.noConfusion hmeta
  rw [used, h.mnt, ← blockBit, hbit, decide_eq_false hne]
  exact hused

end

section

variable (hl : Layout v) (hd : Dropped v b v')
include hl hd

/-- A failed `free_block` leaves every bitmap alone. -/
theorem Dropped.blocks_eq (hg : g < v.mnt.groupCount) :
    v'.blocks (v.groups g).blockBitmap = v.blocks (v.groups g).blockBitmap ∧
      v'.blocks (v.groups g).inodeBitmap = v.blocks (v.groups g).inodeBitmap := by
  by_cases heq : v'.blocks b = v.blocks b
  · have hall : ∀ c, v'.blocks c = v.blocks c := by
      intro c
      by_cases hc : c = b
      · rw [hc, heq]
      · exact hd.blocks c hc
    exact ⟨hall _, hall _⟩
  · obtain ⟨hlt, hmeta⟩ := hd.notMetadata heq
    rw [hl.freeGroup_eq hlt] at hmeta
    obtain ⟨hbb, hib⟩ := hl.ne_bitmap hg hmeta
    exact ⟨hd.blocks _ hbb.symm, hd.blocks _ hib.symm⟩

omit hl in
theorem Dropped.samePlaces : SamePlaces v v' := by
  have hg := hd.groups
  exact ⟨hd.mnt, fun g => by rw [hg], fun g => by rw [hg], fun g => by rw [hg],
    fun g => .inl (by rw [hg])⟩

theorem Dropped.blockBit_eq (hg : g < v.mnt.groupCount) (bit : Nat) :
    blockBit v' g bit = blockBit v g bit := by
  rw [blockBit, hd.groups, (hd.blocks_eq hl hg).1, blockBit]

theorem Dropped.inodeBit_eq (hg : g < v.mnt.groupCount) (bit : Nat) :
    inodeBit v' g bit = inodeBit v g bit := by
  rw [inodeBit, hd.groups, (hd.blocks_eq hl hg).2, inodeBit]

/-- A failed `free_block` keeps the counts right. -/
theorem Dropped.counted (hc : Counted v) : Counted v' := by
  constructor
  · rw [hd.mnt]
    refine hc.blocks.congr (fun g hg k _ => hd.blockBit_eq hl hg k) (fun g _ => ?_) ?_
    · rw [hd.groups]
    · rw [hd.sbFreeBlocks]
  · rw [hd.mnt]
    refine hc.inodes.congr (fun g hg k _ => hd.inodeBit_eq hl hg k) (fun g _ => ?_) ?_
    · rw [hd.groups]
    · rw [hd.sbFreeInodes]

/-- A failed `free_block` keeps the layout valid. -/
theorem Dropped.layout : Layout v' :=
  hl.of_blockBit hd.samePlaces fun _ hg => hd.blockBit_eq hl hg

end

end Released

section Inodes

variable {v v' : Volume} {ino : Nat} {dir : Bool}

theorem InodeAllocated.samePlaces (h : InodeAllocated v ino dir v') : SamePlaces v v' :=
  .of_update h.mnt h.groups rfl rfl rfl

theorem InodeReleased.samePlaces (h : InodeReleased v ino dir v') : SamePlaces v v' :=
  .of_update h.mnt h.groups rfl rfl rfl

section

variable (hl : Layout v) (h : InodeAllocated v ino dir v')
include hl h

/-- Allocating an inode sets one bit. -/
theorem InodeAllocated.inodeBit_eq (hg : g < v.mnt.groupCount) (bit : Nat)
    (hbit : bit < 8 * v.mnt.blockSize) :
    inodeBit v' g bit = (decide (g = inodeGroup v ino ∧ bit = (ino - 1) % v.mnt.inodesPerGroup) ||
      inodeBit v g bit) := by
  rw [inodeBit, h.samePlaces.inodeBitmap, h.blocks]
  by_cases hgi : g = inodeGroup v ino
  · subst hgi
    rw [if_pos rfl, bitmapGet_cut hbit, bitmapGet_set8]
    simp [inodeBit]
  · rw [if_neg (hl.inodeBitmap_ne hg h.group_lt hgi)]
    simp [inodeBit, hgi]

/-- Allocating an inode touches no block bitmap. -/
theorem InodeAllocated.blockBit_eq (hg : g < v.mnt.groupCount) (bit : Nat) :
    blockBit v' g bit = blockBit v g bit := by
  rw [blockBit, h.samePlaces.blockBitmap, h.blocks,
    if_neg (hl.inodeBitmap_ne_blockBitmap h.group_lt hg).symm, blockBit]

theorem InodeAllocated.freeBlocks (g : Nat) :
    (v'.groups g).freeBlocks = (v.groups g).freeBlocks := by
  rw [h.groups]
  refine hl.same_field GroupDesc.freeBlocks h.group_lt ?_ g
  rfl

theorem InodeAllocated.layout : Layout v' :=
  hl.of_blockBit h.samePlaces fun _ hg => h.blockBit_eq hl hg

variable (hc : Counted v)
include hc

omit hl in
/-- The group of the inode counts one inode less. -/
theorem InodeAllocated.freeInodes : (v.groups (inodeGroup v ino)).freeInodes.toNat
      = (v'.groups (inodeGroup v ino)).freeInodes.toNat + 1 := by
  have hle := hc.freeInodes_le h.group_lt
  have hper := inodesPerGroup_le v.mnt
  have hsub := toNat_sub_one h.gfree
  rw [h.groups, update_self]
  dsimp only [GroupDesc.stored]
  rw [storedCounter_of_lt (by omega)]
  exact hsub

/-- Allocating an inode takes a bit of the inode bitmaps. -/
theorem InodeAllocated.taken : TakenBit v.mnt.groupCount (inodeDom v.mnt) (inodeGroup v ino)
      ((ino - 1) % v.mnt.inodesPerGroup) (inodeBit v) (fun g => (v.groups g).freeInodes.toNat)
      v.sbFreeInodes.toNat (inodeBit v') (fun g => (v'.groups g).freeInodes.toNat)
      v'.sbFreeInodes.toNat := by
  have hmem : (ino - 1) % v.mnt.inodesPerGroup ∈ inodeDom v.mnt (inodeGroup v ino) := by
    have hall := h.allocatable
    simp only [Mount.inodeAllocatable, Bool.and_eq_true, decide_eq_true_eq] at hall
    exact mem_inodeDom (Nat.pos_iff_ne_zero.mp h.pos) hall.2
  constructor
  case group_lt => exact h.group_lt
  case mem => exact hmem
  case clear => exact h.clear
  case set =>
    rw [h.inodeBit_eq hl h.group_lt _ (lt_of_mem_inodeDom hmem)]
    simp
  case other =>
    intro g hg k hk hne
    rw [h.inodeBit_eq hl hg _ (lt_of_mem_inodeDom hk), decide_eq_false hne, Bool.false_or]
  case freeAt => exact h.freeInodes hc
  case freeOther =>
    intro g hg hne
    rw [h.groups, update_of_ne hne]
  case totalEq =>
    rw [h.sbFreeInodes]
    exact toNat_sub_one h.sfree

/-- Allocating an inode keeps the counts right. -/
theorem InodeAllocated.counted : Counted v' := by
  constructor
  · rw [h.mnt]
    refine hc.blocks.congr (fun g hg k _ => h.blockBit_eq hl hg k) (fun g _ => ?_) ?_
    · rw [h.freeBlocks hl]
    · rw [h.sbFreeBlocks]
  · rw [h.mnt]
    exact (h.taken hl hc).freeCount_iff.mp hc.inodes

end

section

variable (hl : Layout v) (h : InodeReleased v ino dir v') (hf : InodeFreeable v ino dir)
include hl h hf

/-- Freeing an inode clears one bit. -/
theorem InodeReleased.inodeBit_eq (hg : g < v.mnt.groupCount) (bit : Nat)
    (hbit : bit < 8 * v.mnt.blockSize) :
    inodeBit v' g bit = (!decide (g = inodeGroup v ino ∧ bit = (ino - 1) % v.mnt.inodesPerGroup) &&
      inodeBit v g bit) := by
  rw [inodeBit, h.samePlaces.inodeBitmap, h.blocks]
  by_cases hgi : g = inodeGroup v ino
  · subst hgi
    rw [if_pos rfl, bitmapGet_cut hbit, bitmapGet_clear8]
    simp [inodeBit]
  · rw [if_neg (hl.inodeBitmap_ne hg hf.group_lt hgi)]
    simp [inodeBit, hgi]

/-- Freeing an inode touches no block bitmap. -/
theorem InodeReleased.blockBit_eq (hg : g < v.mnt.groupCount) (bit : Nat) :
    blockBit v' g bit = blockBit v g bit := by
  rw [blockBit, h.samePlaces.blockBitmap, h.blocks,
    if_neg (hl.inodeBitmap_ne_blockBitmap hf.group_lt hg).symm, blockBit]

theorem InodeReleased.freeBlocks (g : Nat) :
    (v'.groups g).freeBlocks = (v.groups g).freeBlocks := by
  rw [h.groups]
  refine hl.same_field GroupDesc.freeBlocks hf.group_lt ?_ g
  rfl

theorem InodeReleased.layout : Layout v' :=
  hl.of_blockBit h.samePlaces fun _ hg => h.blockBit_eq hl hf hg

omit hl in
/-- The group of the inode counts one inode more. -/
theorem InodeReleased.freeInodes : (v'.groups (inodeGroup v ino)).freeInodes.toNat
      = (v.groups (inodeGroup v ino)).freeInodes.toNat + 1 := by
  have hlt := hf.gfree
  have hper := inodesPerGroup_le v.mnt
  have hadd : _ = (v.groups (inodeGroup v ino)).freeInodes.toNat + 1 := toNat_add_one (by omega)
  rw [h.groups, update_self]
  dsimp only [GroupDesc.stored]
  rw [storedCounter_of_lt (by omega), hadd]

/-- Releasing an inode is taking it, read backwards. -/
theorem InodeReleased.taken : TakenBit v.mnt.groupCount (inodeDom v.mnt) (inodeGroup v ino)
      ((ino - 1) % v.mnt.inodesPerGroup) (inodeBit v') (fun g => (v'.groups g).freeInodes.toNat)
      v'.sbFreeInodes.toNat (inodeBit v) (fun g => (v.groups g).freeInodes.toNat)
      v.sbFreeInodes.toNat := by
  have hmem := mem_inodeDom hf.pos hf.le
  constructor
  case group_lt => exact hf.group_lt
  case mem => exact hmem
  case clear =>
    rw [h.inodeBit_eq hl hf hf.group_lt _ (lt_of_mem_inodeDom hmem)]
    simp
  case set => exact hf.set
  case other =>
    intro g hg k hk hne
    rw [h.inodeBit_eq hl hf hg _ (lt_of_mem_inodeDom hk), decide_eq_false hne, Bool.not_false,
      Bool.true_and]
  case freeAt => exact h.freeInodes hf
  case freeOther =>
    intro g hg hne
    rw [h.groups, update_of_ne hne]
  case totalEq =>
    have hlt := hf.sfree
    have hcount := v.mnt.inodesCount_lt
    rw [h.sbFreeInodes, UInt32.toNat_add, UInt32.toNat_one]
    omega

/-- Freeing an inode keeps the counts right. -/
theorem InodeReleased.counted (hc : Counted v) : Counted v' := by
  constructor
  · rw [h.mnt]
    refine hc.blocks.congr (fun g hg k _ => h.blockBit_eq hl hf hg k) (fun g _ => ?_) ?_
    · rw [h.freeBlocks hl hf]
    · rw [h.sbFreeBlocks]
  · rw [h.mnt]
    exact (h.taken hl hf).freeCount_iff.mpr hc.inodes

end

end Inodes

end Rabbitbone.Spec.Ext4
