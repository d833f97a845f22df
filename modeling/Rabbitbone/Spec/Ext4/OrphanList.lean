import Rabbitbone.ForStd.LinkedList
import Rabbitbone.Native.Ext4.Orphan
import Rabbitbone.Spec.Ext4.AllocRun

/-!
# The orphan list through the removal of an inode

`free_removed_inode` puts the inode in front of the orphan list, frees it and takes it out again.
The link to the rest of the list is the inode's own `i_dtime`, which the function clears in between:
what it takes the head from is the cleared field.

## Key results

- `orphanPush_ok`: the inode is in front of the list it found.
- `freeRemovedInode_ok`: the list is empty afterwards.
- `freeRemovedInode_orphanList_iff`: so it is kept exactly if it was empty.
-/

namespace Rabbitbone.Spec.Ext4

open Native.Ext4 FallibleState Function

/-- What an inode number in `s_last_orphan` or `i_dtime` stands for. -/
def orphanPtr (w : UInt32) : Option Nat := if w = 0 then none else some w.toNat

@[simp] theorem orphanPtr_zero : orphanPtr 0 = none := rfl

private theorem orphanPtr_eq_none {w : UInt32} : orphanPtr w = none ↔ w = 0 := by
  simp [orphanPtr]

variable {ino : Nat} {v v' : Volume} {inode : Inode} {u : Unit} {l : List Nat}

/-- The inodes of the orphan list, from the head on. -/
def OrphanList (v : Volume) (l : List Nat) : Prop :=
  LinkedList.Chain (fun ino => orphanPtr (v.inodes ino).dtime) (orphanPtr v.sbLastOrphan) l

/-- Without a head the list is empty. -/
private theorem orphanList_of_empty (h : v.sbLastOrphan = 0) : OrphanList v l ↔ l = [] := by
  rw [OrphanList, h, orphanPtr_zero]
  constructor
  · intro hchain
    exact hchain.unique (LinkedList.Seg.nil_iff.mpr rfl)
  · rintro rfl
    exact LinkedList.Seg.nil_iff.mpr rfl

/-! ### What freeing leaves alone -/

/-- The inodes and the head of the orphan list. -/
def inodeState (v : Volume) : (Nat → Inode) × UInt32 := (v.inodes, v.sbLastOrphan)

/-- What freeing leaves alone. -/
def freeFrame (v : Volume) : Mount × (Nat → Inode) × UInt32 := (v.mnt, inodeState v)

theorem readGroupDesc_freeFrame (g : Nat) : Preserves (readGroupDesc g) freeFrame :=
  .bind .get fun _ => .bind (.require _ _) fun _ => .pure _

theorem writeGroupDesc_freeFrame (g : Nat) (gd : GroupDesc) :
    Preserves (writeGroupDesc g gd) freeFrame :=
  .bind .get fun _ => .bind (.require _ _) fun _ => .modify fun _ => rfl

theorem readBlock_freeFrame (b : Nat) : Preserves (readBlock b) freeFrame :=
  .bind .get fun _ => .bind (.require _ _) fun _ => .pure _

private theorem writeBlock_freeFrame (b : Nat) (buffer : Block) :
    Preserves (writeBlock b buffer) freeFrame :=
  .bind .get fun _ => .bind (.require _ _) fun _ => .modify fun _ => rfl

/-- `free_block` touches neither the inodes nor the list. -/
private theorem freeBlock_freeFrame (b : Nat) : Preserves (freeBlock b) freeFrame :=
  .bind .get fun _ => .bind (.require _ _) fun _ => .bind (.require _ _) fun _ =>
    .bind (readGroupDesc_freeFrame _) fun _ => .bind (.require _ _) fun _ =>
    .bind (.modify fun _ => rfl) fun _ => .bind (readBlock_freeFrame _) fun _ =>
    .bind (.require _ _) fun _ => .bind (.require _ _) fun _ =>
    .bind (writeBlock_freeFrame _ _) fun _ => .bind (writeGroupDesc_freeFrame _ _) fun _ =>
    .modify fun _ => rfl

theorem freeInode_freeFrame (ino : Nat) (dir : Bool) : Preserves (freeInode ino dir) freeFrame :=
  .bind .get fun _ => .bind (.require _ _) fun _ => .bind (.require _ _) fun _ =>
    .bind (readGroupDesc_freeFrame _) fun _ => .bind (readBlock_freeFrame _) fun _ =>
    .bind (.require _ _) fun _ => .bind (.require _ _) fun _ =>
    .bind (writeBlock_freeFrame _ _) fun _ => .bind (writeGroupDesc_freeFrame _ _) fun _ =>
    .modify fun _ => rfl

private theorem freeExtentRun_freeFrame (start count j : Nat) :
    Preserves (freeExtentRun start count j) freeFrame := by
  induction count generalizing j with
  | zero => exact .pure _
  | succ count ih =>
    exact .bind (.require _ _) fun _ => .bind (freeBlock_freeFrame _) fun _ => ih _

private theorem freeExtentArrayBlocks_freeFrame (n : Node) (count i : Nat) :
    Preserves (freeExtentArrayBlocks n count i) freeFrame := by
  induction count generalizing i with
  | zero => exact .pure _
  | succ count ih => exact .bind (freeExtentRun_freeFrame _ _ _) fun _ => ih _

private theorem forChildren_freeFrame {α : Type} {step : Nat → α → VolumeM α}
    (hstep : ∀ child acc, Preserves (step child acc) freeFrame) (n : Node)
    (count i : Nat) (acc : α) :
    Preserves (forChildren n step count i acc) freeFrame := by
  induction count generalizing i acc with
  | zero => exact .pure _
  | succ count ih => exact .bind (hstep _ _) fun _ => ih _ _

/-- Freeing a tree frees blocks only. -/
private theorem freeExtentTreeBlocks_freeFrame (depth : Nat) (n : Node) :
    Preserves (freeExtentTreeBlocks depth n) freeFrame := by
  induction depth generalizing n with
  | zero => exact .bind (.require _ _) fun _ => freeExtentArrayBlocks_freeFrame _ _ _
  | succ depth ih =>
    refine .bind (.require _ _) fun _ => forChildren_freeFrame (fun child _ => ?_) _ _ _ _
    exact .bind (readBlock_freeFrame _) fun _ => .bind (ih _) fun _ => freeBlock_freeFrame _

private theorem freeDirectBlocks_freeFrame (count k : Nat) (inode : Inode) :
    Preserves (freeDirectBlocks count k inode) freeFrame := by
  induction count generalizing k inode with
  | zero => exact .pure _
  | succ count ih =>
    rw [freeDirectBlocks]
    split
    · exact ih _ _
    · exact .bind (freeBlock_freeFrame _) fun _ => ih _ _

private theorem freeIndirectEntries_freeFrame (block : Block) (count k : Nat) :
    Preserves (freeIndirectEntries block count k) freeFrame := by
  induction count generalizing k with
  | zero => exact .pure _
  | succ count ih =>
    rw [freeIndirectEntries]
    split
    · exact ih _
    · exact .bind (freeBlock_freeFrame _) fun _ => ih _

private theorem freeIndirectBlock_freeFrame (inode : Inode) :
    Preserves (freeIndirectBlock inode) freeFrame := by
  refine .bind .get fun _ => ?_
  dsimp only
  split
  · exact .pure _
  · exact .bind (readBlock_freeFrame _) fun _ => .bind (freeIndirectEntries_freeFrame _ _ _)
      fun _ => .bind (freeBlock_freeFrame _) fun _ => .pure _

private theorem freeIndexBlock_freeFrame (inode : Inode) :
    Preserves (freeIndexBlock inode) freeFrame := by
  rw [freeIndexBlock]
  split
  · exact .bind (freeBlock_freeFrame _) fun _ => .pure _
  · exact .pure _

/-- Freeing blocks touches neither the inodes nor the list. -/
theorem freeInodeBlocks_freeFrame (inode : Inode) :
    Preserves (freeInodeBlocks inode) freeFrame := by
  rw [freeInodeBlocks]
  split
  · exact .pure _
  split
  · exact .bind (.require _ _) fun _ => .bind (freeExtentTreeBlocks_freeFrame _ _) fun _ =>
      freeIndexBlock_freeFrame _
  exact .bind (freeDirectBlocks_freeFrame _ _ _) fun _ =>
    .bind (freeIndirectBlock_freeFrame _) fun _ => .bind (freeIndexBlock_freeFrame _) fun _ =>
    .pure _

/-! ### The steps -/

private theorem ext4ReadInode_ok : (ext4ReadInode ino).run v = (.ok inode, v') ↔
      v.inodeInRange ino ∧ inode = v.inodes ino ∧ v' = v := by
  rw [ext4ReadInode, get_bind_ok, require_bind_ok, pure_ok]

private theorem writeInode_ok : (writeInode ino inode).run v = (.ok u, v') ↔
      v.inodeInRange ino ∧ v' = { v with inodes := update v.inodes ino inode } := by
  rw [writeInode, get_bind_ok, require_bind_ok, modify_ok]

private theorem inodeInRange_lt (h : v.inodeInRange ino) : ino ≠ 0 ∧ ino < 2 ^ 32 :=
  ⟨h.1, lt_of_le_of_lt h.2.1 v.mnt.inodesCount_lt⟩

/-- `orphan_push` stores the inode with the old head in `i_dtime` and makes it the head. -/
theorem orphanPush_ok {inode' : Inode} (h : (orphanPush ino inode).run v = (.ok inode', v')) :
    v.inodeInRange ino ∧ inode' = { inode with dtime := v.sbLastOrphan } ∧
      v' = { v with
        inodes := update v.inodes ino inode'
        sbLastOrphan := UInt32.ofNat ino } := by
  rw [orphanPush, require_bind_ok, get_bind_ok, bind_ok] at h
  obtain ⟨-, _, v₁, hwrite, h⟩ := h
  obtain ⟨hrange, rfl⟩ := writeInode_ok.mp hwrite
  obtain ⟨rfl, rfl⟩ := h
  exact ⟨hrange, rfl, rfl⟩

/-- `orphan_remove` of the head makes its `i_dtime` the new head. -/
theorem orphanRemove_head (h : (orphanRemove ino).run v = (.ok u, v'))
    (hhead : v.sbLastOrphan.toNat = ino) :
    v' = { v with
      inodes := update v.inodes ino { v.inodes ino with dtime := 0 }
      sbLastOrphan := (v.inodes ino).dtime } := by
  rw [orphanRemove, require_bind_ok, get_bind_ok, hhead] at h
  obtain ⟨hpos, h⟩ := h
  cases hturns : v.mnt.inodesCount with
  | zero =>
    rw [hturns, orphanRemoveLoop, if_neg hpos, fail_ok] at h
    exact h.elim
  | succ turns =>
    rw [hturns, orphanRemoveLoop, if_neg hpos, bind_ok] at h
    obtain ⟨inode, v₁, hread, h⟩ := h
    obtain ⟨-, rfl, rfl⟩ := ext4ReadInode_ok.mp hread
    rw [if_pos rfl, orphanUnlink, if_pos rfl, modify_bind_ok] at h
    exact (writeInode_ok.mp h).2

/-! ### The whole removal -/

/-- The removal clears the inode and leaves no orphan at all. -/
theorem freeRemovedInode_ok {isDir : Bool}
    (h : (freeRemovedInode ino inode isDir).run v = (.ok u, v')) :
    v'.inodes = update v.inodes ino Inode.zero ∧ v'.sbLastOrphan = 0 := by
  rw [freeRemovedInode, require_bind_ok] at h
  simp only [bind_ok] at h
  obtain ⟨-, pushed, v₁, hpush, _, v₂, hblocks, _, v₃, hclear, _, v₄, hfree, hremove⟩ := h
  obtain ⟨hrange, -, rfl⟩ := orphanPush_ok hpush
  have hstate₂ := (freeInodeBlocks_freeFrame pushed).eq hblocks
  have hstate₄ := (freeInode_freeFrame ino isDir).eq hfree
  obtain ⟨-, rfl⟩ := writeInode_ok.mp hclear
  simp only [freeFrame, inodeState, Prod.mk.injEq] at hstate₂ hstate₄
  rw [hstate₂.2.1, hstate₂.2.2, update_idem] at hstate₄
  have hlt := inodeInRange_lt hrange
  have hhead : v₄.sbLastOrphan.toNat = ino := by
    rw [hstate₄.2.2, UInt32.toNat_ofNat_of_lt' hlt.2]
  obtain rfl := orphanRemove_head hremove hhead
  -- `i_dtime` was cleared with the inode, and becomes the head
  rw [hstate₄.2.1, update_idem, update_self]
  exact ⟨rfl, rfl⟩

/-- A successful removal keeps the orphan list exactly if the list was empty. -/
theorem freeRemovedInode_orphanList_iff {v v' : Volume} {ino : Nat} {inode : Inode} {isDir : Bool}
    {l : List Nat} (hl : OrphanList v l) (hmem : ino ∉ l)
    (h : (freeRemovedInode ino inode isDir).run v = (.ok (), v')) :
    OrphanList v' l ↔ v.sbLastOrphan = 0 := by
  rw [orphanList_of_empty (freeRemovedInode_ok h).2]
  constructor
  · rintro rfl
    exact orphanPtr_eq_none.mp hl
  · exact fun hempty => (orphanList_of_empty hempty).mp hl

/-- A regular file without blocks. -/
def emptyFile : Inode :=
  { Inode.zero with mode := 0x8000, flags := 0x80000, node := Node.fresh 0 4 0 }

/-- The small volume with two files, 11 and 12, and the orphan list that starts at `head`. -/
def orphanVolume (head : UInt32) : Volume :=
  { smallVolume 0x1f 11 with
    sbFreeInodes := 4
    sbLastOrphan := head
    groups := fun _ => ⟨2, 3, 4, 11, 4, 1⟩
    blocks := fun b i => if b = 3 ∧ i = 1 then 0xf else (smallVolume 0x1f 11).blocks b i
    inodes := fun _ => emptyFile }

theorem freeRemovedInode_keeps_empty :
    OrphanList ((freeRemovedInode 12 emptyFile false).run (orphanVolume 0)).2 [] :=
  (freeRemovedInode_orphanList_iff (orphanList_of_empty rfl |>.mpr rfl) (by decide)
    (Prod.ext rfl rfl)).mpr rfl

/-- With the inode 11 on the list, the removal of the inode 12 takes both out. -/
theorem freeRemovedInode_drops_orphan : OrphanList (orphanVolume 11) [11] ∧
      ((freeRemovedInode 12 emptyFile false).run (orphanVolume 11)).1 = .ok () ∧
      ¬OrphanList ((freeRemovedInode 12 emptyFile false).run (orphanVolume 11)).2 [11] := by
  refine ⟨⟨rfl, rfl⟩, rfl, fun h => ?_⟩
  have hhead : ((freeRemovedInode 12 emptyFile false).run (orphanVolume 11)).2.sbLastOrphan = 0 :=
    rfl
  exact absurd ((orphanList_of_empty hhead).mp h) (by decide)

end Rabbitbone.Spec.Ext4
