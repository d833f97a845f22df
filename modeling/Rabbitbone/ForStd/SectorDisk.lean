import Mathlib.Logic.Function.Basic
import Mathlib.Data.Nat.Notation
import Mathlib.Data.List.Basic

/-!
# Disks that write one sector at a time

A disk is a map from block numbers to contents.  A block is written sector by sector, so that a
crash leaves it with the new content up to some sector and the old content behind it (`torn`).

`applyAll_take_blockWrites` says what the first `k` sector writes of a block leave, and
`applyAll_take_append` lets a sequence of block writes be cut in any of them.
-/

namespace SectorDisk

open Function List

variable {α : Type*} {size n k : Nat}

/-- A disk: the content of each block. -/
abbrev Disk (α : Type*) := Nat → Nat → α

/-- The write of one sector of a block: the bytes of `data` that lie in it. -/
structure SectorWrite (α : Type*) where
  block : Nat
  sector : Nat
  data : Nat → α

/-- A content whose first `k` sectors are new. -/
def torn (size k : Nat) (new old : Nat → α) : Nat → α :=
  fun i => if i / size < k then new i else old i

/-- The disk after one sector write. -/
def SectorWrite.apply (size : Nat) (w : SectorWrite α) (d : Disk α) : Disk α :=
  update d w.block fun i => if i / size = w.sector then w.data i else d w.block i

/-- The disk after a sequence of sector writes. -/
def applyAll (size : Nat) (ws : List (SectorWrite α)) (d : Disk α) : Disk α :=
  ws.foldl (fun d w => w.apply size d) d

/-- The sector writes of a block of `n` sectors. -/
def blockWrites (n block : Nat) (data : Nat → α) : List (SectorWrite α) :=
  (range n).map fun s => ⟨block, s, data⟩

@[simp] theorem length_blockWrites (n block : Nat) (data : Nat → α) :
    (blockWrites n block data).length = n := by
  simp [blockWrites]

@[simp] theorem applyAll_nil (d : Disk α) : applyAll size [] d = d := rfl

/-- Writes are applied one after the other. -/
theorem applyAll_append (ws ws' : List (SectorWrite α)) (d : Disk α) :
    applyAll size (ws ++ ws') d = applyAll size ws' (applyAll size ws d) :=
  foldl_append

@[simp] theorem torn_zero (new old : Nat → α) : torn size 0 new old = old := by
  funext i
  simp [torn]

/-- The first `k` sectors of a block written to a disk. -/
theorem applyAll_take_blockWrites (n k block : Nat) (data : Nat → α) (d : Disk α) :
    applyAll size ((blockWrites n block data).take k) d
      = update d block (torn size (min k n) data (d block)) := by
  rw [blockWrites, ← map_take, take_range]
  induction min k n with
  | zero => simp
  | succ m ih =>
    rw [range_succ, map_append, applyAll_append, ih]
    -- the last sector goes on top of the torn block
    simp only [applyAll, map_cons, map_nil, foldl_cons, foldl_nil,
      SectorWrite.apply, update_self, update_idem]
    congr 1
    funext i
    simp only [torn]
    split_ifs <;> first | rfl | omega

/-- After some of the writes of a block it is torn between new and old. -/
theorem applyAll_blockWrites (n block : Nat) (data : Nat → α) (d : Disk α) :
    applyAll size (blockWrites n block data) d = update d block (torn size n data (d block)) := by
  have h : applyAll size ((blockWrites n block data).take n) d = _ :=
    applyAll_take_blockWrites n n block data d
  rwa [take_of_length_le (by simp), Nat.min_self] at h

/-- A crash in a sequence of two parts is a crash in the first or, behind all of it, in the
second. -/
theorem applyAll_take_append (ws ws' : List (SectorWrite α)) (k : Nat) (d : Disk α) :
    applyAll size ((ws ++ ws').take k) d
      = applyAll size (ws'.take (k - ws.length)) (applyAll size (ws.take k) d) := by
  rw [take_append, applyAll_append]

end SectorDisk
