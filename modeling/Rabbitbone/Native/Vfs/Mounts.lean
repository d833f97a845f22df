import Mathlib.Algebra.Group.Nat.Defs
import Mathlib.Data.Fin.Basic
import Mathlib.Data.List.FinRange
import Mathlib.Logic.Function.Basic
import Rabbitbone.Native.Path
import Rabbitbone.Native.Vfs.Route

/-!
# Mounts and pinned references

Model of the two tables of `kernel/vfs/vfs`: the mounts with their counts of references
(`routing_mounts.inc`, `metadata_refs.inc`) and the pins of retained node references.  Each function
here runs with the lock of its table held and is one step; the functions of the source that take a
lock more than once are put together from them in the specification.

A path is the normal path of its mount; the checks of the arguments before the locks and the fields
of a mount that no function here reads are left out.
-/

namespace Rabbitbone.Native.Vfs

open Native.Path

/-- The number of values of a `u32`. -/
def u32Range : Nat := 2 ^ 32

/-- `VFS_MAX_PINNED_REFS`. -/
def vfsMaxPinnedRefs : Nat := 512

/-- `vfs_mount_t`; `ops` says whether its pointer is set.  `serial` is not in the source: it numbers
the mounts. -/
structure Mount where
  ops : Bool
  unmounting : Bool
  path : List UInt8
  fsId : Nat
  generation : Nat
  activeRefs : Nat
  serial : Nat
  deriving DecidableEq, Repr

/-- A slot of `mounts` behind `memset`. -/
def Mount.cleared : Mount := ⟨false, false, [], 0, 0, 0, 0⟩

/-- `vfs_node_ref_t`, without the cached fields. -/
structure NodeRef where
  fsId : Nat
  generation : Nat
  inode : Nat
  deriving DecidableEq, Repr

/-- `vfs_ref_pin_t`. -/
structure RefPin where
  used : Bool
  ref : NodeRef
  refs : Nat
  deriving DecidableEq, Repr

/-- An entry of `ref_pins` behind `memset`. -/
def RefPin.cleared : RefPin := ⟨false, ⟨0, 0, 0⟩, 0⟩

/-- The variables of `vfs.c`.  `mounted` is not in the source: it counts the mounts. -/
structure VfsTables where
  mounts : Fin vfsMaxMounts → Mount
  refPins : Fin vfsMaxPinnedRefs → RefPin
  nextFsId : Nat
  nextMountGeneration : Nat
  mounted : Nat

/-- The first slot of a table for which `p` holds. -/
@[irreducible]
def findSlot {α : Type} {n : Nat} (table : Fin n → α) (p : α → Bool) : Option (Fin n) :=
  (List.finRange n).find? fun i => p (table i)

namespace VfsTables

/-- `vfs_init`. -/
def vfsInit : VfsTables where
  mounts := fun _ => Mount.cleared
  refPins := fun _ => RefPin.cleared
  nextFsId := 1
  nextMountGeneration := 1
  mounted := 0

/-- Change one mount. -/
def setMount (t : VfsTables) (i : Fin vfsMaxMounts) (m : Mount) : VfsTables :=
  { t with mounts := Function.update t.mounts i m }

/-- Change one pin. -/
def setPin (t : VfsTables) (i : Fin vfsMaxPinnedRefs) (p : RefPin) : VfsTables :=
  { t with refPins := Function.update t.refPins i p }

/-- The first mount for which `p` holds. -/
def findMount (t : VfsTables) (p : Mount → Bool) : Option (Fin vfsMaxMounts) := findSlot t.mounts p

/-! ### Mounts -/

/-- `next++` and the jump over 0. -/
def bump (next : Nat) : Nat := if (next + 1) % u32Range = 0 then 1 else (next + 1) % u32Range

/-- `fs_id_in_use`. -/
def fsIdInUse (t : VfsTables) (id : Nat) : Bool :=
  id = 0 || (t.findMount fun m => m.ops && m.fsId = id).isSome

/-- The loop of `alloc_fs_id`: the identifier and the next one to try. -/
def allocFsIdLoop (t : VfsTables) : Nat → Nat → Nat × Nat
  | 0, next => (0, next)
  | tries + 1, next =>
    if t.fsIdInUse next then allocFsIdLoop t tries (bump next) else (next, bump next)

/-- `alloc_fs_id`. -/
def allocFsId (t : VfsTables) : Nat × Nat := allocFsIdLoop t (u32Range - 1) t.nextFsId

/-- `alloc_mount_generation`. -/
def allocMountGeneration (next : Nat) : Nat × Nat := if next = 0 then (1, 2) else (next, bump next)

/-- `vfs_mount`. -/
def vfsMount (t : VfsTables) (norm : List UInt8) : VfsTables :=
  match t.findMount fun m => m.ops && !m.unmounting && m.path = norm with
  | some _ => t
  | none =>
    match t.findMount fun m => !m.ops && m.activeRefs = 0 with
    | none => t
    | some i =>
      let (fsId, nextFsId) := t.allocFsId
      let (generation, nextGeneration) := allocMountGeneration t.nextMountGeneration
      let t := { t with nextFsId := nextFsId, nextMountGeneration := nextGeneration }
      if fsId = 0 ∨ generation = 0 then t.setMount i Mount.cleared
      else
        { t.setMount i ⟨true, false, norm, fsId, generation, 0, t.mounted⟩ with
          mounted := t.mounted + 1 }

/-- The path lies below the mount at `norm`. -/
def below (norm path : List UInt8) : Bool :=
  norm.isPrefixOf path && (path.drop norm.length).head? = some slash

/-- `vfs_unmount`. -/
def vfsUnmount (t : VfsTables) (norm : List UInt8) : VfsTables :=
  if norm = [slash] then t
  else
    match t.findMount fun m => m.ops && !m.unmounting && m.path = norm with
    | none => t
    | some idx =>
      if (List.finRange vfsMaxMounts).any fun i => i ≠ idx && (t.mounts i).ops &&
          !(t.mounts i).unmounting && below norm (t.mounts i).path then t
      else if (t.mounts idx).activeRefs ≠ 0 then t
      else t.setMount idx Mount.cleared

/-! ### References to a mount -/

/-- `++active_refs`. -/
def retainMount (t : VfsTables) (i : Fin vfsMaxMounts) : VfsTables :=
  t.setMount i { t.mounts i with activeRefs := ((t.mounts i).activeRefs + 1) % u32Range }

/-- `if (active_refs) --active_refs`. -/
def dropMount (t : VfsTables) (i : Fin vfsMaxMounts) : VfsTables :=
  t.setMount i { t.mounts i with activeRefs := (t.mounts i).activeRefs - 1 }

/-- The test of `resolve_route` and of `mount_acquire_index` that a route is still valid. -/
def routeValid (t : VfsTables) (idx : Fin vfsMaxMounts) (generation : Nat) : Bool :=
  (t.mounts idx).ops && !(t.mounts idx).unmounting && (t.mounts idx).generation = generation

/-- `mount_acquire_index`: the mount, if the route is still valid. -/
def mountAcquireIndex (t : VfsTables) (idx : Fin vfsMaxMounts) (generation : Nat) :
    Option (Fin vfsMaxMounts) :=
  if generation = 0 then none else if t.routeValid idx generation then some idx else none

/-- The search of `mount_by_fs_id` and `mount_pin_by_fs_id`. -/
def mountByFsId (t : VfsTables) (ref : NodeRef) : Option (Fin vfsMaxMounts) :=
  if ref.fsId = 0 ∨ ref.generation = 0 then none
  else t.findMount fun m => m.ops && !m.unmounting && m.fsId = ref.fsId &&
    m.generation = ref.generation

/-- `mount_release_by_fs_id`. -/
def mountReleaseByFsId (t : VfsTables) (ref : NodeRef) : VfsTables :=
  if ref.fsId = 0 ∨ ref.generation = 0 then t
  else
    match t.findMount fun m => m.ops && m.fsId = ref.fsId && m.generation = ref.generation with
    | none => t
    | some i => t.dropMount i

/-! ### Pins -/

/-- The search for the pin of a reference. -/
def findPin (t : VfsTables) (ref : NodeRef) : Option (Fin vfsMaxPinnedRefs) :=
  findSlot t.refPins fun p => p.used && p.ref = ref

/-- The part of `vfs_retain_ref` with `ref_pins_lock` held: whether the reference is pinned. -/
def recordPin (t : VfsTables) (ref : NodeRef) : Bool × VfsTables :=
  match t.findPin ref with
  | some i =>
    if (t.refPins i).refs = u32Range - 1 then (false, t)
    else (true, t.setPin i { t.refPins i with refs := (t.refPins i).refs + 1 })
  | none =>
    match findSlot t.refPins fun p => !p.used with
    | none => (false, t)
    | some i => (true, t.setPin i ⟨true, ref, 1⟩)

/-- The part of `vfs_release_ref` with `ref_pins_lock` held: whether a pin was taken away. -/
def erasePin (t : VfsTables) (ref : NodeRef) : Bool × VfsTables :=
  match t.findPin ref with
  | none => (false, t)
  | some i =>
    let refs := (t.refPins i).refs - 1
    (true, t.setPin i (if refs = 0 then RefPin.cleared else { t.refPins i with refs := refs }))

end VfsTables

end Rabbitbone.Native.Vfs
