import Mathlib.Algebra.BigOperators.Group.Finset.Basic
import Mathlib.Algebra.Order.BigOperators.Group.Finset
import Mathlib.Data.Fintype.BigOperators
import Mathlib.Data.Fintype.Pigeonhole
import Rabbitbone.Native.Vfs.Mounts

/-!
# References to mounts

Path operations, operations on references, `vfs_retain_ref` and `vfs_release_ref` run side by side
with mounts and unmounts.  Each of them takes a lock, lets it go and takes the next one; between two
locks it is a task that waits, and the tasks are taken in any order.  The references that are used,
pinned and released may be any values at all.

The count of a mount is the number of its tasks and pins as long as it does not wrap around.  So a
mount that is in use stays, and a reference never gets to a mount other than its own.
-/

namespace Rabbitbone.Spec.Vfs

open Native.Vfs VfsTables Function Finset Nat

variable {next n : Nat}

/-! ### The system -/

/-- What a task is between two locks. -/
inductive Task where
  /-- `resolve_route` has looked at the mounts and goes on to check the one it chose. -/
  | checking (idx : Fin vfsMaxMounts) (generation : Nat)
  /-- A route, before `mount_acquire_index`. -/
  | routed (idx : Fin vfsMaxMounts) (generation : Nat)
  /-- An operation on the mount in the slot, before `mount_release`; `serial` is the mount it
  got. -/
  | running (idx : Fin vfsMaxMounts) (serial : Nat)
  /-- `vfs_retain_ref` between its two locks. -/
  | pinning (ref : NodeRef)
  /-- `mount_release_by_fs_id` is to come. -/
  | unpinning (ref : NodeRef)
  deriving DecidableEq, Repr

/-- The tables, the tasks, and the references that `vfs_get_ref` gave out with the mount each was
taken on. -/
structure VfsSystem where
  tables : VfsTables
  tasks : List Task
  taken : List (NodeRef × Nat)

/-- A task takes its next lock. -/
def Task.advance (t : VfsTables) : Task → VfsTables × List Task
  | checking idx generation =>
    (t, if t.routeValid idx generation then [routed idx generation] else [])
  | routed idx generation =>
    match t.mountAcquireIndex idx generation with
    | none => (t, [])
    | some i => (t.retainMount i, [running i (t.mounts i).serial])
  | running idx _ => (t.dropMount idx, [])
  | pinning ref =>
    match t.recordPin ref with
    | (true, t) => (t, [])
    | (false, t) => (t, [unpinning ref])
  | unpinning ref => (t.mountReleaseByFsId ref, [])

/-- What can happen next. -/
inductive VfsEvent where
  | mount (norm : List UInt8)
  | unmount (norm : List UInt8)
  /-- A path operation looks at the mounts and chooses a slot; `vfs_sync` and `root_list` do not
  check again. -/
  | lookup (idx : Fin vfsMaxMounts) (check : Bool)
  /-- An operation on a reference calls `mount_by_fs_id`. -/
  | useRef (ref : NodeRef)
  | retain (ref : NodeRef)
  | release (ref : NodeRef)
  /-- Task `k` is `vfs_get_ref` and the file system has answered. -/
  | getRef (k : Nat) (fsId inode : Nat)
  /-- Task `k` takes its next lock. -/
  | advance (k : Nat)
  /-- Task `k` has a route and returns without using it. -/
  | abandon (k : Nat)
  deriving DecidableEq, Repr

namespace VfsSystem

/-- One step of the system, under one lock. -/
def step (s : VfsSystem) : VfsEvent → VfsSystem
  | .mount norm => { s with tables := s.tables.vfsMount norm }
  | .unmount norm => { s with tables := s.tables.vfsUnmount norm }
  | .lookup idx check =>
    let m := s.tables.mounts idx
    if m.ops && !m.unmounting then
      { s with
        tasks :=
          (if check then .checking idx m.generation else .routed idx m.generation) :: s.tasks }
    else s
  | .useRef ref =>
    match s.tables.mountByFsId ref with
    | none => s
    | some i =>
      { s with
        tables := s.tables.retainMount i
        tasks := .running i (s.tables.mounts i).serial :: s.tasks }
  | .retain ref =>
    if ref.inode = 0 then s
    else
      match s.tables.mountByFsId ref with
      | none => s
      | some i => { s with tables := s.tables.retainMount i, tasks := .pinning ref :: s.tasks }
  | .release ref =>
    if ref.inode = 0 ∨ ref.fsId = 0 ∨ ref.generation = 0 then s
    else
      match s.tables.erasePin ref with
      | (false, _) => s
      | (true, t) => { s with tables := t, tasks := .unpinning ref :: s.tasks }
  | .getRef k fsId inode =>
    match s.tasks[k]? with
    | some (.running idx serial) =>
      { s with taken := (⟨fsId, (s.tables.mounts idx).generation, inode⟩, serial) :: s.taken }
    | _ => s
  | .advance k =>
    match s.tasks[k]? with
    | none => s
    | some task =>
      { s with
        tables := (task.advance s.tables).1
        tasks := (task.advance s.tables).2 ++ s.tasks.eraseIdx k }
  | .abandon k =>
    match s.tasks[k]? with
    | some (.routed _ _) => { s with tasks := s.tasks.eraseIdx k }
    | _ => s

/-- The system behind `vfs_init`. -/
def start : VfsSystem := ⟨vfsInit, [], []⟩

end VfsSystem

/-! ### What is to hold -/

/-- The reference is one to the mount. -/
def IsRefTo (m : Mount) (ref : NodeRef) : Prop := ref.fsId = m.fsId ∧ ref.generation = m.generation

instance (m : Mount) (ref : NodeRef) : Decidable (IsRefTo m ref) :=
  inferInstanceAs (Decidable (_ ∧ _))

/-- The task is an operation in flight on the mount. -/
def Task.On (m : Mount) : Task → Prop
  | running _ serial => serial = m.serial
  | pinning ref => IsRefTo m ref
  | unpinning ref => IsRefTo m ref
  | _ => False

instance (m : Mount) : DecidablePred (Task.On m)
  | .checking _ _ => isFalse id
  | .routed _ _ => isFalse id
  | .running _ serial => inferInstanceAs (Decidable (serial = m.serial))
  | .pinning ref => inferInstanceAs (Decidable (IsRefTo m ref))
  | .unpinning ref => inferInstanceAs (Decidable (IsRefTo m ref))

/-- The operations in flight on a mount. -/
def inFlight (tasks : List Task) (m : Mount) : Nat := tasks.countP (Task.On m)

/-- How often a pin counts for a mount. -/
def pinWeight (m : Mount) (p : RefPin) : Nat :=
  if p.used = true ∧ IsRefTo m p.ref then p.refs else 0

/-- The pin counts of the references to a mount. -/
def pinned (t : VfsTables) (m : Mount) : Nat := ∑ p, pinWeight m (t.refPins p)

/-- The tables are right about who uses which mount. -/
structure MountsSound (s : VfsSystem) : Prop where
  /-- Each mount counts its operations in flight and the pins of its references. -/
  counts : ∀ i, (s.tables.mounts i).ops = true →
    (s.tables.mounts i).activeRefs =
      inFlight s.tasks (s.tables.mounts i) + pinned s.tables (s.tables.mounts i)
  /-- No unmount takes away a mount that is in use. -/
  kept : ∀ norm i, (s.tables.mounts i).ops = true →
    0 < inFlight s.tasks (s.tables.mounts i) + pinned s.tables (s.tables.mounts i) →
    (s.tables.vfsUnmount norm).mounts i = s.tables.mounts i
  /-- What an operation in flight works on is the mount it got. -/
  running : ∀ idx serial, .running idx serial ∈ s.tasks →
    (s.tables.mounts idx).ops = true ∧ (s.tables.mounts idx).serial = serial
  /-- The mount of a pinned reference is there. -/
  pins : ∀ p, (s.tables.refPins p).used = true →
    ∃ i, (s.tables.mounts i).ops = true ∧ IsRefTo (s.tables.mounts i) (s.tables.refPins p).ref
  /-- A reference gets to the mount it was taken on or to none. -/
  taken : ∀ ref serial, (ref, serial) ∈ s.taken → ∀ i, s.tables.mountByFsId ref = some i →
    (s.tables.mounts i).serial = serial

/-- The slot of a mount whose count a step raises. -/
def acquires (s : VfsSystem) : VfsEvent → Option (Fin vfsMaxMounts)
  | .useRef ref => s.tables.mountByFsId ref
  | .retain ref => if ref.inode = 0 then none else s.tables.mountByFsId ref
  | .advance k =>
    match s.tasks[k]? with
    | some (.routed idx generation) => s.tables.mountAcquireIndex idx generation
    | _ => none
  | _ => none

/-- A step that raises a count starts with one that is not at its largest value. -/
def CountFits (s : VfsSystem) (e : VfsEvent) : Prop :=
  ∀ i, acquires s e = some i → (s.tables.mounts i).activeRefs ≠ u32Range - 1

/-! ### The numbers of a file system -/

/-- The `k`-th identifier that `alloc_fs_id` tries. -/
def nthFsId (next k : Nat) : Nat := (next - 1 + k) % (u32Range - 1) + 1

private theorem bump_eq (h0 : 0 < next) (hlt : next < u32Range) : bump next = nthFsId next 1 := by
  rw [bump, nthFsId]
  rw [u32Range] at hlt ⊢
  by_cases hlast : next + 1 = 2 ^ 32
  · rw [if_pos (by omega)]
    omega
  · rw [if_neg (by omega)]
    omega

private theorem nthFsId_zero (h0 : 0 < next) (hlt : next < u32Range) : nthFsId next 0 = next := by
  simp only [nthFsId, u32Range] at hlt ⊢
  omega

private theorem nthFsId_pos (next k : Nat) : 0 < nthFsId next k := succ_pos _

private theorem nthFsId_lt (next k : Nat) : nthFsId next k < u32Range := by
  simp only [nthFsId, u32Range]
  omega

private theorem nthFsId_bump (k : Nat) (h0 : 0 < next) (hlt : next < u32Range) :
    nthFsId (bump next) k = nthFsId next (k + 1) := by
  rw [bump_eq h0 hlt]
  simp only [nthFsId, u32Range] at hlt ⊢
  omega

private theorem eq_of_nthFsId_eq {j k : Nat} (hj : j < 17) (hk : k < 17)
    (h : nthFsId next j = nthFsId next k) :
    j = k := by
  simp only [nthFsId, u32Range] at h
  omega

private theorem findSlot_some {α : Type} {table : Fin n → α} {p : α → Bool} {i : Fin n}
    (h : findSlot table p = some i) : p (table i) = true := by
  rw [findSlot] at h
  exact List.find?_some (p := fun i => p (table i)) h

private theorem findSlot_none {α : Type} {table : Fin n → α} {p : α → Bool}
    (h : findSlot table p = none) (i : Fin n) : p (table i) = false := by
  rw [findSlot] at h
  exact Bool.eq_false_iff.mpr (List.find?_eq_none.mp h i (List.mem_finRange i))

private theorem findMount_some {t : VfsTables} {p : Mount → Bool} {i : Fin vfsMaxMounts}
    (h : t.findMount p = some i) : p (t.mounts i) = true :=
  findSlot_some h

/-- The loop ends with a next identifier to try, and without one for the mount only if all are in
use. -/
theorem allocFsIdLoop_spec (t : VfsTables) (tries : Nat) (h0 : 0 < next) (hlt : next < u32Range) :
    0 < (allocFsIdLoop t tries next).2 ∧ (allocFsIdLoop t tries next).2 < u32Range ∧
      ((allocFsIdLoop t tries next).1 = 0 → ∀ k < tries, t.fsIdInUse (nthFsId next k) = true) := by
  induction tries generalizing next with
  | zero => exact ⟨h0, hlt, fun _ k hk => absurd hk (not_lt_zero k)⟩
  | succ tries ih =>
    have hb0 : 0 < bump next := by
      rw [bump_eq h0 hlt]
      exact nthFsId_pos next 1
    have hblt : bump next < u32Range := by
      rw [bump_eq h0 hlt]
      exact nthFsId_lt next 1
    rw [allocFsIdLoop]
    by_cases huse : t.fsIdInUse next = true
    · rw [if_pos huse]
      obtain ⟨hpos, hbound, hall⟩ := ih hb0 hblt
      refine ⟨hpos, hbound, fun hzero k hk => ?_⟩
      cases k with
      | zero =>
        rw [nthFsId_zero h0 hlt]
        exact huse
      | succ k =>
        rw [← nthFsId_bump k h0 hlt]
        exact hall hzero k (lt_of_succ_lt_succ hk)
    · rw [if_neg huse]
      exact ⟨hb0, hblt, fun hzero => absurd hzero (pos_iff_ne_zero.mp h0)⟩

/-- There are fewer mounts than identifiers, so `alloc_fs_id` finds one. -/
theorem allocFsId_ne_zero {t : VfsTables} (h0 : 0 < t.nextFsId) (hlt : t.nextFsId < u32Range) :
    t.allocFsId.1 ≠ 0 := by
  intro hzero
  have hall := (allocFsIdLoop_spec t (u32Range - 1) h0 hlt).2.2 hzero
  -- each of the first 17 identifiers has a slot of its own
  have hslot : ∀ k : Fin 17, ∃ i, (t.mounts i).fsId = nthFsId t.nextFsId k := by
    intro k
    have huse := hall k (lt_trans k.isLt (by decide))
    rw [fsIdInUse, Bool.or_eq_true, decide_eq_true_eq] at huse
    rcases huse with huse | huse
    · exact absurd huse (pos_iff_ne_zero.mp (nthFsId_pos _ _))
    obtain ⟨i, hi⟩ := Option.isSome_iff_exists.mp huse
    have hm := findMount_some hi
    rw [Bool.and_eq_true, decide_eq_true_eq] at hm
    exact ⟨i, hm.2⟩
  choose slot hslot using hslot
  obtain ⟨j, k, hne, heq⟩ := Fintype.exists_ne_map_eq_of_card_lt slot
    (by rw [Fintype.card_fin, Fintype.card_fin]; decide)
  have hid : nthFsId t.nextFsId j = nthFsId t.nextFsId k := by rw [← hslot j, ← hslot k, heq]
  exact hne (Fin.ext (eq_of_nthFsId_eq j.isLt k.isLt hid))

/-! ### The invariant -/

/-- A mount of the reference is there. -/
def HasMount (t : VfsTables) (ref : NodeRef) : Prop :=
  ∃ i, (t.mounts i).ops = true ∧ IsRefTo (t.mounts i) ref

/-- What the task uses is there. -/
def Task.Held (t : VfsTables) : Task → Prop
  | running idx serial => (t.mounts idx).ops = true ∧ (t.mounts idx).serial = serial
  | pinning ref => HasMount t ref
  | unpinning ref => HasMount t ref
  | _ => True

/-- A mount in its slot: its generation is the number of the mount. -/
structure Live (mounted : Nat) (m : Mount) : Prop where
  unmounting : m.unmounting = false
  generation : m.generation = m.serial + 1
  fsId : m.fsId ≠ 0
  serial : m.serial < mounted

/-- What holds in every state of a run. -/
structure MountsInv (t : VfsTables) (tasks : List Task) : Prop where
  live : ∀ i, (t.mounts i).ops = true → Live t.mounted (t.mounts i)
  distinct : ∀ i j, (t.mounts i).ops = true → (t.mounts j).ops = true →
    (t.mounts i).serial = (t.mounts j).serial → i = j
  nextGeneration : t.mounted + 1 < u32Range → t.nextMountGeneration = t.mounted + 1
  nextFsId : 0 < t.nextFsId ∧ t.nextFsId < u32Range
  small : ∀ i, (t.mounts i).activeRefs < u32Range
  counts : ∀ i, (t.mounts i).ops = true →
    (t.mounts i).activeRefs = inFlight tasks (t.mounts i) + pinned t (t.mounts i)
  held : ∀ task ∈ tasks, task.Held t
  pins : ∀ p, (t.refPins p).used = true → HasMount t (t.refPins p).ref ∧ 0 < (t.refPins p).refs

theorem inFlight_cons (task : Task) (tasks : List Task) (m : Mount) :
    inFlight (task :: tasks) m = inFlight tasks m + if task.On m then 1 else 0 := by
  simp only [inFlight, List.countP_cons, decide_eq_true_eq]

private theorem inFlight_pos {task : Task} {tasks : List Task} {m : Mount} (hmem : task ∈ tasks)
    (hon : task.On m) :
    0 < inFlight tasks m :=
  List.countP_pos_iff.mpr ⟨task, hmem, decide_eq_true hon⟩

private theorem on_activeRefs (m : Mount) (n : Nat) (task : Task) :
    task.On { m with activeRefs := n } ↔ task.On m := by
  cases task <;> rfl

theorem inFlight_activeRefs (tasks : List Task) (m : Mount) (n : Nat) :
    inFlight tasks { m with activeRefs := n } = inFlight tasks m :=
  List.countP_congr fun task _ => by simp only [on_activeRefs]

private theorem pinned_setPin (t : VfsTables) (p : Fin vfsMaxPinnedRefs) (x : RefPin) (m : Mount) :
    pinned (t.setPin p x) m + pinWeight m (t.refPins p) = pinned t m + pinWeight m x := by
  have hupdate : ∀ q, pinWeight m ((t.setPin p x).refPins q)
      = update (fun q => pinWeight m (t.refPins q)) p (pinWeight m x) q := by
    intro q
    by_cases hq : q = p
    · subst hq
      simp only [setPin, update_self]
    · simp only [setPin, update_of_ne hq]
  rw [pinned, sum_congr rfl fun q _ => hupdate q, sum_update_of_mem (mem_univ p),
    pinned, sum_eq_add_sum_sdiff_singleton_of_mem (mem_univ p)]
  omega

/-- One pin is at most all of them. -/
theorem pinWeight_le_pinned (t : VfsTables) (m : Mount) (p : Fin vfsMaxPinnedRefs) :
    pinWeight m (t.refPins p) ≤ pinned t m :=
  single_le_sum (f := fun q => pinWeight m (t.refPins q)) (fun _ _ => zero_le _) (mem_univ p)

namespace MountsInv

variable {t : VfsTables} {tasks tasks' : List Task} {i : Fin vfsMaxMounts} {ref : NodeRef}

theorem perm (h : MountsInv t tasks) (hperm : tasks.Perm tasks') : MountsInv t tasks' where
  __ := h
  counts := fun i hi => by rw [h.counts i hi, inFlight, inFlight, hperm.countP_eq]
  held := fun task hmem => h.held task (hperm.mem_iff.mpr hmem)

section

variable (h : MountsInv t tasks) (hi : (t.mounts i).ops = true)
include h hi

/-- A reference is one to a single mount. -/
theorem eq_of_isRefTo {j : Fin vfsMaxMounts} (hj : (t.mounts j).ops = true)
    (hri : IsRefTo (t.mounts i) ref) (hrj : IsRefTo (t.mounts j) ref) : i = j := by
  refine h.distinct i j hi hj ?_
  have hgi := (h.live i hi).generation
  have hgj := (h.live j hj).generation
  have heq := hri.2.symm.trans hrj.2
  omega

/-- Of the tasks and pins only the count of one mount changes. -/
theorem recount (hn : n < u32Range) (hheld : ∀ task ∈ tasks', task.Held t)
    (hcount : n = inFlight tasks' (t.mounts i) + pinned t (t.mounts i))
    (hother : ∀ j, j ≠ i → (t.mounts j).ops = true →
      inFlight tasks' (t.mounts j) = inFlight tasks (t.mounts j)) :
    MountsInv (t.setMount i { t.mounts i with activeRefs := n }) tasks' := by
  set t' := t.setMount i { t.mounts i with activeRefs := n }
  have hself : t'.mounts i = { t.mounts i with activeRefs := n } := update_self ..
  have hne : ∀ j, j ≠ i → t'.mounts j = t.mounts j := fun j hj => update_of_ne hj ..
  -- what the statements read of a mount is as it was
  have hsame : ∀ j, ∃ refs, t'.mounts j = { t.mounts j with activeRefs := refs } := by
    intro j
    by_cases hj : j = i
    · subst hj
      exact ⟨n, hself⟩
    · exact ⟨_, hne j hj⟩
  have hops : ∀ j, (t'.mounts j).ops = (t.mounts j).ops := by
    intro j
    obtain ⟨refs, heq⟩ := hsame j
    rw [heq]
  have hserial : ∀ j, (t'.mounts j).serial = (t.mounts j).serial := by
    intro j
    obtain ⟨refs, heq⟩ := hsame j
    rw [heq]
  have hmount : ∀ ref, HasMount t ref → HasMount t' ref := by
    rintro ref ⟨j, hj, href⟩
    obtain ⟨refs, heq⟩ := hsame j
    refine ⟨j, (hops j).trans hj, ?_⟩
    rw [heq]
    exact href
  refine ⟨fun j hj => ?_, fun j k hj hk heq => ?_, h.nextGeneration, h.nextFsId, fun j => ?_,
    fun j hj => ?_, fun task hmem => ?_, fun p hp => ⟨hmount _ (h.pins p hp).1, (h.pins p hp).2⟩⟩
  · have hlive := h.live j ((hops j).symm.trans hj)
    obtain ⟨refs, heq⟩ := hsame j
    rw [heq]
    exact ⟨hlive.unmounting, hlive.generation, hlive.fsId, hlive.serial⟩
  · rw [hops] at hj hk
    rw [hserial, hserial] at heq
    exact h.distinct j k hj hk heq
  · by_cases hji : j = i
    · subst hji
      rw [hself]
      exact hn
    · rw [hne j hji]
      exact h.small j
  · rw [hops] at hj
    by_cases hji : j = i
    · subst hji
      rw [hself, inFlight_activeRefs]
      exact hcount
    · rw [hne j hji, hother j hji hj]
      exact h.counts j hj
  · have htask := hheld task hmem
    cases task with
    | checking _ _ => trivial
    | routed _ _ => trivial
    | running idx serial => exact ⟨(hops idx).trans htask.1, (hserial idx).trans htask.2⟩
    | pinning ref => exact hmount ref htask
    | unpinning ref => exact hmount ref htask

/-- A task that is on a single mount starts. -/
theorem retainMount (hfits : (t.mounts i).activeRefs ≠ u32Range - 1) {task : Task}
    (hheld : task.Held t) (hon : ∀ j, (t.mounts j).ops = true → (task.On (t.mounts j) ↔ j = i)) :
    MountsInv (t.retainMount i) (task :: tasks) := by
  have hsmall := h.small i
  have hlt : (t.mounts i).activeRefs + 1 < u32Range := by
    omega
  rw [VfsTables.retainMount, mod_eq_of_lt hlt]
  refine h.recount hi hlt ?_ ?_ ?_
  · intro x hx
    rcases List.mem_cons.mp hx with rfl | hx
    · exact hheld
    · exact h.held x hx
  · rw [inFlight_cons, if_pos ((hon i hi).mpr rfl), h.counts i hi]
    omega
  · intro j hj hops
    rw [inFlight_cons, if_neg (fun hx => hj ((hon j hops).mp hx)), add_zero]

end

/-- A task that is on a single mount ends. -/
theorem dropMount {task : Task} (h : MountsInv t (task :: tasks)) (hi : (t.mounts i).ops = true)
    (hon : ∀ j, (t.mounts j).ops = true → (task.On (t.mounts j) ↔ j = i)) :
    MountsInv (t.dropMount i) tasks := by
  have hcount := h.counts i hi
  rw [inFlight_cons, if_pos ((hon i hi).mpr rfl)] at hcount
  refine h.recount hi (lt_of_le_of_lt (sub_le _ _) (h.small i)) ?_ ?_ ?_
  · exact fun x hx => h.held x (List.mem_cons_of_mem _ hx)
  · omega
  · intro j hj hops
    rw [inFlight_cons, if_neg (fun hx => hj ((hon j hops).mp hx)), add_zero]

/-- A task of another kind changes nothing. -/
theorem retask (h : MountsInv t tasks) (hheld : ∀ task ∈ tasks', task.Held t)
    (hcount : ∀ i, (t.mounts i).ops = true →
      inFlight tasks' (t.mounts i) = inFlight tasks (t.mounts i)) : MountsInv t tasks' where
  __ := h
  counts := fun i hi => by rw [hcount i hi, h.counts i hi]
  held := hheld

/-- One pin changes, and the tasks with it. -/
theorem repin (h : MountsInv t tasks) {p : Fin vfsMaxPinnedRefs} {x : RefPin}
    (hheld : ∀ task ∈ tasks', task.Held t) (hx : x.used = true → HasMount t x.ref ∧ 0 < x.refs)
    (hcount : ∀ m : Mount,
      inFlight tasks' m + pinWeight m x = inFlight tasks m + pinWeight m (t.refPins p)) :
    MountsInv (t.setPin p x) tasks' := by
  refine ⟨h.live, h.distinct, h.nextGeneration, h.nextFsId, h.small, fun i hi => ?_, hheld,
    fun q hq => ?_⟩
  · have hsum := pinned_setPin t p x (t.mounts i)
    have htask := hcount (t.mounts i)
    have hold := h.counts i hi
    change (t.mounts i).activeRefs =
      inFlight tasks' (t.mounts i) + pinned (t.setPin p x) (t.mounts i)
    omega
  · by_cases hqp : q = p
    · subst hqp
      simp only [setPin, update_self] at hq ⊢
      exact hx hq
    · simp only [setPin, update_of_ne hqp] at hq ⊢
      exact h.pins q hq

end MountsInv

/-! ### Mounts come and go -/

/-- An unmount does nothing or takes away a mount with count 0. -/
theorem vfsUnmount_cases (t : VfsTables) (norm : List UInt8) :
    t.vfsUnmount norm = t ∨ ∃ idx, (t.mounts idx).ops = true ∧ (t.mounts idx).activeRefs = 0 ∧
      t.vfsUnmount norm = t.setMount idx Mount.cleared := by
  rw [vfsUnmount]
  by_cases hroot : norm = [Native.Path.slash]
  · exact .inl (if_pos hroot)
  rw [if_neg hroot]
  cases hfind : t.findMount fun m => m.ops && !m.unmounting && m.path = norm with
  | none => exact .inl rfl
  | some idx =>
    dsimp only
    split
    · exact .inl rfl
    split
    · exact .inl rfl
    rename_i _ hrefs
    have hm := findMount_some hfind
    simp only [Bool.and_eq_true] at hm
    exact .inr ⟨idx, hm.1.1, not_not.mp hrefs, rfl⟩

/-- A mount does nothing or takes a slot that is not in use, with the next generation. -/
theorem vfsMount_cases (t : VfsTables) (norm : List UInt8) :
    t.vfsMount norm = t ∨ ∃ i, (t.mounts i).ops = false ∧ t.vfsMount norm =
      (if t.allocFsId.1 = 0 ∨ (allocMountGeneration t.nextMountGeneration).1 = 0 then
        { t with
          nextFsId := t.allocFsId.2
          nextMountGeneration := (allocMountGeneration t.nextMountGeneration).2
        }.setMount i Mount.cleared
      else
        { t.setMount i
            ⟨true, false, norm, t.allocFsId.1, (allocMountGeneration t.nextMountGeneration).1, 0,
              t.mounted⟩ with
          nextFsId := t.allocFsId.2,
          nextMountGeneration := (allocMountGeneration t.nextMountGeneration).2,
          mounted := t.mounted + 1 }) := by
  rw [vfsMount]
  cases t.findMount fun m => m.ops && !m.unmounting && m.path = norm with
  | some _ => exact .inl rfl
  | none =>
    cases hfree : t.findMount fun m => !m.ops && m.activeRefs = 0 with
    | none => exact .inl rfl
    | some i =>
      have hm := findMount_some hfree
      simp only [Bool.and_eq_true, Bool.not_eq_true'] at hm
      exact .inr ⟨i, hm.1, rfl⟩

private theorem allocMountGeneration_ne_zero (next : Nat) : (allocMountGeneration next).1 ≠ 0 := by
  rw [allocMountGeneration]
  split
  · exact one_ne_zero
  · assumption

namespace MountsInv

variable {t : VfsTables} {tasks : List Task} {norm : List UInt8}

/-- A mount that nobody uses goes. -/
theorem vfsUnmount (h : MountsInv t tasks) : MountsInv (t.vfsUnmount norm) tasks := by
  rcases vfsUnmount_cases t norm with heq | ⟨idx, hidx, hzero, heq⟩
  · rw [heq]
    exact h
  rw [heq]
  have hself : (t.setMount idx Mount.cleared).mounts idx = Mount.cleared := update_self ..
  have hne : ∀ j, j ≠ idx → (t.setMount idx Mount.cleared).mounts j = t.mounts j :=
    fun j hj => update_of_ne hj ..
  -- whoever uses a mount uses another one
  have hload := h.counts idx hidx
  have hout : ∀ j, ((t.setMount idx Mount.cleared).mounts j).ops = true → j ≠ idx := by
    rintro j hj rfl
    rw [hself] at hj
    exact absurd hj (by decide)
  have hmount : ∀ ref, HasMount t ref → ¬IsRefTo (t.mounts idx) ref →
      HasMount (t.setMount idx Mount.cleared) ref := by
    rintro ref ⟨j, hj, href⟩ hnot
    have hji : j ≠ idx := by
      rintro rfl
      exact hnot href
    exact ⟨j, by rwa [hne j hji], by rwa [hne j hji]⟩
  have hfree : ∀ task ∈ tasks, ¬task.On (t.mounts idx) := by
    intro task hmem hon
    have hpos := inFlight_pos hmem hon
    omega
  refine ⟨fun j hj => ?_, fun j k hj hk hs => ?_, h.nextGeneration, h.nextFsId, fun j => ?_,
    fun j hj => ?_, fun task hmem => ?_, fun p hp => ?_⟩
  · have hji := hout j hj
    rw [hne j hji] at hj ⊢
    exact h.live j hj
  · have hji := hout j hj
    have hki := hout k hk
    rw [hne j hji] at hj hs
    rw [hne k hki] at hk hs
    exact h.distinct j k hj hk hs
  · by_cases hji : j = idx
    · subst hji
      rw [hself]
      decide
    · rw [hne j hji]
      exact h.small j
  · have hji := hout j hj
    rw [hne j hji] at hj ⊢
    exact h.counts j hj
  · have htask := h.held task hmem
    have hnot := hfree task hmem
    cases task with
    | checking _ _ => trivial
    | routed _ _ => trivial
    | running i serial =>
      have hji : i ≠ idx := by
        rintro rfl
        exact hnot htask.2.symm
      exact ⟨by rw [hne i hji]; exact htask.1, by rw [hne i hji]; exact htask.2⟩
    | pinning ref => exact hmount ref htask hnot
    | unpinning ref => exact hmount ref htask hnot
  · obtain ⟨hhas, hpos⟩ := h.pins p hp
    refine ⟨hmount _ hhas fun href => ?_, hpos⟩
    have hweight := pinWeight_le_pinned t (t.mounts idx) p
    rw [pinWeight, if_pos ⟨hp, href⟩] at hweight
    omega

/-- A new mount takes its slot; nobody has a reference to it. -/
theorem vfsMount (h : MountsInv t tasks) (hfew : (t.vfsMount norm).mounted < u32Range) :
    MountsInv (t.vfsMount norm) tasks := by
  rcases vfsMount_cases t norm with heq | ⟨i, hi, heq⟩
  · rw [heq]
    exact h
  have hfs := allocFsId_ne_zero h.nextFsId.1 h.nextFsId.2
  rw [if_neg (not_or.mpr ⟨hfs, allocMountGeneration_ne_zero _⟩)] at heq
  rw [heq] at hfew ⊢
  have hnext := h.nextGeneration hfew
  have hgen : allocMountGeneration t.nextMountGeneration =
      (t.mounted + 1, bump (t.mounted + 1)) := by
    rw [hnext, allocMountGeneration, if_neg (succ_ne_zero _)]
  rw [hgen]
  obtain ⟨m, hm⟩ : ∃ m : Mount,
      m = ⟨true, false, norm, t.allocFsId.1, t.mounted + 1, 0, t.mounted⟩ := ⟨_, rfl⟩
  rw [← hm]
  obtain ⟨t', ht'⟩ : ∃ t' : VfsTables, t' = { t.setMount i m with
    nextFsId := t.allocFsId.2
    nextMountGeneration := bump (t.mounted + 1)
    mounted := t.mounted + 1 } := ⟨_, rfl⟩
  rw [← ht']
  have hself : t'.mounts i = m := by
    rw [ht']
    exact update_self ..
  have hne : ∀ j, j ≠ i → t'.mounts j = t.mounts j := by
    intro j hj
    rw [ht']
    exact update_of_ne hj ..
  have hold : ∀ j, (t.mounts j).ops = true → j ≠ i := by
    rintro j hj rfl
    exact absurd (hj.symm.trans hi) (by decide)
  have hmount : ∀ ref, HasMount t ref → HasMount t' ref ∧ ¬IsRefTo m ref := by
    rintro ref ⟨j, hj, href⟩
    refine ⟨⟨j, by rwa [hne j (hold j hj)], by rwa [hne j (hold j hj)]⟩, fun hnew => ?_⟩
    have hlive := h.live j hj
    have hg := href.2.symm.trans hnew.2
    rw [hlive.generation, hm] at hg
    exact Nat.ne_of_lt hlive.serial (succ.inj hg)
  have hpins : pinned t' = pinned t := by rw [ht']; rfl
  have hnoPin : pinned t m = 0 := by
    refine sum_eq_zero fun p _ => ?_
    refine if_neg fun hp => ?_
    exact (hmount _ (h.pins p hp.1).1).2 hp.2
  have hnoTask : inFlight tasks m = 0 := by
    refine List.countP_eq_zero.mpr fun task hmem hon => ?_
    have htask := h.held task hmem
    have hon := of_decide_eq_true hon
    cases task with
    | checking _ _ => exact hon
    | routed _ _ => exact hon
    | running j serial =>
      have hlt := (h.live j htask.1).serial
      rw [Task.On, hm] at hon
      rw [htask.2, hon] at hlt
      exact lt_irrefl _ hlt
    | pinning ref => exact (hmount ref htask).2 hon
    | unpinning ref => exact (hmount ref htask).2 hon
  refine ⟨fun j hj => ?_, fun j k hj hk hs => ?_, fun hlt => ?_, ?_, fun j => ?_, fun j hj => ?_,
    fun task hmem => ?_, fun p hp => ?_⟩
  · by_cases hji : j = i
    · subst hji
      rw [hself, hm, ht']
      exact ⟨rfl, rfl, hfs, lt_succ_self _⟩
    rw [hne j hji] at hj ⊢
    have hlive := h.live j hj
    rw [ht']
    exact { hlive with serial := lt_succ_of_lt hlive.serial }
  · -- the number of the new mount is larger than those of the others
    by_cases hji : j = i
    · by_cases hki : k = i
      · rw [hji, hki]
      rw [hji, hself, hne k hki, hm] at hs
      rw [hne k hki] at hk
      exact absurd hs.symm (Nat.ne_of_lt (h.live k hk).serial)
    rw [hne j hji] at hj hs
    by_cases hki : k = i
    · rw [hki, hself, hm] at hs
      exact absurd hs (Nat.ne_of_lt (h.live j hj).serial)
    · rw [hne k hki] at hk hs
      exact h.distinct j k hj hk hs
  · rw [ht'] at hlt ⊢
    rw [bump, mod_eq_of_lt hlt, if_neg (succ_ne_zero _)]
  · have hspec := allocFsIdLoop_spec t (u32Range - 1) h.nextFsId.1 h.nextFsId.2
    rw [ht']
    exact ⟨hspec.1, hspec.2.1⟩
  · by_cases hji : j = i
    · subst hji
      rw [hself, hm]
      exact Nat.two_pow_pos 32
    · rw [hne j hji]
      exact h.small j
  · rw [hpins]
    by_cases hji : j = i
    · subst hji
      rw [hself, hnoTask, hnoPin, hm]
    · rw [hne j hji] at hj ⊢
      exact h.counts j hj
  · have htask := h.held task hmem
    cases task with
    | checking _ _ => trivial
    | routed _ _ => trivial
    | running j serial =>
      have hji := hold j htask.1
      exact ⟨by rw [hne j hji]; exact htask.1, by rw [hne j hji]; exact htask.2⟩
    | pinning ref => exact (hmount ref htask).1
    | unpinning ref => exact (hmount ref htask).1
  · have hp' : (t.refPins p).used = true := by
      rw [ht'] at hp
      exact hp
    have hpin : t'.refPins p = t.refPins p := by rw [ht']; rfl
    rw [hpin]
    exact ⟨(hmount _ (h.pins p hp').1).1, (h.pins p hp').2⟩

end MountsInv

/-! ### References and pins -/

variable {ref : NodeRef} {t : VfsTables}

/-- A mount that is found has the id. -/
theorem mountByFsId_some {i : Fin vfsMaxMounts}
    (h : t.mountByFsId ref = some i) : (t.mounts i).ops = true ∧ IsRefTo (t.mounts i) ref := by
  rw [mountByFsId] at h
  split at h
  · exact nomatch h
  have hm := findMount_some h
  simp only [Bool.and_eq_true, decide_eq_true_eq] at hm
  exact ⟨hm.1.1.1, hm.1.2.symm, hm.2.symm⟩

theorem mountAcquireIndex_some {idx i : Fin vfsMaxMounts} {generation : Nat}
    (h : t.mountAcquireIndex idx generation = some i) : i = idx ∧ (t.mounts i).ops = true := by
  rw [mountAcquireIndex] at h
  split at h
  · exact nomatch h
  split at h
  · rename_i hvalid
    obtain rfl := Option.some.inj h
    rw [routeValid] at hvalid
    simp only [Bool.and_eq_true] at hvalid
    exact ⟨rfl, hvalid.1.1⟩
  · exact nomatch h

private theorem findPin_some {p : Fin vfsMaxPinnedRefs} (h : t.findPin ref = some p) :
    (t.refPins p).used = true ∧ (t.refPins p).ref = ref := by
  have hp := findSlot_some h
  simpa using hp

/-- A pin is not recorded, it is counted once more, or it is new. -/
theorem recordPin_cases (t : VfsTables) (ref : NodeRef) : t.recordPin ref = (false, t) ∨
      (∃ p, (t.refPins p).used = true ∧ (t.refPins p).ref = ref ∧
        t.recordPin ref = (true, t.setPin p { t.refPins p with refs := (t.refPins p).refs + 1 })) ∨
      ∃ p, (t.refPins p).used = false ∧ t.recordPin ref = (true, t.setPin p ⟨true, ref, 1⟩) := by
  rw [recordPin]
  cases hfind : t.findPin ref with
  | some p =>
    obtain ⟨hused, href⟩ := findPin_some hfind
    by_cases hmax : (t.refPins p).refs = u32Range - 1
    · exact .inl (if_pos hmax)
    · exact .inr (.inl ⟨p, hused, href, if_neg hmax⟩)
  | none =>
    cases hfree : findSlot t.refPins fun p => !p.used with
    | none => exact .inl rfl
    | some p => exact .inr (.inr ⟨p, by simpa using findSlot_some hfree, rfl⟩)

private theorem pinWeight_used (m : Mount) (ref : NodeRef) (n : Nat) :
    pinWeight m ⟨true, ref, n⟩ = if IsRefTo m ref then n else 0 := by
  simp only [pinWeight, true_and]

private theorem pinWeight_unused (m : Mount) {p : RefPin} (h : p.used = false) :
    pinWeight m p = 0 :=
  if_neg fun hp => absurd (h.symm.trans hp.1) (by decide)

private theorem refPin_eq {p : RefPin} (hused : p.used = true) (href : p.ref = ref) :
    p = ⟨true, ref, p.refs⟩ := by
  rw [← hused, ← href]

namespace MountsInv

variable {t : VfsTables} {tasks : List Task} {i : Fin vfsMaxMounts} {ref : NodeRef}

section

variable (h : MountsInv t tasks) (hi : (t.mounts i).ops = true) {j : Fin vfsMaxMounts}
include h hi

private theorem isRefTo_iff (href : IsRefTo (t.mounts i) ref)
    (hj : (t.mounts j).ops = true) : IsRefTo (t.mounts j) ref ↔ j = i := by
  constructor
  · intro hrj
    exact h.eq_of_isRefTo hj hi hrj href
  · rintro rfl
    exact href

private theorem serial_iff (hj : (t.mounts j).ops = true) :
    (t.mounts i).serial = (t.mounts j).serial ↔ j = i := by
  constructor
  · intro hs
    exact (h.distinct i j hi hj hs).symm
  · rintro rfl
    rfl

/-- An operation gets the mount in slot `i`. -/
theorem acquire (hfits : (t.mounts i).activeRefs ≠ u32Range - 1) :
    MountsInv (t.retainMount i) (.running i (t.mounts i).serial :: tasks) :=
  h.retainMount hi hfits ⟨hi, rfl⟩ fun _ hj => h.serial_iff hi hj

end

/-- The first half of `vfs_retain_ref`. -/
theorem retain (h : MountsInv t tasks) (hi : t.mountByFsId ref = some i)
    (hfits : (t.mounts i).activeRefs ≠ u32Range - 1) :
    MountsInv (t.retainMount i) (.pinning ref :: tasks) := by
  obtain ⟨hops, href⟩ := mountByFsId_some hi
  exact h.retainMount hops hfits ⟨i, hops, href⟩ fun _ hj => h.isRefTo_iff hops href hj

/-- `mount_release`. -/
theorem release {serial : Nat} (h : MountsInv t (.running i serial :: tasks)) :
    MountsInv (t.dropMount i) tasks := by
  obtain ⟨hops, rfl⟩ := h.held _ List.mem_cons_self
  exact h.dropMount hops fun _ hj => h.serial_iff hops hj

/-- `mount_release_by_fs_id` finds the mount of the reference. -/
theorem mountReleaseByFsId_eq (h : MountsInv t tasks) (hops : (t.mounts i).ops = true)
    (href : IsRefTo (t.mounts i) ref) : t.mountReleaseByFsId ref = t.dropMount i := by
  have hlive := h.live i hops
  have hzero : ¬(ref.fsId = 0 ∨ ref.generation = 0) := by
    rw [href.1, href.2, hlive.generation, not_or]
    exact ⟨hlive.fsId, succ_ne_zero _⟩
  rw [VfsTables.mountReleaseByFsId, if_neg hzero]
  cases hfind : t.findMount fun m => m.ops && m.fsId = ref.fsId &&
    m.generation = ref.generation with
  | none =>
    have hnone := findSlot_none hfind i
    simp only [hops, ← href.1, ← href.2, decide_true, Bool.and_self] at hnone
    exact nomatch hnone
  | some j =>
    have hj := findMount_some hfind
    simp only [Bool.and_eq_true, decide_eq_true_eq] at hj
    rw [h.eq_of_isRefTo hj.1.1 hops ⟨hj.1.2.symm, hj.2.symm⟩ href]

/-- A release takes one reference from its mount. -/
theorem mountReleaseByFsId (h : MountsInv t (.unpinning ref :: tasks)) :
    MountsInv (t.mountReleaseByFsId ref) tasks := by
  obtain ⟨i, hops, href⟩ := h.held _ List.mem_cons_self
  rw [h.mountReleaseByFsId_eq hops href]
  exact h.dropMount hops fun _ hj => h.isRefTo_iff hops href hj

/-- The second half of `vfs_retain_ref`: the pin counts what the task did, or the task goes on to
release. -/
theorem recordPin (h : MountsInv t (.pinning ref :: tasks)) :
    MountsInv ((Task.pinning ref).advance t).1 (((Task.pinning ref).advance t).2 ++ tasks) := by
  have hhas : HasMount t ref := h.held _ List.mem_cons_self
  have hrest : ∀ task ∈ tasks, task.Held t := fun x hx => h.held x (List.mem_cons_of_mem _ hx)
  have hfail : MountsInv t (.unpinning ref :: tasks) := by
    refine h.retask (fun x hx => ?_) (fun j _ => ?_)
    · rcases List.mem_cons.mp hx with rfl | hx
      · exact hhas
      · exact hrest x hx
    · rfl
  rcases recordPin_cases t ref with hrec | ⟨p, hused, href, hrec⟩ | ⟨p, hunused, hrec⟩
  · rw [Task.advance, hrec]
    exact hfail
  · rw [Task.advance, hrec, List.nil_append]
    refine h.repin hrest (fun _ => ⟨href ▸ hhas, succ_pos _⟩) fun m => ?_
    rw [refPin_eq hused href, pinWeight_used, pinWeight_used, inFlight_cons]
    change _ = inFlight tasks m + (if IsRefTo m ref then 1 else 0) + _
    by_cases hm : IsRefTo m ref
    · simp only [if_pos hm]
      omega
    · simp only [if_neg hm]
  · rw [Task.advance, hrec, List.nil_append]
    refine h.repin hrest (fun _ => ⟨hhas, one_pos⟩) fun m => ?_
    rw [pinWeight_used, pinWeight_unused m hunused, inFlight_cons]
    rfl

/-- The first half of `vfs_release_ref`. -/
theorem erasePin (h : MountsInv t tasks) {t' : VfsTables} (herase : t.erasePin ref = (true, t')) :
    MountsInv t' (.unpinning ref :: tasks) := by
  rw [VfsTables.erasePin] at herase
  cases hfind : t.findPin ref with
  | none =>
    rw [hfind] at herase
    exact nomatch herase
  | some p =>
    rw [hfind] at herase
    obtain ⟨hused, href⟩ := findPin_some hfind
    obtain ⟨hhas, hpos⟩ := h.pins p hused
    rw [← (Prod.mk.inj herase).2]
    refine h.repin (fun x hx => ?_) (fun hx => ?_) fun m => ?_
    · rcases List.mem_cons.mp hx with rfl | hx
      · exact href ▸ hhas
      · exact h.held x hx
    · split at hx
      · exact absurd hx (by decide)
      rename_i hne
      rw [if_neg hne]
      exact ⟨hhas, pos_of_ne_zero hne⟩
    · rw [inFlight_cons]
      change inFlight tasks m + (if IsRefTo m ref then 1 else 0) + _ = _
      have hold : pinWeight m (t.refPins p) = if IsRefTo m ref then (t.refPins p).refs else 0 := by
        rw [refPin_eq hused href, pinWeight_used]
      have hnew : pinWeight m (if (t.refPins p).refs - 1 = 0 then RefPin.cleared
          else { t.refPins p with refs := (t.refPins p).refs - 1 })
          = if IsRefTo m ref then (t.refPins p).refs - 1 else 0 := by
        by_cases hlast : (t.refPins p).refs - 1 = 0
        · rw [if_pos hlast, hlast, pinWeight_unused m rfl, ite_self]
        · rw [if_neg hlast, refPin_eq hused href, pinWeight_used]
      rw [hold, hnew]
      by_cases hm : IsRefTo m ref
      · simp only [if_pos hm]
        omega
      · simp only [if_neg hm]

/-- A task takes its next lock. -/
theorem advance {task : Task} (h : MountsInv t (task :: tasks))
    (hfits : ∀ idx generation, task = .routed idx generation →
      ∀ i, t.mountAcquireIndex idx generation = some i → (t.mounts i).activeRefs ≠ u32Range - 1) :
    MountsInv (task.advance t).1 ((task.advance t).2 ++ tasks) := by
  have hrest : ∀ task ∈ tasks, task.Held t := fun x hx => h.held x (List.mem_cons_of_mem _ hx)
  cases task with
  | checking idx generation =>
    rw [Task.advance]
    refine h.retask (fun x hx => ?_) (fun j _ => ?_)
    · split at hx
      · rcases List.mem_cons.mp hx with rfl | hx
        · trivial
        · exact hrest x hx
      · exact hrest x hx
    · split <;> simp only [List.singleton_append, List.nil_append, inFlight_cons] <;> rfl
  | routed idx generation =>
    have hout : MountsInv t tasks := by
      refine h.retask hrest (fun j _ => ?_)
      rfl
    rw [Task.advance]
    cases hacq : t.mountAcquireIndex idx generation with
    | none => exact hout
    | some i => exact hout.acquire (mountAcquireIndex_some hacq).2 (hfits idx generation rfl i hacq)
  | running idx serial => exact h.release
  | pinning ref => exact h.recordPin
  | unpinning ref => exact h.mountReleaseByFsId

end MountsInv

end Rabbitbone.Spec.Vfs
