import Rabbitbone.ForStd.Run
import Rabbitbone.Spec.Vfs.Mounts

/-!
# Runs of mounts and references

In a run with fewer than `2^32` mounts the tables are right about who uses which mount in every
state, exactly if no step raises a count that is at its largest value.  The pins of one node stop at
that value, but those of two nodes of a mount go beyond it: the count of the mount is 0 then, and it
can be unmounted.
-/

namespace Rabbitbone.Spec.Vfs

open Native.Vfs VfsTables Function VfsSystem List Nat

variable {s : VfsSystem} {n : Nat} {t : VfsTables}

/-! ### Runs -/

/-- The tables and the tasks are in order, and a reference has the generation of its mount. -/
structure VfsInv (s : VfsSystem) : Prop where
  mounts : MountsInv s.tables s.tasks
  taken : ∀ ref serial, (ref, serial) ∈ s.taken → ref.generation = serial + 1

private theorem vfsInv_start : VfsInv start where
  mounts := by
    have hops : ∀ i, ¬(start.tables.mounts i).ops = true := fun _ h => nomatch h
    exact {
      live := fun i hi => absurd hi (hops i)
      distinct := fun i _ hi => absurd hi (hops i)
      nextGeneration := fun _ => rfl
      nextFsId := ⟨one_pos, by decide⟩
      small := fun _ => Nat.two_pow_pos 32
      counts := fun i hi => absurd hi (hops i)
      held := fun _ h => nomatch h
      pins := fun _ h => nomatch h }
  taken := fun _ _ h => nomatch h

/-- The invariant says what is to hold. -/
theorem VfsInv.sound (h : VfsInv s) : MountsSound s where
  counts := h.mounts.counts
  kept := by
    intro norm i hi hpos
    rcases vfsUnmount_cases s.tables norm with heq | ⟨idx, hidx, hzero, heq⟩
    · rw [heq]
    have hcount := h.mounts.counts i hi
    have hne : i ≠ idx := by
      rintro rfl
      omega
    rw [heq]
    exact update_of_ne hne ..
  running := fun _ _ hmem => h.mounts.held _ hmem
  pins := fun p hp => (h.mounts.pins p hp).1
  taken := by
    intro ref serial hmem i hi
    obtain ⟨hops, href⟩ := mountByFsId_some hi
    have hgen := (h.mounts.live i hops).generation
    rw [← href.2, h.taken ref serial hmem] at hgen
    exact (succ.inj hgen).symm

/-- A task comes first in its list. -/
theorem perm_of_getElem? {tasks : List Task} {k : Nat} {task : Task} (h : tasks[k]? = some task) :
    tasks.Perm (task :: tasks.eraseIdx k) := by
  obtain ⟨hk, rfl⟩ := List.getElem?_eq_some_iff.mp h
  exact (getElem_cons_eraseIdx_perm hk).symm

/-- A step that does not raise a count at its largest value keeps the invariant. -/
theorem VfsInv.step (h : VfsInv s) (e : VfsEvent) (hfew : (s.step e).tables.mounted < u32Range)
    (hfits : CountFits s e) : VfsInv (s.step e) := by
  cases e with
  | mount norm => exact ⟨h.mounts.vfsMount hfew, h.taken⟩
  | unmount norm => exact ⟨h.mounts.vfsUnmount, h.taken⟩
  | lookup idx check =>
    rw [VfsSystem.step]
    by_cases hactive : ((s.tables.mounts idx).ops && !(s.tables.mounts idx).unmounting) = true
    · rw [if_pos hactive]
      refine ⟨h.mounts.retask (fun x hx => ?_) (fun j _ => ?_), h.taken⟩
      · rcases mem_cons.mp hx with rfl | hx
        · cases check <;> trivial
        · exact h.mounts.held x hx
      · cases check <;> rfl
    · rw [if_neg hactive]
      exact h
  | useRef ref =>
    rw [VfsSystem.step]
    cases hfind : s.tables.mountByFsId ref with
    | none => exact h
    | some i => exact ⟨h.mounts.acquire (mountByFsId_some hfind).1 (hfits i hfind), h.taken⟩
  | retain ref =>
    rw [VfsSystem.step]
    by_cases hinode : ref.inode = 0
    · rw [if_pos hinode]
      exact h
    rw [if_neg hinode]
    cases hfind : s.tables.mountByFsId ref with
    | none => exact h
    | some i =>
      have hacq : acquires s (.retain ref) = some i := by rw [acquires, if_neg hinode, hfind]
      exact ⟨h.mounts.retain hfind (hfits i hacq), h.taken⟩
  | release ref =>
    rw [VfsSystem.step]
    by_cases hzero : ref.inode = 0 ∨ ref.fsId = 0 ∨ ref.generation = 0
    · rw [if_pos hzero]
      exact h
    rw [if_neg hzero]
    cases herase : s.tables.erasePin ref with
    | mk found t =>
      cases found with
      | false => exact h
      | true => exact ⟨h.mounts.erasePin herase, h.taken⟩
  | getRef k fsId inode =>
    rw [VfsSystem.step]
    split
    · rename_i idx serial htask
      have hheld := h.mounts.held _ (mem_of_getElem? htask)
      refine ⟨h.mounts, fun ref n hmem => ?_⟩
      rcases mem_cons.mp hmem with heq | hmem
      · obtain ⟨rfl, rfl⟩ := Prod.mk.inj heq
        rw [← hheld.2]
        exact (h.mounts.live idx hheld.1).generation
      · exact h.taken ref n hmem
    · exact h
  | advance k =>
    rw [VfsSystem.step]
    cases htask : s.tasks[k]? with
    | none => exact h
    | some task =>
      refine ⟨(h.mounts.perm (perm_of_getElem? htask)).advance
        fun idx generation heq i hi => ?_, h.taken⟩
      refine hfits i ?_
      rw [acquires, htask, heq]
      exact hi
  | abandon k =>
    rw [VfsSystem.step]
    split
    · rename_i idx generation htask
      have hheld : ∀ x ∈ s.tasks.eraseIdx k, x.Held s.tables :=
        fun x hx => h.mounts.held x (mem_of_mem_eraseIdx hx)
      -- a lookup that is given up holds no reference yet
      refine ⟨h.mounts.retask hheld fun j _ => ?_, h.taken⟩
      rw [inFlight, inFlight, (perm_of_getElem? htask).countP_eq]
      exact (countP_cons_of_neg (by exact fun hon => of_decide_eq_true hon)).symm
    · exact h

/-- A step at the largest value of a count leaves it at 0, with a task on the mount. -/
theorem not_sound_step {e : VfsEvent} (hfits : ¬CountFits s e) : ¬MountsSound (s.step e) := by
  have hwrap : ∀ {i : Fin vfsMaxMounts} {task : Task} {tasks : List Task}
      {taken : List (NodeRef × Nat)},
      (s.tables.mounts i).ops = true → (s.tables.mounts i).activeRefs = u32Range - 1 →
      task.On (s.tables.mounts i) →
        ¬MountsSound ⟨s.tables.retainMount i, task :: tasks, taken⟩ := by
    intro i task tasks taken hops hlast hon hsound
    have hself : (s.tables.retainMount i).mounts i =
        { s.tables.mounts i with activeRefs := 0 } := by
      rw [retainMount, hlast]
      exact update_self ..
    have hcount := hsound.counts i (by rw [hself]; exact hops)
    rw [hself, inFlight_activeRefs, inFlight_cons, if_pos hon] at hcount
    change 0 = _ at hcount
    omega
  rw [CountFits] at hfits
  push Not at hfits
  obtain ⟨i, hacq, hlast⟩ := hfits
  cases e with
  | useRef ref =>
    rw [acquires] at hacq
    rw [VfsSystem.step, hacq]
    exact hwrap (mountByFsId_some hacq).1 hlast rfl
  | retain ref =>
    rw [acquires] at hacq
    by_cases hinode : ref.inode = 0
    · rw [if_pos hinode] at hacq
      cases hacq
    rw [if_neg hinode] at hacq
    rw [VfsSystem.step, if_neg hinode, hacq]
    exact hwrap (mountByFsId_some hacq).1 hlast (mountByFsId_some hacq).2
  | advance k =>
    rw [acquires] at hacq
    split at hacq
    · rename_i idx generation htask
      rw [VfsSystem.step, htask]
      dsimp only
      rw [Task.advance, hacq]
      exact hwrap (mountAcquireIndex_some hacq).2 hlast rfl
    · cases hacq
  | mount _ | unmount _ | lookup _ _ | release _ | getRef _ _ _ | abandon _ => cases hacq

private theorem mounted_vfsMount (t : VfsTables) (norm : List UInt8) :
    t.mounted ≤ (t.vfsMount norm).mounted := by
  rcases vfsMount_cases t norm with heq | ⟨i, -, heq⟩
  · rw [heq]
  rw [heq]
  split
  · exact le_refl _
  · exact le_succ _

private theorem mounted_advance (t : VfsTables) (task : Task) :
    (task.advance t).1.mounted = t.mounted := by
  cases task with
  | checking idx generation => rfl
  | routed idx generation =>
    rw [Task.advance]
    split <;> rfl
  | running idx serial => rfl
  | pinning ref =>
    rw [Task.advance]
    rcases recordPin_cases t ref with hrec | ⟨p, -, -, hrec⟩ | ⟨p, -, hrec⟩ <;> rw [hrec] <;> rfl
  | unpinning ref =>
    rw [Task.advance, mountReleaseByFsId]
    split
    · rfl
    · split <;> rfl

private theorem mounted_erasePin (t : VfsTables) (ref : NodeRef) :
    (t.erasePin ref).2.mounted = t.mounted := by
  rw [erasePin]
  split <;> rfl

/-- The number of mounts only grows. -/
theorem mounted_step (s : VfsSystem) (e : VfsEvent) :
    s.tables.mounted ≤ (s.step e).tables.mounted := by
  cases e with
  | mount norm => exact mounted_vfsMount s.tables norm
  | unmount norm =>
    rw [VfsSystem.step]
    rcases vfsUnmount_cases s.tables norm with heq | ⟨idx, -, -, heq⟩
    · rw [heq]
    · rw [heq]
      exact le_refl _
  | lookup idx check | useRef ref | getRef k fsId inode | abandon k =>
    rw [VfsSystem.step]
    split <;> exact le_refl _
  | retain ref =>
    rw [VfsSystem.step]
    split
    · exact le_refl _
    · split <;> exact le_refl _
  | release ref =>
    rw [VfsSystem.step]
    split
    · exact le_refl _
    have herase := mounted_erasePin s.tables ref
    split
    · exact le_refl _
    rename_i t heq
    rw [heq] at herase
    exact le_of_eq herase.symm
  | advance k =>
    rw [VfsSystem.step]
    split
    · exact le_refl _
    · exact le_of_eq (mounted_advance _ _).symm

/-- In a run with fewer than `2^32` mounts the tables are right in every state exactly if no step
raises a count that is at its largest value. -/
theorem mounts_sound_iff (es : List VfsEvent)
    (hfew : (es.foldl VfsSystem.step start).tables.mounted < u32Range) :
    Run.Always VfsSystem.step MountsSound start es ↔
      Run.Allowed VfsSystem.step CountFits start es :=
  Run.always_iff_allowed (B := fun s => s.tables.mounted < u32Range)
    (fun s e hlt => lt_of_le_of_lt (mounted_step s e) hlt) (fun _ h => h.sound)
    (fun _ e h hlt hfits => h.step e hlt hfits)
      (fun _ _ _ hfits => not_sound_step hfits) vfsInv_start hfew

/-- A file system is mounted, its root is looked up, and it is unmounted while the operation
runs. -/
theorem mounts_sound_lookup :
    ([.mount [47, 109], .lookup ⟨0, by decide⟩ true, .advance 0, .advance 0, .getRef 0 1 2,
      .unmount [47, 109],
        .advance 0, .unmount [47, 109]].foldl VfsSystem.step start).tables.mounted < u32Range ∧
      (Run.Always VfsSystem.step MountsSound start
          [.mount [47, 109], .lookup ⟨0, by decide⟩ true, .advance 0, .advance 0, .getRef 0 1 2,
            .unmount [47, 109], .advance 0, .unmount [47, 109]] ↔
        Run.Allowed VfsSystem.step CountFits start
          [.mount [47, 109], .lookup ⟨0, by decide⟩ true, .advance 0, .advance 0, .getRef 0 1 2,
            .unmount [47, 109], .advance 0, .unmount [47, 109]]) :=
  ⟨by decide +kernel, mounts_sound_iff _ (by decide +kernel)⟩

/-! ### A count that wraps around -/

private theorem findSlot_eq_some {α : Type} {table : Fin n → α} {p : α → Bool} {i : Fin n}
    (hi : p (table i) = true) (hlt : ∀ j < i, p (table j) = false) : findSlot table p = some i := by
  rw [findSlot, find?_eq_some_iff_getElem]
  refine ⟨hi, i, by simp, by simp, fun j hj => ?_⟩
  have hfalse := hlt ⟨j, lt_trans hj i.isLt⟩ hj
  simpa using hfalse

private theorem findSlot_eq_none {α : Type} {table : Fin n → α} {p : α → Bool}
    (h : ∀ i, p (table i) = false) :
    findSlot table p = none := by
  rw [findSlot, find?_eq_none]
  intro i _
  rw [h i]
  exact Bool.false_ne_true

/-- The first slots of the tables. -/
def firstMount : Fin vfsMaxMounts := ⟨0, by decide⟩

def firstPin : Fin vfsMaxPinnedRefs := ⟨0, by decide⟩

def secondPin : Fin vfsMaxPinnedRefs := ⟨1, by decide⟩

/-- The path `/m`. -/
def mountPath : List UInt8 := [47, 109]

/-- A reference on the first mount. -/
def mountRef (inode : Nat) : NodeRef := ⟨1, 1, inode⟩

/-- The first mount at `/m`, with `count` references. -/
def mountedOnce (count : Nat) : Mount := ⟨true, false, mountPath, 1, 1, count, 0⟩

/-- One mount, with one of its nodes pinned `n` times. -/
def pinnedTimes (n : Nat) : VfsSystem where
  tables := {
    mounts := update (fun _ => Mount.cleared) firstMount (mountedOnce n)
    refPins := update (fun _ => RefPin.cleared) firstPin
      (if n = 0 then RefPin.cleared else ⟨true, mountRef 1, n⟩)
    nextFsId := 2
    nextMountGeneration := 2
    mounted := 1 }
  tasks := []
  taken := []

private theorem not_lt_firstMount (j : Fin vfsMaxMounts) : ¬j < firstMount := not_lt_zero _

private theorem not_lt_firstPin (j : Fin vfsMaxPinnedRefs) : ¬j < firstPin := not_lt_zero _

private theorem step_mount : start.step (.mount mountPath) = pinnedTimes 0 := by
  have hfs : vfsInit.allocFsId = (1, 2) := by
    rw [allocFsId, show u32Range - 1 = (u32Range - 2) + 1 from rfl, allocFsIdLoop, if_neg]
    · rfl
    · rw [fsIdInUse, findMount, findSlot_eq_none fun _ => rfl]
      decide
  have hpins : (pinnedTimes 0).tables.refPins = fun _ => RefPin.cleared := update_eq_self ..
  have hnone : (vfsInit.findMount fun m => m.ops && !m.unmounting && m.path = mountPath) = none :=
    findSlot_eq_none fun _ => rfl
  have hfree : (vfsInit.findMount fun m => !m.ops && m.activeRefs = 0) = some firstMount :=
    findSlot_eq_some rfl fun j hj => absurd hj (not_lt_firstMount j)
  change (⟨vfsInit.vfsMount mountPath, [], []⟩ : VfsSystem) = _
  rw [vfsMount, hnone, hfree, hfs]
  refine congrArg (fun pins => mk ⟨_, pins, 2, 2, 1⟩ [] []) hpins.symm

/-- The mount is found by its references. -/
theorem mountByFsId_mountRef (ht : t.mounts firstMount = mountedOnce n) (inode : Nat) :
    t.mountByFsId (mountRef inode) = some firstMount := by
  refine findSlot_eq_some ?_ fun j hj => absurd hj (not_lt_firstMount j)
  rw [ht]
  rfl

private theorem pinnedTimes_mounts (n : Nat) : (pinnedTimes n).tables.mounts
    = update (fun _ => Mount.cleared) firstMount (mountedOnce n) := rfl

private theorem pinnedTimes_refPins (n : Nat) : (pinnedTimes n).tables.refPins
    = update (fun _ => RefPin.cleared) firstPin
      (if n = 0 then RefPin.cleared else ⟨true, mountRef 1, n⟩) := rfl

private theorem mounts_pinnedTimes (n : Nat) :
    (pinnedTimes n).tables.mounts firstMount = mountedOnce n := by
  rw [pinnedTimes_mounts, update_self]

private theorem retainMount_pinnedTimes (n : Nat) :
    (pinnedTimes n).tables.retainMount firstMount = { (pinnedTimes n).tables with
      mounts := update (fun _ => Mount.cleared) firstMount
        (mountedOnce ((n + 1) % u32Range)) } := by
  rw [retainMount, mounts_pinnedTimes, setMount]
  simp only [mountedOnce, pinnedTimes, update_idem]

/-- The pin of the node counts one more. -/
theorem recordPin_pinnedTimes (ht : t.refPins = (pinnedTimes n).tables.refPins)
    (hn : n + 1 < u32Range) :
    t.recordPin (mountRef 1) =
      (true, { t with refPins := (pinnedTimes (n + 1)).tables.refPins }) := by
  have hpins : (pinnedTimes (n + 1)).tables.refPins
      = update (fun _ => RefPin.cleared) firstPin ⟨true, mountRef 1, n + 1⟩ := rfl
  rw [recordPin, findPin, hpins]
  cases n with
  | zero =>
    have hcleared : t.refPins = fun _ => RefPin.cleared := ht.trans (update_eq_self ..)
    rw [findSlot_eq_none fun i => by rw [hcleared]; rfl]
    rw [findSlot_eq_some (by rw [hcleared]; rfl) fun j hj => absurd hj (not_lt_firstPin j)]
    dsimp only
    rw [setPin, hcleared]
  | succ n =>
    have hpin : t.refPins firstPin = ⟨true, mountRef 1, n + 1⟩ := by
      rw [ht, pinnedTimes_refPins, update_self, if_neg (succ_ne_zero n)]
    rw [findSlot_eq_some (by rw [hpin]; simp) fun j hj => absurd hj (not_lt_firstPin j)]
    dsimp only
    have hmax : n + 1 ≠ u32Range - 1 := by
      omega
    rw [hpin, if_neg hmax, setPin, ht]
    simp only [pinnedTimes, update_idem]

/-- The two halves of `vfs_retain_ref`, one after the other. -/
theorem step_retain {inode : Nat} (hinode : inode ≠ 0)
    (hrec : VfsTables.recordPin
      { (pinnedTimes n).tables with
        mounts := update (fun _ => Mount.cleared) firstMount (mountedOnce ((n + 1) % u32Range)) }
      (mountRef inode) = (true, t)) :
    [.retain (mountRef inode), .advance 0].foldl VfsSystem.step (pinnedTimes n) = ⟨t, [], []⟩ := by
  have hretain : (pinnedTimes n).step (.retain (mountRef inode))
      = ⟨(pinnedTimes n).tables.retainMount firstMount, [.pinning (mountRef inode)], []⟩ := by
    rw [VfsSystem.step, if_neg (show (mountRef inode).inode ≠ 0 from hinode),
      mountByFsId_mountRef (mounts_pinnedTimes n)]
    rfl
  rw [← retainMount_pinnedTimes] at hrec
  rw [foldl_cons, foldl_cons, foldl_nil, hretain]
  change mk ((Task.pinning (mountRef inode)).advance
    ((pinnedTimes n).tables.retainMount firstMount)).1
    (((Task.pinning (mountRef inode)).advance ((pinnedTimes n).tables.retainMount firstMount)).2 ++
      []) [] = _
  rw [Task.advance, hrec]
  rfl

/-- The node is pinned `n` times. -/
def retains : Nat → List VfsEvent
  | 0 => [.mount mountPath]
  | n + 1 => retains n ++ [.retain (mountRef 1), .advance 0]

private theorem run_retains (hn : n < u32Range) :
    (retains n).foldl VfsSystem.step start = pinnedTimes n := by
  induction n with
  | zero => exact step_mount
  | succ n ih =>
    rw [retains, foldl_append, ih (lt_of_succ_lt hn),
      step_retain one_ne_zero (recordPin_pinnedTimes rfl hn), mod_eq_of_lt hn]
    rfl

/-- The pin of a second node. -/
theorem recordPin_second (hn : n ≠ 0) (ht : t.refPins = (pinnedTimes n).tables.refPins) :
    t.recordPin (mountRef 2) = (true, t.setPin secondPin ⟨true, mountRef 2, 1⟩) := by
  have hfirst : t.refPins firstPin = ⟨true, mountRef 1, n⟩ := by
    rw [ht, pinnedTimes_refPins, update_self, if_neg hn]
  have hrest : ∀ p, p ≠ firstPin → t.refPins p = RefPin.cleared := by
    intro p hp
    rw [ht, pinnedTimes_refPins, update_of_ne hp]
  have hnone : t.findPin (mountRef 2) = none := by
    refine findSlot_eq_none fun p => ?_
    by_cases hp : p = firstPin
    · rw [hp, hfirst]
      simp [mountRef]
    · rw [hrest p hp]
      rfl
  have hfree : (findSlot t.refPins fun p => !p.used) = some secondPin := by
    refine findSlot_eq_some ?_ fun j hj => ?_
    · rw [hrest secondPin (by decide)]
      rfl
    · have hj : j = firstPin := Fin.ext (lt_one_iff.mp hj)
      rw [hj, hfirst]
      rfl
  rw [recordPin, hnone]
  rw [hfree]

/-- The only mount goes if its count is 0. -/
theorem unmount_mountedOnce
    (ht : t.mounts = update (fun _ => Mount.cleared) firstMount (mountedOnce 0)) :
    t.vfsUnmount mountPath = t.setMount firstMount Mount.cleared := by
  have hfirst : t.mounts firstMount = mountedOnce 0 := by rw [ht, update_self]
  have hfind : (t.findMount fun m => m.ops && !m.unmounting && m.path = mountPath) =
      some firstMount := by
    refine findSlot_eq_some ?_ fun j hj => absurd hj (not_lt_firstMount j)
    rw [hfirst]
    rfl
  rw [vfsUnmount, if_neg (by decide), hfind]
  dsimp only
  rw [if_neg, if_neg]
  · rw [hfirst]
    exact not_not.mpr rfl
  · -- there is no mount below it
    rw [any_eq_true]
    rintro ⟨i, -, hi⟩
    by_cases hne : i = firstMount
    · simp [hne] at hi
    · rw [ht, update_of_ne hne] at hi
      simp [Mount.cleared] at hi

/-- With `2^32` pins on two nodes of a mount its count is 0, and an unmount takes the mount away. -/
theorem pinned_mount_goes : ∃ (es : List VfsEvent) (i : Fin vfsMaxMounts) (p : Fin vfsMaxPinnedRefs)
    (s : VfsSystem), s = es.foldl VfsSystem.step start ∧ s.tables.mounted < u32Range ∧
      ¬MountsSound s ∧ (s.tables.mounts i).ops = true ∧ (s.tables.refPins p).used = true ∧
      IsRefTo (s.tables.mounts i) (s.tables.refPins p).ref ∧
      ((s.step (.unmount mountPath)).tables.mounts i).ops = false := by
  have hlast : (u32Range - 1) ≠ 0 := by decide
  have hwrap : (u32Range - 1 + 1) % u32Range = 0 := by decide
  obtain ⟨es, hes⟩ : ∃ es : List VfsEvent,
    es = retains (u32Range - 1) ++ [.retain (mountRef 2), .advance 0] := ⟨_, rfl⟩
  obtain ⟨s, hs⟩ : ∃ s, s = es.foldl VfsSystem.step start := ⟨_, rfl⟩
  have hrun := hs
  rw [hes, foldl_append, run_retains (by decide),
    step_retain (by decide) (recordPin_second hlast rfl), hwrap] at hrun
  have hmounts : s.tables.mounts = update (fun _ => Mount.cleared) firstMount (mountedOnce 0) := by
    rw [hrun]
    rfl
  have hmount : s.tables.mounts firstMount = mountedOnce 0 := by rw [hmounts, update_self]
  have hpin : s.tables.refPins firstPin = ⟨true, mountRef 1, u32Range - 1⟩ := by
    have hpins : s.tables.refPins = update (pinnedTimes (u32Range - 1)).tables.refPins secondPin
      ⟨true, mountRef 2, 1⟩ := by rw [hrun]; rfl
    rw [hpins, update_of_ne (by decide), pinnedTimes_refPins, update_self, if_neg hlast]
  have hops : (s.tables.mounts firstMount).ops = true := by rw [hmount]; rfl
  have href : IsRefTo (s.tables.mounts firstMount) (s.tables.refPins firstPin).ref := by
    rw [hmount, hpin]
    exact ⟨rfl, rfl⟩
  have hgone : ((s.step (.unmount mountPath)).tables.mounts firstMount).ops = false := by
    rw [VfsSystem.step, unmount_mountedOnce hmounts]
    rfl
  refine ⟨es, firstMount, firstPin, s, hs, ?_, fun hsound => ?_, hops, by rw [hpin], href, hgone⟩
  · rw [hrun]
    exact Nat.one_lt_two_pow (by decide)
  · have hweight := pinWeight_le_pinned s.tables (s.tables.mounts firstMount) firstPin
    rw [pinWeight, if_pos ⟨by rw [hpin], href⟩, hpin] at hweight
    have hpos : 0 < u32Range - 1 := by decide
    have hkept := hsound.kept mountPath firstMount hops
      (lt_of_lt_of_le hpos (le_trans hweight (le_add_left _ _)))
    rw [VfsSystem.step] at hgone
    rw [hkept, hops] at hgone
    cases hgone

end Rabbitbone.Spec.Vfs
