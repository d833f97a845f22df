import Mathlib.Data.List.Nodup
import Mathlib.Data.List.Perm.Subperm
import Rabbitbone.Spec.Proc.SchedulerSimulation

/-!
# A pid for every process

`alloc_user_pid` tries more values than can be in use.  Wherever the counter stands, also where it
wraps around, one of them is free.
-/

namespace Rabbitbone.Spec.Proc

open Native.Proc Native.Proc.System

variable {s : System} {tries : Nat} {pid : UInt32}

/-- The allocator gives up only if all values it tried are in use. -/
theorem allocUserPid_cases (s : System) (tries : Nat) (next : UInt64) :
    (∃ pid next', s.allocUserPid tries next = (some pid, next')) ∨
      ∀ k < tries, s.pidInUse (next + UInt64.ofNat k).toUInt32 = true := by
  induction tries generalizing next with
  | zero => exact .inr fun k hk => absurd hk (Nat.not_lt_zero k)
  | succ tries ih =>
    rw [allocUserPid]
    by_cases huse : s.pidInUse next.toUInt32 = true
    · rw [if_pos huse]
      refine (ih (next + 1)).imp_right fun hall k hk => ?_
      cases k with
      | zero => simpa using huse
      | succ k =>
        rw [UInt64.ofNat_add, UInt64.add_comm (UInt64.ofNat k), ← UInt64.add_assoc]
        exact hall k (by omega)
    · rw [if_neg huse]
      exact .inl ⟨_, _, rfl⟩

/-- The values that are tried are different ones, so fewer in use are not all of them. -/
theorem allocUserPid_some (used : List UInt32) (hused : ∀ pid, s.pidInUse pid = true → pid ∈ used)
    (hlen : used.length < tries) (htries : tries ≤ 2 ^ 32) (next : UInt64) :
    ∃ pid next', s.allocUserPid tries next = (some pid, next') := by
  refine (allocUserPid_cases s tries next).resolve_right fun hall => ?_
  -- the counter has 64 bits, the pid is its low half
  have hnodup : ((List.range tries).map fun k => (next + UInt64.ofNat k).toUInt32).Nodup := by
    refine List.nodup_range.map_on fun k hk l hl heq => ?_
    rw [List.mem_range] at hk hl
    have hmod := congrArg UInt32.toNat heq
    simp at hmod
    omega
  have hsub : ((List.range tries).map fun k => (next + UInt64.ofNat k).toUInt32) ⊆ used := by
    simpa [List.subset_def] using fun k hk => hused _ (hall k hk)
  have hle := (hnodup.subperm hsub).length_le
  rw [List.length_map, List.length_range] at hle
  omega

private theorem pidInUse_iff (h : Between s) :
    s.pidInUse pid = true ↔ pid = 0 ∨ ∃ j p, s.view j = some p ∧ p.pid = pid := by
  cases h with
  | idle hcur =>
    simp [pidInUse, anySlot, currentProc, view, hcur, LiveCopy.view, Option.any_eq_true]
  | @user i c _ h =>
    constructor
    · simp only [pidInUse, h.currentProc, anySlot, Bool.or_eq_true, decide_eq_true_eq,
        Option.any_some, List.any_eq_true, Option.any_eq_true]
      rintro ((h0 | hc) | ⟨j, -, q, hq, hpid⟩)
      · exact .inl h0
      · exact .inr ⟨i, c, h.view_self, hc⟩
      · by_cases hj : j = i
        · -- the slot of the running process may be older than its copy, but has its pid
          subst hj
          obtain ⟨q', hq', hc⟩ := h.slot
          rw [hq] at hq'
          cases hq'
          exact .inr ⟨j, c, h.view_self, hc ▸ hpid⟩
        · exact .inr ⟨j, q, (h.view_of_ne hj).trans hq, hpid⟩
    · contrapose!
      intro huse
      exact pidInUse_false h.toAt (by simpa using huse)

private theorem exists_pid (h : Between s) (next : UInt64) :
    ∃ pid next', s.allocUserPid (asyncCap + 2) next = (some pid, next') := by
  -- 0 and one pid for each slot
  have hlen := List.length_filterMap_le (fun j => (s.view j).map Process.pid)
      (List.finRange asyncCap)
  rw [List.length_finRange] at hlen
  exact allocUserPid_some (0 :: _) (fun pid hpid => by simpa using (pidInUse_iff h).mp hpid)
    (Nat.lt_succ_of_le (Nat.succ_le_succ hlen)) (by decide) next

/-- There is a pid for a new process, so that only a slot or memory can be missing. -/
structure CanCreate (s : System) : Prop where
  pid : ∀ next, ∃ pid next', s.allocUserPid (asyncCap + 2) next = (some pid, next') ∧ pid ≠ 0 ∧
    ∀ j p, s.view j = some p → p.pid ≠ pid
  fork : ∀ outcome regs, (s.forkCurrentFromRegs outcome regs).1.isSome = true ↔
    s.current.isSome = true ∧ s.allocAsyncSlot.isSome = true ∧
      ∃ parent child, outcome = .cloned parent child
  spawn : ∀ outcome, (∃ pid, (s.spawnSlot outcome).1 = .ok pid) ↔
    s.allocAsyncSlot.isSome = true ∧ ∃ image, outcome = .loaded image

theorem canCreate_run (nextPid : UInt64) (init : Image) (es : Run) :
    CanCreate ((boot nextPid init).run es) := by
  have h : Reachable ((boot nextPid init).run es) := ⟨nextPid, init, es, rfl⟩
  generalize (boot nextPid init).run es = s at h
  have hb := h.reaches.between
  obtain ⟨pid, next', hpid⟩ := exists_pid hb s.nextPid
  refine ⟨fun next => ?_, fun outcome regs => ?_, fun outcome => ?_⟩
  · obtain ⟨pid, next', hpid⟩ := exists_pid hb next
    have hfree := allocUserPid_fresh hpid
    rw [← Bool.not_eq_true, pidInUse_iff hb] at hfree
    push Not at hfree
    exact ⟨pid, next', hpid, hfree⟩
  · cases hcur : s.current <;> cases hslot : s.allocAsyncSlot <;> cases outcome <;>
      simp [forkCurrentFromRegs, currentProc, hcur, hslot, hpid]
  · cases hslot : s.allocAsyncSlot <;> cases outcome <;> simp [spawnSlot, hslot, hpid]

end Rabbitbone.Spec.Proc
