import Rabbitbone.Spec.Proc.KillPending

/-!
# Running and ended processes

Only the process that has the CPU is marked as running, and one that has ended does not come back.
This holds for what the kernel is meant to do, action by action, and so for the kernel, in which the
record of the running process is a copy.
-/

namespace Rabbitbone.Spec.Proc

open Native.Proc Native.Proc.System Machine

variable {i : Slot} {p : Process} {m m' : Machine} {mode : Mode} {E : Process → Prop}
  {f : Slot → Process → Process} {n : Nat}

/-! ### One process at a time -/

/-- The process that has the CPU. -/
def Mode.slot : Mode → Option Slot
  | .idle => none
  | .user i _ | .kernel i _ | .leaving i _ => some i

/-- A process that is marked as running has the CPU. -/
def OneRunning (m : Machine) : Prop :=
  ∀ j p, m.procs j = some p → p.state = .running → m.mode.slot = some j

namespace OneRunning

theorem goto (h : OneRunning m) (hs : mode.slot = m.mode.slot) : OneRunning (m.goto mode) :=
  fun j p hp hr => hs.trans (h j p hp hr)

/-- A process may be set running in the current slot. -/
theorem put (h : OneRunning m) (hs : p.state = .running → m.mode.slot = some i) :
    OneRunning (m.put i p) := by
  intro j q hq hr
  by_cases hj : j = i
  · subst hj
    rw [put_procs] at hq
    cases hq
    exact hs hr
  · rw [put_procs_of_ne hj] at hq
    exact h j q hq hr

/-- A change that sets no process running. -/
theorem map (h : OneRunning m) (hf : ∀ j p, (f j p).state = .running → p.state = .running) :
    OneRunning (m.map f) := by
  intro j q hq hr
  obtain ⟨p, hp, rfl⟩ := Option.map_eq_some_iff.mp hq
  exact h j p hp (hf j p hr)

/-- The CPU is given up by a process that is not marked any more. -/
theorem release (h : OneRunning m) (hs : m.mode.slot = some i) (hp : m.procs i = some p)
    (hr : p.state ≠ .running) :
    OneRunning (m.goto .idle) := by
  intro j q hq hrun
  obtain rfl : i = j := Option.some.inj (hs.symm.trans (h j q hq hrun))
  rw [show m.procs i = some q from hq] at hp
  cases hp
  exact absurd hrun hr

theorem remove (h : OneRunning m) (i : Slot) (p : Process) : OneRunning (m.remove i p) := by
  intro j q hq hr
  by_cases hj : j = i
  · subst hj
    simp [Machine.remove] at hq
  · exact h j q (by simpa [Machine.remove, hj] using hq) hr

/-- Waking sets no process running: it makes it ready. -/
theorem wakeAll (h : OneRunning m) (alloc : Slot → Nat → Bool) (c : Process) :
    OneRunning (m.wakeAll alloc c) := by
  refine h.map fun j p => ?_
  split
  · simp [wake]
  · exact id

end OneRunning

private theorem Act.oneRunning (ha : Act E m m') (h : OneRunning m) : OneRunning m' := by
  cases ha with
  | @enter i p hm _ _ =>
    -- nobody has the CPU, so nobody is marked
    have hnone : OneRunning (m.goto (.kernel i p.regs)) := by
      intro j q hq hr
      have hslot := h j q hq hr
      rw [hm] at hslot
      cases hslot
    exact hnone.put fun _ => rfl
  | trap hm _ | answer hm _ | pass hm | resume hm _ _ _ => exact h.goto (congrArg Mode.slot hm).symm
  | change hm _ _ | save hm _ | finish hm _ _ => exact h.put fun _ => congrArg Mode.slot hm
  | send sel _ =>
    refine h.map fun j p hr => ?_
    split at hr
    · simp only [processSignalQueueOne] at hr
      split_ifs at hr <;> exact hr
    · exact hr
  | join hp _ => exact h.put fun hr => h _ _ hp hr
  | signalReturn hm _ _ | handle hm _ _ | waitBlocked hm _ _ _ _ _ _ _ _ _ | exec hm _ _ _ _ =>
    exact (h.put fun _ => congrArg Mode.slot hm).goto (congrArg Mode.slot hm).symm
  | stop hm _ _ hd =>
    obtain ⟨sig, -, -, rfl⟩ := deliver_stopped hd
    exact (h.put fun _ => congrArg Mode.slot hm).release (congrArg Mode.slot hm) put_procs (by simp)
  | preempt hm _ =>
    refine (h.put fun _ => congrArg Mode.slot hm).release (congrArg Mode.slot hm) put_procs ?_
    dsimp only
    split
    · simp
    · assumption
  | orphan =>
    refine h.map fun j p => ?_
    split <;> exact id
  | leave hm hc ht =>
    refine h.release (congrArg Mode.slot hm) hc fun hr => ?_
    simp [hr, ProcState.terminal] at ht
  | wakeNone => exact h.wakeAll _ _
  | @wakeSome i c _ _ _ _ _ => exact (h.wakeAll _ _).remove i c
  | birth _ hp => exact h.put fun hr => by simp [hp.state] at hr
  | @waitEnded _ j _ _ _ q hm => exact (h.remove j q).goto (congrArg Mode.slot hm).symm
  | scan _ now =>
    refine h.map fun _ p hr => ?_
    simp only [faultInvalidReadySlot, wakeSleeper] at hr
    split_ifs at hr
    exact hr

private theorem oneRunning_of_acts (ha : Acts E noProcs m) : OneRunning m := by
  induction ha with
  | refl => simp [OneRunning, noProcs]
  | tail _ hact ih => exact hact.oneRunning ih

/-- At most one process is marked as running, and it is the one whose program runs; this one does
not wait and has not ended.  No two processes have the same pid, and none has the pid 0. -/
structure Exclusive (s : System) : Prop where
  running : ∀ j p, s.view j = some p → p.state = .running →
    s.user.isSome = true ∧ ∃ c, s.current = some (j, c)
  user : s.user.isSome = true → ∃ j p, s.current = some (j, p) ∧ p.state ≠ .waiting ∧
    p.state.terminal = false
  pid : ∀ j p, s.view j = some p → p.pid ≠ 0
  pid_unique : ∀ j k p q, s.view j = some p → s.view k = some q → p.pid = q.pid → j = k

theorem exclusive_run (nextPid : UInt64) (init : Image) (es : Run) :
    Exclusive ((boot nextPid init).run es) := by
  have h : Reachable ((boot nextPid init).run es) := ⟨nextPid, init, es, rfl⟩
  have hone := oneRunning_of_acts h.reaches.acts
  have hid := h.identified
  generalize (boot nextPid init).run es = s at h hone hid ⊢
  refine ⟨fun j p hp hr => ?_, fun huser => ?_, fun j p hp => hid.pid j _ (ids_of_procs hp),
    fun j k p q hp hq => hid.pid_unique j k _ _ (ids_of_procs hp) (ids_of_procs hq)⟩
  · have hslot := hone j p hp hr
    cases h.reaches.between with
    | idle hcur _ => simp [toMachine, betweenMode, hcur, Mode.slot] at hslot
    | user hruns hu =>
      have hcur := hruns.current
      simp only [toMachine, betweenMode, hcur, hu, Mode.slot, Option.some.injEq] at hslot
      exact ⟨by simp [hu], _, hslot ▸ hcur⟩
  · cases h.reaches.between with
    | idle _ hu => simp [hu] at huser
    | user hruns _ => exact ⟨_, _, hruns.current, hruns.busy, hruns.alive⟩

/-! ### Ended processes -/

/-- An action is allowed where no program may replace itself, or it replaces one. -/
theorem Act.or_exec (ha : Act E m m') :
    Act (fun _ => False) m m' ∨ ∃ i c image mode, m.procs i = some c ∧
    c.state.terminal = false ∧ m' = (m.put i (execReplacement c image)).goto mode := by
  cases ha with
  | exec _ hc ht _ image => exact .inr ⟨_, _, image, _, hc, ht, rfl⟩
  | enter hm hp hs => exact .inl (.enter hm hp hs)
  | trap hm hr => exact .inl (.trap hm hr)
  | answer hm hr => exact .inl (.answer hm hr)
  | change hm hc h => exact .inl (.change hm hc h)
  | send sel hsig => exact .inl (.send sel hsig)
  | join hp pgid => exact .inl (.join hp pgid)
  | signalReturn hm hc h => exact .inl (.signalReturn hm hc h)
  | pass hm => exact .inl (.pass hm)
  | handle hm hc h => exact .inl (.handle hm hc h)
  | stop hm hc ht h => exact .inl (.stop hm hc ht h)
  | save hm hc => exact .inl (.save hm hc)
  | resume hm hc hs ht => exact .inl (.resume hm hc hs ht)
  | preempt hm hc => exact .inl (.preempt hm hc)
  | finish hm hc h => exact .inl (.finish hm hc h)
  | orphan hm hc ht new => exact .inl (.orphan hm hc ht new)
  | leave hm hc ht => exact .inl (.leave hm hc ht)
  | wakeNone hm hc ht h => exact .inl (.wakeNone hm hc ht h)
  | wakeSome hm hc ht h => exact .inl (.wakeSome hm hc ht h)
  | birth hj h => exact .inl (.birth hj h)
  | waitEnded hm hc hs hij hq hparent ht htarget hr =>
    exact .inl (.waitEnded hm hc hs hij hq hparent ht htarget hr)
  | waitBlocked hm hc hs ht hq hparent hout hw number hr =>
    exact .inl (.waitBlocked hm hc hs ht hq hparent hout hw number hr)
  | scan hm now => exact .inl (.scan hm now)

/-- A process that is gone does not come back. -/
theorem Act.gone (ha : Act E m m') (hn : n < m.births) (hgone : Gone m.procs n) :
    Gone m'.procs n := by
  rcases ha.or_exec with ha | ⟨i, c, image, mode, hc, ht, rfl⟩
  · intro j q hq hserial
    rcases ha.keepsAll (fun _ => False.elim) j q hq with ⟨p, hp, hkeeps⟩ | hnew
    · exact hkeeps.ended (hgone j p hp (hkeeps.serial ▸ hserial))
    · omega
  · intro j q hq hserial
    by_cases hj : j = i
    · -- a program that replaces itself is not the one that has ended
      subst hj
      cases put_procs.symm.trans hq
      have hended := hgone j c hc hserial
      simp [ht] at hended
    · exact hgone j q ((put_procs_of_ne hj).symm.trans hq) hserial

/-- The same of any number of acts. -/
theorem Acts.gone (ha : Acts E m m') (hn : n < m.births) (hgone : Gone m.procs n) :
    n < m'.births ∧ Gone m'.procs n := by
  induction ha with
  | refl => exact ⟨hn, hgone⟩
  | tail _ hact ih => exact ⟨Nat.lt_of_lt_of_le ih.1 (births_le hact), hact.gone ih.1 ih.2⟩

/-- No process that has ended in `s` is alive in `s'`. -/
def StayEnded (s s' : System) : Prop :=
  ∀ j p, s.view j = some p → p.state.terminal = true → Gone s'.view p.serial

/-- Whatever happens after some run, a process that has ended does not come back. -/
theorem stayEnded_run (nextPid : UInt64) (init : Image) (es es' : Run) :
    StayEnded ((boot nextPid init).run es) ((boot nextPid init).run (es ++ es')) := by
  intro j p hp ht
  have h : Reachable ((boot nextPid init).run es) := ⟨nextPid, init, es, rfl⟩
  have hacts := (reaches_run h.identified (reaches_same h.reaches.between)
      (runAllowed_true _ es')).acts
  have hgone : Gone ((boot nextPid init).run es).view p.serial := by
    -- no other process has this number
    intro k q hq hserial
    have hkj := h.identified.serial_unique k j _ _ (ids_of_procs hq) (ids_of_procs hp) hserial
    subst hkj
    cases hp.symm.trans hq
    exact ht
  rw [run_append]
  exact (Acts.gone hacts (h.identified.serial j _ (ids_of_procs hp)) hgone).2

end Rabbitbone.Spec.Proc
