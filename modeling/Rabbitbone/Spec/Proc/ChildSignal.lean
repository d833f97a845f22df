import Rabbitbone.Spec.Proc.KillPending

/-!
# The signal to the parent

`finish_current` tells the parent of a process by `process_signal_send`, for which the process that
has ended is the sender: one that has given up the user of its parent may not send it a signal, and
a pid from `0x80000000` on is that of a group.  `fault_invalid_ready_slot_locked` does not tell the
parent.
-/

namespace Rabbitbone.Spec.Proc

open Native.Proc Native.Proc.System

/-- The process `c` of slot `i` ends: it exits, an exception or a signal ends it while it runs or is
entered, or the scheduler finds that it cannot be entered. -/
inductive Ends (s : System) (i : Slot) (c : Process) : System → Prop where
  | exit (h : At s i c) (alloc : Slot → Nat → Bool) (code : Int) (regs : Regs) :
    Ends s i c ((s.setCurrent { c with exitCode := code }).terminateCurrent alloc .exited regs)
  | fault (h : At s i c) (alloc : Slot → Nat → Bool) (vector : Nat) (regs : Regs) :
    Ends s i c (s.processFaultCurrentFromInterrupt alloc vector regs)
  | signal (h : At s i c) {x : Process} {state : ProcState} {frame : Nat → Bool}
    (alloc : Slot → Nat → Bool)
      (reschedule : Bool) {regs : Regs}
        (hd : processSignalDeliverPending frame c regs = .terminated x state) :
    Ends s i c (s.deliverAndResume frame alloc reschedule regs)
  | signalEntered (h : At s i c) {x : Process} {state : ProcState} {frame : Nat → Bool}
      (alloc : Slot → Nat → Bool)
      (hd : processSignalDeliverPending frame c c.regs = .terminated x state) :
    Ends s i c (s.deliverAndEnter frame alloc c)
  | scan (hcur : s.current = none) (hc : s.slots i = some c) (now : UInt64)
      (hbad : (faultInvalidReadySlot (wakeSleeper now c)).state ≠ (wakeSleeper now c).state) :
    Ends s i c (s.scanSlots now)

variable {s s' : System} {i j : Slot} {c p q x : Process} {mode : Mode} {state : ProcState}

/-- The process is of the superuser, or has a user in common with the process `p`. -/
def SharesUser (c p : Process) : Prop :=
  c.cred.euid = 0 ∨ c.cred.euid = p.cred.uid ∨ c.cred.euid = p.cred.euid ∨
    c.cred.uid = p.cred.uid ∨ c.cred.uid = p.cred.euid

/-- The pid of the process `p` is that of a process, of all, or, as a group, that of its group. -/
def Reached (p : Process) : Prop :=
  p.pid < 0x80000000 ∨ p.pid = 0xffffffff ∨ 0x80000000 < p.pid ∧ p.group = ~~~p.pid + 1

/-- What the sender and its parent are decides whether the signal is sent. -/
theorem sends_iff {s₂ : System} (h : At s₂ i x) (hid : Identified (s₂.toMachine mode))
    (hq : s₂.view j = some q) (hne : q.pid ≠ x.pid) :
    (addressed s₂ i x q.pid j q && processSignalSenderCanTarget (some x) q sigchld) = true ↔
      SharesUser x q ∧ Reached q := by
  rw [Bool.and_eq_true, and_comm]
  refine and_congr ?_ ?_
  · simp [processSignalSenderCanTarget, processCredIsRoot, SharesUser, hne, sigchld,
      sigcont, or_assoc]
  · simp only [addressed, hid.pid j _ (ids_of_procs hq), addressed_pid h hid hq, Reached, if_false]
    split_ifs with hall hmin hneg
    · simp [hall]
    · simp [hmin]
    · simp [hall, UInt32.not_lt.mpr hneg, UInt32.lt_of_le_of_ne hneg (Ne.symm hmin)]
    · simp [UInt32.not_le.mp hneg]

/-- The parent after the end of the running process. -/
theorem told_iff (alloc : Slot → Nat → Bool) (regs : Regs) (h : At s i c) (hx : Akin c x)
    (hcred : x.cred = c.cred) (ht : state.terminal = true) (hid : Identified (s.toMachine mode))
    (hj : j ≠ i) (hp : s.view j = some p) (hparent : c.parent = p.pid) :
    (∃ p', ((s.setCurrent x).terminateCurrent alloc state regs).view j = some p' ∧
      hasSignal p'.pending sigchld = true) ↔
    hasSignal p.pending sigchld = true ∨ s.current ≠ none ∧ SharesUser c p ∧ Reached p := by
  have hne : p.pid ≠ c.pid := fun heq =>
    hj (hid.pid_unique j i _ _ (ids_of_procs hp) (ids_of_procs h.procs) heq)
  obtain ⟨-, -, -, -, -, -, htold⟩ :=
    acts_finishCurrent (E := fun _ => True) (r := regs) regs h hx ht
  obtain ⟨x', s₂, hx', hacts, hat, hothers, hsent⟩ := htold (by
    rw [hx.parent, hparent]
    exact hid.pid j _ (ids_of_procs hp))
  have hpid : x'.pid = c.pid ∧ x'.cred = c.cred ∧ x'.parent = p.pid := by
    rw [hx']
    exact ⟨hx.pid, hcred, hx.parent.trans hparent⟩
  obtain ⟨q, hpq, hq⟩ := hothers j p ((h.view_of_ne hj).symm.trans hp)
  have hiff := sends_iff hat (hacts.identified (hid.congr rfl rfl rfl))
    ((hat.view_of_ne hj).trans hq) (by rwa [hpq.pid, hpid.1])
  simp only [SharesUser, Reached, hpid.2.1, hpq.pid, hpq.cred, hpq.group] at hiff
  have hslot := hsent j hj
  rw [hq, Option.map_some, hpid.2.2] at hslot
  rcases slots_wakeWaiters alloc c.pid hslot with ⟨heq, -⟩ | ⟨q', hq', hwoken⟩
  · refine absurd heq ?_
    simp only [sentTo]
    split <;> simpa [hpq.pid] using hne
  have hpending : q'.pending = (sentTo x' (addressed s₂ i x' p.pid) sigchld j q).pending := by
    rcases hwoken with rfl | ⟨-, child, rfl⟩ <;> rfl
  have hview : ((s.setCurrent x).terminateCurrent alloc state regs).view j = some q' := by
    simp only [terminateCurrent, (h.setCurrent hx.pid).currentProc, hx.pid]
    exact hq'
  simp only [hview, Option.some.injEq, exists_eq_left', hpending, sentTo, SharesUser,
    Reached, ← hiff]
  split
  · next hsel => simp [(queued_queueOne (by decide : signalValid sigchld = true) q).pending,
      hsel, h.current]
  · next hsel => simp [hpq.pending, hsel]

/-- After the end of a process `SIGCHLD` is pending for its parent exactly if it was before, or the
process ends itself and its user and the pid of the parent let it send a signal there. -/
theorem sigchld_pending_iff (hends : Ends s i c s')
    (hid : Identified (s.toMachine mode)) (hj : j ≠ i)
    (hp : s.view j = some p) (hparent : c.parent = p.pid) :
    (∃ p', s'.view j = some p' ∧ hasSignal p'.pending sigchld = true) ↔
      hasSignal p.pending sigchld = true ∨ s.current ≠ none ∧ SharesUser c p ∧ Reached p := by
  cases hends with
  | exit h alloc code regs =>
    exact told_iff alloc regs h ⟨rfl, rfl, rfl, rfl⟩ rfl rfl hid hj hp hparent
  | fault h alloc vector regs =>
    have hset := h.setCurrent (d := { c with exitCode := -128 - vector, faulted := true }) rfl
    simp only [processFaultCurrentFromInterrupt, h.currentProc, hset.resolve]
    exact told_iff alloc regs h ⟨rfl, rfl, rfl, rfl⟩ rfl rfl hid hj hp hparent
  | signal h alloc reschedule hd =>
    simp only [deliverAndResume, h.currentProc, hd]
    obtain ⟨ht, sig, code, faulted, rfl⟩ := deliver_terminated hd
    exact told_iff alloc _ h ⟨rfl, rfl, rfl, rfl⟩ rfl ht hid hj hp hparent
  | signalEntered h alloc hd =>
    rw [deliverAndEnter_terminated alloc h (hid.congr rfl rfl rfl) hd]
    obtain ⟨ht, sig, code, faulted, rfl⟩ := deliver_terminated hd
    exact told_iff alloc _ h ⟨rfl, rfl, rfl, rfl⟩ rfl ht hid hj hp hparent
  | scan hcur hc now hbad =>
    have hslot : s.slots j = some p := by simpa [view, hcur, LiveCopy.view] using hp
    have hpending : (faultInvalidReadySlot (wakeSleeper now p)).pending = p.pending := by
      simp only [faultInvalidReadySlot, wakeSleeper]
      split_ifs <;> rfl
    simp [view, scanSlots, mapSlots, hcur, LiveCopy.view, hslot, hpending]

/-- The child of the first process runs. -/
def childRuns : System :=
  (boot 1 plainImage).run (plainRun [.enter slot0,
    plainCall (.fork (.cloned plainImage.space plainImage.space)), plainCall .yield, .enter slot1])

/-- It exits. -/
theorem sigchld_of_exit : ∃ c s', Ends childRuns slot1 c s' ∧
    ∃ p, s'.view slot0 = some p ∧ hasSignal p.pending sigchld = true := by
  have hreach : Reachable childRuns := ⟨1, plainImage, _, rfl⟩
  have hfacts : (childRuns.current.any fun c => (childRuns.view slot0).any fun p =>
      c.1 == slot1 && c.2.parent == p.pid && c.2.cred.euid == 0 && p.pid == 1) = true := by
    decide +kernel
  simp only [Option.any_eq_true, Bool.and_eq_true, beq_iff_eq] at hfacts
  obtain ⟨⟨_, c⟩, hcur, p, hp, ⟨⟨rfl, hparent⟩, hroot⟩, hpid⟩ := hfacts
  cases hreach.reaches.between with
  | idle hcur' _ => simp [hcur'] at hcur
  | user hruns _ =>
    cases hruns.current.symm.trans hcur
    have hends := Ends.exit hruns.toAt plainMemory.wake 0 plainImage.regs
    exact ⟨c, _, hends, (sigchld_pending_iff hends hreach.identified (by decide) hp hparent).mpr
      (.inr ⟨by simp [hcur], .inl hroot, .inl (by rw [hpid]; decide)⟩)⟩

/-- A child that has become another user exits, and its parent goes on without the signal. -/
theorem sigchld_not_sent :
    let s := childRuns.step plainMemory
      (plainCall (.setCred ⟨1000, 1000, 1000, 1000, 0, 0, 0, 18, 0, 0, []⟩ 0 0))
    (s.currentProc.any fun c => (s.view slot0).any fun p => p.pid == c.parent) = true ∧
    ((s.step plainMemory (plainCall (.exit 0))).view slot0).any (fun p =>
      !p.state.terminal && !hasSignal p.pending sigchld) = true := by
  decide +kernel

end Rabbitbone.Spec.Proc
