import Rabbitbone.Spec.Proc.SchedulerSimulation

/-!
# A pending SIGKILL

Once `SIGKILL` was sent to a process, it stays pending until the process has ended.  There is one
exception: `process_signal_exec_reset` clears all pending signals of a program that replaces itself,
and no signal is delivered between the send and that.
-/

namespace Rabbitbone.Spec.Proc

open Native.Proc Native.Proc.System Relation Option ProcState

variable {E : Process → Prop} {m m' : Machine} {s : System} {i j : Slot} {c c' p p' : Process}
  {r : Regs} {n : Nat}

/-! ### One process -/

/-- `SIGKILL` is pending. -/
def KillPending (p : Process) : Prop := p.pending &&& signalBit sigkill ≠ 0

private theorem killPending_iff : KillPending p ↔ hasSignal p.pending sigkill = true := by
  simp only [KillPending, ne_eq, eq_zero_iff_hasSignal, hasSignal_and, not_forall]
  constructor
  · rintro ⟨k, hk, hne⟩
    simp only [Bool.not_eq_false, Bool.and_eq_true] at hne
    have hbit : ∀ k < 64, hasSignal (signalBit sigkill) k = true → k = sigkill := by decide +kernel
    exact hbit k hk hne.2 ▸ hne.1
  · intro h
    have hbit : hasSignal (signalBit sigkill) sigkill = true := by decide +kernel
    exact ⟨sigkill, by decide, by simp [h, hbit]⟩

/-- A change of a record that does not lose a `SIGKILL` and does not bring a process back. -/
structure Keeps (p p' : Process) : Prop where
  serial : p'.serial = p.serial
  ended : p.state.terminal = true → p'.state.terminal = true
  kept : KillPending p → p'.state.terminal = true ∨ KillPending p'

theorem Keeps.of_eq (hserial : p'.serial = p.serial) (hpending : p'.pending = p.pending)
    (hended : p.state.terminal = true → p'.state.terminal = true) : Keeps p p' :=
  ⟨hserial, hended, fun h => .inr (by rwa [KillPending, hpending])⟩

theorem Keeps.refl (p : Process) : Keeps p p := .of_eq rfl rfl id

private theorem killPending_unpend {sig : Nat} (hlt : sig < nsig) (hsig : sig ≠ sigkill)
    (h : KillPending p) :
    KillPending (unpend p sig) := by
  rw [killPending_iff] at *
  have hbit : hasSignal (signalBit sig) sigkill = false := by
    rw [hasSignal_signalBit sig hlt sigkill (by decide)]
    simpa using hsig.symm
  simp [unpend, h, hasSignal_not (show sigkill < 64 by decide), hbit]

private theorem keeps_queueOne {sig : Nat} (hsig : signalValid sig = true) (p : Process) :
    Keeps p (processSignalQueueOne p sig) := by
  have hq := queued_queueOne hsig p
  refine ⟨by rw [hq.eq], fun ht => ?_, fun hk => .inr ?_⟩
  · rcases hq.state with hs | ⟨hs, -⟩
    · rwa [hs]
    · simp [hs, terminal] at ht
  · rw [killPending_iff] at *
    exact hq.kept sigkill (by decide) (by decide) (by decide) hk

private theorem killPending_queueOne (p : Process) :
    KillPending (processSignalQueueOne p sigkill) :=
  killPending_iff.mpr (queued_queueOne (by decide) p).pending

private theorem keeps_handled {frame : Nat → Bool} {r' : Regs} (h : Handled frame p r p' r') :
    Keeps p p' := by
  cases h with
  | ignored sig hlt hsig state flag hs =>
    refine ⟨rfl, fun ht => ?_, fun hk => .inr (killPending_unpend hlt hsig hk)⟩
    rcases hs with hs | ⟨hs, -⟩
    · exact hs ▸ ht
    · simp [hs, terminal] at ht
  | entered sig hlt hsig hent =>
    refine ⟨by rw [hent.eq]; rfl, fun ht => by rw [hent.eq]; exact ht, fun hk => .inr ?_⟩
    have hpend := killPending_unpend hlt hsig hk
    rw [hent.eq]
    exact hpend

/-! ### All processes -/

/-- The process number `n` is alive, and `SIGKILL` is pending for it. -/
def Owed (procs : Slot → Option Process) (n : Nat) : Prop :=
  ∃ i p, procs i = some p ∧ p.serial = n ∧ p.state.terminal = false ∧ KillPending p

/-- The process number `n` has ended. -/
def Gone (procs : Slot → Option Process) (n : Nat) : Prop :=
  ∀ i p, procs i = some p → p.serial = n → p.state.terminal = true

/-- Every process is kept, is gone, or is new. -/
def KeepsAll (m m' : Machine) : Prop :=
  ∀ j p', m'.procs j = some p' → (∃ p, m.procs j = some p ∧ Keeps p p') ∨ p'.serial = m.births

/-- A change of one process. -/
theorem KeepsAll.put (hc : m.procs i = some c) (h : Keeps c c') : KeepsAll m (m.put i c') := by
  intro j p' hp'
  by_cases hj : j = i
  · subst hj
    rw [put_procs, some.injEq] at hp'
    exact .inl ⟨c, hc, hp' ▸ h⟩
  · rw [put_procs_of_ne hj] at hp'
    exact .inl ⟨p', hp', .refl p'⟩

/-- A change of every process. -/
theorem KeepsAll.map {f : Slot → Process → Process} (hf : ∀ j p, Keeps p (f j p)) :
    KeepsAll m (m.map f) := by
  intro j p' hp'
  simp only [map_procs, map_eq_some_iff] at hp'
  obtain ⟨p, hp, rfl⟩ := hp'
  exact .inl ⟨p, hp, hf j p⟩

theorem KeepsAll.remove (h : KeepsAll m m') (i : Slot) (p : Process) :
    KeepsAll m (m'.remove i p) := by
  intro j q hq
  by_cases hj : j = i
  · simp [Machine.remove, hj] at hq
  · exact h j q (by simpa [Machine.remove, hj] using hq)

theorem KeepsAll.refl (m : Machine) : KeepsAll m m := fun _ p' hp' => .inl ⟨p', hp', .refl p'⟩

private theorem keepsAll_wakeAll (m : Machine) (alloc : Slot → Nat → Bool) (c : Process) :
    KeepsAll m (m.wakeAll alloc c) := by
  refine .map fun j p => ?_
  split
  · next hw =>
    refine .of_eq rfl rfl fun ht => ?_
    simp [waitsFor_of_terminal ht] at hw
  · exact .refl p

/-- No act loses a `SIGKILL`, if `exec` is done to no process that has one pending. -/
theorem Act.keepsAll (ha : Act E m m') (hE : ∀ c, E c → ¬KillPending c) : KeepsAll m m' := by
  -- only a delivery takes a signal away, and `exec` all of them
  cases ha with
  | enter _ hp hs => exact .put hp (.of_eq rfl rfl fun ht => by simp [hs, terminal] at ht)
  | trap | answer | pass | resume | leave => exact .refl m
  | change _ hc hch => exact .put hc (.of_eq hch.serial hch.pending fun ht => hch.terminal ▸ ht)
  | send sel hsig =>
    refine .map fun j p => ?_
    split
    · exact keeps_queueOne hsig p
    · exact .refl p
  | join hp _ => exact .put hp (.of_eq rfl rfl id)
  | signalReturn _ hc hret =>
    obtain ⟨f, -, hf⟩ := restored_signalReturn hret
    exact .put hc (.of_eq (by rw [hf.eq]) (by rw [hf.eq]) fun ht => by rw [hf.eq]; exact ht)
  | handle _ hc hd => exact .put hc (keeps_handled (handled_deliver hd))
  | stop _ hc ht hd =>
    obtain ⟨sig, hlt, hsig, rfl⟩ := deliver_stopped hd
    exact .put hc ⟨rfl, fun ht' => by simp [ht] at ht', fun hk =>
      .inr (killPending_unpend hlt hsig hk)⟩
  | save _ hc => exact .put hc (.of_eq rfl rfl id)
  | preempt _ hc =>
    refine .put hc (.of_eq rfl rfl fun ht => ?_)
    split
    · next hs => simp [hs, terminal] at ht
    · exact ht
  | finish _ hc he => exact .put hc ⟨he.serial, fun _ => he.terminal, fun _ => .inl he.terminal⟩
  | orphan =>
    refine .map fun j p => ?_
    split
    · exact .of_eq rfl rfl id
    · exact .refl p
  | wakeNone => exact keepsAll_wakeAll m _ _
  | @wakeSome i c alloc _ _ _ _ => exact (keepsAll_wakeAll m alloc c).remove i c
  | @birth j p hj hp =>
    intro k q hq
    by_cases hk : k = j
    · subst hk
      have hq' : some p = some q := by simpa [Machine.put] using hq
      cases hq'
      exact .inr hp.serial
    · exact .inl ⟨q, by simpa [Machine.put, hk] using hq, .refl q⟩
  | @waitEnded _ j _ _ _ q _ _ _ _ _ _ _ _ _ _ => exact (KeepsAll.refl m).remove j q
  | waitBlocked _ hc _ ht _ _ _ _ _ _ =>
    exact .put hc (.of_eq rfl rfl fun ht' => by simp [ht] at ht')
  | exec _ hc ht hEc _ =>
    exact .put hc ⟨rfl, fun ht' => by simp [ht] at ht', fun hk => absurd hk (hE _ hEc)⟩
  | scan _ now =>
    refine .map fun _ p => ?_
    simp only [faultInvalidReadySlot, wakeSleeper]
    split_ifs <;> exact .of_eq rfl rfl (by simp_all [terminal])

/-- `SIGKILL` is pending for the process number `n`, or it has ended. -/
structure Kept (m : Machine) (n : Nat) : Prop where
  born : n < m.births
  kept : Owed m.procs n ∨ Gone m.procs n

/-- The count of births does not go down. -/
theorem births_le (ha : Act E m m') : m.births ≤ m'.births := by
  cases ha <;> first | exact Nat.le_refl _ | exact Nat.le_succ _

/-- A process with a `SIGKILL` pending still has it after an act, or has ended. -/
theorem Kept.act (hk : Kept m n) (hid : Identified m) (hE : ∀ c, E c → ¬KillPending c)
    (ha : Act E m m') : Kept m' n := by
  have hall := ha.keepsAll hE
  refine ⟨Nat.lt_of_lt_of_le hk.born (births_le ha), ?_⟩
  -- a process with this number is the old one
  have hold : ∀ j p', m'.procs j = some p' → p'.serial = n →
      ∃ p, m.procs j = some p ∧ p.serial = n ∧ Keeps p p' := by
    intro j p' hp' hn
    rcases hall j p' hp' with ⟨p, hp, hkeeps⟩ | hnew
    · exact ⟨p, hp, hkeeps.serial ▸ hn, hkeeps⟩
    · exact absurd hk.born (by omega)
  rcases hk.kept with ⟨i, p, hp, hserial, -, hpend⟩ | hgone
  · have hsame : ∀ j q, m.procs j = some q → q.serial = n → q = p := by
      intro j q hq hqn
      have hji := hid.serial_unique j i _ _ (ids_of_procs hq) (ids_of_procs hp)
          (hqn.trans hserial.symm)
      subst hji
      rw [hp, some.injEq] at hq
      exact hq.symm
    by_cases howed : Owed m'.procs n
    · exact .inl howed
    refine .inr fun j p' hp' hn => ?_
    obtain ⟨q, hq, hqn, hkeeps⟩ := hold j p' hp' hn
    rcases hkeeps.kept (hsame j q hq hqn ▸ hpend) with ht | hpend'
    · exact ht
    cases ht : p'.state.terminal with
    | true => rfl
    | false => exact absurd ⟨j, p', hp', hn, ht, hpend'⟩ howed
  · refine .inr fun j p' hp' hn => ?_
    obtain ⟨q, hq, hqn, hkeeps⟩ := hold j p' hp' hn
    exact hkeeps.ended (hgone j q hq hqn)

/-- The same of any number of acts. -/
theorem Kept.acts (hk : Kept m n) (hid : Identified m) (hE : ∀ c, E c → ¬KillPending c)
    (ha : Acts E m m') : Kept m' n := by
  induction ha with
  | refl => exact hk
  | tail hacts hact ih => exact ih.act (Acts.identified hacts hid) hE hact

/-! ### Sending -/

/-- Whether `kill` with the pid `target` by the process `c` is meant for the process `p`, and
allowed. -/
def Targets (c : Process) (target : UInt32) (p : Process) : Prop :=
  processSignalSenderCanTarget (some c) p sigkill = true ∧
    if target = 0 then p.group = c.group
    else if target = 0xffffffff then True
    else if 0x80000000 ≤ target then p.group = ~~~target + 1
    else p.pid = target

private theorem owed_of_queued {procs : Slot → Option Process} (ht : p.state.terminal = false)
    (hj : procs j = some (processSignalQueueOne p sigkill)) : Owed procs p.serial := by
  have hq := queued_queueOne (by decide : signalValid sigkill = true) p
  refine ⟨j, _, hj, by rw [hq.eq], ?_, killPending_queueOne p⟩
  rcases hq.state with hs | ⟨-, hs⟩
  · rwa [hs]
  · simp [hs, terminal]

/-- `process_signal_send` of `SIGKILL`, if it succeeds. -/
theorem owed_processSignalSend {target : UInt32} (h : At s i c)
    (hid : Identified (s.toMachine (.kernel i r)))
    (hok : (s.processSignalSend target sigkill).1 = .ok ()) (hp : s.view j = some p)
    (ht : p.state.terminal = false) (htarget : Targets c target p) :
    Owed (s.processSignalSend target sigkill).2.view p.serial := by
  obtain ⟨hmay, hsel⟩ := htarget
  have haddr : addressed s i c target j p = true := by
    have hvalid : ¬signalValid sigkill = false := by decide
    simp only [System.processSignalSend, if_neg hvalid, h.currentProc] at hok
    have hpid : p.pid = target → (if c.pid = target then decide (j = i)
        else decide (s.slotByPid target = some j)) = true := fun heq => heq ▸ addressed_pid h hid hp
    simp only [addressed]
    split_ifs at hok hsel hpid ⊢ <;> simp_all
  have hsent := congrArg (fun m => m.procs j)
    ((sends_processSignalSend (by decide : signalValid sigkill = true) h target).machine .idle)
  refine owed_of_queued (j := j) ht ?_
  simpa [toMachine, hp, sentTo, haddr, hmay] using hsent

/-! ### Runs -/

/-- In the state `s` the running program sends `SIGKILL` by `kill` or `raise`, that succeeds, and it
is meant for the process number `n`, which is alive. -/
def SendsKill (s : System) (e : Event) (n : Nat) : Prop :=
  ∃ c regs target j p, s.currentProc = some c ∧ s.user.isSome ∧
    ((∃ pid, e = .syscall regs (.kill pid 9) ∧ sysDecodePidArg pid = some target) ∨
      e = .syscall regs (.raise 9) ∧ target = c.pid) ∧
    (s.processSignalSend target sigkill).1 = .ok () ∧
    s.view j = some p ∧ p.serial = n ∧ p.state.terminal = false ∧ Targets c target p

/-- In the run no `SIGKILL` is lost: from the step on that sends it, and from any state in which it
is pending, it is pending in every state until the process has ended. -/
def KillsKept (s : System) (es : Run) : Prop :=
  ∀ es₁ e es₂, es₁ ++ e :: es₂ <+: es → ∀ n, SendsKill (s.run es₁) e.2 n ∨ Owed (s.run es₁).view n →
    Owed (s.run (es₁ ++ e :: es₂)).view n ∨ Gone (s.run (es₁ ++ e :: es₂)).view n

/-- No program of the run replaces itself while `SIGKILL` is pending for it. -/
def NoKilledExec (s : System) (es : Run) : Prop := RunAllowed (fun c => ¬KillPending c) s es

private theorem kept_of_owed {mode : Mode} (hid : Identified (s.toMachine mode))
    (h : Owed s.view n) :
    Kept (s.toMachine mode) n := by
  refine ⟨?_, .inl h⟩
  obtain ⟨i, p, hp, rfl, -, -⟩ := h
  exact hid.serial i _ (ids_of_procs hp)

/-- A step that sends `SIGKILL`. -/
theorem kept_of_sendsKill {mem : Memory} {e : Event} (hb : Between s)
    (hid : Identified (s.toMachine (betweenMode s))) (h : SendsKill s e n) :
    Kept ((s.step mem e).toMachine (betweenMode (s.step mem e))) n := by
  obtain ⟨c, regs, target, j, p, hcur, huser, hcall, hok, hp, rfl, ht, htarget⟩ := h
  cases hb with
  | idle hcur' _ => simp [System.currentProc, hcur'] at hcur
  | @user i c' u hruns hu =>
    have hcc : c' = c := some.inj (hruns.currentProc.symm.trans hcur)
    subst hcc
    have hid' : Identified (s.toMachine (.kernel i (ofUser regs))) := hid.congr rfl rfl rfl
    have howed := owed_processSignalSend hruns.toAt hid' hok hp ht htarget
    -- the syscall goes on from the state in which the signal is pending
    have hrest : ∀ call, (s.dispatch mem.copy c' (ofUser regs) call).1 =
        (s.processSignalSend target sigkill).2 → e = .syscall regs call →
        (∀ code, call ≠ .exit code) → (∀ image, call ≠ .exec (.ok image)) →
        Kept ((s.step mem e).toMachine (betweenMode (s.step mem e))) p.serial := by
      intro call hdis he hexit hexec
      have hd := dispatched_dispatch (E := fun _ => False) mem.copy call hruns
        (r := ofUser regs) rfl fun image hcall => absurd hcall (hexec image)
      have hreach := reaches_processAfterSyscall mem.frame mem.wake hd hid'
      have hid'' := hd.acts.identified hid'
      have hstep : s.step mem e = (s.dispatch mem.copy c' (ofUser regs) call).1.processAfterSyscall
          mem.frame mem.wake (s.dispatch mem.copy c' (ofUser regs) call).2.1
          (s.dispatch mem.copy c' (ofUser regs) call).2.2 := by
        rw [he]
        simp only [step, hruns.current, hu, syscallInt80, hruns.currentProc]
      rw [hstep]
      refine Kept.acts ?_ hid'' (fun _ hf => hf.elim) hreach.acts
      exact kept_of_owed hid'' (by rw [hdis]; exact howed)
    rcases hcall with ⟨pid, he, hpid⟩ | ⟨he, htgt⟩
    · refine hrest (.kill pid 9) ?_ he (by simp) (by simp)
      simp only [dispatch, sysKill, hpid]
      rfl
    refine hrest (.raise 9) ?_ he (by simp) (by simp)
    simp only [dispatch, sysRaise, processSignalRaise, hruns.currentProc, htgt]
    rfl

/-- A program that replaces itself while `SIGKILL` is pending goes on without it. -/
theorem not_kept_of_exec {mem : Memory} {regs : Regs} {image : Image} (h : Runs s i c)
    (huser : s.user.isSome) (hid : Identified (s.toMachine (betweenMode s))) :
    ¬(Owed (s.step mem (.syscall regs (.exec (.ok image)))).view c.serial ∨
      Gone (s.step mem (.syscall regs (.exec (.ok image)))).view c.serial) := by
  obtain ⟨u, hu⟩ := isSome_iff_exists.mp huser
  have hset := h.toAt.setCurrent (d := execReplacement c image) rfl
  have hstep : (s.step mem (.syscall regs (.exec (.ok image)))).view =
      ((s.toMachine (betweenMode s)).put i (execReplacement c image)).procs := by
    simp only [step, h.current, hu, syscallInt80, h.currentProc, dispatch, processAfterSyscall,
      h.resolve, commitExecReplacement, hset.sync]
    rw [← h.toAt.toMachine_setCurrent, ← hset.toMachine_store]
    rfl
  have hid' : Identified ((s.toMachine (betweenMode s)).put i (execReplacement c image)) :=
    hid.congr (ids_put h.procs rfl) rfl rfl
  rw [hstep]
  rintro (⟨j, p, hp, hserial, -, hpend⟩ | hgone)
  · have hji : j = i := hid'.serial_unique j i _ _ (ids_of_procs hp)
        (ids_of_procs put_procs) hserial
    subst hji
    rw [put_procs, some.injEq] at hp
    subst hp
    exact hpend (by simp [execReplacement, processSignalExecReset])
  · have hterm := hgone i _ put_procs rfl
    simp [execReplacement, terminal] at hterm

/-- In a run from the start of the scheduler, no `SIGKILL` is lost exactly if no program replaces
itself while one is pending for it. -/
theorem sigkill_kept_iff (nextPid : UInt64) (init : Image) (es : Run) :
    KillsKept (boot nextPid init) es ↔ NoKilledExec (boot nextPid init) es := by
  constructor
  · intro hkept
    refine runAllowed_iff.mpr fun es₁ e es₂ hes regs image c he hcur huser hpend => ?_
    have hreach : Reachable ((boot nextPid init).run es₁) := ⟨nextPid, init, es₁, rfl⟩
    cases hreach.reaches.between with
    | idle hcur' _ => simp [System.currentProc, hcur'] at hcur
    | @user i c' u hruns _ =>
      have hcc : c' = c := some.inj (hruns.currentProc.symm.trans hcur)
      subst hcc
      have howed : Owed ((boot nextPid init).run es₁).view c'.serial :=
        ⟨i, c', hruns.view_self, rfl, hruns.alive, hpend⟩
      have hafter := hkept es₁ e [] ⟨es₂, by simp [hes]⟩ c'.serial (.inr howed)
      rw [run_append] at hafter
      obtain ⟨mem, e⟩ := e
      subst he
      exact not_kept_of_exec hruns huser hreach.identified hafter
  · intro hno es₁ e es₂ hpre n hn
    obtain ⟨es₃, rfl⟩ := hpre
    obtain ⟨mem, e⟩ := e
    have hE : ∀ c : Process, ¬KillPending c → ¬KillPending c := fun _ h => h
    have hreach : Reachable ((boot nextPid init).run es₁) := ⟨nextPid, init, es₁, rfl⟩
    have hallowed := (runAllowed_append.mp (runAllowed_append.mp hno).1).2
    have hstep := reaches_step mem hreach.reaches.between hreach.identified hallowed.1
    have hid' := Acts.identified hstep.acts hreach.identified
    -- after the step in which it is sent or pending
    have hkept : Kept ((((boot nextPid init).run es₁).step mem e).toMachine
        (betweenMode (((boot nextPid init).run es₁).step mem e))) n := by
      rcases hn with hsent | howed
      · exact kept_of_sendsKill hreach.reaches.between hreach.identified hsent
      · exact (kept_of_owed hreach.identified howed).acts hreach.identified hE hstep.acts
    -- and in the rest of the run
    have hrest := reaches_run hid' (reaches_same hstep.between) hallowed.2
    rw [run_append]
    exact (hkept.acts hid' hE hrest.acts).kept

/-! ### A lost SIGKILL -/

def plainRun (es : List Event) : Run := es.map fun e => (plainMemory, e)

def plainCall (call : Call) : Event := .syscall plainImage.regs call

/-- The first process forks, and its child ignores signal 1.  Then the first process sends signal 1
to the child. -/
def beforeKill : Run :=
  plainRun
    [.enter slot0, plainCall (.fork (.cloned plainImage.space plainImage.space)), plainCall .yield,
      .enter slot1, plainCall (.signal 1 1), plainCall .yield,
      .enter slot0, plainCall (.kill 2 1)]

/-- The first process sends `SIGKILL` to the child. -/
def killStep : Memory × Event := (plainMemory, plainCall (.kill 2 9))

/-- Signal 1 is delivered when the child runs, and it replaces itself before the next signal is. -/
def afterKill : Run :=
  plainRun [plainCall .yield, .enter slot1, plainCall (.exec (.ok plainImage))]

/-- The child, which is the process number 1, goes on without the `SIGKILL`. -/
theorem exec_drops_sigkill :
    ¬KillsKept (boot 1 plainImage) (beforeKill ++ killStep :: afterKill) := by
  intro hkept
  obtain ⟨s₁, hs₁⟩ : ∃ s₁, s₁ = (boot 1 plainImage).run beforeKill := ⟨_, rfl⟩
  have hsent : SendsKill s₁ killStep.2 1 := by
    have htarget : (s₁.currentProc.any fun c => (s₁.view slot1).any fun p =>
        p.serial == 1 && !p.state.terminal && p.pid == 2 &&
          processSignalSenderCanTarget (some c) p sigkill) = true := by
      rw [hs₁]
      decide +kernel
    have huser : s₁.user.isSome = true := by
      rw [hs₁]
      decide +kernel
    have hok : (s₁.processSignalSend 2 sigkill).1 = .ok () := by
      have hok' : ((s₁.processSignalSend 2 sigkill).1.toOption).isSome = true := by
        rw [hs₁]
        decide +kernel
      cases hres : (s₁.processSignalSend 2 sigkill).1 with
      | ok u => rfl
      | error e => simp [hres, Except.toOption] at hok'
    rw [any_eq_true] at htarget
    obtain ⟨c, hc, hp⟩ := htarget
    rw [any_eq_true] at hp
    obtain ⟨p, hp, hfacts⟩ := hp
    simp only [Bool.and_eq_true, beq_iff_eq, Bool.not_eq_true'] at hfacts
    obtain ⟨⟨⟨hserial, halive⟩, hpid⟩, hmay⟩ := hfacts
    exact ⟨c, plainImage.regs, 2, slot1, p, hc, huser, .inl ⟨2, rfl, by decide⟩, hok, hp, hserial,
      halive, hmay, by simpa using hpid⟩
  have hafter := hkept beforeKill killStep afterKill (List.prefix_refl _) 1 (.inl (hs₁ ▸ hsent))
  obtain ⟨s₂, hs₂⟩ : ∃ s₂, s₂ = (boot 1 plainImage).run (beforeKill ++ killStep :: afterKill) :=
    ⟨_, rfl⟩
  have hpending : ((List.finRange asyncCap).all fun j =>
      (s₂.view j).all fun p => p.serial != 1 || p.pending == 0) = true := by
    rw [hs₂]
    decide +kernel
  have halive : ((s₂.view slot1).any fun p => p.serial == 1 && !p.state.terminal) = true := by
    rw [hs₂]
    decide +kernel
  rw [← hs₂] at hafter
  rcases hafter with ⟨j, p, hp, hserial, -, hkill⟩ | hgone
  · have hj := List.all_eq_true.mp hpending j (List.mem_finRange j)
    simp only [hp, all_some, hserial, bne_self_eq_false, Bool.false_or, beq_iff_eq] at hj
    simp [KillPending, hj] at hkill
  rw [any_eq_true] at halive
  obtain ⟨p, hp, hfacts⟩ := halive
  simp only [Bool.and_eq_true, beq_iff_eq, Bool.not_eq_true'] at hfacts
  simp [hgone slot1 p hp hfacts.1] at hfacts

end Rabbitbone.Spec.Proc
