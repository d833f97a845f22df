import Rabbitbone.Spec.Proc.SchedulerSimulation

/-!
# Signal masks and returns from handlers

No process ever has `SIGKILL` or `SIGSTOP` blocked, and a program that returns from a signal handler
goes on in a safe context whatever it has left in the frame.  Between the return and the next
instruction of the program there may be another signal: then the context is the one that the new
frame, or the record of a process that is stopped, keeps for it.
-/

namespace Rabbitbone.Spec.Proc

open Native.Proc Native.Proc.System Option

variable {alloc : Slot → Nat → Bool} {E : Process → Prop} {m m' : Machine} {s : System} {i : Slot}
  {c c' p : Process} {r r' : Regs}

/-! ### Masks -/

/-- No process has `SIGKILL` or `SIGSTOP` blocked. -/
def AllMaskable (m : Machine) : Prop := ∀ j p, m.procs j = some p → Maskable p.blocked

/-- A change of one process. -/
theorem AllMaskable.put (h : AllMaskable m) (hp : Maskable p.blocked) :
    AllMaskable (m.put i p) := by
  intro j q hq
  by_cases hj : j = i
  · subst hj
    rw [put_procs, some.injEq] at hq
    exact hq ▸ hp
  · exact h j q (by rwa [put_procs_of_ne hj] at hq)

/-- A record with the mask of another. -/
theorem AllMaskable.keep (h : AllMaskable m) {j : Slot} (hc : m.procs j = some c)
    (hb : p.blocked = c.blocked) : AllMaskable (m.put i p) :=
  h.put (hb ▸ h j c hc)

/-- A change of every process. -/
theorem AllMaskable.map (h : AllMaskable m) {f : Slot → Process → Process}
    (hf : ∀ j p, (f j p).blocked = p.blocked) : AllMaskable (m.map f) := by
  intro j q hq
  simp only [map_procs, map_eq_some_iff] at hq
  obtain ⟨p, hp, rfl⟩ := hq
  exact hf j p ▸ h j p hp

theorem AllMaskable.remove (h : AllMaskable m) (i : Slot) (p : Process) :
    AllMaskable (m.remove i p) := by
  intro j q hq
  by_cases hj : j = i
  · simp [Machine.remove, hj] at hq
  · exact h j q (by simpa [Machine.remove, hj] using hq)

private theorem wakeAll_maskable (h : AllMaskable m) (alloc : Slot → Nat → Bool) (c : Process) :
    AllMaskable (m.wakeAll alloc c) :=
  h.map fun j p => by split <;> rfl

private theorem Act.allMaskable (ha : Act E m m') (h : AllMaskable m) : AllMaskable m' := by
  cases ha with
  | enter _ hp _ | join hp _ => exact h.keep hp rfl
  | trap | answer | pass | resume | leave => exact h
  | change _ hc hch => exact h.put (hch.blocked (h _ _ hc))
  | @send sel sig hsig =>
    refine h.map fun j p => ?_
    split
    · rw [(queued_queueOne hsig p).eq]
    · rfl
  | signalReturn _ _ hret =>
    obtain ⟨f, -, hf⟩ := restored_signalReturn hret
    exact h.put hf.blocked
  | handle _ hc hd =>
    cases handled_deliver hd with
    | ignored => exact h.keep hc rfl
    | entered _ _ _ hent => exact h.put hent.blocked
  | stop _ hc _ hd =>
    obtain ⟨sig, -, -, rfl⟩ := deliver_stopped hd
    exact h.keep hc rfl
  | save _ hc | preempt _ hc | waitBlocked _ hc _ _ _ _ _ _ _ _ => exact h.keep hc rfl
  | finish _ hc he => exact h.keep hc he.blocked
  | orphan => exact h.map fun j p => by split <;> rfl
  | wakeNone => exact wakeAll_maskable h _ _
  | @wakeSome i c alloc _ _ _ _ => exact (wakeAll_maskable h alloc c).remove i c
  | birth _ hp =>
    rcases hp.blocked with hb | ⟨j, q, hq, hb⟩
    · exact h.put (hb ▸ maskable_zero)
    · exact h.keep hq hb
  | @waitEnded _ j _ _ _ q _ _ _ _ _ _ _ _ _ _ => exact h.remove j q
  | exec => exact h.put (maskable_sanitized _)
  | scan _ now =>
    refine h.map fun _ p => ?_
    simp only [faultInvalidReadySlot, wakeSleeper]
    split_ifs <;> rfl

private theorem Acts.allMaskable (ha : Acts E m m') (h : AllMaskable m) : AllMaskable m' := by
  induction ha with
  | refl => exact h
  | tail _ hact ih => exact hact.allMaskable ih

/-! ### Returns -/

/-- The registers to which the handler that runs in `p` will return. -/
def HandlerHolds (p : Process) (r : Regs) : Prop :=
  p.inHandler = true ∧ ∃ f, p.frame = some f ∧ f.savedRegs = r

/-- The process of slot `i` goes on with the registers `r`: it does so now, or they are kept for it
in the frame of a handler that runs first or in its record, unless the process has ended. -/
def ResumesWith (s : System) (i : Slot) (r : Regs) : Prop :=
  match s.current with
  | some (j, p) => j = i ∧ (s.user = some r ∨ HandlerHolds p r)
  | none => ∀ p, s.slots i = some p → p.state.terminal = true ∨ p.regs = r ∨ HandlerHolds p r

private theorem resumesWith_clear (hp : (s.slots i).all fun p => p.state.terminal = true) :
    ResumesWith s.clearCurrentAsync i r := by
  intro p hslot
  have hslot' : s.slots i = some p := hslot
  simp only [hslot', all_some, decide_eq_true_eq] at hp
  exact .inl hp

private theorem resumesWith_stored (h : p.regs = r ∨ HandlerHolds p r) :
    ResumesWith (s.setSlot i (some p)).clearCurrentAsync i r := by
  intro q hq
  have hq' : some p = some q := by simpa [clearCurrentAsync, System.setSlot] using hq
  cases hq'
  exact .inr h

/-- The end of a syscall that goes on with the registers `r'`, after a signal was delivered or
not. -/
theorem resumesWith_resume {reschedule handled : Bool} (h : At s i c)
    (hr : r' = r ∨ HandlerHolds c r) : ResumesWith (s.resume reschedule handled r') i r := by
  simp only [resume, h.currentProc]
  split
  · simp only [processPreemptFromInterrupt, h.currentProc, h.resolve]
    have hset := h.setCurrent
      (d := { c with regs := r', state := if c.state = .running then .ready else c.state }) rfl
    rw [hset.sync]
    exact resumesWith_stored hr
  have hres : ∀ t : System, At t i c → ResumesWith { t with user := some r' } i r := by
    intro t ht
    simp only [ResumesWith, ht.current, some.injEq, true_and]
    exact hr
  cases handled with
  | false => exact hres s h
  | true =>
    simp only [if_true, h.sync]
    exact hres _ h.store

/-- A process that has ended is reaped or left as it is when others are woken. -/
theorem wakeWaiters_ended {pid : UInt32} (hslot : s.slots i = some c)
    (ht : c.state.terminal = true) :
    ((s.wakeWaiters alloc pid).slots i).all fun p => p.state.terminal = true := by
  rcases slots_wakeWaiters alloc pid hslot with ⟨-, hnone⟩ | ⟨q, hq, rfl | ⟨hw, -⟩⟩
  · simp [hnone]
  · simp [hq, ht]
  · simp [waitsFor_of_terminal ht] at hw

private theorem resumesWith_terminateCurrent {state : ProcState} {x : Process} {regs : Regs}
    (h : At s i c) (hx : Akin c x) (ht : state.terminal = true) :
    ResumesWith ((s.setCurrent x).terminateCurrent alloc state regs) i r := by
  obtain ⟨c', -, hterm, -, hslot, -⟩ := acts_finishCurrent (E := fun _ => True) (r := regs)
    regs h hx ht
  simp only [terminateCurrent, (h.setCurrent hx.pid).currentProc]
  exact resumesWith_clear (wakeWaiters_ended hslot hterm)

private theorem resumesWith_deliverAndResume {frame : Nat → Bool} {reschedule : Bool} (h : At s i c)
    (hregs : c.regs = r) : ResumesWith (s.deliverAndResume frame alloc reschedule r) i r := by
  simp only [deliverAndResume, h.currentProc]
  cases hd : processSignalDeliverPending frame c r with
  | none => exact resumesWith_resume h (.inl rfl)
  | handled c' r' =>
    have hhandled := handled_deliver hd
    refine resumesWith_resume (h.setCurrent (handled_pid hhandled)) ?_
    cases hhandled with
    | ignored => exact .inl rfl
    | entered _ _ _ hent =>
      refine .inr ⟨?_, hent.saved⟩
      rw [hent.eq]
  | terminated c' state =>
    obtain ⟨hakin, ht⟩ := akin_terminated hd
    exact resumesWith_terminateCurrent h hakin ht
  | stopped c' =>
    obtain ⟨sig, -, -, rfl⟩ := deliver_stopped hd
    have hset := h.setCurrent
        (d := { unpend c sig with state := .stopped, stoppedFlag := true }) rfl
    dsimp only
    rw [hset.sync]
    exact resumesWith_stored (.inl hregs)

/-- A successful `sigreturn`, up to the next instruction of a program. -/
theorem resumesWith_sigreturn {mem : Memory} {regs : Regs} {addr : UInt64} {content : FrameContent}
    (h : Runs s i c) (huser : s.user.isSome)
    (hret : processSignalReturn c addr (content.read c) (ofUser regs) = some (c', r)) :
    ResumesWith (s.step mem (.syscall regs (.sigreturn addr content))) i r := by
  obtain ⟨u, hu⟩ := isSome_iff_exists.mp huser
  obtain ⟨hruns, hsync, -⟩ := answered_signalReturn (E := fun _ => True) h hret
  obtain ⟨f, -, hf⟩ := restored_signalReturn hret
  simp only [step, h.current, hu, syscallInt80, h.currentProc, dispatch, hret, hsync,
    processAfterSyscall, hruns.toAt.resolve]
  exact resumesWith_deliverAndResume hruns.toAt (by rw [hf.eq])

private theorem allMaskable_noProcs : AllMaskable noProcs := fun _ _ h => nomatch h

/-- In every state of every run, no process has `SIGKILL` or `SIGSTOP` blocked, and if the program
that runs returns from a signal handler with any frame, and that succeeds, then it goes on in a safe
context. -/
theorem sigreturn_safe (h : Reachable s) :
    (∀ i p, s.view i = some p → p.blocked &&& unmaskableBits = 0) ∧
    ∀ mem regs addr content i c c' r, s.current = some (i, c) → s.user.isSome →
      processSignalReturn c addr (FrameContent.read content c) (ofUser regs) = some (c', r) →
      SafeContext c.space r ∧
        ResumesWith (s.step mem (.syscall regs (.sigreturn addr content))) i r := by
  have hreaches := h.reaches
  refine ⟨fun i p hp => hreaches.acts.allMaskable allMaskable_noProcs i p hp, ?_⟩
  intro mem regs addr content i c c' r hcur huser hret
  obtain ⟨f, -, hf⟩ := restored_signalReturn hret
  refine ⟨hf.safe, ?_⟩
  cases hreaches.between with
  | idle hcur' _ => simp [hcur'] at hcur
  | user hruns _ =>
    rw [hruns.current, some.injEq, Prod.mk.injEq] at hcur
    obtain ⟨rfl, rfl⟩ := hcur
    exact resumesWith_sigreturn hruns huser hret

/-- The program sets a handler for signal 10 and raises the signal. -/
def handlerRun : Run :=
  [.enter slot0, .syscall plainImage.regs (.sigaction 10 (some ⟨0x401000, 0, 0, 0x402000⟩) true),
    .syscall plainImage.regs (.raise 10)].map fun e => (plainMemory, e)

/-- A frame with all flags set and with the selectors of the kernel. -/
def forgedFrame : FrameContent :=
  .written ⟨1, signalFrameMagic, ~~~0, 10,
    { plainImage.regs with cs := 0x08, ss := 0x10, rflags := ~~~0 }⟩

/-- The forged frame is accepted, and the context is safe. -/
theorem sigreturn_safe_forged : ∃ i c c' r,
    ((boot 1 plainImage).run handlerRun).current = some (i, c) ∧
    processSignalReturn c 0x6fffff28 (forgedFrame.read c) (ofUser plainImage.regs) = some (c', r) ∧
    SafeContext c.space r := by
  have hsome : (((boot 1 plainImage).run handlerRun).current.bind fun x =>
      processSignalReturn x.2 0x6fffff28 (forgedFrame.read x.2)
        (ofUser plainImage.regs)).isSome = true := by
    decide +kernel
  obtain ⟨⟨c', r⟩, hbind⟩ := isSome_iff_exists.mp hsome
  obtain ⟨⟨i, c⟩, hcur, hret⟩ := bind_eq_some_iff.mp hbind
  have huser : ((boot 1 plainImage).run handlerRun).user.isSome = true := by decide +kernel
  exact ⟨i, c, c', r, hcur, hret,
    ((sigreturn_safe ⟨1, plainImage, handlerRun, rfl⟩).2 plainMemory _ _ _ _ _ _ _ hcur huser
      hret).1⟩

end Rabbitbone.Spec.Proc
