import Rabbitbone.Native.Proc.Scheduler

/-!
# What signals do to a process

One lemma for each of the functions that copy to a process, queue and deliver a signal, and return
from a handler.
-/

namespace Rabbitbone.Spec.Proc

open Native.Proc Native.Proc.System

variable {c c' p : Process} {r r' : Regs} {frame : Nat → Bool}

/-! ### Copying to a process -/

/-- A buffer that can be written without more memory. -/
structure Writable (sp : UserSpace) (addr size : Nat) : Prop where
  valid : userAddrRangeValid addr size = true
  pages : ∀ page ∈ pagesOf addr size, sp.write page = .writable

variable {alloc : Nat → Bool} {sp : UserSpace} {addr size sig : Nat}

/-- Pages that are writable stay so, and those that were asked for are. -/
theorem makeWritable_spec {pages : List Nat} :
    (∀ page, sp.write page = .writable → (makeWritable alloc pages sp).2.write page = .writable) ∧
    ((makeWritable alloc pages sp).1 = true →
      ∀ page ∈ pages, (makeWritable alloc pages sp).2.write page = .writable) := by
  induction pages generalizing sp with
  | nil => exact ⟨fun _ h => h, fun _ _ h => nomatch h⟩
  | cons page pages ih =>
    simp only [makeWritable]
    cases hpage : sp.write page with
    | denied => exact ⟨fun _ h => h, fun h => nomatch h⟩
    | writable =>
      refine ⟨ih.1, fun hok k hk => ?_⟩
      rcases List.mem_cons.mp hk with rfl | hk
      · exact ih.1 _ hpage
      · exact ih.2 hok k hk
    | deferred =>
      dsimp only
      split
      · -- the page is brought in, and the rest goes on from there
        refine ⟨fun k hk => ih.1 k (by simp [hk]), fun hok k hk => ?_⟩
        rcases List.mem_cons.mp hk with rfl | hk
        · exact ih.1 _ (by simp)
        · exact ih.2 hok k hk
      · exact ⟨fun _ h => h, fun h => nomatch h⟩

/-- A copy takes no page away. -/
theorem Writable.copy (h : Writable sp addr size) (addr' size' : Nat) :
    Writable (copyToProcess alloc sp addr' size').2 addr size := by
  refine ⟨h.valid, fun page hpage => ?_⟩
  simp only [copyToProcess]
  split
  · exact h.pages page hpage
  · exact makeWritable_spec.1 page (h.pages page hpage)

/-- What was copied to can be copied to. -/
theorem writable_of_copy (h : (copyToProcess alloc sp addr size).1 = true) :
    Writable (copyToProcess alloc sp addr size).2 addr size := by
  simp only [copyToProcess] at h ⊢
  split_ifs at h ⊢ with hvalid
  exact ⟨by simpa using hvalid, makeWritable_spec.2 h⟩

/-- A copy to a buffer that is writable succeeds and changes nothing. -/
theorem Writable.copy_eq (h : Writable sp addr size) (alloc : Nat → Bool) :
    copyToProcess alloc sp addr size = (true, sp) := by
  have hall : ∀ pages : List Nat, (∀ page ∈ pages, sp.write page = .writable) →
      makeWritable alloc pages sp = (true, sp) := by
    intro pages
    induction pages with
    | nil => intro _; rfl
    | cons page pages ih =>
      intro hpages
      simp only [makeWritable, hpages page (List.mem_cons_self ..)]
      exact ih fun k hk => hpages k (List.mem_cons_of_mem _ hk)
  simp only [copyToProcess, h.valid, hall _ h.pages]
  rfl

/-! ### Sets of signals -/

/-- Whether a signal is in a set. -/
def hasSignal (m : UInt64) (sig : Nat) : Bool := m.toBitVec.getLsbD sig

@[simp] theorem hasSignal_and (a b : UInt64) (sig : Nat) :
    hasSignal (a &&& b) sig = (hasSignal a sig && hasSignal b sig) := by
  simp [hasSignal]

@[simp] theorem hasSignal_or (a b : UInt64) (sig : Nat) :
    hasSignal (a ||| b) sig = (hasSignal a sig || hasSignal b sig) := by
  simp [hasSignal]

theorem hasSignal_not (h : sig < 64) (a : UInt64) : hasSignal (~~~a) sig = !hasSignal a sig := by
  simp [hasSignal, h]

@[simp] theorem hasSignal_zero (sig : Nat) : hasSignal 0 sig = false := by
  simp [hasSignal]

/-- The bit of a signal is that of no other. -/
theorem hasSignal_signalBit :
    ∀ sig < nsig, ∀ k < nsig, hasSignal (signalBit sig) k = (k == sig) := by
  decide +kernel

theorem eq_zero_iff_hasSignal (a : UInt64) : a = 0 ↔ ∀ sig < 64, hasSignal a sig = false := by
  constructor
  · rintro rfl sig -
    exact hasSignal_zero sig
  · intro h
    apply UInt64.toBitVec_inj.mp
    apply BitVec.eq_of_getLsbD_eq
    intro k hk
    simpa [hasSignal] using h k hk

private theorem hasSignal_unmaskableBits : ∀ k < 64,
    hasSignal unmaskableBits k = (k == sigkill || k == sigstop) := by
  decide +kernel

/-- A set of blocked signals without `SIGKILL` and `SIGSTOP`. -/
def Maskable (m : UInt64) : Prop := m &&& unmaskableBits = 0

private theorem maskable_iff {m : UInt64} :
    Maskable m ↔ hasSignal m sigkill = false ∧ hasSignal m sigstop = false := by
  simp only [Maskable, eq_zero_iff_hasSignal, hasSignal_and]
  constructor
  · intro h
    have hk := h sigkill (by decide)
    have hs := h sigstop (by decide)
    rw [hasSignal_unmaskableBits _ (by decide)] at hk hs
    simpa using And.intro hk hs
  · rintro ⟨hk, hs⟩ k hk64
    rw [hasSignal_unmaskableBits k hk64]
    by_cases h9 : k = sigkill
    · simp [h9, hk]
    by_cases h19 : k = sigstop
    · simp [h19, hs]
    · simp [h9, h19]

theorem maskable_zero : Maskable 0 := by simp [Maskable]

/-- `signal_sanitized_mask` leaves what may be blocked. -/
theorem maskable_sanitized (m : UInt64) : Maskable (signalSanitizedMask m) := by
  rw [maskable_iff]
  simp only [signalSanitizedMask, hasSignal_and]
  rw [hasSignal_not (by decide) unmaskableBits, hasSignal_not (by decide) unmaskableBits,
    hasSignal_unmaskableBits _ (by decide), hasSignal_unmaskableBits _ (by decide)]
  simp

theorem Maskable.or {a b : UInt64} (ha : Maskable a) (hb : Maskable b) : Maskable (a ||| b) := by
  rw [maskable_iff] at *
  simp [ha, hb]

theorem Maskable.and {a : UInt64} (ha : Maskable a) (b : UInt64) : Maskable (a &&& b) := by
  rw [maskable_iff] at *
  simp [ha]

/-- `process_signal_mask` blocks nothing that must not be blocked. -/
theorem maskable_processSignalMask (how : MaskHow) (set : Option UInt64) (h : Maskable p.blocked) :
    Maskable (processSignalMask p how set).blocked := by
  cases set with
  | none => exact h
  | some set =>
    cases how with
    | block => exact h.or (maskable_sanitized set)
    | unblock => exact h.and _
    | setmask => exact maskable_sanitized set

/-! ### Queueing -/

/-- What queueing a signal does: the signal is pending, and nothing else has changed than that
`SIGCONT` and the stop signals cancel each other and that a stopped process may be continued. -/
structure Queued (sig : Nat) (p p' : Process) : Prop where
  eq : p' = { p with pending := p'.pending, state := p'.state, stoppedFlag := p'.stoppedFlag }
  state : p'.state = p.state ∨ p.state = .stopped ∧ p'.state = .ready
  pending : hasSignal p'.pending sig = true
  kept : ∀ k < nsig, k ≠ sigcont → signalStopDefault k = false →
    hasSignal p.pending k = true → hasSignal p'.pending k = true

private theorem hasSignal_stopPendingMask : ∀ k < nsig,
    hasSignal signalStopPendingMask k = signalStopDefault k := by
  decide +kernel

theorem queued_queueOne (hsig : signalValid sig = true) (p : Process) :
    Queued sig p (processSignalQueueOne p sig) := by
  simp only [signalValid, Bool.and_eq_true, decide_eq_true_eq] at hsig
  have hbit := hasSignal_signalBit sig hsig.2 sig hsig.2
  have hcont : ∀ k < nsig, k ≠ sigcont → hasSignal (~~~signalBit sigcont) k = true := by
    intro k hk hne
    rw [hasSignal_not (by simp only [nsig] at hk; omega), hasSignal_signalBit _ (by decide) k hk]
    simp [hne]
  have hstop : ∀ k < nsig, signalStopDefault k = false →
      hasSignal (~~~signalStopPendingMask) k = true := by
    intro k hk hne
    rw [hasSignal_not (by simp only [nsig] at hk; omega), hasSignal_stopPendingMask k hk, hne]
    rfl
  simp only [processSignalQueueOne]
  split_ifs with h1 h2 h3 h4
  · exact ⟨rfl, .inr ⟨h2, rfl⟩, by simp [hbit], fun k hk _ hd hp => by simp [hp, hstop k hk hd]⟩
  · exact ⟨rfl, .inl rfl, by simp [hbit], fun k hk _ hd hp => by simp [hp, hstop k hk hd]⟩
  · exact ⟨rfl, .inl rfl, by simp [hbit], fun k hk hne _ hp => by simp [hp, hcont k hk hne]⟩
  · exact ⟨rfl, .inr ⟨h4.2, rfl⟩, by simp [hbit], fun k _ _ _ hp => by simp [hp]⟩
  · exact ⟨rfl, .inl rfl, by simp [hbit], fun k _ _ _ hp => by simp [hp]⟩

/-! ### Delivering -/

/-- The process without one of its pending signals. -/
def unpend (p : Process) (sig : Nat) : Process :=
  { p with pending := p.pending &&& ~~~signalBit sig }

private theorem nextDeliverable_lt (h : processNextDeliverableSignal p = some sig) :
    0 < sig ∧ sig < nsig := by
  have hmem := List.mem_of_find?_eq_some h
  rw [List.mem_range'_1] at hmem
  omega

/-- A process whose handler is about to run: the registers to which it returns are in the frame, and
the frame has been written. -/
structure Entered (frame : Nat → Bool) (p : Process) (r : Regs) (p' : Process) (r' : Regs) :
    Prop where
  eq : p' = { p with
    space := p'.space, blocked := p'.blocked, inHandler := true, frameAddr := p'.frameAddr,
    frame := p'.frame }
  space : ∃ addr, p'.space = (copyToProcess frame p.space addr signalFrameSize).2
  blocked : Maskable p'.blocked
  saved : ∃ f, p'.frame = some f ∧ f.savedRegs = r
  regs : r'.returnOf = none

private theorem entered_makeFrame {a : SigAction}
    (h : processSignalMakeFrame frame p r sig a = some (c', r')) : Entered frame p r c' r' := by
  simp only [processSignalMakeFrame] at h
  split_ifs at h with h1 h2 h3
  split at h
  · cases h
  next space hcopy =>
  obtain ⟨rfl, rfl⟩ := h
  exact ⟨rfl, ⟨_, (congrArg Prod.snd hcopy).symm⟩, maskable_sanitized _, ⟨_, rfl, rfl⟩, rfl⟩

/-- A signal that lets the process go on: it is ignored or continues the process, or its handler is
entered.  It is not `SIGKILL`. -/
inductive Handled (frame : Nat → Bool) (p : Process) (r : Regs) : Process → Regs → Prop where
  | ignored (sig : Nat) (hlt : sig < nsig) (hsig : sig ≠ sigkill) (state : ProcState) (flag : Bool)
      (hs : state = p.state ∨ p.state = .stopped ∧ state = .ready) :
    Handled frame p r { unpend p sig with state := state, stoppedFlag := flag } r
  | entered (sig : Nat) (hlt : sig < nsig) (hsig : sig ≠ sigkill) {p' : Process} {r' : Regs}
      (h : Entered frame (unpend p sig) r p' r') : Handled frame p r p' r'

/-- What the delivery to a handler does. -/
theorem handled_deliver (h : processSignalDeliverPending frame p r = .handled c' r') :
    Handled frame p r c' r' := by
  simp only [processSignalDeliverPending] at h
  split at h
  · cases h
  next sig hnext =>
  have hlt := (nextDeliverable_lt hnext).2
  split_ifs at h with hcont hs hign hhandler hstop hterm
  · obtain ⟨rfl, rfl⟩ := h
    exact .ignored sig hlt (by simp [hcont, sigcont, sigkill]) _ _ (.inr ⟨hs, rfl⟩)
  · obtain ⟨rfl, rfl⟩ := h
    exact .ignored sig hlt (by simp [hcont, sigcont, sigkill]) _ _ (.inl rfl)
  · obtain ⟨rfl, rfl⟩ := h
    exact .ignored sig hlt (by rintro rfl; simp [signalUnmaskable] at hign) _ _ (.inl rfl)
  · split at h
    · next p' r' hframe =>
      obtain ⟨rfl, rfl⟩ := h
      exact .entered sig hlt (by rintro rfl; simp [signalUnmaskable] at hhandler)
        (entered_makeFrame hframe)
    · cases h
  · obtain ⟨rfl, rfl⟩ := h
    exact .ignored sig hlt (fun hk => hterm (.inr hk)) _ _ (.inl rfl)

/-- A delivery that stops a process takes the signal away. -/
theorem deliver_stopped (h : processSignalDeliverPending frame p r = .stopped c') :
    ∃ sig < nsig, sig ≠ sigkill ∧
      c' = { unpend p sig with state := .stopped, stoppedFlag := true } := by
  simp only [processSignalDeliverPending] at h
  split at h
  · cases h
  next sig hnext =>
  have hlt := (nextDeliverable_lt hnext).2
  split_ifs at h with hcont hign hhandler hstop hterm
  · split at h <;> cases h
  simp only [Delivery.stopped.injEq] at h
  exact ⟨sig, hlt, by rintro rfl; simp [signalStopDefault, sigkill, sigstop, sigtstp, sigttin,
    sigttou] at hstop, h.symm⟩

/-- A delivery that ends a process takes the signal away and leaves a status. -/
theorem deliver_terminated {state : ProcState}
    (h : processSignalDeliverPending frame p r = .terminated c' state) :
    state.terminal ∧ ∃ sig code faulted,
      c' = { unpend p sig with exitCode := code, faulted := faulted } := by
  simp only [processSignalDeliverPending] at h
  split at h
  · cases h
  next sig hnext =>
  split_ifs at h with hcont hign hhandler hstop hterm
  · split at h
    · cases h
    · obtain ⟨rfl, rfl⟩ := h
      exact ⟨rfl, sig, _, _, rfl⟩
  · obtain ⟨rfl, rfl⟩ := h
    exact ⟨rfl, sig, _, _, rfl⟩

/-! ### Returning from a handler -/

/-- The flags that a program may set itself, with the two that are always set. -/
def userFlags : UInt64 := 0xcd5 ||| 0x202

/-- Registers with which it is safe to go to user mode: the selectors are those of user code and
data, interrupts are enabled and no flag is set that a program may not set (`TF`, `IOPL`, `NT`,
`RF`, `VM`, `AC`, `VIF`, `VIP`, `ID` and all above), the instruction pointer is in memory that the
program may execute, and the stack pointer is a user address. -/
structure SafeContext (sp : UserSpace) (r : Regs) : Prop where
  cs : r.cs = ucodeSel
  ss : r.ss = udataSel
  interrupts : r.rflags &&& 0x200 ≠ 0
  flags : r.rflags &&& ~~~userFlags = 0
  rip : codePointerValid sp r.rip = true
  rsp : userAddrRangeValid r.rsp.toNat 1 = true

/-- What a return from a handler does: it resumes in a safe context, which is what the frame says
but for the fields that the kernel sets. -/
structure Restored (p : Process) (f : SignalFrame) (p' : Process) (r' : Regs) : Prop where
  eq : p' = { p with blocked := p'.blocked, inHandler := false, frameAddr := 0, regs := r' }
  blocked : Maskable p'.blocked
  active : p.inHandler = true
  rax : r'.rax = f.savedRegs.rax
  returnOf : r'.returnOf = f.savedRegs.returnOf
  safe : SafeContext p.space r'

private theorem sanitized_interrupts (rflags : UInt64) :
    signalSanitizeUserRflags rflags &&& 0x200 ≠ 0 := by
  intro h
  rw [eq_zero_iff_hasSignal] at h
  have h9 := h 9 (by decide)
  simp only [signalSanitizeUserRflags, hasSignal_and, hasSignal_or] at h9
  have h1 : hasSignal 0x202 9 = true := by decide +kernel
  have h2 : hasSignal 0x200 9 = true := by decide +kernel
  simp [h1, h2] at h9

private theorem sanitized_flags (rflags : UInt64) :
    signalSanitizeUserRflags rflags &&& ~~~userFlags = 0 := by
  rw [eq_zero_iff_hasSignal]
  intro k hk
  simp only [signalSanitizeUserRflags, userFlags, hasSignal_and, hasSignal_or, hasSignal_not hk]
  cases hasSignal 0xcd5 k <;> cases hasSignal 0x202 k <;> simp

/-- A return from a handler restores what the frame says. -/
theorem restored_signalReturn {addr : UInt64} {content : Option SignalFrame}
    (h : processSignalReturn p addr content r = some (c', r')) :
    ∃ f, content = some f ∧ Restored p f c' r' := by
  simp only [processSignalReturn] at h
  split_ifs at h with h1 h2
  split at h
  · cases h
  next f =>
  split_ifs at h with h3 h4
  obtain ⟨rfl, rfl⟩ := h
  simp only [not_or, Bool.not_eq_false] at h1 h4
  exact ⟨f, rfl, rfl, maskable_sanitized _, h1.2, rfl, rfl,
    ⟨rfl, rfl, sanitized_interrupts _, sanitized_flags _, h4.1, h4.2⟩⟩

end Rabbitbone.Spec.Proc
