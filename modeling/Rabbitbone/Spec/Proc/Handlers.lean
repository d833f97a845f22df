import Rabbitbone.Native.Proc.SignalFrame
import Rabbitbone.Spec.Proc.SchedulerSimulation

/-!
# Entering a handler and returning from it

When the delivery of a signal enters the handler that the program has set for it, and that a handler
that leaves its frame alone returns to what was interrupted.

## Key results

- `deliver_enters_iff`: the handler is entered unless another one is active or the signal is
  `SIGCONT`.
- `signalReturn_roundTrip_iff`: the way back, unless the frame or the place to return to is refused.
- `fork_signalReturn_iff`: a child that is born in a handler has no way back.
-/

namespace Rabbitbone.Spec.Proc

open Native.Proc

variable {m m' : ByteMemory} {p : Process} {r : Regs} {alloc : Nat → Bool} {sig : Nat}

/-! ### Entering -/

/-- The handler of a signal is one that `process_signal_set_action` has put there. -/
def HasHandler (p : Process) (sig : Nat) : Prop :=
  ∃ q q' a, processSignalSetAction q sig (some a) = .ok q' ∧ 1 < a.handler ∧
    p.actions sig = q'.actions sig

/-- Where the frame of a signal goes. -/
def signalFrameAddr (r : Regs) : Nat := (r.rsp.toNat - signalFrameSize - 8) / 16 * 16 + 8

/-- There is room for the frame: it can be written, possibly after its pages were brought in. -/
def HasRoom (alloc : Nat → Bool) (p : Process) (r : Regs) : Prop :=
  (copyToProcess alloc p.space (signalFrameAddr r) signalFrameSize).1 = true

/-- The handler of the signal runs next, on the frame, and the process goes on as it was. -/
structure Enters (p : Process) (r : Regs) (sig : Nat) (p' : Process) (r' : Regs) : Prop where
  state : p'.state = p.state
  active : p'.inHandler = true
  rip : r'.rip = (p.actions sig).handler
  rdi : r'.rdi = UInt64.ofNat sig
  rsp : r'.rsp.toNat = signalFrameAddr r

private theorem HasHandler.action (h : HasHandler p sig) :
    signalUnmaskable sig = false ∧ 1 < (p.actions sig).handler ∧ (p.actions sig).restorer ≠ 0 := by
  obtain ⟨q, q', a, hset, hhandler, hact⟩ := h
  simp only [processSignalSetAction] at hset
  split_ifs at hset with h1 h2 h3 h4 h5
  simp only [Except.ok.injEq] at hset
  subst hset
  rw [hact]
  simp only [if_true]
  exact ⟨by simpa using h2, hhandler, fun h0 => h4 ⟨hhandler, h0⟩⟩

/-- The frame lies below the stack pointer. -/
theorem HasRoom.lt (h : HasRoom alloc p r) :
    signalFrameSize + 16 ≤ r.rsp.toNat ∧ signalFrameAddr r < r.rsp.toNat := by
  have hvalid := (writable_of_copy h).valid
  have hmin : Native.Sys.userMin ≤ signalFrameAddr r := by
    simp only [userAddrRangeValid, Native.Sys.userRangeCheck, Bool.and_eq_true, Bool.or_eq_true,
      decide_eq_true_eq] at hvalid
    exact (hvalid.1.resolve_left (by decide)).1
  simp only [signalFrameAddr, signalFrameSize, Native.Sys.userMin] at hmin ⊢
  omega

/-- With room for the frame, a frame is made unless a handler is active. -/
theorem makeFrame_enters {a : SigAction} (hact : p.actions sig = a) (ha : 1 < a.handler)
    (hres : a.restorer ≠ 0) (hroom : HasRoom alloc p r) (hidle : p.inHandler = false) :
    ∃ p' r', processSignalMakeFrame alloc p r sig a = some (p', r') ∧ Enters p r sig p' r' := by
  have hlt := hroom.lt
  have hcopy : copyToProcess alloc p.space (signalFrameAddr r) signalFrameSize
      = (true, (copyToProcess alloc p.space (signalFrameAddr r) signalFrameSize).2) :=
    Prod.ext hroom rfl
  rw [signalFrameAddr] at hcopy hlt
  simp only [processSignalMakeFrame]
  rw [if_neg (by simp [hidle, hres, ha]), if_neg (by omega), if_neg (by omega), hcopy]
  refine ⟨_, _, rfl, rfl, rfl, congrArg SigAction.handler hact.symm, rfl, ?_⟩
  have hrsp := r.rsp.toNat_lt
  exact Nat.mod_eq_of_lt (by omega)

/-- At a delivery point with a handler for the signal and room for its frame, the handler is entered
exactly if no handler is active and the signal is not `SIGCONT`. -/
theorem deliver_enters_iff (hnext : processNextDeliverableSignal p = some sig)
    (hhandler : HasHandler p sig) (hroom : HasRoom alloc p r) :
    (∃ p' r', processSignalDeliverPending alloc p r = .handled p' r' ∧ Enters p r sig p' r') ↔
      p.inHandler = false ∧ sig ≠ sigcont := by
  obtain ⟨hmask, hgt, hres⟩ := hhandler.action
  have hne : (p.actions sig).handler ≠ 1 := by
    intro h1
    rw [h1] at hgt
    exact absurd hgt (by decide)
  simp only [processSignalDeliverPending, hnext, hmask, hne, hgt, and_false, and_true, if_true,
    if_false]
  by_cases hcont : sig = sigcont
  · -- the process is continued, with the registers that it had
    rw [if_pos hcont]
    refine iff_of_false ?_ fun h => h.2 hcont
    rintro ⟨p', r', heq, henters⟩
    obtain ⟨-, rfl⟩ := Delivery.handled.inj heq
    have := henters.rsp
    have := hroom.lt
    omega
  rw [if_neg hcont]
  by_cases hin : p.inHandler = true
  · -- no frame is made, which the caller takes for a fault
    refine iff_of_false ?_ fun h => absurd (hin.symm.trans h.1) (by simp)
    rintro ⟨p', r', heq, -⟩
    rw [processSignalMakeFrame, if_pos (by simp [hin])] at heq
    cases heq
  refine iff_of_true ?_ ⟨by simpa using hin, hcont⟩
  obtain ⟨p', r', hframe, henters⟩ :=
    makeFrame_enters (p := unpend p sig) rfl hgt hres hroom (by simpa [unpend] using hin)
  refine ⟨p', r', ?_, henters.1, henters.2, henters.3, henters.4, henters.5⟩
  simp only [unpend] at hframe
  rw [hframe]

/-- A process with a handler for signal 10, which is pending, possibly while a handler is active. -/
def handlerProcess (active : Bool) : Process where
  pid := 1
  parent := 0
  group := 1
  session := 1
  stoppedFlag := false
  leaderFlag := true
  state := .running
  waitPid := 0
  waitOut := 0
  wakeTick := 0
  regs := plainImage.regs
  exitCode := 0
  faulted := false
  cred := ⟨0, 0, 0, 0, 0, 0, 0, 0, 0, 0, []⟩
  space := plainImage.space
  pending := signalBit 10
  blocked := 0
  inHandler := active
  frameAddr := 0
  frame := none
  actions := fun i => if i = 10 then ⟨0x401000, 0, 0, 0x402000⟩ else .default
  waitNumber := 0
  waitTarget := 0
  serial := 0

private theorem handlerProcess_has (active : Bool) : HasHandler (handlerProcess active) 10 :=
  ⟨handlerProcess active, _, ⟨0x401000, 0, 0, 0x402000⟩, rfl, by decide, by cases active <;> decide⟩

private theorem handlerProcess_room {active : Bool} :
    HasRoom (fun _ => false) (handlerProcess active) plainImage.regs := by
  unfold HasRoom
  cases active <;> decide +kernel

/-- With no handler active, the handler is entered. -/
theorem deliver_enters_idle :
    ∃ p' r', processSignalDeliverPending (fun _ => false) (handlerProcess false) plainImage.regs
      = .handled p' r' ∧ Enters (handlerProcess false) plainImage.regs 10 p' r' :=
  (deliver_enters_iff (by decide) (handlerProcess_has false) handlerProcess_room).mpr (by decide)

/-- While a handler is active, the signal terminates the process although it has a handler. -/
theorem deliver_terminates_nested : ∃ p r sig, processNextDeliverableSignal p = some sig ∧
    HasHandler p sig ∧ HasRoom (fun _ => false) p r ∧
    ∃ p', processSignalDeliverPending (fun _ => false) p r = .terminated p' .faulted :=
  ⟨handlerProcess true, plainImage.regs, 10, by decide, handlerProcess_has true,
    handlerProcess_room, _, rfl⟩

/-! ### Returning -/

private theorem userCopyLoop_eq {src dst : ByteMemory} {a b user size fuel done : Nat}
    (hfuel : size ≤ done + fuel) (i : Nat) :
    userCopyLoop src a b user size fuel done dst i =
      if b + done ≤ i ∧ i < b + size then src (a + (i - b)) else dst i := by
  induction fuel generalizing done dst with
  | zero => rw [userCopyLoop, if_neg (by omega)]
  | succ fuel ih =>
    rw [userCopyLoop]
    split
    · have hpage : 0 < userCopyStep (user + done) (size - done) ∧
          userCopyStep (user + done) (size - done) ≤ size - done := by
        simp only [userCopyStep, Native.Sys.pageSize]
        omega
      rw [ih (by omega)]
      -- the chunk of this turn and those of the later ones
      by_cases hlater : b + (done + userCopyStep (user + done) (size - done)) ≤ i ∧ i < b + size
      · rw [if_pos hlater, if_pos (by omega)]
      rw [if_neg hlater]
      by_cases hnow : b + done ≤ i ∧ i < b + done + userCopyStep (user + done) (size - done)
      · rw [if_pos hnow, if_pos (by omega)]
      · rw [if_neg hnow, if_neg (by omega)]
    · rw [if_neg (by omega)]

private theorem storeWords_of_lt {ws : List UInt64} {a i : Nat} (h : i < a) :
    storeWords m a ws i = m i := by
  induction ws generalizing m a with
  | nil => rfl
  | cons w ws ih => rw [storeWords, ih (by omega), ByteMemory.store_of_disjoint _ _ (.inl h)]

private theorem loadWords_storeWords {ws : List UInt64} {a : Nat}
    (h : ∀ i, a ≤ i → i < a + 8 * ws.length → m' i = storeWords m a ws i) :
    loadWords m' a ws.length = ws := by
  induction ws generalizing m a with
  | nil => rfl
  | cons w ws ih =>
    simp only [List.length_cons] at h ⊢
    rw [loadWords, ih fun i hi hlt => h i (by omega) (by omega)]
    have hload : m'.load a 8 = (m.store a 8 w.toNat).load a 8 :=
      ByteMemory.load_congr fun i hi hlt =>
        (h i hi (by omega)).trans (storeWords_of_lt hlt)
    rw [hload, ByteMemory.load_store _ _ _ _ (by simpa using w.toNat_lt), UInt64.ofNat_toNat]

private theorem ofWords_words (h : r.general.length = 11) :
    Regs.ofWords r.words = { r with returnOf := none } := by
  have hnil : ∀ {k n} {l : List UInt64}, n ≤ k → (l.take n).drop k = [] := fun hle =>
    List.drop_eq_nil_of_le (by simp; omega)
  have hgen : r.general.take 8 ++ ((r.general.drop 8).take 1 ++ r.general.drop 9) = r.general := by
    rw [show r.general.drop 9 = (r.general.drop 8).drop 1 by rw [List.drop_drop],
      List.take_append_drop, List.take_append_drop]
  simp [Regs.ofWords, Regs.words, List.drop_append, h, hnil, hgen]

/-- The pages of the frame can be read. -/
def frameReadable (q : Process) : Bool :=
  (pagesOf q.frameAddr.toNat signalFrameSize).all q.space.read

/-- A frame that nobody changes is read as it was written, but for the mark of a `wait`. -/
theorem ofImage_putFrame {f : SignalFrame} (hframe : p.frame = some f)
    (hgen : f.savedRegs.general.length = 11) (hsig : f.signal < 2 ^ 32)
    (hkept : ∀ i < signalFrameSize,
      m' (p.frameAddr.toNat + i) = p.putFrame m (p.frameAddr.toNat + i)) :
    SignalFrame.ofImage (userCopyLoop m' p.frameAddr.toNat 0 p.frameAddr.toNat signalFrameSize
        signalFrameSize 0 fun _ => 0) =
      { f with savedRegs := { f.savedRegs with returnOf := none } } := by
  have hlen : ([f.restorer, f.magic, f.oldMask, UInt64.ofNat f.signal] ++
      f.savedRegs.words).length = signalFrameSize / 8 := by
    simp [Regs.words, hgen, signalFrameSize]
  have hwords : loadWords (userCopyLoop m' p.frameAddr.toNat 0 p.frameAddr.toNat signalFrameSize
      signalFrameSize 0 fun _ => 0) 0 (signalFrameSize / 8) =
        [f.restorer, f.magic, f.oldMask, UInt64.ofNat f.signal] ++ f.savedRegs.words := by
    rw [← hlen]
    refine loadWords_storeWords (m := fun _ => 0) fun i _ hi => ?_
    rw [hlen] at hi
    rw [userCopyLoop_eq (by omega), if_pos (by omega), Nat.sub_zero, hkept i hi,
      Process.putFrame, hframe]
    dsimp only
    rw [copyToUser, userCopyLoop_eq (by omega), if_pos (by omega), SignalFrame.image]
    congr 1
    omega
  rw [SignalFrame.ofImage, hwords]
  simp [ofWords_words hgen, UInt64.toNat_ofNat']
  omega

/-- The registers that a handler returns to: those that were interrupted, with the selectors and
flags that the kernel sets, and the vector and the error code of the trap that returns. -/
def resumedRegs (r trap : Regs) : Regs :=
  { r with
    cs := ucodeSel
    ss := udataSel
    rflags := signalSanitizeUserRflags r.rflags
    vector := trap.vector
    error := trap.error
    returnOf := none }

/-- A handler that leaves its frame as it is returns to what was interrupted exactly if the pages of
the frame can still be read, the instruction pointer is in memory that the program may execute, the
stack pointer is a user address, and the mask has neither bit 0 nor a signal that cannot be
blocked. -/
theorem signalReturn_roundTrip_iff {p' q : Process} {r' trap : Regs} {a : SigAction}
    {m m' : ByteMemory} (hgen : r.general.length = 11) (hsig : sig < nsig)
    (hmake : processSignalMakeFrame alloc p r sig a = some (p', r'))
    (hactive : q.inHandler = true) (haddr : q.frameAddr = p'.frameAddr)
    (hkept : ∀ i < signalFrameSize,
      m' (p'.frameAddr.toNat + i) = p'.putFrame m (p'.frameAddr.toNat + i)) :
    (∃ q', processSignalReturn q q.frameAddr (readFrame q.space m' q.frameAddr) trap
        = some (q', resumedRegs r trap) ∧ q'.blocked = p.blocked) ↔
      frameReadable q = true ∧ codePointerValid q.space r.rip = true ∧
        userAddrRangeValid r.rsp.toNat 1 = true ∧ signalSanitizedMask p.blocked = p.blocked := by
  simp only [processSignalMakeFrame] at hmake
  split_ifs at hmake with h1 h2 h3
  split at hmake
  · cases hmake
  rename_i hcopy
  obtain ⟨rfl, rfl⟩ := hmake
  have hread := ofImage_putFrame rfl hgen (by simp only [nsig] at hsig; dsimp only; omega) hkept
  -- the frame was written, so its address is one that can be read from
  have hnat : q.frameAddr.toNat = (r.rsp.toNat - signalFrameSize - 8) / 16 * 16 + 8 := by
    have hrsp := r.rsp.toNat_lt
    rw [haddr, UInt64.toNat_ofNat', Nat.mod_eq_of_lt (by omega)]
  have hvalid : userAddrRangeValid q.frameAddr.toNat signalFrameSize = true := by
    rw [hnat]
    exact (writable_of_copy (congrArg Prod.fst hcopy)).valid
  have hne : q.frameAddr ≠ 0 := fun h0 => absurd
      (hnat.symm.trans (congrArg UInt64.toNat h0)) (by simp)
  rw [readFrame, processCopyFromUser, hvalid]
  by_cases hpages : frameReadable q = true
  · rw [if_neg (by simpa [frameReadable] using hpages)]
    simp only [not_or] at h1
    rw [← haddr] at hread
    rw [Option.map_some, hread]
    simp only [processSignalReturn, hactive, hne, h1.2.1, ne_eq, not_true_eq_false, or_self,
      if_false, Bool.true_eq_false, resumedRegs]
    by_cases hplace : codePointerValid q.space r.rip = false ∨
      userAddrRangeValid r.rsp.toNat 1 = false
    · -- the return is refused
      rw [if_pos hplace]
      refine iff_of_false (by simp) fun h => ?_
      simp [h.2.1, h.2.2.1] at hplace
    · simp only [not_or, Bool.not_eq_false] at hplace
      simp [hplace, hpages]
  · rw [if_pos (.inr (by simpa [frameReadable] using hpages))]
    refine iff_of_false (by simp [processSignalReturn]) fun h => hpages h.1

/-- The handler of signal 10 is entered and returns. -/
theorem signalReturn_roundTrip_plain : ∃ p' r', processSignalMakeFrame (fun _ => false)
      (handlerProcess false) plainImage.regs 10 ⟨0x401000, 0, 0, 0x402000⟩ = some (p', r') ∧
    ∃ q', processSignalReturn { handlerProcess true with frameAddr := p'.frameAddr } p'.frameAddr
        (readFrame plainImage.space (p'.putFrame fun _ => 0) p'.frameAddr) r'
      = some (q', resumedRegs plainImage.regs r') ∧ q'.blocked = 0 := by
  have hentered : ∃ p' r', processSignalMakeFrame (fun _ => false) (handlerProcess false)
      plainImage.regs 10 ⟨0x401000, 0, 0, 0x402000⟩ = some (p', r') ∧
      Enters (handlerProcess false) plainImage.regs 10 p' r' :=
    makeFrame_enters rfl (by decide) (by decide) handlerProcess_room rfl
  obtain ⟨p', r', hmake, -⟩ := hentered
  exact ⟨p', r', hmake, (signalReturn_roundTrip_iff
    (q := { handlerProcess true with frameAddr := p'.frameAddr }) rfl (by decide) hmake rfl rfl
    fun _ _ => rfl).mpr ⟨by simp [frameReadable, handlerProcess, plainImage],
      by dsimp only; decide +kernel⟩⟩

/-- A program that was interrupted outside of its executable memory cannot return there. -/
theorem signalReturn_refuses_rip : ∃ p r p' r', processSignalMakeFrame (fun _ => false) p r 10
      ⟨0x401000, 0, 0, 0x402000⟩ = some (p', r') ∧
    processSignalReturn p' p'.frameAddr
      (readFrame p'.space (p'.putFrame fun _ => 0) p'.frameAddr) r' = none := by
  have hrun : (processSignalMakeFrame (fun _ => false) (handlerProcess false)
      { plainImage.regs with rip := 0x2000000 } 10 ⟨0x401000, 0, 0, 0x402000⟩).map (fun x =>
        (processSignalReturn x.1 x.1.frameAddr
          (readFrame x.1.space (x.1.putFrame fun _ => 0) x.1.frameAddr) x.2).isNone)
      = some true := by
    decide +kernel
  obtain ⟨⟨p', r'⟩, hmake, hnone⟩ := Option.map_eq_some_iff.mp hrun
  exact ⟨_, _, p', r', hmake, Option.isNone_iff_eq_none.mp hnone⟩

/-! ### A fork in a handler -/

/-- What `process_signal_return` asks of the address and of the frame that it reads there. -/
def AcceptsFrame (p : Process) (m : ByteMemory) (addr : UInt64) : Prop :=
  addr ≠ 0 ∧ addr = p.frameAddr ∧
    ∃ f, readFrame p.space m addr = some f ∧ f.magic = signalFrameMagic ∧ f.restorer ≠ 0 ∧
      codePointerValid p.space f.savedRegs.rip = true ∧
      userAddrRangeValid f.savedRegs.rsp.toNat 1 = true

private theorem signalReturn_none_iff {addr : UInt64} (hin : p.inHandler = true) (trap : Regs) :
    processSignalReturn p addr (readFrame p.space m addr) trap = none ↔ ¬AcceptsFrame p m addr := by
  simp only [processSignalReturn, AcceptsFrame, hin]
  cases readFrame p.space m addr with
  | none => simp
  | some f =>
    by_cases h0 : addr = 0
    · simp [h0]
    by_cases haddr : addr = p.frameAddr
    · subst haddr
      simp [h0]
    · simp [h0, haddr]

/-- The child of a process that forks in a handler returns from it on its copy of the frame to the
same place, with the same mask, exactly if the parent itself cannot return: the child is not in a
handler. -/
theorem fork_signalReturn_iff (hin : p.inHandler = true) (pid : UInt32) (space : UserSpace)
    (regs trap : Regs) (serial : Nat) (m : ByteMemory) (addr : UInt64) :
    (∀ p' r', processSignalReturn p addr (readFrame p.space m addr) trap = some (p', r') →
      ∃ q', processSignalReturn (System.forkChild p pid space regs serial) addr
          (readFrame space m addr) trap = some (q', r') ∧ q'.blocked = p'.blocked) ↔
      ¬AcceptsFrame p m addr := by
  have hrefused : processSignalReturn (System.forkChild p pid space regs serial) addr
      (readFrame space m addr) trap = none := by
    simp [processSignalReturn, System.forkChild]
  rw [← signalReturn_none_iff hin trap, hrefused, Option.eq_none_iff_forall_ne_some]
  simp

/-- The process in the handler of signal 10, with the frame that the delivery has made. -/
def forkingProcess : Process :=
  { handlerProcess true with
    frameAddr := 0x6fffff28
    frame := some ⟨0x402000, signalFrameMagic, 0, 10, plainImage.regs⟩ }

/-- Its memory. -/
def forkingMemory : ByteMemory := forkingProcess.putFrame fun _ => 0

/-- The parent can return, so the child does not do as the parent does. -/
theorem fork_signalReturn_differs : forkingProcess.inHandler = true ∧
    ¬∀ p' r', processSignalReturn forkingProcess 0x6fffff28
        (readFrame plainImage.space forkingMemory 0x6fffff28) plainImage.regs = some (p', r') →
      ∃ q', processSignalReturn
        (System.forkChild forkingProcess 2 plainImage.space plainImage.regs 1)
          0x6fffff28 (readFrame plainImage.space forkingMemory 0x6fffff28) plainImage.regs
        = some (q', r') ∧ q'.blocked = p'.blocked := by
  refine ⟨rfl, fun h => (fork_signalReturn_iff (p := forkingProcess) rfl 2 plainImage.space
    plainImage.regs plainImage.regs 1 forkingMemory 0x6fffff28).mp h ?_⟩
  by_contra hno
  have hnone := (signalReturn_none_iff rfl plainImage.regs).mpr hno
  exact absurd (congrArg Option.isSome hnone) (by decide +kernel)

/-- Signal 10 is delivered, the parent returns from its handler, and a child that it forks there
cannot. -/
theorem fork_signalReturn_lost : ∃ p r m, processSignalMakeFrame (fun _ => false)
      (handlerProcess false) plainImage.regs 10 ⟨0x401000, 0, 0, 0x402000⟩ = some (p, r) ∧
    m = p.putFrame (fun _ => 0) ∧ p.frameAddr = 0x6fffff28 ∧
    (processSignalReturn p p.frameAddr (readFrame p.space m p.frameAddr) r).isSome ∧
    processSignalReturn (System.forkChild p 2 p.space r 1) p.frameAddr
      (readFrame p.space m p.frameAddr) r = none := by
  have hrun : (processSignalMakeFrame (fun _ => false) (handlerProcess false) plainImage.regs 10
      ⟨0x401000, 0, 0, 0x402000⟩).map (fun x => decide (x.1.frameAddr = 0x6fffff28) &&
        (processSignalReturn x.1 x.1.frameAddr
          (readFrame x.1.space (x.1.putFrame fun _ => 0) x.1.frameAddr) x.2).isSome)
      = some true := by
    decide +kernel
  obtain ⟨⟨p, r⟩, hmake, hret⟩ := Option.map_eq_some_iff.mp hrun
  rw [Bool.and_eq_true, decide_eq_true_eq] at hret
  exact ⟨p, r, _, hmake, rfl, hret.1, hret.2, by simp [processSignalReturn, System.forkChild]⟩

end Rabbitbone.Spec.Proc
