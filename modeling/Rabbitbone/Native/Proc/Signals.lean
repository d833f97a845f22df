import Rabbitbone.Native.Proc.Loader

/-!
# Processes and signals

Model of the functions of `kernel/proc/process/signals_jobs.inc` that work on one process record,
and of the copies to user space that they and `wait` make.

Four fields are not in the source and only follow what the kernel does: `returnOf` of the registers,
`waitNumber`, `waitTarget` and `serial` of a process.  No function reads them to decide anything.
-/

namespace Rabbitbone.Native.Proc

open Sys

/-! ### Registers and user memory -/

/-- A `wait` syscall that found its child: its number among all of them, the pid it was called with,
the buffer, and which process had that pid. -/
structure WaitCall where
  number : Nat
  child : UInt32
  out : UInt64
  target : Nat
  deriving DecidableEq, Repr

/-- `cpu_regs_t`.  `general` are the registers that the kernel does not name; `returnOf` marks the
registers with which a `wait` returns once it found its child. -/
structure Regs where
  general : List UInt64
  rdi : UInt64
  rsi : UInt64
  rdx : UInt64
  rax : UInt64
  vector : UInt64
  error : UInt64
  rip : UInt64
  cs : UInt64
  rflags : UInt64
  rsp : UInt64
  ss : UInt64
  returnOf : Option WaitCall
  deriving DecidableEq, Repr

/-- `RABBITBONE_UCODE_SEL`. -/
def ucodeSel : UInt64 := 0x23

/-- `RABBITBONE_UDATA_SEL`. -/
def udataSel : UInt64 := 0x1b

/-- What a write to a page meets: no permission, a page that has to be brought in or copied first,
or a page that is mapped and writable. -/
inductive PageAccess where
  | denied
  | deferred
  | writable
  deriving DecidableEq, Repr

/-- The address space of a process, page by page: what a write meets, whether the VMA allows
execution, and whether a read is allowed and the page is there or can be brought in. -/
structure UserSpace where
  write : Nat → PageAccess
  exec : Nat → Bool
  read : Nat → Bool

/-- The pages that a range touches. -/
def pagesOf (addr size : Nat) : List Nat :=
  if size = 0 then []
  else List.range' (addr / pageSize) ((addr + (size - 1)) / pageSize - addr / pageSize + 1)

/-- `ensure_process_user_page_writable` for each page.  `alloc` says whether a page can be brought
in or copied. -/
def makeWritable (alloc : Nat → Bool) : List Nat → UserSpace → Bool × UserSpace
  | [], sp => (true, sp)
  | page :: pages, sp =>
    match sp.write page with
    | .denied => (false, sp)
    | .writable => makeWritable alloc pages sp
    | .deferred =>
      if alloc page then
        makeWritable alloc pages
          { sp with write := fun i => if i = page then .writable else sp.write i }
      else (false, sp)

/-- `copy_to_process_user_space` and `process_validate_user_range` for writing: whether it succeeds,
and the address space with the pages that had to be made writable. -/
def copyToProcess (alloc : Nat → Bool) (sp : UserSpace) (addr size : Nat) : Bool × UserSpace :=
  if userAddrRangeValid addr size = false then (false, sp)
  else makeWritable alloc (pagesOf addr size) sp

/-- `process_signal_user_code_pointer_valid`. -/
def codePointerValid (sp : UserSpace) (ptr : UInt64) : Bool :=
  ptr ≠ 0 && userAddrRangeValid ptr.toNat 1 && sp.exec (ptr.toNat / pageSize)

/-! ### The process record -/

/-- `process_lifecycle_t`. -/
inductive ProcState where
  | running
  | exited
  | faulted
  | loadError
  | ready
  | sleeping
  | waiting
  | stopped
  deriving DecidableEq, Repr

/-- `process_state_terminal`. -/
def ProcState.terminal : ProcState → Bool
  | .exited | .faulted | .loadError => true
  | _ => false

/-- `process_signal_action_t`. -/
structure SigAction where
  handler : UInt64
  mask : UInt64
  flags : UInt32
  restorer : UInt64
  deriving DecidableEq, Repr

/-- `RABBITBONE_SIG_DFL` for everything: what `memset` leaves. -/
def SigAction.default : SigAction := ⟨0, 0, 0, 0⟩

/-- `process_signal_frame_t`. -/
structure SignalFrame where
  restorer : UInt64
  magic : UInt64
  oldMask : UInt64
  signal : Nat
  savedRegs : Regs
  deriving DecidableEq, Repr

/-- `sizeof(process_signal_frame_t)`. -/
def signalFrameSize : Nat := 208

/-- `sizeof(process_info_t)`. -/
def processInfoSize : Nat := 192

/-- `PROCESS_SIGNAL_FRAME_MAGIC`. -/
def signalFrameMagic : UInt64 := 0x5349474652414d45

/-- `active_process_t` with `active` set, as far as signals, jobs and `wait` go.  `frame` is what
the kernel has put at `signal_frame_addr`. -/
structure Process where
  pid : UInt32
  parent : UInt32
  group : UInt32
  session : UInt32
  stoppedFlag : Bool
  leaderFlag : Bool
  state : ProcState
  waitPid : UInt32
  waitOut : UInt64
  wakeTick : UInt64
  regs : Regs
  exitCode : Int
  faulted : Bool
  cred : Cred
  space : UserSpace
  pending : UInt64
  blocked : UInt64
  inHandler : Bool
  frameAddr : UInt64
  frame : Option SignalFrame
  actions : Nat → SigAction
  waitNumber : Nat
  waitTarget : Nat
  serial : Nat

/-- The `wait` for which the process waits. -/
def Process.waitCall (p : Process) : WaitCall := ⟨p.waitNumber, p.waitPid, p.waitOut, p.waitTarget⟩

/-! ### Signals -/

/-- `RABBITBONE_NSIG`. -/
def nsig : Nat := 32

def sigkill : Nat := 9
def sigchld : Nat := 17
def sigcont : Nat := 18
def sigstop : Nat := 19
def sigtstp : Nat := 20
def sigttin : Nat := 21
def sigttou : Nat := 22

/-- `signal_valid`. -/
def signalValid (sig : Nat) : Bool := 0 < sig && sig < nsig

/-- `signal_bit`. -/
def signalBit (sig : Nat) : UInt64 := 1 <<< UInt64.ofNat sig

/-- `signal_unmaskable`. -/
def signalUnmaskable (sig : Nat) : Bool := sig = sigkill || sig = sigstop

/-- `signal_stop_default`. -/
def signalStopDefault (sig : Nat) : Bool :=
  sig = sigstop || sig = sigtstp || sig = sigttin || sig = sigttou

/-- `signal_ignore_default`. -/
def signalIgnoreDefault (sig : Nat) : Bool := sig = sigchld || sig = sigcont

/-- `signal_terminates_default`. -/
def signalTerminatesDefault (sig : Nat) : Bool := !signalIgnoreDefault sig && !signalStopDefault sig

/-- `signal_bit(RABBITBONE_SIGKILL) | signal_bit(RABBITBONE_SIGSTOP)`. -/
def unmaskableBits : UInt64 := signalBit sigkill ||| signalBit sigstop

/-- `signal_sanitized_mask`. -/
def signalSanitizedMask (m : UInt64) : UInt64 := m &&& ~~~1 &&& ~~~unmaskableBits

/-- `signal_stop_pending_mask`. -/
def signalStopPendingMask : UInt64 :=
  signalBit sigstop ||| signalBit sigtstp ||| signalBit sigttin ||| signalBit sigttou

/-- `process_signal_exec_reset`. -/
def processSignalExecReset (p : Process) : Process :=
  { p with
    pending := 0, inHandler := false, frameAddr := 0, frame := none
    blocked := signalSanitizedMask p.blocked
    actions := fun sig =>
      if signalUnmaskable sig = false ∧ (p.actions sig).handler = 1 then ⟨1, 0, 0, 0⟩
      else .default }

/-- `process_next_deliverable_signal`. -/
def processNextDeliverableSignal (p : Process) : Option Nat :=
  let blocked := p.blocked &&& ~~~unmaskableBits
  let pending := p.pending &&& ~~~blocked
  (List.range' 1 (nsig - 1)).find? fun sig => pending &&& signalBit sig ≠ 0

/-- `process_signal_sender_can_target`. -/
def processSignalSenderCanTarget (sender : Option Process) (target : Process) (sig : Nat) : Bool :=
  match sender with
  | none => true
  | some c =>
    target.pid = c.pid || processCredIsRoot c.cred
      || (sig = sigcont && c.session ≠ 0 && c.session = target.session)
      || c.cred.euid = target.cred.uid || c.cred.euid = target.cred.euid
      || c.cred.uid = target.cred.uid || c.cred.uid = target.cred.euid

/-- `process_signal_queue_one`, without the copy to the slot of the current process. -/
def processSignalQueueOne (p : Process) (sig : Nat) : Process :=
  let p :=
    if sig = sigcont then
      let p := { p with pending := p.pending &&& ~~~signalStopPendingMask }
      if p.state = .stopped then { p with state := .ready, stoppedFlag := false } else p
    else if signalStopDefault sig then { p with pending := p.pending &&& ~~~signalBit sigcont }
    else if sig = sigkill ∧ p.state = .stopped then
      { p with state := .ready, stoppedFlag := false }
    else p
  { p with pending := p.pending ||| signalBit sig }

/-- `process_signal_set_action` on the current process. -/
def processSignalSetAction (p : Process) (sig : Nat) (act : Option SigAction) :
    Except ProcStatus Process :=
  if signalValid sig = false then .error .inval
  else
    match act with
    | none => .ok p
    | some a =>
      if signalUnmaskable sig then .error .inval
      else if a.flags &&& ~~~1 ≠ 0 then .error .inval
      else if 1 < a.handler ∧ a.restorer = 0 then .error .inval
      else if 1 < a.handler ∧ (codePointerValid p.space a.handler = false
          ∨ codePointerValid p.space a.restorer = false) then .error .range
      else
        .ok { p with
          actions := fun i =>
            if i = sig then ⟨a.handler, signalSanitizedMask a.mask, a.flags &&& 1, a.restorer⟩
            else p.actions i }

/-- `RABBITBONE_SIG_BLOCK`, `RABBITBONE_SIG_UNBLOCK` and `RABBITBONE_SIG_SETMASK`. -/
inductive MaskHow where
  | block
  | unblock
  | setmask
  deriving DecidableEq, Repr

/-- `process_signal_mask` on the current process. -/
def processSignalMask (p : Process) (how : MaskHow) (set : Option UInt64) : Process :=
  match set with
  | none => p
  | some set =>
    let m := signalSanitizedMask set
    match how with
    | .block => { p with blocked := p.blocked ||| m }
    | .unblock => { p with blocked := p.blocked &&& ~~~m }
    | .setmask => { p with blocked := m }

/-- `process_signal_make_frame`: the frame goes below the stack, and the handler starts. -/
def processSignalMakeFrame (alloc : Nat → Bool) (p : Process) (regs : Regs) (sig : Nat)
    (a : SigAction) : Option (Process × Regs) :=
  if a.handler ≤ 1 ∨ a.restorer = 0 ∨ p.inHandler then none
  else if regs.rsp.toNat < signalFrameSize + 16 then none
  else
    let frameAddr := (regs.rsp.toNat - signalFrameSize - 8) / 16 * 16 + 8
    if regs.rsp.toNat < frameAddr then none
    else
      let frame : SignalFrame := ⟨a.restorer, signalFrameMagic, p.blocked, sig, regs⟩
      match copyToProcess alloc p.space frameAddr signalFrameSize with
      | (false, _) => none
      | (true, space) =>
        some
          ({ p with
              space := space
              blocked := signalSanitizedMask (p.blocked ||| (a.mask ||| signalBit sig))
              inHandler := true
              frameAddr := UInt64.ofNat frameAddr
              frame := some frame },
            { regs with
              rip := a.handler
              rdi := UInt64.ofNat sig
              rsp := UInt64.ofNat frameAddr
              returnOf := none })

/-- What `process_signal_deliver_pending` has done: a process that is terminated is still to be
finished in the given state. -/
inductive Delivery where
  | none
  | handled (p : Process) (regs : Regs)
  | terminated (p : Process) (state : ProcState)
  | stopped (p : Process)

/-- `process_signal_deliver_pending`: one signal, the lowest one. -/
def processSignalDeliverPending (alloc : Nat → Bool) (p : Process) (regs : Regs) : Delivery :=
  match processNextDeliverableSignal p with
  | none => .none
  | some sig =>
    let p := { p with pending := p.pending &&& ~~~signalBit sig }
    if sig = sigcont then
      .handled
        { p with
          state := if p.state = .stopped then .ready else p.state
          stoppedFlag := false } regs
    else
      let a := p.actions sig
      if signalUnmaskable sig = false ∧ a.handler = 1 then .handled p regs
      else if signalUnmaskable sig = false ∧ 1 < a.handler then
        match processSignalMakeFrame alloc p regs sig a with
        | some (p, regs) => .handled p regs
        | none => .terminated { p with exitCode := 128 + sig, faulted := true } .faulted
      else if signalStopDefault sig then .stopped { p with state := .stopped, stoppedFlag := true }
      else if signalTerminatesDefault sig ∨ sig = sigkill then
        .terminated { p with exitCode := 128 + sig, faulted := false } .exited
      else .handled p regs

/-- `signal_sanitize_user_rflags`. -/
def signalSanitizeUserRflags (rflags : UInt64) : UInt64 := (rflags &&& 0xcd5) ||| 0x202

/-- `process_signal_return` on the current process, where `frame` is what can be read at
`frameAddr`. -/
def processSignalReturn (p : Process) (frameAddr : UInt64) (frame : Option SignalFrame)
    (regs : Regs) :
    Option (Process × Regs) :=
  if frameAddr = 0 ∨ p.inHandler = false then none
  else if p.frameAddr = 0 ∨ frameAddr ≠ p.frameAddr then none
  else
    match frame with
    | none => none
    | some f =>
      if f.magic ≠ signalFrameMagic ∨ f.restorer = 0 then none
      else if codePointerValid p.space f.savedRegs.rip = false
          ∨ userAddrRangeValid f.savedRegs.rsp.toNat 1 = false then none
      else
        let restored :=
          { f.savedRegs with
            cs := ucodeSel
            ss := udataSel
            rflags := signalSanitizeUserRflags f.savedRegs.rflags
            vector := regs.vector
            error := regs.error }
        some
          ({ p with
              blocked := signalSanitizedMask f.oldMask
              inHandler := false
              frameAddr := 0
              regs := restored },
            restored)

end Rabbitbone.Native.Proc
