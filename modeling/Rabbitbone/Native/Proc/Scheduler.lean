import Mathlib.Logic.Function.Basic
import Rabbitbone.Native.Proc.Signals

/-!
# The process table

Model of `kernel/proc/process/scheduler_loop.inc`, `kernel/proc/process/interrupt_requests.inc`, of
the process side of `kernel/proc/process/spawn_fork.inc`, `kernel/proc/process/exec_wait_api.inc`
and `kernel/proc/process/loader_stack.inc`, and of the rest of
`kernel/proc/process/signals_jobs.inc`, for the scheduler loop that runs all user processes on one
CPU.

The record of the process that runs is a copy of its slot, and is written back at certain points.
The registers of an interrupt are a third place where a context lives: `regs` of the record keeps
those with which the process was resumed last.

A syscall runs with interrupts off, so it is one step together with `process_after_syscall`.  The
choice of `pick_ready_slot` among the ready slots is left open, and so is everything that decides
whether memory can be had or a program can be loaded.  `fault_wait_deadlock` is only reached when no
process waits and does nothing then.  A process that is stopped leaves its `reschedule_requested`
set; the process whose syscall finds it there is preempted at its end, as the timer may do at any
time, so the flag is a request of one syscall here.  The runs of the kernel's own tests are left
out.
-/

namespace Rabbitbone.Native.Proc

open Sys Ramfs

/-- `PROCESS_ASYNC_CAP`. -/
def asyncCap : Nat := 32

/-- A slot of `async_slots`. -/
abbrev Slot := Fin asyncCap

/-- A `process_info_t` that was copied to the buffer of a `wait`, and whose it is. -/
structure StatusCopy where
  call : WaitCall
  serial : Nat
  state : ProcState
  exitCode : Int
  deriving DecidableEq, Repr

/-- The processes: `async_slots`, `current_proc` with `current_async_slot`, `next_user_pid`, and the
registers with which the current process runs in user mode.  The last four fields follow what
happens: how many `wait`s and processes there have been, which statuses were copied, and which
processes were reaped. -/
structure System where
  slots : Slot → Option Process
  current : Option (Slot × Process)
  user : Option Regs
  nextPid : UInt64
  waits : Nat
  births : Nat
  copies : List StatusCopy
  reaped : List Nat

/-- `init_user_regs`. -/
def initUserRegs (entry rsp argc argv aux : UInt64) : Regs where
  general := List.replicate 11 0
  rdi := argc
  rsi := argv
  rdx := aux
  rax := 0
  vector := 0
  error := 0
  rip := entry
  cs := 0x23
  rflags := 0x202
  rsp := rsp
  ss := 0x1b
  returnOf := none

/-- A program in memory: its address space and what its registers are made from. -/
structure Image where
  space : UserSpace
  entry : UInt64
  rsp : UInt64
  argc : UInt64
  argv : UInt64
  aux : UInt64

/-- The registers with which a program starts. -/
def Image.regs (m : Image) : Regs := initUserRegs m.entry m.rsp m.argc m.argv m.aux

/-- How loading a program ends: there is no address space for it, it fails later, or it succeeds. -/
inductive LoadOutcome where
  | noSpace
  | failed (e : ProcStatus)
  | loaded (image : Image)

/-- How sharing the pages with a child ends: there is no address space for it, it fails on the way,
or it succeeds.  Pages of the parent may have become copy-on-write in either case. -/
inductive CloneOutcome where
  | noSpace
  | failed (parent : UserSpace)
  | cloned (parent child : UserSpace)

namespace System

/-! ### Slots -/

def setSlot (s : System) (i : Slot) (p : Option Process) : System :=
  { s with slots := Function.update s.slots i p }

/-- Change every slot in use. -/
def mapSlots (s : System) (f : Slot → Process → Process) : System :=
  { s with slots := fun i => (s.slots i).map (f i) }

/-- The record of the current process. -/
def currentProc (s : System) : Option Process := s.current.map Prod.snd

/-- Put a new record in place of the current one. -/
def setCurrent (s : System) (p : Process) : System :=
  { s with current := s.current.map fun c => (c.1, p) }

/-- Whether some slot in use satisfies `sel`. -/
def anySlot (s : System) (sel : Process → Bool) : Bool :=
  (List.finRange asyncCap).any fun i => (s.slots i).any sel

/-- `slot_by_pid`. -/
def slotByPid (s : System) (pid : UInt32) : Option Slot :=
  if pid = 0 then none
  else (List.finRange asyncCap).find? fun i => (s.slots i).any fun p => p.pid = pid

/-- `alloc_async_slot`. -/
def allocAsyncSlot (s : System) : Option Slot :=
  (List.finRange asyncCap).find? fun i => (s.slots i).isNone

/-- `resolve_current_async_slot`. -/
def resolveCurrentAsyncSlot (s : System) : Option Slot :=
  match s.current with
  | none => none
  | some (i, c) =>
    if c.pid = 0 then none
    else if (s.slots i).any fun p => p.pid = c.pid then some i
    else s.slotByPid c.pid

/-- `sync_current_to_slot`: whether there was a slot to write to. -/
def syncCurrentToSlot (s : System) : Bool × System :=
  match s.current, s.resolveCurrentAsyncSlot with
  | some (_, c), some i => (true, { s.setSlot i (some c) with current := some (i, c) })
  | _, _ => (false, s)

/-- `clear_current_async`, and back to the scheduler. -/
def clearCurrentAsync (s : System) : System := { s with current := none, user := none }

/-- `pid_in_use`. -/
def pidInUse (s : System) (pid : UInt32) : Bool :=
  pid = 0 || (s.currentProc.any fun c => c.pid = pid) || s.anySlot fun p => p.pid = pid

/-- `alloc_user_pid`, with the number of tries that are left. -/
def allocUserPid (s : System) : Nat → UInt64 → Option UInt32 × UInt64
  | 0, next => (none, next)
  | tries + 1, next =>
    if s.pidInUse next.toUInt32 then allocUserPid s tries (next + 1)
    else (some next.toUInt32, next + 1)

/-! ### Sending signals -/

/-- `process_signal_queue_one` on the current process: whether it has its slot. -/
def queueCurrent (s : System) (sig : Nat) : Bool × System :=
  match s.currentProc with
  | none => (false, s)
  | some c => (s.setCurrent (processSignalQueueOne c sig)).syncCurrentToSlot

/-- The three loops of `process_signal_send`: the current process first, then all slots. -/
def sendWhere (s : System) (sel : Process → Bool) (sig : Nat) : Except ProcStatus Unit × System :=
  let may (target : Process) : Bool := processSignalSenderCanTarget s.currentProc target sig
  let first :=
    if s.currentProc.any fun c => sel c && may c then s.queueCurrent sig else (false, s)
  let any := first.1 || first.2.anySlot fun p => sel p && may p
  let denied := (s.currentProc.any fun c => sel c && !may c)
    || first.2.anySlot fun p => sel p && !may p
  (if any then .ok () else if denied then .error .fault else .error .inval,
    first.2.mapSlots fun _ p => if sel p && may p then processSignalQueueOne p sig else p)

/-- `process_signal_send`. -/
def processSignalSend (s : System) (pid : UInt32) (sig : Nat) : Except ProcStatus Unit × System :=
  if signalValid sig = false then (.error .inval, s)
  else if pid = 0 then
    match s.currentProc with
    | none => (.error .inval, s)
    | some c =>
      if c.group = 0 then (.error .inval, s) else s.sendWhere (fun p => p.group = c.group) sig
  else if pid = 0xffffffff then s.sendWhere (fun _ => true) sig
  else if pid = 0x80000000 then (.error .inval, s)
  else if 0x80000000 ≤ pid then s.sendWhere (fun p => p.group = ~~~pid + 1) sig
  else if s.currentProc.any fun c => c.pid = pid then
    -- the current process may always signal itself
    match s.queueCurrent sig with
    | (true, s) => (.ok (), s)
    | (false, s) => (.error .inval, s)
  else
    match s.slotByPid pid with
    | none => (.error .inval, s)
    | some i =>
      match s.slots i with
      | none => (.error .inval, s)
      | some p =>
        if processSignalSenderCanTarget s.currentProc p sig = false then (.error .fault, s)
        else (.ok (), s.setSlot i (some (processSignalQueueOne p sig)))

/-- `process_signal_raise`. -/
def processSignalRaise (s : System) (sig : Nat) : Except ProcStatus Unit × System :=
  match s.currentProc with
  | none => (.error .inval, s)
  | some c => s.processSignalSend c.pid sig

/-! ### The end of a process -/

/-- `reparent_children`. -/
def reparentChildren (s : System) (old new : UInt32) : System :=
  if old = 0 ∨ old = new then s
  else s.mapSlots fun _ p => if p.parent = old then { p with parent := new } else p

/-- An address space without mappings. -/
def noSpace : UserSpace := ⟨fun _ => .denied, fun _ => false, fun _ => false⟩

/-- `finish_current`. -/
def finishCurrent (s : System) (state : ProcState) (regs : Regs) : System :=
  match s.currentProc with
  | none => s
  | some c =>
    let s := s.setCurrent { c with regs := regs, state := state }
    let s := s.reparentChildren c.pid (if c.pid = 1 then 0 else 1)
    let s := if c.parent ≠ 0 then (s.processSignalSend c.parent sigchld).2 else s
    match s.currentProc with
    | none => s
    | some c => (s.setCurrent { c with space := noSpace }).syncCurrentToSlot.2

/-- Whether the process waits for `pid`. -/
def waitsFor (pid : UInt32) (p : Process) : Bool := p.state = .waiting && p.waitPid = pid

/-- What `wake_waiters` makes of a process that waits for `child`: whether the status was copied,
and the process. -/
def wake (alloc : Nat → Bool) (child : Option Process) (p : Process) : Bool × Process :=
  let copy :=
    if (child.any fun c => c.state.terminal) && p.waitOut ≠ 0 then
      copyToProcess alloc p.space p.waitOut.toNat processInfoSize
    else (false, p.space)
  (copy.1,
    { p with
      space := copy.2
      regs := { p.regs with rax := if copy.1 then 0 else -1, rdx := if copy.1 then 0 else -3 }
      state := .ready
      waitPid := 0
      waitOut := 0 })

/-- The status that `wake_waiters` copies to a process, if it waits and that succeeds. -/
def wakeCopy (alloc : Nat → Bool) (c p : Process) : Option StatusCopy :=
  if waitsFor c.pid p && (wake alloc (some c) p).1 then
    some ⟨p.waitCall, c.serial, c.state, c.exitCode⟩
  else none

/-- `release_process_slot` of a child whose status was copied. -/
def reap (s : System) (i : Slot) (c : Process) : System :=
  { s.setSlot i none with reaped := s.reaped ++ [c.serial] }

/-- `wake_waiters`. -/
def wakeWaiters (s : System) (alloc : Slot → Nat → Bool) (pid : UInt32) : System :=
  if pid = 0 then s
  else
    let slot := s.slotByPid pid
    let child := slot.bind s.slots
    let woken := s.mapSlots fun i p => if waitsFor pid p then (wake (alloc i) child p).2 else p
    match slot, child with
    | some i, some c =>
      let done := (List.finRange asyncCap).filterMap fun j =>
        (s.slots j).bind (wakeCopy (alloc j) c)
      if done = [] then woken else { woken.reap i c with copies := s.copies ++ done }
    | _, _ => woken

/-- `finish_current`, `wake_waiters` and back to the scheduler. -/
def terminateCurrent (s : System) (alloc : Slot → Nat → Bool) (state : ProcState) (regs : Regs) :
    System :=
  match s.currentProc with
  | none => s
  | some c => ((s.finishCurrent state regs).wakeWaiters alloc c.pid).clearCurrentAsync

/-- `process_fault_current_from_interrupt`.  Without a slot it is `process_fault_from_interrupt`. -/
def processFaultCurrentFromInterrupt (s : System) (alloc : Slot → Nat → Bool) (vector : Nat)
    (regs : Regs) : System :=
  match s.currentProc with
  | none => s
  | some c =>
    let s := s.setCurrent { c with exitCode := -128 - vector, faulted := true }
    match s.resolveCurrentAsyncSlot with
    | none => { s with user := none }
    | some _ => s.terminateCurrent alloc .faulted regs

/-! ### Scheduling -/

/-- `process_preempt_from_interrupt`. -/
def processPreemptFromInterrupt (s : System) (regs : Regs) : System :=
  match s.currentProc, s.resolveCurrentAsyncSlot with
  | none, _ => s
  | some c, none =>
    ((s.setCurrent { c with exitCode := -128, faulted := true }).finishCurrent .faulted
      regs).clearCurrentAsync
  | some c, some _ =>
    (s.setCurrent
      { c with
        regs := regs
        state := if c.state = .running then .ready else c.state
      }).syncCurrentToSlot.2.clearCurrentAsync

/-- `wake_sleepers` on one slot. -/
def wakeSleeper (now : UInt64) (p : Process) : Process :=
  if p.state = .sleeping ∧ p.wakeTick ≤ now then { p with state := .ready, wakeTick := 0 } else p

/-- `fault_invalid_ready_slot_locked`. -/
def faultInvalidReadySlot (p : Process) : Process :=
  if p.state = .ready ∧ (p.regs.rip = 0 ∨ p.regs.rsp = 0) then
    { p with state := .faulted, exitCode := -127, faulted := true }
  else p

/-- What `pick_ready_slot` does before it looks for a slot. -/
def scanSlots (s : System) (now : UInt64) : System :=
  s.mapSlots fun _ p => faultInvalidReadySlot (wakeSleeper now p)

/-- The part of `enter_ready_slot` from `process_signal_deliver_pending` on.  The registers of the
process are those in its record here. -/
def deliverAndEnter (s : System) (frame : Nat → Bool) (alloc : Slot → Nat → Bool) (p : Process) :
    System :=
  match processSignalDeliverPending frame p p.regs with
  | .none => { s with user := some p.regs }
  | .handled p regs =>
    { (s.setCurrent { p with regs := regs }).syncCurrentToSlot.2 with user := some regs }
  | .terminated p state =>
    (((s.setCurrent p).finishCurrent state p.regs).wakeWaiters alloc
      p.pid).syncCurrentToSlot.2.clearCurrentAsync
  | .stopped p => (s.setCurrent p).syncCurrentToSlot.2.clearCurrentAsync

/-- The rest of `pick_ready_slot`, when it finds slot `i`, and `enter_ready_slot`. -/
def enterReadySlot (s : System) (frame : Nat → Bool) (alloc : Slot → Nat → Bool) (i : Slot) :
    System :=
  match s.slots i with
  | none => s
  | some p =>
    if p.state = .ready ∧ p.regs.rip ≠ 0 ∧ p.regs.rsp ≠ 0 then
      let p := { p with state := .running }
      { s.setSlot i (some p) with current := some (i, p) }.deliverAndEnter frame alloc p
    else s

/-! ### New processes -/

/-- The child of `clone_current_address_space`. -/
def forkChild (c : Process) (pid : UInt32) (space : UserSpace) (regs : Regs) (serial : Nat) :
    Process where
  pid := pid
  parent := c.pid
  group := c.group
  session := c.session
  stoppedFlag := false
  leaderFlag := c.leaderFlag
  state := .ready
  waitPid := 0
  waitOut := 0
  wakeTick := 0
  regs := { regs with rax := 0, rdx := 0 }
  exitCode := 0
  faulted := false
  cred := c.cred
  space := space
  pending := 0
  blocked := c.blocked
  inHandler := false
  frameAddr := 0
  frame := none
  actions := c.actions
  waitNumber := 0
  waitTarget := 0
  serial := serial

/-- `fork_current_from_regs`: the pid of the child. -/
def forkCurrentFromRegs (s : System) (outcome : CloneOutcome) (regs : Regs) :
    Option UInt32 × System :=
  match s.currentProc, s.allocAsyncSlot with
  | some c, some i =>
    match outcome with
    | .noSpace => (none, s)
    | .failed parent =>
      let pid := s.allocUserPid (asyncCap + 2) s.nextPid
      -- without a pid the pages are not reached
      (none, { (if pid.1.isSome then s.setCurrent { c with space := parent } else s) with
        nextPid := pid.2 })
    | .cloned parent child =>
      match s.allocUserPid (asyncCap + 2) s.nextPid with
      | (none, next) => (none, { s with nextPid := next })
      | (some pid, next) =>
        (some pid,
          { (s.setCurrent { c with space := parent }).setSlot i
              (some (forkChild c pid child regs s.births)) with
            nextPid := next, births := s.births + 1 })
  | _, _ => (none, s)

/-- The process that `prepare_process_env` makes. -/
def newProcess (creator : Option Process) (pid : UInt32) (image : Image) (serial : Nat) : Process :=
  let inherit (field : Process → UInt32) : UInt32 :=
    match creator with
    | none => pid
    | some c => if field c ≠ 0 then field c else if c.pid ≠ 0 then c.pid else pid
  { pid := pid
    parent := (creator.map Process.pid).getD 0
    group := inherit Process.group
    session := inherit Process.session
    stoppedFlag := false
    leaderFlag := pid = inherit Process.session
    state := .ready
    waitPid := 0
    waitOut := 0
    wakeTick := 0
    regs := image.regs
    exitCode := 0
    faulted := false
    cred := processInheritCred (creator.map Process.cred)
    space := image.space
    pending := 0
    blocked := 0
    inHandler := false
    frameAddr := 0
    frame := none
    actions := fun _ => .default
    waitNumber := 0
    waitTarget := 0
    serial := serial }

/-- `process_spawn_async`: the slot and the pid of the new process. -/
def spawnSlot (s : System) (outcome : LoadOutcome) : Except ProcStatus UInt32 × System :=
  match s.allocAsyncSlot, outcome with
  | none, _ => (.error .nomem, s)
  | some _, .noSpace => (.error .nomem, s)
  | some _, .failed e =>
    match s.allocUserPid (asyncCap + 2) s.nextPid with
    | (none, next) => (.error .busy, { s with nextPid := next })
    | (some _, next) => (.error e, { s with nextPid := next })
  | some i, .loaded image =>
    match s.allocUserPid (asyncCap + 2) s.nextPid with
    | (none, next) => (.error .busy, { s with nextPid := next })
    | (some pid, next) =>
      (.ok pid,
        { s.setSlot i (some (newProcess s.currentProc pid image s.births)) with
          nextPid := next, births := s.births + 1 })

/-- The record that `prepare_exec_replacement_env` makes and `commit_exec_replacement` installs. -/
def execReplacement (c : Process) (image : Image) : Process :=
  { processSignalExecReset c with
    state := .running
    stoppedFlag := false
    waitPid := 0
    waitOut := 0
    wakeTick := 0
    regs := image.regs
    exitCode := 0
    faulted := false
    space := image.space }

/-- `commit_exec_replacement`. -/
def commitExecReplacement (s : System) (image : Image) : System :=
  match s.currentProc with
  | none => s
  | some c =>
    { (s.setCurrent (execReplacement c image)).syncCurrentToSlot.2 with user := some image.regs }

/-! ### Waiting -/

/-- `process_request_wait`: the call, if it succeeds. -/
def processRequestWait (s : System) (alloc : Nat → Bool) (pid : UInt32) (out : UInt64) :
    Option WaitCall × System :=
  match s.currentProc with
  | none => (none, s)
  | some c =>
    if pid = 0 ∨ pid = c.pid ∨ out = 0 then (none, s)
    else
      let valid := copyToProcess alloc c.space out.toNat processInfoSize
      let c := { c with space := valid.2 }
      let s := s.setCurrent c
      if valid.1 = false then (none, s)
      else
        match s.slotByPid pid with
        | none => (none, s)
        | some i =>
          match s.slots i with
          | none => (none, s)
          | some target =>
            let call : WaitCall := ⟨s.waits, pid, out, target.serial⟩
            if target.parent ≠ c.pid then (none, s)
            else if target.state.terminal then
              let copy := copyToProcess alloc c.space out.toNat processInfoSize
              let s := s.setCurrent { c with space := copy.2 }
              if copy.1 = false then (none, s)
              else
                (some call,
                  { s.reap i target with
                    copies := s.copies ++ [⟨call, target.serial, target.state, target.exitCode⟩] })
            else
              (some call,
                s.setCurrent
                  { c with
                    state := .waiting
                    waitPid := pid
                    waitOut := out
                    waitNumber := s.waits
                    waitTarget := target.serial })

/-! ### Jobs -/

/-- `process_group_exists_in_session`. -/
def processGroupExistsInSession (s : System) (pgid sid : UInt32) : Bool :=
  let member (p : Process) : Bool := p.group = pgid && p.session = sid
  pgid ≠ 0 && sid ≠ 0 && (s.currentProc.any member || s.anySlot member)

/-- The checks of `process_set_pgrp` for the process `p`, and the group it gets. -/
def pgrpFor (s : System) (c p : Process) (pgid : UInt32) : Except ProcStatus UInt32 :=
  if p.pid ≠ c.pid ∧ p.parent ≠ c.pid then .error .inval
  else if p.session ≠ c.session then .error .inval
  else if p.pid = p.session then .error .inval
  else
    let pgid := if pgid = 0 then p.pid else pgid
    if pgid ≠ p.pid ∧ s.processGroupExistsInSession pgid p.session = false then .error .inval
    else .ok pgid

/-- Write a new record of the current process back: `PROC_ERR_INVAL` without a slot. -/
def storeCurrent (s : System) (p : Process) : Except ProcStatus Unit × System :=
  match (s.setCurrent p).syncCurrentToSlot with
  | (true, s) => (.ok (), s)
  | (false, s) => (.error .inval, s)

/-- `process_set_pgrp`. -/
def processSetPgrp (s : System) (pid pgid : UInt32) : Except ProcStatus Unit × System :=
  match s.currentProc with
  | none => (.error .inval, s)
  | some c =>
    if pid = 0 ∨ pid = c.pid then
      match s.pgrpFor c c pgid with
      | .error e => (.error e, s)
      | .ok pgid => s.storeCurrent { c with group := pgid }
    else
      match s.slotByPid pid with
      | none => (.error .inval, s)
      | some i =>
        match s.slots i with
        | none => (.error .inval, s)
        | some p =>
          match s.pgrpFor c p pgid with
          | .error e => (.error e, s)
          | .ok pgid => (.ok (), s.setSlot i (some { p with group := pgid }))

/-- `process_set_sid`. -/
def processSetSid (s : System) : Except ProcStatus Unit × System :=
  match s.currentProc with
  | none => (.error .inval, s)
  | some c =>
    -- `process_group_exists`
    if c.pid ≠ 0 ∧ (c.group = c.pid ∨ s.anySlot fun p => p.group = c.pid) then (.error .busy, s)
    else s.storeCurrent { c with session := c.pid, group := c.pid, leaderFlag := true }

/-! ### Syscalls -/

/-- What a program has left in the signal frame that it returns through: the frame as the kernel
wrote it, something of its own, or nothing that can be read. -/
inductive FrameContent where
  | intact
  | written (f : SignalFrame)
  | unreadable

/-- The frame that `process_signal_return` reads.  What a program writes is no return of a
`wait`. -/
def FrameContent.read (content : FrameContent) (p : Process) : Option SignalFrame :=
  match content with
  | .intact => p.frame
  | .written f => some { f with savedRegs := { f.savedRegs with returnOf := none } }
  | .unreadable => none

/-- A syscall.  `other` is every one that changes nothing of what is modelled here but the address
space; a call that fails before it gets to the functions above is one too. -/
inductive Call where
  | exit (code : Int)
  | sigreturn (frameAddr : UInt64) (content : FrameContent)
  | kill (pid sig : UInt64)
  | raise (sig : UInt64)
  | signal (sig : UInt64) (handler : UInt64)
  | sigaction (sig : UInt64) (act : Option SigAction) (oldCopied : Bool)
  | sigprocmask (how : MaskHow) (set : Option UInt64) (oldCopied : Bool)
  | setpgid (pid pgid : UInt64)
  | setsid
  | fork (outcome : CloneOutcome)
  | spawn (outcome : LoadOutcome)
  | exec (outcome : Except ProcStatus Image)
  | wait (pid out : UInt64)
  | sleep (ticks now : UInt64)
  | yield
  | setCred (cred : Cred) (rax rdx : UInt64)
  | other (space : UserSpace) (rax rdx : UInt64)

/-- The requests that a syscall leaves for `process_after_syscall`. -/
inductive Request where
  | none
  | reschedule
  | fork (outcome : CloneOutcome)
  | exec (image : Image)

/-- The values of `vfs_status_t`. -/
def vfsCode : VfsStatus → UInt64
  | .ok => 0
  | .noent => -1
  | .nomem => -2
  | .inval => -3
  | .io => -4
  | .notdir => -5
  | .isdir => -6
  | .exist => -7
  | .perm => -8
  | .nospc => -9
  | .notempty => -10
  | .unsupported => -11
  | .busy => -12

/-- The result of a syscall in the registers. -/
def ret (regs : Regs) (value error : UInt64) : Regs := { regs with rax := value, rdx := error }

/-- `ok`. -/
def retOk (regs : Regs) (value : UInt64) : Regs := ret regs value 0

/-- `err`. -/
def retErr (regs : Regs) (e : VfsStatus) : Regs := ret regs (-1) (vfsCode e)

/-- The result of a syscall that returns a status. -/
def retStatus (regs : Regs) (value : UInt64) : Except ProcStatus Unit → Regs
  | .ok () => retOk regs value
  | .error e => retErr regs (processStatusToVfsError e)

/-- `sys_decode_pid_arg`. -/
def sysDecodePidArg (raw : UInt64) : Option UInt32 :=
  if raw ≤ 0xffffffff then (if raw = 0x80000000 then none else some raw.toUInt32)
  else if 0xffffffff80000001 ≤ raw then some raw.toUInt32
  else none

/-- The result of `kill`. -/
def retKill (regs : Regs) : Except ProcStatus Unit → Regs
  | .ok () => retOk regs 0
  | .error .fault => retErr regs .perm
  | .error .inval => retErr regs .noent
  | .error e => retErr regs (processStatusToVfsError e)

/-- `rabbitbone_sys_kill`. -/
def sysKill (s : System) (regs : Regs) (pid sig : UInt64) : System × Regs :=
  match sysDecodePidArg pid with
  | none => (s, retErr regs .inval)
  | some pid =>
    if sig = 0 ∨ 32 ≤ sig then (s, retErr regs .inval)
    else
      let r := s.processSignalSend pid sig.toNat
      (r.2, retKill regs r.1)

/-- `rabbitbone_sys_raise`. -/
def sysRaise (s : System) (regs : Regs) (sig : UInt64) : System × Regs :=
  if sig = 0 ∨ 32 ≤ sig then (s, retErr regs .inval)
  else
    let r := s.processSignalRaise sig.toNat
    (r.2, retStatus regs 0 r.1)

/-- `rabbitbone_sys_signal` and `rabbitbone_sys_sigaction`, from `process_signal_set_action` on:
`done` is the result when that succeeds. -/
def sysSetAction (s : System) (c : Process) (regs : Regs) (sig : UInt64) (act : Option SigAction)
    (done : Regs) : System × Regs :=
  match processSignalSetAction c sig.toNat act with
  | .error e => (s, retErr regs (processStatusToVfsError e))
  | .ok c =>
    match s.storeCurrent c with
    | (.ok (), s) => (s, done)
    | (.error e, s) => (s, retErr regs (processStatusToVfsError e))

/-- `rabbitbone_sys_sigprocmask`, from `process_signal_mask` on. -/
def sysSigprocmask (s : System) (c : Process) (regs : Regs) (how : MaskHow) (set : Option UInt64)
    (oldCopied : Bool) : System × Regs :=
  match s.storeCurrent (processSignalMask c how set) with
  | (.ok (), s) => (s, if oldCopied then retOk regs 0 else retErr regs .inval)
  | (.error e, s) => (s, retErr regs (processStatusToVfsError e))

/-- `rabbitbone_sys_setpgid`. -/
def sysSetpgid (s : System) (regs : Regs) (pid pgid : UInt64) : System × Regs :=
  if 0xffffffff < pid ∨ 0xffffffff < pgid then (s, retErr regs .inval)
  else
    let r := s.processSetPgrp pid.toUInt32 pgid.toUInt32
    (r.2, retStatus regs 0 r.1)

/-- `rabbitbone_sys_spawn`, from `process_spawn_async` on. -/
def sysSpawn (s : System) (regs : Regs) (outcome : LoadOutcome) : System × Regs :=
  match s.spawnSlot outcome with
  | (.ok pid, s) => (s, retOk regs pid.toUInt64)
  | (.error e, s) => (s, retErr regs (processStatusToVfsError e))

/-- What `process_request_wait` sets `reschedule_requested` for: the process has to wait. -/
def waitRequest (s : System) : Request :=
  if s.currentProc.any (·.state = .waiting) then .reschedule else .none

/-- `rabbitbone_sys_wait`. -/
def sysWait (s : System) (alloc : Nat → Bool) (c : Process) (regs : Regs) (pid out : UInt64) :
    System × Regs × Request :=
  let s := { s with waits := s.waits + 1 }
  if out = 0 ∨ 0xffffffff < pid then (s, retErr regs .inval, .none)
  else
    let valid := copyToProcess alloc c.space out.toNat processInfoSize
    let s := s.setCurrent { c with space := valid.2 }
    if valid.1 = false then (s, retErr regs .inval, .none)
    else
      match s.processRequestWait alloc pid.toUInt32 out with
      | (none, s) => (s, retErr regs .noent, .none)
      | (some call, s) => (s, { retOk regs 0 with returnOf := some call }, s.waitRequest)

/-- `rabbitbone_sys_sleep`, with `process_request_sleep`. -/
def sysSleep (s : System) (c : Process) (regs : Regs) (ticks now : UInt64) :
    System × Regs × Request :=
  if 10000 < ticks then (s, retErr regs .inval, .none)
  else
    let wakeTick := if 0xffffffffffffffff - now < ticks then 0xffffffffffffffff else now + ticks
    (s.setCurrent { c with state := if ticks = 0 then .ready else .sleeping, wakeTick := wakeTick },
      retOk regs now, .reschedule)

/-- `syscall_int80` up to `process_after_syscall`, for all syscalls but `exit`. -/
def dispatch (s : System) (alloc : Nat → Bool) (c : Process) (regs : Regs) :
    Call → System × Regs × Request
  | .exit _ => (s, regs, .none)
  | .sigreturn addr content =>
    match processSignalReturn c addr (content.read c) regs with
    | none => (s, ret regs (-1) (-1), .none)
    | some (c, restored) =>
      -- the registers are changed even if the record cannot be stored
      match (s.setCurrent c).syncCurrentToSlot with
      | (true, s) => (s, restored, .none)
      | (false, s) => (s, ret restored (-1) (-1), .none)
  | .kill pid sig =>
    let r := s.sysKill regs pid sig
    (r.1, r.2, .none)
  | .raise sig =>
    let r := s.sysRaise regs sig
    (r.1, r.2, .none)
  | .signal sig handler =>
    let r := s.sysSetAction c regs sig (some ⟨handler, 0, 0, 0⟩)
      (retOk regs (c.actions sig.toNat).handler)
    (r.1, r.2, .none)
  | .sigaction sig act oldCopied =>
    let r := s.sysSetAction c regs sig act (if oldCopied then retOk regs 0 else retErr regs .inval)
    (r.1, r.2, .none)
  | .sigprocmask how set oldCopied =>
    let r := s.sysSigprocmask c regs how set oldCopied
    (r.1, r.2, .none)
  | .setpgid pid pgid =>
    let r := s.sysSetpgid regs pid pgid
    (r.1, r.2, .none)
  | .setsid =>
    let r := s.processSetSid
    (r.2, retStatus regs c.pid.toUInt64 r.1, .none)
  | .fork outcome => (s, retOk regs 0, .fork outcome)
  | .spawn outcome =>
    let r := s.sysSpawn regs outcome
    (r.1, r.2, .none)
  | .exec (.error e) => (s, retErr regs (processStatusToVfsError e), .none)
  | .exec (.ok image) => (s, retOk regs 0, .exec image)
  | .wait pid out => s.sysWait alloc c regs pid out
  | .sleep ticks now => s.sysSleep c regs ticks now
  | .yield => (s, retOk regs 0, .reschedule)
  -- `process_set_current_credentials` and `process_set_current_euid`
  | .setCred cred rax rdx =>
    ((s.setCurrent { c with cred := cred }).syncCurrentToSlot.2, ret regs rax rdx, .none)
  | .other space rax rdx => (s.setCurrent { c with space := space }, ret regs rax rdx, .none)

/-- The end of `process_after_syscall`: away from the process, or back to user mode. -/
def resume (s : System) (reschedule handled : Bool) (regs : Regs) : System :=
  match s.currentProc with
  | none => s
  | some c =>
    if reschedule ∨ c.state = .sleeping ∨ c.state = .waiting then s.processPreemptFromInterrupt regs
    else { (if handled then s.syncCurrentToSlot.2 else s) with user := some regs }

/-- The part of `process_after_syscall` from `process_signal_deliver_pending` on. -/
def deliverAndResume (s : System) (frame : Nat → Bool) (alloc : Slot → Nat → Bool)
    (reschedule : Bool) (regs : Regs) : System :=
  match s.currentProc with
  | none => s
  | some c =>
    match processSignalDeliverPending frame c regs with
    | .none => s.resume reschedule false regs
    | .handled c regs => (s.setCurrent c).resume reschedule true regs
    | .terminated c state => (s.setCurrent c).terminateCurrent alloc state regs
    -- the registers of the interrupt are not stored here
    | .stopped c => (s.setCurrent c).syncCurrentToSlot.2.clearCurrentAsync

/-- `process_after_syscall`. -/
def processAfterSyscall (s : System) (frame : Nat → Bool) (alloc : Slot → Nat → Bool) (regs : Regs)
    (request : Request) : System :=
  match s.resolveCurrentAsyncSlot with
  | none => { s with user := some regs }
  | some _ =>
    match request with
    | .none => s.deliverAndResume frame alloc false regs
    | .reschedule => s.deliverAndResume frame alloc true regs
    | .fork outcome =>
      match s.forkCurrentFromRegs outcome regs with
      | (some pid, s) => s.deliverAndResume frame alloc false (ret regs pid.toUInt64 0)
      | (none, s) => s.deliverAndResume frame alloc false (ret regs (-1) (-4))
    -- no signal is delivered after an exec
    | .exec image => s.commitExecReplacement image

/-- What decides during a step whether a page can be brought in or copied: for the buffer of a
`wait`, for a signal frame, and for the processes that are woken. -/
structure Memory where
  copy : Nat → Bool
  frame : Nat → Bool
  wake : Slot → Nat → Bool

/-- `syscall_int80`. -/
def syscallInt80 (s : System) (mem : Memory) (regs : Regs) (call : Call) : System :=
  match s.currentProc with
  | none => s
  | some c =>
    match call with
    | .exit code =>
      (s.setCurrent { c with exitCode := code }).terminateCurrent mem.wake .exited regs
    | call =>
      let r := s.dispatch mem.copy c regs call
      r.1.processAfterSyscall mem.frame mem.wake r.2.1 r.2.2

/-! ### Runs -/

/-- What happens to the processes: the scheduler looks at the slots, enters one, or the program that
runs is interrupted by the timer, by a page fault that is resolved, by an exception, or by a
syscall.  It has registers of its own by then. -/
inductive Event where
  | scan (now : UInt64)
  | enter (i : Slot)
  | timer (regs : Regs)
  | pageFault (regs : Regs) (space : UserSpace)
  | exception (vector : Nat) (regs : Regs)
  | syscall (regs : Regs) (call : Call)

/-- Registers that a program has: they are no longer those of a return from the kernel. -/
def ofUser (regs : Regs) : Regs := { regs with returnOf := none }

/-- `process_try_resolve_cow_fault`, if it succeeds: the program goes on. -/
def processTryResolveCowFault (s : System) (regs : Regs) (space : UserSpace) : System :=
  match s.currentProc with
  | none => s
  | some c =>
    { (s.setCurrent { c with space := space }).syncCurrentToSlot.2 with user := some regs }

/-- One step.  The scheduler runs when no process does, and the rest happens to a process in user
mode. -/
def step (s : System) (mem : Memory) (e : Event) : System :=
  match e, s.current, s.user with
  | .scan now, none, _ => s.scanSlots now
  | .enter i, none, _ => s.enterReadySlot mem.frame mem.wake i
  | .timer regs, some _, some _ => s.processPreemptFromInterrupt (ofUser regs)
  | .pageFault regs space, some _, some _ => s.processTryResolveCowFault (ofUser regs) space
  | .exception vector regs, some _, some _ =>
    s.processFaultCurrentFromInterrupt mem.wake vector (ofUser regs)
  | .syscall regs call, some _, some _ => s.syscallInt80 mem (ofUser regs) call
  | _, _, _ => s

/-- A run: what memory there is at each step, and what happens. -/
abbrev Run := List (Memory × Event)

def run (s : System) (r : Run) : System := r.foldl (fun s e => s.step e.1 e.2) s

/-- The state in which `process_scheduler_loop` starts: `kmain` has spawned the first process. -/
def boot (nextPid : UInt64) (init : Image) : System :=
  let s : System := ⟨fun _ => none, none, none, nextPid, 0, 0, [], []⟩
  (s.spawnSlot (.loaded init)).2

end System

end Rabbitbone.Native.Proc
