import Mathlib.Data.List.FinRange
import Mathlib.Logic.Function.Basic

/-!
# Cross-calls between CPUs

Model of the cross-call queues of `kernel/drivers/smp/runtime.inc`.  A call of `smp_run_on_mask_ex`
hands an item to each of its target CPUs; a CPU that drains its queue takes an item and executes it.
Calls and executions run side by side, and each access to a shared item and each section under the
lock of a queue is a step of its own.

An item is known by its call and its CPU, so a storage that is used again holds another item.  Of an
item the fields that the code branches on are kept; statistics, time stamps and wake-ups are left
out.  So is `smp_xcall_context_allowed`: a call that it refuses returns 0 and does nothing.  What
the rest of the system decides comes with the step: whether a CPU takes an item, whether a wait has
timed out, and what is read from the storage of an item that is gone.
-/

namespace Rabbitbone.Native.Smp

/-- `SMP_MAX_CPUS`. -/
def smpMaxCpus : Nat := 16

abbrev Cpu := Fin smpMaxCpus

/-- `SMP_XCALL_F_ASYNC`. -/
def xcallAsync : BitVec 32 := 0x1

/-- The item of a call for a CPU. -/
structure ItemId where
  call : Nat
  dst : Cpu
  deriving DecidableEq, Repr

/-- `smp_call_item_t`. -/
structure Item where
  done : Bool
  running : Bool
  failed : Bool
  queuedRemote : Bool
  heapOwned : Bool
  flags : BitVec 32
  deriving DecidableEq, Repr

/-- An item behind `memset`. -/
def Item.cleared : Item := ⟨false, false, false, false, false, 0⟩

/-- What `smp_execute_call_item` does next. -/
inductive ExecPhase where
  /-- The first load of `failed`. -/
  | enter
  /-- The second load of `failed`, behind the record of the call. -/
  | recheck
  | setRunning
  | callFn
  /-- The function runs. -/
  | inFn
  | clearRunning
  | setDone
  /-- The load of `heap_owned`. -/
  | readOwned
  deriving DecidableEq, Repr

/-- An execution of an item on a CPU. -/
structure Exec where
  item : ItemId
  cpu : Cpu
  phase : ExecPhase
  deriving DecidableEq, Repr

/-- What `smp_run_on_mask_ex` does next; `rest` are the CPUs its loop has still to look at. -/
inductive CallPhase where
  | issue (rest : List Cpu)
  /-- `smp_execute_call_item` runs for the item of the CPU itself. -/
  | inline (i : Cpu) (rest : List Cpu)
  /-- A pass of `smp_wait_sync_items`. -/
  | scan (rest : List Cpu) (done : Nat)
  /-- Its loop behind a time-out. -/
  | expire (rest : List Cpu)
  | setFailed (i : Cpu) (rest : List Cpu)
  | cancel (i : Cpu) (rest : List Cpu)
  /-- `smp_wait_stack_item_safe_or_panic`. -/
  | quiesce (i : Cpu) (rest : List Cpu)
  /-- The count of the items that are done and have not failed. -/
  | tally (rest : List Cpu) (completed : Nat)
  | tallyFailed (i : Cpu) (rest : List Cpu) (completed : Nat)
  | returned (completed : Nat)
  deriving DecidableEq, Repr

/-- A call of `smp_run_on_mask_ex`.  `cpu` is the CPU it runs on, `cpus` are the bits of `cpu_mask`,
and `issued` and `remote` those of `issued_mask` and `remote_mask`. -/
structure Call where
  cpu : Cpu
  current : Cpu
  cpus : List Cpu
  flags : BitVec 32
  issued : List Cpu
  remote : List Cpu
  targets : Nat
  localTargets : Nat
  phase : CallPhase
  deriving DecidableEq, Repr

/-- The flag `SMP_XCALL_F_ASYNC` is set. -/
def Call.async (call : Call) : Bool := call.flags &&& xcallAsync ≠ 0

/-- The queues, the items, the calls up to `nextCall` and the executions.  The last five fields are
not in the source: which functions were called, which have come to their end and where, which items
were cancelled, and the items in the order in which they came into a queue and out of it. -/
structure Xcalls where
  cpuCount : Nat
  queues : Cpu → List ItemId
  items : ItemId → Item
  calls : Nat → Call
  nextCall : Nat
  execs : List Exec
  halted : Bool
  begun : List ItemId
  ran : List (ItemId × Cpu)
  cancelled : List ItemId
  enqueued : Cpu → List ItemId
  dequeued : Cpu → List ItemId

/-- What `smp_prepare_call` and `smp_enqueue_call_item` say to an item. -/
inductive Issue where
  /-- The item is not prepared. -/
  | skipped
  /-- The CPU takes no items. -/
  | refused
  | accepted
  deriving DecidableEq, Repr

namespace Xcalls

/-- The CPU with the number 0. -/
def bootCpu : Cpu := ⟨0, by decide⟩

/-- No call yet. -/
def noCall : Call := ⟨bootCpu, bootCpu, [], 0, [], [], 0, 0, .returned 0⟩

/-- `smp_call_queue_init`. -/
def start (cpuCount : Nat) : Xcalls where
  cpuCount := cpuCount
  queues := fun _ => []
  items := fun _ => Item.cleared
  calls := fun _ => noCall
  nextCall := 0
  execs := []
  halted := false
  begun := []
  ran := []
  cancelled := []
  enqueued := fun _ => []
  dequeued := fun _ => []

/-- Change one item. -/
def setItem (s : Xcalls) (x : ItemId) (item : Item) : Xcalls :=
  { s with items := Function.update s.items x item }

/-- Change one call. -/
def setCall (s : Xcalls) (c : Nat) (call : Call) : Xcalls :=
  { s with calls := Function.update s.calls c call }

/-- Change what a call does next. -/
def goto (s : Xcalls) (c : Nat) (phase : CallPhase) : Xcalls :=
  s.setCall c { s.calls c with phase := phase }

/-! ### Queues -/

/-- `smp_enqueue_call_item` with the lock of the queue held; `item` is what the stores before it
have made of the item. -/
def enqueue (s : Xcalls) (x : ItemId) (item : Item) : Xcalls :=
  { s.setItem x item with
    queues := Function.update s.queues x.dst (s.queues x.dst ++ [x])
    enqueued := Function.update s.enqueued x.dst (s.enqueued x.dst ++ [x]) }

/-- `smp_call_item_matches_drain`. -/
def matchesDrain (flags required : BitVec 32) : Bool :=
  required = 0 || flags &&& required = required

/-- The loop of `smp_dequeue_call_item_matching`: the first item that matches and is synchronous,
else the first one that matches. -/
def dequeueScan (flags : ItemId → BitVec 32) (required : BitVec 32) :
    List ItemId → Option ItemId → Option ItemId
  | [], first => first
  | cur :: rest, first =>
    if matchesDrain (flags cur) required then
      if flags cur &&& xcallAsync = 0 then some cur
      else dequeueScan flags required rest (first.or (some cur))
    else dequeueScan flags required rest first

/-- `smp_dequeue_call_item_matching`; the CPU goes on to execute the item. -/
def dequeue (s : Xcalls) (cpu : Cpu) (required : BitVec 32) : Xcalls :=
  match dequeueScan (fun x => (s.items x).flags) required (s.queues cpu) none with
  | none => s
  | some x =>
    { s with
      queues := Function.update s.queues cpu ((s.queues cpu).erase x)
      dequeued := Function.update s.dequeued cpu (s.dequeued cpu ++ [x])
      execs := s.execs ++ [⟨x, cpu, .enter⟩] }

/-- `smp_cancel_queued_call_item`: the item is taken out of the queue, or it is not there. -/
def cancelQueued (s : Xcalls) (x : ItemId) : Option Xcalls :=
  if x ∈ s.queues x.dst ∧ (s.items x).running = false ∧ (s.items x).done = false then
    some { s.setItem x { s.items x with failed := true, done := true } with
      queues := Function.update s.queues x.dst ((s.queues x.dst).erase x)
      cancelled := x :: s.cancelled }
  else none

/-! ### Executions -/

/-- One step of `smp_execute_call_item`, and what comes next.  In the end `heap_owned` is loaded:
from the item, or, if the item was on the stack of a call that has returned, whatever is there by
now, and `kfree` does not accept an item on a stack. -/
def executeStep (s : Xcalls) (e : Exec) (stale : Bool) : Xcalls × Option ExecPhase :=
  let item := s.items e.item
  match e.phase with
  | .enter => (s, some (if item.failed then .setDone else .recheck))
  | .recheck => (s, some (if item.failed then .setDone else .setRunning))
  | .setRunning => (s.setItem e.item { item with running := true }, some .callFn)
  | .callFn => ({ s with begun := e.item :: s.begun }, some .inFn)
  | .inFn => ({ s with ran := (e.item, e.cpu) :: s.ran }, some .clearRunning)
  | .clearRunning => (s.setItem e.item { item with running := false }, some .setDone)
  | .setDone => (s.setItem e.item { item with done := true }, some .readOwned)
  | .readOwned =>
    let call := s.calls e.item.call
    match call.async, call.phase with
    | false, .returned _ => ({ s with halted := stale }, none)
    | _, _ => (s, none)

/-- Execution `k` takes its next step. -/
def execute (s : Xcalls) (k : Nat) (stale : Bool) : Xcalls :=
  match s.execs[k]? with
  | none => s
  | some e =>
    match s.executeStep e stale with
    | (s', some phase) => { s' with execs := s.execs.set k { e with phase := phase } }
    | (s', none) => { s' with execs := s.execs.eraseIdx k }

/-! ### Calls -/

/-- The first part of `smp_run_on_mask_ex`, on CPU `cpu`; `started` is the mask of the CPUs that can
be targets. -/
def smpRunOnMaskEx (s : Xcalls) (cpu : Cpu) (requested started flags : BitVec 32) : Xcalls :=
  let current := if !started.getLsbD cpu.val && started.getLsbD bootCpu.val then bootCpu else cpu
  -- SMP_CPU_MASK_ALL has all bits
  let cpuMask := requested &&& started
  if cpuMask = 0 then s
  else
    let cpus := (List.finRange smpMaxCpus).filter fun i => i.val < s.cpuCount &&
      cpuMask.getLsbD i.val
    { s.setCall s.nextCall ⟨cpu, current, cpus, flags, [], [], 0, 0, .issue cpus⟩ with
      nextCall := s.nextCall + 1 }

/-- An item behind `smp_prepare_call`, or behind `smp_alloc_async_call`. -/
def prepared (call : Call) : Item :=
  { Item.cleared with flags := call.flags, heapOwned := call.async }

/-- The loop of `smp_run_on_mask_ex` over its CPUs, once. -/
def issueStep (s : Xcalls) (c : Nat) (i : Cpu) (rest : List Cpu) (outcome : Issue) : Xcalls :=
  let call := s.calls c
  let x : ItemId := ⟨c, i⟩
  if outcome = .skipped then s.goto c (.issue rest)
  else if i = call.current then
    { (s.setItem x (prepared call)).goto c (.inline i rest) with
      execs := s.execs ++ [⟨x, call.cpu, .enter⟩] }
  else if outcome = .accepted then
    (s.enqueue x { prepared call with queuedRemote := true }).setCall c
      { call with
        issued := call.issued ++ [i], remote := call.remote ++ [i],
        targets := call.targets + 1, phase := .issue rest }
  else if call.async then s.goto c (.issue rest)
  else (s.setItem x { prepared call with failed := true, done := true }).goto c (.issue rest)

/-- The end of the loop. -/
def issueEnd (call : Call) : CallPhase :=
  if call.async then .returned call.targets
  else if call.targets = 0 then .returned 0
  else if call.remote = [] then .returned call.targets
  else .scan call.remote 0

/-- Call `c` takes its next step; `timedOut` says whether it has waited long enough. -/
def advance (s : Xcalls) (c : Nat) (outcome : Issue) (timedOut : Bool) : Xcalls :=
  let call := s.calls c
  let item (i : Cpu) := s.items ⟨c, i⟩
  match call.phase with
  | .issue [] => s.goto c (issueEnd call)
  | .issue (i :: rest) => s.issueStep c i rest outcome
  | .inline i rest =>
    -- the call goes on when the execution has come to its end
    if s.execs.any fun e => e.item = ⟨c, i⟩ then s
    else if call.async || (item i).done then
      s.setCall c { call with
        issued := call.issued ++ [i], targets := call.targets + 1,
        localTargets := call.localTargets + 1, phase := .issue rest }
    else s.goto c (.issue rest)
  | .scan (i :: rest) done => s.goto c (.scan rest (if (item i).done then done + 1 else done))
  | .scan [] done =>
    if done = call.targets - call.localTargets then s.goto c (.returned call.targets)
    else if timedOut then s.goto c (.expire call.remote)
    else s.goto c (.scan call.remote 0)
  | .expire (i :: rest) => s.goto c (if (item i).done then .expire rest else .setFailed i rest)
  | .expire [] => s.goto c (.tally call.issued 0)
  | .setFailed i rest => (s.setItem ⟨c, i⟩ { item i with failed := true }).goto c (.cancel i rest)
  | .cancel i rest =>
    match s.cancelQueued ⟨c, i⟩ with
    | some s' => s'.goto c (.expire rest)
    | none => s.goto c (.quiesce i rest)
  | .quiesce i rest =>
    if (item i).done then s.goto c (.expire rest)
    else if timedOut then { s with halted := true }
    else s
  | .tally (i :: rest) completed =>
    s.goto c (if (item i).done then .tallyFailed i rest completed else .tally rest completed)
  | .tallyFailed i rest completed =>
    s.goto c (.tally rest (if (item i).failed then completed else completed + 1))
  | .tally [] completed => s.goto c (.returned completed)
  | .returned _ => s

/-! ### The system -/

/-- What can happen next. -/
inductive Event where
  /-- A CPU calls `smp_run_on_mask_ex`. -/
  | call (cpu : Cpu) (requested started flags : BitVec 32)
  /-- Call `c` takes its next step. -/
  | advance (c : Nat) (outcome : Issue) (timedOut : Bool)
  /-- A CPU drains its queue and takes an item. -/
  | dequeue (cpu : Cpu) (required : BitVec 32)
  /-- Execution `k` takes its next step. -/
  | execute (k : Nat) (stale : Bool)
  deriving DecidableEq, Repr

/-- One step of the system. -/
def step (s : Xcalls) (e : Event) : Xcalls :=
  if s.halted then s
  else
    match e with
    | .call cpu requested started flags => s.smpRunOnMaskEx cpu requested started flags
    | .advance c outcome timedOut => if c < s.nextCall then s.advance c outcome timedOut else s
    | .dequeue cpu required => s.dequeue cpu required
    | .execute k stale => s.execute k stale

end Xcalls

end Rabbitbone.Native.Smp
