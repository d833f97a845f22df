import Mathlib.Logic.Relation
import Rabbitbone.ForStd.LiveCopy
import Rabbitbone.Spec.Proc.Delivery

/-!
# Processes as they are meant

In the table of processes as it is meant there is one record of each process, and an interrupted
program has its registers in one place.  `Act` lists everything that the kernel does to this table.
That the kernel's table, in which the running process is a copy that is written back now and then,
does nothing else is shown in `SchedulerSimulation`; what holds of all actions then holds of the
kernel.
-/

namespace Rabbitbone.Spec.Proc

open Native.Proc Native.Proc.System Function

/-- Where the CPU is: in the scheduler, in a program with some registers, or in the kernel with the
registers to which the program returns, before or after a signal was delivered. -/
inductive Mode where
  | idle
  | user (i : Slot) (r : Regs)
  | kernel (i : Slot) (r : Regs)
  | leaving (i : Slot) (r : Regs)

/-- All processes, and what has happened to them. -/
@[ext] structure Machine where
  procs : Slot → Option Process
  mode : Mode
  births : Nat
  copies : List StatusCopy
  reaped : List Nat

namespace Machine

/-- Another record for the process in slot `i`. -/
def put (m : Machine) (i : Slot) (p : Process) : Machine :=
  { m with procs := update m.procs i (some p) }

/-- Another mode. -/
def goto (m : Machine) (mode : Mode) : Machine := { m with mode := mode }

/-- Change every process. -/
def map (m : Machine) (f : Slot → Process → Process) : Machine :=
  { m with procs := fun j => (m.procs j).map (f j) }

/-- A process that is gone. -/
def remove (m : Machine) (i : Slot) (p : Process) : Machine :=
  { m with procs := update m.procs i none, reaped := m.reaped ++ [p.serial] }

/-- The statuses that the end of the process `c` brings to those that wait for it. -/
def wakeCopies (m : Machine) (alloc : Slot → Nat → Bool) (c : Process) : List StatusCopy :=
  (List.finRange asyncCap).filterMap fun j => (m.procs j).bind (wakeCopy (alloc j) c)

/-- Those that wait for the process `c` are woken. -/
def wakeAll (m : Machine) (alloc : Slot → Nat → Bool) (c : Process) : Machine :=
  m.map fun j p => if waitsFor c.pid p then (wake (alloc j) (some c) p).2 else p

end Machine

/-- A change of a process that leaves alone where it stands: what it is, the registers it has, its
pending signals and whether it waits or has ended.  It gets no signal blocked that must not be. -/
structure Changed (c c' : Process) : Prop where
  pid : c'.pid = c.pid
  parent : c'.parent = c.parent
  serial : c'.serial = c.serial
  regs : c'.regs = c.regs
  frame : c'.frame = c.frame
  inHandler : c'.inHandler = c.inHandler
  pending : c'.pending = c.pending
  before : c.state ≠ .waiting
  after : c'.state ≠ .waiting
  terminal : c'.state.terminal = c.state.terminal
  blocked : Maskable c.blocked → Maskable c'.blocked

/-- Two records of one process, of which the rest is of no use. -/
structure Akin (c c' : Process) : Prop where
  pid : c'.pid = c.pid
  parent : c'.parent = c.parent
  serial : c'.serial = c.serial
  blocked : c'.blocked = c.blocked

/-- A process that has ended. -/
structure Ended (c c' : Process) : Prop extends Akin c c' where
  terminal : c'.state.terminal = true

/-- A process that has just been made. -/
structure Newborn (m : Machine) (p : Process) : Prop where
  pid : p.pid ≠ 0
  fresh : ∀ j q, m.procs j = some q → q.pid ≠ p.pid
  serial : p.serial = m.births
  state : p.state = .ready
  regs : p.regs.returnOf = none
  inHandler : p.inHandler = false
  pending : p.pending = 0
  blocked : p.blocked = 0 ∨ ∃ j q, m.procs j = some q ∧ p.blocked = q.blocked

/-- What the kernel does.  `exec` is only done to a process that satisfies `E`. -/
inductive Act (E : Process → Prop) : Machine → Machine → Prop where
  /-- The scheduler enters a process. -/
  | enter {m i p} (hm : m.mode = .idle) (hp : m.procs i = some p) (hs : p.state = .ready) :
    Act E m ((m.put i { p with state := .running }).goto (.kernel i p.regs))
  /-- A program is interrupted. -/
  | trap {m i r r'} (hm : m.mode = .user i r) (hr : r'.returnOf = none) :
    Act E m (m.goto (.kernel i r'))
  /-- A syscall has a result. -/
  | answer {m i r r'} (hm : m.mode = .kernel i r) (hr : r'.returnOf = none) :
    Act E m (m.goto (.kernel i r'))
  /-- The running process is changed. -/
  | change {m i r c c'} (hm : m.mode = .kernel i r) (hc : m.procs i = some c) (h : Changed c c') :
    Act E m (m.put i c')
  /-- A signal is sent. -/
  | send {m} (sel : Slot → Process → Bool) {sig : Nat} (hsig : signalValid sig = true) :
    Act E m (m.map fun j p => if sel j p then processSignalQueueOne p sig else p)
  /-- Another process joins a group. -/
  | join {m j p} (hp : m.procs j = some p) (pgid : UInt32) :
    Act E m (m.put j { p with group := pgid })
  /-- A program returns from a signal handler. -/
  | signalReturn {m i r c c' r' addr content} (hm : m.mode = .kernel i r) (hc : m.procs i = some c)
      (h : processSignalReturn c addr (FrameContent.read content c) r = some (c', r')) :
    Act E m ((m.put i c').goto (.kernel i r'))
  /-- No signal is there to be delivered. -/
  | pass {m i r} (hm : m.mode = .kernel i r) : Act E m (m.goto (.leaving i r))
  /-- A signal is delivered, and the process goes on. -/
  | handle {m i r c c' r' frame} (hm : m.mode = .kernel i r) (hc : m.procs i = some c)
      (h : processSignalDeliverPending frame c r = .handled c' r') :
    Act E m ((m.put i c').goto (.leaving i r'))
  /-- A signal stops the process. -/
  | stop {m i r c c' frame} (hm : m.mode = .kernel i r) (hc : m.procs i = some c)
      (ht : c.state.terminal = false) (h : processSignalDeliverPending frame c r = .stopped c') :
    Act E m ((m.put i c').goto .idle)
  /-- The registers are kept in the record. -/
  | save {m i r c} (hm : m.mode = .leaving i r) (hc : m.procs i = some c) :
    Act E m (m.put i { c with regs := r })
  /-- The program goes on. -/
  | resume {m i r c} (hm : m.mode = .leaving i r) (hc : m.procs i = some c)
      (hs : c.state ≠ .waiting) (ht : c.state.terminal = false) : Act E m (m.goto (.user i r))
  /-- Another process gets the CPU. -/
  | preempt {m i r c} (hm : m.mode = .leaving i r) (hc : m.procs i = some c) :
    Act E m ((m.put i
      { c with regs := r, state := if c.state = .running then .ready else c.state }).goto .idle)
  /-- The running process ends. -/
  | finish {m i r c c'} (hm : m.mode = .kernel i r) (hc : m.procs i = some c) (h : Ended c c') :
    Act E m (m.put i c')
  /-- The children of a process that has ended get another parent. -/
  | orphan {m i r c} (hm : m.mode = .kernel i r) (hc : m.procs i = some c) (ht : c.state.terminal)
      (new : UInt32) :
    Act E m (m.map fun j p => if j ≠ i ∧ p.parent = c.pid then { p with parent := new } else p)
  /-- A process that has ended is left. -/
  | leave {m i r c} (hm : m.mode = .kernel i r) (hc : m.procs i = some c) (ht : c.state.terminal) :
    Act E m (m.goto .idle)
  /-- The end of a process wakes those that wait for it, but there are none to which its status can
  be copied. -/
  | wakeNone {m i c alloc} (hm : m.mode = .idle) (hc : m.procs i = some c) (ht : c.state.terminal)
      (hnone : m.wakeCopies alloc c = []) : Act E m (m.wakeAll alloc c)
  /-- The end of a process wakes those that wait for it, and it is reaped. -/
  | wakeSome {m i c alloc} (hm : m.mode = .idle) (hc : m.procs i = some c) (ht : c.state.terminal)
      (hsome : m.wakeCopies alloc c ≠ []) :
    Act E m { (m.wakeAll alloc c).remove i c with copies := m.copies ++ m.wakeCopies alloc c }
  /-- There is a new process. -/
  | birth {m j p} (hj : m.procs j = none) (h : Newborn m p) :
    Act E m { m.put j p with births := m.births + 1 }
  /-- A process waits for a child that has ended. -/
  | waitEnded {m i j r r' c q} (hm : m.mode = .kernel i r) (hc : m.procs i = some c)
      (hs : c.state ≠ .waiting) (hij : j ≠ i) (hq : m.procs j = some q) (hparent : q.parent = c.pid)
      (ht : q.state.terminal) {call : WaitCall} (htarget : call.target = q.serial)
      (hr : r'.returnOf = some call) :
    Act E m { (m.remove j q).goto (.kernel i r') with
      copies := m.copies ++ [⟨call, q.serial, q.state, q.exitCode⟩] }
  /-- A process has to wait for a child. -/
  | waitBlocked {m i j r r' c q} (hm : m.mode = .kernel i r) (hc : m.procs i = some c)
      (hs : c.state ≠ .waiting) (ht : c.state.terminal = false) (hq : m.procs j = some q)
      (hparent : q.parent = c.pid) {out : UInt64} (hout : out ≠ 0)
        (hw : Writable c.space out.toNat processInfoSize)
      (number : Nat) (hr : r'.returnOf = some ⟨number, q.pid, out, q.serial⟩) :
    Act E m ((m.put i
      { c with
        state := .waiting
        waitPid := q.pid
        waitOut := out
        waitNumber := number
        waitTarget := q.serial }).goto (.kernel i r'))
  /-- A program replaces itself. -/
  | exec {m i r c} (hm : m.mode = .kernel i r) (hc : m.procs i = some c)
      (ht : c.state.terminal = false) (hE : E c) (image : Image) :
    Act E m ((m.put i (execReplacement c image)).goto (.user i image.regs))
  /-- The scheduler looks at all processes. -/
  | scan {m} (hm : m.mode = .idle) (now : UInt64) :
    Act E m (m.map fun _ p => faultInvalidReadySlot (wakeSleeper now p))

/-- What the kernel does one after the other. -/
abbrev Acts (E : Process → Prop) : Machine → Machine → Prop := Relation.ReflTransGen (Act E)

variable {E : Process → Prop} {m m' : Machine} {mode : Mode} {i j : Slot} {c c' p q : Process}
  {f : Slot → Process → Process}

@[simp] theorem put_procs : (m.put i p).procs i = some p := update_self ..

theorem put_procs_of_ne (h : j ≠ i) : (m.put i p).procs j = m.procs j := update_of_ne h ..

@[simp] theorem put_put : (m.put i p).put i q = m.put i q := by
  simp [Machine.put]

@[simp] theorem map_procs (f : Slot → Process → Process) :
    (m.map f).procs i = (m.procs i).map (f i) := rfl

/-- To change the process of one slot only. -/
theorem map_eq_put (h : m.procs i = some c)
    (hf : ∀ j p, m.procs j = some p → j ≠ i → f j p = p) : m.map f = m.put i (f i c) := by
  simp only [Machine.map, Machine.put, Machine.mk.injEq, and_true]
  funext j
  by_cases hj : j = i
  · subst hj
    simp [h]
  cases hp : m.procs j with
  | none => simp [hj, hp]
  | some p => simp [hj, hp, hf j p hp hj]

theorem map_eq_self (hf : ∀ j p, m.procs j = some p → f j p = p) : m.map f = m := by
  simp only [Machine.map]
  congr 1
  funext j
  cases hp : m.procs j with
  | none => rfl
  | some p => simp [hf j p hp]

theorem put_self (h : m.procs i = some c) : m.put i c = m := by
  simp only [Machine.put, ← h, update_eq_self]

/-- To change the process of one slot first, and the others then. -/
theorem map_put_of_ne (h : m.procs i = some c) :
    ((m.put i (f i c)).map fun j p => if j = i then p else f j p) = m.map f := by
  simp only [Machine.map, Machine.put, Machine.mk.injEq, and_true]
  funext j
  by_cases hj : j = i
  · subst hj
    simp [h]
  · simp [hj]

/-! ### Every process is counted once -/

/-- What tells processes apart: the pid, which is used again, and the number, which is not. -/
def ident (p : Process) : UInt32 × Nat := (p.pid, p.serial)

def Machine.ids (m : Machine) (i : Slot) : Option (UInt32 × Nat) := (m.procs i).map ident

/-- Pids and numbers are unique, and a process that was reaped is no longer there. -/
structure Identified (m : Machine) : Prop where
  pid : ∀ i x, m.ids i = some x → x.1 ≠ 0
  pid_unique : ∀ i j x y, m.ids i = some x → m.ids j = some y → x.1 = y.1 → i = j
  serial : ∀ i x, m.ids i = some x → x.2 < m.births
  serial_unique : ∀ i j x y, m.ids i = some x → m.ids j = some y → x.2 = y.2 → i = j
  not_reaped : ∀ i x, m.ids i = some x → x.2 ∉ m.reaped
  reaped : ∀ n ∈ m.reaped, n < m.births
  nodup : m.reaped.Nodup

theorem ids_of_procs (h : m.procs i = some p) : m.ids i = some (p.pid, p.serial) := by
  simp [Machine.ids, h, ident]

/-- A process that keeps its ids. -/
theorem ids_put (hc : m.procs i = some c) (hid : ident c' = ident c) :
    (m.put i c').ids = m.ids := by
  funext j
  by_cases hj : j = i
  · subst hj
    simp [Machine.ids, hc, hid]
  · simp [Machine.ids, put_procs_of_ne hj]

private theorem ids_map (hf : ∀ j p, ident (f j p) = ident p) : (m.map f).ids = m.ids := by
  funext j
  simp [Machine.ids, Option.map_map, comp_def, hf]

theorem Identified.congr (h : Identified m) (hids : m'.ids = m.ids) (hb : m'.births = m.births)
    (hr : m'.reaped = m.reaped) : Identified m' := by
  constructor
  · simpa only [hids] using h.pid
  · simpa only [hids] using h.pid_unique
  · simpa only [hids, hb] using h.serial
  · simpa only [hids] using h.serial_unique
  · simpa only [hids, hr] using h.not_reaped
  · simpa only [hr, hb] using h.reaped
  · simpa only [hr] using h.nodup

private theorem ids_remove : (m.remove i p).ids j = if j = i then none else m.ids j := by
  by_cases hj : j = i
  · subst hj
    simp [Machine.ids, Machine.remove]
  · simp [Machine.ids, Machine.remove, hj]

/-- Removing a process keeps the ids apart. -/
theorem Identified.remove (h : Identified m) (hp : m.procs i = some p) :
    Identified (m.remove i p) := by
  have hid := ids_of_procs hp
  have hold : ∀ j x, (m.remove i p).ids j = some x → j ≠ i ∧ m.ids j = some x := by
    intro j x hx
    rw [ids_remove] at hx
    split_ifs at hx with hj
    exact ⟨hj, hx⟩
  constructor
  · intro j x hx
    exact h.pid j x (hold j x hx).2
  · intro j k x y hx hy
    exact h.pid_unique j k x y (hold j x hx).2 (hold k y hy).2
  · intro j x hx
    exact h.serial j x (hold j x hx).2
  · intro j k x y hx hy
    exact h.serial_unique j k x y (hold j x hx).2 (hold k y hy).2
  · intro j x hx hmem
    obtain ⟨hj, hx'⟩ := hold j x hx
    simp only [Machine.remove, List.mem_append, List.mem_singleton] at hmem
    rcases hmem with hmem | hmem
    · exact h.not_reaped j x hx' hmem
    · exact hj (h.serial_unique j i x _ hx' hid hmem)
  · intro n hn
    simp only [Machine.remove, List.mem_append, List.mem_singleton] at hn
    rcases hn with hn | rfl
    · exact h.reaped n hn
    · exact h.serial i _ hid
  · refine List.nodup_append.mpr ⟨h.nodup, by simp, ?_⟩
    intro a ha b hb hab
    rw [List.mem_singleton] at hb
    exact h.not_reaped i _ hid (hb ▸ hab ▸ ha)

/-- A new process has ids of its own. -/
theorem Identified.birth (h : Identified m) (hj : m.procs j = none) (hp : Newborn m p) :
    Identified { m.put j p with births := m.births + 1 } := by
  have hids : ∀ k, ({ m.put j p with births := m.births + 1 } : Machine).ids k =
      if k = j then some (p.pid, m.births) else m.ids k := by
    intro k
    by_cases hk : k = j
    · subst hk
      simp [Machine.ids, Machine.put, ident, hp.serial]
    · simp [Machine.ids, Machine.put, hk]
  -- the pid is new by `Newborn`, the serial because all others are below `births`
  have hfresh : ∀ k x, m.ids k = some x → x.1 ≠ p.pid := by
    intro k x hx
    simp only [Machine.ids, Option.map_eq_some_iff] at hx
    obtain ⟨q, hq, rfl⟩ := hx
    exact hp.fresh k q hq
  constructor
  · intro k x hx
    rw [hids] at hx
    split_ifs at hx with hk
    · cases hx
      exact hp.pid
    · exact h.pid k x hx
  · intro k l x y hx hy hxy
    rw [hids] at hx hy
    split_ifs at hx hy with hk hl hl
    · rw [hk, hl]
    · cases hx
      exact absurd hxy.symm (hfresh l y hy)
    · cases hy
      exact absurd hxy (hfresh k x hx)
    · exact h.pid_unique k l x y hx hy hxy
  · intro k x hx
    rw [hids] at hx
    split_ifs at hx with hk
    · cases hx
      exact Nat.lt_succ_self _
    · exact Nat.lt_succ_of_lt (h.serial k x hx)
  · intro k l x y hx hy hxy
    rw [hids] at hx hy
    split_ifs at hx hy with hk hl hl
    · rw [hk, hl]
    · cases hx
      exact absurd hxy.symm (Nat.ne_of_lt (h.serial l y hy))
    · cases hy
      exact absurd hxy (Nat.ne_of_lt (h.serial k x hx))
    · exact h.serial_unique k l x y hx hy hxy
  · intro k x hx hmem
    rw [hids] at hx
    split_ifs at hx with hk
    · cases hx
      exact Nat.lt_irrefl _ (h.reaped _ hmem)
    · exact h.not_reaped k x hx hmem
  · intro n hn
    exact Nat.lt_succ_of_lt (h.reaped n hn)
  · exact h.nodup

theorem ident_queueOne (p : Process) (sig : Nat) :
    ident (processSignalQueueOne p sig) = ident p := by
  simp only [processSignalQueueOne]
  split_ifs <;> rfl

theorem ident_handled {frame : Nat → Bool} {r r' : Regs} (h : Handled frame c r c' r') :
    ident c' = ident c := by
  cases h with
  | ignored => rfl
  | entered sig _ _ h =>
    rw [h.eq]
    rfl

private theorem ident_scan (now : UInt64) (p : Process) :
    ident (faultInvalidReadySlot (wakeSleeper now p)) = ident p := by
  simp only [faultInvalidReadySlot, wakeSleeper]
  split_ifs <;> rfl

theorem waitsFor_of_terminal (ht : c.state.terminal = true) (pid : UInt32) :
    waitsFor pid c = false := by
  have hs : c.state ≠ .waiting := by
    intro hs
    simp [hs, ProcState.terminal] at ht
  simp [waitsFor, hs]

/-- A process that has ended is not changed when others are woken. -/
theorem wakeAll_ended {alloc : Slot → Nat → Bool} (hp : m.procs i = some p)
    (ht : p.state.terminal = true) : (m.wakeAll alloc c).procs i = some p := by
  simp [Machine.wakeAll, hp, waitsFor_of_terminal ht]

private theorem identified_wakeAll (h : Identified m) (alloc : Slot → Nat → Bool) (c : Process) :
    Identified (m.wakeAll alloc c) := by
  refine h.congr (ids_map fun j p => ?_) rfl rfl
  split <;> rfl

/-- Every act keeps the ids apart. -/
theorem Act.identified (ha : Act E m m') (h : Identified m) : Identified m' := by
  cases ha with
  | enter _ hp _ | join hp _ => exact h.congr (ids_put hp rfl) rfl rfl
  | trap | answer | pass | resume | leave => exact h.congr rfl rfl rfl
  | change _ hc hch =>
    exact h.congr (ids_put hc (by simp [ident, hch.pid, hch.serial])) rfl rfl
  | send sel _ =>
    refine h.congr (ids_map fun j p => ?_) rfl rfl
    split
    · exact ident_queueOne ..
    · rfl
  | signalReturn _ hc hret =>
    obtain ⟨f, -, hf⟩ := restored_signalReturn hret
    exact h.congr (ids_put hc (by rw [hf.eq]; rfl)) rfl rfl
  | handle _ hc hd => exact h.congr (ids_put hc (ident_handled (handled_deliver hd))) rfl rfl
  | stop _ hc _ hd =>
    obtain ⟨sig, -, -, rfl⟩ := deliver_stopped hd
    exact h.congr (ids_put hc rfl) rfl rfl
  | save _ hc | preempt _ hc | waitBlocked _ hc _ _ _ _ _ _ _ _ | exec _ hc _ _ _ =>
    exact h.congr (ids_put hc rfl) rfl rfl
  | finish _ hc he => exact h.congr (ids_put hc (by simp [ident, he.pid, he.serial])) rfl rfl
  | orphan =>
    refine h.congr (ids_map fun j p => ?_) rfl rfl
    split <;> rfl
  | wakeNone => exact identified_wakeAll h _ _
  | @wakeSome i c alloc _ hc ht _ =>
    -- the process that ended is still there when those that wait for it are woken
    have hc' : (m.wakeAll alloc c).procs i = some c := wakeAll_ended hc ht
    exact ((identified_wakeAll h alloc c).remove hc').congr rfl rfl rfl
  | birth hj hp => exact h.birth hj hp
  | waitEnded _ _ _ _ hq _ _ _ _ => exact (h.remove hq).congr rfl rfl rfl
  | scan _ now => exact h.congr (ids_map fun _ p => ident_scan now p) rfl rfl

/-- The same of any number of acts. -/
theorem Acts.identified (ha : Acts E m m') (h : Identified m) : Identified m' := by
  induction ha with
  | refl => exact h
  | tail _ hact ih => exact hact.identified ih

end Rabbitbone.Spec.Proc
