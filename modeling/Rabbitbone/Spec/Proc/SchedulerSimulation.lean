import Rabbitbone.ForStd.Except
import Rabbitbone.Spec.Proc.Machine

/-!
# The kernel's process table is the one that is meant

The record of the running process is a copy of its slot.  `view` puts the copy in place of the slot,
and each function of the kernel does to the view what one or more of the actions of `Act` do.  The
copy is always written back before it is given up, which is what makes this true.
-/

namespace Rabbitbone.Native.Proc.System

variable {pid : UInt32}

/-- All processes, with the record of the running one in place of its slot. -/
def view (s : System) : Slot → Option Process := LiveCopy.view s.slots s.current

/-- The machine that a system stands for. -/
def toMachine (s : System) (mode : Spec.Proc.Mode) : Spec.Proc.Machine :=
  ⟨s.view, mode, s.births, s.copies, s.reaped⟩

end Rabbitbone.Native.Proc.System

namespace Rabbitbone.Spec.Proc

open Native.Proc Native.Proc.System Relation Function Machine Option

variable {s : System} {i j : Slot} {c c' p q : Process} {mode : Mode} {E : Process → Prop}

/-! ### The running process and its slot -/

/-- The process of slot `i` is running with the record `c`. -/
structure At (s : System) (i : Slot) (c : Process) : Prop where
  current : s.current = some (i, c)
  pid : c.pid ≠ 0
  slot : ∃ q, s.slots i = some q ∧ q.pid = c.pid

namespace At

section

variable (h : At s i c)
include h

/-- The current process is the copy, not the slot. -/
theorem currentProc : s.currentProc = some c := by
  simp [System.currentProc, h.current]

theorem view_self : s.view i = some c := by
  simp [view, h.current]

/-- The other processes are as their slots say. -/
theorem view_of_ne (hj : j ≠ i) : s.view j = s.slots j := by
  simp only [view, h.current]
  exact LiveCopy.view_of_ne hj

theorem procs : (s.toMachine mode).procs i = some c := h.view_self

private theorem procs_of_ne (hj : j ≠ i) : (s.toMachine mode).procs j = s.slots j := h.view_of_ne hj

/-- The current process has its slot. -/
theorem resolve : s.resolveCurrentAsyncSlot = some i := by
  obtain ⟨q, hq, hpid⟩ := h.slot
  simp [resolveCurrentAsyncSlot, h.current, h.pid, hq, hpid]

/-- `sync_current_to_slot` stores the copy in its slot. -/
theorem sync : s.syncCurrentToSlot = (true, s.setSlot i (some c)) := by
  have hcur := h.current
  simp only [syncCurrentToSlot, h.resolve, hcur]
  simp only [setSlot, Prod.mk.injEq, System.mk.injEq, and_self, and_true, true_and]
  exact hcur.symm

theorem setCurrent {d : Process} (hpid : d.pid = c.pid) : At (s.setCurrent d) i d where
  current := by simp [System.setCurrent, h.current]
  pid := hpid ▸ h.pid
  slot := by
    obtain ⟨q, hq, hq'⟩ := h.slot
    exact ⟨q, hq, hq'.trans hpid.symm⟩

/-- A change of the copy is a change of the process. -/
theorem toMachine_setCurrent : (s.setCurrent c').toMachine mode = (s.toMachine mode).put i c' := by
  simp only [toMachine, view, put, System.setCurrent, h.current, map_some]
  rw [LiveCopy.view_replace]

theorem store : At (s.setSlot i (some c)) i c where
  current := h.current
  pid := h.pid
  slot := ⟨c, by simp [setSlot], rfl⟩

/-- Storing the copy changes no process. -/
theorem toMachine_store : (s.setSlot i (some c)).toMachine mode = s.toMachine mode := by
  simp only [toMachine, view, setSlot, h.current]
  rw [LiveCopy.view_writeBack]

/-- A record that was written back can be given up. -/
theorem toMachine_clear :
    (s.setSlot i (some c)).clearCurrentAsync.toMachine mode = s.toMachine mode := by
  simp only [toMachine, view, setSlot, clearCurrentAsync, h.current]
  rw [LiveCopy.view_drop]

theorem setSlot (hj : j ≠ i) (x : Option Process) : At (s.setSlot j x) i c where
  current := h.current
  pid := h.pid
  slot := by
    obtain ⟨q, hq, hpid⟩ := h.slot
    exact ⟨q, by simpa [System.setSlot, update_of_ne hj.symm] using hq, hpid⟩

private theorem view_setSlot (hj : j ≠ i) (x : Option Process) :
    (s.setSlot j x).view = update s.view j x := by
  simp only [view, System.setSlot, h.current]
  rw [LiveCopy.view_update hj]

private theorem toMachine_setSlot (hj : j ≠ i) (p : Process) :
    (s.setSlot j (some p)).toMachine mode = (s.toMachine mode).put j p :=
  Machine.ext (h.view_setSlot hj _) rfl rfl rfl rfl

/-- A slot with another pid is another slot. -/
theorem slot_ne (hp : s.slots j = some p) (hpid : p.pid ≠ c.pid) : j ≠ i := by
  rintro rfl
  obtain ⟨q, hq, hqpid⟩ := h.slot
  rw [hp, some.injEq] at hq
  exact hpid (hq ▸ hqpid)

theorem mapSlots {f : Slot → Process → Process} (hf : ∀ p, (f i p).pid = p.pid) :
    At (s.mapSlots f) i c where
  current := h.current
  pid := h.pid
  slot := by
    obtain ⟨q, hq, hpid⟩ := h.slot
    exact ⟨f i q, by simp [System.mapSlots, hq], (hf q).trans hpid⟩

private theorem toMachine_mapSlots (mode : Mode) (f : Slot → Process → Process) :
    (s.mapSlots f).toMachine mode =
      (s.toMachine mode).map fun j p => if j = i then p else f j p := by
  simp only [toMachine, view, System.mapSlots, map, h.current, LiveCopy.view_map,
    Machine.mk.injEq, and_true]
  funext k
  by_cases hk : k = i
  · subst hk
    simp
  · simp [hk]

end

end At

/-! ### Searching the slots -/

/-- A slot that is found holds the pid. -/
theorem slotByPid_some (h : s.slotByPid pid = some j) : ∃ p, s.slots j = some p ∧ p.pid = pid := by
  simp only [slotByPid] at h
  split at h
  · cases h
  have hj := List.find?_some h
  cases hp : s.slots j with
  | none => simp [hp] at hj
  | some p => exact ⟨p, rfl, by simpa [hp] using hj⟩

private theorem slotByPid_of_unique (hpid : pid ≠ 0) (hp : s.slots i = some p) (heq : p.pid = pid)
    (huniq : ∀ j q, s.slots j = some q → q.pid = pid → j = i) : s.slotByPid pid = some i := by
  cases hfind : s.slotByPid pid with
  | some j =>
    obtain ⟨q, hq, hqpid⟩ := slotByPid_some hfind
    rw [huniq j q hq hqpid]
  | none =>
    simp only [slotByPid, if_neg hpid, List.find?_eq_none] at hfind
    exact absurd (by simp [hp, heq]) (hfind i (List.mem_finRange i))

private theorem slotByPid_none (h : ∀ j q, s.slots j = some q → q.pid ≠ pid) :
    s.slotByPid pid = none := by
  cases hfind : s.slotByPid pid with
  | none => rfl
  | some j =>
    obtain ⟨q, hq, hpid⟩ := slotByPid_some hfind
    exact absurd hpid (h j q hq)

/-! ### Sending -/

@[simp] theorem queueOne_pid (p : Process) (sig : Nat) :
    (processSignalQueueOne p sig).pid = p.pid :=
  congrArg Prod.fst (ident_queueOne p sig)

/-- The record of the running process after a signal was sent by it: it may have been sent to it. -/
inductive Signalled (sig : Nat) (c : Process) : Process → Prop where
  | other : Signalled sig c c
  | self : Signalled sig c (processSignalQueueOne c sig)

variable {sig : Nat} {s' : System} {state : ProcState} {m : Machine} {alloc : Slot → Nat → Bool}
  {frame : Nat → Bool} {r' v : Regs}

/-- What a signal to those that `sel` selects makes of a process, if `c` sends it. -/
def sentTo (c : Process) (sel : Slot → Process → Bool) (sig : Nat) (j : Slot) (p : Process) :
    Process :=
  if sel j p && processSignalSenderCanTarget (some c) p sig then processSignalQueueOne p sig else p

/-- A function that sends a signal for the running process. -/
structure Sends (sel : Slot → Process → Bool) (sig : Nat) (s : System) (i : Slot) (c : Process)
    (s' : System) : Prop where
  record : ∃ c', Signalled sig c c' ∧ At s' i c'
  machine : ∀ mode, s'.toMachine mode = (s.toMachine mode).map (sentTo c sel sig)

variable {sel : Slot → Process → Bool} {reschedule : Bool} {x : Process} {r : Regs}

/-- Sending a signal is a sequence of acts. -/
theorem Sends.acts (hsig : signalValid sig = true) (h : Sends sel sig s i c s') (mode : Mode) :
    Acts E (s.toMachine mode) (s'.toMachine mode) := by
  rw [h.machine]
  exact .single (Act.send (fun j p => sel j p && processSignalSenderCanTarget (some c) p sig) hsig)

theorem Sends.refl (h : At s i c) (hsel : ∀ j p, sel j p = false) : Sends sel sig s i c s :=
  ⟨⟨c, .other, h⟩, fun _ => (map_eq_self fun j p _ => by simp [sentTo, hsel]).symm⟩

/-- A signal to the current process goes to the copy. -/
theorem At.queueCurrent (h : At s i c) (sig : Nat) : ∃ s', s.queueCurrent sig = (true, s') ∧
    At s' i (processSignalQueueOne c sig) ∧
    ∀ mode, s'.toMachine mode = (s.toMachine mode).put i (processSignalQueueOne c sig) := by
  have hset := h.setCurrent (queueOne_pid c sig)
  refine ⟨_, by simp only [System.queueCurrent, h.currentProc, hset.sync], hset.store,
    fun mode => ?_⟩
  rw [hset.toMachine_store, h.toMachine_setCurrent]

private theorem sends_sendWhere (h : At s i c) (sel : Process → Bool) :
    Sends (fun _ => sel) sig s i c (s.sendWhere sel sig).2 := by
  have hpid : ∀ p : Process, (sentTo c (fun _ => sel) sig i p).pid = p.pid := by
    intro p
    simp only [sentTo]
    split <;> simp
  -- the running process comes first
  obtain ⟨s₁, hs₁, hsig, hat, hmachine⟩ : ∃ s₁,
      (s.sendWhere sel sig).2 = s₁.mapSlots (sentTo c (fun _ => sel) sig) ∧
      Signalled sig c (sentTo c (fun _ => sel) sig i c) ∧
        At s₁ i (sentTo c (fun _ => sel) sig i c) ∧
      ∀ mode, s₁.toMachine mode = (s.toMachine mode).put i (sentTo c (fun _ => sel) sig i c) := by
    simp only [System.sendWhere, h.currentProc, any_some, sentTo]
    split
    · obtain ⟨s₁, hq, hat, hmachine⟩ := h.queueCurrent sig
      rw [hq]
      exact ⟨s₁, rfl, .self, hat, hmachine⟩
    · exact ⟨s, rfl, .other, h, fun mode => (put_self h.procs).symm⟩
  rw [hs₁]
  refine ⟨⟨_, hsig, hat.mapSlots hpid⟩, fun mode => ?_⟩
  rw [hat.toMachine_mapSlots, hmachine, map_put_of_ne h.procs]

/-- Whether a signal to the pid `target` is meant for the process `p` of slot `j`, if the process
`c` of slot `i` sends it. -/
def addressed (s : System) (i : Slot) (c : Process) (target : UInt32) (j : Slot) (p : Process) :
    Bool :=
  if target = 0 then c.group ≠ 0 && p.group = c.group
  else if target = 0xffffffff then true
  else if target = 0x80000000 then false
  else if 0x80000000 ≤ target then p.group = ~~~target + 1
  else if c.pid = target then j = i
  else s.slotByPid target = some j

/-- `process_signal_send` reaches those it is addressed to. -/
theorem sends_processSignalSend (hsig : signalValid sig = true) (h : At s i c) (target : UInt32) :
    Sends (addressed s i c target) sig s i c (s.processSignalSend target sig).2 := by
  have hwhere : ∀ sel : Process → Bool, (addressed s i c target = fun _ => sel) →
      Sends (addressed s i c target) sig s i c (s.sendWhere sel sig).2 :=
    fun sel heq => heq ▸ sends_sendWhere h sel
  simp only [processSignalSend, hsig, Bool.true_eq_false, if_false, h.currentProc, any_some,
    decide_eq_true_eq]
  split_ifs with h0 hg hall hmin hneg hself
  · exact .refl h fun _ _ => by simp [addressed, h0, hg]
  · exact hwhere _ (by funext; simp [addressed, h0, hg])
  · exact hwhere _ (by funext; simp [addressed, hall])
  · exact .refl h fun _ _ => by simp [addressed, hmin]
  · exact hwhere _ (by funext; simp [addressed, h0, hall, hmin, hneg])
  · obtain ⟨s', hq, hat, hmachine⟩ := h.queueCurrent sig
    rw [hq]
    refine ⟨⟨_, .self, hat⟩, fun mode => ?_⟩
    rw [map_eq_put h.procs fun j p _ hj => by simp
      [sentTo, addressed, h0, hall, hmin, hneg, hself, hj]]
    simpa [sentTo, addressed, h0, hall, hmin, hneg, hself, processSignalSenderCanTarget]
      using hmachine mode
  · have haddr : ∀ j p, addressed s i c target j p = decide (s.slotByPid target = some j) :=
      fun _ _ => by simp [addressed, h0, hall, hmin, hneg, hself]
    split
    · next hfind => exact .refl h fun _ _ => by simp [haddr, hfind]
    next j hfind =>
    obtain ⟨p, hp, hpid⟩ := slotByPid_some hfind
    have hj : j ≠ i := h.slot_ne hp (by simpa [hpid, eq_comm] using hself)
    have hput : ∀ mode, (s.toMachine mode).map (sentTo c (addressed s i c target) sig) =
        (s.toMachine mode).put j (sentTo c (addressed s i c target) sig j p) := fun mode =>
      map_eq_put ((h.procs_of_ne hj).trans hp)
        fun k p _ hk => by simp [sentTo, haddr, hfind, hk.symm]
    simp only [sentTo, haddr, hfind, decide_true, Bool.true_and] at hput
    simp only [hp]
    split
    · next hmay =>
      refine ⟨⟨c, .other, h⟩, fun mode => ?_⟩
      simp only [hmay, Bool.false_eq_true, if_false, put_self ((h.procs_of_ne hj).trans hp)] at hput
      exact (hput mode).symm
    · next hmay =>
      refine ⟨⟨c, .other, h.setSlot hj _⟩, fun mode => ?_⟩
      rw [h.toMachine_setSlot hj]
      simpa [hmay] using (hput mode).symm

/-- A process is found by its pid. -/
theorem addressed_pid (h : At s i c) (hid : Identified (s.toMachine mode))
    (hp : s.view j = some p) :
    (if c.pid = p.pid then decide (j = i) else decide (s.slotByPid p.pid = some j)) = true := by
  have huniq : ∀ k q, s.view k = some q → q.pid = p.pid → k = j := fun k q hq hpid =>
    hid.pid_unique k j _ _ (ids_of_procs hq) (ids_of_procs hp) hpid
  split
  · next heq => simpa using (huniq i c h.view_self heq).symm
  next hne =>
  have hview : ∀ {k q}, s.slots k = some q → q.pid = p.pid → s.view k = some q := fun hq hpid =>
    (h.view_of_ne (h.slot_ne hq (by rw [hpid]; exact Ne.symm hne))).trans hq
  have hj : j ≠ i := by
    rintro rfl
    exact hne (congrArg Process.pid (some.inj (h.view_self.symm.trans hp)))
  simpa using slotByPid_of_unique (hid.pid j _ (ids_of_procs hp)) ((h.view_of_ne hj).symm.trans hp)
    rfl fun k q hq hpid => huniq k q (hview hq hpid) hpid

/-! ### The end of a process -/

theorem Signalled.ended (h : Signalled sigchld c c') (ht : c.state.terminal = true) :
    Ended c c' := by
  cases h with
  | other => exact ⟨⟨rfl, rfl, rfl, rfl⟩, ht⟩
  | self =>
    have hq := queued_queueOne (by decide : signalValid sigchld = true) c
    refine ⟨⟨?_, ?_, ?_, ?_⟩, ?_⟩
    · rw [hq.eq]
    · rw [hq.eq]
    · rw [hq.eq]
    · rw [hq.eq]
    · rcases hq.state with hs | ⟨hs, -⟩
      · exact ht
      · simp [hs, ProcState.terminal] at ht

/-- The children of a process that has ended. -/
theorem acts_reparent (h : At s i c) (ht : c.state.terminal = true) (new : UInt32) :
    At (s.reparentChildren c.pid new) i c ∧
    Acts E (s.toMachine (.kernel i r))
      ((s.reparentChildren c.pid new).toMachine (.kernel i r)) := by
  simp only [reparentChildren]
  split
  · exact ⟨h, .refl⟩
  refine ⟨h.mapSlots fun p => by split <;> rfl, .single ?_⟩
  rw [h.toMachine_mapSlots]
  have hact := Act.orphan (E := E) (m := s.toMachine (.kernel i r)) rfl h.procs ht new
  convert hact using 4 with j p
  by_cases hj : j = i <;> simp [hj]

/-- What sending a signal to a process depends on, and its pending signals. -/
structure Same (p q : Process) : Prop where
  pid : q.pid = p.pid
  group : q.group = p.group
  cred : q.cred = p.cred
  pending : q.pending = p.pending

private theorem slots_reparentChildren (hp : s.slots j = some p) (old new : UInt32) :
    ∃ q, Same p q ∧ (s.reparentChildren old new).slots j = some q := by
  simp only [reparentChildren]
  split
  · exact ⟨p, ⟨rfl, rfl, rfl, rfl⟩, hp⟩
  simp only [mapSlots, hp, map_some]
  refine ⟨_, ?_, rfl⟩
  split <;> exact ⟨rfl, rfl, rfl, rfl⟩

/-- The other processes, after `finish_current` has told the parent. -/
def Told (s : System) (i : Slot) (x : Process) (s₂ s' : System) : Prop :=
  At s₂ i x ∧ (∀ j p, s.slots j = some p → ∃ q, Same p q ∧ s₂.slots j = some q) ∧
    ∀ j ≠ i, s'.slots j = (s₂.slots j).map (sentTo x (addressed s₂ i x x.parent) sigchld j)

/-- `finish_current` ends the running process, whatever its record was made before, and writes it
back. -/
theorem acts_finishCurrent (regs : Regs) (h : At s i c) (hx : Akin c x)
    (ht : state.terminal = true) :
    ∃ c', c'.pid = c.pid ∧ c'.state.terminal = true ∧
      At ((s.setCurrent x).finishCurrent state regs) i c' ∧
      ((s.setCurrent x).finishCurrent state regs).slots i = some c' ∧
      Acts E (s.toMachine (.kernel i r))
        (((s.setCurrent x).finishCurrent state regs).toMachine (.kernel i r)) ∧
      (x.parent ≠ 0 → ∃ x' s₂, x' = { x with regs := regs, state := state } ∧
        Acts E (s.toMachine (.kernel i r)) (s₂.toMachine (.kernel i r)) ∧
        Told s i x' s₂ ((s.setCurrent x).finishCurrent state regs)) := by
  have hxat := h.setCurrent hx.pid
  -- the new record, with its state and registers
  obtain ⟨x', hx'⟩ : ∃ x', x' = { x with regs := regs, state := state } := ⟨_, rfl⟩
  have hended : Ended c x' := by
    rw [hx']
    exact ⟨⟨hx.pid, hx.parent, hx.serial, hx.blocked⟩, ht⟩
  obtain ⟨s₁, hs₁⟩ : ∃ s₁, s₁ = (s.setCurrent x).setCurrent x' := ⟨_, rfl⟩
  have hat₁ : At s₁ i x' := hs₁ ▸ hxat.setCurrent (hended.pid.trans hx.pid.symm)
  have hacts₁ : Acts E (s.toMachine (.kernel i r)) (s₁.toMachine (.kernel i r)) := by
    rw [hs₁, hxat.toMachine_setCurrent, h.toMachine_setCurrent, put_put]
    exact .single (Act.finish rfl h.procs hended)
  -- its children
  obtain ⟨s₂, hs₂⟩ : ∃ s₂, s₂ = s₁.reparentChildren x.pid (if x.pid = 1 then 0 else 1) := ⟨_, rfl⟩
  have hpid : x'.pid = x.pid := hended.pid.trans hx.pid.symm
  obtain ⟨hat₂, hacts₂⟩ := acts_reparent hat₁ hended.terminal (if x.pid = 1 then 0 else 1)
  rw [hpid, ← hs₂] at hat₂ hacts₂
  -- the signal to its parent
  obtain ⟨s₃, hs₃⟩ : ∃ s₃, s₃ =
    if x.parent ≠ 0 then (s₂.processSignalSend x.parent sigchld).2 else s₂ := ⟨_, rfl⟩
  obtain ⟨sel, hsel, hsends⟩ : ∃ sel, (x.parent ≠ 0 → sel = addressed s₂ i x' x.parent) ∧
      Sends sel sigchld s₂ i x' s₃ := by
    rw [hs₃]
    split
    · exact ⟨_, fun _ => rfl, sends_processSignalSend (by decide) hat₂ _⟩
    · next h0 => exact ⟨fun _ _ => false, fun h => absurd h h0, .refl hat₂ fun _ _ => rfl⟩
  obtain ⟨y, hy, hat₃⟩ := hsends.record
  have hyended := hy.ended hended.terminal
  -- its memory, and back to the slot
  obtain ⟨z, hz⟩ : ∃ z, z = { y with space := noSpace } := ⟨_, rfl⟩
  have hzended : Ended y z := by
    rw [hz]
    exact ⟨⟨rfl, rfl, rfl, rfl⟩, hyended.terminal⟩
  have hat₄ := hat₃.setCurrent hzended.pid
  have hfinish : (s.setCurrent x).finishCurrent state regs =
      (s₃.setCurrent z).setSlot i (some z) := by
    simp only [finishCurrent, hxat.currentProc]
    rw [← hx', ← hs₁, ← hs₂, ← hs₃, hat₃.currentProc]
    dsimp only
    rw [← hz, hat₄.sync]
  rw [hfinish]
  refine ⟨z, ?_, hzended.terminal, hat₄.store, by simp [System.setSlot], ?_,
    fun h0 => ⟨x', s₂, hx', ?_, ?_⟩⟩
  · rw [hzended.pid, hyended.pid, hended.pid]
  · rw [hat₄.toMachine_store, hat₃.toMachine_setCurrent]
    exact ((hacts₁.trans hacts₂).trans (hsends.acts (by decide) _)).tail
      (Act.finish rfl hat₃.procs hzended)
  · exact hacts₁.trans hacts₂
  · refine ⟨hat₂, fun j p hp => ?_, fun j hj => ?_⟩
    · rw [hs₂, hs₁]
      exact slots_reparentChildren (s := (s.setCurrent x).setCurrent x') hp _ _
    · have hsent := congrArg (fun m => m.procs j) (hsends.machine .idle)
      rw [hsel h0, hat₃.procs_of_ne hj, map_procs, hat₂.procs_of_ne hj] at hsent
      rw [show x'.parent = x.parent by rw [hx'], ← hsent]
      exact update_of_ne hj ..

/-- A record that was written back. -/
theorem view_of_synced (h : At s i c) (hslot : s.slots i = some c) : s.view = s.slots := by
  simp only [view, h.current, LiveCopy.view]
  rw [← hslot, update_eq_self]

private theorem setSlot_self (hslot : s.slots i = some c) : s.setSlot i (some c) = s := by
  simp only [System.setSlot]
  rw [← hslot, update_eq_self]

/-- What `wake_waiters` makes of a slot: the process of the pid may be reaped, and one that waits is
woken. -/
theorem slots_wakeWaiters (alloc : Slot → Nat → Bool) (pid : UInt32) (hp : s.slots j = some p) :
    p.pid = pid ∧ (s.wakeWaiters alloc pid).slots j = none ∨
    ∃ q, (s.wakeWaiters alloc pid).slots j = some q ∧
      (q = p ∨ waitsFor pid p = true ∧ ∃ child, q = (wake (alloc j) child p).2) := by
  have hwoken : ∀ child, ∃ q, (s.mapSlots fun i p =>
      if waitsFor pid p then (wake (alloc i) child p).2 else p).slots j = some q ∧
      (q = p ∨ waitsFor pid p = true ∧ ∃ child, q = (wake (alloc j) child p).2) := by
    intro child
    simp only [mapSlots, hp, map_some]
    refine ⟨_, rfl, ?_⟩
    split
    · next hw => exact .inr ⟨hw, child, rfl⟩
    · exact .inl rfl
  simp only [wakeWaiters]
  split
  · exact .inr ⟨p, hp, .inl rfl⟩
  split
  · next k c' hk _ =>
    split
    · exact .inr (hwoken _)
    by_cases hj : j = k
    · subst hj
      obtain ⟨p', hp', hpid⟩ := slotByPid_some hk
      exact .inl ⟨some.inj (hp.symm.trans hp') ▸ hpid, update_self ..⟩
    · simp only [reap, System.setSlot, update_of_ne hj]
      exact .inr (hwoken _)
  · exact .inr (hwoken _)

/-- `wake_waiters` after the end of the running process, which is left then. -/
theorem acts_wakeWaiters (alloc : Slot → Nat → Bool) (h : At s i c)
    (hslot : s.slots i = some c) (ht : c.state.terminal = true)
    (hid : Identified (s.toMachine mode)) :
    Acts E (s.toMachine (.kernel i r))
      ((s.wakeWaiters alloc c.pid).clearCurrentAsync.toMachine .idle) ∧
    (s.wakeWaiters alloc c.pid).syncCurrentToSlot.2 = s.wakeWaiters alloc c.pid := by
  have hview := view_of_synced h hslot
  have huniq : ∀ j q, s.slots j = some q → q.pid = c.pid → j = i := by
    intro j q hq hpid
    have hids : ∀ k x, s.slots k = some x → (s.toMachine mode).ids k = some (x.pid, x.serial) :=
      fun k x hx => ids_of_procs (by simpa [toMachine, hview] using hx)
    exact hid.pid_unique j i _ _ (hids j q hq) (hids i c hslot) hpid
  have hfind : s.slotByPid c.pid = some i := slotByPid_of_unique h.pid hslot rfl huniq
  have hleave : Act E (s.toMachine (.kernel i r)) (s.toMachine .idle) := Act.leave rfl h.procs ht
  have hcopies : (s.toMachine .idle).wakeCopies alloc c =
      (List.finRange asyncCap).filterMap fun j => (s.slots j).bind (wakeCopy (alloc j) c) := by
    simp only [wakeCopies, toMachine, hview]
  have hnot : waitsFor c.pid c = false := waitsFor_of_terminal ht _
  simp only [wakeWaiters, if_neg h.pid, hfind, hslot, bind_some]
  rw [← hcopies]
  obtain ⟨woken, hwoken⟩ : ∃ woken, woken = s.mapSlots fun j p =>
    if waitsFor c.pid p then (wake (alloc j) (some c) p).2 else p := ⟨_, rfl⟩
  have hwat : At woken i c := hwoken ▸ h.mapSlots fun p => by split <;> rfl
  have hwslot : woken.slots i = some c := by simp [hwoken, mapSlots, hslot, hnot]
  have hmachine : woken.clearCurrentAsync.toMachine .idle =
      (s.toMachine .idle).wakeAll alloc c := by
    rw [hwoken]
    simp only [toMachine, wakeAll, map, hview]
    rfl
  rw [← hwoken]
  split
  · next hdone =>
    refine ⟨.tail (.single hleave) ?_, ?_⟩
    · rw [hmachine]
      exact Act.wakeNone rfl h.procs ht hdone
    · rw [hwat.sync, setSlot_self hwslot]
  next hdone =>
  refine ⟨.tail (.single hleave) ?_, ?_⟩
  · have hact := Act.wakeSome (E := E) rfl h.procs ht hdone
    rw [← hmachine] at hact
    exact hact
  · -- the slot is free, and no other has this pid
    have hnone : ({ woken.reap i c with
        copies := s.copies ++ (s.toMachine .idle).wakeCopies alloc c } : System).slotByPid c.pid
          = none := by
      apply slotByPid_none
      intro j q hq hpid
      simp only [reap, System.setSlot] at hq
      by_cases hj : j = i
      · simp [hj] at hq
      rw [update_of_ne hj, hwoken] at hq
      simp only [mapSlots, map_eq_some_iff] at hq
      obtain ⟨q', hq', rfl⟩ := hq
      have : q'.pid = c.pid := by
        rw [← hpid]
        split <;> rfl
      exact hj (huniq j q' hq' this)
    simp only [syncCurrentToSlot, resolveCurrentAsyncSlot]
    simp only [reap, System.setSlot, hwat.current, if_neg h.pid, update_self] at hnone ⊢
    simp [hnone]

/-! ### Between two steps -/

/-- Where the CPU is between two steps. -/
def betweenMode (s : System) : Mode :=
  match s.current, s.user with
  | some (i, _), some r => .user i r
  | _, _ => .idle

/-- The process that runs in user mode. -/
structure Runs (s : System) (i : Slot) (c : Process) : Prop extends At s i c where
  busy : c.state ≠ .waiting
  alive : c.state.terminal = false

/-- A system between two steps: the scheduler or a program runs. -/
inductive Between (s : System) : Prop where
  | idle (hcur : s.current = none) (huser : s.user = none)
  | user {i : Slot} {c : Process} {r : Regs} (h : Runs s i c) (huser : s.user = some r)

/-- The machine gets from `m` to the end of a step. -/
structure Reaches (E : Process → Prop) (m : Machine) (s : System) : Prop where
  between : Between s
  acts : Acts E m (s.toMachine (betweenMode s))

theorem Reaches.trans {m' : Machine} (h' : Reaches E m' s) (h : Acts E m m') : Reaches E m s :=
  ⟨h'.between, ReflTransGen.trans h h'.acts⟩

private theorem reaches_idle (hcur : s.current = none) (huser : s.user = none)
    (h : Acts E m (s.toMachine .idle)) : Reaches E m s := by
  refine ⟨.idle hcur huser, ?_⟩
  simpa [betweenMode, hcur] using h

private theorem reaches_clear {m : Machine} (h : Acts E m (s.clearCurrentAsync.toMachine .idle)) :
    Reaches E m s.clearCurrentAsync := reaches_idle rfl rfl h

theorem Runs.betweenMode_eq (h : Runs s i c) (huser : s.user = some r) :
    betweenMode s = .user i r := by
  simp [betweenMode, h.current, huser]

private theorem At.withUser (h : At s i c) (r : Regs) : At { s with user := some r } i c :=
  ⟨h.current, h.pid, h.slot⟩

private theorem reaches_user (h : At s i c) (hbusy : c.state ≠ .waiting)
    (halive : c.state.terminal = false) (hacts : Acts E m (s.toMachine (.user i r))) :
    Reaches E m { s with user := some r } := by
  have hruns : Runs { s with user := some r } i c := ⟨h.withUser r, hbusy, halive⟩
  refine ⟨.user hruns rfl, ?_⟩
  rw [hruns.betweenMode_eq rfl]
  exact hacts

/-- The running process ends, those that wait for it are woken, and the scheduler goes on. -/
theorem reaches_terminateCurrent {regs : Regs} (h : At s i c) (hx : Akin c x)
    (ht : state.terminal = true) (hid : Identified (s.toMachine (.kernel i r))) :
    Reaches E (s.toMachine (.kernel i r)) ((s.setCurrent x).terminateCurrent alloc state regs) := by
  obtain ⟨c', hpid, hterm, hat, hslot, hacts, -⟩ := acts_finishCurrent (E := E) regs h hx ht
  have hwake := (acts_wakeWaiters (E := E) (r := r) alloc hat hslot hterm (hacts.identified hid)).1
  simp only [terminateCurrent, (h.setCurrent hx.pid).currentProc]
  rw [hx.pid, ← hpid]
  exact reaches_clear (hacts.trans hwake)

private theorem reaches_processPreemptFromInterrupt (h : At s i c) :
    Reaches E (s.toMachine (.leaving i r)) (s.processPreemptFromInterrupt r) := by
  simp only [processPreemptFromInterrupt, h.currentProc, h.resolve]
  have hset := h.setCurrent
    (d := { c with regs := r, state := if c.state = .running then .ready else c.state }) rfl
  rw [hset.sync]
  apply reaches_clear
  rw [hset.toMachine_clear, h.toMachine_setCurrent]
  exact .single (Act.preempt rfl h.procs)

private theorem reaches_resume {handled : Bool} (h : At s i c) (halive : c.state.terminal = false) :
    Reaches E (s.toMachine (.leaving i r)) (s.resume reschedule handled r) := by
  simp only [resume, h.currentProc]
  split
  · exact reaches_processPreemptFromInterrupt h
  next hstay =>
  simp only [not_or] at hstay
  have hact : Act E (s.toMachine (.leaving i r)) (s.toMachine (.user i r)) :=
    Act.resume rfl h.procs hstay.2.2 halive
  cases handled with
  | false => exact reaches_user h hstay.2.2 halive (.single hact)
  | true =>
    simp only [if_true, h.sync]
    refine reaches_user h.store hstay.2.2 halive ?_
    rw [h.toMachine_store]
    exact .single hact

/-- A delivery that ends a process leaves its ids and its mask. -/
theorem akin_terminated (h : processSignalDeliverPending frame c r = .terminated c' state) :
    Akin c c' ∧ state.terminal = true := by
  obtain ⟨ht, sig, code, faulted, rfl⟩ := deliver_terminated h
  exact ⟨⟨rfl, rfl, rfl, rfl⟩, ht⟩

private theorem handled_terminal (h : Handled frame c r c' r')
    (halive : c.state.terminal = false) : c'.state.terminal = false := by
  cases h with
  | ignored sig _ _ state flag hs =>
    rcases hs with hs | ⟨-, hs⟩
    · simpa [hs] using halive
    · simp [hs, ProcState.terminal]
  | entered sig _ _ h =>
    rw [h.eq]
    exact halive

theorem handled_pid {frame : Nat → Bool} {r' : Regs} (h : Handled frame c r c' r') :
    c'.pid = c.pid := congrArg Prod.fst (ident_handled h)

private theorem reaches_stopped (h : At s i c) (halive : c.state.terminal = false)
    (hd : processSignalDeliverPending frame c r = .stopped c') :
    Reaches E (s.toMachine (.kernel i r))
      (s.setCurrent c').syncCurrentToSlot.2.clearCurrentAsync := by
  have hpid : c'.pid = c.pid := by
    obtain ⟨sig, -, -, rfl⟩ := deliver_stopped hd
    rfl
  have hset := h.setCurrent hpid
  rw [hset.sync]
  apply reaches_clear
  rw [hset.toMachine_clear, h.toMachine_setCurrent]
  exact .single (Act.stop rfl h.procs halive hd)

/-- A signal is delivered at the end of a syscall. -/
theorem reaches_deliverAndResume (h : At s i c)
    (halive : c.state.terminal = false) (hid : Identified (s.toMachine (.kernel i r))) :
    Reaches E (s.toMachine (.kernel i r)) (s.deliverAndResume frame alloc reschedule r) := by
  simp only [deliverAndResume, h.currentProc]
  cases hd : processSignalDeliverPending frame c r with
  | none =>
    exact (reaches_resume h halive).trans (.single (Act.pass rfl))
  | handled c' r' =>
    have hhandled := handled_deliver hd
    have hact : Act E (s.toMachine (.kernel i r))
        ((s.setCurrent c').toMachine (.leaving i r')) := by
      rw [h.toMachine_setCurrent]
      exact Act.handle rfl h.procs hd
    exact (reaches_resume (h.setCurrent (handled_pid hhandled))
      (handled_terminal hhandled halive)).trans (.single hact)
  | terminated c' state =>
    obtain ⟨hakin, ht⟩ := akin_terminated hd
    exact reaches_terminateCurrent h hakin ht hid
  | stopped c' => exact reaches_stopped h halive hd

/-! ### The scheduler -/

private theorem handled_busy (h : Handled frame c r c' r') (hbusy : c.state ≠ .waiting) :
    c'.state ≠ .waiting := by
  cases h with
  | ignored sig _ _ state flag hs =>
    rcases hs with hs | ⟨-, hs⟩
    · simpa [hs] using hbusy
    · simp [hs]
  | entered sig _ _ h =>
    rw [h.eq]
    exact hbusy

/-- The record of a process that is ended when it is entered is in its slot, or the slot is free. -/
theorem deliverAndEnter_terminated (alloc : Slot → Nat → Bool) (h : At s i c)
    (hid : Identified (s.toMachine (.kernel i c.regs)))
    (hd : processSignalDeliverPending frame c c.regs = .terminated c' state) :
    s.deliverAndEnter frame alloc c = (s.setCurrent c').terminateCurrent alloc state c'.regs := by
  obtain ⟨hakin, ht⟩ := akin_terminated hd
  obtain ⟨x, hpid, hterm, hxat, hslot, hacts, -⟩ := acts_finishCurrent (E := fun _ => True)
    c'.regs h hakin ht
  have hsync := (acts_wakeWaiters (E := fun _ => True) (r := c.regs) alloc hxat hslot hterm
    (hacts.identified hid)).2
  simp only [deliverAndEnter, hd, terminateCurrent, (h.setCurrent hakin.pid).currentProc]
  rw [hakin.pid, ← hpid, hsync]

/-- A signal is delivered when a process is entered. -/
theorem reaches_deliverAndEnter (h : Runs s i c)
    (hid : Identified (s.toMachine (.kernel i c.regs))) :
    Reaches E (s.toMachine (.kernel i c.regs)) (s.deliverAndEnter frame alloc c) := by
  have hat := h.toAt
  simp only [deliverAndEnter]
  cases hd : processSignalDeliverPending frame c c.regs with
  | none =>
    have hpass : Act E (s.toMachine (.kernel i c.regs)) (s.toMachine (.leaving i c.regs)) :=
      Act.pass rfl
    exact reaches_user hat h.busy h.alive ((ReflTransGen.single hpass).tail
      (Act.resume rfl hat.procs h.busy h.alive))
  | handled c' r' =>
    have hhandled := handled_deliver hd
    have hpid := handled_pid hhandled
    have hset := hat.setCurrent (d := { c' with regs := r' }) hpid
    have hbusy := handled_busy hhandled h.busy
    have halive := handled_terminal hhandled h.alive
    dsimp only
    rw [hset.sync]
    refine reaches_user hset.store hbusy halive ?_
    rw [hset.toMachine_store, hat.toMachine_setCurrent]
    -- the handler's registers are kept before the program goes on with them
    have hhandle : Act E (s.toMachine (.kernel i c.regs))
        ((s.toMachine (.leaving i r')).put i c') :=
      Act.handle rfl hat.procs hd
    have hsave : Act E ((s.toMachine (.leaving i r')).put i c')
        ((s.toMachine (.leaving i r')).put i { c' with regs := r' }) := by
      have hact := Act.save (E := E) (m := (s.toMachine (.leaving i r')).put i c') rfl put_procs
      rwa [put_put] at hact
    exact ((ReflTransGen.single hhandle).tail hsave).tail (Act.resume rfl put_procs hbusy halive)
  | terminated c' state =>
    obtain ⟨hakin, ht⟩ := akin_terminated hd
    have hend := deliverAndEnter_terminated alloc hat hid hd
    simp only [deliverAndEnter, hd] at hend
    dsimp only
    rw [hend]
    exact reaches_terminateCurrent hat hakin ht hid
  | stopped c' => exact reaches_stopped hat h.alive hd

private theorem reaches_enterReadySlot (hcur : s.current = none) (huser : s.user = none)
    (hid : Identified (s.toMachine .idle)) :
    Reaches E (s.toMachine .idle) (s.enterReadySlot frame alloc i) := by
  have hstay : Reaches E (s.toMachine .idle) s := reaches_idle hcur huser .refl
  simp only [enterReadySlot]
  split
  · exact hstay
  next p hp =>
  split
  · next hready =>
    have hproc : (s.toMachine .idle).procs i = some p := by simpa [toMachine, view, hcur] using hp
    have hact := Act.enter (E := E) rfl hproc hready.1
    have hruns : Runs { s.setSlot i (some { p with state := .running }) with
        current := some (i, { p with state := .running }) } i { p with state := .running } :=
      ⟨⟨rfl, hid.pid i _ (ids_of_procs hproc), _, update_self .., rfl⟩, by simp, rfl⟩
    refine (reaches_deliverAndEnter hruns ?_).trans (.single ?_)
    · convert hact.identified hid using 1
      simp [toMachine, view, put, goto, System.setSlot, hcur, LiveCopy.view]
    · convert hact using 1
      simp [toMachine, view, put, goto, System.setSlot, hcur, LiveCopy.view]
  · exact hstay

private theorem reaches_scanSlots (hcur : s.current = none) (huser : s.user = none) (now : UInt64) :
    Reaches E (s.toMachine .idle) (s.scanSlots now) := by
  refine reaches_idle hcur huser (.single ?_)
  have hmachine : (s.scanSlots now).toMachine .idle =
      (s.toMachine .idle).map fun _ p => faultInvalidReadySlot (wakeSleeper now p) := by
    simp [toMachine, view, scanSlots, mapSlots, map, hcur]
  rw [hmachine]
  exact Act.scan rfl now

/-! ### Syscalls -/

/-- The running process is changed by a syscall. -/
theorem acts_setCurrent (h : Runs s i c) (hch : Changed c c') : Runs (s.setCurrent c') i c' ∧
    Acts E (s.toMachine (.kernel i r)) ((s.setCurrent c').toMachine (.kernel i r)) := by
  refine ⟨⟨h.toAt.setCurrent hch.pid, hch.after, hch.terminal.trans h.alive⟩, .single ?_⟩
  rw [h.toMachine_setCurrent]
  exact Act.change rfl h.procs hch

theorem Runs.store (h : Runs s i c) : Runs (s.setSlot i (some c)) i c :=
  ⟨h.toAt.store, h.busy, h.alive⟩

theorem Changed.space (h : c.state ≠ .waiting) (sp : UserSpace) :
    Changed c { c with space := sp } :=
  ⟨rfl, rfl, rfl, rfl, rfl, rfl, rfl, h, h, rfl, id⟩

/-- A syscall that has a result for the registers `r`. -/
structure Answered (E : Process → Prop) (s : System) (i : Slot) (r : Regs) (out : System × Regs) :
    Prop where
  runs : ∃ c, Runs out.1 i c
  regs : out.2.returnOf = none
  acts : Acts E (s.toMachine (.kernel i r)) (out.1.toMachine (.kernel i out.2))

private theorem answered_of_acts (h : Runs s' i c) (hr : v.returnOf = none)
    (hacts : Acts E (s.toMachine (.kernel i r)) (s'.toMachine (.kernel i r))) :
    Answered E s i r (s', v) :=
  ⟨⟨c, h⟩, hr, hacts.tail (Act.answer (m := s'.toMachine (.kernel i r)) rfl hr)⟩

private theorem answered_same {v : Regs} (h : Runs s i c) (hr : v.returnOf = none) :
    Answered E s i r (s, v) := answered_of_acts h hr .refl

private theorem storeCurrent_eq (h : Runs s i c) (hpid : c'.pid = c.pid) :
    s.storeCurrent c' = (.ok (), (s.setCurrent c').setSlot i (some c')) := by
  simp only [storeCurrent, (h.toAt.setCurrent hpid).sync]

private theorem acts_storeCurrent (h : Runs s i c) (hch : Changed c c') :
    Runs (s.storeCurrent c').2 i c' ∧
    Acts E (s.toMachine (.kernel i r)) ((s.storeCurrent c').2.toMachine (.kernel i r)) := by
  obtain ⟨hruns, hacts⟩ := acts_setCurrent h hch
  rw [storeCurrent_eq h hch.pid]
  refine ⟨hruns.store, ?_⟩
  rw [hruns.toAt.toMachine_store]
  exact hacts

/-- Sending a signal leaves the current process running. -/
theorem Sends.runs (hsig : signalValid sig = true) (h : Runs s i c) (hs : Sends sel sig s i c s') :
    ∃ c', Runs s' i c' := by
  obtain ⟨c', hc', hat⟩ := hs.record
  have hstate : c'.state ≠ .waiting ∧ c'.state.terminal = false := by
    cases hc' with
    | other => exact ⟨h.busy, h.alive⟩
    | self =>
      rcases (queued_queueOne hsig c).state with hst | ⟨-, hst⟩
      · rw [hst]
        exact ⟨h.busy, h.alive⟩
      · simp [hst, ProcState.terminal]
  exact ⟨c', hat, hstate.1, hstate.2⟩

@[simp] theorem retOk_returnOf (r : Regs) (value : UInt64) :
    (retOk r value).returnOf = r.returnOf := rfl

@[simp] theorem retErr_returnOf (r : Regs) (e : Native.VfsStatus) :
    (retErr r e).returnOf = r.returnOf := rfl

@[simp] theorem retKill_returnOf (r : Regs) (x : Except ProcStatus Unit) :
    (retKill r x).returnOf = r.returnOf := by
  simp only [retKill]
  split <;> rfl

@[simp] theorem retStatus_returnOf (r : Regs) (value : UInt64) (x : Except ProcStatus Unit) :
    (retStatus r value x).returnOf = r.returnOf := by
  cases x <;> rfl

section Syscalls

variable {r : Regs} (h : Runs s i c) {tries : Nat} {next next' : UInt64}

include h

/-- An invalid signal is refused before anything is changed. -/
theorem answered_send (hr' : r'.returnOf = none) (pid : UInt32) (sig : Nat) :
    Answered E s i r ((s.processSignalSend pid sig).2, r') := by
  by_cases hsig : signalValid sig = true
  · have hsends := sends_processSignalSend hsig h.toAt pid
    obtain ⟨c', hc'⟩ := hsends.runs hsig h
    exact answered_of_acts hc' hr' (hsends.acts hsig _)
  · simpa [processSignalSend, hsig] using answered_same h hr'

private theorem answered_sysKill (hr : r.returnOf = none) (pid sig : UInt64) :
    Answered E s i r (s.sysKill r pid sig) := by
  simp only [sysKill]
  split
  · exact answered_same h hr
  split
  · exact answered_same h hr
  · exact answered_send h (by simp [hr]) _ _

private theorem answered_sysRaise (hr : r.returnOf = none) (sig : UInt64) :
    Answered E s i r (s.sysRaise r sig) := by
  simp only [sysRaise]
  split
  · exact answered_same h hr
  · simp only [processSignalRaise, h.currentProc]
    exact answered_send h (by simp [hr]) _ _

private theorem answered_storeCurrent (hr' : v.returnOf = none) (hch : Changed c c') :
    Answered E s i r ((s.storeCurrent c').2, v) := by
  obtain ⟨hruns, hacts⟩ := acts_storeCurrent h hch
  exact answered_of_acts hruns hr' hacts

private theorem answered_sysSetAction (hr : r.returnOf = none) (hr' : v.returnOf = none)
    (sig : UInt64) (act : Option SigAction) : Answered E s i r (s.sysSetAction c r sig act v) := by
  simp only [sysSetAction]
  cases hset : processSignalSetAction c sig.toNat act with
  | error e => exact answered_same h hr
  | ok c' =>
    have hch : Changed c c' := by
      cases act with
      | none =>
        simp only [processSignalSetAction, Except.ite_error_eq_ok, Except.ok.injEq] at hset
        exact hset.2 ▸ Changed.space h.busy c.space
      | some a =>
        simp only [processSignalSetAction, Except.ite_error_eq_ok, Except.ok.injEq] at hset
        obtain ⟨-, -, -, -, -, rfl⟩ := hset
        exact ⟨rfl, rfl, rfl, rfl, rfl, rfl, rfl, h.busy, h.busy, rfl, id⟩
    have hstore := answered_storeCurrent (E := E) (r := r) h hr' hch
    simp only [storeCurrent_eq h hch.pid] at hstore ⊢
    exact hstore

private theorem answered_sysSigprocmask (hr : r.returnOf = none) (how : MaskHow)
    (set : Option UInt64) (oldCopied : Bool) :
    Answered E s i r (s.sysSigprocmask c r how set oldCopied) := by
  have hch : Changed c (processSignalMask c how set) := by
    have hblocked := maskable_processSignalMask (p := c) how set
    cases set with
    | none => exact Changed.space h.busy c.space
    | some set =>
      cases how <;> exact ⟨rfl, rfl, rfl, rfl, rfl, rfl, rfl, h.busy, h.busy, rfl, hblocked⟩
  simp only [sysSigprocmask, storeCurrent_eq h hch.pid]
  have hstore := answered_storeCurrent (E := E) (r := r) h
    (v := if oldCopied then retOk r 0 else retErr r .inval) (by split <;> simp [hr]) hch
  rwa [storeCurrent_eq h hch.pid] at hstore

private theorem answered_processSetPgrp (hr' : v.returnOf = none) (pid pgid : UInt32) :
    Answered E s i r ((s.processSetPgrp pid pgid).2, v) := by
  simp only [processSetPgrp, h.currentProc]
  split
  · split
    · exact answered_same h hr'
    · exact answered_storeCurrent h hr' ⟨rfl, rfl, rfl, rfl, rfl, rfl, rfl, h.busy, h.busy, rfl, id⟩
  next hself =>
  split
  · exact answered_same h hr'
  next j hj =>
  obtain ⟨p, hp, hpid⟩ := slotByPid_some hj
  have hji : j ≠ i := h.toAt.slot_ne hp (by rw [hpid]; exact fun heq => hself (.inr heq))
  simp only [hp]
  split
  · exact answered_same h hr'
  next pgid' _ =>
  refine answered_of_acts ⟨h.toAt.setSlot hji _, h.busy, h.alive⟩ hr' (.single ?_)
  rw [h.toAt.toMachine_setSlot hji]
  exact Act.join ((h.toAt.procs_of_ne hji).trans hp) pgid'

private theorem answered_processSetSid (hr' : v.returnOf = none) :
    Answered E s i r (s.processSetSid.2, v) := by
  simp only [processSetSid, h.currentProc]
  split
  · exact answered_same h hr'
  · exact answered_storeCurrent h hr' ⟨rfl, rfl, rfl, rfl, rfl, rfl, rfl, h.busy, h.busy, rfl, id⟩

omit h in
private theorem slots_none_of_alloc (hj : s.allocAsyncSlot = some j) : s.slots j = none := by
  simpa using List.find?_some hj

omit h in
/-- A pid that was found is not in use. -/
theorem allocUserPid_fresh
    (hpid : s.allocUserPid tries next = (some pid, next')) : s.pidInUse pid = false := by
  induction tries generalizing next with
  | zero => simp [allocUserPid] at hpid
  | succ tries ih =>
    simp only [allocUserPid] at hpid
    split at hpid
    · exact ih hpid
    next huse =>
    simp only [Prod.mk.injEq, some.injEq] at hpid
    rw [← hpid.1]
    simpa using huse

omit h in
/-- A pid that is not in use is no process's. -/
theorem pidInUse_false (h : At s i c) (hpid : s.pidInUse pid = false) :
    pid ≠ 0 ∧ ∀ k q, s.view k = some q → q.pid ≠ pid := by
  simp only [pidInUse, h.currentProc, any_some, Bool.or_eq_false_iff, decide_eq_false_iff_not,
    anySlot, List.any_eq_false] at hpid
  refine ⟨hpid.1.1, fun k q hq => ?_⟩
  by_cases hk : k = i
  · subst hk
    rw [h.view_self, some.injEq] at hq
    exact hq ▸ hpid.1.2
  · rw [h.view_of_ne hk] at hq
    simpa [hq] using hpid.2 k (List.mem_finRange k)

/-- A new process in a free slot. -/
theorem acts_birth {o : Mode} (hj : s.allocAsyncSlot = some j)
    (hpid : s.allocUserPid tries next = (some pid, next')) (hp : p.pid = pid)
    (hserial : p.serial = s.births) (hstate : p.state = .ready) (hregs : p.regs.returnOf = none)
    (hin : p.inHandler = false) (hpend : p.pending = 0)
    (hblocked : p.blocked = 0 ∨ p.blocked = c.blocked) :
    Runs { s.setSlot j (some p) with nextPid := next', births := s.births + 1 } i c ∧
    Act E (s.toMachine o)
      ({ s.setSlot j (some p) with nextPid := next', births := s.births + 1 }.toMachine o) := by
  have hnone := slots_none_of_alloc hj
  have hji : j ≠ i := by
    rintro rfl
    obtain ⟨q, hq, -⟩ := h.slot
    simp [hnone] at hq
  have hset := h.toAt.setSlot hji (some p)
  refine ⟨⟨⟨hset.current, hset.pid, hset.slot⟩, h.busy, h.alive⟩, ?_⟩
  obtain ⟨h0, hfresh⟩ := pidInUse_false h.toAt (allocUserPid_fresh hpid)
  have hact := Act.birth (E := E) (m := s.toMachine o) ((h.toAt.procs_of_ne hji).trans hnone)
    ⟨hp ▸ h0, hp ▸ hfresh, hserial, hstate, hregs, hin, hpend,
      hblocked.imp_right fun hb => ⟨i, c, h.procs, hb⟩⟩
  convert hact using 1
  exact Machine.ext (h.toAt.view_setSlot hji _) rfl rfl rfl rfl

private theorem answered_sysSpawn (hr : r.returnOf = none) (outcome : LoadOutcome) :
    Answered E s i r (s.sysSpawn r outcome) := by
  have hnext : ∀ next, Runs { s with nextPid := next } i c := fun next =>
    ⟨⟨h.current, h.pid, h.slot⟩, h.busy, h.alive⟩
  simp only [sysSpawn, spawnSlot]
  cases hj : s.allocAsyncSlot with
  | none => exact answered_same h hr
  | some j =>
    cases outcome with
    | noSpace => exact answered_same h hr
    | failed e =>
      rcases hpid : s.allocUserPid (asyncCap + 2) s.nextPid with ⟨_ | pid, next⟩
      · exact answered_of_acts (hnext next) hr .refl
      · exact answered_of_acts (hnext next) hr .refl
    | loaded image =>
      rcases hpid : s.allocUserPid (asyncCap + 2) s.nextPid with ⟨_ | pid, next⟩
      · exact answered_of_acts (hnext next) hr .refl
      obtain ⟨hruns, hact⟩ := acts_birth h
        (p := newProcess s.currentProc pid image s.births) hj hpid rfl rfl rfl rfl rfl rfl
        (.inl rfl)
      exact answered_of_acts hruns hr (.single hact)

/-- `sigreturn`, if it succeeds. -/
theorem answered_signalReturn {addr : UInt64} {content : FrameContent}
    (hret : processSignalReturn c addr (content.read c) r = some (c', r')) :
    Runs ((s.setCurrent c').setSlot i (some c')) i c' ∧
    (s.setCurrent c').syncCurrentToSlot = (true, (s.setCurrent c').setSlot i (some c')) ∧
    Act E (s.toMachine (.kernel i r))
      (((s.setCurrent c').setSlot i (some c')).toMachine (.kernel i r')) := by
  obtain ⟨f, -, hf⟩ := restored_signalReturn hret
  have hpid : c'.pid = c.pid := by rw [hf.eq]
  have hstate : c'.state = c.state := by rw [hf.eq]
  have hset := h.toAt.setCurrent hpid
  refine ⟨⟨hset.store, hstate ▸ h.busy, hstate ▸ h.alive⟩, hset.sync, ?_⟩
  rw [hset.toMachine_store, h.toAt.toMachine_setCurrent]
  exact Act.signalReturn rfl h.procs hret

end Syscalls

/-- A syscall that leaves a request. -/
structure Dispatched (E : Process → Prop) (s : System) (i : Slot) (r : Regs)
    (out : System × Regs × Request) : Prop where
  record : ∃ c, At out.1 i c ∧ c.state.terminal = false ∧
    (∀ outcome, out.2.2 = .fork outcome → c.state ≠ .waiting ∧ out.2.1.returnOf = none) ∧
    ∀ image, out.2.2 = .exec image → E c
  acts : Acts E (s.toMachine (.kernel i r)) (out.1.toMachine (.kernel i out.2.1))

private theorem Answered.dispatched {r : Regs} {out : System × Regs} (h : Answered E s i r out) :
    Dispatched E s i r (out.1, out.2, .none) := by
  obtain ⟨c, hc⟩ := h.runs
  exact ⟨⟨c, hc.toAt, hc.alive, (fun _ hf => nomatch hf), (fun _ hx => nomatch hx)⟩, h.acts⟩

/-- `process_request_wait` on a buffer that is writable. -/
theorem dispatched_processRequestWait {r : Regs} {out : UInt64} (alloc : Nat → Bool) (pid : UInt32)
    (h : Runs s i c) (hw : Writable c.space out.toNat processInfoSize) :
    match s.processRequestWait alloc pid out with
    | (none, s') => s' = s
    | (some call, s') => ∀ r', r'.returnOf = some call →
        ∃ c', At s' i c' ∧ c'.state.terminal = false ∧
          Act E (s.toMachine (.kernel i r)) (s'.toMachine (.kernel i r')) := by
  have hcopy := hw.copy_eq alloc
  have hsame : s.setCurrent { c with space := c.space } = s := by
    cases s
    have hcur := h.current
    simp_all [System.setCurrent]
  by_cases hargs : pid = 0 ∨ pid = c.pid ∨ out = 0
  · simp only [processRequestWait, h.currentProc, if_pos hargs]
  simp only [processRequestWait, h.currentProc, if_neg hargs, hcopy, hsame, Bool.true_eq_false,
    if_false]
  cases hj : s.slotByPid pid with
  | none => rfl
  | some j =>
    obtain ⟨q, hq, hqpid⟩ := slotByPid_some hj
    simp only [not_or] at hargs
    have hji : j ≠ i := h.toAt.slot_ne hq (by rw [hqpid]; exact hargs.2.1)
    have hproc : (s.toMachine (.kernel i r)).procs j = some q := (h.toAt.procs_of_ne hji).trans hq
    simp only [hq]
    by_cases hparent : q.parent ≠ c.pid
    · simp only [if_pos hparent]
    simp only [if_neg hparent]
    by_cases hterm : q.state.terminal = true
    · -- the child has ended: its status is copied and it is reaped
      simp only [if_pos hterm]
      intro r' hr'
      have hset := h.toAt.setSlot hji none
      refine ⟨c, ⟨hset.current, hset.pid, hset.slot⟩, h.alive, ?_⟩
      have hact := Act.waitEnded (E := E) rfl h.procs h.busy hji hproc
        (by simpa using hparent) hterm rfl hr'
      convert hact using 1
      exact Machine.ext (h.toAt.view_setSlot hji none) rfl rfl rfl rfl
    · -- the process has to wait
      simp only [if_neg hterm]
      intro r' hr'
      have hset := h.toAt.setCurrent (d := { c with
        state := .waiting, waitPid := pid, waitOut := out, waitNumber := s.waits,
        waitTarget := q.serial }) rfl
      refine ⟨_, hset, rfl, ?_⟩
      rw [h.toAt.toMachine_setCurrent]
      subst hqpid
      exact Act.waitBlocked rfl h.procs h.busy h.alive hproc
        (by simpa using hparent) hargs.2.2 hw s.waits hr'

private theorem dispatched_sysWait {r : Regs} {alloc : Nat → Bool} (h : Runs s i c)
    (hr : r.returnOf = none)
    (pid out : UInt64) : Dispatched E s i r (s.sysWait alloc c r pid out) := by
  have hruns : Runs { s with waits := s.waits + 1 } i c :=
    ⟨⟨h.current, h.pid, h.slot⟩, h.busy, h.alive⟩
  simp only [sysWait]
  split
  · exact (answered_of_acts (s := s) (v := retErr r .inval) hruns hr .refl).dispatched
  obtain ⟨hset, hacts⟩ := acts_setCurrent hruns
    (Changed.space h.busy (copyToProcess alloc c.space out.toNat processInfoSize).2)
  split
  · exact (answered_of_acts (s := s) (v := retErr r .inval) hset hr hacts).dispatched
  next hvalid =>
  have hw : Writable (copyToProcess alloc c.space out.toNat processInfoSize).2 out.toNat
      processInfoSize := writable_of_copy (by simpa using hvalid)
  have hreq := dispatched_processRequestWait (E := E) (r := r) alloc pid.toUInt32 hset hw
  revert hreq
  rcases System.processRequestWait _ alloc pid.toUInt32 out with ⟨_ | call, s'⟩
  · intro hreq
    rw [hreq]
    exact (answered_of_acts (s := s) (v := retErr r .noent) hset hr hacts).dispatched
  intro hreq
  obtain ⟨c', hat, halive, hact⟩ := hreq { retOk r 0 with returnOf := some call } rfl
  have hrequest : s'.waitRequest = .reschedule ∨ s'.waitRequest = .none := by
    rw [System.waitRequest]
    split
    · exact .inl rfl
    · exact .inr rfl
  exact ⟨⟨c', hat, halive, fun _ hf => by simp_all, fun _ hx => by simp_all⟩, hacts.tail hact⟩

private theorem dispatched_sysSleep {r : Regs} (h : Runs s i c) (hr : r.returnOf = none)
    (ticks now : UInt64) : Dispatched E s i r (s.sysSleep c r ticks now) := by
  simp only [sysSleep]
  split
  · exact (answered_same (v := retErr r .inval) h hr).dispatched
  have hch : Changed c { c with
      state := if ticks = 0 then .ready else .sleeping
      wakeTick :=
        if 0xffffffffffffffff - now < ticks then 0xffffffffffffffff else now + ticks } := by
    refine ⟨rfl, rfl, rfl, rfl, rfl, rfl, rfl, h.busy, ?_, ?_, id⟩
    · split <;> simp
    · rw [h.alive]
      split <;> rfl
  obtain ⟨hset, hacts⟩ := acts_setCurrent h hch
  exact ⟨⟨_, hset.toAt, hset.alive, (fun _ hf => nomatch hf), (fun _ hx => nomatch hx)⟩,
    hacts.tail (Act.answer rfl hr)⟩

/-- Every syscall but `exit`. -/
theorem dispatched_dispatch {r : Regs} (alloc : Nat → Bool) (call : Call) (h : Runs s i c)
    (hr : r.returnOf = none) (hE : ∀ image, call = .exec (.ok image) → E c) :
    Dispatched E s i r (s.dispatch alloc c r call) := by
  -- one case for each system call; only `exec` needs `E`
  cases call with
  | exit code => exact (answered_same h hr).dispatched
  | sigreturn addr content =>
    simp only [dispatch]
    split
    · exact (answered_same (v := ret r (-1) (-1)) h hr).dispatched
    next c' r' hret =>
    obtain ⟨hruns, hsync, hact⟩ := answered_signalReturn h hret
    rw [hsync]
    exact ⟨⟨_, hruns.toAt, hruns.alive, (fun _ hf => nomatch hf), (fun _ hx => nomatch hx)⟩,
      .single hact⟩
  | kill pid sig => exact (answered_sysKill h hr pid sig).dispatched
  | raise sig => exact (answered_sysRaise h hr sig).dispatched
  | signal sig handler =>
    exact (answered_sysSetAction h hr
      (v := retOk r (c.actions sig.toNat).handler) hr sig _).dispatched
  | sigaction sig act oldCopied =>
    have hdone : (if oldCopied then retOk r 0 else retErr r .inval).returnOf = none := by
      split <;> exact hr
    exact (answered_sysSetAction h hr hdone sig act).dispatched
  | sigprocmask how set oldCopied =>
    exact (answered_sysSigprocmask h hr how set oldCopied).dispatched
  | setpgid pid pgid =>
    simp only [dispatch, sysSetpgid]
    split
    · exact (answered_same (v := retErr r .inval) h hr).dispatched
    · exact (answered_processSetPgrp h (by simp [hr]) _ _).dispatched
  | setsid =>
    exact (answered_processSetSid h (v := retStatus r c.pid.toUInt64 _) (by simp [hr])).dispatched
  | fork outcome =>
    exact ⟨⟨c, h.toAt, h.alive, fun _ _ => ⟨h.busy, hr⟩, (fun _ hx => nomatch hx)⟩,
      .single (Act.answer rfl hr)⟩
  | spawn outcome => exact (answered_sysSpawn h hr outcome).dispatched
  | exec outcome =>
    cases outcome with
    | error e =>
      exact (answered_same (v := retErr r (processStatusToVfsError e)) h hr).dispatched
    | ok image =>
      exact ⟨⟨c, h.toAt, h.alive, (fun _ hf => nomatch hf), fun _ _ => hE image rfl⟩,
        .single (Act.answer rfl hr)⟩
  | wait pid out => exact dispatched_sysWait h hr pid out
  | sleep ticks now => exact dispatched_sysSleep h hr ticks now
  | yield =>
    exact ⟨⟨c, h.toAt, h.alive, (fun _ hf => nomatch hf), (fun _ hx => nomatch hx)⟩,
      .single (Act.answer rfl hr)⟩
  | setCred cred rax rdx =>
    have hch : Changed c { c with cred := cred } :=
      ⟨rfl, rfl, rfl, rfl, rfl, rfl, rfl, h.busy, h.busy, rfl, id⟩
    have hstore := answered_storeCurrent (E := E) (r := r) (v := ret r rax rdx) h hr hch
    rw [storeCurrent_eq h hch.pid] at hstore
    simp only [dispatch, (h.toAt.setCurrent (d := { c with cred := cred }) rfl).sync]
    exact hstore.dispatched
  | other space rax rdx =>
    obtain ⟨hset, hacts⟩ := acts_setCurrent h (Changed.space h.busy space)
    exact (answered_of_acts (v := ret r rax rdx) hset hr hacts).dispatched

private theorem acts_forkCurrentFromRegs {r : Regs} (outcome : CloneOutcome) (h : Runs s i c)
    (hr : r.returnOf = none) :
    ∃ c', Runs (s.forkCurrentFromRegs outcome r).2 i c' ∧
      Acts E (s.toMachine (.kernel i r))
        ((s.forkCurrentFromRegs outcome r).2.toMachine (.kernel i r)) := by
  have hnext : ∀ {t : System} {c' : Process} (next : UInt64), Runs t i c' →
      Runs { t with nextPid := next } i c' := fun next h =>
    ⟨⟨h.current, h.pid, h.slot⟩, h.busy, h.alive⟩
  simp only [forkCurrentFromRegs, h.currentProc]
  cases hj : s.allocAsyncSlot with
  | none => exact ⟨c, h, .refl⟩
  | some j =>
    cases outcome with
    | noSpace => exact ⟨c, h, .refl⟩
    | failed parent =>
      dsimp only
      split
      · obtain ⟨hset, hacts⟩ := acts_setCurrent h (Changed.space h.busy parent)
        exact ⟨_, hnext _ hset, hacts⟩
      · exact ⟨c, hnext _ h, .refl⟩
    | cloned parent child =>
      rcases hpid : s.allocUserPid (asyncCap + 2) s.nextPid with ⟨_ | pid, next⟩
      · exact ⟨c, hnext _ h, .refl⟩
      -- the child is there first, and then the pages of the parent change
      obtain ⟨hruns, hact⟩ := acts_birth h
        (p := forkChild c pid child r s.births) hj hpid rfl rfl rfl hr rfl rfl (.inr rfl)
      obtain ⟨hset, hacts⟩ := acts_setCurrent hruns (Changed.space h.busy parent)
      exact ⟨_, hset, .head hact hacts⟩

/-- `process_after_syscall`. -/
theorem reaches_processAfterSyscall {r : Regs} (frame : Nat → Bool) (alloc : Slot → Nat → Bool)
    {out : System × Regs × Request} (h : Dispatched E s i r out)
    (hid : Identified (s.toMachine (.kernel i r))) :
    Reaches E (out.1.toMachine (.kernel i out.2.1))
      (out.1.processAfterSyscall frame alloc out.2.1 out.2.2) := by
  obtain ⟨s', r', request⟩ := out
  obtain ⟨⟨c, hat, halive, hfork, hexec⟩, hacts⟩ := h
  have hid' := hacts.identified hid
  simp only [processAfterSyscall, hat.resolve]
  cases request with
  | none | reschedule => exact reaches_deliverAndResume hat halive hid'
  | fork outcome =>
    obtain ⟨hbusy, hr'⟩ := hfork outcome rfl
    obtain ⟨c', hruns, hacts'⟩ := acts_forkCurrentFromRegs outcome ⟨hat, hbusy, halive⟩ hr'
    have hend : ∀ r'' : Regs, r''.returnOf = none → Reaches E (s'.toMachine (.kernel i r'))
          ((s'.forkCurrentFromRegs outcome r').2.deliverAndResume frame alloc false r'') := by
      intro r'' hr''
      have hanswer : Act E ((s'.forkCurrentFromRegs outcome r').2.toMachine (.kernel i r'))
          ((s'.forkCurrentFromRegs outcome r').2.toMachine (.kernel i r'')) :=
        Act.answer rfl hr''
      have hall := hacts'.tail hanswer
      exact (reaches_deliverAndResume hruns.toAt hruns.alive (Acts.identified hall hid')).trans hall
    dsimp only
    split
    · next pid t heq =>
      rw [heq] at hend
      exact hend _ hr'
    next t heq =>
    rw [heq] at hend
    exact hend _ hr'
  | exec image =>
    have hset := hat.setCurrent (d := execReplacement c image) rfl
    simp only [commitExecReplacement, hat.currentProc, hset.sync]
    refine reaches_user hset.store (by simp [execReplacement]) rfl ?_
    rw [hset.toMachine_store, hat.toMachine_setCurrent]
    exact .single (Act.exec rfl hat.procs halive (hexec image rfl) image)

/-! ### Steps and runs -/

/-- A program may replace itself in this step only if it satisfies `E`. -/
def Allowed (E : Process → Prop) (s : System) (e : Event) : Prop :=
  ∀ regs image c, e = .syscall regs (.exec (.ok image)) → s.currentProc = some c →
    s.user.isSome → E c

theorem reaches_same (h : Between s) : Reaches E (s.toMachine (betweenMode s)) s := ⟨h, .refl⟩

private theorem reaches_syscallInt80 {mem : Memory} {r : Regs} {call : Call} (h : Runs s i c)
    (hr : r.returnOf = none) (hid : Identified (s.toMachine (.kernel i r)))
    (hE : ∀ image, call = .exec (.ok image) → E c) :
    Reaches E (s.toMachine (.kernel i r)) (s.syscallInt80 mem r call) := by
  have hdispatch := dispatched_dispatch mem.copy call h hr hE
  have hother : Reaches E (s.toMachine (.kernel i r))
      ((s.dispatch mem.copy c r call).1.processAfterSyscall mem.frame mem.wake
        (s.dispatch mem.copy c r call).2.1 (s.dispatch mem.copy c r call).2.2) :=
    (reaches_processAfterSyscall mem.frame mem.wake hdispatch hid).trans hdispatch.acts
  simp only [syscallInt80, h.currentProc]
  cases call with
  | exit code => exact reaches_terminateCurrent h.toAt ⟨rfl, rfl, rfl, rfl⟩ rfl hid
  | _ => exact hother

/-- The kernel does to the processes what `Act` says. -/
theorem reaches_step {e : Event} (mem : Memory) (h : Between s)
    (hid : Identified (s.toMachine (betweenMode s))) (hE : Allowed E s e) :
    Reaches E (s.toMachine (betweenMode s)) (s.step mem e) := by
  -- between events the system is idle or runs a program
  cases h with
  | idle hcur huser =>
    have hmode : betweenMode s = .idle := by simp [betweenMode, hcur]
    have hsame := reaches_same (E := E) (.idle hcur huser)
    rw [hmode] at hid ⊢
    rw [hmode] at hsame
    cases e with
    | scan now => simpa [step, hcur] using reaches_scanSlots hcur huser now
    | enter j => simpa [step, hcur] using reaches_enterReadySlot hcur huser hid
    | _ => simpa [step, hcur] using hsame
  | @user i c r hruns huser =>
    have hmode := hruns.betweenMode_eq huser
    have hsame := reaches_same (E := E) (.user hruns huser)
    rw [hmode] at hid ⊢
    rw [hmode] at hsame
    have htrap : ∀ regs : Regs,
        Act E (s.toMachine (.user i r)) (s.toMachine (.kernel i (ofUser regs))) :=
      fun regs => Act.trap rfl rfl
    cases e with
    | scan now | enter j => simpa [step, hruns.current] using hsame
    | timer regs =>
      simp only [step, hruns.current, huser]
      refine (reaches_processPreemptFromInterrupt hruns.toAt).trans
        ((ReflTransGen.single (htrap regs)).tail ?_)
      exact Act.pass rfl
    | pageFault regs space =>
      simp only [step, hruns.current, huser, processTryResolveCowFault, hruns.currentProc]
      obtain ⟨hset, hacts⟩ := acts_setCurrent hruns (Changed.space hruns.busy space)
      rw [hset.toAt.sync]
      refine reaches_user hset.toAt.store hset.busy hset.alive ?_
      rw [hset.toAt.toMachine_store]
      have hpass := Act.pass (E := E)
        (m := (s.setCurrent { c with space := space }).toMachine (.kernel i (ofUser regs))) rfl
      have hresume := Act.resume (E := E)
        (m := (s.setCurrent { c with space := space }).toMachine (.leaving i (ofUser regs))) rfl
        hset.toAt.procs hset.busy hset.alive
      exact (((ReflTransGen.single (htrap regs)).trans hacts).tail hpass).tail hresume
    | exception vector regs =>
      simp only [step, hruns.current, huser, processFaultCurrentFromInterrupt, hruns.currentProc]
      have hset := hruns.toAt.setCurrent
        (d := { c with exitCode := -128 - (vector : Int), faulted := true }) rfl
      simp only [hset.resolve]
      have hakin : Akin c { c with exitCode := -128 - (vector : Int), faulted := true } :=
        ⟨rfl, rfl, rfl, rfl⟩
      exact (reaches_terminateCurrent hruns.toAt hakin rfl (hid.congr rfl rfl rfl)).trans
        (.single (htrap regs))
    | syscall regs call =>
      simp only [step, hruns.current, huser]
      refine (reaches_syscallInt80 hruns rfl (hid.congr rfl rfl rfl) fun image hcall => ?_).trans
        (.single (htrap regs))
      exact hE regs image c (hcall ▸ rfl) hruns.currentProc (by simp [huser])

/-- The machine without processes. -/
def noProcs : Machine := ⟨fun _ => none, .idle, 0, [], []⟩

theorem identified_noProcs : Identified noProcs := by
  constructor <;> simp [noProcs, ids]

/-- A process that the kernel itself spawns. -/
theorem reaches_spawnSlot (hcur : s.current = none) (huser : s.user = none) (image : Image) :
    Reaches E (s.toMachine .idle) (s.spawnSlot (.loaded image)).2 := by
  simp only [spawnSlot]
  cases hj : s.allocAsyncSlot with
  | none => exact reaches_idle hcur huser .refl
  | some j =>
    rcases hpid : s.allocUserPid (asyncCap + 2) s.nextPid with ⟨_ | pid, next⟩
    · exact reaches_idle hcur huser .refl
    refine reaches_idle hcur huser ?_
    have hfresh := allocUserPid_fresh hpid
    simp only [pidInUse, Bool.or_eq_false_iff, decide_eq_false_iff_not, anySlot,
      List.any_eq_false] at hfresh
    have hview : s.view = s.slots := by simp [view, hcur]
    have hact := Act.birth (E := E) (m := s.toMachine .idle)
      (p := newProcess s.currentProc pid image s.births)
      (by simpa [toMachine, hview] using slots_none_of_alloc hj)
      ⟨hfresh.1.1, fun k q hq => ?_, rfl, rfl, rfl, rfl, rfl, .inl rfl⟩
    · refine .single ?_
      convert hact using 1
      simp [toMachine, view, put, System.setSlot, hcur]
    · simp only [toMachine, hview] at hq
      simpa [hq, newProcess] using hfresh.2 k (List.mem_finRange k)

private theorem reaches_boot (nextPid : UInt64) (init : Image) :
    Reaches E noProcs (boot nextPid init) :=
  reaches_spawnSlot (s := ⟨fun _ => none, none, none, nextPid, 0, 0, [], []⟩) rfl rfl init

/-- In every step of the run a program replaces itself only if it satisfies `E`. -/
def RunAllowed (E : Process → Prop) (s : System) : Run → Prop
  | [] => True
  | (mem, e) :: es => Allowed E s e ∧ RunAllowed E (s.step mem e) es

/-- A run of the system is a run of the machine. -/
theorem reaches_run (hm : Identified m) {es : Run} (h : Reaches E m s) (hE : RunAllowed E s es) :
    Reaches E m (s.run es) := by
  induction es generalizing s with
  | nil => exact h
  | cons e es ih =>
    exact ih ((reaches_step _ h.between (h.acts.identified hm) hE.1).trans h.acts) hE.2

theorem runAllowed_true (s : System) (es : Run) : RunAllowed (fun _ => True) s es := by
  induction es generalizing s with
  | nil => exact trivial
  | cons e es ih => exact ⟨fun _ _ _ _ _ _ => trivial, ih _⟩

/-- A state of some run of the kernel. -/
def Reachable (s : System) : Prop := ∃ nextPid init es, s = (boot nextPid init).run es

/-- Every reachable system is a machine that started without processes. -/
theorem Reachable.reaches (h : Reachable s) : Reaches (fun _ => True) noProcs s := by
  obtain ⟨nextPid, init, es, rfl⟩ := h
  exact reaches_run identified_noProcs (reaches_boot nextPid init) (runAllowed_true _ es)

/-- In every reachable system the ids are apart. -/
theorem Reachable.identified (h : Reachable s) : Identified (s.toMachine (betweenMode s)) :=
  h.reaches.acts.identified identified_noProcs

theorem run_append (s : System) (a b : Run) :
    s.run (a ++ b) = (s.run a).run b := List.foldl_append ..

theorem runAllowed_append {a b : Run} :
    RunAllowed E s (a ++ b) ↔ RunAllowed E s a ∧ RunAllowed E (s.run a) b := by
  induction a generalizing s with
  | nil => exact ⟨fun h => ⟨trivial, h⟩, fun h => h.2⟩
  | cons e a ih =>
    constructor
    · rintro ⟨h, hrest⟩
      exact ⟨⟨h, (ih.mp hrest).1⟩, (ih.mp hrest).2⟩
    · rintro ⟨⟨h, ha⟩, hb⟩
      exact ⟨h, ih.mpr ⟨ha, hb⟩⟩

/-- A run is allowed if each of its events is. -/
theorem runAllowed_iff {es : Run} :
    RunAllowed E s es ↔ ∀ es₁ e es₂, es = es₁ ++ e :: es₂ → Allowed E (s.run es₁) e.2 := by
  constructor
  · rintro h es₁ e es₂ rfl
    exact (runAllowed_append.mp h).2.1
  · intro h
    induction es generalizing s with
    | nil => exact trivial
    | cons e es ih =>
      obtain ⟨mem, e⟩ := e
      refine ⟨h [] (mem, e) es rfl, ih fun es₁ e' es₂ hes => ?_⟩
      exact h ((mem, e) :: es₁) e' es₂ (by simp [hes])

/-! ### A program -/

/-- A program with its code in low memory and data above. -/
def plainImage : Image :=
  ⟨⟨fun page => if page < 0x1000 then .denied else .writable, fun page => page < 0x1000,
      fun _ => true⟩,
    0x400000, 0x70000000, 0, 0, 0⟩

def plainMemory : Memory := ⟨fun _ => true, fun _ => true, fun _ _ => true⟩

/-- The slot of the first process. -/
def slot0 : Slot := ⟨0, by decide⟩

/-- The slot of the second one. -/
def slot1 : Slot := ⟨1, by decide⟩

end Rabbitbone.Spec.Proc
