import Rabbitbone.Spec.Proc.SchedulerSimulation

/-!
# The status of a child

`wait` has its success in the registers before the process blocks, and these registers can end up in
a signal frame or, when the process is stopped, nowhere at all.  Yet a program never sees the
success of a `wait` before the status of the child was copied: as long as it was not, the process is
waiting for that very child, and then its buffer stays writable, so that the copy succeeds when the
child ends.  The registers of a process that is stopped instead are dropped, and those it goes on
with are older.
-/

namespace Rabbitbone.Spec.Proc

open Native.Proc Native.Proc.System Relation Function Machine Option ProcState

variable {E : Process → Prop} {m m' : Machine} {i j : Slot} {c c' p p' q : Process} {r r' : Regs}
  {k : WaitCall} {procs procs' : Slot → Option Process} {copies copies' : List StatusCopy}

/-! ### The invariant -/

/-- The status of the child that the `wait` is about was copied, and the child had ended. -/
def Copied (copies : List StatusCopy) (k : WaitCall) : Prop :=
  ∃ x ∈ copies, x.call = k ∧ x.serial = k.target ∧ x.state.terminal = true

/-- The registers are not those of a `wait` whose status is missing. -/
def Done (copies : List StatusCopy) (r : Regs) : Prop := ∀ k, r.returnOf = some k → Copied copies k

/-- The same, unless it is the `wait` for which the process waits. -/
def Pends (copies : List StatusCopy) (p : Process) (r : Regs) : Prop :=
  ∀ k, r.returnOf = some k → Copied copies k ∨ p.state = .waiting ∧ k = p.waitCall

/-- A process that waits: its buffer can be written, and the child is there. -/
structure Waits (procs : Slot → Option Process) (p : Process) : Prop where
  out : p.waitOut ≠ 0
  writable : Writable p.space p.waitOut.toNat processInfoSize
  child : ∃ j q, procs j = some q ∧ q.pid = p.waitPid ∧ q.serial = p.waitTarget ∧ q.parent = p.pid

/-- A process that is alive: its registers, those in its signal frame, and its `wait`. -/
structure RecordOk (procs : Slot → Option Process) (copies : List StatusCopy) (p : Process) :
    Prop where
  regs : Pends copies p p.regs
  frame : p.inHandler = true → ∀ f, p.frame = some f → Pends copies p f.savedRegs
  waits : p.state = .waiting → Waits procs p

/-- A process that has no registers of a `wait` whose status is missing.  In the kernel the running
process is one: only the registers of the interrupt may be those of its `wait`. -/
structure RecordDone (copies : List StatusCopy) (p : Process) : Prop where
  regs : Done copies p.regs
  frame : p.inHandler = true → ∀ f, p.frame = some f → Done copies f.savedRegs

def Records (procs : Slot → Option Process) (copies : List StatusCopy) : Prop :=
  ∀ i p, procs i = some p → p.state.terminal = false → RecordOk procs copies p

/-- The registers to which the running program will return. -/
def ModeOk (mode : Mode) (procs : Slot → Option Process) (copies : List StatusCopy) : Prop :=
  match mode with
  | .idle => True
  | .user i r =>
    Done copies r ∧ ∃ c, procs i = some c ∧ c.state.terminal = false ∧ c.state ≠ .waiting
  | .kernel i r =>
    ∃ c, procs i = some c ∧ (c.state.terminal = false → RecordDone copies c ∧ Pends copies c r)
  | .leaving i r => ∃ c, procs i = some c ∧ (c.state.terminal = false → Pends copies c r)

structure WaitInv (m : Machine) : Prop where
  records : Records m.procs m.copies
  mode : ModeOk m.mode m.procs m.copies

/-! ### Registers -/

private theorem Done.pends (h : Done copies r) (p : Process) :
    Pends copies p r := fun k hk => .inl (h k hk)

/-- Without a wait there is nothing left to copy. -/
theorem Pends.done (h : Pends copies p r) (hs : p.state ≠ .waiting) : Done copies r := by
  intro k hk
  exact (h k hk).resolve_right fun hw => hs hw.1

/-- The same registers for a record with the same `wait`. -/
theorem Pends.congr (h : Pends copies p r) (hs : p.state = .waiting → p'.state = .waiting)
    (hcall : p'.waitCall = p.waitCall) : Pends copies p' r := by
  intro k hk
  rcases h k hk with hcopied | ⟨hw, hk'⟩
  · exact .inl hcopied
  · exact .inr ⟨hs hw, hk'.trans hcall.symm⟩

theorem RecordOk.done (h : RecordOk procs copies p) (hs : p.state ≠ .waiting) :
    RecordDone copies p :=
  ⟨h.regs.done hs, fun hin f hf => (h.frame hin f hf).done hs⟩

theorem RecordDone.ok (h : RecordDone copies p) (hw : p.state = .waiting → Waits procs p) :
    RecordOk procs copies p :=
  ⟨h.regs.pends p, fun hin f hf => (h.frame hin f hf).pends p, hw⟩

/-- A record with the same registers and the same frame. -/
theorem RecordDone.congr (h : RecordDone copies p) (hregs : p'.regs = p.regs)
    (hframe : p'.frame = p.frame) (hin : p'.inHandler = p.inHandler) : RecordDone copies p' := by
  constructor
  · rw [hregs]
    exact h.regs
  · rw [hin, hframe]
    exact h.frame

/-! ### More copies -/

section Mono

variable (hsub : copies ⊆ copies')

include hsub

/-- What was copied stays copied. -/
theorem Copied.mono (h : Copied copies k) : Copied copies' k := by
  obtain ⟨x, hx, hfacts⟩ := h
  exact ⟨x, hsub hx, hfacts⟩

theorem Done.mono (h : Done copies r) : Done copies' r := fun k hk => (h k hk).mono hsub

theorem Pends.mono (h : Pends copies p r) : Pends copies' p r :=
  fun k hk => (h k hk).imp_left fun hc => hc.mono hsub

theorem RecordDone.mono (h : RecordDone copies p) : RecordDone copies' p :=
  ⟨h.regs.mono hsub, fun hin f hf => (h.frame hin f hf).mono hsub⟩

theorem RecordOk.mono (h : RecordOk procs copies p)
    (hw : p.state = .waiting → Waits procs p → Waits procs' p) : RecordOk procs' copies' p :=
  ⟨h.regs.mono hsub, fun hin f hf => (h.frame hin f hf).mono hsub, fun hs => hw hs (h.waits hs)⟩

end Mono

/-! ### Changes of records -/

/-- Two records of a process that are the same to its parent. -/
structure Family (p p' : Process) : Prop where
  pid : p'.pid = p.pid
  serial : p'.serial = p.serial
  parent : p'.parent = p.parent

theorem Family.refl (p : Process) : Family p p := ⟨rfl, rfl, rfl⟩

/-- Whoever waits still finds its child if all processes look the same to their parents. -/
theorem Waits.family (h : Waits procs p)
    (hfam : ∀ j q, procs j = some q → ∃ q', procs' j = some q' ∧ Family q q') : Waits procs' p := by
  obtain ⟨j, q, hq, hpid, hserial, hparent⟩ := h.child
  obtain ⟨q', hq', hf⟩ := hfam j q hq
  exact ⟨h.out, h.writable, j, q', hq', hf.pid.trans hpid, hf.serial.trans hserial,
    hf.parent.trans hparent⟩

private theorem family_put (hc : procs i = some c) (hf : Family c c') : ∀ j q, procs j = some q →
    ∃ q', update procs i (some c') j = some q' ∧ Family q q' := by
  intro j q hq
  by_cases hj : j = i
  · subst hj
    rw [hc, some.injEq] at hq
    exact ⟨c', update_self .., hq ▸ hf⟩
  · exact ⟨q, (update_of_ne hj ..).trans hq, .refl q⟩

/-- A change of one process that keeps its relations. -/
theorem Records.put {d : Process} (h : Records procs copies) (hc : procs i = some c)
    (hf : Family c d) (hok : d.state.terminal = false → RecordOk procs copies d) :
    Records (update procs i (some d)) copies := by
  intro j q hq ht
  have hold : RecordOk procs copies q := by
    by_cases hj : j = i
    · subst hj
      rw [update_self, some.injEq] at hq
      exact hq ▸ hok (hq ▸ ht)
    · exact h j q ((update_of_ne hj ..).symm.trans hq) ht
  exact hold.mono (List.Subset.refl _) fun _ hw => hw.family (family_put hc hf)

/-- A change of every process that keeps their relations. -/
theorem Records.map {f : Slot → Process → Process} (hf : ∀ j p, Family p (f j p))
    (hok : ∀ j p, procs j = some p → (f j p).state.terminal = false →
      RecordOk procs copies (f j p)) :
    Records (fun j => (procs j).map (f j)) copies := by
  intro j q hq ht
  simp only [map_eq_some_iff] at hq
  obtain ⟨p, hp, rfl⟩ := hq
  refine (hok j p hp ht).mono (List.Subset.refl _) fun _ hw => hw.family ?_
  intro k x hx
  exact ⟨f k x, by simp [hx], hf k x⟩

/-- Two records with the same registers and the same `wait`. -/
structure Similar (p p' : Process) : Prop where
  pid : p'.pid = p.pid
  regs : p'.regs = p.regs
  frame : p'.frame = p.frame
  inHandler : p'.inHandler = p.inHandler
  waitCall : p'.waitCall = p.waitCall
  space : p'.space = p.space
  waiting : p'.state = .waiting ↔ p.state = .waiting
  terminal : p'.state.terminal = p.state.terminal

namespace Similar

theorem refl (p : Process) : Similar p p := ⟨rfl, rfl, rfl, rfl, rfl, rfl, .rfl, rfl⟩

private theorem pends (h : Similar p p') (hp : Pends copies p r) : Pends copies p' r :=
  hp.congr h.waiting.mpr h.waitCall

private theorem recordDone (h : Similar p p') (hp : RecordDone copies p) : RecordDone copies p' :=
  hp.congr h.regs h.frame h.inHandler

theorem waits (h : Similar p p') (hp : Waits procs p) : Waits procs p' := by
  have hcall := h.waitCall
  simp only [Process.waitCall, WaitCall.mk.injEq] at hcall
  obtain ⟨-, hpid, hout, htarget⟩ := hcall
  refine ⟨hout ▸ hp.out, ?_, ?_⟩
  · rw [h.space, hout]
    exact hp.writable
  · rw [hpid, htarget, h.pid]
    exact hp.child

private theorem recordOk (h : Similar p p') (hp : RecordOk procs copies p) :
    RecordOk procs copies p' := by
  constructor
  · rw [h.regs]
    exact h.pends hp.regs
  · rw [h.inHandler, h.frame]
    exact fun hin f hf => h.pends (hp.frame hin f hf)
  · exact fun hw => h.waits (hp.waits (h.waiting.mp hw))

end Similar

/-- Similar processes and more copies leave the mode right. -/
theorem ModeOk.similar {mode : Mode} (h : ModeOk mode procs copies) (hsub : copies ⊆ copies')
    (hsim : ∀ i c, procs i = some c → ∃ c', procs' i = some c' ∧ Similar c c') :
    ModeOk mode procs' copies' := by
  cases mode with
  | idle => trivial
  | user i r =>
    obtain ⟨hdone, c, hc, ht, hs⟩ := h
    obtain ⟨c', hc', hsim⟩ := hsim i c hc
    exact ⟨hdone.mono hsub, c', hc', hsim.terminal ▸ ht, fun hw => hs (hsim.waiting.mp hw)⟩
  | kernel i r =>
    obtain ⟨c, hc, hok⟩ := h
    obtain ⟨c', hc', hsim⟩ := hsim i c hc
    refine ⟨c', hc', fun ht => ?_⟩
    obtain ⟨hdone, hpends⟩ := hok (hsim.terminal ▸ ht)
    exact ⟨(hsim.recordDone hdone).mono hsub, (hsim.pends hpends).mono hsub⟩
  | leaving i r =>
    obtain ⟨c, hc, hok⟩ := h
    obtain ⟨c', hc', hsim⟩ := hsim i c hc
    exact ⟨c', hc', fun ht => (hsim.pends (hok (hsim.terminal ▸ ht))).mono hsub⟩

/-- All records change, and nothing of what the invariant is about. -/
theorem WaitInv.map (h : WaitInv m) {f : Slot → Process → Process}
    (hf : ∀ j p, Similar p (f j p) ∧ Family p (f j p)) : WaitInv (m.map f) := by
  refine ⟨.map (fun j p => (hf j p).2) fun j p hp ht => ?_, ?_⟩
  · exact (hf j p).1.recordOk (h.records j p hp ((hf j p).1.terminal ▸ ht))
  · exact h.mode.similar (List.Subset.refl _) fun i c hc => ⟨f i c, by simp [hc], (hf i c).1⟩

/-- In the kernel the record is done and the registers pend. -/
theorem WaitInv.kernel (h : WaitInv m) (hm : m.mode = .kernel i r) (hc : m.procs i = some c) :
    c.state.terminal = false → RecordDone m.copies c ∧ Pends m.copies c r := by
  have hmode := h.mode
  rw [hm] at hmode
  obtain ⟨c', hc', hok⟩ := hmode
  rw [hc, some.injEq] at hc'
  exact hc' ▸ hok

/-- On the way out the registers pend. -/
theorem WaitInv.leaving (h : WaitInv m) (hm : m.mode = .leaving i r) (hc : m.procs i = some c) :
    c.state.terminal = false → Pends m.copies c r := by
  have hmode := h.mode
  rw [hm] at hmode
  obtain ⟨c', hc', hok⟩ := hmode
  rw [hc, some.injEq] at hc'
  exact hc' ▸ hok

theorem WaitInv.waits (h : WaitInv m) (hp : m.procs i = some p) (hs : p.state = .waiting) :
    Waits m.procs p :=
  (h.records i p hp (by simp [hs, terminal])).waits hs

/-- If a process has ended, whoever waits for a process with its pid waits for it, and can be given
its status. -/
theorem Waits.wakeCopy (h : Waits m.procs p) (hid : Identified m) (hc : m.procs i = some c)
    (ht : c.state.terminal = true) (hw : waitsFor c.pid p = true) (alloc : Nat → Bool) :
    c.serial = p.waitTarget ∧ (wake alloc (some c) p).1 = true := by
  simp only [waitsFor, Bool.and_eq_true, decide_eq_true_eq] at hw
  obtain ⟨j, q, hq, hpid, hserial, -⟩ := h.child
  have hji := hid.pid_unique j i _ _ (ids_of_procs hq) (ids_of_procs hc) (hpid.trans hw.2)
  subst hji
  rw [hc, some.injEq] at hq
  subst hq
  refine ⟨hserial, ?_⟩
  simp [wake, ht, h.out, h.writable.copy_eq alloc]

section

variable (h : WaitInv m) (hid : Identified m) {alloc : Slot → Nat → Bool}
include h hid

end

variable {s s' : System} {call : WaitCall} {alloc : Nat → Bool} {out : UInt64}

end Rabbitbone.Spec.Proc
