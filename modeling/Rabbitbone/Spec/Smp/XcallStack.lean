import Rabbitbone.ForStd.Run
import Rabbitbone.Spec.Smp.XcallInv

/-!
# Items on the stack of a call

The items of a synchronous call are on the stack of `smp_run_on_mask_ex`.  The call waits until they
are done before it returns, but `smp_execute_call_item` loads `heap_owned` after it has stored
`done`.  A CPU gets to an item whose call has returned exactly if a call returns between the two.
-/

namespace Rabbitbone.Spec.Smp

open Native.Smp Function Xcalls Bool List

variable {c : Nat} {s s' : Xcalls} {ev : Event} {e : Exec} {x : ItemId}

/-- The call has returned. -/
def hasReturned (call : Call) : Bool :=
  match call.phase with
  | .returned _ => true
  | _ => false

/-- No CPU gets to an item on the stack of a call that has returned, by an execution or in a
queue. -/
structure ItemsAlive (s : Xcalls) : Prop where
  execs : ∀ e ∈ s.execs, (s.calls e.item.call).async = false →
    hasReturned (s.calls e.item.call) = false
  queues : ∀ j, ∀ x ∈ s.queues j, (s.calls x.call).async = false →
    hasReturned (s.calls x.call) = false

/-- The next step of the call is to return. -/
def returning (call : Call) : Bool :=
  match call.phase with
  | .issue [] => match issueEnd call with
    | .returned _ => true
    | _ => false
  | .scan [] done => done = call.targets - call.localTargets
  | .tally [] _ => true
  | _ => false

/-- If a synchronous call returns, no CPU is between its store of `done` and its load of
`heap_owned` for an item of the call. -/
def QuietReturn (s : Xcalls) (e : Event) : Prop :=
  ∀ c outcome timedOut, e = .advance c outcome timedOut → s.halted = false → c < s.nextCall →
    (s.calls c).async = false → returning (s.calls c) = true →
      ∀ x ∈ s.execs, x.item.call = c → x.phase ≠ .readOwned

/-! ### How a call returns -/

private theorem advance_of_returning (h : returning (s.calls c) = true) (outcome : Issue)
    (timedOut : Bool) :
    ∃ n, s.advance c outcome timedOut = s.goto c (.returned n) := by
  rw [returning] at h
  simp only [advance]
  split at h
  · rename_i hphase
    split at h
    · rename_i n hend
      refine ⟨n, ?_⟩
      rw [hphase]
      rw [hend]
    · cases h
  · rename_i done hphase
    refine ⟨(s.calls c).targets, ?_⟩
    rw [hphase]
    exact if_pos (of_decide_eq_true h)
  · rename_i n hphase
    refine ⟨n, ?_⟩
    rw [hphase]
  · cases h

private theorem calls_goto (s : Xcalls) (c : Nat) (phase : CallPhase) :
    (s.goto c phase).calls c = { s.calls c with phase := phase } := update_self ..

private theorem hasReturned_goto (s : Xcalls) (c n : Nat) :
    hasReturned ((s.goto c (.returned n)).calls c) = true := by
  rw [calls_goto]
  rfl

/-- What a step of a call does apart from the items. -/
structure CallStep (s s' : Xcalls) (c : Nat) : Prop where
  others : ∀ d, d ≠ c → s'.calls d = s.calls d
  flags : (s'.calls c).flags = (s.calls c).flags
  cpus : (s'.calls c).cpus = (s.calls c).cpus
  cpu : (s'.calls c).cpu = (s.calls c).cpu
  current : (s'.calls c).current = (s.calls c).current
  ran : s'.ran = s.ran
  nextCall : s'.nextCall = s.nextCall
  /-- The call starts an execution only for the CPU it takes for its own. -/
  execs : s'.execs = s.execs ∨ ∃ i rest, (s.calls c).phase = .issue (i :: rest) ∧
    i = (s.calls c).current ∧ (s'.calls c).phase = .inline i rest ∧
    s'.execs = s.execs ++ [⟨⟨c, i⟩, (s.calls c).cpu, .enter⟩]
  returned : hasReturned (s'.calls c) = true → hasReturned (s.calls c) = true ∨
    returning (s.calls c) = true

theorem CallStep.refl (s : Xcalls) (c : Nat) : CallStep s s c :=
  ⟨fun _ _ => rfl, rfl, rfl, rfl, rfl, rfl, rfl, .inl rfl, .inl⟩

/-- A step that changes items and goes on to another phase. -/
theorem CallStep.of_phase {call : Call} (hcalls : s'.calls = update s.calls c call)
    (hcall : call.flags = (s.calls c).flags ∧ call.cpus = (s.calls c).cpus ∧
      call.cpu = (s.calls c).cpu ∧ call.current = (s.calls c).current)
    (hran : s'.ran = s.ran) (hnext : s'.nextCall = s.nextCall) (hexecs : s'.execs = s.execs)
    (hreturned : hasReturned call = true →
      hasReturned (s.calls c) = true ∨ returning (s.calls c) = true) : CallStep s s' c := by
  have hself : s'.calls c = call := by rw [hcalls, update_self]
  refine ⟨fun d hd => by rw [hcalls, update_of_ne hd], ?_, ?_, ?_, ?_, hran, hnext, .inl hexecs, ?_⟩
  · rw [hself, hcall.1]
  · rw [hself, hcall.2.1]
  · rw [hself, hcall.2.2.1]
  · rw [hself, hcall.2.2.2]
  · rw [hself]
    exact hreturned

/-- A call that goes to another phase. -/
theorem CallStep.goto (s : Xcalls) (c : Nat) {phase : CallPhase}
    (hreturned : hasReturned { s.calls c with phase := phase } = true →
      hasReturned (s.calls c) = true ∨ returning (s.calls c) = true) :
    CallStep s (s.goto c phase) c :=
  .of_phase rfl ⟨rfl, rfl, rfl, rfl⟩ rfl rfl rfl hreturned

private theorem callStep_issueStep (s : Xcalls) (c : Nat) {i : Cpu} {rest : List Cpu}
    (hphase : (s.calls c).phase = .issue (i :: rest)) (outcome : Issue) :
    CallStep s (s.issueStep c i rest outcome) c := by
  have hissue : CallStep s (s.goto c (.issue rest)) c := CallStep.goto s c fun h => by cases h
  simp only [issueStep]
  by_cases hskipped : outcome = .skipped
  · rw [if_pos hskipped]
    exact hissue
  rw [if_neg hskipped]
  by_cases hlocal : i = (s.calls c).current
  · rw [if_pos hlocal]
    obtain ⟨s', hs'⟩ : ∃ s' : Xcalls, s' = { (s.setItem ⟨c, i⟩ (prepared (s.calls c))).goto c
      (.inline i rest) with execs := s.execs ++ [⟨⟨c, i⟩, (s.calls c).cpu, .enter⟩] } := ⟨_, rfl⟩
    have hcalls : s'.calls = update s.calls c { s.calls c with phase := .inline i rest } := by
      rw [hs']
      rfl
    have hself : s'.calls c = { s.calls c with phase := .inline i rest } := by
      rw [hcalls, update_self]
    rw [← hs']
    refine ⟨fun d hd => by rw [hcalls, update_of_ne hd], by rw [hself], by rw [hself],
      by rw [hself], by rw [hself], by rw [hs']; rfl, by rw [hs']; rfl,
      .inr ⟨i, rest, hphase, hlocal, by rw [hself], by rw [hs']⟩, fun h => ?_⟩
    rw [hself] at h
    cases h
  rw [if_neg hlocal]
  by_cases haccepted : outcome = .accepted
  · rw [if_pos haccepted]
    exact .of_phase rfl ⟨rfl, rfl, rfl, rfl⟩ rfl rfl rfl fun h => (by cases h)
  rw [if_neg haccepted]
  by_cases hasync : (s.calls c).async = true
  · rw [if_pos hasync]
    exact hissue
  · rw [if_neg hasync]
    exact .of_phase rfl ⟨rfl, rfl, rfl, rfl⟩ rfl rfl rfl fun h => (by cases h)

/-- What a step of a caller does to its call. -/
theorem callStep_advance (s : Xcalls) (c : Nat) (outcome : Issue) (timedOut : Bool) :
    CallStep s (s.advance c outcome timedOut) c := by
  -- a call that returns changes its phase only
  by_cases hret : returning (s.calls c) = true
  · obtain ⟨n, hn⟩ := advance_of_returning hret outcome timedOut
    rw [hn]
    exact .goto s c fun _ => .inr hret
  simp only [advance]
  rw [returning] at hret
  cases hphase : (s.calls c).phase with
  | issue rest =>
    cases rest with
    | nil =>
      rw [hphase] at hret
      refine .goto s c fun h => ?_
      exact absurd h hret
    | cons i rest => exact callStep_issueStep s c hphase outcome
  | inline i rest =>
    dsimp only
    split
    · exact .refl s c
    split
    · exact .of_phase rfl ⟨rfl, rfl, rfl, rfl⟩ rfl rfl rfl fun h => (by cases h)
    · exact .goto s c fun h => by cases h
  | scan rest n =>
    cases rest with
    | cons i rest => exact .goto s c fun h => by cases h
    | nil =>
      rw [hphase] at hret
      dsimp only at hret ⊢
      rw [if_neg fun h => hret (decide_eq_true h)]
      split <;> exact .goto s c fun h => by cases h
  | expire rest =>
    cases rest with
    | cons i rest =>
      dsimp only
      split <;> exact .goto s c fun h => by cases h
    | nil => exact .goto s c fun h => by cases h
  | setFailed i rest => exact .of_phase rfl ⟨rfl, rfl, rfl, rfl⟩ rfl rfl rfl fun h => (by cases h)
  | cancel i rest =>
    dsimp only
    cases hcancel : s.cancelQueued ⟨c, i⟩ with
    | none => exact .goto s c fun h => by cases h
    | some s' =>
      obtain ⟨-, rfl⟩ := cancelQueued_some hcancel
      exact .of_phase rfl ⟨rfl, rfl, rfl, rfl⟩ rfl rfl rfl fun h => (by cases h)
  | quiesce i rest =>
    dsimp only
    split
    · exact .goto s c fun h => by cases h
    split
    · exact ⟨fun _ _ => rfl, rfl, rfl, rfl, rfl, rfl, rfl, .inl rfl, .inl⟩
    · exact .refl s c
  | tally rest n =>
    cases rest with
    | cons i rest =>
      dsimp only
      split <;> exact .goto s c fun h => by cases h
    | nil =>
      rw [hphase] at hret
      exact absurd rfl hret
  | tallyFailed i rest n => exact .goto s c fun h => by cases h
  | returned n => exact .refl s c

/-! ### Items that are alive -/

/-- Of a call that has returned, no item is in a queue and an item is at most at the end of an
execution. -/
theorem XcallInv.of_returned (h : XcallInv s) (hx : x.call < s.nextCall)
    (hsync : (s.calls x.call).async = false) (hret : hasReturned (s.calls x.call) = true) :
    x ∉ s.queues x.dst ∧ ∀ e ∈ s.execs, e.item = x → e.phase = .readOwned := by
  have hcall := h.calls x.call hx
  have hview : (look s x).queued = 0 ∧
      ((look s x).phases = [] ∨ (look s x).phases = [.readOwned]) := by
    rw [hasReturned] at hret
    split at hret
    · rename_i n hphase
      by_cases hrem : x.dst ∈ (s.calls x.call).remote
      · have hinv := hcall.phase
        rw [hphase] at hinv
        exact (h.life x).of_done ((hinv hsync).1 x.dst hrem)
      · have hset := hcall.settled x.dst hrem fun r heq => nomatch hphase.symm.trans heq
        exact ⟨hset.1, .inl hset.2⟩
    · exact nomatch hret
  refine ⟨count_eq_zero.mp hview.1, fun e he hex => ?_⟩
  have hmem : e.phase ∈ (look s x).phases := mem_phasesOf.mpr ⟨e, he, hex, rfl⟩
  rcases hview.2 with hnil | hend
  · rw [hnil] at hmem
    exact nomatch hmem
  · rw [hend] at hmem
    exact mem_singleton.mp hmem

/-- The items of executions and of queues were issued. -/
theorem XcallInv.call_lt_of_exec (h : XcallInv s) (he : e ∈ s.execs) :
    e.item.call < s.nextCall := by
  refine Nat.lt_of_not_le fun hle => ?_
  have hmem : e.phase ∈ (look s e.item).phases := mem_phasesOf.mpr ⟨e, he, rfl, rfl⟩
  rw [h.unborn e.item hle] at hmem
  exact nomatch hmem

private theorem XcallInv.call_lt_of_queue (h : XcallInv s) {j : Cpu} (hx : x ∈ s.queues j) :
    x.call < s.nextCall := by
  refine Nat.lt_of_not_le fun hle => ?_
  have hdst := h.placed j x hx
  have hcount : (look s x).queued = 0 := by rw [h.unborn x hle]; rfl
  exact count_eq_zero.mp hcount (hdst.symm ▸ hx)

/-- The executions behind a step of one of them. -/
theorem mem_execs_execute {k : Nat} {stale : Bool} (he : e ∈ (s.execute k stale).execs) :
    ∃ e₀ ∈ s.execs, e₀.item = e.item ∧ e₀.cpu = e.cpu := by
  rw [execute] at he
  cases hk : s.execs[k]? with
  | none =>
    rw [hk] at he
    exact ⟨e, he, rfl, rfl⟩
  | some e₀ =>
    rw [hk] at he
    dsimp only at he
    split at he
    · rcases mem_or_eq_of_mem_set he with he | heq
      · exact ⟨e, he, rfl, rfl⟩
      · exact ⟨e₀, mem_of_getElem? hk, by rw [heq], by rw [heq]⟩
    · exact ⟨e, mem_of_mem_eraseIdx he, rfl, rfl⟩

/-- The calls before the next one stay when a call begins. -/
theorem smpRunOnMaskEx_frame (s : Xcalls) (cpu : Cpu) (requested started flags : BitVec 32) :
    (s.smpRunOnMaskEx cpu requested started flags).execs = s.execs ∧
      ∀ c < s.nextCall, (s.smpRunOnMaskEx cpu requested started flags).calls c = s.calls c := by
  simp only [smpRunOnMaskEx]
  split
  · exact ⟨rfl, fun _ _ => rfl⟩
  · exact ⟨rfl, fun c hc => update_of_ne (Nat.ne_of_lt hc) ..⟩

theorem CallStep.async (h : CallStep s s' c) : (s'.calls c).async = (s.calls c).async := by
  rw [Call.async, Call.async, h.flags]

/-- The executions are of calls that have not returned. -/
theorem execs_alive_step (h : XcallInv s) (ha : ItemsAlive s) (hq : QuietReturn s ev) :
    ∀ e ∈ (s.step ev).execs, ((s.step ev).calls e.item.call).async = false →
      hasReturned ((s.step ev).calls e.item.call) = false := by
  have h' := h.step ev
  have hdone : ∀ {e}, e ∈ s.execs → (s.calls e.item.call).async = false →
      ¬hasReturned (s.calls e.item.call) = true :=
    fun he hsync => eq_false_iff.mp (ha.execs _ he hsync)
  intro e he hsync
  rw [← not_eq_true]
  intro hret
  have hend := (h'.of_returned (h'.call_lt_of_exec he) hsync hret).2 e he rfl
  unfold step at he hsync hret
  by_cases hhalted : s.halted = true
  · rw [if_pos hhalted] at he hsync hret
    exact hdone he hsync hret
  rw [if_neg hhalted] at he hsync hret
  cases ev with
  | call cpu requested started flags =>
    obtain ⟨hexecs, hcalls⟩ := smpRunOnMaskEx_frame s cpu requested started flags
    rw [hexecs] at he
    rw [hcalls _ (h.call_lt_of_exec he)] at hsync hret
    exact hdone he hsync hret
  | advance c outcome timedOut =>
    dsimp only at he hsync hret
    by_cases hc : c < s.nextCall
    · rw [if_pos hc] at he hsync hret
      have hstep := callStep_advance s c outcome timedOut
      have hold : e ∈ s.execs := by
        rcases hstep.execs with hexecs | ⟨i, rest, -, -, hphase, hexecs⟩
        · rwa [hexecs] at he
        rw [hexecs] at he
        rcases mem_append.mp he with he | he
        · exact he
        -- a call whose own item is executed has not returned
        rw [mem_singleton.mp he, hasReturned, hphase] at hret
        exact nomatch hret
      by_cases hec : e.item.call = c
      · rw [hec] at hsync hret
        rw [hstep.async] at hsync
        rcases hstep.returned hret with hbefore | hreturning
        · rw [← hec] at hsync hbefore
          exact hdone hold hsync hbefore
        · exact hq c outcome timedOut rfl
            (eq_false_iff.mpr hhalted) hc hsync hreturning e hold hec hend
      · rw [hstep.others _ hec] at hsync hret
        exact hdone hold hsync hret
    · rw [if_neg hc] at he hsync hret
      exact hdone he hsync hret
  | dequeue cpu required =>
    dsimp only at he hsync hret
    rcases dequeue_cases s cpu required with heq | ⟨x, l₁, l₂, hqueue, -, heq⟩
    · rw [heq] at he hsync hret
      exact hdone he hsync hret
    rw [heq] at he hsync hret
    rcases mem_append.mp he with he | he
    · exact hdone he hsync hret
    rw [mem_singleton.mp he] at hsync hret
    have hmem : x ∈ s.queues cpu := by rw [hqueue]; simp
    exact absurd hret (eq_false_iff.mp (ha.queues cpu x hmem hsync))
  | execute k stale =>
    obtain ⟨e₀, he₀, hitem, -⟩ := mem_execs_execute he
    rw [(execute_frame s k stale).2.1, ← hitem] at hsync hret
    exact hdone he₀ hsync hret

/-- Items stay alive as long as calls return quietly. -/
theorem ItemsAlive.step (h : XcallInv s) (ha : ItemsAlive s) (hq : QuietReturn s ev) :
    ItemsAlive (s.step ev) := by
  have h' := h.step ev
  refine ⟨execs_alive_step h ha hq, fun j x hx hsync => ?_⟩
  rw [← not_eq_true]
  intro hret
  have hdst := h'.placed j x hx
  exact (h'.of_returned (h'.call_lt_of_queue hx) hsync hret).1 (hdst.symm ▸ hx)

/-- A call that returns too early leaves an execution behind. -/
theorem not_alive_of_not_quiet (hq : ¬QuietReturn s ev) : ¬ItemsAlive (s.step ev) := by
  rw [QuietReturn] at hq
  push Not at hq
  obtain ⟨c, outcome, timedOut, rfl, hhalted, hc, hsync, hret, e, he, hec, -⟩ := hq
  obtain ⟨n, hn⟩ := advance_of_returning hret outcome timedOut
  have hstep : s.step (.advance c outcome timedOut) = s.goto c (.returned n) := by
    unfold step
    rw [if_neg (eq_false_iff.mp hhalted)]
    dsimp only
    rw [if_pos hc, hn]
  rw [hstep]
  intro halive
  have hfalse := halive.execs e he (by rw [hec, calls_goto]; exact hsync)
  rw [hec, hasReturned_goto] at hfalse
  exact nomatch hfalse

/-- In a run of any length, no CPU gets to an item on the stack of a call that has returned, exactly
if each call returns in a state in which no CPU is about to load `heap_owned` from one of its
items. -/
theorem items_alive_iff (cpuCount : Nat) (evs : List Event) :
    Run.Always step ItemsAlive (start cpuCount) evs ↔
      Run.Allowed step QuietReturn (start cpuCount) evs :=
  Run.always_iff_allowed (B := fun _ => True) (I := fun s => XcallInv s ∧ ItemsAlive s)
    (fun _ _ _ => trivial)
    (fun _ h => h.2) (fun _ ev h _ hq => ⟨h.1.step ev, h.2.step h.1 hq⟩)
    (fun _ _ _ hq => not_alive_of_not_quiet hq)
    ⟨xcallInv_start cpuCount, fun _ he => (nomatch he), fun _ _ hx => (nomatch hx)⟩ trivial

/-! ### A call that returns too early -/

/-- The CPU with the number 1. -/
def secondCpu : Cpu := ⟨1, by decide⟩

/-- CPU 0 calls a function on CPU 1 and returns as soon as it sees `done`. -/
def earlyReturn : List Event :=
  [.call bootCpu 0b10 0b11 0, .advance 0 .accepted false, .advance 0 .accepted false,
    .dequeue secondCpu 0, .execute 0 false, .execute 0 false, .execute 0 false, .execute 0 false,
    .execute 0 false, .execute 0 false, .execute 0 false, .advance 0 .accepted false,
    .advance 0 .accepted false]

/-- The call has returned and CPU 1 has still to load `heap_owned` from its item. -/
theorem item_read_after_return : ¬ItemsAlive (earlyReturn.foldl step (start 2)) := by
  have hexecs : (earlyReturn.foldl step (start 2)).execs
      = [⟨⟨0, ⟨1, by decide⟩⟩, ⟨1, by decide⟩, .readOwned⟩] := by decide +kernel
  have hcall : (earlyReturn.foldl step (start 2)).calls 0
      = ⟨⟨0, by decide⟩, ⟨0, by decide⟩, [⟨1, by decide⟩], 0, [⟨1, by decide⟩],
        [⟨1, by decide⟩], 1, 0, .returned 1⟩ := by decide +kernel
  intro h
  have hfalse := h.execs _ (by rw [hexecs]; exact mem_singleton_self _) (by rw [hcall]; decide)
  exact nomatch hfalse

end Rabbitbone.Spec.Smp
