import Mathlib.Data.List.Nodup
import Mathlib.Data.List.Sublists
import Rabbitbone.Spec.Smp.Xcall

/-!
# What a cross-call knows about its items

While a call issues its items the ones to come are fresh; the ones that other CPUs have not to do
with are settled; and when it goes on from a wait, or gives up on an item, the items it has looked
at are done.  Steps of other calls and of executions keep what a call knows.
-/

namespace Rabbitbone.Spec.Smp

open Native.Smp Function List Nat

variable {phase old : CallPhase} {call : Call} {view view' : Cpu → View}

/-- The CPUs whose items are still to be issued. -/
def unissued : CallPhase → List Cpu
  | .issue rest => rest
  | .inline _ rest => rest
  | _ => []

/-- The CPUs that are not yet in `issued`. -/
def pending : CallPhase → List Cpu
  | .issue rest => rest
  | .inline i rest => i :: rest
  | _ => []

/-- What a call knows about its items from its loops; `view` is the view of the item for a CPU. -/
def PhaseInv (call : Call) (view : Cpu → View) : CallPhase → Prop
  | .issue _ => ∀ i ∈ call.remote, (view i).failed = false
  | .inline i _ => (view i).queued = 0 ∧ (view i).failed = false ∧
      ∀ i ∈ call.remote, (view i).failed = false
  | .scan rest n => (∀ i ∈ call.remote, (view i).failed = false) ∧
      ∃ seen, call.remote = seen ++ rest ∧ n ≤ seen.countP fun i => (view i).done
  | .expire rest => ∃ seen, call.remote = seen ++ rest ∧ ∀ i ∈ seen, (view i).done = true
  | .setFailed i rest => ∃ seen, call.remote = seen ++ i :: rest ∧ ∀ j ∈ seen, (view j).done = true
  | .cancel i rest => ∃ seen, call.remote = seen ++ i :: rest ∧ ∀ j ∈ seen, (view j).done = true
  | .quiesce i rest => ∃ seen, call.remote = seen ++ i :: rest ∧ ∀ j ∈ seen, (view j).done = true
  | .tally rest n => (∀ i ∈ call.remote, (view i).done = true) ∧
      ∃ seen, call.issued = seen ++ rest ∧ n ≤ seen.countP fun i => (view i).ran = 1
  | .tallyFailed i rest n => (∀ i ∈ call.remote, (view i).done = true) ∧ (view i).done = true ∧
      ∃ seen, call.issued = seen ++ i :: rest ∧ n ≤ seen.countP fun i => (view i).ran = 1
  | .returned n => call.async = false → (∀ i ∈ call.remote, (view i).done = true) ∧
      n ≤ call.issued.countP fun i => (view i).ran = 1

/-- What holds of a call and its items. -/
structure CallInv (call : Call) (view : Cpu → View) : Prop where
  nodup : call.cpus.Nodup
  order : (call.issued ++ pending call.phase).Sublist call.cpus
  remote : call.remote.Sublist call.issued
  targets : call.targets = call.issued.length
  localTargets : call.localTargets + call.remote.length = call.issued.length
  fresh : ∀ i ∈ unissued call.phase, view i = View.fresh
  settled : ∀ i, i ∉ call.remote → (∀ rest, call.phase ≠ .inline i rest) → (view i).Settled
  inline : ∀ i ∈ call.issued, i ∉ call.remote → call.async = false →
    (view i).done = true ∧ (view i).failed = false
  phase : PhaseInv call view call.phase

private theorem PhaseInv.evolve (h : PhaseInv call view phase)
    (hev : ∀ i, Evolves (view i) (view' i)) : PhaseInv call view' phase := by
  have hfailed : ∀ {i : Cpu}, (view i).failed = false → (view' i).failed = false :=
    fun {i} hi => (hev i).failed.trans hi
  have hdone : ∀ {i : Cpu}, (view i).done = true → (view' i).done = true := fun {i} => (hev i).done
  have hcountDone : ∀ {seen : List Cpu} {n : Nat}, n ≤ seen.countP (fun i => (view i).done) →
      n ≤ seen.countP fun i => (view' i).done :=
    fun hn => le_trans hn (countP_mono_left fun i _ => hdone)
  have hcountRan : ∀ {seen : List Cpu} {n : Nat}, n ≤ seen.countP (fun i => (view i).ran = 1) →
      n ≤ seen.countP fun i => (view' i).ran = 1 :=
    fun hn => le_trans hn (countP_mono_left fun i _ hi =>
      decide_eq_true ((hev i).ran (of_decide_eq_true hi)))
  cases phase with
  | issue rest => exact fun i hi => hfailed (h i hi)
  | inline i rest => exact ⟨(hev i).queued h.1, hfailed h.2.1, fun j hj => hfailed (h.2.2 j hj)⟩
  | scan rest n =>
    obtain ⟨hfail, seen, hseen, hn⟩ := h
    exact ⟨fun i hi => hfailed (hfail i hi), seen, hseen, hcountDone hn⟩
  | expire rest | setFailed i rest | cancel i rest | quiesce i rest =>
    obtain ⟨seen, hseen, hd⟩ := h
    exact ⟨seen, hseen, fun i hi => hdone (hd i hi)⟩
  | tally rest n =>
    obtain ⟨hd, seen, hseen, hn⟩ := h
    exact ⟨fun i hi => hdone (hd i hi), seen, hseen, hcountRan hn⟩
  | tallyFailed i rest n =>
    obtain ⟨hd, hi, seen, hseen, hn⟩ := h
    exact ⟨fun i hi => hdone (hd i hi), hdone hi, seen, hseen, hcountRan hn⟩
  | returned n =>
    intro hsync
    obtain ⟨hd, hn⟩ := h hsync
    exact ⟨fun i hi => hdone (hd i hi), hcountRan hn⟩

/-- Steps of other parties keep what a call knows. -/
theorem CallInv.evolve (h : CallInv call view)
    (hev : ∀ i, Evolves (view i) (view' i)) : CallInv call view' where
  nodup := h.nodup
  order := h.order
  remote := h.remote
  targets := h.targets
  localTargets := h.localTargets
  fresh := fun i hi => (hev i).fresh (h.fresh i hi)
  settled := fun i hi hphase => (hev i).settled (h.settled i hi hphase)
  inline := fun i hi hrem hsync =>
    ⟨(hev i).done (h.inline i hi hrem hsync).1, (hev i).failed.trans (h.inline i hi hrem hsync).2⟩
  phase := h.phase.evolve hev

/-- The view of the items of a call. -/
def views (s : Xcalls) (c : Nat) (i : Cpu) : View := look s ⟨c, i⟩

/-- What holds in every state of a run. -/
structure XcallInv (s : Xcalls) : Prop where
  life : ∀ x, Life (look s x)
  placed : ∀ j x, x ∈ s.queues j → x.dst = j
  unborn : ∀ x : ItemId, s.nextCall ≤ x.call → look s x = View.fresh
  calls : ∀ c < s.nextCall, CallInv (s.calls c) (views s c)

/-! ### Steps of other parties -/

variable {s s' : Xcalls} {x : ItemId} {c n : Nat}

/-- A step of an execution or of a CPU that takes an item. -/
theorem XcallInv.works (h : XcallInv s) (hw : Works s s' x)
    (hplaced : ∀ j y, y ∈ s'.queues j → y.dst = j) (hcalls : s'.calls = s.calls)
    (hnext : s'.nextCall = s.nextCall) : XcallInv s' := by
  have hev : ∀ y, Evolves (look s y) (look s' y) := by
    intro y
    by_cases hy : y = x
    · rw [hy]
      exact hw.evolves
    · exact .of_eq (hw.only y hy)
  refine ⟨fun y => ?_, hplaced, fun y hy => ?_, fun c hc => ?_⟩
  · by_cases hy : y = x
    · rw [hy]
      exact hw.life
    · rw [hw.only y hy]
      exact h.life y
  · rw [hnext] at hy
    exact (hev y).fresh (h.unborn y hy)
  · rw [hnext] at hc
    rw [hcalls]
    exact (h.calls c hc).evolve fun i => hev ⟨c, i⟩

/-- The system starts with the invariant. -/
theorem xcallInv_start (cpuCount : Nat) : XcallInv (Xcalls.start cpuCount) where
  life := fun _ => .fresh false
  placed := fun _ _ hx => (nomatch hx)
  unborn := fun _ _ => rfl
  calls := fun _ hc => absurd hc (not_lt_zero _)

private theorem executeStep_frame (s : Xcalls) (e : Exec) (stale : Bool) :
    (s.executeStep e stale).1.queues = s.queues ∧ (s.executeStep e stale).1.calls = s.calls ∧
      (s.executeStep e stale).1.nextCall = s.nextCall := by
  obtain ⟨item, cpu, p⟩ := e
  cases p with
  | readOwned =>
    simp only [Xcalls.executeStep]
    split <;> exact ⟨rfl, rfl, rfl⟩
  | _ => exact ⟨rfl, rfl, rfl⟩

/-- Executing changes neither queues nor calls. -/
theorem execute_frame (s : Xcalls) (k : Nat) (stale : Bool) :
    (s.execute k stale).queues = s.queues ∧ (s.execute k stale).calls = s.calls ∧
      (s.execute k stale).nextCall = s.nextCall := by
  rw [Xcalls.execute]
  cases s.execs[k]? with
  | none => exact ⟨rfl, rfl, rfl⟩
  | some e =>
    have hframe := executeStep_frame s e stale
    dsimp only
    split
    · rename_i s' p heq
      rw [heq] at hframe
      exact hframe
    rename_i s' heq
    rw [heq] at hframe
    exact hframe

/-- A step of an execution keeps the invariant. -/
theorem XcallInv.execute (h : XcallInv s) (k : Nat) (stale : Bool) :
    XcallInv (s.execute k stale) := by
  obtain ⟨hqueues, hcalls, hnext⟩ := execute_frame s k stale
  rcases works_execute h.life k stale with heq | ⟨x, hw⟩
  · rw [heq]
    exact h
  refine h.works hw ?_ hcalls hnext
  rw [hqueues]
  exact h.placed

/-- A queue changes and holds items of its CPU. -/
theorem XcallInv.placed_update (h : XcallInv s) {i : Cpu} {l : List ItemId}
    (hl : ∀ y ∈ l, y.dst = i) :
    ∀ j y, y ∈ update s.queues i l j → y.dst = j := by
  intro j y hy
  by_cases hj : j = i
  · subst hj
    rw [update_self] at hy
    exact hl y hy
  · rw [update_of_ne hj] at hy
    exact h.placed j y hy

/-- Taking an item from a queue keeps the invariant. -/
theorem XcallInv.dequeue (h : XcallInv s) (cpu : Cpu) (required : BitVec 32) :
    XcallInv (s.dequeue cpu required) := by
  rcases dequeue_cases s cpu required with heq | ⟨x, l₁, l₂, hqueue, -, heq⟩
  · rw [heq]
    exact h
  rw [heq]
  refine h.works (works_dequeue h.life h.placed hqueue)
    (h.placed_update fun y hy => h.placed cpu y ?_) rfl rfl
  rw [hqueue]
  rcases mem_append.mp hy with hy | hy
  · exact mem_append_left _ hy
  · exact mem_append_right _ (mem_cons_of_mem _ hy)

/-! ### A call begins -/

/-- A new call keeps the invariant. -/
theorem XcallInv.smpRunOnMaskEx (h : XcallInv s) (cpu : Cpu) (requested started flags : BitVec 32) :
    XcallInv (s.smpRunOnMaskEx cpu requested started flags) := by
  simp only [Xcalls.smpRunOnMaskEx]
  split
  · exact h
  refine ⟨h.life, h.placed, fun x hx => h.unborn x (le_of_succ_le hx), fun c hc => ?_⟩
  dsimp only [Xcalls.setCall]
  by_cases hnew : c = s.nextCall
  · subst hnew
    rw [update_self]
    have hfresh : ∀ i, views s s.nextCall i = View.fresh := fun i => h.unborn _ (le_refl _)
    refine ⟨(nodup_finRange _).filter _, ?_, Sublist.refl _, rfl, rfl, fun i _ => hfresh i,
      fun i _ _ => ?_, fun i hi => (nomatch hi), fun i hi => (nomatch hi)⟩
    · exact Sublist.refl _
    · change (views s s.nextCall i).Settled
      rw [hfresh i]
      exact ⟨rfl, rfl⟩
  · rw [update_of_ne hnew]
    exact h.calls c (lt_of_le_of_ne (le_of_lt_succ hc) hnew)

/-! ### A call takes a step -/

/-- A call takes a step of its own. -/
theorem XcallInv.ofCall (h : XcallInv s) (hnext : s'.nextCall = s.nextCall)
    (hplaced : ∀ j x, x ∈ s'.queues j → x.dst = j) (hcalls : ∀ d, d ≠ c → s'.calls d = s.calls d)
    (hviews : ∀ x : ItemId, x.call ≠ c → look s' x = look s x) (hlife : ∀ i, Life (views s' c i))
    (hc : c < s.nextCall) (hcall : CallInv (s'.calls c) (views s' c)) : XcallInv s' := by
  refine ⟨fun x => ?_, hplaced, fun x hx => ?_, fun d hd => ?_⟩
  · by_cases hx : x.call = c
    · subst hx
      exact hlife x.dst
    · rw [hviews x hx]
      exact h.life x
  · rw [hnext] at hx
    rw [hviews x (fun heq => absurd hc (not_lt.mpr (heq ▸ hx)))]
    exact h.unborn x hx
  · rw [hnext] at hd
    by_cases hdc : d = c
    · rw [hdc]
      exact hcall
    have hsame : views s' d = views s d := funext fun i => hviews ⟨d, i⟩ hdc
    rw [hcalls d hdc, hsame]
    exact h.calls d hd

/-- A step of a call that leaves the items alone. -/
theorem XcallInv.setCall (h : XcallInv s) (hc : c < s.nextCall)
    (hcall : CallInv call (views s c)) : XcallInv (s.setCall c call) := by
  refine h.ofCall rfl h.placed (fun d hd => update_of_ne hd ..) (fun x _ => rfl)
    (fun i => h.life ⟨c, i⟩) hc ?_
  have hself : (s.setCall c call).calls c = call := update_self ..
  rw [hself]
  exact hcall

/-- A call whose next item is not being executed. -/
theorem not_inline (hphase : call.phase = old) (hold : pending old = unissued old) (i : Cpu)
    (rest : List Cpu) : call.phase ≠ .inline i rest := by
  rintro heq
  rw [← hphase, heq] at hold
  exact cons_ne_self i rest hold

/-- A call goes on to a phase in which all its items are issued; remote items may have changed. -/
theorem CallInv.gotoWith (h : CallInv call view)
    (hphase : call.phase = old) (hold : pending old = unissued old) (hnew : pending phase = [])
    (hunissued : unissued phase = []) (hview : ∀ j, j ∉ call.remote → view' j = view j)
    (hinv : PhaseInv call view' phase) : CallInv { call with phase := phase } view' := by
  refine ⟨h.nodup, ?_, h.remote, h.targets, h.localTargets, ?_, fun j hj _ => ?_,
    fun j hj hrem hsync => ?_, hinv⟩
  · rw [hnew, append_nil]
    exact (sublist_append_left _ _).trans h.order
  · rw [hunissued]
    exact fun j hj => (nomatch hj)
  · rw [hview j hj]
    exact h.settled j hj (not_inline hphase hold j)
  · rw [hview j hrem]
    exact h.inline j hj hrem hsync

/-- A call goes to a phase without pending items. -/
theorem CallInv.goto (h : CallInv call view) (hphase : call.phase = old)
    (hold : pending old = unissued old) (hnew : pending phase = [])
    (hunissued : unissued phase = [])
    (hinv : PhaseInv call view phase) : CallInv { call with phase := phase } view :=
  h.gotoWith hphase hold hnew hunissued (fun _ _ => rfl) hinv

namespace CallInv

variable {call : Call} {view : Cpu → View}

section

variable (h : CallInv call view) {i : Cpu} {rest seen : List Cpu}
include h

private theorem mem_issued (hi : i ∈ call.remote) : i ∈ call.issued := h.remote.subset hi

/-- All items have run if the remote ones are done and have not failed. -/
theorem all_ran (hlife : ∀ i, Life (view i)) (hsync : call.async = false)
    (hdone : ∀ i ∈ call.remote, (view i).done = true)
    (hfailed : ∀ i ∈ call.remote, (view i).failed = false) :
    call.targets ≤ call.issued.countP fun i => (view i).ran = 1 := by
  have hall : ∀ i ∈ call.issued, (view i).ran = 1 := by
    intro i hi
    by_cases hrem : i ∈ call.remote
    · exact (hlife i).ran_of_done (hdone i hrem) (hfailed i hrem)
    · exact (hlife i).ran_of_done (h.inline i hi hrem hsync).1 (h.inline i hi hrem hsync).2
  rw [h.targets, countP_eq_length.mpr fun i hi => decide_eq_true (hall i hi)]

/-- The end of the loop over the CPUs. -/
theorem issueEnd (hlife : ∀ i, Life (view i)) (hphase : call.phase = .issue []) :
    CallInv { call with phase := Xcalls.issueEnd call } view := by
  have hinv := h.phase
  rw [hphase] at hinv
  rw [Xcalls.issueEnd]
  by_cases hasync : call.async = true
  · rw [if_pos hasync]
    exact h.goto hphase rfl rfl rfl fun hsync => absurd (hsync.symm.trans hasync) (by decide)
  rw [if_neg hasync]
  by_cases hzero : call.targets = 0
  · rw [if_pos hzero]
    have hnil : call.issued = [] := length_eq_zero_iff.mp (h.targets.symm.trans hzero)
    refine h.goto hphase rfl rfl rfl fun _ => ⟨fun i hi => ?_, zero_le _⟩
    have hmem := h.mem_issued hi
    rw [hnil] at hmem
    exact nomatch hmem
  · rw [if_neg hzero]
    by_cases hremote : call.remote = []
    · rw [if_pos hremote]
      have hnone : ∀ i, i ∉ call.remote := fun i hi => by rw [hremote] at hi; exact nomatch hi
      exact h.goto hphase rfl rfl rfl fun hsync => ⟨fun i hi => absurd hi (hnone i),
        h.all_ran hlife hsync (fun i hi => absurd hi (hnone i)) hinv⟩
    · rw [if_neg hremote]
      exact h.goto hphase rfl rfl rfl ⟨hinv, [], rfl, zero_le _⟩

/-- A pass over the items that looks at one more. -/
theorem scan_cons (hphase : call.phase = .scan (i :: rest) n) :
    CallInv { call with phase := .scan rest (if (view i).done then n + 1 else n) } view := by
  have hinv := h.phase
  rw [hphase] at hinv
  obtain ⟨hfailed, seen, hseen, hn⟩ := hinv
  refine h.goto hphase rfl rfl rfl ⟨hfailed, seen ++ [i], by rw [hseen, append_assoc]; rfl, ?_⟩
  rw [countP_append, countP_singleton]
  split <;> omega

/-- All items of a pass were done. -/
theorem scan_all (hlife : ∀ i, Life (view i)) (hphase : call.phase = .scan [] n)
    (hn : n = call.targets - call.localTargets) :
    CallInv { call with phase := .returned call.targets } view := by
  have hinv := h.phase
  rw [hphase] at hinv
  obtain ⟨hfailed, seen, hseen, hcount⟩ := hinv
  rw [append_nil] at hseen
  subst hseen
  have hlen : n = call.remote.length := by
    have htargets := h.targets
    have hlocal := h.localTargets
    omega
  have hall := countP_eq_length.mp (le_antisymm countP_le_length (hlen ▸ hcount))
  exact h.goto hphase rfl rfl rfl fun hsync =>
    ⟨hall, h.all_ran hlife hsync hall hfailed⟩

/-- The loop behind a time-out goes on to the next item when this one is done. -/
theorem expire_next (hphase : call.phase = old)
    (hold : pending old = unissued old) (hseen : call.remote = seen ++ i :: rest)
    (hdone : ∀ j ∈ seen, (view j).done = true) (hi : (view i).done = true) :
    CallInv { call with phase := .expire rest } view := by
  refine h.goto hphase hold rfl rfl ⟨seen ++ [i], by rw [hseen, append_assoc]; rfl, fun j hj => ?_⟩
  rcases mem_append.mp hj with hj | hj
  · exact hdone j hj
  · rw [mem_singleton.mp hj]
    exact hi

/-- The count goes on to the next item. -/
theorem tally_next {m : Nat} (hphase : call.phase = old)
    (hold : pending old = unissued old) (hdone : ∀ i ∈ call.remote, (view i).done = true)
    (hseen : call.issued = seen ++ i :: rest) (hn : n ≤ seen.countP fun i => (view i).ran = 1)
    (hm : m = n ∨ (m = n + 1 ∧ (view i).ran = 1)) :
    CallInv { call with phase := .tally rest m } view := by
  refine h.goto hphase hold rfl rfl ⟨hdone, seen ++ [i], by rw [hseen, append_assoc]; rfl, ?_⟩
  rw [countP_append, countP_singleton]
  rcases hm with rfl | ⟨rfl, hran⟩
  · omega
  · rw [if_pos (decide_eq_true hran)]
    omega

end

end CallInv

/-! ### Items are issued -/

namespace CallInv

variable {call : Call} {view view' : Cpu → View} {i : Cpu} {rest : List Cpu}

section

variable (h : CallInv call view)
include h

/-- The CPU whose turn it is comes once. -/
theorem notMem_of_pending (hpend : pending call.phase = i :: rest) :
    i ∉ call.issued ∧ i ∉ rest := by
  have hnodup := h.order.nodup h.nodup
  rw [hpend] at hnodup
  have hcons := (nodup_append.mp hnodup).2.1
  have hdisj := (nodup_append.mp hnodup).2.2
  exact ⟨fun hi => hdisj i hi i mem_cons_self rfl, (nodup_cons.mp hcons).1⟩

private theorem order_tail (hpend : pending call.phase = i :: rest) :
    (call.issued ++ rest).Sublist call.cpus := by
  refine Sublist.trans ?_ h.order
  rw [hpend]
  exact (Sublist.refl _).append (sublist_cons_self i rest)

private theorem order_snoc (hpend : pending call.phase = i :: rest) :
    (call.issued ++ [i] ++ rest).Sublist call.cpus := by
  have horder := h.order
  rw [hpend] at horder
  rw [append_assoc]
  exact horder

/-- What is kept when the item of the CPU whose turn it is changes. -/
theorem others (hphase : call.phase = .issue (i :: rest)) (hview : ∀ j, j ≠ i → view' j = view j) :
    (∀ j ∈ rest, view' j = View.fresh) ∧ (∀ j, j ∉ call.remote → j ≠ i → (view' j).Settled) ∧
      (∀ j ∈ call.issued, view' j = view j) ∧ ∀ j ∈ call.remote, (view' j).failed = false := by
  obtain ⟨hissued, hrest⟩ := h.notMem_of_pending (by rw [hphase]; rfl)
  have hinv := h.phase
  have hfresh := h.fresh
  rw [hphase] at hinv hfresh
  have hsame : ∀ j ∈ call.issued, view' j = view j := fun j hj =>
    hview j fun heq => hissued (heq ▸ hj)
  refine ⟨fun j hj => ?_, fun j hj hji => ?_, hsame, fun j hj => ?_⟩
  · rw [hview j fun heq => hrest (heq ▸ hj)]
    exact hfresh j (mem_cons_of_mem i hj)
  · rw [hview j hji]
    exact h.settled j hj fun r heq => nomatch hphase.symm.trans heq
  · rw [hsame j (h.mem_issued hj)]
    exact hinv j hj

/-- The item of a CPU is passed over. -/
theorem skip (hphase : call.phase = .issue (i :: rest)) (hview : ∀ j, j ≠ i → view' j = view j)
    (hi : (view' i).Settled) : CallInv { call with phase := .issue rest } view' := by
  obtain ⟨hfresh, hsettled, hsame, hfailed⟩ := h.others hphase hview
  refine ⟨h.nodup, h.order_tail (by rw [hphase]; rfl), h.remote, h.targets, h.localTargets, hfresh,
    fun j hj _ => ?_, fun j hj hrem hsync => ?_, hfailed⟩
  · by_cases hji : j = i
    · rw [hji]
      exact hi
    · exact hsettled j hj hji
  · rw [hsame j hj]
    exact h.inline j hj hrem hsync

/-- The item of a CPU goes into its queue. -/
theorem accept (hphase : call.phase = .issue (i :: rest)) (hview : ∀ j, j ≠ i → view' j = view j)
    (hi : (view' i).failed = false) : CallInv { call with
      issued := call.issued ++ [i], remote := call.remote ++ [i],
      targets := call.targets + 1, phase := .issue rest } view' := by
  obtain ⟨hfresh, hsettled, hsame, hfailed⟩ := h.others hphase hview
  have hout : ∀ {j}, j ∉ call.remote ++ [i] → j ∉ call.remote ∧ j ≠ i := by
    intro j hj
    rw [mem_append, mem_singleton, not_or] at hj
    exact hj
  refine ⟨h.nodup, h.order_snoc (by rw [hphase]; rfl), h.remote.append (Sublist.refl _),
    ?_, ?_, hfresh,
    fun j hj _ => hsettled j (hout hj).1 (hout hj).2, fun j hj hrem hsync => ?_, fun j hj => ?_⟩
  · simp only [length_append, length_singleton, h.targets]
  · have hlocal := h.localTargets
    simp only [length_append, length_singleton]
    omega
  · rcases mem_append.mp hj with hj | hj
    · rw [hsame j hj]
      exact h.inline j hj (hout hrem).1 hsync
    · exact absurd (mem_singleton.mp hj) (hout hrem).2
  · rcases mem_append.mp hj with hj | hj
    · exact hfailed j hj
    · rw [mem_singleton.mp hj]
      exact hi

/-- The item of the CPU itself is executed. -/
theorem runInline (hphase : call.phase = .issue (i :: rest)) (hview : ∀ j, j ≠ i → view' j = view j)
    (hqueued : (view' i).queued = 0) (hi : (view' i).failed = false) :
    CallInv { call with phase := .inline i rest } view' := by
  obtain ⟨hfresh, hsettled, hsame, hfailed⟩ := h.others hphase hview
  refine ⟨h.nodup, ?_, h.remote, h.targets, h.localTargets, hfresh, fun j hj hnot => ?_,
    fun j hj hrem hsync => ?_, hqueued, hi, hfailed⟩
  · have horder := h.order
    rw [hphase] at horder
    exact horder
  · refine hsettled j hj ?_
    rintro rfl
    exact hnot rest rfl
  · rw [hsame j hj]
    exact h.inline j hj hrem hsync

/-- What is kept when the execution on the CPU itself has come to its end. -/
theorem othersInline (hphase : call.phase = .inline i rest) (hphases : (view i).phases = []) :
    (∀ j ∈ rest, view j = View.fresh) ∧ (∀ j, j ∉ call.remote → (view j).Settled) ∧
      (view i).failed = false ∧ ∀ j ∈ call.remote, (view j).failed = false := by
  have hinv := h.phase
  have hfresh := h.fresh
  rw [hphase] at hinv hfresh
  refine ⟨hfresh, fun j hj => ?_, hinv.2⟩
  by_cases hji : j = i
  · rw [hji]
    exact ⟨hinv.1, hphases⟩
  · exact h.settled j hj fun r heq => hji (CallPhase.inline.inj (hphase.symm.trans heq)).1.symm

/-- The execution on the CPU itself has come to its end. -/
theorem endInline (hphase : call.phase = .inline i rest) (hphases : (view i).phases = [])
    (hdone : call.async = false → (view i).done = true) : CallInv { call with
      issued := call.issued ++ [i], targets := call.targets + 1,
      localTargets := call.localTargets + 1, phase := .issue rest } view := by
  obtain ⟨hfresh, hsettled, hi, hfailed⟩ := h.othersInline hphase hphases
  refine ⟨h.nodup, h.order_snoc (by rw [hphase]; rfl),
    h.remote.trans (sublist_append_left _ _), ?_, ?_,
    hfresh, fun j hj _ => hsettled j hj, fun j hj hrem hsync => ?_, hfailed⟩
  · simp only [length_append, length_singleton, h.targets]
  · have hlocal := h.localTargets
    simp only [length_append, length_singleton]
    omega
  · rcases mem_append.mp hj with hj | hj
    · exact h.inline j hj hrem hsync
    · rw [mem_singleton.mp hj]
      exact ⟨hdone hsync, hi⟩

/-- It has come to its end and the item is not done. -/
theorem endInline_skip (hphase : call.phase = .inline i rest) (hphases : (view i).phases = []) :
    CallInv { call with phase := .issue rest } view := by
  obtain ⟨hfresh, hsettled, -, hfailed⟩ := h.othersInline hphase hphases
  exact ⟨h.nodup, h.order_tail (by rw [hphase]; rfl), h.remote, h.targets, h.localTargets, hfresh,
    fun j hj _ => hsettled j hj, h.inline, hfailed⟩

end

end CallInv

variable {i : Cpu} {rest : List Cpu}

/-- A call changes its item for one CPU, which gives `t`, and goes on. -/
theorem XcallInv.ofItem (h : XcallInv s) {t : Xcalls} {call : Call} (hc : c < s.nextCall)
    (hnext : t.nextCall = s.nextCall) (hcalls : t.calls = s.calls)
    (hplaced : ∀ j x, x ∈ t.queues j → x.dst = j) (hviews : OnlyAt s t ⟨c, i⟩)
    (hlife : Life (look t ⟨c, i⟩)) (hcall : CallInv call (views t c)) :
    XcallInv (t.setCall c call) := by
  refine h.ofCall hnext hplaced (fun d hd => ?_) (fun x hx => hviews x fun heq => hx (by rw [heq]))
    (fun j => ?_) hc ?_
  · rw [← hcalls]
    exact update_of_ne hd ..
  · by_cases hj : j = i
    · rw [hj]
      exact hlife
    show Life (look t ⟨c, j⟩)
    rw [hviews ⟨c, j⟩ fun heq => hj (ItemId.mk.inj heq).2]
    exact h.life ⟨c, j⟩
  · have hself : (t.setCall c call).calls c = call := update_self ..
    rw [hself]
    exact hcall

theorem OnlyAt.views {j : Cpu} (h : OnlyAt s s' ⟨c, i⟩) (hj : j ≠ i) : views s' c j = views s c j :=
  h ⟨c, j⟩ fun heq => hj (ItemId.mk.inj heq).2

private theorem look_enqueue_self (s : Xcalls) (x : ItemId) (item : Item) :
    look (s.enqueue x item) x = { look s x with
      queued := (look s x).queued + 1, done := item.done, failed := item.failed,
      enqueued := (look s x).enqueued + 1 } := by
  simp only [look, Xcalls.enqueue, Xcalls.setItem, update_self, count_append, count_singleton_self]

private theorem look_enqueue_of_ne (s : Xcalls) {y : ItemId} (item : Item) (h : y ≠ x) :
    look (s.enqueue x item) y = look s y := by
  have hcount : ∀ l : List ItemId, (l ++ [x]).count y = l.count y := by
    intro l
    rw [count_append, count_singleton, if_neg (by simpa using Ne.symm h), Nat.add_zero]
  by_cases hj : y.dst = x.dst
  · simp only [look, Xcalls.enqueue, Xcalls.setItem, update_of_ne h, hj, update_self, hcount]
  · simp only [look, Xcalls.enqueue, Xcalls.setItem, update_of_ne h, update_of_ne hj]

/-- Issuing an item keeps the invariant. -/
theorem XcallInv.issueStep (h : XcallInv s) (hc : c < s.nextCall)
    (hphase : (s.calls c).phase = .issue (i :: rest)) (outcome : Issue) :
    XcallInv (s.issueStep c i rest outcome) := by
  have hcall := h.calls c hc
  have hfresh : look s ⟨c, i⟩ = View.fresh := hcall.fresh i (by rw [hphase]; exact mem_cons_self)
  have hsettled : (views s c i).Settled := by
    rw [views, hfresh]
    exact ⟨rfl, rfl⟩
  have hskip : XcallInv (s.goto c (.issue rest)) :=
    h.setCall hc (hcall.skip hphase (fun _ _ => rfl) hsettled)
  simp only [Xcalls.issueStep]
  -- a CPU that is skipped leaves its item as it was
  by_cases hskipped : outcome = .skipped
  · rw [if_pos hskipped]
    exact hskip
  rw [if_neg hskipped]
  -- the item for the caller's own CPU runs inline
  by_cases hlocal : i = (s.calls c).current
  · rw [if_pos hlocal]
    obtain ⟨t, ht⟩ : ∃ t : Xcalls, t = { s.setItem ⟨c, i⟩ (Xcalls.prepared (s.calls c)) with
      execs := s.execs ++ [⟨⟨c, i⟩, (s.calls c).cpu, .enter⟩] } := ⟨_, rfl⟩
    have honly : OnlyAt s t ⟨c, i⟩ := by
      intro y hy
      rw [ht, look_with_execs, phasesOf_append_of_ne s.execs hy]
      exact look_setItem_of_ne s _ hy
    have hself : look t ⟨c, i⟩ = ⟨0, [.enter], false, false, 0, 0, false, 0⟩ := by
      have hphases : phasesOf s.execs ⟨c, i⟩ = [] := congrArg View.phases hfresh
      have hexecs := phasesOf_append_self s.execs ⟨⟨c, i⟩, (s.calls c).cpu, .enter⟩
      have hitem := look_setItem_self s ⟨c, i⟩ (Xcalls.prepared (s.calls c))
      rw [hphases, nil_append] at hexecs
      rw [hfresh] at hitem
      rw [ht, look_with_execs, hexecs]
      exact congrArg (fun v : View => { v with phases := [.enter] }) hitem
    have hnew : XcallInv (t.setCall c { s.calls c with phase := .inline i rest }) := by
      refine h.ofItem hc (by rw [ht]; rfl) (by rw [ht]; rfl)
        (by rw [ht]; exact h.placed) honly ?_ ?_
      · rw [hself]
        exact .working 0 ⟨rfl, rfl⟩
      · exact hcall.runInline hphase (fun j hj => honly.views hj) (by rw [views, hself])
          (by rw [views, hself])
    rw [ht] at hnew
    exact hnew
  rw [if_neg hlocal]
  by_cases haccepted : outcome = .accepted
  · rw [if_pos haccepted]
    have hself : look (s.enqueue ⟨c, i⟩ { Xcalls.prepared (s.calls c) with queuedRemote := true })
        ⟨c, i⟩
        = ⟨1, [], false, false, 0, 0, false, 1⟩ := by
      rw [look_enqueue_self, hfresh]
      rfl
    refine h.ofItem hc rfl rfl (h.placed_update fun x hx => ?_)
      (fun y hy => look_enqueue_of_ne s _ hy) ?_ ?_
    · rcases mem_append.mp hx with hx | hx
      · exact h.placed i x hx
      · rw [mem_singleton.mp hx]
    · rw [hself]
      exact .queued false 1
    · refine hcall.accept hphase
        (fun j hj => OnlyAt.views (fun y hy => look_enqueue_of_ne s _ hy) hj) ?_
      rw [views, hself]
  rw [if_neg haccepted]
  -- refused: an asynchronous call drops the item, a synchronous one marks it failed and done
  by_cases hasync : (s.calls c).async = true
  · rw [if_pos hasync]
    exact hskip
  rw [if_neg hasync]
  have hself : look (s.setItem ⟨c, i⟩
      { Xcalls.prepared (s.calls c) with failed := true, done := true })
      ⟨c, i⟩ = ⟨0, [], true, true, 0, 0, false, 0⟩ := by
    rw [look_setItem_self, hfresh]
    rfl
  refine h.ofItem hc rfl rfl h.placed (fun y hy => look_setItem_of_ne s _ hy) ?_ ?_
  · rw [hself]
    exact .finished 0 (.inl rfl) (.inl ⟨rfl, rfl, rfl⟩) fun hc => (nomatch hc)
  · refine hcall.skip hphase
      (fun j hj => OnlyAt.views (fun y hy => look_setItem_of_ne s _ hy) hj) ?_
    rw [views, hself]
    exact ⟨rfl, rfl⟩

/-! ### Time-outs -/

/-- Marking an item as failed keeps the invariant. -/
theorem XcallInv.setFailed (h : XcallInv s) (hc : c < s.nextCall)
    (hphase : (s.calls c).phase = .setFailed i rest) :
    XcallInv ((s.setItem ⟨c, i⟩ { s.items ⟨c, i⟩ with failed := true }).goto c
      (.cancel i rest)) := by
  have hcall := h.calls c hc
  have hinv := hcall.phase
  rw [hphase] at hinv
  obtain ⟨seen, hseen, hdone⟩ := hinv
  obtain ⟨item, hitem⟩ : ∃ item : Item, item = { s.items ⟨c, i⟩ with failed := true } := ⟨_, rfl⟩
  rw [← hitem]
  have hself : look (s.setItem ⟨c, i⟩ item) ⟨c, i⟩ = { look s ⟨c, i⟩ with failed := true } := by
    rw [look_setItem_self, hitem]
    rfl
  have honly : OnlyAt s (s.setItem ⟨c, i⟩ item) ⟨c, i⟩ := fun y hy => look_setItem_of_ne s item hy
  refine h.ofItem hc rfl rfl h.placed honly ?_ ?_
  · rw [hself]
    exact (h.life _).fail
  · refine hcall.gotoWith hphase rfl rfl rfl
      (fun j hj => honly.views fun heq => hj (by simp [hseen, heq]))
      ⟨seen, hseen, fun j hj => ?_⟩
    by_cases hji : j = i
    · subst hji
      rw [views, hself]
      exact hdone j hj
    · rw [honly.views hji]
      exact hdone j hj

/-- The state behind a cancellation. -/
theorem cancelQueued_some (hcancel : s.cancelQueued x = some s') :
    x ∈ s.queues x.dst ∧ s' = { s.setItem x { s.items x with failed := true, done := true } with
      queues := update s.queues x.dst ((s.queues x.dst).erase x)
      cancelled := x :: s.cancelled } := by
  rw [Xcalls.cancelQueued] at hcancel
  split at hcancel
  · rename_i hcond
    exact ⟨hcond.1, (Option.some.inj hcancel).symm⟩
  · exact nomatch hcancel

private theorem look_cancel_self (h : XcallInv s) (hcancel : s.cancelQueued x = some s') :
    look s' x = ⟨0, [], true, true, 0, 0, true, (look s x).enqueued⟩ := by
  obtain ⟨hmem, rfl⟩ := cancelQueued_some hcancel
  have hview := (h.life x).of_queued (Nat.pos_iff_ne_zero.mp (count_pos_iff.mpr hmem))
  have hcount : (s.queues x.dst).count x = 1 := congrArg View.queued hview
  have hbegun : s.begun.count x = 0 := congrArg View.begun hview
  have hran : (s.ran.map Prod.fst).count x = 0 := congrArg View.ran hview
  have hphases : phasesOf s.execs x = [] := congrArg View.phases hview
  simp [look, Xcalls.setItem, hcount, hbegun, hran, hphases]

private theorem look_cancel_of_ne {y : ItemId} (hcancel : s.cancelQueued x = some s') (hy : y ≠ x) :
    look s' y = look s y := by
  obtain ⟨-, rfl⟩ := cancelQueued_some hcancel
  have hqueue : (update s.queues x.dst ((s.queues x.dst).erase x) y.dst).count y
      = (s.queues y.dst).count y := by
    by_cases hj : y.dst = x.dst
    · rw [hj, update_self, count_erase_of_ne hy]
    · rw [update_of_ne hj]
  simp [look, Xcalls.setItem, hqueue, hy]

/-- Cancelling an item keeps the invariant. -/
theorem XcallInv.cancel (h : XcallInv s) (hc : c < s.nextCall)
    (hphase : (s.calls c).phase = .cancel i rest) (hcancel : s.cancelQueued ⟨c, i⟩ = some s') :
    XcallInv (s'.goto c (.expire rest)) := by
  have hcall := h.calls c hc
  have hinv := hcall.phase
  rw [hphase] at hinv
  obtain ⟨seen, hseen, hdone⟩ := hinv
  have hself := look_cancel_self h hcancel
  have honly : OnlyAt s s' ⟨c, i⟩ := fun y hy => look_cancel_of_ne hcancel hy
  obtain ⟨-, hs'⟩ := cancelQueued_some hcancel
  have hcalls : s'.calls = s.calls := by rw [hs']; rfl
  rw [Xcalls.goto, hcalls]
  refine h.ofItem hc (by rw [hs']; rfl) hcalls ?_ honly ?_ ?_
  · rw [hs']
    exact h.placed_update fun x hx => h.placed i x (mem_of_mem_erase hx)
  · rw [hself]
    exact .finished _ (.inl rfl) (.inl ⟨rfl, rfl, rfl⟩) fun _ => rfl
  · refine hcall.gotoWith hphase rfl rfl rfl
      (fun j hj => honly.views fun heq => hj (by simp [hseen, heq]))
      ⟨seen ++ [i], by rw [hseen, append_assoc]; rfl, fun j hj => ?_⟩
    by_cases hji : j = i
    · rw [hji, views, hself]
    rw [honly.views hji]
    rcases mem_append.mp hj with hj | hj
    · exact hdone j hj
    · exact absurd (mem_singleton.mp hj) hji

/-! ### Every step keeps the invariant -/

/-- A step of a caller keeps the invariant. -/
theorem XcallInv.advance (h : XcallInv s) (hc : c < s.nextCall) (outcome : Issue)
    (timedOut : Bool) : XcallInv (s.advance c outcome timedOut) := by
  have hcall := h.calls c hc
  have hlife : ∀ i, Life (views s c i) := fun i => h.life ⟨c, i⟩
  have hinv := hcall.phase
  have hhalt : XcallInv { s with halted := true } := ⟨h.life, h.placed, h.unborn, h.calls⟩
  simp only [Xcalls.advance]
  -- one case for each phase of the call
  cases hphase : (s.calls c).phase with
  | issue rest =>
    cases rest with
    | nil => exact h.setCall hc (hcall.issueEnd hlife hphase)
    | cons i rest => exact h.issueStep hc hphase outcome
  | inline i rest =>
    dsimp only
    -- the call waits until its own execution is over
    by_cases hbusy : (s.execs.any fun e => e.item = ⟨c, i⟩) = true
    · rw [if_pos hbusy]
      exact h
    rw [if_neg hbusy]
    have hphases : (views s c i).phases = [] := by
      refine phasesOf_eq_nil.mpr fun e he heq => hbusy ?_
      exact any_eq_true.mpr ⟨e, he, decide_eq_true heq⟩
    by_cases hdone : ((s.calls c).async || (s.items ⟨c, i⟩).done) = true
    · rw [if_pos hdone]
      refine h.setCall hc (hcall.endInline hphase hphases fun hsync => ?_)
      rw [hsync, Bool.false_or] at hdone
      exact hdone
    · rw [if_neg hdone]
      exact h.setCall hc (hcall.endInline_skip hphase hphases)
  | scan rest n =>
    cases rest with
    | cons i rest => exact h.setCall hc (hcall.scan_cons hphase)
    | nil =>
      dsimp only
      rw [hphase] at hinv
      by_cases hn : n = (s.calls c).targets - (s.calls c).localTargets
      · rw [if_pos hn]
        exact h.setCall hc (hcall.scan_all hlife hphase hn)
      rw [if_neg hn]
      cases timedOut with
      | true =>
        exact h.setCall hc (hcall.goto hphase rfl rfl rfl ⟨[], rfl, fun j hj => (nomatch hj)⟩)
      | false => exact h.setCall hc (hcall.goto hphase rfl rfl rfl ⟨hinv.1, [], rfl, zero_le _⟩)
  | expire rest =>
    rw [hphase] at hinv
    obtain ⟨seen, hseen, hdone⟩ := hinv
    cases rest with
    | cons i rest =>
      dsimp only
      by_cases hi : (s.items ⟨c, i⟩).done = true
      · rw [if_pos hi]
        exact h.setCall hc (hcall.expire_next hphase rfl hseen hdone hi)
      · rw [if_neg hi]
        exact h.setCall hc (hcall.goto hphase rfl rfl rfl ⟨seen, hseen, hdone⟩)
    | nil =>
      rw [append_nil] at hseen
      exact h.setCall hc (hcall.goto hphase rfl rfl rfl ⟨hseen ▸ hdone, [], rfl, zero_le _⟩)
  | setFailed i rest => exact h.setFailed hc hphase
  | cancel i rest =>
    dsimp only
    cases hcancel : s.cancelQueued ⟨c, i⟩ with
    | some s' => exact h.cancel hc hphase hcancel
    | none =>
      rw [hphase] at hinv
      exact h.setCall hc (hcall.goto hphase rfl rfl rfl hinv)
  | quiesce i rest =>
    rw [hphase] at hinv
    obtain ⟨seen, hseen, hdone⟩ := hinv
    dsimp only
    by_cases hi : (s.items ⟨c, i⟩).done = true
    · rw [if_pos hi]
      exact h.setCall hc (hcall.expire_next hphase rfl hseen hdone hi)
    rw [if_neg hi]
    cases timedOut with
    | true => exact hhalt
    | false => exact h
  | tally rest n =>
    rw [hphase] at hinv
    obtain ⟨hdone, seen, hseen, hn⟩ := hinv
    cases rest with
    | cons i rest =>
      dsimp only
      by_cases hi : (s.items ⟨c, i⟩).done = true
      · rw [if_pos hi]
        exact h.setCall hc (hcall.goto hphase rfl rfl rfl ⟨hdone, hi, seen, hseen, hn⟩)
      · rw [if_neg hi]
        exact h.setCall hc (hcall.tally_next hphase rfl hdone hseen hn (.inl rfl))
    | nil =>
      rw [append_nil] at hseen
      exact h.setCall hc (hcall.goto hphase rfl rfl rfl fun _ => ⟨hdone, hseen ▸ hn⟩)
  | tallyFailed i rest n =>
    rw [hphase] at hinv
    obtain ⟨hdone, hi, seen, hseen, hn⟩ := hinv
    refine h.setCall hc (hcall.tally_next hphase rfl hdone hseen hn ?_)
    by_cases hfailed : (s.items ⟨c, i⟩).failed = true
    · rw [if_pos hfailed]
      exact .inl rfl
    · rw [if_neg hfailed]
      exact .inr ⟨rfl, (hlife i).ran_of_done hi (Bool.eq_false_iff.mpr hfailed)⟩
  | returned n => exact h

/-- Every event keeps the invariant. -/
theorem XcallInv.step (h : XcallInv s) (e : Xcalls.Event) : XcallInv (s.step e) := by
  unfold Xcalls.step
  split
  · exact h
  cases e with
  | call cpu requested started flags => exact h.smpRunOnMaskEx cpu requested started flags
  | advance c outcome timedOut =>
    dsimp only
    split
    · rename_i hc
      exact h.advance hc outcome timedOut
    · exact h
  | dequeue cpu required => exact h.dequeue cpu required
  | execute k stale => exact h.execute k stale

end Rabbitbone.Spec.Smp
