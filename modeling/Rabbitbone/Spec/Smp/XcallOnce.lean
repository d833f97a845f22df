import Rabbitbone.Spec.Smp.XcallStack

/-!
# Each cross-call item once, and in order

A function is called at most once for an item and never for an item that was cancelled; the items
with the same flags come out of a queue in the order in which they came into it; and a synchronous
call that returns `n` has run its function on `n` of its CPUs.  The last point needs more than the
life of the items: `smp_run_on_mask_ex` executes the item of the CPU it takes for its own, and on a
CPU that cannot be a target it takes CPU 0 for it.
-/

namespace Rabbitbone.Spec.Smp

open Native.Smp Function List Xcalls

variable {s' s : Xcalls} {x : ItemId} {c : Nat} {l : List ItemId}

/-- How often the function of a call has come to its end on a CPU. -/
def runsOn (s : Xcalls) (c : Nat) (i : Cpu) : Nat := s.ran.countP fun r => r.1.call = c && r.2 = i

/-- The items of a list that have certain flags. -/
def withFlags (s : Xcalls) (flags : BitVec 32) (l : List ItemId) : List ItemId :=
  l.filter fun x => (s.items x).flags = flags

/-- What senders and draining CPUs can rely on. -/
structure CallsSound (s : Xcalls) : Prop where
  /-- The function of an item is called at most once, -/
  once : s.begun.Nodup
  /-- and not if the item was cancelled. -/
  cancelled : ∀ x ∈ s.cancelled, x ∉ s.begun
  /-- A synchronous call that returns `n` has run its function on `n` of its CPUs, -/
  completed : ∀ c < s.nextCall, (s.calls c).async = false → ∀ n, (s.calls c).phase = .returned n →
    ∃ cpus : List Cpu, cpus.Nodup ∧ n ≤ cpus.length ∧ ∀ i ∈ cpus, i ∈ (s.calls c).cpus ∧
      runsOn s c i = 1
  /-- once on each of those that were issued if it returns their number, -/
  issued : ∀ c < s.nextCall, (s.calls c).async = false →
    (s.calls c).phase = .returned (s.calls c).targets → ∀ i ∈ (s.calls c).issued, runsOn s c i = 1
  /-- and once on all of them if it returns the number of all. -/
  all : ∀ c < s.nextCall, (s.calls c).async = false →
    (s.calls c).phase = .returned (s.calls c).cpus.length → ∀ i ∈ (s.calls c).cpus, runsOn s c i = 1
  /-- An item comes into a queue once. -/
  enqueued : ∀ j, (s.enqueued j).Nodup
  /-- Of the items with the same flags, those that have left a queue came into it before those that
  are still there, and they left it in the order in which they came. -/
  fifo : ∀ j flags, (withFlags s flags (s.dequeued j ++ s.queues j)).Sublist
    (withFlags s flags (s.enqueued j))

/-- A synchronous call is made on a CPU that can be a target itself, or CPU 0 is not among its
targets. -/
def HomeCall (_ : Xcalls) (e : Event) : Prop :=
  ∀ cpu requested started flags, e = .call cpu requested started flags → flags &&& xcallAsync = 0 →
    started.getLsbD cpu.val = true ∨ (requested &&& started).getLsbD bootCpu.val = false

/-! ### The order of a queue -/

/-- What holds of the order of the items. -/
structure QueueInv (s : Xcalls) : Prop where
  placed : ∀ j, ∀ x ∈ s.enqueued j, x.dst = j
  nodup : ∀ j, (s.enqueued j).Nodup
  fifo : ∀ j flags, (withFlags s flags (s.dequeued j ++ s.queues j)).Sublist
    (withFlags s flags (s.enqueued j))

/-- What a step does to one queue. -/
inductive QueueStep (s s' : Xcalls) (j : Cpu) : Prop
  /-- Items are taken out to be cancelled, if at all. -/
  | keep (henq : s'.enqueued j = s.enqueued j) (hdeq : s'.dequeued j = s.dequeued j)
      (hqueue : (s'.queues j).Sublist (s.queues j))
  /-- A new item comes in at the end. -/
  | enqueue (x : ItemId) (hdst : x.dst = j) (hnew : x ∉ s.enqueued j)
      (henq : s'.enqueued j = s.enqueued j ++ [x]) (hdeq : s'.dequeued j = s.dequeued j)
      (hqueue : s'.queues j = s.queues j ++ [x])
  /-- The first item with its flags goes out. -/
  | dequeue (x : ItemId) (l₁ l₂ : List ItemId) (hsplit : s.queues j = l₁ ++ x :: l₂)
      (hfirst : ∀ y ∈ l₁, (s.items y).flags ≠ (s.items x).flags)
        (henq : s'.enqueued j = s.enqueued j)
      (hdeq : s'.dequeued j = s.dequeued j ++ [x]) (hqueue : s'.queues j = l₁ ++ l₂)

private theorem withFlags_append (s : Xcalls) (flags : BitVec 32) (l₁ l₂ : List ItemId) :
    withFlags s flags (l₁ ++ l₂) = withFlags s flags l₁ ++ withFlags s flags l₂ := filter_append ..

private theorem withFlags_congr (flags : BitVec 32)
    (h : ∀ x ∈ l, (s'.items x).flags = (s.items x).flags) :
    withFlags s' flags l = withFlags s flags l :=
  filter_congr fun x hx => by rw [h x hx]

/-- An item passes the ones with other flags. -/
theorem withFlags_pass (h : ∀ y ∈ l, (s.items y).flags ≠ (s.items x).flags)
    (flags : BitVec 32) : withFlags s flags ([x] ++ l) = withFlags s flags (l ++ [x]) := by
  rw [withFlags_append, withFlags_append]
  by_cases hx : (s.items x).flags = flags
  · have hnil : withFlags s flags l = [] := by
      refine filter_eq_nil_iff.mpr fun y hy hyf => h y hy ?_
      rw [hx]
      exact of_decide_eq_true hyf
    rw [hnil, append_nil, nil_append]
  · have hnil : withFlags s flags [x] = [] := by
      refine filter_eq_nil_iff.mpr fun y hy hyf => hx ?_
      rw [← mem_singleton.mp hy]
      exact of_decide_eq_true hyf
    rw [hnil, append_nil, nil_append]

/-- The items of a queue, and those that have left it, came into it. -/
theorem QueueInv.mem_enqueued (h : QueueInv s) {j : Cpu}
    (hx : x ∈ s.dequeued j ++ s.queues j) : x ∈ s.enqueued j := by
  have hmem : x ∈ withFlags s (s.items x).flags (s.dequeued j ++ s.queues j) :=
    mem_filter.mpr ⟨hx, decide_eq_true rfl⟩
  exact (mem_filter.mp ((h.fifo j _).subset hmem)).1

/-- A step of the queues keeps their order. -/
theorem QueueInv.step (h : QueueInv s) (hstep : ∀ j, QueueStep s s' j)
    (hflags : ∀ j, ∀ x ∈ s.enqueued j, (s'.items x).flags = (s.items x).flags) : QueueInv s' := by
  have hpast : ∀ j flags, withFlags s' flags (s.enqueued j) = withFlags s flags (s.enqueued j) :=
    fun j flags => withFlags_congr flags (hflags j)
  have hpart : ∀ j flags, withFlags s' flags (s.dequeued j ++ s.queues j)
      = withFlags s flags (s.dequeued j ++ s.queues j) :=
    fun j flags => withFlags_congr flags fun x hx => hflags j x (h.mem_enqueued hx)
  refine ⟨fun j => ?_, fun j => ?_, fun j flags => ?_⟩
  · cases hstep j with
    | keep henq hdeq hqueue | dequeue x l₁ l₂ hsplit hfirst henq hdeq hqueue =>
      rw [henq]; exact h.placed j
    | enqueue x hdst hnew henq hdeq hqueue =>
      intro y hy
      rw [henq] at hy
      rcases mem_append.mp hy with hy | hy
      · exact h.placed j y hy
      · rw [mem_singleton.mp hy, hdst]
  · cases hstep j with
    | keep henq hdeq hqueue | dequeue x l₁ l₂ hsplit hfirst henq hdeq hqueue =>
      rw [henq]; exact h.nodup j
    | enqueue x hdst hnew henq hdeq hqueue =>
      rw [henq, nodup_append_comm]
      exact nodup_cons.mpr ⟨hnew, h.nodup j⟩
  · cases hstep j with
    | keep henq hdeq hqueue =>
      rw [henq, hdeq, hpast]
      refine Sublist.trans ?_ (h.fifo j flags)
      rw [← hpart]
      exact ((Sublist.refl _).append hqueue).filter _
    | enqueue x hdst hnew henq hdeq hqueue =>
      rw [henq, hdeq, hqueue, ← append_assoc, withFlags_append s' flags (s.enqueued j),
        withFlags_append s' flags (s.dequeued j ++ s.queues j), hpast, hpart]
      exact (h.fifo j flags).append_right _
    | dequeue x l₁ l₂ hsplit hfirst henq hdeq hqueue =>
      have hmem : ∀ y ∈ x :: l₁, (s'.items y).flags = (s.items y).flags := by
        intro y hy
        refine hflags j y (h.mem_enqueued (mem_append_right _ ?_))
        rw [hsplit]
        rcases mem_cons.mp hy with rfl | hy
        · exact mem_append_right _ mem_cons_self
        · exact mem_append_left _ hy
      -- the item goes out as if the ones it passes had not been there
      have hpass := withFlags_pass (fun y hy => by
        rw [hmem y (mem_cons_of_mem _ hy), hmem x mem_cons_self]
        exact hfirst y hy) flags
      have hsame : withFlags s' flags (s'.dequeued j ++ s'.queues j)
          = withFlags s' flags (s.dequeued j ++ s.queues j) := by
        calc withFlags s' flags (s'.dequeued j ++ s'.queues j)
            = withFlags s' flags (s.dequeued j) ++
              (withFlags s' flags ([x] ++ l₁) ++ withFlags s' flags l₂) := by
              rw [hdeq, hqueue]
              simp only [withFlags_append, append_assoc]
          _ = withFlags s' flags (s.dequeued j) ++
            (withFlags s' flags (l₁ ++ [x]) ++ withFlags s' flags l₂) := by
              rw [hpass]
          _ = withFlags s' flags (s.dequeued j ++ s.queues j) := by
              rw [hsplit, ← withFlags_append, ← withFlags_append, append_assoc]
              rfl
      rw [hsame, henq, hpast, hpart]
      exact h.fifo j flags

/-- What a step does to the queues. -/
structure QueuesStep (s s' : Xcalls) : Prop where
  queue : ∀ j, QueueStep s s' j
  flags : ∀ j, ∀ x ∈ s.enqueued j, (s'.items x).flags = (s.items x).flags

/-- A step that leaves the queues alone. -/
theorem QueuesStep.of_eq (hqueues : s'.queues = s.queues) (henq : s'.enqueued = s.enqueued)
    (hdeq : s'.dequeued = s.dequeued)
    (hflags : ∀ j, ∀ x ∈ s.enqueued j, (s'.items x).flags = (s.items x).flags) : QueuesStep s s' :=
  ⟨fun j => .keep (congrFun henq j) (congrFun hdeq j) (by rw [hqueues]), hflags⟩

/-- A fresh item has not come into a queue. -/
theorem QueueInv.notMem_of_fresh (h : QueueInv s) (hx : look s x = View.fresh) (j : Cpu) :
    x ∉ s.enqueued j := by
  intro hmem
  have hzero : (s.enqueued x.dst).count x = 0 := congrArg View.enqueued hx
  rw [h.placed j x hmem] at hzero
  exact count_eq_zero.mp hzero hmem

private theorem flags_setItem_of_notMem (hx : ∀ j, x ∉ s.enqueued j) (item : Item) :
    ∀ j, ∀ y ∈ s.enqueued j, ((s.setItem x item).items y).flags = (s.items y).flags := by
  intro j y hy
  have hne : y ≠ x := fun heq => hx j (heq ▸ hy)
  simp only [setItem, update_of_ne hne]

private theorem flags_setItem_same (s : Xcalls) (x : ItemId) (item : Item)
    (h : item.flags = (s.items x).flags)
    (y : ItemId) : ((s.setItem x item).items y).flags = (s.items y).flags := by
  by_cases hy : y = x
  · subst hy
    simp only [setItem, update_self, h]
  · simp only [setItem, update_of_ne hy]

private theorem sublist_of_eq {α : Type} {l₁ l₂ : List α} (h : l₁ = l₂) :
    l₁.Sublist l₂ := h ▸ Sublist.refl l₁

private theorem queuesStep_issueStep (hq : QueueInv s) {i : Cpu} {rest : List Cpu}
    (hfresh : look s ⟨c, i⟩ = View.fresh) (outcome : Issue) :
    QueuesStep s (s.issueStep c i rest outcome) := by
  have hnew := hq.notMem_of_fresh hfresh
  simp only [issueStep]
  by_cases hskipped : outcome = .skipped
  · rw [if_pos hskipped]
    exact .of_eq rfl rfl rfl fun _ _ _ => rfl
  rw [if_neg hskipped]
  by_cases hlocal : i = (s.calls c).current
  · rw [if_pos hlocal]
    exact .of_eq rfl rfl rfl (flags_setItem_of_notMem hnew _)
  rw [if_neg hlocal]
  by_cases haccepted : outcome = .accepted
  · rw [if_pos haccepted]
    refine ⟨fun j => ?_, flags_setItem_of_notMem hnew _⟩
    by_cases hj : j = i
    · subst hj
      refine .enqueue ⟨c, j⟩ rfl (hnew j) ?_ rfl ?_
      · exact update_self ..
      · exact update_self ..
    · exact .keep (update_of_ne hj ..) rfl (sublist_of_eq (update_of_ne hj ..))
  rw [if_neg haccepted]
  by_cases hasync : (s.calls c).async = true
  · rw [if_pos hasync]
    exact .of_eq rfl rfl rfl fun _ _ _ => rfl
  · rw [if_neg hasync]
    exact .of_eq rfl rfl rfl (flags_setItem_of_notMem hnew _)

private theorem queuesStep_cancel (hcancel : s.cancelQueued x = some s') (c : Nat)
    (phase : CallPhase) : QueuesStep s (s'.goto c phase) := by
  obtain ⟨-, rfl⟩ := cancelQueued_some hcancel
  refine ⟨fun j => .keep rfl rfl ?_, fun j y _ =>
    flags_setItem_same s x { s.items x with failed := true, done := true } rfl y⟩
  by_cases hj : j = x.dst
  · subst hj
    have herase : update s.queues x.dst ((s.queues x.dst).erase x) x.dst =
        (s.queues x.dst).erase x :=
      update_self ..
    exact (sublist_of_eq herase).trans erase_sublist
  · exact sublist_of_eq (update_of_ne hj ..)

private theorem queuesStep_advance (h : XcallInv s) (hq : QueueInv s) (hc : c < s.nextCall)
    (outcome : Issue) (timedOut : Bool) : QueuesStep s (s.advance c outcome timedOut) := by
  have hgoto : ∀ phase, QueuesStep s (s.goto c phase) :=
    fun _ => .of_eq rfl rfl rfl fun _ _ _ => rfl
  have hrefl : QueuesStep s s := .of_eq rfl rfl rfl fun _ _ _ => rfl
  simp only [advance]
  -- only issuing and cancelling touch the queues
  cases hphase : (s.calls c).phase with
  | issue rest =>
    cases rest with
    | nil => exact hgoto _
    | cons i rest =>
      have hfresh := (h.calls c hc).fresh i (by rw [hphase]; exact mem_cons_self)
      exact queuesStep_issueStep hq hfresh outcome
  | inline i rest =>
    dsimp only
    split
    · exact hrefl
    split
    · exact .of_eq rfl rfl rfl fun _ _ _ => rfl
    · exact hgoto _
  | scan rest n =>
    cases rest with
    | cons i rest => exact hgoto _
    | nil =>
      dsimp only
      split
      · exact hgoto _
      · split <;> exact hgoto _
  | expire rest | tally rest n =>
    cases rest with
    | cons i rest => exact hgoto _
    | nil => exact hgoto _
  | setFailed i rest =>
    exact .of_eq rfl rfl rfl fun _ y _ =>
      flags_setItem_same s ⟨c, i⟩ { s.items ⟨c, i⟩ with failed := true } rfl y
  | cancel i rest =>
    dsimp only
    cases hcancel : s.cancelQueued ⟨c, i⟩ with
    | none => exact hgoto _
    | some s' => exact queuesStep_cancel hcancel c _
  | quiesce i rest =>
    dsimp only
    split
    · exact hgoto _
    split
    · exact .of_eq rfl rfl rfl fun _ _ _ => rfl
    · exact hrefl
  | tallyFailed i rest n => exact hgoto _
  | returned n => exact hrefl

private theorem queuesStep_dequeue (s : Xcalls) (cpu : Cpu) (required : BitVec 32) :
    QueuesStep s (s.dequeue cpu required) := by
  rcases dequeue_cases s cpu required with heq | ⟨x, l₁, l₂, hqueue, hfirst, heq⟩
  · rw [heq]
    exact .of_eq rfl rfl rfl fun _ _ _ => rfl
  rw [heq]
  refine ⟨fun j => ?_, fun _ _ _ => rfl⟩
  by_cases hj : j = cpu
  · subst hj
    refine .dequeue x l₁ l₂ hqueue hfirst rfl ?_ ?_
    · exact update_self ..
    · exact update_self ..
  · exact .keep rfl (update_of_ne hj ..) (sublist_of_eq (update_of_ne hj ..))

/-! ### The CPU of an execution -/

/-- What a step of an execution leaves alone, and what it adds to the functions that have run. -/
theorem executeStep_history (s : Xcalls) (e : Exec) (stale : Bool) :
    (s.executeStep e stale).1.enqueued = s.enqueued ∧
      (s.executeStep e stale).1.dequeued = s.dequeued ∧
      (∀ x, ((s.executeStep e stale).1.items x).flags = (s.items x).flags) ∧
      ∀ r ∈ (s.executeStep e stale).1.ran, r ∈ s.ran ∨ r = (e.item, e.cpu) := by
  obtain ⟨item, cpu, p⟩ := e
  cases p with
  | readOwned =>
    simp only [executeStep]
    split <;> exact ⟨rfl, rfl, fun _ => rfl, fun _ hr => .inl hr⟩
  | setRunning =>
    exact ⟨rfl, rfl, flags_setItem_same s item { s.items item with running := true } rfl,
      fun _ hr => .inl hr⟩
  | clearRunning =>
    exact ⟨rfl, rfl, flags_setItem_same s item { s.items item with running := false } rfl,
      fun _ hr => .inl hr⟩
  | setDone =>
    exact ⟨rfl, rfl, flags_setItem_same s item { s.items item with done := true } rfl,
      fun _ hr => .inl hr⟩
  | inFn => exact ⟨rfl, rfl, fun _ => rfl, fun _ hr => (mem_cons.mp hr).symm⟩
  | enter | recheck | callFn => exact ⟨rfl, rfl, fun _ => rfl, fun _ hr => .inl hr⟩

private theorem execute_history (s : Xcalls) (k : Nat) (stale : Bool) :
    QueuesStep s (s.execute k stale) ∧
      ∀ r ∈ (s.execute k stale).ran, r ∈ s.ran ∨ ∃ e ∈ s.execs, r = (e.item, e.cpu) := by
  have hqueues := (execute_frame s k stale).1
  rw [execute] at hqueues ⊢
  cases hk : s.execs[k]? with
  | none => exact ⟨.of_eq rfl rfl rfl fun _ _ _ => rfl, fun _ hr => .inl hr⟩
  | some e =>
    rw [hk] at hqueues
    obtain ⟨henq, hdeq, hflags, hran⟩ := executeStep_history s e stale
    have hnew : ∀ r ∈ (s.executeStep e stale).1.ran, r ∈ s.ran ∨
        ∃ e ∈ s.execs, r = (e.item, e.cpu) :=
      fun r hr => (hran r hr).imp_right fun heq => ⟨e, mem_of_getElem? hk, heq⟩
    dsimp only at hqueues ⊢
    split
    · rename_i s' p heq
      rw [heq] at henq hdeq hflags hnew hqueues
      exact ⟨.of_eq hqueues henq hdeq fun _ x _ => hflags x, hnew⟩
    rename_i s' heq
    rw [heq] at henq hdeq hflags hnew hqueues
    exact ⟨.of_eq hqueues henq hdeq fun _ x _ => hflags x, hnew⟩

/-- What holds in every state of a run with calls on CPUs that can be targets. -/
structure OnceInv (s : Xcalls) : Prop where
  inv : XcallInv s
  queue : QueueInv s
  /-- An item of a synchronous call is executed on its CPU. -/
  execs : ∀ e ∈ s.execs, (s.calls e.item.call).async = false → e.cpu = e.item.dst
  ran : ∀ r ∈ s.ran, (s.calls r.1.call).async = false → r.2 = r.1.dst
  /-- The CPU that a call takes for its own is its own, or it is no target. -/
  home : ∀ c < s.nextCall, (s.calls c).async = false →
    (s.calls c).current = (s.calls c).cpu ∨ (s.calls c).current ∉ (s.calls c).cpus

/-- A function that has run belongs to a call that was made. -/
theorem XcallInv.call_lt_of_ran (h : XcallInv s) {r : ItemId × Cpu} (hr : r ∈ s.ran) :
    r.1.call < s.nextCall := by
  rw [← Nat.not_le]
  intro hle
  have hzero : (s.ran.map Prod.fst).count r.1 = 0 := congrArg View.ran (h.unborn r.1 hle)
  exact count_eq_zero.mp hzero (mem_map_of_mem hr)

/-- On a CPU a synchronous call has run its function as often as the item for the CPU says. -/
theorem OnceInv.runsOn_eq (h : OnceInv s) (hsync : (s.calls c).async = false) (i : Cpu) :
    runsOn s c i = (views s c i).ran := by
  have hcongr : ∀ r ∈ s.ran, (r.1.call = c && r.2 = i) = true ↔ (r.1 == ⟨c, i⟩) = true := by
    intro r hr
    simp only [Bool.and_eq_true, decide_eq_true_eq, beq_iff_eq]
    constructor
    · rintro ⟨rfl, rfl⟩
      rw [h.ran r hr hsync]
    · intro heq
      have hcall : r.1.call = c := by rw [heq]
      refine ⟨hcall, ?_⟩
      rw [h.ran r hr (by rw [hcall]; exact hsync), heq]
  rw [runsOn, countP_congr hcongr]
  simp only [views, look, count, countP_map, comp_def]

/-- The invariant says that the calls are sound. -/
theorem OnceInv.sound (h : OnceInv s) : CallsSound s where
  once := nodup_iff_count_le_one.mpr fun x => (h.inv.life x).begun_le_one
  cancelled := fun x hx => count_eq_zero.mp
    ((h.inv.life x).begun_eq_zero_of_cancelled (contains_iff_mem.mpr hx))
  completed := by
    intro c hc hsync n hphase
    have hcall := h.inv.calls c hc
    have hinv := hcall.phase
    rw [hphase] at hinv
    have hsub := (sublist_append_left _ _).trans hcall.order
    refine ⟨(s.calls c).issued.filter fun i => (views s c i).ran = 1,
      (hsub.nodup hcall.nodup).filter _, ?_, fun i hi => ?_⟩
    · rw [← countP_eq_length_filter]
      exact (hinv hsync).2
    · obtain ⟨hi, hran⟩ := mem_filter.mp hi
      rw [h.runsOn_eq hsync]
      exact ⟨hsub.subset hi, of_decide_eq_true hran⟩
  issued := by
    intro c hc hsync hphase i hi
    have hcall := h.inv.calls c hc
    have hinv := hcall.phase
    rw [hphase] at hinv
    rw [h.runsOn_eq hsync]
    have hall : (s.calls c).issued.countP (fun i => (views s c i).ran = 1) =
        (s.calls c).issued.length :=
      Nat.le_antisymm countP_le_length (hcall.targets ▸ (hinv hsync).2)
    exact of_decide_eq_true (countP_eq_length.mp hall i hi)
  all := by
    intro c hc hsync hphase i hi
    have hcall := h.inv.calls c hc
    have hinv := hcall.phase
    rw [hphase] at hinv
    have hsub := (sublist_append_left _ _).trans hcall.order
    have hlen : (s.calls c).cpus.length ≤ (s.calls c).issued.length :=
      Nat.le_trans (hinv hsync).2 countP_le_length
    have heq := hsub.eq_of_length_le hlen
    rw [h.runsOn_eq hsync]
    rw [← heq] at hi
    have hall : (s.calls c).issued.countP (fun i => (views s c i).ran = 1) =
        (s.calls c).issued.length :=
      Nat.le_antisymm countP_le_length (heq.symm ▸ (hinv hsync).2)
    exact of_decide_eq_true (countP_eq_length.mp hall i hi)
  enqueued := h.queue.nodup
  fifo := h.queue.fifo

private theorem onceInv_start (cpuCount : Nat) : OnceInv (start cpuCount) where
  inv := xcallInv_start cpuCount
  queue := ⟨fun _ _ hx => (nomatch hx), fun _ => nodup_nil, fun _ _ => Sublist.refl _⟩
  execs := fun _ he => (nomatch he)
  ran := fun _ hr => (nomatch hr)
  home := fun _ hc => absurd hc (Nat.not_lt_zero _)

/-! ### One step -/

namespace OnceInv

variable {s : Xcalls}

/-- A call that can be made keeps the CPU it takes for its own. -/
theorem call (h : OnceInv s) {cpu : Cpu} {requested started flags : BitVec 32}
    (hhome : HomeCall s (.call cpu requested started flags)) :
    OnceInv (s.smpRunOnMaskEx cpu requested started flags) := by
  have hinv := h.inv.smpRunOnMaskEx cpu requested started flags
  obtain ⟨hexecs, hcalls⟩ := smpRunOnMaskEx_frame s cpu requested started flags
  simp only [smpRunOnMaskEx] at hinv hexecs hcalls ⊢
  by_cases hzero : requested &&& started = 0
  · rw [if_pos hzero]
    exact h
  rw [if_neg hzero] at hinv hexecs hcalls ⊢
  refine ⟨hinv, ⟨h.queue.placed, h.queue.nodup, h.queue.fifo⟩, fun e he hsync => ?_,
    fun r hr hsync => ?_, fun c hc hsync => ?_⟩
  · rw [hcalls _ (h.inv.call_lt_of_exec he)] at hsync
    exact h.execs e he hsync
  · rw [hcalls _ (h.inv.call_lt_of_ran hr)] at hsync
    exact h.ran r hr hsync
  · by_cases hnew : c = s.nextCall
    · subst hnew
      simp only [setCall, update_self] at hsync ⊢
      have hflags : flags &&& xcallAsync = 0 := by simpa [Call.async] using hsync
      by_cases hstarted : started.getLsbD cpu.val = true
      · left
        rw [hstarted]
        rfl
      rcases hhome cpu requested started flags rfl hflags with hcpu | hboot
      · exact absurd hcpu hstarted
      -- CPU 0 is no target, and no CPU is its own target without being started
      right
      intro hmem
      obtain ⟨-, hbit⟩ := Bool.and_eq_true_iff.mp (mem_filter.mp hmem).2
      split at hbit
      · rw [hboot] at hbit
        cases hbit
      · rw [BitVec.getLsbD_and] at hbit
        exact hstarted (Bool.and_eq_true_iff.mp hbit).2
    · have hold : c < s.nextCall := Nat.lt_of_le_of_ne (Nat.le_of_lt_succ hc) hnew
      rw [hcalls c hold] at hsync ⊢
      exact h.home c hold hsync

/-- A step of a caller keeps the invariant. -/
theorem advance (h : OnceInv s) (hc : c < s.nextCall) (outcome : Issue) (timedOut : Bool) :
    OnceInv (s.advance c outcome timedOut) := by
  have hstep := callStep_advance s c outcome timedOut
  have hqueues := queuesStep_advance h.inv h.queue hc outcome timedOut
  have hasync : ∀ d, ((s.advance c outcome timedOut).calls d).async = (s.calls d).async := by
    intro d
    by_cases hd : d = c
    · rw [hd, hstep.async]
    · rw [hstep.others d hd]
  refine ⟨h.inv.advance hc outcome timedOut, h.queue.step hqueues.queue hqueues.flags,
    fun e he hsync => ?_, fun r hr hsync => ?_, fun d hd hsync => ?_⟩
  · rw [hasync] at hsync
    rcases hstep.execs with hexecs | ⟨i, rest, hphase, hi, -, hexecs⟩
    · rw [hexecs] at he
      exact h.execs e he hsync
    rw [hexecs] at he
    rcases mem_append.mp he with he | he
    · exact h.execs e he hsync
    -- the call executes the item of the CPU it takes for its own, which is a target
    rw [mem_singleton.mp he] at hsync ⊢
    have hmem : i ∈ (s.calls c).cpus := by
      refine (h.inv.calls c hc).order.subset (mem_append_right _ ?_)
      rw [hphase]
      exact mem_cons_self
    rcases h.home c hc hsync with hcpu | hnot
    · rw [← hcpu, hi]
    · exact absurd (hi ▸ hmem) hnot
  · rw [hasync] at hsync
    rw [hstep.ran] at hr
    exact h.ran r hr hsync
  · rw [hasync] at hsync
    rw [hstep.nextCall] at hd
    by_cases hdc : d = c
    · subst hdc
      rw [hstep.current, hstep.cpu, hstep.cpus]
      exact h.home d hd hsync
    · rw [hstep.others d hdc]
      exact h.home d hd hsync

/-- Taking an item from a queue keeps the invariant. -/
theorem dequeue (h : OnceInv s) (cpu : Cpu) (required : BitVec 32) :
    OnceInv (s.dequeue cpu required) := by
  have hinv := h.inv.dequeue cpu required
  have hqueues := queuesStep_dequeue s cpu required
  have hqueue := h.queue.step hqueues.queue hqueues.flags
  rcases dequeue_cases s cpu required with heq | ⟨x, l₁, l₂, hsplit, -, heq⟩
  · rw [heq]
    exact h
  rw [heq] at hinv hqueue ⊢
  refine ⟨hinv, hqueue, fun e he hsync => ?_, h.ran, h.home⟩
  rcases mem_append.mp he with he | he
  · exact h.execs e he hsync
  · rw [mem_singleton.mp he]
    exact (h.inv.placed cpu x (by rw [hsplit]; simp)).symm

/-- A step of an execution keeps the invariant. -/
theorem execute (h : OnceInv s) (k : Nat) (stale : Bool) : OnceInv (s.execute k stale) := by
  obtain ⟨hqueues, hran⟩ := execute_history s k stale
  obtain ⟨-, hcalls, hnext⟩ := execute_frame s k stale
  refine ⟨h.inv.execute k stale, h.queue.step hqueues.queue hqueues.flags, fun e he hsync => ?_,
    fun r hr hsync => ?_, ?_⟩
  · obtain ⟨e₀, he₀, hitem, hcpu⟩ := mem_execs_execute he
    rw [hcalls, ← hitem] at hsync
    rw [← hcpu, ← hitem]
    exact h.execs e₀ he₀ hsync
  · rw [hcalls] at hsync
    rcases hran r hr with hr | ⟨e, he, rfl⟩
    · exact h.ran r hr hsync
    · exact h.execs e he hsync
  · rw [hcalls, hnext]
    exact h.home

/-- Every event keeps the invariant, if synchronous calls are made at home. -/
theorem step (h : OnceInv s) {ev : Event} (hhome : HomeCall s ev) : OnceInv (s.step ev) := by
  unfold Xcalls.step
  by_cases hhalted : s.halted = true
  · rw [if_pos hhalted]
    exact h
  rw [if_neg hhalted]
  cases ev with
  | call cpu requested started flags => exact h.call hhome
  | advance c outcome timedOut =>
    dsimp only
    by_cases hc : c < s.nextCall
    · rw [if_pos hc]
      exact h.advance hc outcome timedOut
    · rw [if_neg hc]
      exact h
  | dequeue cpu required => exact h.dequeue cpu required
  | execute k stale => exact h.execute k stale

end OnceInv

/-- In a run of any length in which each synchronous call is made on a CPU that can be a target, or
without CPU 0 among its targets, senders and draining CPUs can rely on their queues. -/
theorem calls_sound_of_home {cpuCount : Nat} {evs : List Event}
    (h : Run.Allowed Xcalls.step HomeCall (start cpuCount) evs) :
    Run.Always Xcalls.step CallsSound (start cpuCount) evs :=
  Run.always_of_allowed (I := OnceInv) (fun _ h => h.sound) (fun _ _ h hhome => h.step hhome)
    (onceInv_start cpuCount) h

/-- CPU 0 calls a function on CPU 1 and waits until CPU 1 has executed the item. -/
def homeCall : List Event :=
  [.call bootCpu 0b10 0b11 0, .advance 0 .accepted false, .advance 0 .accepted false,
    .dequeue secondCpu 0, .execute 0 false, .execute 0 false, .execute 0 false, .execute 0 false,
    .execute 0 false, .execute 0 false, .execute 0 false, .execute 0 false,
      .advance 0 .accepted false,
    .advance 0 .accepted false]

/-- The function runs on CPU 1 and the call returns 1. -/
theorem calls_sound_home_call : Run.Always Xcalls.step CallsSound (start 2) homeCall ∧
      (homeCall.foldl Xcalls.step (start 2)).ran = [⟨⟨0, secondCpu⟩, secondCpu⟩] ∧
      ((homeCall.foldl Xcalls.step (start 2)).calls 0).phase = .returned 1 := by
  refine ⟨calls_sound_of_home ⟨fun cpu requested started flags heq _ => ?_, ?_⟩, by decide +kernel⟩
  · obtain ⟨rfl, rfl, rfl, rfl⟩ := Event.call.inj heq
    exact .inl (by decide)
  · -- no other event of the run is a call
    simp [Run.Allowed, HomeCall]

/-! ### A call on a CPU that cannot be a target -/

/-- CPU 1 is not started yet and calls a function on CPU 0. -/
def awayCall : List Event :=
  [.call secondCpu 0b1 0b1 0, .advance 0 .accepted false, .execute 0 false, .execute 0 false,
    .execute 0 false, .execute 0 false, .execute 0 false, .execute 0 false, .execute 0 false,
    .execute 0 false, .advance 0 .accepted false, .advance 0 .accepted false]

/-- The call returns 1 and its function has run on CPU 1 only. -/
theorem runs_on_the_wrong_cpu : ¬CallsSound (awayCall.foldl Xcalls.step (start 2)) := by
  have hcall : (awayCall.foldl Xcalls.step (start 2)).calls 0
      = ⟨⟨1, by decide⟩, ⟨0, by decide⟩, [⟨0, by decide⟩], 0, [⟨0, by decide⟩], [], 1, 1,
        .returned 1⟩ := by
    decide +kernel
  have hnext : 0 < (awayCall.foldl Xcalls.step (start 2)).nextCall := by decide +kernel
  intro h
  have hall := h.all 0 hnext (by rw [hcall]; decide) (by rw [hcall]; rfl) ⟨0, by decide⟩
    (by rw [hcall]; exact mem_singleton_self _)
  exact absurd hall (by decide)

end Rabbitbone.Spec.Smp
