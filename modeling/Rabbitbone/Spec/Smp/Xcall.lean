import Mathlib.Data.List.Count
import Mathlib.Data.List.Nodup
import Rabbitbone.Native.Smp.Xcall

/-!
# The life of a cross-call item

An item is prepared, waits in the queue of its CPU, is taken out of it by one execution and is done
in the end; or it is executed at once, refused or cancelled.  `View` is what the state says about
one item, and `Life` lists the views that an item has in the course of its life.  A step changes the
view of one item, and `CallInv` says what a call knows about its items.
-/

namespace Rabbitbone.Spec.Smp

open Native.Smp Function Xcalls List

/-! ### Items -/

/-- What the state says about an item. -/
structure View where
  queued : Nat
  phases : List ExecPhase
  done : Bool
  failed : Bool
  begun : Nat
  ran : Nat
  cancelled : Bool
  enqueued : Nat

/-- An item that was not issued. -/
def View.fresh : View := ⟨0, [], false, false, 0, 0, false, 0⟩

/-- No CPU gets to the item any more. -/
def View.Settled (v : View) : Prop := v.queued = 0 ∧ v.phases = []

/-- The phases of the executions of an item. -/
def phasesOf (execs : List Exec) (x : ItemId) : List ExecPhase :=
  (execs.filter fun e => e.item = x).map Exec.phase

/-- The view of an item. -/
def look (s : Xcalls) (x : ItemId) : View where
  queued := (s.queues x.dst).count x
  phases := phasesOf s.execs x
  done := (s.items x).done
  failed := (s.items x).failed
  begun := s.begun.count x
  ran := (s.ran.map Prod.fst).count x
  cancelled := s.cancelled.contains x
  enqueued := (s.enqueued x.dst).count x

/-- At the end an item has failed before its function was called, or the function has run. -/
def Outcome (failed : Bool) (begun ran : Nat) : Prop :=
  (failed = true ∧ begun = 0 ∧ ran = 0) ∨ (begun = 1 ∧ ran = 1)

/-- How far the function of an item has come. -/
def Progress (failed : Bool) (begun ran : Nat) : ExecPhase → Prop
  | .inFn => begun = 1 ∧ ran = 0
  | .clearRunning => begun = 1 ∧ ran = 1
  | .setDone => Outcome failed begun ran
  | .readOwned => False
  | _ => begun = 0 ∧ ran = 0

/-- The views of an item in the course of its life. -/
inductive Life : View → Prop
  | fresh (failed : Bool) : Life ⟨0, [], false, failed, 0, 0, false, 0⟩
  | queued (failed : Bool) (n : Nat) : Life ⟨1, [], false, failed, 0, 0, false, n⟩
  | working {p : ExecPhase} {failed : Bool} {begun ran : Nat} (n : Nat)
      (hp : Progress failed begun ran p) : Life ⟨0, [p], false, failed, begun, ran, false, n⟩
  | finished {phases : List ExecPhase} {failed cancelled : Bool} {begun ran : Nat} (n : Nat)
      (hphases : phases = [] ∨ phases = [.readOwned]) (hout : Outcome failed begun ran)
      (hcancel : cancelled = true → begun = 0) :
      Life ⟨0, phases, true, failed, begun, ran, cancelled, n⟩

variable {p : ExecPhase} {x y : ItemId} {e : Exec} {s : Xcalls}

namespace Life

variable {v : View}

section

variable (h : Life v)
include h

/-- An item is begun at most once. -/
theorem begun_le_one : v.begun ≤ 1 := by
  cases h with
  | fresh failed | queued failed n => exact Nat.zero_le 1
  | @working p failed begun ran n hp =>
    cases p with
    | inFn | clearRunning => exact Nat.le_of_eq hp.1
    | setDone => rcases hp with ⟨-, hb, -⟩ | ⟨hb, -⟩ <;> simp only [hb] <;> omega
    | readOwned => exact hp.elim
    | enter | recheck | setRunning | callFn => simp only [hp.1]; omega
  | finished n hphases hout hcancel =>
    rcases hout with ⟨-, hb, -⟩ | ⟨hb, -⟩ <;> simp only [hb] <;> omega

/-- A cancelled item is never begun. -/
theorem begun_eq_zero_of_cancelled (hc : v.cancelled = true) : v.begun = 0 := by
  cases h with
  | fresh failed => rfl
  | queued failed n => rfl
  | working n hp => exact nomatch hc
  | finished n hphases hout hcancel => exact hcancel hc

/-- An item that is done and has not failed has run. -/
theorem ran_of_done (hd : v.done = true) (hf : v.failed = false) : v.ran = 1 := by
  cases h with
  | fresh failed | queued failed n | working n hp => exact nomatch hd
  | finished n hphases hout hcancel =>
    rcases hout with ⟨htrue, -⟩ | ⟨-, hran⟩
    · exact absurd (hf.symm.trans htrue) (by decide)
    · exact hran

/-- An item that is done is in no queue, and its only execution is at its end. -/
theorem of_done (hd : v.done = true) :
    v.queued = 0 ∧ (v.phases = [] ∨ v.phases = [.readOwned]) := by
  cases h with
  | fresh failed | queued failed n | working n hp => exact nomatch hd
  | finished n hphases hout hcancel => exact ⟨rfl, hphases⟩

/-- An item in a queue. -/
theorem of_queued (hq : v.queued ≠ 0) : v = ⟨1, [], false, v.failed, 0, 0, false, v.enqueued⟩ := by
  cases h with
  | fresh failed | working n hp | finished n hphases hout hcancel => exact absurd rfl hq
  | queued failed n => rfl

/-- An item has one execution at a time. -/
theorem phases_eq {a b : List ExecPhase} (hp : v.phases = a ++ p :: b) : a = [] ∧ b = [] := by
  have hlen : v.phases.length ≤ 1 := by
    cases h with
    | fresh failed | queued failed n => exact Nat.zero_le 1
    | working n hp => exact Nat.le_refl 1
    | finished n hphases hout hcancel =>
      rcases hphases with h | h <;> simp only [h, length_nil, length_singleton] <;> omega
  rw [hp, length_append, length_cons] at hlen
  constructor
  · exact length_eq_zero_iff.mp (by omega)
  · exact length_eq_zero_iff.mp (by omega)

/-- The item of an execution that is not at its end. -/
theorem of_phases (hp : v.phases = [p]) (hne : p ≠ .readOwned) :
    v.queued = 0 ∧ v.done = false ∧ v.cancelled = false ∧ Progress v.failed v.begun v.ran p := by
  cases h with
  | fresh failed | queued failed n => exact nomatch hp
  | working n hprog =>
    obtain rfl := singleton_injective hp
    exact ⟨rfl, rfl, rfl, hprog⟩
  | finished n hphases hout hcancel =>
    rcases hphases with hnil | hend
    · rw [hnil] at hp
      exact nomatch hp
    · rw [hend] at hp
      exact absurd (singleton_injective hp).symm hne

/-- The item of an execution at its end. -/
theorem of_readOwned (hp : v.phases = [.readOwned]) : Life { v with phases := [] } := by
  cases h with
  | fresh failed | queued failed n => exact nomatch hp
  | working n hprog =>
    obtain rfl := singleton_injective hp
    exact hprog.elim
  | finished n hphases hout hcancel => exact .finished n (.inl rfl) hout hcancel

/-- The execution of an item goes on. -/
theorem work {q : ExecPhase} (hp : v.phases = [p]) (hne : p ≠ .readOwned) {b r : Nat}
    (hq : Progress v.failed b r q) : Life { v with phases := [q], begun := b, ran := r } := by
  obtain ⟨hqueued, hdone, hcancelled, -⟩ := h.of_phases hp hne
  obtain ⟨queued, phases, done, failed, begun, ran, cancelled, n⟩ := v
  subst hqueued hdone hcancelled
  exact .working n hq

/-- The deadline of a call. -/
theorem fail : Life { v with failed := true } := by
  cases h with
  | fresh failed => exact .fresh true
  | queued failed n => exact .queued true n
  | @working p failed begun ran n hp =>
    refine .working n ?_
    cases p with
    | setDone =>
      rcases hp with ⟨-, hidle⟩ | hran
      · exact .inl ⟨rfl, hidle⟩
      · exact .inr hran
    | _ => exact hp
  | finished n hphases hout hcancel =>
    refine .finished n hphases ?_ hcancel
    rcases hout with ⟨-, hidle⟩ | hran
    · exact .inl ⟨rfl, hidle⟩
    · exact .inr hran

end

end Life

/-! ### What a step does to the views -/

theorem look_setItem_self (s : Xcalls) (x : ItemId) (item : Item) :
    look (s.setItem x item) x = { look s x with done := item.done, failed := item.failed } := by
  simp only [look, setItem, update_self]

theorem look_setItem_of_ne (s : Xcalls) (item : Item) (h : y ≠ x) :
    look (s.setItem x item) y = look s y := by
  simp only [look, setItem, update_of_ne h]

theorem phasesOf_append_self (execs : List Exec) (e : Exec) :
    phasesOf (execs ++ [e]) e.item = phasesOf execs e.item ++ [e.phase] := by
  simp [phasesOf]

theorem phasesOf_append_of_ne (execs : List Exec) (h : x ≠ e.item) :
    phasesOf (execs ++ [e]) x = phasesOf execs x := by
  simp [phasesOf, Ne.symm h]

private theorem phasesOf_split_self (l₁ l₂ : List Exec) (e : Exec) :
    phasesOf (l₁ ++ e :: l₂) e.item = phasesOf l₁ e.item ++ e.phase :: phasesOf l₂ e.item := by
  simp [phasesOf]

private theorem phasesOf_split_of_ne (l₁ l₂ : List Exec) (h : x ≠ e.item) :
    phasesOf (l₁ ++ e :: l₂) x = phasesOf (l₁ ++ l₂) x := by
  simp [phasesOf, Ne.symm h]

theorem mem_phasesOf {execs : List Exec} :
    p ∈ phasesOf execs x ↔ ∃ e ∈ execs, e.item = x ∧ e.phase = p := by
  simp [phasesOf, and_assoc]

theorem phasesOf_eq_nil {execs : List Exec} : phasesOf execs x = [] ↔ ∀ e ∈ execs, e.item ≠ x := by
  simp [phasesOf]

/-- Of the views only that of `x` changes. -/
def OnlyAt (s s' : Xcalls) (x : ItemId) : Prop := ∀ y, y ≠ x → look s' y = look s y

/-- How a step of another party changes the view of an item of a call. -/
structure Evolves (v v' : View) : Prop where
  queued : v.queued = 0 → v'.queued = 0
  done : v.done = true → v'.done = true
  failed : v'.failed = v.failed
  fresh : v = View.fresh → v' = View.fresh
  settled : v.Settled → v'.Settled
  ran : v.ran = 1 → v'.ran = 1

theorem Evolves.refl (v : View) : Evolves v v := ⟨id, id, rfl, id, id, id⟩

theorem Evolves.of_eq {v v' : View} (h : v' = v) : Evolves v v' := h ▸ Evolves.refl v'

/-- A step of an execution, or the start of one. -/
structure Works (s s' : Xcalls) (x : ItemId) : Prop where
  only : OnlyAt s s' x
  life : Life (look s' x)
  evolves : Evolves (look s x) (look s' x)

/-! ### Executions -/

private theorem set_getElem? {α : Type} {l : List α} {k : Nat} {a : α}
    (h : l[k]? = some a) (b : α) :
    ∃ l₁ l₂, l = l₁ ++ a :: l₂ ∧ l.set k b = l₁ ++ b :: l₂ ∧ l.eraseIdx k = l₁ ++ l₂ := by
  obtain ⟨hk, rfl⟩ := List.getElem?_eq_some_iff.mp h
  refine ⟨l.take k, l.drop (k + 1), ?_, ?_, ?_⟩
  · rw [getElem_cons_drop, take_append_drop]
  · rw [set_eq_take_append_cons_drop, if_pos hk]
  · exact eraseIdx_eq_take_drop_succ ..

/-- The state of an execution step apart from the executions. -/
theorem look_with_execs (s : Xcalls) (execs : List Exec) (x : ItemId) :
    look { s with execs := execs } x = { look s x with phases := phasesOf execs x } := rfl

private theorem phasesOf_append (l₁ l₂ : List Exec) (x : ItemId) :
    phasesOf (l₁ ++ l₂) x = phasesOf l₁ x ++ phasesOf l₂ x := by
  simp only [phasesOf, filter_append, map_append]

private theorem phasesOf_all {mid : List Exec} (h : ∀ m ∈ mid, m.item = x) :
    phasesOf mid x = mid.map Exec.phase := by
  rw [phasesOf, filter_eq_self.mpr fun m hm => decide_eq_true (h m hm)]

/-- An execution takes a step: it goes on or comes to its end. -/
theorem works_of_mid {t : Xcalls} {l₁ l₂ : List Exec} (mid : List Exec)
    (hlife : Life (look s e.item)) (hexecs : s.execs = l₁ ++ e :: l₂)
    (hmid : ∀ m ∈ mid, m.item = e.item) (honly : ∀ y, y ≠ e.item → look t y = look s y)
    (hnew : (look s e.item).phases = [e.phase] →
      Life { look t e.item with phases := mid.map Exec.phase })
    (hqueued : (look t e.item).queued = (look s e.item).queued)
    (hdone : (look s e.item).done = true → (look t e.item).done = true)
    (hfailed : (look t e.item).failed = (look s e.item).failed)
    (hran : (look s e.item).phases = [e.phase] → (look s e.item).ran = 1 →
      (look t e.item).ran = 1) :
    Works s { t with execs := l₁ ++ (mid ++ l₂) } e.item := by
  have hphases : (look s e.item).phases = phasesOf l₁ e.item ++ e.phase :: phasesOf l₂ e.item := by
    rw [look, hexecs, phasesOf_split_self]
  obtain ⟨ha, hb⟩ := hlife.phases_eq hphases
  rw [ha, hb, nil_append] at hphases
  have hview : look { t with execs := l₁ ++ (mid ++ l₂) } e.item
      = { look t e.item with phases := mid.map Exec.phase } := by
    rw [look_with_execs, phasesOf_append, phasesOf_append, ha, hb, nil_append, append_nil,
      phasesOf_all hmid]
  refine ⟨fun y hy => ?_, ?_, ?_⟩
  · have hsame : phasesOf (l₁ ++ (mid ++ l₂)) y = phasesOf s.execs y := by
      have hnil : phasesOf mid y = [] :=
        phasesOf_eq_nil.mpr fun m hm h => hy (h.symm.trans (hmid m hm))
      rw [hexecs, phasesOf_split_of_ne l₁ l₂ hy, phasesOf_append, phasesOf_append,
        phasesOf_append, hnil, nil_append]
    rw [look_with_execs, honly y hy, hsame]
    rfl
  · rw [hview]
    exact hnew hphases
  · refine ⟨fun hq => hqueued.trans hq, hdone, hfailed, fun hfresh => ?_,
      fun hset => ?_, hran hphases⟩
    · rw [hfresh] at hphases
      exact nomatch hphases
    · exact nomatch hset.2.symm.trans hphases

private theorem look_setItem_same (s : Xcalls) (item : Item) (hdone : item.done = (s.items x).done)
    (hfailed : item.failed = (s.items x).failed) (y : ItemId) :
    look (s.setItem x item) y = look s y := by
  by_cases hy : y = x
  · subst hy
    rw [look_setItem_self, hdone, hfailed]
    rfl
  · exact look_setItem_of_ne s item hy

private theorem look_begun_self (s : Xcalls) (x : ItemId) :
    look { s with begun := x :: s.begun } x = { look s x with begun := (look s x).begun + 1 } := by
  simp only [look, count_cons_self]

private theorem look_begun_of_ne (s : Xcalls) (h : y ≠ x) :
    look { s with begun := x :: s.begun } y = look s y := by
  simp only [look, count_cons_of_ne (Ne.symm h)]

private theorem look_ran_self (s : Xcalls) (x : ItemId) (cpu : Cpu) :
    look { s with ran := (x, cpu) :: s.ran } x = { look s x with ran := (look s x).ran + 1 } := by
  simp only [look, map_cons, count_cons_self]

private theorem look_ran_of_ne (s : Xcalls) (cpu : Cpu) (h : y ≠ x) :
    look { s with ran := (x, cpu) :: s.ran } y = look s y := by
  simp only [look, map_cons, count_cons_of_ne (Ne.symm h)]

/-- An execution goes on to another phase. -/
theorem works_of_set {t : Xcalls} {k : Nat} {q : ExecPhase} {b r : Nat}
    (hlife : Life (look s e.item)) (hk : s.execs[k]? = some e) (hne : e.phase ≠ .readOwned)
    (honly : ∀ y, y ≠ e.item → look t y = look s y)
    (hlook : look t e.item = { look s e.item with begun := b, ran := r })
    (hprog : Progress (look s e.item).failed (look s e.item).begun (look s e.item).ran e.phase →
      Progress (look s e.item).failed b r q ∧ ((look s e.item).ran = 1 → r = 1)) :
    Works s { t with execs := s.execs.set k { e with phase := q } } e.item := by
  obtain ⟨l₁, l₂, hexecs, hset, -⟩ := set_getElem? hk { e with phase := q }
  rw [hset]
  refine works_of_mid [{ e with phase := q }] hlife hexecs (by simp) honly (fun hp => ?_) ?_
    (fun hd => ?_) ?_ (fun hp hr => ?_)
  · rw [hlook]
    exact hlife.work hp hne (hprog (hlife.of_phases hp hne).2.2.2).1
  · rw [hlook]
  · rw [hlook]
    exact hd
  · rw [hlook]
  · rw [hlook]
    exact (hprog (hlife.of_phases hp hne).2.2.2).2 hr

/-- The item is done. -/
theorem Life.setDone {v : View} (h : Life v) (hp : v.phases = [.setDone]) :
    Life { v with phases := [.readOwned], done := true } := by
  obtain ⟨hqueued, hdone, hcancelled, hprog⟩ := h.of_phases hp (by decide)
  obtain ⟨queued, phases, done, failed, begun, ran, cancelled, n⟩ := v
  subst hqueued hcancelled
  exact .finished n (.inr rfl) hprog fun hc => nomatch hc

/-- What a step of an execution does to the items. -/
theorem works_execute (hlife : ∀ x, Life (look s x)) (k : Nat) (stale : Bool) :
    s.execute k stale = s ∨ ∃ x, Works s (s.execute k stale) x := by
  rw [execute]
  cases hk : s.execs[k]? with
  | none => exact .inl rfl
  | some e =>
    refine .inr ⟨e.item, ?_⟩
    have hx := hlife e.item
    have hself : ∀ y, y ≠ e.item → look s y = look s y := fun _ _ => rfl
    -- one case for each phase of the execution
    cases hphase : e.phase with
    | enter | recheck =>
      simp only [executeStep, hphase]
      refine works_of_set hx hk (by rw [hphase]; decide) hself rfl fun hprog => ⟨?_, id⟩
      rw [hphase] at hprog
      split
      · rename_i hfailed
        exact .inl ⟨hfailed, hprog⟩
      · exact hprog
    | setRunning =>
      simp only [executeStep, hphase]
      have hsame := look_setItem_same s { s.items e.item with running := true } rfl rfl
      refine works_of_set hx hk (by rw [hphase]; decide) (fun y _ => hsame y) (hsame _)
        fun hprog => ⟨?_, id⟩
      rw [hphase] at hprog
      exact hprog
    | callFn =>
      simp only [executeStep, hphase]
      refine works_of_set hx hk (by rw [hphase]; decide) (fun y hy => look_begun_of_ne s hy)
        (look_begun_self s e.item) fun hprog => ⟨?_, id⟩
      rw [hphase] at hprog
      exact ⟨by rw [hprog.1], hprog.2⟩
    | inFn =>
      simp only [executeStep, hphase]
      refine works_of_set hx hk (by rw [hphase]; decide) (fun y hy => look_ran_of_ne s e.cpu hy)
        (look_ran_self s e.item e.cpu) fun hprog => ?_
      rw [hphase] at hprog
      exact ⟨⟨hprog.1, by rw [hprog.2]⟩, fun _ => by rw [hprog.2]⟩
    | clearRunning =>
      simp only [executeStep, hphase]
      have hsame := look_setItem_same s { s.items e.item with running := false } rfl rfl
      refine works_of_set hx hk (by rw [hphase]; decide) (fun y _ => hsame y) (hsame _)
        fun hprog => ⟨?_, id⟩
      rw [hphase] at hprog
      exact .inr hprog
    | setDone =>
      simp only [executeStep, hphase]
      obtain ⟨l₁, l₂, hexecs, hset, -⟩ := set_getElem? hk { e with phase := .readOwned }
      rw [hset]
      refine works_of_mid [{ e with phase := .readOwned }] hx hexecs (by simp)
        (fun y hy => look_setItem_of_ne s _ hy) (fun hp => ?_) ?_ (fun _ => ?_) ?_ (fun _ hr => ?_)
      · rw [look_setItem_self]
        rw [hphase] at hp
        exact hx.setDone hp
      · rw [look_setItem_self]
      · rw [look_setItem_self]
      · rw [look_setItem_self]
        rfl
      · exact hr
    | readOwned =>
      -- the execution is over, whether it frees the item or not
      obtain ⟨l₁, l₂, hexecs, -, herase⟩ := set_getElem? hk e
      have hend : ∀ t : Xcalls, look t = look s →
          Works s { t with execs := s.execs.eraseIdx k } e.item := by
        intro t ht
        rw [herase]
        refine works_of_mid [] hx hexecs (by simp) (fun y _ => by rw [ht]) (fun hp => ?_) ?_
          (fun hd => ?_) ?_ (fun _ hr => ?_)
        · rw [ht]
          rw [hphase] at hp
          exact hx.of_readOwned hp
        · rw [ht]
        · rw [ht]
          exact hd
        · rw [ht]
        · rw [ht]
          exact hr
      simp only [executeStep, hphase]
      split
      · rename_i heq
        split at heq
        · exact nomatch (Prod.mk.inj heq).2
        · exact nomatch (Prod.mk.inj heq).2
      rename_i heq
      split at heq
      · rw [← (Prod.mk.inj heq).1]
        exact hend _ rfl
      · rw [← (Prod.mk.inj heq).1]
        exact hend _ rfl

/-! ### Queues -/

/-- The scan finds an item that matches, and no item in front of it has the same flags; with an
asynchronous item in hand it only stops at a synchronous one. -/
theorem dequeueScan_some {flags : ItemId → BitVec 32} {required : BitVec 32} {l : List ItemId}
    {first : Option ItemId} (h : dequeueScan flags required l first = some x) :
    first = some x ∨ ∃ l₁ l₂, l = l₁ ++ x :: l₂ ∧ (∀ y ∈ l₁, flags y ≠ flags x) ∧
      matchesDrain (flags x) required = true ∧ (first ≠ none → flags x &&& xcallAsync = 0) := by
  induction l generalizing first with
  | nil => exact .inl h
  | cons cur rest ih =>
    rw [dequeueScan] at h
    by_cases hmatch : matchesDrain (flags cur) required = true
    · rw [if_pos hmatch] at h
      by_cases hsync : flags cur &&& xcallAsync = 0
      · rw [if_pos hsync] at h
        obtain rfl := Option.some.inj h
        exact .inr ⟨[], rest, rfl, fun y hy => (nomatch hy), hmatch, fun _ => hsync⟩
      rw [if_neg hsync] at h
      rcases ih h with heq | ⟨l₁, l₂, rfl, hl₁, hx, hfirst⟩
      · cases first with
        | none =>
          obtain rfl := Option.some.inj heq
          exact .inr ⟨[], rest, rfl, fun y hy => (nomatch hy), hmatch, fun hne => absurd rfl hne⟩
        | some z => exact .inl heq
      -- the item that was found is synchronous, this one is not
      have hxsync := hfirst (by cases first <;> exact Option.some_ne_none _)
      refine .inr ⟨cur :: l₁, l₂, rfl, fun y hy => ?_, hx, fun _ => hxsync⟩
      rcases mem_cons.mp hy with rfl | hy
      · intro heq
        rw [heq] at hsync
        exact hsync hxsync
      · exact hl₁ y hy
    · rw [if_neg hmatch] at h
      rcases ih h with heq | ⟨l₁, l₂, rfl, hl₁, hx, hfirst⟩
      · exact .inl heq
      refine .inr ⟨cur :: l₁, l₂, rfl, fun y hy => ?_, hx, hfirst⟩
      rcases mem_cons.mp hy with rfl | hy
      · intro heq
        rw [heq] at hmatch
        exact hmatch hx
      · exact hl₁ y hy

/-- A CPU takes the first item with its flags out of its queue, or none. -/
theorem dequeue_cases (s : Xcalls) (cpu : Cpu) (required : BitVec 32) :
    s.dequeue cpu required = s ∨ ∃ x l₁ l₂, s.queues cpu = l₁ ++ x :: l₂ ∧
      (∀ y ∈ l₁, (s.items y).flags ≠ (s.items x).flags) ∧ s.dequeue cpu required = { s with
        queues := update s.queues cpu (l₁ ++ l₂)
        dequeued := update s.dequeued cpu (s.dequeued cpu ++ [x])
        execs := s.execs ++ [⟨x, cpu, .enter⟩] } := by
  rw [dequeue]
  cases hscan : dequeueScan (fun x => (s.items x).flags) required (s.queues cpu) none with
  | none => exact .inl rfl
  | some x =>
    rcases dequeueScan_some hscan with hnone | ⟨l₁, l₂, hqueue, hl₁, -⟩
    · exact nomatch hnone
    refine .inr ⟨x, l₁, l₂, hqueue, hl₁, ?_⟩
    have hnot : x ∉ l₁ := fun hx => hl₁ x hx rfl
    have herase : (s.queues cpu).erase x = l₁ ++ l₂ := by
      rw [hqueue, erase_append_right _ hnot, erase_cons_head]
    dsimp only
    rw [herase]

/-- An item that leaves its queue to be executed. -/
theorem works_dequeue (hlife : ∀ x, Life (look s x)) (hplaced : ∀ j x, x ∈ s.queues j → x.dst = j)
    {cpu : Cpu} {l₁ l₂ : List ItemId} (hqueue : s.queues cpu = l₁ ++ x :: l₂) :
    Works s { s with
      queues := update s.queues cpu (l₁ ++ l₂)
      dequeued := update s.dequeued cpu (s.dequeued cpu ++ [x])
      execs := s.execs ++ [⟨x, cpu, .enter⟩] } x := by
  have hdst : x.dst = cpu := hplaced cpu x (by rw [hqueue]; simp)
  subst hdst
  -- the item was in the queue once, and no CPU was at it
  have hcount : (look s x).queued = (l₁ ++ l₂).count x + 1 := by
    rw [look, hqueue]
    simp only [count_append, count_cons_self]
    omega
  have hx := (hlife x).of_queued (by omega)
  have hzero : (l₁ ++ l₂).count x = 0 := by
    have hone : (look s x).queued = 1 := by rw [hx]
    omega
  have hphases : phasesOf s.execs x = [] := by
    have hnil : (look s x).phases = [] := by rw [hx]
    exact hnil
  obtain ⟨s', hs'⟩ : ∃ s' : Xcalls, s' = { s with
    queues := update s.queues x.dst (l₁ ++ l₂)
    dequeued := update s.dequeued x.dst (s.dequeued x.dst ++ [x])
    execs := s.execs ++ [⟨x, x.dst, .enter⟩] } := ⟨_, rfl⟩
  rw [← hs']
  have hview : look s' x =
      ⟨0, [.enter], false, (look s x).failed, 0, 0, false, (look s x).enqueued⟩ := by
    have hview' : look s' x =
        { look s x with queued := (l₁ ++ l₂).count x, phases := [.enter] } := by
      have happend := phasesOf_append_self s.execs ⟨x, x.dst, .enter⟩
      rw [hphases, nil_append] at happend
      rw [hs', look]
      simp only [update_self, happend, look]
    rw [hview', hzero, hx]
  refine ⟨fun y hy => ?_, ?_, ?_⟩
  · have hexecs : phasesOf s'.execs y = phasesOf s.execs y := by
      rw [hs']
      exact phasesOf_append_of_ne s.execs hy
    have hqueues : (s'.queues y.dst).count y = (s.queues y.dst).count y := by
      rw [hs']
      dsimp only
      by_cases hj : y.dst = x.dst
      · rw [hj, update_self, hqueue, count_append, count_append, count_cons_of_ne (Ne.symm hy)]
      · rw [update_of_ne hj]
    rw [look, hexecs, hqueues, hs']
    rfl
  · rw [hview]
    exact .working _ ⟨rfl, rfl⟩
  · rw [hview, hx]
    exact ⟨fun _ => rfl, fun h => (nomatch h), rfl,
      fun h => absurd (congrArg View.queued h) Nat.one_ne_zero,
      fun h => absurd h.1 Nat.one_ne_zero, fun h => (nomatch h)⟩

end Rabbitbone.Spec.Smp
