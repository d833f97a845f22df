import Rabbitbone.Spec.Ext4.NameTree

/-!
# Names and the orphan list

The orphan list starts at `s_last_orphan` and goes on with the field `i_dtime` of its inodes.  When
the volume is mounted, the inodes on it are destroyed, so none of them should have a name.

A call that fails undoes what it has done.  As long as it has not put an inode on the list, every
state that it goes through is *quiet*: the list is as it was, and whatever has a name had one
before.
-/

namespace Rabbitbone.Spec.Ext4

open Native.Ext4 Native.Path FallibleState Relation Function NameInode List Keeps

/-- The inode behind `a` on an orphan list. -/
def OrphanNext (t : NameFs) (a b : Nat) : Prop := a ≠ 0 ∧ b = (t.inodes a).dtime

/-- The inode `i` is on the list that starts at `a`. -/
def OrphanFrom (t : NameFs) (a i : Nat) : Prop := i ≠ 0 ∧ ReflTransGen (OrphanNext t) a i

/-- The inode is on the orphan list. -/
def OnOrphanList (t : NameFs) (i : Nat) : Prop := OrphanFrom t t.lastOrphan i

/-- No inode with a name is on the orphan list. -/
def NamesNotOrphaned (t : NameFs) : Prop := ∀ x ∈ edges t, ¬OnOrphanList t x.2

variable {a i d child : Nat} {inode dir : NameInode} {l : List DirEntry} {name : List UInt8}
  {type : UInt8} {e : DirEntry}

section

variable {t s : NameFs} {ino : Nat}

/-- A list that does not lead to the one inode that differs is the same list. -/
theorem orphanFrom_of_dtime (hdtime : ∀ j, j ≠ ino → (s.inodes j).dtime = (t.inodes j).dtime)
    (hino : ino ≠ 0 → ¬ReflTransGen (OrphanNext t) a ino) (h : ReflTransGen (OrphanNext s) a i) :
    ReflTransGen (OrphanNext t) a i := by
  induction h with
  | refl => exact ReflTransGen.refl
  | @tail b c _ hbc ih =>
    have hb : b ≠ ino := by
      rintro rfl
      exact hino hbc.1 ih
    exact ih.tail ⟨hbc.1, hbc.2.trans (hdtime b hb)⟩

/-- The list from an inode on. -/
theorem orphanFrom_head (hino : ino ≠ 0) :
    OrphanFrom s ino i ↔ i = ino ∨ OrphanFrom s (s.inodes ino).dtime i := by
  constructor
  · rintro ⟨hi, hpath⟩
    obtain heq | ⟨b, hb, hrest⟩ := ReflTransGen.cases_head hpath
    · exact Or.inl heq.symm
    · exact Or.inr ⟨hi, hb.2 ▸ hrest⟩
  · rintro (rfl | ⟨hi, hpath⟩)
    · exact ⟨hino, ReflTransGen.refl⟩
    · exact ⟨hi, ReflTransGen.head ⟨hino, rfl⟩ hpath⟩

private theorem not_orphanFrom_zero : ¬OrphanFrom s 0 i := by
  rintro ⟨hi, hpath⟩
  obtain heq | ⟨b, hb, -⟩ := ReflTransGen.cases_head hpath
  · exact hi heq.symm
  · exact hb.1 rfl

/-- An empty list has no inode that has a name. -/
theorem namesNotOrphaned_of_empty (h : s.lastOrphan = 0) : NamesNotOrphaned s := fun x _ hx => by
  rw [OnOrphanList, h] at hx
  exact not_orphanFrom_zero hx

/-! ### Quiet states -/

/-- A state of a call on `t` that has changed no orphan list, and of the inodes on one at most
`ino`. -/
structure Quiet (t : NameFs) (ino : Nat) (s : NameFs) : Prop where
  count : s.inodesCount = t.inodesCount
  used : s.used = t.used
  kind : ∀ i, (s.inodes i).isDir = true → (t.inodes i).isDir = true
  names : ∀ d, Live t d → ∀ e ∈ s.dirs d, nameIsDot e.name = false → 0 < nameCount t e.ino
  head : s.lastOrphan = t.lastOrphan
  dtime : ∀ i, i ≠ ino → (s.inodes i).dtime = (t.inodes i).dtime

/-- An inode with a name had one before. -/
theorem Quiet.named (h : Quiet t ino s) {x : Nat × Nat} (hx : x ∈ edges s) :
    0 < nameCount t x.2 := by
  obtain ⟨-, hlive, e, hmem, hdot, hino⟩ := mem_edges.mp hx
  rw [← hino]
  exact h.names x.1 ⟨h.used ▸ hlive.1, h.kind _ hlive.2⟩ e hmem hdot

theorem not_onOrphanList_of_named (h : NamesNotOrphaned t) (hi : 0 < nameCount t i) :
    ¬OnOrphanList t i := by
  obtain ⟨x, hx, rfl⟩ := Multiset.countP_pos.mp hi
  exact h x hx

/-- A quiet change puts no inode with a name on the list. -/
theorem Quiet.namesNotOrphaned (h : Quiet t ino s) (hbefore : NamesNotOrphaned t)
    (hnamed : ino ≠ 0 → 0 < nameCount t ino) : NamesNotOrphaned s := by
  rintro x hx ⟨hx0, hpath⟩
  rw [h.head] at hpath
  have hnot : ino ≠ 0 → ¬ReflTransGen (OrphanNext t) t.lastOrphan ino := fun hino hpath =>
    not_onOrphanList_of_named hbefore (hnamed hino) ⟨hino, hpath⟩
  exact not_onOrphanList_of_named hbefore (h.named hx) ⟨hx0, orphanFrom_of_dtime h.dtime hnot hpath⟩

theorem Shape.quiet (h : Shape t) (ino : Nat) : Quiet t ino t :=
  ⟨rfl, rfl, fun _ => id, fun _ hd _ hmem hdot =>
    Multiset.countP_pos.mpr ⟨_, h.mem_edges hd hmem hdot, rfl⟩, rfl, fun _ _ => rfl⟩

/-- Writing an inode back is quiet. -/
theorem Quiet.setInode (h : Quiet t ino s) (hkind : inode.isDir = true → (t.inodes i).isDir = true)
    (hdtime : i ≠ ino → inode.dtime = (t.inodes i).dtime) : Quiet t ino (s.setInode i inode) := by
  refine ⟨h.count, h.used, fun j hj => ?_, h.names, h.head, fun j hj => ?_⟩
  · by_cases hij : j = i
    · subst hij
      exact hkind (by simpa [NameFs.setInode] using hj)
    · exact h.kind j (by simpa [NameFs.setInode, hij] using hj)
  · by_cases hij : j = i
    · subst hij
      simpa [NameFs.setInode] using hdtime hj
    · simpa [NameFs.setInode, hij] using h.dtime j hj

/-- Writing a directory is quiet if it names nothing new. -/
theorem Quiet.setDir (h : Quiet t ino s)
    (hl : ∀ e ∈ l, nameIsDot e.name = false → e ∈ s.dirs d ∨ 0 < nameCount t e.ino) :
    Quiet t ino (s.setDir d l) := by
  refine ⟨h.count, h.used, h.kind, fun d' hd' e hmem hdot => ?_, h.head, h.dtime⟩
  by_cases hd : d' = d
  · subst hd
    have hmem : e ∈ l := by simpa [NameFs.setDir] using hmem
    exact (hl e hmem hdot).elim (fun h' => h.names d' hd' e h' hdot) id
  · exact h.names d' hd' e (by simpa [NameFs.setDir, hd] using hmem) hdot

/-! ### Steps that keep the state quiet -/

section

variable {F : Faults} {p : Point} {P : NameFs → Prop} {α : Type}

theorem keeps_step {x : NameM α} (h : Keeps P x) : Keeps P (step F p x) := by
  rw [step]
  cases F p with
  | none => exact h
  | some fault =>
    obtain ⟨e, done⟩ := fault
    cases done with
    | false => exact fail e
    | true => exact h.bind fun _ => fail e

theorem keeps_readStep (f : NameFs → Except Ext4Status α) : Keeps P (readStep F p f) := by
  intro s hs
  rw [readStep_run]
  exact hs

theorem keeps_ignore {x : NameM α} (h : Keeps P x) : Keeps P (ignore x) :=
  h.attempt.bind fun _ => pure ()

end

variable {F : Faults} {s₁ : NameFs} {parent : Nat} {p : Point} {α : Type}

theorem keeps_nameWriteInode (hkind : inode.isDir = true → (t.inodes i).isDir = true)
    (hdtime : i ≠ ino → inode.dtime = (t.inodes i).dtime) :
    Keeps (Quiet t ino) (nameWriteInode i inode) :=
  Keeps.get.bind fun _ => (Keeps.require _ _).bind fun _ =>
    modify fun _ hs => hs.setInode hkind hdtime

/-- The directory operations, with a copy of the inode of the directory that is stored along. -/
structure DirCopy (t : NameFs) (d : Nat) (dir : NameInode) : Prop where
  kind : dir.isDir = true → (t.inodes d).isDir = true
  dtime : dir.dtime = (t.inodes d).dtime

/-- Adding a name of an inode that has one is quiet. -/
theorem keeps_dirAddEntry (hdir : DirCopy t d dir) (hchild : 0 < nameCount t child) :
    Keeps (Quiet t ino) (dirAddEntry d dir name child type) := by
  refine (Keeps.require _ _).bind fun _ => (Keeps.require _ _).bind fun _ =>
    (modify fun s hs => hs.setDir fun e he _ => ?_).bind fun _ =>
    keeps_nameWriteInode hdir.kind fun _ => hdir.dtime
  obtain he | rfl := (mem_append.mp he).imp_right mem_singleton.mp
  · exact Or.inl he
  · exact Or.inr hchild

/-- Removing a name is quiet. -/
theorem keeps_dirRemoveEntry (hdir : DirCopy t d dir) :
    Keeps (Quiet t ino) (dirRemoveEntry d dir name) :=
  (Keeps.require _ _).bind fun _ => Keeps.get.bind fun _ => (Keeps.require _ _).bind fun _ =>
    (modify fun _ hs => hs.setDir fun _ he _ => Or.inl (mem_of_mem_eraseP he)).bind fun _ =>
    keeps_nameWriteInode hdir.kind fun _ => hdir.dtime

theorem mem_replaceName (h : e ∈ replaceName name child type l) : e ∈ l ∨ e.ino = child := by
  induction l with
  | nil => exact nomatch h
  | cons a l ih =>
    rw [replaceName] at h
    split at h
    · obtain rfl | h := mem_cons.mp h
      · exact Or.inr rfl
      · exact Or.inl (mem_cons_of_mem a h)
    obtain rfl | h := mem_cons.mp h
    · exact Or.inl mem_cons_self
    · exact (ih h).imp_left (mem_cons_of_mem a)

/-- Replacing a name by one of an inode that has one is quiet. -/
theorem keeps_dirReplaceEntry (hdir : DirCopy t d dir) (hchild : 0 < nameCount t child) :
    Keeps (Quiet t ino) (dirReplaceEntry d dir name child type) := by
  refine (Keeps.require _ _).bind fun _ => Keeps.get.bind fun _ =>
    (Keeps.ofOption _ _).bind fun _ =>
    (modify fun s hs => hs.setDir fun e he _ => ?_).bind fun _ =>
    (keeps_nameWriteInode hdir.kind fun _ => hdir.dtime).bind fun _ => pure _
  obtain he | heq := mem_replaceName he
  · exact Or.inl he
  · exact Or.inr (heq ▸ hchild)

theorem mem_replaceDotdot (hdot : nameIsDot e.name = false) (h : e ∈ replaceDotdot parent l) :
    e ∈ l := by
  induction l with
  | nil => cases h
  | cons a l ih =>
    rw [replaceDotdot] at h
    split at h
    · rename_i ha
      obtain rfl | h := mem_cons.mp h
      · rw [show nameIsDot _ = true by simp [nameIsDot, ha]] at hdot
        cases hdot
      · exact mem_cons_of_mem a h
    · obtain rfl | h := mem_cons.mp h
      · exact mem_cons_self
      · exact mem_cons_of_mem a (ih h)

theorem keeps_dirUpdateDotdot : Keeps (Quiet t ino) (dirUpdateDotdot d dir parent) :=
  (Keeps.require _ _).bind fun _ => Keeps.get.bind fun _ => (Keeps.require _ _).bind fun _ =>
    modify fun _ hs => hs.setDir fun _ he hdot => Or.inl (mem_replaceDotdot hdot he)

/-! ### Freeing an inode -/

/-- A step that would succeed: it fails only by a fault, with or without its effect. -/
theorem step_cases {x : NameM α} {a : α} (hx : x.run s = (.ok a, s₁)) :
    F p = none ∧ (step F p x).run s = (.ok a, s₁) ∨
      F p ≠ none ∧ ∃ e s', (step F p x).run s = (.error e, s') ∧ (s' = s ∨ s' = s₁) := by
  rw [step]
  cases F p with
  | none => exact Or.inl ⟨rfl, hx⟩
  | some fault =>
    refine Or.inr ⟨Option.some_ne_none _, ?_⟩
    obtain ⟨e, done⟩ := fault
    cases done with
    | false => exact ⟨e, s, rfl, Or.inl rfl⟩
    | true => exact ⟨e, s₁, bind_of_ok hx, Or.inr rfl⟩

/-- The inode gets on the orphan list, and a later step fails before it is taken from it. -/
def FailsBehindPush (F : Faults) : Prop :=
  F .pushInode = none ∧ (F .pushSuper ≠ none ∨ F .freeBlocks ≠ none ∨ F .zeroInode ≠ none ∨
    F .freeInode ≠ none ∨ F (.orphanRead 0) ≠ none)

/-- The inode `ino` was left at the head of the orphan list, as it was pushed or cleared. -/
structure LeftOnList (s : NameFs) (ino : Nat) (pushed : NameInode) (s' : NameFs) : Prop where
  count : s'.inodesCount = s.inodesCount
  dirs : s'.dirs = s.dirs
  used : ∀ i, i ≠ ino → s'.used i = s.used i
  inodes : ∀ i, i ≠ ino → s'.inodes i = s.inodes i
  inode : s'.inodes ino = pushed ∨ s'.inodes ino = zero
  head : s'.lastOrphan = ino

private theorem nameWriteInode_run (h : i ≠ 0 ∧ i ≤ s.inodesCount) :
    (nameWriteInode i inode).run s = (.ok (), s.setInode i inode) :=
  nameWriteInode_ok.mpr ⟨h, rfl⟩

private theorem nameFreeInode_run (h : ino ≠ 0 ∧ ino ≤ s.inodesCount) (hused : s.used ino = true) :
    (nameFreeInode ino).run s = (.ok (), s.setUsed ino false) := by
  rw [nameFreeInode, get_bind_ok, require_bind_ok, require_bind_ok, modify_ok]
  exact ⟨h, hused, rfl⟩

theorem keeps_head_nameWriteInode : Keeps (fun s => s.lastOrphan = a) (nameWriteInode i inode) :=
  Keeps.get.bind fun _ => (Keeps.require _ _).bind fun _ => modify fun _ hs => hs

/-- Taking a cleared inode from the head of the list. -/
theorem nameOrphanRemove_run (hino : ino ≠ 0 ∧ ino ≤ s.inodesCount) (hhead : s.lastOrphan = ino)
    (hzero : s.inodes ino = zero) :
    F (.orphanRead 0) ≠ none ∧ (∃ e, (nameOrphanRemove F ino).run s = (.error e, s)) ∨
      F (.orphanRead 0) = none ∧ ((nameOrphanRemove F ino).run s).2.lastOrphan = 0 := by
  obtain ⟨turns, hturns⟩ : ∃ turns, s.inodesCount = turns + 1 := ⟨s.inodesCount - 1, by omega⟩
  have hrun : (nameOrphanRemove F ino).run s =
      (nameOrphanRemoveLoop F ino (turns + 1) 0 0 ino).run s := by
    rw [nameOrphanRemove, bind_of_ok (run_get s), hturns, hhead]
  rw [hrun, nameOrphanRemoveLoop, if_neg hino.1]
  cases hF : F (.orphanRead 0) with
  | some fault =>
    refine Or.inl ⟨Option.some_ne_none _, _,
      bind_of_error (e := if fault.status = .notFound then .io else fault.status) ?_⟩
    rw [readStep, hF]
    rfl
  | none =>
    refine Or.inr ⟨rfl, ?_⟩
    have hread : (readStep F (.orphanRead 0) fun t => readNameInode t ino).run s = (.ok zero, s) :=
      readStep_ok.mpr ⟨hF, readNameInode_ok.mpr ⟨hino, hzero.symm⟩, rfl⟩
    rw [bind_of_ok hread, if_pos rfl]
    -- the head is reset before anything else can fail
    have hkeep : Keeps (fun s => s.lastOrphan = 0) (do
        step F .orphanUnlink (pure ())
        step F .orphanClear (nameWriteInode ino { zero with dtime := 0 })) :=
      (keeps_step (pure ())).bind fun _ => keeps_step keeps_head_nameWriteInode
    exact hkeep { s with lastOrphan := 0 } rfl

variable {s₀ : NameFs} {pushed : NameInode}

theorem LeftOnList.clear (h : LeftOnList s₀ ino pushed s) :
    LeftOnList s₀ ino pushed (s.setInode ino zero) :=
  ⟨h.count, h.dirs, h.used, fun i hi => (update_of_ne hi _ _).trans (h.inodes i hi),
    Or.inr (update_self _ _ _), h.head⟩

theorem LeftOnList.free (h : LeftOnList s₀ ino pushed s) :
    LeftOnList s₀ ino pushed (s.setUsed ino false) :=
  ⟨h.count, h.dirs, fun i hi => (update_of_ne hi _ _).trans (h.used i hi), h.inodes, h.inode,
    h.head⟩

/-- The end of `free_removed_inode`. -/
theorem nameFreeOrphan_run (h : LeftOnList s₀ ino pushed s) (hino : ino ≠ 0 ∧ ino ≤ s.inodesCount)
    (hused : s.used ino = true) :
    (F .zeroInode ≠ none ∨ F .freeInode ≠ none ∨ F (.orphanRead 0) ≠ none) ∧
        (∃ e s', (nameFreeOrphan F ino).run s = (.error e, s') ∧ LeftOnList s₀ ino pushed s') ∨
      (F .zeroInode = none ∧ F .freeInode = none ∧ F (.orphanRead 0) = none) ∧
        ((nameFreeOrphan F ino).run s).2.lastOrphan = 0 := by
  rw [nameFreeOrphan]
  have hwrite : (nameWriteInode ino zero).run s = (.ok (), s.setInode ino zero) :=
    nameWriteInode_run hino
  obtain ⟨hF₁, hclear⟩ | ⟨hF₁, e, s', hfail, hs'⟩ := step_cases hwrite
  case inr =>
    refine Or.inl ⟨Or.inl hF₁, e, s', bind_of_error hfail, ?_⟩
    obtain rfl | rfl := hs'
    · exact h
    · exact h.clear
  rw [bind_of_ok hclear]
  obtain ⟨hF₂, hfree⟩ | ⟨hF₂, e, s', hfail, hs'⟩ := step_cases
    (nameFreeInode_run (s := s.setInode ino zero) hino hused)
  case inr =>
    refine Or.inl ⟨Or.inr (Or.inl hF₂), e, s', bind_of_error hfail, ?_⟩
    obtain rfl | rfl := hs'
    · exact h.clear
    · exact h.clear.free
  rw [bind_of_ok hfree]
  obtain ⟨hF₃, e, hfail⟩ | ⟨hF₃, hzero⟩ :=
    nameOrphanRemove_run (s := (s.setInode ino zero).setUsed ino false) hino h.head
      (update_self _ _ _)
  · exact Or.inl ⟨Or.inr (Or.inr hF₃), e, _, hfail, h.clear.free⟩
  · exact Or.inr ⟨⟨hF₁, hF₂, hF₃⟩, hzero⟩

/-- How `free_removed_inode` ends. -/
inductive FreeEnd (F : Faults) (s : NameFs) (ino : Nat) (pushed : NameInode) :
    NameInode → Except Ext4Status Unit → NameFs → Prop
  /-- The inode was not put on the orphan list. -/
  | unpushed {e : Ext4Status} {s' : NameFs} (hF : F .pushInode ≠ none)
      (hs' : s' = s ∨ s' = s.setInode ino pushed) : FreeEnd F s ino pushed pushed (.error e) s'
  /-- It was, and is still there. -/
  | left {e : Ext4Status} {s' : NameFs} {copy : NameInode} (hF : FailsBehindPush F)
      (hcopy : copy = pushed ∨ copy = zero) (hs' : LeftOnList s ino pushed s') :
      FreeEnd F s ino pushed copy (.error e) s'
  /-- It was taken from it again. -/
  | taken {r : Except Ext4Status Unit} {s' : NameFs} (hF : ¬FailsBehindPush F)
    (hF' : F .pushInode = none)
      (hs' : s'.lastOrphan = 0) : FreeEnd F s ino pushed zero r s'

private theorem nameFreeRemovedInode_run (hino : ino ≠ 0 ∧ ino ≤ s.inodesCount)
    (hused : s.used ino = true) :
    ∃ copy r s', (nameFreeRemovedInode F ino inode).run s = (.ok (copy, r), s') ∧
      FreeEnd F s ino { inode with dtime := s.lastOrphan } copy r s' := by
  set pushed : NameInode := { inode with dtime := s.lastOrphan }
  let start : NameM Unit := do
    nameOrphanPush F ino pushed
    step F .freeBlocks (pure ())
  have hfailed : ∀ {e : Ext4Status} {s₁ : NameFs}, start.run s = (.error e, s₁) →
      (nameFreeRemovedInode F ino inode).run s = (.ok (pushed, .error e), s₁) := by
    intro e s₁ hx
    rw [nameFreeRemovedInode, bind_of_ok (run_get s)]
    exact bind_of_ok (attempt_ok.mpr hx)
  have hstarted : ∀ {s₁ : NameFs}, start.run s = (.ok (), s₁) →
      (nameFreeRemovedInode F ino inode).run s = (do
        let freed ← attempt (nameFreeOrphan F ino)
        pure (zero, freed) : NameM (NameInode × Except Ext4Status Unit)).run s₁ := by
    intro s₁ hx
    rw [nameFreeRemovedInode, bind_of_ok (run_get s)]
    exact bind_of_ok (attempt_ok.mpr hx)
  -- the inode is stored
  have hwrite : (nameWriteInode ino pushed).run s = (.ok (), s.setInode ino pushed) :=
    nameWriteInode_run hino
  obtain ⟨hF₁, hpush⟩ | ⟨hF₁, e, s', hfail, hs'⟩ := step_cases hwrite
  case inr =>
    exact ⟨pushed, .error e, s', hfailed (bind_of_error (bind_of_error hfail)), .unpushed hF₁ hs'⟩
  let s₂ : NameFs := { s.setInode ino pushed with lastOrphan := ino }
  have hleft : LeftOnList s ino pushed s₂ := ⟨rfl, rfl, fun _ _ => rfl,
    fun i hi => update_of_ne hi _ _, Or.inl (update_self _ _ _), rfl⟩
  have hpush' : (nameOrphanPush F ino pushed).run s = (step F .pushSuper (pure ())).run s₂ :=
    (bind_of_ok hpush).trans (bind_of_ok (run_modify _ _))
  -- from here on it is at the head
  obtain ⟨hF₂, hsuper⟩ | ⟨hF₂, e, s', hfail, hs'⟩ := step_cases (run_pure () s₂)
  case inr =>
    rw [or_self] at hs'
    subst hs'
    exact ⟨pushed, .error e, s₂, hfailed (bind_of_error (hpush'.trans hfail)),
      .left ⟨hF₁, Or.inl hF₂⟩ (Or.inl rfl) hleft⟩
  obtain ⟨hF₃, hblocks⟩ | ⟨hF₃, e, s', hfail, hs'⟩ := step_cases (run_pure () s₂)
  case inr =>
    rw [or_self] at hs'
    subst hs'
    exact ⟨pushed, .error e, s₂, hfailed ((bind_of_ok (hpush'.trans hsuper)).trans hfail),
      .left ⟨hF₁, Or.inr (Or.inl hF₃)⟩ (Or.inl rfl) hleft⟩
  have hrest := hstarted ((bind_of_ok (hpush'.trans hsuper)).trans hblocks)
  obtain ⟨hF, e, s', hfail, hs'⟩ | ⟨hF, hhead⟩ := nameFreeOrphan_run hleft hino hused
  · refine ⟨zero, .error e, s', hrest.trans (bind_of_ok (attempt_ok.mpr hfail)), ?_⟩
    exact .left ⟨hF₁, Or.inr (Or.inr hF)⟩ (Or.inr rfl) hs'
  · refine ⟨zero, _, _, hrest.trans (bind_of_ok (attempt_ok.mpr rfl)), ?_⟩
    refine .taken (fun hfails => ?_) hF₁ hhead
    simp [FailsBehindPush, hF₁, hF₂, hF₃, hF] at hfails

/-! ### Dropping a link -/

/-- The inode goes when it loses a name. -/
def LastLink (inode : NameInode) : Prop := ¬(inode.isDir = false ∧ 1 < inode.links)

/-- How `drop_removed_link` ends. -/
inductive DropEnd (F : Faults) (s : NameFs) (ino : Nat) (inode : NameInode) :
    NameInode → Except Ext4Status Unit → NameFs → Prop
  | counted {r : Except Ext4Status Unit} {s' : NameFs} (hlinks : ¬LastLink inode)
      (hs' : s' = s ∨ s' = s.setInode ino { inode with links := inode.links - 1 }) :
      DropEnd F s ino inode { inode with links := inode.links - 1 } r s'
  | freed {r : Except Ext4Status Unit} {s' : NameFs} {copy : NameInode} (hlinks : LastLink inode)
      (hend : FreeEnd F s ino { inode with links := 0, dtime := s.lastOrphan } copy r s') :
      DropEnd F s ino inode copy r s'

/-- Where `nameDropRemovedLink` can end, faults included. -/
theorem nameDropRemovedLink_run (hino : ino ≠ 0 ∧ ino ≤ s.inodesCount) (hused : s.used ino = true) :
    ∃ copy r s', (nameDropRemovedLink F ino inode).run s = (.ok (copy, r), s') ∧
      DropEnd F s ino inode copy r s' := by
  rw [nameDropRemovedLink]
  split
  · rename_i hlinks
    let counted : NameInode := { inode with links := inode.links - 1 }
    have hwrite : (nameWriteInode ino counted).run s = (.ok (), s.setInode ino counted) :=
      nameWriteInode_run hino
    obtain ⟨-, hok⟩ | ⟨-, e, s', hfail, hs'⟩ := step_cases hwrite
    · exact ⟨counted, _, _, bind_of_ok (attempt_ok.mpr hok),
        .counted (not_not.mpr hlinks) (Or.inr rfl)⟩
    · exact ⟨counted, _, _, bind_of_ok (attempt_ok.mpr hfail), .counted (not_not.mpr hlinks) hs'⟩
  · rename_i hlinks
    obtain ⟨copy, r, s', hrun, hend⟩ := nameFreeRemovedInode_run hino hused
    exact ⟨copy, r, s', hrun, .freed hlinks hend⟩

/-! ### Undoing -/

/-- A step has its effect, whether it reports an error or not. -/
def takesEffect (F : Faults) (p : Point) : Bool :=
  match F p with
  | none => true
  | some fault => fault.done

private theorem ignore_step_run {x : NameM α} {a : α} (hx : x.run s = (.ok a, s₁)) :
    (ignore (step F p x)).run s = (.ok (), if takesEffect F p then s₁ else s) := by
  rw [ignore, step, takesEffect]
  cases F p with
  | none => exact bind_of_ok (attempt_ok.mpr hx)
  | some fault =>
    obtain ⟨e, done⟩ := fault
    cases done with
    | false => rfl
    | true => exact bind_of_ok (attempt_ok.mpr (bind_of_ok hx))

/-- The state behind a failed call that has left `ino` on the orphan list: the list starts at `ino`,
and no other inode on it has changed. -/
structure OrphanHead (t : NameFs) (ino : Nat) (s : NameFs) : Prop where
  head : s.lastOrphan = ino
  dtime : ∀ i, i ≠ ino → (s.inodes i).dtime = (t.inodes i).dtime

/-- If the inode leads on to the old list or to nothing, nothing else on the list has a name. -/
theorem OrphanHead.other (h : OrphanHead t ino s) (hbefore : NamesNotOrphaned t) (hino : ino ≠ 0)
    (hnamed : 0 < nameCount t ino)
    (hnext : (s.inodes ino).dtime = t.lastOrphan ∨ (s.inodes ino).dtime = 0)
    (hi : 0 < nameCount t i) (hne : i ≠ ino) : ¬OnOrphanList s i := by
  rw [OnOrphanList, h.head, orphanFrom_head hino]
  rintro (heq | hfrom)
  · exact hne heq
  obtain hnext | hnext := hnext
  · rw [hnext] at hfrom
    have hnot : ino ≠ 0 → ¬ReflTransGen (OrphanNext t) t.lastOrphan ino := fun hino hpath =>
      not_onOrphanList_of_named hbefore hnamed ⟨hino, hpath⟩
    exact not_onOrphanList_of_named hbefore hi ⟨hfrom.1, orphanFrom_of_dtime h.dtime hnot hfrom.2⟩
  · rw [hnext] at hfrom
    exact not_orphanFrom_zero hfrom

/-- If the inode is as it was, the list goes on as it did from there. -/
theorem OrphanHead.restored (h : OrphanHead t ino s)
    (hdtime : (s.inodes ino).dtime = (t.inodes ino).dtime) (i : Nat) :
    OnOrphanList s i ↔ OrphanFrom t ino i := by
  have hnext : OrphanNext s = OrphanNext t := by
    funext a b
    by_cases ha : a = ino
    · rw [OrphanNext, OrphanNext, ha, hdtime]
    · rw [OrphanNext, OrphanNext, h.dtime a ha]
  rw [OnOrphanList, OrphanFrom, OrphanFrom, h.head, hnext]

/-! ### States with an inode left on the list -/

/-- A state of a call on `t` in which `ino`, that nothing is in, is at the head of the orphan
list. -/
structure LeftState (t : NameFs) (ino : Nat) (s : NameFs) : Prop where
  count : s.inodesCount = t.inodesCount
  used : ∀ i, i ≠ ino → s.used i = t.used i
  kind : ∀ i, i ≠ ino → (s.inodes i).isDir = (t.inodes i).isDir
  dirs : s.dirs ino = t.dirs ino
  hollow : (s.inodes ino).isDir = true → EmptyDir t ino
  head : s.lastOrphan = ino
  dtime : ∀ i, i ≠ ino → (s.inodes i).dtime = (t.inodes i).dtime

section

variable (h : LeftState t ino s)
include h

theorem LeftState.orphanHead : OrphanHead t ino s := ⟨h.head, h.dtime⟩

theorem LeftState.live (hd : d ≠ ino) : Live s d ↔ Live t d := by
  rw [Live, Live, h.used d hd, h.kind d hd]

theorem LeftState.namesIn : namesIn s ino = 0 := by
  rw [Ext4.namesIn]
  split
  · rename_i hlive
    rw [h.dirs]
    exact namesOf_of_empty (h.hollow hlive.2)
  · rfl

/-- Another inode is stored, as it was up to its link count. -/
theorem LeftState.setInode (hi : i ≠ ino) (hkind : inode.isDir = (t.inodes i).isDir)
    (hdtime : inode.dtime = (t.inodes i).dtime) :
    LeftState t ino (s.setInode i inode) ∧ edges (s.setInode i inode) = edges s := by
  have hino : (s.setInode i inode).inodes ino = s.inodes ino := update_of_ne (Ne.symm hi) _ _
  refine ⟨⟨h.count, h.used, fun j hj => ?_, h.dirs, hino ▸ h.hollow, h.head, fun j hj => ?_⟩, ?_⟩
  · by_cases hij : j = i
    · subst hij
      simp [NameFs.setInode, hkind]
    · simp [NameFs.setInode, hij, h.kind j hj]
  · by_cases hij : j = i
    · subst hij
      simp [NameFs.setInode, hdtime]
    · simp [NameFs.setInode, hij, h.dtime j hj]
  · exact edges_setInode (hkind.trans (h.kind i hi).symm)

/-- The inode itself is stored. -/
theorem LeftState.restore (hollow : inode.isDir = true → EmptyDir t ino) :
    LeftState t ino (s.setInode ino inode) ∧ edges (s.setInode ino inode) = edges s := by
  have hinodes : ∀ i, i ≠ ino → (s.setInode ino inode).inodes i = s.inodes i := fun i hi =>
    update_of_ne hi _ _
  have hino : (s.setInode ino inode).inodes ino = inode := update_self _ _ _
  have hleft : LeftState t ino (s.setInode ino inode) := ⟨h.count, h.used,
    fun i hi => hinodes i hi ▸ h.kind i hi, h.dirs, hino.symm ▸ hollow, h.head,
    fun i hi => hinodes i hi ▸ h.dtime i hi⟩
  refine ⟨hleft, edges_of_live rfl (fun d hd => live_congr rfl (hinodes d hd)) (fun _ _ => rfl) ?_⟩
  rw [hleft.namesIn, h.namesIn]

theorem LeftState.setDir (hd : d ≠ ino) (l : List DirEntry) : LeftState t ino (s.setDir d l) :=
  ⟨h.count, h.used, h.kind, (update_of_ne (Ne.symm hd) _ _).trans h.dirs, h.hollow, h.head, h.dtime⟩

end

/-- The state in which `free_removed_inode` leaves the inode on the list. -/
theorem LeftOnList.leftState {t₂ : NameFs} (h : LeftOnList t₂ ino pushed s)
    (hquiet : Quiet t ino t₂) (hkind : ∀ i, i ≠ ino → (t₂.inodes i).isDir = (t.inodes i).isDir)
    (hdirs : t₂.dirs ino = t.dirs ino) (hollow : pushed.isDir = true → EmptyDir t ino) :
    LeftState t ino s where
  count := h.count.trans hquiet.count
  used i hi := (h.used i hi).trans (congrFun hquiet.used i)
  kind i hi := h.inodes i hi ▸ hkind i hi
  dirs := h.dirs ▸ hdirs
  hollow hdir := by
    obtain heq | heq := h.inode
    · exact hollow (heq ▸ hdir)
    · rw [heq] at hdir
      exact absurd hdir (by decide)
  head := h.head
  dtime i hi := h.inodes i hi ▸ hquiet.dtime i hi

/-- What was left on the list has no names to lose. -/
theorem LeftOnList.edges {t₂ : NameFs} (h : LeftOnList t₂ ino pushed s) (hleft : LeftState t ino s)
    (hempty : namesIn t₂ ino = 0) : edges s = edges t₂ :=
  edges_of_live h.count (fun d hd => live_congr (h.used d hd) (h.inodes d hd))
    (fun _ _ => congrFun h.dirs _) (hleft.namesIn.trans hempty.symm)

private theorem dirAddEntry_run (hdir : dir.isDir = true) (hvalid : nameValid name false = true)
    (hrange : d ≠ 0 ∧ d ≤ s.inodesCount) :
    (dirAddEntry d dir name child type).run s
      = (.ok (), (addEntry s d ⟨name, child, type⟩).setInode d dir) := by
  rw [dirAddEntry, require_bind_ok, require_bind_ok, modify_bind_ok, nameWriteInode_ok]
  exact ⟨hdir, hvalid, hrange, rfl⟩

theorem keeps_head_dirAddEntry :
    Keeps (fun s => s.lastOrphan = a) (dirAddEntry d dir name child type) := by
  refine (Keeps.require _ _).bind fun _ => (Keeps.require _ _).bind fun _ =>
    bind (modify fun s hs => ?_) fun _ => keeps_head_nameWriteInode
  exact hs

/-! ### Undoing with an inode left on the list -/

section

variable {p : Point} (h : LeftState t ino s)
include h

/-- Another inode is stored as it was. -/
theorem LeftState.undo_write (hi : i ≠ ino) (hrange : i ≠ 0 ∧ i ≤ t.inodesCount)
    (hinode : t.inodes i = inode) :
    ∃ s₁, (ignore (step F p (nameWriteInode i inode))).run s = (.ok (), s₁) ∧ LeftState t ino s₁ ∧
      edges s₁ = edges s ∧ s₁.dirs = s.dirs ∧ s₁.inodes ino = s.inodes ino := by
  have hwrite : (nameWriteInode i inode).run s = (.ok (), s.setInode i inode) :=
    nameWriteInode_run (h.count ▸ hrange)
  refine ⟨_, ignore_step_run hwrite, ?_⟩
  split
  · obtain ⟨hleft, hedges⟩ := h.setInode hi (congrArg _ hinode.symm) (congrArg _ hinode.symm)
    exact ⟨hleft, hedges, rfl, update_of_ne (Ne.symm hi) _ _⟩
  · exact ⟨h, rfl, rfl, rfl⟩

/-- The inode itself is stored. -/
theorem LeftState.undo_restore (hrange : ino ≠ 0 ∧ ino ≤ t.inodesCount)
    (hollow : inode.isDir = true → EmptyDir t ino) :
    ∃ s₁, (ignore (step F p (nameWriteInode ino inode))).run s = (.ok (), s₁) ∧ LeftState t ino s₁ ∧
      edges s₁ = edges s ∧ s₁.dirs = s.dirs ∧
      s₁.inodes ino = if takesEffect F p then inode else s.inodes ino := by
  have hwrite : (nameWriteInode ino inode).run s = (.ok (), s.setInode ino inode) :=
    nameWriteInode_run (h.count ▸ hrange)
  refine ⟨_, ignore_step_run hwrite, ?_⟩
  split
  · obtain ⟨hleft, hedges⟩ := h.restore hollow
    exact ⟨hleft, hedges, rfl, update_self _ _ _⟩
  · exact ⟨h, rfl, rfl, rfl⟩

/-- A name is entered. -/
theorem LeftState.undo_add (hd : d ≠ ino) (hrange : d ≠ 0 ∧ d ≤ t.inodesCount) (hlive : Live t d)
    (hdir : t.inodes d = dir) (hvalid : nameValid name false = true) :
    ∃ s₁, (ignore (step F p (dirAddEntry d dir name child type))).run s = (.ok (), s₁) ∧
      LeftState t ino s₁ ∧
      edges s₁ = edges s + (if takesEffect F p then {(d, child)} else 0) ∧
      s₁.inodes ino = s.inodes ino ∧ ∀ d' e', Entry s d' e' → Entry s₁ d' e' := by
  let e : DirEntry := ⟨name, child, type⟩
  have hadd : (dirAddEntry d dir name child type).run s =
      (.ok (), (addEntry s d e).setInode d dir) :=
    dirAddEntry_run (hdir ▸ hlive.2) hvalid (h.count ▸ hrange)
  refine ⟨_, ignore_step_run hadd, ?_⟩
  split
  · obtain ⟨hleft, hedges⟩ := (h.setDir hd (s.dirs d ++ [e])).setInode hd (congrArg _ hdir.symm)
      (congrArg _ hdir.symm)
    refine ⟨hleft, hedges.trans ?_, update_of_ne (Ne.symm hd) _ _, fun d' e' hentry => ?_⟩
    · exact edges_addEntry ((h.live hd).mpr hlive) (h.count ▸ hrange.2) (not_dot_of_valid hvalid)
    · have hadded : Entry (addEntry s d e) d' e' := entry_addEntry hentry
      exact hadded
  · exact ⟨h, (add_zero _).symm, rfl, fun _ _ => id⟩

/-- A name gets another inode. -/
theorem LeftState.undo_replace (hd : d ≠ ino) (hrange : d ≠ 0 ∧ d ≤ t.inodesCount)
    (hlive : Live t d) (hdir : t.inodes d = dir) (hvalid : nameValid e.name false = true)
    (hentry : Entry s d e) :
    ∃ s₁, (ignore (step F p (dirReplaceEntry d dir e.name child type))).run s = (.ok (), s₁) ∧
      LeftState t ino s₁ ∧ s₁.inodes ino = s.inodes ino ∧
      edges s₁ + (if takesEffect F p then {(d, e.ino)} else 0)
        = edges s + (if takesEffect F p then {(d, child)} else 0) := by
  have hreplace : (dirReplaceEntry d dir e.name child type).run s
      = (.ok e, (putEntry s d e.name child type).setInode d dir) :=
    dirReplaceEntry_run hvalid hentry (h.count ▸ hrange)
  refine ⟨_, ignore_step_run hreplace, ?_⟩
  split
  · obtain ⟨hleft, hedges⟩ := (h.setDir hd (replaceName e.name child type (s.dirs d))).setInode hd
      (congrArg _ hdir.symm) (congrArg _ hdir.symm)
    refine ⟨hleft, update_of_ne (Ne.symm hd) _ _, ?_⟩
    have hput : edges (putEntry s d e.name child type) + {(d, e.ino)} = edges s + {(d, child)} :=
      edges_putEntry ((h.live hd).mpr hlive) (h.count ▸ hrange.2) hentry (not_dot_of_valid hvalid)
    exact (congrArg (· + _) hedges).trans hput
  · exact ⟨h, rfl, rfl⟩

end

end

end Rabbitbone.Spec.Ext4
