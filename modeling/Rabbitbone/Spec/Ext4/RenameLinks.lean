import Rabbitbone.Spec.Ext4.LinkCounts

/-!
# Link counts under renames

A rename takes the old name away and adds the new one, and takes away the name that was there
before.  Where a directory changes its parent, the links for its entry `..` move along.  When it
replaces another directory of the same parent, that parent loses a subdirectory, but its link count
stays.

## Key results

- `movedNew_names`, `replaced_names`: the names and the balance behind a move.
- `run_linkCounts_iff`: along a run of successful operations from a consistent tree the link counts
  are right exactly as long as no rename replaces a directory by one of its siblings.
-/

namespace Rabbitbone.Spec.Ext4

open Native.Ext4 Native.Path FallibleState Function SameKinds Option

section

variable {t t' : NameFs} {oldPath newPath : List UInt8} {r : Move}

/-! ### The directories of a move -/

theorem FoundMove.new_not_dot (h : FoundMove t oldPath newPath r) :
    nameIsDot r.newName = false := by
  obtain ⟨_, hsplit, -⟩ := h.dest
  exact not_dot_of_valid (splitParentPath_valid hsplit)

theorem FoundMove.oldParent_eq (h : FoundMove t oldPath newPath r) :
    t.inodes r.oldParentIno = r.oldParent := by
  obtain ⟨_, -, hfound⟩ := h.src.parent
  exact hfound.inode

theorem FoundMove.newParent_eq (h : FoundMove t oldPath newPath r) :
    t.inodes r.newParentIno = r.newParent := by
  obtain ⟨_, -, hfound⟩ := h.dest
  exact hfound.inode

private theorem FoundMove.owner_eq (h : FoundMove t oldPath newPath r) (d : Nat) :
    owner t (d, r.src.ino) = if r.inode.isDir then d else r.src.ino := by
  rw [owner, h.src.inode]

/-! ### The parents -/

/-- The parents' link counts follow a directory to its new parent. -/
theorem movedNewParent_names (hold : t.inodes r.oldParentIno = r.oldParent)
    (hnew : t.inodes r.newParentIno = r.newParent)
    (hlinks : r.reparents → r.oldParent.links ≠ 0 ∧ r.newParent.links ≠ 0xffff) :
    SameKinds t (movedNewParent t r) ∧ edges (movedNewParent t r) = edges t ∧
      ∀ i, balance (movedNewParent t r) i
        = balance t i +
          if r.reparents then oneAt r.newParentIno i - oneAt r.oldParentIno i else 0 := by
  rw [movedNewParent]
  split
  · rename_i hre
    let old : NameInode := { r.oldParent with links := r.oldParent.links - 1 }
    let new : NameInode := { r.newParent with links := r.newParent.links + 1 }
    have hold' : old.isDir = (t.inodes r.oldParentIno).isDir := by rw [hold]; rfl
    let t₁ := t.setInode r.oldParentIno old
    have hnew₁ : t₁.inodes r.newParentIno = r.newParent :=
      (update_of_ne (Ne.symm hre.2) _ _).trans hnew
    have hnew' : new.isDir = (t₁.inodes r.newParentIno).isDir := by rw [hnew₁]; rfl
    have hpred : (old.links.toNat : ℤ) - r.oldParent.links.toNat = -1 := links_pred (hlinks hre).1
    have hsucc : (new.links.toNat : ℤ) - r.newParent.links.toNat = 1 := links_succ (hlinks hre).2
    refine ⟨((setInode hold').trans (setInode hnew')).trans (setDir _ _ _), ?_, fun i => ?_⟩
    · rw [edges_putDotdot, edges_setInode hnew', edges_setInode hold']
    · rw [balance_putDotdot, balance_setInode hnew', hnew₁, balance_setInode hold',
        hold, hpred, hsucc]
      omega
  · exact ⟨⟨rfl, rfl, fun _ => rfl⟩, rfl, fun i => (add_zero _).symm⟩

private theorem movedOverParent_names (hold : t.inodes r.oldParentIno = r.oldParent)
    (hlinks : r.reparents → r.oldParent.links ≠ 0) :
    SameKinds t (movedOverParent t r) ∧ edges (movedOverParent t r) = edges t ∧
      ∀ i, balance (movedOverParent t r) i
        = balance t i - if r.reparents then oneAt r.oldParentIno i else 0 := by
  rw [movedOverParent]
  split
  · rename_i hre
    let old : NameInode := { r.oldParent with links := r.oldParent.links - 1 }
    have hold' : old.isDir = (t.inodes r.oldParentIno).isDir := by rw [hold]; rfl
    have hpred : (old.links.toNat : ℤ) - r.oldParent.links.toNat = -1 := links_pred (hlinks hre)
    refine ⟨(setInode hold').trans (setDir _ _ _), ?_, fun i => ?_⟩
    · rw [edges_putDotdot, edges_setInode hold']
    · rw [balance_putDotdot, balance_setInode hold', hold, hpred]
      omega
  · exact ⟨⟨rfl, rfl, fun _ => rfl⟩, rfl, fun i => (sub_zero _).symm⟩

/-! ### Moves over a name -/

/-- The tree behind a move over a name, before the link of the replaced inode is dropped. -/
def replaced (t : NameFs) (r : Move) : NameFs :=
  movedOverParent (eraseEntry (putEntry t r.newParentIno r.newName r.src.ino r.src.type)
    r.oldParentIno r.src.name) r

/-- The entry that the new name of a move stands for. -/
structure AtNewName (t : NameFs) (r : Move) (target : DirEntry) : Prop where
  name : target.name = r.newName
  entry : Entry t r.newParentIno target
  ne : target.ino ≠ r.src.ino

/-- An entry that a move replaces. -/
structure Target (t : NameFs) (r : Move) (target : DirEntry) : Prop
    extends AtNewName t r target where
  kind : (t.inodes target.ino).isDir = r.inode.isDir
  empty : (t.inodes target.ino).isDir = true → EmptyDir t target.ino
  links : r.reparents → r.oldParent.links ≠ 0

variable {target : DirEntry}

/-- The old entry is not the one that is replaced. -/
theorem AtNewName.src_entry (htarget : AtNewName t r target)
    (hfound : FoundMove t oldPath newPath r) :
    Entry (putEntry t r.newParentIno r.newName r.src.ino r.src.type) r.oldParentIno r.src := by
  refine entry_putEntry hfound.src.entry fun hd hname => htarget.ne ?_
  have hsrc := hfound.src.entry
  have hentry := htarget.entry
  rw [Entry, hd, ← hname] at hsrc
  rw [Entry, htarget.name, hsrc] at hentry
  rw [← some.inj hentry]

theorem replaced_inodes {i : Nat} (h : i ≠ r.oldParentIno) :
    (replaced t r).inodes i = t.inodes i := by
  rw [replaced, movedOverParent]
  split
  · exact update_of_ne h _ _
  · rfl

theorem replaced_dirs {i : Nat} (hold : i ≠ r.oldParentIno) (hnew : i ≠ r.newParentIno)
    (hsrc : i ≠ r.src.ino) : (replaced t r).dirs i = t.dirs i := by
  have hplain : (eraseEntry (putEntry t r.newParentIno r.newName r.src.ino r.src.type)
      r.oldParentIno r.src.name).dirs i = t.dirs i :=
    (update_of_ne hold _ _).trans (update_of_ne hnew _ _)
  rw [replaced, movedOverParent]
  split
  · exact (update_of_ne hsrc _ _).trans hplain
  · exact hplain

/-! ### Names and balances -/

section

variable (h : Shape t) (hfound : FoundMove t oldPath newPath r)
include h hfound

theorem Shape.live_old : Live t r.oldParentIno := by
  obtain ⟨_, -, hfound⟩ := hfound.src.parent
  exact h.live_of_found hfound

theorem Shape.live_new : Live t r.newParentIno := by
  obtain ⟨_, -, hfound⟩ := hfound.dest
  exact h.live_of_found hfound

/-- The old name is a name of the tree. -/
theorem Shape.src_mem : (r.oldParentIno, r.src.ino) ∈ edges t :=
  h.mem_edges (h.live_old hfound) hfound.src.entry.mem hfound.src.not_dot

/-- A move to a free name: the old name goes, the new one comes, and the links follow. -/
theorem movedNew_names (hlinks : r.reparents → r.oldParent.links ≠ 0 ∧ r.newParent.links ≠ 0xffff) :
    SameKinds t (movedNew t r) ∧ edges (movedNew t r) + {(r.oldParentIno, r.src.ino)}
        = edges t + {(r.newParentIno, r.src.ino)} ∧
      ∀ i, balance (movedNew t r) i = balance t i := by
  let e : DirEntry := ⟨r.newName, r.src.ino, r.src.type⟩
  have hdot : nameIsDot e.name = false := hfound.new_not_dot
  have hnew := h.live_new hfound
  have hold := h.live_old hfound
  have hedges₁ := edges_addEntry hnew (h.usedLe _ hnew.1) hdot
  have hbalance₁ := balance_addEntry hnew (h.usedLe _ hnew.1) hdot
  set t₁ := addEntry t r.newParentIno e
  have hentry : Entry t₁ r.oldParentIno r.src := entry_addEntry hfound.src.entry
  have hle : r.oldParentIno ≤ t₁.inodesCount := h.usedLe _ hold.1
  have hedges₂ := edges_eraseEntry (t := t₁) hold hle hentry hfound.src.not_dot
  have hbalance₂ := balance_eraseEntry (t := t₁) hold hle hentry hfound.src.not_dot
  set t₂ := eraseEntry t₁ r.oldParentIno r.src.name
  obtain ⟨hkinds, hedges, hbalance⟩ :=
    movedNewParent_names (t := t₂) hfound.oldParent_eq hfound.newParent_eq hlinks
  refine ⟨((setDir _ _ _).trans (setDir _ _ _)).trans hkinds, ?_, fun i => ?_⟩
  · exact (congrArg (· + _) hedges).trans (hedges₂.trans hedges₁)
  · refine (hbalance i).trans ?_
    rw [hbalance₂, hbalance₁]
    have howner : ∀ d, owner t₁ (d, r.src.ino) = owner t (d, r.src.ino) := fun _ => rfl
    rw [howner, hfound.owner_eq, hfound.owner_eq]
    -- a directory that stays with its parent, and any other inode, is owed as much as before
    by_cases hdir : r.inode.isDir = true
    · by_cases hre : r.oldParentIno = r.newParentIno
      · simp [Move.reparents, hdir, hre]
      · simp [Move.reparents, hdir, hre]
    · simp [Move.reparents, hdir]

theorem Shape.target_mem (htarget : AtNewName t r target) :
    (r.newParentIno, target.ino) ∈ edges t :=
  h.mem_edges (h.live_new hfound) htarget.entry.mem (htarget.name ▸ hfound.new_not_dot)

variable (htarget : Target t r target)
include htarget

/-- A move over another name: two names go and one comes. -/
theorem replaced_names : SameKinds t (replaced t r) ∧
      edges (replaced t r) + ({(r.oldParentIno, r.src.ino)} + {(r.newParentIno, target.ino)})
        = edges t + {(r.newParentIno, r.src.ino)} ∧
      ∀ i, balance (replaced t r) i = balance t i + if r.inode.isDir then
        (if r.oldParentIno = r.newParentIno then oneAt r.oldParentIno i else 0)
        else oneAt target.ino i := by
  have hdot : nameIsDot target.name = false := htarget.name ▸ hfound.new_not_dot
  have hnew := h.live_new hfound
  have hold := h.live_old hfound
  have hedges₁ : edges (putEntry t r.newParentIno target.name r.src.ino r.src.type) + _ = _ :=
    edges_putEntry hnew (h.usedLe _ hnew.1) htarget.entry hdot
  have hbalance₁ : ∀ i, balance
      (putEntry t r.newParentIno target.name r.src.ino r.src.type) i = _ :=
    balance_putEntry hnew (h.usedLe _ hnew.1) htarget.entry hdot
  rw [htarget.name] at hedges₁ hbalance₁
  set t₁ := putEntry t r.newParentIno r.newName r.src.ino r.src.type
  have hentry : Entry t₁ r.oldParentIno r.src := htarget.toAtNewName.src_entry hfound
  have hle : r.oldParentIno ≤ t₁.inodesCount := h.usedLe _ hold.1
  have hedges₂ := edges_eraseEntry (t := t₁) hold hle hentry hfound.src.not_dot
  have hbalance₂ := balance_eraseEntry (t := t₁) hold hle hentry hfound.src.not_dot
  set t₂ := eraseEntry t₁ r.oldParentIno r.src.name
  obtain ⟨hkinds, hedges, hbalance⟩ :=
    movedOverParent_names (t := t₂) hfound.oldParent_eq htarget.links
  refine ⟨((setDir _ _ _).trans (setDir _ _ _)).trans hkinds, ?_, fun i => ?_⟩
  · rw [← add_assoc]
    exact (congrArg (· + _ + _) hedges).trans ((congrArg (· + _) hedges₂).trans hedges₁)
  · refine (hbalance i).trans ?_
    rw [hbalance₂, hbalance₁]
    have howner : ∀ d, owner t₁ (d, r.src.ino) = owner t (d, r.src.ino) := fun _ => rfl
    have htarget' : owner t (r.newParentIno, target.ino)
        = if r.inode.isDir then r.newParentIno else target.ino := by
      rw [owner, htarget.kind]
    rw [howner, hfound.owner_eq, hfound.owner_eq, htarget']
    by_cases hdir : r.inode.isDir = true
    · by_cases hre : r.oldParentIno = r.newParentIno
      · simp [Move.reparents, hdir, hre]
      · simp [Move.reparents, hdir, hre]
    · simp [Move.reparents, hdir]

/-- The target is not the old directory. -/
theorem Shape.target_ne_old : target.ino ≠ r.oldParentIno := by
  have hold := h.live_old hfound
  intro heq
  have hdir : (t.inodes target.ino).isDir = true := by
    rw [heq]
    exact hold.2
  exact (htarget.empty hdir).ne hfound.src.entry.mem hfound.src.not_dot heq.symm

private theorem replaced_shape : Shape (replaced t r) := by
  obtain ⟨hkinds, hedges, -⟩ := replaced_names h hfound htarget
  have hsrc := h.src_mem hfound
  refine h.retie hkinds hedges (by simpa using h.namesUsed _ hsrc) (by simpa using h.ne_root hsrc)
    fun d hd => ?_
  have := h.dirOnce d hd
  simp only [Multiset.countP_add, countP_singleton_name]
  omega

/-- There is nothing in what was replaced. -/
theorem replaced_empty : namesIn (replaced t r) target.ino = 0 := by
  obtain ⟨hkinds, -, -⟩ := replaced_names h hfound htarget
  cases hdir : (t.inodes target.ino).isDir with
  | true =>
    have hdot : nameIsDot target.name = false := htarget.name ▸ hfound.new_not_dot
    have hnew := (htarget.empty hdir).ne htarget.entry.mem hdot
    rw [namesIn, replaced_dirs (h.target_ne_old hfound htarget) (Ne.symm hnew) htarget.ne,
      namesOf_of_empty (htarget.empty hdir), ite_self]
  | false =>
    refine if_neg fun hlive => ?_
    rw [hkinds.live, Live, hdir] at hlive
    cases hlive.2

/-- What is in the tree after the move was there before. -/
theorem inTree_of_replaced {i : Nat} (hi : InTree (replaced t r) i) : InTree t i := by
  obtain ⟨-, hedges, -⟩ := replaced_names h hfound htarget
  obtain hi | ⟨x, hx, rfl⟩ := inTree_retie hedges hi
  · exact hi
  · rw [Multiset.mem_singleton.mp hx]
    exact inTree_of_mem (x := (r.oldParentIno, r.src.ino)) (h.src_mem hfound)

end

private theorem replaced_detached (h : Consistent t) (hfound : FoundMove t oldPath newPath r)
    (htarget : Target t r target) : Detached (replaced t r) target.ino := by
  obtain ⟨hkinds, hedges, hbalance⟩ := replaced_names h.shape hfound htarget
  have hmem := h.shape.target_mem hfound htarget.toAtNewName
  have hused := h.shape.namesUsed _ hmem
  refine ⟨hkinds.used ▸ hused, h.shape.ne_root hmem, fun hdir => ⟨?_, ?_⟩, fun hfile => ?_⟩
  · rw [hkinds.kind] at hdir
    have honce := h.shape.dirOnce target.ino ⟨hused, hdir⟩
    have hcount := nameCount_retie hedges target.ino
    simp only [Multiset.countP_add, countP_singleton_name, if_true, if_neg (Ne.symm htarget.ne)]
      at hcount
    omega
  · exact replaced_empty h.shape hfound htarget
  · rw [hkinds.kind, htarget.kind] at hfile
    rw [hbalance, linkCounts_iff.mp h.links _ (inTree_of_mem hmem), hfile]
    simp [oneAt]

private theorem movedOver_linkCounts (h : Consistent t) (hfound : FoundMove t oldPath newPath r)
    (htarget : Target t r target) :
    Shape (movedOver t r target.ino) ∧ (LinkCounts (movedOver t r target.ino) ↔
      ¬(r.inode.isDir = true ∧ r.oldParentIno = r.newParentIno)) := by
  obtain ⟨hkinds, hedges, hbalance⟩ := replaced_names h.shape hfound htarget
  have hold := h.shape.target_ne_old hfound htarget
  have hdet := replaced_detached h hfound htarget
  have hinode : (replaced t r).inodes target.ino = t.inodes target.ino := replaced_inodes hold
  have hmoved : movedOver t r target.ino
      = droppedLink (replaced t r) target.ino ((replaced t r).inodes target.ino) := by
    rw [hinode]
    rfl
  obtain ⟨hshape, hdrop⟩ := hdet.drop (replaced_shape h.shape hfound htarget)
  have hedges' := hdet.edges_drop
  rw [← hmoved, hkinds.kind, htarget.kind] at hdrop
  rw [← hmoved] at hshape hedges'
  -- what is left over is at the parent of a directory that has replaced its sibling
  have hrest : ∀ i, InTree (movedOver t r target.ino) i → balance (movedOver t r target.ino) i
        = if r.inode.isDir = true ∧ r.oldParentIno = r.newParentIno then oneAt r.oldParentIno i
          else 0 := fun i hi => by
    obtain ⟨hin, hdrop⟩ := hdrop i hi
    rw [hdrop, hbalance, linkCounts_iff.mp h.links i
      (inTree_of_replaced h.shape hfound htarget hin)]
    by_cases hdir : r.inode.isDir = true
    · simp [hdir]
    · simp [hdir]
  refine ⟨hshape, ?_⟩
  rw [linkCounts_iff]
  constructor
  · rintro hzero hsibling
    have hin : InTree (movedOver t r target.ino) r.oldParentIno := by
      obtain ⟨_, -, hparent⟩ := hfound.src.parent
      refine (h.shape.lookup_inTree hparent.lookup).imp_right fun hpos => ?_
      -- the parent keeps its name: it is not the one that was replaced
      have hcount := nameCount_retie hedges r.oldParentIno
      simp only [Multiset.countP_add, countP_singleton_name, if_neg hold] at hcount
      rw [nameCount, hedges', ← nameCount]
      omega
    have hone := hzero _ hin
    rw [hrest _ hin, if_pos hsibling, oneAt, if_pos rfl] at hone
    exact absurd hone one_ne_zero
  · intro hother i hi
    rw [hrest i hi, if_neg hother]

private theorem consistent_movedNew (h : Consistent t) (hfound : FoundMove t oldPath newPath r)
    (hlinks : r.reparents → r.oldParent.links ≠ 0 ∧ r.newParent.links ≠ 0xffff) :
    Consistent (movedNew t r) := by
  obtain ⟨hkinds, hedges, hbalance⟩ := movedNew_names h.shape hfound hlinks
  have hsrc := h.shape.src_mem hfound
  refine ⟨h.shape.retie hkinds hedges (by simpa using h.shape.namesUsed _ hsrc)
    (by simpa using h.shape.ne_root hsrc) fun d hd => ?_, linkCounts_iff.mpr fun i hi => ?_⟩
  · have := h.shape.dirOnce d hd
    simp only [countP_singleton_name]
    omega
  · rw [hbalance]
    refine linkCounts_iff.mp h.links i ?_
    obtain hi | ⟨x, hx, rfl⟩ := inTree_retie hedges hi
    · exact hi
    · rw [Multiset.mem_singleton.mp hx]
      exact inTree_of_mem (x := (r.oldParentIno, r.src.ino)) hsrc

end

/-! ### Runs -/

/-- The operations on names. -/
inductive NameOp where
  | create (path : List UInt8) (data : Bool)
  | mkdir (path : List UInt8)
  | symlink (target path : List UInt8)
  | link (oldPath newPath : List UInt8)
  | unlink (path : List UInt8)
  | rename (oldPath newPath : List UInt8)

/-- An operation, with the steps of it that fail. -/
def NameOp.exec (F : Faults) : NameOp → NameM Unit
  | .create path data => ext4CreateFile F path data
  | .mkdir path => ext4Mkdir F path
  | .symlink target path => ext4Symlink F target path
  | .link oldPath newPath => ext4Link F oldPath newPath
  | .unlink path => ext4Unlink F path
  | .rename oldPath newPath => ext4Rename F oldPath newPath

/-- A run of successful operations: each of them with the tree it leaves. -/
def Run : NameFs → List (NameOp × NameFs) → Prop
  | _, [] => True
  | t, (op, t') :: rest => (∃ F, (op.exec F).run t = (.ok (), t')) ∧ Run t' rest

/-- The operation renames a directory over another inode of the directory it is in. -/
def NameOp.ReplacesSibling (t : NameFs) : NameOp → Prop
  | .rename oldPath newPath => ∃ oldParent newParent d e e',
      splitParentPath oldPath = some (oldParent, e.name) ∧ ext4LookupPath t oldParent = .ok d ∧
      splitParentPath newPath = some (newParent, e'.name) ∧ ext4LookupPath t newParent = .ok d ∧
      Entry t d e ∧ Entry t d e' ∧ (t.inodes e.ino).isDir = true ∧ e'.ino ≠ e.ino
  | _ => False

/-- No operation of the run does that. -/
def NoSiblingReplaced : NameFs → List (NameOp × NameFs) → Prop
  | _, [] => True
  | t, (op, t') :: rest => ¬op.ReplacesSibling t ∧ NoSiblingReplaced t' rest

section

variable {F : Faults} {t t' : NameFs} {newPath oldPath : List UInt8} {r : Move}

theorem Consistent.setTarget (h : Consistent t) (ino : Nat) (target : List UInt8) :
    Consistent (t.setTarget ino target) :=
  ⟨⟨h.shape.root, h.shape.usedLe, h.shape.namesUsed, h.shape.rootUnnamed, h.shape.dirOnce⟩, h.links⟩

/-- A directory has one entry that a name leads to. -/
theorem Entry.unique {d : Nat} {e e' : DirEntry} (h : Entry t d e) (h' : Entry t d e')
    (hname : e.name = e'.name) : e = e' := by
  rw [Entry, hname, h'] at h
  exact (some.inj h).symm

/-- What the move of a rename finds, if it replaces a sibling. -/
theorem FoundMove.replacesSibling (h : FoundMove t oldPath newPath r) :
    (NameOp.rename oldPath newPath).ReplacesSibling t ↔
      r.inode.isDir = true ∧ r.oldParentIno = r.newParentIno ∧
        ∃ target, target.name = r.newName ∧ Entry t r.newParentIno target ∧
          target.ino ≠ r.src.ino := by
  obtain ⟨oldParent, hsplit, hold⟩ := h.src.parent
  obtain ⟨newParent, hsplit', hnew⟩ := h.dest
  constructor
  · rintro ⟨_, _, d, e, e', hs, hd, hs', hd', he, he', hdir, hne⟩
    rw [hsplit] at hs
    rw [hsplit'] at hs'
    simp only [some.injEq, Prod.mk.injEq] at hs hs'
    obtain ⟨rfl, hname⟩ := hs
    obtain ⟨rfl, hname'⟩ := hs'
    rw [hold.lookup] at hd
    rw [hnew.lookup] at hd'
    obtain rfl := Except.ok.inj hd
    have hsame := Except.ok.inj hd'
    obtain rfl := h.src.entry.unique he hname
    exact ⟨h.src.inode ▸ hdir, hsame.symm, e', hname'.symm, hsame ▸ he', hne⟩
  · rintro ⟨hdir, hsame, target, hname, hentry, hne⟩
    exact ⟨oldParent, newParent, r.oldParentIno, r.src, target, hsplit, hold.lookup,
      hname ▸ hsplit', hsame ▸ hnew.lookup, h.src.entry, hsame ▸ hentry, h.src.inode ▸ hdir, hne⟩

private theorem renamed_linkCounts (h : Consistent t)
    (hfound : FoundMove t oldPath newPath r) (hrenamed : Renamed t r t') :
    Shape t' ∧ (LinkCounts t' ↔ ¬(NameOp.rename oldPath newPath).ReplacesSibling t) := by
  rw [hfound.replacesSibling]
  cases hrenamed with
  | same target hname hentry heq =>
    refine ⟨h.shape, iff_of_true h.links ?_⟩
    rintro ⟨-, -, target', hname', hentry', hne⟩
    exact hne (hentry'.unique hentry (hname'.trans hname.symm) ▸ heq)
  | replacing target hname hentry hrange hne hkind hempty hlinks =>
    obtain ⟨hshape, hiff⟩ := movedOver_linkCounts h hfound
        ⟨⟨hname, hentry, hne⟩, hkind, hempty, hlinks⟩
    refine ⟨hshape, hiff.trans (not_congr (and_congr_right fun _ => ?_))⟩
    exact (and_iff_left ⟨target, hname, hentry, hne⟩).symm
  | new habsent hlinks =>
    have hmoved := consistent_movedNew h hfound hlinks
    refine ⟨hmoved.shape, iff_of_true hmoved.links ?_⟩
    rintro ⟨-, -, target, hname, hentry, -⟩
    rw [Entry, hname, habsent] at hentry
    cases hentry

/-- One operation. -/
theorem exec_linkCounts (h : Consistent t) {op : NameOp} (hrun : (op.exec F).run t = (.ok (), t')) :
    Shape t' ∧ (LinkCounts t' ↔ ¬op.ReplacesSibling t) := by
  have hof : ∀ {op : NameOp}, ¬op.ReplacesSibling t → Consistent t' →
      Shape t' ∧ (LinkCounts t' ↔ ¬op.ReplacesSibling t) := fun hnot ht' =>
    ⟨ht'.shape, iff_of_true ht'.links hnot⟩
  cases op with
  | create path data =>
    obtain ⟨place, ino, hnew, rfl⟩ := ext4CreateFile_ok h.shape.lookupsUsed hrun
    exact hof id (consistent_createdFile h hnew (by decide) (by decide) _)
  | mkdir path =>
    obtain ⟨place, ino, hnew, hlinks, rfl⟩ := ext4Mkdir_ok h.shape.lookupsUsed hrun
    exact hof id (consistent_createdDir h hnew hlinks)
  | symlink target path =>
    obtain ⟨place, ino, hnew, rfl⟩ := ext4Symlink_ok h.shape.lookupsUsed hrun
    have hcreated : Consistent (createdFile t place ino symlinkInode 7) :=
      consistent_createdFile h hnew (by decide) (by decide) _
    exact hof id (hcreated.setTarget ino target)
  | link oldPath newPath =>
    obtain ⟨place, ino, type, hplace, hlookup, hkind, hlinks, rfl⟩ := ext4Link_ok hrun
    exact hof id (consistent_linked h hplace (h.shape.lookup_inTree hlookup) hkind hlinks _)
  | unlink path =>
    obtain ⟨d, dir, e, inode, hfound, hdirs, rfl⟩ := ext4Unlink_ok hrun
    exact hof id (consistent_unlinked h hfound hdirs)
  | rename oldPath newPath =>
    obtain ⟨hsplit, rfl⟩ | ⟨r, hfound, hrenamed⟩ := ext4Rename_ok hrun
    · refine hof ?_ h
      rintro ⟨_, _, d, e, e', hs, hd, hs', hd', he, he', -, hne⟩
      rw [hsplit, hs'] at hs
      simp only [some.injEq, Prod.mk.injEq] at hs
      exact hne (he'.unique he hs.2 ▸ rfl)
    · exact renamed_linkCounts h hfound hrenamed

/-- Along a run of successful operations from a consistent tree the link counts are right as long as
no rename replaces a directory by one of its siblings, and no longer. -/
theorem run_linkCounts_iff (h : Consistent t) {l : List (NameOp × NameFs)} (hrun : Run t l) :
    (∀ x ∈ l, LinkCounts x.2) ↔ NoSiblingReplaced t l := by
  induction l generalizing t with
  | nil => simp [NoSiblingReplaced]
  | cons x l ih =>
    obtain ⟨⟨F, hstep⟩, hrest⟩ := hrun
    obtain ⟨hshape, hiff⟩ := exec_linkCounts h hstep
    rw [List.forall_mem_cons, NoSiblingReplaced, hiff]
    exact and_congr_right fun hnot => ih ⟨hshape, hiff.mpr hnot⟩ hrest

end

/-- A root with two empty directories `a` and `b`. -/
def siblings : NameFs where
  inodesCount := 16
  firstIno := 11
  inodes := fun i => if i = rootIno then ⟨0x41ed, 4, 0⟩ else if i = 11 ∨ i = 12 then newInode true
    else NameInode.zero
  used := fun i => i ≤ 12
  dirs := fun i =>
    if i = rootIno then newDirEntries 2 2 ++ [⟨[0x61], 11, 2⟩, ⟨[0x62], 12, 2⟩]
    else newDirEntries i 2
  targets := fun _ => []
  lastOrphan := 0

theorem siblings_consistent : Consistent siblings := by
  have hle : ∀ i, siblings.used i = true → i ≤ 12 := fun i hi => by simpa [siblings] using hi
  have hnames : ∀ x ∈ edges siblings, siblings.used x.2 = true := by decide +kernel
  have honce : ∀ d ≤ 12, nameCount siblings d ≤ 1 := by decide +kernel
  have hlinks : ∀ i ≤ 12, InTree siblings i → (siblings.inodes i).links.toNat
      = if (siblings.inodes i).isDir then 2 + subdirs siblings i else nameCount siblings i := by
    decide +kernel
  have hshape : Shape siblings := ⟨by decide, fun i hi => (hle i hi).trans (by decide), hnames,
    by decide +kernel, fun d hd => honce d (hle d hd.1)⟩
  exact ⟨hshape, fun i hi => hlinks i (hle i (hshape.inTree_used hi)) hi⟩

/-- No step fails. -/
def noFaults : Faults := fun _ => none

/-- The directory `a` moves into `b`. -/
def siblingsMoved : NameFs :=
  ((ext4Rename noFaults [0x2f, 0x61] [0x2f, 0x62, 0x2f, 0x61]).run siblings).2

theorem siblings_moved_linkCounts : LinkCounts siblingsMoved := by
  have hrun : Run siblings [(.rename [0x2f, 0x61] [0x2f, 0x62, 0x2f, 0x61], siblingsMoved)] :=
    ⟨⟨noFaults, Prod.ext (by decide +kernel) rfl⟩, trivial⟩
  refine (run_linkCounts_iff siblings_consistent hrun).mpr ⟨?_, trivial⟩ _
    (List.mem_singleton_self _)
  -- the two paths have different parents
  rintro ⟨_, _, d, e, e', hs, hd, hs', hd', -⟩
  have hnew : splitParentPath [0x2f, 0x62, 0x2f, 0x61] = some ([0x2f, 0x62], [0x61]) := by
    decide +kernel
  rw [hnew] at hs'
  obtain ⟨rfl, -⟩ := Prod.mk.inj (some.inj hs)
  obtain ⟨rfl, -⟩ := Prod.mk.inj (some.inj hs')
  have hb : ext4LookupPath siblings [0x2f, 0x62] = .ok 12 := by decide +kernel
  rw [hb, ← hd] at hd'
  exact absurd (Except.ok.inj hd') (by decide)

/-- The root keeps the link of the directory that is replaced. -/
theorem rename_over_sibling_keeps_link :
    Consistent siblings ∧ ∃ t', (ext4Rename noFaults [0x2f, 0x61] [0x2f, 0x62]).run siblings
      = (.ok (), t') ∧ ¬LinkCounts t' := by
  refine ⟨siblings_consistent, _, Prod.ext (by decide +kernel) rfl, fun h => ?_⟩
  have hroot := h rootIno (Or.inl rfl)
  revert hroot
  decide +kernel

end Rabbitbone.Spec.Ext4
