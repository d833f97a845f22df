import Rabbitbone.Native.Ext4.NameOps

/-!
# What successful calls do to the names

A call that returns without an error has gone through all its steps and undone none of them.  For
each of the functions that create, link, remove and rename, this file says what it has found and
what it has done, as edits of the entries, the inodes and the bitmap.

## Key results

- `ext4CreateFile_ok`, `ext4Mkdir_ok`, `ext4Symlink_ok`, `ext4Link_ok`, `ext4Unlink_ok`,
  `ext4Rename_ok`.
-/

namespace Rabbitbone.Spec.Ext4

open Native.Ext4 Native.Path FallibleState Function NameFs

variable {d ino child : Nat} {e : DirEntry} {u : Unit} {dir : NameInode}
  {name path oldPath newPath : List UInt8} {type : UInt8} {place : Place} {r : Move}

section

variable {F : Faults} {p : Point} {t t' : NameFs} {α : Type} {parent target : List UInt8}
  {inode' : NameInode}

/-! ### Steps -/

/-- A step succeeds if nothing fails there. -/
theorem step_ok {x : NameM α} {a : α} :
    (step F p x).run t = (.ok a, t') ↔ F p = none ∧ x.run t = (.ok a, t') := by
  rw [step]
  match hF : F p with
  | none => simp
  | some ⟨e, false⟩ => simp [fail_ok]
  | some ⟨e, true⟩ => simp [bind_ok, fail_ok]

theorem readStep_ok {f : NameFs → Except Ext4Status α} {a : α} :
    (readStep F p f).run t = (.ok a, t') ↔ F p = none ∧ f t = .ok a ∧ t' = t := by
  rw [readStep]
  match hF : F p with
  | none => simp [eq_comm]
  | some fault => simp [fail_ok]

/-! ### Edits -/

/-- A new entry of a directory. -/
def addEntry (t : NameFs) (d : Nat) (e : DirEntry) : NameFs := t.setDir d (t.dirs d ++ [e])

/-- A directory without an entry. -/
def eraseEntry (t : NameFs) (d : Nat) (name : List UInt8) : NameFs :=
  t.setDir d (eraseName (t.dirs d) name)

/-- A directory with another inode under a name. -/
def putEntry (t : NameFs) (d : Nat) (name : List UInt8) (child : Nat) (type : UInt8) : NameFs :=
  t.setDir d (replaceName name child type (t.dirs d))

/-- A directory with another parent. -/
def putDotdot (t : NameFs) (d parent : Nat) : NameFs :=
  t.setDir d (replaceDotdot parent (t.dirs d))

/-- An inode that is gone.  The orphan list is gone with it: its head is taken from the inode when
that has been cleared. -/
def freed (t : NameFs) (ino : Nat) : NameFs :=
  { (t.setInode ino NameInode.zero).setUsed ino false with lastOrphan := 0 }

/-- The entry that a name stands for. -/
def Entry (t : NameFs) (d : Nat) (e : DirEntry) : Prop :=
  (t.dirs d).find? (fun e' => e'.name = e.name) = some e

theorem Entry.mem (h : Entry t d e) : e ∈ t.dirs d := List.mem_of_find?_eq_some h

theorem nameWriteInode_ok {inode : NameInode} : (nameWriteInode ino inode).run t = (.ok u, t') ↔
      (ino ≠ 0 ∧ ino ≤ t.inodesCount) ∧ t' = t.setInode ino inode := by
  rw [nameWriteInode, get_bind_ok, require_bind_ok, modify_ok]

theorem setInode_self (t : NameFs) (ino : Nat) : t.setInode ino (t.inodes ino) = t := by
  rw [setInode, update_eq_self]

/-- A directory operation stores the inode it was given; that changes nothing if it is the one that
was read. -/
theorem nameWriteInode_self_ok {inode : NameInode} (h : t.inodes ino = inode)
    (hrun : (nameWriteInode ino inode).run t = (.ok u, t')) : t' = t := by
  rw [(nameWriteInode_ok.mp hrun).2, ← h, setInode_self]

private theorem dirAddEntry_ok (hdir : t.inodes d = dir)
    (h : (dirAddEntry d dir name child type).run t = (.ok u, t')) :
    t' = addEntry t d ⟨name, child, type⟩ := by
  rw [dirAddEntry, require_bind_ok, require_bind_ok, modify_bind_ok] at h
  exact nameWriteInode_self_ok hdir h.2.2

private theorem dirRemoveEntry_ok (hdir : t.inodes d = dir)
    (h : (dirRemoveEntry d dir name).run t = (.ok u, t')) : t' = eraseEntry t d name := by
  rw [dirRemoveEntry, require_bind_ok, get_bind_ok, require_bind_ok, modify_bind_ok] at h
  exact nameWriteInode_self_ok hdir h.2.2

/-- Removing an entry that is there succeeds. -/
theorem dirRemoveEntry_run (hvalid : nameValid e.name false = true) (hentry : Entry t d e)
    (hrange : d ≠ 0 ∧ d ≤ t.inodesCount) :
    (dirRemoveEntry d (t.inodes d) e.name).run t = (.ok (), eraseEntry t d e.name) := by
  have hany : (t.dirs d).any (fun e' => e'.name = e.name) = true :=
    List.any_eq_true.mpr ⟨e, hentry.mem, by simp⟩
  rw [dirRemoveEntry, require_bind_ok, get_bind_ok, require_bind_ok, modify_bind_ok,
    nameWriteInode_ok]
  exact ⟨hvalid, hany, hrange, (setInode_self (eraseEntry t d e.name) d).symm⟩

/-- Replacing an entry that is there succeeds. -/
theorem dirReplaceEntry_run (hvalid : nameValid e.name false = true) (hentry : Entry t d e)
    (hrange : d ≠ 0 ∧ d ≤ t.inodesCount) :
    (dirReplaceEntry d dir e.name child type).run t
      = (.ok e, (putEntry t d e.name child type).setInode d dir) := by
  rw [dirReplaceEntry, require_bind_ok, get_bind_ok, bind_of_ok (ofOption_of_some hentry),
    modify_bind_ok, bind_ok]
  exact ⟨hvalid, (), _, nameWriteInode_ok.mpr ⟨hrange, rfl⟩, rfl⟩

private theorem dirReplaceEntry_ok {old : DirEntry} (hdir : t.inodes d = dir)
    (h : (dirReplaceEntry d dir name child type).run t = (.ok old, t')) :
    t' = putEntry t d name child type := by
  rw [dirReplaceEntry, require_bind_ok, get_bind_ok, bind_ok] at h
  obtain ⟨-, _, t₁, hold, h⟩ := h
  rw [(ofOption_ok.mp hold).2, modify_bind_ok, bind_ok] at h
  obtain ⟨_, t₂, hwrite, h⟩ := h
  rw [(pure_ok.mp h).2]
  exact nameWriteInode_self_ok hdir hwrite

/-- The directory has an entry for its parent. -/
def HasDotdot (t : NameFs) (d : Nat) : Prop := (t.dirs d).any (fun e => e.name = [dot, dot]) = true

private theorem dirUpdateDotdot_ok {parent : Nat} :
    (dirUpdateDotdot d dir parent).run t = (.ok u, t') ↔
      dir.isDir = true ∧ HasDotdot t d ∧ t' = putDotdot t d parent := by
  rw [dirUpdateDotdot, require_bind_ok, get_bind_ok, require_bind_ok, modify_ok]
  rfl

/-! ### Looking up -/

theorem readNameInode_ok {inode : NameInode} :
    readNameInode t ino = .ok inode ↔ (ino ≠ 0 ∧ ino ≤ t.inodesCount) ∧ inode = t.inodes ino := by
  rw [readNameInode]
  split
  · rename_i h
    simp only [reduceCtorEq, false_iff, not_and]
    omega
  rename_i h
  rw [not_or, Nat.not_lt] at h
  simp [h, eq_comm]

/-- A name that is found is the first entry of that name. -/
theorem findInDir_ok : findInDir t d dir name = .ok e ↔
      nameValid name true = true ∧ dir.isDir = true ∧ e.name = name ∧ Entry t d e := by
  rw [findInDir]
  split
  · rename_i h
    rw [Bool.not_eq_true'] at h
    simp [h]
  rename_i hvalid
  split
  · rename_i h
    rw [Bool.not_eq_true'] at h
    simp [h]
  rename_i hdir
  have hvalid : nameValid name true = true := by simpa using hvalid
  have hdir : dir.isDir = true := by simpa using hdir
  split
  · rename_i hnone
    simp only [reduceCtorEq, false_iff, not_and]
    rintro - - rfl hentry
    rw [Entry, hnone] at hentry
    exact absurd hentry (by simp)
  rename_i e' hsome
  have hname : e'.name = name := by simpa using List.find?_some hsome
  constructor
  · intro heq
    obtain rfl := Except.ok.inj heq
    exact ⟨hvalid, hdir, hname, by rw [Entry, hname]; exact hsome⟩
  · rintro ⟨-, -, rfl, hentry⟩
    rw [Entry, hsome] at hentry
    rw [Option.some.inj hentry]

/-- The last component of a path is a valid name, not a dot. -/
theorem splitParentPath_valid
    (h : splitParentPath path = some (parent, name)) : nameValid name false = true := by
  rw [splitParentPath] at h
  split at h
  · exact nomatch h
  dsimp only at h
  split at h
  · exact nomatch h
  rename_i hvalid
  simp only [Option.some.injEq, Prod.mk.injEq] at h
  rw [← h.2]
  simpa using hvalid

theorem not_dot_of_valid (h : nameValid name false = true) : nameIsDot name = false := by
  simp only [nameValid, Bool.false_or, Bool.and_eq_true, Bool.not_eq_true'] at h
  exact h.1.2

/-- A directory that was looked up, with the copy of its inode. -/
structure FoundDir (t : NameFs) (path : List UInt8) (d : Nat) (dir : NameInode) : Prop where
  lookup : ext4LookupPath t path = .ok d
  inode : t.inodes d = dir
  isDir : dir.isDir = true

/-- The place for a new name. -/
structure FoundPlace (t : NameFs) (path : List UInt8) (place : Place) : Prop where
  parent : ∃ parentPath, splitParentPath path = some (parentPath, place.name) ∧
    FoundDir t parentPath place.parentIno place.parent
  absent : (t.dirs place.parentIno).find? (fun e => e.name = place.name) = none

private theorem findInDir_notFound (h : findInDir t d dir name = .error .notFound) :
    (t.dirs d).find? (fun e => e.name = name) = none := by
  rw [findInDir] at h
  split at h
  · exact nomatch h
  split at h
  · exact nomatch h
  split at h
  · rename_i hnone
    exact hnone
  · exact nomatch h

/-- A search that ends with `notFound` has found nothing. -/
theorem readStep_notFound {f : NameFs → Except Ext4Status α}
    (h : (readStep F p f).run t = (.error .notFound, t')) : f t = .error .notFound ∧ t' = t := by
  rw [readStep] at h
  match hF : F p with
  | none =>
    rw [hF] at h
    obtain ⟨h1, h2⟩ := Prod.mk.inj h
    exact ⟨h1, h2.symm⟩
  | some fault =>
    rw [hF] at h
    obtain ⟨h1, -⟩ := Prod.mk.inj h
    have hstatus := Except.error.inj h1
    split at hstatus
    · exact nomatch hstatus
    · rename_i hne
      exact absurd hstatus hne

/-- What a step that reads returns, it returns without a change. -/
theorem readStep_run (F : Faults) (p : Point) (f : NameFs → Except Ext4Status α) (t : NameFs) :
    ((readStep F p f).run t).2 = t := by
  rw [readStep]
  split <;> rfl

private theorem newPlace_ok {atLookup atFind : Point}
    (h : (newPlace F atLookup atFind path).run t = (.ok place, t')) :
    FoundPlace t path place ∧ t' = t := by
  rw [newPlace, bind_ok] at h
  obtain ⟨⟨parentPath, name⟩, t₁, hsplit, h⟩ := h
  rw [ofOption_ok] at hsplit
  obtain ⟨hsplit, rfl⟩ := hsplit
  rw [bind_ok] at h
  obtain ⟨parentIno, t₂, hlookup, h⟩ := h
  rw [readStep_ok] at hlookup
  obtain ⟨-, hlookup, rfl⟩ := hlookup
  rw [get_bind_ok, require_bind_ok] at h
  obtain ⟨hdir, h⟩ := h
  rw [bind_ok] at h
  obtain ⟨found, t₃, hfind, h⟩ := h
  rw [attempt_ok] at hfind
  split at h
  · exact (fail_ok.mp h).elim
  · obtain ⟨hnone, rfl⟩ := readStep_notFound hfind
    obtain ⟨rfl, rfl⟩ := pure_ok.mp h
    exact ⟨⟨⟨parentPath, hsplit, hlookup, rfl, hdir⟩, findInDir_notFound hnone⟩, rfl⟩
  · exact (fail_ok.mp h).elim

/-! ### Creating -/

private theorem firstFree_some {used : Nat → Bool} {count first : Nat}
    (h : firstFree used count first = some ino) :
    used ino = false ∧ first ≤ ino ∧ ino < first + count := by
  induction count generalizing first with
  | zero => exact nomatch h
  | succ count ih =>
    rw [firstFree] at h
    split at h
    · obtain ⟨hfree, hle, hlt⟩ := ih h
      exact ⟨hfree, by omega, by omega⟩
    rename_i hfree
    obtain rfl := Option.some.inj h
    exact ⟨by simpa using hfree, le_refl _, by omega⟩

/-- An inode that can be handed out. -/
structure FreeIno (t : NameFs) (ino : Nat) : Prop where
  free : t.used ino = false
  pos : ino ≠ 0
  le : ino ≤ t.inodesCount

private theorem nameAllocInode_ok (h : nameAllocInode.run t = (.ok ino, t')) :
    FreeIno t ino ∧ t' = t.setUsed ino true := by
  rw [nameAllocInode, get_bind_ok, bind_ok] at h
  obtain ⟨ino', t₁, hfree, h⟩ := h
  rw [ofOption_ok] at hfree
  obtain ⟨hfree, rfl⟩ := hfree
  obtain ⟨rfl, rfl⟩ := h
  obtain ⟨hused, hle, hlt⟩ := firstFree_some hfree
  refine ⟨⟨hused, ?_, by omega⟩, rfl⟩
  split at hle <;> omega

/-- A new file in the place. -/
def createdFile (t : NameFs) (place : Place) (ino : Nat) (inode : NameInode) (type : UInt8) :
    NameFs :=
  addEntry ((t.setUsed ino true).setInode ino inode) place.parentIno ⟨place.name, ino, type⟩

/-- A new directory in the place. -/
def createdDir (t : NameFs) (place : Place) (ino : Nat) : NameFs :=
  (addEntry (((t.setUsed ino true).setDir ino (newDirEntries ino place.parentIno)).setInode ino
      (newInode true)) place.parentIno ⟨place.name, ino, 2⟩).setInode place.parentIno
    { place.parent with links := place.parent.links + 1 }

/-- The place of a new name and the inode for it. -/
structure FoundNew (t : NameFs) (path : List UInt8) (place : Place) (ino : Nat) : Prop where
  place : FoundPlace t path place
  free : FreeIno t ino

/-- Whatever is looked up is in use. -/
def LookupsUsed (t : NameFs) : Prop :=
  ∀ path d, ext4LookupPath t path = .ok d → t.used d = true

/-- A new inode is not the directory it goes to: that one is used. -/
theorem FoundNew.ne (h : FoundNew t path place ino) (hused : LookupsUsed t) :
    place.parentIno ≠ ino := by
  rintro rfl
  obtain ⟨parentPath, -, hfound⟩ := h.place.parent
  have hfree := h.free.free
  rw [hused _ _ hfound.lookup] at hfree
  exact nomatch hfree

/-- The link count of an inode goes up unless it is the largest. -/
theorem linksIncChecked_eq_some {inode : NameInode} : inode.linksIncChecked = some inode' ↔
      inode.links ≠ 0xffff ∧ inode' = { inode with links := inode.links + 1 } := by
  rw [NameInode.linksIncChecked]
  split <;> simp_all [eq_comm]

/-- The link count of an inode goes down unless it is zero. -/
theorem linksDecChecked_eq_some {inode : NameInode} : inode.linksDecChecked = some inode' ↔
      inode.links ≠ 0 ∧ inode' = { inode with links := inode.links - 1 } := by
  rw [NameInode.linksDecChecked]
  split <;> simp_all [eq_comm]

theorem FoundPlace.inode (h : FoundPlace t path place) :
    t.inodes place.parentIno = place.parent := by
  obtain ⟨_, -, hfound⟩ := h.parent
  exact hfound.inode

private theorem createLink_ok {inode : NameInode} (hne : place.parentIno ≠ ino)
    (hparent : t.inodes place.parentIno = place.parent)
    (h : (createLink F place ino inode type).run t = (.ok u, t')) :
    t' = addEntry (t.setInode ino inode) place.parentIno ⟨place.name, ino, type⟩ := by
  simp only [createLink, bind_ok, step_ok, nameWriteInode_ok] at h
  obtain ⟨_, t₁, ⟨-, -, rfl⟩, -, hadd⟩ := h
  refine dirAddEntry_ok ?_ hadd
  exact (update_of_ne hne _ _).trans hparent

/-- A successful `ext4_create_file` has added a file. -/
theorem ext4CreateFile_ok {data : Bool} (hused : LookupsUsed t)
    (h : (ext4CreateFile F path data).run t = (.ok (), t')) :
    ∃ place ino, FoundNew t path place ino ∧ t' = createdFile t place ino (newInode false) 1 := by
  simp only [ext4CreateFile, createNode, bind_ok, require_ok, step_ok, undoing_ok] at h
  obtain ⟨place, _, hplace, _, _, ⟨-, rfl⟩, ino, t₁, ⟨-, halloc⟩, _, t₂, ⟨_, t₃, hblock, hlink⟩,
    hfinish⟩ := h
  obtain ⟨hplace, rfl⟩ := newPlace_ok hplace
  obtain ⟨hfree, rfl⟩ := nameAllocInode_ok halloc
  have hnew : FoundNew _ path place ino := ⟨hplace, hfree⟩
  obtain ⟨-, rfl⟩ := pure_ok.mp hblock
  have hcreated : t₂ = createdFile _ place ino (newInode false) 1 :=
    createLink_ok (hnew.ne hused) hplace.inode hlink
  subst hcreated
  refine ⟨place, ino, hnew, ?_⟩
  rw [createFinish] at hfinish
  simp only [Bool.false_eq_true, if_false] at hfinish
  split at hfinish
  · refine nameWriteInode_self_ok ?_ (step_ok.mp hfinish).2
    exact update_self _ _ _
  · exact (pure_ok.mp hfinish).2

/-- A successful `ext4_mkdir` has added a directory. -/
theorem ext4Mkdir_ok (hused : LookupsUsed t) (h : (ext4Mkdir F path).run t = (.ok (), t')) :
    ∃ place ino, FoundNew t path place ino ∧ place.parent.links ≠ 0xffff ∧
      t' = createdDir t place ino := by
  simp only [ext4Mkdir, createNode, bind_ok, require_ok, step_ok, undoing_ok, createBlock,
    createFinish, if_true, ofOption_ok, linksIncChecked_eq_some, modify_ok, pure_ok,
    nameWriteInode_ok] at h
  obtain ⟨place, _, hplace, _, _, ⟨-, rfl⟩, ino, t₁, ⟨-, halloc⟩, _, t₂,
    ⟨_, t₃, ⟨_, _, ⟨-, -, rfl⟩, -, rfl⟩, hlink⟩, _, _, ⟨⟨hlinks, rfl⟩, rfl⟩, -, -, rfl⟩ := h
  obtain ⟨hplace, rfl⟩ := newPlace_ok hplace
  obtain ⟨hfree, rfl⟩ := nameAllocInode_ok halloc
  have hnew : FoundNew _ path place ino := ⟨hplace, hfree⟩
  have hlinked := createLink_ok (hnew.ne hused) (by exact hplace.inode) hlink
  subst hlinked
  exact ⟨place, ino, hnew, hlinks, rfl⟩

private theorem symlinkStore_ok (h : (symlinkStore F ino target).run t = (.ok u, t')) :
    t' = (t.setInode ino symlinkInode).setTarget ino target := by
  rw [symlinkStore] at h
  split at h
  · simp only [step_ok, bind_ok, nameWriteInode_ok, modify_ok] at h
    obtain ⟨-, _, _, ⟨-, rfl⟩, rfl⟩ := h
    rfl
  simp only [step_ok, bind_ok, nameWriteInode_ok, modify_ok] at h
  obtain ⟨_, _, ⟨-, -, rfl⟩, -, rfl⟩ := h
  rfl

/-- A successful `ext4_symlink` has added a link with its target. -/
theorem ext4Symlink_ok (hused : LookupsUsed t)
    (h : (ext4Symlink F target path).run t = (.ok (), t')) :
    ∃ place ino, FoundNew t path place ino ∧
      t' = createdFile (t.setTarget ino target) place ino symlinkInode 7 := by
  simp only [ext4Symlink, bind_ok, require_ok, step_ok, undoing_ok] at h
  obtain ⟨_, _, ⟨-, rfl⟩, place, _, hplace, ino, t₁, ⟨-, halloc⟩, _, t₂, hstore, -, hadd⟩ := h
  obtain ⟨hplace, rfl⟩ := newPlace_ok hplace
  obtain ⟨hfree, rfl⟩ := nameAllocInode_ok halloc
  have hnew : FoundNew _ path place ino := ⟨hplace, hfree⟩
  obtain rfl := symlinkStore_ok hstore
  refine ⟨place, ino, hnew, dirAddEntry_ok ?_ hadd⟩
  exact (update_of_ne (hnew.ne hused) _ _).trans hplace.inode

/-! ### Linking -/

/-- Another name for a file. -/
def linked (t : NameFs) (place : Place) (ino : Nat) (type : UInt8) : NameFs :=
  (addEntry t place.parentIno ⟨place.name, ino, type⟩).setInode ino
    { t.inodes ino with links := (t.inodes ino).links + 1 }

/-- A successful `ext4_link` has added a name of a file that was there. -/
theorem ext4Link_ok (h : (ext4Link F oldPath newPath).run t = (.ok (), t')) :
    ∃ place ino type, FoundPlace t newPath place ∧ ext4LstatPath t oldPath = .ok ino ∧
      (t.inodes ino).isDir = false ∧ (t.inodes ino).links ≠ 0xffff ∧
      t' = linked t place ino type := by
  rw [ext4Link, bind_ok] at h
  obtain ⟨ino, _, hlookup, h⟩ := h
  rw [readStep_ok] at hlookup
  obtain ⟨-, hlookup, rfl⟩ := hlookup
  simp only [get_bind_ok, require_bind_ok] at h
  obtain ⟨hdir, -, ⟨-, hlinks⟩, h⟩ := h
  rw [bind_ok] at h
  obtain ⟨place, _, hplace, h⟩ := h
  obtain ⟨hplace, rfl⟩ := newPlace_ok hplace
  rw [bind_ok] at h
  obtain ⟨_, t₁, hadd, h⟩ := h
  obtain rfl := dirAddEntry_ok hplace.inode (step_ok.mp hadd).2
  simp only [undoing_ok, bind_ok, ofOption_ok, linksIncChecked_eq_some, step_ok,
    nameWriteInode_ok] at h
  obtain ⟨_, _, ⟨⟨-, rfl⟩, rfl⟩, -, -, rfl⟩ := h
  exact ⟨place, ino, _, hplace, hlookup, hdir, hlinks, rfl⟩

/-! ### Removing -/

private theorem nameFreeInode_ok (h : (nameFreeInode ino).run t = (.ok u, t')) :
    t.used ino = true ∧ t' = t.setUsed ino false := by
  rw [nameFreeInode, get_bind_ok, require_bind_ok, require_bind_ok, modify_ok] at h
  exact h.2

private theorem nameFreeOrphan_ok (hhead : t.lastOrphan = ino)
    (h : (nameFreeOrphan F ino).run t = (.ok u, t')) :
    (ino ≠ 0 ∧ t.used ino = true) ∧ t' = freed t ino := by
  simp only [nameFreeOrphan, bind_ok, step_ok, nameWriteInode_ok] at h
  obtain ⟨_, _, ⟨-, ⟨hpos, hle⟩, rfl⟩, _, _, ⟨-, hfree⟩, h⟩ := h
  obtain ⟨hused, rfl⟩ := nameFreeInode_ok hfree
  refine ⟨⟨hpos, hused⟩, ?_⟩
  rw [nameOrphanRemove, get_bind_ok] at h
  -- the inode is at the head, so the loop makes one turn
  obtain ⟨turns, hturns⟩ : ∃ turns, t.inodesCount = turns + 1 := ⟨t.inodesCount - 1, by
    omega⟩
  dsimp only [setInode, setUsed] at h
  rw [hturns, hhead, nameOrphanRemoveLoop, if_neg hpos, bind_ok] at h
  obtain ⟨inode, _, hread, h⟩ := h
  rw [readStep_ok, readNameInode_ok] at hread
  obtain ⟨-, ⟨-, hinode⟩, rfl⟩ := hread
  dsimp only at hinode
  rw [update_self] at hinode
  subst hinode
  simp only [if_true, nameOrphanUnlink, bind_ok, modify_ok, step_ok, pure_ok,
    nameWriteInode_ok] at h
  obtain ⟨_, _, ⟨_, _, rfl, -, -, rfl⟩, -, -, rfl⟩ := h
  simp only [freed, setInode, setUsed, update_idem, NameInode.zero, hturns]

private theorem nameFreeRemovedInode_ok {inode : NameInode} {r : NameInode × Except Ext4Status Unit}
    (h : (nameFreeRemovedInode F ino inode).run t = (.ok r, t')) (hr : r.2 = .ok ()) :
    (ino ≠ 0 ∧ t.used ino = true) ∧ t' = freed t ino := by
  rw [nameFreeRemovedInode, get_bind_ok] at h
  rw [bind_ok] at h
  obtain ⟨pushed, t₁, hpush, h⟩ := h
  rw [attempt_ok] at hpush
  cases pushed with
  | error e =>
    obtain ⟨rfl, -⟩ := pure_ok.mp h
    exact nomatch hr
  | ok u =>
    rw [bind_ok] at h
    obtain ⟨result, t₂, hfree, h⟩ := h
    rw [attempt_ok] at hfree
    obtain ⟨rfl, rfl⟩ := pure_ok.mp h
    subst hr
    simp only [bind_ok, nameOrphanPush, step_ok, nameWriteInode_ok, modify_ok, pure_ok] at hpush
    obtain ⟨_, _, ⟨_, _, ⟨-, -, rfl⟩, _, _, rfl, -, -, rfl⟩, -, -, rfl⟩ := hpush
    obtain ⟨hused, rfl⟩ := nameFreeOrphan_ok (by rfl) hfree
    refine ⟨hused, ?_⟩
    simp only [freed, setInode, setUsed, update_idem]

/-- The link of an inode that has lost a name: it is counted off, or the inode goes. -/
def droppedLink (t : NameFs) (ino : Nat) (inode : NameInode) : NameFs :=
  if inode.isDir = false ∧ 1 < inode.links then
    t.setInode ino { inode with links := inode.links - 1 }
  else freed t ino

private theorem nameDropRemovedLink_ok {inode : NameInode} {r : NameInode × Except Ext4Status Unit}
    (h : (nameDropRemovedLink F ino inode).run t = (.ok r, t')) (hr : r.2 = .ok ()) :
    t' = droppedLink t ino inode := by
  rw [nameDropRemovedLink] at h
  rw [droppedLink]
  split at h
  · rename_i hlinks
    rw [if_pos hlinks]
    rw [bind_ok] at h
    obtain ⟨stored, t₁, hstore, h⟩ := h
    rw [attempt_ok] at hstore
    obtain ⟨rfl, rfl⟩ := pure_ok.mp h
    subst hr
    exact (nameWriteInode_ok.mp (step_ok.mp hstore).2).2
  · rename_i hlinks
    rw [if_neg hlinks]
    exact (nameFreeRemovedInode_ok h hr).2

/-- A directory without names. -/
def EmptyDir (t : NameFs) (d : Nat) : Prop := ∀ e ∈ t.dirs d, nameIsDot e.name = true

private theorem dirIsEmpty_ok (hdir : dir.isDir = true) :
    dirIsEmpty t d dir = .ok true ↔ EmptyDir t d := by
  rw [dirIsEmpty, if_neg (by simp [hdir]), Except.ok.injEq, List.all_eq_true]
  rfl

/-- A directory that may be removed is empty. -/
theorem requireEmpty_ok {inode : NameInode} : (requireEmpty F ino inode).run t = (.ok u, t') ↔
      (inode.isDir = true → EmptyDir t ino ∧ F .listDir = none) ∧ t' = t := by
  rw [requireEmpty]
  split
  · rename_i hdir
    simp only [bind_ok, readStep_ok, require_ok]
    constructor
    · rintro ⟨empty, _, ⟨hF, hempty, rfl⟩, rfl, rfl⟩
      exact ⟨fun _ => ⟨(dirIsEmpty_ok hdir).mp hempty, hF⟩, rfl⟩
    · rintro ⟨hempty, rfl⟩
      exact ⟨true, _, ⟨(hempty hdir).2, (dirIsEmpty_ok hdir).mpr (hempty hdir).1, rfl⟩, rfl, rfl⟩
  · rename_i hdir
    rw [pure_ok]
    exact ⟨fun h => ⟨fun h' => absurd h' hdir, h.2⟩, fun h => ⟨rfl, h.2⟩⟩

/-- A name that was found, with its directory and its inode. -/
structure FoundEntry (t : NameFs) (path : List UInt8) (d : Nat) (dir : NameInode) (e : DirEntry)
    (inode : NameInode) : Prop where
  parent : ∃ parentPath, splitParentPath path = some (parentPath, e.name) ∧
    FoundDir t parentPath d dir
  entry : Entry t d e
  inode : t.inodes e.ino = inode
  range : e.ino ≠ 0 ∧ e.ino ≤ t.inodesCount

theorem nameValid_of_split (h : splitParentPath path = some (parent, name)) :
    nameValid name true = true := by
  have hvalid := splitParentPath_valid h
  simp only [nameValid, Bool.and_eq_true, Bool.true_or, and_true] at hvalid ⊢
  exact ⟨hvalid.1.1, hvalid.2⟩

/-- The steps that find the name to remove do not fail. -/
def FindsName (F : Faults) (isDir : Bool) : Prop :=
  F .lookup = none ∧ F .find = none ∧ F .readInode = none ∧ (isDir = true → F .listDir = none)

/-- What `ext4_unlink` has found. -/
theorem unlinkFind_ok {r : Removal} : (unlinkFind F path).run t = (.ok r, t') ↔
      FoundEntry t path r.parentIno r.parent r.entry r.inode ∧
      (r.inode.isDir = true → EmptyDir t r.entry.ino) ∧ FindsName F r.inode.isDir ∧ t' = t := by
  simp only [unlinkFind, bind_ok, ofOption_ok, readStep_ok, get_ok, findInDir_ok, readNameInode_ok,
    requireEmpty_ok, pure_ok]
  constructor
  · rintro ⟨⟨parentPath, name⟩, _, ⟨hsplit, rfl⟩, parentIno, _, ⟨hF₁, hlookup, rfl⟩, _,
      _, ⟨rfl, rfl⟩,
      entry, _, ⟨hF₂, ⟨-, hdir, rfl, hentry⟩, rfl⟩, inode, _, ⟨hF₃, ⟨hrange, rfl⟩, rfl⟩, _, _,
      ⟨hempty, rfl⟩, rfl, rfl⟩
    exact ⟨⟨⟨parentPath, hsplit, hlookup, rfl, hdir⟩, hentry, rfl, hrange⟩,
      fun hdir => (hempty hdir).1, ⟨hF₁, hF₂, hF₃, fun hdir => (hempty hdir).2⟩, rfl⟩
  · rintro ⟨⟨⟨parentPath, hsplit, hlookup, hparent, hdir⟩, hentry, hinode, hrange⟩, hempty,
      ⟨hF₁, hF₂, hF₃, hF₄⟩, rfl⟩
    refine ⟨(parentPath, r.entry.name), _, ⟨hsplit, rfl⟩, r.parentIno, _, ⟨hF₁, hlookup, rfl⟩, _, _,
      ⟨rfl, rfl⟩, r.entry, _, ⟨hF₂, ⟨nameValid_of_split hsplit, hparent ▸ hdir, rfl, hentry⟩, rfl⟩,
      r.inode, _, ⟨hF₃, ⟨hrange, hinode.symm⟩, rfl⟩, (), _,
      ⟨fun hdir => ⟨hempty hdir, hF₄ hdir⟩, rfl⟩, ?_, rfl⟩
    rw [hparent]

/-- The link count of a parent that has lost a directory. -/
def parentDropped (t : NameFs) (d : Nat) (dir : NameInode) (isDir : Bool) : NameFs :=
  if isDir then t.setInode d { dir with links := dir.links - 1 } else t

/-- The directory loses the link that a removed directory had to it. -/
theorem unlinkParent_ok {r : Removal} : (unlinkParent F r).run t = (.ok u, t') ↔
      (r.inode.isDir = true → r.parent.links ≠ 0 ∧ F .writeParent = none ∧
        r.parentIno ≠ 0 ∧ r.parentIno ≤ t.inodesCount) ∧
      t' = parentDropped t r.parentIno r.parent r.inode.isDir := by
  rw [unlinkParent, parentDropped]
  split
  · rename_i hdir
    simp only [undoing_ok, bind_ok, ofOption_ok, linksDecChecked_eq_some, step_ok,
      nameWriteInode_ok]
    constructor
    · rintro ⟨_, _, ⟨⟨hlinks, rfl⟩, rfl⟩, hF, hrange, rfl⟩
      exact ⟨fun _ => ⟨hlinks, hF, hrange⟩, rfl⟩
    · rintro ⟨h, rfl⟩
      obtain ⟨hlinks, hF, hrange⟩ := h hdir
      exact ⟨_, _, ⟨⟨hlinks, rfl⟩, rfl⟩, hF, hrange, rfl⟩
  · rename_i hdir
    rw [pure_ok]
    exact ⟨fun h => ⟨fun h' => absurd h' hdir, h.2⟩, fun h => ⟨rfl, h.2⟩⟩

/-- A successful `ext4_unlink` has erased the name and dropped a link. -/
theorem ext4Unlink_ok (h : (ext4Unlink F path).run t = (.ok (), t')) :
    ∃ d dir e inode, FoundEntry t path d dir e inode ∧
      (inode.isDir = true → EmptyDir t e.ino ∧ dir.links ≠ 0) ∧
      t' = droppedLink (parentDropped (eraseEntry t d e.name) d dir inode.isDir) e.ino inode := by
  rw [ext4Unlink, bind_ok] at h
  obtain ⟨r, _, hfind, h⟩ := h
  obtain ⟨hfound, hempty, -, rfl⟩ := unlinkFind_ok.mp hfind
  obtain ⟨_, -, hparent⟩ := hfound.parent
  rw [bind_ok] at h
  obtain ⟨_, t₁, hremove, h⟩ := h
  obtain rfl := dirRemoveEntry_ok hparent.inode (step_ok.mp hremove).2
  rw [bind_ok] at h
  obtain ⟨_, t₂, hstored, h⟩ := h
  obtain ⟨hlinks, rfl⟩ := unlinkParent_ok.mp hstored
  rw [unlinkDrop, bind_ok] at h
  obtain ⟨dropped, t₃, hdrop, h⟩ := h
  rw [undoing_ok, ofExcept_ok] at h
  obtain ⟨hok, rfl⟩ := h
  exact ⟨_, _, _, _, hfound, fun hdir => ⟨hempty hdir, (hlinks hdir).1⟩,
    nameDropRemovedLink_ok hdrop hok⟩

/-! ### Renaming -/

/-- The source of a move and the directory it goes to. -/
structure FoundMove (t : NameFs) (oldPath newPath : List UInt8) (r : Move) : Prop where
  src : FoundEntry t oldPath r.oldParentIno r.oldParent r.src r.inode
  dest : ∃ parentPath, splitParentPath newPath = some (parentPath, r.newName) ∧
    FoundDir t parentPath r.newParentIno r.newParent

/-- The parents and the entry for the parent of a directory that has moved over another one. -/
def movedOverParent (t : NameFs) (r : Move) : NameFs :=
  if r.reparents then
    putDotdot (t.setInode r.oldParentIno { r.oldParent with links := r.oldParent.links - 1 })
      r.src.ino
      r.newParentIno
  else t

/-- A move over a name. -/
def movedOver (t : NameFs) (r : Move) (target : Nat) : NameFs :=
  droppedLink (movedOverParent
    (eraseEntry (putEntry t r.newParentIno r.newName r.src.ino r.src.type)
    r.oldParentIno r.src.name) r) target (t.inodes target)

/-- The parents and the entry for the parent of a directory that has moved to a new name. -/
def movedNewParent (t : NameFs) (r : Move) : NameFs :=
  if r.reparents then
    putDotdot ((t.setInode r.oldParentIno
      { r.oldParent with links := r.oldParent.links - 1 }).setInode
      r.newParentIno { r.newParent with links := r.newParent.links + 1 }) r.src.ino r.newParentIno
  else t

/-- A move to a new name. -/
def movedNew (t : NameFs) (r : Move) : NameFs :=
  movedNewParent (eraseEntry (addEntry t r.newParentIno ⟨r.newName, r.src.ino, r.src.type⟩)
    r.oldParentIno r.src.name) r

private theorem renameRemoveOld_ok (hold : t.inodes r.oldParentIno = r.oldParent)
    (hnew : t.inodes r.newParentIno = r.newParent) (h : (renameRemoveOld F r).run t = (.ok u, t')) :
    t' = eraseEntry t r.oldParentIno r.src.name := by
  refine dirRemoveEntry_ok ?_ (step_ok.mp h).2
  split
  · rename_i heq
    rw [heq, hnew]
  · exact hold

/-- A directory that is moved over another one changes its parent. -/
theorem renameOverParent_ok {replaced : DirEntry} :
    (renameOverParent F r replaced).run t = (.ok u, t') ↔
      (r.reparents → r.oldParent.links ≠ 0 ∧ F .writeParent = none ∧
        (r.oldParentIno ≠ 0 ∧ r.oldParentIno ≤ t.inodesCount) ∧ F .dotdot = none ∧
        HasDotdot t r.src.ino) ∧ t' = movedOverParent t r := by
  rw [renameOverParent, movedOverParent]
  split
  · rename_i hre
    simp only [undoing_ok, bind_ok, ofOption_ok, linksDecChecked_eq_some, step_ok,
      nameWriteInode_ok, dirUpdateDotdot_ok]
    constructor
    · rintro ⟨_, _, ⟨_, _, ⟨⟨hlinks, rfl⟩, rfl⟩, hF, hrange, rfl⟩, hF', -, hdot, rfl⟩
      exact ⟨fun _ => ⟨hlinks, hF, hrange, hF', hdot⟩, rfl⟩
    · rintro ⟨h, rfl⟩
      obtain ⟨hlinks, hF, hrange, hF', hdot⟩ := h hre
      exact ⟨(), _, ⟨_, _, ⟨⟨hlinks, rfl⟩, rfl⟩, hF, hrange, rfl⟩, hF', hre.1, hdot, rfl⟩
  · rename_i hre
    rw [pure_ok]
    exact ⟨fun h => ⟨fun h' => absurd h' hre, h.2⟩, fun h => ⟨rfl, h.2⟩⟩

private theorem renameNewParent_ok (h : (renameNewParent F r).run t = (.ok u, t')) :
    (r.reparents → r.oldParent.links ≠ 0 ∧ r.newParent.links ≠ 0xffff) ∧
      t' = movedNewParent t r := by
  rw [renameNewParent] at h
  rw [movedNewParent]
  split at h
  · rename_i hre
    rw [if_pos hre]
    split at h
    · rename_i oldParent newParent hdec hinc
      obtain ⟨hold, rfl⟩ := linksDecChecked_eq_some.mp hdec
      obtain ⟨hnew, rfl⟩ := linksIncChecked_eq_some.mp hinc
      simp only [renameParents, undoing_ok, bind_ok, step_ok, nameWriteInode_ok] at h
      obtain ⟨_, _, ⟨-, -, rfl⟩, _, _, ⟨-, -, rfl⟩, -, hdot⟩ := h
      exact ⟨fun _ => ⟨hold, hnew⟩, (dirUpdateDotdot_ok.mp hdot).2.2⟩
    · rw [bind_ok] at h
      obtain ⟨_, _, -, h⟩ := h
      exact (fail_ok.mp h).elim
  · rename_i hre
    exact ⟨fun h => absurd h hre, by rw [if_neg hre, (pure_ok.mp h).2]⟩

/-- The steps that find the source of a move and the directory it goes to do not fail. -/
def FindsMove (F : Faults) : Prop :=
  F .lookup = none ∧ F .lookupNew = none ∧ F .find = none ∧ F .readInode = none

/-- What may be moved: not a directory into itself, as far as the texts of the paths show. -/
def MayMove (oldPath newPath : List UInt8) (inode : NameInode) : Prop :=
  (inode.isDir = true ∨ inode.isRegular = true ∨ inode.isSymlink = true) ∧
    ¬(inode.isDir = true ∧ pathInside oldPath newPath = true)

/-- What `ext4_rename` has found. -/
theorem renameFind_ok {oldParentPath oldName newParentPath newName : List UInt8}
    (hold : splitParentPath oldPath = some (oldParentPath, oldName))
    (hnew : splitParentPath newPath = some (newParentPath, newName)) :
    (renameFind F oldPath newPath oldParentPath oldName newParentPath newName).run t = (.ok r, t') ↔
      FoundMove t oldPath newPath r ∧ MayMove oldPath newPath r.inode ∧ FindsMove F ∧ t' = t := by
  simp only [renameFind, bind_ok, readStep_ok, get_ok, require_ok, findInDir_ok, readNameInode_ok,
    pure_ok]
  constructor
  · rintro ⟨oldParentIno, _, ⟨hF₁, hlookup, rfl⟩, newParentIno, _, ⟨hF₂, hlookup', rfl⟩, _, _,
      ⟨rfl, rfl⟩, _, _, ⟨⟨holdDir, hnewDir⟩, rfl⟩, src, _,
        ⟨hF₃, ⟨-, -, rfl, hentry⟩, rfl⟩, inode, _,
      ⟨hF₄, ⟨hrange, rfl⟩, rfl⟩, _, _, ⟨hkind, rfl⟩, _, _, ⟨hinside, rfl⟩, rfl, rfl⟩
    exact ⟨⟨⟨⟨_, hold, hlookup, rfl, holdDir⟩, hentry, rfl, hrange⟩, _, hnew, hlookup',
      rfl, hnewDir⟩, ⟨hkind, hinside⟩, ⟨hF₁, hF₂, hF₃, hF₄⟩, rfl⟩
  · rintro ⟨⟨⟨⟨_, hsplit, hlookup, hparent, hdir⟩, hentry, hinode, hrange⟩, _, hsplit', hlookup',
      hparent', hdir'⟩, ⟨hkind, hinside⟩, ⟨hF₁, hF₂, hF₃, hF₄⟩, rfl⟩
    rw [hold] at hsplit
    rw [hnew] at hsplit'
    obtain ⟨rfl, rfl⟩ := Prod.mk.inj (Option.some.inj hsplit)
    obtain ⟨rfl, rfl⟩ := Prod.mk.inj (Option.some.inj hsplit')
    refine ⟨_, _, ⟨hF₁, hlookup, rfl⟩, _, _, ⟨hF₂, hlookup', rfl⟩, _, _, ⟨rfl, rfl⟩, (), _,
      ⟨⟨hparent ▸ hdir, hparent' ▸ hdir'⟩, rfl⟩, r.src, _,
      ⟨hF₃, ⟨nameValid_of_split hold, hparent ▸ hdir, rfl, hentry⟩, rfl⟩, r.inode, _,
      ⟨hF₄, ⟨hrange, hinode.symm⟩, rfl⟩, (), _, ⟨hkind, rfl⟩, (), _, ⟨hinside, rfl⟩, ?_, rfl⟩
    rw [hparent, hparent']

/-- How a rename that returns without an error has ended. -/
inductive Renamed (t : NameFs) (r : Move) : NameFs → Prop
  /-- The new name stands for the inode already. -/
  | same (target : DirEntry) (hname : target.name = r.newName)
    (hentry : Entry t r.newParentIno target)
      (heq : target.ino = r.src.ino) : Renamed t r t
  | replacing (target : DirEntry) (hname : target.name = r.newName)
    (hentry : Entry t r.newParentIno target)
      (hrange : target.ino ≠ 0 ∧ target.ino ≤ t.inodesCount)
      (hne : target.ino ≠ r.src.ino) (hkind : (t.inodes target.ino).isDir = r.inode.isDir)
      (hempty : (t.inodes target.ino).isDir = true → EmptyDir t target.ino)
      (hlinks : r.reparents → r.oldParent.links ≠ 0) : Renamed t r (movedOver t r target.ino)
  | new (habsent : (t.dirs r.newParentIno).find? (fun e => e.name = r.newName) = none)
      (hlinks : r.reparents → r.oldParent.links ≠ 0 ∧ r.newParent.links ≠ 0xffff) :
      Renamed t r (movedNew t r)

private theorem renameOver_ok {target : DirEntry} (hfound : FoundMove t oldPath newPath r)
    (hname : target.name = r.newName) (hentry : Entry t r.newParentIno target)
    (hne : target.ino ≠ r.src.ino) (h : (renameOver F r target).run t = (.ok u, t')) :
    Renamed t r t' := by
  obtain ⟨_, -, hold⟩ := hfound.src.parent
  obtain ⟨_, -, hnew⟩ := hfound.dest
  simp only [renameOver, bind_ok, readStep_ok, readNameInode_ok, require_ok] at h
  obtain ⟨inode, _, ⟨-, ⟨hrange, rfl⟩, rfl⟩, _, _, ⟨hkind, rfl⟩, _, _, hempty, replaced, t₁,
    hreplace, _, t₂, hremove, _, t₃, hparent, h⟩ := h
  obtain ⟨hempty, rfl⟩ := requireEmpty_ok.mp hempty
  obtain rfl := dirReplaceEntry_ok hnew.inode (step_ok.mp hreplace).2
  obtain rfl := renameRemoveOld_ok (by exact hold.inode) (by exact hnew.inode)
      (undoing_ok.mp hremove)
  obtain ⟨hlinks, rfl⟩ := renameOverParent_ok.mp hparent
  rw [renameDrop, bind_ok] at h
  obtain ⟨dropped, t₄, hdrop, h⟩ := h
  rw [undoing_ok, ofExcept_ok] at h
  obtain ⟨hok, rfl⟩ := h
  rw [nameDropRemovedLink_ok hdrop hok]
  exact .replacing target hname hentry hrange hne hkind (fun hdir => (hempty hdir).1)
    fun hre => (hlinks hre).1

private theorem renameNew_ok (hfound : FoundMove t oldPath newPath r)
    (habsent : (t.dirs r.newParentIno).find? (fun e => e.name = r.newName) = none)
    (h : (renameNew F r).run t = (.ok u, t')) : Renamed t r t' := by
  obtain ⟨_, -, hold⟩ := hfound.src.parent
  obtain ⟨_, -, hnew⟩ := hfound.dest
  simp only [renameNew, bind_ok] at h
  obtain ⟨_, t₁, hadd, _, t₂, hremove, h⟩ := h
  obtain rfl := dirAddEntry_ok hnew.inode (step_ok.mp hadd).2
  obtain rfl := renameRemoveOld_ok (by exact hold.inode) (by exact hnew.inode)
      (undoing_ok.mp hremove)
  obtain ⟨hlinks, rfl⟩ := renameNewParent_ok h
  exact .new habsent hlinks

/-- A rename that returns without an error does nothing, because both paths are the same, or
moves. -/
theorem ext4Rename_ok (h : (ext4Rename F oldPath newPath).run t = (.ok (), t')) :
    (splitParentPath oldPath = splitParentPath newPath ∧ t' = t) ∨
      ∃ r, FoundMove t oldPath newPath r ∧ Renamed t r t' := by
  rw [ext4Rename, require_bind_ok, bind_ok] at h
  obtain ⟨-, ⟨oldParentPath, oldName⟩, _, hsplit, h⟩ := h
  rw [ofOption_ok] at hsplit
  obtain ⟨hold, rfl⟩ := hsplit
  dsimp only at h
  rw [bind_ok] at h
  obtain ⟨⟨newParentPath, newName⟩, _, hsplit, h⟩ := h
  rw [ofOption_ok] at hsplit
  obtain ⟨hnew, rfl⟩ := hsplit
  split at h
  · rename_i heq
    refine Or.inl ⟨?_, (pure_ok.mp h).2⟩
    rw [hold, hnew, heq.1, heq.2]
  refine Or.inr ?_
  rw [bind_ok] at h
  obtain ⟨r, _, hfind, h⟩ := h
  obtain ⟨hfound, -, -, rfl⟩ := (renameFind_ok hold hnew).mp hfind
  refine ⟨r, hfound, ?_⟩
  rw [renameMove, bind_ok] at h
  obtain ⟨found, _, hfind', h⟩ := h
  rw [attempt_ok] at hfind'
  split at h
  · rename_i target
    obtain ⟨-, hfind', rfl⟩ := readStep_ok.mp hfind'
    obtain ⟨-, -, hname, hentry⟩ := findInDir_ok.mp hfind'
    split at h
    · rename_i heq
      rw [(pure_ok.mp h).2]
      exact .same target hname hentry heq
    · rename_i hne
      exact renameOver_ok hfound hname hentry hne h
  · obtain ⟨hnone, rfl⟩ := readStep_notFound hfind'
    exact renameNew_ok hfound (findInDir_notFound hnone) h
  · exact (fail_ok.mp h).elim

end

end Rabbitbone.Spec.Ext4
