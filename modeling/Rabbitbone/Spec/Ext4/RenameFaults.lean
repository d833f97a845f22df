import Rabbitbone.Spec.Ext4.RenameLinks
import Rabbitbone.Spec.Ext4.UnlinkFaults

/-!
# Failures of `ext4_rename`

A rename over a name drops the link of the inode that had the name, the way `ext4_unlink` does.
When that fails, the entry is put back, but the inode may have been left on the orphan list.
-/

namespace Rabbitbone.Spec.Ext4

open Native.Ext4 Native.Path FallibleState Relation Function Multiset Keeps

variable {d : Nat} {name : List UInt8} {e : DirEntry} {p : Point} {err : Ext4Status}
  {copy : NameInode}

section

variable {F : Faults} {t t' s : NameFs} {oldPath newPath : List UInt8} {r : Move}
  {target : DirEntry}

/-- The rename gets as far as dropping the link of the inode that it replaces. -/
structure RenameArrives (F : Faults) (t : NameFs) (oldPath newPath : List UInt8) (r : Move)
    (target : DirEntry) : Prop where
  found : FoundMove t oldPath newPath r
  mayMove : MayMove oldPath newPath r.inode
  replaces : Target t r target
  range : target.ino ≠ 0 ∧ target.ino ≤ t.inodesCount
  finds : FindsMove F
  findsNew : F .findNew = none ∧ F .readTarget = none ∧ (r.inode.isDir = true → F .listDir = none)
  entries : F .replaceEntry = none ∧ F .removeEntry = none
  parent : r.reparents → F .writeParent = none ∧ F .dotdot = none ∧ HasDotdot t r.src.ino

/-! ### Copies of inodes -/

section

variable (h : FoundMove t oldPath newPath r)
include h

private theorem FoundMove.oldCopy : DirCopy t r.oldParentIno r.oldParent :=
  ⟨fun hdir => h.oldParent_eq ▸ hdir, by rw [h.oldParent_eq]⟩

private theorem FoundMove.newCopy : DirCopy t r.newParentIno r.newParent :=
  ⟨fun hdir => h.newParent_eq ▸ hdir, by rw [h.newParent_eq]⟩

private theorem FoundMove.removeCopy : DirCopy t r.oldParentIno
    (if r.oldParentIno = r.newParentIno then r.newParent else r.oldParent) := by
  split
  · rename_i heq
    exact heq ▸ h.newCopy
  · exact h.oldCopy

private theorem FoundMove.old_range (hshape : Shape t) :
    r.oldParentIno ≠ 0 ∧ r.oldParentIno ≤ t.inodesCount := by
  obtain ⟨_, -, hparent⟩ := h.src.parent
  exact ⟨lookup_ne_zero hparent.lookup, hshape.usedLe _ (hshape.live_old h).1⟩

private theorem FoundMove.new_range (hshape : Shape t) :
    r.newParentIno ≠ 0 ∧ r.newParentIno ≤ t.inodesCount := by
  obtain ⟨_, -, hparent⟩ := h.dest
  exact ⟨lookup_ne_zero hparent.lookup, hshape.usedLe _ (hshape.live_new h).1⟩

end

/-- What is moved has a name. -/
private theorem Shape.src_nameCount (h : Shape t) (hfound : FoundMove t oldPath newPath r) :
    0 < nameCount t r.src.ino :=
  h.entry_nameCount hfound.src

/-- What is replaced has a name. -/
private theorem Shape.target_nameCount (h : Shape t) (hfound : FoundMove t oldPath newPath r)
    (htarget : AtNewName t r target) : 0 < nameCount t target.ino :=
  countP_pos.mpr ⟨_, h.target_mem hfound htarget, rfl⟩

/-! ### The entry for the parent -/

private theorem hasDotdot_iff : HasDotdot t d ↔ ∃ e ∈ t.dirs d, e.name = [dot, dot] := by
  simp [HasDotdot, List.any_eq_true]

private theorem mem_replaceName_of_ne {l : List DirEntry} {child : Nat} {type : UInt8}
    (hne : e.name ≠ name) : e ∈ replaceName name child type l ↔ e ∈ l := by
  induction l with
  | nil => exact Iff.rfl
  | cons a l ih =>
    rw [replaceName]
    split
    · rename_i ha
      have h₁ : e ≠ { a with ino := child, type := type } := fun heq => hne (heq ▸ ha)
      have h₂ : e ≠ a := fun heq => hne (heq ▸ ha)
      simp [h₁, h₂]
    · simp [ih]

private theorem hasDotdot_congr
    (h : ∀ e : DirEntry, e.name = [dot, dot] → (e ∈ t'.dirs d ↔ e ∈ t.dirs d)) :
    HasDotdot t' d ↔ HasDotdot t d := by
  rw [hasDotdot_iff, hasDotdot_iff]
  exact exists_congr fun e => and_congr_left (h e)

/-- A change of names keeps the entry for the parent. -/
theorem hasDotdot_replaced_entries (hname : nameIsDot r.newName = false)
    (hsrc : nameIsDot r.src.name = false) :
    HasDotdot (eraseEntry (putEntry t r.newParentIno r.newName r.src.ino r.src.type) r.oldParentIno
      r.src.name) d ↔ HasDotdot t d := by
  have hput : HasDotdot (putEntry t r.newParentIno r.newName r.src.ino r.src.type) d ↔
      HasDotdot t d := by
    refine hasDotdot_congr fun e he => ?_
    have hne : e.name ≠ r.newName := fun heq => absurd (heq ▸ hname) (by rw [he]; decide)
    by_cases hd : d = r.newParentIno
    · subst hd
      simp only [putEntry, NameFs.setDir, update_self]
      exact mem_replaceName_of_ne hne
    · simp only [putEntry, NameFs.setDir, update_of_ne hd]
  refine Iff.trans (hasDotdot_congr fun e he => ?_) hput
  have hne : e.name ≠ r.src.name := fun heq => absurd (heq ▸ hsrc) (by rw [he]; decide)
  by_cases hd : d = r.oldParentIno
  · subst hd
    simp only [eraseEntry, NameFs.setDir, update_self, eraseName]
    exact List.mem_eraseP_of_neg (by simpa using hne)
  · simp only [eraseEntry, NameFs.setDir, update_of_ne hd]

/-! ### Up to the link of the replaced inode -/

/-- The tree with both entries changed. -/
def entriesMoved (t : NameFs) (r : Move) : NameFs :=
  eraseEntry (putEntry t r.newParentIno r.newName r.src.ino r.src.type) r.oldParentIno r.src.name

private theorem AtNewName.replace_run (htarget : AtNewName t r target) (h : Shape t)
    (hfound : FoundMove t oldPath newPath r) :
    (dirReplaceEntry r.newParentIno r.newParent r.newName r.src.ino r.src.type).run t
      = (.ok target, putEntry t r.newParentIno r.newName r.src.ino r.src.type) := by
  obtain ⟨_, hsplit, -⟩ := hfound.dest
  have hrun : (dirReplaceEntry r.newParentIno r.newParent target.name r.src.ino r.src.type).run t
      = (.ok target, _) :=
    dirReplaceEntry_run (htarget.name ▸ splitParentPath_valid hsplit) htarget.entry
      (hfound.new_range h)
  have hself : (putEntry t r.newParentIno target.name r.src.ino r.src.type).setInode r.newParentIno
      r.newParent = putEntry t r.newParentIno target.name r.src.ino r.src.type := by
    rw [← hfound.newParent_eq]
    exact setInode_self (putEntry t r.newParentIno target.name r.src.ino r.src.type) _
  rwa [hself, htarget.name] at hrun

/-- The old entry is still there to be removed. -/
private theorem AtNewName.remove_run (htarget : AtNewName t r target) (h : Shape t)
    (hfound : FoundMove t oldPath newPath r) (hF : F .removeEntry = none) :
    (renameRemoveOld F r).run (putEntry t r.newParentIno r.newName r.src.ino r.src.type)
      = (.ok (), entriesMoved t r) := by
  obtain ⟨_, hsplit, -⟩ := hfound.src.parent
  have hcopy : (if r.oldParentIno = r.newParentIno then r.newParent else r.oldParent)
      = t.inodes r.oldParentIno := by
    split
    · rename_i heq
      rw [heq, hfound.newParent_eq]
    · exact hfound.oldParent_eq.symm
  rw [renameRemoveOld, hcopy]
  refine step_ok.mpr ⟨hF, ?_⟩
  exact dirRemoveEntry_run
    (splitParentPath_valid hsplit) (htarget.src_entry hfound) (hfound.old_range h)

/-- A rename that arrives finds its names. -/
theorem RenameArrives.find_run (harr : RenameArrives F t oldPath newPath r target)
    {oldParentPath oldName newParentPath newName : List UInt8}
    (hold : splitParentPath oldPath = some (oldParentPath, oldName))
    (hnew : splitParentPath newPath = some (newParentPath, newName)) :
    (renameFind F oldPath newPath oldParentPath oldName newParentPath newName).run t = (.ok r, t) :=
  (renameFind_ok hold hnew).mpr ⟨harr.found, harr.mayMove, harr.finds, rfl⟩

private theorem splitParentPath_ne_root {path parent : List UInt8}
    (h : splitParentPath path = some (parent, name)) : path ≠ [slash] := by
  rintro rfl
  exact nomatch (show splitParentPath [slash] = none by decide).symm.trans h

/-- A rename that arrives goes on with the link of the replaced inode. -/
theorem RenameArrives.run_eq (harr : RenameArrives F t oldPath newPath r target) (h : Shape t) :
    (ext4Rename F oldPath newPath).run t
      = (renameDrop F r target target.ino (t.inodes target.ino)).run (replaced t r) := by
  obtain ⟨oldParentPath, hold, hparent⟩ := harr.found.src.parent
  obtain ⟨newParentPath, hnew, hparent'⟩ := harr.found.dest
  have htarget := harr.replaces
  -- the names differ, since the target is another inode
  have hdistinct : ¬(oldParentPath = newParentPath ∧ r.src.name = r.newName) := by
    rintro ⟨rfl, hname⟩
    have hsame : r.oldParentIno = r.newParentIno := by
      have hlookup := hparent.lookup
      rw [hparent'.lookup] at hlookup
      exact (Except.ok.inj hlookup).symm
    have hsrc := harr.found.src.entry
    rw [hsame] at hsrc
    exact htarget.ne (htarget.entry.unique hsrc (htarget.name.trans hname.symm) ▸ rfl)
  have hroots : oldPath ≠ [slash] ∧ newPath ≠ [slash] :=
    ⟨splitParentPath_ne_root hold, splitParentPath_ne_root hnew⟩
  rw [ext4Rename, bind_of_ok (require_of_pos hroots), bind_of_ok (ofOption_of_some hold)]
  dsimp only
  rw [bind_of_ok (ofOption_of_some hnew)]
  rw [if_neg hdistinct, bind_of_ok (harr.find_run hold hnew), renameMove]
  -- from here on every step succeeds
  have hfindNew : (readStep F .findNew fun t =>
      findInDir t r.newParentIno r.newParent r.newName).run t
      = (.ok target, t) :=
    readStep_ok.mpr ⟨harr.findsNew.1, findInDir_ok.mpr ⟨nameValid_of_split hnew, hparent'.isDir,
      htarget.name, htarget.entry⟩, rfl⟩
  rw [bind_of_ok (attempt_ok.mpr hfindNew)]
  dsimp only
  rw [if_neg htarget.ne, renameOver]
  have hread : (readStep F .readTarget fun t => readNameInode t target.ino).run t
      = (.ok (t.inodes target.ino), t) :=
    readStep_ok.mpr ⟨harr.findsNew.2.1, readNameInode_ok.mpr ⟨harr.range, rfl⟩, rfl⟩
  have hempty : (requireEmpty F target.ino (t.inodes target.ino)).run t = (.ok (), t) :=
    requireEmpty_ok.mpr ⟨fun hdir =>
      ⟨htarget.empty hdir, harr.findsNew.2.2 (htarget.kind ▸ hdir)⟩, rfl⟩
  have hreplace := step_ok.mpr ⟨harr.entries.1, htarget.replace_run h harr.found⟩
  have hremove := htarget.remove_run h harr.found harr.entries.2
  have hparents : (renameOverParent F r target).run (entriesMoved t r) =
      (.ok (), replaced t r) := by
    refine renameOverParent_ok.mpr ⟨fun hre => ⟨htarget.links hre, (harr.parent hre).1,
      harr.found.old_range h, (harr.parent hre).2.1, ?_⟩, rfl⟩
    exact (hasDotdot_replaced_entries harr.found.new_not_dot harr.found.src.not_dot).mpr
      (harr.parent hre).2.2
  rw [bind_of_ok hread, bind_of_ok (require_of_pos htarget.kind), bind_of_ok hempty,
    bind_of_ok hreplace, bind_of_ok (undoing_ok.mpr hremove), bind_of_ok hparents]

/-! ### Quiet failures -/

private theorem keeps_renameFind {P : NameFs → Prop}
    {oldParentPath oldName newParentPath newName : List UInt8} :
    Keeps P (renameFind F oldPath newPath oldParentPath oldName newParentPath newName) :=
  (keeps_readStep _).bind fun _ => (keeps_readStep _).bind fun _ => Keeps.get.bind fun _ =>
    (Keeps.require _ _).bind fun _ => (keeps_readStep _).bind fun _ =>
      (keeps_readStep _).bind fun _ =>
    (Keeps.require _ _).bind fun _ => (Keeps.require _ _).bind fun _ => Keeps.pure _

section

variable {ino : Nat} (h : Shape t) (hfound : FoundMove t oldPath newPath r)
include h hfound

/-- Undoing the replacement is quiet: the target has had a name. -/
private theorem keeps_renameUndoReplace (he : 0 < nameCount t e.ino) :
    Keeps (Quiet t ino) (renameUndoReplace F r e) :=
  (keeps_ignore (keeps_step (keeps_dirAddEntry hfound.oldCopy (h.src_nameCount hfound)))).bind
    fun _ =>
    keeps_ignore (keeps_step (keeps_dirReplaceEntry hfound.newCopy he))

omit h in
/-- Removing the old name is quiet. -/
private theorem keeps_renameRemoveOld : Keeps (Quiet t ino) (renameRemoveOld F r) :=
  keeps_step (keeps_dirRemoveEntry hfound.removeCopy)

omit h in
private theorem keeps_writeOld :
    Keeps (Quiet t ino) (ignore (step F p (nameWriteInode r.oldParentIno r.oldParent))) :=
  keeps_ignore (keeps_step (keeps_nameWriteInode hfound.oldCopy.kind fun _ => hfound.oldCopy.dtime))

omit h in
private theorem keeps_writeNew :
    Keeps (Quiet t ino) (ignore (step F p (nameWriteInode r.newParentIno r.newParent))) :=
  keeps_ignore (keeps_step (keeps_nameWriteInode hfound.newCopy.kind fun _ => hfound.newCopy.dtime))

omit h in
private theorem keeps_writeSrc :
    Keeps (Quiet t ino) (ignore (step F p (nameWriteInode r.src.ino r.inode))) := by
  refine keeps_ignore (keeps_step (keeps_nameWriteInode (fun hdir => ?_) fun _ => ?_))
  · rw [hfound.src.inode]
    exact hdir
  · rw [hfound.src.inode]

/-- Changing the parent is quiet, also where it fails. -/
private theorem keeps_renameOverParent (he : 0 < nameCount t e.ino) :
    Keeps (Quiet t ino) (renameOverParent F r e) := by
  have hundo : Keeps (Quiet t ino) (renameUndoReplace F r e) := keeps_renameUndoReplace h hfound he
  have hcopy := parentDropped_copy hfound.oldCopy
  rw [renameOverParent]
  split
  · refine bind (undoing ?_ hundo) fun _ => undoing (keeps_step keeps_dirUpdateDotdot)
      ((keeps_writeOld hfound).bind fun _ => (keeps_writeSrc hfound).bind fun _ => hundo)
    intro s hs
    cases hdec : r.oldParent.linksDecChecked with
    | none => exact hs
    | some old =>
      obtain ⟨-, rfl⟩ := linksDecChecked_eq_some.mp hdec
      exact keeps_step (keeps_nameWriteInode hcopy.kind fun _ => hcopy.dtime) s hs
  · exact Keeps.pure _

private theorem keeps_renameUndoAdd {newParent : NameInode}
    (hcopy : DirCopy t r.newParentIno newParent) :
    Keeps (Quiet t ino) (renameUndoAdd F r newParent) :=
  (keeps_ignore (keeps_step (keeps_dirAddEntry hfound.oldCopy (h.src_nameCount hfound)))).bind
    fun _ =>
    keeps_ignore (keeps_step (keeps_dirRemoveEntry hcopy))

private theorem keeps_renameNewParent : Keeps (Quiet t ino) (renameNewParent F r) := by
  have hundo : Keeps (Quiet t ino) (renameUndoAdd F r r.newParent) :=
    keeps_renameUndoAdd h hfound hfound.newCopy
  rw [renameNewParent]
  split
  · split
    · rename_i old new hdec hinc
      obtain ⟨-, rfl⟩ := linksDecChecked_eq_some.mp hdec
      obtain ⟨-, rfl⟩ := linksIncChecked_eq_some.mp hinc
      have hold := parentDropped_copy hfound.oldCopy
      have hnew : DirCopy t r.newParentIno { r.newParent with links := r.newParent.links + 1 } :=
        ⟨hfound.newCopy.kind, hfound.newCopy.dtime⟩
      refine bind (undoing (keeps_step (keeps_nameWriteInode hold.kind fun _ => hold.dtime))
        (keeps_renameUndoAdd h hfound hnew)) fun _ => ?_
      refine bind (undoing (keeps_step (keeps_nameWriteInode hnew.kind fun _ => hnew.dtime))
        ((keeps_writeOld hfound).bind fun _ => hundo)) fun _ => ?_
      exact undoing (keeps_step keeps_dirUpdateDotdot) ((keeps_writeOld hfound).bind fun _ =>
        (keeps_writeNew hfound).bind fun _ => (keeps_writeSrc hfound).bind fun _ => hundo)
    · exact hundo.bind fun _ => Keeps.fail _
  · exact Keeps.pure _

/-- A move to a free name is quiet, also where it fails. -/
private theorem keeps_renameNew : Keeps (Quiet t ino) (renameNew F r) :=
  (keeps_step (keeps_dirAddEntry hfound.newCopy (h.src_nameCount hfound))).bind fun _ =>
    (undoing (keeps_renameRemoveOld hfound)
      (keeps_ignore (keeps_step (keeps_dirRemoveEntry hfound.newCopy)))).bind fun _ =>
    keeps_renameNewParent h hfound

end

/-- An error of a rename over a name is quiet, unless the rename arrives at the link. -/
theorem renameOver_error (h : Shape t) (hfound : FoundMove t oldPath newPath r)
    (hmay : MayMove oldPath newPath r.inode) (hfinds : FindsMove F) (hat : AtNewName t r target)
    (hF : F .findNew = none) (hrun : (renameOver F r target).run t = (.error err, t')) :
    Quiet t 0 t' ∨ RenameArrives F t oldPath newPath r target := by
  have hnamed : 0 < nameCount t target.ino := h.target_nameCount hfound hat
  rw [renameOver, bind_error] at hrun
  obtain hfail | ⟨inode, t₀, hread, hrun⟩ := hrun
  · exact Or.inl ((keeps_readStep _).of_run (h.quiet 0) hfail)
  rw [readStep_ok, readNameInode_ok] at hread
  obtain ⟨hF₁, ⟨hrange, rfl⟩, ht₀⟩ := hread
  rw [ht₀, bind_error] at hrun
  obtain hfail | ⟨_, t₁, hkind, hrun⟩ := hrun
  · exact Or.inl ((Keeps.require _ _).of_run (h.quiet 0) hfail)
  obtain ⟨hkind, ht₁⟩ := require_ok.mp hkind
  rw [ht₁, bind_error] at hrun
  obtain hfail | ⟨_, t₂, hempty, hrun⟩ := hrun
  · exact Or.inl (keeps_requireEmpty.of_run (h.quiet 0) hfail)
  obtain ⟨hempty, ht₂⟩ := requireEmpty_ok.mp hempty
  rw [ht₂, bind_error] at hrun
  -- the new name
  have hreplace := hat.replace_run h hfound
  have hkeepReplace : Keeps (Quiet t 0)
      (dirReplaceEntry r.newParentIno r.newParent r.newName r.src.ino
      r.src.type) := keeps_dirReplaceEntry hfound.newCopy (h.src_nameCount hfound)
  have hquiet₁ := hkeepReplace.of_run (h.quiet 0) hreplace
  obtain hfail | ⟨replaced, t₃, hok, hrun⟩ := hrun
  · exact Or.inl ((keeps_step hkeepReplace).of_run (h.quiet 0) hfail)
  rw [step_ok, hreplace] at hok
  obtain ⟨hF₂, hok⟩ := hok
  obtain ⟨heq, rfl⟩ := Prod.mk.inj hok
  obtain rfl := Except.ok.inj heq
  rw [bind_error] at hrun
  -- the old name
  obtain hfail | ⟨_, t₄, hok, hrun⟩ := hrun
  · refine Or.inl ((undoing (keeps_renameRemoveOld hfound) ?_).of_run hquiet₁ hfail)
    exact keeps_ignore (keeps_step (keeps_dirReplaceEntry hfound.newCopy hnamed))
  have hquiet₂ := (keeps_renameRemoveOld hfound).of_run hquiet₁ (undoing_ok.mp hok)
  have hF₃ : F .removeEntry = none := (step_ok.mp (undoing_ok.mp hok)).1
  rw [undoing_ok, hat.remove_run h hfound hF₃] at hok
  obtain ⟨-, rfl⟩ := Prod.mk.inj hok
  rw [bind_error] at hrun
  -- the old parent
  obtain hfail | ⟨_, t₅, hok, -⟩ := hrun
  · exact Or.inl ((keeps_renameOverParent h hfound hnamed).of_run hquiet₂ hfail)
  obtain ⟨hparent, -⟩ := renameOverParent_ok.mp hok
  refine Or.inr ⟨hfound, hmay,
    ⟨hat, hkind, fun hdir => (hempty hdir).1, fun hre => (hparent hre).1⟩,
    hrange, hfinds, ⟨hF, hF₁, fun hdir => (hempty (hkind ▸ hdir)).2⟩, ⟨hF₂, hF₃⟩, fun hre => ?_⟩
  obtain ⟨-, hF₄, -, hF₅, hdot⟩ := hparent hre
  exact ⟨hF₄, hF₅, (hasDotdot_replaced_entries hfound.new_not_dot hfound.src.not_dot).mp hdot⟩

/-- An error of a rename that does not arrive at the link of a replaced inode is quiet. -/
theorem rename_error (h : Shape t) (hrun : (ext4Rename F oldPath newPath).run t = (.error err, t'))
    (hnone : ∀ r target, ¬RenameArrives F t oldPath newPath r target) : Quiet t 0 t' := by
  have hstart := h.quiet 0
  rw [ext4Rename, bind_error] at hrun
  obtain hfail | ⟨_, t₀, hok, hrun⟩ := hrun
  · exact (Keeps.require _ _).of_run hstart hfail
  obtain ⟨-, ht₀⟩ := require_ok.mp hok
  rw [ht₀, bind_error] at hrun
  obtain hfail | ⟨⟨oldParentPath, oldName⟩, t₁, hok, hrun⟩ := hrun
  · exact (Keeps.ofOption _ _).of_run hstart hfail
  obtain ⟨hold, ht₁⟩ := ofOption_ok.mp hok
  rw [ht₁] at hrun
  dsimp only at hrun
  rw [bind_error] at hrun
  obtain hfail | ⟨⟨newParentPath, newName⟩, t₂, hok, hrun⟩ := hrun
  · exact (Keeps.ofOption _ _).of_run hstart hfail
  obtain ⟨hnew, ht₂⟩ := ofOption_ok.mp hok
  rw [ht₂] at hrun
  split at hrun
  · exact (Keeps.pure _).of_run hstart hrun
  rw [bind_error] at hrun
  obtain hfail | ⟨r, t₃, hfind, hrun⟩ := hrun
  · exact keeps_renameFind.of_run hstart hfail
  obtain ⟨hfound, hmay, hfinds, ht₃⟩ := (renameFind_ok hold hnew).mp hfind
  rw [ht₃, renameMove, bind_error] at hrun
  obtain hfail | ⟨found, t₄, hok, hrun⟩ := hrun
  · exact (keeps_readStep _).attempt.of_run hstart hfail
  rw [attempt_ok] at hok
  have ht₄ : t₄ = t := (congrArg Prod.snd hok).symm.trans (readStep_run _ _ _ _)
  rw [ht₄] at hrun hok
  split at hrun
  · rename_i target
    obtain ⟨hF, hfind, -⟩ := readStep_ok.mp hok
    obtain ⟨-, -, hname, hentry⟩ := findInDir_ok.mp hfind
    split at hrun
    · exact (Keeps.pure _).of_run hstart hrun
    rename_i hne
    exact (renameOver_error h hfound hmay hfinds ⟨hname, hentry, hne⟩ hF hrun).resolve_right
      (hnone r target)
  · exact (keeps_renameNew h hfound).of_run hstart hrun
  · exact (Keeps.fail _).of_run hstart hrun

/-! ### An inode that is left on the list -/

/-- Up to the drop of the target nothing is orphaned. -/
private theorem replaced_quiet (h : Shape t) (hfound : FoundMove t oldPath newPath r) (ino : Nat) :
    Quiet t ino (replaced t r) := by
  have hcopy := parentDropped_copy hfound.oldCopy
  have hput : Quiet t ino (putEntry t r.newParentIno r.newName r.src.ino r.src.type) := by
    refine (h.quiet ino).setDir fun e he _ => (mem_replaceName he).imp_right ?_
    rintro heq
    rw [heq]
    exact h.src_nameCount hfound
  have hmoved : Quiet t ino (entriesMoved t r) :=
    hput.setDir fun _ he _ => Or.inl (List.mem_of_mem_eraseP he)
  rw [replaced, movedOverParent]
  split
  · exact (hmoved.setInode hcopy.kind fun _ => hcopy.dtime).setDir fun _ he hdot =>
      Or.inl (mem_replaceDotdot hdot he)
  · exact hmoved

private theorem Target.new_ne (htarget : Target t r target) (h : Shape t)
    (hfound : FoundMove t oldPath newPath r) : r.newParentIno ≠ target.ino := by
  intro heq
  have hdir : (t.inodes target.ino).isDir = true := heq ▸ (h.live_new hfound).2
  exact (htarget.empty hdir).ne htarget.entry.mem (htarget.name ▸ hfound.new_not_dot) heq

/-- Undoing the whole move is quiet but for the target. -/
private theorem keeps_renameUndoDrop (h : Shape t) (hfound : FoundMove t oldPath newPath r)
    (htarget : AtNewName t r target)
    (hcopy : copy.isDir = true → (t.inodes target.ino).isDir = true) :
    Keeps (Quiet t target.ino) (renameUndoDrop F r target target.ino copy) := by
  have hnamed : 0 < nameCount t target.ino := h.target_nameCount hfound htarget
  refine bind ?_ fun _ => (keeps_ignore (keeps_step (keeps_nameWriteInode hcopy
    fun hne => absurd rfl hne))).bind fun _ => (keeps_writeSrc hfound).bind fun _ =>
    keeps_renameUndoReplace h hfound hnamed
  rw [renameUndoParent]
  split
  · exact keeps_writeOld hfound
  · exact Keeps.pure _

private theorem keeps_head_dirReplaceEntry {child a : Nat} {dir : NameInode} {type : UInt8} :
    Keeps (fun s => s.lastOrphan = a) (dirReplaceEntry d dir name child type) := by
  refine (Keeps.require _ _).bind fun _ => Keeps.get.bind fun _ =>
    (Keeps.ofOption _ _).bind fun _ =>
    bind (modify fun s hs => ?_) fun _ => keeps_head_nameWriteInode.bind fun _ => Keeps.pure _
  exact hs

private theorem keeps_head_renameUndoDrop {a : Nat} {ino : Nat} :
    Keeps (fun s => s.lastOrphan = a) (renameUndoDrop F r target ino copy) := by
  refine bind ?_ fun _ => (keeps_ignore (keeps_step keeps_head_nameWriteInode)).bind fun _ =>
    (keeps_ignore (keeps_step keeps_head_nameWriteInode)).bind fun _ =>
    (keeps_ignore (keeps_step keeps_head_dirAddEntry)).bind fun _ =>
    keeps_ignore (keeps_step keeps_head_dirReplaceEntry)
  rw [renameUndoParent]
  split
  · exact keeps_ignore (keeps_step keeps_head_nameWriteInode)
  · exact Keeps.pure _

/-- The new name stands for the source behind the move. -/
theorem entry_replaced (hfound : FoundMove t oldPath newPath r) (htarget : Target t r target) :
    ∃ e, e.name = r.newName ∧ e.ino = r.src.ino ∧ Entry (replaced t r) r.newParentIno e := by
  let e : DirEntry := { target with ino := r.src.ino, type := r.src.type }
  have hname : e.name = r.newName := htarget.name
  refine ⟨e, hname, rfl, ?_⟩
  have hput : Entry (putEntry t r.newParentIno r.newName r.src.ino r.src.type) r.newParentIno e :=
    htarget.name ▸ entry_putEntry_self htarget.entry
  have hmoved : Entry (entriesMoved t r) r.newParentIno e := by
    refine entry_eraseEntry hput fun hd heq => htarget.ne ?_
    -- the two names would be one
    have hsrc := hfound.src.entry
    rw [← hd] at hsrc
    rw [htarget.entry.unique hsrc (htarget.name.trans (hname.symm.trans heq.symm))]
  rw [replaced, movedOverParent]
  split
  · exact entry_putDotdot hmoved (hname ▸ not_dot_ne hfound.new_not_dot)
  · exact hmoved

/-- The state behind the undone rename. -/
theorem renameUndoDrop_run (h : Shape t) (hfound : FoundMove t oldPath newPath r)
    (htarget : Target t r target) (hrange : target.ino ≠ 0 ∧ target.ino ≤ t.inodesCount)
    (hcopy : copy.isDir = true → EmptyDir t target.ino) (hleft : LeftState t target.ino s)
    (hdirs : s.dirs = (replaced t r).dirs) (hedges : edges s = edges (replaced t r)) :
    ∃ t', (renameUndoDrop F r target target.ino copy).run s = (.ok (), t') ∧
      LeftState t target.ino t' ∧
      (t'.inodes target.ino = copy ∨ t'.inodes target.ino = s.inodes target.ino) ∧
      nameCount t' target.ino + 1
        = nameCount t target.ino + (if takesEffect F .undoNewEntry then 1 else 0) ∧
      ∀ x ∈ edges t', 0 < nameCount t x.2 := by
  obtain ⟨_, hsplit, hold⟩ := hfound.src.parent
  obtain ⟨_, hsplit', hnew⟩ := hfound.dest
  have holdNe := Ne.symm (h.target_ne_old hfound htarget)
  have hnewNe := htarget.new_ne h hfound
  -- the old parent
  obtain ⟨s₁, hrun₁, hleft₁, hedges₁, hdirs₁, hinode₁⟩ : ∃ s₁, (renameUndoParent F r).run s =
      (.ok (), s₁) ∧ LeftState t target.ino s₁ ∧ edges s₁ = edges s ∧ s₁.dirs = s.dirs ∧
      s₁.inodes target.ino = s.inodes target.ino := by
    rw [renameUndoParent]
    split
    · exact hleft.undo_write holdNe (hfound.old_range h) hfound.oldParent_eq
    · exact ⟨s, rfl, hleft, rfl, rfl, rfl⟩
  -- the inodes
  obtain ⟨s₂, hrun₂, hleft₂, hedges₂, hdirs₂, hinode₂⟩ :=
    hleft₁.undo_restore (p := .undoTarget) hrange hcopy
  obtain ⟨s₃, hrun₃, hleft₃, hedges₃, hdirs₃, hinode₃⟩ :=
    hleft₂.undo_write (Ne.symm htarget.ne) hfound.src.range hfound.src.inode
  -- the names
  obtain ⟨s₄, hrun₄, hleft₄, hedges₄, hinode₄, hentries⟩ : ∃ s₄, (ignore (step F .undoEntry
      (dirAddEntry r.oldParentIno r.oldParent r.src.name r.src.ino r.src.type))).run s₃ =
        (.ok (), s₄) ∧ _ :=
    hleft₃.undo_add holdNe (hfound.old_range h) (h.live_old hfound) hfound.oldParent_eq
      (splitParentPath_valid hsplit)
  obtain ⟨e, hname, hino, hentry⟩ := entry_replaced hfound htarget
  have hentry₃ : Entry s₃ r.newParentIno e := by
    rw [Entry, hdirs₃, hdirs₂, hdirs₁, hdirs]
    exact hentry
  have hvalid : nameValid e.name false = true := hname ▸ splitParentPath_valid hsplit'
  obtain ⟨s₅, hrun₅, hleft₅, hinode₅, hedges₅⟩ : ∃ s₅, (ignore (step F .undoNewEntry
      (dirReplaceEntry r.newParentIno r.newParent e.name target.ino target.type))).run s₄ =
        (.ok (), s₅) ∧ _ :=
    hleft₄.undo_replace hnewNe (hfound.new_range h) (h.live_new hfound) hfound.newParent_eq hvalid
      (hentries _ _ hentry₃)
  obtain ⟨-, hnames, -⟩ := replaced_names h hfound htarget
  rw [hname] at hrun₅
  rw [hino, hedges₄, hedges₃, hedges₂, hedges₁, hedges] at hedges₅
  refine ⟨s₅, ?_, hleft₅, ?_, ?_, ?_⟩
  · exact (bind_of_ok hrun₁).trans ((bind_of_ok hrun₂).trans ((bind_of_ok hrun₃).trans
      ((bind_of_ok hrun₄).trans hrun₅)))
  · rw [hinode₅, hinode₄, hinode₃, hinode₂, hinode₁]
    split
    · exact Or.inl rfl
    · exact Or.inr rfl
  · have hsrc : r.src.ino ≠ target.ino := Ne.symm htarget.ne
    have hcount := nameCount_retie hnames target.ino
    have hcount₅ := congrArg (countP fun x : Nat × Nat => x.2 = target.ino) hedges₅
    simp only [countP_add, countP_singleton_name, apply_ite (countP _),
      countP_zero, if_neg hsrc, if_true, ite_self] at hcount hcount₅
    rw [nameCount] at hcount ⊢
    omega
  · intro x hx
    have hsrc : 0 < nameCount t r.src.ino := h.src_nameCount hfound
    have htargetNamed : 0 < nameCount t target.ino := h.target_nameCount hfound htarget.toAtNewName
    have hreplaced : ∀ x ∈ edges (replaced t r), 0 < nameCount t x.2 := fun x hx => by
      have hmem : x ∈ edges t + {(r.newParentIno, r.src.ino)} := hnames ▸ mem_add.mpr (Or.inl hx)
      obtain hmem | hmem := mem_add.mp hmem
      · exact countP_pos.mpr ⟨x, hmem, rfl⟩
      · rw [mem_singleton.mp hmem]
        exact hsrc
    have hmem : x ∈ edges s₅ +
        (if takesEffect F .undoNewEntry then {(r.newParentIno, r.src.ino)} else 0) :=
      mem_add.mpr (Or.inl hx)
    rw [hedges₅, mem_add, mem_add] at hmem
    obtain (hmem | hmem) | hmem := hmem
    · exact hreplaced x hmem
    · split at hmem
      · rw [mem_singleton.mp hmem]
        exact hsrc
      · exact absurd hmem (notMem_zero x)
    · split at hmem
      · rw [mem_singleton.mp hmem]
        exact htargetNamed
      · exact absurd hmem (notMem_zero x)

/-- A target that was left on the list is an orphan with a name exactly if the undo names it. -/
private theorem rename_left_iff (h : Shape t) (hbefore : NamesNotOrphaned t)
    (harr : RenameArrives F t oldPath newPath r target) {pushed : NameInode}
    (hpushed : pushed.isDir = (t.inodes target.ino).isDir) (hnext : pushed.dtime = t.lastOrphan)
    (hcopy : copy = pushed ∨ copy = NameInode.zero)
    (hs : LeftOnList (replaced t r) target.ino pushed s) :
    NamesNotOrphaned ((renameUndoDrop F r target target.ino copy).run s).2 ↔
      ¬NamedAgain F t target.ino .undoNewEntry := by
  have htarget := harr.replaces
  have hnamed : 0 < nameCount t target.ino := h.target_nameCount harr.found htarget.toAtNewName
  obtain ⟨hkinds, -, -⟩ := replaced_names h harr.found htarget
  have hdirs : (replaced t r).dirs target.ino = t.dirs target.ino :=
    replaced_dirs (h.target_ne_old harr.found htarget)
      (Ne.symm (htarget.new_ne h harr.found)) htarget.ne
  have hollow : pushed.isDir = true → EmptyDir t target.ino :=
    fun hdir => htarget.empty (hpushed ▸ hdir)
  have hleft : LeftState t target.ino s := hs.leftState (replaced_quiet h harr.found target.ino)
    (fun i _ => hkinds.kind i) hdirs hollow
  have hcopyHollow : copy.isDir = true → EmptyDir t target.ino := by
    obtain rfl | rfl := hcopy
    · exact hollow
    · exact fun hdir => absurd hdir (by decide)
  obtain ⟨t', hrun, hleft', hinode, hcount, hnames⟩ := renameUndoDrop_run h harr.found htarget
    harr.range hcopyHollow hleft hs.dirs (hs.edges hleft (replaced_empty h harr.found htarget))
  rw [hrun]
  constructor
  · intro hnot hagain
    -- the inode has a name and is the first on the list
    have hpos : 0 < nameCount t' target.ino := by
      obtain heff | hmore := hagain
      · rw [if_pos heff] at hcount
        omega
      · omega
    refine not_onOrphanList_of_named hnot hpos ?_
    rw [OnOrphanList, hleft'.head]
    exact ⟨harr.range.1, ReflTransGen.refl⟩
  · intro hnot x hx hlist
    rw [NamedAgain, not_or] at hnot
    have hxne : x.2 ≠ target.ino := by
      intro heq
      have hpos : 0 < nameCount t' target.ino := countP_pos.mpr ⟨x, hx, heq⟩
      rw [if_neg hnot.1] at hcount
      omega
    have hstored : t'.inodes target.ino = pushed ∨ t'.inodes target.ino = NameInode.zero := by
      obtain heq | heq := hinode
      · exact hcopy.imp heq.trans heq.trans
      · exact hs.inode.imp heq.trans heq.trans
    have hdtime : (t'.inodes target.ino).dtime = t.lastOrphan ∨
        (t'.inodes target.ino).dtime = 0 := by
      obtain heq | heq := hstored
      · exact Or.inl (heq ▸ hnext)
      · exact Or.inr (heq ▸ rfl)
    exact hleft'.orphanHead.other hbefore harr.range.1 hnamed hdtime (hnames x hx) hxne hlist

/-- The rename leaves an inode with a name on the orphan list. -/
def RenameLeavesOrphan (F : Faults) (t : NameFs) (oldPath newPath : List UInt8) : Prop :=
  ∃ r target, RenameArrives F t oldPath newPath r target ∧ LastLink (t.inodes target.ino) ∧
    FailsBehindPush F ∧ NamedAgain F t target.ino .undoNewEntry

theorem RenameArrives.unique {r' : Move} {target' : DirEntry}
    (harr : RenameArrives F t oldPath newPath r target)
    (harr' : RenameArrives F t oldPath newPath r' target') : target' = target := by
  obtain ⟨oldParentPath, hold, -⟩ := harr.found.src.parent
  obtain ⟨newParentPath, hnew, -⟩ := harr.found.dest
  have hok := harr'.find_run hold hnew
  rw [harr.find_run hold hnew] at hok
  obtain rfl := Except.ok.inj (congrArg Prod.fst hok)
  exact harr'.replaces.entry.unique harr.replaces.entry
    (harr'.replaces.name.trans harr.replaces.name.symm)

private theorem rename_orphans_iff (h : Shape t) (hbefore : NamesNotOrphaned t)
    (hrun : (ext4Rename F oldPath newPath).run t = (.error err, t')) :
    NamesNotOrphaned t' ↔ ¬RenameLeavesOrphan F t oldPath newPath := by
  by_cases hsome : ∃ r target, RenameArrives F t oldPath newPath r target
  case neg =>
    rw [not_exists] at hsome
    have hquiet := rename_error h hrun fun r target harr => hsome r ⟨target, harr⟩
    refine iff_of_true (hquiet.namesNotOrphaned hbefore fun h => absurd rfl h) ?_
    rintro ⟨r, target, harr, -⟩
    exact hsome r ⟨target, harr⟩
  obtain ⟨r, target, harr⟩ := hsome
  have htarget := harr.replaces
  have hquiet := replaced_quiet h harr.found target.ino
  obtain ⟨copy, res, s, hdrop, hend⟩ : ∃ copy res s,
      (nameDropRemovedLink F target.ino (t.inodes target.ino)).run (replaced t r) =
        (.ok (copy, res), s) ∧
      DropEnd F (replaced t r) target.ino (t.inodes target.ino) copy res s :=
    nameDropRemovedLink_run (hquiet.count ▸ harr.range)
      (hquiet.used ▸ h.namesUsed _ (h.target_mem harr.found htarget.toAtNewName))
  rw [harr.run_eq h, renameDrop, bind_of_ok hdrop, undoing_error] at hrun
  obtain ⟨s₁, hres, rfl⟩ := hrun
  obtain ⟨rfl, rfl⟩ := Prod.mk.inj hres
  have hcond : RenameLeavesOrphan F t oldPath newPath ↔ LastLink (t.inodes target.ino) ∧
      FailsBehindPush F ∧ NamedAgain F t target.ino .undoNewEntry := by
    constructor
    · rintro ⟨r', target', harr', hrest⟩
      exact harr.unique harr' ▸ hrest
    · exact fun hrest => ⟨r, target, harr, hrest⟩
  rw [hcond]
  exact hend.orphans_iff hquiet id
    (fun hs hcopy => (keeps_renameUndoDrop h harr.found htarget.toAtNewName hcopy s
      hs).namesNotOrphaned hbefore fun _ => h.target_nameCount harr.found htarget.toAtNewName)
    keeps_head_renameUndoDrop
    fun _ hpushed hnext hcopy hs => rename_left_iff h hbefore harr hpushed hnext hcopy hs

/-! ### Both -/

/-- The calls that remove a name. -/
inductive RemoveOp where
  | unlink (path : List UInt8)
  | rename (oldPath newPath : List UInt8)

/-- The call, with the steps of it that fail. -/
def RemoveOp.exec (F : Faults) : RemoveOp → NameM Unit
  | .unlink path => ext4Unlink F path
  | .rename oldPath newPath => ext4Rename F oldPath newPath

/-- The failing call leaves an inode with a name on the orphan list. -/
def RemoveOp.LeavesOrphan (F : Faults) (t : NameFs) : RemoveOp → Prop
  | .unlink path => UnlinkLeavesOrphan F t path
  | .rename oldPath newPath => RenameLeavesOrphan F t oldPath newPath

/-- After an error of `ext4_unlink` or `ext4_rename` no inode with a name is on the orphan list,
unless the call has put one there, failed before it took it off again, and given it its name
back. -/
theorem remove_orphans_iff (op : RemoveOp) (h : Shape t) (hbefore : NamesNotOrphaned t)
    {err : Ext4Status} (hrun : (op.exec F).run t = (.error err, t')) :
    NamesNotOrphaned t' ↔ ¬op.LeavesOrphan F t := by
  cases op with
  | unlink path => exact unlink_orphans_iff h hbefore hrun
  | rename oldPath newPath => exact rename_orphans_iff h hbefore hrun

end

/-- One step fails, and has done nothing. -/
def failsAt (p : Point) : Faults := fun q => if q = p then some ⟨.corrupt, false⟩ else none

private theorem siblings_namesNotOrphaned :
    NamesNotOrphaned siblings := namesNotOrphaned_of_empty rfl

/-- The entry of the directory `a` cannot be removed: nothing has happened. -/
theorem unlink_fails_before_push :
    NamesNotOrphaned ((ext4Unlink (failsAt .removeEntry) [0x2f, 0x61]).run siblings).2 := by
  have hrun : ((RemoveOp.unlink [0x2f, 0x61]).exec (failsAt .removeEntry)).run siblings
      = (.error .corrupt, ((ext4Unlink (failsAt .removeEntry) [0x2f, 0x61]).run siblings).2) :=
    Prod.ext (by decide +kernel) rfl
  refine (remove_orphans_iff _ siblings_consistent.shape siblings_namesNotOrphaned hrun).mpr ?_
  rintro ⟨r, harr, -⟩
  exact absurd harr.remove (by decide)

/-- The blocks of the directory `a` cannot be freed: its name is put back, and it stays on the
orphan list. -/
theorem unlink_fails_behind_push : Shape siblings ∧ NamesNotOrphaned siblings ∧
      ∃ err t', (ext4Unlink (failsAt .freeBlocks) [0x2f, 0x61]).run siblings = (.error err, t') ∧
        ¬NamesNotOrphaned t' := by
  have hhead : ((ext4Unlink (failsAt .freeBlocks) [0x2f, 0x61]).run siblings).2.lastOrphan =
      11 := by
    decide +kernel
  have hname : (2, 11) ∈ edges
      ((ext4Unlink (failsAt .freeBlocks) [0x2f, 0x61]).run siblings).2 := by
    decide +kernel
  refine ⟨siblings_consistent.shape, siblings_namesNotOrphaned, .corrupt,
    ((ext4Unlink (failsAt .freeBlocks) [0x2f, 0x61]).run siblings).2,
    Prod.ext (by decide +kernel) rfl, fun h => h _ hname ⟨by decide, ?_⟩⟩
  rw [hhead]

end Rabbitbone.Spec.Ext4
