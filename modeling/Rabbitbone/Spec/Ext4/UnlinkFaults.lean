import Rabbitbone.Spec.Ext4.LinkCounts
import Rabbitbone.Spec.Ext4.OrphanNames

/-!
# Failures of `ext4_unlink`

`ext4_unlink` puts an inode that has lost its last name on the orphan list, frees it and takes it
from the list.  When a step in between fails, the inode is stored as it was and its name is entered
again, but nothing takes the inode from the list.
-/

namespace Rabbitbone.Spec.Ext4

open Native.Ext4 Native.Path FallibleState Relation Multiset

variable {d ino : Nat} {dir inode : NameInode}

section

variable {F : Faults} {t t' s : NameFs} {path : List UInt8} {r : Removal} {e : DirEntry}
  {err : Ext4Status} {P : NameFs → Prop}

/-- The call gets as far as dropping the link of the inode. -/
structure UnlinkArrives (F : Faults) (t : NameFs) (path : List UInt8) (r : Removal) : Prop where
  found : FoundEntry t path r.parentIno r.parent r.entry r.inode
  finds : FindsName F r.inode.isDir
  empty : r.inode.isDir = true → EmptyDir t r.entry.ino
  remove : F .removeEntry = none
  parent : r.inode.isDir = true → r.parent.links ≠ 0 ∧ F .writeParent = none

/-- An unlink that arrives finds its name. -/
theorem UnlinkArrives.find_run (h : UnlinkArrives F t path r) :
    (unlinkFind F path).run t = (.ok r, t) :=
  unlinkFind_ok.mpr ⟨h.found, h.empty, h.finds, rfl⟩

theorem UnlinkArrives.unique {r' : Removal} (h : UnlinkArrives F t path r)
    (h' : UnlinkArrives F t path r') : r' = r := by
  have hok := h'.find_run
  rw [h.find_run] at hok
  exact (Except.ok.inj (congrArg Prod.fst hok)).symm

/-- The tree at that point. -/
def unlinked (t : NameFs) (r : Removal) : NameFs :=
  parentDropped (eraseEntry t r.parentIno r.entry.name) r.parentIno r.parent r.inode.isDir

private theorem FoundEntry.parentCopy (h : FoundEntry t path r.parentIno r.parent r.entry r.inode) :
    DirCopy t r.parentIno r.parent := by
  obtain ⟨_, -, hparent⟩ := h.parent
  exact ⟨fun hdir => hparent.inode ▸ hdir, by rw [hparent.inode]⟩

/-- The entry is a name of the tree. -/
private theorem Shape.entry_named (h : Shape t) (hfound : FoundEntry t path d dir e inode) :
    (d, e.ino) ∈ edges t := by
  obtain ⟨_, -, hparent⟩ := hfound.parent
  exact h.mem_edges (h.live_of_found hparent) hfound.entry.mem hfound.not_dot

theorem Shape.entry_nameCount (h : Shape t) (hfound : FoundEntry t path d dir e inode) :
    0 < nameCount t e.ino :=
  countP_pos.mpr ⟨_, h.entry_named hfound, rfl⟩

theorem keeps_requireEmpty : Keeps P (requireEmpty F ino inode) := by
  rw [requireEmpty]
  split
  · exact (keeps_readStep _).bind fun _ => Keeps.require _ _
  · exact Keeps.pure _

private theorem keeps_unlinkFind : Keeps P (unlinkFind F path) :=
  (Keeps.ofOption _ _).bind fun _ => (keeps_readStep _).bind fun _ => Keeps.get.bind fun _ =>
    (keeps_readStep _).bind fun _ => (keeps_readStep _).bind fun _ =>
    keeps_requireEmpty.bind fun _ => Keeps.pure _

/-- Putting the entry back is quiet. -/
private theorem keeps_unlinkUndo (h : Shape t)
    (hfound : FoundEntry t path r.parentIno r.parent r.entry r.inode) :
    Keeps (Quiet t ino) (unlinkUndo F r) :=
  keeps_ignore (keeps_step (keeps_dirAddEntry hfound.parentCopy (h.entry_nameCount hfound)))

theorem parentDropped_copy (h : DirCopy t d dir) :
    DirCopy t d { dir with links := dir.links - 1 } :=
  ⟨h.kind, h.dtime⟩

/-- Changing the parent is quiet, also where it fails. -/
private theorem keeps_unlinkParent (h : Shape t)
    (hfound : FoundEntry t path r.parentIno r.parent r.entry r.inode) :
    Keeps (Quiet t ino) (unlinkParent F r) := by
  have hcopy := parentDropped_copy hfound.parentCopy
  rw [unlinkParent]
  split
  · refine Keeps.undoing ?_ (keeps_unlinkUndo h hfound)
    intro s hs
    cases hdec : r.parent.linksDecChecked with
    | none => exact hs
    | some parent =>
      obtain ⟨-, rfl⟩ := linksDecChecked_eq_some.mp hdec
      exact keeps_step (keeps_nameWriteInode hcopy.kind fun _ => hcopy.dtime) s hs
  · exact Keeps.pure _

/-- An error before the link is dropped leaves the state quiet. -/
theorem unlink_error (h : Shape t) (hrun : (ext4Unlink F path).run t = (.error err, t')) :
    (Quiet t 0 t' ∧ ∀ r, ¬UnlinkArrives F t path r) ∨
      ∃ r, UnlinkArrives F t path r ∧ (unlinkDrop F r).run (unlinked t r) = (.error err, t') := by
  rw [ext4Unlink, bind_error] at hrun
  obtain hfind | ⟨r, t₁, hfind, hrun⟩ := hrun
  · refine Or.inl ⟨keeps_unlinkFind.of_run (h.quiet 0) hfind, fun r harr => ?_⟩
    rw [harr.find_run] at hfind
    cases congrArg Prod.fst hfind
  obtain ⟨hfound, hempty, hfinds, ht₁⟩ := unlinkFind_ok.mp hfind
  rw [ht₁, bind_error] at hrun
  -- another removal that arrives is the one that was found
  have hunique : ∀ r', UnlinkArrives F t path r' → r' = r := fun r' harr => by
    have hok := harr.find_run
    rw [hfind] at hok
    exact (Except.ok.inj (congrArg Prod.fst hok)).symm
  obtain ⟨parentPath, hsplit, hparent⟩ := hfound.parent
  have hrange : r.parentIno ≠ 0 ∧ r.parentIno ≤ t.inodesCount :=
    ⟨lookup_ne_zero hparent.lookup, h.usedLe _ (h.live_of_found hparent).1⟩
  have hremove := dirRemoveEntry_run (splitParentPath_valid hsplit) hfound.entry hrange
  rw [hparent.inode] at hremove
  have hquiet : Quiet t 0 (eraseEntry t r.parentIno r.entry.name) :=
    (keeps_dirRemoveEntry hfound.parentCopy).of_run (h.quiet 0) hremove
  obtain hfail | ⟨_, t₂, hok, hrun⟩ := hrun
  · refine Or.inl ⟨?_, fun r' harr => ?_⟩
    · exact (keeps_step (keeps_dirRemoveEntry hfound.parentCopy)).of_run (h.quiet 0) hfail
    · rw [step_ok.mpr ⟨harr.remove, hremove⟩] at hfail
      cases congrArg Prod.fst hfail
  rw [step_ok, hremove] at hok
  obtain ⟨hF, hok⟩ := hok
  obtain rfl : _ = t₂ := congrArg Prod.snd hok
  rw [bind_error] at hrun
  obtain hfail | ⟨_, t₃, hok, hrun⟩ := hrun
  · refine Or.inl ⟨(keeps_unlinkParent h hfound).of_run hquiet hfail, fun r' harr => ?_⟩
    obtain rfl := hunique r' harr
    have hok : (unlinkParent F r').run (eraseEntry t r'.parentIno r'.entry.name) = (.ok (), _) :=
      unlinkParent_ok.mpr ⟨fun hdir => ⟨(harr.parent hdir).1, (harr.parent hdir).2, hrange⟩, rfl⟩
    rw [hok] at hfail
    cases congrArg Prod.fst hfail
  · obtain ⟨hlinks, rfl⟩ := unlinkParent_ok.mp hok
    exact Or.inr ⟨r, ⟨hfound, hfinds, hempty, hF, fun hdir => ⟨(hlinks hdir).1, (hlinks hdir).2.1⟩⟩,
      hrun⟩

/-! ### Behind the parent -/

/-- Up to the drop of the link nothing is orphaned. -/
private theorem unlinked_quiet (h : Shape t)
    (hfound : FoundEntry t path r.parentIno r.parent r.entry r.inode)
    (ino : Nat) : Quiet t ino (unlinked t r) := by
  have hcopy := parentDropped_copy hfound.parentCopy
  have herase : Quiet t ino (eraseEntry t r.parentIno r.entry.name) :=
    (h.quiet ino).setDir fun _ he _ => Or.inl (List.mem_of_mem_eraseP he)
  rw [unlinked, parentDropped]
  split
  · exact herase.setInode hcopy.kind fun _ => hcopy.dtime
  · exact herase

/-- A directory is not its own entry. -/
private theorem UnlinkArrives.parent_ne (harr : UnlinkArrives F t path r) :
    r.parentIno ≠ r.entry.ino := by
  obtain ⟨_, -, hparent⟩ := harr.found.parent
  intro heq
  have hdir : r.inode.isDir = true := by
    rw [← harr.found.inode, ← heq, hparent.inode]
    exact hparent.isDir
  exact (harr.empty hdir).ne harr.found.entry.mem harr.found.not_dot heq

private theorem keeps_unlinkUndoDrop (h : Shape t)
    (hfound : FoundEntry t path r.parentIno r.parent r.entry r.inode) :
    Keeps (Quiet t r.entry.ino) (unlinkUndoDrop F r) := by
  have hcopy := hfound.parentCopy
  refine Keeps.bind ?_ fun _ => (keeps_ignore (keeps_step (keeps_nameWriteInode (fun hdir => ?_)
    fun hne => absurd rfl hne))).bind fun _ => keeps_unlinkUndo h hfound
  · rw [unlinkUndoParent]
    split
    · exact keeps_ignore (keeps_step (keeps_nameWriteInode hcopy.kind fun _ => hcopy.dtime))
    · exact Keeps.pure _
  · rw [hfound.inode]
    exact hdir

private theorem keeps_head_unlinkUndoDrop {a : Nat} :
    Keeps (fun s => s.lastOrphan = a) (unlinkUndoDrop F r) := by
  refine Keeps.bind ?_ fun _ => (keeps_ignore (keeps_step keeps_head_nameWriteInode)).bind fun _ =>
    keeps_ignore (keeps_step keeps_head_dirAddEntry)
  rw [unlinkUndoParent]
  split
  · exact keeps_ignore (keeps_step keeps_head_nameWriteInode)
  · exact Keeps.pure _

/-! ### An inode that is left on the list -/

/-- The name is back, or there is another one. -/
def NamedAgain (F : Faults) (t : NameFs) (ino : Nat) (p : Point) : Prop :=
  takesEffect F p = true ∨ 1 < nameCount t ino

/-- The undone call leaves the list with an inode that has a name: the one that was to be removed,
or one that its old field `i_dtime` leads to. -/
def UnlinkNamesOrphan (F : Faults) (t : NameFs) (ino : Nat) : Prop :=
  NamedAgain F t ino .undoEntry ∨
    takesEffect F .undoInode = true ∧ ∃ x ∈ edges t, x.2 ≠ ino ∧ OrphanFrom t ino x.2

/-- The state behind the undone call. -/
theorem unlinkUndoDrop_run (h : Shape t) (harr : UnlinkArrives F t path r)
    (hleft : LeftState t r.entry.ino s) :
    LeftState t r.entry.ino ((unlinkUndoDrop F r).run s).2 ∧ edges ((unlinkUndoDrop F r).run s).2
        = edges s + (if takesEffect F .undoEntry then {(r.parentIno, r.entry.ino)} else 0) ∧
      ((unlinkUndoDrop F r).run s).2.inodes r.entry.ino
        = if takesEffect F .undoInode then r.inode else s.inodes r.entry.ino := by
  obtain ⟨parentPath, hsplit, hparent⟩ := harr.found.parent
  have hlive := h.live_of_found hparent
  have hrange : r.parentIno ≠ 0 ∧ r.parentIno ≤ t.inodesCount :=
    ⟨lookup_ne_zero hparent.lookup, h.usedLe _ hlive.1⟩
  -- the parent
  obtain ⟨s₁, hrun₁, hleft₁, hedges₁, hinode₁⟩ : ∃ s₁, (unlinkUndoParent F r).run s = (.ok (), s₁) ∧
      LeftState t r.entry.ino s₁ ∧ edges s₁ = edges s ∧
      s₁.inodes r.entry.ino = s.inodes r.entry.ino := by
    rw [unlinkUndoParent]
    split
    · obtain ⟨s₁, hrun₁, hleft₁, hedges₁, -, hinode₁⟩ :=
        hleft.undo_write (F := F) (p := .undoParent) harr.parent_ne hrange hparent.inode
      exact ⟨s₁, hrun₁, hleft₁, hedges₁, hinode₁⟩
    · exact ⟨s, rfl, hleft, rfl, rfl⟩
  -- the inode
  obtain ⟨s₂, hrun₂, hleft₂, hedges₂, -, hinode₂⟩ :=
    hleft₁.undo_restore (F := F) (p := .undoInode) harr.found.range harr.empty
  -- the name
  obtain ⟨s₃, hrun₃, hleft₃, hedges₃, hinode₃, -⟩ : ∃ s₃, (unlinkUndo F r).run s₂ =
      (.ok (), s₃) ∧ _ :=
    hleft₂.undo_add harr.parent_ne hrange hlive hparent.inode (splitParentPath_valid hsplit)
  have hrun : (unlinkUndoDrop F r).run s = (.ok (), s₃) :=
    (bind_of_ok hrun₁).trans ((bind_of_ok hrun₂).trans hrun₃)
  rw [hrun]
  refine ⟨hleft₃, ?_, ?_⟩
  · rw [hedges₃, hedges₂, hedges₁]
  · rw [hinode₃, hinode₂, hinode₁]

private theorem unlink_left_iff (h : Shape t) (hbefore : NamesNotOrphaned t)
    (harr : UnlinkArrives F t path r)
    {pushed : NameInode} (hpushed : pushed.isDir = r.inode.isDir)
    (hnext : pushed.dtime = t.lastOrphan)
    (hs : LeftOnList (unlinked t r) r.entry.ino pushed s) :
    NamesNotOrphaned ((unlinkUndoDrop F r).run s).2 ↔ ¬UnlinkNamesOrphan F t r.entry.ino := by
  have hino : r.entry.ino ≠ 0 := harr.found.range.1
  have hnamed : 0 < nameCount t r.entry.ino := h.entry_nameCount harr.found
  obtain ⟨hkinds, hedges₂, -⟩ : SameKinds t (unlinked t r) ∧
      edges (unlinked t r) + {(r.parentIno, r.entry.ino)} = edges t ∧ _ :=
    unlinked_names h harr.found fun hdir => (harr.parent hdir).1
  have hdirs : (unlinked t r).dirs r.entry.ino = t.dirs r.entry.ino := by
    rw [unlinked, parentDropped_dirs]
    exact Function.update_of_ne (Ne.symm harr.parent_ne) _ _
  have hleft : LeftState t r.entry.ino s := hs.leftState (unlinked_quiet h harr.found r.entry.ino)
    (fun i _ => hkinds.kind i) hdirs fun hdir => harr.empty (hpushed ▸ hdir)
  have hempty : namesIn (unlinked t r) r.entry.ino = 0 := by
    rw [namesIn]
    split
    · rename_i hlive
      rw [hkinds.live] at hlive
      rw [hdirs]
      exact namesOf_of_empty (harr.empty (harr.found.inode ▸ hlive.2))
    · rfl
  obtain ⟨hleft', hedges', hinode'⟩ := unlinkUndoDrop_run h harr hleft
  rw [hs.edges hleft hempty] at hedges'
  set t' := ((unlinkUndoDrop F r).run s).2
  -- the names are those of before, but for the one that was removed
  have hcount : nameCount t' r.entry.ino + 1 = nameCount t r.entry.ino +
      if takesEffect F .undoEntry then 1 else 0 := by
    have hcount₂ := nameCount_retie (A := 0) (hedges₂.trans (add_zero _).symm) r.entry.ino
    rw [countP_singleton_name, if_pos rfl, countP_zero] at hcount₂
    have hcount' : nameCount t' r.entry.ino = nameCount (unlinked t r) r.entry.ino
        + if takesEffect F .undoEntry then 1 else 0 := by
      rw [nameCount, hedges', countP_add]
      split
      · rw [countP_singleton_name, if_pos rfl, nameCount]
      · rfl
    omega
  have hother : ∀ x, x.2 ≠ r.entry.ino → (x ∈ edges t' ↔ x ∈ edges t) := fun x hx => by
    have hne : x ≠ (r.parentIno, r.entry.ino) := fun heq => hx (heq ▸ rfl)
    rw [hedges', ← hedges₂, mem_add, mem_add, mem_singleton]
    split <;> simp [hne]
  constructor
  · rintro hnames (hagain | ⟨heff, x, hx, hxne, hfrom⟩)
    · -- the inode has a name and is the first on the list
      have hpos : 0 < nameCount t' r.entry.ino := by
        obtain heff | hmore := hagain
        · rw [if_pos heff] at hcount
          omega
        · omega
      refine not_onOrphanList_of_named hnames hpos ?_
      rw [OnOrphanList, hleft'.head]
      exact ⟨hino, ReflTransGen.refl⟩
    · have hdtime : (t'.inodes r.entry.ino).dtime = (t.inodes r.entry.ino).dtime := by
        rw [hinode', if_pos heff, harr.found.inode]
      exact hnames x ((hother x hxne).mpr hx) ((hleft'.orphanHead.restored hdtime _).mpr hfrom)
  · intro hnot x hx hlist
    have hnotAgain : ¬NamedAgain F t r.entry.ino .undoEntry := fun hagain => hnot (Or.inl hagain)
    rw [NamedAgain, not_or] at hnotAgain
    have hxne : x.2 ≠ r.entry.ino := by
      intro heq
      have hpos : 0 < nameCount t' r.entry.ino := countP_pos.mpr ⟨x, hx, heq⟩
      rw [if_neg hnotAgain.1] at hcount
      omega
    have hxt := (hother x hxne).mp hx
    by_cases heff : takesEffect F .undoInode = true
    · have hdtime : (t'.inodes r.entry.ino).dtime = (t.inodes r.entry.ino).dtime := by
        rw [hinode', if_pos heff, harr.found.inode]
      exact hnot (Or.inr ⟨heff, x, hxt, hxne, (hleft'.orphanHead.restored hdtime _).mp hlist⟩)
    have hdtime : (t'.inodes r.entry.ino).dtime = t.lastOrphan ∨
        (t'.inodes r.entry.ino).dtime = 0 := by
      rw [hinode', if_neg heff]
      obtain heq | heq := hs.inode
      · exact Or.inl (heq ▸ hnext)
      · exact Or.inr (heq ▸ rfl)
    exact hleft'.orphanHead.other hbefore hino hnamed hdtime
      (countP_pos.mpr ⟨x, hxt, rfl⟩) hxne hlist

/-- Whatever undoes the call: an inode with a name is on the list only if the call has put one there
and failed before it took it off again. -/
theorem DropEnd.orphans_iff {copy : NameInode} {res : Except Ext4Status Unit} {named : Prop}
    {undo : NameM Unit} (hend : DropEnd F t' ino inode copy res s) (hquiet : Quiet t ino t')
    (hkind : inode.isDir = true → (t.inodes ino).isDir = true)
    (hundone : Quiet t ino s → (copy.isDir = true → (t.inodes ino).isDir = true) →
      NamesNotOrphaned (undo.run s).2)
    (hhead : Keeps (fun s => s.lastOrphan = 0) undo)
    (hleft : ∀ pushed : NameInode, pushed.isDir = inode.isDir → pushed.dtime = t.lastOrphan →
      (copy = pushed ∨ copy = NameInode.zero) → LeftOnList t' ino pushed s →
      (NamesNotOrphaned (undo.run s).2 ↔ ¬named)) :
    NamesNotOrphaned (undo.run s).2 ↔ ¬(LastLink inode ∧ FailsBehindPush F ∧ named) := by
  cases hend with
  | counted hlinks hs' =>
    refine iff_of_true (hundone ?_ hkind) fun hleaves => hlinks hleaves.1
    obtain rfl | rfl := hs'
    · exact hquiet
    · exact hquiet.setInode hkind fun hne => absurd rfl hne
  | freed hlinks hend =>
    cases hend with
    | unpushed hF hs' =>
      refine iff_of_true (hundone ?_ hkind) fun hleaves => hF hleaves.2.1.1
      obtain rfl | rfl := hs'
      · exact hquiet
      · exact hquiet.setInode hkind fun hne => absurd rfl hne
    | left hF hcopy hs' =>
      rw [and_iff_right hlinks, and_iff_right hF]
      exact hleft { inode with links := 0, dtime := t'.lastOrphan } rfl hquiet.head hcopy hs'
    | taken hF hF' hs' =>
      refine iff_of_true ?_ fun hleaves => hF hleaves.2.1
      exact namesNotOrphaned_of_empty (hhead s hs')

/-- The call leaves an inode with a name on the orphan list: the inode loses its last link, is put
on the list, a later step fails, and the undone call brings a name back. -/
def UnlinkLeavesOrphan (F : Faults) (t : NameFs) (path : List UInt8) : Prop :=
  ∃ r, UnlinkArrives F t path r ∧ LastLink r.inode ∧ FailsBehindPush F ∧
    UnlinkNamesOrphan F t r.entry.ino

/-- An error of `ext4_unlink`. -/
theorem unlink_orphans_iff (h : Shape t) (hbefore : NamesNotOrphaned t)
    (hrun : (ext4Unlink F path).run t = (.error err, t')) :
    NamesNotOrphaned t' ↔ ¬UnlinkLeavesOrphan F t path := by
  obtain ⟨hquiet, hnone⟩ | ⟨r, harr, hrun⟩ := unlink_error h hrun
  · refine iff_of_true (hquiet.namesNotOrphaned hbefore fun h => absurd rfl h) ?_
    rintro ⟨r, harr, -⟩
    exact hnone r harr
  have hnamed := h.entry_nameCount harr.found
  have hquiet := unlinked_quiet h harr.found r.entry.ino
  have hkind : r.inode.isDir = true → (t.inodes r.entry.ino).isDir = true := fun hdir => by
    rw [harr.found.inode]
    exact hdir
  obtain ⟨copy, res, s, hdrop, hend⟩ : ∃ copy res s,
      (nameDropRemovedLink F r.entry.ino r.inode).run (unlinked t r) = (.ok (copy, res), s) ∧
      DropEnd F (unlinked t r) r.entry.ino r.inode copy res s :=
    nameDropRemovedLink_run ⟨harr.found.range.1, hquiet.count ▸ harr.found.range.2⟩
      (hquiet.used ▸ h.namesUsed _ (h.entry_named harr.found))
  rw [unlinkDrop, bind_of_ok hdrop, undoing_error] at hrun
  obtain ⟨s₁, hres, rfl⟩ := hrun
  obtain ⟨rfl, rfl⟩ := Prod.mk.inj hres
  have hcond : UnlinkLeavesOrphan F t path ↔
      LastLink r.inode ∧ FailsBehindPush F ∧ UnlinkNamesOrphan F t r.entry.ino := by
    constructor
    · rintro ⟨r', harr', hrest⟩
      exact harr.unique harr' ▸ hrest
    · exact fun hrest => ⟨r, harr, hrest⟩
  rw [hcond]
  exact hend.orphans_iff hquiet hkind
    (fun hs _ => (keeps_unlinkUndoDrop h harr.found s hs).namesNotOrphaned hbefore fun _ => hnamed)
    keeps_head_unlinkUndoDrop
    fun _ hpushed hnext _ hs => unlink_left_iff h hbefore harr hpushed hnext hs

end

end Rabbitbone.Spec.Ext4
