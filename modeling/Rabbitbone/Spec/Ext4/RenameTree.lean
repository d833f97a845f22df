import Rabbitbone.ForStd.Relation
import Rabbitbone.Spec.Ext4.RenameLinks

/-!
# Renames and the tree of directories

`ext4_rename` looks both parents up, through symbolic links, and then compares the two paths as
texts to find out whether a directory would go into itself.  This file says what follows for the
directories: a rename keeps them a tree exactly if the new parent is not the directory that moves,
nor below it.

## Key results

- `rooted_of_reach`: directories with one name each that are reached from the root are on no loop,
  and their entries `..` lead back.
- `rename_rooted_iff`: what a successful rename does to the tree.
-/

namespace Rabbitbone.Spec.Ext4

open Native.Ext4 Native.Path FallibleState Relation Function Multiset

variable {p d d' parent ino : Nat}

/-- `b` is a directory with a name in the directory `a`. -/
def Sub (t : NameFs) (a b : Nat) : Prop := (a, b) ∈ edges t ∧ Live t b

/-- The entry `..` of the directory `d` stands for `p`. -/
def Parent (t : NameFs) (d p : Nat) : Prop := ∃ e, e.name = [dot, dot] ∧ e.ino = p ∧ Entry t d e

/-- The directories are a tree, up and down. -/
structure Rooted (t : NameFs) : Prop where
  down : ∀ d, Live t d → InTree t d → ReflTransGen (Sub t) rootIno d
  up : ∀ d, Live t d → InTree t d → ReflTransGen (Parent t) d rootIno
  noLoop : ∀ d, ¬TransGen (Sub t) d d

/-- A tree of directories: the names are in shape, the directories are reached from the root, and
their entries `..` stand for the directory that has their name. -/
structure DirTree (t : NameFs) : Prop where
  shape : Shape t
  parents : ∀ a b, Sub t a b → Parent t b a
  reach : ∀ d, Live t d → InTree t d → ReflTransGen (Sub t) rootIno d

section

variable {t t' : NameFs} {e : DirEntry} {name : List UInt8} {inode : NameInode}

private theorem sub_unique {a b c : Nat} (honce : nameCount t c ≤ 1) (ha : Sub t a c)
    (hb : Sub t b c) :
    a = b := by
  rw [nameCount, countP_eq_card_filter] at honce
  have hmem : ∀ d, Sub t d c → (d, c) ∈ (edges t).filter fun x => x.2 = c := fun d hd =>
    mem_filter.mpr ⟨hd.1, rfl⟩
  obtain ⟨x, hx⟩ : ∃ x, (edges t).filter (fun x => x.2 = c) = {x} :=
    card_eq_one.mp (le_antisymm honce (card_pos_iff_exists_mem.mpr ⟨_, hmem a ha⟩))
  have ha' := mem_singleton.mp (hx ▸ hmem a ha)
  have hb' := mem_singleton.mp (hx ▸ hmem b hb)
  exact congrArg Prod.fst (ha'.trans hb'.symm)

/-- A tree is rooted if everything can be reached once. -/
private theorem rooted_of_reach (hroot : nameCount t rootIno = 0)
    (honce : ∀ d, Live t d → nameCount t d ≤ 1) (hparents : ∀ a b, Sub t a b → Parent t b a)
    (hreach : ∀ d, Live t d → InTree t d → ReflTransGen (Sub t) rootIno d) : Rooted t := by
  refine ⟨hreach, fun d hlive hin => ?_, fun d hloop => ?_⟩
  · exact ReflTransGen.mono (fun a b hab => hparents b a hab) _ _ (hreach d hlive hin).swap
  · -- a directory on a loop has a name, so it is reached from the root
    obtain ⟨a, -, ha⟩ := TransGen.tail'_iff.mp hloop
    refine not_transGen_self_of_reach (fun a ha => ?_) (fun a b c hac hbc => ?_)
      (hreach d ha.2 (inTree_of_mem ha.1)) hloop
    · exact nameCount_eq_zero.mp hroot _ ha.1 rfl
    · exact sub_unique (honce c hac.2) hac hbc

private theorem DirTree.rooted (h : DirTree t) : Rooted t :=
  rooted_of_reach h.shape.rootUnnamed h.shape.dirOnce h.parents h.reach

/-! ### The entry `..` -/

private theorem parent_congr (h : t'.dirs d = t.dirs d) : Parent t' d p ↔ Parent t d p := by
  rw [Parent, Parent]
  simp only [Entry, h]

private theorem parent_addEntry (h : Parent t d p) : Parent (addEntry t d' e) d p := by
  obtain ⟨e', hname, hino, hentry⟩ := h
  exact ⟨e', hname, hino, entry_addEntry hentry⟩

private theorem parent_putEntry {child : Nat} {type : UInt8} (hname : nameIsDot name = false)
    (h : Parent t d p) : Parent (putEntry t d' name child type) d p := by
  obtain ⟨e, hdot, hino, hentry⟩ := h
  exact ⟨e, hdot, hino, entry_putEntry hentry fun _ => hdot ▸ not_dot_ne hname⟩

private theorem parent_eraseEntry (hname : nameIsDot name = false) (h : Parent t d p) :
    Parent (eraseEntry t d' name) d p := by
  obtain ⟨e, hdot, hino, hentry⟩ := h
  exact ⟨e, hdot, hino, entry_eraseEntry hentry fun _ => hdot ▸ not_dot_ne hname⟩

private theorem find?_replaceDotdot {l : List DirEntry}
    (h : l.find? (fun e' => e'.name = [dot, dot]) = some e) :
    (replaceDotdot parent l).find? (fun e' => e'.name = [dot, dot]) =
      some { e with ino := parent } := by
  induction l with
  | nil => exact nomatch h
  | cons a l ih =>
    rw [replaceDotdot]
    by_cases ha : a.name = [dot, dot]
    · rw [List.find?_cons_of_pos (by simpa using ha)] at h
      obtain rfl := Option.some.inj h
      rw [if_pos ha, List.find?_cons_of_pos (by simpa using ha)]
    rw [List.find?_cons_of_neg (by simpa using ha)] at h
    rw [if_neg ha, List.find?_cons_of_neg (by simpa using ha)]
    exact ih h

/-- A directory with another parent. -/
theorem parent_putDotdot_self (h : Parent t d p) : Parent (putDotdot t d parent) d parent := by
  obtain ⟨e, hdot, -, hentry⟩ := h
  refine ⟨{ e with ino := parent }, hdot, rfl, ?_⟩
  rw [Entry, hdot] at hentry
  have hfind : (replaceDotdot parent (t.dirs d)).find? (fun e' => e'.name = [dot, dot])
      = some { e with ino := parent } := find?_replaceDotdot hentry
  rw [hdot] at hfind
  rw [Entry, putDotdot, NameFs.setDir]
  dsimp only
  rw [update_self, hdot]
  exact hfind

private theorem parent_putDotdot_of_ne (hd : d ≠ d') (h : Parent t d p) :
    Parent (putDotdot t d' parent) d p :=
  (parent_congr (update_of_ne hd _ _)).mpr h

/-! ### What a move leaves -/

variable {oldPath newPath : List UInt8} {r : Move} {gone : Nat → Prop} {G : Multiset (Nat × Nat)}

/-- The tree after a move that takes the names `G` away with what they stand for. -/
structure MoveEffect (t t' : NameFs) (r : Move) (gone : Nat → Prop) (G : Multiset (Nat × Nat)) :
    Prop where
  edges : edges t' + ({(r.oldParentIno, r.src.ino)} + G) = edges t + {(r.newParentIno, r.src.ino)}
  live : ∀ d, Live t' d ↔ Live t d ∧ ¬gone d
  goneNames : ∀ x ∈ G, gone x.2
  leaf : ∀ x ∈ Ext4.edges t, ¬gone x.1
  src : ¬gone r.src.ino
  dest : ¬gone r.newParentIno
  parent : ∀ d p, d ≠ r.src.ino → Parent t d p → Parent t' d p
  parentSrc : r.inode.isDir = true → Parent t r.src.ino r.oldParentIno →
    Parent t' r.src.ino r.newParentIno

private theorem parent_movedNewParent (hd : d ≠ r.src.ino) (h : Parent t d p) :
    Parent (movedNewParent t r) d p := by
  rw [movedNewParent]
  split
  · exact parent_putDotdot_of_ne hd h
  · exact h

/-- The moved directory gets its new parent. -/
private theorem parent_movedNewParent_src (hdir : r.inode.isDir = true)
    (h : Parent t r.src.ino r.oldParentIno) :
    Parent (movedNewParent t r) r.src.ino r.newParentIno := by
  rw [movedNewParent]
  split
  · exact parent_putDotdot_self h
  rename_i hre
  have hsame : r.oldParentIno = r.newParentIno := not_not.mp fun hne => hre ⟨hdir, hne⟩
  exact hsame ▸ h

private theorem parent_movedOverParent (hd : d ≠ r.src.ino) (h : Parent t d p) :
    Parent (movedOverParent t r) d p := by
  rw [movedOverParent]
  split
  · exact parent_putDotdot_of_ne hd h
  · exact h

private theorem parent_movedOverParent_src (hdir : r.inode.isDir = true)
    (h : Parent t r.src.ino r.oldParentIno) :
    Parent (movedOverParent t r) r.src.ino r.newParentIno := by
  rw [movedOverParent]
  split
  · exact parent_putDotdot_self h
  rename_i hre
  have hsame : r.oldParentIno = r.newParentIno := not_not.mp fun hne => hre ⟨hdir, hne⟩
  exact hsame ▸ h

/-- What a move to a free name does to the tree. -/
private theorem moveEffect_new (h : Shape t) (hfound : FoundMove t oldPath newPath r)
    (hlinks : r.reparents → r.oldParent.links ≠ 0 ∧ r.newParent.links ≠ 0xffff) :
    MoveEffect t (movedNew t r) r (fun _ => False) 0 := by
  obtain ⟨hkinds, hedges, -⟩ := movedNew_names h hfound hlinks
  have hentries : ∀ d p, Parent t d p → Parent (eraseEntry (addEntry t r.newParentIno
      ⟨r.newName, r.src.ino, r.src.type⟩) r.oldParentIno r.src.name) d p := fun d p hp =>
    parent_eraseEntry hfound.src.not_dot (parent_addEntry hp)
  refine ⟨by rw [add_zero, hedges], fun d => by rw [hkinds.live]; simp, by simp,
    fun _ _ => id, id, id, fun d p hd hp => ?_, fun hdir hp => ?_⟩
  · exact parent_movedNewParent hd (hentries d p hp)
  · exact parent_movedNewParent_src hdir (hentries _ _ hp)

variable {target : DirEntry}

private theorem droppedLink_dirs (t : NameFs) (ino : Nat) (inode : NameInode) :
    (droppedLink t ino inode).dirs = t.dirs := by
  rw [droppedLink]
  split <;> rfl

/-- The link of an inode with nothing in it is dropped. -/
theorem edges_droppedLink (hinode : t.inodes ino = inode) (hempty : namesIn t ino = 0) :
    edges (droppedLink t ino inode) = edges t := by
  rw [droppedLink]
  split
  · exact edges_setInode (by rw [hinode]; rfl)
  · exact edges_freed hempty

/-- A directory whose link is dropped goes. -/
theorem live_droppedLink (hinode : t.inodes ino = inode) :
    Live (droppedLink t ino inode) d ↔ Live t d ∧ d ≠ ino := by
  rw [droppedLink]
  split
  · rename_i hlinks
    have hsame : ({ inode with links := inode.links - 1 } : NameInode).isDir =
        (t.inodes ino).isDir := by
      rw [hinode]
      rfl
    rw [(SameKinds.setInode hsame).live]
    refine (and_iff_left_of_imp fun hlive => ?_).symm
    rintro rfl
    rw [Live, hinode, hlinks.1] at hlive
    cases hlive.2
  · by_cases hd : d = ino
    · subst hd
      have hused : (freed t d).used d = false := update_self _ _ _
      simp [Live, hused]
    · rw [and_iff_left hd]
      exact live_congr (update_of_ne hd _ _) (update_of_ne hd _ _)

/-- What a move over another name does to the tree. -/
private theorem moveEffect_over (h : Shape t) (hfound : FoundMove t oldPath newPath r)
    (htarget : Target t r target) :
    MoveEffect t (movedOver t r target.ino) r (· = target.ino) {(r.newParentIno, target.ino)} := by
  obtain ⟨hkinds, hedges, -⟩ := replaced_names h hfound htarget
  have hinode : (replaced t r).inodes target.ino = t.inodes target.ino :=
    replaced_inodes (h.target_ne_old hfound htarget)
  have hempty := replaced_empty h hfound htarget
  have hentries : ∀ d p, Parent t d p → Parent (eraseEntry (putEntry t r.newParentIno r.newName
      r.src.ino r.src.type) r.oldParentIno r.src.name) d p := fun d p hp =>
    parent_eraseEntry hfound.src.not_dot (parent_putEntry hfound.new_not_dot hp)
  have hleaf : ∀ x ∈ edges t, x.1 ≠ target.ino := fun x hx heq => by
    -- a directory that is replaced is empty, and nothing else has names in it
    obtain ⟨-, hlive, e, hmem, hdot, -⟩ := mem_edges.mp hx
    rw [heq] at hlive
    exact (htarget.empty hlive.2).ne hmem hdot heq
  refine ⟨?_, fun d => ?_, by simp, hleaf, Ne.symm htarget.ne, ?_, fun d p hd hp => ?_,
    fun hdir hp => ?_⟩
  · exact (congrArg (· + _) (edges_droppedLink hinode hempty)).trans hedges
  · exact (live_droppedLink hinode).trans (and_congr_left fun _ => hkinds.live d)
  · exact hleaf _ (h.target_mem hfound htarget.toAtNewName)
  · refine (parent_congr (congrFun (droppedLink_dirs _ _ _) d)).mpr ?_
    exact parent_movedOverParent hd (hentries d p hp)
  · refine (parent_congr (congrFun (droppedLink_dirs _ _ _) _)).mpr ?_
    exact parent_movedOverParent_src hdir (hentries _ _ hp)

/-! ### The tree after a move -/

section

variable (h : MoveEffect t t' r gone G)
include h

/-- A name that is not moved and does not go is kept. -/
theorem MoveEffect.kept {x : Nat × Nat} (hx : x ∈ Ext4.edges t) (hsrc : x.2 ≠ r.src.ino)
    (hgone : ¬gone x.2) : x ∈ Ext4.edges t' := by
  have hmem : x ∈ Ext4.edges t' + ({(r.oldParentIno, r.src.ino)} + G) :=
    h.edges ▸ mem_add.mpr (Or.inl hx)
  simp only [mem_add, mem_singleton] at hmem
  obtain hmem | rfl | hG := hmem
  · exact hmem
  · exact absurd rfl hsrc
  · exact absurd (h.goneNames x hG) hgone

/-- The moved inode hangs at its new place. -/
private theorem MoveEffect.hung (hsrc : (r.oldParentIno, r.src.ino) ∈ Ext4.edges t) :
    (r.newParentIno, r.src.ino) ∈ Ext4.edges t' := by
  have hG : (r.newParentIno, r.src.ino) ∉ G := fun hmem => h.src (h.goneNames _ hmem)
  have hcount := congrArg (count (r.newParentIno, r.src.ino)) h.edges
  simp only [count_add, count_singleton, count_eq_zero_of_notMem hG, if_true] at hcount
  have hpos := count_pos.mpr hsrc
  refine count_pos.mp ?_
  -- if the parent stays the same, the name that was taken away is the one that was added
  split at hcount
  · rename_i heq
    rw [← heq] at hpos
    omega
  · omega

private theorem MoveEffect.nameCount_le (d : Nat) : nameCount t' d ≤ nameCount t d := by
  have hcount := nameCount_retie h.edges d
  simp only [countP_add, countP_singleton_name] at hcount
  omega

/-- On the tree of directories a move hangs one of them elsewhere. -/
private theorem MoveEffect.rehung : Rehung (Sub t) (Sub t') r.src.ino gone where
  kept _ b hab hb hgone := ⟨h.kept hab.1 hb hgone, (h.live b).mpr ⟨hab.2, hgone⟩⟩
  leaf _ _ hgone hab := h.leaf _ hab.1 hgone

/-- The entries `..` are right after the move. -/
theorem MoveEffect.parents (htree : DirTree t) (hfound : FoundMove t oldPath newPath r) {a b : Nat}
    (hab : Sub t' a b) : Parent t' b a := by
  have hlive := ((h.live b).mp hab.2).1
  have hsrc := htree.shape.src_mem hfound
  by_cases hb : b = r.src.ino
  · subst hb
    have hdir : r.inode.isDir = true := hfound.src.inode ▸ hlive.2
    have honce := (h.nameCount_le r.src.ino).trans (htree.shape.dirOnce _ hlive)
    rw [sub_unique honce hab ⟨h.hung hsrc, hab.2⟩]
    exact h.parentSrc hdir (htree.parents _ _ ⟨hsrc, hlive⟩)
  · refine h.parent b a hb (htree.parents a b ⟨?_, hlive⟩)
    have hmem : (a, b) ∈ Ext4.edges t + {(r.newParentIno, r.src.ino)} :=
      h.edges ▸ mem_add.mpr (Or.inl hab.1)
    refine (mem_add.mp hmem).resolve_right fun hA => hb ?_
    exact congrArg Prod.snd (mem_singleton.mp hA)

/-- The tree stays rooted exactly if a directory does not move below itself. -/
private theorem MoveEffect.rooted_iff (htree : DirTree t) (hfound : FoundMove t oldPath newPath r) :
    Rooted t' ↔ ¬(r.inode.isDir = true ∧ ReflTransGen (Sub t) r.src.ino r.newParentIno) := by
  have hsrc := htree.shape.src_mem hfound
  have hdest := htree.shape.live_new hfound
  constructor
  · rintro hrooted ⟨hdir, hbelow⟩
    have hlive : Live t r.src.ino := ⟨htree.shape.namesUsed _ hsrc, hfound.src.inode ▸ hdir⟩
    have hhung : Sub t' r.newParentIno r.src.ino := ⟨h.hung hsrc, (h.live _).mpr ⟨hlive, h.src⟩⟩
    exact hrooted.noLoop _ (h.rehung.loop hhung h.dest hbelow)
  · intro hnot
    refine rooted_of_reach ?_ (fun d hd => ?_) (fun a b hab => h.parents htree hfound hab)
      fun d hd hin => ?_
    · exact Nat.le_zero.mp (htree.shape.rootUnnamed ▸ h.nameCount_le rootIno)
    · exact (h.nameCount_le d).trans (htree.shape.dirOnce d ((h.live d).mp hd).1)
    · obtain ⟨hlive, hgone⟩ := (h.live d).mp hd
      have hbefore : InTree t d := hin.imp_right fun hpos => hpos.trans_le (h.nameCount_le d)
      have hpath := htree.reach d hlive hbefore
      by_cases hdir : r.inode.isDir = true
      · -- the directory moves to a parent that is reached without it
        have hbelow : ¬ReflTransGen (Sub t) r.src.ino r.newParentIno := fun hb => hnot ⟨hdir, hb⟩
        have hsrcLive : Live t r.src.ino := ⟨htree.shape.namesUsed _ hsrc, hfound.src.inode ▸ hdir⟩
        obtain ⟨_, -, hparent⟩ := hfound.dest
        have hnew := htree.reach _ hdest (htree.shape.lookup_inTree hparent.lookup)
        exact h.rehung.reach ⟨h.hung hsrc, (h.live _).mpr ⟨hsrcLive, h.src⟩⟩ hnew
          h.dest hbelow hpath
          hgone
      · -- no directory is below anything else
        refine h.rehung.beside hpath hgone fun hbelow => hdir ?_
        rw [← hfound.src.inode]
        obtain heq | ⟨b, hb, -⟩ := ReflTransGen.cases_head hbelow
        · exact heq ▸ hlive.2
        · exact (mem_edges.mp hb.1).2.1.2

end

/-! ### Renames -/

/-- The old path names a directory, and the parent of the new path is that directory or below it. -/
def MovesIntoItself (t : NameFs) (oldPath newPath : List UInt8) : Prop :=
  ∃ oldParent newParent d n e name, splitParentPath oldPath = some (oldParent, e.name) ∧
    ext4LookupPath t oldParent = .ok d ∧ Entry t d e ∧ (t.inodes e.ino).isDir = true ∧
    splitParentPath newPath = some (newParent, name) ∧ ext4LookupPath t newParent = .ok n ∧
    ReflTransGen (Sub t) e.ino n

private theorem FoundMove.movesIntoItself (h : FoundMove t oldPath newPath r) :
    MovesIntoItself t oldPath newPath ↔
      r.inode.isDir = true ∧ ReflTransGen (Sub t) r.src.ino r.newParentIno := by
  obtain ⟨oldParent, hsplit, hold⟩ := h.src.parent
  obtain ⟨newParent, hsplit', hnew⟩ := h.dest
  constructor
  · rintro ⟨_, _, d, n, e, name, hs, hd, he, hdir, hs', hn, hbelow⟩
    rw [hsplit] at hs
    rw [hsplit'] at hs'
    simp only [Option.some.injEq, Prod.mk.injEq] at hs hs'
    obtain ⟨rfl, hname⟩ := hs
    obtain ⟨rfl, -⟩ := hs'
    rw [hold.lookup] at hd
    rw [hnew.lookup] at hn
    obtain rfl := Except.ok.inj hd
    obtain rfl := Except.ok.inj hn
    obtain rfl := h.src.entry.unique he hname
    exact ⟨h.src.inode ▸ hdir, hbelow⟩
  · rintro ⟨hdir, hbelow⟩
    exact ⟨oldParent, newParent, _, _, r.src, r.newName, hsplit, hold.lookup, h.src.entry,
      h.src.inode ▸ hdir, hsplit', hnew.lookup, hbelow⟩

/-- A directory is not below itself in a tree. -/
theorem DirTree.not_below (h : DirTree t) (hmem : (d, ino) ∈ edges t)
    (hdir : (t.inodes ino).isDir = true) :
    ¬ReflTransGen (Sub t) ino d := fun hbelow =>
  h.rooted.noLoop ino (TransGen.tail' hbelow ⟨hmem, h.shape.namesUsed _ hmem, hdir⟩)

/-- A successful rename keeps the directories a tree, unless it moves a directory into itself or
below itself. -/
theorem rename_rooted_iff {F : Faults} (h : DirTree t)
    (hrun : (ext4Rename F oldPath newPath).run t = (.ok (), t')) :
    Rooted t' ↔ ¬MovesIntoItself t oldPath newPath := by
  obtain ⟨hsplit, rfl⟩ | ⟨r, hfound, hrenamed⟩ := ext4Rename_ok hrun
  · refine iff_of_true h.rooted ?_
    rintro ⟨_, _, d, n, e, name, hs, hd, he, hdir, hs', hn, hbelow⟩
    -- the same parent twice
    rw [hsplit, hs'] at hs
    simp only [Option.some.injEq, Prod.mk.injEq] at hs
    obtain ⟨rfl, hname⟩ := hs
    rw [hd] at hn
    obtain rfl := Except.ok.inj hn
    have hlive : Live t' d := by
      obtain heq | ⟨b, -, hb⟩ := ReflTransGen.cases_tail hbelow
      · exact ⟨h.shape.inTree_used (h.shape.lookup_inTree hd), heq ▸ hdir⟩
      · exact hb.2
    have hdot := not_dot_of_valid (splitParentPath_valid hs')
    exact h.not_below (h.shape.mem_edges hlive he.mem (hname ▸ hdot)) hdir hbelow
  · rw [hfound.movesIntoItself]
    cases hrenamed with
    | same target hname hentry heq =>
      refine iff_of_true h.rooted fun hinto => ?_
      have hmem : (r.newParentIno, target.ino) ∈ edges t :=
        h.shape.mem_edges (h.shape.live_new hfound) hentry.mem (hname ▸ hfound.new_not_dot)
      exact h.not_below (heq ▸ hmem) (hfound.src.inode ▸ hinto.1) hinto.2
    | replacing target hname hentry hrange hne hkind hempty hlinks =>
      exact (moveEffect_over h.shape hfound
        ⟨⟨hname, hentry, hne⟩, hkind, hempty, hlinks⟩).rooted_iff h hfound
    | new habsent hlinks => exact (moveEffect_new h.shape hfound hlinks).rooted_iff h hfound

end

/-- A root with an empty directory `a` and a symbolic link `l` to it. -/
def linkedDir : NameFs where
  inodesCount := 16
  firstIno := 11
  inodes := fun i => if i = rootIno then ⟨0x41ed, 3, 0⟩ else if i = 11 then newInode true
    else if i = 12 then symlinkInode else NameInode.zero
  used := fun i => i ≤ 12
  dirs := fun i =>
    if i = rootIno then newDirEntries 2 2 ++ [⟨[0x61], 11, 2⟩, ⟨[0x6c], 12, 7⟩]
    else newDirEntries i 2
  targets := fun i => if i = 12 then [0x2f, 0x61] else []
  lastOrphan := 0

private theorem linkedDir_live (h : Live linkedDir d) : d = rootIno ∨ d = 11 := by
  have hdir := h.2
  simp only [linkedDir] at hdir
  split at hdir
  · exact Or.inl ‹_›
  split at hdir
  · exact Or.inr ‹_›
  split at hdir
  · exact absurd hdir (by decide)
  · exact absurd hdir (by decide)

private theorem linkedDir_edges : edges linkedDir = {(2, 11), (2, 12)} := by decide +kernel

private theorem linkedDir_tree : DirTree linkedDir := by
  have hle : ∀ i, linkedDir.used i = true → i ≤ 12 := fun i hi => by simpa [linkedDir] using hi
  have honce : ∀ d ≤ 12, nameCount linkedDir d ≤ 1 := by decide +kernel
  have hshape : Shape linkedDir := ⟨by decide, fun i hi => (hle i hi).trans (by decide),
    by decide +kernel, by decide +kernel, fun d hd => honce d (hle d hd.1)⟩
  have ha : Sub linkedDir rootIno 11 := ⟨by rw [linkedDir_edges]; decide, by decide⟩
  refine ⟨hshape, fun a b hab => ?_, fun d hd _ => ?_⟩
  · have hmem := hab.1
    rw [linkedDir_edges] at hmem
    obtain ⟨rfl, rfl⟩ | ⟨rfl, rfl⟩ : a = 2 ∧ b = 11 ∨ a = 2 ∧ b = 12 := by simpa using hmem
    · exact ⟨⟨[dot, dot], 2, 2⟩, rfl, rfl, rfl⟩
    · exact absurd hab.2 (by decide)
  · obtain rfl | rfl := linkedDir_live hd
    · exact ReflTransGen.refl
    · exact ReflTransGen.single ha

/-- The directory `a` gets another name. -/
theorem rename_rooted_iff_linkedDir :
    Rooted ((ext4Rename noFaults [0x2f, 0x61] [0x2f, 0x62]).run linkedDir).2 := by
  refine (rename_rooted_iff linkedDir_tree (Prod.ext (by decide +kernel) rfl)).mpr ?_
  rintro ⟨oldParent, newParent, d, n, e, name, hs, hd, he, hdir, hs', hn, hbelow⟩
  obtain ⟨rfl, hname⟩ := Prod.mk.inj (Option.some.inj hs)
  obtain ⟨rfl, -⟩ := Prod.mk.inj (Option.some.inj hs')
  obtain rfl := Except.ok.inj hd
  obtain rfl := Except.ok.inj hn
  have hmem := linkedDir_tree.shape.mem_edges linkedDir_tree.shape.root he.mem (hname ▸ by decide)
  exact linkedDir_tree.not_below hmem hdir hbelow

/-- Through the link the directory `a` goes into itself: the text of the new path does not start
with the old one. -/
theorem rename_through_link_detaches :
    DirTree linkedDir ∧ ∃ t',
      (ext4Rename noFaults [0x2f, 0x61] [0x2f, 0x6c, 0x2f, 0x62]).run linkedDir
      = (.ok (), t') ∧ ¬Rooted t' := by
  refine ⟨linkedDir_tree, _, Prod.ext (by decide +kernel) rfl, fun h => ?_⟩
  refine h.noLoop 11 (TransGen.single ⟨?_, ?_⟩)
  · decide +kernel
  · decide +kernel

end Rabbitbone.Spec.Ext4
