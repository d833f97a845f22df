import Rabbitbone.Spec.Ext4.NameTree

/-!
# Link counts

Each name is owed a link: the name of a directory by the directory that it is in, for the entry
`..`, and any other name by the inode that it stands for.  The balance of an inode is what its link
count has beyond the links that it owes; the counts are right when the balance of every inode of the
tree is zero.  Each edit of an operation moves the balance of one inode, and the operations are sums
of such moves.
-/

namespace Rabbitbone.Spec.Ext4

open Native.Ext4 Native.Path FallibleState Function Multiset SameKinds

variable {e : DirEntry} {inode dir : NameInode}

/-- The number of subdirectories of a directory. -/
def subdirs (t : NameFs) (d : Nat) : Nat :=
  (edges t).countP fun e => e.1 = d ∧ (t.inodes e.2).isDir = true

/-- The link counts are right: two and one for each subdirectory, or one for each name. -/
def LinkCounts (t : NameFs) : Prop :=
  ∀ i, InTree t i →
    (t.inodes i).links.toNat = if (t.inodes i).isDir then 2 + subdirs t i else nameCount t i

/-- A consistent tree. -/
structure Consistent (t : NameFs) : Prop where
  shape : Shape t
  links : LinkCounts t

/-! ### The balance -/

/-- The inode that owes a link for a name. -/
def owner (t : NameFs) (x : Nat × Nat) : Nat := if (t.inodes x.2).isDir then x.1 else x.2

/-- The links that are owed for no name: those for `.` and for the name of the directory. -/
def ownLinks (t : NameFs) (i : Nat) : Nat := if (t.inodes i).isDir then 2 else 0

/-- What the link count of an inode has beyond what it should be. -/
def balance (t : NameFs) (i : Nat) : ℤ :=
  (t.inodes i).links.toNat - ownLinks t i - ((edges t).countP fun x => owner t x = i)

/-- One at `j`, zero elsewhere. -/
def oneAt (j i : Nat) : ℤ := if i = j then 1 else 0

section

variable {t t' : NameFs} {d ino i : Nat}

private theorem owed_eq (t : NameFs) (i : Nat) :
    (if (t.inodes i).isDir then 2 + subdirs t i else nameCount t i)
      = ownLinks t i + (edges t).countP fun x => owner t x = i := by
  rw [ownLinks]
  split
  · rename_i hdir
    refine congrArg (2 + ·) (countP_congr rfl fun x hx => propext ?_)
    rw [owner]
    split
    · rename_i hchild
      simp [hchild]
    rename_i hchild
    have hne : x.2 ≠ i := fun heq => hchild (heq ▸ hdir)
    simp [hchild, hne]
  · rename_i hdir
    rw [Nat.zero_add]
    refine countP_congr rfl fun x hx => propext ?_
    rw [owner]
    split
    · rename_i hchild
      have hchild' : x.2 ≠ i := fun heq => hdir (heq ▸ hchild)
      have hdir' : x.1 ≠ i := fun heq => hdir (heq ▸ (mem_edges.mp hx).2.1.2)
      simp [hchild', hdir']
    · rfl

/-- The link counts are right if nothing is out of balance. -/
theorem linkCounts_iff : LinkCounts t ↔ ∀ i, InTree t i → balance t i = 0 := by
  refine forall_congr' fun i => imp_congr_right fun _ => ?_
  rw [owed_eq, balance]
  omega

/-- The names change and the inodes do not. -/
theorem balance_retie (hinodes : t'.inodes = t.inodes) {R A : Multiset (Nat × Nat)}
    (hedges : edges t' + R = edges t + A) (i : Nat) :
    balance t' i = balance t i + R.countP (fun x => owner t x = i)
      - A.countP (fun x => owner t x = i) := by
  have howner : owner t' = owner t := by
    funext x
    rw [owner, owner, hinodes]
  have hcount := congrArg (countP fun x => owner t x = i) hedges
  rw [countP_add, countP_add] at hcount
  rw [balance, balance, howner, hinodes, ownLinks, ownLinks, hinodes]
  omega

private theorem countP_singleton_owner (t : NameFs) (x : Nat × Nat) (i : Nat) :
    (({x} : Multiset (Nat × Nat)).countP (fun x => owner t x = i) : ℤ) = oneAt (owner t x) i := by
  rw [oneAt, ← cons_zero, countP_cons, countP_zero]
  by_cases h : i = owner t x
  · simp [h]
  · simp [h, Ne.symm h]

/-- A new name takes one off the balance of its owner. -/
theorem balance_addEntry (hlive : Live t d) (hd : d ≤ t.inodesCount)
    (hdot : nameIsDot e.name = false)
    (i : Nat) : balance (addEntry t d e) i = balance t i - oneAt (owner t (d, e.ino)) i := by
  have hedges : edges (addEntry t d e) + 0 = edges t + {(d, e.ino)} := by
    rw [add_zero, edges_addEntry hlive hd hdot]
  rw [balance_retie (by rfl) hedges, countP_singleton_owner]
  simp

/-- A name that is erased adds one to it. -/
theorem balance_eraseEntry (hlive : Live t d) (hd : d ≤ t.inodesCount) (hentry : Entry t d e)
    (hdot : nameIsDot e.name = false) (i : Nat) :
    balance (eraseEntry t d e.name) i = balance t i + oneAt (owner t (d, e.ino)) i := by
  have hedges : edges (eraseEntry t d e.name) + {(d, e.ino)} = edges t + 0 := by
    rw [add_zero, edges_eraseEntry hlive hd hentry hdot]
  rw [balance_retie (by rfl) hedges, countP_singleton_owner]
  simp

/-- A name that is put over another one does both. -/
theorem balance_putEntry {child : Nat} {type : UInt8} (hlive : Live t d) (hd : d ≤ t.inodesCount)
    (hentry : Entry t d e) (hdot : nameIsDot e.name = false) (i : Nat) :
    balance (putEntry t d e.name child type) i
      = balance t i + oneAt (owner t (d, e.ino)) i - oneAt (owner t (d, child)) i := by
  have hedges : edges (putEntry t d e.name child type) + {(d, e.ino)} = edges t + {(d, child)} :=
    edges_putEntry hlive hd hentry hdot
  rw [balance_retie (by rfl) hedges, countP_singleton_owner, countP_singleton_owner]

theorem balance_putDotdot (d parent i : Nat) : balance (putDotdot t d parent) i = balance t i := by
  have hedges : edges (putDotdot t d parent) + 0 = edges t + 0 := by rw [edges_putDotdot]
  rw [balance_retie (by rfl) hedges]
  simp

private theorem owner_setInode (h : inode.isDir = (t.inodes ino).isDir) :
    owner (t.setInode ino inode) = owner t := by
  funext x
  rw [owner, owner, (setInode h).kind]

/-- A link count is stored. -/
theorem balance_setInode (h : inode.isDir = (t.inodes ino).isDir) (i : Nat) :
    balance (t.setInode ino inode) i
      = balance t i + ((inode.links.toNat : ℤ) - (t.inodes ino).links.toNat) * oneAt ino i := by
  rw [balance, balance, owner_setInode h, edges_setInode h, ownLinks, ownLinks,
    (setInode h).kind, oneAt]
  by_cases hi : i = ino
  · subst hi
    simp [NameFs.setInode]
    omega
  · simp [NameFs.setInode, hi]

/-- An inode that nothing names may change, for the others. -/
theorem balance_apart (hedges : edges t' = edges t) (hunnamed : nameCount t ino = 0)
    (hinodes : ∀ j, j ≠ ino → t'.inodes j = t.inodes j) (hi : i ≠ ino) :
    balance t' i = balance t i := by
  have hcount : (edges t').countP (fun x => owner t' x = i) = (edges t).countP fun x =>
      owner t x = i := by
    rw [hedges]
    refine countP_congr rfl fun x hx => ?_
    rw [owner, owner, hinodes _ (nameCount_eq_zero.mp hunnamed x hx)]
  rw [balance, balance, hcount, ownLinks, ownLinks, hinodes i hi]

/-- A new inode owes nothing yet. -/
theorem balance_new (hedges : edges t' = edges t) (hapart : Apart t ino) :
    balance t' ino = (t'.inodes ino).links.toNat - ownLinks t' ino := by
  have hcount : (edges t').countP (fun x => owner t' x = ino) = 0 := by
    refine countP_eq_zero.mpr fun x hx => ?_
    rw [hedges] at hx
    rw [owner]
    split
    · exact hapart.not_from hx
    · exact nameCount_eq_zero.mp hapart.unnamed x hx
  rw [balance, hcount]
  simp

theorem links_succ (h : inode.links ≠ 0xffff) :
    ((inode.links + 1).toNat : ℤ) - inode.links.toNat = 1 := by
  have hne : inode.links.toNat ≠ 65535 := fun heq => h (UInt16.toNat_inj.mp heq)
  have hlt := inode.links.toNat_lt
  have hadd : (inode.links + 1).toNat = inode.links.toNat + 1 := by
    exact Nat.mod_eq_of_lt (show inode.links.toNat + 1 < 65536 by omega)
  omega

theorem links_pred (h : inode.links ≠ 0) :
    ((inode.links - 1).toNat : ℤ) - inode.links.toNat = -1 := by
  have hne : inode.links.toNat ≠ 0 := fun heq => h (UInt16.toNat_inj.mp heq)
  have hle : (1 : UInt16) ≤ inode.links := by
    exact Nat.one_le_iff_ne_zero.mpr hne
  have hsub : (inode.links - 1).toNat = inode.links.toNat - 1 := UInt16.toNat_sub_of_le _ _ hle
  omega

end

/-! ### What was found -/

section

variable {t t' : NameFs} {path : List UInt8} {d : Nat} {place : Place}

/-- A path leads to a live directory. -/
theorem Shape.live_of_found (h : Shape t) (hfound : FoundDir t path d dir) : Live t d :=
  ⟨h.inTree_used (h.lookup_inTree hfound.lookup), by rw [hfound.inode]; exact hfound.isDir⟩

private theorem Shape.live_place (h : Shape t) (hplace : FoundPlace t path place) :
    Live t place.parentIno := by
  obtain ⟨_, -, hfound⟩ := hplace.parent
  exact h.live_of_found hfound

theorem FoundPlace.not_dot (h : FoundPlace t path place) : nameIsDot place.name = false := by
  obtain ⟨_, hsplit, -⟩ := h.parent
  exact not_dot_of_valid (splitParentPath_valid hsplit)

theorem FoundEntry.not_dot (h : FoundEntry t path d dir e inode) : nameIsDot e.name = false := by
  obtain ⟨_, hsplit, -⟩ := h.parent
  exact not_dot_of_valid (splitParentPath_valid hsplit)

theorem Shape.lookupsUsed (h : Shape t) : LookupsUsed t := fun _ _ hlookup =>
  h.inTree_used (h.lookup_inTree hlookup)

/-! ### Creating and linking -/

variable {place : Place} {ino : Nat}

/-- Only the new inode comes into the tree. -/
theorem inTree_of_created {t₁ : NameFs} {i : Nat} (hedges₁ : edges t₁ = edges t)
    (hedges : edges t' = edges t₁ + {(d, ino)}) (hi : InTree t' i) (hino : i ≠ ino) :
    InTree t i := by
  rw [← inTree_congr hedges₁]
  refine (inTree_retie (by rw [add_zero, hedges]) hi).resolve_right ?_
  rintro ⟨x, hx, rfl⟩
  rw [mem_singleton.mp hx] at hino
  exact hino rfl

/-- A new file keeps the tree consistent. -/
theorem consistent_createdFile (h : Consistent t) (hnew : FoundNew t path place ino)
    (hkind : inode.isDir = false) (hlinks : inode.links = 1) (type : UInt8) :
    Consistent (createdFile t place ino inode type) := by
  have hne : place.parentIno ≠ ino := hnew.ne h.shape.lookupsUsed
  have hapart := h.shape.apart_of_free hnew.free
  set t₁ := (t.setUsed ino true).setInode ino inode
  have hshape : Shape t₁ := h.shape.newFile hnew.free hkind
  have hedges₁ : edges t₁ = edges t := h.shape.edges_newFile hnew.free hkind
  have hinode : t₁.inodes ino = inode := update_self _ _ _
  have hinodes : ∀ j, j ≠ ino → t₁.inodes j = t.inodes j := fun j hj => update_of_ne hj _ _
  have hused : ∀ j, j ≠ ino → t₁.used j = t.used j := fun j hj => update_of_ne hj _ _
  have hlive : Live t₁ place.parentIno :=
    (live_congr (hused _ hne) (hinodes _ hne)).mpr (h.shape.live_place hnew.place)
  have hle := hshape.usedLe _ hlive.1
  let e : DirEntry := ⟨place.name, ino, type⟩
  have hdot : nameIsDot e.name = false := hnew.place.not_dot
  have hedges := edges_addEntry hlive hle hdot
  refine ⟨hshape.tie (setDir _ _ _) hedges
    (update_self _ _ _) (h.shape.ne_root_of_free hnew.free) fun _ => ?_, ?_⟩
  · rw [nameCount, hedges₁]
    exact hapart.unnamed
  · refine linkCounts_iff.mpr fun i hi => (balance_addEntry hlive hle hdot i).trans ?_
    have howner : owner t₁ (place.parentIno, ino) = ino := by simp [owner, hinode, hkind]
    rw [howner, oneAt]
    by_cases hino : i = ino
    · subst hino
      rw [balance_new hedges₁ hapart, ownLinks, hinode, hkind, hlinks, if_pos rfl]
      rfl
    · rw [balance_apart hedges₁ hapart.unnamed hinodes hino, if_neg hino,
        linkCounts_iff.mp h.links i (inTree_of_created hedges₁ hedges hi hino), sub_zero]

/-- A new directory keeps the tree consistent. -/
theorem consistent_createdDir (h : Consistent t) (hnew : FoundNew t path place ino)
    (hlinks : place.parent.links ≠ 0xffff) : Consistent (createdDir t place ino) := by
  have hne : place.parentIno ≠ ino := hnew.ne h.shape.lookupsUsed
  have hapart := h.shape.apart_of_free hnew.free
  have hempty : ∀ e ∈ newDirEntries ino place.parentIno, nameIsDot e.name = true := by
    simp [newDirEntries, nameIsDot]
  set t₁ := ((t.setUsed ino true).setDir ino (newDirEntries ino place.parentIno)).setInode ino
    (newInode true)
  have hshape : Shape t₁ := h.shape.newDir hnew.free hempty
  have hedges₁ : edges t₁ = edges t := h.shape.edges_newDir hnew.free hempty
  have hinode : t₁.inodes ino = newInode true := update_self _ _ _
  have hinodes : ∀ j, j ≠ ino → t₁.inodes j = t.inodes j := fun j hj => update_of_ne hj _ _
  have hused : ∀ j, j ≠ ino → t₁.used j = t.used j := fun j hj => update_of_ne hj _ _
  have hlive : Live t₁ place.parentIno :=
    (live_congr (hused _ hne) (hinodes _ hne)).mpr (h.shape.live_place hnew.place)
  have hle := hshape.usedLe _ hlive.1
  let e : DirEntry := ⟨place.name, ino, 2⟩
  have hdot : nameIsDot e.name = false := hnew.place.not_dot
  let t₂ := addEntry t₁ place.parentIno e
  let parent : NameInode := { place.parent with links := place.parent.links + 1 }
  have hparent : t₂.inodes place.parentIno = place.parent := (hinodes _ hne).trans hnew.place.inode
  have hkind : parent.isDir = (t₂.inodes place.parentIno).isDir := by rw [hparent]; rfl
  have hedges : edges (t₂.setInode place.parentIno parent) = edges t₁ + {(place.parentIno, ino)} :=
    (edges_setInode hkind).trans (edges_addEntry hlive hle hdot)
  refine ⟨hshape.tie ((setDir _ _ _).trans (setInode hkind)) hedges
    (update_self _ _ _) (h.shape.ne_root_of_free hnew.free) fun _ => ?_, ?_⟩
  · rw [nameCount, hedges₁]
    exact hapart.unnamed
  · refine linkCounts_iff.mpr fun i hi => (balance_setInode hkind i).trans ?_
    have howner : owner t₁ (place.parentIno, ino) = place.parentIno := by
      rw [owner, hinode]
      rfl
    have hlinks' : (parent.links.toNat : ℤ) - place.parent.links.toNat = 1 := links_succ hlinks
    rw [balance_addEntry hlive hle hdot, howner, hparent, hlinks', one_mul, sub_add_cancel]
    by_cases hino : i = ino
    · subst hino
      rw [balance_new hedges₁ hapart, ownLinks, hinode]
      rfl
    · rw [balance_apart hedges₁ hapart.unnamed hinodes hino]
      exact linkCounts_iff.mp h.links i (inTree_of_created hedges₁ hedges hi hino)

/-- A new link keeps the tree consistent. -/
theorem consistent_linked (h : Consistent t) (hplace : FoundPlace t path place)
    (hino : InTree t ino) (hkind : (t.inodes ino).isDir = false)
    (hlinks : (t.inodes ino).links ≠ 0xffff) (type : UInt8) :
    Consistent (linked t place ino type) := by
  have hlive := h.shape.live_place hplace
  have hle := h.shape.usedLe _ hlive.1
  have hroot : ino ≠ rootIno := by
    rintro rfl
    exact absurd h.shape.root.2 (Bool.eq_false_iff.mp hkind)
  let e : DirEntry := ⟨place.name, ino, type⟩
  have hdot : nameIsDot e.name = false := hplace.not_dot
  let inode : NameInode := { t.inodes ino with links := (t.inodes ino).links + 1 }
  have hsame : inode.isDir = ((addEntry t place.parentIno e).inodes ino).isDir := rfl
  have hedges := (edges_setInode hsame).trans (edges_addEntry hlive hle hdot)
  refine ⟨h.shape.tie ((setDir _ _ _).trans (setInode hsame)) hedges
    (h.shape.inTree_used hino) hroot fun hdir => ?_, ?_⟩
  · exact absurd hdir.2 (Bool.eq_false_iff.mp hkind)
  · refine linkCounts_iff.mpr fun i hi => (balance_setInode hsame i).trans ?_
    have howner : owner t (place.parentIno, ino) = ino := by simp [owner, hkind]
    have hlinks' : (inode.links.toNat : ℤ) - (t.inodes ino).links.toNat = 1 := links_succ hlinks
    rw [balance_addEntry hlive hle hdot, howner]
    change _ + (_ - ((t.inodes ino).links.toNat : ℤ)) * _ = 0
    rw [hlinks', one_mul, sub_add_cancel]
    refine linkCounts_iff.mp h.links i ?_
    by_cases heq : i = ino
    · exact heq ▸ hino
    · exact inTree_of_created rfl hedges hi heq

/-! ### Removing -/

/-- What an inode that has lost a name is beyond its names: a directory is out of the tree, and any
other inode has one link too many. -/
structure Detached (t : NameFs) (ino : Nat) : Prop where
  used : t.used ino = true
  ne_root : ino ≠ rootIno
  apart : (t.inodes ino).isDir = true → Apart t ino
  extra : (t.inodes ino).isDir = false → balance t ino = 1

/-- A detached file counts one link more than it has names. -/
theorem Detached.links (h : Detached t ino) (hkind : (t.inodes ino).isDir = false) :
    (t.inodes ino).links.toNat = nameCount t ino + 1 := by
  have hbalance := h.extra hkind
  have howed := owed_eq t ino
  rw [hkind] at howed
  rw [balance] at hbalance
  simp only [Bool.false_eq_true, if_false] at howed
  omega

/-- If the link is the last one, nothing names the inode any more. -/
theorem Detached.apart_of_last (h : Detached t ino)
    (hlast : ¬((t.inodes ino).isDir = false ∧ 1 < (t.inodes ino).links)) : Apart t ino := by
  cases hkind : (t.inodes ino).isDir with
  | true => exact h.apart hkind
  | false =>
    refine ⟨?_, if_neg fun hlive => absurd hlive.2 (Bool.eq_false_iff.mp hkind)⟩
    have hlinks := h.links hkind
    have hle : ¬ 1 < (t.inodes ino).links.toNat := fun hlt =>
      hlast ⟨hkind, UInt16.lt_iff_toNat_lt.mpr hlt⟩
    omega

/-- Dropping the link of a detached inode changes no name. -/
theorem Detached.edges_drop (h : Detached t ino) :
    edges (droppedLink t ino (t.inodes ino)) = edges t := by
  rw [droppedLink]
  split
  · exact edges_setInode rfl
  · rename_i hlast
    exact edges_freed (h.apart_of_last hlast).empty

/-- Dropping the link puts the count right. -/
theorem Detached.drop (h : Detached t ino) (hshape : Shape t) :
    Shape (droppedLink t ino (t.inodes ino)) ∧
      ∀ i, InTree (droppedLink t ino (t.inodes ino)) i → InTree t i ∧
        balance (droppedLink t ino (t.inodes ino)) i
          = balance t i - if (t.inodes ino).isDir then 0 else oneAt ino i := by
  rw [droppedLink]
  split
  · rename_i hlinks
    let inode : NameInode := { t.inodes ino with links := (t.inodes ino).links - 1 }
    have hsame : inode.isDir = (t.inodes ino).isDir := rfl
    refine ⟨hshape.retie (R := 0) (setInode hsame) (by rw [edges_setInode hsame])
      (by simp) (by simp) (by simpa using hshape.dirOnce),
      fun i hi => ⟨(inTree_congr (edges_setInode hsame)).mp hi, ?_⟩⟩
    have hpos : (t.inodes ino).links ≠ 0 := fun h0 => by
      rw [h0] at hlinks
      exact absurd hlinks.2 (by decide)
    have hpred : (inode.links.toNat : ℤ) - (t.inodes ino).links.toNat = -1 := links_pred hpos
    rw [balance_setInode hsame, hpred, hlinks.1, if_neg Bool.false_ne_true]
    omega
  · rename_i hlast
    have hapart := h.apart_of_last hlast
    refine ⟨hshape.freed hapart h.ne_root (hshape.usedLe _ h.used), fun i hi => ?_⟩
    have hedges := edges_freed hapart.empty
    rw [inTree_congr hedges] at hi
    have hne : i ≠ ino := by
      rintro rfl
      exact hi.elim h.ne_root fun hpos => absurd hapart.unnamed hpos.ne'
    refine ⟨hi, ?_⟩
    rw [balance_apart hedges hapart.unnamed (fun j hj => update_of_ne hj _ _) hne,
      oneAt, if_neg hne, ite_self, sub_zero]

/-- An empty directory has no names in it, so it is none of those that have. -/
theorem EmptyDir.ne (h : EmptyDir t ino) (hmem : e ∈ t.dirs d)
    (hdot : nameIsDot e.name = false) : d ≠ ino := by
  rintro rfl
  rw [h e hmem] at hdot
  exact nomatch hdot

/-- What a directory that lost its name is: out of the tree. -/
theorem EmptyDir.apart (h : EmptyDir t ino) (hdirs : t'.dirs ino = t.dirs ino)
    (hunnamed : nameCount t' ino = 0) : Apart t' ino := by
  refine ⟨hunnamed, ?_⟩
  rw [namesIn, hdirs, namesOf_of_empty h, ite_self]

@[simp] theorem parentDropped_dirs (t : NameFs) (d : Nat) (dir : NameInode) (isDir : Bool) :
    (parentDropped t d dir isDir).dirs = t.dirs := by
  rw [parentDropped]
  split <;> rfl

private theorem parentDropped_inodes {isDir : Bool} (h : isDir = true → d ≠ ino) :
    (parentDropped t d dir isDir).inodes ino = t.inodes ino := by
  rw [parentDropped]
  split
  · rename_i hdir
    exact update_of_ne (h hdir).symm _ _
  · rfl

/-- The names without the one that was found, and the link count of a parent that has lost a
directory. -/
theorem unlinked_names (h : Shape t) (hfound : FoundEntry t path d dir e inode)
    (hlinks : inode.isDir = true → dir.links ≠ 0) :
    let t₂ := parentDropped (eraseEntry t d e.name) d dir inode.isDir
    SameKinds t t₂ ∧ edges t₂ + {(d, e.ino)} = edges t ∧
      ∀ i, balance t₂ i = balance t i + if inode.isDir then 0 else oneAt e.ino i := by
  intro t₂
  obtain ⟨_, -, hparent⟩ := hfound.parent
  have hlive := h.live_of_found hparent
  have hle := h.usedLe d hlive.1
  have hedges : edges (eraseEntry t d e.name) + {(d, e.ino)} = edges t :=
    edges_eraseEntry hlive hle hfound.entry hfound.not_dot
  have hbalance := balance_eraseEntry hlive hle hfound.entry hfound.not_dot
  simp only [t₂, parentDropped]
  split
  · rename_i hdir
    let dir' : NameInode := { dir with links := dir.links - 1 }
    have hinode : (eraseEntry t d e.name).inodes d = dir := hparent.inode
    have hsame : dir'.isDir = ((eraseEntry t d e.name).inodes d).isDir := by rw [hinode]; rfl
    have hpred : (dir'.links.toNat : ℤ) - dir.links.toNat = -1 := links_pred (hlinks hdir)
    have howner : owner t (d, e.ino) = d := by rw [owner, hfound.inode, if_pos hdir]
    refine ⟨(setDir _ _ _).trans (setInode hsame),
      by rw [edges_setInode hsame, hedges], fun i => ?_⟩
    rw [balance_setInode hsame, hinode, hpred, hbalance, howner]
    omega
  · rename_i hdir
    have howner : owner t (d, e.ino) = e.ino := by rw [owner, hfound.inode, if_neg hdir]
    exact ⟨setDir _ _ _, hedges, fun i => by rw [hbalance, howner]⟩

/-- Unlinking keeps the tree consistent. -/
theorem consistent_unlinked (h : Consistent t) (hfound : FoundEntry t path d dir e inode)
    (hdirs : inode.isDir = true → EmptyDir t e.ino ∧ dir.links ≠ 0) :
    Consistent (droppedLink (parentDropped (eraseEntry t d e.name) d dir inode.isDir)
      e.ino inode) := by
  obtain ⟨_, -, hparent⟩ := hfound.parent
  have hmem : (d, e.ino) ∈ edges t :=
    h.shape.mem_edges (h.shape.live_of_found hparent) hfound.entry.mem hfound.not_dot
  have hused := h.shape.namesUsed _ hmem
  have hne : inode.isDir = true → d ≠ e.ino := fun hdir =>
    (hdirs hdir).1.ne hfound.entry.mem hfound.not_dot
  obtain ⟨hkinds, hedges, hbalance⟩ := unlinked_names h.shape hfound fun hdir => (hdirs hdir).2
  set t₂ := parentDropped (eraseEntry t d e.name) d dir inode.isDir with ht₂
  have hinode : t₂.inodes e.ino = inode := (parentDropped_inodes hne).trans hfound.inode
  have hcount := nameCount_retie (hedges.trans (add_zero _).symm)
  have hshape : Shape t₂ := by
    refine h.shape.retie hkinds (hedges.trans (add_zero _).symm) (by simp) (by simp)
      fun d' hd' => ?_
    exact (h.shape.dirOnce d' hd').trans (Nat.le_add_left _ _)
  have hdet : Detached t₂ e.ino := by
    refine ⟨hkinds.used ▸ hused, h.shape.ne_root hmem, fun hdir => ?_, fun hfile => ?_⟩
    · have honce := h.shape.dirOnce e.ino ⟨hused, hkinds.kind _ ▸ hdir⟩
      have hcount := hcount e.ino
      rw [countP_singleton_name, if_pos rfl, countP_zero] at hcount
      rw [hinode] at hdir
      refine (hdirs hdir).1.apart ?_ (by omega)
      rw [ht₂, parentDropped_dirs]
      exact update_of_ne (hne hdir).symm _ _
    · rw [hinode] at hfile
      rw [hbalance, linkCounts_iff.mp h.links _ (inTree_of_mem hmem), hfile]
      simp [oneAt]
  obtain ⟨hshape', hbalance'⟩ := hdet.drop hshape
  rw [hinode] at hshape' hbalance'
  refine ⟨hshape', linkCounts_iff.mpr fun i hi => ?_⟩
  obtain ⟨hi, hdrop⟩ := hbalance' i hi
  have hbefore : InTree t i :=
    (inTree_retie (hedges.trans (add_zero _).symm) hi).resolve_right (by simp)
  rw [hdrop, hbalance, linkCounts_iff.mp h.links _ hbefore]
  omega

end

end Rabbitbone.Spec.Ext4
