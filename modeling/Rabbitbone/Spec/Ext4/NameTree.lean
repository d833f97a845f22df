import Rabbitbone.ForStd.Finset
import Rabbitbone.Spec.Ext4.NameLookup

/-!
# The names of a volume as a graph

The names of a volume are pairs: the directory that a name is in, and the inode that it stands for.
The entries `.` and `..` are not names.  This file says what the edits do to the names, and which
changes leave them in shape: every name stands for an inode in use, and no directory has two names.

## Key results

- `edges_addEntry`, `edges_eraseEntry`, `edges_putEntry`: the names after an edit.
- `Shape.retie`, `Shape.freed`, `Shape.newFile`, `Shape.newDir`: changes that keep the names in
  shape.
- `Shape.lookup_inTree`: what is looked up is in the tree.
-/

namespace Rabbitbone.Spec.Ext4

open Native.Ext4 Native.Path FallibleState Function Multiset

/-- A directory that is in use. -/
def Live (t : NameFs) (d : Nat) : Prop := t.used d = true ∧ (t.inodes d).isDir = true

instance (t : NameFs) (d : Nat) : Decidable (Live t d) := inferInstanceAs (Decidable (_ ∧ _))

/-- The names in a list of entries of the directory `d`. -/
def namesOf (d : Nat) (l : List DirEntry) : Multiset (Nat × Nat) :=
  ((l.filter fun e => !nameIsDot e.name).map fun e => (d, e.ino) : List (Nat × Nat))

/-- The names in a directory. -/
def namesIn (t : NameFs) (d : Nat) : Multiset (Nat × Nat) :=
  if Live t d then namesOf d (t.dirs d) else 0

/-- The names of a volume: the directory they are in and the inode they stand for. -/
def edges (t : NameFs) : Multiset (Nat × Nat) :=
  ∑ d ∈ Finset.range (t.inodesCount + 1), namesIn t d

/-- The number of names of an inode. -/
def nameCount (t : NameFs) (i : Nat) : Nat := (edges t).countP fun e => e.2 = i

/-- The inodes of the tree: the root and what has a name.  There are others in use, like the
journal. -/
def InTree (t : NameFs) (i : Nat) : Prop := i = rootIno ∨ 0 < nameCount t i

instance (t : NameFs) (i : Nat) : Decidable (InTree t i) := inferInstanceAs (Decidable (_ ∨ _))

/-- The names are in shape. -/
structure Shape (t : NameFs) : Prop where
  root : Live t rootIno
  usedLe : ∀ i, t.used i = true → i ≤ t.inodesCount
  namesUsed : ∀ e ∈ edges t, t.used e.2 = true
  rootUnnamed : nameCount t rootIno = 0
  dirOnce : ∀ d, Live t d → nameCount t d ≤ 1

/-! ### Names in a list of entries -/

variable {x : Nat × Nat} {name : List UInt8} {d' i : Nat} {inode : NameInode}
  {R A : Multiset (Nat × Nat)}

section

variable {d child : Nat} {l : List DirEntry} {e : DirEntry} {type : UInt8}

private theorem mem_namesOf :
    x ∈ namesOf d l ↔ ∃ e ∈ l, nameIsDot e.name = false ∧ (d, e.ino) = x := by
  simp [namesOf, and_assoc]

private theorem namesOf_append (d : Nat) (l l' : List DirEntry) :
    namesOf d (l ++ l') = namesOf d l + namesOf d l' := by
  simp [namesOf]

private theorem namesOf_singleton (h : nameIsDot e.name = false) :
    namesOf d [e] = {(d, e.ino)} := by
  simp [namesOf, h]

private theorem namesOf_cons (d : Nat) (e : DirEntry) (l : List DirEntry) :
    namesOf d (e :: l) = namesOf d [e] + namesOf d l :=
  namesOf_append d [e] l

private theorem namesOf_eraseName (h : l.find? (fun e' => e'.name = e.name) = some e)
    (hdot : nameIsDot e.name = false) :
    namesOf d (eraseName l e.name) + {(d, e.ino)} = namesOf d l := by
  induction l with
  | nil => exact nomatch h
  | cons a l ih =>
    by_cases ha : a.name = e.name
    · obtain rfl : a = e := by simpa [ha] using h
      rw [eraseName, List.eraseP_cons_of_pos (by simp), namesOf_cons, namesOf_singleton hdot,
        add_comm]
    have hrest : l.find? (fun e' => e'.name = e.name) = some e := by simpa [ha] using h
    rw [eraseName, List.eraseP_cons_of_neg (by simpa using ha), namesOf_cons, add_assoc,
      namesOf_cons d a l]
    exact congrArg _ (ih hrest)

private theorem namesOf_replaceName (h : l.find? (fun e' => e'.name = e.name) = some e)
    (hdot : nameIsDot e.name = false) :
    namesOf d (replaceName e.name child type l) + {(d, e.ino)} = namesOf d l + {(d, child)} := by
  induction l with
  | nil => exact nomatch h
  | cons a l ih =>
    by_cases ha : a.name = e.name
    · obtain rfl : a = e := by simpa [ha] using h
      have hput : namesOf d [{ a with ino := child, type := type }] = {(d, child)} :=
        namesOf_singleton hdot
      rw [replaceName, if_pos rfl, namesOf_cons, namesOf_cons d a l, namesOf_singleton hdot, hput]
      ac_rfl
    · have hrest : l.find? (fun e' => e'.name = e.name) = some e := by simpa [ha] using h
      rw [replaceName, if_neg ha, namesOf_cons, namesOf_cons d a l, add_assoc, add_assoc, ih hrest]

private theorem namesOf_replaceDotdot (d parent : Nat) (l : List DirEntry) :
    namesOf d (replaceDotdot parent l) = namesOf d l := by
  induction l with
  | nil => rfl
  | cons a l ih =>
    by_cases ha : a.name = [dot, dot]
    · rw [replaceDotdot, if_pos ha, namesOf_cons, namesOf_cons d a l]
      simp [namesOf, ha, nameIsDot]
    · rw [replaceDotdot, if_neg ha, namesOf_cons, namesOf_cons d a l, ih]

/-- An empty directory has no names. -/
theorem namesOf_of_empty (h : ∀ e ∈ l, nameIsDot e.name = true) : namesOf d l = 0 := by
  refine eq_zero_of_forall_notMem fun x hx => ?_
  obtain ⟨e, hmem, hdot, -⟩ := mem_namesOf.mp hx
  rw [h e hmem] at hdot
  exact nomatch hdot

/-- A search for another name does not see what `f` does to the first entry with the name. -/
theorem find?_of_change {f : List DirEntry → List DirEntry}
    {g : DirEntry → List DirEntry → List DirEntry}
    (hf : ∀ a l, f (a :: l) = if a.name = name then g a l else a :: f l)
    (hg : ∀ a l, a.name ≠ e.name →
      (g a l).find? (fun e' => e'.name = e.name) = l.find? fun e' => e'.name = e.name)
    (hne : name ≠ e.name) (h : l.find? (fun e' => e'.name = e.name) = some e) :
    (f l).find? (fun e' => e'.name = e.name) = some e := by
  induction l with
  | nil => exact nomatch h
  | cons a l ih =>
    rw [hf]
    by_cases ha : a.name = name
    · have hae : a.name ≠ e.name := ha ▸ hne
      rw [if_pos ha, hg a l hae]
      rwa [List.find?_cons_of_neg (by simpa using hae)] at h
    rw [if_neg ha]
    by_cases hae : a.name = e.name
    · rw [List.find?_cons_of_pos (by simpa using hae)] at h ⊢
      exact h
    · rw [List.find?_cons_of_neg (by simpa using hae)] at h ⊢
      exact ih h

private theorem find?_replaceName (h : name ≠ e.name) (type : UInt8)
    (hfind : l.find? (fun e' => e'.name = e.name) = some e) :
    (replaceName name child type l).find? (fun e' => e'.name = e.name) = some e :=
  find?_of_change (fun _ _ => rfl)
    (fun _ _ hae => List.find?_cons_of_neg (by simpa using hae)) h hfind

private theorem find?_eraseName (hne : name ≠ e.name)
    (h : l.find? (fun e' => e'.name = e.name) = some e) :
    (eraseName l name).find? (fun e' => e'.name = e.name) = some e :=
  find?_of_change (f := fun l => eraseName l name) (g := fun _ l => l)
    (fun a l => by simp [eraseName, List.eraseP_cons]) (fun _ _ _ => rfl) hne h

private theorem find?_replaceName_self (type : UInt8)
    (hfind : l.find? (fun e' => e'.name = e.name) = some e) :
    (replaceName e.name child type l).find? (fun e' => e'.name = e.name)
      = some { e with ino := child, type := type } := by
  induction l with
  | nil => exact nomatch hfind
  | cons a l ih =>
    rw [replaceName]
    by_cases ha : a.name = e.name
    · rw [List.find?_cons_of_pos (by simpa using ha)] at hfind
      obtain rfl := Option.some.inj hfind
      rw [if_pos rfl, List.find?_cons_of_pos (by simp)]
    rw [List.find?_cons_of_neg (by simpa using ha)] at hfind
    rw [if_neg ha, List.find?_cons_of_neg (by simpa using ha)]
    exact ih hfind

private theorem find?_replaceDotdot_of_ne {parent : Nat} (hne : e.name ≠ [dot, dot])
    (hfind : l.find? (fun e' => e'.name = e.name) = some e) :
    (replaceDotdot parent l).find? (fun e' => e'.name = e.name) = some e :=
  find?_of_change (fun _ _ => rfl) (fun _ _ hae => List.find?_cons_of_neg (by simpa using hae))
    hne.symm hfind

end

/-! ### Names of a volume -/

section

variable {t t' : NameFs} {d ino child : Nat} {e : DirEntry} {type : UInt8}

/-- A new entry hides no other: it comes last. -/
theorem entry_addEntry {e' : DirEntry} (h : Entry t d e) : Entry (addEntry t d' e') d e := by
  by_cases hd : d = d'
  · subst hd
    rw [Entry, addEntry, NameFs.setDir]
    dsimp only
    rw [update_self, List.find?_append, h]
    rfl
  · rw [Entry, addEntry, NameFs.setDir]
    dsimp only
    rw [update_of_ne hd]
    exact h

/-- Putting a name leaves the other names. -/
theorem entry_putEntry (h : Entry t d e)
    (hne : d = d' → name ≠ e.name) : Entry (putEntry t d' name child type) d e := by
  rw [Entry, putEntry, NameFs.setDir]
  dsimp only
  by_cases hd : d = d'
  · rw [hd, update_self]
    exact find?_replaceName (hne hd) type (hd ▸ h)
  · rw [update_of_ne hd]
    exact h

/-- Erasing a name leaves the other names. -/
theorem entry_eraseEntry (h : Entry t d e) (hne : d = d' → name ≠ e.name) :
    Entry (eraseEntry t d' name) d e := by
  rw [Entry, eraseEntry, NameFs.setDir]
  dsimp only
  by_cases hd : d = d'
  · rw [hd, update_self]
    exact find?_eraseName (hne hd) (hd ▸ h)
  · rw [update_of_ne hd]
    exact h

theorem entry_putEntry_self (h : Entry t d e) :
    Entry (putEntry t d e.name child type) d { e with ino := child, type := type } := by
  rw [Entry, putEntry, NameFs.setDir]
  dsimp only
  rw [update_self]
  exact find?_replaceName_self type h

theorem entry_putDotdot {parent : Nat} (h : Entry t d e)
    (hne : e.name ≠ [dot, dot]) : Entry (putDotdot t d' parent) d e := by
  rw [Entry, putDotdot, NameFs.setDir]
  dsimp only
  by_cases hd : d = d'
  · rw [← hd, update_self]
    exact find?_replaceDotdot_of_ne hne h
  · rw [update_of_ne hd]
    exact h

theorem not_dot_ne (h : nameIsDot name = false) : name ≠ [dot, dot] := by
  rintro rfl
  exact absurd h (by decide)

/-- The names of the tree are the entries of live directories, the dots apart. -/
theorem mem_edges : x ∈ edges t ↔ x.1 ≤ t.inodesCount ∧ Live t x.1 ∧
      ∃ e ∈ t.dirs x.1, nameIsDot e.name = false ∧ e.ino = x.2 := by
  rw [edges, mem_sum]
  constructor
  · rintro ⟨d, hd, hx⟩
    rw [namesIn] at hx
    split at hx
    · rename_i hlive
      obtain ⟨e, hmem, hdot, rfl⟩ := mem_namesOf.mp hx
      exact ⟨Nat.lt_succ_iff.mp (Finset.mem_range.mp hd), hlive, e, hmem, hdot, rfl⟩
    · exact absurd hx (notMem_zero x)
  · rintro ⟨hle, hlive, e, hmem, hdot, hino⟩
    refine ⟨x.1, Finset.mem_range.mpr (by omega), ?_⟩
    rw [namesIn, if_pos hlive, mem_namesOf]
    exact ⟨e, hmem, hdot, Prod.ext rfl hino⟩

private theorem edges_congr (hcount : t'.inodesCount = t.inodesCount)
    (h : ∀ d, namesIn t' d = namesIn t d) :
    edges t' = edges t := by
  rw [edges, edges, hcount]
  exact Finset.sum_congr rfl fun d _ => h d

private theorem namesIn_setDir_of_ne (h : d' ≠ d) (l : List DirEntry) :
    namesIn (t.setDir d l) d' = namesIn t d' := by
  have hdirs : (t.setDir d l).dirs d' = t.dirs d' := update_of_ne h _ _
  rw [namesIn, namesIn, hdirs]
  rfl

private theorem namesIn_setDir_self (hlive : Live t d) (l : List DirEntry) :
    namesIn (t.setDir d l) d = namesOf d l := by
  have hdirs : (t.setDir d l).dirs d = l := update_self _ _ _
  rw [namesIn, hdirs]
  exact if_pos hlive

section

variable (hlive : Live t d) (hd : d ≤ t.inodesCount) {e : DirEntry}
include hlive hd

private theorem edges_setDir (l : List DirEntry) :
    edges (t.setDir d l) + namesOf d (t.dirs d) = edges t + namesOf d l := by
  have h : edges (t.setDir d l) + namesIn t d = edges t + namesIn (t.setDir d l) d :=
    Finset.sum_add_eq_sum_add (Finset.mem_range.mpr (Nat.lt_succ_of_le hd)) fun d' _ hne =>
      namesIn_setDir_of_ne hne l
  rwa [namesIn_setDir_self hlive, namesIn, if_pos hlive] at h

/-- A new entry is one name more. -/
theorem edges_addEntry (hdot : nameIsDot e.name = false) :
    edges (addEntry t d e) = edges t + {(d, e.ino)} := by
  have h := edges_setDir hlive hd (t.dirs d ++ [e])
  rw [namesOf_append, namesOf_singleton hdot, add_left_comm, add_comm] at h
  exact add_left_cancel h

/-- An entry that is erased is one name less. -/
theorem edges_eraseEntry (hentry : Entry t d e) (hdot : nameIsDot e.name = false) :
    edges (eraseEntry t d e.name) + {(d, e.ino)} = edges t := by
  have h := edges_setDir hlive hd (eraseName (t.dirs d) e.name)
  rw [← namesOf_eraseName hentry hdot, add_comm (namesOf _ _), ← add_assoc] at h
  exact add_right_cancel h

/-- An entry that is put over another one is a name for it. -/
theorem edges_putEntry {child : Nat} {type : UInt8} (hentry : Entry t d e)
    (hdot : nameIsDot e.name = false) :
    edges (putEntry t d e.name child type) + {(d, e.ino)} = edges t + {(d, child)} := by
  have h := edges_setDir hlive hd (replaceName e.name child type (t.dirs d))
  have hnames : namesOf d (replaceName e.name child type (t.dirs d)) + {(d, e.ino)}
      = namesOf d (t.dirs d) + {(d, child)} := namesOf_replaceName hentry hdot
  refine add_right_cancel (b := namesOf d (t.dirs d)) ?_
  calc edges (putEntry t d e.name child type) + {(d, e.ino)} + namesOf d (t.dirs d)
      = edges (putEntry t d e.name child type) + namesOf d (t.dirs d) + {(d, e.ino)} := by ac_rfl
    _ = edges t + (namesOf d (replaceName e.name child type (t.dirs d)) + {(d, e.ino)}) := by
        rw [← add_assoc, ← h]
        rfl
    _ = edges t + {(d, child)} + namesOf d (t.dirs d) := by
        rw [hnames]
        ac_rfl

end

/-- The dots are no names. -/
theorem edges_putDotdot (d parent : Nat) : edges (putDotdot t d parent) = edges t := by
  refine edges_congr rfl fun d' => ?_
  by_cases hd : d' = d
  · subst hd
    have hdirs : (putDotdot t d' parent).dirs d' = replaceDotdot parent (t.dirs d') :=
      update_self _ _ _
    rw [namesIn, namesIn, hdirs, namesOf_replaceDotdot]
    rfl
  · exact namesIn_setDir_of_ne hd _

/-- Only the directories in use count. -/
theorem edges_of_live (hcount : t'.inodesCount = t.inodesCount)
    (hlive : ∀ d, d ≠ ino → (Live t' d ↔ Live t d)) (hdirs : ∀ d, d ≠ ino → t'.dirs d = t.dirs d)
    (hino : namesIn t' ino = namesIn t ino) : edges t' = edges t := by
  refine edges_congr hcount fun d => ?_
  by_cases hd : d = ino
  · rw [hd, hino]
  · rw [namesIn, namesIn, if_congr (hlive d hd) (by rw [hdirs d hd]) rfl]

end

/-! ### Changes that keep the names in shape -/

/-- The same inodes are in use, and the same of them are directories. -/
structure SameKinds (t t' : NameFs) : Prop where
  count : t'.inodesCount = t.inodesCount
  used : t'.used = t.used
  kind : ∀ i, (t'.inodes i).isDir = (t.inodes i).isDir

section

variable {t t' : NameFs} {d ino : Nat}

theorem SameKinds.live (h : SameKinds t t') (d : Nat) : Live t' d ↔ Live t d := by
  rw [Live, Live, h.used, h.kind]

theorem SameKinds.trans {t'' : NameFs} (h : SameKinds t t') (h' : SameKinds t' t'') :
    SameKinds t t'' :=
  ⟨h'.count.trans h.count, h'.used.trans h.used, fun i => (h'.kind i).trans (h.kind i)⟩

theorem SameKinds.setDir (t : NameFs) (d : Nat) (l : List DirEntry) : SameKinds t (t.setDir d l) :=
  ⟨rfl, rfl, fun _ => rfl⟩

theorem SameKinds.setInode (h : inode.isDir = (t.inodes ino).isDir) :
    SameKinds t (t.setInode ino inode) := by
  refine ⟨rfl, rfl, fun i => ?_⟩
  by_cases hi : i = ino
  · subst hi
    simp [NameFs.setInode, h]
  · simp [NameFs.setInode, hi]

/-- Storing an inode that is a directory or not as before. -/
theorem edges_setInode (h : inode.isDir = (t.inodes ino).isDir) :
    edges (t.setInode ino inode) = edges t := by
  refine edges_congr rfl fun d' => ?_
  rw [namesIn, namesIn, if_congr ((SameKinds.setInode h).live d') rfl rfl]
  rfl

/-- An inode without a name. -/
theorem nameCount_eq_zero : nameCount t i = 0 ↔ ∀ x ∈ edges t, x.2 ≠ i := countP_eq_zero

/-- An entry of a live directory is a name of the tree. -/
theorem Shape.mem_edges (h : Shape t) {e : DirEntry} (hlive : Live t d) (hmem : e ∈ t.dirs d)
    (hdot : nameIsDot e.name = false) : (d, e.ino) ∈ edges t :=
  Ext4.mem_edges.mpr ⟨h.usedLe d hlive.1, hlive, e, hmem, hdot, rfl⟩

/-- The root has no name. -/
theorem Shape.ne_root (h : Shape t) (hx : x ∈ edges t) : x.2 ≠ rootIno :=
  nameCount_eq_zero.mp h.rootUnnamed x hx

private theorem Shape.unused_unnamed (h : Shape t) (hfree : t.used ino = false) :
    nameCount t ino = 0 := by
  refine nameCount_eq_zero.mpr fun x hx heq => ?_
  have hused := h.namesUsed x hx
  rw [heq, hfree] at hused
  exact nomatch hused

theorem inTree_of_mem (h : x ∈ edges t) : InTree t x.2 := Or.inr (countP_pos.mpr ⟨x, h, rfl⟩)

private theorem inTree_iff :
    InTree t i ↔ i = rootIno ∨ ∃ x ∈ edges t, x.2 = i := or_congr_right countP_pos

/-- What is in the tree is marked used. -/
theorem Shape.inTree_used (h : Shape t) (hi : InTree t i) : t.used i = true := by
  obtain rfl | ⟨x, hx, rfl⟩ := inTree_iff.mp hi
  · exact h.root.1
  · exact h.namesUsed x hx

/-- What is looked up is in the tree. -/
theorem Shape.lookup_inTree (h : Shape t) {followFinal : Bool} {depth : Nat} {path : List UInt8}
    (hlookup : lookupPathEx t followFinal depth path = .ok d) : InTree t d :=
  lookupPathEx_induct (P := InTree t) (Or.inl rfl)
    (fun _ _ hd hdir hmem hdot _ => inTree_of_mem (h.mem_edges ⟨h.inTree_used hd, hdir⟩ hmem hdot))
    hlookup

/-- What is in the tree after a change was there before or has a new name. -/
theorem inTree_retie (hedges : edges t' + R = edges t + A) (hi : InTree t' i) :
    InTree t i ∨ ∃ x ∈ A, x.2 = i := by
  obtain hroot | ⟨x, hx, rfl⟩ := inTree_iff.mp hi
  · exact Or.inl (Or.inl hroot)
  · have hmem : x ∈ edges t + A := hedges ▸ mem_add.mpr (Or.inl hx)
    exact (mem_add.mp hmem).imp inTree_of_mem fun hA => ⟨x, hA, rfl⟩

theorem inTree_congr (hedges : edges t' = edges t) : InTree t' i ↔ InTree t i := by
  rw [InTree, InTree, nameCount, nameCount, hedges]

/-- Names go and others come. -/
theorem nameCount_retie (hedges : edges t' + R = edges t + A) (i : Nat) :
    nameCount t' i + R.countP (fun x => x.2 = i) = nameCount t i + A.countP (fun x => x.2 = i) := by
  rw [nameCount, nameCount, ← countP_add, ← countP_add, hedges]

/-- Names are taken away and others are added. -/
theorem Shape.retie (h : Shape t) (hkinds : SameKinds t t') (hedges : edges t' + R = edges t + A)
    (hused : ∀ x ∈ A, t.used x.2 = true) (hroot : ∀ x ∈ A, x.2 ≠ rootIno)
    (honce : ∀ d, Live t d →
      nameCount t d + A.countP (fun x => x.2 = d) ≤ R.countP (fun x => x.2 = d) + 1) :
    Shape t' := by
  have hmem : ∀ x ∈ edges t', x ∈ edges t ∨ x ∈ A := fun x hx =>
    mem_add.mp (hedges ▸ mem_add.mpr (Or.inl hx))
  refine ⟨(hkinds.live _).mpr h.root, fun i hi => ?_, fun x hx => ?_, ?_, fun d hd => ?_⟩
  · rw [hkinds.count]
    exact h.usedLe i (hkinds.used ▸ hi)
  · rw [hkinds.used]
    exact (hmem x hx).elim (h.namesUsed x) (hused x)
  · exact nameCount_eq_zero.mpr fun x hx => (hmem x hx).elim h.ne_root (hroot x)
  · have := nameCount_retie hedges d
    have := honce d ((hkinds.live d).mp hd)
    omega

theorem countP_singleton_name (x : Nat × Nat) (i : Nat) :
    ({x} : Multiset (Nat × Nat)).countP (fun x => x.2 = i) = if x.2 = i then 1 else 0 := by
  rw [← cons_zero, countP_cons, countP_zero, Nat.zero_add]

/-- A name is added. -/
theorem Shape.tie (h : Shape t) (hkinds : SameKinds t t') (hedges : edges t' = edges t + {(d, ino)})
    (hused : t.used ino = true) (hroot : ino ≠ rootIno) (honce : Live t ino → nameCount t ino = 0) :
    Shape t' := by
  refine h.retie hkinds (by rw [hedges, add_zero]) (by simpa) (by simpa) fun d' hd' => ?_
  rw [countP_singleton_name, countP_zero]
  split
  · rename_i heq
    obtain rfl : ino = d' := heq
    rw [honce hd']
  · exact h.dirOnce d' hd'

/-- An inode that is not a part of the tree: nothing names it, and it names nothing. -/
structure Apart (t : NameFs) (ino : Nat) : Prop where
  unnamed : nameCount t ino = 0
  empty : namesIn t ino = 0

/-- An inode apart from the tree has no names. -/
theorem Apart.not_from (h : Apart t ino) (hx : x ∈ edges t) : x.1 ≠ ino := by
  rintro rfl
  obtain ⟨-, hlive, e, hmem, hdot, hino⟩ := Ext4.mem_edges.mp hx
  have hempty := h.empty
  rw [namesIn, if_pos hlive] at hempty
  exact notMem_zero x (hempty ▸ mem_namesOf.mpr ⟨e, hmem, hdot, Prod.ext rfl hino⟩)

private theorem Apart.edges_eq (h : Apart t ino) (hcount : t'.inodesCount = t.inodesCount)
    (hlive : ∀ d, d ≠ ino → (Live t' d ↔ Live t d)) (hdirs : ∀ d, d ≠ ino → t'.dirs d = t.dirs d)
    (hino : namesIn t' ino = 0) : edges t' = edges t :=
  edges_of_live hcount hlive hdirs (hino.trans h.empty.symm)

/-- An inode that is not a part of the tree may come into use or go out of it. -/
theorem Shape.apart (h : Shape t) (hapart : Apart t ino) (hne : ino ≠ rootIno)
    (hle : ino ≤ t.inodesCount) (hcount : t'.inodesCount = t.inodesCount)
    (hused : ∀ i, i ≠ ino → t'.used i = t.used i)
    (hlive : ∀ d, d ≠ ino → (Live t' d ↔ Live t d)) (hedges : edges t' = edges t) : Shape t' := by
  refine ⟨(hlive _ (Ne.symm hne)).mpr h.root, fun i hi => ?_, fun x hx => ?_, ?_, fun d hd => ?_⟩
  · rw [hcount]
    by_cases hi' : i = ino
    · exact hi' ▸ hle
    · exact h.usedLe i (hused i hi' ▸ hi)
  · rw [hedges] at hx
    rw [hused _ (nameCount_eq_zero.mp hapart.unnamed x hx)]
    exact h.namesUsed x hx
  · rw [nameCount, hedges]
    exact h.rootUnnamed
  · rw [nameCount, hedges]
    by_cases hd' : d = ino
    · rw [hd']
      exact hapart.unnamed.le.trans (Nat.zero_le 1)
    · exact h.dirOnce d ((hlive d hd').mp hd)

theorem live_congr (hused : t'.used d = t.used d) (hinode : t'.inodes d = t.inodes d) :
    Live t' d ↔ Live t d := by
  rw [Live, Live, hused, hinode]

/-- Freeing an inode without names changes no name. -/
theorem edges_freed (hempty : namesIn t ino = 0) : edges (freed t ino) = edges t := by
  refine edges_of_live rfl (fun _ hd => live_congr (update_of_ne hd _ _) (update_of_ne hd _ _))
    (fun _ _ => rfl) ?_
  rw [hempty, namesIn]
  refine if_neg fun hlive => ?_
  have hused : (freed t ino).used ino = false := update_self _ _ _
  rw [hlive.1] at hused
  exact nomatch hused

/-- Freeing an inode apart from the tree keeps the shape. -/
theorem Shape.freed (h : Shape t) (hapart : Apart t ino) (hne : ino ≠ rootIno)
    (hle : ino ≤ t.inodesCount) : Shape (freed t ino) :=
  h.apart hapart hne hle rfl (fun _ hi => update_of_ne hi _ _)
    (fun _ hd => live_congr (update_of_ne hd _ _) (update_of_ne hd _ _))
    (edges_freed hapart.empty)

section

variable (h : Shape t) (hfree : FreeIno t ino) {entries : List DirEntry}
include h hfree

/-- A free inode is apart from the tree. -/
theorem Shape.apart_of_free : Apart t ino := by
  refine ⟨h.unused_unnamed hfree.free, if_neg fun hlive => ?_⟩
  rw [Live, hfree.free] at hlive
  exact nomatch hlive.1

theorem Shape.ne_root_of_free : ino ≠ rootIno := by
  rintro rfl
  have hused := h.root.1
  rw [hfree.free] at hused
  exact nomatch hused

theorem Shape.edges_newFile (hkind : inode.isDir = false) :
    edges ((t.setUsed ino true).setInode ino inode) = edges t := by
  refine (h.apart_of_free hfree).edges_eq rfl
    (fun _ hd => live_congr (update_of_ne hd _ _) (update_of_ne hd _ _))
    (fun _ _ => rfl) (if_neg fun hlive => ?_)
  have hdir : ((t.setUsed ino true).setInode ino inode).inodes ino = inode := update_self _ _ _
  rw [Live, hdir, hkind] at hlive
  exact nomatch hlive.2

/-- A new file, not yet named, keeps the shape. -/
theorem Shape.newFile (hkind : inode.isDir = false) :
    Shape ((t.setUsed ino true).setInode ino inode) :=
  h.apart (h.apart_of_free hfree) (h.ne_root_of_free hfree) hfree.le rfl
    (fun _ hi => update_of_ne hi _ _)
    (fun _ hd => live_congr (update_of_ne hd _ _) (update_of_ne hd _ _))
    (h.edges_newFile hfree hkind)

theorem Shape.edges_newDir (hempty : ∀ e ∈ entries, nameIsDot e.name = true) :
    edges (((t.setUsed ino true).setDir ino entries).setInode ino inode) = edges t := by
  refine (h.apart_of_free hfree).edges_eq rfl (fun d hd => ?_) (fun _ hd => update_of_ne hd _ _) ?_
  · exact live_congr (update_of_ne hd _ _) (update_of_ne hd _ _)
  · have hdirs : (((t.setUsed ino true).setDir ino entries).setInode ino inode).dirs
        ino = entries :=
      update_self _ _ _
    rw [namesIn, hdirs, namesOf_of_empty hempty, ite_self]

/-- A new directory, not yet named, keeps the shape. -/
theorem Shape.newDir (hempty : ∀ e ∈ entries, nameIsDot e.name = true) :
    Shape (((t.setUsed ino true).setDir ino entries).setInode ino inode) :=
  h.apart (h.apart_of_free hfree) (h.ne_root_of_free hfree) hfree.le rfl
    (fun _ hi => update_of_ne hi _ _)
    (fun _ hd => live_congr (update_of_ne hd _ _) (update_of_ne hd _ _))
    (h.edges_newDir hfree hempty)

end

end

end Rabbitbone.Spec.Ext4
