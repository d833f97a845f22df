import Rabbitbone.Spec.RamfsLists

/-!
# Ramfs trees

What a well-formed ramfs is (`Ramfs.Tree`), the entries of its directories (`Ramfs.Children`,
`Ramfs.HasEntry`), and what the lookups of `path_resolution.inc` and `op_rename` find in them.

## Key results

- `Ramfs.findWithPrev_spec`: the search of `op_unlink` and `op_rename` ends at the entry with the
  name and its predecessor.
- `exists_dirLists`: a tree has the lists of `DirLists`.
- `resolveParent_dir`: the directory that `resolve_parent` found, with its list.
-/

namespace Rabbitbone.Native.Ramfs

open LinkedList Option

variable {path leaf : List UInt8} {fs : Ramfs}

/-- The name and the object of an entry. -/
def entry (fs : Ramfs) (n : NodeId) : Option (List UInt8 × ObjId) :=
  (fs.nodes n).map fun nd => (nd.name, nd.obj)

/-- The entries of a directory, in the order of its children list. -/
def Children (fs : Ramfs) (d : ObjId) (l : List NodeId) : Prop :=
  ∃ h, fs.dirHead d = some h ∧ Chain fs.next h l

/-- The directory `d` has an entry `name` for the object `obj`. -/
def HasEntry (fs : Ramfs) (d : ObjId) (name : List UInt8) (obj : ObjId) : Prop :=
  ∃ l, fs.Children d l ∧ ∃ c ∈ l, fs.entry c = some (name, obj)

/-- A well-formed ramfs: every directory has a finite list of live entries with distinct names, no
entry is in two directories, every entry has a live object, a directory has one entry only, and an
object with several entries has a link count above one. -/
structure Tree (fs : Ramfs) : Prop where
  finite : ∀ d h, fs.dirHead d = some h →
    ∃ l, Chain fs.next h l ∧ ∀ c ∈ l, (fs.nodes c).isSome = true
  disjoint : ∀ d d' l l' c, fs.Children d l → fs.Children d' l' → c ∈ l → c ∈ l' → d = d'
  names : ∀ d l a b name oa ob, fs.Children d l → a ∈ l → b ∈ l →
    fs.entry a = some (name, oa) → fs.entry b = some (name, ob) → a = b
  objLive : ∀ n nd, fs.nodes n = some nd → (fs.objs nd.obj).isSome = true
  shared : ∀ a b nda ndb o, fs.nodes a = some nda → fs.nodes b = some ndb → nda.obj = ndb.obj →
    fs.objs nda.obj = some o → a = b ∨ (o.type ≠ .dir ∧ 1 < o.nlink)

/-! ### Frame lemmas -/

/-- A change of links is no change of entries. -/
theorem entry_setNode {n : NodeId} {f : RamfsNode → RamfsNode}
    (hf : ∀ nd, (f nd).name = nd.name ∧ (f nd).obj = nd.obj) :
    (fs.setNode n f).entry = fs.entry := by
  funext m
  by_cases h : m = n
  · subst h
    rw [entry, setNode_nodes_self, map_map, entry]
    congr 1
    funext nd
    simp [hf nd]
  · rw [entry, setNode_nodes_ne h, entry]

theorem type_setObj {o : ObjId} {f : RamfsObject → RamfsObject}
    (hf : ∀ ob, (f ob).type = ob.type) (m : ObjId) :
    ((fs.setObj o f).objs m).map RamfsObject.type = (fs.objs m).map RamfsObject.type := by
  by_cases h : m = o
  · subst h
    rw [setObj_objs_self, map_map]
    congr 1
    funext ob
    exact hf ob
  · rw [setObj_objs_ne h]

theorem relink_entry (fs : Ramfs) (d : ObjId) (prev next : Option NodeId) :
    (fs.relink d prev next).entry = fs.entry := by
  cases prev with
  | none => rfl
  | some p => exact entry_setNode fun _ => ⟨rfl, rfl⟩

theorem relink_type (fs : Ramfs) (d : ObjId) (prev next : Option NodeId) (m : ObjId) :
    ((fs.relink d prev next).objs m).map RamfsObject.type = (fs.objs m).map RamfsObject.type := by
  cases prev with
  | none =>
    apply type_setObj
    exact fun _ => rfl
  | some p => rfl

/-- The search ends at the first entry called `name`, with the entry before it. -/
theorem findWithPrev_spec {name : List UInt8} {fuel : Nat} {prev h p r : Option NodeId}
    {l : List NodeId} (hc : Chain fs.next h l)
    (hf : fs.findWithPrev name fuel prev h = some (p, r)) :
    (r = none ∧ ∀ c ∈ l, ∀ o, fs.entry c ≠ some (name, o)) ∨
      ∃ c l₁ l₂ o, r = some c ∧ l = l₁ ++ c :: l₂ ∧ fs.entry c = some (name, o) ∧
        p = l₁.getLast?.or prev := by
  -- along the chain, with `prev` the node before it
  induction l generalizing fuel prev h with
  | nil =>
    obtain rfl := Seg.nil_iff.mp hc
    cases fuel <;>
    · simp only [findWithPrev, some.injEq, Prod.mk.injEq] at hf
      exact .inl ⟨hf.2.symm, by simp⟩
  | cons c l ih =>
    obtain ⟨rfl, hrest⟩ := hc
    cases fuel with
    | zero => simp [findWithPrev] at hf
    | succ fuel =>
      cases hnd : fs.nodes c with
      | none => simp [findWithPrev, hnd] at hf
      | some nd =>
        simp only [findWithPrev, hnd, bind_eq_bind, bind_some] at hf
        split at hf
        · rename_i hname
          obtain ⟨rfl, rfl⟩ := Prod.mk.inj (some.inj hf)
          refine .inr ⟨c, [], l, nd.obj, rfl, rfl, ?_, rfl⟩
          simp [entry, hnd, hname]
        rename_i hname
        have hnext : fs.next c = nd.next := by simp [next, hnd]
        rw [← hnext] at hf
        have hnot : ∀ o, fs.entry c ≠ some (name, o) := by
          intro o ho
          simp only [entry, hnd, map_some, some.injEq, Prod.mk.injEq] at ho
          exact hname ho.1
        rcases ih hrest hf with ⟨hr, hall⟩ | ⟨x, l₁, l₂, o, hr, rfl, hx, hp⟩
        · refine .inl ⟨hr, fun a ha => ?_⟩
          rcases List.mem_cons.mp ha with rfl | ha
          · exact hnot
          · exact hall a ha
        · refine .inr ⟨x, c :: l₁, l₂, o, hr, rfl, hx, ?_⟩
          rw [hp]
          cases l₁ with
          | nil => rfl
          | cons a l₁ => simp [List.getLast?_cons]

end Rabbitbone.Native.Ramfs

namespace Rabbitbone.Spec

open LinkedList Native Function Ramfs Option

/-- The lists of a tree. -/
theorem exists_dirLists {fs : Ramfs} (h : fs.Tree) : ∃ ch, DirLists fs ch := by
  have hex : ∀ d, ∃ r : Option (List NodeId), ∀ l, r = some l ↔ fs.Children d l := by
    intro d
    cases hd : fs.dirHead d with
    | none => exact ⟨none, fun l => by simp [Children, hd]⟩
    | some head =>
      obtain ⟨l, hl, -⟩ := h.finite d head hd
      refine ⟨some l, fun l' => ⟨?_, ?_⟩⟩
      · intro hl'
        obtain rfl := some.inj hl'
        exact ⟨head, hd, hl⟩
      · rintro ⟨head', hd', hl'⟩
        obtain rfl : head = head' := some.inj (hd.symm.trans hd')
        rw [hl.unique hl']
  choose ch hch using hex
  refine ⟨ch, ⟨fun d head hd => ?_, fun d l hl => (hch d l).mp hl, fun d l c hl hc => ?_,
    fun d d' l l' c hl hl' => h.disjoint d d' l l' c ((hch d l).mp hl) ((hch d' l').mp hl')⟩⟩
  · obtain ⟨l, hl, -⟩ := h.finite d head hd
    exact ⟨l, (hch d l).mpr ⟨head, hd, hl⟩⟩
  · obtain ⟨head, hd, hl'⟩ := (hch d l).mp hl
    obtain ⟨l'', hl'', hlive⟩ := h.finite d head hd
    exact hlive c (hl'.unique hl'' ▸ hc)

/-- The list of a directory is its children. -/
theorem DirLists.children_iff {fs : Ramfs} {ch : ObjId → Option (List NodeId)}
    (h : DirLists fs ch) (d : ObjId) (l : List NodeId) : fs.Children d l ↔ ch d = some l := by
  constructor
  · rintro ⟨head, hd, hl⟩
    obtain ⟨l', hl'⟩ := h.dom d head hd
    obtain ⟨head', hd', hc⟩ := h.chain d l' hl'
    obtain rfl : head = head' := some.inj (hd.symm.trans hd')
    rw [hl', hl.unique hc]
  · exact h.chain d l

/-- The entry `c` is in the list of `d`. -/
def InDir (ch : ObjId → Option (List NodeId)) (d : ObjId) (c : NodeId) : Prop :=
  ∃ l, ch d = some l ∧ c ∈ l

/-- An entry of a directory is a node of its list. -/
theorem DirLists.hasEntry_iff {fs : Ramfs} {ch : ObjId → Option (List NodeId)} (h : DirLists fs ch)
    (d : ObjId) (name : List UInt8) (obj : ObjId) :
    fs.HasEntry d name obj ↔ ∃ c, InDir ch d c ∧ fs.entry c = some (name, obj) := by
  simp only [HasEntry, h.children_iff, InDir]
  constructor
  · rintro ⟨l, hl, c, hc, he⟩
    exact ⟨c, ⟨l, hl, hc⟩, he⟩
  · rintro ⟨c, ⟨l, hl, hc⟩, he⟩
    exact ⟨l, hl, c, hc, he⟩

/-! ### Membership in the updated lists -/

section Members

variable {fs : Ramfs} {ch : ObjId → Option (List NodeId)}

/-- Removing a node from its list removes it from its directory. -/
theorem inDir_remove (h : DirLists fs ch) {P : ObjId} {l₁ l₂ : List NodeId} {n : NodeId}
    (hP : ch P = some (l₁ ++ n :: l₂)) (d : ObjId) (c : NodeId) :
    InDir (update ch P (some (l₁ ++ l₂))) d c ↔ InDir ch d c ∧ c ≠ n := by
  have hdet := h.detached_of_relink hP
  constructor
  · rintro ⟨l, hl, hc⟩
    have hcn : c ≠ n := by rintro rfl; exact hdet d l hl hc
    refine ⟨?_, hcn⟩
    by_cases hd : d = P
    · subst hd
      rw [update_self] at hl
      obtain rfl := some.inj hl
      refine ⟨_, hP, ?_⟩
      rcases List.mem_append.mp hc with hc | hc
      · exact List.mem_append_left _ hc
      · exact List.mem_append_right _ (List.mem_cons_of_mem _ hc)
    · rw [update_of_ne hd] at hl
      exact ⟨l, hl, hc⟩
  · rintro ⟨⟨l, hl, hc⟩, hcn⟩
    by_cases hd : d = P
    · subst hd
      obtain rfl := some.inj (hP.symm.trans hl)
      refine ⟨l₁ ++ l₂, update_self .., ?_⟩
      simpa [hcn] using hc
    · exact ⟨l, by rw [update_of_ne hd, hl], hc⟩

/-- Attaching a node adds it to the directory. -/
theorem inDir_attach {Q : ObjId} {l : List NodeId} (hQ : ch Q = some l) (n : NodeId) (d : ObjId)
    (c : NodeId) : InDir (update ch Q (some (n :: l))) d c ↔ (d = Q ∧ c = n) ∨ InDir ch d c := by
  by_cases hd : d = Q
  · subst hd
    simp [InDir, hQ]
  · simp [InDir, hd]

/-- A directory without children can be dropped. -/
theorem inDir_drop {o : ObjId} (ho : ch o = some []) (d : ObjId) (c : NodeId) :
    InDir (update ch o none) d c ↔ InDir ch d c := by
  by_cases hd : d = o
  · subst hd
    simp [InDir, ho]
  · simp [InDir, hd]

end Members

/-! ### Resolving the parent of a path -/

/-- The path names the entry `leaf` of the directory `d`. -/
def NamesEntry (fs : Ramfs) (path : List UInt8) (d : ObjId) (leaf : List UInt8) : Prop :=
  ∃ p nd, fs.resolveParent path = some (.ok (p, leaf)) ∧ fs.nodes p = some nd ∧ nd.obj = d

variable {p : NodeId} {fs : Ramfs}

/-- A path names one entry. -/
theorem NamesEntry.unique {d d' : ObjId} {leaf' : List UInt8}
    (h : NamesEntry fs path d leaf) (h' : NamesEntry fs path d' leaf') : d = d' ∧ leaf = leaf' := by
  obtain ⟨p, nd, hp, hnd, rfl⟩ := h
  obtain ⟨p', nd', hp', hnd', rfl⟩ := h'
  obtain ⟨rfl, rfl⟩ := Prod.mk.inj (Except.ok.inj (some.inj (hp.symm.trans hp')))
  obtain rfl := some.inj (hnd.symm.trans hnd')
  exact ⟨rfl, rfl⟩

/-- A path is refused as invalid or split off a name that fits an entry. -/
theorem splitParent_spec (path : List UInt8) : splitParent path = .error .inval ∨
    ∃ parentPath leaf, splitParent path = .ok (parentPath, leaf) ∧ leaf.length < Path.nameMax := by
  unfold splitParent
  split
  · exact .inl rfl
  rename_i norm _
  split
  · exact .inl rfl
  simp only
  generalize (if Path.pathBasename norm = 0 then 1 else Path.pathBasename norm) = parentLen
  split
  · exact .inl rfl
  rename_i hleaf
  simp only [Bool.or_eq_true, decide_eq_true_eq, not_or, not_le] at hleaf
  split
  · exact .inr ⟨_, _, rfl, hleaf.1.2⟩
  · exact .inr ⟨_, _, rfl, hleaf.1.2⟩

/-- The last component is shorter than `nameMax`. -/
theorem splitParent_ok {parentPath : List UInt8}
    (h : splitParent path = .ok (parentPath, leaf)) : leaf.length < Path.nameMax := by
  rcases splitParent_spec path with hs | ⟨parentPath', leaf', hs, hleaf⟩
  · simp [hs] at h
  · obtain ⟨-, rfl⟩ := Prod.mk.inj (Except.ok.inj (h.symm.trans hs))
    exact hleaf

/-- What `resolve_parent` found. -/
theorem resolveParent_ok (h : fs.resolveParent path = some (.ok (p, leaf))) :
    ∃ parentPath, splitParent path = .ok (parentPath, leaf) ∧
      fs.resolve parentPath = some (some p) ∧ fs.nodeType p = some .dir := by
  unfold resolveParent at h
  split at h
  · simp at h
  rename_i parentPath leaf' hsplit
  obtain ⟨r, hr, h⟩ := bind_eq_some_iff.mp h
  cases r with
  | none => simp at h
  | some parent =>
    obtain ⟨type, htype, h⟩ := bind_eq_some_iff.mp h
    split at h
    · simp at h
    rename_i hdir
    obtain ⟨rfl, rfl⟩ := Prod.mk.inj (Except.ok.inj (some.inj h))
    exact ⟨parentPath, hsplit, hr, by rw [htype, not_not.mp hdir]⟩

private theorem nodeType_eq_some {t : NodeType} (h : fs.nodeType p = some t) :
    ∃ nd o, fs.nodes p = some nd ∧ fs.objs nd.obj = some o ∧ o.type = t := by
  obtain ⟨nd, hnd, h⟩ := bind_eq_some_iff.mp h
  obtain ⟨o, ho, h⟩ := bind_eq_some_iff.mp h
  exact ⟨nd, o, hnd, ho, some.inj h⟩

theorem resolveParent_ne_ok (fs : Ramfs) (path : List UInt8) :
    fs.resolveParent path ≠ some (.error .ok) := by
  intro h
  unfold resolveParent at h
  split at h
  · rename_i st hst
    obtain rfl := Except.error.inj (some.inj h)
    rcases splitParent_spec path with hs | ⟨_, _, hs, -⟩ <;> simp [hs] at hst
  obtain ⟨r, -, h⟩ := bind_eq_some_iff.mp h
  cases r with
  | none => simp at h
  | some parent =>
    obtain ⟨type, -, h⟩ := bind_eq_some_iff.mp h
    split at h <;> simp at h

/-- The node and the list of a directory that was resolved. -/
theorem resolveParent_dir {ch : ObjId → Option (List NodeId)} (hl : DirLists fs ch)
    (h : fs.resolveParent path = some (.ok (p, leaf))) :
    ∃ nd o l, fs.nodes p = some nd ∧ fs.objs nd.obj = some o ∧ ch nd.obj = some l ∧
      Chain fs.next o.children l ∧ NamesEntry fs path nd.obj leaf := by
  obtain ⟨parentPath, -, -, htype⟩ := resolveParent_ok h
  obtain ⟨nd, o, hnd, ho, hdir⟩ := nodeType_eq_some htype
  have hhead := dirHead_eq_some_iff.mpr ⟨o, ho, hdir, rfl⟩
  obtain ⟨l, hch⟩ := hl.dom _ _ hhead
  obtain ⟨head, hhead', hc⟩ := hl.chain _ _ hch
  obtain rfl := some.inj (hhead.symm.trans hhead')
  exact ⟨nd, o, l, hnd, ho, hch, hc, p, nd, h, hnd, rfl⟩

end Rabbitbone.Spec
