import Rabbitbone.ForStd.List
import Rabbitbone.Spec.RamfsMove

/-!
# Renaming in the RAM file system

`op_rename` looks up the entry to rename with its predecessor `prev`, then removes the entry that
has the new name, then links `prev` past the renamed entry.  When the removed entry is `prev`
itself, the link is written to a freed cell: the renamed entry stays in its list and is put in
front of it once more.

## Key results

- `opRename_renamed_iff`: a successful rename has its effect (`Renamed`) exactly when the entry it
  replaces is not the predecessor of the renamed one.
-/

namespace Rabbitbone.Spec

open LinkedList Native Ramfs List Option

variable {oldPath newPath newLeaf oldLeaf : List UInt8} {dstNd : RamfsNode} {dstObj : RamfsObject}
  {m₂ m₁ : List NodeId} {fs fs' : Ramfs}

/-! ### The effect of a rename -/

/-- What a successful rename should leave: all children lists finite and free of repetitions, the
new name once and for the renamed object, the old name gone (unless the two are one entry), all
other entries as they were, and no entry without its object. -/
structure RenamePost (fs fs' : Ramfs) (oldDir : ObjId) (oldLeaf : List UInt8) (newDir : ObjId)
    (newLeaf : List UInt8) : Prop where
  lists : ∀ d h, fs'.dirHead d = some h →
    ∃ l, Chain fs'.next h l ∧ l.Nodup ∧ ∀ c ∈ l, (fs'.nodes c).isSome = true
  renamed : ∃ l c obj, fs'.Children newDir l ∧ fs.HasEntry oldDir oldLeaf obj ∧ c ∈ l ∧
    fs'.entry c = some (newLeaf, obj) ∧ ∀ c' ∈ l, ∀ o, fs'.entry c' = some (newLeaf, o) → c' = c
  oldGone : (oldDir, oldLeaf) ≠ (newDir, newLeaf) → ∀ obj, ¬fs'.HasEntry oldDir oldLeaf obj
  others : ∀ d name obj, (d, name) ≠ (oldDir, oldLeaf) → (d, name) ≠ (newDir, newLeaf) →
    (fs'.HasEntry d name obj ↔ fs.HasEntry d name obj)
  objects : ∀ d name obj, fs'.HasEntry d name obj → (fs'.objs obj).isSome = true

/-- A successful `op_rename` has its effect. -/
def Renamed (fs fs' : Ramfs) (oldPath newPath : List UInt8) : Prop :=
  ∃ P oldLeaf Q newLeaf, NamesEntry fs oldPath P oldLeaf ∧ NamesEntry fs newPath Q newLeaf ∧
    RenamePost fs fs' P oldLeaf Q newLeaf

/-- The two paths name entries of one directory, and the entry with the new name comes directly
before the entry to rename. -/
def ReplacesPredecessor (fs : Ramfs) (oldPath newPath : List UInt8) : Prop :=
  ∃ d oldLeaf newLeaf l₁ l₂ x n ox on, NamesEntry fs oldPath d oldLeaf ∧
    NamesEntry fs newPath d newLeaf ∧ fs.Children d (l₁ ++ x :: n :: l₂) ∧
    fs.entry x = some (newLeaf, ox) ∧ fs.entry n = some (oldLeaf, on)

/-- The entry `n` of `P` was moved to `Q` and the entry `dst` of `Q`, if there was one, removed. -/
structure Rearranged (fs fs' : Ramfs) (ch ch' : ObjId → Option (List NodeId)) (P Q : ObjId)
    (n : NodeId) (dst : Option NodeId) (oldLeaf newLeaf : List UInt8) (obj : ObjId) : Prop where
  lists : DirLists fs ch
  lists' : DirLists fs' ch'
  source : InDir ch P n ∧ fs.entry n = some (oldLeaf, obj)
  target : ∀ c, dst = some c → InDir ch Q c ∧ c ≠ n ∧ ∃ o, fs.entry c = some (newLeaf, o)
  only : ∀ c o, InDir ch Q c → fs.entry c = some (newLeaf, o) → dst = some c
  mem : ∀ d c, InDir ch' d c ↔ (d = Q ∧ c = n) ∨ (InDir ch d c ∧ c ≠ n ∧ dst ≠ some c)
  entry : ∀ c, c ≠ n → dst ≠ some c → fs'.entry c = fs.entry c
  self : fs'.entry n = some (newLeaf, obj)
  object : ∀ c name o, fs.entry c = some (name, o) → dst ≠ some c → (fs'.objs o).isSome = true

private theorem Rearranged.renamePost {ch ch' : ObjId → Option (List NodeId)}
    {P Q : ObjId} {n : NodeId} {dst : Option NodeId} {obj : ObjId}
    (htree : fs.Tree) (h : Rearranged fs fs' ch ch' P Q n dst oldLeaf newLeaf obj) :
    RenamePost fs fs' P oldLeaf Q newLeaf := by
  obtain ⟨hn, hne⟩ := h.source
  -- an entry of the new lists is `n` under its new name or an old entry
  have hiff : ∀ d name o, fs'.HasEntry d name o ↔ (d = Q ∧ name = newLeaf ∧ o = obj) ∨
      ∃ c, (InDir ch d c ∧ c ≠ n ∧ dst ≠ some c) ∧ fs.entry c = some (name, o) := by
    intro d name o
    rw [h.lists'.hasEntry_iff]
    constructor
    · rintro ⟨c, hc, he⟩
      rcases (h.mem d c).mp hc with ⟨rfl, rfl⟩ | hc
      · rw [h.self] at he
        obtain ⟨rfl, rfl⟩ := Prod.mk.inj (some.inj he)
        exact .inl ⟨rfl, rfl, rfl⟩
      · exact .inr ⟨c, hc, by rw [← h.entry c hc.2.1 hc.2.2, he]⟩
    · rintro (⟨rfl, rfl, rfl⟩ | ⟨c, hc, he⟩)
      · exact ⟨n, (h.mem _ _).mpr (.inl ⟨rfl, rfl⟩), h.self⟩
      · exact ⟨c, (h.mem d c).mpr (.inr hc), by rw [h.entry c hc.2.1 hc.2.2, he]⟩
  have hdisj : ∀ d d' c, InDir ch d c → InDir ch d' c → d = d' := by
    rintro d d' c ⟨l, hl, hc⟩ ⟨l', hl', hc'⟩
    exact h.lists.disjoint d d' l l' c hl hl' hc hc'
  have hnames : ∀ d a b name oa ob, InDir ch d a → InDir ch d b → fs.entry a = some (name, oa) →
      fs.entry b = some (name, ob) → a = b := by
    rintro d a b name oa ob ⟨l, hl, ha⟩ ⟨l', hl', hb⟩ hea heb
    obtain rfl : l = l' := some.inj (hl.symm.trans hl')
    exact htree.names d l a b name oa ob ((h.lists.children_iff d l).mpr hl) ha hb hea heb
  refine ⟨fun d head hd => ?_, ?_, fun hdiff o ho => ?_, fun d name o h1 h2 => ?_,
    fun d name o ho => ?_⟩
  · obtain ⟨l, hl⟩ := h.lists'.dom d head hd
    obtain ⟨head', hd', hc⟩ := h.lists'.chain d l hl
    obtain rfl : head = head' := some.inj (hd.symm.trans hd')
    exact ⟨l, hc, hc.nodup, fun c hc => h.lists'.live d l c hl hc⟩
  · obtain ⟨l, hl, hnl⟩ := (h.mem Q n).mpr (.inl ⟨rfl, rfl⟩)
    refine ⟨l, n, obj, (h.lists'.children_iff Q l).mpr hl,
      (h.lists.hasEntry_iff P oldLeaf obj).mpr ⟨n, hn, hne⟩, hnl, h.self, fun c hc o he => ?_⟩
    rcases (h.mem Q c).mp ⟨l, hl, hc⟩ with ⟨-, rfl⟩ | ⟨hcQ, hcn, hcd⟩
    · rfl
    · rw [h.entry c hcn hcd] at he
      exact absurd (h.only c o hcQ he) hcd
  · rcases (hiff P oldLeaf o).mp ho with ⟨rfl, rfl, rfl⟩ | ⟨c, ⟨hc, hcn, -⟩, he⟩
    · exact hdiff rfl
    · exact hcn (hnames P c n oldLeaf o obj hc hn he hne)
  · rw [hiff, h.lists.hasEntry_iff]
    constructor
    · rintro (⟨rfl, rfl, rfl⟩ | ⟨c, hc, he⟩)
      · exact absurd rfl h2
      · exact ⟨c, hc.1, he⟩
    · rintro ⟨c, hc, he⟩
      refine .inr ⟨c, ⟨hc, ?_, fun hdst => ?_⟩, he⟩
      · rintro rfl
        rw [hne] at he
        obtain ⟨rfl, -⟩ := Prod.mk.inj (some.inj he)
        exact h1 (by rw [hdisj d P c hc hn])
      · obtain ⟨hcQ, -, o', he'⟩ := h.target c hdst
        rw [he'] at he
        obtain ⟨rfl, -⟩ := Prod.mk.inj (some.inj he)
        exact h2 (by rw [hdisj d Q c hc hcQ])
  · rcases (hiff d name o).mp ho with ⟨-, -, rfl⟩ | ⟨c, hc, he⟩
    · refine h.object n oldLeaf _ hne fun hdst => ?_
      exact (h.target n hdst).2.1 rfl
    · exact h.object c name o he hc.2.2

/-! ### The ways a rename succeeds -/

/-- The three ways `op_rename` succeeds: the entry is renamed to itself, nothing has the new name,
or an entry is replaced. -/
inductive RenameOk (fs fs' : Ramfs) (oldParent : NodeId) (prev : Option NodeId) (n : NodeId)
    (newParent : NodeId) (newLeaf : List UInt8) (newObj : ObjId) :
    Option NodeId × Option NodeId → Prop
  | same (dstPrev : Option NodeId) (h : fs' = fs) :
      RenameOk fs fs' oldParent prev n newParent newLeaf newObj (dstPrev, some n)
  | fresh (dstPrev : Option NodeId) (isDir : Bool)
      (h : fs.moveEntry oldParent prev n newParent newLeaf isDir = some fs') :
      RenameOk fs fs' oldParent prev n newParent newLeaf newObj (dstPrev, none)
  | replace (dstPrev : Option NodeId) (dst : NodeId) (dstNd : RamfsNode) (dstObj : RamfsObject)
      (fs₁ : Ramfs) (isDir : Bool) (hne : dst ≠ n) (hnd : fs.nodes dst = some dstNd)
      (hobj : fs.objs dstNd.obj = some dstObj) (hleaf : dstObj.type = .dir → dstObj.children = none)
      (hrem : fs.removeEntry newObj dstPrev dst dstObj.type = some fs₁)
      (h : fs₁.moveEntry oldParent prev n newParent newLeaf isDir = some fs') :
      RenameOk fs fs' oldParent prev n newParent newLeaf newObj (dstPrev, some dst)

private theorem renameEntry_ok {oldParent newParent : NodeId} {oldNd newNd : RamfsNode}
    {oldObj newObj : RamfsObject}
    (hold : fs.nodes oldParent = some oldNd) (holdObj : fs.objs oldNd.obj = some oldObj)
    (hnew : fs.nodes newParent = some newNd) (hnewObj : fs.objs newNd.obj = some newObj)
    (h : fs.renameEntry oldParent oldLeaf newParent newLeaf = some (.ok, fs')) :
    ∃ prev n r, fs.findWithPrev oldLeaf (fs.nodeTop + 1) none oldObj.children =
      some (prev, some n) ∧ fs.findWithPrev newLeaf (fs.nodeTop + 1) none newObj.children = some r ∧
      RenameOk fs fs' oldParent prev n newParent newLeaf newNd.obj r := by
  simp only [renameEntry, hold, holdObj, hnew, hnewObj, bind_eq_bind,
    bind_some, bind_eq_some_iff] at h
  obtain ⟨⟨prev, r⟩, hfind, h⟩ := h
  cases r with
  | none => simp at h
  | some n =>
    simp only [bind_eq_some_iff] at h
    obtain ⟨nType, -, inside, -, h⟩ := h
    split at h
    · simp at h
    obtain ⟨⟨dstPrev, r⟩, hfind', h⟩ := bind_eq_some_iff.mp h
    -- the new name is free, or names the same node, or another one
    refine ⟨prev, n, (dstPrev, r), hfind, hfind', ?_⟩
    cases r with
    | none =>
      simp only at h
      split at h
      · simp at h
      obtain ⟨fs₂, hmove, h⟩ := bind_eq_some_iff.mp h
      obtain ⟨-, rfl⟩ := Prod.mk.inj (some.inj h)
      exact .fresh dstPrev _ hmove
    | some dst =>
      simp only at h
      split at h
      · rename_i heq
        obtain ⟨-, rfl⟩ := Prod.mk.inj (some.inj h)
        subst heq
        exact .same dstPrev rfl
      rename_i hne
      obtain ⟨dstNd, hnd, h⟩ := bind_eq_some_iff.mp h
      obtain ⟨dstObj, hobj, h⟩ := bind_eq_some_iff.mp h
      split at h
      · simp at h
      split at h
      · simp at h
      split at h
      · simp at h
      rename_i hleaf
      obtain ⟨fs₁, hrem, h⟩ := bind_eq_some_iff.mp h
      obtain ⟨fs₂, hmove, h⟩ := bind_eq_some_iff.mp h
      obtain ⟨-, rfl⟩ := Prod.mk.inj (some.inj h)
      refine .replace dstPrev dst dstNd dstObj fs₁ _ hne hnd hobj (fun htype => ?_) hrem hmove
      simpa [htype] using hleaf

private theorem opRename_ok (h : fs.opRename oldPath newPath = some (.ok, fs')) :
    ∃ p oldLeaf q newLeaf, fs.resolveParent oldPath = some (.ok (p, oldLeaf)) ∧
      fs.resolveParent newPath = some (.ok (q, newLeaf)) ∧
      fs.renameEntry p oldLeaf q newLeaf = some (.ok, fs') := by
  obtain ⟨r, hr, h⟩ := bind_eq_some_iff.mp h
  cases r with
  | error st =>
    obtain ⟨rfl, -⟩ := Prod.mk.inj (some.inj h)
    exact absurd hr (resolveParent_ne_ok fs oldPath)
  | ok r =>
    obtain ⟨r', hr', h⟩ := bind_eq_some_iff.mp h
    cases r' with
    | error st =>
      obtain ⟨rfl, -⟩ := Prod.mk.inj (some.inj h)
      exact absurd hr' (resolveParent_ne_ok fs newPath)
    | ok r' => exact ⟨r.1, r.2, r'.1, r'.2, hr, hr', h⟩

/-! ### Renaming as a whole -/

/-- A call of `op_rename` behind the resolution of its paths: the directories `P` and `Q`, their
lists, and the entry to rename behind `prev`. -/
structure RenameCall (fs : Ramfs) (ch : ObjId → Option (List NodeId)) (oldParent newParent : NodeId)
    (oldLeaf newLeaf : List UInt8) (oldNd newNd : RamfsNode) (l₁ l₂ lQ : List NodeId) (n : NodeId)
    (obj : ObjId) : Prop where
  tree : fs.Tree
  lists : DirLists fs ch
  old : fs.nodes oldParent = some oldNd
  new : fs.nodes newParent = some newNd
  oldList : ch oldNd.obj = some (l₁ ++ n :: l₂)
  newList : ch newNd.obj = some lQ
  source : fs.entry n = some (oldLeaf, obj)
  leaf : newLeaf.length < Path.nameMax

namespace RenameCall

variable {fs fs' fs₁ : Ramfs} {ch ch₁ : ObjId → Option (List NodeId)}
  {oldParent newParent n dst : NodeId} {oldLeaf newLeaf : List UInt8} {oldNd newNd : RamfsNode}
  {l₁ l₂ lQ k₁ k₂ : List NodeId} {obj o : ObjId} {isDir : Bool}
  (h : RenameCall fs ch oldParent newParent oldLeaf newLeaf oldNd newNd l₁ l₂ lQ n obj)
include h

private theorem entry_obj_live {c : NodeId} {name : List UInt8} (he : fs.entry c = some (name, o)) :
    ∃ nd ob, fs.nodes c = some nd ∧ nd.obj = o ∧ fs.objs o = some ob := by
  obtain ⟨nd, hnd, heq⟩ := map_eq_some_iff.mp he
  obtain ⟨ob, hob⟩ := isSome_iff_exists.mp (h.tree.objLive c nd hnd)
  exact ⟨nd, ob, hnd, (Prod.mk.inj heq).2, (Prod.mk.inj heq).2 ▸ hob⟩

/-- Nothing has the new name: the entry moves. -/
theorem fresh (hnone : ∀ c ∈ lQ, ∀ o, fs.entry c ≠ some (newLeaf, o))
    (hmove : fs.moveEntry oldParent l₁.getLast? n newParent newLeaf isDir = some fs') :
    RenamePost fs fs' oldNd.obj oldLeaf newNd.obj newLeaf := by
  obtain ⟨nd, ob, hnd, hobj, -⟩ := h.entry_obj_live h.source
  obtain ⟨ch', hl', hmem⟩ := moveEntry_members h.lists h.old h.new h.oldList h.newList hmove
  have hmoved := moveEntry_moved hnd h.old h.new h.leaf hmove
  rw [hobj] at hmoved
  have hre : Rearranged fs fs' ch ch' oldNd.obj newNd.obj n none oldLeaf newLeaf obj := by
    refine ⟨h.lists, hl', ⟨⟨_, h.oldList, by simp⟩, h.source⟩, nofun, ?_, fun d c => ?_,
      fun c hc _ => hmoved.entry c hc, hmoved.self, fun c name o he _ => ?_⟩
    · rintro c o ⟨l, hl, hc⟩ he
      obtain rfl := some.inj (h.newList.symm.trans hl)
      exact absurd he (hnone c hc o)
    · simp [hmem]
    · obtain ⟨-, ob', -, -, hob'⟩ := h.entry_obj_live he
      have htype := hmoved.type o
      rw [hob'] at htype
      rw [← isSome_map, htype]
      rfl
  exact hre.renamePost h.tree

/-- The state between the two halves of a rename that replaces the entry `dst`. -/
structure Between (fs fs₁ : Ramfs) (ch ch₁ : ObjId → Option (List NodeId))
    (oldParent newParent : NodeId)
    (oldNd newNd : RamfsNode) (dst : NodeId) (m₁ m₂ : List NodeId) : Prop where
  lists : DirLists fs₁ ch₁
  mem : ∀ d c, InDir ch₁ d c ↔ InDir ch d c ∧ c ≠ dst
  old : ∃ nd, fs₁.nodes oldParent = some nd ∧ nd.obj = oldNd.obj
  new : ∃ nd, fs₁.nodes newParent = some nd ∧ nd.obj = newNd.obj
  newList : ch₁ newNd.obj = some (m₁ ++ m₂)
  otherList : oldNd.obj ≠ newNd.obj → ch₁ oldNd.obj = ch oldNd.obj

theorem between (hlQ : lQ = m₁ ++ dst :: m₂) (hnd : fs.nodes dst = some dstNd)
    (hobj : fs.objs dstNd.obj = some dstObj) (hleaf : dstObj.type = .dir → dstObj.children = none)
    (hrem : fs.removeEntry newNd.obj m₁.getLast? dst dstObj.type = some fs₁) :
    Removed fs fs₁ dst dstNd.obj dstObj ∧
      ∃ ch₁, Between fs fs₁ ch ch₁ oldParent newParent oldNd newNd dst m₁ m₂ := by
  have hQ := h.newList
  rw [hlQ] at hQ
  obtain ⟨hremoved, hl₁⟩ := removeEntry_spec h.lists hQ hnd hobj hleaf hrem
  -- the list of a replaced directory is empty, so it is neither `P` nor `Q`
  have hempty : dstObj.type = .dir → ch dstNd.obj = some [] := by
    intro htype
    have hhead : fs.dirHead dstNd.obj = some none :=
      dirHead_eq_some_iff.mpr ⟨dstObj, hobj, htype, hleaf htype⟩
    obtain ⟨l, hl⟩ := h.lists.dom _ _ hhead
    obtain ⟨head, hhead', hc⟩ := h.lists.chain _ _ hl
    obtain rfl := some.inj (hhead.symm.trans hhead')
    have hnil : Chain fs.next none [] := rfl
    rw [hl, hc.unique hnil]
  have hdir : ∀ d l, ch d = some l → fs.dirHead d ≠ none := by
    intro d l hl hnone
    obtain ⟨head, hhead, -⟩ := h.lists.chain d l hl
    simp [hnone] at hhead
  have hneList : ∀ d l a l', ch d = some (l ++ a :: l') → dstNd.obj ≠ d := by
    rintro d l a l' hd rfl
    by_cases htype : dstObj.type = .dir
    · have hnil := some.inj (hd.symm.trans (hempty htype))
      simp at hnil
    · refine hdir _ _ hd ?_
      rw [dirHead, hobj, bind_some, if_neg htype]
  have hneP := hneList _ _ _ _ h.oldList
  have hneQ := hneList _ _ _ _ hQ
  have hnode : ∀ p nd, fs.nodes p = some nd → dstNd.obj ≠ nd.obj →
      ∃ nd', fs₁.nodes p = some nd' ∧ nd'.obj = nd.obj := by
    intro p nd hp hne
    have hpd : p ≠ dst := by
      rintro rfl
      exact hne (congrArg RamfsNode.obj (some.inj (hnd.symm.trans hp)))
    have he := hremoved.entry p hpd
    rw [entry, entry, hp, map_some] at he
    obtain ⟨nd', hnd', heq⟩ := map_eq_some_iff.mp he
    exact ⟨nd', hnd', (Prod.mk.inj heq).2⟩
  refine ⟨hremoved, _, hl₁, fun d c => ?_, hnode _ _ h.old hneP, hnode _ _ h.new hneQ, ?_,
    fun hne => ?_⟩
  · rw [← inDir_remove h.lists hQ]
    split
    · rename_i htype
      exact inDir_drop (by rw [Function.update_of_ne hneQ, hempty htype]) d c
    · rfl
  · split
    · rw [Function.update_of_ne hneQ.symm, Function.update_self]
    · rw [Function.update_self]
  · split
    · rw [Function.update_of_ne hneP.symm, Function.update_of_ne hne]
    · rw [Function.update_of_ne hne]

/-- An entry was replaced and the entry to rename still has its captured predecessor. -/
theorem replace (hdst : dst ∈ lQ) (hne : dst ≠ n) (hentry : fs.entry dst = some (newLeaf, o))
    (hnd : fs.nodes dst = some dstNd) (hobj : fs.objs dstNd.obj = some dstObj)
    (hrem : Removed fs fs₁ dst dstNd.obj dstObj)
    (hb : Between fs fs₁ ch ch₁ oldParent newParent oldNd newNd dst m₁ m₂)
    (hk : ch₁ oldNd.obj = some (k₁ ++ n :: k₂))
    (hmove : fs₁.moveEntry oldParent k₁.getLast? n newParent newLeaf isDir = some fs') :
    RenamePost fs fs' oldNd.obj oldLeaf newNd.obj newLeaf := by
  obtain ⟨oldNd₁, hold₁, holdObj₁⟩ := hb.old
  obtain ⟨newNd₁, hnew₁, hnewObj₁⟩ := hb.new
  have he₁ : fs₁.entry n = some (oldLeaf, obj) := by rw [hrem.entry n hne.symm, h.source]
  obtain ⟨nd₁, hn₁, heq₁⟩ := map_eq_some_iff.mp he₁
  obtain ⟨-, hobj₁⟩ := Prod.mk.inj heq₁
  rw [← holdObj₁] at hk
  have hQ := hb.newList
  rw [← hnewObj₁] at hQ
  obtain ⟨ch', hl', hmem⟩ := moveEntry_members hb.lists hold₁ hnew₁ hk hQ hmove
  have hmoved := moveEntry_moved hn₁ hold₁ hnew₁ h.leaf hmove
  rw [hobj₁] at hmoved
  rw [hnewObj₁] at hmem
  have hre : Rearranged fs fs' ch ch' oldNd.obj newNd.obj n (some dst) oldLeaf newLeaf obj := by
    refine ⟨h.lists, hl', ⟨⟨_, h.oldList, by simp⟩, h.source⟩, ?_, ?_, fun d c => ?_, ?_,
      hmoved.self, ?_⟩
    · rintro c hc
      obtain rfl := some.inj hc
      exact ⟨⟨lQ, h.newList, hdst⟩, hne, o, hentry⟩
    · rintro c o' ⟨l, hl, hc⟩ he
      obtain rfl := some.inj (h.newList.symm.trans hl)
      have hchildren := (h.lists.children_iff _ _).mpr hl
      rw [h.tree.names _ _ dst c newLeaf o o' hchildren hdst hc hentry he]
    · rw [hmem, hb.mem]
      simp only [ne_eq, some.injEq, and_assoc, eq_comm, and_comm]
    · intro c hcn hcd
      have hcd' : c ≠ dst := by rintro rfl; exact hcd rfl
      rw [hmoved.entry c hcn, hrem.entry c hcd']
    · intro c name o' he hcd
      have hcd' : c ≠ dst := by rintro rfl; exact hcd rfl
      obtain ⟨cnd, ob', hcnd, hco, hob'⟩ := h.entry_obj_live he
      -- the replaced object survives when `c` is another link to it
      have htype : (fs₁.objs o').map RamfsObject.type = some ob'.type := by
        by_cases hoo : o' = dstNd.obj
        · subst hoo
          obtain rfl : dstObj = ob' := some.inj (hobj.symm.trans hob')
          rcases h.tree.shared dst c dstNd cnd dstObj hnd hcnd hco.symm hobj with heq | ⟨ht, hlt⟩
          · exact absurd heq.symm hcd'
          · exact hrem.kept ht hlt
        · rw [hrem.type o' hoo, hob']
          rfl
      rw [← isSome_map, hmoved.type, htype]
      rfl
  exact hre.renamePost h.tree

omit h in
/-- The replaced entry was the captured predecessor: the list of the directory closes. -/
theorem Between.replace_loop (hb : Between fs fs₁ ch ch₁ oldParent newParent oldNd newNd dst m₁ m₂)
    (hsame : oldNd.obj = newNd.obj) (hrem : Removed fs fs₁ dst dstNd.obj dstObj)
    (hk : ch₁ oldNd.obj = some (k₁ ++ n :: k₂))
    (hmove : fs₁.moveEntry oldParent (some dst) n newParent newLeaf isDir = some fs') :
    ¬RenamePost fs fs' oldNd.obj oldLeaf newNd.obj newLeaf := by
  obtain ⟨oldNd₁, hold₁, holdObj₁⟩ := hb.old
  obtain ⟨newNd₁, hnew₁, hnewObj₁⟩ := hb.new
  intro hpost
  obtain ⟨l, c, o, hl, -⟩ := hpost.renamed
  have hsame₁ : oldNd₁.obj = newNd₁.obj := by rw [holdObj₁, hnewObj₁, hsame]
  rw [← holdObj₁] at hk
  refine moveEntry_loop hb.lists hold₁ hnew₁ hsame₁ hk hrem.gone hmove l ?_
  rw [hnewObj₁]
  exact hl

/-- Whether the entry with the new name comes directly before the entry to rename, read off the
lists of a call. -/
theorem replacesPredecessor_iff (hold : NamesEntry fs oldPath oldNd.obj oldLeaf)
    (hnew : NamesEntry fs newPath newNd.obj newLeaf) :
    ReplacesPredecessor fs oldPath newPath ↔ oldNd.obj = newNd.obj ∧
      ∃ k x o, l₁ = k ++ [x] ∧ fs.entry x = some (newLeaf, o) := by
  have hP := (h.lists.children_iff _ _).mpr h.oldList
  constructor
  · rintro ⟨d, leaf, leaf', k₁, k₂, x, n', ox, on, hd, hd', hc, hx, hn'⟩
    obtain ⟨rfl, rfl⟩ := hold.unique hd
    obtain ⟨hsame, rfl⟩ := hnew.unique hd'
    have hlist : l₁ ++ n :: l₂ = k₁ ++ x :: n' :: k₂ :=
      some.inj (h.oldList.symm.trans ((h.lists.children_iff _ _).mp hc))
    have hn : n = n' := by
      refine h.tree.names _ _ n n' oldLeaf obj on hc ?_ (by simp) h.source hn'
      rw [← hlist]
      simp
    subst hn
    have hnodup := h.lists.nodup h.oldList
    refine ⟨hsame.symm, k₁, x, ox, ?_, hx⟩
    have hlist' : l₁ ++ n :: l₂ = (k₁ ++ [x]) ++ n :: k₂ := by simp [hlist]
    rcases append_cons_eq_append_cons hlist' with ⟨h1, -, -⟩ | ⟨t, rfl, -⟩ | ⟨t, h1, -⟩
    · exact h1
    · exact absurd hnodup (by simp [nodup_append])
    · rw [hlist', h1] at hnodup
      exact absurd hnodup (by simp [nodup_append])
  · rintro ⟨hsame, k, x, o, rfl, hx⟩
    refine ⟨oldNd.obj, oldLeaf, newLeaf, k, l₂, x, n, o, obj, hold, hsame ▸ hnew, ?_, hx, h.source⟩
    simpa using hP

/-- Renaming an entry to itself changes nothing, which is what was asked for. -/
theorem same (hdir : oldNd.obj = newNd.obj) (hleaf : oldLeaf = newLeaf) :
    RenamePost fs fs oldNd.obj oldLeaf newNd.obj newLeaf := by
  rw [← hdir, ← hleaf]
  have hP := (h.lists.children_iff _ _).mpr h.oldList
  have hmem : n ∈ l₁ ++ n :: l₂ := by simp
  refine ⟨fun d head hd => ?_, ?_, fun hne => absurd rfl hne, fun _ _ _ _ _ => Iff.rfl, ?_⟩
  · obtain ⟨l, hl, hlive⟩ := h.tree.finite d head hd
    exact ⟨l, hl, hl.nodup, hlive⟩
  · refine ⟨_, n, obj, hP, ⟨_, hP, n, hmem, h.source⟩, hmem, h.source, fun c hc o he => ?_⟩
    exact h.tree.names _ _ c n oldLeaf o obj hP hc hmem he h.source
  · rintro d name o ⟨l, -, c, -, he⟩
    obtain ⟨-, ob, -, -, hob⟩ := h.entry_obj_live he
    rw [hob]
    rfl

/-- The entry in front of `n` has the new name, in the directory of `n`. -/
def PredecessorReplaced (fs : Ramfs) (P Q : ObjId) (l₁ : List NodeId) (newLeaf : List UInt8) :
    Prop :=
  P = Q ∧ ∃ k x o, l₁ = k ++ [x] ∧ fs.entry x = some (newLeaf, o)

/-- The entry with the new name is the only one, and `n` comes once: a predecessor with the new
name is `dst`, and stands in front of `n` in the list of `dst`. -/
theorem eq_of_predecessorReplaced (hpred : PredecessorReplaced fs oldNd.obj newNd.obj l₁ newLeaf) :
    lQ = l₁ ++ n :: l₂ ∧ ∃ k x o, l₁ = k ++ [x] ∧ x ∈ lQ ∧ x ≠ n ∧
      fs.entry x = some (newLeaf, o) := by
  obtain ⟨hsame, k, x, o, rfl, hx⟩ := hpred
  have hlist : lQ = k ++ [x] ++ n :: l₂ := by
    have hP := h.oldList
    rw [hsame] at hP
    exact some.inj (h.newList.symm.trans hP)
  refine ⟨hlist, k, x, o, rfl, by simp [hlist], ?_, hx⟩
  rintro rfl
  have hnodup := h.lists.nodup h.oldList
  simp [nodup_append] at hnodup

private theorem renamePost_iff {r : Option NodeId × Option NodeId} {fuel : Nat}
    {head : Option NodeId}
    (hhead : Chain fs.next head lQ) (hfind : fs.findWithPrev newLeaf fuel none head = some r)
    (hok : RenameOk fs fs' oldParent l₁.getLast? n newParent newLeaf newNd.obj r) :
    RenamePost fs fs' oldNd.obj oldLeaf newNd.obj newLeaf ↔
      ¬PredecessorReplaced fs oldNd.obj newNd.obj l₁ newLeaf := by
  have hQ := (h.lists.children_iff _ _).mpr h.newList
  have hdisj := h.lists.disjoint oldNd.obj newNd.obj _ _ n h.oldList h.newList (by simp)
  cases hok with
  | same dstPrev heq =>
    subst heq
    -- `n` was found under the new name, so the two names are one entry
    rcases findWithPrev_spec hhead hfind with ⟨hr, -⟩ | ⟨c, m₁, m₂, o, hr, hlQ, he, -⟩
    · simp at hr
    obtain rfl := some.inj hr
    have hmem : n ∈ lQ := by simp [hlQ]
    obtain ⟨hleaf, -⟩ := Prod.mk.inj (some.inj (h.source.symm.trans he))
    refine iff_of_true (h.same (hdisj hmem) hleaf) fun hpred => ?_
    obtain ⟨-, k, x, o', -, hx, hxn, hex⟩ := h.eq_of_predecessorReplaced hpred
    exact hxn (h.tree.names _ _ x n newLeaf o' o hQ hx hmem hex he)
  | fresh dstPrev isDir hmove =>
    rcases findWithPrev_spec hhead hfind with ⟨-, hnone⟩ | ⟨c, m₁, m₂, o, hr, -⟩
    · refine iff_of_true (h.fresh hnone hmove) fun hpred => ?_
      obtain ⟨-, k, x, o', -, hx, -, hex⟩ := h.eq_of_predecessorReplaced hpred
      exact hnone x hx o' hex
    · simp at hr
  | replace dstPrev dst dstNd dstObj fs₁ isDir hne hnd hobj hleaf hrem hmove =>
    rcases findWithPrev_spec hhead hfind with ⟨hr, -⟩ | ⟨c, m₁, m₂, o, hr, hlQ, he, hprev⟩
    · simp at hr
    obtain rfl := some.inj hr
    rw [or_none] at hprev
    subst hprev
    obtain ⟨hremoved, ch₁, hb⟩ := h.between hlQ hnd hobj hleaf hrem
    have hmem : dst ∈ lQ := by simp [hlQ]
    have hone : ∀ x ∈ lQ, ∀ o', fs.entry x = some (newLeaf, o') → x = dst := fun x hx o' hex =>
      h.tree.names _ _ x dst newLeaf o' o hQ hx hmem hex he
    by_cases hsame : oldNd.obj = newNd.obj
    · have hlist : l₁ ++ n :: l₂ = m₁ ++ dst :: m₂ := by
        have hP := h.oldList
        rw [hsame, h.newList, hlQ] at hP
        exact (some.inj hP).symm
      have hnodup := h.lists.nodup h.newList
      have hk := hb.newList
      rw [← hsame] at hk
      rcases append_cons_eq_append_cons hlist with ⟨-, heq, -⟩ | ⟨t, h1, h2⟩ | ⟨t, h1, h2⟩
      · exact absurd heq.symm hne
      · -- `dst` comes before `n`
        rw [h2, ← append_assoc] at hk
        cases t with
        | nil =>
          rw [h1, getLast?_concat] at hmove
          exact iff_of_false (hb.replace_loop hsame hremoved hk hmove)
            (not_not_intro ⟨hsame, m₁, dst, o, h1, he⟩)
        | cons a t =>
          have hlast : l₁.getLast? = (m₁ ++ a :: t).getLast? := by
            rw [h1, getLast?_append, getLast?_append, getLast?_cons_cons]
          rw [hlast] at hmove
          refine iff_of_true (h.replace hmem hne he hnd hobj hremoved hb hk hmove) fun hpred => ?_
          obtain ⟨-, k, x, o', hl₁, hx, -, hex⟩ := h.eq_of_predecessorReplaced hpred
          obtain rfl := hone x hx o' hex
          have hagain : x ∈ a :: t := by
            refine mem_of_getLast? ?_
            rw [← getLast?_cons_cons, ← getLast?_append_cons m₁, ← h1, hl₁, getLast?_concat]
          rw [hlQ, h2] at hnodup
          have htail := (nodup_append.mp hnodup).2.1
          exact (nodup_cons.mp htail).1 (mem_append_left _ hagain)
      · -- `dst` comes behind `n`
        rw [h1, append_assoc, cons_append] at hk
        refine iff_of_true (h.replace hmem hne he hnd hobj hremoved hb hk hmove) fun hpred => ?_
        obtain ⟨-, k, x, o', hl₁, hx, -, hex⟩ := h.eq_of_predecessorReplaced hpred
        obtain rfl := hone x hx o' hex
        rw [hlQ, h1, hl₁] at hnodup
        simp [nodup_append] at hnodup
    · have hk := (hb.otherList hsame).trans h.oldList
      exact iff_of_true (h.replace hmem hne he hnd hobj hremoved hb hk hmove)
        fun hpred => hsame hpred.1

end RenameCall


/-- A successful `op_rename` has its effect exactly when the entry it replaces does not come
directly before the renamed one in the same directory.  In that case `prev` still points to the
replaced entry when the renamed one is linked past it. -/
theorem opRename_renamed_iff {fs fs' : Ramfs} {oldPath newPath : List UInt8} (htree : fs.Tree)
    (h : fs.opRename oldPath newPath = some (.ok, fs')) :
    Renamed fs fs' oldPath newPath ↔ ¬ReplacesPredecessor fs oldPath newPath := by
  obtain ⟨p, oldLeaf, q, newLeaf, hp, hq, h⟩ := opRename_ok h
  obtain ⟨ch, hl⟩ := exists_dirLists htree
  obtain ⟨oldNd, oldObj, lP, hold, holdObj, hlP, hcP, hnamesP⟩ := resolveParent_dir hl hp
  obtain ⟨newNd, newObj, lQ, hnew, hnewObj, hlQ, hcQ, hnamesQ⟩ := resolveParent_dir hl hq
  obtain ⟨prev, n, r, hfind, hfind', hok⟩ := renameEntry_ok hold holdObj hnew hnewObj h
  rcases findWithPrev_spec hcP hfind with ⟨hr, -⟩ | ⟨c, l₁, l₂, obj, hr, rfl, he, hprev⟩
  · simp at hr
  obtain rfl := some.inj hr
  rw [or_none] at hprev
  subst hprev
  obtain ⟨parentPath, hsplit, -, -⟩ := resolveParent_ok hq
  have hcall : RenameCall fs ch p q oldLeaf newLeaf oldNd newNd l₁ l₂ lQ n obj :=
    ⟨htree, hl, hold, hnew, hlP, hlQ, he, splitParent_ok hsplit⟩
  rw [hcall.replacesPredecessor_iff hnamesP hnamesQ, ← RenameCall.PredecessorReplaced,
    ← hcall.renamePost_iff hcQ hfind' hok]
  constructor
  · rintro ⟨P, oldLeaf', Q, newLeaf', hP, hQ, hpost⟩
    obtain ⟨rfl, rfl⟩ := hP.unique hnamesP
    obtain ⟨rfl, rfl⟩ := hQ.unique hnamesQ
    exact hpost
  · exact fun hpost => ⟨_, _, _, _, hnamesP, hnamesQ, hpost⟩


/-- A root directory in which the empty files `a` and then `b` were created. -/
def abTree : Ramfs where
  root := 0
  nextInode := 4
  nodeCount := 3
  maxNodes := maxNodesDefault
  bytesUsed := 0
  maxBytes := maxTotalBytes
  nodes
    | 0 => some { name := [0x2f], obj := 0, parent := none, next := none }
    | 1 => some { name := [0x61], obj := 1, parent := some 0, next := none }
    | 2 => some { name := [0x62], obj := 2, parent := some 0, next := some 1 }
    | _ => none
  objs
    | 0 =>
      some { type := .dir, inode := 1, mode := 0o755, nlink := 2, uid := 0, gid := 0, data := [],
                  size := 0, capacity := 0, children := some 2 }
    | 1 => some { type := .file, inode := 2, mode := 0o644, nlink := 1, uid := 0, gid := 0,
                  data := [], size := 0, capacity := 0, children := none }
    | 2 => some { type := .file, inode := 3, mode := 0o644, nlink := 1, uid := 0, gid := 0,
                  data := [], size := 0, capacity := 0, children := none }
    | _ => none
  nodeTop := 3
  objTop := 3
  kmem := []

private theorem abTree_children {d : ObjId} {l : List NodeId} (h : abTree.Children d l) :
    d = 0 ∧ l = [2, 1] := by
  obtain ⟨head, hhead, hl⟩ := h
  rcases d with _ | _ | _ | d
  · obtain rfl := some.inj hhead
    exact ⟨rfl, hl.unique ⟨rfl, rfl, rfl⟩⟩
  all_goals simp [dirHead, abTree] at hhead

private theorem abTree_nodes {n : NodeId} {nd : RamfsNode} (h : abTree.nodes n = some nd) :
    n ∈ [0, 1, 2] := by
  rcases n with _ | _ | _ | n
  · decide
  · decide
  · decide
  · simp [abTree] at h

private theorem abTree_tree : abTree.Tree where
  finite d head h := by
    rcases d with _ | _ | _ | d
    · obtain rfl := some.inj h
      exact ⟨[2, 1], ⟨rfl, rfl, rfl⟩, by decide⟩
    all_goals simp [dirHead, abTree] at h
  disjoint d d' l l' c h h' _ _ := (abTree_children h).1.trans (abTree_children h').1.symm
  names d l a b name oa ob h ha hb hea heb := by
    obtain ⟨-, rfl⟩ := abTree_children h
    have hdec : ∀ a ∈ [2, 1], ∀ b ∈ [2, 1],
        (abTree.entry a).map Prod.fst = (abTree.entry b).map Prod.fst → a = b := by decide
    exact hdec a ha b hb (by rw [hea, heb]; rfl)
  objLive n nd h := by
    have hlive : ∀ n ∈ [0, 1, 2], ∀ nd ∈ abTree.nodes n, (abTree.objs nd.obj).isSome := by decide
    exact hlive n (abTree_nodes h) nd h
  shared a b nda ndb o ha hb hobj ho := by
    have hdec : ∀ a ∈ [0, 1, 2], ∀ b ∈ [0, 1, 2],
        (abTree.nodes a).map RamfsNode.obj = (abTree.nodes b).map RamfsNode.obj → a = b := by decide
    exact .inl (hdec a (abTree_nodes ha) b (abTree_nodes hb)
      (by rw [ha, hb]; exact congrArg some hobj))

/-- Renaming `/b` over `/a`, which comes behind it. -/
theorem opRename_renamed_b_to_a : ∃ fs', abTree.Tree ∧
    abTree.opRename [0x2f, 0x62] [0x2f, 0x61] = some (.ok, fs') ∧
    Renamed abTree fs' [0x2f, 0x62] [0x2f, 0x61] := by
  have hok : (abTree.opRename [0x2f, 0x62] [0x2f, 0x61]).map Prod.fst = some VfsStatus.ok := by
    decide
  obtain ⟨⟨st, fs'⟩, h, hst⟩ := map_eq_some_iff.mp hok
  subst hst
  refine ⟨fs', abTree_tree, h, (opRename_renamed_iff abTree_tree h).mpr ?_⟩
  rintro ⟨d, oldLeaf, newLeaf, l₁, l₂, x, n, ox, on, ⟨p, nd, hold, -, -⟩, -, hc, -, hn⟩
  have hleaf : abTree.resolveParent [0x2f, 0x62] = some (.ok (0, [0x62])) := rfl
  obtain ⟨-, rfl⟩ := Prod.mk.inj (Except.ok.inj (some.inj (hleaf.symm.trans hold)))
  obtain ⟨-, hl⟩ := abTree_children hc
  -- the entry behind `b` is `a`
  match l₁ with
  | [] =>
    obtain ⟨-, rfl, -⟩ := hl
    exact absurd hn (by simp [entry, abTree])
  | _ :: l₁ =>
    have hlen := congrArg length hl
    simp only [length_append, length_cons, length_nil] at hlen
    omega

/-- Renaming `/a` over `/b`, which comes directly before it, succeeds, and the root directory is
then a list that does not end. -/
theorem opRename_a_to_b_loops : ∃ fs', abTree.Tree ∧
    abTree.opRename [0x2f, 0x61] [0x2f, 0x62] = some (.ok, fs') ∧
    ¬Renamed abTree fs' [0x2f, 0x61] [0x2f, 0x62] := by
  have hrun : (abTree.opRename [0x2f, 0x61] [0x2f, 0x62]).map
      (fun r => (r.1, r.2.dirHead 0, r.2.next 1)) = some (VfsStatus.ok, some (some 1), some 1) := by
    decide
  obtain ⟨⟨st, fs'⟩, h, hr⟩ := map_eq_some_iff.mp hrun
  simp only [Prod.mk.injEq] at hr
  obtain ⟨rfl, hhead, hnext⟩ := hr
  refine ⟨fs', abTree_tree, h, ?_⟩
  rintro ⟨P, oldLeaf, Q, newLeaf, -, -, hpost⟩
  obtain ⟨l, hl, -⟩ := hpost.lists 0 (some 1) hhead
  exact Seg.not_chain (l := []) ⟨rfl, by rw [hnext]; rfl⟩ l hl

end Rabbitbone.Spec
