import Rabbitbone.Spec.RamfsTree

/-!
# Removing and moving entries

The two halves of `op_rename` on the lists of the directories: taking out the entry with the new
name (`removeEntry`, also the end of `op_unlink`) and moving the renamed entry to the front of its
new directory (`moveEntry`).

## Key results

- `removeEntry_spec`: the entry leaves its list and nothing else changes.
- `moveEntry_members`: an entry taken out behind its predecessor moves to its new directory.
- `moveEntry_loop`: an entry taken out behind a freed cell stays in its list, which then does not
  end.
-/

namespace Rabbitbone.Native.Ramfs

open LinkedList Option

/-- The state `op_rename` attaches the renamed entry in, given the state `fs` in which its old place
has been linked past. -/
def beforeAttach (fs : Ramfs) (oldObj newObj : ObjId) (n : NodeId) (name : List UInt8)
    (cross : Bool) : Ramfs :=
  (if cross then
      (fs.setObj oldObj fun o =>
        { o with nlink := if 0 < o.nlink then o.nlink - 1 else o.nlink }).setObj newObj fun o =>
        { o with nlink := o.nlink + 1 }
    else fs).setNode n fun nd => { nd with next := none, name := name }

variable {fs fs' : Ramfs} {dir x n : NodeId} {oldObj newObj : ObjId} {name : List UInt8}
  {cross : Bool}

/-- A node is attached as the first child. -/
private theorem attachChild_eq (h : fs.attachChild dir x = some fs') :
    ∃ nd o, fs.nodes dir = some nd ∧ fs.objs nd.obj = some o ∧
      fs' = (fs.setNode x fun nd => { nd with parent := some dir, next := o.children }).setObj
        nd.obj fun o => { o with children := some x } := by
  cases hdir : fs.nodes dir with
  | none => simp [attachChild, hdir] at h
  | some nd =>
    cases ho : fs.objs nd.obj with
    | none => simp [attachChild, hdir, ho] at h
    | some o =>
      simp only [attachChild, hdir, ho, bind_eq_bind, bind_some] at h
      exact ⟨nd, o, rfl, ho, (some.inj h).symm⟩

private theorem attachChild_entry (h : fs.attachChild dir x = some fs') : fs'.entry = fs.entry := by
  obtain ⟨nd, o, -, -, rfl⟩ := attachChild_eq h
  exact entry_setNode fun _ => ⟨rfl, rfl⟩

private theorem attachChild_type (h : fs.attachChild dir x = some fs') (m : ObjId) :
    (fs'.objs m).map RamfsObject.type = (fs.objs m).map RamfsObject.type := by
  obtain ⟨nd, o, -, -, rfl⟩ := attachChild_eq h
  exact type_setObj (fun _ => by rfl) m

private theorem beforeAttach_objs_type (fs : Ramfs) (oldObj newObj : ObjId) (n : NodeId)
    (name : List UInt8) (cross : Bool) (m : ObjId) :
    ((beforeAttach fs oldObj newObj n name cross).objs m).map RamfsObject.type
      = (fs.objs m).map RamfsObject.type := by
  unfold beforeAttach
  split
  · exact (type_setObj (fun _ => by rfl) m).trans (type_setObj (fun _ => by rfl) m)
  · rfl

private theorem beforeAttach_entry_ne {m : NodeId} (h : m ≠ n) :
    (beforeAttach fs oldObj newObj n name cross).entry m = fs.entry m := by
  rw [entry, beforeAttach, setNode_nodes_ne h, entry]
  split <;> rfl

private theorem beforeAttach_nodes_self : (beforeAttach fs oldObj newObj n name cross).nodes n
      = (fs.nodes n).map fun nd => { nd with next := none, name := name } := by
  rw [beforeAttach, setNode_nodes_self]
  split <;> rfl

private theorem beforeAttach_obj (fs : Ramfs) (oldObj newObj : ObjId) (n : NodeId)
    (name : List UInt8)
    (cross : Bool) (m : NodeId) : ((beforeAttach fs oldObj newObj n name cross).nodes m).map
      RamfsNode.obj = (fs.nodes m).map RamfsNode.obj := by
  by_cases h : m = n
  · subst h
    rw [beforeAttach_nodes_self, map_map]
    rfl
  · rw [beforeAttach, setNode_nodes_ne h]
    split <;> rfl

/-- Before it is attached, no list has changed its head. -/
private theorem beforeAttach_dirHead (fs : Ramfs) (oldObj newObj : ObjId) (n : NodeId)
    (name : List UInt8) (cross : Bool) :
    (beforeAttach fs oldObj newObj n name cross).dirHead = fs.dirHead := by
  unfold beforeAttach
  rw [setNode_dirHead]
  split
  · rw [setObj_dirHead_of (fun _ => ⟨by rfl, by rfl⟩),
      setObj_dirHead_of (fun _ => ⟨by rfl, by rfl⟩)]
  · rfl

private theorem beforeAttach_next_ne {m : NodeId} (h : m ≠ n) :
    (beforeAttach fs oldObj newObj n name cross).next m = fs.next m := by
  rw [next, beforeAttach, setNode_nodes_ne h, next]
  split <;> rfl

private theorem relink_obj (fs : Ramfs) (d : ObjId) (prev next : Option NodeId) (m : NodeId) :
    ((fs.relink d prev next).nodes m).map RamfsNode.obj = (fs.nodes m).map RamfsNode.obj := by
  have h := congrArg (Option.map Prod.snd) (congrFun (relink_entry fs d prev next) m)
  rw [entry, entry, map_map, map_map] at h
  exact h

/-- A write through a pointer to a freed entry reaches no entry. -/
theorem relink_of_freed {p : NodeId} (hp : fs.nodes p = none) (d : ObjId) (next : Option NodeId) :
    fs.relink d (some p) next = fs := by
  have hnodes : (fs.relink d (some p) next).nodes = fs.nodes := by
    funext m
    by_cases hm : m = p
    · subst hm
      rw [relink, setNode_nodes_self, hp]
      rfl
    · rw [relink, setNode_nodes_ne hm]
  cases fs
  simp only [relink, setNode] at hnodes ⊢
  rw [hnodes]

end Rabbitbone.Native.Ramfs

namespace Rabbitbone.Spec

open LinkedList Native Function Ramfs List Option

/-- What taking the entry `n` out of the directory `d` does to the rest of the heap. -/
structure Removed (fs fs' : Ramfs) (n : NodeId) (obj : ObjId) (o : RamfsObject) : Prop where
  gone : fs'.nodes n = none
  entry : ∀ m, m ≠ n → fs'.entry m = fs.entry m
  type : ∀ m, m ≠ obj → (fs'.objs m).map RamfsObject.type = (fs.objs m).map RamfsObject.type
  kept : o.type ≠ .dir → 1 < o.nlink → (fs'.objs obj).map RamfsObject.type = some o.type

variable {fs fs' : Ramfs} {ch : ObjId → Option (List NodeId)} {l₁ l₂ : List NodeId}
  {n oldParent newParent : NodeId} {nd oldNd newNd : RamfsNode} {newLeaf : List UInt8}
  {isDir : Bool} {prev : Option NodeId}

/-- Removing an entry takes it off its list and frees it, with its own list if it has one. -/
theorem removeEntry_spec (h : DirLists fs ch) {d : ObjId} {o : RamfsObject}
    (hd : ch d = some (l₁ ++ n :: l₂)) (hn : fs.nodes n = some nd) (ho : fs.objs nd.obj = some o)
    (hleaf : o.type = .dir → o.children = none)
    (hrem : fs.removeEntry d l₁.getLast? n o.type = some fs') :
    Removed fs fs' n nd.obj o ∧ DirLists fs' (if o.type = .dir then
      update (update ch d (some (l₁ ++ l₂))) nd.obj none
      else update ch d (some (l₁ ++ l₂))) := by
  -- an empty directory is not the one that lists `n`
  have hobj : nd.obj ≠ d := by
    rintro rfl
    obtain ⟨head, hhead, hc⟩ := h.chain _ _ hd
    obtain ⟨o', ho', htype, rfl⟩ := dirHead_eq_some_iff.mp hhead
    obtain rfl : o = o' := some.inj (ho.symm.trans ho')
    rw [hleaf htype] at hc
    cases l₁ <;> exact absurd hc.1 (by simp)
  have hnext : fs.next n = nd.next := by simp [Ramfs.next, hn]
  rw [removeEntry, hn] at hrem
  simp only [bind_eq_bind, bind_some, ← hnext] at hrem
  generalize hfsB : (if o.type = NodeType.dir then
      (fs.relink d l₁.getLast? (fs.next n)).setObj d fun o =>
        { o with nlink := if 0 < o.nlink then o.nlink - 1 else o.nlink }
      else fs.relink d l₁.getLast? (fs.next n)) = fsB at hrem
  have hB : DirLists fsB (update ch d (some (l₁ ++ l₂))) := by
    rw [← hfsB]
    split
    · exact (h.relink hd).setObj fun _ => ⟨rfl, rfl⟩
    · exact h.relink hd
  have hBentry : fsB.entry = fs.entry := by
    rw [← hfsB]
    split <;> exact relink_entry ..
  have hBtype : ∀ m, (fsB.objs m).map RamfsObject.type = (fs.objs m).map RamfsObject.type := by
    intro m
    rw [← hfsB]
    split
    · exact (type_setObj (fun _ => by rfl) m).trans (relink_type ..)
    · exact relink_type ..
  have hBobj : fsB.objs nd.obj = some o := by
    have hrel : (fs.relink d l₁.getLast? (fs.next n)).objs nd.obj = some o := by
      cases l₁.getLast? with
      | none => rw [relink, setObj_objs_ne hobj, ho]
      | some p => rw [relink, setNode_objs, ho]
    rw [← hfsB]
    split
    · rw [setObj_objs_ne hobj, hrel]
    · exact hrel
  have hdet := h.detached_of_relink hd
  have hC := hB.setNode (f := fun nd => { nd with next := none }) (.inr hdet)
  obtain ⟨ndB, hndB, hname⟩ : ∃ ndB, fsB.nodes n = some ndB ∧ ndB.obj = nd.obj := by
    have he : fsB.entry n = some (nd.name, nd.obj) := by
      rw [hBentry, entry, hn]
      rfl
    obtain ⟨ndB, hndB, heq⟩ := map_eq_some_iff.mp he
    exact ⟨ndB, hndB, (Prod.mk.inj heq).2⟩
  have hndC : (fsB.setNode n fun nd => { nd with next := none }).nodes n
      = some { ndB with next := none } := by
    rw [setNode_nodes_self, hndB]
    rfl
  have hfree := freeDentry_freed hndC (by rw [← hBobj, ← hname]; rfl) hleaf hrem
  rw [show ({ ndB with next := none } : RamfsNode).obj = nd.obj from hname] at hfree
  refine ⟨⟨by rw [hfree.nodes, if_pos rfl], fun m hm => ?_, fun m hm => ?_, fun h1 h2 => ?_⟩,
    hC.freed hBobj hdet hfree⟩
  · rw [entry, hfree.nodes, if_neg hm, setNode_nodes_ne hm, ← entry, hBentry]
  · rw [hfree.objs m hm, setNode_objs, hBtype]
  · rw [hfree.kept h1 h2]
    rfl

/-- What moving the entry `n` to a new name does to the rest of the heap. -/
structure Moved (fs fs' : Ramfs) (n : NodeId) (name : List UInt8) (obj : ObjId) : Prop where
  entry : ∀ m, m ≠ n → fs'.entry m = fs.entry m
  self : fs'.entry n = some (name, obj)
  type : ∀ m, (fs'.objs m).map RamfsObject.type = (fs.objs m).map RamfsObject.type

private theorem beforeAttach_dirLists (h : DirLists fs ch) (hn : Detached ch n)
    (oldObj newObj : ObjId) (name : List UInt8) (cross : Bool) :
    DirLists (fs.beforeAttach oldObj newObj n name cross) ch := by
  unfold beforeAttach
  split
  · refine DirLists.setNode (DirLists.setObj (DirLists.setObj h ?_) ?_) (.inr hn)
    · exact fun _ => ⟨rfl, rfl⟩
    · exact fun _ => ⟨rfl, rfl⟩
  · exact h.setNode (.inr hn)

private theorem moveEntry_eq (hn : fs.nodes n = some nd)
    (hold : fs.nodes oldParent = some oldNd) (hnew : fs.nodes newParent = some newNd)
    (h : fs.moveEntry oldParent prev n newParent newLeaf isDir = some fs') :
    (beforeAttach (fs.relink oldNd.obj prev (fs.next n)) oldNd.obj newNd.obj n
      (newLeaf.take (Path.nameMax - 1)) (isDir && oldParent ≠ newParent)).attachChild newParent n
      = some fs' := by
  have hnext : fs.next n = nd.next := by simp [Ramfs.next, hn]
  rw [moveEntry, hn] at h
  simp only [bind_eq_bind, bind_some, hold, hnew, ← hnext] at h
  exact h

/-- Moving an entry changes its name and no other entry. -/
theorem moveEntry_moved (hn : fs.nodes n = some nd)
    (hold : fs.nodes oldParent = some oldNd) (hnew : fs.nodes newParent = some newNd)
    (hlen : newLeaf.length < Path.nameMax)
    (h : fs.moveEntry oldParent prev n newParent newLeaf isDir = some fs') :
    Moved fs fs' n newLeaf nd.obj := by
  have hatt := moveEntry_eq hn hold hnew h
  have hleaf : newLeaf.take (Path.nameMax - 1) = newLeaf := take_of_length_le (by omega)
  rw [hleaf] at hatt
  refine ⟨fun m hm => ?_, ?_, fun m => ?_⟩
  · rw [attachChild_entry hatt, beforeAttach_entry_ne hm, relink_entry]
  · have he : (fs.relink oldNd.obj prev (fs.next n)).entry n = some (nd.name, nd.obj) := by
      rw [relink_entry, entry, hn]
      rfl
    obtain ⟨nd', hnd', heq⟩ := map_eq_some_iff.mp he
    rw [attachChild_entry hatt, entry, beforeAttach_nodes_self, hnd']
    simp [(Prod.mk.inj heq).2]
  · rw [attachChild_type hatt, beforeAttach_objs_type, relink_type]

section

variable (hl : DirLists fs ch) (hold : fs.nodes oldParent = some oldNd)
  (hnew : fs.nodes newParent = some newNd) {l : List NodeId}
include hl hold hnew

/-- Moving an entry whose predecessor is `prev`. -/
theorem moveEntry_dirLists (hd : ch oldNd.obj = some (l₁ ++ n :: l₂))
    (hd' : update ch oldNd.obj (some (l₁ ++ l₂)) newNd.obj = some l)
    (h : fs.moveEntry oldParent l₁.getLast? n newParent newLeaf isDir = some fs') :
    DirLists fs' (update (update ch oldNd.obj (some (l₁ ++ l₂))) newNd.obj (some (n :: l))) := by
  have hlive := hl.live _ _ n hd (mem_append_right _ mem_cons_self)
  obtain ⟨nd, hn⟩ := isSome_iff_exists.mp hlive
  have hatt := moveEntry_eq hn hold hnew h
  have hdet := hl.detached_of_relink hd
  have hB := beforeAttach_dirLists (hl.relink hd) hdet oldNd.obj newNd.obj
    (newLeaf.take (Path.nameMax - 1)) (isDir && oldParent ≠ newParent)
  obtain ⟨ndP, -, hndP, -, -⟩ := attachChild_eq hatt
  have hobj : ndP.obj = newNd.obj := by
    have heq := beforeAttach_obj (fs.relink oldNd.obj l₁.getLast? (fs.next n)) oldNd.obj
      newNd.obj n (newLeaf.take (Path.nameMax - 1)) (isDir && oldParent ≠ newParent) newParent
    rw [hndP, relink_obj, hnew] at heq
    exact some.inj heq
  have hliveB : ((beforeAttach (fs.relink oldNd.obj l₁.getLast? (fs.next n)) oldNd.obj
      newNd.obj n (newLeaf.take (Path.nameMax - 1))
      (isDir && oldParent ≠ newParent)).nodes n).isSome = true := by
    have heq := beforeAttach_obj (fs.relink oldNd.obj l₁.getLast? (fs.next n)) oldNd.obj
      newNd.obj n (newLeaf.take (Path.nameMax - 1)) (isDir && oldParent ≠ newParent) n
    rw [relink_obj, hn] at heq
    rw [← isSome_map, heq]
    rfl
  have hfinal := hB.attachChild hndP (by rw [hobj]; exact hd') hdet hliveB hatt
  rwa [hobj] at hfinal

/-- Moving an entry whose captured predecessor was freed leaves it in its list, and putting it in
front closes the list into a loop. -/
theorem moveEntry_loop {p : NodeId} (hsame : oldNd.obj = newNd.obj)
    (hd : ch oldNd.obj = some (l₁ ++ n :: l₂)) (hp : fs.nodes p = none)
    (h : fs.moveEntry oldParent (some p) n newParent newLeaf isDir = some fs') (l : List NodeId) :
    ¬fs'.Children newNd.obj l := by
  have hlive := hl.live _ _ n hd (mem_append_right _ mem_cons_self)
  obtain ⟨nd, hn⟩ := isSome_iff_exists.mp hlive
  have hatt := moveEntry_eq hn hold hnew h
  rw [relink_of_freed hp] at hatt
  generalize hB : beforeAttach fs oldNd.obj newNd.obj n (newLeaf.take (Path.nameMax - 1))
    (isDir && oldParent ≠ newParent) = fsB at hatt
  obtain ⟨head, hhead, hc⟩ := hl.chain _ _ hd
  have hheadB : fsB.dirHead newNd.obj = some head := by
    rw [← hB, ← hsame, ← hhead, beforeAttach_dirHead]
  have hnextB : ∀ c, c ≠ n → fsB.next c = fs.next c := by
    intro c hcn
    rw [← hB, beforeAttach_next_ne hcn]
  obtain ⟨ndP, o, hndP, ho, rfl⟩ := attachChild_eq hatt
  have hobj : ndP.obj = newNd.obj := by
    have heq := beforeAttach_obj fs oldNd.obj newNd.obj n
      (newLeaf.take (Path.nameMax - 1)) (isDir && oldParent ≠ newParent) newParent
    rw [hB, hndP, hnew] at heq
    exact some.inj heq
  rw [hobj] at ho
  obtain ⟨o', ho', htype, rfl⟩ := dirHead_eq_some_iff.mp hheadB
  obtain rfl : o = o' := some.inj (ho.symm.trans ho')
  obtain ⟨m, h₁, rfl, -⟩ := Seg.append_iff.mp hc
  have hnotmem : n ∉ l₁ := by
    intro hmem
    have hnodup := (perm_middle.nodup_iff).mp (hl.nodup hd)
    exact (nodup_cons.mp hnodup).1 (mem_append_left _ hmem)
  rintro ⟨head', hhead', hc'⟩
  obtain ⟨o'', ho'', -, rfl⟩ := dirHead_eq_some_iff.mp hhead'
  rw [hobj, Ramfs.setObj_objs_self, setNode_objs, ho] at ho''
  obtain rfl := some.inj ho''
  -- from `n` the list leads over `l₁` back to `n`, so it has no end
  refine Seg.not_chain (l := l₁) ⟨rfl, ?_⟩ l hc'
  have hnB : (fsB.nodes n).isSome = true := by
    rw [← hB, beforeAttach_nodes_self, hn]
    rfl
  obtain ⟨ndB, hndB⟩ := isSome_iff_exists.mp hnB
  have hnext : ((fsB.setNode n fun nd =>
      { nd with parent := some newParent, next := o.children }).setObj ndP.obj fun o =>
      { o with children := some n }).next n = o.children := by
    rw [setObj_next, Ramfs.next, setNode_nodes_self, hndB]
    rfl
  rw [hnext]
  refine h₁.congr fun c hcmem => ?_
  have hcn : c ≠ n := by rintro rfl; exact hnotmem hcmem
  rw [setObj_next, Ramfs.next, setNode_nodes_ne hcn, ← Ramfs.next, hnextB c hcn]

/-- The lists after the entry `n` of `P` moved to `Q`. -/
theorem moveEntry_members (hP : ch oldNd.obj = some (l₁ ++ n :: l₂)) (hQ : ch newNd.obj = some l)
    (h : fs.moveEntry oldParent l₁.getLast? n newParent newLeaf isDir = some fs') :
    ∃ ch', DirLists fs' ch' ∧
      ∀ d c, InDir ch' d c ↔ (d = newNd.obj ∧ c = n) ∨ (InDir ch d c ∧ c ≠ n) := by
  obtain ⟨l', hl'⟩ : ∃ l', update ch oldNd.obj (some (l₁ ++ l₂)) newNd.obj = some l' := by
    by_cases hd : newNd.obj = oldNd.obj
    · exact ⟨l₁ ++ l₂, by rw [hd, update_self]⟩
    · exact ⟨l, by rw [update_of_ne hd, hQ]⟩
  refine ⟨_, moveEntry_dirLists hl hold hnew hP hl' h, fun d c => ?_⟩
  rw [inDir_attach hl', inDir_remove hl hP]

end

end Rabbitbone.Spec
