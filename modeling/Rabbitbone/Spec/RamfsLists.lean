import Mathlib.Logic.Function.Basic
import Rabbitbone.ForStd.LinkedList
import Rabbitbone.Native.Ramfs.Ops

/-!
# The children lists of the RAM file system

`DirLists fs ch` says that the sibling pointers of `fs` spell the lists `ch`: one list of live
entries for each directory, no entry in two of them.  The lemmas of this module are the effect of
each pointer update of `nodes.inc` and `rename_mount.inc` on `ch`: taking an entry out behind its
predecessor (`DirLists.relink`), putting one in front (`DirLists.attachChild`), and freeing an
entry that is in no list (`DirLists.freed`).
-/

namespace Rabbitbone.Native.Ramfs

open LinkedList Option

variable {d : ObjId} {n x : NodeId} {l : List NodeId} {fs : Ramfs}

/-- The sibling behind an entry. -/
def next (fs : Ramfs) (n : NodeId) : Option NodeId := (fs.nodes n).bind RamfsNode.next

/-- The first child of a directory; `none` for an object that is not a live directory. -/
def dirHead (fs : Ramfs) (d : ObjId) : Option (Option NodeId) :=
  (fs.objs d).bind fun o => if o.type = .dir then some o.children else none

/-- The head of the list of a directory. -/
theorem dirHead_eq_some_iff {h : Option NodeId} :
    fs.dirHead d = some h ↔ ∃ o, fs.objs d = some o ∧ o.type = .dir ∧ o.children = h := by
  simp only [dirHead, bind_eq_some_iff]
  constructor
  · rintro ⟨o, ho, h⟩
    split at h
    · exact ⟨o, ho, ‹_›, some.inj h⟩
    · simp at h
  · rintro ⟨o, ho, htype, rfl⟩
    exact ⟨o, ho, by rw [if_pos htype]⟩

/-! ### Field updates -/

@[simp] theorem setNode_objs (fs : Ramfs) (n : NodeId) (f : RamfsNode → RamfsNode) :
    (fs.setNode n f).objs = fs.objs := rfl

theorem setNode_nodes_self (fs : Ramfs) (n : NodeId) (f : RamfsNode → RamfsNode) :
    (fs.setNode n f).nodes n = (fs.nodes n).map f := if_pos rfl

theorem setNode_nodes_ne {m : NodeId} (h : m ≠ n) (f : RamfsNode → RamfsNode) :
    (fs.setNode n f).nodes m = fs.nodes m := if_neg h

theorem setObj_objs_self (fs : Ramfs) (o : ObjId) (f : RamfsObject → RamfsObject) :
    (fs.setObj o f).objs o = (fs.objs o).map f := if_pos rfl

theorem setObj_objs_ne {o m : ObjId} (h : m ≠ o) (f : RamfsObject → RamfsObject) :
    (fs.setObj o f).objs m = fs.objs m := if_neg h

@[simp] theorem setNode_dirHead (fs : Ramfs) (n : NodeId) (f : RamfsNode → RamfsNode) :
    (fs.setNode n f).dirHead = fs.dirHead := rfl

@[simp] theorem setObj_next (fs : Ramfs) (o : ObjId) (f : RamfsObject → RamfsObject) :
    (fs.setObj o f).next = fs.next := rfl

/-- A write to a node that leaves its sibling pointer alone. -/
theorem setNode_next_of {f : RamfsNode → RamfsNode}
    (hf : ∀ nd, (f nd).next = nd.next) : (fs.setNode n f).next = fs.next := by
  funext m
  by_cases h : m = n
  · subst h
    rw [next, setNode_nodes_self, next]
    cases fs.nodes m with
    | none => rfl
    | some nd => exact hf nd
  · rw [next, setNode_nodes_ne h, next]

/-- A write to an object that leaves its type and its children pointer alone. -/
theorem setObj_dirHead_of {o : ObjId} {f : RamfsObject → RamfsObject}
    (hf : ∀ ob, (f ob).type = ob.type ∧ (f ob).children = ob.children) :
    (fs.setObj o f).dirHead = fs.dirHead := by
  funext m
  by_cases h : m = o
  · subst h
    rw [dirHead, setObj_objs_self, dirHead]
    cases fs.objs m with
    | none => rfl
    | some ob => simp [hf ob]
  · rw [dirHead, setObj_objs_ne h, dirHead]

private theorem setNode_isSome (fs : Ramfs) (n : NodeId) (f : RamfsNode → RamfsNode) (m : NodeId) :
    ((fs.setNode n f).nodes m).isSome = (fs.nodes m).isSome := by
  by_cases h : m = n
  · subst h
    rw [setNode_nodes_self, isSome_map]
  · rw [setNode_nodes_ne h]

/-! ### `free_dentry` -/

/-- What `free_dentry` does to an entry without children: the entry goes, and its object goes
unless another link is left. -/
structure Freed (fs fs' : Ramfs) (n : NodeId) (obj : ObjId) (o : RamfsObject) : Prop where
  nodes : ∀ m, fs'.nodes m = if m = n then none else fs.nodes m
  objs : ∀ m, m ≠ obj → fs'.objs m = fs.objs m
  gone : fs'.objs obj = none ∨
    (o.type ≠ .dir ∧ 1 < o.nlink ∧ fs'.objs obj = some { o with nlink := o.nlink - 1 })
  kept : o.type ≠ .dir → 1 < o.nlink → fs'.objs obj = some { o with nlink := o.nlink - 1 }

/-- Freeing a node without children frees it and drops a link of its object. -/
theorem freeDentry_freed {fs' : Ramfs} {fuel : Nat} {nd : RamfsNode} {o : RamfsObject}
    (hn : fs.nodes n = some nd) (ho : fs.objs nd.obj = some o)
    (hleaf : o.type = .dir → o.children = none) (h : freeDentry (fuel + 1) fs n = some fs') :
    Freed fs fs' n nd.obj o := by
  rw [freeDentry, hn] at h
  simp only [bind_eq_bind, bind_some, ho] at h
  by_cases htype : o.type = .dir
  · simp only [htype, if_true, hleaf htype, freeChildren, bind_some] at h
    obtain rfl := some.inj h
    refine ⟨fun m => rfl, fun m hm => if_neg hm, .inl (if_pos rfl), fun h => absurd htype h⟩
  simp only [htype, if_false] at h
  have hlt : (0 < o.nlink ∧ o.nlink - 1 ≠ 0) ↔ 1 < o.nlink := by grind
  by_cases hlast : (if 0 < o.nlink then o.nlink - 1 else o.nlink) = 0
  · simp only [hlast, if_true] at h
    obtain rfl := some.inj h
    refine ⟨fun m => rfl, fun m hm => if_neg hm, .inl (if_pos rfl), fun _ h1 => ?_⟩
    obtain ⟨hpos, hne⟩ := hlt.mpr h1
    rw [if_pos hpos] at hlast
    exact absurd hlast hne
  · simp only [hlast, if_false] at h
    obtain rfl := some.inj h
    have hpos : 0 < o.nlink := by
      by_contra hz
      grind
    have hobj : (fs.setObj nd.obj fun o' =>
        { o' with nlink := if 0 < o.nlink then o.nlink - 1 else o.nlink }).objs nd.obj
        = some { o with nlink := o.nlink - 1 } := by
      rw [setObj_objs_self, ho, if_pos hpos]
      rfl
    rw [if_pos hpos] at hlast
    exact ⟨fun m => rfl, fun m hm => setObj_objs_ne hm _,
      .inr ⟨htype, hlt.mp ⟨hpos, hlast⟩, hobj⟩, fun _ _ => hobj⟩

end Rabbitbone.Native.Ramfs

namespace Rabbitbone.Spec

open LinkedList Native Function Option List

/-- The sibling pointers of `fs` spell the lists `ch` of the directories. -/
structure DirLists (fs : Ramfs) (ch : ObjId → Option (List NodeId)) : Prop where
  dom : ∀ d h, fs.dirHead d = some h → ∃ l, ch d = some l
  chain : ∀ d l, ch d = some l → ∃ h, fs.dirHead d = some h ∧ Chain fs.next h l
  live : ∀ d l c, ch d = some l → c ∈ l → (fs.nodes c).isSome = true
  disjoint : ∀ d d' l l' c, ch d = some l → ch d' = some l' → c ∈ l → c ∈ l' → d = d'

/-- An entry is in no directory. -/
def Detached (ch : ObjId → Option (List NodeId)) (n : NodeId) : Prop :=
  ∀ d l, ch d = some l → n ∉ l

namespace DirLists

variable {fs fs' : Ramfs} {ch : ObjId → Option (List NodeId)}

section

variable (h : DirLists fs ch) {l₁ l₂ : List NodeId}
include h

/-- A list has no node twice. -/
theorem nodup (hd : ch d = some l) : l.Nodup := by
  obtain ⟨hd, -, hc⟩ := h.chain d l hd
  exact hc.nodup

/-- Updates that touch neither the listed entries' sibling pointers nor any children pointer. -/
theorem congr (hnext : ∀ d l c, ch d = some l → c ∈ l → fs'.next c = fs.next c)
    (hlive : ∀ d l c, ch d = some l → c ∈ l → (fs'.nodes c).isSome = true)
    (hhead : fs'.dirHead = fs.dirHead) : DirLists fs' ch := by
  refine ⟨?_, ?_, hlive, h.disjoint⟩
  · rw [hhead]
    exact h.dom
  · intro d l hd
    obtain ⟨hh, hhead', hc⟩ := h.chain d l hd
    exact ⟨hh, by rw [hhead, hhead'], hc.congr (hnext d l · hd ·)⟩

/-- A write to an object that leaves its type and its children pointer alone. -/
theorem setObj {o : ObjId} {f : RamfsObject → RamfsObject}
    (hf : ∀ ob, (f ob).type = ob.type ∧ (f ob).children = ob.children) :
    DirLists (fs.setObj o f) ch :=
  h.congr (fun _ _ _ _ _ => rfl) h.live (Ramfs.setObj_dirHead_of hf)

/-- A write to an entry that leaves its sibling pointer alone, or to one that is in no list. -/
theorem setNode {f : RamfsNode → RamfsNode} (hf : (∀ nd, (f nd).next = nd.next) ∨ Detached ch n) :
    DirLists (fs.setNode n f) ch := by
  refine h.congr (fun d l c hd hc => ?_) (fun d l c hd hc => ?_) rfl
  · rcases hf with hf | hf
    · rw [Ramfs.setNode_next_of hf]
    · have hne : c ≠ n := by rintro rfl; exact hf d l hd hc
      rw [Ramfs.next, Ramfs.setNode_nodes_ne hne, Ramfs.next]
  · rw [Ramfs.setNode_isSome]
    exact h.live d l c hd hc

/-- The lists after that of `d` became `l'`, made of its old entries and of entries that were in no
list, while the other lists stayed. -/
theorem of_update {l' : List NodeId} (hd : ch d = some l) (hmem : ∀ c ∈ l', c ∈ l ∨ Detached ch c)
    (head : Option NodeId) (hhead : fs'.dirHead d = some head) (hchain : Chain fs'.next head l')
    (hlive : ∀ c, (fs.nodes c).isSome = true → (fs'.nodes c).isSome = true)
    (hlive' : ∀ c ∈ l', (fs'.nodes c).isSome = true)
    (hother : ∀ e, e ≠ d → fs'.dirHead e = fs.dirHead e)
    (hnext : ∀ e m c, e ≠ d → ch e = some m → c ∈ m → fs'.next c = fs.next c) :
    DirLists fs' (update ch d (some l')) := by
  have hself : ∀ m, update ch d (some l') d = some m → m = l' := by
    intro m hm
    rw [update_self] at hm
    exact (some.inj hm).symm
  refine ⟨fun e he hhe => ?_, fun e m hm => ?_, fun e m c hm hc => ?_,
    fun e e' m m' c hm hm' hc hc' => ?_⟩
  · by_cases hed : e = d
    · subst hed
      exact ⟨l', update_self ..⟩
    · rw [update_of_ne hed]
      exact h.dom e he (by rw [← hother e hed, hhe])
  · by_cases hed : e = d
    · subst hed
      rw [hself m hm]
      exact ⟨head, hhead, hchain⟩
    rw [update_of_ne hed] at hm
    obtain ⟨he, hhe, hc⟩ := h.chain e m hm
    exact ⟨he, by rw [hother e hed, hhe], hc.congr (hnext e m · hed hm ·)⟩
  · by_cases hed : e = d
    · subst hed
      exact hlive' c (hself m hm ▸ hc)
    · rw [update_of_ne hed] at hm
      exact hlive c (h.live e m c hm hc)
  · -- an entry of a new list was in the old list of the same directory, or is new in that of `d`
    have hold : ∀ e m, update ch d (some l') e = some m → c ∈ m →
        (∃ m, ch e = some m ∧ c ∈ m) ∨ (e = d ∧ Detached ch c) := by
      intro e m hm hc
      by_cases hed : e = d
      · subst hed
        rw [hself m hm] at hc
        rcases hmem c hc with hc | hc
        · exact .inl ⟨l, hd, hc⟩
        · exact .inr ⟨rfl, hc⟩
      · rw [update_of_ne hed] at hm
        exact .inl ⟨m, hm, hc⟩
    rcases hold e m hm hc with ⟨n, hn, hcn⟩ | ⟨rfl, hdet⟩ <;>
      rcases hold e' m' hm' hc' with ⟨n', hn', hcn'⟩ | ⟨rfl, hdet'⟩
    · exact h.disjoint e e' n n' c hn hn' hcn hcn'
    · exact absurd hcn (hdet' e n hn)
    · exact absurd hcn' (hdet e' n' hn')
    · rfl

/-- `prev->next = n->next`, or the same on the children pointer: the entry leaves its list. -/
theorem relink (hd : ch d = some (l₁ ++ x :: l₂)) :
    DirLists (fs.relink d l₁.getLast? (fs.next x)) (update ch d (some (l₁ ++ l₂))) := by
  obtain ⟨head, hhead, hc⟩ := h.chain d _ hd
  have hnodup := h.nodup hd
  obtain ⟨m, h₁, rfl, h₂⟩ := Seg.append_iff.mp hc
  have hsub : ∀ c ∈ l₁ ++ l₂, c ∈ l₁ ++ x :: l₂ := by
    intro c hc
    rcases mem_append.mp hc with hc | hc
    · exact mem_append_left _ hc
    · exact mem_append_right _ (mem_cons_of_mem _ hc)
  have hlive' : ∀ c ∈ l₁ ++ l₂, (fs.nodes c).isSome = true :=
    fun c hc => h.live d _ c hd (hsub c hc)
  -- `x` is the first of the list, or follows `p`
  cases hlast : l₁.getLast? with
  | none =>
    obtain rfl := getLast?_eq_none_iff.mp hlast
    refine h.of_update hd (fun c hc => .inl (hsub c hc)) (fs.next x) ?_ h₂ (fun _ => id) hlive'
      (fun e he => ?_) (fun _ _ _ _ _ _ => rfl)
    · obtain ⟨o, ho, htype, -⟩ := Ramfs.dirHead_eq_some_iff.mp hhead
      refine Ramfs.dirHead_eq_some_iff.mpr ⟨{ o with children := fs.next x }, ?_, htype, rfl⟩
      rw [Ramfs.relink, Ramfs.setObj_objs_self, ho]
      rfl
    · rw [Ramfs.relink, Ramfs.dirHead, Ramfs.setObj_objs_ne he, Ramfs.dirHead]
  | some p =>
    have hpmem : p ∈ l₁ := mem_of_getLast? hlast
    have hplive := h.live d _ p hd (mem_append_left _ hpmem)
    have hlive : ∀ c, ((fs.relink d (some p) (fs.next x)).nodes c).isSome = (fs.nodes c).isSome :=
      fun c => Ramfs.setNode_isSome ..
    have hnext : ∀ a, (fs.relink d (some p) (fs.next x)).next a
        = if a = p then fs.next x else fs.next a := by
      intro a
      by_cases ha : a = p
      · subst ha
        rw [if_pos rfl, Ramfs.relink, Ramfs.next, Ramfs.setNode_nodes_self]
        obtain ⟨nd, hnd⟩ := isSome_iff_exists.mp hplive
        rw [hnd]
        rfl
      · rw [if_neg ha, Ramfs.relink, Ramfs.next, Ramfs.setNode_nodes_ne ha, Ramfs.next]
    have hdisj := (nodup_append.mp hnodup).2.2
    refine h.of_update hd (fun c hc => .inl (hsub c hc)) head hhead ?_ (fun c hc => by rwa [hlive])
      (fun c hc => by rw [hlive]; exact hlive' c hc) (fun _ _ => rfl) (fun e m c he hm hc => ?_)
    · refine Seg.append_iff.mpr ⟨fs.next x, ?_, h₂.congr fun c hc => ?_⟩
      · exact h₁.retarget (nodup_append.mp hnodup).1 hlast hnext
      · have hne : c ≠ p := (hdisj p hpmem c (mem_cons_of_mem _ hc)).symm
        rw [hnext, if_neg hne]
    · have hne : c ≠ p := by
        rintro rfl
        exact he (h.disjoint e d m _ c hm hd hc (mem_append_left _ hpmem))
      rw [hnext, if_neg hne]

/-- An entry taken out of its list is in no list. -/
theorem detached_of_relink (hd : ch d = some (l₁ ++ x :: l₂)) :
    Detached (update ch d (some (l₁ ++ l₂))) x := by
  intro e m hm hx
  by_cases hed : e = d
  · subst hed
    rw [update_self] at hm
    obtain rfl := some.inj hm
    have hnodup := (perm_middle.nodup_iff).mp (h.nodup hd)
    exact (nodup_cons.mp hnodup).1 hx
  · rw [update_of_ne hed] at hm
    exact hed (h.disjoint e d m _ x hm hd hx (mem_append_right _ mem_cons_self))

/-- `attach_child` puts an entry that is in no list in front of a directory's list. -/
theorem attachChild {dir : NodeId} {nd : RamfsNode} (hdir : fs.nodes dir = some nd)
    (hd : ch nd.obj = some l) (hx : Detached ch x) (hlive : (fs.nodes x).isSome = true)
    (hatt : fs.attachChild dir x = some fs') :
    DirLists fs' (update ch nd.obj (some (x :: l))) := by
  obtain ⟨head, hhead, hc⟩ := h.chain _ _ hd
  obtain ⟨o, ho, htype, rfl⟩ := Ramfs.dirHead_eq_some_iff.mp hhead
  simp only [Ramfs.attachChild, hdir, ho, bind_eq_bind, bind_some] at hatt
  have heq := (some.inj hatt).symm
  obtain ⟨xnd, hxnd⟩ := isSome_iff_exists.mp hlive
  have hnext : ∀ c, c ≠ x → fs'.next c = fs.next c := by
    intro c hc
    rw [heq, Ramfs.setObj_next, Ramfs.next, Ramfs.setNode_nodes_ne hc, Ramfs.next]
  have hlive' : ∀ c, (fs'.nodes c).isSome = (fs.nodes c).isSome := by
    intro c
    rw [heq]
    exact Ramfs.setNode_isSome ..
  have hne : ∀ e m c, ch e = some m → c ∈ m → c ≠ x := by
    rintro e m c hm hc rfl
    exact hx e m hm hc
  refine h.of_update hd (fun c hc => ?_) (some x) ?_ ⟨rfl, ?_⟩ (fun c hc => by rwa [hlive'])
    (fun c hc => ?_) (fun e he => ?_) (fun e m c _ hm hc => hnext c (hne e m c hm hc))
  · rcases mem_cons.mp hc with rfl | hc
    · exact .inr hx
    · exact .inl hc
  · refine Ramfs.dirHead_eq_some_iff.mpr ⟨{ o with children := some x }, ?_, htype, rfl⟩
    rw [heq, Ramfs.setObj_objs_self, Ramfs.setNode_objs, ho]
    rfl
  · have hxn : fs'.next x = o.children := by
      rw [heq, Ramfs.setObj_next, Ramfs.next, Ramfs.setNode_nodes_self, hxnd]
      rfl
    rw [hxn]
    exact hc.congr fun c hc => hnext c (hne _ _ c hd hc)
  · rw [hlive']
    rcases mem_cons.mp hc with rfl | hc
    · exact hlive
    · exact h.live _ _ c hd hc
  · rw [heq, Ramfs.dirHead, Ramfs.setObj_objs_ne he, Ramfs.setNode_objs, Ramfs.dirHead]

/-- Freeing an entry that is in no list and has no children drops its own list, if it is a
directory, and nothing else. -/
theorem freed {obj : ObjId} {o : RamfsObject} (ho : fs.objs obj = some o) (hn : Detached ch n)
    (hfree : Ramfs.Freed fs fs' n obj o) :
    DirLists fs' (if o.type = .dir then update ch obj none else ch) := by
  have hnext : ∀ c, c ≠ n → fs'.next c = fs.next c := by
    intro c hc
    rw [Ramfs.next, hfree.nodes, if_neg hc, Ramfs.next]
  have hnodes : ∀ c, c ≠ n → fs'.nodes c = fs.nodes c := fun c hc => by rw [hfree.nodes, if_neg hc]
  have hne : ∀ e m c, ch e = some m → c ∈ m → c ≠ n := by
    rintro e m c hm hc rfl
    exact hn e m hm hc
  -- a directory loses its list, which is empty; any other object has none
  split
  · rename_i htype
    have hgone : fs'.dirHead obj = none := by
      rcases hfree.gone with h | ⟨h, -⟩
      · rw [Ramfs.dirHead, h]
        rfl
      · exact absurd htype h
    have hother : ∀ e, e ≠ obj → fs'.dirHead e = fs.dirHead e := by
      intro e he
      rw [Ramfs.dirHead, hfree.objs e he, Ramfs.dirHead]
    have hup : ∀ e m, update ch obj none e = some m → e ≠ obj ∧ ch e = some m := by
      intro e m hm
      by_cases he : e = obj
      · subst he
        simp at hm
      · rw [update_of_ne he] at hm
        exact ⟨he, hm⟩
    refine ⟨fun e he hhe => ?_, fun e m hm => ?_, fun e m c hm hc => ?_,
      fun e e' m m' c hm hm' => h.disjoint e e' m m' c (hup e m hm).2 (hup e' m' hm').2⟩
    · have hne' : e ≠ obj := by
        rintro rfl
        simp [hgone] at hhe
      rw [update_of_ne hne']
      exact h.dom e he (by rw [← hother e hne', hhe])
    · obtain ⟨hne', hm⟩ := hup e m hm
      obtain ⟨he, hhe, hc⟩ := h.chain e m hm
      exact ⟨he, by rw [hother e hne', hhe], hc.congr fun c hc => hnext c (hne e m c hm hc)⟩
    · obtain ⟨-, hm⟩ := hup e m hm
      rw [hnodes c (hne e m c hm hc)]
      exact h.live e m c hm hc
  · rename_i htype
    refine h.congr (fun e m c hm hc => hnext c (hne e m c hm hc)) (fun e m c hm hc => ?_) ?_
    · rw [hnodes c (hne e m c hm hc)]
      exact h.live e m c hm hc
    · funext e
      by_cases he : e = obj
      · subst he
        have hold : fs.dirHead e = none := by
          rw [Ramfs.dirHead, ho, bind_some, if_neg htype]
        rw [hold]
        rcases hfree.gone with h | ⟨-, -, h⟩
        · rw [Ramfs.dirHead, h]
          rfl
        · rw [Ramfs.dirHead, h, bind_some, if_neg htype]
      · rw [Ramfs.dirHead, hfree.objs e he, Ramfs.dirHead]

end

end DirLists

end Rabbitbone.Spec
