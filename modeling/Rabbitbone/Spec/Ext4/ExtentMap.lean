import Rabbitbone.Native.Ext4.Inspect
import Rabbitbone.Spec.Ext4.ConvertFrame

/-!
# What a checked extent tree maps

`ext4_inspect_inode_extents` checks the nodes of a tree one at a time, and `map_inode_block` follows
the keys of the index entries.
-/

namespace Rabbitbone.Spec.Ext4

open FallibleState Native.Ext4 List

variable {s : Slot} {r : Nat} {l : List Slot}

/-! ### Trees as lists of extents -/

/-- The slots from `i` on, `count` of them. -/
def slotsFrom (n : Node) : Nat → Nat → List Slot
  | 0, _ => []
  | count + 1, i => n.slot i :: slotsFrom n count (i + 1)

/-- The entries of a node. -/
def slots (n : Node) : List Slot := slotsFrom n n.entries 0

/-- The node that an index entry refers to. -/
def childOf (v : Volume) (s : Slot) : Node := decodeNode (v.blocks s.eiLeaf)

/-- The extents in the leaves of a tree, from left to right. -/
def leafExtents (v : Volume) : Nat → Node → List Slot
  | 0, n => slots n
  | depth + 1, n => (slots n).flatMap fun s => leafExtents v depth (childOf v s)

/-- The extent has the logical block. -/
abbrev Covers (s : Slot) (logical : Nat) : Prop :=
  s.eeBlock ≤ logical ∧ logical < s.eeBlock + s.extentLenBlocks

/-- One extent ends before another one begins. -/
abbrev Before (s t : Slot) : Prop := s.eeBlock + s.extentLenBlocks ≤ t.eeBlock

/-- A written extent of the list maps the logical block to `p`. -/
def Maps (es : List Slot) (logical p : Nat) : Prop :=
  ∃ s ∈ es, Covers s logical ∧ s.extentIsUnwritten = false ∧ physBlock s logical = p

variable {v v' : Volume} {n : Node} {depth cap count i prev logical p b : Nat} {chosen : Option Nat}
  {t : Slot}

/-! ### What the check ensures -/

/-- What the check asks of an extent. -/
structure ExtentSound (mnt : Mount) (s : Slot) : Prop where
  len_ne : s.extentLenBlocks ≠ 0
  logical_lt : s.eeBlock + s.extentLenBlocks < 2 ^ 32
  physical_le : s.physicalEnd ≤ mnt.blocksCount

/-- What the check asks of a header. -/
structure HeaderSound (depth cap : Nat) (n : Node) : Prop where
  magic : n.magic = extMagic
  depth_eq : n.depth = depth
  depth_le : depth ≤ 5
  entries_le : n.entries ≤ n.max
  max_le : n.max ≤ cap

/-- What the check asks of a tree.  Nothing says where the extents below an entry end. -/
inductive TreeSound (v : Volume) : Nat → Nat → Node → Prop where
  | leaf {cap : Nat} {n : Node} (header : HeaderSound 0 cap n)
      (extents : ∀ s ∈ slots n, ExtentSound v.mnt s) (ordered : (slots n).Pairwise Before) :
      TreeSound v 0 cap n
  | index {depth cap : Nat} {n : Node} (header : HeaderSound (depth + 1) cap n)
      (keys : (slots n).Pairwise fun s t => s.eiBlock < t.eiBlock)
      (leaf_lt : ∀ s ∈ slots n, s.eiLeaf < v.mnt.blocksCount)
      (first : ∀ s ∈ slots n, (childOf v s).first = s.eiBlock)
      (children : ∀ s ∈ slots n, TreeSound v depth v.mnt.extentLeafCapacity (childOf v s)) :
      TreeSound v (depth + 1) cap n

private theorem TreeSound.depth_le (h : TreeSound v depth cap n) : depth ≤ 5 := by
  cases h with
  | leaf header => exact header.depth_le
  | index header => exact header.depth_le

private theorem logicalEnd_eq_some_iff {last : Nat} :
    s.logicalEnd = some last ↔ (s.extentLenBlocks ≠ 0 ∧ s.eeBlock + s.extentLenBlocks < 2 ^ 32) ∧
      s.eeBlock + s.extentLenBlocks = last := by
  rw [Slot.logicalEnd, extentLogicalEndChecked]
  split
  · rename_i h
    rw [Option.some.injEq, and_iff_right h]
  · rename_i h
    simp only [reduceCtorEq, h, false_and]

/-- Extents that pass are sound and in order. -/
private theorem inspectExtents_ok
    (h : (forLoop (inspectExtent n) count i prev).run v = (.ok r, v')) :
    v' = v ∧ (∀ s ∈ slotsFrom n count i, ExtentSound v.mnt s ∧ (i = 0 ∨ prev ≤ s.eeBlock)) ∧
      (slotsFrom n count i).Pairwise Before := by
  induction count generalizing i prev with
  | zero => exact ⟨(pure_ok.mp h).2, by simp [slotsFrom], .nil⟩
  | succ count ih =>
    rw [forLoop, bind_ok] at h
    obtain ⟨last, w, hturn, h⟩ := h
    rw [inspectExtent, get_bind_ok, bind_ok] at hturn
    obtain ⟨e, w, hlast, hturn⟩ := hturn
    obtain ⟨hsome, rfl⟩ := ofOption_ok.mp hlast
    obtain ⟨hend, rfl⟩ := logicalEnd_eq_some_iff.mp hsome
    obtain ⟨hprev, hturn⟩ := require_bind_ok.mp hturn
    obtain ⟨⟨-, -, hphys⟩, hturn⟩ := require_bind_ok.mp hturn
    obtain ⟨rfl, rfl⟩ := pure_ok.mp hturn
    obtain ⟨rfl, hall, hpw⟩ := ih h
    have hbehind : ∀ s ∈ slotsFrom n count (i + 1), Before (n.slot i) s := fun s hs =>
      (hall s hs).2.resolve_left (Nat.succ_ne_zero i)
    refine ⟨rfl, fun s hs => ?_, pairwise_cons.mpr ⟨hbehind, hpw⟩⟩
    rcases mem_cons.mp hs with rfl | hs
    · exact ⟨⟨hend.1, hend.2, hphys⟩, hprev⟩
    refine ⟨(hall s hs).1, hprev.imp_right fun hle => ?_⟩
    have := hbehind s hs
    omega

/-- Indexes that pass lead to children that pass. -/
private theorem inspectIndexes_ok {child : Node → VolumeM Nat} {P : Node → Prop}
    (hchild : ∀ c r w, (child c).run v = (.ok r, w) → w = v ∧ P c ∧ r = c.first)
    (h : (forLoop (inspectIndex n child) count i prev).run v = (.ok r, v')) :
    v' = v ∧ (∀ s ∈ slotsFrom n count i, s.eiLeaf < v.mnt.blocksCount ∧ P (childOf v s) ∧
      (childOf v s).first = s.eiBlock ∧ (i = 0 ∨ prev < s.eiBlock)) ∧
      (slotsFrom n count i).Pairwise fun s t => s.eiBlock < t.eiBlock := by
  induction count generalizing i prev with
  | zero => exact ⟨(pure_ok.mp h).2, by simp [slotsFrom], .nil⟩
  | succ count ih =>
    rw [forLoop, bind_ok] at h
    obtain ⟨first, w, hturn, h⟩ := h
    obtain ⟨hprev, hturn⟩ := require_bind_ok.mp hturn
    obtain ⟨⟨hlt, -⟩, hturn⟩ := require_bind_ok.mp hturn
    rw [bind_of_ok (readBlock_of_lt hlt), bind_ok] at hturn
    obtain ⟨r', w', hrun, hturn⟩ := hturn
    obtain ⟨rfl, hP, rfl⟩ := hchild _ _ _ hrun
    obtain ⟨hfirst, hturn⟩ := require_bind_ok.mp hturn
    obtain ⟨rfl, rfl⟩ := pure_ok.mp hturn
    obtain ⟨rfl, hall, hpw⟩ := ih h
    have hbehind : ∀ s ∈ slotsFrom n count (i + 1), (n.slot i).eiBlock < s.eiBlock := fun s hs =>
      (hall s hs).2.2.2.resolve_left (Nat.succ_ne_zero i)
    refine ⟨rfl, fun s hs => ?_, pairwise_cons.mpr ⟨hbehind, hpw⟩⟩
    rcases mem_cons.mp hs with rfl | hs
    · exact ⟨hlt, hP, hfirst.symm, hprev⟩
    · obtain ⟨hlt, hP, hfirst, -⟩ := hall s hs
      exact ⟨hlt, hP, hfirst, hprev.imp_right fun h => h.trans (hbehind s hs)⟩

/-- A tree that passes is sound. -/
private theorem inspectExtentNode_ok (h : (inspectExtentNode depth cap n).run v = (.ok r, v')) :
    v' = v ∧ TreeSound v depth cap n ∧ r = n.first := by
  induction depth generalizing cap n r v' with
  | zero =>
    obtain ⟨hmagic, h⟩ := require_bind_ok.mp h
    obtain ⟨⟨hdepth, -, hentries, hmax⟩, h⟩ := require_bind_ok.mp h
    obtain ⟨last, w, hrun, hend⟩ := bind_ok.mp h
    obtain ⟨rfl, hall, hpw⟩ := inspectExtents_ok hrun
    obtain ⟨rfl, rfl⟩ := pure_ok.mp hend
    exact ⟨rfl, .leaf ⟨hmagic, hdepth, by omega, hentries, hmax⟩
      (fun s hs => (hall s hs).1) hpw, rfl⟩
  | succ depth ih =>
    obtain ⟨hmagic, h⟩ := require_bind_ok.mp h
    obtain ⟨⟨hdepth, hle, hentries, hmax⟩, h⟩ := require_bind_ok.mp h
    obtain ⟨last, w, hrun, hend⟩ := bind_ok.mp h
    obtain ⟨rfl, hall, hpw⟩ := inspectIndexes_ok (fun _ _ _ => ih) hrun
    obtain ⟨rfl, rfl⟩ := pure_ok.mp hend
    exact ⟨rfl, .index ⟨hmagic, hdepth, hdepth ▸ hle, hentries, hmax⟩ hpw
      (fun s hs => (hall s hs).1)
      (fun s hs => (hall s hs).2.2.1) fun s hs => (hall s hs).2.1, rfl⟩

/-! ### The read path -/

/-- `map_extent_tree` finds the written extent of a leaf that has the block. -/
theorem mapExtents_ok (hall : ∀ s ∈ slotsFrom n count i, ExtentSound v.mnt s)
    (hord : (slotsFrom n count i).Pairwise Before) :
    (mapExtents n logical count i).run v = (.ok p, v') ↔
      v' = v ∧ Maps (slotsFrom n count i) logical p := by
  induction count generalizing i with
  | zero => simp [mapExtents, fail_ok, Maps, slotsFrom]
  | succ count ih =>
    obtain ⟨hbehind, hpw⟩ := pairwise_cons.mp hord
    have hs := hall _ mem_cons_self
    have ih := ih (fun s hs => hall s (mem_cons_of_mem _ hs)) hpw
    have hcons : Maps (slotsFrom n (count + 1) i) logical p ↔
        (Covers (n.slot i) logical ∧ (n.slot i).extentIsUnwritten = false ∧
          physBlock (n.slot i) logical = p) ∨ Maps (slotsFrom n count (i + 1)) logical p := by
      simp only [Maps, slotsFrom, mem_cons, or_and_right, exists_or, exists_eq_left]
    rw [mapExtents, hcons]
    by_cases hun : (n.slot i).extentIsUnwritten = true
    · rw [if_pos hun, ih]
      simp [hun]
    rw [if_neg hun, get_bind_ok, bind_of_ok (ofOption_of_some (logicalEnd_eq_some hs.1 hs.2))]
    by_cases hcov : Covers (n.slot i) logical
    · have hlt : physBlock (n.slot i) logical < v.mnt.blocksCount := by
        have := hs.physical_le
        unfold Slot.physicalEnd at this
        unfold physBlock
        omega
      -- No later extent has the block as well.
      have hnot : ¬Maps (slotsFrom n count (i + 1)) logical p := by
        rintro ⟨s, hmem, hcov', -⟩
        have := hbehind s hmem
        omega
      rw [if_pos hcov]
      rw [← physBlock, bind_of_ok (require_of_pos hlt), pure_ok]
      rw [or_iff_left hnot, and_iff_right hcov, and_iff_right (Bool.eq_false_of_not_eq_true hun)]
      exact ⟨fun h => ⟨h.2, h.1.symm⟩, fun h => ⟨h.2.symm, h.1⟩⟩
    · rw [if_neg hcov, ih]
      simp [hcov]

private theorem mapExtentTree_zero (header : HeaderSound 0 cap n) :
    (mapExtentTree logical 0 cap n).run v = (mapExtents n logical n.entries 0).run v := by
  rw [mapExtentTree, mapExtentTreeWith, bind_of_ok (require_of_pos header.depth_le),
    bind_of_ok (require_of_pos header.magic),
    bind_of_ok (require_of_pos ⟨header.entries_le, header.entries_le.trans header.max_le⟩),
    bind_of_ok (require_of_pos header.depth_eq)]

/-- In a leaf the mapping is the extent that covers the block. -/
private theorem mapTree_leaf (h : TreeSound v 0 cap n) :
    (mapExtentTree logical 0 cap n).run v = (.ok p, v') ↔ v' = v ∧ Maps (slots n) logical p := by
  cases h with
  | leaf header extents ordered =>
    rw [mapExtentTree_zero header]
    exact mapExtents_ok extents ordered

private theorem chooseEntry_mem (h : chooseEntry n logical count i chosen = some b) :
    chosen = some b ∨ n.slot b ∈ slotsFrom n count i := by
  induction count generalizing i chosen with
  | zero => exact .inl h
  | succ count ih =>
    rw [chooseEntry] at h
    split at h
    · rcases ih h with heq | hmem
      · exact .inr (Option.some.inj heq ▸ mem_cons_self)
      · exact .inr (mem_cons_of_mem _ hmem)
    · exact .inl h

private theorem mapExtentTreeWith_succ {leaf : Slot → Nat} (header : HeaderSound (depth + 1) cap n)
    (hlt : ∀ s ∈ slots n, leaf s < v.mnt.blocksCount) :
    (mapExtentTreeWith leaf logical (depth + 1) cap n).run v =
      match chooseEntry n logical n.entries 0 none with
      | none => (.error .range, v)
      | some b => (mapExtentTreeWith leaf logical depth v.mnt.extentLeafCapacity
          (decodeNode (v.blocks (leaf (n.slot b))))).run v := by
  rw [mapExtentTreeWith, bind_of_ok (require_of_pos header.depth_le),
    bind_of_ok (require_of_pos header.magic),
    bind_of_ok (require_of_pos ⟨header.entries_le, header.entries_le.trans header.max_le⟩),
    bind_of_ok (require_of_pos header.depth_eq), run_get_bind]
  cases hb : chooseEntry n logical n.entries 0 none with
  | none => rw [bind_of_error (ofOption_of_none rfl)]
  | some b =>
    have hmem := (chooseEntry_mem hb).resolve_left (by simp)
    rw [bind_of_ok (ofOption_of_some rfl), bind_of_ok (readBlock_of_lt (hlt _ hmem))]

/-- In an index node `map_extent_tree` goes on in the child that `chooseEntry` finds. -/
theorem mapExtentTree_succ (header : HeaderSound (depth + 1) cap n)
    (hlt : ∀ s ∈ slots n, s.eiLeaf < v.mnt.blocksCount) :
    (mapExtentTree logical (depth + 1) cap n).run v =
      match chooseEntry n logical n.entries 0 none with
      | none => (.error .range, v)
      | some b =>
        (mapExtentTree logical depth v.mnt.extentLeafCapacity (childOf v (n.slot b))).run v :=
  mapExtentTreeWith_succ header hlt

/-- Whatever the read path finds is an extent of the tree. -/
theorem mapTree_sound (h : TreeSound v depth cap n)
    (hmap : (mapExtentTree logical depth cap n).run v = (.ok p, v')) :
    v' = v ∧ Maps (leafExtents v depth n) logical p := by
  induction h with
  | leaf header extents ordered => exact (mapTree_leaf (.leaf header extents ordered)).mp hmap
  | index header keys leaf_lt first children ih =>
    rw [mapExtentTree_succ header leaf_lt] at hmap
    split at hmap
    · cases hmap
    rename_i b hb
    have hmem := (chooseEntry_mem hb).resolve_left (by simp)
    obtain ⟨rfl, s, hs, hmaps⟩ := ih _ hmem hmap
    exact ⟨rfl, s, mem_flatMap.mpr ⟨_, hmem, hs⟩, hmaps⟩

/-! ### The chosen entry -/

/-- `chooseEntry` finds the last key up to the block. -/
theorem chooseEntry_spec (hkeys : (slotsFrom n count i).Pairwise fun s t => s.eiBlock < t.eiBlock)
    (h : chooseEntry n logical count i chosen = some b) :
    (chosen = some b ∧ ∀ s ∈ slotsFrom n count i, logical < s.eiBlock) ∨
      n.slot b ∈ slotsFrom n count i ∧
        ∀ s ∈ slotsFrom n count i, s.eiBlock ≤ logical ↔ s.eiBlock ≤ (n.slot b).eiBlock := by
  induction count generalizing i chosen with
  | zero => exact .inl ⟨h, by simp [slotsFrom]⟩
  | succ count ih =>
    obtain ⟨hbehind, hpw⟩ := pairwise_cons.mp hkeys
    rw [chooseEntry] at h
    split at h
    · rename_i hle
      refine .inr ?_
      rcases ih hpw h with ⟨heq, hlt⟩ | ⟨hmem, hmax⟩
      · obtain rfl := Option.some.inj heq
        refine ⟨mem_cons_self, fun s hs => ?_⟩
        rcases mem_cons.mp hs with rfl | hs
        · exact iff_of_true hle (Nat.le_refl _)
        · exact iff_of_false (hlt s hs).not_ge (hbehind s hs).not_ge
      · refine ⟨mem_cons_of_mem _ hmem, fun s hs => ?_⟩
        rcases mem_cons.mp hs with rfl | hs
        · exact iff_of_true hle (hbehind _ hmem).le
        · exact hmax s hs
    · rename_i hlt
      refine .inl ⟨h, fun s hs => ?_⟩
      rcases mem_cons.mp hs with rfl | hs
      · exact Nat.lt_of_not_le hlt
      · exact (Nat.lt_of_not_le hlt).trans (hbehind s hs)

private theorem chooseEntry_some (n : Node) (logical count i k : Nat) :
    ∃ b, chooseEntry n logical count i (some k) = some b := by
  induction count generalizing i k with
  | zero => exact ⟨k, rfl⟩
  | succ count ih =>
    rw [chooseEntry]
    split
    · exact ih _ _
    · exact ⟨k, rfl⟩

/-- An index is chosen if one starts at or before the block. -/
private theorem exists_chooseEntry (chosen : Option Nat)
    (hkeys : (slotsFrom n count i).Pairwise fun s t => s.eiBlock < t.eiBlock)
    (hs : s ∈ slotsFrom n count i) (hle : s.eiBlock ≤ logical) :
    ∃ b, chooseEntry n logical count i chosen = some b := by
  cases count with
  | zero => cases hs
  | succ count =>
    have hfirst : (n.slot i).eiBlock ≤ logical := by
      rcases mem_cons.mp hs with rfl | hs
      · exact hle
      · exact ((pairwise_cons.mp hkeys).1 s hs).le.trans hle
    rw [chooseEntry, if_pos hfirst]
    exact chooseEntry_some ..

/-! ### Keys and extents -/

private theorem slots_eq_cons (h : n.entries ≠ 0) : ∃ l, slots n = n.slot 0 :: l := by
  obtain ⟨k, hk⟩ := Nat.exists_eq_succ_of_ne_zero h
  exact ⟨_, by rw [slots, hk, slotsFrom]⟩

private theorem entries_ne_zero (h : s ∈ slots n) : n.entries ≠ 0 := by
  intro h0
  rw [slots, h0] at h
  cases h

/-- Every extent of a sound tree is sound. -/
private theorem leafExtents_sound (h : TreeSound v depth cap n) :
    ∀ s ∈ leafExtents v depth n, ExtentSound v.mnt s := by
  induction h with
  | leaf header extents ordered => exact extents
  | index header keys leaf_lt first children ih =>
    intro s hs
    obtain ⟨t, ht, hs⟩ := mem_flatMap.mp hs
    exact ih t ht s hs

/-- The first entry of a node is the lowest. -/
theorem first_le (h : TreeSound v depth cap n) (hord : (leafExtents v depth n).Pairwise Before) :
    ∀ s ∈ leafExtents v depth n, n.first ≤ s.eeBlock := by
  induction h with
  | leaf header extents ordered =>
    intro s hs
    have hne := entries_ne_zero hs
    obtain ⟨l, hl⟩ := slots_eq_cons hne
    rw [leafExtents, hl] at hs hord
    rw [Node.first, if_neg hne]
    rcases mem_cons.mp hs with rfl | hs
    · exact Nat.le_refl _
    · exact (Nat.le_add_right _ _).trans ((pairwise_cons.mp hord).1 s hs)
  | index header keys leaf_lt first children ih =>
    intro s hs
    obtain ⟨t, ht, hs⟩ := mem_flatMap.mp hs
    have hle := ih t ht ((pairwise_flatMap.mp hord).1 t ht) s hs
    have hne := entries_ne_zero ht
    obtain ⟨l, hl⟩ := slots_eq_cons hne
    rw [first t ht] at hle
    rw [Node.first, if_neg hne]
    rw [hl] at ht keys
    rcases mem_cons.mp ht with rfl | ht
    · exact hle
    · exact ((pairwise_cons.mp keys).1 t ht).le.trans hle

private theorem exists_first (h : TreeSound v depth cap n) (hne : n.first ≠ 0) :
    ∃ s ∈ leafExtents v depth n, s.eeBlock = n.first := by
  induction h with
  | @leaf _ n header extents ordered =>
    have h0 : n.entries ≠ 0 := fun h0 => hne (if_pos h0)
    obtain ⟨l, hl⟩ := slots_eq_cons h0
    rw [leafExtents, hl, Node.first, if_neg h0]
    exact ⟨_, mem_cons_self, rfl⟩
  | @index _ _ n header keys leaf_lt first children ih =>
    have h0 : n.entries ≠ 0 := fun h0 => hne (if_pos h0)
    obtain ⟨l, hl⟩ := slots_eq_cons h0
    have hmem : n.slot 0 ∈ slots n := hl ▸ mem_cons_self
    rw [Node.first, if_neg h0] at hne ⊢
    obtain ⟨s, hs, heq⟩ := ih _ hmem (by rwa [first _ hmem])
    exact ⟨s, mem_flatMap.mpr ⟨_, hmem, hs⟩, heq.trans (first _ hmem)⟩

/-! ### What the check leaves open -/

/-- Two extents share no block. -/
def Parted (s t : Slot) : Prop := ∀ logical, ¬(Covers s logical ∧ Covers t logical)

instance : Std.Symm Parted := ⟨fun _ _ h l hboth => h l hboth.symm⟩

private theorem parted_of_before (h : l.Pairwise Before) :
    l.Pairwise Parted := h.imp fun hb l => by omega

/-- The keys tell which of two entries comes first. -/
theorem of_key_lt {R : Slot → Slot → Prop}
    (hkeys : l.Pairwise fun s t => s.eiBlock < t.eiBlock) (hR : l.Pairwise R)
    (hs : s ∈ l) (ht : t ∈ l)
    (hlt : s.eiBlock < t.eiBlock) : R s t := by
  induction l with
  | nil => cases hs
  | cons a l ih =>
    obtain ⟨hkey, hkeys⟩ := pairwise_cons.mp hkeys
    obtain ⟨hfirst, hR⟩ := pairwise_cons.mp hR
    rcases mem_cons.mp hs with rfl | hsl
    · rcases mem_cons.mp ht with rfl | htl
      · exact absurd hlt (Nat.lt_irrefl _)
      · exact hfirst t htl
    rcases mem_cons.mp ht with rfl | htl
    · exact absurd hlt (hkey s hsl).not_gt
    · exact ih hkeys hR hsl htl

private theorem eq_of_key_eq (hkeys : l.Pairwise fun s t => s.eiBlock < t.eiBlock) (hs : s ∈ l)
    (ht : t ∈ l) (heq : s.eiBlock = t.eiBlock) : s = t := by
  by_contra hne
  have : Std.Symm fun s t : Slot => s.eiBlock ≠ t.eiBlock := ⟨fun _ _ => Ne.symm⟩
  exact (hkeys.imp Nat.ne_of_lt).forall hs ht hne heq

/-- If every extent ends before the next one begins, a lookup follows the keys to each of them. -/
theorem mapTree_complete (h : TreeSound v depth cap n)
    (hord : (leafExtents v depth n).Pairwise Before)
    (hs : s ∈ leafExtents v depth n) (hcov : Covers s logical)
    (hwritten : s.extentIsUnwritten = false) :
    (mapExtentTree logical depth cap n).run v = (.ok (physBlock s logical), v) := by
  induction h with
  | leaf header extents ordered =>
    exact (mapTree_leaf (.leaf header extents ordered)).mpr ⟨rfl, s, hs, hcov, hwritten, rfl⟩
  | @index _ _ n header keys leaf_lt first children ih =>
    obtain ⟨t, ht, hs⟩ := mem_flatMap.mp hs
    obtain ⟨hchild, hcross⟩ := pairwise_flatMap.mp hord
    have hkey := first_le (children t ht) (hchild t ht) s hs
    rw [first t ht] at hkey
    obtain ⟨b, hb⟩ := exists_chooseEntry none keys ht (hkey.trans hcov.1)
    obtain ⟨hmem, hmax⟩ := (chooseEntry_spec keys hb).resolve_left (by simp)
    have hle := (hmax t ht).mp (hkey.trans hcov.1)
    have hnot : ¬t.eiBlock < (n.slot b).eiBlock := by
      intro hlt
      -- The child of a later entry begins with its key, behind `s`.
      have hbehind := of_key_lt keys hcross ht hmem hlt
      have hlogical := (hmax _ hmem).mpr (Nat.le_refl _)
      obtain ⟨e, he, heq⟩ := exists_first (children _ hmem) (by rw [first _ hmem]; omega)
      rw [first _ hmem] at heq
      have := hbehind s hs e he
      omega
    have heq : n.slot b = t := eq_of_key_eq keys hmem ht (by omega)
    rw [mapExtentTree_succ header leaf_lt, hb]
    dsimp only
    rw [heq]
    exact ih t ht (hchild t ht) hs

/-- If a lookup finds an extent for every block of the tree, and each block has only one, then every
extent ends before the next one begins. -/
theorem ordered_of_found (h : TreeSound v depth cap n)
    (hapart : (leafExtents v depth n).Pairwise Parted)
    (hfound : ∀ s ∈ leafExtents v depth n, ∀ logical, Covers s logical →
      ∃ p w, (mapExtentTree logical depth cap n).run v = (.ok p, w)) :
    (leafExtents v depth n).Pairwise Before := by
  induction h with
  | leaf header extents ordered => exact ordered
  | @index depth cap n header keys leaf_lt first children ih =>
    have hsound := leafExtents_sound (.index header keys leaf_lt first children)
    obtain ⟨happ, hcross⟩ := pairwise_flatMap.mp hapart
    -- A lookup goes to the child that has the block: another one has no extent for it.
    have hchosen : ∀ t ∈ slots n, ∀ s ∈ leafExtents v depth (childOf v t), ∀ logical,
        Covers s logical → ∃ b p w, chooseEntry n logical n.entries 0 none = some b ∧
          n.slot b = t ∧ (mapExtentTree logical depth v.mnt.extentLeafCapacity
            (childOf v t)).run v = (.ok p, w) := by
      intro t ht s hs logical hcov
      obtain ⟨p, w, hmap⟩ := hfound s (mem_flatMap.mpr ⟨t, ht, hs⟩) logical hcov
      rw [mapExtentTree_succ header leaf_lt] at hmap
      split at hmap
      · cases hmap
      rename_i b hb
      have hmem := (chooseEntry_mem hb).resolve_left (by simp)
      obtain ⟨-, e, he, hcov', -⟩ := mapTree_sound (children _ hmem) hmap
      have heq : n.slot b = t := by
        rcases Nat.lt_trichotomy (n.slot b).eiBlock t.eiBlock with hlt | heq | hlt
        · exact absurd ⟨hcov', hcov⟩ (of_key_lt keys hcross hmem ht hlt e he s hs logical)
        · exact eq_of_key_eq keys hmem ht heq
        · exact absurd ⟨hcov, hcov'⟩ (of_key_lt keys hcross ht hmem hlt s hs e he logical)
      exact ⟨b, p, w, hb, heq, heq ▸ hmap⟩
    have hchild : ∀ t ∈ slots n, (leafExtents v depth (childOf v t)).Pairwise Before := by
      intro t ht
      refine ih t ht (happ t ht) fun s hs logical hcov => ?_
      obtain ⟨-, p, w, -, -, hmap⟩ := hchosen t ht s hs logical hcov
      exact ⟨p, w, hmap⟩
    refine pairwise_flatMap.mpr ⟨hchild, keys.imp_of_mem ?_⟩
    intro t u ht hu hlt s hs e he
    -- The last block of `s` is looked up in `t`, so it lies before the key of `u`.
    have hne := (hsound s (mem_flatMap.mpr ⟨t, ht, hs⟩)).len_ne
    obtain ⟨b, -, -, hb, heq, -⟩ :=
      hchosen t ht s hs (s.eeBlock + s.extentLenBlocks - 1) ⟨by omega, by omega⟩
    have hmax := ((chooseEntry_spec keys hb).resolve_left (by simp)).2 u hu
    have hle := first_le (children u hu) (hchild u hu) e he
    rw [first u hu] at hle
    rw [heq] at hmax
    omega

/-- The extents of an inode, from the left to the right of its tree. -/
def inodeExtents (v : Volume) (inode : Inode) : List Slot :=
  if inode.usesExtents then leafExtents v inode.node.depth inode.node else []

/-- Each logical block is covered by at most one extent of the inode, and the read path finds that
extent for every block that it covers. -/
def FoundOnce (v : Volume) (inode : Inode) : Prop :=
  (inodeExtents v inode).Pairwise Parted ∧ ∀ s ∈ inodeExtents v inode, ∀ logical, Covers s logical →
    (mapInodeBlock inode logical).run v = (.ok (physBlock s logical), v)

/-- An inode that passes the check has each of its blocks found exactly when its extents, read from
the left to the right of the whole tree, each end before the next one begins, and none is
unwritten. -/
theorem inspect_foundOnce_iff {inode : Inode}
    (h : (ext4InspectInodeExtents inode).run v = (.ok (), v')) :
    FoundOnce v inode ↔ (inodeExtents v inode).Pairwise Before ∧
      ∀ s ∈ inodeExtents v inode, s.extentIsUnwritten = false := by
  unfold FoundOnce inodeExtents
  by_cases huses : inode.usesExtents = true
  swap
  · simp [if_neg huses]
  rw [ext4InspectInodeExtents, if_pos huses] at h
  obtain ⟨-, h⟩ := require_bind_ok.mp h
  obtain ⟨-, h⟩ := require_bind_ok.mp h
  obtain ⟨r, w, hrun, -⟩ := bind_ok.mp h
  obtain ⟨-, htree, -⟩ := inspectExtentNode_ok hrun
  have hmap : ∀ logical, (mapInodeBlock inode logical).run v =
      (mapExtentTree logical inode.node.depth extentInlineCapacity inode.node).run v := by
    intro logical
    rw [mapInodeBlock, if_pos huses, bind_of_ok (require_of_pos htree.depth_le)]
  simp only [if_pos huses, hmap]
  constructor
  · rintro ⟨hapart, hfound⟩
    refine ⟨ordered_of_found htree hapart fun s hs l hcov => ⟨_, _, hfound s hs l hcov⟩, ?_⟩
    intro s hs
    by_contra hun
    -- The block of an unwritten extent would be found in a written one.
    have hcov : Covers s s.eeBlock :=
      ⟨Nat.le_refl _, by have := (leafExtents_sound htree s hs).len_ne; omega⟩
    obtain ⟨-, e, he, hcov', hwritten, -⟩ := mapTree_sound htree (hfound s hs _ hcov)
    have hne : s ≠ e := fun heq => hun (heq ▸ hwritten)
    exact hapart.forall hs he hne _ ⟨hcov, hcov'⟩
  · rintro ⟨hord, hwritten⟩
    exact ⟨parted_of_before hord, fun s hs l hcov =>
      mapTree_complete htree hord hs hcov (hwritten s hs)⟩

/-- A leaf with one written extent. -/
def oneExtent (first start len : Nat) : Node :=
  (Node.fresh 1 340 0).setSlot 0 (extentPiece first start len false)

/-- A volume whose blocks 8 and 9 are leaves: `len` blocks of a file from 0 on, and its block 2. -/
def twoLeaves (len : Nat) : Volume :=
  { smallVolume 0xff 8 with
    blocks := fun b => encodeNode (if b = 8 then oneExtent 0 10 len else oneExtent 2 14 1) }

/-- A file with these leaves. -/
def twoLeafFile : Inode :=
  { Inode.zero with
    flags := 0x80000
    node := ((Node.fresh 2 4 1).setSlot 0 (Slot.extentIdxSetLeaf 0 8)).setSlot 1
      (Slot.extentIdxSetLeaf 2 9) }

theorem twoLeafFile_foundOnce : FoundOnce (twoLeaves 2) twoLeafFile :=
  (inspect_foundOnce_iff rfl).mpr (by decide)

/-- An extent of three blocks in the first leaf passes the check and shares its last block with the
second leaf. -/
theorem inspect_accepts_overlap :
    ((ext4InspectInodeExtents twoLeafFile).run (twoLeaves 3)).1 = .ok () ∧
      ¬FoundOnce (twoLeaves 3) twoLeafFile := by
  refine ⟨rfl, fun h => ?_⟩
  have hall : ∀ s ∈ inodeExtents (twoLeaves 3) twoLeafFile, Covers s 2 := by decide
  exact absurd ((pairwise_cons.mp h.1).1 _ mem_cons_self 2)
    (not_not_intro ⟨hall _ mem_cons_self, hall _ (mem_cons_of_mem _ mem_cons_self)⟩)

end Rabbitbone.Spec.Ext4
