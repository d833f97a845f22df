import Mathlib.Data.List.Pairwise
import Rabbitbone.ForStd.DoublyLinked
import Rabbitbone.Native.Mm.Kmem

/-!
# Block lists of the kernel heap

A heap is described by the list of its blocks.  `Listed` says that the headers in memory and the
head and tail pointers are those of the list; `Layout` says that the blocks do not overlap.  The
edits of the code are one lemma each: a block is split in two, two neighbours become one, a block
changes hands, a block comes in at the end.
-/

namespace Rabbitbone.Spec.Mm

open Native.Sys Native.Mm DoublyLinked FallibleState Heap ByteMemory List

/-! ### Headers in memory -/

/-- Two headers do not overlap. -/
def Sep (b b' : Nat) : Prop := b + blockHeader ≤ b' ∨ b' + blockHeader ≤ b

theorem Sep.symm {b b' : Nat} (h : Sep b b') : Sep b' b := Or.symm h

variable {m m' : ByteMemory} {head tail : Nat}

/-- A header depends on its own bytes. -/
theorem readBlock_congr {b : Nat} (h : ∀ i, b ≤ i → i < b + blockHeader → m i = m' i) :
    readBlock m b = readBlock m' b := by
  simp only [blockHeader] at h
  simp only [readBlock, KmemBlock.mk.injEq]
  refine ⟨?_, ?_, ?_, ?_, ?_⟩
  · exact load_congr fun i _ _ => h i (by omega) (by omega)
  · exact load_congr fun i _ _ => h i (by omega) (by omega)
  · rw [h (b + 16) (by omega) (by omega)]
  · exact load_congr fun i _ _ => h i (by omega) (by omega)
  · exact load_congr fun i _ _ => h i (by omega) (by omega)

section Fields

variable (m) {b b' v next prev size : Nat} {free : Bool}

/-- A word at the offset of a field is that field and no other. -/
theorem readBlock_store {off : Nat} (hoff : off = 0 ∨ off = 8 ∨ off = 24 ∨ off = 32)
    (hv : v < 2 ^ 64) :
    readBlock (m.store (b + off) 8 v) b =
      { magic := if off = 0 then v else (readBlock m b).magic
        size := if off = 8 then v else (readBlock m b).size
        free := (readBlock m b).free
        prev := if off = 24 then v else (readBlock m b).prev
        next := if off = 32 then v else (readBlock m b).next } := by
  have hfield : ∀ off', off' = 0 ∨ off' = 8 ∨ off' = 24 ∨ off' = 32 →
      (m.store (b + off) 8 v).load (b + off') 8 =
        if off = off' then v else m.load (b + off') 8 := by
    intro off' hoff'
    by_cases heq : off = off'
    · rw [if_pos heq, heq, load_store _ _ _ _ hv]
    · rw [if_neg heq, load_store_of_disjoint _ _ (by omega)]
  simp only [readBlock, KmemBlock.mk.injEq]
  refine ⟨hfield 0 (by simp), hfield 8 (by simp), ?_, hfield 24 (by simp), hfield 32 (by simp)⟩
  rw [store_of_disjoint _ _ (by omega)]

private theorem readBlock_store_sep {off : Nat} (hoff : off + 8 ≤ blockHeader) (h : Sep b b') :
    readBlock (m.store (b + off) 8 v) b' = readBlock m b' := by
  simp only [Sep] at h
  exact readBlock_congr fun i _ _ => store_of_disjoint _ _ (by omega)

private theorem readBlock_setMagic (hv : v < 2 ^ 64) :
    readBlock (setMagic m b v) b = { readBlock m b with magic := v } :=
  readBlock_store m (.inl rfl) hv

private theorem readBlock_setSize (hv : v < 2 ^ 64) :
    readBlock (setSize m b v) b = { readBlock m b with size := v } :=
  readBlock_store m (.inr (.inl rfl)) hv

private theorem readBlock_setPrev (hv : v < 2 ^ 64) :
    readBlock (setPrev m b v) b = { readBlock m b with prev := v } :=
  readBlock_store m (.inr (.inr (.inl rfl))) hv

private theorem readBlock_setNext (hv : v < 2 ^ 64) :
    readBlock (setNext m b v) b = { readBlock m b with next := v } :=
  readBlock_store m (.inr (.inr (.inr rfl))) hv

private theorem readBlock_setFree (v : Bool) :
    readBlock (setFree m b v) b = { readBlock m b with free := v } := by
  have hout : ∀ i, i < b + 16 ∨ b + 17 ≤ i → setFree m b v i = m i := fun i hi => if_neg (by omega)
  simp only [readBlock, KmemBlock.mk.injEq]
  refine ⟨?_, ?_, ?_, ?_, ?_⟩
  · exact load_congr fun i _ _ => hout i (by omega)
  · exact load_congr fun i _ _ => hout i (by omega)
  · rw [setFree, fill, if_pos (by omega)]
    cases v <;> rfl
  · exact load_congr fun i _ _ => hout i (by omega)
  · exact load_congr fun i _ _ => hout i (by omega)

private theorem readBlock_setMagic_sep (h : Sep b b') :
    readBlock (setMagic m b v) b' = readBlock m b' :=
  readBlock_store_sep m (by decide) h

private theorem readBlock_setSize_sep (h : Sep b b') :
    readBlock (setSize m b v) b' = readBlock m b' :=
  readBlock_store_sep m (by decide) h

private theorem readBlock_setPrev_sep (h : Sep b b') :
    readBlock (setPrev m b v) b' = readBlock m b' :=
  readBlock_store_sep m (by decide) h

private theorem readBlock_setNext_sep (h : Sep b b') :
    readBlock (setNext m b v) b' = readBlock m b' :=
  readBlock_store_sep m (by decide) h

private theorem readBlock_setFree_sep (h : Sep b b') (v : Bool) :
    readBlock (setFree m b v) b' = readBlock m b' := by
  simp only [Sep, blockHeader] at h
  exact readBlock_congr fun i _ hi => if_neg (by simp only [blockHeader] at hi; omega)

/-- A header that is written as a whole. -/
theorem readBlock_fresh (hv : v < 2 ^ 64) (hsize : size < 2 ^ 64)
    (hprev : prev < 2 ^ 64) (hnext : next < 2 ^ 64) :
    readBlock (setNext (setPrev (setFree (setSize (setMagic m b v) b size) b free) b prev) b next) b
      = ⟨v, size, free, prev, next⟩ := by
  rw [readBlock_setNext _ hnext, readBlock_setPrev _ hprev, readBlock_setFree,
    readBlock_setSize _ hsize, readBlock_setMagic _ hv]

private theorem readBlock_fresh_sep (h : Sep b b') :
    readBlock
        (setNext (setPrev (setFree (setSize (setMagic m b v) b size) b free) b prev) b next) b'
      = readBlock m b' := by
  rw [readBlock_setNext_sep _ h, readBlock_setPrev_sep _ h, readBlock_setFree_sep _ h,
    readBlock_setSize_sep _ h, readBlock_setMagic_sep _ h]

end Fields

/-! ### Lists of blocks -/

/-- A block: where its header is, how many bytes follow it, and whether it is free. -/
structure Block where
  addr : Nat
  size : Nat
  free : Bool
  deriving DecidableEq, Repr

variable {x b : Block}

namespace Block

/-- The end of the block. -/
def stop (b : Block) : Nat := b.addr + blockHeader + b.size

/-- The magic number in its header. -/
def magic (b : Block) : Nat := if b.free then kmemMagicFree else kmemMagicAlloc

/-- Two blocks have no byte in common. -/
def Apart (x y : Block) : Prop := x.stop ≤ y.addr ∨ y.stop ≤ x.addr

theorem Apart.symm {x y : Block} (h : Apart x y) : Apart y x := Or.symm h

theorem Apart.sep {y : Block} (h : Apart x y) : Sep x.addr y.addr := by
  simp only [Apart, stop, Sep] at *
  omega

end Block

/-- The blocks do not overlap and lie in the part of the memory that the kernel maps. -/
structure Layout (bs : List Block) : Prop where
  apart : bs.Pairwise Block.Apart
  pos : ∀ b ∈ bs, 0 < b.addr
  stop_le : ∀ b ∈ bs, b.stop ≤ kernelDirectLimit

/-- The block behind `a`, or the first one for the sentinel 0. -/
def nextOf (m : ByteMemory) (head a : Nat) : Nat := if a = 0 then head else (readBlock m a).next

/-- The block before `a`, or the last one for the sentinel 0. -/
def prevOf (m : ByteMemory) (tail a : Nat) : Nat := if a = 0 then tail else (readBlock m a).prev

/-- The ring of addresses through the sentinel. -/
def ringOf (bs : List Block) : List Nat := 0 :: (bs.map Block.addr ++ [0])

/-- The headers in memory and the head and tail pointers are those of the list. -/
structure Listed (m : ByteMemory) (head tail : Nat) (bs : List Block) : Prop where
  magic : ∀ b ∈ bs, (readBlock m b.addr).magic = b.magic
  size : ∀ b ∈ bs, (readBlock m b.addr).size = b.size
  free : ∀ b ∈ bs, (readBlock m b.addr).free = b.free
  links : Links (nextOf m head) (prevOf m tail) (ringOf bs)

/-- The header says what the block is. -/
def Tagged (m : ByteMemory) (b : Block) : Prop :=
  (readBlock m b.addr).magic = b.magic ∧ (readBlock m b.addr).size = b.size ∧
    (readBlock m b.addr).free = b.free

/-- The first address of a list, 0 if it is empty. -/
def firstAddr (bs : List Block) : Nat := (bs.map Block.addr ++ [0]).headD 0

/-- The last address of a list, 0 if it is empty. -/
def lastAddr (bs : List Block) : Nat := (0 :: bs.map Block.addr).getLastD 0

private theorem map_addr_append_zero (bs : List Block) :
    bs.map Block.addr ++ [0] = firstAddr bs :: (bs.map Block.addr ++ [0]).tail := by
  cases bs <;> rfl

private theorem zero_cons_map_addr (bs : List Block) :
    0 :: bs.map Block.addr = (0 :: bs.map Block.addr).dropLast ++ [lastAddr bs] := by
  exact (dropLast_append_getLast _).symm

theorem lastAddr_concat (bs : List Block) (b : Block) : lastAddr (bs ++ [b]) = b.addr := by
  rw [lastAddr, map_append, map_singleton, ← cons_append, getLastD_concat]

private theorem ringOf_append (pre : List Block) (b : Block) (post : List Block) :
    ringOf (pre ++ b :: post) =
      (0 :: pre.map Block.addr) ++ b.addr ::
        (firstAddr post :: (post.map Block.addr ++ [0]).tail) := by
  rw [← map_addr_append_zero]
  simp [ringOf]

variable {pre post : List Block}

private theorem mem_middle : x ∈ pre ++ b :: post ↔ x = b ∨ x ∈ pre ++ post :=
  perm_middle.mem_iff.trans mem_cons

private theorem Layout.apart_of (h : Layout (pre ++ b :: post)) :
    ∀ x ∈ pre ++ post, Block.Apart x b := by
  have hpw := h.apart
  rw [pairwise_append, pairwise_cons] at hpw
  intro x hx
  rcases mem_append.mp hx with hx | hx
  · exact hpw.2.2 x hx b mem_cons_self
  · exact (hpw.2.1.1 x hx).symm

variable {bs mid mid' : List Block} {b' : Block} {n v : Nat}

private theorem Listed.tagged (h : Listed m head tail bs) (hb : b ∈ bs) : Tagged m b :=
  ⟨h.magic b hb, h.size b hb, h.free b hb⟩

private theorem Listed.of_tagged (h : ∀ b ∈ bs, Tagged m b)
    (hlinks : Links (nextOf m head) (prevOf m tail) (ringOf bs)) : Listed m head tail bs :=
  ⟨fun b hb => (h b hb).1, fun b hb => (h b hb).2.1, fun b hb => (h b hb).2.2, hlinks⟩

/-- Two blocks do not overlap. -/
theorem Layout.apart_of_ne (h : Layout bs) (hx : x ∈ bs) (hb : b ∈ bs) (hne : x ≠ b) :
    Block.Apart x b := by
  obtain ⟨pre, post, rfl⟩ := append_of_mem hb
  exact h.apart_of x ((mem_middle.mp hx).resolve_left hne)

/-- An address is the address of one block. -/
theorem Layout.eq_of_addr (h : Layout bs) (hx : x ∈ bs) (hb : b ∈ bs) (haddr : x.addr = b.addr) :
    x = b := by
  by_contra hne
  have hapart := h.apart_of_ne hx hb hne
  simp only [Block.Apart, Block.stop, blockHeader] at hapart
  omega

/-- The block behind a block of the list. -/
theorem Listed.next_eq (h : Listed m head tail (pre ++ b :: post))
    (hpos : b.addr ≠ 0) : (readBlock m b.addr).next = firstAddr post := by
  have hlinks := h.links
  rw [ringOf_append, links_append] at hlinks
  have hnext := hlinks.2.1
  rwa [nextOf, if_neg hpos] at hnext

/-- The block before a block of the list. -/
theorem Listed.prev_eq (h : Listed m head tail (pre ++ b :: post))
    (hpos : b.addr ≠ 0) : (readBlock m b.addr).prev = lastAddr pre := by
  have hlinks := h.links
  rw [ringOf_append, links_append] at hlinks
  have hleft := hlinks.1
  rw [zero_cons_map_addr, append_assoc, singleton_append, links_append] at hleft
  have hprev := hleft.2.2.1
  rwa [prevOf, if_neg hpos] at hprev

/-- The tail pointer is the last block. -/
theorem Listed.tail_eq (hl : Listed m head tail bs) : tail = lastAddr bs := by
  have hlinks := hl.links
  rw [ringOf, ← cons_append, zero_cons_map_addr, append_assoc, singleton_append,
    links_append] at hlinks
  exact hlinks.2.2.1

/-- The head pointer is the first block. -/
theorem Listed.head_eq (hl : Listed m head tail bs) : head = firstAddr bs := by
  have hlinks := hl.links
  rw [ringOf, map_addr_append_zero] at hlinks
  exact hlinks.1

/-- Replace the blocks between `b` and `post`.  Outside, only the pointer back from `post` may
change. -/
theorem Listed.splice {tail' : Nat} (h : Listed m head tail (pre ++ b :: (mid ++ post)))
    (hpos : ∀ x ∈ pre ++ b :: (mid ++ post), 0 < x.addr) (haddr : b'.addr = b.addr)
    (hpre : ∀ x ∈ pre, readBlock m' x.addr = readBlock m x.addr)
    (hprev : (readBlock m' b.addr).prev = (readBlock m b.addr).prev)
    (hnew : ∀ x ∈ b' :: mid', Tagged m' x)
    (hlinks : Links (nextOf m' head) (prevOf m' tail')
      (b.addr :: (mid'.map Block.addr ++ [firstAddr post]))) (hpost : ∀ x ∈ post,
      readBlock m' x.addr = { readBlock m x.addr with prev := (readBlock m' x.addr).prev })
    (hback : ∀ x ∈ post.tail, readBlock m' x.addr = readBlock m x.addr)
    (htail : post ≠ [] → tail' = tail) : Listed m' head tail' (pre ++ b' :: (mid' ++ post)) := by
  -- Which header a block of the new list had before.
  have hcases : ∀ x ∈ pre ++ b' :: (mid' ++ post), x ∈ b' :: mid' ∨ x ∈ pre ∨ x ∈ post := by
    intro x hx
    rw [mem_middle, mem_append, mem_append] at hx
    rw [mem_cons, or_assoc, or_left_comm (a := x ∈ mid')]
    exact hx
  have hold : ∀ x, x ∈ pre ∨ x ∈ post → x ∈ pre ++ b :: (mid ++ post) := by
    intro x hx
    rw [mem_middle, mem_append, mem_append]
    exact .inr (hx.imp_right .inr)
  refine .of_tagged (fun x hx => ?_) ?_
  · rcases hcases x hx with hx | hx | hx
    · exact hnew x hx
    · rw [Tagged, hpre x hx]
      exact h.tagged (hold x (.inl hx))
    · rw [Tagged, hpost x hx]
      exact h.tagged (hold x (.inr hx))
  · have hring : ∀ (c : Block) (cs : List Block), ringOf (pre ++ c :: (cs ++ post)) =
        (0 :: pre.map Block.addr) ++ c.addr :: (cs.map Block.addr ++
          firstAddr post :: (post.map Block.addr ++ [0]).tail) := by
      intro c cs
      rw [← map_addr_append_zero]
      simp [ringOf]
    have hne : ∀ x ∈ pre ++ b :: (mid ++ post), x.addr ≠ 0 := fun x hx =>
      Nat.pos_iff_ne_zero.mp (hpos x hx)
    have holdLinks := h.links
    rw [hring] at holdLinks
    rw [hring, haddr]
    refine holdLinks.splice hlinks ?_ ?_ ?_ ?_
    · intro a ha
      rcases mem_cons.mp ha with rfl | ha
      · simp only [nextOf, if_true]
      · obtain ⟨x, hx, rfl⟩ := mem_map.mp ha
        simp only [nextOf, hpre x hx]
    · intro a ha
      simp only [cons_append, tail_cons, mem_append, mem_singleton] at ha
      rcases ha with ha | rfl
      · obtain ⟨x, hx, rfl⟩ := mem_map.mp ha
        simp only [prevOf, hpre x hx, if_neg (hne x (hold x (.inl hx)))]
      · simp only [prevOf, hprev, if_neg (hne b (by simp))]
    · intro a ha
      rw [← map_addr_append_zero, dropLast_concat] at ha
      obtain ⟨x, hx, rfl⟩ := mem_map.mp ha
      simp only [nextOf]
      rw [hpost x hx]
    · intro a ha
      cases post with
      | nil => simp at ha
      | cons y post =>
        simp only [map_cons, cons_append, tail_cons, mem_append, mem_singleton] at ha
        rcases ha with ha | rfl
        · obtain ⟨x, hx, rfl⟩ := mem_map.mp ha
          simp only [prevOf, hback x hx, if_neg (hne x (hold x (.inr (mem_cons_of_mem _ hx))))]
        · simp only [prevOf, if_true, htail (by simp)]

theorem firstAddr_cons (b : Block) (bs : List Block) : firstAddr (b :: bs) = b.addr := rfl

/-- The links stay, and the rest of the headers is that of the new list. -/
theorem Listed.relabel {bs' : List Block} (h : Listed m head tail bs)
    (haddr : bs'.map Block.addr = bs.map Block.addr)
    (hlinks : ∀ b ∈ bs, (readBlock m' b.addr).next = (readBlock m b.addr).next ∧
      (readBlock m' b.addr).prev = (readBlock m b.addr).prev)
    (hnew : ∀ x ∈ bs', Tagged m' x) : Listed m' head tail bs' := by
  refine .of_tagged hnew ?_
  have hring : ringOf bs' = ringOf bs := by rw [ringOf, haddr, ringOf]
  rw [hring]
  refine h.links.congr ?_ ?_
  · intro a ha
    rw [ringOf, ← cons_append, dropLast_concat] at ha
    rcases mem_cons.mp ha with rfl | ha
    · simp only [nextOf, if_true]
    · obtain ⟨b, hb, rfl⟩ := mem_map.mp ha
      simp only [nextOf, (hlinks b hb).1]
  · intro a ha
    rw [ringOf, tail_cons, mem_append, mem_singleton] at ha
    rcases ha with ha | rfl
    · obtain ⟨b, hb, rfl⟩ := mem_map.mp ha
      simp only [prevOf, (hlinks b hb).2]
    · simp only [prevOf, if_true]

/-- Only the headers of the blocks matter. -/
theorem Listed.congr (h : Listed m head tail bs)
    (hsame : ∀ b ∈ bs, readBlock m' b.addr = readBlock m b.addr) : Listed m' head tail bs := by
  refine h.relabel rfl (fun b hb => ?_) fun b hb => ?_
  · rw [hsame b hb]
    exact ⟨rfl, rfl⟩
  · rw [Tagged, hsame b hb]
    exact h.tagged hb

/-! ### Edits -/

/-- The pointer back from the block `n`, if there is one. -/
def linkBack (m : ByteMemory) (n v : Nat) : ByteMemory := if n ≠ 0 then setPrev m n v else m

private theorem readBlock_linkBack (m : ByteMemory) (hn : n ≠ 0) (hv : v < 2 ^ 64) :
    readBlock (linkBack m n v) n = { readBlock m n with prev := v } := by
  rw [linkBack, if_pos hn, readBlock_setPrev m hv]

private theorem readBlock_linkBack_sep (m : ByteMemory) {b : Nat} (h : n ≠ 0 → Sep n b) :
    readBlock (linkBack m n v) b = readBlock m b := by
  by_cases hn : n = 0
  · rw [linkBack, if_neg (by simpa using hn)]
  · rw [linkBack, if_pos hn, readBlock_setPrev_sep m (h hn)]

/-- The memory behind `carveRest`. -/
def carved (m : ByteMemory) (b wanted rest size next : Nat) : ByteMemory :=
  let m := setNext (setPrev
    (setFree (setSize (setMagic m rest kmemMagicFree) rest size) rest true) rest b)
    rest next
  setSize (setNext (linkBack m next rest) b rest) b wanted

/-- What is left of a block becomes a free block behind it. -/
theorem carveRest_run (h : Heap) (b wanted : Nat) (blk : KmemBlock) :
    (carveRest b wanted blk).run h =
      (.ok (), { h with
        mem := carved h.mem b wanted (blockPayload b + wanted)
          (blk.size - wanted - blockHeader) blk.next
        tail := if blk.next ≠ 0 then h.tail else blockPayload b + wanted }) := by
  by_cases hn : blk.next = 0
  · simp only [carveRest, setPrevOrTail, poke, run_modify_bind, run_modify, carved, linkBack,
      if_neg (not_not.mpr hn)]
  · simp only [carveRest, setPrevOrTail, poke, run_modify_bind, run_modify, carved, linkBack,
      if_pos hn]

/-- The first block of a list lies apart from the others. -/
theorem Layout.first_sep (lay : Layout (pre ++ b :: post)) :
    ∀ x ∈ pre ++ b :: post.tail, firstAddr post ≠ 0 → Sep (firstAddr post) x.addr := by
  cases post with
  | nil => exact fun _ _ h => absurd rfl h
  | cons y post =>
    intro x hx _
    have heq : pre ++ b :: y :: post = (pre ++ [b]) ++ y :: post := by simp
    rw [heq] at lay
    refine (lay.apart_of x ?_).symm.sep
    simpa using hx

private theorem Layout.first_lt (lay : Layout (pre ++ b :: post)) : firstAddr post < 2 ^ 64 := by
  cases post with
  | nil => exact Nat.two_pow_pos 64
  | cons y post =>
    have hy := lay.stop_le y (by simp)
    simp only [Block.stop, kernelDirectLimit] at hy
    rw [firstAddr_cons]
    omega

/-- An edit between `b` and the blocks behind it: the headers of the others stay, and the pointer
back from the next one is `last`. -/
theorem Listed.relink {last : Nat} (h : Listed m head tail (pre ++ b :: (mid ++ post)))
    (hpos : ∀ x ∈ pre ++ b :: (mid ++ post), 0 < x.addr) (haddr : b'.addr = b.addr)
    (hout : ∀ x ∈ pre ++ post.tail, readBlock m' x.addr = readBlock m x.addr)
    (hfirst : firstAddr post ≠ 0 →
      readBlock m' (firstAddr post) = { readBlock m (firstAddr post) with prev := last })
    (hprev : (readBlock m' b.addr).prev = (readBlock m b.addr).prev)
    (hnew : ∀ x ∈ b' :: mid', Tagged m' x)
    (hlinks : Links (nextOf m' head) (prevOf m' (if firstAddr post ≠ 0 then tail else last))
      (b.addr :: mid'.map Block.addr))
    (hlast : last = (b.addr :: mid'.map Block.addr).getLast (by simp))
    (hnext : nextOf m' head last = firstAddr post) :
    Listed m' head (if firstAddr post ≠ 0 then tail else last) (pre ++ b' :: (mid' ++ post)) := by
  have hpostpos : ∀ y ys, post = y :: ys → y.addr ≠ 0 := by
    intro y ys hpost
    have := hpos y (by simp [hpost])
    omega
  refine h.splice hpos haddr (fun x hx => hout x (mem_append_left _ hx)) hprev hnew ?_ ?_
    (fun x hx => hout x (mem_append_right _ hx)) ?_
  · -- The last new block and the block behind it point at each other.
    have hsplit := dropLast_append_getLast (show b.addr :: mid'.map Block.addr ≠ [] by simp)
    rw [← hlast] at hsplit
    rw [← cons_append, ← hsplit, append_assoc, singleton_append, links_append, hsplit]
    refine ⟨hlinks, hnext, ?_, trivial⟩
    cases post with
    | nil => simp only [firstAddr, map_nil, nil_append, headD_cons, prevOf, ne_eq,
        not_true_eq_false, if_false, if_true]
    | cons y ys =>
      have hy := hpostpos y ys rfl
      rw [firstAddr_cons] at hfirst ⊢
      rw [prevOf, if_neg hy, hfirst hy]
  · intro x hx
    cases post with
    | nil => cases hx
    | cons y ys =>
      rcases mem_cons.mp hx with rfl | hx
      · have hx := hfirst (hpostpos x ys rfl)
        rw [firstAddr_cons] at hx
        rw [hx]
      · rw [hout x (mem_append_right _ hx)]
  · intro hne
    cases post with
    | nil => exact absurd rfl hne
    | cons y ys => rw [firstAddr_cons, if_pos (hpostpos y ys rfl)]

/-- A block is cut behind its first `wanted` bytes, and the rest becomes a free block. -/
theorem Listed.carve {wanted : Nat}
    (hl : Listed m head tail (pre ++ b :: post)) (lay : Layout (pre ++ b :: post))
    (hroom : wanted + blockHeader ≤ b.size) :
    Listed (carved m b.addr wanted (blockPayload b.addr + wanted) (b.size - wanted - blockHeader)
        (firstAddr post)) head
      (if firstAddr post ≠ 0 then tail else blockPayload b.addr + wanted)
      (pre ++ { b with size := wanted } ::
        ([⟨blockPayload b.addr + wanted, b.size - wanted - blockHeader, true⟩] ++ post)) := by
  have hmem : b ∈ pre ++ b :: post := by simp
  have hpos := lay.pos b hmem
  have hstop := lay.stop_le b hmem
  have hsepb : ∀ x ∈ pre ++ post, Sep b.addr x.addr := fun x hx => (lay.apart_of x hx).symm.sep
  have hsepf := lay.first_sep
  have hflt := lay.first_lt
  obtain ⟨r, hr⟩ : ∃ r, r = blockPayload b.addr + wanted := ⟨_, rfl⟩
  have hfirst : firstAddr post = 0 ∨ ∃ x ∈ pre ++ post, firstAddr post = x.addr := by
    cases post with
    | nil => exact .inl rfl
    | cons y ys => exact .inr ⟨y, by simp, rfl⟩
  -- The new header lies in the payload of the block.
  have hsepr : ∀ x ∈ pre ++ post, Sep r x.addr := by
    intro x hx
    have hapart := lay.apart_of x hx
    simp only [Block.Apart, Block.stop, Sep, blockHeader, blockPayload] at hapart hr hroom ⊢
    omega
  have hbr : Sep b.addr r := by
    simp only [Sep, blockHeader, blockPayload] at hr ⊢
    omega
  simp only [Block.stop, blockHeader, kernelDirectLimit] at hstop hroom
  have hrlt : r < 2 ^ 64 ∧ 0 < r := by
    simp only [blockHeader, blockPayload] at hr
    omega
  rw [← hr]
  obtain ⟨f, hf⟩ : ∃ f, f = firstAddr post := ⟨_, rfl⟩
  rw [← hf] at hsepf hflt
  have hfb : f ≠ 0 → Sep f b.addr := hsepf b (by simp)
  have hfr : f ≠ 0 → Sep f r := by
    intro hne
    obtain hzero | ⟨x, hx, heq⟩ := hfirst
    · exact absurd (hf.trans hzero) hne
    · rw [hf, heq]
      exact (hsepr x hx).symm
  have hatb : readBlock (carved m b.addr wanted r (b.size - wanted - blockHeader) f) b.addr =
      { readBlock m b.addr with next := r, size := wanted } := by
    rw [carved, readBlock_setSize _ (by omega), readBlock_setNext _ (by omega),
      readBlock_linkBack_sep _ hfb, readBlock_fresh_sep _ hbr.symm]
  have hatr : readBlock (carved m b.addr wanted r (b.size - wanted - blockHeader) f) r =
      ⟨kmemMagicFree, b.size - wanted - blockHeader, true, b.addr, f⟩ := by
    rw [carved, readBlock_setSize_sep _ hbr, readBlock_setNext_sep _ hbr,
      readBlock_linkBack_sep _ hfr,
      readBlock_fresh _ (by decide) (by simp only [blockHeader]; omega) (by omega) hflt]
  subst hf
  have hl' : Listed m head tail (pre ++ b :: ([] ++ post)) := hl
  refine hl'.relink lay.pos rfl ?_ ?_ (by rw [hatb]) ?_ ?_ rfl ?_
  · intro x hx
    have hx' : x ∈ pre ++ post := by
      rcases mem_append.mp hx with hx | hx
      · exact mem_append_left _ hx
      · exact mem_append_right _ (mem_of_mem_tail hx)
    have hxf := hsepf x (by simp only [mem_append, mem_cons] at hx ⊢; exact hx.imp_right .inr)
    rw [carved, readBlock_setSize_sep _ (hsepb x hx'), readBlock_setNext_sep _ (hsepb x hx'),
      readBlock_linkBack_sep _ hxf, readBlock_fresh_sep _ (hsepr x hx')]
  · intro hne
    rw [carved, readBlock_setSize_sep _ (hfb hne).symm, readBlock_setNext_sep _ (hfb hne).symm,
      readBlock_linkBack _ hne hrlt.1, readBlock_fresh_sep _ (hfr hne).symm]
  · intro x hx
    rcases mem_cons.mp hx with rfl | hx
    · rw [Tagged, hatb]
      exact ⟨hl.magic b hmem, rfl, hl.free b hmem⟩
    · rw [mem_singleton.mp hx, Tagged, hatr]
      exact ⟨rfl, rfl, rfl⟩
  · refine ⟨?_, ?_, trivial⟩
    · rw [nextOf, if_neg (Nat.ne_of_gt hpos), hatb]
    · rw [prevOf, if_neg (Nat.ne_of_gt hrlt.2), hatr]
  · rw [nextOf, if_neg (Nat.ne_of_gt hrlt.2), hatr]

/-- The memory behind one turn of `mergeForward` and behind the merge of `growInPlace`. -/
def merged (m : ByteMemory) (b size n next : Nat) : ByteMemory :=
  setMagic (linkBack (setNext (setSize m b size) b next) next b) n 0

/-- Two neighbours become one block. -/
theorem Listed.merge {n : Block}
    (hl : Listed m head tail (pre ++ b :: n :: post)) (lay : Layout (pre ++ b :: n :: post))
    (hadj : b.stop = n.addr) :
    Listed (merged m b.addr (b.size + blockHeader + n.size) n.addr (firstAddr post)) head
      (if firstAddr post ≠ 0 then tail else b.addr)
      (pre ++ { b with size := b.size + blockHeader + n.size } :: post) := by
  have hmem : b ∈ pre ++ b :: n :: post := by simp
  have hpos := lay.pos b hmem
  have hstop := lay.stop_le n (by simp)
  have hsepb : ∀ x ∈ pre ++ n :: post, Sep b.addr x.addr := fun x hx => (lay.apart_of x hx).symm.sep
  have lay' : Layout ((pre ++ [b]) ++ n :: post) := by simpa using lay
  have hsepn : ∀ x ∈ pre ++ [b] ++ post, Sep n.addr x.addr :=
    fun x hx => (lay'.apart_of x hx).symm.sep
  have hsepf := lay'.first_sep
  have hflt := lay'.first_lt
  have hbn := hsepn b (by simp)
  simp only [Block.stop, blockHeader, kernelDirectLimit] at hstop hadj
  have hfb : firstAddr post ≠ 0 → Sep (firstAddr post) b.addr := hsepf b (by simp)
  have hfn : firstAddr post ≠ 0 → Sep n.addr (firstAddr post) :=
    fun hne => (hsepf n (by simp) hne).symm
  -- the header of `b` after all stores; the stores to other headers are apart from it
  have hatb : readBlock (merged m b.addr (b.size + blockHeader + n.size) n.addr
      (firstAddr post)) b.addr =
      { readBlock m b.addr with
        size := b.size + blockHeader + n.size
        next := firstAddr post } := by
    rw [merged, readBlock_setMagic_sep _ hbn, readBlock_linkBack_sep _ hfb,
      readBlock_setNext _ hflt, readBlock_setSize _ (by simp only [blockHeader]; omega)]
  have hl' : Listed m head tail (pre ++ b :: ([n] ++ post)) := hl
  change Listed _ head _ (pre ++ { b with size := b.size + blockHeader + n.size } :: ([] ++ post))
  refine hl'.relink lay.pos rfl ?_ ?_ (by rw [hatb]) ?_ trivial rfl ?_
  · intro x hx
    have hx' : x ∈ pre ∨ x ∈ post := (mem_append.mp hx).imp_right mem_of_mem_tail
    have hxb := hsepb x (by simp only [mem_append, mem_cons]; exact hx'.imp_right .inr)
    have hxn := hsepn x (by
      simp only [mem_append]
      exact hx'.imp_left .inl)
    have hxf := hsepf x (by
      simp only [mem_append, mem_cons] at hx ⊢
      exact hx.imp .inl .inr)
    rw [merged, readBlock_setMagic_sep _ hxn, readBlock_linkBack_sep _ hxf,
      readBlock_setNext_sep _ hxb, readBlock_setSize_sep _ hxb]
  · intro hne
    have hbf := (hfb hne).symm
    rw [merged, readBlock_setMagic_sep _ (hfn hne), readBlock_linkBack _ hne (by omega),
      readBlock_setNext_sep _ hbf, readBlock_setSize_sep _ hbf]
  · intro x hx
    rw [mem_singleton.mp hx, Tagged, hatb]
    exact ⟨hl.magic b hmem, rfl, hl.free b hmem⟩
  · rw [nextOf, if_neg (Nat.ne_of_gt hpos), hatb]

/-- A block changes hands. -/
theorem Listed.retag (hl : Listed m head tail (pre ++ b :: post))
    (lay : Layout (pre ++ b :: post)) (free : Bool) :
    Listed (setMagic (setFree m b.addr free) b.addr ({ b with free := free } : Block).magic)
      head tail (pre ++ { b with free := free } :: post) := by
  have hmem : b ∈ pre ++ b :: post := by simp
  have hsepb : ∀ x ∈ pre ++ post, Sep b.addr x.addr := fun x hx => (lay.apart_of x hx).symm.sep
  have hmagic : ({ b with free := free } : Block).magic < 2 ^ 64 := by
    cases free
    · exact (by decide : kmemMagicAlloc < 2 ^ 64)
    · exact (by decide : kmemMagicFree < 2 ^ 64)
  have hatb := readBlock_setMagic (setFree m b.addr free) (b := b.addr) hmagic
  rw [readBlock_setFree] at hatb
  have hout : ∀ x ∈ pre ++ post,
      readBlock (setMagic (setFree m b.addr free) b.addr ({ b with free := free } : Block).magic)
        x.addr = readBlock m x.addr := by
    intro x hx
    rw [readBlock_setMagic_sep _ (hsepb x hx), readBlock_setFree_sep _ (hsepb x hx)]
  refine hl.relabel (by simp) ?_ ?_
  · intro x hx
    rcases mem_middle.mp hx with rfl | hx
    · rw [hatb]
      exact ⟨rfl, rfl⟩
    · rw [hout x hx]
      exact ⟨rfl, rfl⟩
  · intro x hx
    rcases mem_middle.mp hx with rfl | hx
    · rw [Tagged, hatb]
      exact ⟨rfl, hl.size b hmem, rfl⟩
    · rw [Tagged, hout x hx]
      exact hl.tagged (mem_middle.mpr (.inr hx))

/-- The memory behind `insertBlock` on a new header. -/
def appended (m : ByteMemory) (b size tail : Nat) : ByteMemory :=
  let m := setNext (setPrev (setFree (setSize (setMagic m b kmemMagicFree) b size) b true) b 0) b 0
  let m := setPrev (setNext m b 0) b tail
  if tail ≠ 0 then setNext m tail b else m

/-- A free block comes in at the end. -/
theorem Listed.append (hl : Listed m head tail bs)
    (lay : Layout (bs ++ [b])) (hfree : b.free = true) :
    Listed (appended m b.addr b.size tail) (if tail ≠ 0 then head else b.addr) b.addr
      (bs ++ [b]) := by
  have hpos := lay.pos b (by simp)
  have hstop := lay.stop_le b (by simp)
  simp only [Block.stop, blockHeader, kernelDirectLimit] at hstop
  have hsepb : ∀ x ∈ bs, Sep b.addr x.addr :=
    fun x hx => (lay.apart_of x (by simpa using hx)).symm.sep
  have htail := hl.tail_eq
  have hmagic : b.magic = kmemMagicFree := by rw [Block.magic, if_pos hfree]
  -- The header of the new block before the last one points at it.
  have hfresh : ∀ t < 2 ^ 64, readBlock (setPrev (setNext (setNext (setPrev (setFree (setSize
      (setMagic m b.addr kmemMagicFree) b.addr b.size) b.addr true) b.addr 0) b.addr 0) b.addr 0)
      b.addr t) b.addr = ⟨b.magic, b.size, b.free, t, 0⟩ := by
    intro t ht
    rw [readBlock_setPrev _ ht, readBlock_setNext _ (by decide),
      readBlock_fresh _ (by decide) (by omega) (by decide) (by decide), hmagic, hfree]
  rcases eq_nil_or_concat bs with rfl | ⟨pre, l, rfl⟩
  · have ht : tail = 0 := htail
    subst ht
    have hatb : readBlock (appended m b.addr b.size 0) b.addr = ⟨b.magic, b.size, b.free, 0, 0⟩ :=
      hfresh 0 (by decide)
    refine .of_tagged (fun x hx => ?_) ⟨?_, ?_, ?_, ?_, trivial⟩
    · rw [mem_singleton.mp hx, Tagged, hatb]
      exact ⟨rfl, rfl, rfl⟩
    · rw [nextOf, if_pos rfl, if_neg (by simp)]
    · rw [prevOf, if_neg (Nat.ne_of_gt hpos), hatb]
    · rw [nextOf, if_neg (Nat.ne_of_gt hpos), hatb]
    · rw [prevOf, if_pos rfl]
  · rw [concat_eq_append] at *
    have ht : tail = l.addr := by rw [htail, lastAddr_concat]
    subst ht
    have hlmem : l ∈ pre ++ [l] := by simp
    have hlpos : l.addr ≠ 0 := Nat.ne_of_gt (lay.pos l (by simp))
    have hlstop := lay.stop_le l (by simp)
    simp only [Block.stop, kernelDirectLimit] at hlstop
    have hlb := (hsepb l hlmem).symm
    have lay' : Layout (pre ++ l :: [b]) := by simpa using lay
    have hsepl : ∀ x ∈ pre, Sep l.addr x.addr := fun x hx =>
      (lay'.apart_of x (mem_append_left _ hx)).symm.sep
    have hatb : readBlock (appended m b.addr b.size l.addr) b.addr =
        ⟨b.magic, b.size, b.free, l.addr, 0⟩ := by
      rw [appended, if_pos hlpos, readBlock_setNext_sep _ hlb]
      exact hfresh l.addr (by omega)
    have hatl : readBlock (appended m b.addr b.size l.addr) l.addr =
        { readBlock m l.addr with next := b.addr } := by
      rw [appended, if_pos hlpos, readBlock_setNext _ (by omega), readBlock_setPrev_sep _ hlb.symm,
        readBlock_setNext_sep _ hlb.symm, readBlock_fresh_sep _ hlb.symm]
    have hl' : Listed m head l.addr (pre ++ l :: ([] ++ [])) := hl
    rw [if_pos hlpos, append_assoc, singleton_append]
    change Listed _ head (if firstAddr [] ≠ 0 then l.addr else b.addr) (pre ++ l :: ([b] ++ []))
    refine hl'.relink (fun x hx => lay.pos x ?_) rfl ?_ (fun h => absurd rfl h)
      (by rw [hatl]) ?_ ?_ rfl ?_
    · exact mem_append_left _ (by simpa using hx)
    · intro x hx
      have hx' : x ∈ pre := by simpa using hx
      have hxb := hsepb x (mem_append_left _ hx')
      rw [appended, if_pos hlpos, readBlock_setNext_sep _ (hsepl x hx'),
        readBlock_setPrev_sep _ hxb, readBlock_setNext_sep _ hxb, readBlock_fresh_sep _ hxb]
    · intro x hx
      rcases mem_cons.mp hx with rfl | hx
      · rw [Tagged, hatl]
        exact hl.tagged hlmem
      · rw [mem_singleton.mp hx, Tagged, hatb]
        exact ⟨rfl, rfl, rfl⟩
    · refine ⟨?_, ?_, trivial⟩
      · rw [nextOf, if_neg hlpos, hatl]
      · rw [prevOf, if_neg (Nat.ne_of_gt hpos), hatb]
    · rw [nextOf, if_neg (Nat.ne_of_gt hpos), hatb]
      rfl

end Rabbitbone.Spec.Mm
