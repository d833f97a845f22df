import Mathlib.Data.List.Chain
import Rabbitbone.ForStd.Intervals
import Rabbitbone.ForStd.Run
import Rabbitbone.Native.User.Heap

/-!
# Allocations of a user program

The list of the heap is in the order of the addresses, but neighbours in it need not be neighbours
in memory: the program may move the break between two growths of the heap.  `au_heap_coalesce` and
`realloc` join neighbours in the list all the same, and the joined block reaches as far into the
program's region as the second block is long.

`Sound` is what a program relies on.  It holds all along a run in which the blocks that `free` and
`realloc` may join touch each other (`Joinable`).
-/

namespace Rabbitbone.Spec.User

open Native.User Program List

/-! ### What a program relies on -/

/-- Two ranges share a byte. -/
def Overlap (a m b n : Nat) : Prop := max a b < min (a + m) (b + n)

instance (a m b n : Nat) : Decidable (Overlap a m b n) := inferInstanceAs (Decidable (_ < _))

/-- The bytes behind a pointer: the size of its block. -/
def extent (h : UserHeap) (ptr : Nat) : Nat :=
  match blockOf h ptr with
  | none => 0
  | some (_, b, _) => b.size

/-- The allocations are large enough, and lie apart from each other and from the program's own
regions. -/
structure Sound (s : Program) : Prop where
  large : ∀ a ∈ s.live, a.2 ≤ extent s.heap a.1
  disjoint : s.live.Pairwise fun a c => ¬Overlap a.1 (extent s.heap a.1) c.1 (extent s.heap c.1)
  outside : ∀ a ∈ s.live, ∀ r ∈ s.own, ¬Overlap a.1 (extent s.heap a.1) r.1 r.2

/-- Neighbours in the list that are free, or the block of `ptr`, touch each other. -/
def Joinable (ptr : Nat) (bs : List HeapBlock) : Prop :=
  bs.IsChain fun a b => (a.free ∨ a.payload = ptr) → (b.free ∨ b.payload = ptr) → a.stop = b.addr

instance (ptr : Nat) (bs : List HeapBlock) : Decidable (Joinable ptr bs) :=
  inferInstanceAs (Decidable (bs.IsChain _))

/-- A `realloc` that needs no more than the block of `ptr`, or that is refused for its size. -/
def Fits (h : UserHeap) (ptr n : Nat) : Bool :=
  n ≠ 0 && (auAlignUp n heapAlign).all (· ≤ extent h ptr)

/-- The calls that join no blocks with something between them. -/
def Safe (s : Program) : HeapCall → Prop
  | .realloc ptr n _ => ptr ≠ 0 → Fits s.heap ptr n = false → Joinable ptr s.heap.blocks
  | .free ptr => Joinable ptr s.heap.blocks
  | _ => True

instance (s : Program) (c : HeapCall) : Decidable (Safe s c) := by
  cases c <;> simp only [Safe] <;> infer_instance

/-! ### Blocks and where they lie -/

variable {own live : List (Nat × Nat)} {h h' : UserHeap} {s : Program} {ptr size m n p merged : Nat}
  {bs pre old new post before : List HeapBlock} {b c : HeapBlock}

/-- A byte of one of the blocks. -/
abbrev Bytes (bs : List HeapBlock) (i : Nat) : Prop := Covered HeapBlock.addr HeapBlock.stop bs i

/-- The blocks lie in the order of the list. -/
abbrev InOrder (bs : List HeapBlock) : Prop := Laid HeapBlock.addr HeapBlock.stop bs

private theorem addr_lt_stop (b : HeapBlock) : b.addr < b.stop := by
  simp only [HeapBlock.stop, HeapBlock.payload, headerSize]
  omega

private theorem laid_singleton (b : HeapBlock) : InOrder [b] := by
  refine ⟨fun a ha => ?_, pairwise_singleton _ b⟩
  exact addr_lt_stop a

private theorem covered_retag {used : Bool} (i : Nat) (hi : Bytes [{ b with free := used }] i) :
    Bytes [b] i := by
  obtain ⟨c, hc, hi⟩ := hi
  obtain rfl := mem_singleton.mp hc
  exact ⟨b, mem_singleton_self b, hi⟩

/-- The blocks lie in order below the break, and outside the regions of the program. -/
structure Placed (own : List (Nat × Nat)) (h : UserHeap) : Prop where
  laid : InOrder h.blocks
  below : ∀ i, Bytes h.blocks i → i < h.brk
  own : ∀ r ∈ own, ∀ i, r.1 ≤ i → i < r.1 + r.2 → i < h.brk ∧ ¬Bytes h.blocks i

/-- Every block ends before the break. -/
theorem Placed.stop_le (hp : Placed own h) (hb : b ∈ h.blocks) : b.stop ≤ h.brk := by
  have hlt := addr_lt_stop b
  have := hp.below (b.stop - 1) ⟨b, hb, by omega, by omega⟩
  omega

/-- A pointer belongs to one block only. -/
theorem Placed.payload_inj (hp : Placed own h) (hb : b ∈ h.blocks) (hc : c ∈ h.blocks)
    (heq : b.payload = c.payload) : b = c := by
  by_contra hne
  have h₁ := addr_lt_stop b
  have h₂ := addr_lt_stop c
  have := hp.laid.apart hb hc hne
  simp only [HeapBlock.payload] at heq
  omega

/-- The pointer of a block above the break is new. -/
theorem Placed.payload_ne (hp : Placed own h) (hb : b ∈ h.blocks) :
    b.payload ≠ h.brk + headerSize := by
  have hstop := hp.stop_le hb
  have hlt := addr_lt_stop b
  simp only [HeapBlock.payload]
  omega

/-- New blocks on the bytes of old ones. -/
theorem Placed.replace (hp : Placed own h) (heq : h.blocks = pre ++ (old ++ post))
    (hnew : InOrder new) (hsub : ∀ i, Bytes new i → Bytes old i) :
    Placed own { h with blocks := pre ++ (new ++ post) } := by
  have hcov : ∀ i, Bytes (pre ++ (new ++ post)) i → Bytes h.blocks i := by
    intro i hi
    rw [heq]
    refine covered_append.mpr ((covered_append.mp hi).imp_right fun hi => ?_)
    exact covered_append.mpr ((covered_append.mp hi).imp_left (hsub i))
  have hlaid := hp.laid
  rw [heq] at hlaid
  exact ⟨hlaid.replace hnew hsub, fun i hi => hp.below i (hcov i hi),
    fun r hr i hle hlt => (hp.own r hr i hle hlt).imp_right fun hno hi => hno (hcov i hi)⟩

/-! ### The functions on the list -/

private theorem locate_eq_some {p : HeapBlock → Bool} (h : locate p bs = some (pre, b, post)) :
    bs = pre ++ b :: post ∧ p b := by
  induction bs generalizing pre with
  | nil => cases h
  | cons c bs ih =>
    unfold locate at h
    split at h
    · cases h
      exact ⟨rfl, ‹_›⟩
    cases hrec : locate p bs with
    | none => simp only [hrec, Option.map_none, reduceCtorEq] at h
    | some found =>
      simp only [hrec, Option.map_some, Option.some.injEq, Prod.mk.injEq] at h
      obtain ⟨rfl, rfl, rfl⟩ := h
      obtain ⟨heq, hb⟩ := ih hrec
      exact ⟨congrArg (c :: ·) heq, hb⟩

private theorem locate_ne_none {p : HeapBlock → Bool} (hb : b ∈ bs) (hpb : p b) :
    locate p bs ≠ none := by
  induction bs with
  | nil => cases hb
  | cons c bs ih =>
    unfold locate
    split
    · exact Option.some_ne_none _
    rename_i hc
    rcases mem_cons.mp hb with rfl | hb
    · exact absurd hpb hc
    · exact fun hnone => ih hb (Option.map_eq_none_iff.mp hnone)

/-- An allocated block is found by its pointer. -/
theorem Placed.blockOf_eq (hp : Placed own h) (hb : b ∈ h.blocks) (hused : b.free = false) :
    ∃ pre post, h.blocks = pre ++ b :: post ∧ blockOf h b.payload = some (pre, b, post) := by
  cases hfound : blockOf h b.payload with
  | none => exact absurd hfound (locate_ne_none hb (by simp [hused]))
  | some found =>
    obtain ⟨pre, c, post⟩ := found
    obtain ⟨heq, hc⟩ := locate_eq_some hfound
    simp only [Bool.and_eq_true, beq_iff_eq] at hc
    have hcb : c = b := hp.payload_inj (heq ▸ mem_append_right pre mem_cons_self) hb hc.1
    exact ⟨pre, post, hcb ▸ heq, by rw [hcb]⟩

private theorem split_cases (b : HeapBlock) (size : Nat) :
    auHeapSplit b size = [b] ∨ size + (headerSize + heapAlign) ≤ b.size ∧ auHeapSplit b size =
        [{ b with size := size }, ⟨b.payload + size, b.size - size - headerSize, true⟩] := by
  unfold auHeapSplit
  split
  · exact .inl rfl
  split
  · exact .inl rfl
  · rename_i h
    exact .inr ⟨by omega, rfl⟩

/-- The parts of a block lie on its bytes. -/
theorem split_laid (b : HeapBlock) (size : Nat) :
    InOrder (auHeapSplit b size) ∧ ∀ i, Bytes (auHeapSplit b size) i → Bytes [b] i := by
  rcases split_cases b size with heq | ⟨hroom, heq⟩
  · rw [heq]
    exact ⟨laid_singleton b, fun i hi => hi⟩
  rw [heq]
  simp only [headerSize, heapAlign] at hroom
  constructor
  · refine ⟨fun a _ => addr_lt_stop a, pairwise_pair.mpr ?_⟩
    simp only [HeapBlock.stop, HeapBlock.payload, Nat.le_refl]
  · rintro i ⟨c, hc, hle, hlt⟩
    refine ⟨b, mem_singleton_self b, ?_⟩
    rcases mem_pair.mp hc with rfl | rfl
    · simp only [HeapBlock.stop, HeapBlock.payload, headerSize] at hle hlt ⊢
      omega
    · simp only [HeapBlock.stop, HeapBlock.payload, headerSize] at hle hlt ⊢
      omega

/-- The first part is the block itself with the size that is asked for. -/
theorem split_head (hle : size ≤ b.size) :
    ∃ n, size ≤ n ∧ { b with size := n } ∈ auHeapSplit b size := by
  rcases split_cases b size with heq | ⟨-, heq⟩
  · exact ⟨b.size, hle, heq ▸ mem_singleton_self b⟩
  · exact ⟨size, Nat.le_refl _, heq ▸ mem_cons_self⟩

private theorem joinSize_eq {left right : Nat} (h : auHeapJoinSize left right = some merged) :
    merged = left + (headerSize + right) := by
  unfold auHeapJoinSize at h
  split at h
  · cases h
  · exact (Option.some.inj h).symm

/-- Two blocks that touch make one on the same bytes. -/
theorem covered_joined {n : HeapBlock} (htouch : b.stop = n.addr)
    (hm : auHeapJoinSize b.size n.size = some merged) (i : Nat)
    (hi : Bytes [{ b with size := merged }] i) : Bytes [b, n] i := by
  obtain ⟨c, hc, hle, hlt⟩ := hi
  obtain rfl := mem_singleton.mp hc
  have hm := joinSize_eq hm
  by_cases hb : i < b.stop
  · exact ⟨b, mem_cons_self, hle, hb⟩
  refine ⟨n, mem_cons_of_mem _ mem_cons_self, by omega, ?_⟩
  simp only [HeapBlock.stop, HeapBlock.payload] at htouch hlt ⊢
  omega

/-! ### Giving back -/

/-- What an edit of the list keeps: the place of the blocks and the allocated ones, but that of
`ptr`. -/
structure Edits (own : List (Nat × Nat)) (h : UserHeap) (ptr : Nat) (h' : UserHeap) : Prop where
  placed : Placed own h'
  keeps : ∀ b ∈ h.blocks, b.free = false → b.payload ≠ ptr → b ∈ h'.blocks

/-- Joining with the next block, which touches this one if it is free. -/
theorem joinNext_spec (hp : Placed own { h with blocks := pre ++ b :: post })
    (htouch : ∀ n ∈ post.head?, n.free → b.stop = n.addr) :
    Placed own { h with blocks := pre ++ joinNext b post } ∧
      (∀ x ∈ post, x.free = false → x ∈ joinNext b post) ∧
      ∃ n rest, joinNext b post = { b with size := n } :: rest := by
  unfold joinNext
  split
  · exact ⟨hp, fun x hx => absurd hx not_mem_nil, b.size, [], rfl⟩
  rename_i n rest
  split
  · rename_i hfree
    split
    · exact ⟨hp, fun x hx _ => mem_cons_of_mem b hx, b.size, n :: rest, rfl⟩
    rename_i merged hm
    refine ⟨?_, fun x hx hused => ?_, merged, rest, rfl⟩
    · have heq : ({ h with blocks := pre ++ b :: n :: rest } : UserHeap).blocks =
          pre ++ ([b, n] ++ rest) := rfl
      exact hp.replace heq (laid_singleton _) (covered_joined (htouch n rfl hfree) hm)
    · rcases mem_cons.mp hx with rfl | hx
      · rw [hused] at hfree
        cases hfree
      · exact mem_cons_of_mem _ hx
  · exact ⟨hp, fun x hx _ => mem_cons_of_mem b hx, b.size, n :: rest, rfl⟩

/-- Joining a free block with its free neighbours, which touch each other. -/
theorem coalesce_spec (hp : Placed own { h with blocks := before.reverse ++ b :: post })
    (hfree : b.free) (htouch : ∀ n ∈ post.head?, n.free → b.stop = n.addr)
    (hchain : (b :: before).IsChain fun c a => c.free → a.free → a.stop = c.addr) :
    Placed own { h with blocks := auHeapCoalesce before b post } ∧
      ∀ x ∈ before.reverse ++ post, x.free = false → x ∈ auHeapCoalesce before b post := by
  induction before generalizing b post with
  | nil =>
    obtain ⟨hplaced, hkeeps, -⟩ := joinNext_spec hp htouch
    exact ⟨hplaced, hkeeps⟩
  | cons p before ih =>
    obtain ⟨hplaced, hkeeps, n, rest, hhead⟩ := joinNext_spec hp htouch
    obtain ⟨hpb, hchain⟩ := isChain_cons_cons.mp hchain
    simp only [reverse_cons, append_assoc, singleton_append] at hplaced ⊢
    unfold auHeapCoalesce
    split
    · rename_i hpfree
      -- The block before is free too: it takes in what has become of this one.
      have hnext : ∀ c ∈ (joinNext b post).head?, c.free → p.stop = c.addr := by
        intro c hc _
        rw [hhead, head?_cons, Option.mem_some_iff] at hc
        rw [← hc]
        exact hpb hfree hpfree
      obtain ⟨hplaced, hmem⟩ := ih hplaced hpfree hnext hchain
      refine ⟨hplaced, fun x hx hused => ?_⟩
      rcases mem_append.mp hx with hx | hx
      · exact hmem x (mem_append_left _ hx) hused
      rcases mem_cons.mp hx with rfl | hx
      · rw [hused] at hpfree
        cases hpfree
      · exact hmem x (mem_append_right _ (hkeeps x hx hused)) hused
    · refine ⟨hplaced, fun x hx hused => ?_⟩
      rcases mem_append.mp hx with hx | hx
      · exact mem_append_left _ hx
      rcases mem_cons.mp hx with rfl | hx
      · exact mem_append_right _ mem_cons_self
      · exact mem_append_right _ (mem_cons_of_mem _ (hkeeps x hx hused))

/-- Once the block of the pointer is free, all free neighbours touch each other. -/
theorem Joinable.freed (h : Joinable b.payload (pre ++ b :: post)) :
    (pre ++ { b with free := true } :: post).IsChain
      fun a c => a.free → c.free → a.stop = c.addr := by
  obtain ⟨hpre, htail, hcross⟩ := isChain_append.mp h
  obtain ⟨hnext, hpost⟩ := isChain_cons.mp htail
  refine isChain_append.mpr ⟨hpre.imp fun _ _ h ha hc => h (.inl ha) (.inl hc), ?_, ?_⟩
  · refine isChain_cons.mpr ⟨fun n hn _ hfree => ?_, ?_⟩
    · exact hnext n hn (.inr rfl) (.inl hfree)
    · exact hpost.imp fun _ _ h ha hc => h (.inl ha) (.inl hc)
  · intro x hx y hy hfree _
    rw [head?_cons, Option.mem_some_iff] at hy
    rw [← hy]
    exact hcross x hx b rfl (.inl hfree) (.inr rfl)

/-- `free` of an allocated block. -/
theorem free_spec (hp : Placed own h) (hb : b ∈ h.blocks) (hused : b.free = false)
    (hj : Joinable b.payload h.blocks) : Edits own h b.payload (free h b.payload) := by
  obtain ⟨pre, post, heq, hfound⟩ := hp.blockOf_eq hb hused
  have hplaced : Placed own
      { h with blocks := pre.reverse.reverse ++ { b with free := true } :: post } := by
    rw [reverse_reverse]
    have heq' : h.blocks = pre ++ ([b] ++ post) := heq
    exact hp.replace heq' (laid_singleton _) covered_retag
  rw [heq] at hj
  obtain ⟨hback, htail, hcross⟩ := isChain_append.mp hj.freed
  obtain ⟨hnext, -⟩ := isChain_cons.mp htail
  have hchain : ({ b with free := true } :: pre.reverse).IsChain
      fun c a => c.free → a.free → a.stop = c.addr := by
    refine isChain_cons.mpr ⟨fun a ha hc hfree => ?_, ?_⟩
    · rw [head?_reverse] at ha
      exact hcross a ha _ rfl hfree hc
    · exact isChain_reverse.mpr (hback.imp fun _ _ h ha hc => h hc ha)
  have hspec := coalesce_spec hplaced rfl (fun n hn hfree => hnext n hn rfl hfree) hchain
  unfold free
  rw [hfound]
  refine ⟨hspec.1, fun x hx hxused hne => hspec.2 x ?_ hxused⟩
  rw [heq] at hx
  rw [reverse_reverse]
  rcases mem_append.mp hx with hx | hx
  · exact mem_append_left _ hx
  rcases mem_cons.mp hx with rfl | hx
  · exact absurd rfl hne
  · exact mem_append_right _ hx

/-! ### Allocating -/

/-- A call returns the pointer `p` for `n` bytes, and gives the block of `ptr` up for it. -/
structure Grants (own : List (Nat × Nat)) (h : UserHeap) (ptr n p : Nat) (h' : UserHeap) : Prop
    extends Edits own h ptr h' where
  fresh : ∀ b ∈ h.blocks, b.free = false → b.payload ≠ ptr → b.payload ≠ p
  serves : ∃ b ∈ h'.blocks, b.free = false ∧ b.payload = p ∧ n ≤ b.size

theorem Grants.mono (hg : Grants own h ptr n p h') (hle : m ≤ n) : Grants own h ptr m p h' := by
  obtain ⟨b, hb, hused, hpay, hsize⟩ := hg.serves
  exact { hg with serves := ⟨b, hb, hused, hpay, Nat.le_trans hle hsize⟩ }

private theorem le_of_alignUp {v align w : Nat} (hpos : 0 < align)
    (h : auAlignUp v align = some w) :
    v ≤ w := by
  unfold auAlignUp at h
  split at h
  · cases h
  obtain rfl := Option.some.inj h
  have hmod := Nat.mod_lt (v + (align - 1)) hpos
  have hdiv := Nat.div_add_mod' (v + (align - 1)) align
  omega

/-- A call that puts the block `c` on the bytes of old blocks and splits it. -/
theorem grants_here (hp : Placed own h) (heq : h.blocks = pre ++ (old ++ post))
    (hused : c.free = false) (hcov : ∀ i, Bytes [c] i → Bytes old i) (hle : size ≤ c.size)
    (hold : ∀ x ∈ old, x.free = false → x.payload = ptr)
    (hfresh : ∀ x ∈ h.blocks, x.free = false → x.payload ≠ ptr → x.payload ≠ c.payload) :
    Grants own h ptr size c.payload { h with blocks := pre ++ (auHeapSplit c size ++ post) } := by
  obtain ⟨hlaid, hsub⟩ := split_laid c size
  obtain ⟨n, hn, hhead⟩ := split_head hle
  have hplaced := hp.replace heq hlaid fun i hi => hcov i (hsub i hi)
  refine ⟨⟨hplaced, fun x hx hxused hne => ?_⟩, hfresh, ?_⟩
  · rw [heq, mem_append, mem_append] at hx
    rw [mem_append, mem_append]
    rcases hx with hx | hx | hx
    · exact .inl hx
    · exact absurd (hold x hx hxused) hne
    · exact .inr (.inr hx)
  · exact ⟨_, mem_append_right _ (mem_append_left _ hhead), hused, rfl, hn⟩

/-- An allocated block and the rest behind it, which ends where the next block of interest starts.
-/
theorem joinable_split (hused : c.free = false) (hne : c.payload ≠ ptr) (hpre : Joinable ptr pre)
    (hpost : Joinable ptr post)
    (hend : ∀ n ∈ post.head?, (n.free ∨ n.payload = ptr) → c.stop = n.addr) :
    Joinable ptr (pre ++ (auHeapSplit c size ++ post)) := by
  have hnot : ∀ n, ¬(({ c with size := n } : HeapBlock).free = true ∨
      ({ c with size := n } : HeapBlock).payload = ptr) := by
    intro n hor
    exact hor.elim (fun h => Bool.false_ne_true (hused.symm.trans h)) hne
  rcases split_cases c size with heq | ⟨hroom, heq⟩
  · rw [heq]
    refine isChain_append.mpr ⟨hpre, isChain_cons.mpr ⟨fun n _ ha _ => ?_, hpost⟩, ?_⟩
    · exact absurd ha (hnot c.size)
    · intro x _ y hy _ hc
      rw [singleton_append, head?_cons, Option.mem_some_iff] at hy
      exact absurd (hy ▸ hc) (hnot c.size)
  · rw [heq]
    refine isChain_append.mpr ⟨hpre, ?_, ?_⟩
    · refine isChain_cons_cons.mpr ⟨fun ha _ => absurd ha (hnot size), ?_⟩
      refine isChain_cons.mpr ⟨fun n hn _ hc => ?_, hpost⟩
      rw [← hend n hn hc]
      simp only [HeapBlock.stop, HeapBlock.payload, headerSize, heapAlign] at hroom ⊢
      omega
    · intro x _ y hy _ hc
      rw [cons_append, head?_cons, Option.mem_some_iff] at hy
      exact absurd (hy ▸ hc) (hnot size)

/-- What `malloc` and its parts do: nothing, or return a pointer of their own. -/
def Mallocs (own : List (Nat × Nat)) (h : UserHeap) (n : Nat) (r : Option Nat × UserHeap) : Prop :=
  r = (none, h) ∨ ∃ p h', r = (some p, h') ∧ Grants own h 0 n p h' ∧
    ∀ b ∈ h.blocks, b.free = false → Joinable b.payload h.blocks → Joinable b.payload h'.blocks

private theorem sbrk_eq_some {increment mem : Nat} {grant : Bool}
    (hs : sbrk h increment grant = some (mem, h')) :
    mem = h.brk ∧ h' = { h with brk := h.brk + increment } := by
  unfold sbrk at hs
  split at hs
  · cases hs
    exact ⟨rfl, rfl⟩
  · cases hs

/-- A block on the bytes that the break has passed. -/
theorem grants_above {size request : Nat} (hp : Placed own h) (hle : headerSize + size ≤ request) :
    Grants own h 0 size (h.brk + headerSize)
      ⟨h.blocks ++ auHeapSplit ⟨h.brk, request - headerSize, false⟩ size, h.brk + request⟩ := by
  obtain ⟨hlaid, hsub⟩ := split_laid ⟨h.brk, request - headerSize, false⟩ size
  have hfits : size ≤ (⟨h.brk, request - headerSize, false⟩ : HeapBlock).size :=
    Nat.le_sub_of_add_le' hle
  obtain ⟨n, hn, hhead⟩ := split_head hfits
  have hnew : ∀ i, Bytes
      (auHeapSplit ⟨h.brk, request - headerSize, false⟩ size) i →
        h.brk ≤ i ∧ i < h.brk + request := by
    intro i hi
    obtain ⟨c, hc, hi⟩ := hsub i hi
    obtain rfl := mem_singleton.mp hc
    simp only [HeapBlock.stop, HeapBlock.payload] at hi
    omega
  refine ⟨⟨⟨?_, ?_, ?_⟩, ?_⟩, ?_, ?_⟩
  · refine Laid.append_iff.mpr ⟨hp.laid, hlaid, fun a ha c hc => ?_⟩
    have hc := (hnew c.addr ⟨c, hc, Nat.le_refl _, addr_lt_stop c⟩).1
    exact Nat.le_trans (hp.stop_le ha) hc
  · intro i hi
    rcases covered_append.mp hi with hi | hi
    · exact Nat.lt_add_right _ (hp.below i hi)
    · exact (hnew i hi).2
  · intro r hr i hge hlt
    obtain ⟨hbrk, hno⟩ := hp.own r hr i hge hlt
    refine ⟨Nat.lt_add_right _ hbrk, fun hi => ?_⟩
    rcases covered_append.mp hi with hi | hi
    · exact hno hi
    · exact absurd (hnew i hi).1 (Nat.not_le_of_lt hbrk)
  · exact fun b hb _ _ => mem_append_left _ hb
  · intro b hb _ _
    exact hp.payload_ne hb
  · exact ⟨_, mem_append_right _ hhead, rfl, rfl, hn⟩

private theorem extend_spec (size : Nat) (grant : Bool) (hp : Placed own h) :
    Mallocs own h size (auHeapExtend h size grant) := by
  unfold auHeapExtend
  split
  · exact .inl rfl
  cases hreq : auAlignUp (headerSize + size) heapPage with
  | none => exact .inl rfl
  | some request =>
    dsimp only
    split
    · exact .inl rfl
    cases hs : sbrk h request grant with
    | none => exact .inl rfl
    | some grown =>
      obtain ⟨mem, h'⟩ := grown
      obtain ⟨rfl, rfl⟩ := sbrk_eq_some hs
      have hg := grants_above hp (le_of_alignUp (by decide) hreq)
      refine .inr ⟨_, _, rfl, hg, fun b hb _ hj => ?_⟩
      have hsplit : Joinable b.payload
          (h.blocks ++ (auHeapSplit ⟨h.brk, request - headerSize, false⟩ size ++ [])) :=
        joinable_split rfl (hp.payload_ne hb).symm hj IsChain.nil
          fun n hn => absurd hn (Option.not_mem_none n)
      rwa [append_nil] at hsplit

private theorem malloc_spec (n : Nat) (grant : Bool) (hp : Placed own h) :
    Mallocs own h n (malloc h n grant) := by
  unfold malloc
  split
  · exact .inl rfl
  cases hsize : auAlignUp n heapAlign with
  | none => exact .inl rfl
  | some size =>
    have hle : n ≤ size := le_of_alignUp (by decide) hsize
    dsimp only
    cases hfound : locate (fun b => b.free && size ≤ b.size) h.blocks with
    | none =>
      refine (extend_spec size grant hp).imp_right ?_
      rintro ⟨p, h', heq, hg, hj⟩
      exact ⟨p, h', heq, hg.mono hle, hj⟩
    | some found =>
      obtain ⟨pre, b, post⟩ := found
      obtain ⟨heq, hb⟩ := locate_eq_some hfound
      simp only [Bool.and_eq_true, decide_eq_true_eq] at hb
      have heq' : h.blocks = pre ++ ([b] ++ post) := heq
      -- No allocated block has the pointer of the free one.
      have hfresh : ∀ x ∈ h.blocks, x.free = false → x.payload ≠ b.payload := by
        intro x hx hused hpay
        have hxb := hp.payload_inj hx (heq ▸ mem_append_right pre mem_cons_self) hpay
        rw [hxb, hb.1] at hused
        cases hused
      have hg : Grants own h 0 size b.payload
          { h with blocks := pre ++ (auHeapSplit { b with free := false } size ++ post) } := by
        refine grants_here (c := { b with free := false }) hp heq' rfl covered_retag hb.2 ?_
          fun x hx hused _ => hfresh x hx hused
        intro x hx hused
        rw [mem_singleton.mp hx, hb.1] at hused
        cases hused
      refine .inr ⟨_, _, rfl, hg.mono hle, fun x hx hused hj => ?_⟩
      rw [heq] at hj
      obtain ⟨hpre, htail, -⟩ := isChain_append.mp hj
      obtain ⟨hnext, hpost⟩ := isChain_cons.mp htail
      exact joinable_split rfl (hfresh x hx hused).symm hpre hpost
        fun n hn => hnext n hn (.inl hb.1)

private theorem calloc_spec (count size : Nat) (grant : Bool) (hp : Placed own h) :
    Mallocs own h (count * size) (calloc h count size grant) := by
  unfold calloc
  split
  · exact .inl rfl
  · exact malloc_spec (count * size) grant hp

/-! ### Changing the size -/

/-- Growing into the free block behind, which touches this one. -/
theorem growInPlace_spec (hp : Placed own h) (heq : h.blocks = pre ++ b :: post)
    (hused : b.free = false) (htouch : ∀ n ∈ post.head?, n.free → b.stop = n.addr)
    (hg : growInPlace h pre b size post = some h') : Grants own h b.payload size b.payload h' := by
  unfold growInPlace at hg
  split at hg
  · cases hg
  rename_i n rest
  split at hg
  · rename_i hfree
    split at hg
    · cases hg
    rename_i merged hm
    split at hg
    · rename_i hle
      cases hg
      have heq' : h.blocks = pre ++ ([b, n] ++ rest) := heq
      refine grants_here (c := { b with size := merged }) hp heq' hused
        (covered_joined (htouch n rfl hfree) hm) hle ?_ fun x _ _ hne => hne
      intro x hx hxused
      rcases mem_pair.mp hx with rfl | rfl
      · rfl
      · rw [hfree] at hxused
        cases hxused
    · cases hg
  · cases hg

/-- Moving to a block of `malloc` and giving the old one back. -/
theorem grants_moved (hb : b ∈ h.blocks) (hused : b.free = false) (hg : Grants own h 0 n p h')
    (hj : Joinable b.payload h'.blocks) : Grants own h b.payload n p (free h' b.payload) := by
  have hne : ∀ x : HeapBlock, x.payload ≠ 0 := by
    intro x
    simp only [HeapBlock.payload, headerSize]
    omega
  have hfreed := free_spec hg.placed (hg.keeps b hb hused (hne b)) hused hj
  obtain ⟨c, hc, hcused, hpay, hsize⟩ := hg.serves
  refine ⟨⟨hfreed.placed, fun x hx hxused hxne => ?_⟩, fun x hx hxused _ => ?_, ?_⟩
  · exact hfreed.keeps x (hg.keeps x hx hxused (hne x)) hxused hxne
  · exact hg.fresh x hx hxused (hne x)
  · have hcb : c.payload ≠ b.payload := hpay ▸ (hg.fresh b hb hused (hne b)).symm
    exact ⟨c, hfreed.keeps c hc hcused hcb, hcused, hpay, hsize⟩

private theorem Placed.extent_eq (hp : Placed own h) (hb : b ∈ h.blocks) (hused : b.free = false) :
    extent h b.payload = b.size := by
  obtain ⟨pre, post, -, hfound⟩ := hp.blockOf_eq hb hused
  unfold extent
  rw [hfound]

/-- `realloc` of an allocated block: it fails, gives the block back for the size 0, or moves or
resizes it. -/
theorem realloc_spec (n : Nat) (grant : Bool) (hp : Placed own h) (hb : b ∈ h.blocks)
    (hused : b.free = false) (hj : Fits h b.payload n = false → Joinable b.payload h.blocks) :
    (n ≠ 0 ∧ realloc h b.payload n grant = (none, h)) ∨
      (n = 0 ∧ realloc h b.payload n grant = (none, free h b.payload)) ∨
      ∃ p h', realloc h b.payload n grant = (some p, h') ∧ Grants own h b.payload n p h' := by
  obtain ⟨pre, post, heq, hfound⟩ := hp.blockOf_eq hb hused
  have hne : b.payload ≠ 0 := by
    simp only [HeapBlock.payload, headerSize]
    omega
  unfold realloc
  rw [if_neg hne]
  split
  · rename_i hn
    exact .inr (.inl ⟨hn, rfl⟩)
  rename_i hn
  cases hsize : auAlignUp n heapAlign with
  | none => exact .inl ⟨hn, rfl⟩
  | some size =>
    have hle : n ≤ size := le_of_alignUp (by decide) hsize
    rw [hfound]
    dsimp only
    split
    · rename_i hfits
      -- the block is large enough; what is not needed is split off
      have heq' : h.blocks = pre ++ ([b] ++ post) := heq
      have hg : Grants own h b.payload size b.payload
          { h with blocks := pre ++ (auHeapSplit b size ++ post) } :=
        grants_here hp heq' hused (fun i hi => hi) hfits
          (fun x hx _ => congrArg _ (mem_singleton.mp hx)) fun x _ _ hne => hne
      exact .inr (.inr ⟨_, _, rfl, hg.mono hle⟩)
    · rename_i hfits
      have hj := hj (by simp [Fits, hsize, hp.extent_eq hb hused, hfits])
      -- it grows over the free block behind it, or moves
      cases hgrow : growInPlace h pre b size post with
      | some h' =>
        have htouch : ∀ c ∈ post.head?, c.free → b.stop = c.addr := by
          intro c hc hfree
          rw [heq] at hj
          obtain ⟨-, htail, -⟩ := isChain_append.mp hj
          exact (isChain_cons.mp htail).1 c hc (.inr rfl) (.inl hfree)
        have hg := growInPlace_spec hp heq hused htouch hgrow
        exact .inr (.inr ⟨_, _, rfl, hg.mono hle⟩)
      | none =>
        rcases malloc_spec size grant hp with hm | ⟨p, h', hm, hg, hkeep⟩
        · rw [hm]
          exact .inl ⟨hn, rfl⟩
        · rw [hm]
          exact .inr (.inr ⟨p, _, rfl, (grants_moved hb hused hg (hkeep b hb hused hj)).mono hle⟩)

/-! ### Runs -/

/-- The blocks are in place, and each pointer of the program has an allocated block of its own. -/
structure ProgramInv (s : Program) : Prop where
  placed : Placed s.own s.heap
  live : ∀ a ∈ s.live, ∃ b ∈ s.heap.blocks, b.free = false ∧ b.payload = a.1 ∧ a.2 ≤ b.size
  distinct : s.live.Pairwise fun a c => a.1 ≠ c.1

private theorem programInv_start (brk : Nat) : ProgramInv (start brk) := by
  refine ⟨⟨⟨fun a ha => ?_, Pairwise.nil⟩, ?_, ?_⟩, ?_, Pairwise.nil⟩
  · exact absurd ha not_mem_nil
  · rintro i ⟨a, ha, -⟩
    exact absurd ha not_mem_nil
  · exact fun r hr => absurd hr not_mem_nil
  · exact fun a ha => absurd ha not_mem_nil

/-- The invariant says that what is live is apart and large enough. -/
theorem ProgramInv.sound (inv : ProgramInv s) : Sound s := by
  refine ⟨fun a ha => ?_, ?_, fun a ha r hr hover => ?_⟩
  · obtain ⟨b, hb, hused, hpay, hle⟩ := inv.live a ha
    rwa [← hpay, inv.placed.extent_eq hb hused]
  · refine inv.distinct.imp_of_mem fun {a c} ha hc hne hover => ?_
    obtain ⟨b, hb, hbused, hbpay, -⟩ := inv.live a ha
    obtain ⟨d, hd, hdused, hdpay, -⟩ := inv.live c hc
    rw [← hbpay, ← hdpay] at hne hover
    rw [inv.placed.extent_eq hb hbused, inv.placed.extent_eq hd hdused] at hover
    have hapart := inv.placed.laid.apart hb hd fun heq => hne (congrArg _ heq)
    simp only [Overlap, HeapBlock.stop, HeapBlock.payload] at hover hapart
    omega
  · obtain ⟨b, hb, hused, hpay, -⟩ := inv.live a ha
    rw [← hpay, inv.placed.extent_eq hb hused] at hover
    simp only [Overlap, HeapBlock.payload, headerSize] at hover
    -- The first byte they share belongs to the block.
    have hno := (inv.placed.own r hr (max (b.addr + 40) r.1) (by omega) (by omega)).2
    refine hno ⟨b, hb, by omega, ?_⟩
    simp only [HeapBlock.stop, HeapBlock.payload, headerSize]
    omega

/-- An edit of the heap, for a program that no longer holds `ptr`. -/
theorem ProgramInv.edit (inv : ProgramInv s) (he : Edits s.own s.heap ptr h)
    (hsub : live.Sublist s.live) (hne : ∀ a ∈ live, a.1 ≠ ptr) :
    ProgramInv { s with heap := h, live := live } := by
  refine ⟨he.placed, fun a ha => ?_, inv.distinct.sublist hsub⟩
  obtain ⟨b, hb, hused, hpay, hle⟩ := inv.live a (hsub.subset ha)
  exact ⟨b, he.keeps b hb hused (hpay ▸ hne a ha), hused, hpay, hle⟩

/-- The program holds what a call has returned in the place of `ptr`. -/
theorem ProgramInv.grant (inv : ProgramInv s) (hg : Grants s.own s.heap ptr n p h)
    (hsub : live.Sublist s.live) (hne : ∀ a ∈ live, a.1 ≠ ptr) :
    ProgramInv { s with heap := h, live := (p, n) :: live } := by
  obtain ⟨hplaced, hlive, hdistinct⟩ := inv.edit hg.toEdits hsub hne
  refine ⟨hplaced, fun a ha => ?_, Pairwise.cons (fun a ha => ?_) hdistinct⟩
  · rcases mem_cons.mp ha with rfl | ha
    · exact hg.serves
    · exact hlive a ha
  · obtain ⟨b, hb, hused, hpay, -⟩ := inv.live a (hsub.subset ha)
    exact hpay ▸ (hg.fresh b hb hused (hpay ▸ hne a ha)).symm

private theorem ProgramInv.mallocs (inv : ProgramInv s) {r : Option Nat × UserHeap}
    (hm : Mallocs s.own s.heap n r) : ProgramInv (s.hold n r) := by
  rcases hm with rfl | ⟨p, h', rfl, hg, -⟩
  · exact inv
  refine inv.grant hg (Sublist.refl _) fun a ha => ?_
  obtain ⟨b, -, -, hpay, -⟩ := inv.live a ha
  simp only [← hpay, HeapBlock.payload, headerSize]
  omega

private theorem holds_iff : s.holds ptr ↔ ∃ a ∈ s.live, a.1 = ptr := by
  simp only [holds, any_eq_true, beq_iff_eq]

private theorem drop_spec (s : Program) (ptr : Nat) :
    (s.drop ptr).live.Sublist s.live ∧ ∀ a ∈ (s.drop ptr).live, a.1 ≠ ptr :=
  ⟨filter_sublist, fun _ ha => of_decide_eq_true (mem_filter.mp ha).2⟩

/-- `realloc` keeps the invariant. -/
theorem ProgramInv.realloc (inv : ProgramInv s) (n : Nat) (grant : Bool)
    (hj : ptr ≠ 0 → Fits s.heap ptr n = false → Joinable ptr s.heap.blocks) :
    ProgramInv (s.step (.realloc ptr n grant)) := by
  unfold step
  dsimp only
  split
  · exact inv.mallocs (malloc_spec n grant inv.placed)
  rename_i hzero
  have hj := hj hzero
  split
  · exact inv
  rename_i hholds
  rw [Bool.not_eq_true', Bool.not_eq_false, holds_iff] at hholds
  obtain ⟨a, ha, rfl⟩ := hholds
  obtain ⟨b, hb, hused, hpay, -⟩ := inv.live a ha
  obtain ⟨hsub, hne⟩ := drop_spec s a.1
  rw [← hpay] at hj hsub hne ⊢
  rcases realloc_spec n grant inv.placed hb hused hj with ⟨hn, hr⟩ | ⟨hn, hr⟩ | ⟨p, h', hr, hg⟩
  · rw [hr]
    simp only [if_neg hn]
    exact inv
  · rw [hr]
    simp only [if_pos hn]
    exact inv.edit (free_spec inv.placed hb hused (hj (by simp [Fits, hn]))) hsub hne
  · rw [hr]
    exact inv.grant hg hsub hne

/-- `free` keeps the invariant. -/
theorem ProgramInv.free (inv : ProgramInv s) (hj : Joinable ptr s.heap.blocks) :
    ProgramInv (s.step (.free ptr)) := by
  unfold step
  dsimp only
  split
  · rename_i hholds
    obtain ⟨a, ha, rfl⟩ := holds_iff.mp hholds
    obtain ⟨b, hb, hused, hpay, -⟩ := inv.live a ha
    obtain ⟨hsub, hne⟩ := drop_spec s a.1
    rw [← hpay] at hj hsub hne ⊢
    exact inv.edit (free_spec inv.placed hb hused hj) hsub hne
  · exact inv

/-- `sbrk` by the program keeps the invariant. -/
theorem ProgramInv.sbrk (inv : ProgramInv s) (increment : Nat) (grant : Bool) :
    ProgramInv (s.step (.sbrk increment grant)) := by
  unfold step
  dsimp only
  cases hs : Native.User.sbrk s.heap increment grant with
  | none => exact inv
  | some grown =>
    obtain ⟨mem, h⟩ := grown
    obtain ⟨rfl, rfl⟩ := sbrk_eq_some hs
    refine ⟨⟨inv.placed.laid, fun i hi => ?_, ?_⟩, inv.live, inv.distinct⟩
    · exact Nat.lt_add_right _ (inv.placed.below i hi)
    intro r hr i hge hlt
    rcases mem_cons.mp hr with rfl | hr
    · exact ⟨hlt, fun hi => absurd hge (Nat.not_le_of_lt (inv.placed.below i hi))⟩
    · exact (inv.placed.own r hr i hge hlt).imp_left (Nat.lt_add_right _)

/-- Every safe call keeps the invariant. -/
theorem ProgramInv.step (inv : ProgramInv s) (c : HeapCall) (hsafe : Safe s c) :
    ProgramInv (s.step c) := by
  cases c with
  | malloc n grant => exact inv.mallocs (malloc_spec n grant inv.placed)
  | calloc count size grant => exact inv.mallocs (calloc_spec count size grant inv.placed)
  | realloc ptr n grant => exact inv.realloc n grant hsafe
  | free ptr => exact inv.free hsafe
  | sbrk increment grant => exact inv.sbrk increment grant

/-- The allocations of a program stay large enough and apart from each other and from its own
regions, as long as its calls of `free`, and of `realloc` where the block is too small, meet free
neighbours only where they touch. -/
theorem allocations_sound (brk : Nat) (calls : List HeapCall)
    (hsafe : Run.Allowed step Safe (start brk) calls) :
    Run.Always step Sound (start brk) calls :=
  Run.always_of_allowed (fun _ inv => inv.sound) (fun _ c inv hc => inv.step c hc)
    (programInv_start brk) hsafe

/-- The program moves the break between its allocations and frees what lies on one side of its
region. -/
theorem allocations_sound_around_region : Run.Always step Sound (start 4096)
      [.malloc 16 true, .malloc 32 true, .sbrk 4096 true, .malloc 8000 true, .free 4192,
        .calloc 4 8 true, .realloc 4136 100 true] :=
  allocations_sound 4096 _ (by simp only [Run.Allowed]; decide +kernel)

/-- A region of the program between two growths of the heap: the block behind it is joined with the
rest in front of it, and the next allocation lies on the region. -/
theorem allocation_on_region : ¬Run.Always step Sound (start 4096)
      [.malloc 16 true, .sbrk 4096 true, .malloc 4016 true, .free 12328, .malloc 8000 true] := by
  intro h
  have hlast := h.2.2.2.2.2.outside
  revert hlast
  decide +kernel

end Rabbitbone.Spec.User
