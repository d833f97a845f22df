import Rabbitbone.Spec.Mm.FirstFit
import Rabbitbone.Spec.Mm.KmemBlocks

/-!
# What the functions of the kernel heap do

`HeapInv h bs` says that the heap `h` consists of the blocks `bs`: they are in the list, they lie in
pages that the heap got from the frame allocator, and the counters are their sums.  Each function is
described by the blocks before and behind it.  An edit replaces a few neighbours by others on the
same bytes, so that one lemma (`HeapInv.edit`) carries the whole invariant through all of them.
-/

namespace Rabbitbone.Spec.Mm

open Native.Sys Native.Mm FallibleState Heap Block List

/-! ### Bytes of blocks -/

namespace Block

/-- The bytes of a block, with its header. -/
def Covers (b : Block) (i : Nat) : Prop := b.addr ≤ i ∧ i < b.stop

private theorem covers_addr (b : Block) : b.Covers b.addr := by
  simp only [Covers, stop, blockHeader]
  omega

private theorem covers_last (b : Block) : b.Covers (b.stop - 1) := by
  simp only [Covers, stop, blockHeader]
  omega

/-- Blocks are apart if they share no address. -/
private theorem apart_iff {x y : Block} : Apart x y ↔ ∀ i, x.Covers i → ¬y.Covers i := by
  constructor
  · intro h i hx hy
    simp only [Apart, Covers, stop] at h hx hy
    omega
  · intro h
    -- The larger of the two addresses would be a common byte.
    have hx := h x.addr x.covers_addr
    have hy := h y.addr
    have hyc := y.covers_addr
    simp only [Apart, Covers, stop, blockHeader] at hx hy hyc ⊢
    omega

/-- The bytes that count as used. -/
def usedSize (b : Block) : Nat := if b.free then 0 else b.size

/-- The bytes that count as free. -/
def freeSize (b : Block) : Nat := if b.free then b.size else 0

end Block

/-- The bytes of the allocated blocks. -/
def usedBytes (bs : List Block) : Nat := (bs.map usedSize).sum

/-- The bytes of the free blocks. -/
def freeBytes (bs : List Block) : Nat := (bs.map freeSize).sum

/-- All bytes of a block, with its header. -/
def Block.extent (b : Block) : Nat := blockHeader + b.size

/-- A block takes its size and a header. -/
private theorem sum_extent (bs : List Block) :
    (bs.map extent).sum = usedBytes bs + freeBytes bs + blockHeader * bs.length := by
  induction bs with
  | nil => rfl
  | cons b bs ih =>
    simp only [usedBytes, freeBytes, map_cons, sum_cons, length_cons, usedSize,
      freeSize, extent, Nat.mul_add] at ih ⊢
    cases b.free
    · simp only [Bool.false_eq_true, if_false]
      omega
    · simp only [if_true]
      omega

variable {pre post bs bs' new old : List Block} {h h' : Heap} {b n c : Block}
  {size wanted pages bit aligned p size' : Nat} {x : HeapM Nat}

/-- A block never starts nor ends outside the bytes that old blocks had. -/
theorem Layout.replace (lay : Layout (pre ++ (old ++ post)))
    (hcover : ∀ c ∈ new, ∀ i, c.Covers i → ∃ b ∈ old, b.Covers i)
    (hnew : new.Pairwise Apart) : Layout (pre ++ (new ++ post)) := by
  have hpw := lay.apart
  rw [pairwise_append, pairwise_append] at hpw
  obtain ⟨hpre, ⟨-, hpost, hold⟩, hacross⟩ := hpw
  -- What lies apart from the old blocks lies apart from the new ones.
  have hapart : ∀ x, (∀ b ∈ old, Apart x b) → ∀ c ∈ new, Apart x c := by
    intro x hx c hc
    rw [apart_iff]
    intro i hxi hci
    obtain ⟨b, hb, hbi⟩ := hcover c hc i hci
    exact apart_iff.mp (hx b hb) i hxi hbi
  have hmem : ∀ c ∈ pre ++ (new ++ post), c ∈ new ∨ c ∈ pre ++ (old ++ post) := by
    intro c hc
    simp only [mem_append] at hc ⊢
    rcases hc with hc | hc | hc
    · exact .inr (.inl hc)
    · exact .inl hc
    · exact .inr (.inr (.inr hc))
  refine ⟨?_, fun c hc => ?_, fun c hc => ?_⟩
  · rw [pairwise_append, pairwise_append]
    refine ⟨hpre, ⟨hnew, hpost, fun c hc y hy => ?_⟩, fun x hx y hy => ?_⟩
    · exact (hapart y (fun b hb => (hold b hb y hy).symm) c hc).symm
    · rcases mem_append.mp hy with hy | hy
      · exact hapart x (fun b hb => hacross x hx b (mem_append_left _ hb)) y hy
      · exact hacross x hx y (mem_append_right _ hy)
  · rcases hmem c hc with hc | hc
    · obtain ⟨b, hb, hbc⟩ := hcover c hc _ c.covers_addr
      have hpos := lay.pos b (by simp [hb])
      have := hbc.1
      omega
    · exact lay.pos c hc
  · rcases hmem c hc with hc | hc
    · obtain ⟨b, hb, hbc⟩ := hcover c hc _ c.covers_last
      have hstop := lay.stop_le b (by simp [hb])
      have := hbc.2
      omega
    · exact lay.stop_le c hc

/-! ### The invariant -/

/-- The address `i` is in a page of one of the runs. -/
def InRuns (runs : List (Nat × Nat)) (i : Nat) : Prop :=
  ∃ r ∈ runs, r.1 * pageSize ≤ i ∧ i < (r.1 + r.2) * pageSize

/-- The heap consists of the blocks `bs`. -/
structure HeapInv (h : Heap) (bs : List Block) : Prop where
  listed : Listed h.mem h.head h.tail bs
  layout : Layout bs
  inside : ∀ b ∈ bs, ∀ i, b.Covers i → InRuns h.runs i
  held : ∀ r ∈ h.runs, ∀ f, r.1 ≤ f → f < r.1 + r.2 → h.frames.frames.test f = true
  tracked : h.frames.frameCount ≤ h.frames.frames.bitCount
  used : h.stats.usedBytes = usedBytes bs
  free : h.stats.freeBytes = freeBytes bs
  total : h.stats.usedBytes + h.stats.freeBytes + blockHeader * bs.length = h.stats.heapBytes

/-- The frames, the pages and the flag of the heap are as before. -/
structure SamePages (h h' : Heap) : Prop where
  frames : h'.frames = h.frames
  runs : h'.runs = h.runs
  initialized : h'.initialized = h.initialized

theorem SamePages.trans {h'' : Heap} (h₁ : SamePages h h') (h₂ : SamePages h' h'') :
    SamePages h h'' :=
  ⟨h₂.frames.trans h₁.frames, h₂.runs.trans h₁.runs, h₂.initialized.trans h₁.initialized⟩

/-- A few neighbours are replaced by blocks on the same bytes. -/
theorem HeapInv.edit (inv : HeapInv h (pre ++ (old ++ post)))
    (hlisted : Listed h'.mem h'.head h'.tail (pre ++ (new ++ post)))
    (hcover : ∀ c ∈ new, ∀ i, c.Covers i → ∃ b ∈ old, b.Covers i) (hnew : new.Pairwise Apart)
    (hpages : SamePages h h')
    (hused : h'.stats.usedBytes + usedBytes old = h.stats.usedBytes + usedBytes new)
    (hfree : h'.stats.freeBytes + freeBytes old = h.stats.freeBytes + freeBytes new)
    (hheap : h'.stats.heapBytes = h.stats.heapBytes)
    (hsum : (new.map extent).sum = (old.map extent).sum) :
    HeapInv h' (pre ++ (new ++ post)) := by
  have h₁ := inv.used
  have h₂ := inv.free
  have h₃ := inv.total
  rw [sum_extent, sum_extent] at hsum
  simp only [usedBytes, freeBytes, map_append, sum_append, length_append, Nat.mul_add]
    at h₁ h₂ h₃ hused hfree hsum
  refine ⟨hlisted, inv.layout.replace hcover hnew, ?_,
    ?_, by rw [hpages.frames]; exact inv.tracked, ?_, ?_, ?_⟩
  · -- the new blocks lie in pages that the old ones had
    intro c hc i hci
    rw [hpages.runs]
    simp only [mem_append] at hc
    rcases hc with hc | hc | hc
    · exact inv.inside c (by simp [hc]) i hci
    · obtain ⟨b, hb, hbi⟩ := hcover c hc i hci
      exact inv.inside b (by simp [hb]) i hbi
    · exact inv.inside c (by simp [hc]) i hci
  · rw [hpages.runs, hpages.frames]
    exact inv.held
  · simp only [usedBytes, map_append, sum_append]
    omega
  · simp only [freeBytes, map_append, sum_append]
    omega
  · simp only [length_append, Nat.mul_add, hheap]
    omega

/-- The counters of the calls are not part of it. -/
theorem HeapInv.recount (inv : HeapInv h bs) (failed : Nat) :
    HeapInv { h with stats := { h.stats with failedAllocations := failed } } bs :=
  ⟨inv.listed, inv.layout, inv.inside, inv.held, inv.tracked, inv.used, inv.free, inv.total⟩

private theorem HeapInv.addr_ne (inv : HeapInv h bs) (b : Block) (hb : b ∈ bs) : b.addr ≠ 0 :=
  Nat.ne_of_gt (inv.layout.pos b hb)

/-- A block has a header, so there are fewer blocks than bytes. -/
theorem HeapInv.length_lt (inv : HeapInv h bs) : bs.length < h.stats.heapBytes + 1 := by
  have := inv.total
  simp only [blockHeader] at this
  omega

/-! ### Merging and splitting -/

/-- `adjacent` compares the end of a block with the next address. -/
private theorem adjacent_iff (hb : b.addr ≠ 0) (hn : n.addr ≠ 0) :
    adjacent b.addr b.size n.addr = true ↔ b.stop = n.addr := by
  simp only [adjacent, blockPayload, stop, Bool.and_eq_true, decide_eq_true_eq]
  exact ⟨fun h => of_decide_eq_true h.2, fun h => ⟨⟨hb, hn⟩, decide_eq_true h⟩⟩

/-- Two neighbours that touch become one block. -/
theorem HeapInv.merge (inv : HeapInv h (pre ++ b :: n :: post)) (hadj : b.stop = n.addr)
    (hmem : h'.mem = merged h.mem b.addr (b.size + blockHeader + n.size) n.addr (firstAddr post))
    (hhead : h'.head = h.head) (htail : h'.tail = if firstAddr post ≠ 0 then h.tail else b.addr)
    (hpages : SamePages h h') (hheap : h'.stats.heapBytes = h.stats.heapBytes)
    (hused : h'.stats.usedBytes + usedBytes [b, n] =
      h.stats.usedBytes + usedBytes [{ b with size := b.size + blockHeader + n.size }])
    (hfree : h'.stats.freeBytes + freeBytes [b, n] =
      h.stats.freeBytes + freeBytes [{ b with size := b.size + blockHeader + n.size }]) :
    HeapInv h' (pre ++ { b with size := b.size + blockHeader + n.size } :: post) := by
  have hl := inv.listed.merge inv.layout hadj
  rw [← hmem, ← hhead, ← htail] at hl
  have inv' : HeapInv h (pre ++ ([b, n] ++ post)) := inv
  change HeapInv h' (pre ++ ([{ b with size := b.size + blockHeader + n.size }] ++ post))
  refine inv'.edit hl ?_ (pairwise_singleton _ _) hpages hused hfree hheap ?_
  · intro c hc i hi
    rw [mem_singleton.mp hc] at hi
    simp only [Covers, stop] at hi hadj
    by_cases hlt : i < b.stop
    · exact ⟨b, by simp, hi.1, hlt⟩
    refine ⟨n, by simp, ?_⟩
    simp only [Covers, stop] at hlt ⊢
    omega
  · simp only [map_cons, map_nil, sum_cons, sum_nil, extent]
    omega

/-- One turn of `mergeForward`. -/
theorem mergeForward_turn (turns : Nat) (inv : HeapInv h (pre ++ b :: n :: post))
    (hfree : b.free = true ∧ n.free = true) (hadj : b.stop = n.addr) :
    ∃ h', HeapInv h' (pre ++ { b with size := b.size + blockHeader + n.size } :: post) ∧
      SamePages h h' ∧
      (mergeForward (turns + 1) b.addr).run h = (mergeForward turns b.addr).run h' := by
  have hbpos := inv.addr_ne b (by simp)
  have hnpos := inv.addr_ne n (by simp)
  have hstop := inv.layout.stop_le n (by simp)
  simp only [stop, blockHeader, kernelDirectLimit] at hstop hadj
  have inv' : HeapInv h ((pre ++ [b]) ++ n :: post) := by simpa using inv
  have hnext := inv.listed.next_eq hbpos
  rw [firstAddr_cons] at hnext
  have hnnext := inv'.listed.next_eq hnpos
  have hbsize := inv.listed.size b (by simp)
  have hnsize := inv.listed.size n (by simp)
  have hbfree := inv.listed.free b (by simp)
  have hnfree := inv.listed.free n (by simp)
  refine ⟨{ h with
      mem := merged h.mem b.addr (b.size + blockHeader + n.size) n.addr (firstAddr post)
      tail := if firstAddr post ≠ 0 then h.tail else b.addr
      stats := { h.stats with freeBytes := h.stats.freeBytes + blockHeader } },
    inv.merge hadj rfl rfl rfl ⟨rfl, rfl, rfl⟩ rfl ?_ ?_, ⟨rfl, rfl, rfl⟩, ?_⟩
  · simp [usedBytes, usedSize, hfree.1, hfree.2]
  · -- the header of `n` is free now, too
    simp [freeBytes, freeSize, hfree.1, hfree.2]
    omega
  · simp only [mergeForward, run_get_bind, hnext, hnnext, hbsize, hnsize, hbfree, hnfree]
    rw [if_pos ⟨hbpos, hnpos, hfree.1, hfree.2, (adjacent_iff hbpos hnpos).mpr hadj⟩,
      bind_of_ok (require_of_pos (by simp only [blockHeader]; omega))]
    simp only [poke, Heap.count, setPrevOrTail, run_modify_bind]
    by_cases hnil : firstAddr post = 0
    · simp only [merged, linkBack, if_neg (not_not.mpr hnil)]
    · simp only [merged, linkBack, if_pos hnil]

/-- Without a free neighbour behind the block that touches it, there is nothing to merge. -/
theorem mergeForward_stop (turns : Nat) (inv : HeapInv h (pre ++ b :: post))
    (hstop : ∀ n rest, post = n :: rest → ¬((b.free = true ∧ n.free = true) ∧ b.stop = n.addr)) :
    (mergeForward (turns + 1) b.addr).run h = (.ok (), h) := by
  have hbpos := inv.addr_ne b (by simp)
  have hnext := inv.listed.next_eq hbpos
  have hbsize := inv.listed.size b (by simp)
  have hbfree := inv.listed.free b (by simp)
  simp only [mergeForward, run_get_bind, hnext, hbsize, hbfree]
  cases post with
  | nil => rw [if_neg fun h => h.2.1 rfl, run_pure]
  | cons n post =>
    have hnpos := inv.addr_ne n (by simp)
    have hnfree := inv.listed.free n (by simp)
    rw [firstAddr_cons, hnfree, if_neg fun h => hstop n post rfl
      ⟨⟨h.2.2.1, h.2.2.2.1⟩, (adjacent_iff hbpos hnpos).mp h.2.2.2.2⟩, run_pure]

/-- `mergeForward` makes a block larger by free blocks behind it. -/
theorem mergeForward_spec : ∀ {h : Heap} {pre : List Block} {b : Block} {turns : Nat},
    HeapInv h (pre ++ b :: post) → post.length < turns →
      ∃ h' gone post' size, (mergeForward turns b.addr).run h = (.ok (), h') ∧
        HeapInv h' (pre ++ { b with size := size } :: post') ∧ SamePages h h' ∧
        post = gone ++ post' ∧ ∀ x ∈ gone, x.free = true := by
  induction post with
  | nil =>
    intro h pre b turns inv hturns
    obtain ⟨turns, rfl⟩ : ∃ k, turns = k + 1 := ⟨turns - 1, by omega⟩
    exact ⟨h, [], [], b.size, mergeForward_stop turns inv (fun _ _ h => nomatch h), inv,
      ⟨rfl, rfl, rfl⟩, rfl, fun _ hx => nomatch hx⟩
  | cons n post ih =>
    intro h pre b turns inv hturns
    obtain ⟨turns, rfl⟩ : ∃ k, turns = k + 1 := ⟨turns - 1, by omega⟩
    by_cases hmerge : (b.free = true ∧ n.free = true) ∧ b.stop = n.addr
    · obtain ⟨h₁, inv₁, hpages, hrun⟩ := mergeForward_turn turns inv hmerge.1 hmerge.2
      have hfewer : post.length < turns := Nat.lt_of_succ_lt_succ hturns
      obtain ⟨h', gone, post', size, hrun', inv', hpages', rfl, hgone⟩ := ih inv₁ hfewer
      refine ⟨h', n :: gone, post', size, hrun.trans hrun', inv', hpages.trans hpages', rfl, ?_⟩
      intro x hx
      rcases mem_cons.mp hx with rfl | hx
      · exact hmerge.1.2
      · exact hgone x hx
    · refine ⟨h, [], n :: post, b.size, mergeForward_stop turns inv ?_, inv, ⟨rfl, rfl, rfl⟩, rfl,
        fun _ hx => nomatch hx⟩
      intro n' rest heq
      cases heq
      exact hmerge

/-- A block is cut in two, and the counters follow. -/
theorem carveRest_spec (wanted : Nat) (f : KmemStats → KmemStats)
    (inv : HeapInv h (pre ++ b :: post)) (hroom : wanted + blockHeader ≤ b.size)
    (hheap : (f h.stats).heapBytes = h.stats.heapBytes)
    (hused : (f h.stats).usedBytes + b.usedSize =
      h.stats.usedBytes + ({ b with size := wanted } : Block).usedSize)
    (hfree : (f h.stats).freeBytes + b.freeSize = h.stats.freeBytes +
      (({ b with size := wanted } : Block).freeSize + (b.size - wanted - blockHeader))) :
    ∃ h' h₁, (carveRest b.addr wanted (readBlock h.mem b.addr)).run h = (.ok (), h₁) ∧
      (Heap.count f).run h₁ = (.ok (), h') ∧ SamePages h h' ∧
      HeapInv h' (pre ++ { b with size := wanted } ::
        ⟨blockPayload b.addr + wanted, b.size - wanted - blockHeader, true⟩ :: post) := by
  have hbpos := inv.addr_ne b (by simp)
  have hl := inv.listed.carve inv.layout hroom
  have hrun := carveRest_run h b.addr wanted (readBlock h.mem b.addr)
  rw [inv.listed.size b (by simp), inv.listed.next_eq hbpos] at hrun
  refine ⟨_, _, hrun, rfl, ⟨rfl, rfl, rfl⟩, ?_⟩
  have inv' : HeapInv h (pre ++ ([b] ++ post)) := inv
  change HeapInv _ (pre ++ ([{ b with size := wanted },
    ⟨blockPayload b.addr + wanted, b.size - wanted - blockHeader, true⟩] ++ post))
  refine inv'.edit hl ?_ ?_ ⟨rfl, rfl, rfl⟩ ?_ ?_ hheap ?_
  · -- both parts lie in the old block, one behind the other
    intro c hc i hi
    refine ⟨b, mem_singleton_self b, ?_⟩
    simp only [mem_cons, not_mem_nil, or_false] at hc
    rcases hc with rfl | rfl
    · simp only [Covers, stop] at hi ⊢
      omega
    · simp only [Covers, stop, blockPayload] at hi ⊢
      omega
  · rw [pairwise_pair]
    left
    simp only [stop, blockPayload]
    omega
  · simpa [usedBytes, usedSize] using hused
  · simpa [freeBytes, freeSize] using hfree
  · simp only [map_cons, map_nil, sum_cons, sum_nil, extent]
    omega

private theorem HeapInv.freeSize_le (inv : HeapInv h (pre ++ b :: post)) :
    b.freeSize ≤ h.stats.freeBytes := by
  rw [inv.free, freeBytes, map_append, map_cons, sum_append, sum_cons]
  omega

private theorem HeapInv.usedSize_le (inv : HeapInv h (pre ++ b :: post)) :
    b.usedSize ≤ h.stats.usedBytes := by
  rw [inv.used, usedBytes, map_append, map_cons, sum_append, sum_cons]
  omega

private theorem align16_of_dvd {n : Nat} (hmod : n % 16 = 0) (hn : n + 15 < 2 ^ 64) :
    align16 n = n := by
  rw [align16, align16Checked, if_pos hn, Option.getD_some]
  omega

/-- A block is split if a header and `kmemMinSplit` bytes are left. -/
private theorem splits_iff (hsize : size < 2 ^ 64) :
    splits size wanted = true ↔ wanted + blockHeader + kmemMinSplit ≤ size := by
  simp only [splits, Bool.and_eq_true, decide_eq_true_eq]
  omega

/-- `splitBlock` on a free block. -/
theorem splitBlock_spec (inv : HeapInv h (pre ++ b :: post)) (hfree : b.free = true)
    (hmod : wanted % 16 = 0) (hle : wanted ≤ b.size) :
    ∃ h' size rest, (splitBlock b.addr wanted).run h = (.ok (), h') ∧
      HeapInv h' (pre ++ { b with size := size } :: (rest ++ post)) ∧ SamePages h h' ∧
        wanted ≤ size := by
  have hbpos := inv.addr_ne b (by simp)
  have hstop := inv.layout.stop_le b (by simp)
  have hbsize := inv.listed.size b (by simp)
  have hbfree := inv.listed.free b (by simp)
  have hle' := inv.freeSize_le
  simp only [stop, kernelDirectLimit] at hstop
  simp only [freeSize, hfree, if_true] at hle'
  simp only [splitBlock, align16_of_dvd hmod (by omega), run_get_bind, hbsize, hbfree]
  by_cases hsplit : splits b.size wanted = true
  · have hroom := (splits_iff (by omega)).mp hsplit
    simp only [kmemMinSplit] at hroom
    obtain ⟨h', h₁, hcarve, hcount, hpages, inv'⟩ := carveRest_spec wanted
      (fun st => { st with freeBytes := st.freeBytes - blockHeader }) inv (by omega) rfl
      (by simp only [usedSize, hfree, if_true])
      (by simp only [freeSize, hfree, if_true]; omega)
    refine ⟨h', wanted, [_], ?_, inv', hpages, le_rfl⟩
    rw [if_neg (by simp [hbpos, hfree, hsplit]), bind_of_ok hcarve, hcount]
  · refine ⟨h, b.size, [], ?_, inv, ⟨rfl, rfl, rfl⟩, hle⟩
    rw [if_pos (by simp [hsplit]), run_pure]

/-- `splitAllocatedBlock` on an allocated block. -/
theorem splitAllocatedBlock_spec (inv : HeapInv h (pre ++ b :: post)) (hfree : b.free = false)
    (hmod : wanted % 16 = 0) (hle : wanted ≤ b.size) :
    ∃ h' size rest gone post', (splitAllocatedBlock b.addr wanted).run h = (.ok (), h') ∧
      HeapInv h' (pre ++ { b with size := size } :: (rest ++ post')) ∧ SamePages h h' ∧
        wanted ≤ size ∧
      post = gone ++ post' ∧ ∀ x ∈ gone, x.free = true := by
  have hbpos := inv.addr_ne b (by simp)
  have hstop := inv.layout.stop_le b (by simp)
  have hbsize := inv.listed.size b (by simp)
  have hbfree := inv.listed.free b (by simp)
  have hle' := inv.usedSize_le
  simp only [stop, kernelDirectLimit] at hstop
  simp only [usedSize, hfree, Bool.false_eq_true, if_false] at hle'
  simp only [splitAllocatedBlock, align16_of_dvd hmod (by omega), run_get_bind, hbsize, hbfree]
  by_cases hsplit : splits b.size wanted = true
  · have hroom := (splits_iff (by omega)).mp hsplit
    simp only [kmemMinSplit] at hroom
    obtain ⟨h₂, h₁, hcarve, hcount, hpages, inv₂⟩ := carveRest_spec wanted (fun st =>
        { st with
          usedBytes := st.usedBytes - (b.size - wanted)
          freeBytes := st.freeBytes + (b.size - wanted - blockHeader) }) inv (by omega) rfl
      (by simp only [usedSize, hfree, Bool.false_eq_true, if_false]; omega)
      (by simp only [freeSize, hfree, Bool.false_eq_true, if_false]; omega)
    -- The new block takes in what is free behind it.
    have inv₂' : HeapInv h₂ ((pre ++ [{ b with size := wanted }]) ++
        ⟨blockPayload b.addr + wanted, b.size - wanted - blockHeader, true⟩ :: post) := by
      simpa using inv₂
    have hturns : post.length < h.stats.heapBytes + 1 := by
      have := inv.length_lt
      simp only [length_append, length_cons] at this
      omega
    obtain ⟨h', gone, post', size, hmerge, inv', hpages', hpost, hgone⟩ :=
      mergeForward_spec inv₂' hturns
    refine ⟨h', wanted, [⟨blockPayload b.addr + wanted, size, true⟩], gone, post', ?_, ?_,
      hpages.trans hpages', le_rfl, hpost, hgone⟩
    · dsimp only at hmerge
      rw [if_neg (by simp [hbpos, hfree, hsplit]), bind_of_ok hcarve, bind_of_ok hcount, hmerge]
    · rw [append_assoc, singleton_append] at inv'
      exact inv'
  · refine ⟨h, b.size, [], [], post, ?_, inv, ⟨rfl, rfl, rfl⟩, hle, rfl, fun _ hx => (by cases hx)⟩
    rw [if_pos (by simp [hsplit]), run_pure]

/-! ### New pages -/

/-- The block on new pages lies apart from all others: these are on frames that were taken. -/
theorem HeapInv.layout_append (inv : HeapInv h bs) (hpos : 0 < bit)
    (hsize : blockHeader ≤ pages * pageSize) (hlimit : (bit + pages) * pageSize ≤ kernelDirectLimit)
    (hclear : ∀ f, bit ≤ f → f < bit + pages → h.frames.frames.test f = false) :
    Layout (bs ++ [⟨bit * pageSize, pages * pageSize - blockHeader, true⟩]) := by
  have hstop : ∀ i, (⟨bit * pageSize, pages * pageSize - blockHeader, true⟩ : Block).Covers i →
      bit ≤ i / pageSize ∧ i / pageSize < bit + pages := by
    intro i hi
    simp only [Covers, stop] at hi
    rw [Nat.le_div_iff_mul_le (by decide), Nat.div_lt_iff_lt_mul (by decide), Nat.add_mul]
    omega
  refine ⟨?_, fun b hb => ?_, fun b hb => ?_⟩
  · rw [pairwise_append]
    refine ⟨inv.layout.apart, pairwise_singleton _ _, fun b hb c hc => ?_⟩
    rw [mem_singleton.mp hc, apart_iff]
    intro i hbi hci
    obtain ⟨r, hr, hlo, hhi⟩ := inv.inside b hb i hbi
    obtain ⟨hle, hlt⟩ := hstop i hci
    have hset := inv.held r hr (i / pageSize) ((Nat.le_div_iff_mul_le (by decide)).mpr hlo)
      ((Nat.div_lt_iff_lt_mul (by decide)).mpr hhi)
    rw [hclear _ hle hlt] at hset
    cases hset
  · rcases mem_append.mp hb with hb | hb
    · exact inv.layout.pos b hb
    · rw [mem_singleton.mp hb]
      exact Nat.mul_pos hpos (by decide)
  · rcases mem_append.mp hb with hb | hb
    · exact inv.layout.stop_le b hb
    rw [mem_singleton.mp hb]
    simp only [stop, Nat.add_mul] at hlimit ⊢
    omega

/-- The lines of `addHeapPages` that make a block of new pages. -/
theorem HeapInv.append (inv : HeapInv h bs) (hpos : 0 < bit)
    (hsize : blockHeader ≤ pages * pageSize) (hlimit : (bit + pages) * pageSize ≤ kernelDirectLimit)
    (hclear : ∀ f, bit ≤ f → f < bit + pages → h.frames.frames.test f = false)
    (hset : ∀ f, h.frames.frames.test f = true ∨ bit ≤ f ∧ f < bit + pages →
      h'.frames.frames.test f = true)
    (htracked : h'.frames.frameCount ≤ h'.frames.frames.bitCount)
    (hmem : h'.mem = appended h.mem (bit * pageSize) (pages * pageSize - blockHeader) h.tail)
    (hhead : h'.head = if h.tail ≠ 0 then h.head else bit * pageSize)
    (htail : h'.tail = bit * pageSize) (hruns : h'.runs = (bit, pages) :: h.runs)
    (hused : h'.stats.usedBytes = h.stats.usedBytes)
    (hfree : h'.stats.freeBytes = h.stats.freeBytes + (pages * pageSize - blockHeader))
    (hheap : h'.stats.heapBytes = h.stats.heapBytes + pages * pageSize) :
    HeapInv h' (bs ++ [⟨bit * pageSize, pages * pageSize - blockHeader, true⟩]) := by
  have lay := inv.layout_append hpos hsize hlimit hclear
  have hl := inv.listed.append lay rfl
  have htotal := inv.total
  refine ⟨?_, lay, ?_, ?_, htracked, ?_, ?_, ?_⟩
  · rw [hmem, hhead, htail]
    exact hl
  · intro b hb i hi
    rw [hruns]
    rcases mem_append.mp hb with hb | hb
    · obtain ⟨r, hr, hin⟩ := inv.inside b hb i hi
      exact ⟨r, mem_cons_of_mem _ hr, hin⟩
    -- the new block lies in the new run of pages
    rw [mem_singleton.mp hb] at hi
    refine ⟨(bit, pages), mem_cons_self, ?_⟩
    simp only [Covers, stop, Nat.add_mul] at hi ⊢
    omega
  · intro r hr f hle hlt
    rw [hruns] at hr
    rcases mem_cons.mp hr with rfl | hr
    · exact hset f (.inr ⟨hle, hlt⟩)
    · exact hset f (.inl (inv.held r hr f hle hlt))
  · rw [hused, inv.used]
    simp [usedBytes, usedSize]
  · rw [hfree, inv.free]
    simp [freeBytes, freeSize]
  · rw [hused, hfree, hheap, length_append, length_singleton, Nat.mul_add]
    omega

private theorem insertBlock_run (h : Heap) (b : Nat) : (insertBlock b).run h = (.ok (), { h with
        mem := if h.tail ≠ 0 then setNext (setPrev (setNext h.mem b 0) b h.tail) h.tail b
          else setPrev (setNext h.mem b 0) b h.tail
        head := if h.tail ≠ 0 then h.head else b
        tail := b }) := by
  simp only [insertBlock, poke, run_get_bind, run_modify_bind, run_modify]
  by_cases htail : h.tail = 0
  · simp only [if_neg (not_not.mpr htail)]
  · simp only [if_pos htail]

/-- `addHeapPages` adds one free block at the end, or nothing. -/
theorem addHeapPages_spec (pages : Nat) (inv : HeapInv h bs) :
    ∃ h' ok, (addHeapPages pages).run h = (.ok ok, h') ∧ h'.initialized = h.initialized ∧
      if ok then ∃ b, HeapInv h' (bs ++ [b]) ∧ b.free = true ∧
        pages * pageSize ≤ b.size + blockHeader
      else HeapInv h' bs := by
  rw [addHeapPages]
  by_cases hpages : pages = 0 ∨ (2 ^ 64 - 1) / pageSize < pages
  · rw [if_pos hpages]
    exact ⟨h, false, rfl, rfl, inv⟩
  rw [if_neg hpages]
  by_cases hsmall : pages * pageSize ≤ blockHeader
  · simp only [if_pos hsmall]
    exact ⟨h, false, rfl, rfl, inv⟩
  simp only [if_neg hsmall, run_get_bind]
  cases halloc : h.frames.allocContiguousBelow pages kernelDirectLimit with
  | none => exact ⟨h, false, rfl, rfl, inv⟩
  | some found =>
    obtain ⟨bit, frames⟩ := found
    obtain ⟨⟨hlimit, hfree⟩, -, -⟩ := allocContiguousBelow_some halloc
    obtain ⟨hbits, -, hcount⟩ := taken_of_alloc halloc inv.tracked
    have hset := fun f => (hbits f).mpr
    have hclear := fun f hle hlt => (hfree f hle hlt).2
    have htracked : frames.frameCount ≤ frames.frames.bitCount := by
      rw [hcount.1, hcount.2]
      exact inv.tracked
    simp only [run_modify_bind]
    by_cases hzero : bit * pageSize = 0
    · -- Frame 0 cannot be used: its address would be the null pointer.
      rw [if_pos hzero, run_pure]
      exact ⟨_, false, rfl, rfl, inv.listed, inv.layout, inv.inside,
        fun r hr f hle hlt => hset f (.inl (inv.held r hr f hle hlt)), htracked, inv.used,
          inv.free, inv.total⟩
    rw [if_neg hzero]
    have hpos : 0 < bit := Nat.pos_of_ne_zero fun h => hzero (by rw [h, Nat.zero_mul])
    simp only [poke, Heap.count, run_modify_bind]
    rw [bind_of_ok (insertBlock_run _ _), run_modify_bind, run_pure]
    refine ⟨_, true, rfl, rfl, ⟨bit * pageSize, pages * pageSize - blockHeader, true⟩, ?_, rfl, ?_⟩
    · exact inv.append hpos (by omega) hlimit hclear hset htracked rfl rfl rfl rfl rfl rfl rfl
    · simp only
      omega

/-! ### Allocation -/

/-- The search finds a free block that is large enough if there is one. -/
theorem findFit_spec {h : Heap} (size : Nat) : ∀ {post pre : List Block} {turns : Nat},
    HeapInv h (pre ++ post) → post.length < turns →
      ∃ r, (findFit size turns (firstAddr post)).run h = (.ok r, h) ∧
        (r = none → ∀ b ∈ post, ¬(b.free = true ∧ size ≤ b.size)) ∧
        ∀ a, r = some a → ∃ pre' b post', pre ++ post = pre' ++ b :: post' ∧ a = b.addr ∧
          b.free = true ∧ size ≤ b.size
  | [], pre, turns, inv, hturns => by
    obtain ⟨turns, rfl⟩ : ∃ k, turns = k + 1 := ⟨turns - 1, by omega⟩
    refine ⟨none, ?_, fun _ b hb => (by cases hb), fun a ha => (by cases ha)⟩
    rw [findFit, if_pos (show firstAddr [] = 0 from rfl), run_pure]
  | b :: post, pre, turns, inv, hturns => by
    obtain ⟨turns, rfl⟩ : ∃ k, turns = k + 1 := ⟨turns - 1, by omega⟩
    have hpos := inv.addr_ne b (by simp)
    have hmagic : (readBlock h.mem b.addr).magic = kmemMagicFree ∨
        (readBlock h.mem b.addr).magic = kmemMagicAlloc := by
      rw [inv.listed.magic b (by simp), magic]
      cases b.free
      · exact .inr rfl
      · exact .inl rfl
    rw [firstAddr_cons, findFit, if_neg hpos, run_get_bind, bind_of_ok (require_of_pos hmagic),
      inv.listed.next_eq hpos]
    simp only [inv.listed.size b (by simp), inv.listed.free b (by simp)]
    -- the first block that fits ends the search
    by_cases hfit : b.free = true ∧ size ≤ b.size
    · rw [if_pos hfit, run_pure]
      refine ⟨some b.addr, rfl, fun h => (by cases h), fun a ha => ?_⟩
      exact ⟨pre, b, post, rfl, (Option.some.inj ha).symm, hfit⟩
    rw [if_neg hfit]
    have inv' : HeapInv h ((pre ++ [b]) ++ post) := by simpa using inv
    have hfewer : post.length < turns := Nat.lt_of_succ_lt_succ hturns
    obtain ⟨r, hrun, hnone, hsome⟩ := findFit_spec size inv' hfewer
    refine ⟨r, hrun, fun hr x hx => ?_, fun a ha => ?_⟩
    · rcases mem_cons.mp hx with rfl | hx
      · exact hfit
      · exact hnone hr x hx
    · have hfound := hsome a ha
      rwa [append_assoc, singleton_append] at hfound

/-- A block changes hands, and the counters follow. -/
theorem HeapInv.retag (inv : HeapInv h (pre ++ b :: post)) (free : Bool)
    (hmem : h'.mem = setMagic (setFree h.mem b.addr free) b.addr
      ({ b with free := free } : Block).magic)
    (hhead : h'.head = h.head) (htail : h'.tail = h.tail) (hpages : SamePages h h')
    (hheap : h'.stats.heapBytes = h.stats.heapBytes)
    (hused : h'.stats.usedBytes + b.usedSize =
      h.stats.usedBytes + ({ b with free := free } : Block).usedSize)
    (hfree : h'.stats.freeBytes + b.freeSize =
      h.stats.freeBytes + ({ b with free := free } : Block).freeSize) :
    HeapInv h' (pre ++ { b with free := free } :: post) := by
  have hl := inv.listed.retag inv.layout free
  rw [← hmem, ← hhead, ← htail] at hl
  have inv' : HeapInv h (pre ++ ([b] ++ post)) := inv
  change HeapInv h' (pre ++ ([{ b with free := free }] ++ post))
  refine inv'.edit hl ?_ (pairwise_singleton _ _) hpages ?_ ?_ hheap rfl
  · intro c hc i hi
    rw [mem_singleton.mp hc] at hi
    exact ⟨b, mem_singleton_self b, hi⟩
  · simpa [usedBytes] using hused
  · simpa [freeBytes] using hfree

/-- Writes to bytes that are in no header leave the heap as it is. -/
theorem HeapInv.write (inv : HeapInv h bs) (m : ByteMemory)
    (hsame : ∀ b ∈ bs, ∀ i, b.addr ≤ i → i < b.addr + blockHeader → m i = h.mem i) :
    HeapInv { h with mem := m } bs := by
  refine ⟨inv.listed.congr fun b hb => readBlock_congr fun i hlo hhi =>
    hsame b hb i hlo hhi, inv.layout,
    inv.inside, inv.held, inv.tracked, inv.used, inv.free, inv.total⟩

/-- The payload of a block of the heap has no byte of a header. -/
theorem Layout.not_header (lay : Layout bs) (hb : b ∈ bs) (hc : c ∈ bs) {i : Nat}
    (hi : blockPayload b.addr ≤ i ∧ i < b.stop) : ¬(c.addr ≤ i ∧ i < c.addr + blockHeader) := by
  intro hci
  by_cases hcb : c = b
  · rw [hcb] at hci
    simp only [blockPayload] at hi
    omega
  have hapart := lay.apart_of_ne hc hb hcb
  simp only [Apart, stop, blockPayload] at hapart hi
  omega

/-- `takeBlock` on a free block that is large enough. -/
theorem takeBlock_spec (inv : HeapInv h (pre ++ b :: post)) (hfree : b.free = true)
    (hmod : size % 16 = 0) (hle : size ≤ b.size) :
    ∃ h' got rest, (takeBlock b.addr size).run h = (.ok (blockPayload b.addr), h') ∧
      HeapInv h' (pre ++ ⟨b.addr, got, false⟩ :: (rest ++ post)) ∧ h'.initialized = h.initialized ∧
      size ≤ got := by
  obtain ⟨h₁, got, rest, hsplit, inv₁, hpages, hgot⟩ := splitBlock_spec inv hfree hmod hle
  have hlisted := inv₁.listed.retag inv₁.layout false
  have hsize := hlisted.size ⟨b.addr, got, false⟩ (by simp)
  have hfreeSize := inv₁.freeSize_le
  simp only [freeSize, hfree, if_true] at hfreeSize
  have inv₂ : HeapInv { h₁ with
      mem := setMagic (setFree h₁.mem b.addr false) b.addr kmemMagicAlloc
      stats := { h₁.stats with
        usedBytes := h₁.stats.usedBytes + got
        freeBytes := h₁.stats.freeBytes - got
        allocationCount := h₁.stats.allocationCount + 1 } }
      (pre ++ ⟨b.addr, got, false⟩ :: (rest ++ post)) := by
    refine inv₁.retag false rfl rfl rfl ⟨rfl, rfl, rfl⟩ rfl ?_ ?_
    · simp [usedSize, hfree]
    · simp only [freeSize, hfree, if_true]
      simp only [Bool.false_eq_true, if_false]
      omega
  -- clearing the payload touches no header
  have inv₃ := inv₂.write
    ((setMagic (setFree h₁.mem b.addr false) b.addr kmemMagicAlloc).fill
      (blockPayload b.addr) got 0) ?_
  · refine ⟨_, got, rest, ?_, inv₃, hpages.initialized, hgot⟩
    rw [takeBlock, bind_of_ok hsplit]
    simp only [poke, Heap.count, run_modify_bind, run_get_bind]
    change (readBlock (setMagic (setFree h₁.mem b.addr false) b.addr kmemMagicAlloc) b.addr).size
      = got at hsize
    rw [hsize, run_pure]
  · intro c hc i hlo hhi
    refine if_neg fun hin => ?_
    exact inv₂.layout.not_header (b := ⟨b.addr, got, false⟩) (by simp) hc hin ⟨hlo, hhi⟩

/-- The allocated blocks, that of the pointer `p` apart, are as before. -/
def Kept (p : Nat) (bs bs' : List Block) : Prop :=
  ∀ x ∈ bs, x.free = false → blockPayload x.addr ≠ p → x ∈ bs'

/-- The pointer `p` is null, or the payload of a block of at least `size` bytes that is not one of
the allocated blocks of `bs`. -/
def Granted (bs bs' : List Block) (p size : Nat) : Prop :=
  p ≠ 0 → ∃ b ∈ bs', b.free = false ∧ p = blockPayload b.addr ∧ size ≤ b.size ∧
    ∀ x ∈ bs, x.free = false → x.addr ≠ b.addr

/-- A call that returns a pointer to `size` bytes. -/
def Allocates (x : HeapM Nat) (h : Heap) (bs : List Block) (size : Nat) : Prop :=
  ∃ h' p bs', x.run h = (.ok p, h') ∧ HeapInv h' bs' ∧ h'.initialized = h.initialized ∧
    Kept 0 bs bs' ∧ Granted bs bs' p size

private theorem kmallocRetry_of_some {a : Nat} (turns : Nat)
    (hrun : (findFit size (h.stats.heapBytes + 1) h.head).run h = (.ok (some a), h)) :
    (kmallocRetry size (turns + 1)).run h = (takeBlock a size).run h := by
  rw [← Nat.succ_eq_add_one, kmallocRetry, run_get_bind, bind_of_ok hrun]

/-- With a free block that is large enough, one turn is enough. -/
theorem kmallocRetry_found (turns : Nat) (inv : HeapInv h bs) (hmod : size % 16 = 0)
    (hfit : ∃ b ∈ bs, b.free = true ∧ size ≤ b.size) :
    Allocates (kmallocRetry size (turns + 1)) h bs size := by
  have inv' : HeapInv h ([] ++ bs) := inv
  obtain ⟨r, hrun, hnone, hsome⟩ := findFit_spec size inv' inv.length_lt
  rw [← inv.listed.head_eq] at hrun
  cases r with
  | none =>
    obtain ⟨b, hb, hbfit⟩ := hfit
    exact absurd hbfit (hnone rfl b hb)
  | some a =>
    obtain ⟨pre, b, post, heq, rfl, hfree, hle⟩ := hsome a rfl
    rw [nil_append] at heq
    subst heq
    obtain ⟨h', got, rest, htake, inv₁, hinit, hgot⟩ := takeBlock_spec inv hfree hmod hle
    refine ⟨h', _, _, ?_, inv₁, hinit, ?_,
      fun _ => ⟨⟨b.addr, got, false⟩, by simp, rfl, rfl, hgot, ?_⟩⟩
    · exact (kmallocRetry_of_some turns hrun).trans htake
    · intro x hx hxfree _
      simp only [mem_append, mem_cons] at hx ⊢
      rcases hx with hx | rfl | hx
      · exact .inl hx
      · rw [hfree] at hxfree
        cases hxfree
      · exact .inr (.inr (.inr hx))
    · -- The block was free, so that no allocated block is at its address.
      intro x hx hxfree heq
      have hbmem : b ∈ pre ++ b :: post := by simp
      rw [inv.layout.eq_of_addr hx hbmem heq, hfree] at hxfree
      cases hxfree

private theorem failed_spec (inv : HeapInv h bs) (size : Nat) : Allocates failed h bs size :=
  ⟨_, 0, bs, rfl, inv.recount _, rfl, fun _ hx _ _ => hx, fun h => absurd rfl h⟩

/-- A request finds a block, or grows the heap and tries again. -/
private theorem kmallocRetry_spec (inv : HeapInv h bs) (hmod : size % 16 = 0)
    (hmax : size ≤ kmallocMax + 15) : Allocates (kmallocRetry size 2) h bs size := by
  by_cases hfit : ∃ b ∈ bs, b.free = true ∧ size ≤ b.size
  · exact kmallocRetry_found 1 inv hmod hfit
  have inv' : HeapInv h ([] ++ bs) := inv
  obtain ⟨r, hrun, hnone, hsome⟩ := findFit_spec size inv' inv.length_lt
  rw [← inv.listed.head_eq] at hrun
  cases r with
  | some a =>
    obtain ⟨pre, b, post, heq, -, hb⟩ := hsome a rfl
    rw [nil_append] at heq
    exact absurd ⟨b, by simp [heq], hb⟩ hfit
  | none =>
    simp only [kmallocMax] at hmax
    have hsmall : ¬2 ^ 64 ≤ size + blockHeader + (pageSize - 1) := by
      simp only [blockHeader, pageSize]
      omega
    obtain ⟨h₁, ok, hadd, hinit, hok⟩ := addHeapPages_spec
      (max ((size + blockHeader + (pageSize - 1)) / pageSize) 4) inv
    have hstep : (kmallocRetry size 2).run h =
        (if ok then kmallocRetry size 1 else failed).run h₁ := by
      rw [kmallocRetry, run_get_bind, bind_of_ok hrun]
      simp only [if_neg hsmall]
      rw [bind_of_ok hadd]
    cases ok with
    | false =>
      obtain ⟨h', p, bs', hfail, inv₁, hinit', hkept, hgranted⟩ := failed_spec hok size
      exact ⟨h', p, bs', hstep.trans hfail, inv₁, hinit'.trans hinit, hkept, hgranted⟩
    | true =>
      obtain ⟨b, inv₁, hbfree, hpages⟩ := hok
      -- The new block is large enough.
      have hbsize : size ≤ b.size := by
        have hle := Nat.le_max_left ((size + blockHeader + (pageSize - 1)) / pageSize) 4
        have hmul := Nat.mul_le_mul_right pageSize hle
        simp only [pageSize] at hmul hpages
        omega
      obtain ⟨h', p, bs', htake, inv₂, hinit', hkept, hgranted⟩ :=
        kmallocRetry_found 0 inv₁ hmod ⟨b, by simp, hbfree, hbsize⟩
      refine ⟨h', p, bs', hstep.trans htake, inv₂, hinit'.trans hinit, ?_, fun hp => ?_⟩
      · exact fun x hx => hkept x (mem_append_left _ hx)
      · obtain ⟨c, hc, hcfree, hpc, hsize, hnew⟩ := hgranted hp
        exact ⟨c, hc, hcfree, hpc, hsize, fun x hx => hnew x (mem_append_left _ hx)⟩

/-- The call returns and `Q` holds behind it, or the heap could not even get its first pages. -/
def Survives {α : Type} (x : HeapM α) (h : Heap) (Q : α → Heap → Prop) : Prop :=
  (∃ a h', x.run h = (.ok a, h') ∧ Q a h') ∨
    h.initialized = false ∧ ∃ h', x.run h = (.error .bootstrapFailed, h')

/-- The heap gets its first pages when it is used for the first time. -/
theorem kmemInit_spec (inv : HeapInv h bs) (hempty : h.initialized = false → bs = []) :
    Survives kmemInit h fun _ h' =>
      ∃ bs', HeapInv h' bs' ∧ h'.initialized = true ∧ ∀ x ∈ bs, x ∈ bs' := by
  cases hinit : h.initialized with
  | true =>
    left
    refine ⟨(), h, ?_, bs, inv, hinit, fun _ hx => hx⟩
    rw [kmemInit, run_get_bind, hinit]
    rfl
  | false =>
    obtain rfl := hempty hinit
    have hrun : kmemInit.run h = kmemInitLocked.run h := by
      rw [kmemInit, run_get_bind, hinit]
      rfl
    have inv₀ : HeapInv { h with
        stats := ⟨0, 0, 0, 0, 0, 0⟩, head := 0, tail := 0, initialized := true } [] :=
      ⟨⟨fun _ hb => (nomatch hb), fun _ hb => (nomatch hb), fun _ hb => (nomatch hb),
        ⟨rfl, rfl, trivial⟩⟩,
        inv.layout, fun _ hb => (nomatch hb), inv.held, inv.tracked, rfl, rfl, rfl⟩
    obtain ⟨h', ok, hadd, hinit', hok⟩ := addHeapPages_spec kmemBootPages inv₀
    rw [Survives, hrun, kmemInitLocked, run_modify_bind, bind_of_ok hadd]
    cases ok with
    | true =>
      obtain ⟨b, inv₁, -, -⟩ := hok
      exact .inl ⟨(), h', require_of_pos rfl, _, inv₁, hinit', fun _ hx => (nomatch hx)⟩
    | false => exact .inr ⟨hinit, h', require_of_neg (by simp)⟩

private theorem align16Checked_eq_some {n : Nat} (h : align16Checked n = some aligned) :
    n ≤ aligned ∧ aligned ≤ n + 15 ∧ aligned % 16 = 0 := by
  rw [align16Checked] at h
  split at h
  · cases h
    omega
  · cases h

/-- A block for more bytes is a block for fewer. -/
theorem Allocates.mono (hx : Allocates x h bs size') (hle : size ≤ size') :
    Allocates x h bs size := by
  obtain ⟨h', p, bs', hrun, inv', hinit, hkept, hgranted⟩ := hx
  refine ⟨h', p, bs', hrun, inv', hinit, hkept, fun hp => ?_⟩
  obtain ⟨c, hc, hfree, hpc, hsize, hnew⟩ := hgranted hp
  exact ⟨c, hc, hfree, hpc, hle.trans hsize, hnew⟩

/-- What `kmalloc` gives on an initialised heap. -/
theorem kmallocReady_spec (size : Nat) (inv : HeapInv h bs) :
    Allocates (kmallocReady size) h bs size := by
  rw [kmallocReady]
  by_cases hzero : size = 0
  · rw [if_pos hzero]
    exact ⟨h, 0, bs, rfl, inv, rfl, fun _ hx _ _ => hx, fun h => absurd rfl h⟩
  rw [if_neg hzero]
  cases halign : align16Checked size with
  | none => exact failed_spec inv size
  | some aligned =>
    obtain ⟨hle, hge, hmod⟩ := align16Checked_eq_some halign
    by_cases hlarge : kmallocMax < size ∨ aligned = 0
    · simp only [if_pos hlarge]
      exact failed_spec inv size
    · simp only [if_neg hlarge]
      exact (kmallocRetry_spec inv hmod (by omega)).mono hle

/-- What `kmalloc` gives. -/
theorem kmallocLocked_spec (size : Nat) (inv : HeapInv h bs)
    (hempty : h.initialized = false → bs = []) :
    Survives (kmallocLocked size) h fun p h' =>
      ∃ bs', HeapInv h' bs' ∧ h'.initialized = true ∧ Kept 0 bs bs' ∧ Granted bs bs' p size := by
  rcases kmemInit_spec inv hempty with ⟨_, h₁, hrun, bs₁, inv₁, hinit, hsub⟩ | ⟨hinit, h₁, hrun⟩
  · left
    obtain ⟨h', p, bs', hx, inv', hinit', hkept, hgranted⟩ := kmallocReady_spec size inv₁
    refine ⟨p, h', by rw [kmallocLocked, bind_of_ok hrun, hx], bs', inv', hinit'.trans hinit,
      fun y hy => hkept y (hsub y hy), fun hp => ?_⟩
    obtain ⟨c, hc, hcfree, hpc, hsize, hnew⟩ := hgranted hp
    exact ⟨c, hc, hcfree, hpc, hsize, fun y hy => hnew y (hsub y hy)⟩
  · right
    exact ⟨hinit, h₁, by rw [kmallocLocked, bind_of_error hrun]⟩

/-! ### Release -/

/-- The allocated blocks outlive a merge. -/
theorem kept_of_merge {gone post' : List Block} (rest : List Block)
    (hb : b.free = false → blockPayload b.addr = p) (hpost : post = gone ++ post')
    (hgone : ∀ x ∈ gone, x.free = true) :
    Kept p (pre ++ b :: post) (pre ++ c :: (rest ++ post')) := by
  subst hpost
  intro x hx hfree hne
  simp only [mem_append, mem_cons] at hx ⊢
  rcases hx with hx | rfl | hx | hx
  · exact .inl hx
  · exact absurd (hb hfree) hne
  · rw [hgone x hx] at hfree
    cases hfree
  · exact .inr (.inr (.inr hx))

private theorem kept_replace (pre post : List Block) (b c : Block) :
    Kept (blockPayload b.addr) (pre ++ b :: post) (pre ++ c :: post) := by
  have hkept : Kept (blockPayload b.addr) (pre ++ b :: post) (pre ++ c :: ([] ++ post)) :=
    kept_of_merge [] (fun _ => rfl) (nil_append post).symm fun _ hx => (nomatch hx)
  exact hkept

theorem Kept.trans {bs'' : List Block} (h₁ : Kept p bs bs') (h₂ : Kept p bs' bs'') :
    Kept p bs bs'' :=
  fun x hx hfree hne => h₂ x (h₁ x hx hfree hne) hfree hne

private theorem payloadBlock_blockPayload (a : Nat) : payloadBlock (blockPayload a) = a :=
  Nat.add_sub_cancel a blockHeader

/-- An allocated block passes the check of its header. -/
private theorem HeapInv.allocated (inv : HeapInv h bs) (hb : b ∈ bs) (hfree : b.free = false) :
    (readBlock h.mem b.addr).magic = kmemMagicAlloc ∧ !(readBlock h.mem b.addr).free := by
  rw [inv.listed.magic b hb, inv.listed.free b hb, magic, hfree]
  exact ⟨rfl, rfl⟩

/-- `kfree` of an allocated block. -/
theorem kfreeLocked_spec (inv : HeapInv h bs) (hb : b ∈ bs) (hfree : b.free = false) :
    ∃ h' bs', (kfreeLocked (blockPayload b.addr)).run h = (.ok (), h') ∧ HeapInv h' bs' ∧
      h'.initialized = h.initialized ∧ Kept (blockPayload b.addr) bs bs' := by
  obtain ⟨pre, post, rfl⟩ := append_of_mem hb
  have hbpos := inv.addr_ne b hb
  have hle := inv.usedSize_le
  simp only [usedSize, hfree, Bool.false_eq_true, if_false] at hle
  obtain ⟨h₁, hh₁⟩ : ∃ h₁ : Heap, h₁ = { h with
      mem := setMagic (setFree h.mem b.addr true) b.addr kmemMagicFree
      stats := { h.stats with
        usedBytes := h.stats.usedBytes - b.size
        freeBytes := h.stats.freeBytes + b.size } } := ⟨_, rfl⟩
  have inv₁ : HeapInv h₁ (pre ++ { b with free := true } :: post) := by
    subst hh₁
    refine inv.retag true rfl rfl rfl ⟨rfl, rfl, rfl⟩ rfl ?_ ?_
    · simp only [usedSize, hfree, Bool.false_eq_true, if_false, if_true]
      omega
    · simp only [freeSize, hfree, Bool.false_eq_true, if_false, if_true]
      omega
  have hrun : (kfreeLocked (blockPayload b.addr)).run h = (mergeForward (h.stats.heapBytes + 1)
        (if lastAddr pre ≠ 0 ∧ (readBlock h.mem (lastAddr pre)).free ∧
          adjacent (lastAddr pre) (readBlock h.mem (lastAddr pre)).size b.addr then lastAddr pre
        else b.addr)).run h₁ := by
    subst hh₁
    rw [kfreeLocked, if_neg (by simp [blockPayload, blockHeader])]
    simp only [payloadBlock_blockPayload, run_get_bind]
    rw [bind_of_ok (require_of_pos (inv.allocated hb hfree)), inv.listed.prev_eq hbpos,
      inv.listed.size b hb]
    simp only [poke, Heap.count, run_modify_bind]
  -- The merge starts at a free block: at the one before if that touches it, or else at the block
  -- itself.
  have hfirst : ∃ pre' c post', pre ++ { b with free := true } :: post = pre' ++ c :: post' ∧
      c.free = true ∧ (if lastAddr pre ≠ 0 ∧ (readBlock h.mem (lastAddr pre)).free ∧
        adjacent (lastAddr pre) (readBlock h.mem (lastAddr pre)).size b.addr then lastAddr pre
      else b.addr) = c.addr := by
    split_ifs with hback
    · rcases eq_nil_or_concat pre with rfl | ⟨pre', q, rfl⟩
      · exact absurd rfl hback.1
      rw [concat_eq_append, lastAddr_concat, inv.listed.free q (by simp)] at hback
      exact ⟨pre', q, { b with free := true } :: post, by simp, hback.2.1,
        by rw [concat_eq_append, lastAddr_concat]⟩
    · exact ⟨pre, { b with free := true }, post, rfl, rfl, rfl⟩
  obtain ⟨pre', c, post', heq, hc, hstart⟩ := hfirst
  have hretag := kept_replace pre post b { b with free := true }
  have hlen := inv₁.length_lt
  rw [heq] at inv₁ hretag hlen
  rw [hstart] at hrun
  have hturns : post'.length < h.stats.heapBytes + 1 := by
    rw [hh₁] at hlen
    simp only [length_append, length_cons] at hlen
    omega
  obtain ⟨h', gone, post'', size, hmerge, inv', hpages, hpost, hgone⟩ :=
    mergeForward_spec inv₁ hturns
  refine ⟨h', _, hrun.trans hmerge, inv', hpages.initialized.trans (by rw [hh₁]), hretag.trans ?_⟩
  refine kept_of_merge [] (fun h => ?_) hpost hgone
  rw [hc] at h
  cases h

/-! ### Another size -/

/-- A block takes in the free block behind it and gives back what it does not need. -/
theorem growInPlace_spec (inv : HeapInv h (pre ++ b :: n :: post)) (hfree : b.free = false)
    (hnfree : n.free = true) (hadj : b.stop = n.addr) (hmod : wanted % 16 = 0)
    (hle : wanted ≤ b.size + blockHeader + n.size) :
    ∃ h' size bs', (growInPlace b.addr (readBlock h.mem b.addr)
      (readBlock h.mem n.addr) wanted).run h =
        (.ok (), h') ∧ HeapInv h' bs' ∧ SamePages h h' ∧ wanted ≤ size ∧
          { b with size := size } ∈ bs' ∧
      Kept (blockPayload b.addr) (pre ++ b :: n :: post) bs' := by
  have hbpos := inv.addr_ne b (by simp)
  have hnpos := inv.addr_ne n (by simp)
  have inv' : HeapInv h ((pre ++ [b]) ++ n :: post) := by simpa using inv
  have hnext := inv.listed.next_eq hbpos
  rw [firstAddr_cons] at hnext
  have hnsize := inv'.freeSize_le
  simp only [freeSize, hnfree, if_true] at hnsize
  -- first the two blocks become one
  obtain ⟨h₁, hh₁⟩ : ∃ h₁ : Heap, h₁ = { h with
      mem := merged h.mem b.addr (b.size + blockHeader + n.size) n.addr (firstAddr post)
      tail := if firstAddr post ≠ 0 then h.tail else b.addr
      stats := { h.stats with
        freeBytes := h.stats.freeBytes - n.size
        usedBytes := h.stats.usedBytes + (blockHeader + n.size) } } := ⟨_, rfl⟩
  have inv₁ : HeapInv h₁ (pre ++ { b with size := b.size + blockHeader + n.size } :: post) := by
    subst hh₁
    refine inv.merge hadj rfl rfl rfl ⟨rfl, rfl, rfl⟩ rfl ?_ ?_
    · simp [usedBytes, usedSize, hfree, hnfree]
      omega
    · simp [freeBytes, freeSize, hfree, hnfree]
      omega
  have hrun : (growInPlace b.addr (readBlock h.mem b.addr) (readBlock h.mem n.addr) wanted).run h =
      (splitAllocatedBlock b.addr wanted).run h₁ := by
    subst hh₁
    simp only [growInPlace, hnext, inv'.listed.next_eq hnpos, inv.listed.size b (by simp),
      inv.listed.size n (by simp), poke, Heap.count, setPrevOrTail, run_modify_bind]
    by_cases hnil : firstAddr post = 0
    · simp only [merged, linkBack, if_neg (not_not.mpr hnil)]
    · simp only [merged, linkBack, if_pos hnil]
  -- then what is not needed is split off
  obtain ⟨h', size, rest, gone, post', hsplit, inv₂, hpages, hsize, hpost, hgone⟩ :=
    splitAllocatedBlock_spec inv₁ hfree hmod hle
  dsimp only at hsplit
  refine ⟨h', size, _, hrun.trans hsplit, inv₂, ?_, hsize, by simp, ?_⟩
  · refine SamePages.trans ?_ hpages
    rw [hh₁]
    exact ⟨rfl, rfl, rfl⟩
  · have hgone' : ∀ x ∈ n :: gone, x.free = true := by
      intro x hx
      rcases mem_cons.mp hx with rfl | hx
      · exact hnfree
      · exact hgone x hx
    exact kept_of_merge rest (fun _ => rfl) (by rw [hpost, cons_append]) hgone'

/-- A call that moves the allocation `b` to a pointer to `size` bytes, or fails and leaves it. -/
def Reallocates (x : HeapM Nat) (h : Heap) (bs : List Block) (b : Block) (size : Nat) : Prop :=
  ∃ h' q bs', x.run h = (.ok q, h') ∧ HeapInv h' bs' ∧ h'.initialized = h.initialized ∧
    Kept (blockPayload b.addr) bs bs' ∧ (q = 0 → b ∈ bs') ∧
    (q ≠ 0 → ∃ c ∈ bs', c.free = false ∧ q = blockPayload c.addr ∧ size ≤ c.size ∧
      ∀ x ∈ bs, x.free = false → x.addr ≠ b.addr → x.addr ≠ c.addr)

/-- So it is when a block is moved. -/
theorem Reallocates.mono (hx : Reallocates x h bs b size')
    (hle : size ≤ size') : Reallocates x h bs b size := by
  obtain ⟨h', q, bs', hrun, inv', hinit, hkept, hfail, hok⟩ := hx
  refine ⟨h', q, bs', hrun, inv', hinit, hkept, hfail, fun hq => ?_⟩
  obtain ⟨c, hc, hfree, hqc, hsize, hnew⟩ := hok hq
  exact ⟨c, hc, hfree, hqc, hle.trans hsize, hnew⟩

private theorem reallocates_failed (inv : HeapInv h bs) (hb : b ∈ bs) (size : Nat) :
    Reallocates failed h bs b size :=
  ⟨_, 0, bs, rfl, inv.recount _, rfl, fun _ hx _ _ => hx, fun _ => hb, fun h => absurd rfl h⟩

/-- The last way of `krealloc`: a new block, a copy and a release. -/
theorem reallocates_copy (inv : HeapInv h bs) (hinit : h.initialized = true) (hb : b ∈ bs)
    (hfree : b.free = false) (hlt : b.size ≤ aligned) :
    Reallocates (do
      let np ← kmallocLocked aligned
      if np = 0 then pure 0
      else do
        poke fun m => m.copy np (blockPayload b.addr) b.size
        kfreeLocked (blockPayload b.addr)
        pure np) h bs b aligned := by
  have hbpos : blockPayload b.addr ≠ 0 := by simp [blockPayload, blockHeader]
  rcases kmallocLocked_spec aligned inv (fun h => by rw [hinit] at h; cases h) with
    ⟨np, h₁, hrun, bs₁, inv₁, hinit₁, hkept₁, hgranted⟩ | ⟨hfalse, -⟩
  · have hb₁ : b ∈ bs₁ := hkept₁ b hb hfree hbpos
    have hsub : Kept (blockPayload b.addr) bs bs₁ := fun x hx hxfree _ =>
      hkept₁ x hx hxfree (by simp [blockPayload, blockHeader])
    by_cases hnp : np = 0
    · refine ⟨h₁, 0, bs₁, ?_, inv₁, hinit₁.trans hinit.symm, hsub, fun _ => hb₁,
        fun h => absurd rfl h⟩
      rw [bind_of_ok hrun, if_pos hnp, run_pure]
    obtain ⟨c, hc, hcfree, hpc, hsize, hnew⟩ := hgranted hnp
    have hcb : b.addr ≠ c.addr := hnew b hb hfree
    -- The copy stays inside the new payload.
    have inv₂ := inv₁.write (h₁.mem.copy np (blockPayload b.addr) b.size) ?_
    · obtain ⟨h', bs', hfreed, inv', hinit', hkept'⟩ := kfreeLocked_spec inv₂ hb₁ hfree
      have hc' : c ∈ bs' := by
        refine hkept' c hc hcfree fun h => hcb ?_
        simp only [blockPayload] at h
        omega
      refine ⟨h', np, bs', ?_, inv', hinit'.trans (hinit₁.trans hinit.symm), hsub.trans hkept',
        fun h => absurd h hnp, fun _ =>
          ⟨c, hc', hcfree, hpc, hsize, fun x hx hxfree _ => hnew x hx hxfree⟩⟩
      rw [bind_of_ok hrun, if_neg hnp, poke, run_modify_bind, bind_of_ok hfreed, run_pure]
    · intro d hd i hlo hhi
      refine if_neg fun hin => ?_
      refine inv₁.layout.not_header hc hd ?_ ⟨hlo, hhi⟩
      simp only [hpc, blockPayload, stop] at hin ⊢
      omega
  · rw [hinit] at hfalse
    cases hfalse

/-- The two ways of `krealloc` that keep the pointer. -/
theorem reallocates_here {x : HeapM Unit} (hrun : x.run h = (.ok (), h'))
    (hfree : b.free = false) (inv' : HeapInv h' bs') (hinit : h'.initialized = h.initialized)
    (hle : aligned ≤ size) (hmem : { b with size := size } ∈ bs')
    (hkept : Kept (blockPayload b.addr) bs bs') :
    Reallocates (x >>= fun _ => pure (blockPayload b.addr)) h bs b aligned := by
  refine ⟨h', _, bs', by rw [bind_of_ok hrun, run_pure], inv', hinit, hkept, fun h => ?_,
    fun _ => ⟨_, hmem, hfree, rfl, hle, fun _ _ _ hne => hne⟩⟩
  simp [blockPayload, blockHeader] at h

/-- `krealloc` of an allocated block. -/
theorem kreallocLocked_spec (inv : HeapInv h bs) (hinit : h.initialized = true) (hb : b ∈ bs)
    (hfree : b.free = false) (size : Nat) :
    Reallocates (kreallocLocked (blockPayload b.addr) size) h bs b size := by
  have hbpos := inv.addr_ne b hb
  have hbsize := inv.listed.size b hb
  simp only [Reallocates, kreallocLocked, payloadBlock_blockPayload, run_get_bind,
    bind_of_ok (require_of_pos (inv.allocated hb hfree)), hbsize]
  cases halign : align16Checked size with
  | none => exact reallocates_failed inv hb size
  | some aligned =>
    obtain ⟨hge, -, hmod⟩ := align16Checked_eq_some halign
    by_cases hlarge : kmallocMax < size ∨ aligned = 0
    · simp only [if_pos hlarge]
      exact reallocates_failed inv hb size
    simp only [if_neg hlarge]
    obtain ⟨pre, post, rfl⟩ := append_of_mem hb
    -- the block is large enough, and may be split
    by_cases hshrink : aligned ≤ b.size
    · simp only [if_pos hshrink]
      obtain ⟨h', size', rest, gone, post', hsplit, inv', hpages, hsize, hpost, hgone⟩ :=
        splitAllocatedBlock_spec inv hfree hmod hshrink
      refine (reallocates_here hsplit hfree inv' hpages.initialized hsize (by simp) ?_).mono hge
      exact kept_of_merge rest (fun _ => rfl) hpost hgone
    simp only [if_neg hshrink, inv.listed.next_eq hbpos]
    -- a free block behind it makes it large enough
    by_cases hgrow : firstAddr post ≠ 0 ∧ (readBlock h.mem (firstAddr post)).free = true ∧
        adjacent b.addr b.size (firstAddr post) = true ∧
        b.size + blockHeader + (readBlock h.mem (firstAddr post)).size < 2 ^ 64 ∧
        aligned ≤ b.size + blockHeader + (readBlock h.mem (firstAddr post)).size
    · simp only [if_pos hgrow]
      cases post with
      | nil => exact absurd rfl hgrow.1
      | cons n post =>
        rw [firstAddr_cons] at hgrow ⊢
        obtain ⟨hnpos, hnfree, hadj, -, hroom⟩ := hgrow
        rw [inv.listed.free n (by simp)] at hnfree
        rw [inv.listed.size n (by simp)] at hroom
        obtain ⟨h', size', bs', hrun, inv', hpages, hsize, hmem, hkept⟩ :=
          growInPlace_spec inv hfree hnfree ((adjacent_iff hbpos hnpos).mp hadj) hmod hroom
        exact (reallocates_here hrun hfree inv' hpages.initialized hsize hmem hkept).mono hge
    · simp only [if_neg hgrow]
      -- otherwise the content is copied to a new block
      exact (reallocates_copy inv hinit hb hfree (by omega)).mono hge

end Rabbitbone.Spec.Mm
