import Mathlib.Logic.Relation
import Rabbitbone.Spec.Mm.KmemOps

/-!
# Runs of the kernel heap

The heap together with its clients: which pointers are live and how many bytes each was asked for.
A client calls the heap with live pointers, and writes to the bytes it asked for or outside the
pages of the heap.  The rest of the kernel may take and give back frames, but not those of the heap.
-/

namespace Rabbitbone.Spec.Mm

open Native.Sys Native.Mm FallibleState List

/-- The heap and its live pointers, each with the number of bytes it was asked for. -/
structure KmemSystem where
  heap : Heap
  live : List (Nat × Nat)

/-- A call of a client. -/
inductive KmemCall where
  | kmalloc (size : Nat)
  | kcalloc (count size : Nat)
  | krealloc (ptr newSize : Nat)
  | kfree (ptr : Nat)
  deriving DecidableEq, Repr

namespace KmemCall

/-- The code of a call. -/
def run : KmemCall → HeapM Nat
  | kmalloc size => Heap.kmalloc size
  | kcalloc count size => Heap.kcalloc count size
  | krealloc ptr newSize => Heap.krealloc ptr newSize
  | kfree ptr => do
    Heap.kfree ptr
    pure 0

/-- The pointer that a call gets. -/
def ptr : KmemCall → Nat
  | krealloc ptr _ => ptr
  | kfree ptr => ptr
  | _ => 0

/-- A pointer that was returned is live. -/
def grant (p size : Nat) (live : List (Nat × Nat)) : List (Nat × Nat) :=
  if p = 0 then live else (p, size) :: live

/-- A pointer that was given back is not. -/
def drop (p : Nat) (live : List (Nat × Nat)) : List (Nat × Nat) := live.filter (·.1 ≠ p)

/-- The live pointers behind a call that returns `p`. -/
def after (live : List (Nat × Nat)) (p : Nat) : KmemCall → List (Nat × Nat)
  | kmalloc size => grant p size live
  | kcalloc count size => grant p (count * size) live
  | krealloc ptr newSize =>
    if ptr = 0 then grant p newSize live
    else if newSize = 0 then drop ptr live
    else if p = 0 then live
    else grant p newSize (drop ptr live)
  | kfree ptr => drop ptr live

/-- The call gets a null pointer or a live one. -/
def Valid (s : KmemSystem) (c : KmemCall) : Prop := c.ptr = 0 ∨ c.ptr ∈ s.live.map Prod.fst

end KmemCall

/-- One step of the system. -/
inductive KmemStep (s : KmemSystem) : KmemSystem → Prop
  | init {h : Heap} (hrun : Heap.kmemInit.run s.heap = (.ok (), h)) : KmemStep s ⟨h, s.live⟩
  | call {c : KmemCall} {p : Nat} {h : Heap} (hvalid : c.Valid s)
    (hrun : c.run.run s.heap = (.ok p, h)) :
    KmemStep s ⟨h, c.after s.live p⟩
  | write {a : Nat} (v : UInt8)
      (ha : (∃ l ∈ s.live, l.1 ≤ a ∧ a < l.1 + l.2) ∨ ¬InRuns s.heap.runs a) :
    KmemStep s ⟨{ s.heap with mem := s.heap.mem.fill a 1 v }, s.live⟩
  | frames {m : Memory} (hcount : m.frameCount ≤ m.frames.bitCount)
      (hheld : ∀ r ∈ s.heap.runs, ∀ f, r.1 ≤ f → f < r.1 + r.2 → m.frames.test f = true) :
    KmemStep s ⟨{ s.heap with frames := m }, s.live⟩

/-- The system before the first use of the heap, on any memory. -/
def kmemStart (mem : ByteMemory) (frames : Memory) : KmemSystem where
  heap := ⟨mem, 0, 0, ⟨0, 0, 0, 0, 0, 0⟩, false, frames, []⟩
  live := []

/-- The bytes behind a live pointer, as its header has them. -/
def capacity (h : Heap) (p : Nat) : Nat := (readBlock h.mem (Heap.payloadBlock p)).size

/-- The heap is in order. -/
structure KmemSound (s : KmemSystem) : Prop where
  /-- The block list is doubly linked, its headers are those of the blocks, and the counters add
  up. -/
  listed : ∃ bs, Listed s.heap.mem s.heap.head s.heap.tail bs ∧
    s.heap.stats.usedBytes + s.heap.stats.freeBytes + blockHeader * bs.length =
      s.heap.stats.heapBytes
  large : ∀ l ∈ s.live, l.2 ≤ capacity s.heap l.1
  disjoint : s.live.Pairwise fun l l' =>
    l.1 + capacity s.heap l.1 ≤ l'.1 ∨ l'.1 + capacity s.heap l'.1 ≤ l.1
  inside : ∀ l ∈ s.live, ∀ i, l.1 ≤ i → i < l.1 + capacity s.heap l.1 → InRuns s.heap.runs i
  held : ∀ r ∈ s.heap.runs, ∀ f, r.1 ≤ f → f < r.1 + r.2 → s.heap.frames.frames.test f = true

/-! ### The invariant of a run -/

/-- The live pointers are payloads of different allocated blocks, each large enough. -/
structure Backed (bs : List Block) (live : List (Nat × Nat)) : Prop where
  block : ∀ l ∈ live, ∃ b ∈ bs, b.free = false ∧ l.1 = Heap.blockPayload b.addr ∧ l.2 ≤ b.size
  nodup : (live.map Prod.fst).Nodup

/-- What holds in every state of a run. -/
structure SystemInv (s : KmemSystem) (bs : List Block) : Prop where
  heap : HeapInv s.heap bs
  empty : s.heap.initialized = false → bs = []
  backed : Backed bs s.live

variable {bs bs' : List Block} {live : List (Nat × Nat)} {p : Nat} {s : KmemSystem}

/-- Blocks that are kept back the same allocations. -/
theorem Backed.kept (h : Backed bs live) (hkept : Kept 0 bs bs') : Backed bs' live := by
  refine ⟨fun l hl => ?_, h.nodup⟩
  obtain ⟨b, hb, hfree, hptr, hsize⟩ := h.block l hl
  exact ⟨b, hkept b hb hfree (by simp [Heap.blockPayload, blockHeader]), hfree, hptr, hsize⟩

/-- A freed block backs nothing. -/
theorem Backed.drop (h : Backed bs live) (hkept : Kept p bs bs') :
    Backed bs' (KmemCall.drop p live) := by
  refine ⟨fun l hl => ?_, ?_⟩
  · obtain ⟨hl, hne⟩ := mem_filter.mp hl
    obtain ⟨b, hb, hfree, hptr, hsize⟩ := h.block l hl
    refine ⟨b, hkept b hb hfree ?_, hfree, hptr, hsize⟩
    rw [← hptr]
    simpa using hne
  · exact h.nodup.sublist (Sublist.map _ filter_sublist)

/-- A new block backs the new allocation. -/
theorem Backed.grant {size : Nat} (h : Backed bs live)
    (hp : p ≠ 0 → ∃ b ∈ bs, b.free = false ∧ p = Heap.blockPayload b.addr ∧ size ≤ b.size)
    (hnew : p ≠ 0 → p ∉ live.map Prod.fst) : Backed bs (KmemCall.grant p size live) := by
  rw [KmemCall.grant]
  by_cases hzero : p = 0
  · rw [if_pos hzero]
    exact h
  rw [if_neg hzero]
  refine ⟨fun l hl => ?_, ?_⟩
  · rcases mem_cons.mp hl with rfl | hl
    · exact hp hzero
    · exact h.block l hl
  · rw [map_cons, nodup_cons]
    exact ⟨hnew hzero, h.nodup⟩

private theorem Backed.not_mem_of_granted {size : Nat} (h : Backed bs live)
    (hgranted : Granted bs bs' p size) (hp : p ≠ 0) : p ∉ live.map Prod.fst := by
  intro hmem
  obtain ⟨l, hl, rfl⟩ := mem_map.mp hmem
  obtain ⟨b, hb, hfree, hptr, -⟩ := h.block l hl
  obtain ⟨c, -, -, hpc, -, hnew⟩ := hgranted hp
  refine hnew b hb hfree ?_
  simp only [Heap.blockPayload] at hptr hpc
  omega

/-- The block of a live pointer. -/
theorem SystemInv.block_of_mem (inv : SystemInv s bs) (hp : p ∈ s.live.map Prod.fst) :
    ∃ b ∈ bs, b.free = false ∧ p = Heap.blockPayload b.addr ∧ s.heap.initialized = true := by
  obtain ⟨l, hl, rfl⟩ := mem_map.mp hp
  obtain ⟨b, hb, hfree, hptr, -⟩ := inv.backed.block l hl
  refine ⟨b, hb, hfree, hptr, ?_⟩
  cases hinit : s.heap.initialized with
  | true => rfl
  | false =>
    rw [inv.empty hinit] at hb
    cases hb

private theorem kmalloc_survives (inv : SystemInv s bs) (size : Nat) :
    Survives (Heap.kmalloc size) s.heap fun p h' =>
      ∃ bs', SystemInv ⟨h', KmemCall.grant p size s.live⟩ bs' := by
  refine (kmallocLocked_spec size inv.heap inv.empty).imp_left
    fun ⟨p, h', hrun, bs', inv', hinit, hkept, hgranted⟩ =>
    ⟨p, h', hrun, bs', inv', fun h => ?_, (inv.backed.kept hkept).grant (fun hp => ?_) fun hp => ?_⟩
  · rw [hinit] at h
    cases h
  · obtain ⟨b, hb, hfree, hpb, hsize, -⟩ := hgranted hp
    exact ⟨b, hb, hfree, hpb, hsize⟩
  · exact inv.backed.not_mem_of_granted hgranted hp

private theorem kfree_survives (inv : SystemInv s bs) (hp : p = 0 ∨ p ∈ s.live.map Prod.fst) :
    ∃ h', (Heap.kfree p).run s.heap = (.ok (), h') ∧
      ∃ bs', SystemInv ⟨h', KmemCall.drop p s.live⟩ bs' := by
  rcases hp with rfl | hp
  · refine ⟨s.heap, ?_, bs, inv.heap, inv.empty, inv.backed.drop fun _ hx _ _ => hx⟩
    rw [Heap.kfree, Heap.kfreeLocked, if_pos rfl, run_pure]
  obtain ⟨b, hb, hfree, rfl, hinit⟩ := inv.block_of_mem hp
  obtain ⟨h', bs', hrun, inv', hinit', hkept⟩ := kfreeLocked_spec inv.heap hb hfree
  refine ⟨h', hrun, bs', inv', fun h => ?_, inv.backed.drop hkept⟩
  rw [hinit', hinit] at h
  cases h

/-- Every valid call keeps the invariant and returns, unless the heap cannot get its first pages. -/
theorem call_survives {c : KmemCall} (inv : SystemInv s bs) (hvalid : c.Valid s) :
    Survives c.run s.heap fun p h' => ∃ bs', SystemInv ⟨h', c.after s.live p⟩ bs' := by
  cases c with
  | kmalloc size => exact kmalloc_survives inv size
  | kcalloc count size =>
    simp only [KmemCall.run, Heap.kcalloc]
    by_cases hover : size ≠ 0 ∧ (2 ^ 64 - 1) / size < count
    · rw [if_pos hover]
      exact .inl ⟨0, s.heap, rfl, bs, inv⟩
    · rw [if_neg hover]
      exact kmalloc_survives inv (count * size)
  | kfree ptr =>
    have hlive : ptr = 0 ∨ ptr ∈ s.live.map Prod.fst := hvalid
    obtain ⟨h', hrun, bs', inv'⟩ := kfree_survives inv hlive
    refine .inl ⟨0, h', ?_, bs', inv'⟩
    rw [KmemCall.run, bind_of_ok hrun, run_pure]
  | krealloc ptr newSize =>
    have hlive : ptr = 0 ∨ ptr ∈ s.live.map Prod.fst := hvalid
    simp only [KmemCall.run, Heap.krealloc, KmemCall.after]
    by_cases hptr : ptr = 0
    · simp only [if_pos hptr]
      exact kmalloc_survives inv newSize
    simp only [if_neg hptr]
    by_cases hsize : newSize = 0
    · simp only [if_pos hsize]
      obtain ⟨h', hrun, bs', inv'⟩ := kfree_survives inv hlive
      refine .inl ⟨0, h', ?_, bs', inv'⟩
      rw [bind_of_ok hrun, run_pure]
    simp only [if_neg hsize]
    obtain ⟨b, hb, hfree, rfl, hinit⟩ := inv.block_of_mem (hlive.resolve_left hptr)
    obtain ⟨h', q, bs', hrun, inv', hinit', hkept, hfail, hok⟩ :=
      kreallocLocked_spec inv.heap hinit hb hfree newSize
    have hempty : h'.initialized = false → bs' = [] := by
      intro h
      rw [hinit', hinit] at h
      cases h
    refine .inl ⟨q, h', hrun, bs', inv', hempty, ?_⟩
    by_cases hq : q = 0
    · -- A failed call keeps the old block.
      rw [if_pos hq]
      refine inv.backed.kept fun x hx hxfree _ => ?_
      by_cases hxb : x.addr = b.addr
      · rw [inv.heap.layout.eq_of_addr hx hb hxb]
        exact hfail hq
      refine hkept x hx hxfree fun h => hxb ?_
      simp only [Heap.blockPayload] at h
      omega
    · rw [if_neg hq]
      refine (inv.backed.drop hkept).grant (fun _ => ?_) fun _ hmem => ?_
      · obtain ⟨c, hc, hcfree, hqc, hcsize, -⟩ := hok hq
        exact ⟨c, hc, hcfree, hqc, hcsize⟩
      · obtain ⟨c, -, -, hqc, -, hnew⟩ := hok hq
        obtain ⟨l, hl, rfl⟩ := mem_map.mp hmem
        obtain ⟨hl, hne⟩ := mem_filter.mp hl
        obtain ⟨x, hx, hxfree, hptr', -⟩ := inv.backed.block l hl
        have hne' : l.1 ≠ Heap.blockPayload b.addr := by simpa using hne
        simp only [Heap.blockPayload] at hptr' hqc hne'
        exact hnew x hx hxfree (by omega) (by omega)

/-! ### Runs -/

/-- Every call keeps the invariant. -/
theorem SystemInv.step {s' : KmemSystem} (inv : SystemInv s bs) (hstep : KmemStep s s') :
    ∃ bs', SystemInv s' bs' := by
  cases hstep with
  | init hrun =>
    rcases kmemInit_spec inv.heap inv.empty with ⟨_, h', hrun', bs', inv', hinit, hsub⟩ |
      ⟨-, h', hrun'⟩
    · rw [hrun] at hrun'
      cases hrun'
      refine ⟨bs', inv', fun h => ?_, inv.backed.kept fun x hx _ _ => hsub x hx⟩
      rw [hinit] at h
      cases h
    · rw [hrun] at hrun'
      cases hrun'
  | call hvalid hrun =>
    rcases call_survives inv hvalid with ⟨p, h', hrun', inv'⟩ | ⟨-, h', hrun'⟩
    · rw [hrun] at hrun'
      cases hrun'
      exact inv'
    · rw [hrun] at hrun'
      cases hrun'
  | @write a v ha =>
    refine ⟨bs, inv.heap.write _ fun b hb i hlo hhi => if_neg fun hin => ?_, inv.empty, inv.backed⟩
    obtain rfl : i = a := by omega
    rcases ha with ⟨l, hl, hla⟩ | hout
    · obtain ⟨c, hc, -, hptr, hsize⟩ := inv.backed.block l hl
      refine inv.heap.layout.not_header hc hb ?_ ⟨hlo, hhi⟩
      simp only [Heap.blockPayload, Block.stop] at hptr ⊢
      omega
    · refine hout (inv.heap.inside b hb i ⟨hlo, ?_⟩)
      simp only [Block.stop]
      omega
  | frames hcount hheld =>
    exact ⟨bs, ⟨inv.heap.listed, inv.heap.layout, inv.heap.inside, hheld, hcount, inv.heap.used,
      inv.heap.free, inv.heap.total⟩, inv.empty, inv.backed⟩

/-- The empty heap has the invariant. -/
theorem SystemInv.start (mem : ByteMemory) {frames : Memory}
    (htracked : frames.frameCount ≤ frames.frames.bitCount) :
    SystemInv (kmemStart mem frames) [] := by
  have hlisted : Listed mem 0 0 [] :=
    ⟨fun _ hb => (nomatch hb), fun _ hb => (nomatch hb), fun _ hb => (nomatch hb),
      ⟨rfl, rfl, trivial⟩⟩
  have hlayout : Layout [] := ⟨Pairwise.nil, fun _ hb => (nomatch hb), fun _ hb => (nomatch hb)⟩
  refine ⟨⟨hlisted, hlayout, fun _ hb => (nomatch hb), fun _ hr => (nomatch hr), htracked,
    rfl, rfl, rfl⟩, fun _ => rfl, ⟨fun _ hl => (nomatch hl), nodup_nil⟩⟩

private theorem SystemInv.capacity_eq {b : Block} (inv : SystemInv s bs) (hb : b ∈ bs) :
    capacity s.heap (Heap.blockPayload b.addr) = b.size := by
  rw [capacity, Heap.payloadBlock, Heap.blockPayload, Nat.add_sub_cancel, inv.heap.listed.size b hb]

/-- The invariant says that the heap is in order. -/
theorem SystemInv.sound (inv : SystemInv s bs) : KmemSound s := by
  refine ⟨⟨bs, inv.heap.listed, inv.heap.total⟩, fun l hl => ?_, ?_, fun l hl i hlo hhi => ?_,
    inv.heap.held⟩
  · obtain ⟨b, hb, -, hptr, hsize⟩ := inv.backed.block l hl
    rw [hptr, inv.capacity_eq hb]
    exact hsize
  · have hnodup := inv.backed.nodup
    rw [Nodup, pairwise_map] at hnodup
    refine hnodup.imp_of_mem fun {l l'} hl hl' hne => ?_
    obtain ⟨b, hb, -, hptr, -⟩ := inv.backed.block l hl
    obtain ⟨b', hb', -, hptr', -⟩ := inv.backed.block l' hl'
    have hbb' : b ≠ b' := fun h => hne (by rw [hptr, hptr', h])
    have hapart := inv.heap.layout.apart_of_ne hb hb' hbb'
    rw [hptr, hptr', inv.capacity_eq hb, inv.capacity_eq hb']
    simp only [Block.Apart, Block.stop, Heap.blockPayload] at hapart ⊢
    omega
  · obtain ⟨b, hb, -, hptr, -⟩ := inv.backed.block l hl
    rw [hptr, inv.capacity_eq hb] at hhi
    rw [hptr] at hlo
    refine inv.heap.inside b hb i ⟨?_, ?_⟩
    · simp only [Heap.blockPayload] at hlo
      omega
    · simp only [Heap.blockPayload] at hhi
      simp only [Block.stop]
      omega

/-- In every run the heap stays in order, and every call on live pointers returns unless there is no
memory for the first pages of the heap. -/
theorem kmem_sound {mem : ByteMemory} {frames : Memory} {s : KmemSystem}
    (htracked : frames.frameCount ≤ frames.frames.bitCount)
    (hrun : Relation.ReflTransGen KmemStep (kmemStart mem frames) s) :
    KmemSound s ∧ ∀ c : KmemCall, c.Valid s → (∃ p h, c.run.run s.heap = (.ok p, h)) ∨
        s.heap.initialized = false ∧ ∃ h, c.run.run s.heap = (.error .bootstrapFailed, h) := by
  have hinv : ∃ bs, SystemInv s bs := by
    induction hrun with
    | refl => exact ⟨[], SystemInv.start mem htracked⟩
    | tail _ hstep ih =>
      obtain ⟨bs, inv⟩ := ih
      exact inv.step hstep
  obtain ⟨bs, inv⟩ := hinv
  refine ⟨inv.sound, fun c hvalid => (call_survives inv hvalid).imp_left ?_⟩
  rintro ⟨p, h, hrun, -⟩
  exact ⟨p, h, hrun⟩

/-- A system with 64 frames of which the first is taken. -/
def smallStart : KmemSystem := kmemStart (fun _ => 0) ⟨⟨64, fun f => f = 0⟩, 64, 0, fun _ => 0⟩

/-- The system behind a call that returns `p`. -/
def KmemSystem.called (s : KmemSystem) (c : KmemCall) (p : Nat) : KmemSystem :=
  ⟨(c.run.run s.heap).2, c.after s.live p⟩

private theorem step_called {s : KmemSystem} {c : KmemCall} {p : Nat} (hvalid : c.Valid s)
    (hp : (c.run.run s.heap).1 = .ok p) : KmemStep s (s.called c p) :=
  .call hvalid (Prod.ext hp rfl)

/-- The system behind two allocations, of which the first is then made larger and moves. -/
def smallMoved : KmemSystem :=
  ((smallStart.called (.kmalloc 100) 0x1028).called (.kmalloc 200) 0x10c0).called
    (.krealloc 0x1028 300) 0x11b8

theorem kmem_sound_smallMoved : Relation.ReflTransGen KmemStep smallStart smallMoved ∧
      smallMoved.live = [(0x11b8, 300), (0x10c0, 200)] ∧ KmemSound smallMoved := by
  have hrun : Relation.ReflTransGen KmemStep smallStart smallMoved := by
    refine .tail (.tail (.single (step_called ?_ ?_)) (step_called ?_ ?_)) (step_called ?_ ?_)
    · exact .inl rfl
    · rfl
    · exact .inl rfl
    · rfl
    · exact .inr (by decide)
    · rfl
  exact ⟨hrun, rfl, (kmem_sound (by decide) hrun).1⟩

end Rabbitbone.Spec.Mm
