import Rabbitbone.ForStd.ByteMemory
import Rabbitbone.ForStd.FallibleState
import Rabbitbone.Native.Mm.Memory

/-!
# The kernel heap

Model of `kernel/mm/kmem`.  The headers of the blocks lie in the memory they describe, so the memory
is kept byte by byte and each field of a header is read and written at its offset.  A pointer is its
address, 0 for a null pointer.

Every call holds `kmem_lock` from start to end and is one step.  The loops over the block list get
as many turns as the heap has bytes; a block takes more than one byte, so a list that ends does so
before.
-/

namespace Rabbitbone.Native.Mm

open Sys FallibleState

/-! ### Headers -/

/-- `KMEM_MAGIC_ALLOC`. -/
def kmemMagicAlloc : Nat := 0xA0B0C0D0E0F01234

/-- `KMEM_MAGIC_FREE`. -/
def kmemMagicFree : Nat := 0x43210F0E0D0C0B0A

/-- `KMEM_MIN_SPLIT`. -/
def kmemMinSplit : Nat := 32

/-- `KMEM_BOOT_PAGES`. -/
def kmemBootPages : Nat := 16

/-- `KMALLOC_MAX`. -/
def kmallocMax : Nat := 64 * 1024 * 1024

/-- `MEMORY_KERNEL_DIRECT_LIMIT`. -/
def kernelDirectLimit : Nat := 1024 * 1024 * 1024

/-- `kmem_block_t`. -/
structure KmemBlock where
  magic : Nat
  size : Nat
  free : Bool
  prev : Nat
  next : Nat
  deriving DecidableEq, Repr

/-- `sizeof(kmem_block_t)`. -/
def blockHeader : Nat := 40

/-- The header at an address. -/
def readBlock (m : ByteMemory) (b : Nat) : KmemBlock where
  magic := m.load b 8
  size := m.load (b + 8) 8
  free := m (b + 16) != 0
  prev := m.load (b + 24) 8
  next := m.load (b + 32) 8

/-- `b->magic = v`. -/
def setMagic (m : ByteMemory) (b v : Nat) : ByteMemory := m.store (b + 0) 8 v

/-- `b->size = v`. -/
def setSize (m : ByteMemory) (b v : Nat) : ByteMemory := m.store (b + 8) 8 v

/-- `b->free = v`. -/
def setFree (m : ByteMemory) (b : Nat) (v : Bool) : ByteMemory :=
  m.fill (b + 16) 1 (if v then 1 else 0)

/-- `b->prev = v`. -/
def setPrev (m : ByteMemory) (b v : Nat) : ByteMemory := m.store (b + 24) 8 v

/-- `b->next = v`. -/
def setNext (m : ByteMemory) (b v : Nat) : ByteMemory := m.store (b + 32) 8 v

/-! ### State -/

/-- `kmem_stats_t`. -/
structure KmemStats where
  heapBytes : Nat
  usedBytes : Nat
  freeBytes : Nat
  allocationCount : Nat
  pageBytesRequested : Nat
  failedAllocations : Nat
  deriving DecidableEq, Repr

/-- The variables of `kmem.c`, the memory and the frame allocator.  `runs` is not in the source: it
lists the runs of frames that `add_heap_pages` got, each as its first frame and its length. -/
structure Heap where
  mem : ByteMemory
  head : Nat
  tail : Nat
  stats : KmemStats
  initialized : Bool
  frames : Memory
  runs : List (Nat × Nat)

/-- Why a call does not return: a `PANIC`, or a walk that does not end. -/
inductive KmemPanic where
  | bootstrapFailed
  | metadataCorruption
  | doubleFree
  | invalidRealloc
  | sizeOverflow
  | hang
  deriving DecidableEq, Repr

/-- Code that runs with `kmem_lock` held. -/
abbrev HeapM := FallibleState Heap KmemPanic

namespace Heap

/-- Write to the memory. -/
def poke (f : ByteMemory → ByteMemory) : HeapM Unit := modify fun h => { h with mem := f h.mem }

/-- Count. -/
def count (f : KmemStats → KmemStats) : HeapM Unit := modify fun h => { h with stats := f h.stats }

/-- `++stats.failed_allocations`, and the null pointer. -/
def failed : HeapM Nat := do
  count fun st => { st with failedAllocations := st.failedAllocations + 1 }
  pure 0

/-- `if (b) b->prev = v; else heap_tail = v`. -/
def setPrevOrTail (b v : Nat) : HeapM Unit :=
  modify fun h => if b ≠ 0 then { h with mem := setPrev h.mem b v } else { h with tail := v }

/-- `align16_checked`. -/
def align16Checked (n : Nat) : Option Nat :=
  if n + 15 < 2 ^ 64 then some ((n + 15) / 16 * 16) else none

/-- `align16`. -/
def align16 (n : Nat) : Nat := (align16Checked n).getD 0

/-- `block_payload`. -/
def blockPayload (b : Nat) : Nat := b + blockHeader

/-- `payload_block`. -/
def payloadBlock (p : Nat) : Nat := p - blockHeader

/-- `blocks_physically_adjacent` for two blocks of which the left one has `size` bytes. -/
def adjacent (left size right : Nat) : Bool :=
  left ≠ 0 && right ≠ 0 && blockPayload left + size = right

/-- `insert_block`. -/
def insertBlock (b : Nat) : HeapM Unit := do
  let h ← get
  poke fun m => setPrev (setNext m b 0) b h.tail
  modify fun h => if h.tail ≠ 0 then { h with mem := setNext h.mem h.tail b } else
    { h with head := b }
  modify fun h => { h with tail := b }

/-- `merge_forward`. -/
def mergeForward : Nat → Nat → HeapM Unit
  | 0, _ => fail .hang
  | turns + 1, b => do
    let h ← get
    let blk := readBlock h.mem b
    let n := blk.next
    let nblk := readBlock h.mem n
    if b ≠ 0 ∧ n ≠ 0 ∧ blk.free ∧ nblk.free ∧ adjacent b blk.size n then do
      require (blk.size + blockHeader + nblk.size < 2 ^ 64) .sizeOverflow
      poke fun m => setSize m b (blk.size + blockHeader + nblk.size)
      count fun st => { st with freeBytes := st.freeBytes + blockHeader }
      poke fun m => setNext m b nblk.next
      setPrevOrTail nblk.next b
      poke fun m => setMagic m n 0
      mergeForward turns b
    else pure ()

/-- The lines of `split_block` and `split_allocated_block` that make a block of what is behind the
first `wanted` bytes of a block. -/
def carveRest (b wanted : Nat) (blk : KmemBlock) : HeapM Unit := do
  let rest := blockPayload b + wanted
  poke fun m => setMagic m rest kmemMagicFree
  poke fun m => setSize m rest (blk.size - wanted - blockHeader)
  poke fun m => setFree m rest true
  poke fun m => setPrev m rest b
  poke fun m => setNext m rest blk.next
  setPrevOrTail blk.next rest
  poke fun m => setNext m b rest
  poke fun m => setSize m b wanted

/-- A block of `size` bytes is large enough to be split behind `wanted` of them. -/
def splits (size wanted : Nat) : Bool :=
  wanted + blockHeader + kmemMinSplit < 2 ^ 64 && wanted + blockHeader + kmemMinSplit ≤ size

/-- `split_block`. -/
def splitBlock (b wanted : Nat) : HeapM Unit := do
  let wanted := align16 wanted
  let h ← get
  let blk := readBlock h.mem b
  if b = 0 ∨ !blk.free ∨ !splits blk.size wanted then pure ()
  else do
    carveRest b wanted blk
    count fun st => { st with freeBytes := st.freeBytes - blockHeader }

/-- `split_allocated_block`. -/
def splitAllocatedBlock (b wanted : Nat) : HeapM Unit := do
  let wanted := align16 wanted
  let h ← get
  let blk := readBlock h.mem b
  if b = 0 ∨ blk.free ∨ !splits blk.size wanted then pure ()
  else do
    carveRest b wanted blk
    count fun st =>
      { st with
        usedBytes := st.usedBytes - (blk.size - wanted)
        freeBytes := st.freeBytes + (blk.size - wanted - blockHeader) }
    mergeForward (h.stats.heapBytes + 1) (blockPayload b + wanted)

/-- `add_heap_pages`. -/
def addHeapPages (pages : Nat) : HeapM Bool := do
  if pages = 0 ∨ (2 ^ 64 - 1) / pageSize < pages then pure false
  else
    let bytes := pages * pageSize
    if bytes ≤ blockHeader then pure false
    else do
      let h ← get
      match h.frames.allocContiguousBelow pages kernelDirectLimit with
      | none => pure false
      | some (bit, frames) => do
        modify fun h => { h with frames := frames }
        let b := bit * pageSize
        if b = 0 then pure false
        else do
          modify fun h => { h with runs := (bit, pages) :: h.runs }
          poke fun m => setMagic m b kmemMagicFree
          poke fun m => setSize m b (bytes - blockHeader)
          poke fun m => setFree m b true
          poke fun m => setNext (setPrev m b 0) b 0
          insertBlock b
          count fun st =>
            { st with
              heapBytes := st.heapBytes + bytes
              freeBytes := st.freeBytes + (bytes - blockHeader)
              pageBytesRequested := st.pageBytesRequested + bytes }
          pure true

/-- `kmem_init_locked`. -/
def kmemInitLocked : HeapM Unit := do
  modify fun h =>
    { h with stats := ⟨0, 0, 0, 0, 0, 0⟩, head := 0, tail := 0, initialized := true }
  let ok ← addHeapPages kmemBootPages
  require ok .bootstrapFailed

/-- `kmem_init`. -/
def kmemInit : HeapM Unit := do
  let h ← get
  if !h.initialized then kmemInitLocked else pure ()

/-- The loop of `kmalloc_locked` from the block `b` on: the first free block of at least `size`
bytes. -/
def findFit (size : Nat) : Nat → Nat → HeapM (Option Nat)
  | 0, _ => fail .hang
  | turns + 1, b =>
    if b = 0 then pure none
    else do
      let h ← get
      let blk := readBlock h.mem b
      require (blk.magic = kmemMagicFree ∨ blk.magic = kmemMagicAlloc) .metadataCorruption
      if blk.free ∧ size ≤ blk.size then pure (some b) else findFit size turns blk.next

/-- The lines of `kmalloc_locked` that take a block. -/
def takeBlock (b size : Nat) : HeapM Nat := do
  splitBlock b size
  poke fun m => setMagic (setFree m b false) b kmemMagicAlloc
  let h ← get
  let got := (readBlock h.mem b).size
  count fun st =>
    { st with
      usedBytes := st.usedBytes + got
      freeBytes := st.freeBytes - got
      allocationCount := st.allocationCount + 1 }
  poke fun m => m.fill (blockPayload b) got 0
  pure (blockPayload b)

/-- `kmalloc_locked` from the label `retry` on.  A block that fits is found at the latest in the
second turn. -/
def kmallocRetry (size : Nat) : Nat → HeapM Nat
  | 0 => fail .hang
  | turns + 1 => do
    let h ← get
    match ← findFit size (h.stats.heapBytes + 1) h.head with
    | some b => takeBlock b size
    | none =>
      if 2 ^ 64 ≤ size + blockHeader + (pageSize - 1) then failed
      else do
        let pages := max ((size + blockHeader + (pageSize - 1)) / pageSize) 4
        if ← addHeapPages pages then kmallocRetry size turns else failed

/-- `kmalloc_locked` behind the initialisation. -/
def kmallocReady (size : Nat) : HeapM Nat :=
  if size = 0 then pure 0
  else
    match align16Checked size with
    | none => failed
    | some aligned =>
      if kmallocMax < size ∨ aligned = 0 then failed else kmallocRetry aligned 2

/-- `kmalloc_locked`. -/
def kmallocLocked (size : Nat) : HeapM Nat := do
  kmemInit
  kmallocReady size

/-- `kmalloc`. -/
def kmalloc (size : Nat) : HeapM Nat := kmallocLocked size

/-- `kcalloc`. -/
def kcalloc (count size : Nat) : HeapM Nat :=
  if size ≠ 0 ∧ (2 ^ 64 - 1) / size < count then pure 0 else kmalloc (count * size)

/-- `kfree_locked`. -/
def kfreeLocked (ptr : Nat) : HeapM Unit :=
  if ptr = 0 then pure ()
  else do
    let b := payloadBlock ptr
    let h ← get
    let blk := readBlock h.mem b
    require (blk.magic = kmemMagicAlloc ∧ !blk.free) .doubleFree
    poke fun m => setMagic (setFree m b true) b kmemMagicFree
    count fun st =>
      { st with
        usedBytes := st.usedBytes - blk.size
        freeBytes := st.freeBytes + blk.size }
    let pblk := readBlock h.mem blk.prev
    let first := if blk.prev ≠ 0 ∧ pblk.free ∧ adjacent blk.prev pblk.size b then blk.prev else b
    mergeForward (h.stats.heapBytes + 1) first

/-- `kfree`. -/
def kfree (ptr : Nat) : HeapM Unit := kfreeLocked ptr

/-- The lines of `krealloc` that make a block larger by the free block behind it. -/
def growInPlace (b : Nat) (blk nblk : KmemBlock) (newSize : Nat) : HeapM Unit := do
  let n := blk.next
  count fun st =>
    { st with
      freeBytes := st.freeBytes - nblk.size
      usedBytes := st.usedBytes + (blockHeader + nblk.size) }
  poke fun m => setSize m b (blk.size + blockHeader + nblk.size)
  poke fun m => setNext m b nblk.next
  setPrevOrTail nblk.next b
  poke fun m => setMagic m n 0
  splitAllocatedBlock b newSize

/-- `krealloc` on a pointer that is not null, to a size that is not 0. -/
def kreallocLocked (ptr newSize : Nat) : HeapM Nat := do
  let b := payloadBlock ptr
  let h ← get
  let blk := readBlock h.mem b
  require (blk.magic = kmemMagicAlloc ∧ !blk.free) .invalidRealloc
  match align16Checked newSize with
  | none => failed
  | some aligned =>
    if kmallocMax < newSize ∨ aligned = 0 then failed
    else if aligned ≤ blk.size then do
      splitAllocatedBlock b aligned
      pure ptr
    else
      let nblk := readBlock h.mem blk.next
      if blk.next ≠ 0 ∧ nblk.free ∧ adjacent b blk.size blk.next ∧
          blk.size + blockHeader + nblk.size < 2 ^ 64 ∧
            aligned ≤ blk.size + blockHeader + nblk.size then do
        growInPlace b blk nblk aligned
        pure ptr
      else do
        let np ← kmallocLocked aligned
        if np = 0 then pure 0
        else do
          poke fun m => m.copy np ptr blk.size
          kfreeLocked ptr
          pure np

/-- `krealloc`. -/
def krealloc (ptr newSize : Nat) : HeapM Nat :=
  if ptr = 0 then kmalloc newSize
  else if newSize = 0 then do
    kfree ptr
    pure 0
  else kreallocLocked ptr newSize

end Heap

end Rabbitbone.Native.Mm
