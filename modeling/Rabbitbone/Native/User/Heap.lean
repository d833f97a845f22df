import Mathlib.Algebra.Group.Nat.Defs
import Mathlib.Data.List.Basic

/-!
# The heap of a user program

Model of `user/lib/rabbitbone/heap_malloc.inc`.  The blocks are the list that their headers link,
each with its address, its size and whether it is free; the magic number of a header in the list is
right.  `brk` is the break of the process, which `sbrk` returns and moves; a call of it is granted
or refused.

A program calls the heap and `sbrk` in any order.  `live` are the pointers it holds, with the sizes
it has asked for, and `own` the regions that its own calls of `sbrk` have returned.
-/

namespace Rabbitbone.Native.User

/-- `sizeof(au_heap_block_t)`. -/
def headerSize : Nat := 40

/-- `AU_HEAP_ALIGN`. -/
def heapAlign : Nat := 16

/-- `AU_HEAP_PAGE`. -/
def heapPage : Nat := 4096

/-- `au_heap_block_t`. -/
structure HeapBlock where
  addr : Nat
  size : Nat
  free : Bool
  deriving DecidableEq, Repr

/-- `(void *)(b + 1)`. -/
def HeapBlock.payload (b : HeapBlock) : Nat := b.addr + headerSize

/-- The address behind a block. -/
def HeapBlock.stop (b : HeapBlock) : Nat := b.payload + b.size

/-- `au_heap_head` and the list behind it, and the break. -/
structure UserHeap where
  blocks : List HeapBlock
  brk : Nat
  deriving DecidableEq, Repr

/-- `au_align_up_usize_checked`. -/
def auAlignUp (v align : Nat) : Option Nat :=
  if 2 ^ 64 ≤ v + (align - 1) then none else some ((v + (align - 1)) / align * align)

/-- `au_heap_join_size`. -/
def auHeapJoinSize (left right : Nat) : Option Nat :=
  if 2 ^ 64 ≤ headerSize + right ∨ 2 ^ 64 ≤ left + (headerSize + right) then none
  else some (left + (headerSize + right))

/-- `sbrk` with a growth: the old break. -/
def sbrk (h : UserHeap) (increment : Nat) (grant : Bool) : Option (Nat × UserHeap) :=
  if grant ∧ h.brk + increment < 2 ^ 63 then some (h.brk, { h with brk := h.brk + increment })
  else none

/-- The first block that `p` accepts, with the blocks before and behind it. -/
def locate (p : HeapBlock → Bool) :
    List HeapBlock → Option (List HeapBlock × HeapBlock × List HeapBlock)
  | [] => none
  | b :: bs =>
    if p b then some ([], b, bs)
    else (locate p bs).map fun (pre, c, post) => (b :: pre, c, post)

/-- `au_heap_split`: the block and the rest of it. -/
def auHeapSplit (b : HeapBlock) (size : Nat) : List HeapBlock :=
  if b.size < size then [b]
  else if 2 ^ 64 ≤ size + (headerSize + heapAlign) ∨
    b.size < size + (headerSize + heapAlign) then [b]
  else [{ b with size := size }, ⟨b.payload + size, b.size - size - headerSize, true⟩]

/-- The first half of `au_heap_coalesce`: join a block with a free one behind it. -/
def joinNext (b : HeapBlock) : List HeapBlock → List HeapBlock
  | [] => [b]
  | n :: post =>
    if n.free then
      match auHeapJoinSize b.size n.size with
      | none => b :: n :: post
      | some merged => { b with size := merged } :: post
    else b :: n :: post

/-- `au_heap_coalesce` of the free block `b`, with the blocks before it, the nearest one first. -/
def auHeapCoalesce : List HeapBlock → HeapBlock → List HeapBlock → List HeapBlock
  | [], b, post => joinNext b post
  | p :: before, b, post =>
    if p.free then auHeapCoalesce before p (joinNext b post)
    else before.reverse ++ p :: joinNext b post

/-- `au_heap_extend`: the payload of the new block. -/
def auHeapExtend (h : UserHeap) (size : Nat) (grant : Bool) : Option Nat × UserHeap :=
  if 2 ^ 64 ≤ headerSize + size then (none, h)
  else
    match auAlignUp (headerSize + size) heapPage with
    | none => (none, h)
    | some request =>
      if 2 ^ 63 - 1 < request then (none, h)
      else
        match sbrk h request grant with
        | none => (none, h)
        | some (mem, h) =>
          (some (mem + headerSize),
            { h with blocks := h.blocks ++ auHeapSplit ⟨mem, request - headerSize, false⟩ size })

/-- `malloc`. -/
def malloc (h : UserHeap) (size : Nat) (grant : Bool) : Option Nat × UserHeap :=
  if size = 0 then (none, h)
  else
    match auAlignUp size heapAlign with
    | none => (none, h)
    | some size =>
      match locate (fun b => b.free && size ≤ b.size) h.blocks with
      | some (pre, b, post) =>
        (some b.payload,
          { h with blocks := pre ++ (auHeapSplit { b with free := false } size ++ post) })
      | none => auHeapExtend h size grant

/-- The allocated block of a pointer. -/
def blockOf (h : UserHeap) (ptr : Nat) : Option (List HeapBlock × HeapBlock × List HeapBlock) :=
  locate (fun b => b.payload == ptr && !b.free) h.blocks

/-- `free`. -/
def free (h : UserHeap) (ptr : Nat) : UserHeap :=
  match blockOf h ptr with
  | none => h
  | some (pre, b, post) =>
    { h with blocks := auHeapCoalesce pre.reverse { b with free := true } post }

/-- `calloc`. -/
def calloc (h : UserHeap) (count size : Nat) (grant : Bool) : Option Nat × UserHeap :=
  if count ≠ 0 ∧ (2 ^ 64 - 1) / count < size then (none, h) else malloc h (count * size) grant

/-- The branch of `realloc` that takes in the free block behind. -/
def growInPlace (h : UserHeap) (pre : List HeapBlock) (b : HeapBlock) (size : Nat) :
    List HeapBlock → Option UserHeap
  | [] => none
  | n :: post =>
    if n.free then
      match auHeapJoinSize b.size n.size with
      | none => none
      | some merged =>
        if size ≤ merged then
          some { h with blocks := pre ++ (auHeapSplit { b with size := merged } size ++ post) }
        else none
    else none

/-- `realloc`. -/
def realloc (h : UserHeap) (ptr size : Nat) (grant : Bool) : Option Nat × UserHeap :=
  if ptr = 0 then malloc h size grant
  else if size = 0 then (none, free h ptr)
  else
    match auAlignUp size heapAlign with
    | none => (none, h)
    | some size =>
      match blockOf h ptr with
      | none => (none, h)
      | some (pre, b, post) =>
        if size ≤ b.size then (some ptr, { h with blocks := pre ++ (auHeapSplit b size ++ post) })
        else
          match growInPlace h pre b size post with
          | some h => (some ptr, h)
          | none =>
            match malloc h size grant with
            | (none, h) => (none, h)
            | (some fresh, h) => (some fresh, free h ptr)

/-! ### Programs -/

/-- A program with its heap. -/
structure Program where
  heap : UserHeap
  live : List (Nat × Nat)
  own : List (Nat × Nat)
  deriving DecidableEq, Repr

/-- What a program calls; `grant` is whether the kernel grants a growth of the break. -/
inductive HeapCall where
  | malloc (size : Nat) (grant : Bool)
  | calloc (count size : Nat) (grant : Bool)
  | realloc (ptr size : Nat) (grant : Bool)
  | free (ptr : Nat)
  | sbrk (increment : Nat) (grant : Bool)
  deriving DecidableEq, Repr

/-- The program holds the pointer that a call has returned. -/
def Program.hold (s : Program) (size : Nat) (r : Option Nat × UserHeap) : Program :=
  match r with
  | (none, h) => { s with heap := h }
  | (some p, h) => { s with heap := h, live := (p, size) :: s.live }

/-- The program gives a pointer back. -/
def Program.drop (s : Program) (ptr : Nat) : Program := { s with live := s.live.filter (·.1 ≠ ptr) }

/-- A program holds a pointer. -/
def Program.holds (s : Program) (ptr : Nat) : Bool := s.live.any (·.1 == ptr)

/-- One call.  `realloc` and `free` are called with pointers that the program holds. -/
def Program.step (s : Program) : HeapCall → Program
  | .malloc size grant => s.hold size (User.malloc s.heap size grant)
  | .calloc count size grant => s.hold (count * size) (User.calloc s.heap count size grant)
  | .realloc ptr size grant =>
    if ptr = 0 then s.hold size (User.malloc s.heap size grant)
    else if !s.holds ptr then s
    else
      match User.realloc s.heap ptr size grant with
      | (some p, h) => (s.drop ptr).hold size (some p, h)
      | (none, h) => { (if size = 0 then s.drop ptr else s) with heap := h }
  | .free ptr => if s.holds ptr then { s.drop ptr with heap := User.free s.heap ptr } else s
  | .sbrk increment grant =>
    match User.sbrk s.heap increment grant with
    | none => s
    | some (mem, h) => { s with heap := h, own := (mem, increment) :: s.own }

/-- A program that has not allocated anything, with its break. -/
def Program.start (brk : Nat) : Program := ⟨⟨[], brk⟩, [], []⟩

end Rabbitbone.Native.User
