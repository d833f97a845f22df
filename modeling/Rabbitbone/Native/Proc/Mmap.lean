import Rabbitbone.Native.Mm.Memory
import Rabbitbone.Native.Proc.Loader

/-!
# Free ranges for mappings

Model of `process_find_free_mmap_range` in `kernel/proc/process/memory_copy.inc`.  Addresses are
natural numbers, and every addition is checked as the source does.
-/

namespace Rabbitbone.Native.Proc

open Sys (pageSize)

/-- The addresses of a `user_vma_t`. -/
structure UserVma where
  start : Nat
  stop : Nat

def userMmapBase : Nat := 0x10080000000

def userMmapMaxPages : Nat := 64

def userStackTop : Nat := 0x10100000000

/-- `USER_STACK_ASLR_PAGES`, `USER_STACK_PAGES` and `USER_STACK_GUARD_PAGES`. -/
def userStackMaxPages : Nat := 16 + 8 + 1

/-- `process_mmap_arena_end`. -/
def processMmapArenaEnd : Nat :=
  min (userMmapBase + userMmapMaxPages * pageSize) (userStackTop - userStackMaxPages * pageSize)

/-- `process_vma_ranges_overlap`. -/
def processVmaRangesOverlap (a0 a1 b0 b1 : Nat) : Bool := a0 < a1 && b0 < b1 && a0 < b1 && b0 < a1

/-- `process_range_free`. -/
def processRangeFree (vmas : List UserVma) (start stop : Nat) : Bool :=
  start < stop && vmas.all fun v => !processVmaRangesOverlap start stop v.start v.stop

/-- How a pass over the arena ends: the function returns, or the pass is over. -/
inductive MmapPass where
  | returned (addr : Nat)
  | over

/-- A pass of `process_find_free_mmap_range`, from `candidate` on. -/
def mmapPass (vmas : List UserVma) (arenaEnd size candidate : Nat) : MmapPass :=
  if candidate < arenaEnd then
    let stop := candidate + size
    if 2 ^ 64 ≤ stop ∨ arenaEnd < stop ∨ 2 ^ 64 ≤ candidate + pageSize then .over
    else
      match (vmas.find? fun v => processVmaRangesOverlap candidate stop v.start v.stop).map
          fun v => Mm.alignUpPage v.stop with
      | none => .returned candidate
      | some none => .returned 0
      | some (some next) => if next ≤ candidate then .over else mmapPass vmas arenaEnd size next
  else .over
termination_by arenaEnd - candidate

/-- `process_find_free_mmap_range`; 0 is that there is none. -/
def processFindFreeMmapRange (vmas : List UserVma) (cursor size : Nat) : Nat :=
  if size = 0 then 0
  else
    let arenaEnd := processMmapArenaEnd
    let start := if cursor < userMmapBase ∨ arenaEnd ≤ cursor then userMmapBase else cursor
    match mmapPass vmas arenaEnd size start with
    | .returned addr => addr
    | .over =>
      match mmapPass vmas arenaEnd size userMmapBase with
      | .returned addr => addr
      | .over => 0

end Rabbitbone.Native.Proc
