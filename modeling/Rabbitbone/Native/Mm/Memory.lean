import Rabbitbone.Native.Sys.UserMemory

/-!
# The frame allocator

Model of `kernel/arch/x86_64/memory.c`: how the memory map of the boot loader becomes the bitmap of
frames, and how frames are taken, shared and given back.  The bits are kept by their number; how
they lie in the words of `kernel/lib/bitmap.c` is left out.
-/

namespace Rabbitbone.Native.Mm

open Sys

/-! ### Boot information -/

/-- `rabbitbone_e820_entry_t`. -/
structure E820Entry where
  base : Nat
  length : Nat
  type : Nat
  deriving DecidableEq, Repr

/-- `RABBITBONE_E820_USABLE`. -/
def e820Usable : Nat := 1

/-- `rabbitbone_boot_module_t`, and whether its name is a null pointer or a bounded string. -/
structure BootModule where
  base : Nat
  size : Nat
  nameOk : Bool
  deriving DecidableEq, Repr

/-- `rabbitbone_bootinfo_t`.  `headerOk` stands for the checks of the pointer, of the magic number
and the version, of the boot flags and of the command line. -/
structure BootInfo where
  headerOk : Bool
  liveRamdisk : Bool
  e820Addr : Nat
  e820 : List E820Entry
  modulesAddr : Nat
  modules : List BootModule
  deriving DecidableEq, Repr

/-- `range_ok` of `kernel/core/bootinfo.c`. -/
def rangeOk (base bytes : Nat) : Bool :=
  bytes = 0 || (base + bytes < 2 ^ 64 && base ≠ 0 && base + bytes ≤ 1024 * 1024 * 1024)

/-- `bootinfo_validate`. -/
def bootinfoValidate (info : BootInfo) : Bool :=
  info.headerOk && !(info.liveRamdisk && info.modules.isEmpty) &&
    info.e820.length ≤ 128 && info.modules.length ≤ 16 &&
    rangeOk info.e820Addr (24 * info.e820.length) &&
    info.e820.all (fun e => e.length = 0 || e.base + e.length < 2 ^ 64) &&
    rangeOk info.modulesAddr (32 * info.modules.length) &&
    info.modules.all fun m => rangeOk m.base m.size && m.nameOk

/-! ### The bitmap -/

/-- `bitmap_t`. -/
structure Bitmap where
  bitCount : Nat
  bits : Nat → Bool

namespace Bitmap

/-- `bitmap_set` and `bitmap_clear`. -/
def put (bm : Bitmap) (bit : Nat) (value : Bool) : Bitmap :=
  if bit < bm.bitCount then { bm with bits := fun i => if i = bit then value else bm.bits i }
  else bm

/-- `bitmap_test`. -/
def test (bm : Bitmap) (bit : Nat) : Bool := bit < bm.bitCount && bm.bits bit

/-- The loops over the bits `start` to `start + count`. -/
def putRun (bm : Bitmap) (value : Bool) (start count : Nat) : Bitmap :=
  (List.range' start count).foldl (fun bm bit => bm.put bit value) bm

end Bitmap

/-- `rabbitbone_align_up_u64_checked` to pages. -/
def alignUpPage (v : Nat) : Option Nat :=
  if v + (pageSize - 1) < 2 ^ 64 then some ((v + (pageSize - 1)) / pageSize * pageSize) else none

/-- `mark_range` on the bitmap of `frame_count` bits. -/
def markRange (bm : Bitmap) (base length : Nat) (free : Bool) : Bitmap :=
  -- `range_end_checked`
  if length = 0 ∨ 2 ^ 64 ≤ base + length then bm
  else
    match alignUpPage base with
    | none => bm
    | some startAddr =>
      let start := startAddr / pageSize
      let stop := (base + length) / pageSize
      if bm.bitCount ≤ start ∨ stop ≤ start then bm
      else
        let stop := min stop bm.bitCount
        bm.putRun (!free) start (stop - start)

/-! ### Start -/

/-- `__kernel_end`, which the linker script puts on a page boundary behind `__kernel_start`. -/
structure KernelImage where
  stop : Nat
  start_le : 0x10000 ≤ stop
  stop_lt : stop < 2 ^ 64
  aligned : stop % pageSize = 0

/-- `__kernel_start`. -/
def KernelImage.start (_ : KernelImage) : Nat := 0x10000

/-- `MAX_TRACKED_FRAMES`. -/
def maxTrackedFrames : Nat := 1024 * 1024

/-- `FRAME_BITMAP_PHYS` and `FRAME_BITMAP_BYTES`. -/
def frameBitmap : Nat × Nat := (0x100000, maxTrackedFrames / 8)

/-- `FRAME_REFCOUNT_PHYS` and `FRAME_REFCOUNT_BYTES`. -/
def frameRefcount : Nat × Nat := (0x400000, maxTrackedFrames * 2)

/-- The variables of `memory.c`, with `FRAME_REFCOUNTS`. -/
structure Memory where
  frames : Bitmap
  frameCount : Nat
  totalUsable : Nat
  refs : Nat → Nat

/-- `saturating_add_u64`. -/
def saturatingAdd (a b : Nat) : Nat := min (a + b) (2 ^ 64 - 1)

/-- The loop of `memory_init` over the end addresses of the entries. -/
def maxAddr (entries : List E820Entry) : Nat :=
  entries.foldl
    (fun top e => if e.length = 0 then top else max top (saturatingAdd e.base e.length)) 0

/-- The sum over the usable entries in the same loop. -/
def usableBytes (entries : List E820Entry) : Nat :=
  entries.foldl
    (fun sum e => if e.length ≠ 0 ∧ e.type = e820Usable then saturatingAdd sum e.length else sum) 0

/-- The loop of `memory_init` over the usable entries. -/
def markUsable (bm : Bitmap) (entries : List E820Entry) : Bitmap :=
  entries.foldl
    (fun bm e => if e.type = e820Usable then markRange bm e.base e.length true else bm) bm

/-- The loop of `memory_init` over the modules. -/
def markModules (bm : Bitmap) (modules : List BootModule) : Bitmap :=
  modules.foldl
    (fun bm m => if m.base ≠ 0 ∧ m.size ≠ 0 then markRange bm m.base m.size false else bm) bm

/-- The modules of valid boot information. -/
def markBootModules (info : BootInfo) (bm : Bitmap) : Bitmap :=
  if bootinfoValidate info && info.modulesAddr ≠ 0 then markModules bm info.modules else bm

/-- The ranges that `memory_init` reserves behind the usable ones. -/
def markReserved (k : KernelImage) (info : BootInfo) (bm : Bitmap) : Bitmap :=
  let bm := markRange bm 0 0x200000 false
  let bm := markRange bm k.start (k.stop - k.start) false
  let bm := markBootModules info bm
  let bm := markRange bm frameBitmap.1 frameBitmap.2 false
  markRange bm frameRefcount.1 frameRefcount.2 false

/-- `memory_init`. -/
def memoryInit (k : KernelImage) (info : BootInfo) : Memory :=
  let valid := bootinfoValidate info
  let top := max (if valid then maxAddr info.e820 else 0) (32 * 1024 * 1024)
  let frameCount := min (top / pageSize) maxTrackedFrames
  let bm : Bitmap := ⟨frameCount, fun _ => true⟩
  let bm := if valid then markUsable bm info.e820 else markRange bm 0x200000 (top - 0x200000) true
  let bm := markReserved k info bm
  { frames := bm
    frameCount := frameCount
    totalUsable := if valid then usableBytes info.e820 else 0
    refs := fun f => if f < frameCount ∧ bm.test f then 1 else 0 }

/-! ### Taking frames -/

namespace Memory

/-- The loop of `memory_alloc_contiguous_pages_below` from `bit` on: the first run of `pages` clear
bits below `maxBit`.  Behind a bit that is set the search goes on at the next one, so that
`maxBit + 1` turns are enough. -/
def findRun (bm : Bitmap) (pages maxBit : Nat) : Nat → Nat → Option Nat
  | 0, _ => none
  | fuel + 1, bit =>
    if bit + pages ≤ maxBit then
      match (List.range pages).find? fun j => bm.test (bit + j) with
      | some j => findRun bm pages maxBit fuel (bit + j + 1)
      | none => some bit
    else none

/-- `memory_alloc_contiguous_pages_below`: the number of the first frame. -/
def allocContiguousBelow (m : Memory) (pages maxExclusive : Nat) : Option (Nat × Memory) :=
  if pages = 0 ∨ maxExclusive < pageSize then none
  else
    let maxBit := min (maxExclusive / pageSize) m.frameCount
    (findRun m.frames pages maxBit (maxBit + 1) 0).map fun bit =>
      (bit, { m with
        frames := m.frames.putRun true bit pages
        refs := fun f => if bit ≤ f ∧ f < bit + pages then 1 else m.refs f })

/-- `memory_alloc_contiguous_pages_below` with the address that it returns. -/
def memoryAllocContiguousPagesBelow (m : Memory) (pages maxExclusive : Nat) : Nat × Memory :=
  match m.allocContiguousBelow pages maxExclusive with
  | some (bit, m') => (bit * pageSize, m')
  | none => (0, m)

/-! ### References -/

/-- `ranges_overlap_u64`, with the checks of `range_end_checked`. -/
def rangesOverlap (a b : Nat × Nat) : Bool :=
  a.2 ≠ 0 && a.1 + a.2 < 2 ^ 64 && b.2 ≠ 0 && b.1 + b.2 < 2 ^ 64 && a.1 < b.1 + b.2 &&
    b.1 < a.1 + a.2

/-- `range_intersects_reserved`. -/
def rangeIntersectsReserved (k : KernelImage) (base length : Nat) : Bool :=
  length = 0 || [(0, 0x200000), (k.start, k.stop - k.start), frameBitmap, frameRefcount].any
    (rangesOverlap (base, length))

/-- The checks at the head of `memory_free_contiguous_pages`. -/
def freeIgnored (k : KernelImage) (m : Memory) (base pages : Nat) : Bool :=
  base = 0 || pages = 0 || base % pageSize ≠ 0 || 2 ^ 64 ≤ pages * pageSize ||
    rangeIntersectsReserved k base (pages * pageSize) || m.frameCount ≤ base / pageSize ||
    m.frameCount - base / pageSize < pages

/-- `memory_free_contiguous_pages`; `none` is the panic. -/
def memoryFreeContiguousPages (k : KernelImage) (m : Memory) (base pages : Nat) : Option Memory :=
  let bit := base / pageSize
  if freeIgnored k m base pages then some m
  else if (List.range' bit pages).all fun f => m.frames.test f && m.refs f = 1 then
    some { m with
      frames := m.frames.putRun false bit pages
      refs := fun f => if bit ≤ f ∧ f < bit + pages then 0 else m.refs f }
  else none

/-- `memory_ref_page`. -/
def memoryRefPage (k : KernelImage) (m : Memory) (page : Nat) : Bool × Memory :=
  let bit := page / pageSize
  if page = 0 ∨ page % pageSize ≠ 0 ∨ rangeIntersectsReserved k page pageSize then (false, m)
  else if bit < m.frameCount ∧ m.frames.test bit ∧ 0 < m.refs bit ∧ m.refs bit < 0xffff then
    (true, { m with refs := fun f => if f = bit then m.refs f + 1 else m.refs f })
  else (false, m)

/-- `memory_unref_page`. -/
def memoryUnrefPage (k : KernelImage) (m : Memory) (page : Nat) : Bool × Memory :=
  let bit := page / pageSize
  if page = 0 ∨ page % pageSize ≠ 0 ∨ rangeIntersectsReserved k page pageSize then (false, m)
  else if m.frameCount ≤ bit ∨ m.frames.test bit = false ∨ m.refs bit = 0 then (false, m)
  else
    (true, { m with
      frames := if m.refs bit = 1 then m.frames.put bit false else m.frames
      refs := fun f => if f = bit then m.refs f - 1 else m.refs f })

end Memory

end Rabbitbone.Native.Mm
