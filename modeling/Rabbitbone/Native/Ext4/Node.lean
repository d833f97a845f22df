import Mathlib.Algebra.Group.Nat.Defs
import Mathlib.Logic.Function.Basic
import Mathlib.Data.Nat.Notation

/-!
# Blocks, extent nodes and inodes

The data of `kernel/fs/ext4/internal.h` and `include/rabbitbone/ext4.h` that the extent code works
on.  An extent node (`ext4_extent_header_t` and what follows it) is either a block or the part of an
inode from `i_block` on.  In both cases it is a header of 12 bytes followed by slots of 12 bytes,
and a slot is read as an `ext4_extent_t` or an `ext4_extent_idx_t`.

The slots are a function on all of `Nat`: C code that runs over the end of the array writes to the
slots behind it, which are other fields of the inode or memory behind the buffer.
-/

namespace Rabbitbone.Native.Ext4

/-- The content of a block.  Only the first `blockSize` bytes exist on the device. -/
abbrev Block := Nat → UInt8

/-- A block of zeros. -/
def zeroBlock : Block := fun _ => 0

/-- What of a buffer reaches a block of `size` bytes. -/
def Block.cut (size : Nat) (b : Block) : Block := fun i => if i < size then b i else 0

/-! ### Slots -/

/-- Twelve bytes of an extent node. -/
structure Slot where
  w0 : UInt32
  w1 : UInt32
  w2 : UInt32
  deriving DecidableEq, Repr, Inhabited

/-- A slot after `memset(.., 0, ..)`. -/
def Slot.zero : Slot := ⟨0, 0, 0⟩

/-- `le64_from_lo_hi`. -/
def le64FromLoHi (lo hi : Nat) : Nat := hi * 2 ^ 32 + lo

namespace Slot

/-- `ee_block`. -/
def eeBlock (s : Slot) : Nat := s.w0.toNat

/-- `ee_len`, the low half of the second word. -/
def eeLen (s : Slot) : Nat := s.w1.toNat % 2 ^ 16

/-- `ee_start_hi`. -/
def eeStartHi (s : Slot) : Nat := s.w1.toNat / 2 ^ 16

/-- `extent_start_block`. -/
def extentStartBlock (s : Slot) : Nat := le64FromLoHi s.w2.toNat s.eeStartHi

/-- `extent_len_blocks`. -/
def extentLenBlocks (s : Slot) : Nat := if s.eeLen = 0x8000 then 32768 else s.eeLen % 0x8000

/-- `extent_is_unwritten`. -/
def extentIsUnwritten (s : Slot) : Bool := 0x8000 < s.eeLen

/-- `ext[i].ee_block = block`. -/
def setBlock (s : Slot) (block : Nat) : Slot := { s with w0 := UInt32.ofNat block }

/-- `extent_set_start_block`. -/
def extentSetStartBlock (s : Slot) (block : Nat) : Slot :=
  { s with
    w1 := UInt32.ofNat (s.eeLen + 2 ^ 16 * (block / 2 ^ 32 % 2 ^ 16))
    w2 := UInt32.ofNat block }

/-- The raw length of `extent_set_len_blocks_state`: the length 32768 and the mark of an unwritten
extent are the same bit. -/
def rawLen (len : Nat) (unwritten : Bool) : Nat :=
  let raw := if len = 32768 then 0x8000 else len % 2 ^ 16
  if unwritten && raw ≠ 0 then raw ||| 0x8000 else raw

/-- `extent_set_len_blocks_state`. -/
def extentSetLenBlocksState (s : Slot) (len : Nat) (unwritten : Bool) : Slot :=
  { s with w1 := UInt32.ofNat (rawLen len unwritten + 2 ^ 16 * s.eeStartHi) }

/-- `ei_block`. -/
def eiBlock (s : Slot) : Nat := s.w0.toNat

/-- `le64_from_lo_hi(idx->ei_leaf_lo, idx->ei_leaf_hi)`. -/
def eiLeaf (s : Slot) : Nat := le64FromLoHi s.w1.toNat (s.w2.toNat % 2 ^ 16)

/-- `extent_idx_set_leaf`; the unused half of the last word is cleared. -/
def extentIdxSetLeaf (firstLogical leafBlock : Nat) : Slot :=
  { w0 := UInt32.ofNat firstLogical
    w1 := UInt32.ofNat leafBlock
    w2 := UInt32.ofNat (leafBlock / 2 ^ 32 % 2 ^ 16) }

end Slot

/-! ### Nodes -/

/-- `EXT4_EXT_MAGIC`. -/
def extMagic : Nat := 0xf30a

/-- An extent node: `ext4_extent_header_t` and the slots behind it. -/
structure Node where
  ehMagic : UInt16
  ehEntries : UInt16
  ehMax : UInt16
  ehDepth : UInt16
  ehGeneration : UInt32
  slot : Nat → Slot

namespace Node

/-- `le16(hdr->eh_magic)`. -/
def magic (n : Node) : Nat := n.ehMagic.toNat

/-- `le16(hdr->eh_entries)`. -/
def entries (n : Node) : Nat := n.ehEntries.toNat

/-- `le16(hdr->eh_max)`. -/
def max (n : Node) : Nat := n.ehMax.toNat

/-- `le16(hdr->eh_depth)`. -/
def depth (n : Node) : Nat := n.ehDepth.toNat

/-- `hdr->eh_entries = entries`. -/
def setEntries (n : Node) (entries : Nat) : Node := { n with ehEntries := UInt16.ofNat entries }

/-- `ext[i] = s`. -/
def setSlot (n : Node) (i : Nat) (s : Slot) : Node := { n with slot := Function.update n.slot i s }

/-- A node whose memory was cleared, with a new header. -/
def fresh (entries max depth : Nat) : Node where
  ehMagic := UInt16.ofNat extMagic
  ehEntries := UInt16.ofNat entries
  ehMax := UInt16.ofNat max
  ehDepth := UInt16.ofNat depth
  ehGeneration := 0
  slot := fun _ => Slot.zero

/-- `for (u16 i = from; i + 1u < entries; ++i) ext[i] = ext[i + 1u];` with `count` turns left. -/
def shiftDown (n : Node) (i : Nat) : Nat → Node
  | 0 => n
  | count + 1 => (n.setSlot i (n.slot (i + 1))).shiftDown (i + 1) count

/-- `for (u16 i = from; i > to; --i) ext[i] = ext[i - add];` with `count` turns left. -/
def shiftUp (n : Node) (add i : Nat) : Nat → Node
  | 0 => n
  | count + 1 => (n.setSlot i (n.slot (i - add))).shiftUp add (i - 1) count

/-- Remove the slot `i`: shift the slots behind it down, clear the last one and count it off. -/
def removeSlot (n : Node) (i : Nat) : Node :=
  ((n.shiftDown i (n.entries - 1 - i)).setSlot (n.entries - 1) Slot.zero).setEntries (n.entries - 1)

/-- `dst[i] = src[from + i]` for `i < count`. -/
def copySlots (dst src : Node) (start : Nat) : Nat → Node
  | 0 => dst
  | count + 1 => (dst.copySlots src start count).setSlot count (src.slot (start + count))

/-- `memset(&ext[from], 0, count * sizeof(ext4_extent_t))`. -/
def clearSlots (n : Node) (start : Nat) : Nat → Node
  | 0 => n
  | count + 1 => (n.clearSlots start count).setSlot (start + count) Slot.zero

end Node

/-! ### Nodes as bytes -/

/-- The little-endian number of the bytes at `i` and `i + 1`. -/
def le16At (b : Block) (i : Nat) : UInt16 := UInt16.ofNat ((b i).toNat + 2 ^ 8 * (b (i + 1)).toNat)

/-- The little-endian number of the four bytes at `i`. -/
def le32At (b : Block) (i : Nat) : UInt32 :=
  UInt32.ofNat ((b i).toNat + 2 ^ 8 * (b (i + 1)).toNat + 2 ^ 16 * (b (i + 2)).toNat
    + 2 ^ 24 * (b (i + 3)).toNat)

/-- The bytes of a number, lowest first. -/
def byteOf (w i : Nat) : UInt8 := UInt8.ofNat (w / 2 ^ (8 * i))

/-- The `k`-th number of four bytes in a block. -/
def Block.word (b : Block) (k : Nat) : UInt32 := le32At b (4 * k)

/-- A block of bytes with a number stored at `4 * k`, `put32`. -/
def putLe32 (b : Block) (k : Nat) (w : UInt32) : Block := fun i =>
  if 4 * k ≤ i ∧ i < 4 * k + 4 then byteOf w.toNat (i - 4 * k) else b i

/-- The bytes of a block from `off` on. -/
def Block.bytes (b : Block) (off count : Nat) : List UInt8 :=
  (List.range count).map fun i => b (off + i)

/-- The words of a slot. -/
def Slot.word (s : Slot) : Nat → Nat
  | 0 => s.w0.toNat
  | 1 => s.w1.toNat
  | _ => s.w2.toNat

/-- A block read as a node. -/
def decodeNode (b : Block) : Node where
  ehMagic := le16At b 0
  ehEntries := le16At b 2
  ehMax := le16At b 4
  ehDepth := le16At b 6
  ehGeneration := le32At b 8
  slot := fun i => ⟨le32At b (12 + 12 * i), le32At b (16 + 12 * i), le32At b (20 + 12 * i)⟩

/-- The bytes of a node. -/
def encodeNode (n : Node) : Block := fun k =>
  if k < 2 then byteOf n.ehMagic.toNat k
  else if k < 4 then byteOf n.ehEntries.toNat (k - 2)
  else if k < 6 then byteOf n.ehMax.toNat (k - 4)
  else if k < 8 then byteOf n.ehDepth.toNat (k - 6)
  else if k < 12 then byteOf n.ehGeneration.toNat (k - 8)
  else byteOf ((n.slot ((k - 12) / 12)).word ((k - 12) % 12 / 4)) (k % 4)

/-! ### Inodes -/

/-- `ext4_inode_disk_t`: the fields the file and the name code read.  `node` is the memory from
`i_block` on: `i_block` is the header and the slots 0 to 3, and slot 4 is `i_generation`,
`i_file_acl_lo` and `i_size_high`. -/
structure Inode where
  mode : UInt16
  sizeLo : UInt32
  dtime : UInt32
  linksCount : UInt16
  blocksLo : UInt32
  flags : UInt32
  node : Node

namespace Inode

/-- An inode after `memset(.., 0, ..)`. -/
def zero : Inode where
  mode := 0
  sizeLo := 0
  dtime := 0
  linksCount := 0
  blocksLo := 0
  flags := 0
  node := ⟨0, 0, 0, 0, 0, fun _ => Slot.zero⟩

/-- `i_file_acl_lo`. -/
def fileAclLo (inode : Inode) : UInt32 := (inode.node.slot 4).w1

/-- `inode->i_file_acl_lo = acl`. -/
def setFileAclLo (inode : Inode) (acl : UInt32) : Inode :=
  { inode with node := inode.node.setSlot 4 { inode.node.slot 4 with w1 := acl } }

/-- `i_size_high`. -/
def sizeHigh (inode : Inode) : UInt32 := (inode.node.slot 4).w2

/-- `ext4_inode_size`. -/
def size (inode : Inode) : Nat := inode.sizeHigh.toNat * 2 ^ 32 + inode.sizeLo.toNat

/-- `inode_set_size`. -/
def setSize (inode : Inode) (size : Nat) : Inode :=
  { inode with
    sizeLo := UInt32.ofNat size
    node := inode.node.setSlot 4
      { inode.node.slot 4 with w2 := UInt32.ofNat (size / 2 ^ 32) } }

/-- `i_block` cleared and set to a new node; the fields behind it stay. -/
def setIBlock (inode : Inode) (n : Node) : Inode :=
  { inode with node := { n with slot := fun i => if i < 4 then n.slot i else inode.node.slot i } }

/-- The inodes agree as `memcmp` compares them, on all 160 bytes. -/
def same (a b : Inode) : Bool :=
  a.mode = b.mode && a.sizeLo = b.sizeLo && a.dtime = b.dtime && a.linksCount = b.linksCount &&
  a.blocksLo = b.blocksLo && a.flags = b.flags &&
  a.node.ehMagic = b.node.ehMagic && a.node.ehEntries = b.node.ehEntries &&
  a.node.ehMax = b.node.ehMax && a.node.ehDepth = b.node.ehDepth &&
  a.node.ehGeneration = b.node.ehGeneration &&
  (List.range 9).all fun i => a.node.slot i = b.node.slot i

/-- `ext4_inode_is_dir`. -/
def isDir (inode : Inode) : Bool := inode.mode &&& 0xf000 = 0x4000

/-- `ext4_inode_is_regular`. -/
def isRegular (inode : Inode) : Bool := inode.mode &&& 0xf000 = 0x8000

/-- `ext4_inode_is_symlink`. -/
def isSymlink (inode : Inode) : Bool := inode.mode &&& 0xf000 = 0xa000

/-- `ext4_inode_uses_extents`, the test of `EXT4_EXTENTS_FL`. -/
def usesExtents (inode : Inode) : Bool := inode.flags &&& 0x80000 ≠ 0

/-- The test of `EXT4_INDEX_FL`. -/
def hasIndex (inode : Inode) : Bool := inode.flags &&& 0x1000 ≠ 0

/-- `inode->i_flags &= ~EXT4_INDEX_FL`. -/
def clearIndex (inode : Inode) : Inode := { inode with flags := inode.flags &&& ~~~0x1000 }

end Inode

end Rabbitbone.Native.Ext4
