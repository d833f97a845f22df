import Mathlib.Algebra.Group.Nat.Defs

/-!
# User memory

Model of the part of `kernel/sys/syscall/usercopy_paths.inc`, `kernel/rust/usercopy.rs` and
`kernel/proc/process/lifecycle_state.inc` through which a syscall reads and writes the memory of the
process that made it.
-/

namespace Rabbitbone.Native.Sys

/-- `PAGE_SIZE`. -/
def pageSize : Nat := 4096

/-- `USER_MIN` of `kernel/rust/usercopy.rs`. -/
def userMin : Nat := 0x10000

/-- `USER_LIMIT` of `kernel/rust/usercopy.rs`. -/
def userLimit : Nat := 0x800000000000

/-- The memory of the current process.  `readable` and `writable` say of a page whether an access to
it is allowed and can be resolved, by a fault on its VMA or a copy of its frame if it has to be. -/
structure UserMem where
  bytes : Nat → UInt8
  readable : Nat → Bool
  writable : Nat → Bool

/-- `rabbitbone_rust_user_range_check`. -/
def userRangeCheck (addr size : Nat) : Bool :=
  size = 0 || (userMin ≤ addr && addr + (size - 1) < userLimit)

/-- `process_validate_user_range`, which goes from page to page. -/
def processValidateUserRange (mem : UserMem) (user size : Nat) (write : Bool) : Bool :=
  userRangeCheck user size &&
    (List.range size).all fun i =>
      if write then mem.writable ((user + i) / pageSize) else mem.readable ((user + i) / pageSize)

/-- The bytes from an address on. -/
def UserMem.slice (mem : UserMem) (addr len : Nat) : List UInt8 :=
  (List.range len).map fun i => mem.bytes (addr + i)

/-- Put bytes at an address. -/
def UserMem.store (mem : UserMem) (addr : Nat) (data : List UInt8) : UserMem :=
  { mem with
    bytes := fun a => if addr ≤ a then data.getD (a - addr) (mem.bytes a) else mem.bytes a }

/-- `copy_in_buf`. -/
def copyInBuf (mem : UserMem) (src len : Nat) : Option (List UInt8) :=
  if len = 0 then some []
  else if src = 0 then none
  else if processValidateUserRange mem src len false then some (mem.slice src len)
  else none

/-- `copy_out_buf`. -/
def copyOutBuf (mem : UserMem) (dst : Nat) (data : List UInt8) : Option UserMem :=
  if data.length = 0 then some mem
  else if dst = 0 then none
  else if processValidateUserRange mem dst data.length true then some (mem.store dst data)
  else none

/-- `add_user_ptr`. -/
def addUserPtr (base off : Nat) : Option Nat :=
  if base + off < 2 ^ 64 then some (base + off) else none

/-- `validate_user_write_range`. -/
def validateUserWriteRange (mem : UserMem) (dst len : Nat) : Bool :=
  len = 0 || (dst ≠ 0 && dst + (len - 1) < 2 ^ 64 && processValidateUserRange mem dst len true)

/-- `validate_user_range_shape`. -/
def validateUserRangeShape (ptr len : Nat) : Bool :=
  len = 0 || (ptr ≠ 0 && ptr + (len - 1) < 2 ^ 64 && userRangeCheck ptr len)

/-- `limit_user_io_chunk`: a chunk ends with its page. -/
def limitUserIoChunk (base done desired : Nat) : Nat :=
  if desired = 0 then desired
  else
    match addUserPtr base done with
    | none => 0
    | some ptr => min desired (pageSize - ptr % pageSize)

end Rabbitbone.Native.Sys
