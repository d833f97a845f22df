import Mathlib.Logic.Function.Basic
import Rabbitbone.Native.Sys.Pipe

/-!
# Readers of one open file

Model of the loop of `sys_read_impl` of `kernel/sys/syscall/io_syscalls.inc` over the chunks of a
regular file.  The descriptors that `dup` and `fork` make share the file and its offset, so several
calls may be in the loop at a time.  Interrupts are off in a syscall, so these calls are on
different CPUs, and unlike in the model of pipes, which has one CPU, the critical sections are the
steps.  A turn of the loop takes the lock of the file twice: a chunk is read at the offset, and when
it has been copied out the offset is moved.
-/

namespace Rabbitbone.Native.Sys

/-- What a call keeps between the two critical sections: where the chunk goes, how much was asked
for, and what was read. -/
structure Chunk where
  ptr : Nat
  n : Nat
  startOffset : Nat
  bytes : List UInt8

/-- Where a call is: before a turn of the loop, inside it, or at its end. -/
inductive ReadCall where
  | loop (total : Nat)
  | holding (total : Nat) (c : Chunk)
  | returned (result : SysResult)

/-- A process with its last call. -/
structure Reader where
  mem : UserMem
  buf : Nat
  len : Nat
  call : ReadCall

/-- `sys_file_t`, the processes that share it, and the places in the file of the bytes they have
got. -/
structure SharedFile where
  data : List UInt8
  offset : Nat
  readers : Nat → Reader
  delivered : List Nat

namespace SharedFile

/-- The first critical section, where `vs` is the status of `vfs_read_ref` if it fails: the chunk,
or what the call returns. -/
def fetch (f : SharedFile) (p : Reader) (total : Nat) (vs : Option VfsStatus) :
    Except SysResult Chunk :=
  let n := limitUserIoChunk p.buf total (min (p.len - total) ioChunk)
  if p.len ≤ total then .error (.ok total)
  else
    match addUserPtr p.buf total with
    | none => .error (okOr total .inval)
    | some ptr =>
      if n = 0 ∨ validateUserWriteRange p.mem ptr n = false then .error (okOr total .inval)
      else
        match vs with
        | some e => .error (okOr total e)
        | none =>
          let bytes := (f.data.drop f.offset).take n
          if 2 ^ 64 ≤ f.offset + bytes.length then .error (okOr total .inval)
          else .ok ⟨ptr, n, f.offset, bytes⟩

def put (f : SharedFile) (r : Nat) (p : Reader) : SharedFile :=
  { f with readers := Function.update f.readers r p }

/-- The copy, and the second critical section. -/
def deliver (f : SharedFile) (r total : Nat) (c : Chunk) : SharedFile :=
  let p := f.readers r
  let got := c.bytes.length
  match copyOutBuf p.mem c.ptr c.bytes with
  | none => f.put r { p with call := .returned (okOr total .inval) }
  | some mem =>
    if f.offset ≠ c.startOffset ∧ 2 ^ 64 ≤ f.offset + got then
      f.put r { p with mem, call := .returned (okOr total .inval) }
    else
      -- at the start offset this is the sum that the first section has found not to overflow
      { f with
        offset := f.offset + got
        delivered := f.delivered ++ List.range' c.startOffset got }.put r
          { p with
            mem
            call := if got < c.n then .returned (.ok (total + got : Nat)) else .loop (total + got) }

end SharedFile

/-- What happens to the file. -/
inductive ReadEvent where
  | call (r : Nat) (mem : UserMem) (buf len : Nat)
  | fetch (r : Nat) (vs : Option VfsStatus)
  | deliver (r : Nat)

def SharedFile.step (f : SharedFile) : ReadEvent → SharedFile
  | .call r mem buf len =>
    match (f.readers r).call with
    | .returned _ => f.put r ⟨mem, buf, len, .loop 0⟩
    | _ => f
  | .fetch r vs =>
    match (f.readers r).call with
    | .loop total =>
      match f.fetch (f.readers r) total vs with
      | .error result => f.put r { f.readers r with call := .returned result }
      | .ok c => f.put r { f.readers r with call := .holding total c }
    | _ => f
  | .deliver r =>
    match (f.readers r).call with
    | .holding total c => f.deliver r total c
    | _ => f

end Rabbitbone.Native.Sys
