import Rabbitbone.ForStd.RingBuffer
import Rabbitbone.Native.Sys.Auth
import Rabbitbone.Native.Sys.UserMemory

/-!
# Pipes

Model of `kernel/sys/syscall/pipes.inc`, of the pipe branches of `sys_read_impl` and
`sys_write_impl` in `kernel/sys/syscall/io_syscalls.inc`, and of the reference counts of a pipe in
`kernel/sys/syscall/files_and_handles.inc`.

One pipe is followed together with all the descriptors that name it, over all processes.  The tables
that hold these descriptors are left out: a descriptor is duplicated by `dup`, `dup2`, `fork` and
`spawn`, which copy the handle and retain the pipe, and closed by `close`, `dup2`, `exec` and
`exit`.  A syscall runs with interrupts off, so nothing on its CPU comes between two chunks of it.
The calls are those of one CPU, so a whole call is one step; two CPUs could take turns at the lock
of the pipe, chunk by chunk.
-/

namespace Rabbitbone.Native.Sys

/-- `__builtin_add_overflow` on a `u64`: whether it overflows, and what is stored. -/
def addOverflow (a : UInt64) (n : Nat) : Bool × UInt64 :=
  (2 ^ 64 ≤ a.toNat + n, a + UInt64.ofNat n)

/-! ### The pipe -/

/-- `SYSCALL_PIPE_BUFFER`. -/
def pipeBuffer : Nat := 4096

/-- `SYSCALL_IO_CHUNK`. -/
def ioChunk : Nat := 4096

/-- `SYSCALL_MAX_IO_BYTES`. -/
def maxIoBytes : Nat := 1024 * 1024

/-- `sys_pipe_t`: the ring is `data` from `read_pos` on, `len` bytes of it. -/
structure SysPipe where
  ring : RingBuffer UInt8 pipeBuffer
  totalRead : UInt64
  totalWritten : UInt64
  readRefs : UInt32
  writeRefs : UInt32

/-- What `alloc_pipe` leaves. -/
def allocPipe : SysPipe where
  ring :=
    { cells := fun _ => 0
      start := 0
      size := 0
      start_lt := by decide
      size_le := by decide }
  totalRead := 0
  totalWritten := 0
  readRefs := 0
  writeRefs := 0

/-- `pipe_write_status_t`. -/
inductive PipeWriteStatus where
  | ok
  | full
  | closed
  | inval
  | gone
  deriving DecidableEq, Repr

/-- `pipe_read_status_t`. -/
inductive PipeReadStatus where
  | ok
  | empty
  | eof
  | inval
  | gone
  deriving DecidableEq, Repr

/-- `pipe_write_bytes`: the status, how many bytes were written, and the pipe. -/
def pipeWriteBytes (p : SysPipe) (src : List UInt8) : PipeWriteStatus × Nat × SysPipe :=
  if src.length = 0 then (.inval, 0, p)
  else if p.readRefs = 0 then (.closed, 0, p)
  else if pipeBuffer - p.ring.size = 0 then (.full, 0, p)
  else
    let len := min src.length (pipeBuffer - p.ring.size)
    (.ok, len,
      { p with
        ring := p.ring.pushList (src.take len)
        totalWritten := p.totalWritten + UInt64.ofNat len })

/-- `pipe_read_bytes`: the status, the bytes, and the pipe. -/
def pipeReadBytes (p : SysPipe) (len : Nat) : PipeReadStatus × List UInt8 × SysPipe :=
  if len = 0 then (.inval, [], p)
  else if p.ring.size = 0 then (if p.writeRefs = 0 then .eof else .empty, [], p)
  else
    let n := min len p.ring.size
    (.ok, (p.ring.popList n).1,
      { p with
        ring := (p.ring.popList n).2
        totalRead := p.totalRead + UInt64.ofNat n })

/-- `pipe_write_by_id`, where `pipe_by_id` has found `pipe`. -/
def pipeWriteById (pipe : Option SysPipe) (src : List UInt8) :
    PipeWriteStatus × Nat × Option SysPipe :=
  match pipe with
  | none => (.gone, 0, none)
  | some p =>
    ((pipeWriteBytes p src).1, (pipeWriteBytes p src).2.1, some (pipeWriteBytes p src).2.2)

/-- `pipe_read_by_id`, where `pipe_by_id` has found `pipe`. -/
def pipeReadById (pipe : Option SysPipe) (len : Nat) :
    PipeReadStatus × List UInt8 × Option SysPipe :=
  match pipe with
  | none => (.gone, [], none)
  | some p => ((pipeReadBytes p len).1, (pipeReadBytes p len).2.1, some (pipeReadBytes p len).2.2)

/-! ### Reading and writing -/

/-- What a syscall that has transferred `total` bytes returns when it cannot go on. -/
def okOr (total : Nat) (e : VfsStatus) : SysResult := if total = 0 then .error e else .ok total

/-- The loop of `sys_write_impl` over the chunks of a write to a pipe, with the offset of the
handle. -/
def pipeWriteLoop (mem : UserMem) (buf len : Nat) :
    Nat → Nat → UInt64 → Option SysPipe → SysResult × UInt64 × Option SysPipe
  | 0, total, off, pipe => (.ok total, off, pipe)
  | fuel + 1, total, off, pipe =>
    if total < len then
      let n := limitUserIoChunk buf total (min (len - total) ioChunk)
      if n = 0 then (okOr total .inval, off, pipe)
      else
        match (addUserPtr buf total).bind fun ptr => copyInBuf mem ptr n with
        | none => (okOr total .inval, off, pipe)
        | some chunk =>
          match pipeWriteById pipe chunk with
          | (.closed, _, pipe) => (okOr total .io, off, pipe)
          | (.gone, _, pipe) => (okOr total .noent, off, pipe)
          | (.inval, _, pipe) => (okOr total .inval, off, pipe)
          | (st, wrote, pipe) =>
            if wrote = 0 then (.ok total, off, pipe)
            -- the bytes are in the pipe already
            else if (addOverflow off wrote).1 then
              (okOr total .inval, (addOverflow off wrote).2, pipe)
            else if wrote < n ∨ st = .full then
              (.ok (total + wrote : Nat), (addOverflow off wrote).2, pipe)
            else pipeWriteLoop mem buf len fuel (total + wrote) (addOverflow off wrote).2 pipe
    else (.ok total, off, pipe)

/-- The loop of `sys_read_impl` over the chunks of a read from a pipe, with the offset of the
handle. -/
def pipeReadLoop (buf len : Nat) :
    Nat → Nat → UInt64 → UserMem → Option SysPipe →
      SysResult × UInt64 × UserMem × Option SysPipe
  | 0, total, off, mem, pipe => (.ok total, off, mem, pipe)
  | fuel + 1, total, off, mem, pipe =>
    if total < len then
      let n := limitUserIoChunk buf total (min (len - total) ioChunk)
      match addUserPtr buf total with
      | none => (okOr total .inval, off, mem, pipe)
      | some ptr =>
        if n = 0 ∨ validateUserWriteRange mem ptr n = false then
          (okOr total .inval, off, mem, pipe)
        else
          match pipeReadById pipe n with
          | (.empty, _, pipe) => (okOr total .busy, off, mem, pipe)
          | (.eof, _, pipe) => (.ok total, off, mem, pipe)
          | (.gone, _, pipe) => (okOr total .noent, off, mem, pipe)
          | (.inval, _, pipe) => (okOr total .inval, off, mem, pipe)
          | (.ok, chunk, pipe) =>
            if chunk.length = 0 then (.ok total, off, mem, pipe)
            else
              match copyOutBuf mem ptr chunk with
              | none => (okOr total .inval, off, mem, pipe)
              | some mem =>
                -- the bytes have left the pipe already
                if (addOverflow off chunk.length).1 then
                  (okOr total .inval, (addOverflow off chunk.length).2, mem, pipe)
                else if chunk.length < n then
                  (.ok (total + chunk.length : Nat), (addOverflow off chunk.length).2, mem, pipe)
                else
                  pipeReadLoop buf len fuel (total + chunk.length) (addOverflow off chunk.length).2
                    mem pipe
    else (.ok total, off, mem, pipe)

/-- `SYS_HANDLE_PIPE_READ` and `SYS_HANDLE_PIPE_WRITE`. -/
inductive EndpointKind where
  | read
  | write
  deriving DecidableEq, Repr

/-- A descriptor of the pipe: `kind` and `offset` of `sys_handle_t`. -/
structure Endpoint where
  kind : EndpointKind
  offset : UInt64
  deriving DecidableEq, Repr

/-- `rabbitbone_sys_write` on a descriptor of a pipe. -/
def sysWritePipe (mem : UserMem) (e : Endpoint) (pipe : Option SysPipe) (buf len : Nat) :
    SysResult × UInt64 × Option SysPipe :=
  if maxIoBytes < len then (.error .inval, e.offset, pipe)
  else if validateUserRangeShape buf len = false then (.error .inval, e.offset, pipe)
  else
    match e.kind with
    | .read => (.error .perm, e.offset, pipe)
    | .write => pipeWriteLoop mem buf len len 0 e.offset pipe

/-- `rabbitbone_sys_read` on a descriptor of a pipe. -/
def sysReadPipe (mem : UserMem) (e : Endpoint) (pipe : Option SysPipe) (buf len : Nat) :
    SysResult × UInt64 × UserMem × Option SysPipe :=
  if maxIoBytes < len then (.error .inval, e.offset, mem, pipe)
  else if validateUserRangeShape buf len = false then (.error .inval, e.offset, mem, pipe)
  else
    match e.kind with
    | .write => (.error .perm, e.offset, mem, pipe)
    | .read => pipeReadLoop buf len len 0 e.offset mem pipe

/-! ### Descriptors -/

/-- `pipe_ref`: `none` if the count is at its limit. -/
def pipeRef (p : SysPipe) : EndpointKind → Option SysPipe
  | .read => if p.readRefs = 0xffffffff then none else some { p with readRefs := p.readRefs + 1 }
  | .write =>
    if p.writeRefs = 0xffffffff then none else some { p with writeRefs := p.writeRefs + 1 }

/-- `pipe_unref`: `none` for the panic on a double close, `some none` if the pipe is freed. -/
def pipeUnref (p : SysPipe) (kind : EndpointKind) : Option (Option SysPipe) :=
  let dropped :=
    match kind with
    | .read => if p.readRefs = 0 then none else some { p with readRefs := p.readRefs - 1 }
    | .write => if p.writeRefs = 0 then none else some { p with writeRefs := p.writeRefs - 1 }
  dropped.map fun p => if p.readRefs = 0 ∧ p.writeRefs = 0 then none else some p

/-- A pipe, as long as it is allocated, and the descriptors that name it. -/
structure PipeSystem where
  pipe : Option SysPipe
  endpoints : List Endpoint

/-- What `rabbitbone_sys_pipe` leaves: one descriptor to read and one to write. -/
def sysPipe : PipeSystem where
  pipe := some { allocPipe with readRefs := 1, writeRefs := 1 }
  endpoints := [⟨.read, 0⟩, ⟨.write, 0⟩]

/-- Duplicate a descriptor: `handle_retain_resource` and a copy of the handle. -/
def PipeSystem.dup (s : PipeSystem) (i : Nat) : PipeSystem :=
  match s.endpoints[i]? with
  | none => s
  | some e =>
    match s.pipe.bind fun p => pipeRef p e.kind with
    | none => s
    | some p => { pipe := some p, endpoints := s.endpoints ++ [e] }

/-- `close_handle`: `none` for the panic. -/
def PipeSystem.close (s : PipeSystem) (i : Nat) : Option PipeSystem :=
  match s.endpoints[i]? with
  | none => some s
  | some e =>
    match s.pipe with
    | none => some { s with endpoints := s.endpoints.eraseIdx i }
    | some p =>
      (pipeUnref p e.kind).map fun p => { pipe := p, endpoints := s.endpoints.eraseIdx i }

/-- A buffer that a process may hand to a syscall: all of it can be read, or written. -/
structure UserBuf (write : Bool) where
  mem : UserMem
  addr : Nat
  len : Nat
  valid : processValidateUserRange mem addr len write = true

/-- Write through a descriptor: the result and the system. -/
def PipeSystem.write (s : PipeSystem) (i : Nat) (b : UserBuf false) : SysResult × PipeSystem :=
  match s.endpoints[i]? with
  | none => (.error .inval, s)
  | some e =>
    match sysWritePipe b.mem e s.pipe b.addr b.len with
    | (res, off, pipe) =>
      (res, { pipe := pipe, endpoints := s.endpoints.set i { e with offset := off } })

/-- Read through a descriptor: the result, the memory with what was read, and the system. -/
def PipeSystem.read (s : PipeSystem) (i : Nat) (b : UserBuf true) :
    SysResult × UserMem × PipeSystem :=
  match s.endpoints[i]? with
  | none => (.error .inval, b.mem, s)
  | some e =>
    match sysReadPipe b.mem e s.pipe b.addr b.len with
    | (res, off, mem, pipe) =>
      (res, mem, { pipe := pipe, endpoints := s.endpoints.set i { e with offset := off } })

/-- What can happen to a pipe. -/
inductive PipeOp where
  | read (i : Nat) (buf : UserBuf true)
  | write (i : Nat) (buf : UserBuf false)
  | dup (i : Nat)
  | close (i : Nat)

end Rabbitbone.Native.Sys
