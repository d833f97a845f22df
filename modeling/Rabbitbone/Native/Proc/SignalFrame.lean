import Rabbitbone.ForStd.ByteMemory
import Rabbitbone.Native.Proc.Signals

/-!
# The signal frame in user memory

Model of how `process_signal_frame_t` lies in memory, and of the loops of
`copy_to_process_user_space` and `process_copy_from_user` that carry it to the stack and back, page
by page.  The memory is the one that the process sees: bringing a page in or copying it changes none
of its bytes.
-/

namespace Rabbitbone.Native.Proc

/-- `chunk` of `rabbitbone_rust_user_copy_step`: it ends with the page. -/
def userCopyStep (addr remaining : Nat) : Nat :=
  min remaining (Sys.pageSize - addr % Sys.pageSize)

/-- The loop of both copies, from `src` at the address `a` to `dst` at the address `b`.  The chunks
are those of the user address, which is one of the two. -/
def userCopyLoop (src : ByteMemory) (a b user size : Nat) : Nat → Nat → ByteMemory → ByteMemory
  | 0, _, dst => dst
  | fuel + 1, done, dst =>
    if done < size then
      let n := userCopyStep (user + done) (size - done)
      userCopyLoop src a b user size fuel (done + n) fun i =>
        if b + done ≤ i ∧ i < b + done + n then src (a + (i - b)) else dst i
    else dst

/-- The bytes that `copy_to_process_user_space` puts at `user`. -/
def copyToUser (m : ByteMemory) (user : Nat) (src : ByteMemory) (size : Nat) : ByteMemory :=
  userCopyLoop src 0 user user size size 0 m

/-- `process_copy_from_user`: the bytes that it gets from `user`, once `process_validate_user_range`
has found that every page can be read. -/
def processCopyFromUser (sp : UserSpace) (m : ByteMemory) (user size : Nat) : Option ByteMemory :=
  if userAddrRangeValid user size = false ∨ (pagesOf user size).all sp.read = false then none
  else some (userCopyLoop m user 0 user size size 0 fun _ => 0)

/-- Words one after the other. -/
def storeWords : ByteMemory → Nat → List UInt64 → ByteMemory
  | m, _, [] => m
  | m, a, w :: ws => storeWords (m.store a 8 w.toNat) (a + 8) ws

/-- The words from an address on. -/
def loadWords (m : ByteMemory) : Nat → Nat → List UInt64
  | _, 0 => []
  | a, n + 1 => UInt64.ofNat (m.load a 8) :: loadWords m (a + 8) n

/-- `cpu_regs_t` in memory; `general` are `r15` to `r8`, `rbp`, `rcx` and `rbx`. -/
def Regs.words (r : Regs) : List UInt64 :=
  r.general.take 8 ++ [r.rsi, r.rdi] ++ (r.general.drop 8).take 1 ++ [r.rdx] ++ r.general.drop 9 ++
    [r.rax, r.vector, r.error, r.rip, r.cs, r.rflags, r.rsp, r.ss]

def Regs.ofWords (ws : List UInt64) : Regs where
  general := ws.take 8 ++ (ws.drop 10).take 1 ++ (ws.drop 12).take 2
  rsi := ws.getD 8 0
  rdi := ws.getD 9 0
  rdx := ws.getD 11 0
  rax := ws.getD 14 0
  vector := ws.getD 15 0
  error := ws.getD 16 0
  rip := ws.getD 17 0
  cs := ws.getD 18 0
  rflags := ws.getD 19 0
  rsp := ws.getD 20 0
  ss := ws.getD 21 0
  returnOf := none

/-- `process_signal_frame_t` in memory; `reserved` is the upper half of the word of `signal`. -/
def SignalFrame.image (f : SignalFrame) : ByteMemory :=
  storeWords (fun _ => 0) 0
    ([f.restorer, f.magic, f.oldMask, UInt64.ofNat f.signal] ++ f.savedRegs.words)

def SignalFrame.ofImage (m : ByteMemory) : SignalFrame :=
  let ws := loadWords m 0 (signalFrameSize / 8)
  ⟨ws.getD 0 0, ws.getD 1 0, ws.getD 2 0, (ws.getD 3 0).toNat % 2 ^ 32, .ofWords (ws.drop 4)⟩

/-- The memory after `process_signal_make_frame` has put the frame there. -/
def Process.putFrame (p : Process) (m : ByteMemory) : ByteMemory :=
  match p.frame with
  | none => m
  | some f => copyToUser m p.frameAddr.toNat f.image signalFrameSize

/-- What `process_signal_return` reads at the address of a frame, if it can. -/
def readFrame (sp : UserSpace) (m : ByteMemory) (addr : UInt64) : Option SignalFrame :=
  (processCopyFromUser sp m addr.toNat signalFrameSize).map .ofImage

end Rabbitbone.Native.Proc
