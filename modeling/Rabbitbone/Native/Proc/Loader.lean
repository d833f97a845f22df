import Rabbitbone.Native.Proc.ExecPlan
import Rabbitbone.Native.Sys.UserMemory

/-!
# Loading a program

Model of `kernel/proc/process/loader_stack.inc`, of the checks of `kernel/exec/elf64.c`, and of the
syscalls of `kernel/sys/syscall/exec_process_syscalls.inc` that start a program.

What depends on the memory that is free and on how the address space gets filled is given by a
`LoadEnv`: the outcome of each step that maps, fills or protects pages.  The program headers are
read and checked in full.
-/

namespace Rabbitbone.Native.Proc

open Native.Path Sys

/-! ### ELF files -/

/-- `elf_status_t`, the ways to fail. -/
inductive ElfStatus where
  | format
  | unsupported
  | range
  deriving DecidableEq, Repr

/-- The little-endian number in `n` bytes at `off`. -/
def leAt (b : List UInt8) (off : Nat) : Nat → Nat
  | 0 => 0
  | n + 1 => (b.getD off 0).toNat + 2 ^ 8 * leAt b (off + 1) n

/-- `elf64_ehdr_t`, without the fields of the section headers. -/
structure Ehdr where
  ident : List UInt8
  type : Nat
  machine : Nat
  version : Nat
  entry : Nat
  phoff : Nat
  flags : Nat
  ehsize : Nat
  phentsize : Nat
  phnum : Nat
  deriving DecidableEq, Repr

/-- `sizeof(elf64_ehdr_t)`. -/
def ehdrSize : Nat := 64

def Ehdr.ofBytes (b : List UInt8) : Ehdr where
  ident := b.take 16
  type := leAt b 16 2
  machine := leAt b 18 2
  version := leAt b 20 4
  entry := leAt b 24 8
  phoff := leAt b 32 8
  flags := leAt b 48 4
  ehsize := leAt b 52 2
  phentsize := leAt b 54 2
  phnum := leAt b 56 2

/-- `elf64_phdr_t`, without the physical address. -/
structure Phdr where
  type : Nat
  flags : Nat
  offset : Nat
  vaddr : Nat
  filesz : Nat
  memsz : Nat
  align : Nat
  deriving DecidableEq, Repr

/-- `sizeof(elf64_phdr_t)`. -/
def phdrSize : Nat := 56

def Phdr.ofBytes (b : List UInt8) : Phdr where
  type := leAt b 0 4
  flags := leAt b 4 4
  offset := leAt b 8 8
  vaddr := leAt b 16 8
  filesz := leAt b 32 8
  memsz := leAt b 40 8
  align := leAt b 48 8

/-- `ELF64_RABBITBONE_USER_IMAGE_BASE`. -/
def userImageBase : Nat := 0x10000000000

/-- `ELF64_RABBITBONE_USER_SPACE_LIMIT`. -/
def userSpaceLimit : Nat := 0x800000000000

/-- `USER_MAX_MAPPINGS`. -/
def userMaxMappings : Nat := 256

/-- `elf64_validate_header`. -/
def elf64ValidateHeader (h : Ehdr) (fileSize : Nat) : Except ElfStatus Unit :=
  if fileSize < ehdrSize then .error .format
  else if h.ident.take 4 ≠ [0x7f, 'E'.toUInt8, 'L'.toUInt8, 'F'.toUInt8] then .error .format
  else if (h.ident.drop 4).take 3 ≠ [2, 1, 1] then .error .unsupported
  else if h.type ≠ 2 ∧ h.type ≠ 3 then .error .unsupported
  else if h.flags ≠ 0 then .error .unsupported
  else if h.machine ≠ 62 then .error .unsupported
  else if h.version ≠ 1 then .error .format
  else if h.ehsize ≠ ehdrSize then .error .format
  else if h.phentsize ≠ phdrSize then .error .format
  else if h.phnum = 0 ∨ 64 < h.phnum then .error .format
  else if h.phoff < ehdrSize then .error .format
  else if 2 ^ 64 ≤ h.phoff + h.phnum * h.phentsize ∨ fileSize < h.phoff + h.phnum * h.phentsize then
    .error .range
  else .ok ()

/-- `ELF64_PF_X`. -/
def Phdr.executable (ph : Phdr) : Bool := ph.flags % 2 = 1

/-- `ELF64_PF_W`. -/
def Phdr.writable (ph : Phdr) : Bool := ph.flags / 2 % 2 = 1

/-- `elf64_is_power_of_two`. -/
def elf64IsPowerOfTwo (v : Nat) : Bool := v ≠ 0 && v &&& (v - 1) = 0

/-- `elf64_validate_load_segment`, between the image base and the limit of user space. -/
def elf64ValidateLoadSegment (ph : Phdr) (fileSize : Nat) : Except ElfStatus Unit :=
  if ph.type ≠ 1 then .error .format
  else if ph.memsz < ph.filesz then .error .format
  else if 8 ≤ ph.flags then .error .format
  else if ph.executable ∧ ph.writable then .error .unsupported
  else if 1 < ph.align ∧ elf64IsPowerOfTwo ph.align = false then .error .format
  else if 1 < ph.align ∧ ph.vaddr % ph.align ≠ ph.offset % ph.align then .error .format
  else if 2 ^ 64 ≤ ph.offset + ph.filesz ∨ fileSize < ph.offset + ph.filesz then .error .range
  else if 2 ^ 64 ≤ ph.vaddr + ph.memsz then .error .range
  else if ph.memsz ≠ 0 ∧ (ph.vaddr < userImageBase ∨ userSpaceLimit < ph.vaddr + ph.memsz) then
    .error .range
  else .ok ()

/-- `process_elf_phdr_type_supported`: `PT_NULL`, `PT_LOAD`, `PT_NOTE` and `PT_GNU_STACK`. -/
def processElfPhdrTypeSupported (type : Nat) : Bool :=
  type = 0 || type = 1 || type = 4 || type = 0x6474e551

/-- `user_addr_range_valid`. -/
def userAddrRangeValid (user size : Nat) : Bool :=
  userRangeCheck user size && (size = 0 || user < userSpaceLimit)

/-- `process_segment_page_span`: whether the pages of a segment are in range. -/
def processSegmentPageSpan (ph : Phdr) : Except ProcStatus Unit :=
  let segEnd := ph.vaddr + ph.memsz
  let start := ph.vaddr / pageSize * pageSize
  let alignedEnd := (segEnd + (pageSize - 1)) / pageSize * pageSize
  if 2 ^ 64 ≤ segEnd then .error .range
  else if 2 ^ 64 ≤ segEnd + (pageSize - 1) then .error .range
  else if alignedEnd ≤ start ∨ userAddrRangeValid start (alignedEnd - start) = false then
    .error .range
  else if (alignedEnd - start) / pageSize = 0 ∨
    userMaxMappings < (alignedEnd - start) / pageSize then
    .error .range
  else .ok ()

/-! ### The image -/

/-- What the steps that fill the new address space answer. -/
structure LoadEnv where
  /-- A free slot in the table of processes, or the spare one that `exec` uses. -/
  slot : Bool
  /-- `vmm_space_create_user`. -/
  space : Bool
  /-- `alloc_user_pid`. -/
  pid : Bool
  /-- The mappings that are left, `ensure_image_page`, `read_vfs_to_user` and `zero_user_space` for
  the segment of a header. -/
  segment : Phdr → Except ProcStatus Unit
  /-- `protect_loaded_image`, `process_add_vma` and `process_init_heap_for`. -/
  protect : Except ProcStatus Unit
  /-- `build_user_stack`. -/
  stack : List (List UInt8) → List (List UInt8) → Except ProcStatus Unit
  /-- `syscall_retain_user_handle_snapshot`. -/
  handles : Bool

/-- `vfs_read` of a whole structure. -/
def readExact (fs : Vfs) (path : List UInt8) (off size : Nat) : Except ProcStatus (List UInt8) := do
  let data ← orIo (fs.read path off size)
  if data.length ≠ size then .error .io else .ok data

/-- The statuses that `load_elf_image` makes of those of a segment. -/
def ofSegmentStatus (x : Except ElfStatus Unit) : Except ProcStatus Unit :=
  x.mapError fun
    | .unsupported => .format
    | .range => .range
    | .format => .format

/-- The loop of `load_elf_image` over `n` headers from the `i`th on: `loaded` are the segments so
far, and the result is whether the entry is in one that is executable. -/
def loadSegments (fs : Vfs) (env : LoadEnv) (path : List UInt8) (fileSize : Nat) (eh : Ehdr) :
    Nat → Nat → List (Nat × Nat) → Bool → Except ProcStatus Bool
  | 0, _, _, entryOk => .ok entryOk
  | n + 1, i, loaded, entryOk =>
    if 2 ^ 64 ≤ eh.phoff + i * eh.phentsize then .error .range
    else do
      let data ← readExact fs path (eh.phoff + i * eh.phentsize) phdrSize
      let ph := Phdr.ofBytes data
      if processElfPhdrTypeSupported ph.type = false then .error .format
      else if ph.type ≠ 1 then loadSegments fs env path fileSize eh n (i + 1) loaded entryOk
      else do
        ofSegmentStatus (elf64ValidateLoadSegment ph fileSize)
        if ph.memsz = 0 then loadSegments fs env path fileSize eh n (i + 1) loaded entryOk
        else if loaded.any fun r => ph.vaddr < r.2 && r.1 < ph.vaddr + ph.memsz then .error .format
        else do
          processSegmentPageSpan ph
          env.segment ph
          loadSegments fs env path fileSize eh n (i + 1)
            (loaded ++ [(ph.vaddr, ph.vaddr + ph.memsz)])
            (entryOk ||
              ph.executable && ph.vaddr ≤ eh.entry && eh.entry < ph.vaddr + ph.memsz)

/-- `load_elf_image`: the entry. -/
def loadElfImage (fs : Vfs) (cred : Cred) (env : LoadEnv) (path : List UInt8) :
    Except ProcStatus Nat :=
  if processCredCanTraverseParent fs cred path = false then .error .io
  else do
    let st ← orIo (fs.stat path)
    if st.type ≠ .file then .error .io
    else if processCredCanAccess cred st 0o1 = false then .error .io
    else do
      let data ← readExact fs path 0 ehdrSize
      let eh := Ehdr.ofBytes data
      (elf64ValidateHeader eh st.size).mapError fun _ => .format
      if eh.type ≠ 2 then .error .format
      else if eh.entry < userImageBase ∨ userSpaceLimit ≤ eh.entry then .error .range
      else if 32 < eh.phnum then .error .range
      else do
        let entryOk ← loadSegments fs env path st.size eh eh.phnum 0 [] false
        if entryOk = false then .error .format
        else do
          env.protect
          .ok eh.entry

/-! ### New programs -/

/-- `PROCESS_ENV_MAX`. -/
def processEnvMax : Nat := 8

/-- The common part of `prepare_process_env` and `prepare_exec_replacement_env`: the plan that
runs. -/
def loadProgram (fs : Vfs) (cred : Cred) (env : LoadEnv) (path : List UInt8)
    (argv envp : List (List UInt8)) : Except ProcStatus ExecPlan := do
  let plan ← resolveExecPlan fs cred path argv
  let _ ← loadElfImage fs cred env plan.imagePath
  env.stack plan.argv envp
  .ok plan

/-- `prepare_process_env` for the current process, which hands on its credentials. -/
def prepareProcessEnv (fs : Vfs) (cred : Cred) (env : LoadEnv) (path : List UInt8)
    (argv envp : List (List UInt8)) : Except ProcStatus ExecPlan :=
  if path = [] ∨ processArgMax < argv.length ∨ processEnvMax < envp.length then .error .inval
  else if env.space = false then .error .nomem
  else if env.pid = false then .error .busy
  else loadProgram fs cred env path argv envp

/-- `prepare_exec_replacement_env`. -/
def prepareExecReplacementEnv (fs : Vfs) (cred : Cred) (env : LoadEnv) (path : List UInt8)
    (argv envp : List (List UInt8)) : Except ProcStatus ExecPlan :=
  if path = [] ∨ argv = [] ∨ processArgMax < argv.length ∨ processEnvMax < envp.length then
    .error .inval
  else if env.space = false then .error .nomem
  else loadProgram fs cred env path argv envp

/-- `process_spawn_async`. -/
def processSpawnAsync (fs : Vfs) (cred : Cred) (env : LoadEnv) (path : List UInt8)
    (argv : List (List UInt8)) : Except ProcStatus ExecPlan :=
  if env.slot = false then .error .nomem
  else do
    let plan ← prepareProcessEnv fs cred env path argv []
    if env.handles = false then .error .nomem else .ok plan

/-- `process_request_execve`. -/
def processRequestExecve (fs : Vfs) (cred : Cred) (env : LoadEnv) (path : List UInt8)
    (argv envp : List (List UInt8)) : Except ProcStatus ExecPlan :=
  if env.slot = false then .error .nomem
  else prepareExecReplacementEnv fs cred env path argv envp

/-! ### The syscalls -/

/-- `process_status_to_vfs_error`. -/
def processStatusToVfsError : ProcStatus → VfsStatus
  | .inval => .inval
  | .nomem => .nomem
  | .range => .inval
  | .io => .io
  | .format => .io
  | .fault => .io
  | .busy => .busy

/-- The process that makes the syscall. -/
structure Caller where
  cred : Cred
  cwd : List UInt8
  mem : UserStrings
  /-- The pointer at an address of its memory. -/
  word : UInt64 → Option UInt64
  /-- `process_async_scheduler_active`. -/
  async : Bool

/-- The loop of `syscall_path_chars_valid`, with the length of the component it is in. -/
def pathCharsLoop : List UInt8 → Nat → Bool
  | [], _ => true
  | c :: rest, compLen =>
    if !pathComponentByteAllowed c then false
    else if c = slash then pathCharsLoop rest 0
    else if nameMax ≤ compLen + 1 then false
    else pathCharsLoop rest (compLen + 1)

/-- `copy_path_arg`. -/
def copyPathArg (c : Caller) (ptr : UInt64) : Option (List UInt8) := do
  let raw ← copyStringArg c.mem ptr pathMax
  if raw = [] ∨ pathCharsLoop raw 0 = false then none
  else do
    let path ← if raw.headD 0 = slash then pathNormalize raw pathMax
      else pathJoin c.cwd raw pathMax
    if pathPolicyCheck path then some path else none

/-- `copy_argv_vector` and `copy_env_vector`: the strings behind `n` pointers. -/
def copyVector (c : Caller) (ptr : UInt64) (n : Nat) : Option (List (List UInt8)) :=
  (List.range n).mapM fun i => do
    let slot ← if ptr.toNat + i * 8 < 2 ^ 64 then some (ptr + UInt64.ofNat (i * 8)) else none
    let arg ← c.word slot
    if arg = 0 then none else copyStringArg c.mem arg pathMax

/-- `copy_argv_vector`. -/
def copyArgvVector (c : Caller) (ptr : UInt64) (argc : Nat) : Option (List (List UInt8)) :=
  if argc = 0 ∨ processArgMax < argc ∨ ptr = 0 then none
  else do
    let argv ← copyVector c ptr argc
    if argv.headD [] = [] then none else some argv

/-- `copy_env_vector`. -/
def copyEnvVector (c : Caller) (ptr : UInt64) (envc : Nat) : Option (List (List UInt8)) :=
  if processEnvMax < envc then none
  else if envc = 0 then some []
  else if ptr = 0 then none
  else do
    let envp ← copyVector c ptr envc
    if [] ∈ envp then none else some envp

/-- A syscall that starts a program. -/
inductive ExecCall where
  | spawn (pathPtr : UInt64)
  | spawnv (pathPtr argc argvPtr : UInt64)
  | exec (pathPtr : UInt64)
  | execv (pathPtr argc argvPtr : UInt64)
  | execve (pathPtr argc argvPtr envc envpPtr : UInt64)
  deriving DecidableEq, Repr

/-- Where the path of the program is. -/
def ExecCall.pathPtr : ExecCall → UInt64
  | .spawn p | .spawnv p _ _ | .exec p | .execv p _ _ | .execve p _ _ _ _ => p

/-- A string argument that cannot be copied is `VFS_ERR_INVAL`. -/
def orInval {α : Type} (x : Option α) : Except VfsStatus α :=
  match x with
  | some a => .ok a
  | none => .error .inval

/-- The path of the program, if its directory can be reached. -/
def reachablePath (fs : Vfs) (c : Caller) (ptr : UInt64) : Except VfsStatus (List UInt8) := do
  let path ← orInval (copyPathArg c ptr)
  if processCredCanTraverseParent fs c.cred path = false then .error .perm else .ok path

/-- `process_spawn_async`, or `process_spawn`, which refuses to run under a process. -/
def spawnAs (fs : Vfs) (c : Caller) (env : LoadEnv) (path : List UInt8)
    (argv : List (List UInt8)) : Except VfsStatus ExecPlan :=
  (if c.async then processSpawnAsync fs c.cred env path argv else .error .inval).mapError
    processStatusToVfsError

/-- `process_request_exec` and `process_request_execve`. -/
def execAs (fs : Vfs) (c : Caller) (env : LoadEnv) (path : List UInt8)
    (argv envp : List (List UInt8)) : Except VfsStatus ExecPlan :=
  (processRequestExecve fs c.cred env path argv envp).mapError processStatusToVfsError

/-- `rabbitbone_sys_spawn`, `rabbitbone_sys_spawnv`, `rabbitbone_sys_exec`, `rabbitbone_sys_execv`
and `rabbitbone_sys_execve`: the plan of the program that will run. -/
def ExecCall.run (fs : Vfs) (c : Caller) (env : LoadEnv) : ExecCall → Except VfsStatus ExecPlan
  | .spawn pathPtr => do
    let path ← reachablePath fs c pathPtr
    spawnAs fs c env path [path]
  | .spawnv pathPtr argc argvPtr =>
    if argc = 0 ∨ processArgMax < argc.toNat ∨ argvPtr = 0 then .error .inval
    else do
      let path ← reachablePath fs c pathPtr
      let argv ← orInval (copyArgvVector c argvPtr argc.toNat)
      spawnAs fs c env path argv
  | .exec pathPtr =>
    if c.async = false then .error .unsupported
    else do
      let path ← reachablePath fs c pathPtr
      execAs fs c env path [path] []
  | .execv pathPtr argc argvPtr =>
    if c.async = false then .error .unsupported
    else if argc = 0 ∨ processArgMax < argc.toNat ∨ argvPtr = 0 then .error .inval
    else do
      let path ← reachablePath fs c pathPtr
      let argv ← orInval (copyArgvVector c argvPtr argc.toNat)
      execAs fs c env path argv []
  | .execve pathPtr argc argvPtr envc envpPtr =>
    if c.async = false then .error .unsupported
    else if argc = 0 ∨ processArgMax < argc.toNat ∨ argvPtr = 0 ∨ processEnvMax < envc.toNat
        ∨ (envc ≠ 0 ∧ envpPtr = 0) then
      .error .inval
    else do
      let path ← reachablePath fs c pathPtr
      let argv ← orInval (copyArgvVector c argvPtr argc.toNat)
      let envp ← orInval (copyEnvVector c envpPtr envc.toNat)
      execAs fs c env path argv envp

end Rabbitbone.Native.Proc
