import Rabbitbone.Native.Sys.Auth

/-!
# Scripts and their interpreters

Model of `kernel/proc/process/shebang.inc`, of the permission checks in
`kernel/proc/process/lifecycle_state.inc`, and of `kernel/rust/path_policy.rs`.

The file system is what `vfs_stat` and `vfs_read` answer; it does not change during a syscall.
-/

namespace Rabbitbone.Native.Proc

open Native.Path Sys

/-- `process_status_t`, the ways to fail. -/
inductive ProcStatus where
  | inval
  | nomem
  | range
  | io
  | format
  | fault
  | busy
  deriving DecidableEq, Repr

/-- `vfs_stat_t`, as far as it is used here. -/
structure VfsStat where
  type : NodeType
  size : Nat
  mode : UInt32
  uid : UInt32
  gid : UInt32
  deriving DecidableEq, Repr

/-- `vfs_stat` and `vfs_read`.  A read returns at most as many bytes as it was asked for. -/
structure Vfs where
  stat : List UInt8 → Except VfsStatus VfsStat
  read : List UInt8 → Nat → Nat → Except VfsStatus (List UInt8)
  read_length : ∀ {path off len data}, read path off len = .ok data → data.length ≤ len

/-! ### Permissions -/

/-- `process_cred_is_root`. -/
def processCredIsRoot (cred : Cred) : Bool := cred.euid = 0

/-- `process_cred_can_access`, which is also `sys_cred_can_access_stat`. -/
def processCredCanAccess (cred : Cred) (st : VfsStat) (need : UInt32) : Bool :=
  if processCredIsRoot cred then true
  else
    let mode := st.mode &&& 0o777
    let bits :=
      if cred.euid = st.uid then (mode >>> 6) &&& 0o7
      else if cred.egid = st.gid then (mode >>> 3) &&& 0o7
      else mode &&& 0o7
    bits &&& need = need

/-- A directory that may be passed through. -/
def canEnter (fs : Vfs) (cred : Cred) (dir : List UInt8) : Bool :=
  match fs.stat dir with
  | .ok st => st.type = .dir && processCredCanAccess cred st 0o1
  | .error _ => false

/-- The loop of `process_cred_can_traverse_path`: `cur` is the path so far and `p` what is left.
Each round consumes a byte, so the length of the path is fuel enough. -/
def traverseLoop (fs : Vfs) (cred : Cred) (includeLeafDir : Bool) :
    Nat → List UInt8 → List UInt8 → Bool
  | 0, _, _ => true
  | fuel + 1, cur, p =>
    if p = [] then true
    else
      let comp := p.takeWhile (· != slash)
      let rest := p.dropWhile (· != slash)
      if comp.length = 0 ∨ pathMax ≤ cur.length + comp.length + 1 then false
      else if rest = [] ∧ includeLeafDir = false then true
      else
        let cur := (if 1 < cur.length then cur ++ [slash] else cur) ++ comp
        if canEnter fs cred cur = false then false
        else if rest = [] then true
        else traverseLoop fs cred includeLeafDir fuel cur (rest.drop 1)

/-- `process_cred_can_traverse_path`, which is also `sys_can_traverse_path`. -/
def processCredCanTraversePath (fs : Vfs) (cred : Cred) (path : List UInt8)
    (includeLeafDir : Bool) : Bool :=
  if path.headD 0 ≠ slash then false
  else if canEnter fs cred [slash] = false then false
  else traverseLoop fs cred includeLeafDir path.length [slash] (path.drop 1)

/-- `process_cred_can_traverse_parent`. -/
def processCredCanTraverseParent (fs : Vfs) (cred : Cred) (path : List UInt8) : Bool :=
  processCredCanTraversePath fs cred path false

/-! ### The policy for paths -/

/-- `validate_component`. -/
def validateComponent (comp : List UInt8) : Bool :=
  comp.length = 0 || (comp.length < nameMax && comp != [dot] && comp != [dot, dot])

/-- The loop of `validate_path_shape` over what is left of the path, with the component it is in. -/
def validatePathLoop : List UInt8 → List UInt8 → Bool
  | [], comp => validateComponent comp
  | b :: rest, comp =>
    if !pathComponentByteAllowed b then false
    else if b = slash then validateComponent comp && validatePathLoop rest []
    else if nameMax ≤ comp.length + 1 then false
    else validatePathLoop rest (comp ++ [b])

/-- `rabbitbone_rust_path_policy_check`. -/
def pathPolicyCheck (path : List UInt8) : Bool :=
  path.length ≠ 0 && path.length < pathMax && path.headD 0 = slash && validatePathLoop path []

/-! ### The first line of a script -/

/-- `PROCESS_SHEBANG_LINE_MAX`. -/
def shebangLineMax : Nat := 127

/-- `PROCESS_SHEBANG_MAX_DEPTH`. -/
def shebangMaxDepth : Nat := 2

/-- `USER_ARG_STRING_MAX`. -/
def userArgStringMax : Nat := 128

/-- `PROCESS_ARG_MAX`. -/
def processArgMax : Nat := 8

def newline : UInt8 := '\n'.toUInt8
def carriageReturn : UInt8 := '\r'.toUInt8

/-- `parsed_shebang_t`. -/
structure ParsedShebang where
  interpreter : List UInt8
  optionalArg : Option (List UInt8)
  deriving DecidableEq, Repr

/-- `shebang_is_space`. -/
def shebangIsSpace (c : UInt8) : Bool := c == ' '.toUInt8 || c == '\t'.toUInt8

/-- The C string in a buffer that holds these bytes. -/
def cString (b : List UInt8) : List UInt8 := b.takeWhile (· != 0)

/-- `shebang_copy_token`. -/
def shebangCopyToken (dstSize : Nat) (src : List UInt8) : Except ProcStatus (List UInt8) :=
  if src.length = 0 then .error .format
  else if dstSize ≤ src.length then .error .range
  else .ok (cString src)

/-- The size of the buffer for the first line. -/
def shebangBufSize : Nat := shebangLineMax + 2

/-- Whether the file starts like a script. -/
def startsShebang (buf : List UInt8) : Bool :=
  buf.take 2 = ['#'.toUInt8, '!'.toUInt8]

/-- The line without its end: `end` of `read_shebang_for_path` and the checks on it. -/
def shebangLine (buf : List UInt8) : Except ProcStatus (List UInt8) :=
  let line := buf.takeWhile (· != newline)
  if line.length = buf.length ∧ buf.length = shebangBufSize then .error .range
  else
    let line := if line.getLast? = some carriageReturn then line.dropLast else line
    if shebangLineMax < line.length then .error .range else .ok line

/-- The optional argument, from what is behind the interpreter. -/
def shebangArgument (rest : List UInt8) : Except ProcStatus (Option (List UInt8)) :=
  let rest := rest.dropWhile shebangIsSpace
  if rest = [] then .ok none
  else do
    let arg ← shebangCopyToken userArgStringMax (rest.takeWhile fun c => !shebangIsSpace c)
    let rest := (rest.dropWhile fun c => !shebangIsSpace c).dropWhile shebangIsSpace
    if rest ≠ [] then .error .format else .ok (some arg)

/-- The interpreter, from the word that names it. -/
def shebangInterpreter (token : List UInt8) : Except ProcStatus (List UInt8) :=
  if token.length = 0 then .error .format
  else if token.headD 0 ≠ slash then .error .format
  else do
    let raw ← shebangCopyToken pathMax token
    match pathNormalize raw pathMax with
    | none => .error .format
    | some interpreter =>
      if pathPolicyCheck interpreter = false then .error .format
      else if userArgStringMax ≤ interpreter.length then .error .range
      else .ok interpreter

/-- The part of `read_shebang_for_path` that reads the line. -/
def parseShebang (buf : List UInt8) : Except ProcStatus ParsedShebang := do
  let line ← shebangLine buf
  let rest := (line.drop 2).dropWhile shebangIsSpace
  if rest = [] then .error .format
  else do
    let interpreter ← shebangInterpreter (rest.takeWhile fun c => !shebangIsSpace c)
    let arg ← shebangArgument (rest.dropWhile fun c => !shebangIsSpace c)
    .ok ⟨interpreter, arg⟩

/-- A failure of the file system is `PROC_ERR_IO`. -/
def orIo {α : Type} (x : Except VfsStatus α) : Except ProcStatus α := x.mapError fun _ => .io

/-- `read_shebang_for_path`: `none` for a file that is no script. -/
def readShebangForPath (fs : Vfs) (cred : Cred) (path : List UInt8) :
    Except ProcStatus (Option ParsedShebang) :=
  if processCredCanTraverseParent fs cred path = false then .error .io
  else do
    let st ← orIo (fs.stat path)
    if st.type ≠ .file then .error .io
    else do
      let buf ← orIo (fs.read path 0 shebangBufSize)
      if startsShebang buf = false then .ok none
      -- a script has to be readable, and nothing more
      else if processCredCanAccess cred st 0o4 = false then .error .io
      else do
        let sb ← parseShebang buf
        .ok (some sb)

/-! ### The plan -/

/-- `process_exec_plan_t`. -/
structure ExecPlan where
  imagePath : List UInt8
  argv : List (List UInt8)
  shebang : Bool
  deriving DecidableEq, Repr

/-- `exec_copy_path`. -/
def execCopyPath (src : List UInt8) : Except ProcStatus (List UInt8) :=
  if src = [] then .error .inval else if pathMax ≤ src.length then .error .range else .ok src

/-- `exec_copy_arg`. -/
def execCopyArg (src : List UInt8) : Except ProcStatus (List UInt8) :=
  if userArgStringMax ≤ src.length then .error .range else .ok src

/-- `exec_plan_init`. -/
def execPlanInit (path : List UInt8) (argv : List (List UInt8)) : Except ProcStatus ExecPlan :=
  if path = [] ∨ processArgMax < argv.length then .error .inval
  else do
    let path ← execCopyPath path
    let argv ← argv.mapM execCopyArg
    .ok ⟨path, argv, false⟩

/-- `append_exec_plan_arg`. -/
def appendExecPlanArg (plan : ExecPlan) (arg : List UInt8) : Except ProcStatus ExecPlan :=
  if processArgMax ≤ plan.argv.length then .error .range
  else do
    let arg ← execCopyArg arg
    .ok { plan with argv := plan.argv ++ [arg] }

/-- `rewrite_exec_plan_for_shebang`: the interpreter, its argument, the script, and the arguments of
the script. -/
def rewriteExecPlanForShebang (plan : ExecPlan) (sb : ParsedShebang) : Except ProcStatus ExecPlan :=
  if sb.interpreter = [] then .error .inval
  else do
    let scriptPath ← execCopyPath plan.imagePath
    let image ← execCopyPath sb.interpreter
    (sb.interpreter :: sb.optionalArg.toList ++ scriptPath :: plan.argv.drop 1).foldlM
      appendExecPlanArg ⟨image, [], true⟩

/-- The loop of `resolve_exec_plan`, with the number of interpreters that may still follow. -/
def resolveLoop (fs : Vfs) (cred : Cred) : Nat → ExecPlan → Except ProcStatus ExecPlan
  | depth, plan => do
    match ← readShebangForPath fs cred plan.imagePath with
    | none => .ok plan
    | some sb =>
      match depth with
      | 0 => .error .range
      | depth + 1 => do
        let plan ← rewriteExecPlanForShebang plan sb
        resolveLoop fs cred depth plan

/-- `resolve_exec_plan`. -/
def resolveExecPlan (fs : Vfs) (cred : Cred) (path : List UInt8) (argv : List (List UInt8)) :
    Except ProcStatus ExecPlan := do
  let plan ← execPlanInit path argv
  resolveLoop fs cred shebangMaxDepth plan

end Rabbitbone.Native.Proc
