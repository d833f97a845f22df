import Rabbitbone.Native.Ramfs.Node

/-!
# Credentials

Model of `kernel/sys/syscall/auth_syscalls.inc` and of the functions of
`kernel/proc/process/lifecycle_state.inc` that hand on credentials.

A syscall reads strings from user memory, which is given as the C string at each address.  The
structures that `RABBITBONE_CRED_OP_GET` and `RABBITBONE_CRED_OP_USERINFO` copy out are left out,
but not that the copy may fail.  The tick counter does not move during a syscall.
-/

namespace Rabbitbone.Native.Sys

/-- `rabbitbone_credinfo_t`. -/
structure Cred where
  uid : UInt32
  euid : UInt32
  gid : UInt32
  egid : UInt32
  isAdmin : UInt32
  sudoCached : UInt32
  sudoPersistent : UInt32
  umask : UInt32
  sudoUntil : UInt64
  sudoTtl : UInt64
  user : List UInt8
  deriving DecidableEq, Repr

/-- `syscall_result_t`. -/
abbrev SysResult : Type := Except VfsStatus Int

/-- What a syscall can see of user memory: the C string at an address, if it can be read up to its
end, and whether a structure can be written there. -/
structure UserStrings where
  cString : UInt64 → Option (List UInt8)
  writable : UInt64 → Bool

/-- `copy_string_arg`. -/
def copyStringArg (mem : UserStrings) (ptr : UInt64) (maxLen : Nat) : Option (List UInt8) :=
  match mem.cString ptr with
  | some s => if s.length < maxLen then some s else none
  | none => none

/-! ### Users and passwords -/

/-- `sys_user_record_t`. -/
structure UserRecord where
  name : List UInt8
  passwordHash : UInt64
  passwordSalt : UInt64
  uid : UInt32
  gid : UInt32
  admin : Bool
  deriving DecidableEq, Repr

def rootName : List UInt8 := ['r', 'o', 'o', 't'].map Char.toUInt8

def rabbitboneName : List UInt8 :=
  ['r', 'a', 'b', 'b', 'i', 't', 'b', 'o', 'n', 'e'].map Char.toUInt8

def guestName : List UInt8 := ['g', 'u', 'e', 's', 't'].map Char.toUInt8

/-- `auth_users`. -/
def authUsers : List UserRecord :=
  [⟨rootName, 0xa76f55511644a5b5, 0x8a1f2b7c4d9e0351, 0, 0, true⟩,
    ⟨rabbitboneName, 0xa781401259e28dea, 0x37c9a4d15e6f802b, 1000, 1000, true⟩,
    ⟨guestName, 0x7aa9ab26b2eae470, 0xb42d791c0e85a6f3, 1001, 1000, false⟩]

/-- `auth_find_user_name`. -/
def authFindUserName (name : List UInt8) : Option UserRecord :=
  if name = [] then none else authUsers.find? fun u => u.name = name

/-- `auth_find_user_uid`. -/
def authFindUserUid (uid : UInt32) : Option UserRecord := authUsers.find? fun u => u.uid = uid

/-- One turn of the loop of `auth_password_hash`, for the byte `i` of the password. -/
def authHashByte (password : List UInt8) (salt h : UInt64) (i : Nat) : UInt64 :=
  let c := password.getD i 0 + (salt >>> UInt64.ofNat (i % 8 * 8)).toUInt8
  let h := (h ^^^ c.toUInt64) * 1099511628211
  h ^^^ (h >>> 32)

/-- `auth_password_hash`. -/
def authPasswordHash (password : List UInt8) (salt : UInt64) : UInt64 :=
  if 64 ≤ password.length then 0
  else
    let h := (1469598103934665603 ^^^ salt ^^^ UInt64.ofNat password.length) * 1099511628211
    let h := (List.range 64).foldl (authHashByte password salt) h
    if h = 0 then 1 else h

/-- `auth_consttime_u64_eq`. -/
def authConsttimeU64Eq (a b : UInt64) : Bool :=
  let diff := a ^^^ b
  let diff := diff ||| diff >>> 32
  let diff := diff ||| diff >>> 16
  let diff := diff ||| diff >>> 8
  let diff := diff ||| diff >>> 4
  let diff := diff ||| diff >>> 2
  let diff := diff ||| diff >>> 1
  diff &&& 1 = 0

/-- `auth_password_ok`. -/
def authPasswordOk (u : Option UserRecord) (password : List UInt8) : Bool :=
  match u with
  | none => false
  | some u =>
    let candidate := authPasswordHash password u.passwordSalt
    candidate ≠ 0 && authConsttimeU64Eq candidate u.passwordHash

/-- `RABBITBONE_SUDO_DEFAULT_TTL_TICKS`. -/
def sudoDefaultTtl : UInt64 := 3000

/-- `RABBITBONE_SUDO_MAX_TTL_TICKS`. -/
def sudoMaxTtl : UInt64 := 60000

/-- `auth_fill_cred`. -/
def authFillCred (u : UserRecord) : Cred where
  uid := u.uid
  euid := u.uid
  gid := u.gid
  egid := u.gid
  isAdmin := if u.admin then 1 else 0
  sudoCached := 0
  sudoPersistent := 0
  umask := 0o22
  sudoUntil := 0
  sudoTtl := sudoDefaultTtl
  user := u.name

/-- `auth_cache_valid`. -/
def authCacheValid (cred : Cred) (now : UInt64) : Bool := now < cred.sudoUntil

/-- `auth_saturating_deadline`. -/
def authSaturatingDeadline (now ttl : UInt64) : UInt64 :=
  if 0xffffffffffffffff - now < ttl then 0xffffffffffffffff else now + ttl

/-! ### The credentials of a process -/

/-- `process_current_credentials`. -/
def processCurrentCredentials (cred : Cred) (now : UInt64) : Cred :=
  { cred with sudoCached := if now < cred.sudoUntil then 1 else 0 }

/-- `process_set_current_euid`. -/
def processSetCurrentEuid (cred : Cred) (euid : UInt32) : Cred :=
  { cred with euid := euid, egid := if euid = 0 then 0 else cred.gid }

/-- `process_init_root_cred`. -/
def processInitRootCred : Cred where
  uid := 0
  euid := 0
  gid := 0
  egid := 0
  isAdmin := 1
  sudoCached := 0
  sudoPersistent := 0
  umask := 0o22
  sudoUntil := 0
  sudoTtl := sudoDefaultTtl
  user := rootName

/-- `process_inherit_cred`, for the process that is running, if any. -/
def processInheritCred (current : Option Cred) : Cred := current.getD processInitRootCred

/-! ### The syscalls -/

/-- `RABBITBONE_CRED_OP_*`. -/
inductive CredOp where
  | get
  | login
  | setUser
  | setEuid
  | userinfo
  deriving DecidableEq, Repr

/-- The operation that the first argument of `rabbitbone_sys_cred` stands for. -/
def CredOp.ofArg (op : UInt64) : Option CredOp :=
  if op = 0 then some .get
  else if op = 1 then some .login
  else if op = 2 then some .setUser
  else if op = 3 then some .setEuid
  else if op = 4 then some .userinfo
  else none

/-- `rabbitbone_sys_cred`: the answer and the credentials behind it. -/
def sysCred (mem : UserStrings) (now : UInt64) (cred : Cred) (op arg0 arg1 value : UInt64) :
    SysResult × Cred :=
  match CredOp.ofArg op with
  | none => (.error .inval, cred)
  | some .get => (if mem.writable arg0 then .ok 0 else .error .inval, cred)
  | some .userinfo =>
    if !mem.writable arg0 then (.error .inval, cred)
    else if authUsers.length ≤ value.toNat then (.error .noent, cred)
    else (.ok 0, cred)
  | some .login =>
    match copyStringArg mem arg0 32, copyStringArg mem arg1 64 with
    | some name, some password =>
      match authFindUserName name with
      | none => (.error .perm, cred)
      | some u =>
        if authPasswordOk (some u) password then (.ok 0, authFillCred u) else (.error .perm, cred)
    | _, _ => (.error .inval, cred)
  | some .setUser =>
    if cred.euid ≠ 0 then (.error .perm, cred)
    else
      match copyStringArg mem arg0 32 with
      | none => (.error .inval, cred)
      | some name =>
        match authFindUserName name with
        | none => (.error .noent, cred)
        | some u => (.ok 0, authFillCred u)
  | some .setEuid =>
    let euid := value.toUInt32
    if 0xffffffff < value then (.error .inval, cred)
    else if cred.euid = 0 ∨ euid = cred.uid ∨
        (euid = 0 ∧ cred.isAdmin ≠ 0 ∧ authCacheValid cred now = true) then
      (.ok 0, processSetCurrentEuid cred euid)
    else (.error .perm, cred)

/-- `RABBITBONE_SUDO_OP_*`. -/
inductive SudoOp where
  | status
  | validate
  | drop
  | invalidate
  | setTimeout
  deriving DecidableEq, Repr

/-- The operation that the first argument of `rabbitbone_sys_sudo` stands for. -/
def SudoOp.ofArg (op : UInt64) : Option SudoOp :=
  if op = 0 then some .status
  else if op = 1 then some .validate
  else if op = 2 then some .drop
  else if op = 3 then some .invalidate
  else if op = 4 then some .setTimeout
  else none

/-- Whether `RABBITBONE_SUDO_OP_VALIDATE` accepts what it is given; `none` if the password cannot be
read. -/
def sudoPassword (mem : UserStrings) (now : UInt64) (cred : Cred) (u : UserRecord)
    (passwordPtr : UInt64) : Option Bool :=
  if passwordPtr = 0 then some (authCacheValid cred now)
  else (copyStringArg mem passwordPtr 64).map (authPasswordOk (some u))

/-- The credentials behind an accepted `RABBITBONE_SUDO_OP_VALIDATE`. -/
def sudoGrant (now : UInt64) (cred : Cred) (flags : UInt32) : Cred :=
  let ttl := if cred.sudoTtl = 0 then sudoDefaultTtl else cred.sudoTtl
  let ttl := if sudoMaxTtl < ttl then sudoMaxTtl else ttl
  let cred := { cred with sudoUntil := authSaturatingDeadline now ttl, sudoCached := 1 }
  let cred := if flags &&& 1 ≠ 0 then { cred with euid := 0, egid := 0 } else cred
  if flags &&& 2 ≠ 0 then { cred with euid := 0, egid := 0, sudoPersistent := 1 } else cred

/-- `rabbitbone_sys_sudo`: the answer and the credentials behind it.  All that is stored is what
`process_current_credentials` returned, with changes. -/
def sysSudo (mem : UserStrings) (now : UInt64) (stored : Cred) (op passwordPtr value : UInt64) :
    SysResult × Cred :=
  let cred := processCurrentCredentials stored now
  if 0xffffffff < op then (.error .inval, stored)
  else
    match authFindUserUid cred.uid with
    | none => (.error .perm, stored)
    | some u =>
      if !u.admin then (.error .perm, stored)
      else
        match SudoOp.ofArg op with
        | none => (.error .inval, stored)
        | some .status => (.ok (if authCacheValid cred now then 1 else 0), stored)
        | some .drop =>
          (.ok 0, { cred with euid := cred.uid, egid := cred.gid, sudoPersistent := 0 })
        | some .invalidate =>
          (.ok 0, { cred with
            euid := cred.uid, egid := cred.gid, sudoUntil := 0, sudoPersistent := 0 })
        | some .setTimeout =>
          if sudoMaxTtl < value then (.error .inval, stored)
          else (.ok 0, { cred with sudoTtl := value })
        | some .validate =>
          let flags := value.toUInt32
          if 0xffffffff < value ∨ flags &&& ~~~3 ≠ 0 then (.error .inval, stored)
          else
            match sudoPassword mem now cred u passwordPtr with
            | none => (.error .inval, stored)
            | some false => (.error .perm, stored)
            | some true => (.ok 0, sudoGrant now cred flags)

/-! ### Processes -/

/-- The processes of the system, by their numbers, with their credentials, and the tick counter. -/
structure AuthState where
  now : UInt64
  procs : Nat → Option Cred

/-- A syscall that is about credentials or hands them on.  `child` is the number that
`alloc_user_pid` returns. -/
inductive AuthCall where
  | sysCred (op arg0 arg1 value : UInt64)
  | sysSudo (op passwordPtr value : UInt64)
  | fork (child : Nat)
  | exec
  | spawn (child : Nat)
  | exit
  deriving DecidableEq, Repr

/-- Store the credentials of a process. -/
def AuthState.setCred (s : AuthState) (pid : Nat) (cred : Option Cred) : AuthState :=
  { s with procs := fun i => if i = pid then cred else s.procs i }

/-- Add a process, unless its number is in use. -/
def AuthState.create (s : AuthState) (child : Nat) (cred : Cred) : AuthState :=
  if s.procs child = none then s.setCred child (some cred) else s

/-- The process `pid` makes a call.  `clone_current_address_space` and
`prepare_exec_replacement_env` copy the credentials as they are. -/
def AuthState.call (s : AuthState) (mem : UserStrings) (pid : Nat) (c : AuthCall) : AuthState :=
  match s.procs pid with
  | none => s
  | some cred =>
    match c with
    | .sysCred op arg0 arg1 value =>
      s.setCred pid (some (sysCred mem s.now cred op arg0 arg1 value).2)
    | .sysSudo op passwordPtr value =>
      s.setCred pid (some (sysSudo mem s.now cred op passwordPtr value).2)
    | .fork child => s.create child cred
    | .exec => s.setCred pid (some cred)
    | .spawn child => s.create child (processInheritCred (some cred))
    | .exit => s.setCred pid none

end Rabbitbone.Native.Sys
