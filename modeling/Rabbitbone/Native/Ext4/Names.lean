import Rabbitbone.Native.Ext4.Volume
import Rabbitbone.Native.Path

/-!
# The names of a volume

Model of `kernel/fs/ext4/lookup_symlink.inc` and of the directory operations of
`kernel/fs/ext4/directory_entry_mutation.inc` and `rename_ops.inc`, as the functions see them that
create, link, remove and rename files.

A directory is the list of its entries and an inode the fields that these functions read and write;
where the entries, the file contents and the inodes are stored is not looked at.  What can go wrong
below, from a failed write to a directory without room, is an input: `Faults` says at which point of
the code a step fails, and whether it was done although it reports an error, as a step is whose own
undoing has failed as well.
-/

namespace Rabbitbone.Native.Ext4

open FallibleState Native.Path

/-! ### State -/

/-- The fields of `ext4_inode_disk_t` that the name code reads and writes. -/
structure NameInode where
  mode : UInt16
  links : UInt16
  dtime : Nat
  deriving DecidableEq, Repr

namespace NameInode

/-- An inode after `memset(.., 0, ..)`. -/
def zero : NameInode := ⟨0, 0, 0⟩

/-- `ext4_inode_is_dir`. -/
def isDir (inode : NameInode) : Bool := inode.mode &&& 0xf000 = 0x4000

/-- `ext4_inode_is_regular`. -/
def isRegular (inode : NameInode) : Bool := inode.mode &&& 0xf000 = 0x8000

/-- `ext4_inode_is_symlink`. -/
def isSymlink (inode : NameInode) : Bool := inode.mode &&& 0xf000 = 0xa000

/-- `ext4_links_inc_checked`. -/
def linksIncChecked (inode : NameInode) : Option NameInode :=
  if inode.links = 0xffff then none else some { inode with links := inode.links + 1 }

/-- `ext4_links_dec_checked`. -/
def linksDecChecked (inode : NameInode) : Option NameInode :=
  if inode.links = 0 then none else some { inode with links := inode.links - 1 }

end NameInode

/-- `ext4_dirent_t`. -/
structure DirEntry where
  name : List UInt8
  ino : Nat
  type : UInt8
  deriving DecidableEq, Repr

/-- The names and inodes of a volume: the inode table and bitmap, the entries of the directories,
the targets of the symbolic links and the head of the orphan list. -/
structure NameFs where
  inodesCount : Nat
  firstIno : Nat
  inodes : Nat → NameInode
  used : Nat → Bool
  dirs : Nat → List DirEntry
  targets : Nat → List UInt8
  lastOrphan : Nat

/-- A function on the names of a volume. -/
abbrev NameM (α : Type) : Type := FallibleState NameFs Ext4Status α

/-- `EXT4_ROOT_INO`. -/
def rootIno : Nat := 2

/-- `EXT4_NAME_LEN`. -/
def nameLen : Nat := 255

namespace NameFs

/-- Replace an inode. -/
def setInode (t : NameFs) (ino : Nat) (inode : NameInode) : NameFs :=
  { t with inodes := Function.update t.inodes ino inode }

/-- Replace the entries of a directory. -/
def setDir (t : NameFs) (ino : Nat) (entries : List DirEntry) : NameFs :=
  { t with dirs := Function.update t.dirs ino entries }

/-- Replace the target of a symbolic link. -/
def setTarget (t : NameFs) (ino : Nat) (target : List UInt8) : NameFs :=
  { t with targets := Function.update t.targets ino target }

/-- Replace a bit of the inode bitmap. -/
def setUsed (t : NameFs) (ino : Nat) (used : Bool) : NameFs :=
  { t with used := Function.update t.used ino used }

end NameFs

/-! ### Failures -/

/-- The points at which a step may fail, each in the order of the code. -/
inductive Point where
  | lookup
  | lookupNew
  | find
  | readInode
  | findNew
  | readTarget
  | listDir
  | allocInode
  | mapBlock
  | writeBlock
  | writeInode
  | replaceEntry
  | addEntry
  | removeEntry
  | writeParent
  | writeNewParent
  | dotdot
  | writeData
  | dropLink
  | pushInode
  | pushSuper
  | freeBlocks
  | zeroInode
  | freeInode
  | orphanRead (turn : Nat)
  | orphanReadPrev
  | orphanUnlink
  | orphanClear
  | undoParent
  | undoNewParent
  | undoTarget
  | undoInode
  | undoEntry
  | undoNewEntry
  | undoBlocks
  | undoAlloc
  deriving DecidableEq, Repr

/-- A step that reports an error; `done` if it has had its effect all the same. -/
structure Fault where
  status : Ext4Status
  done : Bool
  deriving DecidableEq, Repr

/-- Which steps of a call fail. -/
abbrev Faults := Point → Option Fault

/-- A step that may fail. -/
def step {α : Type} (F : Faults) (p : Point) (x : NameM α) : NameM α :=
  match F p with
  | none => x
  | some ⟨e, false⟩ => fail e
  | some ⟨e, true⟩ => do
    let _ ← x
    fail e

/-- `(void)x`. -/
def ignore {α : Type} (x : NameM α) : NameM Unit := do
  let _ ← attempt x
  pure ()

/-! ### Names and paths -/

/-- `ext4_name_is_dot_or_dotdot_len`. -/
def nameIsDot (name : List UInt8) : Bool := name = [dot] || name = [dot, dot]

/-- `ext4_name_byte_allowed`. -/
def nameByteAllowed (c : UInt8) : Bool := 0x20 ≤ c && c != 0x7f && c != slash && c != 0x5c

/-- `ext4_name_bytes_valid`, `ext4_name_cstr_valid`. -/
def nameValid (name : List UInt8) (allowDot : Bool) : Bool :=
  name.length ≠ 0 && name.length ≤ nameLen && (allowDot || !nameIsDot name) &&
    name.all nameByteAllowed

/-- `ext4_symlink_target_valid`. -/
def symlinkTargetValid (target : List UInt8) : Bool :=
  target.length ≠ 0 && target.length < pathMax &&
    target.all fun c => 0x20 ≤ c && c != 0x7f && c != 0x5c

/-- `split_parent_path`: the path of the parent and the name in it. -/
def splitParentPath (path : List UInt8) : Option (List UInt8 × List UInt8) :=
  if path.headD 0 ≠ slash ∨ pathMax ≤ path.length then none
  else
    let path := path.rdropWhile (· == slash)
    let name := path.rtakeWhile (· != slash)
    let parent := path.rdropWhile (· != slash)
    if !nameValid name false then none
    else some (if parent.length ≤ 1 then [slash] else parent.dropLast, name)

/-- `ext4_str_append`, into a buffer of `VFS_PATH_MAX` bytes. -/
def strAppend (dst src : List UInt8) : Option (List UInt8) :=
  if pathMax ≤ dst.length + src.length then none else some (dst ++ src)

/-- What a link is relative to: nothing, or the directory it is in. -/
def symlinkBase (base target : List UInt8) : Option (List UInt8) :=
  if target.headD 0 = slash then some []
  else if base = [] ∨ base = [slash] then some [slash]
  else strAppend base [slash]

/-- The rest of a path behind the target of a link. -/
def symlinkRest (path remaining : List UInt8) : Option (List UInt8) :=
  if remaining = [] then some path
  else if path.getLastD 0 = slash then strAppend path remaining
  else (strAppend path [slash]).bind fun path => strAppend path remaining

/-- `ext4_compose_symlink_path`. -/
def composeSymlinkPath (base target remaining : List UInt8) : Option (List UInt8) := do
  if target = [] then none
  let path ← symlinkBase base target
  let path ← strAppend path target
  let path ← symlinkRest path remaining
  pathNormalize path pathMax

/-! ### Looking up -/

/-- `ext4_find_in_dir`. -/
def findInDir (t : NameFs) (ino : Nat) (dir : NameInode) (name : List UInt8) :
    Except Ext4Status DirEntry :=
  if !nameValid name true then .error .range
  else if !dir.isDir then .error .notDir
  else
    match (t.dirs ino).find? fun e => e.name = name with
    | none => .error .notFound
    | some e => .ok e

/-- `ext4_read_inode`. -/
def readNameInode (t : NameFs) (ino : Nat) : Except Ext4Status NameInode :=
  if ino = 0 ∨ t.inodesCount < ino then .error .range else .ok (t.inodes ino)

/-- The path of a component for the links in it. -/
def curPathAppend (curPath comp : List UInt8) : Option (List UInt8) := do
  let path ← if curPath = [slash] then some curPath else strAppend curPath [slash]
  strAppend path comp

/-- The path to look up in place of a link, with what is left of the path behind it. -/
def followSymlink (t : NameFs) (ino : Nat) (curPath cursor : List UInt8) :
    Except Ext4Status (List UInt8) :=
  let target := t.targets ino
  if pathMax - 1 < target.length then .error .range
  else if !symlinkTargetValid target then .error .range
  else
    match composeSymlinkPath curPath target cursor with
    | none => .error .range
    | some path => .ok path

/-- The loop of `ext4_lookup_path_ex`, in the directory `cur`; `again` looks up the path that a link
is replaced by. -/
def lookupLoop (t : NameFs) (followFinal : Bool) (again : List UInt8 → Except Ext4Status Nat) :
    Nat → List UInt8 → Nat → List UInt8 → Except Ext4Status Nat
  | 0, _, cur, _ => .ok cur
  | fuel + 1, cursor, cur, curPath =>
    match pathNextComponent cursor (nameLen + 1) with
    | none => .ok cur
    | some (comp, cursor) =>
      if comp = [dot] then lookupLoop t followFinal again fuel cursor cur curPath
      else
        match findInDir t cur (t.inodes cur) comp with
        | .error e => .error e
        | .ok entry =>
          match readNameInode t entry.ino with
          | .error e => .error e
          | .ok next =>
            if next.isSymlink ∧ (followFinal ∨ cursor ≠ []) then
              match followSymlink t entry.ino curPath cursor with
              | .error e => .error e
              | .ok path => again path
            else
              match curPathAppend curPath comp with
              | none => .error .range
              | some curPath => lookupLoop t followFinal again fuel cursor entry.ino curPath

/-- `ext4_lookup_path_ex`, with `depth` links left to follow.  Every turn of the loop consumes a
byte of the path. -/
def lookupPathEx (t : NameFs) (followFinal : Bool) : Nat → List UInt8 → Except Ext4Status Nat
  | 0, _ => .error .range
  | depth + 1, path =>
    match pathNormalize path pathMax with
    | none => .error .range
    | some norm =>
      match readNameInode t rootIno with
      | .error e => .error e
      | .ok _ =>
        if norm = [slash] then .ok rootIno
        else lookupLoop t followFinal (lookupPathEx t followFinal depth)
          (norm.length + 1) norm rootIno
          [slash]

/-- `ext4_lookup_path`. -/
def ext4LookupPath (t : NameFs) (path : List UInt8) : Except Ext4Status Nat :=
  lookupPathEx t true 16 path

/-- `ext4_lstat_path`. -/
def ext4LstatPath (t : NameFs) (path : List UInt8) : Except Ext4Status Nat :=
  lookupPathEx t false 16 path

/-- A step that reads only.  When it fails, it is not because something was not found. -/
def readStep {α : Type} (F : Faults) (p : Point) (f : NameFs → Except Ext4Status α) : NameM α :=
  match F p with
  | none => ⟨fun t => (f t, t)⟩
  | some fault => fail (if fault.status = .notFound then .io else fault.status)

/-! ### Inodes -/

/-- `write_inode`. -/
def nameWriteInode (ino : Nat) (inode : NameInode) : NameM Unit := do
  let t ← get
  require (ino ≠ 0 ∧ ino ≤ t.inodesCount) .range
  modify fun t => t.setInode ino inode

/-- The first inode from `ino` on that is free, with `count` turns left. -/
def firstFree (used : Nat → Bool) : Nat → Nat → Option Nat
  | 0, _ => none
  | count + 1, ino => if used ino then firstFree used count (ino + 1) else some ino

/-- `alloc_inode`. -/
def nameAllocInode : NameM Nat := do
  let t ← get
  let first := if t.firstIno = 0 then 11 else t.firstIno
  let ino ← ofOption (firstFree t.used (t.inodesCount + 1 - first) first) .noMemory
  modify fun t => t.setUsed ino true
  pure ino

/-- `free_inode`. -/
def nameFreeInode (ino : Nat) : NameM Unit := do
  let t ← get
  require (ino ≠ 0 ∧ ino ≤ t.inodesCount) .range
  require (t.used ino = true) .corrupt
  modify fun t => t.setUsed ino false

/-! ### Directories -/

/-- Whether `ext4_list_dir` with `dir_is_empty_cb` finds no name. -/
def dirIsEmpty (t : NameFs) (ino : Nat) (dir : NameInode) : Except Ext4Status Bool :=
  if !dir.isDir then .error .notDir
  else .ok ((t.dirs ino).all fun e => nameIsDot e.name)

/-- `dir_add_entry`. -/
def dirAddEntry (ino : Nat) (dir : NameInode) (name : List UInt8) (child : Nat) (type : UInt8) :
    NameM Unit := do
  require (dir.isDir = true) .notDir
  require (nameValid name false = true) .range
  modify fun t => t.setDir ino (t.dirs ino ++ [⟨name, child, type⟩])
  nameWriteInode ino dir

/-- The entries without the first one of the name. -/
def eraseName (entries : List DirEntry) (name : List UInt8) : List DirEntry :=
  entries.eraseP fun e => e.name = name

/-- `dir_remove_entry`. -/
def dirRemoveEntry (ino : Nat) (dir : NameInode) (name : List UInt8) : NameM Unit := do
  require (nameValid name false = true) .range
  let t ← get
  require ((t.dirs ino).any (fun e => e.name = name) = true) .notFound
  modify fun t => t.setDir ino (eraseName (t.dirs ino) name)
  nameWriteInode ino dir

/-- The entries with another inode under the name. -/
def replaceName (name : List UInt8) (child : Nat) (type : UInt8) : List DirEntry → List DirEntry
  | [] => []
  | e :: entries =>
    if e.name = name then { e with ino := child, type := type } :: entries
    else e :: replaceName name child type entries

/-- `dir_replace_entry`: the entry as it was. -/
def dirReplaceEntry (ino : Nat) (dir : NameInode) (name : List UInt8) (child : Nat) (type : UInt8) :
    NameM DirEntry := do
  require (nameValid name false = true) .range
  let t ← get
  let old ← ofOption ((t.dirs ino).find? fun e => e.name = name) .notFound
  modify fun t => t.setDir ino (replaceName name child type (t.dirs ino))
  nameWriteInode ino dir
  pure old

/-- The entries with another parent. -/
def replaceDotdot (parent : Nat) : List DirEntry → List DirEntry
  | [] => []
  | e :: entries =>
    if e.name = [dot, dot] then { e with ino := parent } :: entries
    else e :: replaceDotdot parent entries

/-- `dir_update_dotdot`. -/
def dirUpdateDotdot (ino : Nat) (dir : NameInode) (parent : Nat) : NameM Unit := do
  require (dir.isDir = true) .notDir
  let t ← get
  require ((t.dirs ino).any (fun e => e.name = [dot, dot]) = true) .corrupt
  modify fun t => t.setDir ino (replaceDotdot parent (t.dirs ino))

end Rabbitbone.Native.Ext4
