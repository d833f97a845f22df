import Rabbitbone.Native.Path

/-!
# The nodes of the RAM file system

Model of `kernel/vfs/ramfs/nodes.inc` and `kernel/vfs/ramfs/path_resolution.inc` over a heap of
directory entries (`ramfs_node_t`) and objects (`ramfs_object_t`).  Pointers are numbers; a freed
or never allocated cell reads as `none`, and new cells get numbers that were never used.

A function that walks pointers returns in `Option`: `none` stands for a walk that does not end (the
list is cyclic) or that reads a freed cell.  A walk over the sibling or parent pointers of `nodeTop`
cells ends within `nodeTop` steps or not at all, which is the fuel such walks get.
-/

namespace Rabbitbone.Native

open Native.Path

/-- `vfs_status_t`. -/
inductive VfsStatus where
  | ok
  | noent
  | nomem
  | inval
  | io
  | notdir
  | isdir
  | exist
  | perm
  | nospc
  | notempty
  | unsupported
  | busy
  deriving DecidableEq, Repr

/-- `vfs_node_type_t`. -/
inductive NodeType where
  | file
  | dir
  | dev
  | symlink
  deriving DecidableEq, Repr

abbrev NodeId := Nat
abbrev ObjId := Nat

/-- `ramfs_object_t`.  `data` is the buffer of `capacity` bytes, empty for a null pointer. -/
structure RamfsObject where
  type : NodeType
  inode : UInt32
  mode : UInt32
  nlink : UInt32
  uid : UInt32
  gid : UInt32
  data : List UInt8
  size : Nat
  capacity : Nat
  children : Option NodeId
  deriving DecidableEq, Repr

/-- `ramfs_node_t`. -/
structure RamfsNode where
  name : List UInt8
  obj : ObjId
  parent : Option NodeId
  next : Option NodeId
  deriving DecidableEq, Repr

/-- `ramfs_t` with the heap it points into.  `kmem` holds the answers of the coming `kmalloc` and
`kcalloc` calls (`false` for a failure), success once it is used up. -/
structure Ramfs where
  root : NodeId
  nextInode : UInt32
  nodeCount : Nat
  maxNodes : Nat
  bytesUsed : Nat
  maxBytes : Nat
  nodes : NodeId → Option RamfsNode
  objs : ObjId → Option RamfsObject
  nodeTop : Nat
  objTop : Nat
  kmem : List Bool

/-- `RAMFS_MAX_FILE_SIZE`. -/
def maxFileSize : Nat := 16 * 1024 * 1024

/-- `RAMFS_MAX_TOTAL_BYTES`. -/
def maxTotalBytes : Nat := 64 * 1024 * 1024

/-- `RAMFS_MAX_NODES`. -/
def maxNodesDefault : Nat := 16384

/-- `RAMFS_SYMLINK_MAX_DEPTH`. -/
def symlinkMaxDepth : Nat := 16

namespace Ramfs

/-- Write the fields of a node. -/
def setNode (fs : Ramfs) (n : NodeId) (f : RamfsNode → RamfsNode) : Ramfs :=
  { fs with nodes := fun m => if m = n then (fs.nodes m).map f else fs.nodes m }

/-- Write the fields of an object. -/
def setObj (fs : Ramfs) (o : ObjId) (f : RamfsObject → RamfsObject) : Ramfs :=
  { fs with objs := fun m => if m = o then (fs.objs m).map f else fs.objs m }

/-- The answer of the next `kmalloc`. -/
def kmalloc (fs : Ramfs) : Bool × Ramfs :=
  match fs.kmem with
  | [] => (true, fs)
  | b :: bs => (b, { fs with kmem := bs })

/-- `node_type`. -/
def nodeType (fs : Ramfs) (n : NodeId) : Option NodeType := do
  let nd ← fs.nodes n
  let o ← fs.objs nd.obj
  some o.type

/-- `ramfs_can_add_bytes`. -/
def canAddBytes (fs : Ramfs) (add : Nat) : Bool :=
  let max := if fs.maxBytes ≠ 0 then fs.maxBytes else maxTotalBytes
  add ≤ max && fs.bytesUsed ≤ max - add

/-! ### Children lists -/

/-- The loop of `find_child`. -/
def findChildFrom (fs : Ramfs) (name : List UInt8) : Nat → Option NodeId → Option (Option NodeId)
  | _, none => some none
  | 0, some _ => none
  | fuel + 1, some c => do
    let nd ← fs.nodes c
    if nd.name = name then some (some c) else findChildFrom fs name fuel nd.next

/-- `find_child`. -/
def findChild (fs : Ramfs) (dir : NodeId) (name : List UInt8) : Option (Option NodeId) := do
  let nd ← fs.nodes dir
  let o ← fs.objs nd.obj
  if o.type = .dir then findChildFrom fs name (fs.nodeTop + 1) o.children else some none

/-- `attach_child`. -/
def attachChild (fs : Ramfs) (dir child : NodeId) : Option Ramfs := do
  let nd ← fs.nodes dir
  let o ← fs.objs nd.obj
  let fs := fs.setNode child fun nd => { nd with parent := some dir, next := o.children }
  some (fs.setObj nd.obj fun o => { o with children := some child })

/-- `object_free`. -/
def objectFree (fs : Ramfs) (obj : ObjId) (o : RamfsObject) : Ramfs :=
  let used :=
    if o.data ≠ [] then (if o.capacity ≤ fs.bytesUsed then fs.bytesUsed - o.capacity else 0)
    else fs.bytesUsed
  { fs with bytesUsed := used, objs := fun m => if m = obj then none else fs.objs m }

/-- The loop of `free_dentry` over the children of a directory. -/
def freeChildren (free : Ramfs → NodeId → Option Ramfs) :
    Nat → Ramfs → Option NodeId → Option Ramfs
  | _, fs, none => some fs
  | 0, _, some _ => none
  | fuel + 1, fs, some c => do
    let nd ← fs.nodes c
    let fs ← free fs c
    freeChildren free fuel fs nd.next

/-- `free_dentry`; the fuel bounds the depth of the tree below the entry. -/
def freeDentry : Nat → Ramfs → NodeId → Option Ramfs
  | 0, _, _ => none
  | fuel + 1, fs, n => do
    let nd ← fs.nodes n
    let o ← fs.objs nd.obj
    let fs ←
      if o.type = .dir then do
        let fs ← freeChildren (freeDentry fuel) (fs.nodeTop + 1) fs o.children
        some (fs.objectFree nd.obj o)
      else
        let nlink := if 0 < o.nlink then o.nlink - 1 else o.nlink
        if nlink = 0 then some (fs.objectFree nd.obj o)
        else some (fs.setObj nd.obj fun o => { o with nlink := nlink })
    some { fs with
      nodeCount := fs.nodeCount - 1
      nodes := fun m => if m = n then none else fs.nodes m }

/-! ### Path resolution -/

/-- `str_append` on a buffer of `cap` bytes. -/
def strAppend (dst : List UInt8) (cap : Nat) (src : List UInt8) : Option (List UInt8) :=
  if cap = 0 || cap ≤ dst.length || cap - dst.length ≤ src.length then none else some (dst ++ src)

/-- `str_set_join` of up to three strings. -/
def strSetJoin (cap : Nat) (parts : List (List UInt8)) : Option (List UInt8) :=
  if cap = 0 then none else parts.foldlM (fun dst src => strAppend dst cap src) []

/-- `compose_symlink_path`. -/
def composeSymlinkPath (baseDir target remaining : List UInt8) : Option (List UInt8) :=
  if target = [] then none
  else do
    let tmp ←
      if target.headD 0 = slash then some (target.take (pathMax - 1))
      else
        let base := if baseDir ≠ [] then baseDir else [slash]
        if base = [slash] then strSetJoin pathMax [[slash], target]
        else strSetJoin pathMax [base, [slash], target]
    let tmp ←
      if remaining ≠ [] then
        if pathMax ≤ tmp.length + 1 + remaining.length then none
        else do
          let tmp ← if tmp = [] || tmp.getLastD 0 ≠ slash then strAppend tmp pathMax [slash]
            else some tmp
          strAppend tmp pathMax remaining
      else some tmp
    pathNormalize tmp pathMax

/-- What one pass over the components of a path ends in: a node or nothing, or the path to go on
with after a symbolic link. -/
inductive WalkEnd where
  | done (n : Option NodeId)
  | link (path : List UInt8)
  deriving DecidableEq, Repr

/-- The component loop of `resolve_inner`.  Each round consumes a byte of the cursor. -/
def walkComponents (fs : Ramfs) (followFinal : Bool) :
    Nat → (cursor : List UInt8) → (cur : NodeId) → (curPath : List UInt8) → Option WalkEnd
  | 0, _, cur, _ => some (.done (some cur))
  | fuel + 1, cursor, cur, curPath =>
    match pathNextComponent cursor nameMax with
    | none => some (.done (some cur))
    | some (comp, cursor) => do
      match ← fs.findChild cur comp with
      | none => some (.done none)
      | some next =>
        let nd ← fs.nodes next
        let o ← fs.objs nd.obj
        if o.type = .symlink && (followFinal || cursor ≠ []) then
          if pathMax ≤ o.size then some (.done none)
          else
            let target := (o.data.take o.size).takeWhile (· != 0)
            match composeSymlinkPath curPath target cursor with
            | none => some (.done none)
            | some combined => some (.link combined)
        else
          let curPath := if curPath ≠ [slash] then strAppend curPath pathMax [slash]
            else some curPath
          match curPath.bind fun p => strAppend p pathMax comp with
          | none => some (.done none)
          | some curPath => walkComponents fs followFinal fuel cursor next curPath

/-- `resolve_inner`; the fuel is `RAMFS_SYMLINK_MAX_DEPTH - depth`. -/
def resolveInner (fs : Ramfs) (followFinal : Bool) : Nat → List UInt8 → Option (Option NodeId)
  | 0, _ => some none
  | fuel + 1, path =>
    match pathNormalize path pathMax with
    | none => some none
    | some norm =>
      if norm = [slash] then some (some fs.root)
      else do
        match ← walkComponents fs followFinal norm.length norm fs.root [slash] with
        | .done n => some n
        | .link combined => resolveInner fs followFinal fuel combined

/-- `resolve`. -/
def resolve (fs : Ramfs) (path : List UInt8) : Option (Option NodeId) :=
  fs.resolveInner true symlinkMaxDepth path

/-- The lines of `resolve_parent` before the lookup: the path of the parent and the name. -/
def splitParent (path : List UInt8) : Except VfsStatus (List UInt8 × List UInt8) :=
  match pathNormalize path pathMax with
  | none => .error .inval
  | some norm =>
    if norm = [slash] then .error .inval
    else
      let base := pathBasename norm
      let leaf := norm.drop base
      let parentLen := if base = 0 then 1 else base
      if leaf = [] || nameMax ≤ leaf.length || pathMax ≤ parentLen then .error .inval
      else
        let parentPath := norm.take parentLen
        if 1 < parentLen && parentPath.getLastD 0 = slash then .ok (parentPath.dropLast, leaf)
        else .ok (parentPath, leaf)

/-- `resolve_parent`: the directory a path names an entry of, and the name. -/
def resolveParent (fs : Ramfs) (path : List UInt8) :
    Option (Except VfsStatus (NodeId × List UInt8)) :=
  match splitParent path with
  | .error st => some (.error st)
  | .ok (parentPath, leaf) => do
    match ← fs.resolve parentPath with
    | none => some (.error .noent)
    | some parent =>
      let type ← fs.nodeType parent
      if type ≠ .dir then some (.error .notdir) else some (.ok (parent, leaf))

end Ramfs

end Rabbitbone.Native
