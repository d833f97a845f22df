import Rabbitbone.Native.Ramfs.Node

/-!
# Renaming in the RAM file system

Model of `op_rename` of `kernel/vfs/ramfs/rename_mount.inc`, and of `stat_node`.  The operation
takes the lock for its whole body, so it is one step on the state: the result is the status and the
state left behind, `none` when the call does not return (see `Rabbitbone.Native.Ramfs.Node`).
-/

namespace Rabbitbone.Native

open Native.Path

namespace Ramfs

/-! ### Attributes -/

/-- `vfs_stat_t` as `stat_node` fills it, without `fs_id`. -/
structure Stat where
  type : NodeType
  size : Nat
  mode : UInt32
  inode : UInt32
  nlink : UInt32
  uid : UInt32
  gid : UInt32
  deriving DecidableEq, Repr

/-- `stat_node`. -/
def statNode (fs : Ramfs) (n : NodeId) : Option Stat := do
  let nd ← fs.nodes n
  let o ← fs.objs nd.obj
  some ⟨o.type, o.size, o.mode, o.inode, o.nlink, o.uid, o.gid⟩

/-! ### Removing entries -/

/-- The search both `op_unlink` and `op_rename` make in a children list: the entry called `name`
and the entry before it. -/
def findWithPrev (fs : Ramfs) (name : List UInt8) :
    Nat → (prev cur : Option NodeId) → Option (Option NodeId × Option NodeId)
  | _, prev, none => some (prev, none)
  | 0, _, some _ => none
  | fuel + 1, prev, some c => do
    let nd ← fs.nodes c
    if nd.name = name then some (prev, some c) else findWithPrev fs name fuel (some c) nd.next

/-- `if (prev) prev->next = next; else dir->obj->children = next`. -/
def relink (fs : Ramfs) (dirObj : ObjId) (prev next : Option NodeId) : Ramfs :=
  match prev with
  | some p => fs.setNode p fun nd => { nd with next := next }
  | none => fs.setObj dirObj fun o => { o with children := next }

/-- Take the entry `n` of type `type` behind `prev` out of the directory `dirObj` and free it. -/
def removeEntry (fs : Ramfs) (dirObj : ObjId) (prev : Option NodeId) (n : NodeId)
    (type : NodeType) : Option Ramfs := do
  let nd ← fs.nodes n
  let fs := fs.relink dirObj prev nd.next
  let fs := if type = .dir then
      fs.setObj dirObj fun o => { o with nlink := if 0 < o.nlink then o.nlink - 1 else o.nlink }
    else fs
  let fs := fs.setNode n fun nd => { nd with next := none }
  freeDentry (fs.nodeTop + 1) fs n

/-! ### Renaming -/

/-- The loop of `node_is_ancestor`. -/
def nodeIsAncestor (fs : Ramfs) (ancestor : NodeId) : Nat → Option NodeId → Option Bool
  | _, none => some false
  | 0, some _ => none
  | fuel + 1, some p =>
    if p = ancestor then some true
    else do
      let nd ← fs.nodes p
      nodeIsAncestor fs ancestor fuel nd.parent

/-- `node_type(n) == VFS_NODE_DIR && node_is_ancestor(n, new_parent)`. -/
def movesIntoSelf (fs : Ramfs) (n : NodeId) (nType : NodeType) (newParent : NodeId) : Option Bool :=
  if nType = .dir then fs.nodeIsAncestor n (fs.nodeTop + 1) (some newParent) else some false

/-- The lines of `op_rename` behind the replaced entry: take `n` out behind `prev` and attach it
under its new name. -/
def moveEntry (fs : Ramfs) (oldParent : NodeId) (prev : Option NodeId) (n newParent : NodeId)
    (newLeaf : List UInt8) (isDir : Bool) : Option Ramfs := do
  let nd ← fs.nodes n
  let oldNd ← fs.nodes oldParent
  let newNd ← fs.nodes newParent
  let fs := fs.relink oldNd.obj prev nd.next
  let fs := if isDir && oldParent ≠ newParent then
      let fs := fs.setObj oldNd.obj fun o =>
        { o with nlink := if 0 < o.nlink then o.nlink - 1 else o.nlink }
      fs.setObj newNd.obj fun o => { o with nlink := o.nlink + 1 }
    else fs
  let fs := fs.setNode n fun nd => { nd with next := none, name := newLeaf.take (nameMax - 1) }
  fs.attachChild newParent n

/-- `op_rename` behind the resolution of the two parents. -/
def renameEntry (fs : Ramfs) (oldParent : NodeId) (oldLeaf : List UInt8) (newParent : NodeId)
    (newLeaf : List UInt8) : Option (VfsStatus × Ramfs) := do
  let oldNd ← fs.nodes oldParent
  let oldObj ← fs.objs oldNd.obj
  let newNd ← fs.nodes newParent
  let newObj ← fs.objs newNd.obj
  match ← fs.findWithPrev oldLeaf (fs.nodeTop + 1) none oldObj.children with
  | (_, none) => some (.noent, fs)
  | (prev, some n) =>
    let nType ← fs.nodeType n
    let inside ← fs.movesIntoSelf n nType newParent
    if inside then some (.inval, fs)
    else
      match ← fs.findWithPrev newLeaf (fs.nodeTop + 1) none newObj.children with
      | (_, none) =>
        if nType = .dir && oldParent ≠ newParent && newObj.nlink = 0xffffffff then
          some (.nospc, fs)
        else do some (.ok, ← fs.moveEntry oldParent prev n newParent newLeaf (nType = .dir))
      | (dstPrev, some dst) =>
        if dst = n then some (.ok, fs)
        else
          let dstNd ← fs.nodes dst
          let dstObj ← fs.objs dstNd.obj
          if nType = .dir && oldParent ≠ newParent && dstObj.type ≠ .dir &&
              newObj.nlink = 0xffffffff then some (.nospc, fs)
          else if dstObj.type ≠ nType then some (.exist, fs)
          else if dstObj.type = .dir && dstObj.children.isSome then some (.notempty, fs)
          else
            let fs ← fs.removeEntry newNd.obj dstPrev dst dstObj.type
            do some (.ok, ← fs.moveEntry oldParent prev n newParent newLeaf (nType = .dir))

/-- `op_rename`. -/
def opRename (fs : Ramfs) (oldPath newPath : List UInt8) : Option (VfsStatus × Ramfs) := do
  match ← fs.resolveParent oldPath with
  | .error st => some (st, fs)
  | .ok (oldParent, oldLeaf) =>
    match ← fs.resolveParent newPath with
    | .error st => some (st, fs)
    | .ok (newParent, newLeaf) => fs.renameEntry oldParent oldLeaf newParent newLeaf

end Ramfs

end Rabbitbone.Native
