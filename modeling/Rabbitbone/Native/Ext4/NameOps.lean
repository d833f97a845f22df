import Rabbitbone.Native.Ext4.Names

/-!
# Creating, linking, removing and renaming

Model of `kernel/fs/ext4/node_create.inc`, `link_unlink.inc` and of `ext4_rename`, with the steps
that undo a call which fails halfway.  Inodes are passed around as copies, as in the code: a
directory operation stores the copy of the directory's inode that it is given.
-/

namespace Rabbitbone.Native.Ext4

open FallibleState Native.Path

/-- Where a new name goes. -/
structure Place where
  parentIno : Nat
  parent : NameInode
  name : List UInt8

/-- The parent of a path that does not exist yet, and the name in it. -/
def newPlace (F : Faults) (atLookup atFind : Point) (path : List UInt8) : NameM Place := do
  let (parentPath, name) ← ofOption (splitParentPath path) .range
  let parentIno ← readStep F atLookup fun t => ext4LookupPath t parentPath
  let t ← get
  let parent := t.inodes parentIno
  require (parent.isDir = true) .notDir
  match ← attempt (readStep F atFind fun t => findInDir t parentIno parent name) with
  | .ok _ => fail .exist
  | .error .notFound => pure ⟨parentIno, parent, name⟩
  | .error e => fail e

/-! ### Creating -/

/-- The entries of a new directory. -/
def newDirEntries (ino parentIno : Nat) : List DirEntry :=
  [⟨[dot], ino, 2⟩, ⟨[dot, dot], parentIno, 2⟩]

/-- The inode that `create_node` makes. -/
def newInode (dir : Bool) : NameInode := if dir then ⟨0x41ed, 2, 0⟩ else ⟨0x81a4, 1, 0⟩

/-- The block of a new directory. -/
def createBlock (F : Faults) (dir : Bool) (ino parentIno : Nat) : NameM Unit :=
  if dir then do
    step F .mapBlock (pure ())
    step F .writeBlock (modify fun t => t.setDir ino (newDirEntries ino parentIno))
  else pure ()

/-- Store the inode and enter its name. -/
def createLink (F : Faults) (place : Place) (ino : Nat) (inode : NameInode) (type : UInt8) :
    NameM Unit := do
  step F .writeInode (nameWriteInode ino inode)
  step F .addEntry (dirAddEntry place.parentIno place.parent place.name ino type)

/-- The end of `create_node`: the link count of the parent of a directory, the content of a file. -/
def createFinish (F : Faults) (place : Place) (dir data : Bool) (ino : Nat) (inode : NameInode) :
    NameM Unit :=
  if dir then do
    let parent ← ofOption place.parent.linksIncChecked .range
    step F .writeParent (nameWriteInode place.parentIno parent)
  else if data then step F .writeData (nameWriteInode ino inode)
  else pure ()

/-- `fail_blocks`: give the blocks and the inode back. -/
def createUndo (F : Faults) (ino : Nat) : NameM Unit := do
  ignore (step F .undoBlocks (pure ()))
  ignore (step F .undoAlloc (nameFreeInode ino))

/-- `create_node`; `data` if there is something to write to the file. -/
def createNode (F : Faults) (path : List UInt8) (dir data : Bool) : NameM Unit := do
  let place ← newPlace F .lookup .find path
  require (¬(dir = true ∧ place.parent.links = 0xffff)) .range
  let ino ← step F .allocInode nameAllocInode
  undoing
    (do
      createBlock F dir ino place.parentIno
      createLink F place ino (newInode dir) (if dir then 2 else 1))
    (createUndo F ino)
  undoing (createFinish F place dir data ino (newInode dir))
    (do
      ignore (step F .undoEntry (dirRemoveEntry place.parentIno place.parent place.name))
      createUndo F ino)

/-- `ext4_create_file`. -/
def ext4CreateFile (F : Faults) (path : List UInt8) (data : Bool) : NameM Unit :=
  createNode F path false data

/-- `ext4_mkdir`. -/
def ext4Mkdir (F : Faults) (path : List UInt8) : NameM Unit := createNode F path true false

/-- The inode that `ext4_symlink` makes. -/
def symlinkInode : NameInode := ⟨0xa1ff, 1, 0⟩

/-- Store a symbolic link with its target, which is in the inode if it is short. -/
def symlinkStore (F : Faults) (ino : Nat) (target : List UInt8) : NameM Unit :=
  if target.length ≤ 60 then
    step F .writeInode do
      nameWriteInode ino symlinkInode
      modify fun t => t.setTarget ino target
  else do
    step F .writeInode (nameWriteInode ino symlinkInode)
    step F .writeData (modify fun t => t.setTarget ino target)

/-- `ext4_symlink`. -/
def ext4Symlink (F : Faults) (target path : List UInt8) : NameM Unit := do
  require (symlinkTargetValid target = true) .range
  let place ← newPlace F .lookup .find path
  let ino ← step F .allocInode nameAllocInode
  undoing
    (do
      symlinkStore F ino target
      step F .addEntry (dirAddEntry place.parentIno place.parent place.name ino 7))
    (createUndo F ino)

/-! ### Linking -/

/-- `ext4_link`. -/
def ext4Link (F : Faults) (oldPath newPath : List UInt8) : NameM Unit := do
  let ino ← readStep F .lookup fun t => ext4LstatPath t oldPath
  let t ← get
  let inode := t.inodes ino
  require (inode.isDir = false) .unsupported
  require (inode.isRegular = true ∨ inode.isSymlink = true) .unsupported
  require (inode.links ≠ 0 ∧ inode.links ≠ 0xffff) .range
  let place ← newPlace F .lookupNew .findNew newPath
  step F .addEntry (dirAddEntry place.parentIno place.parent place.name ino
    (if inode.isSymlink then 7 else 1))
  undoing
    (do
      let inode ← ofOption inode.linksIncChecked .range
      step F .writeInode (nameWriteInode ino inode))
    (ignore (step F .undoEntry (dirRemoveEntry place.parentIno place.parent place.name)))

/-! ### Removing -/

/-- `orphan_remove` at an inode behind another one: that one is linked to what follows. -/
def nameOrphanUnlink (F : Faults) (prev : Nat) (inode : NameInode) : NameM Unit :=
  if prev = 0 then do
    modify fun t => { t with lastOrphan := inode.dtime }
    step F .orphanUnlink (pure ())
  else do
    let pinode ← readStep F .orphanReadPrev fun t => readNameInode t prev
    step F .orphanUnlink (nameWriteInode prev { pinode with dtime := inode.dtime })

/-- The loop of `orphan_remove`, at `cur` behind `prev` with `turns` turns left. -/
def nameOrphanRemoveLoop (F : Faults) (ino : Nat) : Nat → Nat → Nat → Nat → NameM Unit
  | 0, _, _, cur => if cur = 0 then pure () else fail .corrupt
  | turns + 1, turn, prev, cur =>
    if cur = 0 then pure ()
    else do
      let inode ← readStep F (.orphanRead turn) fun t => readNameInode t cur
      if cur = ino then do
        nameOrphanUnlink F prev inode
        step F .orphanClear (nameWriteInode cur { inode with dtime := 0 })
      else nameOrphanRemoveLoop F ino turns (turn + 1) cur inode.dtime

/-- `orphan_remove`. -/
def nameOrphanRemove (F : Faults) (ino : Nat) : NameM Unit := do
  let t ← get
  nameOrphanRemoveLoop F ino t.inodesCount 0 0 t.lastOrphan

/-- The end of `free_removed_inode`: clear the inode, free it and take it from the orphan list. -/
def nameFreeOrphan (F : Faults) (ino : Nat) : NameM Unit := do
  step F .zeroInode (nameWriteInode ino NameInode.zero)
  step F .freeInode (nameFreeInode ino)
  nameOrphanRemove F ino

/-- `orphan_push` with the inode that it stores. -/
def nameOrphanPush (F : Faults) (ino : Nat) (inode : NameInode) : NameM Unit := do
  step F .pushInode (nameWriteInode ino inode)
  modify fun t => { t with lastOrphan := ino }
  step F .pushSuper (pure ())

/-- `free_removed_inode`: how it ends, and the copy of the inode as it leaves it to its caller. -/
def nameFreeRemovedInode (F : Faults) (ino : Nat) (inode : NameInode) :
    NameM (NameInode × Except Ext4Status Unit) := do
  let t ← get
  let inode := { inode with dtime := t.lastOrphan }
  let pushed ← attempt do
    nameOrphanPush F ino inode
    step F .freeBlocks (pure ())
  match pushed with
  | .error e => pure (inode, .error e)
  | .ok _ => do
    let freed ← attempt (nameFreeOrphan F ino)
    pure (NameInode.zero, freed)

/-- `drop_removed_link`: how it ends, and the copy of the inode as it leaves it to its caller. -/
def nameDropRemovedLink (F : Faults) (ino : Nat) (inode : NameInode) :
    NameM (NameInode × Except Ext4Status Unit) :=
  if inode.isDir = false ∧ 1 < inode.links then do
    let inode := { inode with links := inode.links - 1 }
    let stored ← attempt (step F .dropLink (nameWriteInode ino inode))
    pure (inode, stored)
  else nameFreeRemovedInode F ino { inode with links := 0 }

/-- A name that is to be removed: its directory, its entry and the inode. -/
structure Removal where
  parentIno : Nat
  parent : NameInode
  entry : DirEntry
  inode : NameInode

/-- A directory must be empty before its name goes. -/
def requireEmpty (F : Faults) (ino : Nat) (inode : NameInode) : NameM Unit :=
  if inode.isDir then do
    let empty ← readStep F .listDir fun t => dirIsEmpty t ino inode
    require (empty = true) .notEmpty
  else pure ()

/-- The beginning of `ext4_unlink`. -/
def unlinkFind (F : Faults) (path : List UInt8) : NameM Removal := do
  let (parentPath, name) ← ofOption (splitParentPath path) .range
  let parentIno ← readStep F .lookup fun t => ext4LookupPath t parentPath
  let t ← get
  let parent := t.inodes parentIno
  let entry ← readStep F .find fun t => findInDir t parentIno parent name
  let inode ← readStep F .readInode fun t => readNameInode t entry.ino
  requireEmpty F entry.ino inode
  pure ⟨parentIno, parent, entry, inode⟩

/-- Enter the name again. -/
def unlinkUndo (F : Faults) (r : Removal) : NameM Unit :=
  ignore (step F .undoEntry
    (dirAddEntry r.parentIno r.parent r.entry.name r.entry.ino r.entry.type))

/-- The link count of the parent of a directory. -/
def unlinkParent (F : Faults) (r : Removal) : NameM Unit :=
  if r.inode.isDir then
    undoing
      (do
        let parent ← ofOption r.parent.linksDecChecked .corrupt
        step F .writeParent (nameWriteInode r.parentIno parent))
      (unlinkUndo F r)
  else pure ()

/-- `if (parent_nlink_changed) (void)write_inode(mnt, parent_ino, &parent_before)`. -/
def unlinkUndoParent (F : Faults) (r : Removal) : NameM Unit :=
  if r.inode.isDir then ignore (step F .undoParent (nameWriteInode r.parentIno r.parent))
  else pure ()

/-- Put everything back when the link could not be dropped. -/
def unlinkUndoDrop (F : Faults) (r : Removal) : NameM Unit := do
  unlinkUndoParent F r
  ignore (step F .undoInode (nameWriteInode r.entry.ino r.inode))
  unlinkUndo F r

/-- The end of `ext4_unlink`: drop the link. -/
def unlinkDrop (F : Faults) (r : Removal) : NameM Unit := do
  let dropped ← nameDropRemovedLink F r.entry.ino r.inode
  undoing (ofExcept dropped.2) (unlinkUndoDrop F r)

/-- `ext4_unlink`. -/
def ext4Unlink (F : Faults) (path : List UInt8) : NameM Unit := do
  let r ← unlinkFind F path
  step F .removeEntry (dirRemoveEntry r.parentIno r.parent r.entry.name)
  unlinkParent F r
  unlinkDrop F r

/-! ### Renaming -/

/-- A name that is to be moved: the directories, the entry and the inode. -/
structure Move where
  oldParentIno : Nat
  oldParent : NameInode
  newParentIno : Nat
  newParent : NameInode
  newName : List UInt8
  src : DirEntry
  inode : NameInode

/-- The directory moves to another parent. -/
def Move.reparents (r : Move) : Prop := r.inode.isDir = true ∧ r.oldParentIno ≠ r.newParentIno

instance (r : Move) : Decidable r.reparents := inferInstanceAs (Decidable (_ ∧ _))

/-- The test that a directory is not moved into itself: the new path starts with the old one. -/
def pathInside (oldPath newPath : List UInt8) : Bool :=
  newPath.take oldPath.length = oldPath &&
    ((newPath.drop oldPath.length).headD 0 = slash || newPath.length = oldPath.length)

/-- The beginning of `ext4_rename`. -/
def renameFind (F : Faults)
    (oldPath newPath oldParentPath oldName newParentPath newName : List UInt8) :
    NameM Move := do
  let oldParentIno ← readStep F .lookup fun t => ext4LookupPath t oldParentPath
  let newParentIno ← readStep F .lookupNew fun t => ext4LookupPath t newParentPath
  let t ← get
  let oldParent := t.inodes oldParentIno
  let newParent := t.inodes newParentIno
  require (oldParent.isDir = true ∧ newParent.isDir = true) .notDir
  let src ← readStep F .find fun t => findInDir t oldParentIno oldParent oldName
  let inode ← readStep F .readInode fun t => readNameInode t src.ino
  require (inode.isDir = true ∨ inode.isRegular = true ∨ inode.isSymlink = true) .unsupported
  require (¬(inode.isDir = true ∧ pathInside oldPath newPath = true)) .range
  pure ⟨oldParentIno, oldParent, newParentIno, newParent, newName, src, inode⟩

/-- Put the old entry back, and the one that was replaced. -/
def renameUndoReplace (F : Faults) (r : Move) (replaced : DirEntry) : NameM Unit := do
  ignore (step F .undoEntry
    (dirAddEntry r.oldParentIno r.oldParent r.src.name r.src.ino r.src.type))
  ignore (step F .undoNewEntry
    (dirReplaceEntry r.newParentIno r.newParent r.newName replaced.ino replaced.type))

/-- `ext4_rename` over a name: the link count of the old parent and the entry for the new one. -/
def renameOverParent (F : Faults) (r : Move) (replaced : DirEntry) : NameM Unit :=
  if r.reparents then do
    undoing
      (do
        let oldParent ← ofOption r.oldParent.linksDecChecked .corrupt
        step F .writeParent (nameWriteInode r.oldParentIno oldParent))
      (renameUndoReplace F r replaced)
    undoing (step F .dotdot (dirUpdateDotdot r.src.ino r.inode r.newParentIno))
      (do
        ignore (step F .undoParent (nameWriteInode r.oldParentIno r.oldParent))
        ignore (step F .undoInode (nameWriteInode r.src.ino r.inode))
        renameUndoReplace F r replaced)
  else pure ()

/-- Put the link count of the old parent back. -/
def renameUndoParent (F : Faults) (r : Move) : NameM Unit :=
  if r.reparents then ignore (step F .undoParent (nameWriteInode r.oldParentIno r.oldParent))
  else pure ()

/-- Put everything back when the link of the replaced inode could not be dropped; `copy` is the copy
of that inode as `drop_removed_link` leaves it. -/
def renameUndoDrop (F : Faults) (r : Move) (replaced : DirEntry) (targetIno : Nat)
    (copy : NameInode) :
    NameM Unit := do
  renameUndoParent F r
  ignore (step F .undoTarget (nameWriteInode targetIno copy))
  ignore (step F .undoInode (nameWriteInode r.src.ino r.inode))
  renameUndoReplace F r replaced

/-- The end of `ext4_rename` over a name: drop the link of what was replaced. -/
def renameDrop (F : Faults) (r : Move) (replaced : DirEntry) (targetIno : Nat)
    (target : NameInode) :
    NameM Unit := do
  let dropped ← nameDropRemovedLink F targetIno target
  undoing (ofExcept dropped.2) (renameUndoDrop F r replaced targetIno dropped.1)

/-- Remove the old entry behind the new one, with the copy of the inode of a common parent. -/
def renameRemoveOld (F : Faults) (r : Move) : NameM Unit :=
  step F .removeEntry (dirRemoveEntry r.oldParentIno
    (if r.oldParentIno = r.newParentIno then r.newParent else r.oldParent) r.src.name)

/-- `ext4_rename` over a name that exists. -/
def renameOver (F : Faults) (r : Move) (target : DirEntry) : NameM Unit := do
  let inode ← readStep F .readTarget fun t => readNameInode t target.ino
  require (inode.isDir = r.inode.isDir) .exist
  requireEmpty F target.ino inode
  let replaced ← step F .replaceEntry
    (dirReplaceEntry r.newParentIno r.newParent r.newName r.src.ino r.src.type)
  undoing (renameRemoveOld F r)
    (ignore (step F .undoNewEntry
      (dirReplaceEntry r.newParentIno r.newParent r.newName replaced.ino replaced.type)))
  renameOverParent F r replaced
  renameDrop F r replaced target.ino inode

/-- Put the old entry back and take the new one out; `newParent` is the copy that is stored with
it. -/
def renameUndoAdd (F : Faults) (r : Move) (newParent : NameInode) : NameM Unit := do
  ignore (step F .undoEntry
    (dirAddEntry r.oldParentIno r.oldParent r.src.name r.src.ino r.src.type))
  ignore (step F .undoNewEntry (dirRemoveEntry r.newParentIno newParent r.newName))

/-- Store the two parents and the entry for the new one, with the new copies of their inodes. -/
def renameParents (F : Faults) (r : Move) (oldParent newParent : NameInode) : NameM Unit := do
  undoing (step F .writeParent (nameWriteInode r.oldParentIno oldParent))
    (renameUndoAdd F r newParent)
  undoing (step F .writeNewParent (nameWriteInode r.newParentIno newParent))
    (do
      ignore (step F .undoParent (nameWriteInode r.oldParentIno r.oldParent))
      renameUndoAdd F r r.newParent)
  undoing (step F .dotdot (dirUpdateDotdot r.src.ino r.inode r.newParentIno))
    (do
      ignore (step F .undoParent (nameWriteInode r.oldParentIno r.oldParent))
      ignore (step F .undoNewParent (nameWriteInode r.newParentIno r.newParent))
      ignore (step F .undoInode (nameWriteInode r.src.ino r.inode))
      renameUndoAdd F r r.newParent)

/-- The link counts of the two parents of a directory that moves to a new name. -/
def renameNewParent (F : Faults) (r : Move) : NameM Unit :=
  if r.reparents then
    match r.oldParent.linksDecChecked, r.newParent.linksIncChecked with
    | some oldParent, some newParent => renameParents F r oldParent newParent
    | _, _ => do
      renameUndoAdd F r r.newParent
      fail .corrupt
  else pure ()

/-- `ext4_rename` to a name that does not exist. -/
def renameNew (F : Faults) (r : Move) : NameM Unit := do
  step F .addEntry (dirAddEntry r.newParentIno r.newParent r.newName r.src.ino r.src.type)
  undoing (renameRemoveOld F r)
    (ignore (step F .undoNewEntry (dirRemoveEntry r.newParentIno r.newParent r.newName)))
  renameNewParent F r

/-- `ext4_rename` behind the lookups. -/
def renameMove (F : Faults) (r : Move) : NameM Unit := do
  let found ← attempt (readStep F .findNew fun t =>
    findInDir t r.newParentIno r.newParent r.newName)
  match found with
  | .ok target => if target.ino = r.src.ino then pure () else renameOver F r target
  | .error .notFound => renameNew F r
  | .error e => fail e

/-- `ext4_rename`. -/
def ext4Rename (F : Faults) (oldPath newPath : List UInt8) : NameM Unit := do
  require (oldPath ≠ [slash] ∧ newPath ≠ [slash]) .range
  let (oldParentPath, oldName) ← ofOption (splitParentPath oldPath) .range
  let (newParentPath, newName) ← ofOption (splitParentPath newPath) .range
  if oldParentPath = newParentPath ∧ oldName = newName then pure ()
  else do
    let r ← renameFind F oldPath newPath oldParentPath oldName newParentPath newName
    renameMove F r

end Rabbitbone.Native.Ext4
