import Mathlib.Algebra.GroupWithZero.Nat
import Rabbitbone.Native.Path
import Rabbitbone.Native.Ramfs.Node

/-!
# The tar file system

Model of `kernel/vfs/tarfs`: how an image is opened, and how its entries are looked up and listed.
An image is a byte for every offset and a size; a header is the 512 bytes at an offset.  The
callback of `op_list` asks for every entry, so the listing is a list.  Memory for the entries can be
allocated.
-/

namespace Rabbitbone.Native.Tarfs

open Native.Path Ramfs

/-- The 512 bytes of a `tar_header_t`. -/
abbrev Header := Nat → UInt8

/-- `n` bytes of a header. -/
def Header.field (h : Header) (off n : Nat) : List UInt8 := (List.range n).map fun i => h (off + i)

def Header.name (h : Header) : List UInt8 := h.field 0 100
def Header.size (h : Header) : List UInt8 := h.field 124 12
def Header.chksum (h : Header) : List UInt8 := h.field 148 8
def Header.typeflag (h : Header) : UInt8 := h 156
def Header.pathPrefix (h : Header) : List UInt8 := h.field 345 155

/-- The bytes before the first NUL of a field. -/
def cstr (s : List UInt8) : List UInt8 := s.takeWhile (· != 0)

def space : UInt8 := 0x20

/-- The loop of `tar_octal`. -/
def tarOctalLoop : List UInt8 → Nat → Bool → Option Nat
  | [], v, sawDigit => if sawDigit then some v else none
  | c :: rest, v, sawDigit =>
    if c = 0 ∨ c = space then
      if rest.all (fun t => t == 0 || t == space) && sawDigit then some v else none
    else if c < 0x30 ∨ 0x37 < c then none
    else
      let digit := c.toNat - 0x30
      if (2 ^ 64 - 1 - digit) / 8 < v then none else tarOctalLoop rest (v * 8 + digit) true

/-- `tar_octal`. -/
def tarOctal (s : List UInt8) : Option Nat := tarOctalLoop s 0 false

/-- The type of a directory, `'5'`. -/
def typeDir : UInt8 := 0x35

/-- `tar_type_supported`. -/
def tarTypeSupported (typeflag : UInt8) : Bool :=
  typeflag == 0 || typeflag == 0x30 || typeflag == typeDir

/-- `tar_align_512_checked`. -/
def tarAlign512 (value : Nat) : Option Nat :=
  if 2 ^ 64 ≤ value + 511 then none else some ((value + 511) / 512 * 512)

/-- `tar_name_byte_allowed`. -/
def tarNameByteAllowed (c : UInt8) : Bool := 0x20 ≤ c && c != 0x7f && c != 0x5c

/-- The loop of `tar_name_invalid` over what is left of a name. -/
def tarNameInvalidLoop : Nat → List UInt8 → Bool → Bool
  | 0, _, saw => !saw
  | fuel + 1, s, saw =>
    if s = [] then !saw
    else
      let s := s.dropWhile (· == slash)
      let comp := s.takeWhile (· != slash)
      let s := s.dropWhile (· != slash)
      if !comp.all tarNameByteAllowed then true
      else if comp = [] ∨ comp = [dot] then tarNameInvalidLoop fuel s saw
      else if comp = [dot, dot] then true
      else tarNameInvalidLoop fuel s true

/-- `tar_name_invalid`. -/
def tarNameInvalid (s : List UInt8) : Bool :=
  if s = [] ∨ s.head? = some slash then true else tarNameInvalidLoop s.length s false

/-- `block_empty`. -/
def blockEmpty (h : Header) : Bool := (h.field 0 512).all (· == 0)

/-- `checksum_ok`. -/
def checksumOk (h : Header) : Bool :=
  let sum := ((h.field 0 512).map UInt8.toNat).sum
  let sum := h.chksum.foldl (fun sum b => sum - b.toNat + 0x20) sum
  match tarOctal h.chksum with
  | none => false
  | some stored => stored != 0 && stored == sum

/-- `header_path`. -/
def headerPath (h : Header) : Option (List UInt8) :=
  if !tarTypeSupported h.typeflag then none
  else
    let pfx := cstr h.pathPrefix
    if pfx ≠ [] ∧ (tarNameInvalid pfx ∨ pathMax ≤ 1 + pfx.length + 1) then none
    else
      let tmp := slash :: (if pfx = [] then [] else pfx ++ [slash])
      let name := cstr h.name
      if name = [] ∨ tarNameInvalid name ∨ pathMax ≤ tmp.length + name.length + 1 then none
      else
        match pathNormalize (tmp ++ name) pathMax with
        | none => none
        | some out => if out = [slash] then none else some out

/-- `tarfs_entry_t`; `data` is the offset of the data in the image. -/
structure Entry where
  path : List UInt8
  data : Nat
  size : Nat
  type : NodeType
  inode : Nat
  deriving DecidableEq, Repr

/-- `struct tarfs`. -/
structure Fs where
  image : Nat → UInt8
  size : Nat
  entries : List Entry

/-- `tarfs_path_is_strict_parent`. -/
def tarfsPathIsStrictParent (parent child : List UInt8) : Bool :=
  if parent = [] ∨ parent = [slash] then false
  else parent.isPrefixOf child && (child.drop parent.length).head? == some slash

/-- `tarfs_path_conflicts` with the entries so far. -/
def tarfsPathConflicts (entries : List Entry) (path : List UInt8) (type : NodeType) : Bool :=
  entries.any fun e =>
    e.path == path || (tarfsPathIsStrictParent e.path path && e.type != .dir) ||
      (tarfsPathIsStrictParent path e.path && type != .dir)

/-- The checks of a header that both loops of `tarfs_open` make: the size of the file and the space
that its data takes. -/
def headerSizes (h : Header) (off size : Nat) : Option (Nat × Nat) :=
  if !checksumOk h || !tarTypeSupported h.typeflag then none
  else
    match tarOctal h.size with
    | none => none
    | some fsize =>
      if h.typeflag = typeDir ∧ fsize ≠ 0 then none
      else
        match tarAlign512 fsize with
        | none => none
        | some aligned =>
          if size - 512 < off ∨ size - off - 512 < aligned then none else some (fsize, aligned)

/-- The first loop of `tarfs_open`, at `off` with `turns` turns left: how many entries there are. -/
def countEntries (image : Nat → UInt8) (size : Nat) : Nat → Nat → Nat → Option Nat
  | 0, _, count => some count
  | turns + 1, off, count =>
    let h : Header := fun i => image (off + i)
    if size < off + 512 ∨ blockEmpty h then some count
    else
      match headerSizes h off size with
      | none => none
      | some (_, aligned) => countEntries image size turns (off + 512 + aligned) (count + 1)

/-- The second loop of `tarfs_open`, at `off` with `turns` turns left. -/
def readEntries (image : Nat → UInt8) (size : Nat) :
    Nat → Nat → Nat → List Entry → Option (List Entry)
  | 0, _, _, entries => some entries
  | turns + 1, off, inode, entries =>
    let h : Header := fun i => image (off + i)
    if size < off + 512 ∨ blockEmpty h then some entries
    else
      match headerSizes h off size with
      | none => none
      | some (fsize, aligned) =>
        match headerPath h with
        | none => none
        | some path =>
          let type : NodeType := if h.typeflag = typeDir then .dir else .file
          if tarfsPathConflicts entries path type then none
          else if inode = 0xffffffff then none
          else readEntries image size turns (off + 512 + aligned) (inode + 1)
            (entries ++ [⟨path, off + 512, fsize, type, inode⟩])

/-- `tarfs_open`.  Each turn takes at least 512 bytes. -/
def tarfsOpen (image : Nat → UInt8) (size : Nat) : Option Fs :=
  if size < 1024 then none
  else
    match countEntries image size (size / 512 + 1) 0 0 with
    | none => none
    | some _ =>
      match readEntries image size (size / 512 + 1) 0 2 [] with
      | none => none
      | some entries => some ⟨image, size, entries⟩

/-! ### Lookup -/

/-- `vfs_stat_t`, without the id of the mount. -/
structure Stat where
  type : NodeType
  size : Nat
  inode : Nat
  mode : Nat
  uid : Nat
  gid : Nat
  deriving DecidableEq, Repr

/-- `vfs_dirent_t`. -/
structure Dirent where
  name : List UInt8
  type : NodeType
  size : Nat
  inode : Nat
  deriving DecidableEq, Repr

/-- `find_exact`. -/
def findExact (fs : Fs) (path : List UInt8) : Option Entry :=
  match pathNormalize path pathMax with
  | none => none
  | some norm => fs.entries.find? fun e => e.path == norm

/-- What stands in `path` behind the directory and a slash. -/
def behindDir (dir path : List UInt8) : Option (List UInt8) :=
  if dir = [slash] then
    if path.head? = some slash ∧ path.drop 1 ≠ [] then some (path.drop 1) else none
  else if dir.isPrefixOf path && (path.drop dir.length).head? == some slash then
    let start := path.drop (dir.length + 1)
    if start = [] then none else some start
  else none

/-- `is_direct_child`. -/
def isDirectChild (dir path : List UInt8) : Bool :=
  match behindDir dir path with
  | none => false
  | some name => !name.contains slash

/-- `immediate_child_component`: the name, and whether the path goes on behind it. -/
def immediateChildComponent (dir path : List UInt8) (cap : Nat) : Option (List UInt8 × Bool) :=
  match behindDir dir path with
  | none => none
  | some start =>
    let name := start.takeWhile (· != slash)
    let rest := start.dropWhile (· != slash)
    if name = [] ∨ cap ≤ name.length then none else some (name, rest ≠ [] ∧ rest.drop 1 ≠ [])

/-- `has_children`. -/
def hasChildren (fs : Fs) (dir : List UInt8) : Bool :=
  fs.entries.any fun e => isDirectChild dir e.path

/-- A directory without an entry. -/
def implicitDir : Stat := ⟨.dir, 0, 0, 0, 0, 0⟩

/-- `op_stat`. -/
def opStat (fs : Fs) (path : List UInt8) : Except VfsStatus Stat :=
  if path = [slash] then .ok implicitDir
  else
    match findExact fs path with
    | some e => .ok ⟨e.type, e.size, e.inode, if e.type = .dir then 0o555 else 0o444, 0, 0⟩
    | none =>
      match pathNormalize path pathMax with
      | none => .error .noent
      | some norm => if hasChildren fs norm then .ok implicitDir else .error .noent

/-- What `op_list` reports of a name that it has from an entry. -/
def Entry.dirent (e : Entry) (name : List UInt8) (implicitDir : Bool) : Dirent :=
  ⟨name, if implicitDir then .dir else e.type, if implicitDir then 0 else e.size,
    if implicitDir then 0 else e.inode⟩

/-- The loop of `op_list` over the entries that are left, with those before them. -/
def listLoop (norm : List UInt8) : List Entry → List Entry → List Dirent
  | _, [] => []
  | seen, e :: rest =>
    match immediateChildComponent norm e.path nameMax with
    | none => listLoop norm (seen ++ [e]) rest
    | some (name, implicitDir) =>
      let duplicate := seen.any fun p =>
        (immediateChildComponent norm p.path nameMax).map Prod.fst == some name
      if duplicate then listLoop norm (seen ++ [e]) rest
      else e.dirent name implicitDir :: listLoop norm (seen ++ [e]) rest

/-- `op_list`. -/
def opList (fs : Fs) (path : List UInt8) : Except VfsStatus (List Dirent) :=
  match pathNormalize path pathMax with
  | none => .error .inval
  | some norm =>
    match opStat fs norm with
    | .error e => .error e
    | .ok st => if st.type ≠ .dir then .error .notdir else .ok (listLoop norm [] fs.entries)

end Rabbitbone.Native.Tarfs
