import Rabbitbone.ForStd.CString
import Rabbitbone.Native.Path

/-!
# Routing of paths to mounts

Model of `kernel/rust/vfs_route.rs`.  A `[u8; VFS_PATH_MAX]` is a byte for every index; the input is
the slice that the caller gives, and its loops run over what is left of it.
-/

namespace Rabbitbone.Native.Vfs

open CString Native.Path

/-- `[u8; VFS_PATH_MAX]`. -/
abbrev PathBuf := Nat → UInt8

/-- `VFS_MAX_MOUNTS`. -/
def vfsMaxMounts : Nat := 16

/-- `MountView`. -/
structure MountView where
  active : UInt8
  path : PathBuf

/-- `RouteOut`. -/
structure RouteOut where
  status : Int
  found : UInt8
  mountIndex : Nat
  normalized : PathBuf
  relative : PathBuf

/-- `RouteError`. -/
inductive RouteError where
  | invalid
  | noEntry
  deriving DecidableEq, Repr

/-- `arr_set`. -/
def arrSet (buf : PathBuf) (idx : Nat) (value : UInt8) : PathBuf := Function.update buf idx value

/-- `cstr_len`. -/
def cstrLen : List UInt8 → Nat
  | [] => 0
  | b :: bs => if b ≠ 0 then cstrLen bs + 1 else 0

/-- `fixed_cstr_len`. -/
def fixedCstrLen (buf : PathBuf) : Nat := scan buf pathMax 0

/-- `route_component_byte_allowed`. -/
def routeComponentByteAllowed (c : UInt8) : Bool := 0x20 ≤ c && c != 0x7f && c != 0x5c

/-! ### Normalisation -/

/-- `append_component`.  The sums stay far below the bound of `checked_add`. -/
def appendComponent (out : PathBuf) (pos : Nat) (comp : List UInt8) :
    Except RouteError (PathBuf × Nat) :=
  if comp.length = 0 then .ok (out, pos)
  else if nameMax ≤ comp.length then .error .invalid
  else
    let sep := if 1 < pos then 1 else 0
    let stop := pos + sep + comp.length
    if pathMax ≤ stop then .error .invalid
    else if !comp.all routeComponentByteAllowed then .error .invalid
    else
      let out := if sep ≠ 0 then arrSet out pos slash else out
      .ok (arrSet (copyIn out (pos + sep) comp) stop 0, stop)

/-- The first loop of `pop_component`. -/
def popScan (out : PathBuf) : Nat → Nat
  | 0 => 0
  | pos + 1 => if 1 < pos + 1 ∧ out pos ≠ slash then popScan out pos else pos + 1

/-- `pop_component`. -/
def popComponent (out : PathBuf) (pos : Nat) : Except RouteError (PathBuf × Nat) :=
  if pos ≤ 1 then .error .invalid
  else
    let pos := popScan out pos
    let pos := if 1 < pos ∧ out (pos - 1) = slash then pos - 1 else pos
    .ok (arrSet out pos 0, pos)

/-- The loop of `normalize` over what is left of the input.  Each round but the last consumes a
byte, so the length of the input is fuel enough. -/
def normalizeLoop : Nat → List UInt8 → PathBuf → Nat → Except RouteError PathBuf
  | 0, _, out, _ => .ok out
  | fuel + 1, input, out, pos =>
    if input = [] then .ok out
    else
      let input := input.dropWhile (· == slash)
      let comp := input.takeWhile (· != slash)
      let input := input.dropWhile (· != slash)
      if comp.length = 0 then normalizeLoop fuel input out pos
      else if comp = [dot] then normalizeLoop fuel input out pos
      else if comp = [dot, dot] then
        match popComponent out pos with
        | .error e => .error e
        | .ok (out, pos) => normalizeLoop fuel input out pos
      else
        match appendComponent out pos comp with
        | .error e => .error e
        | .ok (out, pos) => normalizeLoop fuel input out pos

/-- `normalize`. -/
def normalize (input : List UInt8) : Except RouteError PathBuf :=
  let len := cstrLen input
  if len = 0 ∨ pathMax ≤ len ∨ input.headD 0 ≠ slash then .error .invalid
  else normalizeLoop len (input.take len) (arrSet (arrSet (fun _ => 0) 0 slash) 1 0) 1

/-! ### Mounts -/

/-- The loop of `path_depth`. -/
def pathDepthLoop (path : PathBuf) : Nat → Nat → Bool → Nat → Nat
  | 0, _, _, d => d
  | left + 1, i, inComponent, d =>
    if path i = slash then pathDepthLoop path left (i + 1) false d
    else if !inComponent then pathDepthLoop path left (i + 1) true (d + 1)
    else pathDepthLoop path left (i + 1) inComponent d

/-- `path_depth`. -/
def pathDepth (path : PathBuf) : Nat :=
  let len := fixedCstrLen path
  if len = 1 ∧ path 0 = slash then 0 else pathDepthLoop path len 0 false 0

/-- `mount_matches`. -/
def mountMatches (mount path : PathBuf) : Bool :=
  let ml := fixedCstrLen mount
  if ml = 0 then false
  else if ml = 1 ∧ mount 0 = slash then true
  else if fixedCstrLen path < ml then false
  else if (List.range ml).any fun i => mount i != path i then false
  else path ml == 0 || path ml == slash

/-- The loop of `compute_relative`: the buffer and the number of bytes in it. -/
def relativeLoop (norm : PathBuf) : Nat → Nat → Nat → PathBuf → PathBuf × Nat
  | 0, _, dst, out => (out, dst)
  | left + 1, src, dst, out =>
    if src < pathMax ∧ norm src ≠ 0 ∧ dst + 1 < pathMax then
      relativeLoop norm left (src + 1) (dst + 1) (arrSet out dst (norm src))
    else (out, dst)

/-- `compute_relative`. -/
def computeRelative (mount norm : PathBuf) : PathBuf :=
  let root := arrSet (arrSet (fun _ => 0) 0 slash) 1 0
  let ml := fixedCstrLen mount
  if ml = 1 ∧ mount 0 = slash then norm
  else if ml < pathMax ∧ norm ml = 0 then root
  else
    let (out, dst) := relativeLoop norm pathMax ml 0 fun _ => 0
    if dst = 0 then arrSet (arrSet out 0 slash) 1 0 else out

/-- One round of the loop of `route`. -/
def betterMount (mounts : Fin vfsMaxMounts → MountView) (norm : PathBuf)
    (best : Option (Fin vfsMaxMounts × Nat)) (i : Fin vfsMaxMounts) :
    Option (Fin vfsMaxMounts × Nat) :=
  let m := mounts i
  if m.active ≠ 0 ∧ mountMatches m.path norm then
    let depth := pathDepth m.path
    match best with
    | none => some (i, depth)
    | some (_, d) => if d ≤ depth then some (i, depth) else best
  else best

/-- `route`. -/
def route (mounts : Fin vfsMaxMounts → MountView) (input : List UInt8) :
    Except RouteError RouteOut :=
  match normalize input with
  | .error e => .error e
  | .ok norm =>
    match (List.finRange vfsMaxMounts).foldl (betterMount mounts norm) none with
    | none => .error .noEntry
    | some (idx, _) =>
      .ok
        { status := 0
          found := 1
          mountIndex := idx
          normalized := norm
          relative := computeRelative (mounts idx).path norm }

end Rabbitbone.Native.Vfs
