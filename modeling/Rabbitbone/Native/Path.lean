import Mathlib.Data.List.DropRight

/-!
# Paths

Model of `kernel/vfs/path.c`.  A path is the bytes of a C string before its NUL.  The buffers the
C functions fill are the lists they return; `none` is a return of `false`.
-/

namespace Rabbitbone.Native.Path

/-- `VFS_PATH_MAX`. -/
def pathMax : Nat := 256

/-- `VFS_NAME_MAX`. -/
def nameMax : Nat := 64

def slash : UInt8 := '/'.toUInt8
def dot : UInt8 := '.'.toUInt8

/-- `path_snapshot_input`. -/
def pathSnapshotInput (input : List UInt8) : Option (List UInt8) :=
  if input.length == 0 || pathMax ≤ input.length || input.headD 0 != slash then none
  else some input

/-- `path_pop_component`: drop the last component and its slash, never the leading slash. -/
def pathPopComponent (out : List UInt8) : Option (List UInt8) :=
  if out.length ≤ 1 then none
  else
    let out' := out.take 1 ++ (out.drop 1).rdropWhile (· != slash)
    some (if 1 < out'.length then out'.dropLast else out')

/-- `path_component_byte_allowed`. -/
def pathComponentByteAllowed (c : UInt8) : Bool :=
  0x20 ≤ c && c != 0x7f && c != 0x5c

/-- `path_append_component`. -/
def pathAppendComponent (out : List UInt8) (outSize : Nat) (comp : List UInt8) :
    Option (List UInt8) :=
  if comp.length == 0 then some out
  else if nameMax ≤ comp.length then none
  else if !comp.all pathComponentByteAllowed then none
  else
    let sep := if 1 < out.length then [slash] else []
    let need := sep.length + comp.length + 1
    if outSize < need || outSize - need < out.length then none
    else some (out ++ sep ++ comp)

/-- The loop of `path_normalize` over what is left of the input.  Each round but the last consumes
a byte, so the length of the input is fuel enough. -/
def pathNormalizeLoop (outSize : Nat) : Nat → List UInt8 → List UInt8 → Option (List UInt8)
  | 0, _, out => some out
  | fuel + 1, input, out =>
    if input == [] then some out
    else
      let input := input.dropWhile (· == slash)
      let comp := input.takeWhile (· != slash)
      let input := input.dropWhile (· != slash)
      if comp.length == 0 || comp == [dot] then pathNormalizeLoop outSize fuel input out
      else if comp == [dot, dot] then
        match pathPopComponent out with
        | none => none
        | some out => pathNormalizeLoop outSize fuel input out
      else
        match pathAppendComponent out outSize comp with
        | none => none
        | some out => pathNormalizeLoop outSize fuel input out

/-- `path_normalize`. -/
def pathNormalize (input : List UInt8) (outSize : Nat) : Option (List UInt8) :=
  if outSize < 2 then none
  else
    match pathSnapshotInput input with
    | none => none
    | some input => pathNormalizeLoop outSize input.length input [slash]

/-- `path_join`. -/
def pathJoin (base leaf : List UInt8) (outSize : Nat) : Option (List UInt8) :=
  if base.length = 0 ∨ pathMax ≤ base.length ∨ pathMax ≤ leaf.length then none
  else if pathMax * 2 < base.length + leaf.length + 2 then none
  else
    let sep := if base.getLast? = some slash then [] else [slash]
    pathNormalize (base ++ sep ++ leaf) outSize

/-- The loop of `path_basename`: `i` is the index of the byte at the head, `last` the start of the
last component so far. -/
def pathBasenameLoop : List UInt8 → Nat → Nat → Nat
  | [], _, last => last
  | c :: rest, i, last =>
    if c == slash && rest != [] then pathBasenameLoop rest (i + 1) (i + 1)
    else pathBasenameLoop rest (i + 1) last

/-- `path_basename(path) - path`. -/
def pathBasename (path : List UInt8) : Nat := pathBasenameLoop path 0 0

/-- `path_next_component`: the component and the cursor behind it. -/
def pathNextComponent (cursor : List UInt8) (componentSize : Nat) :
    Option (List UInt8 × List UInt8) :=
  let p := cursor.dropWhile (· == slash)
  if p == [] then none
  else
    let comp := p.takeWhile (· != slash)
    if componentSize ≤ comp.length then none
    else if !comp.all pathComponentByteAllowed then none
    else some (comp, p.dropWhile (· != slash))

end Rabbitbone.Native.Path
