import Mathlib.Algebra.Group.Nat.Defs
import Rabbitbone.Native.Path

/-!
# The network devices of the device file system

Model of `parse_net_path` (`kernel/vfs/devfs.c`).  A path is the bytes before its terminating zero.
-/

namespace Rabbitbone.Native.Devfs

open Native.Path

/-- `NET_MAX_DEVS`, the number of devices that can be registered. -/
def netMaxDevs : Nat := 4

/-- A byte between `'0'` and `'9'`. -/
def isDigit (c : UInt8) : Bool := 48 ≤ c && c ≤ 57

/-- The loop of `parse_net_path`: the value of the digits and what stands behind them. -/
def readDigits : List UInt8 → Nat → Option (Nat × List UInt8)
  | [], value => some (value, [])
  | c :: p, value =>
    if isDigit c then
      let next := (value * 10 + (c.toNat - 48)) % 2 ^ 64
      if next < value then none else readDigits p next
    else some (value, c :: p)

/-- `parse_net_path` with `count` registered devices. -/
def parseNetPath (count : Fin (netMaxDevs + 1)) (path : List UInt8) : Option Nat :=
  let path := path.dropWhile (· == slash)
  if path.take 3 ≠ [0x6e, 0x65, 0x74] then none
  else if !(path.drop 3).head?.any isDigit then none
  else
    match readDigits (path.drop 3) 0 with
    | none => none
    | some (value, rest) => if rest ≠ [] then none else if count ≤ value then none else some value

end Rabbitbone.Native.Devfs
