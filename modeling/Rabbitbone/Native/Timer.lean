import Mathlib.Algebra.Group.Nat.Defs
import Mathlib.Data.UInt

/-!
# The clock

Model of `rabbitbone_u64_add_saturating` and `rabbitbone_u64_mul_div_saturating`
(`kernel/include/rabbitbone/math64.h`) and of `timer_now_ns` (`kernel/core/timer.c`).  A
`__uint128_t` is a number below `2 ^ 128`.
-/

namespace Rabbitbone.Native.Timer

/-- `~0ull`. -/
def u64Max : UInt64 := 0xffffffffffffffff

/-- `rabbitbone_u64_add_saturating`. -/
def u64AddSaturating (a b : UInt64) : UInt64 := if 2 ^ 64 ≤ a.toNat + b.toNat then u64Max else a + b

/-- The loop of `rabbitbone_u64_mul_div_saturating` over the bits below `bit`. -/
def mulDivLoop (hi lo divisor : UInt64) : Nat → Nat → UInt64 → UInt64
  | 0, _, q => q
  | bit + 1, rem, q =>
    let next :=
      if 64 ≤ bit then hi >>> UInt64.ofNat (bit - 64) &&& 1 else lo >>> UInt64.ofNat bit &&& 1
    let rem := (rem <<< 1) % 2 ^ 128 ||| next.toNat
    if divisor.toNat ≤ rem then
      if 64 ≤ bit then u64Max
      else mulDivLoop hi lo divisor bit (rem - divisor.toNat) (q ||| 1 <<< UInt64.ofNat bit)
    else mulDivLoop hi lo divisor bit rem q

/-- `rabbitbone_u64_mul_div_saturating`. -/
def u64MulDivSaturating (a b divisor : UInt64) : UInt64 :=
  if divisor = 0 then u64Max
  else
    let product := a.toNat * b.toNat % 2 ^ 128
    mulDivLoop (UInt64.ofNat (product >>> 64)) (UInt64.ofNat product) divisor 128 0 0

/-- What `timer_now_ns` reads of `timer_info_state`, and its two bases. -/
structure Calibration where
  tscCalibrated : Bool
  tscHz : UInt64
  tscBase : UInt64
  nsBase : UInt64
  deriving DecidableEq, Repr

/-- `RABBITBONE_PIT_HZ`. -/
def pitHz : UInt64 := 100

/-- `timer_now_ns`, with what `cpu_read_tsc`, `hpet_now_ns` and `pit_ticks` answer. -/
def timerNowNs (c : Calibration) (tsc : UInt64) (hpet : Option UInt64) (pitTicks : UInt64) :
    UInt64 :=
  if c.tscCalibrated ∧ c.tscHz ≠ 0 then
    let delta := if c.tscBase ≤ tsc then tsc - c.tscBase else 0
    u64AddSaturating c.nsBase (u64MulDivSaturating delta 1000000000 c.tscHz)
  else hpet.getD (pitTicks * (1000000000 / pitHz))

end Rabbitbone.Native.Timer
