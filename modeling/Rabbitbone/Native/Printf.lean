import Mathlib.Data.List.Basic

/-!
# The formatter of the kernel

Model of `kvformat` (`kernel/core/printf.c`).  The format is the memory from `fmt` on: the bytes of
the string, its terminator, and whatever comes behind.  A pointer into it is the rest of the memory
from there, and the length of the rest stands for the address.

The result is what the formatter does, in order: which bytes of the format it reads, which
characters it prints itself, and which arguments it fetches to be printed in which way.  How
`out_uint`, `out_int` and `out_str` print an argument and how the output is buffered is left out.
-/

namespace Rabbitbone.Native.Printf

def chPercent : UInt8 := '%'.toUInt8
def chMinus : UInt8 := '-'.toUInt8
def chZero : UInt8 := '0'.toUInt8
def chL : UInt8 := 'l'.toUInt8

/-- `PRINTF_MAX_WIDTH`. -/
def printfMaxWidth : Nat := 4096

/-- `long_flag` and `long_long_flag`. -/
inductive Length where
  | int
  | long
  | longLong
  deriving DecidableEq, Repr

/-- The conversions that take an argument. -/
inductive Conv where
  | c
  | s
  | d
  | i
  | u
  | x
  | upperX
  | p
  deriving DecidableEq, Repr

/-- What the formatter does; `left` is the number of bytes of the memory from the byte on that it
looks at. -/
inductive Act where
  /-- It reads a byte of the format. -/
  | read (left : Nat)
  /-- It prints a character. -/
  | put (left : Nat) (c : UInt8)
  /-- It fetches argument `k` and prints it. -/
  | arg (left k : Nat) (conv : Conv) (length : Length) (width : Nat) (padZero : Bool)
  deriving DecidableEq, Repr

/-- A digit. -/
def isDigit (c : UInt8) : Bool := 48 ≤ c && c ≤ 57

/-- The loop over the digits of the width. -/
def readWidth : List UInt8 → Nat → Nat × List UInt8
  | [], width => (width, [])
  | c :: rest, width =>
    if isDigit c then
      let digit := (c - chZero).toNat
      readWidth rest
        (if (printfMaxWidth - digit) / 10 < width then printfMaxWidth else width * 10 + digit)
    else (width, c :: rest)

/-- What stands between `%` and the character of the conversion. -/
structure Directive where
  padZero : Bool
  width : Nat
  length : Length
  /-- The memory from the character of the conversion on. -/
  rest : List UInt8
  deriving DecidableEq, Repr

/-- The part of `kvformat` behind a `%`. -/
def readDirective (mem : List UInt8) : Directive :=
  let padZero := mem.head? = some chZero
  let (width, mem) := readWidth (if padZero then mem.tail else mem) 0
  if mem.head? = some chL then
    if mem.tail.head? = some chL then ⟨padZero, width, .longLong, mem.tail.tail⟩
    else ⟨padZero, width, .long, mem.tail⟩
  else ⟨padZero, width, .int, mem⟩

/-- The cases of the `switch` that take an argument. -/
def convOf (c : UInt8) : Option Conv :=
  if c = 'c'.toUInt8 then some .c
  else if c = 's'.toUInt8 then some .s
  else if c = 'd'.toUInt8 then some .d
  else if c = 'i'.toUInt8 then some .i
  else if c = 'u'.toUInt8 then some .u
  else if c = 'x'.toUInt8 then some .x
  else if c = 'X'.toUInt8 then some .upperX
  else if c = 'p'.toUInt8 then some .p
  else none

/-- The `switch` of `kvformat`; `k` arguments were fetched before. -/
def convert (d : Directive) (c : UInt8) (k : Nat) : List Act × Nat :=
  let left := d.rest.length
  if c = chPercent then ([.put left c], k)
  else
    match convOf c with
    | some conv => ([.arg left k conv d.length d.width d.padZero], k + 1)
    | none => (.put left chPercent :: if c = 0 then [] else [.put left c], k)

/-- The reads from one pointer up to another. -/
def readTo (mem rest : List UInt8) : List Act :=
  (List.range (mem.length + 1 - rest.length)).map fun n => .read (mem.length - n)

private theorem length_readWidth_le (mem : List UInt8) (width : Nat) :
    (readWidth mem width).2.length ≤ mem.length := by
  induction mem generalizing width with
  | nil => exact Nat.le_refl _
  | cons c rest ih =>
    rw [readWidth]
    split
    · exact Nat.le_succ_of_le (ih _)
    · exact Nat.le_refl _

private theorem length_readDirective_le (mem : List UInt8) :
    (readDirective mem).rest.length ≤ mem.length := by
  obtain ⟨start, hstart⟩ : ∃ start,
      start = if mem.head? = some chZero then mem.tail else mem := ⟨_, rfl⟩
  have htail : start.length ≤ mem.length := by
    rw [hstart]
    split
    · rw [List.length_tail]
      omega
    · exact Nat.le_refl _
  have hwidth := length_readWidth_le start 0
  have hrest : (readDirective mem).rest.length ≤ (readWidth start 0).2.length := by
    rw [readDirective]
    simp only [← hstart]
    split
    · split
      · simp only [List.length_tail]
        omega
      · simp only [List.length_tail]
        omega
    · exact Nat.le_refl _
  omega

/-- `kvformat`, with `k` arguments fetched before. -/
def kvformat (mem : List UInt8) (k : Nat) : List Act :=
  match mem with
  | [] => [.read 0]
  | c :: rest =>
    .read (rest.length + 1) ::
      if c = 0 then []
      else if c = chPercent then
        readTo rest (readDirective rest).rest ++
          match _ : (readDirective rest).rest with
          | [] => []
          | c' :: rest' =>
            (convert (readDirective rest) c' k).1 ++
              kvformat rest' (convert (readDirective rest) c' k).2
      else .put (rest.length + 1) c :: kvformat rest k
termination_by mem.length
decreasing_by
  · have hle := length_readDirective_le rest
    rw [‹(readDirective rest).rest = _›, List.length_cons] at hle
    rw [List.length_cons]
    omega
  · rw [List.length_cons]
    omega

end Rabbitbone.Native.Printf
