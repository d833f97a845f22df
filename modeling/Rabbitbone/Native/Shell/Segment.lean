import Mathlib.Data.List.Basic

/-!
# The command-line splitter of `rbsh`

Model of `sh_trim_segment`, `sh_next_segment` (`user/bin/rbsh/parse.inc`) and of the driver
`sh_run_line` with the entry of `sh_run_pipeline_text` (`user/bin/rbsh/exec.inc`).

The line is the buffer the C code works on: a list of bytes, read as `0` past its end (the
terminating NUL).  Pointers into the buffer are indices.  `sh_trim_segment` cuts a segment by
writing a NUL into the buffer, so every function returns the buffer it leaves behind.

The pipeline runner is a parameter: a function from the calls already made and the new call to
an exit status.  What it does to the text of its own segment is never read again by the
splitter (see `shNextSegment`, which only looks at `line[pos - 1]` and later bytes).
-/

namespace Rabbitbone.Native.Shell

/-! ### Bytes -/

def chTab : UInt8 := 9
def chNewline : UInt8 := 10
def chReturn : UInt8 := 13
def chSpace : UInt8 := ' '.toUInt8
def chDquote : UInt8 := '"'.toUInt8
def chHash : UInt8 := '#'.toUInt8
def chAmp : UInt8 := '&'.toUInt8
def chSquote : UInt8 := 39
def chSemi : UInt8 := ';'.toUInt8
def chGt : UInt8 := '>'.toUInt8
def chBackslash : UInt8 := 92
def chPipe : UInt8 := '|'.toUInt8

/-- `sh_is_space`. -/
def shIsSpace (c : UInt8) : Bool :=
  c == chSpace || c == chTab || c == chReturn || c == chNewline

/-- `line[i]`: the byte at `i`, the terminating NUL past the end of the text. -/
def byteAt (line : List UInt8) (i : Nat) : UInt8 := line.getD i 0

/-- The C string that starts at `line + i`. -/
def cString (line : List UInt8) (i : Nat) : List UInt8 := (line.drop i).takeWhile (· != 0)

/-! ### `sh_trim_segment` -/

/-- `while (*start < *end && sh_is_space(**start)) ++*start`, with `*end - *start` as fuel. -/
def trimStart (line : List UInt8) (start : Nat) : Nat → Nat
  | 0 => start
  | n + 1 => if shIsSpace (byteAt line start) then trimStart line (start + 1) n else start

/-- `while (*end > *start && sh_is_space((*end)[-1])) --*end`. -/
def trimEnd (line : List UInt8) (start : Nat) : Nat → Nat
  | 0 => 0
  | stop + 1 =>
    if start < stop + 1 && shIsSpace (byteAt line stop) then trimEnd line start stop
    else stop + 1

/-- `sh_trim_segment`: the buffer with the segment terminated, and the trimmed start. -/
def shTrimSegment (line : List UInt8) (start stop : Nat) : List UInt8 × Nat :=
  let start' := trimStart line start (stop - start)
  (line.set (trimEnd line start' stop) 0, start')

/-! ### `sh_next_segment` -/

/-- `SH_OP_SEQ`, `SH_OP_AND`, `SH_OP_OR`. -/
inductive ShOp where
  | seq
  | and
  | or
  deriving DecidableEq, Repr

/-- What one call of `sh_next_segment` leaves: its return value, the buffer, and the four
out-parameters.  `segment` is an index into `line`, `none` for a null pointer. -/
structure Segment where
  ret : Int
  line : List UInt8
  pos : Nat
  segment : Option Nat
  opAfter : ShOp
  background : Bool
  deriving DecidableEq, Repr

/-- The loop that skips blanks, `;` and single `&` before a segment. -/
def skipLead : List UInt8 → Nat → Nat
  | [], i => i
  | c :: rest, i =>
    if c != 0 && shIsSpace c then skipLead rest (i + 1)
    else if c == chSemi then skipLead rest (i + 1)
    else if c == chAmp && rest.headD 0 != chAmp && rest.headD 0 != chGt then
      skipLead rest (i + 1)
    else i

/-- The locals of the scanning loop: `end`, `quote`, `escaped`, `word_started`. -/
structure ScanState where
  stop : Nat
  quote : UInt8
  escaped : Bool
  wordStarted : Bool
  deriving DecidableEq, Repr

/-- How the scanning loop ends: with the values to return, or by calling `sh_next_segment`
again from a later position. -/
inductive ScanResult where
  | done (s : Segment)
  | again (line : List UInt8) (pos : Nat)
  deriving DecidableEq, Repr

/-- The three lines shared by the operator branches: trim, then return 1 for a nonempty text and
otherwise `empty`.  `*segment` stays null here. -/
def endAtOperator (line : List UInt8) (start i width : Nat) (opAfter : ShOp) (background : Bool)
    (empty : List UInt8 → ScanResult) : ScanResult :=
  let (line', start') := shTrimSegment line start i
  if byteAt line' start' != 0 then .done ⟨1, line', i + width, none, opAfter, background⟩
  else empty line'

/-- The lines shared by the comment branch and the end of the line: trim, then hand out the
segment. -/
def endOfLine (line : List UInt8) (start stop i : Nat) : ScanResult :=
  let (line', start') := shTrimSegment line start stop
  if byteAt line' start' != 0 then .done ⟨1, line', i, some start', .seq, false⟩
  else .done ⟨0, line', i, none, .seq, false⟩

/-- The scanning loop of `sh_next_segment` at index `i`; the list argument is `line.drop i`.
`pos` is the caller's position, which an unmatched quote leaves as it was. -/
def scan (line : List UInt8) (pos start : Nat) : List UInt8 → Nat → ScanState → ScanResult
  | [], i, s =>
    if s.quote != 0 || s.escaped then .done ⟨-1, line, pos, none, .seq, false⟩
    else endOfLine line start s.stop i
  | c :: rest, i, s =>
    if c == 0 then
      if s.quote != 0 || s.escaped then .done ⟨-1, line, pos, none, .seq, false⟩
      else endOfLine line start s.stop i
    else if s.escaped then
      scan line pos start rest (i + 1) ⟨i + 1, s.quote, false, true⟩
    else if c == chBackslash && s.quote != chSquote then
      scan line pos start rest (i + 1) ⟨i + 1, s.quote, true, true⟩
    else if (c == chSquote || c == chDquote) && (s.quote == 0 || s.quote == c) then
      scan line pos start rest (i + 1) ⟨i + 1, if s.quote != 0 then 0 else c, false, true⟩
    else if s.quote != 0 then
      scan line pos start rest (i + 1) ⟨i + 1, s.quote, false, s.wordStarted⟩
    else if c == chHash && !s.wordStarted then
      endOfLine line start i i
    else if shIsSpace c then
      scan line pos start rest (i + 1) ⟨s.stop, s.quote, false, false⟩
    else if c == chSemi then
      endAtOperator line start i 1 .seq false (fun line' => .again line' (i + 1))
    else if c == chAmp then
      if 0 < i && byteAt line (i - 1) == chGt then
        scan line pos start rest (i + 1) ⟨i + 1, s.quote, false, true⟩
      else if rest.headD 0 == chGt then
        scan line pos start rest (i + 1) ⟨i + 1, s.quote, false, true⟩
      else if rest.headD 0 == chAmp then
        endAtOperator line start i 2 .and false
          (fun line' => .done ⟨-1, line', i + 2, none, .and, false⟩)
      else
        endAtOperator line start i 1 .seq true (fun line' => .again line' (i + 1))
    else if c == chPipe && rest.headD 0 == chPipe then
      endAtOperator line start i 2 .or false
        (fun line' => .done ⟨-1, line', i + 2, none, .or, false⟩)
    else
      scan line pos start rest (i + 1) ⟨i + 1, s.quote, false, true⟩

/-- `sh_next_segment`, up to its call of itself. -/
def shNextSegmentStep (line : List UInt8) (pos : Nat) : ScanResult :=
  let i := skipLead (line.drop pos) pos
  if byteAt line i == 0 || byteAt line i == chHash then .done ⟨0, line, i, none, .seq, false⟩
  else scan line pos i (line.drop i) i ⟨i, 0, false, false⟩

/-- `sh_next_segment`.  The fuel bounds its calls of itself (`none` when it runs out). -/
def shNextSegment : Nat → List UInt8 → Nat → Option Segment
  | 0, _, _ => none
  | fuel + 1, line, pos =>
    match shNextSegmentStep line pos with
    | .done s => some s
    | .again line' pos' => shNextSegment fuel line' pos'

/-! ### `sh_run_line` -/

/-- One call of `sh_run_pipeline_text`: the text of the segment (`none` for a null pointer)
and the background flag. -/
structure Call where
  text : Option (List UInt8)
  background : Bool
  deriving DecidableEq, Repr

/-- The exit status of a pipeline, given the calls made before it. -/
abbrev Runner := List Call → Call → Int

/-- `sh_run_pipeline_text`: a null segment returns 0 before anything is parsed or run. -/
def shRunPipelineText (run : Runner) (calls : List Call) (call : Call) : Int :=
  if call.text.isNone then 0 else run calls call

/-- What `sh_run_line` leaves: its return value (also stored in `sh_last_status`) and the calls
of `sh_run_pipeline_text` it made. -/
structure LineResult where
  status : Int
  calls : List Call
  deriving DecidableEq, Repr

/-- Whether `prev_op` and `last` let the next pipeline run (`should_run`). -/
def shouldRun (prevOp : ShOp) (last : Int) : Bool :=
  !(prevOp == .and && last != 0) && !(prevOp == .or && last == 0)

/-- The loop of `sh_run_line`.  The fuel bounds its rounds (`none` when it runs out). -/
def shRunLoop (run : Runner) : Nat → List UInt8 → Nat → ShOp → Int → List Call →
    Option LineResult
  | 0, _, _, _, _, _ => none
  | fuel + 1, line, pos, prevOp, last, calls =>
    match shNextSegment (line.length + 1) line pos with
    | none => none
    | some s =>
      if s.ret < 0 then some ⟨2, calls⟩
      else if s.ret == 0 then some ⟨last, calls⟩
      else if shouldRun prevOp last then
        let call : Call := ⟨s.segment.map (cString s.line), s.background⟩
        shRunLoop run fuel s.line s.pos s.opAfter (shRunPipelineText run calls call)
          (calls ++ [call])
      else shRunLoop run fuel s.line s.pos s.opAfter last calls

/-- `sh_run_line(line)` with `sh_last_status = last`. -/
def shRunLine (run : Runner) (last : Int) (line : List UInt8) : Option LineResult :=
  shRunLoop run (line.length + 2) line 0 .seq last []

end Rabbitbone.Native.Shell
