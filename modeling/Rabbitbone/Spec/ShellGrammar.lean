import Mathlib.Data.List.DropRight
import Rabbitbone.Native.Shell.Segment

/-!
# The command-line grammar of `rbsh`

What a shell line means, independently of the scanner: `lex` reads the line into text bytes and
operators, `splitOps` groups them into commands with the operator that ends each, and `lineCalls`
says which pipelines a line starts, in which order, with `&&` and `||` deciding on the status of
the last pipeline that ran.

The operators are `;`, `&`, `&&` and `||` outside quotes and escapes.  An `&` beside an unquoted
`>` (`>&`, `&>`) belongs to a redirection and is text.  A `#` at the start of a word begins a
comment.  Only unquoted blanks around a command are dropped from its text.
-/

namespace Rabbitbone.Spec.Shell

open Native.Shell

inductive Quote where
  | none
  | single
  | double
  deriving DecidableEq, Repr

/-- The operators that end a command. -/
inductive SepOp where
  | semi
  | amp
  | andAnd
  | orOr
  deriving DecidableEq, Repr

/-- A byte of a command's text; `plain` when it is neither quoted nor escaped. -/
structure TextChar where
  byte : UInt8
  plain : Bool
  deriving DecidableEq, Repr

inductive Tok where
  | chr (c : TextChar)
  | op (o : SepOp)
  deriving DecidableEq, Repr

/-- Where the reader stands: the open quote, a pending backslash, whether a word has begun, and
whether the byte before was an unquoted `>`. -/
structure LexState where
  quote : Quote
  escaped : Bool
  word : Bool
  gt : Bool
  deriving DecidableEq, Repr

/-- The state at the start of a line and after an operator. -/
def LexState.init : LexState := ⟨.none, false, false, false⟩

/-- A quoted or escaped byte. -/
abbrev lit (c : UInt8) : Tok := .chr ⟨c, false⟩

/-- An unquoted byte. -/
abbrev plain (c : UInt8) : Tok := .chr ⟨c, true⟩

/-- The tokens of a line up to its comment; `none` for an open quote or a dangling escape. -/
def lex : LexState → List UInt8 → Option (List Tok)
  | s, [] => if s.quote = .none ∧ s.escaped = false then some [] else none
  | s, c :: rest =>
    if s.escaped then
      (lex ⟨s.quote, false, true, false⟩ rest).map (lit c :: ·)
    else match s.quote with
    | .single =>
      (lex ⟨if c = chSquote then .none else .single, false, true, false⟩ rest).map (lit c :: ·)
    | .double =>
      if c = chBackslash then (lex ⟨.double, true, true, false⟩ rest).map (lit c :: ·)
      else (lex ⟨if c = chDquote then .none else .double, false, true, false⟩ rest).map (lit c :: ·)
    | .none =>
      if c = chBackslash then (lex ⟨.none, true, true, false⟩ rest).map (lit c :: ·)
      else if c = chSquote then (lex ⟨.single, false, true, false⟩ rest).map (lit c :: ·)
      else if c = chDquote then (lex ⟨.double, false, true, false⟩ rest).map (lit c :: ·)
      else if c = chHash ∧ s.word = false then some []
      else if shIsSpace c then (lex ⟨.none, false, false, false⟩ rest).map (plain c :: ·)
      else if c = chSemi then (lex .init rest).map (.op .semi :: ·)
      else if c = chAmp ∧ s.gt = false ∧ rest.head? ≠ some chGt then
        if rest.head? = some chAmp then
          match rest with
          | _ :: rest' => (lex .init rest').map (.op .andAnd :: ·)
          | [] => none
        else (lex .init rest).map (.op .amp :: ·)
      else if c = chPipe ∧ rest.head? = some chPipe then
        match rest with
        | _ :: rest' => (lex .init rest').map (.op .orOr :: ·)
        | [] => none
      else (lex ⟨.none, false, true, c == chGt⟩ rest).map (plain c :: ·)

/-- A command: its text and the operator after it (`none` for the last command of the line). -/
structure Command where
  chars : List TextChar
  sep : Option SepOp
  deriving DecidableEq, Repr

/-- The commands of a token list. -/
def splitOps : List Tok → List Command
  | [] => [⟨[], none⟩]
  | .op o :: ts => ⟨[], some o⟩ :: splitOps ts
  | .chr c :: ts =>
    match splitOps ts with
    | [] => [⟨[c], none⟩]
    | cmd :: cmds => { cmd with chars := c :: cmd.chars } :: cmds

/-- The commands of a line. -/
def parseLine (line : List UInt8) : Option (List Command) := (lex .init line).map splitOps

/-- An unquoted blank. -/
def TextChar.isBlank (c : TextChar) : Bool := c.plain && shIsSpace c.byte

/-- A command without the unquoted blanks around it. -/
def Command.trimmed (cmd : Command) : List TextChar :=
  (cmd.chars.dropWhile TextChar.isBlank).rdropWhile TextChar.isBlank

/-- The text of a command. -/
def Command.text (cmd : Command) : List UInt8 := cmd.trimmed.map TextChar.byte

/-- The command's text ends in a blank that is part of its last word. -/
def Command.EndsInEscapedBlank (cmd : Command) : Prop :=
  ∃ c ∈ cmd.trimmed.getLast?, shIsSpace c.byte = true

/-- `&&` and `||`. -/
def SepOp.isConditional : SepOp → Bool
  | .andAnd | .orOr => true
  | .semi | .amp => false

/-- No empty command stands beside `&&` or `||`. -/
def NoEmptyBeside : List Command → Prop
  | [] => True
  | [_] => True
  | cmd :: next :: cmds =>
    ((∃ o ∈ cmd.sep, o.isConditional = true) → cmd.trimmed ≠ [] ∧ next.trimmed ≠ []) ∧
      NoEmptyBeside (next :: cmds)

/-- What the operator after a command asks of the next one. -/
def Command.opAfter (cmd : Command) : ShOp :=
  match cmd.sep with
  | some .andAnd => .and
  | some .orOr => .or
  | _ => .seq

/-- The pipelines that `cmds` start after those in `calls`, when `prev` stands before them and
`last` is the status of the last pipeline that ran.  Empty commands start nothing. -/
def lineCallsFrom (run : Runner) (calls : List Call) (prev : ShOp) (last : Int) :
    List Command → List Call
  | [] => calls
  | cmd :: cmds =>
    if cmd.trimmed = [] then lineCallsFrom run calls prev last cmds
    else if (prev = .and ∧ last ≠ 0) ∨ (prev = .or ∧ last = 0) then
      lineCallsFrom run calls cmd.opAfter last cmds
    else
      let call : Call := ⟨some cmd.text, cmd.sep = some .amp⟩
      lineCallsFrom run (calls ++ [call]) cmd.opAfter (run calls call) cmds

/-- The pipelines a line starts when the status before it is `last`. -/
def lineCalls (run : Runner) (last : Int) (cmds : List Command) : List Call :=
  lineCallsFrom run [] .seq last cmds

end Rabbitbone.Spec.Shell
