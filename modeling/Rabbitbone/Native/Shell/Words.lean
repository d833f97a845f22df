import Rabbitbone.Native.Shell.Segment

/-!
# The words of a command of `rbsh`

Model of `sh_print_shell_word` (`user/bin/rbsh/util.inc`) and of the parser of one command,
`sh_parse_stage` with the tokenizer below it (`user/bin/rbsh/parse.inc`).

A C string is the list of its bytes, and a pointer into it is the rest of the list.  `sh_var_get` is
a parameter.  The path of the program, which `sh_resolve_program` looks up in the end, is left out.
-/

namespace Rabbitbone.Native.Shell

/-! ### Characters -/

def chDollar : UInt8 := '$'.toUInt8
def chLt : UInt8 := '<'.toUInt8
def chEq : UInt8 := '='.toUInt8
def chTilde : UInt8 := '~'.toUInt8
def chSlash : UInt8 := '/'.toUInt8
def chUnderscore : UInt8 := '_'.toUInt8
def chOne : UInt8 := '1'.toUInt8
def chTwo : UInt8 := '2'.toUInt8

/-- `sh_is_digit`. -/
def shIsDigit (c : UInt8) : Bool := '0'.toUInt8 ≤ c && c ≤ '9'.toUInt8

/-- `sh_is_alpha`. -/
def shIsAlpha (c : UInt8) : Bool :=
  ('a'.toUInt8 ≤ c && c ≤ 'z'.toUInt8) || ('A'.toUInt8 ≤ c && c ≤ 'Z'.toUInt8)

/-- `sh_is_name_start`. -/
def shIsNameStart (c : UInt8) : Bool := shIsAlpha c || c == chUnderscore

/-- `sh_is_name_char`. -/
def shIsNameChar (c : UInt8) : Bool := shIsNameStart c || shIsDigit c

/-! ### `sh_print_shell_word` -/

/-- A character that needs no quotes. -/
def shIsSimple (c : UInt8) : Bool :=
  shIsNameChar c || c == chSlash || c == '.'.toUInt8 || c == '-'.toUInt8 || c == ':'.toUInt8 ||
    c == '+'.toUInt8

/-- A character between quotes. -/
def shQuoteChar (c : UInt8) : List UInt8 :=
  if c == chSquote then [chSquote, chBackslash, chSquote, chSquote] else [c]

/-- `sh_print_shell_word`. -/
def shPrintShellWord (s : List UInt8) : List UInt8 :=
  if !s.isEmpty && s.all shIsSimple then s else chSquote :: (s.flatMap shQuoteChar ++ [chSquote])

/-! ### Tokens -/

/-- `SH_TOKEN_MAX`. -/
def shTokenMax : Nat := 256

/-- `SH_TOKENS_MAX`. -/
def shTokensMax : Nat := 64

/-- `SH_VAR_NAME_MAX`. -/
def shVarNameMax : Nat := 32

/-- `sh_redir_operator_len`. -/
def shRedirOperatorLen (p : List UInt8) : Nat :=
  let at' (i : Nat) := p.getD i 0
  if at' 0 = 0 then 0
  else if at' 0 = chLt then 1
  else if at' 0 = chAmp ∧ at' 1 = chGt then if at' 2 = chGt then 3 else 2
  else if (at' 0 = chOne ∨ at' 0 = chTwo) ∧ at' 1 = chGt then
    if at' 2 = chAmp ∧ shIsDigit (at' 3) then 4
    else if at' 2 = chGt then 3 else 2
  else if at' 0 = chGt then
    if at' 1 = chAmp ∧ shIsDigit (at' 2) then 3
    else if at' 1 = chGt then 2 else 1
  else 0

/-- `sh_append_char` to a token. -/
def shAppendChar (out : List UInt8) (c : UInt8) : Option (List UInt8) :=
  if shTokenMax ≤ out.length + 1 then none else some (out ++ [c])

/-- `sh_append_str` to a token. -/
def shAppendStr (out src : List UInt8) : Option (List UInt8) :=
  if shTokenMax ≤ out.length + src.length then none else some (out ++ src)

/-- `sh_expand_dollar` behind the `$`: the token and the rest of the text. -/
def shExpandDollar (varGet : List UInt8 → List UInt8) (p out : List UInt8) :
    Option (List UInt8 × List UInt8) :=
  match p with
  | [] => (shAppendChar out chDollar).map (·, [])
  | c :: rest =>
    if c = '?'.toUInt8 ∨ c = chDollar then (shAppendStr out (varGet [c])).map (·, rest)
    else if c = 123 then -- an opening brace
      let name := rest.takeWhile (· ≠ 125)
      match rest.dropWhile (· ≠ 125) with
      | [] => none
      | _ :: rest =>
        if name.length = 0 ∨ shVarNameMax ≤ name.length then none
        else (shAppendStr out (varGet name)).map (·, rest)
    else if shIsNameStart c then
      let name := p.takeWhile shIsNameChar
      if shVarNameMax ≤ name.length then none
      else (shAppendStr out (varGet name)).map (·, p.dropWhile shIsNameChar)
    else (shAppendChar out chDollar).map (·, p)

private theorem shExpandDollar_length_le {varGet : List UInt8 → List UInt8}
    {p out out' rest : List UInt8}
    (h : shExpandDollar varGet p out = some (out', rest)) : rest.length ≤ p.length := by
  unfold shExpandDollar at h
  cases p with
  | nil =>
    obtain ⟨a, -, heq⟩ := Option.map_eq_some_iff.mp h
    exact Nat.le_of_eq (congrArg List.length (Prod.mk.inj heq).2.symm)
  | cons c p =>
    dsimp only at h
    split at h
    · obtain ⟨a, -, heq⟩ := Option.map_eq_some_iff.mp h
      rw [← (Prod.mk.inj heq).2]
      exact Nat.le_succ _
    · split at h
      · split at h
        · cases h
        · rename_i c' tail hdrop
          split at h
          · cases h
          · obtain ⟨a, -, heq⟩ := Option.map_eq_some_iff.mp h
            have hlen := (List.dropWhile_sublist (l := p)
                (fun x : UInt8 => decide (x ≠ 125))).length_le
            rw [hdrop, List.length_cons] at hlen
            rw [← (Prod.mk.inj heq).2, List.length_cons]
            omega
      · split at h
        · split at h
          · cases h
          · obtain ⟨a, -, heq⟩ := Option.map_eq_some_iff.mp h
            rw [← (Prod.mk.inj heq).2]
            exact (List.dropWhile_sublist shIsNameChar).length_le
        · obtain ⟨a, -, heq⟩ := Option.map_eq_some_iff.mp h
          exact Nat.le_of_eq (congrArg List.length (Prod.mk.inj heq).2.symm)

/-- The quotes around the text at the pointer. -/
inductive ShQuote where
  | none
  | single
  | double
  deriving DecidableEq, Repr

/-- The loop of `sh_read_word`: the token and the rest of the text. -/
def shReadLoop (varGet : List UInt8 → List UInt8) (p out : List UInt8) (quote : ShQuote) :
    Option (List UInt8 × List UInt8) :=
  match p with
  | [] => if quote = .none then some (out, []) else none
  | c :: rest =>
    match quote with
    | .single =>
      if c = chSquote then shReadLoop varGet rest out .none
      else
        match shAppendChar out c with
        | none => none
        | some out => shReadLoop varGet rest out .single
    | .double =>
      if c = chDquote then shReadLoop varGet rest out .none
      else if c = chBackslash then
        match rest with
        | [] => (shAppendChar out c).bind fun _ => none
        | c' :: rest' =>
          if c' = chDquote ∨ c' = chBackslash ∨ c' = chDollar then
            match shAppendChar out c' with
            | none => none
            | some out => shReadLoop varGet rest' out .double
          else
            match shAppendChar out c with
            | none => none
            | some out => shReadLoop varGet (c' :: rest') out .double
      else if c = chDollar then
        match _ : shExpandDollar varGet rest out with
        | none => none
        | some (out, rest') => shReadLoop varGet rest' out .double
      else
        match shAppendChar out c with
        | none => none
        | some out => shReadLoop varGet rest out .double
    | .none =>
      if shIsSpace c || shRedirOperatorLen (c :: rest) ≠ 0 then some (out, c :: rest)
      else if c = chSquote then shReadLoop varGet rest out .single
      else if c = chDquote then shReadLoop varGet rest out .double
      else if c = chBackslash then
        match rest with
        | [] => (shAppendChar out chBackslash).map (·, [])
        | c' :: rest' =>
          match shAppendChar out c' with
          | none => none
          | some out => shReadLoop varGet rest' out .none
      else if c = chDollar then
        match _ : shExpandDollar varGet rest out with
        | none => none
        | some (out, rest') => shReadLoop varGet rest' out .none
      else
        match shAppendChar out c with
        | none => none
        | some out => shReadLoop varGet rest out .none
termination_by p.length
decreasing_by
  all_goals first
    | (have hle := shExpandDollar_length_le ‹_›; simp only [List.length_cons]; omega)
    | (simp only [List.length_cons]; omega)

/-- `sh_read_word` at a byte at which a word starts. -/
def shReadWord (varGet : List UInt8 → List UInt8) (p : List UInt8) :
    Option (List UInt8 × List UInt8) :=
  match p with
  | [] => none
  | c :: rest =>
    if c = chTilde ∧ (rest = [] ∨ rest.head? = some chSlash) then
      let home := varGet ("HOME".toUTF8.toList)
      match shAppendStr [] (if home = [] then [chSlash] else home) with
      | none => none
      | some out => shReadLoop varGet rest out .none
    -- nothing is read, and the word has not started
    else if shIsSpace c || shRedirOperatorLen (c :: rest) ≠ 0 then none
    else shReadLoop varGet (c :: rest) [] .none

/-- `sh_tokenize` from a pointer on, with the tokens before it; the fuel bounds its rounds. -/
def shTokenizeLoop (varGet : List UInt8 → List UInt8) :
    Nat → List UInt8 → List (List UInt8) → Option (List (List UInt8))
  | 0, _, _ => none
  | fuel + 1, p, tokens =>
    let p := p.dropWhile shIsSpace
    if p = [] then some tokens
    else if shTokensMax ≤ tokens.length then none
    else if shRedirOperatorLen p ≠ 0 then
      shTokenizeLoop varGet fuel (p.drop (shRedirOperatorLen p))
        (tokens ++ [p.take (shRedirOperatorLen p)])
    else
      match shReadWord varGet p with
      | none => none
      | some (token, p) => shTokenizeLoop varGet fuel p (tokens ++ [token])

/-- `sh_tokenize`. -/
def shTokenize (varGet : List UInt8 → List UInt8) (text : List UInt8) :
    Option (List (List UInt8)) :=
  shTokenizeLoop varGet (text.length + 1) text []

/-! ### Stages -/

/-- `SH_REDIR_NONE`, `SH_REDIR_TRUNC` and `SH_REDIR_APPEND`. -/
inductive ShRedirMode where
  | none
  | trunc
  | append
  deriving DecidableEq, Repr

/-- `sh_redir_t`. -/
inductive ShRedir where
  | path (fd : Nat) (mode : ShRedirMode) (path : List UInt8)
  | dup (fd target : Nat)
  deriving DecidableEq, Repr

/-- `sh_stage_t`. -/
structure ShStage where
  argv : List (List UInt8)
  assigns : List (List UInt8 × List UInt8)
  inPath : List UInt8
  outPath : List UInt8
  errPath : List UInt8
  outMode : ShRedirMode
  errMode : ShRedirMode
  errToOut : Bool
  outToErr : Bool
  redirs : List ShRedir
  deriving DecidableEq, Repr

/-- A stage behind `au_memset`. -/
def ShStage.cleared : ShStage := ⟨[], [], [], [], [], .none, .none, false, false, []⟩

/-- `SH_REDIR_MAX`. -/
def shRedirMax : Nat := 12

/-- `SH_PATH_MAX`. -/
def shPathMax : Nat := 256

/-- `SH_ASSIGN_MAX`. -/
def shAssignMax : Nat := 8

/-- `SH_ARG_MAX`. -/
def shArgMax : Nat := 32

/-- The text of an operator. -/
def shOp (s : String) : List UInt8 := s.toUTF8.toList

/-- `sh_need_path_token`. -/
def shNeedPathToken (op : List UInt8) : Bool :=
  !(op == shOp "2>&1" || op == shOp "1>&2" || op == shOp ">&2")

/-- `sh_add_redir_path`. -/
def shAddRedirPath (stage : ShStage) (fd : Nat) (mode : ShRedirMode) (path : Option (List UInt8)) :
    Option (ShStage × List UInt8) :=
  match path with
  | none => none
  | some path =>
    if path = [] ∨ shRedirMax ≤ stage.redirs.length ∨ shPathMax ≤ path.length then none
    else some ({ stage with redirs := stage.redirs ++ [.path fd mode path] }, path)

/-- `sh_add_redir_dup`. -/
def shAddRedirDup (stage : ShStage) (fd target : Nat) : Option ShStage :=
  if shRedirMax ≤ stage.redirs.length then none
  else some { stage with redirs := stage.redirs ++ [.dup fd target] }

/-- `sh_set_stage_redir`. -/
def shSetStageRedir (stage : ShStage) (op : List UInt8) (path : Option (List UInt8)) :
    Option ShStage :=
  if op = shOp "<" then
    (shAddRedirPath stage 0 .none path).map fun (stage, path) => { stage with inPath := path }
  else if op = shOp ">" ∨ op = shOp "1>" then
    (shAddRedirPath stage 1 .trunc path).map fun (stage, path) =>
      { stage with outMode := .trunc, outToErr := false, outPath := path }
  else if op = shOp ">>" ∨ op = shOp "1>>" then
    (shAddRedirPath stage 1 .append path).map fun (stage, path) =>
      { stage with outMode := .append, outToErr := false, outPath := path }
  else if op = shOp "2>" then
    (shAddRedirPath stage 2 .trunc path).map fun (stage, path) =>
      { stage with errMode := .trunc, errToOut := false, errPath := path }
  else if op = shOp "2>>" then
    (shAddRedirPath stage 2 .append path).map fun (stage, path) =>
      { stage with errMode := .append, errToOut := false, errPath := path }
  else if op = shOp "2>&1" then
    (shAddRedirDup stage 2 1).map fun stage => { stage with errPath := [], errToOut := true }
  else if op = shOp "1>&2" ∨ op = shOp ">&2" then
    (shAddRedirDup stage 1 2).map fun stage => { stage with outPath := [], outToErr := true }
  else if op = shOp "&>" ∨ op = shOp "&>>" then
    let mode : ShRedirMode := if op = shOp "&>>" then .append else .trunc
    (shAddRedirPath stage 1 mode path).bind fun (stage, path) =>
      (shAddRedirDup stage 2 1).map fun stage =>
        { stage with
          outMode := mode, errToOut := true, outToErr := false, errPath := [], outPath := path }
  else none

/-- `sh_assignment_token`: the name and the value. -/
def shAssignmentToken (s : List UInt8) : Option (List UInt8 × List UInt8) :=
  if !shIsNameStart (s.headD 0) then none
  else
    let name := s.takeWhile shIsNameChar
    match s.dropWhile shIsNameChar with
    | c :: value => if c = chEq ∧ name.length < shVarNameMax then some (name, value) else none
    | [] => none

/-- The loop of `sh_parse_stage` over the tokens. -/
def shParseTokens : List (List UInt8) → ShStage → Option ShStage
  | [], stage => some stage
  | t :: ts, stage =>
    if shRedirOperatorLen t ≠ 0 ∧ shRedirOperatorLen t = t.length then
      if shNeedPathToken t then
        match ts with
        | [] => none
        | path :: ts =>
          match shSetStageRedir stage t (some path) with
          | none => none
          | some stage => shParseTokens ts stage
      else
        match shSetStageRedir stage t none with
        | none => none
        | some stage => shParseTokens ts stage
    else
      match (if stage.argv = [] then shAssignmentToken t else none) with
      | some (name, value) =>
        if shAssignMax ≤ stage.assigns.length ∨ shTokenMax ≤ value.length then none
        else shParseTokens ts { stage with assigns := stage.assigns ++ [(name, value)] }
      | none =>
        if shArgMax ≤ stage.argv.length ∨ shTokenMax ≤ t.length then none
        else shParseTokens ts { stage with argv := stage.argv ++ [t] }

/-- `sh_parse_stage`. -/
def shParseStage (varGet : List UInt8 → List UInt8) (text : List UInt8) : Option ShStage :=
  match shTokenize varGet text with
  | none => none
  | some tokens =>
    if tokens = [] then none
    else
      match shParseTokens tokens ShStage.cleared with
      | none => none
      | some stage =>
        if stage.argv ≠ [] ∨ stage.assigns ≠ [] ∨ stage.redirs ≠ [] then some stage else none

end Rabbitbone.Native.Shell
