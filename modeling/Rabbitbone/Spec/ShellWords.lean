import Rabbitbone.Native.Shell.Words

/-!
# Words that are printed and parsed again

`sh_print_shell_word` puts a word between quotes so that the shell reads it back.  The tokenizer
does, but `sh_parse_stage` looks for redirections in the text of the tokens, where the quotes are
gone: a word that is the text of an operator is taken for the operator.
-/

namespace Rabbitbone.Spec.Shell

open Native.Shell List Option

variable {varGet : List UInt8 → List UInt8}

/-- A byte without a meaning of its own in a command. -/
def Plain (c : UInt8) : Prop :=
  c ≠ 0 ∧ shIsSpace c = false ∧
    c ∉ [chSquote, chDquote, chBackslash, chDollar, chLt, chGt, chAmp, chEq]

instance (c : UInt8) : Decidable (Plain c) := inferInstanceAs (Decidable (_ ∧ _ ∧ _))

/-- A word for the name of a command. -/
structure CommandWord where
  bytes : List UInt8
  ne_nil : bytes ≠ []
  short : bytes.length < shTokenMax
  plain : ∀ c ∈ bytes, Plain c
  tilde : bytes.head? ≠ some chTilde

/-- The blanks between two words. -/
structure Blanks where
  bytes : List UInt8
  ne_nil : bytes ≠ []
  blank : ∀ c ∈ bytes, shIsSpace c = true

/-- A string that fits into a token. -/
structure Word where
  bytes : List UInt8
  nonzero : ∀ c ∈ bytes, c ≠ 0
  short : bytes.length < 256

/-- The texts of the redirection operators. -/
def operators : List (List UInt8) :=
  ["<", ">", ">>", "1>", "1>>", "2>", "2>>", "&>", "&>>"].map shOp ++ (range 10).flatMap fun d =>
      [">&", "1>&", "2>&"].map fun op => shOp op ++ [UInt8.ofNat (48 + d)]

/-- The second word of the command is `w`, and there is nothing else than words. -/
def ReadsBack (varGet : List UInt8 → List UInt8) (text w : List UInt8) : Prop :=
  ∃ stage, shParseStage varGet text = some stage ∧ stage.argv[1]? = some w ∧ stage.redirs = [] ∧
    stage.assigns = []

/-! ### Reading a word -/

variable {out rest w op : List UInt8} {c d : UInt8} {stage stage' : ShStage} {fd : Nat}
  {path : Option (List UInt8)}

private theorem shAppendChar_some (h : out.length + 1 < shTokenMax) :
    shAppendChar out c = some (out ++ [c]) := by
  rw [shAppendChar, if_neg (Nat.not_le.mpr h)]

/-- No operator starts at a plain byte that is not followed by `>`. -/
theorem shRedirOperatorLen_plain (hc : Plain c) (hnext : rest.head? ≠ some chGt) :
    shRedirOperatorLen (c :: rest) = 0 := by
  obtain ⟨-, -, hnot⟩ := hc
  have hlt : c ≠ chLt := fun h => hnot (by rw [h]; decide)
  have hamp : c ≠ chAmp := fun h => hnot (by rw [h]; decide)
  have hgt : c ≠ chGt := fun h => hnot (by rw [h]; decide)
  have hone : rest.getD 0 0 ≠ chGt := by
    cases rest with
    | nil => decide
    | cons c' rest => exact fun h => hnext (congrArg some h)
  simp only [shRedirOperatorLen, getD_cons_zero, getD_cons_succ, hlt, hamp, hgt, hone, if_false,
    and_false, if_false]
  split <;> rfl

/-! The cases of the loop outside of quotes. -/

private theorem shReadLoop_blank (hc : shIsSpace c = true) (rest out : List UInt8) :
    shReadLoop varGet (c :: rest) out .none = some (out, c :: rest) := by
  rw [shReadLoop.eq_def]
  simp only [hc, Bool.true_or, if_true]

private theorem shReadLoop_char (hc : Plain c) (hop : shRedirOperatorLen (c :: rest) = 0)
    (hlen : out.length + 1 < shTokenMax) :
    shReadLoop varGet (c :: rest) out .none = shReadLoop varGet rest (out ++ [c]) .none := by
  obtain ⟨-, hspace, hnot⟩ := hc
  have hsq : c ≠ chSquote := fun h => hnot (by rw [h]; decide)
  have hdq : c ≠ chDquote := fun h => hnot (by rw [h]; decide)
  have hbs : c ≠ chBackslash := fun h => hnot (by rw [h]; decide)
  have hdollar : c ≠ chDollar := fun h => hnot (by rw [h]; decide)
  rw [shReadLoop.eq_def]
  simp only [hspace, hop, hsq, hdq, hbs, hdollar, shAppendChar_some hlen, ne_eq,
    not_true, decide_false, Bool.or_false, if_false, Bool.false_eq_true]

private theorem shReadLoop_open (rest out : List UInt8) :
    shReadLoop varGet (chSquote :: rest) out .none = shReadLoop varGet rest out .single := by
  have hop : shRedirOperatorLen (chSquote :: rest) = 0 := rfl
  have hspace : shIsSpace chSquote = false := by decide
  rw [shReadLoop.eq_def]
  simp only [hop, hspace, ne_eq, not_true, decide_false, Bool.or_false, if_false,
    Bool.false_eq_true, if_true]

private theorem shReadLoop_escape (c : UInt8) (hlen : out.length + 1 < shTokenMax) :
    shReadLoop varGet (chBackslash :: c :: rest) out .none =
      shReadLoop varGet rest (out ++ [c]) .none := by
  have hop : shRedirOperatorLen (chBackslash :: c :: rest) = 0 := rfl
  have hspace : shIsSpace chBackslash = false := by decide
  have hsq : chBackslash ≠ chSquote := by decide
  have hdq : chBackslash ≠ chDquote := by decide
  rw [shReadLoop.eq_def]
  simp only [hop, hspace, hsq, hdq, shAppendChar_some hlen, ne_eq, not_true, decide_false,
    Bool.or_false, if_false, Bool.false_eq_true, if_true]

/-- A plain word is read up to what follows it. -/
theorem shReadLoop_plain (hw : ∀ c ∈ w, Plain c) (hlen : out.length + w.length < shTokenMax)
    (hrest : rest = [] ∨ ∃ c r, rest = c :: r ∧ shIsSpace c = true) :
    shReadLoop varGet (w ++ rest) out .none = some (out ++ w, rest) := by
  induction w generalizing out with
  | nil =>
    rw [nil_append, append_nil]
    rcases hrest with rfl | ⟨c, r, rfl, hspace⟩
    · rw [shReadLoop, if_pos rfl]
    · exact shReadLoop_blank hspace r out
  | cons c w ih =>
    rw [length_cons] at hlen
    have hc := hw c mem_cons_self
    have hnext : (w ++ rest).head? ≠ some chGt := by
      cases w with
      | cons c' w =>
        intro h
        have hc' := (hw c' (mem_cons_of_mem _ mem_cons_self)).2.2
        exact hc' (by rw [some.inj h]; decide)
      | nil =>
        rcases hrest with rfl | ⟨c', r, rfl, hspace⟩
        · exact fun h => by cases h
        intro h
        rw [show c' = chGt from some.inj h] at hspace
        exact absurd hspace (by decide)
    rw [cons_append, shReadLoop_char hc (shRedirOperatorLen_plain hc hnext) (by omega),
      ih (fun c hc => hw c (mem_cons_of_mem _ hc)) (by rw [length_append, length_singleton]; omega),
      append_assoc, singleton_append]

/-- A word between quotes is read back. -/
theorem shReadLoop_quoted (hlen : out.length + w.length < shTokenMax) :
    shReadLoop varGet (w.flatMap shQuoteChar ++ [chSquote]) out .single = some (out ++ w, []) := by
  induction w generalizing out with
  | nil =>
    rw [flatMap_nil, nil_append, append_nil, shReadLoop]
    simp only [if_true]
    rw [shReadLoop, if_pos rfl]
  | cons c w ih =>
    rw [length_cons] at hlen
    have happend : ∀ c, shAppendChar out c = some (out ++ [c]) :=
      fun c => shAppendChar_some (by omega)
    have hrest : shReadLoop varGet (w.flatMap shQuoteChar ++ [chSquote]) (out ++ [c]) .single
        = some (out ++ c :: w, []) := by
      rw [ih (by rw [length_append, length_singleton]; omega), append_assoc, singleton_append]
    rw [flatMap_cons, append_assoc]
    by_cases hc : c = chSquote
    · -- the quotes end, a quote stands behind a backslash, and they start again
      subst hc
      have hquote : shQuoteChar chSquote = [chSquote, chBackslash, chSquote, chSquote] := rfl
      rw [hquote]
      simp only [cons_append, nil_append]
      rw [shReadLoop]
      rw [shReadLoop_escape chSquote (by omega), shReadLoop_open]
      exact hrest
    · have hquote : shQuoteChar c = [c] := by
        rw [shQuoteChar, if_neg]
        simpa using hc
      rw [hquote, singleton_append, shReadLoop]
      simp only [hc, if_false, happend]
      exact hrest

/-! ### Printed words -/

/-- A property of all bytes is a property of 256 numbers. -/
theorem forall_byte {p : UInt8 → Prop} (h : ∀ n : Fin 256, p (UInt8.ofNat n.val)) (c : UInt8) :
    p c := by
  have hc := h ⟨c.toNat, c.toNat_lt⟩
  rwa [UInt8.ofNat_toNat] at hc

private theorem plain_of_simple (h : shIsSimple c = true) : Plain c ∧ c ≠ chTilde := by
  have hall : ∀ c : UInt8, shIsSimple c = true → Plain c ∧ c ≠ chTilde := by
    refine forall_byte ?_
    decide +kernel
  exact hall c h

/-- A printed word starts with a byte that is no blank, no tilde and no operator. -/
theorem shPrintShellWord_head (w : List UInt8) : ∃ c rest, shPrintShellWord w = c :: rest ∧
    shIsSpace c = false ∧ c ≠ chTilde ∧ shRedirOperatorLen (c :: rest) = 0 := by
  rw [shPrintShellWord]
  by_cases h : (!w.isEmpty && w.all shIsSimple) = true
  · rw [if_pos h]
    obtain ⟨hne, hall⟩ := Bool.and_eq_true_iff.mp h
    have hsimple := all_eq_true.mp hall
    cases w with
    | nil => exact nomatch hne
    | cons c rest =>
      obtain ⟨hplain, htilde⟩ := plain_of_simple (hsimple c mem_cons_self)
      refine ⟨c, rest, rfl, hplain.2.1, htilde, shRedirOperatorLen_plain hplain ?_⟩
      cases rest with
      | nil => exact fun h => nomatch h
      | cons c' rest =>
        intro hgt
        have hplain' := (plain_of_simple (hsimple c' (mem_cons_of_mem _ mem_cons_self))).1
        exact hplain'.2.2 (by rw [some.inj hgt]; decide)
  · rw [if_neg h]
    exact ⟨chSquote, _, rfl, by decide, by decide, rfl⟩

/-- The tokenizer reads a printed word back. -/
theorem shReadWord_print (hw : w.length < shTokenMax) :
    shReadWord varGet (shPrintShellWord w) = some (w, []) := by
  obtain ⟨c, rest, hprint, hspace, htilde, hop⟩ := shPrintShellWord_head w
  have hloop : shReadWord varGet (shPrintShellWord w) =
      shReadLoop varGet (shPrintShellWord w) [] .none := by
    rw [hprint, shReadWord]
    simp only [htilde, false_and, if_false, hspace, hop, ne_eq, not_true, decide_false,
      Bool.or_false, Bool.false_eq_true]
  rw [hloop, shPrintShellWord]
  by_cases h : (!w.isEmpty && w.all shIsSimple) = true
  · rw [if_pos h]
    have hsimple := all_eq_true.mp (Bool.and_eq_true_iff.mp h).2
    have hread : shReadLoop varGet (w ++ []) [] .none = some ([] ++ w, []) :=
      shReadLoop_plain (fun c hc => (plain_of_simple (hsimple c hc)).1)
        (by rw [length_nil]; omega) (.inl rfl)
    rw [append_nil, nil_append] at hread
    exact hread
  · rw [if_neg h, shReadLoop_open, shReadLoop_quoted (by rw [length_nil]; omega), nil_append]

/-! ### Commands -/

private theorem shReadWord_command (varGet : List UInt8 → List UInt8) (cmd : CommandWord)
    (sep : Blanks) (rest : List UInt8) :
    shReadWord varGet (cmd.bytes ++ (sep.bytes ++ rest)) = some (cmd.bytes, sep.bytes ++ rest) ∧
      shRedirOperatorLen (cmd.bytes ++ (sep.bytes ++ rest)) = 0 := by
  have hafter : ∃ c r, sep.bytes ++ rest = c :: r ∧ shIsSpace c = true := by
    cases hsep : sep.bytes with
    | nil => exact absurd hsep sep.ne_nil
    | cons c r => exact ⟨c, r ++ rest, rfl, sep.blank c (by rw [hsep]; exact mem_cons_self)⟩
  have hread : shReadLoop varGet (cmd.bytes ++ (sep.bytes ++ rest)) [] .none
      = some ([] ++ cmd.bytes, sep.bytes ++ rest) :=
    shReadLoop_plain cmd.plain (by rw [length_nil, Nat.zero_add]; exact cmd.short) (.inr hafter)
  rw [nil_append] at hread
  cases hcmd : cmd.bytes with
  | nil => exact absurd hcmd cmd.ne_nil
  | cons c bytes =>
    have hc := cmd.plain c (by rw [hcmd]; exact mem_cons_self)
    have htilde : c ≠ chTilde := fun h => cmd.tilde (by rw [hcmd, h]; rfl)
    have hnext : (bytes ++ (sep.bytes ++ rest)).head? ≠ some chGt := by
      cases bytes with
      | cons c' bytes =>
        intro h
        have hplain := cmd.plain c' (by rw [hcmd]; exact mem_cons_of_mem _ mem_cons_self)
        exact hplain.2.2 (by rw [some.inj h]; decide)
      | nil =>
        obtain ⟨c', r, hsep, hspace⟩ := hafter
        rw [nil_append, hsep]
        intro h
        rw [show c' = chGt from some.inj h] at hspace
        exact absurd hspace (by decide)
    have hop := shRedirOperatorLen_plain hc hnext
    rw [hcmd] at hread
    refine ⟨?_, hop⟩
    rw [← hread, cons_append, shReadWord]
    simp only [htilde, false_and, if_false, hc.2.1, hop, ne_eq, not_true, decide_false,
      Bool.or_false, Bool.false_eq_true]

/-- The tokens of a command and a printed word. -/
theorem shTokenize_command (cmd : CommandWord) (sep : Blanks) (w : Word) :
    shTokenize varGet (cmd.bytes ++ (sep.bytes ++ shPrintShellWord w.bytes)) =
      some [cmd.bytes, w.bytes] := by
  obtain ⟨c, rest, hprint, hspace, -, hop⟩ := shPrintShellWord_head w.bytes
  obtain ⟨hread, hcop⟩ := shReadWord_command varGet cmd sep (shPrintShellWord w.bytes)
  have hfuel : ∃ n, (cmd.bytes ++ (sep.bytes ++ shPrintShellWord w.bytes)).length + 1 = n + 3 := by
    have hcmd := length_pos_iff.mpr cmd.ne_nil
    have hsep := length_pos_iff.mpr sep.ne_nil
    refine ⟨cmd.bytes.length + sep.bytes.length + (shPrintShellWord w.bytes).length - 2, ?_⟩
    rw [length_append, length_append]
    omega
  obtain ⟨n, hn⟩ := hfuel
  have hdrop : (cmd.bytes ++ (sep.bytes ++ shPrintShellWord w.bytes)).dropWhile shIsSpace
      = cmd.bytes ++ (sep.bytes ++ shPrintShellWord w.bytes) := by
    cases hcmd : cmd.bytes with
    | nil => exact absurd hcmd cmd.ne_nil
    | cons c bytes =>
      have hc := cmd.plain c (by rw [hcmd]; exact mem_cons_self)
      rw [cons_append, dropWhile_cons_of_neg]
      rw [hc.2.1]
      exact Bool.false_ne_true
  have hdropSep : (sep.bytes ++ shPrintShellWord w.bytes).dropWhile shIsSpace =
      shPrintShellWord w.bytes := by
    rw [dropWhile_append_of_pos sep.blank, hprint, dropWhile_cons_of_neg]
    rw [hspace]
    exact Bool.false_ne_true
  have hne : cmd.bytes ++ (sep.bytes ++ shPrintShellWord w.bytes) ≠ [] :=
    fun h => cmd.ne_nil (append_eq_nil_iff.mp h).1
  have hprintNe : shPrintShellWord w.bytes ≠ [] := by
    rw [hprint]
    exact cons_ne_nil c rest
  have hopw : shRedirOperatorLen (shPrintShellWord w.bytes) = 0 := by rw [hprint, hop]
  rw [shTokenize, hn, shTokenizeLoop]
  simp only [hdrop, hne, if_false, hcop, ne_eq, not_true, hread, length_nil, nil_append,
    show ¬shTokensMax ≤ 0 by decide]
  rw [shTokenizeLoop]
  simp only [hdropSep, hprintNe, if_false, hopw, ne_eq, not_true, shReadWord_print w.short,
    length_singleton, show ¬shTokensMax ≤ 1 by decide]
  rfl

/-! ### Stages -/

private theorem shAddRedirPath_argv {mode : ShRedirMode}
    {p : List UInt8} (h : shAddRedirPath stage fd mode path = some (stage', p)) :
    stage'.argv = stage.argv := by
  cases path with
  | none => cases h
  | some path =>
    simp only [shAddRedirPath] at h
    split at h
    · cases h
    · rw [← (Prod.mk.inj (some.inj h)).1]

private theorem shAddRedirDup_argv {target : Nat}
    (h : shAddRedirDup stage fd target = some stage') :
    stage'.argv = stage.argv := by
  rw [shAddRedirDup] at h
  split at h
  · exact nomatch h
  · rw [← some.inj h]

/-- A redirection is not a word of the command. -/
theorem shSetStageRedir_argv
    (h : shSetStageRedir stage op path = some stage') : stage'.argv = stage.argv := by
  have hpath : ∀ {fd mode} {f : ShStage × List UInt8 → ShStage},
      (shAddRedirPath stage fd mode path).map f = some stage' → (∀ x, (f x).argv = x.1.argv) →
      stage'.argv = stage.argv := by
    intro fd mode f heq hf
    obtain ⟨⟨stage₁, p⟩, hadd, rfl⟩ := map_eq_some_iff.mp heq
    rw [hf]
    exact shAddRedirPath_argv hadd
  have hdup : ∀ {fd target} {f : ShStage → ShStage},
      (shAddRedirDup stage fd target).map f = some stage' → (∀ x, (f x).argv = x.argv) →
      stage'.argv = stage.argv := by
    intro fd target f heq hf
    obtain ⟨stage₁, hadd, rfl⟩ := map_eq_some_iff.mp heq
    rw [hf]
    exact shAddRedirDup_argv hadd
  rw [shSetStageRedir] at h
  split at h
  · exact hpath h fun _ => rfl
  split at h
  · exact hpath h fun _ => rfl
  split at h
  · exact hpath h fun _ => rfl
  split at h
  · exact hpath h fun _ => rfl
  split at h
  · exact hpath h fun _ => rfl
  split at h
  · exact hdup h fun _ => rfl
  split at h
  · exact hdup h fun _ => rfl
  split at h
  · obtain ⟨⟨stage₁, p⟩, hadd, heq⟩ := bind_eq_some_iff.mp h
    obtain ⟨stage₂, hadd₂, rfl⟩ := map_eq_some_iff.mp heq
    exact (shAddRedirDup_argv hadd₂).trans (shAddRedirPath_argv hadd)
  · exact nomatch h

/-- The name of a command is a word of it. -/
theorem shParseTokens_command (cmd : CommandWord) (ts : List (List UInt8)) :
    shParseTokens (cmd.bytes :: ts) ShStage.cleared
      = shParseTokens ts { ShStage.cleared with argv := [cmd.bytes] } := by
  have hop : shRedirOperatorLen cmd.bytes = 0 := by
    cases hcmd : cmd.bytes with
    | nil => exact absurd hcmd cmd.ne_nil
    | cons c bytes =>
      refine shRedirOperatorLen_plain (cmd.plain c (by rw [hcmd]; exact mem_cons_self)) ?_
      cases bytes with
      | nil => exact fun h => nomatch h
      | cons c' bytes =>
        intro h
        have hplain := cmd.plain c' (by rw [hcmd]; exact mem_cons_of_mem _ mem_cons_self)
        exact hplain.2.2 (by rw [some.inj h]; decide)
  have hassign : shAssignmentToken cmd.bytes = none := by
    rw [shAssignmentToken]
    split
    · rfl
    split
    · rename_i c value hdrop
      have hmem : c ∈ cmd.bytes :=
        (dropWhile_sublist shIsNameChar).subset (by rw [hdrop]; exact mem_cons_self)
      have hne : c ≠ chEq := fun h => (cmd.plain c hmem).2.2 (by rw [h]; decide)
      rw [if_neg fun h => hne h.1]
    · rfl
  have hshort : ¬(shArgMax ≤ 0 ∨ shTokenMax ≤ cmd.bytes.length) := by
    rintro (h | h)
    · exact absurd h (by decide)
    · exact absurd cmd.short (Nat.not_lt.mpr h)
  rw [shParseTokens.eq_def]
  simp only [hop, ne_eq, not_true, false_and, if_false, ShStage.cleared, if_true, hassign,
    length_nil, hshort, nil_append]

/-- A word that is not the text of an operator is read back, any other one is not. -/
theorem readsBack_iff (varGet : List UInt8 → List UInt8) (cmd : CommandWord)
    (sep : Blanks) (w : Word) :
    ReadsBack varGet (cmd.bytes ++ (sep.bytes ++ shPrintShellWord w.bytes)) w.bytes ↔
      ¬(shRedirOperatorLen w.bytes ≠ 0 ∧ shRedirOperatorLen w.bytes = w.bytes.length) := by
  have hparse : shParseStage varGet (cmd.bytes ++ (sep.bytes ++ shPrintShellWord w.bytes))
      = (shParseTokens [w.bytes] { ShStage.cleared with argv := [cmd.bytes] }).bind fun stage =>
          if stage.argv ≠ [] ∨ stage.assigns ≠ [] ∨ stage.redirs ≠ [] then some stage
          else none := by
    rw [shParseStage, shTokenize_command]
    simp only [cons_ne_nil, if_false, shParseTokens_command]
    cases shParseTokens [w.bytes] { ShStage.cleared with argv := [cmd.bytes] } with
    | none => rfl
    | some stage => rfl
  rw [ReadsBack, hparse, shParseTokens.eq_def]
  dsimp only
  by_cases hop : shRedirOperatorLen w.bytes ≠ 0 ∧ shRedirOperatorLen w.bytes = w.bytes.length
  · rw [if_pos hop]
    refine iff_of_false ?_ (not_not.mpr hop)
    rintro ⟨stage, hstage, hargv, -⟩
    obtain ⟨stage', hredir, hstage⟩ := bind_eq_some_iff.mp hstage
    rw [ite_none_right_eq_some] at hstage
    split at hredir
    · exact nomatch hredir
    -- a redirection without a path leaves the command with one word
    split at hredir
    · exact nomatch hredir
    rename_i stage₂ hset
    have hone := shSetStageRedir_argv hset
    rw [← some.inj hstage.2, ← some.inj hredir, hone] at hargv
    exact nomatch hargv
  · rw [if_neg hop]
    have hshort : ¬(shArgMax ≤ 1 ∨ shTokenMax ≤ w.bytes.length) := by
      rintro (h | h)
      · exact absurd h (by decide)
      · exact absurd w.short (Nat.not_lt.mpr h)
    refine iff_of_true ⟨{ ShStage.cleared with argv := [cmd.bytes, w.bytes] }, ?_,
      rfl, rfl, rfl⟩ hop
    simp only [cons_ne_nil, if_false, length_singleton, hshort, shParseTokens]
    rfl

/-! ### The texts of the operators -/

private theorem digit_mem (h : shIsDigit d = true) : ∃ k ∈ range 10, d = UInt8.ofNat (48 + k) := by
  have hall : ∀ d : UInt8, shIsDigit d = true → ∃ k ∈ range 10, d = UInt8.ofNat (48 + k) := by
    refine forall_byte ?_
    decide +kernel
  exact hall d h

private theorem dup_mem_operators (hop : op ∈ [">&", "1>&", "2>&"].map shOp)
    (hd : shIsDigit d = true) : op ++ [d] ∈ operators := by
  obtain ⟨k, hk, rfl⟩ := digit_mem hd
  obtain ⟨text, htext, rfl⟩ := mem_map.mp hop
  exact mem_append_right _ (mem_flatMap.mpr ⟨k, hk, mem_map_of_mem htext⟩)

private theorem length_eq_of_operators (h : w ∈ operators) :
    shRedirOperatorLen w ≠ 0 ∧ shRedirOperatorLen w = w.length := by
  have hall : ∀ w ∈ operators, shRedirOperatorLen w ≠ 0 ∧
      shRedirOperatorLen w = w.length := by decide +kernel
  exact hall w h

/-- A text that is an operator as a whole is one of the list. -/
theorem mem_operators (hpos : shRedirOperatorLen w ≠ 0) (hlen : shRedirOperatorLen w = w.length) :
    w ∈ operators := by
  have hne : w.length ≠ 0 := hlen ▸ hpos
  -- operators by their length
  have hone : ∀ {c}, 1 = w.length → w.getD 0 0 = c → [c] ∈ operators → w ∈ operators := by
    intro c h h₀ hmem
    obtain ⟨a, rfl⟩ := length_eq_one_iff.mp h.symm
    rw [show a = c from h₀]
    exact hmem
  have htwo : ∀ {c d}, 2 = w.length → w.getD 0 0 = c → w.getD 1 0 = d → [c, d] ∈ operators →
      w ∈ operators := by
    intro c d h h₀ h₁ hmem
    obtain ⟨a, b, rfl⟩ := length_eq_two.mp h.symm
    rw [show a = c from h₀, show b = d from h₁]
    exact hmem
  have hthree : ∀ {c d e}, 3 = w.length → w.getD 0 0 = c → w.getD 1 0 = d → w.getD 2 0 = e →
      [c, d, e] ∈ operators → w ∈ operators := by
    intro c d e h h₀ h₁ h₂ hmem
    obtain ⟨a, b, a', rfl⟩ := length_eq_three.mp h.symm
    rw [show a = c from h₀, show b = d from h₁, show a' = e from h₂]
    exact hmem
  rw [shRedirOperatorLen] at hlen
  split at hlen
  · exact absurd hlen.symm hne
  split at hlen
  · rename_i h₀
    exact hone hlen h₀ (by decide +kernel)
  split at hlen
  · rename_i h₀
    split at hlen
    · rename_i h₂
      exact hthree hlen h₀.1 h₀.2 h₂ (by decide +kernel)
    · exact htwo hlen h₀.1 h₀.2 (by decide +kernel)
  split at hlen
  · rename_i h₀
    -- a descriptor before the operator
    obtain ⟨hfd, h₁⟩ := h₀
    split at hlen
    · rename_i h₂
      match w, hlen with
      | [a, b, c, d], _ =>
        obtain ⟨h₂, hd⟩ := h₂
        rw [show b = chGt from h₁, show c = chAmp from h₂]
        rcases hfd with h | h
        · rw [show a = chOne from h]
          show [chOne, chGt, chAmp] ++ [d] ∈ operators
          exact dup_mem_operators (by decide +kernel) hd
        rw [show a = chTwo from h]
        show [chTwo, chGt, chAmp] ++ [d] ∈ operators
        exact dup_mem_operators (by decide +kernel) hd
    split at hlen
    · rename_i h₂
      rcases hfd with h | h
      · exact hthree hlen h h₁ h₂ (by decide +kernel)
      · exact hthree hlen h h₁ h₂ (by decide +kernel)
    · rcases hfd with h | h
      · exact htwo hlen h h₁ (by decide +kernel)
      · exact htwo hlen h h₁ (by decide +kernel)
  split at hlen
  · rename_i h₀
    split at hlen
    · rename_i h₁
      match w, hlen with
      | [a, b, c], _ =>
        rw [show a = chGt from h₀, show b = chAmp from h₁.1]
        show [chGt, chAmp] ++ [c] ∈ operators
        exact dup_mem_operators (by decide +kernel) h₁.2
    split at hlen
    · rename_i h₁
      exact htwo hlen h₀ h₁ (by decide +kernel)
    · exact hone hlen h₀ (by decide +kernel)
  · exact absurd hlen.symm hne

/-- A printed word is read back as it was unless it is the text of an operator: the quotes around it
are gone when `sh_parse_stage` looks for operators. -/
theorem printed_word_reads_back_iff (varGet : List UInt8 → List UInt8) (cmd : CommandWord)
    (sep : Blanks)
    (w : Word) : ReadsBack varGet (cmd.bytes ++ (sep.bytes ++ shPrintShellWord w.bytes)) w.bytes ↔
      w.bytes ∉ operators := by
  rw [readsBack_iff, not_iff_not]
  exact ⟨fun h => mem_operators h.1 h.2, length_eq_of_operators⟩

/-- `echo` with a word that has a quote, a blank and a dollar in it. -/
theorem printed_word_reads_back_quoted :
    ReadsBack (fun _ => []) (shOp "echo" ++ (shOp " " ++ shPrintShellWord (shOp "a'b $x")))
      (shOp "a'b $x") :=
  have cmd : (shOp "echo" ≠ [] ∧ (shOp "echo").length < shTokenMax) ∧
      (∀ c ∈ shOp "echo", Plain c) ∧ (shOp "echo").head? ≠ some chTilde := by decide +kernel
  (printed_word_reads_back_iff _ ⟨_, cmd.1.1, cmd.1.2, cmd.2.1, cmd.2.2⟩
    ⟨shOp " ", by decide +kernel, by decide +kernel⟩
    ⟨_, by decide +kernel, by decide +kernel⟩).mpr (by decide +kernel)

/-- `echo '>'` has no path behind its redirection and is not parsed. -/
theorem quoted_operator_lost :
    shParseStage (fun _ => []) (shOp "echo " ++ shPrintShellWord (shOp ">")) = none ∧
      shPrintShellWord (shOp ">") = shOp "'>'" ∧
      ∀ w ∈ operators, w.length < 256 ∧ ∀ c ∈ w, c ≠ 0 := by
  decide +kernel

end Rabbitbone.Spec.Shell
