import Rabbitbone.ForStd.List
import Rabbitbone.Spec.ShellScan

/-!
# `sh_run_line` against the shell grammar

The operator branches of `sh_next_segment` return 1 without storing the segment, so every command
that stands before `;`, `&`, `&&` or `||` reaches the pipeline runner as a null pointer.  Trimming
also takes an escaped blank off the end of a command.  `shRunLine_calls_iff` shows that there is
nothing else: on every other line the calls are those of the grammar.

## Key results

- `shRunLine_calls_iff`: when the calls of `sh_run_line` are those of the line
-/

namespace Rabbitbone.Spec.Shell

open Native.Shell TextChar Command List

/-! ### Blanks and separators before the first command -/

/-- Nothing but blanks stands before an operator of the line. -/
def NoOperatorAfterCommand (cmds : List Command) : Prop :=
  ∀ cmd ∈ cmds, cmd.sep ≠ none → cmd.trimmed = []

/-- No command ends in an escaped blank. -/
def NoEscapedBlankAtEnd (cmds : List Command) : Prop :=
  ∀ cmd ∈ cmds, ¬cmd.EndsInEscapedBlank

/-- Two readings of a line that start the same pipelines and meet the same conditions. -/
structure SameLine (cmds cmds' : List Command) : Prop where
  calls : ∀ run calls last,
    lineCallsFrom run calls .seq last cmds = lineCallsFrom run calls .seq last cmds'
  noOperator : NoOperatorAfterCommand cmds ↔ NoOperatorAfterCommand cmds'
  noEscapedBlank : NoEscapedBlankAtEnd cmds ↔ NoEscapedBlankAtEnd cmds'
  noEmpty : NoEmptyBeside cmds → NoEmptyBeside cmds'

theorem SameLine.refl (cmds : List Command) : SameLine cmds cmds :=
  ⟨fun _ _ _ => rfl, .rfl, .rfl, id⟩

theorem SameLine.trans {a b c : List Command} (h : SameLine a b) (h' : SameLine b c) :
    SameLine a c :=
  ⟨fun run calls last => (h.calls run calls last).trans (h'.calls run calls last),
    h.noOperator.trans h'.noOperator, h.noEscapedBlank.trans h'.noEscapedBlank,
    h'.noEmpty ∘ h.noEmpty⟩

private theorem splitOps_eq_cons (ts : List Tok) :
    splitOps ts = firstCommand ts :: (splitOps ts).tail := by
  induction ts with
  | nil => rfl
  | cons t ts ih =>
    cases t with
    | op o => rfl
    | chr c => rw [splitOps, ih, firstCommand]; rfl

private theorem splitOps_tail_of_last {ts : List Tok} (h : (firstCommand ts).sep = none) :
    (splitOps ts).tail = [] := by
  induction ts with
  | nil => rfl
  | cons t ts ih =>
    cases t with
    | op o => simp [firstCommand] at h
    | chr c => rw [splitOps, splitOps_eq_cons ts, ih h]; rfl

private theorem splitOps_chr (c : TextChar) (ts : List Tok) : splitOps (.chr c :: ts) =
    { firstCommand ts with chars := c :: (firstCommand ts).chars } :: (splitOps ts).tail := by
  rw [splitOps_eq_cons, firstCommand, splitOps, splitOps_eq_cons ts]
  rfl

/-- A blank in front of a line changes nothing. -/
theorem SameLine.blank {c : TextChar} (hc : c.isBlank = true) (ts : List Tok) :
    SameLine (splitOps (.chr c :: ts)) (splitOps ts) := by
  rw [splitOps_chr, splitOps_eq_cons ts, tail_cons]
  generalize firstCommand ts = cmd
  generalize (splitOps ts).tail = cmds
  have htrim : trimmed { cmd with chars := c :: cmd.chars } = cmd.trimmed := by
    simp only [trimmed, dropWhile_cons_of_pos hc]
  refine ⟨fun run calls last => ?_, ?_, ?_, ?_⟩
  · simp only [lineCallsFrom, htrim, text, opAfter]
  · simp only [NoOperatorAfterCommand, forall_mem_cons, htrim]
  · simp only [NoEscapedBlankAtEnd, forall_mem_cons, EndsInEscapedBlank, htrim]
  · cases cmds with
    | nil => simp [NoEmptyBeside]
    | cons next cmds => simp only [NoEmptyBeside, htrim, imp_self]

/-- Nor does an operator with no command before it. -/
theorem SameLine.separator (o : SepOp) (ts : List Tok) :
    SameLine (splitOps (.op o :: ts)) (splitOps ts) := by
  have htrim : trimmed ⟨[], some o⟩ = [] := rfl
  rw [splitOps]
  refine ⟨fun run calls last => ?_, ?_, ?_, ?_⟩
  · rw [lineCallsFrom, if_pos htrim]
  · simp [NoOperatorAfterCommand, htrim]
  · simp [NoEscapedBlankAtEnd, EndsInEscapedBlank, htrim]
  · rw [splitOps_eq_cons ts]
    exact fun h => h.2

/-- What `skipLead` stops at. -/
def Stops : List UInt8 → Prop
  | [] => True
  | c :: rest => shIsSpace c = false ∧ c ≠ chSemi ∧
      ¬(c = chAmp ∧ rest.headD 0 ≠ chAmp ∧ rest.headD 0 ≠ chGt)

private theorem lex_blank {c : UInt8} (hc : shIsSpace c = true) (rest : List UInt8) :
    lex .init (c :: rest) = (lex .init rest).map (plain c :: ·) := by
  have h : c = chSpace ∨ c = chTab ∨ c = chReturn ∨ c = chNewline := by
    simpa [shIsSpace, or_assoc] using hc
  have hb : c ≠ chBackslash := by rcases h with rfl | rfl | rfl | rfl <;> decide
  have hs : c ≠ chSquote := by rcases h with rfl | rfl | rfl | rfl <;> decide
  have hd : c ≠ chDquote := by rcases h with rfl | rfl | rfl | rfl <;> decide
  have hh : c ≠ chHash := by rcases h with rfl | rfl | rfl | rfl <;> decide
  rw [lex.eq_def]
  simp [LexState.init, hb, hs, hd, hh, hc]

private theorem lex_semi (rest : List UInt8) :
    lex .init (chSemi :: rest) = (lex .init rest).map (.op .semi :: ·) := by
  have hsp : shIsSpace chSemi = false := by decide
  rw [lex.eq_def]
  simp [LexState.init, hsp, show chSemi ≠ chBackslash by decide,
    show chSemi ≠ chSquote by decide, show chSemi ≠ chDquote by decide,
    show chSemi ≠ chHash by decide]

variable {rest line : List UInt8} {i pos e : Nat} {st : LexState} {run : Runner} {last : Int}
  {r : LineResult} {toks : List Tok} {s : Segment}

private theorem lex_amp (h : rest.headD 0 ≠ chAmp) (h' : rest.headD 0 ≠ chGt) :
    lex .init (chAmp :: rest) = (lex .init rest).map (.op .amp :: ·) := by
  cases rest with
  | nil => rfl
  | cons d rest =>
    simp only [headD_cons] at h h'
    have hsp : shIsSpace chAmp = false := by decide
    rw [lex]
    simp [LexState.init, hsp, h, h', show chAmp ≠ chBackslash by decide,
      show chAmp ≠ chSquote by decide, show chAmp ≠ chDquote by decide,
      show chAmp ≠ chHash by decide, show chAmp ≠ chSemi by decide]

/-- The loop before a segment skips a part of the line that starts no pipeline. -/
theorem skipLead_spec (hnul : 0 ∉ rest) (hlex : lex .init rest = some toks) :
    ∃ n toks', skipLead rest i = i + n ∧
      lex .init (rest.drop n) = some toks' ∧ SameLine (splitOps toks) (splitOps toks') ∧
      Stops (rest.drop n) := by
  fun_induction skipLead rest i generalizing toks with
  | case1 i => exact ⟨0, toks, rfl, hlex, .refl _, trivial⟩
  | case2 c rest i hc ih =>
    have hsp : shIsSpace c = true := (Bool.and_eq_true_iff.mp hc).2
    rw [lex_blank hsp] at hlex
    obtain ⟨ts, hts, rfl⟩ := Option.map_eq_some_iff.mp hlex
    obtain ⟨n, toks', h1, h2, h3, h4⟩ := ih (not_mem_of_not_mem_cons hnul) hts
    refine ⟨n + 1, toks', by omega, h2, (SameLine.blank ?_ ts).trans h3, h4⟩
    simp [isBlank, hsp]
  | case3 c rest i hc hsemi ih =>
    obtain rfl := eq_of_beq hsemi
    rw [lex_semi] at hlex
    obtain ⟨ts, hts, rfl⟩ := Option.map_eq_some_iff.mp hlex
    obtain ⟨n, toks', h1, h2, h3, h4⟩ := ih (not_mem_of_not_mem_cons hnul) hts
    exact ⟨n + 1, toks', by omega, h2, (SameLine.separator .semi ts).trans h3, h4⟩
  | case4 c rest i hc hsemi hamp ih =>
    simp only [Bool.and_eq_true, beq_iff_eq, bne_iff_ne] at hamp
    obtain ⟨⟨rfl, hnext⟩, hnext'⟩ := hamp
    rw [lex_amp hnext hnext'] at hlex
    obtain ⟨ts, hts, rfl⟩ := Option.map_eq_some_iff.mp hlex
    obtain ⟨n, toks', h1, h2, h3, h4⟩ := ih (not_mem_of_not_mem_cons hnul) hts
    exact ⟨n + 1, toks', by omega, h2, (SameLine.separator .amp ts).trans h3, h4⟩
  | case5 c rest i hc hsemi hamp =>
    have h0 : c ≠ 0 := by rintro rfl; simp at hnul
    refine ⟨0, toks, rfl, hlex, .refl _, ?_⟩
    simp only [bne_iff_ne, Bool.and_eq_true, beq_iff_eq, ne_eq, not_and, h0, not_false_eq_true,
      true_and, Bool.not_eq_true] at hc hsemi hamp
    refine ⟨hc, hsemi, ?_⟩
    rintro ⟨h1, h2, h3⟩
    exact hamp ⟨h1, h2⟩ h3

/-! ### The text of a command -/

private theorem lex_chars_isPrefix_rest (hlex : lex st rest = some toks) :
    (firstCommand toks).chars.map byte <+: rest := by
  fun_induction lex st rest generalizing toks
  all_goals first
    | (obtain ⟨ts, hts, rfl⟩ := Option.map_eq_some_iff.mp hlex
       first
         | exact nil_prefix
         | (rename_i ih; exact cons_prefix_cons.mpr ⟨rfl, ih hts⟩))
    | (obtain rfl := Option.some.inj hlex; exact nil_prefix)
    | simp at hlex

private theorem byteAt_eq_getElem {l : List UInt8} (h : i < l.length) : byteAt l i = l[i] := by
  simp [byteAt, h]

/-- The bytes before the cut are the segment without its trailing blanks. -/
theorem Cut.take_eq {start stop : Nat} (h : Cut line start stop e)
    (hstop : stop ≤ line.length) : (line.drop start).take (e - start) =
      ((line.drop start).take (stop - start)).rdropWhile shIsSpace := by
  have hlt := h.lt
  have hle := h.le
  have hsplit : (line.drop start).take (stop - start)
      = (line.drop start).take (e - start) ++ (line.drop e).take (stop - e) := by
    rw [show stop - start = (e - start) + (stop - e) by omega, take_add, drop_drop,
      show start + (e - start) = e by omega]
  have hblank : ∀ c ∈ (line.drop e).take (stop - e), shIsSpace c = true := by
    intro c hc
    obtain ⟨k, hk, rfl⟩ := getElem_of_mem hc
    simp only [length_take, length_drop] at hk
    have hb := h.blank (e + k) (by omega) (by omega)
    rw [byteAt_eq_getElem (by omega)] at hb
    simpa using hb
  rw [hsplit, rdropWhile_append_of_pos hblank, eq_comm, rdropWhile_eq_self_iff]
  intro hne
  have hlast := h.last
  rw [byteAt_eq_getElem (by omega)] at hlast
  rw [getLast_eq_getElem]
  simp only [length_take, length_drop, getElem_take, getElem_drop]
  have hidx : start + (min (e - start) (line.length - start) - 1) = e - 1 := by omega
  simp only [hidx, hlast]
  simp

/-- Trimming blanks without regard to escapes gives the text of a command exactly when the
command does not end in an escaped blank. -/
theorem rdropWhile_eq_text_iff {cmd : Command} (hfirst : cmd.chars.dropWhile isBlank = cmd.chars) :
    (cmd.chars.map byte).rdropWhile shIsSpace = cmd.text ↔ ¬cmd.EndsInEscapedBlank := by
  have htrim : cmd.trimmed = cmd.chars.rdropWhile isBlank := by
    rw [trimmed, hfirst]
  have hsplit : cmd.trimmed ++ cmd.chars.rtakeWhile isBlank = cmd.chars :=
    htrim ▸ rdropWhile_append_rtakeWhile
  have hblank : ∀ c ∈ (cmd.chars.rtakeWhile isBlank).map byte, shIsSpace c = true := by
    intro c hc
    obtain ⟨t, ht, rfl⟩ := mem_map.mp hc
    have htb : t.isBlank = true := mem_rtakeWhile_imp ht
    exact (Bool.and_eq_true_iff.mp htb).2
  have hdrop : (cmd.chars.map byte).rdropWhile shIsSpace = cmd.text.rdropWhile shIsSpace := by
    conv_lhs => rw [← hsplit, map_append, rdropWhile_append_of_pos hblank]
    rfl
  rw [hdrop, rdropWhile_eq_self_iff, EndsInEscapedBlank, text]
  rcases eq_nil_or_concat cmd.trimmed with h | ⟨l, t, h⟩
  · simp [h]
  · simp [h]

/-! ### Runs of `sh_run_line` -/

private theorem shNextSegment_of_done (h : shNextSegmentStep line pos = .done s) (fuel : Nat) :
    shNextSegment (fuel + 1) line pos = some s := by
  rw [shNextSegment, h]

/-- The loop only adds calls behind those already made. -/
theorem calls_isPrefix_shRunLoop {fuel : Nat} {op : ShOp} {calls : List Call}
    (h : shRunLoop run fuel line pos op last calls = some r) : calls <+: r.calls := by
  fun_induction shRunLoop run fuel line pos op last calls with
  | case1 => simp at h
  | case2 => simp at h
  | case3 | case4 => obtain rfl := Option.some.inj h; exact prefix_rfl
  | case5 _ _ _ _ _ calls s _ _ _ _ call ih => exact (prefix_append calls [call]).trans (ih h)
  | case6 _ _ _ _ _ _ _ _ _ _ _ ih => exact ih h

/-- The first pipeline of a line is always handed to the runner. -/
theorem shRunLine_first (hstep : shNextSegmentStep line 0 = .done s) (hret : s.ret = 1)
    (h : shRunLine run last line = some r) :
    ∃ cs, r.calls = ⟨s.segment.map (cString s.line), s.background⟩ :: cs := by
  rw [shRunLine, shRunLoop, shNextSegment_of_done hstep] at h
  simp only [hret, shouldRun] at h
  obtain ⟨cs, hcs⟩ := calls_isPrefix_shRunLoop h
  exact ⟨cs, by rw [← hcs]; rfl⟩

/-- Where a line ends for the splitter: at its end, at a cut or at a comment. -/
def AtLineEnd (rest : List UInt8) : Prop :=
  ∀ c ∈ rest.head?, c = 0 ∨ c = chHash

private theorem shNextSegmentStep_atLineEnd (h : AtLineEnd (line.drop pos)) :
    shNextSegmentStep line pos = .done ⟨0, line, pos, none, .seq, false⟩ := by
  cases hd : line.drop pos with
  | nil =>
    have hb : byteAt line pos = 0 := by
      have hlen := drop_eq_nil_iff.mp hd
      simp [byteAt, hlen]
    simp [shNextSegmentStep, hd, skipLead, hb]
  | cons c rest =>
    have hc : c = 0 ∨ c = chHash := h c (by simp [hd])
    have hb := byteAt_of_drop hd
    have hskip : skipLead (c :: rest) pos = pos := by
      rcases hc with rfl | rfl
      · simp [skipLead, show (0 : UInt8) ≠ chSemi by decide, show (0 : UInt8) ≠ chAmp by decide]
      · simp [skipLead, show shIsSpace chHash = false by decide,
          show chHash ≠ chSemi by decide, show chHash ≠ chAmp by decide]
    rcases hc with rfl | rfl <;> simp [shNextSegmentStep, hd, hskip, hb]

/-- The last command of a line stops at the end of the line or at a comment. -/
theorem lex_last_atLineEnd (hlex : lex st rest = some toks)
    (hlast : (firstCommand toks).sep = none) :
    AtLineEnd (rest.drop (firstCommand toks).chars.length) := by
  fun_induction lex st rest generalizing toks with
  | case1 => obtain rfl := Option.some.inj hlex; simp [AtLineEnd]
  | case10 _ _ _ _ _ _ _ _ hhash =>
    obtain rfl := Option.some.inj hlex
    simp [AtLineEnd, firstCommand, hhash.1]
  | case2 | case14 | case17 => simp at hlex
  | case12 | case13 | case15 | case16 =>
    obtain ⟨ts, hts, rfl⟩ := Option.map_eq_some_iff.mp hlex
    simp [firstCommand] at hlast
  | case3 _ _ _ _ ih | case4 _ _ _ _ _ ih | case5 _ _ _ _ ih | case6 _ _ _ _ _ _ ih
  | case7 _ _ _ _ ih | case8 _ _ _ _ _ ih | case9 _ _ _ _ _ _ ih
  | case11 _ _ _ _ _ _ _ _ _ _ ih | case18 _ _ _ _ _ _ _ _ _ _ _ _ _ ih =>
    obtain ⟨ts, hts, rfl⟩ := Option.map_eq_some_iff.mp hlex
    exact ih hts hlast

/-- A terminator that is written before does not matter. -/
theorem AtLineEnd.set (h : AtLineEnd (line.drop i)) (hle : e ≤ i) :
    AtLineEnd ((line.set e 0).drop i) := by
  rw [drop_set]
  split
  · exact h
  obtain rfl : e = i := by omega
  intro c hc
  cases hd : line.drop e with
  | nil => simp [hd] at hc
  | cons d rest =>
    simp only [hd, Nat.sub_self, set_cons_zero, head?_cons, Option.mem_some_iff] at hc
    exact .inl hc.symm

private theorem calls_isPrefix_lineCallsFrom (run : Runner) (calls : List Call)
    (prev : ShOp) (last : Int)
    (cmds : List Command) : calls <+: lineCallsFrom run calls prev last cmds := by
  fun_induction lineCallsFrom run calls prev last cmds with
  | case1 => exact prefix_rfl
  | case2 _ _ _ _ _ _ ih => exact ih
  | case3 _ _ _ _ _ _ _ ih => exact ih
  | case4 calls _ _ _ _ _ _ call ih => exact (prefix_append calls [call]).trans ih

/-- A first command of the line: it begins at `start` with a byte that is no unquoted blank. -/
structure FirstCommand (line : List UInt8) (start : Nat) (toks : List Tok) : Prop where
  lex : lex .init (line.drop start) = some toks
  ne_zero : byteAt line start ≠ 0
  not_space : shIsSpace (byteAt line start) = false
  ne_nil : (firstCommand toks).chars ≠ []

namespace FirstCommand

variable {line : List UInt8} {start : Nat} {toks : List Tok}

section

variable (h : FirstCommand line start toks)
include h

private theorem take_eq : (line.drop start).take (firstCommand toks).chars.length
      = (firstCommand toks).chars.map byte := by
  have hpre := prefix_iff_eq_take.mp (lex_chars_isPrefix_rest h.lex)
  rw [length_map] at hpre
  exact hpre.symm

/-- The first command is within the line. -/
theorem length_le : start + (firstCommand toks).chars.length ≤ line.length := by
  have hpre := (lex_chars_isPrefix_rest h.lex).length_le
  have hpos := length_pos_of_ne_nil h.ne_nil
  simp only [length_map, length_drop] at hpre
  omega

/-- No blank is trimmed from the front. -/
theorem dropWhile_eq : (firstCommand toks).chars.dropWhile isBlank = (firstCommand toks).chars := by
  have htake := h.take_eq
  cases hc : (firstCommand toks).chars with
  | nil => rfl
  | cons t ts =>
    have hlen := h.length_le
    rw [hc] at htake hlen
    have hb : t.byte = byteAt line start := by
      simp only [length_cons] at hlen
      rw [drop_eq_getElem_cons (by omega), length_cons, take_succ_cons,
        map_cons, cons.injEq] at htake
      rw [byteAt_eq_getElem (by omega)]
      exact htake.1.symm
    simp [isBlank, hb, h.not_space]

private theorem trimmed_ne_nil : (firstCommand toks).trimmed ≠ [] := by
  intro hnil
  rw [trimmed, h.dropWhile_eq, rdropWhile_eq_nil_iff] at hnil
  have hdrop := h.dropWhile_eq
  cases hc : (firstCommand toks).chars with
  | nil => exact h.ne_nil hc
  | cons t ts =>
    rw [hc] at hnil hdrop
    rw [dropWhile_cons_of_pos (hnil t mem_cons_self)] at hdrop
    have hle := (dropWhile_sublist (l := ts) isBlank).length_le
    rw [hdrop, length_cons] at hle
    omega

/-- The first command starts the first pipeline of the line. -/
theorem lineCalls_eq (run : Runner) (last : Int) : ∃ cs, lineCalls run last (splitOps toks)
      = ⟨some (firstCommand toks).text, (firstCommand toks).sep = some .amp⟩ :: cs := by
  rw [lineCalls, splitOps_eq_cons, lineCallsFrom, if_neg h.trimmed_ne_nil, if_neg (by simp)]
  obtain ⟨cs, hcs⟩ := calls_isPrefix_lineCallsFrom run _ _ _ _
  exact ⟨cs, hcs.symm⟩

private theorem step_eq (pos : Nat) (hskip : skipLead (line.drop pos) pos = start)
    (hhash : byteAt line start ≠ chHash) : shNextSegmentStep line pos
      = scan line pos start (line.drop start) start ⟨start, 0, false, false⟩ := by
  simp [shNextSegmentStep, hskip, h.ne_zero, hhash]

private theorem scanned (hnul : 0 ∉ line) (pos : Nat) :
    Scanned line pos start start (firstCommand toks)
      (scan line pos start (line.drop start) start ⟨start, 0, false, false⟩) :=
  scan_of_lex hnul pos start h.lex rfl ⟨rfl, rfl, rfl, nofun, nofun, .refl line start⟩

/-- A line whose first command is its last: the command is run, and its text is right unless it
ends in an escaped blank. -/
theorem shRunLine_of_last (hnul : 0 ∉ line) (hskip : skipLead line 0 = start)
    (hhash : byteAt line start ≠ chHash) (hlast : (firstCommand toks).sep = none) (run : Runner)
    (last : Int) : (shRunLine run last line).map LineResult.calls = some
      [⟨some (((firstCommand toks).chars.map byte).rdropWhile shIsSpace), false⟩] := by
  obtain ⟨stop, hscan, htail⟩ := (h.scanned hnul 0).last hlast
  have hlen := h.length_le
  have hpos := length_pos_of_ne_nil h.ne_nil
  -- the segment goes on at least behind its first byte, which is no blank
  have hlt : start < stop := by
    by_contra hge
    have hb := htail.blank start (by omega) (by omega)
    simp [h.not_space] at hb
  obtain ⟨e, hcut, hend⟩ := endOfLine_spec h.ne_zero h.not_space hlt
    (start + (firstCommand toks).chars.length)
  have hcut' : Cut line start (start + (firstCommand toks).chars.length) e := by
    refine ⟨hcut.lt, hcut.le.trans htail.le, hcut.last, fun j hj hj' => ?_⟩
    rcases Nat.lt_or_ge j stop with hjs | hjs
    · exact hcut.blank j hj hjs
    · exact htail.blank j hjs hj'
  have htext : cString (line.set e 0) start
      = ((firstCommand toks).chars.map byte).rdropWhile shIsSpace := by
    rw [cString_set hnul hcut.lt.le, hcut'.take_eq hlen, Nat.add_sub_cancel_left, h.take_eq]
  have hstep := (h.step_eq 0 hskip hhash).trans (hscan.trans hend)
  -- the next call of `sh_next_segment` finds the end of the line
  have hend' : AtLineEnd ((line.set e 0).drop (start + (firstCommand toks).chars.length)) := by
    refine AtLineEnd.set ?_ hcut'.le
    rw [← drop_drop]
    exact lex_last_atLineEnd h.lex hlast
  have hstep' := shNextSegmentStep_atLineEnd hend'
  rw [shRunLine, shRunLoop, shNextSegment_of_done hstep]
  simp only [shouldRun, Option.map_some, htext]
  rw [shRunLoop, length_set, shNextSegment_of_done hstep']
  rfl

end

private theorem text_length_le (cmd : Command) : cmd.text.length ≤ cmd.chars.length := by
  rw [text, trimmed, length_map]
  have hright := rdropWhile_prefix isBlank (cmd.chars.dropWhile isBlank)
  exact hright.length_le.trans (dropWhile_sublist _).length_le

/-- A line whose first command stands before an operator: the first call, if one is made, does
not get the text of that command. -/
theorem shRunLine_of_operator (h : FirstCommand line start toks) (hnul : 0 ∉ line)
    (hskip : skipLead line 0 = start) (hhash : byteAt line start ≠ chHash)
    (hop : (firstCommand toks).sep ≠ none) (hrun : shRunLine run last line = some r) (bg : Bool)
    (cs : List Call) : r.calls ≠ ⟨some (firstCommand toks).text, bg⟩ :: cs := by
  have hpos := length_pos_of_ne_nil h.ne_nil
  have hstep := h.step_eq 0 hskip hhash
  have hmore := (h.scanned hnul 0).more hop
  rw [← hstep] at hmore
  -- at an operator the segment pointer is left null
  have hnull : ∀ j width op bg' empty, start < j →
      shNextSegmentStep line 0 = endAtOperator line start j width op bg' empty →
      r.calls ≠ ⟨some (firstCommand toks).text, bg⟩ :: cs := by
    intro j width op bg' empty hj heq
    obtain ⟨e, -, hdone⟩ := endAtOperator_spec h.ne_zero h.not_space hj width op bg' empty
    obtain ⟨cs', hcs'⟩ := shRunLine_first (heq.trans hdone) rfl hrun
    rw [hcs']
    simp
  rcases hmore with ⟨j, width, op, bg', empty, hj, heq⟩ | ⟨hlen, hns, hover⟩
  · exact hnull j width op bg' empty (by omega) heq
  generalize hres : shNextSegmentStep line 0 = res at hover
  cases hover with
  | unmatched =>
    rw [shRunLine, shRunLoop, shNextSegment_of_done hres] at hrun
    obtain rfl := Option.some.inj hrun
    simp
  | operator hj => exact hnull _ _ _ _ _ (by omega) hres
  | @lineEnd stop i hstop =>
    -- the text runs over the operator, so it is longer than the command
    obtain ⟨e, hcut, hdone⟩ := endOfLine_spec h.ne_zero h.not_space (show start < stop by omega) i
    have he : start + (firstCommand toks).chars.length < e := by
      by_contra hge
      have hb := hcut.blank (start + (firstCommand toks).chars.length) (by omega) (by omega)
      simp [hns] at hb
    obtain ⟨cs', hcs'⟩ := shRunLine_first (hres.trans hdone) rfl hrun
    rw [hcs']
    intro heq
    have htext : cString (line.set e 0) start = (firstCommand toks).text := by
      simpa using congrArg (fun l => l.head?.map Call.text) heq
    have hle := text_length_le (firstCommand toks)
    rw [← htext, cString_set hnul hcut.lt.le, length_take, length_drop] at hle
    omega

end FirstCommand

variable {toks : List Tok} {line : List UInt8}

/-- The first token of a line: none at a comment, a byte of text, or an operator. -/
theorem lex_cons_cases {c : UInt8} (h : lex st (c :: rest) = some toks) :
    (toks = [] ∧ c = chHash) ∨ (∃ t ts, toks = .chr t :: ts) ∨
      ∃ o ts, toks = .op o :: ts ∧ (o = .semi → c = chSemi) ∧
        (o = .amp → c = chAmp ∧ rest.headD 0 ≠ chAmp ∧ rest.headD 0 ≠ chGt) := by
  have hhead : ∀ d, d ≠ 0 → rest.head? ≠ some d → rest.headD 0 ≠ d := by
    intro d hd hne
    cases rest with
    | nil => exact hd.symm
    | cons a rest => simpa using hne
  generalize hl : c :: rest = l at h
  fun_induction lex st l with
  | case1 | case2 => simp at hl
  | case14 | case17 => simp at h
  | case10 _ _ _ _ _ _ _ _ hhash =>
    obtain ⟨rfl, rfl⟩ := cons.inj hl
    exact .inl ⟨(Option.some.inj h).symm, hhash.1⟩
  | case3 | case4 | case5 | case6 | case7 | case8 | case9 | case11 | case18 =>
    obtain ⟨ts, -, rfl⟩ := Option.map_eq_some_iff.mp h
    exact .inr (.inl ⟨_, ts, rfl⟩)
  | case12 =>
    obtain ⟨ts, -, rfl⟩ := Option.map_eq_some_iff.mp h
    exact .inr (.inr ⟨.semi, ts, rfl, fun _ => (cons.inj hl).1, (fun h => by cases h)⟩)
  | case13 | case16 =>
    obtain ⟨ts, -, rfl⟩ := Option.map_eq_some_iff.mp h
    exact .inr (.inr ⟨_, ts, rfl, (fun h => by cases h), (fun h => by cases h)⟩)
  | case15 _ _ _ _ _ _ _ _ _ _ _ hamp hnext =>
    obtain ⟨ts, -, rfl⟩ := Option.map_eq_some_iff.mp h
    obtain ⟨rfl, rfl⟩ := cons.inj hl
    exact .inr (.inr ⟨.amp, ts, rfl, (fun h => by cases h), fun _ =>
      ⟨hamp.1, hhead _ (by decide) hnext, hhead _ (by decide) hamp.2.2⟩⟩)

/-- At a place where `skipLead` stops, a line without empty commands beside `&&` and `||` goes on
with a command, unless it ends there. -/
theorem firstCommand_of_stops (hnul : 0 ∉ line) {start : Nat}
    (hlex : lex .init (line.drop start) = some toks)
    (hstops : Stops (line.drop start)) (hne : NoEmptyBeside (splitOps toks))
    (hend : ¬AtLineEnd (line.drop start)) :
    FirstCommand line start toks ∧ byteAt line start ≠ chHash := by
  cases hd : line.drop start with
  | nil => simp [hd, AtLineEnd] at hend
  | cons c rest =>
    have hb := byteAt_of_drop hd
    have h0 := ne_zero_of_drop hnul hd
    simp only [hd, AtLineEnd, head?_cons, Option.mem_some_iff, forall_eq', h0, false_or] at hend
    rw [hd] at hstops hlex
    obtain ⟨hsp, hsemi, hamp⟩ := hstops
    refine ⟨⟨by rw [hd]; exact hlex, by rw [hb]; exact h0, by rw [hb]; exact hsp, ?_⟩,
      by rw [hb]; exact hend⟩
    -- an operator here would be `&&` or `||` with nothing before it
    have hcond : ∀ o ts, toks = .op o :: ts → o.isConditional = true → False := by
      rintro o ts rfl ho
      rw [splitOps, splitOps_eq_cons ts] at hne
      exact (hne.1 ⟨o, rfl, ho⟩).1 rfl
    rcases lex_cons_cases hlex with ⟨-, rfl⟩ | ⟨t, ts, rfl⟩ | ⟨o, ts, rfl, ho, ho'⟩
    · exact absurd rfl hend
    · simp [firstCommand]
    · cases o with
      | semi => exact absurd (ho rfl) hsemi
      | amp => exact absurd (ho' rfl) hamp
      | andAnd | orOr => exact (hcond _ ts rfl rfl).elim

private theorem byteAt_atLineEnd (h : AtLineEnd (line.drop i)) :
    byteAt line i = 0 ∨ byteAt line i = chHash := by
  cases hd : line.drop i with
  | nil => left; simp [byteAt, drop_eq_nil_iff.mp hd]
  | cons c rest => rw [byteAt_of_drop hd]; exact h c (by simp [hd])

private theorem lex_atLineEnd (hnul : 0 ∉ line)
    (hlex : lex .init (line.drop i) = some toks) (h : AtLineEnd (line.drop i)) : toks = [] := by
  cases hd : line.drop i with
  | nil =>
    rw [hd] at hlex
    exact (Option.some.inj hlex).symm
  | cons c rest =>
    have hc : c = chHash := (h c (by simp [hd])).resolve_left (ne_zero_of_drop hnul hd)
    subst hc
    rw [hd, lex.eq_def] at hlex
    simpa [LexState.init, show chHash ≠ chBackslash by decide, show chHash ≠ chSquote by decide,
      show chHash ≠ chDquote by decide, eq_comm] using hlex

/-- `sh_run_line` passes the commands of a line to the pipeline runner exactly when the line has
no operator behind its first command and that command does not end in an escaped blank. -/
theorem shRunLine_calls_iff (run : Runner) (last : Int) {line : List UInt8} (hnul : 0 ∉ line)
    {cmds : List Command} (hparse : parseLine line = some cmds) (hne : NoEmptyBeside cmds) :
    (shRunLine run last line).map LineResult.calls = some (lineCalls run last cmds) ↔
      NoOperatorAfterCommand cmds ∧ NoEscapedBlankAtEnd cmds := by
  obtain ⟨toks, hlex, rfl⟩ := Option.map_eq_some_iff.mp hparse
  obtain ⟨n, toks', hskip, hlex', hsame, hstops⟩ := skipLead_spec hnul hlex
  rw [Nat.zero_add] at hskip
  rw [hsame.noOperator, hsame.noEscapedBlank, lineCalls, hsame.calls, ← lineCalls]
  by_cases hend : AtLineEnd (line.drop n)
  · -- nothing but blanks and separators stands before the end of the line
    have hnil := lex_atLineEnd hnul hlex' hend
    have hstep : shNextSegmentStep line 0 = .done ⟨0, line, n, none, .seq, false⟩ := by
      have hb := byteAt_atLineEnd hend
      simp only [shNextSegmentStep, drop_zero, hskip]
      rcases hb with hb | hb <;> simp [hb]
    subst hnil
    rw [shRunLine, shRunLoop, shNextSegment_of_done hstep]
    simp [lineCalls, lineCallsFrom, splitOps, trimmed, NoOperatorAfterCommand,
      NoEscapedBlankAtEnd, EndsInEscapedBlank]
  · obtain ⟨hfirst, hhash⟩ := firstCommand_of_stops hnul hlex' hstops (hsame.noEmpty hne) hend
    by_cases hlast : (firstCommand toks').sep = none
    · rw [hfirst.shRunLine_of_last hnul hskip hhash hlast, splitOps_eq_cons,
        splitOps_tail_of_last hlast]
      have hcalls : lineCalls run last [firstCommand toks']
          = [⟨some (firstCommand toks').text, false⟩] := by
        simp [lineCalls, lineCallsFrom, hfirst.trimmed_ne_nil, hlast]
      have hno : NoOperatorAfterCommand [firstCommand toks'] := by
        simp [NoOperatorAfterCommand, hlast]
      rw [hcalls, and_iff_right hno]
      simpa [NoEscapedBlankAtEnd] using rdropWhile_eq_text_iff hfirst.dropWhile_eq
    · have hno : ¬NoOperatorAfterCommand (splitOps toks') := by
        rw [splitOps_eq_cons]
        exact fun h => hfirst.trimmed_ne_nil (h _ mem_cons_self hlast)
      refine iff_of_false (fun heq => ?_) (fun h => hno h.1)
      obtain ⟨r, hr, hcalls⟩ := Option.map_eq_some_iff.mp heq
      obtain ⟨cs, hcs⟩ := hfirst.lineCalls_eq run last
      exact hfirst.shRunLine_of_operator hnul hskip hhash hlast hr _ cs (hcalls.trans hcs)

/-- The line `ls` is run as it stands. -/
theorem shRunLine_calls_ls :
    (0 ∉ [108, 115] ∧ parseLine [108, 115] = some [⟨[⟨108, true⟩, ⟨115, true⟩], none⟩]) ∧
      ((shRunLine (fun _ _ => 0) 0 [108, 115]).map LineResult.calls =
          some (lineCalls (fun _ _ => 0) 0 [⟨[⟨108, true⟩, ⟨115, true⟩], none⟩]) ↔
        NoOperatorAfterCommand [⟨[⟨108, true⟩, ⟨115, true⟩], none⟩] ∧
          NoEscapedBlankAtEnd [⟨[⟨108, true⟩, ⟨115, true⟩], none⟩]) :=
  ⟨⟨by decide, by decide⟩, shRunLine_calls_iff _ _ (by decide) (by decide) trivial⟩

/-- On the line `a;b` the runner gets a null pointer for `a`. -/
theorem shRunLine_drops_first_command :
    parseLine [97, 59, 98] = some [⟨[⟨97, true⟩], some .semi⟩, ⟨[⟨98, true⟩], none⟩] ∧
      NoEmptyBeside [⟨[⟨97, true⟩], some .semi⟩, ⟨[⟨98, true⟩], none⟩] ∧
      lineCalls (fun _ _ => 0) 0 [⟨[⟨97, true⟩], some .semi⟩, ⟨[⟨98, true⟩], none⟩]
        = [⟨some [97], false⟩, ⟨some [98], false⟩] ∧
      (shRunLine (fun _ _ => 0) 0 [97, 59, 98]).map LineResult.calls
        = some [⟨none, false⟩, ⟨some [98], false⟩] :=
  ⟨by decide, by simp [NoEmptyBeside, SepOp.isConditional], by decide, by decide⟩

end Rabbitbone.Spec.Shell
