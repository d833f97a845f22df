import Rabbitbone.Spec.ShellGrammar

/-!
# The segment scanner of `rbsh`

`scan_of_lex` follows the scanning loop of `sh_next_segment` along the reading of the same bytes by
`lex`: the last command of a line is scanned exactly, and a command before an operator ends at an
operator (where the loop leaves the segment pointer null) or runs over its own.  `shRunLine_isSome`
says that the splitter returns on every line.

## Key results

- `scan_of_lex`: the scanning loop against the grammar
- `shRunLine_isSome`: `sh_run_line` terminates
-/

namespace Rabbitbone.Spec.Shell

open Native.Shell List Option

variable {line rest : List UInt8} {i start stop pos e width : Nat} {c : UInt8}
  {empty : List UInt8 → ScanResult} {s : ScanState}

/-! ### The buffer -/

@[simp] private theorem chSquote_ne_zero : chSquote ≠ 0 := by decide
@[simp] private theorem chDquote_ne_zero : chDquote ≠ 0 := by decide
@[simp] private theorem chBackslash_ne_zero : chBackslash ≠ 0 := by decide
@[simp] private theorem chSquote_ne_chBackslash : chSquote ≠ chBackslash := by decide
@[simp] private theorem chDquote_ne_chBackslash : chDquote ≠ chBackslash := by decide
@[simp] private theorem chDquote_ne_chSquote : chDquote ≠ chSquote := by decide
private theorem chAmp_ne_chPipe : chAmp ≠ chPipe := by decide

theorem byteAt_of_drop (h : line.drop i = c :: rest) : byteAt line i = c := by
  have h0 : (line.drop i)[0]? = some c := by rw [h]; rfl
  rw [getElem?_drop, Nat.add_zero] at h0
  simp [byteAt, getD_eq_getElem?_getD, h0]

private theorem drop_succ_of_drop (h : line.drop i = c :: rest) : line.drop (i + 1) = rest := by
  rw [← drop_drop, h, drop_one, tail_cons]

private theorem lt_length_of_drop (h : line.drop i = c :: rest) : i < line.length := by
  have := congrArg length h
  simp only [length_drop, length_cons] at this
  omega

theorem ne_zero_of_drop (hnul : 0 ∉ line) (h : line.drop i = c :: rest) : c ≠ 0 := by
  rintro rfl
  exact hnul (mem_of_mem_drop (h ▸ mem_cons_self))

/-- Cutting the buffer at `e` leaves the text between `start` and `e`. -/
theorem cString_set (hnul : 0 ∉ line) (hse : start ≤ e) :
    cString (line.set e 0) start = (line.drop start).take (e - start) := by
  have hsplit : (line.set e 0).drop start
      = (line.drop start).take (e - start) ++ ((line.set e 0).drop e) := by
    have h := take_append_drop (e - start) ((line.set e 0).drop start)
    rw [drop_drop, Nat.add_sub_cancel' hse, drop_set, if_neg (by omega),
      take_set_of_le (by omega)] at h
    rw [drop_set, if_neg (by omega)]
    exact h.symm
  have hfree : ∀ c ∈ (line.drop start).take (e - start), (c != 0) = true := by
    intro c hc
    have hmem : c ∈ line := mem_of_mem_drop (mem_of_mem_take hc)
    simp only [bne_iff_ne, ne_eq]
    rintro rfl
    exact hnul hmem
  rw [cString, hsplit, takeWhile_append_of_pos hfree]
  suffices h : ((line.set e 0).drop e).takeWhile (· != 0) = [] by rw [h, append_nil]
  rcases Nat.lt_or_ge e line.length with hlt | hge
  · simp
  · rw [drop_eq_nil_of_le (by simpa using hge)]
    rfl

/-! ### `sh_trim_segment` -/

private theorem trimStart_of_not_space (h : shIsSpace (byteAt line start) = false) (n : Nat) :
    trimStart line start n = start := by
  cases n with
  | zero => rfl
  | succ n => simp [trimStart, h]

/-- `trimEnd` stops behind the last byte that is not a blank. -/
theorem trimEnd_spec (h : shIsSpace (byteAt line start) = false) (hlt : start < stop) :
    start < trimEnd line start stop ∧ trimEnd line start stop ≤ stop ∧
      shIsSpace (byteAt line (trimEnd line start stop - 1)) = false ∧
      ∀ j, trimEnd line start stop ≤ j → j < stop → shIsSpace (byteAt line j) = true := by
  induction stop with
  | zero => omega
  | succ stop ih =>
    rw [trimEnd]
    by_cases hsp : shIsSpace (byteAt line stop) = true
    · -- the last byte is a blank, so it is not the one at `start`
      have hne : start ≠ stop := by rintro rfl; simp [h] at hsp
      obtain ⟨h1, h2, h3, h4⟩ := ih (by omega)
      rw [if_pos (by simp [hsp, hlt])]
      refine ⟨h1, by omega, h3, fun j hj hj' => ?_⟩
      rcases Nat.lt_or_ge j stop with hjs | hjs
      · exact h4 j hj hjs
      · obtain rfl : j = stop := by omega
        exact hsp
    · rw [if_neg (by simp [hsp])]
      refine ⟨hlt, le_refl _, by simpa using hsp, fun j hj hj' => ?_⟩
      omega


/-- A segment that starts with a byte other than a blank, and the cut `e` that `sh_trim_segment`
makes behind it. -/
structure Cut (line : List UInt8) (start stop e : Nat) : Prop where
  lt : start < e
  le : e ≤ stop
  last : shIsSpace (byteAt line (e - 1)) = false
  blank : ∀ j, e ≤ j → j < stop → shIsSpace (byteAt line j) = true

private theorem shTrimSegment_spec (h : shIsSpace (byteAt line start) = false)
    (hlt : start < stop) :
    ∃ e, Cut line start stop e ∧ shTrimSegment line start stop = (line.set e 0, start) := by
  obtain ⟨h1, h2, h3, h4⟩ := trimEnd_spec h hlt
  refine ⟨_, ⟨h1, h2, h3, h4⟩, ?_⟩
  simp only [shTrimSegment, trimStart_of_not_space h]

private theorem byteAt_set_ne (h : i ≠ e) : byteAt (line.set e 0) i = byteAt line i := by
  simp [byteAt, getD_eq_getElem?_getD, h.symm]

/-- At the end of the line the command is cut off behind its last character. -/
theorem endOfLine_spec (h0 : byteAt line start ≠ 0) (h : shIsSpace (byteAt line start) = false)
    (hlt : start < stop) (i : Nat) : ∃ e, Cut line start stop e ∧
      endOfLine line start stop i = .done ⟨1, line.set e 0, i, some start, .seq, false⟩ := by
  obtain ⟨e, hcut, htrim⟩ := shTrimSegment_spec h hlt
  refine ⟨e, hcut, ?_⟩
  simp [endOfLine, htrim, byteAt_set_ne (Nat.ne_of_lt hcut.lt), h0]

/-- So it is at an operator. -/
theorem endAtOperator_spec (h0 : byteAt line start ≠ 0) (h : shIsSpace (byteAt line start) = false)
    (hlt : start < i) (width : Nat) (op : ShOp) (bg : Bool) (empty : List UInt8 → ScanResult) :
    ∃ e, Cut line start i e ∧ endAtOperator line start i width op bg empty
      = .done ⟨1, line.set e 0, i + width, none, op, bg⟩ := by
  obtain ⟨e, hcut, htrim⟩ := shTrimSegment_spec h hlt
  refine ⟨e, hcut, ?_⟩
  simp [endAtOperator, htrim, byteAt_set_ne (Nat.ne_of_lt hcut.lt), h0]


/-! ### The scanning loop against `lex` -/

/-- The quote byte the scanner keeps for an open quote. -/
def quoteByte : Quote → UInt8
  | .none => 0
  | .single => chSquote
  | .double => chDquote

/-- Only blanks stand between `stop` and `i`. -/
structure Tail (line : List UInt8) (stop i : Nat) : Prop where
  le : stop ≤ i
  blank : ∀ j, stop ≤ j → j < i → shIsSpace (byteAt line j) = true

theorem Tail.refl (line : List UInt8) (i : Nat) : Tail line i i :=
  ⟨le_refl i, fun j h h' => by omega⟩

/-- A space makes the tail longer. -/
theorem Tail.succ (h : Tail line stop i) (hsp : shIsSpace (byteAt line i) = true) :
    Tail line stop (i + 1) := by
  refine ⟨Nat.le_succ_of_le h.le, fun j hj hj' => ?_⟩
  rcases Nat.lt_or_ge j i with hlt | hge
  · exact h.blank j hj hlt
  · obtain rfl : j = i := by omega
    exact hsp

/-- The scanner's locals at `i` are those of the reader in state `st`. -/
structure Sync (line : List UInt8) (i : Nat) (st : LexState) (s : ScanState) : Prop where
  quote : s.quote = quoteByte st.quote
  escaped : s.escaped = st.escaped
  word : s.wordStarted = st.word
  inWord : st.quote ≠ .none → st.word = true
  gt : st.gt = true → 0 < i ∧ byteAt line (i - 1) = chGt
  tail : Tail line s.stop i

/-- How the scanning loop can end when it passes `lo`. -/
inductive Overrun (line : List UInt8) (pos start lo : Nat) : ScanResult → Prop
  | unmatched : Overrun line pos start lo (.done ⟨-1, line, pos, none, .seq, false⟩)
  | operator {j width : Nat} {op : ShOp} {bg : Bool} {empty : List UInt8 → ScanResult}
      (h : lo ≤ j) : Overrun line pos start lo (endAtOperator line start j width op bg empty)
  | lineEnd {stop i : Nat} (h : lo ≤ stop) :
      Overrun line pos start lo (endOfLine line start stop i)

/-- Once a text byte before `lo` is behind it, the loop ends at `lo` or later, in any state. -/
theorem scan_overrun (line : List UInt8) (pos start lo : Nat) (rest : List UInt8) (i : Nat)
    (s : ScanState) (hs : lo ≤ s.stop) (hi : lo ≤ i) :
    Overrun line pos start lo (scan line pos start rest i s) := by
  fun_induction scan line pos start rest i s
  all_goals first
    | exact .unmatched
    | exact .operator hi
    | exact .lineEnd hs
    | exact .lineEnd hi
    | (rename_i ih; exact ih (by assumption) (by omega))
    | (rename_i ih; exact ih (Nat.le_succ_of_le hi) (by omega))

/-- The command a token list begins with. -/
def firstCommand : List Tok → Command
  | [] => ⟨[], none⟩
  | .op o :: _ => ⟨[], some o⟩
  | .chr c :: ts => { firstCommand ts with chars := c :: (firstCommand ts).chars }

/-- The end of a scan from `i` over a text that begins with `cmd`: the last command of the line
is scanned exactly, a command before an operator ends at an operator or runs over its own. -/
structure Scanned (line : List UInt8) (pos start i : Nat) (cmd : Command) (r : ScanResult) :
    Prop where
  last : cmd.sep = none → ∃ stop, r = endOfLine line start stop (i + cmd.chars.length) ∧
    Tail line stop (i + cmd.chars.length)
  more : cmd.sep ≠ none → (∃ j width op bg empty, i + cmd.chars.length ≤ j ∧
      r = endAtOperator line start j width op bg empty) ∨
    (i + cmd.chars.length < line.length ∧ shIsSpace (byteAt line (i + cmd.chars.length)) = false ∧
      Overrun line pos start (i + cmd.chars.length + 1) r)

/-- A character goes to the first command. -/
theorem Scanned.cons {ts : List Tok} {r : ScanResult}
    (h : Scanned line pos start (i + 1) (firstCommand ts) r) (c : TextChar) :
    Scanned line pos start i (firstCommand (.chr c :: ts)) r := by
  have hlen : i + (firstCommand (.chr c :: ts)).chars.length
      = i + 1 + (firstCommand ts).chars.length := by
    simp only [firstCommand, length_cons]
    omega
  refine ⟨?_, ?_⟩
  · rw [hlen]; exact h.last
  · rw [hlen]; exact h.more

/-- An operator ends the first command. -/
theorem Scanned.operator {op : ShOp} {bg : Bool}
    (o : SepOp) (ts : List Tok) : Scanned line pos start i (firstCommand (.op o :: ts))
      (endAtOperator line start i width op bg empty) :=
  ⟨nofun, fun _ => .inl ⟨i, width, op, bg, empty, le_refl _, rfl⟩⟩

/-- An unquoted `&` that is an operator of the line.  The loop compares the byte before it without
regard to escapes, so behind an escaped `>` it runs over the operator. -/
theorem scanned_amp (pos start : Nat) (hrest : line.drop i = chAmp :: rest)
    (hnext : rest.headD 0 ≠ chGt) (stop : Nat) (w : Bool) (o : SepOp) (ts : List Tok) :
    Scanned line pos start i (firstCommand (.op o :: ts))
      (scan line pos start (chAmp :: rest) i ⟨stop, 0, false, w⟩) := by
  have hnotSpace : ¬shIsSpace chAmp = true := by decide
  by_cases hgt : 0 < i ∧ byteAt line (i - 1) = chGt
  · simp +decide only [scan, hgt]
    refine ⟨nofun, fun _ => .inr ⟨lt_length_of_drop hrest, ?_,
      scan_overrun _ _ _ _ _ _ _ (le_refl _) (le_refl _)⟩⟩
    simp only [firstCommand, length_nil, Nat.add_zero, byteAt_of_drop hrest]
    exact eq_false_of_ne_true hnotSpace
  · simp +decide only [scan, hgt, hnext, Bool.and_eq_true, beq_iff_eq, decide_eq_true_eq,
      if_true, if_false, false_and]
    split
    · exact .operator o ts
    · exact .operator o ts

/-- The scanner finds the first command of what the lexer reads. -/
theorem scan_of_lex (hnul : 0 ∉ line) (pos start : Nat) {st : LexState} {toks : List Tok}
    (hlex : lex st rest = some toks) (hrest : line.drop i = rest) (hsync : Sync line i st s) :
    Scanned line pos start i (firstCommand toks) (scan line pos start rest i s) := by
  obtain ⟨stop, quote, escaped, word⟩ := s
  obtain ⟨hq, he, hw, hin, hgt, htail⟩ := hsync
  subst hq he hw
  -- one case for each rule of the lexer; `Sync` ties the scanner's state to the lexer's
  fun_induction lex st rest generalizing toks i stop with
  | case1 st hend =>
    obtain ⟨hq, he⟩ := hend
    obtain rfl := some.inj hlex
    refine ⟨fun _ => ⟨stop, ?_, htail⟩, fun h => absurd rfl h⟩
    simp [scan, hq, he, quoteByte, firstCommand]
  | case2 => simp at hlex
  | case3 st c rest hesc ih =>
    obtain ⟨ts, hts, rfl⟩ := map_eq_some_iff.mp hlex
    have h := ih hts (drop_succ_of_drop hrest) (i + 1) (fun _ => rfl) nofun (.refl _ _)
    simpa [scan, ne_zero_of_drop hnul hrest, hesc] using h.cons ⟨c, false⟩
  -- within single quotes only the closing quote matters
  | case4 st c rest hesc hq ih =>
    obtain ⟨ts, hts, rfl⟩ := map_eq_some_iff.mp hlex
    have h := ih hts (drop_succ_of_drop hrest) (i + 1) (fun _ => rfl) nofun (.refl _ _)
    have h0 := ne_zero_of_drop hnul hrest
    by_cases hc : c = chSquote
    · subst hc
      simpa [scan, hesc, hq, quoteByte] using h.cons ⟨chSquote, false⟩
    · simpa [scan, h0, hesc, hq, quoteByte, hc, Ne.symm hc, hin] using h.cons ⟨c, false⟩
  | case6 st c rest hesc hq hb ih =>
    obtain ⟨ts, hts, rfl⟩ := map_eq_some_iff.mp hlex
    have h := ih hts (drop_succ_of_drop hrest) (i + 1) (fun _ => rfl) nofun (.refl _ _)
    have h0 := ne_zero_of_drop hnul hrest
    by_cases hc : c = chDquote
    · subst hc
      simpa [scan, hesc, hq, quoteByte] using h.cons ⟨chDquote, false⟩
    · simpa [scan, h0, hesc, hq, quoteByte, hb, hc, Ne.symm hc, hin] using h.cons ⟨c, false⟩
  | case5 st rest hesc hq ih | case7 st rest hesc hq ih | case8 st rest hesc hq _ ih
  | case9 st rest hesc hq _ _ ih =>
    obtain ⟨ts, hts, rfl⟩ := map_eq_some_iff.mp hlex
    have h := ih hts (drop_succ_of_drop hrest) (i + 1) (fun _ => rfl) nofun (.refl _ _)
    simpa [scan, hesc, hq, quoteByte, Ne.symm] using h.cons _
  -- a comment: the rest of the line is no text
  | case10 st c rest hesc hq hb hs hd hhash =>
    obtain rfl := some.inj hlex
    refine ⟨fun _ => ⟨i, ?_, .refl line i⟩, fun h => absurd rfl h⟩
    simp +decide [scan, hesc, hq, quoteByte, hhash, firstCommand]
  | case11 st c rest hesc hq hb hs hd hhash hsp ih =>
    obtain ⟨ts, hts, rfl⟩ := map_eq_some_iff.mp hlex
    -- a space may be the last of the line, so `stop` stays where it is
    have hsp' : shIsSpace (byteAt line i) = true := by rw [byteAt_of_drop hrest]; exact hsp
    have h := ih hts (drop_succ_of_drop hrest) stop nofun nofun (htail.succ hsp')
    simpa [scan, ne_zero_of_drop hnul hrest, hesc, hq, quoteByte, hb, hs, hd, hhash, hsp] using
      h.cons ⟨c, true⟩
  | case12 st rest hesc hq hb hs hd hhash hsp ih =>
    obtain ⟨ts, hts, rfl⟩ := map_eq_some_iff.mp hlex
    simpa [scan, ne_zero_of_drop hnul hrest, hesc, hq, quoteByte, hb, hs, hd, hhash, hsp] using
      .operator .semi ts
  | case13 st c hesc hq hb hs hd hhash hsp hsemi d rest hamp hnext ih =>
    obtain ⟨ts, hts, rfl⟩ := map_eq_some_iff.mp hlex
    obtain ⟨rfl, -, -⟩ := hamp
    obtain rfl : d = chAmp := by simpa using hnext
    rw [hq, eq_false_of_ne_true hesc]
    exact scanned_amp pos start hrest (show chAmp ≠ chGt by decide) stop _ .andAnd ts
  | case14 => simp at hlex
  | case15 st c rest hesc hq hb hs hd hhash hsp hsemi hamp hnext ih =>
    obtain ⟨ts, hts, rfl⟩ := map_eq_some_iff.mp hlex
    obtain ⟨rfl, -, hgt'⟩ := hamp
    have hhead : rest.headD 0 ≠ chGt := by
      cases rest with
      | nil => decide
      | cons d rest => simpa using hgt'
    rw [hq, eq_false_of_ne_true hesc]
    exact scanned_amp pos start hrest hhead stop _ .amp ts
  | case16 st c hesc hq hb hs hd hhash hsp hsemi d rest hamp hpipe ih =>
    obtain ⟨ts, hts, rfl⟩ := map_eq_some_iff.mp hlex
    obtain ⟨rfl, hnext⟩ := hpipe
    simpa [scan, ne_zero_of_drop hnul hrest, hesc, hq, quoteByte, hb, hs, hd, hhash, hsp, hsemi,
      chAmp_ne_chPipe.symm, hnext] using .operator .orOr ts
  | case17 => simp at hlex
  -- any other character; an ampersand here belongs to a redirection
  | case18 st c rest hesc hq hb hs hd hhash hsp hsemi hamp hpipe ih =>
    obtain ⟨ts, hts, rfl⟩ := map_eq_some_iff.mp hlex
    have hprev : (c == chGt) = true → 0 < i + 1 ∧ byteAt line (i + 1 - 1) = chGt := by
      intro hc
      rw [Nat.add_sub_cancel, byteAt_of_drop hrest]
      exact ⟨Nat.succ_pos i, eq_of_beq hc⟩
    have h := ih hts (drop_succ_of_drop hrest) (i + 1) nofun hprev (.refl _ _)
    have hamp' : ¬(c = chAmp ∧ ¬(0 < i ∧ byteAt line (i - 1) = chGt) ∧ rest.headD 0 ≠ chGt) := by
      rintro ⟨rfl, hprev, hnext⟩
      refine hamp ⟨rfl, eq_false_of_ne_true fun h => hprev (hgt h), fun h => hnext ?_⟩
      simp [h]
    have hpipe' : ¬(c = chPipe ∧ rest.headD 0 = chPipe) := by
      rintro ⟨rfl, hnext⟩
      refine hpipe ⟨rfl, ?_⟩
      cases rest with
      | nil => exact absurd hnext (by decide)
      | cons d rest => simpa using hnext
    simp only [scan, ne_zero_of_drop hnul hrest, hesc, hq, quoteByte, hb, hs, hd, hsp,
      hsemi, beq_iff_eq,
      Bool.and_eq_true, Bool.or_eq_true, decide_eq_true_eq, Bool.not_eq_true', hhash, hpipe',
        bne_self_eq_false,
      if_false, false_and, false_or, Bool.false_eq_true]
    split_ifs with hc hprev' hnext hnext'
    · exact h.cons ⟨c, true⟩
    · exact h.cons ⟨c, true⟩
    · exact absurd ⟨hc, hprev', hnext⟩ hamp'
    · exact absurd ⟨hc, hprev', hnext⟩ hamp'
    · exact h.cons ⟨c, true⟩

/-! ### Termination -/

/-- A call of `sh_next_segment` keeps the buffer's length, stays inside it, and moves the position
forward whenever it returns a segment or calls itself. -/
def Advances (line : List UInt8) (pos : Nat) : ScanResult → Prop
  | .done s => s.line.length = line.length ∧ s.pos ≤ line.length ∧ (0 < s.ret → pos < s.pos)
  | .again line' pos' => line'.length = line.length ∧ pos < pos' ∧ pos' ≤ line.length

private theorem trimEnd_start (line : List UInt8) (start : Nat) :
    trimEnd line start start = start := by
  cases start with
  | zero => rfl
  | succ n => simp [trimEnd]

/-- An empty segment is cut to nothing. -/
theorem byteAt_trim_empty (line : List UInt8) (start : Nat) :
    byteAt (shTrimSegment line start start).1 (shTrimSegment line start start).2 = 0 := by
  simp only [shTrimSegment, Nat.sub_self, trimStart, trimEnd_start, byteAt,
    getD_eq_getElem?_getD, getElem?_set, if_true]
  split <;> rfl

private theorem advances_endOfLine (hpos : pos ≤ start) (hstart : start ≤ stop) (hstop : stop ≤ i)
    (hi : i ≤ line.length) : Advances line pos (endOfLine line start stop i) := by
  unfold endOfLine
  simp only
  split
  · rename_i hne
    refine ⟨by simp [shTrimSegment], hi, fun _ => ?_⟩
    rcases Nat.lt_or_ge start stop with hlt | hge
    · show pos < i
      omega
    · obtain rfl : start = stop := by omega
      simp [byteAt_trim_empty] at hne
  · exact ⟨by simp [shTrimSegment], hi, by simp⟩

private theorem advances_endAtOperator (hpos : pos ≤ i) (hwidth : 0 < width)
    (hi : i + width ≤ line.length) (op : ShOp) (bg : Bool)
    (hempty : ∀ line', line'.length = line.length → Advances line pos (empty line')) :
    Advances line pos (endAtOperator line start i width op bg empty) := by
  unfold endAtOperator
  simp only
  split
  · exact ⟨by simp [shTrimSegment], hi, fun _ => by show pos < i + width; omega⟩
  · exact hempty _ (by simp [shTrimSegment])

private theorem advances_scan (hrest : line.drop i = rest) (hi : i ≤ line.length)
    (hpos : pos ≤ start) (hstart : start ≤ s.stop) (hstop : s.stop ≤ i) :
    Advances line pos (scan line pos start rest i s) := by
  have hle : pos ≤ line.length := by omega
  have hopen : Advances line pos (.done ⟨-1, line, pos, none, .seq, false⟩) := ⟨rfl, hle, by simp⟩
  -- a two-byte operator lies inside the line
  have hpair : ∀ {j c d} {rest : List UInt8}, line.drop j = c :: rest → rest.headD 0 = d → d ≠ 0 →
      j + 2 ≤ line.length := by
    intro j c d rest hdrop hhead hd
    have hlen := congrArg length hdrop
    cases rest with
    | nil => exact absurd hhead.symm hd
    | cons a rest =>
      simp only [length_drop, length_cons] at hlen
      omega
  fun_induction scan line pos start rest i s with
  | case1 | case3 => exact hopen
  | case2 | case4 => exact advances_endOfLine hpos hstart hstop hi
  | case5 _ _ _ _ _ _ ih | case6 _ _ _ _ _ _ _ ih | case7 _ _ _ _ _ _ _ _ ih
  | case8 _ _ _ _ _ _ _ _ _ ih | case12 _ _ _ _ _ _ _ _ _ _ _ _ _ _ ih
  | case13 _ _ _ _ _ _ _ _ _ _ _ _ _ _ _ ih | case17 _ _ _ _ _ _ _ _ _ _ _ _ _ _ ih =>
    have hlt := lt_length_of_drop hrest
    exact ih (drop_succ_of_drop hrest) (by omega) (by simp only; omega) (le_refl _)
  | case9 => exact advances_endOfLine hpos (by omega) (le_refl _) hi
  | case10 _ _ _ _ _ _ _ _ _ _ _ ih =>
    have hlt := lt_length_of_drop hrest
    exact ih (drop_succ_of_drop hrest) (by omega) hstart (by simp only; omega)
  | case11 | case15 =>
    have hlt := lt_length_of_drop hrest
    refine advances_endAtOperator (by omega) Nat.one_pos (by omega) _ _ fun line' hline' => ?_
    exact ⟨hline', by omega, by omega⟩
  | case14 _ _ _ _ _ _ _ _ _ _ _ _ _ _ _ hnext =>
    have hlt := hpair hrest (eq_of_beq hnext) (by decide)
    refine advances_endAtOperator (by omega) Nat.two_pos (by omega) _ _ fun line' hline' => ?_
    exact ⟨hline', hlt, by simp⟩
  | case16 _ _ _ _ _ _ _ _ _ _ _ _ _ hnext =>
    have hlt := hpair hrest (eq_of_beq (Bool.and_eq_true_iff.mp hnext).2) (by decide)
    refine advances_endAtOperator (by omega) Nat.two_pos (by omega) _ _ fun line' hline' => ?_
    exact ⟨hline', hlt, by simp⟩

private theorem le_skipLead (rest : List UInt8) (i : Nat) :
    i ≤ skipLead rest i ∧ skipLead rest i ≤ i + rest.length := by
  fun_induction skipLead rest i with
  | case1 | case5 => simp
  | case2 _ _ _ _ ih | case3 _ _ _ _ _ ih | case4 _ _ _ _ _ _ ih =>
    simp only [length_cons]
    omega

private theorem advances_step (hpos : pos ≤ line.length) :
    Advances line pos (shNextSegmentStep line pos) := by
  have hskip := le_skipLead (line.drop pos) pos
  rw [length_drop] at hskip
  unfold shNextSegmentStep
  simp only
  split
  · exact ⟨rfl, by simp only; omega, by simp⟩
  · exact advances_scan rfl (by omega) hskip.1 (le_refl _) (le_refl _)

private theorem shNextSegment_isSome (fuel : Nat) (hpos : pos ≤ line.length)
    (hfuel : line.length < fuel + pos) :
    ∃ s, shNextSegment fuel line pos = some s ∧ s.line.length = line.length ∧
      s.pos ≤ line.length ∧ (0 < s.ret → pos < s.pos) := by
  induction fuel generalizing line pos with
  | zero => omega
  | succ fuel ih =>
    have hadv := advances_step hpos
    rw [shNextSegment]
    cases hstep : shNextSegmentStep line pos with
    | done s =>
      rw [hstep] at hadv
      exact ⟨s, rfl, hadv⟩
    | again line' pos' =>
      rw [hstep] at hadv
      obtain ⟨hlen, hlt, hle⟩ := hadv
      obtain ⟨s, hs, h1, h2, h3⟩ := ih (show pos' ≤ line'.length by omega) (by omega)
      exact ⟨s, hs, by omega, by omega, fun h => by have := h3 h; omega⟩

private theorem shRunLoop_isSome (run : Runner) {fuel : Nat} (op : ShOp) (last : Int)
    (calls : List Call) (hpos : pos ≤ line.length) (hfuel : line.length < fuel + pos) :
    (shRunLoop run fuel line pos op last calls).isSome = true := by
  induction fuel generalizing line pos op last calls with
  | zero => omega
  | succ fuel ih =>
    obtain ⟨s, hs, hlen, hle, hret⟩ := shNextSegment_isSome (line.length + 1) hpos (by omega)
    rw [shRunLoop, hs]
    simp only
    split
    · rfl
    split
    · rfl
    rename_i hneg hzero
    have hlt : pos < s.pos := hret (by have : s.ret ≠ 0 := by simpa using hzero
                                       omega)
    split
    · exact ih _ _ _ (by omega) (by omega)
    · exact ih _ _ _ (by omega) (by omega)

/-- `sh_run_line` returns on every line. -/
theorem shRunLine_isSome (run : Runner) (last : Int) (line : List UInt8) :
    (shRunLine run last line).isSome = true :=
  shRunLoop_isSome run .seq last [] (Nat.zero_le _) (by omega)

end Rabbitbone.Spec.Shell
