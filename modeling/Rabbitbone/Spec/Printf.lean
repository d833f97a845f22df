import Rabbitbone.Native.Printf

/-!
# Formats and their arguments

A format string is made of text and conversions, and it may end in a conversion that is not
complete.  `Faithful` says that the formatter takes it apart in the same way, one argument after the
other, and does not read behind its end.  It does so unless a conversion has a minus flag, which the
formatter does not know, or the string ends in a conversion that is not complete, behind which it
steps over the terminator.
-/

namespace Rabbitbone.Spec.Printf

open Native.Printf Act List

variable {c : UInt8} {mem rest : List UInt8} {m : Modifiers}

/-! ### Format strings -/

inductive Flag where
  | none
  | minus
  | zero
  deriving DecidableEq, Repr

/-- The flag, the width and the length of a conversion.  A width does not start with a zero, which
would be a flag. -/
structure Modifiers where
  flag : Flag
  width : List (Fin 10)
  length : Length
  wide : width.head? ≠ some 0
  deriving DecidableEq, Repr

/-- A part of a format string; a conversion without a kind is `%%`. -/
inductive Piece where
  | text (c : UInt8) (hc : c ≠ 0 ∧ c ≠ chPercent)
  | conv (m : Modifiers) (kind : Option Conv)
  deriving DecidableEq, Repr

def Flag.bytes : Flag → List UInt8
  | .none => []
  | .minus => [chMinus]
  | .zero => [chZero]

def lengthBytes : Length → List UInt8
  | .int => []
  | .long => [chL]
  | .longLong => [chL, chL]

def digitByte (d : Fin 10) : UInt8 := chZero + UInt8.ofNat d.val

def kindByte : Option Conv → UInt8
  | none => chPercent
  | some .c => 'c'.toUInt8
  | some .s => 's'.toUInt8
  | some .d => 'd'.toUInt8
  | some .i => 'i'.toUInt8
  | some .u => 'u'.toUInt8
  | some .x => 'x'.toUInt8
  | some .upperX => 'X'.toUInt8
  | some .p => 'p'.toUInt8

/-- The bytes between `%` and the character of the conversion. -/
def Modifiers.bytes (m : Modifiers) : List UInt8 :=
  m.flag.bytes ++ m.width.map digitByte ++ lengthBytes m.length

def Piece.bytes : Piece → List UInt8
  | .text c _ => [c]
  | .conv m kind => chPercent :: (m.bytes ++ [kindByte kind])

/-- A format string; `tail` is a conversion at its end that is not complete. -/
structure Format where
  pieces : List Piece
  tail : Option Modifiers
  deriving DecidableEq, Repr

def tailBytes : Option Modifiers → List UInt8
  | none => []
  | some m => chPercent :: m.bytes

def Format.bytes (f : Format) : List UInt8 := f.pieces.flatMap Piece.bytes ++ tailBytes f.tail

/-! ### What a format asks for -/

/-- The value of a width. -/
def widthValue (digits : List (Fin 10)) : Nat := digits.foldl (fun n d => n * 10 + d.val) 0

/-- What a part asks for, with `k` arguments before it and its last byte at `left`. -/
def Piece.act (left k : Nat) : Piece → Act
  | .text c _ => .put left c
  | .conv _ none => .put left chPercent
  | .conv m (some kind) =>
    .arg left k kind m.length (min (widthValue m.width) printfMaxWidth) (m.flag = .zero)

/-- The number of arguments a part takes. -/
def Piece.args : Piece → Nat
  | .conv _ (some _) => 1
  | _ => 0

/-- What the parts of a format ask for: the `k`-th conversion that takes an argument is printed with
the `k`-th argument.  `left` is the number of bytes behind the parts. -/
def acts (left : Nat) : List Piece → Nat → List Act
  | [], _ => []
  | p :: ps, k =>
    p.act (left + (ps.flatMap Piece.bytes).length + 1) k :: acts left ps (k + p.args)

/-- What the formatter does apart from reading the format. -/
def outs (trace : List Act) : List Act :=
  trace.filter fun a => match a with
    | .read _ => false
    | _ => true

/-- An argument is fetched. -/
def isArg : Act → Bool
  | .arg .. => true
  | _ => false

/-- The formatter does for each part what the part asks for, it fetches no argument for what is not
complete, and of the memory it reads the string and the terminator only; `beyond` is the memory
behind the terminator.  This includes the text: `%-%` asks for a percent sign, and is not served
where the formatter prints `%-%` and shifts no argument. -/
structure Faithful (f : Format) (beyond : List UInt8) : Prop where
  acts : ∃ more, outs (kvformat (f.bytes ++ 0 :: beyond) 0)
      = acts ((tailBytes f.tail).length + (beyond.length + 1)) f.pieces 0 ++ more ∧
    (∀ a ∈ more, isArg a = false) ∧ (f.tail = none → more = [])
  reads : ∀ left, read left ∈ kvformat (f.bytes ++ 0 :: beyond) 0 → beyond.length < left

/-- No conversion has a minus flag, and the string does not end in a conversion without its last
character, unless that has a minus flag. -/
def Plain (f : Format) : Prop :=
  (∀ m kind, .conv m kind ∈ f.pieces → m.flag ≠ .minus) ∧ ∀ m, f.tail = some m → m.flag = .minus

/-! ### Traces -/

private theorem outs_append (a b : List Act) : outs (a ++ b) = outs a ++ outs b := filter_append ..

private theorem outs_readTo (mem rest : List UInt8) : outs (readTo mem rest) = [] := by
  refine filter_eq_nil_iff.mpr fun a ha => ?_
  obtain ⟨n, -, rfl⟩ := mem_map.mp ha
  exact Bool.false_ne_true

/-- Reading a directive is no output. -/
theorem outs_directive (n : Nat) (mem rest : List UInt8) (trace : List Act) :
    outs (.read n :: (readTo mem rest ++ trace)) = outs trace := by
  have hread : outs (.read n :: (readTo mem rest ++ trace)) = outs (readTo mem rest ++ trace) := rfl
  rw [hread, outs_append, outs_readTo, nil_append]

private theorem le_of_mem_readTo (hle : rest.length ≤ mem.length) {left : Nat}
    (h : read left ∈ readTo mem rest) : rest.length ≤ left := by
  obtain ⟨n, hn, heq⟩ := mem_map.mp h
  have hlt := mem_range.mp hn
  have hleft := read.inj heq
  omega

/-! ### Directives -/

private theorem isDigit_digitByte (d : Fin 10) : isDigit (digitByte d) = true := by
  revert d
  decide

private theorem digitByte_sub (d : Fin 10) : (digitByte d - chZero).toNat = d.val := by
  revert d
  decide

/-- The width is the number that stands there, up to the greatest one allowed. -/
theorem readWidth_digits (digits : List (Fin 10)) (hc : isDigit c = false)
    (rest : List UInt8) (n : Nat) :
    readWidth (digits.map digitByte ++ c :: rest) (min n printfMaxWidth)
      = (min (digits.foldl (fun n d => n * 10 + d.val) n) printfMaxWidth, c :: rest) := by
  induction digits generalizing n with
  | nil =>
    rw [map_nil, nil_append, readWidth, hc]
    rfl
  | cons d digits ih =>
    have hstep : (if (printfMaxWidth - d.val) / 10 < min n printfMaxWidth then printfMaxWidth
        else min n printfMaxWidth * 10 + d.val) = min (n * 10 + d.val) printfMaxWidth := by
      rw [printfMaxWidth]
      split <;> omega
    rw [map_cons, cons_append, readWidth, if_pos (isDigit_digitByte d), digitByte_sub]
    dsimp only
    rw [hstep, ih]
    rfl

/-- The byte behind the modifiers. -/
structure Stop (c : UInt8) : Prop where
  digit : isDigit c = false
  long : c ≠ chL
  zero : c ≠ chZero

private theorem stop_kindByte (kind : Option Conv) : Stop (kindByte kind) := by
  cases kind with
  | none => exact ⟨by decide, by decide, by decide⟩
  | some conv => cases conv <;> exact ⟨by decide, by decide, by decide⟩

private theorem stop_nul : Stop 0 := ⟨by decide, by decide, by decide⟩

private theorem digitByte_eq_zero {d : Fin 10} (h : digitByte d = chZero) : d = 0 := by
  revert d
  decide

/-- Without a flag, the modifiers do not start with a zero. -/
theorem head?_ne_zero (hc : Stop c) (rest : List UInt8) :
    (m.width.map digitByte ++ lengthBytes m.length ++ c :: rest).head? ≠ some chZero := by
  intro h
  cases hwidth : m.width with
  | cons d digits =>
    rw [hwidth] at h
    have hd := digitByte_eq_zero (Option.some.inj h)
    exact m.wide (by rw [hwidth, hd]; rfl)
  | nil =>
    rw [hwidth] at h
    cases hlen : m.length with
    | int =>
      rw [hlen] at h
      exact hc.zero (Option.some.inj h)
    | long | longLong =>
      rw [hlen] at h
      exact absurd (Option.some.inj h) (by decide)

/-- The length behind the width. -/
theorem readLength (padZero : Bool) (width : Nat) (length : Length) (hc : Stop c)
    (rest : List UInt8) :
    (let mem := lengthBytes length ++ c :: rest
      if mem.head? = some chL then
        if mem.tail.head? = some chL then (⟨padZero, width, .longLong, mem.tail.tail⟩ : Directive)
        else ⟨padZero, width, .long, mem.tail⟩
      else ⟨padZero, width, .int, mem⟩) = ⟨padZero, width, length, c :: rest⟩ := by
  have hne : ¬some c = some chL := fun h => hc.long (Option.some.inj h)
  cases length with
  | int => exact if_neg hne
  | long =>
    refine (if_pos rfl).trans ?_
    exact if_neg hne
  | longLong => rfl

/-- The byte behind the width is not a digit. -/
theorem readWidth_modifiers (digits : List (Fin 10)) (length : Length) (hc : Stop c)
    (rest : List UInt8) :
    readWidth (digits.map digitByte ++ lengthBytes length ++ c :: rest) 0
      = (min (widthValue digits) printfMaxWidth, lengthBytes length ++ c :: rest) := by
  rw [append_assoc]
  cases length with
  | int =>
    exact readWidth_digits digits hc.digit rest 0
  | long =>
    exact readWidth_digits digits (by decide) (c :: rest) 0
  | longLong =>
    exact readWidth_digits digits (by decide) (chL :: c :: rest) 0

private theorem readDirective_modifiers (hm : m.flag ≠ .minus) (hc : Stop c) (rest : List UInt8) :
    readDirective (m.bytes ++ c :: rest)
      = ⟨m.flag = .zero, min (widthValue m.width) printfMaxWidth, m.length, c :: rest⟩ := by
  have hwidth := readWidth_modifiers m.width m.length hc rest
  rw [Modifiers.bytes, append_assoc m.flag.bytes, append_assoc m.flag.bytes]
  cases hflag : m.flag with
  | minus => exact absurd hflag hm
  | none =>
    have hhead := head?_ne_zero (m := m) hc rest
    rw [readDirective]
    simp only [Flag.bytes, nil_append, hhead, if_false, hwidth, decide_false]
    exact readLength false _ m.length hc rest
  | zero =>
    rw [readDirective]
    simp only [Flag.bytes, cons_append, nil_append, head?_cons, decide_true, if_true,
      tail_cons, hwidth]
    exact readLength true _ m.length hc rest

/-- A minus is not read as part of a directive. -/
theorem readDirective_minus (rest : List UInt8) :
    readDirective (chMinus :: rest) = ⟨false, 0, .int, chMinus :: rest⟩ := rfl

/-! ### The loop -/

private theorem kvformat_nul (beyond : List UInt8) (k : Nat) :
    kvformat (0 :: beyond) k = [.read (beyond.length + 1)] := by
  rw [kvformat, if_pos rfl]

private theorem kvformat_text (hc : c ≠ 0 ∧ c ≠ chPercent) (rest : List UInt8) (k : Nat) :
    kvformat (c :: rest) k = .read (rest.length + 1) :: .put (rest.length + 1) c ::
      kvformat rest k := by
  rw [kvformat, if_neg hc.1, if_neg hc.2]

/-- A `%` and the directive behind it. -/
theorem kvformat_percent {d : Directive} (hd : readDirective mem = d)
    (hrest : d.rest = c :: rest) (k : Nat) :
    kvformat (chPercent :: mem) k = .read (mem.length + 1) ::
        (readTo mem d.rest ++ ((convert d c k).1 ++ kvformat rest (convert d c k).2)) := by
  subst hd
  rw [kvformat, if_neg (by decide), if_pos rfl]
  split
  · rename_i hnil
    cases hnil.symm.trans hrest
  rename_i c' rest' hcons
  obtain ⟨rfl, rfl⟩ := cons.inj (hcons.symm.trans hrest)
  rfl

private theorem convOf_kindByte (conv : Conv) : convOf (kindByte (some conv)) = some conv := by
  cases conv <;> decide

private theorem convert_kindByte (m : Modifiers) (kind : Option Conv)
    (rest : List UInt8) (k : Nat) :
    convert ⟨m.flag = .zero, min (widthValue m.width) printfMaxWidth, m.length,
      kindByte kind :: rest⟩
      (kindByte kind) k
      = ([Piece.act (rest.length + 1) k (.conv m kind)], k + Piece.args (.conv m kind)) := by
  cases kind with
  | none => rfl
  | some conv =>
    have hne : kindByte (some conv) ≠ chPercent := by cases conv <;> decide
    rw [convert]
    simp only [if_neg hne, convOf_kindByte]
    rfl

/-- A conversion without a minus flag is read as one. -/
theorem kvformat_conv (hm : m.flag ≠ .minus) (kind : Option Conv) (rest : List UInt8) (k : Nat) :
    kvformat (Piece.bytes (.conv m kind) ++ rest) k
      = .read ((m.bytes ++ kindByte kind :: rest).length + 1) ::
        (readTo (m.bytes ++ kindByte kind :: rest) (kindByte kind :: rest) ++
          (Piece.act (rest.length + 1) k (.conv m kind) ::
            kvformat rest (k + Piece.args (.conv m kind)))) := by
  have hbytes : Piece.bytes (.conv m kind) ++ rest =
      chPercent :: (m.bytes ++ kindByte kind :: rest) := by
    simp only [Piece.bytes, cons_append, append_assoc, nil_append]
  rw [hbytes, kvformat_percent (readDirective_modifiers hm (stop_kindByte kind) rest) rfl,
    convert_kindByte]
  rfl

/-- A conversion with a minus flag is printed as it stands, without its argument. -/
theorem kvformat_minus (rest : List UInt8) (k : Nat) : kvformat (chPercent :: chMinus :: rest) k
      = .read (rest.length + 2) :: (readTo (chMinus :: rest) (chMinus :: rest) ++
        (.put (rest.length + 1) chPercent :: .put (rest.length + 1) chMinus ::
          kvformat rest k)) := by
  rw [kvformat_percent (readDirective_minus rest) rfl]
  rfl

/-- Behind a conversion that is not complete the terminator is stepped over. -/
theorem kvformat_incomplete (hm : m.flag ≠ .minus) (beyond : List UInt8) (k : Nat) :
    kvformat (chPercent :: (m.bytes ++ 0 :: beyond)) k =
      .read ((m.bytes ++ 0 :: beyond).length + 1) ::
        (readTo (m.bytes ++ 0 :: beyond) (0 :: beyond) ++
          (.put (beyond.length + 1) chPercent :: kvformat beyond k)) := by
  rw [kvformat_percent (readDirective_modifiers hm stop_nul beyond) rfl]
  rfl

/-- The formatter reads the byte it is started at. -/
theorem read_mem_kvformat (mem : List UInt8) (k : Nat) : read mem.length ∈ kvformat mem k := by
  cases mem with
  | nil =>
    rw [kvformat]
    exact mem_singleton_self _
  | cons c rest =>
    rw [kvformat]
    exact mem_cons_self

/-! ### What is printed as it stands -/

/-- Bytes without a `%`. -/
theorem kvformat_plain {text : List UInt8} (h : ∀ c ∈ text, c ≠ 0 ∧ c ≠ chPercent)
    (beyond : List UInt8) (k : Nat) :
    (∀ a ∈ outs (kvformat (text ++ 0 :: beyond) k), isArg a = false) ∧
      ∀ left, read left ∈ kvformat (text ++ 0 :: beyond) k → beyond.length < left := by
  induction text with
  | nil =>
    rw [nil_append, kvformat_nul]
    refine ⟨fun a ha => (nomatch ha), fun left hleft => ?_⟩
    rw [read.inj (mem_singleton.mp hleft)]
    exact Nat.lt_succ_self _
  | cons c text ih =>
    obtain ⟨hargs, hreads⟩ := ih fun c hc => h c (mem_cons_of_mem _ hc)
    rw [cons_append, kvformat_text (h c mem_cons_self)]
    refine ⟨fun a ha => ?_, fun left hleft => ?_⟩
    · rcases mem_cons.mp ha with rfl | ha
      · rfl
      · exact hargs a ha
    · rcases mem_cons.mp hleft with heq | hleft
      · rw [read.inj heq, length_append, length_cons]
        omega
      rcases mem_cons.mp hleft with heq | hleft
      · exact nomatch heq
      · exact hreads left hleft

private theorem plain_modifiers :
    ∀ c ∈ m.width.map digitByte ++ lengthBytes m.length, c ≠ 0 ∧ c ≠ chPercent := by
  intro c hc
  rcases mem_append.mp hc with hc | hc
  · have hdigit : ∀ d : Fin 10, digitByte d ≠ 0 ∧ digitByte d ≠ chPercent := by decide
    obtain ⟨d, -, rfl⟩ := mem_map.mp hc
    exact hdigit d
  cases hlen : m.length with
  | int =>
    rw [hlen] at hc
    exact nomatch hc
  | long =>
    rw [hlen] at hc
    rw [mem_singleton.mp hc]
    decide
  | longLong =>
    rw [hlen] at hc
    rcases mem_cons.mp hc with rfl | hc
    · decide
    · rw [mem_singleton.mp hc]
      decide

/-! ### Formats -/

/-- `Faithful` for the rest of a format, with `k` arguments fetched before. -/
structure FaithfulFrom (f : Format) (beyond : List UInt8) (k : Nat) : Prop where
  acts : ∃ more, outs (kvformat (f.bytes ++ 0 :: beyond) k)
      = acts ((tailBytes f.tail).length + (beyond.length + 1)) f.pieces k ++ more ∧
    (∀ a ∈ more, isArg a = false) ∧ (f.tail = none → more = [])
  reads : ∀ left, read left ∈ kvformat (f.bytes ++ 0 :: beyond) k → beyond.length < left

/-- A format that ends in a conversion that is not complete. -/
theorem faithfulFrom_nil (tail : Option Modifiers) (beyond : List UInt8) (k : Nat) :
    FaithfulFrom ⟨[], tail⟩ beyond k ↔ ∀ m, tail = some m → m.flag = .minus := by
  cases tail with
  | none =>
    refine iff_of_true ⟨⟨[], ?_, fun a ha => (nomatch ha), fun _ => rfl⟩, fun left hleft => ?_⟩
      fun m hm => nomatch hm
    · simp only [Format.bytes, tailBytes, flatMap_nil, nil_append, kvformat_nul]
      rfl
    · simp only [Format.bytes, tailBytes, flatMap_nil, nil_append, kvformat_nul] at hleft
      rw [read.inj (mem_singleton.mp hleft)]
      exact Nat.lt_succ_self _
  | some m =>
    have hbytes : Format.bytes ⟨[], some m⟩ ++ 0 :: beyond =
        chPercent :: (m.bytes ++ 0 :: beyond) := rfl
    constructor
    · intro h m' hm'
      obtain rfl := Option.some.inj hm'
      by_contra hm
      -- the byte behind the terminator is read
      have hreads := h.reads beyond.length
      rw [hbytes, kvformat_incomplete hm] at hreads
      refine absurd (hreads ?_) (Nat.lt_irrefl _)
      exact mem_cons_of_mem _ (mem_append_right _ (mem_cons_of_mem _ (read_mem_kvformat beyond k)))
    · intro h
      have hm := h m rfl
      have hminus : m.bytes ++ 0 :: beyond
          = chMinus :: (m.width.map digitByte ++ lengthBytes m.length ++ 0 :: beyond) := by
        rw [Modifiers.bytes, hm]
        rfl
      obtain ⟨hargs, hreads⟩ := kvformat_plain (plain_modifiers) beyond k
      refine ⟨⟨outs (kvformat (Format.bytes ⟨[], some m⟩ ++ 0 :: beyond) k), rfl, fun a ha => ?_,
        fun hnone => (nomatch hnone)⟩, fun left hleft => ?_⟩
      · rw [hbytes, hminus, kvformat_minus, outs_directive] at ha
        rcases mem_cons.mp ha with rfl | ha
        · rfl
        rcases mem_cons.mp ha with rfl | ha
        · rfl
        · exact hargs a ha
      · rw [hbytes, hminus, kvformat_minus] at hleft
        rcases mem_cons.mp hleft with heq | hleft
        · rw [read.inj heq, length_append, length_cons]
          omega
        rcases mem_append.mp hleft with hleft | hleft
        · have hle := le_of_mem_readTo (Nat.le_refl _) hleft
          rw [length_cons, length_append, length_cons] at hle
          omega
        rcases mem_cons.mp hleft with heq | hleft
        · exact nomatch heq
        rcases mem_cons.mp hleft with heq | hleft
        · exact nomatch heq
        · exact hreads left hleft

/-- A part that the formatter reads as one. -/
def Piece.Known : Piece → Prop
  | .text _ _ => True
  | .conv m _ => m.flag ≠ .minus

section

variable {p : Piece} {ps : List Piece} {tail : Option Modifiers} {beyond : List UInt8} {k : Nat}

private theorem bytes_cons (p : Piece) (ps : List Piece) (tail : Option Modifiers)
    (rest : List UInt8) :
    Format.bytes ⟨p :: ps, tail⟩ ++ rest = p.bytes ++ (Format.bytes ⟨ps, tail⟩ ++ rest) := by
  simp only [Format.bytes, flatMap_cons, append_assoc]

/-- The last byte of a part, counted from the end of the memory. -/
theorem left_eq (ps : List Piece) (tail : Option Modifiers) (beyond : List UInt8) :
    (Format.bytes ⟨ps, tail⟩ ++ 0 :: beyond).length
      = (tailBytes tail).length + (beyond.length + 1) + (ps.flatMap Piece.bytes).length := by
  simp only [Format.bytes, length_append, length_cons]
  omega

/-- What the formatter does at a part it knows. -/
theorem kvformat_known (hp : p.Known) (rest : List UInt8) (k : Nat) :
    outs (kvformat (p.bytes ++ rest) k)
        = p.act (rest.length + 1) k :: outs (kvformat rest (k + p.args)) ∧
      ∀ left, read left ∈ kvformat (p.bytes ++ rest) k ↔ read left ∈ kvformat rest (k + p.args) ∨
          (rest.length < left ∧ left ≤ (p.bytes ++ rest).length) := by
  cases p with
  | text c hc =>
    have hbytes : Piece.bytes (.text c hc) ++ rest = c :: rest := rfl
    rw [hbytes, kvformat_text hc]
    refine ⟨rfl, fun left => ?_⟩
    rw [mem_cons, mem_cons, length_cons]
    constructor
    · rintro (heq | heq | hleft)
      · rw [read.inj heq]
        exact .inr ⟨Nat.lt_succ_self _, Nat.le_refl _⟩
      · exact nomatch heq
      · exact .inl hleft
    · rintro (hleft | ⟨hlt, hle⟩)
      · exact .inr (.inr hleft)
      · exact .inl (congrArg read (Nat.le_antisymm hle hlt))
  | conv m kind =>
    rw [kvformat_conv hp, outs_directive]
    refine ⟨?_, fun left => ?_⟩
    · cases kind <;> rfl
    · -- the reads are those of `%`, of the modifiers and of the conversion
      have hlen : (Piece.bytes (.conv m kind) ++ rest).length =
          (m.bytes ++ kindByte kind :: rest).length + 1 := by
        simp only [Piece.bytes, length_append, length_cons, length_nil]
        omega
      rw [hlen, mem_cons, mem_append, mem_cons]
      constructor
      · rintro (heq | hleft | heq | hleft)
        · rw [read.inj heq, length_append, length_cons]
          exact .inr ⟨by omega, Nat.le_refl _⟩
        · obtain ⟨n, hn, heq⟩ := mem_map.mp hleft
          have hlt := mem_range.mp hn
          have hleft := read.inj heq
          rw [length_append, length_cons] at *
          exact .inr ⟨by omega, by omega⟩
        · cases kind <;> exact nomatch heq
        · exact .inl hleft
      · rintro (hleft | ⟨hlt, hle⟩)
        · exact .inr (.inr (.inr hleft))
        · by_cases hfirst : left = (m.bytes ++ kindByte kind :: rest).length + 1
          · exact .inl (congrArg read hfirst)
          refine .inr
            (.inl (mem_map.mpr ⟨(m.bytes ++ kindByte kind :: rest).length - left, ?_, ?_⟩))
          · rw [mem_range]
            rw [length_append, length_cons] at *
            omega
          · refine congrArg read ?_
            omega

private theorem faithfulFrom_cons_of_known (hp : p.Known) :
    FaithfulFrom ⟨p :: ps, tail⟩ beyond k ↔ FaithfulFrom ⟨ps, tail⟩ beyond (k + p.args) := by
  obtain ⟨houts, hreads⟩ := kvformat_known hp (Format.bytes ⟨ps, tail⟩ ++ 0 :: beyond) k
  rw [← bytes_cons] at houts hreads
  have hact : p.act ((Format.bytes ⟨ps, tail⟩ ++ 0 :: beyond).length + 1) k ::
        acts ((tailBytes tail).length + (beyond.length + 1)) ps (k + p.args)
      = acts ((tailBytes tail).length + (beyond.length + 1)) (p :: ps) k := by
    rw [left_eq, acts]
  constructor
  · intro h
    obtain ⟨more, hmore, hargs, hnone⟩ := h.acts
    refine ⟨⟨more, ?_, hargs, hnone⟩,
      fun left hleft => h.reads left ((hreads left).mpr (.inl hleft))⟩
    rw [houts, ← hact, cons_append] at hmore
    exact (cons.inj hmore).2
  · intro h
    obtain ⟨more, hmore, hargs, hnone⟩ := h.acts
    refine ⟨⟨more, ?_, hargs, hnone⟩, fun left hleft => ?_⟩
    · rw [houts, hmore, ← hact, cons_append]
    · rcases (hreads left).mp hleft with hleft | ⟨hlt, -⟩
      · exact h.reads left hleft
      · rw [length_append, length_cons] at hlt
        omega

/-- A conversion with a minus flag is not read as one. -/
theorem not_faithfulFrom_minus {m : Modifiers} (hm : m.flag = .minus) (kind : Option Conv) :
    ¬FaithfulFrom ⟨.conv m kind :: ps, tail⟩ beyond k := by
  intro h
  obtain ⟨more, hmore, -⟩ := h.acts
  have hbytes : Format.bytes ⟨.conv m kind :: ps, tail⟩ ++ 0 :: beyond
      = chPercent :: chMinus :: (m.width.map digitByte ++ lengthBytes m.length ++
        kindByte kind :: (Format.bytes ⟨ps, tail⟩ ++ 0 :: beyond)) := by
    rw [bytes_cons]
    simp only [Piece.bytes, Modifiers.bytes, hm, Flag.bytes, cons_append, nil_append, append_assoc]
  rw [hbytes, kvformat_minus, outs_directive, acts, cons_append] at hmore
  -- the percent sign is printed at the minus, not at the character of the conversion
  have hhead := (cons.inj hmore).1
  cases kind with
  | some conv => exact nomatch hhead
  | none =>
    have hleft := (put.inj hhead).1
    have hlen := left_eq ps tail beyond
    simp only [length_append, length_cons] at hleft hlen
    omega

end

private theorem faithfulFrom_iff (ps : List Piece) (tail : Option Modifiers)
    (beyond : List UInt8) (k : Nat) :
    FaithfulFrom ⟨ps, tail⟩ beyond k ↔
      (∀ m kind, .conv m kind ∈ ps → m.flag ≠ .minus) ∧ ∀ m, tail = some m → m.flag = .minus := by
  induction ps generalizing k with
  | nil =>
    rw [faithfulFrom_nil]
    exact ⟨fun h => ⟨fun m kind hm => (nomatch hm), h⟩, fun h => h.2⟩
  | cons p ps ih =>
    by_cases hp : p.Known
    · rw [faithfulFrom_cons_of_known hp, ih]
      refine and_congr_left fun _ => ⟨fun h m kind hm => ?_, fun h m kind hm => ?_⟩
      · rcases mem_cons.mp hm with rfl | hm
        · exact hp
        · exact h m kind hm
      · exact h m kind (mem_cons_of_mem _ hm)
    · cases p with
      | text c hc => exact absurd trivial hp
      | conv m kind =>
        have hm : m.flag = .minus := not_not.mp hp
        exact iff_of_false (not_faithfulFrom_minus hm kind) fun h => h.1 m kind mem_cons_self hm

/-- The formatter keeps format and arguments in step and stays inside the string exactly if no
conversion has a minus flag and the string does not end in a conversion that is not complete (unless
that one has a minus flag). -/
theorem kvformat_faithful_iff (f : Format) (beyond : List UInt8) : Faithful f beyond ↔ Plain f := by
  have hfrom : Faithful f beyond ↔ FaithfulFrom ⟨f.pieces, f.tail⟩ beyond 0 :=
    ⟨fun h => ⟨h.acts, h.reads⟩, fun h => ⟨h.acts, h.reads⟩⟩
  rw [hfrom, faithfulFrom_iff]
  rfl

/-- The line of `task_dump`: `"  %-5u %-5u %-8s %-5llu %s\n"`, from its first conversion to the
last. -/
def taskLine : Format :=
  let blank : Piece := .text 32 (by decide)
  ⟨[.conv ⟨.minus, [5], .int, by decide⟩ (some .u), blank,
    .conv ⟨.minus, [5], .int, by decide⟩ (some .u), blank,
    .conv ⟨.minus, [8], .int, by decide⟩ (some .s), blank,
    .conv ⟨.minus, [5], .longLong, by decide⟩ (some .u), blank,
      .conv ⟨.none, [], .int, by decide⟩ (some .s)], none⟩

/-- The last conversion of the line gets the first argument, a number, for a string. -/
theorem task_line_shifts : ¬Faithful taskLine [] ∧
    arg 2 0 .s .int 0 false ∈ kvformat (taskLine.bytes ++ [0]) 0 := by
  constructor
  · exact fun h => not_faithfulFrom_minus rfl _ ⟨h.acts, h.reads⟩
  · decide +kernel

end Rabbitbone.Spec.Printf
