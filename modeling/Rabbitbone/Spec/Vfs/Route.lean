import Mathlib.Data.List.Infix
import Rabbitbone.Native.Vfs.Route
import Rabbitbone.Spec.Path

/-!
# Routing finds the longest mount

What `route` is for, on lists of components: the input is split at its slashes, `.` and `..` are
resolved, and the mount is the longest list of components that is a prefix of the result.  The
buffers of the code hold the paths of these lists.
-/

namespace Rabbitbone.Spec.Vfs

open Native.Vfs Native.Path Spec.Path CString List

variable {paths : Fin vfsMaxMounts → List (List UInt8)} {mounts : Fin vfsMaxMounts → MountView}

/-! ### What is wanted -/

/-- One component of the input is resolved, for a buffer of `outSize` bytes. -/
def resolveStep (outSize : Nat) (cs : List (List UInt8)) (c : List UInt8) :
    Option (List (List UInt8)) :=
  if c = [] ∨ c = [dot] then some cs
  else if c = [dot, dot] then if cs = [] then none else some cs.dropLast
  else if c.length < nameMax ∧ c.all routeComponentByteAllowed ∧
      (normalPath (cs ++ [c])).length < outSize then some (cs ++ [c])
  else none

/-- The components of an absolute path; the root alone takes two bytes of the buffer. -/
def resolve (outSize : Nat) (path : List UInt8) : Option (List (List UInt8)) :=
  if path.head? = some slash ∧ path.length < pathMax ∧ 2 ≤ outSize then
    (path.splitOn slash).foldlM (resolveStep outSize) []
  else none

/-- The string in the slice that the caller gives. -/
def text (input : List UInt8) : List UInt8 := input.takeWhile (· ≠ 0)

/-- The active mounts have different paths, and each path is the normal one of its components. -/
structure MountTable (mounts : Fin vfsMaxMounts → MountView)
    (paths : Fin vfsMaxMounts → List (List UInt8)) :
    Prop where
  component : ∀ i, (mounts i).active ≠ 0 → ∀ c ∈ paths i, Component c
  short : ∀ i, (mounts i).active ≠ 0 → (normalPath (paths i)).length < pathMax
  holds : ∀ i, (mounts i).active ≠ 0 → CString.Holds (mounts i).path (normalPath (paths i))
  distinct : ∀ i j, (mounts i).active ≠ 0 → (mounts j).active ≠ 0 → paths i = paths j → i = j

/-! ### Paths of component lists -/

theorem length_normalPath_pos (cs : List (List UInt8)) (h : ∀ c ∈ cs, Component c) :
    0 < (normalPath cs).length := by
  rw [normalPath]
  split
  · simp
  rename_i hne
  have := two_le_length_joined h hne
  omega

/-- What stands behind a component: nothing, or a slash. -/
theorem joined_cases (cs : List (List UInt8)) :
    joined cs = [] ∧ cs = [] ∨ ∃ l, joined cs = slash :: l := by
  cases cs with
  | nil => exact .inl ⟨rfl, rfl⟩
  | cons c cs => exact .inr ⟨c ++ joined cs, rfl⟩

variable {c l : List UInt8} {ms cs : List (List UInt8)} {out mount norm : PathBuf} {pos : Nat}

/-- Two components with something behind them that is empty or starts with a slash. -/
theorem component_append_inj {d m : List UInt8} (hc : slash ∉ c) (hd : slash ∉ d)
    (hl : l = [] ∨ ∃ l', l = slash :: l') (hm : m = [] ∨ ∃ m', m = slash :: m')
    (h : c ++ l = d ++ m) : c = d ∧ l = m := by
  have htake : ∀ (c l : List UInt8), slash ∉ c → (l = [] ∨ ∃ l', l = slash :: l') →
      (c ++ l).takeWhile (· != slash) = c := by
    intro c l hc hl
    rw [takeWhile_append_of_pos]
    · rcases hl with rfl | ⟨l', rfl⟩
      · simp
      · simp
    · intro a ha
      rw [bne_iff_ne]
      rintro rfl
      exact hc ha
  have hcd : c = d := by rw [← htake c l hc hl, h, htake d m hd hm]
  subst hcd
  exact ⟨rfl, append_cancel_left h⟩

/-- A prefix of a path that ends where a component ends is a prefix of the components. -/
theorem prefix_of_joined {rest : List UInt8} (hms : ∀ c ∈ ms, Component c)
    (hcs : ∀ c ∈ cs, Component c) (hrest : rest = [] ∨ ∃ l, rest = slash :: l)
    (h : joined cs = joined ms ++ rest) : ∃ post, cs = ms ++ post ∧ rest = joined post := by
  induction ms generalizing cs with
  | nil => exact ⟨cs, rfl, h.symm⟩
  | cons m ms ih =>
    cases cs with
    | nil => simp at h
    | cons c cs =>
      simp only [joined_cons, cons_append, append_assoc] at h
      have hback : ∀ bs : List (List UInt8), ∀ r, (r = [] ∨ ∃ l, r = slash :: l) →
          (joined bs ++ r = [] ∨ ∃ l, joined bs ++ r = slash :: l) := by
        intro bs r hr
        rcases joined_cases bs with ⟨hnil, -⟩ | ⟨l, hl⟩
        · rw [hnil]
          exact hr
        · exact .inr ⟨l ++ r, by rw [hl]; rfl⟩
      have hcback := hback cs [] (.inl rfl)
      rw [append_nil] at hcback
      obtain ⟨rfl, hrest'⟩ := component_append_inj (hcs c mem_cons_self).no_slash
        (hms m mem_cons_self).no_slash hcback (hback ms rest hrest) (cons.inj h).2
      obtain ⟨post, rfl, hpost⟩ := ih (fun c hc => hms c (mem_cons_of_mem _ hc))
        (fun c hc => hcs c (mem_cons_of_mem _ hc)) hrest'
      exact ⟨post, rfl, hpost⟩

/-! ### Normalisation -/

/-- The components of `input` are resolved behind `cs`. -/
def resolveFrom (outSize : Nat) (cs : List (List UInt8)) (input : List UInt8) :
    Option (List (List UInt8)) :=
  (input.splitOn slash).foldlM (resolveStep outSize) cs

variable {outSize : Nat}

theorem resolveFrom_nil (cs : List (List UInt8)) : resolveFrom outSize cs [] = some cs := rfl

/-- A slash more makes no difference. -/
theorem resolveFrom_slash (cs : List (List UInt8)) (l : List UInt8) :
    resolveFrom outSize cs (slash :: l) = resolveFrom outSize cs l := by
  rfl

theorem resolveFrom_skip (cs : List (List UInt8)) (l : List UInt8) :
    resolveFrom outSize cs (l.dropWhile (· == slash)) = resolveFrom outSize cs l := by
  induction l with
  | nil => rfl
  | cons a l ih =>
    by_cases ha : a = slash
    · rw [ha, dropWhile_cons_of_pos (by simp), ih, resolveFrom_slash]
    · rw [dropWhile_cons_of_neg (by simpa using ha)]

/-- The first component is resolved first. -/
theorem resolveFrom_component (cs : List (List UInt8)) (l : List UInt8) :
    resolveFrom outSize cs l = (resolveStep outSize cs (l.takeWhile (· != slash))).bind fun cs' =>
      resolveFrom outSize cs' (l.dropWhile (· != slash)) := by
  have hsplit := takeWhile_append_dropWhile (p := (· != slash)) (l := l)
  have hno := takeWhile_no_slash l
  cases hrest : l.dropWhile (· != slash) with
  | nil =>
    rw [hrest, append_nil] at hsplit
    rw [hsplit] at hno ⊢
    rw [resolveFrom, splitOn_eq_singleton hno]
    simp [resolveFrom_nil]
  | cons a r =>
    have ha : a = slash := by
      have := head?_dropWhile_not (· != slash) l
      rw [hrest] at this
      simpa using this
    rw [hrest, ha] at hsplit
    conv_lhs => rw [← hsplit]
    rw [resolveFrom, splitOn_append_cons_self_of_not_mem hno, ha]
    rfl

/-- The buffer holds the path of the components `cs`, which ends at `pos`. -/
structure Built (out : PathBuf) (pos : Nat) (cs : List (List UInt8)) : Prop where
  component : ∀ c ∈ cs, Component c
  holds : CString.Holds out (normalPath cs)
  pos_eq : pos = (normalPath cs).length
  short : pos < pathMax

private theorem zero_not_mem_of_allowed (h : c.all routeComponentByteAllowed = true) :
    (0 : UInt8) ∉ c := by
  intro hzero
  exact absurd (all_eq_true.mp h 0 hzero) (by decide)

/-- `appendComponent` appends a component that is allowed and fits. -/
theorem appendComponent_spec (h : Built out pos cs) (hc : Component c) :
    if c.length < nameMax ∧ c.all routeComponentByteAllowed ∧
      (normalPath (cs ++ [c])).length < pathMax then
      ∃ out' pos', appendComponent out pos c = .ok (out', pos') ∧ Built out' pos' (cs ++ [c])
    else appendComponent out pos c = .error .invalid := by
  have hlen : c.length ≠ 0 := by simpa using hc.ne_nil
  have hstop : pos + (if 1 < pos then 1 else 0) + c.length = (normalPath (cs ++ [c])).length := by
    rw [normalPath_concat, h.pos_eq, normalPath]
    by_cases hnil : cs = []
    · simp [hnil]
      omega
    have := two_le_length_joined h.component hnil
    rw [if_neg hnil, if_pos (by omega)]
    simp
    omega
  rw [appendComponent, if_neg hlen]
  simp only [hstop]
  by_cases hname : nameMax ≤ c.length
  · rw [if_neg fun h => absurd h.1 (by omega), if_pos hname]
  by_cases hfits : pathMax ≤ (normalPath (cs ++ [c])).length
  · rw [if_neg fun h => absurd h.2.2 (by omega), if_neg hname, if_pos hfits]
  by_cases hall : c.all routeComponentByteAllowed = true
  · rw [if_pos ⟨by omega, hall, by omega⟩, if_neg hname, if_neg hfits, if_neg (by simp [hall])]
    refine ⟨_, _, rfl, ?_, ?_, rfl, by omega⟩
    · exact component_concat h.component hc
    · have hzero := zero_not_mem_of_allowed hall
      have hpos := h.pos_eq
      rw [← hstop, normalPath_concat]
      by_cases hnil : cs = []
      · subst hnil
        subst hpos
        exact h.holds.append hzero
      -- The slash is the first byte that is appended.
      have hlong := two_le_length_joined h.component hnil
      have hout := h.holds
      rw [normalPath, if_neg hnil] at hout hpos
      have hzero' : (0 : UInt8) ∉ slash :: c := by simpa using ⟨by decide, hzero⟩
      have happ := hout.append hzero'
      rw [if_pos (show 1 < pos by omega), if_pos (by decide), hpos, Nat.add_right_comm]
      exact happ
  · rw [if_neg fun h => hall h.2.1, if_neg hname, if_neg hfits, if_pos (by simpa using hall)]

/-- The scan goes back to the slash before the last component, or to the first byte. -/
theorem popScan_eq {start : Nat} (hstart : 0 < start) (hle : start ≤ pos)
    (hstop : start = 1 ∨ out (start - 1) = slash)
    (hbytes : ∀ i, start ≤ i → i < pos → out i ≠ slash) : popScan out pos = start := by
  induction pos with
  | zero => omega
  | succ pos ih =>
    rw [popScan]
    by_cases hend : start = pos + 1
    · rw [if_neg, hend]
      intro h
      rcases hstop with hone | hslash
      · omega
      · rw [hend, Nat.add_sub_cancel] at hslash
        exact h.2 hslash
    · rw [if_pos ⟨by omega, hbytes pos (by omega) (by omega)⟩]
      exact ih (by omega) fun i hi hlt => hbytes i hi (by omega)

/-- `popComponent` takes the last component away. -/
theorem popComponent_spec (h : Built out pos cs) :
    if cs = [] then popComponent out pos = .error .invalid
    else ∃ out' pos', popComponent out pos = .ok (out', pos') ∧ Built out' pos' cs.dropLast := by
  rcases eq_nil_or_concat cs with rfl | ⟨cs, c, rfl⟩
  · rw [if_pos rfl, popComponent, if_pos]
    rw [h.pos_eq]
    exact Nat.le_refl 1
  rw [concat_eq_append] at *
  rw [if_neg (by simp), dropLast_concat]
  have hc := h.component c (by simp)
  have hrest : ∀ d ∈ cs, Component d := fun d hd => h.component d (by simp [hd])
  have hpos := h.pos_eq
  have hholds := h.holds
  rw [normalPath_concat] at hpos hholds
  have hclen := length_pos_iff.mpr hc.ne_nil
  simp only [length_append, length_cons] at hpos
  -- The bytes of the component.
  have hbytes : ∀ i, (joined cs).length + 1 ≤ i → i < pos → out i ≠ slash := by
    intro i hlo hhi hslash
    have hget : (joined cs ++ slash :: c)[i]? = (c)[i - (joined cs).length - 1]? := by
      rw [getElem?_append_right (by omega),
        show i - (joined cs).length = (i - (joined cs).length - 1) + 1 by omega, getElem?_cons_succ,
        Nat.add_sub_cancel]
    have hlt : i - (joined cs).length - 1 < c.length := by omega
    rw [getElem?_eq_getElem hlt] at hget
    have hbyte := hholds.byte i _ hget
    rw [hslash] at hbyte
    exact hc.no_slash (hbyte ▸ getElem_mem hlt)
  have hsep : out (joined cs).length = slash := hholds.byte _ _ (by simp)
  have hscan : popScan out pos = (joined cs).length + 1 :=
    popScan_eq (by omega) (by omega) (.inr hsep) hbytes
  rw [popComponent, if_neg (by omega)]
  simp only [hscan, Nat.add_sub_cancel, hsep, and_true]
  by_cases hnil : cs = []
  · subst hnil
    refine ⟨_, _, rfl, hrest, ?_, rfl, by decide⟩
    exact hholds.cut (by simp)
  have hlong := two_le_length_joined hrest hnil
  have hcut := hholds.cut (k := (joined cs).length) (by simp)
  rw [take_left] at hcut
  rw [if_pos (by omega)]
  have hshort := h.short
  refine ⟨_, _, rfl, hrest, ?_, ?_, by omega⟩
  · rw [normalPath, if_neg hnil]
    exact hcut
  · rw [normalPath, if_neg hnil]

/-- The outcome of the code and the components that are wanted agree. -/
def Agrees (r : Except RouteError PathBuf) (cs : Option (List (List UInt8))) : Prop :=
  match cs with
  | none => r = .error .invalid
  | some cs => ∃ out pos, r = .ok out ∧ Built out pos cs

private theorem normalizeLoop_spec {fuel : Nat} {input : List UInt8} (h : Built out pos cs)
    (hfuel : input.length ≤ fuel) :
    Agrees (normalizeLoop fuel input out pos) (resolveFrom pathMax cs input) := by
  induction fuel generalizing input out pos cs with
  | zero =>
    obtain rfl : input = [] := length_eq_zero_iff.mp (by omega)
    exact ⟨out, pos, rfl, h⟩
  | succ fuel ih =>
    rw [normalizeLoop]
    by_cases hnil : input = []
    · rw [if_pos hnil, hnil]
      exact ⟨out, pos, rfl, h⟩
    rw [if_neg hnil, ← resolveFrom_skip, resolveFrom_component]
    dsimp only
    have hless := length_rest_le hnil hfuel
    have hno := takeWhile_no_slash (input.dropWhile (· == slash))
    generalize (input.dropWhile (· == slash)).takeWhile (· != slash) = comp at hno ⊢
    rw [resolveStep]
    -- the component is empty or a dot, two dots, or a name
    by_cases hempty : comp = []
    · rw [if_pos (by rw [hempty]; rfl), if_pos (.inl hempty)]
      exact ih h hless
    rw [if_neg (by simpa using hempty)]
    by_cases hdot : comp = [dot]
    · rw [if_pos hdot, if_pos (.inr hdot)]
      exact ih h hless
    rw [if_neg hdot, if_neg (not_or.mpr ⟨hempty, hdot⟩)]
    by_cases hdotdot : comp = [dot, dot]
    · rw [if_pos hdotdot, if_pos hdotdot]
      have hpop := popComponent_spec h
      by_cases hroot : cs = []
      · rw [if_pos hroot] at hpop ⊢
        rw [hpop]
        rfl
      rw [if_neg hroot] at hpop ⊢
      obtain ⟨out', pos', hrun, h'⟩ := hpop
      rw [hrun]
      exact ih h' hless
    · rw [if_neg hdotdot, if_neg hdotdot]
      have happ := appendComponent_spec h ⟨hempty, hno, hdot, hdotdot⟩
      by_cases hok : comp.length < nameMax ∧ comp.all routeComponentByteAllowed = true ∧
          (normalPath (cs ++ [comp])).length < pathMax
      · rw [if_pos hok] at happ ⊢
        obtain ⟨out', pos', hrun, h'⟩ := happ
        rw [hrun]
        exact ih h' hless
      · rw [if_neg hok] at happ ⊢
        rw [happ]
        rfl

private theorem cstrLen_eq (input : List UInt8) :
    cstrLen input = (text input).length ∧ input.take (cstrLen input) = text input := by
  induction input with
  | nil => exact ⟨rfl, rfl⟩
  | cons b bs ih =>
    rw [cstrLen, text]
    by_cases hb : b = 0
    · simp [hb]
    simp only [ne_eq, hb, not_false_eq_true, if_true, takeWhile_cons_of_pos, decide_true,
      length_cons, take_succ_cons]
    exact ⟨by rw [ih.1]; rfl, by rw [ih.2]; rfl⟩

private theorem root_holds :
    CString.Holds (arrSet (arrSet (fun _ => 0) 0 slash) 1 0) (normalPath []) := by
  refine ⟨fun i b hb => ?_, rfl, by decide⟩
  cases i with
  | zero => exact Option.some.inj hb
  | succ i => cases hb

/-- `normalize` resolves the components of its input. -/
theorem normalize_spec (input : List UInt8) :
    Agrees (normalize input) (resolve pathMax (text input)) := by
  obtain ⟨hlen, htake⟩ := cstrLen_eq input
  rw [Native.Vfs.normalize, htake, hlen, resolve]
  have hhead : text input ≠ [] → (input.headD 0 = slash ↔ (text input).head? = some slash) := by
    intro hne
    cases input with
    | nil => exact absurd rfl hne
    | cons b bs =>
      by_cases hb : b = 0
      · exact absurd (by simp [text, hb]) hne
      · simp [text, hb]
  by_cases hnil : text input = []
  · rw [if_pos (.inl (by rw [hnil]; rfl)), if_neg (by simp [hnil])]
    rfl
  by_cases hlong : pathMax ≤ (text input).length
  · rw [if_pos (.inr (.inl hlong)), if_neg (fun h => absurd h.2.1 (by omega))]
    rfl
  by_cases habs : input.headD 0 = slash
  · rw [if_neg, if_pos ⟨(hhead hnil).mp habs, by omega, by decide⟩]
    · exact normalizeLoop_spec ⟨fun _ hc => (nomatch hc), root_holds, rfl, by decide⟩
        (Nat.le_refl _)
    · rintro (h | h | h)
      · exact hnil (length_eq_zero_iff.mp h)
      · exact hlong h
      · exact h habs
  · rw [if_pos (.inr (.inr habs)), if_neg (fun h => habs ((hhead hnil).mpr h.1))]
    rfl

/-! ### Mounts -/

private theorem fixedCstrLen_eq {buf : PathBuf} (h : CString.Holds buf l)
    (hshort : l.length < pathMax) :
    fixedCstrLen buf = l.length :=
  h.scan_eq (Nat.zero_le _) (by omega)

/-- The test for the mount at the root. -/
theorem root_iff (hms : ∀ c ∈ ms, Component c) (h : CString.Holds mount (normalPath ms))
    (hshort : (normalPath ms).length < pathMax) :
    fixedCstrLen mount = 1 ∧ mount 0 = slash ↔ ms = [] := by
  rw [fixedCstrLen_eq h hshort]
  constructor
  · intro hroot
    by_contra hne
    have := two_le_length_joined hms hne
    rw [normalPath, if_neg hne] at hroot
    omega
  · rintro rfl
    exact ⟨rfl, h.byte 0 slash rfl⟩

/-- `mountMatches` compares whole components. -/
theorem mountMatches_iff (hms : ∀ c ∈ ms, Component c) (hm : CString.Holds mount (normalPath ms))
    (hshort : (normalPath ms).length < pathMax) (hn : Built norm pos cs) :
    mountMatches mount norm = true ↔ ms <+: cs := by
  have hroot := root_iff hms hm hshort
  have hml := fixedCstrLen_eq hm hshort
  have hpl : fixedCstrLen norm = (normalPath cs).length :=
    fixedCstrLen_eq hn.holds (by rw [← hn.pos_eq]; exact hn.short)
  have hpos := length_normalPath_pos ms hms
  rw [mountMatches, if_neg (by omega)]
  by_cases hnil : ms = []
  · rw [if_pos (hroot.mpr hnil), hnil]
    simp
  rw [if_neg fun h => hnil (hroot.mp h), hml, hpl]
  have hjoined : normalPath ms = joined ms := by rw [normalPath, if_neg hnil]
  have hlong := two_le_length_joined hms hnil
  rw [hjoined] at hm ⊢
  by_cases hcs : cs = []
  · have hone : (normalPath cs).length = 1 := by rw [hcs]; rfl
    rw [if_pos (by omega), hcs]
    simp [hnil]
  have hnorm : normalPath cs = joined cs := by rw [normalPath, if_neg hcs]
  have hn' := hn.holds
  rw [hnorm] at hn' ⊢
  by_cases hle : (joined ms).length ≤ (joined cs).length
  · rw [if_neg (by omega)]
    have hbytes := hm.prefix_iff hn' hle
    by_cases heq : joined ms <+: joined cs
    · rw [if_neg (by simpa using hbytes.mpr heq)]
      -- The byte behind the mount path tells whether a component ends there.
      obtain ⟨rest, hrest⟩ := heq
      have hbehind : norm (joined ms).length = rest.headD 0 := by
        cases rest with
        | nil =>
          rw [append_nil] at hrest
          rw [hrest, hn'.nul]
          rfl
        | cons a rest => exact hn'.byte _ a (by rw [← hrest]; simp)
      rw [hbehind]
      constructor
      · intro hend
        have hrest' : rest = [] ∨ ∃ l, rest = slash :: l := by
          cases rest with
          | nil => exact .inl rfl
          | cons a rest =>
            simp only [headD_cons, Bool.or_eq_true, beq_iff_eq] at hend
            rcases hend with rfl | rfl
            · refine absurd ?_ hn'.nonzero
              rw [← hrest]
              simp
            · exact .inr ⟨rest, rfl⟩
        obtain ⟨post, hpost, -⟩ := prefix_of_joined hms hn.component hrest' hrest.symm
        exact ⟨post, hpost.symm⟩
      · rintro ⟨post, rfl⟩
        rw [joined_append] at hrest
        rw [append_cancel_left hrest]
        cases post <;> simp
    · rw [if_pos]
      · refine iff_of_false (by simp) fun hpre => heq ?_
        obtain ⟨post, rfl⟩ := hpre
        rw [joined_append]
        exact prefix_append _ _
      · by_contra hany
        exact heq (hbytes.mp (by simpa using hany))
  · rw [if_pos (by omega)]
    refine iff_of_false (by simp) fun hpre => hle ?_
    obtain ⟨post, rfl⟩ := hpre
    rw [joined_append, length_append]
    omega

/-- The number of components, counted as `pathDepth` does. -/
def depthOf : List UInt8 → Bool → Nat → Nat
  | [], _, d => d
  | b :: bs, inComponent, d =>
    if b = slash then depthOf bs false d
    else if !inComponent then depthOf bs true (d + 1)
    else depthOf bs inComponent d

private theorem pathDepthLoop_eq {path : PathBuf} {i d : Nat} {inComponent : Bool}
    (h : ∀ k b, l[k]? = some b → path (i + k) = b) :
    pathDepthLoop path l.length i inComponent d = depthOf l inComponent d := by
  induction l generalizing i inComponent d with
  | nil => rfl
  | cons b bs ih =>
    have hb := h 0 b rfl
    rw [Nat.add_zero] at hb
    have hrest : ∀ k c, bs[k]? = some c → path (i + 1 + k) = c := by
      intro k c hc
      rw [show i + 1 + k = i + (k + 1) by omega]
      exact h (k + 1) c (by simpa using hc)
    rw [length_cons, pathDepthLoop, depthOf, hb]
    by_cases hslash : b = slash
    · rw [if_pos hslash, if_pos hslash, ih hrest]
    rw [if_neg hslash, if_neg hslash]
    cases inComponent
    · exact ih hrest
    · exact ih hrest

private theorem depthOf_component (hc : slash ∉ c) (l : List UInt8) (d : Nat) :
    depthOf (c ++ l) true d = depthOf l true d := by
  induction c with
  | nil => rfl
  | cons a c ih =>
    have ha : a ≠ slash := fun h => hc (by simp [h])
    rw [cons_append, depthOf, if_neg ha, if_neg (by simp)]
    exact ih fun h => hc (mem_cons_of_mem _ h)

private theorem depthOf_joined (hms : ∀ c ∈ ms, Component c) (b : Bool) (d : Nat) :
    depthOf (joined ms) b d = d + ms.length := by
  induction ms generalizing b d with
  | nil => rfl
  | cons c ms ih =>
    have hc := hms c mem_cons_self
    obtain ⟨a, c, rfl⟩ := exists_cons_of_ne_nil hc.ne_nil
    have ha : a ≠ slash := fun h => hc.no_slash (by simp [h])
    have hno : slash ∉ c := fun h => hc.no_slash (mem_cons_of_mem _ h)
    have hflat : joined ((a :: c) :: ms) = slash :: a :: (c ++ joined ms) := rfl
    rw [hflat, depthOf, if_pos rfl, depthOf, if_neg ha, if_pos (show (!false) = true from rfl),
      depthOf_component hno, ih fun c hc => hms c (mem_cons_of_mem _ hc)]
    simp only [length_cons]
    omega

/-- `pathDepth` is the number of components. -/
theorem pathDepth_eq (hms : ∀ c ∈ ms, Component c) (hm : CString.Holds mount (normalPath ms))
    (hshort : (normalPath ms).length < pathMax) : pathDepth mount = ms.length := by
  have hroot := root_iff hms hm hshort
  rw [pathDepth]
  by_cases hnil : ms = []
  · rw [if_pos (hroot.mpr hnil), hnil]
    rfl
  rw [if_neg fun h => hnil (hroot.mp h), fixedCstrLen_eq hm hshort]
  rw [normalPath, if_neg hnil] at hm ⊢
  rw [pathDepthLoop_eq fun k b hb => by rw [Nat.zero_add]; exact hm.byte k b hb, depthOf_joined hms]
  omega

/-- The loop copies the bytes up to the end of the string. -/
theorem relativeLoop_eq {left src dst : Nat} (hbytes : ∀ k b, l[k]? = some b → norm (src + k) = b)
    (hend : norm (src + l.length) = 0) (hnonzero : (0 : UInt8) ∉ l)
    (hsrc : src + l.length < pathMax) (hdst : dst + l.length < pathMax) (hleft : l.length < left) :
    relativeLoop norm left src dst out = (copyIn out dst l, dst + l.length) := by
  induction l generalizing left src dst out with
  | nil =>
    obtain ⟨left, rfl⟩ : ∃ k, left = k + 1 := ⟨left - 1, by simp only [length_nil] at hleft; omega⟩
    rw [relativeLoop, if_neg fun h => h.2.1 hend]
    rfl
  | cons b bs ih =>
    simp only [length_cons] at hend hsrc hdst hleft
    obtain ⟨left, rfl⟩ : ∃ k, left = k + 1 := ⟨left - 1, by omega⟩
    have hb := hbytes 0 b rfl
    rw [Nat.add_zero] at hb
    have hzero : b ≠ 0 := fun h => hnonzero (by simp [h])
    rw [relativeLoop, if_pos ⟨by omega, by rw [hb]; exact hzero, by omega⟩, hb, ih]
    · simp only [length_cons, copyIn, arrSet, Prod.mk.injEq, true_and]
      omega
    · intro k c hc
      rw [show src + 1 + k = src + (k + 1) by omega]
      exact hbytes (k + 1) c (by simpa using hc)
    · rw [show src + 1 + bs.length = src + (bs.length + 1) by omega]
      exact hend
    · exact fun h => hnonzero (mem_cons_of_mem _ h)
    · omega
    · omega
    · omega

/-- `computeRelative` leaves the components behind those of the mount. -/
theorem computeRelative_holds {post : List (List UInt8)} (hms : ∀ c ∈ ms, Component c)
    (hm : CString.Holds mount (normalPath ms)) (hshort : (normalPath ms).length < pathMax)
    (hn : Built norm pos (ms ++ post)) :
    CString.Holds (computeRelative mount norm) (normalPath post) := by
  have hroot := root_iff hms hm hshort
  rw [computeRelative]
  by_cases hnil : ms = []
  · simp only [if_pos (hroot.mpr hnil)]
    have hholds := hn.holds
    rwa [hnil, nil_append] at hholds
  simp only [if_neg (mt hroot.mp hnil)]
  rw [fixedCstrLen_eq hm hshort]
  have hne : ms ++ post ≠ [] := by simp [hnil]
  have hholds := hn.holds
  have hpos := hn.pos_eq
  have hlimit := hn.short
  rw [normalPath, if_neg hne, joined_append] at hholds hpos
  rw [normalPath, if_neg hnil] at hshort ⊢
  rw [length_append] at hpos
  have hbytes : ∀ k b, (joined post)[k]? = some b → norm ((joined ms).length + k) = b := by
    intro k b hb
    refine hholds.byte _ b ?_
    rw [getElem?_append_right (by omega), Nat.add_sub_cancel_left]
    exact hb
  have hend : norm ((joined ms).length + (joined post).length) = 0 := by
    rw [← length_append]
    exact hholds.nul
  by_cases hpost : post = []
  · subst hpost
    rw [if_pos ⟨hshort, hend⟩]
    exact root_holds
  obtain ⟨c, cs, rfl⟩ := exists_cons_of_ne_nil hpost
  have hfirst : norm (joined ms).length = slash := hbytes 0 slash rfl
  have hzero : (0 : UInt8) ∉ joined (c :: cs) := fun h => hholds.nonzero (mem_append_right _ h)
  rw [if_neg fun h => absurd (hfirst.symm.trans h.2) (by decide),
    relativeLoop_eq hbytes hend hzero (by omega) (by omega) (by omega)]
  exact CString.Holds.copyIn_zero hzero

/-! ### The choice of a mount -/

/-- What the loop of `route` has found among the mounts `seen`. -/
def BestOf (mounts : Fin vfsMaxMounts → MountView) (paths : Fin vfsMaxMounts → List (List UInt8))
    (cs : List (List UInt8)) (seen : List (Fin vfsMaxMounts)) :
    Option (Fin vfsMaxMounts × Nat) → Prop
  | none => ∀ j ∈ seen, (mounts j).active ≠ 0 → ¬paths j <+: cs
  | some (i, d) => (mounts i).active ≠ 0 ∧ paths i <+: cs ∧ d = (paths i).length ∧
      ∀ j ∈ seen, (mounts j).active ≠ 0 → paths j <+: cs → (paths j).length ≤ d

private theorem betterMount_spec {seen : List (Fin vfsMaxMounts)}
    {best : Option (Fin vfsMaxMounts × Nat)}
    (table : MountTable mounts paths) (hn : Built norm pos cs)
    (h : BestOf mounts paths cs seen best)
    (i : Fin vfsMaxMounts) :
    BestOf mounts paths cs (seen ++ [i]) (betterMount mounts norm best i) := by
  have hmatch : (mounts i).active ≠ 0 →
      (mountMatches (mounts i).path norm = true ↔ paths i <+: cs) :=
    fun hi => mountMatches_iff (table.component i hi) (table.holds i hi) (table.short i hi) hn
  rw [betterMount]
  -- a mount that matches wins unless a deeper one was seen
  by_cases hi : (mounts i).active ≠ 0 ∧ mountMatches (mounts i).path norm = true
  · simp only [if_pos hi]
    have hpre := (hmatch hi.1).mp hi.2
    rw [pathDepth_eq (table.component i hi.1) (table.holds i hi.1) (table.short i hi.1)]
    cases best with
    | none =>
      refine ⟨hi.1, hpre, rfl, fun j hj hactive hj' => ?_⟩
      rcases mem_append.mp hj with hj | hj
      · exact absurd hj' (h j hj hactive)
      · rw [mem_singleton.mp hj]
    | some b =>
      obtain ⟨b, d⟩ := b
      obtain ⟨hb, hbpre, hbd, hmax⟩ := h
      by_cases hd : d ≤ (paths i).length
      · simp only [if_pos hd]
        refine ⟨hi.1, hpre, rfl, fun j hj hactive hj' => ?_⟩
        rcases mem_append.mp hj with hj | hj
        · exact (hmax j hj hactive hj').trans hd
        · rw [mem_singleton.mp hj]
      simp only [if_neg hd]
      refine ⟨hb, hbpre, hbd, fun j hj hactive hj' => ?_⟩
      rcases mem_append.mp hj with hj | hj
      · exact hmax j hj hactive hj'
      · rw [mem_singleton.mp hj]
        omega
  · simp only [if_neg hi]
    have hnot : (mounts i).active ≠ 0 → ¬paths i <+: cs := fun hactive hpre =>
      hi ⟨hactive, (hmatch hactive).mpr hpre⟩
    cases best with
    | none =>
      intro j hj hactive
      rcases mem_append.mp hj with hj | hj
      · exact h j hj hactive
      · rw [mem_singleton.mp hj] at hactive ⊢
        exact hnot hactive
    | some b =>
      obtain ⟨hb, hbpre, hbd, hmax⟩ := h
      refine ⟨hb, hbpre, hbd, fun j hj hactive hj' => ?_⟩
      rcases mem_append.mp hj with hj | hj
      · exact hmax j hj hactive hj'
      · rw [mem_singleton.mp hj] at hactive hj'
        exact absurd hj' (hnot hactive)

/-- The loop of `route` finds the longest mount. -/
theorem foldl_betterMount (table : MountTable mounts paths) (hn : Built norm pos cs) :
    BestOf mounts paths cs (finRange vfsMaxMounts)
      ((finRange vfsMaxMounts).foldl (betterMount mounts norm) none) := by
  suffices h : ∀ l seen best, BestOf mounts paths cs seen best →
      BestOf mounts paths cs (seen ++ l) (l.foldl (betterMount mounts norm) best) from
    h (finRange vfsMaxMounts) [] none fun _ hj => (nomatch hj)
  intro l
  induction l with
  | nil =>
    intro seen best h
    rwa [append_nil]
  | cons i l ih =>
    intro seen best h
    have hstep := ih (seen ++ [i]) _ (betterMount_spec table hn h i)
    rwa [append_assoc, singleton_append] at hstep

/-- `route` succeeds exactly if the path can be resolved and an active mount is a prefix of it.  It
then gives the longest one, and the path relative to it. -/
theorem route_longest_mount {mounts : Fin vfsMaxMounts → MountView}
    {paths : Fin vfsMaxMounts → List (List UInt8)} (table : MountTable mounts paths)
    (input : List UInt8) :
    ((∃ out, route mounts input = .ok out) ↔
      ∃ cs, resolve pathMax (text input) = some cs ∧ ∃ i, (mounts i).active ≠ 0 ∧ paths i <+: cs) ∧
    ∀ out, route mounts input = .ok out →
      ∃ cs, ∃ i : Fin vfsMaxMounts, ∃ rest, resolve pathMax (text input) = some cs ∧
        out.mountIndex = i ∧ (mounts i).active ≠ 0 ∧ CString.Holds out.normalized (normalPath cs) ∧
        cs = paths i ++ rest ∧ CString.Holds out.relative (normalPath rest) ∧
        ∀ j, (mounts j).active ≠ 0 → paths j <+: cs → j ≠ i →
          (paths j).length < (paths i).length := by
  have hnorm := normalize_spec input
  rw [route]
  cases hres : resolve pathMax (text input) with
  | none =>
    rw [hres] at hnorm
    rw [hnorm]
    refine ⟨iff_of_false ?_ ?_, fun out hout => (nomatch hout)⟩
    · rintro ⟨out, hout⟩
      cases hout
    · rintro ⟨cs, hcs, -⟩
      cases hcs
  | some cs =>
    rw [hres] at hnorm
    obtain ⟨norm, pos, hrun, hn⟩ := hnorm
    rw [hrun]
    dsimp only
    have hbest := foldl_betterMount table hn
    cases hfold : (finRange vfsMaxMounts).foldl (betterMount mounts norm) none with
    | none =>
      rw [hfold] at hbest
      refine ⟨iff_of_false ?_ ?_, fun out hout => (nomatch hout)⟩
      · rintro ⟨out, hout⟩
        cases hout
      · rintro ⟨cs', hcs', i, hi, hpre⟩
        cases hcs'
        exact hbest i (mem_finRange i) hi hpre
    | some found =>
      obtain ⟨i, d⟩ := found
      rw [hfold] at hbest
      obtain ⟨hi, hpre, hd, hmax⟩ := hbest
      refine ⟨iff_of_true ⟨_, rfl⟩ ⟨cs, rfl, i, hi, hpre⟩, fun out hout => ?_⟩
      obtain rfl := Except.ok.inj hout
      obtain ⟨rest, hrest⟩ := hpre
      refine ⟨cs, i, rest, rfl, rfl, hi, hn.holds, hrest.symm, ?_, fun j hj hjpre hne => ?_⟩
      · rw [← hrest] at hn
        exact computeRelative_holds (table.component i hi) (table.holds i hi) (table.short i hi) hn
      · -- A mount of the same length would be the same list, and so the same mount.
        have hle := hmax j (mem_finRange j) hj hjpre
        refine lt_of_le_of_ne (hd ▸ hle) fun hlen => hne (table.distinct j i hj hi ?_)
        exact (prefix_of_prefix_length_le hjpre ⟨rest, hrest⟩ (Nat.le_of_eq hlen)).eq_of_length hlen

/-- A table with the mounts `/` and `/d`. -/
def twoMounts (i : Fin vfsMaxMounts) : MountView where
  active := if i.val < 2 then 1 else 0
  path := copyIn (fun _ => 0) 0 (if i.val = 0 then [slash] else [slash, 0x64])

/-- Their components. -/
def twoPaths (i : Fin vfsMaxMounts) : List (List UInt8) := if i.val = 0 then [] else [[0x64]]

private theorem twoMounts_active {i : Fin vfsMaxMounts} (h : (twoMounts i).active ≠ 0) :
    i.val = 0 ∨ i.val = 1 := by
  by_cases hi : i.val < 2
  · omega
  · simp [twoMounts, hi] at h

private theorem twoMounts_table : MountTable twoMounts twoPaths := by
  have hpath : ∀ i, normalPath (twoPaths i) = if i.val = 0 then [slash] else [slash, 0x64] := by
    intro i
    rw [twoPaths]
    split <;> rfl
  refine ⟨fun i hi c hc => ?_, fun i hi => ?_, fun i hi => ?_, fun i j hi hj heq => ?_⟩
  · rw [twoPaths] at hc
    split at hc
    · cases hc
    · rw [mem_singleton.mp hc]
      exact ⟨by decide, by decide, by decide, by decide⟩
  · rw [hpath]
    split <;> decide
  · rw [hpath, twoMounts]
    refine CString.Holds.copyIn_zero ?_
    split <;> decide
  · rcases twoMounts_active hi with hi | hi <;> rcases twoMounts_active hj with hj | hj
    · exact Fin.ext (hi.trans hj.symm)
    · simp [twoPaths, hi, hj] at heq
    · simp [twoPaths, hi, hj] at heq
    · exact Fin.ext (hi.trans hj.symm)

/-- `/d/../d/./x` is `/x` on the second mount. -/
theorem route_twoMounts :
    ∃ out, route twoMounts [slash, 0x64, slash, dot, dot, slash, 0x64, slash, dot, slash, 0x78] =
      .ok out ∧ out.mountIndex = 1 ∧ CString.Holds out.relative [slash, 0x78] := by
  have hroute := route_longest_mount twoMounts_table
    [slash, 0x64, slash, dot, dot, slash, 0x64, slash, dot, slash, 0x78]
  let second : Fin vfsMaxMounts := ⟨1, by decide⟩
  have hres : resolve pathMax
      (text [slash, 0x64, slash, dot, dot, slash, 0x64, slash, dot, slash, 0x78]) =
      some [[0x64], [0x78]] := by decide +kernel
  obtain ⟨out, hout⟩ := hroute.1.mpr ⟨_, hres, second, by decide, [[0x78]], rfl⟩
  obtain ⟨cs, i, rest, hcs, hidx, hactive, -, hsplit, hrel, hmax⟩ := hroute.2 out hout
  obtain rfl := Option.some.inj (hres.symm.trans hcs)
  have hi : i = second := by
    by_contra hne
    have hlt := hmax second (by decide) ⟨[[0x78]], rfl⟩ (Ne.symm hne)
    rcases twoMounts_active hactive with hi | hi
    · simp [twoPaths, hi] at hlt
    · exact hne (Fin.ext hi)
  subst hi
  have hrest : rest = [[0x78]] := by simpa [twoPaths] using hsplit.symm
  exact ⟨out, hout, hidx, by rw [hrest] at hrel; exact hrel⟩

end Rabbitbone.Spec.Vfs
