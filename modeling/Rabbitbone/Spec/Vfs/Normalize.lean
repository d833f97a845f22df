import Rabbitbone.Spec.Vfs.Route

/-!
# Normalisation of paths

`path_normalize` resolves the components of its input, as `normalize` of the router does, and spells
the result.  So a path that it has returned is returned unchanged when it is normalised again.

## Key results

- `pathNormalize_eq`: `path_normalize` is `resolve`.
- `Clean.split`: what stands before a slash in a clean path is a clean path or nothing.
-/

namespace Rabbitbone.Spec.Vfs

open Native.Vfs Native.Path Spec.Path List Option

/-- Components as `path_normalize` lets them through into a buffer of `outSize` bytes. -/
structure Spelled (outSize : Nat) (cs : List (List UInt8)) : Prop where
  component : ∀ c ∈ cs, Component c
  name : ∀ c ∈ cs, c.length < nameMax ∧ c.all routeComponentByteAllowed = true
  short : (normalPath cs).length < outSize

private theorem pathComponentByteAllowed_eq :
    pathComponentByteAllowed = routeComponentByteAllowed := rfl

variable {input path a rest : List UInt8} {cs cs' ds : List (List UInt8)} {fuel outSize : Nat}

private theorem pathNormalizeLoop_eq (hcs : ∀ c ∈ cs, Component c) (hfuel : input.length ≤ fuel) :
    pathNormalizeLoop outSize fuel input (normalPath cs)
      = (resolveFrom outSize cs input).map normalPath := by
  induction fuel generalizing input cs with
  | zero =>
    obtain rfl : input = [] := length_eq_zero_iff.mp (by omega)
    rfl
  | succ fuel ih =>
    rw [pathNormalizeLoop]
    by_cases hnil : input = []
    · rw [if_pos (by simpa using hnil), hnil]
      rfl
    rw [if_neg (by simpa using hnil), ← resolveFrom_skip, resolveFrom_component]
    dsimp only
    have hless := length_rest_le hnil hfuel
    have hno := takeWhile_no_slash (input.dropWhile (· == slash))
    generalize (input.dropWhile (· == slash)).takeWhile (· != slash) = comp at hno ⊢
    rw [resolveStep]
    by_cases hskip : comp = [] ∨ comp = [dot]
    · rw [if_pos (by simpa using hskip), if_pos hskip]
      exact ih hcs hless
    rw [if_neg (by simpa using hskip), if_neg hskip]
    obtain ⟨hempty, hdot⟩ := not_or.mp hskip
    by_cases hdotdot : comp = [dot, dot]
    · rw [if_pos (by simpa using hdotdot), if_pos hdotdot]
      rcases eq_nil_or_concat cs with rfl | ⟨cs, c, rfl⟩
      · rfl
      rw [concat_eq_append] at hcs ⊢
      have hinit : ∀ d ∈ cs, Component d := fun d hd => hcs d (mem_append_left _ hd)
      rw [pathPopComponent_concat hinit (hcs c (by simp)), if_neg (by simp), dropLast_concat]
      exact ih hinit hless
    · rw [if_neg (by simpa using hdotdot), if_neg hdotdot,
        pathAppendComponent_normalPath outSize hcs hempty, pathComponentByteAllowed_eq]
      by_cases hok : comp.length < nameMax ∧ comp.all routeComponentByteAllowed = true ∧
          (normalPath (cs ++ [comp])).length < outSize
      · rw [if_pos hok, if_pos hok]
        exact ih (component_concat hcs ⟨hempty, hno, hdot, hdotdot⟩) hless
      · rw [if_neg hok, if_neg hok]
        rfl

/-- `path_normalize` spells the components that are left when its input is resolved. -/
theorem pathNormalize_eq (input : List UInt8) (outSize : Nat) :
    pathNormalize input outSize = (resolve outSize input).map normalPath := by
  have hroot : ∀ c ∈ ([] : List (List UInt8)), Component c := fun _ h => nomatch h
  have hloop : pathNormalizeLoop outSize _ input (normalPath []) = _ :=
    pathNormalizeLoop_eq hroot (Nat.le_refl input.length)
  rw [pathNormalize, pathSnapshotInput, resolve]
  by_cases hroom : outSize < 2
  · rw [if_pos hroom, if_neg fun h => absurd h.2.2 (Nat.not_le.mpr hroom)]
    rfl
  rw [if_neg hroom]
  cases input with
  | nil => rfl
  | cons a l =>
    by_cases hlong : pathMax ≤ (a :: l).length
    · rw [if_pos (by simpa using .inl hlong), if_neg fun h => absurd h.2.1 (Nat.not_lt.mpr hlong)]
      rfl
    by_cases ha : a = slash
    · rw [if_neg (by simpa [ha] using hlong),
        if_pos ⟨by rw [ha]; rfl, Nat.not_le.mp hlong, Nat.not_lt.mp hroom⟩]
      exact hloop
    · rw [if_pos (by simp [ha]), if_neg fun h => ha (some.inj h.1)]
      rfl

/-! ### Resolved components -/

theorem Spelled.root (hroom : 2 ≤ outSize) : Spelled outSize [] :=
  ⟨fun _ h => (nomatch h), fun _ h => (nomatch h), hroom⟩

theorem Spelled.left (h : Spelled outSize (cs ++ ds)) : Spelled outSize cs := by
  refine ⟨fun c hc => h.component c (mem_append_left _ hc),
    fun c hc => h.name c (mem_append_left _ hc), ?_⟩
  have hshort := h.short
  by_cases hcs : cs = []
  · rw [hcs]
    exact Nat.lt_of_le_of_lt (length_normalPath_pos _ h.component) hshort
  rw [normalPath] at hshort ⊢
  rw [if_neg hcs]
  rw [if_neg (by simp [hcs]), joined_append, length_append] at hshort
  omega

private theorem resolveStep_spelled {c : List UInt8} (h : Spelled outSize cs)
    (hno : slash ∉ c) (hstep : resolveStep outSize cs c = some cs') : Spelled outSize cs' := by
  rw [resolveStep] at hstep
  split at hstep
  · exact some.inj hstep ▸ h
  rename_i hskip
  split at hstep
  · split at hstep
    · cases hstep
    rename_i hne
    rw [← some.inj hstep]
    rw [← dropLast_append_getLast hne] at h
    exact h.left
  rename_i hdotdot
  split at hstep
  · rename_i hok
    rw [← some.inj hstep]
    refine ⟨component_concat h.component ?_, fun d hd => ?_, hok.2.2⟩
    · exact ⟨fun heq => hskip (.inl heq), hno, fun heq => hskip (.inr heq), hdotdot⟩
    · rcases mem_append.mp hd with hd | hd
      · exact h.name d hd
      · rw [mem_singleton.mp hd]
        exact ⟨hok.1, hok.2.1⟩
  · cases hstep

private theorem resolveFrom_spelled (hfuel : input.length ≤ fuel)
    (h : Spelled outSize cs) (hres : resolveFrom outSize cs input = some cs') :
    Spelled outSize cs' := by
  induction fuel generalizing input cs with
  | zero =>
    obtain rfl : input = [] := length_eq_zero_iff.mp (by omega)
    exact some.inj hres ▸ h
  | succ fuel ih =>
    by_cases hnil : input = []
    · rw [hnil, resolveFrom_nil] at hres
      exact some.inj hres ▸ h
    rw [← resolveFrom_skip, resolveFrom_component] at hres
    obtain ⟨cs₁, hstep, hrest⟩ := bind_eq_some_iff.mp hres
    exact ih (length_rest_le hnil hfuel) (resolveStep_spelled h (takeWhile_no_slash _) hstep) hrest

private theorem resolve_spelled (h : resolve outSize input = some cs) : Spelled outSize cs := by
  rw [resolve, ite_none_right_eq_some] at h
  exact resolveFrom_spelled (Nat.le_refl _) (Spelled.root h.1.2.2) h.2

/-- Resolving a component makes the path longer by no more than the component and a slash. -/
theorem length_joined_resolveStep {c : List UInt8} (h : resolveStep outSize cs c = some cs') :
    (joined cs').length ≤ (joined cs).length + (c.length + 1) := by
  rw [resolveStep] at h
  split at h
  · rw [← some.inj h]
    omega
  split at h
  · split at h
    · cases h
    rename_i hne
    rw [← some.inj h]
    conv_rhs => rw [← dropLast_append_getLast hne, joined_append, length_append]
    omega
  split at h
  · rw [← some.inj h, joined_append, length_append]
    simp
  · cases h

private theorem length_joined_foldlM (h : ds.foldlM (resolveStep outSize) cs = some cs') :
    (joined cs').length ≤ (joined cs).length + (joined ds).length := by
  induction ds generalizing cs with
  | nil => exact some.inj h ▸ Nat.le_refl _
  | cons d ds ih =>
    rw [foldlM_cons] at h
    obtain ⟨cs₁, hstep, hrest⟩ := bind_eq_some_iff.mp h
    have hfirst := length_joined_resolveStep hstep
    have hothers := ih hrest
    rw [joined_cons, length_append, length_cons]
    omega

/-- The pieces of a string, with a slash before each, are the string with a slash before it. -/
theorem joined_splitOn (l : List UInt8) : joined (l.splitOn slash) = slash :: l := by
  induction l with
  | nil => rfl
  | cons a l ih =>
    rw [splitOn_cons_eq_if_modifyHead]
    by_cases ha : a = slash
    · rw [if_pos (beq_iff_eq.mpr ha), joined_cons, ih, ha]
      rfl
    · obtain ⟨c, cs, hcs⟩ := exists_cons_of_ne_nil (splitOn_ne_nil slash l)
      rw [hcs, joined_cons, cons_append] at ih
      rw [if_neg (by simpa using ha), hcs, modifyHead_cons, joined_cons, cons_append, cons_append,
        (cons.inj ih).2]

/-- A path does not get longer. -/
theorem length_normalPath_resolve (h : resolve outSize input = some cs) :
    (normalPath cs).length ≤ input.length := by
  rw [resolve, ite_none_right_eq_some] at h
  obtain ⟨⟨hhead, -⟩, hres⟩ := h
  obtain ⟨l, rfl⟩ : ∃ l, input = slash :: l := head?_eq_some_iff.mp hhead
  rw [normalPath]
  split
  · simp
  have hlen : (joined cs).length ≤ (joined []).length + (joined (l.splitOn slash)).length :=
    length_joined_foldlM hres
  rw [joined_splitOn] at hlen
  simpa using hlen

/-- What comes out is normal. -/
theorem pathNormalize_normal (h : pathNormalize input outSize = some path) : Normal path := by
  rw [pathNormalize_eq] at h
  obtain ⟨cs, hres, hpath⟩ := map_eq_some_iff.mp h
  exact ⟨cs, (resolve_spelled hres).component, hpath.symm⟩

/-- The components of a spelled path are resolved to themselves. -/
theorem resolveFrom_joined (h : Spelled outSize (cs ++ ds)) :
    resolveFrom outSize cs (joined ds) = some (cs ++ ds) := by
  induction ds generalizing cs with
  | nil => rw [joined_nil, resolveFrom_nil, append_nil]
  | cons d ds ih =>
    rw [append_cons] at h
    have hd := h.left.component d (by simp)
    have hname := h.left.name d (by simp)
    have hall : ∀ a ∈ d, (a != slash) = true := fun a ha => by
      rw [bne_iff_ne]
      rintro rfl
      exact hd.no_slash ha
    have hcut : (joined ds).takeWhile (· != slash) = [] ∧
        (joined ds).dropWhile (· != slash) = joined ds := by
      cases ds <;> simp
    have hstep : resolveStep outSize cs d = some (cs ++ [d]) := by
      rw [resolveStep, if_neg (not_or.mpr ⟨hd.ne_nil, hd.ne_dot⟩), if_neg hd.ne_dotdot,
        if_pos ⟨hname.1, hname.2, h.left.short⟩]
    rw [joined_cons, cons_append, resolveFrom_slash, resolveFrom_component,
      takeWhile_append_of_pos hall, dropWhile_append_of_pos hall, hcut.1, hcut.2, append_nil,
      hstep, bind_some, ih h, append_assoc, singleton_append]

private theorem resolve_normalPath (h : Spelled outSize cs)
    (hlen : (normalPath cs).length < pathMax) :
    resolve outSize (normalPath cs) = some cs := by
  have hres : resolveFrom outSize [] (joined cs) = some ([] ++ cs) := resolveFrom_joined h
  have hroom : 2 ≤ outSize := Nat.lt_of_le_of_lt (length_normalPath_pos cs h.component) h.short
  rw [normalPath] at hlen ⊢
  by_cases hnil : cs = []
  · rw [if_pos hnil, hnil, resolve, if_pos ⟨rfl, by decide, hroom⟩]
    rfl
  rw [if_neg hnil] at hlen ⊢
  have hhead : (joined cs).head? = some slash := by
    obtain ⟨c, cs, rfl⟩ := exists_cons_of_ne_nil hnil
    rfl
  rw [resolve, if_pos ⟨hhead, hlen, hroom⟩]
  exact hres

/-- What has been normalised is left as it is by a second time. -/
theorem pathNormalize_pathNormalize (h : pathNormalize input outSize = some path) :
    pathNormalize path outSize = some path := by
  rw [pathNormalize_eq] at h ⊢
  obtain ⟨cs, hres, rfl⟩ := map_eq_some_iff.mp h
  have hlen := length_normalPath_resolve hres
  have hshort : input.length < pathMax := (ite_none_right_eq_some.mp hres).1.2.1
  rw [resolve_normalPath (resolve_spelled hres) (Nat.lt_of_le_of_lt hlen hshort), map_some]

/-! ### Clean paths -/

/-- A path that normalisation leaves as it is. -/
def Clean (path : List UInt8) : Prop := pathNormalize path pathMax = some path

private theorem clean_iff : Clean path ↔ ∃ cs, Spelled pathMax cs ∧ path = normalPath cs := by
  constructor
  · intro h
    rw [Clean, pathNormalize_eq] at h
    obtain ⟨cs, hres, hpath⟩ := map_eq_some_iff.mp h
    exact ⟨cs, resolve_spelled hres, hpath.symm⟩
  · rintro ⟨cs, hcs, rfl⟩
    rw [Clean, pathNormalize_eq, resolve_normalPath hcs hcs.short, map_some]

/-- What comes out is left as it is. -/
theorem clean_of_pathNormalize (h : pathNormalize input pathMax = some path) : Clean path :=
  pathNormalize_pathNormalize h

/-- `path_normalize` is the interpretation of the components on a stack, and has nothing left to do
on what it returns, whatever the size of the buffer is. -/
theorem pathNormalize_stack (input : List UInt8) (outSize : Nat) :
    pathNormalize input outSize = (resolve outSize input).map normalPath ∧
      (pathNormalize input outSize).bind (pathNormalize · outSize) =
        pathNormalize input outSize := by
  refine ⟨pathNormalize_eq input outSize, ?_⟩
  cases h : pathNormalize input outSize with
  | none => rfl
  | some path => exact pathNormalize_pathNormalize h

/-- `normalize` of the router and `path_normalize` reject the same strings and return the same
paths. -/
theorem normalize_pathNormalize (input : List UInt8) :
    match pathNormalize (text input) pathMax with
    | none => normalize input = .error .invalid
    | some path => ∃ out, normalize input = .ok out ∧ CString.Holds out path := by
  have hagrees := normalize_spec input
  rw [pathNormalize_eq]
  cases hres : resolve pathMax (text input) with
  | none =>
    rw [hres] at hagrees
    exact hagrees
  | some cs =>
    rw [hres] at hagrees
    obtain ⟨out, pos, hok, hbuilt⟩ := hagrees
    exact ⟨out, hok, hbuilt.holds⟩

/-- Each slash of a path stands between two of its components. -/
theorem joined_split (hcs : ∀ c ∈ cs, slash ∉ c) (h : joined cs = a ++ slash :: rest) :
    ∃ ms c post, cs = ms ++ c :: post ∧ a = joined ms ∧ rest = c ++ joined post := by
  induction cs generalizing a with
  | nil => simp at h
  | cons c cs ih =>
    rw [joined_cons, cons_append] at h
    cases a with
    | nil => exact ⟨[], c, cs, rfl, rfl, (cons.inj h).2.symm⟩
    | cons x a =>
      obtain ⟨rfl, htail⟩ := cons.inj h
      rcases append_eq_append_iff.mp htail with ⟨a', rfl, h'⟩ | ⟨l, rfl, h'⟩
      · -- the slash is behind the first component
        obtain ⟨ms, d, post, rfl, rfl, hrest⟩ := ih (fun d hd => hcs d (mem_cons_of_mem _ hd)) h'
        exact ⟨c :: ms, d, post, rfl, rfl, hrest⟩
      cases l with
      | nil =>
        obtain ⟨ms, d, post, rfl, ha, hrest⟩ := ih (fun d hd => hcs d (mem_cons_of_mem _ hd))
          (by rw [nil_append, h', nil_append])
        exact ⟨a :: ms, d, post, by simp, by simp [← ha], hrest⟩
      | cons y l =>
        have hy := (cons.inj h').1
        exact absurd (hcs _ mem_cons_self) (by simp [← hy])

/-- A slash of a clean path that is not the root: before it stands a clean path or nothing, behind
it a name, and behind the name nothing or another slash with something behind it. -/
theorem Clean.split (h : Clean (a ++ slash :: rest)) (hne : a ++ slash :: rest ≠ [slash]) :
    (a ≠ [] → Clean a ∧ a ≠ [slash]) ∧ ∃ c tail, rest = c ++ tail ∧ c ≠ [] ∧ slash ∉ c ∧
      c.length < nameMax ∧ (tail = [] ∨ ∃ t, tail = slash :: t ∧ t ≠ []) := by
  obtain ⟨cs, hcs, hpath⟩ := clean_iff.mp h
  have hnil : cs ≠ [] := by
    rintro rfl
    exact hne hpath
  rw [normalPath, if_neg hnil] at hpath
  obtain ⟨ms, c, post, rfl, ha, hrest⟩ :=
    joined_split (fun c hc => (hcs.component c hc).no_slash) hpath.symm
  have hc := hcs.component c (by simp)
  refine ⟨fun hane => ?_, c, joined post, hrest, hc.ne_nil, hc.no_slash,
    (hcs.name c (by simp)).1, ?_⟩
  · have hms : ms ≠ [] := by
      rintro rfl
      exact hane ha
    refine ⟨clean_iff.mpr ⟨ms, hcs.left, ?_⟩, fun hroot => ?_⟩
    · rw [normalPath, if_neg hms, ha]
    · have hlen := two_le_length_joined hcs.left.component hms
      rw [← ha, hroot] at hlen
      exact absurd hlen (by decide)
  · cases post with
    | nil => exact .inl rfl
    | cons d post =>
      have hd := hcs.component d (by simp)
      exact .inr ⟨d ++ joined post, rfl, by simp [hd.ne_nil]⟩

/-- A clean path that is not the root has a last name. -/
theorem Clean.last (h : Clean path) (hne : path ≠ [slash]) :
    ∃ a c, path = a ++ slash :: c ∧ slash ∉ c ∧ c ≠ [] ∧ (a ≠ [] → Clean a ∧ a ≠ [slash]) := by
  obtain ⟨cs, hcs, rfl⟩ := clean_iff.mp h
  rcases eq_nil_or_concat cs with rfl | ⟨cs, c, rfl⟩
  · exact absurd rfl hne
  rw [concat_eq_append] at *
  have hc := hcs.component c (by simp)
  rw [normalPath_concat] at h hne ⊢
  exact ⟨joined cs, c, rfl, hc.no_slash, hc.ne_nil, (h.split hne).1⟩

theorem Clean.ne_nil (h : Clean path) : path ≠ [] := by
  rintro rfl
  exact nomatch h

end Rabbitbone.Spec.Vfs
