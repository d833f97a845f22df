import Rabbitbone.Native.Path

/-!
# Normal paths

`path_normalize` returns a path whose components are names: none of them is empty, `.` or `..`.
-/

namespace Rabbitbone.Spec.Path

open Native.Path List Option

/-- A component of a normal path. -/
structure Component (c : List UInt8) : Prop where
  ne_nil : c ≠ []
  no_slash : slash ∉ c
  ne_dot : c ≠ [dot]
  ne_dotdot : c ≠ [dot, dot]

/-- The components one after the other, each behind a slash. -/
def joined (cs : List (List UInt8)) : List UInt8 := cs.flatMap fun c => slash :: c

@[simp] theorem joined_nil : joined [] = [] := rfl

@[simp] theorem joined_cons (c : List UInt8) (cs : List (List UInt8)) :
    joined (c :: cs) = slash :: c ++ joined cs := rfl

theorem joined_append (cs cs' : List (List UInt8)) : joined (cs ++ cs') = joined cs ++ joined cs' :=
  flatMap_append

/-- The path of a list of components. -/
def normalPath (cs : List (List UInt8)) : List UInt8 := if cs = [] then [slash] else joined cs

/-- A path as `path_normalize` returns it. -/
def Normal (path : List UInt8) : Prop := ∃ cs, (∀ c ∈ cs, Component c) ∧ path = normalPath cs

variable {cs : List (List UInt8)} {c input comp : List UInt8} {fuel : Nat}

/-- Components take at least a slash and a byte. -/
theorem two_le_length_joined (h : ∀ c ∈ cs, Component c) (hne : cs ≠ []) :
    2 ≤ (joined cs).length := by
  obtain ⟨c, cs, rfl⟩ := exists_cons_of_ne_nil hne
  have hpos := length_pos_iff.mpr (h c mem_cons_self).ne_nil
  simp only [joined_cons, length_append, length_cons]
  omega

private theorem rdropWhile_component (h : slash ∉ c) (l : List UInt8) :
    (l ++ c).rdropWhile (· != slash) = l.rdropWhile (· != slash) := by
  induction c using reverseRecOn with
  | nil => rw [append_nil]
  | append_singleton c x ih =>
    have hx : x ≠ slash := fun hx => h (by simp [hx])
    rw [← append_assoc, rdropWhile_concat_pos _ _ _ (by simpa using hx)]
    exact ih fun hc => h (mem_append_left _ hc)

theorem normalPath_concat (cs : List (List UInt8)) (c : List UInt8) :
    normalPath (cs ++ [c]) = joined cs ++ (slash :: c) := by
  rw [normalPath, if_neg (by simp), joined_append]
  simp

/-- A component is appended if it is a name and the path stays short. -/
theorem pathAppendComponent_normalPath (outSize : Nat) (hcs : ∀ c ∈ cs, Component c)
    (hc : comp ≠ []) :
    pathAppendComponent (normalPath cs) outSize comp
      = if comp.length < nameMax ∧ comp.all pathComponentByteAllowed ∧
          (normalPath (cs ++ [comp])).length < outSize then some (normalPath (cs ++ [comp]))
        else none := by
  have hlen : (comp.length == 0) = false := by simpa using hc
  have hout : normalPath cs ++ (if 1 < (normalPath cs).length then [slash] else []) ++ comp
      = normalPath (cs ++ [comp]) := by
    rw [normalPath_concat, normalPath]
    by_cases hnil : cs = []
    · simp [hnil]
    have := two_le_length_joined hcs hnil
    rw [if_neg hnil, if_pos (by omega)]
    simp
  have hsum := congrArg length hout
  rw [length_append, length_append] at hsum
  simp only [pathAppendComponent, hlen, Bool.false_eq_true, if_false, hout]
  by_cases hname : comp.length < nameMax
  · by_cases hall : comp.all pathComponentByteAllowed = true
    · by_cases hfits : (normalPath (cs ++ [comp])).length < outSize
      · rw [if_neg (by omega), if_neg (by simp [hall]), if_neg (by simp; omega),
          if_pos ⟨hname, hall, hfits⟩]
      · rw [if_neg (by omega), if_neg (by simp [hall]), if_pos (by simp; omega),
          if_neg fun h => hfits h.2.2]
    · rw [if_neg (by omega), if_pos (by simpa using hall), if_neg fun h => hall h.2.1]
  · rw [if_pos (by omega), if_neg fun h => hname h.1]

/-- The last component is dropped. -/
theorem pathPopComponent_concat (hcs : ∀ c ∈ cs, Component c) (hc : Component c) :
    pathPopComponent (normalPath (cs ++ [c])) = some (normalPath cs) := by
  have hout : normalPath (cs ++ [c]) = joined cs ++ [slash] ++ c := by
    rw [normalPath_concat, append_assoc, singleton_append]
  have hpos := length_pos_iff.mpr hc.ne_nil
  rw [hout, pathPopComponent, if_neg (by simp; omega)]
  dsimp only
  congr 1
  by_cases hnil : cs = []
  · subst hnil
    have hdrop : drop 1 (joined [] ++ [slash] ++ c) = [] ++ c := rfl
    rw [hdrop, rdropWhile_component hc.no_slash]
    rfl
  have hlen := two_le_length_joined hcs hnil
  obtain ⟨a, l, hl⟩ := exists_cons_of_ne_nil (l := joined cs) (by
    intro heq
    rw [heq] at hlen
    exact absurd hlen (by decide))
  have hdrop : drop 1 (a :: l ++ [slash] ++ c) = l ++ [slash] ++ c := rfl
  have htake : take 1 (a :: l ++ [slash] ++ c) = [a] := rfl
  rw [normalPath, if_neg hnil, hl, hdrop, htake, rdropWhile_component hc.no_slash,
    rdropWhile_concat_neg _ _ _ (by simp), if_pos (by simp)]
  rw [← append_assoc, dropLast_concat]
  rfl

theorem component_concat (hcs : ∀ c ∈ cs, Component c) (hc : Component c) :
    ∀ d ∈ cs ++ [c], Component d := by
  intro d hd
  rcases mem_append.mp hd with hd | hd
  · exact hcs d hd
  · rw [mem_singleton.mp hd]
    exact hc

theorem takeWhile_no_slash (l : List UInt8) : slash ∉ l.takeWhile (· != slash) := by
  intro hmem
  have := mem_takeWhile_imp hmem
  exact absurd this (by simp)

/-- What a round of a normalisation leaves is shorter: a component or a slash is gone. -/
theorem length_rest_le (hne : input ≠ []) (hfuel : input.length ≤ fuel + 1) :
    ((input.dropWhile (· == slash)).dropWhile (· != slash)).length ≤ fuel := by
  obtain ⟨a, l, rfl⟩ := exists_cons_of_ne_nil hne
  rw [length_cons] at hfuel
  by_cases ha : a = slash
  · rw [dropWhile_cons_of_pos (by simpa using ha)]
    have h₁ := (dropWhile_suffix (p := (· == slash)) (l := l)).length_le
    have h₂ := (dropWhile_suffix (p := (· != slash)) (l := l.dropWhile (· == slash))).length_le
    omega
  · rw [dropWhile_cons_of_neg (by simpa using ha), dropWhile_cons_of_pos (by simpa using ha)]
    have h₁ := (dropWhile_suffix (p := (· != slash)) (l := l)).length_le
    omega

/-- The next component of a normal path. -/
theorem pathNextComponent_joined {rest : List UInt8} {size : Nat} (hc : Component c)
    (h : pathNextComponent (joined (c :: cs)) size = some (comp, rest)) :
    comp = c ∧ rest = joined cs := by
  have hskip : (joined (c :: cs)).dropWhile (· == slash) = c ++ joined cs := by
    obtain ⟨a, l, rfl⟩ := exists_cons_of_ne_nil hc.ne_nil
    have ha : a ≠ slash := fun ha => hc.no_slash (by simp [ha])
    simp [ha]
  have hall : ∀ a ∈ c, (a != slash) = true := fun a ha => by
    rw [bne_iff_ne]
    rintro rfl
    exact hc.no_slash ha
  have hcut : ∀ l, l = joined cs → l.takeWhile (· != slash) = [] ∧
      l.dropWhile (· != slash) = l := by
    rintro l rfl
    cases cs <;> simp
  rw [pathNextComponent, hskip, takeWhile_append_of_pos hall, dropWhile_append_of_pos hall,
    (hcut _ rfl).1, (hcut _ rfl).2, append_nil] at h
  dsimp only at h
  split at h
  · exact nomatch h
  split at h
  · exact nomatch h
  split at h
  · exact nomatch h
  · obtain ⟨rfl, rfl⟩ := Prod.mk.inj (some.inj h)
    exact ⟨rfl, rfl⟩

end Rabbitbone.Spec.Path
