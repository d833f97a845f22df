import Mathlib.Data.List.Basic

/-!
# Lists of intervals

Each thing of a list stands for the interval from its `start` to its `stop`.  `Laid` says that no
interval is empty and that they lie in the order of the list, with or without gaps.  Neighbours can
be replaced by others that lie on the bytes they had (`Laid.replace`).
-/

variable {α : Type*} {start stop : α → ℕ} {l l' : List α}

/-- One of the intervals has the point. -/
def Covered (start stop : α → ℕ) (l : List α) (i : ℕ) : Prop := ∃ a ∈ l, start a ≤ i ∧ i < stop a

/-- The intervals lie one behind the other. -/
structure Laid (start stop : α → ℕ) (l : List α) : Prop where
  nonempty : ∀ a ∈ l, start a < stop a
  ordered : l.Pairwise fun a b => stop a ≤ start b

theorem covered_append {i : ℕ} :
    Covered start stop (l ++ l') i ↔ Covered start stop l i ∨ Covered start stop l' i := by
  simp only [Covered, List.mem_append, or_and_right, exists_or]

namespace Laid

open List

/-- Two laid out lists, one behind the other. -/
theorem append_iff : Laid start stop (l ++ l') ↔
    Laid start stop l ∧ Laid start stop l' ∧ ∀ a ∈ l, ∀ b ∈ l', stop a ≤ start b := by
  constructor
  · intro h
    obtain ⟨hl, hl', hcross⟩ := pairwise_append.mp h.ordered
    exact ⟨⟨fun a ha => h.nonempty a (mem_append_left _ ha), hl⟩,
      ⟨fun a ha => h.nonempty a (mem_append_right _ ha), hl'⟩, hcross⟩
  · intro ⟨hl, hl', hcross⟩
    refine ⟨fun a ha => ?_, pairwise_append.mpr ⟨hl.ordered, hl'.ordered, hcross⟩⟩
    exact (mem_append.mp ha).elim (hl.nonempty a) (hl'.nonempty a)

/-- Two different intervals of the list lie apart. -/
theorem apart (h : Laid start stop l) {a b : α} (ha : a ∈ l) (hb : b ∈ l) (hne : a ≠ b) :
    stop a ≤ start b ∨ stop b ≤ start a := by
  obtain ⟨pre, post, rfl⟩ := append_of_mem ha
  obtain ⟨-, hpost, hcross⟩ := pairwise_append.mp h.ordered
  rcases mem_append.mp hb with hmem | hmem
  · exact .inr (hcross b hmem a mem_cons_self)
  rcases mem_cons.mp hmem with rfl | hmem
  · exact absurd rfl hne
  · exact .inl ((pairwise_cons.mp hpost).1 b hmem)

/-- What lies on the same points can stand in for a stretch of the list. -/
theorem replace {pre old new post : List α} (h : Laid start stop (pre ++ (old ++ post)))
    (hnew : Laid start stop new) (hsub : ∀ i, Covered start stop new i → Covered start stop old i) :
    Laid start stop (pre ++ (new ++ post)) := by
  obtain ⟨hpre, h, hbefore⟩ := append_iff.mp h
  obtain ⟨hold, hpost, hbehind⟩ := append_iff.mp h
  have hleft : ∀ a ∈ pre, ∀ c ∈ new, stop a ≤ start c := by
    intro a ha c hc
    -- The first point of a new interval lies in an old one.
    obtain ⟨b, hb, hle, -⟩ := hsub (start c) ⟨c, hc, Nat.le_refl _, hnew.nonempty c hc⟩
    exact Nat.le_trans (hbefore a ha b (mem_append_left _ hb)) hle
  have hright : ∀ c ∈ new, ∀ a ∈ post, stop c ≤ start a := by
    intro c hc a ha
    have hlt := hnew.nonempty c hc
    obtain ⟨b, hb, -, hle⟩ := hsub (stop c - 1) ⟨c, hc, by omega, by omega⟩
    have := hbehind b hb a ha
    omega
  refine append_iff.mpr ⟨hpre, append_iff.mpr ⟨hnew, hpost, hright⟩, fun a ha c hc => ?_⟩
  rcases mem_append.mp hc with hc | hc
  · exact hleft a ha c hc
  · exact hbefore a ha c (mem_append_right _ hc)

end Laid
