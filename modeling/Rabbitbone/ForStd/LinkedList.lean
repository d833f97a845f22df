import Mathlib.Data.List.Basic

/-!
# Singly linked lists

A linked list is a head pointer `h : Option α` and a successor function `next : α → Option α`.
`Seg next h l t` says that following `next` from `h` visits the cells `l` and then stands at `t`;
`Chain next h l` is a list that ends.  A list that ends visits no cell twice (`Chain.nodup`), and a
list that comes back to a cell does not end (`Seg.not_chain`).

The update lemmas say what a list becomes when its last pointer is written (`Seg.retarget`) or when
cells outside it change (`Seg.congr`).
-/

namespace LinkedList

open List

variable {α : Type*} {next next' : α → Option α}

/-- The cells visited from `h` before the pointer is `t`. -/
def Seg (next : α → Option α) : Option α → List α → Option α → Prop
  | h, [], t => h = t
  | h, a :: l, t => h = some a ∧ Seg next (next a) l t

/-- The cells of a list that ends. -/
def Chain (next : α → Option α) (h : Option α) (l : List α) : Prop := Seg next h l none

@[simp] theorem Seg.nil_iff {h t : Option α} : Seg next h [] t ↔ h = t := Iff.rfl

@[simp] theorem Seg.cons_iff {h t : Option α} {a : α} {l : List α} :
    Seg next h (a :: l) t ↔ h = some a ∧ Seg next (next a) l t := Iff.rfl

/-- A segment is cut at any of its cells. -/
theorem Seg.append_iff {h t : Option α} {l₁ l₂ : List α} :
    Seg next h (l₁ ++ l₂) t ↔ ∃ m, Seg next h l₁ m ∧ Seg next m l₂ t := by
  induction l₁ generalizing h with
  | nil => simp
  | cons a l₁ ih =>
    simp only [cons_append, Seg.cons_iff, ih]
    constructor
    · rintro ⟨hh, m, h₁, h₂⟩
      exact ⟨m, ⟨hh, h₁⟩, h₂⟩
    · rintro ⟨m, ⟨hh, h₁⟩, h₂⟩
      exact ⟨hh, m, h₁, h₂⟩

/-- Only the cells visited matter. -/
theorem Seg.congr {h t : Option α} {l : List α} (hseg : Seg next h l t)
    (heq : ∀ a ∈ l, next' a = next a) : Seg next' h l t := by
  induction l generalizing h with
  | nil => exact hseg
  | cons a l ih =>
    refine ⟨hseg.1, ?_⟩
    rw [heq a mem_cons_self]
    exact ih hseg.2 fun b hb => heq b (mem_cons_of_mem a hb)

/-- Two walks from one pointer agree as far as both go. -/
theorem Seg.eq_append_of_chain {h t : Option α} {l l' : List α} (hseg : Seg next h l t)
    (hchain : Chain next h l') : ∃ l'', l' = l ++ l'' ∧ Chain next t l'' := by
  induction l generalizing h l' with
  | nil => exact ⟨l', rfl, (Seg.nil_iff.mp hseg) ▸ hchain⟩
  | cons a l ih =>
    obtain ⟨rfl, hseg⟩ := hseg
    cases l' with
    | nil => exact absurd (Seg.nil_iff.mp hchain) (by simp)
    | cons b l' =>
      obtain ⟨hb, hchain⟩ := hchain
      obtain rfl : a = b := Option.some.inj hb
      obtain ⟨l'', rfl, ht⟩ := ih hseg hchain
      exact ⟨l'', rfl, ht⟩

/-- The links decide the list. -/
theorem Chain.unique {h : Option α} {l l' : List α} (h₁ : Chain next h l) (h₂ : Chain next h l') :
    l = l' := by
  obtain ⟨l'', rfl, hnil⟩ := Seg.eq_append_of_chain h₁ h₂
  cases l'' with
  | nil => exact (append_nil l).symm
  | cons a l'' => exact absurd hnil.1 (by simp)

/-- A walk that comes back to the cell it started from never ends. -/
theorem Seg.not_chain {a : α} {l : List α} (hloop : Seg next (some a) (a :: l) (some a))
    (l' : List α) : ¬Chain next (some a) l' := by
  intro hchain
  induction hn : l'.length using Nat.strongRecOn generalizing l' with
  | ind n ih =>
    obtain ⟨l'', rfl, hrest⟩ := Seg.eq_append_of_chain hloop hchain
    simp only [cons_append, length_cons, length_append] at hn
    exact ih l''.length (by omega) l'' hrest rfl

/-- A list that ends visits no cell twice. -/
theorem Chain.nodup {h : Option α} {l : List α} (hchain : Chain next h l) : l.Nodup := by
  induction l generalizing h with
  | nil => exact nodup_nil
  | cons a l ih =>
    obtain ⟨rfl, hrest⟩ := hchain
    refine nodup_cons.mpr ⟨fun hmem => ?_, ih hrest⟩
    -- the second visit of `a` would close a loop
    obtain ⟨l₁, l₂, rfl⟩ := append_of_mem hmem
    obtain ⟨m, h₁, h₂⟩ := Seg.append_iff.mp hrest
    obtain ⟨rfl, hrest'⟩ := h₂
    have hloop : Seg next (some a) (a :: l₁) (some a) := ⟨rfl, h₁⟩
    exact hloop.not_chain (a :: l₂) ⟨rfl, hrest'⟩

/-- Writing the last pointer of a walk moves its end. -/
theorem Seg.retarget [DecidableEq α] {h t t' : Option α} {l : List α} {p : α}
    (hseg : Seg next h l t) (hnodup : l.Nodup) (hlast : l.getLast? = some p)
    (hnext' : ∀ a, next' a = if a = p then t' else next a) : Seg next' h l t' := by
  obtain ⟨l, rfl⟩ := getLast?_eq_some_iff.mp hlast
  obtain ⟨m, hl, hm, -⟩ := Seg.append_iff.mp hseg
  refine Seg.append_iff.mpr ⟨m, hl.congr fun a ha => ?_, hm, ?_⟩
  · have hne : a ≠ p := (nodup_append.mp hnodup).2.2 a ha p mem_cons_self
    rw [hnext', if_neg hne]
  · rw [Seg.nil_iff, hnext', if_pos rfl]

end LinkedList
