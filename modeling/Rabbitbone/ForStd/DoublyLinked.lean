import Mathlib.Data.List.Basic

/-!
# Doubly linked lists

The links of a doubly linked list are two functions, `next` and `prev`.  `Links next prev l` says
that neighbours in `l` point at each other.  A list with a head and a tail pointer is a ring through
a sentinel, whose `next` is the head and whose `prev` is the tail:
`Links next prev (s :: l ++ [s])`.

A list can be cut anywhere (`links_append`), and each part depends on the pointers of its own cells
only (`Links.congr`).  That is all that is needed to put a cell in or to take one out.
-/

namespace DoublyLinked

variable {κ : Type*} {next prev next' prev' : κ → κ} {l l₁ l₂ : List κ} {x y : κ}

/-- Neighbours point at each other. -/
def Links (next prev : κ → κ) : List κ → Prop
  | x :: y :: l => next x = y ∧ prev y = x ∧ Links next prev (y :: l)
  | _ => True

theorem links_cons_cons :
    Links next prev (x :: y :: l) ↔ next x = y ∧ prev y = x ∧ Links next prev (y :: l) := Iff.rfl

/-- The two parts of a list share the cell where it is cut. -/
theorem links_append :
    Links next prev (l₁ ++ x :: l₂) ↔ Links next prev (l₁ ++ [x]) ∧ Links next prev (x :: l₂) := by
  induction l₁ with
  | nil => simp [Links]
  | cons a l₁ ih =>
    cases l₁ with
    | nil => simp [Links, and_assoc]
    | cons b l₁ =>
      simp only [List.cons_append, links_cons_cons] at ih ⊢
      rw [ih, and_assoc, and_assoc]

/-- The pointers that a list depends on. -/
theorem Links.congr (h : Links next prev l) (hnext : ∀ x ∈ l.dropLast, next' x = next x)
    (hprev : ∀ x ∈ l.tail, prev' x = prev x) : Links next' prev' l := by
  induction l with
  | nil => trivial
  | cons x l ih =>
    cases l with
    | nil => trivial
    | cons y l =>
      rw [links_cons_cons] at h ⊢
      refine ⟨?_, ?_, ih h.2.2 (fun z hz => hnext z ?_) fun z hz => hprev z ?_⟩
      · rw [hnext x (by simp), h.1]
      · rw [hprev y (by simp), h.2.1]
      · rw [List.dropLast_cons_of_ne_nil (by simp)]
        exact List.mem_cons_of_mem _ hz
      · exact List.mem_cons_of_mem _ hz

/-- Replace the cells between `b` and `y`: the pointers of the others stay. -/
theorem Links.splice {mid mid' : List κ} {b : κ} (h : Links next prev (l₁ ++ b :: (mid ++ y :: l₂)))
    (hmid : Links next' prev' (b :: (mid' ++ [y])))
    (hleft : ∀ x ∈ l₁, next' x = next x) (hleft' : ∀ x ∈ (l₁ ++ [b]).tail, prev' x = prev x)
    (hright : ∀ x ∈ (y :: l₂).dropLast, next' x = next x) (hright' : ∀ x ∈ l₂, prev' x = prev x) :
    Links next' prev' (l₁ ++ b :: (mid' ++ y :: l₂)) := by
  rw [links_append] at h ⊢
  refine ⟨h.1.congr (by simpa using hleft) hleft', ?_⟩
  have hrest := h.2
  rw [← List.cons_append, links_append] at hrest ⊢
  exact ⟨hmid, hrest.2.congr hright hright'⟩

end DoublyLinked
