import Mathlib.Logic.Relation

/-!
# Rehanging a node of a rooted graph

A node `s` gets a new parent `n`, and some nodes without successors go.  Everything else keeps its
place.  The graph stays connected from its root, unless the new parent is below the node that moves.
-/

namespace Relation

variable {α : Type*} {r r' : α → α → Prop} {root s n : α} {gone : α → Prop}

/-- If nothing leads to the root and every node has one parent, there is no loop among the nodes
that are reached from the root. -/
theorem not_transGen_self_of_reach (hroot : ∀ a, ¬r a root)
    (hparent : ∀ a b c, r a c → r b c → a = b)
    {d : α} (h : ReflTransGen r root d) : ¬TransGen r d d := by
  induction h with
  | refl =>
    intro hloop
    obtain ⟨a, -, ha⟩ := TransGen.tail'_iff.mp hloop
    exact hroot a ha
  | @tail b c _ hbc ih =>
    intro hloop
    -- the last step of the loop comes from the parent, so there is a loop at the parent
    obtain ⟨a, hca, hac⟩ := TransGen.tail'_iff.mp hloop
    rw [hparent a b c hac hbc] at hca
    exact ih (TransGen.head' hbc hca)

/-- The graph after a move of `s`: the nodes that go have no successors, and whatever else is not
`s` stays where it is. -/
structure Rehung (r r' : α → α → Prop) (s : α) (gone : α → Prop) : Prop where
  kept : ∀ a b, r a b → b ≠ s → ¬gone b → r' a b
  leaf : ∀ a b, gone a → ¬r a b

namespace Rehung

/-- What is below the node that moves stays below it. -/
theorem below (h : Rehung r r' s gone) {d : α} (hpath : ReflTransGen r s d) (hd : ¬gone d) :
    ReflTransGen r' s d := by
  induction hpath with
  | refl => exact ReflTransGen.refl
  | @tail b c _ hbc ih =>
    by_cases hc : c = s
    · rw [hc]
    · exact (ih fun hb => h.leaf b c hb hbc).tail (h.kept b c hbc hc hd)

/-- What is not below it is reached as before. -/
theorem beside (h : Rehung r r' s gone) {d : α} (hpath : ReflTransGen r root d) (hd : ¬gone d)
    (hbelow : ¬ReflTransGen r s d) : ReflTransGen r' root d := by
  induction hpath with
  | refl => exact ReflTransGen.refl
  | @tail b c _ hbc ih =>
    have hb : ¬ReflTransGen r s b := fun hb => hbelow (hb.tail hbc)
    have hc : c ≠ s := fun hc => hbelow (hc ▸ ReflTransGen.refl)
    exact (ih (fun hgone => h.leaf b c hgone hbc) hb).tail (h.kept b c hbc hc hd)

/-- With a new parent that is not below it, the node and what is below it are reached again. -/
theorem reach (h : Rehung r r' s gone) (hhung : r' n s) (hn : ReflTransGen r root n)
    (hgone : ¬gone n)
    (hbelow : ¬ReflTransGen r s n) {d : α} (hpath : ReflTransGen r root d) (hd : ¬gone d) :
    ReflTransGen r' root d := by
  by_cases hsd : ReflTransGen r s d
  · exact ((h.beside hn hgone hbelow).tail hhung).trans (h.below hsd hd)
  · exact h.beside hpath hd hsd

/-- If the new parent is below the node, they are on a loop. -/
theorem loop (h : Rehung r r' s gone) (hhung : r' n s) (hgone : ¬gone n)
    (hbelow : ReflTransGen r s n) :
    TransGen r' s s :=
  TransGen.tail' (h.below hbelow hgone) hhung

end Rehung

end Relation
