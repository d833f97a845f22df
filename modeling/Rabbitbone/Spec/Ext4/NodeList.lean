import Rabbitbone.Native.Ext4.ExtentArray

/-!
# The slots of a node

The loops of the source that shift, copy and remove slots of a node, by what each slot holds behind
them, also those behind the entries.
-/

namespace Rabbitbone.Spec.Ext4

open FallibleState Native.Ext4

variable {n : Node} {ps : List Slot} {i pos : Nat}

private theorem entries_lt (n : Node) : n.entries < 65536 := n.ehEntries.toNat_lt

theorem max_lt (n : Node) : n.max < 65536 := n.ehMax.toNat_lt

/-! ### Single slots -/

@[simp] theorem setSlot_entries (n : Node) (i : Nat) (s : Slot) :
    (n.setSlot i s).entries = n.entries := rfl

theorem setSlot_slot (n : Node) (i : Nat) (s : Slot) (j : Nat) :
    (n.setSlot i s).slot j = if j = i then s else n.slot j := by
  simp [Node.setSlot, Function.update_apply]

private theorem setEntries_entries {k : Nat} (h : k < 65536) : (n.setEntries k).entries = k := by
  simp only [Node.setEntries, Node.entries, UInt16.toNat_ofNat']
  omega

@[simp] theorem setEntries_slot (n : Node) (k : Nat) : (n.setEntries k).slot = n.slot := rfl

/-! ### Shifts -/

private theorem shiftDown_slot (n : Node) (i count j : Nat) :
    (n.shiftDown i count).slot j = if i ≤ j ∧ j < i + count then n.slot (j + 1) else n.slot j := by
  induction count generalizing n i with
  | zero =>
    rw [Node.shiftDown, if_neg (by omega)]
  | succ count ih =>
    rw [Node.shiftDown, ih, setSlot_slot, setSlot_slot]
    by_cases hji : j = i
    · subst hji
      rw [if_neg (by omega), if_pos rfl, if_pos (by omega)]
    rw [if_neg hji]
    by_cases hj : i + 1 ≤ j ∧ j < i + 1 + count
    · rw [if_pos hj, if_neg (by omega), if_pos (by omega)]
    · rw [if_neg hj, if_neg (by omega)]

private theorem shiftUp_slot {add count : Nat} (h : count ≤ i) (j : Nat) :
    (n.shiftUp add i count).slot j = if i < j + count ∧ j ≤ i then n.slot (j - add) else
      n.slot j := by
  induction count generalizing n i with
  | zero => rw [Node.shiftUp, if_neg (by omega)]
  | succ count ih =>
    -- The slots above `i` are done and those below are still as they were.
    rw [Node.shiftUp, ih (by omega), setSlot_slot, setSlot_slot]
    by_cases hji : j = i
    · subst hji
      rw [if_neg (by omega), if_pos rfl, if_pos (by omega)]
    by_cases hj : i - 1 < j + count ∧ j ≤ i - 1
    · rw [if_pos hj, if_neg (by omega), if_pos (by omega)]
    · rw [if_neg hj, if_neg hji, if_neg (by omega)]

private theorem setSlots_slot (n : Node) (pos : Nat) (l : List Slot) (j : Nat) :
    (n.setSlots pos l).slot j = if pos ≤ j then (l[j - pos]?).getD (n.slot j) else n.slot j := by
  induction l generalizing n pos with
  | nil => simp [Node.setSlots]
  | cons s l ih =>
    rw [Node.setSlots, ih, setSlot_slot]
    by_cases hj : j = pos
    · subst hj
      rw [if_neg (by omega), if_pos rfl, if_pos (by omega)]
      simp
    rw [if_neg hj]
    by_cases hlt : pos + 1 ≤ j
    · have hsub : j - pos = j - (pos + 1) + 1 := by omega
      rw [if_pos hlt, if_pos (by omega), hsub, List.getElem?_cons_succ]
    · rw [if_neg hlt, if_neg (by omega)]

/-! ### Removing and splitting -/

theorem removeSlot_entries (n : Node) (i : Nat) : (n.removeSlot i).entries = n.entries - 1 := by
  have hlt := entries_lt n
  exact setEntries_entries (by omega)

/-- The slots behind a removed one move up, and the last is cleared. -/
theorem removeSlot_slot (h : i < n.entries) (j : Nat) :
    (n.removeSlot i).slot j = if j + 1 = n.entries then Slot.zero
      else if i ≤ j ∧ j < n.entries then n.slot (j + 1) else n.slot j := by
  rw [Node.removeSlot, setEntries_slot, setSlot_slot, shiftDown_slot]
  by_cases hlast : j + 1 = n.entries
  · rw [if_pos (by omega), if_pos hlast]
  rw [if_neg (by omega), if_neg hlast]
  by_cases hj : i ≤ j ∧ j < n.entries
  · rw [if_pos (by omega), if_pos hj]
  · rw [if_neg (by omega), if_neg hj]

/-- One slot gives way to its pieces. -/
theorem splitSlot_entries (h : n.entries + (ps.length - 1) < 65536) :
    (n.splitSlot pos ps).entries = n.entries + (ps.length - 1) :=
  setEntries_entries h

/-- The slots after a split.  The shift also copies the slot behind the last entry. -/
theorem splitSlot_slot (hpos : pos < n.entries) (hps : ps ≠ []) (j : Nat) :
    (n.splitSlot pos ps).slot j =
      if pos ≤ j ∧ j < pos + ps.length then (ps[j - pos]?).getD (n.slot j)
      else if pos + ps.length ≤ j ∧ j ≤ n.entries + (ps.length - 1) then
        n.slot (j - (ps.length - 1))
      else n.slot j := by
  have hlen := List.length_pos_iff.mpr hps
  rw [Node.splitSlot, setEntries_slot, setSlots_slot, shiftUp_slot (by omega)]
  by_cases hin : pos ≤ j ∧ j < pos + ps.length
  · rw [if_pos hin, if_pos hin.1, List.getElem?_eq_getElem (by omega), Option.getD_some,
      Option.getD_some]
  rw [if_neg hin]
  by_cases hj : pos ≤ j
  · rw [if_pos hj, List.getElem?_eq_none (by omega), Option.getD_none]
    by_cases hle : j ≤ n.entries + (ps.length - 1)
    · rw [if_pos (by omega), if_pos (by omega)]
    · rw [if_neg (by omega), if_neg (by omega)]
  · rw [if_neg hj, if_neg (by omega), if_neg (by omega)]

end Rabbitbone.Spec.Ext4
