import Mathlib.Data.List.Basic
import Mathlib.Logic.Function.Basic

/-!
# Strings in buffers

A buffer is a byte for every index.  It holds a string if the bytes of the string and a zero byte
stand at its start; what is behind the zero byte does not matter.
-/

namespace CString

open Function List

/-- The first index from `i` on with a zero byte, at most `n` further. -/
def scan (buf : ℕ → UInt8) : ℕ → ℕ → ℕ
  | 0, i => i
  | n + 1, i => if buf i ≠ 0 then scan buf n (i + 1) else i

/-- Write bytes one after the other from an index on. -/
def copyIn (buf : ℕ → UInt8) (pos : ℕ) : List UInt8 → ℕ → UInt8
  | [] => buf
  | b :: bs => copyIn (update buf pos b) (pos + 1) bs

/-- The buffer holds the string `l`. -/
structure Holds (buf : ℕ → UInt8) (l : List UInt8) : Prop where
  byte : ∀ i b, l[i]? = some b → buf i = b
  nul : buf l.length = 0
  nonzero : (0 : UInt8) ∉ l

theorem copyIn_of_lt (buf : ℕ → UInt8) {pos i : ℕ} (bs : List UInt8) (h : i < pos) :
    copyIn buf pos bs i = buf i := by
  induction bs generalizing buf pos with
  | nil => rfl
  | cons b bs ih => rw [copyIn, ih _ (by omega), update_of_ne (by omega)]

theorem copyIn_of_ge (buf : ℕ → UInt8) {pos i : ℕ} {bs : List UInt8} (h : pos + bs.length ≤ i) :
    copyIn buf pos bs i = buf i := by
  induction bs generalizing buf pos with
  | nil => rfl
  | cons b bs ih =>
    rw [length_cons] at h
    rw [copyIn, ih _ (by omega), update_of_ne (by omega)]

/-- The bytes copied in. -/
theorem copyIn_add (buf : ℕ → UInt8) (pos : ℕ) {bs : List UInt8} {i : ℕ} {b : UInt8}
    (h : bs[i]? = some b) :
    copyIn buf pos bs (pos + i) = b := by
  induction bs generalizing buf pos i with
  | nil => simp at h
  | cons a bs ih =>
    rw [copyIn]
    cases i with
    | zero =>
      rw [copyIn_of_lt _ _ (by omega), Nat.add_zero, update_self]
      simpa using h
    | succ i =>
      rw [show pos + (i + 1) = pos + 1 + i by omega]
      exact ih _ _ (by simpa using h)

namespace Holds

variable {buf buf' : ℕ → UInt8} {l l' : List UInt8}

/-- No byte before the end of a string is zero. -/
theorem ne_zero (h : Holds buf l) {i : ℕ} (hi : i < l.length) : buf i ≠ 0 := by
  rw [h.byte i l[i] (getElem?_eq_getElem hi)]
  exact fun hzero => h.nonzero (hzero ▸ getElem_mem hi)

/-- What a buffer holds depends on the bytes of the string and its end only. -/
theorem congr (h : Holds buf l) (hsame : ∀ i ≤ l.length, buf' i = buf i) : Holds buf' l := by
  refine ⟨fun i b hb => ?_, ?_, h.nonzero⟩
  · have hlt := (List.getElem?_eq_some_iff.mp hb).1
    rw [hsame i (by omega), h.byte i b hb]
  · rw [hsame _ (Nat.le_refl _), h.nul]

/-- The length of the string is found. -/
theorem scan_eq (h : Holds buf l) {n i : ℕ} (hi : i ≤ l.length) (hn : l.length < i + n) :
    scan buf n i = l.length := by
  induction n generalizing i with
  | zero => omega
  | succ n ih =>
    rw [scan]
    by_cases hend : i = l.length
    · rw [if_neg (by rw [hend, h.nul]; simp), hend]
    · rw [if_pos (h.ne_zero (by omega)), ih (by omega) (by omega)]

/-- A zero byte cuts the string. -/
theorem cut (h : Holds buf l) {k : ℕ} (hk : k ≤ l.length) : Holds (update buf k 0) (l.take k) := by
  have hlen : (l.take k).length = k := by rw [length_take]; omega
  refine ⟨fun i b hb => ?_, by rw [hlen, update_self],
    fun hzero => h.nonzero (mem_of_mem_take hzero)⟩
  have hlt := (List.getElem?_eq_some_iff.mp hb).1
  rw [update_of_ne (by omega)]
  refine h.byte i b ?_
  rwa [getElem?_take_of_lt (by omega)] at hb

/-- Bytes are put behind a string. -/
theorem append (h : Holds buf l) (hnonzero : (0 : UInt8) ∉ l') :
    Holds (update (copyIn buf l.length l') (l.length + l'.length) 0) (l ++ l') := by
  refine ⟨fun i b hb => ?_, by rw [length_append, update_self], ?_⟩
  · have hlt := (List.getElem?_eq_some_iff.mp hb).1
    rw [length_append] at hlt
    rw [update_of_ne (by omega)]
    by_cases hi : i < l.length
    · rw [getElem?_append_left hi] at hb
      rw [copyIn_of_lt _ _ hi, h.byte i b hb]
    rw [getElem?_append_right (by omega)] at hb
    rw [show i = l.length + (i - l.length) by omega]
    exact copyIn_add _ _ hb
  · rw [mem_append]
    exact fun hzero => hzero.elim h.nonzero hnonzero

/-- Bytes are put in a buffer of zeros. -/
theorem copyIn_zero (hnonzero : (0 : UInt8) ∉ l) : Holds (copyIn (fun _ => 0) 0 l) l := by
  have hnil : Holds (fun _ => 0) [] := ⟨fun i b hb => by simp at hb, rfl, by simp⟩
  refine (hnil.append hnonzero).congr fun i hi => ?_
  by_cases hend : i = l.length
  · rw [hend, copyIn_of_ge _ (by omega), length_nil, Nat.zero_add, update_self]
  · rw [update_of_ne (by simpa using hend), length_nil]

/-- Equal bytes up to the end of the shorter string. -/
theorem prefix_iff (h : Holds buf l) (h' : Holds buf' l') (hle : l.length ≤ l'.length) :
    (∀ i < l.length, buf i = buf' i) ↔ l <+: l' := by
  rw [prefix_iff_getElem?]
  constructor
  · intro hbytes i hi
    have hi' : i < l'.length := by omega
    rw [getElem?_eq_getElem hi', ← h.byte i _ (getElem?_eq_getElem hi), hbytes i hi,
      h'.byte i _ (getElem?_eq_getElem hi')]
  · intro hstart i hi
    rw [h.byte i _ (getElem?_eq_getElem hi), h'.byte i _ (hstart i hi)]

end Holds

end CString
