import Rabbitbone.ForStd.Run
import Rabbitbone.Native.Sys.FileRead

/-!
# What the readers of one file get

Between the two critical sections of a reader another one may read the same bytes.  The readers
share out a range of the file exactly if this never happens.
-/

namespace Rabbitbone.Spec.Sys

open Native Native.Sys Function List

/-- Every byte of one range that ends at the offset was delivered once, and no other byte. -/
def Contiguous (f : SharedFile) : Prop :=
  ∃ first, f.delivered.Perm (range' first (f.offset - first))

/-- A chunk that is delivered was read at the offset that the file still has. -/
def InTurn (f : SharedFile) : ReadEvent → Prop
  | .deliver r => ∀ total c, (f.readers r).call = .holding total c → c.bytes ≠ [] →
      copyOutBuf (f.readers r).mem c.ptr c.bytes ≠ none → f.offset + c.bytes.length < 2 ^ 64 →
        f.offset = c.startOffset
  | _ => True

/-- The bytes from `first` to the offset were delivered, and no reader holds a chunk from
elsewhere. -/
structure ReadInv (first : Nat) (f : SharedFile) : Prop where
  delivered : f.delivered = range' first (f.offset - first)
  le : first ≤ f.offset
  held : ∀ r total c, (f.readers r).call = .holding total c →
    first ≤ c.startOffset ∧ c.startOffset ≤ f.offset

variable {f : SharedFile} {first r total : Nat} {e : ReadEvent} {c : Chunk}

theorem ReadInv.put (h : ReadInv first f) {p : Reader}
    (hp : ∀ total c, p.call = .holding total c → c.startOffset = f.offset) :
    ReadInv first (f.put r p) := by
  refine ⟨h.delivered, h.le, fun r' total c hc => ?_⟩
  by_cases hr : r' = r
  · simp only [SharedFile.put, hr, update_self] at hc
    exact (hp total c hc).symm ▸ ⟨h.le, Nat.le_refl _⟩
  · simp only [SharedFile.put, update_of_ne hr] at hc
    exact h.held r' total c hc

private theorem startOffset_of_fetch {p : Reader} {vs : Option VfsStatus}
    (h : f.fetch p total vs = .ok c) :
    c.startOffset = f.offset := by
  simp only [SharedFile.fetch] at h
  repeat' split at h
  all_goals cases h
  rfl

/-- The next bytes are delivered. -/
theorem ReadInv.append (h : ReadInv first f) (hc : c.bytes ≠ [] → f.offset = c.startOffset) :
    ReadInv first { f with
      offset := f.offset + c.bytes.length
      delivered := f.delivered ++ range' c.startOffset c.bytes.length } := by
  have hle := h.le
  refine ⟨?_, Nat.le_add_right_of_le hle, fun r total d hd => ?_⟩
  · by_cases hgot : c.bytes = []
    · simp [hgot, h.delivered]
    have hstart : c.startOffset = first + (f.offset - first) := by
      rw [← hc hgot]
      omega
    rw [h.delivered, hstart, range'_append_1, Nat.sub_add_comm hle]
  · have := h.held r total d hd
    dsimp only
    omega

/-- Reads that take turns keep the invariant. -/
theorem ReadInv.step (h : ReadInv first f) (hturn : InTurn f e) : ReadInv first (f.step e) := by
  cases e with
  | call r mem buf len =>
    simp only [SharedFile.step]
    split
    · exact h.put nofun
    · exact h
  | fetch r vs =>
    simp only [SharedFile.step]
    split
    · split
      · exact h.put nofun
      case h_2 hfetch =>
        refine h.put fun total c hc => ?_
        cases hc
        exact startOffset_of_fetch hfetch
    · exact h
  | deliver r =>
    simp only [SharedFile.step]
    split
    case h_2 => exact h
    case h_1 total c hc =>
      simp only [SharedFile.deliver]
      split
      · exact h.put nofun
      case h_2 mem hmem =>
        split
        · exact h.put nofun
        refine (h.append fun hgot => ?_).put fun _ _ hcall => ?_
        · by_contra hne
          exact hne (hturn total c hc hgot (by simp [hmem]) (by omega))
        · split at hcall <;> cases hcall

/-- The first byte of a chunk that is not in turn is delivered twice. -/
theorem ReadInv.not_contiguous (h : ReadInv first f) (hturn : ¬InTurn f e) :
    ¬Contiguous (f.step e) := by
  cases e with
  | call r mem buf len => exact absurd trivial hturn
  | fetch r vs => exact absurd trivial hturn
  | deliver r =>
    simp only [InTurn, not_forall] at hturn
    obtain ⟨total, c, hc, hgot, hcopy, hlt, hne⟩ := hturn
    obtain ⟨mem, hmem⟩ := Option.ne_none_iff_exists'.mp hcopy
    have hheld := h.held r total c hc
    have hpos := length_pos_iff.mpr hgot
    simp only [SharedFile.step, SharedFile.deliver, hc, hmem, Nat.not_le.mpr hlt,
      and_false, if_false]
    rintro ⟨start, hperm⟩
    have hnodup := hperm.nodup_iff.mpr nodup_range'
    simp only [SharedFile.put, nodup_append, h.delivered] at hnodup
    refine hnodup.2.2 c.startOffset ?_ c.startOffset ?_ rfl
    · rw [mem_range'_1]
      omega
    · rw [mem_range'_1]
      omega

/-- A file that nobody has read from yet. -/
def opened (data : List UInt8) (offset : Nat) (procs : Nat → UserMem) : SharedFile :=
  ⟨data, offset, fun r => ⟨procs r, 0, 0, .returned (.ok 0)⟩, []⟩

/-- The readers of a file share out one range of it exactly if no chunk that is delivered was
overtaken by another one. -/
theorem contiguous_iff_inTurn (data : List UInt8) (offset : Nat) (procs : Nat → UserMem)
    (es : List ReadEvent) :
    Run.Always SharedFile.step Contiguous (opened data offset procs) es ↔
      Run.Allowed SharedFile.step InTurn (opened data offset procs) es :=
  Run.always_iff_allowed (B := fun _ => True) (I := ReadInv offset) (fun _ _ _ => trivial)
    (fun _ h => ⟨offset, h.delivered ▸ .refl _⟩) (fun _ _ h _ => h.step)
      (fun _ _ h => h.not_contiguous)
    ⟨by simp [opened], Nat.le_refl _, nofun⟩ trivial

/-- Two processes that read one byte each at a time get the same byte. -/
theorem first_byte_delivered_twice :
    let mem : UserMem := ⟨fun _ => 0, fun _ => true, fun _ => true⟩
    ¬Run.Always SharedFile.step Contiguous (opened [1, 2] 0 fun _ => mem)
      [.call 0 mem userMin 1, .call 1 mem userMin 1, .fetch 0 none, .fetch 1 none, .deliver 0,
        .deliver 1] := by
  rintro mem ⟨-, -, -, -, -, -, start, hperm⟩
  have hnodup := hperm.nodup_iff.mpr nodup_range'
  exact absurd hnodup (by decide +kernel)

end Rabbitbone.Spec.Sys
