import Rabbitbone.Native.Proc.Mmap

/-!
# The search for a free range

Two passes over the arena jump from a candidate to the end of the first mapping that it meets.  No
range that starts in between is free, so a pass that finds nothing has missed nothing.
-/

namespace Rabbitbone.Spec.Proc

open Native.Proc Native.Sys

variable {vmas : List UserVma} {size addr candidate arenaEnd : Nat}

/-- What `process_add_vma` accepts. -/
structure ValidVma (v : UserVma) : Prop where
  lt : v.start < v.stop
  startAligned : v.start % pageSize = 0
  stopAligned : v.stop % pageSize = 0
  inUser : userAddrRangeValid v.start (v.stop - v.start) = true

/-- The end of a mapping is aligned already. -/
theorem ValidVma.alignUpPage {v : UserVma} (h : ValidVma v) :
    Native.Mm.alignUpPage v.stop = some v.stop := by
  have hlt := h.lt
  have haligned := h.stopAligned
  have huser := h.inUser
  simp only [userAddrRangeValid, userRangeCheck, Bool.and_eq_true, Bool.or_eq_true,
    decide_eq_true_eq] at huser
  simp only [userLimit] at huser
  simp only [pageSize] at haligned
  have hfits : v.stop + (pageSize - 1) < 2 ^ 64 := by
    simp only [pageSize]
    omega
  rw [Native.Mm.alignUpPage, if_pos hfits, Option.some.injEq]
  simp only [pageSize]
  omega

/-- The range of this size from `addr` on is free and in the arena. -/
def FreeAt (vmas : List UserVma) (size addr : Nat) : Prop :=
  userMmapBase ≤ addr ∧ addr + size ≤ processMmapArenaEnd ∧
    processRangeFree vmas addr (addr + size) = true

/-- What a pass from `candidate` on says about the ranges that start there or later. -/
def PassOk (vmas : List UserVma) (size candidate : Nat) : MmapPass → Prop
  | .returned addr => candidate ≤ addr ∧ FreeAt vmas size addr
  | .over => ∀ addr, candidate ≤ addr → ¬FreeAt vmas size addr

/-- No range is free that starts between the candidate and the end of a mapping that it meets. -/
theorem not_freeAt_of_overlap {v : UserVma} (hmem : v ∈ vmas)
    (hover : processVmaRangesOverlap candidate (candidate + size) v.start v.stop = true)
    (hle : candidate ≤ addr) (hlt : addr < v.stop) : ¬FreeAt vmas size addr := by
  rintro ⟨-, -, hfree⟩
  simp only [processRangeFree, Bool.and_eq_true, List.all_eq_true, decide_eq_true_eq] at hfree
  have hnot := hfree.2 v hmem
  simp only [processVmaRangesOverlap, Bool.and_eq_true, decide_eq_true_eq, Bool.not_eq_true',
    Bool.and_eq_false_iff, decide_eq_false_iff_not] at hnot hover
  omega

private theorem passOk_mmapPass (hv : ∀ v ∈ vmas, ValidVma v) (hsize : 0 < size)
    (hbase : userMmapBase ≤ candidate) (harena : arenaEnd = processMmapArenaEnd) :
    PassOk vmas size candidate (mmapPass vmas arenaEnd size candidate) := by
  have hsmall : processMmapArenaEnd + pageSize < 2 ^ 64 := by decide
  -- the end of a mapping is where the next candidate is
  have hnext : ∀ {candidate next}, ((vmas.find? fun v => processVmaRangesOverlap candidate
      (candidate + size) v.start v.stop).map fun v => Native.Mm.alignUpPage v.stop) = some next →
      ∃ stop, next = some stop ∧ candidate < stop ∧
        ∀ addr, candidate ≤ addr → addr < stop → ¬FreeAt vmas size addr := by
    intro candidate next hfind
    obtain ⟨v, hsome, rfl⟩ := Option.map_eq_some_iff.mp hfind
    have hmem := List.mem_of_find?_eq_some hsome
    have hover := List.find?_some hsome
    refine ⟨v.stop, (hv v hmem).alignUpPage, ?_, fun addr => not_freeAt_of_overlap hmem hover⟩
    simp only [processVmaRangesOverlap, Bool.and_eq_true, decide_eq_true_eq] at hover
    exact hover.1.2
  fun_induction mmapPass vmas arenaEnd size candidate with
  | case1 candidate hlt stop hover =>
    intro addr haddr hfree
    have hle := hfree.2.1
    omega
  | case2 candidate hlt stop hover hfind =>
    rw [Option.map_eq_none_iff, List.find?_eq_none] at hfind
    refine ⟨Nat.le_refl _, hbase, by omega, ?_⟩
    simp only [processRangeFree, Bool.and_eq_true, List.all_eq_true, decide_eq_true_eq]
    exact ⟨by omega, fun v hmem => by simpa using hfind v hmem⟩
  | case3 candidate hlt stop hover hfind =>
    obtain ⟨_, hnone, -⟩ := hnext hfind
    cases hnone
  | case4 candidate hlt stop hover next hfind hle =>
    obtain ⟨_, hsome, hgt, -⟩ := hnext hfind
    cases hsome
    omega
  | case5 candidate hlt stop hover next hfind hgt ih =>
    obtain ⟨_, hsome, -, hskip⟩ := hnext hfind
    cases hsome
    have hok := ih (by omega)
    cases hpass : mmapPass vmas arenaEnd size next with
    | returned addr =>
      rw [hpass] at hok
      exact ⟨by have := hok.1; omega, hok.2⟩
    | _ =>
      rw [hpass] at hok
      intro addr haddr
      by_cases hbefore : addr < next
      · exact hskip addr haddr hbefore
      · exact hok addr (by omega)
  | case6 candidate hlt =>
    intro addr haddr hfree
    have hle := hfree.2.1
    omega

/-- The search finds a free range in the arena, or there is none. -/
theorem findFreeMmapRange_free (hv : ∀ v ∈ vmas, ValidVma v) (cursor size : Nat) :
    FreeAt vmas size (processFindFreeMmapRange vmas cursor size) ∨
      processFindFreeMmapRange vmas cursor size = 0 ∧ ∀ addr, ¬FreeAt vmas size addr := by
  rw [processFindFreeMmapRange]
  split
  · next hzero =>
    refine .inr ⟨rfl, fun addr hfree => ?_⟩
    simp [FreeAt, processRangeFree, hzero] at hfree
  next hsize =>
  dsimp only
  have hstart : userMmapBase ≤ if cursor < userMmapBase ∨ processMmapArenaEnd ≤ cursor then
      userMmapBase else cursor := by
    split <;> omega
  have hfirst := passOk_mmapPass hv (Nat.pos_of_ne_zero hsize) hstart rfl
  have hsecond := passOk_mmapPass hv (Nat.pos_of_ne_zero hsize) (Nat.le_refl userMmapBase) rfl
  split
  · next addr hpass =>
    rw [hpass] at hfirst
    exact .inl hfirst.2
  split
  · next addr hpass =>
    rw [hpass] at hsecond
    exact .inl hsecond.2
  next hpass =>
  rw [hpass] at hsecond
  exact .inr ⟨rfl, fun addr hfree => hsecond addr hfree.1 hfree⟩

/-- A mapping where the search starts. -/
def oneVma : List UserVma := [⟨userMmapBase, userMmapBase + pageSize⟩]

theorem findFreeMmapRange_oneVma :
    FreeAt oneVma pageSize (processFindFreeMmapRange oneVma userMmapBase pageSize) := by
  have hv : ∀ v ∈ oneVma, ValidVma v := by
    intro v hmem
    rw [List.mem_singleton.mp hmem]
    exact ⟨by decide, by decide, by decide, by decide⟩
  rcases findFreeMmapRange_free hv userMmapBase pageSize with hfree | ⟨-, hnone⟩
  · exact hfree
  · exact absurd ⟨by decide, by decide, by decide⟩ (hnone (userMmapBase + pageSize))

end Rabbitbone.Spec.Proc
