import Rabbitbone.Spec.Ext4.CacheSlots

/-!
# The functions of the caches keep them coherent

One lemma for each function of the caches: from a coherent state it succeeds and leaves a coherent
state, with the map that the function is for.

## Key results

- `cachedReadBlock_run`, `cachedReadDataBlock_run`: a read returns what the map says.
- `cachedWriteBlock_run`, `cachedWriteDataBlock_run`: a write changes the map in one place.
- `ext4SyncMetadata_run`: after a sync no copy is dirty.
-/

namespace Rabbitbone.Spec.Ext4

open Native.Ext4 FallibleState SectorDisk Function Cached

/-- The mounts of the volumes stay. -/
def SameMounts (s s' : Cached) : Prop := ∀ m, (s'.vols m).mnt = (s.vols m).mnt

theorem SameMounts.refl (s : Cached) : SameMounts s s := fun _ => rfl

theorem SameMounts.trans {s s' s'' : Cached} (h : SameMounts s s') (h' : SameMounts s' s'') :
    SameMounts s s'' := fun m => (h' m).trans (h m)

variable {s' : Cached} {k : Key} {i : SlotIdx} {m b : Nat} {M' : BlockMap} {X : Block}

theorem Similar.sameMounts {s : Cached} (h : Similar s s') : SameMounts s s' :=
  fun m => by rw [h.vols]

theorem SameMounts.reach {s : Cached} (h : SameMounts s s') : InReach s' k ↔ InReach s k := by
  rw [InReach, h, InReach]

section

variable {s s₀ : Cached} {M : BlockMap} {v' : RawVolume} {j : SlotIdx} {p : SlotIdx → Bool}
  {w : WriteSlot} {X : Block} {b m : Nat}

/-! ### Ages and tables -/

private theorem dataCacheTick_run (s : Cached) :
    ∃ clock, dataCacheTick.run s = (.ok clock, { s with clock := clock }) :=
  ⟨_, rfl⟩

private theorem dataCacheTouch_run (s : Cached) (i : SlotIdx) :
    ∃ s', (dataCacheTouch i).run s = (.ok (), s') ∧ Similar s s' := by
  refine ⟨_, rfl, rfl, id, rfl, fun j => ?_⟩
  by_cases hji : j = i
  · subst hji
    rw [setDataSlot_self]
    exact ⟨rfl, rfl, rfl⟩
  · rw [setDataSlot_of_ne hji]
    exact .rfl

private theorem dataCacheEnsure_run (s : Cached) :
    ∃ ready s', dataCacheEnsure.run s = (.ok ready, s') ∧ Similar s s' ∧ s'.dataReady = ready := by
  rw [dataCacheEnsure, bind_of_ok (run_get s)]
  split
  · rename_i hready
    exact ⟨true, s, rfl, .refl s, hready⟩
  · rename_i hready
    exact ⟨_, _, rfl, ⟨rfl, fun _ => Bool.eq_false_iff.mpr hready, rfl, fun _ => .rfl⟩, rfl⟩

private theorem writeCacheEnsure_run (s : Cached) :
    ∃ ready s', writeCacheEnsure.run s = (.ok ready, s') ∧ Similar s s' ∧
      s'.dataSlots = s.dataSlots := by
  rw [writeCacheEnsure, bind_of_ok (run_get s)]
  split
  · exact ⟨true, s, rfl, .refl s, rfl⟩
  · exact ⟨_, _, rfl, ⟨rfl, id, rfl, fun _ => .rfl⟩, rfl⟩

/-! ### Finding a slot -/

private theorem find_slot_none (h : slotList.find? p = none) (i : SlotIdx) : ¬p i = true :=
  List.find?_eq_none.mp h i (List.mem_finRange i)

private theorem find_slot_some (h : slotList.find? p = some i) : p i = true := List.find?_some h

private theorem dataCacheFindSlot_run (s : Cached) (m b : Nat) :
    (∃ i s', (dataCacheFindSlot m b).run s = (.ok (some i), s') ∧ Similar s s' ∧
      dataKey (s.dataSlots i) = some (m, b)) ∨
    ((dataCacheFindSlot m b).run s = (.ok none, s) ∧
      ∀ i, dataKey (s.dataSlots i) ≠ some (m, b)) := by
  rw [dataCacheFindSlot, bind_of_ok (run_get s)]
  cases hfind : slotList.find? fun i => (s.dataSlots i).isAt m b with
  | none => exact Or.inr ⟨rfl, fun i hi => find_slot_none hfind i (dataKey_eq_some.mp hi)⟩
  | some i =>
    obtain ⟨s', htouch, hsim⟩ := dataCacheTouch_run s i
    refine Or.inl ⟨i, s', ?_, hsim, dataKey_eq_some.mpr (find_slot_some hfind)⟩
    rw [bind_of_ok htouch, run_pure]

/-- The slot for a block is the only one that may hold the block. -/
theorem dataCacheSlotFor_run (h : Coherent s M) (m b : Nat) (preferClean : Bool) :
    ∃ o s', (dataCacheSlotFor m b preferClean).run s = (.ok o, s') ∧ Similar s s' ∧
      ∀ j, o ≠ some j → dataKey (s'.dataSlots j) ≠ some (m, b) := by
  rw [dataCacheSlotFor]
  rcases dataCacheFindSlot_run s m b with ⟨i, s', hfind, hsim, hkey⟩ | ⟨hfind, hnone⟩
  · rw [bind_of_ok hfind]
    refine ⟨some i, s', rfl, hsim, fun j hj hjkey => hj ?_⟩
    rw [(hsim.dataSlots j).key] at hjkey
    rw [h.dataInj i j _ hkey hjkey]
  · rw [bind_of_ok hfind]
    exact ⟨_, s, rfl, .refl s, fun j _ => hnone j⟩

private theorem writeCacheFindSlot_spec (s : Cached) (m b : Nat) :
    (∃ i, s.writeCacheFindSlot m b = some i ∧ writeKey (s.writeSlots i) = some (m, b)) ∨
    (s.writeCacheFindSlot m b = none ∧ ∀ i, writeKey (s.writeSlots i) ≠ some (m, b)) := by
  rw [writeCacheFindSlot]
  cases hfind : slotList.find? fun i => (s.writeSlots i).isAt m b with
  | none => exact Or.inr ⟨rfl, fun i hi => find_slot_none hfind i (writeKey_eq_some.mp hi)⟩
  | some i => exact Or.inl ⟨i, rfl, writeKey_eq_some.mpr (find_slot_some hfind)⟩

/-! ### Writing slots out -/

/-- The slot `i` of the data cache is not dirty any more, and nothing else in the caches has
changed. -/
structure DataFlushed (s : Cached) (i : SlotIdx) (s' : Cached) : Prop where
  mounts : SameMounts s s'
  ready : s'.dataReady = s.dataReady
  writeSlots : s'.writeSlots = s.writeSlots
  others : ∀ j, j ≠ i → s'.dataSlots j = s.dataSlots j
  slot : dataKey (s'.dataSlots i) = none ∨
    (s'.dataSlots i).dirty = false ∧ s'.dataSlots i = s.dataSlots i

/-- A flushed slot may be given to another block. -/
theorem DataFlushed.free (h : DataFlushed s i s') :
    dataKey (s'.dataSlots i) = none ∨ (s'.dataSlots i).dirty = false :=
  h.slot.imp_right And.left

theorem DataFlushed.refl (h : (s.dataSlots i).valid = true → (s.dataSlots i).dirty = false) :
    DataFlushed s i s := by
  refine ⟨.refl s, rfl, rfl, fun _ _ => rfl, ?_⟩
  by_cases hvalid : (s.dataSlots i).valid = true
  · exact Or.inr ⟨h hvalid, rfl⟩
  · exact Or.inl (if_neg hvalid)

/-- Only slots that were dirty are. -/
theorem DataFlushed.dirty (h : DataFlushed s i s')
    (hkey : dataKey (s'.dataSlots j) = some k) (hdirty : (s'.dataSlots j).dirty = true) :
    j ≠ i ∧ dataKey (s.dataSlots j) = some k ∧ (s.dataSlots j).dirty = true := by
  have hne : j ≠ i := by
    rintro rfl
    rcases h.free with hnone | hclean
    · rw [hnone] at hkey
      exact absurd hkey (by simp)
    · rw [hclean] at hdirty
      exact absurd hdirty (by decide)
  rw [h.others j hne] at hkey hdirty
  exact ⟨hne, hkey, hdirty⟩

private theorem dataKey_of_valid {d : DataSlot} (h : d.valid = true) :
    dataKey d = some (d.vol, d.block) := by
  rw [dataKey, if_pos h]

private theorem writeKey_of_valid (h : w.valid = true) : writeKey w = some (w.vol, w.block) := by
  rw [writeKey, if_pos h]

private theorem dataCacheFlushSlot_run (h : Coherent s M) (i : SlotIdx) :
    ∃ s', (dataCacheFlushSlot i).run s = (.ok (), s') ∧ Coherent s' M ∧ DataFlushed s i s' := by
  rw [dataCacheFlushSlot, bind_of_ok (run_get s)]
  dsimp only
  split
  · rename_i hcond
    have hkey := dataKey_of_valid hcond.1
    obtain ⟨v', hwrite, hstored⟩ :=
      rawWriteBlock_stored (h.dataReach i _ hkey).1 (s.dataSlots i).data
    rw [bind_of_ok (onVolume_run hwrite), run_modify]
    refine ⟨_, rfl, h.flushData hkey hstored _, setVol_mnt hstored, rfl, rfl,
      fun j hj => setDataSlot_of_ne hj _, Or.inl ?_⟩
    rw [setDataSlot_self, dataKey_drop]
  · rename_i hcond
    exact ⟨s, rfl, h, .refl fun hvalid => Bool.eq_false_iff.mpr fun hd => hcond ⟨hvalid, hd⟩⟩

/-- The slot `i` of the write cache is free, and nothing else in the caches has changed. -/
structure WriteFlushed (s : Cached) (i : SlotIdx) (s' : Cached) : Prop where
  mounts : SameMounts s s'
  dataSlots : s'.dataSlots = s.dataSlots
  others : ∀ j, j ≠ i → s'.writeSlots j = s.writeSlots j
  slot : writeKey (s'.writeSlots i) = none

/-- Through the journal or past it, the block of a slot is stored. -/
theorem writeOut_run (m : Nat) (hreach : w.block < (s.vols w.vol).mnt.blocksCount) :
    ∃ v', (writeOut m w).run s = (.ok (), setVol s w.vol v') ∧
      Stored (s.vols w.vol) w.block w.data v' := by
  rw [writeOut, bind_of_ok (run_get s)]
  split
  · rename_i hvol
    obtain ⟨v', hcommit, hstored⟩ := journalCommit_stored hreach w.data
    rw [← hvol.1]
    exact ⟨v', onVolume_run hcommit, hstored⟩
  · obtain ⟨v', hwrite, hstored⟩ := rawWriteBlock_stored hreach w.data
    exact ⟨v', onVolume_run hwrite, hstored⟩

private theorem writeCacheFlushSlotWithMount_run (h : Coherent s M) (m : Nat) (i : SlotIdx) :
    ∃ s', (writeCacheFlushSlotWithMount m i).run s = (.ok (), s') ∧ Coherent s' M ∧
      WriteFlushed s i s' := by
  rw [writeCacheFlushSlotWithMount, bind_of_ok (run_get s)]
  by_cases hvalid : (s.writeSlots i).valid = true
  swap
  · rw [if_neg fun hcond => hvalid hcond.1]
    exact ⟨s, rfl, h, .refl s, rfl, fun _ _ => rfl, if_neg hvalid⟩
  have hkey := writeKey_of_valid hvalid
  obtain ⟨v', hrun, hstored⟩ := writeOut_run m (h.writeReach i _ hkey).1
  rw [if_pos ⟨hvalid, h.writeDirty i hvalid⟩, bind_of_ok hrun, run_modify]
  exact ⟨_, rfl, h.flushWrite hkey hstored _, setVol_mnt hstored, rfl,
    fun j hj => setWriteSlot_of_ne hj _, congrArg writeKey (setWriteSlot_self _ i _)⟩

/-! ### Loops over the slots -/

/-- A loop over the slots whose turns keep `inv` and establish `P` of their slot, which the later
turns keep. -/
theorem forSlots_run {x : SlotIdx → CacheM Unit} (inv : Cached → Prop) (P : SlotIdx → Cached → Prop)
    (hstep : ∀ i s, inv s → ∃ s', (x i).run s = (.ok (), s') ∧ inv s' ∧ P i s' ∧
      ∀ j, P j s → P j s') (l : List SlotIdx) {s : Cached} (h : inv s) :
    ∃ s', (forSlots x l).run s = (.ok (), s') ∧ inv s' ∧ (∀ i ∈ l, P i s') ∧
      ∀ j, P j s → P j s' := by
  induction l generalizing s with
  | nil => exact ⟨s, rfl, h, by simp, fun _ => id⟩
  | cons i l ih =>
    obtain ⟨s₁, hrun, hinv, hi, hkeep⟩ := hstep i s h
    obtain ⟨s₂, hrun₂, hinv₂, hl, hkeep₂⟩ := ih hinv
    refine ⟨s₂, by rw [forSlots, bind_of_ok hrun, hrun₂], hinv₂, ?_,
      fun j hj => hkeep₂ j (hkeep j hj)⟩
    intro j hj
    rcases List.mem_cons.mp hj with rfl | hj
    · exact hkeep₂ _ hi
    · exact hl j hj

/-- The slot `i` holds no dirty block of the volume `m`. -/
def DataClean (m : Nat) (i : SlotIdx) (s : Cached) : Prop :=
  ∀ b, dataKey (s.dataSlots i) = some (m, b) → (s.dataSlots i).dirty = false

private theorem DataFlushed.dataClean (h : DataFlushed s i s') (hj : DataClean m j s) :
    DataClean m j s' := by
  intro b hkey
  refine Bool.eq_false_iff.mpr fun hdirty => ?_
  obtain ⟨-, hkey', hdirty'⟩ := h.dirty hkey hdirty
  rw [hj b hkey'] at hdirty'
  exact absurd hdirty' (by decide)

/-- What the flushes of the data cache keep, seen from the state `s₀` that they start in. -/
structure DataFlushing (s₀ : Cached) (M : BlockMap) (s : Cached) : Prop where
  coherent : Coherent s M
  mounts : SameMounts s₀ s
  writeSlots : s.writeSlots = s₀.writeSlots

/-- One turn of a flush: the slot is written out if the condition holds. -/
theorem flushTurn_run (c : Prop) [Decidable c] (i : SlotIdx) (h : DataFlushing s₀ M s) :
    ∃ s', (if c then dataCacheFlushSlot i else pure ()).run s = (.ok (), s') ∧
      DataFlushing s₀ M s' ∧ (c → dataKey (s'.dataSlots i) = none ∨
        (s'.dataSlots i).dirty = false) ∧
      (¬c → s' = s) ∧ ∀ m j, DataClean m j s → DataClean m j s' := by
  split
  · rename_i hc
    obtain ⟨s', hrun, hcoh, hflushed⟩ := dataCacheFlushSlot_run h.coherent i
    exact ⟨s', hrun, ⟨hcoh, h.mounts.trans hflushed.mounts, hflushed.writeSlots.trans h.writeSlots⟩,
      fun _ => hflushed.free, fun hnc => absurd hc hnc, fun m j hj => hflushed.dataClean hj⟩
  · rename_i hc
    exact ⟨s, rfl, h, fun hc' => absurd hc' hc, fun _ => rfl, fun _ _ => id⟩

/-- After the flush no slot of the volume is dirty. -/
theorem ext4FlushDataCacheForMount_run (h : Coherent s M) (m : Nat) :
    ∃ s', (ext4FlushDataCacheForMount m).run s = (.ok (), s') ∧ DataFlushing s M s' ∧
      ∀ i, DataClean m i s' := by
  obtain ⟨s', hrun, hinv, hall, -⟩ := forSlots_run (DataFlushing s M) (DataClean m)
    (x := fun i => do
      let s ← get
      if (s.dataSlots i).valid ∧ (s.dataSlots i).dirty ∧ (s.dataSlots i).vol = m then
        dataCacheFlushSlot i
      else pure ())
    (fun i s₁ hinv => by
      obtain ⟨s₂, hrun, hinv₂, hfree, hsame, hkeep⟩ := flushTurn_run
        ((s₁.dataSlots i).valid = true ∧ (s₁.dataSlots i).dirty = true ∧ (s₁.dataSlots i).vol = m)
        i hinv
      refine ⟨s₂, hrun, hinv₂, fun b hkey => ?_, fun j => hkeep m j⟩
      by_cases hc : (s₁.dataSlots i).valid = true ∧ (s₁.dataSlots i).dirty = true ∧
          (s₁.dataSlots i).vol = m
      · rcases hfree hc with hnone | hclean
        · rw [hnone] at hkey
          exact absurd hkey (by simp)
        · exact hclean
      · rw [hsame hc] at hkey ⊢
        have hvalid := valid_of_dataKey hkey
        exact Bool.eq_false_iff.mpr fun hd => hc ⟨hvalid.1, hd, hvalid.2.1⟩)
    slotList ⟨h, .refl s, rfl⟩
  exact ⟨s', hrun, hinv, fun i => hall i (List.mem_finRange i)⟩

/-- Flushing the blocks of an inode shows nobody a change. -/
theorem ext4FlushDataCacheForInode_run (h : Coherent s M) (m : Nat) (l : List Nat) :
    ∃ s', (ext4FlushDataCacheForInode m l).run s = (.ok (), s') ∧ DataFlushing s M s' := by
  have hrun : ∀ (l : List Nat) (s₁ : Cached), DataFlushing s M s₁ →
      ∃ s', (ext4FlushDataCacheForInode m l).run s₁ = (.ok (), s') ∧ DataFlushing s M s' := by
    intro l
    induction l with
    | nil => exact fun s₁ hinv => ⟨s₁, rfl, hinv⟩
    | cons phys l ih =>
      intro s₁ hinv
      obtain ⟨s₂, hrun, hinv₂, -, -⟩ := forSlots_run (DataFlushing s M) (fun _ _ => True)
        (x := fun i => do
          let s ← get
          if (s.dataSlots i).isAt m phys ∧ (s.dataSlots i).dirty then dataCacheFlushSlot i
          else pure ())
        (fun i s₂ hinv₂ => by
          obtain ⟨s₃, hrun, hinv₃, -⟩ := flushTurn_run
            ((s₂.dataSlots i).isAt m phys = true ∧ (s₂.dataSlots i).dirty = true) i hinv₂
          exact ⟨s₃, hrun, hinv₃, trivial, fun _ _ => trivial⟩)
        slotList hinv
      obtain ⟨s₃, hrun₃, hinv₃⟩ := ih s₂ hinv₂
      exact ⟨s₃, by rw [ext4FlushDataCacheForInode, bind_of_ok hrun, hrun₃], hinv₃⟩
  exact hrun l s ⟨h, .refl s, rfl⟩

/-- What the flush of the write cache keeps. -/
structure WriteFlushing (s₀ : Cached) (M : BlockMap) (s : Cached) : Prop where
  coherent : Coherent s M
  mounts : SameMounts s₀ s
  dataSlots : s.dataSlots = s₀.dataSlots

/-- After the flush the write cache has no block of the volume. -/
theorem ext4FlushWriteCacheForMount_run (h : Coherent s M) (m : Nat) :
    ∃ s', (ext4FlushWriteCacheForMount m).run s = (.ok (), s') ∧ WriteFlushing s M s' ∧
      ∀ i b, writeKey (s'.writeSlots i) ≠ some (m, b) := by
  obtain ⟨s', hrun, hinv, hall, -⟩ := forSlots_run (WriteFlushing s M)
    (fun i s' => ∀ b, writeKey (s'.writeSlots i) ≠ some (m, b))
    (x := fun i => do
      let s ← get
      let w := s.writeSlots i
      if w.valid ∧ w.dirty ∧ w.vol = m then do
        onVolume m (journalCommitOrderedBlock w.block w.data)
        modify fun s => s.setWriteSlot i w.drop
      else pure ())
    (fun i s₁ hinv => by
      rw [bind_of_ok (run_get s₁)]
      dsimp only
      split
      · rename_i hc
        have hkey := writeKey_of_valid hc.1
        rw [hc.2.2] at hkey
        obtain ⟨v', hcommit, hstored⟩ := journalCommit_stored
          (hinv.coherent.writeReach i _ hkey).1 (s₁.writeSlots i).data
        rw [bind_of_ok (onVolume_run hcommit), run_modify]
        refine ⟨_, rfl, ⟨hinv.coherent.flushWrite hkey hstored _,
          hinv.mounts.trans (setVol_mnt hstored), hinv.dataSlots⟩, fun b => ?_, fun j hj b => ?_⟩
        · rw [setWriteSlot_self, writeKey_drop]
          simp
        · by_cases hji : j = i
          · rw [hji, setWriteSlot_self, writeKey_drop]
            simp
          · rw [setWriteSlot_of_ne hji]
            exact hj b
      · rename_i hc
        refine ⟨s₁, rfl, hinv, fun b hkey => ?_, fun _ => id⟩
        have hvalid := valid_of_writeKey hkey
        exact hc ⟨hvalid.1, hinv.coherent.writeDirty i hvalid.1, hvalid.2.1⟩)
    slotList ⟨h, .refl s, rfl⟩
  exact ⟨s', hrun, hinv, fun i => hall i (List.mem_finRange i)⟩

/-! ### Filling slots of the data cache -/

private theorem flushPressureLoop_run (m count : Nat) (h : DataFlushing s₀ M s) :
    ∃ s', (flushPressureLoop m count).run s = (.ok (), s') ∧ DataFlushing s₀ M s' := by
  induction count generalizing s with
  | zero => exact ⟨s, rfl, h⟩
  | succ count ih =>
    rw [flushPressureLoop, bind_of_ok (run_get s)]
    cases s.oldestDirty m with
    | none => exact ⟨s, rfl, h⟩
    | some i =>
      obtain ⟨s₁, hrun, hcoh, hflushed⟩ := dataCacheFlushSlot_run h.coherent i
      have h₁ : DataFlushing s₀ M s₁ :=
        ⟨hcoh, h.mounts.trans hflushed.mounts, hflushed.writeSlots.trans h.writeSlots⟩
      rw [bind_of_ok hrun, bind_of_ok (run_get s₁)]
      split
      · exact ⟨s₁, rfl, h₁⟩
      · exact ih h₁

/-- Flushing under pressure shows nobody a change. -/
theorem dataCacheFlushPressure_run (h : Coherent s M) (m : Nat) :
    ∃ s', (dataCacheFlushPressure m).run s = (.ok (), s') ∧ DataFlushing s M s' := by
  rw [dataCacheFlushPressure, bind_of_ok (run_get s)]
  split
  · exact ⟨s, rfl, h, .refl s, rfl⟩
  · exact flushPressureLoop_run m 4 ⟨h, .refl s, rfl⟩

private theorem dataCacheFillSlot_run (s : Cached) (i : SlotIdx) (m b : Nat) (X : Block)
    (dirty readahead : Bool) :
    ∃ clock, (dataCacheFillSlot i m b X dirty readahead).run s
      = (.ok (), { s with clock := clock }.setDataSlot i
        ⟨true, dirty, m, b, clock, readahead, X⟩) := by
  obtain ⟨clock, htick⟩ := dataCacheTick_run s
  exact ⟨clock, by rw [dataCacheFillSlot, bind_of_ok htick, run_modify]⟩

/-- The new content `X` of a block goes into the data cache or, if there is no room, to the
device. -/
structure Installs (s : Cached) (M M' : BlockMap) (m b : Nat) (X : Block) (dirty : Bool) :
    Prop where
  reach : InReach s (m, b)
  apart : dirty = true → ∀ j, writeKey (s.writeSlots j) ≠ some (m, b)
  map : ∀ k, k ≠ (m, b) → M' k = M k
  content : ∀ c, M' (m, b) = some c → SameContent (s.vols m).mnt X c
  same : dirty = false → M' (m, b) = M (m, b)

/-- A copy of what the map says already. -/
theorem Installs.clean (hr : InReach s (m, b))
    (hX : ∀ c, M (m, b) = some c → SameContent (s.vols m).mnt X c) :
    Installs s M M m b X false where
  reach := hr
  apart := fun hd => absurd hd (by decide)
  map := fun _ _ => rfl
  content := hX
  same := fun _ => rfl

private theorem Installs.of_sameMounts {s' : Cached} {M' : BlockMap} {dirty : Bool}
    (h : Installs s M M' m b X dirty) (hm : SameMounts s s')
    (hw : s'.writeSlots = s.writeSlots) : Installs s' M M' m b X dirty where
  reach := hm.reach.mpr h.reach
  apart := by rw [hw]; exact h.apart
  map := h.map
  content := by rw [hm]; exact h.content
  same := h.same

private theorem writeIfDirty_run {dirty : Bool} (h : Coherent s M)
    (hi : Installs s M M' m b X dirty)
    (hnone : dirty = true → ∀ j, dataKey (s.dataSlots j) ≠ some (m, b)) :
    ∃ s', (writeIfDirty m b X dirty).run s = (.ok (), s') ∧ Coherent s' M' ∧ SameMounts s s' := by
  cases dirty with
  | true =>
    obtain ⟨v', hwrite, hstored⟩ := rawWriteBlock_stored hi.reach.1 X
    refine ⟨_, onVolume_run hwrite, ?_, setVol_mnt hstored⟩
    exact h.writeThrough hstored (hi.apart rfl) (hnone rfl) hi.map hi.content
  | false =>
    refine ⟨s, rfl, h.mono fun k c _ hk => ⟨c, ?_, .refl c⟩, .refl s⟩
    by_cases heq : k = (m, b)
    · rwa [heq, ← hi.same rfl, ← heq]
    · rwa [← hi.map k heq]

/-- A slot that is free to be taken is filled. -/
theorem fillSlot_run {dirty : Bool} (readahead : Bool) (h : Coherent s M)
    (hready : s.dataReady = true) (hi : Installs s M M' m b X dirty)
    (hfree : dataKey (s.dataSlots i) = none ∨ (s.dataSlots i).dirty = false)
    (hother : ∀ j, j ≠ i → dataKey (s.dataSlots j) ≠ some (m, b)) :
    ∃ s', (dataCacheFillSlot i m b X dirty readahead).run s = (.ok (), s') ∧ Coherent s' M' ∧
      SameMounts s s' := by
  obtain ⟨clock, hrun⟩ := dataCacheFillSlot_run s i m b X dirty readahead
  refine ⟨_, hrun, ?_, fun _ => rfl⟩
  have hsim : Similar s { s with clock := clock } := ⟨rfl, id, rfl, fun _ => .rfl⟩
  exact (h.similar hsim).fillData hready hi.reach hfree hother hi.apart hi.map hi.content hi.same

private theorem dataCacheEvict_run (h : Coherent s M) (i : SlotIdx) (m b : Nat) :
    ∃ s', (dataCacheEvict i m b).run s = (.ok (), s') ∧ Coherent s' M ∧ DataFlushed s i s' := by
  rw [dataCacheEvict, bind_of_ok (run_get s)]
  dsimp only
  split
  · exact dataCacheFlushSlot_run h i
  · rename_i hcond
    exact ⟨s, rfl, h, .refl fun hvalid => Bool.eq_false_iff.mpr fun hd => hcond ⟨hvalid, Or.inl hd⟩⟩

/-- The slot for a block after it has been written out: free, and the only one for the block. -/
theorem DataFlushed.others_ne (h : DataFlushed s i s')
    (hother : ∀ j, some i ≠ some j → dataKey (s.dataSlots j) ≠ some k) :
    ∀ j, j ≠ i → dataKey (s'.dataSlots j) ≠ some k := by
  intro j hj
  rw [h.others j hj]
  exact hother j fun heq => hj (Option.some.inj heq).symm

private theorem dataCacheInstallSlot_run {dirty : Bool} (readahead : Bool) (h : Coherent s M)
    (hi : Installs s M M' m b X dirty) :
    ∃ s', (dataCacheInstallSlot m b X dirty readahead).run s = (.ok (), s') ∧ Coherent s' M' ∧
      SameMounts s s' := by
  obtain ⟨ready, s₁, hensure, hsim₁, hready⟩ := dataCacheEnsure_run s
  have h₁ := h.similar hsim₁
  have hi₁ := hi.of_sameMounts hsim₁.sameMounts hsim₁.writeSlots
  rw [dataCacheInstallSlot, bind_of_ok (run_get s), bind_of_ok (require_of_pos hi.reach.1),
    bind_of_ok hensure]
  cases ready with
  | false =>
    -- no table: there is no copy either
    have hnone : ∀ j, dataKey (s₁.dataSlots j) ≠ some (m, b) := fun j => by
      rw [h₁.dataTable hready j]
      simp
    obtain ⟨s₂, hrun, hcoh, hmounts⟩ := writeIfDirty_run h₁ hi₁ fun _ => hnone
    exact ⟨s₂, hrun, hcoh, hsim₁.sameMounts.trans hmounts⟩
  | true =>
    rw [if_pos rfl]
    obtain ⟨o, s₂, hslot, hsim₂, hother⟩ := dataCacheSlotFor_run h₁ m b (!dirty)
    have hsim := hsim₁.trans hsim₂
    have h₂ := h.similar hsim
    have hi₂ := hi.of_sameMounts hsim.sameMounts hsim.writeSlots
    have hready₂ : s₂.dataReady = true := by
      refine Bool.eq_true_of_not_eq_false fun hfalse => ?_
      rw [hsim₂.ready hfalse] at hready
      exact absurd hready (by decide)
    rw [bind_of_ok hslot]
    cases o with
    | none =>
      obtain ⟨s₃, hrun, hcoh, hmounts⟩ := writeIfDirty_run h₂ hi₂ fun _ j => hother j (by simp)
      exact ⟨s₃, hrun, hcoh, hsim.sameMounts.trans hmounts⟩
    | some i =>
      obtain ⟨s₃, hevict, h₃, hflushed⟩ := dataCacheEvict_run h₂ i m b
      have hi₃ := hi₂.of_sameMounts hflushed.mounts hflushed.writeSlots
      obtain ⟨s₄, hfill, h₄, hmounts₄⟩ := fillSlot_run readahead h₃
        (hflushed.ready.trans hready₂) hi₃ hflushed.free (hflushed.others_ne hother)
      have hmounts : SameMounts s s₄ := (hsim.sameMounts.trans hflushed.mounts).trans hmounts₄
      rw [bind_of_ok hevict, bind_of_ok hfill]
      split
      · obtain ⟨s₅, hpressure, hflushing⟩ := dataCacheFlushPressure_run h₄ m
        exact ⟨s₅, hpressure, hflushing.coherent, hmounts.trans hflushing.mounts⟩
      · exact ⟨s₄, rfl, h₄, hmounts⟩

/-- The map after the block `b` of the volume `m` has been written. -/
def written (M : BlockMap) (m b : Nat) (X : Block) : BlockMap := update M (m, b) (some X)

/-- The map after the block `b` of the volume `m` has been freed. -/
def forgotten (M : BlockMap) (m b : Nat) : BlockMap := update M (m, b) none

private theorem Coherent.forget (h : Coherent s M) (m b : Nat) : Coherent s (forgotten M m b) := by
  refine h.mono fun k c _ hk => ⟨c, ?_, .refl c⟩
  by_cases heq : k = (m, b)
  · rw [heq, forgotten, update_self] at hk
    exact absurd hk (by simp)
  · rwa [forgotten, update_of_ne heq] at hk

private theorem forgotten_self (M : BlockMap) (m b : Nat) : forgotten M m b (m, b) = none :=
  update_self _ _ _

private theorem written_of_ne {M : BlockMap} (h : k ≠ (m, b)) :
    written M m b X k = forgotten M m b k := by
  rw [written, forgotten, update_of_ne h, update_of_ne h]

private theorem written_content {c : Block} (mnt : Mount) (h : written M m b X (m, b) = some c) :
    SameContent mnt X c := by
  rw [written, update_self] at h
  rw [Option.some.inj h]
  exact .refl _

/-- A write past the caches, when they hold no copy of the block. -/
theorem writeThrough_run {x : RawM Unit} (h : Coherent s (forgotten M m b))
    (hrun : x.run (s.vols m) = (.ok (), v')) (hstored : Stored (s.vols m) b X v')
    (hw : ∀ i, writeKey (s.writeSlots i) ≠ some (m, b))
    (hd : ∀ i, dataKey (s.dataSlots i) ≠ some (m, b)) :
    ∃ s', (onVolume m x).run s = (.ok (), s') ∧ Coherent s' (written M m b X) ∧ SameMounts s s' ∧
      s'.dataSlots = s.dataSlots :=
  ⟨_, onVolume_run hrun, h.writeThrough hstored hw hd (fun _ => written_of_ne)
    (fun _ => written_content _), setVol_mnt hstored, rfl⟩

/-- No slot holds a block of the journal. -/
theorem Coherent.journal_no_slot (h : Coherent s M) (hj : (s.vols m).mnt.blockIsJournal b = true) :
    (∀ i, writeKey (s.writeSlots i) ≠ some (m, b)) ∧
      ∀ i, dataKey (s.dataSlots i) ≠ some (m, b) := by
  constructor
  · intro i hi
    have := (h.writeReach i _ hi).2
    rw [hj] at this
    exact absurd this (by decide)
  · intro i hi
    have := (h.dataReach i _ hi).2
    rw [hj] at this
    exact absurd this (by decide)

/-- A data write is the last write of its block. -/
theorem cachedWriteDataBlock_run (h : Coherent s M) (hlt : b < (s.vols m).mnt.blocksCount)
    (X : Block) :
    ∃ s', (cachedWriteDataBlock m b X).run s = (.ok (), s') ∧ Coherent s' (written M m b X) ∧
      SameMounts s s' := by
  have h₁ := (h.forget m b).discardWrite (forgotten_self M m b)
  rw [cachedWriteDataBlock, bind_of_ok (run_get s), bind_of_ok (require_of_pos hlt),
    bind_of_ok (run_modify _ _), dataCacheStoreBlock, bind_of_ok (run_get _),
    bind_of_ok (require_of_pos (by exact hlt))]
  split
  · rename_i hj
    obtain ⟨v', hwrite, hstored⟩ := rawWriteBlock_stored hlt X
    have hnone := h₁.journal_no_slot hj
    obtain ⟨s', hrun, hcoh, hmounts, -⟩ := writeThrough_run h₁ hwrite hstored hnone.1 hnone.2
    exact ⟨s', hrun, hcoh, hmounts⟩
  rename_i hj
  have hi : Installs (s.writeCacheDiscardBlock m b) (forgotten M m b)
      (written M m b X) m b X true :=
    { reach := ⟨hlt, Bool.eq_false_iff.mpr hj⟩
      apart := fun _ => discardWrite_none s m b
      map := fun _ => written_of_ne
      content := fun _ => written_content _
      same := fun hd => absurd hd (by decide) }
  exact dataCacheInstallSlot_run false h₁ hi

/-! ### Reading -/

/-- A copy of the block that a read may return. -/
def Reads (s : Cached) (M : BlockMap) (m b : Nat) (X : Block) : Prop :=
  (s.vols m).mnt.blockIsJournal b = false → ∀ c, M (m, b) = some c → SameContent (s.vols m).mnt X c

private theorem rawReadBlock_onVolume (hlt : b < (s.vols m).mnt.blocksCount) :
    (onVolume m (rawReadBlock b)).run s = (.ok ((s.vols m).disk b), s) := by
  rw [onVolume_run (rawReadBlock_run hlt), setVol, update_eq_self]

/-- A block without a copy is read from the device. -/
theorem Coherent.reads_disk (h : Coherent s M) (hlt : b < (s.vols m).mnt.blocksCount)
    (hw : ∀ i, writeKey (s.writeSlots i) ≠ some (m, b))
    (hd : ∀ i, dataKey (s.dataSlots i) ≠ some (m, b)) : Reads s M m b ((s.vols m).disk b) :=
  fun hj c hc => h.diskVal (m, b) c ⟨hlt, hj⟩ hc hw fun j hj => absurd hj (hd j)

/-- A metadata read gets the last write. -/
theorem cachedReadBlock_run (h : Coherent s M) (hlt : b < (s.vols m).mnt.blocksCount) :
    ∃ X s', (cachedReadBlock m b).run s = (.ok X, s') ∧ Similar s s' ∧ Reads s M m b X := by
  rw [cachedReadBlock, bind_of_ok (run_get s), bind_of_ok (require_of_pos hlt)]
  rcases writeCacheFindSlot_spec s m b with ⟨i, hfind, hkey⟩ | ⟨hfind, hnone⟩
  · rw [hfind]
    exact ⟨_, s, rfl, .refl s, fun _ c hc => h.writeVal i _ c hkey hc⟩
  rw [hfind]
  rcases dataCacheFindSlot_run s m b with ⟨i, s', hdata, hsim, hkey⟩ | ⟨hdata, hnd⟩
  · rw [bind_of_ok hdata]
    exact ⟨_, s', rfl, hsim, fun _ c hc => h.dataVal i _ c hkey hc⟩
  · rw [bind_of_ok hdata]
    exact ⟨_, s, rawReadBlock_onVolume hlt, .refl s, h.reads_disk hlt hnone hnd⟩

private theorem dataCacheStoreCleanBlock_run (h : Coherent s M) (readahead : Bool)
    (hlt : b < (s.vols m).mnt.blocksCount) (hX : Reads s M m b X) :
    ∃ s', (dataCacheStoreCleanBlock m b X readahead).run s = (.ok (), s') ∧ Coherent s' M ∧
      SameMounts s s' := by
  rw [dataCacheStoreCleanBlock, bind_of_ok (run_get s), bind_of_ok (require_of_pos hlt)]
  split
  · exact ⟨s, rfl, h, .refl s⟩
  rename_i hj
  rcases dataCacheFindSlot_run s m b with ⟨i, s', hdata, hsim, -⟩ | ⟨hdata, -⟩
  · rw [bind_of_ok hdata]
    exact ⟨s', rfl, h.similar hsim, hsim.sameMounts⟩
  rw [bind_of_ok hdata]
  exact dataCacheInstallSlot_run readahead h
    (.clean ⟨hlt, Bool.eq_false_iff.mpr hj⟩ (hX (Bool.eq_false_iff.mpr hj)))

private theorem dataCacheVacate_run (h : Coherent s M) (i : SlotIdx) (m b : Nat) :
    ∃ s', (dataCacheVacate i m b).run s = (.ok (), s') ∧ Coherent s' M ∧ DataFlushed s i s' := by
  rw [dataCacheVacate, bind_of_ok (run_get s)]
  dsimp only
  split
  · exact dataCacheFlushSlot_run h i
  rename_i hclean
  split
  · rename_i hheld
    refine ⟨_, rfl, h.dropData _ fun k c _ hd => absurd ⟨hheld.1, hd⟩ hclean,
      fun _ => rfl, rfl, rfl, fun j hj => setDataSlot_of_ne hj _, Or.inl ?_⟩
    rw [setDataSlot_self, dataKey_drop]
  · exact ⟨s, rfl, h, .refl fun hvalid => Bool.eq_false_iff.mpr fun hd => hclean ⟨hvalid, hd⟩⟩

/-- Preparing a slot for a block may fail for lack of memory; the caches stay coherent. -/
theorem dataCachePrepareSlot_run (h : Coherent s M) (preferClean : Bool)
    (hlt : b < (s.vols m).mnt.blocksCount) :
    ∃ r s', (dataCachePrepareSlot m b preferClean).run s = (r, s') ∧ Coherent s' M ∧
      SameMounts s s' ∧ s'.writeSlots = s.writeSlots ∧
      ∀ i, r = .ok i → s'.dataReady = true ∧
        (dataKey (s'.dataSlots i) = none ∨ (s'.dataSlots i).dirty = false) ∧
        ∀ j, j ≠ i → dataKey (s'.dataSlots j) ≠ some (m, b) := by
  obtain ⟨ready, s₁, hensure, hsim₁, hready⟩ := dataCacheEnsure_run s
  have h₁ := h.similar hsim₁
  rw [dataCachePrepareSlot, bind_of_ok (run_get s), bind_of_ok (require_of_pos hlt),
    bind_of_ok hensure]
  cases ready with
  | false =>
    exact ⟨_, s₁, rfl, h₁, hsim₁.sameMounts, hsim₁.writeSlots, fun i hi => absurd hi (by simp)⟩
  | true =>
    obtain ⟨o, s₂, hslot, hsim₂, hother⟩ := dataCacheSlotFor_run h₁ m b preferClean
    have hsim := hsim₁.trans hsim₂
    have h₂ := h.similar hsim
    rw [bind_of_ok (require_of_pos rfl), bind_of_ok hslot]
    cases o with
    | none =>
      exact ⟨_, s₂, rfl, h₂, hsim.sameMounts, hsim.writeSlots, fun i hi => absurd hi (by simp)⟩
    | some i =>
      obtain ⟨s₃, hvacate, h₃, hflushed⟩ := dataCacheVacate_run h₂ i m b
      rw [bind_of_ok hvacate, run_pure]
      refine ⟨_, s₃, rfl, h₃, hsim.sameMounts.trans hflushed.mounts,
        hflushed.writeSlots.trans hsim.writeSlots, fun j hj => ?_⟩
      obtain rfl : i = j := Except.ok.inj hj
      refine ⟨?_, hflushed.free, hflushed.others_ne hother⟩
      rw [hflushed.ready]
      refine Bool.eq_true_of_not_eq_false fun hfalse => ?_
      rw [hsim₂.ready hfalse] at hready
      exact absurd hready (by decide)

/-- Reading ahead shows nobody a change. -/
theorem readaheadLoop_run (m count : Nat) (h : Coherent s M) (next : Nat) :
    ∃ s', (readaheadLoop m count next).run s = (.ok (), s') ∧ Coherent s' M ∧ SameMounts s s' := by
  induction count generalizing s next with
  | zero => exact ⟨s, rfl, h, .refl s⟩
  | succ count ih =>
    rw [readaheadLoop, bind_of_ok (run_get s)]
    split
    · exact ⟨s, rfl, h, .refl s⟩
    rename_i hin
    obtain ⟨hlt, hj⟩ : next < (s.vols m).mnt.blocksCount ∧
        (s.vols m).mnt.blockIsJournal next = false := by
      simpa [not_or] using hin
    rcases dataCacheFindSlot_run s m next with ⟨i, s₁, hdata, hsim, -⟩ | ⟨hdata, hnd⟩
    · rw [bind_of_ok hdata, if_pos (Or.inl Option.isSome_some)]
      obtain ⟨s₂, hrun, hcoh, hmounts⟩ := ih (h.similar hsim) (next + 1)
      exact ⟨s₂, hrun, hcoh, hsim.sameMounts.trans hmounts⟩
    rw [bind_of_ok hdata]
    rcases writeCacheFindSlot_spec s m next with ⟨i, hfind, -⟩ | ⟨hfind, hnw⟩
    · rw [if_pos (Or.inr (by rw [hfind]; rfl))]
      exact ih h (next + 1)
    rw [if_neg (by rw [hfind]; simp)]
    obtain ⟨r, s₁, hprepare, h₁, hmounts₁, hwrite₁, hslot⟩ := dataCachePrepareSlot_run h true hlt
    rw [bind_of_ok (attempt_ok.mpr hprepare)]
    cases r with
    | error e => exact ⟨s₁, rfl, h₁, hmounts₁⟩
    | ok i =>
      obtain ⟨hready, hfree, hother⟩ := hslot i rfl
      have hlt₁ : next < (s₁.vols m).mnt.blocksCount := by rwa [hmounts₁ m]
      have hj₁ : (s₁.vols m).mnt.blockIsJournal next = false := by rwa [hmounts₁ m]
      -- no copy: the write cache has none, the slot itself is not dirty
      have hreads : ∀ c, M (m, next) = some c →
          SameContent (s₁.vols m).mnt ((s₁.vols m).disk next) c := by
        intro c hc
        refine h₁.diskVal (m, next) c ⟨hlt₁, hj₁⟩ hc (by rw [hwrite₁]; exact hnw) fun j hjk => ?_
        by_cases hji : j = i
        · subst hji
          rcases hfree with hnone | hclean
          · rw [hnone] at hjk
            exact absurd hjk (by simp)
          · exact hclean
        · exact absurd hjk (hother j hji)
      obtain ⟨s₂, hfill, h₂, hmounts₂⟩ :=
        fillSlot_run true h₁ hready (.clean ⟨hlt₁, hj₁⟩ hreads) hfree hother
      rw [bind_of_ok (rawReadBlock_onVolume hlt₁), bind_of_ok hfill]
      obtain ⟨s₃, hrun, hcoh, hmounts₃⟩ := ih h₂ (next + 1)
      exact ⟨s₃, hrun, hcoh, (hmounts₁.trans hmounts₂).trans hmounts₃⟩

/-- A data read gets the last write. -/
theorem cachedReadDataBlock_run (h : Coherent s M) (hlt : b < (s.vols m).mnt.blocksCount) :
    ∃ X s', (cachedReadDataBlock m b).run s = (.ok X, s') ∧ Coherent s' M ∧ SameMounts s s' ∧
      Reads s M m b X := by
  rw [cachedReadDataBlock, bind_of_ok (run_get s), bind_of_ok (require_of_pos hlt)]
  rcases dataCacheFindSlot_run s m b with ⟨i, s', hdata, hsim, hkey⟩ | ⟨hdata, -⟩
  · rw [bind_of_ok hdata]
    exact ⟨_, s', rfl, h.similar hsim, hsim.sameMounts, fun _ c hc => h.dataVal i _ c hkey hc⟩
  rw [bind_of_ok hdata]
  obtain ⟨X, s₁, hread, hsim, hX⟩ := cachedReadBlock_run h hlt
  have hmounts₁ := hsim.sameMounts
  have hX₁ : Reads s₁ M m b X := by
    rw [Reads, hmounts₁ m]
    exact hX
  obtain ⟨s₂, hstore, h₂, hmounts₂⟩ :=
    dataCacheStoreCleanBlock_run (h.similar hsim) false (by rwa [hmounts₁ m]) hX₁
  obtain ⟨s₃, hahead, h₃, hmounts₃⟩ := readaheadLoop_run m 2 h₂ (b + 1)
  refine ⟨X, s₃, ?_, h₃, (hmounts₁.trans hmounts₂).trans hmounts₃, hX⟩
  rw [bind_of_ok hread, bind_of_ok hstore, dataCacheReadahead, bind_of_ok hahead, run_pure]

/-! ### Writing metadata -/

/-- The slot of the write cache for a block: free or held by the block, and the only one for it. -/
theorem writeCacheSlotFor_run (h : Coherent s M) (m b : Nat) :
    ∃ i s', (writeCacheSlotFor m b).run s = (.ok i, s') ∧ Coherent s' M ∧ SameMounts s s' ∧
      s'.dataSlots = s.dataSlots ∧
      (writeKey (s'.writeSlots i) = none ∨ writeKey (s'.writeSlots i) = some (m, b)) ∧
      ∀ j, j ≠ i → writeKey (s'.writeSlots j) ≠ some (m, b) := by
  rw [writeCacheSlotFor, bind_of_ok (run_get s)]
  rcases writeCacheFindSlot_spec s m b with ⟨i, hfind, hkey⟩ | ⟨hfind, hnone⟩
  · rw [hfind]
    exact ⟨i, s, rfl, h, .refl s, rfl, Or.inr hkey, fun j hj hjk => hj (h.writeInj j i _ hjk hkey)⟩
  rw [hfind]
  cases hfree : slotList.find? fun i => !(s.writeSlots i).valid with
  | some i =>
    have hvalid : (s.writeSlots i).valid = false := by simpa using find_slot_some hfree
    refine ⟨i, s, rfl, h, .refl s, rfl, Or.inl ?_, fun j _ => hnone j⟩
    rw [writeKey, hvalid]
    rfl
  | none =>
    obtain ⟨s', hflush, hcoh, hflushed⟩ := writeCacheFlushSlotWithMount_run h m 0
    refine ⟨0, s', by rw [bind_of_ok hflush, run_pure], hcoh, hflushed.mounts, hflushed.dataSlots,
      Or.inl hflushed.slot, fun j hj => ?_⟩
    rw [hflushed.others j hj]
    exact hnone j

private theorem writeCacheFill_run (h : Coherent s (forgotten M m b)) (X : Block)
    (hr : InReach s (m, b)) (hd : ∀ i, dataKey (s.dataSlots i) ≠ some (m, b)) :
    ∃ s', (writeCacheFill m b X).run s = (.ok (), s') ∧ Coherent s' (written M m b X) ∧
      SameMounts s s' ∧ s'.dataSlots = s.dataSlots := by
  obtain ⟨i, s₁, hslot, h₁, hmounts, hdata, hfree, hother⟩ := writeCacheSlotFor_run h m b
  rw [writeCacheFill, bind_of_ok hslot, run_modify]
  refine ⟨_, rfl, ?_, hmounts, hdata⟩
  exact h₁.fillWrite (hmounts.reach.mpr hr) hfree hother (by rw [hdata]; exact hd)
    (fun _ => written_of_ne) (fun _ => written_content _)

/-- A metadata write is the last write of its block, and no data slot holds an older one. -/
theorem cachedWriteBlock_run (h : Coherent s M) (hlt : b < (s.vols m).mnt.blocksCount) (X : Block) :
    ∃ s', (cachedWriteBlock m b X).run s = (.ok (), s') ∧ Coherent s' (written M m b X) ∧
      SameMounts s s' ∧ s'.dataSlots = (s.dataCacheDiscardBlock m b).dataSlots := by
  have h₁ := (h.forget m b).discardData (forgotten_self M m b)
  have hd := discardData_none s m b
  obtain ⟨v', hcommit, hstored⟩ := journalCommit_stored hlt X
  rw [cachedWriteBlock, bind_of_ok (run_get s), bind_of_ok (require_of_pos hlt),
    bind_of_ok (run_modify _ _)]
  split
  · rename_i hj
    exact writeThrough_run h₁ hcommit hstored (h₁.journal_no_slot hj).1 hd
  rename_i hj
  have hr : InReach (s.dataCacheDiscardBlock m b) (m, b) := ⟨hlt, Bool.eq_false_iff.mpr hj⟩
  split
  · exact writeCacheFill_run h₁ X hr hd
  rename_i hfind
  have hnone : ∀ i, writeKey (s.writeSlots i) ≠ some (m, b) := by
    rcases writeCacheFindSlot_spec s m b with ⟨i, hsome, -⟩ | ⟨-, hnone⟩
    · rw [hsome] at hfind
      exact absurd rfl hfind
    · exact hnone
  obtain ⟨ready, s₂, hensure, hsim, hdata⟩ := writeCacheEnsure_run (s.dataCacheDiscardBlock m b)
  have h₂ := h₁.similar hsim
  rw [bind_of_ok hensure]
  cases ready with
  | true =>
    obtain ⟨s₃, hfill, hcoh, hmounts, hdata₃⟩ := writeCacheFill_run h₂ X
      (hsim.sameMounts.reach.mpr hr) (by rw [hdata]; exact hd)
    exact ⟨s₃, hfill, hcoh, hsim.sameMounts.trans hmounts, hdata₃.trans hdata⟩
  | false =>
    have hvol : s₂.vols m = s.vols m := congrFun hsim.vols m
    obtain ⟨s₃, hrun, hcoh, hmounts, hdata₃⟩ := writeThrough_run h₂ (by rw [hvol]; exact hcommit)
      (by rw [hvol]; exact hstored) (by rw [hsim.writeSlots]; exact hnone) (by rw [hdata]; exact hd)
    exact ⟨s₃, hrun, hcoh, hsim.sameMounts.trans hmounts, hdata₃.trans hdata⟩

/-! ### Freeing and invalidating -/

/-- After a discard nothing is known of the block. -/
theorem cachedDiscardBlock_run (h : Coherent s M) (m b : Nat) :
    ∃ s', (cachedDiscardBlock m b).run s = (.ok (), s') ∧ Coherent s' (forgotten M m b) ∧
      SameMounts s s' := by
  exact ⟨_, rfl, ((h.forget m b).discardWrite (forgotten_self M m b)).discardData
    (forgotten_self M m b), fun _ => rfl⟩

/-- Dropping clean copies of a volume. -/
theorem Coherent.discardCleanData (h : Coherent s M) (m : Nat) :
    Coherent (s.dataCacheDiscardCleanMount m) M := by
  refine h.emptied ⟨rfl, id, fun _ => .inl rfl, fun j => ?_⟩ fun k c hl hk => ?_
  · simp only [dataCacheDiscardCleanMount]
    split
    · exact .inr (dataKey_drop _)
    · exact .inl .rfl
  · rcases hl with ⟨j, -, hne⟩ | ⟨j, -, hdirty, hne⟩
    · exact absurd rfl hne
    · exact absurd (congrArg dataKey (if_neg (by simp [hdirty]))) hne

/-- The write cache has no clean copies. -/
theorem Coherent.writeCacheDiscardCleanMount_eq (h : Coherent s M) (m : Nat) :
    s.writeCacheDiscardCleanMount m = s := by
  have hslots : (s.writeCacheDiscardCleanMount m).writeSlots = s.writeSlots := by
    funext i
    refine if_neg fun hcond => ?_
    simp only [Bool.and_eq_true, Bool.not_eq_true'] at hcond
    rw [h.writeDirty i hcond.1.1] at hcond
    exact absurd hcond.2 (by decide)
  rw [writeCacheDiscardCleanMount] at hslots ⊢
  dsimp only at hslots
  rw [hslots]

/-- Dropping the read caches shows nobody a change. -/
theorem ext4FlushAndInvalidateReadCaches_run (h : Coherent s M) (m : Nat) :
    ∃ s', (ext4FlushAndInvalidateReadCaches m).run s = (.ok (), s') ∧ Coherent s' M ∧
      SameMounts s s' := by
  obtain ⟨s₁, hdata, h₁, -⟩ := ext4FlushDataCacheForMount_run h m
  obtain ⟨s₂, hwrite, h₂, -⟩ := ext4FlushWriteCacheForMount_run h₁.coherent m
  have h₃ := h₂.coherent.discardCleanData m
  rw [ext4FlushAndInvalidateReadCaches, bind_of_ok hdata, bind_of_ok hwrite,
    bind_of_ok (run_modify _ _), run_modify, h₃.writeCacheDiscardCleanMount_eq]
  exact ⟨_, rfl, h₃, h₁.mounts.trans h₂.mounts⟩

/-! ### Sync -/

/-- The block of a volume that the superblock is in. -/
def superBlock (mnt : Mount) : Nat := 1024 / mnt.blockSize

/-- The map after the superblock has been written: nothing is said about a block of which nothing
was known. -/
def superWritten (M : BlockMap) (mnt : Mount) (m : Nat) (sb : Block) : BlockMap :=
  update M (m, superBlock mnt)
    ((M (m, superBlock mnt)).map fun c => c.overlay (1024 % mnt.blockSize) 1024 sb)

private theorem overlay_same {mnt : Mount} {a b : Block} (h : SameContent mnt a b) (off count : Nat)
    (new : Block) : SameContent mnt (a.overlay off count new) (b.overlay off count new) := by
  intro i hi
  simp only [Block.overlay, h i hi]

private theorem cachedWriteSuper_run (h : Coherent s M)
    (hlt : superBlock (s.vols m).mnt < (s.vols m).mnt.blocksCount) (sb : Block) :
    ∃ s', (cachedWriteSuper m sb).run s = (.ok (), s') ∧
      Coherent s' (superWritten M (s.vols m).mnt m sb) ∧ SameMounts s s' ∧
      ∀ i, DataClean m i s → DataClean m i s' := by
  obtain ⟨X, s₁, hread, hsim, hX⟩ := cachedReadBlock_run h hlt
  have hmnt : (s₁.vols m).mnt = (s.vols m).mnt := hsim.sameMounts m
  obtain ⟨s₂, hwrite, h₂, hmounts, hdata⟩ := cachedWriteBlock_run (h.similar hsim)
    (by rw [hmnt]; exact hlt) (X.overlay (1024 % (s.vols m).mnt.blockSize) 1024 sb)
  have hmounts₂ := hsim.sameMounts.trans hmounts
  refine ⟨s₂, ?_, h₂.mono fun k c hr hk => ?_, hmounts₂, fun i hi b hkey => ?_⟩
  · exact (bind_of_ok hread).trans hwrite
  · by_cases heq : k = (m, superBlock (s.vols m).mnt)
    · -- what was known of the block is known of the copy that was read
      subst heq
      rw [superWritten, update_self, Option.map_eq_some_iff] at hk
      obtain ⟨c₀, hc₀, rfl⟩ := hk
      refine ⟨_, update_self _ _ _, ?_⟩
      rw [hmounts₂ m]
      exact overlay_same (hX (hmounts₂.reach.mp hr).2 c₀ hc₀) _ _ sb
    · rw [superWritten, update_of_ne heq] at hk
      exact ⟨c, by rw [written, update_of_ne heq, hk], .refl c⟩
  · rw [hdata] at hkey ⊢
    simp only [dataCacheDiscardBlock] at hkey ⊢
    split at hkey
    · exact absurd hkey (by simp)
    rename_i hat
    rw [if_neg hat, (hsim.dataSlots i).dirty]
    exact hi b (by rw [← (hsim.dataSlots i).key]; exact hkey)

/-- The volume `m` of the state holds the map on its device. -/
def OnDevice (s : Cached) (M : BlockMap) (m : Nat) : Prop :=
  ∀ b c, InReach s (m, b) → M (m, b) = some c → SameContent (s.vols m).mnt ((s.vols m).disk b) c

private theorem Coherent.onDevice (h : Coherent s M)
    (hw : ∀ i b, writeKey (s.writeSlots i) ≠ some (m, b))
    (hd : ∀ i, DataClean m i s) : OnDevice s M m :=
  fun b c hr hc => h.diskVal (m, b) c hr hc (fun i => hw i b) fun j hj => hd j b hj

/-- Clearing the journal writes to the journal alone. -/
theorem journalClear_stored (v : RawVolume) :
    ∃ v', journalClear.run v = (.ok (), v') ∧ v'.mnt = v.mnt ∧
      ∀ b, v.mnt.blockIsJournal b = false → v'.disk b = v.disk b := by
  rw [journalClear, bind_of_ok (run_get v)]
  split
  · exact ⟨v, rfl, rfl, fun _ _ => rfl⟩
  rename_i hblocks
  have hblocks : v.mnt.journalBlocks = 2 := by
    have := v.mnt.journal_mem
    omega
  have hfirst := journal_blocks_eq hblocks
  rw [rawWriteBlock_run (by omega)]
  refine ⟨_, rfl, rfl, fun b hb => ?_⟩
  rw [write_disk, update_of_ne (ne_of_not_journal hblocks hb).1]

private theorem setVol_sameMounts (hmnt : v'.mnt = (s.vols m).mnt) :
    SameMounts s (setVol s m v') := by
  intro m'
  by_cases hm : m' = m
  · rw [hm, setVol_self, hmnt]
  · rw [setVol_of_ne hm]

/-- A change of the journal of a volume. -/
theorem Coherent.setVol_of_eq (h : Coherent s M) (hmnt : v'.mnt = (s.vols m).mnt)
    (hdisk : ∀ b, (s.vols m).mnt.blockIsJournal b = false → v'.disk b = (s.vols m).disk b) :
    Coherent (setVol s m v') M := by
  refine h.devices (setVol_sameMounts hmnt) (fun k c hk => .inl hk) fun k c hr hk hnw hnd => ?_
  have hsame := h.diskVal k c hr hk hnw hnd
  by_cases hm : k.1 = m
  · rw [hm, setVol_self, hdisk k.2 (by rw [← hm]; exact hr.2), ← hm]
    exact hsame
  · rw [setVol_of_ne hm]
    exact hsame

/-- After a sync the device has the last writes. -/
theorem ext4SyncMetadata_run (h : Coherent s M)
    (hlt : superBlock (s.vols m).mnt < (s.vols m).mnt.blocksCount) (sb : Block) :
    ∃ s', (ext4SyncMetadata m sb).run s = (.ok (), s') ∧
      Coherent s' (superWritten M (s.vols m).mnt m sb) ∧ SameMounts s s' ∧
      OnDevice s' (superWritten M (s.vols m).mnt m sb) m := by
  obtain ⟨s₁, hdata, h₁, hclean⟩ := ext4FlushDataCacheForMount_run h m
  have hmnt := h₁.mounts m
  obtain ⟨s₂, hsuper, h₂, hmounts₂, hclean₂⟩ := cachedWriteSuper_run h₁.coherent
    (by rw [hmnt]; exact hlt) sb
  rw [hmnt] at h₂
  obtain ⟨s₃, hwrite, h₃, hnone⟩ := ext4FlushWriteCacheForMount_run h₂ m
  have hdev : OnDevice s₃ (superWritten M (s.vols m).mnt m sb) m :=
    h₃.coherent.onDevice hnone fun i => by
      rw [DataClean, h₃.dataSlots]
      exact hclean₂ i (hclean i)
  obtain ⟨v', hclear, hmnt', hdisk⟩ := journalClear_stored (s₃.vols m)
  have hmounts : SameMounts s (setVol s₃ m v') :=
    ((h₁.mounts.trans hmounts₂).trans h₃.mounts).trans (setVol_sameMounts hmnt')
  refine ⟨setVol s₃ m v', ?_, h₃.coherent.setVol_of_eq hmnt' hdisk, hmounts, fun b c hr hc => ?_⟩
  · rw [ext4SyncMetadata, bind_of_ok hdata, bind_of_ok hsuper, bind_of_ok hwrite]
    exact onVolume_run hclear
  · rw [InReach, setVol_self, hmnt'] at hr
    rw [setVol_self, hmnt', hdisk b hr.2]
    exact hdev b c hr hc

end

end Rabbitbone.Spec.Ext4
