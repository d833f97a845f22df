import Rabbitbone.Native.Ext4.Cache
import Rabbitbone.Spec.Ext4.JournalCrash

/-!
# Coherence of the two caches

`Coherent s M` says that the caches and the devices together hold the map `M`: every cached copy of
a block has the content that `M` gives it, and a block without a dirty copy has it on the device.
Where `M` says nothing, as for a block that was freed, the copies may differ.

The lemmas of this file are the moves that all functions of the caches are made of: writing a slot
out, dropping a slot, filling a slot, writing a block past the caches.

## Key results

- `Coherent.emptied`, `Coherent.store`: slots are emptied, a device gets a content.
- `Coherent.flushData`, `Coherent.flushWrite`: writing a dirty slot out.
- `Coherent.dropData`, `Coherent.discardData`, `Coherent.discardWrite`: dropping slots.
- `Coherent.fillData`, `Coherent.fillWrite`, `Coherent.writeThrough`: a new content.
-/

namespace Rabbitbone.Spec.Ext4

open Native.Ext4 FallibleState SectorDisk Function Option

variable {s' : Cached} {v : RawVolume}

/-- A block of a volume. -/
abbrev Key := Nat × Nat

/-- What the blocks of the volumes hold; nothing is said about a freed block. -/
abbrev BlockMap := Key → Option Block

/-- The block that a slot of the write cache holds. -/
def writeKey (w : WriteSlot) : Option Key := if w.valid then some (w.vol, w.block) else none

/-- The block that a slot of the data cache holds. -/
def dataKey (d : DataSlot) : Option Key := if d.valid then some (d.vol, d.block) else none

variable {m b : Nat} {d : DataSlot} {k k₀ : Key} {s : Cached} {M M' : BlockMap} {v' : RawVolume}
  {X : Block} {i j : SlotIdx} {σ : Type} {w : WriteSlot}

/-- A write slot is at the place its key says. -/
theorem writeKey_eq_some : writeKey w = some (m, b) ↔ w.isAt m b = true := by
  simp only [writeKey, WriteSlot.isAt, Bool.and_eq_true, decide_eq_true_eq]
  cases w.valid <;> simp

/-- A data slot is at the place its key says. -/
theorem dataKey_eq_some : dataKey d = some (m, b) ↔ d.isAt m b = true := by
  simp only [dataKey, DataSlot.isAt, Bool.and_eq_true, decide_eq_true_eq]
  cases d.valid <;> simp

@[simp] theorem writeKey_drop (w : WriteSlot) : writeKey w.drop = none := rfl

@[simp] theorem dataKey_drop (d : DataSlot) : dataKey d.drop = none := rfl

theorem valid_of_dataKey (h : dataKey d = some k) :
    d.valid = true ∧ d.vol = k.1 ∧ d.block = k.2 := by
  have hat := dataKey_eq_some.mp h
  simpa [DataSlot.isAt, and_assoc] using hat

theorem valid_of_writeKey (h : writeKey w = some k) :
    w.valid = true ∧ w.vol = k.1 ∧ w.block = k.2 := by
  have hat := writeKey_eq_some.mp h
  simpa [WriteSlot.isAt, and_assoc] using hat

/-- The block is on the volume and not in its journal. -/
def InReach (s : Cached) (k : Key) : Prop :=
  k.2 < (s.vols k.1).mnt.blocksCount ∧ (s.vols k.1).mnt.blockIsJournal k.2 = false

/-- The caches and the devices together hold the map `M`. -/
structure Coherent (s : Cached) (M : BlockMap) : Prop where
  dataTable : s.dataReady = false → ∀ i, dataKey (s.dataSlots i) = none
  writeDirty : ∀ i, (s.writeSlots i).valid = true → (s.writeSlots i).dirty = true
  writeReach : ∀ i k, writeKey (s.writeSlots i) = some k → InReach s k
  dataReach : ∀ i k, dataKey (s.dataSlots i) = some k → InReach s k
  writeInj : ∀ i j k, writeKey (s.writeSlots i) = some k →
    writeKey (s.writeSlots j) = some k → i = j
  dataInj : ∀ i j k, dataKey (s.dataSlots i) = some k → dataKey (s.dataSlots j) = some k → i = j
  apart : ∀ i j k, writeKey (s.writeSlots i) = some k → dataKey (s.dataSlots j) = some k →
    (s.dataSlots j).dirty = false
  writeVal : ∀ i k c, writeKey (s.writeSlots i) = some k → M k = some c →
    SameContent (s.vols k.1).mnt (s.writeSlots i).data c
  dataVal : ∀ i k c, dataKey (s.dataSlots i) = some k → M k = some c →
    SameContent (s.vols k.1).mnt (s.dataSlots i).data c
  diskVal : ∀ k c, InReach s k → M k = some c → (∀ i, writeKey (s.writeSlots i) ≠ some k) →
    (∀ j, dataKey (s.dataSlots j) = some k → (s.dataSlots j).dirty = false) →
    SameContent (s.vols k.1).mnt ((s.vols k.1).disk k.2) c

/-! ### Moves that change nothing -/

/-- The slots hold the same, whatever their age. -/
structure SameSlot (d d' : DataSlot) : Prop where
  key : dataKey d' = dataKey d
  dirty : d'.dirty = d.dirty
  data : d'.data = d.data

theorem SameSlot.rfl {d : DataSlot} : SameSlot d d := ⟨Eq.refl _, Eq.refl _, Eq.refl _⟩

/-- The states hold the same in all their slots and on the devices. -/
structure Similar (s s' : Cached) : Prop where
  vols : s'.vols = s.vols
  ready : s'.dataReady = false → s.dataReady = false
  writeSlots : s'.writeSlots = s.writeSlots
  dataSlots : ∀ i, SameSlot (s.dataSlots i) (s'.dataSlots i)

theorem Similar.refl (s : Cached) : Similar s s := ⟨rfl, id, rfl, fun _ => .rfl⟩

theorem Similar.trans {s'' : Cached} (h : Similar s s') (h' : Similar s' s'') : Similar s s'' where
  vols := h'.vols.trans h.vols
  ready := fun hready => h.ready (h'.ready hready)
  writeSlots := h'.writeSlots.trans h.writeSlots
  dataSlots i := ⟨(h'.dataSlots i).key.trans (h.dataSlots i).key,
      (h'.dataSlots i).dirty.trans (h.dataSlots i).dirty,
      (h'.dataSlots i).data.trans (h.dataSlots i).data⟩

/-- Slots of `s` have been emptied in `s'`; the others hold the same, and so do the devices. -/
structure Emptied (s s' : Cached) : Prop where
  vols : s'.vols = s.vols
  ready : s'.dataReady = false → s.dataReady = false
  write : ∀ i, s'.writeSlots i = s.writeSlots i ∨ (s'.writeSlots i).valid = false
  data : ∀ i, SameSlot (s.dataSlots i) (s'.dataSlots i) ∨ dataKey (s'.dataSlots i) = none

/-- The only new content of a block was in a slot that has been emptied. -/
def Lost (s s' : Cached) (k : Key) : Prop :=
  (∃ i, writeKey (s.writeSlots i) = some k ∧
    writeKey (s'.writeSlots i) ≠ writeKey (s.writeSlots i)) ∨
  ∃ i, dataKey (s.dataSlots i) = some k ∧ (s.dataSlots i).dirty = true ∧
    dataKey (s'.dataSlots i) ≠ dataKey (s.dataSlots i)

private theorem Emptied.write_eq (hs : Emptied s s') (h : writeKey (s'.writeSlots i) = some k) :
    s'.writeSlots i = s.writeSlots i := by
  rcases hs.write i with heq | hempty
  · exact heq
  · rw [writeKey, hempty] at h
    exact absurd h (by simp)

private theorem Emptied.data_same (hs : Emptied s s') (h : dataKey (s'.dataSlots i) = some k) :
    SameSlot (s.dataSlots i) (s'.dataSlots i) := by
  rcases hs.data i with hsame | hempty
  · exact hsame
  · rw [hempty] at h
    exact absurd h (by simp)

/-- Slots may be emptied whose blocks the devices, or the map, do not miss. -/
theorem Coherent.emptied (h : Coherent s M) (hs : Emptied s s')
    (hlost : ∀ k c, Lost s s' k → M k = some c →
      SameContent (s.vols k.1).mnt ((s.vols k.1).disk k.2) c) : Coherent s' M := by
  have hreach : ∀ k, InReach s' k ↔ InReach s k := fun k => by rw [InReach, hs.vols, InReach]
  have hwrite : ∀ {i k}, writeKey (s'.writeSlots i) = some k → writeKey (s.writeSlots i) = some k :=
    fun hi => hs.write_eq hi ▸ hi
  have hdata : ∀ {i k}, dataKey (s'.dataSlots i) = some k → dataKey (s.dataSlots i) = some k :=
    fun hi => (hs.data_same hi).key ▸ hi
  constructor
  case dataTable =>
    intro hr i
    rcases hs.data i with hsame | hempty
    · exact hsame.key.trans (h.dataTable (hs.ready hr) i)
    · exact hempty
  case writeDirty =>
    intro i hi
    have heq : s'.writeSlots i = s.writeSlots i := (hs.write i).resolve_right (by simp [hi])
    rw [heq] at hi ⊢
    exact h.writeDirty i hi
  case writeReach => exact fun i k hi => (hreach k).mpr (h.writeReach i k (hwrite hi))
  case dataReach => exact fun i k hi => (hreach k).mpr (h.dataReach i k (hdata hi))
  case writeInj => exact fun i j k hi hj => h.writeInj i j k (hwrite hi) (hwrite hj)
  case dataInj => exact fun i j k hi hj => h.dataInj i j k (hdata hi) (hdata hj)
  case apart =>
    intro i j k hi hj
    rw [(hs.data_same hj).dirty]
    exact h.apart i j k (hwrite hi) (hdata hj)
  case writeVal =>
    intro i k c hi hk
    rw [hs.write_eq hi, hs.vols]
    exact h.writeVal i k c (hwrite hi) hk
  case dataVal =>
    intro i k c hi hk
    rw [(hs.data_same hi).data, hs.vols]
    exact h.dataVal i k c (hdata hi) hk
  case diskVal =>
    intro k c hr hk hnw hnd
    rw [hs.vols]
    by_cases hl : Lost s s' k
    · exact hlost k c hl hk
    -- what held the block still does, so the devices have it
    refine h.diskVal k c ((hreach k).mp hr) hk (fun i hi => ?_) fun j hj => ?_
    · exact hl (.inl ⟨i, hi, by rw [hi]; exact hnw i⟩)
    · refine Bool.eq_false_iff.mpr fun hdirty => hl (.inr ⟨j, hj, hdirty, fun heq => ?_⟩)
      have hj' := heq.trans hj
      rw [← (hs.data_same hj').dirty, hnd j hj'] at hdirty
      exact absurd hdirty (by decide)

/-- Coherence does not depend on which slot holds a block. -/
theorem Coherent.similar (h : Coherent s M) (hs : Similar s s') : Coherent s' M := by
  refine h.emptied ⟨hs.vols, hs.ready, fun i => .inl (congrFun hs.writeSlots i),
    fun i => .inl (hs.dataSlots i)⟩ fun k c hl _ => ?_
  rcases hl with ⟨i, -, hne⟩ | ⟨i, -, -, hne⟩
  · exact absurd (congrArg writeKey (congrFun hs.writeSlots i)) hne
  · exact absurd (hs.dataSlots i).key hne

/-- Saying less about the contents, or the same in other words. -/
theorem Coherent.mono {M : BlockMap} (h : Coherent s M) (hM : ∀ k c, InReach s k → M' k = some c →
      ∃ c', M k = some c' ∧ SameContent (s.vols k.1).mnt c' c) : Coherent s M' where
  dataTable := h.dataTable
  writeDirty := h.writeDirty
  writeReach := h.writeReach
  dataReach := h.dataReach
  writeInj := h.writeInj
  dataInj := h.dataInj
  apart := h.apart
  writeVal i k c hi hk := by
    obtain ⟨c', hk', hsame⟩ := hM k c (h.writeReach i k hi) hk
    exact (h.writeVal i k c' hi hk').trans hsame
  dataVal i k c hi hk := by
    obtain ⟨c', hk', hsame⟩ := hM k c (h.dataReach i k hi) hk
    exact (h.dataVal i k c' hi hk').trans hsame
  diskVal k c hr hk hw hd := by
    obtain ⟨c', hk', hsame⟩ := hM k c hr hk
    exact (h.diskVal k c' hr hk' hw hd).trans hsame

/-! ### Writing to a device -/

/-- The volume `v'` is `v` with the content `X` in the block `b`; the journal may have changed. -/
structure Stored (v : RawVolume) (b : Nat) (X : Block) (v' : RawVolume) : Prop where
  mnt : v'.mnt = v.mnt
  block : SameContent v.mnt (v'.disk b) X
  others : ∀ b', b' ≠ b → v.mnt.blockIsJournal b' = false → v'.disk b' = v.disk b'

private theorem stored_write (b : Nat) (X : Block) : Stored v b X (v.write b X) where
  mnt := rfl
  block := by
    rw [write_disk, update_self]
    exact torn_sectors_same _ _ _
  others b' hne _ := by rw [write_disk, update_of_ne hne]

theorem rawWriteBlock_stored (h : b < v.mnt.blocksCount) (X : Block) :
    ∃ v', (rawWriteBlock b X).run v = (.ok (), v') ∧ Stored v b X v' :=
  ⟨_, rawWriteBlock_run h X, stored_write b X⟩

/-- A commit stores the block and changes nothing else outside the journal. -/
theorem journalCommit_stored (h : b < v.mnt.blocksCount) (X : Block) :
    ∃ v', (journalCommitOrderedBlock b X).run v = (.ok (), v') ∧ Stored v b X v' := by
  rw [journalCommitOrderedBlock, bind_of_ok (run_get v)]
  split
  · exact rawWriteBlock_stored h X
  rename_i hdirect
  obtain ⟨-, hnot, hblocks⟩ : v.journalReady = true ∧ v.mnt.blockIsJournal b = false ∧
      v.mnt.journalBlocks = 2 := by
    have hmem := v.mnt.journal_mem
    simp only [not_or, Bool.not_eq_false, Bool.not_eq_true] at hdirect
    exact ⟨hdirect.1, hdirect.2.1, by omega⟩
  have hfirst := journal_blocks_eq hblocks
  have hcount := v.mnt.blocksCount_lt
  rw [bind_of_ok (run_modify _ _), if_neg (by omega),
    bind_of_ok (rawWriteBlock_run (by dsimp only; omega) _),
    bind_of_ok (rawWriteBlock_run (by dsimp only [RawVolume.write]; omega) _),
    rawWriteBlock_run (by dsimp only [RawVolume.write]; omega)]
  refine ⟨_, rfl, rfl, ?_, fun b' hne hj => ?_⟩
  · rw [write_disk, update_self]
    exact torn_sectors_same _ _ _
  · have hne' := ne_of_not_journal hblocks hj
    rw [write_disk, update_of_ne hne, write_disk, update_of_ne hne'.1, write_disk,
      update_of_ne hne'.2]

/-- The state with another content of one volume. -/
def setVol (s : Cached) (m : Nat) (v : RawVolume) : Cached :=
  { s with vols := update s.vols m v }

theorem setVol_self (s : Cached) (m : Nat) (v : RawVolume) : (setVol s m v).vols m = v :=
  update_self _ _ _

theorem setVol_of_ne {m' : Nat} (h : m' ≠ m) (v : RawVolume) : (setVol s m v).vols m' = s.vols m' :=
  update_of_ne h _ _

/-- A run on one volume leaves the others alone. -/
theorem onVolume_run {α : Type} {x : RawM α} {a : α} (h : x.run (s.vols m) = (.ok a, v')) :
    (onVolume m x).run s = (.ok a, setVol s m v') := by
  rw [onVolume]
  simp only [h]
  rfl

theorem setVol_mnt (h : Stored (s.vols m) b X v') (m' : Nat) :
    ((setVol s m v').vols m').mnt = (s.vols m').mnt := by
  by_cases hm : m' = m
  · rw [hm, setVol_self, h.mnt]
  · rw [setVol_of_ne hm]

/-- The other blocks of all volumes stay. -/
theorem setVol_disk (h : Stored (s.vols m) b X v') (hk : k ≠ (m, b)) (hr : InReach s k) :
    ((setVol s m v').vols k.1).disk k.2 = (s.vols k.1).disk k.2 := by
  by_cases hm : k.1 = m
  · have hb : k.2 ≠ b := fun hb => hk (Prod.ext hm hb)
    rw [hm, setVol_self]
    exact h.others _ hb (by rw [← hm]; exact hr.2)
  · rw [setVol_of_ne hm]

private theorem setVol_disk_self (h : Stored (s.vols m) b X v') :
    SameContent (s.vols m).mnt (((setVol s m v').vols m).disk b) X := by
  rw [setVol_self]
  exact h.block

/-- The devices get new contents, which the map knows where there are no copies. -/
theorem Coherent.devices (h : Coherent s M)
    (hmnt : ∀ m', ((setVol s m v').vols m').mnt = (s.vols m').mnt)
    (hM : ∀ k c, M' k = some c → M k = some c ∨
      (∀ i, writeKey (s.writeSlots i) ≠ some k) ∧ ∀ i, dataKey (s.dataSlots i) ≠ some k)
    (hdisk : ∀ k c, InReach s k → M' k = some c → (∀ i, writeKey (s.writeSlots i) ≠ some k) →
      (∀ j, dataKey (s.dataSlots j) = some k → (s.dataSlots j).dirty = false) →
      SameContent (s.vols k.1).mnt (((setVol s m v').vols k.1).disk k.2) c) :
    Coherent (setVol s m v') M' where
  dataTable := h.dataTable
  writeDirty := h.writeDirty
  writeReach i k hk := by
    rw [InReach, hmnt]
    exact h.writeReach i k hk
  dataReach i k hk := by
    rw [InReach, hmnt]
    exact h.dataReach i k hk
  writeInj := h.writeInj
  dataInj := h.dataInj
  apart := h.apart
  writeVal i k c hi hk := by
    rw [hmnt]
    exact h.writeVal i k c hi ((hM k c hk).resolve_right fun hno => hno.1 i hi)
  dataVal i k c hi hk := by
    rw [hmnt]
    exact h.dataVal i k c hi ((hM k c hk).resolve_right fun hno => hno.2 i hi)
  diskVal k c hr hk hnw hnd := by
    rw [InReach, hmnt] at hr
    rw [hmnt]
    exact hdisk k c hr hk hnw hnd

/-- A content goes to the device of its block: the map knows it there already, or it is new and the
block has no copies. -/
theorem Coherent.store (h : Coherent s M) (hs : Stored (s.vols m) b X v')
    (hM : ∀ k c, M' k = some c → M k = some c ∨
      k = (m, b) ∧ (∀ i, writeKey (s.writeSlots i) ≠ some k) ∧
        ∀ i, dataKey (s.dataSlots i) ≠ some k)
    (hX : ∀ c, M' (m, b) = some c → SameContent (s.vols m).mnt X c) :
    Coherent (setVol s m v') M' := by
  refine h.devices (setVol_mnt hs) (fun k c hk => (hM k c hk).imp_right And.right)
    fun k c hr hk hnw hnd => ?_
  by_cases heq : k = (m, b)
  · subst heq
    exact fun i hi => (setVol_disk_self hs i hi).trans (hX c hk i hi)
  · rw [setVol_disk hs heq hr]
    exact h.diskVal k c hr ((hM k c hk).resolve_right fun hno => heq hno.1) hnw hnd

/-- A new content that goes past the caches, into a block of which there are no copies. -/
theorem Coherent.writeThrough (h : Coherent s M) (hs : Stored (s.vols m) b X v')
    (hw : ∀ i, writeKey (s.writeSlots i) ≠ some (m, b))
    (hd : ∀ i, dataKey (s.dataSlots i) ≠ some (m, b))
    (hM : ∀ k, k ≠ (m, b) → M' k = M k)
    (hX : ∀ c, M' (m, b) = some c → SameContent (s.vols m).mnt X c) :
    Coherent (setVol s m v') M' := by
  refine h.store hs (fun k c hk => ?_) hX
  by_cases heq : k = (m, b)
  · exact .inr ⟨heq, heq ▸ hw, heq ▸ hd⟩
  · exact .inl (by rwa [← hM k heq])

/-! ### Tables of slots -/

/-- A slot of a changed table that holds a block is the new one, or it was there before. -/
theorem key_update {key : σ → Option Key} {f : SlotIdx → σ} {x : σ}
    (hx : key x = some k₀) (h : key (update f i x j) = some k) :
    (j = i ∧ k = k₀ ∧ update f i x j = x) ∨
    (j ≠ i ∧ update f i x j = f j ∧ key (f j) = some k) := by
  by_cases hji : j = i
  · subst hji
    rw [update_self, hx] at h
    exact .inl ⟨rfl, (some.inj h).symm, update_self ..⟩
  · have heq : update f i x j = f j := update_of_ne hji ..
    exact .inr ⟨hji, heq, heq ▸ h⟩

private theorem inj_update {key : σ → Option Key} {f : SlotIdx → σ} {x : σ}
    (hx : key x = some k₀) (hother : ∀ j, j ≠ i → key (f j) ≠ some k₀)
    (hinj : ∀ i j k, key (f i) = some k → key (f j) = some k → i = j) (j j' : SlotIdx) (k : Key)
    (hj : key (update f i x j) = some k) (hj' : key (update f i x j') = some k) : j = j' := by
  rcases key_update hx hj with ⟨rfl, rfl, -⟩ | ⟨hne, -, hj⟩ <;>
    rcases key_update hx hj' with ⟨heq, hk, -⟩ | ⟨hne', -, hj'⟩
  · exact heq.symm
  · exact absurd hj' (hother j' hne')
  · exact absurd (hk ▸ hj) (hother j hne)
  · exact hinj j j' k hj hj'

/-! ### Slots of the data cache -/

theorem setDataSlot_self (s : Cached) (i : SlotIdx) (d : DataSlot) :
    (s.setDataSlot i d).dataSlots i = d :=
  update_self _ _ _

theorem setDataSlot_of_ne (h : j ≠ i) (d : DataSlot) :
    (s.setDataSlot i d).dataSlots j = s.dataSlots j :=
  update_of_ne h _ _

/-- A slot whose block may be lost, since the device or the map does not miss it, is dropped. -/
theorem Coherent.dropData (h : Coherent s M) (d : DataSlot)
    (hi : ∀ k c, dataKey (s.dataSlots i) = some k → (s.dataSlots i).dirty = true → M k = some c →
      SameContent (s.vols k.1).mnt ((s.vols k.1).disk k.2) c) :
    Coherent (s.setDataSlot i d.drop) M := by
  refine h.emptied ⟨rfl, id, fun _ => .inl rfl, fun j => ?_⟩ fun k c hl hk => ?_
  · by_cases hji : j = i
    · rw [hji, setDataSlot_self]
      exact .inr (dataKey_drop d)
    · rw [setDataSlot_of_ne hji]
      exact .inl .rfl
  · rcases hl with ⟨j, -, hne⟩ | ⟨j, hj, hdirty, hne⟩
    · exact absurd rfl hne
    obtain rfl : j = i := by
      by_contra hji
      exact hne (by rw [setDataSlot_of_ne hji])
    exact hi k c hj hdirty hk

/-- A dirty slot is written to its volume and dropped. -/
theorem Coherent.flushData (h : Coherent s M) (hkey : dataKey (s.dataSlots i) = some (m, b))
    (hs : Stored (s.vols m) b (s.dataSlots i).data v') (d : DataSlot) :
    Coherent ((setVol s m v').setDataSlot i d.drop) M := by
  refine (h.store hs (fun k c hk => .inl hk) fun c hc => h.dataVal i _ c hkey hc).dropData d
    fun k c hk _ hM => ?_
  obtain rfl : (m, b) = k := some.inj (hkey.symm.trans hk)
  rw [setVol_mnt hs]
  exact fun j hj => (setVol_disk_self hs j hj).trans (h.dataVal i _ c hkey hM j hj)

/-- A slot that is not dirty is filled with a block that has no other slot. -/
theorem Coherent.fillData {dirty readahead : Bool} {clock : UInt64}
    (h : Coherent s M) (hready : s.dataReady = true) (hr : InReach s (m, b))
    (hfree : dataKey (s.dataSlots i) = none ∨ (s.dataSlots i).dirty = false)
    (hother : ∀ j, j ≠ i → dataKey (s.dataSlots j) ≠ some (m, b))
    (hapart : dirty = true → ∀ j, writeKey (s.writeSlots j) ≠ some (m, b))
    (hM : ∀ k, k ≠ (m, b) → M' k = M k)
    (hX : ∀ c, M' (m, b) = some c → SameContent (s.vols m).mnt X c)
    (hclean : dirty = false → M' (m, b) = M (m, b)) :
    Coherent (s.setDataSlot i ⟨true, dirty, m, b, clock, readahead, X⟩) M' := by
  have hself : dataKey (⟨true, dirty, m, b, clock, readahead, X⟩ : DataSlot) = some (m, b) := rfl
  -- with a write slot for the block the data slot is clean, and the map says what it said
  have hwrite : ∀ j c, writeKey (s.writeSlots j) = some (m, b) → M' (m, b) = some c →
      M (m, b) = some c := by
    intro j c hj hc
    cases dirty with
    | true => exact absurd hj (hapart rfl j)
    | false => rwa [← hclean rfl]
  constructor
  case dataTable => exact fun hr => absurd (hready.symm.trans hr) (by decide)
  case writeDirty => exact h.writeDirty
  case writeReach => exact h.writeReach
  case dataReach =>
    intro j k hj
    rcases key_update hself hj with ⟨-, rfl, -⟩ | ⟨-, -, hj⟩
    · exact hr
    · exact h.dataReach j k hj
  case writeInj => exact h.writeInj
  case dataInj => exact inj_update hself hother h.dataInj
  case apart =>
    intro j j' k hj hj'
    rcases key_update hself hj' with ⟨-, rfl, heq⟩ | ⟨-, heq, hj'⟩
    · exact (congrArg _ heq).trans (Bool.eq_false_iff.mpr fun hd => hapart hd j hj)
    · exact (congrArg _ heq).trans (h.apart j j' k hj hj')
  case writeVal =>
    intro j k c hj hk
    by_cases heq : k = (m, b)
    · subst heq
      exact h.writeVal j _ c hj (hwrite j c hj hk)
    · exact h.writeVal j k c hj (by rwa [← hM k heq])
  case dataVal =>
    intro j k c hj hk
    rcases key_update hself hj with ⟨rfl, rfl, -⟩ | ⟨hne, -, hj⟩
    · rw [setDataSlot_self]
      exact hX c hk
    · rw [setDataSlot_of_ne hne]
      exact h.dataVal j k c hj (by rwa [← hM k fun heq => hother j hne (heq ▸ hj)])
  case diskVal =>
    intro k c hr' hk hnw hnd
    -- what was in the slot before is on the device
    have hold : ∀ j, dataKey (s.dataSlots j) = some k → (s.dataSlots j).dirty = false := by
      intro j hj
      by_cases hji : j = i
      · subst hji
        exact hfree.resolve_left fun hnone => absurd (hnone.symm.trans hj) (by simp)
      · have := hnd j (by rw [setDataSlot_of_ne hji]; exact hj)
        rwa [setDataSlot_of_ne hji] at this
    by_cases heq : k = (m, b)
    · subst heq
      have hd := hnd i (by rw [setDataSlot_self, hself])
      rw [setDataSlot_self] at hd
      exact h.diskVal _ c hr' (by rwa [← hclean hd]) hnw hold
    · exact h.diskVal k c hr' (by rwa [← hM k heq]) hnw hold

/-- The copies in the data cache of a block that the map says nothing about are dropped. -/
theorem Coherent.discardData (h : Coherent s M) (hM : M (m, b) = none) :
    Coherent (s.dataCacheDiscardBlock m b) M := by
  refine h.emptied ⟨rfl, id, fun _ => .inl rfl, fun j => ?_⟩ fun k c hl hk => ?_
  · simp only [Cached.dataCacheDiscardBlock]
    split
    · exact .inr (dataKey_drop _)
    · exact .inl .rfl
  · rcases hl with ⟨j, -, hne⟩ | ⟨j, hj, -, hne⟩
    · exact absurd rfl hne
    -- a slot that holds another block stays
    refine absurd (congrArg dataKey (if_neg fun hat => ?_)) hne
    rw [← dataKey_eq_some, hj] at hat
    rw [some.inj hat, hM] at hk
    exact absurd hk (by simp)

/-- A discarded block is in no data slot. -/
theorem discardData_none (s : Cached) (m b : Nat) (j : SlotIdx) :
    dataKey ((s.dataCacheDiscardBlock m b).dataSlots j) ≠ some (m, b) := by
  simp only [Cached.dataCacheDiscardBlock]
  split
  · simp
  · rename_i hat
    exact fun hkey => hat (dataKey_eq_some.mp hkey)

/-! ### Slots of the write cache -/

theorem setWriteSlot_self (s : Cached) (i : SlotIdx) (w : WriteSlot) :
    (s.setWriteSlot i w).writeSlots i = w :=
  update_self _ _ _

theorem setWriteSlot_of_ne (h : j ≠ i) (w : WriteSlot) :
    (s.setWriteSlot i w).writeSlots j = s.writeSlots j :=
  update_of_ne h _ _

/-- A slot is written to its volume and dropped. -/
theorem Coherent.flushWrite (h : Coherent s M) (hkey : writeKey (s.writeSlots i) = some (m, b))
    (hs : Stored (s.vols m) b (s.writeSlots i).data v') (w : WriteSlot) :
    Coherent ((setVol s m v').setWriteSlot i w.drop) M := by
  have hmid := h.store hs (fun k c hk => .inl hk) fun c hc => h.writeVal i _ c hkey hc
  refine hmid.emptied ⟨rfl, id, fun j => ?_, fun _ => .inl .rfl⟩ fun k c hl hk => ?_
  · by_cases hji : j = i
    · rw [hji, setWriteSlot_self]
      exact .inr rfl
    · exact .inl (setWriteSlot_of_ne hji _)
  · rcases hl with ⟨j, hj, hne⟩ | ⟨j, -, -, hne⟩
    · obtain rfl : j = i := by
        by_contra hji
        exact hne (by rw [setWriteSlot_of_ne hji])
      obtain rfl : (m, b) = k := some.inj (hkey.symm.trans hj)
      rw [setVol_mnt hs]
      exact fun l hl => (setVol_disk_self hs l hl).trans (h.writeVal j _ c hkey hk l hl)
    · exact absurd rfl hne

/-- A slot that is free or holds the block already is filled, when the data cache has no copy. -/
theorem Coherent.fillWrite (h : Coherent s M) (hr : InReach s (m, b))
    (hfree : writeKey (s.writeSlots i) = none ∨ writeKey (s.writeSlots i) = some (m, b))
    (hother : ∀ j, j ≠ i → writeKey (s.writeSlots j) ≠ some (m, b))
    (hdata : ∀ j, dataKey (s.dataSlots j) ≠ some (m, b)) (hM : ∀ k, k ≠ (m, b) → M' k = M k)
    (hX : ∀ c, M' (m, b) = some c → SameContent (s.vols m).mnt X c) :
    Coherent (s.setWriteSlot i ⟨true, true, m, b, X⟩) M' := by
  have hself : writeKey (⟨true, true, m, b, X⟩ : WriteSlot) = some (m, b) := rfl
  constructor
  case dataTable => exact h.dataTable
  case writeDirty =>
    intro j hj
    by_cases hji : j = i
    · rw [hji, setWriteSlot_self]
    · rw [setWriteSlot_of_ne hji] at hj ⊢
      exact h.writeDirty j hj
  case writeReach =>
    intro j k hj
    rcases key_update hself hj with ⟨-, rfl, -⟩ | ⟨-, -, hj⟩
    · exact hr
    · exact h.writeReach j k hj
  case dataReach => exact h.dataReach
  case writeInj => exact inj_update hself hother h.writeInj
  case dataInj => exact h.dataInj
  case apart =>
    intro j j' k hj hj'
    rcases key_update hself hj with ⟨-, rfl, -⟩ | ⟨-, -, hj⟩
    · exact absurd hj' (hdata j')
    · exact h.apart j j' k hj hj'
  case writeVal =>
    intro j k c hj hk
    rcases key_update hself hj with ⟨rfl, rfl, -⟩ | ⟨hne, -, hj⟩
    · rw [setWriteSlot_self]
      exact hX c hk
    · rw [setWriteSlot_of_ne hne]
      exact h.writeVal j k c hj (by rwa [← hM k fun heq => hother j hne (heq ▸ hj)])
  case dataVal =>
    intro j k c hj hk
    exact h.dataVal j k c hj (by rwa [← hM k fun heq => hdata j (heq ▸ hj)])
  case diskVal =>
    intro k c hr' hk hnw hnd
    -- the block itself is in a write slot now, so only others are read from the device
    have heq : k ≠ (m, b) := by
      rintro rfl
      exact hnw i (by rw [setWriteSlot_self, hself])
    refine h.diskVal k c hr' (by rwa [← hM k heq]) (fun j hj => ?_) hnd
    by_cases hji : j = i
    · subst hji
      rcases hfree with hnone | hsame
      · rw [hnone] at hj
        exact absurd hj (by simp)
      · exact heq (some.inj (hj.symm.trans hsame))
    · exact hnw j (by rw [setWriteSlot_of_ne hji]; exact hj)

/-- The copies in the write cache of a block that the map says nothing about are dropped. -/
theorem Coherent.discardWrite (h : Coherent s M) (hM : M (m, b) = none) :
    Coherent (s.writeCacheDiscardBlock m b) M := by
  refine h.emptied ⟨rfl, id, fun j => ?_, fun _ => .inl .rfl⟩ fun k c hl hk => ?_
  · simp only [Cached.writeCacheDiscardBlock]
    split
    · exact .inr rfl
    · exact .inl rfl
  · rcases hl with ⟨j, hj, hne⟩ | ⟨j, -, -, hne⟩
    · refine absurd (congrArg writeKey (if_neg fun hat => ?_)) hne
      rw [← writeKey_eq_some, hj] at hat
      rw [some.inj hat, hM] at hk
      exact absurd hk (by simp)
    · exact absurd rfl hne

/-- A discarded block is in no write slot. -/
theorem discardWrite_none (s : Cached) (m b : Nat) (j : SlotIdx) :
    writeKey ((s.writeCacheDiscardBlock m b).writeSlots j) ≠ some (m, b) := by
  simp only [Cached.writeCacheDiscardBlock]
  split
  · simp
  · rename_i hat
    exact fun hkey => hat (writeKey_eq_some.mp hkey)

end Rabbitbone.Spec.Ext4
