import Rabbitbone.Native.Ext4.Mount
import Rabbitbone.Spec.Ext4.CacheRun

/-!
# The superblock of a mount

`ext4_mount_bounded` reads the superblock once, before it replays the journal.  If the record in the
journal is for the block with the superblock, the replay writes that block on the device, but the
superblock in memory stays the one that was read.  What is recomputed are the free counters, the
head of the orphan list and the checksum.

## Key results

- `ext4MountBounded_superKept`: everything else in memory is from before the replay.
- `mount_uses_replayed_iff`: so the mount goes on with the replayed superblock iff the two
  superblocks on the device agree in everything else.
-/

namespace Rabbitbone.Spec.Ext4

open Native Native.Ext4 FallibleState

variable {r : Mounted} {device : Nat → Nat → Block} {mnt : Mount} {m : Nat}

/-- The words of a superblock that a mount recomputes: `s_free_blocks_count_lo`,
`s_free_inodes_count`, `s_last_orphan`, `s_free_blocks_count_hi` and `s_checksum`. -/
def recomputed : List Nat := [3, 4, 58, 86, 255]

/-- The bytes of a superblock without those words. -/
def superKept (sb : Block) : Block := fun i =>
  if i / 4 ∈ recomputed ∨ 1024 ≤ i then 0 else sb i

/-! ### What changes the superblock in memory -/

/-- Words that are recomputed are not kept. -/
private theorem superKept_putLe32 {k : Nat} (hk : k ∈ recomputed) (sb : Block) (w : UInt32) :
    superKept (putLe32 sb k w) = superKept sb := by
  funext i
  rw [superKept, superKept]
  split
  · rfl
  rename_i hi
  rw [putLe32, if_neg]
  intro hrange
  have : i / 4 = k := by omega
  exact hi (Or.inl (this ▸ hk))

private theorem superKept_sbSetFreeBlocks (sb : Block) (count : UInt64) :
    superKept (sbSetFreeBlocks sb count) = superKept sb := by
  rw [sbSetFreeBlocks, superKept_putLe32 (by decide), superKept_putLe32 (by decide)]

private theorem superKept_sbSeal (sb : Block) : superKept (sbSeal sb) = superKept sb :=
  superKept_putLe32 (by decide) _ _

/-- Storing the counters keeps the rest of the superblock. -/
private theorem superKept_sbStore (sb : Block) (v : Volume) :
    superKept (sbStore sb v) = superKept sb := by
  rw [sbStore, superKept_sbSeal, superKept_putLe32 (by decide), sbSetFreeInodes,
    superKept_putLe32 (by decide), superKept_sbSetFreeBlocks]

private theorem superKept_sbReserveBlock (sb : Block) :
    superKept (sbReserveBlock sb) = superKept sb := by
  rw [sbReserveBlock]
  split
  · rfl
  · exact superKept_sbSetFreeBlocks _ _

/-! ### The mount -/

/-- The superblock in memory, without what is recomputed. -/
def keptInMemory (s : Mounting) : Block := superKept s.sb

private theorem preserves_onCache {α : Type} (x : CacheM α) : Preserves (onCache x) keptInMemory :=
  fun _ => rfl

private theorem preserves_mountWriteSuper (m : Nat) : Preserves (mountWriteSuper m) keptInMemory :=
  .bind (.modify fun s => superKept_sbSeal s.sb) fun _ => .bind .get fun _ => preserves_onCache _

private theorem preserves_reserveBlockIfFree (m block : Nat) :
    Preserves (reserveBlockIfFree m block) keptInMemory := by
  refine .bind .get fun s => .bind (.require _ _) fun _ => .bind (preserves_onCache _) fun gd =>
    .bind (preserves_onCache _) fun bm => ?_
  split
  · exact .pure _
  · exact .bind (preserves_onCache _) fun _ => .bind (preserves_onCache _) fun _ =>
      .bind (.modify fun s => superKept_sbReserveBlock s.sb) fun _ => preserves_mountWriteSuper m

private theorem preserves_reserveJournal (m : Nat) (mnt : Mount) (free : Bool) :
    Preserves (reserveJournal m mnt free) keptInMemory := by
  rw [reserveJournal]
  split
  · exact .bind (preserves_reserveBlockIfFree m _) fun _ => preserves_reserveBlockIfFree m _
  · exact .pure _

/-- So does recovering. -/
private theorem mountRecover_superKept {v : Volume} {sb : Block} (h : mountRecover v sb = .ok r) :
    superKept r.sb = superKept sb := by
  rw [mountRecover] at h
  split at h
  · exact nomatch h
  dsimp only at h
  split at h
  · exact nomatch h
  obtain rfl := Except.ok.inj h
  have hfirst : ∀ v₁, superKept (if v.sbLastOrphan = 0 then sb else sbStore sb v₁) =
      superKept sb := by
    intro v₁
    split
    · rfl
    · exact superKept_sbStore _ _
  split
  · rw [superKept_sbStore, hfirst]
  · exact hfirst _

/-- The replay has happened when the volume is read as inodes and descriptors, but the superblock in
memory is the one from before. -/
theorem mountJournal_superKept {free : Bool} {s s' : Mounting}
    (h : (mountJournal m mnt device free).run s = (.ok r, s')) :
    superKept r.sb = superKept s.sb := by
  rw [mountJournal, modify_bind_ok, bind_ok] at h
  obtain ⟨_, s₁, hreserve, h⟩ := h
  rw [bind_ok] at h
  obtain ⟨_, s₂, hrecover, h⟩ := h
  have hreserved : superKept s₁.sb = keptInMemory (s.setMount m mnt) :=
    (preserves_reserveJournal m mnt free).eq hreserve
  have hkept : superKept s₂.sb = superKept s.sb :=
    ((preserves_onCache _).eq hrecover).trans hreserved
  rw [get_bind_ok] at h
  split at h
  · exact (fail_ok.mp h).elim
  rename_i r' hr
  obtain ⟨rfl, -⟩ := pure_ok.mp h
  exact (mountRecover_superKept hr).trans hkept

/-- So does reading the volume. -/
private theorem mountVolume_superKept {s s' : Mounting}
    (h : (mountVolume m mnt device).run s = (.ok r, s')) :
    superKept r.sb = superKept s.sb := by
  rw [mountVolume, bind_ok] at h
  obtain ⟨_, s₁, hflush, h⟩ := h
  have hkept : superKept s₁.sb = superKept s.sb := (preserves_onCache _).eq hflush
  split at h
  · rw [bind_ok] at h
    obtain ⟨found, s₂, hfind, h⟩ := h
    have hkept₂ : superKept s₂.sb = superKept s₁.sb := (preserves_onCache _).eq hfind
    cases found with
    | some free => rw [mountJournal_superKept h, hkept₂, hkept]
    | none =>
      rw [get_bind_ok, pure_ok] at h
      rw [h.1, hkept₂, hkept]
  · rw [get_bind_ok, pure_ok] at h
    rw [h.1, hkept]

private theorem mountChecksum_superKept {r' : Mounted} (h : mountChecksum r = .ok r') :
    superKept r'.sb = superKept r.sb := by
  rw [mountChecksum] at h
  split at h
  · rw [← Except.ok.inj h, superKept_sbSeal]
  split at h
  · rw [← Except.ok.inj h]
  · exact nomatch h

/-- The superblock in memory is the one that was read before the replay. -/
theorem ext4MountBounded_superKept {part : Partition} {image : Nat → UInt8} {s : Cached}
    (h : ext4MountBounded m part image device s = .ok r) :
    superKept r.sb = superKept (superAt image) := by
  rw [ext4MountBounded] at h
  simp only [bind, Except.bind] at h
  split at h
  · exact nomatch h
  split at h
  · exact nomatch h
  split at h
  · exact nomatch h
  rename_i mnt hgeometry r' hr
  rw [mountChecksum_superKept h]
  exact mountVolume_superKept (Prod.ext hr rfl)

/-! ### The replayed superblock -/

/-- The superblock in its block. -/
def superIn (mnt : Mount) (block : Block) : Block := fun i => block (1024 % mnt.blockSize + i)

private theorem Mount.journal_room (h : mnt.firstDataBlock + 8 < mnt.blocksCount) :
    2 ≤ mnt.blocksCount := by
  omega

/-- The superblock that the replay writes, if the image holds a valid committed record for the block
with the superblock. -/
def replayedSuper (part : Partition) (image : Nat → UInt8) : Option Block :=
  match mountGeometry part (superAt image) with
  | .error _ => none
  | .ok mnt =>
    if h : mnt.firstDataBlock + 8 < mnt.blocksCount then
      let header := imageBlocks mnt.blockSize image (mnt.blocksCount - 2)
      let payload := imageBlocks mnt.blockSize image (mnt.blocksCount - 1)
      if Armed (mnt.withJournal (Mount.journal_room h)) header payload ∧
        journalTarget header = superBlock mnt then
        some (superIn mnt payload)
      else none
    else none

/-- The mount goes on with the superblock `sb`, up to what is recomputed: it is the one in memory,
and the one that any later `write_super` puts into its block. -/
def UsesSuper (r : Mounted) (sb : Block) : Prop :=
  superKept r.sb = superKept sb ∧ ∀ (v : Volume) (old : Block),
      superKept (superIn r.vol.mnt (old.overlay (1024 % r.vol.mnt.blockSize) 1024 (sbStore r.sb v)))
        = superKept sb

private theorem superKept_superIn_overlay (mnt : Mount) (old sb : Block) :
    superKept (superIn mnt (old.overlay (1024 % mnt.blockSize) 1024 sb)) = superKept sb := by
  funext i
  rw [superKept, superKept]
  split
  · rfl
  rename_i hi
  simp only [superIn, Block.overlay]
  rw [if_pos (by omega), Nat.add_sub_cancel_left]

/-! ### An image -/

/-- A superblock of a volume of 16 blocks of 1024 bytes and 16 inodes. -/
def tinySuper : Block :=
  let sb := putLe32 zeroBlock 0 16
  let sb := putLe32 sb 1 16
  let sb := putLe32 sb 3 2
  let sb := putLe32 sb 4 6
  let sb := putLe32 sb 5 1
  let sb := putLe32 sb 8 8192
  let sb := putLe32 sb 10 16
  let sb := putLe32 sb 14 0xef53
  putLe32 sb 21 11

/-- The descriptor of its group. -/
def tinyGroup : Block :=
  let gd := putLe32 zeroBlock 0 3
  let gd := putLe32 gd 1 4
  let gd := putLe32 gd 2 5
  putLe32 gd 3 (2 + 65536 * 6)

/-- The volume with a record for the superblock in its journal, whose payload is `sb`. -/
def tinyImage (sb : Block) (off : Nat) : UInt8 :=
  let b := off / 1024
  let i := off % 1024
  if b = 1 then tinySuper i
  else if b = 2 then tinyGroup i
  else if b = 3 then if i = 0 then 0xff else if i = 1 then 0xfc else 0
  else if b = 4 then if i = 0 then 0xff else if i = 1 then 0x03 else 0
  else if b = 14 then journalRecord 1 1 1 1024 (crc32 (sb.bytes 0 1024)) i
  else if b = 15 then sb i
  else 0

/-- The device that the image is on. -/
def tinyPartition : Partition := ⟨512, 32, 0, 32⟩

/-- Mount an image at boot. -/
def tinyMount (image : Nat → UInt8) : Except Ext4Status Mounted :=
  ext4MountBounded 0 tinyPartition image (fun _ _ => zeroBlock)
    (Cached.boot (fun _ => emptyJournal) fun _ => true)

/-! ### Which superblock is used -/

/-- The mount goes on with the replayed superblock iff that one agrees with the superblock from
before the replay in everything that is not recomputed. -/
theorem mount_uses_replayed_iff {m : Nat} {part : Partition} {image : Nat → UInt8}
    {device : Nat → Nat → Block} {s : Cached} {r : Mounted}
    (hok : ext4MountBounded m part image device s = .ok r) :
    ∀ sb ∈ replayedSuper part image, UsesSuper r sb ↔ superKept (superAt image) = superKept sb := by
  intro sb _
  have hkept := ext4MountBounded_superKept hok
  constructor
  · rintro ⟨hmem, -⟩
    rw [← hkept, hmem]
  · intro heq
    refine ⟨hkept.trans heq, fun v old => ?_⟩
    rw [superKept_superIn_overlay, superKept_sbStore, hkept, heq]

/-- The record holds the superblock as it is, and the mount goes on with it. -/
theorem tiny_mount_uses_replayed :
    (replayedSuper tinyPartition (tinyImage tinySuper)).isSome = true ∧
      ∃ r, tinyMount (tinyImage tinySuper) = .ok r ∧
        ∀ sb ∈ replayedSuper tinyPartition (tinyImage tinySuper), UsesSuper r sb := by
  -- one evaluation for the replayed superblock and its bytes
  have hagree : ((replayedSuper tinyPartition (tinyImage tinySuper)).any fun sb =>
      (List.range 1024).all fun i => superAt (tinyImage tinySuper) i = sb i) = true := by
    decide +kernel
  obtain ⟨replayed, hreplayed, hbytes⟩ := (Option.any_eq_true _ _).mp hagree
  have hmounts : (tinyMount (tinyImage tinySuper)).toOption.isSome = true := by decide +kernel
  refine ⟨Option.isSome_of_eq_some hreplayed, ?_⟩
  match hr : tinyMount (tinyImage tinySuper) with
  | .error e =>
    rw [hr] at hmounts
    exact nomatch hmounts
  | .ok r =>
    refine ⟨r, rfl, fun sb hsb => (mount_uses_replayed_iff hr sb hsb).mpr ?_⟩
    obtain rfl := Option.mem_unique hreplayed hsb
    rw [List.all_eq_true] at hbytes
    funext i
    rw [superKept, superKept]
    split
    · rfl
    · rename_i hi
      exact of_decide_eq_true (hbytes i (List.mem_range.mpr (by omega)))

/-- The record names the volume, the superblock before it does not, and after the mount the volume
has no name in memory. -/
theorem tiny_mount_drops_name :
    ((replayedSuper tinyPartition (tinyImage (putLe32 tinySuper 30 0x786f6f66))).map
      fun sb => sb 120)
        = some 0x66 ∧
      ((tinyMount (tinyImage (putLe32 tinySuper 30 0x786f6f66))).toOption.map fun r => r.sb 120)
        = some 0 ∧
      120 / 4 ∉ recomputed := by
  decide +kernel

end Rabbitbone.Spec.Ext4
