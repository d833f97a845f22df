import Rabbitbone.Native.Tarfs
import Rabbitbone.Spec.Vfs.Normalize

/-!
# Listing and lookup in a tar file system

A directory of a tar image need not have an entry of its own: it is there because entries are below
it.  Listing infers such a directory from any entry below it, lookup only from an entry directly in
it, and a listing shows a directory as it is implied by the first entry below it, even if its own
entry follows.  So the two agree exactly on the images in which each directory above an entry has an
entry or one directly in it, and no entry comes before that of a directory above it.

## Key results

- `tarfsOpen_opened`: what `tarfs_open` has checked of the entries.
- `tarfs_open_layout`: their data is in the image, apart from all other data and from the headers.
- `listing_agrees_iff`: listing and lookup agree exactly on images with `Announced` directories.
-/

namespace Rabbitbone.Spec.Tarfs

open Native Native.Path Native.Tarfs Spec.Vfs List

/-- A directory as the start of the paths in it. -/
def base (dir : List UInt8) : List UInt8 := if dir = [slash] then [] else dir

/-- The path of a name in a directory. -/
def child (dir name : List UInt8) : List UInt8 := base dir ++ slash :: name

/-- What listing yields can be looked up as it is listed, and the directories above an entry are
listed and are directories. -/
structure ListingAgrees (fs : Fs) : Prop where
  entry : ∀ dir ents, Clean dir → opList fs dir = .ok ents → ∀ d ∈ ents,
    ∃ st, opStat fs (child dir d.name) = .ok st ∧ st.type = d.type ∧ st.inode = d.inode
  ancestor : ∀ e ∈ fs.entries, ∀ a rest, e.path = a ++ slash :: rest → a ≠ [] →
    (∃ st, opStat fs a = .ok st ∧ st.type = .dir) ∧
      ∃ dir ents, Clean dir ∧ opList fs dir = .ok ents ∧ ∃ d ∈ ents, child dir d.name = a

/-- Each directory above an entry has an entry or one directly in it, and no entry comes before that
of a directory above it. -/
structure Announced (fs : Fs) : Prop where
  parent : ∀ e ∈ fs.entries, ∀ a rest, e.path = a ++ slash :: rest → a ≠ [] →
    (∃ e' ∈ fs.entries, e'.path = a) ∨ ∃ e' ∈ fs.entries, ∃ c, slash ∉ c ∧ e'.path = a ++ slash :: c
  order : ∀ pre e' post, fs.entries = pre ++ e' :: post → ∀ e ∈ pre, ∀ rest,
    e.path ≠ e'.path ++ slash :: rest

/-! ### Opened images -/

/-- What `tarfs_open` has checked of the entries. -/
structure Opened (entries : List Entry) : Prop where
  clean : ∀ e ∈ entries, Clean e.path ∧ e.path ≠ [slash]
  distinct : entries.Pairwise fun e e' => e.path ≠ e'.path
  leaf : ∀ e ∈ entries, ∀ e' ∈ entries, ∀ rest, e'.path = e.path ++ slash :: rest → e.type = .dir
  inode : ∀ e ∈ entries, e.inode ≠ 0

variable {path rest dir name : List UInt8} {entries seen todo : List Entry} {e : Entry} {fs : Fs}
  {size : Nat} {image : Nat → UInt8}

private theorem headerPath_clean {h : Header} (hp : headerPath h = some path) :
    Clean path ∧ path ≠ [slash] := by
  unfold headerPath at hp
  dsimp only at hp
  generalize (slash :: if cstr h.pathPrefix = [] then [] else cstr h.pathPrefix ++ [slash]) =
    tmp at hp
  split at hp
  · exact nomatch hp
  split at hp
  · exact nomatch hp
  split at hp
  · exact nomatch hp
  split at hp
  · exact nomatch hp
  rename_i out hnorm
  rw [Option.ite_none_left_eq_some] at hp
  rw [← Option.some.inj hp.2]
  exact ⟨clean_of_pathNormalize hnorm, hp.1⟩

private theorem isStrictParent_of_append {parent : List UInt8} (hne : parent ≠ [])
    (hroot : parent ≠ [slash]) :
    tarfsPathIsStrictParent parent (parent ++ slash :: rest) = true := by
  rw [tarfsPathIsStrictParent, if_neg (not_or.mpr ⟨hne, hroot⟩), drop_left]
  simp

/-- An entry that does not conflict keeps what has been checked. -/
theorem Opened.concat (h : Opened entries) (hclean : Clean e.path ∧ e.path ≠ [slash])
    (hinode : e.inode ≠ 0) (hok : tarfsPathConflicts entries e.path e.type = false) :
    Opened (entries ++ [e]) := by
  -- the new path conflicts with none of the old ones
  have hall : ∀ e' ∈ entries, e'.path ≠ e.path ∧
      (∀ rest, e.path = e'.path ++ slash :: rest → e'.type = .dir) ∧
      ∀ rest, e'.path = e.path ++ slash :: rest → e.type = .dir := by
    intro e' he'
    have hnot := any_eq_false.mp hok e' he'
    simp only [Bool.or_eq_true, not_or, Bool.and_eq_true, bne_iff_ne, beq_iff_eq, not_and_or,
      not_not] at hnot
    refine ⟨hnot.1.1, fun rest hrest => ?_, fun rest hrest => ?_⟩
    · refine hnot.1.2.resolve_left (not_not.mpr ?_)
      rw [hrest]
      exact isStrictParent_of_append (h.clean e' he').1.ne_nil (h.clean e' he').2
    · refine hnot.2.resolve_left (not_not.mpr ?_)
      rw [hrest]
      exact isStrictParent_of_append hclean.1.ne_nil hclean.2
  have hself : ∀ rest, e.path ≠ e.path ++ slash :: rest := by
    intro rest heq
    have hlen := congrArg length heq
    rw [length_append, length_cons] at hlen
    omega
  constructor
  case clean =>
    intro e' he'
    rcases mem_append.mp he' with he' | he'
    · exact h.clean e' he'
    · rw [mem_singleton.mp he']
      exact hclean
  case distinct =>
    refine pairwise_append.mpr ⟨h.distinct, pairwise_singleton _ _, fun e' he' e'' he'' => ?_⟩
    rw [mem_singleton.mp he'']
    exact (hall e' he').1
  case leaf =>
    intro e₁ h₁ e₂ h₂ rest heq
    rcases mem_append.mp h₁ with h₁ | h₁
    · rcases mem_append.mp h₂ with h₂ | h₂
      · exact h.leaf e₁ h₁ e₂ h₂ rest heq
      · rw [mem_singleton.mp h₂] at heq
        exact (hall e₁ h₁).2.1 rest heq
    · rw [mem_singleton.mp h₁] at heq ⊢
      rcases mem_append.mp h₂ with h₂ | h₂
      · exact (hall e₂ h₂).2.2 rest heq
      · rw [mem_singleton.mp h₂] at heq
        exact absurd heq (hself rest)
  case inode =>
    intro e' he'
    rcases mem_append.mp he' with he' | he'
    · exact h.inode e' he'
    · rw [mem_singleton.mp he']
      exact hinode

private theorem headerSizes_room {h : Header} {off fsize aligned : Nat} (hoff : off + 512 ≤ size)
    (hs : headerSizes h off size = some (fsize, aligned)) :
    fsize ≤ aligned ∧ off + 512 + aligned ≤ size := by
  unfold headerSizes at hs
  split at hs
  · cases hs
  split at hs
  · cases hs
  split at hs
  · cases hs
  split at hs
  · cases hs
  next halign =>
  split at hs
  · cases hs
  next hroom =>
  cases hs
  unfold tarAlign512 at halign
  split at halign
  · cases halign
  have := Option.some.inj halign
  omega

/-- What every turn of the second loop keeps holds at its end, where the first loop would end as
well. -/
theorem readEntries_rule {P : Nat → Nat → Nat → List Entry → Prop} {turns off inode : Nat}
    {out : List Entry}
    (hstep : ∀ turns off inode entries fsize aligned path type, P (turns + 1) off inode entries →
      off + 512 ≤ size → blockEmpty (fun i => image (off + i)) = false →
      headerSizes (fun i => image (off + i)) off size = some (fsize, aligned) →
      Clean path ∧ path ≠ [slash] → tarfsPathConflicts entries path type = false →
      P turns (off + 512 + aligned) (inode + 1)
        (entries ++ [⟨path, off + 512, fsize, type, inode⟩]))
    (h : P turns off inode entries)
    (hread : readEntries image size turns off inode entries = some out) :
    ∃ turns off inode, P turns off inode out ∧
      ∀ n, countEntries image size turns off n = some n := by
  induction turns generalizing off inode entries with
  | zero => exact ⟨0, off, inode, Option.some.inj hread ▸ h, fun _ => rfl⟩
  | succ turns ih =>
    rw [readEntries] at hread
    dsimp only at hread
    generalize (if Header.typeflag (fun i => image (off + i)) = typeDir then NodeType.dir
      else .file) = type
      at hread
    split at hread
    · next hend => exact ⟨turns + 1, off, inode, Option.some.inj hread ▸ h, fun _ => if_pos hend⟩
    next hgo =>
    obtain ⟨hoff, hblock⟩ := not_or.mp hgo
    split at hread
    · exact nomatch hread
    next hsizes =>
    split at hread
    · exact nomatch hread
    next path hpath =>
    split at hread
    · exact nomatch hread
    next hok =>
    split at hread
    · exact nomatch hread
    · exact ih (hstep _ _ _ _ _ _ _ _ h (Nat.not_lt.mp hoff) (Bool.eq_false_iff.mpr hblock) hsizes
        (headerPath_clean hpath) (Bool.eq_false_iff.mpr hok)) hread

/-- The byte at `i` is in the data of the entry. -/
def Holds (e : Entry) (i : Nat) : Prop := e.data ≤ i ∧ i < e.data + e.size

/-- The byte at `i` is in the header of the entry. -/
def Heads (e : Entry) (i : Nat) : Prop := e.data - 512 ≤ i ∧ i < e.data

/-- The data of the entries, each behind its header, up to `off`. -/
structure Laid (entries : List Entry) (off : Nat) : Prop where
  inside : ∀ e ∈ entries, 512 ≤ e.data ∧ e.data + e.size ≤ off
  apart : entries.Pairwise fun e e' => e.data + e.size + 512 ≤ e'.data

private theorem Laid.separate {off i : Nat} (h : Laid entries off) (he : e ∈ entries)
    (hi : Holds e i) :
    ∀ e' ∈ entries, ¬Heads e' i ∧ (Holds e' i → e' = e) := by
  obtain ⟨pre, post, rfl⟩ := append_of_mem he
  obtain ⟨-, hpost, hpre⟩ := pairwise_append.mp h.apart
  intro e' he'
  unfold Heads Holds at *
  rcases mem_append.mp he' with hmem | hmem
  · have := hpre e' hmem e mem_cons_self
    exact ⟨by omega, fun _ => by omega⟩
  rcases mem_cons.mp hmem with rfl | hmem
  · exact ⟨by omega, fun _ => rfl⟩
  · have := (pairwise_cons.mp hpost).1 e' hmem
    exact ⟨by omega, fun _ => by omega⟩

private theorem Laid.concat {off aligned : Nat} (h : Laid entries off) (hdata : e.data = off + 512)
    (hsize : e.size ≤ aligned) :
    Laid (entries ++ [e]) (off + 512 + aligned) := by
  refine ⟨fun x hx => ?_, pairwise_append.mpr
    ⟨h.apart, pairwise_singleton _ _, fun x hx y hy => ?_⟩⟩
  · rcases mem_append.mp hx with hx | hx
    · have := h.inside x hx
      omega
    · rw [mem_singleton.mp hx]
      omega
  · rw [mem_singleton.mp hy]
    have := h.inside x hx
    omega

/-- An image that was opened: its entries, where their data lies, and their number. -/
theorem tarfsOpen_scanned (h : tarfsOpen image size = some fs) :
    Opened fs.entries ∧ (∃ off ≤ size, Laid fs.entries off) ∧
      countEntries image size (size / 512 + 1) 0 0 = some fs.entries.length := by
  unfold tarfsOpen at h
  split at h
  · exact nomatch h
  split at h
  · exact nomatch h
  split at h
  · exact nomatch h
  next entries hread =>
  rw [← Option.some.inj h]
  obtain ⟨turns, off, inode, ⟨hopened, -, hoff, hlaid, hcount⟩, hend⟩ :=
    readEntries_rule (P := fun turns off inode entries => Opened entries ∧ inode ≠ 0 ∧ off ≤ size ∧
      Laid entries off ∧
      countEntries image size turns off entries.length =
        countEntries image size (size / 512 + 1) 0 0)
      (fun turns off inode entries fsize aligned path type hP hle hblock hsizes hclean hok => by
        obtain ⟨hopened, hinode, -, hlaid, hcount⟩ := hP
        obtain ⟨hfsize, hroom⟩ := headerSizes_room hle hsizes
        refine ⟨hopened.concat hclean hinode hok, Nat.succ_ne_zero inode, hroom,
          hlaid.concat rfl hfsize, ?_⟩
        rw [← hcount, countEntries]
        simp [hblock, hsizes, Nat.not_lt.mpr hle])
      ⟨⟨by simp, .nil, by simp, by simp⟩, by decide, Nat.zero_le _, ⟨by simp, .nil⟩, rfl⟩ hread
  exact ⟨hopened, ⟨off, hoff, hlaid⟩, by rw [← hcount, hend]⟩

/-- The recorded entries are the counted ones, their data is in the image and apart from all other
data and from the headers, and their paths are those of a tree whose inner nodes are directories. -/
theorem tarfs_open_layout (h : tarfsOpen image size = some fs) :
    countEntries image size (size / 512 + 1) 0 0 = some fs.entries.length ∧
      (∀ e ∈ fs.entries, e.data + e.size ≤ size ∧
        ∀ i, Holds e i → ∀ e' ∈ fs.entries, ¬Heads e' i ∧ (Holds e' i → e' = e)) ∧
      Opened fs.entries := by
  obtain ⟨hopened, ⟨off, hoff, hlaid⟩, hcount⟩ := tarfsOpen_scanned h
  exact ⟨hcount, fun e he => ⟨(hlaid.inside e he).2.trans hoff, fun i hi => hlaid.separate he hi⟩,
    hopened⟩

private theorem tarfsOpen_opened (h : tarfsOpen image size = some fs) :
    Opened fs.entries := (tarfsOpen_scanned h).1

/-! ### Names in a directory -/

private theorem behindDir_eq_some {start : List UInt8} :
    behindDir dir path = some start ↔ path = child dir start ∧ start ≠ [] := by
  rw [behindDir, child, base]
  by_cases hroot : dir = [slash]
  · rw [if_pos hroot, if_pos hroot, Option.ite_none_right_eq_some, nil_append]
    cases path with
    | nil => simp
    | cons a l =>
      constructor
      · rintro ⟨⟨ha, hne⟩, hl⟩
        obtain rfl : l = start := Option.some.inj hl
        exact ⟨by rw [Option.some.inj ha], hne⟩
      · rintro ⟨heq, hne⟩
        obtain ⟨rfl, rfl⟩ := cons.inj heq
        exact ⟨⟨rfl, hne⟩, rfl⟩
  · rw [if_neg hroot, if_neg hroot]
    constructor
    · intro h
      rw [Option.ite_none_right_eq_some, Bool.and_eq_true, isPrefixOf_iff_prefix, beq_iff_eq] at h
      obtain ⟨⟨⟨l, rfl⟩, hhead⟩, h⟩ := h
      rw [drop_left] at hhead
      cases l with
      | nil => exact nomatch hhead
      | cons a l =>
        have hdrop : (dir ++ a :: l).drop (dir.length + 1) = l := by simp
        rw [hdrop, Option.ite_none_left_eq_some] at h
        obtain rfl := Option.some.inj h.2
        exact ⟨by rw [Option.some.inj hhead], h.1⟩
    · rintro ⟨rfl, hne⟩
      have hdrop : (dir ++ slash :: start).drop (dir.length + 1) = start := by simp
      rw [if_pos (by simp)]
      rw [hdrop, if_neg hne]

/-- The name of a path in a directory. -/
theorem immediateChildComponent_eq_some {c : List UInt8} {implicit : Bool} (h : Clean path)
    (hne : path ≠ [slash]) : immediateChildComponent dir path nameMax = some (c, implicit) ↔
      slash ∉ c ∧ c ≠ [] ∧ (implicit = false ∧ path = child dir c ∨
        implicit = true ∧ ∃ t, path = child dir c ++ slash :: t) := by
  -- the first component of a text and what follows it
  have hcut : ∀ {c tail : List UInt8}, slash ∉ c → (tail = [] ∨ ∃ t, tail = slash :: t ∧ t ≠ []) →
      (c ++ tail).takeWhile (· != slash) = c ∧ (c ++ tail).dropWhile (· != slash) = tail := by
    intro c tail hno htail
    have hall : ∀ a ∈ c, (a != slash) = true := fun a ha => by
      rw [bne_iff_ne]
      rintro rfl
      exact hno ha
    rw [takeWhile_append_of_pos hall, dropWhile_append_of_pos hall]
    rcases htail with rfl | ⟨t, rfl, -⟩
    · simp
    · simp
  constructor
  · intro hchild
    unfold immediateChildComponent at hchild
    split at hchild
    · cases hchild
    rename_i start hstart
    obtain ⟨hpath, -⟩ := behindDir_eq_some.mp hstart
    rw [child] at hpath
    rw [hpath] at h hne
    obtain ⟨-, c', tail, rfl, hne', hno, -, htail⟩ := h.split hne
    rw [(hcut hno htail).1, (hcut hno htail).2, Option.ite_none_left_eq_some] at hchild
    obtain ⟨rfl, rfl⟩ := Prod.mk.inj (Option.some.inj hchild.2)
    refine ⟨hno, hne', ?_⟩
    rcases htail with rfl | ⟨t, rfl, ht⟩
    · exact .inl ⟨by simp, by rw [hpath, child, append_nil]⟩
    · exact .inr ⟨by simpa using ht, t, by rw [hpath, child]; simp⟩
  · rintro ⟨hno, hcne, hpath⟩
    obtain ⟨tail, htail, hsplit, himp⟩ : ∃ tail, (tail = [] ∨ ∃ t, tail = slash :: t ∧ t ≠ []) ∧
        path = child dir (c ++ tail) ∧ implicit = decide (tail ≠ [] ∧ tail.drop 1 ≠ []) := by
      rcases hpath with ⟨rfl, hpath⟩ | ⟨rfl, t, hpath⟩
      · exact ⟨[], .inl rfl, by rw [hpath, append_nil], by simp⟩
      -- a clean path does not end with a slash
      have ht : t ≠ [] := by
        rw [hpath] at h hne
        obtain ⟨-, c', tail, heq, hne', -⟩ := h.split hne
        intro hnil
        rw [hnil] at heq
        exact hne' (append_eq_nil_iff.mp heq.symm).1
      exact ⟨slash :: t, .inr ⟨t, rfl, ht⟩, by rw [hpath, child, child]; simp, by simpa using ht⟩
    have hbehind : behindDir dir path = some (c ++ tail) :=
      behindDir_eq_some.mpr ⟨hsplit, fun hnil => hcne (append_eq_nil_iff.mp hnil).1⟩
    -- a component of a clean path is short
    have hshort : c.length < nameMax := by
      rw [hsplit, child] at h hne
      obtain ⟨-, c', tail', heq, -, hno', hlen, htail'⟩ := h.split hne
      have hcc := (hcut hno htail).1
      rw [heq, (hcut hno' htail').1] at hcc
      rw [← hcc]
      exact hlen
    unfold immediateChildComponent
    rw [hbehind]
    dsimp only
    rw [(hcut hno htail).1, (hcut hno htail).2,
      if_neg (not_or.mpr ⟨hcne, Nat.not_le.mpr hshort⟩), ← himp]

private theorem isDirectChild_iff (h : Clean path) (hne : path ≠ [slash]) :
    isDirectChild dir path = true ↔ ∃ c, slash ∉ c ∧ path = child dir c := by
  unfold isDirectChild
  split
  · rename_i hnone
    refine iff_of_false Bool.false_ne_true ?_
    rintro ⟨c, hno, hpath⟩
    by_cases hnil : c = []
    · rw [hpath, hnil, child] at h hne
      obtain ⟨-, c', tail, heq, hne', -⟩ := h.split hne
      exact hne' (append_eq_nil_iff.mp heq.symm).1
    · rw [behindDir_eq_some.mpr ⟨hpath, hnil⟩] at hnone
      cases hnone
  · rename_i name hname
    obtain ⟨hpath, -⟩ := behindDir_eq_some.mp hname
    rw [Bool.not_eq_true', ← Bool.not_eq_true, contains_iff_mem]
    constructor
    · exact fun hno => ⟨name, hno, hpath⟩
    · rintro ⟨c, hno, hpath'⟩
      rw [hpath, child, child] at hpath'
      rwa [(cons.inj (append_cancel_left hpath')).2]

/-! ### Lookup -/

variable {fs : Fs}

private theorem find_entry (h : Opened entries) (he : e ∈ entries) :
    entries.find? (fun e' => e'.path == e.path) = some e := by
  obtain ⟨pre, post, rfl⟩ := append_of_mem he
  refine find?_eq_some_iff_append.mpr ⟨by simp, pre, post, rfl, fun e' he' => ?_⟩
  have hne := (pairwise_append.mp h.distinct).2.2 e' he' e mem_cons_self
  simpa using hne

/-- Lookup of an entry. -/
theorem opStat_entry (h : Opened fs.entries) (he : e ∈ fs.entries) :
    opStat fs e.path = .ok ⟨e.type, e.size, e.inode,
      if e.type = .dir then 0o555 else 0o444, 0, 0⟩ := by
  obtain ⟨hclean, hne⟩ := h.clean e he
  have hnorm : pathNormalize e.path pathMax = some e.path := hclean
  simp only [opStat, hne, if_false, findExact, hnorm, find_entry h he]

/-- Lookup of a path without an entry. -/
theorem opStat_implicit (hclean : Clean path) (hne : path ≠ [slash])
    (hno : ∀ e ∈ fs.entries, e.path ≠ path) :
    opStat fs path = if hasChildren fs path then .ok implicitDir else .error .noent := by
  have hnorm : pathNormalize path pathMax = some path := hclean
  have hfind : fs.entries.find? (fun e => e.path == path) = none :=
    find?_eq_none.mpr fun e he => by simpa using hno e he
  simp only [opStat, hne, if_false, findExact, hnorm, hfind]

private theorem hasChildren_iff (h : Opened fs.entries) (hne : path ≠ [slash]) :
    hasChildren fs path = true ↔ ∃ e ∈ fs.entries, ∃ c, slash ∉ c ∧
      e.path = path ++ slash :: c := by
  have hchild : ∀ c, child path c = path ++ slash :: c := fun c => by rw [child, base, if_neg hne]
  rw [hasChildren, any_eq_true]
  constructor
  · rintro ⟨e, he, hdirect⟩
    obtain ⟨c, hno, hc⟩ := (isDirectChild_iff (h.clean e he).1 (h.clean e he).2).mp hdirect
    exact ⟨e, he, c, hno, by rw [hc, hchild]⟩
  · rintro ⟨e, he, c, hno, hc⟩
    exact ⟨e, he, (isDirectChild_iff (h.clean e he).1 (h.clean e he).2).mpr
      ⟨c, hno, by rw [hc, hchild]⟩⟩

/-! ### Listing -/

private theorem opList_ok (hdir : Clean dir) {ents : List Dirent} : opList fs dir = .ok ents ↔
      (∃ st, opStat fs dir = .ok st ∧ st.type = .dir) ∧ ents = listLoop dir [] fs.entries := by
  have hnorm : pathNormalize dir pathMax = some dir := hdir
  simp only [opList, hnorm]
  cases hstat : opStat fs dir with
  | error e => simp
  | ok st =>
    by_cases htype : st.type = .dir
    · simp [htype, eq_comm]
    · simp [htype]

/-- The name that an entry has in a directory. -/
def nameIn (dir : List UInt8) (e : Entry) : Option (List UInt8) :=
  (immediateChildComponent dir e.path nameMax).map Prod.fst

/-- A name is listed as its first entry has it. -/
theorem listLoop_mem {d : Dirent} (h : d ∈ listLoop dir seen todo) :
    ∃ pre e post implicit, todo = pre ++ e :: post ∧
      immediateChildComponent dir e.path nameMax = some (d.name, implicit) ∧
      (∀ p ∈ seen ++ pre, nameIn dir p ≠ some d.name) ∧ d = e.dirent d.name implicit := by
  induction todo generalizing seen with
  | nil => exact nomatch h
  | cons e rest ih =>
    have hlater : d ∈ listLoop dir (seen ++ [e]) rest →
        ∃ pre e' post implicit, e :: rest = pre ++ e' :: post ∧
        immediateChildComponent dir e'.path nameMax = some (d.name, implicit) ∧
        (∀ p ∈ seen ++ pre, nameIn dir p ≠ some d.name) ∧ d = e'.dirent d.name implicit := by
      intro hd
      obtain ⟨pre, e', post, implicit, rfl, himm, hfirst, hd⟩ := ih hd
      refine ⟨e :: pre, e', post, implicit, rfl, himm, ?_, hd⟩
      rwa [append_assoc] at hfirst
    rw [listLoop] at h
    split at h
    · exact hlater h
    rename_i name implicit himm
    dsimp only at h
    split at h
    · exact hlater h
    rename_i hnew
    rcases mem_cons.mp h with rfl | h
    · refine ⟨[], e, rest, implicit, rfl, himm, fun p hp hname => hnew ?_, rfl⟩
      rw [append_nil] at hp
      exact any_eq_true.mpr ⟨p, hp, by simpa [nameIn, Entry.dirent] using hname⟩
    · exact hlater h

/-- Every name that an entry has in the directory is listed. -/
theorem listLoop_exists (he : e ∈ todo)
    (hname : nameIn dir e = some name) (hnew : ∀ p ∈ seen, nameIn dir p ≠ some name) :
    ∃ d ∈ listLoop dir seen todo, d.name = name := by
  induction todo generalizing seen with
  | nil => exact nomatch he
  | cons e' rest ih =>
    by_cases hsame : nameIn dir e' = some name
    · obtain ⟨⟨name', implicit⟩, himm, rfl⟩ := Option.map_eq_some_iff.mp hsame
      have hdup : seen.any (fun p => (immediateChildComponent dir p.path nameMax).map Prod.fst
          == some name') = false :=
        any_eq_false.mpr fun p hp => by simpa [nameIn] using hnew p hp
      rw [listLoop]
      simp only [himm, hdup, Bool.false_eq_true, if_false]
      exact ⟨_, mem_cons_self, rfl⟩
    · have hnew' : ∀ p ∈ seen ++ [e'], nameIn dir p ≠ some name := by
        intro p hp
        rcases mem_append.mp hp with hp | hp
        · exact hnew p hp
        · rw [mem_singleton.mp hp]
          exact hsame
      have hrest : e ∈ rest := by
        rcases mem_cons.mp he with rfl | he
        · exact absurd hname hsame
        · exact he
      obtain ⟨d, hd, hdname⟩ := ih hrest hnew'
      rw [listLoop]
      split
      · exact ⟨d, hd, hdname⟩
      dsimp only
      split
      · exact ⟨d, hd, hdname⟩
      · exact ⟨d, mem_cons_of_mem _ hd, hdname⟩

/-- An entry below a name of a directory has that name. -/
theorem nameIn_below (h : Opened fs.entries) (he : e ∈ fs.entries)
    (hno : slash ∉ name) (hne : name ≠ []) (hpath : e.path = child dir name ++ slash :: rest) :
    nameIn dir e = some name := by
  obtain ⟨hclean, hroot⟩ := h.clean e he
  rw [nameIn, (immediateChildComponent_eq_some hclean hroot).mpr
    ⟨hno, hne, .inr ⟨rfl, rest, hpath⟩⟩]
  rfl

/-! ### Agreement -/

/-- A path has one place in the list. -/
theorem split_unique (h : entries.Pairwise fun e e' => e.path ≠ e'.path)
    {pre pre' post post' : List Entry} {e' : Entry} (hsplit : entries = pre ++ e :: post)
    (hsplit' : entries = pre' ++ e' :: post') (hpath : e.path = e'.path) : pre = pre' := by
  subst hsplit
  induction pre generalizing pre' with
  | nil =>
    cases pre' with
    | nil => rfl
    | cons a pre' =>
      obtain ⟨rfl, hrest⟩ := cons.inj hsplit'
      have hmem : e' ∈ post := hrest ▸ mem_append_right _ mem_cons_self
      exact absurd hpath ((pairwise_cons.mp h).1 e' hmem)
  | cons b pre ih =>
    cases pre' with
    | nil =>
      obtain ⟨rfl, -⟩ := cons.inj hsplit'
      have hmem : e ∈ pre ++ e :: post := mem_append_right _ mem_cons_self
      exact absurd hpath.symm ((pairwise_cons.mp h).1 e hmem)
    | cons a pre' =>
      obtain ⟨rfl, hrest⟩ := cons.inj hsplit'
      rw [ih (pairwise_cons.mp h).2 hrest]

/-- A directory above an entry of an image with announced directories is a directory. -/
theorem Announced.stat_dir (ha : Announced fs) (h : Opened fs.entries) (he : e ∈ fs.entries)
    {a : List UInt8} (hpath : e.path = a ++ slash :: rest) (hne : a ≠ []) :
    ∃ st, opStat fs a = .ok st ∧ st.type = .dir := by
  obtain ⟨hclean, hroot⟩ := h.clean e he
  rw [hpath] at hclean hroot
  obtain ⟨hca, hra⟩ := (hclean.split hroot).1 hne
  by_cases hown : ∃ e' ∈ fs.entries, e'.path = a
  · obtain ⟨e', he', rfl⟩ := hown
    exact ⟨_, opStat_entry h he', h.leaf e' he' e he rest hpath⟩
  have hdirect := (ha.parent e he a rest hpath hne).resolve_left hown
  rw [opStat_implicit hca hra fun e' he' heq => hown ⟨e', he', heq⟩,
    if_pos ((hasChildren_iff h hra).mpr hdirect)]
  exact ⟨_, rfl, rfl⟩

private theorem Announced.agrees (ha : Announced fs) (h : Opened fs.entries) :
    ListingAgrees fs := by
  constructor
  · intro dir ents hdir hlist d hd
    obtain ⟨-, rfl⟩ := (opList_ok hdir).mp hlist
    obtain ⟨pre, e, post, implicit, hsplit, himm, hfirst, hd⟩ := listLoop_mem hd
    have he : e ∈ fs.entries := by
      rw [hsplit]
      exact mem_append_right _ mem_cons_self
    obtain ⟨hclean, hroot⟩ := h.clean e he
    obtain ⟨hno, hne, ⟨rfl, hpath⟩ | ⟨rfl, t, hpath⟩⟩ :=
      (immediateChildComponent_eq_some hclean hroot).mp himm
    · -- the entry itself
      rw [← hpath]
      refine ⟨_, opStat_entry h he, ?_, ?_⟩
      · rw [hd]
        rfl
      · rw [hd]
        rfl
    · -- a directory without an entry: one before `e` would be the first, one behind is out of order
      have hane : child dir d.name ≠ [] := by simp [child]
      rw [hpath] at hclean hroot
      obtain ⟨hca, hra⟩ := (hclean.split hroot).1 hane
      have hown : ¬∃ e' ∈ fs.entries, e'.path = child dir d.name := by
        rintro ⟨e', he', hpath'⟩
        rw [hsplit] at he'
        rcases mem_append.mp he' with hpre | hpost
        · refine hfirst e' (by simpa using hpre) ?_
          rw [nameIn, hpath', (immediateChildComponent_eq_some hca hra).mpr
            ⟨hno, hne, .inl ⟨rfl, rfl⟩⟩]
          rfl
        rcases mem_cons.mp hpost with rfl | hpost
        · rw [hpath'] at hpath
          have hlen := congrArg length hpath
          rw [length_append, length_cons] at hlen
          omega
        · obtain ⟨p₁, p₂, rfl⟩ := append_of_mem hpost
          have hsplit' : fs.entries = (pre ++ e :: p₁) ++ e' :: p₂ := by rw [hsplit]; simp
          exact ha.order _ e' p₂ hsplit' e (by simp) t (by rw [hpath', hpath])
      have hdirect := (ha.parent e he _ t hpath hane).resolve_left hown
      refine ⟨implicitDir, ?_, ?_, ?_⟩
      · rw [opStat_implicit hca hra fun e' he' heq => hown ⟨e', he', heq⟩,
          if_pos ((hasChildren_iff h hra).mpr hdirect)]
      · rw [hd]
        rfl
      · rw [hd]
        rfl
  · intro e he a rest hpath hne
    obtain ⟨hclean, hroot⟩ := h.clean e he
    rw [hpath] at hclean hroot
    obtain ⟨hca, hra⟩ := (hclean.split hroot).1 hne
    refine ⟨ha.stat_dir h he hpath hne, ?_⟩
    obtain ⟨q, name, rfl, hno, hname, hq⟩ := hca.last hra
    obtain ⟨dir, hdir, hbase, hstat⟩ : ∃ dir, Clean dir ∧ base dir = q ∧
        ∃ st, opStat fs dir = .ok st ∧ st.type = .dir := by
      by_cases hnil : q = []
      · exact ⟨[slash], rfl, by rw [hnil]; rfl, implicitDir, rfl, rfl⟩
      have hbelow : e.path = q ++ slash :: (name ++ slash :: rest) := by
        rw [hpath, append_assoc, cons_append]
      exact ⟨q, (hq hnil).1, if_neg (hq hnil).2, ha.stat_dir h he hbelow hnil⟩
    have hchild : child dir name = q ++ slash :: name := by rw [child, hbase]
    have hin : nameIn dir e = some name := nameIn_below h he hno hname (by rw [hchild]; exact hpath)
    have hnone : ∀ p ∈ ([] : List Entry), nameIn dir p ≠ some name := fun _ hp => nomatch hp
    obtain ⟨d, hd, rfl⟩ := listLoop_exists he hin hnone
    exact ⟨dir, _, hdir, (opList_ok hdir).mpr ⟨hstat, rfl⟩, d, hd, hchild⟩

private theorem ListingAgrees.announced (ha : ListingAgrees fs) (h : Opened fs.entries) :
    Announced fs := by
  constructor
  · intro e he a rest hpath hne
    obtain ⟨hclean, hroot⟩ := h.clean e he
    rw [hpath] at hclean hroot
    obtain ⟨hca, hra⟩ := (hclean.split hroot).1 hne
    by_cases hown : ∃ e' ∈ fs.entries, e'.path = a
    · exact .inl hown
    obtain ⟨⟨st, hstat, -⟩, -⟩ := ha.ancestor e he a rest hpath hne
    rw [opStat_implicit hca hra fun e' he' heq => hown ⟨e', he', heq⟩] at hstat
    split at hstat
    · rename_i hchildren
      exact .inr ((hasChildren_iff h hra).mp hchildren)
    · exact nomatch hstat
  · intro pre e' post hsplit e hpre rest hpath
    have he : e ∈ fs.entries := by
      rw [hsplit]
      exact mem_append_left _ hpre
    have he' : e' ∈ fs.entries := by
      rw [hsplit]
      exact mem_append_right _ mem_cons_self
    obtain ⟨-, dir, ents, hdir, hlist, d, hd, hchild⟩ :=
      ha.ancestor e he e'.path rest hpath (h.clean e' he').1.ne_nil
    obtain ⟨st, hstat, -, hinode⟩ := ha.entry dir ents hdir hlist d hd
    rw [hchild, opStat_entry h he'] at hstat
    rw [← Except.ok.inj hstat] at hinode
    obtain ⟨-, rfl⟩ := (opList_ok hdir).mp hlist
    obtain ⟨pre₀, e₀, post₀, implicit, hsplit₀, himm, hfirst, hd⟩ := listLoop_mem hd
    have he₀ : e₀ ∈ fs.entries := by
      rw [hsplit₀]
      exact mem_append_right _ mem_cons_self
    obtain ⟨hno, hne, ⟨rfl, hpath₀⟩ | ⟨rfl, -, -⟩⟩ :=
      (immediateChildComponent_eq_some (h.clean e₀ he₀).1 (h.clean e₀ he₀).2).mp himm
    · -- the first entry with the name is that of the directory, but `e` comes before it
      have hsame := split_unique h.distinct hsplit₀ hsplit (by rw [hpath₀, hchild])
      refine hfirst e (by simpa [hsame] using hpre) ?_
      exact nameIn_below h he hno hne (by rw [hchild]; exact hpath)
    · rw [hd] at hinode
      exact h.inode e' he' hinode

/-- On an image that `tarfs_open` accepts, listing and lookup agree exactly if each directory above
an entry has an entry or one directly in it, and no entry comes before that of a directory above
it. -/
theorem listing_agrees_iff (image : Nat → UInt8) (size : Nat) {fs : Fs}
    (h : tarfsOpen image size = some fs) :
    ListingAgrees fs ↔ Announced fs :=
  ⟨fun ha => ha.announced (tarfsOpen_opened h), fun ha => ha.agrees (tarfsOpen_opened h)⟩

/-! ### Two images -/

/-- A header with a name, a digit for the size, a type and a checksum. -/
def tarHeader (name : List UInt8) (size type : UInt8) (chksum : List UInt8) : Header := fun i =>
  if i < 100 then name.getD i 0
  else if i = 124 then size
  else if i = 156 then type
  else if 148 ≤ i ∧ i < 156 then chksum.getD (i - 148) 0
  else 0

/-- The directory `/d`, and in it the file `/d/f` of five bytes. -/
def nestedFs : Fs where
  image i :=
    if i < 512 then tarHeader [0x64] 0x30 0x35 [0x37, 0x31, 0x31] i
    else if i < 1024 then tarHeader [0x64, 0x2f, 0x66] 0x35 0x30 [0x31, 0x31, 0x33, 0x36] (i - 512)
    else if i < 1029 then 0x78
    else 0
  size := 2048
  entries := [⟨[0x2f, 0x64], 512, 0, .dir, 2⟩, ⟨[0x2f, 0x64, 0x2f, 0x66], 1024, 5, .file, 3⟩]

/-- The file `/a/b/c`, without its directories. -/
def deepFs : Fs :=
  ⟨tarHeader [0x61, 0x2f, 0x62, 0x2f, 0x63] 0x30 0x30 [0x31, 0x33, 0x34, 0x34], 1024,
    [⟨[0x2f, 0x61, 0x2f, 0x62, 0x2f, 0x63], 512, 0, .file, 2⟩]⟩

private theorem tarfsOpen_of_entries (hsize : 1024 ≤ fs.size)
    (hcount : (countEntries fs.image fs.size (fs.size / 512 + 1) 0 0).isSome = true)
    (hread : readEntries fs.image fs.size (fs.size / 512 + 1) 0 2 [] = some fs.entries) :
    tarfsOpen fs.image fs.size = some fs := by
  obtain ⟨n, hn⟩ := Option.isSome_iff_exists.mp hcount
  rw [tarfsOpen, if_neg (Nat.not_lt.mpr hsize), hn, hread]

private theorem nestedFs_open : tarfsOpen nestedFs.image nestedFs.size = some nestedFs :=
  tarfsOpen_of_entries (by decide) (by decide +kernel) (by decide +kernel)

theorem nested_layout : tarfsOpen nestedFs.image nestedFs.size = some nestedFs ∧
    Opened nestedFs.entries :=
  ⟨nestedFs_open, (tarfs_open_layout nestedFs_open).2.2⟩

theorem listing_agrees_nested : ListingAgrees nestedFs := by
  refine (listing_agrees_iff nestedFs.image nestedFs.size nestedFs_open).mpr ⟨?_, ?_⟩
  · -- a directory above an entry is its path up to a slash
    have hparents : ∀ e ∈ nestedFs.entries, ∀ n < e.path.length, e.path[n]? = some slash → n ≠ 0 →
        ∃ e' ∈ nestedFs.entries, e'.path = e.path.take n := by decide
    intro e he a rest hpath hne
    have hparent := hparents e he a.length
    rw [hpath] at hparent
    simp only [length_append, length_cons, take_left] at hparent
    exact .inl (hparent (by omega) (by simp) (by simpa using hne))
  · have hordered : nestedFs.entries.Pairwise fun e e' =>
        ¬e'.path ++ [slash] <+: e.path := by decide
    intro pre e' post hsplit e hpre rest hpath
    rw [hsplit] at hordered
    refine (pairwise_append.mp hordered).2.2 e hpre e' mem_cons_self ⟨rest, ?_⟩
    rw [hpath, append_assoc, singleton_append]

/-- `/` lists the directory `a`, and lookup of `/a` fails: no entry is directly in it. -/
theorem listed_not_found : tarfsOpen deepFs.image deepFs.size = some deepFs ∧
    opList deepFs [0x2f] = .ok [⟨[0x61], .dir, 0, 0⟩] ∧ opStat deepFs [0x2f, 0x61] = .error .noent ∧
    ¬ListingAgrees deepFs := by
  have hlist : opList deepFs [0x2f] = .ok [⟨[0x61], .dir, 0, 0⟩] := by decide +kernel
  have hstat : opStat deepFs [0x2f, 0x61] = .error .noent := by decide +kernel
  refine ⟨tarfsOpen_of_entries (by decide) (by decide +kernel) (by decide +kernel), hlist,
    hstat, fun h => ?_⟩
  obtain ⟨st, hok, -⟩ := h.entry [0x2f] _ rfl hlist _ mem_cons_self
  exact nomatch hstat.symm.trans hok

end Rabbitbone.Spec.Tarfs
