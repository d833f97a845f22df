import Mathlib.Data.List.Basic
import Rabbitbone.Native.Sys.Pipe

/-!
# A pipe as a stream

What is read from a pipe is what was written to it, in order: at every point of a run the bytes that
writes have reported are the bytes that reads have returned, followed by those in the buffer.

The exception is the offset of a descriptor.  A chunk is moved before the number of its bytes is
added to the offset, and if that addition overflows the syscall returns without counting the chunk:
the bytes of a write are in the pipe but not reported, and those of a read are lost.

## Key results

- `pipeWriteLoop_spec`, `pipeReadLoop_spec`: the chunked loops move as much as fits.
- `Counted`: the reference counts are the numbers of descriptors, kept by every step.
- `pipe_faithful_iff`: the stream is faithful in exactly the runs in which no offset overflows.
-/

namespace Rabbitbone.Spec.Sys

open Native Native.Sys List Nat PipeSystem

/-! ### User memory -/

@[simp] theorem length_slice (mem : UserMem) (a n : Nat) : (mem.slice a n).length = n := by
  simp [UserMem.slice]

private theorem slice_add (mem : UserMem) (a m n : Nat) :
    mem.slice a (m + n) = mem.slice a m ++ mem.slice (a + m) n := by
  simp only [UserMem.slice, range_add, map_append, map_map]
  refine congrArg (_ ++ ·) (map_congr_left fun i _ => ?_)
  simp only [Function.comp_apply, add_assoc]

private theorem take_slice (mem : UserMem) (a : Nat) {m n : Nat} (h : m ≤ n) :
    (mem.slice a n).take m = mem.slice a m := by
  obtain ⟨d, rfl⟩ := Nat.exists_eq_add_of_le h
  rw [slice_add, take_left' (length_slice mem a m)]

private theorem slice_store (mem : UserMem) (a m : Nat) (data : List UInt8) :
    (mem.store (a + m) data).slice a (m + data.length) = mem.slice a m ++ data := by
  rw [slice_add]
  congr 1
  · refine map_congr_left fun i hi => ?_
    have hi : i < m := mem_range.mp hi
    exact if_neg (by omega)
  · refine ext_getElem (by simp) fun i _ hi => ?_
    simp only [UserMem.slice, UserMem.store, getElem_map, getElem_range]
    rw [if_pos (by omega), Nat.add_sub_cancel_left, getD_eq_getElem?_getD,
      getElem?_eq_getElem hi, Option.getD_some]

section Buffer

variable {mem : UserMem} {buf len total n : Nat} {write : Bool}

/-- A part of a valid buffer is valid, and its address is one. -/
theorem validate_part (h : processValidateUserRange mem buf len write = true) (hn : 0 < n)
    (hle : total + n ≤ len) :
    processValidateUserRange mem (buf + total) n write = true ∧ 0 < buf + total
      ∧ buf + total + n ≤ userLimit := by
  simp only [processValidateUserRange, userRangeCheck, Bool.and_eq_true, Bool.or_eq_true,
    decide_eq_true_eq, all_eq_true, mem_range] at h ⊢
  obtain ⟨hrange, hall⟩ := h
  have hmin : 0 < userMin := by decide
  refine ⟨⟨Or.inr ⟨by omega, by omega⟩, fun i hi => ?_⟩, by omega, by omega⟩
  rw [add_assoc]
  exact hall (total + i) (by omega)

private theorem userLimit_lt : userLimit < 2 ^ 64 := by decide

private theorem addUserPtr_part (h : processValidateUserRange mem buf len write = true)
    (hlt : total < len) : addUserPtr buf total = some (buf + total) := by
  obtain ⟨-, -, hle⟩ := validate_part h (by omega) (by omega : total + 1 ≤ len)
  have := userLimit_lt
  exact if_pos (by omega)

/-- The size of the next chunk. -/
theorem limitUserIoChunk_part (h : processValidateUserRange mem buf len write = true)
    (hlt : total < len) :
    0 < limitUserIoChunk buf total (min (len - total) ioChunk)
      ∧ total + limitUserIoChunk buf total (min (len - total) ioChunk) ≤ len := by
  have hchunk : 0 < ioChunk := by decide
  have hpage : 0 < pageSize := by decide
  have hmod := mod_lt (buf + total) hpage
  simp only [limitUserIoChunk, addUserPtr_part h hlt]
  rw [if_neg (by omega)]
  omega

private theorem copyInBuf_part (h : processValidateUserRange mem buf len false = true) (hn : 0 < n)
    (hle : total + n ≤ len) : copyInBuf mem (buf + total) n = some (mem.slice (buf + total) n) := by
  obtain ⟨hvalid, hpos, -⟩ := validate_part h hn hle
  rw [copyInBuf, if_neg (by omega), if_neg (by omega), if_pos hvalid]

private theorem validateUserWriteRange_part (h : processValidateUserRange mem buf len true = true)
    (hn : 0 < n) (hle : total + n ≤ len) :
    validateUserWriteRange mem (buf + total) n = true := by
  obtain ⟨hvalid, hpos, hlim⟩ := validate_part h hn hle
  have := userLimit_lt
  simp only [validateUserWriteRange, hvalid, Bool.or_eq_true, Bool.and_eq_true, decide_eq_true_eq]
  exact Or.inr ⟨⟨by omega, by omega⟩, trivial⟩

private theorem copyOutBuf_part (h : processValidateUserRange mem buf len true = true)
    {data : List UInt8} (hn : 0 < data.length) (hle : total + data.length ≤ len) :
    copyOutBuf mem (buf + total) data = some (mem.store (buf + total) data) := by
  obtain ⟨hvalid, hpos, -⟩ := validate_part h hn hle
  rw [copyOutBuf, if_neg (by omega), if_neg (by omega), if_pos hvalid]

private theorem validateUserRangeShape_of_valid
    (h : processValidateUserRange mem buf len write = true) :
    validateUserRangeShape buf len = true := by
  have hlim := userLimit_lt
  have hmin : 0 < userMin := by decide
  simp only [processValidateUserRange, userRangeCheck, Bool.and_eq_true, Bool.or_eq_true,
    decide_eq_true_eq] at h
  simp only [validateUserRangeShape, userRangeCheck, Bool.or_eq_true, Bool.and_eq_true,
    decide_eq_true_eq]
  obtain ⟨hzero | ⟨hlow, hhigh⟩, -⟩ := h
  · exact Or.inl hzero
  · exact Or.inr ⟨⟨by omega, by omega⟩, Or.inr ⟨hlow, hhigh⟩⟩

end Buffer

private theorem addOverflow_toNat {a : UInt64} {n : Nat} (h : a.toNat + n < 2 ^ 64) :
    (addOverflow a n).2.toNat = a.toNat + n := by
  simp only [addOverflow, UInt64.toNat_add, UInt64.toNat_ofNat']
  omega

/-! ### One chunk -/

/-- The reference counts of a pipe are what they were. -/
def SameRefs (p q : SysPipe) : Prop := q.readRefs = p.readRefs ∧ q.writeRefs = p.writeRefs

variable {p q : SysPipe} {ops : List PipeOp} {e : Endpoint} {kind : EndpointKind}
  {l : List Endpoint}
  {src : List UInt8} {buf i len total : Nat} {a : UInt32} {off : UInt64} {mem : UserMem}

theorem SameRefs.trans {r : SysPipe} (h : SameRefs p q) (h' : SameRefs q r) : SameRefs p r :=
  ⟨h'.1.trans h.1, h'.2.trans h.2⟩

/-- The bytes in the buffer. -/
def contents (p : SysPipe) : List UInt8 := p.ring.contents

@[simp] theorem length_contents (p : SysPipe) : (contents p).length = p.ring.size :=
  p.ring.length_contents

private theorem pipeWriteBytes_full (hsrc : 0 < src.length) (hrefs : p.readRefs ≠ 0)
    (hfull : p.ring.size = pipeBuffer) : pipeWriteBytes p src = (.full, 0, p) := by
  rw [pipeWriteBytes, if_neg (by omega), if_neg hrefs, if_pos (by omega)]

private theorem pipeWriteBytes_ok (hsrc : 0 < src.length) (hrefs : p.readRefs ≠ 0)
    (hroom : p.ring.size < pipeBuffer) :
    ∃ q, pipeWriteBytes p src = (.ok, min src.length (pipeBuffer - p.ring.size), q) ∧ SameRefs p q
      ∧ contents q = contents p ++ src.take (min src.length (pipeBuffer - p.ring.size)) := by
  rw [pipeWriteBytes, if_neg (by omega), if_neg hrefs, if_neg (by omega)]
  refine ⟨_, rfl, ⟨rfl, rfl⟩, RingBuffer.contents_pushList ?_⟩
  rw [length_take]
  omega

private theorem pipeReadBytes_none (hlen : 0 < len) (hsize : p.ring.size = 0) :
    pipeReadBytes p len = (if p.writeRefs = 0 then .eof else .empty, [], p) := by
  rw [pipeReadBytes, if_neg (by omega), if_pos hsize]

private theorem pipeReadBytes_ok (hlen : 0 < len) (hsize : 0 < p.ring.size) :
    ∃ chunk q, pipeReadBytes p len = (.ok, chunk, q) ∧ SameRefs p q
      ∧ contents p = chunk ++ contents q ∧ chunk.length = min len p.ring.size := by
  rw [pipeReadBytes, if_neg (by omega), if_neg (by omega)]
  obtain ⟨heq, hcount⟩ := RingBuffer.contents_popList (min_le_right len p.ring.size)
  exact ⟨_, _, rfl, ⟨rfl, rfl⟩, heq, hcount⟩

/-! ### The loops -/

/-- How many bytes a syscall says it has transferred. -/
def reported : SysResult → Nat
  | .ok n => n.toNat
  | .error _ => 0

@[simp] theorem reported_ok (n : Nat) : reported (.ok (n : Int)) = n := rfl

private theorem reported_okOr (total : Nat) (e : VfsStatus) : reported (okOr total e) = total := by
  rw [okOr]
  split
  · exact Eq.symm ‹_›
  · rfl

/-- What a loop that can move `k` more bytes has written to the pipe. -/
def WritesUpTo (mem : UserMem) (buf total k : Nat) (off : UInt64) (p : SysPipe)
    (out : SysResult × UInt64 × Option SysPipe) : Prop :=
  ∃ q moved, out.2.2 = some q ∧ SameRefs p q
    ∧ contents q = contents p ++ mem.slice (buf + total) moved
    ∧ (off.toNat + k < 2 ^ 64 →
        out.1 = .ok (total + k : Nat) ∧ out.2.1.toNat = off.toNat + k ∧ moved = k)
    ∧ (2 ^ 64 ≤ off.toNat + k → reported out.1 < total + moved)

/-- Nothing more is written. -/
theorem WritesUpTo.stop : WritesUpTo mem buf total 0 off p (.ok total, off, some p) :=
  ⟨p, 0, rfl, ⟨rfl, rfl⟩, (append_nil _).symm, fun _ => ⟨rfl, rfl, rfl⟩,
    fun h => absurd off.toNat_lt (by omega)⟩

private theorem pipeWriteLoop_spec (hvalid : processValidateUserRange mem buf len false = true) :
    ∀ (fuel total : Nat) (off : UInt64) (p : SysPipe), p.readRefs ≠ 0 → len ≤ total + fuel →
      WritesUpTo mem buf total (min (len - total) (pipeBuffer - p.ring.size)) off p
        (pipeWriteLoop mem buf len fuel total off (some p)) := by
  intro fuel
  induction fuel with
  | zero =>
    intro total off p _ hfuel
    rw [show len - total = 0 by omega, Nat.zero_min]
    exact .stop
  | succ fuel ih =>
    intro total off p hrefs hfuel
    rw [pipeWriteLoop]
    by_cases hlt : total < len
    case neg =>
      rw [if_neg hlt, show len - total = 0 by omega, Nat.zero_min]
      exact .stop
    rw [if_pos hlt]
    obtain ⟨hn, hnle⟩ := limitUserIoChunk_part hvalid hlt
    generalize limitUserIoChunk buf total (min (len - total) ioChunk) = n at hn hnle
    simp only [addUserPtr_part hvalid hlt, Option.bind_some, copyInBuf_part hvalid hn hnle,
      if_neg (by omega : ¬ n = 0), pipeWriteById]
    have hlen : 0 < (mem.slice (buf + total) n).length := by rwa [length_slice]
    have hsize := p.ring.size_le
    by_cases hfull : p.ring.size = pipeBuffer
    · -- nothing fits
      rw [pipeWriteBytes_full hlen hrefs hfull, show pipeBuffer - p.ring.size = 0 by omega,
        Nat.min_zero]
      exact .stop
    obtain ⟨q, hwrite, hsame, hcontents⟩ := pipeWriteBytes_ok hlen hrefs (by omega)
    rw [length_slice] at hwrite hcontents
    rw [take_slice mem _ (min_le_left _ _)] at hcontents
    rw [hwrite]
    have hqsize : q.ring.size = p.ring.size + min n (pipeBuffer - p.ring.size) := by
      have := congrArg length hcontents
      rwa [length_append, length_contents, length_contents, length_slice] at this
    generalize hw : min n (pipeBuffer - p.ring.size) = wrote at hcontents hqsize
    simp only [if_neg (by omega : ¬ wrote = 0)]
    by_cases hover : 2 ^ 64 ≤ off.toNat + wrote
    · -- the chunk is in the pipe, but it is not counted
      have : (addOverflow off wrote).1 = true := decide_eq_true hover
      rw [if_pos this]
      refine ⟨q, wrote, rfl, hsame, hcontents, fun h => ?_, fun _ => ?_⟩
      · omega
      · rw [reported_okOr]
        omega
    have : ¬ (addOverflow off wrote).1 = true := by
      simpa [addOverflow] using hover
    rw [if_neg this]
    have hoff := addOverflow_toNat (Nat.lt_of_not_le hover)
    by_cases hshort : wrote < n
    · -- the buffer is full now
      rw [if_pos (Or.inl hshort)]
      refine ⟨q, wrote, rfl, hsame, hcontents, fun _ => ⟨?_, ?_, ?_⟩, fun h => ?_⟩
      · rw [show min (len - total) (pipeBuffer - p.ring.size) = wrote by omega]
      · rw [show min (len - total) (pipeBuffer - p.ring.size) = wrote by omega, hoff]
      · omega
      · omega
    -- the whole chunk has gone in: the rest is the loop from here on
    rw [if_neg (by simp; omega)]
    have hrefs' : q.readRefs ≠ 0 := by rwa [hsame.1]
    obtain ⟨r, moved, hpipe, hsame', hcontents', hok, hfail⟩ :=
      ih (total + wrote) (addOverflow off wrote).2 q hrefs' (by omega)
    have hk : wrote + min (len - (total + wrote)) (pipeBuffer - q.ring.size)
        = min (len - total) (pipeBuffer - p.ring.size) := by omega
    refine ⟨r, wrote + moved, hpipe, hsame.trans hsame', ?_, fun h => ?_, fun h => ?_⟩
    · rw [hcontents', hcontents, append_assoc, slice_add, add_assoc]
    · obtain ⟨hres, hoff', hmoved⟩ := hok (by omega)
      refine ⟨?_, by omega, by omega⟩
      rw [hres, ← hk, add_assoc]
    · omega

/-- What a loop that can move `k` more bytes has read from the pipe. -/
def ReadsUpTo (buf len total k : Nat) (off : UInt64) (mem : UserMem) (p : SysPipe)
    (out : SysResult × UInt64 × UserMem × Option SysPipe) : Prop :=
  ∃ q moved, out.2.2.2 = some q ∧ SameRefs p q ∧ contents p = moved ++ contents q
    ∧ (off.toNat + k < 2 ^ 64 →
        reported out.1 = total + k ∧ out.2.1.toNat = off.toNat + k ∧ moved.length = k
          ∧ out.2.2.1.slice buf (total + k) = mem.slice buf total ++ moved
          ∧ (out.1 = .ok 0 → total < len → contents p = [] ∧ p.writeRefs = 0))
    ∧ (2 ^ 64 ≤ off.toNat + k → reported out.1 < total + moved.length)

/-- Nothing more is read. -/
theorem ReadsUpTo.stop {res : SysResult} (hres : reported res = total)
    (heof : res = .ok 0 → total < len → contents p = [] ∧ p.writeRefs = 0) :
    ReadsUpTo buf len total 0 off mem p (res, off, mem, some p) :=
  ⟨p, [], rfl, ⟨rfl, rfl⟩, rfl, fun _ => ⟨hres, rfl, rfl, (append_nil _).symm, heof⟩,
    fun h => absurd off.toNat_lt (by omega)⟩

private theorem pipeReadLoop_spec :
    ∀ (fuel total : Nat) (off : UInt64) (mem : UserMem) (p : SysPipe),
      processValidateUserRange mem buf len true = true → len ≤ total + fuel →
      ReadsUpTo buf len total (min (len - total) p.ring.size) off mem p
        (pipeReadLoop buf len fuel total off mem (some p)) := by
  intro fuel
  induction fuel with
  | zero =>
    intro total off mem p _ hfuel
    rw [show len - total = 0 by omega, Nat.zero_min]
    exact .stop rfl fun _ h => absurd h (by omega)
  | succ fuel ih =>
    intro total off mem p hvalid hfuel
    rw [pipeReadLoop]
    by_cases hlt : total < len
    case neg =>
      rw [if_neg hlt, show len - total = 0 by omega, Nat.zero_min]
      exact .stop rfl fun _ h => absurd h hlt
    rw [if_pos hlt]
    obtain ⟨hn, hnle⟩ := limitUserIoChunk_part hvalid hlt
    generalize limitUserIoChunk buf total (min (len - total) ioChunk) = n at hn hnle
    have hguard : ¬ (n = 0 ∨ validateUserWriteRange mem (buf + total) n = false) := by
      rw [validateUserWriteRange_part hvalid hn hnle]
      simp only [Bool.true_eq_false, or_false]
      omega
    simp only [addUserPtr_part hvalid hlt, if_neg hguard, pipeReadById]
    by_cases hempty : p.ring.size = 0
    · -- nothing is left: the end of the stream if nobody can write any more
      have hnil : contents p = [] := eq_nil_of_length_eq_zero (by rw [length_contents, hempty])
      rw [pipeReadBytes_none hn hempty, hempty, Nat.min_zero]
      by_cases heof : p.writeRefs = 0
      · rw [if_pos heof]
        exact .stop rfl fun _ _ => ⟨hnil, heof⟩
      rw [if_neg heof]
      refine .stop (reported_okOr _ _) fun h => ?_
      rw [okOr] at h
      split at h
      · exact absurd h (by simp)
      · have : (total : Int) = 0 := Except.ok.inj h
        omega
    obtain ⟨chunk, q, hread, hsame, hcontents, hchunk⟩ :=
      pipeReadBytes_ok hn (Nat.pos_of_ne_zero hempty)
    have hqsize : p.ring.size = chunk.length + q.ring.size := by
      have := congrArg length hcontents
      rwa [length_append, length_contents, length_contents] at this
    rw [hread]
    have hpos : 0 < chunk.length := by omega
    simp only [if_neg (by omega : ¬ chunk.length = 0),
      copyOutBuf_part hvalid hpos (by omega : total + chunk.length ≤ len)]
    by_cases hover : 2 ^ 64 ≤ off.toNat + chunk.length
    · -- the chunk has left the pipe, but it is not counted
      have : (addOverflow off chunk.length).1 = true := decide_eq_true hover
      rw [if_pos this]
      refine ⟨q, chunk, rfl, hsame, hcontents, fun h => ?_, fun _ => ?_⟩
      · omega
      · rw [reported_okOr]
        omega
    have : ¬ (addOverflow off chunk.length).1 = true := by
      simpa [addOverflow] using hover
    rw [if_neg this]
    have hoff := addOverflow_toNat (Nat.lt_of_not_le hover)
    have hslice := slice_store mem buf total chunk
    by_cases hshort : chunk.length < n
    · -- the pipe is empty now
      rw [if_pos hshort]
      have hk : min (len - total) p.ring.size = chunk.length := by omega
      rw [hk]
      refine ⟨q, chunk, rfl, hsame, hcontents, fun _ => ⟨rfl, hoff, rfl, hslice, fun h => ?_⟩,
        fun h => absurd h hover⟩
      have : ((total + chunk.length : Nat) : Int) = 0 := Except.ok.inj h
      omega
    -- the whole chunk has been read: the rest is the loop from here on
    rw [if_neg hshort]
    obtain ⟨r, moved, hpipe, hsame', hcontents', hok, hfail⟩ :=
      ih (total + chunk.length) (addOverflow off chunk.length).2
        (mem.store (buf + total) chunk) q hvalid (by omega)
    have hk : chunk.length + min (len - (total + chunk.length)) q.ring.size
        = min (len - total) p.ring.size := by omega
    refine ⟨r, chunk ++ moved, hpipe, hsame.trans hsame', ?_, fun h => ?_, fun h => ?_⟩
    · rw [hcontents, hcontents', append_assoc]
    · obtain ⟨hres, hoff', hmoved, hslice', -⟩ := hok (by omega)
      refine ⟨by omega, by omega, by rw [length_append]; omega, ?_, fun h0 => ?_⟩
      · rw [← hk, ← add_assoc, hslice', hslice, append_assoc]
      · rw [h0] at hres
        have : 0 = total + chunk.length + _ := hres
        omega
    · rw [length_append]
      omega

/-! ### The reference counts -/

/-- The count for a kind of descriptor. -/
def refs (p : SysPipe) : EndpointKind → UInt32
  | .read => p.readRefs
  | .write => p.writeRefs

private theorem SameRefs.refs_eq (h : SameRefs p q) (kind : EndpointKind) :
    refs q kind = refs p kind := by
  cases kind with
  | read => exact h.1
  | write => exact h.2

private theorem toNat_succ (h : a ≠ 0xffffffff) : (a + 1).toNat = a.toNat + 1 := by
  have hmax : a.toNat ≠ 0xffffffff := fun heq => h (UInt32.toNat.inj heq)
  have hlt := a.toNat_lt
  rw [UInt32.toNat_add, UInt32.toNat_one]
  omega

private theorem toNat_pred (h : a ≠ 0) : (a - 1).toNat + 1 = a.toNat := by
  have hpos : a.toNat ≠ 0 := fun heq => h (UInt32.toNat.inj heq)
  have hlt := a.toNat_lt
  rw [UInt32.toNat_sub, UInt32.toNat_one]
  omega

private theorem pipeRef_some (h : pipeRef p kind = some q) : contents q = contents p ∧
      ∀ k, (refs q k).toNat = (refs p k).toNat + if k = kind then 1 else 0 := by
  cases kind with
  | read =>
    simp only [pipeRef] at h
    split at h
    · exact nomatch h
    obtain rfl := Option.some.inj h
    refine ⟨rfl, fun k => ?_⟩
    cases k with
    | read => exact toNat_succ ‹_›
    | write => rfl
  | write =>
    simp only [pipeRef] at h
    split at h
    · exact nomatch h
    obtain rfl := Option.some.inj h
    refine ⟨rfl, fun k => ?_⟩
    cases k with
    | read => rfl
    | write => exact toNat_succ ‹_›

/-- A count that is not zero can be dropped; the pipe goes with the last one. -/
theorem pipeUnref_of_pos (h : refs p kind ≠ 0) :
    ∃ q, pipeUnref p kind = some (if q.readRefs = 0 ∧ q.writeRefs = 0 then none else some q)
      ∧ contents q = contents p
      ∧ ∀ k, (refs q k).toNat + (if k = kind then 1 else 0) = (refs p k).toNat := by
  cases kind with
  | read =>
    have hne : p.readRefs ≠ 0 := h
    simp only [pipeUnref, if_neg hne, Option.map_some]
    refine ⟨{ p with readRefs := p.readRefs - 1 }, rfl, rfl, fun k => ?_⟩
    cases k with
    | read => exact toNat_pred hne
    | write => rfl
  | write =>
    have hne : p.writeRefs ≠ 0 := h
    simp only [pipeUnref, if_neg hne, Option.map_some]
    refine ⟨{ p with writeRefs := p.writeRefs - 1 }, rfl, rfl, fun k => ?_⟩
    cases k with
    | read => rfl
    | write => exact toNat_pred hne

/-- How many descriptors of a kind there are. -/
def endpointCount (l : List Endpoint) (kind : EndpointKind) : Nat :=
  (l.map Endpoint.kind).count kind

private theorem endpointCount_concat (l : List Endpoint) (e : Endpoint) (kind : EndpointKind) :
    endpointCount (l ++ [e]) kind = endpointCount l kind + if kind = e.kind then 1 else 0 := by
  simp only [endpointCount, map_append, map_singleton, count_append,
    count_singleton, beq_iff_eq, eq_comm (a := kind)]

private theorem endpointCount_set (h : l[i]? = some e) (off : UInt64) (kind : EndpointKind) :
    endpointCount (l.set i { e with offset := off }) kind = endpointCount l kind := by
  have hkinds : (l.map Endpoint.kind)[i]? = some e.kind := by rw [getElem?_map, h, Option.map_some]
  have hsame : (l.map Endpoint.kind).set i e.kind = l.map Endpoint.kind := by
    refine ext_getElem? fun j => ?_
    by_cases hj : i = j
    · subst j
      rw [getElem?_set_self (List.getElem?_eq_some_iff.mp hkinds).1, hkinds]
    · rw [getElem?_set_ne hj]
  rw [endpointCount, endpointCount, map_set, hsame]

private theorem endpointCount_eraseIdx (h : l[i]? = some e) (kind : EndpointKind) :
    endpointCount (l.eraseIdx i) kind + (if kind = e.kind then 1 else 0) =
      endpointCount l kind := by
  obtain ⟨hi, hget⟩ := List.getElem?_eq_some_iff.mp h
  have hsplit : l = l.take i ++ e :: l.drop (i + 1) := by
    rw [← hget, getElem_cons_drop, take_append_drop]
  rw [eraseIdx_eq_take_drop_succ]
  conv_rhs => rw [hsplit]
  simp only [endpointCount, map_append, map_cons, count_append, count_cons,
    beq_iff_eq, eq_comm (a := kind)]
  omega

/-- The counts of the pipe are the numbers of descriptors, and it is freed with the last of them. -/
structure Counted (s : PipeSystem) : Prop where
  count : ∀ p, s.pipe = some p → ∀ kind, (refs p kind).toNat = endpointCount s.endpoints kind
  freed : s.pipe = none → s.endpoints = []

private theorem counted_sysPipe : Counted sysPipe where
  count p hp kind := by
    cases hp
    cases kind with
    | read => rfl
    | write => rfl
  freed h := by cases h

section Steps

variable {s : PipeSystem} {i : Nat} {e : Endpoint}

private theorem Counted.pipe_isSome (h : Counted s) (he : s.endpoints[i]? = some e) :
    ∃ p, s.pipe = some p := by
  cases hp : s.pipe with
  | some p => exact ⟨p, rfl⟩
  | none =>
    rw [h.freed hp] at he
    simp at he

/-- Transferring bytes moves an offset, and no descriptor comes or goes. -/
theorem Counted.transfer (h : Counted s) (he : s.endpoints[i]? = some e) (hp : s.pipe = some p)
    (hsame : SameRefs p q) (off : UInt64) :
    Counted { pipe := some q, endpoints := s.endpoints.set i { e with offset := off } } := by
  refine ⟨fun r hr kind => ?_, fun hr => nomatch hr⟩
  obtain rfl := Option.some.inj hr
  rw [hsame.refs_eq, h.count p hp kind, endpointCount_set he]

/-- A duplicate is counted and changes nothing in the pipe. -/
theorem Counted.dup (h : Counted s) (i : Nat) : Counted (s.dup i)
      ∧ ∀ p', (s.dup i).pipe = some p' → ∃ p, s.pipe = some p ∧ contents p' = contents p := by
  have hidle : Counted s ∧ ∀ p', s.pipe = some p' →
      ∃ p, s.pipe = some p ∧ contents p' = contents p :=
    ⟨h, fun p' hp' => ⟨p', hp', rfl⟩⟩
  rw [PipeSystem.dup]
  cases he : s.endpoints[i]? with
  | none => exact hidle
  | some e =>
    obtain ⟨p, hp⟩ := h.pipe_isSome he
    dsimp only
    rw [hp, Option.bind_some]
    cases href : pipeRef p e.kind with
    | none => exact hp ▸ hidle
    | some q =>
      obtain ⟨hcontents, hrefs⟩ := pipeRef_some href
      refine ⟨⟨fun r hr kind => ?_, fun hr => nomatch hr⟩, fun p' hp' => ?_⟩
      · obtain rfl := Option.some.inj hr
        rw [hrefs, h.count p hp kind, endpointCount_concat]
      · obtain rfl := Option.some.inj hp'
        exact ⟨p, rfl, hcontents⟩

/-- Closing a descriptor never runs into the panic on a double close. -/
theorem Counted.close (h : Counted s) (i : Nat) : ∃ s', s.close i = some s' ∧ Counted s'
      ∧ ∀ p', s'.pipe = some p' → ∃ p, s.pipe = some p ∧ contents p' = contents p := by
  rw [PipeSystem.close]
  cases he : s.endpoints[i]? with
  | none => exact ⟨s, rfl, h, fun p' hp' => ⟨p', hp', rfl⟩⟩
  | some e =>
    obtain ⟨p, hp⟩ := h.pipe_isSome he
    have hcount := h.count p hp
    have hpos : refs p e.kind ≠ 0 := by
      intro hzero
      have := endpointCount_eraseIdx he e.kind
      rw [if_pos rfl, ← hcount, hzero] at this
      exact absurd this (succ_ne_zero _)
    obtain ⟨q, hunref, hcontents, hrefs⟩ := pipeUnref_of_pos hpos
    have hcount' : ∀ kind, (refs q kind).toNat = endpointCount (s.endpoints.eraseIdx i) kind := by
      intro kind
      have h₁ := hrefs kind
      have h₂ := endpointCount_eraseIdx he kind
      have h₃ := hcount kind
      omega
    simp only [hp, hunref, Option.map_some]
    refine ⟨_, rfl, ?_, ?_⟩
    · by_cases hlast : q.readRefs = 0 ∧ q.writeRefs = 0
      · rw [if_pos hlast]
        refine ⟨fun r hr => (nomatch hr), fun _ => ?_⟩
        -- no descriptor of either kind is left
        refine eq_nil_iff_forall_not_mem.mpr fun a ha => ?_
        have hmem := count_pos_iff.mpr (mem_map_of_mem (f := Endpoint.kind) ha)
        have hzero : (refs q a.kind).toNat = 0 := by
          cases a.kind with
          | read => exact congrArg UInt32.toNat hlast.1
          | write => exact congrArg UInt32.toNat hlast.2
        rw [hcount'] at hzero
        exact absurd hzero (ne_of_gt hmem)
      · rw [if_neg hlast]
        refine ⟨fun r hr kind => ?_, fun hr => nomatch hr⟩
        obtain rfl := Option.some.inj hr
        exact hcount' kind
    · intro p' hp'
      split at hp'
      · exact nomatch hp'
      · obtain rfl := Option.some.inj hp'
        exact ⟨p, rfl, hcontents⟩

end Steps

/-! ### One syscall -/

/-- A write adds at most what fits into the buffer to the offset of its descriptor, and that does
not overflow. -/
def WriteFits (e : Endpoint) (p : SysPipe) (len : Nat) : Prop :=
  e.kind = .write → len ≤ maxIoBytes → p.readRefs ≠ 0 →
    e.offset.toNat + min len (pipeBuffer - (contents p).length) < 2 ^ 64

/-- A read adds at most what is in the buffer to the offset of its descriptor, and that does not
overflow. -/
def ReadFits (e : Endpoint) (p : SysPipe) (len : Nat) : Prop :=
  e.kind = .read → len ≤ maxIoBytes → e.offset.toNat + min len (contents p).length < 2 ^ 64

/-- Nobody can read any more: nothing is written. -/
theorem pipeWriteLoop_closed {mem : UserMem} {buf len : Nat}
    (hvalid : processValidateUserRange mem buf len false = true) (hrefs : p.readRefs = 0)
    (fuel : Nat) (off : UInt64) :
    (pipeWriteLoop mem buf len fuel 0 off (some p)).2.2 = some p
      ∧ reported (pipeWriteLoop mem buf len fuel 0 off (some p)).1 = 0 := by
  cases fuel with
  | zero => exact ⟨rfl, rfl⟩
  | succ fuel =>
    rw [pipeWriteLoop]
    by_cases hlt : 0 < len
    case neg =>
      rw [if_neg hlt]
      exact ⟨rfl, rfl⟩
    rw [if_pos hlt]
    obtain ⟨hn, hnle⟩ := limitUserIoChunk_part hvalid hlt
    generalize limitUserIoChunk buf 0 (min (len - 0) ioChunk) = n at hn hnle
    have hclosed : pipeWriteBytes p (mem.slice (buf + 0) n) = (.closed, 0, p) := by
      rw [pipeWriteBytes, if_neg (by rw [length_slice]; omega), if_pos hrefs]
    simp only [addUserPtr_part hvalid hlt, Option.bind_some, copyInBuf_part hvalid hn hnle,
      if_neg (by omega : ¬ n = 0), pipeWriteById, hclosed]
    exact ⟨trivial, reported_okOr _ _⟩

/-- What a write moves is what it reports, unless the offset overflows. -/
def Writes (b : UserBuf false) (e : Endpoint) (p : SysPipe)
    (out : SysResult × UInt64 × Option SysPipe) :
    Prop :=
  ∃ q moved, out.2.2 = some q ∧ SameRefs p q ∧ contents q = contents p ++ b.mem.slice b.addr moved
    ∧ (WriteFits e p b.len → reported out.1 = moved) ∧
      (¬ WriteFits e p b.len → reported out.1 < moved)

private theorem sysWritePipe_spec (b : UserBuf false) (e : Endpoint) (p : SysPipe) :
    Writes b e p (sysWritePipe b.mem e (some p) b.addr b.len) := by
  -- where nothing is written, the condition holds for want of a transfer
  have idle : ∀ out : SysResult × UInt64 × Option SysPipe, out.2.2 = some p → reported out.1 = 0 →
      WriteFits e p b.len → Writes b e p out :=
    fun out hpipe hrep hfits => ⟨p, 0, hpipe, ⟨rfl, rfl⟩, (append_nil _).symm, fun _ => hrep,
      fun h => absurd hfits h⟩
  rw [sysWritePipe, validateUserRangeShape_of_valid b.valid, if_neg (by simp : ¬ true = false)]
  by_cases hlen : maxIoBytes < b.len
  · rw [if_pos hlen]
    exact idle _ rfl rfl fun _ h => absurd h (not_le.mpr hlen)
  rw [if_neg hlen]
  cases hkind : e.kind with
  | read => exact idle _ rfl rfl fun h => absurd (hkind.symm.trans h) (by decide)
  | write =>
    by_cases hrefs : p.readRefs = 0
    · obtain ⟨hpipe, hrep⟩ := pipeWriteLoop_closed b.valid hrefs b.len e.offset
      exact idle _ hpipe hrep fun _ _ h => absurd hrefs h
    obtain ⟨q, moved, hpipe, hsame, hcontents, hok, hfail⟩ :=
      pipeWriteLoop_spec b.valid b.len 0 e.offset p hrefs (by omega)
    rw [Nat.sub_zero, ← length_contents p] at hok hfail
    refine ⟨q, moved, hpipe, hsame, hcontents, fun h => ?_, fun h => ?_⟩
    · obtain ⟨hres, -, hmoved⟩ := hok (h hkind (by omega) hrefs)
      rw [hres, hmoved, reported_ok, zero_add]
    · rw [← zero_add moved]
      exact hfail (not_lt.mp fun hlt => h fun _ _ _ => hlt)

/-- What a read moves is what it returns, unless the offset overflows. -/
def Reads (b : UserBuf true) (e : Endpoint) (p : SysPipe)
    (out : SysResult × UInt64 × UserMem × Option SysPipe) : Prop :=
  ∃ q moved, out.2.2.2 = some q ∧ SameRefs p q ∧ contents p = moved ++ contents q
    ∧ (ReadFits e p b.len → out.2.2.1.slice b.addr (reported out.1) = moved
        ∧ (out.1 = .ok 0 → 0 < b.len → contents p = [] ∧ p.writeRefs = 0))
    ∧ (¬ ReadFits e p b.len → reported out.1 < moved.length)

private theorem sysReadPipe_spec (b : UserBuf true) (e : Endpoint) (p : SysPipe) :
    Reads b e p (sysReadPipe b.mem e (some p) b.addr b.len) := by
  -- where nothing is read, the syscall has failed
  have idle : ∀ err : VfsStatus, ReadFits e p b.len →
      Reads b e p (.error err, e.offset, b.mem, some p) :=
    fun err hfits => ⟨p, [], rfl, ⟨rfl, rfl⟩, rfl, fun _ => ⟨rfl, fun h => nomatch h⟩,
      fun h => absurd hfits h⟩
  rw [sysReadPipe, validateUserRangeShape_of_valid b.valid, if_neg (by simp : ¬ true = false)]
  by_cases hlen : maxIoBytes < b.len
  · rw [if_pos hlen]
    exact idle _ fun _ h => absurd h (not_le.mpr hlen)
  rw [if_neg hlen]
  cases hkind : e.kind with
  | write => exact idle _ fun h => absurd (hkind.symm.trans h) (by decide)
  | read =>
    obtain ⟨q, moved, hpipe, hsame, hcontents, hok, hfail⟩ :=
      pipeReadLoop_spec b.len 0 e.offset b.mem p b.valid (by omega)
    rw [Nat.sub_zero, ← length_contents p] at hok hfail
    refine ⟨q, moved, hpipe, hsame, hcontents, fun h => ?_, fun h => ?_⟩
    · obtain ⟨hres, -, -, hslice, heof⟩ := hok (h hkind (by omega))
      refine ⟨?_, heof⟩
      rw [hres, hslice]
      rfl
    · rw [← zero_add moved.length]
      exact hfail (not_lt.mp fun hlt => h fun _ _ => hlt)

/-! ### Runs -/

/-- A run so far: the pipe, and the bytes that writes have reported and reads have returned. -/
structure PipeTrace where
  sys : PipeSystem
  written : List UInt8
  returned : List UInt8

/-- A new pipe. -/
def PipeTrace.start : PipeTrace := ⟨sysPipe, [], []⟩

/-- One step of a run; `none` for the panic on a double close. -/
def PipeTrace.step (t : PipeTrace) : PipeOp → Option PipeTrace
  | .write i b =>
    some { t with
      sys := (t.sys.write i b).2
      written := t.written ++ b.mem.slice b.addr (reported (t.sys.write i b).1) }
  | .read i b =>
    some { t with
      sys := (t.sys.read i b).2.2
      returned :=
        t.returned ++ (t.sys.read i b).2.1.slice b.addr (reported (t.sys.read i b).1) }
  | .dup i => some { t with sys := t.sys.dup i }
  | .close i => (t.sys.close i).map fun s => { t with sys := s }

/-- What was returned is the beginning of what was written, and the rest is in the buffer. -/
def PipeTrace.Streams (t : PipeTrace) : Prop :=
  t.returned <+: t.written ∧ ∀ p, t.sys.pipe = some p →
      t.written = t.returned ++ contents p ∧ (contents p).length ≤ pipeBuffer

/-- A read reports the end of the stream only if nothing is left and nobody can write any more. -/
def PipeTrace.EofSound (t : PipeTrace) : PipeOp → Prop
  | .read i b =>
    (t.sys.read i b).1 = .ok 0 → 0 < b.len →
      ∀ p, t.sys.pipe = some p → contents p = [] ∧ ∀ e ∈ t.sys.endpoints, e.kind ≠ .write
  | _ => True

/-- The stream is faithful along a run. -/
def PipeTrace.Faithful : PipeTrace → List PipeOp → Prop
  | t, [] => t.Streams
  | t, op :: ops => t.Streams ∧ t.EofSound op ∧ ∃ t', t.step op = some t' ∧ t'.Faithful ops

private theorem PipeTrace.Faithful.streams {t : PipeTrace} (h : t.Faithful ops) : t.Streams := by
  cases ops with
  | nil => exact h
  | cons op ops => exact h.1

/-- The bytes that a step can move can be added to the offset of its descriptor. -/
def PipeTrace.OffsetFits (t : PipeTrace) : PipeOp → Prop
  | .write i b => ∀ e p, t.sys.endpoints[i]? = some e → t.sys.pipe = some p → WriteFits e p b.len
  | .read i b => ∀ e p, t.sys.endpoints[i]? = some e → t.sys.pipe = some p → ReadFits e p b.len
  | _ => True

/-- No offset overflows along a run. -/
def PipeTrace.NoOverflow : PipeTrace → List PipeOp → Prop
  | _, [] => True
  | t, op :: ops => t.OffsetFits op ∧ ∀ t', t.step op = some t' → t'.NoOverflow ops

/-- What one step does to a faithful stream: it stays one exactly if the offset does not
overflow. -/
structure StepSpec (t : PipeTrace) (op : PipeOp) (t' : PipeTrace) : Prop where
  counted : Counted t'.sys
  eof : t.OffsetFits op → t.EofSound op
  streams : t.OffsetFits op → t'.Streams
  fails : ¬ t.OffsetFits op → ¬ t'.Streams

section Run

variable {t : PipeTrace}

private theorem streams_iff {es : List Endpoint} {w r : List UInt8} :
    PipeTrace.Streams ⟨⟨some q, es⟩, w, r⟩ ↔ w = r ++ contents q := by
  refine ⟨fun h => (h.2 q rfl).1, fun heq => ⟨⟨contents q, heq.symm⟩, fun p hp => ⟨?_, ?_⟩⟩⟩
  · rw [heq, Option.some.inj hp]
  · rw [length_contents]
    exact p.ring.size_le

/-- A write keeps the stream exactly if the offset does not overflow. -/
theorem step_write (hc : Counted t.sys) (hs : t.Streams) (i : Nat) (b : UserBuf false) :
    ∃ t', t.step (.write i b) = some t' ∧ StepSpec t (.write i b) t' := by
  refine ⟨_, rfl, ?_⟩
  cases he : t.sys.endpoints[i]? with
  | none =>
    have hidle : t.sys.write i b = (.error .inval, t.sys) := by rw [write, he]
    have hfits : t.OffsetFits (.write i b) := fun e p h => absurd (he.symm.trans h) (by simp)
    rw [hidle]
    refine ⟨hc, fun _ => trivial, fun _ => ?_, fun h => absurd hfits h⟩
    show PipeTrace.Streams { t with written := t.written ++ [] }
    rwa [append_nil]
  | some e =>
    obtain ⟨p, hp⟩ := hc.pipe_isSome he
    obtain ⟨q, moved, hpipe, hsame, hcontents, hok, hfail⟩ := sysWritePipe_spec b e p
    have hwrite : t.sys.write i b = ((sysWritePipe b.mem e (some p) b.addr b.len).1,
            { pipe := some q
              endpoints := t.sys.endpoints.set i
                { e with offset := (sysWritePipe b.mem e (some p) b.addr b.len).2.1 } }) := by
      simp only [write, he, hp, hpipe]
    have hfits : t.OffsetFits (.write i b) ↔ WriteFits e p b.len := by
      simp only [PipeTrace.OffsetFits, he, hp, Option.some.injEq]
      exact ⟨fun h => h e p rfl rfl, fun h e' p' h₁ h₂ => h₁ ▸ h₂ ▸ h⟩
    obtain ⟨-, hstream⟩ := hs
    obtain ⟨heq, -⟩ := hstream p hp
    rw [hwrite]
    refine ⟨hc.transfer he hp hsame _, fun _ => trivial, fun h => ?_, fun h hstreams => ?_⟩
    · rw [hok (hfits.mp h), streams_iff, hcontents, heq, append_assoc]
    · -- bytes are in the buffer that were never reported
      have hlen := congrArg length (hstreams.2 q rfl).1
      have := hfail (hfits.not.mp h)
      simp only [hcontents, heq, length_append, length_slice] at hlen
      omega

/-- So does a read. -/
theorem step_read (hc : Counted t.sys) (hs : t.Streams) (i : Nat) (b : UserBuf true) :
    ∃ t', t.step (.read i b) = some t' ∧ StepSpec t (.read i b) t' := by
  refine ⟨_, rfl, ?_⟩
  cases he : t.sys.endpoints[i]? with
  | none =>
    have hidle : t.sys.read i b = (.error .inval, b.mem, t.sys) := by rw [PipeSystem.read, he]
    have hfits : t.OffsetFits (.read i b) := fun e p h => absurd (he.symm.trans h) (by simp)
    refine ⟨?_, fun _ => ?_, fun _ => ?_, fun h => absurd hfits h⟩
    · rwa [hidle]
    · simp only [PipeTrace.EofSound, hidle]
      exact fun h => nomatch h
    · rw [hidle]
      show PipeTrace.Streams { t with returned := t.returned ++ [] }
      rwa [append_nil]
  | some e =>
    obtain ⟨p, hp⟩ := hc.pipe_isSome he
    obtain ⟨q, moved, hpipe, hsame, hcontents, hok, hfail⟩ := sysReadPipe_spec b e p
    have hread : t.sys.read i b = ((sysReadPipe b.mem e (some p) b.addr b.len).1,
            (sysReadPipe b.mem e (some p) b.addr b.len).2.2.1,
            { pipe := some q
              endpoints := t.sys.endpoints.set i
                { e with offset := (sysReadPipe b.mem e (some p) b.addr b.len).2.1 } }) := by
      simp only [PipeSystem.read, he, hp, hpipe]
    have hfits : t.OffsetFits (.read i b) ↔ ReadFits e p b.len := by
      simp only [PipeTrace.OffsetFits, he, hp, Option.some.injEq]
      exact ⟨fun h => h e p rfl rfl, fun h e' p' h₁ h₂ => h₁ ▸ h₂ ▸ h⟩
    obtain ⟨-, hstream⟩ := hs
    obtain ⟨heq, -⟩ := hstream p hp
    refine ⟨?_, fun h => ?_, fun h => ?_, fun h hstreams => ?_⟩
    · rw [hread]
      exact hc.transfer he hp hsame _
    · simp only [PipeTrace.EofSound, hread]
      intro hres hpos p' hp'
      obtain rfl := Option.some.inj (hp.symm.trans hp')
      obtain ⟨hnil, hrefs⟩ := (hok (hfits.mp h)).2 hres hpos
      refine ⟨hnil, fun a ha hkind => ?_⟩
      -- the count of the writers is zero, so there are none
      have hzero : endpointCount t.sys.endpoints .write = 0 := by
        rw [← hc.count p hp]
        exact congrArg UInt32.toNat hrefs
      have hmem := count_pos_iff.mpr (mem_map_of_mem (f := Endpoint.kind) ha)
      rw [hkind] at hmem
      exact absurd hzero (ne_of_gt hmem)
    · rw [hread]
      rw [(hok (hfits.mp h)).1, streams_iff, heq, hcontents, append_assoc]
    · -- bytes have left the buffer that were never returned
      rw [hread] at hstreams
      have hlen := congrArg length (hstreams.2 q rfl).1
      have := hfail (hfits.not.mp h)
      simp only [hcontents, heq, length_append, length_slice] at hlen
      omega

private theorem step_spec (hc : Counted t.sys) (hs : t.Streams) (op : PipeOp) :
    ∃ t', t.step op = some t' ∧ StepSpec t op t' := by
  cases op with
  | write i b => exact step_write hc hs i b
  | read i b => exact step_read hc hs i b
  | dup i =>
    obtain ⟨hc', hkeep⟩ := hc.dup i
    refine ⟨_, rfl, hc', fun _ => trivial, fun _ => ⟨hs.1, fun p' hp' => ?_⟩,
      fun h => absurd trivial h⟩
    obtain ⟨p, hp, heq⟩ := hkeep p' hp'
    rw [heq]
    exact hs.2 p hp
  | close i =>
    obtain ⟨s', hclose, hc', hkeep⟩ := hc.close i
    refine ⟨{ t with sys := s' }, by rw [PipeTrace.step, hclose, Option.map_some], hc',
      fun _ => trivial, fun _ => ⟨hs.1, fun p' hp' => ?_⟩, fun h => absurd trivial h⟩
    obtain ⟨p, hp, heq⟩ := hkeep p' hp'
    rw [heq]
    exact hs.2 p hp

/-- From any state in which the stream is faithful so far. -/
theorem faithful_iff_noOverflow (ops : List PipeOp) (hc : Counted t.sys) (hs : t.Streams) :
    t.Faithful ops ↔ t.NoOverflow ops := by
  induction ops generalizing t with
  | nil => exact iff_of_true hs trivial
  | cons op ops ih =>
    obtain ⟨t', hstep, hspec⟩ := step_spec hc hs op
    simp only [PipeTrace.Faithful, PipeTrace.NoOverflow, hstep, Option.some.injEq, exists_eq_left',
      forall_eq']
    by_cases hfits : t.OffsetFits op
    · have := ih hspec.counted (hspec.streams hfits)
      exact ⟨fun h => ⟨hfits, this.mp h.2.2⟩, fun h => ⟨hs, hspec.eof hfits, this.mpr h.2⟩⟩
    -- the stream is broken after the step
    refine iff_of_false (fun h => hspec.fails hfits ?_) fun h => hfits h.1
    exact h.2.2.streams

end Run

private theorem streams_start : PipeTrace.start.Streams := streams_iff.mpr rfl

/-- A run on a new pipe is faithful exactly if no offset of a descriptor overflows in it. -/
theorem pipe_faithful_iff (ops : List PipeOp) :
    PipeTrace.start.Faithful ops ↔ PipeTrace.start.NoOverflow ops :=
  faithful_iff_noOverflow ops counted_sysPipe streams_start

/-! ### A pipe that is used for long -/

/-- A buffer of one byte. -/
def oneByte (write : Bool) : UserBuf write where
  mem := ⟨fun _ => 0, fun _ => true, fun _ => true⟩
  addr := userMin
  len := 1
  valid := by cases write <;> decide

/-- Write a byte and read it again, `n` times. -/
def rounds : Nat → List PipeOp
  | 0 => []
  | n + 1 => .write 1 (oneByte false) :: .read 0 (oneByte true) :: rounds n

/-- An empty pipe with one descriptor of each kind, after `n` bytes. -/
def EmptyAt (n : Nat) (t : PipeTrace) : Prop :=
  ∃ p roff woff, t.sys = ⟨some p, [⟨.read, roff⟩, ⟨.write, woff⟩]⟩ ∧ p.readRefs = 1
    ∧ contents p = [] ∧ roff.toNat = n ∧ woff.toNat = n

private theorem emptyAt_start : EmptyAt 0 PipeTrace.start := ⟨_, 0, 0, rfl, rfl, rfl, rfl, rfl⟩

private theorem write_oneByte (roff : UInt64) {woff : UInt64} (hrefs : p.readRefs = 1)
    (hnil : contents p = []) (hoff : woff.toNat + 1 < 2 ^ 64) :
    ∃ q woff', (write ⟨some p, [⟨.read, roff⟩, ⟨.write, woff⟩]⟩ 1 (oneByte false)).2
        = ⟨some q, [⟨.read, roff⟩, ⟨.write, woff'⟩]⟩
      ∧ q.readRefs = 1 ∧ (contents q).length = 1 ∧ woff'.toNat = woff.toNat + 1 := by
  have hsize : p.ring.size = 0 := by rw [← length_contents, hnil, length_nil]
  obtain ⟨q, moved, hpipe, hsame, hcontents, hok, -⟩ :=
    pipeWriteLoop_spec (oneByte false).valid 1 0 woff p (by rw [hrefs]; decide) (by decide)
  have hk : min ((oneByte false).len - 0) (pipeBuffer - p.ring.size) = 1 := by
    rw [hsize]
    decide
  rw [hk] at hok
  obtain ⟨-, hwoff, rfl⟩ := hok hoff
  refine ⟨q, _, ?_, hsame.1.trans hrefs, ?_, hwoff⟩
  · rw [← hpipe]
    rfl
  · rw [hcontents, hnil, nil_append, length_slice]

private theorem read_oneByte {roff : UInt64} (woff : UInt64) (hrefs : p.readRefs = 1)
    (hone : (contents p).length = 1) (hoff : roff.toNat + 1 < 2 ^ 64) :
    ∃ q roff', (PipeSystem.read ⟨some p, [⟨.read, roff⟩, ⟨.write, woff⟩]⟩ 0 (oneByte true)).2.2
        = ⟨some q, [⟨.read, roff'⟩, ⟨.write, woff⟩]⟩
      ∧ q.readRefs = 1 ∧ contents q = [] ∧ roff'.toNat = roff.toNat + 1 := by
  obtain ⟨q, moved, hpipe, hsame, hcontents, hok, -⟩ :=
    pipeReadLoop_spec 1 0 roff (oneByte true).mem p (oneByte true).valid (by decide)
  have hk : min ((oneByte true).len - 0) p.ring.size = 1 := by
    rw [← length_contents, hone]
    decide
  rw [hk] at hok
  obtain ⟨-, hroff, hmoved, -, -⟩ := hok hoff
  refine ⟨q, _, ?_, hsame.1.trans hrefs, ?_, hroff⟩
  · rw [← hpipe]
    rfl
  · have := congrArg length hcontents
    rw [hone, length_append, hmoved] at this
    exact eq_nil_of_length_eq_zero (by omega)

/-- A round moves both offsets by one. -/
theorem EmptyAt.round {n : Nat} {t : PipeTrace} (h : EmptyAt n t) (hn : n + 1 < 2 ^ 64)
    (hover : t.NoOverflow (.write 1 (oneByte false) :: .read 0 (oneByte true) :: ops)) :
    ∃ t', EmptyAt (n + 1) t' ∧ t'.NoOverflow ops := by
  obtain ⟨p, roff, woff, hsys, hrefs, hnil, hroff, hwoff⟩ := h
  obtain ⟨q, woff', hwrite, hqrefs, hone, hwoff'⟩ := write_oneByte roff hrefs hnil (hwoff ▸ hn)
  obtain ⟨r, roff', hread, hrrefs, hrnil, hroff'⟩ := read_oneByte woff' hqrefs hone (hroff ▸ hn)
  obtain ⟨-, hover⟩ := hover
  obtain ⟨-, hover⟩ := hover _ rfl
  refine ⟨_, ⟨r, roff', woff', ?_, hrrefs, hrnil, by omega, by omega⟩, hover _ rfl⟩
  rw [hsys, hwrite, hread]

private theorem EmptyAt.rounds {n : Nat} {t : PipeTrace} (h : EmptyAt n t) :
    ∀ m, n + m < 2 ^ 64 → t.NoOverflow (rounds m ++ ops) →
      ∃ t', EmptyAt (n + m) t' ∧ t'.NoOverflow ops := by
  intro m
  induction m generalizing n t with
  | zero => exact fun _ hover => ⟨t, h, hover⟩
  | succ m ih =>
    intro hlt hover
    obtain ⟨t', ht', hover'⟩ := h.round (by omega) hover
    rw [show n + (m + 1) = n + 1 + m by omega]
    exact ih ht' (by omega) hover'

/-- After `2 ^ 64 - 1` bytes one more is written and not reported. -/
theorem pipe_last_write_not_reported :
    ¬ PipeTrace.start.Faithful (rounds (2 ^ 64 - 1) ++ [.write 1 (oneByte false)]) := by
  rw [faithful_iff_noOverflow _ counted_sysPipe streams_start]
  intro hover
  obtain ⟨t, ⟨p, roff, woff, hsys, hrefs, hnil, -, hwoff⟩, hfits, -⟩ :=
    emptyAt_start.rounds (2 ^ 64 - 1) (by omega) hover
  have := hfits ⟨.write, woff⟩ p (by rw [hsys]; rfl) (by rw [hsys]) rfl (by decide)
    (by rw [hrefs]; decide)
  rw [hnil, hwoff] at this
  exact absurd this (by decide)

end Rabbitbone.Spec.Sys
