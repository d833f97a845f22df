import Mathlib.Data.Nat.Bitwise
import Rabbitbone.Native.Sys.Auth

/-!
# Becoming root

A process whose user and effective user are not root, and whose window for sudo is over, can only
become root by a password: its own syscalls leave it as it is, and so do those of every process that
it has created.

## Key results

- `authPasswordOk_correct`: a password is accepted only if its hash is the stored one.
- `sysCred_unprivileged`, `sysSudo_unprivileged`: one syscall of a process.
- `family_unprivileged`: a run of the whole system.
-/

namespace Rabbitbone.Spec.Sys

open Native Native.Sys Option

variable {u : UserRecord}

/-! ### Passwords -/

/-- Folding the upper half of `2 * k` bits onto the lower half loses no set bit. -/
theorem mod_eq_zero_of_fold {d : UInt64} {k : Nat} (hk : k < 64)
    (h : (d ||| d >>> UInt64.ofNat k).toNat % 2 ^ k = 0) : d.toNat % 2 ^ (2 * k) = 0 := by
  have hshift : (UInt64.ofNat k).toNat % 64 = k := by
    rw [UInt64.toNat_ofNat']
    omega
  rw [UInt64.toNat_or, UInt64.toNat_shiftRight, hshift, Nat.or_mod_two_pow] at h
  obtain ⟨hlow, hhigh⟩ := Nat.or_eq_zero_iff.mp h
  rw [Nat.shiftRight_eq_div_pow] at hhigh
  rw [Nat.two_mul, Nat.pow_add, Nat.mod_mul, hlow, hhigh, Nat.mul_zero, Nat.add_zero]

/-- The comparison in constant time is a comparison. -/
theorem authConsttimeU64Eq_eq {a b : UInt64} (h : authConsttimeU64Eq a b = true) : a = b := by
  simp only [authConsttimeU64Eq, decide_eq_true_eq] at h
  generalize hd : a ^^^ b = d at h
  have h₁ := congrArg UInt64.toNat h
  rw [UInt64.toNat_and, UInt64.toNat_ofNat, Nat.and_one_is_mod] at h₁
  -- backwards through the folds: twice as many bits are clear before each of them
  have h₂ := mod_eq_zero_of_fold (by decide) h₁
  have h₄ := mod_eq_zero_of_fold (by decide) h₂
  have h₈ := mod_eq_zero_of_fold (by decide) h₄
  have h₁₆ := mod_eq_zero_of_fold (by decide) h₈
  have h₃₂ := mod_eq_zero_of_fold (by decide) h₁₆
  have h₆₄ := mod_eq_zero_of_fold (by decide) h₃₂
  rw [Nat.mod_eq_of_lt d.toNat_lt] at h₆₄
  have hzero : d = 0 := UInt64.toNat.inj h₆₄
  exact UInt64.xor_eq_zero_iff.mp (hd.trans hzero)

/-- The password of a user: its hash with the salt of the user is the one that is stored. -/
def CorrectPassword (u : UserRecord) (password : List UInt8) : Prop :=
  password.length < 64 ∧ authPasswordHash password u.passwordSalt = u.passwordHash

private theorem authPasswordOk_correct {password : List UInt8}
    (h : authPasswordOk (some u) password = true) :
    CorrectPassword u password := by
  simp only [authPasswordOk, Bool.and_eq_true, decide_eq_true_eq] at h
  obtain ⟨hne, heq⟩ := h
  refine ⟨?_, authConsttimeU64Eq_eq heq⟩
  -- a password that is too long has the hash 0
  by_contra hlen
  exact hne (if_pos (Nat.le_of_not_lt hlen))

/-! ### One process -/

/-- Neither the user nor the effective user is root, and the window for sudo is over. -/
structure Unprivileged (now : UInt64) (cred : Cred) : Prop where
  uid : cred.uid ≠ 0
  euid : cred.euid ≠ 0
  expired : cred.sudoUntil ≤ now

/-- The call accepts a correct password of an administrator, of root for example. -/
def AcceptsAdmin (mem : UserStrings) (now : UInt64) (cred : Cred) : AuthCall → Prop
  | .sysCred op arg0 arg1 value =>
    CredOp.ofArg op = some .login ∧ (sysCred mem now cred op arg0 arg1 value).1 = .ok 0 ∧
      ∃ u ∈ authUsers, u.admin = true ∧ copyStringArg mem arg0 32 = some u.name ∧
        ∃ password ∈ copyStringArg mem arg1 64, CorrectPassword u password
  | .sysSudo op passwordPtr value =>
    SudoOp.ofArg op = some .validate ∧ (sysSudo mem now cred op passwordPtr value).1 = .ok 0 ∧
      passwordPtr ≠ 0 ∧ ∃ u ∈ authUsers, u.admin = true ∧ u.uid = cred.uid ∧
        ∃ password ∈ copyStringArg mem passwordPtr 64, CorrectPassword u password
  | _ => False

section

variable {mem : UserStrings} {now : UInt64} {cred : Cred}

private theorem Unprivileged.not_cacheValid (h : Unprivileged now cred) :
    authCacheValid cred now = false :=
  decide_eq_false (UInt64.not_lt.mpr h.expired)

/-- Only administrators have the number of root. -/
theorem uid_ne_zero_of_not_admin (hu : u ∈ authUsers) (hadmin : u.admin = false) : u.uid ≠ 0 := by
  have hall : ∀ u ∈ authUsers, u.admin = false → u.uid ≠ 0 := by decide
  exact hall u hu hadmin

private theorem authFindUserName_some {name : List UInt8} (h : authFindUserName name = some u) :
    u ∈ authUsers ∧ u.name = name := by
  rw [authFindUserName] at h
  split at h
  · exact nomatch h
  · have hname := List.find?_some h
    exact ⟨List.mem_of_find?_eq_some h, of_decide_eq_true hname⟩

private theorem authFindUserUid_some {uid : UInt32} (h : authFindUserUid uid = some u) :
    u ∈ authUsers ∧ u.uid = uid := by
  have huid := List.find?_some h
  exact ⟨List.mem_of_find?_eq_some h, of_decide_eq_true huid⟩

/-- Logging in as another user that is no administrator. -/
theorem authFillCred_unprivileged (hu : u ∈ authUsers) (hadmin : u.admin = false) :
    Unprivileged now (authFillCred u) :=
  ⟨uid_ne_zero_of_not_admin hu hadmin, uid_ne_zero_of_not_admin hu hadmin, UInt64.zero_le⟩

private theorem sysCred_unprivileged (h : Unprivileged now cred) {op arg0 arg1 value : UInt64}
    (hno : ¬AcceptsAdmin mem now cred (.sysCred op arg0 arg1 value)) :
    Unprivileged now (sysCred mem now cred op arg0 arg1 value).2 := by
  cases hop : CredOp.ofArg op with
  | none =>
    simp only [sysCred, hop]
    exact h
  | some o =>
    cases o with
    | get =>
      simp only [sysCred, hop]
      exact h
    | userinfo =>
      simp only [sysCred, hop]
      split
      · exact h
      · split <;> exact h
    | login =>
      simp only [AcceptsAdmin, sysCred, hop] at hno ⊢
      split
      · rename_i name password hname hpassword
        cases hu : authFindUserName name with
        | none => exact h
        | some u =>
          obtain ⟨hmem, rfl⟩ := authFindUserName_some hu
          dsimp only
          split
          · rename_i hok
            -- the user is no administrator, or the password would have been an administrator's
            refine authFillCred_unprivileged hmem (Bool.eq_false_iff.mpr fun hadmin => hno ?_)
            refine ⟨trivial, ?_, u, hmem, hadmin, hname, password, hpassword,
              authPasswordOk_correct hok⟩
            simp only [hname, hpassword, hu, hok, if_true]
          · exact h
      · exact h
    | setUser =>
      simp only [sysCred, hop]
      rw [if_pos h.euid]
      exact h
    | setEuid =>
      simp only [sysCred, hop]
      split
      · exact h
      split
      · -- the new effective user is the user, since the window is over
        rename_i hallowed
        have heuid : value.toUInt32 = cred.uid := by
          obtain hroot | heq | ⟨-, -, hvalid⟩ := hallowed
          · exact absurd hroot h.euid
          · exact heq
          · exact absurd hvalid (by rw [h.not_cacheValid]; decide)
        exact ⟨h.uid, heuid ▸ h.uid, h.expired⟩
      · exact h

private theorem sysSudo_unprivileged (h : Unprivileged now cred) {op passwordPtr value : UInt64}
    (hno : ¬AcceptsAdmin mem now cred (.sysSudo op passwordPtr value)) :
    Unprivileged now (sysSudo mem now cred op passwordPtr value).2 := by
  have hcred : Unprivileged now (processCurrentCredentials cred now) := ⟨h.uid, h.euid, h.expired⟩
  simp only [AcceptsAdmin, sysSudo] at hno ⊢
  split
  · exact h
  rename_i hop32
  rw [if_neg hop32] at hno
  cases hu : authFindUserUid (processCurrentCredentials cred now).uid with
  | none => exact h
  | some u =>
    obtain ⟨hmem, huid⟩ := authFindUserUid_some hu
    simp only [hu] at hno ⊢
    split
    · exact h
    rename_i hadmin
    rw [if_neg hadmin] at hno
    cases hop : SudoOp.ofArg op with
    | none => exact h
    | some o =>
      cases o with
      | status => exact h
      | drop => exact ⟨h.uid, h.uid, h.expired⟩
      | invalidate => exact ⟨h.uid, h.uid, UInt64.zero_le⟩
      | setTimeout =>
        dsimp only
        split
        · exact h
        · exact ⟨h.uid, h.euid, h.expired⟩
      | validate =>
        simp only [hop] at hno ⊢
        split
        · exact h
        rename_i hflags
        rw [if_neg hflags] at hno
        cases hpass : sudoPassword mem now (processCurrentCredentials cred now) u passwordPtr with
        | none => exact h
        | some accepted =>
          cases accepted with
          | false => exact h
          | true =>
            -- the window is over, so that a password was accepted, and the user is an administrator
            refine absurd ?_ hno
            simp only [hpass]
            rw [sudoPassword] at hpass
            split at hpass
            · rw [hcred.not_cacheValid] at hpass
              exact nomatch hpass
            rename_i hptr
            obtain ⟨password, hpassword, hok⟩ := map_eq_some_iff.mp hpass
            exact ⟨trivial, trivial, hptr, u, hmem, by simpa using hadmin, huid, password,
              hpassword, authPasswordOk_correct hok⟩

end

/-! ### The whole system -/

/-- What happens next: the tick counter may have moved on, and a process makes a call. -/
structure AuthEvent where
  tick : UInt64
  mem : UserStrings
  pid : Nat
  call : AuthCall

/-- The system with a set of processes: a process belongs to it if it did at the start, or was
created by a process that did. -/
structure Family where
  sys : AuthState
  member : Nat → Bool

/-- The tick counter never goes backwards. -/
def AuthState.tick (s : AuthState) (t : UInt64) : AuthState :=
  { s with now := if s.now ≤ t then t else s.now }

/-- The number of the process that the call creates, if it does. -/
def createdBy (s : AuthState) : AuthCall → Option Nat
  | .fork child | .spawn child => if s.procs child = none then some child else none
  | _ => none

/-- An event, by a process of the family or by another one. -/
def Family.step (f : Family) (e : AuthEvent) : Family where
  sys := (AuthState.tick f.sys e.tick).call e.mem e.pid e.call
  member := fun i =>
    if f.sys.procs e.pid ≠ none ∧ createdBy f.sys e.call = some i then f.member e.pid
    else f.member i

/-- The processes of the family are unprivileged. -/
def Family.Unprivileged (f : Family) : Prop :=
  ∀ i cred, f.member i = true → f.sys.procs i = some cred → Sys.Unprivileged f.sys.now cred

/-- No process of the family is root or acts as root. -/
def Family.NoRoot (f : Family) : Prop :=
  ∀ i cred, f.member i = true → f.sys.procs i = some cred → cred.uid ≠ 0 ∧ cred.euid ≠ 0

/-- The event is a call of the family that accepts a password of an administrator. -/
def Family.Accepts (f : Family) (e : AuthEvent) : Prop :=
  f.member e.pid = true ∧ ∃ cred ∈ f.sys.procs e.pid,
    AcceptsAdmin e.mem (AuthState.tick f.sys e.tick).now cred e.call

/-- No event of a run is one that accepts a password of an administrator. -/
def Family.NoneAccepted (f : Family) : List AuthEvent → Prop
  | [] => True
  | e :: es => ¬f.Accepts e ∧ (f.step e).NoneAccepted es

private theorem Unprivileged.later {now now' : UInt64} {cred : Cred} (h : Unprivileged now cred)
    (hle : now ≤ now') : Unprivileged now' cred :=
  ⟨h.uid, h.euid, UInt64.le_trans h.expired hle⟩

private theorem tick_le (s : AuthState) (t : UInt64) : s.now ≤ (AuthState.tick s t).now := by
  rw [AuthState.tick]
  split
  · assumption
  · exact UInt64.le_refl _

section

variable {f : Family}

/-- Time goes by. -/
theorem Family.Unprivileged.tick (h : f.Unprivileged) (t : UInt64) :
    Family.Unprivileged ⟨AuthState.tick f.sys t, f.member⟩ :=
  fun i cred hi hcred => (h i cred hi hcred).later (tick_le f.sys t)

/-- A process stores new credentials. -/
theorem Family.Unprivileged.setCred (h : f.Unprivileged) {pid : Nat} {cred : Cred}
    (hcred : f.member pid = true → Sys.Unprivileged f.sys.now cred) :
    Family.Unprivileged ⟨f.sys.setCred pid (some cred), f.member⟩ := by
  intro i cred' hi hcred'
  simp only [AuthState.setCred] at hcred'
  split at hcred'
  · subst i
    obtain rfl := some.inj hcred'
    exact hcred hi
  · exact h i cred' hi hcred'

/-- A process creates another one, with its own credentials. -/
theorem Family.Unprivileged.create (h : f.Unprivileged) {pid child : Nat} {cred : Cred}
    (hpid : f.sys.procs pid = some cred) :
    Family.Unprivileged ⟨f.sys.create child cred,
      fun i => if f.sys.procs pid ≠ none ∧ (if f.sys.procs child = none then some child else none)
        = some i then f.member pid else f.member i⟩ := by
  have hsome : f.sys.procs pid ≠ none := by rw [hpid]; exact some_ne_none _
  intro i cred' hi hcred'
  simp only [AuthState.create] at hi hcred' ⊢
  by_cases hfree : f.sys.procs child = none
  · simp only [hfree, if_true, AuthState.setCred] at hi hcred' ⊢
    by_cases hchild : i = child
    · subst hchild
      rw [if_pos rfl] at hcred'
      obtain rfl := some.inj hcred'
      rw [if_pos ⟨hsome, rfl⟩] at hi
      exact h pid cred hi hpid
    · rw [if_neg hchild] at hcred'
      rw [if_neg fun hcond => hchild (some.inj hcond.2).symm] at hi
      exact h i cred' hi hcred'
  · simp only [hfree, if_false] at hi hcred' ⊢
    rw [if_neg fun hcond => nomatch hcond.2] at hi
    exact h i cred' hi hcred'

/-- One event. -/
theorem Family.Unprivileged.step (h : f.Unprivileged) {e : AuthEvent} (hno : ¬f.Accepts e) :
    (f.step e).Unprivileged := by
  have htick := h.tick e.tick
  -- a call under a pid without a process only lets time pass
  cases hpid : f.sys.procs e.pid with
  | none =>
    have hsys : (f.step e).sys = AuthState.tick f.sys e.tick := by
      simp only [Family.step, AuthState.call, AuthState.tick, hpid]
    have hmember : (f.step e).member = f.member := by
      funext i
      exact if_neg fun hcond => hcond.1 hpid
    intro i cred hi hcred
    rw [hsys] at hcred ⊢
    rw [hmember] at hi
    exact htick i cred hi hcred
  | some cred =>
    have hcall : f.member e.pid = true →
        ¬AcceptsAdmin e.mem (AuthState.tick f.sys e.tick).now cred e.call :=
      fun hmem hacc => hno ⟨hmem, cred, hpid, hacc⟩
    have hself : f.member e.pid = true →
        Sys.Unprivileged (AuthState.tick f.sys e.tick).now cred := fun hmem => htick _ _ hmem hpid
    have hpid' : (AuthState.tick f.sys e.tick).procs e.pid = some cred := hpid
    obtain ⟨t, mem, pid, call⟩ := e
    -- the credentials change by `cred` and `sudo`; the other calls hand them on
    cases call with
    | sysCred op arg0 arg1 value =>
      have := htick.setCred fun hmem => sysCred_unprivileged (hself hmem) (hcall hmem)
      simpa only [Family.step, AuthState.call, hpid', createdBy, and_false, if_false, reduceCtorEq]
        using this
    | sysSudo op passwordPtr value =>
      have := htick.setCred fun hmem => sysSudo_unprivileged (hself hmem) (hcall hmem)
      simpa only [Family.step, AuthState.call, hpid', createdBy, and_false, if_false, reduceCtorEq]
        using this
    | fork child =>
      have hsys : (AuthState.tick f.sys t).call mem pid (.fork child)
          = (AuthState.tick f.sys t).create child cred := by
        simp only [AuthState.call, hpid']
      rw [Family.step, hsys]
      exact htick.create hpid'
    | exec =>
      have := htick.setCred hself
      simpa only [Family.step, AuthState.call, hpid', createdBy, and_false, if_false, reduceCtorEq]
        using this
    | spawn child =>
      have hsys : (AuthState.tick f.sys t).call mem pid (.spawn child)
          = (AuthState.tick f.sys t).create child cred := by
        simp only [AuthState.call, hpid', processInheritCred, getD_some]
      rw [Family.step, hsys]
      exact htick.create hpid'
    | exit =>
      intro i cred' hi hcred'
      simp only [Family.step, AuthState.call, hpid', createdBy, and_false, if_false, reduceCtorEq,
        AuthState.setCred] at hi hcred' ⊢
      split at hcred'
      · exact nomatch hcred'
      · exact htick i cred' hi hcred'

/-- Whatever processes do, those of the family do not become root unless one of them gives a
password of an administrator. -/
theorem family_unprivileged (h : f.Unprivileged) {es : List AuthEvent} (hno : f.NoneAccepted es) :
    (es.foldl Family.step f).NoRoot := by
  induction es generalizing f with
  | nil => exact fun i cred hi hcred => ⟨(h i cred hi hcred).uid, (h i cred hi hcred).euid⟩
  | cons e es ih => exact ih (h.step hno.1) hno.2

end

/-- A guest, and nobody else. -/
def guestAlone : Family where
  sys :=
    ⟨100, fun i => if i = 5 then some (authFillCred ⟨guestName, 0, 0, 1001, 1000, false⟩) else none⟩
  member := fun i => i = 5

/-- Memory without strings. -/
def noStrings : UserStrings := ⟨fun _ => none, fun _ => false⟩

/-- The guest asks for the effective user root, forks, and the child asks for sudo without a
password. -/
def guestTries : List AuthEvent :=
  [⟨100, noStrings, 5, .sysCred 3 0 0 0⟩, ⟨101, noStrings, 5, .fork 6⟩,
    ⟨102, noStrings, 6, .sysSudo 1 0 1⟩, ⟨103, noStrings, 6, .sysCred 3 0 0 0⟩]

theorem guest_stays_guest : (guestTries.foldl Family.step guestAlone).NoRoot := by
  have hstart : guestAlone.Unprivileged := by
    intro i cred hi hcred
    obtain rfl : i = 5 := of_decide_eq_true hi
    obtain rfl := some.inj hcred
    exact ⟨by decide, by decide, by decide⟩
  refine family_unprivileged hstart ⟨?_, ?_, ?_, ?_, trivial⟩
  · rintro ⟨-, cred, -, hop, -⟩
    exact absurd hop (by decide)
  · rintro ⟨-, cred, -, haccepts⟩
    exact haccepts
  · rintro ⟨-, cred, -, -, -, hptr, -⟩
    exact hptr rfl
  · rintro ⟨-, cred, -, hop, -⟩
    exact absurd hop (by decide)

end Rabbitbone.Spec.Sys
