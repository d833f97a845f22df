import Mathlib.Data.Nat.Bitwise
import Rabbitbone.ForStd.Except
import Rabbitbone.Native.Proc.Loader

/-!
# Who may run a program

A process that is not root can only start a program that it may execute.  If the file it names is a
script, that program is the last interpreter of the chain: the scripts before it only have to be
readable.

## Key results

- `permits_of_canAccess`: what the permission check says about the bits of the mode.
- `resolveLoop_chain`: the plan follows the chain of first lines, and checks that each can be read.
- `exec_permission`: every syscall that starts a program.
- `readable_script_runs`: a script that may not be executed is started all the same.
-/

namespace Rabbitbone.Spec.Proc

open Native Native.Sys Native.Proc Except

/-! ### Permissions -/

/-- The class of the user has this bit of the mode: 2 to read, 1 to write and 0 to execute. -/
def Permits (cred : Cred) (st : VfsStat) (bit : Nat) : Prop :=
  if cred.euid = st.uid then st.mode.toNat.testBit (6 + bit) = true
  else if cred.egid = st.gid then st.mode.toNat.testBit (3 + bit) = true
  else st.mode.toNat.testBit bit = true

/-- The user may read the file. -/
def MayRead (fs : Vfs) (cred : Cred) (path : List UInt8) : Prop :=
  ∃ st, fs.stat path = .ok st ∧ Permits cred st 2

/-- The user may execute the file. -/
def MayExecute (fs : Vfs) (cred : Cred) (path : List UInt8) : Prop :=
  ∃ st, fs.stat path = .ok st ∧ Permits cred st 0

private theorem testBit_of_and {x need : UInt32} {k : Nat} (h : x &&& need = need)
    (hneed : need.toNat.testBit k = true) : x.toNat.testBit k = true := by
  rw [← h, UInt32.toNat_and, Nat.testBit_and, Bool.and_eq_true] at hneed
  exact hneed.1

/-- A bit of one class of the mode is a bit of the mode. -/
theorem testBit_class {mode : UInt32} (shift : UInt32) {k : Nat} (hshift : shift.toNat < 32)
    (h : (((mode &&& 0o777) >>> shift) &&& 0o7).toNat.testBit k = true) :
    mode.toNat.testBit (shift.toNat + k) = true := by
  rw [UInt32.toNat_and, Nat.testBit_and, UInt32.toNat_shiftRight, Nat.mod_eq_of_lt hshift,
    Nat.testBit_shiftRight, UInt32.toNat_and, Nat.testBit_and] at h
  simp only [Bool.and_eq_true] at h
  exact h.1.1

/-- What `process_cred_can_access` grants is granted by the mode. -/
private theorem permits_of_canAccess {cred : Cred} {st : VfsStat} {need : UInt32} {bit : Nat}
    (hroot : cred.euid ≠ 0) (hneed : need.toNat.testBit bit = true)
    (h : processCredCanAccess cred st need = true) : Permits cred st bit := by
  have hnot : ¬ processCredIsRoot cred = true := by simpa [processCredIsRoot] using hroot
  rw [processCredCanAccess, if_neg hnot] at h
  have hbits := testBit_of_and (of_decide_eq_true h) hneed
  rw [Permits]
  split at hbits
  · rw [if_pos ‹_›]
    exact testBit_class 6 (by decide) hbits
  rw [if_neg ‹_›]
  split at hbits
  · rw [if_pos ‹_›]
    exact testBit_class 3 (by decide) hbits
  rw [if_neg ‹_›]
  rw [UInt32.toNat_and, Nat.testBit_and, UInt32.toNat_and, Nat.testBit_and] at hbits
  simp only [Bool.and_eq_true] at hbits
  exact hbits.1.1

/-! ### Chains of interpreters -/

/-- The first line of a script names this interpreter. -/
def Names (fs : Vfs) (script interpreter : List UInt8) : Prop :=
  ∃ buf sb, fs.read script 0 shebangBufSize = .ok buf ∧ startsShebang buf = true
    ∧ parseShebang buf = .ok sb ∧ sb.interpreter = interpreter

/-- A file that is no script. -/
def IsImage (fs : Vfs) (path : List UInt8) : Prop :=
  ∃ buf, fs.read path 0 shebangBufSize = .ok buf ∧ startsShebang buf = false

/-- The scripts from a file on, each interpreted by the next, and the image that the last one
names. -/
inductive ShebangChain (fs : Vfs) : List UInt8 → List (List UInt8) → List UInt8 → Prop
  | image {path : List UInt8} (h : IsImage fs path) : ShebangChain fs path [] path
  | script {path interpreter image : List UInt8} {scripts : List (List UInt8)}
      (h : Names fs path interpreter) (rest : ShebangChain fs interpreter scripts image) :
      ShebangChain fs path (path :: scripts) image

section Resolve

variable {fs : Vfs} {cred : Cred} {plan plan' : ExecPlan}

private theorem orIo_eq_ok {α : Type} {x : Except VfsStatus α} {a : α} :
    orIo x = .ok a ↔ x = .ok a := by
  cases x with
  | error e => simp [orIo, Except.mapError]
  | ok b => simp [orIo, Except.mapError]

/-- What it takes to find out whether a file is a script. -/
theorem readShebangForPath_ok {path : List UInt8} {sb : Option ParsedShebang}
    (h : readShebangForPath fs cred path = .ok sb) :
    ∃ st buf, fs.stat path = .ok st ∧ fs.read path 0 shebangBufSize = .ok buf ∧
      match sb with
      | none => startsShebang buf = false
      | some sb => startsShebang buf = true ∧ processCredCanAccess cred st 0o4 = true
          ∧ parseShebang buf = .ok sb := by
  simp only [readShebangForPath, ite_error_eq_ok, bind_eq_ok, orIo_eq_ok] at h
  obtain ⟨-, st, hst, -, buf, hbuf, h⟩ := h
  refine ⟨st, buf, hst, hbuf, ?_⟩
  split at h
  · obtain rfl := ok.inj h
    assumption
  next hstarts =>
    simp only [ite_error_eq_ok, bind_eq_ok] at h
    obtain ⟨haccess, parsed, hparsed, h⟩ := h
    obtain rfl := ok.inj h
    exact ⟨by simpa using hstarts, by simpa using haccess, hparsed⟩

private theorem foldlM_append_imagePath {args : List (List UInt8)}
    (h : args.foldlM appendExecPlanArg plan = .ok plan') : plan'.imagePath = plan.imagePath := by
  induction args generalizing plan with
  | nil =>
    obtain rfl := ok.inj h
    rfl
  | cons arg args ih =>
    simp only [List.foldlM_cons, bind_eq_ok, appendExecPlanArg, ite_error_eq_ok] at h
    obtain ⟨next, ⟨-, _, -, hnext⟩, h⟩ := h
    obtain rfl := ok.inj hnext
    have himage := ih h
    exact himage

private theorem rewriteExecPlanForShebang_imagePath {sb : ParsedShebang}
    (h : rewriteExecPlanForShebang plan sb = .ok plan') : plan'.imagePath = sb.interpreter := by
  simp only [rewriteExecPlanForShebang, execCopyPath, ite_error_eq_ok, bind_eq_ok] at h
  obtain ⟨-, _, -, image, ⟨-, -, himage⟩, h⟩ := h
  rw [foldlM_append_imagePath h, ← ok.inj himage]

/-- The plan that comes out is the end of the chain, and every script on the way can be read. -/
theorem resolveLoop_chain (hroot : cred.euid ≠ 0) {depth : Nat}
    (h : resolveLoop fs cred depth plan = .ok plan') :
    ∃ scripts, ShebangChain fs plan.imagePath scripts plan'.imagePath ∧ scripts.length ≤ depth
      ∧ ∀ f ∈ scripts, MayRead fs cred f := by
  induction depth generalizing plan with
  | zero =>
    rw [resolveLoop] at h
    simp only [bind_eq_ok] at h
    obtain ⟨sb, hread, h⟩ := h
    obtain ⟨st, buf, hst, hbuf, hsb⟩ := readShebangForPath_ok hread
    cases sb with
    | none =>
      obtain rfl := ok.inj h
      exact ⟨[], .image ⟨buf, hbuf, hsb⟩, Nat.le_refl _, by simp⟩
    | some sb => exact nomatch h
  | succ depth ih =>
    rw [resolveLoop] at h
    simp only [bind_eq_ok] at h
    obtain ⟨sb, hread, h⟩ := h
    obtain ⟨st, buf, hst, hbuf, hsb⟩ := readShebangForPath_ok hread
    cases sb with
    | none =>
      obtain rfl := ok.inj h
      exact ⟨[], .image ⟨buf, hbuf, hsb⟩, Nat.zero_le _, by simp⟩
    | some sb =>
      obtain ⟨hstarts, haccess, hparse⟩ := hsb
      simp only [bind_eq_ok] at h
      obtain ⟨next, hnext, h⟩ := h
      obtain ⟨scripts, hchain, hlen, hread⟩ := ih h
      rw [rewriteExecPlanForShebang_imagePath hnext] at hchain
      have hfirst : MayRead fs cred plan.imagePath :=
        ⟨st, hst, permits_of_canAccess hroot (by decide) haccess⟩
      refine ⟨plan.imagePath :: scripts, .script ⟨buf, sb, hbuf, hstarts, hparse, rfl⟩ hchain,
        Nat.succ_le_succ hlen, ?_⟩
      simpa using ⟨hfirst, hread⟩

/-- A plan follows a chain of scripts, each of which may be executed. -/
private theorem resolveExecPlan_chain (hroot : cred.euid ≠ 0) {path : List UInt8}
    {argv : List (List UInt8)} (h : resolveExecPlan fs cred path argv = .ok plan) :
    ∃ scripts, ShebangChain fs path scripts plan.imagePath ∧ scripts.length ≤ shebangMaxDepth
      ∧ ∀ f ∈ scripts, MayRead fs cred f := by
  simp only [resolveExecPlan, execPlanInit, execCopyPath, bind_eq_ok, ite_error_eq_ok] at h
  obtain ⟨start, ⟨-, path', ⟨-, -, hpath⟩, _, -, hstart⟩, h⟩ := h
  obtain rfl := ok.inj hstart
  obtain rfl := ok.inj hpath
  exact resolveLoop_chain hroot h

/-- An image that is loaded may be executed. -/
private theorem loadElfImage_mayExecute (hroot : cred.euid ≠ 0) {env : LoadEnv} {path : List UInt8}
    {entry : Nat} (h : loadElfImage fs cred env path = .ok entry) : MayExecute fs cred path := by
  simp only [loadElfImage, bind_eq_ok, ite_error_eq_ok, orIo_eq_ok] at h
  obtain ⟨-, st, hst, -, haccess, -⟩ := h
  have haccess : processCredCanAccess cred st 0o1 = true := by simpa using haccess
  exact ⟨st, hst, permits_of_canAccess hroot (by decide) haccess⟩

end Resolve

/-! ### The syscalls -/

/-- What starting a program takes: the scripts can be read, and the image can be executed. -/
def Authorized (fs : Vfs) (cred : Cred) (path image : List UInt8) : Prop :=
  ∃ scripts, ShebangChain fs path scripts image ∧ scripts.length ≤ shebangMaxDepth
    ∧ (∀ f ∈ scripts, MayRead fs cred f) ∧ MayExecute fs cred image

section Calls

variable {fs : Vfs} {c : Caller} {env : LoadEnv} {path : List UInt8} {argv envp : List (List UInt8)}
  {plan : ExecPlan}

private theorem mapError_eq_ok {ε ε' α : Type} {f : ε → ε'} {x : Except ε α} {a : α} :
    x.mapError f = .ok a ↔ x = .ok a := by
  cases x with
  | error e => simp [Except.mapError]
  | ok b => simp [Except.mapError]

/-- A program that is loaded is authorized, with every script before it. -/
private theorem loadProgram_authorized (hroot : c.cred.euid ≠ 0)
    (h : loadProgram fs c.cred env path argv envp = .ok plan) :
    Authorized fs c.cred path plan.imagePath := by
  simp only [loadProgram, bind_eq_ok] at h
  obtain ⟨plan', hplan, entry, hload, _, -, h⟩ := h
  obtain rfl := ok.inj h
  obtain ⟨scripts, hchain, hlen, hread⟩ := resolveExecPlan_chain hroot hplan
  exact ⟨scripts, hchain, hlen, hread, loadElfImage_mayExecute hroot hload⟩

private theorem spawnAs_authorized (hroot : c.cred.euid ≠ 0)
    (h : spawnAs fs c env path argv = .ok plan) : Authorized fs c.cred path plan.imagePath := by
  rw [spawnAs, mapError_eq_ok] at h
  split at h
  · simp only [processSpawnAsync, prepareProcessEnv, bind_eq_ok, ite_error_eq_ok] at h
    obtain ⟨-, plan', ⟨-, -, -, hload⟩, -, h⟩ := h
    obtain rfl := ok.inj h
    exact loadProgram_authorized hroot hload
  · exact nomatch h

private theorem execAs_authorized (hroot : c.cred.euid ≠ 0)
    (h : execAs fs c env path argv envp = .ok plan) :
    Authorized fs c.cred path plan.imagePath := by
  rw [execAs, mapError_eq_ok] at h
  simp only [processRequestExecve, prepareExecReplacementEnv, ite_error_eq_ok] at h
  obtain ⟨-, -, -, hload⟩ := h
  exact loadProgram_authorized hroot hload

private theorem orInval_eq_ok {α : Type} {x : Option α} {a : α} :
    orInval x = .ok a ↔ x = some a := by
  cases x with
  | none => simp [orInval]
  | some b => simp [orInval]

private theorem reachablePath_ok {ptr : UInt64} (h : reachablePath fs c ptr = .ok path) :
    copyPathArg c ptr = some path := by
  simp only [reachablePath, bind_eq_ok, ite_error_eq_ok, orInval_eq_ok] at h
  obtain ⟨path', hpath, -, h⟩ := h
  rw [hpath, ok.inj h]

/-- If a process that is not root starts a program, it may execute the image that runs and read
every script that led to it. -/
theorem exec_permission (hroot : c.cred.euid ≠ 0) (call : ExecCall)
    (h : call.run fs c env = .ok plan) :
    ∃ path, copyPathArg c call.pathPtr = some path ∧ Authorized fs c.cred path plan.imagePath := by
  cases call with
  | spawn p =>
    simp only [ExecCall.run, bind_eq_ok] at h
    obtain ⟨path, hpath, h⟩ := h
    exact ⟨path, reachablePath_ok hpath, spawnAs_authorized hroot h⟩
  | spawnv p argc argvPtr =>
    simp only [ExecCall.run, bind_eq_ok, ite_error_eq_ok] at h
    obtain ⟨-, path, hpath, _, -, h⟩ := h
    exact ⟨path, reachablePath_ok hpath, spawnAs_authorized hroot h⟩
  | exec p =>
    simp only [ExecCall.run, bind_eq_ok, ite_error_eq_ok] at h
    obtain ⟨-, path, hpath, h⟩ := h
    exact ⟨path, reachablePath_ok hpath, execAs_authorized hroot h⟩
  | execv p argc argvPtr =>
    simp only [ExecCall.run, bind_eq_ok, ite_error_eq_ok] at h
    obtain ⟨-, -, path, hpath, _, -, h⟩ := h
    exact ⟨path, reachablePath_ok hpath, execAs_authorized hroot h⟩
  | execve p argc argvPtr envc envpPtr =>
    simp only [ExecCall.run, bind_eq_ok, ite_error_eq_ok] at h
    obtain ⟨-, -, path, hpath, _, -, _, -, h⟩ := h
    exact ⟨path, reachablePath_ok hpath, execAs_authorized hroot h⟩

end Calls

/-! ### A script that may not be executed -/

/-- A file system that holds these files, all of them given with what `vfs_stat` says. -/
def fixedVfs (files : List (List UInt8 × VfsStat × List UInt8)) : Vfs where
  stat path :=
    match files.find? fun f => f.1 = path with
    | some f => .ok f.2.1
    | none => .error .noent
  read path off len :=
    match files.find? fun f => f.1 = path with
    | some f => .ok ((f.2.2.drop off).take len)
    | none => .error .noent
  read_length {path off len data} h := by
    split at h
    · obtain rfl := ok.inj h
      exact List.length_take_le _ _
    · exact nomatch h

def bytesOf (s : List Char) : List UInt8 := s.map Char.toUInt8

/-- The header of an ELF file of 120 bytes and one program header: all of it is one segment that can
be executed, with the entry at its start. -/
def smallImage : List UInt8 :=
  [0x7f, 0x45, 0x4c, 0x46, 2, 1, 1, 0, 0, 0, 0, 0, 0, 0, 0, 0,
    2, 0, 62, 0, 1, 0, 0, 0, 0, 0, 0, 0, 0, 1, 0, 0,
    64, 0, 0, 0, 0, 0, 0, 0, 0, 0, 0, 0, 0, 0, 0, 0,
    0, 0, 0, 0, 64, 0, 56, 0, 1, 0, 0, 0, 0, 0, 0, 0,
    1, 0, 0, 0, 5, 0, 0, 0, 0, 0, 0, 0, 0, 0, 0, 0,
    0, 0, 0, 0, 0, 1, 0, 0, 0, 0, 0, 0, 0, 0, 0, 0,
    120, 0, 0, 0, 0, 0, 0, 0, 120, 0, 0, 0, 0, 0, 0, 0,
    0, 16, 0, 0, 0, 0, 0, 0]

/-- A script `/s` with mode 0644 whose interpreter is the program `/i` with mode 0755, both of
root. -/
def scriptVfs : Vfs :=
  fixedVfs [(bytesOf ['/'], ⟨.dir, 0, 0o755, 0, 0⟩, []),
      (bytesOf ['/', 's'], ⟨.file, 5, 0o644, 0, 0⟩, bytesOf ['#', '!', '/', 'i', '\n']),
      (bytesOf ['/', 'i'], ⟨.file, 120, 0o755, 0, 0⟩, smallImage)]

/-- A process of the user `guest` that has the path of the script in its memory. -/
def guestCaller : Caller where
  cred := authFillCred ⟨guestName, 0, 0, 1001, 1000, false⟩
  cwd := bytesOf ['/']
  mem := ⟨fun _ => some (bytesOf ['/', 's']), fun _ => true⟩
  word _ := none
  async := true

/-- Enough memory for everything. -/
def ampleEnv : LoadEnv where
  slot := true
  space := true
  pid := true
  segment _ := .ok ()
  protect := .ok ()
  stack _ _ := .ok ()
  handles := true

/-- The plan for the script: its interpreter, with the script as its argument. -/
def scriptPlan : ExecPlan :=
  ⟨bytesOf ['/', 'i'], [bytesOf ['/', 'i'], bytesOf ['/', 's']], true⟩

private theorem run_script :
    (ExecCall.exec 0x10000).run scriptVfs guestCaller ampleEnv = .ok scriptPlan := by
  decide +kernel

theorem exec_permission_script : guestCaller.cred.euid ≠ 0
      ∧ (ExecCall.exec 0x10000).run scriptVfs guestCaller ampleEnv = .ok scriptPlan
      ∧ ∃ path, copyPathArg guestCaller 0x10000 = some path
        ∧ Authorized scriptVfs guestCaller.cred path scriptPlan.imagePath :=
  ⟨by decide, run_script, exec_permission (by decide) (.exec 0x10000) run_script⟩

/-- The guest starts the script without the permission to execute it. -/
theorem readable_script_runs : guestCaller.cred.euid ≠ 0
      ∧ (ExecCall.exec 0x10000).run scriptVfs guestCaller ampleEnv = .ok scriptPlan
      ∧ copyPathArg guestCaller 0x10000 = some (bytesOf ['/', 's'])
      ∧ ¬ MayExecute scriptVfs guestCaller.cred (bytesOf ['/', 's']) := by
  refine ⟨by decide, run_script, by decide +kernel, ?_⟩
  rintro ⟨st, hst, hpermits⟩
  have hstat : scriptVfs.stat (bytesOf ['/', 's']) =
      .ok ⟨.file, 5, 0o644, 0, 0⟩ := by decide +kernel
  obtain rfl := ok.inj (hstat.symm.trans hst)
  revert hpermits
  rw [Permits, if_neg (by decide), if_neg (by decide)]
  decide

end Rabbitbone.Spec.Proc
