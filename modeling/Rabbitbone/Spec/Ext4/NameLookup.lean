import Rabbitbone.Spec.Ext4.NameEffect
import Rabbitbone.Spec.Vfs.Normalize

/-!
# What a lookup passes through

A lookup starts at the root and goes from directories to what their entries name.  Since it works on
normal paths, it never uses the entries `.` and `..`; a symbolic link makes it start again.  So
whatever holds of the root and is passed on by names holds of what is found.
-/

namespace Rabbitbone.Spec.Ext4

open Native.Ext4 Native.Path Spec.Path

variable {d : Nat} {followFinal : Bool}

section

variable {t : NameFs} {P : Nat → Prop} {path : List UInt8} {depth : Nat}

private theorem lookupLoop_induct {again : List UInt8 → Except Ext4Status Nat}
    (hstep : ∀ d e, P d → (t.inodes d).isDir = true → e ∈ t.dirs d → nameIsDot e.name = false →
      e.ino ≠ 0 → P e.ino)
    (hagain : ∀ path d, again path = .ok d → P d) {fuel : Nat} {cs : List (List UInt8)}
    (hcs : ∀ c ∈ cs, Component c) {cur : Nat} (hcur : P cur) {curPath : List UInt8}
    (h : lookupLoop t followFinal again fuel (joined cs) cur curPath = .ok d) : P d := by
  induction fuel generalizing cs cur curPath with
  | zero =>
    obtain rfl := Except.ok.inj h
    exact hcur
  | succ fuel ih =>
    rw [lookupLoop] at h
    split at h
    · obtain rfl := Except.ok.inj h
      exact hcur
    rename_i comp cursor hnext
    obtain ⟨c, cs, rfl⟩ : ∃ c cs', cs = c :: cs' := by
      cases cs with
      | nil => exact nomatch hnext
      | cons c cs => exact ⟨c, cs, rfl⟩
    have hc := hcs c List.mem_cons_self
    obtain ⟨rfl, rfl⟩ := pathNextComponent_joined hc hnext
    have hrest : ∀ c' ∈ cs, Component c' := fun c' hc' => hcs c' (List.mem_cons_of_mem _ hc')
    split at h
    · exact ih hrest hcur h
    split at h
    · exact nomatch h
    -- the entry is no dot, so it is a step down the tree
    rename_i e hfind
    obtain ⟨-, hdir, hname, hentry⟩ := findInDir_ok.mp hfind
    have hdot : nameIsDot e.name = false := by
      rw [hname, nameIsDot]
      simp [hc.ne_dot, hc.ne_dotdot]
    split at h
    · exact nomatch h
    rename_i hread
    have hnext : P e.ino := hstep cur e hcur hdir hentry.mem hdot (readNameInode_ok.mp hread).1.1
    split at h
    · split at h
      · exact nomatch h
      · -- a symbolic link starts again
        exact hagain _ d h
    split at h
    · exact nomatch h
    · exact ih hrest hnext h

/-- What holds of the root and goes from directory to entry holds of what a path leads to. -/
theorem lookupPathEx_induct (hroot : P rootIno)
    (hstep : ∀ d e, P d → (t.inodes d).isDir = true → e ∈ t.dirs d → nameIsDot e.name = false →
      e.ino ≠ 0 → P e.ino)
    (h : lookupPathEx t followFinal depth path = .ok d) : P d := by
  induction depth generalizing path d with
  | zero => exact nomatch h
  | succ depth ih =>
    rw [lookupPathEx] at h
    split at h
    · exact nomatch h
    rename_i norm hnorm
    obtain ⟨cs, hcs, rfl⟩ := Vfs.pathNormalize_normal hnorm
    split at h
    · exact nomatch h
    split at h
    · obtain rfl := Except.ok.inj h
      exact hroot
    rename_i hne
    have hjoined : normalPath cs = joined cs := by
      rw [normalPath]
      split
      · rename_i hnil
        exact absurd (by rw [normalPath, if_pos hnil]) hne
      · rfl
    rw [hjoined] at h
    exact lookupLoop_induct hstep (fun _ _ => ih) hcs hroot h

theorem lookup_ne_zero (h : lookupPathEx t followFinal depth path = .ok d) : d ≠ 0 :=
  lookupPathEx_induct (P := (· ≠ 0)) (by decide) (fun _ _ _ _ _ _ hne => hne) h

end

end Rabbitbone.Spec.Ext4
