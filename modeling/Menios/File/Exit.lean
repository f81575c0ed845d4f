import Menios.File.Table
import Menios.Ipc.Pipe

/-!
# Descriptors of processes that exit

A process that exits (`proc_exit_with_status`, `src/kernel/proc/proc.c`, lines 2113-2138) or is
killed (`proc_kill_pid`, lines 2140-2175) stays as a zombie until its parent reaps it in
`proc_waitpid`, where `scheduler_cleanup_process` (lines 469-497) frees it.

**Defect.** `scheduler_cleanup_process` does not call `proc_file_table_cleanup`, unlike
`proc_free_resources` (lines 281-311), which frees the child of a failed fork. The descriptors of
the process go with its memory, and the files they refer to keep counting them. A pipe whose
write end was open in such a process is never closed for writing, so its readers wait for ever.

Results:

* `ProcFiles.reap_exact_iff`: what reaping does to the counts.
* `exit_closes_descriptors`: the counts in runs in which processes close their descriptors
  before they are reaped.
-/

namespace Menios.File
open Common Ipc Option Finset FileState Function

/-- The life of a process, as far as its descriptors go. -/
inductive Life
  | absent | alive | zombie | gone
  deriving DecidableEq

/-- The files and the processes. -/
structure ProcFiles (π : Type*) where
  files : FileState π
  life : π → Life

/-- What a run is made of: calls of processes that are alive, creating a process or failing to
(`proc_create`, `proc_fork`), exit, a kill, and `proc_waitpid` reaping a zombie. -/
inductive ProcStep (π : Type*)
  | call (a : FileStep π)
  | start (child : π) (parent : Option π)
  | startFails (child parent : π)
  | exit (p : π)
  | kill (p : π)
  | reap (p : π)

namespace FileState
variable {π : Type*} [DecidableEq π]
section
variable {s s' : FileState π} {p : π} {x : π × Fin procMaxFiles}
/-- A descriptor is kept or cleared. -/
lemma dropEntry_table {d : UInt32 → Bool} {f : Fin procMaxFiles}
    (h : dropEntry d p s f = some s') :
    s'.table = s.table ∧ ((s.table (p, f)).file = none ∨ d (s.table (p, f)).flags = false) ∨
      s'.table = update s.table (p, f) .empty := by
  unfold dropEntry at h
  split at h
  · next hno =>
    cases h
    exact .inl ⟨rfl, .inl hno⟩
  split_ifs at h with hdr
  · obtain ⟨s1, hr, rfl⟩ := map_eq_some_iff.1 h
    right
    rw [setEntry, fileUnref_table hr]
  cases h
  exact .inl ⟨rfl, .inr (Bool.not_eq_true _ ▸ hdr)⟩

variable (l : List (Fin procMaxFiles))
lemma dropLoop_none {d : UInt32 → Bool}
    (hx : (s.table x).file = none) (h : l.foldlM (dropEntry d p) s = some s') :
    (s'.table x).file = none := by
  refine foldlM_inv (fun t => (t.table x).file = none) hx (fun f t t' ht hr => ?_) h
  rcases dropEntry_table hr with ⟨he, -⟩ | he
  · rw [he]
    exact ht
  rw [he, update_apply]
  split_ifs
  · rfl
  · exact ht

/-- `proc_file_table_cleanup` leaves no descriptor. -/
lemma dropLoop_clears
    (h : l.foldlM (dropEntry (fun _ => true) p) s = some s') (f : Fin procMaxFiles) (hf : f ∈ l) :
    (s'.table (p, f)).file = none := by
  induction l generalizing s with
  | nil => cases hf
  | cons f' l ih =>
    rw [List.foldlM_cons] at h
    obtain ⟨s1, hrun, hr⟩ := bind_eq_some_iff.1 h
    rcases List.mem_cons.1 hf with rfl | hf
    · refine dropLoop_none l ?_ hr
      rcases dropEntry_table hrun with ⟨he, hno | hfa⟩ | he
      · rw [he]
        exact hno
      · cases hfa
      · rw [he, update_self]
        rfl
    · exact ih hr hf
end
end FileState

namespace ProcFiles
variable {π : Type*} [DecidableEq π]
/-- The table goes with the memory of its process. -/
def forgetTable (s : FileState π) (p : π) : FileState π :=
  { s with table := fun x => if x.1 = p then .empty else s.table x }

variable (s : ProcFiles π)
/-- The life of a process changes. -/
def setLife (p : π) (l : Life) : ProcFiles π := { s with life := update s.life p l }

/-- One step; `none` where it is not possible or touches a freed file. The table of a new
process is cleared by `proc_file_table_initialize`. -/
def step (s : ProcFiles π) : ProcStep π → Option (ProcFiles π)
  | .call a =>
    match a.caller with
    | none => none
    | some none => (s.files.step a).map fun files => { s with files := files }
    | some (some p) =>
      if s.life p = .alive then (s.files.step a).map fun files => { s with files := files }
      else none
  | .start child parent =>
    if s.life child ≠ .absent then none
    else
      let files := forgetTable s.files child
      match parent with
      | none => some ({ s with files := files }.setLife child .alive)
      | some p =>
        if s.life p = .alive then
          (files.procFileTableClone child p).map fun files =>
            { s with files := files }.setLife child .alive
        else none
  | .startFails child parent =>
    if s.life child = .absent ∧ s.life parent = .alive then
      ((forgetTable s.files child).procFileTableClone child parent).bind fun files =>
        (files.procFileTableCleanup child).map fun files =>
          { s with files := forgetTable files child }
    else none
  | .exit p => if s.life p = .alive then some (s.setLife p .zombie) else none
  | .kill p => if s.life p = .alive then some (s.setLife p .zombie) else none
  | .reap p =>
    if s.life p = .zombie then
      some ({ s with files := forgetTable s.files p }.setLife p .gone)
    else none

/-- No process yet. -/
def initial (π : Type*) : ProcFiles π := ⟨FileState.initial π, fun _ => .absent⟩

/-- The caller has a handle of the file that it passes. -/
def HasHandle (s : ProcFiles π) : ProcStep π → Prop
  | .call a => s.files.HasHandle a
  | _ => True

/-- A process that is reaped has no descriptors left. -/
def ReapsClosed : ProcStep π → Prop
  | .reap p => ∀ fd, (s.files.table (p, fd)).file = none
  | _ => True

/-- A state that processes reach. -/
inductive Reached : ProcFiles π → Prop
  | initial : Reached (initial π)
  | step {s s' : ProcFiles π} {a : ProcStep π} (h : Reached s) (hhandle : s.HasHandle a)
      (hstep : s.step a = some s') : Reached s'

/-- A state that processes reach that are reaped without descriptors. -/
inductive ReachedClosed : ProcFiles π → Prop
  | initial : ReachedClosed (initial π)
  | step {s s' : ProcFiles π} {a : ProcStep π} (h : ReachedClosed s) (hhandle : s.HasHandle a)
      (hclosed : s.ReapsClosed a) (hstep : s.step a = some s') : ReachedClosed s'

variable [Fintype π]
/-- The counts are exact, and processes that are not there have no descriptors. -/
structure Tidy (s : ProcFiles π) : Prop where
  exact : s.files.Exact
  unused : ∀ p, s.life p = .absent ∨ s.life p = .gone → ∀ fd, (s.files.table (p, fd)).file = none

section
variable {s s' : ProcFiles π}
lemma exact_forgetTable {f : FileState π} (h : f.Exact) {p : π}
    (hp : ∀ fd, (f.table (p, fd)).file = none) : (forgetTable f p).Exact := by
  refine exact_of_counted { h with } fun g => ?_
  show slots f.table g + f.handles g = slots (forgetTable f p).table g + f.handles g
  congr 1
  refine congrArg Finset.card (filter_congr fun x _ => ?_)
  show (f.table x).file = some g ↔ (if x.1 = p then Entry.empty else f.table x).file = some g
  split_ifs with hx
  · rw [show x = (p, x.2) from Prod.ext hx rfl, hp]
    rfl
  · exact Iff.rfl

omit [Fintype π] in
lemma forgetTable_table (f : FileState π) (p : π) (fd : Fin procMaxFiles) :
    ((forgetTable f p).table (p, fd)).file = none := by
  show (if p = p then Entry.empty else f.table (p, fd)).file = none
  rw [if_pos rfl]
  rfl

/-- Reaping keeps the counts exact exactly when the process has no descriptors. -/
theorem reap_exact_iff (h : s.files.Exact) (p : π) :
    (forgetTable s.files p).RefcountsExact ↔ ∀ fd, (s.files.table (p, fd)).file = none := by
  constructor
  · intro he fd
    cases hfi : (s.files.table (p, fd)).file with
    | none => rfl
    | some f =>
      exfalso
      have hpos := references_pos hfi
      have hlt : f < s.files.next := by
        by_contra hge
        have := h.fresh f (Nat.not_lt.1 hge)
        omega
      have hb := (h.counts f hlt).refcount
      have ha := (he f hlt).1
      -- the descriptor is counted before and not after
      have hsl : slots (forgetTable s.files p).table f < slots s.files.table f := by
        refine card_lt_card ⟨fun x hx => ?_, fun hsub => ?_⟩
        · have hx' := (mem_filter.1 hx).2
          refine mem_filter.2 ⟨mem_univ x, ?_⟩
          change (if x.1 = p then Entry.empty else s.files.table x).file = some f at hx'
          split_ifs at hx'
          · exact absurd hx' (by simp [Entry.empty])
          · exact hx'
        · have hmem := hsub (mem_filter.2 ⟨mem_univ (p, fd), hfi⟩)
          rw [mem_filter, forgetTable_table] at hmem
          exact absurd hmem.2 (by simp)
      have heq : s.files.references f = (forgetTable s.files p).references f := by
        have : ((forgetTable s.files p).files f).refcount = (s.files.files f).refcount := rfl
        rw [this, hb] at ha
        exact_mod_cast ha
      have h1 : s.files.references f = slots s.files.table f + s.files.handles f := rfl
      have h2 : (forgetTable s.files p).references f =
          slots (forgetTable s.files p).table f + s.files.handles f := rfl
      omega
  intro hp f hf
  obtain ⟨h1, h2, h3⟩ := (exact_forgetTable h hp).counts f hf
  exact ⟨h1, h2, h3⟩

lemma Tidy.start (h : s.Tidy) {c : π} {pr : Option π}
    (hst : s.step (.start c pr) = some s') : s'.Tidy := by
  rw [step] at hst
  split_ifs at hst with ha
  rw [not_not] at ha
  have he := exact_forgetTable h.exact (h.unused c (.inl ha))
  have hot : ∀ {files : FileState π}, (∀ x, x.1 ≠ c → files.table x = s.files.table x) →
      ∀ p, (setLife { s with files := files } c .alive).life p = .absent ∨
        (setLife { s with files := files } c .alive).life p = .gone →
      ∀ f, (files.table (p, f)).file = none := by
    intro files hfi p hp f
    have hne : p ≠ c := by
      rintro rfl
      rcases hp with hp | hp <;> simp [setLife] at hp
    rw [hfi (p, f) hne]
    refine h.unused p ?_ f
    rcases hp with hp | hp
    · exact .inl (by simpa [setLife, hne] using hp)
    · exact .inr (by simpa [setLife, hne] using hp)
  have hf : ∀ x : π × Fin procMaxFiles, x.1 ≠ c →
      (forgetTable s.files c).table x = s.files.table x := fun x hx => if_neg hx
  cases pr with
  | none =>
    cases hst
    exact ⟨he, hot hf⟩
  | some p =>
    dsimp only at hst
    split_ifs at hst
    obtain ⟨files, hc, rfl⟩ := map_eq_some_iff.1 hst
    obtain ⟨f', hr, he', hk⟩ := he.procFileTableClone (fun f => forgetTable_table s.files c f) p
    cases hr.symm.trans hc
    exact ⟨he', hot fun x hx => (hk x hx).trans (hf x hx)⟩

lemma Tidy.startFails (h : s.Tidy) {c pr : π}
    (hst : s.step (.startFails c pr) = some s') : s'.Tidy := by
  rw [step] at hst
  split_ifs at hst with hl
  have he := exact_forgetTable h.exact (h.unused c (.inl hl.1))
  obtain ⟨files, hcn, hst⟩ := bind_eq_some_iff.1 hst
  obtain ⟨fl', hc, rfl⟩ := map_eq_some_iff.1 hst
  obtain ⟨f, hr, he', hk⟩ := he.procFileTableClone (fun fd => forgetTable_table s.files c fd) pr
  cases hr.symm.trans hcn
  obtain ⟨f', hr', he'', hk'⟩ := he'.dropLoop (fun _ => true) c (List.finRange procMaxFiles)
  cases hr'.symm.trans hc
  refine ⟨exact_forgetTable he'' fun fd =>
    dropLoop_clears _ hc fd (List.mem_finRange fd), fun p hp fd => ?_⟩
  show (if p = c then Entry.empty else fl'.table (p, fd)).file = none
  split_ifs with hpc
  · rfl
  rw [hk' _ hpc, hk _ hpc]
  show (if p = c then Entry.empty else s.files.table (p, fd)).file = none
  rw [if_neg hpc]
  exact h.unused p hp fd

lemma Tidy.setLife (h : s.Tidy) {p : π} {l : Life} (hl : l = .zombie ∨ l = .alive) :
    (s.setLife p l).Tidy := by
  refine ⟨h.exact, fun q hq f => h.unused q ?_ f⟩
  by_cases hqp : q = p
  · subst hqp
    simp only [ProcFiles.setLife, update_self] at hq
    rcases hl with rfl | rfl
    · exact absurd hq (by decide)
    · exact absurd hq (by decide)
  · simpa [ProcFiles.setLife, hqp] using hq

lemma Tidy.step (h : s.Tidy) {a : ProcStep π} (hh : s.HasHandle a) (hcl : s.ReapsClosed a)
    (hst : s.step a = some s') : s'.Tidy := by
  cases a with
  | call a =>
    obtain ⟨caller, hca, ha, files, hr, rfl⟩ : ∃ caller, a.caller = some caller ∧
        (∀ p, caller = some p → s.life p = .alive) ∧
        ∃ files, s.files.step a = some files ∧ s' = { s with files := files } := by
      rw [ProcFiles.step] at hst
      cases hc : a.caller with
      | none =>
        rw [hc] at hst
        exact absurd hst (by simp)
      | some caller =>
        rw [hc] at hst
        cases caller with
        | none =>
          obtain ⟨files, hr, rfl⟩ := map_eq_some_iff.1 hst
          exact ⟨none, rfl, fun p hp => by simp at hp, files, hr, rfl⟩
        | some p =>
          dsimp only at hst
          split_ifs at hst with hp
          obtain ⟨files, hr, rfl⟩ := map_eq_some_iff.1 hst
          refine ⟨some p, rfl, fun q hq => ?_, files, hr, rfl⟩
          cases hq
          exact hp
    have hcn : s.files.ClonesToEmpty a := by cases a <;> first | exact trivial | cases hca
    obtain ⟨f', hr', he, hk⟩ := h.exact.step hh hcn
    cases hr'.symm.trans hr
    refine ⟨he, fun p hp f => ?_⟩
    rw [hk hca _ fun q hq hpq => ?_]
    · exact h.unused p hp f
    have hq' := ha q hq
    rw [← hpq] at hq'
    have hp' : s.life p = .absent ∨ s.life p = .gone := hp
    rw [hq'] at hp'
    exact absurd hp' (by decide)
  | start child parent => exact h.start hst
  | startFails child parent => exact h.startFails hst
  | exit p =>
    rw [ProcFiles.step] at hst
    split_ifs at hst
    cases hst
    exact h.setLife (.inl rfl)
  | kill p =>
    rw [ProcFiles.step] at hst
    split_ifs at hst
    cases hst
    exact h.setLife (.inl rfl)
  | reap p =>
    rw [ProcFiles.step] at hst
    split_ifs at hst
    cases hst
    refine ⟨exact_forgetTable h.exact hcl, fun q hq f => ?_⟩
    show (if q = p then Entry.empty else s.files.table (q, f)).file = none
    split_ifs with hqp
    · rfl
    · exact h.unused q (by simpa [ProcFiles.setLife, hqp] using hq) f

lemma ReachedClosed.tidy (h : ReachedClosed s) : s.Tidy := by
  induction h with
  | initial => exact ⟨FileState.exact_initial, fun _ _ _ => rfl⟩
  | step _ hh hc hst ih => exact ih.step hh hc hst
end

omit [DecidableEq π] [Fintype π] in
/-- The writers of the pipe whose write end is file `w`: `pipe_shared_init` counts one, and
`pipe_close_impl`, the close operation of the file, takes it away. -/
def writersLeft (w : ℕ) : ℕ := 1 - (s.files.files w).closeRuns

/-- In every run in which processes are reaped without descriptors, the files count no other
references than descriptors of processes that are there and handles, and a reader of a pipe
whose write end nobody has finds the end of the file. Reaping a process keeps this exactly
when the process has no descriptors. -/
theorem exit_closes_descriptors {s : ProcFiles π} (h : ReachedClosed s) : s.files.RefcountsExact ∧
    (∀ p s', s.step (.reap p) = some s' →
      (s'.files.RefcountsExact ↔ ∀ fd, (s.files.table (p, fd)).file = none)) ∧
    ∀ w, w < s.files.next → (s.files.files w).hasClose = true →
      (∀ x, (s.files.table x).file ≠ some w) → s.files.handles w = 0 →
      ∀ (pipe : Pipe) (length : ℕ), pipe.Valid → pipe.count = 0 → pipe.writers = s.writersLeft w →
        0 < length → pipe.readSection length 0 = some (.returns 0, [], pipe) := by
  have ht := h.tidy
  refine ⟨fun f hf => ?_, fun p s' hst => ?_, fun w hw hcl hsl hh pipe length hv hc hwr hl => ?_⟩
  · obtain ⟨h1, h2, h3⟩ := ht.exact.counts f hf
    exact ⟨h1, h2, h3⟩
  · rw [ProcFiles.step] at hst
    split_ifs at hst
    cases hst
    exact reap_exact_iff ht.exact p
  have hre : s.files.references w = 0 := by
    have hz : slots s.files.table w = 0 := by
      rw [slots, card_eq_zero, filter_eq_empty_iff]
      exact fun x _ => hsl x
    rw [references, hz, hh]
  have hr := (ht.exact.counts w hw).closeRuns
  rw [hre, if_pos ⟨rfl, hcl⟩] at hr
  rw [writersLeft, hr] at hwr
  rw [Pipe.readSection, if_pos hc, if_pos hwr]
  rfl

/-- A process opens the write end of a pipe, closes it, exits and is reaped. -/
theorem exit_closes_descriptors_closed : ∃ s : ProcFiles Unit,
    ReachedClosed s ∧ s.life () = .gone ∧ s.files.next = 1 ∧ s.files.RefcountsExact := by
  have h1 : ReachedClosed (_ : ProcFiles Unit) := .step .initial (a := .start () none) trivial trivial rfl
  have h2 : ReachedClosed (_ : ProcFiles Unit) :=
    .step h1 (a := .call (.create true true)) trivial trivial rfl
  have h3 : ReachedClosed (_ : ProcFiles Unit) :=
    .step h2 (a := .call (.installAt () 0 (some 0) 0)) Nat.zero_lt_one trivial rfl
  have h4 : ReachedClosed (_ : ProcFiles Unit) :=
    .step h3 (a := .call (.unref (some 0))) Nat.zero_lt_one trivial rfl
  have h5 : ReachedClosed (_ : ProcFiles Unit) := .step h4 (a := .call (.close () 0)) trivial trivial rfl
  have h6 : ReachedClosed (_ : ProcFiles Unit) := .step h5 (a := .exit ()) trivial trivial rfl
  have h7 : ReachedClosed (_ : ProcFiles Unit) := .step h6 (a := .reap ()) trivial (fun f => by
    by_cases hf : f = 0
    · subst hf
      rfl
    have hne : (((), f) : Unit × Fin procMaxFiles) ≠ ((), 0) := fun he => hf (Prod.mk.inj he).2
    show (update (update (fun x : Unit × Fin procMaxFiles =>
      if x.1 = () then Entry.empty else Entry.empty) ((), 0) ⟨some 0, 0⟩) ((), 0) Entry.empty
      ((), f)).file = none
    rw [update_of_ne hne, update_of_ne hne]
    rfl) rfl
  exact ⟨_, h7, rfl, rfl, (exit_closes_descriptors h7).1⟩

/-- A process opens the write end of a pipe, exits and is reaped: the file counts a reference
that nobody has, and a reader of the empty pipe waits. -/
theorem reaped_descriptor_counted : ∃ s : ProcFiles Unit, Reached s ∧ s.life () = .gone ∧
    (s.files.files 0).refcount = 1 ∧ s.files.references 0 = 0 ∧ ¬ s.files.RefcountsExact ∧
    ∀ (pipe : Pipe) (length : ℕ), pipe.count = 0 → pipe.writers = s.writersLeft 0 →
      pipe.readSection length 0 = some (.waits 0, [], pipe) := by
  have h1 : Reached (_ : ProcFiles Unit) := .step .initial (a := .start () none) trivial rfl
  have h2 : Reached (_ : ProcFiles Unit) := .step h1 (a := .call (.create true true)) trivial rfl
  have h3 : Reached (_ : ProcFiles Unit) :=
    .step h2 (a := .call (.installAt () 0 (some 0) 0)) Nat.zero_lt_one rfl
  have h4 : Reached (_ : ProcFiles Unit) :=
    .step h3 (a := .call (.unref (some 0))) Nat.zero_lt_one rfl
  have h5 : Reached (_ : ProcFiles Unit) := .step h4 (a := .exit ()) trivial rfl
  have h6 : Reached (_ : ProcFiles Unit) := .step h5 (a := .reap ()) trivial rfl
  obtain ⟨s, hre, hgo, hc, hru, hne, hh, ht⟩ : ∃ s : ProcFiles Unit,
      Reached s ∧ s.life () = .gone ∧ (s.files.files 0).refcount = 1 ∧
        (s.files.files 0).closeRuns = 0 ∧ s.files.next = 1 ∧ s.files.handles 0 = 0 ∧
        ∀ x, s.files.table x = .empty := ⟨_, h6, rfl, rfl, rfl, rfl, rfl, fun _ => rfl⟩
  have hr : s.files.references 0 = 0 := by
    rw [FileState.references, FileState.slots, hh, filter_eq_empty_iff.2]
    · rfl
    intro x _ hx
    rw [ht] at hx
    cases hx
  refine ⟨s, hre, hgo, hc, hr, fun he => ?_, fun pipe length hz hwr => ?_⟩
  · have := (he 0 (by rw [hne]; decide)).1
    rw [hc, hr] at this
    exact absurd this (by decide)
  rw [writersLeft, hru] at hwr
  rw [Pipe.readSection, if_pos hz, if_neg (by omega)]
end ProcFiles
end Menios.File
