import Menios.Common.Errno
import Menios.Common.Loop

/-!
# File objects and descriptor tables

Model of the reference counts of file objects and of the descriptor tables of processes
(`src/kernel/fs/core/file.c`, lines 316-352 and 526-718). `err_no` is left out. A function that
touches a file object after it was freed has no result. A reference is a pointer kept in memory,
so the 64 bits of `refcount` do not overflow.

`handles` counts the references that callers hold: the one of `file_create` and those of
`proc_file_get`, until `file_unref`. It is no part of the program, and neither is `closeRuns`.

`proc_file_table_clone` writes over the table of the child. Its two callers (`proc.c`, lines 732
and 1254) clear that table first.

Results:

* `Counted.ref`, `Counted.unref`: the reference counts follow the references.
* `refcounts_exact`: the counts are exact in every run in which tables are cloned into empty
  tables.
-/

namespace Menios.File
open Common List Finset Prod Option Function

/-- `PROC_MAX_FILES`. -/
def procMaxFiles : ℕ := 256

instance : NeZero procMaxFiles := ⟨by decide⟩

/-- `EMFILE`. -/
def emfile : ℤ := 24

/-- `FD_FLAG_CLOEXEC`. -/
def fdFlagCloexec : UInt32 := 1

/-- `file_t`: its reference count and whether its operations have a `close`. -/
structure FileObject where
  refcount : ℤ
  hasClose : Bool
  freed : Bool
  closeRuns : ℕ

/-- `file_descriptor_entry_t`. -/
structure Entry where
  file : Option ℕ
  flags : UInt32

/-- An unused descriptor. -/
def Entry.empty : Entry := ⟨none, 0⟩

/-- The file objects, in the order of their creation, and the tables of the processes. -/
structure FileState (π : Type*) where
  files : ℕ → FileObject
  next : ℕ
  table : π × Fin procMaxFiles → Entry
  handles : ℕ → ℕ

namespace FileState
variable {π : Type*} [DecidableEq π]
/-! ## References -/

/-- `file_ref` (lines 330-335). -/
def fileRef (s : FileState π) (f : ℕ) : Option (FileState π) :=
  if (s.files f).freed then none
  else some { s with
    files := update s.files f { s.files f with refcount := (s.files f).refcount + 1 } }

/-- `file_destroy` (lines 337-342). -/
def fileDestroy (file : FileObject) : FileObject :=
  { file with freed := true, closeRuns := file.closeRuns + if file.hasClose then 1 else 0 }

/-- `file_unref` (lines 344-352). -/
def fileUnref (s : FileState π) (f : ℕ) : Option (FileState π) :=
  if (s.files f).freed then none
  else
    let file := { s.files f with refcount := (s.files f).refcount - 1 }
    some { s with
      files := update s.files f (if file.refcount = 0 then fileDestroy file else file) }

/-- `file_create` (lines 316-328); `ok`: the allocation succeeds. -/
def fileCreate (s : FileState π) (ok hasClose : Bool) : FileState π :=
  if ok then
    { s with
      files := update s.files s.next ⟨1, hasClose, false, 0⟩
      next := s.next + 1
      handles := update s.handles s.next (s.handles s.next + 1) }
  else s

/-- Write a descriptor. -/
def setEntry (s : FileState π) (x : π × Fin procMaxFiles) (e : Entry) : FileState π :=
  { s with table := update s.table x e }

/-! ## Descriptors -/

/-- A descriptor number in the range of the table. -/
def toFd (fd : ℤ) : Option (Fin procMaxFiles) :=
  if h : 0 ≤ fd ∧ fd < procMaxFiles then some ⟨fd.toNat, by omega⟩ else none

/-- `find_free_fd` (lines 566-573) from 0. -/
def findFreeFd (s : FileState π) (p : π) : Option (Fin procMaxFiles) :=
  (List.finRange procMaxFiles).find? fun fd => (s.table (p, fd)).file.isNone

/-- `proc_file_install_at` (lines 575-595). -/
def procFileInstallAt (s : FileState π) (p : π) (fd : ℤ) (file : Option ℕ) (flags : UInt32) :
    Option (ℤ × FileState π) :=
  match file with
  | none => some (-einval, s)
  | some f =>
    match toFd fd with
    | none => some (-ebadf, s)
    | some slot =>
      if (s.table (p, slot)).file.isSome then some (-ebadf, s)
      else (s.fileRef f).map fun s => (fd, s.setEntry (p, slot) ⟨some f, flags⟩)

/-- `proc_file_install` (lines 597-608). -/
def procFileInstall (s : FileState π) (p : π) (file : Option ℕ) (flags : UInt32) :
    Option (ℤ × FileState π) :=
  match file with
  | none => some (-einval, s)
  | some f =>
    match s.findFreeFd p with
    | none => some (-emfile, s)
    | some fd => s.procFileInstallAt p (fd.val : ℤ) (some f) flags

/-- `proc_file_get` (lines 610-628): the file, with a reference for the caller. -/
def procFileGet (s : FileState π) (p : π) (fd : ℤ) : Option (Option ℕ × FileState π) :=
  match toFd fd with
  | none => some (none, s)
  | some slot =>
    match (s.table (p, slot)).file with
    | none => some (none, s)
    | some f => (s.fileRef f).map fun s =>
        (some f, { s with handles := update s.handles f (s.handles f + 1) })

/-- `proc_file_close` (lines 646-663). -/
def procFileClose (s : FileState π) (p : π) (fd : ℤ) : Option (ℤ × FileState π) :=
  match toFd fd with
  | none => some (-ebadf, s)
  | some slot =>
    match (s.table (p, slot)).file with
    | none => some (-ebadf, s)
    | some f => ((s.setEntry (p, slot) .empty).fileUnref f).map fun s => (0, s)

/-- The part of `proc_file_dup` after the target is known (lines 690-717). -/
def dupTo (s : FileState π) (p : π) (old target : Fin procMaxFiles) (f : ℕ) (cloexec : Bool) :
    Option (ℤ × FileState π) :=
  if target = old then
    let e := s.table (p, target)
    some (target.val, if cloexec then
      s.setEntry (p, target) { e with flags := e.flags ||| fdFlagCloexec } else s)
  else
    let dropped := match (s.table (p, target)).file with
      | none => some s
      | some g => s.fileUnref g
    match dropped with
    | none => none
    | some s => (s.fileRef f).map fun s =>
        let flags := (s.table (p, old)).flags
        (target.val, s.setEntry (p, target)
          ⟨some f, if cloexec then flags ||| fdFlagCloexec else flags⟩)

/-- `proc_file_dup` (lines 665-718). -/
def procFileDup (s : FileState π) (p : π) (oldfd newfd : ℤ) (cloexec : Bool) :
    Option (ℤ × FileState π) :=
  match toFd oldfd with
  | none => some (-ebadf, s)
  | some old =>
    match (s.table (p, old)).file with
    | none => some (-ebadf, s)
    | some f =>
      if newfd < 0 then
        match s.findFreeFd p with
        | none => some (-emfile, s)
        | some target => s.dupTo p old target f cloexec
      else
        match toFd newfd with
        | none => some (-ebadf, s)
        | some target => s.dupTo p old target f cloexec

/-! ## Whole tables -/

/-- The body of the loop of `proc_file_table_clone` (lines 531-536). -/
def cloneEntry (child parent : π) (s : FileState π) (fd : Fin procMaxFiles) :
    Option (FileState π) :=
  let e := s.table (parent, fd)
  let s := s.setEntry (child, fd) e
  match e.file with
  | none => some s
  | some f => s.fileRef f

/-- `proc_file_table_clone` (lines 526-538). -/
def procFileTableClone (s : FileState π) (child parent : π) : Option (FileState π) :=
  (List.finRange procMaxFiles).foldlM (cloneEntry child parent) s

/-- The body of the loops of `proc_file_table_cleanup` (lines 545-549) and
`proc_file_table_prepare_exec` (lines 558-562), for the descriptors with these flags. -/
def dropEntry (drop : UInt32 → Bool) (p : π) (s : FileState π) (fd : Fin procMaxFiles) :
    Option (FileState π) :=
  match (s.table (p, fd)).file with
  | none => some s
  | some f =>
    if drop (s.table (p, fd)).flags then (s.fileUnref f).map (·.setEntry (p, fd) .empty) else some s

/-- `proc_file_table_cleanup` (lines 540-551). -/
def procFileTableCleanup (s : FileState π) (p : π) : Option (FileState π) :=
  (List.finRange procMaxFiles).foldlM (dropEntry (fun _ => true) p) s

/-- `proc_file_table_prepare_exec` (lines 553-564). -/
def procFileTablePrepareExec (s : FileState π) (p : π) : Option (FileState π) :=
  (List.finRange procMaxFiles).foldlM (dropEntry (fun flags => flags &&& fdFlagCloexec ≠ 0) p) s

/-! ## Counting -/
variable [Fintype π]
/-- The number of descriptors that hold the file. -/
def slots (table : π × Fin procMaxFiles → Entry) (f : ℕ) : ℕ :=
  (Finset.univ.filter fun x => (table x).file = some f).card

/-- The number of references to the file. -/
def references (s : FileState π) (f : ℕ) : ℕ := slots s.table f + s.handles f

/-- One reference if the entry holds the file. -/
def holds (e : Entry) (f : ℕ) : ℕ := if e.file = some f then 1 else 0

lemma slots_update (tb : π × Fin procMaxFiles → Entry) (x : π × Fin procMaxFiles) (e : Entry)
    (f : ℕ) : slots (update tb x e) f + holds (tb x) f = slots tb f + holds e f := by
  have hcount : ∀ t : π × Fin procMaxFiles → Entry, slots t f =
      (Finset.univ.erase x |>.filter fun y => (t y).file = some f).card + holds (t x) f := by
    intro t
    rw [slots, ← insert_erase (mem_univ x), filter_insert, erase_insert_eq_erase]
    rw [holds]
    split_ifs with hx
    · rw [card_insert_of_notMem (by simp)]
      simp
    · simp
  have hr : (Finset.univ.erase x |>.filter fun y => (update tb x e y).file = some f) =
      (Finset.univ.erase x |>.filter fun y => (tb y).file = some f) := by
    refine Finset.filter_congr fun y hy => ?_
    rw [update_of_ne (ne_of_mem_erase hy)]
  rw [hcount (update tb x e), hcount tb, hr, update_self]
  omega

/-- The file object of a file with `n` references. -/
structure FileObject.Counts (file : FileObject) (n : ℕ) : Prop where
  refcount : file.refcount = n
  freed : file.freed = true ↔ n = 0
  closeRuns : file.closeRuns = if n = 0 ∧ file.hasClose = true then 1 else 0

/-- Every file object that was created counts the references `n`, and there are no references
to others. -/
structure Counted (s : FileState π) (n : ℕ → ℕ) : Prop where
  counts : ∀ f, f < s.next → FileObject.Counts (s.files f) (n f)
  fresh : ∀ f, s.next ≤ f → n f = 0

omit [DecidableEq π] [Fintype π] in
lemma Counted.live {s : FileState π} {n : ℕ → ℕ} (h : s.Counted n) {f : ℕ} (hf : 0 < n f) :
    f < s.next ∧ (s.files f).refcount = n f ∧ (s.files f).freed = false ∧ (s.files f).closeRuns = 0 := by
  have hlt : f < s.next := by
    by_contra hge
    have := h.fresh f (by omega)
    omega
  obtain ⟨h1, h2, h3⟩ := h.counts f hlt
  refine ⟨hlt, h1, ?_, by rw [h3, if_neg (by omega)]⟩
  rw [← Bool.not_eq_true, h2]
  omega

omit [DecidableEq π] [Fintype π] in
lemma Counted.change {s : FileState π} {n : ℕ → ℕ} (h : s.Counted n) {f m : ℕ} (hf : f < s.next)
    {fl : FileObject} (hfi : FileObject.Counts fl m) :
    Counted { s with files := update s.files f fl } (update n f m) := by
  refine ⟨fun g hg => ?_, fun g hg => ?_⟩
  · show FileObject.Counts (update s.files f _ g) _
    by_cases hgf : g = f
    · subst hgf
      rw [update_self, update_self]
      exact hfi
    · rw [update_of_ne hgf, update_of_ne hgf]
      exact h.counts g hg
  rw [update_of_ne (by rintro rfl; exact absurd hf (Nat.not_lt.2 hg))]
  exact h.fresh g hg

omit [DecidableEq π] [Fintype π] in
/-- Taking a reference to a file that has one. -/
theorem Counted.ref {s : FileState π} {n : ℕ → ℕ} (h : s.Counted n) {f : ℕ} (hf : 0 < n f) :
    ∃ s', s.fileRef f = some s' ∧ s'.Counted (update n f (n f + 1)) ∧
      s'.table = s.table ∧ s'.handles = s.handles ∧ s'.next = s.next := by
  obtain ⟨hlt, hcount, hl, hno⟩ := h.live hf
  rw [fileRef, hl, if_neg (by decide)]
  refine ⟨_, rfl, h.change hlt ⟨?_, ?_, ?_⟩, rfl, rfl, rfl⟩
  · rw [hcount]
    push_cast
    rfl
  · simp [hl]
  · rw [hno, if_neg (by omega)]

omit [DecidableEq π] [Fintype π] in
/-- Giving a reference up. The file is closed with its last one. -/
theorem Counted.unref {s : FileState π} {n : ℕ → ℕ} (h : s.Counted n) {f : ℕ} (hf : 0 < n f) :
    ∃ s', s.fileUnref f = some s' ∧ s'.Counted (update n f (n f - 1)) ∧
      s'.table = s.table ∧ s'.handles = s.handles ∧ s'.next = s.next := by
  obtain ⟨hlt, hcount, hl, hno⟩ := h.live hf
  rw [fileUnref, hl, if_neg (by decide)]
  refine ⟨_, rfl, h.change hlt ?_, rfl, rfl, rfl⟩
  by_cases hla : n f = 1
  · rw [if_pos (show (s.files f).refcount - 1 = 0 by omega), hla]
    refine ⟨?_, by simp [fileDestroy], ?_⟩
    · show (s.files f).refcount - 1 = _
      rw [hcount, hla]
      rfl
    · simp [fileDestroy, hno]
  rw [if_neg (show ¬ (s.files f).refcount - 1 = 0 by omega)]
  refine ⟨?_, ?_, ?_⟩
  · show (s.files f).refcount - 1 = _
    omega
  · show (s.files f).freed = true ↔ _
    rw [hl]
    constructor
    · intro hf
      cases hf
    · omega
  show (s.files f).closeRuns = _
  rw [hno, if_neg (by omega)]

/-- Every reference is counted. -/
def Exact (s : FileState π) : Prop := s.Counted s.references

section
variable {s s' : FileState π} {e : Entry} {f : ℕ}
/-- The references are counted after a call that changes the table of `p` only. -/
def ExactFor (s : FileState π) (p : π) (s' : FileState π) : Prop :=
  s'.Exact ∧ ∀ x, x.1 ≠ p → s'.table x = s.table x

omit [DecidableEq π] in
lemma Exact.same (h : s.Exact) (p : π) : s.ExactFor p s := ⟨h, fun _ _ => rfl⟩

omit [DecidableEq π] in
lemma ExactFor.trans {s1 : FileState π} {p : π} (h1 : s.ExactFor p s1) (h : s1.ExactFor p s') :
    s.ExactFor p s' := ⟨h.1, fun x hx => (h.2 x hx).trans (h1.2 x hx)⟩

lemma Exact.entry {p : π} {fd : Fin procMaxFiles} (h : (s'.setEntry (p, fd) e).Exact)
    (ht : s'.table = s.table) : s.ExactFor p (s'.setEntry (p, fd) e) := by
  refine ⟨h, fun x hx => ?_⟩
  rw [setEntry, ht]
  exact update_of_ne (fun he => hx (congrArg fst he)) _ _

omit [DecidableEq π] [Fintype π] in
lemma fileRef_table (h : s.fileRef f = some s') : s'.table = s.table := by
  unfold fileRef at h
  split_ifs at h
  rw [← some.inj h]

omit [DecidableEq π] [Fintype π] in
lemma fileUnref_table (h : s.fileUnref f = some s') : s'.table = s.table := by
  unfold fileUnref at h
  split_ifs at h
  rw [← some.inj h]

omit [DecidableEq π] in
lemma exact_of_counted {n : ℕ → ℕ} (h : s.Counted n) (hn : ∀ f, n f = s.references f) : s.Exact := by
  obtain rfl : n = s.references := funext hn
  exact h

lemma slots_setEntry (s : FileState π) (x : π × Fin procMaxFiles) (e : Entry) (f : ℕ) :
    slots (s.setEntry x e).table f + holds (s.table x) f = slots s.table f + holds e f :=
  slots_update s.table x e f

omit [DecidableEq π] [Fintype π] in
lemma holds_of_file (h : e.file = some f) (g : ℕ) : holds e g = if g = f then 1 else 0 := by
  rw [holds, h]
  by_cases hg : g = f
  · rw [if_pos (by rw [hg]), if_pos hg]
  · rw [if_neg (fun he => hg (some.inj he).symm), if_neg hg]

omit [DecidableEq π] [Fintype π] in
lemma holds_of_none (h : e.file = none) (g : ℕ) : holds e g = 0 := by
  rw [holds, h]
  rfl

omit [DecidableEq π] in
lemma references_pos {x : π × Fin procMaxFiles} (h : (s.table x).file = some f) :
    0 < s.references f := by
  have hmem : x ∈ Finset.univ.filter fun y => (s.table y).file = some f := by simp [h]
  have : 0 < slots s.table f := card_pos.2 ⟨x, hmem⟩
  rw [references]
  omega

lemma Exact.install (h : s.Exact) {x : π × Fin procMaxFiles} (hf : 0 < s.references f)
    (hx : (s.table x).file = none) (fl : UInt32) :
    ∃ s', s.fileRef f = some s' ∧ (s'.setEntry x ⟨some f, fl⟩).Exact := by
  obtain ⟨s', hr, hc, ht, hh, -⟩ := Counted.ref h hf
  refine ⟨s', hr, exact_of_counted { hc with } fun g => ?_⟩
  have hsl := slots_setEntry s' x ⟨some f, fl⟩ g
  rw [ht, holds_of_none hx, holds_of_file rfl] at hsl
  show _ = slots (s'.setEntry x ⟨some f, fl⟩).table g + s'.handles g
  rw [hh, update_apply]
  split_ifs at hsl ⊢ with hg
  · subst hg
    rw [references]
    omega
  rw [references]
  omega

lemma Exact.drop (h : s.Exact) {x : π × Fin procMaxFiles} (hx : (s.table x).file = some f) :
    ∃ s', s.fileUnref f = some s' ∧ s'.table = s.table ∧ s'.handles = s.handles ∧
      s'.next = s.next ∧ (s'.setEntry x .empty).Exact := by
  have hpos := references_pos hx
  obtain ⟨s', hr, hc, ht, hh, hne⟩ := Counted.unref h hpos
  refine ⟨s', hr, ht, hh, hne, exact_of_counted { hc with } fun g => ?_⟩
  have hsl := slots_setEntry s' x .empty g
  rw [ht, holds_of_file hx, holds_of_none rfl] at hsl
  show _ = slots (s'.setEntry x .empty).table g + s'.handles g
  rw [hh, update_apply]
  split_ifs at hsl ⊢ with hg
  · subst hg
    rw [references] at hpos ⊢
    omega
  rw [references]
  omega

omit [Fintype π] in
lemma fileRef_setEntry (s : FileState π) (x : π × Fin procMaxFiles) (e : Entry) (f : ℕ) :
    (s.setEntry x e).fileRef f = (s.fileRef f).map (·.setEntry x e) := by
  unfold fileRef
  rw [apply_ite (Option.map _)]
  rfl

omit [Fintype π] in
lemma fileUnref_setEntry (s : FileState π) (x : π × Fin procMaxFiles) (e : Entry) (f : ℕ) :
    (s.setEntry x e).fileUnref f = (s.fileUnref f).map (·.setEntry x e) := by
  unfold fileUnref
  rw [apply_ite (Option.map _)]
  rfl

omit [Fintype π] in
lemma setEntry_setEntry (s : FileState π) (x : π × Fin procMaxFiles) (e e' : Entry) :
    (s.setEntry x e).setEntry x e' = s.setEntry x e' := by
  rw [setEntry, setEntry, setEntry]
  simp

lemma Exact.setFlags (h : s.Exact) {x : π × Fin procMaxFiles}
    (he : e.file = (s.table x).file) : (s.setEntry x e).Exact := by
  refine exact_of_counted { h with } fun g => ?_
  have := slots_setEntry s x e g
  have : holds e g = holds (s.table x) g := by rw [holds, holds, he]
  show slots s.table g + s.handles g = slots (s.setEntry x e).table g + s.handles g
  omega

/-! ## Operations -/

lemma Exact.procFileInstallAt (h : s.Exact) (p : π) (fd : ℤ) {fl : Option ℕ}
    (hf : ∀ f, fl = some f → 0 < s.references f) (fg : UInt32) :
    ∃ r s', s.procFileInstallAt p fd fl fg = some (r, s') ∧ s.ExactFor p s' := by
  cases fl with
  | none => exact ⟨_, s, rfl, h.same p⟩
  | some f =>
    unfold FileState.procFileInstallAt
    cases hsl : toFd fd with
    | none => exact ⟨_, s, rfl, h.same p⟩
    | some slot =>
      dsimp only
      cases hx : (s.table (p, slot)).file with
      | some g => exact ⟨_, s, rfl, h.same p⟩
      | none =>
        obtain ⟨s', hr, he⟩ := h.install (hf f rfl) hx fg
        rw [hr]
        exact ⟨_, _, rfl, he.entry (fileRef_table hr)⟩

lemma Exact.procFileInstall (h : s.Exact) (p : π) {fl : Option ℕ}
    (hf : ∀ f, fl = some f → 0 < s.references f) (fg : UInt32) :
    ∃ r s', s.procFileInstall p fl fg = some (r, s') ∧ s.ExactFor p s' := by
  unfold FileState.procFileInstall
  cases fl with
  | none => exact ⟨_, s, rfl, h.same p⟩
  | some f =>
    cases s.findFreeFd p with
    | none => exact ⟨_, s, rfl, h.same p⟩
    | some fd => exact h.procFileInstallAt p _ hf fg

omit [DecidableEq π] in
lemma Exact.procFileGet (h : s.Exact) (p : π) (fd : ℤ) :
    ∃ file s', s.procFileGet p fd = some (file, s') ∧ s.ExactFor p s' := by
  unfold FileState.procFileGet
  cases toFd fd with
  | none => exact ⟨_, s, rfl, h.same p⟩
  | some slot =>
    dsimp only
    cases hx : (s.table (p, slot)).file with
    | none => exact ⟨_, s, rfl, h.same p⟩
    | some f =>
      obtain ⟨s', hr, hc, ht, hh, -⟩ := Counted.ref h (references_pos hx)
      dsimp only
      rw [hr]
      refine ⟨_, _, rfl, exact_of_counted { hc with } fun g => ?_, fun x _ => congrFun ht x⟩
      show _ = slots s'.table g + update s'.handles f (s'.handles f + 1) g
      rw [ht, hh, update_apply, update_apply]
      split_ifs with hg
      · rw [hg, references]
        omega
      · rfl

lemma Exact.procFileClose (h : s.Exact) (p : π) (fd : ℤ) :
    ∃ r s', s.procFileClose p fd = some (r, s') ∧ s.ExactFor p s' := by
  unfold FileState.procFileClose
  cases toFd fd with
  | none => exact ⟨_, s, rfl, h.same p⟩
  | some slot =>
    dsimp only
    cases hx : (s.table (p, slot)).file with
    | none => exact ⟨_, s, rfl, h.same p⟩
    | some f =>
      obtain ⟨s', hr, ht, -, -, he⟩ := h.drop hx
      dsimp only
      rw [fileUnref_setEntry, hr]
      exact ⟨_, _, rfl, he.entry ht⟩

lemma Exact.dupTo (h : s.Exact) {p : π} {o : Fin procMaxFiles}
    (hold : (s.table (p, o)).file = some f) (t : Fin procMaxFiles) (c : Bool) :
    ∃ r s', s.dupTo p o t f c = some (r, s') ∧ s.ExactFor p s' := by
  unfold FileState.dupTo
  by_cases heq : t = o
  · rw [if_pos heq]
    cases c with
    | true =>
      refine ⟨_, _, rfl, ?_⟩
      rw [if_pos rfl]
      exact Exact.entry (h.setFlags rfl) rfl
    | false => exact ⟨_, _, rfl, h.same p⟩
  rw [if_neg heq]
  have hne : (p, o) ≠ (p, t) := fun hp => heq (Prod.mk.inj hp).2.symm
  cases hx : (s.table (p, t)).file with
  | none =>
    obtain ⟨s', hr, he⟩ := h.install (references_pos hold) hx
      (if c then (s.table (p, o)).flags ||| fdFlagCloexec else (s.table (p, o)).flags)
    have ht := fileRef_table hr
    dsimp only
    rw [hr]
    refine ⟨_, _, rfl, ?_⟩
    rw [ht]
    exact he.entry ht
  | some g =>
    obtain ⟨s1, hr1, ht, -, -, he1⟩ := h.drop hx
    -- the state with the target given up
    have ho1 : ((s1.setEntry (p, t) .empty).table (p, o)).file = some f := by
      show (update s1.table (p, t) .empty (p, o)).file = some f
      rw [update_of_ne hne, ht]
      exact hold
    have hx1 : ((s1.setEntry (p, t) .empty).table (p, t)).file = none := by
      show (update s1.table (p, t) .empty (p, t)).file = none
      rw [update_self]
      rfl
    obtain ⟨s2, hr2, he2⟩ := he1.install (references_pos ho1) hx1
      (if c then (s.table (p, o)).flags ||| fdFlagCloexec else (s.table (p, o)).flags)
    rw [fileRef_setEntry] at hr2
    obtain ⟨s3, hr3, rfl⟩ := map_eq_some_iff.1 hr2
    have ht3 := (fileRef_table hr3).trans ht
    dsimp only
    rw [hr1]
    dsimp only
    rw [hr3]
    refine ⟨_, _, rfl, ?_⟩
    rw [ht3]
    rw [setEntry_setEntry] at he2
    exact he2.entry ht3

lemma Exact.procFileDup (h : s.Exact) (p : π) (o n : ℤ) (c : Bool) :
    ∃ r s', s.procFileDup p o n c = some (r, s') ∧ s.ExactFor p s' := by
  unfold FileState.procFileDup
  cases toFd o with
  | none => exact ⟨_, s, rfl, h.same p⟩
  | some ol =>
    dsimp only
    cases hold : (s.table (p, ol)).file with
    | none => exact ⟨_, s, rfl, h.same p⟩
    | some f =>
      dsimp only
      by_cases hneg : n < 0
      · rw [if_pos hneg]
        cases s.findFreeFd p with
        | none => exact ⟨_, s, rfl, h.same p⟩
        | some t => exact h.dupTo hold t c
      rw [if_neg hneg]
      cases toFd n with
      | none => exact ⟨_, s, rfl, h.same p⟩
      | some t => exact h.dupTo hold t c

lemma Exact.cloneEntry (h : s.Exact) {c : π} {fd : Fin procMaxFiles}
    (hf : (s.table (c, fd)).file = none) (p : π) : ∃ s', cloneEntry c p s fd = some s' ∧ s'.Exact ∧
      ∀ x, x ≠ (c, fd) → s'.table x = s.table x := by
  unfold FileState.cloneEntry
  dsimp only
  cases he : (s.table (p, fd)).file with
  | none =>
    refine ⟨_, rfl, h.setFlags (he.trans hf.symm), fun x hx => ?_⟩
    exact update_of_ne hx _ _
  | some f =>
    obtain ⟨s', hr, hex⟩ := h.install (references_pos he) hf (s.table (p, fd)).flags
    have hen : s.table (p, fd) = ⟨some f, (s.table (p, fd)).flags⟩ := by rw [← he]
    dsimp only
    rw [fileRef_setEntry, hr]
    refine ⟨_, rfl, by rw [hen]; exact hex, fun x hx => ?_⟩
    show update s'.table (c, fd) _ x = _
    rw [update_of_ne hx, fileRef_table hr]

lemma Exact.cloneLoop {c p : π} (l : List (Fin procMaxFiles)) (h : s.Exact) (hl : l.Nodup)
    (hf : ∀ fd ∈ l, (s.table (c, fd)).file = none) :
    ∃ s', l.foldlM (FileState.cloneEntry c p) s = some s' ∧ s.ExactFor c s' := by
  induction l generalizing s with
  | nil => exact ⟨s, rfl, h.same c⟩
  | cons fd l ih =>
    obtain ⟨hfd, hl⟩ := nodup_cons.1 hl
    obtain ⟨s1, hr, he, hot⟩ := h.cloneEntry (hf fd (by simp)) p
    rw [foldlM_cons, hr]
    obtain ⟨s', hr', hk⟩ := ih he hl fun f' hf' => by
      rw [hot _ fun heq => hfd ((Prod.mk.inj heq).2 ▸ hf')]
      exact hf f' (List.mem_cons_of_mem _ hf')
    exact ⟨s', hr', .trans ⟨he, fun x hx => hot x fun heq => hx (congrArg Prod.fst heq)⟩ hk⟩

lemma Exact.procFileTableClone (h : s.Exact) {c : π}
    (hf : ∀ fd, (s.table (c, fd)).file = none) (p : π) :
    ∃ s', s.procFileTableClone c p = some s' ∧ s.ExactFor c s' :=
  Exact.cloneLoop _ h (nodup_finRange _) fun fd _ => hf fd

lemma Exact.dropEntry (h : s.Exact) (d : UInt32 → Bool) (p : π) (fd : Fin procMaxFiles) :
    ∃ s', FileState.dropEntry d p s fd = some s' ∧ s.ExactFor p s' := by
  unfold FileState.dropEntry
  cases hx : (s.table (p, fd)).file with
  | none => exact ⟨s, rfl, h.same p⟩
  | some f =>
    dsimp only
    split_ifs
    · obtain ⟨s', hr, ht, -, -, he⟩ := h.drop hx
      rw [hr]
      exact ⟨_, rfl, he.entry ht⟩
    · exact ⟨s, rfl, h.same p⟩

lemma Exact.dropLoop (h : s.Exact) (d : UInt32 → Bool) (p : π) (l : List (Fin procMaxFiles)) :
    ∃ s', l.foldlM (FileState.dropEntry d p) s = some s' ∧ s.ExactFor p s' := by
  induction l generalizing s with
  | nil => exact ⟨s, rfl, h.same p⟩
  | cons fd l ih =>
    obtain ⟨s1, hr, hk⟩ := h.dropEntry d p fd
    obtain ⟨s', hr', hk'⟩ := ih hk.1
    rw [foldlM_cons, hr]
    exact ⟨s', hr', hk.trans hk'⟩
end

/-! ## Runs -/
omit [Fintype π]

/-- No files and unused tables. -/
def initial (π : Type*) : FileState π where
  files _ := ⟨0, false, true, 0⟩
  next := 0
  table _ := .empty
  handles _ := 0
end FileState

/-- The calls that a run is made of. -/
inductive FileStep (π : Type*)
  | create (ok hasClose : Bool)
  | install (p : π) (file : Option ℕ) (flags : UInt32)
  | installAt (p : π) (fd : ℤ) (file : Option ℕ) (flags : UInt32)
  | get (p : π) (fd : ℤ)
  | unref (file : Option ℕ)
  | close (p : π) (fd : ℤ)
  | dup (p : π) (oldfd newfd : ℤ) (cloexec : Bool)
  | clone (child parent : π)
  | prepareExec (p : π)
  | cleanup (p : π)

/-- The process that makes the call. Whole tables are cloned and cleaned up by the other steps
only. -/
def FileStep.caller {π : Type*} : FileStep π → Option (Option π)
  | .create _ _ => some none
  | .install p _ _ => some (some p)
  | .installAt p _ _ _ => some (some p)
  | .get p _ => some (some p)
  | .unref _ => some none
  | .close p _ => some (some p)
  | .dup p _ _ _ => some (some p)
  | .prepareExec p => some (some p)
  | .clone _ _ => none
  | .cleanup _ => none

namespace FileState
variable {π : Type*} [DecidableEq π]
/-- One call. -/
def step (s : FileState π) : FileStep π → Option (FileState π)
  | .create ok hasClose => some (s.fileCreate ok hasClose)
  | .install p file flags => (s.procFileInstall p file flags).map snd
  | .installAt p fd file flags => (s.procFileInstallAt p fd file flags).map snd
  | .get p fd => (s.procFileGet p fd).map snd
  | .unref none => some s
  | .unref (some f) => (s.fileUnref f).map fun s =>
      { s with handles := update s.handles f (s.handles f - 1) }
  | .close p fd => (s.procFileClose p fd).map snd
  | .dup p oldfd newfd cloexec => (s.procFileDup p oldfd newfd cloexec).map snd
  | .clone child parent => s.procFileTableClone child parent
  | .prepareExec p => s.procFileTablePrepareExec p
  | .cleanup p => s.procFileTableCleanup p

/-- The caller has a handle of the file that it passes. -/
def HasHandle (s : FileState π) : FileStep π → Prop
  | .install _ (some f) _ => 0 < s.handles f
  | .installAt _ _ (some f) _ => 0 < s.handles f
  | .unref (some f) => 0 < s.handles f
  | _ => True

/-- A table is cloned into an unused one, as its callers do. -/
def ClonesToEmpty (s : FileState π) : FileStep π → Prop
  | .clone child _ => ∀ fd, (s.table (child, fd)).file = none
  | _ => True

/-- A state that calls with handles reach. -/
inductive Reached : FileState π → Prop
  | initial : Reached (initial π)
  | step {s s' : FileState π} {a : FileStep π} (h : Reached s) (hhandle : s.HasHandle a)
      (hstep : s.step a = some s') : Reached s'

/-- A state that calls with handles reach that clone tables into unused ones. -/
inductive ReachedByClones : FileState π → Prop
  | initial : ReachedByClones (initial π)
  | step {s s' : FileState π} {a : FileStep π} (h : ReachedByClones s) (hhandle : s.HasHandle a)
      (hclone : s.ClonesToEmpty a) (hstep : s.step a = some s') : ReachedByClones s'

variable [Fintype π]
/-- The file objects count their references, each is closed once, with its last reference, and
no reference to a freed file is left. -/
def RefcountsExact (s : FileState π) : Prop :=
  ∀ f, f < s.next → (s.files f).refcount = s.references f ∧
    ((s.files f).freed = true ↔ s.references f = 0) ∧
    (s.files f).closeRuns =
      if s.references f = 0 ∧ (s.files f).hasClose = true then 1 else 0

omit [DecidableEq π] in
lemma exact_initial : (initial π).Exact := by
  refine ⟨fun f hf => absurd hf (Nat.not_lt_zero f), fun f _ => ?_⟩
  simp [references, slots, initial, Entry.empty]

omit [DecidableEq π] in
lemma Exact.fileCreate {s : FileState π} (h : s.Exact) (o hasClose : Bool) :
    (s.fileCreate o hasClose).Exact := by
  unfold FileState.fileCreate
  cases o with
  | false => exact h
  | true =>
    have hno := h.fresh s.next le_rfl
    have hsa : ∀ f, f ≠ s.next → references { s with
        files := update s.files s.next ⟨1, hasClose, false, 0⟩
        next := s.next + 1
        handles := update s.handles s.next (s.handles s.next + 1) } f = s.references f := by
      intro f hf
      show slots s.table f + update s.handles s.next (s.handles s.next + 1) f = _
      rw [update_of_ne hf]
      rfl
    refine ⟨fun f hf => ?_, fun f hf => ?_⟩
    · show FileObject.Counts (update s.files s.next _ f) _
      by_cases he : f = s.next
      · subst he
        have hone : references { s with
            files := update s.files s.next ⟨1, hasClose, false, 0⟩
            next := s.next + 1
            handles := update s.handles s.next (s.handles s.next + 1) } s.next = 1 := by
          show slots s.table s.next + update s.handles s.next (s.handles s.next + 1) s.next = 1
          rw [update_self]
          rw [references] at hno
          omega
        rw [update_self, if_pos rfl, hone]
        exact ⟨rfl, by simp, by simp⟩
      · have hlt : f < s.next := by
          have : f < s.next + 1 := hf
          omega
        rw [update_of_ne he, if_pos rfl, hsa f he]
        exact h.counts f hlt
    have hlt : s.next + 1 ≤ f := hf
    rw [if_pos rfl, hsa f (by omega)]
    exact h.fresh f (by omega)

omit [DecidableEq π] in
lemma ExactFor.called {s s' : FileState π} {p : π} {c : Option π} (h : s.ExactFor p s')
    (hc : some (some p) = some c) : ∀ x, (∀ p, c = some p → x.1 ≠ p) → s'.table x = s.table x := by
  cases hc
  exact fun x hx => h.2 x (hx p rfl)

lemma Exact.step {s : FileState π} (h : s.Exact) {a : FileStep π} (hh : s.HasHandle a)
    (hc : s.ClonesToEmpty a) : ∃ s', s.step a = some s' ∧ s'.Exact ∧
      ∀ {caller}, a.caller = some caller →
        ∀ x, (∀ p, caller = some p → x.1 ≠ p) → s'.table x = s.table x := by
  have hpos : ∀ {f}, 0 < s.handles f → 0 < s.references f := fun {f} hf => by
    rw [references]
    omega
  cases a with
  | create ok hasClose =>
    refine ⟨_, rfl, h.fileCreate ok hasClose, fun _ x _ => ?_⟩
    unfold FileState.fileCreate
    split_ifs <;> rfl
  | install p file flags =>
    have hfi : ∀ f, file = some f → 0 < s.references f := by
      rintro f rfl
      exact hpos hh
    obtain ⟨r, s', hr, hk⟩ := h.procFileInstall p hfi flags
    exact ⟨s', by rw [FileState.step, hr]; rfl, hk.1, hk.called⟩
  | installAt p fd file flags =>
    have hfi : ∀ f, file = some f → 0 < s.references f := by
      rintro f rfl
      exact hpos hh
    obtain ⟨r, s', hr, hk⟩ := h.procFileInstallAt p fd hfi flags
    exact ⟨s', by rw [FileState.step, hr]; rfl, hk.1, hk.called⟩
  | get p fd =>
    obtain ⟨file, s', hr, hk⟩ := h.procFileGet p fd
    exact ⟨s', by rw [FileState.step, hr]; rfl, hk.1, hk.called⟩
  | unref file =>
    cases file with
    | none => exact ⟨s, rfl, h, fun _ _ _ => rfl⟩
    | some f =>
      have hhand : 0 < s.handles f := hh
      obtain ⟨s', hr, hcn, ht, hhn, -⟩ := Counted.unref h (hpos hhand)
      refine ⟨{ s' with handles := update s'.handles f (s'.handles f - 1) },
        by rw [FileState.step, hr]; rfl, exact_of_counted { hcn with } fun g => ?_,
        fun _ x _ => congrFun ht x⟩
      show _ = slots s'.table g + update s'.handles f (s'.handles f - 1) g
      rw [ht, hhn, update_apply, update_apply]
      split_ifs with hg
      · rw [hg, references]
        omega
      · rfl
  | close p fd =>
    obtain ⟨r, s', hr, hk⟩ := h.procFileClose p fd
    exact ⟨s', by rw [FileState.step, hr]; rfl, hk.1, hk.called⟩
  | dup p o n c =>
    obtain ⟨r, s', hr, hk⟩ := h.procFileDup p o n c
    exact ⟨s', by rw [FileState.step, hr]; rfl, hk.1, hk.called⟩
  | clone child parent =>
    obtain ⟨s', hr, hk⟩ := h.procFileTableClone hc parent
    exact ⟨s', hr, hk.1, nofun⟩
  | prepareExec p =>
    obtain ⟨s', hr, hk⟩ := h.dropLoop _ p _
    exact ⟨s', hr, hk.1, hk.called⟩
  | cleanup p =>
    obtain ⟨s', hr, hk⟩ := h.dropLoop _ p _
    exact ⟨s', hr, hk.1, nofun⟩

lemma ReachedByClones.exact {s : FileState π} (h : ReachedByClones s) : s.Exact := by
  induction h with
  | initial => exact exact_initial
  | step _ hh hc hst ih =>
    obtain ⟨s1, hr, he, -⟩ := ih.step hh hc
    cases hr.symm.trans hst
    exact he

/-- In every run in which tables are cloned into unused tables, the reference counts are exact
and no call touches a file that was freed. -/
theorem refcounts_exact {s : FileState π} (h : ReachedByClones s) :
    s.RefcountsExact ∧ ∀ a, s.HasHandle a → s.ClonesToEmpty a → ∃ s', s.step a = some s' := by
  refine ⟨fun f hf => ?_, fun a hh hc => ?_⟩
  · obtain ⟨h1, h2, h3⟩ := h.exact.counts f hf
    exact ⟨h1, h2, h3⟩
  obtain ⟨s', hr, -⟩ := h.exact.step hh hc
  exact ⟨s', hr⟩

/-- A process opens a file, duplicates its descriptor and closes the first. -/
theorem refcounts_exact_one_file : ∃ s : FileState Bool,
    ReachedByClones s ∧ (s.files 0).refcount = 2 ∧ s.RefcountsExact := by
  have h1 : ReachedByClones (_ : FileState Bool) := .step .initial
    (a := .create true true) trivial trivial rfl
  have h2 : ReachedByClones (_ : FileState Bool) :=
    .step h1 (a := .installAt false 0 (some 0) 0) Nat.zero_lt_one trivial rfl
  have h3 : ReachedByClones (_ : FileState Bool) :=
    .step h2 (a := .dup false 0 1 false) trivial trivial rfl
  have h4 : ReachedByClones (_ : FileState Bool) :=
    .step h3 (a := .close false 0) trivial trivial rfl
  exact ⟨_, h4, rfl, (refcounts_exact h4).1⟩

lemma exists_twoFiles : ∃ s : FileState Bool, ReachedByClones s ∧ Reached s ∧ s.next = 2 ∧
    (s.files 1).refcount = 2 ∧ (s.files 0).freed = false ∧ s.table (false, 0) = ⟨some 0, 0⟩ ∧
    s.table (true, 0) = ⟨some 1, 0⟩ ∧ ∀ p fd, fd ≠ 0 → s.table (p, fd) = .empty := by
  have h1 : ReachedByClones (_ : FileState Bool) :=
    .step .initial (a := .create true true) trivial trivial rfl
  have h2 : ReachedByClones (_ : FileState Bool) :=
    .step h1 (a := .installAt false 0 (some 0) 0) Nat.zero_lt_one trivial rfl
  have h3 : ReachedByClones (_ : FileState Bool) := .step h2 (a := .create true true) trivial trivial rfl
  have h4 : ReachedByClones (_ : FileState Bool) :=
    .step h3 (a := .installAt true 0 (some 1) 0) Nat.zero_lt_one trivial rfl
  have h1' : Reached (_ : FileState Bool) := .step .initial (a := .create true true) trivial rfl
  have h2' : Reached (_ : FileState Bool) :=
    .step h1' (a := .installAt false 0 (some 0) 0) Nat.zero_lt_one rfl
  have h3' : Reached (_ : FileState Bool) := .step h2' (a := .create true true) trivial rfl
  have h4' : Reached (_ : FileState Bool) :=
    .step h3' (a := .installAt true 0 (some 1) 0) Nat.zero_lt_one rfl
  refine ⟨_, h4, h4', rfl, rfl, rfl, rfl, rfl, fun p fd hf => ?_⟩
  have hne : ∀ q : Bool, (p, fd) ≠ (q, (0 : Fin procMaxFiles)) := fun q he => hf (Prod.mk.inj he).2
  exact (update_of_ne (hne true) _ _).trans (update_of_ne (hne false) _ _)

omit [Fintype π] in
lemma cloneLoop_empty {s : FileState π} {c pr : π} (l : List (Fin procMaxFiles))
    (h : ∀ p, ∀ fd ∈ l, s.table (p, fd) = .empty) : l.foldlM (cloneEntry c pr) s = some s := by
  induction l with
  | nil => rfl
  | cons fd l ih =>
    have hsa : s.setEntry (c, fd) .empty = s := by rw [setEntry, ← h c fd (by simp), update_eq_self]
    have he : cloneEntry c pr s fd = some s := by
      unfold cloneEntry
      rw [h pr fd (by simp)]
      exact congrArg some hsa
    rw [foldlM_cons, he]
    exact ih fun p f' hf' => h p f' (List.mem_cons_of_mem _ hf')

/-- The table of one process is cloned into that of the other: the file that it held has a
reference that nothing holds. -/
theorem clone_loses_reference : ∃ s : FileState Bool, Reached s ∧ ¬ s.RefcountsExact := by
  obtain ⟨s, hc, hr, hnx, hcount, hli, hfa, ht, he⟩ := exists_twoFiles
  obtain ⟨s', hs'⟩ : ∃ s' : FileState Bool, s' = { s with
      files := update s.files 0 { s.files 0 with refcount := (s.files 0).refcount + 1 }
      table := update s.table (true, 0) ⟨some 0, 0⟩ } := ⟨_, rfl⟩
  have hst : s.step (.clone true false) = some s' := by
    obtain ⟨l, hra, hl⟩ : ∃ l : List (Fin procMaxFiles), List.finRange procMaxFiles = 0 :: l ∧
        ∀ fd ∈ l, fd ≠ 0 :=
      ⟨(List.finRange 255).map Fin.succ, finRange_succ, fun fd hf => by
        obtain ⟨f', -, rfl⟩ := List.mem_map.1 hf
        exact Fin.succ_ne_zero f'⟩
    have hfi : cloneEntry true false s 0 = some s' := by
      unfold cloneEntry
      rw [hfa]
      dsimp only
      rw [fileRef_setEntry, fileRef, hli, hs']
      rfl
    show (List.finRange procMaxFiles).foldlM (cloneEntry true false) s = some s'
    rw [hra, foldlM_cons, hfi]
    refine cloneLoop_empty l fun p fd hf => ?_
    have hne := hl fd hf
    rw [hs']
    exact (update_of_ne (fun heq => hne (Prod.mk.inj heq).2) _ _).trans (he p _ hne)
  refine ⟨s', .step hr (show s.HasHandle (.clone true false) from trivial) hst, fun hex => ?_⟩
  -- the references of the second file before and after
  have hb := ((refcounts_exact hc).1 1 (by rw [hnx]; decide)).1
  have ha := (hex 1 (by rw [hs']; exact hnx ▸ Nat.one_lt_two)).1
  have hsl := slots_update s.table (true, 0) ⟨some 0, 0⟩ 1
  rw [ht, holds_of_file rfl, holds_of_file rfl] at hsl
  have hsa : (s'.files 1).refcount = 2 := by rw [hs']; exact hcount
  have hrf : s'.references 1 = slots (update s.table (true, 0) ⟨some 0, 0⟩) 1 +
      s.handles 1 := by rw [hs']; rfl
  rw [hcount, references] at hb
  rw [hsa, hrf] at ha
  simp only [one_ne_zero, if_true, if_false] at hsl
  omega
end FileState
end Menios.File
