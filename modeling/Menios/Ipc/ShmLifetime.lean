import Mathlib

/-!
# The lifetime of shared-memory regions

Model of the reference counts of `src/kernel/ipc/shm.c` under any interleaving of `shmget`,
`shmat`, `shmdt` and `shmctl(IPC_RMID)` (`src/kernel/syscall/syscall.c`, lines 3044-3243, with
`proc_shm_track_attachment` and `proc_shm_detach` of `src/kernel/proc/proc.c`, lines 934-991). Each
section under a mutex and each update of a reference count is one step of the process that makes
it. Whether memory can be had, where a region is mapped and whether it can be unmapped are chosen
by the step. Reference counts do not overflow.

**Defects.** The manager's reference is dropped by whoever sees a marked region without
attachments. Two calls of `IPC_RMID` both see it, and so do `IPC_RMID` and the `shmdt` that follows a
`shmat` that looked at the mark too early. A look-up takes a region whose count has reached zero as
long as it is in the list, and `shmget` reads the identifier of a new region after others can
remove it.

Results:

* `careful_runs_safe`: runs without these four situations destroy a region at most once, never
  while a process has it attached or refers to it, and do not touch it afterwards.
* `careful_counts_exact`: and their counts are exact.
* `region_destroyed_in_use`: two processes that remove one region.
-/

namespace Menios.Ipc.ShmLifetime
open List Finset Function

/-! ## Model -/

/-- `struct shm_region` (shm.c, lines 15-27), without what only the mappings use. -/
structure Region where
  id : ℕ
  key : ℤ
  marked : Bool
  refcount : ℕ
  attachmentCount : ℕ

/-- Where a process is in a call. -/
inductive Pc
  | idle
  /-- `shmget` has a new region to insert -/
  | creating (key : ℤ)
  /-- `shmget` has inserted the region, and is to read its identifier -/
  | created (r : ℕ)
  /-- `shmat` is to look at the mark -/
  | checking (r : ℕ)
  /-- `shmat` is to map the region -/
  | mapping (r : ℕ)
  /-- `shmctl` is to mark the region -/
  | marking (r : ℕ)
  /-- `shmdt` is to count the attachment off -/
  | detaching (r : ℕ)
  /-- in `shm_region_unref`, with `more` calls of it to follow -/
  | dropping (r more : ℕ)
  /-- `shm_region_unref` saw zero, and is to take the region out of the list -/
  | removing (r more : ℕ)
  /-- `shm_region_unref` is to destroy the region -/
  | destroying (r more : ℕ)
deriving DecidableEq

/-- A process: its call in progress, and its attachments with their bases. -/
structure Proc where
  pc : Pc
  attachments : List (ℕ × ℕ)

/-- The regions by the order of their allocation, the manager and the processes. `destroys` counts
the calls of `shm_region_destroy` and `stale` says that a step touched a region after one. -/
structure Shm (P : Type) where
  regions : ℕ → Region
  allocated : ℕ
  list : List ℕ
  nextId : ℕ
  procs : P → Proc
  destroys : ℕ → ℕ
  stale : Bool

/-- `SHM_MAX_REGIONS`. -/
def shmMaxRegions : ℕ := 1024

/-- `PROC_MAX_SHM_ATTACHMENTS`. -/
def procMaxShmAttachments : ℕ := 32

/-- `IPC_PRIVATE`. -/
def ipcPrivate : ℤ := 0

/-- The system calls. `unmapped` is the result of `vm_unmap`. -/
inductive Call
  | shmget (key : ℤ) (create : Bool)
  | shmat (id : ℤ)
  | shmdt (base : ℕ) (unmapped : Bool)
  | rmid (id : ℤ)

/-- A step of a process: it starts a call, or goes on with it. `ok` is whether memory or the
mapping can be had, and `base` where the region is mapped. -/
inductive ShmStep (P : Type)
  | start (p : P) (call : Call)
  | advance (p : P) (ok : Bool) (base : ℕ)

namespace Shm
variable {P : Type} [DecidableEq P]
/-- After `shm_manager_initialize` (lines 95-100). -/
def initialState (P : Type) : Shm P where
  regions := fun _ => ⟨0, 0, false, 0, 0⟩
  allocated := 0
  list := []
  nextId := 1
  procs := fun _ => ⟨.idle, []⟩
  destroys := fun _ => 0
  stale := false

/-- The step reads or writes the regions. -/
def touch (s : Shm P) (nodes : List ℕ) : Shm P :=
  { s with stale := s.stale || nodes.any fun r => s.destroys r != 0 }

/-- Change a region. -/
def setRegion (s : Shm P) (r : ℕ) (x : Region) : Shm P := { s with regions := update s.regions r x }

/-- Change a process. -/
def setProc (s : Shm P) (p : P) (x : Proc) : Shm P := { s with procs := update s.procs p x }

/-- The process goes to another place in its call. -/
def goto (s : Shm P) (p : P) (pc : Pc) : Shm P := s.setProc p { s.procs p with pc := pc }

/-- The nodes that a walk visits up to the first that passes the test. -/
def visited (test : ℕ → Bool) : List ℕ → List ℕ
  | [] => []
  | r :: rest => if test r then [r] else r :: visited test rest

/-- The region that `shm_manager_find_locked` finds. -/
def find (s : Shm P) (test : Region → Bool) : Option ℕ := s.list.find? fun r => test (s.regions r)

/-- The test by key. -/
def byKey (key : ℤ) (x : Region) : Bool := x.key = key && !x.marked

/-- The test by identifier, with the check of `shm_region_get_by_id`. -/
def byId (id : ℤ) (x : Region) : Bool := 0 < id && x.id = id

/-- `shm_manager_find_locked` (lines 249-274): the process goes to `found` with the region, or to
`missing`. -/
def shmManagerFindLocked (s : Shm P) (p : P) (test : Region → Bool) (found : ℕ → Pc)
    (missing : Pc) : Shm P :=
  let t := s.touch (visited (fun r => test (s.regions r)) s.list)
  match s.find test with
  | none => t.goto p missing
  | some r =>
    (t.setRegion r { s.regions r with refcount := (s.regions r).refcount + 1 }).goto p (found r)

/-- `shm_manager_allocate_id_locked` (lines 74-93). -/
def shmManagerAllocateIdLocked (ids : List ℕ) : ℕ → ℕ → Option ℕ × ℕ
  | 0, nextId => (none, nextId)
  | attempts + 1, nextId =>
    let next := if nextId = 2 ^ 31 - 1 then 1 else nextId + 1
    if ids.contains nextId then shmManagerAllocateIdLocked ids attempts next
    else (some nextId, next)

/-- `shm_manager_insert` (lines 108-129) for a new region with the manager's reference. -/
def shmManagerInsert (s : Shm P) (p : P) (key : ℤ) : Shm P :=
  if shmMaxRegions ≤ s.list.length then s.goto p .idle
  else
    let t := s.touch s.list
    match shmManagerAllocateIdLocked (s.list.map fun r => (s.regions r).id) shmMaxRegions
        s.nextId with
    | (none, nextId) => { t with nextId := nextId }.goto p .idle
    | (some id, nextId) =>
      { t.setRegion s.allocated ⟨id, key, false, 1, 0⟩ with
        allocated := s.allocated + 1
        list := s.allocated :: s.list
        nextId := nextId }.goto p (.created s.allocated)

/-- The start of a call (syscall.c, lines 3062-3063, 3120, 3191 and 3205). -/
def start (s : Shm P) (p : P) : Call → Shm P
  | .shmget key create =>
    if key = ipcPrivate then s.goto p (.creating key)
    else s.shmManagerFindLocked p (byKey key) (.dropping · 0)
      (if create then .creating key else .idle)
  | .shmat id => s.shmManagerFindLocked p (byId id) .checking .idle
  | .shmdt base unmapped =>
    match (s.procs p).attachments.find? fun a => a.2 = base with
    | none => s
    | some a =>
      if unmapped then
        s.setProc p ⟨.detaching a.1, (s.procs p).attachments.eraseP fun a => a.2 = base⟩
      else s
  | .rmid id => s.shmManagerFindLocked p (byId id) .marking .idle

/-- After a call of `shm_region_unref`. -/
def afterDrop (r : ℕ) : ℕ → Pc
  | 0 => .idle
  | more + 1 => .dropping r more

/-- A step of a call in progress. -/
def advance (s : Shm P) (p : P) (ok : Bool) (base : ℕ) : Option (Shm P) :=
  match (s.procs p).pc with
  | .idle => none
  | .creating key => some (if ok then s.shmManagerInsert p key else s.goto p .idle)
  | .created r => some ((s.touch [r]).goto p .idle)
  | .checking r =>
    some ((s.touch [r]).goto p (if (s.regions r).marked then .dropping r 0 else .mapping r))
  | .mapping r =>
    -- `vm_map_shared`, and `shm_region_increment_attachments` when there is a slot
    if ok ∧ (s.procs p).attachments.length < procMaxShmAttachments then
      some (((s.touch [r]).setRegion r { s.regions r with
        attachmentCount := (s.regions r).attachmentCount + 1 }).setProc p
          ⟨.idle, (s.procs p).attachments ++ [(r, base)]⟩)
    else some ((s.touch [r]).goto p (.dropping r 0))
  | .marking r =>
    -- `shm_region_set_marked_for_removal` (shm.c, lines 330-344)
    some (((s.touch [r]).setRegion r { s.regions r with marked := true }).goto p
      (.dropping r (if (s.regions r).attachmentCount = 0 then 1 else 0)))
  | .detaching r =>
    -- `shm_region_decrement_attachments` (shm.c, lines 366-382)
    some (((s.touch [r]).setRegion r { s.regions r with
      attachmentCount := (s.regions r).attachmentCount - 1 }).goto p
        (.dropping r (if (s.regions r).attachmentCount - 1 = 0 ∧ (s.regions r).marked then 1
          else 0)))
  | .dropping r more =>
    some (((s.touch [r]).setRegion r { s.regions r with
      refcount := if (s.regions r).refcount = 0 then 2 ^ 64 - 1 else (s.regions r).refcount - 1 }).goto
        p (if (s.regions r).refcount = 1 then .removing r more else afterDrop r more))
  | .removing r more =>
    some ({ s.touch (visited (fun q => q = r) s.list) with list := s.list.erase r }.goto p
      (.destroying r more))
  | .destroying r more =>
    some ({ s.touch [r] with
      destroys := update s.destroys r (s.destroys r + 1) }.goto p (afterDrop r more))

/-- One step. A process starts a call when it is in none. -/
def step (s : Shm P) : ShmStep P → Option (Shm P)
  | .start p call => if (s.procs p).pc = .idle then some (s.start p call) else none
  | .advance p ok base => s.advance p ok base
end Shm

/-! ## References -/
variable (r : ℕ)
/-- The references to a region that a call has still to drop. -/
def Pc.refs : Pc → ℕ
  | .checking q => if q = r then 1 else 0
  | .mapping q => if q = r then 1 else 0
  | .marking q => if q = r then 1 else 0
  | .detaching q => if q = r then 1 else 0
  | .dropping q more => if q = r then more + 1 else 0
  | .removing q more => if q = r then more else 0
  | .destroying q more => if q = r then more else 0
  | _ => 0

/-- Attachments that are no more in the table, and not yet counted off. -/
def Pc.detached : Pc → ℕ
  | .detaching q => if q = r then 1 else 0
  | _ => 0

/-- Calls that saw the last reference go. -/
def Pc.removals : Pc → ℕ
  | .removing q _ => if q = r then 1 else 0
  | .destroying q _ => if q = r then 1 else 0
  | _ => 0

/-- Calls that are to read the identifier of a new region. -/
def Pc.creations : Pc → ℕ
  | .created q => if q = r then 1 else 0
  | _ => 0

/-- The call refers to no region. -/
structure Pc.Quiet (pc : Pc) : Prop where
  refs : ∀ q, pc.refs q = 0
  detached : ∀ q, pc.detached q = 0
  removals : ∀ q, pc.removals q = 0
  creations : ∀ q, pc.creations q = 0
  notDestroying : ∀ q more, pc ≠ .destroying q more

/-- The call has one reference, to the region. -/
structure Pc.Holds (r : ℕ) (pc : Pc) : Prop where
  refs : ∀ q, pc.refs q = if r = q then 1 else 0
  detached : ∀ q, pc.detached q = 0
  removals : ∀ q, pc.removals q = 0
  creations : ∀ q, pc.creations q = 0
  notDestroying : ∀ q more, pc ≠ .destroying q more

/-- The region of the call. -/
def Pc.region : Pc → Option ℕ
  | .idle => none
  | .creating _ => none
  | .created r => some r
  | .checking r => some r
  | .mapping r => some r
  | .marking r => some r
  | .detaching r => some r
  | .dropping r _ => some r
  | .removing r _ => some r
  | .destroying r _ => some r

/-- The call is about no region but this one. -/
def Pc.About (pc : Pc) : Prop :=
  ∀ q, q ≠ r → pc.refs q = 0 ∧ pc.detached q = 0 ∧ pc.removals q = 0 ∧ pc.creations q = 0 ∧
    ∀ more, pc ≠ .destroying q more

lemma Pc.about_region {pc : Pc} {r : ℕ} (h : pc.region = some r) : pc.About r := by
  intro q hq
  have : r ≠ q := hq.symm
  cases pc <;> simp_all [region, refs, detached, removals, creations]

lemma Pc.Quiet.about {pc : Pc} (h : pc.Quiet) (r : ℕ) : pc.About r := fun q _ =>
  ⟨h.refs q, h.detached q, h.removals q, h.creations q, h.notDestroying q⟩

lemma Pc.Holds.about {pc : Pc} {r : ℕ} (h : pc.Holds r) : pc.About r := fun q hq =>
  ⟨(h.refs q).trans (if_neg hq.symm), h.detached q, h.removals q, h.creations q, h.notDestroying q⟩

open Pc

lemma Pc.quiet_idle : idle.Quiet := ⟨fun _ => rfl, fun _ => rfl, fun _ => rfl, fun _ => rfl, nofun⟩

lemma Pc.quiet_creating (k : ℤ) : (creating k).Quiet :=
  ⟨fun _ => rfl, fun _ => rfl, fun _ => rfl, fun _ => rfl, nofun⟩

lemma Pc.holds_checking : (checking r).Holds r :=
  ⟨fun _ => rfl, fun _ => rfl, fun _ => rfl, fun _ => rfl, nofun⟩

lemma Pc.holds_mapping : (mapping r).Holds r :=
  ⟨fun _ => rfl, fun _ => rfl, fun _ => rfl, fun _ => rfl, nofun⟩

lemma Pc.holds_marking : (marking r).Holds r :=
  ⟨fun _ => rfl, fun _ => rfl, fun _ => rfl, fun _ => rfl, nofun⟩

lemma Pc.holds_dropping : (dropping r 0).Holds r :=
  ⟨fun _ => rfl, fun _ => rfl, fun _ => rfl, fun _ => rfl, nofun⟩

namespace Proc
variable (r : ℕ)
/-- The attachments of a process to a region. -/
def attached (x : Proc) : ℕ := x.attachments.countP fun a => a.1 = r

/-- The references of a process to a region: one for each attachment, and those of its call. -/
def refs (r : ℕ) (x : Proc) : ℕ := x.attached r + x.pc.refs r

/-- The share of a process in `attachment_count`. -/
def counted (x : Proc) : ℕ := x.attached r + x.pc.detached r

lemma refs_pc (x : Proc) (pc : Pc) : refs r { x with pc := pc } = x.attached r + pc.refs r := rfl

lemma counted_pc (x : Proc) (pc : Pc) :
    counted r { x with pc := pc } = x.attached r + pc.detached r := rfl

lemma counted_le_refs (x : Proc) : x.counted r ≤ x.refs r := by
  have : x.pc.detached r ≤ x.pc.refs r := by cases x.pc <;> simp [Pc.detached, Pc.refs]
  rw [counted, refs]
  omega
end Proc

/-- The region is marked and has no attachments: the manager's reference is given up. -/
def Region.released (x : Region) : Bool := x.marked && decide (x.attachmentCount = 0)

/-- The manager's reference. -/
def Region.share (x : Region) : ℕ := if x.released then 0 else 1

namespace Shm
variable {P : Type} [Fintype P] [DecidableEq P] {s s' : Shm P} {p : P} {r : ℕ}
/-- A sum over the processes. -/
def total (s : Shm P) (f : Proc → ℕ) : ℕ := ∑ p, f (s.procs p)

/-- A region is destroyed at most once, never while a process refers to it, and is not touched
afterwards. -/
def Safe (s : Shm P) : Prop :=
  s.stale = false ∧ ∀ r, s.destroys r ≤ 1 ∧ (0 < s.destroys r → ∀ p, (s.procs p).refs r = 0)

/-- A look-up may take the region: it is referred to, and no `shmget` is to read its
identifier. -/
def Takeable (s : Shm P) (r : ℕ) : Prop :=
  (s.regions r).refcount ≠ 0 ∧ ∀ p, (s.procs p).pc ≠ .created r

/-- No look-up takes a region that is not takeable, and no region that is given up already is
attached or marked. -/
def Careful (s : Shm P) : ShmStep P → Prop
  | .start _ (.shmget key _) => ∀ r, key ≠ ipcPrivate → s.find (byKey key) = some r → s.Takeable r
  | .start _ (.shmat id) => ∀ r, s.find (byId id) = some r → s.Takeable r
  | .start _ (.shmdt _ _) => True
  | .start _ (.rmid id) => ∀ r, s.find (byId id) = some r → s.Takeable r
  | .advance p _ _ => ∀ r, (s.procs p).pc = .mapping r ∨ (s.procs p).pc = .marking r →
      (s.regions r).released = false

/-- A run. -/
inductive Reached : Shm P → Prop
  | initialState : Reached (initialState P)
  | step {s s' : Shm P} {a : ShmStep P} (h : Reached s) (hstep : s.step a = some s') : Reached s'

/-- A run of careful steps. -/
inductive CarefulReached : Shm P → Prop
  | initialState : CarefulReached (initialState P)
  | step {s s' : Shm P} {a : ShmStep P} (h : CarefulReached s) (hcare : s.Careful a)
      (hstep : s.step a = some s') : CarefulReached s'

/-- The reference counts are those of the manager and of the processes, a region that lost its
last reference has one process that removes it, and the list holds no destroyed region. -/
structure Sound (s : Shm P) : Prop where
  refs : ∀ r, r < s.allocated →
    (s.regions r).refcount = (s.regions r).share + s.total (Proc.refs r)
  counted : ∀ r, r < s.allocated → (s.regions r).attachmentCount = s.total (Proc.counted r)
  fresh : ∀ r, s.allocated ≤ r → s.total (Proc.refs r) = 0 ∧
    s.total (fun x => x.pc.removals r) = 0 ∧ s.total (fun x => x.pc.creations r) = 0 ∧
    s.destroys r = 0 ∧ r ∉ s.list
  once : ∀ r, s.total (fun x => x.pc.removals r) + s.destroys r ≤ 1
  gone : ∀ r, 0 < s.total (fun x => x.pc.removals r) + s.destroys r → (s.regions r).refcount = 0
  listed : ∀ r ∈ s.list, s.destroys r = 0 ∧ ∀ p more, (s.procs p).pc ≠ .destroying r more
  nodup : s.list.Nodup
  created : ∀ r, 0 < s.total (fun x => x.pc.creations r) →
    s.total (Proc.refs r) = 0 ∧ (s.regions r).marked = false
  untouched : s.stale = false

/-- What the invariant says of one region. -/
structure SoundAt (s : Shm P) (r : ℕ) : Prop where
  refs : r < s.allocated → (s.regions r).refcount = (s.regions r).share + s.total (Proc.refs r)
  counted : r < s.allocated → (s.regions r).attachmentCount = s.total (Proc.counted r)
  fresh : s.allocated ≤ r → s.total (Proc.refs r) = 0 ∧
    s.total (fun x => x.pc.removals r) = 0 ∧ s.total (fun x => x.pc.creations r) = 0 ∧
    s.destroys r = 0 ∧ r ∉ s.list
  once : s.total (fun x => x.pc.removals r) + s.destroys r ≤ 1
  gone : 0 < s.total (fun x => x.pc.removals r) + s.destroys r → (s.regions r).refcount = 0
  listed : r ∈ s.list → s.destroys r = 0 ∧ ∀ p more, (s.procs p).pc ≠ .destroying r more
  created : 0 < s.total (fun x => x.pc.creations r) →
    s.total (Proc.refs r) = 0 ∧ (s.regions r).marked = false

/-! ## Counting over the processes -/

lemma total_update {x : Proc} (h : s'.procs = update s.procs p x) (f : Proc → ℕ) :
    s'.total f + f (s.procs p) = s.total f + f x := by
  have hr : ∑ q ∈ Finset.univ.erase p, f (s'.procs q) = ∑ q ∈ Finset.univ.erase p, f (s.procs q) :=
    sum_congr rfl fun q hq => by rw [h, update_of_ne (ne_of_mem_erase hq)]
  have hnew := add_sum_erase Finset.univ (fun q => f (s'.procs q)) (mem_univ p)
  have := add_sum_erase Finset.univ (fun q => f (s.procs q)) (mem_univ p)
  rw [hr, h, update_self, ← h] at hnew
  rw [total, total]
  omega

open Proc

lemma total_goto {pc : Pc} (h : s'.procs = update s.procs p { s.procs p with pc := pc }) (r : ℕ) :
    s'.total (refs r) + (s.procs p).pc.refs r = s.total (refs r) + pc.refs r ∧
      s'.total (counted r) + (s.procs p).pc.detached r = s.total (counted r) + pc.detached r ∧
      s'.total (fun x => x.pc.removals r) + (s.procs p).pc.removals r =
        s.total (fun x => x.pc.removals r) + pc.removals r ∧
      s'.total (fun x => x.pc.creations r) + (s.procs p).pc.creations r =
        s.total (fun x => x.pc.creations r) + pc.creations r := by
  have : _ + ((s.procs p).attached r + _) = _ + ((s.procs p).attached r + pc.refs r) :=
    total_update h (refs r)
  have : _ + ((s.procs p).attached r + _) = _ + ((s.procs p).attached r + pc.detached r) :=
    total_update h (counted r)
  exact ⟨by omega, by omega, total_update h fun x => x.pc.removals r,
    total_update h fun x => x.pc.creations r⟩

omit [DecidableEq P] in
lemma le_total (s : Shm P) (p : P) (f : Proc → ℕ) : f (s.procs p) ≤ s.total f :=
  single_le_sum_of_canonicallyOrdered (f := fun p => f (s.procs p)) (mem_univ p)

omit [DecidableEq P] in
lemma total_eq_zero {f : Proc → ℕ} (h : ∀ p, f (s.procs p) = 0) : s.total f = 0 :=
  Finset.sum_eq_zero fun p _ => h p

omit [Fintype P] [DecidableEq P] in
lemma touch_eq {n : List ℕ} (h : ∀ r ∈ n, s.destroys r = 0) : s.touch n = s := by
  have : (n.any fun r => s.destroys r != 0) = false := by
    rw [any_eq_false]
    intro r hr
    simp [h r hr]
  rw [touch, this, Bool.or_false]

lemma visited_subset (t : ℕ → Bool) (l : List ℕ) : visited t l ⊆ l := by
  induction l with
  | nil => exact List.Subset.refl _
  | cons q l ih =>
    rw [visited]
    split_ifs
    · simp
    · exact List.cons_subset_cons q ih

lemma countP_eraseP_find {l : List (ℕ × ℕ)} {t : ℕ × ℕ → Bool} {a : ℕ × ℕ}
    (h : l.find? t = some a) (q : ℕ) :
    (l.eraseP t).countP (fun a => a.1 = q) + (if a.1 = q then 1 else 0) =
      l.countP fun a => a.1 = q := by
  induction l with
  | nil => simp at h
  | cons b l ih =>
    by_cases hb : t b
    · rw [List.find?_cons_of_pos hb] at h
      cases h
      rw [eraseP_cons_of_pos hb, countP_cons]
      simp
    rw [List.find?_cons_of_neg hb] at h
    rw [eraseP_cons_of_neg hb, countP_cons, countP_cons, ← ih h]
    omega

/-! ## What a change keeps -/
omit [Fintype P] in
lemma not_destroying_update {x : Proc} (hp : s'.procs = update s.procs p x)
    (h : ∀ p m, (s.procs p).pc ≠ .destroying r m) (hx : ∀ m, x.pc ≠ .destroying r m)
    (p' : P) (m : ℕ) : (s'.procs p').pc ≠ .destroying r m := by
  rw [hp, update_apply]
  split_ifs
  · exact hx m
  · exact h p' m

lemma SoundAt.other (h : s.SoundAt r) {x : Proc} (hp : s'.procs = update s.procs p x)
    (hnew : s'.allocated ≤ r ↔ s.allocated ≤ r) (hre : s'.regions r = s.regions r)
    (hde : s'.destroys r = s.destroys r)
    (hl : r ∈ s'.list → r ∈ s.list ∧ ∀ m, x.pc ≠ .destroying r m)
    (hrf : x.refs r = (s.procs p).refs r) (hco : x.counted r = (s.procs p).counted r)
    (hrm : x.pc.removals r = (s.procs p).pc.removals r)
    (hcr : x.pc.creations r ≤ (s.procs p).pc.creations r) : s'.SoundAt r := by
  have hr := total_update hp (Proc.refs r)
  have hc := total_update hp (Proc.counted r)
  have hm := total_update hp fun x => x.pc.removals r
  have hn := total_update hp fun x => x.pc.creations r
  refine ⟨fun hlt => ?_, fun hlt => ?_, fun hge => ?_, ?_, fun hpos => ?_, fun hmem => ?_,
    fun hpos => ?_⟩
  · have := h.refs (by omega)
    rw [hre]
    omega
  · have := h.counted (by omega)
    rw [hre]
    omega
  · obtain ⟨h1, h2, h3, h4, h5⟩ := h.fresh (hnew.1 hge)
    exact ⟨by omega, by omega, by omega, by omega, fun hmem => h5 (hl hmem).1⟩
  · have := h.once
    omega
  · rw [hre]
    exact h.gone (by omega)
  · obtain ⟨hold, hpc⟩ := hl hmem
    rw [hde]
    exact ⟨(h.listed hold).1, not_destroying_update hp (h.listed hold).2 hpc⟩
  have := h.created (by omega)
  rw [hre]
  exact ⟨by omega, this.2⟩

namespace Sound
section

omit [DecidableEq P]

section
variable (h : s.Sound)
include h
lemma visited_untouched (t : ℕ → Bool) : s.touch (visited t s.list) = s :=
  touch_eq fun r hr => (h.listed r (visited_subset t s.list hr)).1

lemma held (hr : 0 < (s.procs p).refs r) : r < s.allocated ∧ (s.regions r).refcount ≠ 0 ∧
      s.total (fun x => x.pc.creations r) = 0 := by
  have := s.le_total p (Proc.refs r)
  have hlt : r < s.allocated := by
    by_contra hge
    have := (h.fresh r (Nat.le_of_not_lt hge)).1
    omega
  refine ⟨hlt, ?_, ?_⟩
  · have := h.refs r hlt
    omega
  by_contra hc
  have := (h.created r (Nat.pos_of_ne_zero hc)).1
  omega

lemma alive (hcount : (s.regions r).refcount ≠ 0) :
    s.destroys r = 0 ∧ s.total (fun x => x.pc.removals r) = 0 := by
  have hgo := h.gone r
  by_contra hnot
  exact hcount (hgo (by omega))

lemma touch_held (hr : 0 < (s.procs p).refs r) : s.touch [r] = s := by
  refine touch_eq fun q hq => ?_
  obtain rfl := List.mem_singleton.1 hq
  exact (h.alive (h.held hr).2.1).1

lemma touch_created (hmi : (s.procs p).pc.creations r = 1) : s.touch [r] = s := by
  have := s.le_total p fun x => x.pc.creations r
  have hpos : 0 < s.total fun x => x.pc.creations r := by omega
  obtain ⟨hr, hma⟩ := h.created r hpos
  have hlt : r < s.allocated := by
    by_contra hge
    have := (h.fresh r (Nat.le_of_not_lt hge)).2.2.1
    omega
  have : (s.regions r).refcount = 1 := by
    rw [h.refs r hlt, hr, Region.share, Region.released, hma]
    rfl
  refine touch_eq fun q hq => ?_
  obtain rfl := List.mem_singleton.1 hq
  exact (h.alive (by omega)).1

lemma touch_removing (hmi : (s.procs p).pc.removals r = 1) : s.touch [r] = s := by
  have := s.le_total p fun x => x.pc.removals r
  have := h.once r
  refine touch_eq fun q hq => ?_
  obtain rfl := List.mem_singleton.1 hq
  omega

lemma soundAt (r : ℕ) : s.SoundAt r :=
  ⟨h.refs r, h.counted r, h.fresh r, h.once r, h.gone r, h.listed r, h.created r⟩
end

lemma of_soundAt (h : ∀ r, s.SoundAt r) (hnd : s.list.Nodup) (hu : s.stale = false) : s.Sound :=
  ⟨fun r => (h r).refs, fun r => (h r).counted, fun r => (h r).fresh, fun r => (h r).once,
    fun r => (h r).gone, fun r => (h r).listed, hnd, fun r => (h r).created, hu⟩
end

variable {x : Proc}
lemma step (h : s.Sound) (hp : s'.procs = update s.procs p x)
    (hold : (s.procs p).pc.About r) (hnew : x.pc.About r)
    (ha : ∀ q, q ≠ r → x.attached q = (s.procs p).attached q)
    (hot : ∀ q, q ≠ r → (s'.allocated ≤ q ↔ s.allocated ≤ q) ∧ s'.regions q = s.regions q ∧
      s'.destroys q = s.destroys q ∧ (q ∈ s'.list → q ∈ s.list))
    (hmi : s'.SoundAt r) (hnd : s'.list.Nodup) (hu : s'.stale = false) : s'.Sound := by
  refine of_soundAt (fun q => ?_) hnd hu
  by_cases hq : q = r
  · exact hq ▸ hmi
  obtain ⟨ho1, ho2, ho3, ho4, -⟩ := hold q hq
  obtain ⟨hn1, hn2, hn3, hn4, hn5⟩ := hnew q hq
  obtain ⟨h1, h2, h3, h4⟩ := hot q hq
  refine (h.soundAt q).other hp h1 h2 h3 (fun hmem => ⟨h4 hmem, hn5⟩) ?_ ?_
    (hn3.trans ho3.symm) (Nat.le_of_eq (hn4.trans ho4.symm))
  · rw [Proc.refs, Proc.refs, ha q hq, hn1, ho1]
  · rw [Proc.counted, Proc.counted, ha q hq, hn2, ho2]

/-- A process changes the counts of a living region, and what it refers to there with them. -/
lemma change (h : s.Sound) {y : Region} (hlt : r < s.allocated)
    (hcount : (s.regions r).refcount ≠ 0) (hc : s.total (fun x => x.pc.creations r) = 0)
    (hold : (s.procs p).pc.About r) (hnew : x.pc.About r)
    (ha : ∀ q, q ≠ r → x.attached q = (s.procs p).attached q) (hcr : x.pc.creations r = 0)
    (hrf : y.refcount + ((s.regions r).share + (s.procs p).refs r) =
      (s.regions r).refcount + (y.share + x.refs r))
    (hco : y.attachmentCount + (s.procs p).counted r = (s.regions r).attachmentCount + x.counted r)
    (hrm : x.pc.removals r = 0 ∨ x.pc.removals r = 1 ∧ y.refcount = 0)
    (hp : ∀ m, x.pc ≠ .destroying r m) : ((s.setRegion r y).setProc p x).Sound := by
  have ht : ∀ f, ((s.setRegion r y).setProc p x).total f + f (s.procs p) = s.total f + f x :=
    total_update rfl
  obtain ⟨hde, hno⟩ := h.alive hcount
  refine h.step rfl hold hnew ha
    (fun q hq => ⟨Iff.rfl, update_of_ne hq _ _, rfl, id⟩) ?_ h.nodup h.untouched
  have hr : ((s.setRegion r y).setProc p x).regions r = y := update_self _ _ _
  have := ht (Proc.refs r)
  have := ht (Proc.counted r)
  have := ht fun x => x.pc.removals r
  have := ht fun x => x.pc.creations r
  have := h.refs r hlt
  have := h.counted r hlt
  have : ((s.setRegion r y).setProc p x).destroys r = 0 := hde
  refine ⟨fun _ => ?_, fun _ => ?_, fun hge => absurd hlt (Nat.not_lt.2 hge), ?_, fun hpos => ?_,
    fun hmem => ⟨hde, ?_⟩, fun hpos => ?_⟩
  · rw [hr]
    omega
  · rw [hr]
    omega
  · omega
  · rw [hr]
    omega
  · exact not_destroying_update rfl (h.listed r hmem).2 hp
  · omega

lemma goOn (h : s.Sound) (hr : ∀ q, x.refs q = (s.procs p).refs q)
    (hc : ∀ q, x.counted q = (s.procs p).counted q)
    (hre : ∀ q, x.pc.removals q = (s.procs p).pc.removals q)
    (hcr : ∀ q, x.pc.creations q ≤ (s.procs p).pc.creations q)
    (hp : ∀ q m, x.pc ≠ .destroying q m) : (s.setProc p x).Sound :=
  of_soundAt (fun q => (h.soundAt q).other rfl Iff.rfl rfl rfl (fun hmem => ⟨hmem, hp q⟩) (hr q)
    (hc q) (hre q) (hcr q)) h.nodup h.untouched

lemma goto_quiet (h : s.Sound) {pc : Pc} (hp : (s.procs p).pc.Quiet) (hnew : pc.Quiet) :
    (s.goto p pc).Sound :=
  h.goOn (fun q => congrArg (_ + ·) ((hnew.refs q).trans (hp.refs q).symm))
    (fun q => congrArg (_ + ·) ((hnew.detached q).trans (hp.detached q).symm))
    (fun q => (hnew.removals q).trans (hp.removals q).symm)
    (fun q => Nat.le_of_eq ((hnew.creations q).trans (hp.creations q).symm)) hnew.notDestroying

lemma goto_holds (h : s.Sound) {pc : Pc} (hp : (s.procs p).pc.Holds r) (hnew : pc.Holds r) :
    (s.goto p pc).Sound :=
  h.goOn (fun q => congrArg (_ + ·) ((hnew.refs q).trans (hp.refs q).symm))
    (fun q => congrArg (_ + ·) ((hnew.detached q).trans (hp.detached q).symm))
    (fun q => (hnew.removals q).trans (hp.removals q).symm)
    (fun q => Nat.le_of_eq ((hnew.creations q).trans (hp.creations q).symm)) hnew.notDestroying

omit [DecidableEq P] in
lemma pos_refs_of_holds (h : x.pc.Holds r) : 0 < x.refs r := by
  rw [Proc.refs, h.refs, if_pos rfl]
  omega

omit [DecidableEq P] in
lemma lt_of_mem_list (h : s.Sound) (hr : r ∈ s.list) : r < s.allocated := by
  by_contra hge
  exact (h.fresh r (Nat.le_of_not_lt hge)).2.2.2.2 hr

lemma find (h : s.Sound) (hid : (s.procs p).pc = .idle) (t : Region → Bool)
    {f : ℕ → Pc} {m : Pc} (hfo : ∀ r, (f r).Holds r) (hmi : m.Quiet)
    (hc : ∀ r, s.find t = some r → s.Takeable r) : (s.shmManagerFindLocked p t f m).Sound := by
  have hq : (s.procs p).pc.Quiet := hid ▸ quiet_idle
  unfold shmManagerFindLocked
  rw [h.visited_untouched]
  cases hf : s.find t with
  | none => exact h.goto_quiet hq hmi
  | some r =>
    obtain ⟨hcount, hcr⟩ := hc r hf
    have hmem : r ∈ s.list := List.mem_of_find?_eq_some hf
    refine h.change (h.lt_of_mem_list hmem) hcount (total_eq_zero fun q => ?_) (hq.about r)
      (hfo r).about (fun _ _ => rfl) ((hfo r).creations r) ?_ ?_ (.inl ((hfo r).removals r))
      ((hfo r).notDestroying r)
    · cases hp : (s.procs q).pc <;> simp only [creations]
      split_ifs with hqr
      · exact absurd (hqr ▸ hp) (hcr q)
      · rfl
    · show (s.regions r).refcount + 1 + ((s.regions r).share + ((s.procs p).attached r + _)) =
        (s.regions r).refcount + ((s.regions r).share + ((s.procs p).attached r + _))
      rw [(hfo r).refs, if_pos rfl, hq.refs]
      omega
    show (s.regions r).attachmentCount + ((s.procs p).attached r + _) =
      (s.regions r).attachmentCount + ((s.procs p).attached r + _)
    rw [(hfo r).detached, hq.detached]

/-- `shmdt` takes the attachment out of the table. -/
theorem shmdt (h : s.Sound) (hid : (s.procs p).pc = .idle) (b : ℕ) (u : Bool) :
    (s.start p (.shmdt b u)).Sound := by
  have hq : (s.procs p).pc.Quiet := hid ▸ Pc.quiet_idle
  cases hf : (s.procs p).attachments.find? fun a => a.2 = b with
  | none =>
    simp only [start, hf]
    exact h
  | some a =>
    simp only [start, hf]
    split_ifs
    · have ha : ∀ q, ((s.procs p).attachments.eraseP fun a => a.2 = b).countP
          (fun a => a.1 = q) + (if a.1 = q then 1 else 0) = (s.procs p).attached q := by
        intro q
        exact countP_eraseP_find hf q
      refine h.goOn (fun q => ?_) (fun q => ?_) (fun q => ?_) (fun q => ?_)
        fun _ _ => Pc.noConfusion
      · have := ha q
        rw [Proc.refs, Proc.refs, hq.refs]
        exact this
      · have := ha q
        rw [Proc.counted, Proc.counted, hq.detached]
        exact this
      · rw [hq.removals]
        rfl
      · exact Nat.zero_le _
    · exact h

lemma soundAt_new (h : s.Sound) (hp : (s.procs p).pc.Quiet) {id : ℕ} {k : ℤ}
    (hpr : s'.procs = update s.procs p { s.procs p with pc := .created s.allocated })
    (hre : s'.regions s.allocated = ⟨id, k, false, 1, 0⟩)
    (ha : s'.allocated = s.allocated + 1) (hds : s'.destroys = s.destroys) :
    s'.SoundAt s.allocated := by
  obtain ⟨hrf, hrm, hcr, hde, -⟩ := h.fresh s.allocated (Nat.le_refl _)
  have hco : s.total (Proc.counted s.allocated) = 0 :=
    Nat.le_zero.1 (hrf ▸ Finset.sum_le_sum fun q _ => Proc.counted_le_refs _ _)
  obtain ⟨hr, hc, hm, -⟩ := total_goto hpr s.allocated
  rw [hp.refs, hrf] at hr
  rw [hp.detached, hco] at hc
  rw [hp.removals, hrm] at hm
  have hz : s'.total (fun x => x.pc.removals s.allocated) + s'.destroys s.allocated = 0 := by
    rw [hds, hde]
    exact hm
  refine ⟨fun _ => ?_, fun _ => ?_, fun hge => by omega, by omega, fun hpos => by omega,
    fun _ => ⟨hds ▸ hde, not_destroying_update hpr (fun p' m he => ?_)
      fun _ => Pc.noConfusion⟩, fun _ => ⟨hr, by rw [hre]⟩⟩
  · rw [hre]
    exact congrArg (1 + ·) hr.symm
  · rw [hre]
    exact hc.symm
  have := s.le_total p' fun x => x.pc.removals s.allocated
  rw [hrm, he, Pc.removals, if_pos rfl] at this
  omega

/-- `shm_manager_insert`. -/
lemma insert (h : s.Sound) (hp : (s.procs p).pc.Quiet) (k : ℤ) :
    (s.shmManagerInsert p k).Sound := by
  unfold shmManagerInsert
  split_ifs with hf
  · exact h.goto_quiet hp quiet_idle
  rw [touch_eq fun r hr => (h.listed r hr).1]
  cases shmManagerAllocateIdLocked (s.list.map fun r => (s.regions r).id) shmMaxRegions
    s.nextId with
  | mk f nextId =>
    cases f with
    | none =>
      have hsa : ({ s with nextId := nextId } : Shm P).Sound := { h with }
      exact hsa.goto_quiet hp quiet_idle
    | some id =>
      have hl := (h.fresh s.allocated (Nat.le_refl _)).2.2.2.2
      refine h.step (r := s.allocated) rfl (hp.about _) (about_region rfl) (fun _ _ => rfl)
        (fun q hq => ⟨?_, update_of_ne hq _ _, rfl, fun hmem =>
          (List.mem_cons.1 hmem).resolve_left hq⟩) ?_ (nodup_cons.2 ⟨hl, h.nodup⟩)
        h.untouched
      · show s.allocated + 1 ≤ q ↔ s.allocated ≤ q
        omega
      exact h.soundAt_new hp rfl (update_self _ _ _) rfl rfl

/-- `shm_manager_remove`. -/
lemma remove (h : s.Sound) {m : ℕ} (hp : (s.procs p).pc = .removing r m) :
    ({ s with list := s.list.erase r }.goto p (.destroying r m)).Sound := by
  refine of_soundAt (fun q => (h.soundAt q).other rfl Iff.rfl rfl rfl (fun hmem => ?_) ?_ ?_ ?_ ?_)
    (h.nodup.erase r) h.untouched
  · obtain ⟨hq, hmem⟩ := (h.nodup.mem_erase_iff).1 hmem
    exact ⟨hmem, fun m' he => hq (destroying.inj he).1.symm⟩
  · rw [Proc.refs_pc, Proc.refs, hp]
    rfl
  · rw [Proc.counted_pc, Proc.counted, hp]
    rfl
  · rw [hp]
    rfl
  rw [hp]
  rfl

lemma refs_afterDrop (r m q : ℕ) : (afterDrop r m).refs q = (Pc.destroying r m).refs q := by
  cases m <;> simp [afterDrop, Pc.refs]

lemma afterDrop_plain (r mr : ℕ) : (∀ q, (afterDrop r mr).detached q = 0 ∧
    (afterDrop r mr).removals q = 0 ∧ (afterDrop r mr).creations q = 0) ∧
    ∀ q m, afterDrop r mr ≠ .destroying q m := by
  cases mr <;> simp [afterDrop, detached, removals, creations]

lemma about_afterDrop (r m : ℕ) : (afterDrop r m).About r := by
  cases m with
  | zero => exact quiet_idle.about r
  | succ m => exact about_region rfl

section
variable (h : s.Sound)
include h
lemma soundAt_destroyed {m : ℕ} (hp : (s.procs p).pc = .destroying r m)
    (hpr : s'.procs = update s.procs p { s.procs p with pc := afterDrop r m })
    (hre : s'.regions = s.regions) (ha : s'.allocated = s.allocated)
    (hl : s'.list = s.list) (hde : s'.destroys r = s.destroys r + 1) : s'.SoundAt r := by
  obtain ⟨hpl, -⟩ := afterDrop_plain r m
  obtain ⟨hr, hc, hm, hn⟩ := total_goto hpr r
  rw [hp, refs_afterDrop] at hr
  rw [hp, (hpl r).1] at hc
  rw [hp, (hpl r).2.1, removals, if_pos rfl] at hm
  rw [hp, (hpl r).2.2] at hn
  change _ + 0 = _ at hc
  change _ + 0 = _ at hn
  refine ⟨fun hlt => ?_, fun hlt => ?_, fun hge => ?_, ?_, fun hpos => ?_, fun hmem => ?_,
    fun hpos => ?_⟩
  · rw [hre, h.refs r (ha ▸ hlt)]
    omega
  · rw [hre, h.counted r (ha ▸ hlt)]
    omega
  · have := (h.fresh r (ha ▸ hge)).2.1
    omega
  · have := h.once r
    omega
  · rw [hre]
    exact h.gone r (by omega)
  · exact absurd hp ((h.listed r (hl ▸ hmem)).2 p m)
  rw [hre]
  exact ⟨by have := (h.created r (by omega)).1; omega, (h.created r (by omega)).2⟩

/-- `shm_region_destroy`. -/
lemma destroy {m : ℕ} (hp : (s.procs p).pc = .destroying r m) :
    ({ s with destroys := update s.destroys r (s.destroys r + 1) }.goto p (afterDrop r m)).Sound :=
  h.step rfl (hp ▸ about_region rfl) (about_afterDrop r m) (fun _ _ => rfl)
    (fun _ hq => ⟨Iff.rfl, rfl, update_of_ne hq _ _, id⟩)
    (h.soundAt_destroyed hp rfl rfl rfl rfl (update_self _ _ _)) h.nodup h.untouched

/-- `shm_region_unref`. -/
lemma drop {mr : ℕ} (hp : (s.procs p).pc = .dropping r mr) :
    ((s.setRegion r { s.regions r with refcount := (s.regions r).refcount - 1 }).goto p
      (if (s.regions r).refcount = 1 then .removing r mr else afterDrop r mr)).Sound := by
  obtain ⟨hpl, hp'⟩ := afterDrop_plain r mr
  have hmi : (s.procs p).refs r = (s.procs p).attached r + (mr + 1) := by
    rw [Proc.refs, hp, Pc.refs, if_pos rfl]
  obtain ⟨hlt, hcount, hc⟩ := h.held (p := p) (r := r) (by omega)
  have hnew : (if (s.regions r).refcount = 1 then .removing r mr else afterDrop r mr :
      Pc).refs r = mr := by
    split_ifs
    · exact if_pos rfl
    · exact (refs_afterDrop r mr r).trans (if_pos rfl)
  refine h.change hlt hcount hc (hp ▸ Pc.about_region rfl) ?_ (fun _ _ => rfl) ?_ ?_ ?_ ?_
    fun m => ?_
  · dsimp only
    split_ifs
    · exact Pc.about_region rfl
    · exact about_afterDrop r mr
  · dsimp only
    split_ifs
    · rfl
    · exact (hpl r).2.2
  · show (s.regions r).refcount - 1 + ((s.regions r).share + (s.procs p).refs r) =
      (s.regions r).refcount + ((s.regions r).share + ((s.procs p).attached r + Pc.refs r _))
    rw [hnew, hmi]
    omega
  · show (s.regions r).attachmentCount + (s.procs p).counted r =
      (s.regions r).attachmentCount + ((s.procs p).attached r + Pc.detached r _)
    rw [Proc.counted, hp]
    split_ifs
    · rfl
    · rw [(hpl r).1]
      rfl
  · split_ifs with hl
    · refine .inr ⟨if_pos rfl, ?_⟩
      show (s.regions r).refcount - 1 = 0
      omega
    · exact .inl (hpl r).2.1
  split_ifs
  · exact Pc.noConfusion
  · exact hp' r m

/-- `shm_region_increment_attachments`, with the reference of the call now that of the slot. -/
lemma attach (hp : (s.procs p).pc = .mapping r) (hc : (s.regions r).released = false) (base : ℕ) :
    ((s.setRegion r { s.regions r with
      attachmentCount := (s.regions r).attachmentCount + 1 }).setProc p
        ⟨.idle, (s.procs p).attachments ++ [(r, base)]⟩).Sound := by
  have hh : (s.procs p).pc.Holds r := hp ▸ Pc.holds_mapping r
  obtain ⟨hlt, hcount, hcr⟩ := h.held (pos_refs_of_holds hh)
  have ha : ∀ q, attached q ⟨.idle, (s.procs p).attachments ++ [(r, base)]⟩ =
      (s.procs p).attached q + if r = q then 1 else 0 := by
    intro q
    rw [attached, countP_append, countP_singleton, attached]
    simp
  have hsh : (s.regions r).share = 1 := by rw [Region.share, hc]; rfl
  refine h.change hlt hcount hcr hh.about (Pc.quiet_idle.about r)
    (fun q hq => (ha q).trans (if_neg (Ne.symm hq) ▸ rfl)) rfl ?_ ?_ (.inl rfl)
    fun _ => Pc.noConfusion
  · have hnew : Region.share { s.regions r with
        attachmentCount := (s.regions r).attachmentCount + 1 } = 1 := by
      simp [Region.share, Region.released]
    show (s.regions r).refcount + ((s.regions r).share + ((s.procs p).attached r + Pc.refs r _)) =
      (s.regions r).refcount + (Region.share _ + (attached r ⟨.idle, _⟩ + 0))
    rw [hnew, hsh, ha, hh.refs, if_pos rfl]
  show (s.regions r).attachmentCount + 1 + ((s.procs p).attached r + Pc.detached r _) =
    (s.regions r).attachmentCount + (attached r ⟨.idle, _⟩ + 0)
  rw [ha, hh.detached, if_pos rfl]
  omega

/-- `shm_region_set_marked_for_removal`. -/
lemma mark (hp : (s.procs p).pc = .marking r) (hc : (s.regions r).released = false) :
    ((s.setRegion r { s.regions r with marked := true }).goto p
      (.dropping r (if (s.regions r).attachmentCount = 0 then 1 else 0))).Sound := by
  have hh : (s.procs p).pc.Holds r := hp ▸ Pc.holds_marking r
  obtain ⟨hlt, hcount, hcr⟩ := h.held (pos_refs_of_holds hh)
  have hsh : (s.regions r).share = 1 := by rw [Region.share, hc]; rfl
  refine h.change hlt hcount hcr hh.about (Pc.about_region rfl) (fun _ _ => rfl) rfl ?_
    ?_ (.inl rfl) fun _ => Pc.noConfusion
  · -- the call gets the manager's reference when there is no attachment
    have : Region.share { s.regions r with marked := true } +
        Pc.refs r (.dropping r (if (s.regions r).attachmentCount = 0 then 1 else 0)) = 2 := by
      rw [Region.share, Region.released, Pc.refs, if_pos rfl]
      by_cases hz : (s.regions r).attachmentCount = 0 <;> simp [hz]
    show (s.regions r).refcount + ((s.regions r).share + ((s.procs p).attached r + Pc.refs r _)) =
      (s.regions r).refcount + (Region.share _ + ((s.procs p).attached r +
        Pc.refs r (.dropping r (if (s.regions r).attachmentCount = 0 then 1 else 0))))
    rw [hh.refs, hsh, if_pos rfl]
    omega
  rw [Proc.counted_pc, Proc.counted, hh.detached]
  rfl

/-- `shm_region_decrement_attachments`. -/
lemma detach (hp : (s.procs p).pc = .detaching r) : ((s.setRegion r { s.regions r with
      attachmentCount := (s.regions r).attachmentCount - 1 }).goto p
        (.dropping r (if (s.regions r).attachmentCount - 1 = 0 ∧ (s.regions r).marked then 1
          else 0))).Sound := by
  have hr : (s.procs p).refs r = (s.procs p).attached r + 1 := by
    rw [Proc.refs, hp, Pc.refs, if_pos rfl]
  have : (s.procs p).counted r = (s.procs p).attached r + 1 := by
    rw [Proc.counted, hp, Pc.detached, if_pos rfl]
  obtain ⟨hlt, hcount, hc⟩ := h.held (p := p) (r := r) (by omega)
  have : 0 < (s.regions r).attachmentCount := by
    have := s.le_total p (Proc.counted r)
    have := h.counted r hlt
    omega
  have hsh : (s.regions r).share = 1 := by
    rw [Region.share, Region.released, decide_eq_false (by omega), Bool.and_false]
    rfl
  refine h.change hlt hcount hc (hp ▸ Pc.about_region rfl) (Pc.about_region rfl)
    (fun _ _ => rfl) rfl ?_ ?_ (.inl rfl) fun _ => Pc.noConfusion
  · have : Region.share { s.regions r with
        attachmentCount := (s.regions r).attachmentCount - 1 } + Pc.refs r (.dropping r
          (if (s.regions r).attachmentCount - 1 = 0 ∧ (s.regions r).marked then 1 else 0)) = 2 := by
      rw [Region.share, Region.released, Pc.refs, if_pos rfl]
      by_cases hz : (s.regions r).attachmentCount - 1 = 0
      · cases hma : (s.regions r).marked <;> simp [hz]
      · simp [hz]
    show (s.regions r).refcount + ((s.regions r).share + (s.procs p).refs r) =
      (s.regions r).refcount + (Region.share _ + ((s.procs p).attached r + Pc.refs r (.dropping r
        (if (s.regions r).attachmentCount - 1 = 0 ∧ (s.regions r).marked then 1 else 0))))
    rw [hr, hsh]
    omega
  show (s.regions r).attachmentCount - 1 + (s.procs p).counted r =
    (s.regions r).attachmentCount + ((s.procs p).attached r + 0)
  omega

/-! ## Runs -/

lemma start (hid : (s.procs p).pc = .idle) {c : Call}
    (hc : s.Careful (.start p c)) : (s.start p c).Sound := by
  have hq : (s.procs p).pc.Quiet := hid ▸ quiet_idle
  cases c with
  | shmget key create =>
    rw [Shm.start]
    split_ifs with hp hcr
    · exact h.goto_quiet hq (quiet_creating key)
    · exact h.find hid _ holds_dropping (quiet_creating key) fun r => hc r hp
    · exact h.find hid _ holds_dropping quiet_idle fun r => hc r hp
  | shmat id => exact h.find hid _ holds_checking quiet_idle hc
  | shmdt base unmapped => exact h.shmdt hid base unmapped
  | rmid id => exact h.find hid _ holds_marking quiet_idle hc

lemma advance {o : Bool} {b : ℕ} (hc : s.Careful (.advance p o b))
    (hst : s.advance p o b = some s') : s'.Sound := by
  unfold Shm.advance at hst
  generalize hp : (s.procs p).pc = pc at hst
  cases pc with
  | idle => cases hst
  | creating key =>
    cases hst
    have hq : (s.procs p).pc.Quiet := hp ▸ Pc.quiet_creating key
    split_ifs
    · exact h.insert hq key
    · exact h.goto_quiet hq Pc.quiet_idle
  | created r =>
    cases hst
    have hmi : (s.procs p).pc.creations r = 1 := by rw [hp, Pc.creations, if_pos rfl]
    rw [h.touch_created hmi]
    refine h.goOn (fun q => ?_) (fun q => ?_) (fun q => ?_) (fun q => Nat.zero_le _)
      fun _ _ => Pc.noConfusion
    · rw [Proc.refs_pc, Proc.refs, hp]
      rfl
    · rw [Proc.counted_pc, Proc.counted, hp]
      rfl
    rw [hp]
    rfl
  | checking r =>
    cases hst
    have hh : (s.procs p).pc.Holds r := hp ▸ Pc.holds_checking r
    rw [h.touch_held (pos_refs_of_holds hh)]
    split_ifs
    · exact h.goto_holds hh (Pc.holds_dropping r)
    · exact h.goto_holds hh (Pc.holds_mapping r)
  | mapping r =>
    have hh : (s.procs p).pc.Holds r := hp ▸ Pc.holds_mapping r
    dsimp only at hst
    rw [h.touch_held (pos_refs_of_holds hh)] at hst
    split_ifs at hst
    · cases hst
      exact h.attach hp (hc r (.inl hp)) b
    cases hst
    exact h.goto_holds hh (Pc.holds_dropping r)
  | marking r =>
    cases hst
    rw [h.touch_held (pos_refs_of_holds (hp ▸ Pc.holds_marking r))]
    exact h.mark hp (hc r (.inr hp))
  | detaching r =>
    cases hst
    rw [h.touch_held (p := p) (by rw [Proc.refs, hp, Pc.refs, if_pos rfl]; omega)]
    exact h.detach hp
  | dropping r m =>
    cases hst
    have hmi : 0 < (s.procs p).refs r := by
      rw [Proc.refs, hp, Pc.refs, if_pos rfl]
      omega
    rw [h.touch_held hmi, if_neg (h.held hmi).2.1]
    exact h.drop hp
  | removing r m =>
    cases hst
    rw [h.visited_untouched]
    exact h.remove hp
  | destroying r m =>
    cases hst
    have hmi : (s.procs p).pc.removals r = 1 := by rw [hp, Pc.removals, if_pos rfl]
    rw [h.touch_removing hmi]
    exact h.destroy hp
end

omit [DecidableEq P] in
lemma initialState : (initialState P).Sound := by
  have hz : ∀ f : Proc → ℕ, f ⟨.idle, []⟩ = 0 → (Shm.initialState P).total f = 0 :=
    fun f hf => total_eq_zero fun _ => hf
  refine ⟨fun r hr => absurd hr (Nat.not_lt_zero r), fun r hr => absurd hr (Nat.not_lt_zero r),
    fun r _ => ⟨hz _ rfl, hz _ rfl, hz _ rfl, rfl, not_mem_nil⟩, fun r => ?_,
    fun r _ => rfl, fun r hr => absurd hr not_mem_nil, nodup_nil, fun r hr => ?_, rfl⟩
  · rw [hz _ rfl]
    exact Nat.zero_le 1
  rw [hz _ rfl] at hr
  omega

lemma of_careful (h : CarefulReached s) : s.Sound := by
  induction h with
  | initialState => exact initialState
  | @step s s' a hs hc hst ih =>
    cases a with
    | start p call =>
      rw [Shm.step] at hst
      split_ifs at hst with hid
      cases hst
      exact ih.start hid hc
    | advance p ok base => exact ih.advance hc hst

omit [DecidableEq P] in
lemma safe (h : s.Sound) : s.Safe := by
  refine ⟨h.untouched, fun r => ⟨?_, fun hde p => ?_⟩⟩
  · have := h.once r
    omega
  have hlt : r < s.allocated := by
    by_contra hge
    have := (h.fresh r (Nat.le_of_not_lt hge)).2.2.2.1
    omega
  have := h.gone r (by omega)
  have := h.refs r hlt
  have := s.le_total p (Proc.refs r)
  omega
end Sound

/-- In runs of careful steps a region is destroyed at most once, never while a process refers to
it, and not touched afterwards. -/
theorem careful_runs_safe (h : CarefulReached s) : s.Safe := (Sound.of_careful h).safe

/-- In such runs the two counts of a region are the references and attachments that exist. -/
theorem careful_counts_exact (h : CarefulReached s) {r : ℕ} (hr : r < s.allocated) :
    (s.regions r).refcount = (s.regions r).share + s.total (Proc.refs r) ∧
      (s.regions r).attachmentCount = s.total (Proc.counted r) :=
  ⟨(Sound.of_careful h).refs r hr, (Sound.of_careful h).counted r hr⟩

/-- The state after the steps. -/
def runSteps : List (ShmStep P) → Shm P → Option (Shm P)
  | [], s => some s
  | a :: rest, s => (s.step a).bind (runSteps rest)

omit [Fintype P] in
lemma Reached.runSteps {st : List (ShmStep P)} (h : Reached s)
    (hr : Shm.runSteps st s = some s') : Reached s' := by
  induction st generalizing s with
  | nil =>
    cases hr
    exact h
  | cons a st ih =>
    obtain ⟨s1, hst, hre⟩ := Option.bind_eq_some_iff.1 hr
    exact ih (h.step hst) hre

omit [Fintype P] in
lemma CarefulReached.advance (h : CarefulReached s) (hst : s.step (.advance p true 0) = some s')
    (hc : ∀ r, (s.procs p).pc ≠ .mapping r ∧ (s.procs p).pc ≠ .marking r) : CarefulReached s' :=
  h.step (a := .advance p true 0) (fun r hp => absurd hp (not_or.2 (hc r))) hst

/-- One process creates a region, the other attaches to it, and the first removes it. -/
def attachThenRemove : List (ShmStep Bool) :=
  [.start false (.shmget 1 true), .advance false true 0, .advance false true 0,
    .start true (.shmat 1), .advance true true 0, .advance true true 0,
    .start false (.rmid 1), .advance false true 0, .advance false true 0]

lemma careful_attachThenRemove : ∃ s : Shm Bool,
    runSteps attachThenRemove (initialState Bool) = some s ∧ CarefulReached s := by
  have h₁ : CarefulReached (_ : Shm Bool) :=
    .step .initialState (a := .start false (.shmget 1 true)) (fun r _ h => by cases h) rfl
  have h₂ := h₁.advance (p := false) rfl fun _ => ⟨Pc.noConfusion, Pc.noConfusion⟩
  have h₃ := h₂.advance (p := false) rfl fun _ => ⟨Pc.noConfusion, Pc.noConfusion⟩
  have h₄ : CarefulReached (_ : Shm Bool) := .step h₃ (a := .start true (.shmat 1)) (fun r h => by
    cases h
    exact ⟨Nat.one_ne_zero, fun p => by cases p <;> exact Pc.noConfusion⟩) rfl
  have h₅ := h₄.advance (p := true) rfl fun _ => ⟨Pc.noConfusion, Pc.noConfusion⟩
  have h₆ : CarefulReached (_ : Shm Bool) := .step h₅ (a := .advance true true 0) (fun r h => by
    obtain rfl := Pc.mapping.inj (h.resolve_right Pc.noConfusion)
    rfl) rfl
  have h₇ : CarefulReached (_ : Shm Bool) := .step h₆ (a := .start false (.rmid 1)) (fun r h => by
    cases h
    exact ⟨Nat.succ_ne_zero 1, fun p => by cases p <;> exact Pc.noConfusion⟩) rfl
  have h₈ : CarefulReached (_ : Shm Bool) := .step h₇ (a := .advance false true 0) (fun r h => by
    obtain rfl := Pc.marking.inj (h.resolve_left Pc.noConfusion)
    rfl) rfl
  have h₉ := h₈.advance (p := false) rfl fun _ => ⟨Pc.noConfusion, Pc.noConfusion⟩
  exact ⟨_, rfl, h₉⟩

/-- The region is destroyed when the other process detaches. -/
theorem careful_runs_safe_detach : ∃ s : Shm Bool, CarefulReached s ∧ s.destroys 0 = 1 ∧ s.Safe := by
  obtain ⟨s, hrun, h⟩ := careful_attachThenRemove
  cases hrun
  have h₁ : CarefulReached (_ : Shm Bool) := .step h (a := .start true (.shmdt 0 true)) trivial rfl
  have h₂ := h₁.advance (p := true) rfl fun _ => ⟨Pc.noConfusion, Pc.noConfusion⟩
  have h₃ := h₂.advance (p := true) rfl fun _ => ⟨Pc.noConfusion, Pc.noConfusion⟩
  have h₄ := h₃.advance (p := true) rfl fun _ => ⟨Pc.noConfusion, Pc.noConfusion⟩
  have h₅ := h₄.advance (p := true) rfl fun _ => ⟨Pc.noConfusion, Pc.noConfusion⟩
  have h₆ := h₅.advance (p := true) rfl fun _ => ⟨Pc.noConfusion, Pc.noConfusion⟩
  exact ⟨_, h₆, rfl, careful_runs_safe h₆⟩

/-- The region that was removed still has two references, and the attachment is counted. -/
theorem careful_counts_exact_attached : ∃ s : Shm Bool, CarefulReached s ∧
    (s.regions 0).marked = true ∧ (s.regions 0).refcount = 2 ∧
    (s.regions 0).refcount = (s.regions 0).share + s.total (Proc.refs 0) ∧
    (s.regions 0).attachmentCount = 1 ∧
    (s.regions 0).attachmentCount = s.total (Proc.counted 0) := by
  obtain ⟨s, hrun, h⟩ := careful_attachThenRemove
  cases hrun
  obtain ⟨href, hcount⟩ := careful_counts_exact h Nat.one_pos
  exact ⟨_, h, rfl, rfl, href, rfl, hcount⟩

/-- Two processes look a region up and remove it: the second to mark it drops the manager's
reference once more, and with it the last one, before its own. -/
def twoRemovers : List (ShmStep Bool) :=
  [.start false (.shmget 1 true), .advance false true 0, .advance false true 0,
    .start false (.rmid 1), .start true (.rmid 1), .advance false true 0, .advance false true 0,
    .advance false true 0, .advance true true 0, .advance true true 0, .advance true true 0,
    .advance true true 0]

theorem region_destroyed_in_use :
    ∃ s : Shm Bool, Reached s ∧ s.destroys 0 = 1 ∧ (s.procs true).refs 0 = 1 ∧ ¬ s.Safe ∧
      ∃ s', s.step (.advance true true 0) = some s' ∧ s'.stale = true := by
  have hr : Reached (_ : Shm Bool) :=
    .runSteps .initialState (show runSteps twoRemovers (initialState Bool) = some _ from rfl)
  refine ⟨_, hr, rfl, rfl, fun hsa => ?_, _, rfl, rfl⟩
  exact absurd ((hsa.2 0).2 Nat.zero_lt_one true) Nat.one_ne_zero
end Shm
end Menios.Ipc.ShmLifetime
