import Menios.Ipc.ShmLifetime

/-!
# The identifiers of shared-memory regions

The list of regions of `src/kernel/ipc/shm.c` (lines 75-153), with `region_count` and the
identifiers, for any sequence of insertions and removals.

Results:

* `allocate_isSome`: an identifier is found if fewer are in use than there are attempts.
* `ids_distinct`: the regions on the list have different positive identifiers, and their number is
  `region_count`.
-/

namespace Menios.Ipc.ShmLifetime.Shm
open List

/-- A positive `int`. -/
def Positive (id : ℕ) : Prop := 0 < id ∧ id < 2 ^ 31

/-- The identifier that is tried `i` attempts after `nextId`. -/
def candidate (nextId i : ℕ) : ℕ := (nextId - 1 + i) % (2 ^ 31 - 1) + 1

section
variable {ids : List ℕ} {a n : ℕ} (h : Positive n)
include h
/-- What is found is not in use; and if nothing is found, all that was tried is in use. -/
lemma allocate_spec : Positive (shmManagerAllocateIdLocked ids a n).2 ∧
    match (shmManagerAllocateIdLocked ids a n).1 with
    | some id => Positive id ∧ id ∉ ids
    | none => ∀ i < a, candidate n i ∈ ids := by
  induction a generalizing n with
  | zero => exact ⟨h, nofun⟩
  | succ a ih =>
    obtain ⟨hpos, hlt⟩ := h
    obtain ⟨next, hne⟩ := @exists_eq _ (if n = 2 ^ 31 - 1 then 1 else n + 1)
    have hc : ∀ i, candidate n (i + 1) = candidate next i := fun i => by
      rw [hne, candidate, candidate]
      split_ifs <;> omega
    have hp : Positive next := by
      rw [hne, Positive]
      split_ifs <;> omega
    rw [shmManagerAllocateIdLocked, ← hne]
    by_cases hu : ids.contains n
    · rw [if_pos hu]
      obtain ⟨hr, hf⟩ := ih hp
      refine ⟨hr, ?_⟩
      split at hf
      · exact hf
      · rintro (_ | i) hi
        · have hfi : candidate n 0 = n := by
            rw [candidate]
            omega
          simpa [hfi] using hu
        · exact hc i ▸ hf i (Nat.lt_of_succ_lt_succ hi)
    rw [if_neg hu]
    exact ⟨hp, ⟨hpos, hlt⟩, by simpa using hu⟩

lemma allocate_isSome (hl : ids.length < a) (hmax : a < 2 ^ 31) :
    ∃ id, (shmManagerAllocateIdLocked ids a n).1 = some id := by
  refine Option.ne_none_iff_exists'.1 fun hno => ?_
  have hu := (@allocate_spec ids a n h).2
  rw [hno] at hu
  have hinj : Set.InjOn (candidate n) (Finset.range a) := by
    intro i hi j hj he
    rw [Finset.coe_range, Set.mem_Iio] at hi hj
    unfold candidate at he
    omega
  have hsub : (Finset.range a).image (candidate n) ⊆ ids.toFinset := by
    intro id hid
    obtain ⟨i, hi, rfl⟩ := Finset.mem_image.1 hid
    exact mem_toFinset.2 (hu i (Finset.mem_range.1 hi))
  have hc := Finset.card_le_card hsub
  rw [Finset.card_image_of_injOn hinj, Finset.card_range] at hc
  have := ids.toFinset_card_le
  omega
end

/-- The list of `shm_manager`: the regions with their identifiers, the newest first. -/
structure Manager where
  list : List (ℕ × ℕ)
  nextId : ℕ
  regionCount : ℕ

namespace Manager
/-- `shm_manager_initialize` (lines 95-100). -/
def initial : Manager := ⟨[], 1, 0⟩

/-- `shm_manager_insert` (lines 110-129). -/
def insert (m : Manager) (region : ℕ) : Manager :=
  if shmMaxRegions ≤ m.regionCount then m
  else
    match shmManagerAllocateIdLocked (m.list.map Prod.snd) shmMaxRegions m.nextId with
    | (none, nextId) => { m with nextId := nextId }
    | (some id, nextId) => ⟨(region, id) :: m.list, nextId, m.regionCount + 1⟩

/-- `shm_manager_remove` (lines 131-153). -/
def remove (m : Manager) (region : ℕ) : Manager :=
  if m.list.any fun x => x.1 = region then
    { m with
      list := m.list.eraseP fun x => x.1 = region
      regionCount := if 0 < m.regionCount then m.regionCount - 1 else m.regionCount }
  else m

/-- A state of the manager. The other functions change reference counts and marks only; they
decide which regions `shm_region_unref` removes, and any may be here. -/
inductive Reached : Manager → Prop
  | initial : Reached initial
  | insert {m : Manager} (region : ℕ) (h : Reached m) : Reached (m.insert region)
  | remove {m : Manager} (region : ℕ) (h : Reached m) : Reached (m.remove region)

structure Distinct (m : Manager) : Prop where
  next : Positive m.nextId
  positive : ∀ x ∈ m.list, Positive x.2
  nodup : (m.list.map Prod.snd).Nodup
  count : m.regionCount = m.list.length

lemma Reached.distinct {m : Manager} (h : Reached m) : m.Distinct := by
  induction h with
  | initial => exact ⟨⟨by decide, by decide⟩, nofun, nodup_nil, rfl⟩
  | @insert m region _ ih =>
    obtain ⟨hne, hnew⟩ := @allocate_spec (m.list.map Prod.snd) shmMaxRegions _ ih.next
    rw [Manager.insert]
    split_ifs
    · exact ih
    split
    · next he =>
      rw [he] at hne
      exact { ih with next := hne }
    next id _ he =>
    rw [he] at hne hnew
    exact ⟨hne, forall_mem_cons.2 ⟨hnew.1, ih.positive⟩, nodup_cons.2 ⟨hnew.2, ih.nodup⟩,
      congrArg (· + 1) ih.count⟩
  | @remove m region _ ih =>
    rw [Manager.remove]
    split_ifs with ha hpos
    · have hsub : m.list.eraseP (fun x => x.1 = region) <+ m.list := eraseP_sublist
      refine ⟨ih.next, fun x hx => ih.positive x (hsub.subset hx), (hsub.map _).nodup ih.nodup, ?_⟩
      obtain ⟨x, hx, ht⟩ := any_eq_true.1 ha
      exact (congrArg (· - 1) ih.count).trans (length_eraseP_of_mem hx ht).symm
    · obtain ⟨x, hx, -⟩ := any_eq_true.1 ha
      have := length_pos_of_mem hx
      exact absurd (ih.count ▸ this) hpos
    · exact ih

/-- The regions on the list have different positive identifiers, `region_count` is their number,
and there is an identifier for a new one as long as the list has room. -/
theorem ids_distinct {m : Manager} (h : Reached m) : (∀ x ∈ m.list, 0 < x.2) ∧
    (m.list.map Prod.snd).Nodup ∧ m.regionCount = m.list.length ∧
    (m.list.length < shmMaxRegions → ∃ id, (shmManagerAllocateIdLocked (m.list.map Prod.snd)
      shmMaxRegions m.nextId).1 = some id) := by
  obtain ⟨hne, hp, hnd, hc⟩ := h.distinct
  refine ⟨fun x hx => (hp x hx).1, hnd, hc, fun hr => ?_⟩
  exact allocate_isSome hne (by rwa [length_map]) (by decide)

/-- Of two regions the first is removed, and a third one is created. -/
theorem ids_distinct_removal :
    let m := (((initial.insert 0).insert 1).remove 0).insert 2
    m.list = [(2, 3), (1, 2)] ∧ (m.list.map Prod.snd).Nodup ∧ m.regionCount = 2 := by
  have h := ids_distinct (.insert 2 (.remove 0 (.insert 1 (.insert 0 .initial))))
  exact ⟨rfl, h.2.1, h.2.2.1⟩
end Manager
end Menios.Ipc.ShmLifetime.Shm
