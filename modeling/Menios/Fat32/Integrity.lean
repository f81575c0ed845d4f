import Menios.Fat32.File

/-!
# Well-formed volumes

The owners of the clusters of a volume are the root directory and the live
entries of the directories that can be reached from it. A volume is well formed
when every owner has a chain of its own (a file exactly the clusters its size
needs), no cluster has two owners, and a cluster without owner is free.

The entries `.` and `..` repeat the clusters of other directories and own
nothing. They are the first entries of a directory, so no long name can stand
in front of them.

Results:

* `WellFormed.owner_ne`, `WellFormed.cluster_not_mem`: a directory slot lies in the
  chain of one owner only.
-/

namespace Menios.Fat32
open Common List

/-! ## Slots -/
namespace RawEntry
/-- `.` or `..`, as `fat32_directory_is_empty` tells them (lines 2526-2530). -/
def isDot (e : RawEntry) : Bool := decodeSfn e.name == [0x2E] || decodeSfn e.name == [0x2E, 0x2E]

/-- An entry that owns its clusters. -/
def isLive (e : RawEntry) : Bool := e.kind = .entry && !e.isDot
end RawEntry

variable (v : Volume)
/-- The bytes of a slot. -/
def Volume.slot (p : EntryPos) : RawEntry := slotAt (v.data p.cluster) p.index

/-- The slots of the clusters `cs`, in order. -/
def positions (fs : Fat32Fs) (cs : List ℕ) : List EntryPos :=
  cs.flatMap fun c => (List.range fs.entriesPerCluster).map (EntryPos.mk c)

/-- The slots in front of the end of the directory. -/
def Volume.visible (cs : List ℕ) : List EntryPos :=
  (positions v.fs cs).takeWhile fun p => (v.slot p).kind ≠ .endMarker

/-- The live entries of a directory. -/
def Volume.entries (cs : List ℕ) : List EntryPos := (v.visible cs).filter fun p => (v.slot p).isLive

lemma dirSlots_eq (cs : List ℕ) :
    dirSlots v cs = (positions v.fs cs).map fun p => (p, v.slot p) := by
  simp only [dirSlots, positions, map_flatMap, clusterSlots, map_map]
  rfl

variable {cs : List ℕ} {p : EntryPos}
lemma mem_positions {f : Fat32Fs} :
    p ∈ positions f cs ↔ p.cluster ∈ cs ∧ p.index < f.entriesPerCluster := by
  simp only [positions, mem_flatMap, mem_map, mem_range]
  constructor
  · rintro ⟨c, hc, i, hi, rfl⟩
    exact ⟨hc, hi⟩
  rintro ⟨hc, hi⟩
  exact ⟨p.cluster, hc, p.index, hi, rfl⟩

lemma index_head_positions {f : Fat32Fs} (h : p ∈ (positions f cs).head?) : p.index = 0 := by
  cases cs with
  | nil => simp [positions] at h
  | cons c cs =>
    cases hn : f.entriesPerCluster with
    | zero =>
      rw [positions, flatMap_eq_nil_iff.2 (by simp [hn])] at h
      simp at h
    | succ n =>
      rw [positions, flatMap_cons, hn, range_succ_eq_map, map_cons, cons_append,
        List.head?_cons, Option.mem_some_iff] at h
      rw [← h]

lemma mem_of_mem_visible {v : Volume} (h : p ∈ v.visible cs) : p ∈ positions v.fs cs :=
  (takeWhile_sublist _).subset h

lemma mem_entries {v : Volume} :
    p ∈ v.entries cs ↔ p ∈ v.visible cs ∧ (v.slot p).isLive = true := by
  rw [Volume.entries, mem_filter]

lemma cluster_mem_of_mem_entries {v : Volume} (h : p ∈ v.entries cs) :
    p.cluster ∈ cs ∧ p.index < v.fs.entriesPerCluster :=
  mem_positions.1 (mem_of_mem_visible (mem_entries.1 h).1)

/-! ## Owners -/

/-- The root directory, or an entry. -/
abbrev Owner := Option EntryPos

/-- The root directory is a directory, and so is an entry that says so. -/
def IsDir : Owner → Prop
  | none => True
  | some p => (v.slot p).isDirectory = true

/-- The owners that can be reached from the root directory. -/
inductive Live (v : Volume) (own : Owner → List ℕ) : Owner → Prop where
  | root : Live v own none
  | entry {o : Owner} {p : EntryPos} : Live v own o → IsDir v o → p ∈ v.entries (own o) →
      Live v own (some p)

/-- The slot is `.` or `..`. -/
def Volume.IsDotSlot (p : EntryPos) : Prop := (v.slot p).kind = .entry ∧ (v.slot p).isDot = true

/-- The entries `.` and `..` come first. -/
def DotsFirst (cs : List ℕ) : Prop :=
  ∃ n, (∀ p ∈ (v.visible cs).take n, v.IsDotSlot p) ∧ ∀ p ∈ (v.visible cs).drop n, ¬ v.IsDotSlot p

/-- **A well-formed volume**, with the clusters of every owner. -/
structure WellFormed (v : Volume) (own : Owner → List ℕ) : Prop where
  owned : Owned v.link v.fs.InRange own
  root : (own none).headD 0 = v.fs.rootCluster
  rootChain : own none ≠ []
  start : ∀ p, Live v own (some p) → (own (some p)).headD 0 = (v.slot p).firstCluster
  files : ∀ p, Live v own (some p) → (v.slot p).isDirectory = false →
    (own (some p)).length = v.fs.clustersFor (v.slot p).fileSize
  dead : ∀ p, ¬ Live v own (some p) → own (some p) = []
  dots : ∀ o, Live v own o → IsDir v o → DotsFirst v (own o)

namespace WellFormed
variable {v : Volume} {ow : Owner → List ℕ} {p : EntryPos}
/-- A live directory is not a file. -/
theorem owner_ne {o : Owner} (hd : IsDir v o) (hp : (v.slot p).isDirectory = false) :
    o ≠ some p := by
  rintro rfl
  rw [IsDir, hp] at hd
  exact Bool.noConfusion hd

/-- An entry lies in a cluster of its directory, so not in one of its own. -/
theorem cluster_not_mem (hw : WellFormed v ow) {o o' : Owner} (hne : o' ≠ o)
    (hp : p ∈ v.entries (ow o)) : p.cluster ∉ ow o' :=
  hw.owned.disjoint o o' (Ne.symm hne) _ (cluster_mem_of_mem_entries hp).1

lemma exists_dir (h : Live v ow (some p)) :
    ∃ o, Live v ow o ∧ IsDir v o ∧ p ∈ v.entries (ow o) := by
  cases h with
  | entry ho hd hp => exact ⟨_, ho, hd, hp⟩
end WellFormed
end Menios.Fat32
