import Menios.Common.Buffer
import Menios.Common.Strings

/-!
# Directory entries of a FAT32 volume

The 32 bytes of a directory slot (`src/kernel/fs/fat32/fat32.c`, lines
169-193). The code reads the same bytes through two packed structures,
`fat32_dir_entry_raw_t` and `fat32_lfn_entry_t`; the model keeps the bytes and
has one accessor for each field that is read. Fields are little-endian.
-/

namespace Menios.Fat32
open Common

/-- The bytes of a directory slot. -/
abbrev RawEntry := Fin 32 → UInt8

/-- `sizeof(fat32_dir_entry_raw_t)`. -/
def entrySize : ℕ := 32

lemma mod_entrySize_lt (k : ℕ) : k % entrySize < entrySize := Nat.mod_lt _ (by decide)

scoped instance neZero31 : NeZero 31 := ⟨by decide⟩

scoped instance neZero32 : NeZero 32 := ⟨by decide⟩

namespace RawEntry
variable (e : RawEntry)
/-- A `uint16_t` field at byte `off`. -/
def u16 (off : Fin 31) : ℕ := (e off.castSucc).toNat + 256 * (e off.succ).toNat

/-- Store a `uint16_t` field at byte `off`. -/
def setU16 (off : Fin 31) (v : ℕ) : RawEntry := fun j =>
  if j = off.castSucc then UInt8.ofNat v else if j = off.succ then UInt8.ofNat (v / 256) else e j

/-- Store a byte field. -/
def setU8 (off : Fin 32) (b : UInt8) : RawEntry := Function.update e off b

/-- `name[0]`, which is also `order` of a long-name entry. -/
def first : UInt8 := e 0

/-- `attr`, at the same place in both structures. -/
def attr : UInt8 := e 11

/-- The eleven bytes of `name`. -/
def name : List UInt8 := List.ofFn fun i : Fin 11 => e (i.castLE (by decide))

/-- `fat32_entry_first_cluster` (lines 1760-1764). -/
def firstCluster : ℕ := e.u16 20 * 65536 + e.u16 26

/-- `file_size`. -/
def fileSize : ℕ := e.u16 28 + 65536 * e.u16 30

/-- Store `first_cluster_low` and `first_cluster_high`. -/
def setFirstCluster (cluster : ℕ) : RawEntry :=
  (e.setU16 26 (cluster % 65536)).setU16 20 (cluster / 65536 % 65536)

/-- Store `file_size`. -/
def setFileSize (size : ℕ) : RawEntry :=
  (e.setU16 28 (size % 65536)).setU16 30 (size / 65536 % 65536)

/-- A zeroed entry with its name, its attributes and its first cluster stored. -/
def short (name : List UInt8) (attr : UInt8) (cluster : ℕ) : RawEntry :=
  setFirstCluster (fun j => if j.val < 11 then name.getD j 0 else if j.val = 11 then attr else 0) cluster

lemma u16_lt (o : Fin 31) : e.u16 o < 65536 := by
  have := (e o.castSucc).toNat_lt
  have := (e o.succ).toNat_lt
  unfold u16; omega

lemma u16_setU16_self (o : Fin 31) (v : ℕ) : (e.setU16 o v).u16 o = v % 65536 := by
  have hne : o.succ ≠ o.castSucc := by simp [Fin.ext_iff]
  simp only [u16, setU16, if_true, if_neg hne, UInt8.toNat_ofNat']
  omega

lemma u16_setU16_of_disjoint {o o' : Fin 31} (v : ℕ) (h : o.val + 1 < o'.val ∨ o'.val + 1 < o.val) :
    (e.setU16 o v).u16 o' = e.u16 o' := by
  simp only [u16, setU16]
  rw [if_neg (by simp [Fin.ext_iff]; omega), if_neg (by simp [Fin.ext_iff]; omega),
    if_neg (by simp [Fin.ext_iff]; omega), if_neg (by simp [Fin.ext_iff]; omega)]

lemma setU16_apply_of_ne {o : Fin 31} {j : Fin 32} (v : ℕ)
    (h1 : j ≠ o.castSucc) (h2 : j ≠ o.succ) : e.setU16 o v j = e j := by
  simp [setU16, h1, h2]

lemma setU16_apply_of_lt {o : Fin 31} {j : Fin 32} (v : ℕ) (h : j.val < o.val) :
    e.setU16 o v j = e j := by
  refine setU16_apply_of_ne e v (fun he => ?_) fun he => ?_
  · exact absurd (congrArg Fin.val he) h.ne
  · exact absurd (congrArg Fin.val he) (Nat.lt_succ_of_lt h).ne

/-! Which fields a store changes -/

section
variable (e : RawEntry) (x : ℕ)
lemma setFirstCluster_apply {j : Fin 32} (h : j.val < 20) : e.setFirstCluster x j = e j := by
  rw [setFirstCluster, setU16_apply_of_lt _ _ h,
    setU16_apply_of_lt _ _ (show j.val < 26 from Nat.lt_trans h (by decide))]

lemma setFileSize_apply {j : Fin 32} (h : j.val < 28) : e.setFileSize x j = e j := by
  rw [setFileSize, setU16_apply_of_lt _ _ (show j.val < 30 from Nat.lt_trans h (by decide)),
    setU16_apply_of_lt _ _ h]

lemma firstCluster_setFirstCluster (h : x < 2 ^ 32) : (e.setFirstCluster x).firstCluster = x := by
  rw [firstCluster, setFirstCluster, u16_setU16_self, u16_setU16_of_disjoint _ _ (by decide),
    u16_setU16_self]
  omega

lemma fileSize_setFirstCluster : (e.setFirstCluster x).fileSize = e.fileSize := by
  simp only [fileSize, setFirstCluster]
  rw [u16_setU16_of_disjoint _ _ (by decide), u16_setU16_of_disjoint _ _ (by decide),
    u16_setU16_of_disjoint _ _ (by decide), u16_setU16_of_disjoint _ _ (by decide)]

lemma fileSize_setFileSize (h : x < 2 ^ 32) : (e.setFileSize x).fileSize = x := by
  rw [fileSize, setFileSize, u16_setU16_self, u16_setU16_of_disjoint _ _ (by decide),
    u16_setU16_self]
  omega

lemma firstCluster_setFileSize : (e.setFileSize x).firstCluster = e.firstCluster := by
  simp only [firstCluster, setFileSize]
  rw [u16_setU16_of_disjoint _ _ (by decide), u16_setU16_of_disjoint _ _ (by decide),
    u16_setU16_of_disjoint _ _ (by decide), u16_setU16_of_disjoint _ _ (by decide)]

lemma fileSize_lt : e.fileSize < 2 ^ 32 := by
  have := e.u16_lt 28
  have := e.u16_lt 30
  unfold fileSize
  omega

lemma name_congr {e e' : RawEntry} (h : ∀ j : Fin 32, j.val < 12 → e' j = e j) :
    e'.name = e.name ∧ e'.attr = e.attr ∧ e'.first = e.first := by
  refine ⟨?_, h 11 (by decide), h 0 (by decide)⟩
  simp only [name]
  congr 1
  funext i
  exact h _ (by simp; omega)
end

section
variable {s : List UInt8} {a : UInt8} {c : ℕ}
lemma attr_short : (short s a c).attr = a := by
  rw [attr, short, setFirstCluster_apply _ _ (by decide)]
  rfl

lemma first_short : (short s a c).first = s.getD 0 0 := by
  rw [first, short, setFirstCluster_apply _ _ (by decide)]
  rfl

lemma name_short (h : s.length = 11) : (short s a c).name = s := by
  apply List.ext_getElem
  · simp [name, h]
  intro i h1 h2
  have hi : i < 11 := by omega
  simp only [name, List.getElem_ofFn, short]
  rw [setFirstCluster_apply _ _ (show i < 20 by omega)]
  exact (if_pos hi).trans (List.getD_eq_getElem _ _ h2)

lemma firstCluster_short (h : c < 2 ^ 32) : (short s a c).firstCluster = c :=
  firstCluster_setFirstCluster _ _ h
end
end RawEntry
end Menios.Fat32
