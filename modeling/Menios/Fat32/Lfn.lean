import Menios.Fat32.Entry

/-!
# Long file names

Models of `fat32_fill_lfn_entry`, `fat32_reset_lfn` and
`fat32_append_lfn_segment` (`src/kernel/fs/fat32/fat32.c`, lines 1074-1107 and
1684-1758), and of the loop of `fat32_create_entry` (lines 2421-2432) that
encodes a name, last chunk first.

The decoder's buffer is never cleared: `fat32_reset_lfn` only stores a NUL in
its first byte. Every model here takes the earlier contents as an argument.

Results:

* `decodeLfn_apply`: the buffer after the entries of a name, byte by byte.
* `decodeLfn_eq_name_iff`: decoding gives the name back iff its length is not
  a multiple of 13 or the buffer happens to hold a NUL right after it.

**Defect.** A name of 13, 26, … bytes fills its last entry, the encoder writes no
terminator, and the decoder runs on into old bytes
(`decodeLfn_thirteen_bytes`).
-/

namespace Menios.Fat32
open Common List

/-! ## Model -/

/-- Where the 13 characters of a long-name entry are: `name1[5]`, `name2[6]`
and `name3[2]` (lines 184-193). -/
def lfnOffset : Fin 13 → Fin 31 := ![1, 3, 5, 7, 9, 14, 16, 18, 20, 22, 24, 28, 30]

/-- The character stored for position `pos` of the name (lines 1091-1097). -/
def lfnCode (name : CString) (pos : ℕ) : ℕ :=
  if pos < name.length then (name.getD pos 0).toNat
  else if pos = name.length then 0x0000
  else 0xFFFF

variable (order checksum : UInt8)
/-- `fat32_fill_lfn_entry` (lines 1074-1107). -/
def fillLfnEntry (name : CString) (chunkIndex : ℕ) : RawEntry :=
  let entry : RawEntry := fun _ => 0xFF
  let entry := entry.setU8 0 order
  let entry := entry.setU8 11 0x0F
  let entry := entry.setU8 12 0
  let entry := entry.setU8 13 checksum
  let entry := entry.setU16 26 0
  (List.finRange 13).foldl
    (fun entry i => entry.setU16 (lfnOffset i) (lfnCode name (chunkIndex * 13 + i))) entry

/-- `(name_len + 12u) / 13u` (line 2384). -/
def lfnEntryCount (name : CString) : ℕ := (name.length + 12) / 13

/-- `order` of the entry written at place `i` of `lfn_entries` (lines 2424-2428). -/
def lfnOrder (lfnEntries i : ℕ) : UInt8 :=
  let order := UInt8.ofNat (lfnEntries - 1 - i + 1)
  if i = 0 then order ||| 0x40 else order

/-- The long-name entries of a name in the order `fat32_create_entry` writes
them (lines 2423-2431). -/
def lfnEntriesOf (checksum : UInt8) (name : CString) : List RawEntry :=
  (List.range (lfnEntryCount name)).map fun i =>
    fillLfnEntry (lfnOrder (lfnEntryCount name) i) checksum name (lfnEntryCount name - 1 - i)

/-- The size of the decoder's buffer (line 1788). -/
def lfnSize : ℕ := 256

/-- `fat32_reset_lfn` (lines 1684-1688). -/
def resetLfn (buffer : Buffer) : Buffer := buffer.set 0 0

/-- The `for` loop of `fat32_append_lfn_segment` (lines 1738-1757) over the
remaining characters, the next of which belongs at `dst`. -/
def appendLfnLoop (targetSize : ℕ) : Buffer → ℕ → List ℕ → Buffer
  | target, _, [] => target
  | target, dst, code :: codes =>
    if dst ≥ targetSize then target.set (targetSize - 1) 0
    else if code = 0xFFFF then appendLfnLoop targetSize target (dst + 1) codes
    else if code = 0x0000 then target.set dst 0
    else appendLfnLoop targetSize (target.set dst (UInt8.ofNat code)) (dst + 1) codes

/-- `fat32_append_lfn_segment` (lines 1719-1758). -/
def appendLfnSegment (target : Buffer) (targetSize : ℕ) (lfn : RawEntry) : Buffer :=
  if targetSize = 0 then target
  else
    let order := lfn.first &&& 0x1F
    if order = 0 then target
    else
      appendLfnLoop targetSize target ((order.toNat - 1) * 13)
        ((List.finRange 13).map fun i => lfn.u16 (lfnOffset i))

/-- Feed entries to the decoder, as `fat32_iterate_directory` does between two
short entries. -/
def decodeLfn (target : Buffer) (entries : List RawEntry) : Buffer :=
  entries.foldl (fun target lfn => appendLfnSegment target lfnSize lfn) target

/-! ## Reading back what was filled in -/

lemma lfnOffset_disjoint : ∀ i j : Fin 13, i ≠ j →
    (lfnOffset i).val + 1 < (lfnOffset j).val ∨ (lfnOffset j).val + 1 < (lfnOffset i).val := by
  decide

lemma u16_foldl_setU16 (cd : Fin 13 → ℕ) : ∀ (l : List (Fin 13)) (e : RawEntry) (i : Fin 13),
    l.Nodup → (l.foldl (fun e i => e.setU16 (lfnOffset i) (cd i)) e).u16 (lfnOffset i) =
      if i ∈ l then cd i % 65536 else e.u16 (lfnOffset i) := by
  intro l
  induction l with
  | nil => intro e i _; simp
  | cons a l ih =>
    intro e i hnd
    obtain ⟨ha, hl⟩ := nodup_cons.1 hnd
    rw [foldl_cons, ih _ i hl]
    by_cases hi : i ∈ l
    · simp [hi]
    by_cases hia : i = a
    · subst hia
      simp [hi, RawEntry.u16_setU16_self]
    simp only [hi, if_false, mem_cons, hia, or_self]
    exact RawEntry.u16_setU16_of_disjoint _ _ (lfnOffset_disjoint a i (Ne.symm hia))

section
variable (n : CString)
lemma lfnCode_lt (p : ℕ) : lfnCode n p < 65536 := by
  unfold lfnCode
  have := (n.getD p 0).toNat_lt
  split_ifs <;> omega

variable (c : ℕ)
lemma u16_fillLfnEntry (i : Fin 13) : (fillLfnEntry order checksum n c).u16 (lfnOffset i) =
      lfnCode n (c * 13 + i) := by
  unfold fillLfnEntry
  rw [u16_foldl_setU16 (fun i => lfnCode n (c * 13 + i)) _ _ i (nodup_finRange 13),
    if_pos (mem_finRange i), Nat.mod_eq_of_lt (lfnCode_lt _ _)]

lemma foldl_setU16_apply (cd : Fin 13 → ℕ) (j : Fin 32)
    (h : ∀ i : Fin 13, j ≠ (lfnOffset i).castSucc ∧ j ≠ (lfnOffset i).succ) :
    ∀ (l : List (Fin 13)) (e : RawEntry),
      l.foldl (fun e i => e.setU16 (lfnOffset i) (cd i)) e j = e j := by
  intro l
  induction l with
  | nil => intro e; rfl
  | cons a l ih =>
    intro e
    rw [foldl_cons, ih, RawEntry.setU16_apply_of_ne _ _ (h a).1 (h a).2]

lemma first_fillLfnEntry : (fillLfnEntry order checksum n c).first = order := by
  unfold RawEntry.first fillLfnEntry
  rw [foldl_setU16_apply _ 0 (by decide)]
  rfl

lemma attr_fillLfnEntry : (fillLfnEntry order checksum n c).attr = 0x0F := by
  unfold RawEntry.attr fillLfnEntry
  rw [foldl_setU16_apply _ 11 (by decide)]
  rfl
end

/-! ## One segment -/

/-- What the segments written so far leave at byte `j`, when they cover it. -/
def nameByte (name : CString) (target : Buffer) (j : ℕ) : UInt8 :=
  if j < name.length then name.getD j 0 else if j = name.length then 0 else target j

variable {name : CString}
/-- The loop over the characters of a chunk that starts at `dst`. -/
lemma appendLfnLoop_codes (hn : ∀ b ∈ name, b ≠ 0) (hl : name.length < lfnSize) :
    ∀ (k : ℕ) (t : Buffer) (d : ℕ), d ≤ name.length →
      appendLfnLoop lfnSize t d ((List.range' d k).map (lfnCode name)) =
        fun j => if d ≤ j ∧ j < d + k then nameByte name t j else t j := by
  intro k
  induction k with
  | zero =>
    intro t d _
    funext j
    simp only [range'_zero, map_nil, appendLfnLoop]
    rw [if_neg (by omega)]
  | succ k ih =>
    intro t d hdst
    rw [range'_succ, map_cons, appendLfnLoop, if_neg (by omega)]
    by_cases hlt : d < name.length
    · have hmem : name.getD d 0 ∈ name := by rw [getD_eq_getElem _ _ hlt]; exact getElem_mem hlt
      have hne : (name.getD d 0).toNat ≠ 0 := by
        intro h0
        exact hn _ hmem (UInt8.toNat_inj.1 (by simpa using h0))
      have := (name.getD d 0).toNat_lt
      have hc : lfnCode name d = (name.getD d 0).toNat := by simp only [lfnCode, if_pos hlt]
      rw [hc, if_neg (by omega), if_neg hne, UInt8.ofNat_toNat, ih _ _ (by omega)]
      funext j
      simp only [nameByte, Buffer.set_apply]
      by_cases hj : j = d
      · subst hj
        rw [if_neg (by omega), if_pos rfl, if_pos (by omega), if_pos hlt]
      · simp only [hj, if_false]
        split_ifs <;> first | rfl | omega
    -- the terminator ends the loop
    have he : d = name.length := by omega
    have hc : lfnCode name d = 0 := by simp only [lfnCode, if_neg hlt, if_pos he]
    rw [hc, if_neg (by norm_num), if_pos rfl]
    funext j
    simp only [nameByte, Buffer.set_apply]
    split_ifs <;> first | rfl | omega

/-- The characters of chunk `c` are those of the positions from `13 * c` on. -/
lemma codes_fillLfnEntry (name : CString) (c : ℕ) :
    ((List.finRange 13).map fun i => (fillLfnEntry order checksum name c).u16 (lfnOffset i)) =
      (List.range' (c * 13) 13).map (lfnCode name) := by
  rw [range'_eq_map_range, map_map, ← map_coe_finRange_eq_range, map_map]
  apply map_congr_left
  intro i _
  exact u16_fillLfnEntry order checksum name c i

/-- `order & 0x1F` is the number of the chunk, counted from 1. -/
lemma lfnOrder_and (n i : ℕ) (hi : i < n) (hn : n ≤ 20) :
    (lfnOrder n i &&& 0x1F).toNat = n - i := by
  unfold lfnOrder
  have : ∀ n ≤ 20, ∀ i < n, ((if i = 0 then UInt8.ofNat (n - 1 - i + 1) ||| 0x40
      else UInt8.ofNat (n - 1 - i + 1)) &&& 0x1F).toNat = n - i := by decide
  exact this n hn i hi

lemma lfnEntryCount_le (h : name.length ≤ 255) : lfnEntryCount name ≤ 20 := by
  unfold lfnEntryCount; omega

section
variable (hn : ∀ b ∈ name, b ≠ 0)
include hn
/-- One entry of a name overwrites its 13 bytes of the buffer. -/
lemma appendLfnSegment_fill (hl : name.length ≤ 255)
    {i : ℕ} (hi : i < lfnEntryCount name) (checksum : UInt8) (t : Buffer) :
    appendLfnSegment t lfnSize (fillLfnEntry (lfnOrder (lfnEntryCount name) i) checksum name
        (lfnEntryCount name - 1 - i)) =
      fun j => if (lfnEntryCount name - 1 - i) * 13 ≤ j ∧ j < (lfnEntryCount name - 1 - i) * 13 + 13
        then nameByte name t j else t j := by
  have ha := lfnOrder_and _ i hi (lfnEntryCount_le hl)
  have hne : lfnOrder (lfnEntryCount name) i &&& 0x1F ≠ 0 := by
    intro h0
    rw [h0] at ha
    simp at ha
    omega
  unfold appendLfnSegment
  rw [if_neg (by decide), first_fillLfnEntry]
  rw [if_neg hne, ha, codes_fillLfnEntry,
    show lfnEntryCount name - i - 1 = lfnEntryCount name - 1 - i by omega,
    appendLfnLoop_codes hn (by unfold lfnSize; omega) 13]
  unfold lfnEntryCount at hi ⊢
  omega

/-! ## The whole name -/

/-- The buffer after the last `m` entries (chunks `m - 1`, …, `0`). -/
lemma foldl_appendLfnSegment (hl : name.length ≤ 255)
    (checksum : UInt8) (bf : Buffer) : ∀ m ≤ lfnEntryCount name,
      (List.range m).foldl (fun t i => appendLfnSegment t lfnSize
          (fillLfnEntry (lfnOrder (lfnEntryCount name) i) checksum name
            (lfnEntryCount name - 1 - i))) bf =
        fun j => if (lfnEntryCount name - m) * 13 ≤ j ∧ j < lfnEntryCount name * 13
          then nameByte name bf j else bf j := by
  intro m
  induction m with
  | zero =>
    intro _
    funext j
    rw [if_neg (by simp)]
    rfl
  | succ m ih =>
    intro hm
    rw [range_succ, foldl_append, ih (by omega), foldl_cons, foldl_nil,
      appendLfnSegment_fill hn hl (by omega)]
    funext j
    simp only [nameByte]
    split_ifs <;> first | rfl | omega

/-- **The decoder's buffer after the entries of `name`**, byte by byte: the name,
a NUL if the last entry has room for it, and old bytes. -/
theorem decodeLfn_apply (hl : name.length ≤ 255)
    (checksum : UInt8) (bf : Buffer) : decodeLfn bf (lfnEntriesOf checksum name) =
      fun j => if j < lfnEntryCount name * 13 then nameByte name bf j else bf j := by
  unfold decodeLfn lfnEntriesOf
  rw [foldl_map, foldl_appendLfnSegment hn hl checksum bf _ le_rfl]
  funext j
  simp
end

/-- **Decoding gives the name back iff the last entry has room for a terminator
or the buffer holds a NUL there already.** -/
theorem decodeLfn_eq_name_iff {name : CString} (h1 : 1 ≤ name.length) (hlen : name.length ≤ 255)
    (hn : ∀ b ∈ name, b ≠ 0) (checksum : UInt8) (buffer : Buffer) :
    (decodeLfn (resetLfn buffer) (lfnEntriesOf checksum name)).cString lfnSize = name ↔
      name.length % 13 ≠ 0 ∨ buffer name.length = 0 := by
  rw [Buffer.cString_eq_iff hn (by unfold lfnSize; omega), decodeLfn_apply hn hlen]
  have : name.length ≤ lfnEntryCount name * 13 := by unfold lfnEntryCount; omega
  have hb : ∀ i (h : i < name.length), (if i < lfnEntryCount name * 13 then
      nameByte name (resetLfn buffer) i else resetLfn buffer i) = name[i] := by
    intro i hi
    rw [if_pos (by omega), nameByte, if_pos hi, getD_eq_getElem _ _ hi]
  have hold : resetLfn buffer name.length = buffer name.length := by
    rw [resetLfn, Buffer.set_apply, if_neg (by omega)]
  rw [and_iff_right hb]
  dsimp only
  by_cases hmod : name.length % 13 = 0
  · rw [if_neg (by unfold lfnEntryCount; omega), hold]
    simp [hmod]
  rw [if_pos (by unfold lfnEntryCount; omega)]
  simp [nameByte, hmod]

/-- The one-byte name `a` comes back from a buffer full of `x`. -/
theorem decodeLfn_eq_name_iff_one_byte :
    (decodeLfn (resetLfn fun _ => 0x78) (lfnEntriesOf 0 [0x61])).cString lfnSize = [0x61] :=
  (decodeLfn_eq_name_iff (by decide) (by decide) (by simp) 0 fun _ => 0x78).2 (by decide)

/-- A name of 13 bytes `a` does not come back from a buffer full of `x`. -/
theorem decodeLfn_thirteen_bytes :
    (decodeLfn (resetLfn fun _ => 0x78) (lfnEntriesOf 0 (List.replicate 13 0x61))).cString lfnSize ≠
      List.replicate 13 0x61 := by
  rw [Ne, Buffer.cString_eq_iff (by simp) (by decide), decodeLfn_apply (by simp) (by decide)]
  rintro ⟨_, he⟩
  cases he
end Menios.Fat32
