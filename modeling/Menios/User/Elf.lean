import Menios.User.Teardown

/-!
# Loading programs

Model of `elf64_load_image` (`src/kernel/user/elf_loader.c`, lines 164-194) as the accesses that
it makes: bytes of the image that are read, bytes of new frames that are written, and pages that
are mapped. What `pmm_alloc_pages`, `proc_register_user_segment` and `pmm_map_page_in_root` give
back, and what lies in memory outside the image, are parameters.

**Defects.** `elf_validate` and `map_segment` compare sums of 64-bit fields of the file that may
wrap around: headers and segments beyond the image are accepted, and read. `map_segment` does not
compare `p_filesz` with `p_memsz`, so it copies beyond the frames of a segment whose file part is
larger, and it does not look at `p_vaddr`, so it maps pages of the kernel half.

Results:

* `elf_load_safe_iff`: the images for which every load is safe.
-/

namespace Menios.User.Elf
open Common Mem Space List Nat

/-! ## Model -/

/-- `sizeof(Elf64_Ehdr)`. -/
def ehdrSize : ℕ := 64

/-- `sizeof(Elf64_Phdr)`. -/
def phdrSize : ℕ := 56

/-- `PT_LOAD`. -/
def ptLoad : ℕ := 1

/-- The surroundings of a load. `alloc i n`: the page that `pmm_alloc_pages` returns for the `n`
pages of segment `i`; `mapped i`: the pages of it that can be mapped. -/
structure Env where
  outside : ℕ → UInt8
  alloc : ℕ → ℕ → Option ℕ
  alloc_fits : ∀ i n page, alloc i n = some page → 0 < n ∧ 0 < page ∧ page + n ≤ pageLimit
  register : ℕ → Bool
  mapped : ℕ → ℕ

/-- An access: bytes of the image, bytes of the frames from `start` on, or a page. -/
inductive Access
  | read (offset length : ℕ)
  | write (start size offset length : ℕ)
  | map (vaddr : UInt64)
deriving DecidableEq

variable (image : List UInt8)
/-- The byte at an offset from the image, which wraps around. -/
def byteAt (outside : ℕ → UInt8) (offset : ℕ) : UInt8 :=
  image.getD (offset % 2 ^ 64) (outside (offset % 2 ^ 64))

variable (bytes : ℕ → UInt8)
/-- A field of a header. -/
def word (offset length : ℕ) : ℕ := leNat ((List.range length).map fun k => bytes (offset + k))

/-- `e_phoff`. -/
def ePhoff : ℕ := word bytes 32 8

/-- `e_phnum`. -/
def ePhnum : ℕ := word bytes 56 2

/-- The checks of `elf_validate` (lines 60-86) that look at single fields. -/
def fieldsValid : Bool :=
  bytes 0 = 0x7f ∧ bytes 1 = 0x45 ∧ bytes 2 = 0x4c ∧ bytes 3 = 0x46 ∧
    bytes 4 = 2 ∧ bytes 5 = 1 ∧
    word bytes 16 2 = 2 ∧ word bytes 18 2 = 62 ∧ word bytes 20 4 = 1 ∧
    ePhoff bytes ≠ 0 ∧ word bytes 54 2 = phdrSize ∧ ePhnum bytes ≠ 0

/-- `elf_validate` (lines 54-94). -/
def elfValidate (size : ℕ) : Bool :=
  decide (ehdrSize ≤ size) && fieldsValid bytes &&
    decide ((ePhoff bytes + ePhnum bytes * phdrSize) % 2 ^ 64 ≤ size)

/-- Where program header `i` lies (lines 175 and 178). -/
def phdrOffset (i : ℕ) : ℕ := (ePhoff bytes + i * phdrSize) % 2 ^ 64

/-- `p_type`. -/
def pType (i : ℕ) : ℕ := word bytes (phdrOffset bytes i) 4

/-- The rest of program header `i`. -/
def phdrAt (i : ℕ) : Phdr where
  flags := BitVec.ofNat 32 (word bytes (phdrOffset bytes i + 4) 4)
  offset := UInt64.ofNat (word bytes (phdrOffset bytes i + 8) 8)
  vaddr := UInt64.ofNat (word bytes (phdrOffset bytes i + 16) 8)
  filesz := UInt64.ofNat (word bytes (phdrOffset bytes i + 32) 8)
  memsz := UInt64.ofNat (word bytes (phdrOffset bytes i + 40) 8)

/-- The accesses of `map_segment` once it has the pages (lines 128-139), `mapped` of which can be
mapped. -/
def placeAccesses (p : Phdr) (page mapped : ℕ) : List Access :=
  let start := page * pageSize
  let room := p.totalPages.toNat * pageSize
  .write start room start room :: .read p.offset.toNat p.filesz.toNat ::
    .write start room (start + p.pageOffset.toNat) p.filesz.toNat ::
    (List.range (min mapped p.totalPages.toNat)).map fun page =>
      .map (pageAt (pageAlignDown p.vaddr) page)

/-- The accesses of `map_segment` (lines 96-162) for header `i`, and its result. -/
def segmentAccesses (env : Env) (size i : ℕ) (p : Phdr) : List Access × Bool :=
  if p.memsz = 0 then ([], true)
  else if size < (p.offset + p.filesz).toNat then ([], false)
  else
    match env.alloc i p.totalPages.toNat with
    | none => ([], false)
    | some page =>
      if env.register i then
        (placeAccesses p page (env.mapped i), decide (p.totalPages.toNat ≤ env.mapped i))
      else ([], false)

/-- The loop over the program headers (lines 177-186) from header `i` on. -/
def headerAccesses (env : Env) (bytes : ℕ → UInt8) (size : ℕ) : ℕ → ℕ → List Access × Bool
  | 0, _ => ([], true)
  | left + 1, i =>
    let header := Access.read (phdrOffset bytes i) phdrSize
    if pType bytes i ≠ ptLoad then
      let rest := headerAccesses env bytes size left (i + 1)
      (header :: rest.1, rest.2)
    else
      let segment := segmentAccesses env size i (phdrAt bytes i)
      if segment.2 then
        let rest := headerAccesses env bytes size left (i + 1)
        (header :: segment.1 ++ rest.1, rest.2)
      else (header :: segment.1, false)

/-- `elf64_load_image` (lines 164-194). -/
def elf64LoadImage (env : Env) (image : List UInt8) : List Access × Bool :=
  let bytes := byteAt image env.outside
  if image.length < ehdrSize then ([], false)
  else if elfValidate bytes image.length then
    let headers := headerAccesses env bytes image.length (ePhnum bytes) 0
    (.read 0 ehdrSize :: headers.1, headers.2)
  else ([.read 0 ehdrSize], false)

/-! ## Safety -/

/-- Reads are within the image, writes within the frames of the segment, and pages in the user
half. -/
def Access.Safe (size : ℕ) : Access → Prop
  | .read offset length => ∀ k, k < length → (offset + k) % 2 ^ 64 < size
  | .write start room offset length => ∀ k, k < length → start ≤ offset + k ∧ offset + k < start + room
  | .map vaddr => vaddr.toNat < userLimit

/-- The bytes of the image. -/
def imageBytes : ℕ → UInt8 := byteAt image fun _ => 0

/-- Header `i` is that of a segment with memory. -/
def Loaded (i : ℕ) : Prop := pType bytes i = ptLoad ∧ (phdrAt bytes i).memsz ≠ 0

/-- The memory of a segment holds its part in the file, and lies in the user half. -/
def Sized (p : Phdr) : Prop :=
  p.filesz.toNat ≤ p.memsz.toNat ∧ p.vaddr.toNat + p.memsz.toNat ≤ userLimit

/-- The headers have the values that the loader asks for, the program headers and the segments
lie within the file, and the segments have the memory that they need. -/
def WellFormed : Prop :=
  ehdrSize ≤ image.length ∧ fieldsValid (imageBytes image) = true ∧
    ePhoff (imageBytes image) + ePhnum (imageBytes image) * phdrSize ≤ image.length ∧
    ∀ i, i < ePhnum (imageBytes image) → Loaded (imageBytes image) i →
      (phdrAt (imageBytes image) i).offset.toNat + (phdrAt (imageBytes image) i).filesz.toNat ≤
        image.length ∧ Sized (phdrAt (imageBytes image) i)

/-- Every access is safe, and an image that is accepted is well formed. -/
def LoadSafe (env : Env) (image : List UInt8) : Prop :=
  (∀ a ∈ (elf64LoadImage env image).1, a.Safe image.length) ∧
    ((elf64LoadImage env image).2 = true → WellFormed image)

/-- The loader does not get beyond the checks and the allocation. -/
def Rejected (size : ℕ) (p : Phdr) : Prop :=
  size < (p.offset + p.filesz).toNat ∨ p.totalPages.toNat = 0 ∨ pageLimit ≤ p.totalPages.toNat

/-- The part in the file lies within it and fits the pages, and the pages lie in the user half. -/
def SegmentOk (size : ℕ) (p : Phdr) : Prop :=
  p.offset.toNat + p.filesz.toNat ≤ size ∧
    p.pageOffset.toNat + p.filesz.toNat ≤ p.totalPages.toNat * pageSize ∧
    (pageAlignDown p.vaddr).toNat + p.totalPages.toNat * pageSize ≤ userLimit

/-- Every program header lies within the file, and every segment is in order, up to the first
that is rejected. -/
def HeadersOk (bytes : ℕ → UInt8) (size : ℕ) : ℕ → ℕ → Prop
  | 0, _ => True
  | left + 1, i =>
    phdrOffset bytes i + phdrSize ≤ size ∧
      (Loaded bytes i → Rejected size (phdrAt bytes i) ∨ SegmentOk size (phdrAt bytes i)) ∧
      (Loaded bytes i ∧ Rejected size (phdrAt bytes i) ∨ HeadersOk bytes size left (i + 1))

/-- The image is too small, or `elf_validate` turns it down, or its headers are in order, with a
segment that is rejected or segments that all have the memory that they need. -/
def ImageOk : Prop :=
  image.length < ehdrSize ∨ elfValidate (imageBytes image) image.length = false ∨
    HeadersOk (imageBytes image) image.length (ePhnum (imageBytes image)) 0 ∧
      ((∃ i, i < ePhnum (imageBytes image) ∧ Loaded (imageBytes image) i ∧
          Rejected image.length (phdrAt (imageBytes image) i)) ∨
        ∀ i, i < ePhnum (imageBytes image) → Loaded (imageBytes image) i →
          Sized (phdrAt (imageBytes image) i))

/-! ## Reads within the image -/
section
variable {image : List UInt8}
lemma byteAt_of_lt (ot : ℕ → UInt8) {offset : ℕ} (h : offset < image.length) :
    byteAt image ot offset = imageBytes image offset := by
  have hlt : offset % 2 ^ 64 < image.length := Nat.lt_of_le_of_lt (mod_le _ _) h
  simp only [imageBytes, byteAt, List.getD_eq_getElem?_getD, List.getElem?_eq_getElem hlt,
    Option.getD_some]

lemma word_of_lt (ot : ℕ → UInt8) {offset length : ℕ} (h : offset + length ≤ image.length) :
    word (byteAt image ot) offset length = word (imageBytes image) offset length := by
  unfold word
  congr 1
  refine map_congr_left fun k hk => ?_
  have := mem_range.1 hk
  exact byteAt_of_lt ot (by omega)

variable (hsize : ehdrSize ≤ image.length) (o : ℕ → UInt8)
include hsize
lemma ePhoff_byteAt : ePhoff (byteAt image o) = ePhoff (imageBytes image) :=
  word_of_lt o (by rw [ehdrSize] at hsize; omega)

lemma ePhnum_byteAt : ePhnum (byteAt image o) = ePhnum (imageBytes image) :=
  word_of_lt o (by rw [ehdrSize] at hsize; omega)

lemma elfValidate_byteAt : elfValidate (byteAt image o) image.length =
    elfValidate (imageBytes image) image.length := by
  rw [ehdrSize] at hsize
  unfold elfValidate fieldsValid
  rw [ePhoff_byteAt hsize, ePhnum_byteAt hsize, word_of_lt o (by omega),
    word_of_lt o (by omega), word_of_lt o (by omega), word_of_lt o (by omega),
    byteAt_of_lt o (by omega), byteAt_of_lt o (by omega), byteAt_of_lt o (by omega),
    byteAt_of_lt o (by omega), byteAt_of_lt o (by omega), byteAt_of_lt o (by omega)]

lemma phdrOffset_byteAt (i : ℕ) :
    phdrOffset (byteAt image o) i = phdrOffset (imageBytes image) i := by
  rw [phdrOffset, phdrOffset, ePhoff_byteAt hsize]

lemma phdr_byteAt {i : ℕ} (h : phdrOffset (imageBytes image) i + phdrSize ≤ image.length) :
    pType (byteAt image o) i = pType (imageBytes image) i ∧
      phdrAt (byteAt image o) i = phdrAt (imageBytes image) i := by
  rw [phdrSize] at h
  constructor
  · rw [pType, pType, phdrOffset_byteAt hsize, word_of_lt o (by omega)]
  unfold phdrAt
  rw [phdrOffset_byteAt hsize, word_of_lt o (by omega), word_of_lt o (by omega),
    word_of_lt o (by omega), word_of_lt o (by omega), word_of_lt o (by omega)]
end

/-! ## One segment -/
section
variable {s : ℕ} {p : Phdr}
lemma segmentAccesses_rejected (e : Env) (i : ℕ) (hmem : p.memsz ≠ 0) (h : Rejected s p) :
    segmentAccesses e s i p = ([], false) := by
  rw [segmentAccesses, if_neg hmem]
  by_cases hf : s < (p.offset + p.filesz).toNat
  · rw [if_pos hf]
  rw [if_neg hf]
  cases ha : e.alloc i p.totalPages.toNat with
  | none => rfl
  | some page =>
    have := e.alloc_fits i _ page ha
    rcases h with h | h | h
    · exact absurd h hf
    · omega
    · omega

lemma mem_segmentAccesses {e : Env} {i : ℕ} {a : Access}
    (ha : a ∈ (segmentAccesses e s i p).1) : ∃ page, a ∈ placeAccesses p page (e.mapped i) := by
  rw [segmentAccesses] at ha
  by_cases hmem : p.memsz = 0
  · simp [if_pos hmem] at ha
  by_cases hf : s < (p.offset + p.filesz).toNat
  · rw [if_neg hmem, if_pos hf] at ha
    exact absurd ha not_mem_nil
  rw [if_neg hmem, if_neg hf] at ha
  cases hal : e.alloc i p.totalPages.toNat with
  | none => simp [hal] at ha
  | some page =>
    by_cases hr : e.register i
    · rw [hal] at ha
      dsimp only at ha
      rw [if_pos hr] at ha
      exact ⟨page, ha⟩
    · simp [hal, hr] at ha

lemma placeAccesses_safe (h : SegmentOk s p) (pg m : ℕ) : ∀ a ∈ placeAccesses p pg m, a.Safe s := by
  obtain ⟨hf, hr, hl⟩ := h
  intro a ha
  rcases mem_cons.1 ha with rfl | ha
  · intro k hk
    omega
  rcases mem_cons.1 ha with rfl | ha
  · intro k hk
    omega
  rcases mem_cons.1 ha with rfl | ha
  · intro k hk
    omega
  obtain ⟨k, hk, rfl⟩ := mem_map.1 ha
  have hlt : k < p.totalPages.toNat := Nat.lt_of_lt_of_le (mem_range.1 hk) (Nat.min_le_right _ _)
  have : (k + 1) * 4096 ≤ p.totalPages.toNat * pageSize := Nat.mul_le_mul_right 4096 hlt
  have : userLimit = 2 ^ 47 := by decide
  rw [Access.Safe, toNat_pageAt (by omega)]
  omega

lemma segmentAccesses_safe (e : Env) (i : ℕ) (h : SegmentOk s p) :
    ∀ a ∈ (segmentAccesses e s i p).1, a.Safe s := by
  intro a ha
  obtain ⟨page, hmem⟩ := mem_segmentAccesses ha
  exact placeAccesses_safe h page _ a hmem

/-- A load that gets all it asks for. -/
def generous : Env where
  outside := fun _ => 0
  alloc := fun _ n => if 0 < n ∧ n < pageLimit then some 1 else none
  alloc_fits := by
    intro i n page h
    split_ifs at h with hn
    cases h
    omega
  register := fun _ => true
  mapped := fun _ => pageLimit

lemma segmentAccesses_generous (i : ℕ) (hmem : p.memsz ≠ 0) (h : ¬ Rejected s p) :
    segmentAccesses generous s i p = (placeAccesses p 1 pageLimit, true) := by
  rw [Rejected, not_or, not_or] at h
  obtain ⟨hf, hp, hl⟩ := h
  have ha : generous.alloc i p.totalPages.toNat = some 1 := if_pos (by omega)
  have hma : generous.mapped i = pageLimit := rfl
  have hr : generous.register i = true := rfl
  rw [segmentAccesses, if_neg hmem, if_neg hf, ha]
  dsimp only
  rw [if_pos hr, hma, decide_eq_true (by omega)]

lemma toNat_pageOffset_lt (p : Phdr) : p.pageOffset.toNat < 4096 := by
  have hle : pageAlignDown p.vaddr ≤ p.vaddr := by
    rw [UInt64.le_iff_toNat_le, toNat_pageAlignDown]
    omega
  rw [Phdr.pageOffset, UInt64.toNat_sub_of_le _ _ hle, toNat_pageAlignDown]
  omega

lemma read_le_size {offset length : ℕ} (hsize : s < 2 ^ 64) (hoff : offset ≤ s)
    (h : (Access.read offset length).Safe s) : offset + length ≤ s := by
  by_contra hlt
  have he := h (s - offset) (by omega)
  rw [show offset + (s - offset) = s by omega, mod_eq_of_lt hsize] at he
  omega

lemma pages_lt_word {base c : ℕ} (hb : base < 2 ^ 47) (hcount : c < 2 ^ 22) :
    base + c * 4096 < 2 ^ 64 := by
  omega

lemma page_end_le {b n l : ℕ} (hb : b = n / 4096 * 4096)
    (h : b + l * 4096 < 2 ^ 47) : b + (l + 1) * 4096 ≤ 2 ^ 47 := by
  omega

lemma segmentOk_of_safe (hsize : s < 2 ^ 64) (i : ℕ) (hmem : p.memsz ≠ 0) (h : ¬ Rejected s p)
    (hsa : ∀ a ∈ (segmentAccesses generous s i p).1, a.Safe s) : SegmentOk s p := by
  rw [segmentAccesses_generous i hmem h] at hsa
  rw [Rejected, not_or, not_or] at h
  obtain ⟨hfl, hpa, hli⟩ := h
  have hr := hsa _ (.tail _ (.head _))
  have hwr := hsa _ (.tail _ (.tail _ (.head _)))
  have hmap : ∀ k, k < p.totalPages.toNat →
      (pageAt (pageAlignDown p.vaddr) k).toNat < userLimit := by
    intro k hk
    refine hsa (.map _) (.tail _ (.tail _ (.tail _ (mem_map.2 ⟨k, ?_, rfl⟩))))
    exact mem_range.2 (by omega)
  have hsi : pageSize = 4096 ∧ userLimit = 2 ^ 47 ∧ pageLimit = 2 ^ 22 := by decide
  obtain ⟨hp, hl, hmax⟩ := hsi
  refine ⟨?_, ?_, ?_⟩
  · by_cases hz : p.filesz.toNat = 0
    · rw [UInt64.toNat_add, hz] at hfl
      have := p.offset.toNat_lt
      omega
    · have hf := hr 0 (by omega)
      have := p.offset.toNat_lt
      rw [Nat.add_zero, mod_eq_of_lt this] at hf
      exact read_le_size hsize (by omega) hr
  · have hoff := toNat_pageOffset_lt p
    by_cases hz : p.filesz.toNat = 0
    · rw [hp]
      omega
    · have hla := hwr (p.filesz.toNat - 1) (by omega)
      omega
  obtain ⟨last, hcount⟩ : ∃ last, p.totalPages.toNat = last + 1 := ⟨_, (succ_pred hpa).symm⟩
  have hf := hmap 0 (by omega)
  have hla := hmap last (by omega)
  rw [toNat_pageAt (by have := (pageAlignDown p.vaddr).toNat_lt; omega)] at hf
  rw [Nat.zero_mul, Nat.add_zero, hl] at hf
  rw [toNat_pageAt (pages_lt_word hf (by omega)), hl] at hla
  rw [hp, hl, hcount]
  exact page_end_le (toNat_pageAlignDown p.vaddr) hla
end

/-! ## The loop over the headers -/
section
variable {image : List UInt8} (hsize : ehdrSize ≤ image.length)
include hsize
/-- Headers in order: every access is safe, and after a load that succeeds every header lies
within the file and every segment is in order. -/
lemma headerAccesses_safe (e : Env) (left i : ℕ)
    (h : HeadersOk (imageBytes image) image.length left i) :
    (∀ a ∈ (headerAccesses e (byteAt image e.outside) image.length left i).1, a.Safe image.length) ∧
      ((headerAccesses e (byteAt image e.outside) image.length left i).2 = true →
        ∀ j, i ≤ j → j < i + left → phdrOffset (imageBytes image) j + phdrSize ≤ image.length ∧
          (Loaded (imageBytes image) j → ¬ Rejected image.length (phdrAt (imageBytes image) j) ∧
            SegmentOk image.length (phdrAt (imageBytes image) j))) := by
  induction left generalizing i with
  | zero =>
    refine ⟨by simp [headerAccesses], fun _ j hle hlt => ?_⟩
    omega
  | succ left ih =>
    obtain ⟨hin, hseg, hre⟩ := h
    obtain ⟨ht, hp⟩ := phdr_byteAt hsize e.outside hin
    have hh : (Access.read (phdrOffset (byteAt image e.outside) i) phdrSize).Safe image.length := by
      rw [phdrOffset_byteAt hsize]
      intro k hk
      omega
    rw [headerAccesses, ht, hp]
    dsimp only
    by_cases hlo : pType (imageBytes image) i = ptLoad
    · rw [if_neg (not_not.2 hlo)]
      by_cases hrej : Loaded (imageBytes image) i ∧
          Rejected image.length (phdrAt (imageBytes image) i)
      · rw [segmentAccesses_rejected e i hrej.1.2 hrej.2]
        refine ⟨fun a ha => ?_, by simp⟩
        obtain rfl := mem_singleton.1 ha
        exact hh
      · obtain ⟨hsa, hdo⟩ := ih (i + 1) (hre.resolve_left hrej)
        have hsegmentSafe : ∀ a ∈ (segmentAccesses e image.length i
            (phdrAt (imageBytes image) i)).1, a.Safe image.length := by
          by_cases hmem : (phdrAt (imageBytes image) i).memsz = 0
          · simp [segmentAccesses, hmem]
          · exact segmentAccesses_safe e i ((hseg ⟨hlo, hmem⟩).resolve_left
              fun hr => hrej ⟨⟨hlo, hmem⟩, hr⟩)
        split_ifs with hok
        · refine ⟨fun a ha => ?_, fun hres j hle hlt => ?_⟩
          · rcases mem_cons.1 ha with rfl | ha
            · exact hh
            · exact (mem_append.1 ha).elim (hsegmentSafe a) (hsa a)
          · rcases Nat.eq_or_lt_of_le hle with rfl | hla
            · exact ⟨hin, fun hl => ⟨fun hr => hrej ⟨hl, hr⟩,
                (hseg hl).resolve_left fun hr => hrej ⟨hl, hr⟩⟩⟩
            · exact hdo hres j hla (by omega)
        · refine ⟨fun a ha => ?_, by simp⟩
          rcases mem_cons.1 ha with rfl | ha
          · exact hh
          · exact hsegmentSafe a ha
    rw [if_pos hlo]
    have hnot : ¬ Loaded (imageBytes image) i := fun hl => hlo hl.1
    obtain ⟨hsa, hdo⟩ := ih (i + 1) (hre.resolve_left fun hr => hnot hr.1)
    refine ⟨fun a ha => ?_, fun hres j hle hlt => ?_⟩
    · rcases mem_cons.1 ha with rfl | ha
      · exact hh
      · exact hsa a ha
    rcases Nat.eq_or_lt_of_le hle with rfl | hla
    · exact ⟨hin, fun hl => absurd hl hnot⟩
    · exact hdo hres j hla (by omega)

omit hsize in
/-- The generous load makes every access that can be made: when it is safe, the headers are in
order, and it fails only when a segment is rejected. -/
lemma headersOk_of_safe (hwo : image.length < 2 ^ 64) (left i : ℕ)
    (hsa : ∀ a ∈ (headerAccesses generous (imageBytes image) image.length left i).1,
      a.Safe image.length) : HeadersOk (imageBytes image) image.length left i ∧
      ((∀ j, i ≤ j → j < i + left → Loaded (imageBytes image) j →
          ¬ Rejected image.length (phdrAt (imageBytes image) j)) →
        (headerAccesses generous (imageBytes image) image.length left i).2 = true) := by
  induction left generalizing i with
  | zero => exact ⟨trivial, fun _ => rfl⟩
  | succ left ih =>
    rw [headerAccesses] at hsa ⊢
    dsimp only at hsa ⊢
    have hh : (Access.read (phdrOffset (imageBytes image) i) phdrSize).Safe image.length := by
      refine hsa _ ?_
      split_ifs <;> exact .head _
    have hin : phdrOffset (imageBytes image) i + phdrSize ≤ image.length := by
      have hf := hh 0 (by decide)
      rw [Nat.add_zero, phdrOffset, mod_mod] at hf
      exact read_le_size hwo (Nat.le_of_lt hf) hh
    by_cases hlo : pType (imageBytes image) i = ptLoad
    · rw [if_neg (not_not.2 hlo)] at hsa ⊢
      by_cases hrej : Loaded (imageBytes image) i ∧
          Rejected image.length (phdrAt (imageBytes image) i)
      · exact ⟨⟨hin, fun _ => .inl hrej.2, .inl hrej⟩,
          fun hall => absurd hrej.2 (hall i (Nat.le_refl i) (by omega) hrej.1)⟩
      · have hres : (segmentAccesses generous image.length i
            (phdrAt (imageBytes image) i)).2 = true := by
          by_cases hmem : (phdrAt (imageBytes image) i).memsz = 0
          · simp [segmentAccesses, hmem]
          · rw [segmentAccesses_generous i hmem fun hr => hrej ⟨⟨hlo, hmem⟩, hr⟩]
        rw [if_pos hres] at hsa ⊢
        obtain ⟨hok, hdo⟩ := ih (i + 1) fun a ha => hsa a (.tail _ (mem_append_right _ ha))
        refine ⟨⟨hin, fun hl => .inr ?_, .inr hok⟩, fun hall => hdo fun j hle hlt => ?_⟩
        · exact segmentOk_of_safe hwo i hl.2 (fun hr => hrej ⟨hl, hr⟩) fun a ha =>
            hsa a (.tail _ (mem_append_left _ ha))
        · exact hall j (by omega) (by omega)
    rw [if_pos hlo] at hsa ⊢
    have hnot : ¬ Loaded (imageBytes image) i := fun hl => hlo hl.1
    obtain ⟨hok, hdo⟩ := ih (i + 1) fun a ha => hsa a (.tail _ ha)
    exact ⟨⟨hin, fun hl => absurd hl hnot, .inr hok⟩,
      fun hall => hdo fun j hle hlt => hall j (by omega) (by omega)⟩
end

lemma table_le_size {bytes : ℕ → UInt8} {sz : ℕ} (hwo : sz < 2 ^ 64)
    (hp : ePhoff bytes ≤ sz) (c : ℕ) (h : ∀ j, j < c → phdrOffset bytes j + phdrSize ≤ sz) :
    ePhoff bytes + c * phdrSize ≤ sz := by
  induction c with
  | zero => omega
  | succ c ih =>
    have := ih fun j hj => h j (by omega)
    have hl := h c (by omega)
    rw [phdrOffset, mod_eq_of_lt (by omega)] at hl
    rw [succ_mul]
    omega

/-! ## The loader -/

lemma ePhoff_lt : ePhoff bytes < 2 ^ 64 := by
  have h := leNat_lt ((List.range 8).map fun k => bytes (32 + k))
  rw [length_map, length_range] at h
  exact h

/-- What `elf_validate` checks, and what holds of the headers of an image that was loaded. -/
lemma wellFormed_of_headers {image : List UInt8} (hwo : image.length < 2 ^ 64)
    (hsize : ehdrSize ≤ image.length) (hv : elfValidate (imageBytes image) image.length = true)
    (ha : ∀ j, j < ePhnum (imageBytes image) →
      phdrOffset (imageBytes image) j + phdrSize ≤ image.length ∧
        (Loaded (imageBytes image) j → ¬ Rejected image.length (phdrAt (imageBytes image) j) ∧
          SegmentOk image.length (phdrAt (imageBytes image) j)))
    (hsi : ∀ j, j < ePhnum (imageBytes image) → Loaded (imageBytes image) j →
      Sized (phdrAt (imageBytes image) j)) : WellFormed image := by
  rw [elfValidate, Bool.and_eq_true, Bool.and_eq_true] at hv
  have hcount : ePhnum (imageBytes image) ≠ 0 := by
    have := hv.1.2
    rw [fieldsValid, decide_eq_true_iff] at this
    exact this.2.2.2.2.2.2.2.2.2.2.2
  have hp : ePhoff (imageBytes image) ≤ image.length := by
    have hf := (ha 0 (by omega)).1
    rw [phdrOffset, Nat.zero_mul, Nat.add_zero, mod_eq_of_lt (ePhoff_lt _)] at hf
    omega
  exact ⟨hsize, hv.1.2, table_le_size hwo hp _ fun j hj => (ha j hj).1,
    fun j hj hl => ⟨((ha j hj).2 hl).2.1, hsi j hj hl⟩⟩

/-- Every load of an image is safe, and accepts it only when it is well formed, exactly when its
headers are in order. -/
theorem elf_load_safe_iff (image : List UInt8) (hword : image.length < 2 ^ 64) :
    (∀ env, LoadSafe env image) ↔ ImageOk image := by
  constructor
  · intro hlo
    obtain ⟨hsa, hac⟩ := hlo generous
    by_cases hsize : image.length < ehdrSize
    · exact .inl hsize
    refine .inr ?_
    cases hv : elfValidate (imageBytes image) image.length with
    | false => exact .inl rfl
    | true =>
      have hrun : elf64LoadImage generous image =
          (.read 0 ehdrSize :: (headerAccesses generous (imageBytes image) image.length
            (ePhnum (imageBytes image)) 0).1, (headerAccesses generous (imageBytes image)
            image.length (ePhnum (imageBytes image)) 0).2) := by
        rw [elf64LoadImage, if_neg hsize]
        exact if_pos hv
      rw [hrun] at hsa hac
      obtain ⟨hok, hres⟩ := headersOk_of_safe hword _ 0 fun a ha => hsa a (.tail _ ha)
      refine .inr ⟨hok, ?_⟩
      by_cases hrej : ∃ i, i < ePhnum (imageBytes image) ∧ Loaded (imageBytes image) i ∧
          Rejected image.length (phdrAt (imageBytes image) i)
      · exact .inl hrej
      · have hf := hac (hres fun j _ hlt hl hr => hrej ⟨j, by omega, hl, hr⟩)
        exact .inr fun i hi hl => (hf.2.2.2 i hi hl).2
  intro hok env
  by_cases hsize : image.length < ehdrSize
  · rw [LoadSafe, elf64LoadImage, if_pos hsize]
    exact ⟨fun a ha => absurd ha not_mem_nil, fun h => absurd h Bool.false_ne_true⟩
  have he : (Access.read 0 ehdrSize).Safe image.length := by
    intro k hk
    omega
  have hge := Nat.le_of_not_lt hsize
  rw [LoadSafe, elf64LoadImage, if_neg hsize]
  rw [elfValidate_byteAt hge, ePhnum_byteAt hge]
  cases hv : elfValidate (imageBytes image) image.length with
  | false =>
    refine ⟨fun a ha => ?_, fun h => absurd h Bool.false_ne_true⟩
    obtain rfl := mem_singleton.1 ha
    exact he
  | true =>
    obtain ⟨hh, hsi⟩ := (hok.resolve_left hsize).resolve_left (by simp [hv])
    obtain ⟨hsa, hdo⟩ := headerAccesses_safe hge env _ 0 hh
    rw [if_pos rfl]
    refine ⟨fun a ha => ?_, fun hres => ?_⟩
    · rcases mem_cons.1 ha with rfl | ha
      · exact he
      · exact hsa a ha
    have hall := fun j (hj : j < ePhnum (imageBytes image)) => hdo hres j (Nat.zero_le j) (by omega)
    exact wellFormed_of_headers hword hge hv hall
      (hsi.resolve_left fun ⟨i, hi, hl, hr⟩ => ((hall i hi).2 hl).1 hr)

/-- A file with one segment and no content besides the headers. -/
def oneSegment (phoff offset vaddr filesz memsz : ℕ) : List UInt8 :=
  [0x7f, 0x45, 0x4c, 0x46, 2, 1] ++ leBytes 10 0 ++ leBytes 2 2 ++ leBytes 2 62 ++ leBytes 4 1 ++
    leBytes 8 vaddr ++ leBytes 8 phoff ++ leBytes 12 0 ++ leBytes 2 64 ++ leBytes 2 56 ++
    leBytes 2 1 ++ leBytes 6 0 ++
    (leBytes 4 1 ++ leBytes 4 5 ++ leBytes 8 offset ++ leBytes 8 vaddr ++ leBytes 8 vaddr ++
      leBytes 8 filesz ++ leBytes 8 memsz ++ leBytes 8 4096)

theorem elf_load_safe_iff_headers_only : LoadSafe generous (oneSegment 64 0 0x400000 120 120) := by
  refine (elf_load_safe_iff (oneSegment 64 0 0x400000 120 120) (by decide +kernel)).2
    (.inr (.inr ⟨⟨?_, fun _ => .inr ?_, .inr ?_⟩, .inr fun i hi _ => ?_⟩)) generous
  · decide +kernel
  · exact ⟨by decide +kernel, by decide +kernel, by decide +kernel⟩
  · trivial
  obtain rfl : i = 0 := by
    have : ePhnum (imageBytes (oneSegment 64 0 0x400000 120 120)) = 1 := by decide +kernel
    omega
  exact ⟨by decide +kernel, by decide +kernel⟩

lemma not_loadSafe {image : List UInt8} (a : Access)
    (ha : a ∈ (elf64LoadImage generous image).1) (hsa : ¬ a.Safe image.length) :
    ¬ LoadSafe generous image :=
  fun h => hsa (h.1 a ha)

/-- A program header in front of the image is read, content in front of the image is copied, a
byte is copied beyond the only page of a segment, and a page of the kernel half is mapped. -/
theorem one_segment_loads_not_safe : ¬ LoadSafe generous (oneSegment (2 ^ 64 - 56) 0 0x400000 0 1) ∧
      ¬ LoadSafe generous (oneSegment 64 (2 ^ 64 - 8) 0x400000 8 8) ∧
      ¬ LoadSafe generous (oneSegment 64 0 0x400fff 2 1) ∧
      ¬ LoadSafe generous (oneSegment 64 0 0xffffffff80000000 0 1) := by
  refine ⟨not_loadSafe (.read (2 ^ 64 - 56) phdrSize) (by decide +kernel) fun h => ?_,
    not_loadSafe (.read (2 ^ 64 - 8) 8) (by decide +kernel) fun h => ?_,
    not_loadSafe (.write 4096 4096 (4096 + 4095) 2) (by decide +kernel) fun h => ?_,
    not_loadSafe (.map 0xffffffff80000000) (by decide +kernel) fun h => ?_⟩
  · exact absurd (h 0 (by decide)) (by decide +kernel)
  · exact absurd (h 0 (by decide)) (by decide +kernel)
  · exact absurd (h 1 (by decide)) (by decide)
  · exact absurd (show (0xffffffff80000000 : UInt64).toNat < userLimit from h) (by decide)
end Menios.User.Elf
