import Menios.Block.Device

/-!
# The range check of block devices

The addresses that `block_device_read`, `block_device_write` and
`block_device_readahead` hand to `bread` or `bget`
(`src/kernel/block/block_device.c`), and those of `gpt_read_entry`
(`src/kernel/fs/fat32/fat32.c`, lines 262-290).

**Defect.** Both calls compare `lba + block_count` with the size of the device in 64
bits. A sum that wraps passes, and the loop asks for blocks beyond the device.

Results:
* `blockDevice_lbas_iff`: when the addresses are those of blocks of the device.
-/

namespace Menios.Block
open Common List
variable (sys : System)
/-! ## Model -/

/-- What a loop over `n` blocks from `lba` on hands to the cache, one address a turn.
The turn that fails is the last. -/
def handed {σ : Type} (turn : σ → ℕ → Option σ) : σ → ℕ → ℕ → List ℕ
  | _, _, 0 => []
  | s, lba, n + 1 =>
    lba :: match turn s lba with
      | none => []
      | some s => handed turn s ((lba + 1) % 2 ^ 64) n

namespace World
/-- A turn of the loops of `block_device_read` and `block_device_readahead`. -/
def readTurn (dev : DevPtr) (w : World) (lba : ℕ) : Option World :=
  match w.bread sys dev lba with
  | some (w, some i) => some (w.brelse i)
  | _ => none

/-- A turn of the loop of `block_device_write`, with the rest of the buffer. -/
def writeTurn (dev : DevPtr) : World × Buffer → ℕ → Option (World × Buffer)
  | (w, src), lba =>
    let blockSize := (sys.device dev).blockSize
    match w.bget sys dev lba with
    | some (w, some i) =>
      some (((w.storeBlock i blockSize src).bdirty sys i).brelse i, fun k => src (blockSize + k))
    | _ => none

/-- The addresses of `blockDeviceReadahead`. -/
def readaheadLbas (w : World) (dev : DevPtr) (startLba window : ℕ) : List ℕ :=
  if dev = 0 ∨ (sys.device dev).readBlocks = false then []
  else if startLba ≥ (sys.device dev).blockCount then []
  else
    let remaining := (sys.device dev).blockCount - startLba
    handed (readTurn sys dev) w startLba (if window < remaining then window else remaining % 2 ^ 32)

/-- The addresses of `blockDeviceRead`. -/
def readLbas (w : World) (dev : DevPtr) (lba blockCount : ℕ) : List ℕ :=
  if blockDeviceValidate sys dev = false ∨ blockCount = 0 then []
  else if (lba + blockCount) % 2 ^ 64 > (sys.device dev).blockCount then []
  else
    let (lastLba, lastCount) := w.readahead dev
    let sequential := lastCount > 0 ∧ lastLba ≠ 2 ^ 64 - 1 ∧ lba = (lastLba + lastCount) % 2 ^ 64
    handed (readTurn sys dev) w lba blockCount ++
      match readLoop sys dev w lba blockCount with
      | some (w, some _) =>
        let w := { w with readahead := Function.update w.readahead dev (lba, blockCount % 2 ^ 32) }
        if sequential ∨ blockCount > 1 then
          w.readaheadLbas sys dev ((lba + blockCount) % 2 ^ 64) readaheadWindow
        else []
      | _ => []

/-- The addresses of `blockDeviceWrite`. -/
def writeLbas (w : World) (dev : DevPtr) (lba : ℕ) (buffer : Buffer) (blockCount : ℕ) : List ℕ :=
  if dev = 0 ∨ blockCount = 0 then []
  else if (sys.device dev).writeBlocks = false then []
  else if (lba + blockCount) % 2 ^ 64 > (sys.device dev).blockCount then []
  else handed (writeTurn sys dev) (w, buffer) lba blockCount
end World

/-- The fields of `gpt_header_t` that `gpt_read_entry` reads. -/
structure GptHeader where
  partitionEntriesLba : ℕ
  numberOfPartitionEntries : ℕ
  sizeOfPartitionEntry : ℕ

/-- `entry_lba` of `gpt_read_entry` (lines 267-276). -/
def gptEntryLba (dev : DevPtr) (header : GptHeader) (index : ℕ) : Option ℕ :=
  if index ≥ header.numberOfPartitionEntries then none
  else
    let entriesPerBlock := (sys.device dev).blockSize / header.sizeOfPartitionEntry
    if entriesPerBlock = 0 then none
    else some ((header.partitionEntriesLba + index / entriesPerBlock) % 2 ^ 64)

/-- The addresses of `gpt_read_entry`. -/
def gptReadEntryLbas (w : World) (dev : DevPtr) (header : GptHeader) (index : ℕ) : List ℕ :=
  match gptEntryLba sys dev header index with
  | none => []
  | some lba => w.readLbas sys dev lba 1

/-! ## Results -/

/-- The addresses are those of blocks of the device. -/
def InDevice (dev : DevPtr) (lbas : List ℕ) : Prop := ∀ x ∈ lbas, x < (sys.device dev).blockCount

/-- `bread` or `bget` gives a buffer for each of `n` blocks from `lba` on. -/
def succeeds {σ : Type} (turn : σ → ℕ → Option σ) : σ → ℕ → ℕ → Bool
  | _, _, 0 => true
  | s, lba, n + 1 =>
    match turn s lba with
    | none => false
    | some s => succeeds turn s ((lba + 1) % 2 ^ 64) n

/-- If the range check lets the call pass, its sum does not wrap, or the first block is one of
the device and `bread` or `bget` fails for that or a later block of the device. -/
def Fits {σ : Type} (turn : σ → ℕ → Option σ) (s : σ) (dev : DevPtr) (lba n : ℕ) : Prop :=
  let count := (sys.device dev).blockCount
  n ≠ 0 → (lba + n) % 2 ^ 64 ≤ count →
    lba + n < 2 ^ 64 ∨ lba < count ∧ succeeds turn s lba (count - lba) = false

section
variable {σ : Type} (t : σ → ℕ → Option σ) {c : ℕ} (hcount : c < 2 ^ 64)
include hcount
lemma handed_lt (s : σ) {l n : ℕ} (h : l + n ≤ c) : ∀ x ∈ handed t s l n, x < c := by
  induction n generalizing s l with
  | zero => nofun
  | succ n ih =>
    rw [handed, forall_mem_cons]
    refine ⟨by omega, ?_⟩
    cases t s l with
    | none => nofun
    | some s => exact ih s (by rw [Nat.mod_eq_of_lt (by omega)]; omega)

/-- The addresses go up one by one, so they stay below `count` if there are few of them, or if a
turn fails before `count` is reached. -/
lemma handed_lt_iff (s : σ) (lba n : ℕ) : (∀ x ∈ handed t s lba (n + 1), x < c) ↔
      lba + (n + 1) ≤ c ∨ lba < c ∧ succeeds t s lba (c - lba) = false := by
  induction n generalizing s lba with
  | zero =>
    rw [handed, forall_mem_cons]
    refine ⟨fun h => .inl h.1, fun h => ⟨by omega, ?_⟩⟩
    cases t s lba <;> nofun
  | succ n ih =>
    by_cases hlba : lba < c
    · obtain ⟨rest, hrest⟩ : ∃ rest, c - lba = rest + 1 := ⟨c - lba - 1, by omega⟩
      rw [handed, forall_mem_cons, hrest, succeeds]
      cases t s lba with
      | none => simp [hlba]
      | some s =>
        have hmod : (lba + 1) % 2 ^ 64 = lba + 1 := Nat.mod_eq_of_lt (by omega)
        simp only [hmod, ih s, hlba, true_and, show c - (lba + 1) = rest by omega]
        cases rest with
        | zero => simp only [succeeds, Bool.true_eq_false, and_false, or_false]; omega
        | succ rest =>
          rw [and_iff_right (by omega : lba + 1 < c)]
          exact or_congr_left (by omega)
    · refine iff_of_false (fun h => hlba (h lba ?_)) (by omega)
      rw [handed]
      exact mem_cons_self
end

section
variable {dev : DevPtr} (hcount : (sys.device dev).blockCount < 2 ^ 64) (w : World)
include hcount
lemma inDevice_handed_iff {σ : Type} (tr : σ → ℕ → Option σ) (s : σ) {l n : ℕ} (hn : n ≠ 0)
    (hc : ¬ (l + n) % 2 ^ 64 > (sys.device dev).blockCount) :
    InDevice sys dev (handed tr s l n) ↔ Fits sys tr s dev l n := by
  obtain ⟨n, rfl⟩ := Nat.exists_eq_succ_of_ne_zero hn
  have hle := not_lt.1 hc
  rw [InDevice, handed_lt_iff tr hcount s l n]
  refine ⟨fun h _ _ => h.imp_left (by omega), fun h => (h hn hle).imp_left fun hlt => ?_⟩
  rwa [Nat.mod_eq_of_lt hlt] at hle

lemma inDevice_readaheadLbas (s wn : ℕ) : InDevice sys dev (w.readaheadLbas sys dev s wn) := by
  rw [World.readaheadLbas]
  split_ifs with hdev hst
  · nofun
  · nofun
  refine handed_lt _ hcount w ?_
  split_ifs <;> omega

lemma inDevice_readLbas_iff (l n : ℕ) :
    InDevice sys dev (w.readLbas sys dev l n) ↔ (World.blockDeviceValidate sys dev = true →
      Fits sys (World.readTurn sys dev) w dev l n) := by
  rw [World.readLbas]
  split_ifs with hb hc
  · refine iff_of_true nofun fun hv hn => absurd hb ?_
    simp [hv, hn]
  · exact iff_of_true nofun fun _ _ h => absurd hc h.not_gt
  rw [not_or, Bool.not_eq_false] at hb
  rw [← inDevice_handed_iff sys hcount _ w hb.2 hc]
  simp only [InDevice, forall_mem_append, hb.1, true_imp_iff]
  refine and_iff_left ?_
  split
  · split_ifs
    · exact inDevice_readaheadLbas sys hcount _ _ _
    · nofun
  · nofun

/-- The calls hand addresses of the device to the cache, unless the sum of the range check
wraps and no `bread` or `bget` fails before the end of the device. Read-ahead stays in the device, and `gpt_read_entry`
leaves it exactly for the address `UINT64_MAX`. -/
theorem blockDevice_lbas_iff (lba n : ℕ) (buffer : Buffer) :
    (InDevice sys dev (w.readLbas sys dev lba n) ↔ (World.blockDeviceValidate sys dev = true →
      Fits sys (World.readTurn sys dev) w dev lba n)) ∧
    (InDevice sys dev (w.writeLbas sys dev lba buffer n) ↔
      (dev ≠ 0 → (sys.device dev).writeBlocks = true →
        Fits sys (World.writeTurn sys dev) (w, buffer) dev lba n)) ∧
    (∀ startLba window, InDevice sys dev (w.readaheadLbas sys dev startLba window)) ∧
    ∀ header index, InDevice sys dev (gptReadEntryLbas sys w dev header index) ↔
      (World.blockDeviceValidate sys dev = true →
        gptEntryLba sys dev header index ≠ some (2 ^ 64 - 1)) := by
  refine ⟨inDevice_readLbas_iff sys hcount w lba n, ?_, inDevice_readaheadLbas sys hcount w,
    fun header index => ?_⟩
  · rw [World.writeLbas]
    split_ifs with hb hops hc
    · exact iff_of_true nofun fun hd _ hn => absurd hb (not_or.2 ⟨hd, hn⟩)
    · exact iff_of_true nofun fun _ h => absurd (hops.symm.trans h) nofun
    · exact iff_of_true nofun fun _ _ _ h => absurd hc h.not_gt
    · rw [not_or] at hb
      rw [inDevice_handed_iff sys hcount _ _ hb.2 hc]
      exact ⟨fun h _ _ => h, fun h => h hb.1 ((Bool.not_eq_false _).mp hops)⟩
  rw [gptReadEntryLbas]
  cases he : gptEntryLba sys dev header index with
  | none => exact iff_of_true nofun fun _ => nofun
  | some lba =>
    have hlt : lba < 2 ^ 64 := by
      simp only [gptEntryLba] at he
      split_ifs at he
      cases he
      exact Nat.mod_lt _ (by decide)
    rw [inDevice_readLbas_iff sys hcount]
    refine forall_congr' fun _ => ?_
    by_cases hmax : lba = 2 ^ 64 - 1
    · refine iff_of_false (fun h => ?_) fun h => h (congrArg some hmax)
      have := h (by decide) (by rw [hmax]; exact Nat.zero_le _)
      omega
    · exact iff_of_true (fun _ _ => .inl (by omega)) fun h => hmax (Option.some.inj h)
end

/-- A device of four blocks. -/
def fourBlocks : System where
  device _ := ⟨512, 4, true, true, true⟩
  driver _ _ := true

/-- The first two blocks are read. -/
theorem blockDevice_lbas_iff_two :
    InDevice fourBlocks 1 ((World.initial fun _ _ _ => 0).readLbas fourBlocks 1 0 2) :=
  (blockDevice_lbas_iff fourBlocks (by decide) _ 0 2 fun _ => 0).1.2 fun _ _ _ => .inl (by decide)

/-- A partition table that starts at the last address. -/
theorem gptReadEntry_beyond_device :
    2 ^ 64 - 1 ∈ gptReadEntryLbas fourBlocks (World.initial fun _ _ _ => 0) 1
      ⟨2 ^ 64 - 1, 128, 128⟩ 0 :=
  mem_append_left _ mem_cons_self
end Menios.Block
