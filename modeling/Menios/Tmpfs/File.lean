import Menios.Common.Errno

/-!
# Files of tmpfs

Model of the handles of one regular file of `src/kernel/fs/tmpfs/tmpfs.c` (lines 545-662 and
763-870), called through `file_read`, `file_write` and `file_seek`
(`src/kernel/fs/core/file.c`, lines 354-434). The file is not unlinked, times are left out, and
allocation succeeds; what a new block holds beyond the bytes of the old one is an input of the
write. A copy beyond the block, or a loop that does not end, has no result. A user buffer is
written in chunks, each by one call.

**Defect.** `tmpfs_write_impl` does not clear the bytes between the end of the file and the
offset of the write. After a seek beyond the end, or a truncation through another handle, they
are what the heap block held before. A write that ends beyond `2^63` doubles the capacity to 0
and never returns.

Results:

* `reserve_spec`: the capacity after `tmpfs_reserve`.
* `dense_file_is_bytes`: the file is the bytes written to it in every run in which no write
  starts beyond its end.
* `gap_shows_heap`: a read that returns bytes that nobody wrote.
* `write_returns_iff`: when a write ends.
-/

namespace Menios.Tmpfs
open List Option

/-- `ENOENT`. -/
def enoent : ℤ := 2

/-- `EEXIST`. -/
def eexist : ℤ := 17

/-- The contents of a `tmpfs_node_t`. -/
structure Node where
  data : ℕ → UInt8
  size : ℕ
  capacity : ℕ

/-- `tmpfs_file_state_t` with the mode of its file. -/
structure Handle where
  offset : ℕ
  append : Bool
  canRead : Bool
  canWrite : Bool

/-- The flags of `open`. -/
structure OpenFlags where
  create : Bool
  exclusive : Bool
  trunc : Bool
  append : Bool
  canRead : Bool
  canWrite : Bool

/-- `whence`. -/
inductive Whence
  | set | cur | end_
  deriving DecidableEq

namespace Node
/-- A new node (lines 98-122), or one that `tmpfs_open` truncates (lines 826-832). -/
def empty (data : ℕ → UInt8) : Node := ⟨data, 0, 0⟩

/-- The loop of `tmpfs_reserve` (lines 587-589). Doubling more than 64 times gives 0 for ever. -/
def double (newCapacity : ℕ) : ℕ → ℕ → Option ℕ
  | 0, _ => none
  | fuel + 1, alloc =>
    if alloc < newCapacity then double newCapacity fuel (alloc * 2 % 2 ^ 64) else some alloc

/-- `tmpfs_reserve` (lines 581-598). `junk`: what the new block holds beyond the old bytes. -/
def reserve (n : Node) (newCapacity : ℕ) (junk : ℕ → UInt8) : Option Node :=
  if newCapacity ≤ n.capacity then some n
  else
    (double newCapacity 66 (if n.capacity = 0 then 256 else n.capacity)).map fun alloc =>
      { n with data := fun i => if i < n.capacity then n.data i else junk i, capacity := alloc }

/-- `memcpy` into the block. -/
def copy (data : ℕ → UInt8) (offset : ℕ) (bytes : List UInt8) : ℕ → UInt8 :=
  fun i => if offset ≤ i then bytes.getD (i - offset) (data i) else data i

/-- The part of `tmpfs_write_impl` from line 623 on, at `offset`. -/
def writeAt (n : Node) (offset : ℕ) (bytes : List UInt8) (junk : ℕ → UInt8) : Option Node :=
  let stop := (offset + bytes.length) % 2 ^ 64
  match n.reserve stop junk with
  | none => none
  | some n =>
    if n.capacity < offset + bytes.length then none
    else
      some { n with
        data := copy n.data offset bytes
        size := if n.size < stop then stop else n.size }

/-- The bytes that `tmpfs_read_impl` (lines 545-579) copies. -/
def readAt (n : Node) (offset length : ℕ) : List UInt8 :=
  if n.size ≤ offset then []
  else (range (min length (n.size - offset))).map fun i => n.data (offset + i)
end Node

/-- What the users of the file did: the byte last written at each place since the last
truncation, and the largest end of a write since then. -/
structure History where
  written : ℕ → Option UInt8
  extent : ℕ

namespace History
/-- Nothing was written. -/
def none : History := ⟨fun _ => Option.none, 0⟩

/-- Bytes are written at a place. -/
def write (h : History) (offset : ℕ) (bytes : List UInt8) : History where
  written i := if offset ≤ i ∧ i < offset + bytes.length then bytes[i - offset]? else h.written i
  extent := if bytes = [] then h.extent else max h.extent (offset + bytes.length)

/-- The byte at a place. -/
def byte (h : History) (i : ℕ) : UInt8 := (h.written i).getD 0

/-- The bytes that a read finds. -/
def read (h : History) (offset length : ℕ) : List UInt8 :=
  (range (min length (h.extent - offset))).map fun i => h.byte (offset + i)
end History

/-- The file, its handles, and beside them what was done to the file. -/
structure TmpfsFile (ι : Type*) where
  node : Option Node
  handles : ι → Option Handle
  history : History

/-- The calls. -/
inductive TmpfsStep (ι : Type*)
  | open_ (h : ι) (flags : OpenFlags)
  | read (h : ι) (length : ℕ)
  | write (h : ι) (bytes : List UInt8) (junk : ℕ → UInt8)
  | seek (h : ι) (offset : ℤ) (whence : Whence)
  | close (h : ι)

/-- What a call gives back. -/
inductive Reply
  | value (rc : ℤ)
  | bytes (l : List UInt8)
  deriving DecidableEq

namespace TmpfsFile
variable {ι : Type*} [DecidableEq ι]
/-- The handle that `tmpfs_open` makes (lines 841-852). -/
def newHandle (n : Node) (flags : OpenFlags) : Handle :=
  ⟨if flags.append then n.size else 0, flags.append, flags.canRead, flags.canWrite⟩

variable (s : TmpfsFile ι)
/-- A handle is opened, moved or closed. -/
def setHandle (h : ι) (handle : Option Handle) : TmpfsFile ι :=
  { s with handles := Function.update s.handles h handle }

/-- `tmpfs_open` (lines 763-870). -/
def openFile (h : ι) (flags : OpenFlags) : TmpfsFile ι × Reply :=
  match s.node with
  | none =>
    if flags.create then
      let n := Node.empty fun _ => 0
      ({ s with node := some n, history := .none }.setHandle h (some (newHandle n flags)), .value 0)
    else (s, .value (-enoent))
  | some n =>
    if flags.create = true ∧ flags.exclusive = true then (s, .value (-eexist))
    else if flags.trunc then
      let n := Node.empty n.data
      ({ s with node := some n, history := .none }.setHandle h (some (newHandle n flags)), .value 0)
    else
      (s.setHandle h (some (newHandle n flags)), .value 0)

/-- The offset at which a write starts (lines 619-621). -/
def writeOffset (n : Node) (h : Handle) : ℕ := if h.append then n.size else h.offset

/-- The position that `tmpfs_seek_impl` counts from (lines 646-656). -/
def seekBase (n : Node) (handle : Handle) : Whence → ℕ
  | .set => 0
  | .cur => handle.offset
  | .end_ => n.size

/-- One call through a handle that is open, or opening one that is not. -/
def step : TmpfsStep ι → Option (TmpfsFile ι × Reply)
  | .open_ h flags =>
    match s.handles h with
    | none => some (s.openFile h flags)
    | some _ => none
  | .read h length =>
    match s.node, s.handles h with
    | some n, some handle =>
      if length = 0 then some (s, .bytes [])
      else if handle.canRead = false then some (s, .value (-ebadf))
      else
        let bytes := n.readAt handle.offset length
        some (s.setHandle h (some { handle with offset := handle.offset + bytes.length }),
          .bytes bytes)
    | _, _ => none
  | .write h bytes junk =>
    match s.node, s.handles h with
    | some n, some handle =>
      if handle.canWrite = false then some (s, .value (-ebadf))
      else
        let offset := writeOffset n handle
        (n.writeAt offset bytes junk).map fun n =>
          ({ s with node := some n, history := s.history.write offset bytes }.setHandle h
            (some { handle with offset := (offset + bytes.length) % 2 ^ 64 }), .value bytes.length)
    | _, _ => none
  | .seek h offset whence =>
    match s.node, s.handles h with
    | some n, some handle =>
      let newPos := (seekBase n handle whence : ℤ) + offset
      if newPos < 0 then some (s, .value (-einval))
      else
        some (s.setHandle h (some { handle with offset := newPos.toNat }), .value newPos)
    | _, _ => none
  | .close h =>
    match s.handles h with
    | none => none
    | some _ => some (s.setHandle h none, .value 0)

/-- No file and no handles. -/
def initial (ι : Type*) : TmpfsFile ι := ⟨none, fun _ => none, .none⟩

/-- A state that calls reach. -/
inductive Reached : TmpfsFile ι → Prop
  | initial : Reached (initial ι)
  | step {s s' : TmpfsFile ι} {a : TmpfsStep ι} {r : Reply} (h : Reached s)
      (hstep : s.step a = some (s', r)) : Reached s'

/-- A write starts within the file and ends below `2^63`. -/
def Dense : TmpfsStep ι → Prop
  | .write h bytes _ => ∀ n handle, s.node = some n → s.handles h = some handle →
      writeOffset n handle ≤ n.size ∧ writeOffset n handle + bytes.length < 2 ^ 63
  | _ => True

/-- A state that calls reach whose writes start within the file. -/
inductive DenseReached : TmpfsFile ι → Prop
  | initial : DenseReached (initial ι)
  | step {s s' : TmpfsFile ι} {a : TmpfsStep ι} {r : Reply} (h : DenseReached s)
      (hdense : s.Dense a) (hstep : s.step a = some (s', r)) : DenseReached s'
end TmpfsFile

/-! ## The block -/
namespace Node
/-- Doubling reaches a capacity below `2^63`. -/
lemma double_spec {n : ℕ} (hc : n ≤ 2 ^ 63) (f : ℕ) {a : ℕ} (hf : n ≤ a * 2 ^ f) :
    ∃ r, double n (f + 1) a = some r ∧ n ≤ r := by
  induction f generalizing a with
  | zero =>
    refine ⟨a, ?_, by omega⟩
    rw [double, if_neg (by omega)]
  | succ f ih =>
    rw [double]
    split_ifs with hlt
    · have hmod : a * 2 % 2 ^ 64 = a * 2 := Nat.mod_eq_of_lt (by omega)
      rw [hmod]
      refine ih ?_
      rw [Nat.mul_assoc, ← Nat.pow_succ']
      exact hf
    · exact ⟨a, rfl, Nat.not_lt.1 hlt⟩

/-- The capacity is there afterwards, and the bytes of the block stay. -/
theorem reserve_spec (n : Node) {nc : ℕ} (hc : nc ≤ 2 ^ 63) (j : ℕ → UInt8) :
    ∃ n', n.reserve nc j = some n' ∧ nc ≤ n'.capacity ∧ n'.size = n.size ∧
      n.capacity ≤ n'.capacity ∧ ∀ i, i < n.capacity → n'.data i = n.data i := by
  unfold reserve
  by_cases hle : nc ≤ n.capacity
  · rw [if_pos hle]
    exact ⟨n, rfl, hle, rfl, le_rfl, fun _ _ => rfl⟩
  rw [if_neg hle]
  obtain ⟨start, hst⟩ := @exists_eq _ (if n.capacity = 0 then 256 else n.capacity)
  have hpos : 1 ≤ start := by
    rw [hst]
    split_ifs <;> omega
  have hf : nc ≤ start * 2 ^ 65 :=
    Nat.le_trans hc (Nat.le_trans (Nat.pow_le_pow_right (by decide) (by decide))
      (Nat.le_mul_of_pos_left _ hpos))
  obtain ⟨r, hrun, hr⟩ := double_spec hc 65 hf
  rw [← hst, hrun]
  exact ⟨_, rfl, hr, rfl, by show n.capacity ≤ r; omega, fun i hi => if_pos hi⟩

/-- A write that ends below `2^63`. -/
lemma writeAt_spec (n : Node) {offset : ℕ} {b : List UInt8}
    (he : offset + b.length < 2 ^ 63) (j : ℕ → UInt8) :
    ∃ n', n.writeAt offset b j = some n' ∧ n'.size = max n.size (offset + b.length) ∧
      (n.size ≤ n.capacity → n'.size ≤ n'.capacity) ∧
      (∀ i, offset ≤ i → i < offset + b.length → some (n'.data i) = b[i - offset]?) ∧
      ∀ i, i < n.capacity → (i < offset ∨ offset + b.length ≤ i) → n'.data i = n.data i := by
  have hmod : (offset + b.length) % 2 ^ 64 = offset + b.length := Nat.mod_eq_of_lt (by omega)
  obtain ⟨n1, hr, hc, hsz, hmo, hda⟩ := n.reserve_spec (show offset + b.length ≤ 2 ^ 63 by omega) j
  unfold writeAt
  dsimp only
  rw [hmod, hr]
  dsimp only
  rw [if_neg (Nat.not_lt.2 hc)]
  have hmax : (if n1.size < offset + b.length then offset + b.length else n1.size) =
      max n.size (offset + b.length) := by
    rw [hsz]
    split_ifs <;> omega
  refine ⟨_, rfl, hmax, fun hle => ?_, fun i hge hlt => ?_, fun i hi hout => ?_⟩
  · show (if n1.size < offset + b.length then offset + b.length else n1.size) ≤ n1.capacity
    rw [hmax]
    omega
  · show some (copy n1.data offset b i) = _
    rw [copy, if_pos hge, getD_eq_getElem?_getD]
    have hso : i - offset < b.length := by omega
    rw [getElem?_eq_getElem hso]
    rfl
  show copy n1.data offset b i = _
  rw [copy, ← hda i hi]
  split_ifs with hge
  · rw [getD_eq_getElem?_getD, getElem?_eq_none (by omega)]
    rfl
  · rfl
end Node

/-! ## Runs -/
namespace TmpfsFile
variable {ι : Type*}
/-- The node holds what was written, without gaps. -/
structure Agrees (n : Node) (h : History) : Prop where
  capacity : n.size ≤ n.capacity
  extent : n.size = h.extent
  bytes : ∀ i, i < n.size → h.written i = some (n.data i)

/-- A file that is there agrees with its history. -/
def Faithful (s : TmpfsFile ι) : Prop := ∀ n, s.node = some n → Agrees n s.history

lemma agrees_empty (d : ℕ → UInt8) : Agrees (Node.empty d) .none :=
  ⟨le_rfl, rfl, fun i hi => absurd hi (Nat.not_lt_zero i)⟩

lemma Agrees.readAt {n : Node} {h : History} (ha : Agrees n h) (o l : ℕ) :
    n.readAt o l = h.read o l := by
  unfold Node.readAt History.read
  rw [← ha.extent]
  split_ifs with hle
  · rw [Nat.sub_eq_zero_of_le hle, Nat.min_zero]
    rfl
  refine map_congr_left fun i hi => ?_
  have hlt : o + i < n.size := by
    have := mem_range.1 hi
    omega
  rw [History.byte, ha.bytes _ hlt]
  rfl

lemma Agrees.writeAt {n : Node} {h : History} (ha : Agrees n h) {offset : ℕ}
    {b : List UInt8} (hoff : offset ≤ n.size) (he : offset + b.length < 2 ^ 63) (j : ℕ → UInt8) :
    ∃ n', n.writeAt offset b j = some n' ∧ Agrees n' (h.write offset b) := by
  obtain ⟨n', hr, hsz, hc, hnew, hold⟩ := n.writeAt_spec he j
  refine ⟨n', hr, hc ha.capacity, ?_, fun i hi => ?_⟩
  · rw [hsz, ha.extent]
    show _ = if b = [] then h.extent else max h.extent (offset + b.length)
    split_ifs with hnil
    · have := ha.extent
      rw [hnil, length_nil]
      omega
    · rfl
  show (if offset ≤ i ∧ i < offset + b.length then b[i - offset]? else h.written i) = _
  split_ifs with hin
  · exact (hnew i hin.1 hin.2).symm
  have hlt : i < n.size := by
    rw [hsz] at hi
    omega
  have := ha.capacity
  rw [hold i (by omega) (by omega)]
  exact ha.bytes i hlt

variable [DecidableEq ι] {s s' : TmpfsFile ι}
lemma Faithful.openFile (hs : s.Faithful) (h : ι) (f : OpenFlags) :
    (s.openFile h f).1.Faithful := by
  unfold TmpfsFile.openFile
  cases hno : s.node with
  | none =>
    dsimp only
    split_ifs
    · intro n hn
      cases hn
      exact agrees_empty _
    · exact hs
  | some n =>
    dsimp only
    split_ifs
    · exact hs
    · intro n' hn'
      cases hn'
      exact agrees_empty _
    intro n' hn'
    exact hs n' hn'

lemma Faithful.step (hs : s.Faithful) {a : TmpfsStep ι} {r : Reply} (hde : s.Dense a)
    (hst : s.step a = some (s', r)) : s'.Faithful := by
  cases a with
  | open_ h flags =>
    rw [TmpfsFile.step] at hst
    split at hst
    · have heq := some.inj hst
      have hf := hs.openFile h flags
      rw [heq] at hf
      exact hf
    · cases hst
  | read h length =>
    rw [TmpfsFile.step] at hst
    split at hst
    · split_ifs at hst
      all_goals
        cases hst
        exact hs
    · cases hst
  | write h bytes j =>
    rw [TmpfsFile.step] at hst
    split at hst
    · next n hn hno hh =>
      split_ifs at hst
      · cases hst
        exact hs
      · obtain ⟨n1, hwr, heq⟩ := map_eq_some_iff.1 hst
        cases heq
        obtain ⟨hoff, he⟩ := hde n hn hno hh
        obtain ⟨n2, hr, ha⟩ := (hs n hno).writeAt hoff he j
        cases hr.symm.trans hwr
        intro n' hn'
        cases hn'
        exact ha
    · cases hst
  | seek h offset w =>
    rw [TmpfsFile.step] at hst
    split at hst
    · dsimp only at hst
      split_ifs at hst
      all_goals
        cases hst
        exact hs
    · cases hst
  | close h =>
    rw [TmpfsFile.step] at hst
    split at hst
    · cases hst
    cases hst
    exact hs

lemma DenseReached.faithful (h : DenseReached s) : s.Faithful := by
  induction h with
  | initial => exact fun n hn => by simp [TmpfsFile.initial] at hn
  | step _ hde hst ih => exact ih.step hde hst

/-- In every run whose writes start within the file and end below `2^63`, the size of the file
is the largest end of a write since the last truncation, every read gives the bytes last
written at its positions since then, and every such write through an open handle has a
result. -/
theorem dense_file_is_bytes (h : DenseReached s) (n : Node) (hnode : s.node = some n) :
    n.size = s.history.extent ∧
    (∀ (i : ι) handle length, s.handles i = some handle → handle.canRead = true → 0 < length →
      s.step (.read i length) = some
        (s.setHandle i (some { handle with
            offset := handle.offset + (s.history.read handle.offset length).length }),
          .bytes (s.history.read handle.offset length))) ∧
    ∀ (i : ι) handle bytes junk, s.handles i = some handle → s.Dense (.write i bytes junk) →
      ∃ s' r, s.step (.write i bytes junk) = some (s', r) := by
  have ha := h.faithful n hnode
  refine ⟨ha.extent, fun i handle length hi hre hpos => ?_, fun i handle bytes junk hi hde => ?_⟩
  · rw [TmpfsFile.step, hnode, hi]
    dsimp only
    rw [if_neg (by omega), if_neg (by rw [hre]; decide), ha.readAt]
  rw [TmpfsFile.step, hnode, hi]
  dsimp only
  split_ifs
  · exact ⟨_, _, rfl⟩
  obtain ⟨hoff, he⟩ := hde n handle hnode hi
  obtain ⟨n', hr, -⟩ := ha.writeAt hoff he junk
  rw [hr]
  exact ⟨_, _, rfl⟩

/-- Create the file, for reading and writing. -/
def createFlags : OpenFlags := ⟨true, false, false, false, true, true⟩

/-- A byte is written to a new file, which is then truncated through a second handle; two bytes
are written through that one, and the second of them is read. -/
theorem dense_file_is_bytes_truncated : ∃ s s' : TmpfsFile Bool, DenseReached s ∧
    s.step (.read true 5) = some (s', .bytes [6]) := by
  have h₁ : DenseReached (_ : TmpfsFile Bool) :=
    .step .initial (a := .open_ false createFlags) trivial rfl
  have h₂ : DenseReached (_ : TmpfsFile Bool) :=
    .step h₁ (a := .write false [9] fun _ => 7) (fun n ha hn hh => by
      cases hn
      cases hh
      decide) rfl
  have h₃ : DenseReached (_ : TmpfsFile Bool) :=
    .step h₂ (a := .open_ true { createFlags with trunc := true }) trivial rfl
  have h₄ : DenseReached (_ : TmpfsFile Bool) :=
    .step h₃ (a := .write true [5, 6] fun _ => 7) (fun n ha hn hh => by
      cases hn
      cases hh
      decide) rfl
  have h₅ : DenseReached (_ : TmpfsFile Bool) := .step h₄ (a := .seek true 1 .set) trivial rfl
  exact ⟨_, _, h₅, (dense_file_is_bytes h₅ _ rfl).2.1 true _ 5 rfl rfl (by decide)⟩

/-- A byte is written behind a gap: a read of the gap gives what the heap block held. -/
theorem gap_shows_heap : ∃ s s' : TmpfsFile Unit, Reached s ∧ s.history.written 0 = none ∧
    s.history.read 0 2 = [0, 5] ∧ s.step (.read () 2) = some (s', .bytes [7, 5]) := by
  have h1 : Reached (_ : TmpfsFile Unit) := .step .initial (a := .open_ () createFlags) rfl
  have h2 : Reached (_ : TmpfsFile Unit) := .step h1 (a := .seek () 1 .set) rfl
  have h3 : Reached (_ : TmpfsFile Unit) := .step h2 (a := .write () [5] fun _ => 7) rfl
  have h4 : Reached (_ : TmpfsFile Unit) := .step h3 (a := .seek () 0 .set) rfl
  exact ⟨_, _, h4, rfl, rfl, rfl⟩
end TmpfsFile

/-! ## Writes that return -/
namespace Node
/-- A node that was created or truncated and then written, at any offsets. -/
inductive Built : Node → Prop
  | empty (data : ℕ → UInt8) : Built (empty data)
  | write {n n' : Node} {offset : ℕ} {bytes : List UInt8} {junk : ℕ → UInt8} (h : Built n)
      (hwrite : n.writeAt offset bytes junk = some n') : Built n'

/-- The size at which the doubling of `tmpfs_reserve` starts (line 586). -/
def start (n : Node) : ℕ := if n.capacity = 0 then 256 else n.capacity

lemma double_zero {n : ℕ} (hpos : 0 < n) (f : ℕ) : double n f 0 = none := by
  induction f with
  | zero => rfl
  | succ f ih => rw [double, if_pos hpos, Nat.zero_mul, Nat.zero_mod, ih]

lemma start_pow {n : Node} (hn : n.capacity = 0 ∨ ∃ k ≤ 63, n.capacity = 2 ^ k) :
    ∃ k ≤ 63, n.start = 2 ^ k := by
  rw [start]
  split_ifs with hz
  · exact ⟨8, by decide, rfl⟩
  · exact hn.resolve_left hz

/-- Powers of two are doubled up to `2^63`, and then to 0. -/
lemma double_pow {n f k r : ℕ} (hk : k ≤ 63)
    (h : double n f (2 ^ k) = some r) : n ≤ r ∧ ∃ j ≤ 63, r = 2 ^ j := by
  induction f generalizing k with
  | zero => cases h
  | succ f ih =>
    rw [double] at h
    split_ifs at h with hlt
    · rw [← Nat.pow_succ] at h
      rcases Nat.lt_or_eq_of_le hk with hk | rfl
      · rw [Nat.mod_eq_of_lt (Nat.pow_lt_pow_right (by decide) (by omega))] at h
        exact ih hk h
      · rw [Nat.mod_self, double_zero (by omega)] at h
        cases h
    cases h
    exact ⟨by omega, k, hk, rfl⟩

lemma reserve_pow {n n' : Node} {nc : ℕ} {j : ℕ → UInt8}
    (hn : n.capacity = 0 ∨ ∃ k ≤ 63, n.capacity = 2 ^ k) (h : n.reserve nc j = some n') :
    n'.capacity = 0 ∨ ∃ k ≤ 63, n'.capacity = 2 ^ k := by
  by_cases hle : nc ≤ n.capacity
  · rw [reserve, if_pos hle] at h
    cases h
    exact hn
  rw [reserve, if_neg hle] at h
  obtain ⟨k, hk, hst⟩ := start_pow hn
  obtain ⟨r, hr, rfl⟩ := map_eq_some_iff.1 h
  rw [← start, hst] at hr
  exact .inr (double_pow hk hr).2

lemma writeAt_some {n n' : Node} {o : ℕ} {b : List UInt8} {j : ℕ → UInt8}
    (h : n.writeAt o b j = some n') : ∃ n1, n.reserve ((o + b.length) % 2 ^ 64) j = some n1 ∧
      n'.capacity = n1.capacity ∧ o + b.length ≤ n1.capacity := by
  rw [writeAt] at h
  split at h
  · cases h
  next n1 hre =>
  by_cases hr : n1.capacity < o + b.length
  · rw [if_pos hr] at h
    cases h
  rw [if_neg hr] at h
  cases h
  exact ⟨n1, hre, rfl, Nat.not_lt.1 hr⟩

lemma Built.capacity {n : Node} (h : Built n) : n.capacity = 0 ∨ ∃ k ≤ 63, n.capacity = 2 ^ k := by
  induction h with
  | empty data => exact .inl rfl
  | write _ hwr ih =>
    obtain ⟨n1, hr, hc, -⟩ := writeAt_some hwr
    rw [hc]
    exact reserve_pow ih hr

/-- A write ends exactly if its end is at most `2^63`, and then it stays within the block. The
doubling goes on for ever if the end is larger, but does not wrap. -/
theorem write_returns_iff {n : Node} (h : Built n) (offset : ℕ) (bytes : List UInt8)
    (junk : ℕ → UInt8) :
    ((∃ n', n.writeAt offset bytes junk = some n') ↔ offset + bytes.length ≤ 2 ^ 63) ∧
    (∀ n', n.writeAt offset bytes junk = some n' → offset + bytes.length ≤ n'.capacity) ∧
    (2 ^ 63 < offset + bytes.length → offset + bytes.length < 2 ^ 64 →
      ∀ fuel, double (offset + bytes.length) fuel n.start = none) := by
  refine ⟨⟨fun ⟨n', hwr⟩ => ?_, fun hle => ?_⟩, fun n' hwr => ?_, fun hlt _ fuel => ?_⟩
  · obtain ⟨n1, hre, -, he⟩ := writeAt_some hwr
    rcases reserve_pow h.capacity hre with hz | ⟨k, hk, hp⟩
    · omega
    · have hmax : 2 ^ k ≤ 2 ^ 63 := Nat.pow_le_pow_right (by decide) hk
      omega
  · obtain ⟨n1, hre, hro, -⟩ := n.reserve_spec hle junk
    rw [writeAt, Nat.mod_eq_of_lt (by omega), hre]
    exact ⟨_, if_neg (Nat.not_lt.2 hro)⟩
  · obtain ⟨n1, -, hc, he⟩ := writeAt_some hwr
    omega
  obtain ⟨k, hk, hst⟩ := start_pow h.capacity
  rw [hst]
  refine eq_none_iff_forall_ne_some.2 fun r hr => ?_
  obtain ⟨hle, j, hj, rfl⟩ := double_pow hk hr
  have hmax : 2 ^ j ≤ 2 ^ 63 := Nat.pow_le_pow_right (by decide) hj
  omega

/-- A byte is written to an empty node, and one at 600: the capacity of 256 is doubled twice. -/
theorem write_returns_doubled : ∃ n : Node, Built n ∧ n.capacity = 256 ∧
    ∃ n', n.writeAt 600 [5] (fun _ => 7) = some n' ∧ 601 ≤ n'.capacity := by
  have h : Built _ := .write (.empty fun _ => 0)
    (rfl : (empty fun _ => 0).writeAt 0 [5] (fun _ => 7) = some _)
  obtain ⟨hend, hblock, -⟩ := write_returns_iff h 600 [5] fun _ => 7
  obtain ⟨n', hn'⟩ := hend.2 (by decide)
  exact ⟨_, h, rfl, n', hn', hblock n' hn'⟩
end Node

/-- After a seek to the largest position a write of two bytes does not return. -/
theorem TmpfsFile.write_after_seek_hangs : ∃ s : TmpfsFile Unit, Reached s ∧
    s.handles () = some ⟨2 ^ 63 - 1, false, true, true⟩ ∧
    s.step (.write () [5, 5] fun _ => 0) = none := by
  have h1 : Reached (_ : TmpfsFile Unit) := .step .initial (a := .open_ () createFlags) rfl
  have h2 : Reached (_ : TmpfsFile Unit) := .step h1 (a := .seek () (2 ^ 63 - 1) .set) rfl
  exact ⟨_, h2, rfl, rfl⟩
end Menios.Tmpfs
