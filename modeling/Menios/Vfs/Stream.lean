import Menios.Common.Errno

/-!
# Streaming files of the VFS

Model of the streaming files that `vfs_open_buffered` makes once its checks, `create_file`
and `truncate_file` have succeeded, and of `vfs_file_write_impl`, `vfs_file_seek_impl` and
`vfs_file_stat_impl` for them (`src/kernel/fs/vfs/vfs.c`, lines 587-643, 681-717, 793-843,
914-991 and 1487-1501). A driver operation on the path of the file is a function on the state
of the file system; one that is `NULL` is `none`. Of `fs_path_info_t` only the size is kept.

**Defects.** With `O_CREAT` the size of a file is taken to be 0, also if the file was there:
`O_APPEND` then starts at its first byte. A seek beyond the end of a writable file sets the
size that later seeks and `fstat` use.

Results:
* `append_keeps_iff`: when writes with `O_APPEND` start at the end of the file.
* `seek_keeps_size_iff`: when seeks leave the size alone.
-/

namespace Menios.Vfs
variable {σ : Type}
/-! ## Model -/

/-- `vfs_fs_driver_t` for one path: `stat` and `readAll` give the size. -/
structure FsDriver (σ : Type) where
  stat : Option (σ → σ × Option ℕ)
  readAll : Option (σ → σ × Option ℕ)
  write : Option (σ → ℕ → List UInt8 → σ × Option ℕ)

/-- The flags of `open` (`include/sys/fcntl.h`). -/
structure OpenFlags where
  accmode : ℕ
  creat : Bool
  trunc : Bool
  append : Bool

/-- `vfs_file_buffer_t` without the data: `info` is the size in `info` if `info_valid`. -/
structure FileBuffer where
  size : ℕ
  offset : ℕ
  writable : Bool
  sizeKnown : Bool
  info : Option ℕ

/-- An operation that gives the size; `NULL` fails. -/
def askSize (op : Option (σ → σ × Option ℕ)) (fs : σ) : σ × Option ℕ :=
  match op with
  | none => (fs, none)
  | some f => f fs

/-- `O_WRONLY` or `O_RDWR` (line 865). -/
def OpenFlags.writable (flags : OpenFlags) : Bool := flags.accmode == 1 || flags.accmode == 2

variable (d : FsDriver σ) (fs : σ)
/-- `vfs_stream_refresh_size` (lines 1487-1501) of a streaming file. -/
def streamRefreshSize (ctx : FileBuffer) : σ × FileBuffer × Bool :=
  match askSize d.stat fs with
  | (fs, some size) => (fs, { ctx with size := size, sizeKnown := true, info := some size }, true)
  | (fs, none) => (fs, ctx, false)

/-- The start of a file opened with `O_APPEND` (lines 976-991). -/
def seekAppend (ctx : FileBuffer) : σ × FileBuffer :=
  let (fs, ctx) :=
    if ctx.sizeKnown then (fs, ctx)
    else
      match streamRefreshSize d fs ctx with
      | (fs, ctx, true) => (fs, ctx)
      | (fs, ctx, false) =>
        match askSize d.readAll fs with
        | (fs, some size) => (fs, { ctx with size := size, sizeKnown := true })
        | (fs, none) => (fs, ctx)
  (fs, if ctx.sizeKnown then { ctx with offset := ctx.size } else ctx)

/-- The streaming part of `vfs_open_buffered` (lines 914-991). -/
def openStream (flags : OpenFlags) (fs : σ) : σ × FileBuffer :=
  let (fs, size, info) : σ × Option ℕ × Option ℕ :=
    if flags.trunc || flags.creat then (fs, some 0, some 0)
    else
      match askSize d.stat fs with
      | (fs, some size) => (fs, some size, some size)
      | (fs, none) =>
        let (fs, size) := askSize d.readAll fs
        (fs, size, none)
  let ctx := { size := size.getD 0, offset := 0, writable := flags.writable
               sizeKnown := size.isSome, info := info }
  if flags.append then seekAppend d fs ctx else (fs, ctx)

/-- `vfs_file_write_impl` (lines 587-643). The last result is the offset passed to the driver
and the bytes it wrote. -/
def vfsFileWrite (ctx : FileBuffer) (buffer : List UInt8) : σ × FileBuffer × ℤ × Option (ℕ × ℕ) :=
  if !ctx.writable then (fs, ctx, -ebadf, none)
  else if buffer.length = 0 then (fs, ctx, 0, none)
  else
    match d.write with
    | none => (fs, ctx, -enosys, none)
    | some f =>
      match f fs ctx.offset buffer with
      | (fs, none) => (fs, ctx, -eio, some (ctx.offset, 0))
      | (fs, some written) =>
        let offset := ctx.offset + written
        (fs, { ctx with offset := offset, sizeKnown := true
                        size := if ctx.sizeKnown then max ctx.size offset else offset },
          written, some (ctx.offset, written))

/-- `whence` of `vfs_file_seek_impl`. -/
inductive Whence
  | set
  | cur
  | end
  | other

/-- `base` of `vfs_file_seek_impl` (lines 803-822). -/
def seekBase (ctx : FileBuffer) : Whence → Option ℤ
  | .set => some 0
  | .cur => some ctx.offset
  | .end => some ctx.size
  | .other => none

/-- `new_offset` (line 824), an `int64_t`. -/
def newOffset (base offset : ℤ) : ℤ := (base + offset).bmod (2 ^ 64)

/-- The look at the size for `SEEK_END` (lines 812-816). -/
def seekRefresh (ctx : FileBuffer) : Whence → σ × FileBuffer × Bool
  | .end => if ctx.sizeKnown then (fs, ctx, true) else streamRefreshSize d fs ctx
  | _ => (fs, ctx, true)

/-- `vfs_file_seek_impl` (lines 793-843). -/
def vfsFileSeek (ctx : FileBuffer) (offset : ℤ) (whence : Whence) : σ × FileBuffer × ℤ :=
  match seekRefresh d fs ctx whence with
  | (fs, ctx, false) => (fs, ctx, -enosys)
  | (fs, ctx, true) =>
    match seekBase ctx whence with
    | none => (fs, ctx, -einval)
    | some base =>
      let target := newOffset base offset
      if target < 0 then (fs, ctx, -einval)
      else if target ≤ ctx.size then (fs, { ctx with offset := target.toNat }, target)
      else if !ctx.sizeKnown then (fs, { ctx with offset := target.toNat }, target)
      else if ctx.writable then
        (fs, { ctx with size := target.toNat, offset := target.toNat }, target)
      else (fs, ctx, -einval)

/-- The size that `vfs_file_stat_impl` (lines 681-717) reports. -/
def vfsFileStat (ctx : FileBuffer) : ℕ :=
  let size := match ctx.info with
    | some size => size
    | none => (askSize d.stat fs).2.getD (if ctx.sizeKnown then ctx.size else 0)
  if ctx.sizeKnown then max size ctx.size else size

/-- The writes of some buffers, with the offsets passed to the driver and the bytes written. -/
def writeAll (d : FsDriver σ) : σ → FileBuffer → List (List UInt8) → σ × List (ℕ × ℕ)
  | fs, _, [] => (fs, [])
  | fs, ctx, buffer :: buffers =>
    let (fs, ctx, _, call) := vfsFileWrite d fs ctx buffer
    let (fs, calls) := writeAll d fs ctx buffers
    (fs, call.toList ++ calls)

/-- The state after some seeks. -/
def seekAll (d : FsDriver σ) : σ → FileBuffer → List (ℤ × Whence) → σ × FileBuffer
  | fs, ctx, [] => (fs, ctx)
  | fs, ctx, (offset, whence) :: seeks =>
    let (fs, ctx, _) := vfsFileSeek d fs ctx offset whence
    seekAll d fs ctx seeks

/-! ## Sizes -/

/-- What the driver does for a file that is there: sizes are right if it gives them, only a
write changes the contents, and it leaves the bytes before it. -/
structure Lawful (d : FsDriver σ) (content : σ → List UInt8) : Prop where
  stat : ∀ fs, content (askSize d.stat fs).1 = content fs ∧
    ∀ n ∈ (askSize d.stat fs).2, n = (content fs).length
  readAll : ∀ fs, content (askSize d.readAll fs).1 = content fs ∧
    ∀ n ∈ (askSize d.readAll fs).2, n = (content fs).length
  write : ∀ f ∈ d.write, ∀ fs offset buffer, ∀ k < offset, ∀ b, (content fs)[k]? = some b →
    (content (f fs offset buffer).1)[k]? = some b

section
variable {d : FsDriver σ} {c : σ → List UInt8} (hd : Lawful d c)
include hd
lemma askSize_cases {o : Option (σ → σ × Option ℕ)} (hop : o = d.stat ∨ o = d.readAll) (fs : σ) :
    ∃ f', c f' = c fs ∧
      (askSize o fs = (f', none) ∨ askSize o fs = (f', some (c fs).length)) := by
  have hop : c (askSize o fs).1 = c fs ∧ ∀ n ∈ (askSize o fs).2, n = (c fs).length :=
    hop.elim (fun h => h ▸ hd.stat fs) fun h => h ▸ hd.readAll fs
  cases hs : askSize o fs with
  | mk f' size =>
    rw [hs] at hop
    cases size with
    | none => exact ⟨f', hop.1, .inl rfl⟩
    | some n => exact ⟨f', hop.1, .inr (by rw [hop.2 n rfl])⟩

lemma openStream_spec {f : OpenFlags} {fs f' : σ} {ctx : FileBuffer}
    (h : openStream d f fs = (f', ctx)) : c f' = c fs ∧ ctx.writable = f.writable ∧
      (ctx.sizeKnown = true →
        ctx.info = some ctx.size ∨ ctx.info = none ∧ ctx.size = (c fs).length) ∧
      (f.append = true → ctx.offset = if ctx.sizeKnown then
        (if f.trunc || f.creat then 0 else (c fs).length) else 0) := by
  obtain ⟨f1, h1, hs1⟩ := askSize_cases hd (.inl rfl) fs
  obtain ⟨f2, h2, hs2⟩ := askSize_cases hd (.inr rfl) f1
  obtain ⟨f3, h3, hs3⟩ := askSize_cases hd (.inl rfl) f2
  obtain ⟨f4, h4, hs4⟩ := askSize_cases hd (.inr rfl) f3
  rw [h1] at h2 hs2
  rw [h2] at h3 hs3
  rw [h3] at h4 hs4
  simp only [openStream, seekAppend, streamRefreshSize] at h
  cases hnew : f.trunc || f.creat with
  | true => cases ha : f.append <;> simp [hnew, ha] at h <;> simp [← h]
  | false =>
    rcases hs1 with hs1 | hs1
    · rcases hs2 with hs2 | hs2
      · -- the size is not found, and `O_APPEND` asks for it again
        cases ha : f.append with
        | false =>
          simp [hnew, ha, hs1, hs2] at h
          simp [← h, h2]
        | true =>
          rcases hs3 with hs3 | hs3
          · rcases hs4 with hs4 | hs4 <;> simp [hnew, ha, hs1, hs2, hs3, hs4] at h <;>
              simp [← h, h4]
          · simp [hnew, ha, hs1, hs2, hs3] at h
            simp [← h, h3]
      · cases ha : f.append <;> simp [hnew, ha, hs1, hs2] at h <;> simp [← h, h2]
    · cases ha : f.append <;> simp [hnew, ha, hs1] at h <;> simp [← h, h1]
end

/-! ## Appending -/

/-- One of the questions for the size, asked one after the other, is answered. -/
def answered (fs : σ) : List (Option (σ → σ × Option ℕ)) → Bool
  | [] => false
  | question :: questions =>
    (askSize question fs).2.isSome || answered (askSize question fs).1 questions

/-- For an old file the size is known if `stat` or `read_all` gives it, at the open or when
`O_APPEND` asks again. -/
lemma openStream_sizeKnown {flags : OpenFlags} (happend : flags.append = true)
    (hold : (flags.trunc || flags.creat) = false) :
    (openStream d flags fs).2.sizeKnown = answered fs [d.stat, d.readAll, d.stat, d.readAll] := by
  simp only [openStream, seekAppend, streamRefreshSize, hold, happend, answered]
  rcases askSize d.stat fs with ⟨fs₁, _ | size⟩
  · rcases h₂ : askSize d.readAll fs₁ with ⟨fs₂, _ | size⟩
    · rcases h₃ : askSize d.stat fs₂ with ⟨fs₃, _ | size⟩
      · rcases h₄ : askSize d.readAll fs₃ with ⟨fs₄, _ | size⟩ <;> simp [h₂, h₃, h₄]
      · simp [h₂, h₃]
    · simp [h₂]
  · simp

/-- Each write starts where the one before it ended, the first at `start`. -/
def Appends : ℕ → List (ℕ × ℕ) → Prop
  | _, [] => True
  | start, (offset, written) :: calls => offset = start ∧ Appends (start + written) calls

lemma vfsFileWrite_cases (ctx : FileBuffer) (b : List UInt8) :
    (∃ r, vfsFileWrite d fs ctx b = (fs, ctx, r, none) ∧
      (ctx.writable = false ∨ b.length = 0 ∨ d.write = none)) ∨
    ∃ f ∈ d.write, ∃ c' r n, c'.offset = ctx.offset + n ∧ vfsFileWrite d fs ctx b =
        ((f fs ctx.offset b).1, c', r, some (ctx.offset, n)) := by
  rw [vfsFileWrite]
  by_cases hwr : (!ctx.writable) = true
  · rw [if_pos hwr]
    exact .inl ⟨_, rfl, .inl (by simpa using hwr)⟩
  by_cases he : b.length = 0
  · rw [if_neg hwr, if_pos he]
    exact .inl ⟨_, rfl, .inr (.inl he)⟩
  rw [if_neg hwr, if_neg he]
  cases d.write with
  | none => exact .inl ⟨_, rfl, .inr (.inr rfl)⟩
  | some f =>
    refine .inr ⟨f, rfl, ?_⟩
    dsimp only
    cases f fs ctx.offset b with
    | mk fs written =>
      cases written with
      | none => exact ⟨_, _, 0, rfl, rfl⟩
      | some written => exact ⟨_, _, written, rfl, rfl⟩

section
variable {d : FsDriver σ} {content : σ → List UInt8} (hd : Lawful d content)
include hd
lemma writeAll_spec (fs : σ) (ctx : FileBuffer) (buffers : List (List UInt8)) :
    Appends ctx.offset (writeAll d fs ctx buffers).2 ∧
      ∀ k < ctx.offset, ∀ b, (content fs)[k]? = some b →
        (content (writeAll d fs ctx buffers).1)[k]? = some b := by
  induction buffers generalizing fs ctx with
  | nil => exact ⟨trivial, fun _ _ _ h => h⟩
  | cons buffer buffers ih =>
    obtain ⟨r, hr, -⟩ | ⟨f, hf, c', r, n, hoff, hr⟩ := vfsFileWrite_cases d fs ctx buffer
    · simp only [writeAll, hr]
      exact ih fs ctx
    obtain ⟨hc, hke⟩ := ih (f fs ctx.offset buffer).1 c'
    rw [hoff] at hc hke
    simp only [writeAll, hr]
    refine ⟨⟨rfl, hc⟩, fun k hk b hb => hke k (by omega) b ?_⟩
    exact hd.write f hf fs ctx.offset buffer k hk b hb

/-- Files opened with `O_APPEND` for writing are appended to exactly when they are empty, or
`O_CREAT` is not given and the driver answers one of the questions for the size: `stat`, then
`read_all`, then both again. -/
theorem append_keeps_iff (hwrite : d.write ≠ none) {flags : OpenFlags}
    (happend : flags.append = true) (hwritable : flags.writable = true)
    (htrunc : flags.trunc = false) {fs fs' : σ} {ctx : FileBuffer}
    (h : openStream d flags fs = (fs', ctx)) :
    (∀ buffers, Appends (content fs).length (writeAll d fs' ctx buffers).2 ∧
      ∀ (k : ℕ) b, (content fs)[k]? = some b →
        (content (writeAll d fs' ctx buffers).1)[k]? = some b) ↔
      content fs = [] ∨
        flags.creat = false ∧ answered fs [d.stat, d.readAll, d.stat, d.readAll] = true := by
  have hanswered : flags.creat = false →
      ctx.sizeKnown = answered fs [d.stat, d.readAll, d.stat, d.readAll] := fun hcreat => by
    rw [← openStream_sizeKnown d fs happend (by rw [htrunc, hcreat]; rfl), h]
  obtain ⟨hfs, hmi, -, hst⟩ := openStream_spec hd h
  have hoff := hst happend
  rw [htrunc, Bool.false_or] at hoff
  constructor
  · intro ha
    have hc := (ha [[0]]).1
    simp only [writeAll] at hc
    obtain ⟨r, -, hno⟩ | ⟨f, hf, c', r, n, -, hr⟩ := vfsFileWrite_cases d fs' ctx [0]
    · rw [hmi, hwritable] at hno
      exact absurd hwrite (not_not.2 (by simpa using hno))
    · rw [hr] at hc
      have hl : ctx.offset = (content fs).length := hc.1
      rw [hoff] at hl
      split_ifs at hl with hknown hcr
      · exact .inl (List.length_eq_zero_iff.1 hl.symm)
      · have hcreat : flags.creat = false := by simpa using hcr
        exact .inr ⟨hcreat, hanswered hcreat ▸ hknown⟩
      · exact .inl (List.length_eq_zero_iff.1 hl.symm)
  intro hco buffers
  have hl : ctx.offset = (content fs).length := by
    rcases hco with hnil | ⟨hcr, hknown⟩
    · simp [hoff, hnil]
    · simp [hoff, hcr, hanswered hcr, hknown]
  have hwr := writeAll_spec hd fs' ctx buffers
  rw [hl, hfs] at hwr
  exact ⟨hwr.1, fun k b hb => hwr.2 k (List.getElem?_eq_some_iff.1 hb).1 b hb⟩
end

/-! ## Seeking -/

/-- The target of a seek is not beyond the end of the file. -/
def Inside (ctx : FileBuffer) (offset : ℤ) (whence : Whence) : Prop :=
  ∀ base ∈ seekBase ctx whence, newOffset base offset ≤ ctx.size

/-- No seek goes beyond the end of the file. -/
def StaysInside (d : FsDriver σ) (fs : σ) : FileBuffer → List (ℤ × Whence) → Prop
  | _, [] => True
  | ctx, (offset, whence) :: seeks => Inside ctx offset whence ∧
    StaysInside d fs (vfsFileSeek d fs ctx offset whence).2.1 seeks

section
variable (d : FsDriver σ) (fs : σ) {ctx : FileBuffer} (hknown : ctx.sizeKnown = true)
include hknown
lemma seekRefresh_known (w : Whence) : seekRefresh d fs ctx w = (fs, ctx, true) := by
  cases w <;> simp [seekRefresh, hknown]

lemma vfsFileSeek_spec (offset : ℤ) (w : Whence) : ∃ place size r,
      vfsFileSeek d fs ctx offset w = (fs, { ctx with offset := place, size := size }, r) ∧
      ctx.size ≤ size ∧ (size = ctx.size ↔ (ctx.writable = true → Inside ctx offset w)) := by
  rw [vfsFileSeek, seekRefresh_known d fs hknown]
  obtain ⟨size, place, writable, _, info⟩ := ctx
  subst hknown
  simp only [Inside]
  cases seekBase _ w with
  | none => exact ⟨place, size, _, rfl, le_rfl, iff_of_true rfl fun _ => nofun⟩
  | some base =>
    simp only [Option.mem_def, Option.some.injEq, forall_eq', Bool.not_true, Bool.false_eq_true,
      if_false]
    split_ifs with hneg hle hw
    · exact ⟨place, size, _, rfl, le_rfl, iff_of_true rfl fun _ => by omega⟩
    · exact ⟨_, size, _, rfl, le_rfl, iff_of_true rfl fun _ => hle⟩
    · exact ⟨_, _, _, rfl, by omega, iff_of_false (by omega) fun h => hle (h hw)⟩
    · exact ⟨place, size, _, rfl, le_rfl, iff_of_true rfl fun h => absurd h hw⟩

lemma seekAll_spec (s : List (ℤ × Whence)) :
    ∃ place size, seekAll d fs ctx s = (fs, { ctx with offset := place, size := size }) ∧
      ctx.size ≤ size ∧ (size = ctx.size ↔ (ctx.writable = true → StaysInside d fs ctx s)) := by
  induction s generalizing ctx with
  | nil => exact ⟨ctx.offset, ctx.size, rfl, le_rfl, iff_of_true rfl fun _ => trivial⟩
  | cons seek s ih =>
    obtain ⟨offset, w⟩ := seek
    obtain ⟨place, size, r, hr, hle, hone⟩ := vfsFileSeek_spec d fs hknown offset w
    rw [StaysInside]
    simp only [seekAll, hr]
    obtain ⟨p', s', hre, hl', ha⟩ := @ih { ctx with offset := place, size := size } hknown
    refine ⟨p', s', hre, Nat.le_trans hle hl', ?_⟩
    rw [imp_and, ← hone, ← ha]
    dsimp only at hl' ⊢
    omega
end

/-- After any seeks in a file that was opened with the known size `s`, a seek to the end returns
`s + offset` and `fstat` reports `s`, exactly when no seek of a writable file went beyond its
end, the result is an `int64_t`, and the file is writable if it lies beyond the end. -/
theorem seek_keeps_size_iff {d : FsDriver σ} {content : σ → List UInt8} (hd : Lawful d content)
    {flags : OpenFlags} {fs fs' : σ} {ctx : FileBuffer}
    (h : openStream d flags fs = (fs', ctx)) (hknown : ctx.sizeKnown = true)
    (seeks : List (ℤ × Whence)) {offset : ℤ} (hoffset : -(ctx.size : ℤ) ≤ offset) :
    ((vfsFileSeek d fs' (seekAll d fs' ctx seeks).2 offset .end).2.2 = ctx.size + offset ∧
      vfsFileStat d fs' (seekAll d fs' ctx seeks).2 = ctx.size) ↔
      (ctx.writable = true → StaysInside d fs' ctx seeks) ∧ ctx.size + offset < 2 ^ 63 ∧
        (offset ≤ 0 ∨ ctx.writable = true) := by
  obtain ⟨hf, -, ht, -⟩ := openStream_spec hd h
  obtain ⟨place, size, hr, hle, hsz⟩ := seekAll_spec d fs' hknown seeks
  have hst : vfsFileStat d fs' { ctx with offset := place, size := size } = size := by
    rcases ht hknown with hin | ⟨hin, hl⟩
    · simp [vfsFileStat, hin, hknown, hle]
    have hsz := (hd.stat fs').2
    rw [hf, ← hl] at hsz
    cases hs : (askSize d.stat fs').2 with
    | none => simp [vfsFileStat, hin, hs, hknown]
    | some n => simp [vfsFileStat, hin, hs, hknown, hsz n hs, hle]
  rw [hr, ← hsz, hst, and_comm, and_congr_right_iff]
  rintro rfl
  have : newOffset ctx.size offset = ctx.size + offset ∧ ctx.size + offset < 2 ^ 63 ∨
      newOffset ctx.size offset < 2 ^ 63 ∧ 2 ^ 63 ≤ ctx.size + offset := by
    rw [newOffset, Int.bmod_def]
    split_ifs <;> omega
  rw [vfsFileSeek, seekRefresh_known d fs' (by exact hknown)]
  simp only [seekBase, hknown, Bool.not_true, Bool.false_eq_true, if_false, einval]
  split_ifs with hneg his hwr
  · dsimp only
    omega
  · dsimp only
    omega
  · simp only [hwr, or_true, and_true]
    omega
  rw [or_iff_left hwr]
  dsimp only
  omega

/-! ## A driver that keeps one file in memory -/

/-- The file system is the contents of the file. -/
def memoryDriver : FsDriver (List UInt8) where
  stat := some fun file => (file, some file.length)
  readAll := none
  write := some fun file offset buffer =>
    (file.take offset ++ (List.replicate (offset - file.length) 0 ++ buffer ++
      file.drop (offset + buffer.length)), some buffer.length)

lemma memoryDriver_lawful : Lawful memoryDriver id where
  stat _ := ⟨rfl, fun _ h => (Option.some.inj h).symm⟩
  readAll _ := ⟨rfl, nofun⟩
  write f hf fs offset buffer k hk b hb := by
    cases hf
    refine (List.getElem?_append_left ?_).trans ((List.getElem?_take_of_lt hk).trans hb)
    have : k < fs.length := (List.getElem?_eq_some_iff.1 hb).1
    rw [List.length_take]
    omega

/-- Three bytes are appended to without `O_CREAT`. -/
theorem append_keeps_iff_open : Appends 3 (writeAll memoryDriver [1, 2, 3]
      (openStream memoryDriver ⟨1, false, false, true⟩ [1, 2, 3]).2 [[9], [8, 7]]).2 :=
  ((append_keeps_iff memoryDriver_lawful nofun rfl rfl rfl
    (rfl : openStream memoryDriver ⟨1, false, false, true⟩ [1, 2, 3] = ([1, 2, 3], _))).2
      (.inr ⟨rfl, rfl⟩) _).1

/-- With `O_CREAT` the first of three bytes is overwritten. -/
theorem append_overwrites :
    let ctx := (openStream memoryDriver ⟨1, true, false, true⟩ [1, 2, 3]).2
    ¬ ∀ buffers, Appends 3 (writeAll memoryDriver [1, 2, 3] ctx buffers).2 ∧
      ∀ (k : ℕ) b, [1, 2, 3][k]? = some b →
        (writeAll memoryDriver [1, 2, 3] ctx buffers).1[k]? = some b := by
  intro ctx h
  exact absurd ((h [[9]]).2 0 1 rfl) (by decide)

/-- A file of three bytes opened with `O_RDWR`, after a seek to `offset`. -/
def threeBytesAt (offset : ℤ) : FileBuffer :=
  (seekAll memoryDriver [1, 2, 3] (openStream memoryDriver ⟨2, false, false, false⟩ [1, 2, 3]).2
    [(offset, .set)]).2

/-- A seek to the second of three bytes. -/
theorem seek_keeps_size_iff_inside : vfsFileStat memoryDriver [1, 2, 3] (threeBytesAt 1) = 3 :=
  ((seek_keeps_size_iff memoryDriver_lawful
    (rfl : openStream memoryDriver ⟨2, false, false, false⟩ [1, 2, 3] = ([1, 2, 3], _)) rfl
    [(1, .set)] (show -((3 : ℕ) : ℤ) ≤ 0 by decide)).2
      ⟨fun _ => ⟨by rintro _ ⟨⟩; decide, trivial⟩, by decide, .inl (by decide)⟩).2

/-- After a seek to 10 in a file of three bytes, neither a seek to the end nor `fstat` gives 3. -/
theorem seek_grows_file :
    ¬ ((vfsFileSeek memoryDriver [1, 2, 3] (threeBytesAt 10) 0 .end).2.2 = 3 ∨
      vfsFileStat memoryDriver [1, 2, 3] (threeBytesAt 10) = 3) := by
  decide
end Menios.Vfs
