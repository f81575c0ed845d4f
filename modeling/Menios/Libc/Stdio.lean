import Menios.Common.ByteFile

/-!
# Streams

Model of `src/user/libc/stdio.c`, lines 168-264 and 475-665, and of `fgetc` and `fputc` (lines
1241-1263), for a stream on a regular file. One buffer holds bytes that were read ahead, or bytes
that are still to be written. The system calls succeed, and `read` and `write` transfer any
positive part of what is asked for.

Specification: a list of bytes with one position. `fflush` is for streams that were not read from
since the last change of direction, `fseek` for targets that are not negative.

Results:

* `flushLoop_spec`, `readLoop_spec`, `writeLoop_spec`: the loops end, and do what the
  specification does.
* `stream_is_array`: every sequence of calls gives the results of the same calls on the list, and
  so does the file after a last `fflush`.
-/

namespace Menios.Libc
open Common List Option Stream

/-! ## Specification -/

/-- `SEEK_SET`, `SEEK_CUR` and `SEEK_END`. -/
inductive Whence
  | set | cur | end_

/-- The calls. `data`: what lies at the pointer that `fwrite` is given. -/
inductive Call
  | fread (size nmemb : ℕ)
  | fwrite (size nmemb : ℕ) (data : ℕ → UInt8)
  | fgetc
  | fputc (ch : ℤ)
  | fseek (offset : ℤ) (whence : Whence)
  | ftell
  | rewind
  | fflush

/-- What a call gives back: `fread` the bytes and the count, the others a number or nothing. -/
inductive Reply
  | bytes (l : List UInt8) (count : ℕ)
  | value (v : ℤ)
  | nothing
  deriving DecidableEq

/-- `(unsigned char)ch`. -/
def charByte (ch : ℤ) : UInt8 := UInt8.ofNat (ch % 256).toNat

/-- The value of a byte, or `EOF`. -/
def charValue : List UInt8 → ℤ
  | [] => -1
  | b :: _ => b.toNat

namespace Spec
/-- A list of bytes with a position. `reading`: the last transfer was a read. -/
structure Bytes where
  contents : List UInt8
  pos : ℕ
  reading : Bool

/-- The position that `offset` counts from. -/
def base (a : Bytes) : Whence → ℕ
  | .set => 0
  | .cur => a.pos
  | .end_ => a.contents.length

/-- Up to `n` bytes are read. -/
def read (a : Bytes) (n : ℕ) : List UInt8 × Bytes :=
  let l := readAt a.contents a.pos n
  (l, { a with pos := a.pos + l.length, reading := true })

/-- The bytes are written. -/
def write (a : Bytes) (d : List UInt8) : Bytes :=
  ⟨writeAt a.contents a.pos d, a.pos + d.length, false⟩

/-- The calls on the list. Requests of no bytes, or of more than a `size_t` can count, transfer
nothing. -/
def call (a : Bytes) : Call → Option (Reply × Bytes)
  | .fread size nmemb =>
    if size * nmemb = 0 ∨ 2 ^ 64 ≤ size * nmemb then some (.bytes [] 0, a)
    else
      let r := read a (size * nmemb)
      some (.bytes r.1 (r.1.length / size), r.2)
  | .fwrite size nmemb data =>
    if size * nmemb = 0 ∨ 2 ^ 64 ≤ size * nmemb then some (.value 0, a)
    else some (.value nmemb, write a (slice data 0 (size * nmemb)))
  | .fgetc =>
    let r := read a 1
    some (.value (charValue r.1), r.2)
  | .fputc ch => some (.value ch, write a [charByte ch])
  | .fseek offset whence =>
    if base a whence + offset < 0 then none
    else some (.value 0, { a with pos := (base a whence + offset).toNat, reading := false })
  | .ftell => some (.value a.pos, a)
  | .rewind => some (.nothing, { a with pos := 0, reading := false })
  | .fflush => if a.reading then none else some (.value 0, a)

/-- A sequence of calls. -/
def run : List Call → Bytes → Option (List Reply × Bytes)
  | [], a => some ([], a)
  | c :: rest, a => (call a c).bind fun r => (run rest r.2).map fun r' => (r.1 :: r'.1, r'.2)
end Spec

/-! ## Model -/

/-- An open file: `moves` says how much the system calls transfer. -/
structure File where
  contents : List UInt8
  pos : ℕ
  moves : ℕ → ℕ
  calls : ℕ

namespace File
variable (f : File)
/-- A positive part of `n` bytes. -/
def part (n : ℕ) : ℕ := min n (max 1 (f.moves f.calls))

/-- `read`. -/
def read (n : ℕ) : List UInt8 × File :=
  let available := readAt f.contents f.pos n
  let k := f.part available.length
  (available.take k, { f with pos := f.pos + k, calls := f.calls + 1 })

/-- `write`. -/
def write (d : List UInt8) : ℕ × File :=
  let k := f.part d.length
  (k, { f with
    contents := writeAt f.contents f.pos (d.take k), pos := f.pos + k, calls := f.calls + 1 })

/-- The position that `lseek` counts from. -/
def base : Whence → ℕ
  | .set => 0
  | .cur => f.pos
  | .end_ => f.contents.length

/-- `lseek`. -/
def lseek (offset : ℤ) (whence : Whence) : ℤ × File :=
  let target := f.base whence + offset
  if target < 0 then (-1, f) else (target, { f with pos := target.toNat })

/-- `write` writes a positive part. -/
lemma write_spec {d : List UInt8} (hd : d ≠ []) :
    ∃ k f', f.write d = (k, f') ∧ 0 < k ∧ k ≤ d.length ∧
      f'.contents = writeAt f.contents f.pos (d.take k) ∧ f'.pos = f.pos + k := by
  have := length_pos_iff.2 hd
  refine ⟨_, _, rfl, ?_, Nat.min_le_left _ _, rfl, rfl⟩
  rw [part]
  omega

/-- `read` gives the next bytes, and none only at the end. -/
lemma read_spec {n : ℕ} (hn : 0 < n) :
    ∃ l f', f.read n = (l, f') ∧ l = readAt f.contents f.pos l.length ∧ l.length ≤ n ∧
      (l = [] → f.contents.length ≤ f.pos) ∧ f'.contents = f.contents ∧
      f'.pos = f.pos + l.length := by
  obtain ⟨k, hk⟩ : ∃ k, f.part (readAt f.contents f.pos n).length = k := ⟨_, rfl⟩
  have hle : k ≤ (readAt f.contents f.pos n).length := hk ▸ Nat.min_le_left _ _
  have hl : ((readAt f.contents f.pos n).take k).length = k := by
    rw [length_take, Nat.min_eq_left hle]
  have hkn : k ≤ n := by
    rw [length_readAt] at hle
    omega
  refine ⟨_, _, rfl, ?_, ?_, fun hnil => ?_, rfl, ?_⟩
  · rw [hk, hl, take_readAt _ _ hkn]
  · rw [hk, hl]
    exact hkn
  · rw [hk] at hnil
    rw [← readAt_eq_nil_iff f.contents f.pos hn, ← length_eq_zero_iff]
    have hz := congrArg List.length hnil
    rw [hl, length_nil] at hz
    rw [part] at hk
    omega
  dsimp only
  rw [hk, hl]
end File

/-- `last_op`. -/
inductive LastOp
  | none | read | write
  deriving DecidableEq

/-- `FILE_DEFAULT_BUFFER_SIZE`. -/
def fileDefaultBufferSize : ℕ := 4096

/-- `struct _IO_FILE` with the flags that the calls use. -/
structure Stream where
  file : File
  canRead : Bool
  canWrite : Bool
  eof : Bool
  error : Bool
  buffer : ℕ → UInt8
  bufferPos : ℕ
  bufferEnd : ℕ
  offset : ℤ
  lastOp : LastOp

namespace Stream
/-- `fopen` with mode `r+` or `w+`, for a file with these contents after `open`. -/
def fopen (contents : List UInt8) (moves : ℕ → ℕ) (buffer : ℕ → UInt8) : Stream where
  file := ⟨contents, 0, moves, 0⟩
  canRead := true
  canWrite := true
  eof := false
  error := false
  buffer := buffer
  bufferPos := 0
  bufferEnd := 0
  offset := 0
  lastOp := .none

variable (s : Stream)
/-- `stream_mark_error` (lines 78-85). -/
def markError : Stream := { s with error := true }

/-- `stream_reset_buffer` (lines 87-93). -/
def resetBuffer : Stream := { s with bufferPos := 0, bufferEnd := 0 }

/-- The loop of `stream_flush_write` (lines 181-200) and what follows it. -/
def flushLoop (pending : ℕ) : ℕ → ℕ → Stream → Option (Bool × Stream)
  | 0, _, _ => none
  | fuel + 1, offset, s =>
    if offset < pending then
      let r := s.file.write (slice s.buffer offset (pending - offset))
      if r.1 = 0 then some (false, s.markError)
      else
        flushLoop pending fuel (offset + r.1) { s with file := r.2, offset := s.offset + r.1 }
    else some (true, s.resetBuffer)

/-- `stream_flush_write` (lines 168-205). -/
def streamFlushWrite : Option (Bool × Stream) :=
  if s.lastOp ≠ .write then some (true, s)
  else flushLoop s.bufferPos (s.bufferPos + 1) 0 s

/-- `stream_prepare_for_read` (lines 207-232). -/
def streamPrepareForRead : Option (Bool × Stream) :=
  if s.canRead = false then some (false, s.markError)
  else
    let flushed := if s.lastOp = .write then
        s.streamFlushWrite.map fun r => (r.1, if r.1 then { r.2 with lastOp := .none } else r.2)
      else some (true, s)
    flushed.map fun r =>
      if r.1 then
        let s := if r.2.lastOp ≠ .read then r.2.resetBuffer else r.2
        (true, { s with lastOp := .read, eof := false })
      else r

/-- `stream_prepare_for_write` (lines 234-264). -/
def streamPrepareForWrite : Bool × Stream :=
  if s.canWrite = false then (false, s.markError)
  else if s.lastOp = .read then
    let unread := s.bufferEnd - s.bufferPos
    if 0 < unread then
      let r := s.file.lseek (-(unread : ℤ)) .cur
      if r.1 < 0 then (false, s.markError)
      else
        (true, { { s with file := r.2, offset := r.1 }.resetBuffer with
          lastOp := .write, eof := false })
    else (true, { s.resetBuffer with lastOp := .write, eof := false })
  else (true, { s with lastOp := .write, eof := false })

/-- `multiply_will_overflow` (lines 320-330). -/
def multiplyWillOverflow (a b : ℕ) : Option ℕ :=
  if a = 0 ∨ b = 0 then some 0
  else if (2 ^ 64 - 1) / a < b then none
  else some (a * b)

/-- The loop of `fread` (lines 576-603). `out`: the bytes that were stored. -/
def readLoop (total : ℕ) : ℕ → List UInt8 → Stream → Option (List UInt8 × Stream)
  | 0, _, _ => none
  | fuel + 1, out, s =>
    if out.length < total then
      if s.bufferPos < s.bufferEnd then
        let toCopy := min (s.bufferEnd - s.bufferPos) (total - out.length)
        readLoop total fuel (out ++ slice s.buffer s.bufferPos toCopy)
          { s with bufferPos := s.bufferPos + toCopy }
      else
        let r := s.file.read fileDefaultBufferSize
        if r.1 = [] then some (out, { s with file := r.2, eof := true })
        else
          readLoop total fuel out { s with
            file := r.2
            buffer := fill s.buffer 0 r.1
            bufferPos := 0
            bufferEnd := r.1.length
            offset := s.offset + r.1.length }
    else some (out, s)

/-- `fread` (lines 553-606): the bytes, the count and the stream. -/
def fread (size nmemb : ℕ) : Option (List UInt8 × ℕ × Stream) :=
  if size = 0 ∨ nmemb = 0 then some ([], 0, s)
  else
    match multiplyWillOverflow size nmemb with
    | none => some ([], 0, s.markError)
    | some total =>
      match s.streamPrepareForRead with
      | none => none
      | some (false, s) => some ([], 0, s)
      | some (true, s) =>
        (readLoop total (2 * total + 2) [] s).map fun r => (r.1, r.1.length / size, r.2)

/-- The loop of `fwrite` (lines 631-662) with the bytes to go: the number of those written. -/
def writeLoop : ℕ → List UInt8 → Stream → Option (ℕ × Stream)
  | 0, _, _ => none
  | fuel + 1, d, s =>
    if 0 < d.length then
      let room := if fileDefaultBufferSize - s.bufferPos = 0 then s.streamFlushWrite
        else some (true, s)
      match room with
      | none => none
      | some (false, s) => some (0, s)
      | some (true, s) =>
        let space := fileDefaultBufferSize - s.bufferPos
        if fileDefaultBufferSize ≤ d.length ∧ s.bufferPos = 0 then
          let r := s.file.write d
          if r.1 = 0 then some (0, s.markError)
          else
            (writeLoop fuel (d.drop r.1) { s with file := r.2, offset := s.offset + r.1 }).map
              fun w => (r.1 + w.1, w.2)
        else
          let toCopy := min d.length space
          (writeLoop fuel (d.drop toCopy) { s with
            buffer := fill s.buffer s.bufferPos (d.take toCopy)
            bufferPos := s.bufferPos + toCopy }).map fun w => (toCopy + w.1, w.2)
    else some (0, s)

/-- `fwrite` (lines 608-665). -/
def fwrite (size nmemb : ℕ) (data : ℕ → UInt8) : Option (ℕ × Stream) :=
  if size = 0 ∨ nmemb = 0 then some (0, s)
  else
    match multiplyWillOverflow size nmemb with
    | none => some (0, s.markError)
    | some total =>
      match s.streamPrepareForWrite with
      | (false, s) => some (0, s)
      | (true, s) => (writeLoop (total + 1) (slice data 0 total) s).map fun w => (w.1 / size, w.2)

/-- `fflush` (lines 475-494). -/
def fflush : Option (ℤ × Stream) :=
  match s.lastOp with
  | .write => s.streamFlushWrite.map fun r =>
      if r.1 then (0, { r.2 with lastOp := .none }) else (-1, r.2)
  | .read => some (0, { s.resetBuffer with lastOp := .none })
  | .none => some (0, s)

/-- `ftell` (lines 496-513). -/
def ftell : ℤ :=
  match s.lastOp with
  | .read =>
    if s.bufferPos ≤ s.bufferEnd then s.offset - (s.bufferEnd - s.bufferPos : ℕ) else s.offset
  | .write => s.offset + s.bufferPos
  | .none => s.offset

/-- `fseek` (lines 515-543). -/
def fseek (offset : ℤ) (whence : Whence) : Option (ℤ × Stream) :=
  match s.streamFlushWrite with
  | none => none
  | some (false, s) => some (-1, s)
  | some (true, s) =>
    let offset := match s.lastOp, whence with
      | .read, .cur =>
        if s.bufferPos ≤ s.bufferEnd then offset - (s.bufferEnd - s.bufferPos : ℕ) else offset
      | _, _ => offset
    let r := s.file.lseek offset whence
    if r.1 < 0 then some (-1, s.markError)
    else
      some (0, { { s with file := r.2, offset := r.1 }.resetBuffer with
        lastOp := .none, eof := false })

/-- `rewind` (lines 545-551). -/
def rewind : Option Stream :=
  (s.fseek 0 .set).map fun r => { r.2 with error := false, eof := false }

/-- `fgetc` (lines 1241-1254). -/
def fgetc : Option (ℤ × Stream) :=
  (s.fread 1 1).map fun r => (if r.2.1 = 1 then charValue r.1 else -1, r.2.2)

/-- `fputc` (lines 1256-1263). -/
def fputc (ch : ℤ) : Option (ℤ × Stream) :=
  (s.fwrite 1 1 fun _ => charByte ch).map fun r => (if r.1 = 1 then ch else -1, r.2)

/-- A call. -/
def call : Call → Option (Reply × Stream)
  | .fread size nmemb => (s.fread size nmemb).map fun r => (.bytes r.1 r.2.1, r.2.2)
  | .fwrite size nmemb data => (s.fwrite size nmemb data).map fun r => (.value r.1, r.2)
  | .fgetc => s.fgetc.map fun r => (.value r.1, r.2)
  | .fputc ch => (s.fputc ch).map fun r => (.value r.1, r.2)
  | .fseek offset whence => (s.fseek offset whence).map fun r => (.value r.1, r.2)
  | .ftell => some (.value s.ftell, s)
  | .rewind => s.rewind.map fun s => (.nothing, s)
  | .fflush => s.fflush.map fun r => (.value r.1, r.2)

/-- A sequence of calls. -/
def run : List Call → Stream → Option (List Reply × Stream)
  | [], s => some ([], s)
  | c :: rest, s => (s.call c).bind fun r => (run rest r.2).map fun r' => (r.1 :: r'.1, r'.2)

/-! ## The three states of a stream -/

/-- A stream for both directions that knows the position of its file. -/
structure Open (s : Stream) : Prop where
  canRead : s.canRead = true
  canWrite : s.canWrite = true
  offset : s.offset = s.file.pos

/-- The buffer is empty: the stream stands for the contents `c` with the position `p`. -/
structure Settled (s : Stream) (c : List UInt8) (p : ℕ) : Prop where
  isOpen : s.Open
  lastOp : s.lastOp = .none
  bufferPos : s.bufferPos = 0
  bufferEnd : s.bufferEnd = 0
  contents : s.file.contents = c
  pos : s.file.pos = p

/-- The buffer holds the bytes from `p` up to the position of the file. -/
structure Ahead (s : Stream) (c : List UInt8) (p : ℕ) : Prop where
  isOpen : s.Open
  lastOp : s.lastOp = .read
  order : s.bufferPos ≤ s.bufferEnd
  fits : s.bufferEnd ≤ fileDefaultBufferSize
  contents : s.file.contents = c
  pos : s.file.pos = p + (s.bufferEnd - s.bufferPos)
  ahead : slice s.buffer s.bufferPos (s.bufferEnd - s.bufferPos) =
    readAt c p (s.bufferEnd - s.bufferPos)

/-- The buffer holds the bytes that are to be written before `p`. -/
structure Behind (s : Stream) (c : List UInt8) (p : ℕ) : Prop where
  isOpen : s.Open
  lastOp : s.lastOp = .write
  fits : s.bufferPos ≤ fileDefaultBufferSize
  contents : writeAt s.file.contents s.file.pos (slice s.buffer 0 s.bufferPos) = c
  pos : s.file.pos + s.bufferPos = p

/-- The stream stands for the list of bytes. -/
def Simulates (a : Spec.Bytes) : Prop :=
  (s.Settled a.contents a.pos ∨ s.Behind a.contents a.pos) ∧ a.reading = false ∨
    s.Ahead a.contents a.pos ∧ a.reading = true

section
variable {s : Stream} {c : List UInt8} {p : ℕ} {fl : ℕ}
/-- The loop writes what is left. -/
theorem flushLoop_spec {pn offset : ℕ} (hfu : pn - offset < fl) (hle : offset ≤ pn) (hop : s.Open) :
    ∃ file, flushLoop pn fl offset s = some (true, { s.resetBuffer with
        file := file, offset := file.pos }) ∧
      file.contents = writeAt s.file.contents s.file.pos (slice s.buffer offset (pn - offset)) ∧
      file.pos = s.file.pos + (pn - offset) := by
  induction fl generalizing offset s with
  | zero => omega
  | succ fl ih =>
    rw [flushLoop]
    by_cases hlt : offset < pn
    · rw [if_pos hlt]
      have hne : slice s.buffer offset (pn - offset) ≠ [] :=
        ne_nil_of_length_pos (by rw [length_slice]; omega)
      obtain ⟨k, f, hwr, hpos, hk, hcontents, hf⟩ := s.file.write_spec hne
      rw [length_slice] at hk
      rw [take_slice _ _ hk] at hcontents
      rw [hwr]
      rw [if_neg (by omega)]
      have ho' : Open { s with file := f, offset := s.offset + k } :=
        ⟨hop.canRead, hop.canWrite, by
          show s.offset + k = f.pos
          rw [hop.offset, hf]
          push_cast
          rfl⟩
      have hf' : pn - (offset + k) < fl := by omega
      have hl' : offset + k ≤ pn := by omega
      obtain ⟨file, hr, hc', hp'⟩ := ih hf' hl' ho'
      refine ⟨file, hr, ?_, ?_⟩
      · rw [hc', show pn - offset = k + (pn - (offset + k)) by omega, slice_add,
          writeAt_append, length_slice, ← hcontents, ← hf]
      · rw [hp', hf]
        omega
    rw [if_neg hlt]
    obtain rfl : offset = pn := by omega
    refine ⟨s.file, ?_, ?_, ?_⟩
    · rw [← hop.offset]
      rfl
    · rw [Nat.sub_self]
      exact (writeAt_nil _ _).symm
    · omega

/-- `stream_flush_write` writes the buffer. -/
lemma Behind.flush (h : s.Behind c p) : ∃ file,
    s.streamFlushWrite = some (true, { s.resetBuffer with file := file, offset := file.pos }) ∧
      file.contents = c ∧ file.pos = p := by
  rw [streamFlushWrite, if_neg (not_not.2 h.lastOp)]
  obtain ⟨file, hr, hcontents, hpos⟩ :=
    flushLoop_spec (Nat.lt_succ_self _) (Nat.zero_le s.bufferPos) h.isOpen
  refine ⟨file, hr, ?_, ?_⟩
  · rw [hcontents, Nat.sub_zero, h.contents]
  · rw [hpos, Nat.sub_zero, h.pos]

lemma settled_of_file (file : File) (hs : s.Open) (hcontents : file.contents = c)
    (hpos : file.pos = p) : Settled { s.resetBuffer with
      file := file, offset := file.pos, lastOp := .none } c p :=
  ⟨{ hs with offset := rfl }, rfl, rfl, rfl, hcontents, hpos⟩

lemma Settled.toAhead (h : s.Settled c p) : Ahead { s with lastOp := .read, eof := false } c p := by
  refine ⟨{ h.isOpen with }, rfl, ?_, ?_, h.contents, ?_, ?_⟩
  · show s.bufferPos ≤ s.bufferEnd
    rw [h.bufferPos]
    exact Nat.zero_le _
  · show s.bufferEnd ≤ _
    rw [h.bufferEnd]
    exact Nat.zero_le _
  · show s.file.pos = p + (s.bufferEnd - s.bufferPos)
    rw [h.bufferPos, h.bufferEnd]
    exact h.pos
  show slice s.buffer s.bufferPos (s.bufferEnd - s.bufferPos) =
    readAt c p (s.bufferEnd - s.bufferPos)
  rw [h.bufferPos, h.bufferEnd]
  rfl

lemma Settled.toBehind (h : s.Settled c p) : Behind { s with lastOp := .write, eof := false } c p := by
  refine ⟨{ h.isOpen with }, rfl, ?_, ?_, ?_⟩
  · show s.bufferPos ≤ _
    rw [h.bufferPos]
    exact Nat.zero_le _
  · show writeAt s.file.contents s.file.pos (slice s.buffer 0 s.bufferPos) = c
    rw [h.bufferPos, h.contents]
    exact writeAt_nil _ _
  show s.file.pos + s.bufferPos = p
  rw [h.bufferPos, h.pos]
  rfl

/-- `stream_prepare_for_read` writes what is to be written. -/
lemma Simulates.prepareForRead {a : Spec.Bytes} (h : s.Simulates a) :
    ∃ s', s.streamPrepareForRead = some (true, s') ∧ s'.Ahead a.contents a.pos := by
  unfold streamPrepareForRead
  rcases h with ⟨h | h, -⟩ | ⟨h, -⟩
  · rw [if_neg (by simp [h.isOpen.canRead]), if_neg (by simp [h.lastOp])]
    refine ⟨_, rfl, ?_⟩
    rw [if_pos (by simp [h.lastOp])]
    have hr : s.resetBuffer.Settled a.contents a.pos :=
      ⟨{ h.isOpen with }, h.lastOp, rfl, rfl, h.contents, h.pos⟩
    exact hr.toAhead
  · obtain ⟨file, hf, hcontents, hpos⟩ := h.flush
    rw [if_neg (by simp [h.isOpen.canRead]), if_pos h.lastOp, hf]
    exact ⟨_, rfl, (settled_of_file file h.isOpen hcontents hpos).toAhead⟩
  rw [if_neg (by simp [h.isOpen.canRead]), if_neg (by simp [h.lastOp])]
  refine ⟨_, rfl, ?_⟩
  rw [if_neg (by simp [h.lastOp])]
  exact ⟨{ h.isOpen with }, rfl, h.order, h.fits, h.contents, h.pos, h.ahead⟩

/-- `stream_prepare_for_write` gives back what was not read. -/
lemma Simulates.prepareForWrite {a : Spec.Bytes} (h : s.Simulates a) :
    ∃ s', s.streamPrepareForWrite = (true, s') ∧ s'.Behind a.contents a.pos := by
  unfold streamPrepareForWrite
  rcases h with ⟨h | h, -⟩ | ⟨h, -⟩
  · rw [if_neg (by simp [h.isOpen.canWrite]), if_neg (by simp [h.lastOp])]
    exact ⟨_, rfl, h.toBehind⟩
  · rw [if_neg (by simp [h.isOpen.canWrite]), if_neg (by simp [h.lastOp])]
    exact ⟨_, rfl, { h.isOpen with }, rfl, h.fits, h.contents, h.pos⟩
  rw [if_neg (by simp [h.isOpen.canWrite]), if_pos h.lastOp]
  by_cases hu : 0 < s.bufferEnd - s.bufferPos
  · have ht : (s.file.base .cur : ℤ) + -((s.bufferEnd - s.bufferPos : ℕ) : ℤ) = a.pos := by
      show (s.file.pos : ℤ) + _ = _
      rw [h.pos]
      push_cast
      omega
    have hsk : s.file.lseek (-((s.bufferEnd - s.bufferPos : ℕ) : ℤ)) .cur =
        ((a.pos : ℤ), { s.file with pos := a.pos }) := by
      rw [File.lseek, ht, if_neg (by omega), Int.toNat_natCast]
    rw [if_pos hu, hsk, if_neg (by omega)]
    have hse := settled_of_file { s.file with pos := a.pos } h.isOpen h.contents rfl
    exact ⟨_, rfl, hse.toBehind⟩
  rw [if_neg hu]
  have hpos : s.file.pos = a.pos := by
    rw [h.pos]
    omega
  have hse : Settled { s.resetBuffer with lastOp := .none } a.contents a.pos :=
    ⟨{ h.isOpen with }, rfl, rfl, rfl, h.contents, hpos⟩
  exact ⟨_, rfl, hse.toBehind⟩

/-! ## The loops of the transfers -/

lemma Ahead.skip (h : s.Ahead c p) {k : ℕ} (hk : k ≤ s.bufferEnd - s.bufferPos) :
    slice s.buffer s.bufferPos k = readAt c p k ∧
      Ahead { s with bufferPos := s.bufferPos + k } c (p + k) := by
  have := h.order
  refine ⟨?_, { h.isOpen with }, h.lastOp, ?_, h.fits, h.contents, ?_, ?_⟩
  · rw [← take_slice _ _ hk, h.ahead, take_readAt _ _ hk]
  · show s.bufferPos + k ≤ s.bufferEnd
    omega
  · show s.file.pos = p + k + (s.bufferEnd - (s.bufferPos + k))
    rw [h.pos]
    omega
  show slice s.buffer (s.bufferPos + k) (s.bufferEnd - (s.bufferPos + k)) =
    readAt c (p + k) (s.bufferEnd - (s.bufferPos + k))
  rw [← Nat.sub_sub, ← drop_slice _ _ hk, h.ahead, drop_readAt]

/-- The loop of `fread` gives the bytes that are left to be had. -/
theorem readLoop_spec {t : ℕ} {o : List UInt8} (h : s.Ahead c p) (hout : o.length ≤ t)
    (hfu : 2 * (t - o.length) + (if s.bufferPos < s.bufferEnd then 0 else 1) < fl) :
    ∃ s', readLoop t fl o s = some (o ++ readAt c p (t - o.length), s') ∧
      s'.Ahead c (p + (readAt c p (t - o.length)).length) := by
  induction fl generalizing o s p with
  | zero => omega
  | succ fl ih =>
    rw [readLoop]
    by_cases hmo : o.length < t
    · rw [if_pos hmo]
      by_cases hb : s.bufferPos < s.bufferEnd
      · rw [if_pos hb] at hfu ⊢
        dsimp only
        obtain ⟨k, hk⟩ : ∃ k, min (s.bufferEnd - s.bufferPos) (t - o.length) = k := ⟨_, rfl⟩
        obtain ⟨hc, ha⟩ := h.skip (show k ≤ s.bufferEnd - s.bufferPos by omega)
        rw [hk, hc]
        have hle : (readAt c p k).length = k := by rw [← hc, length_slice]
        have ho' : (o ++ readAt c p k).length = o.length + k := by rw [length_append, hle]
        have hf' : 2 * (t - (o ++ readAt c p k).length) +
            (if s.bufferPos + k < s.bufferEnd then 0 else 1) < fl := by
          rw [ho']
          split_ifs <;> omega
        obtain ⟨s', hr, hs'⟩ := ih ha (by omega) hf'
        have hsp : readAt c p (t - o.length) =
            readAt c p k ++ readAt c (p + k) (t - (o ++ readAt c p k).length) := by
          rw [ho', ← readAt_add]
          congr 1
          omega
        generalize readAt c (p + k) (t - (o ++ readAt c p k).length) = rest at hr hs' hsp
        rw [hsp, length_append, hle, ← append_assoc, ← Nat.add_assoc]
        exact ⟨s', hr, hs'⟩
      · rw [if_neg hb] at hfu ⊢
        have := h.order
        have hpos : s.file.pos = p := by
          rw [h.pos]
          omega
        obtain ⟨l, f, hre, hl, hsz, he, hcontents, hf⟩ :=
          s.file.read_spec (show 0 < fileDefaultBufferSize by decide)
        rw [h.contents, hpos] at hl he
        rw [hpos] at hf
        rw [h.contents] at hcontents
        rw [hre]
        by_cases hnil : l = []
        · rw [if_pos hnil]
          have hno : readAt c p (t - o.length) = [] :=
            (readAt_eq_nil_iff c p (by omega)).2 (he hnil)
          rw [hno, append_nil]
          rw [hnil, length_nil, Nat.add_zero] at hf
          refine ⟨_, rfl, { h.isOpen with offset := ?_ }, h.lastOp, h.order, h.fits,
            hcontents, ?_, h.ahead⟩
          · show s.offset = f.pos
            rw [h.isOpen.offset, hf, hpos]
          · show f.pos = p + (s.bufferEnd - s.bufferPos)
            rw [hf]
            omega
        · rw [if_neg hnil]
          have hle := length_pos_iff.2 hnil
          have ha : Ahead { s with
              file := f
              buffer := fill s.buffer 0 l
              bufferPos := 0
              bufferEnd := l.length
              offset := s.offset + l.length } c p := by
            refine ⟨{ h.isOpen with offset := ?_ }, h.lastOp, Nat.zero_le _, hsz, hcontents, hf, ?_⟩
            · show s.offset + l.length = f.pos
              rw [h.isOpen.offset, hf, hpos]
              push_cast
              rfl
            · show slice (fill s.buffer 0 l) 0 (l.length - 0) = readAt c p (l.length - 0)
              rw [Nat.sub_zero, slice_fill]
              exact hl
          exact ih ha hout (by dsimp only; rw [if_pos hle]; omega)
    rw [if_neg hmo, show t - o.length = 0 by omega]
    refine ⟨s, ?_, ?_⟩
    · simp [readAt]
    · simpa [readAt] using h

lemma Behind.makeRoom (h : s.Behind c p) : ∃ s',
    (if fileDefaultBufferSize - s.bufferPos = 0 then s.streamFlushWrite else some (true, s)) =
      some (true, s') ∧ s'.Behind c p ∧ s'.bufferPos < fileDefaultBufferSize := by
  have := h.fits
  by_cases hf : fileDefaultBufferSize - s.bufferPos = 0
  · obtain ⟨file, hfl, hcontents, hpos⟩ := h.flush
    rw [if_pos hf, hfl]
    refine ⟨_, rfl, ⟨{ h.isOpen with offset := rfl }, h.lastOp, Nat.zero_le _, ?_, ?_⟩,
      show 0 < fileDefaultBufferSize by decide⟩
    · show writeAt file.contents file.pos (slice s.buffer 0 0) = c
      rw [hcontents]
      exact writeAt_nil _ _
    · exact hpos
  rw [if_neg hf]
  exact ⟨s, rfl, h, by omega⟩

/-- After `k` bytes, the rest. -/
lemma writeLoop_step {s1 : Stream} {d : List UInt8} {k : ℕ} (hk : k ≤ d.length) {s' : Stream}
    (hr : writeLoop fl (d.drop k) s1 = some ((d.drop k).length, s'))
    (hs' : s'.Behind (writeAt (writeAt c p (d.take k)) (p + k) (d.drop k))
      (p + k + (d.drop k).length)) :
    ∃ s', (writeLoop fl (d.drop k) s1).map (fun w => (k + w.1, w.2)) = some (d.length, s') ∧
      s'.Behind (writeAt c p d) (p + d.length) := by
  have ht : (d.take k).length = k := by rw [length_take, Nat.min_eq_left hk]
  have hsum : k + (d.drop k).length = d.length := by
    rw [length_drop]
    omega
  refine ⟨s', ?_, ?_⟩
  · rw [hr, map_some, hsum]
  have ha := writeAt_append c p (d.take k) (d.drop k)
  rw [take_append_drop, ht] at ha
  rw [ha, ← hsum, ← Nat.add_assoc]
  exact hs'

/-- The loop of `fwrite` writes the bytes, or keeps them in the buffer. -/
theorem writeLoop_spec {d : List UInt8} (h : s.Behind c p) (hfu : d.length < fl) :
    ∃ s', writeLoop fl d s = some (d.length, s') ∧ s'.Behind (writeAt c p d) (p + d.length) := by
  induction fl generalizing d s c p with
  | zero => omega
  | succ fl ih =>
    rw [writeLoop]
    by_cases hmo : 0 < d.length
    · rw [if_pos hmo]
      obtain ⟨s1, hro, h1, hsp⟩ := h.makeRoom
      rw [hro]
      dsimp only
      by_cases hdi : fileDefaultBufferSize ≤ d.length ∧ s1.bufferPos = 0
      · rw [if_pos hdi]
        obtain ⟨k, f, hwr, hpos, hk, hcontents, hf⟩ := s1.file.write_spec (ne_nil_of_length_pos hmo)
        have hc : s1.file.contents = c := by
          rw [← h1.contents, hdi.2]
          exact (writeAt_nil _ _).symm
        have hp : s1.file.pos = p := by
          rw [← h1.pos, hdi.2]
          rfl
        rw [hc, hp] at hcontents
        rw [hp] at hf
        rw [hwr]
        rw [if_neg (by omega)]
        have hb : Behind { s1 with file := f, offset := s1.offset + k }
            (writeAt c p (d.take k)) (p + k) := by
          refine ⟨{ h1.isOpen with offset := ?_ }, h1.lastOp, h1.fits, ?_, ?_⟩
          · show s1.offset + k = f.pos
            rw [h1.isOpen.offset, hf, hp]
            push_cast
            rfl
          · show writeAt f.contents f.pos (slice s1.buffer 0 s1.bufferPos) = _
            rw [hdi.2, hcontents]
            exact writeAt_nil _ _
          · show f.pos + s1.bufferPos = p + k
            rw [hdi.2, hf]
            rfl
        obtain ⟨s', hr, hs'⟩ := ih hb (show (d.drop k).length < fl by rw [length_drop]; omega)
        exact writeLoop_step hk hr hs'
      · rw [if_neg hdi]
        obtain ⟨k, hkeq⟩ : ∃ k, min d.length (fileDefaultBufferSize - s1.bufferPos) = k := ⟨_, rfl⟩
        have hk : k ≤ d.length := by omega
        have ht : (d.take k).length = k := by rw [length_take, Nat.min_eq_left hk]
        rw [hkeq]
        have hb : Behind { s1 with
            buffer := fill s1.buffer s1.bufferPos (d.take k)
            bufferPos := s1.bufferPos + k } (writeAt c p (d.take k)) (p + k) := by
          refine ⟨{ h1.isOpen with }, h1.lastOp, ?_, ?_, ?_⟩
          · show s1.bufferPos + k ≤ fileDefaultBufferSize
            omega
          · show writeAt s1.file.contents s1.file.pos
              (slice (fill s1.buffer s1.bufferPos (d.take k)) 0 (s1.bufferPos + k)) = _
            have hfl := slice_fill s1.buffer s1.bufferPos (d.take k)
            rw [ht] at hfl
            rw [slice_add, slice_fill_before, Nat.zero_add, hfl, writeAt_append, length_slice,
              h1.contents, h1.pos]
          · show s1.file.pos + (s1.bufferPos + k) = p + k
            rw [← h1.pos]
            omega
        obtain ⟨s', hr, hs'⟩ := ih hb (show (d.drop k).length < fl by rw [length_drop]; omega)
        exact writeLoop_step hk hr hs'
    obtain rfl : d = [] := length_eq_zero_iff.1 (by omega)
    rw [if_neg hmo, writeAt_nil]
    exact ⟨s, rfl, h⟩

/-! ## The calls -/

lemma multiplyWillOverflow_eq {a b : ℕ} (ha : a ≠ 0) (hb : b ≠ 0) :
    multiplyWillOverflow a b = if 2 ^ 64 ≤ a * b then none else some (a * b) := by
  rw [multiplyWillOverflow, if_neg (not_or.2 ⟨ha, hb⟩)]
  refine if_congr ?_ rfl rfl
  rw [Nat.div_lt_iff_lt_mul (Nat.pos_of_ne_zero ha), Nat.mul_comm b a]
  omega

variable {a a' : Spec.Bytes}
lemma Ahead.simulates (h : s.Ahead c p) : s.Simulates ⟨c, p, true⟩ := .inr ⟨h, rfl⟩

lemma Behind.simulates (h : s.Behind c p) : s.Simulates ⟨c, p, false⟩ := .inl ⟨.inr h, rfl⟩

lemma Settled.simulates (h : s.Settled c p) : s.Simulates ⟨c, p, false⟩ := .inl ⟨.inl h, rfl⟩

lemma Simulates.flags (h : s.Simulates a) (error eof : Bool) :
    Simulates { s with error := error, eof := eof } a := by
  rcases h with ⟨h | h, hr⟩ | ⟨h, hr⟩
  · exact .inl ⟨.inl { h with isOpen := { h.isOpen with } }, hr⟩
  · exact .inl ⟨.inr { h with isOpen := { h.isOpen with } }, hr⟩
  · exact .inr ⟨⟨{ h.isOpen with }, h.lastOp, h.order, h.fits, h.contents, h.pos, h.ahead⟩, hr⟩

variable {sz n : ℕ}
open Spec

section
variable (h : s.Simulates a)
include h
/-- `fread` of some bytes. -/
lemma Simulates.fread (hsz : sz ≠ 0) (hnm : n ≠ 0) (hfi : sz * n < 2 ^ 64) : ∃ s', s.fread sz n =
      some ((read a (sz * n)).1, (read a (sz * n)).1.length / sz, s') ∧
      s'.Simulates (read a (sz * n)).2 := by
  rw [Stream.fread, if_neg (not_or.2 ⟨hsz, hnm⟩), multiplyWillOverflow_eq hsz hnm,
    if_neg (by omega)]
  obtain ⟨s1, hp, ha⟩ := h.prepareForRead
  rw [hp]
  dsimp only
  have hf : 2 * (sz * n - ([] : List UInt8).length) +
      (if s1.bufferPos < s1.bufferEnd then 0 else 1) < 2 * (sz * n) + 2 := by
    rw [length_nil]
    split_ifs <;> omega
  obtain ⟨s', hr, hs'⟩ := readLoop_spec ha (Nat.zero_le _) hf
  rw [hr]
  exact ⟨s', rfl, hs'.simulates⟩

/-- `fwrite` of some bytes. -/
lemma Simulates.fwrite (hsz : sz ≠ 0) (hnm : n ≠ 0)
    (hf : sz * n < 2 ^ 64) (d : ℕ → UInt8) : ∃ s', s.fwrite sz n d =
      some (n, s') ∧ s'.Simulates (write a (slice d 0 (sz * n))) := by
  rw [Stream.fwrite, if_neg (not_or.2 ⟨hsz, hnm⟩), multiplyWillOverflow_eq hsz hnm,
    if_neg (by omega)]
  obtain ⟨s1, hp, hb⟩ := h.prepareForWrite
  rw [hp]
  dsimp only
  obtain ⟨s', hr, hs'⟩ := writeLoop_spec hb
    (show (slice d 0 (sz * n)).length < sz * n + 1 by rw [length_slice]; omega)
  rw [hr, map_some, length_slice, Nat.mul_div_cancel_left _ (Nat.pos_of_ne_zero hsz)]
  exact ⟨s', rfl, hs'.simulates⟩

/-- `fread` of no bytes, or of too many. -/
lemma Simulates.fread_nothing (hno : sz * n = 0 ∨ 2 ^ 64 ≤ sz * n) :
    ∃ s', s.call (.fread sz n) = some (.bytes [] 0, s') ∧ s'.Simulates a := by
  rw [Stream.call, Stream.fread]
  by_cases hz : sz = 0 ∨ n = 0
  · rw [if_pos hz]
    exact ⟨s, rfl, h⟩
  rw [if_neg hz]
  rw [not_or] at hz
  have := Nat.mul_pos (Nat.pos_of_ne_zero hz.1) (Nat.pos_of_ne_zero hz.2)
  rw [multiplyWillOverflow_eq hz.1 hz.2, if_pos (by omega)]
  exact ⟨_, rfl, h.flags true s.eof⟩

/-- `fwrite` of no bytes, or of too many. -/
lemma Simulates.fwrite_nothing (hno : sz * n = 0 ∨ 2 ^ 64 ≤ sz * n) (d : ℕ → UInt8) :
    ∃ s', s.call (.fwrite sz n d) = some (.value 0, s') ∧ s'.Simulates a := by
  rw [Stream.call, Stream.fwrite]
  by_cases hz : sz = 0 ∨ n = 0
  · rw [if_pos hz]
    exact ⟨s, rfl, h⟩
  rw [if_neg hz]
  rw [not_or] at hz
  have := Nat.mul_pos (Nat.pos_of_ne_zero hz.1) (Nat.pos_of_ne_zero hz.2)
  rw [multiplyWillOverflow_eq hz.1 hz.2, if_pos (by omega)]
  exact ⟨_, rfl, h.flags true s.eof⟩

lemma Simulates.ftell : s.ftell = a.pos := by
  rw [Stream.ftell]
  rcases h with ⟨h | h, -⟩ | ⟨h, -⟩
  · rw [h.lastOp, h.isOpen.offset, h.pos]
  · rw [h.lastOp, h.isOpen.offset, ← h.pos]
    push_cast
    rfl
  rw [h.lastOp]
  rw [if_pos h.order, h.isOpen.offset, h.pos]
  push_cast
  omega
end

variable {offset : ℤ} {w : Whence}
/-- `lseek` to a position that is not negative. -/
lemma lseek_of_nonneg {f : File} {t : ℕ} (h : f.base w + offset = t) :
    f.lseek offset w = ((t : ℤ), { f with pos := t }) := by
  rw [File.lseek, h, if_neg (by omega), Int.toNat_natCast]

/-- The last part of `fseek`. -/
lemma seek_settled {t : ℕ} (hop : s.Open) (hcontents : s.file.contents = c)
    (h : s.file.base w + offset = t) : (if (s.file.lseek offset w).1 < 0 then some (-1, s.markError)
      else some (0, { { s with file := (s.file.lseek offset w).2
                               offset := (s.file.lseek offset w).1 }.resetBuffer with
        lastOp := .none, eof := false })) = some ((0 : ℤ), { s with
        file := { s.file with pos := t }, offset := t, bufferPos := 0, bufferEnd := 0
        lastOp := .none, eof := false }) ∧ Settled { s with
      file := { s.file with pos := t }, offset := t, bufferPos := 0, bufferEnd := 0
      lastOp := .none, eof := false } c t := by
  rw [lseek_of_nonneg h, if_neg (by omega)]
  exact ⟨rfl, { hop with offset := rfl }, rfl, rfl, rfl, hcontents, rfl⟩

variable (h : s.Simulates a)
include h
/-- `fseek` to a position that is not negative. -/
theorem Simulates.fseek (ht : ¬ (base a w + offset < 0)) :
    ∃ s', s.fseek offset w = some (0, s') ∧ s'.Simulates
      { a with pos := (base a w + offset).toNat, reading := false } := by
  have hnat : ((base a w + offset).toNat : ℤ) = base a w + offset := Int.toNat_of_nonneg (by omega)
  generalize (base a w + offset).toNat = target at hnat
  unfold Stream.fseek
  rcases h with ⟨h | h, -⟩ | ⟨h, -⟩
  · rw [streamFlushWrite, if_pos (by simp [h.lastOp])]
    dsimp only
    have hb : s.file.base w + offset = target := by
      rw [hnat]
      cases w <;> simp [File.base, base, h.contents, h.pos]
    obtain ⟨hr, hs'⟩ := seek_settled h.isOpen h.contents hb
    rw [h.lastOp]
    exact ⟨_, hr, hs'.simulates⟩
  · obtain ⟨file, hf, hcontents, hpos⟩ := h.flush
    have hop : Open { s.resetBuffer with file := file, offset := file.pos } :=
      { h.isOpen with offset := rfl }
    obtain ⟨s1, hs1⟩ : ∃ s1 : Stream,
        s1 = { s.resetBuffer with file := file, offset := file.pos } := ⟨_, rfl⟩
    have hl : s1.lastOp = .write := by rw [hs1]; exact h.lastOp
    have hfi : s1.file = file := by rw [hs1]
    rw [← hs1] at hf hop
    rw [hf]
    dsimp only
    have hb : s1.file.base w + offset = target := by
      rw [hnat, hfi]
      cases w <;> simp [File.base, base, hcontents, hpos]
    obtain ⟨hr, hs'⟩ := seek_settled hop (hfi ▸ hcontents) hb
    rw [hl]
    exact ⟨_, hr, hs'.simulates⟩
  rw [streamFlushWrite, if_pos (by simp [h.lastOp])]
  dsimp only
  rw [h.lastOp]
  cases w with
  | set =>
    have hb : s.file.base .set + offset = target := hnat.symm
    obtain ⟨hr, hs'⟩ := seek_settled h.isOpen h.contents hb
    exact ⟨_, hr, hs'.simulates⟩
  | cur =>
    rw [if_pos h.order]
    have hb : s.file.base .cur + (offset - (s.bufferEnd - s.bufferPos : ℕ)) = target := by
      rw [hnat, File.base, base, h.pos]
      push_cast
      omega
    obtain ⟨hr, hs'⟩ := seek_settled h.isOpen h.contents hb
    exact ⟨_, hr, hs'.simulates⟩
  | end_ =>
    have hb : s.file.base .end_ + offset = target := by rw [hnat, File.base, base, h.contents]
    obtain ⟨hr, hs'⟩ := seek_settled h.isOpen h.contents hb
    exact ⟨_, hr, hs'.simulates⟩

theorem Simulates.fflush (hre : a.reading = false) :
    ∃ s', s.fflush = some (0, s') ∧ s'.Simulates a := by
  unfold Stream.fflush
  rcases h with ⟨h | h, hr⟩ | ⟨h, hr⟩
  · rw [h.lastOp]
    exact ⟨s, rfl, .inl ⟨.inl h, hr⟩⟩
  · obtain ⟨file, hf, hcontents, hpos⟩ := h.flush
    rw [h.lastOp, hf]
    refine ⟨_, rfl, .inl ⟨.inl ?_, hr⟩⟩
    exact ⟨{ h.isOpen with offset := rfl }, rfl, rfl, rfl, hcontents, hpos⟩
  rw [hre] at hr
  cases hr

/-- The file after a last `fflush`, in whatever direction. -/
lemma Simulates.contents_fflush :
    ∃ s', s.fflush = some (0, s') ∧ s'.file.contents = a.contents := by
  unfold Stream.fflush
  rcases h with ⟨h | h, -⟩ | ⟨h, -⟩
  · rw [h.lastOp]
    exact ⟨s, rfl, h.contents⟩
  · obtain ⟨file, hf, hcontents, -⟩ := h.flush
    rw [h.lastOp, hf]
    exact ⟨_, rfl, hcontents⟩
  rw [h.lastOp]
  exact ⟨_, rfl, h.contents⟩

lemma Simulates.call {c : Call} {r : Reply}
    (hsp : Spec.call a c = some (r, a')) : ∃ s', s.call c = some (r, s') ∧ s'.Simulates a' := by
  cases c with
  | fread sz n =>
    rw [Spec.call] at hsp
    split_ifs at hsp with hno
    · cases hsp
      exact h.fread_nothing hno
    cases hsp
    rw [not_or, Nat.mul_eq_zero, not_or] at hno
    obtain ⟨s', hr, hs'⟩ := h.fread hno.1.1 hno.1.2 (by omega)
    exact ⟨s', by rw [call, hr]; rfl, hs'⟩
  | fwrite sz n data =>
    rw [Spec.call] at hsp
    split_ifs at hsp with hno
    · cases hsp
      exact h.fwrite_nothing hno data
    cases hsp
    rw [not_or, Nat.mul_eq_zero, not_or] at hno
    obtain ⟨s', hr, hs'⟩ := h.fwrite hno.1.1 hno.1.2 (by omega) data
    exact ⟨s', by rw [call, hr]; rfl, hs'⟩
  | fgetc =>
    cases hsp
    obtain ⟨s', hr, hs'⟩ := h.fread Nat.one_ne_zero Nat.one_ne_zero (by decide)
    refine ⟨s', ?_, hs'⟩
    rw [call, fgetc, hr]
    dsimp only [map_some]
    rw [Nat.div_one]
    have hle : ((Spec.read a 1).1).length ≤ 1 := by
      rw [Spec.read, length_readAt]
      omega
    match hl : (Spec.read a 1).1, hle with
    | [], _ => rfl
    | [b], _ => rfl
  | fputc ch =>
    cases hsp
    obtain ⟨s', hr, hs'⟩ := h.fwrite Nat.one_ne_zero Nat.one_ne_zero (by decide)
      fun _ => charByte ch
    exact ⟨s', by rw [call, fputc, hr]; rfl, hs'⟩
  | fseek offset w =>
    rw [Spec.call] at hsp
    split_ifs at hsp with hneg
    cases hsp
    obtain ⟨s', hr, hs'⟩ := h.fseek hneg
    exact ⟨s', by rw [call, hr]; rfl, hs'⟩
  | ftell =>
    cases hsp
    exact ⟨s, by rw [call, h.ftell], h⟩
  | rewind =>
    cases hsp
    have ht : ¬ (Spec.base a .set + (0 : ℤ) < 0) := by simp [Spec.base]
    obtain ⟨s', hr, hs'⟩ := h.fseek ht
    exact ⟨_, by rw [call, rewind, hr]; rfl, hs'.flags false false⟩
  | fflush =>
    rw [Spec.call] at hsp
    split_ifs at hsp with hre
    cases hsp
    obtain ⟨s', hr, hs'⟩ := h.fflush (Bool.eq_false_iff.2 hre)
    exact ⟨s', by rw [call, hr]; rfl, hs'⟩

lemma Simulates.run {cl : List Call} {rp : List Reply} (hsp : Spec.run cl a = some (rp, a')) :
    ∃ s', run cl s = some (rp, s') ∧ s'.Simulates a' := by
  induction cl generalizing s a rp with
  | nil =>
    cases hsp
    exact ⟨s, rfl, h⟩
  | cons c rs ih =>
    obtain ⟨⟨r, a1⟩, hc, hre⟩ := bind_eq_some_iff.1 hsp
    obtain ⟨⟨r', a2⟩, hr, he⟩ := map_eq_some_iff.1 hre
    cases he
    obtain ⟨s1, hs1, h1⟩ := h.call hc
    obtain ⟨s', hs', h'⟩ := ih h1 hr
    exact ⟨s', by rw [run, hs1, bind_some, hs']; rfl, h'⟩
end

/-- A stream opened for update is a list of bytes with a position: every sequence of calls that
the list allows gives the same results on the stream, however much the system calls transfer,
and after a last `fflush` the file has the contents of the list. -/
theorem stream_is_array (contents : List UInt8) (moves : ℕ → ℕ) (buffer : ℕ → UInt8)
    (calls : List Call) {replies : List Reply} {a : Spec.Bytes}
    (hspec : Spec.run calls ⟨contents, 0, false⟩ = some (replies, a)) :
    ∃ s s', run calls (fopen contents moves buffer) = some (replies, s) ∧
      s.fflush = some (0, s') ∧ s'.file.contents = a.contents := by
  have hop : (fopen contents moves buffer).Settled contents 0 :=
    ⟨⟨rfl, rfl, rfl⟩, rfl, rfl, rfl, rfl, rfl⟩
  obtain ⟨s, hr, hs⟩ := hop.simulates.run hspec
  obtain ⟨s', hf, hcontents⟩ := hs.contents_fflush
  exact ⟨s, s', hr, hf, hcontents⟩

/-- Three bytes are read, one is written between them, and the third is read once more. -/
theorem stream_is_array_mixed : ∃ s s',
    run [.fgetc, .fputc 120, .fread 1 5, .fseek (-1) .cur, .fgetc, .ftell]
      (fopen [97, 98, 99] (fun _ => 1) fun _ => 0) =
        some ([.value 97, .value 120, .bytes [99] 1, .value 0, .value 99, .value 3], s) ∧
      s.fflush = some (0, s') ∧ s'.file.contents = [97, 120, 99] :=
  stream_is_array [97, 98, 99] (fun _ => 1) (fun _ => 0)
    [.fgetc, .fputc 120, .fread 1 5, .fseek (-1) .cur, .fgetc, .ftell] rfl
end Stream
end Menios.Libc
