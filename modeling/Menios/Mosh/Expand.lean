import Menios.Common.Strings

/-!
# Variables in a command of the shell

`shell_expand_dollar` and `shell_expand_variables` (`app/mosh/mosh.c`, lines 1199-1458), for
pointers that `debug_ptr_readable` takes; `get` is `shell_var_get`. The calls
of `debug_log_expand_start` and `debug_log_expand_dollar` are left out. They read the input up to
its NUL, with a `strlen` that counts in 16 bits.

Results:

* `expandDollar_yields`: one `$` in the code and in the specification.
* `expandVariables_eq_expansion`: the output is the expansion, if it fits, and each access is
  inside its buffer.
-/

namespace Menios.Mosh
open Common List

/-- Why there is no result: `false` was returned, a byte behind the NUL of the input was read or
one behind the output written, or the loop goes on. -/
inductive Stop
  | full
  | outside
  | running

/-- `output`, the bytes up to `capacity`, and `out_index`. -/
structure Out where
  output : List UInt8
  index : ℕ

/-- `output[*index] = ch`. -/
def Out.put (o : Out) (ch : UInt8) : Except Stop Out :=
  if o.index < o.output.length then .ok { o with output := o.output.set o.index ch }
  else .error .outside

def dollar : UInt8 := 0x24
def backslash : UInt8 := 0x5C
def openBrace : UInt8 := 0x7B
def closeBrace : UInt8 := 0x7D

/-- `shell_is_digit` (line 967). -/
def isDigit (ch : UInt8) : Bool := 0x30 ≤ ch && ch ≤ 0x39

/-- `shell_is_ident_start` with `shell_is_alpha` (lines 971-977). -/
def isIdentStart (ch : UInt8) : Bool :=
  0x61 ≤ ch && ch ≤ 0x7A || 0x41 ≤ ch && ch ≤ 0x5A || ch == 0x5F

/-- `shell_is_ident_char` (line 979). -/
def isIdentChar (ch : UInt8) : Bool := isIdentStart ch || isDigit ch

/-- `MOSH_MAX_VAR_NAME` (line 31), the size of `name_buffer`. -/
def maxVarName : ℕ := 32

/-- The loops over a name (lines 1281-1288 and 1310-1326): `ptr` behind it, `name_buffer` and
`overflow`. A pointer is the list of the bytes from it up to the NUL. -/
def scanName (p : UInt8 → Bool) :
    List UInt8 → CString → Bool → Except Stop (List UInt8 × CString × Bool)
  | [], _, _ => .error .outside
  | ch :: ptr, name, overflow =>
    if p ch then
      if maxVarName ≤ name.length + 1 then scanName p ptr name true
      else scanName p ptr (name ++ [ch]) overflow
    else .ok (ch :: ptr, name, overflow)

/-- A backslash (lines 1441-1444): the byte to write and the cursor behind it. -/
def unescape (ch : UInt8) (cursor : List UInt8) : Except Stop (UInt8 × List UInt8) :=
  if ch = backslash then
    match cursor with
    | [] => .error .outside
    | next :: rest => if next ≠ 0 then .ok (next, rest) else .ok (ch, cursor)
  else .ok (ch, cursor)

section
variable (get : CString → Option CString) (capacity : ℕ) (o : Out)
/-- `output[(*index)++] = ch` with the check before it. -/
def Out.emit (ch : UInt8) : Except Stop Out :=
  if capacity ≤ o.index + 1 then .error .full
  else do
    let o ← o.put ch
    return { o with index := o.index + 1 }

/-- `shell_append_text`. -/
def appendText (o : Out) : CString → Except Stop Out
  | [] => o.put 0
  | ch :: text => do appendText (← o.emit capacity ch) text

/-- `shell_expand_emit_dollar_literal`, for the bytes behind the `$`. -/
def emitDollarLiteral (cursor : List UInt8) : Except Stop (List UInt8 × Out) := do
  return (cursor, ← o.emit capacity dollar)

/-- The value of the name (lines 1292-1306 and 1331-1344). -/
def emitValue (cursor : List UInt8) (name : CString) (overflow : Bool) (ptr : List UInt8) :
    Except Stop (List UInt8 × Out) :=
  if name.length = 0 ∨ overflow then emitDollarLiteral capacity o cursor
  else do return (ptr, ← appendText capacity o ((get name).getD []))

/-- `shell_expand_dollar`, for the bytes behind the `$`. -/
def expandDollar : List UInt8 → Except Stop (List UInt8 × Out)
  | [] => .error .outside
  | next :: rest => do
    if next = 0 then emitDollarLiteral capacity o (next :: rest)
    else if next = dollar then return (rest, ← o.emit capacity dollar)
    else if next = openBrace then
      match ← scanName (fun ch => ch != 0 && ch != closeBrace) rest [] false with
      | ([], _) => .error .outside
      | (ch :: ptr, name, overflow) =>
        if ch ≠ closeBrace then emitDollarLiteral capacity o (next :: rest)
        else emitValue get capacity o (next :: rest) name overflow ptr
    else if isDigit next then
      let (ptr, name, overflow) ← scanName isDigit (next :: rest) [] false
      emitValue get capacity o (next :: rest) name overflow ptr
    else if isIdentStart next then
      let (ptr, name, overflow) ← scanName isIdentChar (next :: rest) [] false
      emitValue get capacity o (next :: rest) name overflow ptr
    else emitDollarLiteral capacity o (next :: rest)

/-- The loop of `shell_expand_variables`. -/
def expandLoop : ℕ → List UInt8 → Out → Except Stop Out
  | 0, _, _ => .error .running
  | _ + 1, [], _ => .error .outside
  | fuel + 1, ch :: cursor, o =>
    if ch = 0 then .ok o
    else if ch = dollar then do
      let (cursor, o) ← expandDollar get capacity o cursor
      expandLoop fuel cursor o
    else do
      let (ch, cursor) ← unescape ch cursor
      expandLoop fuel cursor (← o.emit capacity ch)

/-- `shell_expand_variables`. -/
def expandVariables (input : CString) (output : List UInt8) : Except Stop Out :=
  if capacity = 0 then .error .full
  else do
    let o ← Out.put ⟨output, 0⟩ 0
    let o ← expandLoop get capacity (input.length + 1) (input ++ [0]) o
    if capacity ≤ o.index then .error .full else o.put 0

/-! ## The specification -/

/-- The value of a name of 1 to 31 bytes and the text behind it; else the `$` is literal. -/
def named (text name rest : CString) : CString × CString :=
  if 1 ≤ name.length ∧ name.length ≤ 31 then ((get name).getD [], rest) else ([dollar], text)

/-- What stands for the form at a `$` and the text behind it, for the text behind the `$`. -/
def dollarForm : CString → CString × CString
  | [] => ([dollar], [])
  | next :: rest =>
    let run p := named get (next :: rest) ((next :: rest).takeWhile p) ((next :: rest).dropWhile p)
    if next = dollar then ([dollar], rest)
    else if next = openBrace then
      match rest.dropWhile (· != closeBrace) with
      | [] => ([dollar], next :: rest)
      | _ :: behind => named get (next :: rest) (rest.takeWhile (· != closeBrace)) behind
    else if isDigit next then run isDigit
    else if isIdentStart next then run isIdentChar
    else ([dollar], next :: rest)

lemma named_suffix {s n r : CString} (h : r <:+ s) : (named get s n r).2 <:+ s := by
  unfold named
  split_ifs
  · exact h
  · exact suffix_rfl

lemma dollarForm_suffix (s : CString) : (dollarForm get s).2 <:+ s := by
  cases s with
  | nil => exact suffix_rfl
  | cons x r =>
    rw [dollarForm]
    split_ifs
    · exact suffix_cons x r
    · have hd := dropWhile_suffix (· != closeBrace) (l := r)
      cases hb : r.dropWhile (· != closeBrace) with
      | nil => exact suffix_rfl
      | cons b u =>
        rw [hb] at hd
        exact named_suffix get (((suffix_cons b u).trans hd).trans (suffix_cons x r))
    · exact named_suffix get (dropWhile_suffix _)
    · exact named_suffix get (dropWhile_suffix _)
    · exact suffix_rfl

/-- The text with its variables replaced. -/
def expansion : CString → CString
  | [] => []
  | ch :: rest =>
    if ch = dollar then (dollarForm get rest).1 ++ expansion (dollarForm get rest).2
    else if ch = backslash then
      match rest with
      | [] => [ch]
      | next :: rest => next :: expansion rest
    else ch :: expansion rest
termination_by s => s.length
decreasing_by
  · exact Nat.lt_succ_of_le (dollarForm_suffix get rest).length_le
  · simp
  · simp
end

/-! ## What is written -/

/-- The text so far is in the buffer. -/
structure Out.Holds (o : Out) (capacity : ℕ) (t : CString) : Prop where
  length : o.output.length = capacity
  index : o.index = t.length
  fits : t.length < capacity
  text : o.output.take t.length = t

/-- The text is written if it fits. -/
def Writes (capacity : ℕ) (t : CString) (r : Except Stop Out) : Prop :=
  if t.length < capacity then ∃ o, r = .ok o ∧ o.Holds capacity t else r = .error .full

/-- The first text of the form is written, and the second one is left. -/
def Yields (capacity : ℕ) (t : CString) (form : CString × CString)
    (x : Except Stop (List UInt8 × Out)) : Prop :=
  ∃ r, Writes capacity (t ++ form.1) r ∧ x = do return (form.2 ++ [0], ← r)

variable {g : CString → Option CString} {k : ℕ} {t u s : CString} {o : Out} {r : Except Stop Out}
lemma Out.Holds.put (h : o.Holds k t) (c : UInt8) :
    ∃ o', o.put c = .ok o' ∧ o'.Holds k t ∧ o'.output.take (t.length + 1) = t ++ [c] := by
  have hi : o.index < o.output.length := by rw [h.index, h.length]; exact h.fits
  refine ⟨_, if_pos hi, ⟨?_, h.index, h.fits, ?_⟩, ?_⟩
  · rw [length_set, h.length]
  · rw [take_set, h.text, h.index, set_eq_of_length_le le_rfl]
  rw [h.index] at hi ⊢
  rw [take_add_one, take_set, h.text, set_eq_of_length_le le_rfl, getElem?_set_self hi]
  rfl

lemma Out.Holds.emit (h : o.Holds k t) (c : UInt8) : Writes k (t ++ [c]) (o.emit k c) := by
  obtain ⟨o', ho, h', ht⟩ := h.put c
  unfold Writes Out.emit
  rw [length_append, length_singleton, h.index]
  split_ifs with h1 h2 h2
  · omega
  · refine ⟨{ o' with index := o'.index + 1 }, by rw [ho]; rfl, h'.length, ?_, ?_, ?_⟩
    · simp [h'.index]
    · simpa using h1
    · simpa using ht
  · rfl
  · omega

lemma Writes.bind {f : Out → Except Stop Out} (h : Writes k t r)
    (hf : ∀ o, o.Holds k t → Writes k (t ++ u) (f o)) : Writes k (t ++ u) (r >>= f) := by
  unfold Writes at h
  split_ifs at h with ht
  · obtain ⟨o, rfl, ho⟩ := h
    exact hf o ho
  have hu : ¬ (t ++ u).length < k := by rw [length_append]; omega
  rw [h, Writes, if_neg hu]
  rfl

lemma Out.Holds.appendText (h : o.Holds k t) : Writes k (t ++ u) (appendText k o u) := by
  induction u generalizing o t with
  | nil =>
    obtain ⟨o', ho, h', -⟩ := h.put 0
    rw [append_nil, Writes, if_pos h.fits]
    exact ⟨o', ho, h'⟩
  | cons c u ih =>
    rw [append_cons]
    exact (h.emit c).bind fun o ho => ih ho

/-! ## One `$` -/

lemma scanName_eq {p q : UInt8 → Bool} (h0 : p 0 = false) {n : CString} {b : Bool}
    (hn : n.length ≤ 31) (hq : ∀ a ∈ s, p a = q a) : scanName p (s ++ [0]) n b =
      .ok (s.dropWhile q ++ [0], (n ++ s.takeWhile q).take 31,
        b || decide (31 < (n ++ s.takeWhile q).length)) := by
  induction s generalizing n b with
  | nil => simp [scanName, h0, hn, take_of_length_le]
  | cons a s ih =>
    have hs := fun c hc => hq c (mem_cons_of_mem a hc)
    rw [cons_append, scanName, hq a mem_cons_self]
    by_cases ha : q a = true
    · rw [if_pos ha, dropWhile_cons_of_pos ha, takeWhile_cons_of_pos ha]
      unfold maxVarName
      split_ifs with hl
      · -- the buffer is full: the byte is dropped
        have hl : n.length = 31 := by omega
        rw [ih hn hs]
        simp [hl]
      · rw [ih (by simp; omega) hs]
        simp
    rw [if_neg ha, dropWhile_cons_of_neg ha, takeWhile_cons_of_neg ha]
    simp [hn, take_of_length_le]

lemma yields_literal (h : o.Holds k t) : Yields k t ([dollar], s) (emitDollarLiteral k o (s ++ [0])) :=
  ⟨_, h.emit dollar, rfl⟩

lemma yields_named (h : o.Holds k t) {n : CString} : Yields k t (named g s n u)
    (emitValue g k o (s ++ [0]) (n.take 31) (decide (31 < n.length)) (u ++ [0])) := by
  unfold named emitValue
  simp only [length_take, decide_eq_true_eq]
  by_cases hn : 1 ≤ n.length ∧ n.length ≤ 31
  · rw [if_pos hn, if_neg (by omega), take_of_length_le hn.2]
    exact ⟨_, h.appendText, rfl⟩
  rw [if_neg hn, if_pos (by omega)]
  exact yields_literal h

/-- One `$` writes what stands for its form and goes on behind it. -/
lemma expandDollar_yields (h : o.Holds k t) (h0 : 0 ∉ s) :
    Yields k t (dollarForm g s) (expandDollar g k o (s ++ [0])) := by
  cases s with
  | nil => exact yields_literal h
  | cons x s =>
    obtain ⟨hx, h0⟩ := not_or.1 (mem_cons.not.1 h0)
    have hrun : ∀ {p : UInt8 → Bool}, p 0 = false → _ := fun hp =>
      scanName_eq (s := x :: s) (n := []) (b := false) hp (by simp) fun _ _ => rfl
    rw [cons_append, expandDollar, dollarForm, if_neg (Ne.symm hx)]
    split_ifs with h1 h2 h3 h4
    · exact ⟨_, h.emit dollar, rfl⟩
    · have hsc : ∀ a ∈ s, (a != 0 && a != closeBrace) = (a != closeBrace) := by
        intro a ha
        have : a ≠ 0 := fun he => h0 (he ▸ ha)
        simp [this]
      rw [scanName_eq rfl (by simp) hsc]
      cases hb : s.dropWhile (· != closeBrace) with
      | nil => exact yields_literal h
      | cons b u =>
        have hc := head?_dropWhile_not (· != closeBrace) s
        rw [hb] at hc
        obtain rfl : b = closeBrace := by simpa using hc
        exact yields_named h
    · rw [← cons_append, hrun rfl]
      exact yields_named h
    · rw [← cons_append, hrun rfl]
      exact yields_named h
    · exact yields_literal h

/-! ## The loop -/

/-- The induction is on the fuel: each round goes on with a shorter text. -/
lemma expandLoop_writes {n : ℕ} (hn : s.length < n) (h : o.Holds k t) (h0 : 0 ∉ s) :
    Writes k (t ++ expansion g s) (expandLoop g k n (s ++ [0]) o) := by
  induction n generalizing s o t with
  | zero => omega
  | succ n ih =>
    cases s with
    | nil =>
      rw [expansion, append_nil, Writes, if_pos h.fits]
      exact ⟨o, rfl, h⟩
    | cons x s =>
      obtain ⟨hx, h0⟩ := not_or.1 (mem_cons.not.1 h0)
      rw [length_cons, Nat.succ_lt_succ_iff] at hn
      have hgo : ∀ {c s}, s.length < n → 0 ∉ s → Writes k (t ++ c :: expansion g s)
          (do expandLoop g k n (s ++ [0]) (← o.emit k c)) := by
        intro c s hs h0
        rw [append_cons]
        exact (h.emit c).bind fun o ho => ih hs ho h0
      rw [cons_append, expandLoop, expansion.eq_def, if_neg (Ne.symm hx)]
      unfold unescape
      dsimp only
      split_ifs with h1 h2
      · obtain ⟨r, hr, he⟩ := expandDollar_yields (g := g) h h0
        have hsu := dollarForm_suffix g s
        rw [he, ← append_assoc]
        have hw := hr.bind fun o ho => ih (hsu.length_le.trans_lt hn) ho fun hm => h0 (hsu.mem hm)
        cases r with
        | error e => exact hw
        | ok o => exact hw
      · cases s with
        | nil =>
          have := hgo (c := x) hn h0
          rw [expansion] at this
          exact this
        | cons y s =>
          obtain ⟨hy, h0⟩ := not_or.1 (mem_cons.not.1 h0)
          rw [cons_append]
          dsimp only
          rw [if_pos (Ne.symm hy)]
          exact hgo ((Nat.lt_succ_self _).trans hn) h0
      · exact hgo hn h0

/-- `shell_expand_variables` writes the expansion with its NUL and returns `true` if the expansion
is shorter than the capacity, and else `false`. No access is outside of a buffer. -/
theorem expandVariables_eq_expansion (get : CString → Option CString) {capacity : ℕ}
    (hc : 1 ≤ capacity) {input : CString} (h0 : 0 ∉ input) {output : List UInt8}
    (ho : output.length = capacity) :
    if (expansion get input).length < capacity then
      ∃ o, expandVariables get capacity input output = .ok o ∧
        o.output.take ((expansion get input).length + 1) = expansion get input ++ [0]
    else expandVariables get capacity input output = .error .full := by
  have hst : (⟨output, 0⟩ : Out).Holds capacity [] := ⟨ho, rfl, hc, rfl⟩
  obtain ⟨o, he, h, -⟩ := hst.put 0
  have hr := expandLoop_writes (g := get) (Nat.lt_succ_self _) h h0
  rw [nil_append, Writes] at hr
  rw [expandVariables, if_neg (show ¬ capacity = 0 by omega), he]
  dsimp only [bind, Except.bind]
  split_ifs at hr ⊢ with hl
  · obtain ⟨o', he', h'⟩ := hr
    obtain ⟨o2, hp, -, ht⟩ := h'.put 0
    rw [he']
    dsimp only
    rw [if_neg (by rw [h'.index]; omega)]
    exact ⟨o2, hp, ht⟩
  · rw [hr]

/-- With the value `ab` for each name, `$x\$` is expanded to `ab$`. -/
theorem expandVariables_eq_expansion_name :
    ∃ o, expandVariables (fun _ => some [0x61, 0x62]) 4 [0x24, 0x78, 0x5C, 0x24] [1, 1, 1, 1] =
      .ok o ∧ o.output.take 4 = [0x61, 0x62, 0x24, 0] := by
  have he : expansion (fun _ => some [0x61, 0x62]) [0x24, 0x78, 0x5C, 0x24] =
      [0x61, 0x62, 0x24] := by decide +kernel
  have h := @expandVariables_eq_expansion (fun _ => some [0x61, 0x62]) 4 (by decide)
    [0x24, 0x78, 0x5C, 0x24] (by decide) [1, 1, 1, 1] rfl
  rw [he] at h
  exact h
end Menios.Mosh
