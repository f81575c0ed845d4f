import Mathlib

/-!
# Numbers in strings

`strtol` (`user/libc/stdlib.c`, lines 1565-1660, and `digit_from_char`, lines 1248-1259). A string
is the list of its characters; a position in it is the part from there on.

**Defect.** `strtol` steps over `0x` without a look at the character behind it. If that is no
hexadecimal digit, the number is the `0`, but `*endptr` is the start of the string.

Results:

* `digitLoop_spec`: the loop over the digits, with its overflow test.
* `strtol_eq_iff`: `strtol` meets its specification exactly if there is no such `0x`.
-/

namespace Menios.Libc
open List

/-- `isspace` (`src/libc/ctype.c`, line 21). -/
def isspace (c : Char) : Bool := c = ' ' ∨ 9 ≤ c.toNat ∧ c.toNat ≤ 13

/-- `digit_from_char`. -/
def digitFromChar (c : Char) : ℤ :=
  if 48 ≤ c.toNat ∧ c.toNat ≤ 57 then c.toNat - 48
  else if 97 ≤ c.toNat ∧ c.toNat ≤ 122 then 10 + (c.toNat - 97)
  else if 65 ≤ c.toNat ∧ c.toNat ≤ 90 then 10 + (c.toNat - 65)
  else -1

/-- A digit of the base (line 1623). -/
def isDigit (base : ℕ) (c : Char) : Bool := 0 ≤ digitFromChar c ∧ digitFromChar c < base

/-- What `strtol` returns, `*endptr`, and whether `errno` is `ERANGE`. -/
structure Parsed where
  value : ℤ
  endptr : List Char
  erange : Bool
  deriving DecidableEq

/-- The optional sign (lines 1584-1587). -/
def sign : List Char → Bool × List Char
  | '-' :: l => (true, l)
  | '+' :: l => (false, l)
  | l => (false, l)

/-- What is behind `0x` or `0X`. -/
def hexPrefix : List Char → Option (List Char)
  | '0' :: 'x' :: l => some l
  | '0' :: 'X' :: l => some l
  | _ => none

/-- The base without such a prefix. -/
def plainBase (base : ℕ) (l : List Char) : ℕ :=
  if base = 0 then if l.head? = some '0' then 8 else 10 else base

/-- The base and the first digit (lines 1589-1602). -/
def detect (base : ℕ) (l : List Char) : ℕ × List Char :=
  if base = 0 ∨ base = 16 then
    match hexPrefix l with
    | some l' => (16, l')
    | none => (plainBase base l, l)
  else (base, l)

/-- The variables of the loop. -/
structure Digits where
  acc : ℕ
  any : Bool
  overflow : Bool

/-- The loop over the digits (lines 1616-1639). -/
def digitLoop (limit base : ℕ) : Digits → List Char → Digits × List Char
  | d, [] => (d, [])
  | d, c :: l =>
    if isDigit base c then
      let digit := (digitFromChar c).toNat
      digitLoop limit base (if d.overflow then { d with any := true }
        else if limit / base < d.acc ∨ d.acc = limit / base ∧ limit % base < digit then
          ⟨limit, true, true⟩
        else ⟨(d.acc * base + digit) % 2 ^ 64, true, false⟩) l
    else (d, c :: l)

/-- The largest absolute value (line 1612). -/
def limit (negative : Bool) : ℕ := if negative then 2 ^ 63 else 2 ^ 63 - 1

/-- `strtol` from line 1612 on. -/
def finish (s : List Char) (negative : Bool) (base : ℕ) (l : List Char) : Parsed :=
  let r := digitLoop (limit negative) base ⟨0, false, false⟩ l
  if r.1.any = false then ⟨0, s, false⟩
  else if r.1.overflow then ⟨if negative then -2 ^ 63 else 2 ^ 63 - 1, r.2, true⟩
  else ⟨if negative then -r.1.acc else r.1.acc, r.2, false⟩

/-- `strtol`. -/
def strtol (s : List Char) (base : ℕ) : Parsed :=
  let r := sign (s.dropWhile isspace)
  let t := detect base r.2
  if t.1 < 2 ∨ 36 < t.1 then ⟨0, s, false⟩ else finish s r.1 t.1 t.2

/-! ## Specification -/

/-- The number that digits stand for. -/
def number (base : ℕ) (l : List Char) : ℕ :=
  l.foldl (fun v c => v * base + (digitFromChar c).toNat) 0

/-- The number in front of `l`, if there is one, within the range of a `long`. -/
def finishSpec (s : List Char) (negative : Bool) (base : ℕ) (l : List Char) : Parsed :=
  let digits := l.takeWhile (isDigit base)
  let v : ℤ := number base digits
  if digits = [] then ⟨0, s, false⟩
  else ⟨if negative then max (-2 ^ 63) (-v) else min (2 ^ 63 - 1) v, l.dropWhile (isDigit base),
    limit negative < v⟩

/-- The prefix counts only in front of a hexadecimal digit. -/
def detectSpec (base : ℕ) (l : List Char) : ℕ × List Char :=
  if base = 0 ∨ base = 16 then
    match hexPrefix l with
    | some l' => if l'.takeWhile (isDigit 16) ≠ [] then (16, l') else (plainBase base l, l)
    | none => (plainBase base l, l)
  else (base, l)

/-- The specification. -/
def strtolSpec (s : List Char) (base : ℕ) : Parsed :=
  let r := sign (s.dropWhile isspace)
  let t := detectSpec base r.2
  finishSpec s r.1 t.1 t.2

/-- `0x` counts as a prefix for the base, and no digit follows it. -/
def BarePrefix (s : List Char) (base : ℕ) : Prop :=
  (base = 0 ∨ base = 16) ∧ ∃ l, hexPrefix (sign (s.dropWhile isspace)).2 = some l ∧
    l.takeWhile (isDigit 16) = []

/-! ## The digits -/

/-- The variables stand for the number `v`. -/
def Digits.Holds (limit v : ℕ) (d : Digits) : Prop :=
  if d.overflow then limit < v else d.acc = v ∧ v ≤ limit

lemma overflow_iff {b l a d : ℕ} (hdi : d < b) :
    l / b < a ∨ a = l / b ∧ l % b < d ↔ l < a * b + d := by
  have hdiv := Nat.div_add_mod' l b
  have hmod := Nat.mod_lt l (Nat.zero_lt_of_lt hdi)
  rcases Nat.lt_trichotomy a (l / b) with hlt | he | hgt
  · have := Nat.mul_le_mul_right b hlt
    rw [Nat.succ_mul] at this
    omega
  · rw [he]
    omega
  have := Nat.mul_le_mul_right b hgt
  rw [Nat.succ_mul] at this
  omega

lemma Digits.Holds.next {l b v dg : ℕ} (hl : l < 2 ^ 64) (hdi : dg < b)
    {d : Digits} (h : d.Holds l v) :
    (if d.overflow then { d with any := true }
      else if l / b < d.acc ∨ d.acc = l / b ∧ l % b < dg then ⟨l, true, true⟩
      else ⟨(d.acc * b + dg) % 2 ^ 64, true, false⟩ : Digits).Holds l (v * b + dg) := by
  cases hov : d.overflow with
  | true =>
    have : l < v := by simpa [Holds, hov] using h
    have := Nat.le_mul_of_pos_right v (Nat.zero_lt_of_lt hdi)
    simp only [Holds, if_true]
    omega
  | false =>
    obtain ⟨rfl, hle⟩ : d.acc = v ∧ v ≤ l := by simpa [Holds, hov] using h
    simp only [overflow_iff hdi, Bool.false_eq_true, if_false]
    split_ifs with hor
    · exact hor
    · exact ⟨Nat.mod_eq_of_lt (by omega), by omega⟩

lemma digitLoop_spec {limit b v : ℕ} (hl : limit < 2 ^ 64) {d : Digits} (l : List Char)
    (h : d.Holds limit v) : let r := digitLoop limit b d l
      r.2 = l.dropWhile (isDigit b) ∧
      r.1.any = (d.any || l.takeWhile (isDigit b) ≠ []) ∧
      r.1.Holds limit ((l.takeWhile (isDigit b)).foldl
        (fun v c => v * b + (digitFromChar c).toNat) v) := by
  induction l generalizing d v with
  | nil => exact ⟨rfl, by simp [digitLoop], h⟩
  | cons c l ih =>
    rw [digitLoop]
    by_cases hc : isDigit b c = true
    · have hdi : (digitFromChar c).toNat < b := by
        simp only [isDigit, decide_eq_true_eq] at hc
        omega
      simp only [if_pos hc, takeWhile_cons_of_pos hc, dropWhile_cons_of_pos hc, foldl_cons]
      obtain ⟨hr, ha, hh⟩ := ih (Digits.Holds.next hl hdi h)
      refine ⟨hr, ha.trans ?_, hh⟩
      split_ifs <;> simp
    simp only [if_neg hc, takeWhile_cons_of_neg hc, dropWhile_cons_of_neg hc]
    exact ⟨trivial, by simp, h⟩

lemma finish_eq (s : List Char) (n : Bool) (b : ℕ) (l : List Char) :
    finish s n b l = finishSpec s n b l := by
  have hl : limit n < 2 ^ 64 := by cases n <;> decide
  obtain ⟨hr, ha, hh⟩ := @digitLoop_spec _ b _ hl _ l
    (show Digits.Holds (limit n) 0 ⟨0, false, false⟩ from ⟨rfl, Nat.zero_le _⟩)
  rw [finish, finishSpec]
  generalize digitLoop (limit n) b ⟨0, false, false⟩ l = r at hr ha hh
  dsimp only at hr ha hh ⊢
  rw [hr, ha, number]
  generalize foldl _ 0 (l.takeWhile (isDigit b)) = v at hh ⊢
  by_cases hd : l.takeWhile (isDigit b) = []
  · simp [hd]
  rw [if_neg (by simp [hd]), if_neg hd]
  cases hov : r.1.overflow with
  | true =>
    have hlt : limit n < v := by simpa [Digits.Holds, hov] using hh
    cases n <;> simp [limit] at hlt ⊢ <;> omega
  | false =>
    have hv : r.1.acc = v ∧ v ≤ limit n := by simpa [Digits.Holds, hov] using hh
    rw [hv.1]
    cases n <;> simp [limit] at hv ⊢ <;> omega

/-! ## The prefix -/

lemma hexPrefix_eq_some {l l' : List Char} (h : hexPrefix l = some l') :
    ∃ x, l = '0' :: x :: l' := by
  unfold hexPrefix at h
  split at h
  · exact ⟨'x', by rw [Option.some.inj h]⟩
  · exact ⟨'X', by rw [Option.some.inj h]⟩
  · cases h

lemma length_sign (l : List Char) : (sign l).2.length ≤ l.length := by
  unfold sign
  split <;> simp

/-- For a bare prefix the specification ends behind the `0`, and not at the start. -/
lemma endptr_ne {s l l' : List Char} {b : ℕ} (hl : hexPrefix l = some l')
    (hlen : l.length ≤ s.length) (n : Bool) (hb : b = 0 ∨ b = 16) :
    (finishSpec s n (plainBase b l) l).endptr ≠ s := by
  obtain ⟨x, rfl⟩ := hexPrefix_eq_some hl
  have hdi : isDigit (plainBase b ('0' :: x :: l')) '0' = true := by
    rcases hb with rfl | rfl <;> rfl
  intro he
  rw [finishSpec, takeWhile_cons_of_pos hdi, dropWhile_cons_of_pos hdi,
    if_neg (cons_ne_nil _ _)] at he
  have hle := (dropWhile_suffix (isDigit (plainBase b ('0' :: x :: l'))) (l := x :: l')).length_le
  dsimp only at he
  rw [he] at hle
  simp only [length_cons] at hle hlen
  omega

/-- `strtol` meets its specification except for a `0x` without a hexadecimal digit. -/
theorem strtol_eq_iff (s : List Char) {base : ℕ} (hb : base = 0 ∨ 2 ≤ base ∧ base ≤ 36) :
    strtol s base = strtolSpec s base ↔ ¬ BarePrefix s base := by
  have hlen := (length_sign (s.dropWhile isspace)).trans (dropWhile_suffix isspace).length_le
  rw [strtol, strtolSpec, BarePrefix]
  generalize sign (s.dropWhile isspace) = r at hlen ⊢
  rw [← finish_eq]
  have hp : ¬ (plainBase base r.2 < 2 ∨ 36 < plainBase base r.2) := by
    unfold plainBase
    split_ifs <;> omega
  by_cases hh : base = 0 ∨ base = 16
  · cases hl : hexPrefix r.2 with
    | none =>
      simp only [detect, detectSpec, hl, if_pos hh, if_neg hp]
      simp
    | some l' =>
      by_cases hd : l'.takeWhile (isDigit 16) = []
      · have hne := endptr_ne hl hlen r.1 hh
        rw [← finish_eq] at hne
        have hc : finish s r.1 16 l' = ⟨0, s, false⟩ := by
          rw [finish_eq, finishSpec]
          simp [hd]
        simp only [detect, detectSpec, hl, hh, hd, if_true, hc]
        refine iff_of_false (fun he => hne ?_) (not_not.2 ⟨trivial, l', rfl, hd⟩)
        simpa using (congrArg Parsed.endptr he).symm
      · simp only [detect, detectSpec, hl, if_pos hh, if_pos hd]
        refine iff_of_true (if_neg (by decide)) ?_
        rintro ⟨-, l, hl', hnil⟩
        cases hl'
        exact hd hnil
  rw [detect, detectSpec, if_neg hh, if_neg hh, if_neg (by omega)]
  simp [hh]

theorem strtol_eq_decimal : strtol [' ', '-', '1', '2', 'a'] 10 = ⟨-12, ['a'], false⟩ :=
  ((strtol_eq_iff [' ', '-', '1', '2', 'a'] (.inr (by decide))).2 fun h => by
    simpa using h.1).trans rfl

/-- The number in `0xg` is `0`, with `xg` behind it. -/
theorem strtol_bare_prefix : strtol ['0', 'x', 'g'] 16 = ⟨0, ['0', 'x', 'g'], false⟩ ∧
    strtolSpec ['0', 'x', 'g'] 16 = ⟨0, ['x', 'g'], false⟩ := by
  decide
end Menios.Libc
