import Menios.Common.Strings

/-!
# Command lists of the shell (`app/mosh/mosh.c`)

Models of `ltrim`, `rtrim`, `split_sequence` and `launch_command` (lines 5092-5110, 5188-5255 and
5293-5400). What a command does is left to a `Shell`; the debug output is left out.

**Defect.** The loop of `launch_command` ends at the first command that is not run. After
`false && a ; b` the shell has to go on with `b`.

Results:

* `splitSequence_lineText`: a list of simple commands is cut at its operators.
* `launchCommand_correct_iff`: the commands that have to run are run exactly when after the
  first skipped one all operators are the same.
-/

namespace Menios.Mosh
open Common List

/-- `sequence_op_t` (lines 182-187). -/
inductive SeqOp
  | none
  | and
  | or
  | semi
deriving DecidableEq, Repr

/-- `MOSH_MAX_SEQUENCES` (line 27). -/
def maxSequences : ℕ := 8

/-- `MOSH_MAX_FUNCTION_BODY` (line 34). -/
def maxFunctionBody : ℕ := 1024

/-- `str_copy` (lines 2440-2454). -/
def strCopy (capacity : ℕ) (src : CString) : CString := src.take (capacity - 1)

lemma strCopy_eq {cp : ℕ} {s : CString} (h : s.length < cp) : strCopy cp s = s :=
  take_of_length_le (Nat.le_sub_one_of_lt h)

def isBlank (ch : UInt8) : Bool := ch == 0x20 || ch == 0x09

/-- `ltrim` (lines 5092-5097). -/
def ltrim (text : CString) : CString := text.dropWhile isBlank

/-- `rtrim` (lines 5099-5108). -/
def rtrim : CString → CString
  | [] => []
  | ch :: text => if rtrim text = [] ∧ isBlank ch then [] else ch :: rtrim text

/-- The inner loop of `split_sequence` (lines 5206-5226): the text before the first operator,
the operator and the text behind it. -/
def findOp : CString → CString × Option (SeqOp × CString)
  | [] => ([], none)
  | ch :: rest =>
    if ch = 0x26 ∧ rest.head? = some 0x26 then ([], some (.and, rest.tail))
    else if ch = 0x7C ∧ rest.head? = some 0x7C then ([], some (.or, rest.tail))
    else if ch = 0x3B then ([], some (.semi, rest))
    else (ch :: (findOp rest).1, (findOp rest).2)

/-- `split_sequence` (lines 5188-5255): the parts, each with the operator behind it. -/
def splitSequence : ℕ → CString → List (CString × SeqOp)
  | 0, _ => []
  | maxParts + 1, line =>
    if ltrim line = [] then []
    else
      match findOp (ltrim line) with
      | (segment, none) => [(rtrim (ltrim (rtrim segment)), .none)]
      | (segment, some (op, rest)) => (rtrim (ltrim (rtrim segment)), op) :: splitSequence maxParts rest

/-- What the commands do: whether a line starts with a keyword or a function signature,
`shell_expand_variables`, `handle_builtin`, `launch_pipeline` with
`shell_set_status_from_raw`, `shell_set_status_code` and the returns after an error. -/
structure Shell (σ : Type) where
  compound : CString → Bool
  expand : σ → CString → Option CString
  builtin : σ → CString → CString → Option (ℤ × σ)
  pipeline : σ → CString → ℤ × σ
  setStatus : σ → ℤ → σ
  failed : σ → ℤ × σ

variable {σ : Type}
/-- The text with its variables expanded (lines 5310-5322 and 5357-5370). -/
def Shell.working (sh : Shell σ) (s : σ) (raw : CString) : Option CString :=
  if 0x24 ∈ raw then (sh.expand s raw).map (strCopy maxFunctionBody)
  else some (strCopy maxFunctionBody raw)

/-- A builtin or a pipeline (lines 5372-5378). -/
def Shell.command (sh : Shell σ) (s : σ) (raw working : CString) : ℤ × σ :=
  (sh.builtin s raw working).getD (sh.pipeline s working)

/-- The loop ends here (lines 5380-5395). -/
def SeqOp.stops : SeqOp → ℤ → Bool
  | .and, last | .none, last => last != 0
  | .or, last => last == 0
  | .semi, _ => false

/-- The loop of `launch_command` (lines 5339-5397). -/
def Shell.sequence (sh : Shell σ) : ℤ → σ → List (CString × SeqOp) → ℤ × σ
  | last, s, [] => (last, s)
  | _, s, (part, op) :: rest =>
    let raw := strCopy maxFunctionBody (ltrim part)
    if raw = [] then sh.failed s
    else
      match sh.working s raw with
      | none => sh.failed s
      | some working =>
        let r := sh.command s raw working
        if op.stops r.1 then r else sh.sequence r.1 r.2 rest

/-- `launch_command` (lines 5293-5400). -/
def launchCommand (sh : Shell σ) (s : σ) (line : CString) : ℤ × σ :=
  let trimmed := ltrim (strCopy maxFunctionBody line)
  let handled :=
    if trimmed ≠ [] ∧ sh.compound trimmed then
      match sh.working s trimmed with
      | none => some (sh.failed s)
      | some working => sh.builtin s trimmed working
    else none
  match handled with
  | some r => r
  | none =>
    match splitSequence maxSequences trimmed with
    | [] => (0, sh.setStatus s 0)
    | parts => sh.sequence 0 s parts

/-! ## Lists of simple commands -/

def SeqOp.text : SeqOp → CString
  | .none => []
  | .and => [0x26, 0x26]
  | .or => [0x7C, 0x7C]
  | .semi => [0x3B]

/-- The commands behind the first one, each with the operator before it. -/
abbrev Tail := List (SeqOp × CString)

def lineText : CString → Tail → CString
  | c, [] => c
  | c, (op, c') :: rest => c ++ (op.text ++ lineText c' rest)

def trim (c : CString) : CString := rtrim (ltrim c)

/-- A command that has no operator characters and is not blank. -/
structure Simple (c : CString) : Prop where
  visible : trim c ≠ []
  plain : ∀ ch ∈ c, ch ≠ 0x26 ∧ ch ≠ 0x7C ∧ ch ≠ 0x3B

abbrev Simples (rest : Tail) : Prop := ∀ x ∈ rest, Simple x.2 ∧ x.1 ≠ .none

variable {c : CString} {rest : Tail}
section
variable (c : CString)
lemma rtrim_sublist : (rtrim c).Sublist c := by
  induction c with
  | nil => exact .slnil
  | cons ch c ih =>
    rw [rtrim]
    split_ifs
    · exact nil_sublist _
    · exact ih.cons_cons ch

lemma trim_sublist : (trim c).Sublist c := (rtrim_sublist _).trans (dropWhile_sublist _)

lemma rtrim_rtrim : rtrim (rtrim c) = rtrim c := by
  induction c with
  | nil => rfl
  | cons ch c ih =>
    rw [rtrim]
    split_ifs with h
    · rfl
    · rw [rtrim, ih, if_neg h]

lemma ltrim_trim : ltrim (trim c) = trim c := by
  rw [trim]
  cases h : ltrim c with
  | nil => rfl
  | cons ch l =>
    have hc : isBlank ch = false := by
      have := List.head?_dropWhile_not isBlank c
      rw [show c.dropWhile isBlank = ch :: l from h] at this
      simpa using this
    rw [rtrim, if_neg (by simp [hc]), ltrim, dropWhile_cons_of_neg (by simp [hc])]
end

lemma findOp_append (hc : ∀ ch ∈ c, ch ≠ 0x26 ∧ ch ≠ 0x7C ∧ ch ≠ 0x3B) (t : CString) :
    findOp (c ++ t) = (c ++ (findOp t).1, (findOp t).2) := by
  induction c with
  | nil => rfl
  | cons ch c ih =>
    obtain ⟨h1, h2, h3⟩ := hc ch mem_cons_self
    rw [cons_append, findOp, if_neg (fun h => h1 h.1), if_neg (fun h => h2 h.1), if_neg h3,
      ih fun x hx => hc x (mem_cons_of_mem ch hx)]
    rfl

/-- The parts of a command list. -/
def segments : CString → Tail → List (CString × SeqOp)
  | c, [] => [(trim c, .none)]
  | c, (op, c') :: rest => (trim c, op) :: segments c' rest

lemma Simple.ltrim_append (hc : Simple c) (t : CString) :
    ltrim (c ++ t) = ltrim c ++ t ∧ ltrim c ≠ [] := by
  have hne : ltrim c ≠ [] := fun h => hc.visible (by rw [trim, h]; rfl)
  rw [ltrim, dropWhile_append, if_neg (by rwa [List.isEmpty_iff])]
  exact ⟨rfl, hne⟩

/-- One turn of `split_sequence`. -/
lemma splitSequence_append (hc : Simple c) (n : ℕ) {t : CString}
    {next : Option (SeqOp × CString)} (ht : findOp t = ([], next)) :
    splitSequence (n + 1) (c ++ t) =
      next.elim [(trim c, .none)] fun x => (trim c, x.1) :: splitSequence n x.2 := by
  obtain ⟨ha, hne⟩ := hc.ltrim_append t
  have htr : rtrim (ltrim (rtrim (ltrim c))) = trim c := by
    rw [show rtrim (ltrim c) = trim c from rfl, ltrim_trim, trim, rtrim_rtrim]
  rw [splitSequence, ha, if_neg (by simp [hne]),
    findOp_append (c := ltrim c) fun ch hch => hc.plain ch ((dropWhile_sublist _).subset hch),
    ht, append_nil]
  cases next <;> simp only [htr, Option.elim]

/-- **A command list is cut at its operators.** -/
theorem splitSequence_lineText (hc : Simple c) (hr : Simples rest) {n : ℕ} (hn : rest.length < n) :
    splitSequence n (lineText c rest) = segments c rest := by
  induction rest generalizing c n with
  | nil =>
    cases n with
    | zero => cases hn
    | succ n =>
      simpa [lineText, segments] using splitSequence_append hc n
        (show findOp [] = ([], none) from rfl)
  | cons x rest ih =>
    obtain ⟨o, c'⟩ := x
    cases n with
    | zero => cases hn
    | succ n =>
    obtain ⟨⟨hc', hop⟩, hr⟩ := forall_mem_cons.1 hr
    have ht : findOp (o.text ++ lineText c' rest) = ([], some (o, lineText c' rest)) := by
      cases o with
      | none => exact absurd rfl hop
      | and | or | semi => rfl
    rw [lineText, splitSequence_append hc n ht, segments, ← ih hc' hr (Nat.lt_of_succ_lt_succ hn)]
    rfl

/-! ## What has to run -/

/-- The command behind an operator is run. -/
def SeqOp.needs : SeqOp → ℤ → Bool
  | .and, last => last == 0
  | .or, last => last != 0
  | .semi, _ | .none, _ => true

lemma SeqOp.stops_eq {o : SeqOp} (hop : o ≠ .none) (l : ℤ) : o.stops l = !o.needs l := by
  cases o with
  | none => exact absurd rfl hop
  | and | or | semi => simp [SeqOp.stops, SeqOp.needs, bne]

lemma SeqOp.needs_false_iff {o o' : SeqOp} (ho' : o' ≠ .none) {l : ℤ}
    (h : o.needs l = false) : o'.needs l = false ↔ o' = o := by
  cases o <;> cases o' <;> simp_all [SeqOp.needs]

/-- Evaluation from left to right: the status so far and the commands that were run. A
skipped command changes neither. -/
def listRuns (status : List CString → CString → ℤ) : ℤ → List CString → Tail → ℤ × List CString
  | last, done, [] => (last, done)
  | last, done, (op, c) :: rest =>
    if op.needs last then listRuns status (status done (trim c)) (done ++ [trim c]) rest
    else listRuns status last done rest

/-- Behind the first command that is skipped there are no other operators. -/
def SkipsRest (status : List CString → CString → ℤ) : ℤ → List CString → Tail → Prop
  | _, _, [] => True
  | last, done, (op, c) :: rest =>
    if op.needs last then SkipsRest status (status done (trim c)) (done ++ [trim c]) rest
    else ∀ x ∈ rest, x.1 = op

variable {status : List CString → CString → ℤ} {sh : Shell (List CString)}
lemma length_listRuns (l : ℤ) (d : List CString) (rest : Tail) :
    d.length ≤ (listRuns status l d rest).2.length := by
  induction rest generalizing l d with
  | nil => exact le_rfl
  | cons x rest ih =>
    rw [listRuns]
    split_ifs
    · exact le_trans (by simp) (ih _ _)
    · exact ih _ _

lemma listRuns_eq_iff (l : ℤ) (d : List CString) (rest : Tail) :
    (l, d) = listRuns status l d rest ↔ ∀ x ∈ rest, x.1.needs l = false := by
  induction rest with
  | nil => simp [listRuns]
  | cons x rest ih =>
    rw [listRuns, forall_mem_cons]
    split_ifs with h
    · refine iff_of_false (fun he => ?_) (by simp [h])
      have hle := he ▸ length_listRuns (status d (trim x.2)) (d ++ [trim x.2]) rest
      simp at hle
    rw [ih]
    simp [h]

/-- Every command is run: `status` says how it ends, and the shell keeps what it ran. -/
def Shell.Runs (sh : Shell (List CString)) (status : List CString → CString → ℤ) : Prop :=
  ∀ done c, c.length < maxFunctionBody →
    (sh.working done c).map (sh.command done c) = some (status done c, done ++ [c])

lemma Shell.Runs.sequence_cons (hsh : sh.Runs status) (hc : Simple c)
    (hl : c.length < maxFunctionBody) (l : ℤ) (d : List CString) (o : SeqOp)
    (rest : List (CString × SeqOp)) : sh.sequence l d ((trim c, o) :: rest) =
      if o.stops (status d (trim c)) then (status d (trim c), d ++ [trim c])
      else sh.sequence (status d (trim c)) (d ++ [trim c]) rest := by
  have hl := (trim_sublist c).length_le.trans_lt hl
  obtain ⟨working, hwo, hco⟩ := Option.map_eq_some_iff.1 (hsh d (trim c) hl)
  simp only [Shell.sequence, ltrim_trim, strCopy_eq hl, if_neg hc.visible, hwo, hco]

/-- A skipped command ends the loop. That is right when no later operator asks to go on. -/
lemma Shell.Runs.sequence_iff (hsh : sh.Runs status) (hc : Simple c) (hr : Simples rest)
    (hl : (lineText c rest).length < maxFunctionBody) (l : ℤ) (d : List CString) :
    sh.sequence l d (segments c rest) = listRuns status (status d (trim c)) (d ++ [trim c]) rest ↔
      SkipsRest status (status d (trim c)) (d ++ [trim c]) rest := by
  induction rest generalizing c l d with
  | nil =>
    rw [segments, hsh.sequence_cons hc hl, listRuns, SkipsRest, Shell.sequence]
    simp
  | cons x rest ih =>
    obtain ⟨o, c'⟩ := x
    obtain ⟨⟨hc', hop⟩, hr⟩ := forall_mem_cons.1 hr
    simp only [lineText, length_append] at hl
    rw [segments, hsh.sequence_cons hc (by omega), listRuns, SkipsRest, SeqOp.stops_eq hop]
    cases hne : o.needs (status d (trim c)) with
    | true =>
      exact ih hc' hr (show (lineText c' rest).length < _ by omega) (status d (trim c))
        (d ++ [trim c])
    | false =>
      exact (listRuns_eq_iff _ _ rest).trans
        (forall₂_congr fun x hx => SeqOp.needs_false_iff (hr x hx).2 hne)

/-- **Command lists are evaluated as they should be exactly when nothing but the same operator
follows a skipped command.** -/
theorem launchCommand_correct_iff (hsh : sh.Runs status) (hc : Simple c) (hrest : Simples rest)
    (hcount : rest.length < maxSequences) (hlen : (lineText c rest).length < maxFunctionBody)
    (hsimple : sh.compound (ltrim (lineText c rest)) = false) :
    launchCommand sh [] (lineText c rest) = listRuns status (status [] (trim c)) [trim c] rest ↔
      SkipsRest status (status [] (trim c)) [trim c] rest := by
  have hp : splitSequence maxSequences (ltrim (lineText c rest)) = segments c rest := by
    have hid : ltrim (ltrim (lineText c rest)) = ltrim (lineText c rest) :=
      dropWhile_idempotent isBlank _
    rw [← splitSequence_lineText hc hrest hcount, maxSequences, splitSequence, splitSequence, hid]
  have hr : launchCommand sh [] (lineText c rest) = sh.sequence 0 [] (segments c rest) := by
    simp only [launchCommand, strCopy_eq hlen, hsimple, hp]
    cases rest <;> simp [segments]
  rw [hr]
  exact hsh.sequence_iff hc hrest hlen 0 []

/-- A shell that keeps what it runs. -/
def recorder (status : CString → ℤ) : Shell (List CString) where
  compound _ := false
  expand _ c := some c
  builtin _ _ _ := none
  pipeline done c := (status c, done ++ [c])
  setStatus done _ := done
  failed done := (256, done)

/-- `a && b`. -/
theorem launchCommand_correct_iff_and :
    launchCommand (recorder fun _ => 0) [] [0x61, 0x20, 0x26, 0x26, 0x20, 0x62] =
      (0, [[0x61], [0x62]]) :=
  (@launchCommand_correct_iff [0x61, 0x20] [(.and, [0x20, 0x62])] (fun _ _ => 0)
    (recorder fun _ => 0) (fun done c hl => by
      by_cases h : 0x24 ∈ c <;>
        simp [Shell.working, Shell.command, recorder, h, strCopy_eq hl])
    ⟨by decide, by simp⟩ (by simpa using ⟨by decide, by simp⟩) (by decide) (by decide) rfl).2
    trivial

/-- `f && a ; b` with `f` failing: `b` is not run. -/
theorem launchCommand_skips_after_semi :
    let status : CString → ℤ := fun c => if c = [0x66] then 256 else 0
    launchCommand (recorder status) [] [0x66, 0x26, 0x26, 0x61, 0x3B, 0x62] = (256, [[0x66]]) ∧
      listRuns (fun _ => status) 256 [[0x66]] [(.and, [0x61]), (.semi, [0x62])] =
        (0, [[0x66], [0x62]]) := by
  decide
end Menios.Mosh
