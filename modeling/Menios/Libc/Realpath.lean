import Menios.Vfs.PathNormalForm

/-!
# `realpath`

`realpath` (`user/libc/realpath.c`, lines 14-209), when `getcwd`, `malloc` and `stat` succeed. The
loop over the path takes the next component and skips the slashes behind it.

Results:

* `Run.Holds.component`: one component, in the buffer and in the list of names.
* `realpath_normalises`: the result is the normal form of the path, and each write is inside its
  buffer.
-/

namespace Menios.Libc
open Common Vfs List

/-- `PATH_MAX` (`include/limits.h`, line 34), the size of `canonical`, `component` and the output. -/
def pathMax : ℕ := 256

/-- The string in `canonical`, or `none` after an error, and the indices of the writes so far. -/
structure Run where
  text : Option CString
  writes : List ℕ

/-- `trim_trailing_slashes`. -/
def trimTrailingSlashes : ℕ → CString → List ℕ → CString × List ℕ
  | fuel + 1, path, writes =>
    if 1 < path.length ∧ path.getLast? = some slash then
      trimTrailingSlashes fuel path.dropLast ((path.length - 1) :: writes)
    else (path, writes)
  | 0, path, writes => (path, writes)

/-- `pop_component`. -/
def popComponent (path : CString) (writes : List ℕ) : Run :=
  -- the loop over `pos`
  let pos := (path.rdropWhile (· != slash)).length
  if path.length ≤ 1 ∨ pos ≤ 1 then ⟨some [slash], 0 :: 1 :: writes⟩
  else ⟨some (path.take (pos - 1)), (pos - 1) :: writes⟩

/-- `append_component`. -/
def appendComponent (path : CString) (writes : List ℕ) (component : CString) (capacity : ℕ) : Run :=
  if component.length = 0 then ⟨some path, writes⟩
  else if capacity ≤ path.length then ⟨none, writes⟩
  else if capacity ≤ path.length + component.length + 1 + (if 1 < path.length then 1 else 0) then
    ⟨none, writes⟩
  else
    let start := if 1 < path.length ∧ path.getLast? ≠ some slash then path ++ [slash] else path
    ⟨some (start ++ component),
      range' path.length (start.length + component.length + 1 - path.length) ++ writes⟩

/-- The loop over the path (lines 142-172), for one component. -/
def Run.component (r : Run) (component : CString) : Run :=
  match r.text with
  | none => r
  | some path =>
    if pathMax ≤ component.length then ⟨none, range (pathMax - 1) ++ r.writes⟩
    else
      let writes := range (component.length + 1) ++ r.writes
      if component.length = 0 ∨ component = [dot] then ⟨some path, writes⟩
      else if component = [dot, dot] then popComponent path writes
      else appendComponent path writes component pathMax

/-- The start of `canonical` (lines 110-130). -/
def startOf (cwd path : CString) : Run :=
  if path.head? = some slash then ⟨some [slash], [0, 1]⟩
  else if cwd.length = 0 then ⟨some [slash], [0, 1]⟩
  else
    let r := trimTrailingSlashes cwd.length cwd (range (cwd.length + 1))
    ⟨some r.1, r.2⟩

/-- `realpath`. -/
def realpath (cwd path : CString) : Run :=
  if path = [] then ⟨none, []⟩
  else
    let r := (pieces (· == slash) path).foldl Run.component (startOf cwd path)
    match r.text with
    | none => r
    | some path =>
      if pathMax < path.length + 1 then ⟨none, r.writes⟩
      else ⟨some path, range (path.length + 1) ++ r.writes⟩

/-! ## The names in the path -/

/-- The components of the path, from the root on. -/
def rootComponents (cwd path : CString) : List CString :=
  if path.head? = some slash then pieces (· == slash) path
  else pieces (· == slash) cwd ++ pieces (· == slash) path

/-- `/` and the components that are left. -/
def slashNormalForm (cwd path : CString) : CString :=
  joinSlash ((rootComponents cwd path).foldl applyComponent [])

/-- A component that stays. -/
structure PlainName (c : CString) : Prop where
  piece : c ≠ [] ∧ ∀ a ∈ c, (a == slash) = false
  ne_dot : c ≠ [dot]
  ne_dots : c ≠ [dot, dot]

/-- `canonical` has the names, and each write was inside its buffer. -/
structure Run.Holds (r : Run) (names : List CString) : Prop where
  writes : ∀ i ∈ r.writes, i < pathMax
  text : ∀ t, r.text = some t → t = joinSlash names ∧ t.length < pathMax
  plain : ∀ c ∈ names, PlainName c

variable {nm : List CString} {c t : CString} {w : List ℕ}
lemma writes_range {n : ℕ} (hn : n ≤ pathMax) (hw : ∀ i ∈ w, i < pathMax) :
    ∀ i ∈ range n ++ w, i < pathMax := fun i hi =>
  (mem_append.1 hi).elim (fun h => (mem_range.1 h).trans_le hn) (hw i)

lemma plain_applyComponent (h : ∀ c ∈ nm, PlainName c)
    (hc : c ≠ [] ∧ ∀ a ∈ c, (a == slash) = false) : ∀ d ∈ applyComponent nm c, PlainName d := by
  unfold applyComponent
  split_ifs with h1 h2
  · exact h
  · exact fun d hd => h d (mem_of_mem_dropLast hd)
  intro d hd
  rcases mem_append.1 hd with hd | hd
  · exact h d hd
  · exact mem_singleton.1 hd ▸ ⟨hc, h1, h2⟩

lemma rdropWhile_concat (l : CString) (hc : ∀ a ∈ c, (a == slash) = false) :
    (l ++ slash :: c).rdropWhile (· != slash) = l ++ [slash] := by
  have : ∀ a ∈ c.reverse, (a != slash) = true := fun a ha => by simpa using hc a (mem_reverse.1 ha)
  rw [rdropWhile, reverse_append, reverse_cons, append_assoc, dropWhile_append_of_pos this]
  simp

section
variable (h : ∀ c ∈ nm, PlainName c) (hw : ∀ i ∈ w, i < pathMax)
include h
lemma getLast_joinSlash (hl : 1 < (joinSlash nm).length) :
    (joinSlash nm).getLast? ≠ some slash := by
  rcases eq_nil_or_concat' nm with rfl | ⟨init, c, rfl⟩
  · simp [joinSlash] at hl
  obtain ⟨h0, hs⟩ := (h c (by simp)).piece
  have hla : (slash :: c).getLast? = c.getLast? := getLast?_cons_of_ne_nil h0
  rw [joinSlash_concat]
  split_ifs
  · exact hla ▸ fun hg => by simpa using hs _ (mem_of_getLast? hg)
  rw [getLast?_append_of_ne_nil _ (by simp), hla]
  exact fun hg => by simpa using hs _ (mem_of_getLast? hg)

include hw
/-- The last name goes. -/
lemma popComponent_joinSlash (hl : (joinSlash nm).length < pathMax) :
    (popComponent (joinSlash nm) w).Holds nm.dropLast := by
  have hp : ∀ d ∈ nm.dropLast, PlainName d := fun d hd => h d (mem_of_mem_dropLast hd)
  have hroot : (⟨some [slash], 0 :: 1 :: w⟩ : Run).Holds [] :=
    ⟨by simpa [pathMax] using hw, fun t ht => by cases ht; exact ⟨rfl, by decide⟩, by simp⟩
  rcases eq_nil_or_concat' nm with rfl | ⟨init, c, rfl⟩
  · exact hroot
  obtain ⟨h0, hs⟩ := (h c (by simp)).piece
  have := length_pos_of_ne_nil h0
  rw [dropLast_concat] at hp ⊢
  rw [joinSlash_concat] at hl ⊢
  by_cases hi : init = []
  · subst hi
    have hd := rdropWhile_concat [] hs
    rw [nil_append] at hd
    rw [if_pos rfl, popComponent, if_pos (.inr (by rw [hd]; rfl))]
    exact hroot
  have hj : 0 < (joinSlash init).length := by simp [joinSlash]
  rw [if_neg hi, length_append, length_cons] at hl
  rw [if_neg hi, popComponent, rdropWhile_concat _ hs]
  simp only [length_append, length_cons, length_nil, Nat.zero_add, Nat.add_sub_cancel]
  rw [if_neg (by omega), take_left]
  refine ⟨?_, fun t ht => ?_, hp⟩
  · simp only [mem_cons, forall_eq_or_imp]
    exact ⟨by omega, hw⟩
  cases ht
  exact ⟨rfl, by omega⟩

/-- One name more, if there is room. -/
lemma appendComponent_joinSlash (hc : PlainName c) :
    (appendComponent (joinSlash nm) w c pathMax).Holds (nm ++ [c]) := by
  have hp : ∀ d ∈ nm ++ [c], PlainName d := fun d hd =>
    (mem_append.1 hd).elim (h d) fun he => mem_singleton.1 he ▸ hc
  have hfail : (⟨none, w⟩ : Run).Holds (nm ++ [c]) := ⟨hw, nofun, hp⟩
  have := length_pos_of_ne_nil hc.piece.1
  have hst : (if 1 < (joinSlash nm).length ∧ (joinSlash nm).getLast? ≠ some slash then
      joinSlash nm ++ [slash] else joinSlash nm) ++ c = joinSlash (nm ++ [c]) := by
    rw [joinSlash_concat]
    by_cases hn : nm = []
    · simp [hn, joinSlash]
    have hl : 1 < (joinSlash nm).length := by
      obtain ⟨d, l, rfl⟩ := exists_cons_of_ne_nil hn
      have := length_pos_of_ne_nil (h d (by simp)).piece.1
      rw [joinSlash_cons, length_append, length_cons]
      omega
    rw [if_pos ⟨hl, getLast_joinSlash h hl⟩, if_neg hn, append_assoc, singleton_append]
  rw [appendComponent, if_neg (by omega)]
  by_cases h1 : pathMax ≤ (joinSlash nm).length
  · rw [if_pos h1]
    exact hfail
  rw [if_neg h1]
  by_cases h2 : pathMax ≤ (joinSlash nm).length + c.length + 1 +
      if 1 < (joinSlash nm).length then 1 else 0
  · rw [if_pos h2]
    exact hfail
  rw [if_neg h2]
  have hle : (joinSlash (nm ++ [c])).length + 1 < pathMax := by
    rw [← hst, length_append]
    split_ifs at h2 ⊢ with hlt hla
    · rw [length_append, length_singleton]
      omega
    · omega
    · omega
    · omega
  refine ⟨fun i hi => ?_, fun t ht => ?_, hp⟩
  · rcases mem_append.1 hi with hi | hi
    · have := (mem_range'_1.1 hi).2
      rw [← hst, length_append] at hle
      omega
    · exact hw i hi
  obtain rfl := Option.some.inj ht
  exact ⟨hst, by rw [hst]; omega⟩
end

variable {r : Run}
/-- One turn of the loop. -/
lemma Run.Holds.component (h : r.Holds nm) (hc : c ≠ [] ∧ ∀ a ∈ c, (a == slash) = false) :
    (r.component c).Holds (applyComponent nm c) := by
  have hp := plain_applyComponent h.plain hc
  have := length_pos_of_ne_nil hc.1
  unfold Run.component
  cases ht : r.text with
  | none => exact ⟨h.writes, fun t he => by simp [ht] at he, hp⟩
  | some p =>
    obtain ⟨rfl, hl⟩ := h.text _ ht
    dsimp only
    by_cases hm : pathMax ≤ c.length
    · rw [if_pos hm]
      exact ⟨writes_range (Nat.sub_le _ _) h.writes, nofun, hp⟩
    rw [if_neg hm]
    have hw := writes_range (Nat.lt_of_not_ge hm) h.writes
    unfold applyComponent at hp ⊢
    by_cases h1 : c = [dot]
    · rw [if_pos (.inr h1), if_pos h1]
      exact ⟨hw, fun t he => Option.some.inj he ▸ ⟨rfl, hl⟩, h.plain⟩
    rw [if_neg (by rintro (h0 | h0); exacts [by omega, h1 h0]), if_neg h1]
    by_cases h2 : c = [dot, dot]
    · rw [if_pos h2, if_pos h2]
      exact popComponent_joinSlash h.plain hw hl
    rw [if_neg h2, if_neg h2]
    exact appendComponent_joinSlash h.plain hw ⟨hc, h1, h2⟩

lemma Run.Holds.foldl {cs : List CString} (h : r.Holds nm)
    (hc : ∀ c ∈ cs, c ≠ [] ∧ ∀ a ∈ c, (a == slash) = false) :
    (cs.foldl Run.component r).Holds (cs.foldl applyComponent nm) := by
  induction cs generalizing r nm with
  | nil => exact h
  | cons c cs ih => exact ih (h.component (hc c (by simp))) fun d hd => hc d (by simp [hd])

lemma holds_root : (⟨some [slash], [0, 1]⟩ : Run).Holds [] :=
  ⟨by decide, fun t ht => Option.some.inj ht ▸ ⟨rfl, by decide⟩, by simp⟩

lemma holds_startOf (h : ∀ c ∈ nm, PlainName c) (hl : (joinSlash nm).length < pathMax)
    (p : CString) : (startOf (joinSlash nm) p).Holds (if p.head? = some slash then [] else nm) := by
  have h0 : (joinSlash nm).length ≠ 0 := by simp [joinSlash]
  unfold startOf
  split_ifs
  · exact holds_root
  have htr : trimTrailingSlashes (joinSlash nm).length (joinSlash nm)
      (range ((joinSlash nm).length + 1)) =
      (joinSlash nm, range ((joinSlash nm).length + 1)) := by
    obtain ⟨n, hn⟩ := Nat.exists_eq_succ_of_ne_zero h0
    rw [hn, trimTrailingSlashes, if_neg fun hlt => getLast_joinSlash h hlt.1 hlt.2, ← hn]
  rw [htr]
  refine ⟨fun i hi => ?_, fun t ht => Option.some.inj ht ▸ ⟨rfl, hl⟩, h⟩
  have := mem_range.1 hi
  omega

lemma holds_realpath {cwd p : CString} (h : (startOf cwd p).Holds nm) :
    (realpath cwd p).Holds ((pieces (· == slash) p).foldl applyComponent nm) := by
  have hr := h.foldl fun c (hc : c ∈ pieces (· == slash) p) => mem_pieces _ hc
  unfold realpath
  split_ifs with h0
  · exact ⟨by simp, nofun, hr.plain⟩
  dsimp only
  cases ht : ((pieces (· == slash) p).foldl Run.component (startOf cwd p)).text with
  | none => exact hr
  | some t =>
    obtain ⟨rfl, hl⟩ := hr.text _ ht
    dsimp only
    rw [if_neg (by omega)]
    exact ⟨writes_range hl hr.writes, fun t he => Option.some.inj he ▸ ⟨rfl, hl⟩, hr.plain⟩

lemma foldl_plain (h : ∀ c ∈ nm, PlainName c) : nm.foldl applyComponent [] = nm := by
  induction nm using List.reverseRecOn with
  | nil => rfl
  | append_singleton nm c ih =>
    obtain ⟨-, h1, h2⟩ := h c (by simp)
    rw [foldl_append, ih fun d hd => h d (by simp [hd]), foldl_cons, foldl_nil, applyComponent,
      if_neg h1, if_neg h2]

lemma pieces_plain (h : ∀ c ∈ nm, PlainName c) : pieces (· == slash) (joinSlash nm) = nm :=
  pieces_joinSlash _ rfl fun c hc => (h c hc).piece

/-- The result of `realpath`, in the working directory with these names. -/
lemma realpath_holds (h : ∀ c ∈ nm, PlainName c) (hl : (joinSlash nm).length < pathMax)
    (p : CString) : (realpath (joinSlash nm) p).Holds
      ((rootComponents (joinSlash nm) p).foldl applyComponent []) := by
  have hr := holds_realpath (holds_startOf h hl p)
  unfold rootComponents
  split_ifs at hr ⊢
  · exact hr
  · rwa [pieces_plain h, foldl_append, foldl_plain h]

/-- `realpath` gives the normal form, and of a normal form the same again. -/
theorem realpath_normalises (h : ∀ c ∈ nm, PlainName c) (hl : (joinSlash nm).length < pathMax)
    (p : CString) : (∀ i ∈ (realpath (joinSlash nm) p).writes, i < pathMax) ∧
      ∀ out, (realpath (joinSlash nm) p).text = some out →
        out = slashNormalForm (joinSlash nm) p ∧ out.length < pathMax ∧
        ∀ cwd r, (realpath cwd out).text = some r → r = out := by
  have hr := realpath_holds h hl p
  refine ⟨hr.writes, fun out ho => ?_⟩
  obtain ⟨rfl, hlt⟩ := hr.text out ho
  refine ⟨rfl, hlt, fun cwd r ht => ?_⟩
  have hs : startOf cwd (joinSlash ((rootComponents (joinSlash nm) p).foldl
      applyComponent [])) = ⟨some [slash], [0, 1]⟩ := if_pos rfl
  have ha := holds_realpath (hs ▸ holds_root)
  rw [pieces_plain hr.plain, foldl_plain hr.plain] at ha
  exact (ha.text r ht).1

/-- `../b` in `/a` is `/b`. -/
theorem realpath_normalises_parent :
    (realpath (joinSlash [[0x61]]) [dot, dot, slash, 0x62]).text = some [slash, 0x62] ∧
      [slash, 0x62] = slashNormalForm (joinSlash [[0x61]]) [dot, dot, slash, 0x62] := by
  have hr : (realpath (joinSlash [[0x61]]) [dot, dot, slash, 0x62]).text = some [slash, 0x62] := by
    decide +kernel
  have hp : ∀ c ∈ [[(0x61 : UInt8)]], PlainName c := fun c hc =>
    mem_singleton.1 hc ▸ ⟨by simp [slash], by simp [dot], by simp⟩
  exact ⟨hr, ((realpath_normalises hp (by simp [joinSlash, pathMax]) _).2 _ hr).1⟩
end Menios.Libc
