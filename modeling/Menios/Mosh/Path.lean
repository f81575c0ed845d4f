import Menios.Libc.Realpath

/-!
# Paths in the shell

`build_combined_path`, `canonicalize_path` and `normalize_path` of `app/mosh/mosh.c` (lines
2477-2599), compared with `realpath`.

**Defect.** As in the kernel, `..` takes the output back to the position behind the slash. Here the
slash stays even at the end: `a/b/..` is `/a/` (`normalizePath_trailing_slash`).

Results:

* `pre_eq_iff`: the walks after which the buffer has the normal form.
* `normalizePath_eq_iff`: the shell and `realpath` agree exactly on them.
-/

namespace Menios.Mosh
open Common Vfs Libc List Walk

/-- `MOSH_MAX_PATH` (line 20). -/
def moshMaxPath : ℕ := 256

/-- `build_combined_path` for two strings; `str_copy` cuts off what does not fit, and the path that
is left is taken for the whole one. -/
def buildCombinedPath (base path : CString) (capacity : ℕ) : Option CString :=
  if path.head? = some slash then
    if path.take (capacity - 1) ≠ [] then some (path.take (capacity - 1)) else none
  else
    let out := if base = [] then [slash] else base.take (capacity - 1)
    let out := if out = [] then [slash] else out
    if capacity ≤ out.length then none
    else if path = [] then some out
    else if 1 < out.length ∧ out.getLast? ≠ some slash ∧ capacity ≤ out.length + 1 then none
    else
      let out := if 1 < out.length ∧ out.getLast? ≠ some slash then out ++ [slash] else out
      if path.length ≤ capacity - 1 - out.length then some (out ++ path) else none

variable (capacity : ℕ)
/-- The loop of `canonicalize_path` for one segment (lines 2557-2586). -/
def segment (st : CanonState) (seg : CString) : Option CanonState :=
  if seg = [dot] then some st
  else if seg = [dot, dot] then
    if 0 < st.stack.length then
      some { out := st.out.take (st.stack.headD 0), stack := st.stack.tail }
    else some st
  else if 1 < st.out.length ∧ capacity ≤ st.out.length + 1 then none
  else
    let out := if 1 < st.out.length then st.out ++ [slash] else st.out
    if 64 ≤ st.stack.length then none
    -- the loop over the segment stops at a character that does not fit
    else if capacity ≤ out.length + seg.length then none
    else some { out := out ++ seg, stack := out.length :: st.stack }

/-- `canonicalize_path`. -/
def canonicalizePath (input : CString) : Option CString :=
  if capacity = 0 then none
  else ((pieces (· == slash) input).foldlM (segment capacity) { out := [slash], stack := [] }).map
    CanonState.out

/-- `normalize_path`. -/
def normalizePath (base path : CString) : Option CString :=
  (buildCombinedPath base path moshMaxPath).bind (canonicalizePath capacity)

/-- Nothing is cut off: the string that `build_combined_path` copies fits its buffer. -/
def Uncut (base path : CString) : Prop :=
  if path.head? = some slash then path.length < moshMaxPath else base.length < moshMaxPath

/-- No `..` has come back to a component that is left: none was entered twice, and the last one
not at all. -/
def NeverBack (components : List CString) : Prop :=
  OneChildEach components ∧ ∀ f ∈ (components.foldl visit []).head?, f.2 = 0

variable {capacity}
/-! ## The segments -/

/-- The tests come in another order than in the kernel. -/
lemma segment_eq (st : CanonState) {s : CString} (h : s ≠ []) :
    segment capacity st s = canonSegment capacity st s := by
  have := length_pos_of_ne_nil h
  unfold segment canonSegment
  rw [if_neg (by omega : ¬ s.length = 0)]
  by_cases h1 : s = [dot]
  · rw [if_pos h1, if_pos h1]
  by_cases h2 : s = [dot, dot]
  · rw [if_neg h1, if_neg h1, if_pos h2, if_pos h2]
    cases st.stack with
    | nil => rfl
    | cons pos l => rfl
  rw [if_neg h1, if_neg h1, if_neg h2, if_neg h2]
  by_cases h3 : 64 ≤ st.stack.length
  · rw [if_pos (show st.stack.length ≥ maxSegments from h3)]
    split_ifs <;> rfl
  · rw [if_neg (show ¬ st.stack.length ≥ maxSegments from h3), if_neg h3]

lemma foldlM_segment {s : List CString} (h : ∀ c ∈ s, c ≠ []) (st : CanonState) :
    s.foldlM (segment capacity) st = s.foldlM (canonSegment capacity) st := by
  induction s generalizing st with
  | nil => rfl
  | cons c s ih =>
    rw [foldlM_cons, foldlM_cons, segment_eq st (h c (by simp))]
    exact congrArg _ (funext fun s' => ih (fun d hd => h d (by simp [hd])) s')

/-- The combined path has the components of the two. -/
lemma pieces_buildCombinedPath {b p o : CString} (hb : b.head? = some slash)
    (hu : Uncut b p) (h : buildCombinedPath b p moshMaxPath = some o) :
    pieces (· == slash) o = rootComponents b p := by
  unfold Uncut at hu
  unfold buildCombinedPath at h
  unfold rootComponents
  by_cases ha : p.head? = some slash
  · rw [if_pos ha] at h hu ⊢
    rw [take_of_length_le (Nat.le_sub_one_of_lt hu)] at h
    split_ifs at h
    exact congrArg _ (Option.some.inj h).symm
  have h0 : b ≠ [] := by rintro rfl; simp at hb
  rw [if_neg ha] at h hu ⊢
  simp only [if_neg h0, take_of_length_le (Nat.le_sub_one_of_lt hu)] at h
  by_cases hp : p = []
  · simp only [hp, if_true, ite_eq_iff, reduceCtorEq, and_false, false_or] at h
    rw [← Option.some.inj h.2, hp, pieces_nil, append_nil]
  simp only [hp, if_false] at h
  by_cases hl : 1 < b.length ∧ b.getLast? ≠ some slash
  · rw [if_pos hl] at h
    split_ifs at h
    rw [← Option.some.inj h, append_assoc, singleton_append, pieces_append_sep _ _ _ rfl]
  rw [if_neg hl] at h
  obtain ⟨init, rfl⟩ : ∃ init, b = init ++ [slash] := by
    obtain ⟨a, l, rfl⟩ := exists_cons_of_ne_nil h0
    obtain rfl : a = slash := by simpa using hb
    by_cases hlen : l = []
    · exact ⟨[], by simp [hlen]⟩
    have := length_pos_of_ne_nil hlen
    have hg : (slash :: l).getLast? = some slash := by
      by_contra hg
      exact hl ⟨by simpa using this, hg⟩
    exact ⟨_, (dropLast_append_getLast? slash hg).symm⟩
  split_ifs at h
  rw [← Option.some.inj h, append_assoc, singleton_append, pieces_append_sep _ _ _ rfl,
    pieces_append_sep _ _ _ rfl, pieces_nil, append_nil]

/-! ## The result -/

lemma pre_eq_iff {w : Walk} (hw : w.Shaped) :
    w.pre = joinSlash w.names ↔ (∀ f ∈ w, f.2 ≤ 1) ∧ ∀ f ∈ w.head?, f.2 = 0 := by
  cases w with
  | nil => simp [pre, names, joinSlash]
  | cons f w =>
    have hl := length_result hw
    have hr := result_eq_iff hw
    obtain ⟨name, entered⟩ := f
    have he : pre ((name, entered) :: w) =
        result ((name, entered) :: w) ++ replicate (entered - (entered - 1)) slash := by
      rw [pre, result, append_assoc, append_assoc, append_assoc, ← replicate_add]
      congr 3
      omega
    simp only [head?_cons, Option.mem_def, Option.some.injEq, forall_eq']
    rw [← hr, he]
    constructor
    · intro h
      have := congrArg length h
      rw [length_append, length_replicate] at this
      obtain rfl : entered = 0 := by omega
      exact ⟨by simpa using h, rfl⟩
    rintro ⟨h, rfl⟩
    simpa using h

/-- What the buffer has in the end. -/
lemma normalizePath_eq {b p o : CString} (hb : b.head? = some slash)
    (hu : Uncut b p) (h : normalizePath capacity b p = some o) :
    o = pre ((rootComponents b p).foldl visit []) ∧
      Shaped ((rootComponents b p).foldl visit []) := by
  obtain ⟨cm, hco, h⟩ := Option.bind_eq_some_iff.1 h
  have hne : ∀ c ∈ pieces (· == slash) cm, c ≠ [] := fun c hc => (mem_pieces _ hc).1
  unfold canonicalizePath at h
  split_ifs at h
  obtain ⟨s, hst, rfl⟩ := Option.map_eq_some_iff.1 h
  rw [foldlM_segment hne] at hst
  obtain ⟨rfl, hw, -⟩ := foldlM_canonSegment (w := []) _ hne ordinary_nil.shaped
    (fun h0 => absurd rfl h0) hst
  rw [pieces_buildCombinedPath hb hu hco] at hw ⊢
  exact ⟨rfl, hw⟩

/-- The shell gives the normal form, and so the path that `realpath` gives in a directory whose path
is normal, exactly if it never comes back to a component that is left. -/
theorem normalizePath_eq_iff {b p o : CString} (hb : b.head? = some slash)
    (hu : Uncut b p) (h : normalizePath capacity b p = some o) :
    (o = slashNormalForm b p ↔ NeverBack (rootComponents b p)) ∧
    ∀ names r, (∀ c ∈ names, PlainName c) → b = joinSlash names → b.length < pathMax →
      (realpath b p).text = some r → (o = r ↔ NeverBack (rootComponents b p)) := by
  obtain ⟨rfl, hw⟩ := normalizePath_eq hb hu h
  have hi : pre ((rootComponents b p).foldl visit []) = slashNormalForm b p ↔
      NeverBack (rootComponents b p) := by
    rw [slashNormalForm, ← show names [] = [] from rfl, ← foldl_visit]
    exact pre_eq_iff hw
  refine ⟨hi, fun names r hn he hl hr => ?_⟩
  subst he
  rwa [((realpath_holds hn hl p).text r hr).1]

/-- `a/b` in `/`. -/
theorem normalizePath_eq_iff_child : normalizePath 256 [slash] [0x61, slash, 0x62] =
      some [slash, 0x61, slash, 0x62] ∧
    [slash, 0x61, slash, 0x62] = slashNormalForm [slash] [0x61, slash, 0x62] := by
  have hr : normalizePath 256 [slash] [0x61, slash, 0x62] = some [slash, 0x61, slash, 0x62] := by
    decide +kernel
  have hu : Uncut [slash] [0x61, slash, 0x62] := by
    unfold Uncut
    decide +kernel
  exact ⟨hr, (normalizePath_eq_iff rfl hu hr).1.2 ⟨by decide +kernel, by decide +kernel⟩⟩

/-- `a/b/..` in `/`. -/
theorem normalizePath_trailing_slash :
    normalizePath 256 [slash] [0x61, slash, 0x62, slash, dot, dot] = some [slash, 0x61, slash] ∧
    (realpath [slash] [0x61, slash, 0x62, slash, dot, dot]).text = some [slash, 0x61] := by
  decide +kernel
end Menios.Mosh
