import Menios.Common.Strings

/-!
# Path normalisation in the VFS

Models of `vfs_canonicalize` and `vfs_build_absolute_path`
(`src/kernel/fs/vfs/vfs.c`, lines 121-251), and the specification they are
compared with: split the path, drop empty and `.` components, let `..` remove
the last remaining component, join with single slashes.

`vfs_canonicalize` keeps a stack of output positions. `..` rewinds the output
to the position right after the separator of the removed component, so that
separator stays in the buffer, and the next component writes another one. The
invariant `Walk.pre` describes the buffer exactly: below a surviving directory
the code has written one slash for every component it entered there.

Results:

* `canonicalize_eq`: the code's output in closed form, for every input.
* `buildAbsolutePath_correct_iff`: an accepted path is normalised to the
  specified string iff no surviving component was entered through more than
  one child.
-/

namespace Menios.Vfs
open Common List

/-- `VFS_PATH_MAX` (`include/kernel/fs/vfs/vfs.h`, line 17). -/
def vfsPathMax : ℕ := 256

/-- The characters `'/'`, `'\\'` and `'.'`. -/
def slash : UInt8 := 0x2F
def backslash : UInt8 := 0x5C
def dot : UInt8 := 0x2E

/-! ## Model -/

/-- The loop state of `vfs_canonicalize`: the bytes `out[0 … out_pos)` and
`stack[0 … depth)`, the deepest entry first. `out_pos` is the length of
`out`; the code keeps `out[out_pos] = '\0'`. -/
structure CanonState where
  out : CString
  stack : List ℕ

/-- `max_segments` (line 140). -/
def maxSegments : ℕ := 64

variable (outSize : ℕ)
/-- The body of the `while(i < len)` loop after the segment has been cut out
(lines 164-198). -/
def canonSegment (st : CanonState) (seg : CString) : Option CanonState :=
  if seg.length = 0 then some st
  else if seg = [dot] then some st
  else if seg = [dot, dot] then
    match st.stack with
    | [] => some st
    | pos :: stack => some { out := st.out.take pos, stack := stack }
  else if st.stack.length ≥ maxSegments then none
  else if st.out.length > 1 ∧ st.out.length + 1 ≥ outSize then none
  else
    let out := if st.out.length > 1 then st.out ++ [slash] else st.out
    if out.length + seg.length ≥ outSize then none
    else some { out := out ++ seg, stack := out.length :: st.stack }

/-- The `while(i < len)` loop (lines 154-199) on the input from `i` on: the
two inner loops skip a segment and the slashes after it. -/
def canonLoop (outSize : ℕ) (input : CString) (st : CanonState) : Option CanonState :=
  if _h : input = [] then some st
  else
    let seg := input.takeWhile (· != slash)
    (canonSegment outSize st seg).bind
      (canonLoop outSize ((input.dropWhile (· != slash)).dropWhile (· == slash)))
termination_by input.length
decreasing_by
  cases input with
  | nil => exact absurd rfl _h
  | cons a s =>
    have h1 := length_dropWhile_le (· != slash) s
    by_cases ha : (a == slash) = true
    · rw [dropWhile_cons_of_neg (by simpa using ha), dropWhile_cons_of_pos (p := (· == slash)) ha]
      have := length_dropWhile_le (· == slash) s
      simp only [length_cons]; omega
    rw [dropWhile_cons_of_pos (by simpa using ha)]
    have := length_dropWhile_le (· == slash) (s.dropWhile (· != slash))
    simp only [length_cons]; omega

/-- `vfs_canonicalize` (lines 121-209); `none` is `return false`. -/
def canonicalize (input : CString) (outSize : ℕ) : Option CString :=
  if outSize = 0 then none
  else if input.length = 0 then
    if outSize < 2 then none else some [slash]
  else
    let rest := if input.head? = some slash then input.dropWhile (· == slash) else input
    (canonLoop outSize rest { out := [slash], stack := [] }).map fun st =>
      if st.out.length > 1 ∧ st.out.getLast? = some slash then st.out.dropLast else st.out

/-- `(ch == '\\') ? '/' : ch`. -/
def forwardSlash (ch : UInt8) : UInt8 := if ch = backslash then slash else ch

variable (base : Option CString)
/-- `effective_base` (line 217); a `NULL` base is `none`. -/
def effectiveBase : CString :=
  match base with
  | some (ch :: rest) => ch :: rest
  | _ => [slash]

/-- `vfs_build_absolute_path` (lines 211-251) for a non-`NULL` path. The buffer
`combined` has `2 * VFS_PATH_MAX` bytes. -/
def buildAbsolutePath (path : CString) (outSize : ℕ) : Option CString :=
  if outSize = 0 then none
  else if path.head? = some slash then
    if path.length + 1 > vfsPathMax * 2 then none
    else canonicalize (path.map forwardSlash) outSize
  else
    let base := effectiveBase base
    let baseIsRoot := base.length = 1 ∧ base.head? = some slash
    let needed := base.length + (if baseIsRoot then 0 else 1) + path.length + 1
    if needed > vfsPathMax * 2 then none
    else
      let combined := base.map forwardSlash
      let combined :=
        if ¬ baseIsRoot ∧ combined.getLast? ≠ some slash then combined ++ [slash] else combined
      canonicalize (combined ++ path.map forwardSlash) outSize

/-! ## Specification -/

/-- The separators of a path. -/
def isSep (ch : UInt8) : Bool := ch == slash || ch == backslash

/-- The components of the path that is normalised: those of `path` alone when it
is absolute, else those of the base followed by those of `path`. -/
def inputComponents (path : CString) : List CString :=
  if path.head? = some slash then pieces isSep path
  else pieces isSep (base.getD []) ++ pieces isSep path

/-- Apply one component to the list of remaining components. -/
def applyComponent (remaining : List CString) (component : CString) : List CString :=
  if component = [dot] then remaining
  else if component = [dot, dot] then remaining.dropLast
  else remaining ++ [component]

/-- `'/'` followed by the components joined with `'/'`. -/
def joinSlash (components : List CString) : CString := slash :: [slash].intercalate components

/-- The specified normal form of `path` relative to `base`. -/
def normalForm (path : CString) : CString :=
  joinSlash ((inputComponents base path).foldl applyComponent [])

/-- No component between two slashes is empty. -/
def NoEmptyComponent (s : CString) : Prop := s.IsChain fun a b => ¬ (a = slash ∧ b = slash)

/-- The path is `/` or does not end in a slash. -/
def NoTrailingSlash (s : CString) : Prop := s = [slash] ∨ s.getLast? ≠ some slash

/-! ## The walk through the directories -/

/-- The directories on the way to the current one, the deepest first, each with
the number of components that were entered directly below it. -/
abbrev Walk := List (CString × ℕ)

namespace Walk
/-- Count one more component below the current directory. -/
def bump : Walk → Walk
  | [] => []
  | (name, entered) :: w => (name, entered + 1) :: w

/-- One component of the path. -/
def visit (w : Walk) (component : CString) : Walk :=
  if component = [dot] then w
  else if component = [dot, dot] then w.tail
  else (component, 0) :: w.bump

/-- The remaining components, in path order. -/
def names (w : Walk) : List CString := (w.map Prod.fst).reverse

/-- What `vfs_canonicalize` has in its buffer: below every directory one slash
for each component that was entered there. -/
def pre : Walk → CString
  | [] => [slash]
  | (name, entered) :: w => pre w ++ name ++ List.replicate entered slash

/-- The stack of `vfs_canonicalize`: where the name of each directory starts. -/
def positions : Walk → List ℕ
  | [] => []
  | (_, _) :: w => (pre w).length :: positions w
end Walk

open Walk

/-- No component that remains was entered through more than one child. -/
def OneChildEach (components : List CString) : Prop := ∀ f ∈ components.foldl visit [], f.2 ≤ 1

instance (components : List CString) : Decidable (OneChildEach components) := by
  unfold OneChildEach; infer_instance

/-! ## The loop is a fold over the segments -/

lemma canonSegment_nil (s : CanonState) : canonSegment outSize s [] = some s := by
  simp [canonSegment]

lemma canonLoop_eq_foldlM : ∀ (i : CString) (s : CanonState), canonLoop outSize i s =
      (pieces (· == slash) i).foldlM (canonSegment outSize) s := by
  intro i s
  induction i, s using canonLoop.induct with
  | case1 s => rw [canonLoop]; simp
  | case2 i s h ih =>
    rw [canonLoop, dif_neg h, pieces_eq_cons]
    generalize hseg : (i.takeWhile fun x => !(x == slash)) = seg
    have hs' : (i.takeWhile fun x => x != slash) = seg := hseg
    simp only [hs', foldlM_append]
    split_ifs with h0
    · show (canonSegment outSize s seg).bind _ = _
      rw [h0, canonSegment_nil]
      exact ih s
    show (canonSegment outSize s seg).bind _ = _
    simp only [foldlM_cons, foldlM_nil, bind_pure]
    cases hc : canonSegment outSize s seg with
    | none => rfl
    | some s' => exact ih s'

/-! ## The loop follows the walk -/
namespace Walk
section
variable (w : Walk)
@[simp] lemma pre_bump : w.bump.pre = if w = [] then [slash] else w.pre ++ [slash] := by
  cases w with
  | nil => rfl
  | cons f w => simp [bump, pre, replicate_succ']

@[simp] lemma positions_bump : w.bump.positions = w.positions := by cases w <;> rfl

@[simp] lemma names_bump : w.bump.names = w.names := by cases w <;> rfl

@[simp] lemma length_bump : w.bump.length = w.length := by cases w <;> rfl

lemma visit_push {s : CString} (h1 : s ≠ [dot]) (h2 : s ≠ [dot, dot]) :
    w.visit s = (s, 0) :: w.bump := by
  unfold visit; rw [if_neg h1, if_neg h2]

@[simp] lemma length_positions : w.positions.length = w.length := by
  induction w with
  | nil => rfl
  | cons f w ih => simp [positions, ih]

@[simp] lemma length_names : w.names.length = w.length := by simp [names]
end

/-- What holds of every walk along a path: names are ordinary components, and
every directory but the deepest was entered through some child. -/
structure Ordinary (w : Walk) : Prop where
  name : ∀ f ∈ w, f.1 ≠ [] ∧ f.1 ≠ [dot] ∧ f.1 ≠ [dot, dot] ∧ ∀ a ∈ f.1, isSep a = false
  entered : ∀ f ∈ w.tail, 1 ≤ f.2

lemma ordinary_nil : Ordinary [] := ⟨by simp, by simp⟩

/-- What the loop needs: no name is empty. -/
structure Shaped (w : Walk) : Prop where
  name : ∀ f ∈ w, f.1 ≠ []
  entered : ∀ f ∈ w.tail, 1 ≤ f.2

lemma Ordinary.shaped {w : Walk} (h : w.Ordinary) : w.Shaped :=
  ⟨fun f hf => (h.name f hf).1, h.entered⟩

lemma Shaped.one_lt_length {w : Walk} (h : w.Shaped) (h0 : w ≠ []) : 1 < w.pre.length := by
  have hpos : ∀ w : Walk, 0 < w.pre.length := by
    intro w
    induction w with
    | nil => simp [pre]
    | cons f w ih => simp [pre]; omega
  cases w with
  | nil => exact absurd rfl h0
  | cons f w =>
    have := length_pos_of_ne_nil (h.name f (by simp))
    have := hpos w
    simp [pre]; omega

lemma forall_visit {P : CString → Prop} {w : Walk} (h : ∀ f ∈ w, P f.1) {s : CString}
    (hs : s ≠ [dot] → s ≠ [dot, dot] → P s) : ∀ f ∈ w.visit s, P f.1 := by
  unfold visit
  split_ifs with h1 h2
  · exact h
  · exact fun f hf => h f (mem_of_mem_tail hf)
  intro f hf
  rcases mem_cons.1 hf with rfl | hf
  · exact hs h1 h2
  cases w with
  | nil => simp [bump] at hf
  | cons g w =>
    rcases mem_cons.1 hf with rfl | hf
    · exact h g (by simp)
    · exact h f (by simp [hf])

lemma Shaped.visit {w : Walk} (h : w.Shaped) {s : CString} (h0 : s ≠ []) : (w.visit s).Shaped := by
  refine ⟨forall_visit (P := (· ≠ [])) h.name fun _ _ => h0, ?_⟩
  unfold Walk.visit
  split_ifs
  · exact h.entered
  · exact fun f hf => h.entered f (mem_of_mem_tail hf)
  intro f hf
  cases w with
  | nil => simp [bump] at hf
  | cons g w =>
    rcases mem_cons.1 hf with rfl | hf
    · simp
    · exact h.entered f hf

lemma visit_ordinary {w : Walk} (h : w.Ordinary) {s : CString} (h0 : s ≠ [])
    (hs : ∀ a ∈ s, isSep a = false) : (w.visit s).Ordinary :=
  ⟨forall_visit (P := fun c => c ≠ [] ∧ c ≠ [dot] ∧ c ≠ [dot, dot] ∧ ∀ a ∈ c, isSep a = false)
    h.name fun h1 h2 => ⟨h0, h1, h2, hs⟩, (h.shaped.visit h0).entered⟩

lemma names_visit (w : Walk) (s : CString) : (w.visit s).names = applyComponent w.names s := by
  unfold visit applyComponent
  split_ifs
  · rfl
  · cases w <;> simp [names]
  have := names_bump w
  simp only [names] at this ⊢
  rw [map_cons, reverse_cons, this]

lemma foldl_visit (cm : List CString) (w : Walk) :
    (cm.foldl visit w).names = cm.foldl applyComponent w.names := by
  induction cm generalizing w with
  | nil => rfl
  | cons c cm ih => rw [foldl_cons, foldl_cons, ih, names_visit]
end Walk

/-- The state of `vfs_canonicalize` after the walk `w`. -/
def stateOf (w : Walk) : CanonState := { out := w.pre, stack := w.positions }

/-- The bounds the code has checked: a non-root walk fits the output buffer and
the stack. -/
def Fits (w : Walk) : Prop := w ≠ [] → w.pre.length < outSize ∧ w.length ≤ maxSegments

variable {outSize : ℕ}
lemma fits_tail {w : Walk} (h : Fits outSize w) : Fits outSize w.tail := by
  intro h0
  cases w with
  | nil => exact absurd rfl h0
  | cons f w =>
    obtain ⟨h1, h2⟩ := h (by simp)
    simp only [pre, length_append, length_cons, tail_cons] at h1 h2 ⊢
    exact ⟨by omega, by omega⟩

lemma canonSegment_push {w : Walk} (hw : w.Shaped) {s : CString}
    (h0 : s ≠ []) (h1 : s ≠ [dot]) (h2 : s ≠ [dot, dot]) : canonSegment outSize (stateOf w) s =
      if w.length < maxSegments ∧ (w.visit s).pre.length < outSize then some (stateOf (w.visit s))
      else none := by
  have hv := w.visit_push h1 h2
  have : 0 < s.length := length_pos_of_ne_nil h0
  have hout : (if w.pre.length > 1 then w.pre ++ [slash] else w.pre) = w.bump.pre := by
    rw [pre_bump]
    by_cases hn : w = []
    · subst hn; simp [pre]
    · rw [if_pos (hw.one_lt_length hn), if_neg hn]
  unfold canonSegment stateOf
  simp only [hv, h1, h2, length_positions, if_false, hout, pre, positions,
    positions_bump, replicate_zero, append_nil, length_append]
  rw [if_neg (by omega)]
  by_cases hm : w.length < maxSegments
  · rw [if_neg (by omega)]
    by_cases hb : w.bump.pre.length + s.length < outSize
    · have hc : ¬ (w.pre.length > 1 ∧ w.pre.length + 1 ≥ outSize) := by
        rintro ⟨c1, c2⟩
        rw [← hout, if_pos c1, length_append] at hb
        simp at hb; omega
      rw [if_neg hc, if_neg (by omega), if_pos ⟨hm, hb⟩]
    · have hn : ¬ (w.length < maxSegments ∧ w.bump.pre.length + s.length < outSize) :=
        fun h => hb h.2
      rw [if_neg hn]
      split_ifs
      · rfl
      · rfl
      · omega
  · rw [if_pos (by omega), if_neg (fun h => hm h.1)]

lemma canonSegment_visit {w : Walk} {s : CString} {st : CanonState}
    (hw : w.Shaped) (hf : Fits outSize w) (h0 : s ≠ [])
    (h : canonSegment outSize (stateOf w) s = some st) :
    st = stateOf (w.visit s) ∧ Fits outSize (w.visit s) := by
  by_cases h1 : s = [dot]
  · subst h1
    simp only [canonSegment, visit, length_singleton, if_true, if_false, one_ne_zero,
      Option.some.injEq] at h ⊢
    exact ⟨h.symm, hf⟩
  by_cases h2 : s = [dot, dot]
  · subst h2
    have hv : w.visit [dot, dot] = w.tail := by unfold visit; simp [h1]
    rw [hv]
    refine ⟨?_, fits_tail hf⟩
    cases w with
    | nil => simpa [canonSegment, stateOf, positions, h1] using h.symm
    | cons f w =>
      simp only [canonSegment, h1, stateOf, positions, if_true, if_false] at h
      simpa [stateOf, pre, append_assoc] using h.symm
  rw [canonSegment_push hw h0 h1 h2] at h
  split_ifs at h with hc
  refine ⟨(Option.some.inj h).symm, fun _ => ⟨hc.2, ?_⟩⟩
  rw [w.visit_push h1 h2, length_cons, length_bump]
  omega

lemma foldlM_canonSegment : ∀ (sg : List CString) {w : Walk} {st : CanonState},
    (∀ se ∈ sg, se ≠ []) → w.Shaped → Fits outSize w →
    sg.foldlM (canonSegment outSize) (stateOf w) = some st →
    st = stateOf (sg.foldl visit w) ∧ (sg.foldl visit w).Shaped ∧ Fits outSize (sg.foldl visit w) := by
  intro sg
  induction sg with
  | nil =>
    intro w st _ hw hf h
    simp only [foldlM_nil] at h
    exact ⟨(Option.some.inj h).symm, hw, hf⟩
  | cons se sg ih =>
    intro w st hs hw hf h
    have h0 := hs se (by simp)
    rw [foldlM_cons] at h
    cases hc : canonSegment outSize (stateOf w) se with
    | none => rw [hc] at h; simp at h
    | some s' =>
      obtain ⟨rfl, hf'⟩ := canonSegment_visit hw hf h0 hc
      rw [hc] at h
      exact ih (fun s hs' => hs s (by simp [hs'])) (hw.visit h0) hf' h
end Menios.Vfs
