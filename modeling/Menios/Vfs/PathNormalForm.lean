import Menios.Vfs.Path

/-!
# When `vfs_build_absolute_path` returns the normal form

The closed form of the code's output (`buildAbsolutePath_result`), its
comparison with the specified normal form, and the behaviour of the code on a
path that is already normal.

**Defect.** `vfs_build_absolute_path("/", "a/b/../c")` is `/a//c`
(`buildAbsolutePath_doubled_slash`): the position that `..` rewinds to is the
one after the separator, and the separator is not removed. The output is the
specified one exactly when every component that remains was entered through at
most one child (`buildAbsolutePath_correct_iff`).
-/

namespace Menios.Vfs
open Common List Walk

/-! ## The components the code sees -/

lemma forwardSlash_eq_slash (ch : UInt8) : (forwardSlash ch == slash) = isSep ch := by
  unfold forwardSlash isSep
  by_cases h : ch = backslash
  · simp [h]
  · simp [h]

lemma forwardSlash_of_not_sep {ch : UInt8} (h : isSep ch = false) : forwardSlash ch = ch := by
  unfold forwardSlash
  rw [if_neg]
  rintro rfl
  simp [isSep] at h

lemma map_forwardSlash {s : CString} (h : ∀ a ∈ s, isSep a = false) : s.map forwardSlash = s := by
  conv_rhs => rw [← map_id s]
  exact map_congr_left fun a ha => forwardSlash_of_not_sep (h a ha)

lemma pieces_forwardSlash (s : CString) :
    pieces (· == slash) (s.map forwardSlash) = pieces isSep s := by
  induction hn : s.length using Nat.strong_induction_on generalizing s with
  | _ n ih =>
    cases s with
    | nil => rfl
    | cons a s =>
      simp only [length_cons] at hn
      by_cases ha : isSep a = true
      · rw [map_cons, pieces_cons_sep _ (by rw [forwardSlash_eq_slash, ha]), pieces_cons_sep _ ha]
        exact ih s.length (by omega) s rfl
      have hc : ((fun x : UInt8 => !(x == slash)) ∘ forwardSlash) = fun x => !isSep x := by
        funext x; simp only [Function.comp_apply]; rw [forwardSlash_eq_slash]
      have hc' : ((fun x : UInt8 => x == slash) ∘ forwardSlash) = isSep := by
        funext x; exact forwardSlash_eq_slash x
      have ht : (((a :: s).takeWhile fun x => !isSep x).map forwardSlash) =
          (a :: s).takeWhile fun x => !isSep x :=
        map_forwardSlash fun b hb => by simpa using mem_takeWhile_imp hb
      rw [pieces_eq_cons, pieces_eq_cons isSep, takeWhile_map, dropWhile_map, hc,
        ht, dropWhile_map, hc']
      congr 1
      refine ih _ ?_ _ rfl
      rw [dropWhile_cons_of_pos (by simpa using ha)]
      have := length_dropWhile_le isSep (s.dropWhile fun x => !isSep x)
      have := length_dropWhile_le (fun x => !isSep x) s
      omega

/-- The base contributes its components, whether or not a slash is put after it. -/
lemma pieces_combined (b p : CString) (hb : b ≠ []) : pieces (· == slash)
      ((if ¬ (b.length = 1 ∧ b.head? = some slash) ∧ (b.map forwardSlash).getLast? ≠ some slash
          then b.map forwardSlash ++ [slash] else b.map forwardSlash) ++ p.map forwardSlash) =
      pieces isSep b ++ pieces isSep p := by
  have hs : ((slash : UInt8) == slash) = true := by decide
  split_ifs with h
  · rw [append_assoc, singleton_append, pieces_append_sep (· == slash) _ _ hs,
      pieces_forwardSlash, pieces_forwardSlash]
  obtain ⟨init, hin⟩ : ∃ init, b.map forwardSlash = init ++ [slash] := by
    by_cases h1 : b.length = 1 ∧ b.head? = some slash
    · obtain ⟨a, rfl⟩ := length_eq_one_iff.1 h1.1
      refine ⟨[], ?_⟩
      have : a = slash := by simpa using h1.2
      subst this
      decide
    have h2 : (b.map forwardSlash).getLast? = some slash := by by_contra hc; exact h ⟨h1, hc⟩
    exact ⟨_, (List.dropLast_append_getLast? slash h2).symm⟩
  rw [← pieces_forwardSlash b, ← pieces_forwardSlash p, hin, append_assoc,
    singleton_append, pieces_append_sep (· == slash) _ _ hs,
    pieces_append_sep (· == slash) _ _ hs, pieces_nil, append_nil]

lemma inputComponents_ordinary (b : Option CString) (p : CString) :
    ∀ c ∈ inputComponents b p, c ≠ [] ∧ ∀ a ∈ c, isSep a = false := by
  intro c hc
  unfold inputComponents at hc
  split_ifs at hc
  · exact mem_pieces isSep hc
  rcases mem_append.1 hc with hc | hc
  · exact mem_pieces isSep hc
  · exact mem_pieces isSep hc

/-! ## Closed form of the output -/
namespace Walk
/-- The output after the walk: the buffer less one slash at its end. -/
def result : Walk → CString
  | [] => [slash]
  | (name, entered) :: w => pre w ++ name ++ List.replicate (entered - 1) slash

lemma strip_pre {w : Walk} (hw : w.Ordinary) :
    (if w.pre.length > 1 ∧ w.pre.getLast? = some slash then w.pre.dropLast else w.pre) =
      w.result := by
  cases w with
  | nil => rfl
  | cons f w =>
    obtain ⟨name, entered⟩ := f
    obtain ⟨h0, _, _, hsep⟩ := hw.name (name, entered) (by simp)
    have hlen := hw.shaped.one_lt_length (by simp)
    cases entered with
    | zero =>
      rw [if_neg]
      · simp [pre, result]
      rintro ⟨_, hl⟩
      simp only [pre, replicate_zero, append_nil] at hl
      rw [List.getLast?_append_of_ne_nil _ h0] at hl
      have := hsep slash (mem_of_getLast? hl)
      simp [isSep] at this
    | succ k =>
      rw [if_pos]
      · simp [pre, result, replicate_succ', ← append_assoc]
      refine ⟨hlen, ?_⟩
      simp [pre, replicate_succ', ← append_assoc]
end Walk

variable {outSize : ℕ}
/-- `vfs_canonicalize` writes the result of the walk along its segments. -/
lemma canonicalize_eq {i o : CString} (cm : List CString) (hin : i ≠ [])
    (hp : pieces (· == slash) i = cm) (hc : ∀ c ∈ cm, c ≠ [] ∧ ∀ a ∈ c, isSep a = false)
    (h : canonicalize i outSize = some o) : o = result (cm.foldl visit []) ∧
      Walk.Ordinary (cm.foldl visit []) ∧ Fits outSize (cm.foldl visit []) := by
  have hr : pieces (· == slash)
      (if i.head? = some slash then i.dropWhile (· == slash) else i) = cm := by
    split_ifs
    · rw [pieces_dropWhile, hp]
    · exact hp
  unfold canonicalize at h
  by_cases h1 : outSize = 0
  · simp [h1] at h
  rw [if_neg h1, if_neg (fun h2 => hin (length_eq_zero_iff.1 h2))] at h
  simp only [canonLoop_eq_foldlM, hr, Option.map_eq_some_iff] at h
  obtain ⟨s, hst, rfl⟩ := h
  obtain ⟨rfl, -, hf⟩ := foldlM_canonSegment (w := []) cm (fun c hm => (hc c hm).1)
    ordinary_nil.shaped (fun h0 => absurd rfl h0) hst
  have hord : Walk.Ordinary (cm.foldl visit []) := foldlRecOn cm visit ordinary_nil
    fun w hw c hm => visit_ordinary hw (hc c hm).1 (hc c hm).2
  exact ⟨strip_pre hord, hord, hf⟩

/-- `vfs_build_absolute_path` in closed form. -/
theorem buildAbsolutePath_result {bs : Option CString} {p o : CString}
    (h : buildAbsolutePath bs p outSize = some o) :
    o = result ((inputComponents bs p).foldl visit []) ∧
      Walk.Ordinary ((inputComponents bs p).foldl visit []) ∧
      Fits outSize ((inputComponents bs p).foldl visit []) ∧ 0 < outSize := by
  have hc := inputComponents_ordinary bs p
  unfold buildAbsolutePath at h
  split_ifs at h with h0 ha hl
  · obtain ⟨r1, r2, r3⟩ := canonicalize_eq (inputComponents bs p)
      (by rintro he; simp at he; simp [he] at ha)
      (by rw [pieces_forwardSlash, inputComponents, if_pos ha]) hc h
    exact ⟨r1, r2, r3, by omega⟩
  have hb : effectiveBase bs ≠ [] := by
    unfold effectiveBase
    split <;> simp
  have hba : pieces isSep (effectiveBase bs) = pieces isSep (bs.getD []) := by
    unfold effectiveBase
    split
    · rfl
    rename_i hne
    rcases bs with _ | _ | ⟨a, b⟩
    · exact pieces_cons_sep isSep (by decide) []
    · exact pieces_cons_sep isSep (by decide) []
    · exact absurd rfl (hne a b)
  rw [ite_eq_iff] at h
  obtain ⟨_, hno⟩ | ⟨_, h⟩ := h
  · cases hno
  obtain ⟨r1, r2, r3⟩ := canonicalize_eq (inputComponents bs p)
    (by
      intro he
      rw [append_eq_nil_iff] at he
      have := he.1
      split_ifs at this <;> simp_all)
    (by rw [pieces_combined _ _ hb, hba, inputComponents, if_neg ha]) hc h
  exact ⟨r1, r2, r3, by omega⟩

/-! ## Comparison with the normal form -/

lemma joinSlash_concat (cs : List CString) (c : CString) :
    joinSlash (cs ++ [c]) = if cs = [] then slash :: c else joinSlash cs ++ slash :: c := by
  unfold joinSlash
  induction cs with
  | nil => simp
  | cons a cs ih =>
    cases cs with
    | nil => simp [intercalate_cons_cons]
    | cons b cs =>
      simp only [cons_append, intercalate_cons_cons, reduceCtorEq, if_false,
        List.cons.injEq, true_and] at ih ⊢
      rw [ih]
      simp [append_assoc]

namespace Walk
lemma joinSlash_names_cons (f : CString × ℕ) (w : Walk) : joinSlash (names (f :: w)) =
      if w = [] then slash :: f.1 else joinSlash w.names ++ slash :: f.1 := by
  have hn : w.names = [] ↔ w = [] := by simp [names]
  have : names (f :: w) = w.names ++ [f.1] := by simp [names]
  rw [this, joinSlash_concat]
  by_cases h : w = []
  · rw [if_pos (hn.2 h), if_pos h]
  · rw [if_neg (fun h' => h (hn.1 h')), if_neg h]

lemma pre_eq_of_entered_one : ∀ {w : Walk}, (∀ f ∈ w, f.2 = 1) →
    w.pre = if w = [] then [slash] else joinSlash w.names ++ [slash] := by
  intro w
  induction w with
  | nil => intro _; rfl
  | cons f w ih =>
    intro h
    obtain ⟨name, entered⟩ := f
    obtain rfl : entered = 1 := h (name, entered) (by simp)
    rw [pre, ih fun f hf => h f (mem_cons_of_mem _ hf), joinSlash_names_cons,
      if_neg (cons_ne_nil _ _)]
    by_cases hw : w = []
    · simp [hw]
    · simp [hw]

/-- The slashes beyond the specified ones. -/
def extra : Walk → ℕ
  | [] => 0
  | (_, entered) :: w => (entered - 1) + extra w

lemma extra_eq_zero_iff (w : Walk) : w.extra = 0 ↔ ∀ f ∈ w, f.2 ≤ 1 := by
  induction w with
  | nil => simp [extra]
  | cons f w ih =>
    simp only [extra, mem_cons, forall_eq_or_imp, ← ih]
    omega

variable {w : Walk}
lemma length_pre (h : ∀ f ∈ w, 1 ≤ f.2) :
    w.pre.length = (if w = [] then 1 else (joinSlash w.names).length + 1) + w.extra := by
  induction w with
  | nil => rfl
  | cons f w ih =>
    have := h f (by simp)
    rw [pre, length_append, length_append, ih fun f hf => h f (by simp [hf]),
      joinSlash_names_cons, if_neg (by simp : f :: w ≠ []), extra, length_replicate]
    by_cases hw : w = []
    · simp [hw, extra]; omega
    · simp [hw]; omega

lemma length_result (hw : w.Shaped) : w.result.length = (joinSlash w.names).length + w.extra := by
  cases w with
  | nil => rfl
  | cons f w =>
    have hp := length_pre (w := w) hw.entered
    rw [result, length_append, length_append, hp, joinSlash_names_cons, extra, length_replicate]
    by_cases h : w = []
    · simp [h, extra]; omega
    · simp [h]; omega

lemma length_joinSlash_le (hw : w.Shaped) : (joinSlash w.names).length ≤ w.pre.length := by
  have hr := length_result hw
  cases w with
  | nil => exact le_rfl
  | cons f w =>
    simp only [result, pre, length_append, length_replicate] at hr ⊢
    omega

lemma result_eq_iff (hw : w.Shaped) : w.result = joinSlash w.names ↔ ∀ f ∈ w, f.2 ≤ 1 := by
  constructor
  · intro h
    have := length_result hw
    rw [h] at this
    exact (extra_eq_zero_iff w).1 (by omega)
  intro h
  cases w with
  | nil => rfl
  | cons f w =>
    have hone : ∀ g ∈ w, g.2 = 1 := fun g hg => by
      have := h g (by simp [hg])
      have := hw.entered g hg
      omega
    have h0 : f.2 - 1 = 0 := by have := h f (by simp); omega
    rw [result, h0, replicate_zero, append_nil, pre_eq_of_entered_one hone, joinSlash_names_cons]
    by_cases hnil : w = []
    · simp [hnil]
    · simp [hnil]
end Walk

/-! ## Normal forms are normal -/

/-- The names of a walk are ordinary components. -/
def OrdinaryName (c : CString) : Prop :=
  c ≠ [] ∧ c ≠ [dot] ∧ c ≠ [dot, dot] ∧ ∀ a ∈ c, isSep a = false

lemma not_slash_of_ordinary {c : CString} (h : OrdinaryName c) {a : UInt8} (ha : a ∈ c) :
    a ≠ slash := by
  rintro rfl
  have := h.2.2.2 slash ha
  simp [isSep] at this

lemma joinSlash_cons (c : CString) (cs : List CString) :
    joinSlash (c :: cs) = slash :: c ++ if cs = [] then [] else joinSlash cs := by
  unfold joinSlash
  cases cs with
  | nil => simp
  | cons b cs => simp [intercalate_cons_cons]

lemma pieces_joinSlash (p : UInt8 → Bool) (hs : p slash = true) {cs : List CString}
    (h : ∀ c ∈ cs, c ≠ [] ∧ ∀ a ∈ c, p a = false) : pieces p (joinSlash cs) = cs := by
  induction cs with
  | nil => exact pieces_cons_sep p hs []
  | cons c cs ih =>
    have hc := h c (by simp)
    have hone := pieces_of_forall p hc.2 hc.1
    rw [joinSlash_cons, cons_append, pieces_cons_sep p hs]
    by_cases hn : cs = []
    · simp [hn, hone]
    rw [if_neg hn, joinSlash, pieces_append_sep p _ _ hs, hone, ← pieces_cons_sep p hs]
    rw [show slash :: [slash].intercalate cs = joinSlash cs from rfl,
      ih fun c' hc' => h c' (by simp [hc'])]
    rfl

variable {cs : List CString}
section
variable (h : ∀ c ∈ cs, OrdinaryName c)
include h
lemma joinSlash_noEmptyComponent : NoEmptyComponent (joinSlash cs) := by
  unfold NoEmptyComponent
  induction cs with
  | nil => simp [joinSlash]
  | cons c cs ih =>
    have hc := h c (by simp)
    have hr : c.IsChain fun a b => ¬ (a = slash ∧ b = slash) :=
      List.Pairwise.isChain <| pairwise_of_forall_mem_list
        fun a ha _ _ (hx : _ ∧ _) => not_slash_of_ordinary hc ha hx.1
    rw [joinSlash_cons]
    apply List.IsChain.append
    · obtain ⟨a, t, rfl⟩ := exists_cons_of_ne_nil hc.1
      exact isChain_cons_cons.2 ⟨fun hx => not_slash_of_ordinary hc (by simp) hx.2, hr⟩
    · split_ifs
      · exact isChain_nil
      · exact ih fun c' hc' => h c' (by simp [hc'])
    intro a ha b _ hx
    rw [Option.mem_def, List.getLast?_cons_of_ne_nil hc.1] at ha
    exact not_slash_of_ordinary hc (mem_of_getLast? ha) hx.1

lemma joinSlash_noTrailingSlash : NoTrailingSlash (joinSlash cs) := by
  rcases eq_nil_or_concat cs with rfl | ⟨init, c, rfl⟩
  · exact .inl rfl
  right
  have hc := h c (by simp)
  rw [concat_eq_append, joinSlash_concat]
  have hla : (slash :: c).getLast? = c.getLast? := List.getLast?_cons_of_ne_nil hc.1
  split_ifs
  · rw [hla]
    exact fun hl => not_slash_of_ordinary hc (mem_of_getLast? hl) rfl
  rw [List.getLast?_append_of_ne_nil _ (by simp), hla]
  exact fun hl => not_slash_of_ordinary hc (mem_of_getLast? hl) rfl

lemma foldl_visit_ordinary :
    Walk.Ordinary (cs.foldl visit []) ∧ (cs.foldl visit []).length = cs.length ∧
      pre (cs.foldl visit []) = joinSlash cs := by
  induction cs using List.reverseRecOn with
  | nil => exact ⟨ordinary_nil, rfl, rfl⟩
  | append_singleton cs c ih =>
    obtain ⟨hw, hl, hp⟩ := ih fun c' hc' => h c' (by simp [hc'])
    obtain ⟨h0, h1, h2, hsep⟩ := h c (by simp)
    rw [foldl_append, foldl_cons, foldl_nil]
    refine ⟨visit_ordinary hw h0 hsep, ?_, ?_⟩
    · rw [visit_push _ h1 h2, length_cons, length_bump, hl, length_append, length_singleton]
    have hn : cs.foldl visit [] = [] ↔ cs = [] := by
      rw [← length_eq_zero_iff, hl, length_eq_zero_iff]
    rw [visit_push _ h1 h2, pre, pre_bump, joinSlash_concat, hp]
    by_cases hc : cs = []
    · rw [if_pos (hn.2 hc), if_pos hc]; simp
    · rw [if_neg (fun hx => hc (hn.1 hx)), if_neg hc]; simp

lemma foldlM_normal
    (hf : cs ≠ [] → (joinSlash cs).length < outSize) (hseg : cs.length ≤ maxSegments) :
    cs.foldlM (canonSegment outSize) (stateOf []) = some (stateOf (cs.foldl visit [])) := by
  induction cs using List.reverseRecOn with
  | nil => rfl
  | append_singleton cs c ih =>
    have h' : ∀ c' ∈ cs, OrdinaryName c' := fun c' hc' => h c' (by simp [hc'])
    obtain ⟨h0, h1, h2, _⟩ := h c (by simp)
    have hl := hf (by simp)
    rw [joinSlash_concat] at hl
    simp only [length_append, length_singleton] at hseg
    have hp : cs ≠ [] → (joinSlash cs).length < outSize := by
      intro hn
      rw [if_neg hn, length_append] at hl
      omega
    obtain ⟨hw, hlen, hpre⟩ := foldl_visit_ordinary h'
    obtain ⟨_, _, hp'⟩ := foldl_visit_ordinary h
    rw [foldlM_append, ih h' hp (by omega)]
    rw [foldl_append, foldl_cons, foldl_nil] at hp' ⊢
    show List.foldlM (canonSegment outSize) (stateOf (cs.foldl visit [])) [c] = _
    rw [foldlM_cons, canonSegment_push hw.shaped h0 h1 h2, if_pos]
    · rfl
    refine ⟨by omega, ?_⟩
    rw [hp']
    exact hf (by simp)

lemma joinSlash_ne_backslash : ∀ a ∈ joinSlash cs, a ≠ backslash := by
  induction cs with
  | nil => intro a ha; simp [joinSlash] at ha; subst ha; decide
  | cons c cs ih =>
    intro a ha hb
    rw [joinSlash_cons, cons_append, mem_cons, mem_append] at ha
    rcases ha with rfl | ha | ha
    · cases hb
    · have := (h c (by simp)).2.2.2 a ha
      simp [isSep, hb] at this
    split_ifs at ha
    · simp at ha
    · exact ih (fun c' hc' => h c' (by simp [hc'])) a ha hb

lemma map_joinSlash : (joinSlash cs).map forwardSlash = joinSlash cs := by
  conv_rhs => rw [← map_id (joinSlash cs)]
  exact map_congr_left fun a ha => if_neg (joinSlash_ne_backslash h a ha)

lemma canonicalize_normal (h0 : 0 < outSize)
    (hf : cs ≠ [] → (joinSlash cs).length < outSize) (hseg : cs.length ≤ maxSegments) :
    canonicalize (joinSlash cs) outSize = some (joinSlash cs) := by
  have hl : (joinSlash cs).length ≠ 0 := by simp [joinSlash]
  obtain ⟨hw, _, hpre⟩ := foldl_visit_ordinary h
  have hp : pieces (· == slash) (joinSlash cs) = cs := pieces_joinSlash _ rfl fun c hc =>
    ⟨(h c hc).1, fun a ha => by simpa using not_slash_of_ordinary (h c hc) ha⟩
  have hnt := joinSlash_noTrailingSlash h
  unfold canonicalize
  rw [if_neg (by omega), if_neg hl]
  simp only [show (joinSlash cs).head? = some slash from rfl, if_true, canonLoop_eq_foldlM,
    pieces_dropWhile, hp]
  rw [show ({ out := [slash], stack := [] } : CanonState) = stateOf [] from rfl,
    foldlM_normal h hf hseg, Option.map_some]
  simp only [stateOf, hpre, Option.some.injEq, ite_eq_right_iff, and_imp]
  intro h1 h2
  rcases hnt with hnt | hnt
  · simp [hnt] at h1
  · exact absurd h2 hnt

/-- Normalising a normal path returns it, if the path fits the code's own
buffer. -/
lemma buildAbsolutePath_normal {b : Option CString}
    (h0 : 0 < outSize) (hf : cs ≠ [] → (joinSlash cs).length < outSize)
    (hseg : cs.length ≤ maxSegments) : buildAbsolutePath b (joinSlash cs) outSize =
      if (joinSlash cs).length < vfsPathMax * 2 then some (joinSlash cs) else none := by
  unfold buildAbsolutePath
  rw [if_neg (by omega), if_pos (show (joinSlash cs).head? = some slash from rfl), map_joinSlash h,
    canonicalize_normal h h0 hf hseg]
  split_ifs
  · omega
  · rfl
  · rfl
  · omega
end

/-! ## The result -/

/-- What a path normalisation owes its callers: the specified string, without
empty components and without a trailing slash, on which normalising again
changes nothing. -/
structure Normalised (base : Option CString) (path out : CString) (outSize : ℕ) : Prop where
  spec : out = normalForm base path
  noEmpty : NoEmptyComponent out
  noTrailing : NoTrailingSlash out
  idempotent : ∀ base' : Option CString, buildAbsolutePath base' out outSize = some out

/-- **`vfs_build_absolute_path` is right exactly on walks that never enter a
second child of a directory they keep**, and whose normal form fits the
code's `2 * VFS_PATH_MAX` bytes (it can be one byte longer when the base is
relative). -/
theorem buildAbsolutePath_correct_iff {base : Option CString} {path out : CString} {outSize : ℕ}
    (h : buildAbsolutePath base path outSize = some out) : Normalised base path out outSize ↔
      OneChildEach (inputComponents base path) ∧ (normalForm base path).length < vfsPathMax * 2 := by
  obtain ⟨hout, hord, hfit, h0⟩ := buildAbsolutePath_result h
  set w := (inputComponents base path).foldl visit [] with hw
  have hsp : normalForm base path = joinSlash w.names := by rw [normalForm, hw, foldl_visit]; rfl
  have hna : ∀ c ∈ w.names, OrdinaryName c := by
    intro c hc
    simp only [names, mem_reverse, mem_map] at hc
    obtain ⟨f, hf, rfl⟩ := hc
    exact hord.name f hf
  have hlen : w.names ≠ [] → (joinSlash w.names).length < outSize := by
    intro hn
    have hne : w ≠ [] := fun hnil => hn (by rw [hnil]; rfl)
    exact lt_of_le_of_lt (length_joinSlash_le hord.shaped) (hfit hne).1
  have hseg : w.names.length ≤ maxSegments := by
    rw [length_names]
    by_cases hn : w = []
    · simp [hn]
    · exact (hfit hn).2
  constructor
  · intro hN
    have hone : OneChildEach (inputComponents base path) :=
      (result_eq_iff hord.shaped).1 (by rw [← hout, hN.spec, hsp])
    refine ⟨hone, ?_⟩
    have hid := hN.idempotent none
    rw [hN.spec, hsp, buildAbsolutePath_normal hna h0 hlen hseg] at hid
    rw [hsp]
    by_contra hl
    rw [if_neg hl] at hid
    simp at hid
  rintro ⟨hone, hl⟩
  have he : out = joinSlash w.names := by rw [hout]; exact (result_eq_iff hord.shaped).2 hone
  refine ⟨by rw [he, hsp], ?_, ?_, ?_⟩
  · rw [he]; exact joinSlash_noEmptyComponent hna
  · rw [he]; exact joinSlash_noTrailingSlash hna
  intro b'
  rw [he, buildAbsolutePath_normal hna h0 hlen hseg, if_pos (by rw [← hsp]; exact hl)]

/-- `../b` below `/x` is `/b`. -/
theorem buildAbsolutePath_correct_iff_updir :
    Normalised (some [slash, 0x78]) [dot, dot, slash, 0x62] [slash, 0x62] 256 :=
  (buildAbsolutePath_correct_iff (by
    simp only [buildAbsolutePath, canonicalize, canonLoop_eq_foldlM]
    decide)).2 (by decide)

/-- `a/b/../c` below `/` becomes `/a//c`. -/
theorem buildAbsolutePath_doubled_slash :
    buildAbsolutePath (some [slash]) [0x61, slash, 0x62, slash, dot, dot, slash, 0x63] 256 =
        some [slash, 0x61, slash, slash, 0x63] ∧
      ¬ Normalised (some [slash]) [0x61, slash, 0x62, slash, dot, dot, slash, 0x63]
        [slash, 0x61, slash, slash, 0x63] 256 := by
  refine ⟨?_, fun h => ?_⟩
  · simp only [buildAbsolutePath, canonicalize, canonLoop_eq_foldlM]
    decide
  · exact absurd h.spec (by decide)
end Menios.Vfs
