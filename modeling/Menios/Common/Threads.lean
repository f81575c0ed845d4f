import Mathlib

/-!
# Linked lists threaded through one successor field

Several NULL-terminated lists may share the successor field `next` of their nodes.
`IsList next head l` says that following `next` from `head` visits the nodes of `l`
and then ends. `Threaded next head lists` says this of a family of lists and that no
node is on two of them.

Results:

* `IsList.nodup`, `IsList.unique`: a list visits no node twice, and its head
  determines it.
* `IsList.push`, `IsList.unlink`, `IsList.insert`: the three pointer updates.
* `findPrev_of_not_mem`, `findPrev_of_mem`: the search for the predecessor of a node.
* `Threaded.replace`: changing one list of a family.
-/

namespace Menios.Common.Threads
open List Function Option
variable {α ι : Type*}
/-- `next` leads from `head` through the nodes of `l` to `stop`. -/
def Path (next : α → Option α) : Option α → List α → Option α → Prop
  | head, [], stop => head = stop
  | head, a :: l, stop => head = some a ∧ Path next (next a) l stop

/-- The list from `head` has the nodes `l` and ends behind them. -/
def IsList (next : α → Option α) (head : Option α) (l : List α) : Prop := Path next head l none

/-- `next` leads from `head` to the node. -/
inductive Reach (next : α → Option α) : Option α → α → Prop
  | here {a : α} : Reach next (some a) a
  | step {a b : α} : Reach next (next a) b → Reach next (some a) b

section
variable {n n' : α → Option α} {hd s : Option α} {l l1 l2 : List α} {a b : α}
lemma Path.congr (h : Path n hd l s) (he : ∀ a ∈ l, n' a = n a) : Path n' hd l s := by
  induction l generalizing hd with
  | nil => exact h
  | cons a l ih =>
    refine ⟨h.1, ?_⟩
    rw [he a (by simp)]
    exact ih h.2 fun b hb => he b (mem_cons_of_mem a hb)

lemma path_append : Path n hd (l1 ++ l2) s ↔ ∃ m, Path n hd l1 m ∧ Path n m l2 s := by
  induction l1 generalizing hd with
  | nil => simp [Path]
  | cons a l1 ih =>
    simp only [cons_append, Path, ih]
    constructor
    · rintro ⟨h, m, h1, h2⟩
      exact ⟨m, ⟨h, h1⟩, h2⟩
    rintro ⟨m, ⟨h, h1⟩, h2⟩
    exact ⟨h, m, h1, h2⟩

lemma Path.redirect [DecidableEq α] (h : Path n hd (l ++ [a]) s) (ha : a ∉ l)
    (s' : Option α) : Path (update n a s') hd (l ++ [a]) s' := by
  obtain ⟨m, h1, h2⟩ := path_append.1 h
  refine path_append.2 ⟨m, h1.congr fun b hb => ?_, h2.1, ?_⟩
  · exact update_of_ne (ne_of_mem_of_not_mem hb ha) _ _
  · simp [Path]
end

namespace IsList
variable {nx nx' : α → Option α} {head : Option α} {l l1 l2 : List α} {a b : α}
lemma congr (h : IsList nx head l) (he : ∀ a ∈ l, nx' a = nx a) : IsList nx' head l :=
  Path.congr h he

theorem unique (h1 : IsList nx head l1) (h2 : IsList nx head l2) : l1 = l2 := by
  induction l1 generalizing head l2 with
  | nil =>
    cases l2 with
    | nil => rfl
    | cons b l2 => exact absurd ((show head = none from h1).symm.trans h2.1) (by simp)
  | cons a l1 ih =>
    cases l2 with
    | nil => exact absurd ((show head = none from h2).symm.trans h1.1) (by simp)
    | cons b l2 =>
      obtain rfl : a = b := some.inj (h1.1.symm.trans h2.1)
      rw [ih h1.2 h2.2]

lemma suffix (h : IsList nx head (l1 ++ a :: l2)) : IsList nx (some a) (a :: l2) := by
  obtain ⟨m, -, hmid⟩ := path_append.1 h
  exact ⟨rfl, hmid.2⟩

theorem nodup (h : IsList nx head l) : l.Nodup := by
  induction l generalizing head with
  | nil => exact nodup_nil
  | cons a l ih =>
    refine nodup_cons.2 ⟨fun ha => ?_, ih h.2⟩
    -- a second visit of `a` would start the same list again
    obtain ⟨l1, l2, rfl⟩ := append_of_mem ha
    have hr : IsList nx (nx a) (l1 ++ a :: l2) := h.2
    have hl := congrArg List.length (unique hr hr.suffix.2)
    simp at hl
    omega

lemma not_mem_split (h : IsList nx head (l1 ++ a :: l2)) : a ∉ l1 ∧ a ∉ l2 := by
  obtain ⟨-, hr, hdi⟩ := nodup_append.1 h.nodup
  exact ⟨fun ha => hdi a ha a (by simp) rfl, (nodup_cons.1 hr).1⟩

lemma length_le [Fintype α] (h : IsList nx head l) : l.length ≤ Fintype.card α :=
  h.nodup.length_le_card

lemma reach_iff (h : IsList nx head l) : Reach nx head b ↔ b ∈ l := by
  induction l generalizing head with
  | nil =>
    obtain rfl : head = none := h
    constructor
    · intro hr
      cases hr
    intro hb
    cases hb
  | cons a l ih =>
    obtain ⟨rfl, hre⟩ := h
    constructor
    · intro hr
      cases hr with
      | here => simp
      | step hr => exact mem_cons_of_mem a ((ih hre).1 hr)
    intro hb
    rcases mem_cons.1 hb with rfl | hb
    · exact .here
    · exact .step ((ih hre).2 hb)
end IsList

/-! ## Pointer updates -/
section
variable [DecidableEq α] (next : α → Option α)
/-- `a` gets no successor, and the old last node leads to it. -/
def pushNext (last : Option α) (a : α) : α → Option α :=
  match last with
  | none => update next a none
  | some t => update (update next a none) t (some a)

/-- `a` is taken out behind `prev`. -/
def unlinkNext (prev : Option α) (a : α) : α → Option α :=
  match prev with
  | none => update next a none
  | some p => update (update next p (next a)) a none

/-- `a` is put behind `prev`, or in front of `head`. -/
def insertNext (head prev : Option α) (a : α) : α → Option α :=
  match prev with
  | none => update next a head
  | some p => update (update next a (next p)) p (some a)

/-- The node in front of `target` on the list from `node`, where `prev` is in front of
`node`: `some none` when `target` is not found, and `none` when the search is not
over after `fuel` nodes. -/
def findPrev (next : α → Option α) (target : α) :
    ℕ → Option α → Option α → Option (Option (Option α))
  | _, _, none => some none
  | 0, _, some _ => none
  | fuel + 1, prev, some node =>
    if node = target then some (some prev) else findPrev next target fuel (some node) (next node)

variable {next : α → Option α} {head : Option α} {l l1 l2 : List α} {a b : α}
lemma pushNext_of_ne {la : Option α} (h : b ≠ a) (hl : la ≠ some b) :
    pushNext next la a b = next b := by
  cases la with
  | none => simp [pushNext, h]
  | some t =>
    have hb : b ≠ t := fun he => hl (he ▸ rfl)
    simp [pushNext, h, hb]

lemma unlinkNext_of_ne {pr : Option α} (h : b ≠ a) (hp : pr ≠ some b) :
    unlinkNext next pr a b = next b := by
  cases pr with
  | none => simp [unlinkNext, h]
  | some p =>
    have hb : b ≠ p := fun he => hp (he ▸ rfl)
    simp [unlinkNext, h, hb]

lemma insertNext_of_ne {pr : Option α} (h : b ≠ a) (hp : pr ≠ some b) :
    insertNext next head pr a b = next b := by
  cases pr with
  | none => simp [insertNext, h]
  | some p =>
    have hb : b ≠ p := fun he => hp (he ▸ rfl)
    simp [insertNext, h, hb]

namespace IsList
theorem push (h : IsList next head l) (ha : a ∉ l) :
    IsList (pushNext next l.getLast? a) (if l = [] then some a else head) (l ++ [a]) := by
  rcases eq_nil_or_concat' l with rfl | ⟨l, t, rfl⟩
  · simp [IsList, Path, pushNext]
  have hat : a ≠ t := fun he => ha (by simp [he])
  have hp : Path (update next a none) head (l ++ [t]) none :=
    Path.congr h fun b hb => update_of_ne (ne_of_mem_of_not_mem hb ha) _ _
  rw [if_neg (by simp), List.getLast?_concat]
  refine path_append.2 ⟨some a, hp.redirect h.not_mem_split.1 (some a), rfl, ?_⟩
  simp [Path, pushNext, hat]

theorem unlink (h : IsList next head (l1 ++ a :: l2)) :
    IsList (unlinkNext next l1.getLast? a) (if l1 = [] then next a else head) (l1 ++ l2) := by
  obtain ⟨ha1, ha2⟩ := h.not_mem_split
  obtain ⟨m, h1, h2⟩ := path_append.1 h
  have hdi := (nodup_append.1 h.nodup).2.2
  rcases eq_nil_or_concat' l1 with rfl | ⟨l1, p, rfl⟩
  · rw [if_pos rfl]
    exact Path.congr h2.2 fun b hb => unlinkNext_of_ne (ne_of_mem_of_not_mem hb ha2) (by simp)
  have hp : p ∉ l1 := by
    rw [append_assoc] at h
    exact h.not_mem_split.1
  rw [if_neg (by simp), List.getLast?_concat]
  refine path_append.2 ⟨next a, ?_, Path.congr h2.2 fun b hb => ?_⟩
  · exact (h1.redirect hp (next a)).congr fun b hb => update_of_ne (ne_of_mem_of_not_mem hb ha1) _ _
  refine unlinkNext_of_ne (ne_of_mem_of_not_mem hb ha2) fun he => ?_
  exact hdi p (by simp) b (mem_cons_of_mem a hb) (some.inj he)

theorem insert (h : IsList next head (l1 ++ l2)) (ha : a ∉ l1 ++ l2) :
    IsList (insertNext next head l1.getLast? a) (if l1 = [] then some a else head)
      (l1 ++ a :: l2) := by
  have ha1 : a ∉ l1 := fun hm => ha (mem_append_left l2 hm)
  have ha2 : a ∉ l2 := fun hm => ha (mem_append_right l1 hm)
  have hdi := (nodup_append.1 h.nodup).2.2
  obtain ⟨m, h1, h2⟩ := path_append.1 h
  rcases eq_nil_or_concat' l1 with rfl | ⟨l1, p, rfl⟩
  · rw [if_pos rfl]
    obtain rfl : head = m := h1
    refine ⟨rfl, ?_⟩
    simp only [List.getLast?_nil, insertNext, update_self]
    exact h2.congr fun b hb => update_of_ne (ne_of_mem_of_not_mem hb ha2) _ _
  have hp : p ∉ l1 := by
    rw [append_assoc] at h
    exact h.not_mem_split.1
  have hap : a ≠ p := fun he => ha1 (by simp [he])
  have hmid : m = next p := by
    obtain ⟨m', -, h3⟩ := path_append.1 h1
    exact h3.2.symm
  rw [if_neg (by simp), List.getLast?_concat]
  refine path_append.2 ⟨some a, ?_, rfl, ?_⟩
  · have hpa : Path (update next a (next p)) head (l1 ++ [p]) m :=
      h1.congr fun b hb => update_of_ne (ne_of_mem_of_not_mem hb ha1) _ _
    exact hpa.redirect hp (some a)
  have hne : insertNext next head (some p) a a = m := by simp [insertNext, hap, hmid]
  rw [hne]
  refine h2.congr fun b hb => insertNext_of_ne (ne_of_mem_of_not_mem hb ha2) fun he => ?_
  exact hdi p (by simp) b hb (some.inj he)
end IsList

theorem findPrev_of_not_mem (h : IsList next head l) {f : ℕ} (hf : l.length ≤ f)
    (ha : a ∉ l) (p : Option α) : findPrev next a f p head = some none := by
  induction l generalizing head p f with
  | nil =>
    obtain rfl : head = none := h
    cases f <;> rfl
  | cons b l ih =>
    obtain ⟨rfl, hr⟩ := h
    cases f with
    | zero => simp at hf
    | succ f =>
      have hne : b ≠ a := fun he => ha (by simp [he])
      rw [findPrev, if_neg hne]
      exact ih hr (by simpa using hf) (fun hm => ha (mem_cons_of_mem b hm)) (some b)

theorem findPrev_of_mem (h : IsList next head (l1 ++ a :: l2)) {f : ℕ}
    (hf : (l1 ++ a :: l2).length ≤ f) (p : Option α) :
    findPrev next a f p head = some (some (l1.getLast?.or p)) := by
  induction l1 generalizing head p f with
  | nil =>
    obtain ⟨rfl, hr⟩ := h
    cases f with
    | zero => simp at hf
    | succ f => simp [findPrev]
  | cons b l1 ih =>
    have hne : b ≠ a := by
      have := h.nodup
      rintro rfl
      simp at this
    obtain ⟨rfl, hr⟩ := h
    cases f with
    | zero => simp at hf
    | succ f =>
      rw [findPrev, if_neg hne, ih hr (by simpa using hf) (some b)]
      cases l1 with
      | nil => rfl
      | cons c l1 => simp [List.getLast?_cons]
end

/-! ## Reachable nodes

These facts need no list: `next` may lead in a circle. -/

section
variable {next : α → Option α} {head : Option α} {a b x : α}
lemma Reach.extend (h : Reach next head a) (hb : next a = some b) : Reach next head b := by
  induction h with
  | here => exact .step (hb ▸ .here)
  | step _ ih => exact .step (ih hb)

/-- A set that contains the head and is closed under `next` contains all reachable nodes. -/
lemma Reach.mem {T : α → Prop} (h : Reach next head x) (hh : ∀ a, head = some a → T a)
    (hne : ∀ a, T a → ∀ b, next a = some b → T b) : T x := by
  induction h with
  | here => exact hh _ rfl
  | @step a _ _ ih => exact ih fun b hb => hne a (hh a rfl) b hb

variable [DecidableEq α]
lemma Reach.of_pushNext {la : Option α} (h : Reach (pushNext next la a) head x) :
    Reach next head x ∨ x = a := by
  refine h.mem (T := fun x => Reach next head x ∨ x = a) (fun c hc => ?_) fun c hc b hb => ?_
  · exact .inl (hc ▸ .here)
  by_cases hl : la = some c
  · subst hl
    simp only [pushNext, update_self, Option.some.injEq] at hb
    exact .inr hb.symm
  by_cases hca : c = a
  · subst hca
    cases la with
    | none => simp [pushNext] at hb
    | some t =>
      have hct : c ≠ t := fun he => hl (he ▸ rfl)
      simp [pushNext, hct] at hb
  rw [pushNext_of_ne hca hl] at hb
  exact .inl ((hc.resolve_right hca).extend hb)

/-- The predecessor of `a` that `unlinkNext` is given leads to `a`. -/
lemma Reach.of_unlinkNext {p : Option α} (hpr : ∀ c, p = some c → next c = some a)
    (h : Reach (unlinkNext next p a) head x) : Reach next head x := by
  refine h.mem (T := Reach next head) (fun c hc => hc ▸ .here) fun c hc b hb => ?_
  by_cases hca : c = a
  · subst hca
    cases p <;> simp [unlinkNext] at hb
  by_cases hp : p = some c
  · have hst : unlinkNext next p a c = next a := by
      rw [hp]
      simp [unlinkNext, hca]
    rw [hst] at hb
    exact (hc.extend (hpr c hp)).extend hb
  rw [unlinkNext_of_ne hca hp] at hb
  exact hc.extend hb

lemma pushNext_leads {la : Option α} {c : α} (h : pushNext next la a c = some b) :
    b = a ∨ c ≠ a ∧ next c = some b := by
  cases la with
  | none =>
    by_cases hc : c = a
    · subst hc
      simp [pushNext] at h
    · exact .inr ⟨hc, by simpa [pushNext, hc] using h⟩
  | some t =>
    by_cases hct : c = t
    · subst hct
      exact .inl (by simpa [pushNext] using h.symm)
    by_cases hc : c = a
    · subst hc
      simp [pushNext, hct] at h
    · exact .inr ⟨hc, by simpa [pushNext, hct, hc] using h⟩

lemma insertNext_leads {p : Option α} {c : α} (h : insertNext next head p a c = some b) :
    b = a ∨ c ≠ a ∧ next c = some b ∨
      c = a ∧ (p = none ∧ head = some b ∨ ∃ t, p = some t ∧ next t = some b) := by
  cases p with
  | none =>
    by_cases hc : c = a
    · subst hc
      exact .inr (.inr ⟨rfl, .inl ⟨rfl, by simpa [insertNext] using h⟩⟩)
    · exact .inr (.inl ⟨hc, by simpa [insertNext, hc] using h⟩)
  | some t =>
    by_cases hct : c = t
    · subst hct
      exact .inl (by simpa [insertNext] using h.symm)
    by_cases hc : c = a
    · subst hc
      exact .inr (.inr ⟨rfl, .inr ⟨t, rfl, by simpa [insertNext, hct] using h⟩⟩)
    · exact .inr (.inl ⟨hc, by simpa [insertNext, hct, hc] using h⟩)

lemma findPrev_leads {f : ℕ} {p r : Option α}
    (h : findPrev next a f p head = some (some r)) : Reach next head a ∧
      (r = p ∧ head = some a ∨ ∃ c, r = some c ∧ next c = some a) := by
  induction f generalizing p head with
  | zero => cases head <;> simp [findPrev] at h
  | succ f ih =>
    cases head with
    | none => simp [findPrev] at h
    | some node =>
      rw [findPrev] at h
      split_ifs at h with hno
      · exact ⟨hno ▸ .here, .inl ⟨(some.inj (some.inj h)).symm, by rw [hno]⟩⟩
      obtain ⟨hre, ⟨hr, hne⟩ | hf⟩ := ih h
      · exact ⟨.step hre, .inr ⟨node, hr, hne⟩⟩
      · exact ⟨.step hre, .inr hf⟩

lemma findPrev_prev {f : ℕ} {r : Option α} {c : α}
    (h : findPrev next a f none head = some (some r)) (hc : r = some c) : next c = some a := by
  rcases (findPrev_leads h).2 with ⟨hno, -⟩ | ⟨c', hc', hne⟩
  · exact absurd (hc.symm.trans hno) (by simp)
  · exact some.inj (hc'.symm.trans hc) ▸ hne
end

/-! ## Families of lists -/

/-- Every `lists i` is the list from `head i`, and no node is on two of them. -/
structure Threaded (next : α → Option α) (head : ι → Option α) (lists : ι → List α) : Prop where
  list : ∀ i, IsList next (head i) (lists i)
  disjoint : ∀ i j a, a ∈ lists i → a ∈ lists j → i = j

namespace Threaded
variable {next ne' : α → Option α} {head head' : ι → Option α} {ls : ι → List α}
/-- One list of the family changes; the successors of the nodes on the other ones stay. -/
theorem replace [DecidableEq ι] (h : Threaded next head ls) (i : ι) {l : List α}
    (hl : IsList ne' (head' i) l) (hh : ∀ j, j ≠ i → head' j = head j)
    (hne : ∀ j, j ≠ i → ∀ a ∈ ls j, ne' a = next a)
    (hnew : ∀ j, j ≠ i → ∀ a ∈ l, a ∉ ls j) : Threaded ne' head' (update ls i l) where
  list j := by
    by_cases hj : j = i
    · subst hj
      rwa [update_self]
    rw [update_of_ne hj, hh j hj]
    exact (h.list j).congr (hne j hj)
  disjoint j k a hj hk := by
    by_cases hji : j = i <;> by_cases hki : k = i
    · rw [hji, hki]
    · rw [hji, update_self] at hj
      rw [update_of_ne hki] at hk
      exact absurd hk (hnew k hki a hj)
    · rw [hki, update_self] at hk
      rw [update_of_ne hji] at hj
      exact absurd hj (hnew j hji a hk)
    rw [update_of_ne hji] at hj
    rw [update_of_ne hki] at hk
    exact h.disjoint j k a hj hk
end Threaded
end Menios.Common.Threads
