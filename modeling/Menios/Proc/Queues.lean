import Menios.Proc.Scheduler

/-!
# The queues as lists

`Linked qs lists` says that the ready queues and the sleep queue are NULL-terminated
lists with the given members, no process on two of them, and that the tail of a ready
queue is its last process. One lemma for each queue operation says what it does to the
lists.
-/

namespace Menios.Proc
open Common Threads List Option Function

namespace Queues
variable {n : ℕ}
/-- The heads of all queues; `none` stands for the sleep queue. -/
def heads (qs : Queues n) : Option Priority → Option (Process n)
  | none => qs.sleepHead
  | some q => qs.readyHead q

/-- The members of the queues. -/
structure Linked (qs : Queues n) (lists : Option Priority → List (Process n)) : Prop where
  threaded : Threaded qs.next qs.heads lists
  tail : ∀ q, qs.readyTail q = (lists (some q)).getLast?

section
variable {qs : Queues n} {ls : Option Priority → List (Process n)} {p : Process n}
lemma Linked.length_le (h : Linked qs ls) (i : Option Priority) : (ls i).length ≤ walkLimit n := by
  have hl := (h.threaded.list i).length_le
  rw [Fintype.card_fin] at hl
  rw [walkLimit]
  omega

variable {l : List (Process n)}
lemma Linked.replace (h : Linked qs ls) {q' : Queues n} (i : Option Priority)
    (hl : IsList q'.next (q'.heads i) l) (hh : ∀ j, j ≠ i → q'.heads j = qs.heads j)
    (hne : ∀ j, j ≠ i → ∀ a ∈ ls j, q'.next a = qs.next a)
    (hnew : ∀ j, j ≠ i → ∀ a ∈ l, a ∉ ls j) (ht : ∀ q, some q = i → q'.readyTail q = l.getLast?)
    (ht' : ∀ q, some q ≠ i → q'.readyTail q = qs.readyTail q) : Linked q' (update ls i l) where
  threaded := h.threaded.replace i hl hh hne hnew
  tail q := by
    by_cases hq : some q = i
    · rw [ht q hq, hq, update_self]
    · rw [ht' q hq, h.tail, update_of_ne hq]

lemma Linked.not_mem (h : Linked qs ls) {i j : Option Priority} (hij : j ≠ i)
    (hp : p ∈ ls i) : p ∉ ls j :=
  fun hj => hij (h.threaded.disjoint j i p hj hp)

lemma Linked.getLast?_ne (h : Linked qs ls) {i j : Option Priority} (hij : j ≠ i)
    {l' : List (Process n)} (hl : ls i = l ++ l') {b : Process n} (hb : b ∈ ls j) :
    l.getLast? ≠ some b := by
  intro he
  have hmem : b ∈ ls i := by
    rw [hl]
    exact mem_append_left l' (List.mem_of_getLast? he)
  exact h.not_mem hij hmem hb

variable {l1 l2 : List (Process n)}
lemma erase_split (h : p ∉ l1) : (l1 ++ p :: l2).erase p = l1 ++ l2 := by
  rw [erase_append_right _ h, erase_cons_head]

lemma sleepRemove_of_not_mem (h : Linked qs ls) (hp : p ∉ ls none) :
    qs.sleepRemove p = some qs := by
  have hf : findPrev qs.next p (walkLimit n) none qs.sleepHead = some none :=
    findPrev_of_not_mem (h.threaded.list none) (h.length_le none) hp none
  rw [sleepRemove, hf]

lemma sleepRemove_spec (h : Linked qs ls) (p : Process n) : ∃ q', qs.sleepRemove p = some q' ∧
      Linked q' (update ls none ((ls none).erase p)) := by
  have hli := h.threaded.list none
  have hlen := h.length_le none
  by_cases hp : p ∈ ls none
  · obtain ⟨l1, l2, hl⟩ := append_of_mem hp
    rw [hl] at hli hlen
    have hp1 := hli.not_mem_split.1
    have hf : findPrev qs.next p (walkLimit n) none qs.sleepHead = some (some l1.getLast?) := by
      have := findPrev_of_mem hli hlen none
      rwa [or_none] at this
    have hu := hli.unlink
    rw [sleepRemove, hf, hl, erase_split hp1]
    refine ⟨_, rfl, h.replace none ?_ (fun j hj => ?_) (fun j hj a ha => ?_) (fun j hj a ha => ?_)
      (fun q hq => absurd hq (by simp)) fun _ _ => rfl⟩
    · simp only [heads, List.getLast?_eq_none_iff]
      exact hu
    · cases j with
      | none => exact absurd rfl hj
      | some q => rfl
    · refine unlinkNext_of_ne (fun he => ?_) (h.getLast?_ne hj hl ha)
      exact h.not_mem hj hp (he ▸ ha)
    · refine h.not_mem hj ?_
      rw [hl]
      rcases mem_append.1 ha with ha | ha
      · exact mem_append_left _ ha
      · exact mem_append_right _ (mem_cons_of_mem p ha)
  rw [sleepRemove_of_not_mem h hp, erase_of_not_mem hp, update_eq_self]
  exact ⟨qs, rfl, h⟩

lemma readyRemoveFrom_of_not_mem (h : Linked qs ls) (qu : List Priority)
    (hp : ∀ q ∈ qu, p ∉ ls (some q)) : qs.readyRemoveFrom p qu = some qs := by
  induction qu with
  | nil => rfl
  | cons q qu ih =>
    have hf : findPrev qs.next p (walkLimit n) none (qs.readyHead q) = some none :=
      findPrev_of_not_mem (h.threaded.list (some q)) (h.length_le _) (hp q (by simp)) none
    rw [readyRemoveFrom, hf]
    exact ih fun q' hq' => hp q' (mem_cons_of_mem q hq')

variable {q : Priority}
section
variable (h : Linked qs ls)
include h
/-- The process is taken out of queue `q`. -/
lemma unlinkReady (hl : ls (some q) = l1 ++ p :: l2) : Linked { qs with
        next := unlinkNext qs.next l1.getLast? p
        readyHead := if l1.getLast? = none then update qs.readyHead q (qs.next p) else qs.readyHead
        readyTail := if qs.readyTail q = some p then update qs.readyTail q l1.getLast?
          else qs.readyTail } (update ls (some q) (l1 ++ l2)) := by
  have hli := h.threaded.list (some q)
  rw [hl] at hli
  obtain ⟨hp1, hp2⟩ := hli.not_mem_split
  have hp : p ∈ ls (some q) := by
    rw [hl]
    simp
  have ht : qs.readyTail q = some p ↔ l2 = [] := by
    rw [h.tail q, hl]
    rcases eq_nil_or_concat' l2 with rfl | ⟨l2, b, rfl⟩
    · simp
    have hb : b ≠ p := fun he => hp2 (by simp [he])
    have hla : (l1 ++ p :: (l2 ++ [b])).getLast? = some b := by
      rw [← cons_append, ← append_assoc, List.getLast?_concat]
    rw [hla]
    simp [hb]
  refine h.replace (some q) ?_ (fun j hj => ?_) (fun j hj a ha => ?_) (fun j hj a ha => ?_)
    (fun q' hq' => ?_) fun q' hq' => ?_
  · have hu := hli.unlink
    by_cases hnil : l1 = []
    · subst hnil
      simpa [heads] using hu
    · have hno : l1.getLast? ≠ none := by simpa using hnil
      simp only [heads, if_neg hno]
      rwa [if_neg hnil] at hu
  · cases j with
    | none => rfl
    | some q' =>
      have hne : q' ≠ q := fun he => hj (by rw [he])
      simp only [heads]
      split_ifs
      · exact update_of_ne hne _ _
      · rfl
  · refine unlinkNext_of_ne (fun he => ?_) (h.getLast?_ne hj hl ha)
    exact h.not_mem hj hp (he ▸ ha)
  · refine h.not_mem hj ?_
    rw [hl]
    rcases mem_append.1 ha with ha | ha
    · exact mem_append_left _ ha
    · exact mem_append_right _ (mem_cons_of_mem p ha)
  · obtain rfl : q' = q := some.inj hq'
    by_cases hnil : l2 = []
    · simp [ht.2 hnil, hnil]
    · rw [if_neg fun he => hnil (ht.1 he), h.tail q', hl]
      obtain ⟨l2, b, rfl⟩ := (eq_nil_or_concat' l2).resolve_left hnil
      rw [← cons_append, ← append_assoc, List.getLast?_concat, ← append_assoc, List.getLast?_concat]
  have hne : q' ≠ q := fun he => hq' (by rw [he])
  simp only []
  split_ifs
  · exact update_of_ne hne _ _
  · rfl

lemma readyRemoveFrom_of_mem (qu : List Priority) (hq : q ∈ qu)
    (hp : p ∈ ls (some q)) : ∃ qs', qs.readyRemoveFrom p qu = some qs' ∧
      Linked qs' (update ls (some q) ((ls (some q)).erase p)) := by
  induction qu with
  | nil => cases hq
  | cons q' qu ih =>
    rw [readyRemoveFrom]
    by_cases heq : q = q'
    · subst heq
      obtain ⟨l1, l2, hl⟩ := append_of_mem hp
      have hli := h.threaded.list (some q)
      have hlen := h.length_le (some q)
      rw [hl] at hli hlen
      have hf : findPrev qs.next p (walkLimit n) none (qs.readyHead q) =
          some (some l1.getLast?) := by
        have := findPrev_of_mem hli hlen none
        rwa [or_none] at this
      rw [hf, hl, erase_split hli.not_mem_split.1]
      exact ⟨_, rfl, unlinkReady h hl⟩
    have hnot : p ∉ ls (some q') := h.not_mem (fun he => heq (some.inj he).symm) hp
    have hf : findPrev qs.next p (walkLimit n) none (qs.readyHead q') = some none :=
      findPrev_of_not_mem (h.threaded.list (some q')) (h.length_le _) hnot none
    rw [hf]
    exact ih ((mem_cons.1 hq).resolve_left heq)

omit h in
lemma mem_allQueues (q : Priority) : q ∈ [(0 : Priority), 1, 2, 3, 4] := by fin_cases q <;> simp

lemma readyRemove_of_mem (hp : p ∈ ls (some q)) : ∃ q', qs.readyRemove p = some q' ∧
      Linked q' (update ls (some q) ((ls (some q)).erase p)) :=
  readyRemoveFrom_of_mem h _ (mem_allQueues q) hp

lemma readyRemove_of_not_mem (hp : ∀ q, p ∉ ls (some q)) : qs.readyRemove p = some qs :=
  readyRemoveFrom_of_not_mem h _ fun q _ => hp q

lemma push_spec (q : Priority) (hp : ∀ i, p ∉ ls i) :
    Linked (qs.push q p) (update ls (some q) (ls (some q) ++ [p])) := by
  have hpu := (h.threaded.list (some q)).push (hp (some q))
  rw [← h.tail q] at hpu
  have hnil : qs.readyTail q = none ↔ ls (some q) = [] := by
    rw [h.tail q, List.getLast?_eq_none_iff]
  refine h.replace (some q) ?_ (fun j hj => ?_) (fun j hj a ha => ?_) (fun j hj a ha => ?_)
    (fun q' hq' => ?_) fun q' hq' => ?_
  · simp only [push, heads, hnil]
    split_ifs with he
    · rw [if_pos he] at hpu
      rwa [update_self]
    · rwa [if_neg he] at hpu
  · cases j with
    | none => rfl
    | some q' =>
      have hne : q' ≠ q := fun heq => hj (by rw [heq])
      simp only [push, heads]
      split_ifs
      · exact update_of_ne hne _ _
      · rfl
  · refine pushNext_of_ne (fun heq => hp j (heq ▸ ha)) ?_
    rw [h.tail q]
    exact h.getLast?_ne hj (append_nil _).symm ha
  · rcases mem_append.1 ha with ha | ha
    · exact h.not_mem hj ha
    · rw [mem_singleton.1 ha]
      exact hp j
  · obtain rfl : q' = q := some.inj hq'
    simp [push]
  have hne : q' ≠ q := fun heq => hq' (by rw [heq])
  exact update_of_ne hne _ _
end

lemma sleepPlace_spec (s : Process n → UInt64) (d : UInt64) {hd : Option (Process n)}
    {node : Process n} (hl : IsList qs.next hd (l1 ++ node :: l2)) {f : ℕ}
    (hf : l2.length < f) : ∃ l1' l2' n', l1' ++ n' :: l2' = l1 ++ node :: l2 ∧
      qs.sleepPlace s d f node = some n' := by
  induction l2 generalizing l1 node f with
  | nil =>
    obtain ⟨f, rfl⟩ : ∃ k, f = k + 1 := ⟨f - 1, by omega⟩
    have hne : qs.next node = none := hl.suffix.2
    exact ⟨l1, [], node, rfl, by rw [sleepPlace, hne]⟩
  | cons b l2 ih =>
    obtain ⟨f, rfl⟩ : ∃ k, f = k + 1 := ⟨f - 1, by omega⟩
    have hne : qs.next node = some b := hl.suffix.2.1
    simp only [sleepPlace, hne]
    split_ifs
    · have hsp : l1 ++ node :: b :: l2 = (l1 ++ [node]) ++ b :: l2 := by simp
      rw [hsp] at hl ⊢
      exact ih hl (by simp at hf; omega)
    · exact ⟨l1, b :: l2, node, rfl, rfl⟩

variable (h : Linked qs ls)
include h
/-- The process is put behind the nodes `l1` of the sleep queue. -/
lemma insertSleeper (hp : ∀ i, p ∉ ls i) (hl : ls none = l1 ++ l2) : Linked { qs with
        next := insertNext qs.next qs.sleepHead l1.getLast? p
        sleepHead := if l1 = [] then some p else qs.sleepHead }
      (update ls none (l1 ++ p :: l2)) := by
  have hli := h.threaded.list none
  rw [hl] at hli
  have hp' : p ∉ l1 ++ l2 := hl ▸ hp none
  refine h.replace none (hli.insert hp') (fun j hj => ?_) (fun j hj a ha => ?_)
    (fun j hj a ha => ?_) (fun q hq => absurd hq (by simp)) fun _ _ => rfl
  · cases j with
    | none => exact absurd rfl hj
    | some q => rfl
  · exact insertNext_of_ne (fun he => hp j (he ▸ ha)) (h.getLast?_ne hj hl ha)
  rcases mem_append.1 ha with ha | ha
  · exact h.not_mem hj (hl ▸ mem_append_left l2 ha)
  rcases mem_cons.1 ha with rfl | ha
  · exact hp j
  · exact h.not_mem hj (hl ▸ mem_append_right l1 ha)

lemma sleepInsert_spec (s : Process n → UInt64) (hp : ∀ i, p ∉ ls i) :
    ∃ q' l1 l2, qs.sleepInsert s p = some q' ∧ ls none = l1 ++ l2 ∧
      Linked q' (update ls none (l1 ++ p :: l2)) := by
  have hli : IsList qs.next qs.sleepHead (ls none) := h.threaded.list none
  rw [sleepInsert]
  cases hh : qs.sleepHead with
  | none =>
    have hf := insertSleeper h hp (nil_append (ls none)).symm
    simp only [hh, List.getLast?_nil, if_true] at hf
    exact ⟨_, [], ls none, rfl, rfl, hf⟩
  | some head =>
    simp only []
    split_ifs
    · have hf := insertSleeper h hp (nil_append (ls none)).symm
      simp only [hh, List.getLast?_nil, if_true] at hf
      exact ⟨_, [], ls none, rfl, rfl, hf⟩
    obtain ⟨r, hr⟩ : ∃ r, ls none = [] ++ head :: r := by
      cases hl : ls none with
      | nil =>
        rw [hl, hh] at hli
        exact absurd (show some head = none from hli) (by simp)
      | cons b r =>
        rw [hl, hh] at hli
        obtain rfl : head = b := some.inj hli.1
        exact ⟨r, rfl⟩
    have hlen := h.length_le none
    rw [hr] at hli hlen
    obtain ⟨l1, l2, node, hsp, hpl⟩ := sleepPlace_spec s (s p) hli
      (show r.length < walkLimit n by simp at hlen; omega)
    have hl : ls none = (l1 ++ [node]) ++ l2 := by
      rw [hr, ← hsp]
      simp
    have hb := insertSleeper h hp hl
    rw [if_neg (by simp), List.getLast?_concat] at hb
    rw [hpl]
    refine ⟨_, l1 ++ [node], l2, rfl, hl, ?_⟩
    rw [← hh]
    exact hb

lemma popSleeper_spec (hl : ls none = p :: l) : Linked (qs.popSleeper p) (update ls none l) := by
  have hli := h.threaded.list none
  rw [hl] at hli
  have hp : p ∈ ls none := by simp [hl]
  refine h.replace none ?_ (fun j hj => ?_) (fun j hj a ha => ?_) (fun j hj a ha => ?_)
    (fun q hq => absurd hq (by simp)) fun _ _ => rfl
  · exact IsList.unlink (show IsList qs.next qs.sleepHead ([] ++ p :: l) from hli)
  · cases j with
    | none => exact absurd rfl hj
    | some q => rfl
  · exact update_of_ne (ne_of_mem_of_not_mem ha (h.not_mem hj hp)) _ _
  · exact h.not_mem hj (hl ▸ mem_cons_of_mem p ha)

lemma popReady_spec (hl : ls (some q) = p :: l) :
    Linked (qs.popReady q p) (update ls (some q) l) := by
  have hli := h.threaded.list (some q)
  rw [hl] at hli
  have hr : IsList qs.next (qs.next p) l := hli.2
  -- the last process has no successor
  have hla : qs.next p = none ↔ qs.readyTail q = some p := by
    rw [h.tail q, hl]
    cases l with
    | nil => exact ⟨fun _ => rfl, fun _ => hr⟩
    | cons b l =>
      refine ⟨fun hno => absurd (hr.1.symm.trans hno) (by simp), fun ht => ?_⟩
      rw [List.getLast?_cons_cons] at ht
      exact absurd (List.mem_of_getLast? ht) (nodup_cons.1 hli.nodup).1
  have hu := unlinkReady h (show ls (some q) = [] ++ p :: l from hl)
  simp only [List.getLast?_nil, if_true, ← hla] at hu
  exact hu
end
end Queues
end Menios.Proc
