import Menios.Libc.Buddy

/-!
# The blocks of one arena

Ghost state: the tiling of the arena, and the offsets of the blocks that an operation has in hand
(`hand`): taken off their free lists, or not yet put on one. `Kept` says that the headers and the
free lists of the arena fit the tiling, for all other blocks. `Ordered` says the same of the lists
of arenas. Headers that are no block's are not spoken of: the tiling shows that the code does not
read them.

Results:

* `Work.push`, `Work.remove`: a block goes to its free list, or into the hand.
* `splitLoop_spec`, `coalesceLoop_spec`: the loops end and keep the invariant.
* `Work.release`: a block that is given back.
-/

namespace Menios.Libc.Buddy
open Common List Set Function Option

lemma buddyOffset_eq : buddyOffset = 4096 := by decide

lemma mappingSize_eq : mappingSize = buddyOffset + arenaSize := by decide

/-- The address of a block. -/
def blockAt (a o : ℕ) : ℕ := a + buddyOffset + o

lemma blockAt_inj {a o o' : ℕ} : blockAt a o = blockAt a o' ↔ o = o' := by
  unfold blockAt
  omega

/-- The address lies among the blocks of the arena. -/
def InArena (a p : ℕ) : Prop := a + buddyOffset ≤ p ∧ p < a + buddyOffset + arenaSize

lemma inArena_blockAt {a o k : ℕ} {T : Tiling arenaSize} (h : T.order o = some k) :
    InArena a (blockAt a o) := by
  have := T.inside h
  have := Nat.two_pow_pos k
  unfold InArena blockAt
  omega

/-! ## Invariant -/

/-- The header is that of a block of order `k` at the offset `o`. -/
structure BlockHeader.Describes (b : BlockHeader) (a o k : ℕ) : Prop where
  arena : b.arena = some a
  order : b.buddyOrder = k
  offset : b.buddyOffset = o
  size : b.size = 2 ^ k - headerBytes
  direct : b.flagDirect = false

namespace Heap
/-- The block at `p` is one of the free blocks of the order with index `i`. -/
def Listed (h : Heap) (a : ℕ) (T : Tiling arenaSize) (hand : Set ℕ) (i p : ℕ) : Prop :=
  ∃ o, p = blockAt a o ∧ T.order o = some (i + buddyMinOrder) ∧ o ∉ hand ∧
    (h.blocks p).buddyFree = true

/-- The free list with index `i` has the nodes `l`. -/
structure FreeList (h : Heap) (a : ℕ) (T : Tiling arenaSize) (hand : Set ℕ) (i : ℕ) (l : List ℕ) :
    Prop where
  threads : h.links.Threads none ((h.arenas a).freelists i) l
  nodup : l.Nodup
  mem : ∀ p, p ∈ l ↔ h.Listed a T hand i p

/-- The memory of an arena fits the tiling, but for the blocks in hand. -/
structure Kept (h : Heap) (a : ℕ) (T : Tiling arenaSize) (hand : Set ℕ) : Prop where
  base : (h.arenas a).buddyBase = a + buddyOffset
  size : (h.arenas a).buddySize = arenaSize
  valid : ∀ {o k}, T.order o = some k → BuddyOrderValid k
  header : ∀ {o k}, T.order o = some k → o ∉ hand →
    (h.blocks (blockAt a o)).Describes a o k ∧
      (h.blocks (blockAt a o)).buddyUsed = !(h.blocks (blockAt a o)).buddyFree
  lists : ∀ i, ∃ l, h.FreeList a T hand i l
  coalesced : ∀ {o k}, T.order o = some k → T.order (o ^^^ 2 ^ k) = some k → o ∉ hand →
    o ^^^ 2 ^ k ∉ hand → (h.blocks (blockAt a o)).buddyFree = true →
      (h.blocks (blockAt a (o ^^^ 2 ^ k))).buddyFree = false

/-- The list of an order has the arenas with a free block of the order. -/
def Ordered (h : Heap) : Prop :=
  ∀ i, ∃ l, (h.orderLinks i).Threads none (h.orderHeads i) l ∧ l.Nodup ∧
    ∀ b, b ∈ l ↔ b ∈ h.arenaList ∧ (h.arenas b).freelists i ≠ none

/-- The block at `o` is in use. -/
def Used (h : Heap) (a : ℕ) (T : Tiling arenaSize) (hand : Set ℕ) (o : ℕ) : Prop :=
  ∃ k, T.order o = some k ∧ o ∉ hand ∧ (h.blocks (blockAt a o)).buddyFree = false

/-- Only the blocks and the free lists of `a` changed. -/
structure Frame (h h' : Heap) (a : ℕ) : Prop where
  blocks : ∀ p, ¬ InArena a p → h'.blocks p = h.blocks p
  links : ∀ p, ¬ InArena a p →
    h'.links.next p = h.links.next p ∧ h'.links.prev p = h.links.prev p
  arenas : ∀ b, b ≠ a → h'.arenas b = h.arenas b
  arenaList : h'.arenaList = h.arenaList
  maps : h'.maps = h.maps

lemma Frame.refl (h : Heap) (a : ℕ) : Frame h h a :=
  ⟨fun _ _ => rfl, fun _ _ => ⟨rfl, rfl⟩, fun _ _ => rfl, rfl, rfl⟩

lemma Frame.trans {h h' h'' : Heap} {a : ℕ} (h1 : Frame h h' a) (h2 : Frame h' h'' a) :
    Frame h h'' a where
  blocks p hp := (h2.blocks p hp).trans (h1.blocks p hp)
  links p hp := ⟨(h2.links p hp).1.trans (h1.links p hp).1, (h2.links p hp).2.trans (h1.links p hp).2⟩
  arenas b hb := (h2.arenas b hb).trans (h1.arenas b hb)
  arenaList := h2.arenaList.trans h1.arenaList
  maps := h2.maps.trans h1.maps

section
variable {h₀ h h' : Heap} {a o k : ℕ} {T T' : Tiling arenaSize} {hand hand' : Set ℕ}
lemma setBlock_self (h : Heap) (p : ℕ) (f : BlockHeader → BlockHeader) :
    (h.setBlock p f).blocks p = f (h.blocks p) := update_self ..

lemma resetBlock_self (h : Heap) (p : ℕ) (f : BlockHeader → BlockHeader) :
    (h.resetBlock p f).blocks p = f (h.blocks p) := update_self ..

/-- Another memory, tiling and hand: the blocks outside the hand stay, but for blocks in use that
are taken in hand or come from it. -/
lemma Kept.transport (hk : h.Kept a T hand) (ha : h'.arenas a = h.arenas a)
    (hsa : ∀ o k, T.order o = some k → o ∉ hand → h'.blocks (blockAt a o) = h.blocks (blockAt a o) ∧
        h'.links.next (blockAt a o) = h.links.next (blockAt a o) ∧
        h'.links.prev (blockAt a o) = h.links.prev (blockAt a o))
    (hv : ∀ o k, T'.order o = some k → BuddyOrderValid k)
    (hba : ∀ o k, T'.order o = some k → o ∉ hand' → (T.order o = some k ∧ o ∉ hand) ∨
      (h'.blocks (blockAt a o)).Describes a o k ∧ (h'.blocks (blockAt a o)).buddyFree = false ∧
        (h'.blocks (blockAt a o)).buddyUsed = true)
    (hfo : ∀ o k, T.order o = some k → o ∉ hand → (h.blocks (blockAt a o)).buddyFree = true →
      T'.order o = some k ∧ o ∉ hand') : h'.Kept a T' hand' := by
  refine ⟨by rw [ha, hk.base], by rw [ha, hk.size], fun {o k} => hv o k,
    fun {o k} ho hno => ?_, fun i => ?_, fun {o k} ho hb hno hnb hf => ?_⟩
  · rcases hba o k ho hno with ⟨ho, hno⟩ | ⟨hd, hf, hu⟩
    · rw [(hsa o k ho hno).1]
      exact hk.header ho hno
    · exact ⟨hd, by rw [hf, hu]; rfl⟩
  · obtain ⟨l, hl⟩ := hk.lists i
    refine ⟨l, ?_, hl.nodup, fun p => ?_⟩
    · rw [ha]
      refine hl.threads.congr fun p hp => ?_
      obtain ⟨o, rfl, ho, hno, -⟩ := (hl.mem p).1 hp
      exact (hsa o _ ho hno).2
    · rw [hl.mem]
      constructor
      · rintro ⟨o, rfl, ho, hno, hf⟩
        obtain ⟨ho', hn'⟩ := hfo o _ ho hno hf
        exact ⟨o, rfl, ho', hn', by rw [(hsa o _ ho hno).1, hf]⟩
      · rintro ⟨o, rfl, ho, hno, hf⟩
        rcases hba o _ ho hno with ⟨ho, hno⟩ | ⟨-, hu, -⟩
        · exact ⟨o, rfl, ho, hno, by rw [← (hsa o _ ho hno).1, hf]⟩
        · rw [hu] at hf
          cases hf
  rcases hba _ k hb hnb with ⟨hb, hnb⟩ | ⟨-, hu, -⟩
  · rcases hba o k ho hno with ⟨ho, hno⟩ | ⟨-, hu, -⟩
    · rw [(hsa _ _ ho hno).1] at hf
      rw [(hsa _ _ hb hnb).1]
      exact hk.coalesced ho hb hno hnb hf
    · rw [hu] at hf
      cases hf
  · exact hu

lemma Kept.congr (hk : h.Kept a T hand) (ha : h'.arenas a = h.arenas a)
    (hsa : ∀ o k, T.order o = some k → o ∉ hand → h'.blocks (blockAt a o) = h.blocks (blockAt a o) ∧
        h'.links.next (blockAt a o) = h.links.next (blockAt a o) ∧
        h'.links.prev (blockAt a o) = h.links.prev (blockAt a o)) : h'.Kept a T hand :=
  hk.transport ha hsa (fun _ _ => hk.valid) (fun _ _ ho hno => .inl ⟨ho, hno⟩)
    fun _ _ ho hno _ => ⟨ho, hno⟩

lemma index_add_min (hk : BuddyOrderValid k) : buddyOrderIndex k + buddyMinOrder = k :=
  Nat.sub_add_cancel hk.1

/-! ## A block goes on its free list, or off it -/

/-- The block at `o` is put on its free list (`free`) or taken off it. The list, with index `i`,
has the nodes `l` before; after it has the nodes `l'` and begins with `head`. -/
structure Relisted (h h' : Heap) (a o i : ℕ) (free : Bool) (head : Option ℕ) (l l' : List ℕ) :
    Prop where
  blocks : h'.blocks = update h.blocks (blockAt a o)
    { h.blocks (blockAt a o) with buddyUsed := !free, buddyFree := free }
  arenas : h'.arenas = update h.arenas a
    { h.arenas a with freelists := update (h.arenas a).freelists i head }
  threads : h'.links.Threads none head l'
  nodup : l'.Nodup
  mem : ∀ p, p ∈ l' ↔ (p = blockAt a o ∧ free = true) ∨ (p ≠ blockAt a o ∧ p ∈ l)
  links : ∀ p, p ≠ blockAt a o → p ∉ l →
    h'.links.next p = h.links.next p ∧ h'.links.prev p = h.links.prev p
  arenaList : h'.arenaList = h.arenaList
  maps : h'.maps = h.maps

section
variable {i : ℕ} {f : Bool} {head : Option ℕ} {l l' : List ℕ}
lemma relisted_push (hv : BuddyOrderValid (h.blocks (blockAt a o)).buddyOrder)
    (hi : buddyOrderIndex (h.blocks (blockAt a o)).buddyOrder = i)
    (hl : h.FreeList a T hand i l) (hnew : blockAt a o ∉ l) :
    Relisted h (h.buddyFreelistPush a (blockAt a o)) a o i true (some (blockAt a o)) l
      (blockAt a o :: l) := by
  have ht := hl.threads.pushFront hl.nodup hnew
  have hmem : ∀ p, p ∈ blockAt a o :: l ↔
      (p = blockAt a o ∧ true = true) ∨ (p ≠ blockAt a o ∧ p ∈ l) := by
    intro p
    by_cases hp : p = blockAt a o
    · simp [hp]
    · simp [hp]
  have hout : ∀ {p}, p ≠ blockAt a o → p ∉ l → p ∉ blockAt a o :: l := fun hne hp => by
    simp [hne, hp]
  unfold buddyFreelistPush
  rw [if_pos hv, hi]
  dsimp only
  split_ifs <;>
    exact ⟨rfl, rfl, ht, nodup_cons.2 ⟨hnew, hl.nodup⟩, hmem,
      fun _ hne hp => Links.pushFront_of_not_mem hl.threads (hout hne hp), rfl, rfl⟩

lemma relisted_remove (hv : BuddyOrderValid (h.blocks (blockAt a o)).buddyOrder ∧
      (h.blocks (blockAt a o)).buddyFree = true)
    (hi : buddyOrderIndex (h.blocks (blockAt a o)).buddyOrder = i)
    (hl : h.FreeList a T hand i l) (hin : blockAt a o ∈ l) :
    Relisted h (h.buddyFreelistRemove a (blockAt a o)) a o i false
      (h.links.remove ((h.arenas a).freelists i) (blockAt a o)).1 l (l.erase (blockAt a o)) := by
  have ht := hl.threads.remove hl.nodup hin
  have hmem : ∀ p, p ∈ l.erase (blockAt a o) ↔
      (p = blockAt a o ∧ false = true) ∨ (p ≠ blockAt a o ∧ p ∈ l) := by
    intro p
    rw [hl.nodup.mem_erase_iff]
    simp
  unfold buddyFreelistRemove
  rw [if_pos hv, hi]
  dsimp only
  split_ifs <;>
    exact ⟨rfl, rfl, ht, hl.nodup.erase _, hmem,
      fun _ _ hp => Links.remove_of_not_mem hl.threads hin hp, rfl, rfl⟩

lemma Kept.mem_list (hk : h.Kept a T hand) (ho : T.order o = some k) (hno : o ∉ hand)
    (hf : (h.blocks (blockAt a o)).buddyFree = true) :
    ∃ l, h.FreeList a T hand (buddyOrderIndex k) l ∧ blockAt a o ∈ l := by
  obtain ⟨l, hl⟩ := hk.lists (buddyOrderIndex k)
  exact ⟨l, hl, (hl.mem _).2 ⟨o, rfl, by rw [index_add_min (hk.valid ho), ho], hno, hf⟩⟩

/-! ### The lists of arenas -/

/-- The list of the order with index `i` gains or loses the arena as its free list gets its first
block or loses the last one. -/
lemma Ordered.relist (hord : h.Ordered) (ha : a ∈ h.arenaList)
    (hr : Relisted h h' a o i f head l l')
    (hot : ∀ j, j ≠ i → h'.orderLinks j = h.orderLinks j ∧ h'.orderHeads j = h.orderHeads j)
    (hsa : ∀ lo, (h.orderLinks i).Threads none (h.orderHeads i) lo → lo.Nodup →
      (a ∈ lo ↔ (h.arenas a).freelists i ≠ none) →
      ∃ lo', (h'.orderLinks i).Threads none (h'.orderHeads i) lo' ∧ lo'.Nodup ∧
        ∀ b, b ∈ lo' ↔ if b = a then head ≠ none else b ∈ lo) : h'.Ordered := by
  intro j
  obtain ⟨lo, ht, hnd, hmem⟩ := hord j
  rw [hr.arenaList, hr.arenas]
  by_cases hj : j = i
  · subst hj
    obtain ⟨lo', ht', hn', hm'⟩ := hsa lo ht hnd ((hmem a).trans (and_iff_right ha))
    refine ⟨lo', ht', hn', fun b => ?_⟩
    rw [hm']
    by_cases hb : b = a
    · simp [hb, ha]
    · simp [hb, hmem]
  rw [(hot j hj).1, (hot j hj).2]
  refine ⟨lo, ht, hnd, fun b => ?_⟩
  rw [hmem]
  by_cases hb : b = a
  · simp [hb, hj]
  · simp [hb]

theorem Ordered.push (hord : h.Ordered) (ha : a ∈ h.arenaList)
    (hv : BuddyOrderValid (h.blocks (blockAt a o)).buddyOrder)
    (hi : buddyOrderIndex (h.blocks (blockAt a o)).buddyOrder = i)
    (hr : Relisted h (h.buddyFreelistPush a (blockAt a o)) a o i f (some (blockAt a o)) l l') :
    (h.buddyFreelistPush a (blockAt a o)).Ordered := by
  refine hord.relist ha hr (fun j hj => ?_) fun lo ht hnd hmem => ?_
  · unfold buddyFreelistPush
    rw [if_pos hv, hi]
    dsimp only
    split_ifs
    · exact ⟨update_of_ne hj _ _, update_of_ne hj _ _⟩
    · exact ⟨rfl, rfl⟩
  unfold buddyFreelistPush
  rw [if_pos hv, hi]
  dsimp only
  split_ifs with hh
  · have hnew : a ∉ lo := fun h => hmem.1 h hh
    refine ⟨a :: lo, ?_, nodup_cons.2 ⟨hnew, hnd⟩, fun b => ?_⟩
    · dsimp only [buddyOrderListInsert, setFreelist, setBlock]
      rw [update_self, update_self]
      exact ht.pushFront hnd hnew
    · by_cases hb : b = a
      · simp [hb]
      · simp [hb]
  refine ⟨lo, ht, hnd, fun b => ?_⟩
  by_cases hb : b = a
  · simp [hb, hmem, hh]
  · simp [hb]

theorem Ordered.remove (hord : h.Ordered) (ha : a ∈ h.arenaList)
    (hv : BuddyOrderValid (h.blocks (blockAt a o)).buddyOrder ∧
      (h.blocks (blockAt a o)).buddyFree = true)
    (hi : buddyOrderIndex (h.blocks (blockAt a o)).buddyOrder = i)
    (hr : Relisted h (h.buddyFreelistRemove a (blockAt a o)) a o i f
      (h.links.remove ((h.arenas a).freelists i) (blockAt a o)).1 l l')
    (hh : (h.arenas a).freelists i ≠ none) : (h.buddyFreelistRemove a (blockAt a o)).Ordered := by
  refine hord.relist ha hr (fun j hj => ?_) fun lo ht hnd hmem => ?_
  · unfold buddyFreelistRemove
    rw [if_pos hv, hi]
    dsimp only
    split_ifs
    · exact ⟨update_of_ne hj _ _, update_of_ne hj _ _⟩
    · exact ⟨rfl, rfl⟩
  unfold buddyFreelistRemove
  rw [if_pos hv, hi]
  dsimp only
  split_ifs with he
  · refine ⟨lo.erase a, ?_, hnd.erase a, fun b => ?_⟩
    · dsimp only [buddyOrderListRemove, setFreelist, setBlock]
      rw [update_self, update_self]
      exact ht.remove hnd (hmem.2 hh)
    · rw [hnd.mem_erase_iff]
      by_cases hb : b = a
      · simp [hb, he]
      · simp [hb]
  refine ⟨lo, ht, hnd, fun b => ?_⟩
  by_cases hb : b = a
  · simp [hb, hmem, he, hh]
  · simp [hb]

/-! ### The free lists of the arena -/

lemma Relisted.listed (hr : Relisted h h' a o i f head l l')
    (ho : T.order o = some (i + buddyMinOrder)) (hhand : ∀ x, x ≠ o → (x ∈ hand' ↔ x ∈ hand))
    (hse : o ∈ hand' ↔ f = false) (j p : ℕ) :
    h'.Listed a T hand' j p ↔ (p = blockAt a o ∧ j = i ∧ f = true) ∨
      (p ≠ blockAt a o ∧ h.Listed a T hand j p) := by
  unfold Listed
  rw [hr.blocks]
  constructor
  · rintro ⟨x, rfl, hx, hno, hf⟩
    by_cases hxo : x = o
    · subst hxo
      rw [update_self] at hf
      rw [ho] at hx
      exact .inl ⟨rfl, by have := some.inj hx; omega, hf⟩
    · have hne := (blockAt_inj (a := a)).not.2 hxo
      rw [update_of_ne hne] at hf
      exact .inr ⟨hne, x, rfl, hx, (hhand x hxo).not.1 hno, hf⟩
  rintro (⟨rfl, rfl, hf⟩ | ⟨hne, x, rfl, hx, hno, hf⟩)
  · exact ⟨o, rfl, ho, by simp [hse, hf], by rw [update_self, hf]⟩
  have hxo := blockAt_inj.not.1 hne
  exact ⟨x, rfl, hx, (hhand x hxo).not.2 hno, by rw [update_of_ne hne, hf]⟩

lemma Kept.relist (hk : h.Kept a T hand) (ho : T.order o = some k)
    (hd : (h.blocks (blockAt a o)).Describes a o k) (hl : h.FreeList a T hand (buddyOrderIndex k) l)
    (hr : Relisted h h' a o (buddyOrderIndex k) f head l l')
    (hhand : ∀ x, x ≠ o → (x ∈ hand' ↔ x ∈ hand)) (hse : o ∈ hand' ↔ f = false)
    (hbu : f = true → T.order (o ^^^ 2 ^ k) = some k → o ^^^ 2 ^ k ∉ hand →
      (h.blocks (blockAt a (o ^^^ 2 ^ k))).buddyFree = false) : h'.Kept a T hand' := by
  have hin := index_add_min (hk.valid ho)
  have hli := hr.listed (by rw [hin, ho]) hhand hse
  have hfr : o ∉ hand' → f = true := fun hno => by simpa using hse.not.1 hno
  have hot : ∀ {x}, x ≠ o → h'.blocks (blockAt a x) = h.blocks (blockAt a x) :=
    fun hne => by rw [hr.blocks, update_of_ne (blockAt_inj.not.2 hne)]
  refine ⟨?_, ?_, hk.valid, fun {x j} hx hno => ?_, fun i => ?_, fun {x j} hx hb hno hnb hf => ?_⟩
  · rw [hr.arenas, update_self]
    exact hk.base
  · rw [hr.arenas, update_self]
    exact hk.size
  · by_cases hxo : x = o
    · subst hxo
      rw [ho] at hx
      cases hx
      rw [hr.blocks, update_self]
      exact ⟨{ hd with }, rfl⟩
    · rw [hot hxo]
      exact hk.header hx ((hhand x hxo).not.1 hno)
  · have hh : (h'.arenas a).freelists i =
        update (h.arenas a).freelists (buddyOrderIndex k) head i := by rw [hr.arenas, update_self]
    by_cases hi : i = buddyOrderIndex k
    · subst hi
      rw [update_self] at hh
      refine ⟨l', hh.symm ▸ hr.threads, hr.nodup, fun p => ?_⟩
      rw [hli, hr.mem, hl.mem]
      simp
    · rw [update_of_ne hi] at hh
      obtain ⟨l1, hl1⟩ := hk.lists i
      -- a block is on one list only
      have ha : ∀ p ∈ l1, p ≠ blockAt a o ∧ p ∉ l := by
        intro p hp
        obtain ⟨x, rfl, hx, -⟩ := (hl1.mem p).1 hp
        refine ⟨fun he => ?_, fun hmem => ?_⟩
        · rw [blockAt_inj.1 he, ho] at hx
          exact hi (by have := some.inj hx; omega)
        · obtain ⟨y, hy, hyo, -⟩ := (hl.mem _).1 hmem
          rw [blockAt_inj.1 hy, hyo] at hx
          exact hi (by have := some.inj hx; omega)
      refine ⟨l1, ?_, hl1.nodup, fun p => ?_⟩
      · rw [hh]
        exact hl1.threads.congr fun p hp => hr.links p (ha p hp).1 (ha p hp).2
      · rw [hli, ← hl1.mem]
        simpa [hi] using fun hp => (ha p hp).1
  by_cases hxo : x = o
  · subst hxo
    rw [ho] at hx
    cases hx
    have hne := buddy_ne (T.aligned ho)
    rw [hot hne]
    exact hbu (hfr hno) hb ((hhand _ hne).not.1 hnb)
  by_cases hbo : x ^^^ 2 ^ j = o
  · -- the block is the buddy of `x`, which is not free
    rw [hbo] at hb hnb
    rw [ho] at hb
    cases hb
    have hba : o ^^^ 2 ^ k = x := by rw [← hbo, buddy_buddy]
    rw [hba] at hbu
    rw [hot hxo, hbu (hfr hnb) hx ((hhand x hxo).not.1 hno)] at hf
    cases hf
  rw [hot hxo] at hf
  rw [hot hbo]
  exact hk.coalesced hx hb ((hhand x hxo).not.1 hno) ((hhand _ hbo).not.1 hnb) hf

lemma Relisted.frame (hr : Relisted h h' a o i f head l l') (ho : T.order o = some k)
    (hl : h.FreeList a T hand i l) : Frame h h' a := by
  have hne : ∀ p, ¬ InArena a p → p ≠ blockAt a o := by
    rintro p hp rfl
    exact hp (inArena_blockAt ho)
  refine ⟨fun p hp => ?_, fun p hp => hr.links p (hne p hp) fun hmem => ?_, fun b hb => ?_,
    hr.arenaList, hr.maps⟩
  · rw [hr.blocks, update_of_ne (hne p hp)]
  · obtain ⟨x, rfl, hx, -⟩ := (hl.mem p).1 hmem
    exact hp (inArena_blockAt hx)
  · rw [hr.arenas, update_of_ne hb]
end

/-! ## An operation on one arena -/

/-- The state `h` of an operation on the arena `a` that began with `h₀`. `U`: the blocks that are
in use, but for those in hand. -/
structure Work (h₀ h : Heap) (a : ℕ) (T : Tiling arenaSize) (hand : Set ℕ) (U : ℕ → Prop) :
    Prop where
  kept : h.Kept a T hand
  ordered : h.Ordered
  frame : Frame h₀ h a
  mem : a ∈ h₀.arenaList
  used : ∀ o, h.Used a T hand o ↔ U o

section
variable {U : ℕ → Prop}
section
variable (hw : Work h₀ h a T hand U)
include hw
section
variable (ho : T.order o = some k)
include ho
variable (hhand : o ∈ hand)
include hhand
theorem Work.push (hd : (h.blocks (blockAt a o)).Describes a o k)
    (hb : T.order (o ^^^ 2 ^ k) = some k → o ^^^ 2 ^ k ∉ hand →
      (h.blocks (blockAt a (o ^^^ 2 ^ k))).buddyFree = false) :
    Work h₀ (h.buddyFreelistPush a (blockAt a o)) a T (hand \ {o}) U ∧
      ∀ x, x ≠ o → (h.buddyFreelistPush a (blockAt a o)).blocks (blockAt a x) =
        h.blocks (blockAt a x) := by
  have hv : BuddyOrderValid (h.blocks (blockAt a o)).buddyOrder := hd.order.symm ▸ hw.kept.valid ho
  have hi : buddyOrderIndex (h.blocks (blockAt a o)).buddyOrder = buddyOrderIndex k := by rw [hd.order]
  obtain ⟨l, hl⟩ := hw.kept.lists (buddyOrderIndex k)
  have hnew : blockAt a o ∉ l := fun hmem => by
    obtain ⟨x, hx, -, hno, -⟩ := (hl.mem _).1 hmem
    exact hno (blockAt_inj.1 hx ▸ hhand)
  have hr := relisted_push hv hi hl hnew
  have hot : ∀ x, x ≠ o → (h.buddyFreelistPush a (blockAt a o)).blocks (blockAt a x) =
      h.blocks (blockAt a x) :=
    fun x hne => by rw [hr.blocks, update_of_ne (blockAt_inj.not.2 hne)]
  refine ⟨⟨hw.kept.relist ho hd hl hr (fun x hx => by simp [hx]) (by simp) fun _ => hb,
    hw.ordered.push (hw.frame.arenaList ▸ hw.mem) hv hi hr, hw.frame.trans (hr.frame ho hl), hw.mem,
    fun x => ?_⟩, hot⟩
  rw [← hw.used]
  unfold Used
  by_cases hxo : x = o
  · subst hxo
    simp [hhand, hr.blocks]
  rw [hot x hxo]
  simp [hxo]

omit hhand in
theorem Work.remove (hno : o ∉ hand) (hf : (h.blocks (blockAt a o)).buddyFree = true) :
    Work h₀ (h.buddyFreelistRemove a (blockAt a o)) a T (insert o hand) U ∧
      ((h.buddyFreelistRemove a (blockAt a o)).blocks (blockAt a o)).Describes a o k := by
  have hd := (hw.kept.header ho hno).1
  have hv : BuddyOrderValid (h.blocks (blockAt a o)).buddyOrder := hd.order.symm ▸ hw.kept.valid ho
  have hi : buddyOrderIndex (h.blocks (blockAt a o)).buddyOrder = buddyOrderIndex k := by rw [hd.order]
  obtain ⟨l, hl, hin⟩ := hw.kept.mem_list ho hno hf
  have hh : (h.arenas a).freelists (buddyOrderIndex k) ≠ none := by
    rw [Ne, hl.threads.head_eq_none_iff]
    exact ne_nil_of_mem hin
  have hr := relisted_remove ⟨hv, hf⟩ hi hl hin
  refine ⟨⟨hw.kept.relist ho hd hl hr (fun x hx => by simp [hx]) (by simp) (by simp),
    hw.ordered.remove (hw.frame.arenaList ▸ hw.mem) ⟨hv, hf⟩ hi hr hh,
    hw.frame.trans (hr.frame ho hl), hw.mem, fun x => ?_⟩, ?_⟩
  · rw [← hw.used]
    unfold Used
    by_cases hxo : x = o
    · subst hxo
      simp [hf]
    · rw [hr.blocks, update_of_ne (blockAt_inj.not.2 hxo)]
      simp [hxo]
  rw [hr.blocks, update_self]
  exact { hd with }

lemma Work.edit (hb : ∀ p, p ≠ blockAt a o → h'.blocks p = h.blocks p) (hl : ∀ p, p ≠ blockAt a o →
      h'.links.next p = h.links.next p ∧ h'.links.prev p = h.links.prev p)
    (ha : h'.arenas = h.arenas) (horderLinks : h'.orderLinks = h.orderLinks)
    (horderHeads : h'.orderHeads = h.orderHeads) (hls : h'.arenaList = h.arenaList)
    (hma : h'.maps = h.maps) : Work h₀ h' a T hand U := by
  have hne : ∀ {x}, x ∉ hand → blockAt a x ≠ blockAt a o := fun hx he =>
    hx (blockAt_inj.1 he ▸ hhand)
  refine ⟨hw.kept.congr (by rw [ha]) fun x j _ hx =>
    ⟨hb _ (hne hx), hl _ (hne hx)⟩, ?_, hw.frame.trans ?_, hw.mem, fun x => ?_⟩
  · intro i
    rw [horderLinks, horderHeads, hls, ha]
    exact hw.ordered i
  · have hout : ∀ p, ¬ InArena a p → p ≠ blockAt a o := by
      rintro p hp rfl
      exact hp (inArena_blockAt ho)
    exact ⟨fun p hp => hb p (hout p hp), fun p hp => hl p (hout p hp),
      fun b _ => by rw [ha], hls, hma⟩
  rw [← hw.used]
  unfold Used
  constructor
  · rintro ⟨j, hx, hno, hf⟩
    exact ⟨j, hx, hno, by rw [← hb _ (hne hno), hf]⟩
  rintro ⟨j, hx, hno, hf⟩
  exact ⟨j, hx, hno, by rw [hb _ (hne hno), hf]⟩

lemma Work.setBlock
    (f : BlockHeader → BlockHeader) : Work h₀ (h.setBlock (blockAt a o) f) a T hand U :=
  hw.edit ho hhand (fun _ hp => update_of_ne hp _ _) (fun _ _ => ⟨rfl, rfl⟩) rfl rfl rfl
    rfl rfl

lemma Work.resetBlock
    (f : BlockHeader → BlockHeader) : Work h₀ (h.resetBlock (blockAt a o) f) a T hand U :=
  hw.edit ho hhand (fun _ hp => update_of_ne hp _ _)
    (fun _ hp => ⟨(Links.next_clear ..).trans (if_neg hp), (Links.prev_clear ..).trans (if_neg hp)⟩)
    rfl rfl rfl rfl rfl

lemma Work.materialize
    (order : ℕ) : ∃ h', h.buddyMaterializeBlock a o order = some (blockAt a o, h') ∧
      Work h₀ h' a T hand U ∧ (h'.blocks (blockAt a o)).Describes a o order ∧
      ∀ p, p ≠ blockAt a o → h'.blocks p = h.blocks p := by
  have := T.inside ho
  have := Nat.two_pow_pos k
  unfold buddyMaterializeBlock
  rw [if_neg (by rw [hw.kept.size]; omega), hw.kept.base]
  refine ⟨_, rfl, ?_, ?_, fun p hp => ?_⟩
  · exact hw.resetBlock ho hhand _
  · show BlockHeader.Describes ((h.resetBlock (blockAt a o) _).blocks (blockAt a o)) a o order
    rw [resetBlock_self]
    exact ⟨rfl, rfl, rfl, rfl, rfl⟩
  · exact update_of_ne hp _ _
end

lemma Work.retile (hv : ∀ o k, T'.order o = some k → BuddyOrderValid k)
    (hr : ∀ o k, T'.order o = some k ∧ o ∉ hand' ↔ T.order o = some k ∧ o ∉ hand) :
    Work h₀ h a T' hand' U where
  kept := hw.kept.transport rfl (fun _ _ _ _ => ⟨rfl, rfl, rfl⟩) hv
    (fun o k ho hno => .inl ((hr o k).1 ⟨ho, hno⟩))
    (fun o k ho hno _ => (hr o k).2 ⟨ho, hno⟩)
  __ := hw
  used x := by
    rw [← hw.used]
    refine exists_congr fun j => ?_
    rw [← and_assoc, ← and_assoc, hr]

lemma Work.congr_hand
    (hhand : ∀ o k, T.order o = some k → (o ∈ hand' ↔ o ∈ hand)) : Work h₀ h a T hand' U :=
  hw.retile (fun _ _ => hw.kept.valid) fun o k => and_congr_right fun ho => (hhand o k ho).not

lemma Work.split (ho : T.order o = some (k + 1)) (hhand : o ∈ hand)
    (hmin : buddyMinOrder ≤ k) : Work h₀ h a (T.split ho) (insert (o + 2 ^ k) hand) U := by
  have := Nat.two_pow_pos k
  have hv := hw.kept.valid ho
  have hk : BuddyOrderValid k := ⟨hmin, by have := hv.2; omega⟩
  have hor : ∀ x, (T.split ho).order x =
      if x = o + 2 ^ k then some k else if x = o then some k else T.order x := fun _ => rfl
  refine hw.retile (fun x j hx => ?_) fun x j => ?_
  · rw [hor] at hx
    split_ifs at hx
    · exact some.inj hx ▸ hk
    · exact some.inj hx ▸ hk
    · exact hw.kept.valid hx
  rw [hor]
  by_cases hr : x = o + 2 ^ k
  · have hno := T.order_eq_none ho (x := x) (by omega) (by rw [Nat.pow_succ]; omega)
    simp [hr, hr ▸ hno]
  by_cases hle : x = o
  · simp [hle, hhand]
  · simp [hr, hle]

lemma Work.merge (ho : T.order o = some k)
    (ho' : T.order (o + 2 ^ k) = some k) (hdvd : 2 ^ (k + 1) ∣ o) (hhand : o ∈ hand)
    (hh' : o + 2 ^ k ∈ hand) (hmax : k < buddyMaxOrder) :
    Work h₀ h a (T.merge ho ho' hdvd) hand U := by
  have hor : ∀ x, (T.merge ho ho' hdvd).order x =
      if x = o + 2 ^ k then none else if x = o then some (k + 1) else T.order x := fun _ => rfl
  refine hw.retile (fun x j hx => ?_) fun x j => ?_
  · rw [hor] at hx
    split_ifs at hx
    · exact some.inj hx ▸ ⟨Nat.le_succ_of_le (hw.kept.valid ho).1, hmax⟩
    · exact hw.kept.valid hx
  rw [hor]
  by_cases hr : x = o + 2 ^ k
  · simp [hr, hh']
  by_cases hle : x = o
  · simp [hle, hhand]
  · simp [hr, hle]

lemma Work.take (hu : (h.blocks (blockAt a o)).buddyFree = false) :
    Work h₀ h a T (insert o hand) (fun x => U x ∧ x ≠ o) := by
  refine ⟨hw.kept.transport rfl (fun _ _ _ _ => ⟨rfl, rfl, rfl⟩) (fun _ _ => hw.kept.valid)
    (fun x j hx hno => .inl ⟨hx, fun hmem => hno (mem_insert_of_mem _ hmem)⟩)
    (fun x j hx hno hf => ⟨hx, ?_⟩), hw.ordered, hw.frame, hw.mem, fun x => ?_⟩
  · rintro (rfl | hmem)
    · rw [hu] at hf
      cases hf
    · exact hno hmem
  rw [← hw.used]
  unfold Used
  by_cases hxo : x = o
  · simp [hxo]
  · simp [hxo]

lemma Work.put (ho : T.order o = some k) (hd : (h.blocks (blockAt a o)).Describes a o k)
    (hf : (h.blocks (blockAt a o)).buddyFree = false)
    (hu : (h.blocks (blockAt a o)).buddyUsed = true) (hhand : o ∈ hand) :
    Work h₀ h a T (hand \ {o}) (fun x => U x ∨ x = o) := by
  refine ⟨hw.kept.transport rfl (fun _ _ _ _ => ⟨rfl, rfl, rfl⟩) (fun _ _ => hw.kept.valid)
    (fun x j hx hno => ?_) (fun x j hx hno _ => ⟨hx, fun hmem => hno hmem.1⟩), hw.ordered, hw.frame,
    hw.mem, fun x => ?_⟩
  · by_cases hxo : x = o
    · subst hxo
      rw [ho] at hx
      exact .inr ⟨some.inj hx ▸ hd, hf, hu⟩
    · exact .inl ⟨hx, fun hmem => hno ⟨hmem, hxo⟩⟩
  rw [← hw.used]
  unfold Used
  by_cases hxo : x = o
  · simp [hxo, ho, hf]
  · simp [hxo]
end

/-! ## Splitting -/

/-- The block in hand is cut down to the order `target`; what is cut off is free. -/
theorem splitLoop_spec {fl t : ℕ} (hf : k - t < fl)
    (hw : Work h₀ h a T {o} U) (ho : T.order o = some k)
    (hd : (h.blocks (blockAt a o)).Describes a o k) (ht : t ≤ k) (hmin : buddyMinOrder ≤ t) :
    ∃ h' T', splitLoop fl h a (blockAt a o) t = some h' ∧ Work h₀ h' a T' {o} U ∧
      T'.order o = some t ∧ (h'.blocks (blockAt a o)).Describes a o t := by
  induction fl generalizing h T k with
  | zero => exact absurd hf (Nat.not_lt_zero _)
  | succ n ih =>
    unfold splitLoop
    rw [hd.order]
    by_cases hlt : t < k
    · rw [if_pos hlt, hd.offset]
      obtain ⟨k, rfl⟩ : ∃ j, k = j + 1 := ⟨k - 1, by omega⟩
      have := Nat.two_pow_pos k
      have hne : o ≠ o + 2 ^ k := by omega
      have hsp := hw.split ho (mem_singleton o) (by omega)
      have hr : (T.split ho).order (o + 2 ^ k) = some k := if_pos rfl
      have hle : (T.split ho).order o = some k := by
        show (if o = o + 2 ^ k then some k else if o = o then some k else T.order o) = some k
        rw [if_neg hne, if_pos rfl]
      obtain ⟨h1, hrun, hw1, hd1, hsa⟩ := hsp.materialize hr (mem_insert _ _) k
      dsimp only
      rw [Nat.add_sub_cancel, hrun]
      -- the buddy of the right half is the block in hand
      have hb : (o + 2 ^ k) ^^^ 2 ^ k = o := by rw [← buddy_of_dvd (T.aligned ho), buddy_buddy]
      obtain ⟨hw2, hot⟩ := hw1.push hr (mem_insert _ _) hd1 fun _ hno => by
        rw [hb] at hno
        exact absurd (mem_insert_of_mem _ (mem_singleton o)) hno
      have hw3 : Work h₀ (h1.buddyFreelistPush a (blockAt a (o + 2 ^ k))) a (T.split ho) {o} U :=
        hw2.congr_hand fun x _ _ => by
          constructor
          · rintro rfl
            exact ⟨mem_insert_of_mem _ (mem_singleton x), hne⟩
          · rintro ⟨he | hmem, hnot⟩
            · exact absurd he hnot
            · exact hmem
      have hh : (h1.buddyFreelistPush a (blockAt a (o + 2 ^ k))).blocks (blockAt a o) =
          h.blocks (blockAt a o) := by
        rw [hot o hne, hsa _ (blockAt_inj.not.2 hne)]
      refine ih (by omega) (hw3.setBlock hle (mem_singleton o) _) hle ?_ (by omega)
      rw [setBlock_self, hh]
      exact { hd with order := rfl, size := rfl }
    rw [if_neg hlt]
    obtain rfl : k = t := by omega
    exact ⟨h, T, rfl, hw, ho, hd⟩

lemma Work.splitToOrder {t : ℕ} (hw : Work h₀ h a T {o} U) (ho : T.order o = some k)
    (hd : (h.blocks (blockAt a o)).Describes a o k) (ht : t ≤ k) (hv : BuddyOrderValid t) :
    ∃ h' T', h.buddySplitToOrder (blockAt a o) t = some (some (blockAt a o), h') ∧
      Work h₀ h' a T' {o} U ∧ T'.order o = some t ∧ (h'.blocks (blockAt a o)).Describes a o t := by
  obtain ⟨h1, T1, hr, hw1, ho1, hd1⟩ :=
    splitLoop_spec (Nat.lt_succ_of_le (Nat.sub_le k t)) hw ho hd ht hv.1
  unfold buddySplitToOrder
  rw [hd.arena]
  dsimp only
  rw [if_neg (by rw [hd.order, not_or, not_not]; exact ⟨hv, by omega⟩), hd.order, hr]
  refine ⟨_, T1, rfl, hw1.resetBlock ho1 (mem_singleton o) _, ho1, ?_⟩
  rw [resetBlock_self]
  exact { hd1 with }

/-! ## Coalescing -/

/-- The block in hand is merged with its buddy as long as that is free. The header that is read
for the test is a block's: a block starts there. -/
theorem coalesceLoop_spec {fl : ℕ} (hf : buddyMaxOrder - k < fl)
    (hw : Work h₀ h a T {o} U) (ho : T.order o = some k)
    (hd : (h.blocks (blockAt a o)).Describes a o k) :
    ∃ h' T' o' k', coalesceLoop fl h a (blockAt a o) = some (blockAt a o', h') ∧
      Work h₀ h' a T' {o'} U ∧ T'.order o' = some k' ∧
      (h'.blocks (blockAt a o')).Describes a o' k' ∧ (T'.order (o' ^^^ 2 ^ k') = some k' →
        (h'.blocks (blockAt a (o' ^^^ 2 ^ k'))).buddyFree = false) := by
  induction fl generalizing h T o k with
  | zero => exact absurd hf (Nat.not_lt_zero _)
  | succ n ih =>
    have hbu := buddy_ne (T.aligned ho)
    unfold coalesceLoop
    rw [hd.order, hd.offset]
    by_cases hmax : k < buddyMaxOrder
    · rw [if_pos hmax]
      dsimp only
      obtain ⟨b, hb⟩ : ∃ b, o ^^^ 2 ^ k = b := ⟨_, rfl⟩
      rw [hw.kept.size, hw.kept.base, hb]
      by_cases hout : arenaSize ≤ b
      · rw [if_pos hout]
        refine ⟨h, T, o, k, rfl, hw, ho, hd, fun hin => ?_⟩
        have := T.inside hin
        have hp := Nat.two_pow_pos k
        omega
      · rw [if_neg hout]
        obtain ⟨j, hj, hjb⟩ := T.buddy_starts ho (by omega)
        rw [hb] at hjb hbu
        have hnb : b ∉ ({o} : Set ℕ) := hbu
        obtain ⟨hdb, -⟩ := hw.kept.header hjb hnb
        have ha : a + buddyOffset + b = blockAt a b := rfl
        rw [ha, hdb.order]
        by_cases ht : j ≠ k ∨ (h.blocks (blockAt a b)).buddyFree = false
        · rw [if_pos ht]
          refine ⟨h, T, o, k, rfl, hw, ho, hd, fun hin => ?_⟩
          rw [hb] at hin ⊢
          rw [hjb] at hin
          exact ht.resolve_left fun hne => hne (some.inj hin)
        · rw [if_neg ht]
          rw [not_or, not_not, Bool.not_eq_false] at ht
          obtain ⟨rfl, hfr⟩ := ht
          have hw1 := (hw.remove hjb hnb hfr).1
          obtain ⟨hdvd, hc⟩ := buddy_min (T.aligned ho)
          rw [hb] at hdvd hc
          obtain ⟨m, hm⟩ : ∃ m, min o b = m := ⟨_, rfl⟩
          rw [hm] at hdvd hc ⊢
          have hmo : T.order m = some j ∧ T.order (m + 2 ^ j) = some j ∧
              m ∈ insert b ({o} : Set ℕ) ∧ m + 2 ^ j ∈ insert b ({o} : Set ℕ) ∧
              ∀ x, x ∈ insert b ({o} : Set ℕ) → x = m ∨ x = m + 2 ^ j := by
            rcases hc with ⟨hom, hbm⟩ | ⟨hbm, hom⟩
            · refine ⟨hom ▸ ho, hbm ▸ hjb, ?_, ?_, ?_⟩
              · exact .inr hom.symm
              · exact .inl hbm.symm
              · rintro x (rfl | hx)
                · exact .inr hbm
                · exact .inl ((mem_singleton_iff.1 hx).trans hom)
            · refine ⟨hbm ▸ hjb, hom ▸ ho, ?_, ?_, ?_⟩
              · exact .inl hbm.symm
              · exact .inr hom.symm
              · rintro x (rfl | hx)
                · exact .inl hbm
                · exact .inr ((mem_singleton_iff.1 hx).trans hom)
          obtain ⟨hle, hr, hinl, hinr, hon⟩ := hmo
          have hw2 := hw1.merge hle hr hdvd hinl hinr hmax
          have hp := Nat.two_pow_pos j
          have hme : (T.merge hle hr hdvd).order m = some (j + 1) := by
            show (if m = m + 2 ^ j then none else if m = m then some (j + 1) else T.order m) = _
            rw [if_neg (by omega), if_pos rfl]
          have hgo : (T.merge hle hr hdvd).order (m + 2 ^ j) = none := if_pos rfl
          obtain ⟨h3, hrun, hw3, hd3, -⟩ := hw2.materialize hme hinl (j + 1)
          rw [hrun]
          refine ih (by omega) (hw3.congr_hand fun x i hx => ?_) hme hd3
          constructor
          · rintro rfl
            exact hinl
          · intro hmem
            refine (hon x hmem).resolve_right ?_
            rintro rfl
            rw [hgo] at hx
            cases hx
    rw [if_neg hmax]
    refine ⟨h, T, o, k, rfl, hw, ho, hd, fun hin => ?_⟩
    -- the largest block is the whole arena
    have hk : k = buddyMaxOrder := by
      have := (hw.kept.valid ho).2
      omega
    subst hk
    have := T.inside ho
    have := T.inside hin
    have : arenaSize = 2 ^ buddyMaxOrder := rfl
    omega

/-- A block in use is given back. -/
theorem Work.release (hw : Work h₀ h a T ∅ U) (ho : T.order o = some k)
    (hu : (h.blocks (blockAt a o)).buddyFree = false) :
    ∃ h' T', h.buddyReleaseBlock (blockAt a o) = some h' ∧
      Work h₀ h' a T' ∅ (fun x => U x ∧ x ≠ o) := by
  obtain ⟨hd, -⟩ := hw.kept.header ho (notMem_empty o)
  have hin : o ∈ insert o (∅ : Set ℕ) := mem_insert o ∅
  unfold buddyReleaseBlock
  rw [if_neg (by rw [hd.arena]; exact Option.some_ne_none a), if_neg (by simp [hu])]
  dsimp only
  -- the header is marked free twice before the loop
  have hw1 := (hw.take hu).resetBlock ho hin fun b => { b with
    flagFree := false, buddyFree := true, buddyUsed := false
    size := buddyPayloadCapacity b.buddyOrder }
  have hd1 : ((h.resetBlock (blockAt a o) fun b => { b with
      flagFree := false, buddyFree := true, buddyUsed := false
      size := buddyPayloadCapacity b.buddyOrder }).blocks (blockAt a o)).Describes a o k := by
    rw [resetBlock_self]
    exact { hd with size := by rw [← hd.order]; rfl }
  generalize (h.resetBlock (blockAt a o) fun b => { b with
    flagFree := false, buddyFree := true, buddyUsed := false
    size := buddyPayloadCapacity b.buddyOrder }) = h1 at hw1 hd1 ⊢
  unfold buddyCoalesceBlock
  rw [hd1.arena]
  dsimp only
  have hw2 := hw1.resetBlock ho hin fun b => { b with buddyFree := true, buddyUsed := false }
  have hd2 : ((h1.resetBlock (blockAt a o) fun b => { b with
      buddyFree := true, buddyUsed := false }).blocks (blockAt a o)).Describes a o k := by
    rw [resetBlock_self]
    exact { hd1 with }
  have hw3 : Work h₀ _ a T {o} _ := hw2.congr_hand fun x _ _ => by simp
  obtain ⟨h4, T4, o', k', hr, hw4, ho4, hd4, hb⟩ :=
    coalesceLoop_spec (Nat.lt_succ_of_le (Nat.sub_le buddyMaxOrder k)) hw3 ho hd2
  refine ⟨_, T4, by rw [hr]; rfl, ?_⟩
  exact (hw4.push ho4 (mem_singleton o') hd4 fun hin _ => hb hin).1.congr_hand fun x _ _ => by simp
end

end
end Heap
end Menios.Libc.Buddy
