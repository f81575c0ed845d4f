import Menios.Tmpfs.File

/-!
# Unlinked files of tmpfs

The list of nodes of `src/kernel/fs/tmpfs/tmpfs.c` under `tmpfs_open` (lines 759-881),
`tmpfs_unlink` (lines 883-910) and `tmpfs_close` (lines 420-442). Allocation succeeds.

**Defect.** While handles are open `tmpfs_unlink` only sets `deleted`, which `tmpfs_find_node`
does not look at: the name is still found, and opening it clears the flag. A new name is cut to
127 characters, so that a second node may have it.

Results:

* `unlink_removes_iff`: when an unlink removes the name.
* `unlinked_is_found`: a file that is opened after it was unlinked.
-/

namespace Menios.Tmpfs
open List

/-- The fields of a `tmpfs_node_t` that the calls below use. -/
structure Inode where
  name : List Char
  size : ℕ
  charDevice : Bool
  deleted : Bool
  refcount : ℕ

/-- The name in a path (lines 765-768). -/
def stem (path : List Char) : List Char := path.dropWhile (· = '/')

variable (d : List Inode) (name path : List Char)
/-- `tmpfs_find_node` (lines 63-72). -/
def findNode : Option Inode := d.find? (·.name = name)

/-- The list after the node that is found was changed, or detached. -/
def onNode (f : Inode → Option Inode) : List Inode → List Inode
  | [] => []
  | e :: d => if e.name = name then (f e).toList ++ d else e :: onNode f d

/-- The node after it was opened (lines 834-848). -/
def opened (flags : OpenFlags) (e : Inode) : Option Inode :=
  some { e with
    size := if flags.trunc then 0 else e.size
    deleted := false
    refcount := e.refcount + 1 }

/-- `tmpfs_open`. `device`: what opening a character device returns (lines 810-828). -/
def tmpfsOpen (flags : OpenFlags) (device : ℤ) : ℤ × List Inode :=
  if stem path = [] ∨ '/' ∈ stem path then (-enosys, d)
  else match findNode d (stem path) with
    | none =>
      if flags.create then (0, ⟨(stem path).take 127, 0, false, false, 1⟩ :: d) else (-enoent, d)
    | some e =>
      if flags.create ∧ flags.exclusive then (-eexist, d)
      else if e.charDevice then (if flags.trunc then -einval else device, d)
      else (0, onNode (stem path) (opened flags) d)

/-- The node after `tmpfs_unlink` (lines 901-907). -/
def unlinked (e : Inode) : Option Inode :=
  if 0 < e.refcount then some { e with deleted := true } else none

/-- `tmpfs_unlink`. -/
def tmpfsUnlink : ℤ × List Inode :=
  match findNode d (stem path) with
  | none => (-enoent, d)
  | some _ => (0, onNode (stem path) unlinked d)

/-- `tmpfs_close` of a handle of the node at position `i`. -/
def tmpfsClose (i : ℕ) : List Inode :=
  match d[i]? with
  | none => d
  | some e =>
    if e.refcount - 1 = 0 ∧ e.deleted then d.eraseIdx i
    else d.set i { e with refcount := e.refcount - 1 }

/-- The calls. -/
inductive Call
  | open_ (path : List Char) (flags : OpenFlags) (device : ℤ)
  | unlink (path : List Char)
  | close (i : ℕ)

/-- The list after a call. -/
def exec : Call → List Inode
  | .open_ path flags device => (tmpfsOpen d path flags device).2
  | .unlink path => (tmpfsUnlink d path).2
  | .close i => tmpfsClose d i

/-- The call may make a node of this name. -/
def Call.Creates : Call → Prop
  | .open_ path flags _ => flags.create = true ∧ (stem path).take 127 = name
  | _ => False

/-- The call opens a node of this name if there is one. -/
def Call.Opens : Call → Prop
  | .open_ path _ _ => stem path = name
  | _ => False

/-- The handles of nodes of this name that the call closes. -/
def Call.closes : Call → ℕ
  | .close i => if d[i]?.any (·.name = name) then 1 else 0
  | _ => 0

/-- The handles of nodes of this name that the calls close. -/
def closed : List Inode → List Call → ℕ
  | _, [] => 0
  | d, c :: calls => c.closes d name + closed (exec d c) calls

/-- The nodes of this name. -/
def nodesOf : List Inode := d.filter (·.name = name)

/-- The names on the list. -/
def names : List (List Char) := d.map Inode.name

variable {d name path}
lemma nodesOf_cons (e : Inode) :
    nodesOf (e :: d) name = if e.name = name then e :: nodesOf d name else nodesOf d name := by
  simp [nodesOf, filter_cons]

lemma nodesOf_append (l : List Inode) :
    nodesOf (d ++ l) name = nodesOf d name ++ nodesOf l name := by
  simp [nodesOf]

lemma findNode_eq_head : findNode d name = (nodesOf d name).head? := by
  rw [nodesOf, head?_filter, findNode]

lemma mem_names_iff : name ∈ names d ↔ nodesOf d name ≠ [] := by simp [names, nodesOf]

lemma count_names : (names d).count name = (nodesOf d name).length := by
  rw [names, count, countP_map, countP_eq_length_filter, nodesOf]
  exact congrArg length (filter_congr fun e _ => by by_cases h : e.name = name <;> simp [h])

lemma nodesOf_onNode_of_ne {other : List Char} (hne : other ≠ name) {f : Inode → Option Inode}
    (hf : ∀ e e', f e = some e' → e'.name = e.name) :
    nodesOf (onNode other f d) name = nodesOf d name := by
  induction d with
  | nil => rfl
  | cons e d ih =>
    rw [onNode]
    split_ifs with he
    · have hother : e.name ≠ name := he ▸ hne
      cases hfe : f e with
      | none => simp [nodesOf_cons, hother]
      | some e' => simp [nodesOf_cons, hother, hf e e' hfe]
    · rw [nodesOf_cons, nodesOf_cons, ih]

/-- The first node of the name is changed, or gone. -/
lemma nodesOf_onNode {e : Inode} {rest : List Inode} (h : nodesOf d name = e :: rest)
    {f : Inode → Option Inode} (hf : ∀ e e', f e = some e' → e'.name = e.name) :
    nodesOf (onNode name f d) name = (f e).toList ++ rest := by
  induction d with
  | nil => cases h
  | cons a d ih =>
    rw [nodesOf_cons] at h
    rw [onNode]
    split_ifs at h ⊢ with ha
    · obtain ⟨rfl, hrest⟩ := cons.inj h
      cases hfa : f a with
      | none => exact hrest
      | some a' => simp [nodesOf_cons, hf a a' hfa, ha, hrest]
    · rw [nodesOf_cons, if_neg ha, ih h]

lemma unlinked_name (e e' : Inode) (h : unlinked e = some e') : e'.name = e.name := by
  rw [unlinked] at h
  split_ifs at h
  cases h
  rfl

/-! ## Nodes that are freed -/

/-- An unlinked node, the only one of its name, of which `n` handles are open: it is on the list
as long as there is one. -/
def Unlinked (d : List Inode) (name : List Char) (n : ℕ) : Prop :=
  if n = 0 then nodesOf d name = []
  else ∃ e, nodesOf d name = [e] ∧ e.deleted = true ∧ e.refcount = n

lemma Unlinked.mem_names_iff {n : ℕ} (h : Unlinked d name n) : name ∈ names d ↔ n ≠ 0 := by
  rw [Tmpfs.mem_names_iff]
  rw [Unlinked] at h
  split_ifs at h with hn
  · simp [h, hn]
  · obtain ⟨e, he, -⟩ := h
    simp [he, hn]

/-- The calls that neither make a node of the name nor find one to open leave the nodes alone. -/
lemma nodesOf_open {flags : OpenFlags} {device : ℤ}
    (hcreate : ¬ (Call.open_ path flags device).Creates name)
    (hopen : stem path = name → nodesOf d name = []) :
    nodesOf (tmpfsOpen d path flags device).2 name = nodesOf d name := by
  rw [tmpfsOpen]
  by_cases hpath : stem path = [] ∨ '/' ∈ stem path
  · rw [if_pos hpath]
  rw [if_neg hpath]
  cases hfind : findNode d (stem path) with
  | none =>
    dsimp only
    split_ifs with hflag
    · rw [nodesOf_cons, if_neg fun heq => hcreate ⟨hflag, heq⟩]
    · rfl
  | some e =>
    have hne : stem path ≠ name := fun heq => by
      rw [findNode_eq_head, heq, hopen heq] at hfind
      cases hfind
    dsimp only
    split_ifs
    · rfl
    · rfl
    · rfl
    · exact nodesOf_onNode_of_ne hne fun _ _ he => by cases he; rfl

lemma Unlinked.unlink {n : ℕ} (h : Unlinked d name n) : Unlinked (tmpfsUnlink d path).2 name n := by
  rw [tmpfsUnlink]
  by_cases hpath : stem path = name
  · subst hpath
    rw [Unlinked] at h ⊢
    rw [findNode_eq_head]
    split_ifs at h ⊢ with hn
    · rw [h]
      exact h
    · obtain ⟨e, he, hdeleted, rfl⟩ := h
      rw [he]
      refine ⟨e, (nodesOf_onNode he unlinked_name).trans ?_, hdeleted, rfl⟩
      rw [unlinked, if_pos (Nat.pos_of_ne_zero hn), ← hdeleted]
      rfl
  · split
    · exact h
    · rwa [Unlinked, nodesOf_onNode_of_ne hpath unlinked_name]

/-- The last close frees the node, and another one takes a handle away. -/
lemma Unlinked.close {n i : ℕ} (h : Unlinked d name n) :
    Unlinked (tmpfsClose d i) name (n - (Call.close i).closes d name) ∧
      (Call.close i).closes d name ≤ n := by
  by_cases hi : i < d.length
  swap
  · simp only [tmpfsClose, Call.closes, getElem?_eq_none (not_lt.1 hi)]
    exact ⟨h, Nat.zero_le _⟩
  -- the nodes before and after the one whose handle is closed
  obtain ⟨e, before, after, rfl, rfl⟩ : ∃ e before after, d = before ++ e :: after ∧
      before.length = i := ⟨d[i], d.take i, d.drop (i + 1), by simp, by simp [hi.le]⟩
  simp only [Unlinked, tmpfsClose, Call.closes, getElem?_append_right le_rfl, Nat.sub_self,
    getElem?_cons_zero, Option.any_some, decide_eq_true_eq] at h ⊢
  by_cases hname : e.name = name
  · rw [if_pos hname]
    split_ifs at h with hn
    · simp [nodesOf, hname] at h
    obtain ⟨x, hx, hdeleted, rfl⟩ := h
    obtain ⟨hbefore, rfl, hafter⟩ : nodesOf before name = [] ∧ e = x ∧ nodesOf after name = [] := by
      simpa [nodesOf, hname, append_eq_cons_iff] using hx
    refine ⟨?_, Nat.pos_of_ne_zero hn⟩
    by_cases hlast : e.refcount - 1 = 0
    · simp [hlast, hdeleted, eraseIdx_append, nodesOf_append, hbefore, hafter]
    · simp [hlast, nodesOf_append, nodesOf_cons, hname, hbefore, hafter, hdeleted]
  · rw [if_neg hname]
    refine ⟨?_, Nat.zero_le _⟩
    have hkept : nodesOf (if e.refcount - 1 = 0 ∧ e.deleted then
        (before ++ e :: after).eraseIdx before.length
        else (before ++ e :: after).set before.length { e with refcount := e.refcount - 1 }) name =
          nodesOf (before ++ e :: after) name := by
      split_ifs <;> simp [eraseIdx_append, nodesOf_append, nodesOf_cons, hname]
    rwa [hkept]

/-- A run in which the name is not opened: the node is on the list until its handles are closed. -/
lemma Unlinked.run {n : ℕ} (h : Unlinked d name n) {calls : List Call}
    (hcreate : ∀ c ∈ calls, ¬ c.Creates name) (hopen : n = 0 ∨ ∀ c ∈ calls, ¬ c.Opens name) :
    Unlinked (calls.foldl exec d) name (n - closed name d calls) ∧ closed name d calls ≤ n := by
  induction calls generalizing d n with
  | nil => exact ⟨h, Nat.zero_le _⟩
  | cons c calls ih =>
    rw [forall_mem_cons] at hcreate hopen
    have hstep : Unlinked (exec d c) name (n - c.closes d name) ∧ c.closes d name ≤ n := by
      cases c with
      | open_ path flags device =>
        refine ⟨?_, Nat.zero_le _⟩
        rw [exec, Unlinked, nodesOf_open hcreate.1 fun heq => ?_]
        · exact h
        · rw [Unlinked, if_pos (hopen.resolve_right fun hno => hno.1 heq)] at h
          exact h
      | unlink path => exact ⟨h.unlink, Nat.zero_le _⟩
      | close i => exact h.close
    obtain ⟨hrun, hle⟩ := ih hstep.1 hcreate.2 (hopen.imp (by omega) And.right)
    rw [closed, foldl_cons, Nat.sub_add_eq]
    exact ⟨hrun, by omega⟩

/-- After an unlink, and until a node of that name is made, the name is gone exactly if no handle
was open on the node and no second node has its name. The only node of its name is freed by the
close of the last handle, unless the name is opened before that. -/
theorem unlink_removes_iff (hname : ¬ (stem path = [] ∨ '/' ∈ stem path)) {e : Inode}
    (he : findNode d (stem path) = some e) : (tmpfsUnlink d path).1 = 0 ∧
    ((∀ calls : List Call, (∀ c ∈ calls, ¬ c.Creates (stem path)) →
      let d' := calls.foldl exec (tmpfsUnlink d path).2
      (tmpfsUnlink d' path).1 = -enoent ∧ ∀ flags device, tmpfsOpen d' path flags device =
        if flags.create then (0, ⟨(stem path).take 127, 0, false, false, 1⟩ :: d')
        else (-enoent, d')) ↔
      e.refcount = 0 ∧ (names d).count (stem path) = 1) ∧
    ((names d).count (stem path) = 1 → ∀ calls : List Call,
      (∀ c ∈ calls, ¬ c.Creates (stem path) ∧ ¬ c.Opens (stem path)) →
      (stem path ∈ names (calls.foldl exec (tmpfsUnlink d path).2) ↔
        closed (stem path) (tmpfsUnlink d path).2 calls < e.refcount)) := by
  obtain ⟨rest, hnodes⟩ : ∃ rest, nodesOf d (stem path) = e :: rest := by
    rw [findNode_eq_head] at he
    exact ⟨_, eq_cons_of_mem_head? he⟩
  have hunlink : tmpfsUnlink d path = (0, onNode (stem path) unlinked d) := by rw [tmpfsUnlink, he]
  have hleft := nodesOf_onNode hnodes unlinked_name
  have hunlinked : rest = [] → Unlinked (tmpfsUnlink d path).2 (stem path) e.refcount := by
    rintro rfl
    rw [hunlink, Unlinked, hleft, unlinked]
    split_ifs with hrefs hpos
    · omega
    · rfl
    · exact ⟨_, rfl, rfl, rfl⟩
    · omega
  rw [count_names, hnodes, length_cons, Nat.add_eq_right, length_eq_zero_iff]
  refine ⟨by rw [hunlink], ⟨fun h => ?_, fun ⟨hrefs, hrest⟩ calls hcreate => ?_⟩,
    fun hrest calls hcalls => ?_⟩
  · -- the second unlink finds nothing
    have hsecond := (h [] (by simp)).1
    rw [foldl_nil, tmpfsUnlink, hunlink, findNode_eq_head, hleft] at hsecond
    cases hfreed : unlinked e with
    | some e' => simp [hfreed, enoent] at hsecond
    | none =>
      cases rest with
      | cons _ _ => simp [hfreed, enoent] at hsecond
      | nil =>
        rw [unlinked] at hfreed
        split_ifs at hfreed
        exact ⟨by omega, rfl⟩
  · have hgone := ((hunlinked hrest).run hcreate (.inl hrefs)).1
    rw [hrefs, Nat.zero_sub, Unlinked, if_pos rfl] at hgone
    have hfind := findNode_eq_head.trans (congrArg head? hgone)
    exact ⟨by rw [tmpfsUnlink, hfind]; rfl, fun flags device => by rw [tmpfsOpen, if_neg hname, hfind]; rfl⟩
  · obtain ⟨hrun, hle⟩ := (hunlinked hrest).run (fun c hc => (hcalls c hc).1)
      (.inr fun c hc => (hcalls c hc).2)
    rw [hrun.mem_names_iff]
    omega

/-- A file without handles is gone after the unlink; one with two handles is freed by the second
close. -/
theorem unlink_removes_closed :
    (tmpfsUnlink (tmpfsUnlink [⟨['a'], 5, false, false, 0⟩] ['a']).2 ['a']).1 = -enoent ∧
    ['a'] ∉ names (tmpfsClose (tmpfsClose
      (tmpfsUnlink [⟨['b'], 0, false, false, 1⟩, ⟨['a'], 5, false, false, 2⟩] ['a']).2 1) 1) := by
  refine ⟨((unlink_removes_iff (by decide) rfl).2.1.2 ⟨rfl, by decide⟩ [] (by simp)).1, ?_⟩
  have hfreed := (@unlink_removes_iff [⟨['b'], 0, false, false, 1⟩, ⟨['a'], 5, false, false, 2⟩]
    ['a'] (by decide) _ rfl).2.2 (by decide) [.close 1, .close 1]
    (by simp [Call.Opens, Call.Creates])
  exact fun hmem => absurd (hfreed.1 hmem) (by decide)

/-- A file is unlinked while it is open: neither a second unlink nor an open without `O_CREAT`
fails, one with `O_CREAT | O_EXCL` does not succeed, and a node that is opened again is not freed
by the last close. -/
theorem unlinked_is_found :
    let d := (tmpfsUnlink (tmpfsOpen [] ['a'] TmpfsFile.createFlags 0).2 ['a']).2
    let reopened := tmpfsOpen d ['a'] ⟨false, false, false, false, true, true⟩ 0
    (tmpfsUnlink d ['a']).1 ≠ -enoent ∧ reopened.1 ≠ -enoent ∧
    (tmpfsOpen d ['a'] ⟨true, true, false, false, true, true⟩ 0).1 ≠ 0 ∧
    ['a'] ∈ names (tmpfsClose (tmpfsClose reopened.2 0) 0) := by
  decide
end Menios.Tmpfs
