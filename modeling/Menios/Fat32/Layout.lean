import Menios.Fat32.Directory

/-!
# Listings and cluster boundaries

A sequence of directory entries can lie in many ways over the clusters of a
directory. `fat32_iterate_directory` (`src/kernel/fs/fat32/fat32.c`, lines
1766-1898) empties the decoder's buffer at the beginning of every cluster, so a
boundary can fall between a short entry and the long name in front of it.

Results:

* `listing_reports`: the listing of a layout, entry by entry: the long name, or
  the short name when a boundary has cut the long name off.
* `listDirectory_layout_iff`: two layouts of the same entries are listed alike
  (and the same names are found in them) iff no entry whose long name counts is
  cut off in one of them only.

**Defect.** `fat32_directory_find_free_entries` hands out runs of slots that
cross a boundary. An entry placed so is listed under its short name and not
found under its long one (`listDirectory_cut_name`).
-/

namespace Menios.Fat32
open Common List Option DirEntryInfo

/-! ## The first byte of the decoder's buffer -/
namespace RawEntry
/-- A long-name slot that stores a character at the beginning of the name. -/
def FillsFirst (e : RawEntry) : Prop := e.first &&& 0x1F = 1 ∧ e.u16 (lfnOffset 0) ≠ 0xFFFF

instance (e : RawEntry) : Decidable e.FillsFirst := inferInstanceAs (Decidable (_ ∧ _))

/-- A slot after which the first byte of the buffer no longer depends on what it
was before. -/
def StoresFirst (e : RawEntry) : Prop := e.kind ≠ .longName ∨ e.first &&& 0x40 ≠ 0 ∨ e.FillsFirst

instance (e : RawEntry) : Decidable e.StoresFirst := inferInstanceAs (Decidable (_ ∨ _ ∨ _))
end RawEntry

@[simp] lemma resetLfn_resetLfn (b : Buffer) : resetLfn (resetLfn b) = resetLfn b :=
  Buffer.set_set b 0 0 0

lemma resetLfn_zero (b : Buffer) : resetLfn b 0 = 0 := by
  rw [resetLfn, Buffer.set_apply, if_pos rfl]

lemma appendLfnLoop_set_zero {n : ℕ} (hn : 1 < n) (x : UInt8) :
    ∀ (c : List ℕ) (b : Buffer) (d : ℕ), 1 ≤ d →
      appendLfnLoop n (b.set 0 x) d c = (appendLfnLoop n b d c).set 0 x := by
  intro c
  induction c with
  | nil => intro b d _; rfl
  | cons cd c ih =>
    intro b d hdst
    simp only [appendLfnLoop]
    split_ifs with h1 h2 h3
    · exact Buffer.set_comm b (by omega) x 0
    · exact ih b (d + 1) (by omega)
    · exact Buffer.set_comm b (by omega) x 0
    rw [Buffer.set_comm b (by omega) x (UInt8.ofNat cd)]
    exact ih _ (d + 1) (by omega)

lemma appendLfnLoop_reset_zero {n : ℕ} (hn : 1 < n) (c : ℕ) (cd : List ℕ) (b : Buffer) :
    appendLfnLoop n (resetLfn b) 0 (c :: cd) = if c ≠ 0xFFFF then appendLfnLoop n b 0 (c :: cd)
      else resetLfn (appendLfnLoop n b 0 (c :: cd)) := by
  have hl : ∀ b, appendLfnLoop n b 0 (c :: cd) =
      if c = 0xFFFF then appendLfnLoop n b 1 cd
      else if c = 0 then b.set 0 0
      else appendLfnLoop n (b.set 0 (UInt8.ofNat c)) 1 cd := by
    intro b
    rw [appendLfnLoop, if_neg (by omega)]
  rw [hl, hl]
  by_cases hF : c = 0xFFFF
  · rw [if_pos hF, if_pos hF, if_neg (by simpa using hF)]
    exact appendLfnLoop_set_zero hn 0 cd b 1 le_rfl
  · rw [if_neg hF, if_neg hF, if_pos hF, resetLfn, Buffer.set_set, Buffer.set_set]

lemma appendLfnSegment_resetLfn (b : Buffer) (e : RawEntry) :
    appendLfnSegment (resetLfn b) lfnSize e =
      if e.FillsFirst then appendLfnSegment b lfnSize e else resetLfn (appendLfnSegment b lfnSize e) := by
  have hn : 1 < lfnSize := by decide
  have hseg : ∀ b, appendLfnSegment b lfnSize e = if e.first &&& 0x1F = 0 then b else
      appendLfnLoop lfnSize b (((e.first &&& 0x1F).toNat - 1) * 13)
        ((List.finRange 13).map fun i => e.u16 (lfnOffset i)) := by
    intro b
    rw [appendLfnSegment, if_neg (by decide)]
  rw [hseg, hseg]
  by_cases h0 : e.first &&& 0x1F = 0
  · have hf : ¬ e.FillsFirst := fun h => absurd (h0.symm.trans h.1) (by decide)
    rw [if_pos h0, if_pos h0, if_neg hf]
  rw [if_neg h0, if_neg h0]
  by_cases h1 : e.first &&& 0x1F = 1
  · have hc : (List.finRange 13).map (fun i => e.u16 (lfnOffset i)) =
        e.u16 (lfnOffset 0) :: (List.finRange 12).map fun i => e.u16 (lfnOffset i.succ) := by
      rw [finRange_succ, map_cons, List.map_map]
      rfl
    have hdst : ((e.first &&& 0x1F).toNat - 1) * 13 = 0 := by rw [h1]; rfl
    rw [hc, hdst, appendLfnLoop_reset_zero hn]
    by_cases hF : e.u16 (lfnOffset 0) ≠ 0xFFFF
    · rw [if_pos hF, if_pos (show e.FillsFirst from ⟨h1, hF⟩)]
    · rw [if_neg hF, if_neg fun h : e.FillsFirst => hF h.2]
  rw [if_neg fun h : e.FillsFirst => h1 h.1]
  have hpos : 1 ≤ ((e.first &&& 0x1F).toNat - 1) * 13 := by
    have : (e.first &&& 0x1F).toNat ≠ 0 := fun h => h0 (UInt8.toNat_inj.1 (by rw [h]; rfl))
    have : (e.first &&& 0x1F).toNat ≠ 1 := fun h => h1 (UInt8.toNat_inj.1 (by rw [h]; rfl))
    omega
  exact appendLfnLoop_set_zero hn 0 _ b _ hpos

/-! ## Decoding without boundaries -/

/-- The decoder's buffer after one more slot. -/
def stepLfn (b : Buffer) (e : RawEntry) : Buffer :=
  match e.kind with
  | .longName => appendLfnSegment (if e.first &&& 0x40 ≠ 0 then resetLfn b else b) lfnSize e
  | _ => resetLfn b

lemma append_lfn {e : RawEntry} (h : e.kind = .longName) (s : LfnState) :
    (s.append e).lfn = stepLfn s.lfn e := by
  rw [stepLfn, h]
  simp only [LfnState.append]
  split_ifs <;> rfl

lemma reset_lfn {e : RawEntry} (h : e.kind ≠ .longName) (s : LfnState) :
    s.reset.lfn = stepLfn s.lfn e := by
  cases hk : e.kind with
  | longName => exact absurd hk h
  | endMarker => simp only [stepLfn, hk, LfnState.reset]
  | deleted => simp only [stepLfn, hk, LfnState.reset]
  | volumeLabel => simp only [stepLfn, hk, LfnState.reset]
  | entry => simp only [stepLfn, hk, LfnState.reset]

lemma stepLfn_resetLfn (b : Buffer) (e : RawEntry) :
    stepLfn (resetLfn b) e = if e.StoresFirst then stepLfn b e else resetLfn (stepLfn b e) := by
  by_cases hk : e.kind = .longName
  · simp only [stepLfn, hk, RawEntry.StoresFirst, ne_eq, not_true_eq_false, false_or]
    by_cases h40 : e.first &&& 0x40 = 0
    · simp only [h40, not_true_eq_false, if_false, false_or]
      exact appendLfnSegment_resetLfn b e
    · simp [h40]
  rw [if_pos (show e.StoresFirst from .inl hk), ← reset_lfn hk ⟨resetLfn b, 0⟩, ← reset_lfn hk ⟨b, 0⟩]
  exact resetLfn_resetLfn b

/-- Entry `k` of a sequence. -/
def entryAt (es : List RawEntry) (k : ℕ) : RawEntry := es.getD k fun _ => 0

/-- The decoder's buffer before entry `k`, as if all entries lay in one cluster. -/
def lfnAt (stale : Buffer) (es : List RawEntry) : ℕ → Buffer
  | 0 => resetLfn stale
  | k + 1 => stepLfn (lfnAt stale es k) (entryAt es k)

/-- The name of entry `k`, as if all entries lay in one cluster. -/
def flatName (stale : Buffer) (es : List RawEntry) (k : ℕ) : CString :=
  if lfnAt stale es k 0 ≠ 0 then (lfnAt stale es k).cString (lfnSize - 1)
  else decodeSfn (entryAt es k).name

/-- Where `lead` slots precede the sequence and a cluster holds `perCluster`
slots, a boundary lies before entry `k` and behind every slot that stored
the beginning of its name. -/
def CutOff (perCluster lead : ℕ) (es : List RawEntry) (k : ℕ) : Prop :=
  ∃ b < k + 1, (lead + b) % perCluster = 0 ∧ ∀ j < k, b ≤ j → ¬ (entryAt es j).StoresFirst

instance (perCluster lead : ℕ) (es : List RawEntry) (k : ℕ) : Decidable (CutOff perCluster lead es k) :=
  inferInstanceAs (Decidable (∃ b < k + 1, _ ∧ _))

lemma cutOff_succ {perCluster lead : ℕ} {es : List RawEntry} {k : ℕ} :
    CutOff perCluster lead es (k + 1) ↔ (lead + (k + 1)) % perCluster = 0 ∨
        (CutOff perCluster lead es k ∧ ¬ (entryAt es k).StoresFirst) := by
  constructor
  · rintro ⟨b, hb, hbo, hst⟩
    by_cases hbk : b = k + 1
    · exact .inl (hbk ▸ hbo)
    · exact .inr ⟨⟨b, by omega, hbo, fun j hj => hst j (by omega)⟩, hst k (by omega) (by omega)⟩
  rintro (hbo | ⟨⟨b, hb, hbo, hst⟩, hk⟩)
  · exact ⟨k + 1, by omega, hbo, fun j hj hbj => by omega⟩
  refine ⟨b, by omega, hbo, fun j hj hbj => ?_⟩
  by_cases hjk : j = k
  · exact hjk ▸ hk
  · exact hst j (by omega) hbj

/-- What a layout reports for entry `k`. -/
def report (perCluster lead : ℕ) (stale : Buffer) (es : List RawEntry) (k : ℕ) : DirEntry where
  name := if CutOff perCluster lead es k then decodeSfn (entryAt es k).name else flatName stale es k
  isDirectory := (entryAt es k).isDirectory
  size := (entryAt es k).fileSize

/-- The entries that are reported, from `k` on. -/
def reported (es : List RawEntry) (k : ℕ) : List ℕ :=
  (range' k (es.length - k)).filter fun k => (entryAt es k).kind = .entry

/-! ## The listing of a layout -/

lemma listing_of_end (fs : Fat32Fs) (s : LfnState) {r : List (EntryPos × RawEntry)}
    (h : ∀ x ∈ r.head?, x.2.kind = .endMarker) : listing fs s r = [] := by
  cases r with
  | nil => rfl
  | cons x r =>
    obtain ⟨pos, e⟩ := x
    have he : e.kind = .endMarker := h (pos, e) (by simp)
    rw [listing]
    simp only [he]

section
variable (fs : Fat32Fs) (perCluster lead : ℕ) (stale : Buffer) (es : List RawEntry)
/-- The buffer when entry `k` has its turn. -/
def lfnIn (k : ℕ) : Buffer :=
  if CutOff perCluster lead es k then resetLfn (lfnAt stale es k) else lfnAt stale es k

lemma lfnIn_succ (k : ℕ) : (if (lead + (k + 1)) % perCluster = 0
      then resetLfn (stepLfn (lfnIn perCluster lead stale es k) (entryAt es k))
      else stepLfn (lfnIn perCluster lead stale es k) (entryAt es k)) =
        lfnIn perCluster lead stale es (k + 1) := by
  have hsp : stepLfn (lfnIn perCluster lead stale es k) (entryAt es k) =
      if CutOff perCluster lead es k ∧ ¬ (entryAt es k).StoresFirst
        then resetLfn (lfnAt stale es (k + 1)) else lfnAt stale es (k + 1) := by
    unfold lfnIn
    by_cases hc : CutOff perCluster lead es k
    · rw [if_pos hc, stepLfn_resetLfn]
      by_cases hst : (entryAt es k).StoresFirst <;> simp [hc, hst, lfnAt]
    rw [if_neg hc, if_neg fun h => hc h.1]
    rfl
  rw [hsp, lfnIn]
  by_cases hb : (lead + (k + 1)) % perCluster = 0
  · rw [if_pos hb, if_pos (cutOff_succ.2 (.inl hb))]
    split_ifs <;> simp
  rw [if_neg hb]
  by_cases hc : CutOff perCluster lead es k ∧ ¬ (entryAt es k).StoresFirst
  · rw [if_pos hc, if_pos (cutOff_succ.2 (.inr hc))]
  · rw [if_neg hc, if_neg fun h => (cutOff_succ.1 h).elim hb hc]

/-- The record for entry `k`. -/
lemma toDirEntry_entryInfo {s : LfnState} {k : ℕ}
    (hst : s.lfn = lfnIn perCluster lead stale es k) (p : EntryPos) :
    (entryInfo fs s p (entryAt es k)).toDirEntry = report perCluster lead stale es k := by
  simp only [entryInfo, toDirEntry, report, hst, lfnIn, DirEntry.mk.injEq, and_true]
  by_cases hc : CutOff perCluster lead es k
  · simp [hc, resetLfn_zero]
  · simp only [if_neg hc, flatName]

/-- The slots `todo` of the entries from `k` on, and what follows them. -/
lemma listing_from {r : List (EntryPos × RawEntry)}
    (hre : ∀ x ∈ r.head?, x.2.kind = .endMarker) (hes : ∀ e ∈ es, e.kind ≠ .endMarker) :
    ∀ (t : List (EntryPos × RawEntry)) (k : ℕ) (s : LfnState), t.map Prod.snd = es.drop k →
      (∀ i (h : i < t.length), t[i].1.index = (lead + (k + i)) % perCluster) →
      (if (lead + k) % perCluster = 0 then resetLfn s.lfn else s.lfn) =
        lfnIn perCluster lead stale es k → (listing fs s (t ++ r)).map toDirEntry =
        (reported es k).map (report perCluster lead stale es) := by
  intro t
  induction t with
  | nil =>
    intro k s hmap _ _
    have hlen := congrArg length hmap
    rw [map_nil, length_nil, length_drop] at hlen
    rw [nil_append, listing_of_end fs s hre, reported, ← hlen]
    rfl
  | cons x t ih =>
    intro k s hmap hidx hst
    obtain ⟨pos, e⟩ := x
    have hlen := congrArg length hmap
    rw [length_map, length_cons, length_drop] at hlen
    have hk : k < es.length := by omega
    rw [map_cons, drop_eq_getElem_cons hk, cons.injEq] at hmap
    obtain ⟨he, hmap⟩ := hmap
    have he : e = entryAt es k := by rw [entryAt, getD_eq_getElem _ _ hk, ← he]
    have hpos : pos.index = (lead + k) % perCluster := hidx 0 (by simp)
    have hno : e.kind ≠ .endMarker := by
      rw [he, entryAt, getD_eq_getElem _ _ hk]
      exact hes _ (getElem_mem hk)
    have hr : reported es k = if e.kind = .entry then k :: reported es (k + 1)
      else reported es (k + 1) := by
      have hsub : es.length - k = (es.length - (k + 1)) + 1 := by omega
      rw [reported, hsub, range'_succ, filter_cons, ← he]
      simp only [decide_eq_true_eq]
      rfl
    rw [cons_append, listing, hpos, hr]
    -- the state with which the slot is looked at
    generalize hs' : (if (lead + k) % perCluster = 0 then s.reset else s) = st'
    have hl : st'.lfn = lfnIn perCluster lead stale es k := by
      rw [← hst, ← hs']
      split_ifs <;> rfl
    have hne : ∀ s'' : LfnState, s''.lfn = stepLfn st'.lfn e →
        (listing fs s'' (t ++ r)).map toDirEntry =
          (reported es (k + 1)).map (report perCluster lead stale es) := by
      intro s'' h''
      refine ih (k + 1) s'' hmap (fun i hi => ?_) ?_
      · have := hidx (i + 1) (by simpa using hi)
        rw [getElem_cons_succ] at this
        rw [this]
        congr 1
        omega
      rw [h'', hl, he]
      exact lfnIn_succ perCluster lead stale es k
    cases hki : e.kind with
    | endMarker => exact absurd hki hno
    | deleted => simpa using hne _ (reset_lfn (by simp [hki]) st')
    | longName => simpa using hne _ (append_lfn hki st')
    | volumeLabel => simpa using hne _ (reset_lfn (by simp [hki]) st')
    | entry =>
      simp only [map_cons, if_true]
      rw [hne _ (reset_lfn (by simp [hki]) st'), he,
        toDirEntry_entryInfo fs perCluster lead stale es hl]

lemma listing_deleted (r : List (EntryPos × RawEntry)) :
    ∀ (p : List (EntryPos × RawEntry)) (s : LfnState), (∀ x ∈ p, x.2.kind = .deleted) →
      p ≠ [] → ∃ s', listing fs s (p ++ r) = listing fs s' r ∧ s'.lfn = resetLfn s.lfn := by
  intro p
  induction p with
  | nil => intro s _ h; exact absurd rfl h
  | cons x p ih =>
    intro s hdel _
    obtain ⟨pos, e⟩ := x
    have he : e.kind = .deleted := hdel (pos, e) (by simp)
    have hl : (if pos.index = 0 then s.reset else s).reset.lfn = resetLfn s.lfn := by
      split_ifs <;> simp [LfnState.reset]
    rw [cons_append, listing]
    simp only [he]
    by_cases hp : p = []
    · subst hp
      exact ⟨_, rfl, hl⟩
    obtain ⟨s', h1, h2⟩ := ih (if pos.index = 0 then s.reset else s).reset
      (fun y hy => hdel y (mem_cons_of_mem _ hy)) hp
    refine ⟨s', h1, ?_⟩
    rw [h2, hl, resetLfn_resetLfn]
end

/-! ## Layouts -/

/-- The directory that begins at `start` holds the entries `es`, behind `lead`
deleted slots and in front of the end of the directory. -/
structure Layout (v : Volume) (start lead : ℕ) (es : List RawEntry) : Prop where
  sound : v.fs.Sound
  reliable : v.fs.Reliable
  slots : ∃ l pre rest, IsChain v.link (start :: l) ∧
    (dirSlots v (start :: l)).map Prod.snd = pre ++ es ++ rest ∧ pre.length = lead ∧
    (∀ e ∈ pre, e.kind = .deleted) ∧ ∀ e ∈ rest.head?, e.kind = .endMarker

/-- **What a layout reports**, entry by entry. -/
theorem Layout.listing_reports {v : Volume} {s lead : ℕ} {es : List RawEntry}
    (h : Layout v s lead es) (he : ∀ e ∈ es, e.kind ≠ .endMarker) (stale : Buffer) {f : ℕ}
    (hf : v.fs.maxClusterIndex ≤ f) : ∃ infos : List DirEntryInfo,
      listDirectory f stale v s = some (true, infos.map toDirEntry) ∧
      (∀ name r, findEntry f stale v s name r = some (lookup name r infos)) ∧ infos.map toDirEntry =
        (reported es 0).map (report v.fs.entriesPerCluster lead stale es) := by
  obtain ⟨l, pre, re, hc, hmap, hle, hdel, hend⟩ := h.slots
  have hl : (s :: l).length ≤ f := (length_le_maxClusterIndex hc).trans hf
  refine ⟨listing v.fs ⟨stale, 0⟩ (dirSlots v (s :: l)),
    listDirectory_eq h.sound h.reliable stale hc hl,
    fun name r => findEntry_eq h.sound h.reliable stale name r hc hl, ?_⟩
  have hidx := index_dirSlots v (s :: l)
  generalize dirSlots v (s :: l) = slots at hmap hidx
  obtain ⟨fr, rs, rfl, hfr, hrestS⟩ := map_eq_append_iff.1 hmap
  obtain ⟨p, esS, rfl, hpreS, hesS⟩ := map_eq_append_iff.1 hfr
  have hlenS : p.length = lead := by rw [← hle, ← hpreS, length_map]
  have hidxS : ∀ i (hi : i < esS.length), esS[i].1.index = (lead + (0 + i)) % v.fs.entriesPerCluster := by
    intro i hi
    have := hidx (lead + i) (by simp only [length_append]; omega)
    rw [getElem_append_left (by rw [length_append]; omega), getElem_append_right (by omega)] at this
    simpa [hlenS] using this
  have hr : ∀ x ∈ rs.head?, x.2.kind = .endMarker := by
    intro x hx
    refine hend x.2 ?_
    rw [← hrestS, head?_map]
    exact Option.mem_map_of_mem _ hx
  rw [append_assoc]
  by_cases hp : p = []
  · -- the sequence begins with the directory: its first slot begins a cluster
    subst hp
    obtain rfl : lead = 0 := by simpa using hlenS.symm
    refine listing_from v.fs _ 0 stale es hr he esS 0 _ (by simpa using hesS) hidxS ?_
    rw [if_pos (by simp), lfnIn]
    split_ifs <;> simp [lfnAt]
  obtain ⟨s', h1, h2⟩ := listing_deleted v.fs (esS ++ rs) p ⟨stale, 0⟩
    (fun x hx => hdel x.2 (by rw [← hpreS]; exact mem_map_of_mem hx)) hp
  rw [h1]
  refine listing_from v.fs _ lead stale es hr he esS 0 _ (by simpa using hesS) hidxS ?_
  rw [h2, lfnIn]
  split_ifs <;> simp [lfnAt]

lemma isSome_lookup (n : CString) (r : Bool) (i : List DirEntryInfo) : (lookup n r i).isSome =
      (((i.map toDirEntry).find? fun entry =>
        !(r && !entry.isDirectory) && equalsIgnoreCase entry.name n).filter
          fun entry => entry.name != []).isSome := by
  rw [lookup, find?_map]
  have hc : ((fun entry : DirEntry => !(r && !entry.isDirectory) &&
      equalsIgnoreCase entry.name n) ∘ toDirEntry) = fun info : DirEntryInfo =>
        !(r && !info.isDirectory) && equalsIgnoreCase info.name n := rfl
  rw [hc]
  cases i.find? fun info => !(r && !info.isDirectory) && equalsIgnoreCase info.name n with
  | none => rfl
  | some info =>
    rw [map_some]
    by_cases hn : info.name = [] <;> simp [Option.filter, toDirEntry, hn]

/-- **Two layouts of one sequence of entries are listed alike, and the same names
are found in them, iff every entry has a long name that does not matter, or is
cut off from it in both layouts or in none.** -/
theorem listDirectory_layout_iff {v₁ v₂ : Volume} {start₁ start₂ lead₁ lead₂ : ℕ}
    {es : List RawEntry} (h₁ : Layout v₁ start₁ lead₁ es) (h₂ : Layout v₂ start₂ lead₂ es)
    (hes : ∀ e ∈ es, e.kind ≠ .endMarker) (stale : Buffer) {fuel₁ fuel₂ : ℕ}
    (hfuel₁ : v₁.fs.maxClusterIndex ≤ fuel₁) (hfuel₂ : v₂.fs.maxClusterIndex ≤ fuel₂) :
    ∃ entries₁ entries₂ : List DirEntry,
      listDirectory fuel₁ stale v₁ start₁ = some (true, entries₁) ∧
      listDirectory fuel₂ stale v₂ start₂ = some (true, entries₂) ∧
      ((entries₁ = entries₂ ∧ ∀ name requireDirectory,
          (findEntry fuel₁ stale v₁ start₁ name requireDirectory).map Option.isSome =
            (findEntry fuel₂ stale v₂ start₂ name requireDirectory).map Option.isSome) ↔
        ∀ k < es.length, (entryAt es k).kind = .entry →
          flatName stale es k = decodeSfn (entryAt es k).name ∨
            (CutOff v₁.fs.entriesPerCluster lead₁ es k ↔ CutOff v₂.fs.entriesPerCluster lead₂ es k)) := by
  obtain ⟨i1, hl1, hf1, hr1⟩ := h₁.listing_reports hes stale hfuel₁
  obtain ⟨i2, hl2, hf2, hr2⟩ := h₂.listing_reports hes stale hfuel₂
  refine ⟨_, _, hl1, hl2, ?_⟩
  have hf : i1.map toDirEntry = i2.map toDirEntry →
      ∀ name requireDirectory,
        (findEntry fuel₁ stale v₁ start₁ name requireDirectory).map Option.isSome =
          (findEntry fuel₂ stale v₂ start₂ name requireDirectory).map Option.isSome := by
    intro he name requireDirectory
    rw [hf1, hf2, map_some, map_some, isSome_lookup, isSome_lookup, he]
  rw [and_iff_left_of_imp hf, hr1, hr2, map_inj_left]
  simp only [reported, Nat.sub_zero, mem_filter, mem_range'_1, Nat.zero_le, true_and,
    Nat.zero_add, decide_eq_true_eq, and_imp]
  refine forall₃_congr fun k _ _ => ?_
  simp only [report, DirEntry.mk.injEq, and_true]
  by_cases hc1 : CutOff v₁.fs.entriesPerCluster lead₁ es k <;>
    by_cases hc2 : CutOff v₂.fs.entriesPerCluster lead₂ es k <;> simp [hc1, hc2, eq_comm]

/-! ## One long name in three places -/

/-- A file with the short name `B` and the long name `a`. -/
def longNameEntries : List RawEntry :=
  [fillLfnEntry 0x41 0 [0x61] 0,
    fun j => if j = 0 then 0x42 else if j < 11 then 0x20 else if j = 11 then 0x20 else 0]

/-- These entries behind `lead` deleted slots. -/
def leadSlot (lead m : ℕ) : RawEntry :=
  if m < lead then fun _ => 0xE5
  else if m < lead + 2 then entryAt longNameEntries (m - lead)
  else fun _ => 0

/-- A root directory of two clusters with 16 slots each. -/
def leadVolume (lead : ℕ) : Volume :=
  volumeOf (sampleFs 512 1 16) (fun c => if c = 2 then 3 else if c = 3 then eocMark else 0)
    fun c => slotBytes fun i => leadSlot lead (16 * (c - 2) + i)

lemma sampleFs_sound_small : (sampleFs 512 1 16).Sound :=
  sampleFs_sound (by decide) (by decide) (by decide) (by decide)

lemma leadVolume_layout (lead : ℕ) (h : (range 32).map (leadSlot lead) =
      replicate lead (fun _ => 0xE5) ++ longNameEntries ++ replicate (30 - lead) fun _ => 0) :
    Layout (leadVolume lead) 2 lead longNameEntries where
  sound := sampleFs_sound_small
  reliable := sampleFs_reliable (by decide)
  slots := by
    refine ⟨[3], replicate lead fun _ => 0xE5, replicate (30 - lead) fun _ => 0,
      .cons rfl (.last rfl), ?_, by simp, fun e he => ?_, fun e he => ?_⟩
    · have hcl : ∀ c, (sampleFs 512 1 16).InRange c →
          (clusterSlots (leadVolume lead).fs c ((leadVolume lead).data c)).map Prod.snd =
            (range 16).map fun i => leadSlot lead (16 * (c - 2) + i) := by
        intro c hc
        rw [leadVolume, data_volumeOf sampleFs_sound_small _ _ hc]
        exact map_snd_clusterSlots (sampleFs 512 1 16) c _
      rw [← h, dirSlots, flatMap_cons, flatMap_cons, flatMap_nil, append_nil,
        map_append, hcl 2 (by decide), hcl 3 (by decide)]
      rfl
    · rw [eq_of_mem_replicate he]
      decide
    rw [eq_of_mem_replicate (mem_of_mem_head? he)]
    decide

lemma entriesPerCluster_leadVolume (lead : ℕ) : (leadVolume lead).fs.entriesPerCluster = 16 := by
  show 1 * 512 / entrySize = 16
  decide

lemma kind_long : (entryAt longNameEntries 0).kind = .longName := by
  show (fillLfnEntry 0x41 0 [0x61] 0).kind = .longName
  rw [RawEntry.kind, first_fillLfnEntry, attr_fillLfnEntry]
  decide

lemma kind_short : (entryAt longNameEntries 1).kind = .entry := by decide

lemma longNameEntries_kind : ∀ e ∈ longNameEntries, e.kind ≠ .endMarker := by
  intro e he
  rcases mem_cons.1 he with rfl | he
  · exact fun h => absurd (kind_long.symm.trans h) (by decide)
  rw [mem_singleton.1 he]
  decide

lemma storesFirst_long : (entryAt longNameEntries 0).StoresFirst := by
  right; left
  show (fillLfnEntry 0x41 0 [0x61] 0).first &&& 0x40 ≠ 0
  rw [first_fillLfnEntry]
  decide

lemma cutOff_long_iff (lead : ℕ) : CutOff 16 lead longNameEntries 1 ↔ (lead + 1) % 16 = 0 := by
  constructor
  · rintro ⟨b, hb, hbo, hst⟩
    by_cases hb0 : b = 0
    · exact absurd storesFirst_long (hst 0 (by omega) (by omega))
    · rwa [show b = 1 by omega] at hbo
  · exact fun h => ⟨1, by omega, h, fun j hj hj' => by omega⟩

lemma flatName_long : flatName (fun _ => 0) longNameEntries 1 = [0x61] := by
  have hl : lfnAt (fun _ => 0) longNameEntries 1 =
      appendLfnSegment (resetLfn (resetLfn fun _ => 0)) lfnSize
      (fillLfnEntry (lfnOrder 1 0) 0 [0x61] 0) := by
    rw [lfnAt, lfnAt, stepLfn, kind_long]
    show appendLfnSegment (if (fillLfnEntry 0x41 0 [0x61] 0).first &&& 0x40 ≠ 0 then _ else _) lfnSize
      (fillLfnEntry 0x41 0 [0x61] 0) = _
    rw [first_fillLfnEntry, if_pos (by decide)]
    rfl
  have hseg := @appendLfnSegment_fill [0x61] (by simp) (by decide) 0 (by decide) 0
    (resetLfn (resetLfn fun _ => 0))
  rw [flatName, hl]
  rw [show lfnEntryCount [0x61] = 1 by decide] at hseg
  rw [hseg, if_pos (by decide), Buffer.cString_eq_iff (by simp) (by decide)]
  decide

/-- In the first slots and three slots further the file is listed alike. -/
theorem listDirectory_layout_iff_shifted : ∃ entries₁ entries₂ : List DirEntry,
      listDirectory 16 (fun _ => 0) (leadVolume 0) 2 = some (true, entries₁) ∧
      listDirectory 16 (fun _ => 0) (leadVolume 3) 2 = some (true, entries₂) ∧
      entries₁ = entries₂ := by
  obtain ⟨entries₁, entries₂, h1, h2, hiff⟩ := listDirectory_layout_iff
    (leadVolume_layout 0 rfl) (leadVolume_layout 3 rfl) longNameEntries_kind (fun _ => 0)
    (le_refl 16) (le_refl 16)
  refine ⟨entries₁, entries₂, h1, h2, (hiff.2 fun k hk hki => .inr ?_).1⟩
  have hk1 : k = 1 := by
    have : k ≠ 0 := by
      rintro rfl
      exact absurd (kind_long.symm.trans hki) (by decide)
    have : longNameEntries.length = 2 := rfl
    omega
  rw [hk1]
  exact (cutOff_long_iff 0).trans ((iff_of_false (by decide) (by decide)).trans (cutOff_long_iff 3).symm)

/-- With its long-name slot at the end of one cluster and its short entry at the
beginning of the next, the file is listed as `B` and not found as `a`. -/
theorem listDirectory_cut_name :
    Layout (leadVolume 0) 2 0 longNameEntries ∧ Layout (leadVolume 15) 2 15 longNameEntries ∧
      listDirectory 16 (fun _ => 0) (leadVolume 0) 2 = some (true, [⟨[0x61], false, 0⟩]) ∧
      listDirectory 16 (fun _ => 0) (leadVolume 15) 2 = some (true, [⟨[0x42], false, 0⟩]) ∧
      (findEntry 16 (fun _ => 0) (leadVolume 0) 2 [0x61] false).map Option.isSome = some true ∧
      (findEntry 16 (fun _ => 0) (leadVolume 15) 2 [0x61] false).map Option.isSome = some false := by
  have hl1 := leadVolume_layout 0 rfl
  have hl2 := leadVolume_layout 15 rfl
  obtain ⟨i1, h1, hf1, hr1⟩ := hl1.listing_reports longNameEntries_kind (fun _ => 0) (le_refl 16)
  obtain ⟨i2, h2, hf2, hr2⟩ := hl2.listing_reports longNameEntries_kind (fun _ => 0) (le_refl 16)
  have hr : reported longNameEntries 0 = [1] := by
    show ([0, 1] : List ℕ).filter (fun k => (entryAt longNameEntries k).kind = .entry) = [1]
    simp [kind_long, kind_short]
  have he1 : i1.map toDirEntry = [⟨[0x61], false, 0⟩] := by
    rw [hr1, hr, map_singleton, report, entriesPerCluster_leadVolume,
      if_neg fun h => absurd ((cutOff_long_iff 0).1 h) (by decide), flatName_long]
    rfl
  have he2 : i2.map toDirEntry = [⟨[0x42], false, 0⟩] := by
    rw [hr2, hr, map_singleton, report, entriesPerCluster_leadVolume,
      if_pos ((cutOff_long_iff 15).2 (by decide))]
    rfl
  refine ⟨hl1, hl2, by rw [h1, he1], by rw [h2, he2], ?_, ?_⟩
  · rw [hf1, map_some, isSome_lookup, he1]
    rfl
  rw [hf2, map_some, isSome_lookup, he2]
  rfl
end Menios.Fat32
