import Menios.Fat32.OneFile

/-!
# Reading after a write

A call that changes a file changes the record that lookups return for it, and
nothing else that a path can lead to. So what `fs_file_read` returns after
`fs_file_write` is known for every path.

**Defect.** `fat32_update_dir_entry` reads the size `UINT32_MAX` as "leave the
field". A write that ends at that offset stores its bytes, but the file keeps
its old size.

Results:

* `FileStep.traversePath_eq_map`: paths lead to the same entries as before.
* `fsFileWrite_readsBack_iff`: the file has the bytes of the write, and the other
  files their own, exactly when the write does not end at `UINT32_MAX`, or the
  file had that size before.
-/

namespace Menios.Fat32
open Common List Option DirEntryInfo Bool

/-! ## Reads -/

/-- The path leads to the file at `p`. -/
def LeadsTo (fuel : ℕ) (stack : Stack) (v : Volume) (path : CString) (p : EntryPos) : Prop :=
  ∃ info, traversePath fuel stack v path false = some (some info) ∧ info.isDirectory = false ∧ info.pos = p

section
variable {v : Volume} {ow : Owner → List ℕ} (hs : v.fs.Sound) (hr : v.fs.Reliable)
  (hw : WellFormed v ow) {f : ℕ} (hfuel : v.fs.maxClusterIndex ≤ f)
include hw hfuel in
lemma WellFormed.length_lt (o : Owner) : (ow o).length < f := by
  have hro : IsChain v.link (ow none) := (hw.owned.chain none).resolve_left hw.rootChain
  have := length_add_two_le hro
  rcases hw.owned.chain o with h | h
  · rw [h, length_nil]; omega
  · have := length_add_two_le h; omega

include hs hr hw hfuel
lemma describes_of_traversePath {st : Stack} {ph : CString} (hpath : OrdinaryPath ph)
    {info : DirEntryInfo} (hinfo : traversePath f st v ph false = some (some info))
    (hfile : info.isDirectory = false) : IsFile v ow info.pos ∧ Describes v info info.pos := by
  obtain ⟨r, ht, hres⟩ := traversePath_live hs hr hw hfuel st hpath false
  obtain rfl : r = some info := by rw [hinfo] at ht; exact (Option.some.inj ht).symm
  obtain ⟨o, p, ho, hd, hmem, hde⟩ := (hres info rfl).file hfile
  rw [hde.pos]
  exact ⟨⟨.entry ho hd hmem, hde.dir ▸ hfile⟩, hde⟩

/-- **A read of a file** returns a part of its bytes. -/
lemma fsFileRead_eq {st : Stack} {ph : CString} {info : DirEntryInfo} {p : EntryPos}
    (hinfo : traversePath f (st.call 0) v ph false = some (some info)) (hp : IsFile v ow p)
    (hde : Describes v info p) (offset length : ℕ) : fsFileRead f st v ph offset length =
      some (some (((v.bytes (ow (some p)) 0 (v.slot p).fileSize).drop offset).take length)) := by
  have hro : info.size ≤ (ow (some p)).length * v.fs.clusterSizeBytes := by
    rw [length_of_describes hw hp hde]
    exact le_clustersFor_mul hs _
  rw [fsFileRead, hinfo]
  simp only [hde.dir.trans hp.file, false_eq_true, if_false]
  rw [readChain_eq hs hr (hw.owned.chain _) (firstCluster_of_describes hw hp hde).symm
    (hw.length_lt hfuel _) hro, bytes_eq_take_drop, hde.size]
end

/-! ## Lookups after a step -/

/-- The record of a file whose entry is now `e`. -/
def DirEntryInfo.refresh (p : EntryPos) (e : RawEntry) (info : DirEntryInfo) : DirEntryInfo :=
  if info.isDirectory = false ∧ info.pos = p then
    { info with firstCluster := e.firstCluster, size := e.fileSize, rawEntry := e }
  else info

section
variable {p : EntryPos} {e : RawEntry}
@[simp] lemma refresh_name (info : DirEntryInfo) : (info.refresh p e).name = info.name := by
  unfold refresh; split_ifs <;> rfl

@[simp] lemma refresh_isDirectory (info : DirEntryInfo) :
    (info.refresh p e).isDirectory = info.isDirectory := by
  unfold refresh; split_ifs <;> rfl

@[simp] lemma refresh_pos (info : DirEntryInfo) : (info.refresh p e).pos = info.pos := by
  unfold refresh; split_ifs <;> rfl

lemma refresh_of_isDirectory {info : DirEntryInfo} (h : info.isDirectory = true) :
    info.refresh p e = info :=
  if_neg fun h' => by rw [h] at h'; exact Bool.noConfusion h'.1

lemma refresh_of_ne {info : DirEntryInfo} (h : info.pos ≠ p) : info.refresh p e = info :=
  if_neg fun h' => h h'.2

lemma entryInfo_refresh (fs : Fat32Fs) (st : LfnState) (q : EntryPos) {x : RawEntry}
    (h : q = p → e.name = x.name ∧ e.isDirectory = false ∧ x.isDirectory = false) :
    entryInfo fs st q (if q = p then e else x) = (entryInfo fs st q x).refresh p e := by
  by_cases hq : q = p
  · obtain ⟨hna, he, hx⟩ := h hq
    have hc : (entryInfo fs st q x).isDirectory = false ∧ (entryInfo fs st q x).pos = p := ⟨hx, hq⟩
    rw [refresh, if_pos hc, if_pos hq]
    simp [entryInfo, hna, he, hx]
  · rw [if_neg hq, refresh_of_ne (show (entryInfo fs st q x).pos ≠ p from hq)]

lemma listing_refresh (fs : Fat32Fs) : ∀ {sl : List (EntryPos × RawEntry)} {st : LfnState},
      (∀ x ∈ sl, x.1 = p → x.2.kind = .entry ∧ e.kind = .entry ∧ e.name = x.2.name ∧
        e.isDirectory = false ∧ x.2.isDirectory = false) →
      listing fs st (sl.map fun x => (x.1, if x.1 = p then e else x.2)) =
        (listing fs st sl).map (refresh p e) := by
  intro sl
  induction sl with
  | nil => intro st _; rfl
  | cons x sl ih =>
    intro st h
    obtain ⟨q, x⟩ := x
    have hx := h (q, x) (by simp)
    have ih := fun st => @ih st fun y hy => h y (mem_cons_of_mem _ hy)
    have hki : (if q = p then e else x).kind = x.kind := by
      split_ifs with hq
      · rw [(hx hq).1, (hx hq).2.1]
      · rfl
    rw [map_cons, listing, listing]
    simp only [hki]
    cases hk : x.kind with
    | endMarker => rfl
    | deleted => exact ih _
    | volumeLabel => exact ih _
    | longName =>
      have hq : q ≠ p := fun hq => by
        have := (hx hq).1
        rw [hk] at this
        exact EntryKind.noConfusion this
      simp only [if_neg hq]
      exact ih _
    | entry =>
      simp only [map_cons]
      rw [ih, entryInfo_refresh fs _ q fun hq => (hx hq).2.2]

lemma lookup_map {f : DirEntryInfo → DirEntryInfo} (hna : ∀ info, (f info).name = info.name)
    (hdir : ∀ info, (f info).isDirectory = info.isDirectory) (name : CString) (r : Bool)
    (i : List DirEntryInfo) : lookup name r (i.map f) = (lookup name r i).map f := by
  simp only [lookup, List.find?_map, Function.comp_def, hna, hdir]
  cases i.find? fun info => !(r && !info.isDirectory) && equalsIgnoreCase info.name name with
  | none => rfl
  | some info => simp [Option.filter, hna]; split_ifs <;> rfl
end

section
variable {v v' : Volume} {on : Owner → List ℕ} (hs : v.fs.Sound) (hr : v.fs.Reliable)
  (hw : WellFormed v on) {fl : ℕ} (hfuel : v.fs.maxClusterIndex ≤ fl) {p : EntryPos} {l' : List ℕ}
  {e : RawEntry} (hp : IsFile v on p) (hstep : FileStep v v' p (on (some p)) l' e)
  (hlook : e.kind = (v.slot p).kind ∧ e.name = (v.slot p).name ∧ e.isDirectory = (v.slot p).isDirectory)
include hw hstep in
lemma FileStep.not_mem_of_ne {o : Owner} (hne : o ≠ some p) {c : ℕ} (hc : c ∈ on o) :
    c ∉ on (some p) ∧ c ∉ l' := by
  have h := hw.owned.disjoint o (some p) hne c hc
  exact ⟨h, fun hmem => hw.owned.not_mem_of_free (hstep.fresh c hmem h) o hc⟩

include hw hstep in
lemma FileStep.isChain_of_ne {o : Owner} (hne : o ≠ some p) {c : ℕ} {l : List ℕ} (ho : on o = c :: l) :
    IsChain v.link (c :: l) ∧ IsChain v'.link (c :: l) := by
  have hc : IsChain v.link (on o) := hw.owned.isChain (a := c) (by rw [ho]; simp)
  rw [← ho]
  refine ⟨hc, hc.congr fun d hd => ?_⟩
  obtain ⟨h1, h2⟩ := hstep.not_mem_of_ne hw hne hd
  exact hstep.link d h1 h2

include hs hr hw hfuel hp hstep hlook
lemma FileStep.findEntry_eq_map {o : Owner} {c : ℕ} (hc : DirAt v on o c) (st : Buffer)
    (name : CString) (r : Bool) : findEntry fl st v' c name r =
      (findEntry fl st v c name r).map (Option.map (refresh p e)) := by
  obtain ⟨l, hl⟩ := hc.start
  have hne := WellFormed.owner_ne hc.dir hp.file
  obtain ⟨hch, hc'⟩ := hstep.isChain_of_ne hw hne hl
  have hlen : (c :: l).length ≤ fl := (length_le_maxClusterIndex hch).trans hfuel
  rw [findEntry_eq hs hr _ _ _ hch hlen,
    findEntry_eq (v := v') (hstep.fs ▸ hs) (hstep.fs ▸ hr) _ _ _ hc' hlen, map_some, hstep.fs]
  have hsl : dirSlots v' (c :: l) =
      (dirSlots v (c :: l)).map fun x => (x.1, if x.1 = p then e else x.2) := by
    rw [dirSlots_eq, dirSlots_eq, List.map_map, hstep.fs]
    refine map_congr_left fun q hq => ?_
    have hq := (mem_positions.1 hq).1
    rw [← hl] at hq
    obtain ⟨h1, h2⟩ := hstep.not_mem_of_ne hw hne hq
    simp only [Function.comp_apply, hstep.slot q h1 h2]
  have hk : (v.slot p).kind = .entry := by
    obtain ⟨_, _, _, hmem⟩ := WellFormed.exists_dir hp.live
    have := (mem_entries.1 hmem).2
    rw [RawEntry.isLive, and_eq_true, decide_eq_true_eq] at this
    exact this.1
  rw [hsl, listing_refresh, lookup_map refresh_name refresh_isDirectory]
  intro x hx hxp
  rw [dirSlots_eq, List.mem_map] at hx
  obtain ⟨q, _, rfl⟩ := hx
  obtain rfl : q = p := hxp
  exact ⟨hk, hlook.1.trans hk, hlook.2.1, hlook.2.2.trans hp.file, hp.file⟩

lemma FileStep.traverseLoop_eq_map (st : Stack) (fn : Bool) :
    ∀ (pr : List CString), (∀ part ∈ pr, OrdinaryName part) → ∀ (k : ℕ) {o : Owner} {c : ℕ},
      DirAt v on o c → traverseLoop fl st v' fn k c pr =
        (traverseLoop fl st v fn k c pr).map (Option.map (refresh p e)) := by
  intro pr
  induction pr with
  | nil =>
    intro _ k o c _
    rw [traverseLoop, traverseLoop, map_some, map_some, refresh_of_isDirectory rfl]
  | cons part pr ih =>
    intro hord k o c hc
    have hpa : ∀ part ∈ pr, OrdinaryName part := fun q hq => hord q (mem_cons_of_mem _ hq)
    rw [traverseLoop, traverseLoop]
    by_cases he : part = []
    · rw [if_pos he, if_pos he]
      exact ih hpa k hc
    rw [if_neg he, if_neg he,
      hstep.findEntry_eq_map hs hr hw hfuel hp hlook hc (st.lfn [k]) (part.take 255) false]
    obtain ⟨l, hl⟩ := hc.start
    obtain ⟨r, hf, hr'⟩ := findEntry_live hs hr hw hfuel hc.live hc.dir hl (st.lfn [k])
      (hord part (by simp)).take false
    rw [hf]
    cases r with
    | none => rfl
    | some info =>
      obtain ⟨q, hq, hde, _⟩ := hr' info rfl
      simp only [map_some, refresh_isDirectory]
      by_cases hla : pr = []
      · rw [if_pos hla, if_pos hla]
        split_ifs <;> rfl
      rw [if_neg hla, if_neg hla]
      cases hdir : info.isDirectory with
      | false => rfl
      | true =>
        obtain ⟨o', ho'⟩ := (hw.resolved hc.live hc.dir hq hde).dir hdir
        rw [refresh_of_isDirectory hdir]
        simp only [true_eq_false, if_false]
        exact ih hpa (k + 1) ho'

variable {pt : CString}
/-- **Paths lead to the same entries as before.** -/
theorem FileStep.traversePath_eq_map (st : Stack) (hpath : OrdinaryPath pt)
    (fn : Bool) : traversePath fl st v' pt fn =
      (traversePath fl st v pt fn).map (Option.map (refresh p e)) := by
  rw [traversePath, traversePath, hstep.fs]
  split_ifs with h
  · rw [map_some, map_some, refresh_of_isDirectory rfl]
  · exact hstep.traverseLoop_eq_map hs hr hw hfuel hp hlook st fn _ hpath 0 hw.rootDir

variable {s : Stack}
lemma FileStep.traversePath_file (hpath : OrdinaryPath pt) (h : LeadsTo fl s v pt p) :
    ∃ info, traversePath fl s v' pt false = some (some info) ∧ info.isDirectory = false ∧
      info.pos = p ∧ info.firstCluster = e.firstCluster ∧ info.size = e.fileSize := by
  obtain ⟨info, hinfo, hfile, hpos⟩ := h
  refine ⟨info.refresh p e, ?_, by simpa using hfile, by simpa using hpos, ?_, ?_⟩
  · rw [hstep.traversePath_eq_map hs hr hw hfuel hp hlook s hpath false, hinfo]
    rfl
  · rw [refresh, if_pos ⟨hfile, hpos⟩]
  · rw [refresh, if_pos ⟨hfile, hpos⟩]

/-- **A read of the file** after a step. -/
lemma FileStep.fsFileRead_file (hpath : OrdinaryPath pt)
    (h : LeadsTo fl (s.call 0) v pt p) (hst : l'.headD 0 = e.firstCluster)
    (hro : e.fileSize ≤ l'.length * v.fs.clusterSizeBytes) (offset length : ℕ) :
    fsFileRead fl s v' pt offset length =
      some (some (((v'.bytes l' 0 e.fileSize).drop offset).take length)) := by
  obtain ⟨info, hinfo, hfile, _, hf, hsz⟩ := hstep.traversePath_file hs hr hw hfuel hp hlook hpath h
  have hl : l'.length < fl := by
    rcases hstep.chain with h0 | h0
    · rw [h0]; exact (Nat.zero_le _).trans_lt (hw.length_lt hfuel none)
    have := length_add_two_le h0
    rw [hstep.fs] at this
    omega
  rw [fsFileRead, hinfo]
  simp only [hfile, false_eq_true, if_false]
  rw [hf, hsz, readChain_eq (hstep.fs ▸ hs) (hstep.fs ▸ hr) hstep.chain hst hl
    (by rw [hstep.fs]; exact hro), bytes_eq_take_drop]

/-- **A read of another file** returns what it returned before. -/
lemma FileStep.fsFileRead_other (hpath : OrdinaryPath pt) {q : EntryPos}
    (h : LeadsTo fl (s.call 0) v pt q) (hqp : q ≠ p) (offset length : ℕ) :
    fsFileRead fl s v' pt offset length = fsFileRead fl s v pt offset length := by
  obtain ⟨info, hinfo, hfile, hpos⟩ := h
  obtain ⟨hq, hde⟩ := describes_of_traversePath hs hr hw hfuel hpath hinfo hfile
  rw [hpos] at hq hde
  have hne : some q ≠ some p := by simpa using hqp
  -- the entry of the changed file lies in a directory, not in the file `q`
  have hcl : ∀ c ∈ on (some q), v'.link c = v.link c ∧ v'.data c = v.data c := by
    intro c hc
    obtain ⟨h1, h2⟩ := hstep.not_mem_of_ne hw hne hc
    refine ⟨hstep.link c h1 h2, hstep.data c h1 h2 ?_⟩
    rintro rfl
    obtain ⟨o, _, hd, hmem⟩ := WellFormed.exists_dir hp.live
    exact hw.cluster_not_mem (WellFormed.owner_ne hd hq.file).symm hmem hc
  have hro : info.size ≤ (on (some q)).length * v.fs.clusterSizeBytes := by
    rw [length_of_describes hw hq hde]
    exact le_clustersFor_mul hs _
  have hi' : traversePath fl (s.call 0) v' pt false = some (some info) := by
    rw [hstep.traversePath_eq_map hs hr hw hfuel hp hlook _ hpath false, hinfo, map_some,
      map_some, refresh_of_ne (by rw [hde.pos]; exact hqp)]
  rw [fsFileRead_eq hs hr hw hfuel hinfo hq hde, fsFileRead, hi']
  simp only [hde.dir.trans hq.file, false_eq_true, if_false]
  rw [readChain_eq (hstep.fs ▸ hs) (hstep.fs ▸ hr)
      ((hw.owned.chain (some q)).imp id fun hch => hch.congr fun c hc => (hcl c hc).1)
      (firstCluster_of_describes hw hq hde).symm (hw.length_lt hfuel _)
      (by rw [hstep.fs]; exact hro), bytes_eq_take_drop,
    bytes_congr hstep.fs (fun c hc => (hcl c hc).2) (by rw [Nat.zero_add]; exact hro), hde.size]
end

/-! ## Reads after a write -/

/-- What reads must show after `buffer` was written at `offset` to the file at `p`,
which had the given contents: this file has the new bytes, and every other file
reads as before. -/
structure ReadsBack (fuel : ℕ) (v v' : Volume) (p : EntryPos) (contents : List UInt8) (offset : ℕ)
    (buffer : List UInt8) : Prop where
  size : ∀ stack path, OrdinaryPath path → LeadsTo fuel stack v path p →
    ∃ info, traversePath fuel stack v' path false = some (some info) ∧ info.isDirectory = false ∧
      info.pos = p ∧ info.size = max contents.length (offset + buffer.length)
  file : ∀ stack path, OrdinaryPath path → LeadsTo fuel (stack.call 0) v path p → ∀ off len,
    fsFileRead fuel stack v' path off len = some (some
      (((contents.take offset ++ buffer ++ contents.drop (offset + buffer.length)).drop off).take len))
  other : ∀ stack path q, OrdinaryPath path → LeadsTo fuel (stack.call 0) v path q → q ≠ p →
    ∀ off len, fsFileRead fuel stack v' path off len = fsFileRead fuel stack v path off len

lemma bytes_after_write {o n : ℕ → UInt8} {size offset z : ℕ} {buffer : List UInt8}
    (hoff : offset ≤ size)
    (hnew : ∀ k < max size (offset + buffer.length), n k = writtenByte size offset buffer z o k) :
    (List.range (max size (offset + buffer.length))).map n =
      ((List.range size).map o).take offset ++ buffer ++
        ((List.range size).map o).drop (offset + buffer.length) := by
  apply ext_getElem
  · simp only [length_map, length_range, length_append, length_take, length_drop]
    omega
  intro k h1 h2
  rw [length_map, length_range] at h1
  rw [getElem_map, getElem_range, hnew k h1, writtenByte]
  by_cases hin : offset ≤ k ∧ k < offset + buffer.length
  · rw [if_pos hin, getElem_append_left (by simp; omega), getElem_append_right (by simp; omega),
      getD_eq_getElem _ _ (by omega)]
    congr 1
    simp
    omega
  rw [if_neg hin, if_neg (by omega)]
  by_cases hlt : k < offset
  · rw [getElem_append_left (by simp; omega), getElem_append_left (by simp; omega)]
    simp
  rw [getElem_append_right (by simp; omega)]
  simp only [getElem_drop, getElem_map, getElem_range]
  congr 1
  simp
  omega

section
variable {v v' : Volume} {own : Owner → List ℕ} (hs : v.fs.Sound) (hr : v.fs.Reliable)
  (hw : WellFormed v own) {fuel : ℕ} (hfuel : v.fs.maxClusterIndex ≤ fuel)
  {stack : Stack} {path : CString} (hpath : OrdinaryPath path)
  {info : DirEntryInfo} (hinfo : traversePath fuel (stack.call 0) v path false = some (some info))
  (hfile : info.isDirectory = false)
include hs hr hw hfuel hpath hinfo hfile
/-- A write that returns `true`, as a step of the file. -/
lemma fsFileWrite_step {offset : ℕ} {buffer : List UInt8} (hpos : 0 < buffer.length)
    (hend : offset + buffer.length < 2 ^ 32) {stored : Option ℕ}
    (hret : fsFileWrite fuel stack v path offset buffer = some ⟨true, stored, v'⟩) :
    ∃ l' e, FileStep v v' info.pos (own (some info.pos)) l' e ∧
      (e.kind = (v.slot info.pos).kind ∧ e.name = (v.slot info.pos).name ∧
        e.isDirectory = (v.slot info.pos).isDirectory) ∧ l'.headD 0 = e.firstCluster ∧
      e.fileSize = (if max info.size (offset + buffer.length) = uint32Max then info.size
        else max info.size (offset + buffer.length)) ∧
      max info.size (offset + buffer.length) ≤ l'.length * v.fs.clusterSizeBytes ∧
      ∀ k < l'.length * v.fs.clusterSizeBytes, v'.byteAt l' k =
        writtenByte info.size offset buffer v.fs.clusterSizeBytes
          (fun k => if k < (own (some info.pos)).length * v.fs.clusterSizeBytes then
            v.byteAt (own (some info.pos)) k else 0) k := by
  obtain ⟨hp, hde⟩ := describes_of_traversePath hs hr hw hfuel hpath hinfo hfile
  have hmax : max info.size (offset + buffer.length) < 2 ^ 32 :=
    max_lt (hde.size ▸ RawEntry.fileSize_lt _) hend
  rcases fsFileWrite_cases hs hr hw hfuel hp hde hinfo hpos hend with
    ⟨l', v1, hwr, hstep, hl, hb⟩ | ⟨v1, hwr, _⟩
  · cases hwr.symm.trans hret
    rw [← hde.size] at hstep hl hb
    refine ⟨l', _, hstep, patchEntry_look _ _ _, ?_, ?_, ?_, hb⟩
    · exact (firstCluster_patchEntry _ _ (headD_lt_uint32Max (hstep.fs ▸ hs) hstep.chain)).symm
    · rw [fileSize_patchEntry _ _ hmax, ← hde.size]
    · rw [hl]
      exact le_clustersFor_mul hs _
  · cases hwr.symm.trans hret

variable {contents : List UInt8}
  (hcontents : fsFileRead fuel stack v path 0 info.size = some (some contents)) {offset : ℕ}
  {buffer : List UInt8} (hoff : offset ≤ info.size) (hpos : 0 < buffer.length)
  (hend : offset + buffer.length < 2 ^ 32) {stored : Option ℕ}
  (hret : fsFileWrite fuel stack v path offset buffer = some ⟨true, stored, v'⟩)
include hcontents hoff hpos hend hret
lemma readsBack_iff_stored : ReadsBack fuel v v' info.pos contents offset buffer ↔
    (max info.size (offset + buffer.length) = uint32Max → info.size = uint32Max) := by
  have hle : LeadsTo fuel (stack.call 0) v path info.pos := ⟨info, hinfo, hfile, rfl⟩
  obtain ⟨hp, hde⟩ := describes_of_traversePath hs hr hw hfuel hpath hinfo hfile
  have hro : info.size ≤ (own (some info.pos)).length * v.fs.clusterSizeBytes := by
    rw [length_of_describes hw hp hde]
    exact le_clustersFor_mul hs _
  -- the contents are the bytes of the chain
  obtain rfl : contents = v.bytes (own (some info.pos)) 0 info.size := by
    rw [fsFileRead_eq hs hr hw hfuel hinfo hp hde, ← hde.size, Option.some.injEq,
      Option.some.injEq] at hcontents
    rw [← hcontents, drop_zero, take_of_length_le (by simp)]
  obtain ⟨l', e, hstep, hlook, hsr, hst, hr', hb⟩ :=
    fsFileWrite_step hs hr hw hfuel hpath hinfo hfile hpos hend hret
  constructor
  · -- the stored size tells
    intro hba hse
    obtain ⟨i1, h1, _, _, hs1⟩ := hba.size _ _ hpath hle
    obtain ⟨i2, h2, _, _, _, hs2⟩ := hstep.traversePath_file hs hr hw hfuel hp hlook hpath hle
    obtain rfl : i1 = i2 := by rw [h1] at h2; simpa using h2
    rw [hs2, hst, if_pos hse, Volume.length_bytes, hse] at hs1
    exact hs1
  intro hc
  have hnew : e.fileSize = max info.size (offset + buffer.length) := by
    rw [hst]
    split_ifs with hm
    · rw [hm, hc hm]
    · rfl
  refine ⟨fun st ph hpth hl => ?_, fun st ph hpth hl o l => ?_,
    fun st ph q hpth hl hq o l => ?_⟩
  · obtain ⟨i, hi, hdir, hip, _, his⟩ := hstep.traversePath_file hs hr hw hfuel hp hlook hpth hl
    exact ⟨i, hi, hdir, hip, by rw [his, hnew, Volume.length_bytes]⟩
  · rw [hstep.fsFileRead_file hs hr hw hfuel hp hlook hpth hl hsr (by rw [hnew]; exact hr'), hnew]
    congr 4
    have ha := bytes_after_write hoff fun k hk => hb k (lt_of_lt_of_le hk hr')
    simp only [Volume.bytes, Nat.zero_add]
    rw [ha]
    have hold : (List.range info.size).map (fun k => if k < (own (some info.pos)).length *
        v.fs.clusterSizeBytes then v.byteAt (own (some info.pos)) k else 0) =
          (List.range info.size).map fun i => v.byteAt (own (some info.pos)) i :=
      map_congr_left fun k hk => if_pos ((mem_range.1 hk).trans_le hro)
    rw [hold]
  · exact hstep.fsFileRead_other hs hr hw hfuel hp hlook hpth hl hq o l

/-- **Read after write.** Reads show what was written, and nothing else changed,
unless the file grows to exactly `UINT32_MAX` bytes. -/
theorem fsFileWrite_readsBack_iff : ReadsBack fuel v v' info.pos contents offset buffer ↔
    (offset + buffer.length = uint32Max → info.size = uint32Max) := by
  rw [readsBack_iff_stored hs hr hw hfuel hpath hinfo hfile hcontents hoff hpos hend hret]
  -- a size fits in 32 bits, so the maximum is the sentinel when one of the two is
  have hlt : info.size ≤ uint32Max := by
    have := RawEntry.fileSize_lt (v.slot info.pos)
    rw [← (describes_of_traversePath hs hr hw hfuel hpath hinfo hfile).2.size] at this
    unfold uint32Max
    omega
  constructor
  · intro h hmax
    exact h (by omega)
  intro h hmax
  rcases Nat.le_total (offset + buffer.length) info.size with hle | hle
  · omega
  · exact h (by omega)
end

/-! ## Two writes -/

/-- A write to the file `A` of `OneFile.lean` that needs no further cluster. -/
lemma fsFileWrite_oneFile {fs : Fat32Fs} {n : ℕ} {b : ℕ → Buffer} (hs : fs.Sound) (hr : fs.Reliable)
    (hn : 3 + n ≤ fs.maxClusterIndex) (hro : fs.rootCluster = 2) (size offset : ℕ) (buffer : List UInt8)
    (hsz : size < 2 ^ 32) (hl : n = fs.clustersFor size) (hpos : 0 < buffer.length)
    (hend : offset + buffer.length < 2 ^ 32) (hrm : fs.clustersFor (offset + buffer.length) ≤ n) :
    ∃ info contents v',
      traversePath fs.maxClusterIndex (zeroStack.call 0) (fileWith fs n size b) [0x41] false = some
      (some info) ∧ info.isDirectory = false ∧ info.pos = ⟨2, 0⟩ ∧ info.size = size ∧
      fsFileRead fs.maxClusterIndex zeroStack (fileWith fs n size b) [0x41] 0 size = some (some contents) ∧
      fsFileWrite fs.maxClusterIndex zeroStack (fileWith fs n size b) [0x41] offset buffer =
        some ⟨true, some buffer.length, v'⟩ := by
  have hw := oneFile_wellFormed (b := b) hs hn hro hsz hl
  have hfuel : 0 < fs.maxClusterIndex := by omega
  have hpath : OrdinaryPath [0x41] := by decide
  obtain ⟨info, hinfo, hfile, hip, his⟩ :=
    traversePath_oneFile hs hn hr hro hsz hfuel (zeroStack.call 0)
  obtain ⟨hp, hde⟩ := describes_of_traversePath (v := fileWith fs n size b) hs hr hw
    (le_refl fs.maxClusterIndex) hpath hinfo hfile
  rw [hip] at hp hde
  have hre := fsFileRead_eq (v := fileWith fs n size b) hs hr hw (le_refl fs.maxClusterIndex) hinfo hp hde
    0 size
  rcases fsFileWrite_cases (v := fileWith fs n size b) hs hr hw (le_refl fs.maxClusterIndex) hp hde hinfo
      hpos hend with ⟨l', v', hwr, _⟩ | ⟨_, _, _, _, hlt⟩
  · exact ⟨info, _, v', hinfo, hfile, hip, his, hre, hwr⟩
  exfalso
  rw [oneFileOwn, if_pos rfl, length_range'] at hlt
  exact absurd hlt (show ¬ n < fs.clustersFor _ by omega)

/-- One byte is written over the only byte of a file. -/
theorem fsFileWrite_readsBack_iff_one_byte : ∃ contents v',
    fsFileRead 4 zeroStack (oneFile (sampleFs 512 1 4) 1 1) [0x41] 0 1 = some (some contents) ∧
    fsFileWrite 4 zeroStack (oneFile (sampleFs 512 1 4) 1 1) [0x41] 0 [7] = some ⟨true, some 1, v'⟩ ∧
    ReadsBack 4 (oneFile (sampleFs 512 1 4) 1 1) v' ⟨2, 0⟩ contents 0 [7] := by
  obtain ⟨hs, hr, hw⟩ := oneByte_wellFormed
  obtain ⟨info, contents, v', hinfo, hfile, hip, his, hre, hwr⟩ :=
    fsFileWrite_oneFile (n := 1) (b := fun _ _ => 0) hs hr (by decide) rfl 1 0 [7] (by decide)
    (by decide) (by decide)
      (by decide) (by decide)
  refine ⟨contents, v', hre, hwr, ?_⟩
  rw [← hip]
  refine (fsFileWrite_readsBack_iff hs hr hw (le_refl 4) (by decide) hinfo hfile (his ▸ hre)
    (Nat.zero_le _)
    (by decide) (by decide) hwr).2 fun h => ?_
  cases h

/-- One byte is appended to a file of `UINT32_MAX - 1` bytes: the write succeeds, but
the file keeps its size. -/
theorem fsFileWrite_size_kept : ∃ contents v',
    WellFormed (oneFile (sampleFs 4096 128 8195) 8192 (2 ^ 32 - 2)) (oneFileOwn 8192) ∧
    fsFileRead 8195 zeroStack (oneFile (sampleFs 4096 128 8195) 8192 (2 ^ 32 - 2)) [0x41] 0 (2 ^ 32 - 2) =
      some (some contents) ∧
    fsFileWrite 8195 zeroStack (oneFile (sampleFs 4096 128 8195) 8192 (2 ^ 32 - 2)) [0x41]
    (2 ^ 32 - 2) [7] =
      some ⟨true, some 1, v'⟩ ∧
    ¬ ReadsBack 8195 (oneFile (sampleFs 4096 128 8195) 8192 (2 ^ 32 - 2)) v' ⟨2, 0⟩ contents
      (2 ^ 32 - 2) [7] := by
  have hs : (sampleFs 4096 128 8195).Sound := sampleFs_sound (by decide) (by decide) (by decide)
    (by decide)
  have hr : (sampleFs 4096 128 8195).Reliable := sampleFs_reliable (by decide)
  have hw : WellFormed (oneFile (sampleFs 4096 128 8195) 8192 (2 ^ 32 - 2)) (oneFileOwn 8192) :=
    oneFile_wellFormed hs (by decide) rfl (by decide) (by decide)
  obtain ⟨info, contents, v', hinfo, hfile, hip, his, hre, hwr⟩ :=
    fsFileWrite_oneFile (n := 8192) (b := fun _ _ => 0) hs hr (by decide) rfl (2 ^ 32 - 2)
    (2 ^ 32 - 2) [7] (by decide)
      (by decide) (by decide) (by decide) (by decide)
  refine ⟨contents, v', hw, hre, hwr, ?_⟩
  have hr' : fsFileRead 8195 zeroStack (oneFile (sampleFs 4096 128 8195) 8192 (2 ^ 32 - 2)) [0x41] 0
      info.size = some (some contents) := by
    rw [his]
    exact hre
  rw [← hip, readsBack_iff_stored hs hr hw (le_refl 8195) (by decide) hinfo hfile hr' his.ge
    (by decide) (by decide) hwr, his]
  decide
end Menios.Fat32
