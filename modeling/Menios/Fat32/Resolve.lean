import Menios.Fat32.Integrity

/-!
# Lookups in a well-formed volume

A path without the components `.` and `..` leads from the root directory through
live directories, so `fat32_find_entry` and `fat32_traverse_path` return (with
enough fuel), and what they return describes a live owner.

Results:

* `findEntry_live`: an entry found in a live directory is a live entry of it.
* `traversePath_live`: a path leads to a live directory or to a live file.
-/

namespace Menios.Fat32
open Common List Option

/-! ## What a listing shows -/

/-- `info` describes the slot `p`. -/
structure Describes (v : Volume) (info : DirEntryInfo) (p : EntryPos) : Prop where
  pos : info.pos = p
  raw : info.rawEntry = v.slot p
  dir : info.isDirectory = (v.slot p).isDirectory
  first : info.firstCluster = if (v.slot p).firstCluster = 0 ∧ (v.slot p).isDirectory = true
    then v.fs.rootCluster else (v.slot p).firstCluster
  size : info.size = (v.slot p).fileSize

lemma describes_entryInfo (v : Volume) (s : LfnState) (p : EntryPos) :
    Describes v (entryInfo v.fs s p (v.slot p)) p := ⟨rfl, rfl, rfl, rfl, rfl⟩

lemma mem_listing (fs : Fat32Fs) {i : DirEntryInfo} :
    ∀ {s : List (EntryPos × RawEntry)} {st : LfnState}, i ∈ listing fs st s →
      ∃ x ∈ s.takeWhile (fun x => x.2.kind ≠ .endMarker), x.2.kind = .entry ∧
        ∃ s', i = entryInfo fs s' x.1 x.2 := by
  intro s
  induction s with
  | nil => intro st h; simp [listing] at h
  | cons x s ih =>
    intro st h
    obtain ⟨pos, e⟩ := x
    rw [listing] at h
    have hl : ∀ s', i ∈ listing fs s' s → e.kind ≠ .endMarker →
        ∃ x ∈ ((pos, e) :: s).takeWhile (fun x => x.2.kind ≠ .endMarker), x.2.kind = .entry ∧
          ∃ s', i = entryInfo fs s' x.1 x.2 := by
      intro s' hmem hk
      obtain ⟨x, hx, hre⟩ := ih hmem
      refine ⟨x, ?_, hre⟩
      rw [takeWhile_cons_of_pos (by simpa using hk)]
      exact mem_cons_of_mem _ hx
    cases hk : e.kind with
    | endMarker => simp [hk] at h
    | deleted => exact hl _ (by simpa only [hk] using h) (by simp [hk])
    | longName => exact hl _ (by simpa only [hk] using h) (by simp [hk])
    | volumeLabel => exact hl _ (by simpa only [hk] using h) (by simp [hk])
    | entry =>
      simp only [hk] at h
      rcases mem_cons.1 h with h | h
      · refine ⟨(pos, e), ?_, hk, _, h⟩
        rw [takeWhile_cons_of_pos (by simp [hk])]
        exact mem_cons_self
      · exact hl _ h (by simp [hk])

/-- Entries at the beginning of a directory are shown under their short names. -/
lemma mem_listing_front (fs : Fat32Fs) {info : DirEntryInfo} {r : List (EntryPos × RawEntry)} :
    ∀ {fr : List (EntryPos × RawEntry)} {s : LfnState}, (∀ x ∈ fr, x.2.kind = .entry) →
      (s.lfn 0 = 0 ∨ ∀ x ∈ fr.head?, x.1.index = 0) → info ∈ listing fs s (fr ++ r) →
        (∃ x ∈ fr, info.name = decodeSfn x.2.name) ∨ ∃ s', info ∈ listing fs s' r := by
  intro fr
  induction fr with
  | nil => intro s _ _ h; exact .inr ⟨s, h⟩
  | cons x fr ih =>
    intro s he hst h
    obtain ⟨pos, e⟩ := x
    have hk : e.kind = .entry := he (pos, e) (by simp)
    have hem : (if pos.index = 0 then s.reset else s).lfn 0 = 0 := by
      split_ifs with hi
      · simp [LfnState.reset, resetLfn, Buffer.set_apply]
      · exact hst.resolve_right fun h0 => hi (h0 (pos, e) (by simp))
    rw [cons_append, listing] at h
    simp only [hk] at h
    rcases mem_cons.1 h with h | h
    · left
      refine ⟨(pos, e), by simp, ?_⟩
      rw [h, entryInfo]
      simp [hem]
    have hre : (if pos.index = 0 then s.reset else s).reset.lfn 0 = 0 := by
      simp [LfnState.reset, resetLfn, Buffer.set_apply]
    exact (ih (fun y hy => he y (mem_cons_of_mem _ hy)) (.inl hre) h).imp
      (Exists.imp fun _ hy => ⟨mem_cons_of_mem _ hy.1, hy.2⟩) id

lemma takeWhile_dirSlots (v : Volume) (c : List ℕ) :
    (dirSlots v c).takeWhile (fun x => x.2.kind ≠ .endMarker) =
      (v.visible c).map fun p => (p, v.slot p) := by
  rw [dirSlots_eq, takeWhile_map]
  rfl

/-- The names a path without `.` and `..` may look up. -/
def OrdinaryName (name : CString) : Prop := name ≠ [0x2E] ∧ name ≠ [0x2E, 0x2E]

instance (name : CString) : Decidable (OrdinaryName name) := inferInstanceAs (Decidable (_ ∧ _))

/-- A component is cut off behind 255 bytes. -/
lemma OrdinaryName.take {p : CString} (h : OrdinaryName p) : OrdinaryName (p.take 255) := by
  have hsh : (p.take 255).length < 255 → p.take 255 = p := fun hlt =>
    take_of_length_le (by rw [length_take] at hlt; omega)
  constructor
  · intro h'
    rw [hsh (by rw [h']; decide)] at h'
    exact h.1 h'
  intro h'
  rw [hsh (by rw [h']; decide)] at h'
  exact h.2 h'

lemma upcase_dot {c : UInt8} (h : upcase 0x2E = upcase c) : c = 0x2E := by
  revert h
  have : ∀ c : UInt8, upcase 0x2E = upcase c → c = 0x2E := by decide +kernel
  exact this c

/-- `.` and `..` compare equal only to themselves. -/
lemma equalsIgnoreCase_dot {n : CString} (hn : OrdinaryName n) {d : CString}
    (hdot : d = [0x2E] ∨ d = [0x2E, 0x2E]) : equalsIgnoreCase d n = false := by
  by_contra h
  rw [Bool.not_eq_false] at h
  rcases hdot with rfl | rfl
  · match n with
    | [] => simp [equalsIgnoreCase] at h
    | a :: as =>
      simp only [equalsIgnoreCase] at h
      split_ifs at h with ha
      have ha := upcase_dot (not_not.1 ha)
      cases as with
      | nil => exact hn.1 (by rw [ha])
      | cons b as => simp at h
  match n with
  | [] => simp [equalsIgnoreCase] at h
  | [a] => simp only [equalsIgnoreCase] at h; split_ifs at h; simp at h
  | a :: b :: as =>
    simp only [equalsIgnoreCase] at h
    split_ifs at h with ha hb
    have ha := upcase_dot (not_not.1 ha)
    have hb := upcase_dot (not_not.1 hb)
    cases as with
    | nil => exact hn.2 (by rw [ha, hb])
    | cons c as => simp at h

/-! ## Lookups -/
section
variable {v : Volume} {ow : Owner → List ℕ} (hs : v.fs.Sound) (hr : v.fs.Reliable)
  (hw : WellFormed v ow) {f : ℕ} (hfuel : v.fs.maxClusterIndex ≤ f)
lemma WellFormed.mem_listing_dir (hw : WellFormed v ow) {o : Owner} (ho : Live v ow o)
    (hd : IsDir v o) {i : DirEntryInfo} {s : Buffer}
    (h : i ∈ listing v.fs ⟨s, 0⟩ (dirSlots v (ow o))) :
    ∃ p ∈ v.visible (ow o), (v.slot p).kind = .entry ∧ Describes v i p ∧
      ((v.slot p).isDot = true → i.name = [0x2E] ∨ i.name = [0x2E, 0x2E]) := by
  obtain ⟨x, hx, hk, s', hin⟩ := mem_listing v.fs h
  rw [takeWhile_dirSlots, List.mem_map] at hx
  obtain ⟨p, hp, rfl⟩ := hx
  refine ⟨p, hp, hk, hin ▸ describes_entryInfo v s' p, fun hdot => ?_⟩
  -- a dot entry is one of the first entries, so the decoder's buffer is empty there
  obtain ⟨n, hn1, hn2⟩ := hw.dots o ho hd
  rw [← listing_takeWhile, takeWhile_dirSlots, ← take_append_drop n (v.visible (ow o)),
    map_append] at h
  have hh : ∀ x ∈ (((v.visible (ow o)).take n).map fun p => (p, v.slot p)).head?, x.1.index = 0 := by
    intro x hx
    rw [List.head?_map, Option.mem_map] at hx
    obtain ⟨q, hq, rfl⟩ := hx
    obtain ⟨t, ht⟩ := ( take_prefix n (v.visible (ow o))).trans
      ( takeWhile_prefix fun p => decide ((v.slot p).kind ≠ .endMarker))
    have hmem : q ∈ (positions v.fs (ow o)).head? := by
      rw [← ht, List.head?_append, hq]
      rfl
    exact index_head_positions hmem
  have he : ∀ x ∈ ((v.visible (ow o)).take n).map (fun p => (p, v.slot p)), x.2.kind = .entry := by
    intro x hx
    obtain ⟨q, hq, rfl⟩ := List.mem_map.1 hx
    exact (hn1 q hq).1
  rcases mem_listing_front v.fs he (.inr hh) h with ⟨x, hx, hna⟩ | ⟨st, hl⟩
  · obtain ⟨q, hq, rfl⟩ := List.mem_map.1 hx
    have := (hn1 q hq).2
    simp only [RawEntry.isDot, Bool.or_eq_true, beq_iff_eq] at this
    rwa [hna]
  -- behind them there is none
  exfalso
  obtain ⟨x, hx, _, s'', hi'⟩ := mem_listing v.fs hl
  obtain ⟨q, hq, rfl⟩ := List.mem_map.1 ((takeWhile_sublist _).subset hx)
  have hqp : q = p := by
    have h1 : i.pos = q := by rw [hi']; rfl
    have h2 : i.pos = p := by rw [hin]; rfl
    exact h1.symm.trans h2
  exact hn2 q hq (hqp ▸ ⟨hk, hdot⟩)

include hs hr hw hfuel
/-- **A lookup in a live directory** returns, and finds a live entry. -/
theorem findEntry_live {o : Owner} (ho : Live v ow o) (hd : IsDir v o) {c : ℕ} {l : List ℕ}
    (hc : ow o = c :: l) (s : Buffer) {n : CString} (hna : OrdinaryName n)
    (rd : Bool) : ∃ r, findEntry f s v c n rd = some r ∧
      ∀ info ∈ r, ∃ p ∈ v.entries (ow o), Describes v info p ∧
      equalsIgnoreCase info.name n = true := by
  have hch : IsChain v.link (c :: l) := hc ▸ hw.owned.isChain (i := o) (a := c) (by rw [hc]; simp)
  have hl : (c :: l).length ≤ f := (length_le_maxClusterIndex hch).trans hfuel
  refine ⟨_, findEntry_eq hs hr s n rd hch hl, fun info hin => ?_⟩
  rw [← hc] at hin
  simp only [lookup, mem_def, filter_eq_some_iff] at hin
  obtain ⟨hf, _⟩ := hin
  have hma : equalsIgnoreCase info.name n = true := by
    have := List.find?_some hf
    rw [Bool.and_eq_true] at this
    exact this.2
  obtain ⟨p, hp, hk, hde, hdot⟩ := hw.mem_listing_dir ho hd (List.mem_of_find?_eq_some hf)
  refine ⟨p, mem_entries.2 ⟨hp, ?_⟩, hde, hma⟩
  have hnot : (v.slot p).isDot = false := by
    by_contra hdt
    rw [Bool.not_eq_false] at hdt
    have := equalsIgnoreCase_dot hna (hdot hdt)
    rw [hma] at this
    exact Bool.noConfusion this
  simp [RawEntry.isLive, hk, hnot]
end

/-! ## Paths -/

/-- The parts of a path are never `.` or `..`. -/
def OrdinaryPath (path : CString) : Prop := ∀ part ∈ path.splitOn 0x2F, OrdinaryName part

instance (path : CString) : Decidable (OrdinaryPath path) :=
  inferInstanceAs (Decidable (∀ part ∈ path.splitOn 0x2F, OrdinaryName part))

/-- `c` is the first cluster of the live directory `o`. -/
structure DirAt (v : Volume) (own : Owner → List ℕ) (o : Owner) (c : ℕ) : Prop where
  live : Live v own o
  dir : IsDir v o
  start : ∃ l, own o = c :: l

/-- What a path leads to. -/
structure Resolved (v : Volume) (own : Owner → List ℕ) (info : DirEntryInfo) : Prop where
  dir : info.isDirectory = true → ∃ o, DirAt v own o info.firstCluster
  file : info.isDirectory = false → ∃ o p, Live v own o ∧ IsDir v o ∧ p ∈ v.entries (own o) ∧
    Describes v info p

namespace WellFormed
variable {v : Volume} {on : Owner → List ℕ}
lemma rootDir (hw : WellFormed v on) : DirAt v on none v.fs.rootCluster := by
  refine ⟨.root, trivial, ?_⟩
  have h := hw.root
  cases hc : on none with
  | nil => exact absurd hc hw.rootChain
  | cons c l =>
    rw [hc] at h
    exact ⟨l, by rw [← h]; rfl⟩

lemma resolved (hw : WellFormed v on) {o : Owner} (ho : Live v on o) (hd : IsDir v o) {p : EntryPos}
    (hp : p ∈ v.entries (on o)) {i : DirEntryInfo} (hde : Describes v i p) : Resolved v on i := by
  refine ⟨fun hdir => ?_, fun _ => ⟨o, p, ho, hd, hp, hde⟩⟩
  have hpd : (v.slot p).isDirectory = true := hde.dir ▸ hdir
  by_cases h0 : (v.slot p).firstCluster = 0
  · rw [hde.first, if_pos ⟨h0, hpd⟩]
    exact ⟨none, hw.rootDir⟩
  have hl : Live v on (some p) := .entry ho hd hp
  refine ⟨some p, hl, hpd, ?_⟩
  have hst := hw.start p hl
  rw [hde.first, if_neg fun h => h0 h.1]
  cases hc : on (some p) with
  | nil => rw [hc] at hst; exact absurd hst.symm h0
  | cons c l =>
    rw [hc] at hst
    exact ⟨l, by rw [← hst]; rfl⟩
end WellFormed

section
variable {v : Volume} {own : Owner → List ℕ} (hs : v.fs.Sound) (hr : v.fs.Reliable)
  (hw : WellFormed v own) {fl : ℕ} (hfuel : v.fs.maxClusterIndex ≤ fl)
include hs hr hw hfuel
lemma traverseLoop_live (s : Stack) (fn : Bool) :
    ∀ (pr : List CString), (∀ part ∈ pr, OrdinaryName part) → ∀ (k : ℕ) {o : Owner} {c : ℕ},
      DirAt v own o c →
      ∃ r, traverseLoop fl s v fn k c pr = some r ∧ ∀ info ∈ r, Resolved v own info := by
  intro pr
  induction pr with
  | nil =>
    intro _ k o c hc
    refine ⟨_, rfl, fun info hin => ?_⟩
    obtain rfl := mem_some_iff.1 hin
    exact ⟨fun _ => ⟨o, hc⟩, fun h => Bool.noConfusion h⟩
  | cons part pr ih =>
    intro hord k o c hc
    have hpa : ∀ part ∈ pr, OrdinaryName part := fun q hq => hord q (mem_cons_of_mem _ hq)
    rw [traverseLoop]
    by_cases he : part = []
    · rw [if_pos he]
      exact ih hpa k hc
    rw [if_neg he]
    have hna := (hord part (by simp)).take
    obtain ⟨l, hl⟩ := hc.start
    obtain ⟨r, hf, hr'⟩ := findEntry_live hs hr hw hfuel hc.live hc.dir hl (s.lfn [k]) hna false
    rw [hf]
    cases r with
    | none => exact ⟨none, rfl, by simp⟩
    | some info =>
      obtain ⟨p, hp, hde, _⟩ := hr' info rfl
      have hres := hw.resolved hc.live hc.dir hp hde
      dsimp only
      by_cases hla : pr = []
      · rw [if_pos hla]
        split_ifs
        · exact ⟨none, rfl, by simp⟩
        · exact ⟨some info, rfl, fun i hi => mem_some_iff.1 hi ▸ hres⟩
      rw [if_neg hla]
      cases hdir : info.isDirectory with
      | false => exact ⟨none, by simp, by simp⟩
      | true =>
        obtain ⟨o', ho'⟩ := hres.dir hdir
        rw [if_neg (by simp)]
        exact ih hpa (k + 1) ho'

/-- **A path without `.` and `..`** leads to a live directory or a live file. -/
theorem traversePath_live (s : Stack) {p : CString} (hp : OrdinaryPath p) (fn : Bool) :
    ∃ r, traversePath fl s v p fn = some r ∧ ∀ info ∈ r, Resolved v own info := by
  rw [traversePath]
  split_ifs with h
  · refine ⟨_, rfl, fun info hin => ?_⟩
    obtain rfl := mem_some_iff.1 hin
    exact ⟨fun _ => ⟨none, hw.rootDir⟩, fun h => Bool.noConfusion h⟩
  · exact traverseLoop_live hs hr hw hfuel s fn _ hp 0 hw.rootDir
end
end Menios.Fat32
