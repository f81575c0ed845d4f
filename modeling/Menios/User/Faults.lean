import Menios.User.Build

/-!
# Page faults

`vm_region_handle_page_fault` (`src/kernel/user/vm_region.c`, lines 170-197) for a page that is not
present.

**Defect.** A region keeps two water marks instead of what is mapped. A fault above the lower mark
(lines 97-99) or below the upper one (lines 141-143) counts as resolved and nothing is mapped: the
instruction faults again, for ever. So a stack that is touched at a low page first never gets
the pages above it.

Results:

* `page_fault_resolved_iff`: in every state that faults lead to, a fault that is reported as handled
  is resolved if and only if the page lies beyond the mark of its region.
-/

namespace Menios.User.Space
open Mem.Paging Option
variable {s₀ s s' : Space} {v : UInt64} {write : Bool}
/-- Page faults of a process one after the other. A process whose fault is not handled is killed,
so all of them were handled. -/
inductive Faulted (s₀ : Space) : Space → Prop
  | start : Faulted s₀ s₀
  | fault {s s' : Space} {v : UInt64} {write : Bool} (h : Faulted s₀ s) (hnone : s.mapping v = none)
      (hrun : s.handlePageFault v write = some (true, s')) : Faulted s₀ s'

/-- The faults of a run keep the address space sound. -/
lemma Faulted.sound (h : Faulted s₀ s) (hsound : s₀.Sound) : s.Sound := by
  induction h with
  | start => exact hsound
  | @fault s s' v write _ hnone hrun ih =>
    obtain ⟨ok, s₁, hspec, hok, -⟩ := handlePageFault_spec write ih hnone
    cases hspec.symm.trans hrun
    exact (hok rfl).1.sound

/-- In every state of a run a fault that is handled is resolved if and only if the region had not
come past the page yet. -/
theorem page_fault_resolved_iff (h₀ : s₀.Sound) (hfaults : Faulted s₀ s) (hnone : s.mapping v = none)
    (hrun : s.handlePageFault v write = some (true, s')) :
    s'.Sound ∧ (s.Resolves v s' ↔ s.Supplies v write) := by
  obtain ⟨ok, s1, hsp, -, hno, hy⟩ := handlePageFault_spec write (hfaults.sound h₀) hnone
  cases hsp.symm.trans hrun
  refine ⟨(hfaults.fault hnone hrun).sound h₀, fun hr => ?_, fun hs => hy hs rfl⟩
  by_contra hsu
  obtain ⟨⟨index, r, a, -, -, hmap⟩, -⟩ := hr
  rw [hno hsu rfl, hnone] at hmap
  cases hmap

/-- A stack of three pages, of which none is mapped, as `vm_region_add` makes it. -/
def stackSpace : Space :=
  { newSpace with regions := [
      { base := 0x1000, length := 0x3000, type := .stack, committedBase := 0x4000
        committedTop := 0x4000, flags := { read := true, write := true, exec := false, user := true
                                           growDown := true, growUp := false } }] }

lemma sound_stackSpace : stackSpace.Sound := { fresh_newSpace.1 with }

/-- The page at the top is touched first. -/
theorem page_fault_resolved_at_top :
    ∃ s', stackSpace.handlePageFault 0x3000 true = some (true, s') ∧
      stackSpace.Resolves 0x3000 s' := by
  have hc : (stackSpace.handlePageFault 0x3000 true).map Prod.fst = some true := by decide +kernel
  obtain ⟨⟨ok, s'⟩, hr, rfl⟩ := map_eq_some_iff.1 hc
  refine ⟨s', hr, (page_fault_resolved_iff sound_stackSpace .start (by decide +kernel) hr).2.2 ?_⟩
  exact ⟨0, _, by decide, rfl, fun _ => rfl, .inl ⟨rfl, by decide, by decide⟩⟩

/-- The lowest page is touched first. The fault at the page above it is reported as handled, and the
page is not mapped. -/
theorem page_fault_left_unmapped : ∃ s₁ s₂, Faulted stackSpace s₁ ∧ s₁.mapping 0x2000 = none ∧
    s₁.handlePageFault 0x2000 true = some (true, s₂) ∧ ¬ s₁.Resolves 0x2000 s₂ := by
  have hc : ((stackSpace.handlePageFault 0x1000 true).bind fun r =>
      (r.2.handlePageFault 0x2000 true).map fun r' =>
        (r.1, (r.2.mapping 0x2000).isNone, r'.1, (r'.2.mapping 0x2000).isNone)) =
      some (true, true, true, true) := by
    decide +kernel
  obtain ⟨⟨o1, s₁⟩, h1, hr⟩ := bind_eq_some_iff.1 hc
  obtain ⟨⟨o2, s₂⟩, h2, he⟩ := map_eq_some_iff.1 hr
  simp only [Prod.mk.injEq, isNone_iff_eq_none] at he
  obtain ⟨rfl, hm1, rfl, hm2⟩ := he
  refine ⟨s₁, s₂, .fault .start (by decide +kernel) h1, hm1, h2, fun hresolves => ?_⟩
  obtain ⟨⟨_, _, _, _, _, hmap⟩, -⟩ := hresolves
  exact absurd (hm2.symm.trans hmap) (by simp)
end Menios.User.Space
