import Menios.User.Vm

/-!
# Clones of an address space

Model of `vm_clone` in `src/kernel/user/vm.c` (lines 298-369).
-/

namespace Menios.User
open Common Mem

namespace Space
/-- `memcpy` of a page in physical memory. -/
def copyPage (bytes : ℕ → UInt8) (dest src : ℕ) : ℕ → UInt8 :=
  fun x => if dest ≤ x ∧ x < dest + pageSize then bytes (src + (x - dest)) else bytes x

/-- The body of the loop of `clone_region` (lines 328-349) for one page; `source` is the root
of the process that is cloned. -/
def clonePage (s : Space) (source : ℕ) (flags : RegionFlags) (index : ℕ) (vaddr : UInt64) :
    Option (Bool × Space) :=
  match s.paging.getMapping source vaddr with
  | none => some (true, s)
  | some (srcPhys, _, _) =>
    match s.paging.pmm.pmmAllocPages 1 with
    | none => none
    | some (dstPhys, pmm) =>
      let s := { s with paging := { s.paging with pmm := pmm } }
      if dstPhys = 0 then some (false, s)
      else
        let s := { s with bytes := copyPage s.bytes dstPhys srcPhys }
        match s.paging.mapPageInRoot s.root vaddr dstPhys.toUInt64 flags.write flags.user with
        | none => none
        | some (false, paging) => ({ s with paging := paging }.freePage dstPhys).map (false, ·)
        | some (true, paging) =>
          let s := { s with paging := paging }.noteMapping index vaddr 4096
          -- the result of `proc_register_user_segment` is not looked at
          some (true, { s with
            segments := (registerUserSegment s.segments dstPhys.toUInt64 1).getD s.segments })

/-- The loop of `clone_region` with `left` pages to go. -/
def clonePages (source : ℕ) (flags : RegionFlags) (index : ℕ) (start : UInt64) :
    ℕ → ℕ → Space → Option (Bool × Space)
  | _, 0, s => some (true, s)
  | page, left + 1, s =>
    (s.clonePage source flags index (pageAt start page)).bind fun (ok, s) =>
      if ok then clonePages source flags index start (page + 1) left s else some (false, s)

/-- `clone_end` (lines 315-318). -/
def cloneEnd (r : Region) : UInt64 :=
  if r.committedTop % 4096 ≠ 0 then pageAlignDown (r.committedTop + 4095) else r.committedTop

/-- `clone_region` (lines 298-354). -/
def cloneRegion (s : Space) (source : ℕ) (r : Region) : Option (Bool × Space) :=
  if r.type = .shared then some (true, s)
  else
    match vmRegionAdd s.regions r.base r.length r.type r.flags with
    | none => some (false, s)
    | some regions =>
      let s := { s with regions := regions }
      match vmRegionFind s.regions r.base with
      | none => some (false, s)
      | some index =>
        let start := pageAlignDown r.committedBase
        if cloneEnd r ≤ start then some (true, s)
        else
          (clonePages source r.flags index start 0 ((cloneEnd r - start) / 4096).toNat s).map
            fun (ok, s) => (ok, if ok then
              { s with regions := s.regions.modify index fun r' =>
                  { r' with committedBase := r.committedBase, committedTop := r.committedTop } }
            else s)

/-- `vm_clone` (lines 356-369) from a process with the root `source` and these regions. -/
def vmClone (source : ℕ) : List Region → Space → Option (Bool × Space)
  | [], s => some (true, s)
  | r :: rest, s =>
    (s.cloneRegion source r).bind fun (ok, s) =>
      if ok then vmClone source rest s else some (false, s)
end Space
end Menios.User
