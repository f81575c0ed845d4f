import Menios.Fat32.Directory

/-!
# Paths

Model of `fat32_traverse_path` (`src/kernel/fs/fat32/fat32.c`, lines 1932-2008).

What a function finds on the stack when it is called is arbitrary. A `Stack`
holds that for all calls below a call: the place of a call is the list of the
numbers of the calls that lead to it.
-/

namespace Menios.Fat32
open Common

/-! ## Model -/

/-- What the stack holds, for every call: where `lfn` of the iterator lies, and
where a caller keeps a `fat32_dir_entry_info_t`. -/
structure Stack where
  lfn : List ℕ → Buffer
  info : List ℕ → DirEntryInfo

/-- The stack below call number `k`. -/
def Stack.call (stack : Stack) (k : ℕ) : Stack :=
  ⟨fun calls => stack.lfn (k :: calls), fun calls => stack.info (k :: calls)⟩

/-- The record of the root directory (lines 1937-1943). -/
def rootInfo (fs : Fat32Fs) : DirEntryInfo where
  name := []
  isDirectory := true
  firstCluster := fs.rootCluster
  size := 0
  dirCluster := 0
  dirEntryIndex := 0
  lfnEntries := 0
  rawEntry := fun _ => 0

/-- The loop of `fat32_traverse_path` (lines 1952-2007) over the parts of the path
between slashes; empty parts are skipped. A part is the last component when
nothing follows it, not even a slash. -/
def traverseLoop (fuel : ℕ) (stack : Stack) (v : Volume) (finalMustBeDirectory : Bool) :
    ℕ → ℕ → List CString → Option (Option DirEntryInfo)
  | _, currentCluster, [] =>
    some (some { stack.info [] with
      isDirectory := true, firstCluster := currentCluster, dirCluster := currentCluster,
      dirEntryIndex := 0, rawEntry := fun _ => 0 })
  | k, currentCluster, part :: parts =>
    if part = [] then traverseLoop fuel stack v finalMustBeDirectory k currentCluster parts
    else
      match findEntry fuel (stack.lfn [k]) v currentCluster (part.take 255) false with
      | none => none
      | some none => some none
      | some (some info) =>
        if parts = [] then
          if finalMustBeDirectory && !info.isDirectory then some none else some (some info)
        else if info.isDirectory = false then some none
        else traverseLoop fuel stack v finalMustBeDirectory (k + 1) info.firstCluster parts

/-- `fat32_traverse_path` (lines 1932-2008). -/
def traversePath (fuel : ℕ) (stack : Stack) (v : Volume) (path : CString)
    (finalMustBeDirectory : Bool) : Option (Option DirEntryInfo) :=
  if path = [] ∨ path = [0x2F] then some (some (rootInfo v.fs))
  else traverseLoop fuel stack v finalMustBeDirectory 0 v.fs.rootCluster (path.splitOn 0x2F)
end Menios.Fat32
