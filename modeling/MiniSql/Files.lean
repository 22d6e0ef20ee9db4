import MiniSql.Common

/-!
# Files

The part of the file system the store sees: the contents of regular files by path.

* `FileSystem` gives the content of each path; a file that is not there is `none`.
* `write`, `remove` and `rename` are the operations on whole files; `rename` replaces its target, as on POSIX
  systems.

Directories are left out (`ensure_parent_directory` only makes the parents of a path exist), and so are
failures of the file operations themselves; the modules about faults add them where they matter.  The lemmas
say that an operation changes its own paths and no other one (`write_of_ne`, `remove_of_ne`).
-/

namespace MiniSql

abbrev FileSystem := CString → Option Bytes

namespace FileSystem

/-- The whole content of `path` becomes `content`. -/
def write (files : FileSystem) (path : CString) (content : Bytes) : FileSystem :=
  fun p => if p = path then some content else files p

/-- `remove`. -/
def remove (files : FileSystem) (path : CString) : FileSystem :=
  fun p => if p = path then none else files p

/-- `rename`: an existing target is replaced; `none` if there is nothing to rename. -/
def rename (files : FileSystem) (old new : CString) : Option FileSystem :=
  (files old).map fun content => (files.remove old).write new content

@[simp] theorem write_self (files : FileSystem) (path : CString) (content : Bytes) :
    files.write path content path = some content := if_pos rfl

theorem write_of_ne (files : FileSystem) {path p : CString} (h : p ≠ path) (content : Bytes) :
    files.write path content p = files p := if_neg h

theorem remove_of_ne (files : FileSystem) {path p : CString} (h : p ≠ path) :
    files.remove path p = files p := if_neg h

/-- Writing back what is there changes nothing. -/
theorem write_same {files : FileSystem} {path : CString} {content : Bytes}
    (h : files path = some content) : files.write path content = files := by
  funext p
  by_cases hp : p = path
  · subst hp
    rw [write_self, h]
  · exact write_of_ne files hp content

@[simp] theorem write_write (files : FileSystem) (path : CString) (c₁ c₂ : Bytes) :
    (files.write path c₁).write path c₂ = files.write path c₂ := by
  funext p
  by_cases hp : p = path
  · subst hp
    rw [write_self, write_self]
  · rw [write_of_ne _ hp, write_of_ne _ hp, write_of_ne _ hp]

end FileSystem

end MiniSql
