import Mathlib.Data.List.AList

namespace YirangMQ

/-!
# Files

A file system as a finite map from paths to contents.  Its operations are the primitives of a
program over files; each is atomic.

* `Files.create`, `Files.rename`, `Files.remove`, `Files.read` — the primitives;
* `Files.errorMessage` — the text of an error code;
* `Files.renamed`, `lookup_renamed` — where a rename leaves every path.
-/

/-- Files with paths in `P` and contents in `C`. -/
abbrev Files (P C : Type) := AList fun _ : P => C

namespace Files

variable {P C : Type} [DecidableEq P]

/-- Write a whole file, replacing the one that is there. -/
def create (path : P) (content : C) (files : Files P C) : Except String (Unit × Files P C) :=
  .ok ((), files.insert path content)

/-- The files after `src` has taken the place of `dest`. -/
def renamed (src dest : P) (content : C) (files : Files P C) : Files P C :=
  (files.erase src).insert dest content

/-- Rename a file, replacing the one at the destination. -/
def rename (src dest : P) (files : Files P C) : Except String (Unit × Files P C) :=
  match files.lookup src with
  | none => .error "No such file or directory"
  | some content => .ok ((), files.renamed src dest content)

/-- Read a whole file. -/
def read (path : P) (files : Files P C) : Except String (C × Files P C) :=
  match files.lookup path with
  | none => .error "cannot open file"
  | some content => .ok (content, files)

/-- Remove a file; a missing one is no error. -/
def remove (path : P) (files : Files P C) : Except String (Unit × Files P C) :=
  .ok ((), files.erase path)

/-- `ec.message()` after an operation that puts its outcome into the error code. -/
def errorMessage : Except String Unit → String
  | .ok () => "Success"
  | .error e => e

variable {files : Files P C} {src dest path : P} {content : C}

theorem lookup_insert' (path' : P) :
    (files.insert path content).lookup path' =
      if path' = path then some content else files.lookup path' := by
  by_cases h : path' = path
  · rw [if_pos h, h, AList.lookup_insert]
  · rw [if_neg h, AList.lookup_insert_ne h]

theorem lookup_erase' (path' : P) :
    (files.erase path).lookup path' = if path' = path then none else files.lookup path' := by
  by_cases h : path' = path
  · rw [if_pos h, h, AList.lookup_erase]
  · rw [if_neg h, AList.lookup_erase_ne h]

theorem lookup_renamed (path : P) :
    (files.renamed src dest content).lookup path =
      if path = dest then some content else if path = src then none else files.lookup path := by
  rw [renamed, lookup_insert', lookup_erase']

end Files

end YirangMQ
