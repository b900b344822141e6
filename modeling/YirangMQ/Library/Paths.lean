import Mathlib.Data.List.Basic
import Mathlib.Data.List.TakeWhile

namespace YirangMQ

/-!
# Lexical paths

A directory as the names that lead to it, deepest first; the name `/` stands for the root of
the file system.  A path is followed name by name: an empty name and `.` stay, and `..` goes
to the parent, which the start of a relative path keeps as a name.

* `follow`, `resolve` — following a path from a directory;
* `cText` — the part of a text that the functions of the file system read;
* `IsName`, `resolve_name` — a name leads to the entry of that name;
* `Inside` — the files of a directory and of those below it;
* `resolve_file`, `resolve_names` — where file names and paths of several names lead to.
-/

/-- A directory, by the names that lead to it, deepest first. -/
abbrev Directory := List String

/-- The directory or file of a name in a directory. -/
def follow (dir : Directory) (name : String) : Directory :=
  if name = "" ∨ name = "." then dir
  else if name = ".." then
    match dir with
    | [] => [".."]
    | ".." :: above => ".." :: ".." :: above
    | ["/"] => ["/"]
    | _ :: above => above
  else name :: dir

/-- The names between the slashes of a path. -/
def pathNames (path : String) : List String := (path.toList.splitOn '/').map String.ofList

/-- The path is absolute. -/
def isAbsolute (path : String) : Bool := path.toList.head? = some '/'

/-- `dir / path`: an absolute path replaces the directory. -/
def resolve (dir : Directory) (path : String) : Directory :=
  (pathNames path).foldl follow (if isAbsolute path then ["/"] else dir)

/-- What a C function takes a text for: the part before its first NUL character. -/
def cText (text : String) : String := String.ofList (text.toList.takeWhile (· ≠ '\x00'))

/-- A text without a NUL character is not cut. -/
theorem cText_of_plain {text : String} (h : '\x00' ∉ text.toList) : cText text = text := by
  have hall : ∀ c ∈ text.toList, decide (c ≠ '\x00') = true := by
    intro c hc
    exact decide_eq_true fun heq => h (heq ▸ hc)
  rw [cText, List.takeWhile_eq_self_iff.mpr hall, String.ofList_toList]

/-- The text is a name in a directory. -/
def IsName (text : String) : Prop :=
  text ≠ "" ∧ text ≠ "." ∧ text ≠ ".." ∧ ∀ c ∈ text.toList, c ≠ '/' ∧ c.toNat ≠ 0

/-- Whether a text is a name can be computed. -/
instance (text : String) : Decidable (IsName text) :=
  let all := List.decidableBAll (fun c => c ≠ '/' ∧ c.toNat ≠ 0) text.toList
  @instDecidableAnd _ _ _ (@instDecidableAnd _ _ _ (@instDecidableAnd _ _ _ all))

/-- A name has no NUL character. -/
theorem IsName.no_nul {text : String} (h : IsName text) : '\x00' ∉ text.toList :=
  fun hmem => (h.2.2.2 _ hmem).2 rfl

/-- A text without slashes is one name. -/
theorem pathNames_of_name {text : String} (h : ∀ c ∈ text.toList, c ≠ '/') :
    pathNames text = [text] := by
  have hsplit : text.toList.splitOn '/' = [text.toList] := by
    rw [List.splitOn_eq_singleton]
    exact fun hmem => h _ hmem rfl
  rw [pathNames, hsplit, List.map_singleton, String.ofList_toList]

/-- A text without slashes is relative. -/
theorem isAbsolute_of_name {text : String} (h : ∀ c ∈ text.toList, c ≠ '/') :
    isAbsolute text = false := by
  unfold isAbsolute
  cases htext : text.toList with
  | nil => simp
  | cons c cs =>
    have hc : c ≠ '/' := h c (by simp [htext])
    simp [hc]

/-- A text without a slash leads to the entry of that name, unless it has a meaning of its own. -/
theorem resolve_of_plain {text : String} (hslash : ∀ c ∈ text.toList, c ≠ '/')
    (hempty : text ≠ "") (hdot : text ≠ ".") (hdots : text ≠ "..") (dir : Directory) :
    resolve dir text = text :: dir := by
  rw [resolve, pathNames_of_name hslash, isAbsolute_of_name hslash]
  simp [follow, hempty, hdot, hdots]

/-- A name leads to the entry of that name. -/
theorem resolve_name {text : String} (h : IsName text) (dir : Directory) :
    resolve dir text = text :: dir :=
  resolve_of_plain (fun c hc => (h.2.2.2 c hc).1) h.1 h.2.1 h.2.2.1 dir

/-- The path is that of an entry of the directory, or of a directory below it. -/
def Inside (dir path : Directory) : Prop := dir <:+ path.drop 1

/-- Whether a path lies inside a directory can be computed. -/
instance (dir path : Directory) : Decidable (Inside dir path) :=
  inferInstanceAs (Decidable (dir <:+ path.drop 1))

/-- An entry lies inside its directory. -/
theorem inside_cons (name : String) (dir : Directory) : Inside dir (name :: dir) :=
  List.suffix_rfl

/-- What lies inside an entry lies inside its directory. -/
theorem Inside.cons {dir path : Directory} (h : Inside dir path) (name : String) :
    Inside dir (name :: path) :=
  h.trans (List.drop_suffix 1 path)

/-- A file name with an extension has no meaning of its own. -/
theorem resolve_file {text extension : String} (hslash : '/' ∉ text.toList)
    (hextension : '/' ∉ extension.toList) (hlong : 2 < extension.length) (dir : Directory) :
    resolve dir (text ++ extension) = (text ++ extension) :: dir := by
  have hlength : 2 < (text ++ extension).length := by
    rw [String.length_append]
    omega
  have hne : ∀ short : String, short.length ≤ 2 → text ++ extension ≠ short := by
    intro short hshort heq
    rw [heq] at hlength
    omega
  refine resolve_of_plain ?_ (hne "" (by decide)) (hne "." (by decide)) (hne ".." (by decide)) dir
  intro c hc heq
  rw [String.toList_append, List.mem_append, heq] at hc
  exact hc.elim hslash hextension

/-- The names of a path are those before a slash and those after it. -/
theorem pathNames_append {path front back : String}
    (h : path.toList = front.toList ++ '/' :: back.toList) :
    pathNames path = pathNames front ++ pathNames back := by
  rw [pathNames, h, List.splitOn_append_cons_of_beq _ _ (beq_self_eq_true '/'), List.map_append]
  rfl

/-- A relative path is followed from the directory to which its front leads. -/
theorem resolve_append {path front back : String} {dir : Directory}
    (h : path.toList = front.toList ++ '/' :: back.toList) (hfront : front ≠ "")
    (hback : isAbsolute back = false) :
    resolve dir path = resolve (resolve dir front) back := by
  have habsolute : isAbsolute path = isAbsolute front := by
    unfold isAbsolute
    rw [h]
    cases hlist : front.toList with
    | nil => exact absurd (String.toList_eq_nil_iff.mp hlist) hfront
    | cons c cs => rfl
  rw [resolve, pathNames_append h, List.foldl_append, habsolute]
  rw [resolve, hback]
  rfl

end YirangMQ
