import CachedRoutes.Text.Basic

/-!
# Paths

A path is a text with `/` between its parts, absolute when it starts with `/`. Nothing here looks
at a disk. Two views of a path are kept apart. `components` is the list of meaningful parts:
repeated and trailing separators vanish, and so does `.` except at the very start of a relative
path, while `..` stays. The text itself is what messages show, so `join` and `ancestors` keep the
spelling they were given.
-/

namespace CachedRoutes

/-- A path, as it was written. -/
structure Path where
  /-- The spelling. -/
  text : String
  deriving DecidableEq, Repr

namespace Path

/-- A meaningful part of a path. -/
inductive Component where
  /-- The leading `/` of an absolute path. -/
  | root
  /-- A leading `.` of a relative path. -/
  | here
  /-- A part `..`. -/
  | up
  /-- The name of a file or directory. -/
  | name (text : String)
  deriving DecidableEq, Repr

namespace Component

/-- How the component is written. -/
def text : Component → String
  | root => "/"
  | here => "."
  | up => ".."
  | name s => s

/-- The position of the component's kind in the order of components. -/
def rank : Component → Nat
  | root => 0
  | here => 1
  | up => 2
  | name _ => 3

/-- Components are ordered by kind, names among themselves by their characters. -/
def lt (a b : Component) : Bool :=
  a.rank < b.rank || (a.rank == b.rank && decide (a.text < b.text))

end Component

/-- Does the path start at the root of the file tree? -/
def isAbsolute (p : Path) : Bool :=
  p.text.toList.head? == some '/'

/-- The parts between separators, the leading separator of an absolute path taken off. -/
def parts (p : Path) : List (List Char) :=
  Text.fields '/' (if p.isAbsolute then p.text.toList.drop 1 else p.text.toList)

/-- The component that a part stands for, except for a leading `.`. -/
def component? (part : List Char) : Option Component :=
  if part = [] || part = ['.'] then none
  else if part = ['.', '.'] then some .up
  else some (.name (String.ofList part))

/-- The meaningful parts of a path. -/
def components (p : Path) : List Component :=
  if p.isAbsolute then .root :: p.parts.filterMap component?
  else
    match p.parts with
    | ['.'] :: rest => .here :: rest.filterMap component?
    | parts => parts.filterMap component?

/-- `base` with `p` below it, or `p` alone when it is absolute. -/
def join (base p : Path) : Path :=
  if p.isAbsolute then p
  else if base.text.isEmpty || base.text.toList.getLast? == some '/' then ⟨base.text ++ p.text⟩
  else ⟨base.text ++ "/" ++ p.text⟩

/-- The name at the end of a path, if it ends in one. -/
def fileName? (p : Path) : Option String :=
  match p.components.getLast? with
  | some (.name s) => some s
  | _ => none

/-- The components of `p` below `base`, when `base` is a whole-component beginning of `p`. -/
def below? (base p : Path) : Option (List Component) :=
  if base.components.isPrefixOf p.components then
    some (p.components.drop base.components.length)
  else none

/-- Is the path before `q` in the order of component lists? -/
def ltComponents : List Component → List Component → Bool
  | [], [] => false
  | [], _ :: _ => true
  | _ :: _, [] => false
  | a :: as, b :: bs => if a = b then ltComponents as bs else a.lt b

/-! ## Ancestors -/

/-- The reversed parts without the ones at the end that name nothing. A `.` that begins a relative
path names the directory it starts from and stays. -/
def settle (absolute : Bool) : List (List Char) → List (List Char)
  | [] => []
  | [part] => if part = [] || (part = ['.'] && absolute) then [] else [part]
  | part :: next :: rest =>
    if part = [] || part = ['.'] then settle absolute (next :: rest) else part :: next :: rest

theorem length_settle_le (absolute : Bool) (rev : List (List Char)) :
    (settle absolute rev).length ≤ rev.length := by
  fun_induction settle absolute rev with
  | case4 part next rest _ ih => exact Nat.le_trans ih (by simp)
  | _ => simp

/-- The path made of the given reversed parts. -/
def ofReversed (absolute : Bool) (rev : List (List Char)) : Path :=
  ⟨String.ofList ((if absolute then ['/'] else []) ++ ['/'].intercalate rev.reverse)⟩

/-- The enclosing paths of the given settled reversed parts, nearest first. -/
def enclosing (absolute : Bool) : List (List Char) → List Path
  | [] => []
  | _ :: rest =>
    ofReversed absolute (settle absolute rest) :: enclosing absolute (settle absolute rest)
termination_by rev => rev.length
decreasing_by exact Nat.lt_succ_of_le (length_settle_le absolute rest)

/-- The path itself and the paths that enclose it, nearest first, each a beginning of the spelling.
A relative path ends with the empty path, below which the working directory is searched. -/
def ancestors (p : Path) : List Path :=
  p :: enclosing p.isAbsolute (settle p.isAbsolute p.parts.reverse)

end Path

end CachedRoutes
