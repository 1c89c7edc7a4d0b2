-- SUMMARY: Slash-separated paths as lists of components, with prefixes, file names and stems.
import ObjectHost.Text.Split

/-!
# Paths

A path is the list of its components. Repeated and trailing slashes leave no
trace, and neither does a `.` unless it opens a relative path; `..` stays where
it stands and is never collapsed.
-/

namespace ObjectHost

namespace Path

inductive Component where
  | root
  | here
  | up
  | name (text : String)
deriving DecidableEq

def Component.text : Component → String
  | .root => "/"
  | .here => "."
  | .up => ".."
  | .name text => text

/-- The component a piece stands for when it does not open a relative path. -/
def component? : List Char → Option Component
  | [] => none
  | ['.'] => none
  | ['.', '.'] => some .up
  | piece => some (.name (String.ofList piece))

/-- An empty first piece that is not alone comes from a leading slash. -/
def ofPieces : List (List Char) → List Component
  | [] :: [] => []
  | [] :: pieces => .root :: pieces.filterMap component?
  | ['.'] :: pieces => .here :: pieces.filterMap component?
  | pieces => pieces.filterMap component?

end Path

abbrev Path := List Path.Component

namespace Path

def parse (text : String) : Path := ofPieces (Text.splitAll '/' text.toList)

/-- What follows `base`, when `base` opens `path` component by component. -/
def strip? : (path base : Path) → Option Path
  | path, [] => some path
  | [], _ :: _ => none
  | c :: path, b :: base => if c = b then strip? path base else none

theorem strip?_eq_some_iff {path base rest : Path} :
    strip? path base = some rest ↔ path = base ++ rest := by
  induction base generalizing path with
  | nil => simp [strip?]
  | cons b base ih =>
    cases path with
    | nil => simp [strip?]
    | cons c path =>
      by_cases h : c = b
      · simp [strip?, h, ih]
      · simp [strip?, h]

/-- The last component, when it is an ordinary name. -/
def fileName? (path : Path) : Option String :=
  match path.getLast? with
  | some (.name text) => some text
  | _ => none

/-- The file name up to its last dot. A name whose only dot comes first is all stem. -/
def stem (fileName : String) : String :=
  match Text.splitLast '.' fileName.toList with
  | some (c :: front, _) => String.ofList (c :: front)
  | _ => fileName

end Path

end ObjectHost
