-- SUMMARY: The dotted module name of a source file below a base directory.
import ObjectHost.Path.Basic

/-!
# Module names of files

The directories below the base become the segments of the module name, and the
stem of the file its last segment. A package file stands for the directory it
lies in.
-/

namespace ObjectHost.Path

/-- The stem of the file that stands for its own directory. -/
def packageStem : String := "__init__"

/-- The segments of the name of the file at `relative`, a path below the base. -/
def segments? (relative : Path) : Option (List String) :=
  (fileName? relative).map fun file =>
    relative.dropLast.map Component.text ++ if stem file = packageStem then [] else [stem file]

/-- There is no name for a path outside the base, a path that ends in no file, or the package file of the base
    itself. -/
def moduleName? (path base : Path) : Option String :=
  match (strip? path base).bind segments? with
  | some (segment :: rest) => some (Text.joinWith "." (segment :: rest))
  | _ => none

end ObjectHost.Path
