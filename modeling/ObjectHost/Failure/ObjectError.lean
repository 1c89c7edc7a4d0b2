-- SUMMARY: Faults in the bookkeeping of classes and objects, with their texts and codes.

/-!
# Object errors

What goes wrong between the host and its own tables, before any exception of
the hosted language exists.
-/

namespace ObjectHost

inductive ObjectError where
  /-- A class name is defined once per registry. -/
  | duplicateDefinition (name : String)
  | unknownClass (name : String)
  /-- A value of this type has no class to speak of. -/
  | missingClass (typeName : String)
  | notAnException (name : String)
deriving DecidableEq

namespace ObjectError

def message : ObjectError → String
  | .duplicateDefinition name => "class `" ++ name ++ "` is already defined"
  | .unknownClass name => "class `" ++ name ++ "` is not registered"
  | .missingClass typeName => "'" ++ typeName ++ "' value carries no class object"
  | .notAnException name => "class `" ++ name ++ "` does not derive from BaseException"

def code : ObjectError → String
  | .duplicateDefinition _ => "pyhost::duplicate_definition"
  | .unknownClass _ => "pyhost::unknown_class"
  | .missingClass _ => "pyhost::missing_class"
  | .notAnException _ => "pyhost::not_an_exception"

def help? : ObjectError → Option String
  | .duplicateDefinition _ =>
    some ("every class name is registered exactly once; " ++
      "look for a repeated name in the taxonomy or registration code")
  | _ => none

/-- The code, the message and the help on lines of their own. -/
def diagnostic (e : ObjectError) : String :=
  e.code ++ "\n\n  × " ++ e.message ++ "\n" ++
    match e.help? with
    | some help => "  help: " ++ help ++ "\n"
    | none => ""

end ObjectError

end ObjectHost
