-- SUMMARY: Three-tier resolution of a requested module name against a registration predicate.
import ObjectHost.Name.Dotted

/-!
# Resolution

A requested name is tried as it stands, then beside its caller, then beneath
its caller. The first candidate that is registered wins.
-/

namespace ObjectHost.Name

/-- The rule by which a candidate name was formed. -/
inductive Tier where
  | absolute
  | sibling
  | child
deriving DecidableEq

def Tier.label : Tier → String
  | .absolute => "absolute"
  | .sibling => "sibling"
  | .child => "child"

structure Resolution where
  name : String
  tier : Tier
deriving DecidableEq

/-- The names a request from `caller` may mean, in the order they are tried. A caller without a dot has no
    siblings, and the empty caller has no children. -/
def candidates (requested caller : String) : List Resolution :=
  ⟨requested, .absolute⟩ ::
    (((sibling? caller requested).map fun name => ⟨name, .sibling⟩).toList ++
      if caller = "" then [] else [⟨child caller requested, .child⟩])

/-- Asks about each candidate in order and stops at the first that is registered. -/
def search {m : Type → Type} [Monad m] (isRegistered : String → m Bool) (requested caller : String) :
    m (Option Resolution) :=
  (candidates requested caller).findM? fun candidate => isRegistered candidate.name

def resolve? (isRegistered : String → Bool) (requested caller : String) : Option Resolution :=
  Id.run (search (fun name => pure (isRegistered name)) requested caller)

/-- The names asked about during the search, in order. -/
def probes (isRegistered : String → Bool) (requested caller : String) : List String :=
  let ask (name : String) : StateM (List String) Bool := do
    modify (· ++ [name])
    return isRegistered name
  (Id.run ((search ask requested caller).run [])).2

end ObjectHost.Name
