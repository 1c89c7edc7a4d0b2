-- SUMMARY: The module cache, the table of modules being loaded, and the journal of factory runs.
import ObjectHost.Table
import ObjectHost.Value.Basic

/-!
# The loader

A module that was imported is kept in the cache under its fully qualified name.
While its factory runs, the loading table counts the activations under way. The
journal lists, newest first, every factory run begun and how it ended; the two
tables can be read off it.
-/

namespace ObjectHost

/-- Why a factory runs: for the cache, or as the entry of a program. -/
inductive Purpose where
  | caching
  | entry
deriving DecidableEq

inductive LoadEvent where
  | began (purpose : Purpose) (name : String)
  | returned (purpose : Purpose) (name : String) (m : Module)
  | failed (purpose : Purpose) (name : String)
deriving DecidableEq

structure Loader where
  cache : Table Module
  /-- How many activations of each name are under way; names without one are not listed. -/
  loading : Table Nat
  journal : List LoadEvent
deriving DecidableEq

namespace Loader

def empty : Loader := ⟨∅, ∅, []⟩

def isLoading (l : Loader) (name : String) : Bool := l.loading.contains name

def depth (l : Loader) (name : String) : Nat := (l.loading.get? name).getD 0

def record (l : Loader) (event : LoadEvent) : Loader := { l with journal := event :: l.journal }

/-- One more activation of `name` is under way. -/
def enter (l : Loader) (name : String) : Loader :=
  { l with loading := l.loading.insert name (l.depth name + 1) }

/-- One activation of `name` is over. -/
def leave (l : Loader) (name : String) : Loader :=
  { l with
    loading := if l.depth name ≤ 1 then l.loading.erase name
      else l.loading.insert name (l.depth name - 1) }

def store (l : Loader) (name : String) (m : Module) : Loader :=
  { l with cache := l.cache.insert name m }

/-! ## A factory run from begin to end -/

def begin (l : Loader) (name : String) : Loader := (l.enter name).record (.began .caching name)

/-- The finished module replaces what a nested run may have stored. -/
def finish (l : Loader) (name : String) (m : Module) : Loader :=
  ((l.leave name).store name m).record (.returned .caching name m)

def abandon (l : Loader) (name : String) : Loader := (l.leave name).record (.failed .caching name)

end Loader

end ObjectHost
