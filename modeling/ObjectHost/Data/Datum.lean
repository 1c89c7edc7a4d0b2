-- SUMMARY: Structured data as it is read and written, and the reading of record fields.
import ObjectHost.Table

/-!
# Data

Requests and reports are data: scalars, lists and records. A field that is read
from a record is either there in the expected form or is faulty in one of two
ways.
-/

namespace ObjectHost

inductive Datum where
  | null
  | bool (b : Bool)
  | number (n : Int)
  /-- A number that is not written as an integer. -/
  | fraction
  | text (s : String)
  | list (items : List Datum)
  | record (fields : List (String × Datum))
deriving Inhabited

inductive FieldFault where
  | missing (field : String)
  | bad (field : String)
deriving DecidableEq

def FieldFault.message : FieldFault → String
  | .missing field => "missing field " ++ field
  | .bad field => "bad field " ++ field

namespace Datum

/-- Only records have fields. -/
def field? (d : Datum) (name : String) : Option Datum :=
  match d with
  | .record fields => Table.findEntry name fields
  | _ => none

/-- An absent text is the null datum. -/
def ofText? : Option String → Datum
  | some s => .text s
  | none => .null

def texts (l : List String) : Datum := .list (l.map .text)

def count (n : Nat) : Datum := .number n

/-! ## Reading fields -/

abbrev Reading := Except FieldFault

def required (d : Datum) (name : String) : Reading Datum :=
  match d.field? name with
  | some v => .ok v
  | none => .error (.missing name)

def textField (d : Datum) (name : String) : Reading String := do
  match ← d.required name with
  | .text s => return s
  | _ => throw (.bad name)

/-- A null field counts as absent. -/
def textField? (d : Datum) (name : String) : Reading (Option String) :=
  match d.field? name with
  | none | some .null => .ok none
  | some (.text s) => .ok (some s)
  | some _ => .error (.bad name)

/-- An absent list is empty. -/
def listField (d : Datum) (name : String) : Reading (List Datum) :=
  match d.field? name with
  | none => .ok []
  | some (.list items) => .ok items
  | some _ => .error (.bad name)

def textsField (d : Datum) (name : String) : Reading (List String) := do
  (← d.listField name).mapM fun
    | .text s => .ok s
    | _ => .error (.bad name)

def countField (d : Datum) (name : String) : Reading Nat := do
  match ← d.required name with
  | .number n => if 0 ≤ n then return n.toNat else throw (.bad name)
  | _ => throw (.bad name)

def countField? (d : Datum) (name : String) : Reading (Option Nat) :=
  match d.field? name with
  | none => .ok none
  | some _ => (d.countField name).map some

/-! ## Nesting -/

theorem sizeOf_findEntry {name : String} {fields : List (String × Datum)} {d : Datum}
    (h : Table.findEntry name fields = some d) : sizeOf d < sizeOf fields := by
  induction fields with
  | nil => simp [Table.findEntry] at h
  | cons e es ih =>
    obtain ⟨k, v⟩ := e
    simp only [Table.findEntry] at h
    split at h
    · simp only [Option.some.injEq] at h
      subst h
      simp only [List.cons.sizeOf_spec, Prod.mk.sizeOf_spec]
      omega
    · have := ih h
      simp only [List.cons.sizeOf_spec]
      omega

theorem sizeOf_field? {d v : Datum} {name : String} (h : d.field? name = some v) :
    sizeOf v < sizeOf d := by
  cases d with
  | record fields =>
    have := sizeOf_findEntry h
    simp only [record.sizeOf_spec]
    omega
  | _ => simp [field?] at h

theorem sizeOf_item {items : List Datum} {d : Datum} (h : d ∈ items) :
    sizeOf d < sizeOf (Datum.list items) := by
  have := List.sizeOf_lt_of_mem h
  simp only [list.sizeOf_spec]
  omega

end Datum

end ObjectHost
