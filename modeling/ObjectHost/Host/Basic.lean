-- SUMMARY: The host: its realms and the heap their objects share, with the operations on them.
import ObjectHost.Host.Realm

/-!
# The host

The host keeps any number of realms and one heap. Objects are made in the heap
and numbered in the order they are made, whichever realm asks for them.
-/

namespace ObjectHost

/-! ## The heap -/

/-- The attributes of every object made so far; the object's number is its position. -/
structure Heap where
  rows : Array (Table Value)
deriving DecidableEq

namespace Heap

def empty : Heap := ⟨#[]⟩

/-- The number of the next object. -/
def next (h : Heap) : ObjectId := h.rows.size

/-- Makes room for one more object, without attributes. -/
def grow (h : Heap) : Heap := ⟨h.rows.push ∅⟩

def attributes (h : Heap) (id : ObjectId) : Table Value := h.rows.getD id ∅

def setAttribute (h : Heap) (id : ObjectId) (name : String) (v : Value) : Heap :=
  ⟨h.rows.modify id fun row => row.insert name v⟩

end Heap

/-! ## Realms by number -/

/-- The realms are kept in the order they were started; a realm's number is its position. -/
structure Host where
  realms : List Realm
  heap : Heap
deriving DecidableEq

namespace Host

def empty : Host := ⟨[], .empty⟩

def realm (h : Host) (id : RealmId) : Realm := h.realms.getD id (.vacant id)

/-- Changes a realm that was started; there is nothing to change about any other. -/
def modifyRealm (h : Host) (id : RealmId) (f : Realm → Realm) : Host :=
  { h with realms := h.realms.modify id f }

def modifyLoader (h : Host) (id : RealmId) (f : Loader → Loader) : Host :=
  h.modifyRealm id fun r => { r with loader := f r.loader }

theorem realm_modifyRealm (h : Host) (id : RealmId) (f : Realm → Realm) (other : RealmId) :
    (h.modifyRealm id f).realm other =
      if other = id ∧ id < h.realms.length then f (h.realm id) else h.realm other := by
  simp only [realm, modifyRealm, List.getD_eq_getElem?_getD, List.getElem?_modify]
  by_cases ho : other = id
  · subst ho
    by_cases hid : other < h.realms.length
    · simp [hid]
    · simp [hid]
  · simp [ho, Ne.symm ho]

@[simp] theorem heap_modifyRealm (h : Host) (id : RealmId) (f : Realm → Realm) :
    (h.modifyRealm id f).heap = h.heap :=
  rfl

/-- A realm without a number among the realms was never started. -/
theorem realm_of_length_le {h : Host} {id : RealmId} (hid : h.realms.length ≤ id) :
    h.realm id = .vacant id := by
  simp [realm, List.getElem?_eq_none hid]

/-! ## Reading -/

/-- The member a class defines, wherever the class is at home. -/
def member? (h : Host) (c : Class) (name : String) : Option Value :=
  (h.realm c.home).classes.member? c name

/-- The member of the nearest class in the ancestry that defines it. -/
def lookup? (h : Host) (c : Class) (name : String) : Option Value :=
  (h.realm c.home).classes.lookup? c name

/-- A module always answers with its declared name under the attribute kept for it. -/
def moduleAttribute? (h : Host) (m : Module) (name : String) : Option Value :=
  if name = Builtin.nameAttribute then some (.str m.declaredName)
  else (h.heap.attributes m.id).get? name

/-! ## Making objects -/

def newInstance (h : Host) (cls : Class) : Instance × Host :=
  (⟨h.heap.next, cls⟩, { h with heap := h.heap.grow })

/-- An exception of the named builtin class, of the base class if there is none of that name. -/
def newException (h : Host) (id : RealmId) (name : String) (message : Value) : Exception × Host :=
  let t := (h.realm id).taxonomy
  (t.exception h.heap.next (t.classFor name) message, { h with heap := h.heap.grow })

/-- An exception of any class that descends from the base of the realm's exceptions. -/
def makeException (h : Host) (id : RealmId) (cls : Class) (args : List Value) :
    Except ObjectError Exception × Host :=
  let t := (h.realm id).taxonomy
  if t.isExceptionClass cls then
    (.ok (t.exception h.heap.next cls (Taxonomy.payload args)), { h with heap := h.heap.grow })
  else (.error (.notAnException cls.name), h)

def newFunction (h : Host) (name : String) (arity : Option Nat) (code : Code) : Function × Host :=
  (⟨h.heap.next, name, arity, code⟩, { h with heap := h.heap.grow })

def newMethod (h : Host) (receiver : Value) (callable : Function) : Method × Host :=
  (⟨h.heap.next, receiver, callable⟩, { h with heap := h.heap.grow })

def newModule (h : Host) (fqName declaredName : String) (file : Option String) (cls : Option Class) :
    Module × Host :=
  (⟨h.heap.next, fqName, declaredName, file, cls⟩, { h with heap := h.heap.grow })

/-! ## Changing tables -/

def setAttribute (h : Host) (id : ObjectId) (name : String) (v : Value) : Host :=
  { h with heap := h.heap.setAttribute id name v }

def define (h : Host) (id : RealmId) (name : String) (parent : Option Class)
    (members : List (String × Value)) : Except ObjectError Class × Host :=
  match (h.realm id).classes.define name parent members with
  | .ok (cls, classes) => (.ok cls, h.modifyRealm id fun r => { r with classes := classes })
  | .error e => (.error e, h)

/-- Registers a module factory and tells whether it replaces one. -/
def register (h : Host) (id : RealmId) (name : String) (factory : Code) : Bool × Host :=
  ((h.realm id).factories.contains name,
    h.modifyRealm id fun r => { r with factories := r.factories.insert name factory })

/-- Starts one more realm. -/
def boot (h : Host) (config : Config) : Except ObjectError RealmId × Host :=
  let id := h.realms.length
  match Realm.bootstrap id config with
  | .ok r => (.ok id, { h with realms := h.realms ++ [r] })
  | .error e => (.error e, h)

end Host

end ObjectHost
