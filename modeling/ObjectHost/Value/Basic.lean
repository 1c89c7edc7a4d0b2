-- SUMMARY: Values of the hosted language: scalars and handles of objects.
import ObjectHost.Class.Basic

/-!
# Values

A value is a scalar or the handle of an object. A handle carries the number
under which the object was made and everything about the object that never
changes; attributes, which do change, are in the heap under that number. Two
handles are one object when their numbers are the same.
-/

namespace ObjectHost

abbrev ObjectId := Nat

/-- The code behind a function or a module factory: a body that its guest language knows by number, and the realm
    it was written in. -/
structure Code where
  body : Nat
  realm : RealmId
deriving DecidableEq

structure Function where
  id : ObjectId
  name : String
  /-- The number of arguments, where it is fixed. -/
  arity : Option Nat
  code : Code
deriving DecidableEq

/-- An instance of a class that is no exception class. -/
structure Instance where
  id : ObjectId
  cls : Class
deriving DecidableEq

structure Module where
  id : ObjectId
  fqName : String
  declaredName : String
  file : Option String
  cls : Option Class
deriving DecidableEq

inductive Value where
  | none
  | bool (b : Bool)
  | int (n : Int64)
  /-- A 64-bit floating-point number, by its bits. -/
  | float (bits : UInt64)
  | str (text : String)
  | cls (c : Class)
  | inst (i : Instance)
  | exception (id : ObjectId) (cls : Class) (message : Value) (qualifier : String)
  | function (f : Function)
  | method (id : ObjectId) (receiver : Value) (callable : Function)
  | module (m : Module)
deriving DecidableEq

/-- An exception carries one payload, kept as it was given. -/
structure Exception where
  id : ObjectId
  cls : Class
  message : Value
  qualifier : String
deriving DecidableEq

structure Method where
  id : ObjectId
  receiver : Value
  callable : Function
deriving DecidableEq

def Exception.toValue (e : Exception) : Value := .exception e.id e.cls e.message e.qualifier

def Method.toValue (m : Method) : Value := .method m.id m.receiver m.callable

namespace Value

def exception? : Value → Option Exception
  | .exception id c message qualifier => some ⟨id, c, message, qualifier⟩
  | _ => .none

def method? : Value → Option Method
  | .method id receiver callable => some ⟨id, receiver, callable⟩
  | _ => .none

def function? : Value → Option Function
  | .function f => some f
  | _ => .none

def module? : Value → Option Module
  | .module m => some m
  | _ => .none

def class? : Value → Option Class
  | .cls c => some c
  | _ => .none

def inst? : Value → Option Instance
  | .inst i => some i
  | _ => .none

def text? : Value → Option String
  | .str text => some text
  | _ => .none

def int? : Value → Option Int64
  | .int n => some n
  | _ => .none

/-- Scalars are the same when they are equal, floats when their bits are; objects when they are one object. -/
def is : Value → Value → Bool
  | .none, .none => true
  | .bool a, .bool b => decide (a = b)
  | .int a, .int b => decide (a = b)
  | .float a, .float b => decide (a = b)
  | .str a, .str b => decide (a = b)
  | .cls a, .cls b => a.is b
  | .inst a, .inst b => decide (a.id = b.id)
  | .exception a _ _ _, .exception b _ _ _ => decide (a = b)
  | .function a, .function b => decide (a.id = b.id)
  | .method a _ _, .method b _ _ => decide (a = b)
  | .module a, .module b => decide (a.id = b.id)
  | _, _ => false

/-- The class a value carries by itself. -/
def carriedClass? : Value → Option Class
  | .inst i => some i.cls
  | .exception _ c _ _ => some c
  | .module m => m.cls
  | _ => .none

/-- The kind of a value, told by its form alone. -/
inductive Kind where
  | none
  | bool
  | int
  | float
  | str
  | cls
  | inst
  | exception
  | function
  | method
  | module
deriving DecidableEq

def kind : Value → Kind
  | .none => .none
  | .bool _ => .bool
  | .int _ => .int
  | .float _ => .float
  | .str _ => .str
  | .cls _ => .cls
  | .inst _ => .inst
  | .exception .. => .exception
  | .function _ => .function
  | .method .. => .method
  | .module _ => .module

def Kind.label : Kind → String
  | .none => "none"
  | .bool => "bool"
  | .int => "int"
  | .float => "float"
  | .str => "str"
  | .cls => "class"
  | .inst => "instance"
  | .exception => "exception"
  | .function => "function"
  | .method => "method"
  | .module => "module"

/-- Objects have an identity of their own; scalars do not. -/
def Kind.hasIdentity : Kind → Bool
  | .none | .bool | .int | .float | .str => false
  | .cls | .inst | .exception | .function | .method | .module => true

end Value

end ObjectHost
