-- SUMMARY: Reading scripts from data.
import ObjectHost.Data.Failure
import ObjectHost.Script.Syntax

/-!
# Reading scripts

Every datum reads as a step, if need be as a malformed one. The bodies of
functions and factories are collected in the script's table on the way.
-/

namespace ObjectHost.Script

/-- Reading a step adds the bodies it contains to the table. -/
abbrev Reader := StateM (Array (List Step))

def Field.ofReading {α : Type} : Datum.Reading α → Field α
  | .ok a => .ok a
  | .error fault => .error (.field fault)

/-! ## Expressions without bodies -/

def readInteger (n : Int) : Expr :=
  if Int64.minValue.toInt ≤ n ∧ n ≤ Int64.maxValue.toInt then .scalar (.int (Int64.ofInt n))
  else .malformed .badNumber

def hexDigit? (c : Char) : Option Nat :=
  if '0' ≤ c ∧ c ≤ '9' then some (c.toNat - '0'.toNat)
  else if 'a' ≤ c ∧ c ≤ 'f' then some (c.toNat - 'a'.toNat + 10)
  else if 'A' ≤ c ∧ c ≤ 'F' then some (c.toNat - 'A'.toNat + 10)
  else none

/-- The number written by hexadecimal digits, at least one. -/
def hexNumber? (digits : List Char) : Option Nat :=
  match digits with
  | [] => none
  | digits => digits.foldlM (fun n c => (hexDigit? c).map (16 * n + ·)) 0

def readFloat (d : Datum) : Expr :=
  match d with
  | .text s =>
    match hexNumber? s.toList with
    | some bits => if bits < UInt64.size then .scalar (.float (UInt64.ofNat bits)) else .malformed .badFloat
    | none => .malformed .badFloat
  | _ => .malformed .badFloat

/-- Every expression but a function, which is read together with its body. -/
def readSimple : Datum → Expr
  | .null => .scalar .none
  | .bool b => .scalar (.bool b)
  | .number n => readInteger n
  | .fraction => .malformed .badNumber
  | .text s => .scalar (.str s)
  | .record [("f", d)] => readFloat d
  | .record [("var", .text name)] => .var name
  | .record [("arg", .number index)] => if 0 ≤ index then .arg index.toNat else .malformed .badValue
  | .record [("class", .text name)] => .classNamed name
  | .record [("builtin", .text name)] => .builtin name
  | .list _ | .record _ => .malformed .badValue

def functionExpr (name : Field String) (body : Field BodyId) (arity : Field (Option Nat)) : Expr :=
  let read : Field Expr := do return .function (← name) (← body) (← arity)
  match read with
  | .ok e => e
  | .error fault => .malformed fault

/-! ## The fields of a step -/

/-- How the fields of the step at hand are read. -/
structure Fields where
  datum : Datum
  expr : String → Reader Expr
  optionalExpr : String → Reader (Option Expr)
  arguments : String → Reader Arguments
  members : String → Reader (Field (List (Field (String × Expr))))
  block : String → Reader Block
  body : String → Reader (Field BodyId)

namespace Fields

def text (f : Fields) (name : String) : Field String := .ofReading (f.datum.textField name)

def optionalText (f : Fields) (name : String) : Field (Option String) :=
  .ofReading (f.datum.textField? name)

end Fields

/-! ## Steps without blocks, by name -/

def readClassStep (f : Fields) : String → Option (Reader ClassStep)
  | "define" => some do
    return .define (← f.optionalExpr "parent") (← f.members "members") (f.text "name")
  | "class_info" => some do return .info (← f.expr "class")
  | "member" => some do return .member (← f.expr "class") (f.text "name")
  | "lookup" => some do return .lookup (← f.expr "class") (f.text "name")
  | "is_subclass" => some do return .isSubclass (← f.expr "class") (← f.expr "of")
  | "children" => some do return .children (← f.expr "class")
  | "tree" => some do return .tree (← f.expr "class")
  | "get_class" => some do return .get (f.text "name")
  | "require" => some do return .require (f.text "name")
  | "contains_class" => some do return .contains (f.text "name")
  | "owns" => some do return .owns (← f.expr "class")
  | "classes" => some do return .all
  | "core" => some do return .core
  | _ => none

def readObjectStep (f : Fields) : String → Option (Reader ObjectStep)
  | "eval" => some do return .eval (← f.expr "value")
  | "debug" => some do return .inspect (← f.expr "value")
  | "is" => some do return .same (← f.expr "a") (← f.expr "b")
  | "class_of" => some do return .classOf (← f.expr "value")
  | "runtime_class" => some do return .carriedClass (← f.expr "value")
  | "accessors" => some do return .accessors (← f.expr "value")
  | "new" => some do return .new (← f.expr "class") (← f.arguments "args")
  | "getattr" => some do return .getAttribute (← f.expr "obj") (f.text "name")
  | "setattr" => some do return .setAttribute (← f.expr "obj") (f.text "name") (← f.expr "value")
  | "own_attr" => some do return .ownAttribute (← f.expr "obj") (f.text "name")
  | "attrs" => some do return .attributes (← f.expr "obj")
  | "fn_info" => some do return .functionInfo (← f.expr "fn")
  | "bind" => some do return .bind (← f.expr "receiver") (← f.expr "fn")
  | "call" => some do return .call (← f.expr "fn") (← f.arguments "args")
  | "describe" => some do return .describe (← f.expr "method")
  | "describe_raw" => some do return .describeRaw (← f.expr "method")
  | "method_parts" => some do return .methodParts (← f.expr "method")
  | _ => none

def readExceptionStep (f : Fields) : String → Option (Reader ExceptionStep)
  | "new_exception" => some do return .new (f.text "name") (← f.expr "message")
  | "exc_new" => some do return .make (← f.expr "class") (← f.arguments "args")
  | "exc_info" => some do return .info (← f.expr "value")
  | "exc_is" => some do return .isInstance (← f.expr "value") (← f.expr "class")
  | "exc_class" => some do return .classNamed (f.text "name")
  | "is_exc_class" => some do return .isExceptionClass (← f.expr "class")
  | "raise" => some do return .raise (f.text "name") (← f.expr "message")
  | "throw" => some do return .throw (← f.expr "value")
  | "host" => some do return .host (.ofReading f.datum.hostFailure)
  | "import_error" => some do return .importError (f.text "name")
  | "raise_runtime" => some do return .raiseError (.ofReading f.datum.objectError)
  | _ => none

def readModuleStep (f : Fields) : String → Option (Reader ModuleStep)
  | "register" => some do return .register (← f.body "body") (f.text "name")
  | "resolve" => some do return .resolve (f.text "name") (f.optionalText "from")
  | "import" => some do return .importModule (f.optionalText "from") (f.text "name")
  | "load" => some do return .load (f.text "name")
  | "get_or_create" => some do return .getOrCreate (f.text "name") (f.text "declared")
  | "run" => some do return .run (f.text "name") (f.optionalText "display")
  | "import_from" => some do return .importFrom (← f.expr "module") (f.text "name")
  | "cache" => some do return .cache
  | "modules" => some do return .factories
  | "cached" => some do return .cached (f.text "name")
  | "cache_contains" => some do return .isCached (f.text "name")
  | "loading" => some do return .isLoading (f.text "name")
  | "registered" => some do return .isRegistered (f.text "name")
  | "make_module" => some do
    return .make (f.text "fq") (f.text "declared") (f.optionalText "file") (← f.optionalExpr "class")
  | "module_info" => some do return .info (← f.expr "module")
  | "new_module" => some do return .new
  | "ctx" => some do return .context (f.optionalText "fq") (f.text "declared")
  | _ => none

def readRealmStep (f : Fields) : String → Option (Reader RealmStep)
  | "runtime" => some do
    return .boot (f.optionalText "qualifier") (.ofReading f.datum.cycles?) (f.text "name")
  | "config" => some do return .config
  | "builtins" => some do return .builtins
  | "builtin" => some do return .builtin (f.text "name")
  | _ => none

def readDataStep (f : Fields) : String → Option (Reader DataStep)
  | "log" => some do return .log (← f.expr "value")
  | "count" => some do return .count (f.text "name")
  | "join" => some do return .join (← f.arguments "args") (f.optionalText "sep")
  | "join_args" => some do return .joinArguments
  | "sum" => some do return .sum (← f.arguments "args")
  | _ => none

def readLeaf (f : Fields) (name : String) : Option (Reader Action) :=
  (readClassStep f name).map (Action.cls <$> ·)
    <|> (readObjectStep f name).map (Action.object <$> ·)
    <|> (readExceptionStep f name).map (Action.exception <$> ·)
    <|> (readModuleStep f name).map (Action.module <$> ·)
    <|> (readRealmStep f name).map (Action.realm <$> ·)
    <|> (readDataStep f name).map (Action.data <$> ·)

/-- Every step but a trace, which contains another step. -/
def readAction (f : Fields) (name : String) : Reader Action :=
  match readLeaf f name with
  | some read => read
  | none =>
    match name with
    | "exceptionify" => return .exceptionify (← f.block "body")
    | "raised_is" => return .raisedIs (← f.expr "class") (← f.block "body")
    | "try" => do
      let cls ← f.expr "class"
      let body ← f.block "body"
      let handler ← f.block "handler"
      return .attempt cls body (f.optionalText "exc") handler
    | "if" => return .branch (← f.expr "a") (← f.expr "b") (← f.block "then") (← f.block "else")
    | "return" => return .yield (← f.expr "value")
    | name => return .malformed (.unknownStep name)

/-! ## Steps -/

/-- Adds a body to the table. -/
def addBody (steps : List Step) : Reader BodyId := do
  let bodies ← get
  set (bodies.push steps)
  return bodies.size

/-- A member is a pair of a name and a value. -/
def memberParts? : Datum → Option (String × Datum)
  | .list [.text name, value] => some (name, value)
  | _ => none

theorem sizeOf_memberParts? {d value : Datum} {name : String}
    (h : memberParts? d = some (name, value)) : sizeOf value < sizeOf d := by
  unfold memberParts? at h
  split at h
  · simp only [Option.some.injEq, Prod.mk.injEq] at h
    obtain ⟨rfl, rfl⟩ := h
    simp only [Datum.list.sizeOf_spec, List.cons.sizeOf_spec]
    omega
  · cases h

/-- The parts of a function expression. -/
def functionParts? : Datum → Option Datum
  | .record [("fn", parts)] => some parts
  | _ => none

theorem sizeOf_functionParts? {d parts : Datum} (h : functionParts? d = some parts) :
    sizeOf parts < sizeOf d := by
  unfold functionParts? at h
  split at h
  · simp only [Option.some.injEq] at h
    subst h
    simp only [Datum.record.sizeOf_spec, List.cons.sizeOf_spec, Prod.mk.sizeOf_spec]
    omega
  · cases h

mutual

def readExpr (d : Datum) : Reader Expr :=
  match _h : functionParts? d with
  | none => return readSimple d
  | some parts => do
    let body ← match _hb : parts.field? "body" with
      | none => .ok <$> addBody []
      | some (.list items) => do
        let steps ← items.attach.mapM fun ⟨item, _⟩ => readStep item
        .ok <$> addBody steps
      | some _ => pure (.error (.field (.bad "body")))
    return functionExpr (.ofReading (parts.textField "name")) body (.ofReading (parts.countField? "arity"))
termination_by sizeOf d
decreasing_by
  have h₁ := Datum.sizeOf_item ‹item ∈ items›
  have h₂ := Datum.sizeOf_field? _hb
  have h₃ := sizeOf_functionParts? _h
  omega

def readStep (d : Datum) : Reader Step := do
  let fields : Fields := {
    datum := d
    expr := fun name =>
      match _h : d.field? name with
      | none => return .malformed (.field (.missing name))
      | some v => readExpr v
    optionalExpr := fun name =>
      match _h : d.field? name with
      | none => return none
      | some v => some <$> readExpr v
    arguments := fun name =>
      match _h : d.field? name with
      | none => return .ok []
      | some (.list items) => .ok <$> items.attach.mapM fun ⟨item, _⟩ => readExpr item
      | some _ => return .error (.field (.bad name))
    members := fun name =>
      match _h : d.field? name with
      | none => return .ok []
      | some (.list items) => .ok <$> items.attach.mapM fun ⟨item, _⟩ =>
          match _hm : memberParts? item with
          | some (name, value) => do return .ok (name, ← readExpr value)
          | none => return .error .badMember
      | some _ => return .error (.field (.bad name))
    block := fun name =>
      match _h : d.field? name with
      | none => return .steps []
      | some (.list items) => .steps <$> items.attach.mapM fun ⟨item, _⟩ => readStep item
      | some _ => return .malformed (.field (.bad name))
    body := fun name =>
      match _h : d.field? name with
      | none => .ok <$> addBody []
      | some (.list items) => do
        let steps ← items.attach.mapM fun ⟨item, _⟩ => readStep item
        .ok <$> addBody steps
      | some _ => return .error (.field (.bad name)) }
  let action ← match d.textField "do" with
    | .error fault => pure (.malformed (.field fault))
    | .ok "trace" =>
      match _h : d.field? "step" with
      | none => pure (.malformed (.field (.missing "step")))
      | some step => .trace <$> readStep step
    | .ok name => readAction fields name
  return .mk (fields.optionalText "rt") (fields.optionalText "as") action
termination_by sizeOf d
decreasing_by
  all_goals have h₁ := Datum.sizeOf_field? _h
  all_goals try have h₂ := Datum.sizeOf_item ‹item ∈ items›
  all_goals try have h₃ := sizeOf_memberParts? _hm
  all_goals omega

end

/-- Reads the steps of a script. -/
def read (data : List Datum) : Script :=
  let (steps, bodies) := Id.run ((data.mapM readStep).run #[])
  ⟨bodies, steps⟩

end ObjectHost.Script
