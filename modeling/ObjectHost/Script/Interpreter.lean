-- SUMMARY: Running steps, blocks, bodies and whole scripts.
import ObjectHost.Script.ClassSteps
import ObjectHost.Script.ExceptionSteps
import ObjectHost.Script.ModuleSteps
import ObjectHost.Script.ObjectSteps

/-!
# Running scripts

The failure of a step ends the block around it and is raised there. A script
goes on after a failed step, and answers each of its steps.
-/

namespace ObjectHost.Script

def runDataStep (p : Place) : DataStep → Exec Report
  | .log value => do
    log (.value (← eval p value))
    return .null
  | .count name => do
    let name ← Exec.field name
    let n := ((← Exec.session).counters.get? name).getD 0 + 1
    Exec.modifySession fun s => { s with counters := s.counters.insert name n }
    return .value (.int n)
  | .join args sep => do
    let args ← evalArguments p args
    let sep ← Exec.field sep
    return .text (Text.joinWith (sep.getD ",") (args.map Value.text))
  | .joinArguments => return .text (Text.joinWith "," (p.frame.args.map Value.text))
  | .sum args => do
    let args ← evalArguments p args
    return .value (.int ((args.filterMap Value.int?).foldl (· + ·) 0))

/-! ## Steps and blocks -/

/-- How a step ends when it does not fail: with a report, or by ending the body around it. -/
inductive Flow where
  | report (r : Report)
  | returned (v : Value)

/-- The realm a step works in. -/
def stepRealm (frame : Frame) (name : Field (Option String)) : Exec RealmId := do
  match ← Exec.field name with
  | none => return frame.realm
  | some name =>
    match (← Exec.session).realms.get? name with
    | some id => return id
    | none => Exec.fault (.noRealm name)

/-- Runs part of a body; its failure comes out raised. -/
def raising {α : Type} (frame : Frame) (x : Exec α) : Exec (Except Raised α) := do
  match ← x.outcome with
  | .ok a => return .ok a
  | .error failure => return .error (← Exec.program (failure.raise frame.realm))

def completed : Report := .text "completed"

/-- A block that was returned from ends the body around it. -/
def Flow.ofBlock (ended : Report) : Option Value → Flow
  | none => .report ended
  | some v => .returned v

mutual

def Action.run (p : Place) : Action → Exec Flow
  | .cls step => .report <$> runClassStep p step
  | .object step => .report <$> runObjectStep p step
  | .exception step => .report <$> runExceptionStep p step
  | .module step => .report <$> runModuleStep p step
  | .realm step => .report <$> runRealmStep p step
  | .data step => .report <$> runDataStep p step
  | .exceptionify body => do
    let body ← body.run p.frame
    match ← body with
    | .ok _ => return .report completed
    | .error r => throw (.raised (← Exec.program (exceptionify p.realm r)))
  | .raisedIs cls body => do
    let c ← evalClass p "class" cls
    let body ← body.run p.frame
    match ← body with
    | .ok _ => return .report completed
    | .error r => return .report (.bool (r.isInstanceOf c))
  | .attempt cls body binder handler => do
    let c ← evalClass p "class" cls
    let body ← body.run p.frame
    let binder ← Exec.field binder
    let handler ← handler.run p.frame
    match ← body with
    | .ok ended => return .ofBlock completed ended
    | .error r =>
      match ← Exec.program (catchAs p.realm r c) with
      | .error r => throw (.raised r)
      | .ok e =>
        if let some name := binder then store p.frame name e.toValue
        match ← handler with
        | .error r => throw (.raised r)
        | .ok ended => return .ofBlock (.record [("caught", .value e.toValue)]) ended
  | .trace step => do
    match ← (step.run p.frame).outcome with
    | .ok (.returned v) => return .returned v
    | .ok (.report r) =>
      log r
      return .report .null
    | .error failure =>
      log (.record failure.fields)
      return .report .null
  | .branch a b same different => do
    let a ← eval p a
    let b ← eval p b
    let same ← same.run p.frame
    let different ← different.run p.frame
    let (block, label) := if a.is b then (same, "then") else (different, "else")
    match ← block with
    | .error r => throw (.raised r)
    | .ok ended => return .ofBlock (.text label) ended
  | .yield value => do return .returned (← eval p value)
  | .malformed fault => Exec.fault fault

/-- The block made ready to run, unless it is faulty. Run, it gives the value it was returned from with, if any. -/
def Block.run (frame : Frame) : Block → Exec (Exec (Except Raised (Option Value)))
  | .steps list => return raising frame (runSteps frame list)
  | .malformed fault => Exec.fault fault

def runSteps (frame : Frame) : List Step → Exec (Option Value)
  | [] => return none
  | step :: steps => do
    match ← step.run frame with
    | .returned v => return some v
    | .report _ => runSteps frame steps

/-- A report is stored only when the step succeeds. -/
def Step.run (frame : Frame) : Step → Exec Flow
  | .mk realm target action => do
    let realm ← stepRealm frame realm
    match ← action.run ⟨frame, realm⟩ with
    | .returned v => return .returned v
    | .report r =>
      if let some name ← Exec.field target then store frame name r.toValue
      return .report r

end

/-! ## Bodies -/

/-- Runs a body from its beginning with no local variables. -/
def runBody (bodies : Array (List Step)) (code : Code) (frame : Frame) : Task Session (Option Value) := do
  let steps := bodies.getD code.body []
  let (result, _) ← (((runSteps frame steps).run).run ∅ : Program Session _)
  match result with
  | .ok ended => return ended
  | .error failure => Task.fail (← (failure.raise frame.realm : Program Session Raised))

/-- The language of scripts. A function that is not returned from gives none, a factory then makes a new module. -/
def guest (bodies : Array (List Step)) : Guest Session where
  call code args := do
    return (← runBody bodies code ⟨code.realm, args, none, false⟩).getD .none
  load code ctx := do
    match ← runBody bodies code ⟨code.realm, [], some ctx, false⟩ with
    | none => (ctx.newModule : Program Session Module)
    | some (.module m) => return m
    | some v => Task.fail (.host (.other ("factory returned a " ++ v.kind.label)))

/-! ## Scripts -/

/-- How deeply bodies may nest. -/
def nesting : Nat := 40

/-- The answer to one step of the script: what came of it and what was logged meanwhile. -/
def answerStep (frame : Frame) (step : Step) : Program Session Datum := do
  let _ ← Program.send (.guest fun s => { s with log := [] })
  let answer : Exec Datum := do
    match ← (step.run frame).outcome with
    | .ok (.report r) => showReport (.record [("ok", r)])
    | .ok (.returned v) => showReport (.record [("return", .value v)])
    | .error failure => showReport (.record failure.fields)
  let (shown, _) ← answer.run.run ∅
  let session ← Program.send (.guest id)
  match shown with
  | .ok (.record fields) =>
    return .record (fields ++ if session.log.isEmpty then [] else [("log", .list session.log)])
  | _ => return .null

def answerSteps (frame : Frame) : List Step → Program Session (List Datum)
  | [] => return []
  | step :: steps => do
    let first ← answerStep frame step
    return first :: (← answerSteps frame steps)

/-- Runs a script in a new realm named `main` and answers each of its steps. -/
def run (s : Script) (config : Config) : Except ObjectError (List Datum) :=
  match Host.empty.boot config with
  | (.error e, _) => .error e
  | (.ok realm, host) =>
    let session := { Session.initial with realms := Table.empty.insert "main" realm }
    let program := answerSteps ⟨realm, [], none, true⟩ s.steps
    .ok (program.run ((guest s.bodies).runner nesting) ⟨host, session⟩).1

end ObjectHost.Script
