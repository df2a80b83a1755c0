import Unnest.Host.Regex.Reader
import Unnest.Host.Shell.Simple

/-!
# Running commands

What a command does is said case by case, by what its parts do one level further in:
pipelines, conditions, loops and choices.  The `engine` of a depth ties the knot, and a
script that goes deeper than the bound ends as if its memory was used up.
-/

namespace Unnest.Host.Shell

namespace Act

/-! ## Pipelines -/

/-- Runs the parts of a pipeline from left to right, each with what the one before it
has written to read: how they ended. -/
def runStages (e : Engine) : (input? : Option Nat) → List Command → Act (List ExitStatus)
  | _, [] => return []
  | input?, [c] => do
    let status ← beside e do
      if input?.isSome then setDescriptor 0 input?
      e.finish c
    return [status]
  | input?, c :: cs => do
    let (reader, writer, machine) := (← takeMachine).makePipe
    modify fun s => { s with machine }
    let status ← beside e do
      if input?.isSome then setDescriptor 0 input?
      setDescriptor 1 (some writer)
      e.finish c
    return status :: (← runStages e (some reader) cs)

/-- Runs a pipeline. -/
def runPipeline (e : Engine) (cs : List Command) : Act Unit := do
  let ended ← runStages e none cs
  let numbers := ended.map (·.number)
  let status :=
    if ← isOn "pipefail" then (numbers.reverse.find? (· != 0)).getD 0 else numbers.getLastD 0
  modify fun s => { s with status, statuses := numbers }

/-! ## Loops -/

/-- How many rounds a loop can have. -/
def roundLimit : Nat := Nat.pow 10 6

/-- What becomes of a loop whose body was left; whether the loop goes on. -/
def afterRound : Except Leave Unit → Act Bool
  | .ok () => return true
  | .error (.breakLoop n) => if n ≤ 1 then return false else throw (.breakLoop (n - 1))
  | .error (.nextRound n) => if n ≤ 1 then return true else throw (.nextRound (n - 1))
  | .error leave => throw leave

/-- Does something in a loop. -/
def inLoop (a : Act Unit) : Act Unit :=
  restoring (fun before after => { after with loops := before.loops }) do
    modify fun s => { s with loops := s.loops + 1 }
    a

/-- Runs a loop as long as its condition ends as it should; `status` is that of its last
round. -/
def runLoop (e : Engine) (isUntil : Bool) (condition body : Command) : (steps status : Nat) → Act Unit
  | 0, _ => throw .stall
  | steps + 1, status => do
    let asked ← attempt (tested (e.execute condition))
    if asked matches .error _ then
      -- what leaves the condition leaves the round
      if ← afterRound asked then runLoop e isUntil condition body steps 0 else return
    else if ((← get).status = 0) == isUntil then setStatus status
    else if ← afterRound (← attempt (e.execute body)) then
      runLoop e isUntil condition body steps (← get).status
    else return

/-- Runs a body once for each value of a variable. -/
def runForEach (e : Engine) (name : String) (body : Command) : List String → Act Unit
  | [] => return
  | value :: values => do
    assignText name value
    if ← afterRound (← attempt (e.execute body)) then runForEach e name body values

/-- The value of an expression that can be left out. -/
def countValue (e : Engine) (w : Word) (missing : Int) : Act Int := do
  let text ← expandText e w
  if text.all Octets.isSpace then return missing else arithmetic text

/-- Runs a body as long as an expression is not zero. -/
def runForCount (e : Engine) (condition step : Word) (body : Command) : (steps : Nat) → Act Unit
  | 0 => throw .stall
  | steps + 1 => do
    if (← countValue e condition 1) != 0 then
      if ← afterRound (← attempt (e.execute body)) then
        let _ ← countValue e step 0
        runForCount e condition step body steps

/-! ## Choices -/

/-- Whether a text is what one of several patterns matches. -/
def matchesOne (e : Engine) (subject : String) : List Word → Act Bool
  | [] => return false
  | w :: ws => do
    let pattern := Pattern.ofGlyphs (← isRich) (← expandGlyphs e w)
    let ignoresCase ← isOn "nocasematch"
    let subject' := if ignoresCase then subject.map Char.toLower else subject
    if pattern.isMatch subject'.toList then return true else matchesOne e subject ws

/-- Runs the branches whose patterns match; `isTaken` says that the next one is run
whatever its patterns are. -/
def runChoice (e : Engine) (subject : String) (isTaken : Bool) :
    List (List Word × Command × Ending) → Act Unit
  | [] => return
  | (patterns, body, ending) :: branches => do
    let isMatch ← if isTaken then pure true else matchesOne e subject patterns
    if isMatch then
      e.execute body
      match ending with
      | .leave => return
      | .fallThrough => runChoice e subject true branches
      | .goOn => runChoice e subject false branches
    else runChoice e subject false branches

/-- Runs the first branch whose condition ends well. -/
def runBranches (e : Engine) (otherwise : Option Command) : List (Command × Command) → Act Unit
  | [] =>
    match otherwise with
    | some c => e.execute c
    | none => setStatus 0
  | (condition, body) :: branches => do
    tested (e.execute condition)
    if (← get).status = 0 then e.execute body else runBranches e otherwise branches

/-! ## Conditions between double brackets -/

/-- The text of an expression in which quoted characters mean themselves. -/
def expressionText (gs : List Glyph) : String :=
  String.join (gs.map fun g =>
    if g.isLiteral && !(g.char.isAlphanum || g.char = '_') && g.char != ' ' && g.char != '/' then
      if g.char = '^' then "\\^" else "[" ++ g.char.toString ++ "]"
    else g.char.toString)

/-- How expressions are written between double brackets. -/
def expressionManner : Regex.Manner :=
  { isExtended := true, leading := .mistake, closesFreely := true }

/-- Whether an expression matches somewhere in a text; what its groups have matched is
kept. -/
def matchExpression (subject : String) (gs : List Glyph) : Act Bool := do
  match Regex.ofText expressionManner (expressionText gs) with
  | .error _ => do
    setStatus 2
    throw .failed
  | .ok r =>
    match Regex.searchText { ignoresCase := ← isOn "nocasematch" } r subject.toList with
    | none => do
      assign "BASH_REMATCH" (.indexed [])
      return false
    | some m => do
      let whole := String.ofList ((subject.toList.drop m.first).take m.length)
      let count := (m.stop.captures.map (·.1)).foldl max 0
      let groups := (List.range count).map fun i => (i + 1, String.ofList (m.group (i + 1)))
      assign "BASH_REMATCH" (.indexed ((0, whole) :: groups))
      return true

/-- The answer to a question about two words. -/
def askBinary (e : Engine) (left : Word) (operator : String) (right : Word) : Act Bool := do
  let subject ← expandText e left
  match operator with
  | "=" | "==" => matchesOne e subject [right]
  | "!=" => return !(← matchesOne e subject [right])
  | "=~" => do matchExpression subject (← expandGlyphs e right)
  | "<" => return decide (subject < (← expandText e right))
  | ">" => return decide ((← expandText e right) < subject)
  | "-eq" | "-ne" | "-lt" | "-le" | "-gt" | "-ge" => do
    let m ← arithmetic subject
    let n ← arithmetic (← expandText e right)
    return match operator with
      | "-eq" => m == n
      | "-ne" => m != n
      | "-lt" => decide (m < n)
      | "-le" => decide (m ≤ n)
      | "-gt" => decide (n < m)
      | _ => decide (n ≤ m)
  | _ => do
    let other ← expandText e right
    let s : Shell ← get
    let asker : Asker := { printer := .richShell, files := s.machine.files, process := s.process }
    return (Condition.binary asker subject operator other).toOption.getD false

/-- The answer to a question about one word. -/
def askUnary (e : Engine) (operator : String) (w : Word) : Act Bool := do
  let text ← expandText e w
  let s : Shell ← get
  let asker : Asker :=
    { printer := .richShell, files := s.machine.files, process := s.process
      isSet := fun x => (s.bindings.lookup x).any (·.value?.isSome)
      isOn := s.options.contains }
  return (Condition.unary asker operator text).toOption.getD false

/-- The answer to a condition. -/
def ask (e : Engine) : TestExpression → Act Bool
  | .word w => return (← expandText e w) != ""
  | .unary operator w => askUnary e operator w
  | .binary left operator right => askBinary e left operator right
  | .not t => return !(← ask e t)
  | .and t u => do if ← ask e t then ask e u else return false
  | .or t u => do if ← ask e t then return true else ask e u

/-! ## All commands -/

/-- Does something after which a failure ends the shell that was asked to do so. -/
def checked (e : Engine) (a : Act Unit) : Act Unit := do
  a
  lookAround e
  checkFailure e

/-- Does a computation whose faults are only a status. -/
def settled (a : Act Unit) : Act Unit := do
  match ← attempt a with
  | .ok () | .error .failed => return
  | .error .abandon => setStatus 1
  | .error leave => throw leave

/-- Runs a command; `isLast` says that nothing follows it in the shell. -/
def perform (e : Engine) (isLast : Bool) (c : Command) : Act Unit := do
  match c with
  | .simple line as ws rs => do
    -- the rich shell lets its last program take its place
    let replaces := isLast && (← isRich) && (← get).traps.isEmpty && (← get).waiting.isEmpty
    checked e (runSimple e replaces line as ws rs)
  | .pipeline isNegated [c] => do
    if isNegated then
      tested (e.execute c)
      modify fun s => { s with status := if s.status = 0 then 1 else 0 }
    else e.execute c
  | .pipeline isNegated cs => do
    if isNegated then
      tested (runPipeline e cs)
      modify fun s => { s with status := if s.status = 0 then 1 else 0 }
      lookAround e
    else checked e (runPipeline e cs)
  | .both c d => do
    tested (e.execute c)
    if (← get).status = 0 then (if isLast then e.finish d else e.execute d)
  | .either c d => do
    tested (e.execute c)
    if (← get).status != 0 then (if isLast then e.finish d else e.execute d)
  | .sequence cs =>
    match cs.getLast? with
    | none => return
    | some last => do
      cs.dropLast.forM e.execute
      if isLast then e.finish last else e.execute last
  | .background c => leaveBehind c
  | .subshell c =>
    checked e do
      let status ← beside e (e.finish c)
      setStatus status.number
  | .group c => e.execute c
  | .conditional branches otherwise => runBranches e otherwise branches
  | .loop isUntil condition body => inLoop (runLoop e isUntil condition body roundLimit 0)
  | .forEach line name words? body => do
    modify fun s => { s with line }
    let values ←
      match words? with
      | some ws => expandAll e ws
      | none => pure (← get).arguments
    if !isName name then
      complain s!"\x60{name}': not a valid identifier"
      setStatus 1
    else
      setStatus 0
      inLoop (runForEach e name body values)
  | .forCount line first condition step body => do
    modify fun s => { s with line }
    settled do
      let _ ← countValue e first 0
      setStatus 0
      inLoop (runForCount e condition step body roundLimit)
  | .choice line subject branches => do
    modify fun s => { s with line }
    let subject ← expandText e subject
    setStatus 0
    runChoice e subject false branches
  | .function name body => do
    modify fun s =>
      { s with functions := s.functions.filter (·.1 != name) ++ [(name, body)], status := 0 }
  | .test line t => do
    modify fun s => { s with line }
    checked e (settled do
      let value ← ask e t
      setStatus (if value then 0 else 1))
  | .arithmetic line w => do
    modify fun s => { s with line }
    checked e (settled do
      let n ← countValue e w 0
      setStatus (if n = 0 then 1 else 0))
  | .redirected c rs => redirected e rs (e.execute c) (if ← isRich then checkFailure e else return)

/-- What the parts of a shell need of each other, one level outside of another. -/
def engineAround (inner : Engine) : Engine :=
  { launch := inner.launch
    execute := perform inner false
    finish := perform inner true
    capture := capture inner (expandText inner)
    evaluate := runScript inner false
    attach := attach inner
    await := await inner }

/-- The engine of a depth. -/
def engine (launch : Launcher) : (depth : Nat) → Engine
  | 0 =>
    let stop {α : Type} : Act α := throw (.signal ⟨11⟩)
    { launch, execute := fun _ => stop, finish := fun _ => stop, capture := fun _ => stop
      evaluate := fun _ => stop, attach := fun _ _ => stop, await := fun _ => stop }
  | depth + 1 => engineAround (engine launch depth)

end Act

end Unnest.Host.Shell
