import Unnest.Host.Shell.Expansion

/-!
# Redirections

A redirection lets a descriptor lead somewhere else.  Redirections are made in order,
each with what the ones before it left; the first that fails is complained about, and
what they belong to is not run.
-/

namespace Unnest.Host.Shell

namespace Act

/-- Lets a descriptor of the shell lead somewhere, or nowhere. -/
def setDescriptor (descriptor : Nat) (opening? : Option Nat) : Act Unit :=
  modify fun s => { s with process := s.process.setDescriptor descriptor opening? }

def setMachine (m : Machine) : Act Unit := modify fun s => { s with machine := m }

/-- A fault at opening a file in the words of the shell. -/
def openFault (path : String) (creates : Bool) (f : Fault) : Act String := do
  if ← isRich then
    match f with
    | .present => return s!"{path}: cannot overwrite existing file"
    | f => return s!"{path}: {f.text}"
  else
    let verb := if creates then "create" else "open"
    let reason :=
      match f with
      | .missing | .notDirectory => if creates then "Directory nonexistent" else "No such file"
      | f => f.text
    return s!"cannot {verb} {path}: {reason}"

/-- Opens a file for a descriptor; whether that went well. -/
def openFor (descriptor : Nat) (path : String) (access : Access) : Act Bool := do
  let s ← get
  match s.machine.openPath s.process path access with
  | .ok (opening, m) => do
    setMachine m
    setDescriptor descriptor (some opening)
    return true
  | .error f => do
    complain (← openFault path (access != .read) f)
    return false

/-- Lets a descriptor read a text. -/
def readFrom (descriptor : Nat) (text : String) : Act Unit := do
  let s ← get
  let (reader, _, m) := s.machine.makePipe
  let m :=
    match (m.opening reader).channel with
    | .pipe n => { m with pipes := m.pipes.set! n text }
    | _ => m
  setMachine m
  setDescriptor descriptor (some reader)

/-- The path that a redirection leads to; `none` if it is not one. -/
def targetPath (e : Engine) (w : Word) : Act (Option String) := do
  if ← isRich then
    match ← expandFields e w with
    | [path] => return some path
    | _ => do
      let source :=
        match w with
        | [.text s] => s
        | [.parameter name none false .value _] => "$" ++ name
        | _ => ""
      complain s!"{source}: ambiguous redirect"
      return none
  else return some (← expandText e w)

/-- Lets a descriptor lead where another does; whether that went well. -/
def duplicate (e : Engine) (r : Redirection) (descriptor : Nat) : Act Bool := do
  let text ← expandText e r.target
  if text = "-" then do
    setDescriptor descriptor none
    return true
  let (digits, closes) :=
    match Octets.before? "-" text with
    | some digits => (digits, true)
    | none => (text, false)
  match Numeral.decimal? digits with
  | some n => do
    let s ← get
    match s.process.opening? n with
    | some opening => do
      setDescriptor descriptor (some opening)
      if closes && n != descriptor then setDescriptor n none
      return true
    | none => do
      complain s!"{n}: {Fault.badDescriptor.text}"
      return false
  | none => do
    if ← isRich then
      if r.kind == .duplicateOutput && r.descriptor?.isNone then
        let well ← openFor 1 text .write
        if well then setDescriptor 2 ((← get).process.opening? 1)
        return well
      else
        complain s!"{text}: ambiguous redirect"
        return false
    else
      complain "Syntax error: Bad fd number"
      setStatus 2
      throw .quit

/-- The descriptor that a redirection changes. -/
def descriptorOf (r : Redirection) : Nat :=
  r.descriptor?.getD <|
    match r.kind with
    | .input | .readWrite | .duplicateInput | .document _ | .line => 0
    | _ => 1

/-- The descriptors that a redirection changes. -/
def descriptorsOf (r : Redirection) : List Nat :=
  match r.kind with
  | .bothOutput | .bothAppend => [1, 2]
  | .duplicateOutput => if r.descriptor?.isNone then [1, 2] else [descriptorOf r]
  | _ => if r.name?.isSome then [] else [descriptorOf r]

/-- The first number that no descriptor has, from ten on. -/
def freeDescriptor (p : Process) : Nat :=
  ((List.range (p.descriptors.length + 1)).map (· + 10)).find? (fun n => (p.opening? n).isNone)
    |>.getD 10

/-- Makes a redirection; whether that went well. -/
def redirect (e : Engine) (r : Redirection) : Act Bool := do
  let descriptor ←
    match r.name? with
    | some name => do
      -- a closing one names the descriptor by the variable
      match ← expandText e r.target, Numeral.decimal? ((← textOf? name).getD "") with
      | "-", some n => pure n
      | _, _ => do
        let n := freeDescriptor (← get).process
        assignText name (toString n)
        pure n
    | none => pure (descriptorOf r)
  let file (access : Access) : Act Bool := do
    match ← targetPath e r.target with
    | some path => openFor descriptor path access
    | none => return false
  match r.kind with
  | .input => file .read
  | .output => file (if ← isOn "noclobber" then .fresh else .write)
  | .clobber => file .write
  | .append => file .append
  | .readWrite => file .readWrite
  | .duplicateInput | .duplicateOutput => duplicate e r descriptor
  | .document number => do
    let w := ((← get).documents[number]?).getD []
    readFrom descriptor (Shard.text (← expandWord e w))
    return true
  | .line => do
    readFrom descriptor ((← expandText e r.target) ++ "\n")
    return true
  | .bothOutput | .bothAppend => do
    match ← targetPath e r.target with
    | some path => do
      let well ← openFor 1 path (if r.kind == .bothOutput then .write else .append)
      if well then setDescriptor 2 ((← get).process.opening? 1)
      return well
    | none => return false

/-- Makes redirections up to the first that fails; whether all went well. -/
def redirectAll (e : Engine) : List Redirection → Act Bool
  | [] => return true
  | r :: rs => do
    if ← redirect e r then redirectAll e rs else return false

/-- Brings descriptors back to what they led to before. -/
def restoreDescriptors (descriptors : List Nat) (before : Memory) (after : Shell) : Shell :=
  { after with
    process := descriptors.foldl (fun p d => p.setDescriptor d (before.process.opening? d)) after.process }

/-- Does something under redirections; `otherwise` if they cannot be made. -/
def redirected {α : Type} (e : Engine) (rs : List Redirection) (body otherwise : Act α) : Act α :=
  if rs.isEmpty then body
  else
    restoring (restoreDescriptors (rs.flatMap descriptorsOf)) do
      if ← redirectAll e rs then body
      else
        setStatus (if ← isRich then 1 else 2)
        otherwise

end Act

end Unnest.Host.Shell
