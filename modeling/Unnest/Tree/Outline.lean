import Unnest.Tree.Basic

/-!
# Outlines

The outline of a tree is a list of lines, one for each node before the lines of
its parts, that shows everything a tree holds: ids, positions, names and the
routine each operator calls.  Blocks and definitions end with a line of their own.
-/

namespace Unnest.Outline

/-- The `n` lowest hexadecimal digits of a number, the highest first. -/
def hexDigits : Nat → Nat → List Char
  | 0, _ => []
  | n + 1, value => hexDigits n (value / 16) ++ [Nat.digitChar (value % 16)]

/-- The sixteen digits of a word. -/
def hex (bits : UInt64) : String := String.ofList (hexDigits 16 bits.toNat)

/-- A node's id and position. -/
def mark (node : NodeId) (span : Span) : String := s!"{node.describe} {span.describe}"

def ident (i : Ident) : String := s!"{i.name}@{i.span.describe}"

def idents (names : List Ident) : String := ",".intercalate (names.map ident)

mutual

/-- A written type: a name, or parameters and result in the order they are written. -/
def type : WrittenType → String
  | .named name => ident name
  | .routine params result span =>
    "routine(" ++ ",".intercalate (types params) ++ ")->" ++ resultType result ++
      s!"@{span.describe}"

def types : List WrittenType → List String
  | [] => []
  | t :: ts => type t :: types ts

/-- A result type, with a dash for none. -/
def resultType : Option WrittenType → String
  | none => "-"
  | some t => type t

end

def literal : Literal → String
  | .int value => s!"int {value}"
  | .real bits => s!"real {hex bits}"
  | .bool value => s!"bool {value}"
  | .string text => s!"string {text}"

mutual

def expr : Expr → List String
  | .literal node value span => [s!"literal {mark node span} {literal value}"]
  | .binary node op left right span =>
    s!"binary {mark node span} {op.symbol} {op.routine}" :: expr left ++ expr right
  | .unary node op operand span =>
    s!"unary {mark node span} {op.symbol} {op.routine}" :: expr operand
  | .paren node inner span => s!"paren {mark node span}" :: expr inner
  | .chain c => chain c

def chain : Chain → List String
  | ⟨node, parts, span⟩ =>
    let last := (parts.getLast?.map fun l => l.name.name).getD "-"
    s!"chain {mark node span} last={last}" :: links parts

def link : Link → List String
  | .bare node name span => [s!"link {mark node span} {ident name} args=-"]
  | .call node name args span =>
    s!"link {mark node span} {ident name} args={args.length}" :: exprs args

def links : List Link → List String
  | [] => []
  | l :: ls => link l ++ links ls

def exprs : List Expr → List String
  | [] => []
  | e :: es => expr e ++ exprs es

end

/-- A declaration's line, under the word for what it declares. -/
def varDecl (what : String) (d : VarDecl) : String :=
  s!"{what} {mark d.node d.span} : {type d.type} [{idents d.names}]"

def param (p : Param) : String := s!"{type p.type} {ident p.name}"

def returnClause : Option ReturnClause → List String
  | none => []
  | some ret => s!"return {ret.span.describe}" :: expr ret.value

mutual

def stmt : Stmt → List String
  | .declare d => [varDecl "decl" d]
  | .define d =>
    s!"new {mark d.node d.span} : {type d.type} [{idents d.names}]" :: expr d.value
  | .assign a => s!"assign {mark a.node a.span}" :: chain a.target ++ expr a.value
  | .call c => s!"call {c.span.describe}" :: chain c
  | .branch gs e span => s!"if {span.describe}" :: branches gs ++ otherwise e ++ ["end if"]
  | .loop g => guarded "loop" g
  | .routine r => routine "routine" r
  | .type t => typeDef t

/-- A body under a condition, between two lines that start and end with `what`. -/
def guarded : String → Guarded → List String
  | what, ⟨node, condition, body, span⟩ =>
    s!"{what} {mark node span}" :: expr condition ++ stmts body ++ [s!"end {what}"]

def otherwise : Else → List String
  | .absent => []
  | .block node body span => s!"else {mark node span}" :: stmts body

def routine : String → RoutineDef → List String
  | what, ⟨node, name, closing, params, result, body, ret, span⟩ =>
    let header := ",".intercalate (params.map param)
    s!"{what} {mark node span} {ident name} ({header}) {resultType result}" ::
      stmts body ++ returnClause ret ++ [s!"end {what} {ident closing}"]

def typeDef : TypeDef → List String
  | ⟨node, name, closing, fields, staticFields, members, staticMembers, span⟩ =>
    s!"type {mark node span} {ident name}" ::
      fields.map (varDecl "field") ++
      staticFields.flatMap (fun f => varDecl "static field" f.decl :: expr f.init) ++
      routines "member" members ++ routines "static member" staticMembers ++
      [s!"end type {ident closing}"]

def stmts : List Stmt → List String
  | [] => []
  | s :: ss => stmt s ++ stmts ss

def branches : List Guarded → List String
  | [] => []
  | g :: gs => guarded "branch" g ++ branches gs

def routines : String → List RoutineDef → List String
  | _, [] => []
  | what, r :: rs => routine what r ++ routines what rs

end

end Unnest.Outline

/-- The outline of a program's statements. -/
def Unnest.Program.outline (p : Unnest.Program) : List String := Unnest.Outline.stmts p.stmts
