import Unnest.Types.Equality

/-!
# Looking up members

Lookups are exact.  A call finds the first routine of its type that has its name
and whose parameters equal its arguments one by one; nothing is widened and
nothing converted.  A field is found by its name alone.

## Member routines as values

A member routine can be read without calling it.  Its value has a routine type
with one call signature for each member routine of that name, made on the first
reading and kept, so that two readings have one type.

Lookups that compare argument lists come in two forms, as equality does: one that
answers `none` when it would have to look at a type that is not in the table, and
the one that analysis uses, for which that is no match.
-/

namespace Unnest.TypeTable

/-- Whether a signature has a name and takes exactly these arguments.  The name is
compared first; the arguments of other routines are never looked at. -/
def accepts? (t : TypeTable) (name : String) (args : List TypeId) (s : Signature) : Option Bool :=
  if s.name = name then t.argsEqual? s.params args else some false

/-- The first routine of `type` called `name` that takes exactly `args`, with the
outer `none` for a lookup that leaves the table. -/
def lookup? (t : TypeTable) (type : TypeId) (isStatic : Bool) (name : String)
    (args : List TypeId) : Option (Option Signature) := do
  ((← t.get? type).routinesOf isStatic).findM? (t.accepts? name args)

/-- The first routine of `type` called `name` that takes exactly `args`. -/
def lookup (t : TypeTable) (type : TypeId) (isStatic : Bool) (name : String)
    (args : List TypeId) : Option Signature :=
  (t.lookup? type isStatic name args).join

/-- The field of `type` called `name`. -/
def lookupField (t : TypeTable) (type : TypeId) (isStatic : Bool) (name : String) :
    Option Binding :=
  ((t.get type).fieldsOf isStatic).find? (·.name == name)

/-- The type kept for reading member routines as values, if they were read before. -/
def memberType? (t : TypeTable) (key : MemberKey) : Option TypeId :=
  (t.memberTypes.find? (·.1 == key)).map (·.2)

/-- The call signatures of the member routines that a key names. -/
def memberSignatures (t : TypeTable) (key : MemberKey) : List Signature :=
  (((t.get key.owner).routinesOf key.isStatic).filter (·.name == key.name)).map
    fun s => { s with name := Reserved.call }

/-- The type of the member routines that a key names, made if need be; `none` when
there are no such routines. -/
def memberType (t : TypeTable) (key : MemberKey) : Option TypeId × TypeTable :=
  match t.memberType? key with
  | some id => (some id, t)
  | none =>
    match t.memberSignatures key with
    | [] => (none, t)
    | signatures =>
      let (id, t) := t.add (.ofSignatures signatures)
      (some id, { t with memberTypes := t.memberTypes ++ [(key, id)] })

/-- The member routines of `owner` called `name`, as one routine-valued member. -/
def memberRoutine (t : TypeTable) (owner : TypeId) (isStatic : Bool) (name : String) :
    Option Binding × TypeTable :=
  let (type, t) := t.memberType ⟨owner, name, isStatic⟩
  (type.map fun type => { name, type, role := .member isStatic, owner := some owner }, t)

/-- Whether a `value` may be written into a `target`, with `none` for a question
that leaves the table.  A routine that assigns such values always allows it;
otherwise there must be a binding to write to, of an equal type. -/
def assignable? (t : TypeTable) (hasBinding : Bool) (target value : TypeId) : Option Bool := do
  match ← t.lookup? target false Reserved.assignment [value] with
  | some _ => return true
  | none => if hasBinding then t.equal? target value else return false

/-- Whether a `value` may be written into a `target`. -/
def assignable (t : TypeTable) (hasBinding : Bool) (target value : TypeId) : Bool :=
  (t.lookup target false Reserved.assignment [value]).isSome ||
    hasBinding && t.equal target value

end Unnest.TypeTable
