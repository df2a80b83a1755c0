import Unnest.Proofs.Analysis.Known
import Unnest.Proofs.Lowering.Writing

/-!
# What code calls

A method is referred to by its owner, its name and its descriptor, and what kind of
method it is decides which instruction calls it.  The code of an accepted program refers to
methods of three origins (`Lowering.Callable`): those that the runtime library offers,
as the predefined types list them; those of the class that every routine extends; and
those of the classes that definitions on record become.

References are made up where something is called, far from where the methods are
declared.  Here every call of an expression, of a declaration and of an assignment is
traced back to its origin.
-/

namespace Unnest

open Code

namespace Code

/-- How an instruction calls a method. -/
inductive CallKind where
  /-- A method of an object. -/
  | virtual
  /-- A constructor. -/
  | special
  /-- A method of a class. -/
  | static
  deriving DecidableEq, Repr

/-- How methods that are no constructors are called. -/
def CallKind.ofStatic (isStatic : Bool) : CallKind := if isStatic then .static else .virtual

/-- The method that an instruction calls, and how. -/
def Instruction.call? : Instruction → Option (CallKind × MethodRef)
  | .invokeVirtual m => some (.virtual, m)
  | .invokeSpecial m => some (.special, m)
  | .invokeStatic m => some (.static, m)
  | _ => none

end Code

/-! ## The runtime library -/

/-- A routine of a type as a method of the type's class. -/
def TypeTable.method (t : TypeTable) (id : TypeId) (r : Signature) : MethodRef :=
  ⟨t.path id, r.name, ⟨r.params.map t.descriptor, r.result.map t.descriptor⟩⟩

namespace Predefined

/-- A method of the runtime library: a predefined type lists it with this name, this
descriptor and this staticness. -/
def Lists (base : String) (isStatic : Bool) (m : MethodRef) : Prop :=
  ∃ id, (TypeTable.predefined base).Has id ∧
    ∃ r ∈ ((TypeTable.predefined base).get id).routinesOf isStatic,
      m = (TypeTable.predefined base).method id r

/-- A constructor of the runtime library.  One of each class takes nothing, and those of
the value classes have another that takes a constant. -/
inductive Constructs (base : String) : MethodRef → Prop
  | nothing {id : TypeId} (h : (TypeTable.predefined base).Has id) :
      Constructs base ⟨(TypeTable.predefined base).path id, Reserved.constructor, .void⟩
  | integer : Constructs base
      ⟨libraryPath Reserved.integer, Reserved.constructor, ⟨["I"], none⟩⟩
  | real : Constructs base ⟨libraryPath Reserved.real, Reserved.constructor, ⟨["D"], none⟩⟩
  | bool : Constructs base ⟨libraryPath Reserved.bool, Reserved.constructor, ⟨["I"], none⟩⟩
  | string : Constructs base
      ⟨libraryPath Reserved.string, Reserved.constructor, ⟨[Reserved.textDescriptor], none⟩⟩

end Predefined

namespace TypeTable

variable {t : TypeTable} {id : TypeId}

theorem path_eq_of_get_eq {t' : TypeTable} (h : t.get id = t'.get id)
    (hbase : t.routineBase = t'.routineBase) : t.path id = t'.path id := by
  rw [path, path, h, hbase]

theorem Sound.path_predefined (ht : Sound t) (h : (TypeTable.predefined t.routineBase).Has id) :
    t.path id = (TypeTable.predefined t.routineBase).path id :=
  path_eq_of_get_eq (ht.predefined id h).2 rfl

/-- The routines of predefined types take and give values of predefined types. -/
theorem mentions_predefined {base : String} (h : (predefined base).Has id) {isStatic : Bool}
    {r : Signature} (hr : r ∈ ((predefined base).get id).routinesOf isStatic) :
    ∀ p ∈ r.params ++ r.result.toList, (predefined base).Has p := by
  obtain ⟨i⟩ := id
  rw [Has, size_predefined] at h
  dsimp only at h
  have hall : ∀ d ∈ [Predefined.integer, Predefined.real, Predefined.string, Predefined.bool,
      Predefined.print, Predefined.read], ∀ b, ∀ r ∈ d.routinesOf b,
        ∀ p ∈ r.params ++ r.result.toList, p.index < 6 := by decide
  have hi : i = 0 ∨ i = 1 ∨ i = 2 ∨ i = 3 ∨ i = 4 ∨ i = 5 := by omega
  refine hall ((predefined base).get ⟨i⟩) ?_ isStatic r hr
  rcases hi with rfl | rfl | rfl | rfl | rfl | rfl <;> simp [predefined, get, get?]

/-- A method of a library class is one that the library has. -/
theorem Sound.lists (ht : Sound t) (h : (TypeTable.predefined t.routineBase).Has id)
    {isStatic : Bool} {r : Signature} (hr : r ∈ (t.get id).routinesOf isStatic) :
    Predefined.Lists t.routineBase isStatic (t.method id r) := by
  rw [(ht.predefined id h).2] at hr
  have hdescriptor : ∀ p ∈ r.params ++ r.result.toList,
      t.descriptor p = (TypeTable.predefined t.routineBase).descriptor p := fun p hp => by
    rw [descriptor, descriptor, ht.path_predefined (mentions_predefined h hr p hp)]
  have hparams : r.params.map t.descriptor =
      r.params.map (TypeTable.predefined t.routineBase).descriptor :=
    List.map_congr_left fun p hp => hdescriptor p (List.mem_append_left _ hp)
  have hresult : r.result.map t.descriptor =
      r.result.map (TypeTable.predefined t.routineBase).descriptor :=
    Option.map_congr fun p hp => hdescriptor p (List.mem_append_right _ (Option.mem_toList.mpr hp))
  refine ⟨id, h, r, hr, ?_⟩
  rw [method, method, ht.path_predefined h, hparams, hresult]

/-- A type whose form is neither that of routines nor that of a definition is predefined. -/
theorem Sound.predefined_of_has (ht : Sound t) (h : t.Has id) (hr : t.form id ≠ .routine)
    (hu : t.form id ≠ .user) : (TypeTable.predefined t.routineBase).Has id :=
  (ht.defined id h).resolve_right fun h => h.elim hr hu

end TypeTable

namespace Lowering

/-! ## Where calls go -/

/-- A method that code may call, and how. -/
inductive Callable (z : Analysis) : CallKind → MethodRef → Prop
  /-- The constructor of the class above all others. -/
  | object : Callable z .special ⟨Reserved.object, Reserved.constructor, .void⟩
  | library {isStatic : Bool} {m : MethodRef}
      (h : Predefined.Lists z.types.routineBase isStatic m) : Callable z (.ofStatic isStatic) m
  | libraryConstructor {m : MethodRef} (h : Predefined.Constructs z.types.routineBase m) :
      Callable z .special m
  /-- The constructor of the class that every routine extends. -/
  | base : Callable z .special ⟨z.types.routineBase, Reserved.constructor, .void⟩
  /-- A routine value is called through the class that every routine extends. -/
  | value (d : Descriptor) : Callable z .virtual ⟨z.types.routineBase, Reserved.call, d⟩
  /-- The constructor of a routine's class. -/
  | routine {node : NodeId} {f : RoutineFinding} (h : z.findings.routines.find? node = some f) :
      Callable z .special
        ⟨z.units.path f.unit, Reserved.constructor, ⟨(routineFields z f).map (·.2), none⟩⟩
  /-- The constructor of a type's class. -/
  | type {node : NodeId} {f : TypeFinding} (h : z.findings.types.find? node = some f) :
      Callable z .special ⟨z.types.path f.type, Reserved.constructor, .void⟩
  /-- The static method of a type's class. -/
  | staticInit {node : NodeId} {f : TypeFinding} (h : z.findings.types.find? node = some f) :
      Callable z .static
        ⟨z.types.path f.type, Reserved.staticInit, ⟨captureDescriptors z f.captures, none⟩⟩

/-- Code calls nothing but what it may call. -/
def CallsOnly (z : Analysis) (code : List Instruction) : Prop :=
  ∀ i ∈ code, ∀ c, i.call? = some c → Callable z c.1 c.2

variable {z : Analysis} {site : Site} {s v : ScopeId} {code : List Instruction}

@[simp] theorem callsOnly_nil : CallsOnly z [] := List.forall_mem_nil _

@[simp] theorem callsOnly_cons {i : Instruction} : CallsOnly z (i :: code) ↔
    (∀ c, i.call? = some c → Callable z c.1 c.2) ∧ CallsOnly z code := List.forall_mem_cons

@[simp] theorem callsOnly_append {code' : List Instruction} :
    CallsOnly z (code ++ code') ↔ CallsOnly z code ∧ CallsOnly z code' := List.forall_mem_append

theorem CallsOnly.append {code' : List Instruction} (h : CallsOnly z code)
    (h' : CallsOnly z code') : CallsOnly z (code ++ code') := callsOnly_append.mpr ⟨h, h'⟩

/-- Code without calls. -/
theorem CallsOnly.of_none (h : ∀ i ∈ code, i.call? = none) : CallsOnly z code :=
  fun i hi _ hc => absurd (hc.symm.trans (h i hi)) (by simp)

/-- One instruction that calls. -/
theorem CallsOnly.singleton {i : Instruction} {kind : CallKind} {m : MethodRef}
    (hi : i.call? = some (kind, m)) (h : Callable z kind m) : CallsOnly z [i] := by
  refine callsOnly_cons.mpr ⟨fun c hc => ?_, callsOnly_nil⟩
  obtain rfl := Option.some.inj (hi.symm.trans hc)
  exact h

/-! ## Values -/

theorem callsOnly_makeObject {path : String}
    (h : Callable z .special ⟨path, Reserved.constructor, .void⟩) : CallsOnly z (makeObject path) := by
  have hstart : CallsOnly z [.new path, .dup] := .of_none (by simp [Instruction.call?])
  exact hstart.append (.singleton rfl h)

/-- An object of a type that is not one of routines can be made. -/
theorem callable_constructor (hz : z.Accepted) (hk : z.Known []) {type : TypeId}
    (h : z.types.Has type) (hr : z.types.form type ≠ .routine) :
    Callable z .special ⟨z.types.path type, Reserved.constructor, .void⟩ := by
  by_cases hu : z.types.form type = .user
  · obtain ⟨⟨node, f⟩, hf, rfl⟩ := hk.recorded hz.errors hu
    exact .type ((Findings.nodup_types hz.keys).find?_eq hf)
  · have hpredefined := hz.sound.types.predefined_of_has h hr hu
    rw [hz.sound.types.path_predefined hpredefined]
    exact .libraryConstructor (.nothing hpredefined)

theorem callsOnly_defaultValue (hz : z.Accepted) (hk : z.Known []) {type : TypeId}
    (h : z.types.Has type) : CallsOnly z (defaultValue z type) := by
  have hmake := fun hr => callsOnly_makeObject (callable_constructor hz hk h hr)
  rw [defaultValue]
  split
  · exact .of_none (by simp [Instruction.call?])
  all_goals
    rename_i hform
    exact hmake (by simp [hform])

theorem callsOnly_loadInstance : CallsOnly z (loadInstance z site).code := by
  rw [loadInstance]
  split <;> simp [Instruction.call?]

theorem callsOnly_load (b : Binding) (access : Access) :
    CallsOnly z (load z site b access).code := by
  cases access <;> simp only [load]
  case captured => split <;> simp [Instruction.call?]
  case enclosing => split <;> simp [Instruction.call?, callsOnly_loadInstance]
  all_goals simp [Instruction.call?]

theorem callsOnly_beforeStore (access : Access) : CallsOnly z (beforeStore z site access).code := by
  cases access <;> simp only [beforeStore]
  case captured => split <;> simp [Instruction.call?]
  case enclosing => exact callsOnly_loadInstance
  all_goals simp

theorem callsOnly_store (b : Binding) (access : Access) :
    CallsOnly z (store z site b access).code := by
  cases access <;> simp only [store]
  case captured => split <;> simp [Instruction.call?]
  case enclosing => split <;> simp [Instruction.call?]
  all_goals simp [Instruction.call?]

theorem callsOnly_readMember (owner : TypeId) (b : Binding) (isStatic : Bool) :
    CallsOnly z (readMember z owner b isStatic) := by
  rw [readMember]
  split <;> simp [Instruction.call?]

theorem callsOnly_invokeRoutine (d : Descriptor) : CallsOnly z (invokeRoutine z d) :=
  .singleton rfl (.value d)

/-- A routine that was on offer is called where it is. -/
theorem callsOnly_callRoutine (hz : z.types.Sound) {owner : TypeId} {isStatic : Bool}
    {name : String} {ts : List TypeId} {r : Signature} (h : z.Offers owner isStatic name ts r)
    {args : Fragment} (hargs : CallsOnly z args.code) :
    CallsOnly z (callRoutine z owner r isStatic args).code := by
  obtain ⟨t, ht, hx, hl⟩ := h
  obtain ⟨hhas, hmem, -, -⟩ := TypeTable.lookup_spec hl
  have hlisted (hr : z.types.form owner ≠ .routine) (hu : z.types.form owner ≠ .user) :=
    hz.lists (hz.predefined_of_has (hx.has hhas) hr hu) ((hx.routines _ _ hhas).subset hmem)
  rw [callRoutine]
  split
  · rename_i hform
    refine hargs.append ?_
    have hm := hlisted (by simp [hform]) (by simp [hform])
    cases isStatic <;> exact .singleton rfl (.library hm)
  · rename_i hform
    refine hargs.append ?_
    have hm := hlisted (by simp [hform]) (by simp [hform])
    cases isStatic <;> exact .singleton rfl (.library hm)
  · refine .append (.append ?_ hargs) (callsOnly_invokeRoutine _)
    split <;> simp [Instruction.call?]
  · exact hargs.append (callsOnly_invokeRoutine _)

theorem callsOnly_makeConstant {type : TypeId} {constant : Instruction} {d : String}
    (hc : constant.call? = none)
    (h : Callable z .special ⟨z.types.path type, Reserved.constructor, ⟨[d], none⟩⟩) :
    CallsOnly z (makeConstant z type constant d) := by
  have hstart : ∀ i ∈ [.new (z.types.path type), .dup, constant], i.call? = none :=
    List.forall_mem_cons.mpr ⟨rfl, List.forall_mem_cons.mpr ⟨rfl, List.forall_mem_singleton.mpr hc⟩⟩
  exact CallsOnly.append (.of_none hstart) (.singleton rfl h)

theorem callsOnly_literal (hz : z.types.Sound) (l : Literal) : CallsOnly z (literal z l) := by
  have hpath : ∀ id : TypeId, id.index < 6 → z.types.path id =
      (TypeTable.predefined z.types.routineBase).path id := fun _ h => hz.path_predefined h
  cases l with
  | int value =>
    refine callsOnly_makeConstant rfl ?_
    rw [hpath _ (by decide)]
    exact .libraryConstructor .integer
  | real bits =>
    refine callsOnly_makeConstant rfl ?_
    rw [hpath _ (by decide)]
    exact .libraryConstructor .real
  | bool value =>
    refine callsOnly_makeConstant rfl ?_
    rw [hpath _ (by decide)]
    exact .libraryConstructor .bool
  | string text =>
    refine callsOnly_makeConstant rfl ?_
    rw [hpath _ (by decide)]
    exact .libraryConstructor .string

/-! ## Expressions -/

theorem callsOnly_callValue (hz : z.types.Sound) {owner : TypeId} {name : String} {ts : List TypeId}
    {r : Signature} (h : z.Offers owner false name ts r) {value args : Fragment}
    (hvalue : CallsOnly z value.code) (hargs : CallsOnly z args.code) :
    CallsOnly z (value ++ callRoutine z owner r false args).code :=
  hvalue.append (callsOnly_callRoutine hz h hargs)

mutual

/-- An expression that has a type calls only what there is. -/
theorem callsOnly_expr (hz : z.Accepted) (hk : z.Known []) : (e : Expr) → {t : TypeId} →
    z.ExprHas s e t → CallsOnly z (expr z site e).code
  | .literal _ value _, _, _ => by
    rw [expr]
    exact callsOnly_literal hz.sound.types value
  | .binary _ _ left right _, _, h => by
    cases h with
    | binary hl hr call offer =>
      rw [expr, call]
      exact (callsOnly_expr hz hk left hl).append
        (callsOnly_callRoutine hz.sound.types offer (callsOnly_expr hz hk right hr))
  | .unary _ _ operand _, _, h => by
    cases h with
    | unary ho call offer =>
      rw [expr, call]
      exact callsOnly_callRoutine hz.sound.types offer (callsOnly_expr hz hk operand ho)
  | .paren _ inner _, _, h => by
    cases h with
    | paren hi =>
      rw [expr]
      exact callsOnly_expr hz hk inner hi
  | .chain c, _, h => by
    cases h with
    | chain hc =>
      rw [expr]
      exact callsOnly_chain hz hk c hc

theorem callsOnly_chain (hz : z.Accepted) (hk : z.Known []) : (c : Chain) →
    {t : Option TypeId} → z.ChainHas s c t → CallsOnly z (chain z site c).code
  | ⟨_, [], _⟩, _, h => nomatch h
  | ⟨_, head :: rest, _⟩, _, h => by
    cases h with
    | mk hh hr =>
      rw [chain, links]
      exact (callsOnly_head hz hk head hh).append (callsOnly_links hz hk rest hr)

theorem callsOnly_head (hz : z.Accepted) (hk : z.Known []) : (l : Link) → {hasMore : Bool} →
    {p : Produced} → z.HeadMakes s hasMore l p → CallsOnly z (link z site l).code
  | .bare _ _ _, _, _, h => by
    cases h with
    | load record =>
      rw [link, linkAt_eq record]
      exact callsOnly_load _ _
    | typeName _ record =>
      rw [link, linkAt_eq record]
      exact callsOnly_nil
  | .call _ _ args _, _, _, h => by
    cases h with
    | callBinding hargs offer record =>
      rw [link, linkAt_eq record]
      exact callsOnly_callValue hz.sound.types offer (callsOnly_load _ _)
        (callsOnly_exprs hz hk args hargs)
    | callType hargs offer record =>
      rw [link, linkAt_eq record]
      exact callsOnly_callRoutine hz.sound.types offer (callsOnly_exprs hz hk args hargs)
    | construct _ user record =>
      rw [link, linkAt_eq record]
      exact callsOnly_defaultValue hz hk (TypeTable.has_of_user user)

theorem callsOnly_link (hz : z.Accepted) (hk : z.Known []) : (l : Link) →
    {before after : Produced} → z.LinkMakes s before l after → CallsOnly z (link z site l).code
  | .bare _ _ _, _, _, h => by
    cases h with
    | field on role record =>
      rw [link, linkAt_eq record]
      exact callsOnly_readMember _ _ _
  | .call _ _ args _, _, _, h => by
    cases h with
    | callMember on hargs offer record =>
      rw [link, linkAt_eq record]
      exact callsOnly_callRoutine hz.sound.types offer (callsOnly_exprs hz hk args hargs)
    | callField on hargs role member offer record =>
      rw [link, linkAt_eq record, linkCode, member]
      exact callsOnly_callValue hz.sound.types offer (callsOnly_readMember _ _ _)
        (callsOnly_exprs hz hk args hargs)

theorem callsOnly_links (hz : z.Accepted) (hk : z.Known []) : (ls : List Link) →
    {before after : Produced} → z.LinksMake s before ls after → CallsOnly z (links z site ls).code
  | [], _, _, _ => by
    rw [links]
    exact callsOnly_nil
  | l :: ls, _, _, h => by
    cases h with
    | cons hl hls =>
      rw [links]
      exact (callsOnly_link hz hk l hl).append (callsOnly_links hz hk ls hls)

theorem callsOnly_exprs (hz : z.Accepted) (hk : z.Known []) : (es : List Expr) →
    {ts : List TypeId} → z.ArgsHave s es ts → CallsOnly z (exprs z site es).code
  | [], _, _ => by
    rw [exprs]
    exact callsOnly_nil
  | e :: es, _, h => by
    cases h with
    | cons he hes =>
      rw [exprs]
      exact (callsOnly_expr hz hk e he).append (callsOnly_exprs hz hk es hes)

end

end Lowering

end Unnest
