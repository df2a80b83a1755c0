import Unnest.Proofs.Analysis.Grounded
import Unnest.Proofs.Analysis.Reached

/-!
# What tasks are handed

A task is handed types, scopes and units: those that it was called with, as far as the ones
before it found or made them.  `Task.types`, `Task.scopes` and `Task.units` list them.

Wherever a program reaches a task, the types are in the table (`Reached.supplies`): every
part of the analysis grounds what comes after it.  So it is with the scopes and the units
(`Reached.has_scopes`, `Reached.has_units`), which a sound state has where the task is ready.
-/

namespace Unnest.Analysis

open Analyze

variable {program : String} {q : Program} {a b : Analysis} {os ts os' ts' : List TypeId}

/-! ## Supplies -/

/-- The tables are grounded, with these types in them and these user types among them. -/
structure Supplies (os ts : List TypeId) (a : Analysis) : Prop where
  grounded : Grounded a
  users : ∀ t ∈ os, a.types.form t = .user
  has : ∀ t ∈ ts, a.types.Has t

namespace Supplies

theorem of_grounded (h : Grounded a) : Supplies [] [] a :=
  ⟨h, List.forall_mem_nil _, List.forall_mem_nil _⟩

theorem mono (h : Supplies os ts a) (hos : os' ⊆ os) (hts : ts' ⊆ ts) : Supplies os' ts' a :=
  ⟨h.grounded, fun t ht => h.users t (hos ht), fun t ht => h.has t (hts ht)⟩

/-- Nothing but grounded tables is asked for. -/
theorem less (h : Supplies os ts a) : Supplies [] [] a :=
  h.mono (List.nil_subset _) (List.nil_subset _)

theorem inScope (h : Supplies os ts a) (s : ScopeId) : Supplies os ts { a with current := s } :=
  ⟨h.grounded.inScope s, h.users, h.has⟩

/-- What a part of the analysis leaves to the next one. -/
theorem after {α : Type} {m : Analyze α} {new : α → List TypeId} (h : Supplies os ts a)
    (hm : Grounds os ts m new) : Supplies os (new (m.run a).1 ++ ts) (m.run a).2 := by
  obtain ⟨hb, hx, hnew⟩ := hm a h.grounded h.users h.has
  exact ⟨hb, user_extends hx h.users, List.forall_mem_append.mpr
    ⟨hnew, fun t ht => hx.has (h.has t ht)⟩⟩

/-- The next one needs nothing that this one found. -/
theorem next {α : Type} {m : Analyze α} {new : α → List TypeId} (h : Supplies os ts a)
    (hm : Grounds os ts m new) : Supplies os ts (m.run a).2 :=
  (h.after hm).mono (List.Subset.refl _) (List.subset_append_right _ _)

end Supplies

/-! ## Tasks -/

namespace Task

/-- The types that a task is handed. -/
def types : Task → List TypeId
  | memberLink before _ | memberLinks before _ => before.mentions
  | declareNames type _ owner _ => type :: owner.toList
  | varDecl _ owner _ => owner.toList
  | declareInit _ _ owner _ type value _ => type.toList ++ (owner.toList ++ value.toList)
  | staticField type _ _ | staticFields type _ _ | instanceFields type _
  | memberRoutines type _ _ => [type]
  | declareRoutine member _ => (member.map (·.type)).toList
  | declareMembers member _ => [member.type]
  | sourcesOf names => names.map (·.2)
  | checkReturn _ result => result.toList
  | routineBody declared _ => declared.result.toList
  | routineBodies declared _ => declared.flatMap (optional (·.result.toList))
  | members f _ _ _ _ => [f.type]
  | name _ | resolve _ | resolveAll _ | resolveResult _ | expr _ | arguments _ | chain _
  | headLink _ _ | initDecl _ | openType _ | captureSources _ | assign _ | checkCondition _
  | stmt _ | stmts _ | guarded _ | guardedAll _ | elseBlock _ | typeDef _ => []

/-- The types among them that a task adds routines to. -/
def opens : Task → List TypeId
  | declareRoutine member _ => (member.map (·.type)).toList
  | declareMembers member _ => [member.type]
  | memberRoutines type _ _ => [type]
  | members f _ _ _ _ => [f.type]
  | _ => []

/-- The scopes that a task is handed. -/
def scopes : Task → List ScopeId
  | staticField _ inner _ | staticFields _ inner _ => [inner]
  | captureSources s => [s]
  | routineBody declared _ => [declared.scope]
  | routineBodies declared _ => declared.flatMap fun d => d.toList.map (·.scope)
  | members f _ _ _ _ => [f.scope, f.fieldInit]
  | _ => []

/-- The units that a task is handed. -/
def units : Task → List UnitId
  | members f _ _ _ _ => [f.unit]
  | _ => []

/-- What a task is handed is in the tables. -/
abbrev Supplied (T : Task) (a : Analysis) : Prop := Supplies T.opens T.types a

/-- What a call is handed is in the tables. -/
abbrev SuppliedCall (c : Call) : Prop := c.1.Supplied c.2

theorem supplied_cons {c : Call} {cs : List Call} (hc : SuppliedCall c)
    (hcs : ∀ c ∈ cs, SuppliedCall c) : ∀ c' ∈ c :: cs, SuppliedCall c' :=
  List.forall_mem_cons.mpr ⟨hc, hcs⟩

theorem supplied_only {c : Call} (hc : SuppliedCall c) : ∀ c' ∈ [c], SuppliedCall c' :=
  supplied_cons hc (List.forall_mem_nil _)

/-! ### Types and expressions -/

section Values

variable (ha : Supplies [] [] a)
include ha

theorem supplied_resolve (w : WrittenType) : ∀ c ∈ (resolve w).calls a, SuppliedCall c := by
  cases w with
  | named => exact supplied_only ha
  | routine params => exact supplied_cons ha (supplied_only (ha.next (grounds_resolveAll params)))

theorem supplied_resolveAll (ws : List WrittenType) :
    ∀ c ∈ (resolveAll ws).calls a, SuppliedCall c := by
  cases ws with
  | nil => exact List.forall_mem_nil _
  | cons w => exact supplied_cons ha (supplied_only (ha.next (grounds_resolve w)))

theorem supplied_resolveResult (w : Option WrittenType) :
    ∀ c ∈ (resolveResult w).calls a, SuppliedCall c := by
  cases w with
  | none => exact List.forall_mem_nil _
  | some => exact supplied_only ha

theorem supplied_expr (e : Expr) : ∀ c ∈ (expr e).calls a, SuppliedCall c := by
  cases e with
  | literal => exact List.forall_mem_nil _
  | binary _ _ left => exact supplied_cons ha (supplied_only (ha.next (grounds_operand left)))
  | unary | paren | chain => exact supplied_only ha

theorem supplied_arguments (es : List Expr) :
    ∀ c ∈ (arguments es).calls a, SuppliedCall c := by
  cases es with
  | nil => exact List.forall_mem_nil _
  | cons e => exact supplied_cons ha (supplied_only (ha.next (grounds_operand e)))

theorem supplied_chain (c : Chain) : ∀ c' ∈ (chain c).calls a, SuppliedCall c' := by
  obtain ⟨_, links, _⟩ := c
  cases links with
  | nil => exact List.forall_mem_nil _
  | cons head rest =>
    have hb := ha.after (grounds_headLink (!rest.isEmpty) head)
    refine supplied_cons ha (forall_mem_andThen fun first hfirst => supplied_only ?_)
    rw [hfirst] at hb
    refine hb.mono (List.nil_subset _) ?_
    rw [optional, Option.toList_some, List.flatMap_singleton]
    exact List.subset_append_left _ _

theorem supplied_headLink (hasMore : Bool) (l : Link) :
    ∀ c ∈ (headLink hasMore l).calls a, SuppliedCall c := by
  cases l with
  | bare => exact supplied_only ha
  | call _ n args =>
    have hb := ha.next (grounds_lookup n.name)
    refine supplied_cons ha ?_
    rw [headArguments]
    split
    · rename_i h
      rw [h] at hb
      exact supplied_only hb
    · exact List.forall_mem_nil _
    · rename_i h
      rw [h] at hb
      split
      · exact supplied_only hb
      · exact List.forall_mem_nil _

end Values

theorem supplied_memberLink {before : Produced} {l : Link} (ha : (memberLink before l).Supplied a) :
    ∀ c ∈ (memberLink before l).calls a, SuppliedCall c := by
  cases l with
  | bare => exact List.forall_mem_nil _
  | call =>
    rw [calls]
    split
    · exact supplied_only ha.less
    · exact List.forall_mem_nil _

theorem supplied_memberLinks {before : Produced} {ls : List Link}
    (ha : (memberLinks before ls).Supplied a) :
    ∀ c ∈ (memberLinks before ls).calls a, SuppliedCall c := by
  cases ls with
  | nil => exact List.forall_mem_nil _
  | cons l =>
    have hb := ha.after (grounds_memberLink l (List.Subset.refl _))
    refine supplied_cons ha (forall_mem_andThen fun produced hproduced => supplied_only ?_)
    rw [hproduced] at hb
    refine hb.mono (List.nil_subset _) ?_
    rw [optional, Option.toList_some, List.flatMap_singleton]
    exact List.subset_append_left _ _

/-! ### Declarations -/

section Declarations

variable {role : Role} {owner : Option TypeId}

theorem supplied_declareNames {type : TypeId} {ns : List Ident}
    (ha : (declareNames type role owner ns).Supplied a) :
    ∀ c ∈ (declareNames type role owner ns).calls a, SuppliedCall c := by
  cases ns with
  | nil => exact List.forall_mem_nil _
  | cons n =>
    exact supplied_cons ha.less
      (supplied_only (ha.next (grounds_declareName role n (List.Subset.refl _))))

theorem supplied_varDecl {d : VarDecl} (ha : (varDecl role owner d).Supplied a) :
    ∀ c ∈ (varDecl role owner d).calls a, SuppliedCall c := by
  have hb := ha.after (grounds_resolve d.type)
  refine supplied_cons ha.less (forall_mem_andThen fun type htype => supplied_only ?_)
  rw [htype] at hb
  exact hb

theorem supplied_declareInit {node : NodeId} {ns : List Ident} {span : Span}
    {type value : Option TypeId} (ha : (declareInit node role owner ns type value span).Supplied a) :
    ∀ c ∈ (declareInit node role owner ns type value span).calls a, SuppliedCall c := by
  cases type with
  | none => exact List.forall_mem_nil _
  | some type =>
    cases value with
    | none => exact List.forall_mem_nil _
    | some value =>
      refine forall_mem_andThen fun _ _ => supplied_only
        ((ha.next (grounds_initialMode type value span)).mono (List.nil_subset _) ?_)
      exact List.cons_subset_cons type (List.subset_append_left _ _)

theorem supplied_initDecl (ha : Supplies [] [] a) (d : InitDecl) :
    ∀ c ∈ (initDecl d).calls a, SuppliedCall c := by
  have hb := ha.after (grounds_resolve d.type)
  have hc := hb.after (grounds_operand d.value)
  refine supplied_cons ha (supplied_cons hb.less (supplied_only
    (hc.mono (List.nil_subset _) (List.append_subset.mpr ⟨?_, ?_⟩))))
  · exact List.subset_append_of_subset_right _ (List.subset_append_left _ _)
  · exact List.append_subset.mpr ⟨List.nil_subset _, List.subset_append_left _ _⟩

theorem supplied_staticField {type : TypeId} {inner : ScopeId} {f : StaticField}
    (ha : (staticField type inner f).Supplied a) :
    ∀ c ∈ (staticField type inner f).calls a, SuppliedCall c := by
  have hb := ha.after ((grounds_operand f.init).inScope inner)
  have hc := hb.after (grounds_resolve f.decl.type)
  refine supplied_cons (ha.less.inScope inner) (supplied_cons hb.less (supplied_only
    (hc.mono (List.nil_subset _) (List.append_subset.mpr ⟨List.subset_append_left _ _, ?_⟩))))
  exact List.subset_append_of_subset_right _ (List.append_subset.mpr
    ⟨List.subset_append_right _ _, List.subset_append_left _ _⟩)

theorem supplied_staticFields {type : TypeId} {inner : ScopeId} {fs : List StaticField}
    (ha : (staticFields type inner fs).Supplied a) :
    ∀ c ∈ (staticFields type inner fs).calls a, SuppliedCall c := by
  cases fs with
  | nil => exact List.forall_mem_nil _
  | cons f =>
    exact supplied_cons ha
      (supplied_only (ha.next (grounds_staticField inner f List.mem_cons_self)))

theorem supplied_instanceFields {type : TypeId} {ds : List VarDecl}
    (ha : (instanceFields type ds).Supplied a) :
    ∀ c ∈ (instanceFields type ds).calls a, SuppliedCall c := by
  cases ds with
  | nil => exact List.forall_mem_nil _
  | cons d =>
    exact supplied_cons ha
      (supplied_only (ha.next (grounds_instanceFields [d] List.mem_cons_self)))

theorem supplied_routineName (ha : Supplies [] [] a) (member : Option Membership) (r : RoutineDef) :
    (params : Option (List TypeId)) → (result : Option (Option TypeId)) →
    ∀ c ∈ routineName member r params result a, SuppliedCall c
  | some params, some result => by
    have hb := ha.next (grounds_refuseMember member r.name params)
    rw [routineName]
    split
    · rename_i hrun
      rw [hrun] at hb
      exact supplied_only hb
    · exact List.forall_mem_nil _
  | none, _ | some _, none => List.forall_mem_nil _

theorem supplied_declareRoutine {member : Option Membership} {r : RoutineDef}
    (ha : (declareRoutine member r).Supplied a) :
    ∀ c ∈ (declareRoutine member r).calls a, SuppliedCall c := by
  have hb := ha.less.next (grounds_resolveAll (r.params.map (·.type)))
  have hc := hb.next (grounds_resolveResult r.result)
  exact supplied_cons ha.less (supplied_cons hb (supplied_routineName hc member r _ _))

theorem grounds_declareMember {member : Membership} (r : RoutineDef) :
    Grounds [member.type] [member.type] (Analyze.declareRoutine (some member) r)
      (optional (·.result.toList)) :=
  grounds_declareRoutine r (List.Subset.refl _) (by
    rintro _ ⟨⟩
    exact List.mem_cons_self)

theorem supplied_declareMembers {member : Membership} {rs : List RoutineDef}
    (ha : (declareMembers member rs).Supplied a) :
    ∀ c ∈ (declareMembers member rs).calls a, SuppliedCall c := by
  cases rs with
  | nil => exact List.forall_mem_nil _
  | cons r => exact supplied_cons ha (supplied_only (ha.next (grounds_declareMember r)))

theorem supplied_sourcesOf {xs : List (String × TypeId)} (ha : (sourcesOf xs).Supplied a) :
    ∀ c ∈ (sourcesOf xs).calls a, SuppliedCall c := by
  cases xs with
  | nil => exact List.forall_mem_nil _
  | cons x =>
    exact supplied_cons ha.less (supplied_only
      ((ha.next (grounds_lookup x.1)).mono (List.nil_subset _) (List.subset_cons_self _ _)))

/-- What a scope captured is of types that are there. -/
theorem supplied_captureSources (ha : Supplies [] [] a) (s : ScopeId) :
    ∀ c ∈ (captureSources s).calls a, SuppliedCall c := by
  refine supplied_only ⟨ha.grounded, List.forall_mem_nil _, fun t ht => ?_⟩
  rw [types, List.map_map] at ht
  obtain ⟨c, hc, rfl⟩ := List.mem_map.mp ht
  exact ha.grounded.scopes s _ (Scope.captures_mentions hc List.mem_cons_self)

end Declarations

/-! ### Statements -/

section Statements

variable (ha : Supplies [] [] a)
include ha

theorem supplied_assign (x : Assignment) : ∀ c ∈ (assign x).calls a, SuppliedCall c :=
  supplied_cons ha (supplied_only (ha.next (grounds_chain x.target)))

theorem supplied_checkReturn (r : RoutineDef) (result : Option TypeId) :
    ∀ c ∈ (checkReturn r result).calls a, SuppliedCall c := by
  rw [calls]
  split
  · exact supplied_only ha
  · exact List.forall_mem_nil _

theorem supplied_stmt (x : Stmt) : ∀ c ∈ (stmt x).calls a, SuppliedCall c := by
  cases x with
  | declare | define | loop | type | assign | call => exact supplied_only ha
  | branch gs => exact supplied_cons ha (supplied_only (ha.next (grounds_guardedAll gs)))
  | routine r =>
    have hdeclare : Grounds [] [] (Analyze.declareRoutine none r)
        (optional fun d : DeclaredRoutine => d.result.toList) :=
      grounds_declareRoutine r (List.nil_subset _) (by simp)
    have hb := ha.after hdeclare
    refine supplied_cons ha (forall_mem_andThen fun d hd => supplied_only ?_)
    rw [hd] at hb
    refine hb.mono (List.nil_subset _) ?_
    rw [optional, Option.toList_some, List.flatMap_singleton]
    exact List.subset_append_left _ _

theorem supplied_stmts (xs : List Stmt) : ∀ c ∈ (stmts xs).calls a, SuppliedCall c := by
  cases xs with
  | nil => exact List.forall_mem_nil _
  | cons x => exact supplied_cons ha (supplied_only (ha.next (grounds_stmt x)))

theorem supplied_guarded (g : Guarded) : ∀ c ∈ (guarded g).calls a, SuppliedCall c := by
  obtain ⟨node, condition, _, _⟩ := g
  have hb := (ha.next (grounds_openBlock node)).inScope ((openBlock node).run a).1
  exact supplied_cons hb (supplied_only (hb.next (grounds_checkCondition condition)))

theorem supplied_guardedAll (gs : List Guarded) :
    ∀ c ∈ (guardedAll gs).calls a, SuppliedCall c := by
  cases gs with
  | nil => exact List.forall_mem_nil _
  | cons g => exact supplied_cons ha (supplied_only (ha.next (grounds_guarded g)))

theorem supplied_elseBlock (e : Else) : ∀ c ∈ (elseBlock e).calls a, SuppliedCall c := by
  cases e with
  | absent => exact List.forall_mem_nil _
  | block node =>
    exact supplied_only ((ha.next (grounds_openBlock node)).inScope ((openBlock node).run a).1)

end Statements

/-! ### Definitions -/

theorem supplied_routineBody {r : RoutineDef} {d : DeclaredRoutine}
    (ha : (routineBody d r).Supplied a) :
    ∀ c ∈ (routineBody d r).calls a, SuppliedCall c := by
  have hb := ha.inScope d.scope
  have hc := hb.next (grounds_stmts r.body)
  have hd := hc.next (grounds_checkReturn r d.result)
  exact supplied_cons hb.less (supplied_cons hc (supplied_only (hd.inScope a.current).less))

theorem supplied_routineBodies : (ds : List (Option DeclaredRoutine)) → (rs : List RoutineDef) →
    (routineBodies ds rs).Supplied a → ∀ c ∈ (routineBodies ds rs).calls a, SuppliedCall c
  | some d :: _, r :: _, ha => by
    have hfirst : (routineBody d r).Supplied a := ha.mono (List.nil_subset _) (by
      rw [types, types, List.flatMap_cons, optional, Option.toList_some, List.flatMap_singleton]
      exact List.subset_append_left _ _)
    have hrest := ha.mono (List.nil_subset _) (List.subset_append_right _ _)
    exact supplied_cons hfirst (supplied_only (hrest.next (grounds_routineBody d r)))
  | none :: _, _ :: _, ha => supplied_only ha
  | [], _, _ => List.forall_mem_nil _
  | none :: _, [], _ | some _ :: _, [], _ => List.forall_mem_nil _

theorem supplied_memberRoutines {type : TypeId} {rs rs' : List RoutineDef}
    (ha : (memberRoutines type rs rs').Supplied a) :
    ∀ c ∈ (memberRoutines type rs rs').calls a, SuppliedCall c := by
  have hb := ha.after (grounds_declareMembers (m := ⟨type, false⟩) List.mem_cons_self rs
    List.mem_cons_self)
  have hc := hb.after (grounds_declareMembers (m := ⟨type, true⟩) List.mem_cons_self rs'
    (List.mem_append_right _ List.mem_cons_self))
  have hd := hc.next (grounds_routineBodies ((Analyze.declareMembers ⟨type, false⟩ rs).run a).1 rs)
  refine supplied_cons ha (supplied_cons (hb.mono (List.Subset.refl _) (List.subset_append_right _ _))
    (supplied_cons (hc.mono (List.nil_subset _) ?_) (supplied_only (hd.mono (List.nil_subset _) ?_))))
  · exact List.subset_append_of_subset_right _ (List.subset_append_left _ _)
  · exact List.subset_append_left _ _

theorem supplied_members {f : TypeFinding} {fields : List VarDecl} {statics : List StaticField}
    {rs rs' : List RoutineDef} (ha : (members f fields statics rs rs').Supplied a) :
    ∀ c ∈ (members f fields statics rs rs').calls a, SuppliedCall c := by
  have hb := ha.next (grounds_instanceFields fields List.mem_cons_self)
  have hc := hb.next (grounds_staticFields f.fieldInit List.mem_cons_self statics)
  exact supplied_cons (ha.mono (List.nil_subset _) (List.Subset.refl _))
    (supplied_cons (hb.mono (List.nil_subset _) (List.Subset.refl _)) (supplied_only hc))

theorem supplied_typeDef (ha : Supplies [] [] a) (d : TypeDef) :
    ∀ c ∈ (typeDef d).calls a, SuppliedCall c := by
  have hb := ha.after (grounds_openType d.name)
  have hform := form_openType d.name a
  refine supplied_cons ha (forall_mem_andThen fun f hf => ?_)
  rw [hf] at hb hform
  have hin : Supplies [f.type] [f.type] { ((Analyze.openType d.name).run a).2 with
      current := f.scope } :=
    ⟨hb.grounded.inScope _, List.forall_mem_singleton.mpr (hform f rfl),
      List.forall_mem_singleton.mpr (hb.has _ List.mem_cons_self)⟩
  have hmembers : Grounds [f.type] [f.type]
      (Analysis.members f d.fields d.staticFields d.routines d.staticRoutines) anything :=
    grounds_members f d.staticFields List.mem_cons_self List.mem_cons_self d.fields
      (fun ds {_} => grounds_routineBodies ds d.routines)
      fun ds {_} => grounds_routineBodies ds d.staticRoutines
  exact supplied_cons hin (supplied_only ((hin.next hmembers).inScope _).less)

/-- The tasks that a task calls are handed what is there. -/
theorem Supplied.calls {T : Task} (ha : T.Supplied a) : ∀ c ∈ T.calls a, SuppliedCall c := by
  cases T with
  | name => exact List.forall_mem_nil _
  | resolve w => exact supplied_resolve ha w
  | resolveAll ws => exact supplied_resolveAll ha ws
  | resolveResult w => exact supplied_resolveResult ha w
  | expr e => exact supplied_expr ha e
  | arguments es => exact supplied_arguments ha es
  | chain c => exact supplied_chain ha c
  | headLink hasMore l => exact supplied_headLink ha hasMore l
  | memberLink => exact supplied_memberLink ha
  | memberLinks => exact supplied_memberLinks ha
  | declareNames => exact supplied_declareNames ha
  | varDecl => exact supplied_varDecl ha
  | declareInit => exact supplied_declareInit ha
  | initDecl d => exact supplied_initDecl ha d
  | staticField => exact supplied_staticField ha
  | staticFields => exact supplied_staticFields ha
  | instanceFields => exact supplied_instanceFields ha
  | declareRoutine => exact supplied_declareRoutine ha
  | declareMembers => exact supplied_declareMembers ha
  | openType | checkCondition => exact supplied_only ha
  | sourcesOf => exact supplied_sourcesOf ha
  | captureSources s => exact supplied_captureSources ha s
  | assign x => exact supplied_assign ha x
  | checkReturn r result => exact supplied_checkReturn ha.less r result
  | stmt x => exact supplied_stmt ha x
  | stmts xs => exact supplied_stmts ha xs
  | guarded g => exact supplied_guarded ha g
  | guardedAll gs => exact supplied_guardedAll ha gs
  | elseBlock e => exact supplied_elseBlock ha e
  | routineBody => exact supplied_routineBody ha
  | routineBodies ds rs => exact supplied_routineBodies ds rs ha
  | memberRoutines => exact supplied_memberRoutines ha
  | members => exact supplied_members ha
  | typeDef d => exact supplied_typeDef ha d

end Task

/-! ## Reached states -/

variable {T : Task}

/-- The types that a task is handed are there where the task is reached. -/
theorem Reached.supplies (h : Reached program q T a) : T.Supplied a := by
  induction h with
  | start => exact .of_grounded (grounded_initial program)
  | call _ hc ih => exact ih.calls _ hc

end Unnest.Analysis
