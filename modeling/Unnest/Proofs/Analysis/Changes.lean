import Mathlib.Logic.Relation
import Unnest.Proofs.Analysis.Checks
import Unnest.Proofs.Types.MemberTypes

/-!
# Changes between calls

What an analysis does to types, to named types and to findings is a sequence of changes of a
few kinds (`Change`); all else that it does leaves the three as they are.  Every state that an
analysis comes to lies on this sequence: from the state in which a task is called there are
changes up to the state of its first call, from the end of that call up to the next one, and
so on up to the end of the task (`Through`).

`Goes P a cs m` says so of a part `m` that starts in `a` and makes the calls `cs`.  A part of
the analysis that makes no calls only changes something (`Alters`).
-/

namespace Unnest

/-- Something is written under a key. -/
inductive Findings.Adds (f : Findings) : Key → Findings → Prop
  | exprType (n : NodeId) (x : TypeId) :
      Adds f (.exprTypes, n) { f with exprTypes := f.exprTypes.write n x }
  | operator (n : NodeId) (x : OperatorCall) :
      Adds f (.operators, n) { f with operators := f.operators.write n x }
  | link (n : NodeId) (x : LinkFinding) :
      Adds f (.links, n) { f with links := f.links.write n x }
  | chain (n : NodeId) (x : ChainFinding) :
      Adds f (.chains, n) { f with chains := f.chains.write n x }
  | block (n : NodeId) (x : ScopeId) :
      Adds f (.blocks, n) { f with blocks := f.blocks.write n x }
  | decl (n : NodeId) (x : DeclFinding) :
      Adds f (.decls, n) { f with decls := f.decls.write n x }
  | assign (n : NodeId) (x : AssignFinding) :
      Adds f (.assigns, n) { f with assigns := f.assigns.write n x }
  | routine (n : NodeId) (x : RoutineFinding) :
      Adds f (.routines, n) { f with routines := f.routines.write n x }
  | type (n : NodeId) (x : TypeFinding) :
      Adds f (.types, n) { f with types := f.types.write n x }

theorem Findings.Adds.keys_eq {f g : Findings} {k : Key} (h : f.Adds k g) :
    g.keys = {k} + f.keys := by
  cases h <;> simp only [keys, Analysis.keysIn_write] <;> abel

/-- What was written is not overwritten. -/
theorem Findings.Adds.grows {f g : Findings} {k : Key} (h : f.Adds k g) : f.Grows g := by
  have hf := Grows.refl f
  cases h with
  | exprType => exact { hf with exprTypes := List.subset_cons_self _ _ }
  | operator => exact { hf with operators := List.subset_cons_self _ _ }
  | link => exact { hf with links := List.subset_cons_self _ _ }
  | chain => exact { hf with chains := List.subset_cons_self _ _ }
  | block => exact { hf with blocks := List.subset_cons_self _ _ }
  | decl => exact { hf with decls := List.subset_cons_self _ _ }
  | assign => exact { hf with assigns := List.subset_cons_self _ _ }
  | routine =>
    exact { hf with routines := fun e he => ⟨e.2.captures, List.mem_cons_of_mem _ he⟩ }
  | type => exact { hf with types := List.subset_cons_self _ _ }

namespace Analysis

open Analyze Relation

variable {α β : Type} {P Q : Permit} {a b c : Analysis}

/-! ## Changes -/

/-- The body of a routine, and what its scope has captured by then. -/
def bodyCaptures (d : DeclaredRoutine) (r : RoutineDef) : Analyze (List CaptureSource) := do
  inScope d.scope do
    stmts r.body
    checkReturn r d.result
  captureSources d.scope

/-- A change of types, of named types or of findings, or of none of them. -/
inductive Change (P : Permit) (a : Analysis) : Analysis → Prop
  | aside {b : Analysis} (types : b.types = a.types) (findings : b.findings = a.findings)
      (errors : a.errors <+: b.errors)
      (named : ∀ s, (b.scopes.get s).types = (a.scopes.get s).types) : Change P a b
  /-- A type of its own gets a name. -/
  | declareType {s : ScopeId} {name : String} {type : TypeId} {span : Span} {scopes : Scopes}
      (has : a.types.Has type) (form : a.types.form type ≠ .routine)
      (h : a.scopes.declareType s name type span = .ok scopes) : Change P a { a with scopes }
  | record {k : Key} {f : Findings} (h : a.findings.Adds k f) : Change P a { a with findings := f }
  /-- After its body, a routine learns its captures. -/
  | complete {d : DeclaredRoutine} {r : RoutineDef} {s : Analysis}
      (body : ((bodyCaptures d r).run s).2 = a) :
      Change P a { a with
        findings := a.findings.complete r.node ((bodyCaptures d r).run s).1 }
  | types {t : TypeTable} (h : a.types.Edit P t) : Change P a { a with types := t }

/-- Changes, one after the other. -/
abbrev Changes (P : Permit) : Analysis → Analysis → Prop := ReflTransGen (Change P)

theorem Change.mono (hPQ : P.Within Q) (h : Change P a b) : Change Q a b := by
  cases h with
  | aside types findings errors named => exact .aside types findings errors named
  | declareType has form h => exact .declareType has form h
  | record h => exact .record h
  | complete body => exact .complete body
  | types h => exact .types (h.mono hPQ)

theorem Changes.mono (hPQ : P.Within Q) (h : Changes P a b) : Changes Q a b :=
  ReflTransGen.mono (fun _ _ => Change.mono hPQ) _ _ h

theorem Changes.trans (h : Changes P a b) (h' : Changes P b c) : Changes P a c :=
  ReflTransGen.trans h h'

/-- What every change does, is done by changes one after the other. -/
theorem Changes.induct {R : Analysis → Analysis → Prop} (refl : ∀ a, R a a)
    (trans : ∀ {a b c}, R a b → R b c → R a c) (change : ∀ {a b}, Change P a b → R a b)
    (h : Changes P a b) : R a b := by
  induction h with
  | refl => exact refl a
  | tail _ h ih => exact trans ih (change h)

/-- Nothing is reported, recorded or given a name. -/
theorem Change.silent (types : b.types = a.types) (findings : b.findings = a.findings)
    (diagnostics : b.diagnostics = a.diagnostics)
    (named : ∀ s, (b.scopes.get s).types = (a.scopes.get s).types) : Change P a b := by
  refine .aside types findings ?_ named
  rw [errors, errors, diagnostics]

/-- The walk enters a scope, or comes back from one. -/
theorem change_enter (a : Analysis) (s : ScopeId) : Change P a { a with current := s } :=
  .silent rfl rfl rfl fun _ => rfl

/-- Something changes in the scopes, and no type gets a name. -/
theorem change_scopes {t : Scopes} (named : ∀ s, (t.get s).types = (a.scopes.get s).types) :
    Change P a { a with scopes := t } :=
  .silent rfl rfl rfl named

/-! ### What lasts -/

theorem Change.types_eq (h : Change P a b) : b.types = a.types ∨ a.types.Edit P b.types := by
  cases h with
  | aside types => exact .inl types
  | declareType | record | complete => exact .inl rfl
  | types h => exact .inr h

theorem Changes.lasts (h : Changes P a b) : a.types.Lasts b.types :=
  h.induct (fun a => .refl a.types) .trans fun hc =>
    hc.types_eq.elim (fun heq => heq ▸ .refl _) fun hedit => hedit.lasts

/-- Types only get more members. -/
theorem Changes.extends (h : Changes P a b) : a.types.Extends b.types :=
  h.induct (fun a => .refl a.types) .trans fun hc =>
    hc.types_eq.elim (fun heq => heq ▸ .refl _) fun hedit => hedit.extends

/-- Errors stay. -/
theorem Changes.errors (h : Changes P a b) : a.errors <+: b.errors := by
  refine h.induct (R := fun a b => a.errors <+: b.errors) (fun a => List.prefix_refl a.errors)
    List.IsPrefix.trans fun {a b} hc => ?_
  cases hc with
  | aside _ _ errors => exact errors
  | declareType | record | complete | types => exact List.prefix_refl a.errors

/-- Findings stay, but for the captures of routines. -/
theorem Changes.findings (h : Changes P a b) : a.findings.Grows b.findings := by
  refine h.induct (R := fun a b => a.findings.Grows b.findings) (fun a => .refl a.findings)
    .trans fun {a b} hc => ?_
  cases hc with
  | aside _ findings => exact findings ▸ .refl a.findings
  | declareType | types => exact .refl a.findings
  | record h => exact h.grows
  | complete => exact Findings.grows_complete a.findings _ _

/-- No key is taken away. -/
theorem Change.keys_le (h : Change P a b) : a.findings.keys ≤ b.findings.keys := by
  cases h with
  | aside _ findings => rw [findings]
  | declareType | types => exact le_refl _
  | record h => exact h.keys_eq ▸ Multiset.le_add_left _ _
  | complete => exact le_of_eq (keys_complete _ _ _).symm

theorem Changes.keys_le (h : Changes P a b) : a.findings.keys ≤ b.findings.keys :=
  h.induct (R := fun a b => a.findings.keys ≤ b.findings.keys) (fun _ => le_refl _) le_trans
    Change.keys_le

theorem Changes.fresh (h : Changes P a b) (ha : a.types.Fresh) : b.types.Fresh := by
  induction h with
  | refl => exact ha
  | tail _ hc ih => exact hc.types_eq.elim (fun heq => heq ▸ ih) fun hedit => ih.edit hedit

/-- A type that may get no routines has the routines that it had. -/
theorem Changes.routinesOf_eq {type : TypeId} (h : Changes P a b) (hgives : ¬ P.gives type)
    (ha : a.types.Has type) (isStatic : Bool) :
    (b.types.get type).routinesOf isStatic = (a.types.get type).routinesOf isStatic := by
  induction h with
  | refl => rfl
  | tail hab hc ih =>
    have hhas := (Changes.lasts hab).has ha
    refine Eq.trans ?_ ih
    exact hc.types_eq.elim (fun heq => by rw [heq]) fun hedit =>
      hedit.routinesOf_eq hhas hgives isStatic

theorem Changes.bare {type : TypeId} (h : Changes P a b) (hgives : ¬ P.gives type)
    (ha : a.types.Bare type) : b.types.Bare type :=
  ⟨h.lasts.user ha.user, fun isStatic =>
    (h.routinesOf_eq hgives (TypeTable.has_of_user ha.user) isStatic).trans (ha.routines isStatic)⟩

/-- What may not be read, has not been read. -/
theorem Changes.unread {type : TypeId} (h : Changes P a b) (hreads : ¬ P.reads)
    (ha : a.types.Unread type) : b.types.Unread type := by
  induction h with
  | refl => exact ha
  | tail _ hc ih => exact hc.types_eq.elim (fun heq => heq ▸ ih) fun hedit => hedit.unread hreads ih

/-! ## Calls -/

namespace Task

/-- The state behind a task. -/
def finish (a : Analysis) : Task → Analysis
  | name _ => a
  | resolve t => ((Analyze.resolve t).run a).2
  | resolveAll ts => ((Analyze.resolveAll ts).run a).2
  | resolveResult t => ((Analyze.resolveResult t).run a).2
  | expr e => ((Analyze.expr e).run a).2
  | arguments es => ((Analyze.arguments es).run a).2
  | chain c => ((Analyze.chain c).run a).2
  | headLink hasMore l => ((Analyze.headLink hasMore l).run a).2
  | memberLink before l => ((Analyze.memberLink before l).run a).2
  | memberLinks before ls => ((Analyze.memberLinks before ls).run a).2
  | declareNames type role owner names => ((Analyze.declareNames type role owner names).run a).2
  | varDecl role owner d => ((Analyze.varDecl role owner d).run a).2
  | declareInit node role owner names type value span =>
    ((Analyze.declareInit node role owner names type value span).run a).2
  | initDecl d => ((Analyze.initDecl d).run a).2
  | staticField type inner f => ((Analyze.staticField type inner f).run a).2
  | staticFields type inner fs => ((Analyze.staticFields type inner fs).run a).2
  | instanceFields type ds => ((Analyze.instanceFields type ds).run a).2
  | declareRoutine member r => ((Analyze.declareRoutine member r).run a).2
  | declareMembers member rs => ((Analyze.declareMembers member rs).run a).2
  | openType n => ((Analyze.openType n).run a).2
  | sourcesOf xs => ((Analyze.sourcesOf xs).run a).2
  | captureSources s => ((Analyze.captureSources s).run a).2
  | assign x => ((Analyze.assign x).run a).2
  | checkCondition e => ((Analyze.checkCondition e).run a).2
  | checkReturn r result => ((Analyze.checkReturn r result).run a).2
  | stmt x => ((Analyze.stmt x).run a).2
  | stmts xs => ((Analyze.stmts xs).run a).2
  | guarded g => ((Analyze.guarded g).run a).2
  | guardedAll gs => ((Analyze.guardedAll gs).run a).2
  | elseBlock e => ((Analyze.elseBlock e).run a).2
  | routineBody d r => ((Analyze.routineBody d r).run a).2
  | routineBodies ds rs => ((Analyze.routineBodies ds rs).run a).2
  | memberRoutines type rs rs' => ((Analysis.memberRoutines type rs rs').run a).2
  | members f fields statics rs rs' => ((Analysis.members f fields statics rs rs').run a).2
  | typeDef d => ((Analyze.typeDef d).run a).2

/-- What a task needs in order to give a type its routines before they are read. -/
def Needs (a : Analysis) : Task → Prop
  | declareRoutine (some m) _ | declareMembers m _ =>
    a.types.form m.type = .user ∧ a.types.Unread m.type
  | instanceFields type _ | staticField type _ _ | staticFields type _ _ =>
    a.types.form type = .user
  | memberRoutines type _ _ => a.types.Bare type
  | members f _ _ _ _ => a.types.Bare f.type
  | declareRoutine none _ | name _ | resolve _ | resolveAll _ | resolveResult _ | expr _
  | arguments _ | chain _ | headLink _ _ | memberLink _ _ | memberLinks _ _
  | declareNames _ _ _ _ | varDecl _ _ _ | declareInit _ _ _ _ _ _ _ | initDecl _ | openType _
  | sourcesOf _ | captureSources _ | assign _ | checkCondition _ | checkReturn _ _ | stmt _
  | stmts _ | guarded _ | guardedAll _ | elseBlock _ | routineBody _ _ | routineBodies _ _
  | typeDef _ => True

end Task

/-- There are changes from one state to another, and these calls in between. -/
inductive Through (P : Permit) : Analysis → List Call → Analysis → Prop
  | done {a b : Analysis} (h : Changes P a b) : Through P a [] b
  | call {a s b : Analysis} {T : Task} {cs : List Call} (h : Changes P a s) (needs : T.Needs s)
      (run : Changes P s (T.finish s)) (rest : Through P (T.finish s) cs b) :
      Through P a ((T, s) :: cs) b

namespace Through

variable {l r : List Call} {T : Task}

theorem changes (h : Through P a l b) : Changes P a b := by
  induction h with
  | done h => exact h
  | call h _ run _ ih => exact h.trans (run.trans ih)

theorem mono (hPQ : P.Within Q) (h : Through P a l b) : Through Q a l b := by
  induction h with
  | done h => exact .done (h.mono hPQ)
  | call h needs run _ ih => exact .call (h.mono hPQ) needs (run.mono hPQ) ih

theorem before (h : Changes P a b) (h' : Through P b l c) : Through P a l c := by
  cases h' with
  | done h' => exact .done (h.trans h')
  | call h' needs run rest => exact .call (h.trans h') needs run rest

theorem append (h : Through P a l b) (h' : Through P b r c) : Through P a (l ++ r) c := by
  induction h with
  | done h => exact h'.before h
  | call h needs run _ ih => exact .call h needs run (ih h')

theorem after (h : Through P a l b) (h' : Changes P b c) : Through P a l c := by
  rw [← List.append_nil l]
  exact h.append (.done h')

/-- Every call lies in between. -/
theorem of_mem (h : Through P a l b) {T : Task} {s : Analysis} (hc : (T, s) ∈ l) :
    T.Needs s ∧ Changes P a s ∧ Changes P s (T.finish s) ∧ Changes P (T.finish s) b := by
  induction h with
  | done => exact absurd hc List.not_mem_nil
  | call h needs run rest ih =>
    rcases List.mem_cons.mp hc with heq | hc
    · obtain ⟨rfl, rfl⟩ := Prod.mk.inj heq
      exact ⟨needs, h, run, rest.changes⟩
    · obtain ⟨hneeds, hs, hrun, hb⟩ := ih hc
      exact ⟨hneeds, h.trans (run.trans hs), hrun, hb⟩

end Through

/-- A part of the analysis makes these calls. -/
def Goes (P : Permit) (a : Analysis) (l : List Call) (m : Analyze α) : Prop :=
  Through P a l (m.run a).2

/-- A part of the analysis that makes no calls. -/
def Alters (P : Permit) (m : Analyze α) : Prop := ∀ a, Goes P a [] m

namespace Goes

variable {l r : List Call} {T : Task} {m : Analyze α} {f : α → Analyze β}

theorem pure (x : α) : Goes P a [] (Pure.pure x : Analyze α) := .done .refl

theorem bind (hm : Goes P a l m) (hf : Goes P (m.run a).2 r (f (m.run a).1)) :
    Goes P a (l ++ r) (m >>= f) :=
  hm.append hf

/-- What follows can count on the changes so far. -/
theorem next (hm : Goes P a l m)
    (hf : Changes P a (m.run a).2 → Goes P (m.run a).2 r (f (m.run a).1)) :
    Goes P a (l ++ r) (m >>= f) :=
  hm.bind (hf hm.changes)

/-- The calls of the first part are all that there are. -/
theorem andThen (hm : Goes P a l m) (hf : ∀ x, Alters P (f x)) : Goes P a l (m >>= f) := by
  rw [← List.append_nil l]
  exact hm.bind (hf _ _)

/-- What follows only happens when the part before it comes to something. -/
theorem onSome {m : Analyze (Option α)} {f : Option α → Analyze β}
    {call : α → Analysis → List Call} (hm : Goes P a l m)
    (hnone : Goes P (m.run a).2 [] (f none))
    (hsome : ∀ x, (m.run a).1 = some x → Goes P (m.run a).2 (call x (m.run a).2) (f (some x))) :
    Goes P a (l ++ Task.andThen (m.run a) call) (m >>= f) := by
  refine hm.bind ?_
  generalize m.run a = o at hnone hsome
  obtain ⟨x, b⟩ := o
  cases x with
  | none => exact hnone
  | some x => exact hsome x rfl

/-- A part in another scope. -/
theorem inScope {s : ScopeId} (hm : Goes P { a with current := s } l m) :
    Goes P a l (inScope s m) :=
  (hm.before (.single (change_enter a s))).after (.single (change_enter _ a.current))

end Goes

namespace Alters

variable {m : Analyze α} {f : α → Analyze β}

theorem pure (x : α) : Alters P (Pure.pure x : Analyze α) := fun _ => .pure x

theorem bind (hm : Alters P m) (hf : ∀ x, Alters P (f x)) : Alters P (m >>= f) :=
  fun a => (hm a).bind (hf _ _)

theorem get {f : Analysis → Analyze β} (hf : ∀ a, Alters P (f a)) : Alters P (get >>= f) :=
  fun a => hf a a

/-- A single change. -/
theorem of_change (h : ∀ a, Change P a (m.run a).2) : Alters P m := fun a => .done (.single (h a))

end Alters

/-! ## Single changes -/

theorem alters_reportError (e : SemanticError) : Alters P (reportError e) :=
  .of_change fun a => .aside rfl rfl (List.prefix_append a.errors [e]) fun _ => rfl

theorem alters_report (fault : Fault) (span : Span) : Alters P (report fault span) :=
  alters_reportError _

theorem alters_reject (fault : Fault) (span : Span) (x : α) :
    Alters P (report fault span >>= fun _ => pure x) :=
  (alters_report fault span).bind fun _ => .pure x

theorem alters_types : Alters P Analyze.types := fun _ => .done .refl

theorem alters_currentScope : Alters P currentScope := fun _ => .done .refl

theorem alters_typeName (type : TypeId) : Alters P (typeName type) := fun _ => .done .refl

theorem alters_resolveType (name : String) : Alters P (resolveType name) := fun _ => .done .refl

theorem alters_record {k : Key} {f : Findings → Findings} (hf : ∀ x : Findings, x.Adds k (f x)) :
    Alters P (record f) :=
  .of_change fun a => .record (hf a.findings)

theorem alters_planUnit (name : String) (kind : UnitKind) (ownerType : Option TypeId) :
    Alters P (planUnit name kind ownerType) :=
  .of_change fun _ => .silent rfl rfl rfl fun _ => rfl

/-- A scope is opened without named types. -/
theorem types_openScope (t : Scopes) (parent : ScopeId) (kind : ScopeKind) (name : String)
    (unit : UnitId) (s : ScopeId) :
    ((t.openScope parent kind name unit).2.get s).types = (t.get s).types := by
  by_cases hs : t.Has s
  · exact Scopes.get_openScope_congr parent kind name unit Scope.types (fun _ _ => rfl) hs
  · rw [Scopes.get_of_not_has hs]
    by_cases hnew : s = ⟨t.size⟩
    · rw [hnew]
      exact (Scopes.agrees_openScope_new t parent kind name unit).types
    · have hnot : ¬ (t.openScope parent kind name unit).2.Has s := by
        rw [Scopes.Has, Scopes.size_openScope]
        intro hlt
        refine hnew (congrArg ScopeId.mk ?_)
        exact Nat.le_antisymm (Nat.le_of_lt_succ hlt) (Nat.le_of_not_lt hs)
      rw [Scopes.get_of_not_has hnot]

theorem types_openMember (t : Scopes) (parent : ScopeId) (kind : ScopeKind) (name : String)
    (unit : UnitId) (memberOf : Option TypeId) (isStatic : Bool) (s : ScopeId) :
    ((t.openMember parent kind name unit memberOf isStatic).get s).types = (t.get s).types := by
  rw [Scopes.openMember, Scopes.markMember]
  exact (Scopes.get_update_congr Scope.types
    (f := fun x => { x with memberOf := memberOf, isStatic := isStatic }) (fun _ => rfl) _ _
    s).trans (types_openScope t parent kind name unit s)

theorem alters_openScope (kind : ScopeKind) (name : String) (unit : UnitId) :
    Alters P (openScope kind name unit) :=
  .of_change fun a => change_scopes (types_openScope a.scopes a.current kind name unit)

theorem alters_markMember (s : ScopeId) (memberOf : Option TypeId) (isStatic : Bool) :
    Alters P (updateScopes fun t => t.markMember s memberOf isStatic) :=
  .of_change fun a => change_scopes (Scopes.get_update_congr Scope.types
    (f := fun x => { x with memberOf := memberOf, isStatic := isStatic }) (fun _ => rfl) a.scopes s)

theorem alters_lookup (name : String) : Alters P (lookup name) := by
  refine .of_change fun a => ?_
  rw [run_lookup]
  split
  · exact change_scopes fun s => (Scopes.sameNames_capture a.scopes a.current _ _ s).types
  · exact .silent rfl rfl rfl fun _ => rfl

theorem alters_declare (s : ScopeId) (b : Binding) (span : Span) : Alters P (declare s b span) := by
  refine .of_change fun a => ?_
  rw [run_declare]
  split
  · rename_i h
    exact change_scopes (Scopes.get_declare_congr Scope.types (fun _ _ => rfl) (fun _ _ => rfl) h)
  · exact .aside rfl rfl (List.prefix_append a.errors [_]) fun _ => rfl

theorem alters_addRoutineType (params : List TypeId) (result : Option TypeId) :
    Alters P (addRoutineType params result) :=
  .of_change fun _ => .types (.addRoutineType params result)

theorem alters_openBlock (node : NodeId) : Alters P (openBlock node) := by
  have hname : Alters P (modifyGet fun a : Analysis => ((a.scopes.nextBlockName a.current).1,
      { a with scopes := (a.scopes.nextBlockName a.current).2 })) :=
    .of_change fun a => change_scopes fun s =>
      (Scopes.agrees_nextBlockName a.scopes a.current s).types
  exact hname.bind fun name => (alters_planUnit name .block none).bind fun unit =>
    (alters_openScope .block name unit).bind fun scope =>
      (alters_record fun _ => .block node scope).bind fun _ => .pure _

/-! ## Links and operators -/

section Links

variable {m : Analyze (Option TypeId)} {args : ArgumentTypes}

theorem alters_recordLink (node : NodeId) (f : LinkFinding) : Alters P (recordLink node f) :=
  alters_record fun _ => .link node f

theorem alters_recordCall (node : NodeId) (owner : TypeId) (routine : Signature)
    (callee : Callee) : Alters P (recordCall node owner routine callee) :=
  (alters_recordLink _ _).bind fun _ => .pure _

theorem alters_reportNoRoutine (name : String) (args : List TypeId) (owner : Option TypeId)
    (span : Span) : Alters P (reportNoRoutine name args owner span) :=
  alters_types.bind fun _ => alters_reject _ _ _

theorem alters_bareHead (node : NodeId) (name : String) (span : Span) (hasMore : Bool) :
    Alters P (bareHead node name span hasMore) := by
  refine (alters_lookup name).bind fun result => ?_
  cases result with
  | found r access => exact (alters_recordLink _ _).bind fun _ => .pure _
  | hidden => exact alters_reject _ _ _
  | missing =>
    refine (alters_resolveType name).bind fun type => ?_
    cases type with
    | none => exact alters_reject _ _ _
    | some type =>
      cases hasMore
      · exact alters_reject _ _ _
      · exact (alters_recordLink _ _).bind fun _ => .pure _

theorem alters_memberRoutine (hreads : P.reads) (owner : TypeId) (isStatic : Bool)
    (name : String) : Alters P (memberRoutine owner isStatic name) :=
  .of_change fun _ => .types (.memberRoutine hreads owner isStatic name)

theorem alters_bareMember (hreads : P.reads) (owner : TypeId) (isStatic : Bool) (node : NodeId)
    (name : String) (span : Span) : Alters P (bareMember owner isStatic node name span) := by
  have hread : Alters P (readMember owner isStatic name) := by
    refine alters_types.bind fun t => ?_
    split
    · exact .pure _
    · exact alters_memberRoutine hreads owner isStatic name
  refine hread.bind fun field => ?_
  cases field with
  | some field => exact (alters_recordLink _ _).bind fun _ => .pure _
  | none =>
    refine (alters_typeName owner).bind fun ownerName => ?_
    split <;> exact alters_reject _ _ _

theorem alters_finishChain (node : NodeId) (span : Span) (last : Produced) :
    Alters P (finishChain node span last) := by
  cases last with
  | value | nothing => exact (alters_record fun _ => .chain node _).bind fun _ => .pure _
  | typeName type => exact (alters_typeName type).bind fun _ => alters_reject _ _ _

theorem alters_operator (node : NodeId) (name : String) (owner : TypeId) (isStatic : Bool)
    (args : List TypeId) (span : Span) :
    Alters P (operator node name owner isStatic args span) := by
  refine alters_types.bind fun t => ?_
  split
  · exact (alters_record fun _ => .operator node _).bind fun _ => .pure _
  · exact alters_reject _ _ _

variable {cs : List Call}

theorem goes_required (hm : Goes P a cs m) (span : Span) : Goes P a cs (required span m) := by
  rw [Goes, run_required]
  split
  · exact hm.after (alters_report .noValue span _).changes
  · exact hm

theorem goes_typed (hm : Goes P a cs m) (node : NodeId) : Goes P a cs (typed node m) := by
  refine hm.andThen fun type => ?_
  cases type with
  | some type => exact (alters_record fun _ => .exprType node type).bind fun _ => .pure _
  | none => exact .pure _

end Links

/-! ## Decisions before a declaration -/

theorem alters_refuseName (name : Ident) : Alters P (refuseName name) := by
  refine .get fun a => ?_
  split
  · exact alters_reject _ _ _
  · split
    · exact alters_reject _ _ _
    · exact .pure _

theorem alters_refuseMember (member : Option Membership) (name : Ident) (args : List TypeId) :
    Alters P (refuseMember member name args) := by
  refine alters_types.bind fun t => ?_
  cases member with
  | none => exact .pure _
  | some m =>
    dsimp only
    split
    · exact alters_reject _ _ _
    · exact .pure _

theorem alters_refuseType (name : Ident) : Alters P (refuseType name) := by
  refine .get fun a => ?_
  split
  · exact alters_reject _ _ _
  · split
    · exact alters_reject _ _ _
    · exact .pure _

theorem alters_initialMode (target value : TypeId) (span : Span) :
    Alters P (initialMode target value span) := by
  refine alters_types.bind fun t => ?_
  split
  · exact .pure _
  · exact alters_reject _ _ _

theorem alters_declareName (type : TypeId) (role : Role) (owner : Option TypeId) (name : Ident) :
    Alters P (declareName type role owner name) := by
  refine (alters_refuseName name).bind fun refused => ?_
  cases refused with
  | true => exact .pure _
  | false => exact alters_currentScope.bind fun _ => alters_declare _ _ _

theorem alters_checkClosing (fault : String → String → Fault) (name closing : Ident) :
    Alters P (checkClosing fault name closing) := by
  rw [checkClosing]
  split
  · exact alters_report _ _
  · exact .pure _

theorem alters_writeTarget (x : Assignment) (finding : ChainFinding) (target value : TypeId) :
    Alters P (writeTarget x finding target value) := by
  refine .get fun a => ?_
  dsimp only
  split
  · exact alters_record fun _ => .assign x.node _
  · split <;> exact alters_report _ _

/-! ## Opening routines and types -/

theorem alters_declareParams (s : ScopeId) :
    (ps : List (Param × TypeId)) → Alters P (declareParams s ps)
  | [] => .pure _
  | _ :: ps => (alters_declare s _ _).bind fun _ =>
      (alters_declareParams s ps).bind fun _ => .pure _

theorem alters_openRoutine (r : RoutineDef) (member : Option Membership) (signature : Signature)
    (binding : Binding) : Alters P (openRoutine r member signature binding) :=
  (alters_planUnit _ _ _).bind fun _ => (alters_openScope _ _ _).bind fun _ =>
    (alters_markMember _ _ _).bind fun _ => (alters_declareParams _ _).bind fun _ =>
      (alters_record fun _ => .routine r.node _).bind fun _ => .pure _

/-- A type gets a routine as long as none of its routines was read. -/
theorem goes_addMember {member : Option Membership} (s : Signature)
    (h : ∀ m, member = some m → P.gives m.type ∧ a.types.form m.type = .user ∧
      a.types.Unread m.type) : Goes P a [] (addMember member s) := by
  cases member with
  | none => exact .pure _
  | some m =>
    obtain ⟨hgives, huser, hunread⟩ := h m rfl
    exact .done (.single (.types (.addRoutine hgives huser hunread m.isStatic s)))

theorem goes_addFields {type : TypeId} (huser : a.types.form type = .user) (isStatic : Bool)
    (bs : List Binding) :
    Goes P a [] (updateTypes fun t => t.update type fun d => d.addFields isStatic bs) := by
  refine .done (.single (.types (.update huser (fun d => by cases isStatic <;> rfl)
    (fun d b => TypeDecl.routinesOf_addFields d isStatic b bs) fun d b => ?_)))
  rw [TypeDecl.fieldsOf_addFields]
  exact List.prefix_append _ _

/-- Opening a type either changes nothing but the errors, or adds the type and gives it its
name and its path. -/
theorem changes_openType (name : Ident) (a : Analysis) :
    Changes P a ((openType name).run a).2 ∧ ∀ f, ((openType name).run a).1 = some f →
      ((openType name).run a).2.types.Bare f.type := by
  cases hrefuse : ((refuseType name).run a).1 with
  | true =>
    rw [run_openType_of_refused hrefuse]
    exact ⟨(alters_refuseType name a).changes, fun f hf => absurd hf (by simp)⟩
  | false =>
    obtain ⟨scopes, hdeclare, hrun⟩ := run_openType hrefuse
    rw [hrun]
    set t := (a.types.add { name := name.name, form := .user }).2 with ht
    have hget : t.get ⟨a.types.size⟩ = { name := name.name, form := .user } :=
      TypeTable.get_add_new a.types _
    have hadd : Change P a { a with types := t } := .types (.addUser name.name)
    have huser : t.form ⟨a.types.size⟩ = .user := congrArg TypeDecl.form hget
    have hname : Change P { a with types := t } (addedType a name.name scopes) :=
      .declareType (TypeTable.has_of_user huser) (huser.trans_ne (by decide)) hdeclare
    set b := addedType a name.name scopes with hb
    set c := openedType b name.name ⟨a.types.size⟩ with hc
    have hpath : Change P b { b with types := c.types } :=
      .types (.update huser (fun _ => rfl) (fun _ b => by cases b <;> rfl)
        fun _ b => by cases b <;> exact List.prefix_refl _)
    -- What is left is the unit of the type and the scopes, in which no type is declared.
    have hscopes (s : ScopeId) : ((c.scopes.openMember ⟨scopes.size⟩ .fieldInit name.name
        ⟨a.units.size⟩ (some ⟨a.types.size⟩) false).get s).types = (b.scopes.get s).types :=
      (types_openMember ..).trans (types_openMember ..)
    have hopened : Change P { b with types := c.types } { c with
        scopes := c.scopes.openMember ⟨scopes.size⟩ .fieldInit name.name ⟨a.units.size⟩
          (some ⟨a.types.size⟩) false } :=
      .silent rfl rfl rfl hscopes
    refine ⟨(((Relation.ReflTransGen.single hadd).tail hname).tail hpath).tail hopened,
      fun f hf => ?_⟩
    · obtain rfl := Option.some.inj hf
      have hbare : t.Bare ⟨a.types.size⟩ := ⟨huser, fun b => by rw [hget]; cases b <;> rfl⟩
      exact hbare.update (fun _ => rfl) fun _ b => by cases b <;> rfl

end Analysis

end Unnest
