import Unnest.Proofs.Analysis.Reports

/-!
# Two analyses side by side

Two analyses of one program under different nodes and spans go through the same states, but
for these nodes and spans.  `Mirrors f a b` says so of two states: `b` has the scopes, types
and units of `a`, is in the same scope and has reported the same faults in the same order, and
what `a` has written about a node, `b` has written about the node that `f` makes of it.  The
types of expressions are left open.  Analysis never reads them, and a tree may have
expressions in it that the other lacks.

`Echoes f m n` says that `n` on a mirror image does what `m` does: it gives the same result
and ends in a mirror image again.  Steps that have nothing to do with nodes or errors echo
themselves (`Echoes.apart`).
-/

namespace Unnest

namespace NodeTable

variable {α : Type} {f : NodeId → NodeId}

/-- A table whose nodes are renumbered. -/
def renumber (f : NodeId → NodeId) (t : NodeTable α) : NodeTable α :=
  t.map fun p => (f p.1, p.2)

theorem find?_renumber (hf : Function.Injective f) (t : NodeTable α) (node : NodeId) :
    (t.renumber f).find? (f node) = t.find? node := by
  induction t with
  | nil => rfl
  | cons p t ih =>
    rw [renumber] at ih
    simp only [renumber, List.map_cons, find?, hf.eq_iff, ih]

theorem renumber_change (hf : Function.Injective f) (t : NodeTable α) (node : NodeId)
    (g : α → α) : (t.change node g).renumber f = (t.renumber f).change (f node) g := by
  rw [change, renumber, List.map_map, change, renumber, List.map_map]
  refine List.map_congr_left fun p _ => ?_
  simp only [Function.comp, hf.eq_iff]
  split <;> rfl

end NodeTable

/-- Findings whose nodes are renumbered. -/
def Findings.renumber (f : NodeId → NodeId) (t : Findings) : Findings where
  exprTypes := t.exprTypes.renumber f
  operators := t.operators.renumber f
  links := t.links.renumber f
  chains := t.chains.renumber f
  blocks := t.blocks.renumber f
  decls := t.decls.renumber f
  assigns := t.assigns.renumber f
  routines := t.routines.renumber f
  types := t.types.renumber f

namespace Analysis

/-- What was reported, without the places. -/
def faults (a : Analysis) : List Fault := a.errors.map (·.fault)

/-- `b` is `a` with its nodes renumbered, but for the types of expressions and the spans of
errors. -/
def Mirrors (f : NodeId → NodeId) (a b : Analysis) : Prop :=
  ∃ (types : NodeTable TypeId) (d : Diagnostics),
    b = { a with
      findings := { a.findings.renumber f with exprTypes := types }
      diagnostics := d } ∧ b.faults = a.faults

theorem Mirrors.refl {f : NodeId → NodeId} {a : Analysis} (h : a.findings = {}) :
    Mirrors f a a := by
  refine ⟨[], a.diagnostics, ?_, rfl⟩
  obtain ⟨⟩ := a
  subst h
  rfl

theorem Mirrors.faults_eq {f : NodeId → NodeId} {a b : Analysis} (h : Mirrors f a b) :
    b.faults = a.faults := by
  obtain ⟨-, -, -, h⟩ := h
  exact h

theorem Mirrors.count_eq {f : NodeId → NodeId} {a b : Analysis} (h : Mirrors f a b) :
    b.diagnostics.count = a.diagnostics.count := by
  have hlength := congrArg List.length h.faults_eq
  rwa [faults, faults, List.length_map, List.length_map] at hlength

theorem Mirrors.hasErrors_eq {f : NodeId → NodeId} {a b : Analysis} (h : Mirrors f a b) :
    b.hasErrors = a.hasErrors := by
  have hempty := congrArg List.isEmpty h.faults_eq
  rw [faults, faults, List.isEmpty_map, List.isEmpty_map] at hempty
  exact congrArg Bool.not hempty

open Analyze

variable {α β : Type} {f : NodeId → NodeId}

/-- On a mirror image, `n` does what `m` does. -/
def Echoes (f : NodeId → NodeId) (m n : Analyze α) : Prop :=
  ∀ a b, Mirrors f a b → (n.run b).1 = (m.run a).1 ∧ Mirrors f (m.run a).2 (n.run b).2

namespace Echoes

variable {m n : Analyze α} {k l : α → Analyze β}

theorem pure (x : α) : Echoes f (pure x) (pure x) := fun _ _ h => ⟨rfl, h⟩

theorem bind (hm : Echoes f m n) (hk : ∀ x, Echoes f (k x) (l x)) :
    Echoes f (m >>= k) (n >>= l) := by
  intro a b h
  obtain ⟨hx, hab⟩ := hm a b h
  have hrun : (n >>= l).run b = (l (m.run a).1).run (n.run b).2 := by
    rw [← hx]
    rfl
  rw [hrun]
  exact hk _ _ _ hab

/-- The same after looking at the state. -/
theorem get {k l : Analysis → Analyze β} (h : ∀ a b, Mirrors f a b → Echoes f (k a) (l b)) :
    Echoes f (get >>= k) (get >>= l) := fun a b hab => h a b hab a b hab

/-- A step that has nothing to do with nodes or errors. -/
theorem apart {m : Analyze α} (h : ∀ a t d, m.run { a with findings := t, diagnostics := d } =
    ((m.run a).1, { (m.run a).2 with findings := t, diagnostics := d })) : Echoes f m m := by
  rintro a _ ⟨types, d, rfl, hd⟩
  -- with the findings and errors of `a` itself: the step keeps both
  have ha : (m.run a).2 = { (m.run a).2 with
      findings := a.findings, diagnostics := a.diagnostics } :=
    congrArg Prod.snd (h a a.findings a.diagnostics)
  rw [h]
  refine ⟨rfl, types, d, ?_, ?_⟩
  · rw [ha]
  · rw [ha]
    exact hd

/-- A fault is reported wherever it stands. -/
theorem report (fault : Fault) (span span' : Span) :
    Echoes f (report fault span) (report fault span') := by
  rintro a _ ⟨types, d, rfl, hd⟩
  refine ⟨rfl, types, _, rfl, ?_⟩
  have hfaults : ∀ (x : Analysis) (s : Span),
      ((Analyze.report fault s).run x).2.faults = x.faults ++ [fault] := fun x s => by
    simp only [Analyze.report, reportError, StateT.run_modify, faults, errors]
    exact List.map_append
  exact (hfaults _ _).trans ((congrArg (· ++ [fault]) hd).trans (hfaults _ _).symm)

/-- What is written about a node is written about the node that it was renumbered to. -/
theorem record {g h : Findings → Findings}
    (heq : ∀ t types, ∃ types', h { t.renumber f with exprTypes := types } =
      { (g t).renumber f with exprTypes := types' }) : Echoes f (record g) (record h) := by
  rintro a _ ⟨types, d, rfl, hd⟩
  obtain ⟨types', ht⟩ := heq a.findings types
  refine ⟨rfl, types', d, ?_, hd⟩
  simp only [Analyze.record, StateT.run_modify, ht]
  rfl

/-- A report and no result. -/
theorem reject (fault : Fault) (span span' : Span) : Echoes f
    (Analyze.report fault span >>= fun _ => Pure.pure (none : Option α))
    (Analyze.report fault span' >>= fun _ => Pure.pure none) :=
  (report fault span span').bind fun _ => .pure none

/-- What happens in another scope. -/
theorem inScope (scope : ScopeId) (h : Echoes f m n) :
    Echoes f (inScope scope m) (inScope scope n) := by
  have henter : ∀ s : ScopeId, Echoes f (modify fun a => { a with current := s } : Analyze PUnit)
      (modify fun a => { a with current := s }) := fun _ => apart fun _ _ _ => rfl
  have hcurrent : Echoes f currentScope currentScope := apart fun _ _ _ => rfl
  exact hcurrent.bind fun outer => (henter scope).bind fun _ => h.bind fun x =>
    (henter outer).bind fun _ => .pure x

/-- A check for a missing value.  It asks for the number of errors, and that is the same. -/
theorem required {m n : Analyze (Option TypeId)} (h : Echoes f m n) (span span' : Span) :
    Echoes f (required span m) (required span' n) := by
  intro a b hab
  obtain ⟨hx, hab'⟩ := h a b hab
  rw [run_required, run_required, hx, Diagnostics.hasErrorsSince, Diagnostics.hasErrorsSince,
    hab.count_eq, hab'.count_eq]
  split
  · exact ⟨rfl, (report _ span span' _ _ hab').2⟩
  · exact ⟨hx, hab'⟩

/-- The type of what is in parentheses is written about the parentheses too. -/
theorem typed_left {m n : Analyze (Option TypeId)} (h : Echoes f m n) (node : NodeId) :
    Echoes f (typed node m) n := by
  intro a b hab
  obtain ⟨hx, hab'⟩ := h a b hab
  obtain ⟨type, c, hrun⟩ : ∃ type c, m.run a = (type, c) := ⟨_, _, rfl⟩
  rw [hrun] at hx hab'
  rw [Analyze.typed, StateT.run_bind, hrun, hx]
  cases type with
  | none => exact ⟨rfl, hab'⟩
  | some type =>
    obtain ⟨types, d, heq, hd⟩ := hab'
    exact ⟨rfl, types, d, heq, hd⟩

/-- The types of expressions may be written about any node. -/
theorem typed {m n : Analyze (Option TypeId)} (h : Echoes f m n) (node node' : NodeId) :
    Echoes f (typed node m) (typed node' n) := by
  refine h.bind fun x => ?_
  cases x with
  | none => exact .pure none
  | some type =>
    exact (record fun t types => ⟨types.write node' type, rfl⟩).bind fun _ => .pure _

end Echoes

/-! ## Single steps -/

theorem echoes_types : Echoes f Analyze.types Analyze.types := .apart fun _ _ _ => rfl

theorem echoes_currentScope : Echoes f currentScope currentScope := .apart fun _ _ _ => rfl

theorem echoes_typeName (type : TypeId) : Echoes f (typeName type) (typeName type) :=
  .apart fun _ _ _ => rfl

theorem echoes_resolveType (name : String) :
    Echoes f (resolveType name) (resolveType name) := .apart fun _ _ _ => rfl

theorem echoes_updateScopes (g : Scopes → Scopes) :
    Echoes f (updateScopes g) (updateScopes g) := .apart fun _ _ _ => rfl

theorem echoes_updateTypes (g : TypeTable → TypeTable) :
    Echoes f (updateTypes g) (updateTypes g) := .apart fun _ _ _ => rfl

theorem echoes_memberRoutine (owner : TypeId) (isStatic : Bool) (name : String) :
    Echoes f (memberRoutine owner isStatic name) (memberRoutine owner isStatic name) :=
  .apart fun _ _ _ => rfl

theorem echoes_openScope (kind : ScopeKind) (name : String) (unit : UnitId) :
    Echoes f (openScope kind name unit) (openScope kind name unit) := .apart fun _ _ _ => rfl

theorem echoes_planUnit (name : String) (kind : UnitKind) (owner : Option TypeId) :
    Echoes f (planUnit name kind owner) (planUnit name kind owner) := .apart fun _ _ _ => rfl

theorem echoes_addType (d : TypeDecl) : Echoes f (addType d) (addType d) :=
  .apart fun _ _ _ => rfl

theorem echoes_addRoutineType (params : List TypeId) (result : Option TypeId) :
    Echoes f (addRoutineType params result) (addRoutineType params result) :=
  .apart fun _ _ _ => rfl

theorem echoes_lookup (name : String) : Echoes f (lookup name) (lookup name) := by
  refine .apart fun a t d => ?_
  rw [run_lookup, run_lookup]
  dsimp only
  cases a.scopes.lookup a.current name with
  | found r access => cases access <;> rfl
  | hidden | missing => rfl

theorem echoes_declare (scope : ScopeId) (x : Binding) (span : Span) :
    Echoes f (declare scope x span) (declare scope x span) := by
  refine .get fun a b h => ?_
  obtain ⟨types, d, rfl, -⟩ := h
  dsimp only
  cases a.scopes.declare scope x span with
  | ok y => exact (echoes_updateScopes _).bind fun _ => .pure _
  | error e => exact .reject e.fault e.span e.span

theorem echoes_declareType (scope : ScopeId) (name : String) (type : TypeId) (span : Span) :
    Echoes f (declareType scope name type span) (declareType scope name type span) := by
  refine .get fun a b h => ?_
  obtain ⟨types, d, rfl, -⟩ := h
  dsimp only
  cases a.scopes.declareType scope name type span with
  | ok y => exact (echoes_updateScopes _).bind fun _ => .pure _
  | error e => exact (Echoes.report e.fault e.span e.span).bind fun _ => .pure _

/-! ## Links and operators -/

section Links

variable {node : NodeId} {name : String} {span span' : Span} {args args' : ArgumentTypes}

theorem echoes_recordLink (x : LinkFinding) :
    Echoes f (recordLink node x) (recordLink (f node) x) :=
  .record fun _ types => ⟨types, rfl⟩

theorem echoes_recordCall (owner : TypeId) (routine : Signature) (callee : Callee) :
    Echoes f (recordCall node owner routine callee) (recordCall (f node) owner routine callee) :=
  (echoes_recordLink _).bind fun _ => .pure _

theorem echoes_reportNoRoutine (ts : List TypeId) (owner : Option TypeId) :
    Echoes f (reportNoRoutine name ts owner span) (reportNoRoutine name ts owner span') :=
  echoes_types.bind fun _ => .reject _ _ _

theorem echoes_bareHead (hasMore : Bool) :
    Echoes f (bareHead node name span hasMore) (bareHead (f node) name span hasMore) := by
  refine (echoes_lookup name).bind fun result => ?_
  cases result with
  | found r access => exact (echoes_recordLink _).bind fun _ => .pure _
  | hidden => exact .reject _ _ _
  | missing =>
    refine (echoes_resolveType name).bind fun type => ?_
    cases type with
    | none => exact .reject _ _ _
    | some type =>
      cases hasMore with
      | true => exact (echoes_recordLink _).bind fun _ => .pure _
      | false => exact .reject _ _ _

theorem echoes_callType (hargs : Echoes f args args') (type : TypeId) :
    Echoes f (callType node type span args) (callType (f node) type span args') := by
  refine hargs.bind fun ts => ?_
  cases ts with
  | none => exact .pure none
  | some ts =>
    refine echoes_types.bind fun t => ?_
    cases t.lookup type true Reserved.call ts with
    | some routine => exact echoes_recordCall _ _ _
    | none =>
      dsimp only
      split
      · exact (echoes_recordLink _).bind fun _ => .pure _
      · exact echoes_reportNoRoutine _ _

theorem echoes_callHead (hargs : Echoes f args args') :
    Echoes f (callHead node name span args) (callHead (f node) name span args') := by
  refine (echoes_lookup name).bind fun result => ?_
  cases result with
  | found r access =>
    refine hargs.bind fun ts => ?_
    cases ts with
    | none => exact .pure none
    | some ts =>
      refine echoes_types.bind fun t => ?_
      cases t.lookup r.binding.type false Reserved.call ts with
      | some routine => exact echoes_recordCall _ _ _
      | none => exact echoes_reportNoRoutine _ _
  | hidden => exact .reject _ _ _
  | missing =>
    refine (echoes_resolveType name).bind fun type => ?_
    cases type with
    | none => exact .reject _ _ _
    | some type => exact echoes_callType hargs type

theorem echoes_readMember (owner : TypeId) (isStatic : Bool) :
    Echoes f (readMember owner isStatic name) (readMember owner isStatic name) := by
  refine echoes_types.bind fun t => ?_
  cases t.lookupField owner isStatic name with
  | some field => exact .pure _
  | none => exact echoes_memberRoutine owner isStatic name

theorem echoes_bareMember (owner : TypeId) (isStatic : Bool) :
    Echoes f (bareMember owner isStatic node name span)
      (bareMember owner isStatic (f node) name span) := by
  refine (echoes_readMember owner isStatic).bind fun field => ?_
  cases field with
  | some field => exact (echoes_recordLink _).bind fun _ => .pure _
  | none =>
    refine (echoes_typeName owner).bind fun ownerName => ?_
    cases isStatic with
    | true => exact .reject _ _ _
    | false => exact .reject _ _ _

theorem echoes_callMember (hargs : Echoes f args args') (owner : TypeId) (isStatic : Bool) :
    Echoes f (callMember owner isStatic node name span args)
      (callMember owner isStatic (f node) name span args') := by
  refine hargs.bind fun ts => ?_
  cases ts with
  | none => exact .pure none
  | some ts =>
    refine echoes_types.bind fun t => ?_
    cases t.lookup owner isStatic name ts with
    | some routine => exact echoes_recordCall _ _ _
    | none =>
      dsimp only
      cases callableField t owner isStatic name ts with
      | some x => exact echoes_recordCall _ _ _
      | none => exact echoes_reportNoRoutine _ _

theorem echoes_onReceiver (before : Produced) {g h : TypeId → Bool → Analyze (Option Produced)}
    (hgh : ∀ owner isStatic, Echoes f (g owner isStatic) (h owner isStatic)) :
    Echoes f (onReceiver before span g) (onReceiver before span h) := by
  rw [onReceiver, onReceiver]
  cases before.receiver? with
  | some x => exact hgh _ _
  | none => exact .reject _ _ _

theorem echoes_finishChain (last : Produced) :
    Echoes f (finishChain node span last) (finishChain (f node) span last) := by
  cases last with
  | value type binding =>
    exact (Echoes.record fun _ types => ⟨types, rfl⟩).bind fun _ => .pure _
  | nothing => exact (Echoes.record fun _ types => ⟨types, rfl⟩).bind fun _ => .pure _
  | typeName type => exact (echoes_typeName type).bind fun _ => .reject _ _ _

theorem echoes_operator (owner : TypeId) (isStatic : Bool) (ts : List TypeId) :
    Echoes f (operator node name owner isStatic ts span)
      (operator (f node) name owner isStatic ts span) := by
  refine echoes_types.bind fun t => ?_
  cases t.lookup owner isStatic name ts with
  | some routine => exact (Echoes.record fun _ types => ⟨types, rfl⟩).bind fun _ => .pure _
  | none => exact .reject _ _ _

end Links

/-! ## Declarations -/

mutual

theorem echoes_resolve : (w : WrittenType) → Echoes f (resolve w) (resolve w)
  | .named name => by
    rw [resolve]
    refine (echoes_resolveType name.name).bind fun found => ?_
    cases found with
    | some type => exact .pure _
    | none => exact .reject _ _ _
  | .routine params result _ => by
    rw [resolve]
    refine (echoes_resolveAll params).bind fun ps =>
      (echoes_resolveResult result).bind fun r => ?_
    cases ps with
    | none => exact .pure none
    | some ps =>
      cases r with
      | none => exact .pure none
      | some r => exact (echoes_addRoutineType ps r).bind fun _ => .pure _

theorem echoes_resolveAll : (ws : List WrittenType) → Echoes f (resolveAll ws) (resolveAll ws)
  | [] => by
    rw [resolveAll]
    exact .pure _
  | w :: ws => by
    rw [resolveAll]
    exact (echoes_resolve w).bind fun _ => (echoes_resolveAll ws).bind fun _ => .pure _

theorem echoes_resolveResult : (w : Option WrittenType) →
    Echoes f (resolveResult w) (resolveResult w)
  | none => by
    rw [resolveResult]
    exact .pure _
  | some w => by
    rw [resolveResult]
    exact (echoes_resolve w).bind fun _ => .pure _

end

theorem echoes_refuseName (name : Ident) : Echoes f (refuseName name) (refuseName name) := by
  refine .get fun a b h => ?_
  obtain ⟨types, d, rfl, -⟩ := h
  dsimp only
  split
  · exact (Echoes.report _ _ _).bind fun _ => .pure _
  · split
    · exact (Echoes.report _ _ _).bind fun _ => .pure _
    · exact .pure _

theorem echoes_declareNames (type : TypeId) (role : Role) (owner : Option TypeId)
    (names : List Ident) :
    Echoes f (declareNames type role owner names) (declareNames type role owner names) := by
  induction names with
  | nil => exact .pure _
  | cons name names ih =>
    refine (echoes_refuseName name).bind fun refused => ?_
    cases refused with
    | true => exact (Echoes.pure none).bind fun _ => ih.bind fun _ => .pure _
    | false =>
      exact echoes_currentScope.bind fun scope => (echoes_declare _ _ _).bind fun _ =>
        ih.bind fun _ => .pure _

theorem echoes_recordDecl (node : NodeId) (x : DeclFinding) :
    Echoes f (recordDecl node x) (recordDecl (f node) x) :=
  .record fun _ types => ⟨types, rfl⟩

theorem echoes_initialMode (target value : TypeId) (span span' : Span) :
    Echoes f (initialMode target value span) (initialMode target value span') := by
  refine echoes_types.bind fun t => ?_
  cases t.assignable true target value with
  | true => exact .pure _
  | false => exact .reject _ _ _

theorem echoes_declareInit (node : NodeId) (role : Role) (owner : Option TypeId)
    (names : List Ident) (type value : Option TypeId) (span span' : Span) :
    Echoes f (declareInit node role owner names type value span)
      (declareInit (f node) role owner names type value span') := by
  cases type with
  | none => exact .pure _
  | some type =>
    cases value with
    | none => exact .pure _
    | some value =>
      refine (echoes_initialMode type value span span').bind fun mode => ?_
      cases mode with
      | none => exact .pure _
      | some mode =>
        exact (echoes_declareNames _ _ _ _).bind fun _ => (echoes_recordDecl _ _).bind fun _ =>
          .pure _

theorem echoes_refuseMember (member : Option Membership) (name : Ident) (ts : List TypeId) :
    Echoes f (refuseMember member name ts) (refuseMember member name ts) := by
  refine echoes_types.bind fun t => ?_
  cases member with
  | none => exact .pure _
  | some m =>
    dsimp only
    split
    · exact (Echoes.report _ _ _).bind fun _ => .pure _
    · exact .pure _

theorem echoes_declareParams (scope : ScopeId) (ps : List (Param × TypeId)) :
    Echoes f (declareParams scope ps) (declareParams scope ps) := by
  induction ps with
  | nil => exact .pure _
  | cons p ps ih => exact (echoes_declare _ _ _).bind fun _ => ih.bind fun _ => .pure _

theorem echoes_addMember (member : Option Membership) (s : Signature) :
    Echoes f (addMember member s) (addMember member s) := by
  cases member with
  | none => exact .pure _
  | some m => exact echoes_updateTypes _

theorem echoes_refuseType (name : Ident) : Echoes f (refuseType name) (refuseType name) := by
  refine .get fun a b h => ?_
  obtain ⟨types, d, rfl, -⟩ := h
  dsimp only
  split
  · exact (Echoes.report _ _ _).bind fun _ => .pure _
  · split
    · exact (Echoes.report _ _ _).bind fun _ => .pure _
    · exact .pure _

theorem echoes_openType (name : Ident) : Echoes f (openType name) (openType name) := by
  refine (echoes_refuseType name).bind fun refused => ?_
  cases refused with
  | true => exact .pure none
  | false =>
    refine (echoes_addType _).bind fun type => echoes_currentScope.bind fun scope =>
      (echoes_declareType _ _ _ _).bind fun declared => ?_
    cases declared with
    | false => exact .pure none
    | true =>
      refine (echoes_planUnit _ _ _).bind fun unit => ?_
      refine Echoes.get fun a b h => ?_
      obtain ⟨types, d, rfl, -⟩ := h
      exact (echoes_updateTypes _).bind fun _ => (echoes_openScope _ _ _).bind fun _ =>
        (echoes_updateScopes _).bind fun _ =>
          ((echoes_openScope _ _ _).inScope _).bind fun _ => (echoes_updateScopes _).bind fun _ =>
            .pure _

/-! ## Blocks and captures -/

theorem echoes_openBlock (node : NodeId) : Echoes f (openBlock node) (openBlock (f node)) := by
  have hname : Echoes f
      (modifyGet fun a : Analysis => ((a.scopes.nextBlockName a.current).1,
        { a with scopes := (a.scopes.nextBlockName a.current).2 }) : Analyze String)
      (modifyGet fun a : Analysis => ((a.scopes.nextBlockName a.current).1,
        { a with scopes := (a.scopes.nextBlockName a.current).2 })) := .apart fun _ _ _ => rfl
  exact hname.bind fun _ => (echoes_planUnit _ _ _).bind fun _ =>
    (echoes_openScope _ _ _).bind fun _ =>
      (Echoes.record fun _ types => ⟨types, rfl⟩).bind fun _ => .pure _

theorem echoes_sourcesOf (cs : List (String × TypeId)) :
    Echoes f (sourcesOf cs) (sourcesOf cs) := by
  induction cs with
  | nil => exact .pure _
  | cons c cs ih =>
    obtain ⟨name, type⟩ := c
    refine (echoes_lookup name).bind fun result => ?_
    cases result with
    | found r access => exact (Echoes.pure _).bind fun _ => ih.bind fun _ => .pure _
    | hidden | missing => exact (Echoes.pure _).bind fun _ => ih.bind fun _ => .pure _

theorem echoes_captureSources (scope : ScopeId) :
    Echoes f (captureSources scope) (captureSources scope) := by
  refine .get fun a b h => ?_
  obtain ⟨types, d, rfl, -⟩ := h
  exact echoes_sourcesOf _

theorem echoes_checkClosing (fault : String → String → Fault) (name closing : Ident) :
    Echoes f (checkClosing fault name closing) (checkClosing fault name closing) := by
  rw [checkClosing]
  split
  · exact .report _ _ _
  · exact .pure _

/-- What every program can use is declared in both. -/
theorem mirrors_initial (program : String) : Mirrors f (initial program) (initial program) := by
  have htypes : ∀ ts, Echoes f (declareTypes ts) (declareTypes ts) := fun ts => by
    induction ts with
    | nil => exact .pure _
    | cons t ts ih =>
      exact ((echoes_declareType _ _ _ _).bind fun _ => .pure _).bind fun _ => ih
  have hroutines : ∀ rs, Echoes f (declareRoutines rs) (declareRoutines rs) := fun rs => by
    induction rs with
    | nil => exact .pure _
    | cons r rs ih => exact ((echoes_declare _ _ _).bind fun _ => .pure _).bind fun _ => ih
  exact ((htypes _).bind fun _ => hroutines _) _ _ (.refl rfl) |>.2

end Analysis

end Unnest
