import Unnest.Proofs.Analysis.Known
import Unnest.Proofs.Scope.Slots

/-!
# What declarations enter

A declaration of names enters the bindings that it records, in order, in the scope that
it stands in, and nothing anywhere else (`Enters`).  A routine enters its own binding there, and its
parameters in the scope of its body: the first of them is in slot 1, behind the routine
itself, and each of the others is in the slot behind the one before (`paramBindings`).
-/

namespace Unnest.Analysis

open Analyze

variable {α : Type} {K : Multiset Key} {p : Place} {a b c z : Analysis} {s d : ScopeId}

/-! ## Names -/

theorem enters_varDecl (role : Role) (owner : Option TypeId) (d : VarDecl) :
    Enters (varDecl role owner d) := by
  refine .after (quiet_resolve d.type) fun type => ?_
  cases type with
  | none => exact .nothing
  | some type =>
    exact (enters_declareNames type role owner d.names).andRecord fun _ => quiet_note fun _ => rfl

theorem enters_declareInit (node : NodeId) (role : Role) (owner : Option TypeId)
    (names : List Ident) (type value : Option TypeId) (span : Span) :
    Enters (declareInit node role owner names type value span) := by
  cases type with
  | none => exact .nothing
  | some type =>
    cases value with
    | none => exact .nothing
    | some value =>
      refine .after (quiet_initialMode type value span) fun mode => ?_
      cases mode with
      | none => exact .nothing
      | some mode =>
        exact (enters_declareNames type role owner names).andRecord fun _ => quiet_note fun _ => rfl

theorem role_declareName {type : TypeId} {role : Role} {owner : Option TypeId} {name : Ident}
    {x : Binding} (h : ((declareName type role owner name).run a).1 = some x) : x.role = role := by
  rw [declareName, StateT.run_bind] at h
  cases hrefuse : (refuseName name).run a with
  | mk refused b =>
    rw [hrefuse] at h
    cases refused with
    | true =>
      have hnone : none = some x := h
      exact absurd hnone (by simp)
    | false =>
      have hdeclare : ((declare b.current { name := name.name, type, role, owner }
        name.span).run b).1 = some x := h
      rw [run_declare] at hdeclare
      cases hd : b.scopes.declare b.current { name := name.name, type, role, owner } name.span with
      | error e =>
        rw [hd] at hdeclare
        exact absurd hdeclare (by simp)
      | ok result =>
        rw [hd] at hdeclare
        obtain rfl := Option.some.inj hdeclare
        rw [(Scopes.declared_of_declare hd).binding_eq]

theorem role_declareNames (type : TypeId) (role : Role) (owner : Option TypeId) :
    (names : List Ident) → (a : Analysis) →
      ∀ x ∈ ((declareNames type role owner names).run a).1, x.role = role
  | [], _ => fun _ hx => absurd hx List.not_mem_nil
  | name :: names, a => fun x hx => by
    rw [declareNames_cons] at hx
    have hsplit : x ∈ ((declareName type role owner name).run a).1.toList ++
      ((declareNames type role owner names).run ((declareName type role owner name).run a).2).1 := hx
    rcases List.mem_append.mp hsplit with hx | hx
    · exact role_declareName (Option.mem_toList.mp hx)
    · exact role_declareNames type role owner names _ x hx

theorem role_declareInit (node : NodeId) (role : Role) (owner : Option TypeId) (names : List Ident)
    (type value : Option TypeId) (span : Span) (a : Analysis) :
    ∀ x ∈ ((declareInit node role owner names type value span).run a).1, x.role = role := by
  intro x hx
  cases type with
  | none => exact absurd hx List.not_mem_nil
  | some type =>
    cases value with
    | none => exact absurd hx List.not_mem_nil
    | some value =>
      rw [declareInit, StateT.run_bind] at hx
      cases hmode : (initialMode type value span).run a with
      | mk mode b =>
        rw [hmode] at hx
        cases mode with
        | none => exact absurd hx List.not_mem_nil
        | some mode => exact role_declareNames type role owner names b x hx

/-- The bindings on record are the ones that were entered. -/
theorem records_varDecl {role : Role} {owner : Option TypeId} (may : Declares p role owner)
    (d : VarDecl) : Decides p {(.decls, d.node)} (varDecl role owner d) fun z bs =>
      Accepted z → ∃ f, z.findings.decls.find? d.node = some f ∧ f.bindings = bs := by
  refine (decides_resolve p d.type).andThen fun type => ?_
  cases type with
  | none =>
    refine Decides.idle (.pure fun z hz h => ?_)
    obtain ⟨type, htype⟩ := hz.fact h
    exact absurd htype (by simp)
  | some type =>
    refine (decides_declareNames type (fun z hz => may z hz type) d.names).weaken.andThen fun bs => ?_
    exact (decides_recordDecl d.node _).andPure fun z _ _ hfind h => ⟨_, hfind h, rfl⟩

theorem records_declareInit {role : Role} {owner : Option TypeId} (may : Declares p role owner)
    (node : NodeId) (names : List Ident) (type value : TypeId) (span : Span) :
    Decides p {(.decls, node)} (declareInit node role owner names (some type) (some value) span)
      fun z bs => Accepted z → ∃ f mode,
        z.findings.decls.find? node = some f ∧ f.bindings = bs ∧ f.mode = some mode := by
  refine (decides_initialMode type value span).andThen fun mode => ?_
  cases mode with
  | none =>
    refine Decides.idle (.pure fun z hz h => ?_)
    obtain ⟨mode, hmode, -⟩ := hz.fact h
    exact absurd hmode (by simp)
  | some mode =>
    refine (decides_declareNames type (fun z hz => may z hz type) names).weaken.andThen fun bs => ?_
    exact (decides_recordDecl node _).andPure fun z _ _ hfind h => ⟨_, _, hfind h, rfl, rfl⟩

/-! ## Parameters -/

/-- The bindings of parameters in a row of slots. -/
def paramBindings : Nat → List (Param × TypeId) → List Binding
  | _, [] => []
  | n, (q, type) :: ps =>
    { name := q.name.name, type, role := .param, slot := some n } :: paramBindings (n + 1) ps

theorem getElem?_paramBindings {q : Param} {type : TypeId} {i : Nat} :
    {ps : List (Param × TypeId)} → {n : Nat} → ps[i]? = some (q, type) →
      { name := q.name.name, type, role := .param, slot := some (n + i) } ∈ paramBindings n ps := by
  induction i with
  | zero =>
    intro ps n h
    cases ps with
    | nil => exact absurd h (by simp)
    | cons x ps =>
      obtain rfl := Option.some.inj h
      exact List.mem_cons_self
  | succ i ih =>
    intro ps n h
    cases ps with
    | nil => exact absurd h (by simp)
    | cons x ps =>
      refine List.mem_cons_of_mem _ ?_
      have hrest := @ih ps (n + 1) h
      rwa [show n + 1 + i = n + (i + 1) by omega] at hrest

theorem lt_of_mem_slotSet_paramBindings {k : Nat} :
    {ps : List (Param × TypeId)} → {n : Nat} → k ∈ slotSet (paramBindings n ps) →
      k < n + ps.length
  | [], _, ⟨_, hb, _⟩ => absurd hb List.not_mem_nil
  | x :: ps, n, ⟨b, hb, hk⟩ => by
    rw [List.length_cons]
    rcases List.mem_cons.mp hb with rfl | hb
    · obtain rfl := Option.some.inj hk
      omega
    · have hlt := @lt_of_mem_slotSet_paramBindings k ps (n + 1) ⟨b, hb, hk⟩
      omega

theorem adds_declareParams : (ps : List (Param × TypeId)) → {a : Analysis} → a.scopes.Has d →
    Adds (only d ((declareParams d ps).run a).1) a ((declareParams d ps).run a).2
  | [], a, _ => by
    rw [show (declareParams d []).run a = ([], a) from rfl, only_nil]
    exact .refl a
  | (q, type) :: ps, a, ha => by
    have hfirst := adds_declare ha { name := q.name.name, type, role := .param } q.name.span
    exact hfirst.andOnly (adds_declareParams ps (hfirst.scopes.has ha))

/-- Without errors, every parameter is declared, in the next slot. -/
theorem declareParams_eq : (ps : List (Param × TypeId)) → {a : Analysis} → a.scopes.Has d →
    (a.scopes.get d).kind = .routine → ((declareParams d ps).run a).2.errors = [] →
      ((declareParams d ps).run a).1 = paramBindings (a.scopes.get d).numLocals ps
  | [], a, _, _, _ => rfl
  | (q, type) :: ps, a, ha, hk, he => by
    have howns : a.scopes.owningMethod d = d := Scopes.owningMethod_of_owns (by rw [hk]; rfl)
    have hrun := run_declare d { name := q.name.name, type, role := .param } q.name.span a
    cases h : a.scopes.declare d { name := q.name.name, type, role := .param } q.name.span with
    | error e =>
      rw [h] at hrun
      have herrors := (@adds_declareParams d ps
        { a with diagnostics := a.diagnostics.report e } ha).errors
      have hstep : ((declareParams d ((q, type) :: ps)).run a).2 =
          ((declareParams d ps).run { a with diagnostics := a.diagnostics.report e }).2 := by
        rw [declareParams, StateT.run_bind, hrun]
        rfl
      rw [hstep] at he
      rw [he] at herrors
      exact absurd (List.prefix_nil.mp herrors)
        (List.append_ne_nil_of_right_ne_nil a.errors (List.cons_ne_nil e []))
    | ok result =>
      obtain ⟨x, scopes⟩ := result
      rw [h] at hrun
      have hd := Scopes.declared_of_declare h
      have hcount := Scopes.numLocals_get_declare h (by rwa [howns]) d
      have hstep : (declareParams d ((q, type) :: ps)).run a =
          (x :: ((declareParams d ps).run { a with scopes }).1,
            ((declareParams d ps).run { a with scopes }).2) := by
        rw [declareParams, StateT.run_bind, hrun]
        rfl
      rw [hstep] at he ⊢
      rw [paramBindings, declareParams_eq ps (hd.extends.has ha) (hd.head.kind.trans hk) he]
      refine congrArg₂ _ ?_ (congrArg (paramBindings · ps) ?_)
      · rw [hd.binding_eq, Scopes.numLocals, howns]
        rfl
      · rw [hcount, if_pos ⟨rfl, howns⟩]

/-! ## Routines -/

/-- A routine is on record with its parameters, and nothing else is in its scope. -/
structure Recorded (member : Option Membership) (r : RoutineDef) (d : DeclaredRoutine)
    (f : RoutineFinding) (b : Analysis) : Prop where
  mem : (r.node, f) ∈ b.findings.routines
  scope : f.scope = d.scope
  memberOf : f.memberOf = member.map (·.type)
  isStatic : f.isStatic = (member.map (·.isStatic)).getD false
  role : member = none → f.binding.role = .routine
  length : f.signature.params.length = r.params.length
  name : (b.scopes.get f.scope).name = f.binding.name
  entries : (b.scopes.get f.scope).entries =
    paramBindings 1 (r.params.zip f.signature.params)

theorem Recorded.find? {member : Option Membership} {r : RoutineDef} {d : DeclaredRoutine}
    {f : RoutineFinding} (h : Recorded member r d f a) (hz : Settled z) (hg : Grows a z) :
    ∃ sources, z.findings.routines.find? r.node = some { f with captures := sources } := by
  obtain ⟨sources, hmem⟩ := hg.findings.routines _ h.mem
  exact ⟨sources, (Findings.nodup_routines hz.keys).find?_eq hmem⟩

/-- A routine stays on record, and in the end it gets its captures. -/
theorem Recorded.later {member : Option Membership} {r : RoutineDef} {d : DeclaredRoutine}
    {f : RoutineFinding} (h : Recorded member r d f a) (hg : Grows a b)
    (hs : a.scopes.Has d.scope)
    (he : (b.scopes.get d.scope).entries = (a.scopes.get d.scope).entries) :
    ∃ g, Recorded member r d g b := by
  obtain ⟨sources, hmem⟩ := hg.findings.routines _ h.mem
  rw [← h.scope] at hs he
  exact ⟨_, hmem, h.scope, h.memberOf, h.isStatic, h.role, h.length,
    (hg.scopes.head _ hs).name.trans h.name, he.trans h.entries⟩

/-- A routine was declared between two states: what it entered is its binding. -/
structure Entered (member : Option Membership) (r : RoutineDef) (a : Analysis)
    (d : DeclaredRoutine) (b : Analysis) (f : RoutineFinding) : Prop where
  recorded : Recorded member r d f b
  current : b.current = a.current
  entries : ∀ s, a.scopes.Has s →
    (b.scopes.get s).entries = (a.scopes.get s).entries ++ only a.current [f.binding] s

/-- A part of the analysis declares a routine, or fails. -/
def EntersRoutine (member : Option Membership) (r : RoutineDef)
    (m : Analyze (Option DeclaredRoutine)) : Prop :=
  ∀ a, a.scopes.Has a.current → ∀ d, (m.run a).1 = some d → (m.run a).2.errors = [] →
    ∃ f, Entered member r a d (m.run a).2 f

namespace EntersRoutine

variable {member : Option Membership} {r : RoutineDef}

theorem refused : EntersRoutine member r (pure none) := fun _ _ _ h => absurd h (by simp)

/-- Behind what enters nothing. -/
theorem after {n : Analyze α} {f : α → Analyze (Option DeclaredRoutine)} (hn : Quiet n)
    (hf : ∀ a, EntersRoutine member r (f (n.run a).1)) : EntersRoutine member r (n >>= f) := by
  intro a ha d hd he
  have hb := hn a
  obtain ⟨g, h⟩ := hf a (n.run a).2 (hb.has_current ha) d hd he
  refine ⟨g, h.recorded, h.current.trans hb.current, fun s hs => ?_⟩
  have hentries := h.entries s (hb.scopes.has hs)
  rw [hb.entries, hb.current, List.append_nil] at hentries
  exact hentries

end EntersRoutine

theorem length_resolveAll : (ws : List WrittenType) → {a : Analysis} → {ts : List TypeId} →
    ((resolveAll ws).run a).1 = some ts → ts.length = ws.length
  | [], a, ts, h => by
    obtain rfl := Option.some.inj h
    rfl
  | w :: ws, a, ts, h => by
    have hrun : ((resolveAll (w :: ws)).run a).1 = ((resolve w).run a).1.bind fun type =>
        ((resolveAll ws).run ((resolve w).run a).2).1.map (type :: ·) := by
      rw [resolveAll]
      rfl
    rw [hrun, Option.bind_eq_some_iff] at h
    obtain ⟨type, -, h⟩ := h
    obtain ⟨rest, hrest, rfl⟩ := Option.map_eq_some_iff.mp h
    rw [List.length_cons, length_resolveAll ws hrest, List.length_cons]

/-- Opening a routine enters its parameters in the new scope. -/
theorem recorded_openRoutine {member : Option Membership} {r : RoutineDef} {signature : Signature}
    {binding : Binding} (hlength : signature.params.length = r.params.length)
    (hname : binding.name = r.name.name) (hrole : member = none → binding.role = .routine)
    (he : ((openRoutine r member signature binding).run a).2.errors = []) :
    ∃ f, Recorded member r ((openRoutine r member signature binding).run a).1 f
        ((openRoutine r member signature binding).run a).2 ∧ f.binding = binding ∧
      ((openRoutine r member signature binding).run a).2.current = a.current ∧
      ∀ s, a.scopes.Has s →
        (((openRoutine r member signature binding).run a).2.scopes.get s).entries =
          (a.scopes.get s).entries := by
  rw [run_openRoutine] at he ⊢
  have hnew := Scopes.agrees_openMember_new a.scopes a.current .routine r.name.name
    ⟨a.units.size⟩ (member.map (·.type)) ((member.map (·.isStatic)).getD false)
  have hcount := Scopes.numLocals_get_openMember a.scopes a.current .routine r.name.name
    ⟨a.units.size⟩ (member.map (·.type)) ((member.map (·.isStatic)).getD false) ⟨a.scopes.size⟩
  rw [if_pos rfl] at hcount
  have hopened := adds_openMember a a.current .routine r.name.name ⟨a.units.size⟩
    (member.map (·.type)) ((member.map (·.isStatic)).getD false)
  set units := (a.units.plan (a.scopes.get a.current).unit r.name.name .routine none).2
  set t := a.scopes.openMember a.current .routine r.name.name ⟨a.units.size⟩
    (member.map (·.type)) ((member.map (·.isStatic)).getD false) with ht
  have hhas : t.Has ⟨a.scopes.size⟩ := by
    rw [ht, Scopes.Has, Scopes.size_openMember]
    exact Nat.lt_succ_self _
  have hadds := @adds_declareParams ⟨a.scopes.size⟩ (r.params.zip signature.params)
    { a with scopes := t, units } hhas
  have hparams := @declareParams_eq ⟨a.scopes.size⟩ (r.params.zip signature.params)
    { a with scopes := t, units } hhas hnew.head.kind he
  rw [hcount] at hparams
  dsimp only
  set x := (declareParams ⟨a.scopes.size⟩ (r.params.zip signature.params)).run
    { a with scopes := t, units }
  refine ⟨openedRoutine a member signature binding x.1, ⟨List.mem_cons_self, rfl, rfl, rfl, hrole,
    hlength, ?_, ?_⟩, rfl, hadds.current, fun s hs => ?_⟩
  · exact ((hadds.scopes.head _ hhas).name.trans hnew.head.name).trans hname.symm
  · refine (hadds.entries ⟨a.scopes.size⟩).trans ?_
    rw [only_self, hparams]
    exact congrArg (· ++ _) hnew.entries
  · have hne : s ≠ ⟨a.scopes.size⟩ := by
      rintro rfl
      exact Nat.lt_irrefl _ hs
    refine (hadds.entries s).trans ?_
    rw [only, if_neg hne, List.append_nil]
    exact (hopened.entries s).trans (List.append_nil _)

/-- A routine that is declared enters its binding, and its parameters in its own scope. -/
theorem enters_declareRoutine (member : Option Membership) (r : RoutineDef) :
    EntersRoutine member r (declareRoutine member r) := by
  refine .after (quiet_resolveAll _) fun a => ?_
  have hlength := @length_resolveAll (r.params.map (·.type)) a
  generalize ((resolveAll (r.params.map (·.type))).run a).1 = params at hlength
  refine .after (quiet_resolveResult r.result) fun b => ?_
  generalize ((resolveResult r.result).run b).1 = result
  cases params with
  | none => exact .refused
  | some params =>
    cases result with
    | none => exact .refused
    | some result =>
      refine .after (quiet_refuseMember member r.name params) fun b => ?_
      generalize ((refuseMember member r.name params).run b).1 = refused
      cases refused with
      | true => exact .refused
      | false =>
        refine .after (quiet_refuseName r.name) fun b => ?_
        generalize ((refuseName r.name).run b).1 = refused
        cases refused with
        | true => exact .refused
        | false =>
          refine .after (quiet_addRoutineType params result) fun b => ?_
          generalize ((addRoutineType params result).run b).1 = type
          intro a ha d hd he
          have hfirst := adds_declare ha (routineBinding member r.name.name type) r.name.span
          have hhead := fun x => @head_of_declare a.current
            (routineBinding member r.name.name type) r.name.span x a
          rw [name_routineBinding] at hhead
          rw [StateT.run_bind, show currentScope.run a = pure (a.current, a) from rfl, pure_bind,
            StateT.run_bind] at hd he ⊢
          generalize (declare a.current (routineBinding member r.name.name type) r.name.span).run a =
            x at hfirst hhead hd he ⊢
          obtain ⟨binding, b⟩ := x
          cases binding with
          | none => exact absurd hd (by simp [bind])
          | some binding =>
            have hmember := quiet_addMember member ⟨r.name.name, params, result⟩ b
            set c := ((addMember member ⟨r.name.name, params, result⟩).run b).2
            obtain ⟨f, hf, hbinding, hcurrent, hentries⟩ := @recorded_openRoutine c member r
              ⟨r.name.name, params, result⟩ binding (by rw [hlength rfl, List.length_map])
              (hhead binding rfl).1 (fun hm => (hhead binding rfl).2.1.trans (hm ▸ rfl)) he
            have hadds := hfirst.andNothing hmember
            refine ⟨f, Option.some.inj hd ▸ hf, hcurrent.trans hadds.current, fun s hs => ?_⟩
            rw [hbinding]
            exact (hentries s (hadds.scopes.has hs)).trans (hadds.entries s)

/-! ## Types -/

/-- No scope gets a binding. -/
def KeepsEntries (m : Analyze α) : Prop :=
  ∀ a s, ((m.run a).2.scopes.get s).entries = (a.scopes.get s).entries

namespace KeepsEntries

theorem quiet {m : Analyze α} (hm : Quiet m) : KeepsEntries m := fun a s => by
  rw [(hm a).entries, List.append_nil]

theorem bind {β : Type} {m : Analyze α} {f : α → Analyze β} (hm : KeepsEntries m)
    (hf : ∀ x, KeepsEntries (f x)) : KeepsEntries (m >>= f) := fun a s =>
  (hf (m.run a).1 (m.run a).2 s).trans (hm a s)

end KeepsEntries

/-- A type is no binding. -/
theorem keepsEntries_declareType (s : ScopeId) (name : String) (type : TypeId) (span : Span) :
    KeepsEntries (declareType s name type span) := fun a x => by
  rw [run_declareType]
  cases h : a.scopes.declareType s name type span with
  | error e => rfl
  | ok scopes => exact (Scopes.typeDeclared_of_declareType h).entries_eq x

theorem keepsEntries_openType (name : Ident) : KeepsEntries (openType name) := by
  refine .bind (.quiet (quiet_refuseType name)) fun refused => ?_
  cases refused with
  | true => exact .quiet (.pure _)
  | false =>
    refine .bind (fun _ _ => rfl) fun type => .bind (.quiet quiet_currentScope) fun s =>
      .bind (keepsEntries_declareType s name.name type name.span) fun done => ?_
    cases done with
    | false => exact .quiet (.pure _)
    | true =>
      intro a x
      have hopened := (adds_openedType a name.name type).entries x
      rw [List.append_nil] at hopened
      exact hopened

end Unnest.Analysis
