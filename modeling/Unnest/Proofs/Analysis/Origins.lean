import Unnest.Proofs.Analysis.Checks
import Unnest.Proofs.Analysis.Timeline

/-!
# Where user types come from

A user type is added to the table when its definition is opened, and nothing else adds one
(`AddsNoUser`).  So every user type that there is at the end was opened by some definition of
the program, in a state that the analysis came to (`exists_opens`).
-/

namespace Unnest.Analysis

open Analyze

variable {program : String} {q : Program} {α β : Type} {a b c : Analysis}

/-! ## Parts that add none -/

/-- No user type is added. -/
def AddsNoUser (m : Analyze α) : Prop :=
  ∀ a id, (m.run a).2.types.form id = .user → a.types.form id = .user

namespace AddsNoUser

variable {m : Analyze α}

theorem quiet (hm : Quiet m) : AddsNoUser m := fun a => (hm a).types.users

theorem bind {f : α → Analyze β} (hm : AddsNoUser m) (hf : ∀ x, AddsNoUser (f x)) :
    AddsNoUser (m >>= f) := fun a id h => hm a id (hf (m.run a).1 (m.run a).2 id h)

theorem discard (hm : AddsNoUser m) : AddsNoUser (discard m) := fun a id h => hm a id h

theorem done {x : α} : AddsNoUser (pure x : Analyze α) := fun _ _ h => h

end AddsNoUser

theorem addsNoUser_declare (s : ScopeId) (x : Binding) (span : Span) :
    AddsNoUser (declare s x span) := by
  intro a id h
  rw [run_declare] at h
  cases hd : a.scopes.declare s x span <;> rw [hd] at h <;> exact h

theorem addsNoUser_declareNames (type : TypeId) (role : Role) (owner : Option TypeId) :
    (names : List Ident) → AddsNoUser (declareNames type role owner names)
  | [] => .done
  | name :: names => by
    rw [declareNames_cons]
    refine .bind (.bind (.quiet (quiet_refuseName name)) fun refused => ?_) fun _ =>
      (addsNoUser_declareNames type role owner names).bind fun _ => .done
    cases refused with
    | true => exact .done
    | false => exact .bind (.quiet quiet_currentScope) fun s => addsNoUser_declare s _ _

theorem addsNoUser_varDecl (role : Role) (owner : Option TypeId) (d : VarDecl) :
    AddsNoUser (varDecl role owner d) := by
  refine .bind (.quiet (quiet_resolve d.type)) fun type => ?_
  cases type with
  | none => exact .done
  | some type =>
    exact (addsNoUser_declareNames type role owner d.names).bind fun bs =>
      .bind (.quiet (quiet_note fun _ => rfl)) fun _ => .done

theorem addsNoUser_declareInit (node : NodeId) (role : Role) (owner : Option TypeId)
    (names : List Ident) (type value : Option TypeId) (span : Span) :
    AddsNoUser (declareInit node role owner names type value span) := by
  cases type with
  | none => exact .done
  | some type =>
    cases value with
    | none => exact .done
    | some value =>
      refine .bind (.quiet (quiet_initialMode type value span)) fun mode => ?_
      cases mode with
      | none => exact .done
      | some mode =>
        exact (addsNoUser_declareNames type role owner names).bind fun bs =>
          .bind (.quiet (quiet_note fun _ => rfl)) fun _ => .done

theorem addsNoUser_initDecl (d : InitDecl) : AddsNoUser (initDecl d) :=
  .bind (.quiet (quiet_resolve d.type)) fun _ => .bind (.quiet (quiet_operand d.value)) fun _ =>
    (addsNoUser_declareInit _ _ _ _ _ _ _).discard

theorem addsNoUser_addFields (type : TypeId) (isStatic : Bool) (bs : List Binding) :
    AddsNoUser (updateTypes fun t => t.update type fun d => d.addFields isStatic bs) :=
  fun a id h => by rwa [← TypeTable.form_update_addFields a.types type id isStatic bs]

theorem addsNoUser_instanceFields (type : TypeId) : (ds : List VarDecl) →
    AddsNoUser (instanceFields type ds)
  | [] => .done
  | d :: ds => (addsNoUser_varDecl .field (some type) d).bind fun bs =>
      (addsNoUser_addFields type false bs).bind fun _ => addsNoUser_instanceFields type ds

theorem addsNoUser_staticField (type : TypeId) (inner : ScopeId) (f : StaticField) :
    AddsNoUser (staticField type inner f) := by
  have hvalue : AddsNoUser (inScope inner (operand f.init)) := fun a =>
    AddsNoUser.quiet (quiet_operand f.init) { a with current := inner }
  exact hvalue.bind fun _ => .bind (.quiet (quiet_resolve f.decl.type)) fun _ =>
    (addsNoUser_declareInit _ _ _ _ _ _ _).bind fun _ => addsNoUser_addFields type true _

theorem addsNoUser_staticFields (type : TypeId) (inner : ScopeId) : (fs : List StaticField) →
    AddsNoUser (staticFields type inner fs)
  | [] => .done
  | f :: fs => (addsNoUser_staticField type inner f).bind fun _ =>
      addsNoUser_staticFields type inner fs

theorem types_declareParams (s : ScopeId) : (ps : List (Param × TypeId)) → (a : Analysis) →
    ((declareParams s ps).run a).2.types = a.types
  | [], _ => rfl
  | (p, type) :: ps, a => by
    have hfirst : ((declare s { name := p.name.name, type, role := .param } p.name.span).run
        a).2.types = a.types := by
      rw [run_declare]
      cases a.scopes.declare s { name := p.name.name, type, role := .param } p.name.span <;> rfl
    exact (types_declareParams s ps _).trans hfirst

/-- No type changes when a routine is opened. -/
theorem types_openRoutine (r : RoutineDef) (member : Option Membership) (signature : Signature)
    (x : Binding) (a : Analysis) :
    ((openRoutine r member signature x).run a).2.types = a.types := by
  rw [run_openRoutine]
  dsimp only
  rw [types_declareParams]

theorem addsNoUser_declareRoutine (member : Option Membership) (r : RoutineDef) :
    AddsNoUser (declareRoutine member r) := by
  rw [declareRoutine_eq]
  refine .bind (.quiet (isCheck_checkRoutine member r).quiet) fun x => ?_
  cases x with
  | none => exact .done
  | some x =>
    refine .bind (.quiet (quiet_addRoutineType x.1 x.2)) fun type =>
      .bind (.quiet quiet_currentScope) fun s => (addsNoUser_declare s _ _).bind fun b => ?_
    cases b with
    | none => exact .done
    | some b =>
      refine .bind (.quiet (quiet_addMember member _)) fun _ =>
        .bind (fun a id h => ?_) fun _ => .done
      rwa [TypeTable.form, types_openRoutine] at h

theorem addsNoUser_declareMembers (member : Membership) (rs : List RoutineDef) :
    AddsNoUser (declareMembers member rs) := by
  induction rs with
  | nil => exact .done
  | cons r rs ih =>
    exact (addsNoUser_declareRoutine (some member) r).bind fun _ => ih.bind fun _ => .done

/-! ## Definitions that open types -/

/-- A definition of the program opens a type. -/
structure OpensType (program : String) (q : Program) (d : TypeDef) (a : Analysis)
    (f : TypeFinding) : Prop where
  reached : Reached program q (.typeDef d) a
  opened : ((openType d.name).run a).1 = some f

/-- A type is opened under the next index, and no other user type is added. -/
theorem users_openType {name : Ident} {f : TypeFinding} (hf : ((openType name).run a).1 = some f) :
    f.type.index = a.types.size ∧
    ((openType name).run a).2.types.size = a.types.size + 1 ∧
    ∀ id, ((openType name).run a).2.types.form id = .user →
      a.types.form id = .user ∨ f.type = id := by
  obtain ⟨scopes, -, hrun⟩ := run_openType (not_refused_of_opened hf)
  rw [hrun] at hf ⊢
  obtain rfl := Option.some.inj hf
  set path := (a.units.plan (scopes.get a.current).unit name.name .type
    (some ⟨a.types.size⟩)).2.path ⟨a.units.size⟩
  have hsame := TypeTable.sameData_setPath (a.types.add { name := name.name, form := .user }).2
    ⟨a.types.size⟩ path
  refine ⟨rfl, ?_, fun id h => ?_⟩
  · exact (TypeTable.size_update ..).trans (TypeTable.size_add ..)
  · have hadded := hsame.users id h
    rw [or_iff_not_imp_right]
    intro hne
    have hold : id ≠ (a.types.add { name := name.name, form := .user }).1 := Ne.symm hne
    rwa [TypeTable.form, TypeTable.get, TypeTable.get?_add, if_neg hold] at hadded

/-- Every user type was there, or is one that a definition opens. -/
def OpensAll (program : String) (q : Program) (a b : Analysis) : Prop :=
  ∀ id, b.types.form id = .user →
    a.types.form id = .user ∨ ∃ d c f, OpensType program q d c f ∧ f.type = id

namespace OpensAll

theorem trans (h : OpensAll program q a b) (h' : OpensAll program q b c) :
    OpensAll program q a c := fun id hid => (h' id hid).elim (h id) .inr

theorem of_addsNoUser (program : String) (q : Program) {m : Analyze α} (hm : AddsNoUser m)
    (a : Analysis) : OpensAll program q a (m.run a).2 := fun id hid => .inl (hm a id hid)

theorem of_quiet (program : String) (q : Program) {m : Analyze α} (hm : Quiet m)
    (a : Analysis) : OpensAll program q a (m.run a).2 := .of_addsNoUser program q (.quiet hm) a

end OpensAll

/-- The call that the members of a type are analysed by. -/
theorem OpensType.mem_calls {d : TypeDef} {f : TypeFinding} (h : OpensType program q d a f) :
    (Task.members f d.fields d.staticFields d.routines d.staticRoutines,
      { ((openType d.name).run a).2 with current := f.scope }) ∈ (Task.typeDef d).calls a := by
  have hf := h.opened
  rw [Task.calls]
  generalize (openType d.name).run a = x at hf
  obtain ⟨y, b⟩ := x
  obtain rfl := hf
  exact List.mem_cons_of_mem _ List.mem_cons_self

/-- The call that the body of a routine is analysed by. -/
theorem mem_calls_routine {r : RoutineDef} {d : DeclaredRoutine}
    (hd : ((declareRoutine none r).run a).1 = some d) :
    (Task.routineBody d r, ((declareRoutine none r).run a).2) ∈
      (Task.stmt (.routine r)).calls a := by
  rw [Task.calls]
  generalize (declareRoutine none r).run a = x at hd
  obtain ⟨y, b⟩ := x
  obtain rfl := hd
  exact List.mem_cons_of_mem _ (List.mem_singleton_self _)

/-- The calls that routines of a type are declared by, and those that go through their
bodies. -/
theorem Reached.routines {type : TypeId} {rs rs' : List RoutineDef}
    (h : Reached program q (.memberRoutines type rs rs') a) :
    Reached program q (.declareMembers ⟨type, false⟩ rs) a ∧
    Reached program q (.declareMembers ⟨type, true⟩ rs')
      ((declareMembers ⟨type, false⟩ rs).run a).2 ∧
    Reached program q (.routineBodies ((declareMembers ⟨type, false⟩ rs).run a).1 rs)
      ((declareMembers ⟨type, true⟩ rs').run ((declareMembers ⟨type, false⟩ rs).run a).2).2 ∧
    Reached program q (.routineBodies ((declareMembers ⟨type, true⟩ rs').run
        ((declareMembers ⟨type, false⟩ rs).run a).2).1 rs')
      ((routineBodies ((declareMembers ⟨type, false⟩ rs).run a).1 rs).run
        ((declareMembers ⟨type, true⟩ rs').run ((declareMembers ⟨type, false⟩ rs).run a).2).2).2 :=
  ⟨h.call List.mem_cons_self, h.call (List.mem_cons_of_mem _ List.mem_cons_self),
    h.call (List.mem_cons_of_mem _ (List.mem_cons_of_mem _ List.mem_cons_self)),
    h.call (List.mem_cons_of_mem _ (List.mem_cons_of_mem _ (List.mem_cons_of_mem _
      (List.mem_singleton_self _))))⟩

theorem opensAll_openType {d : TypeDef} (h : Reached program q (.typeDef d) a) :
    OpensAll program q a ((openType d.name).run a).2 := by
  cases hrefuse : ((refuseType d.name).run a).1 with
  | true =>
    rw [run_openType_of_refused hrefuse]
    exact .of_quiet program q (quiet_refuseType d.name) a
  | false =>
    obtain ⟨scopes, -, hrun⟩ := run_openType hrefuse
    have hf := congrArg Prod.fst hrun
    intro id hid
    exact ((users_openType hf).2.2 id hid).imp_right fun hid => ⟨d, a, _, ⟨h, hf⟩, hid⟩

theorem opensAll_of_refused {t : TypeDef} (h : Reached program q (.typeDef t) a)
    (hnone : ((openType t.name).run a).1 = none) :
    OpensAll program q a ((typeDef t).run a).2 := by
  have hopen := opensAll_openType h
  rw [run_typeDef]
  generalize (openType t.name).run a = o at hnone hopen
  obtain ⟨y, b⟩ := o
  obtain rfl := hnone
  exact hopen

/-- The body of a routine, and what is checked behind it. -/
theorem OpensAll.around_body {r : RoutineDef} {d : DeclaredRoutine}
    (h : OpensAll program q a ((stmts r.body).run { a with current := d.scope }).2) :
    OpensAll program q a ((routineBody d r).run a).2 := by
  have hcheck := OpensAll.of_quiet program q (quiet_checkReturn r d.result)
    ((stmts r.body).run { a with current := d.scope }).2
  have hfinish := OpensAll.of_quiet program q (quiet_finishRoutine r d.scope)
    { ((stmts r.body >>= fun _ => checkReturn r d.result).run
      { a with current := d.scope }).2 with current := a.current }
  rw [run_routineBody]
  exact (h.trans hcheck).trans hfinish

/-- Member routines, when their bodies are known to be right. -/
theorem OpensAll.around_routines {type : TypeId} {rs rs' : List RoutineDef}
    (h : Reached program q (.memberRoutines type rs rs') a)
    (hown : ∀ {b : Analysis} {ds : List (Option DeclaredRoutine)},
      Reached program q (.routineBodies ds rs) b →
        OpensAll program q b ((routineBodies ds rs).run b).2)
    (hstatic : ∀ {b : Analysis} {ds : List (Option DeclaredRoutine)},
      Reached program q (.routineBodies ds rs') b →
        OpensAll program q b ((routineBodies ds rs').run b).2) :
    OpensAll program q a ((Analysis.memberRoutines type rs rs').run a).2 := by
  obtain ⟨-, -, hbodies, hbodies'⟩ := h.routines
  have hdeclare := OpensAll.of_addsNoUser program q
    (addsNoUser_declareMembers ⟨type, false⟩ rs) a
  have hdeclare' := OpensAll.of_addsNoUser program q
    (addsNoUser_declareMembers ⟨type, true⟩ rs') ((declareMembers ⟨type, false⟩ rs).run a).2
  exact ((hdeclare.trans hdeclare').trans (hown hbodies)).trans (hstatic hbodies')

/-- The members of a type, when their bodies are known to be right. -/
theorem OpensAll.around_members {t : TypeDef} {f : TypeFinding}
    (h : OpensType program q t a f)
    (hroutines : ∀ {b : Analysis},
      Reached program q (.memberRoutines f.type t.routines t.staticRoutines) b →
        OpensAll program q b
          ((Analysis.memberRoutines f.type t.routines t.staticRoutines).run b).2) :
    OpensAll program q a ((typeDef t).run a).2 := by
  have hmembers := h.reached.call h.mem_calls
  have hopen := opensAll_openType h.reached
  rw [Task.run_typeDef_of_some h.opened]
  generalize (openType t.name).run a = x at hopen hmembers
  have hfields := OpensAll.of_addsNoUser program q
    (addsNoUser_instanceFields f.type t.fields) { x.2 with current := f.scope }
  have hstatics := OpensAll.of_addsNoUser program q
    (addsNoUser_staticFields f.type f.fieldInit t.staticFields)
    ((instanceFields f.type t.fields).run { x.2 with current := f.scope }).2
  have hrest := hroutines (hmembers.call (List.mem_cons_of_mem _ (List.mem_cons_of_mem _
    (List.mem_singleton_self _))))
  have hfinish := OpensAll.of_quiet program q (quiet_finishType t f)
    { ((Analysis.members f t.fields t.staticFields t.routines t.staticRoutines).run
      { x.2 with current := f.scope }).2 with current := x.2.current }
  have hopen' : OpensAll program q a { x.2 with current := f.scope } := hopen
  exact (((hopen'.trans hfields).trans hstatics).trans hrest).trans hfinish

mutual

theorem opensAll_stmt : (x : Stmt) → {a : Analysis} → Reached program q (.stmt x) a →
    OpensAll program q a ((stmt x).run a).2
  | .declare d, a, _ => .of_addsNoUser program q (addsNoUser_varDecl .var none d).discard a
  | .define d, a, _ => .of_addsNoUser program q (addsNoUser_initDecl d) a
  | .assign x, a, _ => .of_quiet program q (quiet_assign x) a
  | .call c, a, _ => .of_addsNoUser program q (AddsNoUser.quiet (quiet_chain c)).discard a
  | .branch gs otherwise _, a, h => (opensAll_guardedAll gs (h.call List.mem_cons_self)).trans
      (opensAll_elseBlock otherwise (h.call (List.mem_cons_of_mem _ (List.mem_singleton_self _))))
  | .loop g, a, h => opensAll_guarded g (h.call (List.mem_singleton_self _))
  | .routine r, a, h => by
    have hfirst := OpensAll.of_addsNoUser program q
      (addsNoUser_declareRoutine none r) a
    cases hd : ((declareRoutine none r).run a).1 with
    | none =>
      rw [Task.run_routine_of_none hd]
      exact hfirst
    | some d =>
      rw [Task.run_routine_of_some hd]
      exact hfirst.trans (opensAll_routineBody d r (h.call (mem_calls_routine hd)))
  | .type d, a, h => opensAll_typeDef d (h.call (List.mem_singleton_self _))

theorem opensAll_guarded : (g : Guarded) → {a : Analysis} → Reached program q (.guarded g) a →
    OpensAll program q a ((guarded g).run a).2
  | ⟨node, condition, body, _⟩, a, h => by
    have hbody := h.call (List.mem_cons_of_mem _ (List.mem_singleton_self _))
    have hopen := OpensAll.of_quiet program q (quiet_openBlock node) a
    have hcheck := OpensAll.of_quiet program q (quiet_checkCondition condition)
      { ((openBlock node).run a).2 with current := ((openBlock node).run a).1 }
    exact hopen.trans (hcheck.trans (opensAll_stmts body hbody))

theorem opensAll_elseBlock : (e : Else) → {a : Analysis} → Reached program q (.elseBlock e) a →
    OpensAll program q a ((elseBlock e).run a).2
  | .absent, _, _ => fun _ hid => .inl hid
  | .block node body _, a, h => (OpensAll.of_quiet program q (quiet_openBlock node) a).trans
      (opensAll_stmts body (h.call (List.mem_singleton_self _)))

theorem opensAll_routineBody (d : DeclaredRoutine) : (r : RoutineDef) → {a : Analysis} →
    Reached program q (.routineBody d r) a → OpensAll program q a ((routineBody d r).run a).2
  | ⟨node, name, closing, params, result, body, ret, span⟩, a, h => by
    exact OpensAll.around_body (opensAll_stmts body (h.call List.mem_cons_self))

theorem opensAll_typeDef : (d : TypeDef) → {a : Analysis} → Reached program q (.typeDef d) a →
    OpensAll program q a ((typeDef d).run a).2
  | ⟨node, name, closing, fields, statics, routines, staticRoutines, span⟩, a, h => by
    cases hf : ((openType name).run a).1 with
    | none => exact opensAll_of_refused h hf
    | some f =>
      exact OpensAll.around_members ⟨h, hf⟩ fun hb => OpensAll.around_routines hb
        (opensAll_routineBodies routines) (opensAll_routineBodies staticRoutines)

theorem opensAll_stmts : (xs : List Stmt) → {a : Analysis} → Reached program q (.stmts xs) a →
    OpensAll program q a ((stmts xs).run a).2
  | [], _, _ => fun _ hid => .inl hid
  | x :: xs, _, h => (opensAll_stmt x (h.call List.mem_cons_self)).trans
      (opensAll_stmts xs (h.call (List.mem_cons_of_mem _ (List.mem_singleton_self _))))

theorem opensAll_guardedAll : (gs : List Guarded) → {a : Analysis} →
    Reached program q (.guardedAll gs) a → OpensAll program q a ((guardedAll gs).run a).2
  | [], _, _ => fun _ hid => .inl hid
  | g :: gs, _, h => (opensAll_guarded g (h.call List.mem_cons_self)).trans
      (opensAll_guardedAll gs (h.call (List.mem_cons_of_mem _ (List.mem_singleton_self _))))

theorem opensAll_routineBodies : (rs : List RoutineDef) → {ds : List (Option DeclaredRoutine)} →
    {a : Analysis} → Reached program q (.routineBodies ds rs) a →
      OpensAll program q a ((routineBodies ds rs).run a).2
  | [], ds, a, h => by
    cases ds with
    | nil => exact fun _ hid => .inl hid
    | cons d ds => cases d <;> exact fun _ hid => .inl hid
  | r :: rs, ds, a, h => by
    cases ds with
    | nil => exact fun _ hid => .inl hid
    | cons d ds =>
      cases d with
      | none => exact opensAll_routineBodies rs (h.call (List.mem_singleton_self _))
      | some d =>
        have hrest := h.call (List.mem_cons_of_mem _ (List.mem_singleton_self _))
        exact (opensAll_routineBody d r (h.call List.mem_cons_self)).trans
          (opensAll_routineBodies rs hrest)

end

/-! ## Whole programs -/

theorem addsNoUser_declareType (s : ScopeId) (name : String) (type : TypeId) (span : Span) :
    AddsNoUser (declareType s name type span) := by
  intro a id h
  rw [run_declareType] at h
  cases hd : a.scopes.declareType s name type span <;> rw [hd] at h <;> exact h

theorem addsNoUser_declareTypes : (xs : List (String × TypeId)) → AddsNoUser (declareTypes xs)
  | [] => .done
  | _ :: xs => (addsNoUser_declareType _ _ _ _).discard.bind fun _ =>
      addsNoUser_declareTypes xs

theorem addsNoUser_declareRoutines : (xs : List (String × TypeId)) →
    AddsNoUser (declareRoutines xs)
  | [] => .done
  | _ :: xs => (addsNoUser_declare _ _ _).discard.bind fun _ =>
      addsNoUser_declareRoutines xs

/-- There are no user types before the first statement. -/
theorem form_initial (program : String) (id : TypeId) :
    (initial program).types.form id ≠ .user := by
  intro h
  have hpredefine : AddsNoUser predefine :=
    (addsNoUser_declareTypes _).bind fun _ => addsNoUser_declareRoutines _
  rw [initial] at h
  have hblank := hpredefine (blank program) id h
  rcases (known_blank program).users id hblank with hp | ⟨e, he, -⟩ | herrors
  · exact absurd hp List.not_mem_nil
  · exact absurd he List.not_mem_nil
  · exact herrors rfl

/-- Every user type that there is at the end was opened by a definition. -/
theorem exists_opens (program : String) (q : Program) {type : TypeId}
    (h : (analyze program q).types.form type = .user) :
    ∃ d a f, OpensType program q d a f ∧ f.type = type :=
  (opensAll_stmts q.stmts .start type h).resolve_left (form_initial program type)

end Unnest.Analysis
