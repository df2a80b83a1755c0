import Unnest.Proofs.Analysis.Locality

/-!
# Where statements change the tables

Statements declare in the scope that they stand in and in the scopes that they open.  A
routine opens a scope for its parameters and its body, a type opens two and gives members
to itself, and a block opens one; all of them are new.  So statements keep everything that
their horizon does not own, and write under the keys of their own nodes (`keeps_stmts`).
-/

namespace Unnest

namespace Analysis

open Analyze

variable {α β : Type} {h : Horizon} {K : Set Key}

/-! ## Declarations -/

mutual

theorem keeps_resolve : (w : WrittenType) → Keeps h K (resolve w)
  | .named name => by
    refine (keeps_resolveType name.name).next fun found => ?_
    cases found with
    | none => exact keeps_reject _ _ _
    | some type => exact .done
  | .routine params result _ => by
    refine (keeps_resolveAll params).next fun ps => (keeps_resolveResult result).next fun r => ?_
    cases ps with
    | none => exact .done
    | some ps =>
      cases r with
      | none => exact .done
      | some r => exact (keeps_addRoutineType ps r).next fun _ => .done

theorem keeps_resolveAll : (ws : List WrittenType) → Keeps h K (resolveAll ws)
  | [] => .done
  | w :: ws => (keeps_resolve w).next fun _ => (keeps_resolveAll ws).next fun _ => .done

theorem keeps_resolveResult : (w : Option WrittenType) → Keeps h K (resolveResult w)
  | none => .done
  | some w => (keeps_resolve w).next fun _ => .done

end

theorem keeps_refuseName (name : Ident) : Keeps h K (refuseName name) := by
  refine .get fun a => ?_
  split
  · exact keeps_reject _ _ _
  · split
    · exact keeps_reject _ _ _
    · exact .done

theorem keeps_declareNames (type : TypeId) (role : Role) (owner : Option TypeId) :
    (names : List Ident) → Keeps h K (declareNames type role owner names)
  | [] => .done
  | name :: names => by
    have hrest : ∀ b : Option Binding, Keeps h K
        (declareNames type role owner names >>= fun bs => Pure.pure (b.toList ++ bs)) := fun b =>
      (keeps_declareNames type role owner names).next fun _ => .done
    refine (keeps_refuseName name).next fun refused => ?_
    cases refused with
    | true => exact hrest none
    | false => exact .currentScope fun s hs => (keeps_declare hs _ _).next hrest

theorem keeps_recordDecl {node : NodeId} (hn : Notes K node) (f : DeclFinding) :
    Keeps h K (recordDecl node f) :=
  keeps_record (hn .decls (by decide) (by decide)) fun _ => .decl node f

theorem keeps_varDecl (role : Role) (owner : Option TypeId) (d : VarDecl) (hn : Notes K d.node) :
    Keeps h K (varDecl role owner d) := by
  refine (keeps_resolve d.type).next fun type => ?_
  cases type with
  | none => exact .done
  | some type =>
    exact (keeps_declareNames type role owner d.names).next fun _ =>
      (keeps_recordDecl hn _).next fun _ => .done

theorem keeps_initialMode (target value : TypeId) (span : Span) :
    Keeps h K (initialMode target value span) := by
  refine keeps_types.next fun t => ?_
  split
  · exact .done
  · exact keeps_reject _ _ _

theorem keeps_declareInit {node : NodeId} (hn : Notes K node) (role : Role) (owner : Option TypeId)
    (names : List Ident) (type value : Option TypeId) (span : Span) :
    Keeps h K (declareInit node role owner names type value span) := by
  cases type with
  | none => exact .done
  | some type =>
    cases value with
    | none => exact .done
    | some value =>
      refine (keeps_initialMode type value span).next fun mode => ?_
      cases mode with
      | none => exact .done
      | some mode =>
        exact (keeps_declareNames type role owner names).next fun _ =>
          (keeps_recordDecl hn _).next fun _ => .done

theorem keeps_initDecl (d : InitDecl) (hn : Notes K d.node)
    (hv : ∀ x ∈ d.value.parts, Notes K x.node) : Keeps h K (initDecl d) :=
  (keeps_resolve d.type).next fun _ => (keeps_operand d.value hv).next fun _ =>
    (keeps_declareInit hn _ _ _ _ _ _).discard

/-! ### Members -/

section Members

variable {type : TypeId} {inner : ScopeId}

theorem keeps_instanceFields (ht : h.types ≤ type.index) : (ds : List VarDecl) →
    (∀ d ∈ ds, Notes K d.node) → Keeps h K (instanceFields type ds)
  | [], _ => .done
  | d :: ds, hn => by
    rw [List.forall_mem_cons] at hn
    exact (keeps_varDecl .field (some type) d hn.1).next fun _ =>
      (keeps_updateType ht _).next fun _ => keeps_instanceFields ht ds hn.2

theorem keeps_staticField (ht : h.types ≤ type.index) (hi : h.Reaches inner) (f : StaticField)
    (hn : ∀ x ∈ f.parts, Notes K x.node) : Keeps h K (staticField type inner f) := by
  rw [StaticField.parts, List.forall_mem_cons] at hn
  exact (Stays.inScope hi (keeps_operand f.init hn.2)).next fun _ =>
    (keeps_resolve f.decl.type).next fun _ => (keeps_declareInit hn.1 _ _ _ _ _ _).next fun _ =>
      keeps_updateType ht _

theorem keeps_staticFields (ht : h.types ≤ type.index) (hi : h.Reaches inner) :
    (fs : List StaticField) → (∀ x ∈ fs.flatMap StaticField.parts, Notes K x.node) →
      Keeps h K (staticFields type inner fs)
  | [], _ => .done
  | f :: fs, hn => by
    rw [List.flatMap_cons, List.forall_mem_append] at hn
    exact (keeps_staticField ht hi f hn.1).next fun _ => keeps_staticFields ht hi fs hn.2

end Members

/-! ### Routines -/

theorem keeps_declareParams {s : ScopeId} (hs : h.Owns s) : (ps : List (Param × TypeId)) →
    Keeps h K (declareParams s ps)
  | [] => .done
  | ⟨_, _⟩ :: ps => (keeps_declare hs _ _).next fun _ =>
      (keeps_declareParams hs ps).next fun _ => .done

/-- The scope of a routine that was declared is a new one. -/
def IsNew (h : Horizon) (d : DeclaredRoutine) : Prop := h.Reaches d.scope

theorem stays_openRoutine {r : RoutineDef} (hr : (.routines, r.node) ∈ K)
    (member : Option Membership) (signature : Signature) (binding : Binding) :
    Stays h K (openRoutine r member signature binding) IsNew :=
  (keeps_planUnit _ _ _).next fun _ => (stays_openScope _ _ _).bind fun _ _ _ hs =>
    (keeps_markMember hs.owns _ _).next fun _ => (keeps_declareParams hs.owns _).next
      fun _ => (keeps_record hr fun _ => .routine r.node _).next
        fun _ => .pure fun _ hn => hs.upto hn

theorem keeps_refuseMember (member : Option Membership) (name : Ident) (args : List TypeId) :
    Keeps h K (refuseMember member name args) := by
  refine keeps_types.next fun t => ?_
  cases member with
  | none => exact .done
  | some m =>
    dsimp only
    split
    · exact keeps_reject _ _ _
    · exact .done

theorem keeps_addMember {member : Option Membership} (hm : ∀ m ∈ member, h.types ≤ m.type.index)
    (s : Signature) : Keeps h K (addMember member s) := by
  cases member with
  | none => exact .done
  | some m => exact keeps_updateType (hm m rfl) _

theorem stays_declareRoutine {member : Option Membership}
    (hm : ∀ m ∈ member, h.types ≤ m.type.index) {r : RoutineDef} (hr : (.routines, r.node) ∈ K) :
    Stays h K (declareRoutine member r) fun h' o => ∀ d ∈ o, IsNew h' d := by
  have hnone : ∀ n, h.opened ≤ n → ∀ d ∈ (none : Option DeclaredRoutine), IsNew (h.upto n) d :=
    fun _ _ d hd => absurd hd (by simp)
  refine (keeps_resolveAll (r.params.map (·.type))).next fun params =>
    (keeps_resolveResult r.result).next fun result => ?_
  cases params with
  | none => exact .pure hnone
  | some params =>
    cases result with
    | none => exact .pure hnone
    | some result =>
      refine (keeps_refuseMember member r.name params).next fun refused => ?_
      cases refused with
      | true => exact .pure hnone
      | false =>
        refine (keeps_refuseName r.name).next fun refused => ?_
        cases refused with
        | true => exact .pure hnone
        | false =>
          refine (keeps_addRoutineType params result).next fun type =>
            .currentScope fun s hs => (keeps_declare hs _ _).next fun binding => ?_
          cases binding with
          | none => exact .pure hnone
          | some binding =>
            refine (keeps_addMember hm _).next fun _ =>
              (stays_openRoutine hr member _ binding).bind fun m d _ hd => .pure ?_
            rintro n hn _ ⟨⟩
            exact Horizon.Reaches.upto hd hn

theorem stays_declareMembers {h : Horizon} {m : Membership} (hm : h.types ≤ m.type.index) :
    (rs : List RoutineDef) → (∀ r ∈ rs, (.routines, r.node) ∈ K) →
      Stays h K (declareMembers m rs) fun h' ds => ∀ d, some d ∈ ds → IsNew h' d
  | [], _ => .pure fun _ _ d hd => absurd hd List.not_mem_nil
  | r :: rs, hr => by
    rw [List.forall_mem_cons] at hr
    have hmember : ∀ m' ∈ some m, h.types ≤ m'.type.index := by
      rintro _ ⟨⟩
      exact hm
    refine (stays_declareRoutine hmember hr.1).bind fun n first _ hfirst =>
      (stays_declareMembers (h := h.upto n) hm rs hr.2).bind fun n' rest hle' hrest => .pure ?_
    intro k hk d hd
    rcases List.mem_cons.mp hd with hd | hd
    · exact (hfirst d hd.symm).upto (hle'.trans hk)
    · exact (hrest d hd).upto hk

/-! ### Types -/

theorem keeps_refuseType (name : Ident) : Keeps h K (refuseType name) := by
  refine .get fun a => ?_
  split
  · exact keeps_reject _ _ _
  · split
    · exact keeps_reject _ _ _
    · exact .done

/-- A type that was opened is new with its scopes. -/
structure IsNewType (h : Horizon) (f : TypeFinding) : Prop where
  type : h.types ≤ f.type.index
  scope : h.Reaches f.scope
  fieldInit : h.Reaches f.fieldInit

theorem stays_openType (name : Ident) :
    Stays h K (openType name) fun h' o => ∀ f ∈ o, IsNewType h' f := by
  have hnone : ∀ m n, m ≤ n → ∀ f ∈ (none : Option TypeFinding), IsNewType (h.upto n) f :=
    fun _ _ _ f hf => absurd hf (by simp)
  refine (keeps_refuseType name).next fun refused => ?_
  cases refused with
  | true => exact .pure (hnone _)
  | false =>
    refine (stays_addType _).bind fun n type _ ht => .currentScope fun s hs =>
      (keeps_declareType hs _ _ _).next fun declared => ?_
    cases declared with
    | false => exact .pure (hnone _)
    | true =>
      refine (keeps_planUnit _ _ _).next fun unit => .get fun a =>
        (keeps_updateType (h := h.upto n) ht _).next fun _ =>
        (stays_openScope _ _ _).bind fun _ scope _ hscope =>
          (keeps_markMember hscope.owns _ _).next fun _ =>
            (Stays.inScope hscope (stays_openScope _ _ _)).bind fun _ inner hle hinner =>
              (keeps_markMember hinner.owns _ _).next fun _ => .pure ?_
      rintro n hn _ ⟨⟩
      exact ⟨ht, hscope.upto (hle.trans hn), hinner.upto hn⟩

/-! ### Completion -/

theorem keeps_checkClosing (fault : String → String → Fault) (name closing : Ident) :
    Keeps h K (checkClosing fault name closing) := by
  rw [checkClosing]
  split
  · exact keeps_report _ _
  · exact .done

theorem keeps_sourcesOf : (cs : List (String × TypeId)) → Keeps h K (sourcesOf cs)
  | [] => .done
  | (name, type) :: rest => by
    refine (keeps_lookup name).next fun result => ?_
    cases result <;>
      exact (Stays.done (h := h) (K := K)).next fun _ => (keeps_sourcesOf rest).next fun _ => .done

theorem keeps_captureSources (s : ScopeId) : Keeps h K (captureSources s) :=
  .get fun _ => keeps_sourcesOf _

theorem keeps_finishRoutine {r : RoutineDef} (hr : (.routines, r.node) ∈ K) (s : ScopeId) :
    Keeps h K (finishRoutine r s) :=
  (keeps_captureSources s).next fun sources =>
    (keeps_record hr fun _ => .captures r.node sources).next fun _ => keeps_checkClosing _ _ _

theorem keeps_finishType {t : TypeDef} (ht : (.types, t.node) ∈ K) (f : TypeFinding) :
    Keeps h K (finishType t f) :=
  (keeps_captureSources f.scope).next fun _ =>
    (keeps_record ht fun _ => .type t.node _).next fun _ => keeps_checkClosing _ _ _

/-! ## Statements -/

theorem routine_mem_allParts {r : RoutineDef} {rs : List RoutineDef} (hr : r ∈ rs) :
    .routine r ∈ RoutineDef.allParts rs := by
  induction rs with
  | nil => exact absurd hr List.not_mem_nil
  | cons x rs ih =>
    rw [RoutineDef.allParts, RoutineDef.parts_eq]
    rcases List.mem_cons.mp hr with rfl | hr
    · exact List.mem_cons_self
    · exact List.mem_append_right _ (ih hr)

theorem keeps_writeTarget {x : Assignment} (hn : Notes K x.node) (finding : ChainFinding)
    (target value : TypeId) : Keeps h K (writeTarget x finding target value) := by
  refine .get fun a => ?_
  dsimp only
  split
  · exact keeps_record (hn .assigns (by decide) (by decide)) fun _ => .assign x.node _
  · split <;> exact keeps_report _ _

theorem keeps_assign (x : Assignment) (hn : ∀ y ∈ (Stmt.assign x).parts, Notes K y.node) :
    Keeps h K (assign x) := by
  rw [Stmt.parts, List.forall_mem_cons, List.forall_mem_append, Chain.parts,
    List.forall_mem_cons] at hn
  obtain ⟨hn, ⟨hc, hl⟩, hv⟩ := hn
  refine (keeps_chain x.target hc hl).next fun target =>
    (keeps_operand x.value hv).next fun value => ?_
  cases value with
  | none => exact .done
  | some value =>
    refine .get fun a => ?_
    split
    · cases target with
      | none => exact keeps_report _ _
      | some target => exact keeps_writeTarget hn _ target value
    · exact .done

theorem keeps_checkCondition (e : Expr) (hn : ∀ x ∈ e.parts, Notes K x.node) :
    Keeps h K (checkCondition e) := by
  refine (keeps_operand e hn).next fun type => ?_
  cases type with
  | none => exact .done
  | some type =>
    refine keeps_types.next fun t => ?_
    split
    · exact .done
    · exact keeps_report _ _

theorem keeps_checkReturn (r : RoutineDef) (result : Option TypeId)
    (hn : ∀ x ∈ ReturnClause.optParts r.ret, Notes K x.node) :
    Keeps h K (checkReturn r result) := by
  obtain ⟨node, name, closing, params, promised, body, ret, span⟩ := r
  cases ret with
  | none =>
    cases result with
    | none => exact .done
    | some type => exact (keeps_typeName type).next fun _ => keeps_report _ _
  | some ret =>
    cases result with
    | none => exact (keeps_expr ret.value hn).next fun _ => keeps_report _ _
    | some type =>
      refine (keeps_operand ret.value hn).next fun value => ?_
      cases value with
      | none => exact .done
      | some value =>
        refine keeps_types.next fun t => ?_
        split
        · exact .done
        · exact keeps_report _ _

theorem keeps_nextBlockName : Keeps h K (modifyGet fun a : Analysis =>
    ((a.scopes.nextBlockName a.current).1,
      { a with scopes := (a.scopes.nextBlockName a.current).2 })) := fun a ha =>
  keeps_updateScope (f := fun s => { s with blockCount := s.blockCount + 1 }) ha.current
    (fun _ => rfl) (fun _ => rfl) (fun _ => rfl) (fun _ => rfl) a ha

theorem stays_openBlock {node : NodeId} (hn : Notes K node) :
    Stays h K (openBlock node) Horizon.Reaches :=
  keeps_nextBlockName.next fun _ => (keeps_planUnit _ _ _).next fun _ =>
    (stays_openScope _ _ _).bind fun _ scope _ hs =>
      (keeps_record (hn .blocks (by decide) (by decide)) fun _ => .block node scope).next
        fun _ => .pure fun _ hn => hs.upto hn

mutual

/-- A statement changes what is owned, and writes under its own nodes. -/
theorem keeps_stmt {h : Horizon} : (x : Stmt) → (∀ y ∈ x.parts, Annotates K y.node) →
    Keeps h K (stmt x)
  | .declare d, hn => (keeps_varDecl .var none d (hn _ List.mem_cons_self).notes).discard
  | .define d, hn => keeps_initDecl d (hn _ List.mem_cons_self).notes fun y hy =>
      (hn y (List.mem_cons_of_mem _ hy)).notes
  | .assign x, hn => keeps_assign x fun y hy => (hn y hy).notes
  | .call c, hn => (keeps_chain c (hn _ List.mem_cons_self).notes fun y hy =>
      (hn y (List.mem_cons_of_mem _ hy)).notes).discard
  | .branch gs otherwise _, hn => by
    rw [Stmt.parts, List.forall_mem_append] at hn
    exact (keeps_guardedAll gs hn.1).next fun _ => keeps_elseBlock otherwise hn.2
  | .loop g, hn => keeps_guarded g hn
  | .routine r, hn => by
    have hr := hn (.routine r) (by rw [Stmt.parts, RoutineDef.parts_eq]; exact List.mem_cons_self)
    refine (stays_declareRoutine (by simp) (hr .routines)).bind fun _ declared _ hd => ?_
    cases declared with
    | none => exact .done
    | some declared => exact keeps_routineBody (hd declared rfl) r hn
  | .type t, hn => keeps_typeDef t hn

theorem keeps_guarded {h : Horizon} : (g : Guarded) → (∀ y ∈ g.parts, Annotates K y.node) →
    Keeps h K (guarded g)
  | ⟨node, condition, body, _⟩, hn => by
    rw [Guarded.parts, List.forall_mem_cons, List.forall_mem_append] at hn
    obtain ⟨hn, hc, hb⟩ := hn
    exact (stays_openBlock hn.notes).bind fun _ scope _ hs => .inScope hs
      ((keeps_checkCondition condition fun y hy => (hc y hy).notes).next fun _ =>
        keeps_stmts body hb)

theorem keeps_elseBlock {h : Horizon} : (e : Else) → (∀ y ∈ e.parts, Annotates K y.node) →
    Keeps h K (elseBlock e)
  | .absent, _ => .done
  | .block node body _, hn => by
    rw [Else.parts, List.forall_mem_cons] at hn
    exact (stays_openBlock hn.1.notes).bind fun _ scope _ hs => .inScope hs
      (keeps_stmts body hn.2)

theorem keeps_routineBody {h : Horizon} {d : DeclaredRoutine} (hd : IsNew h d) : (r : RoutineDef) →
    (∀ y ∈ r.parts, Annotates K y.node) → Keeps h K (routineBody d r)
  | ⟨node, name, closing, params, result, body, ret, span⟩, hn => by
    rw [RoutineDef.parts, List.forall_mem_cons, List.forall_mem_append] at hn
    obtain ⟨hn, hb, hret⟩ := hn
    exact (Stays.inScope hd ((keeps_stmts body hb).next fun _ =>
      keeps_checkReturn _ d.result fun y hy => (hret y hy).notes)).next fun _ =>
        keeps_finishRoutine (hn .routines) d.scope

theorem keeps_typeDef {h : Horizon} : (t : TypeDef) → (∀ y ∈ t.parts, Annotates K y.node) →
    Keeps h K (typeDef t)
  | ⟨node, name, closing, fields, statics, routines, staticRoutines, span⟩, hn => by
    rw [TypeDef.parts, List.forall_mem_cons, List.forall_mem_append, List.forall_mem_append,
      List.forall_mem_append] at hn
    obtain ⟨hn, ⟨⟨hf, hs⟩, hr⟩, hsr⟩ := hn
    have hmembers : ∀ rs, (∀ y ∈ RoutineDef.allParts rs, Annotates K y.node) →
        ∀ r ∈ rs, (.routines, r.node) ∈ K := fun rs hrs r hr =>
      hrs (.routine r) (routine_mem_allParts hr) .routines
    refine (stays_openType name).bind fun n finding _ hnew => ?_
    cases finding with
    | none => exact .done
    | some f =>
      have hf' := hnew f rfl
      refine (Stays.inScope hf'.scope ?_).next fun _ => keeps_finishType (hn .types) f
      refine (keeps_instanceFields hf'.type fields fun d hd =>
        (hf _ (List.mem_map_of_mem hd)).notes).next fun _ =>
          (keeps_staticFields hf'.type hf'.fieldInit statics fun y hy =>
            (hs y hy).notes).next fun _ => ?_
      exact (stays_declareMembers (m := ⟨f.type, false⟩) hf'.type routines
        (hmembers routines hr)).bind fun k ds _ hds =>
          (stays_declareMembers (h := (h.upto n).upto k) (m := ⟨f.type, true⟩) hf'.type
            staticRoutines (hmembers staticRoutines hsr)).bind fun _ es hle hes =>
              (keeps_routineBodies ds routines (fun d hd => (hds d hd).upto hle) hr).next fun _ =>
                keeps_routineBodies es staticRoutines hes hsr

theorem keeps_stmts {h : Horizon} : (xs : List Stmt) →
    (∀ y ∈ Stmt.allParts xs, Annotates K y.node) → Keeps h K (stmts xs)
  | [], _ => .done
  | x :: xs, hn => by
    rw [Stmt.allParts, List.forall_mem_append] at hn
    exact (keeps_stmt x hn.1).next fun _ => keeps_stmts xs hn.2

theorem keeps_guardedAll {h : Horizon} : (gs : List Guarded) →
    (∀ y ∈ Guarded.allParts gs, Annotates K y.node) → Keeps h K (guardedAll gs)
  | [], _ => .done
  | g :: gs, hn => by
    rw [Guarded.allParts, List.forall_mem_append] at hn
    exact (keeps_guarded g hn.1).next fun _ => keeps_guardedAll gs hn.2

theorem keeps_routineBodies {h : Horizon} : (ds : List (Option DeclaredRoutine)) →
    (rs : List RoutineDef) → (∀ d, some d ∈ ds → IsNew h d) →
      (∀ y ∈ RoutineDef.allParts rs, Annotates K y.node) → Keeps h K (routineBodies ds rs)
  | some d :: ds, r :: rs, hd, hn => by
    rw [RoutineDef.allParts, List.forall_mem_append] at hn
    exact (keeps_routineBody (hd d List.mem_cons_self) r hn.1).next fun _ =>
      keeps_routineBodies ds rs (fun d' hd' => hd d' (List.mem_cons_of_mem _ hd')) hn.2
  | none :: ds, r :: rs, hd, hn => by
    rw [RoutineDef.allParts, List.forall_mem_append] at hn
    exact keeps_routineBodies ds rs (fun d' hd' => hd d' (List.mem_cons_of_mem _ hd')) hn.2
  | [], [], _, _ => .done
  | [], _ :: _, _, _ => .done
  | some _ :: _, [], _, _ => .done
  | none :: _, [], _, _ => .done

end

end Analysis

end Unnest
