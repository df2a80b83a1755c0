import Unnest.Proofs.Analysis.Changes
import Unnest.Proofs.Analysis.Members
import Unnest.Proofs.Analysis.Reached
import Unnest.Proofs.Analysis.Timeline
import Unnest.Tree.Draft

/-!
# The history of an analysis

Every task goes through the calls that it makes.  What it may do to member routines on the way
is told by the permit: expressions read them, and only `declareMembers` gives a type some,
before anything is read (`through_memberRoutines`).

Put together, the states of an analysis lie on one sequence of changes, from the start through
the states that it reaches up to the end (`Reached.history`).

So the types that are kept for reading member routines are never out of date, although types
get routines while a program is analysed (`Attained.memberTypes_current`).  A type gets all of
its routines from the declaration of its members, and until then none of its routines can have
been read: as long as there is none, a reading keeps nothing.
-/

namespace Unnest

namespace Analysis

open Analyze Relation

variable {α β : Type} {P : Permit} {a b : Analysis} {program : String} {q : Program} {T : Task}

/-- A call, right where a part starts. -/
theorem goes_call {m : Analyze α} (h : Through P a (T.calls a) (T.finish a)) (needs : T.Needs a)
    (hfinish : T.finish a = (m.run a).2) : Goes P a [(T, a)] m :=
  .call .refl needs h.changes (.done (by rw [hfinish]))

/-- A name that is looked up. -/
theorem goes_name {m : Analyze α} {cs : List Call} (n : String) (h : Goes P a cs m) :
    Goes P a ((.name n, a) :: cs) m :=
  .call .refl trivial .refl h

/-! ## Types -/

mutual

theorem through_resolve : (w : WrittenType) → (a : Analysis) →
    Through P a ((Task.resolve w).calls a) ((Task.resolve w).finish a)
  | .named n, a => by
    refine goes_name (m := Analyze.resolve (.named n)) n.name ?_
    refine (alters_resolveType n.name a).bind (r := []) ?_
    cases ((resolveType n.name).run a).1 with
    | none => exact alters_reject _ _ _ _
    | some type => exact .pure _
  | .routine params result _, a => by
    refine (goes_call (through_resolveAll params a) trivial rfl).bind
      ((goes_call (through_resolveResult result _) trivial rfl).andThen fun r => ?_)
    generalize ((resolveAll params).run a).1 = ps
    cases ps with
    | none => exact .pure _
    | some ps =>
      cases r with
      | none => exact .pure _
      | some r => exact (alters_addRoutineType ps r).bind fun _ => .pure _

theorem through_resolveAll : (ws : List WrittenType) → (a : Analysis) →
    Through P a ((Task.resolveAll ws).calls a) ((Task.resolveAll ws).finish a)
  | [], _ => .done .refl
  | w :: ws, a => (goes_call (m := Analyze.resolve w) (through_resolve w a) trivial rfl).bind
      ((goes_call (through_resolveAll ws _) trivial rfl).andThen fun _ => .pure _)

theorem through_resolveResult : (w : Option WrittenType) → (a : Analysis) →
    Through P a ((Task.resolveResult w).calls a) ((Task.resolveResult w).finish a)
  | none, _ => .done .refl
  | some w, a => (goes_call (m := Analyze.resolve w) (through_resolve w a) trivial rfl).andThen
      fun _ => .pure _

end

/-! ## Expressions -/

section Exprs

variable {args : ArgumentTypes} {call : Call}

theorem goes_callType (hargs : Goes P a [call] args) (node : NodeId) (type : TypeId)
    (span : Span) : Goes P a [call] (callType node type span args) := by
  refine hargs.andThen fun args => ?_
  cases args with
  | none => exact .pure _
  | some args =>
    refine alters_types.bind fun t => ?_
    split
    · exact alters_recordCall _ _ _ _
    · split
      · exact (alters_recordLink _ _).bind fun _ => .pure _
      · exact alters_reportNoRoutine _ _ _ _

theorem goes_callHead {name : String} {es : List Expr}
    (hargs : ∀ b, Goes P b [(.arguments es, b)] (arguments es)) (node : NodeId) (span : Span)
    (a : Analysis) :
    Goes P a (Task.headArguments name es a) (callHead node name span (arguments es)) := by
  refine (alters_lookup name a).bind (r := Task.headArguments name es a) ?_
  rw [Task.headArguments]
  generalize (lookup name).run a = o
  obtain ⟨r, b⟩ := o
  cases r with
  | found r access =>
    refine (hargs b).andThen fun args => ?_
    cases args with
    | none => exact .pure _
    | some args =>
      refine alters_types.bind fun t => ?_
      split
      · exact alters_recordCall _ _ _ _
      · exact alters_reportNoRoutine _ _ _ _
  | hidden => exact alters_reject _ _ _ b
  | missing =>
    refine (alters_resolveType name b).bind (l := []) ?_
    have htype : ((resolveType name).run b).1 = b.scopes.resolveType b.current name := rfl
    rw [htype]
    cases b.scopes.resolveType b.current name with
    | none => exact alters_reject _ _ _ b
    | some type => exact goes_callType (hargs b) node type span

theorem goes_callMember (hargs : Goes P a [call] args) (owner : TypeId) (isStatic : Bool)
    (node : NodeId) (name : String) (span : Span) :
    Goes P a [call] (callMember owner isStatic node name span args) := by
  refine hargs.andThen fun args => ?_
  cases args with
  | none => exact .pure _
  | some args =>
    refine alters_types.bind fun t => ?_
    split
    · exact alters_recordCall _ _ _ _
    · split
      · exact alters_recordCall _ _ _ _
      · exact alters_reportNoRoutine _ _ _ _

end Exprs

mutual

theorem through_expr (hreads : P.reads) : (e : Expr) → (a : Analysis) →
    Through P a ((Task.expr e).calls a) ((Task.expr e).finish a)
  | .literal node value _, a => goes_typed (m := pure (some value.type)) (.pure _) node
  | .binary node op left right span, a => by
    refine goes_typed (Goes.bind (l := [_]) (r := [_]) (goes_required (m := expr left)
      (goes_call (through_expr hreads left a) trivial rfl) _) ((goes_required (m := expr right)
        (goes_call (through_expr hreads right _) trivial rfl) _).andThen fun r => ?_)) node
    generalize ((required left.span (expr left)).run a).1 = l
    cases l with
    | none => exact .pure _
    | some l =>
      cases r with
      | none => exact .pure _
      | some r => exact alters_operator _ _ _ _ _ _
  | .unary node op operand span, a => by
    refine goes_typed ((goes_required (m := expr operand)
      (goes_call (through_expr hreads operand a) trivial rfl) _).andThen fun o => ?_) node
    cases o with
    | none => exact .pure _
    | some o => exact alters_operator _ _ _ _ _ _
  | .paren node inner _, a => goes_typed (m := expr inner)
      (goes_call (through_expr hreads inner a) trivial rfl) node
  | .chain c, a =>
    goes_typed (m := chain c) (goes_call (through_chain hreads c a) trivial rfl) c.node

theorem through_chain (hreads : P.reads) : (c : Chain) → (a : Analysis) →
    Through P a ((Task.chain c).calls a) ((Task.chain c).finish a)
  | ⟨_, [], _⟩, _ => .done .refl
  | ⟨node, head :: rest, span⟩, a => by
    refine Goes.onSome (l := [_]) (m := headLink (!rest.isEmpty) head) (goes_call
      (through_headLink hreads (!rest.isEmpty) head a) trivial rfl) (.pure _) fun first _ => ?_
    refine (goes_call (m := memberLinks first rest) (through_memberLinks hreads first rest _)
      trivial rfl).andThen fun last => ?_
    cases last with
    | none => exact .pure _
    | some last => exact alters_finishChain node span last

theorem through_headLink (hreads : P.reads) (hasMore : Bool) : (l : Link) → (a : Analysis) →
    Through P a ((Task.headLink hasMore l).calls a) ((Task.headLink hasMore l).finish a)
  | .bare node n span, a => goes_name (m := bareHead node n.name span hasMore) n.name
      (alters_bareHead node n.name span hasMore a)
  | .call node n args span, a => goes_name (m := callHead node n.name span (arguments args)) n.name
      (goes_callHead (fun b => goes_call (through_arguments hreads args b) trivial rfl) node span a)

theorem through_memberLink (hreads : P.reads) (before : Produced) : (l : Link) → (a : Analysis) →
    Through P a ((Task.memberLink before l).calls a) ((Task.memberLink before l).finish a)
  | .bare node n span, a => by
    refine (?_ : Goes P a [] (onReceiver before span fun owner isStatic =>
      bareMember owner isStatic node n.name span))
    rw [onReceiver]
    split
    · exact alters_bareMember hreads _ _ _ _ _ a
    · exact alters_reject _ _ _ a
  | .call node n args span, a => by
    refine (?_ : Goes P a (if before.receiver?.isSome then [(.arguments args, a)] else [])
      (onReceiver before span fun owner isStatic =>
        callMember owner isStatic node n.name span (arguments args)))
    rw [onReceiver]
    cases before.receiver? with
    | some r => exact goes_callMember (goes_call (through_arguments hreads args a) trivial rfl) ..
    | none => exact alters_reject _ _ _ a

theorem through_memberLinks (hreads : P.reads) (before : Produced) : (ls : List Link) →
    (a : Analysis) →
    Through P a ((Task.memberLinks before ls).calls a) ((Task.memberLinks before ls).finish a)
  | [], _ => .done .refl
  | l :: ls, a => Goes.onSome (l := [_]) (m := memberLink before l) (goes_call
      (through_memberLink hreads before l a) trivial rfl) (.pure _) fun produced _ =>
        goes_call (through_memberLinks hreads produced ls _) trivial rfl

theorem through_arguments (hreads : P.reads) : (es : List Expr) → (a : Analysis) →
    Through P a ((Task.arguments es).calls a) ((Task.arguments es).finish a)
  | [], _ => .done .refl
  | e :: es, a => Goes.bind (l := [_]) (r := [_]) (goes_required (m := expr e)
      (goes_call (through_expr hreads e a) trivial rfl) _)
        ((goes_call (through_arguments hreads es _) trivial rfl).andThen fun _ => .pure _)

end

theorem goes_operand (hreads : P.reads) (e : Expr) (a : Analysis) :
    Goes P a [(.expr e, a)] (operand e) :=
  goes_required (m := expr e) (goes_call (through_expr hreads e a) trivial rfl) e.span

/-! ## Declarations -/

theorem through_declareNames (type : TypeId) (role : Role) (owner : Option TypeId) :
    (ns : List Ident) → (a : Analysis) →
    Through P a ((Task.declareNames type role owner ns).calls a)
      ((Task.declareNames type role owner ns).finish a)
  | [], _ => .done .refl
  | n :: ns, a => by
    rw [Task.finish, declareNames_cons]
    exact goes_name n.name ((alters_declareName type role owner n a).bind (l := [])
      ((goes_call (through_declareNames type role owner ns _) trivial rfl).andThen
        fun _ => .pure _))

theorem through_varDecl (role : Role) (owner : Option TypeId) (d : VarDecl) (a : Analysis) :
    Through P a ((Task.varDecl role owner d).calls a) ((Task.varDecl role owner d).finish a) :=
  Goes.onSome (l := [_]) (m := Analyze.resolve d.type)
    (goes_call (through_resolve d.type a) trivial rfl) (.pure _) fun type _ =>
      (goes_call (through_declareNames type role owner d.names _) trivial rfl).andThen fun _ =>
        (alters_record fun _ => .decl d.node _).bind fun _ => .pure _

theorem through_declareInit (node : NodeId) (role : Role) (owner : Option TypeId)
    (names : List Ident) (span : Span) : (type value : Option TypeId) → (a : Analysis) →
    Through P a ((Task.declareInit node role owner names type value span).calls a)
      ((Task.declareInit node role owner names type value span).finish a)
  | some type, some value, a => Goes.onSome (l := []) (m := initialMode type value span)
      (alters_initialMode type value span a) (.pure _) fun _ _ =>
        (goes_call (through_declareNames type role owner names _) trivial rfl).andThen fun _ =>
          (alters_record fun _ => .decl node _).bind fun _ => .pure _
  | none, _, _ | some _, none, _ => .done .refl

theorem through_initDecl (hreads : P.reads) (d : InitDecl) (a : Analysis) :
    Through P a ((Task.initDecl d).calls a) ((Task.initDecl d).finish a) :=
  Goes.bind (l := [_]) (r := [_, _]) (m := Analyze.resolve d.type)
    (goes_call (through_resolve d.type a) trivial rfl)
    (Goes.bind (l := [_]) (r := [_]) (goes_operand hreads d.value _)
      ((goes_call (through_declareInit d.node .var none d.names d.value.span _ _ _)
        trivial rfl).andThen fun _ => .pure _))

theorem through_staticField (hreads : P.reads) {type : TypeId} (huser : a.types.form type = .user)
    (inner : ScopeId) (f : StaticField) : Through P a ((Task.staticField type inner f).calls a)
      ((Task.staticField type inner f).finish a) :=
  Goes.next (l := [_]) (r := [_, _]) (m := inScope inner (operand f.init))
    (.inScope (goes_operand hreads f.init _)) fun hvalue =>
      Goes.next (l := [_]) (r := [_]) (goes_call (through_resolve f.decl.type _) trivial rfl)
        fun htype => Goes.next (l := [_]) (r := []) (goes_call (through_declareInit f.decl.node
          .staticField (some type) f.decl.names f.init.span _ _ _) trivial rfl) fun hdeclare =>
            goes_addFields ((hvalue.trans (htype.trans hdeclare)).lasts.user huser) true _

theorem through_staticFields (hreads : P.reads) {type : TypeId} (inner : ScopeId) :
    (fs : List StaticField) → {a : Analysis} → a.types.form type = .user →
    Through P a ((Task.staticFields type inner fs).calls a)
      ((Task.staticFields type inner fs).finish a)
  | [], _, _ => .done .refl
  | f :: fs, _, huser => Goes.next (l := [_]) (m := staticField type inner f)
      (goes_call (through_staticField hreads huser inner f) huser rfl) fun hfirst =>
        goes_call (through_staticFields hreads inner fs (hfirst.lasts.user huser))
          (hfirst.lasts.user huser) rfl

theorem through_instanceFields {type : TypeId} :
    (ds : List VarDecl) → {a : Analysis} → a.types.form type = .user →
    Through P a ((Task.instanceFields type ds).calls a) ((Task.instanceFields type ds).finish a)
  | [], _, _ => .done .refl
  | d :: ds, a, huser => Goes.next (l := [_]) (r := [_]) (m := varDecl .field (some type) d)
      (goes_call (through_varDecl .field (some type) d a) trivial rfl) fun hfirst =>
        (goes_addFields (hfirst.lasts.user huser) false _).next (l := []) fun hadd =>
          have huser' := (hfirst.trans hadd).lasts.user huser
          goes_call (through_instanceFields ds huser') huser' rfl

/-- The type that a routine is a member of may get one. -/
structure Gains (P : Permit) (member : Option Membership) (a : Analysis) : Prop where
  gives : ∀ m, member = some m → P.gives m.type
  unreading : ∀ m, member = some m → ¬ P.reads
  user : ∀ m, member = some m → a.types.form m.type = .user
  unread : ∀ m, member = some m → a.types.Unread m.type

theorem Gains.after {member : Option Membership} (h : Gains P member a) (hc : Changes P a b) :
    Gains P member b :=
  ⟨h.gives, h.unreading, fun m hm => hc.lasts.user (h.user m hm),
    fun m hm => hc.unread (h.unreading m hm) (h.unread m hm)⟩

theorem Gains.needs {member : Option Membership} (h : Gains P member a) (r : RoutineDef) :
    (Task.declareRoutine member r).Needs a := by
  cases member with
  | none => trivial
  | some m => exact ⟨h.user m rfl, h.unread m rfl⟩

theorem gains_none : Gains P none a := ⟨nofun, nofun, nofun, nofun⟩

theorem gains_giving {m : Membership} (huser : a.types.form m.type = .user)
    (hunread : a.types.Unread m.type) : Gains (.giving m.type) (some m) a := by
  refine ⟨?_, ?_, ?_, ?_⟩ <;> rintro m' ⟨rfl⟩
  · exact rfl
  · exact id
  · exact huser
  · exact hunread

theorem goes_enterRoutine {member : Option Membership} (h : Gains P member a) (r : RoutineDef)
    (params : List TypeId) (result : Option TypeId) :
    Goes P a [] (enterRoutine member r params result) := by
  refine (alters_addRoutineType params result a).next fun htype =>
    (alters_currentScope _).bind (l := []) ((alters_declare _ _ _ _).next (l := [])
      fun hdeclare => ?_)
  have hgains := h.after (htype.trans hdeclare)
  split
  · exact (goes_addMember _ fun m hm =>
      ⟨hgains.gives m hm, hgains.user m hm, hgains.unread m hm⟩).andThen fun _ =>
        (alters_openRoutine r member _ _).bind fun _ => .pure _
  · exact .pure _

theorem through_declareRoutine {member : Option Membership} (h : Gains P member a)
    (r : RoutineDef) : Through P a ((Task.declareRoutine member r).calls a)
      ((Task.declareRoutine member r).finish a) := by
  refine Goes.next (l := [_]) (m := resolveAll (r.params.map (·.type)))
    (goes_call (through_resolveAll _ a) trivial rfl) fun hparams => ?_
  refine Goes.next (l := [_]) (r := Task.routineName member r _ _ _)
    (goes_call (through_resolveResult r.result _) trivial rfl) fun hresult => ?_
  have hgains := h.after (hparams.trans hresult)
  change Goes P _ (Task.routineName member r ((resolveAll _).run a).1
    ((resolveResult _).run ((resolveAll _).run a).2).1
    ((resolveResult _).run ((resolveAll _).run a).2).2) _
  generalize ((resolveAll (r.params.map (·.type))).run a).1 = params
  generalize (resolveResult r.result).run _ = o at hgains
  obtain ⟨result, c⟩ := o
  cases params with
  | none => exact .pure _
  | some params =>
    cases result with
    | none => exact .pure _
    | some result =>
      refine (alters_refuseMember member r.name params c).next (l := []) fun hmember => ?_
      have hgains' := hgains.after hmember
      dsimp only [Task.routineName]
      generalize (refuseMember member r.name params).run c = o at hgains'
      obtain ⟨refused, d⟩ := o
      cases refused with
      | true => exact .pure _
      | false =>
        refine goes_name r.name.name ((alters_refuseName r.name d).next (l := []) fun hname => ?_)
        split
        · exact .pure _
        · exact goes_enterRoutine (hgains'.after hname) r params result

theorem through_declareMembers {m : Membership} : (rs : List RoutineDef) → {a : Analysis} →
    Gains P (some m) a → Through P a ((Task.declareMembers m rs).calls a)
      ((Task.declareMembers m rs).finish a)
  | [], _, _ => .done .refl
  | r :: rs, _, h => Goes.next (l := [_]) (r := [_]) (m := declareRoutine (some m) r)
      (goes_call (through_declareRoutine h r) (h.needs r) rfl) fun hfirst =>
        have h' := h.after hfirst
        (goes_call (through_declareMembers rs h') ⟨h'.user m rfl, h'.unread m rfl⟩ rfl).andThen
          fun _ => .pure _

theorem through_openType (n : Ident) (a : Analysis) :
    Through P a ((Task.openType n).calls a) ((Task.openType n).finish a) :=
  goes_name (m := openType n) n.name (.done (changes_openType n a).1)

theorem through_sourcesOf : (xs : List (String × TypeId)) → (a : Analysis) →
    Through P a ((Task.sourcesOf xs).calls a) ((Task.sourcesOf xs).finish a)
  | [], _ => .done .refl
  | (n, _) :: xs, a => by
    refine goes_name (m := sourcesOf _) n ((alters_lookup n a).bind (l := []) ?_)
    cases ((lookup n).run a).1 <;> exact (Goes.pure _).bind (l := [])
      ((goes_call (through_sourcesOf xs _) trivial rfl).andThen fun _ => .pure _)

theorem through_captureSources (s : ScopeId) (a : Analysis) :
    Through P a ((Task.captureSources s).calls a) ((Task.captureSources s).finish a) :=
  goes_call (m := sourcesOf _) (through_sourcesOf _ a) trivial rfl

/-! ## Statements without bodies -/

theorem through_assign (hreads : P.reads) (x : Assignment) (a : Analysis) :
    Through P a ((Task.assign x).calls a) ((Task.assign x).finish a) := by
  refine Goes.bind (l := [_]) (r := [_]) (m := chain x.target)
    (goes_call (through_chain hreads x.target a) trivial rfl) ?_
  refine (goes_operand hreads x.value _).andThen fun value => ?_
  cases value with
  | none => exact .pure _
  | some value =>
    refine .get fun b => ?_
    split
    · split
      · exact alters_report _ _
      · exact alters_writeTarget x _ _ value
    · exact .pure _

theorem through_checkCondition (hreads : P.reads) (e : Expr) (a : Analysis) :
    Through P a ((Task.checkCondition e).calls a) ((Task.checkCondition e).finish a) := by
  refine Goes.andThen (m := operand e) (goes_operand hreads e a) fun type => ?_
  cases type with
  | none => exact .pure _
  | some type =>
    refine alters_types.bind fun t => ?_
    split
    · exact .pure _
    · exact alters_report _ _

theorem through_checkReturn (hreads : P.reads) (r : RoutineDef) (result : Option TypeId)
    (a : Analysis) :
    Through P a ((Task.checkReturn r result).calls a) ((Task.checkReturn r result).finish a) := by
  obtain ⟨node, name, closing, params, promised, body, ret, span⟩ := r
  cases ret with
  | none =>
    cases result with
    | none => exact .done .refl
    | some type => exact (alters_typeName type).bind (fun _ => alters_report _ _) a
  | some ret =>
    cases result with
    | none =>
      have hvalue : Goes P a [(.expr ret.value, a)] (expr ret.value) :=
        goes_call (through_expr hreads ret.value a) trivial rfl
      exact (hvalue.andThen fun _ => .pure ()).andThen fun _ => alters_report _ _
    | some type =>
      refine Goes.andThen (m := operand ret.value) (goes_operand hreads ret.value a)
        fun value => ?_
      cases value with
      | none => exact .pure _
      | some value =>
        refine alters_types.bind fun t => ?_
        split
        · exact .pure _
        · exact alters_report _ _

/-! ## Statements and definitions -/

/-- The routines of some definitions are analysed, once they are declared. -/
def BodiesThrough (rs : List RoutineDef) : Prop :=
  ∀ (ds : List (Option DeclaredRoutine)) {a : Analysis}, a.types.Fresh →
    Through .both a ((Task.routineBodies ds rs).calls a) ((Task.routineBodies ds rs).finish a)

/-- A type gets its routines before any of them is read. -/
theorem through_memberRoutines {type : TypeId} {rs rs' : List RoutineDef}
    (hbodies : BodiesThrough rs) (hbodies' : BodiesThrough rs') (ha : a.types.Fresh)
    (hbare : a.types.Bare type) :
    Through .both a ((Task.memberRoutines type rs rs').calls a)
      ((Task.memberRoutines type rs rs').finish a) := by
  have hgains (isStatic : Bool) : Gains (.giving type) (some ⟨type, isStatic⟩) a :=
    @gains_giving _ ⟨type, isStatic⟩ hbare.user (ha.unread hbare)
  have hfirst := through_declareMembers rs (hgains false)
  have hgains' := (hgains true).after hfirst.changes
  have hsecond := through_declareMembers rs' hgains'
  -- both lists are declared before a body is analysed, and bodies are what may read routines
  have hwithin := Permit.within_both (.giving type)
  refine Goes.bind (l := [_]) (r := [_, _, _]) (m := declareMembers ⟨type, false⟩ rs)
    (goes_call (hfirst.mono hwithin) ⟨hbare.user, ha.unread hbare⟩ rfl) ?_
  refine Goes.bind (l := [_]) (r := [_, _]) (goes_call (hsecond.mono hwithin)
    ⟨hgains'.user _ rfl, hgains'.unread _ rfl⟩ rfl) ?_
  have hc := hsecond.changes.fresh (hfirst.changes.fresh ha)
  exact Goes.next (l := [_]) (goes_call (hbodies _ hc) trivial rfl) fun h =>
    goes_call (hbodies' _ (h.fresh hc)) trivial rfl

theorem through_members {f : TypeFinding} {rs rs' : List RoutineDef} (fields : List VarDecl)
    (statics : List StaticField) (hbodies : BodiesThrough rs) (hbodies' : BodiesThrough rs')
    (ha : a.types.Fresh) (hbare : a.types.Bare f.type) :
    Through .both a ((Task.members f fields statics rs rs').calls a)
      ((Task.members f fields statics rs rs').finish a) := by
  have hfields := through_instanceFields (P := .neither) fields hbare.user
  have hbare' := hfields.changes.bare id hbare
  -- static fields may have initial values, which read routines, but none of this type
  have hstatics := through_staticFields (P := .reading) trivial f.fieldInit statics hbare'.user
  have hbare'' := hstatics.changes.bare id hbare'
  have hc := hstatics.changes.fresh (hfields.changes.fresh ha)
  exact Goes.bind (l := [_]) (r := [_, _]) (m := instanceFields f.type fields)
    (goes_call (hfields.mono (Permit.within_both _)) hbare.user rfl)
    (Goes.bind (l := [_]) (r := [_]) (goes_call (hstatics.mono (Permit.within_both _)) hbare'.user rfl)
        (goes_call (through_memberRoutines hbodies hbodies' hc hbare'') hbare'' rfl))

/-- What is left of a type after its bodies. -/
theorem goes_finishType (d : TypeDef) (f : TypeFinding) (a : Analysis) :
    Goes P a [(.captureSources f.scope, a)] (finishType d f) :=
  (goes_call (through_captureSources f.scope a) trivial rfl).andThen fun _ =>
    (alters_record fun _ => .type d.node _).bind fun _ => alters_checkClosing _ _ _

/-- What is left of a routine after its body. -/
theorem goes_finishRoutine {d : DeclaredRoutine} {r : RoutineDef} {s : Analysis}
    (ha : ((inScope d.scope (stmts r.body >>= fun _ => checkReturn r d.result)).run s).2 = a) :
    Goes P a [(.captureSources d.scope, a)] (finishRoutine r d.scope) := by
  have hsources : Goes P a [(.captureSources d.scope, a)] (captureSources d.scope) :=
    goes_call (through_captureSources d.scope a) trivial rfl
  subst ha
  refine Goes.bind (r := []) hsources ?_
  refine Goes.bind (l := []) (r := []) (m := record _) (.done (.single ?_))
    (alters_checkClosing _ _ _ _)
  exact .complete (d := d) (r := r) (s := s) rfl

theorem through_block (node : NodeId) {calls : Analysis → List Call} {m : Analyze Unit}
    (hm : ∀ {b}, b.types.Fresh → Goes .both b (calls b) m) (ha : a.types.Fresh) :
    Goes .both a (calls { ((openBlock node).run a).2 with current := ((openBlock node).run a).1 })
      (openBlock node >>= fun scope => inScope scope m) :=
  (alters_openBlock node a).next (l := []) fun h => .inScope (hm (h.fresh ha))

mutual

theorem through_stmt : (x : Stmt) → {a : Analysis} → a.types.Fresh →
    Through .both a ((Task.stmt x).calls a) ((Task.stmt x).finish a)
  | .declare d, a, _ => (goes_call (m := varDecl .var none d) (through_varDecl .var none d a)
      trivial rfl).andThen fun _ => .pure _
  | .define d, a, _ => goes_call (m := initDecl d) (through_initDecl trivial d a) trivial rfl
  | .assign x, a, _ => goes_call (m := assign x) (through_assign trivial x a) trivial rfl
  | .call c, a, _ => (goes_call (m := chain c) (through_chain trivial c a) trivial rfl).andThen
      fun _ => .pure _
  | .branch gs e _, _, ha => Goes.next (l := [_]) (m := guardedAll gs)
      (goes_call (through_guardedAll gs ha) trivial rfl) fun h =>
        goes_call (through_elseBlock e (h.fresh ha)) trivial rfl
  | .loop g, _, ha => goes_call (m := guarded g) (through_guarded g ha) trivial rfl
  | .routine r, a, ha => by
    have hdeclare := through_declareRoutine (gains_none (P := .both) (a := a)) r
    exact Goes.onSome (l := [_]) (m := declareRoutine none r) (goes_call hdeclare trivial rfl)
      (.pure _) fun d _ =>
        goes_call (through_routineBody d r (hdeclare.changes.fresh ha)) trivial rfl
  | .type d, _, ha => goes_call (m := typeDef d) (through_typeDef d ha) trivial rfl

theorem through_stmts : (xs : List Stmt) → {a : Analysis} → a.types.Fresh →
    Through .both a ((Task.stmts xs).calls a) ((Task.stmts xs).finish a)
  | [], _, _ => .done .refl
  | x :: xs, _, ha => Goes.next (l := [_]) (m := stmt x)
      (goes_call (through_stmt x ha) trivial rfl) fun h =>
        goes_call (through_stmts xs (h.fresh ha)) trivial rfl

theorem through_guarded : (g : Guarded) → {a : Analysis} → a.types.Fresh →
    Through .both a ((Task.guarded g).calls a) ((Task.guarded g).finish a)
  | ⟨node, condition, body, _⟩, _, ha => through_block node (m := do
      checkCondition condition
      stmts body) (fun hb => Goes.next (l := [_])
        (goes_call (through_checkCondition trivial condition _) trivial rfl) fun h =>
          goes_call (through_stmts body (h.fresh hb)) trivial rfl) ha

theorem through_guardedAll : (gs : List Guarded) → {a : Analysis} → a.types.Fresh →
    Through .both a ((Task.guardedAll gs).calls a) ((Task.guardedAll gs).finish a)
  | [], _, _ => .done .refl
  | g :: gs, _, ha => Goes.next (l := [_]) (m := guarded g)
      (goes_call (through_guarded g ha) trivial rfl) fun h =>
        goes_call (through_guardedAll gs (h.fresh ha)) trivial rfl

theorem through_elseBlock : (e : Else) → {a : Analysis} → a.types.Fresh →
    Through .both a ((Task.elseBlock e).calls a) ((Task.elseBlock e).finish a)
  | .absent, _, _ => .done .refl
  | .block node body _, _, ha => through_block node (m := stmts body)
      (fun hb => goes_call (through_stmts body hb) trivial rfl) ha

theorem through_routineBody (d : DeclaredRoutine) : (r : RoutineDef) → {a : Analysis} →
    a.types.Fresh → Through .both a ((Task.routineBody d r).calls a)
      ((Task.routineBody d r).finish a)
  | ⟨node, name, closing, params, result, body, ret, span⟩, a, ha => by
    exact Goes.bind (l := [_, _]) (r := [_]) (m := inScope d.scope do
        stmts body
        checkReturn ⟨node, name, closing, params, result, body, ret, span⟩ d.result)
      (.inScope (Goes.bind (l := [_]) (r := [_]) (goes_call (through_stmts body ha) trivial rfl)
        (goes_call (through_checkReturn trivial _ d.result _) trivial rfl)))
      (goes_finishRoutine (r := ⟨node, name, closing, params, result, body, ret, span⟩) rfl)

theorem through_routineBodies : (rs : List RoutineDef) → BodiesThrough rs
  | [], ds, _, _ => by
    cases ds with
    | nil => exact .done .refl
    | cons d ds => cases d <;> exact .done .refl
  | r :: rs, ds, a, ha => by
    cases ds with
    | nil => exact .done .refl
    | cons d ds =>
      cases d with
      | none =>
        exact goes_call (m := routineBodies ds rs) (through_routineBodies rs ds ha) trivial rfl
      | some d =>
        exact Goes.next (l := [_]) (m := routineBody d r)
          (goes_call (through_routineBody d r ha) trivial rfl) fun h =>
            goes_call (through_routineBodies rs ds (h.fresh ha)) trivial rfl

theorem through_typeDef : (d : TypeDef) → {a : Analysis} → a.types.Fresh →
    Through .both a ((Task.typeDef d).calls a) ((Task.typeDef d).finish a)
  | ⟨node, name, closing, fields, statics, routines, staticRoutines, span⟩, a, ha => by
    have hopen := through_openType (P := .both) name a
    refine Goes.onSome (l := [_]) (m := openType name) (goes_call hopen trivial rfl) (.pure _)
      fun f hf => ?_
    have hbare := (changes_openType (P := .both) name a).2 f hf
    refine Goes.bind (l := [_]) (r := [_]) (m := inScope f.scope
        (Analysis.members f fields statics routines staticRoutines))
      (.inScope (goes_call (through_members fields statics (through_routineBodies routines)
        (through_routineBodies staticRoutines) (hopen.changes.fresh ha) hbare) hbare rfl))
      (goes_finishType ⟨node, name, closing, fields, statics, routines, staticRoutines, span⟩ f _)

end

/-- Every task goes through its calls. -/
theorem Task.Needs.through (h : T.Needs a) (ha : a.types.Fresh) :
    Through .both a (T.calls a) (T.finish a) := by
  have hreads : Permit.both.reads := trivial
  cases T with
  | name => exact .done .refl
  | resolve w => exact through_resolve w a
  | resolveAll ws => exact through_resolveAll ws a
  | resolveResult w => exact through_resolveResult w a
  | expr e => exact through_expr hreads e a
  | arguments es => exact through_arguments hreads es a
  | chain c => exact through_chain hreads c a
  | headLink hasMore l => exact through_headLink hreads hasMore l a
  | memberLink before l => exact through_memberLink hreads before l a
  | memberLinks before ls => exact through_memberLinks hreads before ls a
  | declareNames type role owner ns => exact through_declareNames type role owner ns a
  | varDecl role owner d => exact through_varDecl role owner d a
  | declareInit node role owner names type value span =>
    exact through_declareInit node role owner names span type value a
  | initDecl d => exact through_initDecl hreads d a
  | staticField type inner f => exact through_staticField hreads h inner f
  | staticFields type inner fs => exact through_staticFields hreads inner fs h
  | instanceFields type ds => exact through_instanceFields ds h
  | declareRoutine member r =>
    cases member with
    | none => exact through_declareRoutine gains_none r
    | some m => exact (through_declareRoutine (gains_giving h.1 h.2) r).mono (Permit.within_both _)
  | declareMembers m rs =>
    exact (through_declareMembers rs (gains_giving h.1 h.2)).mono (Permit.within_both _)
  | openType n => exact through_openType n a
  | sourcesOf xs => exact through_sourcesOf xs a
  | captureSources s => exact through_captureSources s a
  | assign x => exact through_assign hreads x a
  | checkCondition e => exact through_checkCondition hreads e a
  | checkReturn r result => exact through_checkReturn hreads r result a
  | stmt x => exact through_stmt x ha
  | stmts xs => exact through_stmts xs ha
  | guarded g => exact through_guarded g ha
  | guardedAll gs => exact through_guardedAll gs ha
  | elseBlock e => exact through_elseBlock e ha
  | routineBody d r => exact through_routineBody d r ha
  | routineBodies ds rs => exact through_routineBodies rs ds ha
  | memberRoutines type rs rs' =>
    exact through_memberRoutines (through_routineBodies rs) (through_routineBodies rs') ha h
  | members f fields statics rs rs' =>
    exact through_members fields statics (through_routineBodies rs) (through_routineBodies rs') ha h
  | typeDef d => exact through_typeDef d ha

/-! ## The whole history -/

theorem fresh_blank (program : String) : (blank program).types.Fresh :=
  ⟨List.nodup_nil, List.forall_mem_nil _, List.forall_mem_nil _⟩

theorem goes_declareType {s : ScopeId} {name : String} {type : TypeId} {span : Span}
    (has : a.types.Has type) (form : a.types.form type ≠ .routine) :
    Goes P a [] (declareType s name type span) := by
  rw [Goes, run_declareType]
  split
  · rename_i h
    exact .done (.single (.declareType has form h))
  · exact alters_reportError _ a

theorem goes_declareTypes : (xs : List (String × TypeId)) → {a : Analysis} →
    (∀ x ∈ xs, a.types.Has x.2 ∧ a.types.form x.2 ≠ .routine) → Goes P a [] (declareTypes xs)
  | [], _, _ => .pure _
  | (name, type) :: xs, a, h => by
    rw [List.forall_mem_cons] at h
    have hfirst : Goes P a [] (discard (declareType Scopes.rootId name type .unknown)) :=
      goes_declareType h.1.1 h.1.2
    refine hfirst.next (r := []) fun hfirst => goes_declareTypes xs fun x hx => ?_
    obtain ⟨hhas, hform⟩ := h.2 x hx
    exact ⟨hfirst.lasts.has hhas, (hfirst.lasts.form _ hhas).trans_ne hform⟩

theorem alters_declareRoutines : (xs : List (String × TypeId)) → Alters P (declareRoutines xs)
  | [] => .pure _
  | _ :: xs => ((alters_declare _ _ _).bind fun _ => .pure _).bind fun _ =>
      alters_declareRoutines xs

theorem changes_initial (program : String) : Changes P (blank program) (initial program) := by
  refine Through.changes (l := []) (Goes.bind (l := []) (m := declareTypes Predefined.namedTypes)
    (goes_declareTypes _ ?_) (alters_declareRoutines Predefined.routines _))
  have hlibrary : ∀ x ∈ Predefined.namedTypes, x.2.index < 6 ∧
      (TypeTable.predefined (blank program).units.routineBase).form x.2 = .library := by
    simp only [Predefined.namedTypes, List.forall_mem_cons, List.not_mem_nil, false_implies,
      implies_true, and_true]
    exact ⟨⟨by decide, rfl⟩, ⟨by decide, rfl⟩, ⟨by decide, rfl⟩, by decide, rfl⟩
  exact fun x hx => ⟨(hlibrary x hx).1, (hlibrary x hx).2.trans_ne (by decide)⟩

/-- How a call lies in the history of an analysis. -/
structure History (program : String) (q : Program) (T : Task) (a : Analysis) : Prop where
  needs : T.Needs a
  before : Changes .both (blank program) a
  during : Changes .both a (T.finish a)
  after : Changes .both (T.finish a) (analyze program q)

theorem History.fresh (h : History program q T a) : a.types.Fresh :=
  h.before.fresh (fresh_blank program)

/-- What is reached lies between the start and the end. -/
theorem Reached.history (h : Reached program q T a) : History program q T a := by
  induction h with
  | start =>
    have hstart := changes_initial (P := .both) program
    exact ⟨trivial, hstart, (through_stmts q.stmts (hstart.fresh (fresh_blank program))).changes,
      .refl⟩
  | call h hc ih =>
    obtain ⟨hneeds, hb, hrun, hend⟩ := (ih.needs.through ih.fresh).of_mem hc
    exact ⟨hneeds, ih.before.trans hb, hrun, Changes.trans hend ih.after⟩

/-- A state in which something that is analysed starts or ends. -/
inductive Attained (program : String) (q : Program) : Analysis → Prop
  | start {T : Task} {a : Analysis} (h : Reached program q T a) : Attained program q a
  | finish {T : Task} {a : Analysis} (h : Reached program q T a) : Attained program q (T.finish a)

/-- The end is attained. -/
theorem attained_analyze (program : String) (q : Program) :
    Attained program q (analyze program q) :=
  .finish .start

theorem Attained.before (h : Attained program q a) : Changes .both (blank program) a := by
  cases h with
  | start h => exact h.history.before
  | finish h => exact Changes.trans h.history.before h.history.during

theorem Attained.after (h : Attained program q a) : Changes .both a (analyze program q) := by
  cases h with
  | start h => exact Changes.trans h.history.during h.history.after
  | finish h => exact h.history.after

end Analysis

/-! ## Member routines that are read as values -/

/-- The member routines that a key names. -/
def TypeTable.routinesAt (t : TypeTable) (key : MemberKey) : List Signature :=
  ((t.get key.owner).routinesOf key.isStatic).filter (·.name == key.name)

namespace Analysis

open TypeTable

variable {program : String} {q : Program} {a : Analysis}

/-- In every state of an analysis, what is kept for a reading is a type with a call signature
for each of the routines that the owner has by then under that name, and there is at least
one.  So a reading gives what it would give without what is kept, but for the identity of the
type.  It makes a type only where none is kept, and keeps it to the end. -/
theorem Attained.memberTypes_current (h : Attained program q a) :
    (∀ e ∈ a.types.memberTypes, a.types.routinesAt e.1 ≠ [] ∧ a.types.get e.2 =
      .ofSignatures ((a.types.routinesAt e.1).map fun s => ⟨Reserved.call, s.params, s.result⟩)) ∧
    (∀ owner isStatic name, readout (a.types.memberRoutine owner isStatic name) =
      readout (a.types.forgetful.memberRoutine owner isStatic name)) ∧
    (∀ owner isStatic name, (a.types.memberRoutine owner isStatic name).2 = a.types ∨
      (∀ e ∈ a.types.memberTypes, e.1 ≠ ⟨owner, name, isStatic⟩) ∧
        (a.types.memberRoutine owner isStatic name).2.size = a.types.size + 1 ∧
        (a.types.memberRoutine owner isStatic name).2.memberTypes =
          a.types.memberTypes ++ [(⟨owner, name, isStatic⟩, ⟨a.types.size⟩)]) ∧
    (a.types.memberTypes.map (·.1)).Nodup ∧
    a.types.memberTypes <+: (analyze program q).types.memberTypes := by
  have hfresh := h.before.fresh (fresh_blank program)
  refine ⟨fun e he => ⟨fun hnil => ?_, hfresh.made e he⟩, fun owner isStatic name => ?_,
    fun owner isStatic name => ?_, hfresh.once, h.after.lasts.kept⟩
  · refine hfresh.nonempty e he ?_
    rw [memberSignatures, ← routinesAt, hnil, List.map_nil]
  · rw [hfresh.readout_memberRoutine, (Fresh.forgetful a.types).readout_memberRoutine]
    rfl
  · have hreading := reading_memberType a.types ⟨owner, name, isStatic⟩
    rw [memberRoutine]
    dsimp only
    generalize a.types.memberType ⟨owner, name, isStatic⟩ = x at hreading
    cases hreading with
    | kept | nothing => exact .inl rfl
    | made hnone =>
      refine .inr ⟨fun e he heq => not_mem_of_memberType? hnone ?_, size_add _ _, rfl⟩
      exact heq ▸ List.mem_map_of_mem he

/--
A member routine is read as a value twice:
```
type T
  routine f(integer n)
  end f
end T
T x
x.f
x.f
```
-/
def readTwice : Program := (Draft.build [
  .type ⟨none, "T", [], [], [⟨none, "f", [(.named none "integer", "n")], none, [], none, none⟩],
    [], none⟩,
  .declare ⟨none, .named none "T", ["x"]⟩,
  .call ⟨none, [.bare none "x", .bare none "f"]⟩,
  .call ⟨none, [.bare none "x", .bare none "f"]⟩]).1

/-- By the second reading a type is kept, and it is the one for the routine that there is. -/
theorem memberTypes_current_readTwice : (analyze "demo" readTwice).errors = [] ∧
    ∃ a, Attained "demo" readTwice a ∧
      a.types.memberTypes = [(⟨⟨6⟩, "f", false⟩, ⟨8⟩)] ∧
      a.types.routinesAt ⟨⟨6⟩, "f", false⟩ = [⟨"f", [.integer], none⟩] ∧
      a.types.get ⟨8⟩ = .ofSignatures [⟨Reserved.call, [.integer], none⟩] ∧
      readout (a.types.memberRoutine ⟨6⟩ false "f") =
        readout (a.types.forgetful.memberRoutine ⟨6⟩ false "f") := by
  have hsecond : (Task.follow [1, 1, 1, 0, 0, 1, 0] (.stmts readTwice.stmts, initial "demo")).any
      (fun c => c.2.types.memberTypes = [(⟨⟨6⟩, "f", false⟩, ⟨8⟩)] ∧
        c.2.types.routinesAt ⟨⟨6⟩, "f", false⟩ = [⟨"f", [.integer], none⟩]) = true := by
    decide +kernel
  obtain ⟨T, a, hT, hp⟩ := Reached.exists_call hsecond
  obtain ⟨hkept, hroutines⟩ := of_decide_eq_true hp
  obtain ⟨hmade, hread, -⟩ := (Attained.start hT).memberTypes_current
  refine ⟨by decide +kernel, a, .start hT, hkept, hroutines, ?_, hread _ _ _⟩
  have hget := (hmade _ (hkept ▸ List.mem_singleton_self _)).2
  rwa [hroutines] at hget

end Analysis

end Unnest
