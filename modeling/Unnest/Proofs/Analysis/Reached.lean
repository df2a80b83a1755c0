import Unnest.Proofs.Analysis.Entries
import Unnest.Proofs.Analysis.Passes
import Unnest.Proofs.Analysis.Program
import Unnest.Proofs.Analysis.Tasks

/-!
# Reached states are passed through

Every state in which a program reaches a task is one that a walk from the start passes
through (`Reached.passes`), and it is sound (`Reached.sound`).  So what holds of all states
that walks pass through holds wherever a name is looked up.

A task can ask for more than a sound state: statements stand in a body, and the body of a
routine needs the scope that was opened for it.  What each task is given is in `Task.Given`,
and the tasks that it calls are given what they need (`Task.Ready.calls`).
-/

namespace Unnest.Analysis

open Analyze

variable {K : Multiset Key} {a b c : Analysis} {s x : ScopeId}

/-! ## Places -/

/-- The current scope, in tables that come after these. -/
def Place.since (a : Analysis) : Place := ⟨a.current, Grows a, Grows.trans⟩

theorem Place.at_since (ha : Sound a) : (Place.since a).At a := ⟨ha, rfl, .refl a⟩

theorem Decides.walk {α : Type} {m : Analyze α} {Q : Analysis → α → Prop}
    (h : Decides (Place.since a) K m Q) (ha : Sound a) : Walk K a (m.run a).2 :=
  .steps (h a (Place.at_since ha)).1

/-- The current scope has statements. -/
def InBody (a : Analysis) : Prop := (a.scopes.get a.current).kind.isBody = true

theorem InBody.walk (h : InBody a) (ha : Sound a) (hw : Walk K a b) : InBody b := by
  rw [InBody, hw.current_eq, hw.grows.scopes.kind_eq ha.has]
  exact h

/-- The current scope can declare bindings of a role. -/
def CanDeclare (role : Role) (owner : Option TypeId) (a : Analysis) : Prop :=
  ∀ type name, Scopes.MayDeclare (a.scopes.get a.current) { name, type, role, owner }

theorem CanDeclare.walk {role : Role} {owner : Option TypeId} (h : CanDeclare role owner a)
    (ha : Sound a) (hw : Walk K a b) : CanDeclare role owner b := fun type name => by
  rw [hw.current_eq]
  exact Scopes.mayDeclare_congr (hw.grows.scopes.head _ ha.has) (h type name)

theorem CanDeclare.since {role : Role} {owner : Option TypeId} (h : CanDeclare role owner a)
    (ha : Sound a) : Declares (Place.since a) role owner := fun _ hz type name =>
  Scopes.mayDeclare_congr (hz.holds.scopes.head _ ha.has) (h type name)

theorem InBody.since (h : InBody a) (ha : Sound a) : ∀ z, (Place.since a).Known z →
    (z.scopes.get (Place.since a).scope).kind.isBody = true := fun _ hz =>
  (congrArg ScopeKind.isBody (hz.holds.scopes.kind_eq ha.has)).trans h

theorem InBody.canDeclare (h : InBody a) : CanDeclare .var none a := fun _ _ =>
  Scopes.mayDeclare_of_isBody h rfl

theorem Hosts.grows {member : Option Membership} (h : Hosts s member a) (hs : a.scopes.Has s)
    (hg : Grows a b) : Hosts s member b := by
  have hd := hg.scopes.head _ hs
  cases member with
  | none => exact (congrArg ScopeKind.isBody hd.kind).trans h
  | some m =>
    exact ⟨hd.kind.trans h.1, hd.memberOf.trans h.2.1,
      (hg.types.form _ (TypeTable.has_of_user h.2.2)).trans h.2.2⟩

theorem Hosts.since {member : Option Membership} (h : Hosts a.current member a) (ha : Sound a) :
    ∀ z, (Place.since a).Known z → Hosts (Place.since a).scope member z := fun _ hz =>
  h.grows ha.has hz.holds

/-- The members of a type are being declared. -/
def InType (inner : ScopeId) (type : TypeId) (a : Analysis) : Prop :=
  (Place.type a.current inner type).holds a

namespace InType

variable {inner : ScopeId} {type : TypeId}

theorem at_type (h : InType inner type a) (ha : Sound a) : (Place.type a.current inner type).At a :=
  ⟨ha, rfl, h⟩

theorem walk (h : InType inner type a) (hw : Walk K a b) : InType inner type b := by
  rw [InType, hw.current_eq]
  exact Place.kept _ h hw.grows

theorem canDeclare (h : InType inner type a) (ha : Sound a) {role : Role}
    (hrole : role.isMember = true) : CanDeclare role (some type) a :=
  declares_type hrole a (h.at_type ha).known

theorem hosts (h : InType inner type a) (isStatic : Bool) : Hosts a.current (some ⟨type, isStatic⟩) a :=
  h.2.1

theorem parent (h : InType inner type a) : a.scopes.parent inner = some a.current := h.2.2.2.1

theorem kind (h : InType inner type a) : (a.scopes.get inner).kind = .fieldInit := h.2.2.2.2

end InType

/-- The static members of a type are being declared, and the initial values so far have
captured no instance member of the type. -/
structure Initializes (inner : ScopeId) (type : TypeId) (a : Analysis) : Prop where
  inType : InType inner type a
  noMember : a.scopes.CapturesNoMember inner

theorem Initializes.enterable {inner : ScopeId} {type : TypeId} (h : Initializes inner type a) :
    Enterable a inner :=
  ⟨h.inType.parent, .inl ⟨h.inType.kind, h.noMember⟩⟩

/-! ## Waiting routines -/

/-- A routine that was declared and whose scope the walk has not been in. -/
structure Waits (a : Analysis) (r : RoutineDef) (d : DeclaredRoutine) : Prop extends Entry a r d where
  untouched : a.scopes.Untouched d.scope

theorem Waits.enterable {r : RoutineDef} {d : DeclaredRoutine} (h : Waits a r d) :
    Enterable a d.scope :=
  ⟨h.parent, .inr h.untouched⟩

theorem Waits.inBody {r : RoutineDef} {d : DeclaredRoutine} (h : Waits a r d) :
    InBody { a with current := d.scope } := by
  rw [InBody, h.kind]
  rfl

/-- The routines of a list wait, but for those that were refused. -/
structure AllWait (a : Analysis) (rs : List RoutineDef) (ds : List (Option DeclaredRoutine)) :
    Prop extends Entries a rs ds where
  untouched : ∀ d, some d ∈ ds → a.scopes.Untouched d.scope

theorem not_mem_path_of_parent (ha : Sound a) (hx : a.scopes.parent x = some a.current) :
    x ∉ a.scopes.path a.current := fun hmem => ha.scopes.ne_of_mem_path_parent hx hmem rfl

namespace AllWait

variable {r : RoutineDef} {rs : List RoutineDef} {ds : List (Option DeclaredRoutine)}

theorem mono (h : AllWait a rs ds) (hg : Grows a b) (hcurrent : b.current = a.current)
    (hu : ∀ d, some d ∈ ds → b.scopes.Untouched d.scope) : AllWait b rs ds :=
  ⟨h.toEntries.mono hg hcurrent fun d hd => (hu d hd).captures.trans (h.untouched d hd).captures.symm,
    hu⟩

theorem steps (h : AllWait a rs ds) (ha : Sound a) (hs : Steps K a b) : AllWait b rs ds :=
  h.mono hs.grows hs.current_eq fun d hd =>
    hs.untouched ha (not_mem_path_of_parent ha (h.parent hd)) (h.untouched d hd)

theorem cons {d : Option DeclaredRoutine} (h : AllWait a (r :: rs) (d :: ds)) :
    (∀ d', d = some d' → Waits a r d') ∧ AllWait a rs ds ∧
      ∀ d' e, d = some d' → some e ∈ ds → e.scope ≠ d'.scope := by
  obtain ⟨⟨hentry, hdistinct⟩, hu⟩ := h
  cases hentry with
  | cons hd hrest =>
    rw [List.pairwise_cons] at hdistinct
    refine ⟨fun d' hd' => ⟨hd d' hd', hu d' (hd' ▸ List.mem_cons_self)⟩, ⟨⟨hrest, hdistinct.2⟩,
      fun d' hmem => hu d' (List.mem_cons_of_mem _ hmem)⟩, fun d' e hd' hmem => ?_⟩
    exact (hdistinct.1 _ hmem d' e hd' rfl).symm

end AllWait

/-- The body of a routine touches no scope beside the routine's own. -/
theorem untouched_routineBody {r : RoutineDef} {d : DeclaredRoutine} (ha : Sound a)
    (he : Entry a r d) (hx : a.scopes.parent x = some a.current) (hne : x ≠ d.scope)
    (hu : a.scopes.Untouched x) : ((routineBody d r).run a).2.scopes.Untouched x := by
  refine hu.congr ?_ ((bodyAnalysed ha he (analysed_stmts r.body)).beside x hx hne)
  have ha₁ := ha.enter he.parent (Or.inr he.empty)
  have hk₁ : (a.scopes.get d.scope).kind.isBody = true := by
    rw [he.kind]
    rfl
  have hwalk := (outcome_body d.result ha₁ hk₁ ((analysed_stmts r.body).outcome ha₁ hk₁)).walk
  have hnames := hwalk.names ha₁ (Scopes.has_of_parent hx)
    (beside_of_parent ha.scopes.toWF he.parent hx (Ne.symm hne))
  rw [run_routineBody]
  have hquiet := quiet_finishRoutine r d.scope { ((stmts r.body >>= fun _ =>
    checkReturn r d.result).run { a with current := d.scope }).2 with current := a.current }
  exact hnames.trans ⟨(hquiet.entries x).trans (List.append_nil _), hquiet.named x⟩

/-- The routines behind the first one wait while its body is analysed. -/
theorem AllWait.behind {r : RoutineDef} {rs : List RoutineDef} {d : DeclaredRoutine}
    {ds : List (Option DeclaredRoutine)} (h : AllWait a (r :: rs) (some d :: ds)) (ha : Sound a) :
    AllWait ((routineBody d r).run a).2 rs ds := by
  obtain ⟨hfirst, hrest, hne⟩ := h.cons
  have he := (hfirst d rfl).toEntry
  have hwalk := (bodyAnalysed ha he (analysed_stmts r.body)).outcome.walk
  exact hrest.mono hwalk.grows hwalk.current_eq fun e hmem =>
    untouched_routineBody ha he (hrest.parent hmem) (hne d e rfl hmem) (hrest.untouched e hmem)

/-- The bodies of routines touch no scopes beside those of the routines. -/
theorem untouched_routineBodies : (rs : List RoutineDef) → {ds : List (Option DeclaredRoutine)} →
    {a : Analysis} → Sound a → AllWait a rs ds → a.scopes.parent x = some a.current →
      (∀ d, some d ∈ ds → d.scope ≠ x) → a.scopes.Untouched x →
        ((routineBodies ds rs).run a).2.scopes.Untouched x
  | [], ds, a, _, h, _, _, hu => by
    cases h.entry
    exact hu
  | r :: rs, ds, a, ha, h, hx, hne, hu => by
    cases ds with
    | nil => exact absurd h.entry (by simp)
    | cons d ds =>
      obtain ⟨hfirst, hrest, -⟩ := h.cons
      have hne' : ∀ e, some e ∈ ds → e.scope ≠ x := fun e hmem => hne e (List.mem_cons_of_mem _ hmem)
      cases d with
      | none => exact untouched_routineBodies rs ha hrest hx hne' hu
      | some d =>
        have he := (hfirst d rfl).toEntry
        have hwalk := (bodyAnalysed ha he (analysed_stmts r.body)).outcome.walk
        refine untouched_routineBodies rs (ha.walk hwalk) (h.behind ha) ?_ hne'
          (untouched_routineBody ha he hx (hne d List.mem_cons_self).symm hu)
        exact (hwalk.grows.scopes.parent_eq (Scopes.has_of_parent hx)).trans
          (hx.trans (congrArg some hwalk.current_eq.symm))

/-- A scope that was opened on the way is untouched. -/
theorem Steps.untouched_new (ha : Sound a) (h : Steps K a b) (hnew : ¬ a.scopes.Has x) :
    b.scopes.Untouched x :=
  h.untouched ha (fun hmem => hnew (Scopes.has_of_mem_path hmem ha.has))
    (Scopes.untouched_of_not_has hnew)

theorem RoutineDeclared.waits {r : RoutineDef} {x : Option DeclaredRoutine × Analysis}
    (h : RoutineDeclared r a x) (ha : Sound a) {d : DeclaredRoutine} (hd : x.1 = some d) :
    Waits x.2 r d := by
  obtain ⟨he, hnew⟩ := h.entry d hd
  exact ⟨he, h.steps.untouched_new ha hnew⟩

theorem MembersDeclared.allWait {rs : List RoutineDef}
    {x : List (Option DeclaredRoutine) × Analysis} (h : MembersDeclared rs a x) (ha : Sound a) :
    AllWait x.2 rs x.1 :=
  ⟨h.entries, fun d hd => h.steps.untouched_new ha (h.new d hd)⟩

theorem BlockOpened.enterable {node : NodeId} {x : ScopeId × Analysis} (h : BlockOpened node a x)
    (ha : Sound a) : Enterable x.2 x.1 :=
  ⟨h.parent.trans (congrArg some h.steps.current_eq.symm), .inr (h.steps.untouched_new ha h.fresh)⟩

theorem BlockOpened.inBody {node : NodeId} {x : ScopeId × Analysis} (h : BlockOpened node a x) :
    InBody { x.2 with current := x.1 } := by
  rw [InBody, h.kind]
  rfl

/-! ## Static members -/

theorem walk_operand (ha : Sound a) (e : Expr) : Walk (Part.allKeys e.parts) a ((operand e).run a).2 :=
  (decides_requiredExpr (decides_expr (Place.since a) e)).walk ha

theorem walk_initialValue (ha : Sound a) {inner : ScopeId} {type : TypeId}
    (h : Initializes inner type a) (e : Expr) :
    Walk (Part.allKeys e.parts) a ((inScope inner (operand e)).run a).2 :=
  .inside h.inType.parent (.inl h.inType.kind) (walk_operand (h.enterable.sound ha) e)

/-- What is declared with an initial value is static. -/
theorem Initializes.after_declaration {inner : ScopeId} {type : TypeId}
    (h : Initializes inner type a) (ha : Sound a) (f : StaticField) (value : Option TypeId) :
    Scopes.CapturesNoMember (StateT.run (do
      let declared ← Analyze.resolve f.decl.type
      let bindings ← Analyze.declareInit f.decl.node .staticField (some type) f.decl.names declared
        value f.init.span
      updateTypes fun t => t.update type fun d => d.addFields true bindings : Analyze Unit) a).2.scopes
      inner := by
  have hsteps := (decides_declareStatic f value a (h.inType.at_type ha)).1
  have hresolve := quiet_resolve f.decl.type a
  have hdeclare := enters_declareInit f.decl.node .staticField (some type) f.decl.names
    ((Analyze.resolve f.decl.type).run a).1 value f.init.span _ (hresolve.has_current ha.has)
  rw [hresolve.current] at hdeclare
  have hentries := (hresolve.after hdeclare).entries a.current
  rw [only_self] at hentries
  have hinner := Scopes.has_of_parent h.inType.parent
  refine h.noMember.congr h.inType.parent
    ((hsteps.grows.scopes.parent_eq hinner).trans h.inType.parent)
    (hsteps.captures_eq ha hinner (not_mem_path_of_parent ha h.inType.parent)) hentries
    fun x hx => ?_
  rw [role_declareInit _ _ _ _ _ _ _ _ x hx]
  decide

/-- An initial value captures no instance member. -/
theorem Initializes.after_value {inner : ScopeId} {type : TypeId} (h : Initializes inner type a)
    (ha : Sound a) (e : Expr) : Initializes inner type ((inScope inner (operand e)).run a).2 := by
  have hin : InType inner type _ := h.inType.walk (walk_initialValue ha h e)
  have hs := h.enterable.sound ha
  have hwalk := walk_operand hs e
  have hm := hwalk.noMemberCaptured hs h.enterable.noMemberCaptured
  rw [NoMemberCaptured, hwalk.current_eq] at hm
  exact ⟨hin, hm hin.kind⟩

theorem Initializes.after_staticField {inner : ScopeId} {type : TypeId}
    (h : Initializes inner type a) (ha : Sound a) (f : StaticField) :
    Initializes inner type ((Analyze.staticField type inner f).run a).2 := by
  have hwalk := (outcome_staticField (h.inType.at_type ha) f).walk
  have hb := ha.walk (walk_initialValue ha h f.init)
  exact ⟨h.inType.walk hwalk, (h.after_value ha f.init).after_declaration hb f
    ((inScope inner (operand f.init)).run a).1⟩

/-! ## What tasks are given -/

namespace Task

/-- What a task needs besides a sound state. -/
def Given (a : Analysis) : Task → Prop
  | declareNames _ role owner _ | varDecl role owner _ | declareInit _ role owner _ _ _ _ =>
    CanDeclare role owner a
  | initDecl _ | stmt _ | stmts _ | guarded _ | guardedAll _ | elseBlock _ | typeDef _ => InBody a
  | staticField type inner _ | staticFields type inner _ => Initializes inner type a
  | instanceFields type _ | memberRoutines type _ _ => ∃ inner, InType inner type a
  | members f _ _ _ _ => InType f.fieldInit f.type a ∧ (a.scopes.get f.fieldInit).captures = [] ∧
    f.scope = a.current ∧ f.unit = (a.scopes.get a.current).unit
  | declareRoutine member _ => Hosts a.current member a
  | declareMembers member _ => Hosts a.current (some member) a
  | routineBody d r => Waits a r d
  | routineBodies ds rs => AllWait a rs ds
  | name _ | resolve _ | resolveAll _ | resolveResult _ | expr _ | arguments _ | chain _
  | headLink _ _ | memberLink _ _ | memberLinks _ _ | openType _ | sourcesOf _
  | assign _ | checkCondition _ | checkReturn _ _ => True
  | captureSources s => a.scopes.Has s

/-- A state that a task can start in. -/
structure Ready (T : Task) (a : Analysis) : Prop where
  sound : Sound a
  given : T.Given a

/-- A call that comes to a task which is ready. -/
structure Comes (a : Analysis) (call : Call) : Prop where
  ready : call.1.Ready call.2
  passes : Passes a call.2

namespace Comes

variable {T : Task}

theorem here (ha : Sound a) (h : T.Given a) : Comes a (T, a) := ⟨⟨ha, h⟩, .refl⟩

theorem after (ha : Sound a) (hw : Walk K a b) (h : T.Given b) : Comes a (T, b) :=
  ⟨⟨ha.walk hw, h⟩, .walk .refl hw⟩

theorem inside (ha : Sound a) (hs : Enterable a s) (h : T.Given { a with current := s }) :
    Comes a (T, { a with current := s }) :=
  ⟨⟨hs.sound ha, h⟩, .enter .refl hs⟩

theorem back (ha : Sound a) (hs : Enterable a s) (hw : Walk K { a with current := s } b)
    (h : T.Given { b with current := a.current }) : Comes a (T, { b with current := a.current }) :=
  ⟨⟨((hs.sound ha).walk hw).back hs.parent hw, h⟩, .back .refl hs hw⟩

theorem trans {call : Call} (h : Passes a b) (hc : Comes b call) : Comes a call :=
  ⟨hc.ready, h.trans hc.passes⟩

end Comes

theorem comes_cons {c : Call} {cs : List Call} (hc : Comes a c) (hcs : ∀ c ∈ cs, Comes a c) :
    ∀ c' ∈ c :: cs, Comes a c' :=
  List.forall_mem_cons.mpr ⟨hc, hcs⟩

theorem comes_only {c : Call} (hc : Comes a c) : ∀ c' ∈ [c], Comes a c' :=
  comes_cons hc (List.forall_mem_nil _)

/-! ## Types and expressions -/

theorem calls_resolve (ha : Sound a) (t : WrittenType) :
    ∀ c ∈ (resolve t).calls a, Comes a c := by
  cases t with
  | named => exact comes_only (.here ha trivial)
  | routine params =>
    have hwalk := (decides_resolveAll (Place.since a) params).walk ha
    exact comes_cons (.here ha trivial) (comes_only (.after ha hwalk trivial))

theorem calls_resolveAll (ha : Sound a) (ts : List WrittenType) :
    ∀ c ∈ (resolveAll ts).calls a, Comes a c := by
  cases ts with
  | nil => exact List.forall_mem_nil _
  | cons t =>
    have hwalk := (decides_resolve (Place.since a) t).walk ha
    exact comes_cons (.here ha trivial) (comes_only (.after ha hwalk trivial))

theorem calls_resolveResult (ha : Sound a) (t : Option WrittenType) :
    ∀ c ∈ (resolveResult t).calls a, Comes a c := by
  cases t with
  | none => exact List.forall_mem_nil _
  | some => exact comes_only (.here ha trivial)

theorem calls_expr (ha : Sound a) (e : Expr) : ∀ c ∈ (expr e).calls a, Comes a c := by
  cases e with
  | literal => exact List.forall_mem_nil _
  | binary _ _ left =>
    exact comes_cons (.here ha trivial) (comes_only (.after ha (walk_operand ha left) trivial))
  | unary | paren | chain => exact comes_only (.here ha trivial)

theorem calls_arguments (ha : Sound a) (es : List Expr) :
    ∀ c ∈ (arguments es).calls a, Comes a c := by
  cases es with
  | nil => exact List.forall_mem_nil _
  | cons e =>
    exact comes_cons (.here ha trivial) (comes_only (.after ha (walk_operand ha e) trivial))

theorem calls_chain (ha : Sound a) (c : Chain) : ∀ c' ∈ (chain c).calls a, Comes a c' := by
  obtain ⟨_, links, _⟩ := c
  cases links with
  | nil => exact List.forall_mem_nil _
  | cons head rest =>
    have hwalk := (decides_headLink (Place.since a) (!rest.isEmpty) head).walk ha
    exact comes_cons (.here ha trivial)
      (forall_mem_andThen fun _ _ => comes_only (.after ha hwalk trivial))

theorem walk_lookup (ha : Sound a) (n : String) : Walk 0 a ((lookup n).run a).2 :=
  (decides_lookup (p := Place.since a) n).walk ha

theorem calls_headLink (ha : Sound a) (hasMore : Bool) (l : Link) :
    ∀ c ∈ (headLink hasMore l).calls a, Comes a c := by
  cases l with
  | bare => exact comes_only (.here ha trivial)
  | call _ n args =>
    have hwalk := walk_lookup ha n.name
    refine comes_cons (.here ha trivial) ?_
    rw [headArguments]
    split
    · rename_i h
      rw [h] at hwalk
      exact comes_only (.after ha hwalk trivial)
    · exact List.forall_mem_nil _
    · rename_i h
      rw [h] at hwalk
      split
      · exact comes_only (.after ha hwalk trivial)
      · exact List.forall_mem_nil _

theorem calls_memberLink (ha : Sound a) (before : Produced) (l : Link) :
    ∀ c ∈ (memberLink before l).calls a, Comes a c := by
  cases l with
  | bare => exact List.forall_mem_nil _
  | call =>
    rw [calls]
    split
    · exact comes_only (.here ha trivial)
    · exact List.forall_mem_nil _

theorem calls_memberLinks (ha : Sound a) (before : Produced) (ls : List Link) :
    ∀ c ∈ (memberLinks before ls).calls a, Comes a c := by
  cases ls with
  | nil => exact List.forall_mem_nil _
  | cons l =>
    have hwalk := (decides_memberLink (Place.since a) before l).walk ha
    exact comes_cons (.here ha trivial)
      (forall_mem_andThen fun _ _ => comes_only (.after ha hwalk trivial))

/-! ## Declarations -/

section Declarations

variable {role : Role} {owner : Option TypeId}

theorem calls_declareNames (ha : Sound a) (h : CanDeclare role owner a) (type : TypeId) :
    (ns : List Ident) → ∀ c ∈ (declareNames type role owner ns).calls a, Comes a c
  | [] => List.forall_mem_nil _
  | n :: _ => by
    have hname : Decides (Place.since a) 0 (declareName type role owner n) _ :=
      decides_declareName fun z hz => h.since ha z hz type n.name
    have hwalk := hname.walk ha
    exact comes_cons (.here ha trivial) (comes_only (.after ha hwalk (h.walk ha hwalk)))

theorem calls_varDecl (ha : Sound a) (h : CanDeclare role owner a) (d : VarDecl) :
    ∀ c ∈ (varDecl role owner d).calls a, Comes a c := by
  have hwalk := (decides_resolve (Place.since a) d.type).walk ha
  exact comes_cons (.here ha trivial) (forall_mem_andThen fun _ _ =>
    comes_only (.after ha hwalk (h.walk ha hwalk)))

theorem calls_declareInit (ha : Sound a) (h : CanDeclare role owner a) (node : NodeId)
    (ns : List Ident) (span : Span) : (type value : Option TypeId) →
    ∀ c ∈ (declareInit node role owner ns type value span).calls a, Comes a c
  | some type, some value => by
    have hwalk := (decides_initialMode (p := Place.since a) type value span).walk ha
    exact forall_mem_andThen fun _ _ => comes_only (.after ha hwalk (h.walk ha hwalk))
  | none, _ | some _, none => List.forall_mem_nil _

theorem calls_initDecl (ha : Sound a) (h : InBody a) (d : InitDecl) :
    ∀ c ∈ (initDecl d).calls a, Comes a c := by
  have hwalk := (decides_resolve (Place.since a) d.type).walk ha
  have hwalk' := hwalk.trans (walk_operand (ha.walk hwalk) d.value)
  exact comes_cons (.here ha trivial) (comes_cons (.after ha hwalk trivial)
    (comes_only (.after ha hwalk' (h.canDeclare.walk ha hwalk'))))

theorem calls_staticField (ha : Sound a) {inner : ScopeId} {type : TypeId}
    (h : Initializes inner type a) (f : StaticField) :
    ∀ c ∈ (staticField type inner f).calls a, Comes a c := by
  have hvalue := walk_initialValue ha h f.init
  have hwalk := hvalue.trans ((decides_resolve (Place.since _) f.decl.type).walk (ha.walk hvalue))
  exact comes_cons (.inside ha h.enterable trivial) (comes_cons (.after ha hvalue trivial)
    (comes_only (.after ha hwalk ((h.inType.canDeclare ha rfl).walk ha hwalk))))

theorem calls_staticFields (ha : Sound a) {inner : ScopeId} {type : TypeId}
    (h : Initializes inner type a) :
    (fs : List StaticField) → ∀ c ∈ (staticFields type inner fs).calls a, Comes a c
  | [] => List.forall_mem_nil _
  | f :: _ => by
    have hwalk := (outcome_staticField (h.inType.at_type ha) f).walk
    exact comes_cons (.here ha h) (comes_only (.after ha hwalk (h.after_staticField ha f)))

theorem calls_instanceFields (ha : Sound a) {inner : ScopeId} {type : TypeId}
    (h : InType inner type a) :
    (ds : List VarDecl) → ∀ c ∈ (instanceFields type ds).calls a, Comes a c
  | [] => List.forall_mem_nil _
  | d :: _ => by
    have hwalk : Walk _ a _ := .steps (decides_instanceFields [d] a (h.at_type ha)).1
    exact comes_cons (.here ha (h.canDeclare ha rfl))
      (comes_only (.after ha hwalk ⟨inner, h.walk hwalk⟩))

theorem calls_routineName (ha : Sound a) (member : Option Membership) (r : RoutineDef) :
    (params : Option (List TypeId)) → (result : Option (Option TypeId)) →
    ∀ c ∈ routineName member r params result a, Comes a c
  | some params, some result => by
    have hwalk := (decides_refuseMember (p := Place.since a) member r.name params).walk ha
    rw [routineName]
    split
    · rename_i hrun
      rw [hrun] at hwalk
      exact comes_only (.after ha hwalk trivial)
    · exact List.forall_mem_nil _
  | none, _ | some _, none => List.forall_mem_nil _

theorem calls_declareRoutine (ha : Sound a) (member : Option Membership) (r : RoutineDef) :
    ∀ c ∈ (declareRoutine member r).calls a, Comes a c := by
  have hparams := (decides_resolveAll (Place.since a) (r.params.map (·.type))).walk ha
  have hb := ha.walk hparams
  have hresult := (decides_resolveResult (Place.since _) r.result).walk hb
  refine comes_cons (.here ha trivial) (comes_cons (.after ha hparams trivial) fun c hc => ?_)
  exact .trans (.walk .refl (hparams.trans hresult))
    (calls_routineName (hb.walk hresult) member r _ _ c hc)

theorem calls_declareMembers (ha : Sound a) {member : Membership}
    (h : Hosts a.current (some member) a) (rs : List RoutineDef) :
    ∀ c ∈ (declareMembers member rs).calls a, Comes a c := by
  cases rs with
  | nil => exact List.forall_mem_nil _
  | cons r =>
    have hs := (declareRoutine_spec r (h.since ha) (Place.at_since ha)).steps
    refine comes_cons (.here ha h) (comes_only (.after ha (.steps hs) ?_))
    rw [Given, hs.current_eq]
    exact h.grows ha.has hs.grows

theorem calls_sourcesOf (ha : Sound a) :
    (xs : List (String × TypeId)) → ∀ c ∈ (sourcesOf xs).calls a, Comes a c
  | [] => List.forall_mem_nil _
  | (n, _) :: _ => comes_cons (.here ha trivial)
      (comes_only (.after ha (walk_lookup ha n) trivial))

end Declarations

/-! ## Statements -/

theorem calls_assign (ha : Sound a) (x : Assignment) : ∀ c ∈ (assign x).calls a, Comes a c :=
  comes_cons (.here ha trivial)
    (comes_only (.after ha ((decides_chain (Place.since a) x.target).walk ha) trivial))

theorem calls_checkReturn (ha : Sound a) (r : RoutineDef) (result : Option TypeId) :
    ∀ c ∈ (checkReturn r result).calls a, Comes a c := by
  rw [calls]
  split
  · exact comes_only (.here ha trivial)
  · exact List.forall_mem_nil _

theorem calls_stmt (ha : Sound a) (h : InBody a) (x : Stmt) :
    ∀ c ∈ (stmt x).calls a, Comes a c := by
  cases x with
  | declare => exact comes_only (.here ha h.canDeclare)
  | define | loop | type => exact comes_only (.here ha h)
  | assign | call => exact comes_only (.here ha trivial)
  | branch gs =>
    have hwalk := ((analysed_guardedAll gs).outcome ha h).walk
    exact comes_cons (.here ha h) (comes_only (.after ha hwalk (h.walk ha hwalk)))
  | routine r =>
    have hhosts : Hosts a.current none a := h
    have hx := declareRoutine_spec r (hhosts.since ha) (Place.at_since ha)
    exact comes_cons (.here ha h) (forall_mem_andThen fun _ hd =>
      comes_only (.after ha (.steps hx.steps) (hx.waits ha hd)))

theorem calls_stmts (ha : Sound a) (h : InBody a) (xs : List Stmt) :
    ∀ c ∈ (stmts xs).calls a, Comes a c := by
  cases xs with
  | nil => exact List.forall_mem_nil _
  | cons x =>
    have hwalk := ((analysed_stmt x).outcome ha h).walk
    exact comes_cons (.here ha h) (comes_only (.after ha hwalk (h.walk ha hwalk)))

theorem calls_guarded (ha : Sound a) (h : InBody a) (g : Guarded) :
    ∀ c ∈ (guarded g).calls a, Comes a c := by
  obtain ⟨node, condition, _, _⟩ := g
  have hx := openBlock_spec node ha h
  have hb := ha.steps hx.steps
  have hs := hx.enterable ha
  have hwalk := (decides_checkCondition (p := Place.since _) condition).walk (hs.sound hb)
  have hbody := hx.inBody
  refine comes_cons (.trans (.steps hx.steps) (.inside hb hs trivial)) (comes_only ?_)
  exact .trans ((Passes.steps hx.steps).enter hs)
    (.after (hs.sound hb) hwalk (hbody.walk (hs.sound hb) hwalk))

theorem calls_guardedAll (ha : Sound a) (h : InBody a) (gs : List Guarded) :
    ∀ c ∈ (guardedAll gs).calls a, Comes a c := by
  cases gs with
  | nil => exact List.forall_mem_nil _
  | cons g =>
    have hwalk := ((analysed_guarded g).outcome ha h).walk
    exact comes_cons (.here ha h) (comes_only (.after ha hwalk (h.walk ha hwalk)))

theorem calls_elseBlock (ha : Sound a) (h : InBody a) (e : Else) :
    ∀ c ∈ (elseBlock e).calls a, Comes a c := by
  cases e with
  | absent => exact List.forall_mem_nil _
  | block node =>
    have hx := openBlock_spec node ha h
    exact comes_only (.trans (.steps hx.steps)
      (.inside (ha.steps hx.steps) (hx.enterable ha) hx.inBody))

/-! ## Definitions -/

theorem calls_routineBody {r : RoutineDef} {d : DeclaredRoutine} (ha : Sound a)
    (h : Waits a r d) : ∀ c ∈ (routineBody d r).calls a, Comes a c := by
  have hs := h.enterable
  have hin := hs.sound ha
  have hbody := ((analysed_stmts r.body).outcome hin h.inBody).walk
  have hreturn := hbody.trans
    ((decides_checkReturn (p := Place.since _) r d.result).walk (hin.walk hbody))
  exact comes_cons (.inside ha hs h.inBody)
    (comes_cons (.trans (.enter .refl hs) (.after hin hbody trivial))
      (comes_only (.back ha hs hreturn (hreturn.grows.scopes.has (Scopes.has_of_parent hs.parent)))))

theorem calls_routineBodies (ha : Sound a) : (ds : List (Option DeclaredRoutine)) →
    (rs : List RoutineDef) → AllWait a rs ds → ∀ c ∈ (routineBodies ds rs).calls a, Comes a c
  | some d :: _, r :: _, h => by
    have hfirst := h.cons.1 d rfl
    have hwalk := (bodyAnalysed ha hfirst.toEntry (analysed_stmts r.body)).outcome.walk
    exact comes_cons (.here ha hfirst) (comes_only (.after ha hwalk (h.behind ha)))
  | none :: _, _ :: _, h => comes_only (.here ha h.cons.2.1)
  | [], _, _ => List.forall_mem_nil _
  | none :: _, [], _ | some _ :: _, [], _ => List.forall_mem_nil _

theorem calls_memberRoutines (ha : Sound a) {inner : ScopeId} {type : TypeId}
    (h : InType inner type a) (rs rs' : List RoutineDef) :
    ∀ c ∈ (memberRoutines type rs rs').calls a, Comes a c := by
  have hx := declareMembers_spec ((h.hosts false).since ha) rs (Place.at_since ha)
  have hb := ha.steps hx.steps
  have hin : InType inner type _ := h.walk (.steps hx.steps)
  have hx' := declareMembers_spec ((hin.hosts true).since hb) rs' (Place.at_since hb)
  have hc := hb.steps hx'.steps
  have hwait := (hx.allWait ha).steps hb hx'.steps
  have hwait' := hx'.allWait hb
  have hbodies := (bodiesAnalysed rs hc hwait.toEntries (analysed_bodies rs)).outcome.walk
  refine comes_cons (.here ha (h.hosts false)) (comes_cons (.after ha (.steps hx.steps) (hin.hosts true))
    (comes_cons (.trans (.steps hx.steps) (.after hb (.steps hx'.steps) hwait)) (comes_only
      (.trans ((Passes.steps hx.steps).walk (.steps hx'.steps)) (.after hc hbodies ?_)))))
  refine hwait'.mono hbodies.grows hbodies.current_eq fun d hd => ?_
  refine untouched_routineBodies rs hc hwait (hwait'.parent hd) (fun e he heq => ?_)
    (hwait'.untouched d hd)
  exact hx'.new d hd (heq ▸ Scopes.has_of_parent (hx.entries.parent he))

theorem calls_members (ha : Sound a) (f : TypeFinding) (h : InType f.fieldInit f.type a)
    (hempty : (a.scopes.get f.fieldInit).captures = []) (fields : List VarDecl) (statics : List StaticField) (rs rs' : List RoutineDef) :
    ∀ c ∈ (members f fields statics rs rs').calls a, Comes a c := by
  have hsteps := (decides_instanceFields fields a (h.at_type ha)).1
  have hfields : Walk _ a _ := .steps hsteps
  have hb := ha.walk hfields
  have hin := h.walk hfields
  have hcaptures := (hsteps.captures_eq ha (Scopes.has_of_parent h.parent)
    (not_mem_path_of_parent ha h.parent)).trans hempty
  have hinit : Initializes f.fieldInit f.type _ := ⟨hin, Scopes.capturesNoMember_of_empty hcaptures⟩
  have hstatics := (outcome_staticFields statics (hin.at_type hb)).walk
  exact comes_cons (.here ha ⟨_, h⟩) (comes_cons (.after ha hfields hinit)
    (comes_only (.trans (.walk .refl hfields) (.after hb hstatics ⟨_, hin.walk hstatics⟩))))

theorem calls_typeDef (ha : Sound a) (h : InBody a) (d : TypeDef) :
    ∀ c ∈ (typeDef d).calls a, Comes a c := by
  have hx := openType_spec d.name (h.since ha) (Place.at_since ha)
  refine comes_cons (.here ha trivial) (forall_mem_andThen fun f hf => ?_)
  obtain ⟨hnew, c, hs, hentry⟩ := hx.opened f hf
  have hc := ha.steps hs
  have henter : Enterable c f.scope := ⟨hentry.parent, .inr (hs.untouched_new ha hnew)⟩
  obtain ⟨hopen, hplace⟩ := hentry.place hc
  have hinner : ¬ c.scopes.Has f.fieldInit := by
    rw [hentry.fieldInit]
    exact Nat.lt_irrefl _
  have hempty := (hopen.untouched_new (henter.sound hc) hinner).captures
  have hunit : f.unit = ((StateT.run (Analyze.openType d.name) a).2.scopes.get f.scope).unit :=
    hentry.unit.symm.trans
      (hopen.grows.scopes.head f.scope (Scopes.has_of_parent hentry.parent)).unit.symm
  have hmembers := (@outcome_members _ f d.fields d.staticFields _ _ hplace
    (analysed_bodies d.routines) (analysed_bodies d.staticRoutines)).walk
  have hback := Comes.back (T := captureSources f.scope) hc henter
    ((Walk.steps hopen).trans hmembers)
    (((Walk.steps hopen).trans hmembers).grows.scopes.has (Scopes.has_of_parent hentry.parent))
  have hcur : ((Analyze.openType d.name).run a).2.current = c.current := by rw [hentry.tables]
  rw [← hcur] at hback
  exact comes_cons (.trans ((Passes.steps hs).enter henter)
    (.after (henter.sound hc) (.steps hopen) ⟨hplace.holds, hempty, rfl, hunit⟩))
    (comes_only (.trans (.steps hs) hback))

theorem Ready.calls {T : Task} (h : T.Ready a) : ∀ c ∈ T.calls a, Comes a c := by
  obtain ⟨ha, h⟩ := h
  cases T with
  | name => exact List.forall_mem_nil _
  | resolve t => exact calls_resolve ha t
  | resolveAll ts => exact calls_resolveAll ha ts
  | resolveResult t => exact calls_resolveResult ha t
  | expr e => exact calls_expr ha e
  | arguments es => exact calls_arguments ha es
  | chain c => exact calls_chain ha c
  | headLink hasMore l => exact calls_headLink ha hasMore l
  | memberLink before l => exact calls_memberLink ha before l
  | memberLinks before ls => exact calls_memberLinks ha before ls
  | declareNames type role owner ns => exact calls_declareNames ha h type ns
  | varDecl role owner d => exact calls_varDecl ha h d
  | declareInit node role owner ns type value span =>
    exact calls_declareInit ha h node ns span type value
  | initDecl d => exact calls_initDecl ha h d
  | staticField type inner f => exact calls_staticField ha h f
  | staticFields type inner fs => exact calls_staticFields ha h fs
  | instanceFields type ds =>
    obtain ⟨inner, h⟩ := h
    exact calls_instanceFields ha h ds
  | declareRoutine member r => exact calls_declareRoutine ha member r
  | declareMembers member rs => exact calls_declareMembers ha h rs
  | openType n => exact comes_only (.here ha trivial)
  | sourcesOf xs => exact calls_sourcesOf ha xs
  | captureSources s => exact comes_only (.here ha trivial)
  | assign x => exact calls_assign ha x
  | checkCondition e => exact comes_only (.here ha trivial)
  | checkReturn r result => exact calls_checkReturn ha r result
  | stmt x => exact calls_stmt ha h x
  | stmts xs => exact calls_stmts ha h xs
  | guarded g => exact calls_guarded ha h g
  | guardedAll gs => exact calls_guardedAll ha h gs
  | elseBlock e => exact calls_elseBlock ha h e
  | routineBody d r => exact calls_routineBody ha h
  | routineBodies ds rs => exact calls_routineBodies ha ds rs h
  | memberRoutines type rs rs' =>
    obtain ⟨inner, h⟩ := h
    exact calls_memberRoutines ha h rs rs'
  | members f fields statics rs rs' => exact calls_members ha f h.1 h.2.1 fields statics rs rs'
  | typeDef d => exact calls_typeDef ha h d

end Task

/-! ## Reached states -/

variable {program : String} {q : Program} {T : Task}

theorem inBody_initial (program : String) : InBody (initial program) := by
  have hs := steps_initial program
  rw [InBody, hs.current_eq, hs.grows.scopes.kind_eq (s := (blank program).current) Nat.one_pos]
  rfl

theorem Reached.comes (h : Reached program q T a) : Task.Comes (initial program) (T, a) := by
  induction h with
  | start => exact .here (sound_initial program) (inBody_initial program)
  | call _ hc ih => exact .trans ih.passes (ih.ready.calls _ hc)

/-- A state that is reached is sound. -/
theorem Reached.sound (h : Reached program q T a) : Sound a := h.comes.ready.sound

/-- A walk from the start passes through every state that is reached. -/
theorem Reached.passes (h : Reached program q T a) : Passes (initial program) a := h.comes.passes

end Unnest.Analysis
