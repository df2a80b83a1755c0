import Unnest.Proofs.Analysis.Reached
import Unnest.Proofs.Analysis.Sparing

/-!
# What calls spare

A part of the analysis that starts at a horizon comes back with what the horizon does not
own as it was (`Analysis.Spares`).  So it is in every state on the way: a task is called in
a state in which the scopes that are not owned declare what they declared, and the older
types are what they were (`Fixed`).

`Task.Within` says which scopes and types that a task is given have to be new.  They are
when a task is called by one that was given new ones (`Task.Within.calls`).
-/

namespace Unnest.Analysis

open Analyze

variable {h : Horizon} {a b c : Analysis} {T : Task}

/-- The scopes that a horizon does not own are the same but for captures and slots, and the
older types are the same. -/
structure Fixed (h : Horizon) (a b : Analysis) : Prop where
  core : ∀ s, ¬ h.Owns s → (b.scopes.get s).core = (a.scopes.get s).core
  types : ∀ t : TypeId, t.index < h.types → b.types.get t = a.types.get t

theorem Fixed.refl (h : Horizon) (a : Analysis) : Fixed h a a := ⟨fun _ _ => rfl, fun _ _ => rfl⟩

theorem Fixed.trans (hab : Fixed h a b) (hbc : Fixed h b c) : Fixed h a c :=
  ⟨fun s hs => (hbc.core s hs).trans (hab.core s hs),
    fun t ht => (hbc.types t ht).trans (hab.types t ht)⟩

theorem Fixed.of_upto {n : Nat} (hab : Fixed (h.upto n) a b) : Fixed h a b :=
  ⟨hab.core, hab.types⟩

/-- The walk is somewhere else in the same tables. -/
theorem fixed_enter (h : Horizon) (a : Analysis) (s : ScopeId) :
    Fixed h a { a with current := s } := ⟨fun _ _ => rfl, fun _ _ => rfl⟩

theorem Spares.fixed {K : Set Key} (hs : Spares h K a b) : Fixed h a b :=
  ⟨hs.scopes.core, hs.types⟩

theorem notes_univ (n : NodeId) : Notes Set.univ n := fun _ _ _ => Set.mem_univ _

theorem annotates_univ (n : NodeId) : Annotates Set.univ n := fun _ => Set.mem_univ _

namespace Task

/-- The scopes and types that a task may change are new. -/
def Within (h : Horizon) : Task → Prop
  | instanceFields type _ | memberRoutines type _ _ => h.types ≤ type.index
  | staticField type inner _ | staticFields type inner _ =>
    h.types ≤ type.index ∧ h.Reaches inner
  | declareRoutine member _ => ∀ m ∈ member, h.types ≤ m.type.index
  | declareMembers member _ => h.types ≤ member.type.index
  | members f _ _ _ _ => IsNewType h f
  | routineBody d _ => IsNew h d
  | routineBodies ds _ => ∀ d, some d ∈ ds → IsNew h d
  | name _ | resolve _ | resolveAll _ | resolveResult _ | expr _ | arguments _ | chain _
  | headLink _ _ | memberLink _ _ | memberLinks _ _ | declareNames _ _ _ _ | varDecl _ _ _
  | declareInit _ _ _ _ _ _ _ | initDecl _ | openType _ | sourcesOf _ | captureSources _
  | assign _ | checkCondition _ | checkReturn _ _ | stmt _ | stmts _ | guarded _ | guardedAll _
  | elseBlock _ | typeDef _ => True

/-- A call from some state, of a task that is given new scopes and types. -/
structure Under (h : Horizon) (a : Analysis) (call : Call) : Prop where
  confined : Confined h call.2
  within : call.1.Within (h.upto call.2.scopes.size)
  fixed : Fixed h a call.2

namespace Under

theorem here (ha : Confined h a) (hT : T.Within (h.upto a.scopes.size)) : Under h a (T, a) :=
  ⟨ha, hT, .refl h a⟩

/-- Behind a part that keeps what is not owned. -/
theorem after {α : Type} {m : Analyze α} (hm : Keeps h Set.univ m) (ha : Confined h a)
    (hT : T.Within (h.upto (m.run a).2.scopes.size)) : Under h a (T, (m.run a).2) := by
  obtain ⟨hb, hs, -⟩ := hm a ha
  exact ⟨hb, hT, hs.fixed⟩

theorem trans {call : Call} (hab : Fixed h a b) (hc : Under h b call) : Under h a call :=
  ⟨hc.confined, hc.within, hab.trans hc.fixed⟩

/-- In a scope that was opened. -/
theorem inside {s : ScopeId} (ha : Confined h a) (hs : (h.upto a.scopes.size).Reaches s)
    (hT : T.Within (h.upto a.scopes.size)) : Under h a (T, { a with current := s }) :=
  ⟨(ha.upto.enter hs).of_upto ha.scopes.opened_le, hT, fixed_enter h a s⟩

theorem of_upto {n : Nat} {call : Call} (hu : Under (h.upto n) a call) (hn : h.opened ≤ n) :
    Under h a call :=
  ⟨hu.confined.of_upto hn, hu.within, hu.fixed.of_upto⟩

end Under

theorem under_cons {c : Call} {cs : List Call} (hc : Under h a c) (hcs : ∀ c ∈ cs, Under h a c) :
    ∀ c' ∈ c :: cs, Under h a c' :=
  List.forall_mem_cons.mpr ⟨hc, hcs⟩

theorem under_only {c : Call} (hc : Under h a c) : ∀ c' ∈ [c], Under h a c' :=
  under_cons hc (List.forall_mem_nil _)

theorem under_none : ∀ c ∈ ([] : List Call), Under h a c := List.forall_mem_nil _

variable (ha : Confined h a)
include ha

/-! ## Types and expressions -/

theorem under_resolve (t : WrittenType) : ∀ c ∈ (resolve t).calls a, Under h a c := by
  cases t with
  | named => exact under_only (.here ha trivial)
  | routine params =>
    exact under_cons (.here ha trivial) (under_only (.after (keeps_resolveAll params) ha trivial))

theorem under_resolveAll (ts : List WrittenType) : ∀ c ∈ (resolveAll ts).calls a, Under h a c := by
  cases ts with
  | nil => exact under_none
  | cons t => exact under_cons (.here ha trivial) (under_only (.after (keeps_resolve t) ha trivial))

theorem under_resolveResult (t : Option WrittenType) :
    ∀ c ∈ (resolveResult t).calls a, Under h a c := by
  cases t with
  | none => exact under_none
  | some => exact under_only (.here ha trivial)

omit ha in
theorem keeps_anyOperand (e : Expr) : Keeps h Set.univ (operand e) :=
  keeps_operand e fun _ _ => notes_univ _

theorem under_expr (e : Expr) : ∀ c ∈ (expr e).calls a, Under h a c := by
  cases e with
  | literal => exact under_none
  | binary _ _ left =>
    exact under_cons (.here ha trivial) (under_only (.after (keeps_anyOperand left) ha trivial))
  | unary | paren | chain => exact under_only (.here ha trivial)

theorem under_arguments (es : List Expr) : ∀ c ∈ (arguments es).calls a, Under h a c := by
  cases es with
  | nil => exact under_none
  | cons e =>
    exact under_cons (.here ha trivial) (under_only (.after (keeps_anyOperand e) ha trivial))

theorem under_chain (c : Chain) : ∀ c' ∈ (chain c).calls a, Under h a c' := by
  obtain ⟨_, links, _⟩ := c
  cases links with
  | nil => exact under_none
  | cons head rest =>
    have hhead : Keeps h Set.univ (Analyze.headLink (!rest.isEmpty) head) :=
      keeps_headLink _ head fun _ _ => notes_univ _
    exact under_cons (.here ha trivial)
      (forall_mem_andThen fun _ _ => under_only (.after hhead ha trivial))

theorem under_headLink (hasMore : Bool) (l : Link) :
    ∀ c ∈ (headLink hasMore l).calls a, Under h a c := by
  cases l with
  | bare => exact under_only (.here ha trivial)
  | call _ n args =>
    have hlookup : Under h a (arguments args, ((lookup n.name).run a).2) :=
      .after (keeps_lookup n.name) ha trivial
    refine under_cons (.here ha trivial) ?_
    rw [headArguments]
    split
    · rename_i hrun
      rw [hrun] at hlookup
      exact under_only hlookup
    · exact under_none
    · rename_i hrun
      rw [hrun] at hlookup
      split
      · exact under_only hlookup
      · exact under_none

theorem under_memberLink (before : Produced) (l : Link) :
    ∀ c ∈ (memberLink before l).calls a, Under h a c := by
  cases l with
  | bare => exact under_none
  | call =>
    rw [calls]
    split
    · exact under_only (.here ha trivial)
    · exact under_none

theorem under_memberLinks (before : Produced) (ls : List Link) :
    ∀ c ∈ (memberLinks before ls).calls a, Under h a c := by
  cases ls with
  | nil => exact under_none
  | cons l =>
    have hlink : Keeps h Set.univ (Analyze.memberLink before l) :=
      keeps_memberLink before l fun _ _ => notes_univ _
    exact under_cons (.here ha trivial)
      (forall_mem_andThen fun _ _ => under_only (.after hlink ha trivial))

/-! ## Declarations -/

section Declarations

variable {type : TypeId} {role : Role} {owner : Option TypeId} {inner : ScopeId}

omit ha in
theorem keeps_declareName (type : TypeId) (role : Role) (owner : Option TypeId) (n : Ident) :
    Keeps h Set.univ (declareName type role owner n) := by
  refine (keeps_refuseName n).next fun refused => ?_
  cases refused with
  | true => exact .done
  | false => exact .currentScope fun s hs => keeps_declare hs _ _

theorem under_declareNames (ns : List Ident) :
    ∀ c ∈ (declareNames type role owner ns).calls a, Under h a c := by
  cases ns with
  | nil => exact under_none
  | cons n =>
    exact under_cons (.here ha trivial)
      (under_only (.after (keeps_declareName type role owner n) ha trivial))

theorem under_varDecl (d : VarDecl) : ∀ c ∈ (varDecl role owner d).calls a, Under h a c :=
  under_cons (.here ha trivial) (forall_mem_andThen fun _ _ =>
    under_only (.after (keeps_resolve d.type) ha trivial))

theorem under_declareInit (node : NodeId) (ns : List Ident) (span : Span)
    (type value : Option TypeId) :
    ∀ c ∈ (declareInit node role owner ns type value span).calls a, Under h a c := by
  cases type with
  | none => exact under_none
  | some type =>
    cases value with
    | none => exact under_none
    | some value =>
      exact forall_mem_andThen fun _ _ =>
        under_only (.after (keeps_initialMode type value span) ha trivial)

theorem under_initDecl (d : InitDecl) : ∀ c ∈ (initDecl d).calls a, Under h a c := by
  have hvalue : Keeps h Set.univ (Analyze.resolve d.type >>= fun _ => operand d.value) :=
    (keeps_resolve d.type).next fun _ => keeps_anyOperand d.value
  exact under_cons (.here ha trivial) (under_cons (.after (keeps_resolve d.type) ha trivial)
    (under_only (.after hvalue ha trivial)))

theorem under_staticField (f : StaticField)
    (hT : (staticField type inner f).Within (h.upto a.scopes.size)) :
    ∀ c ∈ (staticField type inner f).calls a, Under h a c := by
  have hvalue : Keeps (h.upto a.scopes.size) Set.univ (inScope inner (operand f.init)) :=
    .inScope hT.2 (keeps_anyOperand f.init)
  have hdeclared : Keeps (h.upto a.scopes.size) Set.univ
      (inScope inner (operand f.init) >>= fun _ => Analyze.resolve f.decl.type) :=
    hvalue.next fun _ => keeps_resolve f.decl.type
  have hopened := ha.scopes.opened_le
  exact under_cons (.inside ha hT.2 trivial)
    (under_cons (.of_upto (.after hvalue ha.upto trivial) hopened)
      (under_only (.of_upto (.after hdeclared ha.upto trivial) hopened)))

theorem under_staticFields (fs : List StaticField)
    (hT : (staticFields type inner fs).Within (h.upto a.scopes.size)) :
    ∀ c ∈ (staticFields type inner fs).calls a, Under h a c := by
  cases fs with
  | nil => exact under_none
  | cons f =>
    have hfield : Keeps (h.upto a.scopes.size) Set.univ (Analyze.staticField type inner f) :=
      keeps_staticField hT.1 hT.2 f fun _ _ => notes_univ _
    have hle := (hfield a ha.upto).2.1.scopes.size_le
    exact under_cons (.here ha hT)
      (under_only (.of_upto (.after hfield ha.upto ⟨hT.1, Horizon.Reaches.upto hT.2 hle⟩)
        ha.scopes.opened_le))

theorem under_instanceFields (ds : List VarDecl)
    (hT : (instanceFields type ds).Within (h.upto a.scopes.size)) :
    ∀ c ∈ (instanceFields type ds).calls a, Under h a c := by
  cases ds with
  | nil => exact under_none
  | cons d =>
    have htype : h.types ≤ type.index := hT
    have hfields : Keeps h Set.univ (Analyze.instanceFields type [d]) :=
      keeps_instanceFields htype [d] fun _ _ => notes_univ _
    exact under_cons (.here ha trivial) (under_only (.after hfields ha hT))

theorem under_routineName (member : Option Membership) (r : RoutineDef)
    (params : Option (List TypeId)) (result : Option (Option TypeId)) :
    ∀ c ∈ routineName member r params result a, Under h a c := by
  cases params with
  | none => exact under_none
  | some params =>
    cases result with
    | none => exact under_none
    | some result =>
      have hname : Under h a (name r.name.name, ((refuseMember member r.name params).run a).2) :=
        .after (keeps_refuseMember member r.name params) ha trivial
      rw [routineName]
      split
      · rename_i hrun
        rw [hrun] at hname
        exact under_only hname
      · exact under_none

theorem under_declareRoutine (member : Option Membership) (r : RoutineDef) :
    ∀ c ∈ (declareRoutine member r).calls a, Under h a c := by
  have hparams : Keeps h Set.univ (Analyze.resolveAll (r.params.map (·.type))) :=
    keeps_resolveAll _
  have hresult : Keeps h Set.univ
      (Analyze.resolveAll (r.params.map (·.type)) >>= fun _ => Analyze.resolveResult r.result) :=
    hparams.next fun _ => keeps_resolveResult _
  refine under_cons (.here ha trivial) (under_cons (.after hparams ha trivial) fun c hc => ?_)
  obtain ⟨hb, hs, -⟩ := hresult a ha
  exact .trans hs.fixed (under_routineName hb member r _ _ c hc)

theorem under_declareMembers {member : Membership} (rs : List RoutineDef)
    (hT : (declareMembers member rs).Within (h.upto a.scopes.size)) :
    ∀ c ∈ (declareMembers member rs).calls a, Under h a c := by
  cases rs with
  | nil => exact under_none
  | cons r =>
    have hmember : ∀ m ∈ some member, h.types ≤ m.type.index := by
      rintro _ ⟨⟩
      exact hT
    have hroutine : Keeps h Set.univ (Analyze.declareRoutine (some member) r) :=
      (stays_declareRoutine hmember (Set.mem_univ _)).forget
    exact under_cons (.here ha hmember) (under_only (.after hroutine ha hT))

theorem under_sourcesOf (xs : List (String × TypeId)) :
    ∀ c ∈ (sourcesOf xs).calls a, Under h a c := by
  cases xs with
  | nil => exact under_none
  | cons x =>
    exact under_cons (.here ha trivial) (under_only (.after (keeps_lookup x.1) ha trivial))

end Declarations

/-! ## Statements -/

theorem under_assign (x : Assignment) : ∀ c ∈ (assign x).calls a, Under h a c := by
  have htarget : Keeps h Set.univ (Analyze.chain x.target) :=
    keeps_chain x.target (notes_univ _) fun _ _ => notes_univ _
  exact under_cons (.here ha trivial) (under_only (.after htarget ha trivial))

theorem under_checkReturn (r : RoutineDef) (result : Option TypeId) :
    ∀ c ∈ (checkReturn r result).calls a, Under h a c := by
  rw [calls]
  split
  · exact under_only (.here ha trivial)
  · exact under_none

theorem under_stmt (x : Stmt) : ∀ c ∈ (stmt x).calls a, Under h a c := by
  cases x with
  | declare | define | loop | type | assign | call => exact under_only (.here ha trivial)
  | branch gs =>
    have hgs : Keeps h Set.univ (Analyze.guardedAll gs) :=
      keeps_guardedAll gs fun _ _ => annotates_univ _
    exact under_cons (.here ha trivial) (under_only (.after hgs ha trivial))
  | routine r =>
    have hr : Stays h Set.univ (Analyze.declareRoutine none r) fun h' o => ∀ d ∈ o, IsNew h' d :=
      stays_declareRoutine (by simp) (Set.mem_univ _)
    refine under_cons (.here ha (by simp [Within])) (forall_mem_andThen fun d hd => ?_)
    obtain ⟨hb, hs, hnew⟩ := hr a ha
    exact under_only ⟨hb, hnew d hd, hs.fixed⟩

theorem under_stmts (xs : List Stmt) : ∀ c ∈ (stmts xs).calls a, Under h a c := by
  cases xs with
  | nil => exact under_none
  | cons x =>
    have hx : Keeps h Set.univ (Analyze.stmt x) := keeps_stmt x fun _ _ => annotates_univ _
    exact under_cons (.here ha trivial) (under_only (.after hx ha trivial))

theorem under_guarded (g : Guarded) : ∀ c ∈ (guarded g).calls a, Under h a c := by
  obtain ⟨node, condition, body, _⟩ := g
  obtain ⟨hb, hs, hscope⟩ := stays_openBlock (h := h) (K := Set.univ) (notes_univ node) a ha
  have hcondition : Keeps h Set.univ (Analyze.checkCondition condition) :=
    keeps_checkCondition condition fun _ _ => notes_univ _
  have hin : Confined h { ((openBlock node).run a).2 with current := ((openBlock node).run a).1 } :=
    (hb.upto.enter hscope).of_upto hb.scopes.opened_le
  exact under_cons (.trans hs.fixed (.inside hb hscope trivial))
    (under_only (.trans (hs.fixed.trans (fixed_enter ..))
      (.after (T := stmts body) hcondition hin trivial)))

theorem under_guardedAll (gs : List Guarded) : ∀ c ∈ (guardedAll gs).calls a, Under h a c := by
  cases gs with
  | nil => exact under_none
  | cons g =>
    have hg : Keeps h Set.univ (Analyze.guarded g) := keeps_guarded g fun _ _ => annotates_univ _
    exact under_cons (.here ha trivial) (under_only (.after hg ha trivial))

theorem under_elseBlock (e : Else) : ∀ c ∈ (elseBlock e).calls a, Under h a c := by
  cases e with
  | absent => exact under_none
  | block node =>
    obtain ⟨hb, hs, hscope⟩ := stays_openBlock (h := h) (K := Set.univ) (notes_univ node) a ha
    exact under_only (.trans hs.fixed (.inside hb hscope trivial))

/-! ## Definitions -/

omit ha in
theorem isNew_upto {d : DeclaredRoutine} {m n : Nat} (hd : IsNew (h.upto m) d) (hmn : m ≤ n) :
    IsNew (h.upto n) d :=
  Horizon.Reaches.upto (h := h.upto m) hd hmn

theorem under_routineBody {d : DeclaredRoutine} (r : RoutineDef)
    (hd : IsNew (h.upto a.scopes.size) d) : ∀ c ∈ (routineBody d r).calls a, Under h a c := by
  have hopened := ha.scopes.opened_le
  have hin := ha.upto.enter hd
  have hbody : Keeps (h.upto a.scopes.size) Set.univ (Analyze.stmts r.body) :=
    keeps_stmts r.body fun _ _ => annotates_univ _
  have hreturn : Keeps (h.upto a.scopes.size) Set.univ
      (Analyze.stmts r.body >>= fun _ => Analyze.checkReturn r d.result) :=
    hbody.next fun _ => keeps_checkReturn r d.result fun _ _ => notes_univ _
  obtain ⟨hc, hs, -⟩ := Stays.inScope hd hreturn a ha.upto
  exact under_cons (.inside ha hd trivial)
    (under_cons (.of_upto (.trans (fixed_enter ..)
      (.after (T := checkReturn r d.result) hbody hin trivial)) hopened)
      (under_only ⟨hc.of_upto hopened, trivial, hs.fixed.of_upto⟩))

theorem under_routineBodies (ds : List (Option DeclaredRoutine)) (rs : List RoutineDef)
    (hds : ∀ d, some d ∈ ds → IsNew (h.upto a.scopes.size) d) :
    ∀ c ∈ (routineBodies ds rs).calls a, Under h a c := by
  cases ds with
  | nil => exact under_none
  | cons d ds =>
    have hrest : ∀ d', some d' ∈ ds → IsNew (h.upto a.scopes.size) d' := fun d' hd' =>
      hds d' (List.mem_cons_of_mem _ hd')
    cases rs with
    | nil => cases d <;> exact under_none
    | cons r rs =>
      cases d with
      | none => exact under_only (.here ha hrest)
      | some d =>
        have hd := hds d List.mem_cons_self
        have hbody : Keeps (h.upto a.scopes.size) Set.univ (Analyze.routineBody d r) :=
          keeps_routineBody hd r fun _ _ => annotates_univ _
        have hle := (hbody a ha.upto).2.1.scopes.size_le
        exact under_cons (.here ha hd) (under_only (.of_upto (.after hbody ha.upto fun d' hd' =>
          isNew_upto (hrest d' hd') hle) ha.scopes.opened_le))

theorem under_memberRoutines {type : TypeId} (rs rs' : List RoutineDef)
    (htype : h.types ≤ type.index) :
    ∀ c ∈ (memberRoutines type rs rs').calls a, Under h a c := by
  obtain ⟨hb, hs, hds⟩ := stays_declareMembers (h := h) (K := Set.univ) (m := ⟨type, false⟩) htype
    rs (fun _ _ => Set.mem_univ _) a ha
  obtain ⟨hc, hs', hes⟩ := stays_declareMembers (h := h) (K := Set.univ) (m := ⟨type, true⟩) htype
    rs' (fun _ _ => Set.mem_univ _) _ hb
  have hle := hs'.scopes.size_le
  have hfixed := hs.fixed.trans hs'.fixed
  obtain ⟨hd, hs'', -⟩ := keeps_routineBodies (K := Set.univ) _ rs
    (fun d hd => isNew_upto (hds d hd) hle) (fun _ _ => annotates_univ _) _ hc.upto
  exact under_cons (.here ha htype) (under_cons ⟨hb, htype, hs.fixed⟩
    (under_cons ⟨hc, fun d hd => isNew_upto (hds d hd) hle, hfixed⟩
      (under_only ⟨hd.of_upto hc.scopes.opened_le, fun d hmem =>
        isNew_upto (hes d hmem) hs''.scopes.size_le, hfixed.trans hs''.fixed.of_upto⟩)))

omit ha in
theorem keeps_memberRoutines {type : TypeId} (rs rs' : List RoutineDef)
    (htype : h.types ≤ type.index) : Keeps h Set.univ (Analysis.memberRoutines type rs rs') :=
  (stays_declareMembers (m := ⟨type, false⟩) htype rs fun _ _ => Set.mem_univ _).bind
    fun k ds _ hds => (stays_declareMembers (h := h.upto k) (m := ⟨type, true⟩) htype rs'
      fun _ _ => Set.mem_univ _).bind fun _ es hle hes =>
        (keeps_routineBodies ds rs (fun d hd => isNew_upto (hds d hd) hle)
          fun _ _ => annotates_univ _).next fun _ =>
            keeps_routineBodies es rs' hes fun _ _ => annotates_univ _

theorem under_members {f : TypeFinding} (fields : List VarDecl) (statics : List StaticField)
    (rs rs' : List RoutineDef) (hf : IsNewType (h.upto a.scopes.size) f) :
    ∀ c ∈ (members f fields statics rs rs').calls a, Under h a c := by
  have hfields : Keeps (h.upto a.scopes.size) Set.univ (Analyze.instanceFields f.type fields) :=
    keeps_instanceFields hf.type fields fun _ _ => notes_univ _
  have hstatics : Keeps (h.upto a.scopes.size) Set.univ
      (Analyze.instanceFields f.type fields >>= fun _ =>
        Analyze.staticFields f.type f.fieldInit statics) :=
    hfields.next fun _ => keeps_staticFields hf.type hf.fieldInit statics fun _ _ => notes_univ _
  have hopened := ha.scopes.opened_le
  have hle := (hfields a ha.upto).2.1.scopes.size_le
  exact under_cons (.here ha hf.type)
    (under_cons (.of_upto (.after hfields ha.upto ⟨hf.type, hf.fieldInit.upto hle⟩) hopened)
      (under_only (.of_upto (.after hstatics ha.upto hf.type) hopened)))

omit ha in
theorem keeps_members {f : TypeFinding} (fields : List VarDecl) (statics : List StaticField)
    (rs rs' : List RoutineDef) (hf : IsNewType h f) :
    Keeps h Set.univ (Analysis.members f fields statics rs rs') :=
  (keeps_instanceFields hf.type fields fun _ _ => notes_univ _).next fun _ =>
    (keeps_staticFields hf.type hf.fieldInit statics fun _ _ => notes_univ _).next fun _ =>
      keeps_memberRoutines rs rs' hf.type

theorem under_typeDef (d : TypeDef) : ∀ c ∈ (typeDef d).calls a, Under h a c := by
  obtain ⟨hb, hs, hnew⟩ := stays_openType (h := h) (K := Set.univ) d.name a ha
  refine under_cons (.here ha trivial) (forall_mem_andThen fun f hopen => ?_)
  have hf := hnew f hopen
  obtain ⟨hc, hs', -⟩ := Stays.inScope hf.scope
    (keeps_members d.fields d.staticFields d.routines d.staticRoutines hf) _ hb.upto
  have hmembers : Under h a (members f d.fields d.staticFields d.routines d.staticRoutines, _) :=
    .trans hs.fixed (.inside hb hf.scope hf)
  exact under_cons hmembers (under_only
    ⟨hc.of_upto hb.scopes.opened_le, trivial, hs.fixed.trans hs'.fixed.of_upto⟩)

/-- Every call of a task is in a state in which the rest is as it was. -/
theorem Within.calls (hT : T.Within (h.upto a.scopes.size)) : ∀ c ∈ T.calls a, Under h a c := by
  cases T with
  | name => exact under_none
  | resolve t => exact under_resolve ha t
  | resolveAll ts => exact under_resolveAll ha ts
  | resolveResult t => exact under_resolveResult ha t
  | expr e => exact under_expr ha e
  | arguments es => exact under_arguments ha es
  | chain c => exact under_chain ha c
  | headLink hasMore l => exact under_headLink ha hasMore l
  | memberLink before l => exact under_memberLink ha before l
  | memberLinks before ls => exact under_memberLinks ha before ls
  | declareNames type role owner ns => exact under_declareNames ha ns
  | varDecl role owner d => exact under_varDecl ha d
  | declareInit node role owner ns type value span =>
    exact under_declareInit ha node ns span type value
  | initDecl d => exact under_initDecl ha d
  | staticField type inner f => exact under_staticField ha f hT
  | staticFields type inner fs => exact under_staticFields ha fs hT
  | instanceFields type ds => exact under_instanceFields ha ds hT
  | declareRoutine member r => exact under_declareRoutine ha member r
  | declareMembers member rs => exact under_declareMembers ha rs hT
  | openType n => exact under_only (.here ha trivial)
  | sourcesOf xs => exact under_sourcesOf ha xs
  | captureSources s => exact under_only (.here ha trivial)
  | assign x => exact under_assign ha x
  | checkCondition e => exact under_only (.here ha trivial)
  | checkReturn r result => exact under_checkReturn ha r result
  | stmt x => exact under_stmt ha x
  | stmts xs => exact under_stmts ha xs
  | guarded g => exact under_guarded ha g
  | guardedAll gs => exact under_guardedAll ha gs
  | elseBlock e => exact under_elseBlock ha e
  | routineBody d r => exact under_routineBody ha r hT
  | routineBodies ds rs => exact under_routineBodies ha ds rs hT
  | memberRoutines type rs rs' => exact under_memberRoutines ha rs rs' hT
  | members f fields statics rs rs' => exact under_members ha fields statics rs rs' hT
  | typeDef d => exact under_typeDef ha d

end Task

end Unnest.Analysis
