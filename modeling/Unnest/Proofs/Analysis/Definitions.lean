import Unnest.Proofs.Analysis.Declarations
import Unnest.Proofs.Analysis.Sites

/-!
# Definitions are opened and closed

A routine that is declared gets a scope that is new and empty (`declareRoutine_spec`),
and so does a type (`openType_spec`).  What a definition captured is looked up from the
scope around it when the walk comes back, and every one of its captures is found
(`captureSources_spec`): the names still mean there what they meant inside.
-/

namespace Unnest.Analysis

open Analyze

variable {K L : Multiset Key} {p : Place} {a b z : Analysis}

/-! ## Routines -/

/-- The newest scope is that of a routine inside the current one. -/
structure Opened (d : ScopeId) (name : String) (memberOf : Option TypeId) (isStatic : Bool)
    (unit : UnitId) (a : Analysis) : Prop where
  newest : d.index + 1 = a.scopes.size
  parent : a.scopes.parent d = some a.current
  kind : (a.scopes.get d).kind = .routine
  name_eq : (a.scopes.get d).name = name
  memberOf_eq : (a.scopes.get d).memberOf = memberOf
  isStatic_eq : (a.scopes.get d).isStatic = isStatic
  unit_eq : (a.scopes.get d).unit = unit
  empty : (a.scopes.get d).captures = []
  fresh : ∀ e ∈ a.findings.routines, e.2.scope.index < d.index

/-- A routine is declared, and its body is still to come. -/
structure Entry (a : Analysis) (r : RoutineDef) (d : DeclaredRoutine) : Prop where
  parent : a.scopes.parent d.scope = some a.current
  kind : (a.scopes.get d.scope).kind = .routine
  empty : (a.scopes.get d.scope).captures = []
  name_eq : (a.scopes.get d.scope).name = r.name.name
  recorded : ∃ f, (r.node, f) ∈ a.findings.routines ∧ f.scope = d.scope ∧
    f.signature.result = d.result

theorem declareParam_spec {d : ScopeId} {name : String} {memberOf : Option TypeId}
    {isStatic : Bool} {unit : UnitId} (ho : Opened d name memberOf isStatic unit a) {b : Binding} (slot : b.slot = none)
    (role : b.role = .param) (span : Span) :
    Steps 0 a ((declare d b span).run a).2 ∧
      Opened d name memberOf isStatic unit ((declare d b span).run a).2 := by
  rw [run_declare]
  cases h : a.scopes.declare d b span with
  | error e => exact ⟨.step (.report a e), ⟨ho.1, ho.2, ho.3, ho.4, ho.5, ho.6, ho.7, ho.8, ho.9⟩⟩
  | ok result =>
    obtain ⟨b', scopes⟩ := result
    have hd := Scopes.declared_of_declare h
    have hhead := hd.head
    refine ⟨.step (.within (.param ho.newest ho.parent ho.kind slot role h) hd.size_eq),
      ⟨?_, ?_, ?_, ?_, ?_, ?_, ?_, ?_, ho.fresh⟩⟩
    · exact ho.newest.trans hd.size_eq.symm
    · exact hhead.parent.trans ho.parent
    · exact hhead.kind.trans ho.kind
    · exact hhead.name.trans ho.name_eq
    · exact hhead.memberOf.trans ho.memberOf_eq
    · exact hhead.isStatic.trans ho.isStatic_eq
    · exact hhead.unit.trans ho.unit_eq
    · exact hd.captures.trans ho.empty

theorem declareParams_spec {d : ScopeId} {name : String} {memberOf : Option TypeId}
    {isStatic : Bool} {unit : UnitId} : (ps : List (Param × TypeId)) → {a : Analysis} →
    Opened d name memberOf isStatic unit a → Steps 0 a ((declareParams d ps).run a).2 ∧
      Opened d name memberOf isStatic unit ((declareParams d ps).run a).2
  | [], a, ho => ⟨.refl a, ho⟩
  | (q, type) :: ps, a, ho => by
    obtain ⟨hs, hb⟩ := declareParam_spec ho
      (b := { name := q.name.name, type, role := .param }) rfl rfl q.name.span
    obtain ⟨hs', hc⟩ := declareParams_spec ps hb
    exact ⟨hs.trans hs', hc⟩

/-- A scope can have a routine of its own, or of the type that is being defined. -/
def Hosts (s : ScopeId) (member : Option Membership) (a : Analysis) : Prop :=
  match member with
  | none => (a.scopes.get s).kind.isBody = true
  | some m => (a.scopes.get s).kind = .type ∧ (a.scopes.get s).memberOf = some m.type ∧
      a.types.form m.type = .user

theorem Hosts.mayOpen {s : ScopeId} {member : Option Membership} (h : Hosts s member a) :
    Scopes.MayOpen (a.scopes.get s) .routine (member.map (·.type))
      ((member.map (·.isStatic)).getD false) := by
  cases member with
  | none => exact Or.inl ⟨h, rfl, rfl⟩
  | some m => exact Or.inr ⟨h.1, h.2.1.symm⟩

theorem Hosts.mayDeclare {s : ScopeId} {member : Option Membership} (h : Hosts s member a)
    (name : String) (type : TypeId) :
    Scopes.MayDeclare (a.scopes.get s) (routineBinding member name type) := by
  cases member with
  | none => exact Scopes.mayDeclare_of_isBody h rfl
  | some m =>
    rw [Scopes.MayDeclare, h.1]
    refine ⟨?_, h.2.1.symm⟩
    rw [routineBinding, Role.member]
    cases m.isStatic <;> rfl

/-- The scope of a routine is opened. -/
theorem opened_openMember (ha : Sound a) (name : String) (unit : UnitId)
    (memberOf : Option TypeId) (isStatic : Bool) (units : Units) :
    Opened ⟨a.scopes.size⟩ name memberOf isStatic unit { a with
      scopes := a.scopes.openMember a.current .routine name unit memberOf isStatic, units } := by
  have hnew := Scopes.agrees_openMember_new a.scopes a.current .routine name unit memberOf isStatic
  refine ⟨?_, hnew.head.parent, hnew.head.kind, hnew.head.name, hnew.head.memberOf,
    hnew.head.isStatic, hnew.head.unit, hnew.captures, fun e he => (ha.routines e he).has⟩
  exact (Scopes.size_openMember ..).symm

/-- What is recorded about a routine when its scope is opened in `a`. -/
def openedRoutine (a : Analysis) (member : Option Membership) (signature : Signature)
    (binding : Binding) (params : List Binding) : RoutineFinding where
  signature
  binding
  unit := ⟨a.units.size⟩
  scope := ⟨a.scopes.size⟩
  memberOf := member.map (·.type)
  isStatic := (member.map (·.isStatic)).getD false
  params
  captures := []

theorem run_openRoutine (r : RoutineDef) (member : Option Membership) (signature : Signature)
    (binding : Binding) (a : Analysis) :
    (openRoutine r member signature binding).run a =
      let x := (declareParams ⟨a.scopes.size⟩ (r.params.zip signature.params)).run { a with
        scopes := a.scopes.openMember a.current .routine r.name.name ⟨a.units.size⟩
          (member.map (·.type)) ((member.map (·.isStatic)).getD false)
        units := (a.units.plan (a.scopes.get a.current).unit r.name.name .routine none).2 }
      (⟨⟨a.scopes.size⟩, signature.result⟩, { x.2 with findings := { x.2.findings with
        routines := x.2.findings.routines.write r.node
          (openedRoutine a member signature binding x.1) } }) :=
  rfl

/-- Opening a routine makes a new and empty scope, and records the routine. -/
theorem openRoutine_spec (ha : Sound a) {member : Option Membership} {r : RoutineDef}
    {signature : Signature} {binding : Binding} (hhosts : Hosts a.current member a)
    (hfits : Scopes.Fits a.scopes a.current .routine r.name.name)
    (hb : binding ∈ (a.scopes.get a.current).entries) (hname : binding.name = r.name.name)
    (hvalue : a.types.form binding.type = .routine) :
    Steps {(.routines, r.node)} a ((openRoutine r member signature binding).run a).2 ∧
      Entry ((openRoutine r member signature binding).run a).2 r
        ((openRoutine r member signature binding).run a).1 ∧
      ¬ a.scopes.Has ((openRoutine r member signature binding).run a).1.scope := by
  rw [run_openRoutine]
  set units := (a.units.plan (a.scopes.get a.current).unit r.name.name .routine none).2 with hunits
  have ho := opened_openMember ha r.name.name ⟨a.units.size⟩ (member.map (·.type))
    ((member.map (·.isStatic)).getD false) units
  have hhoused := Units.housed_openMember a.units .routine (by simp) ha.has r.name.name
    .routine none (member.map (·.type)) ((member.map (·.isStatic)).getD false)
    (ha.houses.isSome ha.scopes.toWF ha.has)
  have hopen := Steps.step (.scopes { a with units } (.openMember hhosts.mayOpen hfits
    ⟨a.units.size⟩) fun s hs hnot => Scopes.eq_of_has_openMember hs hnot ▸ hhoused)
  have hs := (Steps.step (.plan a r.name.name .routine none)).trans hopen
  obtain ⟨hs', hb'⟩ := declareParams_spec (r.params.zip signature.params) ho
  dsimp only
  set x := (declareParams ⟨a.scopes.size⟩ (r.params.zip signature.params)).run _
  have hmem : binding ∈ (x.2.scopes.get x.2.current).entries := by
    rw [hs'.current_eq]
    exact ((hs.grows.trans hs'.grows).scopes.entries _ ha.has).subset hb
  have hopens : Opens x.2 (openedRoutine a member signature binding x.1) :=
    ⟨hb'.parent, hb'.kind, hb'.newest, hb'.fresh, hb'.empty, rfl, hb'.memberOf_eq, hb'.isStatic_eq,
      hb'.unit_eq, hmem, hb'.name_eq.trans hname.symm,
      (hs.grows.trans hs'.grows).types.isRoutine hvalue⟩
  refine ⟨((hs.trans hs').trans (.step (.record x.2 (.routine r.node hopens)))).mono ?_,
    ⟨hb'.parent, hb'.kind, hb'.empty, hb'.name_eq, ?_⟩, ?_⟩
  · simp
  · exact ⟨_, List.mem_cons_self, rfl, rfl⟩
  · exact Nat.lt_irrefl a.scopes.size

/-- A value that was just declared can give its name to a routine. -/
theorem fits_of_declare {s : ScopeId} {b b' : Binding} {span : Span}
    (h : (declare s b span).run a = (some b', c)) (ha : a.scopes.Siblings) (hs : a.scopes.Has s) :
    Scopes.Fits c.scopes s .routine b.name := by
  rw [run_declare] at h
  cases hd : a.scopes.declare s b span with
  | error e =>
    rw [hd] at h
    exact absurd (Prod.mk.inj h).1 (by simp)
  | ok result =>
    obtain ⟨b'', scopes⟩ := result
    rw [hd] at h
    obtain ⟨-, rfl⟩ := Prod.mk.inj h
    exact (Scopes.declared_of_declare hd).fits ha hs

theorem scopes_addMember (member : Option Membership) (s : Signature) (a : Analysis) :
    ((addMember member s).run a).2.scopes = a.scopes := by
  cases member <;> rfl

/-- What declaring a routine comes to. -/
structure RoutineDeclared (r : RoutineDef) (a : Analysis) (x : Option DeclaredRoutine × Analysis) :
    Prop where
  steps : Steps {(.routines, r.node)} a x.2
  complete : ∀ z, Accepted z → Grows x.2 z → ∃ d, x.1 = some d
  entry : ∀ d, x.1 = some d → Entry x.2 r d ∧ ¬ a.scopes.Has d.scope

namespace RoutineDeclared

variable {r : RoutineDef} {x : Option DeclaredRoutine × Analysis}

theorem before (hs : Steps 0 a b) (h : RoutineDeclared r b x) : RoutineDeclared r a x where
  steps := (hs.trans h.steps).mono (le_of_eq (zero_add _))
  complete := h.complete
  entry d hd := (h.entry d hd).imp_right fun hnew hold => hnew (hs.grows.scopes.has hold)

/-- A routine that is refused. -/
theorem refused (h : ∀ z, Accepted z → ¬ Grows a z) : RoutineDeclared r a (none, a) :=
  ⟨(Steps.refl a).mono (Multiset.zero_le _), fun z hz hg => absurd hg (h z hz),
    fun _ hd => absurd hd (by simp)⟩

end RoutineDeclared

theorem decides_refuseMember (member : Option Membership) (name : Ident) (args : List TypeId) :
    Decides p 0 (refuseMember member name args) fun z refused => Accepted z → refused = false := by
  refine decides_types.andThen fun t => ?_
  cases member with
  | none => exact .pure fun _ _ _ => rfl
  | some m =>
    dsimp only
    split
    · exact (decides_reject _ _ _).refused
    · exact .pure fun _ _ _ => rfl

theorem decides_addMember {member : Option Membership} (s : Signature)
    (h : ∀ z, p.Known z → Hosts p.scope member z) :
    Decides p 0 (addMember member s) fun _ _ => True := by
  cases member with
  | none => exact .pure fun _ _ => trivial
  | some m =>
    intro a ha
    exact ⟨.step (.types a (.addRoutine (h a ha.known).2.2 m.isStatic s)), fun _ _ _ => trivial⟩

theorem name_routineBinding (member : Option Membership) (name : String) (type : TypeId) :
    (routineBinding member name type).name = name := by
  cases member <;> rfl

theorem type_routineBinding (member : Option Membership) (name : String) (type : TypeId) :
    (routineBinding member name type).type = type := by
  cases member <;> rfl

/-- The end of declaring a routine, when nothing speaks against it any more. -/
theorem openDeclared_spec {member : Option Membership} {r : RoutineDef} {params : List TypeId}
    {result : Option TypeId} (h : ∀ z, p.Known z → Hosts p.scope member z) (ha : p.At a)
    (noType : a.scopes.resolveType p.scope r.name.name = none) :
    RoutineDeclared r a (StateT.run (do
      let type ← addRoutineType params result
      let some binding ←
        declare (← currentScope) (routineBinding member r.name.name type) r.name.span | return none
      let signature : Signature := ⟨r.name.name, params, result⟩
      addMember member signature
      return some (← openRoutine r member signature binding)) a) := by
  refine Decides.before (R := RoutineDeclared r) .before ha
    (decides_addRoutineType params result a ha) fun type b hrun hb => ?_
  obtain ⟨-, rfl⟩ := Prod.mk.inj hrun
  refine Decides.before (R := RoutineDeclared r) .before hb (decides_currentScope _ hb)
    fun s c hrun hc => ?_
  obtain ⟨-, rfl⟩ := Prod.mk.inj hrun
  obtain rfl : s = p.scope := hc.known.fact
  have hslot : (routineBinding member r.name.name type).slot = none := by
    cases member <;> rfl
  have hfree : a.scopes.resolveType p.scope (routineBinding member r.name.name type).name = none := by
    cases member <;> exact noType
  have hknown := hc.of_knowing
  refine Decides.before (R := RoutineDeclared r) .before hknown
    (declare_spec hknown r.name.span hslot ((h _ hknown.known.of_knowing).mayDeclare _ type)
      fun _ => hfree) fun binding d hdeclare hd => ?_
  cases binding with
  | none =>
    refine .refused fun z hz hg => ?_
    obtain ⟨b', hb'⟩ := (hd.later hz.sound hg).fact.complete hz
    exact absurd hb' (by simp)
  | some binding =>
    refine Decides.before (R := RoutineDeclared r) .before hd
      ((decides_addMember _ h).weaken.weaken d hd) fun _ e hadd he => ?_
    have hmem := (he.known.of_knowing.fact.declared binding rfl).2.2.2.2
    have hhosts := h e he.known.of_knowing.of_knowing.of_knowing
    have hfits := fits_of_declare hdeclare hknown.sound.siblings hknown.known.has
    rw [← scopes_addMember member ⟨r.name.name, params, result⟩ d, hadd] at hfits
    obtain ⟨hname, -, htype⟩ := head_of_declare (congrArg Prod.fst hdeclare)
    have hvalue := he.known.of_knowing.of_knowing.fact
    rw [name_routineBinding] at hname hfits
    rw [← type_routineBinding member r.name.name type, ← htype] at hvalue
    obtain ⟨hs, hentry, hnew⟩ := @openRoutine_spec _ he.sound member r
      ⟨r.name.name, params, result⟩ binding (he.current ▸ hhosts) (he.current ▸ hfits)
      (he.current ▸ hmem) hname hvalue
    refine ⟨hs, fun _ _ _ => ⟨_, rfl⟩, fun d hd => ?_⟩
    obtain rfl := Option.some.inj hd
    exact ⟨hentry, hnew⟩

/-- A routine that is declared gets a new and empty scope. -/
theorem declareRoutine_spec {member : Option Membership} (r : RoutineDef)
    (h : ∀ z, p.Known z → Hosts p.scope member z) (ha : p.At a) :
    RoutineDeclared r a ((declareRoutine member r).run a) := by
  refine Decides.before (R := RoutineDeclared r) .before ha
    (decides_resolveAll p (r.params.map (·.type)) a ha) fun params b _ hb => ?_
  refine Decides.before (R := RoutineDeclared r) .before hb
    (decides_resolveResult _ r.result b hb) fun result c _ hc => ?_
  cases params with
  | none =>
    refine .refused fun z hz hg => ?_
    obtain ⟨ps, hps⟩ := (hc.later hz.sound hg).of_knowing.fact hz
    exact absurd hps (by simp)
  | some params =>
    cases result with
    | none =>
      refine .refused fun z hz hg => ?_
      obtain ⟨t, ht⟩ := (hc.later hz.sound hg).fact hz
      exact absurd ht (by simp)
    | some result =>
      refine Decides.before (R := RoutineDeclared r) .before hc
        (decides_refuseMember member r.name params c hc) fun refused d _ hd => ?_
      cases refused with
      | true =>
        refine .refused fun z hz hg => ?_
        exact absurd ((hd.later hz.sound hg).fact hz) (by simp)
      | false =>
        refine Decides.before (R := RoutineDeclared r) .before hd
          (decides_refuseName r.name d hd) fun refused e hrun he => ?_
        cases refused with
        | true =>
          refine .refused fun z hz hg => ?_
          exact absurd ((he.later hz.sound hg).fact hz) (by simp)
        | false =>
          obtain ⟨rfl, -, htype⟩ := eq_of_refuseName hrun
          exact openDeclared_spec h hd.of_knowing.of_knowing.of_knowing (hd.current ▸ htype)

theorem Entry.mono {r : RoutineDef} {d : DeclaredRoutine} (h : Entry a r d) (hg : Grows a b)
    (hcurrent : b.current = a.current)
    (hc : (b.scopes.get d.scope).captures = (a.scopes.get d.scope).captures) : Entry b r d := by
  have hd := Scopes.has_of_parent h.parent
  obtain ⟨f, hf, hscope, hresult⟩ := h.recorded
  obtain ⟨sources, hf'⟩ := hg.findings.routines _ hf
  refine ⟨?_, ?_, hc.trans h.empty, (hg.scopes.head _ hd).name.trans h.name_eq, _, hf', hscope,
    hresult⟩
  · rw [hg.scopes.parent_eq hd, hcurrent, h.parent]
  · rw [hg.scopes.kind_eq hd, h.kind]

theorem Entry.steps {r : RoutineDef} {d : DeclaredRoutine} (h : Entry a r d) (ha : Sound a)
    (hs : Steps K a b) : Entry b r d :=
  h.mono hs.grows hs.current_eq (hs.captures_eq ha (Scopes.has_of_parent h.parent) fun hmem =>
    ha.scopes.ne_of_mem_path_parent h.parent hmem rfl)

/-- Member routines are declared, and their bodies are still to come. -/
structure Entries (a : Analysis) (rs : List RoutineDef) (ds : List (Option DeclaredRoutine)) :
    Prop where
  entry : List.Forall₂ (fun d r => ∀ d', d = some d' → Entry a r d') ds rs
  distinct : ds.Pairwise fun d e => ∀ d' e', d = some d' → e = some e' → d'.scope ≠ e'.scope

/-- What declaring member routines comes to. -/
structure MembersDeclared (rs : List RoutineDef) (a : Analysis)
    (x : List (Option DeclaredRoutine) × Analysis) : Prop where
  steps : Steps (Part.allKeys (rs.map .routine)) a x.2
  complete : ∀ z, Accepted z → Grows x.2 z → none ∉ x.1
  entries : Entries x.2 rs x.1
  new : ∀ d, some d ∈ x.1 → ¬ a.scopes.Has d.scope

/-- Member routines get scopes of their own. -/
theorem declareMembers_spec {m : Membership} (h : ∀ z, p.Known z → Hosts p.scope (some m) z) :
    (rs : List RoutineDef) → {a : Analysis} → p.At a →
      MembersDeclared rs a ((declareMembers m rs).run a)
  | [], a, ha => ⟨.refl a, fun _ _ _ h => absurd h List.not_mem_nil,
      ⟨.nil, .nil⟩, fun _ h => absurd h List.not_mem_nil⟩
  | r :: rs, a, ha => by
    have hfirst := declareRoutine_spec r h ha
    have hb := ha.steps hfirst.steps
    have hrest := declareMembers_spec h rs hb
    refine ⟨hfirst.steps.trans hrest.steps, fun z hz hg hmem => ?_, ⟨.cons (fun d hd => ?_)
      hrest.entries.entry, .cons (fun e he d' e' hd he' => ?_) hrest.entries.distinct⟩,
      fun d hd => ?_⟩
    · rcases List.mem_cons.mp hmem with hnone | hmem
      · obtain ⟨d, hd⟩ := hfirst.complete z hz (hrest.steps.grows.trans hg)
        exact absurd (hnone.trans hd) (by simp)
      · exact hrest.complete z hz hg hmem
    · exact (hfirst.entry d hd).1.steps hb.sound hrest.steps
    · subst he'
      intro heq
      refine hrest.new e' he ?_
      rw [← heq]
      exact Scopes.has_of_parent (hfirst.entry d' hd).1.parent
    · rcases List.mem_cons.mp hd with hd | hd
      · exact (hfirst.entry d hd.symm).2
      · exact fun hold => hrest.new d hd (hfirst.steps.grows.scopes.has hold)

/-! ## Types -/

/-- The scopes of a type.  In the tables `c` its own scope is open and empty; afterwards,
in `b`, the scope of the static initial values is in it. -/
structure TypeEntry (name : Ident) (f : TypeFinding) (c b : Analysis) : Prop where
  parent : c.scopes.parent f.scope = some c.current
  kind : (c.scopes.get f.scope).kind = .type
  empty : (c.scopes.get f.scope).captures = []
  memberOf : (c.scopes.get f.scope).memberOf = some f.type
  name_eq : (c.scopes.get f.scope).name = name.name
  unit : (c.scopes.get f.scope).unit = f.unit
  has : c.types.Has f.type
  addressed : c.types.Addressed f.type (c.units.path f.unit)
  fieldInit : f.fieldInit = ⟨c.scopes.size⟩
  tables : b = { c with
    scopes := c.scopes.openMember f.scope .fieldInit name.name f.unit (some f.type) false }

/-- What opening a type comes to. -/
structure TypeOpened (name : Ident) (a : Analysis) (x : Option TypeFinding × Analysis) : Prop where
  complete : ∀ z, Accepted z → Grows x.2 z → ∃ f, x.1 = some f
  refused : x.1 = none → Steps 0 a x.2
  opened : ∀ f, x.1 = some f →
    ¬ a.scopes.Has f.scope ∧ ∃ c, Steps 0 a c ∧ TypeEntry name f c x.2

namespace TypeOpened

variable {name : Ident} {x : Option TypeFinding × Analysis}

theorem before (hs : Steps 0 a b) (h : TypeOpened name b x) : TypeOpened name a x where
  complete := h.complete
  refused hx := (hs.trans (h.refused hx)).mono (le_of_eq (zero_add _))
  opened f hf := by
    obtain ⟨hnew, c, hc, hentry⟩ := h.opened f hf
    exact ⟨fun hold => hnew (hs.grows.scopes.has hold), c,
      (hs.trans hc).mono (le_of_eq (zero_add _)), hentry⟩

/-- A type that is refused. -/
theorem of_refused (h : ∀ z, Accepted z → ¬ Grows a z) : TypeOpened name a (none, a) :=
  ⟨fun z hz hg => absurd hg (h z hz), fun _ => .refl a, fun _ hf => absurd hf (by simp)⟩

end TypeOpened

theorem decides_refuseType (name : Ident) :
    Decides p 0 (refuseType name) fun z refused => Accepted z → refused = false := by
  refine Decides.get fun a _ => ?_
  split
  · exact (decides_reject _ _ _).refused
  · split
    · exact (decides_reject _ _ _).refused
    · exact .pure fun _ _ _ => rfl

theorem run_refuseType (name : Ident) (a : Analysis) : (refuseType name).run a =
    if (a.scopes.resolveType a.current name.name).isSome then
      (true, { a with diagnostics := a.diagnostics.report ⟨.duplicateType name.name, name.span⟩ })
    else if (a.scopes.resolveValue a.current name.name).isSome then
      (true, { a with diagnostics := a.diagnostics.report ⟨.duplicateName name.name, name.span⟩ })
    else (false, a) := by
  simp only [refuseType, StateT.run_bind, StateT.run_get, pure_bind]
  split
  · rfl
  · split <;> rfl

/-- A type that is not refused has a name that means nothing yet. -/
theorem eq_of_refuseType {name : Ident} (h : (refuseType name).run a = (false, b)) : b = a ∧
    a.scopes.resolveType a.current name.name = none ∧
      a.scopes.resolveValue a.current name.name = none := by
  rw [run_refuseType] at h
  split at h
  · exact absurd (Prod.mk.inj h).1 (by simp)
  · rename_i htype
    split at h
    · exact absurd (Prod.mk.inj h).1 (by simp)
    · rename_i hvalue
      exact ⟨(Prod.mk.inj h).2.symm, Option.not_isSome_iff_eq_none.mp htype,
        Option.not_isSome_iff_eq_none.mp hvalue⟩

theorem decides_addUser (name : String) :
    Decides p 0 (addType { name, form := .user }) fun z type =>
      z.types.Has type ∧ z.types.form type = .user := by
  intro a ha
  have hs : Steps 0 a { a with types := (a.types.add { name, form := .user }).2 } :=
    .step (.types a (.addUser name))
  refine ⟨hs, fun z hz hg => ?_⟩
  have hhas := TypeTable.has_add_new a.types { name, form := .user }
  exact ⟨hg.types.has hhas, (hg.types.form _ hhas).trans
    (congrArg TypeDecl.form (TypeTable.get_add_new a.types { name, form := .user }))⟩

theorem unset_of_addUser {name : String} {type : TypeId}
    (h : (addType { name, form := .user }).run a = (type, c)) : (c.types.get type).path = none := by
  obtain ⟨rfl, rfl⟩ := Prod.mk.inj h
  exact congrArg TypeDecl.path (TypeTable.get_add_new a.types { name, form := .user })

theorem run_declareType (s : ScopeId) (name : String) (type : TypeId) (span : Span) (a : Analysis) :
    (declareType s name type span).run a = match a.scopes.declareType s name type span with
      | .ok scopes => (true, { a with scopes })
      | .error e => (false, { a with diagnostics := a.diagnostics.report e }) := by
  simp only [declareType, StateT.run_bind, StateT.run_get, pure_bind]
  cases a.scopes.declareType s name type span <;> rfl

/-- A name that means nothing yet can become that of a type. -/
theorem declareType_spec {name : String} (type : TypeId) (span : Span) (ha : p.At a)
    (body : (a.scopes.get p.scope).kind.isBody = true)
    (noType : (a.scopes.get p.scope).type? name = none → a.scopes.resolveType p.scope name = none)
    (noValue : (a.scopes.get p.scope).binding? name = none →
      a.scopes.resolveValue p.scope name = none) :
    DecidesFrom a 0 (declareType p.scope name type span) fun z done => Accepted z → done = true := by
  rw [DecidesFrom, run_declareType]
  cases h : a.scopes.declareType p.scope name type span with
  | error e =>
    have hs := decides_reportError e a ha
    exact ⟨hs.1, fun z hz hg hz' => absurd hz' (hs.2 z hz hg)⟩
  | ok scopes =>
    have hd := Scopes.typeDeclared_of_declareType h
    have htype := noType hd.fresh_type
    have hvalue := noValue hd.fresh_value
    rw [← ha.current] at h body htype hvalue
    exact ⟨.step (.within (.declareType body htype hvalue h) hd.size_eq), fun _ _ _ _ => rfl⟩

/-- A type that was just declared can give its name to its scope. -/
theorem fits_of_declareType {s : ScopeId} {name : String} {type : TypeId} {span : Span}
    (h : (declareType s name type span).run a = (true, c)) (ha : a.scopes.Siblings)
    (hs : a.scopes.Has s) : Scopes.Fits c.scopes s .type name ∧ c.types = a.types := by
  rw [run_declareType] at h
  cases hd : a.scopes.declareType s name type span with
  | error e =>
    rw [hd] at h
    exact absurd (Prod.mk.inj h).1 (by simp)
  | ok scopes =>
    rw [hd] at h
    obtain ⟨-, rfl⟩ := Prod.mk.inj h
    exact ⟨(Scopes.typeDeclared_of_declareType hd).fits ha hs, rfl⟩

/-- The tables in which the scope of a type is open. -/
def openedType (a : Analysis) (name : String) (type : TypeId) : Analysis where
  scopes := a.scopes.openMember a.current .type name ⟨a.units.size⟩ (some type) false
  types := a.types.setPath type
    ((a.units.plan (a.scopes.get a.current).unit name .type (some type)).2.path ⟨a.units.size⟩)
  units := (a.units.plan (a.scopes.get a.current).unit name .type (some type)).2
  findings := a.findings
  diagnostics := a.diagnostics
  current := a.current

/-- What is recorded about a type when its scopes are opened in `a`. -/
def typeFinding (a : Analysis) (name : String) (type : TypeId) : TypeFinding where
  type
  unit := ⟨a.units.size⟩
  scope := ⟨a.scopes.size⟩
  fieldInit := ⟨(openedType a name type).scopes.size⟩
  captures := []

/-- The end of opening a type, when nothing speaks against it any more. -/
theorem typeOpened_typeFinding (ha : Sound a) {name : Ident} {type : TypeId}
    (body : (a.scopes.get a.current).kind.isBody = true) (htype : a.types.Has type)
    (hform : a.types.form type = .user) (unset : (a.types.get type).path = none)
    (hfits : Scopes.Fits a.scopes a.current .type name.name) :
    TypeOpened name a (some (typeFinding a name.name type), { openedType a name.name type with
      scopes := (openedType a name.name type).scopes.openMember ⟨a.scopes.size⟩ .fieldInit name.name
        ⟨a.units.size⟩ (some type) false }) := by
  refine ⟨fun _ _ _ => ⟨_, rfl⟩, fun h => absurd h (by simp), fun f hf => ?_⟩
  obtain rfl := Option.some.inj hf
  have hnew := Scopes.agrees_openMember_new a.scopes a.current .type name.name ⟨a.units.size⟩
    (some type) false
  have hplan := Step.plan a name.name .type (some type)
  set units := (a.units.plan (a.scopes.get a.current).unit name.name .type (some type)).2
  have hpath := Step.types { a with units } (.setPath hform unset (units.path ⟨a.units.size⟩))
  have hhoused := Units.housed_openMember a.units .type (by simp) ha.has name.name
    .type (some type) (some type) false (ha.houses.isSome ha.scopes.toWF ha.has)
  have hopen := Step.scopes
    { a with units, types := a.types.setPath type (units.path ⟨a.units.size⟩) }
    (@Scopes.Step.openMember _ _ .type (some type) false ⟨body, rfl⟩ _ hfits ⟨a.units.size⟩)
    fun s hs hnot => Scopes.eq_of_has_openMember hs hnot ▸ hhoused
  have hx := hpath.grows.types
  refine ⟨Nat.lt_irrefl a.scopes.size, openedType a name.name type, ?_, hnew.head.parent,
    hnew.head.kind, hnew.captures, hnew.head.memberOf, hnew.head.name, hnew.head.unit,
    hx.has htype, ⟨(hx.form _ htype).trans hform, ?_⟩, rfl, rfl⟩
  · exact (((Steps.step hplan).trans (.step hpath)).trans (.step hopen)).mono (by simp)
  · exact congrArg TypeDecl.path (TypeTable.get_update_self htype _)

/-- A type that is opened gets a new and empty scope. -/
theorem openType_spec (name : Ident)
    (body : ∀ z, p.Known z → (z.scopes.get p.scope).kind.isBody = true) (ha : p.At a) :
    TypeOpened name a ((openType name).run a) := by
  refine Decides.before (R := TypeOpened name) .before ha (decides_refuseType name a ha)
    fun refused b hrun hb => ?_
  cases refused with
  | true =>
    refine .of_refused fun z hz hg => ?_
    exact absurd ((hb.later hz.sound hg).fact hz) (by simp)
  | false =>
    obtain ⟨rfl, htype, hvalue⟩ := eq_of_refuseType hrun
    rw [hb.current] at htype hvalue
    refine Decides.before (R := TypeOpened name) .before ha (decides_addUser name.name b ha)
      fun type c hrun hc => ?_
    have hunset := unset_of_addUser hrun
    obtain ⟨-, rfl⟩ := Prod.mk.inj hrun
    refine Decides.before (R := TypeOpened name) .before hc (decides_currentScope _ hc)
      fun s d hrun hd => ?_
    obtain ⟨-, rfl⟩ := Prod.mk.inj hrun
    obtain rfl : s = p.scope := hd.known.fact
    have hdeclare := declareType_spec type name.span hc.of_knowing (body _ hc.of_knowing.known)
      (fun _ => htype) fun _ => hvalue
    refine Decides.before (R := TypeOpened name) .before hc hdeclare fun done e hrun he => ?_
    cases done with
    | false =>
      refine .of_refused fun z hz hg => ?_
      exact absurd ((he.later hz.sound hg).fact hz) (by simp)
    | true =>
      have hknown := he.known.of_knowing
      have hbody := body e hknown.of_knowing
      obtain ⟨hfits, htypes⟩ := fits_of_declareType hrun hc.sound.siblings hc.known.has
      refine typeOpened_typeFinding he.sound (he.current ▸ hbody) hknown.fact.1 hknown.fact.2 ?_
        (he.current ▸ hfits)
      rw [htypes]
      exact hunset

/-! ## Captures -/

/-- Where the analysis is, and nothing more. -/
def Place.here (s : ScopeId) : Place := ⟨s, fun _ => True, fun _ _ => trivial⟩

theorem Place.at_here (ha : Sound a) : (Place.here a.current).At a := ⟨ha, rfl, trivial⟩

/-- A lookup keeps what a scope inside captured linked. -/
theorem linked_lookup (ha : Sound a) (name : String) {s : ScopeId} (hs : a.scopes.Has s)
    (hl : a.scopes.Linked s) : ((lookup name).run a).2.scopes.Linked s := by
  rw [run_lookup]
  cases h : a.scopes.lookup a.current name with
  | hidden | missing => exact hl
  | found r access =>
    cases access with
    | captured => exact hl.capture ha.scopes (ha.scopes.uses h) ha.has hs
    | slot | enclosing | static | itself => exact hl

/-- The scope around a definition finds every binding that the definition captured. -/
theorem sourcesOf_spec {s : ScopeId} : (cs : List Capture) → {a : Analysis} → Sound a →
    a.scopes.parent s = some a.current → (a.scopes.get s).kind ≠ .fieldInit →
    a.scopes.Linked s → (∀ c ∈ cs, c ∈ (a.scopes.get s).captures) →
    ∀ x, (sourcesOf (cs.map fun c => (c.name, c.binding.type))).run a = x →
      Steps 0 a x.2 ∧ List.Forall₂ (x.2.scopes.Sourced a.current) cs x.1
  | [], a, _, _, _, _, _, x, hx => by
    subst hx
    exact ⟨.refl a, .nil⟩
  | c :: cs, a, ha, hp, hk, hl, hcs, x, hx => by
    have hsh := Scopes.has_of_parent hp
    obtain ⟨hmeant, access, haccess, hstatic⟩ :=
      ha.scopes.source (hcs c List.mem_cons_self) hp
    have hresolve := hl s (Scopes.mem_path_self _ s) hk _ hp c (hcs c List.mem_cons_self)
    have hlookup : a.scopes.lookup a.current c.name = .found c.resolved access := by
      rw [Scopes.lookup, hresolve]
      exact haccess
    obtain ⟨b, hrun⟩ : ∃ b, (lookup c.name).run a = (.found c.resolved access, b) :=
      ⟨_, (run_lookup c.name a).trans (by rw [hlookup])⟩
    obtain ⟨hs, hd⟩ := decides_lookup c.name a (Place.at_here ha)
    have hlb := linked_lookup ha c.name hsh hl
    rw [hrun] at hs hd hlb
    have hb := ha.steps hs
    have hg := hs.grows.scopes
    obtain ⟨hs', hrest⟩ := sourcesOf_spec cs hb
      (by rw [hg.parent_eq hsh, hs.current_eq, hp]) (by rwa [hg.kind_eq hsh]) hlb
      (fun c' hc' => (hg.captures s hsh).subset (hcs c' (List.mem_cons_of_mem _ hc'))) _ rfl
    have hx' : x = (⟨c.name, c.binding.type, access⟩ :: ((sourcesOf (cs.map fun c =>
        (c.name, c.binding.type))).run b).1, ((sourcesOf (cs.map fun c =>
        (c.name, c.binding.type))).run b).2) := by
      rw [← hx, List.map_cons]
      simp only [sourcesOf, StateT.run_bind, hrun]
      rfl
    subst hx'
    refine ⟨(hs.trans hs').mono (by simp), .cons ⟨rfl, rfl, ?_, hstatic⟩ (hs.current_eq ▸ hrest)⟩
    exact (hd _ (hb.steps hs') hs'.grows c.resolved access rfl).2

/-- What a definition captured is found from the scope around it, in order. -/
theorem captureSources_spec {s : ScopeId} (ha : Sound a) (hp : a.scopes.parent s = some a.current)
    (hk : (a.scopes.get s).kind ≠ .fieldInit) (hl : a.scopes.Linked s) :
    Steps 0 a ((captureSources s).run a).2 ∧
      List.Forall₂ (((captureSources s).run a).2.scopes.Sourced a.current)
        (((captureSources s).run a).2.scopes.get s).captures ((captureSources s).run a).1 := by
  obtain ⟨hs, hsources⟩ := sourcesOf_spec (a.scopes.get s).captures ha hp hk hl
    (fun _ h => h) _ rfl
  have hcaptures := hs.captures_eq ha (Scopes.has_of_parent hp) fun hmem =>
    ha.scopes.ne_of_mem_path_parent hp hmem rfl
  exact ⟨hs, hcaptures ▸ hsources⟩

end Unnest.Analysis
