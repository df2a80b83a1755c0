import Unnest.Proofs.Analysis.Lookups
import Unnest.Proofs.Analysis.Precedence

/-!
# Resolutions in finished types

Members are looked up while types are still being defined, and what is found is recorded.
The question is whether the finished types give the same answer (`Part.Resolved`).

A type gets its members in phases: its fields, its static members with their initial values,
the signatures of its routines, and then their bodies.  So the types that a body can see are
complete, and stay as they are (`Reached.sameTypes`): what is recorded in a body is what the
finished types have.  Initial values of static members come one phase before the routines of
their type.  They see all other types complete, and that one without routines
(`OpensType.firm`).

In an accepted program there is no other place, since everything that is defined is declared
and analysed.  `resolutions_final` says what is recorded where; `construct_overlooks` is a
program in which an initial value of a type overlooks a routine of that type.
-/

namespace Unnest

/-- The parts of the initial values of the static members of a type. -/
def TypeDef.staticParts (d : TypeDef) : List Part := d.staticFields.flatMap StaticField.parts

namespace Analysis

open Analyze

variable {program : String} {q : Program} {T : Task} {z a b c : Analysis} {t : TypeTable}
  {P : Permit} {ts us : List TypeId}

/-! ## Declarations and statements without bodies -/

namespace Settles

variable {α : Type} {m : Analyze α} {Q : α → Prop}

/-- A part of which no more has to be known than what it changes. -/
theorem of_changes (h : Changes .reading a (m.run a).2) : Settles z a m fun _ => True :=
  ⟨h, fun _ => trivial⟩

theorem get {f : Analysis → Analyze α} (hf : Settles z a (f a) Q) : Settles z a (get >>= f) Q :=
  ⟨hf.changes, hf.holds⟩

theorem discard (hm : Settles z a m Q) {R : Prop} (h : ∀ x, Q x → R) :
    Settles z a (discard m) fun _ => R := ⟨hm.changes, fun hbz => h _ (hm.holds hbz)⟩

theorem inScope {s : ScopeId} (hm : Settles z { a with current := s } m Q) :
    Settles z a (inScope s m) Q :=
  ⟨.trans (.single (change_enter a s)) (.trans hm.changes (.single (change_enter _ a.current))),
    fun hbz => hm.holds (.trans (.single (change_enter _ a.current)) hbz)⟩

/-- A user type is one afterwards. -/
theorem user (hm : Settles z a m Q) {type : TypeId} (h : a.types.form type = .user) {x : α}
    (hrun : m.run a = (x, b)) : b.types.form type = .user := by
  have huser := hm.changes.lasts.user h
  rwa [hrun] at huser

end Settles

/-- How a value is written is decided at the end in the same way. -/
theorem Asks.writeMode_eq (h : Asks z t ts a) (haz : Changes P a z) {target value : TypeId}
    (htarget : target ∈ ts) (hvalue : value ∈ ts) :
    writeMode a.types target value = writeMode t target value := by
  rw [writeMode, writeMode, h.lookup_eq haz false _ htarget
    (List.cons_subset.mpr ⟨hvalue, List.nil_subset _⟩)]

section Declarations

variable (hz : Accepted z)
include hz

/-- What is missing exactly if something is reported is there at an accepted end. -/
theorem Settles.of_exact {α : Type} {m : Analyze (Option α)}
    (hchanges : Changes .reading a (m.run a).2) (hexact : Reports m Exact) :
    Settles z a m fun r => r.isSome = true := by
  refine ⟨hchanges, fun hbz => ?_⟩
  obtain ⟨es, hleaves, hr⟩ := hexact a
  have herrors := hleaves.errors.symm.trans (hz.not_reported hbz)
  exact hr.mpr (List.append_eq_nil_iff.mp herrors).2

theorem settles_initialMode (h : Asks z t ts a) {target value : TypeId} (htarget : target ∈ ts)
    (hvalue : value ∈ ts) (span : Span) : Settles z a (initialMode target value span) fun r =>
      r = some (writeMode t target value) := by
  refine .types ?_
  split
  · refine Settles.conseq (Q := fun r => r = some (writeMode a.types target value)) (.pure rfl)
      fun haz r hr => ?_
    rw [hr, h.writeMode_eq haz htarget hvalue]
  · exact (settles_reject hz _ _ _).refused

theorem settles_declareInit (h : Asks z t ts a) (node : NodeId) (role : Role)
    (owner : Option TypeId) (names : List Ident) {type value : Option TypeId} (span : Span)
    (htype : type.toList ⊆ ts) (hvalue : value.toList ⊆ ts) :
    Settles z a (declareInit node role owner names type value span) fun _ =>
      ∀ w v, type = some w → value = some v → ∃ f, z.findings.decls.find? node = some f ∧
        f.type = w ∧ f.mode = some (writeMode t w v) := by
  cases type with
  | none => exact .pure fun _ _ hw => absurd hw (by simp)
  | some type =>
    cases value with
    | none => exact .pure fun _ _ _ hv => absurd hv (by simp)
    | some value =>
      refine (settles_initialMode hz h (htype List.mem_cons_self) (hvalue List.mem_cons_self)
        span).bind fun mode b _ => ?_
      cases mode with
      | none => exact .pure fun hmode => absurd hmode (by simp)
      | some mode =>
        refine (Settles.of_changes (through_declareNames type role owner names b).changes).bind
          fun bs c _ => ?_
        refine (settles_record hz (P := fun x => x.decls.find? node =
          some { type, bindings := bs, mode := some mode }) (fun _ => .decl node _)
          fun _ _ hg hkeys => (Findings.nodup_decls hkeys).find?_eq
            (hg.decls List.mem_cons_self)).bind fun _ _ _ => .pure fun hfind _ hmode w v hw hv => ?_
        rw [← Option.some.inj hw, ← Option.some.inj hv]
        exact ⟨_, hfind, rfl, hmode⟩

theorem settles_resolve (w : WrittenType) : Settles z a (resolve w) fun r => r.isSome = true :=
  .of_exact hz (through_resolve w a).changes (reports_resolve w)

theorem settles_initDecl (h : Asks z t us a) (d : InitDecl) :
    Settles z a (initDecl d) fun _ => ∀ x ∈ (Stmt.define d).parts, x.Resolved z t := by
  have htype := settles_resolve hz (a := a) d.type
  refine htype.bind fun type b hrun => ?_
  have hb := h.after htype (.quiet (quiet_resolve d.type)) (grounds_resolve d.type) hrun
  have hvalue := settles_operand hz (settles_expr hz d.value hb)
  refine hvalue.bind fun value c hrun => ?_
  have hc := hb.after hvalue (.quiet (quiet_operand d.value)) (grounds_operand d.value) hrun
  refine (settles_declareInit hz hc d.node .var none d.names d.value.span
    (List.subset_append_of_subset_right _ (List.subset_append_left _ _))
    (List.subset_append_left _ _)).discard fun _ hinit hv htype => ?_
  obtain ⟨v, rfl, hof, hparts⟩ := hv
  obtain ⟨w, rfl⟩ := Option.isSome_iff_exists.mp htype
  obtain ⟨f, hfind, rfl, hmode⟩ := hinit w v rfl rfl
  exact List.forall_mem_cons.mpr ⟨⟨f, v, hfind, hof, hmode⟩, hparts⟩

/-- The value of a static member is analysed before its type. -/
theorem settles_staticField (h : Asks z t us a) {type : TypeId} (huser : a.types.form type = .user)
    (inner : ScopeId) (f : StaticField) :
    Settles z a (staticField type inner f) fun _ => ∀ x ∈ f.parts, x.Resolved z t := by
  have henter : Asks z t us { a with current := inner } :=
    ⟨h.firm.enter inner, h.supplies.inScope inner⟩
  have hvalue := (settles_operand hz (settles_expr hz f.init henter)).inScope
  refine hvalue.bind fun value b hrun => ?_
  have hb := h.after hvalue (fun a => AddsNoUser.quiet (quiet_operand f.init)
    { a with current := inner }) ((grounds_operand f.init).inScope inner) hrun
  have huser := hvalue.user huser hrun
  have htype := settles_resolve hz (a := b) f.decl.type
  refine htype.bind fun w c hrun => ?_
  have hc := hb.after htype (.quiet (quiet_resolve f.decl.type)) (grounds_resolve f.decl.type) hrun
  have huser := htype.user huser hrun
  have hinit := settles_declareInit hz hc f.decl.node .staticField (some type) f.decl.names
    f.init.span (List.subset_append_left _ _)
    (List.subset_append_of_subset_right _ (List.subset_append_left _ _))
  refine hinit.bind fun bs d hrun => ?_
  refine (Settles.of_changes (goes_addFields (hinit.user huser hrun) true bs).changes).conseq
    fun _ _ _ hinit hw hv => ?_
  obtain ⟨v, rfl, hof, hparts⟩ := hv
  obtain ⟨w, rfl⟩ := Option.isSome_iff_exists.mp hw
  obtain ⟨g, hfind, rfl, hmode⟩ := hinit w v rfl rfl
  exact List.forall_mem_cons.mpr ⟨⟨g, v, hfind, hof, hmode⟩, hparts⟩

theorem settles_staticFields {type : TypeId} (inner : ScopeId) (htype : type ∈ us) :
    (fs : List StaticField) → {a : Analysis} → Asks z t us a → a.types.form type = .user →
    Settles z a (staticFields type inner fs) fun _ =>
      ∀ x ∈ fs.flatMap StaticField.parts, x.Resolved z t
  | [], _, _, _ => .pure (List.forall_mem_nil _)
  | f :: fs, a, h, huser => by
    have hfirst := settles_staticField hz h huser inner f
    refine hfirst.bind fun _ b hrun => ?_
    have hb := h.still hfirst (addsNoUser_staticField type inner f)
      (grounds_staticField inner f htype) hrun
    exact (settles_staticFields inner htype fs hb (hfirst.user huser hrun)).conseq
      fun _ _ hrest hfirst => List.forall_mem_append.mpr ⟨hfirst, hrest⟩

/-! ### Assignments and checks -/

/-- Before an accepted end everything is accepted. -/
theorem Accepted.of_changes (hb : Sound b) (hbz : Changes P b z) : Accepted b :=
  ⟨⟨hb, Multiset.nodup_of_le hbz.keys_le hz.keys⟩, hz.not_reported hbz⟩

/-- A chain with links is on record by the time that a value behind it is analysed. -/
theorem chain_recorded (ha : Sound a) {x : Assignment} (hlinks : x.target.links ≠ [])
    {target value : Option TypeId} (hb : (chain x.target).run a = (target, b))
    (hc : (operand x.value).run b = (value, c)) (hcz : Changes P c z) :
    c.findings.chains.find? x.target.node ≠ none := by
  obtain ⟨hs, hdecided⟩ := decides_chain (Place.since a) x.target a (Place.at_since ha)
  rw [hb] at hs hdecided
  have hsound := ha.steps hs
  obtain ⟨hs', -⟩ := decides_requiredExpr (decides_expr (Place.since b) x.value) b
    (Place.at_since hsound)
  have hrun : (required x.value.span (expr x.value)).run b = (value, c) := hc
  rw [hrun] at hs'
  have hsound' := hsound.steps hs'
  rcases hdecided c hsound' hs'.grows (hz.of_changes hsound' hcz) with ⟨hnil, -⟩ | hhas
  · exact absurd hnil hlinks
  · obtain ⟨f, hrecord, -⟩ := hhas.names
    exact fun hnone => absurd (hrecord.symm.trans hnone) (by simp)

theorem settles_writeTarget (h : Asks z t ts a) (x : Assignment) (finding : ChainFinding)
    {target value : TypeId} (htarget : target ∈ ts) (hvalue : value ∈ ts) :
    Settles z a (writeTarget x finding target value) fun _ =>
      z.findings.assigns.find? x.node = some ⟨target, writeMode t target value⟩ := by
  refine .get ?_
  dsimp only
  split
  · have hrecord := settles_record hz (a := a) (P := fun y => y.assigns.find? x.node =
      some ⟨target, writeMode a.types target value⟩) (fun _ => .assign x.node _) fun _ _ hg hkeys =>
        (Findings.nodup_assigns hkeys).find?_eq (hg.assigns List.mem_cons_self)
    exact hrecord.conseq fun haz _ hfind => h.writeMode_eq haz htarget hvalue ▸ hfind
  · split <;> exact (settles_report hz _ _).refused

theorem settles_assign (ha : Sound a) (h : Asks z t us a) (x : Assignment) :
    Settles z a (assign x) fun _ => ∀ y ∈ (Stmt.assign x).parts, y.Resolved z t := by
  have htarget := settles_chain hz x.target h
  refine htarget.bind fun target b hrun => ?_
  have hb := h.after htarget (.quiet (quiet_chain x.target)) (grounds_chain x.target) hrun
  have hvalue := settles_operand hz (settles_expr hz x.value hb)
  refine hvalue.bind fun value c hrun' => ?_
  have hc := hb.after hvalue (.quiet (quiet_operand x.value)) (grounds_operand x.value) hrun'
  have hparts (hr : ChainResolved z t x.target ∧ ∀ y ∈ x.target.linkParts, y.Resolved z t)
      (hv : ∀ y ∈ x.value.parts, y.Resolved z t) (hx : AssignResolved z t x) :
      ∀ y ∈ (Stmt.assign x).parts, y.Resolved z t :=
    List.forall_mem_cons.mpr ⟨hx, List.forall_mem_append.mpr ⟨List.forall_mem_cons.mpr hr, hv⟩⟩
  cases value with
  | none => exact .pure fun hv => absurd hv not_operandSettled_none
  | some value =>
    refine .get ?_
    split
    · rename_i finding hf
      cases target with
      | none => exact (settles_report hz _ _).refused
      | some target =>
        refine (settles_writeTarget hz hc x finding (List.mem_append_right _ List.mem_cons_self)
          List.mem_cons_self).conseq fun _ _ hfind hv hr => hparts hr hv.of_some.2 fun _ => ?_
        exact ⟨_, value, hfind, hv.of_some.1, rfl⟩
    · rename_i hf
      refine Settles.conseq (Q := fun _ => True) (.pure trivial) fun hcz _ _ hv hr =>
        hparts hr hv.of_some.2 fun hlinks => ?_
      exact absurd (Option.eq_none_iff_forall_ne_some.mpr hf)
        (chain_recorded hz ha hlinks hrun hrun' hcz)

theorem settles_checkCondition (h : Asks z t us a) (e : Expr) :
    Settles z a (checkCondition e) fun _ => ∀ x ∈ e.parts, x.Resolved z t := by
  refine (settles_operand hz (settles_expr hz e h)).bind fun type b _ => ?_
  cases type with
  | none => exact .pure fun he => absurd he not_operandSettled_none
  | some type =>
    refine .types ?_
    split
    · exact .pure fun he => he.of_some.2
    · exact (settles_report hz _ _).refused

theorem settles_checkReturn (h : Asks z t us a) (r : RoutineDef) (result : Option TypeId) :
    Settles z a (checkReturn r result) fun _ =>
      ∀ x ∈ ReturnClause.optParts r.ret, x.Resolved z t := by
  obtain ⟨node, name, closing, params, promised, body, ret, span⟩ := r
  cases ret with
  | none =>
    cases result with
    | none => exact .pure (List.forall_mem_nil _)
    | some type =>
      exact (Settles.of_alters (alters_typeName type)).bind fun _ _ _ =>
        (settles_report hz _ _).refused
  | some ret =>
    cases result with
    | none =>
      refine ((settles_expr hz ret.value h).discard (R := True) fun _ _ => trivial).bind
        fun _ _ _ => (settles_report hz _ _).refused
    | some type =>
      refine (settles_operand hz (settles_expr hz ret.value h)).bind fun value b _ => ?_
      cases value with
      | none => exact .pure fun he => absurd he not_operandSettled_none
      | some value =>
        refine .types ?_
        split
        · exact .pure fun he => he.of_some.2
        · exact (settles_report hz _ _).refused

end Declarations

/-! ## Types in bodies -/

/-- The types of one state are types of another, and are the same there. -/
structure SameTypes (a b : Analysis) : Prop where
  size : a.types.size ≤ b.types.size
  get : ∀ id, a.types.Has id → b.types.get id = a.types.get id

theorem SameTypes.of_eq (h : b.types = a.types) : SameTypes a b :=
  ⟨h ▸ le_rfl, fun _ _ => h ▸ rfl⟩

theorem SameTypes.trans (h : SameTypes a b) (h' : SameTypes b c) : SameTypes a c :=
  ⟨h.size.trans h'.size, fun id hid => (h'.get id (lt_of_lt_of_le hid h.size)).trans (h.get id hid)⟩

/-- A walk that keeps the types that there are, and that may go anywhere. -/
def keepingTypes (a : Analysis) : Horizon :=
  { outermost a.scopes.size with types := a.types.size }

theorem confined_keepingTypes (ha : Sound a) : Confined (keepingTypes a) a :=
  have h := confined_outermost ha
  ⟨h.current, h.has, ⟨h.scopes.has, h.scopes.size_le, h.scopes.opened_le, h.scopes.opened⟩, le_rfl⟩

/-- What may stand behind a part keeps the types that there are. -/
theorem Task.Follows.within (h : Task.Follows (T, a)) (hT : T.Ready a) :
    T.Within (keepingTypes a) := by
  rcases h with hpassive | ⟨-, h⟩
  · have hwithin := hT.within
    cases T with
    | routineBody => exact ⟨hwithin.new, hwithin.opened⟩
    | routineBodies => exact fun d hd => ⟨(hwithin d hd).new, (hwithin d hd).opened⟩
    | captureSources | sourcesOf | name => trivial
    | _ => exact absurd hpassive id
  · exact h _

theorem Task.Ready.sameTypes (hT : T.Ready a) (h : Task.Follows (T, a)) :
    SameTypes a (Call.after (T, a)) :=
  ⟨hT.extends_after.size_le,
    ((h.within hT).keeps a (confined_keepingTypes hT.sound)).2.1.types⟩

/-- Behind statements and bodies no type changes any more that there is by then. -/
theorem Reached.sameTypes_after (h : Reached program q T a) (hT : T.HasBody) :
    SameTypes (Call.after (T, a)) (analyze program q) := by
  have hclimb := climb (R := SameTypes) (c := (T, a)) (e := Call.after (T, a)) SameTypes.trans
    (fun hrests => .of_eq hrests.types) (fun y hy hfollows _ => hy.sameTypes (hfollows hT))
    hT.isPart (.of_eq rfl) (ready_first program q) h.leads
  rw [← after_first]
  exact hclimb.2.2

/-- In a body there are only types that are complete. -/
theorem Reached.sameTypes (h : Reached program q T a) (hT : T.HasBody) (hbody : InBody a)
    (hwithin : ∀ h, T.Within h) : SameTypes a (analyze program q) :=
  (h.comes.ready.sameTypes (.inr ⟨hbody, hwithin⟩)).trans (h.sameTypes_after hT)

/-- A lookup among complete types is a lookup at the end. -/
theorem Reached.asks (h : Reached program q T a) (hsame : SameTypes a (analyze program q)) :
    Asks (analyze program q) (analyze program q).types [] a where
  firm := ⟨.refl _, fun id isStatic hid => by rw [hsame.get id (TypeTable.has_of_user hid)]⟩
  supplies := h.supplies.less

theorem Reached.asks_body (h : Reached program q T a) (hT : T.HasBody) (hbody : InBody a)
    (hwithin : ∀ h, T.Within h) : Asks (analyze program q) (analyze program q).types [] a :=
  h.asks (h.sameTypes hT hbody hwithin)

/-! ## Definitions -/

section Definitions

variable (hz : Accepted (analyze program q))
include hz

/-- A routine that is defined is declared. -/
theorem Reached.exists_declared {r : RoutineDef} (h : Reached program q (.stmt (.routine r)) a) :
    ∃ d, ((declareRoutine none r).run a).1 = some d := by
  have hdeclare : Reached program q (.declareRoutine none r) a := h.call List.mem_cons_self
  have hhosts : Hosts a.current none a := hdeclare.comes.ready.given
  have hspec := declareRoutine_spec r (hhosts.since h.sound) (Place.at_since h.sound)
  have hb := h.sound.steps hspec.steps
  exact hspec.complete _ (hz.of_changes hb hdeclare.history.after) (.refl _)

/-- All routines of a type are declared. -/
theorem Reached.all_declared {m : Membership} {rs : List RoutineDef}
    (h : Reached program q (.declareMembers m rs) a) :
    none ∉ ((declareMembers m rs).run a).1 ∧
      ((declareMembers m rs).run a).1.length = rs.length := by
  have hhosts : Hosts a.current (some m) a := h.comes.ready.given
  have hspec := declareMembers_spec (hhosts.since h.sound) rs (Place.at_since h.sound)
  have hb := h.sound.steps hspec.steps
  exact ⟨hspec.complete _ (hz.of_changes hb h.history.after) (.refl _),
    hspec.entries.entry.length_eq⟩

/-- A type that is defined is opened. -/
theorem Reached.exists_opened {d : TypeDef} (h : Reached program q (.typeDef d) a) :
    ∃ f, OpensType program q d a f := by
  have hopen : Reached program q (.openType d.name) a := h.call List.mem_cons_self
  have hbody : InBody a := h.comes.ready.given
  have hspec := openType_spec d.name (hbody.since h.sound) (Place.at_since h.sound)
  cases hf : ((openType d.name).run a).1 with
  | some f => exact ⟨f, h, hf⟩
  | none =>
    have hb := h.sound.steps (hspec.refused hf)
    obtain ⟨f, hf'⟩ := hspec.complete _ (hz.of_changes hb hopen.history.after) (.refl _)
    exact absurd (hf.symm.trans hf') (by simp)

/-- The record of a definition names the type that it opened. -/
theorem OpensType.find? {d : TypeDef} {f : TypeFinding} (h : OpensType program q d a f) :
    ∃ g, (analyze program q).findings.types.find? d.node = some g ∧ g.type = f.type := by
  have hafter : Changes .both ((typeDef d).run a).2 (analyze program q) := h.reached.history.after
  rw [Task.run_typeDef_of_some h.opened] at hafter
  obtain ⟨sources, hmem⟩ := recorded_finishType d f { ((Analysis.members f d.fields d.staticFields
    d.routines d.staticRoutines).run { ((openType d.name).run a).2 with current := f.scope }).2 with
      current := ((openType d.name).run a).2.current }
  exact ⟨_, (Findings.nodup_types hz.keys).find?_eq (hafter.findings.types hmem), rfl⟩

end Definitions

/-- When the initial values of its static members are analysed, a type has no routines yet. All
others have theirs. -/
theorem OpensType.firm {d : TypeDef} {f : TypeFinding} (h : OpensType program q d a f) :
    Firm (analyze program q) ((analyze program q).types.withoutRoutines f.type)
      ((instanceFields f.type d.fields).run
        { ((openType d.name).run a).2 with current := f.scope }).2 := by
  have hsame := h.reached.sameTypes trivial h.reached.comes.ready.given fun _ => trivial
  obtain ⟨hopen, hbare⟩ := changes_openType (P := .neither) d.name a
  obtain ⟨hindex, -, husers⟩ := users_openType h.opened
  have hbare := hbare f h.opened
  have hreached : Reached program q (.instanceFields f.type d.fields) _ :=
    (h.reached.call h.mem_calls).call List.mem_cons_self
  generalize ((openType d.name).run a).2 = b at *
  have hfields : Changes .neither { b with current := f.scope }
      ((instanceFields f.type d.fields).run { b with current := f.scope }).2 :=
    (through_instanceFields (a := { b with current := f.scope }) d.fields hbare.user).changes
  have hbare' := hfields.bare not_false hbare
  have huser := (hreached.history.after.lasts).user hbare'.user
  refine ⟨TypeTable.outlines_withoutRoutines huser, fun id isStatic hid => ?_⟩
  have hopened := addsNoUser_instanceFields f.type d.fields { b with current := f.scope } id hid
  rcases husers id hopened with hold | rfl
  · have hhas := TypeTable.has_of_user hold
    have hne : f.type ≠ id := fun heq => by
      rw [← heq, TypeTable.Has, hindex] at hhas
      exact Nat.lt_irrefl _ hhas
    rw [TypeTable.get_withoutRoutines_of_ne hne, hsame.get id hhas,
      hfields.routinesOf_eq not_false (hopen.extends.has hhas), hopen.routinesOf_eq not_false hhas]
  · rw [TypeTable.get_withoutRoutines_self huser, hbare'.routines]
    cases isStatic <;> rfl

/-- The initial values of its static members are resolved as if a type had no routines. -/
theorem OpensType.statics_resolved (hz : Accepted (analyze program q)) {d : TypeDef}
    {f : TypeFinding} (h : OpensType program q d a f) :
    ∀ x ∈ d.staticParts,
      x.Resolved (analyze program q) ((analyze program q).types.withoutRoutines f.type) := by
  have hreached : Reached program q (.staticFields f.type f.fieldInit d.staticFields) _ :=
    (h.reached.call h.mem_calls).call (List.mem_cons_of_mem _ List.mem_cons_self)
  exact (settles_staticFields hz f.fieldInit List.mem_cons_self d.staticFields
    ⟨h.firm, hreached.supplies⟩ hreached.history.needs).holds hreached.history.after

/-! ## Parts of the tree -/

/-- What is recorded for the parts of a tree is what the types have for them: those at the end, and
without the routines of a type inside the initial values of its static members. -/
structure AllResolved (z : Analysis) (xs : List Part) : Prop where
  outside : ∀ x ∈ xs, x.Resolved z z.types ∨ ∃ d, .type d ∈ xs ∧ x ∈ d.staticParts
  inside : ∀ d, .type d ∈ xs → ∃ f, z.findings.types.find? d.node = some f ∧
    ∀ x ∈ d.staticParts, x.Resolved z (z.types.withoutRoutines f.type)

namespace AllResolved

variable {x : Part} {xs ys : List Part} {e : Expr}

theorem plain (h : ∀ x ∈ xs, x.Resolved z z.types) (htypes : ∀ d, .type d ∉ xs) :
    AllResolved z xs :=
  ⟨fun x hx => .inl (h x hx), fun d hd => absurd hd (htypes d)⟩

theorem nil : AllResolved z [] := .plain (List.forall_mem_nil _) fun _ => List.not_mem_nil

theorem append (h : AllResolved z xs) (h' : AllResolved z ys) : AllResolved z (xs ++ ys) := by
  refine ⟨List.forall_mem_append.mpr ⟨fun x hx => ?_, fun x hx => ?_⟩, fun d hd => ?_⟩
  · exact (h.outside x hx).imp_right fun hd =>
      hd.imp fun d hd => ⟨List.mem_append_left ys hd.1, hd.2⟩
  · exact (h'.outside x hx).imp_right fun hd =>
      hd.imp fun d hd => ⟨List.mem_append_right xs hd.1, hd.2⟩
  · exact (List.mem_append.mp hd).elim (h.inside d) (h'.inside d)

theorem cons (hx : x.Resolved z z.types) (htype : ∀ d, .type d ≠ x) (h : AllResolved z xs) :
    AllResolved z (x :: xs) :=
  append (plain (List.forall_mem_singleton.mpr hx) fun d hd =>
    htype d (List.mem_singleton.mp hd)) h

end AllResolved

/-- No type is defined inside of a statement without a body. -/
theorem not_type_of_isValue {d : TypeDef} {xs : List Part} (h : ∀ x ∈ xs, x.isValue = true) :
    .type d ∉ xs := fun hd => Bool.false_ne_true (h _ hd)

theorem not_type_of_cons {x : Part} {d : TypeDef} {xs : List Part} (hx : .type d ≠ x)
    (h : ∀ x ∈ xs, x.isValue = true) : .type d ∉ x :: xs := fun hd =>
  (List.mem_cons.mp hd).elim hx (not_type_of_isValue h)

namespace AllResolved

variable (hz : Accepted (analyze program q))
include hz

theorem define {d : InitDecl} (h : Reached program q (.stmt (.define d)) a)
    (ha : Asks (analyze program q) (analyze program q).types [] a) :
    AllResolved (analyze program q) (Stmt.define d).parts := by
  have hdecl : Reached program q (.initDecl d) a := h.call (List.mem_singleton_self _)
  exact .plain ((settles_initDecl hz ha d).holds hdecl.history.after) fun _ =>
    not_type_of_cons nofun fun _ => d.value.isValue_of_mem_parts

theorem chain {c : Chain} (h : Reached program q (.stmt (.call c)) a)
    (ha : Asks (analyze program q) (analyze program q).types [] a) :
    AllResolved (analyze program q) c.parts := by
  have hchain : Reached program q (.chain c) a := h.call (List.mem_singleton_self _)
  obtain ⟨hc, hlinks⟩ := (settles_chain hz c ha).holds hchain.history.after
  exact .plain (List.forall_mem_cons.mpr ⟨hc, hlinks⟩) fun _ =>
    not_type_of_cons nofun fun _ => c.isValue_of_mem_linkParts

theorem assign {x : Assignment} (h : Reached program q (.stmt (.assign x)) a)
    (ha : Asks (analyze program q) (analyze program q).types [] a) :
    AllResolved (analyze program q) (Stmt.assign x).parts := by
  have hassign : Reached program q (.assign x) a := h.call (List.mem_singleton_self _)
  refine .plain ((settles_assign hz h.sound ha x).holds hassign.history.after) fun d hd => ?_
  have hparts : (Stmt.assign x).parts =
      .assign x :: .chain x.target :: (x.target.linkParts ++ x.value.parts) := rfl
  rw [hparts, List.mem_cons] at hd
  refine hd.elim nofun (not_type_of_cons nofun fun y hy => ?_)
  exact (List.mem_append.mp hy).elim x.target.isValue_of_mem_linkParts
    x.value.isValue_of_mem_parts

/-- A condition, in front of the body that it guards. -/
theorem guarded {node : NodeId} {condition : Expr} {body : List Stmt} {span : Span}
    (h : Reached program q (.guarded ⟨node, condition, body, span⟩) a)
    (hbody : AllResolved (analyze program q) (Stmt.allParts body)) :
    AllResolved (analyze program q) (Guarded.parts ⟨node, condition, body, span⟩) := by
  have hcheck : Reached program q (.checkCondition condition) _ := h.call List.mem_cons_self
  have hsame := h.sameTypes trivial h.comes.ready.given fun _ => trivial
  -- opening the block changes no type
  have hasks := hcheck.asks ⟨hsame.size, hsame.get⟩
  refine cons trivial nofun (append (plain ?_ fun _ => not_type_of_isValue fun _ =>
    condition.isValue_of_mem_parts) hbody)
  exact (settles_checkCondition hz hasks condition).holds hcheck.history.after

/-- The body of a routine, with its return clause. -/
theorem routineBody {d : DeclaredRoutine} {r : RoutineDef}
    (h : Reached program q (.routineBody d r) a)
    (hbody : AllResolved (analyze program q) (Stmt.allParts r.body)) :
    AllResolved (analyze program q) r.parts := by
  have hstmts : Reached program q (.stmts r.body) _ := h.call List.mem_cons_self
  have hcheck : Reached program q (.checkReturn r d.result) _ :=
    h.call (List.mem_cons_of_mem _ List.mem_cons_self)
  rw [RoutineDef.parts_eq, RoutineDef.bodyParts]
  refine cons trivial nofun (append hbody (plain ?_ fun _ => not_type_of_isValue fun _ =>
    ReturnClause.isValue_of_mem_optParts))
  exact (settles_checkReturn hz (hcheck.asks (hstmts.sameTypes_after trivial)) r d.result).holds
    hcheck.history.after

/-- A type, with the bodies of its routines. -/
theorem typeDef {d : TypeDef} {f : TypeFinding} (h : OpensType program q d a f)
    (hroutines : AllResolved (analyze program q) (RoutineDef.allParts d.routines))
    (hstatics : AllResolved (analyze program q) (RoutineDef.allParts d.staticRoutines)) :
    AllResolved (analyze program q) d.parts := by
  have hbodies := hroutines.append hstatics
  have hvalues : ∀ e, .type e ∉ d.staticParts := fun e he => by
    obtain ⟨f, -, hx⟩ := List.mem_flatMap.mp he
    rw [StaticField.parts] at hx
    exact (List.mem_cons.mp hx).elim nofun
      (not_type_of_isValue fun _ => f.init.isValue_of_mem_parts)
  rw [TypeDef.parts_eq, List.append_assoc, List.append_assoc, ← TypeDef.staticParts]
  refine ⟨List.forall_mem_cons.mpr ⟨.inl trivial, List.forall_mem_append.mpr ⟨?_,
    List.forall_mem_append.mpr ⟨?_, ?_⟩⟩⟩, fun e he => ?_⟩
  · exact fun x hx => .inl (by obtain ⟨_, -, rfl⟩ := List.mem_map.mp hx; trivial)
  · exact fun x hx => .inr ⟨d, List.mem_cons_self, hx⟩
  · exact fun x hx => (hbodies.outside x hx).imp_right fun he => he.imp fun e he =>
      ⟨List.mem_cons_of_mem _ (List.mem_append_right _ (List.mem_append_right _ he.1)), he.2⟩
  · rcases List.mem_cons.mp he with heq | he
    · obtain rfl := Part.type.inj heq
      obtain ⟨g, hfind, htype⟩ := h.find? hz
      exact ⟨g, hfind, htype ▸ h.statics_resolved hz⟩
    · rcases List.mem_append.mp he with hfield | he
      · obtain ⟨_, -, heq⟩ := List.mem_map.mp hfield
        exact absurd heq nofun
      · exact hbodies.inside e ((List.mem_append.mp he).resolve_left (hvalues e))

end AllResolved

mutual

theorem resolved_stmt (hz : Accepted (analyze program q)) : (x : Stmt) → {a : Analysis} →
    Reached program q (.stmt x) a → AllResolved (analyze program q) x.parts
  | .declare d, _, _ => .plain (List.forall_mem_singleton.mpr trivial) fun _ =>
      not_type_of_cons nofun (List.forall_mem_nil _)
  | .define d, _, h => .define hz h (h.asks_body trivial h.comes.ready.given fun _ => trivial)
  | .assign x, _, h => .assign hz h (h.asks_body trivial h.comes.ready.given fun _ => trivial)
  | .call c, _, h => .chain hz h (h.asks_body trivial h.comes.ready.given fun _ => trivial)
  | .branch gs otherwise _, _, h => (resolved_guardedAll hz gs (h.call List.mem_cons_self)).append
      (resolved_elseBlock hz otherwise
        (h.call (List.mem_cons_of_mem _ (List.mem_singleton_self _))))
  | .loop g, _, h => resolved_guarded hz g (h.call (List.mem_singleton_self _))
  | .routine r, _, h => by
    obtain ⟨d, hd⟩ := h.exists_declared hz
    exact resolved_routineBody hz d r (h.call (mem_calls_routine hd))
  | .type d, _, h => resolved_typeDef hz d (h.call (List.mem_singleton_self _))

theorem resolved_guarded (hz : Accepted (analyze program q)) : (g : Guarded) → {a : Analysis} →
    Reached program q (.guarded g) a → AllResolved (analyze program q) g.parts
  | ⟨_, _, body, _⟩, _, h => .guarded hz h
      (resolved_stmts hz body (h.call (List.mem_cons_of_mem _ (List.mem_singleton_self _))))

theorem resolved_elseBlock (hz : Accepted (analyze program q)) : (e : Else) → {a : Analysis} →
    Reached program q (.elseBlock e) a → AllResolved (analyze program q) e.parts
  | .absent, _, _ => .nil
  | .block _ body _, _, h => .cons trivial nofun
      (resolved_stmts hz body (h.call (List.mem_singleton_self _)))

theorem resolved_routineBody (hz : Accepted (analyze program q)) (d : DeclaredRoutine) :
    (r : RoutineDef) → {a : Analysis} → Reached program q (.routineBody d r) a →
      AllResolved (analyze program q) r.parts
  | ⟨_, _, _, _, _, body, _, _⟩, _, h =>
      .routineBody hz h (resolved_stmts hz body (h.call List.mem_cons_self))

theorem resolved_typeDef (hz : Accepted (analyze program q)) : (d : TypeDef) → {a : Analysis} →
    Reached program q (.typeDef d) a → AllResolved (analyze program q) d.parts
  | ⟨_, _, _, _, _, routines, staticRoutines, _⟩, _, h => by
    obtain ⟨f, hf⟩ := h.exists_opened hz
    obtain ⟨hdeclare, hdeclare', hbodies, hbodies'⟩ := ((h.call hf.mem_calls).call
      (List.mem_cons_of_mem _ (List.mem_cons_of_mem _ (List.mem_singleton_self _)))).routines
    obtain ⟨hall, hlength⟩ := hdeclare.all_declared hz
    obtain ⟨hall', hlength'⟩ := hdeclare'.all_declared hz
    exact .typeDef hz hf (resolved_routineBodies hz routines hall hlength hbodies)
      (resolved_routineBodies hz staticRoutines hall' hlength' hbodies')

theorem resolved_stmts (hz : Accepted (analyze program q)) : (xs : List Stmt) → {a : Analysis} →
    Reached program q (.stmts xs) a → AllResolved (analyze program q) (Stmt.allParts xs)
  | [], _, _ => .nil
  | x :: xs, _, h => (resolved_stmt hz x (h.call List.mem_cons_self)).append
      (resolved_stmts hz xs (h.call (List.mem_cons_of_mem _ (List.mem_singleton_self _))))

theorem resolved_guardedAll (hz : Accepted (analyze program q)) : (gs : List Guarded) →
    {a : Analysis} → Reached program q (.guardedAll gs) a →
      AllResolved (analyze program q) (Guarded.allParts gs)
  | [], _, _ => .nil
  | g :: gs, _, h => (resolved_guarded hz g (h.call List.mem_cons_self)).append
      (resolved_guardedAll hz gs (h.call (List.mem_cons_of_mem _ (List.mem_singleton_self _))))

theorem resolved_routineBodies (hz : Accepted (analyze program q)) : (rs : List RoutineDef) →
    {ds : List (Option DeclaredRoutine)} → {a : Analysis} → none ∉ ds → ds.length = rs.length →
      Reached program q (.routineBodies ds rs) a →
        AllResolved (analyze program q) (RoutineDef.allParts rs)
  | [], _, _, _, _, _ => .nil
  | r :: rs, ds, a, hall, hlength, h => by
    cases ds with
    | nil => exact absurd hlength nofun
    | cons d ds =>
      have hrest : none ∉ ds := fun hnone => hall (List.mem_cons_of_mem d hnone)
      cases d with
      | none => exact absurd List.mem_cons_self hall
      | some d =>
        exact (resolved_routineBody hz d r (h.call List.mem_cons_self)).append
          (resolved_routineBodies hz rs hrest (Nat.succ.inj hlength)
            (h.call (List.mem_cons_of_mem _ (List.mem_singleton_self _))))

end

/-! ## Whole programs -/

/-- In an accepted program, what is recorded for the parts of the tree is what the finished types
have for them: the routines of operators and calls, the fields that are read, the types that are
constructed for want of a routine, and the ways in which values are written.  This is so everywhere
but in the initial values of static members.  There it is so, too, if the type that they are members
of is taken without its routines, which come later. -/
theorem resolutions_final (program : String) (hq : q.nodes.Nodup)
    (h : (analyze program q).errors = []) :
    (∀ x ∈ q.parts, (∀ d, .type d ∈ q.parts → x ∉ d.staticParts) →
      x.Resolved (analyze program q) (analyze program q).types) ∧
    ∀ d, .type d ∈ q.parts → ∃ f, (analyze program q).findings.types.find? d.node = some f ∧
      ∀ x ∈ d.staticParts,
        x.Resolved (analyze program q) ((analyze program q).types.withoutRoutines f.type) := by
  have hresolved := resolved_stmts (accepted_analyze program hq h) q.stmts .start
  refine ⟨fun x hx hnot => (hresolved.outside x hx).resolve_right fun hinside => ?_,
    hresolved.inside⟩
  obtain ⟨d, hd, hstatic⟩ := hinside
  exact hnot d hd hstatic

/-- A type is called in two places, and the first of them is an initial value of its own:

```
type T
  static T a = T()
  static routine operator_parenthesis() returns T
    T t
  end operator_parenthesis return t
end T
T b = T()
```
-/
def early : Program := (Draft.build [
  .type ⟨none, "T", [],
    [⟨none, .named none "T", ["a"], .chain ⟨none, [.call none "T" []]⟩⟩], [],
    [⟨none, Reserved.call, [], some (.named none "T"), [.declare ⟨none, .named none "T", ["t"]⟩],
      some (.chain ⟨none, [.bare none "t"]⟩), none⟩], none⟩,
  .define ⟨none, .named none "T", ["b"], .chain ⟨none, [.call none "T" []]⟩⟩]).1

/-- The initial value of `b` is resolved by the finished types, and that of `a` by the types without
the routine of `T`. -/
theorem resolutions_final_early : early.nodes.Nodup ∧ (analyze "demo" early).errors = [] ∧
    (∃ d, .define d ∈ early.parts ∧
      (Part.define d).Resolved (analyze "demo" early) (analyze "demo" early).types) ∧
    ∃ d f x, .type d ∈ early.parts ∧
      (analyze "demo" early).findings.types.find? d.node = some f ∧ x ∈ d.staticParts ∧
        x.Resolved (analyze "demo" early)
          ((analyze "demo" early).types.withoutRoutines f.type) := by
  have hnodup : early.nodes.Nodup := Draft.nodup_nodes_build _
  have herrors : (analyze "demo" early).errors = [] := by decide +kernel
  obtain ⟨houtside, hinside⟩ := resolutions_final "demo" hnodup herrors
  refine ⟨hnodup, herrors, ?_, ?_⟩
  · have hdefine := List.mem_of_getElem? (l := early.parts) (i := 8) rfl
    refine ⟨_, hdefine, houtside _ hdefine fun d _ hd => ?_⟩
    obtain ⟨f, -, hx⟩ := List.mem_flatMap.mp hd
    exact (List.mem_cons.mp hx).elim nofun fun hx =>
      Bool.false_ne_true (f.init.isValue_of_mem_parts hx)
  · have htype := List.mem_of_getElem? (l := early.parts) (i := 0) rfl
    obtain ⟨f, hfind, hstatics⟩ := hinside _ htype
    exact ⟨_, f, _, htype, hfind, List.mem_cons_self, hstatics _ List.mem_cons_self⟩

/-- A type is constructed where it is called without arguments, if it has no routine for that. -/
theorem HeadResolved.no_routine {node : NodeId} {name : Ident} {args : List Expr} {span : Span}
    {type : TypeId} (h : HeadResolved z t (.call node name args span))
    (record : z.findings.links.find? node = some (.construct type)) :
    t.lookup type true Reserved.call [] = none := by
  cases h with
  | binding _ record' | type _ record' =>
    exact absurd (Option.some.inj (record'.symm.trans record)) nofun
  | construct record' nothing =>
    obtain rfl := LinkFinding.construct.inj (Option.some.inj (record'.symm.trans record))
    exact nothing

/-- The initial value of `a` is recorded as the construction of a `T`, although the finished `T`
has a routine for the call. -/
theorem construct_overlooks : early.nodes.Nodup ∧ (analyze "demo" early).errors = [] ∧
    ¬ ∀ x ∈ early.parts, x.Resolved (analyze "demo" early) (analyze "demo" early).types := by
  refine ⟨Draft.nodup_nodes_build _, by decide +kernel, fun h => ?_⟩
  have hexpr := h _ (List.mem_of_getElem? (l := early.parts) (i := 2) rfl)
  cases hexpr with
  | chain hchain =>
    cases hchain with
    | cons hhead =>
      have hrecord : (analyze "demo" early).findings.links.find? ⟨0⟩ = some (.construct ⟨6⟩) := by
        decide +kernel
      exact absurd (hhead.no_routine hrecord) (by decide +kernel)

end Analysis

end Unnest
