import Unnest.Analysis.Stmt
import Unnest.Proofs.Analysis.Additions
import Unnest.Proofs.Analysis.Exprs

/-!
# Declarations and assignments are decided

Statements that declare values, write them or test them stay in one scope.  In an
accepted analysis each of them is decided: a declaration has declared all of its names
in order, an initial value has a mode, and what an assignment stores to is a binding or
a field (`decides_assign`).
-/

namespace Unnest

namespace Produced

theorem ofCall_ne (routine : Signature) (t : TypeId) (b : Binding) :
    ofCall routine ≠ .value t (some b) := by
  rw [ofCall]
  split <;> simp

theorem eq_of_finding? {x : Produced} {f : ChainFinding} (h : x.finding? = some f)
    (hb : f.binding.isSome = true) : ∃ t b, x = .value t (some b) := by
  cases x with
  | value type binding =>
    obtain rfl := Option.some.inj h
    obtain ⟨b, rfl⟩ := Option.isSome_iff_exists.mp hb
    exact ⟨type, b, rfl⟩
  | nothing =>
    obtain rfl := Option.some.inj h
    exact absurd hb (by simp)
  | typeName => exact absurd h (by simp [finding?])

end Produced

namespace Analysis

theorem HeadMakes.names {z : Analysis} {s : ScopeId} {hasMore : Bool} {l : Link} {x : Produced}
    {t : TypeId} {b : Binding} (h : HeadMakes z s hasMore l x) (hx : x = .value t (some b)) :
    Names z l := by
  cases h with
  | load record => exact Or.inl ⟨_, _, record⟩
  | typeName => exact absurd hx (by simp)
  | callBinding | callType => exact absurd hx (Produced.ofCall_ne _ _ _)
  | construct => exact absurd hx (by simp)

theorem LinkMakes.names {z : Analysis} {s : ScopeId} {before x : Produced} {l : Link}
    {t : TypeId} {b : Binding} (h : LinkMakes z s before l x) (hx : x = .value t (some b)) :
    Names z l := by
  cases h with
  | field _ _ record => exact Or.inr ⟨_, _, record⟩
  | callMember | callField => exact absurd hx (Produced.ofCall_ne _ _ _)

theorem LinksMake.names {z : Analysis} {s : ScopeId} {t : TypeId} {b : Binding} :
    {before x : Produced} → {l : Link} → {ls : List Link} → LinksMake z s before (l :: ls) x →
      x = .value t (some b) → ∃ l', (l :: ls).getLast? = some l' ∧ Names z l'
  | _, _, l, [], .cons hl .nil, hx => ⟨l, rfl, hl.names hx⟩
  | _, _, _, l' :: ls, .cons _ hls, hx => by
    obtain ⟨last, hlast, hnames⟩ := hls.names hx
    exact ⟨last, by rw [List.getLast?_cons_cons, hlast], hnames⟩

/-- A chain that ends on a binding ends in a link that loads or reads it. -/
theorem ChainHas.names {z : Analysis} {s : ScopeId} {c : Chain} {t : Option TypeId}
    (h : ChainHas z s c t) : ∃ f, z.findings.chains.find? c.node = some f ∧ f.type = t ∧
      (f.binding.isSome = true → ∃ l, c.last? = some l ∧ Names z l) := by
  cases h with
  | @mk node head rest span first last f hh hr finding record =>
    refine ⟨f, record, rfl, fun hb => ?_⟩
    obtain ⟨t, b, hx⟩ := Produced.eq_of_finding? finding hb
    cases rest with
    | nil =>
      cases hr
      exact ⟨head, rfl, hh.names hx⟩
    | cons l ls =>
      obtain ⟨last, hlast, hnames⟩ := hr.names hx
      exact ⟨last, (List.getLast?_cons_cons ..).trans hlast, hnames⟩

open Analyze

variable {α : Type} {K L : Multiset Key} {p : Place} {z : Analysis}

/-! ## Written types -/

mutual

theorem decides_resolve (p : Place) : (w : WrittenType) →
    Decides p 0 (resolve w) fun z result => Accepted z → ∃ type, result = some type
  | .named name => by
    refine (decides_resolveType name.name).andThen fun found => ?_
    cases found with
    | none => exact (decides_reject _ _ _).refused
    | some type => exact .pure fun z hz h => ⟨type, rfl⟩
  | .routine params result span => by
    refine (decides_resolveAll p params).andThen fun ps =>
      (decides_resolveResult p result).weaken.andThen fun r => ?_
    cases ps with
    | none =>
      refine .pure fun z hz h => ?_
      obtain ⟨ps, hps⟩ := hz.of_knowing.fact h
      exact absurd hps (by simp)
    | some ps =>
      cases r with
      | none =>
        refine .pure fun z hz h => ?_
        obtain ⟨r, hr⟩ := hz.fact h
        exact absurd hr (by simp)
      | some r =>
        exact (decides_addRoutineType ps r).andPure fun _ _ _ _ _ => ⟨_, rfl⟩

theorem decides_resolveAll (p : Place) : (ws : List WrittenType) →
    Decides p 0 (resolveAll ws) fun z result => Accepted z → ∃ types, result = some types
  | [] => .pure fun _ _ _ => ⟨[], rfl⟩
  | w :: ws => by
    refine (decides_resolve p w).andThen fun first =>
      (decides_resolveAll p ws).weaken.andPure fun z rest hz hd h => ?_
    obtain ⟨type, rfl⟩ := hz.fact h
    obtain ⟨types, rfl⟩ := hd h
    exact ⟨type :: types, rfl⟩

theorem decides_resolveResult (p : Place) : (w : Option WrittenType) →
    Decides p 0 (resolveResult w) fun z result => Accepted z → ∃ type, result = some type
  | none => .pure fun _ _ _ => ⟨none, rfl⟩
  | some w => by
    refine (decides_resolve p w).andPure fun z type _ hd h => ?_
    obtain ⟨type, rfl⟩ := hd h
    exact ⟨some type, rfl⟩

end

/-! ## Names -/

/-- What declaring a binding comes to. -/
structure BindingDeclared (s : ScopeId) (b : Binding) (z : Analysis) (result : Option Binding) :
    Prop where
  declared : ∀ b', result = some b' → b'.name = b.name ∧ b'.type = b.type ∧ b'.role = b.role ∧
    b'.owner = b.owner ∧ b' ∈ (z.scopes.get s).entries
  complete : Accepted z → ∃ b', result = some b'

/-- Only the slot is chosen when a binding is declared. -/
theorem head_of_declare {s : ScopeId} {x : Binding} {span : Span} {b' : Binding} {a : Analysis}
    (h : ((declare s x span).run a).1 = some b') :
    b'.name = x.name ∧ b'.role = x.role ∧ b'.type = x.type := by
  rw [run_declare] at h
  cases hd : a.scopes.declare s x span with
  | error e =>
    rw [hd] at h
    exact absurd h (by simp)
  | ok result =>
    obtain ⟨y, scopes⟩ := result
    rw [hd] at h
    obtain rfl := Option.some.inj h
    rw [(Scopes.declared_of_declare hd).binding_eq]
    exact ⟨rfl, rfl, rfl⟩

/-- A name that is no visible type can be declared. -/
theorem declare_spec {a : Analysis} {b : Binding} (ha : p.At a) (span : Span) (slot : b.slot = none)
    (may : Scopes.MayDeclare (a.scopes.get p.scope) b)
    (noType : (a.scopes.get p.scope).type? b.name = none →
      a.scopes.resolveType p.scope b.name = none) :
    DecidesFrom a 0 (declare p.scope b span) (BindingDeclared p.scope b) := by
  rw [DecidesFrom, run_declare]
  cases h : a.scopes.declare p.scope b span with
  | error e =>
    have hs := decides_reportError e a ha
    refine ⟨hs.1, fun z hz hg => ⟨fun b' hb => absurd hb (by simp), fun hz' => ?_⟩⟩
    exact absurd hz' (hs.2 z hz hg)
  | ok result =>
    obtain ⟨b', scopes⟩ := result
    have hd := Scopes.declared_of_declare h
    have hs : Steps 0 a { a with scopes } := by
      have htype := noType hd.fresh_type
      rw [← ha.current] at h may htype
      exact .step (.within (.declare slot may htype h) hd.size_eq)
    refine ⟨hs, fun z hz hg => ⟨fun b'' hb => ?_, fun _ => ⟨b', rfl⟩⟩⟩
    obtain rfl := Option.some.inj hb
    refine ⟨by rw [hd.binding_eq], by rw [hd.binding_eq], by rw [hd.binding_eq],
      by rw [hd.binding_eq], ?_⟩
    refine (hg.scopes.entries _ (hd.extends.has ha.known.has)).subset ?_
    rw [hd.entries ha.known.has]
    exact List.mem_append_right _ List.mem_cons_self

theorem decides_refuseName (name : Ident) :
    Decides p 0 (refuseName name) fun z refused => Accepted z → refused = false := by
  refine Decides.get fun a _ => ?_
  split
  · exact (decides_reject _ _ _).refused
  · split
    · exact (decides_reject _ _ _).refused
    · exact .pure fun _ _ _ => rfl

theorem run_refuseName (name : Ident) (a : Analysis) : (refuseName name).run a =
    if ((a.scopes.get a.current).binding? name.name).isSome then
      (true, { a with diagnostics := a.diagnostics.report ⟨.duplicateName name.name, name.span⟩ })
    else if (a.scopes.resolveType a.current name.name).isSome then
      (true, { a with diagnostics := a.diagnostics.report ⟨.nameIsType name.name, name.span⟩ })
    else (false, a) := by
  simp only [refuseName, StateT.run_bind, StateT.run_get, pure_bind]
  split
  · rfl
  · split <;> rfl

/-- A name that is not refused is declared nowhere near, and is no visible type. -/
theorem eq_of_refuseName {name : Ident} {a b : Analysis}
    (h : (refuseName name).run a = (false, b)) : b = a ∧
      (a.scopes.get a.current).binding? name.name = none ∧
        a.scopes.resolveType a.current name.name = none := by
  rw [run_refuseName] at h
  split at h
  · exact absurd (Prod.mk.inj h).1 (by simp)
  · rename_i hvalue
    split at h
    · exact absurd (Prod.mk.inj h).1 (by simp)
    · rename_i htype
      exact ⟨(Prod.mk.inj h).2.symm, Option.not_isSome_iff_eq_none.mp hvalue,
        Option.not_isSome_iff_eq_none.mp htype⟩

/-- Declares a name, unless it is refused. -/
def declareName (type : TypeId) (role : Role) (owner : Option TypeId) (name : Ident) :
    Analyze (Option Binding) := do
  if ← refuseName name then pure none
  else declare (← currentScope) { name := name.name, type, role, owner } name.span

theorem declareNames_cons (type : TypeId) (role : Role) (owner : Option TypeId) (name : Ident)
    (names : List Ident) : declareNames type role owner (name :: names) =
      (do
        let declared ← declareName type role owner name
        let others ← declareNames type role owner names
        return declared.toList ++ others) := by
  rw [declareNames, declareName, bind_assoc]
  refine congrArg (refuseName name >>= ·) (funext fun refused => ?_)
  cases refused <;> rfl

theorem decides_declareName {role : Role} {owner : Option TypeId} {type : TypeId} {name : Ident}
    (may : ∀ z, p.Known z → Scopes.MayDeclare (z.scopes.get p.scope)
      { name := name.name, type, role, owner }) :
    Decides p 0 (declareName type role owner name)
      (BindingDeclared p.scope { name := name.name, type, role, owner }) := by
  intro a ha
  obtain ⟨hs, hd⟩ := decides_refuseName name a ha
  rw [DecidesFrom, declareName, StateT.run_bind]
  cases hrun : (refuseName name).run a with
  | mk refused b =>
    rw [hrun] at hs hd
    cases refused with
    | true =>
      refine ⟨hs, fun z hz hg => ⟨fun b' h => absurd h (Option.some_ne_none b').symm, fun h => ?_⟩⟩
      exact absurd (hd z hz hg h).symm Bool.false_ne_true
    | false =>
      obtain ⟨rfl, -, htype⟩ := eq_of_refuseName hrun
      have hdeclare := declare_spec (b := { name := name.name, type, role, owner }) ha name.span rfl
        (may b ha.known) fun _ => ha.current ▸ htype
      rw [← ha.current] at hdeclare ⊢
      exact hdeclare

/-- A scope can declare bindings of a role, whatever their names and types. -/
def Declares (p : Place) (role : Role) (owner : Option TypeId) : Prop :=
  ∀ z, p.Known z → ∀ type name, Scopes.MayDeclare (z.scopes.get p.scope) { name, type, role, owner }

/-- What declaring names comes to. -/
structure NamesDeclared (s : ScopeId) (type : TypeId) (role : Role) (owner : Option TypeId)
    (names : List Ident) (z : Analysis) (bs : List Binding) : Prop where
  declared : ∀ b ∈ bs, b.type = type ∧ b.role = role ∧ b.owner = owner ∧
    b ∈ (z.scopes.get s).entries
  complete : Accepted z → bs.map (·.name) = names.map (·.name)

theorem NamesDeclared.cons {s : ScopeId} {role : Role} {owner : Option TypeId} {name : Ident}
    {names : List Ident} {type : TypeId} {b : Option Binding} {bs : List Binding}
    (hb : BindingDeclared s { name := name.name, type, role, owner } z b)
    (hbs : NamesDeclared s type role owner names z bs) :
    NamesDeclared s type role owner (name :: names) z (b.toList ++ bs) := by
  refine ⟨fun x hx => ?_, fun hz => ?_⟩
  · rcases List.mem_append.mp hx with hx | hx
    · exact (hb.declared x (Option.mem_toList.mp hx)).2
    · exact hbs.declared x hx
  · obtain ⟨b, rfl⟩ := hb.complete hz
    rw [List.map_append, List.map_cons, hbs.complete hz]
    exact congrArg (· :: _) (hb.declared b rfl).1

theorem decides_declareNames {role : Role} {owner : Option TypeId} (type : TypeId)
    (may : ∀ z, p.Known z → ∀ name, Scopes.MayDeclare (z.scopes.get p.scope)
      { name, type, role, owner }) : (names : List Ident) →
    Decides p 0 (declareNames type role owner names) (NamesDeclared p.scope type role owner names)
  | [] => .pure fun _ _ => ⟨fun _ h => absurd h List.not_mem_nil, fun _ => rfl⟩
  | name :: names => by
    rw [declareNames_cons]
    exact (decides_declareName fun z hz => may z hz name.name).andThen fun _ =>
      (decides_declareNames type may names).weaken.andPure fun _ _ hz hbs => .cons hz.fact hbs

/-- The names that are declared differ, since those of a scope do. -/
theorem nodup_declareNames {role : Role} {owner : Option TypeId} (type : TypeId)
    (may : Declares p role owner) (names : List Ident) {a : Analysis} (ha : p.At a) :
    (((declareNames type role owner names).run a).1.map (·.name)).Nodup := by
  have hb := ha.sound.steps (decides_declareNames type (fun z hz => may z hz type) names a ha).1
  have hentries := (enters_declareNames type role owner names a ha.sound.has).entries a.current
  have honce := hb.siblings.once a.current
  rw [hentries, only_self, List.map_append, List.nodup_append'] at honce
  exact honce.2.1

/-- Names are declared as bindings of a role. -/
theorem decides_names {role : Role} {owner : Option TypeId} (may : Declares p role owner)
    (type : TypeId) (names : List Ident) :
    Decides p 0 (declareNames type role owner names) fun z bs =>
      (∀ b ∈ bs, b.role = role ∧ b.owner = owner) ∧
        (Accepted z → NamesDone z p.scope type names bs) := by
  have hdecides := (decides_declareNames type (fun z hz => may z hz type) names).withResult
    (P := fun bs => (bs.map (·.name)).Nodup) fun _ => nodup_declareNames type may names
  refine hdecides.conseq fun z bs _ ⟨h, hdistinct⟩ => ⟨fun b hb => ?_, fun hz => ?_⟩
  · exact ⟨(h.declared b hb).2.1, (h.declared b hb).2.2.1⟩
  · exact ⟨h.complete hz, hdistinct, fun b hb => (h.declared b hb).1,
      fun b hb => (h.declared b hb).2.2.2⟩

theorem decides_recordDecl (node : NodeId) (f : DeclFinding) :
    Decides p {(.decls, node)} (recordDecl node f) fun z _ =>
      Accepted z → z.findings.decls.find? node = some f :=
  decides_record (fun _ _ => .decl node f) fun _ _ _ hg hz =>
    (Findings.nodup_decls hz.keys).find?_eq (hg.decls List.mem_cons_self)

/-- What a declaration without initial value comes to. -/
structure VarDeclared (s : ScopeId) (role : Role) (owner : Option TypeId) (d : VarDecl)
    (z : Analysis) (bs : List Binding) : Prop where
  members : ∀ b ∈ bs, b.role = role ∧ b.owner = owner
  done : Accepted z → ∃ f, DeclDone z s d f

theorem decides_varDecl {role : Role} {owner : Option TypeId} (may : Declares p role owner)
    (d : VarDecl) :
    Decides p {(.decls, d.node)} (varDecl role owner d) (VarDeclared p.scope role owner d) := by
  refine (decides_resolve p d.type).andThen fun type => ?_
  cases type with
  | none =>
    refine Decides.idle (.pure fun z hz => ⟨fun _ h => absurd h List.not_mem_nil, fun h => ?_⟩)
    obtain ⟨type, htype⟩ := hz.fact h
    exact absurd htype (by simp)
  | some type =>
    refine (decides_names may type d.names).weaken.andThen fun bs => ?_
    refine (decides_recordDecl d.node _).andPure fun z _ hz hfind => ⟨hz.fact.1, fun h => ?_⟩
    exact ⟨_, hfind h, rfl, hz.fact.2 h⟩

/-! ## Initial values -/

theorem writes_writeMode {t : TypeTable} (ht : t.Sound ∧ t.Extends z.types) (target value : TypeId) :
    Writes z target value (writeMode t target value) := by
  rw [writeMode]
  split
  · exact offers_of_lookup ht ‹_›
  · trivial

/-- What a declaration with an initial value comes to, once the value has a type. -/
structure InitDeclared (s : ScopeId) (role : Role) (owner : Option TypeId) (node : NodeId)
    (names : List Ident) (type value : Option TypeId) (z : Analysis) (bs : List Binding) :
    Prop where
  members : ∀ b ∈ bs, b.role = role ∧ b.owner = owner
  done : Accepted z → ∀ t v, type = some t → value = some v →
    ∃ f mode, z.findings.decls.find? node = some f ∧ f.mode = some mode ∧
      NamesDone z s f.type names f.bindings ∧ Writes z f.type v mode

theorem decides_initialMode (target value : TypeId) (span : Span) :
    Decides p 0 (initialMode target value span) fun z result =>
      Accepted z → ∃ mode, result = some mode ∧ Writes z target value mode := by
  refine decides_types.andThen fun t => ?_
  split
  · exact .pure fun z hz _ => ⟨_, rfl, writes_writeMode hz.fact target value⟩
  · exact (decides_reject _ _ _).refused

theorem decides_declareInit {role : Role} {owner : Option TypeId} (may : Declares p role owner)
    (node : NodeId) (names : List Ident) (type value : Option TypeId) (span : Span) :
    Decides p {(.decls, node)} (declareInit node role owner names type value span)
      (InitDeclared p.scope role owner node names type value) := by
  have hnone : type = none ∨ value = none → Decides p {(.decls, node)} (pure [])
      (InitDeclared p.scope role owner node names type value) := by
    refine fun h => Decides.idle (.pure fun z _ => ⟨fun _ h => absurd h List.not_mem_nil, ?_⟩)
    rintro - t v rfl rfl
    simp at h
  cases type with
  | none => exact hnone (Or.inl rfl)
  | some type =>
    cases value with
    | none => exact hnone (Or.inr rfl)
    | some value =>
      refine (decides_initialMode type value span).andThen fun mode => ?_
      cases mode with
      | none =>
        refine Decides.idle (.pure fun z hz => ⟨fun _ h => absurd h List.not_mem_nil, fun h => ?_⟩)
        obtain ⟨mode, hmode, -⟩ := hz.fact h
        exact absurd hmode (by simp)
      | some mode =>
        refine (decides_names may type names).weaken.andThen fun bs => ?_
        refine (decides_recordDecl node _).andPure fun z _ hz hfind => ⟨hz.fact.1, ?_⟩
        rintro h t v ht hv
        obtain rfl := Option.some.inj ht
        obtain rfl := Option.some.inj hv
        obtain ⟨_, hmode, hwrites⟩ := hz.of_knowing.fact h
        obtain rfl := Option.some.inj hmode
        exact ⟨_, mode, hfind h, rfl, hz.fact.2 h, hwrites⟩

/-- A local definition is decided. -/
theorem decides_initDecl (may : Declares p .var none) (d : InitDecl) :
    Decides p (Part.allKeys (Stmt.define d).parts) (initDecl d) fun z _ => Accepted z →
      ∃ f mode, InitDone z p.scope p.scope d.node d.names d.value f mode := by
  refine ((decides_resolve p d.type).andThen fun type => (decides_requiredExpr
    (decides_expr p d.value)).weaken.bind fun value => (decides_declareInit may d.node d.names
      type value d.value.span).weaken.weaken.andPure fun z bs hz hd h => ?_).keys (add_comm _ _)
  obtain ⟨type, rfl⟩ := hz.of_knowing.fact h
  obtain ⟨value, rfl, hvalue⟩ := hz.fact h
  obtain ⟨f, mode, hfind, hmode, hnames, hwrites⟩ := hd.done h type value rfl rfl
  exact ⟨f, mode, hfind, hmode, hnames, value, hvalue, hwrites⟩

/-! ## Assignments -/

theorem keys_assign {x : Assignment} (h : x.target.links ≠ []) :
    {(.chains, x.target.node)} + Part.allKeys x.target.linkParts +
      (Part.allKeys x.value.parts + {(.assigns, x.node)}) =
        Part.allKeys (Stmt.assign x).parts := by
  have hassign : ((Part.assign x).keys : Multiset Key) = {(.assigns, x.node)} := by
    rw [Part.keys, Part.tables, if_neg h]
    rfl
  have hchain : ((Part.chain x.target).keys : Multiset Key) = {(.chains, x.target.node)} := by
    rw [Part.keys_chain h]
    rfl
  rw [Stmt.parts, Part.allKeys_cons, Part.allKeys_append, Chain.parts, Part.allKeys_cons, hassign,
    hchain]
  abel

theorem decides_writeTarget (x : Assignment) (finding : ChainFinding)
    (target value : TypeId) :
    Decides p {(.assigns, x.node)} (writeTarget x finding target value) fun z _ => Accepted z →
      ∃ mode, z.findings.assigns.find? x.node = some ⟨target, mode⟩ ∧ Writes z target value mode ∧
        (mode = .store → finding.binding.isSome = true) := by
  refine Decides.get fun a ha => ?_
  dsimp only
  split
  · rename_i hassignable
    refine decides_record (fun _ _ => .assign x.node _) fun b z hz hg h => ?_
    refine ⟨_, (Findings.nodup_assigns h.keys).find?_eq (hg.assigns List.mem_cons_self), ?_, ?_⟩
    · exact writes_writeMode ⟨ha.sound.types, hz.fact.types⟩ target value
    · intro hstore
      rw [writeMode] at hstore
      split at hstore
      · exact absurd hstore (by simp)
      · rename_i hl
        rw [TypeTable.assignable, hl] at hassignable
        simp only [Option.isSome_none, Bool.false_or, Bool.and_eq_true] at hassignable
        exact hassignable.1.1
  · split
    · exact (decides_report _ _).refused
    · exact (decides_report _ _).refused

/-- An assignment to a chain without links is accepted, and only its value is decided. -/
theorem decides_assign_nil {x : Assignment} (h : x.target.links = []) :
    Decides p (Part.allKeys (Stmt.assign x).parts) (assign x) fun z _ => Accepted z →
      ∃ t, ExprHas z p.scope x.value t := by
  obtain ⟨node, ⟨chainNode, links, chainSpan⟩, value, span⟩ := x
  obtain rfl : links = [] := h
  have hkeys : Part.allKeys (Stmt.assign ⟨node, ⟨chainNode, [], chainSpan⟩, value, span⟩).parts =
      Part.allKeys value.parts := rfl
  have hchain : Decides p 0 (chain ⟨chainNode, [], chainSpan⟩) fun _ target => target = none :=
    .pure fun _ _ => rfl
  rw [hkeys]
  refine hchain.andThen fun target => ?_
  refine ((decides_requiredExpr (decides_expr p value)).weaken.bind (L := 0) fun result => ?_).keys
    (add_zero _)
  cases result with
  | none => exact .pure fun z hz h => absurd h hz.fact.not_accepted
  | some value =>
    refine Decides.get fun b hb => ?_
    obtain rfl := hb.known.of_knowing.fact
    split
    · exact (decides_report _ _).refused
    · exact .pure fun z hz h => ⟨value, hz.of_knowing.fact.has h⟩

theorem decides_assign (x : Assignment) :
    Decides p (Part.allKeys (Stmt.assign x).parts) (assign x) fun z _ => Accepted z →
      (x.target.links ≠ [] → ∃ f, AssignDone z p.scope x f) ∧ ∃ t, ExprHas z p.scope x.value t := by
  by_cases hx : x.target.links = []
  · exact (decides_assign_nil hx).conseq fun _ _ _ hd hz => ⟨fun hlinks => absurd hx hlinks, hd hz⟩
  refine ((decides_chain p x.target).bind fun target => (decides_requiredExpr
    (decides_expr p x.value)).weaken.bind (L := {(.assigns, x.node)}) fun value => ?_).keys
      (keys_assign hx)
  cases value with
  | none => exact .idle (.pure fun z hz h => absurd h hz.fact.not_accepted)
  | some value =>
    refine Decides.get fun b hb => ?_
    have hchain : ∀ z, Accepted z → ChainDecided p x.target z target → x.target.links ≠ [] →
        ChainHas z p.scope x.target target := fun z hz hd hlinks =>
      (hd hz).resolve_left fun h => hlinks h.1
    split
    · rename_i finding hf
      cases target with
      | none => exact (decides_report _ _).refused
      | some target =>
        refine (decides_writeTarget x finding target value).conseq fun z _ hz hd h =>
          ⟨fun hlinks => ?_, value, hz.of_knowing.fact.has h⟩
        obtain ⟨mode, hfind, hwrites, hstore⟩ := hd h
        have hhas := hchain z h hz.of_knowing.of_knowing.fact hlinks
        obtain ⟨f, hrecord, -, hnames⟩ := hhas.names
        obtain rfl : finding = f := by
          have hmem := hz.fact.findings.chains (NodeTable.mem_of_find? hf)
          exact (Findings.nodup_chains h.keys).eq_of_mem hmem (NodeTable.mem_of_find? hrecord)
        refine ⟨_, hfind, hhas, ⟨value, hz.of_knowing.fact.has h, hwrites⟩, fun hs => ?_⟩
        exact hnames (hstore hs)
    · rename_i hf
      refine Decides.idle (.pure fun z hz h => ⟨fun hlinks => ?_, value, hz.of_knowing.fact.has h⟩)
      have hb' := h.before hb.sound hz.fact
      obtain ⟨f, hrecord, -⟩ := (hchain b hb' hb.known.of_knowing.fact hlinks).names
      exact absurd hrecord (by simp_all)

/-- A chain as a statement; one without links is accepted, and nothing is recorded. -/
theorem decides_chainStmt (p : Place) (c : Chain) :
    Decides p (Part.allKeys c.parts) (chain c) fun z t =>
      Accepted z → c.links ≠ [] → ChainHas z p.scope c t := by
  obtain ⟨node, links, span⟩ := c
  cases links with
  | nil => exact .pure fun _ _ _ h => absurd rfl h
  | cons head rest =>
    have hlinks : (Chain.mk node (head :: rest) span).links ≠ [] := List.cons_ne_nil _ _
    refine ((decides_chain p ⟨node, head :: rest, span⟩).conseq fun z t _ hd hz _ => ?_).keys ?_
    · exact (hd hz).resolve_left fun h => hlinks h.1
    · rw [Chain.parts, Part.allKeys_cons, Part.keys_chain hlinks]
      rfl

/-! ## Conditions and results -/

theorem decides_checkCondition (e : Expr) :
    Decides p (Part.allKeys e.parts) (checkCondition e) fun z _ => Accepted z →
      ∃ t, ExprHas z p.scope e t := by
  refine ((decides_requiredExpr (decides_expr p e)).bind (L := 0) fun type => ?_).keys (add_zero _)
  cases type with
  | none => exact .pure fun z hz h => absurd h hz.fact.not_accepted
  | some type =>
    refine decides_types.andThen fun t => ?_
    split
    · exact .pure fun z hz h => ⟨type, hz.of_knowing.fact.has h⟩
    · exact (decides_report _ _).refused

theorem decides_checkReturn (r : RoutineDef) (result : Option TypeId) :
    Decides p (Part.allKeys (ReturnClause.optParts r.ret)) (checkReturn r result) fun z _ =>
      Accepted z → RetDone z p.scope r.ret result := by
  obtain ⟨node, name, closing, params, promised, body, ret, span⟩ := r
  cases ret with
  | none =>
    cases result with
    | none => exact .pure fun _ _ _ => .none
    | some type => exact (decides_typeName type).andThen fun _ => (decides_report _ _).refused
  | some ret =>
    cases result with
    | none =>
      exact ((decides_expr p ret.value).bind (L := 0) fun _ => (decides_report _ _).refused).keys
        (add_zero _)
    | some type =>
      refine ((decides_requiredExpr (decides_expr p ret.value)).bind (L := 0) fun value => ?_).keys
        (add_zero _)
      cases value with
      | none => exact .pure fun z hz h => absurd h hz.fact.not_accepted
      | some value =>
        refine decides_types.andThen fun t => ?_
        split
        · exact .pure fun z hz h => .some (hz.of_knowing.fact.has h)
        · exact (decides_report _ _).refused

end Analysis

end Unnest
