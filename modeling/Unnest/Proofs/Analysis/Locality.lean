import Mathlib.Data.Set.Insert
import Unnest.Proofs.Analysis.Additions
import Unnest.Proofs.Analysis.Definitions
import Unnest.Proofs.Scope.Locality

/-!
# Where an analysis changes its tables

A part of the analysis that starts at a horizon declares in what the horizon owns, gives
members to types that were added since, and writes findings under the keys of the nodes
that it walks over.  Everything else stays as it was (`Analysis.Spares`), whatever the part
reports.

`Stays h K m post` says so of a part `m` that writes under keys in `K`.  Its result tells
which scopes and types are new (`post`, which may count on the scopes that there are then),
and a part that follows may change those.  Nothing is assumed about the tables but that what
was opened since is inside of what is owned.
-/

namespace Unnest

/-! ## Keys -/

namespace Findings

/-- The same is written under a key. -/
def Alike (f g : Findings) : Key → Prop
  | (.exprTypes, n) => g.exprTypes.find? n = f.exprTypes.find? n
  | (.operators, n) => g.operators.find? n = f.operators.find? n
  | (.links, n) => g.links.find? n = f.links.find? n
  | (.chains, n) => g.chains.find? n = f.chains.find? n
  | (.blocks, n) => g.blocks.find? n = f.blocks.find? n
  | (.decls, n) => g.decls.find? n = f.decls.find? n
  | (.assigns, n) => g.assigns.find? n = f.assigns.find? n
  | (.routines, n) => g.routines.find? n = f.routines.find? n
  | (.types, n) => g.types.find? n = f.types.find? n

/-- The same is written about a node. -/
def AlikeAt (f g : Findings) (n : NodeId) : Prop := ∀ t, f.Alike g (t, n)

variable {f g i : Findings} {k j : Key}

theorem Alike.refl (f : Findings) (k : Key) : f.Alike f k := by
  obtain ⟨t, n⟩ := k
  cases t <;> rfl

theorem Alike.trans (h : f.Alike g k) (h' : g.Alike i k) : f.Alike i k := by
  obtain ⟨t, n⟩ := k
  cases t <;> exact Eq.trans h' h

/-- The findings with something written under a key, or with the captures of a routine. -/
inductive Writes (f : Findings) : Key → Findings → Prop
  | exprType (n : NodeId) (x : TypeId) :
      Writes f (.exprTypes, n) { f with exprTypes := f.exprTypes.write n x }
  | operator (n : NodeId) (x : OperatorCall) :
      Writes f (.operators, n) { f with operators := f.operators.write n x }
  | link (n : NodeId) (x : LinkFinding) :
      Writes f (.links, n) { f with links := f.links.write n x }
  | chain (n : NodeId) (x : ChainFinding) :
      Writes f (.chains, n) { f with chains := f.chains.write n x }
  | block (n : NodeId) (x : ScopeId) :
      Writes f (.blocks, n) { f with blocks := f.blocks.write n x }
  | decl (n : NodeId) (x : DeclFinding) :
      Writes f (.decls, n) { f with decls := f.decls.write n x }
  | assign (n : NodeId) (x : AssignFinding) :
      Writes f (.assigns, n) { f with assigns := f.assigns.write n x }
  | routine (n : NodeId) (x : RoutineFinding) :
      Writes f (.routines, n) { f with routines := f.routines.write n x }
  | type (n : NodeId) (x : TypeFinding) :
      Writes f (.types, n) { f with types := f.types.write n x }
  | captures (n : NodeId) (sources : List CaptureSource) :
      Writes f (.routines, n) (f.complete n sources)

/-- A definition is on record under a key. -/
def Defines (f : Findings) : Key → Prop
  | (.routines, n) => (f.routines.find? n).isSome
  | (.types, n) => (f.types.find? n).isSome
  | (.exprTypes, _) | (.operators, _) | (.links, _) | (.chains, _) | (.blocks, _) | (.decls, _)
  | (.assigns, _) => False

theorem Alike.defines (h : f.Alike g k) : g.Defines k ↔ f.Defines k := by
  obtain ⟨t, n⟩ := k
  cases t with
  | routines => exact iff_of_eq (congrArg (fun x => Option.isSome x = true) h)
  | types => exact iff_of_eq (congrArg (fun x => Option.isSome x = true) h)
  | _ => exact Iff.rfl

/-- Nothing is taken off the record. -/
theorem Writes.defines (h : f.Writes k g) (hj : f.Defines j) : g.Defines j := by
  obtain ⟨t, n⟩ := j
  cases h with
  | routine m x =>
    cases t <;> try exact hj
    refine (congrArg Option.isSome (NodeTable.find?_write f.routines m n x)).trans ?_
    split
    · rfl
    · exact hj
  | type m x =>
    cases t <;> try exact hj
    refine (congrArg Option.isSome (NodeTable.find?_write f.types m n x)).trans ?_
    split
    · rfl
    · exact hj
  | captures m sources =>
    cases t <;> try exact hj
    refine (congrArg Option.isSome (NodeTable.find?_change f.routines m n
      ({ · with captures := sources }))).trans ?_
    split
    · rw [Option.isSome_map]
      exact hj
    · exact hj
  | _ => cases t <;> exact hj

/-- What is written under one key leaves the others. -/
theorem Writes.alike (h : f.Writes k g) (hj : j ≠ k) : f.Alike g j := by
  obtain ⟨t, n⟩ := j
  cases h with
  | captures m sources =>
    cases t <;> try rfl
    refine (NodeTable.find?_change f.routines m n ({ · with captures := sources })).trans
      (if_neg ?_)
    rintro rfl
    exact hj rfl
  | _ =>
    cases t <;> try rfl
    all_goals
      refine (NodeTable.find?_write ..).trans (if_neg ?_)
      rintro rfl
      exact hj rfl

end Findings

/-- The keys of a node but those of definitions. -/
def Notes (K : Set Key) (n : NodeId) : Prop := ∀ t, t ≠ .routines → t ≠ .types → (t, n) ∈ K

/-- All keys but those of definitions. -/
def plainKeys : Set Key := {k | k.1 ≠ .routines ∧ k.1 ≠ .types}

theorem notes_plainKeys (n : NodeId) : Notes plainKeys n := fun _ hr ht => ⟨hr, ht⟩

/-- All keys of a node. -/
def Annotates (K : Set Key) (n : NodeId) : Prop := ∀ t, (t, n) ∈ K

theorem Annotates.notes {K : Set Key} {n : NodeId} (h : Annotates K n) : Notes K n :=
  fun t _ _ => h t

namespace Analysis

open Analyze

variable {α β : Type} {h : Horizon} {K L : Set Key} {a b c : Analysis}

/-! ## What stays -/

/-- Everything that was opened since the horizon is inside of what it owns. -/
structure Confined (h : Horizon) (a : Analysis) : Prop where
  current : h.Owns a.current
  has : a.scopes.Has a.current
  scopes : a.scopes.Confined h
  types : h.types ≤ a.types.size

/-- A change of what a horizon owns, and of findings under some keys. -/
structure Spares (h : Horizon) (K : Set Key) (a b : Analysis) : Prop where
  current : b.current = a.current
  scopes : a.scopes.Local h b.scopes
  units : a.units.Extends b.units
  types : ∀ id, id.index < h.types → b.types.get id = a.types.get id
  findings : ∀ k ∉ K, a.findings.Alike b.findings k
  recorded : ∀ k, a.findings.Defines k → b.findings.Defines k

namespace Spares

theorem refl (h : Horizon) (K : Set Key) (a : Analysis) : Spares h K a a :=
  ⟨rfl, .refl h a.scopes, .refl a.units, fun _ _ => rfl, fun k _ => .refl a.findings k,
    fun _ hk => hk⟩

theorem trans (hab : Spares h K a b) (hbc : Spares h K b c) (ha : a.scopes.Confined h) :
    Spares h K a c :=
  ⟨hbc.current.trans hab.current, hab.scopes.trans hbc.scopes ha, hab.units.trans hbc.units,
    fun id hid => (hbc.types id hid).trans (hab.types id hid),
    fun k hk => (hab.findings k hk).trans (hbc.findings k hk),
    fun k hk => hbc.recorded k (hab.recorded k hk)⟩

theorem of_upto {n : Nat} (hab : Spares (h.upto n) K a b) : Spares h K a b :=
  ⟨hab.current, hab.scopes.of_upto, hab.units, hab.types, hab.findings, hab.recorded⟩

end Spares

/-- In a scope that was opened, everything is as confined as before. -/
theorem Confined.enter (ha : Confined h a) {s : ScopeId} (hs : h.Reaches s) :
    Confined h { a with current := s } :=
  ⟨hs.owns, ha.scopes.has_of_reaches hs, ha.scopes, ha.types⟩

theorem Confined.upto (ha : Confined h a) : Confined (h.upto a.scopes.size) a :=
  ⟨ha.current, ha.has, ha.scopes.upto (Nat.le_refl _), ha.types⟩

theorem Confined.of_upto {n : Nat} (ha : Confined (h.upto n) a) (hn : h.opened ≤ n) :
    Confined h a :=
  ⟨ha.current, ha.has, ha.scopes.of_upto (hn.trans ha.scopes.opened_le), ha.types⟩

/-- Where a walk starts that starts here. -/
def here (a : Analysis) : Horizon :=
  { scope := a.current, scopes := a.scopes.size, types := a.types.size }

theorem confined_here (ha : Sound a) : Confined a.here a :=
  ⟨Or.inl rfl, ha.has, ⟨ha.has, Nat.le_refl _, Nat.zero_le _,
    fun _ hj hhas => absurd hhas (Nat.not_lt_of_le hj)⟩, Nat.le_refl _⟩

/-- A part of the analysis changes what is owned, and writes under these keys. -/
def Stays (h : Horizon) (K : Set Key) (m : Analyze α) (post : Horizon → α → Prop) : Prop :=
  ∀ a, Confined h a → Confined h (m.run a).2 ∧ Spares h K a (m.run a).2 ∧
    post (h.upto (m.run a).2.scopes.size) (m.run a).1

/-- A part whose result tells of no new scope or type. -/
abbrev Keeps (h : Horizon) (K : Set Key) (m : Analyze α) : Prop := Stays h K m fun _ _ => True

namespace Stays

variable {m : Analyze α} {post : Horizon → α → Prop} {post' : Horizon → β → Prop}

theorem pure {x : α} (hx : ∀ n, h.opened ≤ n → post (h.upto n) x) : Stays h K (pure x) post :=
  fun a ha => ⟨ha, .refl h K a, hx _ ha.scopes.opened_le⟩

theorem done {x : α} : Keeps h K (Pure.pure x) := .pure fun _ _ => trivial

/-- What follows counts on the scopes that have been opened by then. -/
theorem bind {f : α → Analyze β} (hm : Stays h K m post)
    (hf : ∀ n x, h.opened ≤ n → post (h.upto n) x → Stays (h.upto n) K (f x) post') :
    Stays h K (m >>= f) post' := by
  intro a ha
  obtain ⟨hb, hab, hx⟩ := hm a ha
  have hle := hb.scopes.opened_le
  obtain ⟨hc, hbc, hy⟩ := hf _ _ hle hx _ hb.upto
  exact ⟨hc.of_upto hle, hab.trans hbc.of_upto ha.scopes, hy⟩

/-- A part of which nothing is known but what it keeps. -/
theorem next {f : α → Analyze β} (hm : Keeps h K m) (hf : ∀ x, Stays h K (f x) post') :
    Stays h K (m >>= f) post' := by
  intro a ha
  obtain ⟨hb, hab, -⟩ := hm a ha
  obtain ⟨hc, hbc, hy⟩ := hf _ _ hb
  exact ⟨hc, hab.trans hbc ha.scopes, hy⟩

theorem forget (hm : Stays h K m post) : Keeps h K m := fun a ha => by
  obtain ⟨hb, hab, -⟩ := hm a ha
  exact ⟨hb, hab, trivial⟩

theorem discard (hm : Stays h K m post) : Keeps h K (discard m) := hm.forget

theorem get {f : Analysis → Analyze β} (hf : ∀ a, Stays h K (f a) post') :
    Stays h K (get >>= f) post' := fun a => hf a a

theorem currentScope {f : ScopeId → Analyze β} (hf : ∀ s, h.Owns s → Stays h K (f s) post') :
    Stays h K (currentScope >>= f) post' := fun a ha => hf a.current ha.current a ha

/-- A part in a scope that was opened. -/
theorem inScope {s : ScopeId} (hs : h.Reaches s) (hm : Stays h K m post) :
    Stays h K (inScope s m) post := fun a ha => by
  obtain ⟨hb, hab, hx⟩ := hm { a with current := s } (ha.enter hs)
  exact ⟨⟨ha.current, ha.has.trans_le hab.scopes.size_le, hb.scopes, hb.types⟩,
    ⟨rfl, hab.scopes, hab.units, hab.types, hab.findings, hab.recorded⟩, hx⟩

end Stays

/-! ## Single changes -/

theorem keeps_types : Keeps h K Analyze.types := fun a ha => ⟨ha, .refl h K a, trivial⟩

theorem keeps_typeName (type : TypeId) : Keeps h K (typeName type) :=
  fun a ha => ⟨ha, .refl h K a, trivial⟩

theorem keeps_resolveType (name : String) : Keeps h K (resolveType name) :=
  fun a ha => ⟨ha, .refl h K a, trivial⟩

theorem keeps_reportError (e : SemanticError) : Keeps h K (reportError e) := fun a ha =>
  ⟨⟨ha.current, ha.has, ha.scopes, ha.types⟩, ⟨rfl, .refl h a.scopes, .refl a.units,
    fun _ _ => rfl, fun k _ => .refl a.findings k, fun _ hk => hk⟩, trivial⟩

theorem keeps_report (fault : Fault) (span : Span) : Keeps h K (report fault span) :=
  keeps_reportError _

theorem keeps_reject (fault : Fault) (span : Span) (x : α) :
    Keeps h K (report fault span >>= fun _ => pure x) := (keeps_report fault span).next fun _ => .done

theorem keeps_record {f : Findings → Findings} {k : Key} (hk : k ∈ K)
    (hf : ∀ x : Findings, x.Writes k (f x)) : Keeps h K (record f) := fun a ha =>
  ⟨⟨ha.current, ha.has, ha.scopes, ha.types⟩, ⟨rfl, .refl h a.scopes, .refl a.units,
    fun _ _ => rfl, fun _ hj => (hf a.findings).alike (by rintro rfl; exact hj hk),
    fun _ hj => (hf a.findings).defines hj⟩, trivial⟩

theorem keeps_planUnit (name : String) (kind : UnitKind) (ownerType : Option TypeId) :
    Keeps h K (planUnit name kind ownerType) := fun a ha =>
  ⟨⟨ha.current, ha.has, ha.scopes, ha.types⟩, ⟨rfl, .refl h a.scopes, Units.extends_plan ..,
    fun _ _ => rfl, fun k _ => .refl a.findings k, fun _ hk => hk⟩, trivial⟩

/-- A change of the scopes. -/
theorem Confined.withScopes {t : Scopes} (ha : Confined h a) (ht : a.scopes.Local h t)
    (hc : t.Confined h) : Confined h { a with scopes := t } ∧ Spares h K a { a with scopes := t } :=
  ⟨⟨ha.current, ha.has.trans_le ht.size_le, hc, ha.types⟩,
    ⟨rfl, ht, .refl a.units, fun _ _ => rfl, fun k _ => .refl a.findings k, fun _ hk => hk⟩⟩

/-- A change of the types. -/
theorem Confined.withTypes {t : TypeTable} (ha : Confined h a) (hsize : a.types.size ≤ t.size)
    (ht : ∀ id, id.index < h.types → t.get id = a.types.get id) :
    Confined h { a with types := t } ∧ Spares h K a { a with types := t } :=
  ⟨⟨ha.current, ha.has, ha.scopes, ha.types.trans hsize⟩,
    ⟨rfl, .refl h a.scopes, .refl a.units, ht, fun k _ => .refl a.findings k, fun _ hk => hk⟩⟩

theorem stays_addType (d : TypeDecl) : Stays h K (addType d) fun _ id => h.types ≤ id.index := by
  intro a ha
  have hx := TypeTable.extends_add a.types d
  obtain ⟨hb, hab⟩ := ha.withTypes (K := K) hx.size_le fun id hid =>
    TypeTable.get_add_old d (Nat.lt_of_lt_of_le hid ha.types)
  exact ⟨hb, hab, ha.types⟩

theorem keeps_addRoutineType (params : List TypeId) (result : Option TypeId) :
    Keeps h K (addRoutineType params result) := (stays_addType _).forget

/-- A change of a type that was added since. -/
theorem keeps_updateType {type : TypeId} (ht : h.types ≤ type.index) (f : TypeDecl → TypeDecl) :
    Keeps h K (updateTypes fun t => t.update type f) := fun a ha => by
  obtain ⟨hb, hab⟩ := ha.withTypes (K := K) (t := a.types.update type f) (by rw [TypeTable.size_update])
    fun id hid => TypeTable.get_update_of_ne (by rintro rfl; exact Nat.not_le_of_lt hid ht) f
  exact ⟨hb, hab, trivial⟩

theorem keeps_memberRoutine (owner : TypeId) (isStatic : Bool) (name : String) :
    Keeps h K (memberRoutine owner isStatic name) := fun a ha => by
  suffices hsuff : ∀ t, t = a.types ∨ (∃ signatures memberTypes,
      (∀ s ∈ signatures, s.name = Reserved.call) ∧
        t = { (a.types.add (.ofSignatures signatures)).2 with memberTypes }) →
      Confined h { a with types := t } ∧ Spares h K a { a with types := t } by
    obtain ⟨hb, hab⟩ := hsuff _ (TypeTable.memberRoutine_cases a.types owner isStatic name)
    exact ⟨hb, hab, trivial⟩
  rintro t (rfl | ⟨signatures, memberTypes, -, rfl⟩)
  · exact ⟨ha, .refl h K a⟩
  · exact ha.withTypes (TypeTable.extends_add a.types _).size_le fun id hid =>
      TypeTable.get_add_old _ (Nat.lt_of_lt_of_le hid ha.types)

/-- A change of a scope that is owned, which leaves the tree as it is. -/
theorem keeps_updateScope {s : ScopeId} (hs : h.Owns s) {f : Scope → Scope}
    (hp : ∀ x, (f x).parent = x.parent) (hk : ∀ x, (f x).kind = x.kind)
    (hn : ∀ x, (f x).numLocals = x.numLocals) (hcs : ∀ x, (f x).captures = x.captures) :
    Keeps h K (updateScopes fun t => t.update s f) := fun a ha => by
  obtain ⟨hb, hab⟩ := ha.withScopes (K := K) (.update hs hp hk hn hcs) (ha.scopes.update hp)
  exact ⟨hb, hab, trivial⟩

theorem keeps_markMember {s : ScopeId} (hs : h.Owns s) (memberOf : Option TypeId)
    (isStatic : Bool) : Keeps h K (updateScopes fun t => t.markMember s memberOf isStatic) :=
  keeps_updateScope hs (fun _ => rfl) (fun _ => rfl) (fun _ => rfl) fun _ => rfl

theorem stays_openScope (kind : ScopeKind) (name : String) (unit : UnitId) :
    Stays h K (openScope kind name unit) Horizon.Reaches := fun a ha => by
  obtain ⟨ht, hc, hle⟩ := Scopes.local_openScope ha.scopes ha.current ha.has kind name unit
  obtain ⟨hb, hab⟩ := ha.withScopes (K := K) ht hc
  exact ⟨hb, hab, hle, (Scopes.size_openScope ..).symm ▸ Nat.lt_succ_self _⟩

theorem keeps_lookup (name : String) : Keeps h K (lookup name) := fun a ha => by
  rw [run_lookup]
  split
  · rename_i r _
    obtain ⟨hb, hab⟩ := ha.withScopes (K := K)
      (Scopes.local_capture ha.scopes ha.current r.binding r.owner)
      (ha.scopes.capture a.current r.binding r.owner)
    exact ⟨hb, hab, trivial⟩
  · exact ⟨ha, .refl h K a, trivial⟩

theorem keeps_declare {s : ScopeId} (hs : h.Owns s) (b : Binding) (span : Span) :
    Keeps h K (declare s b span) := fun a ha => by
  rw [run_declare]
  cases hd : a.scopes.declare s b span with
  | error e => exact keeps_reportError e a ha
  | ok result =>
    obtain ⟨ht, hc⟩ := Scopes.local_declare ha.scopes hs hd
    obtain ⟨hb, hab⟩ := ha.withScopes (K := K) ht hc
    exact ⟨hb, hab, trivial⟩

theorem keeps_declareType {s : ScopeId} (hs : h.Owns s) (name : String) (type : TypeId)
    (span : Span) : Keeps h K (Analyze.declareType s name type span) := fun a ha => by
  rw [run_declareType]
  cases hd : a.scopes.declareType s name type span with
  | error e => exact keeps_reportError e a ha
  | ok scopes =>
    obtain ⟨ht, hc⟩ := Scopes.local_declareType ha.scopes hs hd
    obtain ⟨hb, hab⟩ := ha.withScopes (K := K) ht hc
    exact ⟨hb, hab, trivial⟩

/-! ## Expressions -/

section Links

variable {m : Analyze (Option TypeId)} {args : ArgumentTypes} {node : NodeId}

theorem keeps_recordLink (hn : Notes K node) (f : LinkFinding) : Keeps h K (recordLink node f) :=
  keeps_record (hn .links (by decide) (by decide)) fun _ => .link node f

theorem keeps_recordCall (hn : Notes K node) (owner : TypeId) (routine : Signature)
    (callee : Callee) : Keeps h K (recordCall node owner routine callee) :=
  (keeps_recordLink hn _).next fun _ => .done

theorem keeps_reportNoRoutine (name : String) (args : List TypeId) (owner : Option TypeId)
    (span : Span) : Keeps h K (reportNoRoutine name args owner span) :=
  keeps_types.next fun _ => keeps_reject _ _ _

theorem keeps_bareHead (hn : Notes K node) (name : String) (span : Span) (hasMore : Bool) :
    Keeps h K (bareHead node name span hasMore) := by
  refine (keeps_lookup name).next fun result => ?_
  cases result with
  | found r access => exact (keeps_recordLink hn _).next fun _ => .done
  | hidden => exact keeps_reject _ _ _
  | missing =>
    refine (keeps_resolveType name).next fun type => ?_
    cases type with
    | none => exact keeps_reject _ _ _
    | some type =>
      cases hasMore
      · exact keeps_reject _ _ _
      · exact (keeps_recordLink hn _).next fun _ => .done

theorem keeps_callType (hargs : Keeps h K args) (hn : Notes K node) (type : TypeId) (span : Span) :
    Keeps h K (callType node type span args) := by
  refine hargs.next fun ts => ?_
  cases ts with
  | none => exact .done
  | some ts =>
    refine keeps_types.next fun t => ?_
    split
    · exact keeps_recordCall hn _ _ _
    · split
      · exact (keeps_recordLink hn _).next fun _ => .done
      · exact keeps_reportNoRoutine _ _ _ _

theorem keeps_callHead (hargs : Keeps h K args) (hn : Notes K node) (name : String) (span : Span) :
    Keeps h K (callHead node name span args) := by
  refine (keeps_lookup name).next fun result => ?_
  cases result with
  | found r access =>
    refine hargs.next fun ts => ?_
    cases ts with
    | none => exact .done
    | some ts =>
      refine keeps_types.next fun t => ?_
      split
      · exact keeps_recordCall hn _ _ _
      · exact keeps_reportNoRoutine _ _ _ _
  | hidden => exact keeps_reject _ _ _
  | missing =>
    refine (keeps_resolveType name).next fun type => ?_
    cases type with
    | none => exact keeps_reject _ _ _
    | some type => exact keeps_callType hargs hn type span

theorem keeps_bareMember (hn : Notes K node) (owner : TypeId) (isStatic : Bool) (name : String)
    (span : Span) : Keeps h K (bareMember owner isStatic node name span) := by
  have hread : Keeps h K (readMember owner isStatic name) := by
    refine keeps_types.next fun t => ?_
    split
    · exact .done
    · exact keeps_memberRoutine owner isStatic name
  refine hread.next fun field => ?_
  cases field with
  | some field => exact (keeps_recordLink hn _).next fun _ => .done
  | none =>
    refine (keeps_typeName owner).next fun ownerName => ?_
    cases isStatic <;> exact keeps_reject _ _ _

theorem keeps_callMember (hargs : Keeps h K args) (hn : Notes K node) (owner : TypeId)
    (isStatic : Bool) (name : String) (span : Span) :
    Keeps h K (callMember owner isStatic node name span args) := by
  refine hargs.next fun ts => ?_
  cases ts with
  | none => exact .done
  | some ts =>
    refine keeps_types.next fun t => ?_
    split
    · exact keeps_recordCall hn _ _ _
    · split
      · exact keeps_recordCall hn _ _ _
      · exact keeps_reportNoRoutine _ _ _ _

theorem keeps_onReceiver {before : Produced} {span : Span}
    {link : TypeId → Bool → Analyze (Option Produced)}
    (hl : ∀ owner isStatic, Keeps h K (link owner isStatic)) :
    Keeps h K (onReceiver before span link) := by
  rw [onReceiver]
  split
  · exact hl _ _
  · exact keeps_reject _ _ _

theorem keeps_finishChain (hn : Notes K node) (span : Span) (last : Produced) :
    Keeps h K (finishChain node span last) := by
  have hrecord : ∀ f, Keeps h K (record fun t => { t with chains := t.chains.write node f }) :=
    fun f => keeps_record (hn .chains (by decide) (by decide)) fun _ => .chain node f
  cases last with
  | value type binding => exact (hrecord _).next fun _ => .done
  | nothing => exact (hrecord _).next fun _ => .done
  | typeName type => exact (keeps_typeName type).next fun _ => keeps_reject _ _ _

theorem keeps_operator (hn : Notes K node) (name : String) (owner : TypeId) (isStatic : Bool)
    (args : List TypeId) (span : Span) : Keeps h K (operator node name owner isStatic args span) := by
  refine keeps_types.next fun t => ?_
  split
  · exact (keeps_record (hn .operators (by decide) (by decide)) fun _ => .operator node _).next
      fun _ => .done
  · exact keeps_reject _ _ _

theorem keeps_required (hm : Keeps h K m) (span : Span) : Keeps h K (required span m) := by
  refine .get fun a => hm.next fun type => ?_
  cases type with
  | some type => exact .done
  | none =>
    refine .get fun b => ?_
    split
    · exact keeps_reject _ _ _
    · exact .done

theorem keeps_typed (hm : Keeps h K m) (hn : Notes K node) : Keeps h K (typed node m) := by
  refine hm.next fun type => ?_
  cases type with
  | some type => exact (keeps_record (hn .exprTypes (by decide) (by decide)) fun _ =>
      .exprType node type).next fun _ => .done
  | none => exact .done

end Links

mutual

/-- An expression writes under its own nodes, and changes nothing else but captures. -/
theorem keeps_expr : (e : Expr) → (∀ x ∈ e.parts, Notes K x.node) → Keeps h K (expr e)
  | .literal node value _, hn => keeps_typed .done (hn _ List.mem_cons_self)
  | .binary node op left right span, hn => by
    rw [Expr.parts, List.forall_mem_cons, List.forall_mem_append] at hn
    obtain ⟨hn, hl, hr⟩ := hn
    refine keeps_typed ((keeps_required (keeps_expr left hl) _).next fun l =>
      (keeps_required (keeps_expr right hr) _).next fun r => ?_) hn
    cases l with
    | none => exact .done
    | some l =>
      cases r with
      | none => exact .done
      | some r => exact keeps_operator hn _ _ _ _ _
  | .unary node op operand span, hn => by
    rw [Expr.parts, List.forall_mem_cons] at hn
    obtain ⟨hn, ho⟩ := hn
    refine keeps_typed ((keeps_required (keeps_expr operand ho) _).next fun o => ?_) hn
    cases o with
    | none => exact .done
    | some o => exact keeps_operator hn _ _ _ _ _
  | .paren node inner _, hn => by
    rw [Expr.parts, List.forall_mem_cons] at hn
    exact keeps_typed (keeps_expr inner hn.2) hn.1
  | .chain c, hn => by
    rw [Expr.parts, List.forall_mem_cons] at hn
    exact keeps_typed (keeps_chain c hn.1 hn.2) hn.1

theorem keeps_chain : (c : Chain) → Notes K c.node → (∀ x ∈ c.linkParts, Notes K x.node) →
    Keeps h K (chain c)
  | ⟨_, [], _⟩, _, _ => .done
  | ⟨node, head :: rest, span⟩, hn, hl => by
    rw [Chain.linkParts, Link.allParts, List.forall_mem_append] at hl
    refine (keeps_headLink (!rest.isEmpty) head hl.1).next fun first => ?_
    cases first with
    | none => exact .done
    | some first =>
      refine (keeps_memberLinks first rest hl.2).next fun last => ?_
      cases last with
      | none => exact .done
      | some last => exact keeps_finishChain hn span last

theorem keeps_headLink (hasMore : Bool) : (l : Link) → (∀ x ∈ l.parts, Notes K x.node) →
    Keeps h K (headLink hasMore l)
  | .bare node name span, hn => keeps_bareHead (hn _ List.mem_cons_self) name.name span hasMore
  | .call node name args span, hn => by
    rw [Link.parts, List.forall_mem_cons] at hn
    exact keeps_callHead (keeps_arguments args hn.2) hn.1 name.name span

theorem keeps_memberLink (before : Produced) : (l : Link) → (∀ x ∈ l.parts, Notes K x.node) →
    Keeps h K (memberLink before l)
  | .bare node name span, hn => keeps_onReceiver fun owner isStatic =>
      keeps_bareMember (hn _ List.mem_cons_self) owner isStatic name.name span
  | .call node name args span, hn => by
    rw [Link.parts, List.forall_mem_cons] at hn
    exact keeps_onReceiver fun owner isStatic =>
      keeps_callMember (keeps_arguments args hn.2) hn.1 owner isStatic name.name span

theorem keeps_memberLinks (before : Produced) : (ls : List Link) →
    (∀ x ∈ Link.allParts ls, Notes K x.node) → Keeps h K (memberLinks before ls)
  | [], _ => .done
  | l :: ls, hn => by
    rw [Link.allParts, List.forall_mem_append] at hn
    refine (keeps_memberLink before l hn.1).next fun produced => ?_
    cases produced with
    | none => exact .done
    | some produced => exact keeps_memberLinks produced ls hn.2

theorem keeps_arguments : (es : List Expr) → (∀ x ∈ Expr.allParts es, Notes K x.node) →
    Keeps h K (arguments es)
  | [], _ => .done
  | e :: es, hn => by
    rw [Expr.allParts, List.forall_mem_append] at hn
    exact (keeps_required (keeps_expr e hn.1) _).next fun _ =>
      (keeps_arguments es hn.2).next fun _ => .done

end

theorem keeps_operand (e : Expr) (hn : ∀ x ∈ e.parts, Notes K x.node) : Keeps h K (operand e) :=
  keeps_required (keeps_expr e hn) e.span

end Analysis

end Unnest
