import Unnest.Analysis.Expr
import Unnest.Proofs.Analysis.Definitions

/-!
# Types that are mentioned

Scopes, types, units and findings mention types by their index.  `mentions` lists the
indices that a piece of data holds, and a state is grounded when the table has all of them
(`Analysis.Grounded`).  The signatures of a routine type mention older types only: it gets
them when it is made, and never another one.

`Grounds os ts m new` says that a part of the analysis keeps this.  It needs the types `ts`
to be there, and of the types `new` that its result mentions it makes sure that they are.
The types `os` are user types whose definition is open; no others get members.
-/

namespace Unnest

/-! ## Listing -/

/-- The types that a binding mentions. -/
def Binding.mentions (b : Binding) : List TypeId := b.type :: b.owner.toList

/-- The types that a signature mentions. -/
def Signature.mentions (s : Signature) : List TypeId := s.params ++ s.result.toList

/-- The type that a static member is reached through. -/
def Access.mentions : Access → List TypeId
  | .static type => [type]
  | .slot _ | .captured | .enclosing | .itself => []

/-- The types that a source of a captured value mentions. -/
def CaptureSource.mentions (c : CaptureSource) : List TypeId := c.type :: c.access.mentions

/-- The types that a scope mentions. -/
def Scope.mentions (s : Scope) : List TypeId :=
  s.entries.flatMap Binding.mentions ++ s.captures.flatMap (·.binding.mentions) ++
    s.types.map (·.2) ++ s.memberOf.toList

/-- The types that a type mentions. -/
def TypeDecl.mentions (d : TypeDecl) : List TypeId :=
  d.routines.flatMap Signature.mentions ++ d.staticRoutines.flatMap Signature.mentions ++
    d.fields.flatMap Binding.mentions ++ d.staticFields.flatMap Binding.mentions

/-- The types that what is called mentions. -/
def Callee.mentions : Callee → List TypeId
  | .binding b access => b.mentions ++ access.mentions
  | .member _ => []
  | .fieldValue field _ => field.mentions

/-- The types that a link mentions. -/
def LinkFinding.mentions : LinkFinding → List TypeId
  | .load b access => b.mentions ++ access.mentions
  | .typeName type | .construct type => [type]
  | .field owner b => owner :: b.mentions
  | .call owner routine callee => owner :: (routine.mentions ++ callee.mentions)

/-- The types that the routine of an operator mentions. -/
def OperatorCall.mentions (c : OperatorCall) : List TypeId := c.owner :: c.routine.mentions

/-- The types that a chain mentions. -/
def ChainFinding.mentions (f : ChainFinding) : List TypeId :=
  f.type.toList ++ f.binding.toList.flatMap Binding.mentions

/-- The types that a way of writing mentions. -/
def WriteMode.mentions : WriteMode → List TypeId
  | .copy routine => routine.mentions
  | .store => []

/-- The types that a declaration mentions. -/
def DeclFinding.mentions (f : DeclFinding) : List TypeId :=
  f.type :: (f.bindings.flatMap Binding.mentions ++ f.mode.toList.flatMap WriteMode.mentions)

/-- The types that an assignment mentions. -/
def AssignFinding.mentions (f : AssignFinding) : List TypeId := f.target :: f.mode.mentions

/-- The types that a routine on record mentions. -/
def RoutineFinding.mentions (f : RoutineFinding) : List TypeId :=
  f.signature.mentions ++ f.binding.mentions ++ f.memberOf.toList ++
    f.params.flatMap Binding.mentions ++ f.captures.flatMap CaptureSource.mentions

/-- The types that a type on record mentions. -/
def TypeFinding.mentions (f : TypeFinding) : List TypeId :=
  f.type :: f.captures.flatMap CaptureSource.mentions

/-- The types that findings mention. -/
def Findings.mentions (f : Findings) : List TypeId :=
  f.exprTypes.map (·.2) ++ f.operators.flatMap (·.2.mentions) ++ f.links.flatMap (·.2.mentions) ++
    f.chains.flatMap (·.2.mentions) ++ f.decls.flatMap (·.2.mentions) ++
    f.assigns.flatMap (·.2.mentions) ++ f.routines.flatMap (·.2.mentions) ++
    f.types.flatMap (·.2.mentions)

/-- The types that a lookup mentions. -/
def Lookup.mentions : Lookup → List TypeId
  | .found r access => r.binding.mentions ++ access.mentions
  | .hidden | .missing => []

/-- The types that what links produce mentions. -/
def Produced.mentions : Produced → List TypeId
  | .value type binding => type :: binding.toList.flatMap Binding.mentions
  | .nothing => []
  | .typeName type => [type]

/-- The types that a routine on offer mentions, its owner included. -/
def TypeTable.offered (t : TypeTable) (owner : TypeId) (isStatic : Bool) (name : String)
    (args : List TypeId) : List TypeId :=
  (t.lookup owner isStatic name args).toList.flatMap fun s => owner :: s.mentions

theorem TypeDecl.routines_mentions {d : TypeDecl} {isStatic : Bool} {s : Signature}
    (h : s ∈ d.routinesOf isStatic) : s.mentions ⊆ d.mentions := by
  intro t ht
  have hmem := List.mem_flatMap.mpr ⟨s, h, ht⟩
  cases isStatic
  · exact List.mem_append_left _ (List.mem_append_left _ (List.mem_append_left _ hmem))
  · exact List.mem_append_left _ (List.mem_append_left _ (List.mem_append_right _ hmem))

theorem TypeDecl.fields_mentions {d : TypeDecl} {isStatic : Bool} {b : Binding}
    (h : b ∈ d.fieldsOf isStatic) : b.mentions ⊆ d.mentions := by
  intro t ht
  have hmem := List.mem_flatMap.mpr ⟨b, h, ht⟩
  cases isStatic
  · exact List.mem_append_left _ (List.mem_append_right _ hmem)
  · exact List.mem_append_right _ hmem

namespace Scope

variable {s : Scope}

theorem entries_mentions {b : Binding} (h : b ∈ s.entries) : b.mentions ⊆ s.mentions :=
  fun _ ht => List.mem_append_left _ (List.mem_append_left _ (List.mem_append_left _
    (List.mem_flatMap.mpr ⟨b, h, ht⟩)))

theorem captures_mentions {c : Capture} (h : c ∈ s.captures) : c.binding.mentions ⊆ s.mentions :=
  fun _ ht => List.mem_append_left _ (List.mem_append_left _ (List.mem_append_right _
    (List.mem_flatMap.mpr ⟨c, h, ht⟩)))

theorem types_mentions {e : String × TypeId} (h : e ∈ s.types) : e.2 ∈ s.mentions :=
  List.mem_append_left _ (List.mem_append_right _ (List.mem_map_of_mem h))

theorem mentions_addEntry (b : Binding) :
    ({ s with entries := s.entries ++ [b] } : Scope).mentions ⊆ s.mentions ++ b.mentions := by
  intro t ht
  simp only [mentions, List.flatMap_append, List.flatMap_singleton, List.mem_append] at ht ⊢
  grind

theorem mentions_addCapture (c : Capture) :
    ({ s with captures := s.captures ++ [c] } : Scope).mentions ⊆
      s.mentions ++ c.binding.mentions := by
  intro t ht
  simp only [mentions, List.flatMap_append, List.flatMap_singleton, List.mem_append] at ht ⊢
  grind

theorem mentions_addType (e : String × TypeId) :
    ({ s with types := s.types ++ [e] } : Scope).mentions ⊆ s.mentions ++ [e.2] := by
  intro t ht
  simp only [mentions, List.map_append, List.map_cons, List.map_nil, List.mem_append] at ht ⊢
  grind

end Scope

theorem TypeTable.memberSignatures_mentions {t : TypeTable} {key : MemberKey} {s : Signature}
    (h : s ∈ t.memberSignatures key) : s.mentions ⊆ (t.get key.owner).mentions := by
  obtain ⟨s', hs', rfl⟩ := List.mem_map.mp h
  have hs := TypeDecl.routines_mentions (List.mem_of_mem_filter hs')
  exact hs

theorem Lookup.found_mentions {r : Scopes.Resolved} {access : Access}
    (h : access.mentions ⊆ r.binding.mentions) : (found r access).mentions ⊆ r.binding.mentions :=
  List.append_subset.mpr ⟨List.Subset.refl _, h⟩

namespace Scopes

variable {t : Scopes} {s : ScopeId}

theorem answer?_mentions {name : String} {r : Resolved} (h : t.answer? name s = some r) :
    r.binding.mentions ⊆ (t.get s).mentions := by
  rw [answer?] at h
  split at h
  · rename_i b hb
    obtain rfl := Option.some.inj h
    exact Scope.entries_mentions (List.mem_of_find?_eq_some hb)
  · obtain ⟨c, hc, rfl⟩ := Option.map_eq_some_iff.mp h
    exact Scope.captures_mentions (List.mem_of_find?_eq_some hc)

theorem memberAccess_mentions (r : Resolved) :
    (t.memberAccess s r).mentions ⊆ r.binding.mentions := by
  rw [memberAccess]
  split
  · exact List.nil_subset _
  · dsimp only
    split
    · split <;> exact Lookup.found_mentions (List.nil_subset _)
    · exact List.nil_subset _

/-- The owner of a static field is on record with its binding. -/
theorem outerAccess_mentions (r : Resolved) :
    (t.outerAccess s r).mentions ⊆ r.binding.mentions := by
  rw [outerAccess]
  split
  · split
    · rename_i type howner
      refine Lookup.found_mentions fun u hu => List.mem_cons_of_mem _ ?_
      rwa [howner]
    · exact List.nil_subset _
  · exact memberAccess_mentions r
  · split <;> exact Lookup.found_mentions (List.nil_subset _)
  all_goals exact Lookup.found_mentions (List.nil_subset _)

theorem accessTo_mentions (r : Resolved) : (t.accessTo s r).mentions ⊆ r.binding.mentions := by
  rw [accessTo]
  split
  · split
    · exact Lookup.found_mentions (List.nil_subset _)
    · exact outerAccess_mentions r
  · exact outerAccess_mentions r

end Scopes

namespace Analysis

open Analyze

variable {α β : Type} {a b : Analysis} {os ts ts' : List TypeId}

/-! ## Grounded states -/

/-- The table of types has every type that is mentioned. -/
structure Grounded (a : Analysis) : Prop where
  scopes : ∀ s, ∀ t ∈ (a.scopes.get s).mentions, a.types.Has t
  types : ∀ id, ∀ t ∈ (a.types.get id).mentions, a.types.Has t
  members : ∀ e ∈ a.types.memberTypes, a.types.Has e.1.owner ∧ a.types.Has e.2
  units : ∀ u, ∀ t ∈ (a.units.get u).ownerType, a.types.Has t
  findings : ∀ t ∈ a.findings.mentions, a.types.Has t
  literals : ∀ value : Literal, a.types.Has value.type
  older : ∀ id, a.types.form id = .routine → ∀ s ∈ (a.types.get id).routines, ∀ t ∈ s.mentions,
    t.index < id.index

namespace Grounded

theorem inScope (ha : Grounded a) (s : ScopeId) : Grounded { a with current := s } :=
  ⟨ha.scopes, ha.types, ha.members, ha.units, ha.findings, ha.literals, ha.older⟩

/-- The routine of a type that a lookup offers. -/
theorem offered (ha : Grounded a) {owner : TypeId} {isStatic : Bool} {name : String}
    {args : List TypeId} : ∀ t ∈ a.types.offered owner isStatic name args, a.types.Has t := by
  intro t ht
  obtain ⟨s, hs, ht⟩ := List.mem_flatMap.mp ht
  obtain ⟨hhas, hmem, -⟩ := TypeTable.lookup_spec (Option.mem_toList.mp hs)
  rcases List.mem_cons.mp ht with rfl | ht
  · exact hhas
  · exact ha.types owner t (TypeDecl.routines_mentions hmem ht)

theorem lookupField (ha : Grounded a) {owner : TypeId} {isStatic : Bool} {name : String}
    {b : Binding} (hb : a.types.lookupField owner isStatic name = some b) :
    ∀ t ∈ b.mentions, a.types.Has t := fun t ht =>
  ha.types owner t (TypeDecl.fields_mentions (List.mem_of_find?_eq_some hb) ht)

/-- What a name means in a scope. -/
theorem lookup (ha : Grounded a) {s : ScopeId} {name : String} :
    ∀ t ∈ (a.scopes.lookup s name).mentions, a.types.Has t := by
  rw [Scopes.lookup]
  split
  · rename_i r hr
    obtain ⟨x, -, hx⟩ := List.exists_of_findSome?_eq_some hr
    intro t ht
    exact ha.scopes x t (Scopes.answer?_mentions hx (Scopes.accessTo_mentions r ht))
  · exact List.forall_mem_nil _

theorem resolveType (ha : Grounded a) {s : ScopeId} {name : String} {type : TypeId}
    (ht : a.scopes.resolveType s name = some type) : a.types.Has type := by
  obtain ⟨x, -, hx⟩ := List.exists_of_findSome?_eq_some ht
  obtain ⟨e, he, rfl⟩ := Option.map_eq_some_iff.mp hx
  exact ha.scopes x e.2 (Scope.types_mentions (List.mem_of_find?_eq_some he))

/-- A change of the scopes. -/
theorem withScopes (ha : Grounded a) {t : Scopes}
    (ht : ∀ s, ∀ u ∈ (t.get s).mentions, a.types.Has u) : Grounded { a with scopes := t } :=
  ⟨ht, ha.types, ha.members, ha.units, ha.findings, ha.literals, ha.older⟩

/-- A change of one scope. -/
theorem updateScope (ha : Grounded a) (s : ScopeId) {f : Scope → Scope}
    {new : List TypeId} (hf : ∀ x : Scope, (f x).mentions ⊆ x.mentions ++ new)
    (hnew : ∀ t ∈ new, a.types.Has t) :
    Grounded { a with scopes := a.scopes.update s f } := by
  refine ha.withScopes fun j t ht => ?_
  by_cases hs : a.scopes.Has s
  · by_cases heq : s = j
    · subst heq
      rw [Scopes.get_update_self hs] at ht
      exact (List.mem_append.mp (hf _ ht)).elim (ha.scopes s t) (hnew t)
    · rw [Scopes.get_update_of_ne heq] at ht
      exact ha.scopes j t ht
  · rw [Scopes.update_of_not_has hs] at ht
    exact ha.scopes j t ht

/-- A binding is captured on the way to a scope. -/
theorem capture (ha : Grounded a) (s owner : ScopeId) {b : Binding}
    (hb : ∀ t ∈ b.mentions, a.types.Has t) :
    Grounded { a with scopes := a.scopes.capture s b owner } := by
  rw [Scopes.capture]
  generalize a.scopes.captureSites s b owner = ds
  induction ds generalizing a with
  | nil => exact ha
  | cons d ds ih =>
    exact ih (ha.updateScope d (fun _ => Scope.mentions_addCapture ⟨b, owner⟩) hb) hb

/-- A type is added that mentions types of the table. -/
theorem addType (ha : Grounded a) {d : TypeDecl} (hd : ∀ t ∈ d.mentions, a.types.Has t)
    {memberTypes : List (MemberKey × TypeId)}
    (hm : ∀ e ∈ memberTypes, e ∈ a.types.memberTypes ∨
      a.types.Has e.1.owner ∧ e.2 = (a.types.add d).1) :
    Grounded { a with types := { (a.types.add d).2 with memberTypes } } := by
  have hx := TypeTable.extends_add a.types d
  refine ⟨fun s t ht => hx.has (ha.scopes s t ht), fun id t ht => ?_, fun e he => ?_,
    fun u t ht => hx.has (ha.units u t ht), fun t ht => hx.has (ha.findings t ht),
    fun value => hx.has (ha.literals value), fun id hform s hs t ht => ?_⟩
  · have ht' : t ∈ ((a.types.add d).2.get id).mentions := ht
    by_cases hnew : id = (a.types.add d).1
    · rw [hnew, TypeTable.get_add_new] at ht'
      exact hx.has (hd t ht')
    · by_cases hhas : a.types.Has id
      · rw [TypeTable.get_add_old _ hhas] at ht'
        exact hx.has (ha.types id t ht')
      · rw [TypeTable.get_of_not_has (TypeTable.not_has_add hnew hhas)] at ht'
        exact absurd ht' List.not_mem_nil
  · rcases hm e he with he | ⟨howner, heq⟩
    · exact ⟨hx.has (ha.members e he).1, hx.has (ha.members e he).2⟩
    · refine ⟨hx.has howner, ?_⟩
      rw [heq]
      exact TypeTable.has_add_new a.types d
  · have hform' : (a.types.add d).2.form id = .routine := hform
    have hs' : s ∈ ((a.types.add d).2.get id).routinesOf false := hs
    by_cases hnew : id = (a.types.add d).1
    · rw [hnew, TypeTable.get_add_new] at hs'
      rw [hnew]
      exact hd t (TypeDecl.routines_mentions hs' ht)
    · by_cases hhas : a.types.Has id
      · rw [TypeTable.form, TypeTable.get_add_old _ hhas] at hform'
        rw [TypeTable.get_add_old _ hhas] at hs'
        exact ha.older id hform' s hs' t ht
      · rw [TypeTable.get_of_not_has (TypeTable.not_has_add hnew hhas)] at hs'
        exact absurd hs' List.not_mem_nil

/-- A change of one type. -/
theorem updateType (ha : Grounded a) (type : TypeId) {f : TypeDecl → TypeDecl}
    {new : List TypeId} (hf : ∀ d : TypeDecl, (f d).mentions ⊆ d.mentions ++ new)
    (hnew : ∀ t ∈ new, a.types.Has t) (hx : a.types.Extends (a.types.update type f))
    (hr : a.types.form type = .user ∨ ∀ d, (f d).routines = d.routines) :
    Grounded { a with types := a.types.update type f } := by
  have hhas : ∀ {t}, a.types.Has t → (a.types.update type f).Has t := TypeTable.has_update.mpr
  refine ⟨fun s t ht => hhas (ha.scopes s t ht), fun id t ht => hhas ?_,
    fun e he => ⟨hhas (ha.members e he).1, hhas (ha.members e he).2⟩,
    fun u t ht => hhas (ha.units u t ht), fun t ht => hhas (ha.findings t ht),
    fun value => hhas (ha.literals value), fun id hid s hs t ht => ?_⟩
  · by_cases hid : a.types.Has id
    · by_cases heq : type = id
      · subst heq
        rw [TypeTable.get_update_self hid] at ht
        exact (List.mem_append.mp (hf _ ht)).elim (ha.types type t) (hnew t)
      · rw [TypeTable.get_update_of_ne heq] at ht
        exact ha.types id t ht
    · rw [TypeTable.get_of_not_has (TypeTable.has_update.not.mpr hid)] at ht
      exact absurd ht List.not_mem_nil
  · dsimp only at hid hs
    by_cases hhas : a.types.Has id
    · rw [hx.form id hhas] at hid
      by_cases heq : type = id
      · subst heq
        rw [TypeTable.get_update_self hhas] at hs
        rcases hr with huser | hr
        · exact absurd (huser.symm.trans hid) (by simp)
        · rw [hr] at hs
          exact ha.older type hid s hs t ht
      · rw [TypeTable.get_update_of_ne heq] at hs
        exact ha.older id hid s hs t ht
    · rw [TypeTable.get_of_not_has (TypeTable.has_update.not.mpr hhas)] at hs
      exact absurd hs List.not_mem_nil

/-- Reading the routines of one name as a value takes a type with their signatures. -/
theorem memberType (ha : Grounded a) {key : MemberKey} (howner : a.types.Has key.owner) :
    Grounded { a with types := (a.types.memberType key).2 } ∧
      a.types.Extends (a.types.memberType key).2 ∧
      ∀ type ∈ (a.types.memberType key).1, (a.types.memberType key).2.Has type := by
  rw [TypeTable.memberType]
  split
  · rename_i id hid
    refine ⟨ha, .refl _, ?_⟩
    rintro _ ⟨⟩
    obtain ⟨e, he, rfl⟩ := Option.map_eq_some_iff.mp hid
    exact (ha.members e (List.mem_of_find?_eq_some he)).2
  · split
    · exact ⟨ha, .refl _, fun _ h => absurd h (by simp)⟩
    · have hsignatures : ∀ s ∈ a.types.memberSignatures key, ∀ t ∈ s.mentions, a.types.Has t :=
        fun s hs t ht => ha.types key.owner t (TypeTable.memberSignatures_mentions hs ht)
      generalize a.types.memberSignatures key = signatures at hsignatures
      have hx := TypeTable.extends_add a.types (.ofSignatures signatures)
      refine ⟨ha.addType (d := .ofSignatures signatures) (fun t ht => ?_) fun e he => ?_,
        ⟨hx.size_le, hx.base, hx.form, hx.routines, hx.fields⟩, ?_⟩
      · simp only [TypeDecl.ofSignatures, TypeDecl.mentions, List.flatMap_nil,
          List.append_nil] at ht
        obtain ⟨s, hs, ht⟩ := List.mem_flatMap.mp ht
        exact hsignatures s hs t ht
      · rcases List.mem_append.mp he with he | he
        · exact Or.inl he
        · obtain rfl := List.mem_singleton.mp he
          exact Or.inr ⟨howner, rfl⟩
      · rintro _ ⟨⟩
        exact TypeTable.has_add_new a.types _

/-- Findings are written. -/
theorem record (ha : Grounded a) {f : Findings}
    (hf : ∀ t ∈ f.mentions, t ∈ a.findings.mentions ∨ a.types.Has t) :
    Grounded { a with findings := f } :=
  ⟨ha.scopes, ha.types, ha.members, ha.units,
    fun t ht => (hf t ht).elim (ha.findings t) fun h => h, ha.literals, ha.older⟩

end Grounded

/-! ## Rules -/

/-- A part of the analysis keeps the tables grounded.  It starts where `os` are user types
and `ts` are in the table, and its result mentions `new`. -/
def Grounds (os ts : List TypeId) (m : Analyze α) (new : α → List TypeId) : Prop :=
  ∀ a, Grounded a → (∀ t ∈ os, a.types.form t = .user) → (∀ t ∈ ts, a.types.Has t) →
    Grounded (m.run a).2 ∧ a.types.Extends (m.run a).2.types ∧
      ∀ t ∈ new (m.run a).1, (m.run a).2.types.Has t

/-- Nothing of what a result mentions matters. -/
abbrev anything {α : Type} : α → List TypeId := fun _ => []

/-- User types stay user types. -/
theorem user_extends (hx : a.types.Extends b.types) (h : ∀ t ∈ os, a.types.form t = .user) :
    ∀ t ∈ os, b.types.form t = .user := fun t ht =>
  (hx.form t (TypeTable.has_of_user (h t ht))).trans (h t ht)

namespace Grounds

variable {m : Analyze α} {new : α → List TypeId} {new' : β → List TypeId}

theorem pure {x : α} (h : new x ⊆ ts) : Grounds os ts (pure x) new :=
  fun a ha _ hts => ⟨ha, .refl a.types, fun t ht => hts t (h ht)⟩

theorem none {o : α} (h : new o = []) : Grounds os ts (Pure.pure o) new :=
  .pure (h ▸ List.nil_subset ts)

theorem bind {f : α → Analyze β} (hm : Grounds os ts m new)
    (hf : ∀ x, Grounds os (new x ++ ts) (f x) new') : Grounds os ts (m >>= f) new' := by
  intro a ha hos hts
  obtain ⟨hb, hx, hnew⟩ := hm a ha hos hts
  obtain ⟨hc, hx', hnew'⟩ := hf (m.run a).1 (m.run a).2 hb (user_extends hx hos) fun t ht =>
    (List.mem_append.mp ht).elim (hnew t) fun ht => hx.has (hts t ht)
  exact ⟨hc, hx.trans hx', hnew'⟩

theorem forget (h : Grounds os ts m new) : Grounds os ts m anything := fun a ha hos hts => by
  obtain ⟨hb, hx, -⟩ := h a ha hos hts
  exact ⟨hb, hx, List.forall_mem_nil _⟩

theorem discard (h : Grounds os ts m new) : Grounds os ts (discard m) anything := h.forget

/-- One part after another whose result says nothing. -/
theorem next {f : α → Analyze β} (hm : Grounds os ts m new)
    (hf : ∀ x, Grounds os ts (f x) new') : Grounds os ts (m >>= f) new' := hm.forget.bind hf

theorem get {f : Analysis → Analyze α} (us : Analysis → List TypeId)
    (hus : ∀ a, Grounded a → (∀ t ∈ ts, a.types.Has t) → ∀ u ∈ us a, a.types.Has u)
    (hf : ∀ a, Grounds os (us a ++ ts) (f a) new) : Grounds os ts (get >>= f) new :=
  fun a ha hos hts =>
    hf a a ha hos fun t ht => (List.mem_append.mp ht).elim (hus a ha hts t) (hts t)

/-- Reading the tables without looking at what they mention. -/
theorem peek {f : Analysis → Analyze α} (hf : ∀ a, Grounds os ts (f a) new) :
    Grounds os ts (MonadStateOf.get >>= f) new :=
  .get (fun _ => []) (fun _ _ _ => List.forall_mem_nil _) hf

theorem types {f : TypeTable → Analyze α} (us : TypeTable → List TypeId)
    (hus : ∀ a, Grounded a → (∀ t ∈ ts, a.types.Has t) → ∀ u ∈ us a.types, a.types.Has u)
    (hf : ∀ t, Grounds os (us t ++ ts) (f t) new) : Grounds os ts (Analyze.types >>= f) new :=
  .get (f := fun a => f a.types) (us ·.types) hus fun a => hf a.types

theorem inScope (h : Grounds os ts m new) (s : ScopeId) : Grounds os ts (inScope s m) new :=
  fun a ha hos hts => by
    obtain ⟨hb, hx⟩ := h { a with current := s } (ha.inScope s) hos hts
    exact ⟨hb.inScope a.current, hx⟩

theorem currentScope {f : ScopeId → Analyze α} (h : ∀ s, Grounds os ts (f s) new) :
    Grounds os ts (currentScope >>= f) new := fun a => h a.current a

/-- Where nothing is looked at in the table of types. -/
theorem anyTypes {f : TypeTable → Analyze α} (hf : ∀ t, Grounds os ts (f t) new) :
    Grounds os ts (Analyze.types >>= f) new :=
  .types (fun _ => []) (fun _ _ _ => List.forall_mem_nil _) hf

end Grounds

/-! ## Single changes -/

theorem grounds_reportError (e : SemanticError) : Grounds os ts (reportError e) anything :=
  fun _ ha _ _ => ⟨⟨ha.scopes, ha.types, ha.members, ha.units, ha.findings, ha.literals, ha.older⟩, .refl _,
    List.forall_mem_nil _⟩

theorem grounds_report (fault : Fault) (span : Span) : Grounds os ts (report fault span) anything :=
  grounds_reportError _

theorem grounds_reject {new : α → List TypeId} (fault : Fault) (span : Span) {x : α}
    (h : new x = []) : Grounds os ts (report fault span >>= fun _ => pure x) new :=
  (grounds_report fault span).next fun _ => .none h

theorem grounds_typeName (type : TypeId) : Grounds os ts (typeName type) anything :=
  fun _ ha _ _ => ⟨ha, .refl _, List.forall_mem_nil _⟩

theorem grounds_resolveType (name : String) :
    Grounds os ts (Analyze.resolveType name) Option.toList := fun _ ha _ _ =>
  ⟨ha, .refl _, fun _ ht => ha.resolveType (Option.mem_toList.mp ht)⟩

/-- Findings are written that mention what is known. -/
theorem grounds_record {f : Findings → Findings}
    (hf : ∀ x : Findings, (f x).mentions ⊆ x.mentions ++ ts) : Grounds os ts (record f) anything :=
  fun _ ha _ hts => ⟨ha.record fun t ht => (List.mem_append.mp (hf _ ht)).imp_right (hts t),
    .refl _, List.forall_mem_nil _⟩

theorem grounds_planUnit (name : String) (kind : UnitKind) {ownerType : Option TypeId}
    (ho : ownerType.toList ⊆ ts) :
    Grounds os ts (planUnit name kind ownerType) anything := fun a ha _ hts => by
  refine ⟨⟨ha.scopes, ha.types, ha.members, fun u t ht => ?_, ha.findings, ha.literals,
    ha.older⟩, .refl _, List.forall_mem_nil _⟩
  have hplan := Units.get?_plan a.units (a.scopes.get a.current).unit name kind ownerType u
  have ht' : t ∈ ((a.units.plan (a.scopes.get a.current).unit name kind ownerType).2.get
    u).ownerType := ht
  rw [Units.get, hplan] at ht'
  split at ht'
  · exact hts t (ho (Option.mem_toList.mpr ht'))
  · exact ha.units u t ht'

theorem grounds_addType {d : TypeDecl} (hd : d.mentions ⊆ ts) :
    Grounds os ts (addType d) fun t => [t] := fun a ha hos hts => by
  refine ⟨ha.addType (fun t ht => hts t (hd ht)) fun e he => Or.inl he,
    TypeTable.extends_add a.types d, fun t ht => ?_⟩
  rw [List.mem_singleton.mp ht]
  exact TypeTable.has_add_new a.types d

theorem grounds_addRoutineType {params : List TypeId} {result : Option TypeId}
    (hp : params ⊆ ts) (hr : result.toList ⊆ ts) :
    Grounds os ts (addRoutineType params result) fun t => [t] := by
  refine grounds_addType fun t ht => ?_
  simp only [TypeDecl.ofSignatures, TypeDecl.mentions, Signature.mentions, List.flatMap_cons,
    List.flatMap_nil, List.append_nil] at ht
  exact (List.mem_append.mp ht).elim (fun h => hp h) fun h => hr h

/-- A change of a type that mentions what is known. -/
theorem grounds_updateType (type : TypeId) {f : TypeDecl → TypeDecl}
    (hf : ∀ d : TypeDecl, (f d).mentions ⊆ d.mentions ++ ts)
    (hx : ∀ t : TypeTable, t.Extends (t.update type f))
    (hr : type ∈ os ∨ ∀ d, (f d).routines = d.routines) :
    Grounds os ts (updateTypes fun t => t.update type f) anything := fun a ha hos hts =>
  ⟨ha.updateType type hf hts (hx a.types) (hr.imp_left (hos type)), hx a.types,
    List.forall_mem_nil _⟩

/-- A change of a scope that mentions what is known. -/
theorem grounds_updateScope (s : ScopeId) {f : Scope → Scope}
    (hf : ∀ x : Scope, (f x).mentions ⊆ x.mentions ++ ts) :
    Grounds os ts (updateScopes fun t => t.update s f) anything := fun _ ha _ hts =>
  ⟨ha.updateScope s hf hts, .refl _, List.forall_mem_nil _⟩

theorem grounds_markMember (s : ScopeId) {memberOf : Option TypeId} (isStatic : Bool)
    (hm : memberOf.toList ⊆ ts) :
    Grounds os ts (updateScopes fun t => t.markMember s memberOf isStatic) anything := by
  refine grounds_updateScope s fun x => ?_
  rw [Scope.mentions, Scope.mentions]
  exact List.append_subset.mpr ⟨List.subset_append_of_subset_left _ (List.subset_append_left _ _),
    List.subset_append_of_subset_right _ hm⟩

theorem mentions_of_agrees {x y : Scope} (h : Scopes.Agrees x y) : y.mentions = x.mentions := by
  rw [Scope.mentions, h.entries, h.captures, h.types, h.head.memberOf, Scope.mentions]

theorem grounds_openScope (kind : ScopeKind) (name : String) (unit : UnitId) :
    Grounds os ts (openScope kind name unit) anything := fun a ha _ _ => by
  refine ⟨ha.withScopes (t := (a.scopes.openScope a.current kind name unit).2) fun s t ht => ?_,
    .refl _, List.forall_mem_nil _⟩
  by_cases hs : a.scopes.Has s
  · have hold := Scopes.agrees_openScope_old a.scopes a.current kind name unit hs
    rw [mentions_of_agrees hold] at ht
    exact ha.scopes s t ht
  · by_cases hnew : s = ⟨a.scopes.size⟩
    · have hempty := Scopes.agrees_openScope_new a.scopes a.current kind name unit
      rw [hnew, mentions_of_agrees hempty] at ht
      exact absurd ht List.not_mem_nil
    · have hnot : ¬ (a.scopes.openScope a.current kind name unit).2.Has s := by
        rw [Scopes.Has, Scopes.size_openScope]
        obtain ⟨i⟩ := s
        have hne : i ≠ a.scopes.size := fun heq => hnew (by rw [heq])
        dsimp only [Scopes.Has] at hs ⊢
        omega
      rw [Scopes.get_of_not_has hnot] at ht
      exact absurd ht List.not_mem_nil

/-- A binding is declared that mentions what is known. -/
theorem grounds_declare (s : ScopeId) {b : Binding} (span : Span) (hb : b.mentions ⊆ ts) :
    Grounds os ts (declare s b span) fun o => o.toList.flatMap Binding.mentions := by
  intro a ha hos hts
  rw [run_declare]
  cases hd : a.scopes.declare s b span with
  | error e => exact ⟨⟨ha.scopes, ha.types, ha.members, ha.units, ha.findings, ha.literals, ha.older⟩, .refl _,
      List.forall_mem_nil _⟩
  | ok result =>
    obtain ⟨b', scopes⟩ := result
    simp only [Scopes.declare] at hd
    split at hd
    · exact absurd hd (by simp)
    · obtain ⟨rfl, rfl⟩ := Prod.mk.inj (Except.ok.inj hd)
      have hmentions : (a.scopes.takeSlot s b).1.mentions = b.mentions := by
        rw [Scopes.fst_takeSlot]
        rfl
      have hslot : Grounded { a with scopes := (a.scopes.takeSlot s b).2 } :=
        ha.withScopes fun j t ht => by
          rw [mentions_of_agrees (Scopes.agrees_takeSlot a.scopes s j b)] at ht
          exact ha.scopes j t ht
      have hnew : ∀ t ∈ (a.scopes.takeSlot s b).1.mentions, a.types.Has t := by
        rw [hmentions]
        exact fun t ht => hts t (hb ht)
      refine ⟨hslot.updateScope s (fun _ => Scope.mentions_addEntry _) hnew, .refl _, ?_⟩
      exact List.forall_mem_append.mpr ⟨hnew, List.forall_mem_nil _⟩

theorem grounds_declareType (s : ScopeId) (name : String) {type : TypeId} (span : Span)
    (ht : type ∈ ts) : Grounds os ts (Analyze.declareType s name type span) anything := by
  intro a ha hos hts
  rw [run_declareType]
  cases hd : a.scopes.declareType s name type span with
  | error e => exact ⟨⟨ha.scopes, ha.types, ha.members, ha.units, ha.findings, ha.literals, ha.older⟩, .refl _,
      List.forall_mem_nil _⟩
  | ok scopes =>
    simp only [Scopes.declareType] at hd
    split at hd
    · exact absurd hd (by simp)
    · split at hd
      · exact absurd hd (by simp)
      · obtain rfl := Except.ok.inj hd
        have hnew : ∀ t ∈ [type], a.types.Has t := List.forall_mem_singleton.mpr (hts type ht)
        exact ⟨ha.updateScope s (fun _ => Scope.mentions_addType (name, type)) hnew, .refl _,
          List.forall_mem_nil _⟩

/-- A lookup mentions what was declared or captured. -/
theorem grounds_lookup (name : String) : Grounds os ts (lookup name) Lookup.mentions := by
  intro a ha hos hts
  rw [run_lookup]
  have hresult : ∀ t ∈ (a.scopes.lookup a.current name).mentions, a.types.Has t := ha.lookup
  split
  · rename_i r hr
    rw [hr] at hresult ⊢
    exact ⟨ha.capture _ _ fun t ht => hresult t (List.mem_append_left _ ht), .refl _, hresult⟩
  · exact ⟨ha, .refl _, hresult⟩

/-- Member routines that are read as a value. -/
theorem grounds_memberRoutine {owner : TypeId} (isStatic : Bool) (name : String)
    (ho : owner ∈ ts) :
    Grounds os ts (memberRoutine owner isStatic name) fun o => o.toList.flatMap Binding.mentions := by
  intro a ha hos hts
  obtain ⟨hb, hx, htype⟩ := @Grounded.memberType _ ha ⟨owner, name, isStatic⟩ (hts owner ho)
  refine ⟨hb, hx, fun u hu => ?_⟩
  obtain ⟨b, hmem, hu⟩ := List.mem_flatMap.mp hu
  obtain ⟨type, hmade, rfl⟩ := Option.map_eq_some_iff.mp (Option.mem_toList.mp hmem)
  rcases List.mem_cons.mp hu with rfl | hu
  · exact htype _ hmade
  · obtain rfl := List.mem_singleton.mp hu
    exact hx.has (hts u ho)

end Analysis

end Unnest
