import Mathlib.Tactic.Abel
import Unnest.Analysis.State
import Unnest.Proofs.Scope.Environment
import Unnest.Proofs.Scope.Housing
import Unnest.Proofs.Scope.Siblings
import Unnest.Proofs.Tree.Parts
import Unnest.Proofs.Types.Growth

/-!
# Walks

Everything an analysis does to its tables is a sequence of small changes, and what each
of them can be is said once, in `Step`.  A step carries what is checked before it is
taken: a scope declares only what it may, a use is captured only where the lookup said
so, and a link is recorded as it is seen from the scope that the walk is in.

`Steps` are steps in one scope.  A `Walk` also enters scopes and comes back.  Coming
back from a routine or a type, it records where the scope around finds what the
definition captured; that is one move of the walk, so every state of a walk is one in
which a definition is either open around the walk or finished.

## Keys

A walk says under which keys it may write, as often as it may.  The keys of a tree are
distinct, and so no key of the tree is written twice (`Walk.keys_le`).
-/

namespace Unnest

/-- The keys that a table is written under. -/
def NodeTable.keysIn {α : Type} (t : NodeTable α) (table : Table) : Multiset Key :=
  (t.map fun e => (table, e.1) : List Key)

/-- The keys that findings are written under. -/
def Findings.keys (f : Findings) : Multiset Key :=
  f.exprTypes.keysIn .exprTypes + f.operators.keysIn .operators + f.links.keysIn .links +
    f.chains.keysIn .chains + f.blocks.keysIn .blocks + f.decls.keysIn .decls +
    f.assigns.keysIn .assigns + f.routines.keysIn .routines + f.types.keysIn .types

namespace NodeTable

variable {α : Type} {t : NodeTable α} {node : NodeId} {x y : α}

/-- No node is written under twice. -/
def Distinct (t : NodeTable α) : Prop := (t.map (·.1)).Nodup

theorem distinct_of_keysIn {table : Table} (h : (t.keysIn table).Nodup) : t.Distinct := by
  have hnd := Multiset.coe_nodup.mp h
  refine List.Nodup.of_map (fun n => (table, n)) ?_
  rwa [List.map_map]

theorem Distinct.eq_of_mem (h : t.Distinct) (hx : (node, x) ∈ t) (hy : (node, y) ∈ t) : x = y :=
  (Prod.mk.inj (List.inj_on_of_nodup_map h hx hy rfl)).2

/-- What is written under a node is found there. -/
theorem Distinct.find?_eq (h : t.Distinct) (hx : (node, x) ∈ t) : t.find? node = some x := by
  induction t with
  | nil => exact absurd hx List.not_mem_nil
  | cons e t ih =>
    obtain ⟨n, y⟩ := e
    rw [Distinct, List.map_cons, List.nodup_cons] at h
    rw [find?]
    rcases List.mem_cons.mp hx with heq | hx
    · obtain ⟨rfl, rfl⟩ := Prod.mk.inj heq
      exact if_pos rfl
    · rw [if_neg, ih h.2 hx]
      rintro rfl
      exact h.1 (List.mem_map.mpr ⟨_, hx, rfl⟩)

theorem mem_of_find? (h : t.find? node = some x) : (node, x) ∈ t := by
  induction t with
  | nil => exact absurd h (by simp [find?])
  | cons e t ih =>
    obtain ⟨n, y⟩ := e
    rw [find?] at h
    split at h
    · rename_i hn
      rw [hn, Option.some.inj h]
      exact List.mem_cons_self
    · exact List.mem_cons_of_mem _ (ih h)

theorem mem_keysIn {table : Table} (h : t.find? node = some x) :
    (table, node) ∈ t.keysIn table :=
  Multiset.mem_coe.mpr (List.mem_map.mpr ⟨_, mem_of_find? h, rfl⟩)

end NodeTable

namespace Findings

variable {f : Findings}

theorem mem_keys_chains {node : NodeId} {x : ChainFinding} (h : f.chains.find? node = some x) :
    (.chains, node) ∈ f.keys := by
  simp only [keys, Multiset.mem_add, NodeTable.mem_keysIn h, true_or, or_true]

theorem mem_keys_assigns {node : NodeId} {x : AssignFinding} (h : f.assigns.find? node = some x) :
    (.assigns, node) ∈ f.keys := by
  simp only [keys, Multiset.mem_add, NodeTable.mem_keysIn h, true_or, or_true]

theorem mem_keys_routines {node : NodeId} {x : RoutineFinding}
    (h : f.routines.find? node = some x) : (.routines, node) ∈ f.keys := by
  simp only [keys, Multiset.mem_add, NodeTable.mem_keysIn h, true_or, or_true]

theorem mem_keys_types {node : NodeId} {x : TypeFinding} (h : f.types.find? node = some x) :
    (.types, node) ∈ f.keys := by
  simp only [keys, Multiset.mem_add, NodeTable.mem_keysIn h, or_true]

theorem nodup_exprTypes (h : f.keys.Nodup) : f.exprTypes.Distinct := by
  simp only [keys, Multiset.nodup_add] at h
  exact NodeTable.distinct_of_keysIn h.1.1.1.1.1.1.1.1

theorem nodup_operators (h : f.keys.Nodup) : f.operators.Distinct := by
  simp only [keys, Multiset.nodup_add] at h
  exact NodeTable.distinct_of_keysIn h.1.1.1.1.1.1.1.2.1

theorem nodup_links (h : f.keys.Nodup) : f.links.Distinct := by
  simp only [keys, Multiset.nodup_add] at h
  exact NodeTable.distinct_of_keysIn h.1.1.1.1.1.1.2.1

theorem nodup_chains (h : f.keys.Nodup) : f.chains.Distinct := by
  simp only [keys, Multiset.nodup_add] at h
  exact NodeTable.distinct_of_keysIn h.1.1.1.1.1.2.1

theorem nodup_blocks (h : f.keys.Nodup) : f.blocks.Distinct := by
  simp only [keys, Multiset.nodup_add] at h
  exact NodeTable.distinct_of_keysIn h.1.1.1.1.2.1

theorem nodup_decls (h : f.keys.Nodup) : f.decls.Distinct := by
  simp only [keys, Multiset.nodup_add] at h
  exact NodeTable.distinct_of_keysIn h.1.1.1.2.1

theorem nodup_assigns (h : f.keys.Nodup) : f.assigns.Distinct := by
  simp only [keys, Multiset.nodup_add] at h
  exact NodeTable.distinct_of_keysIn h.1.1.2.1

theorem nodup_routines (h : f.keys.Nodup) : f.routines.Distinct := by
  simp only [keys, Multiset.nodup_add] at h
  exact NodeTable.distinct_of_keysIn h.1.2.1

theorem nodup_types (h : f.keys.Nodup) : f.types.Distinct := by
  simp only [keys, Multiset.nodup_add] at h
  exact NodeTable.distinct_of_keysIn h.2.1

end Findings

/-- Completes what is written about a routine. -/
def Findings.complete (f : Findings) (node : NodeId) (sources : List CaptureSource) : Findings :=
  { f with routines := f.routines.change node ({ · with captures := sources }) }

namespace Scopes

/-- A link stands for what is found from a scope. -/
def Sees (t : Scopes) (s : ScopeId) : LinkFinding → Prop
  | .load b access => ∃ owner, Reaches t s ⟨b, owner⟩ access
  | .call _ _ (.binding b access) => ∃ owner, Reaches t s ⟨b, owner⟩ access
  | .typeName _ | .construct _ | .field _ _ | .call _ _ (.member _)
  | .call _ _ (.fieldValue _ _) => True

/-- A source is where a scope finds a captured binding. -/
structure Sourced (t : Scopes) (s : ScopeId) (c : Capture) (source : CaptureSource) : Prop where
  name_eq : source.name = c.name
  type_eq : source.type = c.binding.type
  reaches : Reaches t s c source.access
  not_static : ∀ type, source.access ≠ .static type

/-- The changes of the scopes, made from the scope `s`. -/
inductive Step (t : Scopes) (s : ScopeId) : Scopes → Prop
  | capture {n : String} {r : Resolved} (h : t.lookup s n = .found r .captured) :
      Step t s (t.capture s r.binding r.owner)
  | declare {b b' : Binding} {span : Span} {t' : Scopes} (slot : b.slot = none)
      (may : MayDeclare (t.get s) b) (noType : t.resolveType s b.name = none)
      (h : t.declare s b span = .ok (b', t')) : Step t s t'
  /-- A parameter of a routine that has just been opened. -/
  | param {d : ScopeId} {b b' : Binding} {span : Span} {t' : Scopes}
      (newest : d.index + 1 = t.size) (parent : t.parent d = some s)
      (kind : (t.get d).kind = .routine) (slot : b.slot = none) (role : b.role = .param)
      (h : t.declare d b span = .ok (b', t')) : Step t s t'
  | declareType {name : String} {type : TypeId} {span : Span} {t' : Scopes}
      (body : (t.get s).kind.isBody = true) (noType : t.resolveType s name = none)
      (noValue : t.resolveValue s name = none) (h : t.declareType s name type span = .ok t') :
      Step t s t'
  | nextBlockName : Step t s (t.nextBlockName s).2
  | openMember {kind : ScopeKind} {memberOf : Option TypeId} {isStatic : Bool}
      (may : MayOpen (t.get s) kind memberOf isStatic) {name : String}
      (fits : Fits t s kind name) (unit : UnitId) :
      Step t s (t.openMember s kind name unit memberOf isStatic)

end Scopes

namespace Analysis

/-- A finding about a routine that is recorded when the routine is opened. -/
structure Opens (a : Analysis) (f : RoutineFinding) : Prop where
  parent : a.scopes.parent f.scope = some a.current
  kind : (a.scopes.get f.scope).kind = .routine
  newest : f.scope.index + 1 = a.scopes.size
  fresh : ∀ e ∈ a.findings.routines, e.2.scope.index < f.scope.index
  empty : (a.scopes.get f.scope).captures = []
  captures : f.captures = []
  memberOf : (a.scopes.get f.scope).memberOf = f.memberOf
  isStatic : (a.scopes.get f.scope).isStatic = f.isStatic
  unit : (a.scopes.get f.scope).unit = f.unit
  binding : f.binding ∈ (a.scopes.get a.current).entries
  named : (a.scopes.get f.scope).name = f.binding.name
  value : a.types.form f.binding.type = .routine

/-- The changes of the findings that need no other scope. -/
inductive Records (a : Analysis) : Key → Findings → Prop
  | exprType (node : NodeId) (type : TypeId) : Records a (.exprTypes, node)
      { a.findings with exprTypes := a.findings.exprTypes.write node type }
  | operator (node : NodeId) (call : OperatorCall) : Records a (.operators, node)
      { a.findings with operators := a.findings.operators.write node call }
  | link (node : NodeId) {f : LinkFinding} (h : a.scopes.Sees a.current f) :
      Records a (.links, node) { a.findings with links := a.findings.links.write node f }
  | chain (node : NodeId) (f : ChainFinding) : Records a (.chains, node)
      { a.findings with chains := a.findings.chains.write node f }
  | block (node : NodeId) {scope : ScopeId} (h : a.scopes.Has scope) : Records a (.blocks, node)
      { a.findings with blocks := a.findings.blocks.write node scope }
  | decl (node : NodeId) (f : DeclFinding) : Records a (.decls, node)
      { a.findings with decls := a.findings.decls.write node f }
  | assign (node : NodeId) (f : AssignFinding) : Records a (.assigns, node)
      { a.findings with assigns := a.findings.assigns.write node f }
  | routine (node : NodeId) {f : RoutineFinding} (h : Opens a f) : Records a (.routines, node)
      { a.findings with routines := a.findings.routines.write node f }

/-- One change, and the keys that it writes. -/
inductive Step : Multiset Key → Analysis → Analysis → Prop
  | report (a : Analysis) (e : SemanticError) :
      Step 0 a { a with diagnostics := a.diagnostics.report e }
  | types (a : Analysis) {t : TypeTable} (h : a.types.Step t) : Step 0 a { a with types := t }
  | plan (a : Analysis) (name : String) (kind : UnitKind) (ownerType : Option TypeId) :
      Step 0 a { a with
        units := (a.units.plan (a.scopes.get a.current).unit name kind ownerType).2 }
  /-- A scope is opened for the newest unit, or for the one that it shares. -/
  | scopes (a : Analysis) {t : Scopes} (h : a.scopes.Step a.current t)
      (housed : ∀ s, t.Has s → ¬ a.scopes.Has s → a.units.Housed t s) :
      Step 0 a { a with scopes := t }
  | record (a : Analysis) {k : Key} {f : Findings} (h : Records a k f) :
      Step {k} a { a with findings := f }

/-- Changes made from one scope. -/
inductive Steps : Multiset Key → Analysis → Analysis → Prop
  | refl (a : Analysis) : Steps 0 a a
  | step {K : Multiset Key} {a b : Analysis} (h : Step K a b) : Steps K a b
  | trans {K L : Multiset Key} {a b c : Analysis} (h : Steps K a b) (h' : Steps L b c) :
      Steps (K + L) a c
  | mono {K L : Multiset Key} {a b : Analysis} (h : Steps K a b) (hKL : K ≤ L) : Steps L a b

/-- Changes made from one scope and from scopes inside it. -/
inductive Walk : Multiset Key → Analysis → Analysis → Prop
  | steps {K : Multiset Key} {a b : Analysis} (h : Steps K a b) : Walk K a b
  | trans {K L : Multiset Key} {a b c : Analysis} (h : Walk K a b) (h' : Walk L b c) :
      Walk (K + L) a c
  | mono {K L : Multiset Key} {a b : Analysis} (h : Walk K a b) (hKL : K ≤ L) : Walk L a b
  /-- Into a block, or to the static initial values of a type. -/
  | inside {K : Multiset Key} {a b : Analysis} {s : ScopeId}
      (parent : a.scopes.parent s = some a.current)
      (kind : (a.scopes.get s).kind = .fieldInit ∨
        (a.scopes.get s).kind = .block ∧ (a.scopes.get s).captures = [])
      (h : Walk K { a with current := s } b) : Walk K a { b with current := a.current }
  /-- Through the body of a routine, whose finding then gets its captures. -/
  | routine {K : Multiset Key} {a b c : Analysis} {s : ScopeId} {node : NodeId}
      {sources : List CaptureSource} (parent : a.scopes.parent s = some a.current)
      (kind : (a.scopes.get s).kind = .routine) (empty : (a.scopes.get s).captures = [])
      (found : ∃ f, (node, f) ∈ a.findings.routines ∧ f.scope = s)
      (body : Walk K { a with current := s } b) (after : Steps 0 { b with current := a.current } c)
      (sourced : List.Forall₂ (c.scopes.Sourced a.current) (c.scopes.get s).captures sources) :
      Walk K a { c with findings := c.findings.complete node sources }
  /-- Through the members of a type, which is recorded afterwards. -/
  | type {K : Multiset Key} {a b c : Analysis} {node : NodeId} {f : TypeFinding}
      (parent : a.scopes.parent f.scope = some a.current)
      (kind : (a.scopes.get f.scope).kind = .type)
      (empty : (a.scopes.get f.scope).captures = [])
      (fresh : ∀ e ∈ a.findings.types, e.2.scope ≠ f.scope)
      (memberOf : (a.scopes.get f.scope).memberOf = some f.type)
      (unit : (a.scopes.get f.scope).unit = f.unit)
      (addressed : a.types.Addressed f.type (a.units.path f.unit))
      (inner : b.scopes.parent f.fieldInit = some f.scope)
      (innerKind : (b.scopes.get f.fieldInit).kind = .fieldInit)
      (body : Walk K { a with current := f.scope } b)
      (after : Steps 0 { b with current := a.current } c)
      (sourced : List.Forall₂ (c.scopes.Sourced a.current) (c.scopes.get f.scope).captures
        f.captures) :
      Walk (K + {(.types, node)}) a
        { c with findings := { c.findings with types := c.findings.types.write node f } }

variable {K L : Multiset Key} {a b c : Analysis}

/-- A change that opens no scope. -/
theorem Step.within {t : Scopes} (h : a.scopes.Step a.current t) (hsize : t.size = a.scopes.size) :
    Step 0 a { a with scopes := t } :=
  .scopes a h fun s hs hnot => absurd (by rwa [Scopes.Has, hsize] at hs) hnot

theorem Walk.refl (a : Analysis) : Walk 0 a a := .steps (.refl a)

/-! ## The scope that the walk is in -/

theorem Step.current_eq (h : Step K a b) : b.current = a.current := by
  cases h <;> rfl

theorem Steps.current_eq (h : Steps K a b) : b.current = a.current := by
  induction h with
  | refl => rfl
  | step h => exact h.current_eq
  | trans _ _ ih ih' => exact ih'.trans ih
  | mono _ _ ih => exact ih

theorem Walk.current_eq (h : Walk K a b) : b.current = a.current := by
  induction h with
  | steps h => exact h.current_eq
  | trans _ _ ih ih' => exact ih'.trans ih
  | mono _ _ ih => exact ih
  | inside => rfl
  | routine _ _ _ _ _ after => exact after.current_eq
  | type _ _ _ _ _ _ _ _ _ _ after => exact after.current_eq

/-- Types are recorded by a walk that comes back from one, and nowhere else. -/
theorem Step.types_eq (h : Step K a b) : b.findings.types = a.findings.types := by
  cases h with
  | record a h => cases h <;> rfl
  | report | types | plan | scopes => rfl

theorem Steps.types_eq (h : Steps K a b) : b.findings.types = a.findings.types := by
  induction h with
  | refl => rfl
  | step h => exact h.types_eq
  | trans _ _ ih ih' => exact ih'.trans ih
  | mono _ _ ih => exact ih

/-! ## Keys -/

theorem keysIn_write {α : Type} (t : NodeTable α) (table : Table) (node : NodeId) (x : α) :
    NodeTable.keysIn (t.write node x) table = {(table, node)} + t.keysIn table := by
  rw [NodeTable.keysIn, NodeTable.write, List.map_cons, ← Multiset.cons_coe,
    Multiset.singleton_add, NodeTable.keysIn]

theorem keysIn_change {α : Type} (t : NodeTable α) (table : Table) (node : NodeId) (f : α → α) :
    NodeTable.keysIn (t.change node f) table = t.keysIn table := by
  rw [NodeTable.keysIn, NodeTable.change, List.map_map, NodeTable.keysIn]
  refine congrArg _ (List.map_congr_left fun e _ => ?_)
  dsimp only [Function.comp_apply]
  split <;> rfl

theorem keys_complete (f : Findings) (node : NodeId) (sources : List CaptureSource) :
    (f.complete node sources).keys = f.keys := by
  rw [Findings.complete, Findings.keys, keysIn_change, Findings.keys]

theorem keys_write_types (f : Findings) (node : NodeId) (x : TypeFinding) :
    Findings.keys { f with types := f.types.write node x } = {(.types, node)} + f.keys := by
  simp only [Findings.keys, keysIn_write]
  abel

theorem Records.keys_eq {k : Key} {f : Findings} (h : Records a k f) :
    f.keys = {k} + a.findings.keys := by
  cases h <;> simp only [Findings.keys, keysIn_write] <;> abel

theorem Step.keys_eq (h : Step K a b) : b.findings.keys = K + a.findings.keys := by
  cases h with
  | record a h => exact h.keys_eq
  | report | types | plan | scopes => rw [zero_add]

theorem Steps.keys_le (h : Steps K a b) : b.findings.keys ≤ K + a.findings.keys := by
  induction h with
  | refl => rw [zero_add]
  | step h => exact le_of_eq h.keys_eq
  | @trans K L a b c _ _ ih ih' =>
    refine ih'.trans ((add_le_add_right ih L).trans (le_of_eq ?_))
    abel
  | mono _ hKL ih => exact ih.trans (add_le_add_left hKL _)

/-- A walk writes no keys but its own. -/
theorem Walk.keys_le (h : Walk K a b) : b.findings.keys ≤ K + a.findings.keys := by
  induction h with
  | steps h => exact h.keys_le
  | @trans K L a b c _ _ ih ih' =>
    refine ih'.trans ((add_le_add_right ih L).trans (le_of_eq ?_))
    abel
  | mono _ hKL ih => exact ih.trans (add_le_add_left hKL _)
  | inside _ _ _ ih => exact ih
  | @routine K a b c s node sources _ _ _ _ _ after _ ih =>
    have hc := after.keys_le
    rw [zero_add] at hc
    exact (le_of_eq (keys_complete _ _ _)).trans (hc.trans ih)
  | @type K a b c node f _ _ _ _ _ _ _ _ _ _ after _ ih =>
    have hc := after.keys_le
    rw [zero_add] at hc
    refine (le_of_eq (keys_write_types _ _ _)).trans ((add_le_add_right (hc.trans ih) _).trans (le_of_eq ?_))
    abel

end Analysis

end Unnest
