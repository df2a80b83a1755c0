import Mathlib.Data.List.TakeWhile
import Unnest.Proofs.Scope.Propagation

/-!
# Tables of names

A scope lists in order what it declares and what it captures.  A name is looked up by the
position that was noted when it was listed, so lookups are right only as long as every
operation notes what it lists.  `Indexed` is a tree together with these notes and with the
tokens that were given out, and the operations on it change it in place: one that fails
leaves it as it is by then.

A table and its notes agree (`Positions`) when the note of a name is the place of the one
element that has it.  Then no name is listed twice, and looking a name up by its position
is looking through the list, so the operations end where those of `Scopes` do
(`Consistent.perform_declare`).  Each of them keeps that, keeps the names of values and
types apart, the scopes inside a scope in the order of age, and the tokens of a scope
different (`Step.consistent`).  Every test comes before the first change, the slot that a
method gives included, so what is refused leaves no trace (`Consistent.eq_of_refused`).
-/

namespace Unnest.Scopes

open Relation (ReflTransGen)

/-! ## Notes of positions -/

section Positions

variable {α : Type} {name : α → String} {xs : List α} {f : String → Option Nat} {n : String}

/-- The position of every name is noted, and of nothing else. -/
def Positions (name : α → String) (xs : List α) (f : String → Option Nat) : Prop :=
  ∀ n i, f n = some i ↔ ∃ x, xs[i]? = some x ∧ name x = n

theorem positions_nil (name : α → String) : Positions name [] fun _ => none := fun _ _ => by simp

/-- A name that is noted nowhere is that of no element. -/
theorem Positions.eq_none_iff (h : Positions name xs f) : f n = none ↔ ∀ x ∈ xs, name x ≠ n := by
  constructor
  · rintro hnone x hx rfl
    obtain ⟨i, hi⟩ := List.mem_iff_getElem?.mp hx
    rw [(h _ i).mpr ⟨x, hi, rfl⟩] at hnone
    exact absurd hnone (by simp)
  · intro hno
    refine Option.eq_none_iff_forall_ne_some.mpr fun i hi => ?_
    obtain ⟨x, hx, hname⟩ := (h n i).mp hi
    exact hno x (List.mem_of_getElem? hx) hname

/-- A name stands at one position only. -/
theorem Positions.nodup (h : Positions name xs f) : (xs.map name).Nodup := by
  rw [List.nodup_iff_getElem?_ne_getElem?]
  intro i j hij hj heq
  rw [List.length_map] at hj
  rw [List.getElem?_map, List.getElem?_map, List.getElem?_eq_getElem hj,
    List.getElem?_eq_getElem (Nat.lt_trans hij hj), Option.map_some, Option.map_some,
    Option.some.injEq] at heq
  have hi := (h _ i).mpr ⟨_, List.getElem?_eq_getElem (Nat.lt_trans hij hj), heq⟩
  have hj := (h _ j).mpr ⟨_, List.getElem?_eq_getElem hj, rfl⟩
  exact absurd (Option.some.inj (hi.symm.trans hj)) (Nat.ne_of_lt hij)

/-- What is looked up by its position is the element that has the name. -/
theorem Positions.bind_eq_some_iff (h : Positions name xs f) {x : α} :
    ((f n).bind fun i => xs[i]?) = some x ↔ x ∈ xs ∧ name x = n := by
  rw [Option.bind_eq_some_iff]
  constructor
  · rintro ⟨i, hi, hx⟩
    obtain ⟨y, hy, hname⟩ := (h n i).mp hi
    obtain rfl := Option.some.inj (hx.symm.trans hy)
    exact ⟨List.mem_of_getElem? hx, hname⟩
  · rintro ⟨hx, hname⟩
    obtain ⟨i, hi⟩ := List.mem_iff_getElem?.mp hx
    exact ⟨i, (h n i).mpr ⟨x, hi, hname⟩, hi⟩

/-- Looking a name up by its position is looking through the list. -/
theorem Positions.bind_eq_find? (h : Positions name xs f) (n : String) :
    ((f n).bind fun i => xs[i]?) = xs.find? fun x => name x == n := by
  cases hfind : xs.find? fun x => name x == n with
  | none =>
    rw [List.find?_eq_none] at hfind
    rw [h.eq_none_iff.mpr fun x hx => by simpa using hfind x hx]
    rfl
  | some x =>
    exact h.bind_eq_some_iff.mpr ⟨List.mem_of_find?_eq_some hfind,
      by simpa using List.find?_some hfind⟩

/-- A new name is noted at the end. -/
theorem Positions.push {g : String → Option Nat} {x : α} (h : Positions name xs f)
    (hnew : ∀ y ∈ xs, name y ≠ name x)
    (hg : ∀ n, g n = if n = name x then some xs.length else f n) :
    Positions name (xs ++ [x]) g := by
  intro n i
  have hat : (xs ++ [x])[xs.length]? = some x := List.getElem?_concat_length
  rw [hg]
  split
  · rename_i hn
    subst hn
    constructor
    · intro hi
      obtain rfl := Option.some.inj hi
      exact ⟨x, hat, rfl⟩
    · rintro ⟨y, hy, hname⟩
      rcases Nat.lt_or_ge i xs.length with hi | hi
      · rw [List.getElem?_append_left hi] at hy
        exact absurd hname (hnew y (List.mem_of_getElem? hy))
      · obtain ⟨hlt, -⟩ := List.getElem?_eq_some_iff.mp hy
        rw [List.length_append, List.length_singleton] at hlt
        rw [Nat.le_antisymm hi (Nat.le_of_lt_succ hlt)]
  · rename_i hn
    rw [h n i]
    refine exists_congr fun y => and_congr_left fun hname => ?_
    rcases Nat.lt_or_ge i xs.length with hi | hi
    · rw [List.getElem?_append_left hi]
    · rw [List.getElem?_eq_none hi, List.getElem?_append_right hi]
      refine ⟨fun hy => absurd hy (by simp), fun hy => ?_⟩
      have hx := List.mem_singleton.mp (List.mem_of_getElem? hy)
      exact absurd (hx ▸ hname).symm hn

end Positions

/-! ## Operations -/

/-- A tree, and what is kept beside its lists. -/
structure Indexed where
  tree : Scopes
  /-- Where the entry of a name is listed in a scope. -/
  entryAt : ScopeId → String → Option Nat
  /-- Where the capture of a name is listed in a scope. -/
  captureAt : ScopeId → String → Option Nat
  /-- The tokens that were given to blocks of a scope. -/
  tokens : ScopeId → List String

/-- Notes where a name is going to be listed in some scopes. -/
def noteIn (at? : ScopeId → String → Option Nat) (ds : List ScopeId) (name : String)
    (i : ScopeId → Nat) : ScopeId → String → Option Nat :=
  fun d n => if d ∈ ds ∧ n = name then some (i d) else at? d n

/-- An operation that changes a tree in place, and leaves it as it is by then if it fails. -/
abbrev InPlace := EStateM SemanticError Indexed

namespace Indexed

/-- The tree of the body of a program and nothing else. -/
def root (name : String) (unit : UnitId) : Indexed :=
  ⟨.root name unit, fun _ _ => none, fun _ _ => none, fun _ => []⟩

/-- The entry of a name, by the position that was noted. -/
def entry (k : Indexed) (s : ScopeId) (n : String) : Option Binding :=
  (k.entryAt s n).bind fun i => (k.tree.get s).entries[i]?

/-- The capture of a name, by the position that was noted. -/
def captured (k : Indexed) (s : ScopeId) (n : String) : Option Capture :=
  (k.captureAt s n).bind fun i => (k.tree.get s).captures[i]?

/-- Opens a scope. -/
def openScope (parent : ScopeId) (kind : ScopeKind) (name : String) (unit : UnitId) :
    InPlace ScopeId := do
  let (id, tree) := (← MonadState.get).tree.openScope parent kind name unit
  modify fun k => { k with tree }
  return id

/-- Declares a value: the name is tested by its note, the method gives the slot, and the
scope lists the entry and notes where. -/
def declare (s : ScopeId) (b : Binding) (span : Span) : InPlace Binding := do
  let k ← MonadState.get
  if (k.entryAt s b.name).isSome || ((k.tree.get s).type? b.name).isSome then
    throw ⟨.duplicateName b.name, span⟩
  let (b, tree) := k.tree.takeSlot s b
  modify fun k => { k with tree }
  modify fun k =>
    { k with entryAt := noteIn k.entryAt [s] b.name fun d => (k.tree.get d).entries.length }
  modify fun k =>
    { k with tree := k.tree.update s fun x => { x with entries := x.entries ++ [b] } }
  return b

/-- Declares a type.  Types are looked up in their own table, values by their notes. -/
def declareType (s : ScopeId) (name : String) (type : TypeId) (span : Span) : InPlace Unit := do
  let k ← MonadState.get
  if ((k.tree.get s).type? name).isSome then throw ⟨.duplicateType name, span⟩
  if (k.entryAt s name).isSome then throw ⟨.duplicateName name, span⟩
  modify fun k =>
    { k with tree := k.tree.update s fun x => { x with types := x.types ++ [(name, type)] } }

/-- Gives out the next token of a scope. -/
def nextBlockName (s : ScopeId) : InPlace String := do
  let (name, tree) := (← MonadState.get).tree.nextBlockName s
  modify fun k =>
    { k with tree, tokens := fun d => if d = s then k.tokens d ++ [name] else k.tokens d }
  return name

/-- Records a use on the scopes that have to receive it. -/
def capture (s : ScopeId) (b : Binding) (owner : ScopeId) : InPlace Unit :=
  modify fun k =>
    { k with
      tree := k.tree.capture s b owner
      captureAt := noteIn k.captureAt (k.tree.captureSites s b owner) b.name
        fun d => (k.tree.get d).captures.length }

/-- Says what type a scope belongs to. -/
def markMember (s : ScopeId) (memberOf : Option TypeId) (isStatic : Bool) : InPlace Unit :=
  modify fun k => { k with tree := k.tree.markMember s memberOf isStatic }

end Indexed

/-- An operation on a tree of scopes. -/
inductive Edit where
  | openScope (parent : ScopeId) (kind : ScopeKind) (name : String) (unit : UnitId)
  | declare (s : ScopeId) (b : Binding) (span : Span)
  | declareType (s : ScopeId) (name : String) (type : TypeId) (span : Span)
  | nextBlockName (s : ScopeId)
  | capture (s : ScopeId) (b : Binding) (owner : ScopeId)
  | markMember (s : ScopeId) (memberOf : Option TypeId) (isStatic : Bool)

namespace Edit

/-- The scope that an operation is given. -/
def scope : Edit → ScopeId
  | .openScope s _ _ _ | .declare s _ _ | .declareType s _ _ _ | .nextBlockName s
  | .capture s _ _ | .markMember s _ _ => s

/-- Makes an operation. -/
def perform : Edit → InPlace Unit
  | .openScope parent kind name unit => discard <| Indexed.openScope parent kind name unit
  | .declare s b span => discard <| Indexed.declare s b span
  | .declareType s name type span => Indexed.declareType s name type span
  | .nextBlockName s => discard <| Indexed.nextBlockName s
  | .capture s b owner => Indexed.capture s b owner
  | .markMember s memberOf isStatic => Indexed.markMember s memberOf isStatic

end Edit

namespace Indexed

/-- One operation on a scope of the tree goes through, or it is refused.  Either way the
tree is used as it is then. -/
inductive Step (k : Indexed) : Indexed → Prop
  | done (e : Edit) {k' : Indexed} (hs : k.tree.Has e.scope) (h : e.perform.run k = .ok () k') :
      Step k k'
  | refused (e : Edit) {err : SemanticError} {k' : Indexed} (hs : k.tree.Has e.scope)
      (h : e.perform.run k = .error err k') : Step k k'

/-- What holds of every scope. -/
structure Consistent (k : Indexed) (s : ScopeId) : Prop where
  entries : Positions (·.name) (k.tree.get s).entries (k.entryAt s)
  captures : Positions (·.name) (k.tree.get s).captures (k.captureAt s)
  types : ((k.tree.get s).types.map (·.1)).Nodup
  apart : ∀ b ∈ (k.tree.get s).entries, ∀ e ∈ (k.tree.get s).types, b.name ≠ e.1
  children : (k.tree.get s).children = k.tree.ids.filter fun c => k.tree.parent c = some s
  tokens : k.tokens s = (List.range (k.tree.get s).blockCount).map blockToken

end Indexed

/-! ## The scopes inside a scope -/

variable {t t' : Scopes} {s c p : ScopeId} {b b' : Binding} {k k' : Indexed} {n : String}

/-- Two trees of the same scopes, each inside the same one. -/
structure SameKin (t t' : Scopes) : Prop where
  size_eq : t'.size = t.size
  parent_eq : ∀ c, t'.parent c = t.parent c
  children_eq : ∀ s, (t'.get s).children = (t.get s).children

theorem SameKin.wf (h : SameKin t t') (hw : t.WF) : t'.WF :=
  ⟨fun c p hp => hw.parent_lt c p (by rwa [h.parent_eq] at hp)⟩

theorem SameKin.children (h : SameKin t t')
    (hc : (t.get s).children = t.ids.filter fun c => t.parent c = some s) :
    (t'.get s).children = t'.ids.filter fun c => t'.parent c = some s := by
  rw [h.children_eq, hc, ids, ids, h.size_eq]
  exact List.filter_congr fun c _ => by rw [h.parent_eq]

theorem sameKin_update {f : Scope → Scope} (hp : ∀ x, (f x).parent = x.parent)
    (hc : ∀ x, (f x).children = x.children) (t : Scopes) (s : ScopeId) :
    SameKin t (t.update s f) :=
  ⟨size_update t s f, get_update_congr Scope.parent hp t s, get_update_congr Scope.children hc t s⟩

theorem sameKin_declare {span : Span} (h : t.declare s b span = .ok (b', t')) : SameKin t t' :=
  ⟨(declared_of_declare h).size_eq,
    get_declare_congr Scope.parent (fun _ _ => rfl) (fun _ _ => rfl) h,
    get_declare_congr Scope.children (fun _ _ => rfl) (fun _ _ => rfl) h⟩

theorem sameKin_declareType {type : TypeId} {span : Span}
    (h : t.declareType s n type span = .ok t') : SameKin t t' :=
  ⟨(typeDeclared_of_declareType h).size_eq,
    get_declareType_congr Scope.parent (fun _ _ => rfl) h,
    get_declareType_congr Scope.children (fun _ _ => rfl) h⟩

theorem sameKin_capture (t : Scopes) (s : ScopeId) (b : Binding) (owner : ScopeId) :
    SameKin t (t.capture s b owner) :=
  ⟨size_foldl_pushCapture _ _ t, get_capture_congr Scope.parent (fun _ _ => rfl) t s b owner,
    get_capture_congr Scope.children (fun _ _ => rfl) t s b owner⟩

theorem type?_eq_none (x : Scope) : x.type? n = none ↔ ∀ e ∈ x.types, e.1 ≠ n := by
  rw [Scope.type?, Option.map_eq_none_iff, List.find?_eq_none]
  simp only [beq_iff_eq, Ne]

theorem binding?_eq_none (x : Scope) : x.binding? n = none ↔ ∀ b ∈ x.entries, b.name ≠ n := by
  rw [Scope.binding?, List.find?_eq_none]
  simp only [beq_iff_eq, Ne]

theorem capture?_eq_none (x : Scope) :
    x.capture? n = none ↔ ∀ c ∈ x.captures, c.name ≠ n := by
  rw [Scope.capture?, List.find?_eq_none]
  simp only [beq_iff_eq, Ne]

/-- The scopes inside another one, with the one that is opened. -/
theorem children_eq_filter_openScope (hp : t.Has p) (kind : ScopeKind) (name : String)
    (unit : UnitId)
    (hc : (t.get s).children = t.ids.filter fun c => t.parent c = some s) :
    ((t.openScope p kind name unit).2.get s).children =
      (t.openScope p kind name unit).2.ids.filter fun c =>
        (t.openScope p kind name unit).2.parent c = some s := by
  have hold : ∀ c ∈ t.ids, (t.openScope p kind name unit).2.parent c = t.parent c := by
    intro c hmem
    obtain ⟨i, hi, rfl⟩ := List.mem_map.mp hmem
    exact (agrees_openScope_old t p kind name unit (List.mem_range.mp hi)).head.parent
  have hnew : (t.openScope p kind name unit).2.parent ⟨t.size⟩ = some p :=
    (agrees_openScope_new t p kind name unit).head.parent
  have hids : (t.openScope p kind name unit).2.ids = t.ids ++ [⟨t.size⟩] := by
    rw [ids, ids, size_openScope, List.range_succ, List.map_append, List.map_singleton]
  rw [children_get_openScope hp, hc, hids, List.filter_append, List.filter_singleton, hnew]
  refine congrArg₂ (· ++ ·) (List.filter_congr fun c hmem => by rw [hold c hmem]) ?_
  by_cases hs : p = s
  · rw [if_pos hs, hs, decide_eq_true rfl, cond_true]
  · rw [if_neg hs, decide_eq_false fun h => hs (Option.some.inj h), cond_false]

/-- A scope that is opened lists as much as one that does not exist: nothing. -/
theorem get_openScope_of_empty {α : Type} (g : Scope → α)
    (hg : ∀ x cs, g { x with children := cs } = g x) (kind : ScopeKind) (name : String)
    (unit : UnitId) (hempty : g (.empty (some p) kind name unit) = g default) (s : ScopeId) :
    g ((t.openScope p kind name unit).2.get s) = g (t.get s) := by
  by_cases hs : t.Has s
  · exact get_openScope_congr p kind name unit g hg hs
  · refine (get_update_congr g (fun x => hg x _) _ p s).trans ?_
    rw [get_of_not_has hs, get, get?, Array.getElem?_push]
    split
    · exact hempty
    · rw [Array.getElem?_eq_none (Nat.le_of_not_lt hs)]
      rfl

/-- What is not noted again is found where it was. -/
theorem noteIn_of_not {at? : ScopeId → String → Option Nat} {ds : List ScopeId} {name : String}
    {i : ScopeId → Nat} (h : s ∉ ds) : noteIn at? ds name i s = at? s := by
  funext n
  rw [noteIn, if_neg fun hd => h hd.1]

theorem noteIn_of_mem {at? : ScopeId → String → Option Nat} {ds : List ScopeId} {name : String}
    {i : ScopeId → Nat} (h : s ∈ ds) (n : String) :
    noteIn at? ds name i s n = if n = name then some (i s) else at? s n := by
  rw [noteIn]
  simp only [h, true_and]

namespace Indexed

/-! ## Where operations end -/

/-- A name has a note when it is that of an entry. -/
theorem Consistent.isSome_entryAt (h : k.Consistent s) (n : String) :
    (k.entryAt s n).isSome = ((k.tree.get s).binding? n).isSome := by
  rw [Bool.eq_iff_iff, ← not_iff_not, Option.not_isSome_iff_eq_none, Option.not_isSome_iff_eq_none,
    h.entries.eq_none_iff, binding?_eq_none]

theorem Consistent.declare_of_error {span : Span} {err : SemanticError} (h : k.Consistent s)
    (herr : k.tree.declare s b span = .error err) :
    (declare s b span).run k = .error err k := by
  simp only [Scopes.declare, ← h.isSome_entryAt] at herr
  split at herr
  · rename_i htaken
    obtain rfl := Except.error.inj herr
    simp only [declare, EStateM.run_bind, EStateM.run_get]
    rw [if_pos htaken]
    rfl
  · exact absurd herr (by simp)

theorem Consistent.declare_of_ok {span : Span} (h : k.Consistent s)
    (hok : k.tree.declare s b span = .ok (b', t')) :
    (declare s b span).run k = .ok b'
      { k with
        tree := t'
        entryAt := noteIn k.entryAt [s] b.name fun d => (k.tree.get d).entries.length } := by
  simp only [Scopes.declare, ← h.isSome_entryAt] at hok
  split at hok
  · exact absurd hok (by simp)
  · rename_i hfresh
    obtain ⟨rfl, rfl⟩ := Prod.mk.inj (Except.ok.inj hok)
    have hname : (k.tree.takeSlot s b).1.name = b.name := by rw [fst_takeSlot]
    have hlength : (fun d => (k.tree.get d).entries.length) =
        fun d => ((k.tree.takeSlot s b).2.get d).entries.length :=
      funext fun d => by rw [(agrees_takeSlot k.tree s d b).entries]
    simp only [declare, EStateM.run_bind, EStateM.run_get]
    rw [if_neg hfresh, ← hname, hlength]
    rfl

theorem Consistent.declareType_of_error {type : TypeId} {span : Span} {err : SemanticError}
    (h : k.Consistent s) (herr : k.tree.declareType s n type span = .error err) :
    (declareType s n type span).run k = .error err k := by
  simp only [Scopes.declareType, ← h.isSome_entryAt] at herr
  simp only [declareType, EStateM.run_bind, EStateM.run_get]
  split at herr
  · rename_i htype
    rw [if_pos htype, ← Except.error.inj herr]
    rfl
  · rename_i htype
    rw [if_neg htype]
    split at herr
    · rename_i hvalue
      rw [if_pos hvalue, ← Except.error.inj herr]
      rfl
    · exact absurd herr (by simp)

theorem Consistent.declareType_of_ok {type : TypeId} {span : Span} (h : k.Consistent s)
    (hok : k.tree.declareType s n type span = .ok t') :
    (declareType s n type span).run k = .ok () { k with tree := t' } := by
  simp only [Scopes.declareType, ← h.isSome_entryAt] at hok
  simp only [declareType, EStateM.run_bind, EStateM.run_get]
  split at hok
  · exact absurd hok (by simp)
  · rename_i htype
    rw [if_neg htype]
    split at hok
    · exact absurd hok (by simp)
    · rename_i hvalue
      rw [if_neg hvalue, ← Except.ok.inj hok]
      rfl

theorem run_discard_of_ok {α : Type} {m : InPlace α} {a : α} (h : m.run k = .ok a k') :
    (discard m : InPlace Unit).run k = .ok () k' := by
  rw [EStateM.run] at h
  simp only [discard, Functor.mapConst, EStateM.run, Function.comp_apply, EStateM.map, h]

theorem run_discard_of_error {α : Type} {m : InPlace α} {err : SemanticError}
    (h : m.run k = .error err k') : (discard m : InPlace Unit).run k = .error err k' := by
  rw [EStateM.run] at h
  simp only [discard, Functor.mapConst, EStateM.run, Function.comp_apply, EStateM.map, h]

theorem Consistent.perform_declare (h : k.Consistent s) (b : Binding) (span : Span) :
    (∃ b' t', k.tree.declare s b span = .ok (b', t') ∧
      (Edit.declare s b span).perform.run k = .ok ()
        { k with
          tree := t'
          entryAt := noteIn k.entryAt [s] b.name fun d => (k.tree.get d).entries.length }) ∨
    ∃ err, k.tree.declare s b span = .error err ∧
      (Edit.declare s b span).perform.run k = .error err k := by
  cases hd : k.tree.declare s b span with
  | ok r => exact Or.inl ⟨r.1, r.2, rfl, run_discard_of_ok (h.declare_of_ok hd)⟩
  | error err => exact Or.inr ⟨err, rfl, run_discard_of_error (h.declare_of_error hd)⟩

theorem Consistent.perform_declareType (h : k.Consistent s) (name : String) (type : TypeId)
    (span : Span) :
    (∃ t', k.tree.declareType s name type span = .ok t' ∧
      (Edit.declareType s name type span).perform.run k = .ok () { k with tree := t' }) ∨
    ∃ err, k.tree.declareType s name type span = .error err ∧
      (Edit.declareType s name type span).perform.run k = .error err k := by
  cases hd : k.tree.declareType s name type span with
  | ok t' => exact Or.inl ⟨t', rfl, h.declareType_of_ok hd⟩
  | error err => exact Or.inr ⟨err, rfl, h.declareType_of_error hd⟩

/-- A refused operation leaves everything as it was. -/
theorem Consistent.eq_of_refused {e : Edit} {err : SemanticError} (h : k.Consistent e.scope)
    (he : e.perform.run k = .error err k') : k' = k := by
  cases e with
  | openScope | nextBlockName | capture | markMember => exact absurd he (by rintro ⟨⟩)
  | declare s b span =>
    rcases h.perform_declare b span with ⟨_, _, -, hrun⟩ | ⟨_, -, hrun⟩
    · exact absurd (hrun.symm.trans he) (by simp)
    · cases hrun.symm.trans he
      rfl
  | declareType s name type span =>
    rcases h.perform_declareType name type span with ⟨_, -, hrun⟩ | ⟨_, -, hrun⟩
    · exact absurd (hrun.symm.trans he) (by simp)
    · cases hrun.symm.trans he
      rfl

/-! ## What operations keep -/

/-- A scope in which the same is listed. -/
theorem Consistent.same (h : k.Consistent s)
    (hentries : (k'.tree.get s).entries = (k.tree.get s).entries)
    (hcaptures : (k'.tree.get s).captures = (k.tree.get s).captures)
    (htypes : (k'.tree.get s).types = (k.tree.get s).types)
    (hentry : k'.entryAt s = k.entryAt s) (hcapture : k'.captureAt s = k.captureAt s)
    (hchildren : (k'.tree.get s).children = k'.tree.ids.filter fun c => k'.tree.parent c = some s)
    (htokens : k'.tokens s = (List.range (k'.tree.get s).blockCount).map blockToken) :
    k'.Consistent s where
  entries := by
    rw [hentries, hentry]
    exact h.entries
  captures := by
    rw [hcaptures, hcapture]
    exact h.captures
  types := by
    rw [htypes]
    exact h.types
  apart := by
    rw [hentries, htypes]
    exact h.apart
  children := hchildren
  tokens := htokens

section

variable (h : ∀ s, k.Consistent s)
include h

theorem Consistent.openScope (hp : k.tree.Has p) (kind : ScopeKind) (name : String)
    (unit : UnitId) (s : ScopeId) :
    Consistent { k with tree := (k.tree.openScope p kind name unit).2 } s := by
  have hlist {α : Type} (g : Scope → α) (hg : ∀ x cs, g { x with children := cs } = g x)
      (hempty : g (.empty (some p) kind name unit) = g default) :
      g ((k.tree.openScope p kind name unit).2.get s) = g (k.tree.get s) :=
    get_openScope_of_empty g hg kind name unit hempty s
  have htokens : k.tokens s = (List.range
      ((k.tree.openScope p kind name unit).2.get s).blockCount).map blockToken := by
    rw [hlist Scope.blockCount (fun _ _ => rfl) rfl]
    exact (h s).tokens
  exact (h s).same (hlist Scope.entries (fun _ _ => rfl) rfl)
    (hlist Scope.captures (fun _ _ => rfl) rfl) (hlist Scope.types (fun _ _ => rfl) rfl) rfl rfl
    (children_eq_filter_openScope hp kind name unit (h s).children) htokens

theorem Consistent.declare {span : Span} (hp : k.tree.Has p)
    (hok : k.tree.declare p b span = .ok (b', t')) (s : ScopeId) :
    Consistent { k with
      tree := t'
      entryAt := noteIn k.entryAt [p] b.name fun d => (k.tree.get d).entries.length } s := by
  have hd := declared_of_declare hok
  have hname : b'.name = b.name := by rw [hd.binding_eq]
  have hchildren := (sameKin_declare hok).children (h s).children
  have htokens : k.tokens s = (List.range (t'.get s).blockCount).map blockToken := by
    rw [blockCount_declare hok]
    exact (h s).tokens
  by_cases hs : p = s
  · subst hs
    have hvalue := (binding?_eq_none _).mp hd.fresh_value
    have htype := (type?_eq_none _).mp hd.fresh_type
    have hpush : Positions (·.name) ((k.tree.get p).entries ++ [b'])
        (noteIn k.entryAt [p] b.name (fun d => (k.tree.get d).entries.length) p) := by
      refine (h p).entries.push (fun y hy => ?_) fun n => ?_
      · rw [hname]
        exact hvalue y hy
      · rw [hname]
        exact noteIn_of_mem (List.mem_singleton_self p) n
    refine ⟨hd.entries hp ▸ hpush, hd.captures ▸ (h p).captures, hd.types ▸ (h p).types, ?_,
      hchildren, htokens⟩
    rw [hd.entries hp, hd.types]
    intro x hx e he
    rcases List.mem_append.mp hx with hx | hx
    · exact (h p).apart x hx e he
    · rw [List.mem_singleton.mp hx, hname]
      exact (htype e he).symm
  · have hnote : noteIn k.entryAt [p] b.name (fun d => (k.tree.get d).entries.length) s =
        k.entryAt s := noteIn_of_not fun hmem => hs (List.mem_singleton.mp hmem).symm
    exact (h s).same (hd.agrees s hs).entries (hd.captures_eq s) (hd.types_eq s) hnote rfl
      hchildren htokens

theorem Consistent.declareType {type : TypeId} {span : Span} (hp : k.tree.Has p)
    (hok : k.tree.declareType p n type span = .ok t') (s : ScopeId) :
    Consistent { k with tree := t' } s := by
  have hd := typeDeclared_of_declareType hok
  have hchildren := (sameKin_declareType hok).children (h s).children
  have htokens : k.tokens s = (List.range (t'.get s).blockCount).map blockToken := by
    rw [blockCount_declareType hok]
    exact (h s).tokens
  by_cases hs : p = s
  · subst hs
    have hvalue := (binding?_eq_none _).mp hd.fresh_value
    have htype := (type?_eq_none _).mp hd.fresh_type
    refine ⟨hd.entries ▸ (h p).entries, hd.captures ▸ (h p).captures, ?_, ?_, hchildren, htokens⟩
    · rw [hd.types hp, List.map_append, List.map_singleton, List.nodup_append]
      refine ⟨(h p).types, List.nodup_singleton _, fun m hm x hx => ?_⟩
      obtain ⟨e, he, rfl⟩ := List.mem_map.mp hm
      rw [List.mem_singleton.mp hx]
      exact htype e he
    · rw [hd.entries, hd.types hp]
      intro x hx e he
      rcases List.mem_append.mp he with he | he
      · exact (h p).apart x hx e he
      · rw [List.mem_singleton.mp he]
        exact hvalue x hx
  · exact (h s).same (hd.entries_eq s) (hd.captures_eq s) (hd.agrees s hs).types rfl rfl
      hchildren htokens

theorem Consistent.nextBlockName (hp : k.tree.Has p) (s : ScopeId) :
    Consistent { k with
      tree := (k.tree.nextBlockName p).2
      tokens := fun d =>
        if d = p then k.tokens d ++ [(k.tree.nextBlockName p).1] else k.tokens d } s := by
  have hagree := agrees_nextBlockName k.tree p s
  have hkin : SameKin k.tree (k.tree.nextBlockName p).2 :=
    sameKin_update (f := fun x => { x with blockCount := x.blockCount + 1 }) (fun _ => rfl)
      (fun _ => rfl) k.tree p
  refine (h s).same hagree.entries hagree.captures hagree.types rfl rfl
    (hkin.children (h s).children) ?_
  dsimp only
  rw [blockCount_nextBlockName hp s]
  by_cases hs : s = p
  · subst hs
    rw [if_pos rfl, if_pos rfl, List.range_succ, List.map_append, List.map_singleton,
      (h s).tokens]
    rfl
  · rw [if_neg hs, if_neg (Ne.symm hs), Nat.add_zero]
    exact (h s).tokens

theorem Consistent.markMember (memberOf : Option TypeId) (isStatic : Bool) (p s : ScopeId) :
    Consistent { k with tree := k.tree.markMember p memberOf isStatic } s := by
  have hlist {α : Type} (g : Scope → α)
      (hg : ∀ x m i, g { x with memberOf := m, isStatic := i } = g x) :
      g ((k.tree.markMember p memberOf isStatic).get s) = g (k.tree.get s) :=
    get_update_congr g (fun x => hg x _ _) k.tree p s
  have hkin : SameKin k.tree (k.tree.markMember p memberOf isStatic) :=
    sameKin_update (f := fun x => { x with memberOf, isStatic }) (fun _ => rfl)
      (fun _ => rfl) k.tree p
  have htokens : k.tokens s = (List.range
      ((k.tree.markMember p memberOf isStatic).get s).blockCount).map blockToken := by
    rw [hlist Scope.blockCount fun _ _ _ => rfl]
    exact (h s).tokens
  exact (h s).same (hlist Scope.entries fun _ _ _ => rfl) (hlist Scope.captures fun _ _ _ => rfl)
    (hlist Scope.types fun _ _ _ => rfl) rfl rfl (hkin.children (h s).children) htokens

/-- A capture is recorded where its name is not known. -/
theorem Consistent.capture (hw : k.tree.WF) (hp : k.tree.Has p) (b : Binding)
    (owner s : ScopeId) :
    Consistent { k with
      tree := k.tree.capture p b owner
      captureAt := noteIn k.captureAt (k.tree.captureSites p b owner) b.name
        fun d => (k.tree.get d).captures.length } s := by
  have hcaptured : Captured k.tree ⟨b, owner⟩ (k.tree.captureSites p b owner)
      (k.tree.capture p b owner) := captured_foldl _ (hw.nodup_captureSites p ⟨b, owner⟩) k.tree
  have hchildren := (sameKin_capture k.tree p b owner).children (h s).children
  have htokens : k.tokens s =
      (List.range ((k.tree.capture p b owner).get s).blockCount).map blockToken := by
    rw [blockCount_capture]
    exact (h s).tokens
  by_cases hs : s ∈ k.tree.captureSites p b owner
  · have hmem := hw.captureSites_eq_takeWhile p b owner ▸ hs
    have hhas : k.tree.Has s := has_of_mem_path ((List.takeWhile_sublist _).subset hmem) hp
    have hnew : (k.tree.get s).capture? b.name = none := by
      have hstop := List.mem_takeWhile_imp hmem
      simp only [stopsBefore, Scope.knows, Bool.not_or, Bool.and_eq_true, Bool.not_eq_true',
        Option.isSome_eq_false_iff, Option.isNone_iff_eq_none] at hstop
      exact hstop.1.2.2
    have hpush : Positions (·.name) ((k.tree.get s).captures ++ [⟨b, owner⟩])
        (noteIn k.captureAt (k.tree.captureSites p b owner) b.name
          (fun d => (k.tree.get d).captures.length) s) :=
      (h s).captures.push (fun c hc => (capture?_eq_none _).mp hnew c hc) (noteIn_of_mem hs)
    exact ⟨hcaptured.entries s ▸ (h s).entries, hcaptured.captures_new s hs hhas ▸ hpush,
      hcaptured.types s ▸ (h s).types, hcaptured.entries s ▸ hcaptured.types s ▸ (h s).apart,
      hchildren, htokens⟩
  · have hnote : noteIn k.captureAt (k.tree.captureSites p b owner) b.name
        (fun d => (k.tree.get d).captures.length) s = k.captureAt s := noteIn_of_not hs
    exact (h s).same (hcaptured.entries s) (hcaptured.captures_old s hs) (hcaptured.types s) rfl
      hnote hchildren htokens

/-- Every operation keeps what holds of the scopes, and none of them is lost. -/
theorem Step.consistent (hw : k.tree.WF) (hstep : Step k k') :
    k'.tree.WF ∧ ∀ s, k'.Consistent s := by
  cases hstep with
  | refused e hs he => exact (h e.scope).eq_of_refused he ▸ ⟨hw, h⟩
  | done e hs he =>
    cases e with
    | openScope p kind name unit =>
      cases he
      exact ⟨(Change.openScope hs kind name unit).wf hw, Consistent.openScope h hs kind name unit⟩
    | declare p b span =>
      rcases (h p).perform_declare b span with ⟨_, _, hok, hrun⟩ | ⟨_, -, hrun⟩
      · cases hrun.symm.trans he
        exact ⟨(sameKin_declare hok).wf hw, Consistent.declare h hs hok⟩
      · exact absurd (hrun.symm.trans he) (by simp)
    | declareType p name type span =>
      rcases (h p).perform_declareType name type span with ⟨_, hok, hrun⟩ | ⟨_, -, hrun⟩
      · cases hrun.symm.trans he
        exact ⟨(Change.declareType hok).wf hw, Consistent.declareType h hs hok⟩
      · exact absurd (hrun.symm.trans he) (by simp)
    | nextBlockName p =>
      cases he
      exact ⟨(Change.nextBlockName p).wf hw, Consistent.nextBlockName h hs⟩
    | capture p b owner =>
      cases he
      exact ⟨(Change.capture p b owner).wf hw, Consistent.capture h hw hs b owner⟩
    | markMember p memberOf isStatic =>
      cases he
      exact ⟨(Change.markMember p memberOf isStatic).wf hw,
        Consistent.markMember h memberOf isStatic p⟩

end

/-! ## Runs -/

theorem consistent_root (name : String) (unit : UnitId) (s : ScopeId) :
    (root name unit).Consistent s := by
  have hget : (root name unit).tree.get s = .empty none .main name unit ∨
      (root name unit).tree.get s = default := by
    by_cases hs : (Scopes.root name unit).Has s
    · exact Or.inl (has_root hs ▸ rfl)
    · exact Or.inr (get_of_not_has hs)
  have hids : (root name unit).tree.ids = [rootId] := rfl
  rcases hget with hget | hget <;>
    exact ⟨hget ▸ positions_nil _, hget ▸ positions_nil _, hget ▸ List.nodup_nil,
      hget ▸ fun _ h => absurd h List.not_mem_nil, by rw [hget, hids]; rfl, by rw [hget]; rfl⟩

theorem consistent_of_steps {name : String} {unit : UnitId}
    (h : ReflTransGen Step (root name unit) k) : k.tree.WF ∧ ∀ s, k.Consistent s := by
  induction h with
  | refl => exact ⟨wf_root name unit, consistent_root name unit⟩
  | tail _ hstep ih => exact hstep.consistent ih.2 ih.1

/-- What is listed in a scope, and how it is looked up. -/
structure Tables (k : Indexed) (s : ScopeId) : Prop where
  entries_once : ((k.tree.get s).entries.map (·.name)).Nodup
  types_once : ((k.tree.get s).types.map (·.1)).Nodup
  apart : ∀ b ∈ (k.tree.get s).entries, ∀ e ∈ (k.tree.get s).types, b.name ≠ e.1
  captures_once : ((k.tree.get s).captures.map (·.name)).Nodup
  entry_iff : ∀ n b, k.entry s n = some b ↔ b ∈ (k.tree.get s).entries ∧ b.name = n
  captured_iff : ∀ n c, k.captured s n = some c ↔ c ∈ (k.tree.get s).captures ∧ c.name = n
  type_iff : ∀ n τ, (k.tree.get s).type? n = some τ ↔ (n, τ) ∈ (k.tree.get s).types
  /-- Looking a name up by its position is looking through the list. -/
  lookups : ∀ n, k.entry s n = (k.tree.get s).binding? n ∧
    k.captured s n = (k.tree.get s).capture? n
  children : (k.tree.get s).children = k.tree.ids.filter fun c => k.tree.parent c = some s
  tokens : (k.tokens s).Nodup

/-- The table of types is looked up as a list. -/
theorem Consistent.type_iff (h : k.Consistent s) (n : String) (τ : TypeId) :
    (k.tree.get s).type? n = some τ ↔ (n, τ) ∈ (k.tree.get s).types := by
  rw [Scope.type?, Option.map_eq_some_iff]
  constructor
  · rintro ⟨e, he, rfl⟩
    have hname : e.1 = n := by simpa using List.find?_some he
    exact hname ▸ List.mem_of_find?_eq_some he
  · intro hmem
    have hsome : ((k.tree.get s).types.find? (·.1 == n)).isSome = true :=
      List.find?_isSome.mpr ⟨_, hmem, beq_self_eq_true n⟩
    obtain ⟨e, he⟩ := Option.isSome_iff_exists.mp hsome
    have hname : e.1 = n := by simpa using List.find?_some he
    have heq : e = (n, τ) :=
      List.inj_on_of_nodup_map h.types (List.mem_of_find?_eq_some he) hmem hname
    exact ⟨e, he, heq ▸ rfl⟩

theorem Consistent.tables (h : k.Consistent s) : k.Tables s where
  entries_once := h.entries.nodup
  types_once := h.types
  apart := h.apart
  captures_once := h.captures.nodup
  entry_iff _ _ := h.entries.bind_eq_some_iff
  captured_iff _ _ := h.captures.bind_eq_some_iff
  type_iff := h.type_iff
  lookups n := ⟨h.entries.bind_eq_find? n, h.captures.bind_eq_find? n⟩
  children := h.children
  tokens := by
    rw [h.tokens]
    exact List.nodup_range.map fun _ _ => blockToken_inj

/-- A value is refused where its name is that of an entry or of a type. -/
theorem Consistent.declare_refused_iff (h : k.Consistent s) {span : Span} {err : SemanticError} :
    (Edit.declare s b span).perform.run k = .error err k' ↔
      ((∃ x ∈ (k.tree.get s).entries, x.name = b.name) ∨
        ∃ e ∈ (k.tree.get s).types, e.1 = b.name) ∧
      err = ⟨.duplicateName b.name, span⟩ ∧ k' = k := by
  have htaken : ((k.tree.get s).binding? b.name).isSome = true ∨
      ((k.tree.get s).type? b.name).isSome = true ↔
      (∃ x ∈ (k.tree.get s).entries, x.name = b.name) ∨
        ∃ e ∈ (k.tree.get s).types, e.1 = b.name := by
    simp [Scope.binding?, Scope.type?]
  rw [← htaken, ← Bool.or_eq_true]
  rcases h.perform_declare b span with ⟨b', t', hd, hrun⟩ | ⟨err', hd, hrun⟩ <;>
    rw [hrun] <;> simp only [Scopes.declare] at hd <;> split at hd <;> rename_i hname
  · exact absurd hd (by simp)
  · simp [hname]
  · rw [← Except.error.inj hd, EStateM.Result.error.injEq]
    exact ⟨fun heq => ⟨hname, heq.1.symm, heq.2.symm⟩, fun heq => ⟨heq.2.1.symm, heq.2.2.symm⟩⟩
  · exact absurd hd (by simp)

/-- A type is refused where its name is that of a type or of an entry.  It is a type first. -/
theorem Consistent.declareType_refused_iff (h : k.Consistent s) {type : TypeId} {span : Span}
    {err : SemanticError} :
    (Edit.declareType s n type span).perform.run k = .error err k' ↔
      ((∃ e ∈ (k.tree.get s).types, e.1 = n) ∧ err = ⟨.duplicateType n, span⟩ ∨
        (∃ x ∈ (k.tree.get s).entries, x.name = n) ∧ err = ⟨.duplicateName n, span⟩) ∧
      k' = k := by
  have htype : ((k.tree.get s).type? n).isSome = true ↔ ∃ e ∈ (k.tree.get s).types, e.1 = n := by
    simp [Scope.type?]
  have hvalue : ((k.tree.get s).binding? n).isSome = true ↔
      ∃ x ∈ (k.tree.get s).entries, x.name = n := by
    simp [Scope.binding?]
  have hapart : ((k.tree.get s).type? n).isSome = true →
      ¬ ((k.tree.get s).binding? n).isSome = true := by
    rw [htype, hvalue]
    rintro ⟨e, he, hn⟩ ⟨x, hx, rfl⟩
    exact h.apart x hx e he hn.symm
  rw [← htype, ← hvalue]
  rcases h.perform_declareType n type span with ⟨t', hd, hrun⟩ | ⟨err', hd, hrun⟩ <;>
    rw [hrun] <;> simp only [Scopes.declareType] at hd <;> split at hd <;> rename_i ht
  · exact absurd hd (by simp)
  · split at hd <;> rename_i hv
    · exact absurd hd (by simp)
    · simp [ht, hv]
  · rw [← Except.error.inj hd, EStateM.Result.error.injEq]
    simp only [ht, hapart ht, Bool.false_eq_true, true_and, false_and, or_false]
    exact and_congr eq_comm eq_comm
  · split at hd <;> rename_i hv
    · rw [← Except.error.inj hd, EStateM.Result.error.injEq]
      simp only [ht, hv, Bool.false_eq_true, true_and, false_and, false_or]
      exact and_congr eq_comm eq_comm
    · exact absurd hd (by simp)

/-- Let a tree be made by any operations on its scopes, refused ones among them.  In every
scope the names of the entries differ, those of the types differ, no entry has the name of
a type, and the names of the captures differ; a name is looked up by its position and gives
the element of the list that has it, if there is one; the scopes inside are those that have
it around them, by age; and the tokens that were given out differ.  An operation that is
refused, which happens to a name that is taken, leaves all of this and every slot count as
they were. -/
theorem tables_consistent {name : String} {unit : UnitId}
    (h : ReflTransGen Step (root name unit) k) :
    (∀ s, k.Tables s) ∧
    (∀ (e : Edit) err k', e.perform.run k = .error err k' → k' = k) ∧
    (∀ s (b : Binding) span err k', (Edit.declare s b span).perform.run k = .error err k' ↔
      ((∃ x ∈ (k.tree.get s).entries, x.name = b.name) ∨
        ∃ e ∈ (k.tree.get s).types, e.1 = b.name) ∧
      err = ⟨.duplicateName b.name, span⟩ ∧ k' = k) ∧
    ∀ s n type span err k', (Edit.declareType s n type span).perform.run k = .error err k' ↔
      ((∃ e ∈ (k.tree.get s).types, e.1 = n) ∧ err = ⟨.duplicateType n, span⟩ ∨
        (∃ x ∈ (k.tree.get s).entries, x.name = n) ∧ err = ⟨.duplicateName n, span⟩) ∧
      k' = k := by
  obtain ⟨-, hk⟩ := consistent_of_steps h
  exact ⟨fun s => (hk s).tables, fun e _ _ he => (hk e.scope).eq_of_refused he,
    fun s _ _ _ _ => (hk s).declare_refused_iff, fun s _ _ _ _ _ => (hk s).declareType_refused_iff⟩

/-- Makes an operation, refused or not. -/
def after (k : Indexed) (e : Edit) : Indexed :=
  match e.perform.run k with
  | .ok _ k' | .error _ k' => k'

theorem step_after {e : Edit} (hs : k.tree.Has e.scope) : Step k (k.after e) := by
  rw [after]
  split
  · exact .done e hs ‹_›
  · exact .refused e hs ‹_›

/-- A program with a variable and a type, a routine that captures the variable, and a block
in that routine.  A second value and a second type of these names are refused. -/
def sample : Indexed :=
  let k := (root "demo" ⟨0⟩).after (.declare rootId ⟨"x", .integer, .var, none, none⟩ .unknown)
  let k := k.after (.declareType rootId "T" ⟨6⟩ .unknown)
  let k := k.after (.declare rootId ⟨"T", .integer, .var, none, none⟩ .unknown)
  let k := k.after (.declareType rootId "x" ⟨7⟩ .unknown)
  let k := k.after (.openScope rootId .routine "f" ⟨1⟩)
  let k := k.after (.nextBlockName ⟨1⟩)
  let k := k.after (.openScope ⟨1⟩ .block "inner0" ⟨2⟩)
  let k := k.after (.nextBlockName ⟨1⟩)
  k.after (.capture ⟨2⟩ ⟨"x", .integer, .var, some 1, none⟩ rootId)

theorem steps_sample : ReflTransGen Step (root "demo" ⟨0⟩) sample := by
  rw [sample]
  iterate 8 refine .tail ?_ (step_after ?_)
  · exact .single (step_after (by decide))
  all_goals decide +kernel

/-- The block and the routine have captured the variable, two tokens were given out, and no
slot was taken for what is refused. -/
theorem tables_consistent_sample :
    (∀ s, sample.Tables s) ∧
    sample.entry rootId "x" = some ⟨"x", .integer, .var, some 1, none⟩ ∧
    (sample.captured ⟨1⟩ "x").isSome ∧ (sample.captured ⟨2⟩ "x").isSome ∧
    sample.tokens ⟨1⟩ = ["inner0", "inner1"] ∧ (sample.tree.get rootId).numLocals = 2 ∧
    (sample.tree.get rootId).children = [⟨1⟩] ∧
    ∃ err, (Edit.declareType rootId "x" ⟨8⟩ .unknown).perform.run sample = .error err sample := by
  obtain ⟨htables, -, -, htype⟩ := tables_consistent steps_sample
  refine ⟨htables, by decide +kernel, by decide +kernel, by decide +kernel, by decide +kernel,
    by decide +kernel, by decide +kernel, ⟨_, (htype ..).mpr ⟨Or.inr ⟨?_, rfl⟩, rfl⟩⟩⟩
  exact ⟨⟨"x", .integer, .var, some 1, none⟩, by decide +kernel, rfl⟩

end Indexed

end Unnest.Scopes
