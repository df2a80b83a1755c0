import Mathlib.Data.List.Nodup
import Mathlib.Logic.Relation
import Unnest.Proofs.Scope.Slots

/-!
# Flattening

A tree of scopes may be changed in any order: scopes are opened inside others, values and
types are declared in any of them, captures are recorded, and scopes are said to belong
to types.  However the declarations of a method and of the blocks inside it interleave,
they take the slots of the method one after the other (`slots_flattened`), and none of
them ever loses the slot that it took.
-/

namespace Unnest.Scopes

open Relation (ReflTransGen)

variable {t t' : Scopes} {s j m : ScopeId} {b b' : Binding}

/-- One change of a tree of scopes. -/
inductive Change (t : Scopes) : Scopes → Prop
  | openScope {parent : ScopeId} (h : t.Has parent) (kind : ScopeKind) (name : String)
      (unit : UnitId) : Change t (t.openScope parent kind name unit).2
  /-- A binding has no slot until it is declared. -/
  | declare {s : ScopeId} {b b' : Binding} {span : Span} {t' : Scopes} (hs : t.Has s)
      (slot : b.slot = none) (h : t.declare s b span = .ok (b', t')) : Change t t'
  | declareType {s : ScopeId} {name : String} {type : TypeId} {span : Span} {t' : Scopes}
      (h : t.declareType s name type span = .ok t') : Change t t'
  | nextBlockName (s : ScopeId) : Change t (t.nextBlockName s).2
  | capture (s : ScopeId) (b : Binding) (owner : ScopeId) : Change t (t.capture s b owner)
  | markMember (s : ScopeId) (memberOf : Option TypeId) (isStatic : Bool) :
      Change t (t.markMember s memberOf isStatic)

/-! ## Single changes -/

/-- A change of one scope that leaves alone where it stands. -/
theorem sameShape_update {f : Scope → Scope} (hp : ∀ x, (f x).parent = x.parent)
    (hk : ∀ x, (f x).kind = x.kind) (t : Scopes) (s : ScopeId) : SameShape t (t.update s f) :=
  ⟨(size_update t s f).ge, fun j _ => get_update_congr Scope.parent hp t s j,
    fun j _ => get_update_congr Scope.kind hk t s j⟩

theorem sameShape_markMember (t : Scopes) (s : ScopeId) (memberOf : Option TypeId)
    (isStatic : Bool) : SameShape t (t.markMember s memberOf isStatic) :=
  sameShape_update (f := fun x => { x with memberOf, isStatic }) (fun _ => rfl) (fun _ => rfl) t s

theorem extends_openScope (t : Scopes) (parent : ScopeId) (kind : ScopeKind) (name : String)
    (unit : UnitId) : Extends t (t.openScope parent kind name unit).2 :=
  openMember_none t parent kind name unit ▸ extends_openMember t parent kind name unit none false

theorem extends_nextBlockName (t : Scopes) (s : ScopeId) : Extends t (t.nextBlockName s).2 :=
  extends_of_agrees (size_nextBlockName t s).ge fun j _ => agrees_nextBlockName t s j

theorem Change.shape (h : Change t t') : SameShape t t' := by
  cases h with
  | @openScope parent _ kind name unit => exact (extends_openScope t parent kind name unit).shape
  | declare _ _ h => exact (declared_of_declare h).extends.shape
  | declareType h => exact (typeDeclared_of_declareType h).extends.shape
  | nextBlockName s => exact (extends_nextBlockName t s).shape
  | capture s b owner => exact (extends_capture t s b owner).shape
  | markMember s memberOf isStatic => exact sameShape_markMember t s memberOf isStatic

/-- What is declared stays declared, with the slot that it has. -/
theorem Change.entries (h : Change t t') (hj : t.Has j) :
    (t.get j).entries <+: (t'.get j).entries := by
  cases h with
  | @openScope parent _ kind name unit =>
    exact (extends_openScope t parent kind name unit).entries j hj
  | declare _ _ h => exact (declared_of_declare h).extends.entries j hj
  | declareType h => exact (typeDeclared_of_declareType h).extends.entries j hj
  | nextBlockName s => exact (extends_nextBlockName t s).entries j hj
  | capture s b owner => exact (extends_capture t s b owner).entries j hj
  | markMember s memberOf isStatic =>
    have heq := get_update_congr Scope.entries (f := fun x => { x with memberOf, isStatic })
      (fun _ => rfl) t s j
    exact heq.symm ▸ List.prefix_refl _

/-- A new scope is empty and stands inside an old one. -/
theorem Change.fresh (h : Change t t') (hj : t'.Has j) (hold : ¬ t.Has j) :
    (∃ p, t'.parent j = some p ∧ t.Has p) ∧ (t'.get j).entries = [] ∧
      (t'.get j).numLocals = (t'.get j).kind.reservedSlots := by
  have hsame : t'.size ≠ t.size := fun hsize => hold (by rwa [Has, hsize] at hj)
  cases h with
  | @openScope parent hp kind name unit =>
    rw [← openMember_none] at hj ⊢
    obtain rfl := eq_of_has_openMember hj hold
    have hnew := agrees_openMember_new t parent kind name unit none false
    refine ⟨⟨parent, hnew.head.parent, hp⟩, hnew.entries, ?_⟩
    rw [numLocals_get_openMember, if_pos rfl, hnew.head.kind]
    rfl
  | declare _ _ h => exact absurd (declared_of_declare h).size_eq hsame
  | declareType h => exact absurd (typeDeclared_of_declareType h).size_eq hsame
  | nextBlockName s => exact absurd (size_nextBlockName t s) hsame
  | capture s b owner => exact absurd (size_foldl_pushCapture _ _ t) hsame
  | markMember s memberOf isStatic => exact absurd (size_update _ _ _) hsame

theorem Change.wf (h : Change t t') (hw : t.WF) : t'.WF :=
  h.shape.wf hw fun j p hp hold => by
    obtain ⟨⟨q, hq, hhas⟩, -⟩ := h.fresh (has_of_parent hp) hold
    rwa [Option.some.inj (hp.symm.trans hq)]

/-- Every change takes the next slots, if it takes any. -/
theorem Flat.change (h : Flat t) (hw : t.WF) (hc : Change t t') : Flat t' := by
  have hw' := hc.wf hw
  have hx := hc.shape
  have hnew := fun j => @Change.fresh _ _ j hc
  cases hc with
  | declare hs slot hok => exact h.declare hw hw' hs slot hok
  | @openScope parent _ kind name unit =>
    refine h.extend hw hw' hx (fun j hj => ?_) (fun j hj => ?_) fun j hj hold => (hnew j hj hold).2
    · rw [← openMember_none, numLocals_get_openMember, if_neg]
      rintro rfl
      exact Nat.lt_irrefl _ hj
    · rw [← openMember_none]
      exact (agrees_openMember_old t parent kind name unit none false hj).entries
  | declareType hok =>
    exact h.extend hw hw' hx (fun j _ => numLocals_get_declareType hok j)
      (fun j _ => (typeDeclared_of_declareType hok).entries_eq j)
      fun j hj hold => (hnew j hj hold).2
  | nextBlockName s =>
    exact h.extend hw hw' hx
      (fun j _ => numLocals_get_update (f := fun x => { x with blockCount := x.blockCount + 1 })
        (fun _ => rfl) t s j)
      (fun j _ => (agrees_nextBlockName t s j).entries) fun j hj hold => (hnew j hj hold).2
  | capture s b owner =>
    exact h.extend hw hw' hx (fun j _ => numLocals_get_capture t s b owner j)
      (fun j _ => get_capture_congr Scope.entries (fun _ _ => rfl) t s b owner j)
      fun j hj hold => (hnew j hj hold).2
  | markMember s memberOf isStatic =>
    exact h.extend hw hw' hx
      (fun j _ => numLocals_get_update (f := fun x => { x with memberOf, isStatic })
        (fun _ => rfl) t s j)
      (fun j _ => get_update_congr Scope.entries (f := fun x => { x with memberOf, isStatic })
        (fun _ => rfl) t s j) fun j hj hold => (hnew j hj hold).2

/-! ## Runs -/

theorem flat_of_changes {name : String} {unit : UnitId}
    (h : ReflTransGen Change (root name unit) t) : t.WF ∧ Flat t := by
  induction h with
  | refl => exact ⟨wf_root name unit, flat_root name unit⟩
  | tail _ hc ih => exact ⟨hc.wf ih.1, ih.2.change ih.1 hc⟩

/-- Nothing that is declared changes any more. -/
theorem entries_of_changes (h : ReflTransGen Change t t') (hj : t.Has j) :
    t'.Has j ∧ (t.get j).entries <+: (t'.get j).entries := by
  induction h with
  | refl => exact ⟨hj, List.prefix_refl _⟩
  | tail _ hc ih => exact ⟨hc.shape.has ih.1, ih.2.trans (hc.entries ih.1)⟩

/-! ## The list of a method -/

/-- The named slots of a method are those that are taken and not reserved. -/
theorem Flat.mem_methodLocals_slots (h : Flat t) (hm : t.Has m)
    (howns : (t.get m).kind.ownsMethod = true) {k : Nat} :
    k ∈ (t.methodLocals m).filterMap (·.slot) ↔
      (t.get m).kind.reservedSlots ≤ k ∧ k < (t.get m).numLocals := by
  constructor
  · intro hk
    refine ⟨h.reserved_le_methodLocals howns k hk, ?_⟩
    obtain ⟨x, hx, hk⟩ := List.mem_filterMap.mp hk
    obtain ⟨s, -, hms, hx, -⟩ := mem_methodLocals.mp hx
    have hlt := h.below s k ⟨x, hx, hk⟩
    rwa [numLocals, owningMethod_of_mem_methodPath hms howns] at hlt
  · rintro ⟨hle, hlt⟩
    obtain ⟨s, hs, rfl, x, hx, hk⟩ := h.complete m hm k hle hlt
    have hlocal := mem_methodLocals.mpr
      ⟨s, hs, owningMethod_mem_methodPath t s, hx, Option.isSome_iff_exists.mpr ⟨k, hk⟩⟩
    exact List.mem_filterMap.mpr ⟨x, hlocal, hk⟩

/-- The bindings of a method are listed by slot. -/
theorem sorted_methodLocals (t : Scopes) (m : ScopeId) :
    ((t.methodLocals m).filterMap (·.slot)).Pairwise (· ≤ ·) := by
  have hsorted : (t.methodLocals m).Pairwise fun a b => a.slot.getD 0 ≤ b.slot.getD 0 := by
    have htrans : ∀ a b c : Binding, decide (a.slot.getD 0 ≤ b.slot.getD 0) = true →
        decide (b.slot.getD 0 ≤ c.slot.getD 0) = true →
          decide (a.slot.getD 0 ≤ c.slot.getD 0) = true := fun a b c hab hbc =>
      decide_eq_true (Nat.le_trans (of_decide_eq_true hab) (of_decide_eq_true hbc))
    have htotal : ∀ a b : Binding, (decide (a.slot.getD 0 ≤ b.slot.getD 0) ||
        decide (b.slot.getD 0 ≤ a.slot.getD 0)) = true := fun a b => by
      simpa using Nat.le_total _ _
    exact (List.pairwise_mergeSort htrans htotal _).imp fun h => of_decide_eq_true h
  refine hsorted.filterMap _ fun a b hab k hk k' hk' => ?_
  rwa [hk, hk', Option.getD_some, Option.getD_some] at hab

theorem slots_methodLocals (h : Flat t) (hm : t.Has m)
    (howns : (t.get m).kind.ownsMethod = true) :
    (t.methodLocals m).filterMap (·.slot) = List.range' (t.get m).kind.reservedSlots
      ((t.get m).numLocals - (t.get m).kind.reservedSlots) := by
  refine List.Perm.eq_of_pairwise (fun a b _ _ => Nat.le_antisymm) (sorted_methodLocals t m)
    List.pairwise_le_range'
    ((List.perm_ext_iff_of_nodup (h.nodup_methodLocals howns) List.nodup_range').mpr fun k => ?_)
  rw [h.mem_methodLocals_slots hm howns, List.mem_range'_1]
  have hle := h.reserved m hm
  omega

/-- Everything that is listed has a slot. -/
theorem map_slot_methodLocals (t : Scopes) (m : ScopeId) : (t.methodLocals m).map (·.slot) =
    ((t.methodLocals m).filterMap (·.slot)).map some := by
  have hslot : ∀ x ∈ t.methodLocals m, x.slot.isSome = true := fun x hx => by
    obtain ⟨s, -, -, -, hslot⟩ := mem_methodLocals.mp hx
    exact hslot
  generalize t.methodLocals m = xs at hslot
  induction xs with
  | nil => rfl
  | cons x xs ih =>
    rw [List.forall_mem_cons] at hslot
    obtain ⟨k, hk⟩ := Option.isSome_iff_exists.mp hslot.1
    rw [List.map_cons, List.filterMap_cons, hk, List.map_cons, ih hslot.2]

/-- The slots of a method and of all the blocks inside it are one range without gap and
without repetition, which starts behind what is reserved and ends at the method's count.
Whatever happens to the tree, every binding keeps its slot. -/
theorem slots_flattened {name : String} {unit : UnitId}
    (h : ReflTransGen Change (root name unit) t) (hm : t.Has m)
    (howns : (t.get m).kind.ownsMethod = true) :
    (t.methodLocals m).map (·.slot) = (List.range' (t.get m).kind.reservedSlots
      ((t.get m).numLocals - (t.get m).kind.reservedSlots)).map some ∧
    ∀ t', ReflTransGen Change t t' → ∀ s, t.Has s → (t.get s).entries <+: (t'.get s).entries := by
  refine ⟨?_, fun t' h' s hs => (entries_of_changes h' hs).2⟩
  rw [map_slot_methodLocals, slots_methodLocals (flat_of_changes h).2 hm howns]

/-- Declares a value where that is possible. -/
def declareOrLeave (t : Scopes) (s : ScopeId) (b : Binding) : Scopes :=
  match t.declare s b .unknown with
  | .ok (_, t') => t'
  | .error _ => t

theorem changes_declareOrLeave (hs : t.Has s) (slot : b.slot = none) :
    ReflTransGen Change t (t.declareOrLeave s b) := by
  rw [declareOrLeave]
  split
  · rename_i heq
    exact .single (.declare hs slot heq)
  · exact .refl

/-- A routine whose declarations interleave with those of the blocks inside it: a block, a
block in that block, the routine again, and a second block. -/
def interleaved : Scopes :=
  let t := (root "demo" ⟨0⟩).openScope rootId .routine "f" ⟨1⟩
  let t := (t.2.markMember ⟨1⟩ (some ⟨6⟩) true).declareOrLeave ⟨1⟩ ⟨"p", .integer, .param, none, none⟩
  let t := (t.openScope ⟨1⟩ .block "inner0" ⟨2⟩).2.declareOrLeave ⟨2⟩ ⟨"x", .integer, .var, none, none⟩
  let t := (t.openScope ⟨2⟩ .block "inner0" ⟨3⟩).2.declareOrLeave ⟨3⟩ ⟨"y", .integer, .var, none, none⟩
  let t := t.declareOrLeave ⟨1⟩ ⟨"z", .integer, .var, none, none⟩
  (t.openScope ⟨1⟩ .block "inner1" ⟨4⟩).2.declareOrLeave ⟨4⟩ ⟨"x", .integer, .var, none, none⟩

theorem changes_interleaved : ReflTransGen Change (root "demo" ⟨0⟩) interleaved := by
  rw [interleaved]
  refine .trans (.tail ?_ (.openScope ?_ .block "inner1" ⟨4⟩)) (changes_declareOrLeave ?_ rfl)
  · refine .trans ?_ (changes_declareOrLeave ?_ rfl)
    · refine .trans (.tail ?_ (.openScope ?_ .block "inner0" ⟨3⟩)) (changes_declareOrLeave ?_ rfl)
      · refine .trans (.tail ?_ (.openScope ?_ .block "inner0" ⟨2⟩)) (changes_declareOrLeave ?_ rfl)
        · refine .trans (.tail ?_ (.markMember ⟨1⟩ (some ⟨6⟩) true)) (changes_declareOrLeave ?_ rfl)
          · exact .single (.openScope (by decide) .routine "f" ⟨1⟩)
          · decide +kernel
        all_goals decide +kernel
      all_goals decide +kernel
    · decide +kernel
  all_goals decide +kernel

/-- The five slots behind the routine object are given out in order of declaration. -/
theorem slots_flattened_interleaved :
    interleaved.Has ⟨1⟩ ∧ (interleaved.get ⟨1⟩).kind.ownsMethod = true ∧
      (interleaved.methodLocals ⟨1⟩).map (·.slot) = [some 1, some 2, some 3, some 4, some 5] ∧
        ∀ t', ReflTransGen Change interleaved t' → ∀ s, interleaved.Has s →
          (interleaved.get s).entries <+: (t'.get s).entries := by
  have hm : interleaved.Has ⟨1⟩ := by decide +kernel
  have howns : (interleaved.get ⟨1⟩).kind.ownsMethod = true := by decide +kernel
  have hrange : (List.range' (interleaved.get ⟨1⟩).kind.reservedSlots
      ((interleaved.get ⟨1⟩).numLocals - (interleaved.get ⟨1⟩).kind.reservedSlots)).map some =
        [some 1, some 2, some 3, some 4, some 5] := by decide +kernel
  obtain ⟨hslots, hkept⟩ := slots_flattened changes_interleaved hm howns
  exact ⟨hm, howns, hslots.trans hrange, hkept⟩

end Unnest.Scopes
