import Unnest.Proofs.Analysis.Handed
import Unnest.Proofs.Types.Comparing

/-!
# Indices in range

Scopes, types and units live in tables and are named by their index.  An index that is
written down anywhere is one of the table that it is for (`InRange`), in every state that an
analysis passes through, whatever is wrong with the program.

For types this is what grounded tables are, and for most scopes and units a sound state has
it.  The rest is listed: the scopes inside a scope, those of blocks, and the units around a
unit (`Listed`).  Single changes keep it, and so do walks.
-/

namespace Unnest

/-- The scopes that a scope mentions: around it, inside it, and where its captures are from. -/
def Scope.mentionedScopes (s : Scope) : List ScopeId :=
  s.parent.toList ++ s.children ++ s.captures.map (·.owner)

/-- The scopes that findings mention. -/
def Findings.mentionedScopes (f : Findings) : List ScopeId :=
  f.blocks.map (·.2) ++ f.routines.map (·.2.scope) ++
    f.types.flatMap fun e => [e.2.scope, e.2.fieldInit]

/-- The units that findings mention. -/
def Findings.mentionedUnits (f : Findings) : List UnitId :=
  f.routines.map (·.2.unit) ++ f.types.map (·.2.unit)

/-- A unit is planned under an index. -/
def Units.Has (u : Units) (id : UnitId) : Prop := id.index < u.size

namespace Units

variable {u : Units} {id : UnitId}

theorem has_iff_isSome : u.Has id ↔ (u.get? id).isSome = true := by
  rw [Has, get?, Option.isSome_iff_exists]
  constructor
  · intro h
    exact ⟨_, Array.getElem?_eq_getElem h⟩
  · rintro ⟨_, h⟩
    exact (Array.getElem?_eq_some_iff.mp h).1

theorem get_of_not_has (h : ¬ u.Has id) : u.get id = default := by
  rw [has_iff_isSome, Option.not_isSome_iff_eq_none] at h
  rw [get, h]
  rfl

end Units

namespace Scopes

variable {t t' : Scopes} {s x : ScopeId}

/-- A change lists scopes inside others that are there. -/
theorem Step.children (h : Step t s t') {c : ScopeId} (hc : c ∈ (t'.get x).children) :
    c ∈ (t.get x).children ∨ t'.Has c := by
  cases h with
  | capture =>
    rw [get_capture_congr Scope.children fun _ _ => rfl] at hc
    exact Or.inl hc
  | declare _ _ _ h | param _ _ _ _ _ h =>
    rw [get_declare_congr Scope.children (fun _ _ => rfl) (fun _ _ => rfl) h] at hc
    exact Or.inl hc
  | declareType _ _ _ h =>
    rw [get_declareType_congr Scope.children (fun _ _ => rfl) h] at hc
    exact Or.inl hc
  | nextBlockName =>
    have hcount := get_update_congr Scope.children
      (f := fun y => { y with blockCount := y.blockCount + 1 }) (fun _ => rfl) t s x
    exact Or.inl (hcount ▸ hc)
  | @openMember kind memberOf isStatic _ name _ unit =>
    have hmark := get_update_congr Scope.children (f := fun y => { y with memberOf, isStatic })
      (fun _ => rfl) (t.openScope s kind name unit).2 ⟨t.size⟩ x
    rcases children_openScope (hmark ▸ hc) with hc | rfl
    · exact Or.inl hc
    · exact Or.inr (Nat.lt_of_lt_of_eq (Nat.lt_succ_self _) (size_openMember ..).symm)

end Scopes

namespace Analysis

variable {K : Multiset Key} {a b c : Analysis}

/-! ## Lists -/

/-- The scopes inside a scope and those of blocks are there, and units are planned inside
older ones. -/
structure Listed (a : Analysis) : Prop where
  children : ∀ s, ∀ c ∈ (a.scopes.get s).children, a.scopes.Has c
  blocks : ∀ e ∈ a.findings.blocks, a.scopes.Has e.2
  units : ∀ u, ∀ p ∈ (a.units.get u).parent, p.index < u.index

theorem Step.listed (ha : Sound a) (h : Step K a b) (hl : Listed a) : Listed b := by
  cases h with
  | report | types => exact ⟨hl.children, hl.blocks, hl.units⟩
  | plan a name kind ownerType =>
    refine ⟨hl.children, hl.blocks, fun u p hp => ?_⟩
    have hplan := Units.get?_plan a.units (a.scopes.get a.current).unit name kind ownerType u
    dsimp only at hp
    rw [Units.get, hplan] at hp
    split at hp
    · rename_i hu
      obtain rfl := Option.some.inj hp
      rw [hu]
      exact Units.has_iff_isSome.mpr (ha.houses.isSome ha.scopes.toWF ha.has)
    · exact hl.units u p hp
  | scopes a h =>
    exact ⟨fun s c hc => (h.children hc).elim (fun hc => h.extends.has (hl.children s c hc)) id,
      fun e he => h.extends.has (hl.blocks e he), hl.units⟩
  | record a h =>
    refine ⟨hl.children, fun e he => ?_, hl.units⟩
    cases h with
    | block node hs =>
      rcases List.mem_cons.mp he with rfl | he
      · exact hs
      · exact hl.blocks e he
    | _ => exact hl.blocks e he

theorem Steps.listed (ha : Sound a) (h : Steps K a b) (hl : Listed a) : Listed b := by
  induction h with
  | refl => exact hl
  | step h => exact h.listed ha hl
  | trans h _ ih ih' => exact ih' (ha.steps h) (ih ha hl)
  | mono _ _ ih => exact ih ha hl

/-- The walk is in another scope. -/
theorem Listed.at (hl : Listed a) (s : ScopeId) : Listed { a with current := s } :=
  ⟨hl.children, hl.blocks, hl.units⟩

theorem Walk.listed (ha : Sound a) (h : Walk K a b) (hl : Listed a) : Listed b := by
  induction h with
  | steps h => exact h.listed ha hl
  | trans h _ ih ih' => exact ih' (ha.walk h) (ih ha hl)
  | mono _ _ ih => exact ih ha hl
  | inside hp hk _ ih => exact (ih (ha.enter hp (hk.imp_right And.right)) (hl.at _)).at _
  | routine hp _ hempty _ body after _ ih =>
    have hs := ha.enter hp (Or.inr hempty)
    have hc := after.listed ((hs.walk body).back hp body) ((ih hs (hl.at _)).at _)
    exact ⟨hc.children, hc.blocks, hc.units⟩
  | type hp _ hempty _ _ _ _ _ _ body after _ ih =>
    have hs := ha.enter hp (Or.inr hempty)
    have hc := after.listed ((hs.walk body).back hp body) ((ih hs (hl.at _)).at _)
    exact ⟨hc.children, hc.blocks, hc.units⟩

theorem Passes.listed (ha : Sound a) (hl : Listed a) (h : Passes a b) : Listed b := by
  induction h with
  | refl => exact hl
  | walk h h' ih => exact h'.listed (h.sound ha) ih
  | enter _ _ ih => exact ih.at _
  | back h hs body ih => exact (body.listed (hs.sound (h.sound ha)) (ih.at _)).at _

theorem listed_initial (program : String) : Listed (initial program) := by
  have hblank : Listed (blank program) := by
    refine ⟨fun s c hc => ?_, List.forall_mem_nil _, fun u p hp => ?_⟩
    · by_cases hs : (blank program).scopes.Has s
      · obtain rfl := Scopes.has_root hs
        exact absurd hc List.not_mem_nil
      · rw [Scopes.get_of_not_has hs] at hc
        exact absurd hc List.not_mem_nil
    · obtain ⟨_ | i⟩ := u <;> exact absurd hp (Option.not_mem_none p)
  exact (steps_initial program).listed (sound_blank program) hblank

/-! ## Ranges -/

/-- Every index that is written down is one of the table that it is for.  The scope around a
scope is older than it is, and so are the unit around a unit and the types in the signatures
of a routine type. -/
structure InRange (a : Analysis) : Prop where
  current : a.scopes.Has a.current
  scopes : ∀ s, ∀ x ∈ (a.scopes.get s).mentionedScopes, a.scopes.Has x
  foundScopes : ∀ x ∈ a.findings.mentionedScopes, a.scopes.Has x
  units : ∀ s, a.scopes.Has s → a.units.Has (a.scopes.get s).unit
  foundUnits : ∀ u ∈ a.findings.mentionedUnits, a.units.Has u
  parents : ∀ s, ∀ p ∈ a.scopes.parent s, p.index < s.index
  unitParents : ∀ u, ∀ p ∈ (a.units.get u).parent, p.index < u.index
  signatures : ∀ id, a.types.form id = .routine → ∀ isStatic,
    ∀ s ∈ (a.types.get id).routinesOf isStatic, ∀ t ∈ s.mentions, t.index < id.index
  /-- What scopes, types, units and findings mention of the types. -/
  grounded : Grounded a

/-- In grounded tables, comparisons and lookups do not leave the table. -/
theorem Grounded.closed (h : Grounded a) : a.types.Closed :=
  ⟨fun id _ _ hs u hu => h.types id u (TypeDecl.routines_mentions hs hu), h.older⟩

namespace InRange

/-- The units around units are there. -/
theorem has_unitParent (h : InRange a) {u p : UnitId} (hp : p ∈ (a.units.get u).parent) :
    a.units.Has p := by
  refine Nat.lt_trans (h.unitParents u p hp) ?_
  by_contra hu
  rw [Units.get_of_not_has hu] at hp
  exact absurd hp (Option.not_mem_none p)

/-- Types can be compared, looked up and assigned. -/
theorem closed (h : InRange a) : a.types.Closed := h.grounded.closed

end InRange

theorem inRange_of_sound (ha : Sound a) (hl : Listed a) (hg : Grounded a) : InRange a := by
  have hroutine : ∀ e ∈ a.findings.routines, a.scopes.Has e.2.scope ∧ a.units.Has e.2.unit := by
    intro e he
    have hsound := ha.routines e he
    refine ⟨hsound.has, hsound.unit ▸ Units.has_iff_isSome.mpr ?_⟩
    exact ha.houses.isSome ha.scopes.toWF hsound.has
  have htype : ∀ e ∈ a.findings.types, a.scopes.Has e.2.scope ∧ a.scopes.Has e.2.fieldInit ∧
      a.units.Has e.2.unit := by
    intro e he
    have hsound := ha.typeFindings e he
    refine ⟨hsound.has, Scopes.has_of_parent hsound.inner,
      hsound.unit ▸ Units.has_iff_isSome.mpr ?_⟩
    exact ha.houses.isSome ha.scopes.toWF hsound.has
  refine ⟨ha.has, fun s x hx => ?_, fun x hx => ?_, fun s hs => Units.has_iff_isSome.mpr
    (ha.houses.isSome ha.scopes.toWF hs), fun u hu => ?_, fun s p hp =>
      ha.scopes.parent_lt s p hp, hl.units, fun id hid isStatic s hs => ?_, hg⟩
  · rcases List.mem_append.mp hx with hx | hx
    · rcases List.mem_append.mp hx with hx | hx
      · exact ha.scopes.has_parent (Option.mem_toList.mp hx)
      · exact hl.children s x hx
    · obtain ⟨c, hc, rfl⟩ := List.mem_map.mp hx
      exact Scopes.has_of_mem_path (ha.scopes.captures s c hc).owner_mem (Scopes.has_of_mem_captures hc)
  · rcases List.mem_append.mp hx with hx | hx
    · rcases List.mem_append.mp hx with hx | hx
      · obtain ⟨e, he, rfl⟩ := List.mem_map.mp hx
        exact hl.blocks e he
      · obtain ⟨e, he, rfl⟩ := List.mem_map.mp hx
        exact (hroutine e he).1
    · obtain ⟨e, he, hx⟩ := List.mem_flatMap.mp hx
      obtain ⟨hscope, hinner, -⟩ := htype e he
      rcases List.mem_cons.mp hx with rfl | hx
      · exact hscope
      · exact List.mem_singleton.mp hx ▸ hinner
  · rcases List.mem_append.mp hu with hu | hu
    · obtain ⟨e, he, rfl⟩ := List.mem_map.mp hu
      exact (hroutine e he).2
    · obtain ⟨e, he, rfl⟩ := List.mem_map.mp hu
      exact (htype e he).2.2
  · cases isStatic with
    | false => exact hg.older id hid s hs
    | true =>
      rw [TypeDecl.routinesOf, if_pos rfl, ha.types.static_nil id hid] at hs
      exact absurd hs List.not_mem_nil

/-- In every state that is reached the indices are in range. -/
theorem Reached.inRange {program : String} {q : Program} {T : Task} (h : Reached program q T a) :
    InRange a :=
  inRange_of_sound h.sound (h.passes.listed (sound_initial program) (listed_initial program))
    h.supplies.grounded

end Analysis

end Unnest
