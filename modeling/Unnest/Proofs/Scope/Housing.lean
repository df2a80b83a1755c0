import Mathlib.Order.Basic
import Unnest.Proofs.Scope.Growth
import Unnest.Units

/-!
# Units of scopes

Every scope but the root is housed in a unit inside that of the scope around it.  The
static initial values of a type share the unit of the type; every other scope has a unit
that was planned for it under its own name (`Units.Housed`).  Units are planned once and
never changed (`Units.Extends`), so a scope stays housed as it was.
-/

namespace Unnest

namespace Units

/-- One table of units comes after another. -/
structure Extends (u v : Units) : Prop where
  binDirectory : v.binDirectory = u.binDirectory
  get? : ∀ id x, u.get? id = some x → v.get? id = some x

variable {u v w : Units} {t t' : Scopes} {s p : ScopeId}

theorem Extends.refl (u : Units) : Extends u u := ⟨rfl, fun _ _ h => h⟩

theorem Extends.trans (h : Extends u v) (h' : Extends v w) : Extends u w :=
  ⟨h'.binDirectory.trans h.binDirectory, fun id x hx => h'.get? id x (h.get? id x hx)⟩

theorem get_eq {id : UnitId} {x : UnitPlan} (h : u.get? id = some x) : u.get id = x := by
  rw [get, h, Option.getD_some]

theorem Extends.lineageInside (h : Extends u v) {id : UnitId} (hid : (u.get? id).isSome = true) :
    v.lineageInside id = u.lineageInside id := by
  obtain ⟨x, hx⟩ := Option.isSome_iff_exists.mp hid
  rw [Units.lineageInside, Units.lineageInside, get_eq hx, get_eq (h.get? id x hx)]

theorem Extends.path_eq (h : Extends u v) {id : UnitId} (hid : (u.get? id).isSome = true) :
    v.path id = u.path id := by
  obtain ⟨x, hx⟩ := Option.isSome_iff_exists.mp hid
  rw [path, path, get_eq hx, get_eq (h.get? id x hx)]

theorem get?_plan (u : Units) (parent : UnitId) (name : String) (kind : UnitKind)
    (ownerType : Option TypeId) (id : UnitId) : (u.plan parent name kind ownerType).2.get? id =
      if id = ⟨u.size⟩ then
        some { name, lineage := u.lineageInside parent, directory := u.binDirectory,
               parent := some parent, kind, ownerType }
      else u.get? id := by
  obtain ⟨i⟩ := id
  simp [plan, Units.get?, Array.getElem?_push, size]

theorem extends_plan (u : Units) (parent : UnitId) (name : String) (kind : UnitKind)
    (ownerType : Option TypeId) : Extends u (u.plan parent name kind ownerType).2 := by
  refine ⟨rfl, fun id x hx => ?_⟩
  rw [get?_plan, if_neg]
  · exact hx
  · rintro rfl
    exact Nat.lt_irrefl _ (Array.getElem?_eq_some_iff.mp hx).1

/-! ## Housed scopes -/

/-- The unit of a scope: for a scope without a scope around it the main one, and for any
other one inside the unit of the scope around it. -/
structure Housed (u : Units) (t : Scopes) (s : ScopeId) : Prop where
  root : t.parent s = none →
    u.get? (t.get s).unit = some
      { name := (t.get s).name, lineage := "", directory := "", parent := none, kind := .main,
        ownerType := none }
  shared : ∀ p, t.parent s = some p → (t.get s).kind = .fieldInit →
    (t.get s).unit = (t.get p).unit
  planned : ∀ p, t.parent s = some p → (t.get s).kind ≠ .fieldInit →
    ∃ kind ownerType, u.get? (t.get s).unit = some
      { name := (t.get s).name, lineage := u.lineageInside (t.get p).unit,
        directory := u.binDirectory, parent := some (t.get p).unit, kind, ownerType }

/-- The scopes of a program have units. -/
def Houses (u : Units) (t : Scopes) : Prop := ∀ s, t.Has s → Housed u t s

/-- Every scope has a unit that is planned. -/
theorem Houses.isSome (h : Houses u t) (hw : t.WF) (hs : t.Has s) :
    (u.get? (t.get s).unit).isSome = true := by
  induction s using hw.induction with
  | root s hr =>
    rw [(h s hs).root hr]
    rfl
  | child s p hp ih =>
    by_cases hk : (t.get s).kind = .fieldInit
    · rw [(h s hs).shared p hp hk]
      exact ih (hw.has_parent hp)
    · obtain ⟨kind, ownerType, hget⟩ := (h s hs).planned p hp hk
      rw [hget]
      rfl

/-- Scopes that there were are housed as before, when those that are new are housed. -/
theorem Houses.extend (h : Houses u t) (hw : t.WF) (hx : t.Extends t') (hu : Extends u v)
    (hnew : ∀ s, t'.Has s → ¬ t.Has s → Housed v t' s) : Houses v t' := by
  intro s hs
  by_cases hold : t.Has s
  · have hd := hx.head s hold
    have hhoused := h s hold
    refine ⟨fun hr => ?_, fun p hp hk => ?_, fun p hp hk => ?_⟩
    · rw [hd.unit, hd.name]
      exact hu.get? _ _ (hhoused.root ((hx.parent_eq hold).symm.trans hr))
    · have hpold := (hx.parent_eq hold).symm.trans hp
      rw [hd.unit, (hx.head p (hw.has_parent hpold)).unit]
      exact hhoused.shared p hpold (hd.kind.symm.trans hk)
    · have hpold := (hx.parent_eq hold).symm.trans hp
      have hph := hw.has_parent hpold
      obtain ⟨kind, ownerType, hget⟩ := hhoused.planned p hpold (hd.kind ▸ hk)
      rw [hd.unit, hd.name, (hx.head p hph).unit, hu.lineageInside (h.isSome hw hph),
        hu.binDirectory]
      exact ⟨kind, ownerType, hu.get? _ _ hget⟩
  · exact hnew s hs hold

theorem houses_root (program : String) :
    Houses (ofProgram program) (Scopes.root program mainId) := by
  intro s hs
  obtain rfl := Scopes.has_root hs
  have hparent : (Scopes.root program mainId).parent Scopes.rootId = none := rfl
  exact ⟨fun _ => rfl, fun p hp => absurd (hparent.symm.trans hp) (by simp),
    fun p hp => absurd (hparent.symm.trans hp) (by simp)⟩

/-- The scope that is opened for the newest unit is housed there. -/
theorem housed_openMember (u : Units) (kind : ScopeKind) (hk : kind ≠ .fieldInit)
    (hs : t.Has s) (name : String) (unitKind : UnitKind) (ownerType memberOf : Option TypeId)
    (isStatic : Bool) (hunit : (u.get? (t.get s).unit).isSome = true) :
    Housed (u.plan (t.get s).unit name unitKind ownerType).2
      (t.openMember s kind name ⟨u.size⟩ memberOf isStatic) ⟨t.size⟩ := by
  have hnew := (Scopes.agrees_openMember_new t s kind name ⟨u.size⟩ memberOf isStatic).head
  have hold := (Scopes.agrees_openMember_old t s kind name ⟨u.size⟩ memberOf isStatic hs).head
  refine ⟨fun hr => absurd (hnew.parent.symm.trans hr) (by simp [Scope.empty]), fun p _ hkind => ?_,
    fun p hp _ => ⟨unitKind, ownerType, ?_⟩⟩
  · exact absurd (hnew.kind.symm.trans hkind) hk
  · obtain rfl := Option.some.inj (hnew.parent.symm.trans hp)
    rw [hnew.unit, hnew.name, hold.unit,
      (extends_plan u _ name unitKind ownerType).lineageInside hunit, get?_plan]
    exact if_pos rfl

/-- The static initial values of a type are housed where the type is. -/
theorem housed_fieldInit (u : Units) (hs : t.Has s) (name : String) (memberOf : Option TypeId)
    (isStatic : Bool) :
    Housed u (t.openMember s .fieldInit name (t.get s).unit memberOf isStatic) ⟨t.size⟩ := by
  have hnew := (Scopes.agrees_openMember_new t s .fieldInit name (t.get s).unit memberOf
    isStatic).head
  have hold := (Scopes.agrees_openMember_old t s .fieldInit name (t.get s).unit memberOf isStatic
    hs).head
  refine ⟨fun hr => absurd (hnew.parent.symm.trans hr) (by simp [Scope.empty]), fun p hp _ => ?_,
    fun p _ hk => absurd hnew.kind hk⟩
  obtain rfl := Option.some.inj (hnew.parent.symm.trans hp)
  exact hnew.unit.trans hold.unit.symm

end Units

end Unnest
