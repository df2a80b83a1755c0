import Mathlib.Data.List.Find
import Mathlib.Data.List.Infix
import Mathlib.Data.List.Nodup
import Unnest.Scope.Access

/-!
# Paths

Resolution, access and the propagation of captures are all functions of the path of a
scope.  A scope that is not a root has its parent's path behind it, so what is proved
of paths is proved by induction on the way to the root (`WF.induction`).

## What never changes

Scopes are added and grow, and what says where a scope stands never changes.
`Extends t t'` says so of two tables.  Everything that is a function of paths, of kinds
and of the declared names of definitions is the same in both (`path_eq`,
`owningMethod_eq`, `accessTo_eq`).
-/

namespace Unnest

/-- Scopes that hold statements. -/
def ScopeKind.isBody : ScopeKind → Bool
  | .main | .routine | .block => true
  | .type | .fieldInit => false

namespace Scopes

variable {t t' t'' : Scopes} {s p o m : ScopeId}

/-- There is a scope at an index. -/
def Has (t : Scopes) (s : ScopeId) : Prop := s.index < t.size

instance : Decidable (t.Has s) := inferInstanceAs (Decidable (s.index < t.size))

/-- Every parent was opened before its children. -/
structure WF (t : Scopes) : Prop where
  parent_lt : ∀ s p, t.parent s = some p → p.index < s.index

theorem get_of_not_has (h : ¬ t.Has s) : t.get s = default := by
  rw [get, get?, Array.getElem?_eq_none (Nat.le_of_not_lt h)]
  rfl

theorem has_of_parent (h : t.parent s = some p) : t.Has s := by
  by_contra hs
  rw [parent, get_of_not_has hs] at h
  exact Option.some_ne_none p h.symm

theorem WF.has_parent (hw : t.WF) (h : t.parent s = some p) : t.Has p :=
  Nat.lt_trans (hw.parent_lt s p h) (has_of_parent h)

theorem get_root (name : String) (unit : UnitId) :
    (root name unit).get rootId = .empty none .main name unit := rfl

theorem has_root {name : String} {unit : UnitId} {s : ScopeId} (h : (root name unit).Has s) :
    s = rootId := by
  obtain ⟨i⟩ := s
  have hi : i < 1 := h
  rw [rootId, Nat.lt_one_iff.mp hi]

/-- Induction on the way from a scope to its root. -/
theorem WF.induction (hw : t.WF) {motive : ScopeId → Prop}
    (root : ∀ s, t.parent s = none → motive s)
    (child : ∀ s p, t.parent s = some p → motive p → motive s) (s : ScopeId) : motive s := by
  obtain ⟨i⟩ := s
  induction i using Nat.strong_induction_on with
  | _ i ih =>
    cases h : t.parent ⟨i⟩ with
    | none => exact root _ h
    | some p => exact child _ p h (ih p.index (hw.parent_lt _ p h))

/-! ## Paths -/

theorem pathWithin_eq (t : Scopes) {n k : Nat} (hn : s.index < n) (hk : s.index < k) :
    t.pathWithin n s = t.pathWithin k s := by
  induction n generalizing s k with
  | zero => exact absurd hn (Nat.not_lt_zero _)
  | succ n ih =>
    cases k with
    | zero => exact absurd hk (Nat.not_lt_zero _)
    | succ k =>
      rw [pathWithin, pathWithin]
      cases t.parent s with
      | none => rfl
      | some p =>
        dsimp only
        split
        · rw [@ih p k (by omega) (by omega)]
        · rfl

theorem path_of_root (h : t.parent s = none) : t.path s = [s] := by
  rw [path, pathWithin, h]

theorem WF.path_of_parent (hw : t.WF) (h : t.parent s = some p) :
    t.path s = s :: t.path p := by
  have hlt := hw.parent_lt s p h
  rw [path, pathWithin, h]
  dsimp only
  rw [if_pos hlt, path, pathWithin_eq t hlt (Nat.lt_succ_self _)]

theorem mem_path_self (t : Scopes) (s : ScopeId) : s ∈ t.path s := by
  rw [path, pathWithin]
  exact List.mem_cons_self

theorem index_le_of_mem_path (h : o ∈ t.path s) : o.index ≤ s.index :=
  index_le_of_mem_pathWithin t h

theorem has_of_mem_path (h : o ∈ t.path s) (hs : t.Has s) : t.Has o :=
  Nat.lt_of_le_of_lt (index_le_of_mem_path h) hs

/-- What is behind a scope on a path is its own path. -/
theorem WF.path_suffix (hw : t.WF) (h : o ∈ t.path s) : t.path o <:+ t.path s := by
  induction s using hw.induction with
  | root s hs =>
    rw [path_of_root hs, List.mem_singleton] at h
    rw [h]
  | child s p hp ih =>
    rw [hw.path_of_parent hp] at h ⊢
    rcases List.mem_cons.mp h with rfl | h
    · rw [hw.path_of_parent hp]
    · exact (ih h).trans (List.suffix_cons s _)

theorem WF.mem_path_trans (hw : t.WF) (ho : o ∈ t.path m) (hm : m ∈ t.path s) :
    o ∈ t.path s :=
  (hw.path_suffix hm).subset ho

/-- Of two scopes on one path, one is around the other. -/
theorem WF.path_linear (hw : t.WF) (ho : o ∈ t.path s) (hm : m ∈ t.path s) :
    o ∈ t.path m ∨ m ∈ t.path o := by
  induction s using hw.induction with
  | root s hs =>
    rw [path_of_root hs, List.mem_singleton] at ho hm
    rw [ho, hm]
    exact Or.inl (mem_path_self t s)
  | child s p hp ih =>
    rw [hw.path_of_parent hp, List.mem_cons] at ho hm
    rcases ho with rfl | ho
    · refine Or.inr ?_
      rw [hw.path_of_parent hp]
      exact List.mem_cons.mpr hm
    · rcases hm with rfl | hm
      · refine Or.inl ?_
        rw [hw.path_of_parent hp]
        exact List.mem_cons_of_mem _ ho
      · exact ih ho hm

theorem mem_path_antisymm (ho : o ∈ t.path m) (hm : m ∈ t.path o) : o = m := by
  obtain ⟨i⟩ := o
  obtain ⟨j⟩ := m
  have h₁ := index_le_of_mem_path ho
  have h₂ := index_le_of_mem_path hm
  dsimp only at h₁ h₂
  rw [Nat.le_antisymm h₁ h₂]

/-- Only a scope itself is on its path and no earlier than it. -/
theorem WF.mem_path_parent (hw : t.WF) (hp : t.parent s = some p) (ho : o ∈ t.path s)
    (hne : o ≠ s) : o ∈ t.path p := by
  rw [hw.path_of_parent hp, List.mem_cons] at ho
  exact ho.resolve_left hne

theorem WF.mem_path_of_parent (hw : t.WF) (hp : t.parent s = some p) (ho : o ∈ t.path p) :
    o ∈ t.path s := by
  rw [hw.path_of_parent hp]
  exact List.mem_cons_of_mem _ ho

theorem WF.ne_of_mem_path_parent (hw : t.WF) (hp : t.parent s = some p) (ho : o ∈ t.path p) :
    o ≠ s := by
  rintro rfl
  have h₁ := index_le_of_mem_path ho
  have h₂ := hw.parent_lt _ p hp
  omega

/-- A path has one scope of each parent. -/
theorem WF.eq_of_parent_eq (hw : t.WF) {m' : ScopeId} (hm : m ∈ t.path s) (hm' : m' ∈ t.path s)
    (hp : t.parent m = some o) (hp' : t.parent m' = some o) : m = m' := by
  rcases hw.path_linear hm hm' with h | h
  · by_contra hne
    have hmo := hw.mem_path_parent hp' h hne
    exact hw.ne_of_mem_path_parent hp hmo rfl
  · by_contra hne
    have hmo := hw.mem_path_parent hp h fun h => hne h.symm
    exact hw.ne_of_mem_path_parent hp' hmo rfl

theorem WF.nodup_path (hw : t.WF) (s : ScopeId) : (t.path s).Nodup := by
  induction s using hw.induction with
  | root s hs =>
    rw [path_of_root hs]
    exact List.nodup_singleton s
  | child s p hp ih =>
    rw [hw.path_of_parent hp]
    exact List.nodup_cons.mpr ⟨fun h => hw.ne_of_mem_path_parent hp h rfl, ih⟩

/-! ## Methods -/

theorem uptoMethod_ne_nil (t : Scopes) (s : ScopeId) (rest : List ScopeId) :
    t.uptoMethod (s :: rest) ≠ [] := by
  rw [uptoMethod]
  exact List.cons_ne_nil _ _

theorem owningMethod_of_owns (h : (t.get s).kind.ownsMethod = true) : t.owningMethod s = s := by
  rw [owningMethod, methodPath, path, pathWithin, uptoMethod, h]
  rfl

theorem owningMethod_of_root (h : t.parent s = none) : t.owningMethod s = s := by
  rw [owningMethod, methodPath, path_of_root h, uptoMethod]
  split <;> rfl

theorem WF.owningMethod_of_parent (hw : t.WF) (h : (t.get s).kind.ownsMethod = false)
    (hp : t.parent s = some p) : t.owningMethod s = t.owningMethod p := by
  rw [owningMethod, methodPath, hw.path_of_parent hp, uptoMethod, h]
  obtain ⟨rest, hrest⟩ : ∃ rest, t.path p = p :: rest := by
    rw [path, pathWithin]
    exact ⟨_, rfl⟩
  rw [owningMethod, methodPath, hrest]
  obtain ⟨d, ds, hds⟩ := List.exists_cons_of_ne_nil (uptoMethod_ne_nil t p rest)
  rw [if_neg Bool.false_ne_true, hds, List.getLast?_cons_cons, List.getLast?_cons,
    Option.getD_some, Option.getD_some]

theorem WF.owningMethod_mem_path (hw : t.WF) (s : ScopeId) : t.owningMethod s ∈ t.path s := by
  induction s using hw.induction with
  | root s hs =>
    rw [owningMethod_of_root hs]
    exact mem_path_self t s
  | child s p hp ih =>
    cases h : (t.get s).kind.ownsMethod with
    | true =>
      rw [owningMethod_of_owns h]
      exact mem_path_self t s
    | false =>
      rw [hw.owningMethod_of_parent h hp]
      exact hw.mem_path_of_parent hp ih

/-- Every method around a scope is its own one or around that. -/
theorem WF.mem_path_owningMethod (hw : t.WF) (hm : m ∈ t.path s)
    (howns : (t.get m).kind.ownsMethod = true) : m ∈ t.path (t.owningMethod s) := by
  induction s using hw.induction with
  | root s hs =>
    rwa [owningMethod_of_root hs]
  | child s p hp ih =>
    cases h : (t.get s).kind.ownsMethod with
    | true =>
      rwa [owningMethod_of_owns h]
    | false =>
      rw [hw.owningMethod_of_parent h hp]
      refine ih (hw.mem_path_parent hp hm ?_)
      rintro rfl
      rw [howns] at h
      exact Bool.noConfusion h

/-- The scopes between a scope and its method belong to the same method. -/
theorem WF.owningMethod_eq_of_between (hw : t.WF) (ho : o ∈ t.path s)
    (hm : t.owningMethod s ∈ t.path o) : t.owningMethod o = t.owningMethod s := by
  induction s using hw.induction with
  | root s hs =>
    rw [path_of_root hs, List.mem_singleton] at ho
    rw [ho]
  | child s p hp ih =>
    by_cases heq : o = s
    · rw [heq]
    · cases h : (t.get s).kind.ownsMethod with
      | true =>
        rw [owningMethod_of_owns h] at hm
        exact absurd (mem_path_antisymm ho hm) heq
      | false =>
        rw [hw.owningMethod_of_parent h hp] at hm ⊢
        exact ih (hw.mem_path_parent hp ho heq) hm

theorem mem_methods : m ∈ t.methods s ↔ m ∈ t.path s ∧ (t.get m).kind.ownsMethod = true :=
  List.mem_filter

theorem isAncestorOrSelf_iff : t.isAncestorOrSelf m o = true ↔ m ∈ t.path o := by
  rw [isAncestorOrSelf, List.contains_iff_mem]

/-! ## What never changes -/

/-- What says where a scope stands. -/
structure SameHead (s s' : Scope) : Prop where
  parent : s'.parent = s.parent
  kind : s'.kind = s.kind
  name : s'.name = s.name
  unit : s'.unit = s.unit
  memberOf : s'.memberOf = s.memberOf
  isStatic : s'.isStatic = s.isStatic

theorem SameHead.refl (s : Scope) : SameHead s s := ⟨rfl, rfl, rfl, rfl, rfl, rfl⟩

theorem SameHead.trans {s s' s'' : Scope} (h : SameHead s s') (h' : SameHead s' s'') :
    SameHead s s'' :=
  ⟨h'.parent.trans h.parent, h'.kind.trans h.kind, h'.name.trans h.name, h'.unit.trans h.unit,
    h'.memberOf.trans h.memberOf, h'.isStatic.trans h.isStatic⟩

/-- Every scope stands where it stood, and there may be more. -/
structure SameShape (t t' : Scopes) : Prop where
  size_le : t.size ≤ t'.size
  parent_eq : ∀ s, t.Has s → t'.parent s = t.parent s
  kind_eq : ∀ s, t.Has s → (t'.get s).kind = (t.get s).kind

namespace SameShape

theorem has (h : SameShape t t') (hs : t.Has s) : t'.Has s := Nat.lt_of_lt_of_le hs h.size_le

theorem path_eq (h : SameShape t t') (hw : t.WF) (hw' : t'.WF) (hs : t.Has s) :
    t'.path s = t.path s := by
  induction s using hw.induction with
  | root s hr =>
    rw [path_of_root hr, path_of_root (by rw [h.parent_eq s hs, hr])]
  | child s p hp ih =>
    rw [hw.path_of_parent hp, hw'.path_of_parent (by rw [h.parent_eq s hs, hp]),
      ih (hw.has_parent hp)]

theorem owningMethod_eq (h : SameShape t t') (hw : t.WF) (hw' : t'.WF) (hs : t.Has s) :
    t'.owningMethod s = t.owningMethod s := by
  induction s using hw.induction with
  | root s hr =>
    rw [owningMethod_of_root hr, owningMethod_of_root (by rw [h.parent_eq s hs, hr])]
  | child s p hp ih =>
    have hkind := h.kind_eq s hs
    cases howns : (t.get s).kind.ownsMethod with
    | true => rw [owningMethod_of_owns howns, owningMethod_of_owns (by rw [hkind, howns])]
    | false =>
      rw [hw.owningMethod_of_parent howns hp,
        hw'.owningMethod_of_parent (by rw [hkind, howns]) (by rw [h.parent_eq s hs, hp]),
        ih (hw.has_parent hp)]

/-- The parents of a larger table, when new scopes are opened inside old ones. -/
theorem wf (h : SameShape t t') (hw : t.WF)
    (hnew : ∀ s p, t'.parent s = some p → ¬ t.Has s → t.Has p) : t'.WF := by
  refine ⟨fun s p hp => ?_⟩
  by_cases hs : t.Has s
  · rw [h.parent_eq s hs] at hp
    exact hw.parent_lt s p hp
  · exact Nat.lt_of_lt_of_le (hnew s p hp hs) (Nat.le_of_not_lt hs)

end SameShape

/-- One table of scopes comes after another: there are more scopes, and more in them. -/
structure Extends (t t' : Scopes) : Prop where
  size_le : t.size ≤ t'.size
  head : ∀ s, t.Has s → SameHead (t.get s) (t'.get s)
  entries : ∀ s, t.Has s → (t.get s).entries <+: (t'.get s).entries
  captures : ∀ s, t.Has s → (t.get s).captures <+: (t'.get s).captures
  types : ∀ s, t.Has s → (t.get s).types <+: (t'.get s).types

namespace Extends

theorem refl (t : Scopes) : Extends t t :=
  ⟨Nat.le_refl _, fun _ _ => SameHead.refl _, fun _ _ => List.prefix_refl _,
    fun _ _ => List.prefix_refl _, fun _ _ => List.prefix_refl _⟩

theorem has (h : Extends t t') (hs : t.Has s) : t'.Has s := Nat.lt_of_lt_of_le hs h.size_le

theorem trans (h : Extends t t') (h' : Extends t' t'') : Extends t t'' where
  size_le := Nat.le_trans h.size_le h'.size_le
  head s hs := (h.head s hs).trans (h'.head s (h.has hs))
  entries s hs := (h.entries s hs).trans (h'.entries s (h.has hs))
  captures s hs := (h.captures s hs).trans (h'.captures s (h.has hs))
  types s hs := (h.types s hs).trans (h'.types s (h.has hs))

theorem parent_eq (h : Extends t t') (hs : t.Has s) : t'.parent s = t.parent s :=
  (h.head s hs).parent

theorem kind_eq (h : Extends t t') (hs : t.Has s) : (t'.get s).kind = (t.get s).kind :=
  (h.head s hs).kind

theorem shape (h : Extends t t') : SameShape t t' :=
  ⟨h.size_le, fun _ hs => h.parent_eq hs, fun _ hs => h.kind_eq hs⟩

theorem path_eq (h : Extends t t') (hw : t.WF) (hw' : t'.WF) (hs : t.Has s) :
    t'.path s = t.path s := h.shape.path_eq hw hw' hs

theorem owningMethod_eq (h : Extends t t') (hw : t.WF) (hw' : t'.WF) (hs : t.Has s) :
    t'.owningMethod s = t.owningMethod s := h.shape.owningMethod_eq hw hw' hs

theorem methods_eq (h : Extends t t') (hw : t.WF) (hw' : t'.WF) (hs : t.Has s) :
    t'.methods s = t.methods s := by
  rw [methods, methods, h.path_eq hw hw' hs]
  refine List.filter_congr fun d hd => ?_
  rw [h.kind_eq (has_of_mem_path hd hs)]

theorem reachesDirectly_eq (h : Extends t t') (b : Binding) (o : ScopeId) (hs : t.Has s) :
    t'.reachesDirectly b o s = t.reachesDirectly b o s := by
  have hd := h.head s hs
  simp only [reachesDirectly, hd.kind, hd.parent, hd.name, hd.memberOf, hd.isStatic]

theorem isItself_eq (h : Extends t t') (r : Resolved) (hs : t.Has s) :
    t'.isItself s r = t.isItself s r := by
  have hd := h.head s hs
  simp only [isItself, hd.kind, hd.parent, hd.name]

theorem memberAccess_eq (h : Extends t t') (hw : t.WF) (hw' : t'.WF) (hs : t.Has s)
    (r : Resolved) : t'.memberAccess s r = t.memberAccess s r := by
  have hfind : (t'.methods s).find? (fun m => t'.parent m == some r.owner) =
      (t.methods s).find? (fun m => t.parent m == some r.owner) := by
    rw [h.methods_eq hw hw' hs]
    refine List.find?_congr fun d hd => ?_
    rw [h.parent_eq (has_of_mem_path (mem_methods.mp hd).1 hs)]
  rw [memberAccess, memberAccess, hfind]
  cases hm : (t.methods s).find? (fun m => t.parent m == some r.owner) with
  | none => rfl
  | some m =>
    have hhas := has_of_mem_path (mem_methods.mp (List.mem_of_find?_eq_some hm)).1 hs
    have hd := h.head m hhas
    simp only [hd.kind, hd.isStatic, h.owningMethod_eq hw hw' hs]

/-- How a binding is reached from a scope never changes. -/
theorem accessTo_eq (h : Extends t t') (hw : t.WF) (hw' : t'.WF) (hs : t.Has s) {r : Resolved}
    (ho : t.Has r.owner) : t'.accessTo s r = t.accessTo s r := by
  have hout : t'.outerAccess s r = t.outerAccess s r := by
    rw [outerAccess, outerAccess, h.memberAccess_eq hw hw' hs, h.owningMethod_eq hw hw' hs,
      h.isItself_eq r (has_of_mem_path (hw.owningMethod_mem_path s) hs)]
  rw [accessTo, accessTo, hout, isAncestorOrSelf, isAncestorOrSelf, h.path_eq hw hw' ho,
    h.owningMethod_eq hw hw' hs]

end Extends

end Scopes

end Unnest
