import Unnest.Proofs.Scope.Captures

/-!
# Environments

The code of a method finds a captured binding in the class it is emitted into, which is
the class of the method's scope, and for static initial values the class of the type
around (`classScope`).  A use whose access is captured therefore needs a capture there.

`Leads t s c a` says that the access `a` from the scope `s` gets at the binding that
`c` captured: it ends at the binding itself, in a slot of the method that owns it, in
the routine that is meant, or in the instance that has the member, or it goes on to a
class that captured the same binding.
-/

namespace Unnest.Scopes

variable {t t' : Scopes} {s p d : ScopeId} {c : Capture} {r : Resolved} {a : Access}

/-- The scope of the class that the code of a scope is emitted into. -/
def classScope (t : Scopes) (s : ScopeId) : ScopeId :=
  if (t.get (t.owningMethod s)).kind = .fieldInit then
    (t.parent (t.owningMethod s)).getD (t.owningMethod s)
  else t.owningMethod s

/-- An access gets at a captured binding. -/
def Leads (t : Scopes) (s : ScopeId) (c : Capture) : Access → Prop
  | .captured => c ∈ (t.get (t.classScope s)).captures ∧ (t.get (t.classScope s)).kind ≠ .main
  | .slot k => c.binding.slot = some k ∧ t.owningMethod c.owner = t.owningMethod s
  | .itself => c.binding.role = .routine ∧ (t.get (t.owningMethod s)).kind = .routine ∧
      t.parent (t.owningMethod s) = some c.owner ∧ (t.get (t.owningMethod s)).name = c.name
  | .enclosing => c.binding.role = .field ∧ (t.get (t.owningMethod s)).kind = .routine ∧
      (t.get (t.owningMethod s)).isStatic = false ∧ t.parent (t.owningMethod s) = some c.owner ∧
      (t.get (t.owningMethod s)).memberOf = c.binding.owner ∧ c.binding.owner.isSome = true
  | .static _ => False

/-- What was found out about a use of a binding. -/
structure Reaches (t : Scopes) (s : ScopeId) (c : Capture) (a : Access) : Prop where
  meant : Meant t s c.resolved
  access : t.accessTo s c.resolved = .found c.resolved a
  captured : a = .captured → c ∈ (t.get s).captures

theorem Reaches.mono (h : Reaches t s c a) (hx : Extends t t') (hw : t.WF) (hw' : t'.WF)
    (hs : t.Has s) : Reaches t' s c a where
  meant := h.meant.mono hx hw hw' hs
  access := by
    rw [hx.accessTo_eq hw hw' hs (has_of_mem_entries h.meant.declared), h.access]
  captured ha := (hx.captures s hs).subset (h.captured ha)

/-! ## The class of a method -/

/-- The blocks of a method hand a capture on to the method. -/
theorem Sound.mem_captures_owningMethod (h : Sound t) (ho : Outside t s c.resolved)
    (hc : c ∈ (t.get s).captures) : c ∈ (t.get (t.owningMethod s)).captures := by
  obtain ⟨hmem, hne, hindirect, -, -⟩ := ho
  generalize hm : t.owningMethod s = m at hmem hne hindirect
  induction s using h.toWF.induction with
  | root s hp =>
    rw [owningMethod_of_root hp] at hm
    rwa [← hm]
  | child s p hp ih =>
    cases howns : (t.get s).kind.ownsMethod with
    | true =>
      rw [owningMethod_of_owns howns] at hm
      rwa [← hm]
    | false =>
      rw [h.owningMethod_of_parent howns hp] at hm
      refine ih ?_ hm
      rcases (h.captures s c hc).handed p hp with howner | hdirect | hcp
      · have hmp := h.owningMethod_mem_path p
        rw [hm, howner] at hmp
        exact absurd (mem_path_antisymm hmem hmp) hne
      · have hpm := owningMethod_of_owns (t := t) (s := p) (by rw [reachesDirectly_kind hdirect]; rfl)
        rw [← hpm, hm, show c.owner = c.resolved.owner from rfl,
          show c.binding = c.resolved.binding from rfl, hindirect] at hdirect
        exact absurd hdirect Bool.false_ne_true
      · exact hcp

/-- The main body captures nothing. -/
theorem Sound.kind_ne_main (h : Sound t) (hc : c ∈ (t.get s).captures) :
    (t.get s).kind ≠ .main := by
  intro hk
  have hs := h.captures s c hc
  rcases h.placed s (has_of_mem_captures hc) with ⟨-, hp⟩ | ⟨p, hp, hopen⟩
  · have hmem := hs.owner_mem
    rw [path_of_root hp, List.mem_singleton] at hmem
    exact hs.owner_ne hmem
  · rw [hk] at hopen
    exact hopen

/-- A type hands every capture on to its static initial values. -/
theorem Sound.mem_captures_type (h : Sound t) (hk : (t.get s).kind = .fieldInit)
    (hc : c ∈ (t.get s).captures) : ∃ p, t.parent s = some p ∧ c ∈ (t.get p).captures := by
  have hs := h.captures s c hc
  obtain ⟨hmain, -⟩ | ⟨p, hp, hopen⟩ := h.placed s (has_of_mem_captures hc)
  · rw [hk] at hmain
    exact absurd hmain (by simp)
  · rw [hk] at hopen
    refine ⟨p, hp, ?_⟩
    rcases hs.handed p hp with howner | hdirect | hcp
    · have hdeclared := (h.entries _ _ hs.declared).1
      rw [← howner, MayDeclare, hopen.1] at hdeclared
      have hfield : c.binding.role = .field := by
        have hmember := hdeclared.1
        have hstatic := hs.not_static
        cases hrole : c.binding.role <;> simp_all [Role.isMember]
      obtain ⟨m, hm, hne, hpm, -⟩ := hs.inside hfield
      rw [← howner] at hpm
      exact absurd rfl (h.ne_of_mem_path_parent hpm (h.mem_path_parent hp hm hne))
    · have hkind := hopen.1
      rw [reachesDirectly_kind hdirect] at hkind
      exact absurd hkind (by simp)
    · exact hcp

/-- A captured use finds the binding in the class its code is emitted into, which is
never that of the main body. -/
theorem Sound.captured_leads (h : Sound t) (hr : Reaches t s c .captured) :
    Leads t s c .captured := by
  have hm := h.mem_captures_owningMethod (h.outside hr.meant hr.access).2 (hr.captured rfl)
  have hclass : c ∈ (t.get (t.classScope s)).captures := by
    rw [classScope]
    split
    · rename_i hk
      obtain ⟨p, hp, hcp⟩ := h.mem_captures_type hk hm
      rwa [hp, Option.getD_some]
    · exact hm
  exact ⟨hclass, h.kind_ne_main hclass⟩

theorem Sound.owns_owningMethod (h : Sound t) (hs : t.Has s) :
    (t.get (t.owningMethod s)).kind.ownsMethod = true := by
  induction s using h.toWF.induction with
  | root s hp =>
    rw [owningMethod_of_root hp]
    rcases h.placed s hs with ⟨hk, -⟩ | ⟨p, hp', -⟩
    · rw [hk]
      rfl
    · exact absurd (hp.symm.trans hp') (by simp)
  | child s p hp ih =>
    cases howns : (t.get s).kind.ownsMethod with
    | true => rwa [owningMethod_of_owns howns]
    | false =>
      rw [h.owningMethod_of_parent howns hp]
      exact ih (h.has_parent hp)

theorem Sound.classScope_mem_path (h : Sound t) (s : ScopeId) : t.classScope s ∈ t.path s := by
  have hm := h.owningMethod_mem_path s
  rw [classScope]
  split
  · cases hp : t.parent (t.owningMethod s) with
    | none => exact hm
    | some p => exact h.mem_path_trans (h.mem_path_of_parent hp (mem_path_self t p)) hm
  · exact hm

/-- A class that captured something is that of a routine or of a type. -/
theorem Sound.kind_classScope (h : Sound t) (hs : t.Has s)
    (hc : c ∈ (t.get (t.classScope s)).captures) :
    (t.get (t.classScope s)).kind = .routine ∨ (t.get (t.classScope s)).kind = .type := by
  have hmain := h.kind_ne_main hc
  have howns := h.owns_owningMethod hs
  by_cases hk : (t.get (t.owningMethod s)).kind = .fieldInit
  · have hmh := has_of_mem_path (h.owningMethod_mem_path s) hs
    rcases h.placed _ hmh with ⟨hk', -⟩ | ⟨p, hp, hopen⟩
    · exact absurd (hk.symm.trans hk') (by simp)
    · rw [hk] at hopen
      rw [classScope, if_pos hk, hp, Option.getD_some]
      exact Or.inr hopen.1
  · rw [classScope, if_neg hk] at hmain ⊢
    cases hkind : (t.get (t.owningMethod s)).kind with
    | main => exact absurd hkind hmain
    | type => exact Or.inr rfl
    | routine => exact Or.inl rfl
    | block =>
      rw [hkind] at howns
      exact absurd howns Bool.false_ne_true
    | fieldInit => exact absurd hkind hk

/-! ## Where an access leads -/

theorem Meant.has (h : Meant t s r) : t.Has s := by
  by_contra hs
  have hp : t.parent s = none := by
    rw [parent, get_of_not_has hs]
    rfl
  have howner := h.owner_mem
  rw [path_of_root hp, List.mem_singleton] at howner
  exact hs (howner ▸ has_of_mem_entries h.declared)

/-- The ways to a binding that is in no slot of the method. -/
theorem outerAccess_cases {r' : Resolved} (h : t.outerAccess s r = .found r' a) :
    (r.binding.role = .staticField ∧ ∃ type, a = .static type) ∨
      (r.binding.role = .field ∧ t.memberAccess s r = .found r' a) ∨
      (r.binding.role = .routine ∧ a = if t.isItself (t.owningMethod s) r then .itself else .captured) ∨
      a = .captured := by
  rw [outerAccess] at h
  cases hrole : r.binding.role with
  | staticField =>
    rw [hrole] at h
    dsimp only at h
    split at h
    · exact Or.inl ⟨rfl, _, (Lookup.found.inj h).2.symm⟩
    · exact absurd h (by simp)
  | field =>
    rw [hrole] at h
    exact Or.inr (Or.inl ⟨rfl, h⟩)
  | routine =>
    rw [hrole] at h
    exact Or.inr (Or.inr (Or.inl ⟨rfl, (Lookup.found.inj h).2.symm⟩))
  | var | param | «nonlocal» =>
    rw [hrole] at h
    exact Or.inr (Or.inr (Or.inr (Lookup.found.inj h).2.symm))

/-- A slot is read directly, and everything else by way of the outer scopes. -/
theorem accessTo_cases {r' : Resolved} (h : t.accessTo s r = .found r' a) :
    (∃ k, a = .slot k ∧ r.binding.slot = some k ∧ t.owningMethod s ∈ t.path r.owner) ∨
      t.outerAccess s r = .found r' a := by
  rw [accessTo] at h
  split at h
  · rename_i k hslot
    split at h
    · rename_i hin
      exact Or.inl ⟨k, (Lookup.found.inj h).2.symm, hslot, isAncestorOrSelf_iff.mp hin⟩
    · exact Or.inr h
  · exact Or.inr h

/-- An access is found to the binding that was asked for. -/
theorem eq_of_accessTo {r' : Resolved} (h : t.accessTo s r = .found r' a) : r' = r := by
  rw [accessTo] at h
  have houter : t.outerAccess s r = .found r' a → r' = r := by
    intro h
    rw [outerAccess] at h
    split at h
    · split at h
      · exact (Lookup.found.inj h).1.symm
      · exact absurd h (by simp)
    · exact (memberAccess_eq_found h).1
    all_goals exact (Lookup.found.inj h).1.symm
  split at h
  · split at h
    · exact (Lookup.found.inj h).1.symm
    · exact houter h
  · exact houter h

/-- A lookup finds a binding of the name. -/
theorem Sound.found_of_lookup (h : Sound t) {n : String} (hl : t.lookup s n = .found r a) :
    r.binding.name = n ∧ Meant t s r ∧ t.accessTo s r = .found r a := by
  rw [lookup] at hl
  cases hr : t.resolveValue s n with
  | none =>
    rw [hr] at hl
    exact absurd hl (by simp)
  | some r₀ =>
    rw [hr] at hl
    obtain rfl := eq_of_accessTo hl
    exact ⟨(h.meant hr).1, (h.meant hr).2, hl⟩

/-- An access that was found gets at the binding. -/
theorem Sound.leads (h : Sound t) (hr : Reaches t s c a) (ha : ∀ type, a ≠ .static type) :
    Leads t s c a := by
  rcases accessTo_cases hr.access with ⟨k, rfl, hslot, hin⟩ | hout
  · exact ⟨hslot, h.owningMethod_eq_of_between hr.meant.owner_mem hin⟩
  · rcases outerAccess_cases hout with ⟨-, type, rfl⟩ | ⟨hrole, hmember⟩ | ⟨hrole, hself⟩ | rfl
    · exact absurd rfl (ha type)
    · obtain ⟨-, m, hm, hp, hk, hst, haccess⟩ := memberAccess_eq_found hmember
      split at haccess
      · rename_i hmo
        subst hmo haccess
        have hreach := h.reachesDirectly_member hr.meant hrole hp hk hst
        simp only [reachesDirectly, hrole, Bool.and_eq_true, beq_iff_eq] at hreach
        obtain ⟨-, ⟨-, hsome⟩, howner⟩ := hreach
        rw [howner] at hsome
        exact ⟨hrole, hk, hst, hp, howner, hsome⟩
      · subst haccess
        exact h.captured_leads hr
    · split at hself
      · rename_i hitself
        subst hself
        simp only [isItself, Bool.and_eq_true, beq_iff_eq] at hitself
        exact ⟨hrole, hitself.1.1, hitself.1.2, hitself.2⟩
      · subst hself
        exact h.captured_leads hr
    · exact h.captured_leads hr

/-- What a scope captured can be reached from the scope around it, and not as a static
member. -/
theorem Sound.source (h : Sound t) (hc : c ∈ (t.get s).captures) (hp : t.parent s = some p) :
    Meant t p c.resolved ∧
      ∃ a, t.accessTo p c.resolved = .found c.resolved a ∧ ∀ type, a ≠ .static type := by
  have hs := h.captures s c hc
  refine ⟨⟨h.mem_path_parent hp hs.owner_mem hs.owner_ne, hs.declared⟩, ?_⟩
  have houter : ∃ a, t.outerAccess p c.resolved = .found c.resolved a ∧
      ∀ type, a ≠ .static type := by
    rw [outerAccess]
    cases hrole : c.resolved.binding.role with
    | staticField => exact absurd hrole hs.not_static
    | routine =>
      refine ⟨_, rfl, fun type => ?_⟩
      split <;> simp
    | var | param | «nonlocal» => exact ⟨_, rfl, fun type => by simp⟩
    | field =>
      obtain ⟨m, hm, hne, hpm, hkm, hstm⟩ := hs.inside hrole
      have hmp := h.mem_path_parent hp hm hne
      obtain ⟨m', hm'⟩ : ∃ m', (t.methods p).find? (fun m => t.parent m == some c.owner) =
          some m' := by
        refine Option.isSome_iff_exists.mp (List.find?_isSome.mpr ⟨m, ?_, ?_⟩)
        · exact mem_methods.mpr ⟨hmp, by rw [hkm]; rfl⟩
        · exact beq_iff_eq.mpr hpm
      have hpm' := List.find?_some hm'
      have heq := h.eq_of_parent_eq hmp
        (mem_methods.mp (List.mem_of_find?_eq_some hm')).1 hpm (eq_of_beq hpm')
      subst heq
      refine ⟨if m = t.owningMethod p then .enclosing else .captured, ?_, fun type => ?_⟩
      · dsimp only
        rw [memberAccess, show c.resolved.owner = c.owner from rfl, hm']
        dsimp only
        rw [if_pos ⟨hkm, hstm⟩]
      · split <;> simp
  rw [accessTo]
  split
  · split
    · exact ⟨_, rfl, fun type => by simp⟩
    · exact houter
  · exact houter

end Unnest.Scopes
