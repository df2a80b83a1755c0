import Unnest.Proofs.Scope.Growth

/-!
# Sound scopes

What holds of the scopes of a program at every moment of its analysis.  Scopes are
nested as definitions are, a scope declares what its kind allows, and every capture
comes from a scope further out that declares the binding, by way of all the scopes in
between: each of them was handed the binding by the scope around it, or reaches it
directly (`CaptureSound`).

## From resolution to access

A name means a binding that a scope on the path declares (`Sound.meant`).  When its
access is *captured*, its owner lies outside the method, and the method has no other
way to it (`Sound.outside`).  Seen from the scope around a capturing one, a captured
binding is found again, and in one of four ways (`Sound.source`).
-/

namespace Unnest

/-- A captured binding as resolution answers it. -/
def Capture.resolved (c : Capture) : Scopes.Resolved := ⟨c.binding, c.owner⟩

namespace Scopes

/-- Whether a scope can be opened inside another one. -/
def MayOpen (outer : Scope) (kind : ScopeKind) (memberOf : Option TypeId) (isStatic : Bool) :
    Prop :=
  match kind with
  | .main => False
  | .block => outer.kind.isBody = true
  | .type => outer.kind.isBody = true ∧ memberOf.isSome = true
  | .fieldInit => outer.kind = .type ∧ memberOf = outer.memberOf
  | .routine => outer.kind.isBody = true ∧ memberOf = none ∧ isStatic = false ∨
      outer.kind = .type ∧ memberOf = outer.memberOf

/-- Whether a scope can declare a binding. -/
def MayDeclare (s : Scope) (b : Binding) : Prop :=
  match s.kind with
  | .main | .routine | .block => b.role.usesSlot = true
  | .type => b.role.isMember = true ∧ b.owner = s.memberOf
  | .fieldInit => False

/-- What holds of a capture that a scope records. -/
structure CaptureSound (t : Scopes) (s : ScopeId) (c : Capture) : Prop where
  owner_mem : c.owner ∈ t.path s
  owner_ne : c.owner ≠ s
  declared : c.binding ∈ (t.get c.owner).entries
  not_static : c.binding.role ≠ .staticField
  /-- A member of an instance is used inside an instance routine. -/
  inside : c.binding.role = .field → ∃ m ∈ t.path s, m ≠ s ∧ t.parent m = some c.owner ∧
    (t.get m).kind = .routine ∧ (t.get m).isStatic = false
  /-- The scope around has the binding to hand on. -/
  handed : ∀ p, t.parent s = some p →
    p = c.owner ∨ t.reachesDirectly c.binding c.owner p = true ∨ c ∈ (t.get p).captures

/-- What holds of the scopes of a program. -/
structure Sound (t : Scopes) : Prop extends WF t where
  root_has : t.Has rootId
  root_kind : (t.get rootId).kind = .main
  placed : ∀ s, t.Has s → (t.get s).kind = .main ∧ t.parent s = none ∨
    ∃ p, t.parent s = some p ∧
      MayOpen (t.get p) (t.get s).kind (t.get s).memberOf (t.get s).isStatic
  entries : ∀ s, ∀ b ∈ (t.get s).entries,
    MayDeclare (t.get s) b ∧ b.slot.isSome = b.role.usesSlot
  captures : ∀ s, ∀ c ∈ (t.get s).captures, CaptureSound t s c

variable {t t' : Scopes} {s p d : ScopeId} {c : Capture} {r : Resolved} {n : String}

theorem has_of_mem_entries {b : Binding} (h : b ∈ (t.get s).entries) : t.Has s := by
  by_contra hs
  rw [get_of_not_has hs] at h
  exact List.not_mem_nil h

theorem has_of_mem_captures (h : c ∈ (t.get s).captures) : t.Has s := by
  by_contra hs
  rw [get_of_not_has hs] at h
  exact List.not_mem_nil h

theorem mayOpen_congr {outer outer' : Scope} (h : SameHead outer outer') {kind : ScopeKind}
    {memberOf : Option TypeId} {isStatic : Bool} (hopen : MayOpen outer kind memberOf isStatic) :
    MayOpen outer' kind memberOf isStatic := by
  cases kind <;> simp only [MayOpen, h.kind, h.memberOf] at hopen ⊢ <;> exact hopen

theorem mayDeclare_of_isBody {s : Scope} {b : Binding} (h : s.kind.isBody = true)
    (hb : b.role.usesSlot = true) : MayDeclare s b := by
  rw [MayDeclare]
  cases hk : s.kind <;> rw [hk] at h <;> first
    | exact hb
    | exact absurd h (by decide)

theorem mayDeclare_congr {s s' : Scope} (h : SameHead s s') {b : Binding} (hb : MayDeclare s b) :
    MayDeclare s' b := by
  simp only [MayDeclare, h.kind, h.memberOf] at hb ⊢
  exact hb

/-! ## Growing -/

theorem CaptureSound.mono (h : CaptureSound t s c) (hx : Extends t t') (hw : t.WF) (hw' : t'.WF)
    (hs : t.Has s) : CaptureSound t' s c where
  owner_mem := by
    rw [hx.path_eq hw hw' hs]
    exact h.owner_mem
  owner_ne := h.owner_ne
  declared := (hx.entries _ (has_of_mem_path h.owner_mem hs)).subset h.declared
  not_static := h.not_static
  inside hr := by
    obtain ⟨m, hm, hne, hp, hk, hst⟩ := h.inside hr
    have hmh := has_of_mem_path hm hs
    refine ⟨m, ?_, hne, ?_, ?_, ?_⟩
    · rw [hx.path_eq hw hw' hs]
      exact hm
    · rw [hx.parent_eq hmh, hp]
    · rw [hx.kind_eq hmh, hk]
    · rw [(hx.head m hmh).isStatic, hst]
  handed p hp := by
    rw [hx.parent_eq hs] at hp
    have hph := hw.has_parent hp
    rw [hx.reachesDirectly_eq _ _ hph]
    exact (h.handed p hp).imp_right (Or.imp_right fun hc => (hx.captures p hph).subset hc)

/-- The parents of an extended table, when new scopes are opened inside old ones. -/
theorem Extends.wf (hx : Extends t t') (hw : t.WF)
    (hnew : ∀ s p, t'.parent s = some p → ¬ t.Has s → t.Has p) : t'.WF := hx.shape.wf hw hnew

/-- What is sound stays sound when only sound things are added. -/
theorem Sound.extend (h : Sound t) (hx : Extends t t') (hw' : t'.WF)
    (hopen : ∀ s, t'.Has s → ¬ t.Has s → ∃ p, t'.parent s = some p ∧
      MayOpen (t'.get p) (t'.get s).kind (t'.get s).memberOf (t'.get s).isStatic)
    (hentries : ∀ s, ∀ b ∈ (t'.get s).entries, b ∈ (t.get s).entries ∨
      MayDeclare (t'.get s) b ∧ b.slot.isSome = b.role.usesSlot)
    (hcaptures : ∀ s, ∀ c ∈ (t'.get s).captures, c ∈ (t.get s).captures ∨ CaptureSound t' s c) :
    Sound t' where
  parent_lt := hw'.parent_lt
  root_has := hx.has h.root_has
  root_kind := by rw [hx.kind_eq h.root_has, h.root_kind]
  placed s hs := by
    by_cases hold : t.Has s
    · have hd := hx.head s hold
      rw [hd.kind, hd.memberOf, hd.isStatic, hx.parent_eq hold]
      refine (h.placed s hold).imp_right ?_
      rintro ⟨p, hp, hm⟩
      exact ⟨p, hp, mayOpen_congr (hx.head p (h.has_parent hp)) hm⟩
    · exact Or.inr (hopen s hs hold)
  entries s b hb := by
    rcases hentries s b hb with hold | hnew
    · obtain ⟨hm, hslot⟩ := h.entries s b hold
      exact ⟨mayDeclare_congr (hx.head s (has_of_mem_entries hold)) hm, hslot⟩
    · exact hnew
  captures s c hc := by
    rcases hcaptures s c hc with hold | hnew
    · exact (h.captures s c hold).mono hx h.toWF hw' (has_of_mem_captures hold)
    · exact hnew

/-! ## What a name means -/

theorem resolveValue_of_root (hp : t.parent s = none) :
    t.resolveValue s n = t.answer? n s := by
  rw [resolveValue, path_of_root hp, List.findSome?_cons, List.findSome?_nil]
  cases t.answer? n s <;> rfl

theorem WF.resolveValue_of_parent (hw : t.WF) (hp : t.parent s = some p) :
    t.resolveValue s n = (t.answer? n s).or (t.resolveValue p n) := by
  rw [resolveValue, hw.path_of_parent hp, List.findSome?_cons, resolveValue]
  cases t.answer? n s <;> rfl

theorem answer?_eq_none : t.answer? n s = none ↔ (t.get s).knows n = false := by
  rw [answer?, Scope.knows]
  cases (t.get s).binding? n <;> simp

/-- What a scope answers, it declares or has captured. -/
theorem answer?_cases (h : t.answer? n s = some r) : r.binding.name = n ∧
    (r.owner = s ∧ r.binding ∈ (t.get s).entries ∨ ∃ c ∈ (t.get s).captures, c.resolved = r) := by
  rw [answer?] at h
  cases hb : (t.get s).binding? n with
  | some b =>
    rw [hb] at h
    cases h
    have hname := List.find?_some hb
    exact ⟨eq_of_beq hname, Or.inl ⟨rfl, List.mem_of_find?_eq_some hb⟩⟩
  | none =>
    rw [hb] at h
    obtain ⟨c, hc, rfl⟩ := Option.map_eq_some_iff.mp h
    have hname := List.find?_some hc
    exact ⟨eq_of_beq hname, Or.inr ⟨c, List.mem_of_find?_eq_some hc, rfl⟩⟩

/-- A binding with its owner, as seen from a scope: the owner is on the path and
declares the binding. -/
structure Meant (t : Scopes) (s : ScopeId) (r : Resolved) : Prop where
  owner_mem : r.owner ∈ t.path s
  declared : r.binding ∈ (t.get r.owner).entries

theorem CaptureSound.meant (h : CaptureSound t s c) : Meant t s c.resolved :=
  ⟨h.owner_mem, h.declared⟩

theorem Meant.of_parent (hw : t.WF) (hp : t.parent s = some p) (h : Meant t p r) : Meant t s r :=
  ⟨hw.mem_path_of_parent hp h.owner_mem, h.declared⟩

theorem Meant.mono (h : Meant t s r) (hx : Extends t t') (hw : t.WF) (hw' : t'.WF)
    (hs : t.Has s) : Meant t' s r where
  owner_mem := by
    rw [hx.path_eq hw hw' hs]
    exact h.owner_mem
  declared := (hx.entries _ (has_of_mem_path h.owner_mem hs)).subset h.declared

/-- A name means a binding of that name which a scope on the path declares. -/
theorem Sound.meant (h : Sound t) (hr : t.resolveValue s n = some r) :
    r.binding.name = n ∧ Meant t s r := by
  have hanswer : ∀ s, t.answer? n s = some r → r.binding.name = n ∧ Meant t s r := by
    intro s ha
    obtain ⟨hname, ⟨rfl, hmem⟩ | ⟨c, hc, rfl⟩⟩ := answer?_cases ha
    · exact ⟨hname, mem_path_self t _, hmem⟩
    · exact ⟨hname, (h.captures s c hc).meant⟩
  induction s using h.toWF.induction with
  | root s hp =>
    rw [resolveValue_of_root hp] at hr
    exact hanswer s hr
  | child s p hp ih =>
    rw [h.resolveValue_of_parent hp, Option.or_eq_some_iff] at hr
    rcases hr with ha | ⟨-, hr⟩
    · exact hanswer s ha
    · exact ⟨(ih hr).1, (ih hr).2.of_parent h.toWF hp⟩

/-- Members are declared by the scopes of types, everything else by bodies. -/
theorem Sound.owner_kind (h : Sound t) (hm : Meant t s r) (hr : r.binding.role.isMember = true) :
    (t.get r.owner).kind = .type ∧ r.binding.owner = (t.get r.owner).memberOf := by
  have hd := (h.entries _ _ hm.declared).1
  have hslot := Role.usesSlot_eq_false_of_isMember hr
  unfold MayDeclare at hd
  split at hd
  · exact absurd hd (by simp [hslot])
  · exact absurd hd (by simp [hslot])
  · exact absurd hd (by simp [hslot])
  · exact ⟨‹_›, hd.2⟩
  · exact hd.elim

/-! ## Captured access -/

/-- A binding that a method can only receive: it is declared outside, and the method
has no other way to it. -/
structure Outside (t : Scopes) (s : ScopeId) (r : Resolved) : Prop where
  owner_mem : r.owner ∈ t.path (t.owningMethod s)
  owner_ne : r.owner ≠ t.owningMethod s
  indirect : t.reachesDirectly r.binding r.owner (t.owningMethod s) = false
  not_static : r.binding.role ≠ .staticField
  inside : r.binding.role = .field → ∃ m ∈ t.path s, m ≠ t.owningMethod s ∧
    t.parent m = some r.owner ∧ (t.get m).kind = .routine ∧ (t.get m).isStatic = false

theorem reachesDirectly_parent {b : Binding} {o m : ScopeId}
    (h : t.reachesDirectly b o m = true) : t.parent m = some o := by
  simp only [reachesDirectly, Bool.and_eq_true] at h
  exact eq_of_beq h.1.2

theorem reachesDirectly_kind {b : Binding} {o m : ScopeId}
    (h : t.reachesDirectly b o m = true) : (t.get m).kind = .routine := by
  simp only [reachesDirectly, Bool.and_eq_true] at h
  exact eq_of_beq h.1.1

/-- The only member of a path whose parent declares an instance member decides how the
member is reached. -/
theorem memberAccess_eq_found {a : Access} {r' : Resolved}
    (ha : t.memberAccess s r = .found r' a) :
    r' = r ∧ ∃ m ∈ t.path s, t.parent m = some r.owner ∧ (t.get m).kind = .routine ∧
      (t.get m).isStatic = false ∧
        a = if m = t.owningMethod s then .enclosing else .captured := by
  rw [memberAccess] at ha
  cases hf : (t.methods s).find? (fun m => t.parent m == some r.owner) with
  | none =>
    rw [hf] at ha
    exact absurd ha (by simp)
  | some m =>
    rw [hf] at ha
    dsimp only at ha
    split at ha
    · rename_i hm
      obtain ⟨rfl, rfl⟩ := Lookup.found.inj ha
      have hp := List.find?_some hf
      exact ⟨rfl, m, (mem_methods.mp (List.mem_of_find?_eq_some hf)).1, eq_of_beq hp, hm.1, hm.2,
        rfl⟩
    · exact absurd ha (by simp)

theorem Sound.outside (h : Sound t) (hm : Meant t s r) {r' : Resolved}
    (ha : t.accessTo s r = .found r' .captured) : r' = r ∧ Outside t s r := by
  have hslots := (h.entries _ _ hm.declared).2
  have hown := h.owningMethod_mem_path s
  cases hslot : r.binding.slot with
  | some k =>
    rw [hslot, Option.isSome_some] at hslots
    rw [accessTo, hslot] at ha
    dsimp only at ha
    split at ha
    · exact absurd ha (by simp)
    · rename_i hout
      rw [isAncestorOrSelf_iff] at hout
      have howner : r.owner ∈ t.path (t.owningMethod s) :=
        (h.path_linear hm.owner_mem hown).resolve_right hout
      have hne : r.owner ≠ t.owningMethod s := by
        intro heq
        rw [heq] at hout
        exact hout (mem_path_self t _)
      rw [outerAccess] at ha
      cases hrole : r.binding.role with
      | var | param =>
        rw [hrole] at ha
        refine ⟨(Lookup.found.inj ha).1.symm, howner, hne, ?_, ?_, ?_⟩
        · simp [reachesDirectly, hrole]
        · simp [hrole]
        · simp [hrole]
      | routine =>
        rw [hrole] at ha
        dsimp only at ha
        split at ha
        · exact absurd ha (by simp)
        · rename_i hself
          refine ⟨(Lookup.found.inj ha).1.symm, howner, hne, ?_, ?_, ?_⟩
          · rw [isItself] at hself
            rw [reachesDirectly, hrole]
            exact Bool.eq_false_iff.mpr hself
          · simp [hrole]
          · simp [hrole]
      | field | staticField | «nonlocal» =>
        rw [hrole] at hslots
        exact absurd hslots (by simp [Role.usesSlot])
  | none =>
    rw [hslot, Option.isSome_none] at hslots
    rw [accessTo, hslot] at ha
    dsimp only at ha
    rw [outerAccess] at ha
    cases hrole : r.binding.role with
    | var | param | routine =>
      rw [hrole] at hslots
      exact absurd hslots (by simp [Role.usesSlot])
    | staticField =>
      rw [hrole] at ha
      dsimp only at ha
      split at ha <;> exact absurd ha (by simp)
    | field =>
      rw [hrole] at ha
      obtain ⟨rfl, m, hmem, hp, hk, hst, haccess⟩ := memberAccess_eq_found ha
      have hne : m ≠ t.owningMethod s := by
        rintro rfl
        rw [if_pos rfl] at haccess
        exact absurd haccess (by simp)
      have hmo := h.mem_path_owningMethod hmem (by rw [hk]; rfl)
      have howner := h.mem_path_trans
        (h.mem_path_of_parent hp (mem_path_self t r'.owner)) hmo
      refine ⟨rfl, howner, ?_, ?_, ?_, fun _ => ⟨m, hmem, hne, hp, hk, hst⟩⟩
      · intro heq
        rw [← heq] at hmo
        exact h.ne_of_mem_path_parent hp hmo rfl
      · refine Bool.eq_false_iff.mpr fun hreach => hne ?_
        exact h.eq_of_parent_eq hmem hown hp (reachesDirectly_parent hreach)
      · simp [hrole]
    | «nonlocal» =>
      have hd := (h.entries _ _ hm.declared).1
      unfold MayDeclare at hd
      rw [hrole] at hd
      split at hd <;> exact absurd hd (by simp [Role.usesSlot, Role.isMember])

end Scopes

end Unnest
