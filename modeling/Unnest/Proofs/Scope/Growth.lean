import Unnest.Proofs.Scope.Paths

/-!
# What each operation leaves

Every operation on scopes is described once, by what it leaves of every scope.  All of
them extend the table, and nothing below looks at the arrays again.
-/

namespace Unnest.Scopes

/-- Two states of a scope in which the same is declared and captured. -/
structure Agrees (s s' : Scope) : Prop where
  head : SameHead s s'
  entries : s'.entries = s.entries
  captures : s'.captures = s.captures
  types : s'.types = s.types

/-- Two states of a scope in which the same is declared. -/
structure SameNames (s s' : Scope) : Prop where
  entries : s'.entries = s.entries
  types : s'.types = s.types

variable {t t' : Scopes} {s j : ScopeId} {b b' : Binding}

theorem SameNames.trans {s s' s'' : Scope} (h : SameNames s s') (h' : SameNames s' s'') :
    SameNames s s'' :=
  ⟨h'.entries.trans h.entries, h'.types.trans h.types⟩

theorem Agrees.names {s s' : Scope} (h : Agrees s s') : SameNames s s' := ⟨h.entries, h.types⟩

theorem Agrees.refl (s : Scope) : Agrees s s := ⟨SameHead.refl s, rfl, rfl, rfl⟩

theorem Agrees.trans {s s' s'' : Scope} (h : Agrees s s') (h' : Agrees s' s'') : Agrees s s'' :=
  ⟨h.head.trans h'.head, h'.entries.trans h.entries, h'.captures.trans h.captures,
    h'.types.trans h.types⟩

theorem get_update_of_ne (h : s ≠ j) (f : Scope → Scope) : (t.update s f).get j = t.get j := by
  rw [get, get?_update, if_neg h, get]

theorem get_update_self (hs : t.Has s) (f : Scope → Scope) :
    (t.update s f).get s = f (t.get s) := by
  obtain ⟨x, hx⟩ : ∃ x, t.get? s = some x := ⟨_, Array.getElem?_eq_getElem hs⟩
  rw [get, get?_update, if_pos rfl, get, hx]
  rfl

/-- A change that changes nothing. -/
theorem update_eq_self {f : Scope → Scope} (h : t.Has s → f (t.get s) = t.get s) :
    t.update s f = t := by
  refine congrArg Scopes.mk (Array.ext_getElem? fun i => ?_)
  rw [Array.getElem?_modify]
  split
  · rename_i hi
    subst hi
    cases hx : t.scopes[s.index]? with
    | none => rfl
    | some x =>
      have hs : t.Has s := (Array.getElem?_eq_some_iff.mp hx).1
      have hget : t.get s = x := by
        rw [get, get?, hx]
        rfl
      have hf := h hs
      rw [hget] at hf
      exact congrArg some hf
  · rfl

/-- What a change does not touch stays the same everywhere. -/
theorem get_update_congr {α : Type} (g : Scope → α) {f : Scope → Scope}
    (hf : ∀ x, g (f x) = g x) (t : Scopes) (s j : ScopeId) :
    g ((t.update s f).get j) = g (t.get j) := by
  by_cases hj : s = j
  · subst hj
    by_cases hs : t.Has s
    · rw [get_update_self hs, hf]
    · rw [update_eq_self fun h => absurd h hs]
  · rw [get_update_of_ne hj]

theorem update_of_not_has (hs : ¬ t.Has s) (f : Scope → Scope) : t.update s f = t :=
  update_eq_self fun h => absurd h hs

theorem has_update {f : Scope → Scope} : (t.update s f).Has j ↔ t.Has j := by
  rw [Has, size_update, Has]

/-- A change to what is counted in a scope. -/
theorem agrees_update {f : Scope → Scope} (hf : ∀ x, Agrees x (f x)) (j : ScopeId) :
    Agrees (t.get j) ((t.update s f).get j) := by
  by_cases hj : s = j
  · subst hj
    by_cases hs : t.Has s
    · rw [get_update_self hs]
      exact hf _
    · rw [update_of_not_has hs]
      exact Agrees.refl _
  · rw [get_update_of_ne hj]
    exact Agrees.refl _

theorem extends_of_agrees (hsize : t.size ≤ t'.size)
    (h : ∀ j, t.Has j → Agrees (t.get j) (t'.get j)) : Extends t t' where
  size_le := hsize
  head j hj := (h j hj).head
  entries j hj := (h j hj).entries ▸ List.prefix_refl _
  captures j hj := (h j hj).captures ▸ List.prefix_refl _
  types j hj := (h j hj).types ▸ List.prefix_refl _

/-! ## Declaring -/

theorem agrees_takeSlot (t : Scopes) (s j : ScopeId) (b : Binding) :
    Agrees (t.get j) ((t.takeSlot s b).2.get j) := by
  rw [takeSlot]
  split
  · exact @agrees_update t _ (fun x => { x with numLocals := x.numLocals + 1 })
      (fun x => ⟨⟨rfl, rfl, rfl, rfl, rfl, rfl⟩, rfl, rfl, rfl⟩) j
  · exact Agrees.refl _

theorem size_takeSlot (t : Scopes) (s : ScopeId) (b : Binding) :
    (t.takeSlot s b).2.size = t.size := by
  rw [takeSlot]
  split
  · exact size_update _ _ _
  · rfl

theorem fst_takeSlot (t : Scopes) (s : ScopeId) (b : Binding) : (t.takeSlot s b).1 =
    { b with slot := if b.role.usesSlot then some (t.numLocals s) else b.slot } := by
  rw [takeSlot]
  split <;> rfl

/-- What an accepted declaration of a value leaves. -/
structure Declared (t : Scopes) (s : ScopeId) (b b' : Binding) (t' : Scopes) : Prop where
  binding_eq : b' = { b with slot := if b.role.usesSlot then some (t.numLocals s) else b.slot }
  fresh_value : (t.get s).binding? b.name = none
  fresh_type : (t.get s).type? b.name = none
  size_eq : t'.size = t.size
  agrees : ∀ j, s ≠ j → Agrees (t.get j) (t'.get j)
  head : SameHead (t.get s) (t'.get s)
  entries : t.Has s → (t'.get s).entries = (t.get s).entries ++ [b']
  captures : (t'.get s).captures = (t.get s).captures
  types : (t'.get s).types = (t.get s).types

theorem declared_of_declare {span : Span} (h : t.declare s b span = .ok (b', t')) :
    Declared t s b b' t' := by
  simp only [declare] at h
  split at h
  · exact absurd h (by simp)
  · rename_i hfresh
    rw [Bool.or_eq_true, not_or, Option.not_isSome_iff_eq_none, Option.not_isSome_iff_eq_none]
      at hfresh
    obtain ⟨rfl, rfl⟩ := Prod.mk.inj (Except.ok.inj h)
    have hself := agrees_takeSlot t s s b
    have hhas : (t.takeSlot s b).2.Has s ↔ t.Has s := by rw [Has, size_takeSlot, Has]
    refine ⟨fst_takeSlot t s b, hfresh.1, hfresh.2, by rw [size_update, size_takeSlot], ?_, ?_,
      ?_, ?_, ?_⟩
    · intro j hj
      rw [get_update_of_ne hj]
      exact agrees_takeSlot t s j b
    all_goals by_cases hs : t.Has s
    · rw [get_update_self (hhas.mpr hs)]
      exact hself.head.trans ⟨rfl, rfl, rfl, rfl, rfl, rfl⟩
    · rw [update_of_not_has (hhas.not.mpr hs)]
      exact hself.head
    · intro _
      rw [get_update_self (hhas.mpr hs)]
      exact congrArg (· ++ _) hself.entries
    · exact fun h => absurd h hs
    · rw [get_update_self (hhas.mpr hs)]
      exact hself.captures
    · rw [update_of_not_has (hhas.not.mpr hs)]
      exact hself.captures
    · rw [get_update_self (hhas.mpr hs)]
      exact hself.types
    · rw [update_of_not_has (hhas.not.mpr hs)]
      exact hself.types

theorem Declared.extends (h : Declared t s b b' t') : Extends t t' := by
  refine ⟨Nat.le_of_eq h.size_eq.symm, ?_, ?_, ?_, ?_⟩ <;> intro j hj <;>
    rcases eq_or_ne s j with rfl | hne
  · exact h.head
  · exact (h.agrees j hne).head
  · exact h.entries hj ▸ List.prefix_append _ _
  · exact (h.agrees j hne).entries ▸ List.prefix_refl _
  · exact h.captures ▸ List.prefix_refl _
  · exact (h.agrees j hne).captures ▸ List.prefix_refl _
  · exact h.types ▸ List.prefix_refl _
  · exact (h.agrees j hne).types ▸ List.prefix_refl _

theorem Declared.captures_eq (h : Declared t s b b' t') (j : ScopeId) :
    (t'.get j).captures = (t.get j).captures := by
  rcases eq_or_ne s j with rfl | hne
  · exact h.captures
  · exact (h.agrees j hne).captures

theorem Declared.types_eq (h : Declared t s b b' t') (j : ScopeId) :
    (t'.get j).types = (t.get j).types := by
  rcases eq_or_ne s j with rfl | hne
  · exact h.types
  · exact (h.agrees j hne).types

/-- The only new entry is the binding that was declared. -/
theorem Declared.mem_entries (h : Declared t s b b' t') (hs : t.Has s) {x : Binding}
    (hx : x ∈ (t'.get j).entries) : x ∈ (t.get j).entries ∨ s = j ∧ x = b' := by
  rcases eq_or_ne s j with rfl | hne
  · rw [h.entries hs, List.mem_append, List.mem_singleton] at hx
    exact hx.imp_right fun heq => ⟨rfl, heq⟩
  · rw [(h.agrees j hne).entries] at hx
    exact Or.inl hx

/-- Entries and slots are all that a declaration changes. -/
theorem get_declare_congr {α : Type} (g : Scope → α) (hentries : ∀ x es, g { x with entries := es } = g x)
    (hslots : ∀ x n, g { x with numLocals := n } = g x) {span : Span}
    (h : t.declare s b span = .ok (b', t')) (j : ScopeId) : g (t'.get j) = g (t.get j) := by
  simp only [declare] at h
  split at h
  · exact absurd h (by simp)
  · obtain ⟨-, rfl⟩ := Prod.mk.inj (Except.ok.inj h)
    rw [get_update_congr g fun x => hentries x _, takeSlot]
    split
    · exact get_update_congr g (fun x => hslots x _) t _ j
    · rfl

/-- What an accepted declaration of a type leaves. -/
structure TypeDeclared (t : Scopes) (s : ScopeId) (name : String) (type : TypeId)
    (t' : Scopes) : Prop where
  fresh_type : (t.get s).type? name = none
  fresh_value : (t.get s).binding? name = none
  size_eq : t'.size = t.size
  agrees : ∀ j, s ≠ j → Agrees (t.get j) (t'.get j)
  head : SameHead (t.get s) (t'.get s)
  entries : (t'.get s).entries = (t.get s).entries
  captures : (t'.get s).captures = (t.get s).captures
  types : t.Has s → (t'.get s).types = (t.get s).types ++ [(name, type)]

theorem typeDeclared_of_declareType {name : String} {type : TypeId} {span : Span}
    (h : t.declareType s name type span = .ok t') : TypeDeclared t s name type t' := by
  simp only [declareType] at h
  split at h
  · exact absurd h (by simp)
  · split at h
    · exact absurd h (by simp)
    · rename_i htype hvalue
      rw [Option.not_isSome_iff_eq_none] at htype hvalue
      rw [← Except.ok.inj h]
      refine ⟨htype, hvalue, size_update _ _ _, ?_, ?_, ?_, ?_, ?_⟩
      · intro j hj
        rw [get_update_of_ne hj]
        exact Agrees.refl _
      all_goals by_cases hs : t.Has s
      · rw [get_update_self hs]
        exact ⟨rfl, rfl, rfl, rfl, rfl, rfl⟩
      · rw [update_of_not_has hs]
        exact SameHead.refl _
      · rw [get_update_self hs]
      · rw [update_of_not_has hs]
      · rw [get_update_self hs]
      · rw [update_of_not_has hs]
      · exact fun _ => by rw [get_update_self hs]
      · exact fun h => absurd h hs

/-- Types are all that the declaration of a type changes. -/
theorem get_declareType_congr {α : Type} (g : Scope → α) (htypes : ∀ x ts, g { x with types := ts } = g x)
    {name : String} {type : TypeId} {span : Span} (h : t.declareType s name type span = .ok t')
    (j : ScopeId) : g (t'.get j) = g (t.get j) := by
  simp only [declareType] at h
  split at h
  · exact absurd h (by simp)
  · split at h
    · exact absurd h (by simp)
    · rw [← Except.ok.inj h]
      exact get_update_congr g (fun x => htypes x _) t s j

theorem TypeDeclared.extends {name : String} {type : TypeId} (h : TypeDeclared t s name type t') :
    Extends t t' := by
  refine ⟨Nat.le_of_eq h.size_eq.symm, ?_, ?_, ?_, ?_⟩ <;> intro j hj <;>
    rcases eq_or_ne s j with rfl | hne
  · exact h.head
  · exact (h.agrees j hne).head
  · exact h.entries ▸ List.prefix_refl _
  · exact (h.agrees j hne).entries ▸ List.prefix_refl _
  · exact h.captures ▸ List.prefix_refl _
  · exact (h.agrees j hne).captures ▸ List.prefix_refl _
  · exact h.types hj ▸ List.prefix_append _ _
  · exact (h.agrees j hne).types ▸ List.prefix_refl _

theorem TypeDeclared.captures_eq {name : String} {type : TypeId}
    (h : TypeDeclared t s name type t') (j : ScopeId) :
    (t'.get j).captures = (t.get j).captures := by
  rcases eq_or_ne s j with rfl | hne
  · exact h.captures
  · exact (h.agrees j hne).captures

theorem TypeDeclared.entries_eq {name : String} {type : TypeId}
    (h : TypeDeclared t s name type t') (j : ScopeId) :
    (t'.get j).entries = (t.get j).entries := by
  rcases eq_or_ne s j with rfl | hne
  · exact h.entries
  · exact (h.agrees j hne).entries

/-! ## Opening -/

/-- Opens a scope that may belong to a type. -/
def openMember (t : Scopes) (parent : ScopeId) (kind : ScopeKind) (name : String)
    (unit : UnitId) (memberOf : Option TypeId) (isStatic : Bool) : Scopes :=
  (t.openScope parent kind name unit).2.markMember ⟨t.size⟩ memberOf isStatic

section Opening

variable (t) (parent : ScopeId) (kind : ScopeKind) (name : String) (unit : UnitId)
  (memberOf : Option TypeId) (isStatic : Bool)

@[simp] theorem size_openMember :
    (t.openMember parent kind name unit memberOf isStatic).size = t.size + 1 := by
  rw [openMember, markMember, size_update, size_openScope]

theorem agrees_openScope_new : Agrees (Scope.empty (some parent) kind name unit)
    ((t.openScope parent kind name unit).2.get ⟨t.size⟩) := by
  have hpush : (⟨t.scopes.push (.empty (some parent) kind name unit)⟩ : Scopes).get ⟨t.size⟩ =
      Scope.empty (some parent) kind name unit := by
    rw [get, get?, Array.getElem?_push]
    exact congrArg (Option.getD · default) (if_pos rfl)
  rw [openScope]
  dsimp only
  have h := @agrees_update ⟨t.scopes.push (.empty (some parent) kind name unit)⟩ parent
    (fun s => { s with children := s.children ++ [⟨t.size⟩] })
    (fun x => ⟨⟨rfl, rfl, rfl, rfl, rfl, rfl⟩, rfl, rfl, rfl⟩) ⟨t.size⟩
  rwa [hpush] at h

theorem get_push_old (hj : t.Has j) (x : Scope) :
    (⟨t.scopes.push x⟩ : Scopes).get j = t.get j := by
  rw [get, get?, Array.getElem?_push, get, get?]
  exact congrArg (Option.getD · default) (if_neg (Nat.ne_of_lt hj))

variable {t} in
/-- Of the scopes that there are, opening one changes the list of those inside. -/
theorem get_openScope_congr {α : Type} (g : Scope → α)
    (hg : ∀ x cs, g { x with children := cs } = g x) (hj : t.Has j) :
    g ((t.openScope parent kind name unit).2.get j) = g (t.get j) := by
  rw [← get_push_old t hj (.empty (some parent) kind name unit)]
  exact get_update_congr g (fun x => hg x _) _ parent j

/-- A new scope has no scopes inside. -/
theorem children_get_push : ((⟨t.scopes.push (.empty (some parent) kind name unit)⟩ :
    Scopes).get j).children = (t.get j).children := by
  by_cases hj : t.Has j
  · rw [get_push_old t hj]
  · rw [get_of_not_has hj, get, get?, Array.getElem?_push]
    split
    · rfl
    · rw [Array.getElem?_eq_none (Nat.le_of_not_lt hj)]
      rfl

variable {t parent kind name unit} in
/-- Inside the scope around it, the scope that is opened comes last. -/
theorem children_get_openScope (hp : t.Has parent) (j : ScopeId) :
    ((t.openScope parent kind name unit).2.get j).children =
      (t.get j).children ++ if parent = j then [⟨t.size⟩] else [] := by
  have hs : (⟨t.scopes.push (.empty (some parent) kind name unit)⟩ : Scopes).Has parent := by
    rw [Has, size, Array.size_push]
    exact Nat.lt_succ_of_lt hp
  rw [openScope, ← children_get_push t parent kind name unit]
  dsimp only
  split
  · rename_i hj
    subst hj
    rw [get_update_self hs]
  · rename_i hj
    rw [get_update_of_ne hj, List.append_nil]

variable {t parent kind name unit} in
/-- The scope that is opened is the only new one inside another. -/
theorem children_openScope {c : ScopeId}
    (hc : c ∈ ((t.openScope parent kind name unit).2.get j).children) :
    c ∈ (t.get j).children ∨ c = ⟨t.size⟩ := by
  rw [← children_get_push t parent kind name unit]
  rw [openScope] at hc
  dsimp only at hc
  by_cases hj : parent = j
  · subst hj
    by_cases hs : (⟨t.scopes.push (.empty (some parent) kind name unit)⟩ : Scopes).Has parent
    · rw [get_update_self hs] at hc
      exact (List.mem_append.mp hc).imp_right List.mem_singleton.mp
    · rw [update_of_not_has hs] at hc
      exact Or.inl hc
  · rw [get_update_of_ne hj] at hc
    exact Or.inl hc

theorem agrees_openScope_old (hj : t.Has j) :
    Agrees (t.get j) ((t.openScope parent kind name unit).2.get j) := by
  have hpush := get_push_old t hj (.empty (some parent) kind name unit)
  rw [openScope]
  dsimp only
  have h := @agrees_update ⟨t.scopes.push (.empty (some parent) kind name unit)⟩ parent
    (fun s => { s with children := s.children ++ [⟨t.size⟩] })
    (fun x => ⟨⟨rfl, rfl, rfl, rfl, rfl, rfl⟩, rfl, rfl, rfl⟩) j
  rwa [hpush] at h

/-- The new scope is empty and belongs where it should. -/
theorem agrees_openMember_new :
    Agrees { Scope.empty (some parent) kind name unit with memberOf, isStatic }
      ((t.openMember parent kind name unit memberOf isStatic).get ⟨t.size⟩) := by
  have hhas : (t.openScope parent kind name unit).2.Has ⟨t.size⟩ := by
    rw [Has, size_openScope]
    exact Nat.lt_succ_self _
  have h := agrees_openScope_new t parent kind name unit
  rw [openMember, markMember, get_update_self hhas]
  exact ⟨⟨h.head.parent, h.head.kind, h.head.name, h.head.unit, rfl, rfl⟩, h.entries, h.captures,
    h.types⟩

theorem agrees_openMember_old (hj : t.Has j) :
    Agrees (t.get j) ((t.openMember parent kind name unit memberOf isStatic).get j) := by
  have hne : (⟨t.size⟩ : ScopeId) ≠ j := by
    rintro rfl
    exact Nat.lt_irrefl _ hj
  rw [openMember, markMember, get_update_of_ne hne]
  exact agrees_openScope_old t parent kind name unit hj

/-- A scope that is opened and not marked belongs to no type. -/
theorem openMember_none : t.openMember parent kind name unit none false =
    (t.openScope parent kind name unit).2 := by
  rw [openMember, markMember]
  refine update_eq_self fun _ => ?_
  obtain ⟨⟨-, -, -, -, hm, hs⟩, -⟩ := agrees_openScope_new t parent kind name unit
  rw [show (none : Option TypeId) = _ from hm.symm, show false = _ from hs.symm]

variable {t parent kind name unit memberOf isStatic} in
theorem eq_of_has_openMember
    (hj : (t.openMember parent kind name unit memberOf isStatic).Has j) (hold : ¬ t.Has j) :
    j = ⟨t.size⟩ := by
  obtain ⟨i⟩ := j
  rw [Has, size_openMember] at hj
  rw [Has] at hold
  dsimp only at hj hold
  rw [show i = t.size by omega]

theorem extends_openMember :
    Extends t (t.openMember parent kind name unit memberOf isStatic) :=
  extends_of_agrees (by rw [size_openMember]; exact Nat.le_succ _) fun _ hj =>
    agrees_openMember_old t parent kind name unit memberOf isStatic hj

end Opening

theorem agrees_nextBlockName (t : Scopes) (s j : ScopeId) :
    Agrees (t.get j) ((t.nextBlockName s).2.get j) :=
  @agrees_update t s (fun x => { x with blockCount := x.blockCount + 1 })
    (fun _ => ⟨⟨rfl, rfl, rfl, rfl, rfl, rfl⟩, rfl, rfl, rfl⟩) j

theorem size_nextBlockName (t : Scopes) (s : ScopeId) : (t.nextBlockName s).2.size = t.size :=
  size_update _ _ _

/-! ## Capturing -/

theorem size_foldl_pushCapture (c : Capture) (ds : List ScopeId) (t : Scopes) :
    (ds.foldl (pushCapture c) t).size = t.size := by
  induction ds generalizing t with
  | nil => rfl
  | cons d ds ih => rw [List.foldl_cons, ih, pushCapture, size_update]

theorem get_foldl_pushCapture_congr {α : Type} (g : Scope → α)
    (hg : ∀ x cs, g { x with captures := cs } = g x) (c : Capture) (ds : List ScopeId)
    (t : Scopes) (j : ScopeId) : g ((ds.foldl (pushCapture c) t).get j) = g (t.get j) := by
  induction ds generalizing t with
  | nil => rfl
  | cons d ds ih =>
    rw [List.foldl_cons, ih]
    exact get_update_congr g (fun x => hg x _) t d j

/-- Captures are all that recording a use changes. -/
theorem get_capture_congr {α : Type} (g : Scope → α)
    (hg : ∀ x cs, g { x with captures := cs } = g x) (t : Scopes) (s : ScopeId) (b : Binding)
    (owner j : ScopeId) : g ((t.capture s b owner).get j) = g (t.get j) :=
  get_foldl_pushCapture_congr g hg _ _ t j

/-- What recording a capture on some scopes leaves. -/
structure Captured (t : Scopes) (c : Capture) (ds : List ScopeId) (t' : Scopes) : Prop where
  size_eq : t'.size = t.size
  head : ∀ j, SameHead (t.get j) (t'.get j)
  entries : ∀ j, (t'.get j).entries = (t.get j).entries
  types : ∀ j, (t'.get j).types = (t.get j).types
  captures_new : ∀ j ∈ ds, t.Has j → (t'.get j).captures = (t.get j).captures ++ [c]
  captures_old : ∀ j ∉ ds, (t'.get j).captures = (t.get j).captures

theorem captured_foldl (c : Capture) {ds : List ScopeId} (hds : ds.Nodup) (t : Scopes) :
    Captured t c ds (ds.foldl (pushCapture c) t) := by
  induction ds generalizing t with
  | nil =>
    exact ⟨rfl, fun _ => SameHead.refl _, fun _ => rfl, fun _ => rfl,
      fun j hj => absurd hj List.not_mem_nil, fun _ _ => rfl⟩
  | cons d ds ih =>
    rw [List.nodup_cons] at hds
    have hrest := ih hds.2 (pushCapture c t d)
    have hne : ∀ j, d ≠ j → (pushCapture c t d).get j = t.get j := fun j hj =>
      get_update_of_ne hj _
    have hfirst : ∀ j, SameHead (t.get j) ((pushCapture c t d).get j) ∧
        ((pushCapture c t d).get j).entries = (t.get j).entries ∧
        ((pushCapture c t d).get j).types = (t.get j).types := by
      intro j
      by_cases hj : d = j
      · subst hj
        by_cases hd : t.Has d
        · rw [pushCapture, get_update_self hd]
          exact ⟨⟨rfl, rfl, rfl, rfl, rfl, rfl⟩, rfl, rfl⟩
        · rw [pushCapture, update_of_not_has hd]
          exact ⟨SameHead.refl _, rfl, rfl⟩
      · rw [hne j hj]
        exact ⟨SameHead.refl _, rfl, rfl⟩
    rw [List.foldl_cons]
    refine ⟨hrest.size_eq.trans (size_update _ _ _), fun j => (hfirst j).1.trans (hrest.head j),
      fun j => (hrest.entries j).trans (hfirst j).2.1,
      fun j => (hrest.types j).trans (hfirst j).2.2, ?_, ?_⟩
    · intro j hj hhas
      rcases List.mem_cons.mp hj with rfl | hj
      · rw [hrest.captures_old j hds.1, pushCapture, get_update_self hhas]
      · have hdj : d ≠ j := fun h => hds.1 (h ▸ hj)
        rw [hrest.captures_new j hj (has_update.mpr hhas), hne j hdj]
    · intro j hj
      rw [List.mem_cons, not_or] at hj
      rw [hrest.captures_old j hj.2, hne j (Ne.symm hj.1)]

theorem Captured.extends {c : Capture} {ds : List ScopeId} (h : Captured t c ds t') :
    Extends t t' := by
  refine ⟨Nat.le_of_eq h.size_eq.symm, fun j _ => h.head j,
    fun j _ => h.entries j ▸ List.prefix_refl _, fun j hj => ?_,
    fun j _ => h.types j ▸ List.prefix_refl _⟩
  by_cases hd : j ∈ ds
  · exact h.captures_new j hd hj ▸ List.prefix_append _ _
  · exact h.captures_old j hd ▸ List.prefix_refl _

/-- Captures declare nothing. -/
theorem sameNames_capture (t : Scopes) (s : ScopeId) (b : Binding) (owner x : ScopeId) :
    SameNames (t.get x) ((t.capture s b owner).get x) := by
  rw [capture]
  generalize t.captureSites s b owner = ds
  induction ds generalizing t with
  | nil => exact ⟨rfl, rfl⟩
  | cons d ds ih =>
    have hd := captured_foldl ⟨b, owner⟩ (List.nodup_singleton d) t
    exact SameNames.trans ⟨hd.entries x, hd.types x⟩ (ih (pushCapture ⟨b, owner⟩ t d))

end Unnest.Scopes
