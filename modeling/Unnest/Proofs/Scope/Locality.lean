import Unnest.Proofs.Scope.Growth

/-!
# Where scopes change

A walk that starts in a scope declares there and in the scopes that it opens, and nowhere
else.  A `Horizon` says where such a walk started: in which scope, and how many scopes there
were.  It *owns* the scope that it started in and every scope that was opened since.

The scopes that a horizon does not own keep everything but their captures
(`Scopes.Local`), and their count of slots as well, except for the method that the walk
started in.  Captures are only added, and only around the scope that the walk started in.
This needs that scopes are opened inside of what is owned (`Scopes.Confined`), and nothing
else about the tree.  What is opened is then inside of the scope that the walk started in
(`Scopes.Confined.mem_path`).
-/

namespace Unnest

/-- Where a walk started. -/
structure Horizon where
  scope : ScopeId
  /-- How many scopes there were. -/
  scopes : Nat
  /-- How many types there were. -/
  types : Nat
  /-- How many scopes there are by now, or fewer. -/
  opened : Nat := 0

namespace Horizon

variable {h : Horizon} {s : ScopeId} {n : Nat}

/-- The scopes that a walk may declare in. -/
def Owns (h : Horizon) (s : ScopeId) : Prop := s = h.scope ∨ h.scopes ≤ s.index

/-- The same start, when so many scopes have been opened. -/
def upto (h : Horizon) (n : Nat) : Horizon := { h with opened := n }

/-- The scopes that were opened since, and that a walk may enter. -/
structure Reaches (h : Horizon) (s : ScopeId) : Prop where
  new : h.scopes ≤ s.index
  opened : s.index < h.opened

theorem Reaches.owns (hs : h.Reaches s) : h.Owns s := Or.inr hs.new

theorem Reaches.upto (hs : h.Reaches s) (hn : h.opened ≤ n) : (h.upto n).Reaches s :=
  ⟨hs.new, hs.opened.trans_le hn⟩

end Horizon

/-- A scope without what uses of names leave there and without its count of slots. -/
def Scope.core (s : Scope) : Scope := { s with captures := [], numLocals := 0 }

namespace Scopes

variable {h : Horizon} {t t' t'' : Scopes} {s j p : ScopeId}

/-! ## Paths -/

theorem path_of_parent_lt (hp : t.parent s = some p) (hlt : p.index < s.index) :
    t.path s = s :: t.path p := by
  rw [path, pathWithin, hp]
  dsimp only
  rw [if_pos hlt, path, pathWithin_eq t hlt (Nat.lt_succ_self _)]

/-- A path does not depend on what is further inside. -/
theorem pathWithin_congr {n : Nat} (hp : ∀ j : ScopeId, j.index ≤ s.index → t'.parent j = t.parent j) :
    t'.pathWithin n s = t.pathWithin n s := by
  induction n generalizing s with
  | zero => rfl
  | succ n ih =>
    rw [pathWithin, pathWithin, hp s (Nat.le_refl _)]
    cases t.parent s with
    | none => rfl
    | some p =>
      dsimp only
      split
      · rename_i hlt
        rw [ih fun j hj => hp j (hj.trans hlt.le)]
      · rfl

theorem uptoMethod_congr {xs : List ScopeId} (hk : ∀ j ∈ xs, (t'.get j).kind = (t.get j).kind) :
    t'.uptoMethod xs = t.uptoMethod xs := by
  induction xs with
  | nil => rfl
  | cons x xs ih =>
    rw [List.forall_mem_cons] at hk
    rw [uptoMethod, uptoMethod, hk.1, ih hk.2]

theorem methodPath_congr (hp : ∀ j : ScopeId, j.index ≤ s.index → t'.parent j = t.parent j)
    (hk : ∀ j : ScopeId, j.index ≤ s.index → (t'.get j).kind = (t.get j).kind) :
    t'.methodPath s = t.methodPath s := by
  rw [methodPath, path, pathWithin_congr hp, ← path]
  exact uptoMethod_congr fun j hj => hk j (index_le_of_mem_path hj)

/-! ## Confined trees -/

/-- What was opened since is inside of what is owned. -/
structure Confined (h : Horizon) (t : Scopes) : Prop where
  has : h.scope.index < h.scopes
  size_le : h.scopes ≤ t.size
  opened_le : h.opened ≤ t.size
  opened : ∀ j, h.scopes ≤ j.index → t.Has j →
    ∃ p, t.parent j = some p ∧ h.Owns p ∧ p.index < j.index

theorem Confined.parents (hc : Confined h t) (hj : h.scopes ≤ j.index)
    (hp : t.parent j = some p) : h.Owns p ∧ p.index < j.index := by
  obtain ⟨p', hp', hspec⟩ := hc.opened j hj (has_of_parent hp)
  exact Option.some.inj (hp'.symm.trans hp) ▸ hspec

theorem Confined.has_of_reaches (hc : Confined h t) (hs : h.Reaches s) : t.Has s :=
  hs.opened.trans_le hc.opened_le

/-- What was opened since is inside of the scope that the walk started in. -/
theorem Confined.mem_path (hc : Confined h t) (hj : h.scopes ≤ j.index) (hhas : t.Has j) :
    h.scope ∈ t.path j := by
  obtain ⟨i⟩ := j
  induction i using Nat.strong_induction_on with
  | _ i ih =>
    obtain ⟨p, hp, howns, hlt⟩ := hc.opened _ hj hhas
    rw [path_of_parent_lt hp hlt]
    refine List.mem_cons_of_mem _ ?_
    rcases howns with rfl | hnew
    · exact mem_path_self t h.scope
    · exact ih p.index hlt hnew (Nat.lt_trans hlt hhas)

/-- The path of an owned scope is owned up to the scope that the walk started in. -/
theorem Confined.path_cases (hc : Confined h t) (hs : h.Owns s) :
    ∀ j ∈ t.path s, h.Owns j ∨ j ∈ t.path h.scope := by
  obtain ⟨i⟩ := s
  induction i using Nat.strong_induction_on with
  | _ i ih =>
    rcases hs with hs | hs
    · rw [hs]
      exact fun j hj => Or.inr hj
    · cases hp : t.parent ⟨i⟩ with
      | none =>
        rw [path_of_root hp]
        exact List.forall_mem_singleton.mpr (Or.inl (Or.inr hs))
      | some p =>
        obtain ⟨howns, hlt⟩ := hc.parents hs hp
        rw [path_of_parent_lt hp hlt]
        exact List.forall_mem_cons.mpr ⟨Or.inl (Or.inr hs), ih p.index hlt howns⟩

/-- The method path of an owned scope is owned up to the one that the walk started in. -/
theorem Confined.methodPath_cases (hc : Confined h t) (hs : h.Owns s) :
    ∀ j ∈ t.methodPath s, h.Owns j ∨ j ∈ t.methodPath h.scope := by
  obtain ⟨i⟩ := s
  induction i using Nat.strong_induction_on with
  | _ i ih =>
    rcases hs with hs | hs
    · rw [hs]
      exact fun j hj => Or.inr hj
    · rw [methodPath]
      cases hp : t.parent ⟨i⟩ with
      | none =>
        rw [path_of_root hp, uptoMethod, uptoMethod, ite_self]
        exact List.forall_mem_singleton.mpr (Or.inl (Or.inr hs))
      | some p =>
        obtain ⟨howns, hlt⟩ := hc.parents hs hp
        rw [path_of_parent_lt hp hlt, uptoMethod]
        intro j hj
        rcases List.mem_cons.mp hj with rfl | hj
        · exact Or.inl (Or.inr hs)
        · split at hj
          · exact absurd hj List.not_mem_nil
          · exact ih p.index hlt howns j hj

theorem owningMethod_of_parent_lt (hk : (t.get s).kind.ownsMethod = false)
    (hp : t.parent s = some p) (hlt : p.index < s.index) :
    t.owningMethod s = t.owningMethod p := by
  obtain ⟨rest, hrest⟩ : ∃ rest, t.path p = p :: rest := by
    rw [path, pathWithin]
    exact ⟨_, rfl⟩
  obtain ⟨d, ds, hds⟩ := List.exists_cons_of_ne_nil (uptoMethod_ne_nil t p rest)
  rw [owningMethod, methodPath, path_of_parent_lt hp hlt, uptoMethod, hk,
    if_neg Bool.false_ne_true, hrest, hds, List.getLast?_cons_cons, ← hds, owningMethod,
    methodPath, hrest, hds, List.getLast?_cons, Option.getD_some, Option.getD_some]

/-- The method of an owned scope is new, or it is the one that the walk started in. -/
theorem Confined.owningMethod_cases (hc : Confined h t) (hs : h.Owns s) :
    t.owningMethod s = t.owningMethod h.scope ∨ h.scopes ≤ (t.owningMethod s).index := by
  obtain ⟨i⟩ := s
  induction i using Nat.strong_induction_on with
  | _ i ih =>
    rcases hs with hs' | hs'
    · exact Or.inl (by rw [hs'])
    · have hself : t.owningMethod ⟨i⟩ = ⟨i⟩ → t.owningMethod ⟨i⟩ = t.owningMethod h.scope ∨
          h.scopes ≤ (t.owningMethod ⟨i⟩).index := fun heq => Or.inr (heq.symm ▸ hs')
      cases hk : (t.get ⟨i⟩).kind.ownsMethod with
      | true => exact hself (owningMethod_of_owns hk)
      | false =>
        cases hp : t.parent ⟨i⟩ with
        | none => exact hself (owningMethod_of_root hp)
        | some p =>
          obtain ⟨howns, hlt⟩ := hc.parents hs' hp
          rw [owningMethod_of_parent_lt hk hp hlt]
          exact ih p.index hlt howns

/-! ## Changes -/

/-- Scopes that are not owned keep everything but their captures, and only the method that
the walk started in may take more slots.  Nothing that was captured is forgotten, and of the
scopes that were there only those around the start capture more. -/
structure Local (h : Horizon) (t t' : Scopes) : Prop where
  size_le : t.size ≤ t'.size
  core : ∀ j, ¬ h.Owns j → (t'.get j).core = (t.get j).core
  slots : ∀ j : ScopeId, j.index < h.scopes → j ≠ t.owningMethod h.scope →
    (t'.get j).numLocals = (t.get j).numLocals
  slots_le : ∀ j : ScopeId, j.index < h.scopes → (t.get j).numLocals ≤ (t'.get j).numLocals
  captures : ∀ j : ScopeId, j.index < h.scopes → (t.get j).captures <+: (t'.get j).captures
  around : ∀ j : ScopeId, j.index < h.scopes → j ∉ t.path h.scope →
    (t'.get j).captures = (t.get j).captures
  parent : t'.parent h.scope = t.parent h.scope
  kind : (t'.get h.scope).kind = (t.get h.scope).kind

namespace Local

theorem refl (h : Horizon) (t : Scopes) : Local h t t :=
  ⟨Nat.le_refl _, fun _ _ => rfl, fun _ _ _ => rfl, fun _ _ => Nat.le_refl _,
    fun _ _ => List.prefix_refl _, fun _ _ _ => rfl, rfl, rfl⟩

theorem of_upto {n : Nat} (hl : Local (h.upto n) t t') : Local h t t' :=
  ⟨hl.size_le, hl.core, hl.slots, hl.slots_le, hl.captures, hl.around, hl.parent, hl.kind⟩

theorem parent_eq (hl : Local h t t') (hj : j.index < h.scopes) :
    t'.parent j = t.parent j := by
  by_cases heq : j = h.scope
  · rw [heq, hl.parent]
  · have hparent := congrArg Scope.parent
      (hl.core j fun ho => (ho.resolve_left heq).not_gt hj)
    exact hparent

theorem kind_eq (hl : Local h t t') (hj : j.index < h.scopes) :
    (t'.get j).kind = (t.get j).kind := by
  by_cases heq : j = h.scope
  · rw [heq, hl.kind]
  · have hkind := congrArg Scope.kind (hl.core j fun ho => (ho.resolve_left heq).not_gt hj)
    exact hkind

/-- Scopes that were there have the methods around them that they had. -/
theorem methodPath_eq (hl : Local h t t') (hs : s.index < h.scopes) :
    t'.methodPath s = t.methodPath s :=
  methodPath_congr (fun _ hj => hl.parent_eq (hj.trans_lt hs)) fun _ hj =>
    hl.kind_eq (hj.trans_lt hs)

theorem path_eq (hl : Local h t t') (hs : s.index < h.scopes) : t'.path s = t.path s :=
  pathWithin_congr fun _ hj => hl.parent_eq (hj.trans_lt hs)

theorem trans (hl : Local h t t') (hl' : Local h t' t'') (hc : Confined h t) : Local h t t'' where
  size_le := hl.size_le.trans hl'.size_le
  core j hj := (hl'.core j hj).trans (hl.core j hj)
  slots j hj hne := by
    refine (hl'.slots j hj ?_).trans (hl.slots j hj hne)
    rwa [owningMethod, hl.methodPath_eq hc.has]
  slots_le j hj := (hl.slots_le j hj).trans (hl'.slots_le j hj)
  captures j hj := (hl.captures j hj).trans (hl'.captures j hj)
  around j hj hnot := by
    refine (hl'.around j hj ?_).trans (hl.around j hj hnot)
    rwa [hl.path_eq hc.has]
  parent := hl'.parent.trans hl.parent
  kind := hl'.kind.trans hl.kind

/-- A change of an owned scope. -/
theorem update (hs : h.Owns s) {f : Scope → Scope} (hp : ∀ x, (f x).parent = x.parent)
    (hk : ∀ x, (f x).kind = x.kind) (hn : ∀ x, (f x).numLocals = x.numLocals)
    (hcs : ∀ x, (f x).captures = x.captures) : Local h t (t.update s f) := by
  have hget : ∀ j, ¬ h.Owns j → (t.update s f).get j = t.get j := fun j hj =>
    get_update_of_ne (by rintro rfl; exact hj hs) f
  have hslots : ∀ j, ((t.update s f).get j).numLocals = (t.get j).numLocals :=
    get_update_congr Scope.numLocals hn t s
  have hcaptures : ∀ j, ((t.update s f).get j).captures = (t.get j).captures :=
    get_update_congr Scope.captures hcs t s
  refine ⟨(size_update t s f).ge, fun j hj => by rw [hget j hj], fun j _ _ => hslots j,
    fun j _ => (hslots j).ge, fun j _ => ?_, fun j _ _ => hcaptures j,
    get_update_congr Scope.parent hp t s _, get_update_congr Scope.kind hk t s _⟩
  rw [hcaptures j]

end Local

/-- The tree stays confined where it is as it was. -/
theorem Confined.congr (hc : Confined h t) (hsize : t'.size = t.size)
    (hp : ∀ j, t'.parent j = t.parent j) : Confined h t' where
  has := hc.has
  size_le := hsize ▸ hc.size_le
  opened_le := hsize ▸ hc.opened_le
  opened j hj hhas := by
    rw [Has, hsize] at hhas
    rw [hp]
    exact hc.opened j hj hhas

theorem Confined.upto {n : Nat} (hc : Confined h t) (hn : n ≤ t.size) : Confined (h.upto n) t :=
  ⟨hc.has, hc.size_le, hn, hc.opened⟩

theorem Confined.of_upto {n : Nat} (hc : Confined (h.upto n) t) (hle : h.opened ≤ t.size) :
    Confined h t := ⟨hc.has, hc.size_le, hle, hc.opened⟩

theorem Confined.update (hc : Confined h t) {f : Scope → Scope}
    (hp : ∀ x, (f x).parent = x.parent) : Confined h (t.update s f) :=
  hc.congr (size_update t s f) (get_update_congr Scope.parent hp t s)

theorem mem_path_of_mem_captureSites {b : Binding} {owner : ScopeId}
    (hj : j ∈ t.captureSites s b owner) : j ∈ t.path s := by
  rw [captureSites] at hj
  split at hj
  · exact absurd hj List.not_mem_nil
  · rename_i x rest hpath
    rw [hpath]
    dsimp only at hj
    split at hj
    · exact absurd hj List.not_mem_nil
    · exact ((List.takeWhile_sublist _).cons_cons x).subset hj

theorem captures_pushCapture_prefix (c : Capture) (ds : List ScopeId) (t : Scopes) (j : ScopeId) :
    (t.get j).captures <+: ((ds.foldl (pushCapture c) t).get j).captures := by
  induction ds generalizing t with
  | nil => exact List.prefix_refl _
  | cons d ds ih =>
    refine List.IsPrefix.trans ?_ (ih (pushCapture c t d))
    by_cases hj : d = j
    · subst hj
      by_cases hd : t.Has d
      · rw [pushCapture, get_update_self hd]
        exact List.prefix_append _ _
      · rw [pushCapture, update_of_not_has hd]
    · rw [pushCapture, get_update_of_ne hj]

theorem captures_pushCapture_of_not_mem (c : Capture) {ds : List ScopeId} (hj : j ∉ ds)
    (t : Scopes) : ((ds.foldl (pushCapture c) t).get j).captures = (t.get j).captures := by
  induction ds generalizing t with
  | nil => rfl
  | cons d ds ih =>
    rw [List.mem_cons, not_or] at hj
    rw [List.foldl_cons, ih hj.2, pushCapture, get_update_of_ne (Ne.symm hj.1)]

/-- A use in an owned scope is recorded on the way out from there. -/
theorem local_capture (hc : Confined h t) (hs : h.Owns s) (b : Binding) (owner : ScopeId) :
    Local h t (t.capture s b owner) := by
  have hslots : ∀ j, ((t.capture s b owner).get j).numLocals = (t.get j).numLocals :=
    get_capture_congr Scope.numLocals (fun _ _ => rfl) t s b owner
  refine ⟨(size_foldl_pushCapture _ _ t).ge,
    fun j _ => get_capture_congr Scope.core (fun _ _ => rfl) t s b owner j,
    fun j _ _ => hslots j, fun j _ => (hslots j).ge,
    fun j _ => captures_pushCapture_prefix _ _ t j, fun j hj hnot => ?_,
    get_capture_congr Scope.parent (fun _ _ => rfl) t s b owner _,
    get_capture_congr Scope.kind (fun _ _ => rfl) t s b owner _⟩
  refine captures_pushCapture_of_not_mem _ (fun hmem => hnot ?_) t
  refine (hc.path_cases hs j (mem_path_of_mem_captureSites hmem)).resolve_left ?_
  rintro (rfl | hnew)
  · exact hnot (mem_path_self t _)
  · exact Nat.not_lt_of_le hnew hj

theorem Confined.capture (hc : Confined h t) (s : ScopeId) (b : Binding) (owner : ScopeId) :
    Confined h (t.capture s b owner) :=
  hc.congr (size_foldl_pushCapture _ _ t)
    (get_capture_congr Scope.parent (fun _ _ => rfl) t s b owner)

/-- A method takes a slot that is new, or the one that the walk started in. -/
theorem local_count {m : ScopeId} (hm : m = t.owningMethod h.scope ∨ h.scopes ≤ m.index)
    {f : Scope → Scope} (hcore : ∀ x, (f x).core = x.core)
    (hle : ∀ x, x.numLocals ≤ (f x).numLocals) (hcs : ∀ x, (f x).captures = x.captures) :
    Local h t (t.update m f) := by
  have hparent : ∀ x, (f x).parent = x.parent := fun x => by
    have hx := congrArg Scope.parent (hcore x)
    exact hx
  have hkind : ∀ x, (f x).kind = x.kind := fun x => by
    have hx := congrArg Scope.kind (hcore x)
    exact hx
  have hcaptures : ∀ j, ((t.update m f).get j).captures = (t.get j).captures :=
    get_update_congr Scope.captures hcs t m
  refine ⟨(size_update t m f).ge, fun j _ => get_update_congr Scope.core hcore t m j,
    fun j hj hne => ?_, fun j _ => ?_, fun j _ => ?_, fun j _ _ => hcaptures j,
    get_update_congr Scope.parent hparent t m _, get_update_congr Scope.kind hkind t m _⟩
  · rw [get_update_of_ne]
    rintro rfl
    exact hm.elim hne hj.not_ge
  · by_cases hj : m = j
    · subst hj
      by_cases hhas : t.Has m
      · rw [get_update_self hhas]
        exact hle _
      · rw [update_of_not_has hhas]
    · rw [get_update_of_ne hj]
  · rw [hcaptures j]

theorem local_takeSlot (hc : Confined h t) (hs : h.Owns s) (b : Binding) :
    Local h t (t.takeSlot s b).2 ∧ Confined h (t.takeSlot s b).2 := by
  rw [takeSlot]
  split
  · exact ⟨local_count (hc.owningMethod_cases hs) (fun _ => rfl) (fun _ => Nat.le_succ _)
      fun _ => rfl, hc.update fun _ => rfl⟩
  · exact ⟨.refl h t, hc⟩

theorem local_declare (hc : Confined h t) (hs : h.Owns s) {b b' : Binding} {span : Span}
    (hd : t.declare s b span = .ok (b', t')) : Local h t t' ∧ Confined h t' := by
  simp only [declare] at hd
  split at hd
  · exact absurd hd (by simp)
  · obtain ⟨-, rfl⟩ := Prod.mk.inj (Except.ok.inj hd)
    obtain ⟨hl, hc'⟩ := local_takeSlot hc hs b
    exact ⟨hl.trans (.update hs (fun _ => rfl) (fun _ => rfl) (fun _ => rfl) fun _ => rfl) hc,
      hc'.update fun _ => rfl⟩

theorem local_declareType (hc : Confined h t) (hs : h.Owns s) {name : String} {type : TypeId}
    {span : Span} (hd : t.declareType s name type span = .ok t') :
    Local h t t' ∧ Confined h t' := by
  simp only [declareType] at hd
  split at hd
  · exact absurd hd (by simp)
  · split at hd
    · exact absurd hd (by simp)
    · rw [← Except.ok.inj hd]
      exact ⟨.update hs (fun _ => rfl) (fun _ => rfl) (fun _ => rfl) fun _ => rfl,
        hc.update fun _ => rfl⟩

/-- A scope that is opened inside of an owned one. -/
theorem local_openScope (hc : Confined h t) (hs : h.Owns s) (hhas : t.Has s) (kind : ScopeKind)
    (name : String) (unit : UnitId) : Local h t (t.openScope s kind name unit).2 ∧
      Confined h (t.openScope s kind name unit).2 ∧
      h.scopes ≤ (t.openScope s kind name unit).1.index := by
  have hle := hc.size_le
  have hnew := agrees_openScope_new t s kind name unit
  have hold : ∀ j, t.Has j → s ≠ j → (t.openScope s kind name unit).2.get j = t.get j := by
    intro j hj hne
    rw [openScope]
    dsimp only
    rw [get_update_of_ne hne, get_push_old t hj]
  have hkeep : ∀ j, ¬ h.Owns j → (t.openScope s kind name unit).2.get j = t.get j := by
    intro j hj
    refine hold j ?_ (by rintro rfl; exact hj hs)
    exact Nat.lt_of_lt_of_le (Nat.lt_of_not_le fun hn => hj (Or.inr hn)) hle
  have hslots : ∀ j, t.Has j →
      ((t.openScope s kind name unit).2.get j).numLocals = (t.get j).numLocals :=
    fun j hj => get_openScope_congr s kind name unit Scope.numLocals (fun _ _ => rfl) hj
  have hcaptures : ∀ j, t.Has j →
      ((t.openScope s kind name unit).2.get j).captures = (t.get j).captures :=
    fun j hj => (agrees_openScope_old t s kind name unit hj).captures
  have hhome := agrees_openScope_old t s kind name unit (j := h.scope)
    (Nat.lt_of_lt_of_le hc.has hle)
  refine ⟨⟨?_, fun j hj => by rw [hkeep j hj], fun j hj _ => hslots j (hj.trans_le hle),
    fun j hj => (hslots j (hj.trans_le hle)).ge, fun j hj => ?_,
    fun j hj _ => hcaptures j (hj.trans_le hle), hhome.head.parent, hhome.head.kind⟩,
    ⟨hc.has, ?_, ?_, fun j hj hjhas => ?_⟩, hle⟩
  · rw [size_openScope]
    exact Nat.le_succ _
  · rw [hcaptures j (hj.trans_le hle)]
  · rw [size_openScope]
    exact hle.trans (Nat.le_succ _)
  · rw [size_openScope]
    exact hc.opened_le.trans (Nat.le_succ _)
  · by_cases hj' : t.Has j
    · rw [parent, (agrees_openScope_old t s kind name unit hj').head.parent]
      exact hc.opened j hj hj'
    · have hjs : j = ⟨t.size⟩ := by
        rw [Has, size_openScope] at hjhas
        obtain ⟨i⟩ := j
        exact congrArg ScopeId.mk (Nat.le_antisymm (Nat.lt_succ_iff.mp hjhas)
          (Nat.le_of_not_lt hj'))
      exact ⟨s, hjs ▸ hnew.head.parent, hs, hjs ▸ hhas⟩

/-! ## Methods -/

/-- A method that was there, and that the walk did not start in, keeps its local slots. -/
theorem Local.methodLocals_eq (hl : Local h t t') (hc : Confined h t') (hsize : t.size = h.scopes)
    (hs : ¬ h.Owns s) (hout : s ∉ t.methodPath h.scope) : t'.methodLocals s = t.methodLocals s := by
  have hnot : ∀ j, h.Owns j → s ∉ t'.methodPath j := by
    intro j hj hmem
    rcases hc.methodPath_cases hj s hmem with ho | ho
    · exact hs ho
    · exact hout (hl.methodPath_eq hc.has ▸ ho)
  obtain ⟨k, hk⟩ := Nat.exists_eq_add_of_le (hsize.trans_le hc.size_le)
  have hids : t'.ids = t.ids ++ (List.range' t.size k).map ScopeId.mk := by
    rw [ids, ids, hk, ← List.map_append, List.range_eq_range', List.range_eq_range',
      ← List.range'_append, Nat.one_mul, Nat.zero_add]
  have hnew : ((List.range' t.size k).map ScopeId.mk).filter
      (fun id => (t'.methodPath id).contains s) = [] := by
    refine List.filter_eq_nil_iff.mpr fun j hj hmem => ?_
    obtain ⟨i, hi, rfl⟩ := List.mem_map.mp hj
    have hi' := (List.mem_range'_1.mp hi).1
    exact hnot _ (Or.inr (hsize ▸ hi')) (List.contains_iff_mem.mp hmem)
  have hold : t.ids.filter (fun id => (t'.methodPath id).contains s) =
      t.ids.filter fun id => (t.methodPath id).contains s := by
    refine List.filter_congr fun j hj => ?_
    obtain ⟨i, hi, rfl⟩ := List.mem_map.mp hj
    rw [hl.methodPath_eq (hsize ▸ List.mem_range.mp hi)]
  rw [methodLocals, methodLocals, hids, List.filter_append, hnew, List.append_nil, hold]
  refine congrArg (List.mergeSort · _) (List.flatMap_congr fun j hj => ?_)
  rw [← hold, List.mem_filter] at hj
  have hcore := congrArg Scope.entries
    (hl.core j fun ho => hnot j ho (List.contains_iff_mem.mp hj.2))
  exact congrArg (List.filter fun b : Binding => b.slot.isSome) hcore

end Scopes

end Unnest
