import Unnest.Proofs.Analysis.Statements
import Unnest.Proofs.Scope.Slots

/-!
# What a walk leaves alone

Slots stay laid out along a walk (`Walk.laid`), and a walk declares only in the scope it
starts in and inside of it (`Walk.names`).

A definition whose walk is over captures nothing more.  `Follows a b` says that `b` comes
after `a` and that this is so of all the definitions that were there in `a`, but for those
around the walk.  Members of a type are left out, since they are declared before they are
walked through.
-/

namespace Unnest.Analysis

variable {K L : Multiset Key} {a a₀ b c z : Analysis} {s x : ScopeId}

/-! ## Slots -/

theorem Step.laid (ha : Sound a) (hl : a.scopes.Laid) (h : Step K a b) : b.scopes.Laid := by
  cases h with
  | scopes a h => exact hl.step ha.scopes ha.has h
  | _ => exact hl

theorem Steps.laid (ha : Sound a) (hl : a.scopes.Laid) (h : Steps K a b) : b.scopes.Laid := by
  induction h with
  | refl => exact hl
  | step h => exact h.laid ha hl
  | trans h _ ih ih' => exact ih' (ha.steps h) (ih ha hl)
  | mono _ _ ih => exact ih ha hl

theorem Walk.laid (ha : Sound a) (hl : a.scopes.Laid) (h : Walk K a b) : b.scopes.Laid := by
  induction h with
  | steps h => exact h.laid ha hl
  | trans h _ ih ih' => exact ih' (ha.walk h) (ih ha hl)
  | mono _ _ ih => exact ih ha hl
  | inside hp hk h ih => exact ih (ha.enter hp (hk.imp_right And.right)) hl
  | routine hp _ hempty _ body after _ ih =>
    have hs := ha.enter hp (Or.inr hempty)
    have hc := after.laid ((hs.walk body).back hp body) (ih hs hl)
    exact hc
  | type hp _ hempty _ _ _ _ _ _ body after _ ih =>
    have hs := ha.enter hp (Or.inr hempty)
    have hc := after.laid ((hs.walk body).back hp body) (ih hs hl)
    exact hc

/-! ## Names -/

theorem Step.names (ha : Sound a) (h : Step K a b) (hx : a.scopes.Has x)
    (hout : a.current ∉ a.scopes.path x) : Scopes.SameNames (a.scopes.get x) (b.scopes.get x) := by
  cases h with
  | scopes a h => exact h.names ha.scopes hx hout
  | _ => exact ⟨rfl, rfl⟩

theorem Steps.names (ha : Sound a) (h : Steps K a b) (hx : a.scopes.Has x)
    (hout : a.current ∉ a.scopes.path x) : Scopes.SameNames (a.scopes.get x) (b.scopes.get x) := by
  induction h with
  | refl => exact ⟨rfl, rfl⟩
  | step h => exact h.names ha hx hout
  | trans h _ ih ih' =>
    have hb := ha.steps h
    have hg := h.grows.scopes
    refine (ih ha hx hout).trans (ih' hb (hg.has hx) ?_)
    rwa [h.current_eq, hg.path_eq ha.scopes.toWF hb.scopes.toWF hx]
  | mono _ _ ih => exact ih ha hx hout

/-- A walk declares only in the scope it starts in and inside of it. -/
theorem Walk.names (ha : Sound a) (h : Walk K a b) (hx : a.scopes.Has x)
    (hout : a.current ∉ a.scopes.path x) : Scopes.SameNames (a.scopes.get x) (b.scopes.get x) := by
  have hinside : ∀ {a : Analysis} {s : ScopeId}, Sound a → a.scopes.parent s = some a.current →
      a.current ∉ a.scopes.path x → s ∉ a.scopes.path x := fun ha hp hout hs =>
    hout (ha.scopes.mem_path_trans (ha.scopes.mem_path_of_parent hp (Scopes.mem_path_self _ _)) hs)
  have hback : ∀ {K : Multiset Key} {a b c : Analysis} {s : ScopeId}, Sound a →
      Sound { b with current := a.current } → a.scopes.Has x → a.current ∉ a.scopes.path x →
        Walk K { a with current := s } b → Steps 0 { b with current := a.current } c →
          Scopes.SameNames (b.scopes.get x) (c.scopes.get x) := by
    intro K a b c s ha hb hx hout body after
    have hpath := body.grows.scopes.path_eq ha.scopes.toWF hb.scopes.toWF hx
    have hafter := after.names hb (body.grows.scopes.has hx) fun h => hout (hpath ▸ h)
    exact hafter
  induction h with
  | steps h => exact h.names ha hx hout
  | trans h _ ih ih' =>
    have hb := ha.walk h
    have hg := h.grows.scopes
    refine (ih ha hx hout).trans (ih' hb (hg.has hx) ?_)
    rwa [h.current_eq, hg.path_eq ha.scopes.toWF hb.scopes.toWF hx]
  | mono _ _ ih => exact ih ha hx hout
  | inside hp hk h ih =>
    have hin := hinside ha hp hout
    exact ih (ha.enter hp (hk.imp_right And.right)) hx hin
  | routine hp _ hempty _ body after _ ih =>
    have hs := ha.enter hp (Or.inr hempty)
    have hin := hinside ha hp hout
    have hafter := hback ha ((hs.walk body).back hp body) hx hout body after
    exact (ih hs hx hin).trans hafter
  | type hp _ hempty _ _ _ _ _ _ body after _ ih =>
    have hs := ha.enter hp (Or.inr hempty)
    have hin := hinside ha hp hout
    have hafter := hback ha ((hs.walk body).back hp body) hx hout body after
    exact (ih hs hx hin).trans hafter

/-! ## Following -/

/-- One state comes after another.  No definition that was there and is not around the
walk has captured anything more, members of types apart. -/
structure Follows (a b : Analysis) : Prop where
  grows : Grows a b
  kept : ∀ x p, a.scopes.parent x = some p → (a.scopes.get p).kind.isBody = true →
    x ∉ a.scopes.path a.current → (b.scopes.get x).captures = (a.scopes.get x).captures

namespace Follows

theorem refl (a : Analysis) : Follows a a := ⟨.refl a, fun _ _ _ _ _ => rfl⟩

theorem trans (h : Follows a b) (h' : Follows b c) (ha : Sound a) (hb : b.scopes.WF)
    (hcurrent : b.current = a.current) : Follows a c := by
  refine ⟨h.grows.trans h'.grows, fun x p hp hk hx => ?_⟩
  have hg := h.grows.scopes
  rw [h'.kept x p, h.kept x p hp hk hx]
  · rw [hg.parent_eq (Scopes.has_of_parent hp), hp]
  · rw [hg.kind_eq (ha.scopes.has_parent hp), hk]
  · rwa [hcurrent, hg.path_eq ha.scopes.toWF hb ha.has]

/-- More is around a scope further inside. -/
theorem inside {p : ScopeId} (h : Follows { b with current := p } z) (hb : b.scopes.WF)
    (hp : b.scopes.parent s = some p) : Follows { b with current := s } z :=
  ⟨@Grows.of_at { b with current := s } z p h.grows, fun x q hq hk hx => h.kept x q hq hk fun hmem =>
    hx (hb.mem_path_of_parent hp hmem)⟩

/-- Through a member of a type and back. -/
theorem member (h : Follows { a with current := s } b) (ha : a.scopes.WF)
    (hp : a.scopes.parent s = some a.current)
    (hk : (a.scopes.get a.current).kind.isBody = false) :
    Follows a { b with current := a.current } := by
  refine ⟨h.grows.of_at.at _, fun x q hq hkq hx => h.kept x q hq hkq fun hmem => hx ?_⟩
  refine ha.mem_path_parent hp hmem ?_
  rintro rfl
  obtain rfl := Option.some.inj (hp.symm.trans hq)
  exact Bool.false_ne_true (hk.symm.trans hkq)

end Follows

theorem Steps.follows (ha : Sound a) (h : Steps K a b) : Follows a b :=
  ⟨h.grows, fun _ _ hp _ hx => h.captures_eq ha (Scopes.has_of_parent hp) hx⟩

/-- A scope that was opened since is around none that was there before. -/
theorem not_mem_path_of_new (hx : a₀.scopes.Has x) (hnew : ¬ a₀.scopes.Has s) :
    s ∉ a.scopes.path x := fun hmem =>
  hnew (Nat.lt_of_le_of_lt (Scopes.index_le_of_mem_path hmem) hx)

/-- Through a scope that was opened on the way, and back. -/
theorem Walk.follows (ha₀ : Sound a₀) (h₀ : Steps K a₀ a) (hnew : ¬ a₀.scopes.Has s)
    (hp : a.scopes.parent s = some a.current) (ha : Sound { a with current := s })
    (h : Walk L { a with current := s } b) : Follows a₀ { b with current := a₀.current } := by
  have hg := h₀.grows.scopes
  refine ⟨(h₀.grows.trans h.grows.of_at).at _, fun x p hpx hk hx => ?_⟩
  have hxh := Scopes.has_of_parent hpx
  refine (h.captures_eq ha (hg.has hxh) (fun hmem => ?_) (not_mem_path_of_new hxh hnew)).trans
    (h₀.captures_eq ha₀ hxh hx)
  have hne : x ≠ s := by
    rintro rfl
    exact hnew hxh
  have hpath := ha.scopes.mem_path_parent hp hmem hne
  rw [h₀.current_eq, hg.path_eq ha₀.scopes.toWF ha.scopes.toWF ha₀.has] at hpath
  exact hx hpath

end Unnest.Analysis
