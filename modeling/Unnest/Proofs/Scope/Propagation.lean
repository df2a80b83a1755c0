import Unnest.Proofs.Scope.Flattening
import Unnest.Proofs.Scope.Locality

/-!
# The walk of a capture

A use of an outer binding is recorded by walking outwards from the using scope.  Each
scope on the way takes the record before the next one is looked at, so the walk reads a
tree that it is changing (`Propagates`).  What it reads is never what it has changed: a
record is seen at its own scope only, and the walk does not come back.  It therefore
ends, and it ends in the tree of `capture` (`WF.propagates_iff`), which says in advance
which scopes take the record: the start of the path up to the first scope that stops it
(`stopsBefore`).

However a tree was made, the record is made once, and no name of any scope gets another
meaning by it (`capture_propagated`).
-/

namespace Unnest.Scopes

open Relation (ReflTransGen)

variable {t u : Scopes} {s p d owner : ScopeId} {b : Binding} {c : Capture} {r : Resolved}
  {n : String}

/-! ## One record -/

theorem captured_pushCapture (c : Capture) (t : Scopes) (s : ScopeId) :
    Captured t c [s] (pushCapture c t s) :=
  captured_foldl c (List.nodup_singleton s) t

@[simp] theorem parent_pushCapture (c : Capture) (t : Scopes) (s d : ScopeId) :
    (pushCapture c t s).parent d = t.parent d :=
  ((captured_pushCapture c t s).head d).parent

@[simp] theorem reachesDirectly_pushCapture (c : Capture) (t : Scopes) (s d : ScopeId) :
    (pushCapture c t s).reachesDirectly b owner d = t.reachesDirectly b owner d := by
  have hd := (captured_pushCapture c t s).head d
  simp only [reachesDirectly, hd.kind, hd.parent, hd.name, hd.memberOf, hd.isStatic]

@[simp] theorem path_pushCapture (c : Capture) (t : Scopes) (s d : ScopeId) :
    (pushCapture c t s).path d = t.path d :=
  pathWithin_congr fun j _ => parent_pushCapture c t s j

theorem WF.pushCapture (hw : t.WF) (c : Capture) (s : ScopeId) : (pushCapture c t s).WF :=
  ⟨fun d q hq => hw.parent_lt d q (by rwa [parent_pushCapture] at hq)⟩

/-! ## Which scopes record -/

theorem WF.path_cons (hw : t.WF) (s : ScopeId) :
    t.path s = s :: ((t.parent s).map t.path).getD [] := by
  cases hp : t.parent s with
  | none =>
    rw [path_of_root hp]
    rfl
  | some p =>
    rw [hw.path_of_parent hp]
    rfl

/-- Whether a record on its way outwards from `s` ends before it gets to `d`.  The using
scope takes it even where it reaches the binding directly. -/
def stopsBefore (t : Scopes) (s : ScopeId) (b : Binding) (owner d : ScopeId) : Bool :=
  (d == owner || (t.get d).knows b.name) || (d != s && t.reachesDirectly b owner d)

theorem takeWhile_congr {α : Type} {f g : α → Bool} :
    ∀ {l : List α}, (∀ a ∈ l, f a = g a) → l.takeWhile f = l.takeWhile g
  | [], _ => rfl
  | a :: l, h => by
    rw [List.forall_mem_cons] at h
    rw [List.takeWhile_cons, List.takeWhile_cons, h.1, takeWhile_congr h.2]

/-- Behind the using scope, the record stops wherever the binding is reached directly. -/
theorem WF.handOn_eq_takeWhile (hw : t.WF) (hp : t.parent s = some p) (r : Resolved) :
    t.handOn r p = (t.path p).takeWhile fun d => !t.stopsBefore s r.binding r.owner d := by
  refine takeWhile_congr fun d hd => ?_
  rw [stopsAt, stopsBefore, bne_iff_ne.mpr (hw.ne_of_mem_path_parent hp hd), Bool.true_and]

theorem WF.captureSites_eq_takeWhile (hw : t.WF) (s : ScopeId) (b : Binding) (owner : ScopeId) :
    t.captureSites s b owner = (t.path s).takeWhile fun d => !t.stopsBefore s b owner d := by
  have hself : t.stopsBefore s b owner s = (s == owner || (t.get s).knows b.name) := by
    rw [stopsBefore, bne_self_eq_false, Bool.false_and, Bool.or_false]
  rw [hw.captureSites_eq s ⟨b, owner⟩]
  cases hp : t.parent s with
  | none =>
    rw [path_of_root hp, List.takeWhile_cons, hself]
    cases s == owner || (t.get s).knows b.name <;> rfl
  | some p =>
    rw [hw.path_of_parent hp, List.takeWhile_cons, hself, Option.map_some, Option.getD_some,
      hw.handOn_eq_takeWhile hp]
    cases s == owner || (t.get s).knows b.name <;> rfl

/-- A scope that declared the binding or knows its name records nothing. -/
theorem WF.capture_of_stops (hw : t.WF)
    (hs : (s == owner || (t.get s).knows b.name) = true) : t.capture s b owner = t := by
  rw [Scopes.capture, hw.captureSites_eq s ⟨b, owner⟩, if_pos hs]
  rfl

/-- The outermost scope has nobody to hand the record on to. -/
theorem WF.capture_of_root (hw : t.WF)
    (hs : (s == owner || (t.get s).knows b.name) = false) (hp : t.parent s = none) :
    t.capture s b owner = Scopes.pushCapture ⟨b, owner⟩ t s := by
  rw [Scopes.capture, hw.captureSites_eq s ⟨b, owner⟩, if_neg (ne_true_of_eq_false hs), hp]
  rfl

theorem WF.capture_of_direct (hw : t.WF)
    (hs : (s == owner || (t.get s).knows b.name) = false) (hp : t.parent s = some p)
    (hd : t.reachesDirectly b owner p = true) :
    t.capture s b owner = Scopes.pushCapture ⟨b, owner⟩ t s := by
  have hnone : t.handOn ⟨b, owner⟩ p = [] := by
    rw [handOn, hw.path_cons p, List.takeWhile_cons, stopsAt, hd, Bool.or_true]
    rfl
  rw [Scopes.capture, hw.captureSites_eq s ⟨b, owner⟩, if_neg (ne_true_of_eq_false hs), hp,
    Option.map_some, Option.getD_some, hnone]
  rfl

/-- A record changes nothing for the scopes behind its own one. -/
theorem WF.captureSites_pushCapture (hw : t.WF) (hp : t.parent s = some p) (c : Capture)
    (b : Binding) (owner : ScopeId) :
    (Scopes.pushCapture c t s).captureSites p b owner = t.captureSites p b owner := by
  rw [(hw.pushCapture c s).captureSites_eq_takeWhile, hw.captureSites_eq_takeWhile,
    path_pushCapture]
  refine takeWhile_congr fun d hd => ?_
  have hget : (Scopes.pushCapture c t s).get d = t.get d :=
    get_update_of_ne (hw.ne_of_mem_path_parent hp hd).symm _
  rw [stopsBefore, stopsBefore, hget, reachesDirectly_pushCapture]

/-- What the using scope hands on goes outwards as if the next scope were the using one. -/
theorem WF.capture_of_handed (hw : t.WF)
    (hs : (s == owner || (t.get s).knows b.name) = false) (hp : t.parent s = some p)
    (hd : t.reachesDirectly b owner p = false) :
    t.capture s b owner = (Scopes.pushCapture ⟨b, owner⟩ t s).capture p b owner := by
  have hsites : t.handOn ⟨b, owner⟩ p = t.captureSites p b owner := by
    rw [hw.captureSites_eq_takeWhile]
    refine takeWhile_congr fun d _ => ?_
    rw [stopsAt, stopsBefore]
    by_cases hdp : d = p
    · rw [hdp, hd, Bool.and_false]
    · rw [bne_iff_ne.mpr hdp, Bool.true_and]
  rw [Scopes.capture, hw.captureSites_eq s ⟨b, owner⟩, if_neg (ne_true_of_eq_false hs), hp,
    Option.map_some, Option.getD_some, hsites, List.foldl_cons, Scopes.capture,
    hw.captureSites_pushCapture hp]

/-! ## The walk -/

/-- The record of a use of `b`, declared by `owner`, walks outwards from a scope, and a
tree becomes another.  Every test is made in the tree as it is by then. -/
inductive Propagates (b : Binding) (owner : ScopeId) : Scopes → ScopeId → Scopes → Prop
  | atOwner {t : Scopes} : Propagates b owner t owner t
  | known {t : Scopes} {s : ScopeId} (hs : s ≠ owner) (hk : (t.get s).knows b.name = true) :
      Propagates b owner t s t
  | outermost {t u : Scopes} {s : ScopeId} (hs : s ≠ owner)
      (hk : (t.get s).knows b.name = false) (hu : pushCapture ⟨b, owner⟩ t s = u)
      (hp : u.parent s = none) : Propagates b owner t s u
  | direct {t u : Scopes} {s p : ScopeId} (hs : s ≠ owner)
      (hk : (t.get s).knows b.name = false) (hu : pushCapture ⟨b, owner⟩ t s = u)
      (hp : u.parent s = some p) (hd : u.reachesDirectly b owner p = true) :
      Propagates b owner t s u
  | outward {t u v : Scopes} {s p : ScopeId} (hs : s ≠ owner)
      (hk : (t.get s).knows b.name = false) (hu : pushCapture ⟨b, owner⟩ t s = u)
      (hp : u.parent s = some p) (hd : u.reachesDirectly b owner p = false)
      (h : Propagates b owner u p v) : Propagates b owner t s v

theorem stops_eq_false (hs : s ≠ owner) (hk : (t.get s).knows b.name = false) :
    (s == owner || (t.get s).knows b.name) = false := by
  rw [beq_false_of_ne hs, hk, Bool.or_false]

/-- A walk that ends has made the records of `capture`. -/
theorem Propagates.eq (h : Propagates b owner t s u) (hw : t.WF) : u = t.capture s b owner := by
  induction h with
  | atOwner => rw [hw.capture_of_stops (by rw [beq_self_eq_true, Bool.true_or])]
  | known _ hk => rw [hw.capture_of_stops (by rw [hk, Bool.or_true])]
  | outermost hs hk hu hp =>
    subst hu
    rw [parent_pushCapture] at hp
    rw [hw.capture_of_root (stops_eq_false hs hk) hp]
  | direct hs hk hu hp hd =>
    subst hu
    rw [parent_pushCapture] at hp
    rw [reachesDirectly_pushCapture] at hd
    rw [hw.capture_of_direct (stops_eq_false hs hk) hp hd]
  | outward hs hk hu hp hd _ ih =>
    subst hu
    rw [ih (hw.pushCapture _ _)]
    rw [parent_pushCapture] at hp
    rw [reachesDirectly_pushCapture] at hd
    rw [hw.capture_of_handed (stops_eq_false hs hk) hp hd]

/-- The walk ends: a parent is older than its child. -/
theorem WF.exists_propagates (hw : t.WF) (b : Binding) (owner s : ScopeId) :
    ∃ u, Propagates b owner t s u := by
  -- the tree changes at each step, so the induction is on the index and not on one tree
  induction hi : s.index using Nat.strong_induction_on generalizing t s with
  | _ i ih =>
    by_cases hs : s = owner
    · subst hs
      exact ⟨t, .atOwner⟩
    · cases hk : (t.get s).knows b.name with
      | true => exact ⟨t, .known hs hk⟩
      | false =>
        have hwu := hw.pushCapture ⟨b, owner⟩ s
        cases hp : (Scopes.pushCapture ⟨b, owner⟩ t s).parent s with
        | none => exact ⟨_, .outermost hs hk rfl hp⟩
        | some p =>
          cases hd : (Scopes.pushCapture ⟨b, owner⟩ t s).reachesDirectly b owner p with
          | true => exact ⟨_, .direct hs hk rfl hp hd⟩
          | false =>
            obtain ⟨v, hv⟩ := ih p.index (hi ▸ hwu.parent_lt s p hp) hwu p rfl
            exact ⟨v, .outward hs hk rfl hp hd hv⟩

/-- The walk ends, and it ends in one tree. -/
theorem WF.propagates_iff (hw : t.WF) : Propagates b owner t s u ↔ u = t.capture s b owner := by
  refine ⟨fun h => h.eq hw, ?_⟩
  rintro rfl
  obtain ⟨v, hv⟩ := hw.exists_propagates b owner s
  exact hv.eq hw ▸ hv

/-! ## What is left behind -/

/-- Some scopes of a tree have one more capture than in another, and nothing else differs. -/
structure Recorded (t : Scopes) (c : Capture) (ds : List ScopeId) (u : Scopes) : Prop where
  size_eq : u.size = t.size
  get_eq : ∀ d, u.get d =
    if d ∈ ds then { t.get d with captures := (t.get d).captures ++ [c] } else t.get d

theorem recorded_foldl (c : Capture) {ds : List ScopeId} (hds : ds.Nodup)
    (hhas : ∀ d ∈ ds, t.Has d) : Recorded t c ds (ds.foldl (Scopes.pushCapture c) t) := by
  refine ⟨size_foldl_pushCapture c ds t, fun d => ?_⟩
  induction ds generalizing t with
  | nil => rfl
  | cons x ds ih =>
    rw [List.nodup_cons] at hds
    rw [List.forall_mem_cons] at hhas
    have hrest : ∀ d ∈ ds, (Scopes.pushCapture c t x).Has d := fun d hd =>
      has_update.mpr (hhas.2 d hd)
    rw [List.foldl_cons, ih hds.2 hrest]
    by_cases hx : d = x
    · subst hx
      rw [if_neg hds.1, if_pos List.mem_cons_self, Scopes.pushCapture, get_update_self hhas.1]
    · rw [Scopes.pushCapture, get_update_of_ne (Ne.symm hx)]
      simp only [List.mem_cons, hx, false_or]

/-- Only a scope of the tree can mean something by a name. -/
theorem has_of_resolveValue (h : t.resolveValue s n = some r) : t.Has s := by
  by_contra hnot
  have hget := get_of_not_has hnot
  have hp : t.parent s = none := by
    rw [parent, hget]
    rfl
  rw [resolveValue_of_root hp, answer?_eq_none.mpr (by rw [hget]; rfl)] at h
  exact absurd h (by simp)

/-- A binding is found under its own name. -/
theorem name_of_resolveValue (h : t.resolveValue s n = some r) : r.binding.name = n := by
  obtain ⟨_, d, _, -, ha, -⟩ := List.findSome?_eq_some_iff.mp h
  exact (answer?_cases ha).1

theorem WF.recorded_capture (hw : t.WF) (s : ScopeId) (hs : t.Has s) (r : Resolved) :
    Recorded t r.capture (t.captureSites s r.binding r.owner)
      (t.capture s r.binding r.owner) := by
  refine recorded_foldl r.capture (hw.nodup_captureSites s r) fun d hd => ?_
  rw [hw.captureSites_eq_takeWhile] at hd
  exact has_of_mem_path ((List.takeWhile_sublist _).subset hd) hs

theorem knows_append_capture (x : Scope) (c : Capture) :
    ({ x with captures := x.captures ++ [c] } : Scope).knows c.name = true := by
  rw [Scope.knows, Bool.or_eq_true]
  refine Or.inr (List.find?_isSome.mpr ⟨c, List.mem_append_right _ List.mem_cons_self, ?_⟩)
  exact beq_self_eq_true c.name

/-- A using scope knows the name from then on, and records nothing again. -/
theorem WF.capture_capture (hw : t.WF) (hs : t.Has s) (r : Resolved) :
    (t.capture s r.binding r.owner).capture s r.binding r.owner =
      t.capture s r.binding r.owner := by
  cases hstop : s == r.owner || (t.get s).knows r.binding.name with
  | true => rw [hw.capture_of_stops hstop, hw.capture_of_stops hstop]
  | false =>
    have hsite : s ∈ t.captureSites s r.binding r.owner := by
      rw [hw.captureSites_eq s r, if_neg (ne_true_of_eq_false hstop)]
      exact List.mem_cons_self
    have hknows : ((t.capture s r.binding r.owner).get s).knows r.binding.name = true := by
      rw [(hw.recorded_capture s hs r).get_eq s, if_pos hsite]
      exact knows_append_capture _ r.capture
    exact (hw.capture s r).capture_of_stops (by rw [hknows, Bool.or_true])

/-- In a tree that was made by any changes, let a name mean a binding in a scope.  The walk
of the record ends, in one tree.  That tree has one more capture, of that binding and its
owner, on exactly the scopes outwards from the using one that come before the first which
declared the binding, knows the name or, if it is not the using one, reaches the binding
directly; nothing else differs.  The walk made again changes nothing, and every name means in
every scope what it meant. -/
theorem capture_propagated {name : String} {unit : UnitId}
    (h : ReflTransGen Change (root name unit) t) (hr : t.resolveValue s n = some r) :
    r.binding.name = n ∧
    (∀ u, Propagates r.binding r.owner t s u ↔ u = t.capture s r.binding r.owner) ∧
    (∀ d, t.path d = d :: ((t.parent d).map t.path).getD []) ∧
    Recorded t r.capture
      ((t.path s).takeWhile fun d => !t.stopsBefore s r.binding r.owner d)
      (t.capture s r.binding r.owner) ∧
    (t.capture s r.binding r.owner).capture s r.binding r.owner =
      t.capture s r.binding r.owner ∧
    ∀ p m, (t.capture s r.binding r.owner).resolveValue p m = t.resolveValue p m := by
  have hw := (flat_of_changes h).1
  have hs := has_of_resolveValue hr
  obtain rfl := name_of_resolveValue hr
  refine ⟨rfl, fun _ => hw.propagates_iff, hw.path_cons, ?_, hw.capture_capture hs r,
    hw.resolveValue_capture hr⟩
  rw [← hw.captureSites_eq_takeWhile]
  exact hw.recorded_capture s hs r

/-- A program with a variable, a routine, a block in that routine and a routine in that
block. -/
def nested : Scopes :=
  let t := (root "demo" ⟨0⟩).declareOrLeave rootId ⟨"x", .integer, .var, none, none⟩
  let t := (t.openScope rootId .routine "f" ⟨1⟩).2
  let t := (t.openScope ⟨1⟩ .block "inner0" ⟨2⟩).2
  (t.openScope ⟨2⟩ .routine "g" ⟨3⟩).2

theorem changes_nested : ReflTransGen Change (root "demo" ⟨0⟩) nested := by
  refine .tail (.tail (.tail (changes_declareOrLeave ?_ rfl) (.openScope ?_ .routine "f" ⟨1⟩))
    (.openScope ?_ .block "inner0" ⟨2⟩)) (.openScope ?_ .routine "g" ⟨3⟩)
  all_goals decide +kernel

/-- The variable as the program declared it. -/
def nestedVariable : Resolved := ⟨⟨"x", .integer, .var, some 1, none⟩, rootId⟩

/-- The inner routine, the block and the outer routine record the use, in this order. -/
theorem capture_propagated_nested :
    nested.resolveValue ⟨3⟩ "x" = some nestedVariable ∧
    Propagates nestedVariable.binding rootId nested ⟨3⟩
      (nested.capture ⟨3⟩ nestedVariable.binding rootId) ∧
    Recorded nested nestedVariable.capture [⟨3⟩, ⟨2⟩, ⟨1⟩]
      (nested.capture ⟨3⟩ nestedVariable.binding rootId) ∧
    ∀ p m, (nested.capture ⟨3⟩ nestedVariable.binding rootId).resolveValue p m =
      nested.resolveValue p m := by
  have hr : nested.resolveValue ⟨3⟩ "x" = some nestedVariable := by decide +kernel
  have hsites : ((nested.path ⟨3⟩).takeWhile fun d =>
      !nested.stopsBefore ⟨3⟩ nestedVariable.binding rootId d) = [⟨3⟩, ⟨2⟩, ⟨1⟩] := by
    decide +kernel
  obtain ⟨-, hwalk, -, hrec, -, hsame⟩ := capture_propagated changes_nested hr
  exact ⟨hr, (hwalk _).mpr rfl, hsites ▸ hrec, hsame⟩

end Unnest.Scopes
