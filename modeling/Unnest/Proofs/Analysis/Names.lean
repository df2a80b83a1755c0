import Unnest.Proofs.Analysis.Reached

/-!
# What names mean when they are looked up

Resolution relies on two things, and both are about every moment at which an analysis
looks up a name, whether or not it reports errors.

## The nearest declaration

A scope answers for the names that it has captured, as if captures were a memory of earlier
lookups.  `Scopes.nearest?` looks at declarations only.  The two agree as long as nothing is
declared between a scope and what it captured.  Statements and definitions are linear, so
that holds for all of them (`Reached.finds_nearest`).  It fails for the static
initial values of a type, which share one scope while the static members are declared one by
one: a name that an earlier value captured keeps its meaning when a static member takes it
(`stale_capture`).

## Values and types

A name that is declared is checked against the types that are visible, and a type against
the visible values.  Parameters are the exception: they are declared without a check.  So a
name that is visible both as a value and as a type is a parameter
(`Reached.param_of_value_and_type`), and a parameter can be one (`parameter_hides_type`).
-/

namespace Unnest

namespace Scopes

variable {t t' : Scopes} {s p : ScopeId} {n : String}

/-! ## The nearest declaration -/

/-- What a name means by declarations alone: the nearest one. -/
def nearest? (t : Scopes) (s : ScopeId) (n : String) : Option Resolved :=
  (t.path s).findSome? fun o => ((t.get o).binding? n).map (⟨·, o⟩)

theorem WF.nearest?_of_parent (hw : t.WF) (hp : t.parent s = some p) :
    t.nearest? s n = (((t.get s).binding? n).map (⟨·, s⟩)).or (t.nearest? p n) := by
  rw [nearest?, hw.path_of_parent hp, List.findSome?_cons, nearest?]
  cases (t.get s).binding? n <;> rfl

theorem Sound.captures_of_root (h : Sound t) (hp : t.parent s = none) :
    (t.get s).captures = [] := by
  refine List.eq_nil_iff_forall_not_mem.mpr fun c hc => (h.captures s c hc).owner_ne ?_
  have howner := (h.captures s c hc).owner_mem
  rwa [path_of_root hp, List.mem_singleton] at howner

theorem capture?_eq_some {c : Capture} (h : (t.get s).capture? n = some c) :
    c ∈ (t.get s).captures ∧ c.name = n := by
  have hname := List.find?_some h
  exact ⟨List.mem_of_find?_eq_some h, eq_of_beq hname⟩

/-- Where the captures are linked, they do not change what a name means. -/
theorem Linked.resolveValue_eq (h : Sound t) (hl : Linked t s)
    (hs : (t.get s).kind = .fieldInit → (t.get s).capture? n = none) :
    t.resolveValue s n = t.nearest? s n := by
  induction s using h.toWF.induction with
  | root s hp =>
    rw [resolveValue_of_root hp, nearest?, path_of_root hp, List.findSome?_singleton, answer?,
      Scope.capture?, h.captures_of_root hp]
    cases (t.get s).binding? n <;> rfl
  | child s p hp ih =>
    have hparent := ih (hl.of_parent h.toWF hp) fun hk => absurd hk (h.kind_of_parent hp)
    rw [h.resolveValue_of_parent hp, h.nearest?_of_parent hp, ← hparent, answer?]
    cases hb : (t.get s).binding? n with
    | some b => rfl
    | none =>
      cases hc : (t.get s).capture? n with
      | none => rfl
      | some c =>
        have hk : (t.get s).kind ≠ .fieldInit := fun hk => absurd (hs hk) (hc ▸ Option.some_ne_none c)
        obtain ⟨hmem, rfl⟩ := capture?_eq_some hc
        exact (hl s (mem_path_self t s) hk p hp c hmem).symm

/-! ## Values and types -/

/-- No value on the path of a scope has the name of a visible type, parameters apart. -/
def Apart (t : Scopes) (s : ScopeId) : Prop :=
  ∀ o ∈ t.path s, ∀ b ∈ (t.get o).entries, b.role ≠ .param → t.resolveType s b.name = none

theorem resolveType_congr (hpath : t'.path s = t.path s)
    (h : ∀ o ∈ t.path s, (t'.get o).type? n = (t.get o).type? n) :
    t'.resolveType s n = t.resolveType s n := by
  rw [resolveType, resolveType, hpath]
  exact findSome?_congr h

theorem Apart.congr (h : Apart t s) (hpath : t'.path s = t.path s)
    (hnames : ∀ o ∈ t.path s, SameNames (t.get o) (t'.get o)) : Apart t' s := by
  intro o ho b hb hrole
  rw [hpath] at ho
  rw [(hnames o ho).entries] at hb
  rw [resolveType_congr hpath fun x hx => by rw [Scope.type?, (hnames x hx).types, Scope.type?]]
  exact h o ho b hb hrole

/-- A scope without types, and with nothing but parameters, declares nothing that matters. -/
theorem Apart.inside (h : Apart t p) (hw : t.WF) (hp : t.parent s = some p)
    (hentries : ∀ b ∈ (t.get s).entries, b.role = .param) (htypes : (t.get s).types = []) :
    Apart t s := by
  intro o ho b hb hrole
  have htype : t.resolveType s b.name = t.resolveType p b.name := by
    rw [resolveType, hw.path_of_parent hp, List.findSome?_cons, Scope.type?, htypes]
    rfl
  rw [hw.path_of_parent hp] at ho
  rcases List.mem_cons.mp ho with rfl | ho
  · exact absurd (hentries b hb) hrole
  · exact htype.trans (h o ho b hb hrole)

/-- A type that is declared has a name that no visible value has. -/
theorem apart_declareType {name : String} {type : TypeId} (h : Apart t s) (hs : t.Has s)
    (hpath : t'.path s = t.path s) (hd : TypeDeclared t s name type t')
    (noValue : t.resolveValue s name = none) : Apart t' s := by
  intro o ho b hb hrole
  rw [hpath] at ho
  rw [hd.entries_eq o] at hb
  have hne : b.name ≠ name := by
    rintro rfl
    have hanswer := List.findSome?_eq_none_iff.mp noValue o ho
    rw [answer?_eq_none, Scope.knows, Bool.or_eq_false_iff] at hanswer
    have hnone := Option.not_isSome_iff_eq_none.mp (Bool.eq_false_iff.mp hanswer.1)
    exact absurd (List.find?_eq_none.mp hnone b hb) (by simp)
  rw [resolveType_congr hpath fun x _ => ?_]
  · exact h o ho b hb hrole
  · by_cases hx : s = x
    · subst hx
      rw [Scope.type?, hd.types hs, List.find?_append, Scope.type?]
      simp [Ne.symm hne]
    · rw [Scope.type?, (hd.agrees x hx).types, Scope.type?]

/-- A value that is declared has a name that no visible type has, unless it is a parameter. -/
theorem Apart.step (h : Apart t s) (hw : Sound t) (hs : t.Has s) (hstep : Step t s t') :
    Apart t' s := by
  have hpath := hstep.extends.path_eq hw.toWF (hstep.wf hw.toWF hs) hs
  cases hstep with
  | capture => exact h.congr hpath fun o _ => sameNames_capture t s _ _ o
  | @declare b b' _ _ _ _ noType hok =>
    have hd := declared_of_declare hok
    have htype : ∀ n, t'.resolveType s n = t.resolveType s n := fun n =>
      resolveType_congr hpath fun o _ => by rw [Scope.type?, hd.types_eq o, Scope.type?]
    intro o ho e he hrole
    rw [hpath] at ho
    rw [htype]
    rcases hd.mem_entries hs he with hold | ⟨rfl, rfl⟩
    · exact h o ho e hold hrole
    · rw [hd.binding_eq]
      exact noType
  | @param d b b' _ _ _ parent _ _ _ hok =>
    refine h.congr hpath fun o ho => ((declared_of_declare hok).agrees o ?_).names
    rintro rfl
    exact hw.ne_of_mem_path_parent parent ho rfl
  | declareType _ _ noValue hok =>
    exact apart_declareType h hs hpath (typeDeclared_of_declareType hok) noValue
  | nextBlockName => exact h.congr hpath fun o _ => (agrees_nextBlockName t s o).names
  | openMember may _ unit =>
    exact h.congr hpath fun o ho =>
      (agrees_openMember_old t s _ _ unit _ _ (has_of_mem_path ho hs)).names

end Scopes

namespace Analysis

variable {K : Multiset Key} {a b c : Analysis} {s : ScopeId}

/-- A walk through a scope inside declares nothing on the path of the current scope. -/
theorem Walk.apart_back (ha : Sound a) (h : a.scopes.Apart a.current)
    (hp : a.scopes.parent s = some a.current) (hs : Sound { a with current := s })
    (hw : Walk K { a with current := s } b) : b.scopes.Apart a.current := by
  have hb := hs.walk hw
  refine h.congr (hw.grows.scopes.path_eq ha.scopes.toWF hb.scopes.toWF ha.has) fun o ho => ?_
  have hnames := @Walk.names _ _ _ o hs hw (Scopes.has_of_mem_path ho ha.has) fun hmem =>
    ha.scopes.ne_of_mem_path_parent hp (ha.scopes.mem_path_trans hmem ho) rfl
  exact hnames

theorem Steps.apart (ha : Sound a) (h : Steps K a b) (hapart : a.scopes.Apart a.current) :
    b.scopes.Apart b.current := by
  induction h with
  | refl => exact hapart
  | step h =>
    rw [h.current_eq]
    cases h with
    | scopes a h => exact hapart.step ha.scopes ha.has h
    | _ => exact hapart
  | trans h _ ih ih' => exact ih' (ha.steps h) (ih ha hapart)
  | mono _ _ ih => exact ih ha hapart

theorem Walk.apart (ha : Sound a) (h : Walk K a b) (hapart : a.scopes.Apart a.current) :
    b.scopes.Apart b.current := by
  induction h with
  | steps h => exact h.apart ha hapart
  | trans h _ ih ih' => exact ih' (ha.walk h) (ih ha hapart)
  | mono _ _ ih => exact ih ha hapart
  | inside hp hk body _ =>
    have hb := body.apart_back ha hapart hp (ha.enter hp (hk.imp_right And.right))
    exact hb
  | routine hp _ hempty _ body after _ _ =>
    have hs := ha.enter hp (Or.inr hempty)
    have hb := body.apart_back ha hapart hp hs
    have hc := after.apart ((hs.walk body).back hp body) hb
    exact hc
  | type hp _ hempty _ _ _ _ _ _ body after _ _ =>
    have hs := ha.enter hp (Or.inr hempty)
    have hb := body.apart_back ha hapart hp hs
    have hc := after.apart ((hs.walk body).back hp body) hb
    exact hc

theorem Enterable.apart (h : Enterable a s) (ha : Sound a) (ht : a.scopes.TypesInBodies)
    (hapart : a.scopes.Apart a.current) : a.scopes.Apart s := by
  rcases h.open_eq with ⟨hk, -⟩ | hu
  · refine hapart.inside ha.scopes.toWF h.parent (fun b hb => ?_) ?_
    · have hmay := (ha.scopes.entries s b hb).1
      rw [Scopes.MayDeclare, hk] at hmay
      exact hmay.elim
    · by_contra hne
      have hbody := ht s hne
      rw [hk] at hbody
      exact absurd hbody (by decide)
  · exact hapart.inside ha.scopes.toWF h.parent hu.params hu.types

theorem Passes.apart (ha : Sound a) (ht : a.scopes.TypesInBodies)
    (hapart : a.scopes.Apart a.current) (h : Passes a b) : b.scopes.Apart b.current := by
  induction h with
  | refl => exact hapart
  | walk h h' ih => exact h'.apart (h.sound ha) ih
  | enter h hs ih => exact hs.apart (h.sound ha) (h.typesInBodies ha ht) ih
  | back h hs body ih =>
    have hb := body.apart_back (h.sound ha) ih hs.parent (hs.sound (h.sound ha))
    exact hb

/-! ## The start -/

theorem typesInBodies_blank (program : String) : (blank program).scopes.TypesInBodies := by
  intro s hs
  by_cases h : (blank program).scopes.Has s
  · obtain rfl := Scopes.has_root h
    rfl
  · rw [Scopes.get_of_not_has h] at hs
    exact absurd rfl hs

theorem apart_blank (program : String) : (blank program).scopes.Apart (blank program).current := by
  intro o ho b hb
  obtain rfl := Scopes.has_root (Scopes.has_of_mem_entries hb)
  exact absurd hb List.not_mem_nil

/-! ## Reached states -/

section Reached

variable {program : String} {q : Program} {T : Task} {n : String}

/-- Wherever an analysis looks up a name, it finds the nearest declaration, unless static
initial values have captured the name before. -/
theorem Reached.finds_nearest (h : Reached program q T a)
    (hn : (a.scopes.get a.current).kind = .fieldInit →
      (a.scopes.get a.current).capture? n = none) :
    a.scopes.resolveValue a.current n = a.scopes.nearest? a.current n :=
  h.sound.linked.resolveValue_eq h.sound.scopes hn

/-- The routine `note` of `nested` sees the variable `count` of the program, through a
routine and a type. -/
theorem finds_nearest_nested : ∃ a, Reached "demo" nested (.name "count") a ∧
    (a.scopes.get a.current).kind = .routine ∧
      a.scopes.resolveValue a.current "count" = a.scopes.nearest? a.current "count" := by
  have hfollow : (Task.follow [1, 0, 0, 1, 2, 2, 0, 0, 1, 0, 1, 0, 0, 0, 0, 0, 0]
      (.stmts nested.stmts, initial "demo")).any (Call.looksUp "count" fun a =>
        (a.scopes.get a.current).kind == .routine) = true := by decide +kernel
  obtain ⟨a, h, hk⟩ := Reached.exists_lookup hfollow
  have hkind := eq_of_beq hk
  exact ⟨a, h, hkind, h.finds_nearest fun hinit => by simp [hkind] at hinit⟩

/-- A program with static initial values that use one name before and behind a static
member of that name:

```
integer x = 1
type T
  static integer a = x
  static integer x = 5
  static integer b = x
end T
```
-/
def recaptured : Program := (Draft.build [
  .define ⟨none, .of "integer", ["x"], .int 1⟩,
  .type ⟨none, "T", [], [⟨none, .of "integer", ["a"], .chain (.of ["x"])⟩,
    ⟨none, .of "integer", ["x"], .int 5⟩, ⟨none, .of "integer", ["b"], .chain (.of ["x"])⟩],
    [], [], none⟩]).1

/-- The last of its initial values still finds the variable outside of the type. -/
theorem stale_capture : (analyze "demo" recaptured).errors = [] ∧
    ¬ ∀ n a, Reached "demo" recaptured (.name n) a →
      a.scopes.resolveValue a.current n = a.scopes.nearest? a.current n := by
  have herrors : (analyze "demo" recaptured).errors = [] := by decide +kernel
  have hfollow : (Task.follow [1, 0, 0, 1, 1, 1, 1, 0, 0, 0, 0, 0]
      (.stmts recaptured.stmts, initial "demo")).any (Call.looksUp "x" fun a =>
        a.scopes.resolveValue a.current "x" != a.scopes.nearest? a.current "x") = true := by
    decide +kernel
  obtain ⟨a, h, hne⟩ := Reached.exists_lookup hfollow
  exact ⟨herrors, fun hall => (bne_iff_ne.mp hne) (hall "x" a h)⟩

theorem Reached.apart (h : Reached program q T a) : a.scopes.Apart a.current := by
  have hs := steps_initial program
  have hblank := sound_blank program
  exact ((Passes.steps hs).trans h.passes).apart hblank (typesInBodies_blank program)
    (apart_blank program)

/-- Wherever an analysis looks up a name that is visible both as a value and as a type, the
value is a parameter. -/
theorem Reached.param_of_value_and_type (h : Reached program q T a) {r : Scopes.Resolved}
    {type : TypeId} (hvalue : a.scopes.resolveValue a.current n = some r)
    (htype : a.scopes.resolveType a.current n = some type) : r.binding.role = .param := by
  by_contra hrole
  obtain ⟨rfl, hmeant⟩ := h.sound.scopes.meant hvalue
  rw [h.apart _ hmeant.owner_mem _ hmeant.declared hrole] at htype
  exact absurd htype (by simp)

/-- A routine with a parameter that is called as its type:

```
routine f(integer integer) returns integer
  return integer
end f
```
-/
def homonym : Program := (Draft.build [
  .routine ⟨none, "f", [(.of "integer", "integer")], some (.of "integer"), [],
    some (.chain (.of ["integer"])), none⟩]).1

theorem reached_homonym : ∃ a r type, Reached "demo" homonym (.name "integer") a ∧
    a.scopes.resolveValue a.current "integer" = some r ∧
      a.scopes.resolveType a.current "integer" = some type := by
  have hfollow : (Task.follow [0, 1, 1, 0, 0, 0, 0]
      (.stmts homonym.stmts, initial "demo")).any (Call.looksUp "integer" fun a =>
        (a.scopes.resolveValue a.current "integer").isSome &&
          (a.scopes.resolveType a.current "integer").isSome) = true := by decide +kernel
  obtain ⟨a, h, hboth⟩ := Reached.exists_lookup hfollow
  obtain ⟨hvalue, htype⟩ := Bool.and_eq_true_iff.mp hboth
  obtain ⟨r, hr⟩ := Option.isSome_iff_exists.mp hvalue
  obtain ⟨type, ht⟩ := Option.isSome_iff_exists.mp htype
  exact ⟨a, r, type, h, hr, ht⟩

theorem param_of_value_and_type_homonym : ∃ a r type,
    Reached "demo" homonym (.name "integer") a ∧
      a.scopes.resolveValue a.current "integer" = some r ∧
        a.scopes.resolveType a.current "integer" = some type ∧ r.binding.role = .param := by
  obtain ⟨a, r, type, h, hr, ht⟩ := reached_homonym
  exact ⟨a, r, type, h, hr, ht, h.param_of_value_and_type hr ht⟩

/-- The parameter hides the type, and nothing is reported. -/
theorem parameter_hides_type : (analyze "demo" homonym).errors = [] ∧
    ¬ ∀ n a, Reached "demo" homonym (.name n) a →
      a.scopes.resolveValue a.current n = none ∨ a.scopes.resolveType a.current n = none := by
  have herrors : (analyze "demo" homonym).errors = [] := by decide +kernel
  obtain ⟨a, r, type, h, hr, ht⟩ := reached_homonym
  refine ⟨herrors, fun hall => ?_⟩
  rcases hall "integer" a h with hnone | hnone
  · exact absurd (hnone.symm.trans hr) (by simp)
  · exact absurd (hnone.symm.trans ht) (by simp)

end Reached

end Analysis

end Unnest
