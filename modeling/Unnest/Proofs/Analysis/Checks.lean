import Unnest.Proofs.Analysis.Reached
import Unnest.Proofs.Analysis.Recorded
import Unnest.Proofs.Analysis.Reports
import Unnest.Proofs.Analysis.Sparing

/-!
# Checks before a declaration

Before anything is declared, it is checked: written types are resolved, values are analysed,
and names are looked up to see whether they are taken.  A check leaves errors, captures, new
types and findings about values, and nothing that a declaration leaves (`Checks`).

`IsCheck m Q` says so of a part `m` of the analysis, for all tables, and `Q` relates its
result to the errors that it reports.  A result is missing, or a name refused, exactly when
something is reported.

The checks of a routine come before everything that declaring it does.  `checkRoutine` is
these checks, `enterRoutine` the rest (`run_declareRoutine_of_some`), and what has come
through the checks is declared (`exists_enterRoutine`).  In the same way a type is opened
that is not refused (`run_openType`).
-/

namespace Unnest

/-- The same declarations, routines and types are on record. -/
structure Findings.SameDeclared (f g : Findings) : Prop where
  decls : g.decls = f.decls
  routines : g.routines = f.routines
  types : g.types = f.types

theorem Findings.SameDeclared.refl (f : Findings) : f.SameDeclared f := ⟨rfl, rfl, rfl⟩

theorem Findings.SameDeclared.trans {f g i : Findings} (h : f.SameDeclared g)
    (h' : g.SameDeclared i) : f.SameDeclared i :=
  ⟨h'.decls.trans h.decls, h'.routines.trans h.routines, h'.types.trans h.types⟩

namespace Analysis

open Analyze

variable {α β : Type} {K L : Multiset Key} {a b c : Analysis} {es fs : List SemanticError}
  {s : ScopeId}

/-! ## What is recorded -/

/-- Keys under which nothing is declared. -/
def OfValues (K : Multiset Key) : Prop :=
  ∀ k ∈ K, k.1 ≠ .decls ∧ k.1 ≠ .routines ∧ k.1 ≠ .types

theorem ofValues_zero : OfValues 0 := fun _ hk => absurd hk (Multiset.notMem_zero _)

theorem OfValues.add (hK : OfValues K) (hL : OfValues L) : OfValues (K + L) := fun k hk =>
  (Multiset.mem_add.mp hk).elim (hK k) (hL k)

/-- Expressions and their links declare nothing. -/
theorem ofValues_expr (e : Expr) : OfValues (Part.allKeys e.parts) := by
  intro k hk
  obtain ⟨x, hx, hk⟩ := List.mem_flatMap.mp (Multiset.mem_coe.mp hk)
  obtain ⟨table, htable, rfl⟩ := List.mem_map.mp hk
  have hvalue := Expr.isValue_of_mem_parts e hx
  cases x with
  | expr e =>
    cases e <;> simp only [Part.tables, List.mem_cons, List.not_mem_nil, or_false] at htable <;>
      grind
  | link l =>
    obtain rfl := List.mem_singleton.mp htable
    simp
  | _ => exact absurd hvalue Bool.false_ne_true

theorem Step.sameDeclared (h : Step K a b) (hK : OfValues K) :
    a.findings.SameDeclared b.findings := by
  cases h with
  | record a h =>
    cases h with
    | decl node => exact absurd rfl (hK _ (Multiset.mem_singleton_self _)).1
    | routine node => exact absurd rfl (hK _ (Multiset.mem_singleton_self _)).2.1
    | _ => exact ⟨rfl, rfl, rfl⟩
  | report | types | plan | scopes => exact .refl _

theorem Steps.sameDeclared (h : Steps K a b) (hK : OfValues K) :
    a.findings.SameDeclared b.findings := by
  induction h with
  | refl => exact .refl _
  | step h => exact h.sameDeclared hK
  | trans _ _ ih ih' =>
    exact (ih fun k hk => hK k (Multiset.mem_add.mpr (.inl hk))).trans
      (ih' fun k hk => hK k (Multiset.mem_add.mpr (.inr hk)))
  | mono _ hKL ih => exact ih fun k hk => hK k (Multiset.mem_of_le hKL hk)

/-! ## Checks -/

/-- What checks that report `es` leave of the tables.  No scope declares a value or a type,
opens a scope, or takes a slot or a token for a block; no unit is planned; the types that
there are keep their members, and no user type is added; and no declaration, routine or type
is recorded. -/
structure Checks (a : Analysis) (es : List SemanticError) (b : Analysis) : Prop
    extends Leaves a es b where
  types : ∀ id, a.types.Has id → b.types.get id = a.types.get id
  has : ∀ id, a.types.Has id → b.types.Has id
  users : ∀ id, b.types.form id = .user → a.types.form id = .user
  recorded : a.findings.SameDeclared b.findings

namespace Checks

theorem refl (a : Analysis) : Checks a [] a :=
  ⟨.refl a, fun _ _ => rfl, fun _ h => h, fun _ h => h, .refl _⟩

theorem trans (h : Checks a es b) (h' : Checks b fs c) : Checks a (es ++ fs) c :=
  ⟨h.toLeaves.trans h'.toLeaves, fun id hid => (h'.types id (h.has id hid)).trans (h.types id hid),
    fun id hid => h'.has id (h.has id hid), fun id hid => h.users id (h'.users id hid),
    h.recorded.trans h'.recorded⟩

/-- Checks in another scope, and back. -/
theorem of_enter (h : Checks { a with current := s } es b) :
    Checks a es { b with current := a.current } :=
  ⟨⟨rfl, h.units, h.size_eq, h.scopes, h.errors⟩, h.types, h.has, h.users, h.recorded⟩

end Checks

/-- A part of the analysis that checks something. -/
structure IsCheck (m : Analyze α) (Q : α → List SemanticError → Prop) : Prop where
  reports : Reports m Q
  quiet : Quiet m
  keeps : ∀ h, Keeps h Set.univ m
  steps : ∀ a, Sound a → ∃ K, OfValues K ∧ Steps K a (m.run a).2

namespace IsCheck

variable {m : Analyze α} {P : α → List SemanticError → Prop} {Q : β → List SemanticError → Prop}

theorem pure {x : α} (h : P x []) : IsCheck (Pure.pure x) P :=
  ⟨.pure h, .pure x, fun _ => .done, fun a _ => ⟨0, ofValues_zero, .refl a⟩⟩

theorem bind {f : α → Analyze β} (hm : IsCheck m P)
    (hf : ∀ x, IsCheck (f x) fun y fs => ∀ es, P x es → Q y (es ++ fs)) : IsCheck (m >>= f) Q := by
  refine ⟨hm.reports.bind fun x => (hf x).reports, hm.quiet.bind fun x => (hf x).quiet,
    fun h => (hm.keeps h).next fun x => (hf x).keeps h, fun a ha => ?_⟩
  obtain ⟨K, hK, hs⟩ := hm.steps a ha
  obtain ⟨L, hL, hs'⟩ := (hf _).steps _ (ha.steps hs)
  exact ⟨K + L, hK.add hL, hs.trans hs'⟩

theorem conseq {P' : α → List SemanticError → Prop} (hm : IsCheck m P)
    (hP : ∀ x es, P x es → P' x es) : IsCheck m P' :=
  ⟨hm.reports.conseq hP, hm.quiet, hm.keeps, hm.steps⟩

/-- Steps that write nothing. -/
theorem of_decides {D : Analysis → α → Prop} (hr : Reports m P) (hq : Quiet m)
    (hk : ∀ h, Keeps h Set.univ m) (hd : ∀ p, Decides p 0 m D) : IsCheck m P :=
  ⟨hr, hq, hk, fun a ha => ⟨0, ofValues_zero, (hd (.since a) a (Place.at_since ha)).1⟩⟩

/-- What a check leaves, and what holds of its result and of the errors. -/
theorem run (hm : IsCheck m P) (ha : Sound a) :
    Sound (m.run a).2 ∧ ∃ es, Checks a es (m.run a).2 ∧ P (m.run a).1 es := by
  obtain ⟨es, hl, hp⟩ := hm.reports a
  obtain ⟨K, hK, hs⟩ := hm.steps a ha
  obtain ⟨-, hspares, -⟩ := hm.keeps a.here a (confined_here ha)
  have htypes := (hm.quiet a).types
  exact ⟨ha.steps hs, es, ⟨hl, hspares.types, fun _ => htypes.has, htypes.users,
    hs.sameDeclared hK⟩, hp⟩

end IsCheck

/-! ## Types and values -/

/-- A result out of two others: each of them is missing exactly when it is reported. -/
theorem exact_zip {γ : Type} {x : Option α} {y : Option β} (f : α → β → γ) (hx : Exact x es)
    (hy : Exact y fs) : Exact (x.bind fun u => y.map (f u)) (es ++ fs) := by
  rw [Exact] at hx hy
  rw [Exact, List.append_eq_nil_iff, ← hx, ← hy]
  cases x with
  | none => exact iff_of_false Bool.false_ne_true fun h => Bool.false_ne_true h.1
  | some u =>
    rw [Option.bind_some, Option.isSome_map]
    exact (and_iff_right rfl).symm

theorem reports_addRoutineType (params : List TypeId) (result : Option TypeId) :
    Reports (addRoutineType params result) NoReport :=
  fun _ => ⟨[], ⟨rfl, rfl, rfl, fun _ => rfl, (List.append_nil _).symm⟩, rfl⟩

mutual

/-- A written type has a meaning exactly if nothing is reported. -/
theorem reports_resolve : (w : WrittenType) → Reports (resolve w) Exact
  | .named name => by
    refine (reports_resolveType name.name).andThen fun found => ?_
    cases found with
    | none => exact reports_reject _ _
    | some type => exact .pure exact_some
  | .routine params result _ => by
    refine (reports_resolveAll params).bind fun ps => ?_
    cases ps with
    | none =>
      -- the result is resolved all the same
      refine (reports_resolveResult result).bind fun r => ?_
      cases r <;> exact .pure fun fs _ es hes => exact_none (List.append_ne_nil_of_left_ne_nil
        (fun h => Bool.false_ne_true (hes.mpr h)) _)
    | some ps =>
      refine (reports_resolveResult result).bind fun r => ?_
      cases r with
      | none =>
        exact .pure fun fs hfs es _ => exact_none (List.append_ne_nil_of_right_ne_nil _
          (List.append_ne_nil_of_left_ne_nil (fun h => Bool.false_ne_true (hfs.mpr h)) _))
      | some r =>
        refine ((reports_addRoutineType ps r).andThen fun type => .pure exact_some).conseq
          fun x gs hx fs hfs es hes => ?_
        rw [hes.mp rfl, hfs.mp rfl]
        exact hx

theorem reports_resolveAll : (ws : List WrittenType) → Reports (resolveAll ws) Exact
  | [] => .pure exact_some
  | w :: ws => (reports_resolve w).bind fun _ => (reports_resolveAll ws).bind fun _ =>
      .pure fun fs hrest es hfirst => by
        rw [List.append_nil]
        exact exact_zip List.cons hfirst hrest

theorem reports_resolveResult : (w : Option WrittenType) → Reports (resolveResult w) Exact
  | none => .pure exact_some
  | some w => (reports_resolve w).bind fun type => .pure fun es hes => by
      rw [List.append_nil]
      rwa [Exact, Option.isSome_map]

end

theorem isCheck_resolve (w : WrittenType) : IsCheck (resolve w) Exact :=
  .of_decides (reports_resolve w) (quiet_resolve w) (fun _ => keeps_resolve w)
    (decides_resolve · w)

theorem isCheck_resolveAll (ws : List WrittenType) : IsCheck (resolveAll ws) Exact :=
  .of_decides (reports_resolveAll ws) (quiet_resolveAll ws) (fun _ => keeps_resolveAll ws)
    (decides_resolveAll · ws)

theorem isCheck_resolveResult (w : Option WrittenType) : IsCheck (resolveResult w) Exact :=
  .of_decides (reports_resolveResult w) (quiet_resolveResult w) (fun _ => keeps_resolveResult w)
    (decides_resolveResult · w)

theorem isCheck_operand (e : Expr) : IsCheck (operand e) Exact :=
  ⟨reports_required e.span (reports_expr e), quiet_operand e,
    fun _ => keeps_operand e fun _ _ _ _ _ => Set.mem_univ _,
    fun a ha => ⟨_, ofValues_expr e,
      (decides_requiredExpr (decides_expr (Place.since a) e) a (Place.at_since ha)).1⟩⟩

theorem isCheck_initialMode (target value : TypeId) (span : Span) :
    IsCheck (initialMode target value span) Exact := by
  refine .of_decides (reports_types.andThen fun t => ?_) (quiet_initialMode target value span)
    (fun _ => keeps_initialMode target value span) fun _ => decides_initialMode target value span
  split
  · exact .pure exact_some
  · exact reports_reject _ _

/-! ## Names -/

/-- Something is refused exactly if it is reported. -/
def Refuses (refused : Bool) (es : List SemanticError) : Prop := refused = true ↔ es ≠ []

theorem reports_refuse (fault : Fault) (span : Span) :
    Reports (report fault span >>= fun _ => pure true) Refuses :=
  fun a => ⟨_, leaves_report a ⟨fault, span⟩, iff_of_true rfl (List.cons_ne_nil _ _)⟩

theorem refuses_not : Refuses false [] := iff_of_false Bool.false_ne_true fun h => h rfl

theorem isCheck_refuseName (name : Ident) : IsCheck (refuseName name) Refuses := by
  refine .of_decides (fun a => ?_) (quiet_refuseName name) (fun _ => keeps_refuseName name)
    fun _ => decides_refuseName name
  rw [run_refuseName]
  split
  · exact reports_refuse _ _ a
  · split
    · exact reports_refuse _ _ a
    · exact ⟨[], .refl a, refuses_not⟩

theorem isCheck_refuseType (name : Ident) : IsCheck (refuseType name) Refuses := by
  refine .of_decides (fun a => ?_) (quiet_refuseType name) (fun _ => keeps_refuseType name)
    fun _ => decides_refuseType name
  rw [run_refuseType]
  split
  · exact reports_refuse _ _ a
  · split
    · exact reports_refuse _ _ a
    · exact ⟨[], .refl a, refuses_not⟩

theorem isCheck_refuseMember (member : Option Membership) (name : Ident) (args : List TypeId) :
    IsCheck (refuseMember member name args) Refuses := by
  refine .of_decides (reports_types.andThen fun t => ?_) (quiet_refuseMember member name args)
    (fun _ => keeps_refuseMember member name args) fun _ => decides_refuseMember member name args
  cases member with
  | none => exact .pure refuses_not
  | some m =>
    dsimp only
    split
    · exact reports_refuse _ _
    · exact .pure refuses_not

/-! ## Routines -/

/-- Decides about the signature and the name of a routine. -/
def checkRoutine (member : Option Membership) (r : RoutineDef) :
    Analyze (Option (List TypeId × Option TypeId)) := do
  let params ← resolveAll (r.params.map (·.type))
  let result ← resolveResult r.result
  let (some params, some result) := (params, result) | return none
  if ← refuseMember member r.name params then return none
  if ← refuseName r.name then return none
  return some (params, result)

/-- Declares a routine that came through the checks. -/
def enterRoutine (member : Option Membership) (r : RoutineDef) (params : List TypeId)
    (result : Option TypeId) : Analyze (Option DeclaredRoutine) := do
  let type ← addRoutineType params result
  let some binding ←
    declare (← currentScope) (routineBinding member r.name.name type) r.name.span | return none
  let signature : Signature := ⟨r.name.name, params, result⟩
  addMember member signature
  return some (← openRoutine r member signature binding)

section Routines

variable {member : Option Membership} {r : RoutineDef} {params : List TypeId}
  {result : Option TypeId}

/-- The checks come first, and then, if they have a result, the rest. -/
theorem declareRoutine_eq (member : Option Membership) (r : RoutineDef) :
    declareRoutine member r = checkRoutine member r >>= fun x =>
      x.elim (pure none) fun s => enterRoutine member r s.1 s.2 := by
  rw [declareRoutine, checkRoutine, bind_assoc]
  refine bind_congr fun params => ?_
  rw [bind_assoc]
  refine bind_congr fun result => ?_
  cases params with
  | none => rfl
  | some params =>
    cases result with
    | none => rfl
    | some result =>
      dsimp only
      rw [bind_assoc]
      refine bind_congr fun refused => ?_
      cases refused with
      | true => rfl
      | false =>
        rw [if_neg Bool.false_ne_true, if_neg Bool.false_ne_true, bind_assoc]
        refine bind_congr fun refused => ?_
        cases refused <;> rfl

theorem run_declareRoutine_of_none (h : ((checkRoutine member r).run a).1 = none) :
    (declareRoutine member r).run a = (none, ((checkRoutine member r).run a).2) := by
  rw [declareRoutine_eq, StateT.run_bind]
  generalize (checkRoutine member r).run a = x at h
  obtain ⟨s, b⟩ := x
  obtain rfl := h
  rfl

theorem run_declareRoutine_of_some {x : List TypeId × Option TypeId}
    (h : ((checkRoutine member r).run a).1 = some x) : (declareRoutine member r).run a =
      (enterRoutine member r x.1 x.2).run ((checkRoutine member r).run a).2 := by
  rw [declareRoutine_eq, StateT.run_bind]
  generalize (checkRoutine member r).run a = x at h
  obtain ⟨s, b⟩ := x
  obtain rfl := h
  rfl

theorem Exact.eq_nil {x : α} (h : Exact (some x) es) : es = [] := h.mp rfl

theorem Exact.ne_nil (h : Exact (none : Option α) es) : es ≠ [] := fun heq =>
  Bool.false_ne_true (h.mpr heq)

/-- Nothing after what is missing makes up for it. -/
theorem exact_missing (h : Exact (none : Option α) es) :
    Exact (none : Option β) (es ++ fs) :=
  exact_none (List.append_ne_nil_of_left_ne_nil h.ne_nil fs)

/-- A name that is refused is missing. -/
theorem isCheck_unlessRefused {m : Analyze Bool} {f : Analyze (Option β)} (hm : IsCheck m Refuses)
    (hf : IsCheck f Exact) :
    IsCheck (m >>= fun refused => if refused = true then pure none else f) Exact := by
  refine hm.bind fun refused => ?_
  cases refused with
  | true =>
    exact .pure fun es hes => exact_none (List.append_ne_nil_of_left_ne_nil (hes.mp rfl) _)
  | false =>
    refine hf.conseq fun y fs hy es hes => ?_
    rw [not_ne_iff.mp (hes.not.mp Bool.false_ne_true)]
    exact hy

/-- A signature and a name are accepted exactly if nothing is reported. -/
theorem isCheck_checkRoutine (member : Option Membership) (r : RoutineDef) :
    IsCheck (checkRoutine member r) Exact := by
  refine (isCheck_resolveAll _).bind fun params => (isCheck_resolveResult r.result).bind
    fun result => ?_
  cases params with
  | none => exact .pure fun fs _ es hes => exact_missing hes
  | some params =>
    cases result with
    | none =>
      refine .pure fun fs hfs es hes => ?_
      rw [hes.eq_nil, List.nil_append]
      exact exact_missing hfs
    | some result =>
      refine (isCheck_unlessRefused (isCheck_refuseMember member r.name params)
        (isCheck_unlessRefused (isCheck_refuseName r.name)
          (.pure exact_some))).conseq fun y gs hy fs hfs es hes => ?_
      rw [hes.eq_nil, hfs.eq_nil]
      exact hy

/-- A part of the analysis has results in some states only. -/
def OnlyIn (P : Analysis → Prop) (m : Analyze (Option α)) : Prop :=
  ∀ a x, (m.run a).1 = some x → P (m.run a).2

namespace OnlyIn

variable {P : Analysis → Prop}

theorem none : OnlyIn P (pure none : Analyze (Option α)) := fun _ _ h => absurd h (by simp)

theorem bind {m : Analyze α} {f : α → Analyze (Option β)} (hf : ∀ x, OnlyIn P (f x)) :
    OnlyIn P (m >>= f) := fun a => hf (m.run a).1 (m.run a).2

end OnlyIn

/-- A name is free in the current scope. -/
def IsFree (name : String) (a : Analysis) : Prop :=
  (a.scopes.get a.current).binding? name = none ∧ a.scopes.resolveType a.current name = none

/-- A name that comes through the checks is free in the scope that it is to be declared in. -/
theorem isFree_of_checkRoutine (member : Option Membership) (r : RoutineDef) :
    OnlyIn (IsFree r.name.name) (checkRoutine member r) := by
  refine .bind fun params => .bind fun result => ?_
  cases params with
  | none => exact .none
  | some params =>
    cases result with
    | none => exact .none
    | some result =>
      refine .bind fun refused => ?_
      cases refused with
      | true => exact .none
      | false =>
        intro a x h
        cases hrun : (refuseName r.name).run a with
        | mk refused b =>
          rw [if_neg Bool.false_ne_true, StateT.run_bind, hrun] at h ⊢
          cases refused with
          | true =>
            have hnone : none = some x := h
            exact absurd hnone (by simp)
          | false =>
            obtain ⟨rfl, hvalue, htype⟩ := eq_of_refuseName hrun
            exact ⟨hvalue, htype⟩

theorem type?_of_resolveType {t : Scopes} {name : String} (h : t.resolveType s name = none) :
    (t.get s).type? name = none :=
  List.findSome?_eq_none_iff.mp h s (Scopes.mem_path_self t s)

theorem binding?_of_resolveValue {t : Scopes} {name : String} (h : t.resolveValue s name = none) :
    (t.get s).binding? name = none := by
  have hanswer : t.answer? name s = none :=
    List.findSome?_eq_none_iff.mp h s (Scopes.mem_path_self t s)
  rw [Scopes.answer?_eq_none, Scope.knows, Bool.or_eq_false_iff] at hanswer
  exact Option.not_isSome_iff_eq_none.mp (Bool.eq_false_iff.mp hanswer.1)

/-- A name that is free can be declared. -/
theorem exists_declare {x : Binding} (h : IsFree x.name a) (span : Span) :
    ∃ y scopes, a.scopes.declare a.current x span = .ok (y, scopes) := by
  obtain ⟨hvalue, htype⟩ := h
  rw [Scopes.declare, hvalue, type?_of_resolveType htype]
  exact ⟨_, _, rfl⟩

/-- A routine with a free name gets a binding of a new type, is added to the type that it is
a member of, and is opened. -/
theorem run_enterRoutine (member : Option Membership) (params : List TypeId)
    (result : Option TypeId) (h : IsFree r.name.name a) : ∃ x scopes,
    a.scopes.declare a.current (routineBinding member r.name.name
      (a.types.addRoutineType params result).1) r.name.span = .ok (x, scopes) ∧
    (enterRoutine member r params result).run a =
      ((openRoutine r member ⟨r.name.name, params, result⟩ x).run
        ((addMember member ⟨r.name.name, params, result⟩).run
          { a with types := (a.types.addRoutineType params result).2, scopes }).2).map some id := by
  obtain ⟨x, scopes, hdeclare⟩ := exists_declare (x := routineBinding member r.name.name
    (a.types.addRoutineType params result).1) (by rwa [name_routineBinding]) r.name.span
  refine ⟨x, scopes, hdeclare, ?_⟩
  set c : Analysis := { a with types := (a.types.addRoutineType params result).2 }
  have hrun : (enterRoutine member r params result).run a = StateT.run (do
      let some binding ← declare a.current (routineBinding member r.name.name
        (a.types.addRoutineType params result).1) r.name.span | return none
      addMember member ⟨r.name.name, params, result⟩
      return some (← openRoutine r member ⟨r.name.name, params, result⟩ binding)) c := rfl
  rw [hrun, StateT.run_bind, run_declare, show c.scopes = a.scopes from rfl, hdeclare]
  rfl

/-- Whatever comes through the checks is declared, and is on record. -/
theorem exists_enterRoutine (h : IsFree r.name.name a) :
    ∃ d, ((enterRoutine member r params result).run a).1 = some d ∧
      ((enterRoutine member r params result).run a).2.findings.Defines (.routines, r.node) := by
  obtain ⟨x, b, -, hrun⟩ := run_enterRoutine member params result h
  rw [hrun, run_openRoutine]
  exact ⟨_, rfl, NodeTable.isSome_of_mem List.mem_cons_self⟩

end Routines

/-! ## Types -/

theorem run_openType_of_refused {name : Ident} (h : ((refuseType name).run a).1 = true) :
    (openType name).run a = (none, ((refuseType name).run a).2) := by
  rw [openType, StateT.run_bind]
  generalize (refuseType name).run a = x at h
  obtain ⟨refused, b⟩ := x
  obtain rfl := h
  rfl

/-- The tables in which a type is declared and its scopes are still to be opened. -/
def addedType (a : Analysis) (name : String) (scopes : Scopes) : Analysis :=
  { a with types := (a.types.add { name, form := .user }).2, scopes }

theorem run_bind_of {α β : Type} {m : Analyze α} {f : α → Analyze β} {x : α}
    (h : m.run a = (x, b)) : (m >>= f).run a = (f x).run b := by
  rw [StateT.run_bind, h]
  rfl

/-- A type that is not refused is declared and opened. -/
theorem run_openType {name : Ident} (h : ((refuseType name).run a).1 = false) : ∃ scopes,
    a.scopes.declareType a.current name.name ⟨a.types.size⟩ name.span = .ok scopes ∧
    (openType name).run a =
      (some (typeFinding (addedType a name.name scopes) name.name ⟨a.types.size⟩),
        { openedType (addedType a name.name scopes) name.name ⟨a.types.size⟩ with
          scopes := (openedType (addedType a name.name scopes) name.name
            ⟨a.types.size⟩).scopes.openMember ⟨scopes.size⟩ .fieldInit name.name ⟨a.units.size⟩
              (some ⟨a.types.size⟩) false }) := by
  cases hrefuse : (refuseType name).run a with
  | mk refused b =>
    rw [hrefuse] at h
    obtain rfl := h
    obtain ⟨rfl, htype, hvalue⟩ := eq_of_refuseType hrefuse
    obtain ⟨scopes, hdeclare⟩ : ∃ scopes,
        b.scopes.declareType b.current name.name ⟨b.types.size⟩ name.span = .ok scopes := by
      rw [Scopes.declareType, type?_of_resolveType htype, binding?_of_resolveValue hvalue]
      exact ⟨_, rfl⟩
    refine ⟨scopes, hdeclare, ?_⟩
    have hrun := run_declareType b.current name.name ⟨b.types.size⟩ name.span
      { b with types := (b.types.add { name := name.name, form := .user }).2 }
    dsimp only at hrun
    rw [hdeclare] at hrun
    rw [openType]
    refine (run_bind_of hrefuse).trans ?_
    rw [if_neg Bool.false_ne_true]
    exact (run_bind_of rfl).trans ((run_bind_of rfl).trans ((run_bind_of hrun).trans rfl))

/-- A type that is opened was not refused. -/
theorem not_refused_of_opened {name : Ident} {f : TypeFinding}
    (h : ((openType name).run a).1 = some f) : ((refuseType name).run a).1 = false := by
  refine Bool.eq_false_iff.mpr fun hrefuse => ?_
  rw [run_openType_of_refused hrefuse] at h
  exact Option.some_ne_none f h.symm

end Analysis

end Unnest
