import Unnest.Proofs.Analysis.Checks
import Unnest.Proofs.Analysis.Timeline

/-!
# Declarations that are rejected

A declaration is decided by checks, and what they reject declares nothing: it reports at
least one error, and leaves what checks leave (`Checks`).  This is so for names with or
without an initial value, for routines and for types, in every state that an analysis comes
to.

Routines and types that come through their checks are on record when the declaration is
done, whatever is wrong further inside, and they stay on record to the end of the analysis
(`Reached.rejects_or_records`).
-/

namespace Unnest

/-- No fields are added. -/
theorem TypeTable.update_addFields_nil (t : TypeTable) (id : TypeId) (isStatic : Bool) :
    (t.update id fun d => d.addFields isStatic []) = t := by
  have hnone : (fun d : TypeDecl => d.addFields isStatic []) = fun d => d := by
    funext d
    cases isStatic <;> simp [TypeDecl.addFields]
  rw [hnone]
  obtain ⟨types, base, memberTypes⟩ := t
  have hsame : types.modify id.index (fun d => d) = types := by
    refine Array.ext (by simp) fun i hi hi' => ?_
    rw [Array.getElem_modify, ite_self]
  exact congrArg (TypeTable.mk · base memberTypes) hsame

namespace Analysis

open Analyze

variable {program : String} {q : Program} {T : Task} {a b c : Analysis} {es : List SemanticError}

/-! ## What is rejected -/

/-- Whether an initial value is rejected: the type that it is declared with or the value itself
is missing, or the value cannot be written into that type. -/
def rejectsInit (type value : Option TypeId) (span : Span) (c : Analysis) : Bool :=
  type.all fun t => value.all fun v => ((initialMode t v span).run c).1.isNone

namespace Task

/-- What a task does that decides one declaration. -/
def declaration : Task → Analyze Unit
  | varDecl role owner d => discard (Analyze.varDecl role owner d)
  | instanceFields type (d :: _) => Analyze.instanceFields type [d]
  | initDecl d => Analyze.initDecl d
  | staticField type inner f => Analyze.staticField type inner f
  | declareRoutine member r => discard (Analyze.declareRoutine member r)
  | typeDef d => Analyze.typeDef d
  | _ => pure ()

/-- Whether the checks of a declaration reject it. -/
def rejected (a : Analysis) : Task → Bool
  | varDecl _ _ d | instanceFields _ (d :: _) => ((Analyze.resolve d.type).run a).1.isNone
  | initDecl d =>
    let (type, b) := (Analyze.resolve d.type).run a
    let (value, c) := (operand d.value).run b
    rejectsInit type value d.value.span c
  | staticField _ inner f =>
    let (value, b) := (inScope inner (operand f.init)).run a
    let (type, c) := (Analyze.resolve f.decl.type).run b
    rejectsInit type value f.init.span c
  | declareRoutine member r => ((checkRoutine member r).run a).1.isNone
  | typeDef d => ((refuseType d.name).run a).1
  | _ => false

/-- The key under which a routine or a type is recorded. -/
def recordKey : Task → Option Key
  | declareRoutine _ r => some (.routines, r.node)
  | typeDef d => some (.types, d.node)
  | _ => none

end Task

/-! ## Names -/

/-- Something is reported, and nothing else is left than what checks leave. -/
def Rejects (a b : Analysis) : Prop := ∃ es, es ≠ [] ∧ Checks a es b

theorem run_varDecl_of_none {role : Role} {owner : Option TypeId} {d : VarDecl}
    (h : ((resolve d.type).run a).1 = none) :
    (varDecl role owner d).run a = ([], ((resolve d.type).run a).2) := by
  rw [varDecl, StateT.run_bind]
  generalize (resolve d.type).run a = x at h
  obtain ⟨type, b⟩ := x
  obtain rfl := h
  rfl

theorem rejects_varDecl {role : Role} {owner : Option TypeId} {d : VarDecl} (ha : Sound a)
    (h : ((resolve d.type).run a).1 = none) : Rejects a ((varDecl role owner d).run a).2 := by
  obtain ⟨-, es, hchecks, hes⟩ := (isCheck_resolve d.type).run ha
  rw [run_varDecl_of_none h]
  rw [h] at hes
  exact ⟨es, hes.ne_nil, hchecks⟩

/-- A field that is rejected is not added to its type. -/
theorem run_instanceFields_of_none {type : TypeId} {d : VarDecl}
    (h : ((resolve d.type).run a).1 = none) :
    (instanceFields type [d]).run a = ((), ((varDecl .field (some type) d).run a).2) := by
  have hrun : (instanceFields type [d]).run a = ((), { ((varDecl .field (some type) d).run a).2 with
      types := ((varDecl .field (some type) d).run a).2.types.update type fun t =>
        t.addFields false ((varDecl .field (some type) d).run a).1 }) := rfl
  rw [hrun, run_varDecl_of_none h, TypeTable.update_addFields_nil]

/-- Checks of an initial value end a declaration, or one of the checks before did. -/
theorem checks_declareInit (node : NodeId) (role : Role) (owner : Option TypeId)
    (names : List Ident) {type value : Option TypeId} {span : Span} (hc : Sound c)
    (h : rejectsInit type value span c = true) :
    ∃ es, Checks c es ((declareInit node role owner names type value span).run c).2 ∧
      ((declareInit node role owner names type value span).run c).1 = [] ∧
      (type.isSome → value.isSome → es ≠ []) := by
  cases type with
  | none => exact ⟨[], .refl c, rfl, fun h => absurd h Bool.false_ne_true⟩
  | some type =>
    cases value with
    | none => exact ⟨[], .refl c, rfl, fun _ h => absurd h Bool.false_ne_true⟩
    | some value =>
      obtain ⟨-, es, hchecks, hes⟩ := (isCheck_initialMode type value span).run hc
      have hmode := Option.isNone_iff_eq_none.mp h
      rw [declareInit, StateT.run_bind]
      generalize (initialMode type value span).run c = x at hmode hchecks hes
      obtain ⟨mode, e⟩ := x
      obtain rfl := hmode
      exact ⟨es, hchecks, rfl, fun _ _ => hes.ne_nil⟩

theorem rejects_initDecl {d : InitDecl} (ha : Sound a) (h : (Task.initDecl d).rejected a = true) :
    Rejects a ((initDecl d).run a).2 := by
  obtain ⟨hb, es, htype, hes⟩ := (isCheck_resolve d.type).run ha
  obtain ⟨hc, fs, hvalue, hfs⟩ := (isCheck_operand d.value).run hb
  obtain ⟨gs, hinit, -, hgs⟩ := checks_declareInit d.node .var none d.names hc h
  refine ⟨es ++ fs ++ gs, fun heq => ?_, (htype.trans hvalue).trans hinit⟩
  rw [List.append_eq_nil_iff, List.append_eq_nil_iff] at heq
  exact hgs (hes.mpr heq.1.1) (hfs.mpr heq.1.2) heq.2

/-- A static member that is rejected is not added to its type. -/
theorem state_staticField {type : TypeId} {inner : ScopeId} {f : StaticField}
    {x y : Option TypeId × Analysis} {z : List Binding × Analysis}
    (hx : (inScope inner (operand f.init)).run a = x) (hy : (resolve f.decl.type).run x.2 = y)
    (hz : (declareInit f.decl.node .staticField (some type) f.decl.names y.1 x.1
      f.init.span).run y.2 = z) (hnone : z.1 = []) :
    ((staticField type inner f).run a).2 = z.2 := by
  have hrun : (staticField type inner f).run a =
      ((), { z.2 with types := z.2.types.update type fun d => d.addFields true z.1 }) := by
    subst hx hy hz
    rfl
  rw [hrun, hnone, TypeTable.update_addFields_nil]

theorem rejects_staticField {type : TypeId} {inner : ScopeId} {f : StaticField} (ha : Sound a)
    (hinner : Enterable a inner) (h : (Task.staticField type inner f).rejected a = true) :
    Rejects a ((staticField type inner f).run a).2 := by
  have hin := hinner.sound ha
  have hwalk := walk_operand hin f.init
  obtain ⟨-, es, hvalue, hes⟩ := (isCheck_operand f.init).run hin
  have hb := (hin.walk hwalk).back hinner.parent hwalk
  obtain ⟨hc, fs, htype, hfs⟩ := (isCheck_resolve f.decl.type).run hb
  obtain ⟨gs, hinit, hnone, hgs⟩ := checks_declareInit f.decl.node .staticField (some type)
    f.decl.names hc h
  rw [state_staticField rfl rfl rfl hnone]
  refine ⟨es ++ fs ++ gs, fun heq => ?_, (hvalue.of_enter.trans htype).trans hinit⟩
  rw [List.append_eq_nil_iff, List.append_eq_nil_iff] at heq
  exact hgs (hfs.mpr heq.1.2) (hes.mpr heq.1.1) heq.2

/-! ## Routines and types -/

theorem rejects_declareRoutine {member : Option Membership} {r : RoutineDef} (ha : Sound a)
    (h : ((checkRoutine member r).run a).1 = none) :
    Rejects a ((declareRoutine member r).run a).2 := by
  obtain ⟨-, es, hchecks, hes⟩ := (isCheck_checkRoutine member r).run ha
  rw [run_declareRoutine_of_none h]
  rw [h] at hes
  exact ⟨es, hes.ne_nil, hchecks⟩

theorem run_typeDef_of_refused {d : TypeDef} (h : ((refuseType d.name).run a).1 = true) :
    (typeDef d).run a = ((), ((refuseType d.name).run a).2) := by
  rw [run_typeDef, run_openType_of_refused h]

theorem rejects_typeDef {d : TypeDef} (ha : Sound a)
    (h : ((refuseType d.name).run a).1 = true) : Rejects a ((typeDef d).run a).2 := by
  obtain ⟨-, es, hchecks, hes⟩ := (isCheck_refuseType d.name).run ha
  rw [run_typeDef_of_refused h]
  exact ⟨es, hes.mp h, hchecks⟩

/-- A routine that comes through its checks is recorded. -/
theorem defines_declareRoutine {member : Option Membership} {r : RoutineDef}
    (h : ((checkRoutine member r).run a).1 ≠ none) :
    ((declareRoutine member r).run a).2.findings.Defines (.routines, r.node) := by
  obtain ⟨x, hx⟩ := Option.ne_none_iff_exists'.mp h
  rw [run_declareRoutine_of_some hx]
  obtain ⟨d, -, hdefines⟩ := exists_enterRoutine (isFree_of_checkRoutine member r a x hx)
  exact hdefines

theorem defines_typeDef {d : TypeDef} (h : ((refuseType d.name).run a).1 = false) :
    ((typeDef d).run a).2.findings.Defines (.types, d.node) := by
  obtain ⟨scopes, -, hopen⟩ := run_openType h
  obtain ⟨sources, hmem⟩ := recorded_finishType d _ _
  rw [Task.run_typeDef_of_some (congrArg Prod.fst hopen)]
  exact NodeTable.isSome_of_mem hmem

namespace Task

theorem Ready.rejects (hT : T.Ready a) (h : T.rejected a = true) :
    Rejects a (T.declaration.run a).2 := by
  obtain ⟨ha, hT⟩ := hT
  cases T with
  | varDecl => exact rejects_varDecl ha (Option.isNone_iff_eq_none.mp h)
  | instanceFields type ds =>
    cases ds with
    | nil => exact absurd h Bool.false_ne_true
    | cons d =>
      have hnone := Option.isNone_iff_eq_none.mp h
      rw [declaration, run_instanceFields_of_none hnone]
      exact rejects_varDecl ha hnone
  | initDecl => exact rejects_initDecl ha h
  | staticField => exact rejects_staticField ha hT.enterable h
  | declareRoutine => exact rejects_declareRoutine ha (Option.isNone_iff_eq_none.mp h)
  | typeDef => exact rejects_typeDef ha h
  | _ => exact absurd h Bool.false_ne_true

theorem defines_declaration {k : Key} (hk : k ∈ T.recordKey) (h : T.rejected a = false) :
    (T.declaration.run a).2.findings.Defines k := by
  cases T with
  | declareRoutine =>
    obtain rfl := Option.some.inj hk
    exact defines_declareRoutine fun hnone => by simp [rejected, hnone] at h
  | typeDef =>
    obtain rfl := Option.some.inj hk
    exact defines_typeDef h
  | _ => exact absurd hk (by simp [recordKey])

end Task

/-! ## To the end of the analysis -/

/-- Where the walk over a program starts: nothing is older than what is opened on it. -/
def outermost (n : Nat) : Horizon :=
  { scope := Scopes.rootId, scopes := 1, types := 0, opened := n }

theorem owns_outermost (n : Nat) (s : ScopeId) : (outermost n).Owns s := by
  obtain ⟨i⟩ := s
  cases i with
  | zero => exact .inl rfl
  | succ i => exact .inr (Nat.succ_le_succ (Nat.zero_le i))

/-- Scopes inside of others are opened on the way. -/
theorem reaches_outermost {s p : ScopeId} (ha : Sound a) (hp : a.scopes.parent s = some p) :
    (outermost a.scopes.size).Reaches s :=
  ⟨Nat.lt_of_le_of_lt (Nat.zero_le _) (ha.scopes.parent_lt s p hp), Scopes.has_of_parent hp⟩

theorem confined_outermost (ha : Sound a) : Confined (outermost a.scopes.size) a where
  current := owns_outermost _ _
  has := ha.has
  scopes := by
    refine ⟨Nat.one_pos, ha.scopes.root_has, Nat.le_refl _, fun s hs hhas => ?_⟩
    rcases ha.scopes.placed s hhas with ⟨-, hroot⟩ | ⟨p, hp, -⟩
    · rw [ha.siblings.alone s hhas hroot] at hs
      exact absurd hs (Nat.not_succ_le_zero 0)
    · exact ⟨p, hp, owns_outermost _ p, ha.scopes.parent_lt s p hp⟩
  types := Nat.zero_le _

/-- A scope that a definition stands in is not the outermost one. -/
theorem Task.Ready.within (hT : T.Ready a) : T.Within (outermost a.scopes.size) := by
  obtain ⟨ha, hT⟩ := hT
  cases T with
  | instanceFields | memberRoutines | declareMembers => exact Nat.zero_le _
  | declareRoutine => exact fun _ _ => Nat.zero_le _
  | staticField | staticFields => exact ⟨Nat.zero_le _, reaches_outermost ha hT.inType.parent⟩
  | members f =>
    obtain ⟨hin, -, hscope, -⟩ := hT
    have hne : a.current ≠ Scopes.rootId := fun heq => by
      have hkind := hin.2.1.1
      rw [heq, ha.scopes.root_kind] at hkind
      exact absurd hkind (by decide)
    have hscope' : (outermost a.scopes.size).Reaches f.scope := by
      rw [hscope]
      exact ⟨(owns_outermost 0 a.current).resolve_left hne, ha.has⟩
    exact ⟨Nat.zero_le _, hscope', reaches_outermost ha hin.parent⟩
  | routineBody => exact reaches_outermost ha hT.parent
  | routineBodies => exact fun d hd => reaches_outermost ha (hT.parent hd)
  | _ => trivial

/-- What is on record about definitions stays on record. -/
theorem Reached.recorded_end (h : Reached program q T a) (hT : T.IsPart) {k : Key}
    (hk : (Call.after (T, a)).findings.Defines k) : (analyze program q).findings.Defines k := by
  have hclimb := climb (c := (T, a)) (e := Call.after (T, a))
    (R := fun b c => ∀ k, b.findings.Defines k → c.findings.Defines k)
    (fun hbc hcd k hk => hcd k (hbc k hk)) Rests.recorded
    (fun y hy _ _ => (hy.within.keeps y.2 (confined_outermost hy.sound)).2.1.recorded)
    hT (fun _ hk => hk) (ready_first program q) h.leads
  rw [← after_first]
  exact hclimb.2.2 k hk

/-- Declarations that are rejected declare nothing: they report at least one error, and leave
what checks leave.  Routines and types that are not rejected are on record once they are
declared, and in the end, whatever is reported about what is inside of them. -/
theorem Reached.rejects_or_records (h : Reached program q T a) :
    (T.rejected a = true → Rejects a (T.declaration.run a).2) ∧
    ∀ k ∈ T.recordKey, T.rejected a = false → (T.declaration.run a).2.findings.Defines k ∧
      (analyze program q).findings.Defines k := by
  refine ⟨fun hrejected => h.comes.ready.rejects hrejected, fun k hk hnot => ?_⟩
  have hrecorded := Task.defines_declaration hk hnot
  refine ⟨hrecorded, ?_⟩
  cases T with
  | declareRoutine | typeDef => exact h.recorded_end trivial hrecorded
  | _ => exact absurd hk (by simp [Task.recordKey])

/-- A type with a member that is rejected, another one that is not right inside, and the
wrong name at its end:

```
type T
  routine get(integer n) returns integer
    y = 1
  end get
  routine put(missing n)
  end put
end S
```
-/
def unfinished : Program := (Draft.build [
  .type ⟨none, "T", [], [],
    [⟨none, "get", [(.of "integer", "n")], some (.of "integer"),
      [.assign none (.of ["y"]) (.int 1)], none, none⟩,
    ⟨none, "put", [(.of "missing", "n")], none, [], none, none⟩], [], some ⟨none, "S"⟩⟩]).1

/-- The routine `put` is rejected, and the routine `get` and the type are recorded in spite of
the other errors. -/
theorem rejects_or_records_unfinished : (analyze "demo" unfinished).errors.length = 4 ∧
    (∃ T a, Reached "demo" unfinished T a ∧ T.rejected a = true ∧
      Rejects a (T.declaration.run a).2) ∧
    ∀ table ∈ [Table.routines, Table.types], ∃ T a k, Reached "demo" unfinished T a ∧
      T.rejected a = false ∧ k ∈ T.recordKey ∧ k.1 = table ∧
      (analyze "demo" unfinished).findings.Defines k := by
  have herrors : (analyze "demo" unfinished).errors.length = 4 := by decide +kernel
  have hput : (Task.follow [0, 0, 1, 2, 0, 1, 0] (.stmts unfinished.stmts, initial "demo")).any
      (fun c => c.1.rejected c.2) = true := by decide +kernel
  obtain ⟨T, a, hT, hp⟩ := Reached.exists_call hput
  refine ⟨herrors, ⟨T, a, hT, hp, hT.rejects_or_records.1 hp⟩, ?_⟩
  have hrecords : ∀ e : List Nat × Table, (Task.follow e.1 (.stmts unfinished.stmts,
      initial "demo")).any (fun c => !c.1.rejected c.2 && c.1.recordKey.any (·.1 == e.2)) = true →
      ∃ T a k, Reached "demo" unfinished T a ∧ T.rejected a = false ∧ k ∈ T.recordKey ∧
        k.1 = e.2 ∧ (analyze "demo" unfinished).findings.Defines k := by
    intro e he
    obtain ⟨T, a, hT, hp⟩ := Reached.exists_call he
    obtain ⟨hnot, hkey⟩ := Bool.and_eq_true_iff.mp hp
    obtain ⟨k, hk, htable⟩ := (Option.any_eq_true _ _).mp hkey
    have hnot := (Bool.not_eq_true' _).mp hnot
    exact ⟨T, a, k, hT, hnot, hk, eq_of_beq htable, (hT.rejects_or_records.2 k hk hnot).2⟩
  rw [List.forall_mem_cons, List.forall_mem_singleton]
  exact ⟨hrecords ([0, 0, 1, 2, 0, 0], .routines) (by decide +kernel),
    hrecords ([0, 0], .types) (by decide +kernel)⟩

end Analysis

end Unnest
