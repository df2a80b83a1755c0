import Unnest.Proofs.Analysis.Defined
import Unnest.Proofs.Analysis.Known
import Unnest.Proofs.Analysis.Program
import Unnest.Proofs.Analysis.Sparing

/-!
# The records of definitions

A definition that is on record is one of the tree, and those around it are on record as
well: the body of a routine is analysed only when the routine was declared, and the members
of a type only when its name was accepted.  So the recorded definitions are those that the
tree lists (`Analysis.mem_defined`), whatever errors there are.

The list depends on the findings at the end, and the analysis is followed from its
beginning.  `Lists h D a b` speaks about all findings that have what `b` has on record.
-/

namespace Unnest

theorem NodeTable.isSome_of_mem {α : Type} {t : NodeTable α} {node : NodeId} {x : α}
    (h : (node, x) ∈ t) : (t.find? node).isSome := by
  induction t with
  | nil => exact absurd h List.not_mem_nil
  | cons e t ih =>
    rw [find?]
    split
    · rfl
    · rename_i hne
      rcases List.mem_cons.mp h with rfl | h
      · exact absurd rfl hne
      · exact ih h

theorem Findings.defines_key {g : Findings} (d : Defined g) : g.Defines d.key := by
  cases d with
  | routine n f record => exact Option.isSome_of_mem record
  | type n f record => exact Option.isSome_of_mem record

/-- Definitions are recorded under keys of their own. -/
theorem Findings.Defines.not_mem {f : Findings} {k : Key} (h : f.Defines k) : k ∉ plainKeys := by
  obtain ⟨t, n⟩ := k
  cases t with
  | routines => exact fun hk => hk.1 rfl
  | types => exact fun hk => hk.2 rfl
  | _ => exact h.elim

namespace Analysis

open Analyze

variable {α β : Type} {h : Horizon} {a b c : Analysis}
  {D D' : (g : Findings) → List (Defined g)}

/-- What is on record in one state is on record in the findings. -/
def RecordedIn (a : Analysis) (g : Findings) : Prop := ∀ k, a.findings.Defines k → g.Defines k

/-- From one state to another, definitions are recorded that `D` lists. -/
structure Lists (h : Horizon) (D : (g : Findings) → List (Defined g)) (a b : Analysis) : Prop where
  confined : Confined h b
  size_le : a.scopes.size ≤ b.scopes.size
  kept : RecordedIn a b.findings
  listed : ∀ g, RecordedIn b g → ∀ k, b.findings.Defines k →
    a.findings.Defines k ∨ ∃ d ∈ D g, d.key = k

namespace Lists

theorem trans (hab : Lists h D a b) (hbc : Lists h D' b c) :
    Lists h (fun g => D g ++ D' g) a c where
  confined := hbc.confined
  size_le := hab.size_le.trans hbc.size_le
  kept k hk := hbc.kept k (hab.kept k hk)
  listed g hg k hk := by
    rcases hbc.listed g hg k hk with hk | ⟨d, hd, hdk⟩
    · rcases hab.listed g (fun j hj => hg j (hbc.kept j hj)) k hk with hk | ⟨d, hd, hdk⟩
      · exact Or.inl hk
      · exact Or.inr ⟨d, List.mem_append_left _ hd, hdk⟩
    · exact Or.inr ⟨d, List.mem_append_right _ hd, hdk⟩

/-- The list may have more, as long as the record says what it says at the end. -/
theorem conseq (hab : Lists h D a b) (hD : ∀ g, RecordedIn b g → D g ⊆ D' g) : Lists h D' a b where
  confined := hab.confined
  size_le := hab.size_le
  kept := hab.kept
  listed g hg k hk := (hab.listed g hg k hk).imp_right fun ⟨d, hd, hdk⟩ => ⟨d, hD g hg hd, hdk⟩

theorem congr (hab : Lists h D a b) (hD : ∀ g, D g = D' g) : Lists h D' a b :=
  hab.conseq fun g _ _ hd => hD g ▸ hd

/-- A part that writes under one key of a definition, which is on record already or listed. -/
theorem of_stays {m : Analyze α} {post : Horizon → α → Prop} {k : Key}
    (hm : Stays h (insert k plainKeys) m post) (ha : Confined h a)
    (hk : a.findings.Defines k ∨ ∀ g : Findings, g.Defines k → ∃ d ∈ D g, d.key = k) :
    Lists h D a (m.run a).2 := by
  obtain ⟨hb, hab, -⟩ := hm a ha
  refine ⟨hb, hab.scopes.size_le, hab.recorded, fun g hg j hj => ?_⟩
  by_cases hin : j ∈ insert k plainKeys
  · obtain rfl := hin.resolve_right hj.not_mem
    exact hk.imp_right fun hlisted => hlisted g (hg _ hj)
  · exact Or.inl ((hab.findings j hin).defines.mp hj)

/-- A part that records no definition. -/
theorem of_plain {m : Analyze α} {post : Horizon → α → Prop} (hm : Stays h plainKeys m post)
    (ha : Confined h a) : Lists h (fun _ => []) a (m.run a).2 := by
  obtain ⟨hb, hab, -⟩ := hm a ha
  exact ⟨hb, hab.scopes.size_le, hab.recorded,
    fun g hg j hj => Or.inl ((hab.findings j hj.not_mem).defines.mp hj)⟩

theorem of_upto {n : Nat} (hab : Lists (h.upto n) D a b) (hn : h.opened ≤ n) : Lists h D a b :=
  ⟨hab.confined.of_upto hn, hab.size_le, hab.kept, hab.listed⟩

/-- From another scope and back. -/
theorem inside {s : ScopeId} (ha : Confined h a) (hab : Lists h D { a with current := s } b) :
    Lists h D a { b with current := a.current } :=
  ⟨⟨ha.current, ha.has.trans_le hab.size_le, hab.confined.scopes, hab.confined.types⟩,
    hab.size_le, hab.kept, hab.listed⟩

end Lists

/-! ## Declaring routines -/

/-- What declaring a routine comes to: a refusal that leaves no record, or a record. -/
structure RecordsRoutine (h : Horizon) (r : RoutineDef) (a : Analysis)
    (x : Option DeclaredRoutine × Analysis) : Prop where
  confined : Confined h x.2
  size_le : a.scopes.size ≤ x.2.scopes.size
  kept : RecordedIn a x.2.findings
  new : ∀ k, x.2.findings.Defines k →
    a.findings.Defines k ∨ x.1.isSome ∧ k = (.routines, r.node)
  declared : ∀ d ∈ x.1, IsNew (h.upto x.2.scopes.size) d ∧
    x.2.findings.Defines (.routines, r.node)

namespace RecordsRoutine

variable {r : RoutineDef}

theorem refused (ha : Confined h a) : RecordsRoutine h r a (none, a) :=
  ⟨ha, Nat.le_refl _, fun _ hk => hk, fun _ hk => Or.inl hk, fun _ hd => absurd hd (by simp)⟩

/-- Behind a part that records no definition. -/
theorem next {m : Analyze α} {f : α → Analyze (Option DeclaredRoutine)} (hm : Keeps h plainKeys m)
    (ha : Confined h a)
    (hf : ∀ x b, Confined h b → RecordsRoutine h r b ((f x).run b)) : RecordsRoutine h r a ((m >>= f).run a) := by
  have hb := Lists.of_plain hm ha
  obtain ⟨hc, hle, hkept, hnew, hdeclared⟩ := hf (m.run a).1 (m.run a).2 hb.confined
  refine ⟨hc, hb.size_le.trans hle, fun k hk => hkept k (hb.kept k hk), fun k hk => ?_, hdeclared⟩
  refine (hnew k hk).imp_left fun hk' => (hb.listed (m.run a).2.findings (fun _ h => h) k hk').resolve_right ?_
  rintro ⟨d, hd, -⟩
  exact List.not_mem_nil hd

theorem currentScope {f : ScopeId → Analyze (Option DeclaredRoutine)}
    (hf : RecordsRoutine h r a ((f a.current).run a)) :
    RecordsRoutine h r a ((currentScope >>= f).run a) := hf

theorem opened (ha : Confined h a) (member : Option Membership) (signature : Signature)
    (binding : Binding) : RecordsRoutine h r a
      ((openRoutine r member signature binding >>= fun d => pure (some d)).run a) := by
  have hm : Stays h (insert (.routines, r.node) plainKeys)
      (openRoutine r member signature binding) IsNew :=
    stays_openRoutine (Set.mem_insert _ _) member signature binding
  obtain ⟨hb, hab, hnew⟩ := hm a ha
  have hrecord : ((openRoutine r member signature binding).run a).2.findings.Defines
      (.routines, r.node) := by
    rw [run_openRoutine]
    exact NodeTable.isSome_of_mem List.mem_cons_self
  refine ⟨hb, hab.scopes.size_le, hab.recorded, fun k hk => ?_, ?_⟩
  · by_cases hin : k ∈ insert (Table.routines, r.node) plainKeys
    · exact Or.inr ⟨rfl, hin.resolve_right hk.not_mem⟩
    · exact Or.inl ((hab.findings k hin).defines.mp hk)
  · rintro _ ⟨⟩
    exact ⟨hnew, hrecord⟩

end RecordsRoutine

theorem recordsRoutine_declareRoutine {member : Option Membership}
    (hm : ∀ m ∈ member, h.types ≤ m.type.index) (r : RoutineDef) (ha : Confined h a) :
    RecordsRoutine h r a ((declareRoutine member r).run a) := by
  refine .next (keeps_resolveAll _) ha fun params b hb =>
    .next (keeps_resolveResult _) hb fun result b hb => ?_
  cases params with
  | none => exact .refused hb
  | some params =>
    cases result with
    | none => exact .refused hb
    | some result =>
      refine .next (keeps_refuseMember member r.name params) hb fun refused b hb => ?_
      cases refused with
      | true => exact .refused hb
      | false =>
        refine .next (keeps_refuseName r.name) hb fun refused b hb => ?_
        cases refused with
        | true => exact .refused hb
        | false =>
          refine .next (keeps_addRoutineType params result) hb fun type b hb => ?_
          refine .currentScope (.next (keeps_declare hb.current _ _) hb fun binding b hb => ?_)
          cases binding with
          | none => exact .refused hb
          | some binding =>
            exact .next (keeps_addMember hm _) hb fun _ b hb => .opened hb member _ binding

/-- The routines of a list that were declared are on record. -/
structure RecordsMembers (h : Horizon) (rs : List RoutineDef) (a : Analysis)
    (x : List (Option DeclaredRoutine) × Analysis) : Prop where
  confined : Confined h x.2
  size_le : a.scopes.size ≤ x.2.scopes.size
  kept : RecordedIn a x.2.findings
  new : ∀ k, x.2.findings.Defines k → a.findings.Defines k ∨ ∃ r ∈ rs, k = (.routines, r.node)
  declared : List.Forall₂ (fun o r => ∀ d ∈ o, IsNew (h.upto x.2.scopes.size) d ∧
    x.2.findings.Defines (.routines, r.node)) x.1 rs

theorem recordsMembers_declareMembers {m : Membership} (hm : h.types ≤ m.type.index) :
    (rs : List RoutineDef) → {a : Analysis} → Confined h a →
      RecordsMembers h rs a ((declareMembers m rs).run a)
  | [], a, ha => ⟨ha, Nat.le_refl _, fun _ hk => hk, fun _ hk => Or.inl hk, .nil⟩
  | r :: rs, a, ha => by
    have hmember : ∀ m' ∈ some m, h.types ≤ m'.type.index := by
      rintro _ ⟨⟩
      exact hm
    obtain ⟨hb, hle, hkept, hnew, hdeclared⟩ := recordsRoutine_declareRoutine hmember r ha
    obtain ⟨hc, hle', hkept', hnew', hdeclared'⟩ := recordsMembers_declareMembers hm rs hb
    refine ⟨hc, hle.trans hle', fun k hk => hkept' k (hkept k hk), fun k hk => ?_,
      .cons (fun d hd => ?_) hdeclared'⟩
    · rcases hnew' k hk with hk | ⟨r', hr', rfl⟩
      · exact (hnew k hk).imp_right fun hk => ⟨r, List.mem_cons_self, hk.2⟩
      · exact Or.inr ⟨r', List.mem_cons_of_mem _ hr', rfl⟩
    · exact ⟨(hdeclared d hd).1.upto hle', hkept' _ (hdeclared d hd).2⟩

/-! ## Statements -/

theorem key_mem_defined {g : Findings} {r : RoutineDef} (hr : g.Defines (.routines, r.node)) :
    ∃ d ∈ r.defined g, d.key = (.routines, r.node) := by
  obtain ⟨f, hf⟩ := Option.isSome_iff_exists.mp hr
  rw [RoutineDef.defined_some hf]
  exact ⟨_, List.mem_append_right _ (List.mem_singleton_self _), rfl⟩

theorem key_mem_allDefined {g : Findings} {r : RoutineDef} {rs : List RoutineDef} (h : r ∈ rs)
    (hr : g.Defines (.routines, r.node)) :
    ∃ d ∈ RoutineDef.allDefined g rs, d.key = (.routines, r.node) := by
  induction rs with
  | nil => exact absurd h List.not_mem_nil
  | cons x rs ih =>
    rw [RoutineDef.allDefined]
    rcases List.mem_cons.mp h with rfl | h
    · obtain ⟨d, hd, hdk⟩ := key_mem_defined hr
      exact ⟨d, List.mem_append_left _ hd, hdk⟩
    · obtain ⟨d, hd, hdk⟩ := ih h
      exact ⟨d, List.mem_append_right _ hd, hdk⟩

theorem body_subset_defined {g : Findings} {r : RoutineDef}
    (hr : g.Defines (.routines, r.node)) : Stmt.allDefined g r.body ⊆ r.defined g := by
  obtain ⟨f, hf⟩ := Option.isSome_iff_exists.mp hr
  rw [RoutineDef.defined_some hf]
  exact List.subset_append_left _ _

theorem key_mem_defined_type {g : Findings} {t : TypeDef} (ht : g.Defines (.types, t.node)) :
    ∃ d ∈ t.defined g, d.key = (.types, t.node) := by
  obtain ⟨f, hf⟩ := Option.isSome_iff_exists.mp ht
  rw [TypeDef.defined_some hf]
  exact ⟨_, List.mem_append_right _ (List.mem_singleton_self _), rfl⟩

theorem members_subset_defined {g : Findings} {t : TypeDef} (ht : g.Defines (.types, t.node)) :
    RoutineDef.allDefined g t.routines ++ RoutineDef.allDefined g t.staticRoutines ⊆
      t.defined g := by
  obtain ⟨f, hf⟩ := Option.isSome_iff_exists.mp ht
  rw [TypeDef.defined_some hf]
  exact List.subset_append_left _ _

theorem RecordsMembers.lists {rs : List RoutineDef} {x : List (Option DeclaredRoutine) × Analysis}
    (hx : RecordsMembers h rs a x) : Lists h (fun g => RoutineDef.allDefined g rs) a x.2 :=
  ⟨hx.confined, hx.size_le, hx.kept, fun g hg k hk => (hx.new k hk).imp_right fun ⟨_, hr, heq⟩ => by
    rw [heq] at hk ⊢
    exact key_mem_allDefined hr (hg _ hk)⟩

/-- The routines of these results that were declared are new, and on record. -/
def Declared (h : Horizon) (a : Analysis) (ds : List (Option DeclaredRoutine))
    (rs : List RoutineDef) : Prop :=
  List.Forall₂ (fun o r => ∀ d ∈ o, IsNew (h.upto a.scopes.size) d ∧
    a.findings.Defines (.routines, r.node)) ds rs

theorem Declared.later {ds : List (Option DeclaredRoutine)} {rs : List RoutineDef}
    (hd : Declared h a ds rs) (hab : Lists h D a b) : Declared h b ds rs :=
  hd.imp fun _ _ ho d hd => ⟨(ho d hd).1.upto hab.size_le, hab.kept _ (ho d hd).2⟩

/-- The bodies of declared routines record what is listed. -/
def BodiesListed (h : Horizon) (rs : List RoutineDef) : Prop :=
  ∀ ds a, Confined h a → Declared h a ds rs →
    Lists h (RoutineDef.allDefined · rs) a ((routineBodies ds rs).run a).2

/-- The members of a type record what is listed. -/
theorem lists_members {f : TypeFinding} (hf : IsNewType (h.upto a.scopes.size) f)
    (fields : List VarDecl) (statics : List StaticField) {rs rs' : List RoutineDef}
    (hrs : BodiesListed h rs) (hrs' : BodiesListed h rs') (ha : Confined h a) :
    Lists h (fun g => RoutineDef.allDefined g rs ++ RoutineDef.allDefined g rs') a
      ((members f fields statics rs rs').run a).2 := by
  have htype : h.types ≤ f.type.index := hf.type
  have hfields := Lists.of_plain (keeps_instanceFields htype fields fun _ _ => notes_plainKeys _) ha
  set b := ((instanceFields f.type fields).run a).2
  have hinner : (h.upto b.scopes.size).Reaches f.fieldInit :=
    Horizon.Reaches.upto (h := h.upto a.scopes.size) hf.fieldInit hfields.size_le
  have hstatics : Lists (h.upto b.scopes.size) (fun _ => []) b
      ((staticFields f.type f.fieldInit statics).run b).2 :=
    .of_plain (keeps_staticFields (h := h.upto b.scopes.size) htype hinner statics
      fun _ _ => notes_plainKeys _) hfields.confined.upto
  replace hstatics := hstatics.of_upto hfields.confined.scopes.opened_le
  have hx := recordsMembers_declareMembers (m := ⟨f.type, false⟩) htype rs hstatics.confined
  have hy := recordsMembers_declareMembers (m := ⟨f.type, true⟩) htype rs' hx.confined
  have hbodies := hrs _ _ hy.confined (Declared.later hx.declared hy.lists)
  have hbodies' := hrs' _ _ hbodies.confined (Declared.later hy.declared hbodies)
  refine (hfields.trans (hstatics.trans (hx.lists.trans (hy.lists.trans
    (hbodies.trans hbodies'))))).conseq fun g _ => ?_
  exact List.append_subset.mpr ⟨List.nil_subset _, List.append_subset.mpr ⟨List.nil_subset _,
    List.append_subset.mpr ⟨List.subset_append_left _ _, List.append_subset.mpr
      ⟨List.subset_append_right _ _, List.Subset.refl _⟩⟩⟩⟩

mutual

/-- A statement records the definitions that it lists. -/
theorem lists_stmt : (x : Stmt) → {a : Analysis} → Confined h a →
    Lists h (x.defined ·) a ((stmt x).run a).2
  | .declare d, a, ha => (Lists.of_plain (keeps_varDecl .var none d (notes_plainKeys _)).discard
      ha).congr fun g => by rw [Stmt.defined]
  | .define d, a, ha => (Lists.of_plain (keeps_initDecl d (notes_plainKeys _)
      fun _ _ => notes_plainKeys _) ha).congr fun g => by rw [Stmt.defined]
  | .assign x, a, ha => (Lists.of_plain (keeps_assign x fun _ _ => notes_plainKeys _) ha).congr
      fun g => by rw [Stmt.defined]
  | .call c, a, ha => (Lists.of_plain (keeps_chain c (notes_plainKeys _)
      fun _ _ => notes_plainKeys _).discard ha).congr fun g => by rw [Stmt.defined]
  | .branch gs otherwise _, a, ha => by
    have hb := lists_guardedAll gs ha
    exact (hb.trans (lists_elseBlock otherwise hb.confined)).congr fun g => by rw [Stmt.defined]
  | .loop g, a, ha => (lists_guarded g ha).congr fun g => by rw [Stmt.defined]
  | .routine r, a, ha => by
    refine Lists.congr (D := (r.defined ·)) ?_ fun g => by rw [Stmt.defined]
    have hx : RecordsRoutine h r a ((declareRoutine none r).run a) :=
      recordsRoutine_declareRoutine (by simp) r ha
    rw [run_routine]
    generalize (declareRoutine none r).run a = x at hx
    obtain ⟨d, b⟩ := x
    obtain ⟨hb, hle, hkept, hnew, hdeclared⟩ := hx
    cases d with
    | none =>
      refine ⟨hb, hle, hkept, fun g _ k hk => Or.inl ((hnew k hk).resolve_right fun hk => ?_)⟩
      exact absurd hk.1 (by simp)
    | some d =>
      obtain ⟨hd, hr⟩ := hdeclared d rfl
      have hbody := lists_routineBody r hb hd hr
      refine ⟨hbody.confined, hle.trans hbody.size_le, fun k hk => hbody.kept k (hkept k hk),
        fun g hg k hk => ?_⟩
      rcases hbody.listed g hg k hk with hk | hk
      · refine (hnew k hk).imp_right fun hk => ?_
        rw [hk.2]
        exact key_mem_defined (hg _ (hbody.kept _ hr))
      · exact Or.inr hk
  | .type t, a, ha => (lists_typeDef t ha).congr fun g => by rw [Stmt.defined]

theorem lists_guarded : (x : Guarded) → {a : Analysis} → Confined h a →
    Lists h (x.defined ·) a ((guarded x).run a).2
  | ⟨node, condition, body, _⟩, a, ha => by
    obtain ⟨hb, hab, hs⟩ := stays_openBlock (h := h) (notes_plainKeys node) a ha
    have hopen := Lists.of_plain (stays_openBlock (h := h) (notes_plainKeys node)) ha
    set x := (openBlock node).run a
    have hin := (hb.upto.enter hs).of_upto hb.scopes.opened_le
    have hcondition := Lists.of_plain (keeps_checkCondition condition fun _ _ => notes_plainKeys _)
      hin
    have hbody := hcondition.trans (lists_stmts body hcondition.confined)
    exact (hopen.trans (hbody.inside hb)).congr fun g => by rw [Guarded.defined]; rfl

theorem lists_elseBlock : (x : Else) → {a : Analysis} → Confined h a →
    Lists h (x.defined ·) a ((elseBlock x).run a).2
  | .absent, a, ha => ⟨ha, Nat.le_refl _, fun _ hk => hk, fun _ _ _ hk => Or.inl hk⟩
  | .block node body _, a, ha => by
    obtain ⟨hb, hab, hs⟩ := stays_openBlock (h := h) (notes_plainKeys node) a ha
    have hopen := Lists.of_plain (stays_openBlock (h := h) (notes_plainKeys node)) ha
    set x := (openBlock node).run a
    have hin := (hb.upto.enter hs).of_upto hb.scopes.opened_le
    exact (hopen.trans ((lists_stmts body hin).inside hb)).congr fun g => by
      rw [Else.defined]; rfl

theorem lists_routineBody {d : DeclaredRoutine} : (r : RoutineDef) → {a : Analysis} →
    Confined h a → IsNew (h.upto a.scopes.size) d → a.findings.Defines (.routines, r.node) →
      Lists h (r.defined ·) a ((routineBody d r).run a).2
  | ⟨node, name, closing, params, result, body, ret, span⟩, a, ha, hd, hr => by
    have hin := (ha.upto.enter hd).of_upto ha.scopes.opened_le
    have hstmts := lists_stmts body hin
    set r : RoutineDef := ⟨node, name, closing, params, result, body, ret, span⟩
    have hreturn := Lists.of_plain (keeps_checkReturn r d.result fun _ _ => notes_plainKeys _)
      hstmts.confined
    have hbody := (hstmts.trans hreturn).inside ha
    have hfinish := Lists.of_stays (D := fun _ => [])
      (keeps_finishRoutine (Set.mem_insert (Table.routines, r.node) plainKeys) d.scope)
      hbody.confined (Or.inl (hbody.kept _ hr))
    rw [run_routineBody]
    refine (hbody.trans hfinish).conseq fun g hg => ?_
    rw [List.append_nil, List.append_nil]
    exact body_subset_defined (hg _ ((hbody.trans hfinish).kept _ hr))

theorem lists_typeDef : (t : TypeDef) → {a : Analysis} → Confined h a →
    Lists h (t.defined ·) a ((typeDef t).run a).2
  | ⟨node, name, closing, fields, statics, routines, staticRoutines, span⟩, a, ha => by
    have hr : BodiesListed h routines := fun ds b => lists_routineBodies ds routines
    have hsr : BodiesListed h staticRoutines := fun ds b => lists_routineBodies ds staticRoutines
    set t : TypeDef := ⟨node, name, closing, fields, statics, routines, staticRoutines, span⟩
    have hopen := Lists.of_plain (stays_openType t.name) ha
    obtain ⟨hb, -, hnew⟩ := stays_openType (h := h) (K := plainKeys) t.name a ha
    rw [run_typeDef]
    generalize (openType t.name).run a = x at hopen hb hnew ⊢
    obtain ⟨f, b⟩ := x
    cases f with
    | none => exact hopen.conseq fun g _ => List.nil_subset _
    | some f =>
      have hf := hnew f rfl
      have hin : Confined h { b with current := f.scope } :=
        (hb.upto.enter hf.scope).of_upto hb.scopes.opened_le
      have hmembers := (lists_members (a := { b with current := f.scope }) hf fields statics hr hsr
        hin).inside (a := b) hb
      have hfinish := Lists.of_stays (D := (t.defined ·))
        (keeps_finishType (Set.mem_insert (Table.types, t.node) plainKeys) f) hmembers.confined
        (Or.inr fun g hg => key_mem_defined_type hg)
      have hall := (hopen.trans hmembers).trans hfinish
      obtain ⟨sources, hrecord⟩ := recorded_finishType t f _
      refine hall.conseq fun g hg => ?_
      refine List.append_subset.mpr ⟨?_, List.Subset.refl _⟩
      exact members_subset_defined (hg _ (NodeTable.isSome_of_mem hrecord))

theorem lists_stmts : (xs : List Stmt) → {a : Analysis} → Confined h a →
    Lists h (Stmt.allDefined · xs) a ((stmts xs).run a).2
  | [], a, ha => ⟨ha, Nat.le_refl _, fun _ hk => hk, fun _ _ _ hk => Or.inl hk⟩
  | x :: xs, a, ha => by
    have hb := lists_stmt x ha
    exact (hb.trans (lists_stmts xs hb.confined)).congr fun g => by rw [Stmt.allDefined]

theorem lists_guardedAll : (gs : List Guarded) → {a : Analysis} → Confined h a →
    Lists h (Guarded.allDefined · gs) a ((guardedAll gs).run a).2
  | [], a, ha => ⟨ha, Nat.le_refl _, fun _ hk => hk, fun _ _ _ hk => Or.inl hk⟩
  | x :: xs, a, ha => by
    have hb := lists_guarded x ha
    exact (hb.trans (lists_guardedAll xs hb.confined)).congr fun g => by rw [Guarded.allDefined]

theorem lists_routineBodies : (ds : List (Option DeclaredRoutine)) → (rs : List RoutineDef) →
    {a : Analysis} → Confined h a → Declared h a ds rs →
      Lists h (RoutineDef.allDefined · rs) a ((routineBodies ds rs).run a).2
  | [], [], a, ha, _ => ⟨ha, Nat.le_refl _, fun _ hk => hk, fun _ _ _ hk => Or.inl hk⟩
  | some d :: ds, r :: rs, a, ha, hdeclared => by
    obtain ⟨hd, hds⟩ := List.forall₂_cons.mp hdeclared
    obtain ⟨hnew, hr⟩ := hd d rfl
    have hb := lists_routineBody r ha hnew hr
    refine (hb.trans (lists_routineBodies ds rs hb.confined ?_)).congr fun g => by
      rw [RoutineDef.allDefined]
    exact Declared.later hds hb
  | none :: ds, r :: rs, a, ha, hdeclared => by
    refine (lists_routineBodies ds rs ha (List.forall₂_cons.mp hdeclared).2).conseq fun g _ => ?_
    rw [RoutineDef.allDefined]
    exact List.subset_append_right _ _
  | [], _ :: _, _, _, hdeclared => nomatch hdeclared
  | _ :: _, [], _, _, hdeclared => nomatch hdeclared

end

/-! ## Whole programs -/

/-- Nothing is on record before the analysis. -/
theorem not_defines_initial (program : String) (k : Key) :
    ¬ (initial program).findings.Defines k := by
  have hkeys := keys_initial program
  obtain ⟨t, n⟩ := k
  intro hk
  cases t with
  | routines =>
    obtain ⟨f, hf⟩ := Option.isSome_iff_exists.mp hk
    exact absurd (hkeys ▸ Findings.mem_keys_routines hf) (Multiset.notMem_zero _)
  | types =>
    obtain ⟨f, hf⟩ := Option.isSome_iff_exists.mp hk
    exact absurd (hkeys ▸ Findings.mem_keys_types hf) (Multiset.notMem_zero _)
  | _ => exact hk

/-- Every definition that is on record is listed by the tree. -/
theorem mem_defined (program : String) (q : Program)
    (d : Defined (analyze program q).findings) : d ∈ q.defined (analyze program q).findings := by
  have hlists := lists_stmts q.stmts (confined_here (sound_initial program))
  rcases hlists.listed _ (fun _ hk => hk) d.key (Findings.defines_key d) with hk | ⟨e, he, hek⟩
  · exact absurd hk (not_defines_initial program _)
  · exact Defined.eq_of_key hek ▸ he

end Analysis

end Unnest
