import Unnest.Proofs.Analysis.Timeline

/-!
# What lasts of a type

Once the members of a type are declared and its bodies are being analysed, nothing is
declared in the scope of the type any more and no member is added to it.  The calls that
come after are of two kinds (`Aside`).  Some have a horizon that owns neither the scope nor
the type, as everything inside a body has, and everything that stands in a scope around the
type.  The others start in the scope itself, but these go through bodies or look up what was
captured, and declare nothing themselves (`Task.Passive`).  Both only make calls of these
kinds, so the entries of the scope and the members of the type last (`Later.kept`), up to
the end of the analysis (`Reached.kept_end`).
-/

namespace Unnest.Analysis

open Analyze Relation

variable {program : String} {q : Program} {T : Task} {a b : Analysis} {c d : Call}
  {s : ScopeId} {type : TypeId} {h : Horizon}

/-- There is a scope of a type, and a type that the program defines. -/
structure TypeAt (s : ScopeId) (type : TypeId) (a : Analysis) : Prop where
  kind : (a.scopes.get s).kind = .type
  form : a.types.form type = .user

namespace TypeAt

theorem has (h : TypeAt s type a) : a.scopes.Has s := by
  by_contra hnot
  have hkind := h.kind
  rw [Scopes.get_of_not_has hnot] at hkind
  exact absurd hkind (by decide)

theorem hasType (h : TypeAt s type a) : a.types.Has type := TypeTable.has_of_user h.form

/-- Statements stand elsewhere. -/
theorem ne_of_inBody (h : TypeAt s type a) (hbody : InBody a) : a.current ≠ s := by
  rintro rfl
  rw [InBody, h.kind] at hbody
  exact absurd hbody (by decide)

end TypeAt

/-- The entries of a scope and the members of a type are the same. -/
structure Kept (s : ScopeId) (type : TypeId) (a b : Analysis) : Prop where
  entries : (b.scopes.get s).entries = (a.scopes.get s).entries
  kind : (b.scopes.get s).kind = (a.scopes.get s).kind
  type : b.types.get type = a.types.get type

namespace Kept

theorem refl (s : ScopeId) (type : TypeId) (a : Analysis) : Kept s type a a := ⟨rfl, rfl, rfl⟩

theorem trans {c : Analysis} (h : Kept s type a b) (h' : Kept s type b c) : Kept s type a c :=
  ⟨h'.entries.trans h.entries, h'.kind.trans h.kind, h'.type.trans h.type⟩

theorem of_rests (h : Rests a b) : Kept s type a b := by
  refine ⟨?_, ?_, ?_⟩
  · rw [h.scopes]
  · rw [h.scopes]
  · rw [h.types]

/-- What a horizon does not own. -/
theorem of_fixed (h' : Fixed h a b) (hs : ¬ h.Owns s) (ht : type.index < h.types) :
    Kept s type a b := by
  have hentries := congrArg Scope.entries (h'.core s hs)
  have hkind := congrArg Scope.kind (h'.core s hs)
  exact ⟨hentries, hkind, h'.types type ht⟩

/-- A part that declares nothing. -/
theorem of_quiet {α : Type} {m : Analyze α} (ha : Sound a) (hat : TypeAt s type a)
    (hm : Quiet m) (hk : Keeps a.here Set.univ m) : Kept s type a (m.run a).2 := by
  obtain ⟨-, hs, -⟩ := hk a (confined_here ha)
  exact ⟨((hm a).entries s).trans (List.append_nil _), (hm a).scopes.kind_eq hat.has,
    hs.types type hat.hasType⟩

/-- Wherever the walk is. -/
theorem of_enter {x : ScopeId} (h : Kept s type { a with current := x } b) : Kept s type a b :=
  ⟨h.entries, h.kind, h.type⟩

theorem typeAt (h : Kept s type a b) (hat : TypeAt s type a) : TypeAt s type b :=
  ⟨h.kind.trans hat.kind, (congrArg TypeDecl.form h.type).trans hat.form⟩

end Kept

/-! ## Calls aside -/

/-- A call that leaves a scope and a type alone. -/
inductive Aside (s : ScopeId) (type : TypeId) : Call → Prop
  | outside {T : Task} {a : Analysis} {h : Horizon} (confined : Confined h a)
      (within : T.Within (h.upto a.scopes.size)) (hs : ¬ h.Owns s) (ht : type.index < h.types) :
      Aside s type (T, a)
  | passive {T : Task} {a : Analysis} (ready : T.Ready a) (hp : T.Passive)
      (hat : TypeAt s type a) : Aside s type (T, a)

/-- In another scope, only that scope and what is opened there is owned. -/
theorem TypeAt.not_owns (hat : TypeAt s type a) (hne : a.current ≠ s) : ¬ a.here.Owns s := by
  rintro (heq | hnew)
  · exact hne heq.symm
  · exact Nat.not_le_of_lt hat.has hnew

theorem Aside.of_follows (hT : T.Ready a) (h : Task.Follows (T, a)) (hat : TypeAt s type a) :
    Aside s type (T, a) := by
  rcases h with hp | ⟨hbody, hw⟩
  · exact .passive hT hp hat
  · exact .outside (confined_here hT.sound) (hw _) (hat.not_owns (hat.ne_of_inBody hbody))
      hat.hasType

/-- The body of a routine has a horizon of its own. -/
theorem Waits.not_owns {r : RoutineDef} {d : DeclaredRoutine} (h : Waits a r d)
    (hat : TypeAt s type a) : ¬ (here { a with current := d.scope }).Owns s := by
  have hin : TypeAt s type { a with current := d.scope } := ⟨hat.kind, hat.form⟩
  exact hin.not_owns (hin.ne_of_inBody h.inBody)

theorem keeps_routineInside (h : Horizon) (d : DeclaredRoutine) (r : RoutineDef) :
    Keeps h Set.univ (stmts r.body >>= fun _ => checkReturn r d.result) :=
  (keeps_stmts r.body fun _ _ => annotates_univ _).next fun _ =>
    keeps_checkReturn r d.result fun _ _ => notes_univ _

/-- Back from the body of a routine, in front of what finishes it. -/
theorem Waits.back {r : RoutineDef} {d : DeclaredRoutine} (h : Waits a r d) (ha : Sound a)
    (hat : TypeAt s type a) {b : Analysis}
    (hb : ((stmts r.body >>= fun _ => checkReturn r d.result).run
      { a with current := d.scope }).2 = b) :
    Sound { b with current := a.current } ∧ Kept s type a { b with current := a.current } := by
  subst hb
  have hin := h.enterable.sound ha
  have hwalk := (outcome_body d.result hin h.inBody
    ((analysed_stmts r.body).outcome hin h.inBody)).walk
  obtain ⟨-, hspares, -⟩ := keeps_routineInside _ d r _ (confined_here hin)
  have hkept := Kept.of_enter (.of_fixed hspares.fixed (h.not_owns hat) hat.hasType)
  exact ⟨(hin.walk hwalk).back h.parent hwalk, hkept.entries, hkept.kind, hkept.type⟩

theorem Waits.kept {r : RoutineDef} {d : DeclaredRoutine} (h : Waits a r d) (ha : Sound a)
    (hat : TypeAt s type a) : Kept s type a ((routineBody d r).run a).2 := by
  obtain ⟨hb, hkept⟩ := h.back ha hat rfl
  rw [run_routineBody]
  exact hkept.trans (.of_quiet hb (hkept.typeAt hat) (quiet_finishRoutine r d.scope)
    (keeps_finishRoutine (Set.mem_univ _) d.scope))

theorem AllWait.kept : (rs : List RoutineDef) → {ds : List (Option DeclaredRoutine)} →
    {a : Analysis} → AllWait a rs ds → Sound a → TypeAt s type a →
      Kept s type a ((routineBodies ds rs).run a).2
  | [], ds, a, h, _, _ => by
    cases h.entry
    exact .refl s type a
  | r :: rs, ds, a, h, ha, hat => by
    cases ds with
    | nil => exact absurd h.entry (by simp)
    | cons d ds =>
      obtain ⟨hfirst, hrest, -⟩ := h.cons
      cases d with
      | none => exact AllWait.kept rs hrest ha hat
      | some d =>
        have hwaits := hfirst d rfl
        have hkept := hwaits.kept ha hat
        have hwalk := (bodyAnalysed ha hwaits.toEntry (analysed_stmts r.body)).outcome.walk
        exact hkept.trans (AllWait.kept rs (h.behind ha) (ha.walk hwalk) (hkept.typeAt hat))

/-- A call aside leaves the scope and the type alone. -/
theorem Aside.kept_after (hc : Aside s type c) : Kept s type c.2 c.after := by
  cases hc with
  | @outside T a h hconfined hw hs ht =>
    obtain ⟨-, hspares, -⟩ := hw.keeps a hconfined.upto
    exact .of_fixed (h := h.upto a.scopes.size) hspares.fixed hs ht
  | @passive T a hT hp hat =>
    obtain ⟨ha, hT⟩ := hT
    cases T with
    | routineBody d r => exact hT.kept ha hat
    | routineBodies ds rs => exact hT.kept rs ha hat
    | captureSources x =>
      exact .of_quiet (m := Analyze.captureSources x) ha hat (quiet_captureSources x)
        (keeps_captureSources x)
    | sourcesOf | name => exact .refl s type a
    | _ => exact absurd hp id

theorem Waits.calls {r : RoutineDef} {d : DeclaredRoutine} (h : Waits a r d) (ha : Sound a)
    (hat : TypeAt s type a) :
    ∀ c ∈ (Task.routineBody d r).calls a, Aside s type c ∧ Kept s type a c.2 := by
  have hready := Task.Ready.calls (T := .routineBody d r) ⟨ha, h⟩
  have hin := confined_here (h.enterable.sound ha)
  have hs := h.not_owns hat
  obtain ⟨hbody, hspares, -⟩ :=
    keeps_stmts (K := Set.univ) r.body (fun _ _ => annotates_univ _) _ hin
  obtain ⟨-, hkept⟩ := h.back ha hat rfl
  rw [Task.calls, List.forall_mem_cons, List.forall_mem_cons, List.forall_mem_singleton] at hready ⊢
  exact ⟨⟨.outside hin trivial hs hat.hasType, ⟨rfl, rfl, rfl⟩⟩,
    ⟨.outside hbody trivial hs hat.hasType,
      .of_enter (.of_fixed hspares.fixed hs hat.hasType)⟩,
    .passive hready.2.2.ready trivial (hkept.typeAt hat), hkept⟩

theorem AllWait.calls {ds : List (Option DeclaredRoutine)} {rs : List RoutineDef}
    (h : AllWait a rs ds) (ha : Sound a) (hat : TypeAt s type a) :
    ∀ c ∈ (Task.routineBodies ds rs).calls a, Aside s type c ∧ Kept s type a c.2 := by
  have hready := Task.Ready.calls (T := .routineBodies ds rs) ⟨ha, h⟩
  cases ds with
  | nil => exact List.forall_mem_nil _
  | cons d ds =>
    cases rs with
    | nil => cases d <;> exact List.forall_mem_nil _
    | cons r rs =>
      cases d with
      | none =>
        rw [Task.calls, List.forall_mem_singleton] at hready ⊢
        exact ⟨.passive hready.ready trivial hat, .refl s type a⟩
      | some d =>
        have hkept := (h.cons.1 d rfl).kept ha hat
        rw [Task.calls, List.forall_mem_cons, List.forall_mem_singleton] at hready ⊢
        exact ⟨⟨.passive hready.1.ready trivial hat, .refl s type a⟩,
          .passive hready.2.ready trivial (hkept.typeAt hat), hkept⟩

theorem calls_sourcesOf (ha : Sound a) (hat : TypeAt s type a) (xs : List (String × TypeId)) :
    ∀ c ∈ (Task.sourcesOf xs).calls a, Aside s type c ∧ Kept s type a c.2 := by
  have hready := Task.Ready.calls (T := .sourcesOf xs) ⟨ha, trivial⟩
  cases xs with
  | nil => exact List.forall_mem_nil _
  | cons x xs =>
    have hkept := Kept.of_quiet ha hat (quiet_lookup x.1) (keeps_lookup x.1)
    rw [Task.calls, List.forall_mem_cons, List.forall_mem_singleton] at hready ⊢
    exact ⟨⟨.passive hready.1.ready trivial hat, .refl s type a⟩,
      .passive hready.2.ready trivial (hkept.typeAt hat), hkept⟩

/-- What a call aside makes are calls aside. -/
theorem Aside.calls (hc : Aside s type c) :
    ∀ d ∈ c.1.calls c.2, Aside s type d ∧ Kept s type c.2 d.2 := by
  cases hc with
  | @outside T a h hconfined hw hs ht =>
    intro d hd
    obtain ⟨hc, hw, hfixed⟩ := hw.calls hconfined d hd
    exact ⟨.outside hc hw hs ht, .of_fixed hfixed hs ht⟩
  | @passive T a hT hp hat =>
    obtain ⟨ha, hT⟩ := hT
    cases T with
    | routineBody d r => exact hT.calls ha hat
    | routineBodies ds rs => exact hT.calls ha hat
    | captureSources x =>
      exact List.forall_mem_singleton.mpr ⟨.passive ⟨ha, trivial⟩ trivial hat, .refl s type a⟩
    | sourcesOf xs => exact calls_sourcesOf ha hat xs
    | name => exact List.forall_mem_nil _
    | _ => exact absurd hp id

/-- Calls aside lead to nothing else. -/
theorem Aside.leads (hc : Aside s type c) (hl : Leads c d) :
    Aside s type d ∧ Kept s type c.2 d.2 := by
  induction hl with
  | refl => exact ⟨hc, .refl s type c.2⟩
  | tail _ hd ih =>
    obtain ⟨haside, hkept⟩ := ih.1.calls _ hd
    exact ⟨haside, ih.2.trans hkept⟩

/-! ## What comes after -/

/-- What stands behind a call aside leaves the scope and the type alone. -/
theorem TypeAt.side (hat : TypeAt s type c.2) (hc : c.1.HasBody) (y : Call) (hy : y.1.Ready y.2)
    (hfollows : c.1.HasBody → Task.Follows y) (hkept : Kept s type c.2 y.2) :
    Kept s type y.2 y.after :=
  (Aside.of_follows hy (hfollows hc) (hkept.typeAt hat)).kept_after

/-- Whatever comes after a call aside, the scope and the type last. -/
theorem Later.kept (hbody : c.1.HasBody) (hc : Aside s type c) (hat : TypeAt s type c.2)
    (h : Later program q c d) : Kept s type c.2 d.2 := by
  cases h with
  | below h => exact (hc.leads h).2
  | @behind T a xs ys x y _ hreached hcalls hx hy hd =>
    have hT : T.Ready a := hreached.comes.ready
    have hready := fun z hz => (hT.calls z (hcalls ▸ List.mem_append_right xs hz)).ready
    obtain ⟨hxp, hxb, hxk⟩ := climb (R := Kept s type) Kept.trans Kept.of_rests (hat.side hbody)
      hbody.isPart hc.kept_after (hready x List.mem_cons_self) hx
    obtain ⟨-, hys⟩ := after_part (R := Kept s type) Kept.trans Kept.of_rests (hat.side hbody) hT
      hcalls hxp hxb hxk
    have hfollows := (hT.goesOn.split hcalls hxp).follows (hxb hbody) y hy
    have haside := Aside.of_follows (hready y (List.mem_cons_of_mem _ hy)) hfollows
      ((hys y hy).typeAt hat)
    exact (hys y hy).trans (haside.leads hd).2

/-- They last up to the end. -/
theorem Reached.kept_end (h : Reached program q T a) (hbody : T.HasBody)
    (hc : Aside s type (T, a)) (hat : TypeAt s type a) : Kept s type a (analyze program q) := by
  have hclimb := climb (R := Kept s type) (c := (T, a)) Kept.trans Kept.of_rests (hat.side hbody)
    hbody.isPart hc.kept_after (ready_first program q) h.leads
  rw [← after_first]
  exact hclimb.2.2

end Unnest.Analysis
