import Unnest.Proofs.Analysis.Definitions

/-!
# Statements are decided

The analysis of a program is a walk (`outcome_stmts`).  It is followed statement by
statement, into blocks and definitions and back, and what it comes to is collected on
the way: the links are recorded where they stand, and in an accepted analysis every
statement is decided.

The members of a type are all declared before the first body, so a declared routine
waits while the bodies before its own are analysed.  None of them can make it capture
anything: captures are recorded around the walk, and a waiting routine is beside it
(`Entries`).
-/

namespace Unnest.Analysis

open Analyze

variable {K L : Multiset Key} {S T : Findings → List (NodeId × ScopeId)} {D E : Analysis → Prop}
  {a b c z : Analysis} {s : ScopeId}

/-! ## Places -/

/-- A scope with statements. -/
def Place.body (s : ScopeId) : Place where
  scope := s
  holds a := a.scopes.Has s ∧ (a.scopes.get s).kind.isBody = true
  kept h hg := ⟨hg.scopes.has h.1, hg.scopes.kind_eq h.1 ▸ h.2⟩

/-- The scope of a type that is being defined. -/
def Place.type (s inner : ScopeId) (type : TypeId) : Place where
  scope := s
  holds a := a.scopes.Has s ∧ Hosts s (some ⟨type, false⟩) a ∧ a.types.Has type ∧
    a.scopes.parent inner = some s ∧ (a.scopes.get inner).kind = .fieldInit
  kept h hg := by
    obtain ⟨hs, ⟨hk, hm, hform⟩, htype, hp, hi⟩ := h
    have hd := hg.scopes.head _ hs
    refine ⟨hg.scopes.has hs, ⟨hd.kind.trans hk, hd.memberOf.trans hm, ?_⟩, hg.types.has htype, ?_,
      ?_⟩
    · exact (hg.types.form _ htype).trans hform
    · exact (hg.scopes.parent_eq (Scopes.has_of_parent hp)).trans hp
    · exact (hg.scopes.kind_eq (Scopes.has_of_parent hp)).trans hi

/-- What is known at a scope with statements. -/
theorem Place.at_body (ha : Sound a) (h : (a.scopes.get a.current).kind.isBody = true) :
    (Place.body a.current).At a :=
  ⟨ha, rfl, ha.has, h⟩

theorem declares_body (s : ScopeId) : Declares (Place.body s) .var none :=
  fun _ hz _ _ => Scopes.mayDeclare_of_isBody hz.holds.2 rfl

theorem declares_type {s inner : ScopeId} {type : TypeId} {role : Role}
    (h : role.isMember = true) : Declares (Place.type s inner type) role (some type) := by
  intro z hz t name
  obtain ⟨-, ⟨hk, hm, -⟩, -⟩ := hz.holds
  have hk' : (z.scopes.get (Place.type s inner type).scope).kind = .type := hk
  rw [Scopes.MayDeclare, hk']
  exact ⟨h, hm.symm⟩

/-! ## Coming back -/

/-- Through the body of a routine, whose captures are then found. -/
theorem Outcome.routine (ha : Sound a) {node : NodeId} {sources : List CaptureSource}
    (parent : a.scopes.parent s = some a.current) (kind : (a.scopes.get s).kind = .routine)
    (empty : (a.scopes.get s).captures = [])
    (found : ∃ f, (node, f) ∈ a.findings.routines ∧ f.scope = s)
    (body : Outcome K S D { a with current := s } b)
    (after : Steps 0 { b with current := a.current } c)
    (sourced : List.Forall₂ (c.scopes.Sourced a.current) (c.scopes.get s).captures sources) :
    Outcome K S D a { c with findings := c.findings.complete node sources } := by
  have hwalk := Walk.routine parent kind empty found body.walk after sourced
  have hback := ((ha.enter parent (Or.inr empty)).walk body.walk).back parent body.walk
  have hgrows := after.grows.of_at.trans (grows_complete c node sources)
  refine ⟨hwalk, fun z hz hg e he => ?_, fun z hz hg => body.decided z hz (hgrows.trans hg)⟩
  refine body.sited z hz (hgrows.trans hg) e ?_
  exact (after.links hback he).resolve_right fun hk => Multiset.notMem_zero _ hk.1

/-- Through the members of a type, which is then recorded with its captures. -/
theorem Outcome.type (ha : Sound a) {node : NodeId} {f : TypeFinding}
    (parent : a.scopes.parent f.scope = some a.current)
    (kind : (a.scopes.get f.scope).kind = .type) (empty : (a.scopes.get f.scope).captures = [])
    (fresh : ∀ e ∈ a.findings.types, e.2.scope ≠ f.scope)
    (memberOf : (a.scopes.get f.scope).memberOf = some f.type)
    (unit : (a.scopes.get f.scope).unit = f.unit)
    (addressed : a.types.Addressed f.type (a.units.path f.unit))
    (inner : b.scopes.parent f.fieldInit = some f.scope)
    (innerKind : (b.scopes.get f.fieldInit).kind = .fieldInit)
    (body : Outcome K S D { a with current := f.scope } b)
    (after : Steps 0 { b with current := a.current } c)
    (sourced : List.Forall₂ (c.scopes.Sourced a.current) (c.scopes.get f.scope).captures
      f.captures) :
    Outcome (K + {(.types, node)}) S D a
      { c with findings := { c.findings with types := c.findings.types.write node f } } := by
  have hwalk : Walk (K + {(.types, node)}) a _ :=
    .type parent kind empty fresh memberOf unit addressed inner innerKind body.walk after sourced
  have hback := ((ha.enter parent (Or.inr empty)).walk body.walk).back parent body.walk
  have hgrows := after.grows.of_at.trans (grows_writeType c node f)
  refine ⟨hwalk, fun z hz hg e he => ?_, fun z hz hg => body.decided z hz (hgrows.trans hg)⟩
  refine body.sited z hz (hgrows.trans hg) e ?_
  exact (after.links hback he).resolve_right fun hk => Multiset.notMem_zero _ hk.1

/-! ## Blocks -/

/-- A block has a scope of its own, new and empty. -/
structure BlockOpened (node : NodeId) (a : Analysis) (x : ScopeId × Analysis) : Prop where
  steps : Steps {(.blocks, node)} a x.2
  fresh : ¬ a.scopes.Has x.1
  parent : x.2.scopes.parent x.1 = some a.current
  kind : (x.2.scopes.get x.1).kind = .block
  empty : (x.2.scopes.get x.1).captures = []
  recorded : (node, x.1) ∈ x.2.findings.blocks

theorem openBlock_spec (node : NodeId) (ha : Sound a)
    (h : (a.scopes.get a.current).kind.isBody = true) :
    BlockOpened node a ((openBlock node).run a) := by
  have hsize := Scopes.size_nextBlockName a.scopes a.current
  have hname := Step.within .nextBlockName hsize
  have hfits := ha.siblings.fits_block ha.has
  have hb := ha.step hname
  set name := (a.scopes.nextBlockName a.current).1
  set t := (a.scopes.nextBlockName a.current).2
  have hplan := Step.plan { a with scopes := t } name .block none
  set units := (a.units.plan (t.get a.current).unit name .block none).2
  have hbody : (t.get a.current).kind.isBody = true := by
    rw [(Scopes.agrees_nextBlockName a.scopes a.current a.current).head.kind]
    exact h
  have hhoused := Units.housed_openMember (t := t) a.units .block (by simp) hb.has name
    .block none none false (hb.houses.isSome hb.scopes.toWF hb.has)
  have hopen := Step.scopes { a with scopes := t, units }
    (@Scopes.Step.openMember _ _ .block none false hbody _ hfits ⟨a.units.size⟩)
    fun s hs hnot => Scopes.eq_of_has_openMember hs hnot ▸ hhoused
  have hnew := Scopes.agrees_openMember_new t a.current .block name ⟨a.units.size⟩ none false
  have hrun : (openBlock node).run a = (⟨t.size⟩, { a with
      scopes := t.openMember a.current .block name ⟨a.units.size⟩ none false
      units
      findings := { a.findings with blocks := a.findings.blocks.write node ⟨t.size⟩ } }) := by
    rw [Scopes.openMember_none]
    rfl
  have hfresh : ¬ a.scopes.Has ⟨t.size⟩ := by
    rw [Scopes.Has, show t.size = a.scopes.size from Scopes.size_nextBlockName _ _]
    exact Nat.lt_irrefl _
  rw [hrun]
  refine ⟨?_, hfresh, hnew.head.parent, hnew.head.kind, hnew.captures, List.mem_cons_self⟩
  have hrecord := Step.record { a with
    scopes := t.openMember a.current .block name ⟨a.units.size⟩ none false
    units } (.block node (Scopes.has_of_parent hnew.head.parent))
  exact ((((Steps.step hname).trans (.step hplan)).trans (.step hopen)).trans
    (.step hrecord)).mono (by simp)

/-- A block: it is opened, and its inside is analysed in its scope. -/
theorem outcome_block (ha : Sound a) {node : NodeId} {x : ScopeId × Analysis}
    (hx : BlockOpened node a x) (hT : ∀ f, f.blocks.find? node = some x.1 → S f ⊆ T f)
    (inner : Sound { x.2 with current := x.1 } → (x.2.scopes.get x.1).kind.isBody = true →
      Outcome K S D { x.2 with current := x.1 } b) :
    Outcome ({(.blocks, node)} + K) T (fun z => z.findings.blocks.find? node = some x.1 ∧
      z.scopes.parent x.1 = some a.current ∧ (z.scopes.get x.1).kind = .block ∧ D z) a
      { b with current := a.current } := by
  have hsound := ha.steps hx.steps
  have hparent : x.2.scopes.parent x.1 = some x.2.current :=
    hx.parent.trans (congrArg some hx.steps.current_eq.symm)
  have hinner := Outcome.inside hparent (Or.inr ⟨hx.kind, hx.empty⟩)
    (inner (hsound.enter hparent (Or.inr hx.empty)) (by rw [hx.kind]; rfl))
  rw [hx.steps.current_eq] at hinner
  have hh := Scopes.has_of_parent hx.parent
  have hrecord : ∀ z, Settled z → Grows { b with current := a.current } z →
      z.findings.blocks.find? node = some x.1 := fun z hz hg =>
    (Findings.nodup_blocks hz.keys).find?_eq
      ((hinner.walk.grows.trans hg).findings.blocks hx.recorded)
  refine ⟨(Walk.steps hx.steps).trans hinner.walk, fun z hz hg e he => ?_, fun z hz hg => ?_⟩
  · rcases hinner.sited z hz hg e he with he | ⟨s, hs, hsees⟩
    · refine Or.inl ((hx.steps.links ha he).resolve_right fun hk => ?_)
      exact absurd hk.1 (by simp)
    · exact Or.inr ⟨s, hT _ (hrecord z hz hg) hs, hsees⟩
  · have hgx := hinner.walk.grows.trans hg
    refine ⟨hrecord z hz.toSettled hg, ?_, ?_, hinner.decided z hz hg⟩
    · rw [hgx.scopes.parent_eq hh, hx.parent]
    · rw [hgx.scopes.kind_eq hh, hx.kind]

/-! ## Routines -/

theorem decides_checkClosing (p : Place) (fault : String → String → Fault) (name closing : Ident) :
    Decides p 0 (checkClosing fault name closing) fun _ _ => True := by
  rw [checkClosing]
  split
  · exact (decides_report _ _).conseq fun _ _ _ _ => trivial
  · exact .pure fun _ _ => trivial

theorem run_routineBody (d : DeclaredRoutine) (r : RoutineDef) (a : Analysis) :
    (routineBody d r).run a = (finishRoutine r d.scope).run
      { ((stmts r.body >>= fun _ => checkReturn r d.result).run
        { a with current := d.scope }).2 with current := a.current } := by
  obtain ⟨⟩ := r
  rfl

/-- What analysing the body of a routine comes to: besides the outcome, no scope beside
the routine's own captures anything. -/
structure BodyAnalysed (r : RoutineDef) (d : DeclaredRoutine) (a b : Analysis) : Prop where
  outcome : Outcome (Part.allKeys r.bodyParts) r.linkSites (fun z => RoutineDone z a.current r) a b
  beside : ∀ x, a.scopes.parent x = some a.current → x ≠ d.scope →
    (b.scopes.get x).captures = (a.scopes.get x).captures

theorem routineDone {s : ScopeId} {r : RoutineDef} {f : RoutineFinding}
    (record : z.findings.routines.find? r.node = some f)
    (parent : z.scopes.parent f.scope = some s) (hb : StmtsDone z f.scope r.body)
    (hret : RetDone z f.scope r.ret f.signature.result)
    (named : (z.scopes.get f.scope).name = r.name.name) : RoutineDone z s r := by
  obtain ⟨⟩ := r
  exact .mk record parent hb hret named

theorem linkSites_routine {f : Findings} {r : RoutineDef} {x : RoutineFinding}
    (h : f.routines.find? r.node = some x) : r.linkSites f =
      Stmt.allLinkSites f x.scope r.body ++ Part.sites x.scope (ReturnClause.optParts r.ret) := by
  obtain ⟨⟩ := r
  rw [RoutineDef.linkSites, show f.routines.find? _ = some x from h]

/-- What was recorded about a routine that was declared is found in the end. -/
theorem Entry.find? {r : RoutineDef} {d : DeclaredRoutine} (he : Entry a r d) (hz : Settled z)
    (hg : Grows a z) : ∃ f, z.findings.routines.find? r.node = some f ∧ f.scope = d.scope ∧
      f.signature.result = d.result := by
  obtain ⟨f, hf, hscope, hresult⟩ := he.recorded
  obtain ⟨sources, hf'⟩ := hg.findings.routines _ hf
  exact ⟨_, (Findings.nodup_routines hz.keys).find?_eq hf', hscope, hresult⟩

/-- Two scopes in one scope are beside each other. -/
theorem beside_of_parent {t : Scopes} (hw : t.WF) {x s p : ScopeId} (hx : t.parent x = some p)
    (hs : t.parent s = some p) (hne : x ≠ s) : x ∉ t.path s := by
  intro hmem
  rw [hw.path_of_parent hs] at hmem
  rcases List.mem_cons.mp hmem with heq | hmem
  · exact hne heq
  · exact hw.ne_of_mem_path_parent hx hmem rfl

/-- The statements of a routine, and its result. -/
theorem outcome_body {r : RoutineDef} (result : Option TypeId) (ha : Sound a)
    (hk : (a.scopes.get a.current).kind.isBody = true)
    (hbody : Outcome (Part.allKeys (Stmt.allParts r.body))
      (fun f => Stmt.allLinkSites f a.current r.body) (fun z => StmtsDone z a.current r.body) a
      ((stmts r.body).run a).2) :
    Outcome (Part.allKeys r.bodyParts)
      (fun f => Stmt.allLinkSites f a.current r.body ++
        Part.sites a.current (ReturnClause.optParts r.ret))
      (fun z => StmtsDone z a.current r.body ∧ RetDone z a.current r.ret result) a
      ((stmts r.body >>= fun _ => checkReturn r result).run a).2 := by
  have hb := ha.walk hbody.walk
  have hcur := hbody.walk.current_eq
  have hkb : (((stmts r.body).run a).2.scopes.get ((stmts r.body).run a).2.current).kind.isBody =
      true := by
    rw [hcur, hbody.walk.grows.scopes.kind_eq ha.has, hk]
  have hreturn := (decides_checkReturn r result).outcome (Place.at_body hb hkb)
  have hscope : (Place.body ((stmts r.body).run a).2.current).scope = a.current := hcur
  rw [hscope] at hreturn
  refine (hbody.trans hreturn).conseq ?_ (fun _ _ _ => List.Subset.refl _)
    fun z hz _ hd => ⟨hd.1, hd.2 hz⟩
  rw [RoutineDef.bodyParts, Part.allKeys_append]

/-- What comes after the body of a routine: its captures are found, and no other scope
but those around it captures anything. -/
theorem outcome_finishRoutine {r : RoutineDef} {d : DeclaredRoutine} (ha : Sound a)
    (he : Entry a r d) (ho : Outcome K S D { a with current := d.scope } b) :
    Outcome K S D a ((finishRoutine r d.scope).run { b with current := a.current }).2 ∧
      ∀ y, b.scopes.Has y → y ∉ b.scopes.path a.current →
        (((finishRoutine r d.scope).run { b with current := a.current }).2.scopes.get y).captures =
          (b.scopes.get y).captures := by
  have hdh := Scopes.has_of_parent he.parent
  have hb := (ha.enter he.parent (Or.inr he.empty)).walk ho.walk
  have hback := hb.back he.parent ho.walk
  have hcur : b.current = d.scope := ho.walk.current_eq
  have hlinked : b.scopes.Linked d.scope := hcur ▸ hb.linked
  have hg := ho.walk.grows.scopes
  have hkind : (b.scopes.get d.scope).kind ≠ .fieldInit := by
    rw [hg.kind_eq hdh]
    exact fun h => absurd (he.kind.symm.trans h) (by simp)
  obtain ⟨hafter, hsourced⟩ := captureSources_spec hback ((hg.parent_eq hdh).trans he.parent) hkind
    hlinked
  obtain ⟨f, hf, hscope, -⟩ := he.recorded
  have hroutine := Outcome.routine ha he.parent he.kind he.empty ⟨f, hf, hscope⟩ ho hafter hsourced
  have hc := ha.walk hroutine.walk
  obtain ⟨hs, -⟩ := decides_checkClosing (Place.here _) .routineNotClosed r.name r.closing _
    (Place.at_here hc)
  refine ⟨hroutine.andSteps hc hs, fun y hy hout => ?_⟩
  have hx := hafter.grows.scopes
  refine (hs.captures_eq hc (hx.has hy) ?_).trans (hafter.captures_eq hback hy hout)
  rw [hafter.current_eq]
  intro hmem
  refine hout ?_
  rwa [hx.path_eq hback.scopes.toWF hc.scopes.toWF hback.has] at hmem

/-- What a part of the analysis comes to wherever statements may stand. -/
structure Analysed (m : Analyze Unit) (K : Multiset Key)
    (S : Findings → ScopeId → List (NodeId × ScopeId)) (D : Analysis → ScopeId → Prop) : Prop where
  outcome : ∀ {a : Analysis}, Sound a → (a.scopes.get a.current).kind.isBody = true →
    Outcome K (S · a.current) (D · a.current) a (m.run a).2

/-- Statements are analysed. -/
abbrev StmtsAnalysed (xs : List Stmt) : Prop :=
  Analysed (stmts xs) (Part.allKeys (Stmt.allParts xs)) (Stmt.allLinkSites · · xs)
    (StmtsDone · · xs)

theorem bodyAnalysed {r : RoutineDef} {d : DeclaredRoutine} (ha : Sound a) (he : Entry a r d)
    (hbody : StmtsAnalysed r.body) :
    BodyAnalysed r d a ((routineBody d r).run a).2 := by
  have hdh := Scopes.has_of_parent he.parent
  have ha₁ := ha.enter he.parent (Or.inr he.empty)
  have hk₁ : (a.scopes.get d.scope).kind.isBody = true := by
    rw [he.kind]
    rfl
  have ho := outcome_body d.result ha₁ hk₁ (hbody.outcome ha₁ hk₁)
  obtain ⟨hfinal, hbeside⟩ := outcome_finishRoutine ha he ho
  rw [run_routineBody]
  refine ⟨hfinal.conseq rfl (fun z hz hg => ?_) fun z hz hg hd => ?_, fun y hy hne => ?_⟩
  · obtain ⟨f, hf, hscope, -⟩ := he.find? hz (hfinal.walk.grows.trans hg)
    rw [linkSites_routine hf, hscope]
    exact List.Subset.refl _
  · obtain ⟨f, hf, hscope, hresult⟩ := he.find? hz.toSettled (hfinal.walk.grows.trans hg)
    have hhead := (hfinal.walk.grows.trans hg).scopes.head _ hdh
    refine routineDone hf ?_ (hscope ▸ hd.1) (hscope ▸ hresult ▸ hd.2) ?_
    · rw [hscope]
      exact hhead.parent.trans he.parent
    · rw [hscope, hhead.name, he.name_eq]
  · have hyh := Scopes.has_of_parent hy
    have hg := ho.walk.grows.scopes
    have hb := ha₁.walk ho.walk
    rw [hbeside y (hg.has hyh) ?_]
    · exact ho.walk.captures_eq ha₁ hyh (beside_of_parent ha.scopes.toWF hy he.parent hne)
        (beside_of_parent ha.scopes.toWF he.parent hy (Ne.symm hne))
    · rw [hg.path_eq ha.scopes.toWF hb.scopes.toWF ha.has]
      exact fun hmem => ha.scopes.ne_of_mem_path_parent hy hmem rfl

/-- Waiting routines keep waiting while nothing makes them capture anything. -/
theorem Entries.mono {rs : List RoutineDef} {ds : List (Option DeclaredRoutine)}
    (h : Entries a rs ds) (hg : Grows a b) (hcurrent : b.current = a.current)
    (hc : ∀ d, some d ∈ ds → (b.scopes.get d.scope).captures = (a.scopes.get d.scope).captures) :
    Entries b rs ds := by
  refine ⟨?_, h.distinct⟩
  have hentry := h.entry
  clear h
  induction hentry with
  | nil => exact .nil
  | cons hd _ ih =>
    refine .cons (fun d' hd' => ?_) (ih fun d hmem => hc d (List.mem_cons_of_mem _ hmem))
    exact (hd d' hd').mono hg hcurrent (hc d' (hd' ▸ List.mem_cons_self))

theorem Entries.parent {rs : List RoutineDef} {ds : List (Option DeclaredRoutine)}
    (h : Entries a rs ds) {d : DeclaredRoutine} (hd : some d ∈ ds) :
    a.scopes.parent d.scope = some a.current := by
  have hentry := h.entry
  clear h
  induction hentry with
  | nil => exact absurd hd List.not_mem_nil
  | cons hfirst _ ih =>
    rcases List.mem_cons.mp hd with heq | hd
    · exact (hfirst d heq.symm).parent
    · exact ih hd

/-- What analysing the bodies of member routines comes to. -/
structure BodiesAnalysed (rs : List RoutineDef) (ds : List (Option DeclaredRoutine))
    (a b : Analysis) : Prop where
  outcome : Outcome (Part.allKeys (rs.flatMap RoutineDef.bodyParts))
    (fun f => RoutineDef.allLinkSites f rs) (fun z => none ∉ ds → RoutinesDone z a.current rs) a b
  beside : ∀ y, a.scopes.parent y = some a.current → (∀ d, some d ∈ ds → d.scope ≠ y) →
    (b.scopes.get y).captures = (a.scopes.get y).captures

theorem bodiesAnalysed : (rs : List RoutineDef) → {ds : List (Option DeclaredRoutine)} →
    {a : Analysis} → Sound a → Entries a rs ds → (∀ r ∈ rs, StmtsAnalysed r.body) →
      BodiesAnalysed rs ds a ((routineBodies ds rs).run a).2
  | [], ds, a, _, he, _ => by
    obtain ⟨he, -⟩ := he
    cases he
    exact ⟨⟨.refl a, fun _ _ _ _ h => Or.inl h, fun _ _ _ _ => .nil⟩, fun _ _ _ => rfl⟩
  | r :: rs, ds, a, ha, he, hbodies => by
    obtain ⟨hentry, hdistinct⟩ := he
    cases hentry with
    | @cons d _ ds _ hd hrest =>
      rw [List.pairwise_cons] at hdistinct
      have hbodies' : ∀ r ∈ rs, StmtsAnalysed r.body := fun r hr =>
        hbodies r (List.mem_cons_of_mem _ hr)
      cases d with
      | none =>
        obtain ⟨ho, hbeside⟩ := bodiesAnalysed rs ha ⟨hrest, hdistinct.2⟩ hbodies'
        refine ⟨⟨ho.walk.mono ?_, fun z hz hg e he => ?_, fun z hz hg h => ?_⟩, fun y hy hne => ?_⟩
        · rw [List.flatMap_cons, Part.allKeys_append]
          exact Multiset.le_add_left _ _
        · refine (ho.sited z hz hg e he).imp_right ?_
          rintro ⟨s, hs, hsees⟩
          exact ⟨s, List.mem_append_right _ hs, hsees⟩
        · exact absurd List.mem_cons_self h
        · exact hbeside y hy fun d hmem => hne d (List.mem_cons_of_mem _ hmem)
      | some d =>
        obtain ⟨ho, hbeside⟩ := bodyAnalysed ha (hd d rfl) (hbodies r List.mem_cons_self)
        have hb := ha.walk ho.walk
        have hcur := ho.walk.current_eq
        have hwaiting : Entries a rs ds := ⟨hrest, hdistinct.2⟩
        have hrest' := hwaiting.mono ho.walk.grows hcur fun e hmem =>
          hbeside e.scope (hwaiting.parent hmem) fun heq => hdistinct.1 _ hmem d e rfl rfl heq.symm
        obtain ⟨ho', hbeside'⟩ := bodiesAnalysed rs hb hrest' hbodies'
        refine ⟨(ho.trans ho').conseq ?_ (fun _ _ _ => List.Subset.refl _) fun z hz hg h hnone => ?_,
          fun y hy hne => ?_⟩
        · rw [List.flatMap_cons, Part.allKeys_append]
        · refine .cons h.1 (hcur ▸ h.2 fun hmem => hnone (List.mem_cons_of_mem _ hmem))
        · refine (hbeside' y ?_ fun d hmem => hne d (List.mem_cons_of_mem _ hmem)).trans
            (hbeside y hy (hne d List.mem_cons_self).symm)
          rw [hcur, ho.walk.grows.scopes.parent_eq (Scopes.has_of_parent hy), hy]

/-! ## Types -/

theorem decides_updateFields {p : Place} {type : TypeId} {isStatic : Bool} {bs : List Binding}
    (h : ∀ z, p.Known z → z.types.form type = .user ∧
      ∀ b ∈ bs, b.role = .member isStatic ∧ b.owner = some type) :
    Decides p 0 (updateTypes fun t => t.update type fun d => d.addFields isStatic bs)
      fun _ _ => True := fun a ha => by
  obtain ⟨hform, hmembers⟩ := h a ha.known
  exact ⟨.step (.types a (.addFields hform isStatic hmembers)), fun _ _ _ => trivial⟩

/-- The data members of a type are decided. -/
theorem decides_instanceFields {s inner : ScopeId} {type : TypeId} : (ds : List VarDecl) →
    Decides (Place.type s inner type) (Part.allKeys (ds.map .declare)) (instanceFields type ds)
      fun z _ => Accepted z → ∀ d ∈ ds, ∃ f, DeclDone z s d f
  | [] => .pure fun _ _ _ _ h => absurd h List.not_mem_nil
  | d :: ds => by
    refine ((decides_varDecl (@declares_type s inner type .field rfl) d).bind fun bs => ?_).keys
      (Part.allKeys_cons (.declare d) (ds.map .declare)).symm
    refine (decides_updateFields fun z hz => ⟨?_, fun b hb => hz.fact.members b hb⟩).andThen
      fun _ => (decides_instanceFields ds).weaken.weaken.conseq fun z _ hz hd h d' hmem => ?_
    · exact hz.of_knowing.holds.2.1.2.2
    · rcases List.mem_cons.mp hmem with rfl | hmem
      · exact hz.of_knowing.fact.done h
      · exact hd h d' hmem

/-- What declaring a static member comes to once its initial value is known. -/
theorem decides_declareStatic {s inner : ScopeId} {type : TypeId} (f : StaticField)
    (value : Option TypeId) :
    Decides (Place.type s inner type) {(.decls, f.decl.node)} (do
      let declared ← resolve f.decl.type
      let bindings ←
        declareInit f.decl.node .staticField (some type) f.decl.names declared value f.init.span
      updateTypes fun t => t.update type fun d => d.addFields true bindings)
      fun z _ => Accepted z → ∀ v, value = some v → ∃ df mode,
        z.findings.decls.find? f.decl.node = some df ∧ df.mode = some mode ∧
          NamesDone z s df.type f.decl.names df.bindings ∧ Writes z df.type v mode := by
  refine (decides_resolve _ f.decl.type).andThen fun declared => ?_
  refine (((decides_declareInit (@declares_type s inner type .staticField rfl) f.decl.node
    f.decl.names declared value f.init.span).weaken).bind (L := 0) fun bs => ?_).keys (add_zero _)
  refine (decides_updateFields fun z hz => ⟨?_, fun b hb => hz.fact.members b hb⟩).conseq
    fun z _ hz _ h v hv => ?_
  · exact hz.of_knowing.of_knowing.holds.2.1.2.2
  · obtain ⟨t, rfl⟩ := hz.of_knowing.fact h
    exact hz.fact.done h t v rfl hv

/-- A static member is decided; its initial value stands in a scope of its own. -/
theorem outcome_staticField {s inner : ScopeId} {type : TypeId} (ha : (Place.type s inner type).At a)
    (f : StaticField) : Outcome (Part.allKeys f.parts) (fun _ => Part.sites inner f.parts)
      (fun z => ∃ df mode, InitDone z s inner f.decl.node f.decl.names f.init df mode) a
      ((staticField type inner f).run a).2 := by
  obtain ⟨-, -, -, hp, hk⟩ := ha.holds
  have hparent : a.scopes.parent inner = some a.current := hp.trans (congrArg some ha.current.symm)
  have hinner := ha.sound.enter hparent (Or.inl hk)
  have hvalue := Outcome.inside hparent (Or.inl hk) ((decides_requiredExpr
    (decides_expr (Place.here inner) f.init)).outcome (Place.at_here hinner))
  set x := (operand f.init).run { a with current := inner } with hx
  have hb : (Place.type s inner type).At { x.2 with current := a.current } :=
    ⟨ha.sound.walk hvalue.walk, ha.current, (Place.type s inner type).kept ha.holds
      hvalue.walk.grows⟩
  have hdeclare := ((decides_declareStatic f x.1).keys (L := Part.allKeys [.staticField f]) rfl).outcome hb
  refine (hvalue.trans hdeclare).conseq ?_ (fun z _ _ => ?_) fun z hz _ hd => ?_
  · rw [StaticField.parts, Part.allKeys_cons, add_comm]
    rfl
  · rw [StaticField.parts]
    exact fun e he => List.append_nil (Part.sites inner f.init.parts) ▸ he
  · obtain ⟨v, hv, hhas⟩ := hd.1 hz
    obtain ⟨df, mode, hfind, hmode, hnames, hwrites⟩ := hd.2 hz v hv
    exact ⟨df, mode, hfind, hmode, hnames, v, hhas, hwrites⟩

theorem outcome_staticFields {s inner : ScopeId} {type : TypeId} : (fs : List StaticField) →
    {a : Analysis} → (Place.type s inner type).At a →
    Outcome (Part.allKeys (fs.flatMap StaticField.parts))
      (fun _ => Part.sites inner (fs.flatMap StaticField.parts))
      (fun z => ∀ f ∈ fs, ∃ df mode, InitDone z s inner f.decl.node f.decl.names f.init df mode) a
      ((staticFields type inner fs).run a).2
  | [], a, _ => (Outcome.refl a).conseq rfl (fun _ _ _ => List.Subset.refl _)
      fun _ _ _ _ _ h => absurd h List.not_mem_nil
  | f :: fs, a, ha => by
    have hfirst := outcome_staticField ha f
    have hb : (Place.type s inner type).At ((staticField type inner f).run a).2 :=
      ⟨ha.sound.walk hfirst.walk, hfirst.walk.current_eq.trans ha.current,
        (Place.type s inner type).kept ha.holds hfirst.walk.grows⟩
    refine (hfirst.trans (outcome_staticFields fs hb)).conseq ?_ (fun z _ _ => ?_)
      fun z _ _ hd f' hf' => ?_
    · rw [List.flatMap_cons, Part.allKeys_append]
    · rw [List.flatMap_cons, Part.sites_append]
      exact List.Subset.refl _
    · rcases List.mem_cons.mp hf' with rfl | hf'
      · exact hd.1
      · exact hd.2 f' hf'

/-- The routines of a type.  All of them are declared before the first body. -/
def memberRoutines (type : TypeId) (rs rs' : List RoutineDef) : Analyze Unit := do
  let declared ← declareMembers ⟨type, false⟩ rs
  let declaredStatic ← declareMembers ⟨type, true⟩ rs'
  routineBodies declared rs
  routineBodies declaredStatic rs'

/-- Other routines that are declared do not make a waiting routine capture anything. -/
theorem Entries.steps {rs : List RoutineDef} {ds : List (Option DeclaredRoutine)}
    (h : Entries a rs ds) (ha : Sound a) (hs : Steps K a b) : Entries b rs ds :=
  h.mono hs.grows hs.current_eq fun _ hd =>
    hs.captures_eq ha (Scopes.has_of_parent (h.parent hd)) fun hmem =>
      ha.scopes.ne_of_mem_path_parent (h.parent hd) hmem rfl

theorem outcome_memberRoutines {s inner : ScopeId} {type : TypeId} {rs rs' : List RoutineDef}
    (ha : (Place.type s inner type).At a) (h : ∀ r ∈ rs, StmtsAnalysed r.body)
    (h' : ∀ r ∈ rs', StmtsAnalysed r.body) :
    Outcome (Part.allKeys (RoutineDef.allParts rs ++ RoutineDef.allParts rs'))
      (fun f => RoutineDef.allLinkSites f rs ++ RoutineDef.allLinkSites f rs')
      (fun z => RoutinesDone z s rs ∧ RoutinesDone z s rs') a
      ((memberRoutines type rs rs').run a).2 := by
  have hosts : ∀ isStatic z, (Place.type s inner type).Known z →
      Hosts (Place.type s inner type).scope (some ⟨type, isStatic⟩) z := fun _ z hz => hz.holds.2.1
  have hx := declareMembers_spec (hosts false) rs ha
  have hb := ha.steps hx.steps
  have hx' := declareMembers_spec (hosts true) rs' hb
  have hc := hb.steps hx'.steps
  set x := (declareMembers ⟨type, false⟩ rs).run a
  set x' := (declareMembers ⟨type, true⟩ rs').run x.2
  obtain ⟨ho, hbeside⟩ := bodiesAnalysed rs hc.sound (hx.entries.steps hb.sound hx'.steps) h
  have hd := hc.sound.walk ho.walk
  have hwaiting := hx'.entries.mono ho.walk.grows ho.walk.current_eq fun d hmem =>
    hbeside d.scope (hx'.entries.parent hmem) fun d' hmem' heq => hx'.new d hmem (heq ▸
      Scopes.has_of_parent (hx.entries.parent hmem'))
  obtain ⟨ho', -⟩ := bodiesAnalysed rs' hd hwaiting h'
  have hsteps := (hx.steps.outcome ha.sound).trans (hx'.steps.outcome hb.sound)
  have hgrows := ho.walk.grows.trans ho'.walk.grows
  refine (hsteps.trans (ho.trans ho')).conseq ?_ (fun z _ _ => ?_) fun z hz hg hdone => ?_
  · rw [Part.allKeys_append, Part.allKeys_routines, Part.allKeys_routines]
    abel
  · rw [Part.sites_map fun _ => rfl, Part.sites_map fun _ => rfl]
    exact List.Subset.refl _
  · have hnone := hx.complete z hz (hx'.steps.grows.trans (hgrows.trans hg))
    have hnone' := hx'.complete z hz (hgrows.trans hg)
    have hcur : x'.2.current = s := hc.current
    exact ⟨hcur ▸ hdone.2.1 hnone, (ho.walk.current_eq.trans hcur) ▸ hdone.2.2 hnone'⟩

/-- All members of a type, in the order in which they are analysed. -/
def members (f : TypeFinding) (fields : List VarDecl) (statics : List StaticField)
    (rs rs' : List RoutineDef) : Analyze Unit := do
  instanceFields f.type fields
  staticFields f.type f.fieldInit statics
  memberRoutines f.type rs rs'

/-- All members of a type are done. -/
structure MembersDone (z : Analysis) (s inner : ScopeId) (fields : List VarDecl)
    (statics : List StaticField) (rs rs' : List RoutineDef) : Prop where
  fields : ∀ d ∈ fields, ∃ f, DeclDone z s d f
  statics : ∀ f ∈ statics, ∃ df mode,
    InitDone z s inner f.decl.node f.decl.names f.init df mode
  routines : RoutinesDone z s rs
  staticRoutines : RoutinesDone z s rs'

theorem outcome_members {f : TypeFinding} {fields : List VarDecl} {statics : List StaticField}
    {rs rs' : List RoutineDef} (ha : (Place.type f.scope f.fieldInit f.type).At a)
    (h : ∀ r ∈ rs, StmtsAnalysed r.body) (h' : ∀ r ∈ rs', StmtsAnalysed r.body) :
    Outcome (Part.allKeys (fields.map .declare ++ statics.flatMap StaticField.parts ++
        RoutineDef.allParts rs ++ RoutineDef.allParts rs'))
      (fun g => Part.sites f.fieldInit (statics.flatMap StaticField.parts) ++
        RoutineDef.allLinkSites g rs ++ RoutineDef.allLinkSites g rs')
      (fun z => MembersDone z f.scope f.fieldInit fields statics rs rs') a
      ((members f fields statics rs rs').run a).2 := by
  have hfields := (decides_instanceFields fields).outcome ha
  have hb := ha.steps (decides_instanceFields fields a ha).1
  have hstatics := outcome_staticFields statics hb
  set b := ((instanceFields f.type fields).run a).2
  have hc : (Place.type f.scope f.fieldInit f.type).At
      ((staticFields f.type f.fieldInit statics).run b).2 :=
    ⟨hb.sound.walk hstatics.walk, hstatics.walk.current_eq.trans hb.current,
      Place.kept _ hb.holds hstatics.walk.grows⟩
  have hroutines := outcome_memberRoutines hc h h'
  refine (hfields.trans (hstatics.trans hroutines)).conseq ?_ (fun z _ _ => ?_) fun z hz _ hd => ?_
  · simp only [Part.allKeys_append, add_assoc]
  · rw [Part.sites_map fun _ => rfl, List.append_assoc]
    exact List.Subset.refl _
  · exact ⟨hd.1 hz, hd.2.1, hd.2.2.1, hd.2.2.2⟩

/-- The scope of the static initial values is opened from the scope of the type. -/
theorem TypeEntry.place {name : Ident} {f : TypeFinding} (h : TypeEntry name f a b)
    (ha : Sound a) : Steps 0 { a with current := f.scope } { b with current := f.scope } ∧
      (Place.type f.scope f.fieldInit f.type).At { b with current := f.scope } := by
  obtain ⟨hp, hk, hempty, hm, -, hunit, hhas, haddressed, hinit, rfl⟩ := h
  have hs : Steps 0 { a with current := f.scope } { a with
      scopes := a.scopes.openMember f.scope .fieldInit name.name f.unit (some f.type) false
      current := f.scope } :=
    .step (.scopes _ (@Scopes.Step.openMember a.scopes f.scope .fieldInit (some f.type) false
      ⟨hk, hm.symm⟩ _ (Scopes.fits_fieldInit _ _ name.name) f.unit) fun s hs hnot => by
        rw [Scopes.eq_of_has_openMember hs hnot, ← hunit]
        exact Units.housed_fieldInit a.units (Scopes.has_of_parent hp) _ _ _)
  have hnew := Scopes.agrees_openMember_new a.scopes f.scope .fieldInit name.name f.unit
    (some f.type) false
  have hold := (hs.grows.scopes.head _ (Scopes.has_of_parent hp))
  refine ⟨hs, (ha.enter hp (Or.inr hempty)).steps hs, rfl, ?_, ?_, hhas, ?_, ?_⟩
  · exact hs.grows.scopes.has (Scopes.has_of_parent hp)
  · exact ⟨hold.kind.trans hk, hold.memberOf.trans hm, haddressed.form⟩
  · rw [hinit]
    exact hnew.head.parent
  · rw [hinit]
    exact hnew.head.kind

/-- What comes after the members of a type: its captures are found, and it is recorded. -/
theorem outcome_finishType {t : TypeDef} {f : TypeFinding} {c : Analysis} (ha : Sound a)
    (hentry : TypeEntry t.name f a c) (fresh : ∀ e ∈ a.findings.types, e.2.scope ≠ f.scope)
    (ho : Outcome K S D { c with current := f.scope } b) :
    Outcome (K + {(.types, t.node)}) S D a ((finishType t f).run { b with current := a.current }).2 ∧
      ∃ sources, (t.node, { f with captures := sources }) ∈
        ((finishType t f).run { b with current := a.current }).2.findings.types := by
  obtain ⟨hopen, hplace⟩ := hentry.place ha
  have ha₁ := ha.enter hentry.parent (Or.inr hentry.empty)
  have hbody : Outcome K S D { a with current := f.scope } b :=
    ((@Steps.outcome _ _ ha₁ [] hopen).trans ho).conseq (zero_add K)
      (fun _ _ _ => List.Subset.refl _) fun _ _ _ h => h.2
  have hfh := Scopes.has_of_parent hentry.parent
  have hg := hbody.walk.grows.scopes
  have hb := ha₁.walk hbody.walk
  have hback := hb.back hentry.parent hbody.walk
  have hcur : b.current = f.scope := hbody.walk.current_eq
  have hlinked : b.scopes.Linked f.scope := hcur ▸ hb.linked
  have hkind : (b.scopes.get f.scope).kind ≠ .fieldInit := by
    rw [hg.kind_eq hfh]
    exact fun h => absurd (hentry.kind.symm.trans h) (by simp)
  obtain ⟨hafter, hsourced⟩ := captureSources_spec hback ((hg.parent_eq hfh).trans hentry.parent)
    hkind hlinked
  obtain ⟨-, -, -, hinner, hinnerKind⟩ := Place.kept _ hplace.holds ho.walk.grows
  set x := (captureSources f.scope).run { b with current := a.current } with hx
  have htype := @Outcome.type K S D a b x.2 ha t.node { f with captures := x.1 } hentry.parent
    hentry.kind hentry.empty fresh hentry.memberOf hentry.unit hentry.addressed hinner hinnerKind hbody hafter
    hsourced
  have hc := ha.walk htype.walk
  obtain ⟨hs, -⟩ := decides_checkClosing (Place.here _) .typeNotClosed t.name t.closing _
    (Place.at_here hc)
  refine ⟨htype.andSteps hc hs, x.1, ?_⟩
  rw [show ((finishType t f).run { b with current := a.current }).2.findings.types = _ from
    hs.types_eq]
  exact List.mem_cons_self

theorem run_typeDef (t : TypeDef) (a : Analysis) : (typeDef t).run a =
    match (openType t.name).run a with
    | (none, b) => ((), b)
    | (some f, b) => (finishType t f).run
        { ((members f t.fields t.staticFields t.routines t.staticRoutines).run
          { b with current := f.scope }).2 with current := b.current } := by
  obtain ⟨⟩ := t
  rw [typeDef]
  dsimp only
  rw [StateT.run_bind]
  generalize (openType _).run a = x
  obtain ⟨f, b⟩ := x
  cases f <;> rfl

theorem typeDone {s : ScopeId} {t : TypeDef} {f : TypeFinding}
    (record : z.findings.types.find? t.node = some f) (parent : z.scopes.parent f.scope = some s)
    (h : MembersDone z f.scope f.fieldInit t.fields t.staticFields t.routines t.staticRoutines)
    (named : (z.scopes.get f.scope).name = t.name.name) : TypeDone z s t := by
  obtain ⟨⟩ := t
  exact .mk record parent h.fields h.statics h.routines h.staticRoutines named

theorem linkSites_type {f : Findings} {t : TypeDef} {x : TypeFinding}
    (h : f.types.find? t.node = some x) : t.linkSites f =
      Part.sites x.fieldInit (t.staticFields.flatMap StaticField.parts) ++
        RoutineDef.allLinkSites f t.routines ++ RoutineDef.allLinkSites f t.staticRoutines := by
  obtain ⟨⟩ := t
  rw [TypeDef.linkSites, show f.types.find? _ = some x from h]

theorem keys_type (t : TypeDef) : Part.allKeys (t.fields.map .declare ++
    t.staticFields.flatMap StaticField.parts ++ RoutineDef.allParts t.routines ++
      RoutineDef.allParts t.staticRoutines) + {(.types, t.node)} = Part.allKeys t.parts := by
  obtain ⟨⟩ := t
  rw [TypeDef.parts, Part.allKeys_cons, add_comm]
  rfl

theorem analysed_type {t : TypeDef} (h : ∀ r ∈ t.routines, StmtsAnalysed r.body)
    (h' : ∀ r ∈ t.staticRoutines, StmtsAnalysed r.body) :
    Analysed (typeDef t) (Part.allKeys t.parts) (fun f _ => t.linkSites f) (TypeDone · · t) := by
  refine ⟨fun {a} ha hk => ?_⟩
  have hopened := @openType_spec (Place.body a.current) a t.name (fun z hz => hz.holds.2)
    (Place.at_body ha hk)
  rw [run_typeDef]
  set x := (openType t.name).run a
  obtain ⟨f, b⟩ := x
  cases f with
  | none =>
    have hs := hopened.refused rfl
    refine ⟨(Walk.steps hs).mono (Multiset.zero_le _), fun z hz hg e he => Or.inl ?_,
      fun z hz hg => ?_⟩
    · exact (hs.links ha he).resolve_right fun h => Multiset.notMem_zero _ h.1
    · obtain ⟨f, hf⟩ := hopened.complete z hz hg
      exact absurd hf (by simp)
  | some f =>
    obtain ⟨hnew, c, hs, hentry⟩ := hopened.opened f rfl
    have hc := ha.steps hs
    have hcur : b.current = c.current := by rw [show b = _ from hentry.tables]
    have fresh : ∀ e ∈ c.findings.types, e.2.scope ≠ f.scope := fun e he heq => by
      obtain ⟨s, hparent⟩ := (ha.typeFindings e (hs.types_eq ▸ he)).parent
      exact hnew (heq ▸ Scopes.has_of_parent hparent)
    obtain ⟨ho, sources, hmem⟩ := outcome_finishType hc hentry fresh
      (outcome_members (hentry.place hc).2 h h')
    rw [keys_type] at ho
    dsimp only
    rw [hcur]
    have hrecord : ∀ z, Settled z → Grows _ z → z.findings.types.find? t.node =
        some { f with captures := sources } := fun z hz hg =>
      (Findings.nodup_types hz.keys).find?_eq (Findings.Grows.types hg.findings hmem)
    refine ((@Steps.outcome _ _ ha [] hs).trans ho).conseq (zero_add _) (fun z hz hg => ?_)
      fun z hz hg hd => ?_
    · rw [linkSites_type (hrecord z hz hg)]
      exact List.Subset.refl _
    · have hhead := (ho.walk.grows.trans hg).scopes.head _ (Scopes.has_of_parent hentry.parent)
      refine typeDone (hrecord z hz.toSettled hg) ?_ hd.2 (hhead.name.trans hentry.name_eq)
      rw [Scopes.parent, hhead.parent, ← hs.current_eq]
      exact hentry.parent

/-! ## Statements -/

variable {m n : Analyze Unit} {F G : Findings → ScopeId → List (NodeId × ScopeId)}
  {P Q : Analysis → ScopeId → Prop}

theorem Analysed.andThen (hm : Analysed m K F P) (hn : Analysed n L G Q) :
    Analysed (do m; n) (K + L) (fun f s => F f s ++ G f s) fun z s => P z s ∧ Q z s := by
  refine ⟨fun {a} ha hk => ?_⟩
  have h := hm.outcome ha hk
  have hcur := h.walk.current_eq
  have h' := hn.outcome (ha.walk h.walk) (by rw [hcur, h.walk.grows.scopes.kind_eq ha.has, hk])
  rw [hcur] at h'
  exact h.trans h'

theorem Analysed.keys (h : Analysed m K F P) (hK : K = L) : Analysed m L F P := hK ▸ h

theorem Analysed.conseq (h : Analysed m K F P) (hP : ∀ z s, Accepted z → P z s → Q z s) :
    Analysed m K F Q :=
  ⟨fun ha hk => (h.outcome ha hk).conseq rfl (fun _ _ _ => List.Subset.refl _)
    fun z hz _ => hP z _ hz⟩

theorem analysed_idle : Analysed (return ()) 0 (fun _ _ => []) fun _ _ => True :=
  ⟨fun {a} _ _ => .refl a⟩

/-- A statement that stays in one scope. -/
theorem Decides.analysed {xs : List Part}
    (h : ∀ s, Decides (Place.body s) (Part.allKeys xs) m fun z _ => Accepted z → P z s) :
    Analysed m (Part.allKeys xs) (fun _ s => Part.sites s xs) P :=
  ⟨fun {a} ha hk => ((h a.current).outcome (Place.at_body ha hk)).conseq rfl
    (fun _ _ _ => List.Subset.refl _) fun _ hz _ hd => hd hz⟩

/-- A part whose result nothing asks for. -/
theorem Decides.discard {α : Type} {p : Place} {m : Analyze α} {R : Analysis → α → Prop}
    (h : Decides p K m R) : Decides p K (discard m) fun z _ => ∃ x, R z x :=
  fun a ha => ⟨(h a ha).1, fun z hz hg => ⟨_, (h a ha).2 z hz hg⟩⟩

/-- A block has its inside in its own scope. -/
theorem analysed_block (node : NodeId) (hm : Analysed m K F P) {T : Findings → List (NodeId × ScopeId)}
    (hT : ∀ f b, f.blocks.find? node = some b → F f b ⊆ T f) :
    Analysed (do inScope (← openBlock node) m) ({(.blocks, node)} + K) (fun f _ => T f) fun z s =>
      ∃ b, z.findings.blocks.find? node = some b ∧ z.scopes.parent b = some s ∧
        (z.scopes.get b).kind = .block ∧ P z b := by
  refine ⟨fun {a} ha hk => ?_⟩
  have hx := openBlock_spec node ha hk
  have h := outcome_block ha hx (fun f => hT f _) fun hs hb => hm.outcome hs hb
  rw [← hx.steps.current_eq] at h
  exact h.conseq rfl (fun _ _ _ => List.Subset.refl _) fun z _ _ hd =>
    ⟨_, hd.1, hx.steps.current_eq ▸ hd.2.1, hd.2.2⟩

theorem run_routine (r : RoutineDef) (a : Analysis) : (stmt (.routine r)).run a =
    match (declareRoutine none r).run a with
    | (none, b) => ((), b)
    | (some d, b) => (routineBody d r).run b := by
  rw [stmt, StateT.run_bind]
  generalize (declareRoutine none r).run a = x
  obtain ⟨d, b⟩ := x
  cases d <;> rfl

theorem analysed_routine {r : RoutineDef} (hbody : StmtsAnalysed r.body) :
    Analysed (stmt (.routine r)) (Part.allKeys r.parts) (fun f _ => r.linkSites f)
      (RoutineDone · · r) := by
  refine ⟨fun {a} ha hk => ?_⟩
  have hx := @declareRoutine_spec (Place.body a.current) a none r (fun z hz => hz.holds.2)
    (Place.at_body ha hk)
  rw [run_routine]
  set x := (declareRoutine none r).run a
  obtain ⟨d, b⟩ := x
  have hs := @Steps.outcome _ _ ha [.routine r] hx.steps
  have hkeys : Part.allKeys [.routine r] + Part.allKeys r.bodyParts = Part.allKeys r.parts := by
    rw [RoutineDef.parts_eq, Part.allKeys_cons, Part.allKeys_cons, Part.allKeys_nil, add_zero]
  cases d with
  | none =>
    refine ⟨hs.walk.mono (hkeys ▸ Multiset.le_add_right _ _), fun z hz hg e he => ?_,
      fun z hz hg => ?_⟩
    · refine (hs.sited z hz hg e he).imp_right ?_
      rintro ⟨s, hmem, -⟩
      exact absurd hmem List.not_mem_nil
    · obtain ⟨d, hd⟩ := hx.complete z hz hg
      exact absurd hd (by simp)
  | some d =>
    have ho := (bodyAnalysed (ha.steps hx.steps) (hx.entry d rfl).1 hbody).outcome
    refine (hs.trans ho).conseq hkeys (fun _ _ _ => List.Subset.refl _) fun z _ _ hd => ?_
    exact hx.steps.current_eq ▸ hd.2

theorem analysed_declare (d : VarDecl) : Analysed (stmt (.declare d))
    (Part.allKeys (Stmt.declare d).parts) (fun _ s => Part.sites s (Stmt.declare d).parts)
    (StmtDone · · (.declare d)) :=
  Decides.analysed fun s => (decides_varDecl (declares_body s) d).discard.conseq fun _ _ _ hd hz => by
    obtain ⟨_, hd⟩ := hd
    obtain ⟨f, hf⟩ := hd.done hz
    exact .declare hf

theorem analysed_define (d : InitDecl) : Analysed (stmt (.define d))
    (Part.allKeys (Stmt.define d).parts) (fun _ s => Part.sites s (Stmt.define d).parts)
    (StmtDone · · (.define d)) :=
  Decides.analysed fun s => (decides_initDecl (declares_body s) d).conseq fun _ _ _ hd hz => by
    obtain ⟨f, mode, h⟩ := hd hz
    exact .define h

theorem analysed_assign (x : Assignment) : Analysed (stmt (.assign x))
    (Part.allKeys (Stmt.assign x).parts) (fun _ s => Part.sites s (Stmt.assign x).parts)
    (StmtDone · · (.assign x)) :=
  Decides.analysed fun _ => (decides_assign x).conseq fun _ _ _ hd hz =>
    .assign (hd hz).1 (hd hz).2

theorem analysed_call (c : Chain) : Analysed (stmt (.call c)) (Part.allKeys c.parts)
    (fun _ s => Part.sites s c.parts) (StmtDone · · (.call c)) :=
  Decides.analysed fun s => (decides_chainStmt (Place.body s) c).discard.conseq
    fun _ _ _ hd hz => by
      obtain ⟨t, hd⟩ := hd
      exact .call fun hlinks => ⟨t, hd hz hlinks⟩

theorem analysed_condition (condition : Expr) {body : List Stmt} (hbody : StmtsAnalysed body) :
    Analysed (do checkCondition condition; stmts body)
      (Part.allKeys condition.parts + Part.allKeys (Stmt.allParts body))
      (fun f s => Part.sites s condition.parts ++ Stmt.allLinkSites f s body)
      fun z s => (∃ t, ExprHas z s condition t) ∧ StmtsDone z s body :=
  (Decides.analysed fun _ => decides_checkCondition condition).andThen hbody

mutual

/-- Statements are analysed, wherever they may stand. -/
theorem analysed_stmt : (x : Stmt) →
    Analysed (stmt x) (Part.allKeys x.parts) (fun f s => x.linkSites f s) (StmtDone · · x)
  | .declare d => analysed_declare d
  | .define d => analysed_define d
  | .assign x => analysed_assign x
  | .call c => analysed_call c
  | .branch gs otherwise _ => (((analysed_guardedAll gs).andThen (analysed_else otherwise)).conseq
      fun _ _ _ h => .branch h.1 h.2).keys (Part.allKeys_append _ _).symm
  | .loop g => (analysed_guarded g).conseq fun _ _ _ => .loop
  | .routine ⟨_, _, _, _, _, body, _, _⟩ =>
    (analysed_routine (analysed_stmts body)).conseq fun _ _ _ => .routine
  | .type ⟨node, name, closing, fields, statics, routines, staticRoutines, span⟩ =>
    (analysed_type (t := ⟨node, name, closing, fields, statics, routines, staticRoutines, span⟩)
      (analysed_bodies routines) (analysed_bodies staticRoutines)).conseq fun _ _ _ => .type

theorem analysed_guarded : (g : Guarded) →
    Analysed (guarded g) (Part.allKeys g.parts) (fun f _ => g.linkSites f) (GuardedDone · · g)
  | ⟨node, condition, body, span⟩ => by
    have h := analysed_block node (analysed_condition condition (analysed_stmts body))
      (T := fun f => Guarded.linkSites f ⟨node, condition, body, span⟩) fun f b hb => by
        rw [Guarded.linkSites, hb]
        exact List.Subset.refl _
    refine (h.conseq fun z s _ hd => ?_).keys ?_
    · obtain ⟨b, hfind, hparent, hkind, ⟨t, ht⟩, hb⟩ := hd
      exact .mk hfind hparent hkind ht hb
    · rw [Guarded.parts, Part.allKeys_cons, Part.allKeys_append]
      rfl

theorem analysed_else : (e : Else) →
    Analysed (elseBlock e) (Part.allKeys e.parts) (fun f _ => e.linkSites f) (ElseDone · · e)
  | .absent => analysed_idle.conseq fun _ _ _ _ => .absent
  | .block node body span => by
    have h := analysed_block node (analysed_stmts body)
      (T := fun f => Else.linkSites f (.block node body span)) fun f b hb => by
        rw [Else.linkSites, hb]
        exact List.Subset.refl _
    refine (h.conseq fun z s _ hd => ?_).keys ?_
    · obtain ⟨b, hfind, hparent, hkind, hb⟩ := hd
      exact .block hfind hparent hkind hb
    · rw [Else.parts, Part.allKeys_cons]
      rfl

theorem analysed_stmts : (xs : List Stmt) → StmtsAnalysed xs
  | [] => analysed_idle.conseq fun _ _ _ _ => .nil
  | x :: xs => (((analysed_stmt x).andThen (analysed_stmts xs)).conseq
      fun _ _ _ h => .cons h.1 h.2).keys (Part.allKeys_append _ _).symm

theorem analysed_guardedAll : (gs : List Guarded) → Analysed (guardedAll gs)
    (Part.allKeys (Guarded.allParts gs)) (fun f _ => Guarded.allLinkSites f gs)
      (GuardedAllDone · · gs)
  | [] => analysed_idle.conseq fun _ _ _ _ => .nil
  | g :: gs => (((analysed_guarded g).andThen (analysed_guardedAll gs)).conseq
      fun _ _ _ h => .cons h.1 h.2).keys (Part.allKeys_append _ _).symm

theorem analysed_bodies : (rs : List RoutineDef) → ∀ r ∈ rs, StmtsAnalysed r.body
  | [], _, h => absurd h List.not_mem_nil
  | ⟨_, _, _, _, _, body, _, _⟩ :: rs, r, h => (List.mem_cons.mp h).elim
      (fun heq => heq ▸ analysed_stmts body) (analysed_bodies rs r)

end

end Unnest.Analysis
