import Unnest.Proofs.Analysis.Filled

/-!
# Bodies of routines

The body of a routine starts with slots of its own, and the routine is in its slot when
its body has been walked through (`tracked_routine`).  What it captured is read right
behind it, where its own value is not yet in its slot; and since a routine never captures
itself, it reads only what was filled in front of it.
-/

namespace Unnest.Analysis

open Analyze

variable {K : Multiset Key} {a b c z : Analysis} {s p : ScopeId}

/-! ## Routines -/

/-- Statements are followed, and fill what the rules say. -/
abbrev StmtsTracked (xs : List Stmt) : Prop :=
  Tracked (stmts xs) fun z N V V' => StmtsFills z N V xs V'

/-- Back in the same scope, in tables that come after. -/
structure Continues (a b : Analysis) : Prop extends Follows a b where
  sound : Sound b
  laid : b.scopes.Laid
  current : b.current = a.current

namespace Continues

theorem trans (h : Continues a b) (h' : Continues b c) (ha : Sound a) : Continues a c :=
  ⟨h.toFollows.trans h'.toFollows ha h.sound.scopes.toWF h.current, h'.sound, h'.laid,
    h'.current.trans h.current⟩

theorem before (h : Continues a b) (h' : Follows b z) (ha : Sound a) : Follows a z :=
  h.toFollows.trans h' ha h.sound.scopes.toWF h.current

end Continues

theorem Steps.continues (ha : Sound a) (hl : a.scopes.Laid) (h : Steps K a b) : Continues a b :=
  ⟨h.follows ha, ha.steps h, h.laid ha hl, h.current_eq⟩

/-- Looking up what a routine captured is followed. -/
theorem continues_finishRoutine (r : RoutineDef) (hb : Sound b) (hl : b.scopes.Laid)
    (hp : b.scopes.parent s = some b.current) (hk : (b.scopes.get s).kind ≠ .fieldInit)
    (hlinked : b.scopes.Linked s) : Continues b ((finishRoutine r s).run b).2 := by
  obtain ⟨hs, -⟩ := captureSources_spec hb hp hk hlinked
  have hfirst := hs.continues hb hl
  set x := (captureSources s).run b
  have hc := hfirst.sound.complete r.node x.1
  have hrecord : Continues x.2 { x.2 with findings := x.2.findings.complete r.node x.1 } :=
    ⟨⟨grows_complete _ _ _, fun _ _ _ _ _ => rfl⟩, hc, hfirst.laid, rfl⟩
  obtain ⟨hs', -⟩ := decides_checkClosing (Place.here _) .routineNotClosed r.name r.closing _
    (Place.at_here hc)
  exact (hfirst.trans hrecord hb).trans (hs'.continues hc hrecord.laid) hb

/-- The body of a routine and its result. -/
theorem tracked_body {r : RoutineDef} (h : StmtsTracked r.body) (result : Option TypeId) :
    Tracked (stmts r.body >>= fun _ => checkReturn r result) fun z N V _ => ∃ V',
      StmtsFills z N V r.body V' ∧ ReadsOnly z V' (ReturnClause.optParts r.ret) :=
  (h.andThen (tracked_checkReturn r result)).conseq fun _ _ _ _ ⟨V₁, hb, hret, _⟩ => ⟨V₁, hb, hret⟩

theorem Entry.ready {r : RoutineDef} {d : DeclaredRoutine} (he : Entry a r d) (ha : Sound a)
    (hl : a.scopes.Laid) : Ready { a with current := d.scope } :=
  ⟨ha.enter he.parent (Or.inr he.empty), hl, (congrArg ScopeKind.isBody he.kind).trans rfl⟩

/-- Coming back from the body of a routine is followed. -/
theorem Entry.continues {r : RoutineDef} {d : DeclaredRoutine} (he : Entry a r d)
    (ha : Sound a) (hl : a.scopes.Laid) (h : Walk K { a with current := d.scope } b) :
    Continues { b with current := a.current }
      ((finishRoutine r d.scope).run { b with current := a.current }).2 := by
  have hready := he.ready ha hl
  have hb := hready.sound.walk h
  have hh := Scopes.has_of_parent he.parent
  have hg := h.grows.scopes
  have hlaid := h.laid hready.sound hready.laid
  refine continues_finishRoutine r (hb.back he.parent h) hlaid
    ((hg.parent_eq hh).trans he.parent) ?_ ?_
  · intro hk
    rw [hg.kind_eq hh] at hk
    exact absurd (he.kind.symm.trans hk) (by simp)
  · have hlinked := hb.linked
    rwa [h.current_eq] at hlinked

/-- A body starts with the routine itself and its parameters. -/
theorem bodyStart_of_recorded {member : Option Membership} {r : RoutineDef} {d : DeclaredRoutine}
    {f : RoutineFinding} (hr : Recorded member r d f a) (he : Entry a r d) (ha : Sound a)
    (hz : Final z) (hg : Grows a z) : BodyStart z r.params f (a.scopes.filled d.scope) := by
  have hh := Scopes.has_of_parent he.parent
  have hkind := he.kind
  rw [← hr.scope] at hh hkind ⊢
  have hfilled := ha.scopes.filled_of_owns (s := f.scope) (by rw [hkind]; rfl)
  rw [hkind, hr.entries] at hfilled
  refine ⟨?_, fun k hk => ?_, fun k hk => ?_, hr.length, ?_⟩
  · rw [hfilled]
    exact Or.inl Nat.one_pos
  · rw [hfilled] at hk
    rcases hk with hk | hk
    · exact Nat.le_trans (Nat.le_of_lt_succ hk) (Nat.zero_le _)
    · have hlt := lt_of_mem_slotSet_paramBindings hk
      rw [List.length_zip, hr.length, Nat.min_self] at hlt
      omega
  · have howner : z.scopes.owningMethod f.scope = f.scope := Scopes.owningMethod_of_owns (by
      rw [hg.scopes.kind_eq hh, hkind]
      rfl)
    have hsubset := hg.scopes.filled_subset ha.scopes.toWF hz.sound.scopes.toWF hh
    have hlt := hz.laid.filled_lt hz.sound.scopes.toWF (hg.scopes.has hh) k (hsubset hk)
    rwa [Scopes.numLocals, howner] at hlt
  · exact hr.entries ▸ hg.scopes.entries _ hh

/-- The body of a routine is analysed in its scope. -/
theorem routineFills_of_body {member : Option Membership} {r : RoutineDef} {d : DeclaredRoutine}
    {f : RoutineFinding} (hr : Recorded member r d f a) (he : Entry a r d) (ha : Sound a)
    (hl : a.scopes.Laid) (hbody : StmtsTracked r.body) (hz : Final z)
    (h : Follows ((routineBody d r).run a).2 z) : RoutineFills z r := by
  have hready := he.ready ha hl
  have htracked := tracked_body hbody d.result
  obtain ⟨K, hwalk⟩ := htracked.walk hready
  rw [run_routineBody] at h
  have hcontinues := he.continues ha hl hwalk
  have hcur := hwalk.current_eq
  have hg := hwalk.grows.scopes
  have hholds := fun h => htracked.holds hready hz h
  set b := ((stmts r.body >>= fun _ => checkReturn r d.result).run { a with current := d.scope }).2
  have hb := hready.sound.walk hwalk
  have hh := Scopes.has_of_parent he.parent
  have hinside := (hcontinues.before h (hb.back he.parent hwalk)).inside hb.scopes.toWF
    ((hg.parent_eq hh).trans he.parent)
  rw [show { b with current := d.scope } = b by rw [← show b.current = d.scope from hcur]] at hinside
  obtain ⟨V', hfills, hret⟩ := hholds hinside
  have hgrows : Grows a z := hwalk.grows.of_at.trans hinside.grows
  obtain ⟨sources, record⟩ := hr.find? hz.toSettled hgrows
  have howns : (z.scopes.get d.scope).kind.ownsMethod = true := by
    rw [hgrows.scopes.kind_eq hh, he.kind]
    rfl
  have hcount : z.scopes.numLocals d.scope = (z.scopes.get f.scope).numLocals := by
    rw [Scopes.numLocals, Scopes.owningMethod_of_owns howns, hr.scope]
  obtain ⟨itself, arguments, below, length, entries⟩ := bodyStart_of_recorded hr he ha hz hgrows
  dsimp only at hfills
  rw [hcount] at hfills
  obtain ⟨⟩ := r
  exact .mk record ⟨itself, arguments, below, length, entries⟩ hfills hret

/-- Walking through a body declares nothing outside of it. -/
theorem Entry.entries_eq {r : RoutineDef} {d : DeclaredRoutine} {o : ScopeId} (he : Entry a r d)
    (ha : Sound a) (hl : a.scopes.Laid) (hbody : StmtsTracked r.body) (ho : a.scopes.Has o)
    (hout : d.scope ∉ a.scopes.path o) :
    (((routineBody d r).run a).2.scopes.get o).entries = (a.scopes.get o).entries := by
  have hready := he.ready ha hl
  obtain ⟨K, hwalk⟩ := (tracked_body hbody d.result).walk hready
  rw [run_routineBody, (quiet_finishRoutine r d.scope _).entries, List.append_nil]
  have hnames := @Walk.names _ _ _ o hready.sound hwalk ho hout
  exact hnames.entries

/-! ## Captures -/

/-- What a finished definition captured is read from the scope around it. -/
theorem Follows.captured_within {sources : List CaptureSource} {V : Set Nat} (h : Follows b z)
    (hb : Sound b) (hz : Final z) (hk : (b.scopes.get b.current).kind.isBody = true)
    (hp : b.scopes.parent s = some b.current) (hr : Receives z s sources)
    (hslot : ∀ c ∈ (b.scopes.get s).captures, ∀ k, c.binding.slot = some k →
      c.owner ∈ b.scopes.path b.current →
        b.scopes.owningMethod c.owner = b.scopes.owningMethod b.current → k ∈ V)
    (hself : (b.scopes.get (b.scopes.owningMethod b.current)).kind = .routine → 0 ∈ V) :
    ∀ x ∈ sources, x.access.Within V := by
  intro x hx
  have hw := hb.scopes.toWF
  have hw' := hz.sound.scopes.toWF
  have hg := h.grows.scopes
  obtain ⟨p, hp', hsources⟩ := sourcesOf_receives hz.toSettled hz.finished hr
  obtain rfl : b.current = p :=
    Option.some.inj (hp.symm.trans ((hg.parent_eq (Scopes.has_of_parent hp)).symm.trans hp'))
  obtain ⟨c, hzip, hsource⟩ := exists_mem_zip_of_forall₂ hsources.flip hx
  have hc := (List.of_mem_zip hzip).2
  rw [h.kept s b.current hp hk fun hmem => hw.ne_of_mem_path_parent hp hmem rfl] at hc
  have howner := hg.owningMethod_eq hw hw' hb.has
  refine (hz.sound.scopes.leads hsource.reaches hsource.not_static).within (fun k hslot' hm => ?_)
    fun hkind => hself ?_
  · have hmem := (hb.scopes.captures s c hc).owner_mem
    have hpath := hw.mem_path_parent hp hmem (hb.scopes.captures s c hc).owner_ne
    refine hslot c hc k hslot' hpath ?_
    rwa [hg.owningMethod_eq hw hw' (Scopes.has_of_mem_path hpath hb.has), howner] at hm
  · rwa [howner, hg.kind_eq (hw.has_owningMethod hb.has)] at hkind

/-- A routine does not capture itself from where it is declared. -/
theorem not_captured_itself {r : RoutineDef} {d : DeclaredRoutine} {f : RoutineFinding}
    (hr : Recorded none r d f a) (he : Entry a r d) (hx : a.scopes.Extends b.scopes)
    (hl : b.scopes.Laid) {x : Capture} (hc : x ∈ (b.scopes.get d.scope).captures)
    (hbinding : x.binding = f.binding) : x.owner ≠ a.current := by
  intro howner
  have hh := Scopes.has_of_parent he.parent
  have hhead := hx.head _ hh
  have hname : (b.scopes.get d.scope).name = f.binding.name := by
    rw [hhead.name, ← hr.scope, hr.name]
  have hparent : (b.scopes.get d.scope).parent = some a.current := hhead.parent.trans he.parent
  have hindirect := hl.indirect d.scope x hc
  rw [hbinding, howner] at hindirect
  simp [Scopes.reachesDirectly, hr.role rfl, hname, hparent, hhead.kind, he.kind] at hindirect

/-! ## Routines as statements -/

/-- What a routine that is declared as a statement comes to. -/
structure RoutineOpened (r : RoutineDef) (d : DeclaredRoutine) (a b : Analysis) : Prop where
  steps : Steps {(.routines, r.node)} a b
  entry : Entry b r d
  fresh : ¬ a.scopes.Has d.scope

namespace RoutineOpened

variable {r : RoutineDef} {d : DeclaredRoutine} {f : RoutineFinding}

/-- The walk through the body is followed from in front of the declaration. -/
theorem continues (h : RoutineOpened r d a b) (ha : Ready a) (hbody : StmtsTracked r.body) :
    Continues a ((routineBody d r).run b).2 := by
  have hb : Ready b := ha.walk (.steps h.steps)
  have hready := h.entry.ready hb.sound hb.laid
  obtain ⟨K, hwalk⟩ := (tracked_body hbody d.result).walk hready
  have hfirst := Walk.follows ha.sound h.steps h.fresh h.entry.parent hready.sound hwalk
  have hback := (hready.sound.walk hwalk).back h.entry.parent hwalk
  rw [run_routineBody]
  rw [← h.steps.current_eq] at hfirst
  have hlaid := hwalk.laid hready.sound hready.laid
  exact Continues.trans ⟨hfirst, hback, hlaid, h.steps.current_eq⟩
    (h.entry.continues hb.sound hb.laid hwalk) ha.sound

/-- What is entered behind the routine is its own binding. -/
theorem entries (h : RoutineOpened r d a b) (he : Entered none r a d b f) (ha : Ready a)
    (hbody : StmtsTracked r.body) {o : ScopeId} (ho : o ∈ a.scopes.path a.current) :
    (((routineBody d r).run b).2.scopes.get o).entries =
      (a.scopes.get o).entries ++ only a.current [f.binding] o := by
  have hb : Ready b := ha.walk (.steps h.steps)
  have hoh := Scopes.has_of_mem_path ho ha.sound.has
  rw [h.entry.entries_eq hb.sound hb.laid hbody (h.steps.grows.scopes.has hoh)
    (not_mem_path_of_new hoh h.fresh), he.entries o hoh]

/-- Behind the routine, it is in its slot. -/
theorem filled (h : RoutineOpened r d a b) (he : Entered none r a d b f) (ha : Ready a)
    (hbody : StmtsTracked r.body) :
    ((routineBody d r).run b).2.scopes.filled a.current =
      a.scopes.filled a.current ∪ slotSet [f.binding] :=
  filled_only ha.sound (h.continues ha hbody).sound (h.continues ha hbody).grows.scopes
    fun _ => h.entries he ha hbody

/-- What the routine captured was filled in front of it. -/
theorem captured_within {g : RoutineFinding} (h : RoutineOpened r d a b)
    (he : Entered none r a d b f) (ha : Ready a) (hbody : StmtsTracked r.body) (hz : Final z)
    (hf : Follows ((routineBody d r).run b).2 z) (record : z.findings.routines.find? r.node = some g) (hscope : g.scope = d.scope) :
    ∀ x ∈ g.captures, x.access.Within (a.scopes.filled a.current) := by
  have hcontinues := h.continues ha hbody
  have hentries := fun o => @entries a b r d f h he ha hbody o
  have hb : Ready b := ha.walk (.steps h.steps)
  have hwalk := (bodyAnalysed hb.sound h.entry (analysed_stmts r.body)).outcome.walk
  have hx := hwalk.grows.scopes
  set c := ((routineBody d r).run b).2
  have hw := ha.sound.scopes.toWF
  have hg := hcontinues.grows.scopes
  have hc := hcontinues.sound
  have howner : ∀ o ∈ a.scopes.path a.current,
      c.scopes.owningMethod o = a.scopes.owningMethod o := fun o ho =>
    hg.owningMethod_eq hw hc.scopes.toWF (Scopes.has_of_mem_path ho ha.sound.has)
  have hself := howner _ (Scopes.mem_path_self _ _)
  have hreceives := Receives.routine record
  rw [hscope] at hreceives
  refine hf.captured_within hc hz ?_ ?_ hreceives (fun x hx' k hk ho hm => ?_) fun hkind => ?_
  · rw [hcontinues.current, hg.kind_eq ha.sound.has, ha.body]
  · rw [hcontinues.current, hx.parent_eq (Scopes.has_of_parent h.entry.parent), h.entry.parent,
      h.steps.current_eq]
  · rw [hcontinues.current, hg.path_eq hw hc.scopes.toWF ha.sound.has] at ho
    rw [hcontinues.current, howner _ ho, hself] at hm
    have hdeclared := (hc.scopes.captures _ x hx').declared
    rw [hentries _ ho, List.mem_append] at hdeclared
    rcases hdeclared with hold | hnew
    · exact Or.inr ⟨_, ho, hm, _, hold, hk⟩
    · rw [only] at hnew
      split at hnew
      · rename_i heq
        have hne := not_captured_itself he.recorded h.entry hx hcontinues.laid hx'
          (List.mem_singleton.mp hnew)
        exact absurd (heq.trans h.steps.current_eq.symm) hne
      · exact absurd hnew List.not_mem_nil
  · rw [hcontinues.current, hself, hg.kind_eq (hw.has_owningMethod ha.sound.has)] at hkind
    exact Scopes.zero_mem_filled hkind

end RoutineOpened

theorem tracked_routine {r : RoutineDef} (hbody : StmtsTracked r.body) :
    Tracked (stmt (.routine r)) fun z N V V' => StmtFills z N V (.routine r) V' := by
  have hopened : ∀ {a : Analysis}, Ready a → RoutineDeclared r a ((declareRoutine none r).run a) :=
    fun {a} ha => @declareRoutine_spec (Place.body a.current) a none r (fun z hz => hz.holds.2)
      ha.at_body
  refine ⟨fun {a} ha => ⟨_, ((analysed_stmt (.routine r)).outcome ha.sound ha.body).walk⟩,
    fun {a} ha => ?_, fun {a z} ha hz hf => ?_⟩ <;> rw [run_routine] at * <;>
    have hx := hopened ha <;> have hentered := enters_declareRoutine none r a ha.sound.has <;>
    set x := (declareRoutine none r).run a <;> obtain ⟨d, b⟩ := x
  · cases d with
    | none => exact hx.steps.follows ha.sound
    | some d =>
      have h : RoutineOpened r d a b := ⟨hx.steps, (hx.entry d rfl).1, (hx.entry d rfl).2⟩
      exact (h.continues ha hbody).toFollows
  · cases d with
    | none =>
      obtain ⟨d, hd⟩ := hx.complete z hz.toAccepted hf.grows
      exact absurd hd (by simp)
    | some d =>
      have h : RoutineOpened r d a b := ⟨hx.steps, (hx.entry d rfl).1, (hx.entry d rfl).2⟩
      have hb : Ready b := ha.walk (.steps hx.steps)
      have hwalk := (bodyAnalysed hb.sound h.entry (analysed_stmts r.body)).outcome.walk
      have hg : Grows b z := hwalk.grows.trans hf.grows
      obtain ⟨f, he⟩ := hentered d rfl (hz.of_grows hg)
      obtain ⟨sources, record⟩ := he.recorded.find? hz.toSettled hg
      have hmem : f.binding ∈ (b.scopes.get a.current).entries := by
        rw [he.entries _ ha.sound.has, only_self]
        exact List.mem_append_right _ List.mem_cons_self
      have hslot := (hb.sound.scopes.entries _ _ hmem).2
      rw [he.recorded.role rfl] at hslot
      obtain ⟨k, hk⟩ := Option.isSome_iff_exists.mp hslot
      dsimp only
      rw [h.filled he ha hbody, slotSet_singleton hk, Set.union_singleton]
      refine .routine record hk ?_ he.recorded.memberOf ?_ ?_
      · refine hz.below hg (List.forall_mem_singleton.mpr hmem) ?_ k ⟨_, List.mem_cons_self, hk⟩
        exact hx.steps.grows.scopes.has ha.sound.has
      · exact h.captured_within he ha hbody hz hf record he.recorded.scope
      · exact routineFills_of_body he.recorded h.entry hb.sound hb.laid hbody hz hf

end Unnest.Analysis
