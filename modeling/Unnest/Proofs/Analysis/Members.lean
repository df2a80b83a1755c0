import Unnest.Proofs.Analysis.Bodies
import Unnest.Proofs.Analysis.Program

/-!
# Bodies of members

The members of a type stand in a scope without slots, so what they captured comes from
the fields of the type, and so does what the initial values of static members read.
All member routines are declared before the first of their bodies.  Those that wait stay
as they are while the bodies before theirs are walked through (`Waiting`).

With this, the rules of `StmtFills` hold of all statements (`tracked_stmts`), and of those
of a whole program (`fills_analyze`).
-/

namespace Unnest.Analysis

open Analyze

variable {K : Multiset Key} {a b c e z : Analysis} {s p : ScopeId}

/-! ## Members of types -/

/-- A definition reads what it captured from what is filled around it. -/
theorem Final.sources_within {sources : List CaptureSource} (hz : Final z)
    (hr : Receives z s sources) (hp : z.scopes.parent s = some p) :
    ∀ x ∈ sources, x.access.Within (z.scopes.filled p) := by
  intro x hx
  obtain ⟨q, hq, hsources⟩ := sourcesOf_receives hz.toSettled hz.finished hr
  obtain rfl := Option.some.inj (hp.symm.trans hq)
  obtain ⟨c, -, hsource⟩ := exists_mem_zip_of_forall₂ hsources.flip hx
  exact hsource.reaches.within hz.sound.scopes

/-- Member routines that wait for their bodies are on record. -/
abbrev MembersRecorded (m : Membership) (rs : List RoutineDef)
    (ds : List (Option DeclaredRoutine)) (a : Analysis) : Prop :=
  List.Forall₂ (fun d r => ∀ d', d = some d' → ∃ f, Recorded (some m) r d' f a) ds rs

/-- Waiting routines stay on record while their scopes stay as they are. -/
theorem MembersRecorded.later {m : Membership} {rs : List RoutineDef}
    {ds : List (Option DeclaredRoutine)} (h : MembersRecorded m rs ds a) (hg : Grows a b)
    (he : ∀ d, some d ∈ ds → a.scopes.Has d.scope ∧
      (b.scopes.get d.scope).entries = (a.scopes.get d.scope).entries) :
    MembersRecorded m rs ds b := by
  induction h with
  | nil => exact .nil
  | cons hd _ ih =>
    refine .cons (fun d' hd' => ?_) (ih fun d hmem => he d (List.mem_cons_of_mem _ hmem))
    obtain ⟨f, hf⟩ := hd d' hd'
    obtain ⟨hhas, hentries⟩ := he d' (hd' ▸ List.mem_cons_self)
    exact hf.later hg hhas hentries

/-- What declaring member routines records and leaves alone. -/
structure MembersEntered (m : Membership) (rs : List RoutineDef) (a : Analysis)
    (x : List (Option DeclaredRoutine) × Analysis) : Prop where
  recorded : MembersRecorded m rs x.1 x.2
  kept : ∀ s, a.scopes.Has s → s ≠ a.current →
    (x.2.scopes.get s).entries = (a.scopes.get s).entries

theorem enters_declareMembers {q : Place} {m : Membership}
    (h : ∀ z, q.Known z → Hosts q.scope (some m) z) (hz : Accepted z) : (rs : List RoutineDef) →
    {a : Analysis} → q.At a → Grows ((declareMembers m rs).run a).2 z →
      MembersEntered m rs a ((declareMembers m rs).run a)
  | [], a, _, _ => ⟨.nil, fun _ _ _ => rfl⟩
  | r :: rs, a, ha, hg => by
    have hfirst := declareRoutine_spec r h ha
    have hentered := enters_declareRoutine (some m) r a ha.sound.has
    have hb := ha.steps hfirst.steps
    have hrest := declareMembers_spec h rs hb
    have hgrows := hrest.steps.grows.trans hg
    obtain ⟨d, hd⟩ := hfirst.complete z hz hgrows
    obtain ⟨f, hf⟩ := hentered d hd (hz.of_grows hgrows)
    obtain ⟨hrecorded, hkept⟩ := enters_declareMembers h hz rs hb hg
    have hentry := (hfirst.entry d hd).1
    refine ⟨.cons (fun d' hd' => ?_) hrecorded, fun s hs hne => ?_⟩
    · obtain rfl := Option.some.inj (hd.symm.trans hd')
      refine hf.recorded.later hrest.steps.grows (Scopes.has_of_parent hentry.parent) ?_
      refine hkept _ (Scopes.has_of_parent hentry.parent) ?_
      exact (hb.sound.scopes.ne_of_mem_path_parent hentry.parent (Scopes.mem_path_self _ _)).symm
    · refine (hkept s (hfirst.steps.grows.scopes.has hs) ?_).trans ?_
      · rw [hf.current]
        exact hne
      · rw [hf.entries s hs, only, if_neg hne, List.append_nil]

/-! ## Waiting for a body -/

/-- The walk is at the scope of a type. -/
structure AtType (a : Analysis) : Prop where
  sound : Sound a
  laid : a.scopes.Laid
  kind : (a.scopes.get a.current).kind = .type

theorem AtType.continues (ha : AtType a) (h : Continues a b) : AtType b :=
  ⟨h.sound, h.laid, by rw [h.current, h.grows.scopes.kind_eq ha.sound.has, ha.kind]⟩

theorem Place.At.atType {inner : ScopeId} {type : TypeId} (ha : (Place.type s inner type).At a)
    (hl : a.scopes.Laid) : AtType a :=
  ⟨ha.sound, hl, ha.current ▸ ha.holds.2.1.1⟩

/-- A scope captures and declares nothing in between. -/
structure Untouched (a b : Analysis) (x : ScopeId) : Prop where
  captures : (b.scopes.get x).captures = (a.scopes.get x).captures
  entries : (b.scopes.get x).entries = (a.scopes.get x).entries

/-- Members that were declared wait for their bodies. -/
structure Waiting (m : Membership) (rs : List RoutineDef) (ds : List (Option DeclaredRoutine))
    (a : Analysis) : Prop where
  entries : Entries a rs ds
  recorded : MembersRecorded m rs ds a

section Members

variable {m : Membership} {r : RoutineDef} {rs rs' : List RoutineDef} {d : DeclaredRoutine}
  {ds ds' : List (Option DeclaredRoutine)}

theorem Entries.later (h : Entries a rs ds) (hc : Continues a b)
    (hu : ∀ d, some d ∈ ds → Untouched a b d.scope) : Entries b rs ds :=
  h.mono hc.grows hc.current fun d hd => (hu d hd).captures

theorem Waiting.later (h : Waiting m rs ds a) (hc : Continues a b)
    (hu : ∀ d, some d ∈ ds → Untouched a b d.scope) : Waiting m rs ds b :=
  ⟨h.entries.later hc hu, h.recorded.later hc.grows fun d hd =>
    ⟨Scopes.has_of_parent (h.entries.parent hd), (hu d hd).entries⟩⟩

/-- The walk through the body of a member is followed. -/
theorem Entry.continues_body (he : Entry a r d) (ha : AtType a) (hbody : StmtsTracked r.body) :
    Continues a ((routineBody d r).run a).2 := by
  have hready := he.ready ha.sound ha.laid
  have htracked := tracked_body hbody d.result
  obtain ⟨K, hwalk⟩ := htracked.walk hready
  have hbody : (a.scopes.get a.current).kind.isBody = false := congrArg ScopeKind.isBody ha.kind
  have hfollows := (htracked.follows hready).member ha.sound.scopes.toWF he.parent hbody
  have hback := (hready.sound.walk hwalk).back he.parent hwalk
  have hlaid := hwalk.laid hready.sound hready.laid
  rw [run_routineBody]
  exact Continues.trans ⟨hfollows, hback, hlaid, rfl⟩ (he.continues ha.sound ha.laid hwalk) ha.sound

/-- The body of a member leaves the others alone. -/
theorem Entry.untouched (he : Entry a r d) (ha : AtType a) (hbody : StmtsTracked r.body)
    {x : ScopeId} (hx : a.scopes.parent x = some a.current) (hne : x ≠ d.scope) :
    Untouched a ((routineBody d r).run a).2 x where
  captures := (bodyAnalysed ha.sound he (analysed_stmts r.body)).beside x hx hne
  entries := he.entries_eq ha.sound ha.laid hbody (Scopes.has_of_parent hx)
    (beside_of_parent ha.sound.scopes.toWF he.parent hx hne.symm)

/-- What walking through the bodies of members comes to. -/
structure BodiesWalked (ds : List (Option DeclaredRoutine)) (a b : Analysis) : Prop
    extends Continues a b where
  beside : ∀ x, a.scopes.parent x = some a.current → (∀ d, some d ∈ ds → x ≠ d.scope) →
    Untouched a b x

/-- The members behind the first one, when its body has been walked through. -/
theorem Entries.behind (h : Entries a (r :: rs) (some d :: ds)) (ha : AtType a)
    (hbody : StmtsTracked r.body) :
    ∀ e, some e ∈ ds → Untouched a ((routineBody d r).run a).2 e.scope := by
  obtain ⟨hentry, hdistinct⟩ := h
  rw [List.pairwise_cons] at hdistinct
  cases hentry with
  | cons hd hrest =>
    exact fun e he => (hd d rfl).untouched ha hbody (Entries.parent ⟨hrest, hdistinct.2⟩ he)
      fun heq => hdistinct.1 _ he d e rfl rfl heq.symm

theorem Entries.tail {x : Option DeclaredRoutine} (h : Entries a (r :: rs) (x :: ds)) :
    Entries a rs ds :=
  ⟨(List.forall₂_cons.mp h.entry).2, (List.pairwise_cons.mp h.distinct).2⟩

theorem Entries.head (h : Entries a (r :: rs) (some d :: ds)) : Entry a r d :=
  (List.forall₂_cons.mp h.entry).1 d rfl

theorem bodiesWalked : (rs : List RoutineDef) → {ds : List (Option DeclaredRoutine)} →
    {a : Analysis} → AtType a → Entries a rs ds → (∀ r ∈ rs, StmtsTracked r.body) →
      BodiesWalked ds a ((routineBodies ds rs).run a).2
  | [], ds, a, ha, h, _ => by
    cases h.entry
    exact ⟨⟨.refl a, ha.sound, ha.laid, rfl⟩, fun _ _ _ => ⟨rfl, rfl⟩⟩
  | r :: rs, [], _, _, h, _ => nomatch h.entry
  | r :: rs, none :: ds, a, ha, h, hbodies => by
    obtain ⟨hcontinues, hbeside⟩ := bodiesWalked rs ha h.tail (List.forall_mem_cons.mp hbodies).2
    exact ⟨hcontinues, fun x hx hne => hbeside x hx fun d hd => hne d (List.mem_cons_of_mem _ hd)⟩
  | r :: rs, some d :: ds, a, ha, h, hbodies => by
    rw [List.forall_mem_cons] at hbodies
    have hfirst := h.head.continues_body ha hbodies.1
    obtain ⟨hcontinues, hbeside⟩ := bodiesWalked rs (ha.continues hfirst)
      (h.tail.later hfirst (h.behind ha hbodies.1)) hbodies.2
    refine ⟨hfirst.trans hcontinues ha.sound, fun x hx hne => ?_⟩
    have huntouched := h.head.untouched ha hbodies.1 hx (hne d List.mem_cons_self)
    have hparent := hfirst.grows.scopes.parent_eq (Scopes.has_of_parent hx)
    have hrest := hbeside x (hparent.trans (hx.trans (congrArg some hfirst.current.symm)))
      fun e he => hne e (List.mem_cons_of_mem _ he)
    exact ⟨hrest.captures.trans huntouched.captures, hrest.entries.trans huntouched.entries⟩

/-- A member is made where no slot is filled. -/
theorem memberFills_of_body {f : RoutineFinding} (hr : Recorded (some m) r d f a)
    (he : Entry a r d) (ha : AtType a) (hbody : StmtsTracked r.body) (hz : Final z)
    (h : Follows ((routineBody d r).run a).2 z) : MemberFills z m.isStatic r := by
  have hg := (he.continues_body ha hbody).grows.trans h.grows
  obtain ⟨sources, record⟩ := hr.find? hz.toSettled hg
  have hparent : z.scopes.parent d.scope = some a.current :=
    (hg.scopes.parent_eq (Scopes.has_of_parent he.parent)).trans he.parent
  have hempty : z.scopes.filled a.current = ∅ := hz.sound.scopes.filled_type
    (Or.inl ((hg.scopes.kind_eq ha.sound.has).trans ha.kind))
  have hreceives := Receives.routine record
  rw [show ({ f with captures := sources } : RoutineFinding).scope = d.scope from hr.scope]
    at hreceives
  refine .mk record hr.isStatic ?_ (routineFills_of_body hr he ha.sound ha.laid hbody hz h)
  exact hempty ▸ hz.sources_within hreceives hparent

theorem fills_routineBodies : (rs : List RoutineDef) → {ds : List (Option DeclaredRoutine)} →
    {a : Analysis} → AtType a → Waiting m rs ds a → none ∉ ds → (∀ r ∈ rs, StmtsTracked r.body) →
      Final z → Follows ((routineBodies ds rs).run a).2 z → ∀ r ∈ rs, MemberFills z m.isStatic r
  | [], _, _, _, _, _, _, _, _ => List.forall_mem_nil _
  | r :: rs, [], _, _, h, _, _, _, _ => nomatch h.recorded
  | r :: rs, none :: ds, _, _, _, hnone, _, _, _ => absurd List.mem_cons_self hnone
  | r :: rs, some d :: ds, a, ha, h, hnone, hbodies, hz, hf => by
    rw [List.forall_mem_cons] at hbodies ⊢
    obtain ⟨hr, hrecorded⟩ := List.forall₂_cons.mp h.recorded
    obtain ⟨f, hr⟩ := hr d rfl
    have hfirst := h.entries.head.continues_body ha hbodies.1
    have hwaiting := (Waiting.mk h.entries.tail hrecorded).later hfirst
      (h.entries.behind ha hbodies.1)
    have hb := ha.continues hfirst
    have hrest := (bodiesWalked rs hb hwaiting.entries hbodies.2).toContinues
    exact ⟨memberFills_of_body hr h.entries.head ha hbodies.1 hz (hrest.before hf hb.sound),
      fills_routineBodies rs hb hwaiting (fun hmem => hnone (List.mem_cons_of_mem _ hmem))
        hbodies.2 hz hf⟩

end Members

/-! ## Types -/

theorem fills_memberRoutines {inner : ScopeId} {type : TypeId} {rs rs' : List RoutineDef}
    (ha : (Place.type s inner type).At a) (hl : a.scopes.Laid) (h : ∀ r ∈ rs, StmtsTracked r.body)
    (h' : ∀ r ∈ rs', StmtsTracked r.body) (hz : Final z)
    (hf : Follows ((memberRoutines type rs rs').run a).2 z) :
    (∀ r ∈ rs, MemberFills z false r) ∧ ∀ r ∈ rs', MemberFills z true r := by
  have hosts : ∀ isStatic z, (Place.type s inner type).Known z →
      Hosts (Place.type s inner type).scope (some ⟨type, isStatic⟩) z := fun _ z hz => hz.holds.2.1
  have hx := declareMembers_spec (hosts false) rs ha
  have hentered := @enters_declareMembers _ _ _ (hosts false) hz.toAccepted rs a ha
  have hb := ha.steps hx.steps
  set x := (declareMembers ⟨type, false⟩ rs).run a
  have hx' := declareMembers_spec (hosts true) rs' hb
  have hentered' := @enters_declareMembers _ _ _ (hosts true) hz.toAccepted rs' x.2 hb
  have hc := hb.steps hx'.steps
  set x' := (declareMembers ⟨type, true⟩ rs').run x.2
  have hat := hc.atType (hx'.steps.laid hb.sound (hx.steps.laid ha.sound hl))
  have hentries := hx.entries.steps hb.sound hx'.steps
  have hfirst := bodiesWalked rs hat hentries h
  have hbeside : ∀ d, some d ∈ x'.1 → Untouched x'.2 ((routineBodies x.1 rs).run x'.2).2 d.scope :=
    fun d hd => hfirst.beside d.scope (hx'.entries.parent hd) fun e he heq => hx'.new d hd
      (heq ▸ Scopes.has_of_parent (hx.entries.parent he))
  have hd := hat.continues hfirst.toContinues
  have hentries' := hx'.entries.later hfirst.toContinues hbeside
  have hrest := (bodiesWalked rs' hd hentries' h').toContinues
  have hg' := (hfirst.grows.trans hrest.grows).trans hf.grows
  have hg := hx'.steps.grows.trans hg'
  have hkept := (hentered' hg').kept
  have hrecorded := (hentered hg).recorded.later hx'.steps.grows fun d hd =>
    ⟨Scopes.has_of_parent (hx.entries.parent hd), hkept _ (Scopes.has_of_parent
      (hx.entries.parent hd)) (hb.sound.scopes.ne_of_mem_path_parent (hx.entries.parent hd)
        (Scopes.mem_path_self _ _)).symm⟩
  have hwaiting' := (Waiting.mk hx'.entries (hentered' hg').recorded).later hfirst.toContinues
    hbeside
  exact ⟨fills_routineBodies rs hat ⟨hentries, hrecorded⟩ (hx.complete z hz.toAccepted hg) h hz
      (hrest.before hf hd.sound),
    fills_routineBodies rs' hd hwaiting' (hx'.complete z hz.toAccepted hg') h' hz hf⟩

theorem steps_checkClosing (fault : String → String → Fault) (name closing : Ident)
    (a : Analysis) : Steps 0 a ((checkClosing fault name closing).run a).2 ∧
      ((checkClosing fault name closing).run a).2.scopes = a.scopes := by
  rw [checkClosing]
  split
  · exact ⟨.step (.report a _), rfl⟩
  · exact ⟨.refl a, rfl⟩

/-- Looking up what a type captured is followed. -/
theorem follows_finishType (t : TypeDef) {f : TypeFinding} (hb : Sound b)
    (hp : b.scopes.parent f.scope = some b.current)
    (hk : (b.scopes.get f.scope).kind ≠ .fieldInit) (hlinked : b.scopes.Linked f.scope) :
    Follows b ((finishType t f).run b).2 := by
  obtain ⟨hs, -⟩ := captureSources_spec hb hp hk hlinked
  have hfirst := hs.follows hb
  set x := (captureSources f.scope).run b
  have hrecord := grows_writeType x.2 t.node { f with captures := x.1 }
  obtain ⟨hs', hscopes⟩ := steps_checkClosing .typeNotClosed t.name t.closing { x.2 with
    findings := { x.2.findings with
      types := x.2.findings.types.write t.node { f with captures := x.1 } } }
  refine ⟨(hfirst.grows.trans hrecord).trans hs'.grows, fun y p hp hk hy => ?_⟩
  refine Eq.trans (congrArg (fun s : Scopes => (s.get y).captures) hscopes) ?_
  exact hfirst.kept y p hp hk hy

/-- The walk has been through the members of a type whose scope was new in `c`, and it is
there in `m`. -/
structure MembersWalked (t : TypeDef) (f : TypeFinding) (a c m : Analysis) : Prop where
  steps : Steps 0 a c
  fresh : ¬ a.scopes.Has f.scope
  parent : c.scopes.parent f.scope = some c.current
  kind : (c.scopes.get f.scope).kind = .type
  empty : (c.scopes.get f.scope).captures = []
  walk : ∃ K, Walk K { c with current := f.scope } m
  inner : m.scopes.Has f.fieldInit ∧ (m.scopes.get f.fieldInit).kind = .fieldInit
  done : ∀ z, Accepted z → Grows m z →
    MembersDone z f.scope f.fieldInit t.fields t.staticFields t.routines t.staticRoutines
  /-- The routines come behind the fields. -/
  routines : ∃ d, (Place.type f.scope f.fieldInit f.type).At d ∧ d.scopes.Laid ∧
    m = ((memberRoutines f.type t.routines t.staticRoutines).run d).2
  entries : ∀ o, a.scopes.Has o → (m.scopes.get o).entries = (a.scopes.get o).entries

theorem membersWalked {t : TypeDef} {f : TypeFinding} (ha : Ready a) (hs : Steps 0 a c)
    (hnew : ¬ a.scopes.Has f.scope) (he : TypeEntry t.name f c b)
    (hentries : ∀ o, (b.scopes.get o).entries = (a.scopes.get o).entries) :
    MembersWalked t f a c ((members f t.fields t.staticFields t.routines t.staticRoutines).run
      { b with current := f.scope }).2 := by
  have hc : Ready c := ha.walk (.steps hs)
  have hin := hc.sound.enter he.parent (Or.inr he.empty)
  obtain ⟨hopen, hplace⟩ := he.place hc.sound
  have ho : Outcome _ _ (fun z => MembersDone z f.scope f.fieldInit t.fields t.staticFields
      t.routines t.staticRoutines) _ _ :=
    outcome_members hplace (fun r _ => analysed_stmts r.body) fun r _ => analysed_stmts r.body
  have hwalk := (Walk.steps hopen).trans ho.walk
  refine ⟨hs, hnew, he.parent, he.kind, he.empty, ⟨_, hwalk⟩, ?_, ho.decided, ?_, fun o hold => ?_⟩
  · have hhas := Scopes.has_of_parent hplace.holds.2.2.2.1
    have hg := ho.walk.grows.scopes
    exact ⟨hg.has hhas, (hg.kind_eq hhas).trans hplace.holds.2.2.2.2⟩
  · have hlaid := hopen.laid hin hc.laid
    have hfields := (decides_instanceFields t.fields _ hplace).1
    have hb := hplace.steps hfields
    have hstatics := (outcome_staticFields t.staticFields hb).walk
    refine ⟨_, ⟨hb.sound.walk hstatics, hstatics.current_eq.trans hb.current, Place.kept _ hb.holds
      hstatics.grows⟩, ?_, rfl⟩
    exact hstatics.laid hb.sound (hfields.laid hplace.sound hlaid)
  · have hnot := not_mem_path_of_new (a := c) hold hnew
    have hmembers := (hwalk.names hin (hs.grows.scopes.has hold) hnot).entries
    have hopened := (hopen.names hin (hs.grows.scopes.has hold) hnot).entries
    exact hmembers.trans (hopened.symm.trans (hentries o))

namespace MembersWalked

variable {t : TypeDef} {f : TypeFinding} {m : Analysis}

/-- Behind the members, the scope of the type is still in the scope of the walk. -/
theorem parent_eq (h : MembersWalked t f a c m) : m.scopes.parent f.scope = some a.current := by
  obtain ⟨K, hwalk⟩ := h.walk
  have hp := hwalk.grows.scopes.parent_eq (Scopes.has_of_parent h.parent)
  exact hp.trans (h.parent.trans (congrArg some h.steps.current_eq))

theorem current_eq (h : MembersWalked t f a c m) : m.current = f.scope :=
  h.walk.elim fun _ hwalk => hwalk.current_eq

theorem kind_eq (h : MembersWalked t f a c m) : (m.scopes.get f.scope).kind = .type := by
  obtain ⟨K, hwalk⟩ := h.walk
  exact (hwalk.grows.scopes.kind_eq (Scopes.has_of_parent h.parent)).trans h.kind

theorem sound (h : MembersWalked t f a c m) (ha : Ready a) : Sound m := by
  obtain ⟨K, hwalk⟩ := h.walk
  have hin := (ha.walk (.steps h.steps)).sound.enter h.parent (Or.inr h.empty)
  exact hin.walk hwalk

/-- Coming back from the members is followed. -/
theorem continues (h : MembersWalked t f a c m) (ha : Ready a) :
    Continues a { m with current := a.current } := by
  obtain ⟨K, hwalk⟩ := h.walk
  have hc : Ready c := ha.walk (.steps h.steps)
  have hin := hc.sound.enter h.parent (Or.inr h.empty)
  have hlaid := hwalk.laid hin hc.laid
  have hback := (hin.walk hwalk).back h.parent hwalk
  rw [h.steps.current_eq] at hback
  exact ⟨Walk.follows ha.sound h.steps h.fresh h.parent hin hwalk, hback, hlaid, rfl⟩

/-- What comes behind the members is followed. -/
theorem follows_finish (h : MembersWalked t f a c m) (ha : Ready a) :
    Follows { m with current := a.current }
      ((finishType t f).run { m with current := a.current }).2 := by
  have hlinked := (h.sound ha).linked
  rw [h.current_eq] at hlinked
  refine follows_finishType t (h.continues ha).sound h.parent_eq (fun heq => ?_) hlinked
  exact absurd (h.kind_eq.symm.trans heq) (by simp)

/-- A type fills no slot of the method that it stands in. -/
theorem filled_eq (h : MembersWalked t f a c m) (ha : Ready a)
    (he : Sound ((finishType t f).run { m with current := a.current }).2) :
    ((finishType t f).run { m with current := a.current }).2.scopes.filled a.current =
      a.scopes.filled a.current := by
  have hquiet := quiet_finishType t f { m with current := a.current }
  refine Scopes.filled_eq ((h.continues ha).grows.scopes.trans hquiet.scopes) ha.sound.scopes.toWF
    he.scopes.toWF ha.sound.has fun o ho => ?_
  rw [hquiet.entries, List.append_nil]
  exact h.entries o (Scopes.has_of_mem_path ho ha.sound.has)

/-- What is said about the slots around a type and inside of it. -/
theorem fills (h : MembersWalked t f a c m) (ha : Ready a)
    (hr : ∀ r ∈ t.routines, StmtsTracked r.body) (hr' : ∀ r ∈ t.staticRoutines, StmtsTracked r.body)
    (hz : Final z) (he : Sound ((finishType t f).run { m with current := a.current }).2)
    (hf : Follows ((finishType t f).run { m with current := a.current }).2 z) :
    StmtFills z (z.scopes.numLocals a.current) (a.scopes.filled a.current) (.type t)
      (((finishType t f).run { m with current := a.current }).2.scopes.filled a.current) := by
  have hcontinues := h.continues ha
  have hfinish := h.follows_finish ha
  have hquiet := quiet_finishType t f { m with current := a.current }
  obtain ⟨sources, hmem⟩ := recorded_finishType t f { m with current := a.current }
  have hfilled := h.filled_eq ha he
  set e := ((finishType t f).run { m with current := a.current }).2
  have record := (Findings.nodup_types hz.keys).find?_eq (hf.grows.findings.types hmem)
  have hback := hfinish.trans hf hcontinues.sound he.scopes.toWF hquiet.current
  have hinside := hback.inside hcontinues.sound.scopes.toWF h.parent_eq
  rw [show { m with current := f.scope } = m by rw [← h.current_eq]] at hinside
  have hdone := h.done z hz.toAccepted hinside.grows
  have hinner := (hinside.grows.scopes.kind_eq h.inner.1).trans h.inner.2
  obtain ⟨d, hd, hlaid, hm⟩ := h.routines
  rw [hm] at hinside
  have hroutines := fills_memberRoutines hd hlaid hr hr' hz hinside
  have hcur : e.current = a.current := hquiet.current
  rw [hfilled]
  refine .type record (hf.captured_within he hz ?_ ?_ (.type record) (fun x hx k hk ho hm => ?_)
    fun hk => ?_) (fun x hx => ?_) hroutines.1 hroutines.2
  · rw [hcur, (hcontinues.grows.trans hfinish.grows).scopes.kind_eq ha.sound.has, ha.body]
  · rw [hcur, hquiet.scopes.parent_eq (Scopes.has_of_parent h.parent_eq), h.parent_eq]
  · rw [← hfilled, ← hcur]
    exact Or.inr ⟨_, ho, hm, _, (he.scopes.captures _ x hx).declared, hk⟩
  · rw [← hfilled, ← hcur]
    exact Scopes.zero_mem_filled hk
  · obtain ⟨df, mode, hinit⟩ := hdone.statics x hx
    obtain ⟨type, hhas, -⟩ := hinit.value
    have hreads := (seen_expr x.init hhas).readsOnly hz.toSettled hz.sound (.refl z)
    rwa [hz.sound.scopes.filled_type (Or.inr hinner)] at hreads

end MembersWalked

/-- A type is refused, or it is opened and its members are walked through. -/
theorem typeDef_cases (t : TypeDef) (ha : Ready a) :
    (Steps 0 a ((typeDef t).run a).2 ∧ ∀ z, Accepted z → ¬ Grows ((typeDef t).run a).2 z) ∨
      ∃ f c m, MembersWalked t f a c m ∧
        ((typeDef t).run a).2 = ((finishType t f).run { m with current := a.current }).2 := by
  have hopened := @openType_spec (Place.body a.current) a t.name (fun z hz => hz.holds.2) ha.at_body
  have hentries := keepsEntries_openType t.name a
  rw [run_typeDef]
  set x := (openType t.name).run a
  obtain ⟨f, b⟩ := x
  cases f with
  | none =>
    refine Or.inl ⟨hopened.refused rfl, fun z hz hg => ?_⟩
    obtain ⟨f, hf⟩ := hopened.complete z hz hg
    exact absurd hf (by simp)
  | some f =>
    obtain ⟨hnew, c, hs, hentry⟩ := hopened.opened f rfl
    have hcur : b.current = a.current :=
      (congrArg Analysis.current hentry.tables).trans hs.current_eq
    dsimp only
    rw [hcur]
    exact Or.inr ⟨f, c, _, membersWalked ha hs hnew hentry hentries, rfl⟩

theorem tracked_type {t : TypeDef} (h : ∀ r ∈ t.routines, StmtsTracked r.body)
    (h' : ∀ r ∈ t.staticRoutines, StmtsTracked r.body) :
    Tracked (stmt (.type t)) fun z N V V' => StmtFills z N V (.type t) V' := by
  have hrun : stmt (.type t) = typeDef t := by rw [stmt]
  have hwalk : ∀ {a}, Ready a → ∃ K, Walk K a ((typeDef t).run a).2 := fun {a} ha =>
    ⟨_, (hrun ▸ (analysed_stmt (.type t)).outcome ha.sound ha.body).walk⟩
  rw [hrun]
  refine ⟨hwalk, fun {a} ha => ?_, fun {a z} ha hz hf => ?_⟩ <;>
    obtain ⟨K, hw⟩ := hwalk ha <;> have he := ha.sound.walk hw <;>
    rcases typeDef_cases t ha with ⟨hs, hrefused⟩ | ⟨f, c, m, hm, hrun⟩
  · exact hs.follows ha.sound
  · rw [hrun]
    have hcontinues := hm.continues ha
    exact hcontinues.toFollows.trans (hm.follows_finish ha) ha.sound hcontinues.sound.scopes.toWF rfl
  · exact absurd hf.grows (hrefused z hz.toAccepted)
  · rw [hrun] at he hf ⊢
    exact hm.fills ha h h' hz he hf

/-! ## Statements -/

theorem tracked_guarded_of {node : NodeId} {condition : Expr} {body : List Stmt} {span : Span}
    (hbody : StmtsTracked body) : Tracked (guarded ⟨node, condition, body, span⟩)
      fun z N V V' => GuardedFills z N V ⟨node, condition, body, span⟩ ∧ V' = V := by
  refine (tracked_block node ((tracked_condition condition).andThen hbody)).conseq ?_
  rintro z N V V' ⟨⟨V₂, V₁, ⟨hc, rfl⟩, hb⟩, rfl⟩
  exact ⟨.mk hc hb, rfl⟩

mutual

/-- Statements are followed, wherever they may stand. -/
theorem tracked_stmt : (x : Stmt) → Tracked (stmt x) fun z N V V' => StmtFills z N V x V'
  | .declare d => tracked_declare d
  | .define d => tracked_define d
  | .assign x => tracked_assign x
  | .call c => tracked_call c
  | .branch gs otherwise _ => by
    refine ((tracked_guardedAll gs).andThen (tracked_else otherwise)).conseq ?_
    rintro z N V _ ⟨_, ⟨hgs, rfl⟩, he, rfl⟩
    exact .branch hgs he
  | .loop g => by
    refine (tracked_guarded g).conseq ?_
    rintro z N V _ ⟨h, rfl⟩
    exact .loop h
  | .routine ⟨_, _, _, _, _, body, _, _⟩ => tracked_routine (tracked_stmts body)
  | .type ⟨node, name, closing, fields, statics, routines, staticRoutines, span⟩ =>
    tracked_type (t := ⟨node, name, closing, fields, statics, routines, staticRoutines, span⟩)
      (tracked_bodies routines) (tracked_bodies staticRoutines)

theorem tracked_guarded : (g : Guarded) →
    Tracked (guarded g) fun z N V V' => GuardedFills z N V g ∧ V' = V
  | ⟨_, _, body, _⟩ => tracked_guarded_of (tracked_stmts body)

theorem tracked_else : (e : Else) →
    Tracked (elseBlock e) fun z N V V' => ElseFills z N V e ∧ V' = V
  | .absent => Tracked.idle.conseq fun _ _ _ _ h => ⟨.absent, h⟩
  | .block node body _ => (tracked_block node (tracked_stmts body)).conseq
      fun _ _ _ _ ⟨⟨_, h⟩, heq⟩ => ⟨.block h, heq⟩

theorem tracked_stmts : (xs : List Stmt) → StmtsTracked xs
  | [] => Tracked.idle.conseq fun _ _ _ _ h => h ▸ .nil
  | x :: xs => ((tracked_stmt x).andThen (tracked_stmts xs)).conseq
      fun _ _ _ _ ⟨_, h, hs⟩ => .cons h hs

theorem tracked_guardedAll : (gs : List Guarded) →
    Tracked (guardedAll gs) fun z N V V' => (∀ g ∈ gs, GuardedFills z N V g) ∧ V' = V
  | [] => Tracked.idle.conseq fun _ _ _ _ h => ⟨List.forall_mem_nil _, h⟩
  | g :: gs => ((tracked_guarded g).andThen (tracked_guardedAll gs)).conseq
      fun _ _ _ _ ⟨_, ⟨h, heq⟩, hs, heq'⟩ => ⟨List.forall_mem_cons.mpr ⟨h, heq ▸ hs⟩, heq'.trans heq⟩

theorem tracked_bodies : (rs : List RoutineDef) → ∀ r ∈ rs, StmtsTracked r.body
  | [], _, h => absurd h List.not_mem_nil
  | ⟨_, _, _, _, _, body, _, _⟩ :: rs, r, h => (List.mem_cons.mp h).elim
      (fun heq => heq ▸ tracked_stmts body) (tracked_bodies rs r)

end

/-! ## Whole programs -/

/-- Every value of the outermost scope has one of these names, and is found by it. -/
def OnlyDeclares (a : Analysis) (xs : List (String × TypeId)) : Prop :=
  ∀ b ∈ (a.scopes.get Scopes.rootId).entries, (∃ x ∈ xs, b.name = x.1) ∧
    (a.scopes.get Scopes.rootId).binding? b.name = some b

theorem onlyDeclares_declareRoutines {xs all : List (String × TypeId)} (hxs : xs ⊆ all)
    {a : Analysis} (ha : a.scopes.Has Scopes.rootId) (h : a.OnlyDeclares all) :
    ((declareRoutines xs).run a).2.OnlyDeclares all := by
  induction xs generalizing a with
  | nil => exact h
  | cons x xs ih =>
    obtain ⟨name, type⟩ := x
    rw [List.cons_subset] at hxs
    have hrun : ((declareRoutines ((name, type) :: xs)).run a).2 = ((declareRoutines xs).run
        ((declare Scopes.rootId { name, type, role := .routine } .unknown).run a).2).2 := rfl
    rw [hrun, run_declare]
    cases hd : a.scopes.declare Scopes.rootId { name, type, role := .routine } .unknown with
    | error e => exact ih hxs.2 ha h
    | ok result =>
      obtain ⟨b, scopes⟩ := result
      have hdeclared := Scopes.declared_of_declare hd
      have hname : b.name = name := by
        rw [hdeclared.binding_eq]
      refine ih hxs.2 (hdeclared.extends.has ha) fun b' hb' => ?_
      rw [hdeclared.entries ha, List.mem_append, List.mem_singleton] at hb'
      show _ ∧ List.find? _ (scopes.get Scopes.rootId).entries = _
      rw [hdeclared.entries ha, List.find?_append]
      rcases hb' with hb' | rfl
      · obtain ⟨hx, hfind⟩ := h b' hb'
        rw [show List.find? _ (a.scopes.get Scopes.rootId).entries = some b' from hfind]
        exact ⟨hx, rfl⟩
      · refine ⟨⟨_, hxs.1, hname⟩, ?_⟩
        rw [show List.find? _ (a.scopes.get Scopes.rootId).entries = none from
          hname ▸ hdeclared.fresh_value]
        simp

theorem keepsEntries_declareTypes : (xs : List (String × TypeId)) → KeepsEntries (declareTypes xs)
  | [] => .quiet (.pure _)
  | (name, type) :: xs => by
    have hfirst : KeepsEntries (discard (declareType Scopes.rootId name type .unknown)) :=
      fun a s => keepsEntries_declareType Scopes.rootId name type .unknown a s
    rw [declareTypes]
    exact hfirst.bind fun _ => keepsEntries_declareTypes xs

/-- A program starts with the predefined routines, and nothing else. -/
theorem onlyDeclares_initial (program : String) :
    (initial program).OnlyDeclares Predefined.routines := by
  have hplace : (Place.body Scopes.rootId).At (blank program) :=
    ⟨sound_blank program, rfl, Nat.one_pos, rfl⟩
  have hs := (decides_declareTypes Predefined.namedTypes (blank program) hplace).1
  have hrun : ∀ (m n : Analyze Unit) (a : Analysis),
      ((do m; n).run a).2 = (n.run (m.run a).2).2 := fun _ _ _ => rfl
  rw [initial, predefine, hrun]
  refine onlyDeclares_declareRoutines (List.Subset.refl _) (hs.grows.scopes.has Nat.one_pos) ?_
  intro b hb
  rw [keepsEntries_declareTypes] at hb
  exact absurd hb List.not_mem_nil

theorem ready_initial (program : String) : Ready (initial program) where
  sound := sound_initial program
  laid := (steps_initial program).laid (sound_blank program) (Scopes.laid_root _ _)
  body := by
    have hs := steps_initial program
    have hcur : (initial program).current = Scopes.rootId := hs.current_eq
    rw [hcur, hs.grows.scopes.kind_eq (s := Scopes.rootId) Nat.one_pos]
    rfl

theorem final_analyze (program : String) {q : Program} (hq : q.nodes.Nodup)
    (h : (analyze program q).errors = []) : Final (analyze program q) where
  toAccepted := accepted_analyze program hq h
  finished := finished_analyze program hq
  laid := (outcome_analyze program q).walk.laid (sound_initial program) (ready_initial program).laid

/-- The statements of an accepted program read only what is filled. -/
theorem fills_analyze (program : String) {q : Program} (hq : q.nodes.Nodup)
    (h : (analyze program q).errors = []) : ∃ V,
      StmtsFills (analyze program q) ((analyze program q).scopes.get Scopes.rootId).numLocals
        ((initial program).scopes.filled Scopes.rootId) q.stmts V := by
  have hz := final_analyze program hq h
  have hcur : (initial program).current = Scopes.rootId := (steps_initial program).current_eq
  have hfills := (tracked_stmts q.stmts).holds (ready_initial program) hz (.refl _)
  have howner : (analyze program q).scopes.owningMethod Scopes.rootId = Scopes.rootId :=
    Scopes.owningMethod_of_owns (by rw [hz.sound.scopes.root_kind]; rfl)
  rw [hcur, Scopes.numLocals, howner] at hfills
  exact ⟨_, hfills⟩

end Unnest.Analysis
