import Unnest.Proofs.Analysis.Frames

/-!
# The states that a walk passes through

What a walk comes to says nothing about the states inside of it, and names are looked up
there.  A walk passes through a state when it leads there without coming back from every
scope that it entered (`Passes`).

A scope is entered once.  A block or a type is opened right before, and a routine of a type
waits while the members in front of it are analysed.  Until it is entered, a scope is
*untouched*: it holds the parameters that it was opened with, and nothing else
(`Steps.untouched`, `Walk.untouched`).  Only the static initial values of a type are entered
again and again.
-/

namespace Unnest

namespace Scopes

variable {t t' : Scopes} {s p x : ScopeId}

/-- The walk has not been in a scope yet. -/
structure Untouched (t : Scopes) (s : ScopeId) : Prop where
  params : ∀ b ∈ (t.get s).entries, b.role = .param
  types : (t.get s).types = []
  captures : (t.get s).captures = []

theorem Untouched.congr (h : Untouched t x) (hnames : SameNames (t.get x) (t'.get x))
    (hcaptures : (t'.get x).captures = (t.get x).captures) : Untouched t' x :=
  ⟨hnames.entries.symm ▸ h.params, hnames.types.trans h.types, hcaptures.trans h.captures⟩

/-- A scope without contents. -/
theorem untouched_of_empty (hentries : (t.get s).entries = []) (htypes : (t.get s).types = [])
    (hcaptures : (t.get s).captures = []) : Untouched t s :=
  ⟨fun _ hb => absurd (hentries ▸ hb) List.not_mem_nil, htypes, hcaptures⟩

theorem untouched_of_not_has (h : ¬ t.Has s) : Untouched t s := by
  refine untouched_of_empty ?_ ?_ ?_ <;> rw [get_of_not_has h] <;> rfl

/-- A change touches the scopes around it only. -/
theorem Step.untouched (hw : Sound t) (h : Step t s t') (hx : x ∉ t.path s)
    (hu : Untouched t x) : Untouched t' x := by
  have hne : s ≠ x := by
    rintro rfl
    exact hx (mem_path_self t s)
  cases h with
  | capture h =>
    exact hu.congr (sameNames_capture t s _ _ x) (hw.captures_capture_of_not_mem (hw.uses h) hx)
  | declare _ _ _ h =>
    have hd := (declared_of_declare h).agrees x hne
    exact hu.congr hd.names hd.captures
  | @param d b b' span _ _ parent _ _ role h =>
    have hd := declared_of_declare h
    by_cases heq : d = x
    · subst heq
      refine ⟨fun e he => ?_, hd.types.trans hu.types, hd.captures.trans hu.captures⟩
      rw [hd.entries (has_of_parent parent)] at he
      rcases List.mem_append.mp he with he | he
      · exact hu.params e he
      · rw [List.mem_singleton.mp he, hd.binding_eq]
        exact role
    · exact hu.congr (hd.agrees x heq).names (hd.agrees x heq).captures
  | declareType _ _ _ h =>
    have hd := (typeDeclared_of_declareType h).agrees x hne
    exact hu.congr hd.names hd.captures
  | nextBlockName =>
    have hd := agrees_nextBlockName t s x
    exact hu.congr hd.names hd.captures
  | @openMember kind memberOf isStatic _ name _ unit =>
    by_cases hold : t.Has x
    · have hd := agrees_openMember_old t s kind name unit memberOf isStatic hold
      exact hu.congr hd.names hd.captures
    · by_cases hnew : (t.openMember s kind name unit memberOf isStatic).Has x
      · obtain rfl := eq_of_has_openMember hnew hold
        have hd := agrees_openMember_new t s kind name unit memberOf isStatic
        exact untouched_of_empty hd.entries hd.types hd.captures
      · exact untouched_of_not_has hnew

/-- Nothing is inside the scope of static initial values. -/
theorem Sound.kind_of_parent (h : Sound t) (hp : t.parent s = some p) :
    (t.get p).kind ≠ .fieldInit := by
  intro hk
  obtain ⟨-, hroot⟩ | ⟨p', hp', hopen⟩ := h.placed s (has_of_parent hp)
  · exact absurd (hp.symm.trans hroot) (by simp)
  · obtain rfl := Option.some.inj (hp.symm.trans hp')
    unfold MayOpen at hopen
    rw [hk] at hopen
    split at hopen <;> simp [ScopeKind.isBody] at hopen

/-- A scope has captured no instance member of the scope around it. -/
def CapturesNoMember (t : Scopes) (s : ScopeId) : Prop :=
  ∀ p, t.parent s = some p → ∀ n b, (t.get p).binding? n = some b → b.role = .field →
    (t.get s).capture? n = none

theorem capturesNoMember_of_empty (h : (t.get s).captures = []) : CapturesNoMember t s :=
  fun p _ n b _ _ => by rw [Scope.capture?, h, List.find?_nil]

/-- Static members make no difference. -/
theorem CapturesNoMember.congr (h : CapturesNoMember t s) (hp : t.parent s = some p)
    (hparent : t'.parent s = some p) (hcaptures : (t'.get s).captures = (t.get s).captures)
    {bs : List Binding} (hentries : (t'.get p).entries = (t.get p).entries ++ bs)
    (hbs : ∀ b ∈ bs, b.role ≠ .field) : CapturesNoMember t' s := by
  intro p' hp' n b hb hrole
  obtain rfl := Option.some.inj (hparent.symm.trans hp')
  rw [Scope.binding?, hentries, List.find?_append, Option.or_eq_some_iff] at hb
  rcases hb with hb | ⟨-, hb⟩
  · rw [Scope.capture?, hcaptures]
    exact h p hp n b hb hrole
  · exact absurd hrole (hbs b (List.mem_of_find?_eq_some hb))

theorem Sound.binding?_fieldInit (h : Sound t) (hk : (t.get s).kind = .fieldInit) (n : String) :
    (t.get s).binding? n = none := by
  refine List.find?_eq_none.mpr fun b hb => ?_
  have hmay := (h.entries s b hb).1
  rw [MayDeclare, hk] at hmay
  exact hmay.elim

/-- A name that static initial values capture means no instance member of their type: such a
member is reached from inside an instance routine only. -/
theorem Sound.ne_name_of_uses (h : Sound t) (hk : (t.get s).kind = .fieldInit) {r : Resolved}
    (hu : Uses t s r) (hp : t.parent s = some p) {n : String} {b : Binding}
    (hb : (t.get p).binding? n = some b) (hrole : b.role = .field)
    (hn : (t.get s).capture? n = none) : r.binding.name ≠ n := by
  rintro rfl
  have hresolves := hu.resolves
  have hself : t.answer? r.binding.name s = none := by
    rw [answer?, h.binding?_fieldInit hk, hn, Option.map_none]
  have hmember : t.answer? r.binding.name p = some ⟨b, p⟩ := by rw [answer?, hb]
  rw [h.resolveValue_of_parent hp, hself, Option.none_or, resolveValue_of_answer h.toWF hmember]
    at hresolves
  obtain rfl := Option.some.inj hresolves
  obtain ⟨m, hm, hne, hpm, -⟩ := hu.outside.inside hrole
  rw [owningMethod_of_owns (by rw [hk]; rfl)] at hne
  exact hne (h.eq_of_parent_eq hm (mem_path_self t s) hpm hp)

/-- Static initial values do nothing but capture. -/
theorem Step.of_fieldInit (h : Sound t) (hk : (t.get s).kind = .fieldInit) (hstep : Step t s t') :
    (∃ n r, t.lookup s n = .found r .captured ∧ t' = t.capture s r.binding r.owner) ∨
      t' = (t.nextBlockName s).2 := by
  cases hstep with
  | capture hl => exact .inl ⟨_, _, hl, rfl⟩
  | declare _ may =>
    rw [MayDeclare, hk] at may
    exact may.elim
  | param _ parent => exact absurd hk (h.kind_of_parent parent)
  | declareType body =>
    rw [hk] at body
    exact absurd body (by decide)
  | nextBlockName => exact .inr rfl
  | @openMember kind _ _ may =>
    rw [MayOpen.eq_def, hk] at may
    cases kind <;> simp [ScopeKind.isBody] at may

theorem Step.capturesNoMember (h : Sound t) (hk : (t.get s).kind = .fieldInit)
    (hstep : Step t s t') (hs : CapturesNoMember t s) : CapturesNoMember t' s := by
  rcases hstep.of_fieldInit h hk with ⟨n', r, hl, rfl⟩ | rfl
  · have hu := h.uses hl
    have hc := h.captured s r
    intro p hp n b hb hrole
    rw [h.parent_capture s r] at hp
    rw [Scope.binding?, hc.entries] at hb
    have hnone := hs p hp n b hb hrole
    by_cases hmem : s ∈ t.captureSites s r.binding r.owner
    · have hne := h.ne_name_of_uses hk hu hp hb hrole hnone
      rw [Scope.capture?, hc.captures_new s hmem (has_of_parent hp), List.find?_append]
      rw [Scope.capture?] at hnone
      rw [hnone, Option.none_or]
      simp [Resolved.capture, Capture.name, hne]
    · rw [Scope.capture?, hc.captures_old s hmem]
      exact hnone
  · intro p hp n b hb hrole
    rw [parent, (agrees_nextBlockName t s s).head.parent] at hp
    rw [Scope.binding?, (agrees_nextBlockName t s p).entries] at hb
    rw [Scope.capture?, (agrees_nextBlockName t s s).captures]
    exact hs p hp n b hb hrole

/-- Types are declared where statements stand. -/
def TypesInBodies (t : Scopes) : Prop :=
  ∀ s, (t.get s).types ≠ [] → (t.get s).kind.isBody = true

theorem Step.typesInBodies (hw : Sound t) (hs : t.Has s) (h : Step t s t')
    (ht : TypesInBodies t) : TypesInBodies t' := by
  intro x hx
  by_cases hold : t.Has x
  · rw [h.extends.kind_eq hold]
    by_cases hsame : (t'.get x).types = (t.get x).types
    · exact ht x (hsame ▸ hx)
    · cases h with
      | declareType body _ _ h =>
        by_cases heq : s = x
        · exact heq ▸ body
        · exact absurd ((typeDeclared_of_declareType h).agrees x heq).types hsame
      | capture => exact absurd (sameNames_capture t s _ _ x).types hsame
      | declare _ _ _ h => exact absurd ((declared_of_declare h).types_eq x) hsame
      | param _ _ _ _ _ h => exact absurd ((declared_of_declare h).types_eq x) hsame
      | nextBlockName => exact absurd (agrees_nextBlockName t s x).types hsame
      | openMember may _ unit =>
        exact absurd (agrees_openMember_old t s _ _ unit _ _ hold).types hsame
  · have hnot : x ∉ t.path s := fun hmem => hold (has_of_mem_path hmem hs)
    exact absurd (h.untouched hw hnot (untouched_of_not_has hold)).types hx

end Scopes

namespace Analysis

variable {K : Multiset Key} {a b c : Analysis} {s x : ScopeId}

/-! ## Untouched scopes -/

theorem Step.untouched (ha : Sound a) (h : Step K a b) (hx : x ∉ a.scopes.path a.current)
    (hu : a.scopes.Untouched x) : b.scopes.Untouched x := by
  cases h with
  | scopes a h => exact h.untouched ha.scopes hx hu
  | _ => exact hu

/-- A scope that is opened is untouched, and so is every scope that was, as long as the walk
stays outside of it. -/
theorem Steps.untouched (ha : Sound a) (h : Steps K a b) (hx : x ∉ a.scopes.path a.current)
    (hu : a.scopes.Untouched x) : b.scopes.Untouched x := by
  induction h with
  | refl => exact hu
  | step h => exact h.untouched ha hx hu
  | trans h _ ih ih' =>
    have hb := ha.steps h
    refine ih' hb ?_ (ih ha hx hu)
    rwa [h.current_eq, h.grows.scopes.path_eq ha.scopes.toWF hb.scopes.toWF ha.has]
  | mono _ _ ih => exact ih ha hx hu

/-! ## Members that are not captured -/

/-- Where static initial values stand, they have captured no instance member of their type. -/
def NoMemberCaptured (a : Analysis) : Prop :=
  (a.scopes.get a.current).kind = .fieldInit → a.scopes.CapturesNoMember a.current

theorem Step.noMemberCaptured (ha : Sound a) (h : Step K a b) (hm : NoMemberCaptured a) :
    NoMemberCaptured b := by
  cases h with
  | scopes a h =>
    intro hk
    have hka := (h.extends.kind_eq ha.has).symm.trans hk
    exact h.capturesNoMember ha.scopes hka (hm hka)
  | _ => exact hm

theorem Steps.noMemberCaptured (ha : Sound a) (h : Steps K a b) (hm : NoMemberCaptured a) :
    NoMemberCaptured b := by
  induction h with
  | refl => exact hm
  | step h => exact h.noMemberCaptured ha hm
  | trans h _ ih ih' => exact ih' (ha.steps h) (ih ha hm)
  | mono _ _ ih => exact ih ha hm

/-- A scope that has another one inside is not that of static initial values. -/
theorem noMemberCaptured_of_parent (ha : Sound a) (hp : a.scopes.parent s = some a.current) :
    NoMemberCaptured a := fun hk => absurd hk (ha.scopes.kind_of_parent hp)

theorem Walk.noMemberCaptured_of_parent (ha : Sound a) (h : Walk K a b)
    (hp : a.scopes.parent s = some a.current) : NoMemberCaptured b := by
  refine Analysis.noMemberCaptured_of_parent (s := s) (ha.walk h) ?_
  rw [h.grows.scopes.parent_eq (Scopes.has_of_parent hp), h.current_eq]
  exact hp

theorem Walk.noMemberCaptured (ha : Sound a) (h : Walk K a b) (hm : NoMemberCaptured a) :
    NoMemberCaptured b := by
  induction h with
  | steps h => exact h.noMemberCaptured ha hm
  | trans h _ ih ih' => exact ih' (ha.walk h) (ih ha hm)
  | mono _ _ ih => exact ih ha hm
  | inside hp hk body =>
    exact (Walk.inside hp hk body).noMemberCaptured_of_parent ha hp
  | routine hp hk hempty hfound body after hsourced =>
    exact (Walk.routine hp hk hempty hfound body after hsourced).noMemberCaptured_of_parent ha hp
  | type hp hk hempty hfresh hmember hunit haddr hinner hinnerKind body after hsourced =>
    exact (Walk.type hp hk hempty hfresh hmember hunit haddr hinner hinnerKind body after
      hsourced).noMemberCaptured_of_parent ha hp

/-! ## Types in bodies -/

theorem Step.typesInBodies (ha : Sound a) (h : Step K a b) (ht : a.scopes.TypesInBodies) :
    b.scopes.TypesInBodies := by
  cases h with
  | scopes a h => exact h.typesInBodies ha.scopes ha.has ht
  | _ => exact ht

theorem Steps.typesInBodies (ha : Sound a) (h : Steps K a b) (ht : a.scopes.TypesInBodies) :
    b.scopes.TypesInBodies := by
  induction h with
  | refl => exact ht
  | step h => exact h.typesInBodies ha ht
  | trans h _ ih ih' => exact ih' (ha.steps h) (ih ha ht)
  | mono _ _ ih => exact ih ha ht

theorem Walk.typesInBodies (ha : Sound a) (h : Walk K a b) (ht : a.scopes.TypesInBodies) :
    b.scopes.TypesInBodies := by
  induction h with
  | steps h => exact h.typesInBodies ha ht
  | trans h _ ih ih' => exact ih' (ha.walk h) (ih ha ht)
  | mono _ _ ih => exact ih ha ht
  | inside hp hk h ih => exact ih (ha.enter hp (hk.imp_right And.right)) ht
  | routine hp _ hempty _ body after _ ih =>
    have hs := ha.enter hp (Or.inr hempty)
    have hc := after.typesInBodies ((hs.walk body).back hp body) (ih hs ht)
    exact hc
  | type hp _ hempty _ _ _ _ _ _ body after _ ih =>
    have hs := ha.enter hp (Or.inr hempty)
    have hc := after.typesInBodies ((hs.walk body).back hp body) (ih hs ht)
    exact hc

/-! ## Passing through states -/

/-- A scope inside the current one that the walk can enter. -/
structure Enterable (a : Analysis) (s : ScopeId) : Prop where
  parent : a.scopes.parent s = some a.current
  open_eq : (a.scopes.get s).kind = .fieldInit ∧ a.scopes.CapturesNoMember s ∨
    a.scopes.Untouched s

theorem Enterable.sound (h : Enterable a s) (ha : Sound a) : Sound { a with current := s } :=
  ha.enter h.parent (h.open_eq.imp And.left (·.captures))

theorem Enterable.noMemberCaptured (h : Enterable a s) : NoMemberCaptured { a with current := s } := by
  intro _
  rcases h.open_eq with ⟨-, hm⟩ | hu
  · exact hm
  · exact Scopes.capturesNoMember_of_empty hu.captures

/-- A walk that starts in `a` passes through a state. -/
inductive Passes (a : Analysis) : Analysis → Prop
  | refl : Passes a a
  | walk {K : Multiset Key} {b c : Analysis} (h : Passes a b) (h' : Walk K b c) : Passes a c
  | enter {b : Analysis} {s : ScopeId} (h : Passes a b) (hs : Enterable b s) :
      Passes a { b with current := s }
  /-- Back from a scope inside, before anything is made of what it captured. -/
  | back {K : Multiset Key} {b c : Analysis} {s : ScopeId} (h : Passes a b) (hs : Enterable b s)
      (body : Walk K { b with current := s } c) : Passes a { c with current := b.current }

namespace Passes

theorem trans (h : Passes a b) (h' : Passes b c) : Passes a c := by
  induction h' with
  | refl => exact h
  | walk _ h' ih => exact ih.walk h'
  | enter _ hs ih => exact ih.enter hs
  | back _ hs body ih => exact ih.back hs body

theorem steps (h : Steps K a b) : Passes a b := refl.walk (.steps h)

theorem sound (ha : Sound a) (h : Passes a b) : Sound b := by
  induction h with
  | refl => exact ha
  | walk _ h' ih => exact ih.walk h'
  | enter _ hs ih => exact hs.sound ih
  | back _ hs body ih => exact ((hs.sound ih).walk body).back hs.parent body

theorem typesInBodies (ha : Sound a) (ht : a.scopes.TypesInBodies) (h : Passes a b) :
    b.scopes.TypesInBodies := by
  induction h with
  | refl => exact ht
  | walk h h' ih => exact h'.typesInBodies (h.sound ha) ih
  | enter _ _ ih => exact ih
  | back h hs body ih =>
    have hc := body.typesInBodies (hs.sound (h.sound ha)) ih
    exact hc

theorem noMemberCaptured (ha : Sound a) (hm : NoMemberCaptured a) (h : Passes a b) :
    NoMemberCaptured b := by
  induction h with
  | refl => exact hm
  | walk h h' ih => exact h'.noMemberCaptured (h.sound ha) ih
  | enter _ hs _ => exact hs.noMemberCaptured
  | @back K b c s h hs body _ =>
    have hb := h.sound ha
    refine noMemberCaptured_of_parent (s := s) (((hs.sound hb).walk body).back hs.parent body) ?_
    exact (body.grows.scopes.parent_eq (Scopes.has_of_parent hs.parent)).trans hs.parent

end Passes

end Analysis

end Unnest
