import Unnest.Proofs.Analysis.Walk

/-!
# What every walk keeps

Every table grows (`Walk.grows`), scopes and types stay sound, and what the open
definitions captured stays linked (`Walk.sound`).  A walk records captures on the scopes
around it and on those it enters, and leaves the captures of all others alone
(`Walk.captures_eq`).

Each fact is proved of the single changes and then carried along walks.
-/

namespace Unnest

namespace Scopes

variable {t t' : Scopes} {s d x : ScopeId} {n : String}

theorem answer?_of_agrees (h : Agrees (t.get x) (t'.get x)) : t'.answer? n x = t.answer? n x := by
  rw [answer?, Scope.binding?, Scope.capture?, h.entries, h.captures, answer?, Scope.binding?,
    Scope.capture?]

theorem findSome?_congr {α β : Type} {f g : α → Option β} {xs : List α}
    (h : ∀ x ∈ xs, f x = g x) : xs.findSome? f = xs.findSome? g := by
  induction xs with
  | nil => rfl
  | cons x xs ih =>
    rw [List.findSome?_cons, List.findSome?_cons, h x List.mem_cons_self,
      ih fun y hy => h y (List.mem_cons_of_mem _ hy)]

theorem resolveValue_congr (hpath : t'.path s = t.path s)
    (h : ∀ x ∈ t.path s, t'.answer? n x = t.answer? n x) :
    t'.resolveValue s n = t.resolveValue s n := by
  rw [resolveValue, resolveValue, hpath]
  exact findSome?_congr h

/-- Declaring in a scope changes nothing for the scopes around it. -/
theorem Linked.of_agrees (hl : Linked t d) (hx : Extends t t') (hw : t.WF) (hw' : t'.WF)
    (hd : t.Has d) (hcaptures : (t'.get d).captures = (t.get d).captures)
    (h : ∀ x ∈ t.path d, x ≠ d → Agrees (t.get x) (t'.get x)) : Linked t' d := by
  intro x hxd hkind p hp c hc
  rw [hx.path_eq hw hw' hd] at hxd
  have hxh := has_of_mem_path hxd hd
  rw [hx.kind_eq hxh] at hkind
  rw [hx.parent_eq hxh] at hp
  have hcx : (t'.get x).captures = (t.get x).captures := by
    by_cases heq : x = d
    · rw [heq, hcaptures]
    · exact (h x hxd heq).captures
  rw [hcx] at hc
  rw [resolveValue_congr (hx.path_eq hw hw' (hw.has_parent hp)) fun y hy => ?_]
  · exact hl x hxd hkind p hp c hc
  · have hyx := hw.mem_path_of_parent hp hy
    refine answer?_of_agrees (h y (hw.mem_path_trans hyx hxd) ?_)
    rintro rfl
    exact hw.ne_of_mem_path_parent hp hy (mem_path_antisymm hyx hxd)

theorem Linked.of_parent (hw : t.WF) {p : ScopeId} (hp : t.parent s = some p) (hl : Linked t s) :
    Linked t p :=
  fun x hx => hl x (hw.mem_path_of_parent hp hx)

/-- A scope that has captured nothing is linked if the one around it is. -/
theorem Linked.of_empty (hw : t.WF) {p : ScopeId} (hp : t.parent s = some p) (hl : Linked t p)
    (hs : (t.get s).kind = .fieldInit ∨ (t.get s).captures = []) : Linked t s := by
  intro x hx hkind q hq c hc
  rw [hw.path_of_parent hp] at hx
  rcases List.mem_cons.mp hx with rfl | hx
  · rcases hs with hs | hs
    · exact absurd hs hkind
    · rw [hs] at hc
      exact absurd hc List.not_mem_nil
  · exact hl x hx hkind q hq c hc

/-! ## Single changes -/

theorem extends_capture (t : Scopes) (s : ScopeId) (b : Binding) (owner : ScopeId) :
    Extends t (t.capture s b owner) := by
  rw [capture]
  generalize t.captureSites s b owner = ds
  induction ds generalizing t with
  | nil => exact Extends.refl t
  | cons d ds ih =>
    have hd := captured_foldl ⟨b, owner⟩ (List.nodup_singleton d) t
    exact hd.extends.trans (ih (pushCapture ⟨b, owner⟩ t d))

theorem Step.extends (h : Step t s t') : Extends t t' := by
  cases h with
  | capture h => exact extends_capture t s _ _
  | declare _ _ _ h => exact (declared_of_declare h).extends
  | param _ _ _ _ _ h => exact (declared_of_declare h).extends
  | declareType _ _ _ h => exact (typeDeclared_of_declareType h).extends
  | nextBlockName =>
    exact extends_of_agrees (by rw [size_nextBlockName]) fun j _ => agrees_nextBlockName t s j
  | openMember may _ unit => exact extends_openMember t s _ _ unit _ _

theorem Step.wf (h : Step t s t') (hw : t.WF) (hs : t.Has s) : t'.WF := by
  refine h.extends.wf hw fun x p hp hx => ?_
  have hxh := has_of_parent hp
  cases h with
  | capture h =>
    rw [Has, Scopes.capture, size_foldl_pushCapture] at hxh
    exact absurd hxh hx
  | declare _ _ _ h =>
    rw [Has, (declared_of_declare h).size_eq] at hxh
    exact absurd hxh hx
  | param _ _ _ _ _ h =>
    rw [Has, (declared_of_declare h).size_eq] at hxh
    exact absurd hxh hx
  | declareType _ _ _ h =>
    rw [Has, (typeDeclared_of_declareType h).size_eq] at hxh
    exact absurd hxh hx
  | nextBlockName =>
    rw [Has, size_nextBlockName] at hxh
    exact absurd hxh hx
  | @openMember kind memberOf isStatic may name _ unit =>
    obtain rfl := eq_of_has_openMember hxh hx
    have hnew := agrees_openMember_new t s kind name unit memberOf isStatic
    have hparent := hnew.head.parent
    rw [parent, hparent] at hp
    obtain rfl := Option.some.inj hp
    exact hs

/-- Every change keeps scopes sound. -/
theorem Sound.step (hw : Sound t) (hs : t.Has s) (h : Step t s t') : Sound t' := by
  have hwf := h.wf hw.toWF hs
  have hx := h.extends
  cases h with
  | capture h => exact hw.capture (hw.uses h) hs
  | @declare b b' span _ slot may _ h =>
    have hd := declared_of_declare h
    refine hw.extend hx hwf ?_ ?_ ?_
    · intro x hxh hnot
      rw [Has, hd.size_eq] at hxh
      exact absurd hxh hnot
    · intro x b₁ hb
      refine (hd.mem_entries hs hb).imp_right ?_
      rintro ⟨rfl, rfl⟩
      rw [hd.binding_eq, slot]
      exact ⟨mayDeclare_congr hd.head may, by cases b.role.usesSlot <;> rfl⟩
    · exact fun x c hc => Or.inl (hd.captures_eq x ▸ hc)
  | @param d b b' span _ newest parent kind slot role h =>
    have hd := declared_of_declare h
    refine hw.extend hx hwf ?_ ?_ ?_
    · intro x hxh hnot
      rw [Has, hd.size_eq] at hxh
      exact absurd hxh hnot
    · intro x b₁ hb
      refine (hd.mem_entries (has_of_parent parent) hb).imp_right ?_
      rintro ⟨rfl, rfl⟩
      have hmay : MayDeclare (t.get d) b := by
        rw [MayDeclare, kind]
        dsimp only
        rw [role]
        rfl
      rw [hd.binding_eq, slot]
      exact ⟨mayDeclare_congr hd.head hmay, by rw [role]; rfl⟩
    · exact fun x c hc => Or.inl (hd.captures_eq x ▸ hc)
  | declareType body _ _ h =>
    have hd := typeDeclared_of_declareType h
    refine hw.extend hx hwf ?_ ?_ ?_
    · intro x hxh hnot
      rw [Has, hd.size_eq] at hxh
      exact absurd hxh hnot
    · exact fun x b hb => Or.inl (hd.entries_eq x ▸ hb)
    · exact fun x c hc => Or.inl (hd.captures_eq x ▸ hc)
  | nextBlockName =>
    refine hw.extend hx hwf ?_ ?_ ?_
    · intro x hxh hnot
      rw [Has, size_nextBlockName] at hxh
      exact absurd hxh hnot
    · intro x b hb
      rw [(agrees_nextBlockName t s x).entries] at hb
      exact Or.inl hb
    · intro x c hc
      rw [(agrees_nextBlockName t s x).captures] at hc
      exact Or.inl hc
  | @openMember kind memberOf isStatic may name _ unit =>
    have hnew := agrees_openMember_new t s kind name unit memberOf isStatic
    refine hw.extend hx hwf ?_ ?_ ?_
    · intro x hxh hnot
      obtain rfl := eq_of_has_openMember hxh hnot
      refine ⟨s, hnew.head.parent, ?_⟩
      rw [hnew.head.kind, hnew.head.memberOf, hnew.head.isStatic]
      exact mayOpen_congr (hx.head s hs) may
    · intro x b hb
      by_cases hxh : t.Has x
      · rw [(agrees_openMember_old t s kind name unit memberOf isStatic hxh).entries] at hb
        exact Or.inl hb
      · obtain rfl := eq_of_has_openMember (has_of_mem_entries hb) hxh
        rw [hnew.entries] at hb
        exact absurd hb List.not_mem_nil
    · intro x c hc
      by_cases hxh : t.Has x
      · rw [(agrees_openMember_old t s kind name unit memberOf isStatic hxh).captures] at hc
        exact Or.inl hc
      · obtain rfl := eq_of_has_openMember (has_of_mem_captures hc) hxh
        rw [hnew.captures] at hc
        exact absurd hc List.not_mem_nil

/-- Every change keeps what the definitions around it captured linked. -/
theorem Linked.step (hl : Linked t s) (hw : Sound t) (hs : t.Has s) (h : Step t s t') :
    Linked t' s := by
  have hwf := h.wf hw.toWF hs
  have hx := h.extends
  cases h with
  | capture h => exact hl.capture hw (hw.uses h) hs hs
  | declare _ _ _ h =>
    have hd := declared_of_declare h
    exact hl.of_agrees hx hw.toWF hwf hs hd.captures fun x _ hne => hd.agrees x (Ne.symm hne)
  | @param d b b' span _ newest parent kind slot role h =>
    have hd := declared_of_declare h
    have hne : ∀ x ∈ t.path s, d ≠ x := by
      rintro x hxs rfl
      have h₁ := index_le_of_mem_path hxs
      have h₂ := hw.parent_lt _ _ parent
      omega
    exact hl.of_agrees hx hw.toWF hwf hs (hd.agrees s (hne s (mem_path_self t s))).captures
      fun x hxs _ => hd.agrees x (hne x hxs)
  | declareType _ _ _ h =>
    have hd := typeDeclared_of_declareType h
    exact hl.of_agrees hx hw.toWF hwf hs hd.captures fun x _ hne => hd.agrees x (Ne.symm hne)
  | nextBlockName =>
    exact hl.of_agrees hx hw.toWF hwf hs (agrees_nextBlockName t s s).captures
      fun x _ _ => agrees_nextBlockName t s x
  | openMember may _ unit =>
    exact hl.of_agrees hx hw.toWF hwf hs (agrees_openMember_old t s _ _ unit _ _ hs).captures
      fun x hxs _ => agrees_openMember_old t s _ _ unit _ _ (has_of_mem_path hxs hs)

/-- Every change keeps the names of scopes apart. -/
theorem Siblings.step (h : Siblings t) (hw : t.WF) (hs : t.Has s) (hstep : Step t s t') :
    Siblings t' := by
  have hx := hstep.extends
  cases hstep with
  | capture h' =>
    exact h.same hw hx (size_foldl_pushCapture _ _ _)
      (fun x => h.entries_once x (Or.inl
        (get_capture_congr Scope.entries (fun _ _ => rfl) t s _ _ x)))
      fun j _ => (blockCount_capture t s _ _ j).ge
  | declare _ _ _ h' =>
    have hd := declared_of_declare h'
    exact h.same hw hx hd.size_eq (hd.entries_once h) fun j _ => (blockCount_declare h' j).ge
  | param _ _ _ _ _ h' =>
    have hd := declared_of_declare h'
    exact h.same hw hx hd.size_eq (hd.entries_once h) fun j _ => (blockCount_declare h' j).ge
  | declareType _ _ _ h' =>
    have hd := typeDeclared_of_declareType h'
    exact h.same hw hx hd.size_eq (fun x => h.entries_once x (Or.inl (hd.entries_eq x)))
      fun j _ => (blockCount_declareType h' j).ge
  | nextBlockName =>
    refine h.same hw hx (size_nextBlockName t s)
      (fun x => h.entries_once x (Or.inl (agrees_nextBlockName t s x).entries)) fun j _ => ?_
    rw [blockCount_nextBlockName hs]
    exact Nat.le_add_right _ _
  | @openMember kind memberOf isStatic may name fits unit =>
    refine h.extend hw hx (fun x => h.entries_once x ?_) (fun j hj =>
      (blockCount_openMember t s kind unit memberOf isStatic hj).ge) fun c hc hnot => ?_
    · by_cases hold : t.Has x
      · exact Or.inl (agrees_openMember_old t s kind name unit memberOf isStatic hold).entries
      · by_cases hnew : (t.openMember s kind name unit memberOf isStatic).Has x
        · obtain rfl := eq_of_has_openMember hnew hold
          exact Or.inr (agrees_openMember_new t s kind name unit memberOf isStatic).entries
        · rw [get_of_not_has hnew]
          exact Or.inr rfl
    · obtain rfl := eq_of_has_openMember hc hnot
      have hnew := (agrees_openMember_new t s kind name unit memberOf isStatic).head
      refine ⟨rfl, s, hnew.parent, hs, ?_⟩
      rw [hnew.kind, hnew.name]
      exact fits

/-- A change records captures on the scopes around it only. -/
theorem Step.captures_eq (hw : Sound t) (h : Step t s t') (hx : t.Has x) (hxs : x ∉ t.path s) :
    (t'.get x).captures = (t.get x).captures := by
  cases h with
  | capture h => exact hw.captures_capture_of_not_mem (hw.uses h) hxs
  | declare _ _ _ h => exact (declared_of_declare h).captures_eq x
  | param _ _ _ _ _ h => exact (declared_of_declare h).captures_eq x
  | declareType _ _ _ h => exact (typeDeclared_of_declareType h).captures_eq x
  | nextBlockName => exact (agrees_nextBlockName t s x).captures
  | openMember may _ unit => exact (agrees_openMember_old t s _ _ unit _ _ hx).captures

end Scopes

/-! ## Growth -/

/-- What is found out stays found out.  Only the captures of a routine come later. -/
structure Findings.Grows (f g : Findings) : Prop where
  exprTypes : f.exprTypes ⊆ g.exprTypes
  operators : f.operators ⊆ g.operators
  links : f.links ⊆ g.links
  chains : f.chains ⊆ g.chains
  blocks : f.blocks ⊆ g.blocks
  decls : f.decls ⊆ g.decls
  assigns : f.assigns ⊆ g.assigns
  routines : ∀ e ∈ f.routines, ∃ sources, (e.1, { e.2 with captures := sources }) ∈ g.routines
  types : f.types ⊆ g.types

namespace Findings

theorem Grows.refl (f : Findings) : Grows f f :=
  ⟨fun _ h => h, fun _ h => h, fun _ h => h, fun _ h => h, fun _ h => h, fun _ h => h,
    fun _ h => h, fun e h => ⟨e.2.captures, h⟩, fun _ h => h⟩

theorem Grows.trans {f g h : Findings} (hfg : Grows f g) (hgh : Grows g h) : Grows f h where
  exprTypes := List.Subset.trans hfg.exprTypes hgh.exprTypes
  operators := List.Subset.trans hfg.operators hgh.operators
  links := List.Subset.trans hfg.links hgh.links
  chains := List.Subset.trans hfg.chains hgh.chains
  blocks := List.Subset.trans hfg.blocks hgh.blocks
  decls := List.Subset.trans hfg.decls hgh.decls
  assigns := List.Subset.trans hfg.assigns hgh.assigns
  routines e he := by
    obtain ⟨sources, h₁⟩ := hfg.routines e he
    obtain ⟨sources', h₂⟩ := hgh.routines _ h₁
    exact ⟨sources', h₂⟩
  types := List.Subset.trans hfg.types hgh.types

theorem grows_complete (f : Findings) (node : NodeId) (sources : List CaptureSource) :
    Grows f (f.complete node sources) := by
  refine ⟨fun _ h => h, fun _ h => h, fun _ h => h, fun _ h => h, fun _ h => h, fun _ h => h,
    fun _ h => h, fun e he => ?_, fun _ h => h⟩
  by_cases hn : e.1 = node
  · refine ⟨sources, List.mem_map.mpr ⟨e, he, ?_⟩⟩
    rw [if_pos hn]
  · refine ⟨e.2.captures, List.mem_map.mpr ⟨e, he, ?_⟩⟩
    rw [if_neg hn]

theorem mem_routines_complete {f : Findings} {node : NodeId} {sources : List CaptureSource}
    {e : NodeId × RoutineFinding} (he : e ∈ (f.complete node sources).routines) :
    ∃ e₀ ∈ f.routines, e.1 = e₀.1 ∧ e.2 = { e₀.2 with captures := e.2.captures } ∧
      (e₀.1 = node ∧ e.2.captures = sources ∨ e₀.1 ≠ node ∧ e = e₀) := by
  obtain ⟨e₀, he₀, rfl⟩ := List.mem_map.mp he
  refine ⟨e₀, he₀, ?_⟩
  by_cases hn : e₀.1 = node
  · simp [hn]
  · simp [hn]

end Findings

namespace Analysis

/-- One state of an analysis comes after another. -/
structure Grows (a b : Analysis) : Prop where
  scopes : a.scopes.Extends b.scopes
  types : a.types.Extends b.types
  addressed : ∀ id p, a.types.Addressed id p → b.types.Addressed id p
  units : a.units.Extends b.units
  errors : a.errors <+: b.errors
  findings : a.findings.Grows b.findings
  keys : a.findings.keys ≤ b.findings.keys

variable {K L : Multiset Key} {a b c : Analysis}

theorem Grows.refl (a : Analysis) : Grows a a :=
  ⟨.refl _, .refl _, fun _ _ h => h, .refl _, List.prefix_refl _, .refl _, le_refl _⟩

theorem Grows.trans (h : Grows a b) (h' : Grows b c) : Grows a c :=
  ⟨h.scopes.trans h'.scopes, h.types.trans h'.types, fun id p hp => h'.addressed id p (h.addressed id p hp),
    h.units.trans h'.units, h.errors.trans h'.errors, h.findings.trans h'.findings,
    h.keys.trans h'.keys⟩

theorem Records.grows {k : Key} {f : Findings} (h : Records a k f) : a.findings.Grows f := by
  have hr := Findings.Grows.refl a.findings
  cases h with
  | exprType => exact { hr with exprTypes := List.subset_cons_self _ _ }
  | operator => exact { hr with operators := List.subset_cons_self _ _ }
  | link => exact { hr with links := List.subset_cons_self _ _ }
  | chain => exact { hr with chains := List.subset_cons_self _ _ }
  | block => exact { hr with blocks := List.subset_cons_self _ _ }
  | decl => exact { hr with decls := List.subset_cons_self _ _ }
  | assign => exact { hr with assigns := List.subset_cons_self _ _ }
  | routine =>
    exact { hr with routines := fun e he => ⟨e.2.captures, List.mem_cons_of_mem _ he⟩ }

theorem Step.grows (h : Step K a b) : Grows a b := by
  have hr := Grows.refl a
  cases h with
  | report a e => exact { hr with errors := List.prefix_append _ _ }
  | types a h => exact { hr with types := h.extends, addressed := fun _ _ hp => hp.step h }
  | plan => exact { hr with units := Units.extends_plan _ _ _ _ _ }
  | scopes a h => exact { hr with scopes := h.extends }
  | record a h =>
    exact { hr with findings := h.grows, keys := h.keys_eq ▸ Multiset.le_add_left _ _ }

theorem Steps.grows (h : Steps K a b) : Grows a b := by
  induction h with
  | refl a => exact .refl a
  | step h => exact h.grows
  | trans _ _ ih ih' => exact ih.trans ih'
  | mono _ _ ih => exact ih

theorem grows_complete (a : Analysis) (node : NodeId) (sources : List CaptureSource) :
    Grows a { a with findings := a.findings.complete node sources } :=
  { Grows.refl a with
    findings := Findings.grows_complete _ _ _
    keys := le_of_eq (keys_complete _ _ _).symm }

theorem grows_writeType (a : Analysis) (node : NodeId) (f : TypeFinding) :
    Grows a { a with findings := { a.findings with types := a.findings.types.write node f } } := by
  have hr := Findings.Grows.refl a.findings
  refine { Grows.refl a with findings := { hr with types := List.subset_cons_self _ _ }, keys := ?_ }
  rw [keys_write_types]
  exact Multiset.le_add_left _ _

/-- The walk is somewhere else in the same tables. -/
theorem Grows.at (h : Grows a b) (s : ScopeId) : Grows a { b with current := s } :=
  ⟨h.scopes, h.types, h.addressed, h.units, h.errors, h.findings, h.keys⟩

theorem Grows.of_at {s : ScopeId} (h : Grows { a with current := s } b) : Grows a b :=
  ⟨h.scopes, h.types, h.addressed, h.units, h.errors, h.findings, h.keys⟩

/-- The tables grow along a walk. -/
theorem Walk.grows (h : Walk K a b) : Grows a b := by
  induction h with
  | steps h => exact h.grows
  | trans _ _ ih ih' => exact ih.trans ih'
  | mono _ _ ih => exact ih
  | inside _ _ _ ih => exact ih.of_at.at _
  | routine _ _ _ _ _ after _ ih =>
    exact (ih.of_at.trans after.grows.of_at).trans (grows_complete _ _ _)
  | type _ _ _ _ _ _ _ _ _ _ after _ ih =>
    exact (ih.of_at.trans after.grows.of_at).trans (grows_writeType _ _ _)

/-! ## Soundness -/

/-- A finding about a routine agrees with the scopes. -/
structure RoutineSound (t : Scopes) (f : RoutineFinding) : Prop where
  kind : (t.get f.scope).kind = .routine
  memberOf : (t.get f.scope).memberOf = f.memberOf
  isStatic : (t.get f.scope).isStatic = f.isStatic
  unit : (t.get f.scope).unit = f.unit
  binding : ∃ p, t.parent f.scope = some p ∧ f.binding ∈ (t.get p).entries
  named : (t.get f.scope).name = f.binding.name

/-- A finding about a type agrees with the scopes. -/
structure TypeSound (t : Scopes) (f : TypeFinding) : Prop where
  kind : (t.get f.scope).kind = .type
  memberOf : (t.get f.scope).memberOf = some f.type
  unit : (t.get f.scope).unit = f.unit
  inner : t.parent f.fieldInit = some f.scope
  innerKind : (t.get f.fieldInit).kind = .fieldInit
  parent : ∃ p, t.parent f.scope = some p

theorem RoutineSound.has {t : Scopes} {f : RoutineFinding} (h : RoutineSound t f) :
    t.Has f.scope := by
  obtain ⟨p, hp, -⟩ := h.binding
  exact Scopes.has_of_parent hp

theorem TypeSound.has {t : Scopes} {f : TypeFinding} (h : TypeSound t f) : t.Has f.scope := by
  obtain ⟨p, hp⟩ := h.parent
  exact Scopes.has_of_parent hp

theorem RoutineSound.mono {t t' : Scopes} {f : RoutineFinding} (h : RoutineSound t f)
    (hx : t.Extends t') (hw : t.WF) : RoutineSound t' f := by
  have hd := hx.head _ h.has
  obtain ⟨p, hp, hb⟩ := h.binding
  exact ⟨hd.kind.trans h.kind, hd.memberOf.trans h.memberOf, hd.isStatic.trans h.isStatic,
    hd.unit.trans h.unit, ⟨p, hd.parent.trans hp, (hx.entries p (hw.has_parent hp)).subset hb⟩,
    hd.name.trans h.named⟩

theorem TypeSound.mono {t t' : Scopes} {f : TypeFinding} (h : TypeSound t f)
    (hx : t.Extends t') : TypeSound t' f := by
  have hd := hx.head _ h.has
  have hi := hx.head _ (Scopes.has_of_parent h.inner)
  obtain ⟨p, hp⟩ := h.parent
  exact ⟨hd.kind.trans h.kind, hd.memberOf.trans h.memberOf, hd.unit.trans h.unit,
    hi.parent.trans h.inner, hi.kind.trans h.innerKind, p, hd.parent.trans hp⟩

/-- What holds of the tables and of the scope that the walk is in. -/
structure Sound (a : Analysis) : Prop where
  scopes : a.scopes.Sound
  siblings : a.scopes.Siblings
  types : a.types.Sound
  houses : a.units.Houses a.scopes
  has : a.scopes.Has a.current
  linked : a.scopes.Linked a.current
  routines : ∀ e ∈ a.findings.routines, RoutineSound a.scopes e.2
  /-- What holds a routine is of a routine type. -/
  values : ∀ e ∈ a.findings.routines, a.types.form e.2.binding.type = .routine
  typeFindings : ∀ e ∈ a.findings.types, TypeSound a.scopes e.2
  /-- The class of a type that is recorded is that of its unit. -/
  classes : ∀ e ∈ a.findings.types, a.types.Addressed e.2.type (a.units.path e.2.unit)

/-- What is recorded about types is about units that are planned. -/
theorem Sound.classes_grow (ha : Sound a) (hg : Grows a b) : ∀ e ∈ a.findings.types,
    b.types.Addressed e.2.type (b.units.path e.2.unit) := by
  intro e he
  have ht := ha.typeFindings e he
  have hunit := ha.houses.isSome ha.scopes.toWF ht.has
  rw [ht.unit] at hunit
  rw [hg.units.path_eq hunit]
  exact hg.addressed _ _ (ha.classes e he)

theorem Sound.step (ha : Sound a) (h : Step K a b) : Sound b := by
  have hclasses := ha.classes_grow h.grows
  cases h with
  | report a e =>
    exact ⟨ha.scopes, ha.siblings, ha.types, ha.houses, ha.has, ha.linked, ha.routines,
      ha.values, ha.typeFindings, ha.classes⟩
  | types a h =>
    exact ⟨ha.scopes, ha.siblings, ha.types.step h, ha.houses, ha.has, ha.linked, ha.routines,
      fun e he => h.extends.isRoutine (ha.values e he), ha.typeFindings, hclasses⟩
  | plan a name kind ownerType =>
    have hhouses := ha.houses.extend ha.scopes.toWF (.refl _)
      (Units.extends_plan a.units (a.scopes.get a.current).unit name kind ownerType)
      fun s hs hnot => absurd hs hnot
    exact ⟨ha.scopes, ha.siblings, ha.types, hhouses, ha.has, ha.linked, ha.routines,
      ha.values, ha.typeFindings, hclasses⟩
  | scopes a h housed =>
    have hx := h.extends
    exact ⟨ha.scopes.step ha.has h, ha.siblings.step ha.scopes.toWF ha.has h, ha.types,
      ha.houses.extend ha.scopes.toWF hx (.refl _) housed, hx.has ha.has,
      ha.linked.step ha.scopes ha.has h,
      fun e he => (ha.routines e he).mono hx ha.scopes.toWF, ha.values,
      fun e he => (ha.typeFindings e he).mono hx, hclasses⟩
  | record a h =>
    refine ⟨ha.scopes, ha.siblings, ha.types, ha.houses, ha.has, ha.linked, fun e he => ?_,
      fun e he => ?_, fun e he => ?_, fun e he => ?_⟩
    · cases h with
      | routine node hf =>
        rcases List.mem_cons.mp he with rfl | he
        · exact ⟨hf.kind, hf.memberOf, hf.isStatic, hf.unit, ⟨_, hf.parent, hf.binding⟩, hf.named⟩
        · exact ha.routines e he
      | _ => exact ha.routines e he
    · cases h with
      | routine node hf =>
        rcases List.mem_cons.mp he with rfl | he
        · exact hf.value
        · exact ha.values e he
      | _ => exact ha.values e he
    · cases h <;> exact ha.typeFindings e he
    · cases h <;> exact ha.classes e he

theorem Sound.steps (ha : Sound a) (h : Steps K a b) : Sound b := by
  induction h with
  | refl => exact ha
  | step h => exact ha.step h
  | trans _ _ ih ih' => exact ih' (ih ha)
  | mono _ _ ih => exact ih ha

/-- The walk is in another scope. -/
theorem Sound.at (ha : Sound a) {s : ScopeId} (hs : a.scopes.Has s) (hl : a.scopes.Linked s) :
    Sound { a with current := s } :=
  ⟨ha.scopes, ha.siblings, ha.types, ha.houses, hs, hl, ha.routines, ha.values, ha.typeFindings,
    ha.classes⟩

/-- Into a scope inside the current one. -/
theorem Sound.enter (ha : Sound a) {s : ScopeId} (hp : a.scopes.parent s = some a.current)
    (hs : (a.scopes.get s).kind = .fieldInit ∨ (a.scopes.get s).captures = []) :
    Sound { a with current := s } :=
  ha.at (Scopes.has_of_parent hp) (ha.linked.of_empty ha.scopes.toWF hp hs)

/-- Back from a scope inside. -/
theorem Sound.leave (hb : Sound b) {s : ScopeId} (hp : b.scopes.parent b.current = some s) :
    Sound { b with current := s } :=
  hb.at (hb.scopes.has_parent hp) (hb.linked.of_parent hb.scopes.toWF hp)

theorem Sound.complete (ha : Sound a) (node : NodeId) (sources : List CaptureSource) :
    Sound { a with findings := a.findings.complete node sources } := by
  refine ⟨ha.scopes, ha.siblings, ha.types, ha.houses, ha.has, ha.linked, fun e he => ?_,
    fun e he => ?_, ha.typeFindings, ha.classes⟩ <;>
    obtain ⟨e₀, he₀, -, heq, -⟩ := Findings.mem_routines_complete he <;> rw [heq]
  · have h₀ := ha.routines e₀ he₀
    exact ⟨h₀.kind, h₀.memberOf, h₀.isStatic, h₀.unit, h₀.binding, h₀.named⟩
  · exact ha.values e₀ he₀

/-- After a walk through a scope inside, back in the scope around. -/
theorem Sound.back (hb : Sound b) {s : ScopeId} (hp : a.scopes.parent s = some a.current)
    (h : Walk K { a with current := s } b) : Sound { b with current := a.current } := by
  refine hb.leave ?_
  rw [h.current_eq, h.grows.scopes.parent_eq (Scopes.has_of_parent hp)]
  exact hp

/-- Walks keep an analysis sound. -/
theorem Sound.walk (ha : Sound a) (h : Walk K a b) : Sound b := by
  induction h with
  | steps h => exact ha.steps h
  | trans _ _ ih ih' => exact ih' (ih ha)
  | mono _ _ ih => exact ih ha
  | inside hp hk h ih => exact (ih (ha.enter hp (hk.imp_right And.right))).back hp h
  | routine hp _ hempty _ body after _ ih =>
    have hc := ((ih (ha.enter hp (Or.inr hempty))).back hp body).steps after
    exact hc.complete _ _
  | @type K a b c node f hp hk hempty _ hm hunit haddressed hin hik body after _ ih =>
    have hc := ((ih (ha.enter hp (Or.inr hempty))).back hp body).steps after
    have hfh := Scopes.has_of_parent hp
    refine ⟨hc.scopes, hc.siblings, hc.types, hc.houses, hc.has, hc.linked, hc.routines, hc.values,
      fun e he => ?_, fun e he => ?_⟩ <;> rcases List.mem_cons.mp he with rfl | he
    · have hd := body.grows.scopes.head _ hfh
      have hf : TypeSound _ _ := ⟨hd.kind.trans hk, hd.memberOf.trans hm, hd.unit.trans hunit,
        hin, hik, _, hd.parent.trans hp⟩
      exact hf.mono after.grows.scopes
    · exact hc.typeFindings e he
    · have hg := body.grows.of_at.trans after.grows.of_at
      have hplanned := ha.houses.isSome ha.scopes.toWF hfh
      rw [hunit] at hplanned
      rw [hg.units.path_eq hplanned]
      exact hg.addressed _ _ haddressed
    · exact hc.classes e he

/-! ## Captures of other scopes -/

theorem Step.captures_eq (ha : Sound a) (h : Step K a b) {x : ScopeId} (hx : a.scopes.Has x)
    (hxs : x ∉ a.scopes.path a.current) :
    (b.scopes.get x).captures = (a.scopes.get x).captures := by
  cases h with
  | scopes a h => exact h.captures_eq ha.scopes hx hxs
  | _ => rfl

theorem Steps.captures_eq (ha : Sound a) (h : Steps K a b) {x : ScopeId} (hx : a.scopes.Has x)
    (hxs : x ∉ a.scopes.path a.current) :
    (b.scopes.get x).captures = (a.scopes.get x).captures := by
  induction h with
  | refl => rfl
  | step h => exact h.captures_eq ha hx hxs
  | trans h _ ih ih' =>
    have hb := ha.steps h
    rw [ih' hb (h.grows.scopes.has hx), ih ha hx hxs]
    rwa [h.current_eq, h.grows.scopes.path_eq ha.scopes.toWF hb.scopes.toWF ha.has]
  | mono _ _ ih => exact ih ha hx hxs

/-- A walk leaves the captures of a scope alone that is neither around it nor inside. -/
theorem Walk.captures_eq (ha : Sound a) (h : Walk K a b) {x : ScopeId} (hx : a.scopes.Has x)
    (hout : x ∉ a.scopes.path a.current) (hin : a.current ∉ a.scopes.path x) :
    (b.scopes.get x).captures = (a.scopes.get x).captures := by
  have hchild : ∀ {a : Analysis} {s : ScopeId}, Sound a → a.scopes.parent s = some a.current →
      x ∉ a.scopes.path a.current → a.current ∉ a.scopes.path x →
        x ∉ a.scopes.path s ∧ s ∉ a.scopes.path x := by
    intro a s ha hp hout hin
    have hs := ha.scopes.mem_path_of_parent hp (Scopes.mem_path_self _ a.current)
    refine ⟨fun h => ?_, fun h => hin (ha.scopes.mem_path_trans hs h)⟩
    by_cases heq : x = s
    · subst heq
      exact hin hs
    · exact hout (ha.scopes.mem_path_parent hp h heq)
  have hback : ∀ {K : Multiset Key} {a b c : Analysis} {s : ScopeId}, Sound a →
      Sound { b with current := a.current } → a.scopes.Has x → x ∉ a.scopes.path a.current →
        Walk K { a with current := s } b → Steps 0 { b with current := a.current } c →
          (c.scopes.get x).captures = (b.scopes.get x).captures := by
    intro K a b c s ha hb hx hout body after
    refine after.captures_eq hb (body.grows.scopes.has hx) ?_
    have hpath := body.grows.scopes.path_eq ha.scopes.toWF hb.scopes.toWF ha.has
    exact fun h => hout (by rwa [← hpath])
  induction h with
  | steps h => exact h.captures_eq ha hx hout
  | trans h _ ih ih' =>
    have hb := ha.walk h
    have hg := h.grows.scopes
    rw [ih' hb (hg.has hx), ih ha hx hout hin]
    · rwa [h.current_eq, hg.path_eq ha.scopes.toWF hb.scopes.toWF ha.has]
    · rwa [h.current_eq, hg.path_eq ha.scopes.toWF hb.scopes.toWF hx]
  | mono _ _ ih => exact ih ha hx hout hin
  | inside hp hk h ih =>
    obtain ⟨hout', hin'⟩ := hchild ha hp hout hin
    exact ih (ha.enter hp (hk.imp_right And.right)) hx hout' hin'
  | routine hp _ hempty _ body after _ ih =>
    obtain ⟨hout', hin'⟩ := hchild ha hp hout hin
    have hs := ha.enter hp (Or.inr hempty)
    exact (hback ha ((hs.walk body).back hp body) hx hout body after).trans
      (ih hs hx hout' hin')
  | type hp _ hempty _ _ _ _ _ _ body after _ ih =>
    obtain ⟨hout', hin'⟩ := hchild ha hp hout hin
    have hs := ha.enter hp (Or.inr hempty)
    exact (hback ha ((hs.walk body).back hp body) hx hout body after).trans
      (ih hs hx hout' hin')

end Analysis

end Unnest
