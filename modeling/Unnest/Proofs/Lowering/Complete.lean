import Unnest.Proofs.Lowering.Whole

/-!
# Complete findings

Lowering looks up what analysis wrote down and skips what it does not find.  Where
analysis reported no error there is nothing to skip: every part of the tree has the
records that lowering reads (`Part.Recorded`), and so no lookup comes back empty.

The judgements of `Proofs.Analysis.Decided` say this of one construct at a time.  Here
they are read off for all parts of a tree, by induction on the tree.
-/

namespace Unnest

/-- A declaration of names is on record with all of them, in order, and with a way to
write an initial value exactly when it has one. -/
def Findings.Declares (f : Findings) (node : NodeId) (names : List Ident) (hasValue : Bool) :
    Prop :=
  ∃ x, f.decls.find? node = some x ∧ x.bindings.map (·.name) = names.map (·.name) ∧
    x.mode.isSome = hasValue

/-- The records that a part of a tree has in an accepted analysis.  An assignment that
stores does so through a link that loads a binding or reads a member. -/
def Part.Recorded (z : Analysis) : Part → Prop
  | .expr (.literal node _ _) | .expr (.paren node _ _) =>
    ∃ t, z.findings.exprTypes.find? node = some t
  | .expr (.binary node _ _ _ _) | .expr (.unary node _ _ _) =>
    (∃ t, z.findings.exprTypes.find? node = some t) ∧ ∃ c, z.findings.operators.find? node = some c
  | .expr (.chain c) =>
    (∃ t, z.findings.exprTypes.find? c.node = some t) ∧ ∃ f, z.findings.chains.find? c.node = some f
  | .chain c => ∃ f, z.findings.chains.find? c.node = some f
  | .link l => ∃ f, z.findings.links.find? l.node = some f
  | .block node => ∃ s, z.findings.blocks.find? node = some s
  | .declare d => z.findings.Declares d.node d.names false
  | .define d => z.findings.Declares d.node d.names true
  | .staticField f => z.findings.Declares f.decl.node f.decl.names true
  | .assign x => ∃ f, z.findings.assigns.find? x.node = some f ∧
      (f.mode = .store → ∃ l, x.target.last? = some l ∧ z.Names l)
  | .routine r => ∃ f, z.findings.routines.find? r.node = some f
  | .type t => ∃ f, z.findings.types.find? t.node = some f

/-- Whether a part is a chain, and no expression, without links. -/
def Part.isEmptyChain : Part → Bool
  | .chain c => c.links.isEmpty
  | _ => false

namespace Analysis

variable {z : Analysis} {s : ScopeId} {x : Part}

/-! ## Expressions -/

theorem HeadMakes.record {hasMore : Bool} {l : Link} {p : Produced} (h : HeadMakes z s hasMore l p) :
    ∃ f, z.findings.links.find? l.node = some f := by
  cases h <;> exact ⟨_, ‹_›⟩

theorem LinkMakes.record {before after : Produced} {l : Link} (h : LinkMakes z s before l after) :
    ∃ f, z.findings.links.find? l.node = some f := by
  cases h <;> exact ⟨_, ‹_›⟩

/-- The arguments of a link, when it has some, have types. -/
def ArgsDone (z : Analysis) (s : ScopeId) : Link → Prop
  | .bare _ _ _ => True
  | .call _ _ args _ => ∃ ts, ArgsHave z s args ts

theorem HeadMakes.args {hasMore : Bool} {l : Link} {p : Produced} (h : HeadMakes z s hasMore l p) :
    ArgsDone z s l := by
  cases h <;> first | trivial | exact ⟨_, ‹_›⟩

theorem LinkMakes.args {before after : Produced} {l : Link} (h : LinkMakes z s before l after) :
    ArgsDone z s l := by
  cases h <;> first | trivial | exact ⟨_, ‹_›⟩

/-- What holds of first links and of later ones holds of every link of a chain. -/
theorem ChainHas.forall_links {P : Link → Prop}
    (head : ∀ {hasMore l p}, HeadMakes z s hasMore l p → P l)
    (later : ∀ {before l after}, LinkMakes z s before l after → P l)
    {c : Chain} {t : Option TypeId} (h : ChainHas z s c t) : ∀ l ∈ c.links, P l := by
  cases h with
  | @mk _ first rest _ p _ _ hh hr =>
    refine List.forall_mem_cons.mpr ⟨head hh, ?_⟩
    clear hh
    induction rest generalizing p with
    | nil => exact List.forall_mem_nil _
    | cons l ls ih =>
      cases hr with
      | cons hl hls => exact List.forall_mem_cons.mpr ⟨later hl, ih hls⟩

theorem ChainHas.links {c : Chain} {t : Option TypeId} (h : ChainHas z s c t) :
    ∀ l ∈ c.links, (∃ f, z.findings.links.find? l.node = some f) ∧ ArgsDone z s l :=
  h.forall_links (fun h => ⟨h.record, h.args⟩) fun h => ⟨h.record, h.args⟩

theorem ChainHas.record {c : Chain} {t : Option TypeId} (h : ChainHas z s c t) :
    ∃ f, z.findings.chains.find? c.node = some f ∧ f.type = t := by
  cases h with
  | mk _ _ _ record => exact ⟨_, record, rfl⟩

mutual

theorem recorded_expr {t : TypeId} : (e : Expr) → ExprHas z s e t → x ∈ e.parts → x.Recorded z
  | .literal _ _ _, h, hx => by
    rw [Expr.parts, List.mem_singleton] at hx
    subst hx
    cases h with
    | literal type => exact ⟨_, type⟩
  | .binary _ _ left right _, h, hx => by
    rw [Expr.parts, List.mem_cons, List.mem_append] at hx
    cases h with
    | binary hl hr call _ _ type =>
      rcases hx with rfl | hx | hx
      · exact ⟨⟨_, type⟩, _, call⟩
      · exact recorded_expr left hl hx
      · exact recorded_expr right hr hx
  | .unary _ _ operand _, h, hx => by
    rw [Expr.parts, List.mem_cons] at hx
    cases h with
    | unary ho call _ _ type =>
      rcases hx with rfl | hx
      · exact ⟨⟨_, type⟩, _, call⟩
      · exact recorded_expr operand ho hx
  | .paren _ inner _, h, hx => by
    rw [Expr.parts, List.mem_cons] at hx
    cases h with
    | paren hi type =>
      rcases hx with rfl | hx
      · exact ⟨_, type⟩
      · exact recorded_expr inner hi hx
  | .chain c, h, hx => by
    rw [Expr.parts, List.mem_cons] at hx
    cases h with
    | chain hc type =>
      rcases hx with rfl | hx
      · exact ⟨⟨_, type⟩, hc.record.imp fun _ h => h.1⟩
      · exact recorded_chain c hc hx

theorem recorded_chain {t : Option TypeId} : (c : Chain) → ChainHas z s c t → x ∈ c.linkParts →
    x.Recorded z
  | ⟨_, ls, _⟩, h, hx => recorded_links ls h.links hx

theorem recorded_link : (l : Link) →
    (∃ f, z.findings.links.find? l.node = some f) ∧ ArgsDone z s l → x ∈ l.parts → x.Recorded z
  | .bare _ _ _, h, hx => by
    rw [Link.parts, List.mem_singleton] at hx
    subst hx
    exact h.1
  | .call _ _ args _, ⟨hf, _, hargs⟩, hx => by
    rw [Link.parts, List.mem_cons] at hx
    rcases hx with rfl | hx
    · exact hf
    · exact recorded_args args hargs hx

theorem recorded_links : (ls : List Link) →
    (∀ l ∈ ls, (∃ f, z.findings.links.find? l.node = some f) ∧ ArgsDone z s l) →
    x ∈ Link.allParts ls → x.Recorded z
  | [], _, hx => absurd hx List.not_mem_nil
  | l :: ls, h, hx => by
    rw [List.forall_mem_cons] at h
    rw [Link.allParts, List.mem_append] at hx
    rcases hx with hx | hx
    · exact recorded_link l h.1 hx
    · exact recorded_links ls h.2 hx

theorem recorded_args {ts : List TypeId} : (es : List Expr) → ArgsHave z s es ts →
    x ∈ Expr.allParts es → x.Recorded z
  | [], _, hx => absurd hx List.not_mem_nil
  | e :: es, h, hx => by
    rw [Expr.allParts, List.mem_append] at hx
    cases h with
    | cons he hes =>
      rcases hx with hx | hx
      · exact recorded_expr e he hx
      · exact recorded_args es hes hx

end

/-! ## Statements -/

theorem DeclDone.recorded {d : VarDecl} {f : DeclFinding} (h : DeclDone z s d f) :
    (Part.declare d).Recorded z :=
  ⟨f, h.record, h.names.names_eq, by rw [h.mode]; rfl⟩

theorem InitDone.recorded {v : ScopeId} {node : NodeId} {names : List Ident} {value : Expr}
    {f : DeclFinding} {mode : WriteMode} (h : InitDone z s v node names value f mode) :
    z.findings.Declares node names true :=
  ⟨f, h.record, h.names.names_eq, by rw [h.mode_eq]; rfl⟩

theorem recorded_ret {ret : Option ReturnClause} {result : Option TypeId}
    (h : RetDone z s ret result) (hx : x ∈ ReturnClause.optParts ret) : x.Recorded z := by
  cases h with
  | none => exact absurd hx List.not_mem_nil
  | some h => exact recorded_expr _ h hx

/-- Every chain that is a statement or the target of an assignment has a link. -/
def Linked (xs : List Part) : Prop := ∀ c, .chain c ∈ xs → c.links ≠ []

theorem linked_iff {xs : List Part} : Linked xs ↔ xs.all (!·.isEmptyChain) = true := by
  rw [List.all_eq_true]
  refine ⟨fun h x hx => ?_, fun h c hc hnil => ?_⟩
  · cases x with
    | chain c => simpa [Part.isEmptyChain] using h c hx
    | _ => rfl
  · simpa [Part.isEmptyChain, hnil] using h _ hc

instance (xs : List Part) : Decidable (Linked xs) := decidable_of_iff' _ linked_iff

theorem Linked.mono {xs ys : List Part} (h : Linked ys) (hxs : xs ⊆ ys) : Linked xs :=
  fun c hc => h c (hxs hc)

theorem recorded_assign {a : Assignment} (h : StmtDone z s (.assign a))
    (hne : Linked (Stmt.assign a).parts) (hx : x ∈ (Stmt.assign a).parts) : x.Recorded z := by
  have hlinks := hne a.target (List.mem_cons_of_mem _ (List.mem_append_left _ List.mem_cons_self))
  rw [Stmt.parts, List.mem_cons, List.mem_append, Chain.parts, List.mem_cons] at hx
  cases h with
  | assign h =>
    obtain ⟨f, hf⟩ := h hlinks
    obtain ⟨_, hvalue, -⟩ := hf.value
    rcases hx with rfl | (rfl | hx) | hx
    · exact ⟨f, hf.record, hf.stored⟩
    · exact hf.target.record.imp fun _ h => h.1
    · exact recorded_chain a.target hf.target hx
    · exact recorded_expr a.value hvalue hx

theorem recorded_call {c : Chain} (h : StmtDone z s (.call c)) (hne : Linked c.parts)
    (hx : x ∈ c.parts) : x.Recorded z := by
  cases h with
  | call h =>
    obtain ⟨_, hc⟩ := h (hne c List.mem_cons_self)
    rcases List.mem_cons.mp hx with rfl | hx
    · exact hc.record.imp fun _ h => h.1
    · exact recorded_chain c hc hx

theorem recorded_statics {v : ScopeId} {fs : List StaticField}
    (h : ∀ f ∈ fs, ∃ df mode, InitDone z s v f.decl.node f.decl.names f.init df mode)
    (hx : x ∈ fs.flatMap StaticField.parts) : x.Recorded z := by
  obtain ⟨f, hf, hx⟩ := List.mem_flatMap.mp hx
  obtain ⟨df, mode, hdone⟩ := h f hf
  obtain ⟨_, hvalue, -⟩ := hdone.value
  rcases List.mem_cons.mp hx with rfl | hx
  · exact hdone.recorded
  · exact recorded_expr f.init hvalue hx

mutual

theorem recorded_stmt : (y : Stmt) → {s : ScopeId} → StmtDone z s y → Linked y.parts →
    x ∈ y.parts → x.Recorded z
  | .declare d, _, h, _, hx => by
    rw [Stmt.parts, List.mem_singleton] at hx
    subst hx
    cases h with
    | declare h => exact h.recorded
  | .define d, _, h, _, hx => by
    rw [Stmt.parts, List.mem_cons] at hx
    cases h with
    | define h =>
      obtain ⟨_, hvalue, -⟩ := h.value
      rcases hx with rfl | hx
      · exact h.recorded
      · exact recorded_expr d.value hvalue hx
  | .assign _, _, h, hne, hx => recorded_assign h hne hx
  | .call _, _, h, hne, hx => recorded_call h hne hx
  | .branch gs otherwise _, _, h, hne, hx => by
    rw [Stmt.parts, List.mem_append] at hx
    cases h with
    | branch hgs he =>
      rcases hx with hx | hx
      · exact recorded_guardedAll gs hgs (hne.mono (List.subset_append_left _ _)) hx
      · exact recorded_else otherwise he (hne.mono (List.subset_append_right _ _)) hx
  | .loop g, _, h, hne, hx => by
    cases h with
    | loop h => exact recorded_guarded g h hne hx
  | .routine r, _, h, hne, hx => by
    cases h with
    | routine h => exact recorded_routine r h hne hx
  | .type t, _, h, hne, hx => by
    cases h with
    | type h => exact recorded_type t h hne hx

theorem recorded_guarded : (g : Guarded) → {s : ScopeId} → GuardedDone z s g → Linked g.parts →
    x ∈ g.parts → x.Recorded z
  | ⟨_, condition, body, _⟩, _, h, hne, hx => by
    rw [Guarded.parts, List.mem_cons, List.mem_append] at hx
    cases h with
    | mk record _ _ hc hb =>
      rcases hx with rfl | hx | hx
      · exact ⟨_, record⟩
      · exact recorded_expr condition hc hx
      · refine recorded_stmts body hb (hne.mono ?_) hx
        exact List.Subset.trans (List.subset_append_right _ _) (List.subset_cons_self _ _)

theorem recorded_else : (e : Else) → {s : ScopeId} → ElseDone z s e → Linked e.parts →
    x ∈ e.parts → x.Recorded z
  | .absent, _, _, _, hx => absurd hx List.not_mem_nil
  | .block _ body _, _, h, hne, hx => by
    rw [Else.parts, List.mem_cons] at hx
    cases h with
    | block record _ _ hb =>
      rcases hx with rfl | hx
      · exact ⟨_, record⟩
      · exact recorded_stmts body hb (hne.mono (List.subset_cons_self _ _)) hx

theorem recorded_routine : (r : RoutineDef) → {s : ScopeId} → RoutineDone z s r →
    Linked r.parts → x ∈ r.parts → x.Recorded z
  | ⟨_, _, _, _, _, body, _, _⟩, _, h, hne, hx => by
    rw [RoutineDef.parts, List.mem_cons, List.mem_append] at hx
    cases h with
    | mk record _ hb hret =>
      rcases hx with rfl | hx | hx
      · exact ⟨_, record⟩
      · refine recorded_stmts body hb (hne.mono ?_) hx
        exact List.Subset.trans (List.subset_append_left _ _) (List.subset_cons_self _ _)
      · exact recorded_ret hret hx

theorem recorded_type : (t : TypeDef) → {s : ScopeId} → TypeDone z s t → Linked t.parts →
    x ∈ t.parts → x.Recorded z
  | ⟨_, _, _, fields, statics, routines, staticRoutines, _⟩, _, h, hne, hx => by
    rw [TypeDef.parts] at hne hx
    rw [List.mem_cons, List.mem_append, List.mem_append, List.mem_append, List.mem_map] at hx
    have hsub := hne.mono (List.subset_cons_self _ _)
    cases h with
    | mk record _ hf hs hr hsr =>
      rcases hx with rfl | ((⟨d, hd, rfl⟩ | hx) | hx) | hx
      · exact ⟨_, record⟩
      · obtain ⟨_, hdone⟩ := hf d hd
        exact hdone.recorded
      · exact recorded_statics hs hx
      · refine recorded_routines routines hr (hsub.mono ?_) hx
        exact List.Subset.trans (List.subset_append_right _ _) (List.subset_append_left _ _)
      · exact recorded_routines staticRoutines hsr (hsub.mono (List.subset_append_right _ _)) hx

theorem recorded_stmts : (ys : List Stmt) → {s : ScopeId} → StmtsDone z s ys →
    Linked (Stmt.allParts ys) → x ∈ Stmt.allParts ys → x.Recorded z
  | [], _, _, _, hx => absurd hx List.not_mem_nil
  | y :: ys, _, h, hne, hx => by
    rw [Stmt.allParts, List.mem_append] at hx
    cases h with
    | cons h hs =>
      rcases hx with hx | hx
      · exact recorded_stmt y h (hne.mono (List.subset_append_left _ _)) hx
      · exact recorded_stmts ys hs (hne.mono (List.subset_append_right _ _)) hx

theorem recorded_guardedAll : (gs : List Guarded) → {s : ScopeId} → GuardedAllDone z s gs →
    Linked (Guarded.allParts gs) → x ∈ Guarded.allParts gs → x.Recorded z
  | [], _, _, _, hx => absurd hx List.not_mem_nil
  | g :: gs, _, h, hne, hx => by
    rw [Guarded.allParts, List.mem_append] at hx
    cases h with
    | cons h hs =>
      rcases hx with hx | hx
      · exact recorded_guarded g h (hne.mono (List.subset_append_left _ _)) hx
      · exact recorded_guardedAll gs hs (hne.mono (List.subset_append_right _ _)) hx

theorem recorded_routines : (rs : List RoutineDef) → {s : ScopeId} → RoutinesDone z s rs →
    Linked (RoutineDef.allParts rs) → x ∈ RoutineDef.allParts rs → x.Recorded z
  | [], _, _, _, hx => absurd hx List.not_mem_nil
  | r :: rs, _, h, hne, hx => by
    rw [RoutineDef.allParts, List.mem_append] at hx
    cases h with
    | cons h hs =>
      rcases hx with hx | hx
      · exact recorded_routine r h (hne.mono (List.subset_append_left _ _)) hx
      · exact recorded_routines rs hs (hne.mono (List.subset_append_right _ _)) hx

end

end Analysis

namespace Lowering

open Analysis

theorem linked_nested : Linked nested.parts := by decide +kernel

/-- Lowering an accepted program finds everything that it looks up. -/
theorem gaps_eq_zero (program : String) {q : Program} (hq : q.nodes.Nodup)
    (hlinks : Linked q.parts) (h : (analyze program q).errors = []) (labels : Nat) :
    (generate (analyze program q) program q labels).gaps = 0 := by
  rw [gaps_generate, (emitted_program program hq h labels).gaps hlinks]
  exact (predefined_moves program hq h).gaps

/-- The findings of an accepted program are complete.  Every part of the tree has the
records that lowering reads, and lowering finds everything that it looks up. -/
theorem findings_complete (program : String) {q : Program} (hq : q.nodes.Nodup)
    (hlinks : Linked q.parts) (h : (analyze program q).errors = []) (labels : Nat) :
    (∀ x ∈ q.parts, x.Recorded (analyze program q)) ∧
      (generate (analyze program q) program q labels).gaps = 0 :=
  ⟨fun _ hx => recorded_stmts q.stmts (done_analyze program hq h) hlinks hx,
    gaps_eq_zero program hq hlinks h labels⟩

theorem findings_complete_nested : (generate (analyze "demo" nested) "demo" nested 0).gaps = 0 :=
  (findings_complete "demo" nodup_nested linked_nested errors_nested 0).2

end Lowering

end Unnest
