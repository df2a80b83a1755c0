import Unnest.Proofs.Analysis.Frames
import Unnest.Proofs.Analysis.Reads

/-!
# What is filled where

The slots that hold something for a scope change while the scope is walked through.  A
part of the analysis is `Tracked` with what it says about them: with `V` the slots that
are filled when the part begins and `V'` those that are filled when it ends, `R z N V V'`
holds in the final tables `z`, where `N` counts the slots of the method.

A link reads what was filled when it was analysed, so every part is looked at in the
tables right behind it, and not in the final ones.  The sources of a definition are found
behind its body.  They are compared with what is final by way of its captures, which
nothing changes any more (`Follows`).
-/

namespace Unnest.Analysis

open Analyze

variable {α : Type} {K : Multiset Key} {a b c z : Analysis} {s : ScopeId} {xs : List Part}

/-- The walk is at a scope with statements. -/
structure Ready (a : Analysis) : Prop where
  sound : Sound a
  laid : a.scopes.Laid
  body : (a.scopes.get a.current).kind.isBody = true

/-- The tables at the end of an accepted analysis of a whole program. -/
structure Final (z : Analysis) : Prop extends Accepted z where
  finished : Finished Scopes.rootId z
  laid : z.scopes.Laid

namespace Ready

theorem walk (ha : Ready a) (h : Walk K a b) : Ready b where
  sound := ha.sound.walk h
  laid := h.laid ha.sound ha.laid
  body := by rw [h.current_eq, h.grows.scopes.kind_eq ha.sound.has, ha.body]

theorem at_body (ha : Ready a) : (Place.body a.current).At a := Place.at_body ha.sound ha.body

end Ready

/-! ## Filling -/

/-- Bindings that are entered in the scope of the walk fill their slots. -/
theorem filled_only {bs : List Binding} (ha : Sound a) (hb : Sound b)
    (hx : a.scopes.Extends b.scopes) (h : ∀ o ∈ a.scopes.path a.current,
      (b.scopes.get o).entries = (a.scopes.get o).entries ++ only a.current bs o) :
    b.scopes.filled a.current = a.scopes.filled a.current ∪ slotSet bs := by
  rw [Scopes.filled_append hx ha.scopes.toWF hb.scopes.toWF ha.has h]
  congr 1
  ext k
  constructor
  · rintro ⟨o, -, -, hk⟩
    rw [only] at hk
    split at hk
    · exact hk
    · obtain ⟨b, hb, -⟩ := hk
      exact absurd hb List.not_mem_nil
  · exact fun hk => ⟨a.current, Scopes.mem_path_self _ _, rfl, by rwa [only_self]⟩

theorem Adds.filled_eq (h : Adds nothing a b) (ha : Sound a) (hb : Sound b) :
    b.scopes.filled a.current = a.scopes.filled a.current :=
  Scopes.filled_eq h.scopes ha.scopes.toWF hb.scopes.toWF ha.has fun o _ => by
    rw [h.entries, List.append_nil]

/-- What is entered in a scope is below the count of its method in the end. -/
theorem Final.below (hz : Final z) (hg : Grows b z) {bs : List Binding}
    (h : ∀ x ∈ bs, x ∈ (b.scopes.get s).entries) (hs : b.scopes.Has s) :
    ∀ k ∈ slotSet bs, k < z.scopes.numLocals s := fun k ⟨x, hx, hk⟩ =>
  hz.laid.below s k ⟨x, (hg.scopes.entries s hs).subset (h x hx), hk⟩

theorem Adds.below {bs : List Binding} (h : Adds (only a.current bs) a b) (ha : Sound a)
    (hz : Final z) (hg : Grows b z) : ∀ k ∈ slotSet bs, k < z.scopes.numLocals a.current :=
  hz.below hg (fun x hx => by rw [h.entries, only_self]; exact List.mem_append_right _ hx)
    (h.scopes.has ha.has)

/-! ## Following the walk -/

/-- A part of the analysis with what it says about the slots. -/
structure Tracked (m : Analyze Unit) (R : Analysis → Nat → Set Nat → Set Nat → Prop) : Prop where
  walk : ∀ {a}, Ready a → ∃ K, Walk K a (m.run a).2
  follows : ∀ {a}, Ready a → Follows a (m.run a).2
  holds : ∀ {a z}, Ready a → Final z → Follows (m.run a).2 z →
    R z (z.scopes.numLocals a.current) (a.scopes.filled a.current)
      ((m.run a).2.scopes.filled a.current)

variable {m n : Analyze Unit} {R S : Analysis → Nat → Set Nat → Set Nat → Prop}

namespace Tracked

theorem conseq (h : Tracked m R) (hR : ∀ z N V V', R z N V V' → S z N V V') : Tracked m S :=
  ⟨h.walk, h.follows, fun ha hz hf => hR _ _ _ _ (h.holds ha hz hf)⟩

theorem andThen (hm : Tracked m R) (hn : Tracked n S) :
    Tracked (do m; n) fun z N V V' => ∃ V₁, R z N V V₁ ∧ S z N V₁ V' := by
  refine ⟨fun {a} ha => ?_, fun {a} ha => ?_, fun {a z} ha hz hf => ?_⟩ <;>
    obtain ⟨K, h⟩ := hm.walk ha <;> have hb := ha.walk h
  · obtain ⟨L, h'⟩ := hn.walk hb
    exact ⟨K + L, h.trans h'⟩
  · exact (hm.follows ha).trans (hn.follows hb) ha.sound hb.sound.scopes.toWF h.current_eq
  · obtain ⟨L, h'⟩ := hn.walk hb
    have hfirst := (hn.follows hb).trans hf hb.sound (hb.walk h').sound.scopes.toWF h'.current_eq
    have hS := hn.holds hb hz hf
    rw [h.current_eq] at hS
    exact ⟨_, hm.holds ha hz hfirst, hS⟩

theorem idle : Tracked (return ()) fun _ _ V V' => V' = V :=
  ⟨fun {a} _ => ⟨0, .refl a⟩, fun {a} _ => .refl a, fun _ _ _ => rfl⟩

/-- A part that stays in one scope and declares nothing reads what is filled there. -/
theorem of_quiet (hm : Quiet m) (hd : ∀ s, Decides (Place.body s) K m fun z _ =>
    Accepted z → Seen z s xs) : Tracked m fun z _ V V' => ReadsOnly z V xs ∧ V' = V := by
  refine ⟨fun {a} ha => ⟨K, .steps (hd _ a ha.at_body).1⟩, fun {a} ha =>
    (hd _ a ha.at_body).1.follows ha.sound, fun {a z} ha hz hf => ?_⟩
  obtain ⟨hs, hseen⟩ := hd _ a ha.at_body
  have hb := ha.sound.steps hs
  have heq := (hm a).filled_eq ha.sound hb
  have hreads := (hseen _ hb (.refl _) (hz.before hb hf.grows)).readsOnly hz.toSettled hb hf.grows
  exact ⟨heq ▸ hreads, heq⟩

end Tracked

/-! ## Blocks -/

theorem BlockOpened.ready {node : NodeId} {x : ScopeId × Analysis} (hx : BlockOpened node a x)
    (ha : Ready a) : Ready { x.2 with current := x.1 } := by
  refine ⟨(ha.sound.steps hx.steps).enter (hx.parent.trans (congrArg some
    hx.steps.current_eq.symm)) (Or.inr hx.empty), ?_, (congrArg ScopeKind.isBody hx.kind).trans rfl⟩
  have hl := hx.steps.laid ha.sound ha.laid
  exact hl

/-- A new block has what is filled around it. -/
theorem BlockOpened.filled {node : NodeId} {x : ScopeId × Analysis} (hx : BlockOpened node a x)
    (ha : Sound a) (h : Adds nothing a x.2) :
    x.2.scopes.filled x.1 = a.scopes.filled a.current := by
  have hb := ha.steps hx.steps
  have hempty : (x.2.scopes.get x.1).entries = [] := by
    rw [h.entries, List.append_nil, Scopes.get_of_not_has hx.fresh]
    rfl
  rw [hb.scopes.filled_block hx.parent hx.kind hempty, h.filled_eq ha hb]

/-- What a block fills counts only inside of it. -/
theorem tracked_block (node : NodeId) (hm : Tracked m R) :
    Tracked (do inScope (← openBlock node) m) fun z N V V' => (∃ V₁, R z N V V₁) ∧ V' = V := by
  refine ⟨fun {a} ha => ?_, fun {a} ha => ?_, fun {a z} ha hz hf => ?_⟩ <;>
    have hx := openBlock_spec node ha.sound ha.body <;> have hb := hx.ready ha <;>
    obtain ⟨K, h⟩ := hm.walk hb <;>
    have hp := hx.parent.trans (congrArg some hx.steps.current_eq.symm)
  · exact ⟨_, (Walk.steps hx.steps).trans (.inside hp (Or.inr ⟨hx.kind, hx.empty⟩) h)⟩
  · have hfollows := Walk.follows ha.sound hx.steps hx.fresh hp hb.sound h
    rw [← hx.steps.current_eq] at hfollows
    exact hfollows
  · have hquiet := quiet_openBlock node a
    set x := (openBlock node).run a
    set b := (m.run { x.2 with current := x.1 }).2 with hb'
    have hbx := hb.walk h
    have hparent : b.scopes.parent x.1 = some a.current :=
      (h.grows.scopes.parent_eq (Scopes.has_of_parent hp)).trans hx.parent
    have hcur : { b with current := x.1 } = b := by rw [← show b.current = x.1 from h.current_eq]
    have hf' : Follows { b with current := a.current } z := hx.steps.current_eq ▸ hf
    have hinside := hf'.inside hbx.sound.scopes.toWF hparent
    rw [hcur] at hinside
    have hg := hf'.grows.scopes
    have hh := Scopes.has_of_parent hparent
    have hkind : (z.scopes.get x.1).kind.ownsMethod = false := by
      rw [hg.kind_eq hh, h.grows.scopes.kind_eq (Scopes.has_of_parent hp), hx.kind]
      rfl
    have hcount : z.scopes.numLocals x.1 = z.scopes.numLocals a.current := by
      rw [Scopes.numLocals, hz.sound.scopes.owningMethod_of_parent hkind
        ((hg.parent_eq hh).trans hparent), Scopes.numLocals]
    have hR := hm.holds hb hz hinside
    dsimp only at hR
    rw [hcount, hx.filled ha.sound hquiet] at hR
    refine ⟨⟨_, hR⟩, Scopes.filled_eq (hquiet.scopes.trans h.grows.scopes) ha.sound.scopes.toWF
      hbx.sound.scopes.toWF ha.sound.has fun o ho => ?_⟩
    have hoh := Scopes.has_of_mem_path ho ha.sound.has
    have hnames := h.names hb.sound (hquiet.scopes.has hoh) (not_mem_path_of_new hoh hx.fresh)
    exact hnames.entries.trans ((hquiet.entries o).trans (List.append_nil _))

/-! ## Statements in one scope -/

theorem tracked_declare (d : VarDecl) :
    Tracked (stmt (.declare d)) fun z N V V' => StmtFills z N V (.declare d) V' := by
  have hd := fun s => (decides_varDecl (declares_body s) d).discard
  refine ⟨fun {a} ha => ⟨_, .steps (hd _ a ha.at_body).1⟩, fun {a} ha =>
    (hd _ a ha.at_body).1.follows ha.sound, fun {a z} ha hz hf => ?_⟩
  have hb : Sound ((stmt (.declare d)).run a).2 := ha.sound.steps (hd _ a ha.at_body).1
  have hadds := enters_varDecl .var none d a ha.sound.has
  obtain ⟨-, hrecords⟩ := records_varDecl (declares_body a.current) d a ha.at_body
  obtain ⟨f, record, hbindings⟩ := hrecords z hz.sound hf.grows hz.toAccepted
  have hfilled := filled_only ha.sound hb hadds.scopes fun s _ => hadds.entries s
  have hbelow := hadds.below ha.sound hz hf.grows
  rw [← hbindings] at hfilled hbelow
  rw [hfilled]
  exact .declare record hbelow

/-- The value of a definition is analysed before its names are declared. -/
theorem tracked_define (d : InitDecl) :
    Tracked (stmt (.define d)) fun z N V V' => StmtFills z N V (.define d) V' := by
  have hd := fun s => decides_initDecl (declares_body s) d
  refine ⟨fun {a} ha => ⟨_, .steps (hd _ a ha.at_body).1⟩, fun {a} ha =>
    (hd _ a ha.at_body).1.follows ha.sound, fun {a z} ha hz hf => ?_⟩
  obtain ⟨hs₁, htype⟩ := decides_resolve (Place.body a.current) d.type a ha.at_body
  have ha₁ := ha.at_body.steps hs₁
  set x := (resolve d.type).run a
  have hoperand : Decides (Place.body a.current) _ (operand d.value) _ :=
    decides_requiredExpr (decides_expr _ d.value)
  obtain ⟨hs₂, hvalue⟩ := hoperand x.2 ha₁
  have ha₂ := ha₁.steps hs₂
  have hquiet := (quiet_resolve d.type a).after (quiet_operand d.value x.2)
  set y := (operand d.value).run x.2
  have hrun : ((stmt (.define d)).run a).2 =
      ((declareInit d.node .var none d.names x.1 y.1 d.value.span).run y.2).2 := rfl
  rw [hrun] at hf ⊢
  have hs₃ := (decides_declareInit (declares_body a.current) d.node d.names x.1 y.1 d.value.span
    y.2 ha₂).1
  have hg : Grows y.2 z := hs₃.grows.trans hf.grows
  obtain ⟨type, htype⟩ := htype z hz.sound (hs₂.grows.trans hg) hz.toAccepted
  obtain ⟨value, hv, hhas⟩ := hvalue y.2 ha₂.sound (.refl _) (hz.before ha₂.sound hg)
  have hreads := (seen_expr d.value hhas).readsOnly hz.toSettled ha₂.sound hg
  obtain ⟨-, hrecords⟩ := records_declareInit (declares_body a.current) d.node d.names type value
    d.value.span y.2 ha₂
  rw [← htype, ← hv] at hrecords
  obtain ⟨f, mode, record, hbindings, hmode⟩ := hrecords z hz.sound hf.grows hz.toAccepted
  have hadds := enters_declareInit d.node .var none d.names x.1 y.1 d.value.span y.2 ha₂.sound.has
  rw [hquiet.current, ← hbindings] at hadds
  have hb := ha₂.sound.steps hs₃
  have hall := hquiet.after hadds
  rw [filled_only ha.sound hb hall.scopes fun s _ => hall.entries s]
  refine .define record hmode (hall.below ha.sound hz hf.grows) ?_
  rwa [← hquiet.filled_eq ha.sound ha₂.sound]

theorem tracked_assign (x : Assignment) :
    Tracked (stmt (.assign x)) fun z N V V' => StmtFills z N V (.assign x) V' := by
  have hd : ∀ s, Decides (Place.body s) (Part.allKeys (Stmt.assign x).parts) (assign x) fun z _ =>
      Accepted z → Seen z s (x.target.linkParts ++ x.value.parts) := fun s => by
    by_cases hlinks : x.target.links = []
    · refine (decides_assign_nil hlinks).conseq fun z _ _ hd hz => ?_
      obtain ⟨t, h⟩ := hd hz
      rw [Chain.linkParts_of_nil hlinks]
      exact seen_expr _ h
    · refine (decides_assign x).conseq fun z _ _ hd hz => ?_
      obtain ⟨f, h⟩ := (hd hz).1 hlinks
      obtain ⟨t, hvalue, -⟩ := h.value
      exact (seen_chain _ h.target).append (seen_expr _ hvalue)
  refine (Tracked.of_quiet (quiet_assign x) hd).conseq ?_
  rintro z N V _ ⟨h, rfl⟩
  exact .assign h

theorem tracked_call (c : Chain) :
    Tracked (stmt (.call c)) fun z N V V' => StmtFills z N V (.call c) V' := by
  have hd : ∀ s, Decides (Place.body s) (Part.allKeys c.parts) (discard (chain c)) fun z _ =>
      Accepted z → Seen z s c.linkParts := fun s => by
    refine (decides_chainStmt (Place.body s) c).discard.conseq fun z _ _ hd hz => ?_
    obtain ⟨t, h⟩ := hd
    by_cases hlinks : c.links = []
    · rw [Chain.linkParts_of_nil hlinks]
      exact .nil
    · exact seen_chain c (h hz hlinks)
  refine (Tracked.of_quiet (fun a => quiet_chain c a) hd).conseq ?_
  rintro z N V _ ⟨h, rfl⟩
  exact .call h

theorem tracked_condition (e : Expr) :
    Tracked (checkCondition e) fun z _ V V' => ReadsOnly z V e.parts ∧ V' = V :=
  .of_quiet (quiet_checkCondition e) fun _ => (decides_checkCondition e).conseq
    fun _ _ _ hd hz => (hd hz).elim fun _ h => seen_expr e h

/-- The value of a return clause reads what is filled behind the body. -/
theorem tracked_checkReturn (r : RoutineDef) (result : Option TypeId) :
    Tracked (checkReturn r result) fun z _ V V' =>
      ReadsOnly z V (ReturnClause.optParts r.ret) ∧ V' = V :=
  .of_quiet (quiet_checkReturn r result) fun _ => (decides_checkReturn r result).conseq
    fun _ _ _ hd hz => seen_ret (hd hz)

end Unnest.Analysis
