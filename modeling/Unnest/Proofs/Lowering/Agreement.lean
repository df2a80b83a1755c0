import Unnest.Lowering.Program
import Unnest.Proofs.Analysis.Grounded
import Unnest.Proofs.Analysis.Sparing
import Unnest.Proofs.Lowering.Reading

/-!
# What lowering reads

Lowering reads the findings of the nodes that it walks over, the types that they mention,
and the classes and the slots of the routines among them.  A later analysis that says the
same about these is lowered to the same code, whatever else it has (`stmts_congr`).

`Agrees a b` is about the tables, and `Findings.AlikeAt` about the findings of one node.
What is mentioned is there, since the earlier analysis is grounded.
-/

namespace Unnest

/-- The table has all of these types. -/
abbrev TypeTable.HasAll (t : TypeTable) (ids : List TypeId) : Prop := ∀ id ∈ ids, t.Has id

namespace Analysis.Grounded

variable {a : Analysis} {n : NodeId}

/-! ## Findings -/

/-- What a finding of a table mentions is in the table of types. -/
theorem entry (ha : a.Grounded) {α : Type} {xs : NodeTable α} {mentions : α → List TypeId}
    (hxs : xs.flatMap (mentions ·.2) ⊆ a.findings.mentions) {x : α} (h : x ∈ xs.map Prod.snd) :
    a.types.HasAll (mentions x) := by
  obtain ⟨e, he, rfl⟩ := List.mem_map.mp h
  exact fun t ht => ha.findings t (hxs (List.mem_flatMap.mpr ⟨e, he, ht⟩))

theorem mem_of_find? {α : Type} {xs : NodeTable α} {x : α} (h : xs.find? n = some x) :
    x ∈ xs.map Prod.snd := List.mem_map_of_mem (NodeTable.mem_of_find? h)

theorem operator (ha : a.Grounded) {c : OperatorCall} (h : a.findings.operators.find? n = some c) :
    a.types.HasAll c.mentions := by
  refine ha.entry (fun t ht => ?_) (mem_of_find? h)
  simp only [Findings.mentions, List.mem_append]
  grind

theorem link (ha : a.Grounded) {f : LinkFinding} (h : a.findings.links.find? n = some f) :
    a.types.HasAll f.mentions := by
  refine ha.entry (fun t ht => ?_) (mem_of_find? h)
  simp only [Findings.mentions, List.mem_append]
  grind

theorem decl (ha : a.Grounded) {f : DeclFinding} (h : a.findings.decls.find? n = some f) :
    a.types.HasAll f.mentions := by
  refine ha.entry (fun t ht => ?_) (mem_of_find? h)
  simp only [Findings.mentions, List.mem_append]
  grind

theorem assign (ha : a.Grounded) {f : AssignFinding} (h : a.findings.assigns.find? n = some f) :
    a.types.HasAll f.mentions := by
  refine ha.entry (fun t ht => ?_) (mem_of_find? h)
  simp only [Findings.mentions, List.mem_append]
  grind

theorem routine (ha : a.Grounded) {f : RoutineFinding} (h : f ∈ a.findings.routines.map Prod.snd) :
    a.types.HasAll f.mentions := by
  refine ha.entry (fun t ht => ?_) h
  simp only [Findings.mentions, List.mem_append]
  grind

theorem type (ha : a.Grounded) {f : TypeFinding} (h : a.findings.types.find? n = some f) :
    a.types.HasAll f.mentions := by
  refine ha.entry (fun t ht => ?_) (mem_of_find? h)
  simp only [Findings.mentions, List.mem_append]
  grind

end Analysis.Grounded

namespace Lowering

open Code

/-- A later analysis says the same about the types and the routines of an earlier one. -/
structure Agrees (a b : Analysis) : Prop where
  grounded : a.Grounded
  base : b.types.routineBase = a.types.routineBase
  types : ∀ id, a.types.Has id → b.types.get id = a.types.get id
  paths : ∀ f ∈ a.findings.routines.map Prod.snd, b.units.path f.unit = a.units.path f.unit
  locals : ∀ f ∈ a.findings.routines.map Prod.snd,
    b.scopes.methodLocals f.scope = a.scopes.methodLocals f.scope
  slots : ∀ f ∈ a.findings.routines.map Prod.snd,
    (b.scopes.get f.scope).numLocals = (a.scopes.get f.scope).numLocals

variable {a b : Analysis} {site : Site}

/-! ## Values -/

section Values

variable {type owner : TypeId} {x : Binding} {s : Signature}

theorem Agrees.form (h : Agrees a b) (ht : a.types.Has type) :
    b.types.form type = a.types.form type := by
  rw [TypeTable.form, TypeTable.form, h.types type ht]

theorem Agrees.path (h : Agrees a b) (ht : a.types.Has type) :
    b.types.path type = a.types.path type := by
  rw [TypeTable.path, TypeTable.path, h.types type ht, h.base]

theorem Agrees.descriptor (h : Agrees a b) (ht : a.types.Has type) :
    b.types.descriptor type = a.types.descriptor type := by
  rw [TypeTable.descriptor, TypeTable.descriptor, h.path ht]

theorem descriptorOf_congr (h : Agrees a b) (hs : a.types.HasAll s.mentions) :
    descriptorOf b s = descriptorOf a s := by
  obtain ⟨hparams, hresult⟩ := List.forall_mem_append.mp hs
  rw [descriptorOf, descriptorOf, List.map_congr_left fun t ht => h.descriptor (hparams t ht),
    Option.map_congr fun t ht => h.descriptor (hresult t (Option.mem_toList.mpr ht))]

theorem defaultValue_congr (h : Agrees a b) (ht : a.types.Has type) :
    defaultValue b type = defaultValue a type := by
  rw [defaultValue, defaultValue, h.form ht, h.path ht]

theorem memberField_congr (h : Agrees a b) (ho : a.types.Has owner) (hx : a.types.Has x.type) :
    memberField b owner x = memberField a owner x := by
  rw [memberField, memberField, h.path ho, h.descriptor hx]

theorem capturedField_congr (h : Agrees a b) (hx : a.types.Has x.type) :
    capturedField b site x = capturedField a site x := by
  rw [capturedField, capturedField, h.descriptor hx]

theorem loadInstance_congr (h : Agrees a b) (hsite : ∀ t ∈ site.instanceType, a.types.Has t) :
    loadInstance b site = loadInstance a site := by
  rw [loadInstance, loadInstance]
  cases hi : site.instanceType with
  | none => rfl
  | some owner =>
    dsimp only
    rw [h.descriptor (hsite owner hi)]

theorem load_congr (h : Agrees a b) (hsite : ∀ t ∈ site.instanceType, a.types.Has t)
    (hx : a.types.Has x.type) {access : Access} (ha : a.types.HasAll access.mentions) :
    load b site x access = load a site x access := by
  cases access with
  | slot _ | itself => rfl
  | static owner => rw [load, load, memberField_congr h (ha owner List.mem_cons_self) hx]
  | captured => rw [load, load, capturedField_congr h hx]
  | enclosing =>
    rw [load, load, loadInstance_congr h hsite]
    cases hi : site.instanceType with
    | none => rfl
    | some owner =>
      dsimp only
      rw [memberField_congr h (hsite owner hi) hx]

theorem beforeStore_congr (h : Agrees a b) (hsite : ∀ t ∈ site.instanceType, a.types.Has t)
    (access : Access) : beforeStore b site access = beforeStore a site access := by
  cases access with
  | enclosing => exact loadInstance_congr h hsite
  | slot _ | captured | static _ | itself => rfl

theorem store_congr (h : Agrees a b) (hsite : ∀ t ∈ site.instanceType, a.types.Has t)
    (hx : a.types.Has x.type) {access : Access} (ha : a.types.HasAll access.mentions) :
    store b site x access = store a site x access := by
  cases access with
  | slot _ | itself => rfl
  | static owner => rw [store, store, memberField_congr h (ha owner List.mem_cons_self) hx]
  | captured => rw [store, store, capturedField_congr h hx]
  | enclosing =>
    rw [store, store]
    cases hi : site.instanceType with
    | none => rfl
    | some owner =>
      dsimp only
      rw [memberField_congr h (hsite owner hi) hx]

theorem callRoutine_congr (h : Agrees a b) (ho : a.types.Has owner)
    (hs : a.types.HasAll s.mentions) (isStatic : Bool) (args : Fragment) :
    callRoutine b owner s isStatic args = callRoutine a owner s isStatic args := by
  rw [callRoutine, callRoutine, descriptorOf_congr h hs, h.path ho, h.form ho, invokeRoutine,
    invokeRoutine, h.base]

theorem readMember_congr (h : Agrees a b) (ho : a.types.Has owner) (hx : a.types.Has x.type)
    (isStatic : Bool) : readMember b owner x isStatic = readMember a owner x isStatic := by
  rw [readMember, readMember, memberField_congr h ho hx]

end Values

/-! ## Objects -/

section Objects

variable {f : RoutineFinding} {cs : List CaptureSource}

theorem loadCaptures_congr (h : Agrees a b) (hsite : ∀ t ∈ site.instanceType, a.types.Has t)
    (hcs : a.types.HasAll (cs.flatMap CaptureSource.mentions)) :
    loadCaptures b site cs = loadCaptures a site cs := by
  induction cs with
  | nil => rfl
  | cons c cs ih =>
    rw [List.flatMap_cons] at hcs
    obtain ⟨hc, hcs⟩ := List.forall_mem_append.mp hcs
    obtain ⟨htype, haccess⟩ := List.forall_mem_cons.mp hc
    rw [loadCaptures, loadCaptures, load_congr h hsite htype haccess, ih hcs]

theorem type_mem_mentions {c : CaptureSource} (hc : c ∈ cs) :
    c.type ∈ cs.flatMap CaptureSource.mentions :=
  List.mem_flatMap.mpr ⟨c, hc, List.mem_cons_self⟩

theorem captureDescriptors_congr (h : Agrees a b)
    (hcs : a.types.HasAll (cs.flatMap CaptureSource.mentions)) :
    captureDescriptors b cs = captureDescriptors a cs :=
  List.map_congr_left fun _ hc => h.descriptor (hcs _ (type_mem_mentions hc))

theorem mentions_captures (f : RoutineFinding) :
    f.captures.flatMap CaptureSource.mentions ⊆ f.mentions := List.subset_append_right _ _

theorem mentions_enclosingType {owner : TypeId} (ho : enclosingType f = some owner) :
    owner ∈ f.mentions := by
  rw [enclosingType] at ho
  split at ho
  · exact absurd ho (by simp)
  · exact List.mem_append_left _ (List.mem_append_left _ (List.mem_append_right _
      (Option.mem_toList.mpr ho)))

theorem mentions_binding (f : RoutineFinding) : f.binding.type ∈ f.mentions :=
  List.mem_append_left _ (List.mem_append_left _ (List.mem_append_left _
    (List.mem_append_right _ List.mem_cons_self)))

theorem mentions_signature (f : RoutineFinding) : f.signature.mentions ⊆ f.mentions := fun _ ht =>
  List.mem_append_left _ (List.mem_append_left _ (List.mem_append_left _
    (List.mem_append_left _ ht)))

theorem routineFields_congr (h : Agrees a b) (hf : a.types.HasAll f.mentions) :
    routineFields b f = routineFields a f := by
  rw [routineFields, routineFields,
    Option.map_congr fun owner ho => by rw [h.descriptor (hf owner (mentions_enclosingType ho))],
    List.map_congr_left fun c hc => by
      rw [h.descriptor (hf c.type (mentions_captures f (type_mem_mentions hc)))]]

theorem makeRoutine_congr (h : Agrees a b) (hsite : ∀ t ∈ site.instanceType, a.types.Has t)
    (hf : f ∈ a.findings.routines.map Prod.snd) : makeRoutine b site f = makeRoutine a site f := by
  have hall := h.grounded.routine hf
  rw [makeRoutine, makeRoutine, h.paths f hf, routineFields_congr h hall,
    loadCaptures_congr h hsite fun t ht => hall t (mentions_captures f ht)]

theorem initType_congr (h : Agrees a b) (hsite : ∀ t ∈ site.instanceType, a.types.Has t)
    {t : TypeFinding} (ht : a.types.HasAll t.mentions) : initType b site t = initType a site t := by
  obtain ⟨htype, hcs⟩ := List.forall_mem_cons.mp ht
  rw [initType, initType, loadCaptures_congr h hsite hcs, captureDescriptors_congr h hcs,
    h.path htype]

end Objects

/-! ## Expressions -/

section Expressions

variable {n : NodeId}

theorem makeConstant_congr (h : Agrees a b) {type : TypeId} (ht : a.types.Has type)
    (constant : Instruction) (descriptor : String) :
    makeConstant b type constant descriptor = makeConstant a type constant descriptor := by
  rw [makeConstant, makeConstant, h.path ht]

theorem literal_congr (h : Agrees a b) (value : Literal) : literal b value = literal a value := by
  have hvalue := h.grounded.literals value
  cases value <;> exact makeConstant_congr h hvalue _ _

theorem linkCode_congr (h : Agrees a b) (hsite : ∀ t ∈ site.instanceType, a.types.Has t)
    (args : Fragment) {f : LinkFinding} (hf : a.types.HasAll f.mentions) :
    linkCode b site args f = linkCode a site args f := by
  cases f with
  | load x access =>
    obtain ⟨hx, haccess⟩ := List.forall_mem_append.mp hf
    exact load_congr h hsite (hx _ List.mem_cons_self) haccess
  | typeName type => rfl
  | construct type =>
    rw [linkCode, linkCode, defaultValue_congr h (hf type List.mem_cons_self)]
  | field owner x =>
    rw [linkCode, linkCode, readMember_congr h (hf owner List.mem_cons_self)
      (hf x.type (List.mem_cons_of_mem _ List.mem_cons_self))]
  | call owner routine callee =>
    obtain ⟨ho, hrest⟩ := List.forall_mem_cons.mp hf
    obtain ⟨hroutine, hcallee⟩ := List.forall_mem_append.mp hrest
    cases callee with
    | binding x access =>
      obtain ⟨hx, haccess⟩ := List.forall_mem_append.mp hcallee
      rw [linkCode, linkCode, load_congr h hsite (hx _ List.mem_cons_self) haccess,
        callRoutine_congr h ho hroutine]
    | member isStatic => exact callRoutine_congr h ho hroutine isStatic args
    | fieldValue x isStatic =>
      obtain ⟨hx, howner⟩ := List.forall_mem_cons.mp hcallee
      rw [linkCode, linkCode]
      cases hi : x.owner with
      | none => rfl
      | some fieldOwner =>
        dsimp only
        rw [readMember_congr h (howner fieldOwner (Option.mem_toList.mpr hi)) hx,
          callRoutine_congr h ho hroutine]

theorem linkAt_congr (h : Agrees a b) (hsite : ∀ t ∈ site.instanceType, a.types.Has t)
    (hn : a.findings.AlikeAt b.findings n) (args : Fragment) :
    linkAt b site n args = linkAt a site n args := by
  have hlink : b.findings.links.find? n = a.findings.links.find? n := hn .links
  rw [linkAt, linkAt, hlink]
  cases hf : a.findings.links.find? n with
  | none => rfl
  | some f => exact linkCode_congr h hsite args (h.grounded.link hf)

end Expressions

mutual

/-- The code of an expression. -/
theorem expr_congr (h : Agrees a b) (hsite : ∀ t ∈ site.instanceType, a.types.Has t) :
    (e : Expr) → (∀ y ∈ e.parts, a.findings.AlikeAt b.findings y.node) →
      expr b site e = expr a site e
  | .literal _ value _, _ => by rw [expr, expr, literal_congr h]
  | .binary node op left right span, hn => by
    rw [Expr.parts, List.forall_mem_cons, List.forall_mem_append] at hn
    obtain ⟨hn, hl, hr⟩ := hn
    have hop : b.findings.operators.find? node = a.findings.operators.find? node := hn .operators
    rw [expr, expr, hop]
    cases hf : a.findings.operators.find? node with
    | none => rfl
    | some c =>
      obtain ⟨howner, hroutine⟩ := List.forall_mem_cons.mp (h.grounded.operator hf)
      dsimp only
      rw [expr_congr h hsite left hl, expr_congr h hsite right hr,
        callRoutine_congr h howner hroutine]
  | .unary node op operand span, hn => by
    rw [Expr.parts, List.forall_mem_cons] at hn
    obtain ⟨hn, ho⟩ := hn
    have hop : b.findings.operators.find? node = a.findings.operators.find? node := hn .operators
    rw [expr, expr, hop]
    cases hf : a.findings.operators.find? node with
    | none => rfl
    | some c =>
      obtain ⟨howner, hroutine⟩ := List.forall_mem_cons.mp (h.grounded.operator hf)
      dsimp only
      rw [expr_congr h hsite operand ho, callRoutine_congr h howner hroutine]
  | .paren node inner span, hn => by
    rw [Expr.parts, List.forall_mem_cons] at hn
    rw [expr, expr, expr_congr h hsite inner hn.2]
  | .chain c, hn => by
    rw [Expr.parts, List.forall_mem_cons] at hn
    rw [expr, expr, chain_congr h hsite c hn.2]

theorem chain_congr (h : Agrees a b) (hsite : ∀ t ∈ site.instanceType, a.types.Has t) :
    (c : Chain) → (∀ y ∈ c.linkParts, a.findings.AlikeAt b.findings y.node) →
      chain b site c = chain a site c
  | ⟨_, ls, _⟩, hn => by rw [chain, chain, links_congr h hsite ls hn]

theorem link_congr (h : Agrees a b) (hsite : ∀ t ∈ site.instanceType, a.types.Has t) :
    (l : Link) → (∀ y ∈ l.parts, a.findings.AlikeAt b.findings y.node) →
      link b site l = link a site l
  | .bare node name span, hn => by
    rw [link, link, linkAt_congr h hsite (n := node) (hn _ List.mem_cons_self)]
  | .call node name args span, hn => by
    rw [Link.parts, List.forall_mem_cons] at hn
    rw [link, link, exprs_congr h hsite args hn.2, linkAt_congr h hsite (n := node) hn.1]

theorem links_congr (h : Agrees a b) (hsite : ∀ t ∈ site.instanceType, a.types.Has t) :
    (ls : List Link) → (∀ y ∈ Link.allParts ls, a.findings.AlikeAt b.findings y.node) →
      links b site ls = links a site ls
  | [], _ => by rw [links, links]
  | l :: ls, hn => by
    rw [Link.allParts, List.forall_mem_append] at hn
    rw [links, links, link_congr h hsite l hn.1, links_congr h hsite ls hn.2]

theorem exprs_congr (h : Agrees a b) (hsite : ∀ t ∈ site.instanceType, a.types.Has t) :
    (es : List Expr) → (∀ y ∈ Expr.allParts es, a.findings.AlikeAt b.findings y.node) →
      exprs b site es = exprs a site es
  | [], _ => by rw [exprs, exprs]
  | e :: es, hn => by
    rw [Expr.allParts, List.forall_mem_append] at hn
    rw [exprs, exprs, expr_congr h hsite e hn.1, exprs_congr h hsite es hn.2]

end

/-! ## Declarations -/

section Declarations

variable {type : TypeId} {s : Signature} {bs : List Binding}

theorem copyInto_congr (h : Agrees a b) (ht : a.types.Has type) (hs : a.types.HasAll s.mentions)
    (value : Fragment) (p : Place) : copyInto b type s value p = copyInto a type s value p := by
  rw [copyInto, copyInto, defaultValue_congr h ht, callRoutine_congr h ht hs]

theorem initPlaces_congr (h : Agrees a b) (ht : a.types.Has type) {mode : WriteMode}
    (hm : a.types.HasAll mode.mentions) (value : Fragment) (ps : List Place) :
    initPlaces b type mode value ps = initPlaces a type mode value ps := by
  cases ps with
  | nil => rfl
  | cons first rest =>
    cases mode with
    | store => rfl
    | copy routine =>
      rw [initPlaces, initPlaces, copyInto_congr h ht hm,
        List.map_congr_left fun p _ => copyInto_congr h ht hm _ p]

theorem declareSlots_congr (h : Agrees a b) (hbs : a.types.HasAll (bs.flatMap Binding.mentions)) :
    declareSlots b bs = declareSlots a bs := by
  induction bs with
  | nil => rfl
  | cons x bs ih =>
    obtain ⟨hx, hbs⟩ := List.forall_mem_append.mp hbs
    rw [declareSlots, declareSlots, ih hbs, defaultValue_congr h (hx _ List.mem_cons_self)]

theorem varDecl_congr (h : Agrees a b) {d : VarDecl} (hn : a.findings.AlikeAt b.findings d.node) :
    varDecl b d = varDecl a d := by
  have hdecl : b.findings.decls.find? d.node = a.findings.decls.find? d.node := hn .decls
  rw [varDecl, varDecl, hdecl]
  cases hf : a.findings.decls.find? d.node with
  | none => rfl
  | some f =>
    have hall := (List.forall_mem_cons.mp (h.grounded.decl hf)).2
    exact declareSlots_congr h (List.forall_mem_append.mp hall).1

/-- The type and the mode of a declaration with an initial value. -/
theorem hasAll_mode (h : Agrees a b) {n : NodeId} {mode : WriteMode}
    (hf : a.findings.decls.find? n = some { type, bindings := bs, mode := some mode }) :
    a.types.Has type ∧ a.types.HasAll (bs.flatMap Binding.mentions) ∧
      a.types.HasAll mode.mentions := by
  obtain ⟨htype, hall⟩ := List.forall_mem_cons.mp (h.grounded.decl hf)
  obtain ⟨hbs, hmode⟩ := List.forall_mem_append.mp hall
  exact ⟨htype, hbs, fun t ht => hmode t (List.mem_flatMap.mpr ⟨mode, List.mem_singleton_self _, ht⟩)⟩

theorem initDecl_congr (h : Agrees a b) (hsite : ∀ t ∈ site.instanceType, a.types.Has t)
    {d : InitDecl} (hn : a.findings.AlikeAt b.findings d.node)
    (hvalue : ∀ y ∈ d.value.parts, a.findings.AlikeAt b.findings y.node) :
    initDecl b site d = initDecl a site d := by
  have hdecl : b.findings.decls.find? d.node = a.findings.decls.find? d.node := hn .decls
  rw [initDecl, initDecl, hdecl]
  cases hf : a.findings.decls.find? d.node with
  | none => rfl
  | some f =>
    obtain ⟨type, bs, mode⟩ := f
    cases mode with
    | none => rfl
    | some mode =>
      obtain ⟨htype, -, hmode⟩ := hasAll_mode h hf
      dsimp only
      rw [expr_congr h hsite d.value hvalue, initPlaces_congr h htype hmode]

theorem staticField_congr (h : Agrees a b) (hsite : ∀ t ∈ site.instanceType, a.types.Has t)
    {f : StaticField} (hn : ∀ y ∈ f.parts, a.findings.AlikeAt b.findings y.node) :
    staticField b site f = staticField a site f := by
  rw [StaticField.parts, List.forall_mem_cons] at hn
  obtain ⟨hn, hvalue⟩ := hn
  have hdecl : b.findings.decls.find? f.decl.node = a.findings.decls.find? f.decl.node := hn .decls
  rw [staticField, staticField, hdecl]
  cases hf : a.findings.decls.find? f.decl.node with
  | none => rfl
  | some finding =>
    obtain ⟨type, bs, mode⟩ := finding
    cases mode with
    | none => rfl
    | some mode =>
      obtain ⟨htype, hbs, hmode⟩ := hasAll_mode h hf
      dsimp only
      rw [expr_congr h hsite f.init hvalue, initPlaces_congr h htype hmode,
        List.map_congr_left fun x hx => by
          rw [capturedField_congr h (hbs _ (List.mem_flatMap.mpr ⟨x, hx, List.mem_cons_self⟩))]]

/-! ## Assignments -/

theorem receiver_congr (h : Agrees a b) (hsite : ∀ t ∈ site.instanceType, a.types.Has t)
    {c : Chain} (hn : ∀ y ∈ c.linkParts, a.findings.AlikeAt b.findings y.node) :
    receiver b site c = receiver a site c := by
  obtain ⟨node, ls, span⟩ := c
  exact links_congr h hsite _ fun y hy => hn y (allParts_dropLast_subset ls hy)

theorem storeTarget_congr (h : Agrees a b) (hsite : ∀ t ∈ site.instanceType, a.types.Has t)
    {c : Chain} (hn : ∀ y ∈ c.linkParts, a.findings.AlikeAt b.findings y.node) (value : Fragment) :
    storeTarget b site c value = storeTarget a site c value := by
  rw [storeTarget, storeTarget]
  cases hl : c.last? with
  | none => rfl
  | some l =>
    have hlink : b.findings.links.find? l.node = a.findings.links.find? l.node :=
      hn _ (link_mem_of_last? hl) .links
    rw [Option.bind_some, Option.bind_some, hlink]
    cases hf : a.findings.links.find? l.node with
    | none => rfl
    | some f =>
      have hall := h.grounded.link hf
      cases f with
      | load x access =>
        obtain ⟨hx, haccess⟩ := List.forall_mem_append.mp hall
        dsimp only
        rw [beforeStore_congr h hsite, store_congr h hsite (hx _ List.mem_cons_self) haccess]
      | field owner x =>
        obtain ⟨howner, hx⟩ := List.forall_mem_cons.mp hall
        dsimp only
        rw [memberField_congr h howner (hx _ List.mem_cons_self), receiver_congr h hsite hn]
      | typeName _ | construct _ | call _ _ _ => rfl

theorem assign_congr (h : Agrees a b) (hsite : ∀ t ∈ site.instanceType, a.types.Has t)
    {x : Assignment} (hn : a.findings.AlikeAt b.findings x.node)
    (htarget : ∀ y ∈ x.target.parts, a.findings.AlikeAt b.findings y.node)
    (hvalue : ∀ y ∈ x.value.parts, a.findings.AlikeAt b.findings y.node) :
    assign b site x = assign a site x := by
  have hassign : b.findings.assigns.find? x.node = a.findings.assigns.find? x.node := hn .assigns
  have hlinks := fun y hy => htarget y (List.mem_cons_of_mem _ hy)
  rw [assign, assign, hassign]
  cases hf : a.findings.assigns.find? x.node with
  | none => rfl
  | some f =>
    obtain ⟨target, mode⟩ := f
    obtain ⟨ht, hmode⟩ := List.forall_mem_cons.mp (h.grounded.assign hf)
    cases mode with
    | copy routine =>
      dsimp only
      rw [chain_congr h hsite x.target hlinks, expr_congr h hsite x.value hvalue,
        callRoutine_congr h ht hmode]
    | store =>
      dsimp only
      rw [expr_congr h hsite x.value hvalue, storeTarget_congr h hsite hlinks]

theorem callStmt_congr (h : Agrees a b) (hsite : ∀ t ∈ site.instanceType, a.types.Has t)
    {c : Chain} (hn : ∀ y ∈ c.parts, a.findings.AlikeAt b.findings y.node) :
    callStmt b site c = callStmt a site c := by
  rw [Chain.parts, List.forall_mem_cons] at hn
  have hchain : b.findings.chains.find? c.node = a.findings.chains.find? c.node := hn.1 .chains
  rw [callStmt, callStmt, hchain, chain_congr h hsite c hn.2]

theorem jumpUnless_congr (h : Agrees a b) (hsite : ∀ t ∈ site.instanceType, a.types.Has t)
    {condition : Expr} (hn : ∀ y ∈ condition.parts, a.findings.AlikeAt b.findings y.node)
    (target : Label) : jumpUnless b site condition target = jumpUnless a site condition target := by
  have hbool : a.types.Has .bool := h.grounded.literals (.bool true)
  rw [jumpUnless, jumpUnless, expr_congr h hsite condition hn, h.path hbool]

end Declarations

/-! ## Classes -/

section Classes

variable {f : RoutineFinding} {t : TypeFinding} {rs ss : List RoutineFinding}

theorem routineSite_congr (h : Agrees a b) (hf : f ∈ a.findings.routines.map Prod.snd) :
    routineSite b f = routineSite a f := by
  rw [routineSite, routineSite, h.paths f hf]

/-- The instance that a routine belongs to is of a type that is there. -/
theorem has_routineSite (h : Agrees a b) (hf : f ∈ a.findings.routines.map Prod.snd) :
    ∀ t ∈ (routineSite a f).instanceType, a.types.Has t := fun _ ht =>
  h.grounded.routine hf _ (mentions_enclosingType ht)

theorem routineEnd_congr (h : Agrees a b) (hf : f ∈ a.findings.routines.map Prod.snd)
    {ret : Option ReturnClause}
    (hn : ∀ y ∈ ReturnClause.optParts ret, a.findings.AlikeAt b.findings y.node) :
    routineEnd b f ret = routineEnd a f ret := by
  cases ret with
  | none => rfl
  | some ret => rw [routineEnd, routineEnd, routineSite_congr h hf,
      expr_congr h (has_routineSite h hf) ret.value hn]

theorem localVars_congr (h : Agrees a b) {s : ScopeId}
    (hs : b.scopes.methodLocals s = a.scopes.methodLocals s) : localVars b s = localVars a s := by
  rw [localVars, localVars, hs]
  refine List.filterMap_congr fun x hx => ?_
  obtain ⟨j, -, -, hentry, -⟩ := Scopes.mem_methodLocals.mp hx
  rw [h.descriptor (h.grounded.scopes j x.type (Scope.entries_mentions hentry List.mem_cons_self))]

theorem routineClass_congr (h : Agrees a b) (hf : f ∈ a.findings.routines.map Prod.snd)
    (code : List Instruction) : routineClass b f code = routineClass a f code := by
  have hall := h.grounded.routine hf
  rw [routineClass, routineClass, h.paths f hf, h.base, routineFields_congr h hall,
    descriptorOf_congr h fun t ht => hall t (mentions_signature f ht),
    localVars_congr h (h.locals f hf), h.slots f hf]

theorem constructorSite_congr (h : Agrees a b) (ht : a.types.HasAll t.mentions) :
    constructorSite b t = constructorSite a t := by
  rw [constructorSite, constructorSite, h.path (ht t.type List.mem_cons_self)]

/-- The two methods of a type's class belong to no instance. -/
theorem has_staticSite : ∀ u ∈ (staticSite a t).instanceType, a.types.Has u := fun _ hu =>
  absurd hu (Option.not_mem_none _)

theorem has_constructorSite : ∀ u ∈ (constructorSite a t).instanceType, a.types.Has u :=
  fun _ hu => absurd hu (Option.not_mem_none _)

theorem staticSite_congr (h : Agrees a b) (ht : a.types.HasAll t.mentions) :
    staticSite b t = staticSite a t := by
  rw [staticSite, staticSite, h.path (ht t.type List.mem_cons_self)]

/-- The fields of a type that is there have types that are there. -/
theorem has_field (h : Agrees a b) {type : TypeId} (isStatic : Bool) {x : Binding}
    (hx : x ∈ (a.types.get type).fieldsOf isStatic) : a.types.Has x.type :=
  h.grounded.types type _ (TypeDecl.fields_mentions hx List.mem_cons_self)

theorem typeFields_congr (h : Agrees a b) (ht : a.types.HasAll t.mentions)
    (hrs : rs ⊆ a.findings.routines.map Prod.snd) (hss : ss ⊆ a.findings.routines.map Prod.snd) :
    typeFields b t rs ss = typeFields a t rs ss := by
  obtain ⟨htype, hcs⟩ := List.forall_mem_cons.mp ht
  have hroutine : ∀ f ∈ a.findings.routines.map Prod.snd, a.types.Has f.binding.type := fun f hf =>
    h.grounded.routine hf _ (mentions_binding f)
  simp only [typeFields, h.types t.type htype]
  refine congrArg₂ _ (congrArg₂ _ (congrArg₂ _ (congrArg₂ _ ?_ ?_) ?_) ?_) ?_
  all_goals refine List.map_congr_left fun x hx => ?_
  · rw [h.descriptor (has_field h false hx)]
  · rw [h.descriptor (hroutine x (hrs hx))]
  · rw [h.descriptor (has_field h true hx)]
  · rw [h.descriptor (hroutine x (hss hx))]
  · rw [h.descriptor (hcs x.type (type_mem_mentions hx))]

theorem defaultFields_congr (h : Agrees a b) (ht : a.types.HasAll t.mentions) :
    defaultFields b t = defaultFields a t := by
  have htype := ht t.type List.mem_cons_self
  rw [defaultFields, defaultFields, h.types t.type htype]
  have hfield : ∀ x ∈ (a.types.get t.type).fields, a.types.Has x.type := fun x hx =>
    has_field h false hx
  rw [List.filter_congr fun x hx => by rw [h.form (hfield x hx)]]
  refine List.flatMap_congr fun x hx => ?_
  have hx' := hfield x (List.mem_of_mem_filter hx)
  rw [defaultValue_congr h hx', memberField_congr h htype hx']

theorem bindRoutines_congr (h : Agrees a b) (ht : a.types.HasAll t.mentions)
    (hrs : rs ⊆ a.findings.routines.map Prod.snd) : bindRoutines b t rs = bindRoutines a t rs := by
  induction rs with
  | nil => rfl
  | cons f rs ih =>
    obtain ⟨hf, hrs⟩ := List.cons_subset.mp hrs
    have hfield := memberField_congr h (ht t.type List.mem_cons_self)
      (h.grounded.routine hf _ (mentions_binding f))
    rw [bindRoutines, bindRoutines, constructorSite_congr h ht, hfield,
      makeRoutine_congr h has_constructorSite hf, ih hrs]

theorem constructorCode_congr (h : Agrees a b) (ht : a.types.HasAll t.mentions)
    (hrs : rs ⊆ a.findings.routines.map Prod.snd) :
    constructorCode b t rs = constructorCode a t rs := by
  rw [constructorCode, constructorCode, defaultFields_congr h ht, bindRoutines_congr h ht hrs]

theorem storeCaptures_congr (h : Agrees a b) (path : String) {cs : List CaptureSource}
    (hcs : a.types.HasAll (cs.flatMap CaptureSource.mentions)) (slot : Nat) :
    storeCaptures b path slot cs = storeCaptures a path slot cs := by
  induction cs generalizing slot with
  | nil => rfl
  | cons c cs ih =>
    rw [List.flatMap_cons] at hcs
    obtain ⟨hc, hcs⟩ := List.forall_mem_append.mp hcs
    rw [storeCaptures, storeCaptures, h.descriptor (hc c.type List.mem_cons_self), ih hcs]

theorem makeStaticRoutines_congr (h : Agrees a b) (ht : a.types.HasAll t.mentions)
    (hrs : rs ⊆ a.findings.routines.map Prod.snd) :
    makeStaticRoutines b t rs = makeStaticRoutines a t rs := by
  induction rs with
  | nil => rfl
  | cons f rs ih =>
    obtain ⟨hf, hrs⟩ := List.cons_subset.mp hrs
    have hfield := memberField_congr h (ht t.type List.mem_cons_self)
      (h.grounded.routine hf _ (mentions_binding f))
    rw [makeStaticRoutines, makeStaticRoutines, staticSite_congr h ht, hfield,
      makeRoutine_congr h has_staticSite hf, ih hrs]

theorem staticFields_congr (h : Agrees a b) (ht : a.types.HasAll t.mentions)
    {fs : List StaticField}
    (hn : ∀ y ∈ fs.flatMap StaticField.parts, a.findings.AlikeAt b.findings y.node) :
    staticFields b t fs = staticFields a t fs := by
  induction fs with
  | nil => rfl
  | cons f fs ih =>
    rw [List.flatMap_cons, List.forall_mem_append] at hn
    rw [staticFields, staticFields, staticSite_congr h ht,
      staticField_congr h has_staticSite hn.1, ih hn.2]

theorem staticInitCode_congr (h : Agrees a b) (ht : a.types.HasAll t.mentions)
    (hrs : rs ⊆ a.findings.routines.map Prod.snd) {fs : List StaticField}
    (hn : ∀ y ∈ fs.flatMap StaticField.parts, a.findings.AlikeAt b.findings y.node) :
    staticInitCode b t rs fs = staticInitCode a t rs fs := by
  obtain ⟨htype, hcs⟩ := List.forall_mem_cons.mp ht
  rw [staticInitCode, staticInitCode, h.path htype, storeCaptures_congr h _ hcs,
    makeStaticRoutines_congr h ht hrs, staticFields_congr h ht hn]

theorem typeClass_congr (h : Agrees a b) (ht : a.types.HasAll t.mentions)
    (hrs : rs ⊆ a.findings.routines.map Prod.snd) (hss : ss ⊆ a.findings.routines.map Prod.snd)
    (constructor staticInit : List Instruction) :
    typeClass b t rs ss constructor staticInit = typeClass a t rs ss constructor staticInit := by
  obtain ⟨htype, hcs⟩ := List.forall_mem_cons.mp ht
  rw [typeClass, typeClass, h.path htype, typeFields_congr h ht hrs hss,
    captureDescriptors_congr h hcs]

end Classes

/-! ## Statements -/

theorem declaredRoutines_congr {rs : List RoutineDef}
    (hn : ∀ y ∈ RoutineDef.allParts rs, a.findings.AlikeAt b.findings y.node) :
    declaredRoutines b rs = declaredRoutines a rs :=
  List.filterMap_congr fun _ hr => hn (.routine _) (Analysis.routine_mem_allParts hr) .routines

theorem declaredRoutines_subset (a : Analysis) (rs : List RoutineDef) :
    declaredRoutines a rs ⊆ a.findings.routines.map Prod.snd := fun _ hf => by
  obtain ⟨r, -, hr⟩ := List.mem_filterMap.mp hf
  exact Analysis.Grounded.mem_of_find? hr

theorem bindRoutine_congr (h : Agrees a b) (hsite : ∀ t ∈ site.instanceType, a.types.Has t)
    {f : RoutineFinding} (hf : f ∈ a.findings.routines.map Prod.snd) :
    bindRoutine b site f = bindRoutine a site f := by
  rw [bindRoutine, bindRoutine, makeRoutine_congr h hsite hf]

theorem completeRoutine_congr (h : Agrees a b) {f : RoutineFinding}
    (hf : f ∈ a.findings.routines.map Prod.snd) {ret : Option ReturnClause}
    (hn : ∀ y ∈ ReturnClause.optParts ret, a.findings.AlikeAt b.findings y.node) :
    completeRoutine b f ret = completeRoutine a f ret := by
  funext body
  rw [completeRoutine, completeRoutine, routineEnd_congr h hf hn]
  simp only [routineClass_congr h hf]

theorem completeType_congr (h : Agrees a b) {t : TypeFinding} (ht : a.types.HasAll t.mentions)
    {rs ss : List RoutineFinding} (hrs : rs ⊆ a.findings.routines.map Prod.snd)
    (hss : ss ⊆ a.findings.routines.map Prod.snd) {fs : List StaticField}
    (hn : ∀ y ∈ fs.flatMap StaticField.parts, a.findings.AlikeAt b.findings y.node) :
    completeType b t rs ss fs = completeType a t rs ss fs := by
  rw [completeType, completeType, constructorCode_congr h ht hrs, staticInitCode_congr h ht hss hn]
  simp only [typeClass_congr h ht hrs hss]

mutual

/-- Statements about whose nodes the same is written are lowered to the same code. -/
theorem stmt_congr (h : Agrees a b) : (x : Stmt) →
    (∀ y ∈ x.parts, a.findings.AlikeAt b.findings y.node) → {site : Site} →
      (∀ t ∈ site.instanceType, a.types.Has t) → stmt b site x = stmt a site x
  | .declare d, hn, site, _ => by
    rw [stmt, stmt, varDecl_congr (d := d) h (hn _ List.mem_cons_self)]
  | .define d, hn, site, hs => by
    rw [Stmt.parts, List.forall_mem_cons] at hn
    rw [stmt, stmt, initDecl_congr (d := d) h hs hn.1 hn.2]
  | .assign x, hn, site, hs => by
    rw [Stmt.parts, List.forall_mem_cons, List.forall_mem_append] at hn
    rw [stmt, stmt, assign_congr (x := x) h hs hn.1 hn.2.1 hn.2.2]
  | .call c, hn, site, hs => by
    rw [Stmt.parts] at hn
    rw [stmt, stmt, callStmt_congr h hs hn]
  | .branch gs otherwise _, hn, site, hs => by
    rw [Stmt.parts, List.forall_mem_append] at hn
    rw [stmt, stmt, elseBlock_congr h otherwise hn.2 hs]
    simp only [branches_congr h gs hn.1 hs]
  | .loop g, hn, site, hs => by
    rw [Stmt.parts] at hn
    rw [stmt, stmt, loop_congr h g hn hs]
  | .routine r, hn, site, hs => by
    rw [Stmt.parts] at hn
    rw [stmt, stmt, routine_congr h r hn hs]
  | .type t, hn, site, hs => by
    rw [Stmt.parts] at hn
    rw [stmt, stmt, typeDef_congr h t hn hs]

theorem branch_congr (h : Agrees a b) {done : Label} : (g : Guarded) →
    (∀ y ∈ g.parts, a.findings.AlikeAt b.findings y.node) → {site : Site} →
      (∀ t ∈ site.instanceType, a.types.Has t) → branch b site done g = branch a site done g
  | ⟨node, condition, body, _⟩, hn, site, hs => by
    rw [Guarded.parts, List.forall_mem_cons, List.forall_mem_append] at hn
    rw [branch, branch, stmts_congr h body hn.2.2 hs]
    simp only [jumpUnless_congr h hs hn.2.1]

theorem loop_congr (h : Agrees a b) : (g : Guarded) →
    (∀ y ∈ g.parts, a.findings.AlikeAt b.findings y.node) → {site : Site} →
      (∀ t ∈ site.instanceType, a.types.Has t) → loop b site g = loop a site g
  | ⟨node, condition, body, _⟩, hn, site, hs => by
    rw [Guarded.parts, List.forall_mem_cons, List.forall_mem_append] at hn
    rw [loop, loop, stmts_congr h body hn.2.2 hs]
    simp only [jumpUnless_congr h hs hn.2.1]

theorem elseBlock_congr (h : Agrees a b) : (e : Else) →
    (∀ y ∈ e.parts, a.findings.AlikeAt b.findings y.node) → {site : Site} →
      (∀ t ∈ site.instanceType, a.types.Has t) → elseBlock b site e = elseBlock a site e
  | .absent, _, _, _ => by rw [elseBlock, elseBlock]
  | .block _ body _, hn, site, hs => by
    rw [Else.parts, List.forall_mem_cons] at hn
    rw [elseBlock, elseBlock, stmts_congr h body hn.2 hs]

theorem routine_congr (h : Agrees a b) : (r : RoutineDef) →
    (∀ y ∈ r.parts, a.findings.AlikeAt b.findings y.node) → {site : Site} →
      (∀ t ∈ site.instanceType, a.types.Has t) → routine b site r = routine a site r
  | ⟨node, name, closing, params, result, body, ret, span⟩, hn, site, hs => by
    rw [RoutineDef.parts, List.forall_mem_cons, List.forall_mem_append] at hn
    obtain ⟨hn, hbody, hret⟩ := hn
    have hroutine : b.findings.routines.find? node = a.findings.routines.find? node := hn .routines
    rw [routine, routine, hroutine]
    cases hfind : a.findings.routines.find? node with
    | none => rfl
    | some f =>
      have hf := Analysis.Grounded.mem_of_find? hfind
      dsimp only
      rw [routineSite_congr h hf, stmts_congr h body hbody (has_routineSite h hf),
        completeRoutine_congr h hf hret, bindRoutine_congr h hs hf]

theorem memberRoutine_congr (h : Agrees a b) : (r : RoutineDef) →
    (∀ y ∈ r.parts, a.findings.AlikeAt b.findings y.node) → memberRoutine b r = memberRoutine a r
  | ⟨node, name, closing, params, result, body, ret, span⟩, hn => by
    rw [RoutineDef.parts, List.forall_mem_cons, List.forall_mem_append] at hn
    obtain ⟨hn, hbody, hret⟩ := hn
    have hroutine : b.findings.routines.find? node = a.findings.routines.find? node := hn .routines
    rw [memberRoutine, memberRoutine, hroutine]
    cases hfind : a.findings.routines.find? node with
    | none => rfl
    | some f =>
      have hf := Analysis.Grounded.mem_of_find? hfind
      dsimp only
      rw [routineSite_congr h hf, stmts_congr h body hbody (has_routineSite h hf),
        completeRoutine_congr h hf hret]

theorem typeDef_congr (h : Agrees a b) : (t : TypeDef) →
    (∀ y ∈ t.parts, a.findings.AlikeAt b.findings y.node) → {site : Site} →
      (∀ t ∈ site.instanceType, a.types.Has t) → typeDef b site t = typeDef a site t
  | ⟨node, name, closing, fields, statics, routines, staticRoutines, span⟩, hn, site, hs => by
    rw [TypeDef.parts, List.forall_mem_cons, List.forall_mem_append, List.forall_mem_append,
      List.forall_mem_append] at hn
    obtain ⟨hn, ⟨⟨-, hstatics⟩, hroutines⟩, hothers⟩ := hn
    have htype : b.findings.types.find? node = a.findings.types.find? node := hn .types
    rw [typeDef, typeDef, htype]
    cases hfind : a.findings.types.find? node with
    | none => rfl
    | some t =>
      have ht := h.grounded.type hfind
      dsimp only
      rw [declaredRoutines_congr hroutines, declaredRoutines_congr hothers,
        memberRoutines_congr h routines hroutines, memberRoutines_congr h staticRoutines hothers,
        completeType_congr h ht (declaredRoutines_subset a _) (declaredRoutines_subset a _) hstatics,
        initType_congr h hs ht]

theorem stmts_congr (h : Agrees a b) : (xs : List Stmt) →
    (∀ y ∈ Stmt.allParts xs, a.findings.AlikeAt b.findings y.node) → {site : Site} →
      (∀ t ∈ site.instanceType, a.types.Has t) → stmts b site xs = stmts a site xs
  | [], _, _, _ => by rw [stmts, stmts]
  | x :: xs, hn, site, hs => by
    rw [Stmt.allParts, List.forall_mem_append] at hn
    rw [stmts, stmts, stmt_congr h x hn.1 hs, stmts_congr h xs hn.2 hs]

theorem branches_congr (h : Agrees a b) {done : Label} : (gs : List Guarded) →
    (∀ y ∈ Guarded.allParts gs, a.findings.AlikeAt b.findings y.node) → {site : Site} →
      (∀ t ∈ site.instanceType, a.types.Has t) → branches b site done gs = branches a site done gs
  | [], _, _, _ => by rw [branches, branches]
  | g :: gs, hn, site, hs => by
    rw [Guarded.allParts, List.forall_mem_append] at hn
    rw [branches, branches, branch_congr h g hn.1 hs, branches_congr h gs hn.2 hs]

theorem memberRoutines_congr (h : Agrees a b) : (rs : List RoutineDef) →
    (∀ y ∈ RoutineDef.allParts rs, a.findings.AlikeAt b.findings y.node) →
      memberRoutines b rs = memberRoutines a rs
  | [], _ => by rw [memberRoutines, memberRoutines]
  | r :: rs, hn => by
    rw [RoutineDef.allParts, List.forall_mem_append] at hn
    rw [memberRoutines, memberRoutines, memberRoutine_congr h r hn.1, memberRoutines_congr h rs hn.2]

end

end Lowering

end Unnest
