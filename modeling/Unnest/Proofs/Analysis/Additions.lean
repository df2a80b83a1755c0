import Unnest.Proofs.Analysis.Rules

/-!
# What a part of the analysis declares

A part of the analysis grows the entries of scopes, and most parts do not even do that:
they look things up, record what they found and report what is wrong.  `Adds new a b`
says exactly which bindings every scope got between two states, and that no name of a
type, no user type and no field was added.  A part that adds nothing is `Quiet`.

Expressions are quiet (`quiet_expr`), and so is everything that decides about names and
types before they are declared.
-/

namespace Unnest

namespace TypeTable

variable {t t' t'' : TypeTable} {id : TypeId}

/-- No user type and no field is added. -/
structure SameData (t t' : TypeTable) : Prop extends Extends t t' where
  data : ∀ id isStatic, (t'.get id).fieldsOf isStatic = (t.get id).fieldsOf isStatic
  users : ∀ id, t'.form id = .user → t.form id = .user

theorem SameData.refl (t : TypeTable) : SameData t t := ⟨.refl t, fun _ _ => rfl, fun _ h => h⟩

theorem SameData.trans (h : SameData t t') (h' : SameData t' t'') : SameData t t'' :=
  ⟨h.toExtends.trans h'.toExtends, fun id b => (h'.data id b).trans (h.data id b),
    fun id hid => h.users id (h'.users id hid)⟩

theorem sameData_ofSignatures (t : TypeTable) (signatures : List Signature) :
    SameData t (t.add (.ofSignatures signatures)).2 := by
  refine ⟨extends_add t _, fun id isStatic => ?_, fun id hid => ?_⟩
  · by_cases hnew : id = (t.add (.ofSignatures signatures)).1
    · have hold : ¬ t.Has id := by
        rw [hnew]
        exact Nat.lt_irrefl _
      rw [get_of_not_has hold, hnew, get_add_new, fieldsOf_ofSignatures]
      cases isStatic <;> rfl
    · by_cases hhas : t.Has id
      · rw [get_add_old _ hhas]
      · rw [get_of_not_has hhas, get_of_not_has (not_has_add hnew hhas)]
  · by_cases hnew : id = (t.add (.ofSignatures signatures)).1
    · rw [form, hnew, get_add_new] at hid
      exact absurd hid (by simp [TypeDecl.ofSignatures])
    · by_cases hhas : t.Has id
      · rwa [form, get_add_old _ hhas] at hid
      · rw [form, get_of_not_has (not_has_add hnew hhas)] at hid
        exact absurd hid (by decide)

theorem sameData_memberRoutine (t : TypeTable) (owner : TypeId) (isStatic : Bool) (name : String) :
    SameData t (t.memberRoutine owner isStatic name).2 := by
  rcases memberRoutine_cases t owner isStatic name with h | ⟨signatures, memberTypes, -, h⟩
  · rw [h]
    exact .refl t
  · have hadd := sameData_ofSignatures t signatures
    rw [h]
    exact ⟨⟨hadd.size_le, hadd.base, hadd.form, hadd.routines, hadd.fields⟩, hadd.data, hadd.users⟩

/-- A change of a type that leaves its form and its fields. -/
theorem sameData_update {f : TypeDecl → TypeDecl} (hx : Extends t (t.update id f))
    (hform : ∀ d, (f d).form = d.form)
    (hfields : ∀ d isStatic, (f d).fieldsOf isStatic = d.fieldsOf isStatic) :
    SameData t (t.update id f) := by
  refine ⟨hx, fun other isStatic => ?_, fun other hother => ?_⟩ <;> by_cases heq : id = other
  · subst heq
    by_cases hhas : t.Has id
    · rw [get_update_self hhas, hfields]
    · rw [get_of_not_has hhas, get_of_not_has (has_update.not.mpr hhas)]
  · rw [get_update_of_ne heq]
  · subst heq
    by_cases hhas : t.Has id
    · rwa [form, get_update_self hhas, hform] at hother
    · rw [form, get_of_not_has (has_update.not.mpr hhas)] at hother
      exact absurd hother (by decide)
  · rwa [form, get_update_of_ne heq] at hother

theorem sameData_setPath (t : TypeTable) (id : TypeId) (path : String) :
    SameData t (t.setPath id path) :=
  sameData_update (extends_update (fun _ => rfl) (fun d b => by cases b <;> exact List.prefix_refl _)
    fun d b => by cases b <;> exact List.prefix_refl _) (fun _ => rfl) fun d b => by cases b <;> rfl

theorem sameData_addRoutine (t : TypeTable) (id : TypeId) (isStatic : Bool) (s : Signature) :
    SameData t (t.update id fun d => d.addRoutine isStatic s) := by
  have hform : ∀ d : TypeDecl, (d.addRoutine isStatic s).form = d.form := fun d => by
    cases isStatic <;> rfl
  refine sameData_update (extends_update hform (fun d b => ?_) fun d b => ?_) hform fun d b =>
    d.fieldsOf_addRoutine isStatic b s
  · rw [TypeDecl.routinesOf_addRoutine]
    exact List.prefix_append _ _
  · rw [TypeDecl.fieldsOf_addRoutine]

end TypeTable

namespace Analysis

variable {a b c : Analysis} {new new' : ScopeId → List Binding} {s : ScopeId}

/-- Every scope gets the bindings that `new` has for it.  No name of a type, no user
type and no field is added, and no definition of a type and no error is forgotten. -/
structure Adds (new : ScopeId → List Binding) (a b : Analysis) : Prop where
  current : b.current = a.current
  scopes : a.scopes.Extends b.scopes
  entries : ∀ s, (b.scopes.get s).entries = (a.scopes.get s).entries ++ new s
  named : ∀ s, (b.scopes.get s).types = (a.scopes.get s).types
  types : a.types.SameData b.types
  recorded : a.findings.types ⊆ b.findings.types
  errors : a.errors <+: b.errors

/-- No scope gets a binding. -/
abbrev nothing : ScopeId → List Binding := fun _ => []

/-- One scope gets bindings. -/
def only (s : ScopeId) (bs : List Binding) : ScopeId → List Binding :=
  fun x => if x = s then bs else []

@[simp] theorem only_self (s : ScopeId) (bs : List Binding) : only s bs s = bs := if_pos rfl

theorem only_nil (s : ScopeId) : only s [] = nothing := by
  funext x
  rw [only, ite_self]

theorem only_append (s : ScopeId) (bs cs : List Binding) :
    (fun x => only s bs x ++ only s cs x) = only s (bs ++ cs) := by
  funext x
  by_cases hx : x = s <;> simp [only, hx]

namespace Adds

theorem refl (a : Analysis) : Adds nothing a a :=
  ⟨rfl, .refl _, fun _ => (List.append_nil _).symm, fun _ => rfl, .refl _, List.Subset.refl _,
    List.prefix_refl _⟩

theorem trans (h : Adds new a b) (h' : Adds new' b c) : Adds (fun x => new x ++ new' x) a c where
  current := h'.current.trans h.current
  scopes := h.scopes.trans h'.scopes
  entries x := by rw [h'.entries, h.entries, List.append_assoc]
  named x := (h'.named x).trans (h.named x)
  types := h.types.trans h'.types
  recorded := List.Subset.trans h.recorded h'.recorded
  errors := h.errors.trans h'.errors

/-- Nothing happens before. -/
theorem after (h : Adds nothing a b) (h' : Adds new b c) : Adds new a c := h.trans h'

/-- Nothing happens afterwards. -/
theorem andNothing (h : Adds new a b) (h' : Adds nothing b c) : Adds new a c := by
  have htrans := h.trans h'
  simp only [List.append_nil] at htrans
  exact htrans

/-- One scope gets bindings twice. -/
theorem andOnly {bs cs : List Binding} (h : Adds (only s bs) a b) (h' : Adds (only s cs) b c) :
    Adds (only s (bs ++ cs)) a c := by
  rw [← only_append]
  exact h.trans h'

/-- Scopes and types stay as they are. -/
theorem of_eq (hc : b.current = a.current) (hs : b.scopes = a.scopes) (ht : b.types = a.types)
    (hr : a.findings.types ⊆ b.findings.types) (he : a.errors <+: b.errors) :
    Adds nothing a b := by
  refine ⟨hc, ?_, fun x => ?_, fun x => ?_, ?_, hr, he⟩
  · rw [hs]
    exact .refl _
  · rw [hs, List.append_nil]
  · rw [hs]
  · rw [ht]
    exact .refl _

end Adds

/-- A scope is opened, or changes in what is counted there. -/
theorem adds_of_agrees {t : Scopes} (hx : a.scopes.Extends t)
    (hold : ∀ x, a.scopes.Has x → (t.get x).entries = (a.scopes.get x).entries ∧
      (t.get x).types = (a.scopes.get x).types)
    (hnew : ∀ x, ¬ a.scopes.Has x → (t.get x).entries = [] ∧ (t.get x).types = []) :
    Adds nothing a { a with scopes := t } := by
  refine ⟨rfl, hx, fun x => ?_, fun x => ?_, .refl _, List.Subset.refl _, List.prefix_refl _⟩ <;>
    by_cases hxh : a.scopes.Has x
  · rw [(hold x hxh).1, List.append_nil]
  · rw [(hnew x hxh).1, Scopes.get_of_not_has hxh]
    rfl
  · rw [(hold x hxh).2]
  · rw [(hnew x hxh).2, Scopes.get_of_not_has hxh]
    rfl

theorem adds_types {t : TypeTable} (h : a.types.SameData t) : Adds nothing a { a with types := t } :=
  ⟨rfl, .refl _, fun _ => (List.append_nil _).symm, fun _ => rfl, h, List.Subset.refl _,
    List.prefix_refl _⟩

theorem adds_openMember (a : Analysis) (parent : ScopeId) (kind : ScopeKind) (name : String)
    (unit : UnitId) (memberOf : Option TypeId) (isStatic : Bool) : Adds nothing a { a with
      scopes := a.scopes.openMember parent kind name unit memberOf isStatic } := by
  refine adds_of_agrees (Scopes.extends_openMember ..) (fun x hx => ?_) fun x hx => ?_
  · have hold := Scopes.agrees_openMember_old a.scopes parent kind name unit memberOf isStatic hx
    exact ⟨hold.entries, hold.types⟩
  · by_cases hxh : (a.scopes.openMember parent kind name unit memberOf isStatic).Has x
    · obtain rfl := Scopes.eq_of_has_openMember hxh hx
      have hnew := Scopes.agrees_openMember_new a.scopes parent kind name unit memberOf isStatic
      exact ⟨hnew.entries, hnew.types⟩
    · rw [Scopes.get_of_not_has hxh]
      exact ⟨rfl, rfl⟩

/-! ## Quiet parts -/

/-- A part of the analysis that declares nothing. -/
def Quiet {α : Type} (m : Analyze α) : Prop := ∀ a, Adds nothing a (m.run a).2

open Analyze

variable {α β : Type}

namespace Quiet

variable {m : Analyze α} {f : α → Analyze β}

theorem pure (x : α) : Quiet (pure x : Analyze α) := .refl

theorem bind (hm : Quiet m) (hf : ∀ x, Quiet (f x)) : Quiet (m >>= f) := fun a =>
  (hm a).trans (hf (m.run a).1 (m.run a).2)

theorem get {f : Analysis → Analyze β} (hf : ∀ a, Quiet (f a)) : Quiet (get >>= f) :=
  fun a => hf a a

end Quiet

theorem quiet_reportError (e : SemanticError) : Quiet (reportError e) := fun a =>
  .of_eq rfl rfl rfl (List.Subset.refl _) (List.prefix_append a.errors [e])

theorem quiet_report (fault : Fault) (span : Span) : Quiet (report fault span) :=
  quiet_reportError _

theorem quiet_reject (fault : Fault) (span : Span) (x : α) :
    Quiet (report fault span >>= fun _ => pure x) :=
  (quiet_report fault span).bind fun _ => .pure x

/-- Findings are added.  What the step says about types is kept. -/
theorem quiet_record {f : Findings → Findings} (h : ∀ x, x.types ⊆ (f x).types) :
    Quiet (record f) := fun a => .of_eq rfl rfl rfl (h a.findings) (List.prefix_refl _)

/-- Findings are added, and none of a type. -/
theorem quiet_note {f : Findings → Findings} (h : ∀ x, (f x).types = x.types) :
    Quiet (record f) := quiet_record fun x => h x ▸ List.Subset.refl _

theorem quiet_types : Quiet Analyze.types := .refl

theorem quiet_currentScope : Quiet currentScope := .refl

theorem quiet_typeName (type : TypeId) : Quiet (typeName type) := .refl

theorem quiet_resolveType (name : String) : Quiet (resolveType name) := .refl

theorem quiet_planUnit (name : String) (kind : UnitKind) (ownerType : Option TypeId) :
    Quiet (planUnit name kind ownerType) := fun _ =>
  .of_eq rfl rfl rfl (List.Subset.refl _) (List.prefix_refl _)

theorem quiet_addRoutineType (params : List TypeId) (result : Option TypeId) :
    Quiet (addRoutineType params result) := fun a =>
  adds_types (TypeTable.sameData_ofSignatures a.types _)

theorem quiet_openScope (kind : ScopeKind) (name : String) (unit : UnitId) :
    Quiet (openScope kind name unit) := fun a => by
  have hopen := adds_openMember a a.current kind name unit none false
  rw [Scopes.openMember_none] at hopen
  exact hopen

theorem quiet_lookup (name : String) : Quiet (lookup name) := fun a => by
  rw [run_lookup]
  split
  · rename_i r hr
    have hsame := Scopes.sameNames_capture a.scopes a.current r.binding r.owner
    refine adds_of_agrees (Scopes.extends_capture ..)
      (fun x _ => ⟨(hsame x).entries, (hsame x).types⟩) fun x hx => ?_
    rw [(hsame x).entries, (hsame x).types, Scopes.get_of_not_has hx]
    exact ⟨rfl, rfl⟩
  · exact .refl a

/-! ### Links -/

section Links

variable {m : Analyze (Option TypeId)} {args : ArgumentTypes}

theorem quiet_recordLink (node : NodeId) (f : LinkFinding) : Quiet (recordLink node f) :=
  quiet_note fun _ => rfl

theorem quiet_recordCall (node : NodeId) (owner : TypeId) (routine : Signature) (callee : Callee) :
    Quiet (recordCall node owner routine callee) :=
  (quiet_recordLink _ _).bind fun _ => .pure _

theorem quiet_reportNoRoutine (name : String) (args : List TypeId) (owner : Option TypeId)
    (span : Span) : Quiet (reportNoRoutine name args owner span) :=
  quiet_types.bind fun _ => quiet_reject _ _ _

theorem quiet_bareHead (node : NodeId) (name : String) (span : Span) (hasMore : Bool) :
    Quiet (bareHead node name span hasMore) := by
  refine (quiet_lookup name).bind fun result => ?_
  cases result with
  | found r access => exact (quiet_recordLink _ _).bind fun _ => .pure _
  | hidden => exact quiet_reject _ _ _
  | missing =>
    refine (quiet_resolveType name).bind fun type => ?_
    cases type with
    | none => exact quiet_reject _ _ _
    | some type =>
      cases hasMore
      · exact quiet_reject _ _ _
      · exact (quiet_recordLink _ _).bind fun _ => .pure _

theorem quiet_callType (hargs : Quiet args) (node : NodeId) (type : TypeId) (span : Span) :
    Quiet (callType node type span args) := by
  refine hargs.bind fun ts => ?_
  cases ts with
  | none => exact .pure none
  | some ts =>
    refine quiet_types.bind fun t => ?_
    split
    · exact quiet_recordCall _ _ _ _
    · split
      · exact (quiet_recordLink _ _).bind fun _ => .pure _
      · exact quiet_reportNoRoutine _ _ _ _

theorem quiet_callHead (hargs : Quiet args) (node : NodeId) (name : String) (span : Span) :
    Quiet (callHead node name span args) := by
  refine (quiet_lookup name).bind fun result => ?_
  cases result with
  | found r access =>
    refine hargs.bind fun ts => ?_
    cases ts with
    | none => exact .pure none
    | some ts =>
      refine quiet_types.bind fun t => ?_
      split
      · exact quiet_recordCall _ _ _ _
      · exact quiet_reportNoRoutine _ _ _ _
  | hidden => exact quiet_reject _ _ _
  | missing =>
    refine (quiet_resolveType name).bind fun type => ?_
    cases type with
    | none => exact quiet_reject _ _ _
    | some type => exact quiet_callType hargs node type span

theorem quiet_bareMember (owner : TypeId) (isStatic : Bool) (node : NodeId) (name : String)
    (span : Span) : Quiet (bareMember owner isStatic node name span) := by
  have hread : Quiet (readMember owner isStatic name) := by
    refine quiet_types.bind fun t => ?_
    split
    · exact .pure _
    · exact fun a => adds_types (TypeTable.sameData_memberRoutine a.types owner isStatic name)
  refine hread.bind fun field => ?_
  cases field with
  | some field => exact (quiet_recordLink _ _).bind fun _ => .pure _
  | none =>
    refine (quiet_typeName owner).bind fun ownerName => ?_
    cases isStatic <;> exact quiet_reject _ _ _

theorem quiet_callMember (hargs : Quiet args) (owner : TypeId) (isStatic : Bool) (node : NodeId)
    (name : String) (span : Span) : Quiet (callMember owner isStatic node name span args) := by
  refine hargs.bind fun ts => ?_
  cases ts with
  | none => exact .pure none
  | some ts =>
    refine quiet_types.bind fun t => ?_
    split
    · exact quiet_recordCall _ _ _ _
    · split
      · exact quiet_recordCall _ _ _ _
      · exact quiet_reportNoRoutine _ _ _ _

theorem quiet_onReceiver {before : Produced} {span : Span}
    {link : TypeId → Bool → Analyze (Option Produced)} (h : ∀ owner isStatic, Quiet (link owner isStatic)) :
    Quiet (onReceiver before span link) := by
  rw [onReceiver]
  split
  · exact h _ _
  · exact quiet_reject _ _ _

theorem quiet_finishChain (node : NodeId) (span : Span) (last : Produced) :
    Quiet (finishChain node span last) := by
  cases last with
  | value type binding => exact (quiet_note fun _ => by rfl).bind fun _ => .pure _
  | nothing => exact (quiet_note fun _ => by rfl).bind fun _ => .pure _
  | typeName type => exact (quiet_typeName type).bind fun _ => quiet_reject _ _ _

theorem quiet_operator (node : NodeId) (name : String) (owner : TypeId) (isStatic : Bool)
    (args : List TypeId) (span : Span) : Quiet (operator node name owner isStatic args span) := by
  refine quiet_types.bind fun t => ?_
  split
  · exact (quiet_note fun _ => by rfl).bind fun _ => .pure _
  · exact quiet_reject _ _ _

theorem quiet_required (hm : Quiet m) (span : Span) : Quiet (required span m) := by
  refine .get fun a => hm.bind fun type => ?_
  cases type with
  | some type => exact .pure _
  | none =>
    refine .get fun b => ?_
    split
    · exact quiet_reject _ _ _
    · exact .pure _

theorem quiet_typed (hm : Quiet m) (node : NodeId) : Quiet (typed node m) := by
  refine hm.bind fun type => ?_
  cases type with
  | some type => exact (quiet_note fun _ => by rfl).bind fun _ => .pure _
  | none => exact .pure _

end Links

/-! ### Expressions -/

mutual

/-- Analysing an expression declares nothing. -/
theorem quiet_expr : (e : Expr) → Quiet (expr e)
  | .literal node value _ => quiet_typed (.pure _) node
  | .binary node op left right span => by
    refine quiet_typed ((quiet_required (quiet_expr left) _).bind fun l =>
      (quiet_required (quiet_expr right) _).bind fun r => ?_) node
    cases l with
    | none => exact .pure _
    | some l =>
      cases r with
      | none => exact .pure _
      | some r => exact quiet_operator _ _ _ _ _ _
  | .unary node op operand span => by
    refine quiet_typed ((quiet_required (quiet_expr operand) _).bind fun o => ?_) node
    cases o with
    | none => exact .pure _
    | some o => exact quiet_operator _ _ _ _ _ _
  | .paren node inner _ => quiet_typed (quiet_expr inner) node
  | .chain c => quiet_typed (quiet_chain c) c.node

theorem quiet_chain : (c : Chain) → Quiet (chain c)
  | ⟨_, [], _⟩ => .pure _
  | ⟨node, head :: rest, span⟩ => by
    refine (quiet_headLink (!rest.isEmpty) head).bind fun first => ?_
    cases first with
    | none => exact .pure _
    | some first =>
      refine (quiet_memberLinks first rest).bind fun last => ?_
      cases last with
      | none => exact .pure _
      | some last => exact quiet_finishChain node span last

theorem quiet_headLink (hasMore : Bool) : (l : Link) → Quiet (headLink hasMore l)
  | .bare node name span => quiet_bareHead node name.name span hasMore
  | .call node name args span => quiet_callHead (quiet_arguments args) node name.name span

theorem quiet_memberLink (before : Produced) : (l : Link) → Quiet (memberLink before l)
  | .bare node name span => quiet_onReceiver fun owner isStatic =>
      quiet_bareMember owner isStatic node name.name span
  | .call node name args span => quiet_onReceiver fun owner isStatic =>
      quiet_callMember (quiet_arguments args) owner isStatic node name.name span

theorem quiet_memberLinks (before : Produced) : (ls : List Link) → Quiet (memberLinks before ls)
  | [] => .pure _
  | l :: ls => by
    refine (quiet_memberLink before l).bind fun produced => ?_
    cases produced with
    | none => exact .pure _
    | some produced => exact quiet_memberLinks produced ls

theorem quiet_arguments : (es : List Expr) → Quiet (arguments es)
  | [] => .pure _
  | e :: es => (quiet_required (quiet_expr e) _).bind fun _ =>
      (quiet_arguments es).bind fun _ => .pure _

end

theorem quiet_operand (e : Expr) : Quiet (operand e) := quiet_required (quiet_expr e) e.span

/-! ### Decisions before a declaration -/

mutual

theorem quiet_resolve : (w : WrittenType) → Quiet (resolve w)
  | .named name => by
    refine (quiet_resolveType name.name).bind fun found => ?_
    cases found with
    | none => exact quiet_reject _ _ _
    | some type => exact .pure _
  | .routine params result _ => by
    refine (quiet_resolveAll params).bind fun ps => (quiet_resolveResult result).bind fun r => ?_
    cases ps with
    | none => exact .pure _
    | some ps =>
      cases r with
      | none => exact .pure _
      | some r => exact (quiet_addRoutineType ps r).bind fun _ => .pure _

theorem quiet_resolveAll : (ws : List WrittenType) → Quiet (resolveAll ws)
  | [] => .pure _
  | w :: ws => (quiet_resolve w).bind fun _ => (quiet_resolveAll ws).bind fun _ => .pure _

theorem quiet_resolveResult : (w : Option WrittenType) → Quiet (resolveResult w)
  | none => .pure _
  | some w => (quiet_resolve w).bind fun _ => .pure _

end

theorem quiet_refuseName (name : Ident) : Quiet (refuseName name) := by
  refine .get fun a => ?_
  split
  · exact quiet_reject _ _ _
  · split
    · exact quiet_reject _ _ _
    · exact .pure _

theorem quiet_refuseMember (member : Option Membership) (name : Ident) (args : List TypeId) :
    Quiet (refuseMember member name args) := by
  refine quiet_types.bind fun t => ?_
  cases member with
  | none => exact .pure _
  | some m =>
    dsimp only
    split
    · exact quiet_reject _ _ _
    · exact .pure _

theorem quiet_refuseType (name : Ident) : Quiet (refuseType name) := by
  refine .get fun a => ?_
  split
  · exact quiet_reject _ _ _
  · split
    · exact quiet_reject _ _ _
    · exact .pure _

theorem quiet_initialMode (target value : TypeId) (span : Span) :
    Quiet (initialMode target value span) := by
  refine quiet_types.bind fun t => ?_
  split
  · exact .pure _
  · exact quiet_reject _ _ _

theorem quiet_addMember (member : Option Membership) (s : Signature) :
    Quiet (addMember member s) := by
  cases member with
  | none => exact .pure _
  | some m => exact fun a => adds_types (TypeTable.sameData_addRoutine a.types m.type m.isStatic s)

theorem quiet_checkClosing (fault : String → String → Fault) (name closing : Ident) :
    Quiet (checkClosing fault name closing) := by
  rw [checkClosing]
  split
  · exact quiet_report _ _
  · exact .pure _

theorem quiet_sourcesOf : (cs : List (String × TypeId)) → Quiet (sourcesOf cs)
  | [] => .pure _
  | (name, type) :: rest => by
    refine (quiet_lookup name).bind fun result => ?_
    cases result <;> exact (Quiet.pure _).bind fun _ => (quiet_sourcesOf rest).bind fun _ => .pure _

theorem quiet_captureSources (s : ScopeId) : Quiet (captureSources s) :=
  .get fun _ => quiet_sourcesOf _

/-! ### Statements that declare nothing -/

theorem quiet_writeTarget (x : Assignment) (finding : ChainFinding) (target value : TypeId) :
    Quiet (writeTarget x finding target value) := by
  refine .get fun a => ?_
  dsimp only
  split
  · exact quiet_note fun _ => rfl
  · split <;> exact quiet_report _ _

theorem quiet_assign (x : Assignment) : Quiet (assign x) := by
  refine (quiet_chain x.target).bind fun target => (quiet_operand x.value).bind fun value => ?_
  cases value with
  | none => exact .pure _
  | some value =>
    refine .get fun a => ?_
    split
    · cases target with
      | none => exact quiet_report _ _
      | some target => exact quiet_writeTarget x _ target value
    · exact .pure _

theorem quiet_checkCondition (e : Expr) : Quiet (checkCondition e) := by
  refine (quiet_operand e).bind fun type => ?_
  cases type with
  | none => exact .pure _
  | some type =>
    refine quiet_types.bind fun t => ?_
    split
    · exact .pure _
    · exact quiet_report _ _

theorem quiet_checkReturn (r : RoutineDef) (result : Option TypeId) :
    Quiet (checkReturn r result) := by
  obtain ⟨node, name, closing, params, promised, body, ret, span⟩ := r
  cases ret with
  | none =>
    cases result with
    | none => exact .pure _
    | some type => exact (quiet_typeName type).bind fun _ => quiet_report _ _
  | some ret =>
    cases result with
    | none => exact (quiet_expr ret.value).bind fun _ => quiet_report _ _
    | some type =>
      refine (quiet_operand ret.value).bind fun value => ?_
      cases value with
      | none => exact .pure _
      | some value =>
        refine quiet_types.bind fun t => ?_
        split
        · exact .pure _
        · exact quiet_report _ _

/-- A block starts empty. -/
theorem quiet_openBlock (node : NodeId) : Quiet (openBlock node) := by
  have hname : Quiet (modifyGet fun a : Analysis => ((a.scopes.nextBlockName a.current).1,
      { a with scopes := (a.scopes.nextBlockName a.current).2 })) := fun a => by
    have hagrees := Scopes.agrees_nextBlockName a.scopes a.current
    refine adds_of_agrees (Scopes.extends_of_agrees (by rw [Scopes.size_nextBlockName])
      fun x _ => hagrees x) (fun x _ => ⟨(hagrees x).entries, (hagrees x).types⟩) fun x hx => ?_
    rw [(hagrees x).entries, (hagrees x).types, Scopes.get_of_not_has hx]
    exact ⟨rfl, rfl⟩
  exact hname.bind fun name => (quiet_planUnit name .block none).bind fun unit =>
    (quiet_openScope .block name unit).bind fun scope => (quiet_note fun _ => by rfl).bind fun _ => .pure _

theorem quiet_finishRoutine (r : RoutineDef) (s : ScopeId) : Quiet (finishRoutine r s) :=
  (quiet_captureSources s).bind fun _ => (quiet_note fun _ => by rfl).bind fun _ =>
    quiet_checkClosing _ _ _

theorem quiet_finishType (t : TypeDef) (f : TypeFinding) : Quiet (finishType t f) :=
  (quiet_captureSources f.scope).bind fun _ =>
    (quiet_record fun _ => List.subset_cons_self _ _).bind fun _ => quiet_checkClosing _ _ _

/-! ## Names -/

theorem run_declare (s : ScopeId) (b : Binding) (span : Span) (a : Analysis) :
    (declare s b span).run a = match a.scopes.declare s b span with
      | .ok (b', scopes) => (some b', { a with scopes })
      | .error e => (none, { a with diagnostics := a.diagnostics.report e }) := by
  simp only [declare, StateT.run_bind, StateT.run_get, pure_bind]
  cases a.scopes.declare s b span <;> rfl

theorem adds_declare (hs : a.scopes.Has s) (x : Binding) (span : Span) :
    Adds (only s ((declare s x span).run a).1.toList) a ((declare s x span).run a).2 := by
  rw [run_declare]
  cases h : a.scopes.declare s x span with
  | error e =>
    rw [Option.toList_none, only_nil]
    exact quiet_reportError e a
  | ok result =>
    obtain ⟨x', scopes⟩ := result
    have hd := Scopes.declared_of_declare h
    refine ⟨rfl, hd.extends, fun j => ?_, fun j => ?_, .refl _, List.Subset.refl _,
      List.prefix_refl _⟩ <;> rcases eq_or_ne s j with rfl | hne
    · rw [only_self]
      exact hd.entries hs
    · rw [only, if_neg (Ne.symm hne), List.append_nil]
      exact (hd.agrees j hne).entries
    · exact hd.types
    · exact (hd.agrees j hne).types

theorem Adds.has_current {new : ScopeId → List Binding} (h : Adds new a b)
    (ha : a.scopes.Has a.current) : b.scopes.Has b.current := h.current ▸ h.scopes.has ha

/-- A part of the analysis enters its result in the scope that it runs in. -/
def Enters (m : Analyze (List Binding)) : Prop :=
  ∀ a, a.scopes.Has a.current → Adds (only a.current (m.run a).1) a (m.run a).2

namespace Enters

variable {m : Analyze (List Binding)}

theorem nothing : Enters (pure []) := fun a _ => by
  rw [show ((pure [] : Analyze (List Binding)).run a) = ([], a) from rfl, only_nil]
  exact .refl a

/-- Behind what enters nothing. -/
theorem after {n : Analyze α} {f : α → Analyze (List Binding)} (hn : Quiet n)
    (hf : ∀ x, Enters (f x)) : Enters (n >>= f) := fun a ha => by
  have hb := hn a
  have h := hf (n.run a).1 (n.run a).2 (hb.has_current ha)
  rw [hb.current] at h
  exact hb.after h

/-- In front of what enters nothing. -/
theorem andRecord {f : List Binding → Findings → Findings} (hm : Enters m)
    (hf : ∀ bs, Quiet (record (f bs))) :
    Enters (m >>= fun bs => record (f bs) >>= fun _ => pure bs) := fun a ha =>
  (hm a ha).andNothing (hf (m.run a).1 (m.run a).2)

end Enters

theorem enters_declareNames (type : TypeId) (role : Role) (owner : Option TypeId) :
    (names : List Ident) → Enters (declareNames type role owner names)
  | [] => .nothing
  | name :: names => by
    refine .after (quiet_refuseName name) fun refused a ha => ?_
    cases refused with
    | true => exact enters_declareNames type role owner names a ha
    | false =>
      have hfirst := adds_declare ha { name := name.name, type, role, owner } name.span
      have h := enters_declareNames type role owner names _ (hfirst.has_current ha)
      rw [hfirst.current] at h
      exact hfirst.andOnly h

end Analysis

end Unnest
