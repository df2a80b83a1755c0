import Unnest.Proofs.Analysis.Mentions
import Unnest.Proofs.Analysis.Program

/-!
# Every mentioned type is there

The analysis writes down types that it has looked up or made, and the table never shrinks.
So every state is grounded, whatever is reported on the way (`Analysis.grounded_analyze`):
what scopes, types and findings mention is in the table.
-/

namespace Unnest

namespace Analysis

open Analyze

variable {α β : Type} {a b : Analysis} {os ts : List TypeId}

/-! ## Links -/

theorem mentions_ofCall (routine : Signature) :
    (Produced.ofCall routine).mentions ⊆ routine.mentions := by
  rw [Produced.ofCall]
  split
  · rename_i type h
    intro t ht
    rw [Signature.mentions, h]
    exact List.mem_append_right _ ht
  · exact List.nil_subset _

/-- What an optional result mentions. -/
abbrev optional (f : α → List TypeId) (o : Option α) : List TypeId := o.toList.flatMap f

section Links

variable {m : Analyze (Option TypeId)} {args : ArgumentTypes}

theorem grounds_recordLink (node : NodeId) {f : LinkFinding} (h : f.mentions ⊆ ts) :
    Grounds os ts (recordLink node f) anything := by
  refine grounds_record fun x t ht => ?_
  simp only [Findings.mentions, NodeTable.write, List.flatMap_cons, List.mem_append] at ht ⊢
  have hsub := @h t
  grind

theorem grounds_recordCall (node : NodeId) {owner : TypeId} {routine : Signature} {callee : Callee}
    (ho : owner ∈ ts) (hr : routine.mentions ⊆ ts) (hc : callee.mentions ⊆ ts) :
    Grounds os ts (recordCall node owner routine callee) (optional Produced.mentions) := by
  refine (grounds_recordLink node ?_).next fun _ => .pure ?_
  · exact List.cons_subset.mpr ⟨ho, List.append_subset.mpr ⟨hr, hc⟩⟩
  · rw [optional, Option.toList_some, List.flatMap_singleton]
    exact List.Subset.trans (mentions_ofCall routine) hr

theorem grounds_reportNoRoutine (name : String) (args : List TypeId) (owner : Option TypeId)
    (span : Span) :
    Grounds os ts (reportNoRoutine name args owner span) (optional Produced.mentions) :=
  .anyTypes fun _ => grounds_reject _ _ rfl

theorem grounds_bareHead (node : NodeId) (name : String) (span : Span) (hasMore : Bool) :
    Grounds os ts (bareHead node name span hasMore) (optional Produced.mentions) := by
  refine (grounds_lookup name).bind fun result => ?_
  cases result with
  | found r access =>
    refine (grounds_recordLink (f := .load r.binding access) node
      (List.subset_append_left _ _)).next fun _ => .pure ?_
    intro t ht
    simp only [optional, Option.toList_some, List.flatMap_cons, List.flatMap_nil, List.append_nil,
      Produced.mentions, List.mem_cons] at ht
    refine List.mem_append_left _ (List.mem_append_left _ ?_)
    rcases ht with rfl | ht
    · exact List.mem_cons_self
    · exact ht
  | hidden => exact grounds_reject _ _ rfl
  | missing =>
    refine (grounds_resolveType name).bind fun type => ?_
    cases type with
    | none => exact grounds_reject _ _ rfl
    | some type =>
      cases hasMore
      · exact grounds_reject _ _ rfl
      · have htype : [type] ⊆ Option.toList (some type) ++ ts := List.subset_append_left _ _
        exact (grounds_recordLink (f := .typeName type) node htype).next fun _ => .pure htype

/-- What follows a lookup of a routine on a type. -/
theorem Grounds.offer {f : TypeTable → Analyze β} {new : β → List TypeId} (owner : TypeId)
    (isStatic : Bool) (name : String) (args : List TypeId)
    (hf : ∀ t, Grounds os (t.offered owner isStatic name args ++ ts) (f t) new) :
    Grounds os ts (Analyze.types >>= f) new :=
  .types (·.offered owner isStatic name args) (fun _ ha _ => ha.offered) hf

theorem mentions_offered {t : TypeTable} {owner : TypeId} {isStatic : Bool} {name : String}
    {args : List TypeId} {s : Signature} (h : t.lookup owner isStatic name args = some s) :
    owner ∈ t.offered owner isStatic name args ∧
      s.mentions ⊆ t.offered owner isStatic name args := by
  rw [TypeTable.offered, h, Option.toList_some, List.flatMap_singleton]
  exact ⟨List.mem_cons_self, List.subset_cons_self _ _⟩

theorem grounds_callType (hargs : Grounds os ts args anything) (node : NodeId) {type : TypeId}
    (span : Span) (ht : type ∈ ts) :
    Grounds os ts (callType node type span args) (optional Produced.mentions) := by
  refine hargs.next fun us => ?_
  cases us with
  | none => exact .none rfl
  | some us =>
    refine .offer type true Reserved.call us fun t => ?_
    split
    · rename_i routine h
      obtain ⟨-, hr⟩ := mentions_offered h
      exact grounds_recordCall node (List.mem_append_right _ ht)
        (List.subset_append_of_subset_left _ hr) (List.nil_subset _)
    · have htype : [type] ⊆ t.offered type true Reserved.call us ++ ts :=
        List.cons_subset.mpr ⟨List.mem_append_right _ ht, List.nil_subset _⟩
      split
      · exact (grounds_recordLink (f := .construct type) node htype).next fun _ => .pure htype
      · exact grounds_reportNoRoutine _ _ _ _

theorem grounds_callHead (hargs : ∀ {us}, ts ⊆ us → Grounds os us args anything) (node : NodeId)
    (name : String) (span : Span) :
    Grounds os ts (callHead node name span args) (optional Produced.mentions) := by
  refine (grounds_lookup name).bind fun result => ?_
  cases result with
  | found r access =>
    refine (hargs (List.subset_append_right _ _)).next fun us => ?_
    cases us with
    | none => exact .none rfl
    | some us =>
      refine .offer r.binding.type false Reserved.call us fun t => ?_
      split
      · rename_i routine h
        obtain ⟨howner, hr⟩ := mentions_offered h
        refine grounds_recordCall node (List.mem_append_left _ howner)
          (List.subset_append_of_subset_left _ hr) (List.subset_append_of_subset_right _ ?_)
        exact List.subset_append_left _ _
      · exact grounds_reportNoRoutine _ _ _ _
  | hidden => exact grounds_reject _ _ rfl
  | missing =>
    refine (grounds_resolveType name).bind fun type => ?_
    cases type with
    | none => exact grounds_reject _ _ rfl
    | some type =>
      exact grounds_callType (hargs (List.subset_append_right _ _)) node span List.mem_cons_self

theorem grounds_readMember {owner : TypeId} (isStatic : Bool) (name : String) (ho : owner ∈ ts) :
    Grounds os ts (readMember owner isStatic name) (optional Binding.mentions) := by
  refine .types (fun t => optional Binding.mentions (t.lookupField owner isStatic name)) ?_ fun t => ?_
  · intro a ha _ u hu
    obtain ⟨b, hb, hu⟩ := List.mem_flatMap.mp hu
    exact ha.lookupField (Option.mem_toList.mp hb) u hu
  · cases t.lookupField owner isStatic name with
    | some field => exact .pure (List.subset_append_left _ _)
    | none => exact grounds_memberRoutine isStatic name ho

theorem grounds_bareMember {owner : TypeId} (ho : owner ∈ ts) (isStatic : Bool) (node : NodeId)
    (name : String) (span : Span) :
    Grounds os ts (bareMember owner isStatic node name span) (optional Produced.mentions) := by
  refine (grounds_readMember isStatic name ho).bind fun field => ?_
  cases field with
  | some field =>
    have hfield : field.mentions ⊆ optional Binding.mentions (some field) ++ ts := by
      rw [optional, Option.toList_some, List.flatMap_singleton]
      exact List.subset_append_left _ _
    refine (grounds_recordLink node (List.cons_subset.mpr ⟨List.mem_append_right _ ho, hfield⟩)).next
      fun _ => .pure ?_
    rw [optional, Option.toList_some, List.flatMap_singleton, Produced.mentions, Option.toList_some,
      List.flatMap_singleton]
    exact List.cons_subset.mpr ⟨hfield List.mem_cons_self, hfield⟩
  | none =>
    refine (grounds_typeName owner).next fun ownerName => ?_
    cases isStatic <;> exact grounds_reject _ _ rfl

/-- What a field that can be called mentions, with its routine. -/
def callable (t : TypeTable) (owner : TypeId) (isStatic : Bool) (name : String)
    (args : List TypeId) : List TypeId :=
  optional (fun x : Binding × Signature => x.1.mentions ++ x.2.mentions)
    (callableField t owner isStatic name args)

theorem Grounded.callable (ha : Grounded a) {owner : TypeId} {isStatic : Bool} {name : String}
    {args : List TypeId} : ∀ t ∈ callable a.types owner isStatic name args, a.types.Has t := by
  intro t ht
  obtain ⟨⟨field, routine⟩, hx, ht⟩ := List.mem_flatMap.mp ht
  obtain ⟨field', hf, hx⟩ := Option.bind_eq_some_iff.mp (Option.mem_toList.mp hx)
  obtain ⟨routine', hr, hx⟩ := Option.bind_eq_some_iff.mp hx
  obtain ⟨rfl, rfl⟩ := Prod.mk.inj (Option.some.inj hx)
  rcases List.mem_append.mp ht with ht | ht
  · exact ha.lookupField hf t ht
  · exact ha.offered t ((mentions_offered hr).2 ht)

theorem grounds_callMember (hargs : Grounds os ts args anything) {owner : TypeId} (ho : owner ∈ ts)
    (isStatic : Bool) (node : NodeId) (name : String) (span : Span) :
    Grounds os ts (callMember owner isStatic node name span args) (optional Produced.mentions) := by
  refine hargs.next fun us => ?_
  cases us with
  | none => exact .none rfl
  | some us =>
    refine .types (fun t => t.offered owner isStatic name us ++ callable t owner isStatic name us)
      (fun a ha _ => List.forall_mem_append.mpr ⟨ha.offered, ha.callable⟩) fun t => ?_
    split
    · rename_i routine h
      exact grounds_recordCall node (List.mem_append_right _ ho)
        (List.subset_append_of_subset_left _ (List.subset_append_of_subset_left _
          (mentions_offered h).2)) (List.nil_subset _)
    · split
      · rename_i field routine h
        have hcallable : field.mentions ++ routine.mentions ⊆ callable t owner isStatic name us := by
          rw [callable, h, optional, Option.toList_some, List.flatMap_singleton]
          exact List.Subset.refl _
        have hboth := List.append_subset.mp (List.subset_append_of_subset_left ts
          (List.subset_append_of_subset_right (t.offered owner isStatic name us) hcallable))
        exact grounds_recordCall node (hboth.1 List.mem_cons_self) hboth.2 hboth.1
      · exact grounds_reportNoRoutine _ _ _ _

theorem grounds_onReceiver {before : Produced} {span : Span}
    {link : TypeId → Bool → Analyze (Option Produced)} (hb : before.mentions ⊆ ts)
    (h : ∀ owner isStatic, owner ∈ ts → Grounds os ts (link owner isStatic) (optional Produced.mentions)) :
    Grounds os ts (onReceiver before span link) (optional Produced.mentions) := by
  cases before with
  | value type binding => exact h _ _ (hb List.mem_cons_self)
  | nothing => exact grounds_reject _ _ rfl
  | typeName type => exact h _ _ (hb List.mem_cons_self)

theorem grounds_finishChain (node : NodeId) (span : Span) {last : Produced} (h : last.mentions ⊆ ts) :
    Grounds os ts (finishChain node span last) Option.toList := by
  have hrecord : ∀ f : ChainFinding, f.mentions ⊆ ts →
      Grounds os ts (record fun t => { t with chains := t.chains.write node f }) anything := by
    intro f hf
    refine grounds_record fun x t ht => ?_
    simp only [Findings.mentions, NodeTable.write, List.flatMap_cons, List.mem_append] at ht ⊢
    have hsub := @hf t
    grind
  cases last with
  | value type binding =>
    exact (hrecord ⟨some type, binding⟩ h).next fun _ => .pure (List.cons_subset.mpr
      ⟨h List.mem_cons_self, List.nil_subset _⟩)
  | nothing => exact (hrecord ⟨none, none⟩ (List.nil_subset _)).next fun _ => .none rfl
  | typeName type => exact (grounds_typeName type).next fun _ => grounds_reject _ _ rfl

theorem grounds_operator (node : NodeId) (name : String) (owner : TypeId) (isStatic : Bool)
    (args : List TypeId) (span : Span) :
    Grounds os ts (operator node name owner isStatic args span) Option.toList := by
  refine .offer owner isStatic name args fun t => ?_
  split
  · rename_i routine h
    obtain ⟨howner, hr⟩ := mentions_offered h
    refine (grounds_record fun x u hu => ?_).next fun _ => .pure fun u hu => ?_
    · simp only [Findings.mentions, OperatorCall.mentions, NodeTable.write, List.flatMap_cons,
        List.mem_append, List.mem_cons] at hu ⊢
      have hsub := @hr u
      have heq : u = owner → u ∈ t.offered owner isStatic name args := fun heq => heq ▸ howner
      grind
    · exact List.mem_append_left _ (hr (List.mem_append_right _ hu))
  · exact grounds_reject _ _ rfl

theorem grounds_required (hm : Grounds os ts m Option.toList) (span : Span) :
    Grounds os ts (required span m) Option.toList := by
  refine .peek fun a => hm.bind fun type => ?_
  cases type with
  | some type => exact .pure (List.subset_append_left _ _)
  | none =>
    refine .peek fun b => ?_
    split
    · exact grounds_reject _ _ rfl
    · exact .none rfl

theorem grounds_typed (hm : Grounds os ts m Option.toList) (node : NodeId) :
    Grounds os ts (typed node m) Option.toList := by
  refine hm.bind fun type => ?_
  cases type with
  | some type =>
    refine (grounds_record fun x t ht => ?_).next fun _ => .pure (List.subset_append_left _ _)
    simp only [Findings.mentions, NodeTable.write, List.map_cons, List.mem_append, List.mem_cons,
      Option.toList_some, List.not_mem_nil] at ht ⊢
    grind
  | none => exact .none rfl

end Links

/-! ## Expressions -/

theorem grounds_literal (value : Literal) :
    Grounds os ts (pure (some value.type)) Option.toList := fun _ ha _ _ =>
  ⟨ha, .refl _, List.forall_mem_singleton.mpr (ha.literals value)⟩

mutual

theorem grounds_expr : (e : Expr) → {ts : List TypeId} → Grounds os ts (expr e) Option.toList
  | .literal node value _, _ => grounds_typed (grounds_literal value) node
  | .binary node op left right span, ts => by
    refine grounds_typed ((grounds_required (grounds_expr left) _).bind fun l =>
      (grounds_required (grounds_expr right) _).bind fun r => ?_) node
    cases l with
    | none => exact .none rfl
    | some l =>
      cases r with
      | none => exact .none rfl
      | some r => exact grounds_operator _ _ _ _ _ _
  | .unary node op operand span, ts => by
    refine grounds_typed ((grounds_required (grounds_expr operand) _).bind fun o => ?_) node
    cases o with
    | none => exact .none rfl
    | some o => exact grounds_operator _ _ _ _ _ _
  | .paren node inner _, _ => grounds_typed (grounds_expr inner) node
  | .chain c, _ => grounds_typed (grounds_chain c) c.node

theorem grounds_chain : (c : Chain) → {ts : List TypeId} → Grounds os ts (chain c) Option.toList
  | ⟨_, [], _⟩, _ => .none rfl
  | ⟨node, head :: rest, span⟩, ts => by
    refine (grounds_headLink (!rest.isEmpty) head).bind fun first => ?_
    cases first with
    | none => exact .none rfl
    | some first =>
      refine (grounds_memberLinks rest ?_).bind fun last => ?_
      · rw [optional, Option.toList_some, List.flatMap_singleton]
        exact List.subset_append_left _ _
      · cases last with
        | none => exact .none rfl
        | some last =>
          refine grounds_finishChain node span ?_
          rw [optional, Option.toList_some, List.flatMap_singleton]
          exact List.subset_append_left _ _

theorem grounds_headLink (hasMore : Bool) : (l : Link) → {ts : List TypeId} →
    Grounds os ts (headLink hasMore l) (optional Produced.mentions)
  | .bare node name span, _ => grounds_bareHead node name.name span hasMore
  | .call node name args span, _ => grounds_callHead (fun _ => grounds_arguments args) node name.name
      span

theorem grounds_memberLink {before : Produced} : (l : Link) → {ts : List TypeId} →
    before.mentions ⊆ ts → Grounds os ts (memberLink before l) (optional Produced.mentions)
  | .bare node name span, _, hb => grounds_onReceiver hb fun _ isStatic ho =>
      grounds_bareMember ho isStatic node name.name span
  | .call node name args span, _, hb => grounds_onReceiver hb fun _ isStatic ho =>
      grounds_callMember (grounds_arguments args) ho isStatic node name.name span

theorem grounds_memberLinks {before : Produced} : (ls : List Link) → {ts : List TypeId} →
    before.mentions ⊆ ts → Grounds os ts (memberLinks before ls) (optional Produced.mentions)
  | [], _, hb => .pure (by
      rw [optional, Option.toList_some, List.flatMap_singleton]
      exact hb)
  | l :: ls, _, hb => by
    refine (grounds_memberLink l hb).bind fun produced => ?_
    cases produced with
    | none => exact .none rfl
    | some produced =>
      refine grounds_memberLinks ls ?_
      rw [optional, Option.toList_some, List.flatMap_singleton]
      exact List.subset_append_left _ _

theorem grounds_arguments : (es : List Expr) → {ts : List TypeId} →
    Grounds os ts (arguments es) anything
  | [], _ => .none rfl
  | e :: es, _ => (grounds_required (grounds_expr e) _).next fun _ =>
      (grounds_arguments es).next fun _ => .none rfl

end

theorem grounds_operand (e : Expr) : Grounds os ts (operand e) Option.toList :=
  grounds_required (grounds_expr e) e.span

/-! ## Declarations -/

mutual

theorem grounds_resolve : (w : WrittenType) → {ts : List TypeId} →
    Grounds os ts (resolve w) Option.toList
  | .named name, _ => by
    refine (grounds_resolveType name.name).bind fun found => ?_
    cases found with
    | none => exact grounds_reject _ _ rfl
    | some type => exact .pure (List.subset_append_left _ _)
  | .routine params result _, ts => by
    refine (grounds_resolveAll params).bind fun ps => (grounds_resolveResult result).bind fun r => ?_
    cases ps with
    | none => exact .none rfl
    | some ps =>
      cases r with
      | none => exact .none rfl
      | some r =>
        refine (grounds_addRoutineType ?_ ?_).bind fun _ => .pure (List.subset_append_left _ _)
        · exact List.subset_append_of_subset_right _ (List.subset_append_left _ _)
        · exact List.subset_append_left _ _

theorem grounds_resolveAll : (ws : List WrittenType) → {ts : List TypeId} →
    Grounds os ts (resolveAll ws) (·.getD [])
  | [], _ => .none rfl
  | w :: ws, ts => by
    refine (grounds_resolve w).bind fun first => (grounds_resolveAll ws).bind fun rest => .pure ?_
    cases first with
    | none => exact List.nil_subset _
    | some type =>
      cases rest with
      | none => exact List.nil_subset _
      | some types =>
        exact List.cons_subset.mpr ⟨List.mem_append_right _ List.mem_cons_self,
          List.subset_append_left _ _⟩

theorem grounds_resolveResult : (w : Option WrittenType) → {ts : List TypeId} →
    Grounds os ts (resolveResult w) (fun o => (o.getD none).toList)
  | none, _ => .none rfl
  | some w, ts => by
    refine (grounds_resolve w).bind fun type => .pure ?_
    cases type with
    | none => exact List.nil_subset _
    | some type => exact List.subset_append_left _ _

end

theorem grounds_refuseName (name : Ident) : Grounds os ts (refuseName name) anything := by
  refine .peek fun a => ?_
  split
  · exact grounds_reject _ _ rfl
  · split
    · exact grounds_reject _ _ rfl
    · exact .none rfl

theorem grounds_declareName {type : TypeId} (role : Role) {owner : Option TypeId} (name : Ident)
    (h : type :: owner.toList ⊆ ts) :
    Grounds os ts (declareName type role owner name) (optional Binding.mentions) := by
  refine (grounds_refuseName name).next fun refused => ?_
  cases refused with
  | true => exact .none rfl
  | false => exact .currentScope fun s => grounds_declare s name.span h

/-- The names of a declaration mention its type, and the type that they are members of. -/
theorem grounds_declareNames {type : TypeId} (role : Role) {owner : Option TypeId} :
    (names : List Ident) → {ts : List TypeId} → type :: owner.toList ⊆ ts →
      Grounds os ts (declareNames type role owner names) (List.flatMap Binding.mentions)
  | [], _, _ => .none rfl
  | name :: names, ts, h => by
    rw [declareNames_cons]
    refine (grounds_declareName role name h).bind fun b => (grounds_declareNames role names
      (List.subset_append_of_subset_right _ h)).bind fun bs => .pure ?_
    rw [List.flatMap_append]
    exact List.append_subset.mpr ⟨List.subset_append_of_subset_right _
      (List.subset_append_left _ _), List.subset_append_left _ _⟩

theorem grounds_recordDecl (node : NodeId) {f : DeclFinding} (h : f.mentions ⊆ ts) :
    Grounds os ts (recordDecl node f) anything := by
  refine grounds_record fun x t ht => ?_
  simp only [Findings.mentions, NodeTable.write, List.flatMap_cons, List.mem_append] at ht ⊢
  have hsub := @h t
  grind

theorem grounds_varDecl (role : Role) {owner : Option TypeId} (d : VarDecl)
    (ho : owner.toList ⊆ ts) :
    Grounds os ts (varDecl role owner d) (List.flatMap Binding.mentions) := by
  refine (grounds_resolve d.type).bind fun type => ?_
  cases type with
  | none => exact .none rfl
  | some type =>
    have htype : type ∈ (some type).toList ++ ts := List.mem_cons_self
    refine (grounds_declareNames role d.names (List.cons_subset.mpr
      ⟨htype, List.subset_append_of_subset_right _ ho⟩)).bind fun bs => ?_
    refine (grounds_recordDecl d.node (List.cons_subset.mpr ⟨List.mem_append_right _ htype, ?_⟩)).next
      fun _ => .pure (List.subset_append_left _ _)
    rw [Option.toList_none, List.flatMap_nil, List.append_nil]
    exact List.subset_append_left _ _

/-! ### Initial values -/

theorem mentions_writeMode (t : TypeTable) (target value : TypeId) :
    (writeMode t target value).mentions ⊆
      t.offered target false Reserved.assignment [value] := by
  rw [writeMode]
  split
  · rename_i routine h
    exact (mentions_offered h).2
  · exact List.nil_subset _

theorem grounds_initialMode (target value : TypeId) (span : Span) :
    Grounds os ts (initialMode target value span) (optional WriteMode.mentions) := by
  refine .offer target false Reserved.assignment [value] fun t => ?_
  split
  · refine .pure ?_
    rw [optional, Option.toList_some, List.flatMap_singleton]
    exact List.subset_append_of_subset_left _ (mentions_writeMode t target value)
  · exact grounds_reject _ _ rfl

theorem grounds_declareInit (node : NodeId) (role : Role) {owner : Option TypeId}
    (names : List Ident) {type : Option TypeId} (value : Option TypeId) (span : Span)
    (ht : type.toList ⊆ ts) (ho : owner.toList ⊆ ts) :
    Grounds os ts (declareInit node role owner names type value span)
      (List.flatMap Binding.mentions) := by
  cases type with
  | none => exact .none rfl
  | some type =>
    cases value with
    | none => exact .none rfl
    | some value =>
      refine (grounds_initialMode type value span).bind fun mode => ?_
      cases mode with
      | none => exact .none rfl
      | some mode =>
        have htype : type ∈ optional WriteMode.mentions (some mode) ++ ts :=
          List.mem_append_right _ (ht List.mem_cons_self)
        refine (grounds_declareNames role names (List.cons_subset.mpr
          ⟨htype, List.subset_append_of_subset_right _ ho⟩)).bind fun bs => ?_
        have hfinding : DeclFinding.mentions { type, bindings := bs, mode := some mode } ⊆
            bs.flatMap Binding.mentions ++ (optional WriteMode.mentions (some mode) ++ ts) :=
          List.cons_subset.mpr ⟨List.mem_append_right _ htype, List.append_subset.mpr
            ⟨List.subset_append_left _ _,
              List.subset_append_of_subset_right _ (List.subset_append_left _ _)⟩⟩
        exact (grounds_recordDecl node hfinding).next fun _ => .pure (List.subset_append_left _ _)

theorem grounds_initDecl (d : InitDecl) : Grounds os ts (initDecl d) anything :=
  (grounds_resolve d.type).bind fun _ => (grounds_operand d.value).next fun value =>
    (grounds_declareInit _ _ _ value _ (List.subset_append_left _ _) (List.nil_subset _)).discard

/-! ### Members -/

theorem mentions_addFields (d : TypeDecl) (isStatic : Bool) (bs : List Binding) :
    (d.addFields isStatic bs).mentions ⊆ d.mentions ++ bs.flatMap Binding.mentions := by
  intro t ht
  cases isStatic
  · simp only [TypeDecl.addFields, TypeDecl.mentions, List.flatMap_append, List.mem_append,
      Bool.false_eq_true, if_false] at ht ⊢
    grind
  · simp only [TypeDecl.addFields, TypeDecl.mentions, List.flatMap_append, List.mem_append,
      if_true] at ht ⊢
    grind

theorem mentions_addRoutine (d : TypeDecl) (isStatic : Bool) (s : Signature) :
    (d.addRoutine isStatic s).mentions ⊆ d.mentions ++ s.mentions := by
  intro t ht
  cases isStatic
  · simp only [TypeDecl.addRoutine, TypeDecl.mentions, List.flatMap_append, List.flatMap_cons,
      List.flatMap_nil, List.append_nil, List.mem_append, Bool.false_eq_true, if_false] at ht ⊢
    grind
  · simp only [TypeDecl.addRoutine, TypeDecl.mentions, List.flatMap_append, List.flatMap_cons,
      List.flatMap_nil, List.append_nil, List.mem_append, if_true] at ht ⊢
    grind

theorem grounds_addFields (type : TypeId) (isStatic : Bool) {bs : List Binding}
    (h : bs.flatMap Binding.mentions ⊆ ts) :
    Grounds os ts (updateTypes fun t => t.update type fun d => d.addFields isStatic bs) anything :=
  grounds_updateType type (fun d => List.Subset.trans (mentions_addFields d isStatic bs)
    (List.append_subset.mpr ⟨List.subset_append_left _ _, List.subset_append_of_subset_right _ h⟩))
    (fun _ => TypeTable.extends_addFields) (Or.inr fun d => by cases isStatic <;> rfl)

theorem grounds_instanceFields {type : TypeId} : (ds : List VarDecl) → {ts : List TypeId} →
    type ∈ ts → Grounds os ts (instanceFields type ds) anything
  | [], _, _ => .none rfl
  | d :: ds, _, ht => (grounds_varDecl .field d
      (List.cons_subset.mpr ⟨ht, List.nil_subset _⟩)).bind fun _ =>
        (grounds_addFields type false (List.subset_append_left _ _)).next fun _ =>
          grounds_instanceFields ds (List.mem_append_right _ ht)

theorem grounds_staticField {type : TypeId} (inner : ScopeId) (f : StaticField) (ht : type ∈ ts) :
    Grounds os ts (staticField type inner f) anything :=
  ((grounds_operand f.init).inScope inner).next fun value => (grounds_resolve f.decl.type).bind
    fun _ => (grounds_declareInit _ _ _ value _ (List.subset_append_left _ _)
      (List.subset_append_of_subset_right _ (List.cons_subset.mpr ⟨ht, List.nil_subset _⟩))).bind
        fun _ => grounds_addFields type true (List.subset_append_left _ _)

theorem grounds_staticFields {type : TypeId} (inner : ScopeId) (ht : type ∈ ts) :
    (fs : List StaticField) → Grounds os ts (staticFields type inner fs) anything
  | [] => .none rfl
  | f :: fs => (grounds_staticField inner f ht).next fun _ => grounds_staticFields inner ht fs

/-! ### Routines -/

theorem grounds_declareParams (s : ScopeId) : (ps : List (Param × TypeId)) → {ts : List TypeId} →
    ps.map (·.2) ⊆ ts → Grounds os ts (declareParams s ps) (List.flatMap Binding.mentions)
  | [], _, _ => .none rfl
  | (p, type) :: ps, ts, h => by
    rw [List.map_cons, List.cons_subset] at h
    refine (grounds_declare s p.name.span (List.cons_subset.mpr ⟨h.1, List.nil_subset _⟩)).bind
      fun b => (grounds_declareParams s ps (List.subset_append_of_subset_right _ h.2)).bind
        fun bs => .pure ?_
    rw [List.flatMap_append]
    exact List.append_subset.mpr ⟨List.subset_append_of_subset_right _
      (List.subset_append_left _ _), List.subset_append_left _ _⟩

theorem grounds_openRoutine (r : RoutineDef) {member : Option Membership} {signature : Signature}
    {binding : Binding} (hm : (member.map (·.type)).toList ⊆ ts) (hs : signature.mentions ⊆ ts)
    (hb : binding.mentions ⊆ ts) :
    Grounds os ts (openRoutine r member signature binding) (·.result.toList) := by
  refine (grounds_planUnit _ _ (List.nil_subset _)).next fun unit =>
    (grounds_openScope _ _ _).next fun scope => (grounds_markMember scope _ hm).next fun _ => ?_
  have hparams : (r.params.zip signature.params).map (·.2) ⊆ ts := by
    intro t ht
    obtain ⟨x, hx, rfl⟩ := List.mem_map.mp ht
    exact hs (List.mem_append_left _ (List.of_mem_zip hx).2)
  refine (grounds_declareParams scope _ hparams).bind fun params =>
    (grounds_record fun x t ht => ?_).next fun _ => .pure
      (List.subset_append_of_subset_right _ fun t ht => hs (List.mem_append_right _ ht))
  simp only [Findings.mentions, RoutineFinding.mentions, NodeTable.write, List.flatMap_cons,
    List.flatMap_nil, List.append_nil, List.mem_append] at ht ⊢
  have hm' := @hm t
  have hs' := @hs t
  have hb' := @hb t
  grind

theorem grounds_refuseMember (member : Option Membership) (name : Ident) (args : List TypeId) :
    Grounds os ts (refuseMember member name args) anything := by
  refine .anyTypes fun t => ?_
  cases member with
  | none => exact .none rfl
  | some m =>
    dsimp only
    split
    · exact grounds_reject _ _ rfl
    · exact .none rfl

theorem grounds_addMember {member : Option Membership} {s : Signature}
    (hm : ∀ m ∈ member, m.type ∈ os) (hs : s.mentions ⊆ ts) :
    Grounds os ts (addMember member s) anything := by
  cases member with
  | none => exact .none rfl
  | some m =>
    exact grounds_updateType m.type (fun d => List.Subset.trans (mentions_addRoutine d m.isStatic s)
      (List.append_subset.mpr ⟨List.subset_append_left _ _,
        List.subset_append_of_subset_right _ hs⟩))
      (fun _ => TypeTable.extends_addRoutine) (Or.inl (hm m rfl))

theorem mentions_routineBinding (member : Option Membership) (name : String) (type : TypeId) :
    (routineBinding member name type).mentions = type :: (member.map (·.type)).toList := by
  cases member <;> rfl

theorem grounds_declareRoutine {member : Option Membership} (r : RoutineDef)
    (hm : (member.map (·.type)).toList ⊆ ts) (ho : ∀ m ∈ member, m.type ∈ os) :
    Grounds os ts (declareRoutine member r) (optional (·.result.toList)) := by
  refine (grounds_resolveAll (r.params.map (·.type))).bind fun params =>
    (grounds_resolveResult r.result).bind fun result => ?_
  cases params with
  | none => exact .none rfl
  | some params =>
    cases result with
    | none => exact .none rfl
    | some result =>
      have hsignature : (Signature.mk r.name.name params result).mentions ⊆
          result.toList ++ (params ++ ts) :=
        List.append_subset.mpr ⟨List.subset_append_of_subset_right _ (List.subset_append_left _ _),
          List.subset_append_left _ _⟩
      have hmember : (member.map (·.type)).toList ⊆ result.toList ++ (params ++ ts) :=
        List.subset_append_of_subset_right _ (List.subset_append_of_subset_right _ hm)
      have hall := List.append_subset.mp hsignature
      refine (grounds_refuseMember member r.name params).next fun refused => ?_
      cases refused with
      | true => exact .none rfl
      | false =>
        refine (grounds_refuseName r.name).next fun refused => ?_
        cases refused with
        | true => exact .none rfl
        | false =>
          refine (grounds_addRoutineType hall.1 hall.2).bind fun type => .currentScope fun s => ?_
          have hbinding : (routineBinding member r.name.name type).mentions ⊆
              [type] ++ (result.toList ++ (params ++ ts)) := by
            rw [mentions_routineBinding]
            exact List.cons_subset_cons type hmember
          refine (grounds_declare s r.name.span hbinding).bind fun binding => ?_
          cases binding with
          | none => exact .none rfl
          | some binding =>
            have hlater : ∀ {us}, us ⊆ result.toList ++ (params ++ ts) →
                us ⊆ optional Binding.mentions (some binding) ++
                  ([type] ++ (result.toList ++ (params ++ ts))) := fun h =>
              List.subset_append_of_subset_right _ (List.subset_append_of_subset_right _ h)
            refine (grounds_addMember ho (hlater hsignature)).next fun _ =>
              (grounds_openRoutine r (hlater hmember) (hlater hsignature) ?_).bind fun d => .pure ?_
            · rw [optional, Option.toList_some, List.flatMap_singleton]
              exact List.subset_append_left _ _
            · rw [optional, Option.toList_some, List.flatMap_singleton]
              exact List.subset_append_left _ _

theorem grounds_declareMembers {m : Membership} (ho : m.type ∈ os) :
    (rs : List RoutineDef) → {ts : List TypeId} → m.type ∈ ts →
      Grounds os ts (declareMembers m rs) (List.flatMap (optional (·.result.toList)))
  | [], _, _ => .none rfl
  | r :: rs, ts, hm => by
    have hmember : [m.type] ⊆ ts := List.cons_subset.mpr ⟨hm, List.nil_subset _⟩
    have howner : ∀ m' ∈ some m, m'.type ∈ os := by
      rintro _ ⟨⟩
      exact ho
    refine (grounds_declareRoutine r hmember howner).bind fun first =>
      (grounds_declareMembers ho rs (List.mem_append_right _ hm)).bind fun rest => .pure ?_
    rw [List.flatMap_cons]
    exact List.append_subset.mpr ⟨List.subset_append_of_subset_right _
      (List.subset_append_left _ _), List.subset_append_left _ _⟩

theorem grounds_memberRoutines {type : TypeId} (ht : type ∈ ts) (ho : type ∈ os)
    {rs rs' : List RoutineDef}
    (h : ∀ ds {ts}, Grounds os ts (routineBodies ds rs) anything)
    (h' : ∀ ds {ts}, Grounds os ts (routineBodies ds rs') anything) :
    Grounds os ts (memberRoutines type rs rs') anything :=
  (grounds_declareMembers (m := ⟨type, false⟩) ho rs ht).next fun ds =>
    (grounds_declareMembers (m := ⟨type, true⟩) ho rs' ht).next fun es =>
      (h ds).next fun _ => h' es

/-- The members of a type, given what their bodies do. -/
theorem grounds_members (f : TypeFinding) (statics : List StaticField) (ht : f.type ∈ ts)
    (ho : f.type ∈ os) (fields : List VarDecl) {rs rs' : List RoutineDef}
    (h : ∀ ds {ts}, Grounds os ts (routineBodies ds rs) anything)
    (h' : ∀ ds {ts}, Grounds os ts (routineBodies ds rs') anything) :
    Grounds os ts (members f fields statics rs rs') anything :=
  (grounds_instanceFields fields ht).next fun _ =>
    (grounds_staticFields f.fieldInit ht statics).next fun _ => grounds_memberRoutines ht ho h h'

/-! ### Types -/

theorem grounds_refuseType (name : Ident) : Grounds os ts (refuseType name) anything := by
  refine .peek fun a => ?_
  split
  · exact grounds_reject _ _ rfl
  · split
    · exact grounds_reject _ _ rfl
    · exact .none rfl

theorem grounds_setPath (type : TypeId) (path : String) :
    Grounds os ts (updateTypes fun t => t.setPath type path) anything :=
  grounds_updateType type (fun _ => List.subset_append_left _ _)
    (fun _ => TypeTable.extends_setPath) (Or.inr fun _ => rfl)

theorem grounds_openType (name : Ident) :
    Grounds os ts (openType name) fun o => o.toList.map (·.type) := by
  refine (grounds_refuseType name).next fun refused => ?_
  cases refused with
  | true => exact .none rfl
  | false =>
    refine (grounds_addType (List.nil_subset _)).bind fun type => .currentScope fun s => ?_
    have htype : [type] ⊆ [type] ++ ts := List.subset_append_left _ _
    refine (grounds_declareType s name.name name.span List.mem_cons_self).next fun declared => ?_
    cases declared with
    | false => exact .none rfl
    | true =>
      exact (grounds_planUnit _ _ htype).next fun unit => .peek fun a => (grounds_setPath type _).next
        fun _ => (grounds_openScope _ _ _).next fun scope =>
          (grounds_markMember scope false htype).next fun _ =>
            ((grounds_openScope _ _ _).inScope scope).next fun inner =>
              (grounds_markMember inner false htype).next fun _ => .pure htype

/-- A type that was opened is a user type. -/
theorem form_openType (name : Ident) (a : Analysis) : ∀ f ∈ ((openType name).run a).1,
    ((openType name).run a).2.types.form f.type = .user := by
  have hbind : ∀ {α β : Type} (m : Analyze α) (f : α → Analyze β) (a : Analysis),
      (m >>= f).run a = (f (m.run a).1).run (m.run a).2 := fun _ _ _ => rfl
  have hnone : ∀ f ∈ (none : Option TypeFinding), ∀ t : TypeTable, t.form f.type = .user :=
    fun f hf => absurd hf (by simp)
  rw [openType, hbind]
  generalize (refuseType name).run a = x
  obtain ⟨refused, b⟩ := x
  cases refused with
  | true => exact fun f hf => hnone f hf _
  | false =>
    set d : TypeDecl := { name := name.name, form := .user }
    set c : Analysis := { b with types := (b.types.add d).2 }
    have hdeclared := run_declareType c.current name.name (b.types.add d).1 name.span c
    have huser : ∀ path, ((b.types.add d).2.setPath (b.types.add d).1 path).form
        (b.types.add d).1 = .user := fun path =>
      (TypeTable.extends_setPath.form _ (TypeTable.has_add_new b.types d)).trans
        (congrArg TypeDecl.form (TypeTable.get_add_new b.types d))
    rw [if_neg Bool.false_ne_true, hbind, hbind, hbind]
    generalize hx : StateT.run (declareType _ _ _ _) _ = x
    replace hx := hx.symm.trans hdeclared
    cases hd : c.scopes.declareType c.current name.name (b.types.add d).1 name.span with
    | error e =>
      rw [hd] at hx
      subst hx
      exact fun f hf => hnone f hf _
    | ok scopes =>
      rw [hd] at hx
      subst hx
      rintro _ ⟨⟩
      exact huser _

/-- What follows on a type counts on a user type when the type was opened. -/
theorem Grounds.opening (name : Ident) {f : Option TypeFinding → Analyze Unit}
    (hnone : Grounds os ts (f .none) anything)
    (hsome : ∀ x, Grounds (x.type :: os) (x.type :: ts) (f (some x)) anything) :
    Grounds os ts (openType name >>= f) anything := by
  intro a ha hos hts
  obtain ⟨hb, hx, hnew⟩ := grounds_openType name a ha hos hts
  have hform := form_openType name a
  have hos' := user_extends hx hos
  have hts' : ∀ t ∈ ts, ((openType name).run a).2.types.Has t := fun t ht => hx.has (hts t ht)
  rw [StateT.run_bind]
  generalize (openType name).run a = x at hb hx hnew hform hos' hts'
  obtain ⟨finding, b⟩ := x
  cases finding with
  | none =>
    obtain ⟨hc, hx', hnew'⟩ := hnone b hb hos' hts'
    exact ⟨hc, hx.trans hx', hnew'⟩
  | some finding =>
    obtain ⟨hc, hx', hnew'⟩ := hsome finding b hb
      (List.forall_mem_cons.mpr ⟨hform finding rfl, hos'⟩)
      (List.forall_mem_cons.mpr ⟨hnew finding.type List.mem_cons_self, hts'⟩)
    exact ⟨hc, hx.trans hx', hnew'⟩

/-! ### Completion -/

theorem grounds_checkClosing (fault : String → String → Fault) (name closing : Ident) :
    Grounds os ts (checkClosing fault name closing) anything := by
  rw [checkClosing]
  split
  · exact grounds_report _ _
  · exact .none rfl

theorem grounds_sourcesOf : (cs : List (String × TypeId)) → {ts : List TypeId} →
    cs.map (·.2) ⊆ ts → Grounds os ts (sourcesOf cs) (List.flatMap CaptureSource.mentions)
  | [], _, _ => .none rfl
  | (name, type) :: rest, ts, h => by
    rw [List.map_cons, List.cons_subset] at h
    refine (grounds_lookup name).bind fun result => ?_
    have hrest : ∀ source : Option CaptureSource,
        optional CaptureSource.mentions source ⊆ result.mentions ++ ts →
        Grounds os (result.mentions ++ ts)
          (sourcesOf rest >>= fun others => Pure.pure (source.toList ++ others))
          (List.flatMap CaptureSource.mentions) := by
      intro source hsource
      refine (grounds_sourcesOf rest (List.subset_append_of_subset_right _ h.2)).bind fun others =>
        .pure ?_
      rw [List.flatMap_append]
      exact List.append_subset.mpr ⟨List.subset_append_of_subset_right _ hsource,
        List.subset_append_left _ _⟩
    cases result with
    | found r access =>
      refine hrest (some { name, type, access }) ?_
      rw [optional, Option.toList_some, List.flatMap_singleton]
      exact List.cons_subset.mpr ⟨List.mem_append_right _ h.1,
        List.subset_append_of_subset_left _ (List.subset_append_right _ _)⟩
    | hidden => exact hrest none (List.nil_subset _)
    | missing => exact hrest none (List.nil_subset _)

theorem grounds_captureSources (s : ScopeId) :
    Grounds os ts (captureSources s) (List.flatMap CaptureSource.mentions) := by
  refine .get (fun a => (a.scopes.get s).mentions) (fun a ha _ => ha.scopes s) fun a =>
    grounds_sourcesOf _ (List.subset_append_of_subset_left _ fun t ht => ?_)
  rw [List.map_map] at ht
  obtain ⟨c, hc, rfl⟩ := List.mem_map.mp ht
  exact Scope.captures_mentions hc List.mem_cons_self

theorem mentions_complete (f : Findings) (node : NodeId) (sources : List CaptureSource) :
    (f.complete node sources).mentions ⊆
      f.mentions ++ sources.flatMap CaptureSource.mentions := by
  have hchange : ∀ e ∈ f.routines.change node ({ · with captures := sources }),
      e.2.mentions ⊆ f.routines.flatMap (·.2.mentions) ++ sources.flatMap CaptureSource.mentions := by
    intro e he t ht
    obtain ⟨e', he', rfl⟩ := List.mem_map.mp he
    have hold : e'.2.mentions ⊆ f.routines.flatMap (·.2.mentions) := fun t ht =>
      List.mem_flatMap.mpr ⟨e', he', ht⟩
    split at ht
    · rcases List.mem_append.mp ht with ht | ht
      · exact List.mem_append_left _ (hold (List.mem_append_left _ ht))
      · exact List.mem_append_right _ ht
    · exact List.mem_append_left _ (hold ht)
  intro t ht
  have hsub : t ∈ (f.routines.change node ({ · with captures := sources })).flatMap (·.2.mentions) →
      t ∈ f.routines.flatMap (·.2.mentions) ++ sources.flatMap CaptureSource.mentions := by
    intro h
    obtain ⟨e, he, ht⟩ := List.mem_flatMap.mp h
    exact hchange e he ht
  simp only [Findings.complete, Findings.mentions, List.mem_append] at ht hsub ⊢
  grind

theorem grounds_finishRoutine (r : RoutineDef) (s : ScopeId) :
    Grounds os ts (finishRoutine r s) anything :=
  (grounds_captureSources s).bind fun sources => (grounds_record fun f =>
    List.Subset.trans (mentions_complete f r.node sources) (List.append_subset.mpr
      ⟨List.subset_append_left _ _, List.subset_append_of_subset_right _
        (List.subset_append_left _ _)⟩)).next fun _ => grounds_checkClosing _ _ _

theorem grounds_finishType (t : TypeDef) {f : TypeFinding} (hf : f.type ∈ ts) :
    Grounds os ts (finishType t f) anything := by
  refine (grounds_captureSources f.scope).bind fun sources =>
    (grounds_record fun x u hu => ?_).next fun _ => grounds_checkClosing _ _ _
  simp only [Findings.mentions, TypeFinding.mentions, NodeTable.write, List.flatMap_cons,
    List.mem_append, List.mem_cons] at hu ⊢
  have heq : u = f.type → u ∈ ts := fun heq => heq ▸ hf
  grind

/-! ## Statements -/

theorem grounds_writeTarget (x : Assignment) (finding : ChainFinding) {target : TypeId}
    (value : TypeId) (ht : target ∈ ts) :
    Grounds os ts (writeTarget x finding target value) anything := by
  refine .get (fun a => a.types.offered target false Reserved.assignment [value])
    (fun a ha _ => ha.offered) fun a => ?_
  dsimp only
  split
  · refine grounds_record fun f u hu => ?_
    simp only [Findings.mentions, AssignFinding.mentions, NodeTable.write, List.flatMap_cons,
      List.mem_append, List.mem_cons] at hu ⊢
    have hmode := @mentions_writeMode a.types target value u
    have heq : u = target → u ∈ ts := fun heq => heq ▸ ht
    grind
  · split <;> exact grounds_report _ _

theorem grounds_assign (x : Assignment) : Grounds os ts (assign x) anything := by
  refine (grounds_chain x.target).bind fun target => (grounds_operand x.value).next fun value => ?_
  cases value with
  | none => exact .none rfl
  | some value =>
    refine .peek fun a => ?_
    split
    · cases target with
      | none => exact grounds_report _ _
      | some target => exact grounds_writeTarget x _ value List.mem_cons_self
    · exact .none rfl

theorem grounds_checkCondition (e : Expr) : Grounds os ts (checkCondition e) anything := by
  refine (grounds_operand e).next fun type => ?_
  cases type with
  | none => exact .none rfl
  | some type =>
    refine .anyTypes fun t => ?_
    split
    · exact .none rfl
    · exact grounds_report _ _

theorem grounds_checkReturn (r : RoutineDef) (result : Option TypeId) :
    Grounds os ts (checkReturn r result) anything := by
  obtain ⟨node, name, closing, params, promised, body, ret, span⟩ := r
  cases ret with
  | none =>
    cases result with
    | none => exact .none rfl
    | some type => exact (grounds_typeName type).next fun _ => grounds_report _ _
  | some ret =>
    cases result with
    | none => exact (grounds_expr ret.value).next fun _ => grounds_report _ _
    | some type =>
      refine (grounds_operand ret.value).next fun value => ?_
      cases value with
      | none => exact .none rfl
      | some value =>
        refine .anyTypes fun t => ?_
        split
        · exact .none rfl
        · exact grounds_report _ _

theorem grounds_openBlock (node : NodeId) : Grounds os ts (openBlock node) anything := by
  have hname : Grounds os ts (modifyGet fun a : Analysis => ((a.scopes.nextBlockName a.current).1,
      { a with scopes := (a.scopes.nextBlockName a.current).2 })) anything := fun a ha hos hts =>
    grounds_updateScope a.current (f := fun s => { s with blockCount := s.blockCount + 1 })
      (fun _ => List.subset_append_left _ _) a ha hos hts
  exact hname.next fun name => (grounds_planUnit _ _ (List.nil_subset _)).next fun unit =>
    (grounds_openScope _ _ _).next fun scope =>
      (grounds_record (f := fun f => { f with blocks := f.blocks.write node scope })
        fun _ => List.subset_append_left _ _).next fun _ => .none rfl

mutual

/-- Statements keep the tables grounded. -/
theorem grounds_stmt {os : List TypeId} : (x : Stmt) → {ts : List TypeId} → Grounds os ts (stmt x) anything
  | .declare d, _ => (grounds_varDecl .var d (List.nil_subset _)).discard
  | .define d, _ => grounds_initDecl d
  | .assign x, _ => grounds_assign x
  | .call c, _ => (grounds_chain c).discard
  | .branch gs otherwise _, _ => (grounds_guardedAll gs).next fun _ => grounds_elseBlock otherwise
  | .loop g, _ => grounds_guarded g
  | .routine r, _ => (grounds_declareRoutine r (List.nil_subset _) (by simp)).next fun declared => by
      cases declared with
      | none => exact .none rfl
      | some declared => exact grounds_routineBody declared r
  | .type t, _ => grounds_typeDef t

theorem grounds_guarded {os : List TypeId} : (g : Guarded) → {ts : List TypeId} → Grounds os ts (guarded g) anything
  | ⟨node, condition, body, _⟩, _ => (grounds_openBlock node).next fun scope =>
      ((grounds_checkCondition condition).next fun _ => grounds_stmts body).inScope scope

theorem grounds_elseBlock {os : List TypeId} : (e : Else) → {ts : List TypeId} → Grounds os ts (elseBlock e) anything
  | .absent, _ => .none rfl
  | .block node body _, _ => (grounds_openBlock node).next fun scope =>
      (grounds_stmts body).inScope scope

theorem grounds_routineBody {os : List TypeId} (d : DeclaredRoutine) : (r : RoutineDef) → {ts : List TypeId} →
    Grounds os ts (routineBody d r) anything
  | ⟨_, _, _, _, _, body, _, _⟩, _ =>
    (((grounds_stmts body).next fun _ => grounds_checkReturn _ d.result).inScope d.scope).next
      fun _ => grounds_finishRoutine _ d.scope

theorem grounds_typeDef {os : List TypeId} : (t : TypeDef) → {ts : List TypeId} → Grounds os ts (typeDef t) anything
  | ⟨node, name, closing, fields, statics, routines, staticRoutines, span⟩, ts => by
    refine Grounds.opening name (.none rfl) fun f => ?_
    have ht : f.type ∈ f.type :: ts := List.mem_cons_self
    have ho : f.type ∈ f.type :: os := List.mem_cons_self
    have hmembers := grounds_members f statics ht ho fields
      (fun ds {_} => grounds_routineBodies ds routines)
      (fun ds {_} => grounds_routineBodies ds staticRoutines)
    exact (hmembers.inScope f.scope).next fun _ => grounds_finishType _ ht

theorem grounds_stmts {os : List TypeId} : (xs : List Stmt) → {ts : List TypeId} → Grounds os ts (stmts xs) anything
  | [], _ => .none rfl
  | x :: xs, _ => (grounds_stmt x).next fun _ => grounds_stmts xs

theorem grounds_guardedAll {os : List TypeId} : (gs : List Guarded) → {ts : List TypeId} →
    Grounds os ts (guardedAll gs) anything
  | [], _ => .none rfl
  | g :: gs, _ => (grounds_guarded g).next fun _ => grounds_guardedAll gs

theorem grounds_routineBodies {os : List TypeId} : (ds : List (Option DeclaredRoutine)) → (rs : List RoutineDef) →
    {ts : List TypeId} → Grounds os ts (routineBodies ds rs) anything
  | some d :: ds, r :: rs, _ => (grounds_routineBody d r).next fun _ => grounds_routineBodies ds rs
  | none :: ds, _ :: rs, _ => grounds_routineBodies ds rs
  | [], [], _ => .none rfl
  | [], _ :: _, _ => .none rfl
  | some _ :: _, [], _ => .none rfl
  | none :: _, [], _ => .none rfl

end

/-! ## Whole programs -/

theorem grounds_declareTypes : (xs : List (String × TypeId)) → {ts : List TypeId} →
    xs.map (·.2) ⊆ ts → Grounds os ts (declareTypes xs) anything
  | [], _, _ => .none rfl
  | (name, type) :: xs, _, h => by
    rw [List.map_cons, List.cons_subset] at h
    exact (grounds_declareType _ name _ h.1).discard.next fun _ => grounds_declareTypes xs h.2

theorem grounds_declareRoutines : (xs : List (String × TypeId)) → {ts : List TypeId} →
    xs.map (·.2) ⊆ ts → Grounds os ts (declareRoutines xs) anything
  | [], _, _ => .none rfl
  | (name, type) :: xs, _, h => by
    rw [List.map_cons, List.cons_subset] at h
    exact (grounds_declare _ _ (List.cons_subset.mpr ⟨h.1, List.nil_subset _⟩)).discard.next
      fun _ => grounds_declareRoutines xs h.2

/-- The predefined types mention each other. -/
theorem predefined_mentions (base : String) (id : TypeId) :
    ∀ t ∈ ((TypeTable.predefined base).get id).mentions, t.index < 6 := by
  by_cases hid : (TypeTable.predefined base).Has id
  · have hall : ∀ i < 6, ∀ t ∈ ((TypeTable.predefined "").get ⟨i⟩).mentions, t.index < 6 := by
      decide
    exact hall id.index hid
  · rw [TypeTable.get_of_not_has hid]
    exact List.forall_mem_nil _

theorem grounded_blank (program : String) : Grounded (blank program) := by
  refine ⟨fun s t ht => ?_, fun id => predefined_mentions _ id, List.forall_mem_nil _,
    fun u t ht => ?_, List.forall_mem_nil _, fun value => ?_, fun id hid => ?_⟩
  · by_cases hs : (blank program).scopes.Has s
    · obtain rfl := Scopes.has_root hs
      exact absurd ht List.not_mem_nil
    · rw [Scopes.get_of_not_has hs] at ht
      exact absurd ht List.not_mem_nil
  · obtain ⟨_ | i⟩ := u <;> exact absurd ht (Option.not_mem_none t)
  · cases value
    exacts [(by decide : 0 < 6), (by decide : 1 < 6), (by decide : 3 < 6), (by decide : 2 < 6)]
  · have hnot : ¬ (TypeTable.predefined (Units.ofProgram program).routineBase).Has id := fun h => by
      rcases (TypeTable.form_predefined h).1 with h' | h' <;> exact absurd (h'.symm.trans hid) (by simp)
    intro s hs
    rw [blank, TypeTable.get_of_not_has hnot] at hs
    exact absurd hs List.not_mem_nil

theorem grounded_initial (program : String) : Grounded (initial program) := by
  have hpredefined : ∀ t ∈ (Predefined.namedTypes ++ Predefined.routines).map (·.2),
      t.index < 6 := by decide
  have h : Grounds [] ((Predefined.namedTypes ++ Predefined.routines).map (·.2)) predefine
      anything :=
    (grounds_declareTypes _ (by decide)).next fun _ => grounds_declareRoutines _ (by decide)
  exact (h _ (grounded_blank program) (List.forall_mem_nil _) hpredefined).1

/-- Whatever is written, the types that are mentioned are in the table. -/
theorem grounded_analyze (program : String) (q : Program) : Grounded (analyze program q) := by
  have h : Grounds [] [] (stmts q.stmts) anything := grounds_stmts q.stmts
  exact (h _ (grounded_initial program) (List.forall_mem_nil _) (List.forall_mem_nil _)).1

end Analysis

end Unnest
