import Unnest.Analysis.Expr
import Unnest.Proofs.Analysis.Rules

/-!
# A value or a report

Where a value is needed, an expression yields one exactly if its analysis reports nothing
(`operand_reports`).  That is what lets the analysis ask, with nothing but the number of
errors before and after, whether a missing value has been explained yet.

`Reports m Q` says of a part `m` of the analysis of an expression what it does on any
tables.  It leaves the scopes as they were, but for captures, and it adds errors at the end
of those that there are (`Leaves`); `Q` holds of its result and of the errors that it adds.
Two such statements carry the induction over expressions:

* the parts of a chain, arguments and operands are `Exact`, that is, without a result if and
  only if they report something;
* an expression may also end without a value and without a report, since a call may have no
  result, so it is only `Clean` when it has a value.

`required` is the step from the second to the first.
-/

namespace Unnest

/-- Everything that a scope is but for its captures. -/
def Scope.withoutCaptures (x : Scope) : Scope := { x with captures := [] }

namespace Analysis

open Analyze

variable {α β : Type} {a b c : Analysis} {es fs : List SemanticError}

/-- What the analysis of an expression that reports `es` does to the tables. -/
structure Leaves (a : Analysis) (es : List SemanticError) (b : Analysis) : Prop where
  current : b.current = a.current
  units : b.units = a.units
  size_eq : b.scopes.size = a.scopes.size
  /-- Every scope declares what it declared, has the same children, and counts the same
  slots and blocks. -/
  scopes : ∀ s, (b.scopes.get s).withoutCaptures = (a.scopes.get s).withoutCaptures
  errors : b.errors = a.errors ++ es

namespace Leaves

theorem refl (a : Analysis) : Leaves a [] a :=
  ⟨rfl, rfl, rfl, fun _ => rfl, (List.append_nil _).symm⟩

theorem trans (h : Leaves a es b) (h' : Leaves b fs c) : Leaves a (es ++ fs) c where
  current := h'.current.trans h.current
  units := h'.units.trans h.units
  size_eq := h'.size_eq.trans h.size_eq
  scopes s := (h'.scopes s).trans (h.scopes s)
  errors := by rw [h'.errors, h.errors, List.append_assoc]

theorem count_eq (h : Leaves a es b) :
    b.diagnostics.count = a.diagnostics.count + es.length := by
  have herrors := congrArg List.length h.errors
  rwa [List.length_append] at herrors

theorem count_eq_iff (h : Leaves a es b) :
    b.diagnostics.count = a.diagnostics.count ↔ es = [] := by
  rw [h.count_eq, Nat.add_eq_left, List.length_eq_zero_iff]

theorem hasErrorsSince (h : Leaves a es b) :
    b.diagnostics.hasErrorsSince a.diagnostics.count = true ↔ es ≠ [] := by
  rw [Diagnostics.hasErrorsSince, decide_eq_true_iff, h.count_eq, Nat.lt_add_right_iff_pos,
    List.length_pos_iff]

end Leaves

/-- What a part of the analysis of an expression does, and what holds of its result and of
the errors that it reports. -/
def Reports (m : Analyze α) (Q : α → List SemanticError → Prop) : Prop :=
  ∀ a, ∃ es, Leaves a es (m.run a).2 ∧ Q (m.run a).1 es

/-- Nothing is reported. -/
def NoReport (_ : α) (es : List SemanticError) : Prop := es = []

/-- There is a result if and only if nothing is reported. -/
def Exact (x : Option α) (es : List SemanticError) : Prop := x.isSome = true ↔ es = []

/-- Nothing is reported along with a result. -/
def Clean (x : Option α) (es : List SemanticError) : Prop := x.isSome = true → es = []

theorem exact_some {x : α} : Exact (some x) [] := iff_of_true rfl rfl

theorem exact_none (h : es ≠ []) : Exact (none : Option α) es := iff_of_false Bool.false_ne_true h

theorem clean_none : Clean (none : Option α) es := fun h => absurd h Bool.false_ne_true

theorem Exact.clean {x : Option α} (h : Exact x es) : Clean x es := h.mp

namespace Reports

variable {m : Analyze α} {P : α → List SemanticError → Prop} {Q : β → List SemanticError → Prop}
  {f : α → Analyze β}

theorem pure {x : α} (h : P x []) : Reports (pure x) P := fun a => ⟨[], .refl a, h⟩

theorem conseq {P' : α → List SemanticError → Prop} (h : Reports m P)
    (hP : ∀ x es, P x es → P' x es) : Reports m P' := fun a => by
  obtain ⟨es, hl, hp⟩ := h a
  exact ⟨es, hl, hP _ _ hp⟩

theorem bind (hm : Reports m P)
    (hf : ∀ x, Reports (f x) fun y fs => ∀ es, P x es → Q y (es ++ fs)) :
    Reports (m >>= f) Q := fun a => by
  obtain ⟨es, hl, hp⟩ := hm a
  obtain ⟨fs, hl', hq⟩ := hf (m.run a).1 (m.run a).2
  exact ⟨es ++ fs, hl.trans hl', hq es hp⟩

/-- One part after another that reports nothing. -/
theorem andThen (hm : Reports m NoReport) (hf : ∀ x, Reports (f x) Q) : Reports (m >>= f) Q :=
  hm.bind fun x => (hf x).conseq fun y fs hq es hes => by
    rw [hes]
    exact hq

/-- A part that needs the result of the one before it: without that there is no result, and
there are reports. -/
theorem onSome {m : Analyze (Option α)} {f : Option α → Analyze β} (hm : Reports m Exact)
    (hsome : ∀ x, Reports (f (some x)) Q)
    (hnone : Reports (f none) fun y fs => ∀ es, es ≠ [] → Q y (es ++ fs)) :
    Reports (m >>= f) Q := by
  refine hm.bind fun x => ?_
  cases x with
  | some x =>
    refine (hsome x).conseq fun y fs hq es hes => ?_
    rw [hes.mp rfl]
    exact hq
  | none =>
    refine hnone.conseq fun y fs hq es hes => hq es ?_
    rintro rfl
    exact Bool.false_ne_true (hes.mpr rfl)

/-- The result of nothing is nothing. -/
theorem missing : Reports (Pure.pure none : Analyze (Option β)) fun y fs =>
    ∀ es, es ≠ [] → Exact y (es ++ fs) :=
  .pure fun _ hes => exact_none (List.append_ne_nil_of_left_ne_nil hes [])

end Reports

/-! ## Single steps -/

theorem reports_read (f : Analysis → α) : Reports (return f (← get)) NoReport :=
  fun a => ⟨[], .refl a, rfl⟩

theorem reports_record (f : Findings → Findings) : Reports (record f) NoReport :=
  fun _ => ⟨[], ⟨rfl, rfl, rfl, fun _ => rfl, (List.append_nil _).symm⟩, rfl⟩

theorem leaves_report (a : Analysis) (e : SemanticError) : Leaves a [e] ((reportError e).run a).2 :=
  ⟨rfl, rfl, rfl, fun _ => rfl, rfl⟩

/-- A report and no result. -/
theorem reports_reject (fault : Fault) (span : Span) :
    Reports (report fault span >>= fun _ => pure (none : Option α)) Exact :=
  fun a => ⟨_, leaves_report a ⟨fault, span⟩, exact_none (List.cons_ne_nil _ _)⟩

/-- A lookup changes nothing but captures. -/
theorem reports_lookup (name : String) : Reports (lookup name) NoReport := fun a => by
  refine ⟨[], ?_, rfl⟩
  rw [run_lookup]
  split
  · refine ⟨rfl, rfl, Scopes.size_foldl_pushCapture _ _ _, fun s => ?_, (List.append_nil _).symm⟩
    exact Scopes.get_capture_congr Scope.withoutCaptures (fun _ _ => rfl) _ _ _ _ s
  · exact .refl a

theorem reports_memberRoutine (owner : TypeId) (isStatic : Bool) (name : String) :
    Reports (memberRoutine owner isStatic name) NoReport :=
  fun _ => ⟨[], ⟨rfl, rfl, rfl, fun _ => rfl, (List.append_nil _).symm⟩, rfl⟩

theorem reports_types : Reports Analyze.types NoReport := reports_read Analysis.types

theorem reports_typeName (type : TypeId) : Reports (typeName type) NoReport :=
  reports_read fun a => a.types.name type

theorem reports_resolveType (name : String) : Reports (resolveType name) NoReport :=
  reports_read fun a => a.scopes.resolveType a.current name

theorem reports_recordLink (node : NodeId) (f : LinkFinding) :
    Reports (recordLink node f) NoReport := reports_record _

/-- A record and a result. -/
theorem Reports.andSome {m : Analyze Unit} (hm : Reports m NoReport) (x : α) :
    Reports (m >>= fun _ => Pure.pure (some x)) Exact :=
  hm.andThen fun _ => .pure exact_some

theorem reports_recordCall (node : NodeId) (owner : TypeId) (routine : Signature)
    (callee : Callee) : Reports (recordCall node owner routine callee) Exact :=
  (reports_recordLink node _).andSome _

theorem reports_reportNoRoutine (name : String) (args : List TypeId) (owner : Option TypeId)
    (span : Span) : Reports (reportNoRoutine name args owner span) Exact :=
  reports_types.andThen fun _ => reports_reject _ _

/-! ## Links -/

section Links

variable {node : NodeId} {name : String} {span : Span} {args : ArgumentTypes}

theorem reports_bareHead (hasMore : Bool) : Reports (bareHead node name span hasMore) Exact := by
  refine (reports_lookup name).andThen fun result => ?_
  cases result with
  | found r access => exact (reports_recordLink node _).andSome _
  | hidden => exact reports_reject _ _
  | missing =>
    refine (reports_resolveType name).andThen fun type => ?_
    cases type with
    | none => exact reports_reject _ _
    | some type =>
      cases hasMore with
      | true => exact (reports_recordLink node _).andSome _
      | false => exact reports_reject _ _

theorem reports_callType (hargs : Reports args Exact) (type : TypeId) :
    Reports (callType node type span args) Exact := by
  refine hargs.onSome (fun ts => reports_types.andThen fun t => ?_) .missing
  split
  · exact reports_recordCall _ _ _ _
  · split
    · exact (reports_recordLink node _).andSome _
    · exact reports_reportNoRoutine _ _ _ _

theorem reports_callHead (hargs : Reports args Exact) :
    Reports (callHead node name span args) Exact := by
  refine (reports_lookup name).andThen fun result => ?_
  cases result with
  | found r access =>
    refine hargs.onSome (fun ts => reports_types.andThen fun t => ?_) .missing
    split
    · exact reports_recordCall _ _ _ _
    · exact reports_reportNoRoutine _ _ _ _
  | hidden => exact reports_reject _ _
  | missing =>
    refine (reports_resolveType name).andThen fun type => ?_
    cases type with
    | none => exact reports_reject _ _
    | some type => exact reports_callType hargs type

theorem reports_bareMember (owner : TypeId) (isStatic : Bool) :
    Reports (bareMember owner isStatic node name span) Exact := by
  have hread : Reports (readMember owner isStatic name) NoReport := by
    refine reports_types.andThen fun t => ?_
    split
    · exact .pure rfl
    · exact reports_memberRoutine owner isStatic name
  refine hread.andThen fun field => ?_
  cases field with
  | some field => exact (reports_recordLink node _).andSome _
  | none =>
    refine (reports_typeName owner).andThen fun ownerName => ?_
    cases isStatic <;> exact reports_reject _ _

theorem reports_callMember (hargs : Reports args Exact) (owner : TypeId) (isStatic : Bool) :
    Reports (callMember owner isStatic node name span args) Exact := by
  refine hargs.onSome (fun ts => reports_types.andThen fun t => ?_) .missing
  split
  · exact reports_recordCall _ _ _ _
  · split
    · exact reports_recordCall _ _ _ _
    · exact reports_reportNoRoutine _ _ _ _

theorem reports_onReceiver {before : Produced} {link : TypeId → Bool → Analyze (Option Produced)}
    (hl : ∀ owner isStatic, Reports (link owner isStatic) Exact) :
    Reports (onReceiver before span link) Exact := by
  rw [onReceiver]
  split
  · exact hl _ _
  · exact reports_reject _ _

end Links

/-- The end of a chain reports that a type is no value; a call without a result is no
fault of the chain. -/
theorem reports_finishChain (node : NodeId) (span : Span) (last : Produced) :
    Reports (finishChain node span last) Clean := by
  cases last with
  | value type binding => exact (reports_record _).andThen fun _ => .pure fun _ => rfl
  | nothing => exact (reports_record _).andThen fun _ => .pure clean_none
  | typeName type =>
    exact (reports_typeName type).andThen fun _ =>
      (reports_reject _ _).conseq fun _ _ => Exact.clean

/-! ## Operators and operands -/

theorem reports_operator (node : NodeId) (name : String) (owner : TypeId) (isStatic : Bool)
    (args : List TypeId) (span : Span) :
    Reports (operator node name owner isStatic args span) Clean := by
  refine reports_types.andThen fun t => ?_
  split
  · exact (reports_record _).andThen fun _ => .pure fun _ => rfl
  · exact (reports_reject _ _).conseq fun _ _ => Exact.clean

theorem reports_typed (node : NodeId) {part : Analyze (Option TypeId)}
    (h : Reports part Clean) : Reports (typed node part) Clean := by
  refine h.bind fun type => ?_
  cases type with
  | none => exact .pure fun _ _ => clean_none
  | some type =>
    refine (reports_record _).andThen fun _ => .pure fun es hes _ => ?_
    rw [hes rfl]
    rfl

/-- A missing value is reported where nothing was reported that explains it. -/
theorem run_required (span : Span) (part : Analyze (Option TypeId)) (a : Analysis) :
    (required span part).run a =
      if (part.run a).1 = none ∧
          (part.run a).2.diagnostics.hasErrorsSince a.diagnostics.count = false then
        (none, ((report .noValue span).run (part.run a).2).2)
      else part.run a := by
  -- the run of one part after another is by definition a run from where the first one ends
  have hrun : (required span part).run a = StateT.run (m := Id) (do
      if (part.run a).1.isNone then
        if !(← get).diagnostics.hasErrorsSince a.diagnostics.count then report .noValue span
      return (part.run a).1) (part.run a).2 := rfl
  rw [hrun]
  obtain ⟨type, b⟩ := part.run a
  cases type with
  | some type => rfl
  | none =>
    simp only [Option.isNone_none, if_true, StateT.run_bind, StateT.run_get, pure_bind, true_and]
    cases b.diagnostics.hasErrorsSince a.diagnostics.count <;> rfl

/-- Where a value is needed, a missing one is explained exactly once. -/
theorem reports_required (span : Span) {part : Analyze (Option TypeId)}
    (h : Reports part Clean) : Reports (required span part) Exact := fun a => by
  obtain ⟨es, hl, hq⟩ := h a
  rw [run_required]
  split
  · exact ⟨_, hl.trans (leaves_report _ ⟨.noValue, span⟩),
      exact_none (List.append_ne_nil_of_right_ne_nil es (List.cons_ne_nil _ _))⟩
  · rename_i hexplained
    refine ⟨es, hl, hq, fun hes => ?_⟩
    rw [not_and, Bool.not_eq_false, hl.hasErrorsSince] at hexplained
    exact Option.isSome_iff_ne_none.mpr fun hnone => hexplained hnone hes

mutual

/-- An expression reports nothing along with a value. -/
theorem reports_expr : (e : Expr) → Reports (expr e) Clean
  | .literal node value _ => reports_typed node (.pure fun _ => rfl)
  | .binary node op left right span => by
    refine reports_typed node ?_
    refine (reports_required _ (reports_expr left)).onSome (fun l => ?_) ?_
    · exact (reports_required _ (reports_expr right)).onSome
        (fun r => reports_operator node _ _ _ _ _) (.pure fun _ _ => clean_none)
    · -- the right operand is analysed all the same
      exact (reports_required _ (reports_expr right)).bind fun _ =>
        .pure fun _ _ _ _ => clean_none
  | .unary node op operand span =>
    reports_typed node <| (reports_required _ (reports_expr operand)).onSome
      (fun o => reports_operator node _ _ _ _ _) (.pure fun _ _ => clean_none)
  | .paren node inner _ => reports_typed node (reports_expr inner)
  | .chain c => reports_typed c.node (reports_chain c)

theorem reports_chain : (c : Chain) → Reports (chain c) Clean
  | ⟨_, [], _⟩ => .pure clean_none
  | ⟨node, head :: rest, span⟩ => by
    refine (reports_headLink (!rest.isEmpty) head).onSome (fun first => ?_)
      (.pure fun _ _ => clean_none)
    exact (reports_memberLinks first rest).onSome (fun last => reports_finishChain node span last)
      (.pure fun _ _ => clean_none)

theorem reports_headLink (hasMore : Bool) : (l : Link) → Reports (headLink hasMore l) Exact
  | .bare _ _ _ => reports_bareHead hasMore
  | .call _ _ args _ => reports_callHead (reports_arguments args)

theorem reports_memberLink (before : Produced) : (l : Link) → Reports (memberLink before l) Exact
  | .bare _ _ _ => reports_onReceiver fun owner isStatic => reports_bareMember owner isStatic
  | .call _ _ args _ => reports_onReceiver fun owner isStatic =>
      reports_callMember (reports_arguments args) owner isStatic

theorem reports_memberLinks (before : Produced) : (ls : List Link) →
    Reports (memberLinks before ls) Exact
  | [] => .pure exact_some
  | l :: ls => (reports_memberLink before l).onSome
      (fun produced => reports_memberLinks produced ls) .missing

/-- Arguments have types exactly if every one of them has a value. -/
theorem reports_arguments : (es : List Expr) → Reports (arguments es) Exact
  | [] => .pure exact_some
  | e :: es => by
    refine (reports_required _ (reports_expr e)).bind fun first => ?_
    refine (reports_arguments es).bind fun rest => .pure fun fs hrest gs hfirst => ?_
    rw [Exact] at hfirst hrest
    rw [Exact, List.append_nil, List.append_eq_nil_iff, ← hfirst, ← hrest]
    cases first with
    | none => exact iff_of_false Bool.false_ne_true fun h => Bool.false_ne_true h.1
    | some type =>
      rw [Option.bind_some, Option.isSome_map]
      exact (and_iff_right rfl).symm

end

/-- Whatever the tables are, an expression that is needed as a value has one exactly if its
analysis leaves as many errors as there were.  An expression that has a type anyway reports
nothing; one that has none and reports nothing is reported once where it is needed.  What
the analysis leaves in the tables is captures, types, findings and further errors. -/
theorem operand_reports (e : Expr) (a : Analysis) :
    (((operand e).run a).1.isSome = true ↔
      ((operand e).run a).2.diagnostics.count = a.diagnostics.count) ∧
    (((expr e).run a).1.isSome = true →
      ((expr e).run a).2.diagnostics.count = a.diagnostics.count) ∧
    (((expr e).run a).1 = none → ((expr e).run a).2.diagnostics.count = a.diagnostics.count →
      ((operand e).run a).2.errors = a.errors ++ [⟨.noValue, e.span⟩]) ∧
    (∃ es, Leaves a es ((expr e).run a).2) ∧ ∃ es, Leaves a es ((operand e).run a).2 := by
  obtain ⟨es, hexpr, hquiet⟩ := reports_expr e a
  obtain ⟨fs, hoperand, hexact⟩ := reports_required e.span (reports_expr e) a
  refine ⟨hexact.trans hoperand.count_eq_iff.symm, fun h => hexpr.count_eq_iff.mpr (hquiet h),
    fun hnone hcount => ?_, ⟨es, hexpr⟩, fs, hoperand⟩
  have hes := hexpr.count_eq_iff.mp hcount
  have hsince : ((expr e).run a).2.diagnostics.hasErrorsSince a.diagnostics.count = false :=
    Bool.eq_false_iff.mpr fun h => hexpr.hasErrorsSince.mp h hes
  have hreport := leaves_report ((expr e).run a).2 ⟨.noValue, e.span⟩
  rw [operand, run_required, if_pos ⟨hnone, hsince⟩]
  exact hreport.errors.trans (by rw [hexpr.errors, hes, List.append_nil])

/-- The call `print("s")`, which has no result. -/
def printing : Expr := .chain ⟨⟨0⟩, [.call ⟨1⟩ ⟨Reserved.print, .unknown⟩
  [.literal ⟨2⟩ (.string "s") .unknown] .unknown], .unknown⟩

/-- A call without a result is no error, and one error where a value is needed. -/
theorem operand_reports_printing :
    ((expr printing).run (initial "demo")).1 = none ∧
    ((expr printing).run (initial "demo")).2.diagnostics.count =
      (initial "demo").diagnostics.count ∧
    ((operand printing).run (initial "demo")).2.errors =
      (initial "demo").errors ++ [⟨.noValue, printing.span⟩] := by
  have hnone : ((expr printing).run (initial "demo")).1 = none := by decide +kernel
  have hcount : ((expr printing).run (initial "demo")).2.diagnostics.count =
      (initial "demo").diagnostics.count := by decide +kernel
  exact ⟨hnone, hcount, (operand_reports printing (initial "demo")).2.2.1 hnone hcount⟩

end Analysis

end Unnest
