import Unnest.Proofs.Analysis.History
import Unnest.Proofs.Analysis.Origins
import Unnest.Proofs.Analysis.Ranges

/-!
# Lookups that last

What a link, an operator or a declaration looks up is looked up in the types of that moment.
The types go on growing, and the same lookup is asked again on a later table: here it is
said what has to hold of the two for the answers to be the same.

`Part.Resolved z t` is the question.  The findings of `z` name the routine that a part of
the tree calls, and the types of its operands and arguments; looking these up in `t` has to
give that routine again.  `Firm z t a` is the condition: the user types of the moment have the
routines that they have in `t`.  No part of an expression adds a user type or gives one a
routine, so a firm state stays firm (`Firm.after`), and all parts of an expression that is
analysed in one are resolved (`settles_expr`).
-/

namespace Unnest

/-- A type that has not got any routines yet. -/
def TypeDecl.withoutRoutines (d : TypeDecl) : TypeDecl :=
  { d with routines := [], staticRoutines := [] }

namespace TypeTable

variable {t t' : TypeTable} {id type : TypeId}

/-- The table in which a type has not got any routines yet. -/
def withoutRoutines (t : TypeTable) (type : TypeId) : TypeTable :=
  t.update type TypeDecl.withoutRoutines

/-- One table has the types of another, but for the routines of user types. -/
structure Outlines (t t' : TypeTable) : Prop where
  size : t.size = t'.size
  base : t.routineBase = t'.routineBase
  kept : t.memberTypes = t'.memberTypes
  form : ∀ id, t.form id = t'.form id
  fields : ∀ id isStatic, (t.get id).fieldsOf isStatic = (t'.get id).fieldsOf isStatic
  get : ∀ id, t'.form id ≠ .user → t.get id = t'.get id

theorem Outlines.refl (t : TypeTable) : Outlines t t :=
  ⟨rfl, rfl, rfl, fun _ => rfl, fun _ _ => rfl, fun _ _ => rfl⟩

theorem get_withoutRoutines_self (h : t.form type = .user) :
    (t.withoutRoutines type).get type = (t.get type).withoutRoutines :=
  get_update_self (has_of_user h) _

theorem get_withoutRoutines_of_ne (h : type ≠ id) :
    (t.withoutRoutines type).get id = t.get id :=
  get_update_of_ne h _

theorem outlines_withoutRoutines (h : t.form type = .user) :
    Outlines (t.withoutRoutines type) t := by
  refine ⟨size_update .., rfl, rfl, fun id => ?_, fun id isStatic => ?_, fun id hid => ?_⟩
  · by_cases heq : type = id
    · subst heq
      rw [form, get_withoutRoutines_self h]
      rfl
    · rw [form, get_withoutRoutines_of_ne heq, form]
  · by_cases heq : type = id
    · subst heq
      rw [get_withoutRoutines_self h]
      cases isStatic <;> rfl
    · rw [get_withoutRoutines_of_ne heq]
  · refine get_withoutRoutines_of_ne ?_
    rintro rfl
    exact hid h

end TypeTable

/-! ## The question -/

namespace Analysis

variable (z : Analysis) (t : TypeTable)

/-- These are the types that are recorded for expressions. -/
def OfTypes (es : List Expr) (ts : List TypeId) : Prop :=
  List.Forall₂ (fun e type => z.findings.exprTypes.find? e.node = some type) es ts

/-- What is recorded for the first link of a chain is what the types have for it. -/
inductive HeadResolved : Link → Prop
  | bare {node : NodeId} {name : Ident} {span : Span} : HeadResolved (.bare node name span)
  | binding {node : NodeId} {name : Ident} {args : List Expr} {span : Span} {ts : List TypeId}
      {b : Binding} {access : Access} {routine : Signature} (types : OfTypes z args ts)
      (record : z.findings.links.find? node = some (.call b.type routine (.binding b access)))
      (found : t.lookup b.type false Reserved.call ts = some routine) :
      HeadResolved (.call node name args span)
  | type {node : NodeId} {name : Ident} {args : List Expr} {span : Span} {ts : List TypeId}
      {type : TypeId} {routine : Signature} (types : OfTypes z args ts)
      (record : z.findings.links.find? node = some (.call type routine (.member true)))
      (found : t.lookup type true Reserved.call ts = some routine) :
      HeadResolved (.call node name args span)
  | construct {node : NodeId} {name : Ident} {span : Span} {type : TypeId}
      (record : z.findings.links.find? node = some (.construct type))
      (nothing : t.lookup type true Reserved.call [] = none) :
      HeadResolved (.call node name [] span)

/-- What is recorded for a later link is what its owner has under its name: a field, or else
member routines as one value, where the link is bare; and where it is called, the first
routine that takes the arguments, or else a routine value in a field that takes them. -/
inductive LaterResolved : Link → Prop
  | field {node : NodeId} {name : Ident} {span : Span} {owner : TypeId} {isStatic : Bool}
      {b : Binding} (record : z.findings.links.find? node = some (.field owner b))
      (found : t.lookupField owner isStatic name.name = some b) :
      LaterResolved (.bare node name span)
  | routines {node : NodeId} {name : Ident} {span : Span} {owner : TypeId} {isStatic : Bool}
      {b : Binding} (record : z.findings.links.find? node = some (.field owner b))
      (found : (t.memberRoutine owner isStatic name.name).1 = some b) :
      LaterResolved (.bare node name span)
  | member {node : NodeId} {name : Ident} {args : List Expr} {span : Span} {ts : List TypeId}
      {owner : TypeId} {isStatic : Bool} {routine : Signature} (types : OfTypes z args ts)
      (record : z.findings.links.find? node = some (.call owner routine (.member isStatic)))
      (found : t.lookup owner isStatic name.name ts = some routine) :
      LaterResolved (.call node name args span)
  | value {node : NodeId} {name : Ident} {args : List Expr} {span : Span} {ts : List TypeId}
      {owner : TypeId} {isStatic : Bool} {b : Binding} {routine : Signature}
      (types : OfTypes z args ts)
      (record : z.findings.links.find? node =
        some (.call b.type routine (.fieldValue b isStatic)))
      (nothing : t.lookup owner isStatic name.name ts = none)
      (field : t.lookupField owner isStatic name.name = some b)
      (found : t.lookup b.type false Reserved.call ts = some routine) :
      LaterResolved (.call node name args span)

/-- What is recorded for every link of a chain is what the types have for it. -/
inductive ChainResolved : Chain → Prop
  | nil {node : NodeId} {span : Span} : ChainResolved ⟨node, [], span⟩
  | cons {node : NodeId} {head : Link} {rest : List Link} {span : Span}
      (first : HeadResolved z t head) (later : ∀ l ∈ rest, LaterResolved z t l) :
      ChainResolved ⟨node, head :: rest, span⟩

/-- What is recorded for an operator is what the types have for it. -/
inductive ExprResolved : Expr → Prop
  | literal {node : NodeId} {value : Literal} {span : Span} :
      ExprResolved (.literal node value span)
  | binary {node : NodeId} {op : BinaryOp} {left right : Expr} {span : Span} {l r : TypeId}
      {routine : Signature} (operands : OfTypes z [left, right] [l, r])
      (record : z.findings.operators.find? node = some ⟨l, routine, false⟩)
      (found : t.lookup l false op.routine [r] = some routine) :
      ExprResolved (.binary node op left right span)
  | unary {node : NodeId} {op : UnaryOp} {operand : Expr} {span : Span} {o : TypeId}
      {routine : Signature} (operands : OfTypes z [operand] [o])
      (record : z.findings.operators.find? node = some ⟨o, routine, true⟩)
      (found : t.lookup o true op.routine [o] = some routine) :
      ExprResolved (.unary node op operand span)
  | paren {node : NodeId} {inner : Expr} {span : Span} : ExprResolved (.paren node inner span)
  | chain {c : Chain} (h : ChainResolved z t c) : ExprResolved (.chain c)

/-- An initial value is recorded to be written as the types have it: by the assignment routine
that the declared type has for values of its type, and by storing when there is none. -/
def InitResolved (node : NodeId) (value : Expr) : Prop :=
  ∃ f v, z.findings.decls.find? node = some f ∧ OfTypes z [value] [v] ∧
    f.mode = some (Analyze.writeMode t f.type v)

/-- So is an assigned value.  Nothing is assigned to a chain without links. -/
def AssignResolved (x : Assignment) : Prop :=
  x.target.links ≠ [] → ∃ f v, z.findings.assigns.find? x.node = some f ∧
    OfTypes z [x.value] [v] ∧ f.mode = Analyze.writeMode t f.target v

end Analysis

open Analysis in
/-- What is recorded for a part is what the types have for it. -/
def Part.Resolved (z : Analysis) (t : TypeTable) : Part → Prop
  | .expr e => ExprResolved z t e
  | .chain c => ChainResolved z t c
  | .define d => InitResolved z t d.node d.value
  | .staticField f => InitResolved z t f.decl.node f.init
  | .assign x => AssignResolved z t x
  | .link _ | .block _ | .declare _ | .routine _ | .type _ => True

namespace Analysis

open Analyze TypeTable

variable {program : String} {q : Program} {z a b c : Analysis} {t : TypeTable} {P : Permit}

/-! ## Firm states -/

/-- The user types of a state have the routines that they have in another table, which has the
types that there are at the end. -/
structure Firm (z : Analysis) (t : TypeTable) (a : Analysis) : Prop where
  outlines : t.Outlines z.types
  same : ∀ id isStatic, a.types.form id = .user →
    (t.get id).routinesOf isStatic = (a.types.get id).routinesOf isStatic

namespace Firm

/-- Without new user types and new routines, a firm state stays firm. -/
theorem after (h : Firm z t a) (hab : Changes .reading a b)
    (husers : ∀ id, b.types.form id = .user → a.types.form id = .user) : Firm z t b := by
  refine ⟨h.outlines, fun id isStatic hid => ?_⟩
  have hold := husers id hid
  rw [h.same id isStatic hold]
  exact (hab.routinesOf_eq (fun hgives => hgives) (has_of_user hold) isStatic).symm

theorem enter (h : Firm z t a) (s : ScopeId) : Firm z t { a with current := s } :=
  ⟨h.outlines, h.same⟩

/-- What a firm state finds is found at the end. -/
theorem keeps (h : Firm z t a) (haz : Changes P a z) : a.types.KeepsRoutines t := by
  obtain ⟨hx, ho⟩ := haz.extends, h.outlines
  have hsame : ∀ id isStatic, a.types.Has id →
      (t.get id).routinesOf isStatic = (a.types.get id).routinesOf isStatic := by
    intro id isStatic hid
    by_cases huser : a.types.form id = .user
    · exact h.same id isStatic huser
    · have hform := (haz.lasts.form id hid).trans_ne huser
      rw [ho.get id hform, haz.lasts.get id hid huser]
  refine ⟨⟨ho.size ▸ hx.size_le, ho.base.trans hx.base, fun id hid => ?_, fun id isStatic hid => ?_,
    fun id isStatic hid => ?_⟩, hsame, ho.kept ▸ haz.lasts.kept⟩
  · exact (ho.form id).trans (hx.form id hid)
  · exact hsame id isStatic hid ▸ List.prefix_refl _
  · exact ho.fields id isStatic ▸ hx.fields id isStatic hid

end Firm

/-! ## Settled parts -/

/-- A part of the analysis reads the types without giving any a routine, and when the end is
accepted its result is as `Q` says. -/
structure Settles {α : Type} (z a : Analysis) (m : Analyze α) (Q : α → Prop) : Prop where
  changes : Changes .reading a (m.run a).2
  holds : Changes .both (m.run a).2 z → Q (m.run a).1

namespace Settles

variable {α β : Type} {m : Analyze α} {Q R : α → Prop}

theorem pure {x : α} (h : Q x) : Settles z a (Pure.pure x) Q := ⟨.refl, fun _ => h⟩

theorem conseq (hm : Settles z a m Q) (h : Changes .both a z → ∀ x, Q x → R x) :
    Settles z a m R :=
  ⟨hm.changes, fun hbz => h ((hm.changes.mono (Permit.within_both _)).trans hbz) _ (hm.holds hbz)⟩

theorem bind {f : α → Analyze β} {R : β → Prop} (hm : Settles z a m Q)
    (hf : ∀ x b, m.run a = (x, b) → Settles z b (f x) fun y => Q x → R y) :
    Settles z a (m >>= f) R := by
  obtain ⟨hchanges, hholds⟩ := hf _ _ rfl
  exact ⟨hm.changes.trans hchanges, fun hcz =>
    hholds hcz (hm.holds ((hchanges.mono (Permit.within_both _)).trans hcz))⟩

/-- The end comes after what the part starts with. -/
theorem known (hm : Settles z a m Q) : Settles z a m fun x => Q x ∧ Changes .both a z :=
  hm.conseq fun haz _ hx => ⟨hx, haz⟩

/-- A part of which nothing has to be known. -/
theorem of_alters (hm : Alters .reading m) : Settles z a m fun _ => True :=
  ⟨(hm a).changes, fun _ => trivial⟩

theorem types {f : TypeTable → Analyze α} (hf : Settles z a (f a.types) Q) :
    Settles z a (Analyze.types >>= f) Q := ⟨hf.changes, hf.holds⟩

/-- What comes to nothing at an accepted end comes to anything. -/
theorem refused (hm : Settles z a m fun _ => False) : Settles z a m Q :=
  hm.conseq fun _ _ h => h.elim

end Settles

/-- A firm state in which these types are there. -/
structure Asks (z : Analysis) (t : TypeTable) (ts : List TypeId) (a : Analysis) : Prop where
  firm : Firm z t a
  supplies : Supplies [] ts a

namespace Asks

variable {α : Type} {m : Analyze α} {Q : α → Prop} {x : α} {ts us : List TypeId}
  {new : α → List TypeId}

theorem after (h : Asks z t ts a) (hm : Settles z a m Q) (hn : AddsNoUser m)
    (hg : Grounds [] ts m new) (hrun : m.run a = (x, b)) : Asks z t (new x ++ ts) b := by
  have hfirm := h.firm.after hm.changes (hn a)
  have hsupplies := h.supplies.after hg
  rw [hrun] at hfirm hsupplies
  exact ⟨hfirm, hsupplies⟩

theorem mono (h : Asks z t ts a) (hus : us ⊆ ts) : Asks z t us a :=
  ⟨h.firm, h.supplies.mono (List.Subset.refl _) hus⟩

/-- The types that were there are still there. -/
theorem still (h : Asks z t ts a) (hm : Settles z a m Q) (hn : AddsNoUser m)
    (hg : Grounds [] ts m new) (hrun : m.run a = (x, b)) : Asks z t ts b :=
  (h.after hm hn hg hrun).mono (List.subset_append_right _ ts)

/-- What is looked up among these types is looked up at the end with the same answer. -/
theorem lookup_eq (h : Asks z t ts a) (haz : Changes P a z) {owner : TypeId} {args : List TypeId}
    (isStatic : Bool) (name : String) (howner : owner ∈ ts) (hargs : args ⊆ ts) :
    t.lookup owner isStatic name args = a.types.lookup owner isStatic name args :=
  (h.firm.keeps haz).lookup_eq h.supplies.grounded.closed (h.supplies.has owner howner) isStatic
    name fun x hx => h.supplies.has x (hargs hx)

end Asks

section Exprs

variable (hz : Accepted z)
include hz

/-- Nothing was reported on the way to an accepted end. -/
theorem Accepted.not_reported (hbz : Changes P b z) : b.errors = [] :=
  List.prefix_nil.mp (hz.errors ▸ hbz.errors)

theorem settles_report (fault : Fault) (span : Span) :
    Settles z a (report fault span) fun _ => False :=
  ⟨(alters_report fault span a).changes, fun hbz =>
    List.append_ne_nil_of_right_ne_nil a.errors (List.cons_ne_nil _ []) (hz.not_reported hbz)⟩

theorem settles_reject {α : Type} (fault : Fault) (span : Span) (x : α) :
    Settles z a (report fault span >>= fun _ => pure x) fun _ => False :=
  (settles_report hz fault span).bind fun _ _ _ => .pure fun h => h

/-- Something is written, and found at the end. -/
theorem settles_record {k : Key} {f : Findings → Findings} {P : Findings → Prop}
    (hf : ∀ x : Findings, x.Adds k (f x))
    (hP : ∀ x y : Findings, (f x).Grows y → y.keys.Nodup → P y) :
    Settles z a (record f) fun _ => P z.findings :=
  ⟨(alters_record hf a).changes, fun hbz => hP a.findings z.findings hbz.findings hz.keys⟩

theorem settles_recordLink (node : NodeId) (f : LinkFinding) :
    Settles z a (recordLink node f) fun _ => z.findings.links.find? node = some f :=
  settles_record hz (P := fun x => x.links.find? node = some f) (fun _ => .link node f)
    fun _ _ hg hkeys => (Findings.nodup_links hkeys).find?_eq (hg.links List.mem_cons_self)

theorem settles_recordCall (node : NodeId) (owner : TypeId) (routine : Signature)
    (callee : Callee) : Settles z a (recordCall node owner routine callee) fun r =>
      r.isSome = true ∧ z.findings.links.find? node = some (.call owner routine callee) :=
  (settles_recordLink hz node _).bind fun _ _ _ => .pure fun h => ⟨rfl, h⟩

theorem settles_reportNoRoutine (name : String) (args : List TypeId) (owner : Option TypeId)
    (span : Span) : Settles z a (reportNoRoutine name args owner span) fun _ => False :=
  .types (settles_reject hz _ _ _)

/-! ### Operators -/

theorem settles_operator (h : Firm z t a) (node : NodeId) (name : String) (owner : TypeId)
    (isStatic : Bool) (args : List TypeId) (span : Span) :
    Settles z a (operator node name owner isStatic args span) fun _ => ∃ routine,
      z.findings.operators.find? node = some ⟨owner, routine, isStatic⟩ ∧
        t.lookup owner isStatic name args = some routine := by
  refine .types ?_
  split
  · rename_i routine hl
    have hrecord := settles_record hz (a := a)
      (P := fun x => x.operators.find? node = some ⟨owner, routine, isStatic⟩)
      (fun _ => .operator node ⟨owner, routine, isStatic⟩) fun _ _ hg hkeys =>
        (Findings.nodup_operators hkeys).find?_eq (hg.operators List.mem_cons_self)
    exact hrecord.known.bind fun _ _ _ => .pure fun h' =>
      ⟨routine, h'.1, (h.keeps h'.2).lookup hl⟩
  · exact (settles_reject hz _ _ _).refused

theorem settles_required {m : Analyze (Option TypeId)} {Q : Option TypeId → Prop}
    (hm : Settles z a m Q) (span : Span) :
    Settles z a (required span m) fun r => Q r ∧ ∃ type, r = some type := by
  have hnone := settles_report hz (a := (m.run a).2) .noValue span
  refine ⟨?_, ?_⟩ <;> rw [run_required]
  · split
    · exact hm.changes.trans hnone.changes
    · exact hm.changes
  · split
    · exact fun hbz => (hnone.holds hbz).elim
    · rename_i hnot
      refine fun hbz => ⟨hm.holds hbz, Option.ne_none_iff_exists'.mp fun hr => hnot ⟨hr, ?_⟩⟩
      -- without any error there is none that could explain a missing value
      have herrors : (m.run a).2.diagnostics.errors = [] := hz.not_reported hbz
      rw [Diagnostics.hasErrorsSince, Diagnostics.count, Diagnostics.count, herrors]
      exact decide_eq_false (Nat.not_lt_zero _)

theorem settles_typed {m : Analyze (Option TypeId)} {Q : Option TypeId → Prop}
    (hm : Settles z a m Q) (node : NodeId) : Settles z a (typed node m) fun r => Q r ∧
      ∀ type, r = some type → z.findings.exprTypes.find? node = some type := by
  refine hm.bind fun r b _ => ?_
  cases r with
  | none => exact .pure fun h => ⟨h, fun _ hr => absurd hr (by simp)⟩
  | some type =>
    have hrecord := settles_record hz (a := b)
      (P := fun x => x.exprTypes.find? node = some type) (fun _ => .exprType node type)
      fun _ _ hg hkeys =>
        (Findings.nodup_exprTypes hkeys).find?_eq (hg.exprTypes List.mem_cons_self)
    refine hrecord.bind fun _ _ _ => .pure fun hfind h => ⟨h, fun _ hr => ?_⟩
    rwa [← Option.some.inj hr]

end Exprs

/-! ### Links -/

/-- The arguments of a call have types, and so is everything in them. -/
def ArgsSettled (z : Analysis) (t : TypeTable) (es : List Expr) (r : Option (List TypeId)) : Prop :=
  (∃ ts, r = some ts ∧ OfTypes z es ts) ∧ ∀ x ∈ Expr.allParts es, x.Resolved z t

/-- The first link of a chain stands for something, and it is resolved with all of its parts. -/
def HeadSettled (z : Analysis) (t : TypeTable) (l : Link) (r : Option Produced) : Prop :=
  r.isSome = true ∧ HeadResolved z t l ∧ ∀ x ∈ l.parts, x.Resolved z t

/-- So is a later link. -/
def LaterSettled (z : Analysis) (t : TypeTable) (l : Link) (r : Option Produced) : Prop :=
  r.isSome = true ∧ LaterResolved z t l ∧ ∀ x ∈ l.parts, x.Resolved z t

section Links

variable {args : ArgumentTypes} {es : List Expr} {ts us : List TypeId} {node : NodeId}
  {name : Ident} {span : Span}

theorem ArgsSettled.ofTypes (h : ArgsSettled z t es (some ts)) : OfTypes z es ts := by
  obtain ⟨us, hus, htypes⟩ := h.1
  rwa [Option.some.inj hus]

theorem not_argsSettled_none : ¬ ArgsSettled z t es none := fun h => by
  obtain ⟨us, hus, -⟩ := h.1
  exact absurd hus (by simp)

theorem ArgsSettled.parts {r : Option (List TypeId)} (h : ArgsSettled z t es r) :
    ∀ x ∈ (Link.call node name es span).parts, x.Resolved z t :=
  List.forall_mem_cons.mpr ⟨trivial, h.2⟩

theorem resolved_bare : ∀ x ∈ (Link.bare node name span).parts, x.Resolved z t :=
  List.forall_mem_singleton.mpr trivial

/-- Arguments of a call settle, and their types are there afterwards, as the others are. -/
structure SettlesArgs (z : Analysis) (t : TypeTable) (us : List TypeId) (es : List Expr)
    (args : ArgumentTypes) (a : Analysis) : Prop where
  settles : Settles z a args (ArgsSettled z t es)
  after : ∀ r b, args.run a = (r, b) → Asks z t (r.getD [] ++ us) b

variable (hz : Accepted z)
include hz

theorem settles_bareHead (hasMore : Bool) :
    Settles z a (bareHead node name.name span hasMore)
      (HeadSettled z t (.bare node name span)) := by
  refine (Settles.of_alters (alters_lookup name.name)).bind fun result b _ => ?_
  cases result with
  | found r access =>
    exact (settles_recordLink hz node _).bind fun _ _ _ => .pure fun _ _ =>
      ⟨rfl, .bare, resolved_bare⟩
  | hidden => exact (settles_reject hz _ _ _).refused
  | missing =>
    refine (Settles.of_alters (alters_resolveType name.name)).bind fun type c _ => ?_
    cases type with
    | none => exact (settles_reject hz _ _ _).refused
    | some type =>
      cases hasMore
      · exact (settles_reject hz _ _ _).refused
      · exact (settles_recordLink hz node _).bind fun _ _ _ => .pure fun _ _ _ =>
          ⟨rfl, .bare, resolved_bare⟩

theorem settles_callType (hargs : SettlesArgs z t us es args a) (type : TypeId) :
    Settles z a (callType node type span args) (HeadSettled z t (.call node name es span)) := by
  refine hargs.settles.bind fun r b hrun => ?_
  have hb := hargs.after r b hrun
  cases r with
  | none => exact .pure fun h => absurd h not_argsSettled_none
  | some ts =>
    refine .types ?_
    split
    · rename_i routine hl
      refine (settles_recordCall hz node type routine (.member true)).conseq fun hbz r hr h => ?_
      exact ⟨hr.1, .type h.ofTypes hr.2 ((hb.firm.keeps hbz).lookup hl), h.parts⟩
    · rename_i hl
      split
      · rename_i hnil
        obtain ⟨rfl, huser⟩ := hnil
        refine (settles_recordLink hz node (.construct type)).known.bind fun _ _ _ =>
          .pure fun hr h => ⟨rfl, ?_, h.parts⟩
        obtain rfl := List.forall₂_nil_right_iff.mp h.ofTypes
        exact .construct hr.1 (((hb.firm.keeps hr.2).lookup_nil (has_of_user huser) _ _).trans hl)
      · exact (settles_reportNoRoutine hz _ _ _ _).refused

theorem settles_callHead (h : Asks z t us a)
    (hargs : ∀ b, Asks z t us b → SettlesArgs z t us es args b) :
    Settles z a (callHead node name.name span args)
      (HeadSettled z t (.call node name es span)) := by
  have hlookup := Settles.of_alters (z := z) (a := a) (alters_lookup name.name)
  refine hlookup.bind fun result b hrun => ?_
  have hb := h.still hlookup (.quiet (quiet_lookup name.name)) (grounds_lookup name.name) hrun
  cases result with
  | found r access =>
    refine (hargs b hb).settles.bind fun r' c hrun' => ?_
    have hc := (hargs b hb).after r' c hrun'
    cases r' with
    | none => exact .pure fun h => absurd h not_argsSettled_none
    | some ts =>
      refine .types ?_
      split
      · rename_i routine hl
        refine (settles_recordCall hz node r.binding.type routine
          (.binding r.binding access)).conseq fun hcz _ hr h _ => ?_
        exact ⟨hr.1, .binding h.ofTypes hr.2 ((hc.firm.keeps hcz).lookup hl), h.parts⟩
      · exact (settles_reportNoRoutine hz _ _ _ _).refused
  | hidden => exact (settles_reject hz _ _ _).refused
  | missing =>
    refine (Settles.of_alters (alters_resolveType name.name)).bind fun type c hrun' => ?_
    obtain rfl : b = c := congrArg Prod.snd hrun'
    cases type with
    | none => exact (settles_reject hz _ _ _).refused
    | some type =>
      exact (settles_callType hz (hargs b hb) type).conseq fun _ _ hr _ _ => hr

omit hz in
theorem settles_memberRoutine (h : Firm z t a) (owner : TypeId) (isStatic : Bool) (n : String) :
    Settles z a (memberRoutine owner isStatic n) fun r => ∀ b, r = some b →
      (t.memberRoutine owner isStatic n).1 = some b := by
  have hchanges := (alters_memberRoutine (P := .reading) trivial owner isStatic n a).changes
  have hafter := h.after hchanges (sameData_memberRoutine a.types owner isStatic n).users
  exact ⟨hchanges, fun hbz b hb =>
    memberRoutine_eq_of_kept hb fun _ _ => (hafter.keeps hbz).memberType?⟩

theorem settles_bareMember (h : Firm z t a) (owner : TypeId) (isStatic : Bool) :
    Settles z a (bareMember owner isStatic node name.name span)
      (LaterSettled z t (.bare node name span)) := by
  have hread : Settles z a (readMember owner isStatic name.name) fun r => ∀ b, r = some b →
      t.lookupField owner isStatic name.name = some b ∨
        (t.memberRoutine owner isStatic name.name).1 = some b := by
    refine .types ?_
    split
    · rename_i field hfield
      refine Settles.conseq (Q := fun r => r = some field) (.pure rfl) fun haz r hr b hb => .inl ?_
      rw [← Option.some.inj (hr.symm.trans hb)]
      exact (h.keeps haz).lookupField hfield
    · exact (settles_memberRoutine h owner isStatic name.name).conseq fun _ _ hr b hb =>
        .inr (hr b hb)
  refine hread.bind fun r b _ => ?_
  cases r with
  | some field =>
    refine (settles_recordLink hz node _).bind fun _ _ _ => .pure fun hfind hr => ?_
    refine ⟨rfl, ?_, resolved_bare⟩
    rcases hr field rfl with hfield | hroutines
    · exact .field hfind hfield
    · exact .routines hfind hroutines
  | none =>
    refine (Settles.of_alters (alters_typeName owner)).bind fun ownerName c _ => ?_
    cases isStatic <;> exact (settles_reject hz _ _ _).refused

theorem settles_callMember (hargs : SettlesArgs z t us es args a) {owner : TypeId}
    (howner : owner ∈ us) (isStatic : Bool) :
    Settles z a (callMember owner isStatic node name.name span args)
      (LaterSettled z t (.call node name es span)) := by
  refine hargs.settles.bind fun r b hrun => ?_
  have hb := hargs.after r b hrun
  cases r with
  | none => exact .pure fun h => absurd h not_argsSettled_none
  | some ts =>
    refine .types ?_
    split
    · rename_i routine hl
      refine (settles_recordCall hz node owner routine (.member isStatic)).conseq
        fun hbz r hr h => ?_
      exact ⟨hr.1, .member h.ofTypes hr.2 ((hb.firm.keeps hbz).lookup hl), h.parts⟩
    · rename_i hnothing
      split
      · rename_i field routine hfield
        simp only [callableField, Option.bind_eq_bind, Option.bind_eq_some_iff,
          Option.pure_def, Option.some.injEq, Prod.mk.injEq] at hfield
        obtain ⟨_, hfield, _, hl, rfl, rfl⟩ := hfield
        refine (settles_recordCall hz node _ _ _).conseq fun hbz r hr h => ?_
        have hkeeps := hb.firm.keeps hbz
        refine ⟨hr.1, .value h.ofTypes hr.2 ?_ (hkeeps.lookupField hfield) (hkeeps.lookup hl),
          h.parts⟩
        exact (hb.lookup_eq hbz isStatic name.name (List.mem_append_right _ howner)
          (List.subset_append_left _ _)).trans hnothing
      · exact (settles_reportNoRoutine hz _ _ _ _).refused

theorem settles_onReceiver {before : Produced} {l : Link}
    {link : TypeId → Bool → Analyze (Option Produced)}
    (h : ∀ owner isStatic, owner ∈ before.mentions →
      Settles z a (link owner isStatic) (LaterSettled z t l)) :
    Settles z a (onReceiver before span link) (LaterSettled z t l) := by
  cases before with
  | value type => exact h type false List.mem_cons_self
  | typeName type => exact h type true List.mem_cons_self
  | nothing => exact (settles_reject hz _ _ _).refused

end Links

/-! ### Expressions -/

/-- An expression is resolved with all of its parts, and its type is recorded. -/
def ExprSettled (z : Analysis) (t : TypeTable) (e : Expr) (r : Option TypeId) : Prop :=
  (∀ x ∈ e.parts, x.Resolved z t) ∧
    ∀ type, r = some type → z.findings.exprTypes.find? e.node = some type

theorem subset_mentions_some (produced : Produced) (us : List TypeId) :
    produced.mentions ⊆ optional Produced.mentions (some produced) ++ us := by
  rw [optional, Option.toList_some, List.flatMap_singleton]
  exact List.subset_append_left _ _

/-- The types that arguments are found to have. -/
theorem grounds_argumentTypes (es : List Expr) {ts : List TypeId} :
    Grounds [] ts (arguments es) (·.getD []) := by
  induction es generalizing ts with
  | nil => exact .none rfl
  | cons e es ih =>
    refine (grounds_operand e).bind fun first => ih.bind fun rest => .pure ?_
    cases first with
    | none => exact List.nil_subset _
    | some type =>
      cases rest with
      | none => exact List.nil_subset _
      | some types =>
        refine List.cons_subset.mpr ⟨?_, List.subset_append_left _ _⟩
        exact List.mem_append_right _ (List.mem_append_left _ List.mem_cons_self)

/-- An operand has a type, too. -/
def OperandSettled (z : Analysis) (t : TypeTable) (e : Expr) (r : Option TypeId) : Prop :=
  ∃ type, r = some type ∧ OfTypes z [e] [type] ∧ ∀ x ∈ e.parts, x.Resolved z t

theorem not_operandSettled_none {e : Expr} : ¬ OperandSettled z t e none := fun h => by
  obtain ⟨type, htype, -⟩ := h
  exact absurd htype (by simp)

theorem OperandSettled.of_some {e : Expr} {type : TypeId} (h : OperandSettled z t e (some type)) :
    OfTypes z [e] [type] ∧ ∀ x ∈ e.parts, x.Resolved z t := by
  obtain ⟨type', heq, h⟩ := h
  rwa [Option.some.inj heq]

theorem settles_operand (hz : Accepted z) {e : Expr}
    (he : Settles z a (expr e) (ExprSettled z t e)) :
    Settles z a (operand e) (OperandSettled z t e) := by
  refine (settles_required hz he e.span).conseq fun _ r hr => ?_
  obtain ⟨⟨hparts, htype⟩, type, rfl⟩ := hr
  exact ⟨type, rfl, .cons (htype type rfl) .nil, hparts⟩

mutual

theorem settles_expr (hz : Accepted z) {us : List TypeId} : (e : Expr) → {a : Analysis} →
    Asks z t us a → Settles z a (expr e) (ExprSettled z t e)
  | .literal node value span, a, h =>
    (settles_typed hz (.pure (Q := fun _ => True) trivial) node).conseq fun _ _ hr =>
      ⟨List.forall_mem_singleton.mpr .literal, hr.2⟩
  | .binary node op left right span, a, h => by
    have hleft := settles_operand hz (settles_expr hz left h)
    refine (settles_typed hz (Q := fun _ => ∀ x ∈ (Expr.binary node op left right span).parts,
      x.Resolved z t) (hleft.bind fun l b hrun => ?_) node).conseq fun _ _ hr => hr
    have hb := h.still hleft (.quiet (quiet_operand left)) (grounds_operand left) hrun
    have hright := settles_operand hz (settles_expr hz right hb)
    refine hright.bind fun r c hrun' => ?_
    have hc := hb.still hright (.quiet (quiet_operand right)) (grounds_operand right) hrun'
    cases l with
    | none => exact .pure fun _ hl => absurd hl not_operandSettled_none
    | some l =>
      cases r with
      | none => exact .pure fun hr => absurd hr not_operandSettled_none
      | some r =>
        refine (settles_operator hz hc.firm node op.routine l false [r] span).conseq
          fun _ _ ho hr hl => ?_
        obtain ⟨routine, hfind, hfound⟩ := ho
        obtain ⟨hrtype, hrparts⟩ := hr.of_some
        obtain ⟨hltype, hlparts⟩ := hl.of_some
        have htypes : OfTypes z [left, right] [l, r] := .cons (List.forall₂_cons.mp hltype).1 hrtype
        exact List.forall_mem_cons.mpr
          ⟨.binary htypes hfind hfound, List.forall_mem_append.mpr ⟨hlparts, hrparts⟩⟩
  | .unary node op operand span, a, h => by
    have ho := settles_operand hz (settles_expr hz operand h)
    refine (settles_typed hz (Q := fun _ => ∀ x ∈ (Expr.unary node op operand span).parts,
      x.Resolved z t) (ho.bind fun o b hrun => ?_) node).conseq fun _ _ hr => hr
    have hb := h.still ho (.quiet (quiet_operand operand)) (grounds_operand operand) hrun
    cases o with
    | none => exact .pure fun ho => absurd ho not_operandSettled_none
    | some o =>
      refine (settles_operator hz hb.firm node op.routine o true [o] span).conseq
        fun _ _ hr ho => ?_
      obtain ⟨routine, hfind, hfound⟩ := hr
      obtain ⟨htype, hparts⟩ := ho.of_some
      exact List.forall_mem_cons.mpr ⟨.unary htype hfind hfound, hparts⟩
  | .paren node inner span, a, h =>
    (settles_typed hz (settles_expr hz inner h) node).conseq fun _ _ hr =>
      ⟨List.forall_mem_cons.mpr ⟨.paren, hr.1.1⟩, hr.2⟩
  | .chain c, a, h => (settles_typed hz (settles_chain hz c h) c.node).conseq fun _ _ hr =>
      ⟨List.forall_mem_cons.mpr ⟨.chain hr.1.1, hr.1.2⟩, hr.2⟩

theorem settles_chain (hz : Accepted z) {us : List TypeId} : (c : Chain) → {a : Analysis} →
    Asks z t us a → Settles z a (chain c) fun _ =>
      ChainResolved z t c ∧ ∀ x ∈ c.linkParts, x.Resolved z t
  | ⟨_, [], _⟩, _, _ => .pure ⟨.nil, List.forall_mem_nil _⟩
  | ⟨node, head :: rest, span⟩, a, h => by
    have hhead := settles_headLink hz (!rest.isEmpty) head h
    refine hhead.bind fun first b hrun => ?_
    cases first with
    | none => exact .pure fun hr => absurd hr.1 (by simp)
    | some first =>
      have hb := (h.after hhead (.quiet (quiet_headLink _ head)) (grounds_headLink _ head)
        hrun).mono (subset_mentions_some first us)
      refine (settles_memberLinks hz first rest (List.Subset.refl _) hb).bind fun last c hrun' => ?_
      cases last with
      | none => exact .pure fun hr => absurd hr.1 (by simp)
      | some last =>
        refine (Settles.of_alters (alters_finishChain node span last)).conseq fun _ _ _ hr hf => ?_
        exact ⟨.cons hf.2.1 hr.2.1, List.forall_mem_append.mpr ⟨hf.2.2, hr.2.2⟩⟩

theorem settles_headLink (hz : Accepted z) {us : List TypeId} (hasMore : Bool) : (l : Link) →
    {a : Analysis} → Asks z t us a → Settles z a (headLink hasMore l) (HeadSettled z t l)
  | .bare _ _ _, _, _ => settles_bareHead hz hasMore
  | .call _ _ args _, _, h => settles_callHead hz h fun _ hb => settles_arguments hz args hb

theorem settles_memberLink (hz : Accepted z) {us : List TypeId} (before : Produced) : (l : Link) →
    {a : Analysis} → before.mentions ⊆ us → Asks z t us a →
    Settles z a (memberLink before l) (LaterSettled z t l)
  | .bare _ _ _, _, _, h => settles_onReceiver hz fun owner isStatic _ =>
      settles_bareMember hz h.firm owner isStatic
  | .call _ _ args _, _, hbefore, h => settles_onReceiver hz fun _ isStatic ho =>
      settles_callMember hz (settles_arguments hz args h) (hbefore ho) isStatic

theorem settles_memberLinks (hz : Accepted z) {us : List TypeId} (before : Produced) :
    (ls : List Link) → {a : Analysis} → before.mentions ⊆ us → Asks z t us a →
    Settles z a (memberLinks before ls) fun r => r.isSome = true ∧
      (∀ l ∈ ls, LaterResolved z t l) ∧ ∀ x ∈ Link.allParts ls, x.Resolved z t
  | [], _, _, _ => .pure ⟨rfl, List.forall_mem_nil _, List.forall_mem_nil _⟩
  | l :: ls, a, hbefore, h => by
    have hfirst := settles_memberLink hz before l hbefore h
    refine hfirst.bind fun produced b hrun => ?_
    cases produced with
    | none => exact .pure fun hr => absurd hr.1 (by simp)
    | some produced =>
      have hb := (h.after hfirst (.quiet (quiet_memberLink before l)) (grounds_memberLink l hbefore)
        hrun).mono (subset_mentions_some produced us)
      refine (settles_memberLinks hz produced ls (List.Subset.refl _) hb).conseq fun _ _ hr hf => ?_
      exact ⟨hr.1, List.forall_mem_cons.mpr ⟨hf.2.1, hr.2.1⟩,
        List.forall_mem_append.mpr ⟨hf.2.2, hr.2.2⟩⟩

theorem settles_arguments (hz : Accepted z) {us : List TypeId} : (es : List Expr) → {a : Analysis} →
    Asks z t us a → SettlesArgs z t us es (arguments es) a
  | [], a, h => ⟨.pure ⟨⟨[], rfl, .nil⟩, List.forall_mem_nil _⟩, fun r b hrun => by
      obtain ⟨rfl, rfl⟩ := Prod.mk.inj hrun
      exact h⟩
  | e :: es, a, h => by
    have hfirst := settles_operand hz (settles_expr hz e h)
    have hsettles : Settles z a (arguments (e :: es)) (ArgsSettled z t (e :: es)) := by
      refine hfirst.bind fun first b hrun => ?_
      have hb := h.still hfirst (.quiet (quiet_operand e)) (grounds_operand e) hrun
      refine (settles_arguments hz es hb).settles.bind fun rest _ _ => .pure fun hr hf => ?_
      obtain ⟨type, rfl, htype, hparts⟩ := hf
      obtain ⟨⟨types, rfl, htypes⟩, hparts'⟩ := hr
      exact ⟨⟨type :: types, rfl, .cons (List.forall₂_cons.mp htype).1 htypes⟩,
        List.forall_mem_append.mpr ⟨hparts, hparts'⟩⟩
    have hg : Grounds [] us (arguments (e :: es)) (·.getD []) := grounds_argumentTypes (e :: es)
    refine ⟨hsettles, fun r b hrun => ?_⟩
    have hafter := h.after hsettles (.quiet (quiet_arguments (e :: es))) hg hrun
    exact hafter

end

end Analysis

end Unnest
