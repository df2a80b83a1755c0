import Unnest.Analysis.Expr
import Unnest.Proofs.Analysis.Rules
import Unnest.Proofs.Tree.Parts

/-!
# Expressions are decided

An expression of an accepted analysis that yields a type has it (`decides_expr`): every
early return of the analysis has reported an error, and every other return has recorded
what the rules of `ExprHas` ask for.  The induction is the recursion of the analysis,
one lemma for each kind of link and operator.
-/

namespace Unnest.Analysis

open Analyze

variable {α : Type} {K L : Multiset Key} {p : Place} {z : Analysis}

/-! ## Records -/

theorem decides_recordLink (node : NodeId) {f : LinkFinding}
    (hf : ∀ z, p.Known z → z.scopes.Sees p.scope f) :
    Decides p {(.links, node)} (recordLink node f) fun z _ =>
      Accepted z → z.findings.links.find? node = some f := by
  refine decides_record (fun a ha => .link node (ha.current ▸ hf a ha.known)) ?_
  intro a z _ hg hz
  exact (Findings.nodup_links hz.keys).find?_eq (hg.links List.mem_cons_self)

theorem decides_recordCall (node : NodeId) {owner : TypeId} {routine : Signature} {callee : Callee}
    (hf : ∀ z, p.Known z → z.scopes.Sees p.scope (.call owner routine callee)) :
    Decides p {(.links, node)} (recordCall node owner routine callee) fun z result =>
      Accepted z → result = some (.ofCall routine) ∧
        z.findings.links.find? node = some (.call owner routine callee) :=
  (decides_recordLink node hf).andPure fun _ _ _ h hz => ⟨rfl, h hz⟩

/-- A report and no result. -/
theorem decides_reject {β : Type} (fault : Fault) (span : Span) (x : β) :
    Decides p 0 (report fault span >>= fun _ => pure x) fun z _ => ¬ Accepted z :=
  (decides_report fault span).andPure fun _ _ _ h => h

theorem decides_reportNoRoutine (name : String) (args : List TypeId) (owner : Option TypeId)
    (span : Span) : Decides p 0 (reportNoRoutine name args owner span) fun z _ => ¬ Accepted z :=
  decides_types.andThen fun _ => decides_reject _ _ _

/-- Where a value is needed and none is produced, something was reported. -/
theorem decides_required (span : Span) {part : Analyze (Option TypeId)}
    {Q : Analysis → Option TypeId → Prop} (h : Decides p K part Q) :
    Decides p K (required span part) fun z result =>
      Q z result ∧ (Accepted z → ∃ type, result = some type) := by
  refine Decides.get fun a _ => (h.weaken.bind (L := 0) fun result => ?_).keys (add_zero K)
  cases result with
  | some type => exact .pure fun z hz => ⟨hz.fact, fun _ => ⟨type, rfl⟩⟩
  | none =>
    refine Decides.get (f := fun b => if !b.diagnostics.hasErrorsSince a.diagnostics.count then
      report .noValue span >>= fun _ => pure none else pure none) fun b _ => ?_
    split
    · exact (decides_report _ _).andPure fun z _ hz hn =>
        ⟨hz.of_knowing.fact, fun h => absurd h hn⟩
    · rename_i hsince
      refine .pure fun z hz => ⟨hz.of_knowing.fact, fun h => ?_⟩
      have herrors := h.of_grows hz.fact
      simp only [Diagnostics.hasErrorsSince, Diagnostics.count, errors] at hsince herrors
      simp [herrors] at hsince

theorem decides_typed (node : NodeId) {part : Analyze (Option TypeId)}
    {Q : Analysis → Option TypeId → Prop} (h : Decides p K part Q) :
    Decides p (K + {(.exprTypes, node)}) (typed node part) fun z result =>
      Q z result ∧ (Accepted z → ∀ type, result = some type →
        z.findings.exprTypes.find? node = some type) := by
  refine h.bind fun result => ?_
  cases result with
  | none => exact (Decides.pure fun z hz => ⟨hz.fact, fun _ _ h => absurd h (by simp)⟩).idle
  | some type =>
    have hrecord : Decides p {(.exprTypes, node)}
        (record fun f => { f with exprTypes := f.exprTypes.write node type }) fun z _ =>
          Accepted z → z.findings.exprTypes.find? node = some type :=
      decides_record (fun a _ => .exprType node type) fun a z _ hg hz =>
        (Findings.nodup_exprTypes hz.keys).find?_eq (hg.exprTypes List.mem_cons_self)
    refine hrecord.weaken.andPure fun z _ hz hfind => ⟨hz.fact, fun h t ht => ?_⟩
    rw [← Option.some.inj ht]
    exact hfind h

/-- A routine that was found is on offer. -/
theorem offers_of_lookup {t : TypeTable} {owner : TypeId} {isStatic : Bool} {name : String}
    {args : List TypeId} {routine : Signature} (ht : t.Sound ∧ t.Extends z.types)
    (h : t.lookup owner isStatic name args = some routine) :
    Offers z owner isStatic name args routine :=
  ⟨t, ht.1, ht.2, h⟩

theorem decides_operator (node : NodeId) (name : String) (owner : TypeId) (isStatic : Bool)
    (args : List TypeId) (span : Span) :
    Decides p {(.operators, node)} (operator node name owner isStatic args span) fun z result =>
      Accepted z → ∃ routine, result = routine.result ∧ Offers z owner isStatic name args routine ∧
        z.findings.operators.find? node = some ⟨owner, routine, isStatic⟩ := by
  refine decides_types.andThen fun t => ?_
  split
  · rename_i routine hl
    have hrecord : Decides p {(.operators, node)}
        (record fun f => { f with operators := f.operators.write node ⟨owner, routine, isStatic⟩ })
          fun z _ => Accepted z →
            z.findings.operators.find? node = some ⟨owner, routine, isStatic⟩ :=
      decides_record (fun a _ => .operator node _) fun a z _ hg hz =>
        (Findings.nodup_operators hz.keys).find?_eq (hg.operators List.mem_cons_self)
    exact hrecord.weaken.andPure fun z _ hz hfind h =>
      ⟨routine, rfl, offers_of_lookup hz.fact hl, hfind h⟩
  · exact (decides_reject _ _ _).refused

/-! ## Links -/

/-- A first link is decided. -/
def HeadDecided (p : Place) (hasMore : Bool) (l : Link) (z : Analysis)
    (result : Option Produced) : Prop :=
  Accepted z → ∃ first, result = some first ∧ HeadMakes z p.scope hasMore l first

/-- A later link is decided. -/
def LinkDecided (p : Place) (before : Produced) (l : Link) (z : Analysis)
    (result : Option Produced) : Prop :=
  Accepted z → ∃ after, result = some after ∧ LinkMakes z p.scope before l after

/-- Arguments are decided. -/
def ArgsDecided (p : Place) (es : List Expr) (z : Analysis) (result : Option (List TypeId)) :
    Prop :=
  Accepted z → ∃ ts, result = some ts ∧ ArgsHave z p.scope es ts

theorem decides_bareHead (hasMore : Bool) (node : NodeId) (name : Ident) (span : Span) :
    Decides p {(.links, node)} (bareHead node name.name span hasMore)
      (HeadDecided p hasMore (.bare node name span)) := by
  refine (decides_lookup name.name).andThen fun result => ?_
  cases result with
  | found r access =>
    refine Decides.andPure (decides_recordLink node fun z hz => ?_) fun z _ hz hfind h => ?_
    · exact ⟨r.owner, (hz.fact r access rfl).2⟩
    · exact ⟨_, rfl, .load (hfind h) ⟨r.owner, (hz.fact r access rfl).2⟩⟩
  | hidden => exact (decides_reject _ _ _).refused
  | missing =>
    refine (decides_resolveType _).andThen fun type => ?_
    cases type with
    | none => exact (decides_reject _ _ _).refused
    | some type =>
      dsimp only
      split
      · rename_i hmore
        exact Decides.andPure (decides_recordLink node fun _ _ => trivial) fun z _ _ hfind h =>
          ⟨_, rfl, .typeName hmore (hfind h)⟩
      · exact (decides_reject _ _ _).refused

section Calls

variable {q : Place} {node : NodeId} {name : Ident} {es : List Expr} {span : Span}
  {args : ArgumentTypes}

theorem ArgsDecided.have {ts : List TypeId} (h : ArgsDecided p es z (some ts)) (hz : Accepted z) :
    ArgsHave z p.scope es ts := by
  obtain ⟨ts', hts, hargs⟩ := h hz
  rwa [Option.some.inj hts]

/-- Arguments without types. -/
theorem decides_noArgs {Q : Analysis → Option Produced → Prop} :
    Decides (q.knowing (ArgsDecided p es · none)) L (pure none) fun z result =>
      Accepted z → Q z result := by
  refine Decides.idle (.pure fun z hz h => ?_)
  obtain ⟨ts, hts, -⟩ := hz.fact h
  exact absurd hts (by simp)

theorem decides_callType (hasMore : Bool) (type : TypeId) (h : Decides q K args (ArgsDecided p es)) :
    Decides q (K + {(.links, node)}) (callType node type span args)
      (HeadDecided p hasMore (.call node name es span)) := by
  refine h.bind fun ts => ?_
  cases ts with
  | none => exact decides_noArgs
  | some ts =>
    refine decides_types.andThen fun t => ?_
    split
    · rename_i routine hl
      refine Decides.conseq (decides_recordCall node fun _ _ => trivial) fun z result hz hr h => ?_
      obtain ⟨rfl, hrecord⟩ := hr h
      exact ⟨_, rfl, .callType (hz.of_knowing.fact.have h) (offers_of_lookup hz.fact hl) hrecord⟩
    · split
      · rename_i hnone
        refine Decides.andPure (decides_recordLink node fun _ _ => trivial) fun z _ hz hfind h => ?_
        have hargs := hz.of_knowing.fact.have h
        rw [hnone.1] at hargs
        have huser := (hz.fact.2.form type (TypeTable.has_of_user hnone.2)).trans hnone.2
        exact ⟨_, rfl, .construct hargs huser (hfind h)⟩
      · exact (decides_reportNoRoutine _ _ _ _).refused

theorem decides_callHead (hasMore : Bool)
    (h : Decides p K args (ArgsDecided p es)) :
    Decides p (K + {(.links, node)}) (callHead node name.name span args)
      (HeadDecided p hasMore (.call node name es span)) := by
  refine (decides_lookup name.name).andThen fun result => ?_
  cases result with
  | found r access =>
    refine h.weaken.bind fun ts => ?_
    cases ts with
    | none => exact decides_noArgs
    | some ts =>
      refine decides_types.andThen fun t => ?_
      split
      · rename_i routine hl
        refine (decides_recordCall node fun z hz => ?_).conseq fun z result hz hr h => ?_
        · exact ⟨r.owner, (hz.of_knowing.of_knowing.fact r access rfl).2⟩
        · obtain ⟨rfl, hrecord⟩ := hr h
          exact ⟨_, rfl, .callBinding (hz.of_knowing.fact.have h) (offers_of_lookup hz.fact hl)
            hrecord ⟨r.owner, (hz.of_knowing.of_knowing.fact r access rfl).2⟩⟩
      · exact (decides_reportNoRoutine _ _ _ _).refused
  | hidden => exact (decides_reject _ _ _).refused
  | missing =>
    refine (decides_resolveType _).andThen fun type => ?_
    cases type with
    | none => exact (decides_reject _ _ _).refused
    | some type => exact decides_callType hasMore type h.weaken.weaken

/-! ## Later links -/

/-- A member that is read belongs to the type that it is read from. -/
theorem decides_readMember (owner : TypeId) (isStatic : Bool) (name : String) :
    Decides p 0 (readMember owner isStatic name) fun _ field =>
      ∀ b, field = some b → b.role = .member isStatic ∧ b.owner = some owner := by
  refine decides_types.andThen fun t => ?_
  split
  · rename_i field hl
    refine .pure fun z hz b hb => ?_
    obtain rfl := Option.some.inj hb
    exact hz.fact.1.lookupField hl
  · intro a ha
    refine ⟨.step (.types a (.memberRoutine owner isStatic name)), fun z _ _ b hb => ?_⟩
    exact TypeTable.memberRoutine_spec hb

theorem decides_bareMember {before : Produced} {owner : TypeId} {isStatic : Bool}
    (on : before.receiver? = some (owner, isStatic)) :
    Decides p {(.links, node)} (bareMember owner isStatic node name.name span)
      (LinkDecided p before (.bare node name span)) := by
  refine (decides_readMember owner isStatic name.name).andThen fun field => ?_
  cases field with
  | some field =>
    refine Decides.andPure (decides_recordLink node fun _ _ => trivial) fun z _ hz hfind h => ?_
    exact ⟨_, rfl, .field on (hz.fact field rfl).1 (hfind h)⟩
  | none =>
    refine (decides_typeName owner).andThen fun ownerName => ?_
    cases isStatic <;> exact (decides_reject _ _ _).refused

theorem decides_callMember {before : Produced} {owner : TypeId} {isStatic : Bool}
    (on : before.receiver? = some (owner, isStatic)) (h : Decides p K args (ArgsDecided p es)) :
    Decides p (K + {(.links, node)}) (callMember owner isStatic node name.name span args)
      (LinkDecided p before (.call node name es span)) := by
  refine h.bind fun ts => ?_
  cases ts with
  | none => exact decides_noArgs
  | some ts =>
    refine decides_types.andThen fun t => ?_
    split
    · rename_i routine hl
      refine Decides.conseq (decides_recordCall node fun _ _ => trivial) fun z result hz hr h => ?_
      obtain ⟨rfl, hrecord⟩ := hr h
      exact ⟨_, rfl, .callMember on (hz.of_knowing.fact.have h) (offers_of_lookup hz.fact hl)
        hrecord⟩
    · split
      · rename_i field routine hf
        refine Decides.conseq (decides_recordCall node fun _ _ => trivial) fun z result hz hr h => ?_
        obtain ⟨rfl, hrecord⟩ := hr h
        simp only [callableField, Option.bind_eq_bind, Option.bind_eq_some_iff,
          Option.pure_def, Option.some.injEq, Prod.mk.injEq] at hf
        obtain ⟨_, hfield, _, hl, rfl, rfl⟩ := hf
        obtain ⟨hrole, howner⟩ := hz.fact.1.lookupField hfield
        exact ⟨_, rfl, .callField on (hz.of_knowing.fact.have h) hrole howner
          (offers_of_lookup hz.fact hl) hrecord⟩
      · exact (decides_reportNoRoutine _ _ _ _).refused

end Calls

theorem decides_onReceiver {before : Produced} {l : Link} {span : Span}
    {link : TypeId → Bool → Analyze (Option Produced)}
    (h : ∀ owner isStatic, before.receiver? = some (owner, isStatic) →
      Decides p K (link owner isStatic) (LinkDecided p before l)) :
    Decides p K (onReceiver before span link) (LinkDecided p before l) := by
  rw [onReceiver]
  split
  · rename_i owner isStatic hon
    exact h owner isStatic hon
  · exact (decides_reject _ _ _).refused

/-- The end of a chain. -/
theorem decides_finishChain (node : NodeId) (span : Span) (last : Produced) :
    Decides p {(.chains, node)} (finishChain node span last) fun z result =>
      Accepted z → ∃ f, last.finding? = some f ∧ result = f.type ∧
        z.findings.chains.find? node = some f := by
  have hrecord : ∀ f, Decides p {(.chains, node)}
      (record fun t => { t with chains := t.chains.write node f }) fun z _ =>
        Accepted z → z.findings.chains.find? node = some f := fun f =>
    decides_record (fun a _ => .chain node f) fun a z _ hg hz =>
      (Findings.nodup_chains hz.keys).find?_eq (hg.chains List.mem_cons_self)
  cases last with
  | value type binding =>
    exact (hrecord _).andPure fun z _ _ hfind h => ⟨_, rfl, rfl, hfind h⟩
  | nothing => exact (hrecord _).andPure fun z _ _ hfind h => ⟨_, rfl, rfl, hfind h⟩
  | typeName type =>
    exact (decides_typeName type).andThen fun name => (decides_reject _ _ _).refused

/-! ## Expressions -/

/-- An expression has the type that is found for it. -/
def ExprDecided (p : Place) (e : Expr) (z : Analysis) (result : Option TypeId) : Prop :=
  Accepted z → ∀ type, result = some type → ExprHas z p.scope e type

/-- A chain yields what is found for it, and nothing when it has no links. -/
def ChainDecided (p : Place) (c : Chain) (z : Analysis) (result : Option TypeId) : Prop :=
  Accepted z → c.links = [] ∧ result = none ∨ ChainHas z p.scope c result

/-- Later links produce what is found for them. -/
def LinksDecided (p : Place) (before : Produced) (ls : List Link) (z : Analysis)
    (result : Option Produced) : Prop :=
  Accepted z → ∃ last, result = some last ∧ LinksMake z p.scope before ls last

/-- What an operand yields where a value is needed. -/
def OperandDecided (p : Place) (e : Expr) (z : Analysis) (result : Option TypeId) : Prop :=
  Accepted z → ∃ type, result = some type ∧ ExprHas z p.scope e type

theorem decides_requiredExpr {e : Expr} (h : Decides p K (expr e) (ExprDecided p e)) :
    Decides p K (required e.span (expr e)) (OperandDecided p e) := by
  refine (decides_required e.span h).conseq fun z result _ hd hz => ?_
  obtain ⟨type, rfl⟩ := hd.2 hz
  exact ⟨type, rfl, hd.1 hz type rfl⟩

theorem OperandDecided.has {e : Expr} {type : TypeId} (h : OperandDecided p e z (some type))
    (hz : Accepted z) : ExprHas z p.scope e type := by
  obtain ⟨t, ht, he⟩ := h hz
  rwa [Option.some.inj ht]

theorem OperandDecided.not_accepted {e : Expr} (h : OperandDecided p e z none) : ¬ Accepted z := by
  intro hz
  obtain ⟨t, ht, -⟩ := h hz
  exact absurd ht (by simp)

/-- An expression has the type that is recorded once it is known. -/
theorem decides_typedExpr (node : NodeId) {e : Expr} {part : Analyze (Option TypeId)}
    (h : Decides p K part fun z result => Accepted z → ∀ type, result = some type →
      z.findings.exprTypes.find? node = some type → ExprHas z p.scope e type) :
    Decides p (K + {(.exprTypes, node)}) (typed node part) (ExprDecided p e) :=
  (decides_typed node h).conseq fun _ _ _ hd hz type htype =>
    hd.1 hz type htype (hd.2 hz type htype)

/-! The keys of an expression, in the order in which its analysis writes them. -/

theorem keys_binary (node : NodeId) (op : BinaryOp) (left right : Expr) (span : Span) :
    Part.allKeys left.parts + (Part.allKeys right.parts + {(.operators, node)}) +
      {(.exprTypes, node)} = Part.allKeys (Expr.binary node op left right span).parts := by
  have hkeys : ((Part.expr (.binary node op left right span)).keys : Multiset Key) =
      {(.exprTypes, node)} + {(.operators, node)} := rfl
  rw [Expr.parts, Part.allKeys_cons, Part.allKeys_append, hkeys]
  abel

theorem keys_unary (node : NodeId) (op : UnaryOp) (operand : Expr) (span : Span) :
    Part.allKeys operand.parts + {(.operators, node)} + {(.exprTypes, node)} =
      Part.allKeys (Expr.unary node op operand span).parts := by
  have hkeys : ((Part.expr (.unary node op operand span)).keys : Multiset Key) =
      {(.exprTypes, node)} + {(.operators, node)} := rfl
  rw [Expr.parts, Part.allKeys_cons, hkeys]
  abel

theorem keys_chain (c : Chain) :
    {(.chains, c.node)} + Part.allKeys c.linkParts + {(.exprTypes, c.node)} =
      Part.allKeys (Expr.chain c).parts := by
  have hkeys : ((Part.expr (.chain c)).keys : Multiset Key) =
      {(.exprTypes, c.node)} + {(.chains, c.node)} := rfl
  rw [Expr.parts, Part.allKeys_cons, hkeys]
  abel

theorem keys_links (node : NodeId) (head : Link) (rest : List Link) (span : Span) :
    Part.allKeys head.parts + (Part.allKeys (Link.allParts rest) + {(.chains, node)}) =
      {(.chains, node)} + Part.allKeys (Chain.mk node (head :: rest) span).linkParts := by
  rw [Chain.linkParts, Link.allParts, Part.allKeys_append]
  abel

mutual

/-- Analysing an expression decides it and all of its parts. -/
theorem decides_expr (p : Place) : (e : Expr) →
    Decides p (Part.allKeys e.parts) (expr e) (ExprDecided p e)
  | .literal node value span => by
    refine (decides_typedExpr node (.pure fun z _ _ type htype hfind => ?_)).keys (zero_add _)
    obtain rfl := Option.some.inj htype
    exact .literal hfind
  | .binary node op left right span => by
    have hl := decides_requiredExpr (decides_expr p left)
    have hr := decides_requiredExpr (decides_expr p right)
    refine (decides_typedExpr node (hl.bind fun l => hr.weaken.bind
      (L := {(.operators, node)}) fun r => ?_)).keys ?_
    · cases l with
      | none => exact .idle (.pure fun z hz h => absurd h hz.of_knowing.fact.not_accepted)
      | some l =>
        cases r with
        | none => exact .idle (.pure fun z hz h => absurd h hz.fact.not_accepted)
        | some r =>
          refine (decides_operator _ _ _ _ _ _).conseq fun z result hz hd h type htype hfind => ?_
          obtain ⟨routine, hresult, hoffer, hcall⟩ := hd h
          exact .binary (hz.of_knowing.fact.has h) (hz.fact.has h) hcall hoffer
            (hresult.symm.trans htype) hfind
    · exact keys_binary node op left right span
  | .unary node op operand span => by
    have ho := decides_requiredExpr (decides_expr p operand)
    refine (decides_typedExpr node (ho.bind (L := {(.operators, node)}) fun o => ?_)).keys ?_
    · cases o with
      | none => exact .idle (.pure fun z hz h => absurd h hz.fact.not_accepted)
      | some o =>
        refine (decides_operator _ _ _ _ _ _).conseq fun z result hz hd h type htype hfind => ?_
        obtain ⟨routine, hresult, hoffer, hcall⟩ := hd h
        exact .unary (hz.fact.has h) hcall hoffer (hresult.symm.trans htype) hfind
    · exact keys_unary node op operand span
  | .paren node inner span => by
    refine (decides_typedExpr node ((decides_expr p inner).conseq
      fun z _ _ hd h type htype hfind => ?_)).keys ?_
    · exact .paren (hd h type htype) hfind
    · exact add_comm _ _
  | .chain c => by
    refine (decides_typedExpr c.node ((decides_chain p c).conseq
      fun z result _ hd h type htype hfind => ?_)).keys ?_
    · rcases hd h with ⟨-, rfl⟩ | hc
      · exact absurd htype (by simp)
      · exact .chain (htype ▸ hc) hfind
    · exact keys_chain c

theorem decides_chain (p : Place) : (c : Chain) →
    Decides p ({(.chains, c.node)} + Part.allKeys c.linkParts) (chain c) (ChainDecided p c)
  | ⟨node, [], span⟩ => .idle (.pure fun _ _ _ => Or.inl ⟨rfl, rfl⟩)
  | ⟨node, head :: rest, span⟩ => by
    refine ((decides_headLink p (!rest.isEmpty) head).bind (L := Part.allKeys
      (Link.allParts rest) + {(.chains, node)}) fun first => ?_).keys ?_
    · cases first with
      | none =>
        refine Decides.idle (.pure fun z hz h => ?_)
        obtain ⟨_, hfirst, -⟩ := hz.fact h
        exact absurd hfirst (by simp)
      | some first =>
        refine (decides_memberLinks p first rest).weaken.bind fun last => ?_
        cases last with
        | none =>
          refine Decides.idle (.pure fun z hz h => ?_)
          obtain ⟨_, hlast, -⟩ := hz.fact h
          exact absurd hlast (by simp)
        | some last =>
          refine (decides_finishChain node span last).conseq fun z result hz hd h => ?_
          obtain ⟨f, hf, rfl, hfind⟩ := hd h
          obtain ⟨_, hfirst, hh⟩ := hz.of_knowing.fact h
          obtain rfl := Option.some.inj hfirst
          obtain ⟨_, hlast, hr⟩ := hz.fact h
          obtain rfl := Option.some.inj hlast
          exact Or.inr (.mk hh hr hf hfind)
    · exact keys_links node head rest span

theorem decides_headLink (p : Place) (hasMore : Bool) : (l : Link) →
    Decides p (Part.allKeys l.parts) (headLink hasMore l) (HeadDecided p hasMore l)
  | .bare node name span => decides_bareHead hasMore node name span
  | .call _ _ args _ =>
    (decides_callHead hasMore (decides_arguments p args)).keys (add_comm _ _)

theorem decides_memberLink (p : Place) (before : Produced) : (l : Link) →
    Decides p (Part.allKeys l.parts) (memberLink before l) (LinkDecided p before l)
  | .bare _ _ _ => decides_onReceiver fun _ _ hon => decides_bareMember hon
  | .call _ _ args _ =>
    decides_onReceiver fun _ _ hon =>
      (decides_callMember hon (decides_arguments p args)).keys (add_comm _ _)

theorem decides_memberLinks (p : Place) (before : Produced) : (ls : List Link) →
    Decides p (Part.allKeys (Link.allParts ls)) (memberLinks before ls) (LinksDecided p before ls)
  | [] => .pure fun _ _ _ => ⟨before, rfl, .nil⟩
  | l :: ls => by
    rw [Link.allParts, Part.allKeys_append]
    refine (decides_memberLink p before l).bind fun after => ?_
    cases after with
    | none =>
      refine Decides.idle (.pure fun z hz h => ?_)
      obtain ⟨_, hafter, -⟩ := hz.fact h
      exact absurd hafter (by simp)
    | some after =>
      refine (decides_memberLinks p after ls).weaken.conseq fun z result hz hd h => ?_
      obtain ⟨_, hafter, hl⟩ := hz.fact h
      obtain rfl := Option.some.inj hafter
      obtain ⟨last, rfl, hls⟩ := hd h
      exact ⟨last, rfl, .cons hl hls⟩

theorem decides_arguments (p : Place) : (es : List Expr) →
    Decides p (Part.allKeys (Expr.allParts es)) (arguments es) (ArgsDecided p es)
  | [] => .pure fun _ _ _ => ⟨[], rfl, .nil⟩
  | e :: es => by
    rw [Expr.allParts, Part.allKeys_append]
    refine (decides_requiredExpr (decides_expr p e)).bind fun first =>
      (decides_arguments p es).weaken.andPure fun z rest hz hd h => ?_
    obtain ⟨t, rfl, he⟩ := hz.fact h
    obtain ⟨ts, rfl, hes⟩ := hd h
    exact ⟨t :: ts, rfl, .cons he hes⟩

end

end Unnest.Analysis
