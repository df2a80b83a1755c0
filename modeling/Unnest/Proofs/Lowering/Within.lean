import Unnest.Proofs.Lowering.Complete

/-!
# Code inside code

The code of a part of an expression stands in the code of the whole (`within_expr`), the code
of an argument in that of the call, and the code of a value in that of the statement that
writes it.  Only the last link of a chain that is stored to has no code of its own; it has no
arguments either (`mem_parts_dropLast`).
-/

namespace Unnest

open Code

theorem Link.allParts_append (ls ls' : List Link) :
    Link.allParts (ls ++ ls') = Link.allParts ls ++ Link.allParts ls' := by
  induction ls with
  | nil => rfl
  | cons l ls ih => rw [List.cons_append, Link.allParts, ih, Link.allParts, List.append_assoc]

theorem Chain.linkParts_eq (c : Chain) : c.linkParts = Link.allParts c.links := by
  obtain ⟨node, ls, span⟩ := c
  rfl

namespace Lowering

variable {z : Analysis} {site : Site} {s : ScopeId} {code code' : List Instruction} {e : Expr}

/-! ## Inside expressions -/

/-- The code of an expression that has a type stands in other code. -/
structure Within (z : Analysis) (site : Site) (s : ScopeId) (code : List Instruction) (e : Expr) :
    Prop where
  typed : ∃ t, z.ExprHas s e t
  code : (expr z site e).code <:+: code

theorem Within.mono (h : Within z site s code e) (hc : code <:+: code') :
    Within z site s code' e := ⟨h.typed, h.code.trans hc⟩

/-- The arguments of a call stand in its code once, and what is around them is the same for
all arguments. -/
theorem code_callRoutine (owner : TypeId) (r : Signature) (isStatic : Bool) :
    ∃ before after, ∀ args : Fragment,
      (callRoutine z owner r isStatic args).code = before ++ args.code ++ after := by
  unfold callRoutine
  dsimp only
  cases z.types.form owner with
  | library | builtin | routine => exact ⟨[], _, fun _ => rfl⟩
  | user => exact ⟨_, _, fun _ => rfl⟩

theorem args_infix_callRoutine (owner : TypeId) (r : Signature) (isStatic : Bool)
    (args : Fragment) : args.code <:+: (callRoutine z owner r isStatic args).code := by
  obtain ⟨before, after, hcode⟩ := code_callRoutine (z := z) owner r isStatic
  exact ⟨before, after, (hcode args).symm⟩

/-- The arguments of a link have types, and their code stands in that of the link. -/
def ArgsWithin (z : Analysis) (site : Site) (s : ScopeId) : Link → Prop
  | .bare _ _ _ => True
  | .call node name args span => (∃ ts, z.ArgsHave s args ts) ∧
      (exprs z site args).code <:+: (link z site (.call node name args span)).code

theorem argsWithin_head {hasMore : Bool} {l : Link} {p : Produced}
    (h : z.HeadMakes s hasMore l p) : ArgsWithin z site s l := by
  cases h with
  | load | typeName => trivial
  | callBinding hargs _ record =>
    refine ⟨⟨_, hargs⟩, ?_⟩
    rw [link, linkAt_eq record]
    exact (args_infix_callRoutine _ _ _ _).trans (List.suffix_append _ _).isInfix
  | callType hargs _ record =>
    refine ⟨⟨_, hargs⟩, ?_⟩
    rw [link, linkAt_eq record]
    exact args_infix_callRoutine _ _ _ _
  | construct hargs =>
    refine ⟨⟨_, hargs⟩, ?_⟩
    cases hargs
    rw [exprs]
    exact List.nil_infix

theorem argsWithin_link {before after : Produced} {l : Link} (h : z.LinkMakes s before l after) :
    ArgsWithin z site s l := by
  cases h with
  | field => trivial
  | callMember _ hargs _ record =>
    refine ⟨⟨_, hargs⟩, ?_⟩
    rw [link, linkAt_eq record]
    exact args_infix_callRoutine _ _ _ _
  | callField _ hargs _ member _ record =>
    refine ⟨⟨_, hargs⟩, ?_⟩
    rw [link, linkAt_eq record, linkCode, member]
    exact (args_infix_callRoutine _ _ _ _).trans (List.suffix_append _ _).isInfix

theorem argsWithin_chain {c : Chain} {t : Option TypeId} (h : z.ChainHas s c t) :
    ∀ l ∈ c.links, ArgsWithin z site s l :=
  h.forall_links argsWithin_head argsWithin_link

mutual

/-- The code of what stands in an expression stands in its code. -/
theorem within_expr {t : TypeId} : (x : Expr) → z.ExprHas s x t → .expr e ∈ x.parts →
    Within z site s (expr z site x).code e
  | .literal _ _ _, h, he => by
    rw [Expr.parts, List.mem_singleton] at he
    obtain rfl := Part.expr.inj he
    exact ⟨⟨t, h⟩, List.infix_refl _⟩
  | .binary _ _ left right _, h, he => by
    rw [Expr.parts, List.mem_cons, List.mem_append] at he
    rcases he with he | he
    · obtain rfl := Part.expr.inj he
      exact ⟨⟨t, h⟩, List.infix_refl _⟩
    · cases h with
      | binary hl hr call =>
        rw [expr, call]
        rcases he with he | he
        · exact (within_expr left hl he).mono (List.prefix_append _ _).isInfix
        · exact (within_expr right hr he).mono
            ((args_infix_callRoutine _ _ _ _).trans (List.suffix_append _ _).isInfix)
  | .unary _ _ operand _, h, he => by
    rw [Expr.parts, List.mem_cons] at he
    rcases he with he | he
    · obtain rfl := Part.expr.inj he
      exact ⟨⟨t, h⟩, List.infix_refl _⟩
    · cases h with
      | unary ho call =>
        rw [expr, call]
        exact (within_expr operand ho he).mono (args_infix_callRoutine _ _ _ _)
  | .paren _ inner _, h, he => by
    rw [Expr.parts, List.mem_cons] at he
    rcases he with he | he
    · obtain rfl := Part.expr.inj he
      exact ⟨⟨t, h⟩, List.infix_refl _⟩
    · cases h with
      | paren hi =>
        rw [expr]
        exact within_expr inner hi he
  | .chain c, h, he => by
    rw [Expr.parts, List.mem_cons] at he
    rcases he with he | he
    · obtain rfl := Part.expr.inj he
      exact ⟨⟨t, h⟩, List.infix_refl _⟩
    · cases h with
      | chain hc =>
        rw [expr]
        exact within_chain c hc he

theorem within_chain {t : Option TypeId} : (c : Chain) → z.ChainHas s c t →
    .expr e ∈ c.linkParts → Within z site s (chain z site c).code e
  | ⟨_, ls, _⟩, h, he => by
    rw [chain]
    exact within_links ls (argsWithin_chain h) he

theorem within_link : (l : Link) → ArgsWithin z site s l → .expr e ∈ l.parts →
    Within z site s (link z site l).code e
  | .bare _ _ _, _, he => absurd (List.mem_singleton.mp he) (by simp)
  | .call _ _ args _, ⟨⟨_, hargs⟩, hcode⟩, he => by
    rw [Link.parts, List.mem_cons] at he
    exact (within_exprs args hargs (he.resolve_left (by simp))).mono hcode

theorem within_links : (ls : List Link) → (∀ l ∈ ls, ArgsWithin z site s l) →
    .expr e ∈ Link.allParts ls → Within z site s (links z site ls).code e
  | [], _, he => absurd he List.not_mem_nil
  | l :: ls, h, he => by
    rw [List.forall_mem_cons] at h
    rw [Link.allParts, List.mem_append] at he
    rw [links]
    rcases he with he | he
    · exact (within_link l h.1 he).mono (List.prefix_append _ _).isInfix
    · exact (within_links ls h.2 he).mono (List.suffix_append _ _).isInfix

theorem within_exprs {ts : List TypeId} : (es : List Expr) → z.ArgsHave s es ts →
    .expr e ∈ Expr.allParts es → Within z site s (exprs z site es).code e
  | [], _, he => absurd he List.not_mem_nil
  | x :: es, h, he => by
    rw [Expr.allParts, List.mem_append] at he
    rw [exprs]
    cases h with
    | cons hx hes =>
      rcases he with he | he
      · exact (within_expr x hx he).mono (List.prefix_append _ _).isInfix
      · exact (within_exprs es hes he).mono (List.suffix_append _ _).isInfix

end

/-! ## Values that are written -/

/-- The code of an initial value stands once in the code that gives it to places, and what is
around it is the same for all values. -/
theorem code_initPlaces (type : TypeId) (mode : WriteMode) (p : Place) (ps : List Place) :
    ∃ before after, ∀ value : Fragment,
      (initPlaces z type mode value (p :: ps)).code = before ++ value.code ++ after := by
  cases mode with
  | copy r =>
    obtain ⟨before, after, hcall⟩ := code_callRoutine (z := z) type r false
    refine ⟨defaultValue z type ++ [p.write, p.read] ++ before,
      after ++ (Fragment.concat (ps.map (copyInto z type r (.ofList [p.read])))).code,
      fun value => ?_⟩
    rw [initPlaces, Fragment.code_append, copyInto, Fragment.code_append, hcall]
    simp only [Fragment.code_ofList, List.append_assoc]
  | store =>
    refine ⟨[], (ps.map fun _ => .dup) ++ (p :: ps).map (·.write), fun value => ?_⟩
    exact List.append_assoc _ _ _

theorem bindings_ne_nil {type : TypeId} {names : List Ident} {bs : List Binding}
    (h : z.NamesDone s type names bs) (hne : names ≠ []) : bs ≠ [] := by
  rintro rfl
  exact hne (List.map_eq_nil_iff.mp h.names_eq.symm)

theorem value_infix_initPlaces (type : TypeId) (mode : WriteMode) (value : Fragment)
    {ps : List Place} (h : ps ≠ []) : value.code <:+: (initPlaces z type mode value ps).code := by
  obtain ⟨p, ps, rfl⟩ := List.exists_cons_of_ne_nil h
  obtain ⟨before, after, hcode⟩ := code_initPlaces (z := z) type mode p ps
  exact ⟨before, after, (hcode value).symm⟩

theorem value_infix_initDecl (hz : z.scopes.Sound) (hb : (z.scopes.get s).kind.isBody = true)
    {d : InitDecl} {f : DeclFinding} {mode : WriteMode}
    (h : z.InitDone s s d.node d.names d.value f mode) (hne : d.names ≠ []) :
    (expr z site d.value).code <:+: (initDecl z site d).code := by
  obtain ⟨ks, hks, hcode⟩ := initDecl_eq site hz hb h
  rw [hcode]
  refine value_infix_initPlaces _ _ _ fun hnil => bindings_ne_nil h.names hne ?_
  rwa [List.map_eq_nil_iff.mp hnil, List.map_nil, List.map_eq_nil_iff] at hks

theorem value_infix_staticField {v : ScopeId} {x : StaticField} {f : DeclFinding}
    {mode : WriteMode} (h : z.InitDone s v x.decl.node x.decl.names x.init f mode)
    (hne : x.decl.names ≠ []) : (expr z site x.init).code <:+: (staticField z site x).code := by
  rw [staticField_eq h]
  exact value_infix_initPlaces _ _ _ fun hnil =>
    bindings_ne_nil h.names hne (List.map_eq_nil_iff.mp hnil)

/-- What is stored through has no arguments, so all arguments stand before it. -/
theorem mem_parts_dropLast {c : Chain} {t : Option TypeId} {l : Link} (h : z.ChainHas s c t)
    (hl : c.last? = some l) (hn : z.Names l) (he : .expr e ∈ c.linkParts) :
    .expr e ∈ Link.allParts c.links.dropLast := by
  have hbare : ∀ l ∈ c.links, z.Names l → .expr e ∉ l.parts := by
    refine h.forall_links (fun h hn => ?_) fun h hn => ?_
    · cases h with
      | load | typeName => simp [Link.parts]
      | callBinding _ _ record | callType _ _ record | construct _ _ record =>
        rcases hn with ⟨b, access, hb⟩ | ⟨owner, b, hb⟩ <;>
          exact absurd (record.symm.trans hb) (by simp)
    · cases h with
      | field => simp [Link.parts]
      | callMember _ _ _ record | callField _ _ _ _ _ record =>
        rcases hn with ⟨b, access, hb⟩ | ⟨owner, b, hb⟩ <;>
          exact absurd (record.symm.trans hb) (by simp)
  have hlinks := List.dropLast_append_getLast? l hl
  rw [Chain.linkParts_eq, ← hlinks, Link.allParts_append, List.mem_append] at he
  rcases he with he | he
  · exact he
  · rw [Link.allParts, Link.allParts, List.append_nil] at he
    exact absurd he (hbare l (List.mem_of_getLast? hl) hn)

/-- A binding is stored to through the only link of a chain. -/
theorem dropLast_of_load {c : Chain} {t : Option TypeId} {l : Link} (h : z.ChainHas s c t)
    (hl : c.last? = some l) {b : Binding} {access : Access}
    (hb : z.findings.links.find? l.node = some (.load b access)) : c.links.dropLast = [] := by
  cases h with
  | @mk node head rest span first last f hh hr =>
    cases rest with
    | nil => rfl
    | cons x xs =>
      obtain ⟨before, -, hlast⟩ := last_of_linksMake hr (by simpa [Chain.last?] using hl)
      cases hlast with
      | field _ _ record | callMember _ _ _ record | callField _ _ _ _ _ record =>
        exact absurd (record.symm.trans hb) (by simp)

theorem within_storeTarget {c : Chain} {t : Option TypeId} {l : Link} (h : z.ChainHas s c t)
    (hl : c.last? = some l) (hn : z.Names l) (value : Fragment) :
    value.code <:+: (storeTarget z site c value).code ∧
      ∀ e, .expr e ∈ c.linkParts → Within z site s (storeTarget z site c value).code e := by
  have hdrop := fun e (he : .expr e ∈ c.linkParts) => mem_parts_dropLast h hl hn he
  rw [storeTarget, hl, Option.bind_some]
  rcases hn with ⟨b, access, hb⟩ | ⟨owner, b, hb⟩
  · rw [dropLast_of_load h hl hb] at hdrop
    rw [hb]
    exact ⟨List.infix_append _ _ _, fun e he => absurd (hdrop e he) List.not_mem_nil⟩
  · rw [hb]
    refine ⟨List.infix_append _ _ _, fun e he => ?_⟩
    have hreceiver : Within z site s (receiver z site c).code e :=
      within_links _ (fun l hl => argsWithin_chain h l (List.mem_of_mem_dropLast hl)) (hdrop e he)
    exact hreceiver.mono ((List.prefix_append _ _).isInfix.trans (List.prefix_append _ _).isInfix)

theorem within_assign {x : Assignment} {f : AssignFinding} (h : z.AssignDone s x f) :
    (expr z site x.value).code <:+: (assign z site x).code ∧
      ∀ e, .expr e ∈ x.target.linkParts → Within z site s (assign z site x).code e := by
  obtain ⟨target, mode⟩ := f
  rw [assign, h.record]
  cases mode with
  | copy r =>
    refine ⟨(args_infix_callRoutine _ _ _ _).trans (List.suffix_append _ _).isInfix, fun e he => ?_⟩
    exact (within_chain x.target h.target he).mono (List.prefix_append _ _).isInfix
  | store =>
    obtain ⟨l, hl, hn⟩ := h.stored rfl
    exact within_storeTarget h.target hl hn _

end Lowering

end Unnest
