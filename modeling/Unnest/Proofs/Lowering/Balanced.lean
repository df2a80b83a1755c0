import Unnest.Proofs.Analysis.Decided
import Unnest.Proofs.Code.Stack
import Unnest.Proofs.Lowering.Plain
import Unnest.Proofs.Scope.Environment

/-!
# What fragments do to the stack

A fragment whose parts are all decided has no gaps, and what it does to the stack can be
read off the tree: an expression pushes one value, a chain pushes what it yields, and a
declaration or an assignment leaves the stack as it was.  There is one exception.  A copy
calls the assignment routine of the type, and if that routine gives a result the result
stays behind (`WriteMode.left`).

`Fragment.Moves f m n` says that `f` has no gaps and leads from `m` cells to `n`.
-/

namespace Unnest

open Code

/-! ## Moves -/

/-- A fragment without gaps that leads from `m` cells on the stack to `n`. -/
structure Fragment.Moves (f : Fragment) (m n : Nat) : Prop where
  gaps : f.gaps = 0
  carries : Carries m f.code n

namespace Fragment.Moves

variable {f g : Fragment} {m n k : Nat}

theorem append (h : f.Moves m k) (h' : g.Moves k n) : (f ++ g).Moves m n :=
  ⟨by rw [gaps_append, h.gaps, h'.gaps], h.carries.append h'.carries⟩

theorem raise (h : f.Moves m n) (k : Nat) : f.Moves (k + m) (k + n) := by
  refine ⟨h.gaps, ?_⟩
  rw [Int.natCast_add, Int.natCast_add]
  exact h.carries.raise (Int.natCast_nonneg k)

/-- One fragment above what another one has pushed. -/
theorem above (h : f.Moves m k) (h' : g.Moves 0 n) : (f ++ g).Moves m (k + n) :=
  h.append (h'.raise k)

theorem ofList {code : List Instruction} (h : Carries m code n) : (ofList code).Moves m n :=
  ⟨rfl, h⟩

theorem empty (m : Nat) : Moves {} m m := ⟨rfl, Int.natCast_nonneg m, rfl⟩

theorem concat {fs : List Fragment} (h : ∀ f ∈ fs, f.Moves 0 k) :
    (Fragment.concat fs).Moves 0 (fs.length * k) := by
  induction fs with
  | nil =>
    rw [List.length_nil, Nat.zero_mul]
    exact empty 0
  | cons f fs ih =>
    rw [List.forall_mem_cons] at h
    rw [List.length_cons, Nat.succ_mul, Nat.add_comm]
    exact h.1.above (ih h.2)

end Fragment.Moves

/-- The cells that a result takes. -/
def Signature.yields (s : Signature) : Nat := if s.result.isSome then 1 else 0

/-- The cells of what the links of a chain have produced so far. -/
def Produced.cells : Produced → Nat
  | .value _ _ => 1
  | .nothing | .typeName _ => 0

/-- The cells that writing a value into `n` names leaves behind. -/
def WriteMode.left (n : Nat) : WriteMode → Nat
  | .copy routine => n * routine.yields
  | .store => 0

namespace Produced

theorem cells_ofCall (routine : Signature) : (ofCall routine).cells = routine.yields := by
  rw [ofCall, Signature.yields]
  cases routine.result <;> rfl

theorem cells_of_receiver? {x : Produced} {owner : TypeId} {isStatic : Bool}
    (h : x.receiver? = some (owner, isStatic)) : x.cells = if isStatic then 0 else 1 := by
  cases x with
  | value | typeName =>
    obtain ⟨-, rfl⟩ := Prod.mk.inj (Option.some.inj h)
    rfl
  | nothing => exact absurd h (by simp [receiver?])

theorem cells_of_finding? {x : Produced} {f : ChainFinding} (h : x.finding? = some f) :
    x.cells = if f.type.isSome then 1 else 0 := by
  cases x with
  | value | nothing =>
    obtain rfl := Option.some.inj h
    rfl
  | typeName => exact absurd h (by simp [finding?])

end Produced

namespace Lowering

variable {z : Analysis} {site : Site} {s : ScopeId}

/-! ## Descriptors -/

@[simp] theorem cells_classDescriptor (path : String) :
    Descriptor.cells (TypeTable.classDescriptor path) = 1 := by
  have h : (TypeTable.classDescriptor path).toList = 'L' :: (path.toList ++ [';']) := by
    show ("L" ++ path ++ ";").toList = _
    simp
  refine if_neg ?_
  rintro (h' | h') <;> rw [h'] at h <;> simp at h

@[simp] theorem cells_descriptor (t : TypeTable) (type : TypeId) :
    Descriptor.cells (t.descriptor type) = 1 := cells_classDescriptor _

theorem paramCells_eq {ds : List String} {result : Option String}
    (h : ∀ d ∈ ds, Descriptor.cells d = 1) : Descriptor.paramCells ⟨ds, result⟩ = ds.length := by
  rw [Descriptor.paramCells]
  induction ds with
  | nil => rfl
  | cons d ds ih =>
    rw [List.forall_mem_cons] at h
    rw [List.foldr_cons, h.1, ih h.2, List.length_cons, Nat.add_comm]

@[simp] theorem paramCells_descriptorOf (r : Signature) :
    (descriptorOf z r).paramCells = r.params.length := by
  rw [descriptorOf, paramCells_eq, List.length_map]
  intro d hd
  obtain ⟨type, -, rfl⟩ := List.mem_map.mp hd
  exact cells_descriptor _ _

@[simp] theorem resultCells_descriptorOf (r : Signature) :
    (descriptorOf z r).resultCells = r.yields := by
  rw [descriptorOf, Descriptor.resultCells, Signature.yields]
  cases r.result <;> simp

/-! ## Values -/

theorem defaultValue_moves (type : TypeId) : (Fragment.ofList (defaultValue z type)).Moves 0 1 := by
  refine .ofList ?_
  unfold defaultValue makeObject
  split <;> simp [Carries, Instruction.effect, Descriptor.void, Descriptor.paramCells,
    Descriptor.resultCells]

theorem literal_moves (value : Literal) : (Fragment.ofList (literal z value)).Moves 0 1 := by
  refine .ofList ?_
  cases value <;> simp [literal, makeConstant, Carries, Instruction.effect, Descriptor.paramCells,
    Descriptor.resultCells, Descriptor.cells, Reserved.textDescriptor]

/-- Where an instance is asked for, the site has one. -/
def Suits (site : Site) (access : Access) : Prop :=
  access = .enclosing → ∃ owner, site.instanceType = some owner

theorem loadInstance_moves {owner : TypeId} (h : site.instanceType = some owner) :
    (loadInstance z site).Moves 0 1 := by
  rw [loadInstance, h]
  exact .ofList (by simp [Carries, Instruction.effect])

theorem load_moves (b : Binding) {access : Access} (h : Suits site access) :
    (load z site b access).Moves 0 1 := by
  cases access with
  | slot | itself | static =>
    exact .ofList (by simp [Carries, Instruction.effect, memberField])
  | captured =>
    rw [load]
    split <;> exact .ofList (by simp [Carries, Instruction.effect, capturedField])
  | enclosing =>
    obtain ⟨owner, howner⟩ := h rfl
    rw [load, howner]
    exact (loadInstance_moves howner).append (.ofList (by
      simp [Carries, Instruction.effect, memberField]))

theorem store_moves (b : Binding) {access : Access} {value : Fragment} (h : Suits site access)
    (hv : value.Moves 0 1) :
    (beforeStore z site access ++ value ++ store z site b access).Moves 0 0 := by
  cases access with
  | slot | itself | static =>
    exact ((Fragment.Moves.empty 0).append hv).append (.ofList (by
      simp [Carries, Instruction.effect, memberField]))
  | captured =>
    rw [beforeStore, store]
    cases site.kind with
    | routine =>
      have hthis : (Fragment.ofList [.load 0]).Moves 0 1 :=
        .ofList (by simp [Carries, Instruction.effect])
      exact (hthis.above hv).append (.ofList (by
        simp [Carries, Instruction.effect, capturedField]))
    | main | constructor | staticInit =>
      exact ((Fragment.Moves.empty 0).append hv).append (.ofList (by
        simp [Carries, Instruction.effect, capturedField]))
  | enclosing =>
    obtain ⟨owner, howner⟩ := h rfl
    rw [beforeStore, store, howner]
    exact ((loadInstance_moves howner).above hv).append (.ofList (by
      simp [Carries, Instruction.effect, memberField]))

theorem readMember_moves (owner : TypeId) {b : Binding} {isStatic : Bool}
    (h : b.role = .member isStatic) (isStatic' : Bool) (h' : isStatic' = true → isStatic = true) :
    (Fragment.ofList (readMember z owner b isStatic')).Moves (if isStatic then 0 else 1) 1 := by
  refine .ofList ?_
  rw [readMember, h]
  cases isStatic with
  | true => simp [Carries, Instruction.effect, memberField, Role.member]
  | false =>
    cases isStatic' with
    | true => exact absurd (h' rfl) Bool.false_ne_true
    | false => simp [Carries, Instruction.effect, memberField, Role.member]

/-! ## Calls -/

/-- A call takes its receiver, unless it is static, and pushes its result. -/
theorem callRoutine_moves {owner : TypeId} {isStatic : Bool} {name : String} {ts : List TypeId}
    {r : Signature} (h : z.Offers owner isStatic name ts r) {args : Fragment}
    (hargs : args.Moves 0 ts.length) :
    (callRoutine z owner r isStatic args).Moves (if isStatic then 0 else 1) r.yields := by
  obtain ⟨t, ht, hx, hlookup⟩ := h
  obtain ⟨hhas, -, -, hlength⟩ := TypeTable.lookup_spec hlookup
  have hvirtual : ∀ owner name : String, (Fragment.ofList
      [.invokeVirtual ⟨owner, name, descriptorOf z r⟩]).Moves (1 + ts.length) r.yields :=
    fun owner name => .ofList (by
      simp [Carries, Instruction.effect, hlength]
      omega)
  rw [callRoutine]
  dsimp only
  cases hform : z.types.form owner with
  | library | builtin =>
    cases isStatic with
    | true =>
      refine hargs.append (.ofList ?_)
      simp [Carries, Instruction.effect, hlength]
    | false => exact (hargs.raise 1).append (hvirtual _ _)
  | user =>
    have hfield : (Fragment.ofList [if isStatic then Instruction.getStatic
        ⟨z.types.path owner, r.name, TypeTable.classDescriptor z.types.routineBase⟩
      else .getField ⟨z.types.path owner, r.name,
        TypeTable.classDescriptor z.types.routineBase⟩]).Moves (if isStatic then 0 else 1) 1 := by
      refine .ofList ?_
      cases isStatic <;> simp [Carries, Instruction.effect]
    exact (hfield.above hargs).append (hvirtual _ _)
  | routine =>
    rw [hx.form owner hhas] at hform
    rw [ht.isStatic_of_lookup hlookup hform]
    exact (hargs.raise 1).append (hvirtual _ _)

/-! ## Expressions -/

/-- The code of a scope is emitted at a site: if it belongs to the instance of a type,
the site has that instance. -/
structure Houses (z : Analysis) (site : Site) (s : ScopeId) : Prop where
  instanceType : (z.scopes.get (z.scopes.owningMethod s)).kind = .routine →
    (z.scopes.get (z.scopes.owningMethod s)).isStatic = false →
    site.instanceType = (z.scopes.get (z.scopes.owningMethod s)).memberOf

theorem Houses.suits (h : Houses z site s) (hz : z.scopes.Sound) {c : Capture} {access : Access}
    (hr : z.scopes.Reaches s c access) : Suits site access := by
  rintro rfl
  obtain ⟨-, hk, hst, -, hmember, hsome⟩ := hz.leads hr (by simp)
  obtain ⟨owner, howner⟩ := Option.isSome_iff_exists.mp hsome
  exact ⟨owner, by rw [h.instanceType hk hst, hmember, howner]⟩

/-- The blocks of a method are emitted where the method is. -/
theorem Houses.block (h : Houses z site s) (hz : z.scopes.Sound) {b : ScopeId}
    (hp : z.scopes.parent b = some s) (hk : (z.scopes.get b).kind = .block) :
    Houses z site b := by
  have heq := hz.owningMethod_of_parent (by rw [hk]; rfl) hp
  refine ⟨?_⟩
  rw [heq]
  exact h.instanceType

/-- What a binding holds is called as a value. -/
theorem callValue_moves {type : TypeId} {ts : List TypeId} {r : Signature} {read args : Fragment}
    {m : Nat} (h : z.Offers type false Reserved.call ts r) (hread : read.Moves m 1)
    (hargs : args.Moves 0 ts.length) :
    (read ++ callRoutine z type r false args).Moves m r.yields :=
  hread.append (callRoutine_moves h hargs)

theorem linkAt_eq {node : NodeId} {f : LinkFinding} (h : z.findings.links.find? node = some f)
    (args : Fragment) : linkAt z site node args = linkCode z site args f := by
  rw [linkAt, h]

mutual

theorem expr_moves (hz : z.scopes.Sound) (hs : Houses z site s) : (e : Expr) → {t : TypeId} →
    z.ExprHas s e t → (expr z site e).Moves 0 1
  | .literal _ value _, _, _ => by
    rw [expr]
    exact literal_moves value
  | .binary _ _ left right _, _, h => by
    cases h with
    | binary hl hr call offer result =>
      have hargs := expr_moves hz hs right hr
      have hcall := callRoutine_moves offer hargs
      rw [Signature.yields, result] at hcall
      rw [expr, call]
      exact (expr_moves hz hs left hl).append hcall
  | .unary _ _ operand _, _, h => by
    cases h with
    | unary ho call offer result =>
      have hcall := callRoutine_moves offer (expr_moves hz hs operand ho)
      rw [Signature.yields, result] at hcall
      rw [expr, call]
      exact hcall
  | .paren _ inner _, _, h => by
    cases h with
    | paren hi =>
      rw [expr]
      exact expr_moves hz hs inner hi
  | .chain c, _, h => by
    cases h with
    | chain hc =>
      rw [expr]
      exact chain_moves hz hs c hc

theorem chain_moves (hz : z.scopes.Sound) (hs : Houses z site s) : (c : Chain) →
    {t : Option TypeId} → z.ChainHas s c t → (chain z site c).Moves 0 (if t.isSome then 1 else 0)
  | ⟨_, [], _⟩, _, h => nomatch h
  | ⟨_, head :: rest, _⟩, _, h => by
    cases h with
    | mk hh hr finding =>
      rw [chain, links, ← Produced.cells_of_finding? finding]
      exact (head_moves hz hs head hh).append (links_moves hz hs rest hr)

theorem head_moves (hz : z.scopes.Sound) (hs : Houses z site s) : (l : Link) → {hasMore : Bool} →
    {p : Produced} → z.HeadMakes s hasMore l p → (link z site l).Moves 0 p.cells
  | .bare _ _ _, _, _, h => by
    cases h with
    | load record sees =>
      obtain ⟨owner, hr⟩ := sees
      rw [link, linkAt_eq record]
      exact load_moves _ (hs.suits hz hr)
    | typeName _ record =>
      rw [link, linkAt_eq record]
      exact .empty 0
  | .call _ _ args _, _, _, h => by
    cases h with
    | callBinding hargs offer record sees =>
      obtain ⟨owner, hr⟩ := sees
      rw [link, linkAt_eq record, Produced.cells_ofCall]
      exact callValue_moves offer (load_moves _ (hs.suits hz hr)) (exprs_moves hz hs args hargs)
    | callType hargs offer record =>
      rw [link, linkAt_eq record, Produced.cells_ofCall]
      exact callRoutine_moves offer (exprs_moves hz hs args hargs)
    | construct _ _ record =>
      rw [link, linkAt_eq record]
      exact defaultValue_moves _

theorem link_moves (hz : z.scopes.Sound) (hs : Houses z site s) : (l : Link) →
    {before after : Produced} → z.LinkMakes s before l after →
      (link z site l).Moves before.cells after.cells
  | .bare _ _ _, _, _, h => by
    cases h with
    | field on role record =>
      rw [link, linkAt_eq record, Produced.cells_of_receiver? on]
      exact readMember_moves _ role false fun h => absurd h Bool.false_ne_true
  | .call _ _ args _, _, _, h => by
    cases h with
    | callMember on hargs offer record =>
      rw [link, linkAt_eq record, Produced.cells_of_receiver? on, Produced.cells_ofCall]
      exact callRoutine_moves offer (exprs_moves hz hs args hargs)
    | callField on hargs role member offer record =>
      rw [link, linkAt_eq record, Produced.cells_of_receiver? on, Produced.cells_ofCall, linkCode,
        member]
      exact callValue_moves offer (readMember_moves _ role _ id) (exprs_moves hz hs args hargs)

theorem links_moves (hz : z.scopes.Sound) (hs : Houses z site s) : (ls : List Link) →
    {before after : Produced} → z.LinksMake s before ls after →
      (links z site ls).Moves before.cells after.cells
  | [], _, _, h => by
    cases h
    rw [links]
    exact .empty _
  | l :: ls, _, _, h => by
    cases h with
    | cons hl hls =>
      rw [links]
      exact (link_moves hz hs l hl).append (links_moves hz hs ls hls)

theorem exprs_moves (hz : z.scopes.Sound) (hs : Houses z site s) : (es : List Expr) →
    {ts : List TypeId} → z.ArgsHave s es ts → (exprs z site es).Moves 0 ts.length
  | [], _, h => by
    cases h
    rw [exprs]
    exact .empty 0
  | e :: es, _, h => by
    cases h with
    | @cons _ _ _ ts he hes =>
      rw [exprs, List.length_cons, Nat.add_comm]
      exact (expr_moves hz hs e he).above (exprs_moves hz hs es hes)

end

end Lowering

end Unnest
