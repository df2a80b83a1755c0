import Unnest.Proofs.Lowering.Locals
import Unnest.Proofs.Lowering.Ranges
import Unnest.Proofs.Lowering.Typed
import Unnest.Proofs.Lowering.Within

/-!
# Evaluated expressions

Every expression of an accepted program is evaluated somewhere: its code stands in a method
of a class of the program, and that method furnishes the scope of the expression.  So the code
pushes one cell for a value of the type that was recorded, and fits on the way
(`expressions_typed`).

A method lists its local variables, each with a slot and a descriptor, and that is all that
its code knows about them (`frame`).  The variables of a method are the bindings of the
scopes that belong to it, in their slots, and the receiver or the arguments in the first
one.  So the frame of a method furnishes the scope that its code is of: `furnishes_main` for
the body of a program, `furnishes_routine` for that of a routine.  The static method of a
type has no variables, and the scope of its initial values, where nothing can be declared,
needs none (`furnishes_fieldInit`).

Steps of lowering are put together by `Evaluates.trans`; what was lowered for a method goes
with it when the class of the method is complete (`Evaluates.complete`).

One kind of expression has no code: a value that nothing is written to, since a declaration
has no names or the target of an assignment no links (`Part.unused`).

The code of a declaration with an initial value stands in such a method in the same way, with
the value in the scope that the method furnishes (`Initialised`).
-/

namespace Unnest

open Code

/-- The parts of a value that nothing is written to. -/
def Part.unused : Part → List Part
  | .define d => if d.names = [] then d.value.parts else []
  | .staticField f => if f.decl.names = [] then f.init.parts else []
  | .assign x => if x.target.links = [] then x.value.parts else []
  | .expr _ | .chain _ | .link _ | .block _ | .declare _ | .routine _ | .type _ => []

/-- The parts of all values that nothing is written to. -/
def Part.allUnused (xs : List Part) : List Part := xs.flatMap unused

theorem Part.unused_subset_allUnused {x : Part} {xs : List Part} (h : x ∈ xs) :
    x.unused ⊆ allUnused xs := fun _ hy => List.mem_flatMap.mpr ⟨x, h, hy⟩

theorem Part.allUnused_mono {xs ys : List Part} (h : xs ⊆ ys) : allUnused xs ⊆ allUnused ys := by
  intro y hy
  obtain ⟨x, hx, hy⟩ := List.mem_flatMap.mp hy
  exact List.mem_flatMap.mpr ⟨x, h hx, hy⟩

/-- The routine that a link calls. -/
def LinkFinding.routine? : LinkFinding → Option Signature
  | .call _ routine _ => some routine
  | .load _ _ | .typeName _ | .construct _ | .field _ _ => none

/-- The name of the method that code at a site is for. -/
def SiteKind.method : SiteKind → String
  | .main => Reserved.main
  | .routine => Reserved.call
  | .constructor => Reserved.constructor
  | .staticInit => Reserved.staticInit

namespace Lowering

variable {z : Analysis} {F : Frame} {site : Site} {s : ScopeId} {code code' : List Instruction}
  {e : Expr}

/-! ## Frames -/

section Frames

variable {m : Method}

/-- The classes of routines extend the routine base. -/
def routineExtensions (z : Analysis) : List (String × String) :=
  z.findings.routines.map fun e => (z.units.path e.2.unit, z.types.routineBase)

/-- What the code of a method can rely on. -/
def frame (z : Analysis) (m : Method) : Frame := ⟨m.vars, routineExtensions z⟩

/-! ### Slots -/

/-- Every variable of a method is in its slot. -/
theorem slot?_frame {vars : List LocalVar}
    (hm : m.vars = vars.mergeSort fun a b => decide (a.slot ≤ b.slot))
    (hn : (vars.map (·.slot)).Nodup) {v : LocalVar} (hv : v ∈ vars) :
    (frame z m).slot? v.slot = some v.descriptor := by
  have hmem : v ∈ m.vars := by rwa [hm, List.mem_mergeSort]
  have hnodup : (m.vars.map (·.slot)).Nodup := by
    rwa [hm, ((List.mergeSort_perm vars _).map _).nodup_iff]
  obtain ⟨w, hw⟩ : ∃ w, m.vars.find? (fun x => x.slot == v.slot) = some w :=
    Option.isSome_iff_exists.mp (List.find?_isSome.mpr ⟨v, hmem, beq_self_eq_true _⟩)
  have hslot := List.find?_some hw
  rw [beq_iff_eq] at hslot
  obtain rfl := List.inj_on_of_nodup_map hnodup (List.mem_of_find?_eq_some hw) hmem hslot
  rw [Frame.slot?, frame, hw, Option.map_some]

section Method

variable {name descriptor : String} (hl : z.scopes.Laid)
  (howns : (z.scopes.get s).kind.ownsMethod = true) (hk : (z.scopes.get s).kind.reservedSlots = 1)
  (hm : m.vars = (localVars z s ++ [(⟨0, name, descriptor⟩ : LocalVar)]).mergeSort
    fun a b => decide (a.slot ≤ b.slot))

include hl howns hk hm

theorem slot?_first : (frame z m).slot? 0 = some descriptor :=
  slot?_frame hm (nodup_vars hl howns hk name descriptor)
    (List.mem_append_right _ (List.mem_singleton_self _))

/-- The bindings of the scopes of a method are in their slots. -/
theorem slot?_binding {o : ScopeId} (ho : z.scopes.owningMethod o = s) {b : Binding}
    (hb : b ∈ (z.scopes.get o).entries) {k : Nat} (hslot : b.slot = some k) :
    (frame z m).slot? k = some (z.types.descriptor b.type) := by
  have hs : s ∈ z.scopes.methodPath o := ho ▸ Scopes.owningMethod_mem_methodPath z.scopes o
  exact slot?_frame hm (nodup_vars hl howns hk name descriptor)
    (List.mem_append_left _ (mem_localVars hs hb hslot))

end Method

/-! ### Scopes -/

theorem furnishes_main (hz : z.scopes.Sound) (hl : z.scopes.Laid) (program : String)
    {name descriptor : String}
    (hm : m.vars = (localVars z Scopes.rootId ++ [(⟨0, name, descriptor⟩ : LocalVar)]).mergeSort
      fun a b => decide (a.slot ≤ b.slot)) :
    Furnishes z (frame z m) (mainSite program) Scopes.rootId := by
  have howns : (z.scopes.get Scopes.rootId).kind.ownsMethod = true := by rw [hz.root_kind]; rfl
  have hreserved : (z.scopes.get Scopes.rootId).kind.reservedSlots = 1 := by rw [hz.root_kind]; rfl
  have heq := Scopes.owningMethod_of_owns howns
  have hkind : (z.scopes.get (z.scopes.owningMethod Scopes.rootId)).kind ≠ .routine := by
    rw [heq, hz.root_kind]
    simp
  refine ⟨houses_main hz program, fun h => absurd h hkind, fun h => absurd h (by simp [mainSite]),
    fun h => absurd h (by simp [mainSite]), fun o ho b hb k hk => ?_,
    fun _ _ h => absurd h hkind⟩
  exact slot?_binding hl howns hreserved hm (ho.trans heq) hb hk

theorem furnishes_routine (hz : z.Sound) (hl : z.scopes.Laid) {node : NodeId} {f : RoutineFinding}
    (hf : z.findings.routines.find? node = some f)
    (hm : m.vars = (localVars z f.scope ++ [thisVar (z.units.path f.unit)]).mergeSort
      fun a b => decide (a.slot ≤ b.slot)) :
    Furnishes z (frame z m) (routineSite z f) f.scope := by
  have hmem := NodeTable.mem_of_find? hf
  have hr := hz.routines _ hmem
  have howns : (z.scopes.get f.scope).kind.ownsMethod = true := by rw [hr.kind]; rfl
  have hreserved : (z.scopes.get f.scope).kind.reservedSlots = 1 := by rw [hr.kind]; rfl
  have heq := Scopes.owningMethod_of_owns howns
  refine ⟨houses_routine hr, fun _ => rfl, fun _ => slot?_first hl howns hreserved hm,
    fun _ => List.mem_map.mpr ⟨_, hmem, rfl⟩, fun o ho b hb k hk => ?_,
    fun o ho _ b hb hname => ?_⟩
  · exact slot?_binding hl howns hreserved hm (ho.trans heq) hb hk
  · -- The scope around a routine has one binding of its name: the one that holds it.
    rw [heq] at ho hname
    obtain ⟨p, hp, hbinding⟩ := hr.binding
    obtain rfl := Option.some.inj (hp.symm.trans ho)
    obtain rfl := hz.siblings.eq_of_name hb hbinding (hname.trans hr.named)
    exact hz.values _ hmem

theorem furnishes_fieldInit (hz : z.scopes.Sound) {f : TypeFinding}
    (ht : Analysis.TypeSound z.scopes f) (m : Method) :
    Furnishes z (frame z m) (staticSite z f) f.fieldInit := by
  have heq : z.scopes.owningMethod f.fieldInit = f.fieldInit :=
    Scopes.owningMethod_of_owns (by rw [ht.innerKind]; rfl)
  have hkind : (z.scopes.get (z.scopes.owningMethod f.fieldInit)).kind ≠ .routine := by
    rw [heq, ht.innerKind]
    simp
  refine ⟨houses_fieldInit ht _, fun h => absurd h hkind, fun h => absurd h (by simp [staticSite]),
    fun h => absurd h (by simp [staticSite]), fun o ho b hb k hk => ?_,
    fun _ _ h => absurd h hkind⟩
  have hbody := hz.isBody_owningMethod (Scopes.has_of_mem_entries hb) (hz.isBody_of_slot hb hk)
  rw [ho, heq, ht.innerKind] at hbody
  exact absurd hbody Bool.false_ne_true

end Frames

/-! ## Parts in code -/

/-- The routine that the last link of a chain calls. -/
def lastRoutine? (z : Analysis) (c : Chain) : Option Signature :=
  (c.last?.bind fun l => z.findings.links.find? l.node).bind LinkFinding.routine?

/-- A chain yields what the routine gives that its last link calls. -/
theorem result_of_lastRoutine? {c : Chain} {t : Option TypeId} {r : Signature}
    (h : z.ChainHas s c t) (hr : lastRoutine? z c = some r) : t = r.result := by
  obtain ⟨f, hf, hroutine⟩ := Option.bind_eq_some_iff.mp hr
  obtain ⟨l, hl, hrecord⟩ := Option.bind_eq_some_iff.mp hf
  have hlast : ∀ {p : Produced} {x : ChainFinding}, p = .ofCall r → p.finding? = some x →
      x.type = r.result := by
    rintro _ x rfl hx
    rw [← type?_of_finding? hx, type?_ofCall]
  cases h with
  | @mk node head rest span first last x hh hrest finding =>
    cases rest with
    | nil =>
      obtain rfl : head = l := by simpa [Chain.last?] using hl
      cases hrest
      refine hlast ?_ finding
      cases hh with
      | load record | typeName _ record | construct _ _ record =>
        obtain rfl := Option.some.inj (record.symm.trans hrecord)
        exact absurd hroutine (by simp [LinkFinding.routine?])
      | callBinding _ _ record | callType _ _ record =>
        obtain rfl := Option.some.inj (record.symm.trans hrecord)
        rw [Option.some.inj hroutine]
    | cons y ys =>
      obtain ⟨before, -, hlink⟩ := last_of_linksMake hrest (by simpa [Chain.last?] using hl)
      refine hlast ?_ finding
      cases hlink with
      | field _ _ record =>
        obtain rfl := Option.some.inj (record.symm.trans hrecord)
        exact absurd hroutine (by simp [LinkFinding.routine?])
      | callMember _ _ _ record | callField _ _ _ _ _ record =>
        obtain rfl := Option.some.inj (record.symm.trans hrecord)
        rw [Option.some.inj hroutine]

/-- Names whose initial value stands in the scope `v` are given it in code that furnishes that
scope. -/
structure Initialised (z : Analysis) (F : Frame) (site : Site) (s v : ScopeId) (node : NodeId)
    (names : List Ident) (value : Expr) (init code : List Instruction) : Prop where
  done : ∃ f mode, z.InitDone s v node names value f mode
  furnishes : Furnishes z F site v
  code : init <:+: code

theorem Initialised.mono {v : ScopeId} {node : NodeId} {names : List Ident} {value : Expr}
    {init : List Instruction} (h : Initialised z F site s v node names value init code)
    (hc : code <:+: code') : Initialised z F site s v node names value init code' :=
  ⟨h.done, h.furnishes, h.code.trans hc⟩

/-- A part is evaluated in code that the parts `xs` are lowered to: an expression gives a value
of its recorded type, a chain that ends in a routine without a result gives nothing, and a
declaration gives its initial value to its names. -/
def Evaluated (z : Analysis) (F : Frame) (site : Site) (xs : List Part)
    (code : List Instruction) : Part → Prop
  | .expr e => ∃ t, z.findings.exprTypes.find? e.node = some t ∧
      Gives z F (expr z site e).code (some t) ∧
      ((expr z site e).code <:+: code ∨ .expr e ∈ Part.allUnused xs)
  | .chain c => ∀ r, lastRoutine? z c = some r → r.result = none →
      Gives z F (chain z site c).code none ∧ (chain z site c).code <:+: code
  | .define d => ∃ s, (z.scopes.get s).kind.isBody = true ∧
      Initialised z F site s s d.node d.names d.value (initDecl z site d).code code
  | .staticField x => ∃ g : TypeFinding, site = staticSite z g ∧
      Initialised z F site g.scope g.fieldInit x.decl.node x.decl.names x.init
        (staticField z site x).code code
  | .link _ | .block _ | .declare _ | .assign _ | .routine _ | .type _ => True

variable {xs ys : List Part}

theorem Evaluated.mono {x : Part} (h : Evaluated z F site xs code x) (hxs : xs ⊆ ys)
    (hc : code <:+: code') : Evaluated z F site ys code' x := by
  cases x with
  | expr e =>
    obtain ⟨t, record, hgives, hcode⟩ := h
    exact ⟨t, record, hgives, hcode.imp (·.trans hc) (Part.allUnused_mono hxs ·)⟩
  | chain c => exact fun r hr hresult => (h r hr hresult).imp_right (·.trans hc)
  | define d => exact h.imp fun _ h => h.imp_right (·.mono hc)
  | staticField x => exact h.imp fun _ h => h.imp_right (·.mono hc)
  | _ => trivial

theorem evaluated_of_isValue {ps : List Part} (hv : ∀ x ∈ ps, x.isValue = true)
    (h : ∀ e, .expr e ∈ ps → Evaluated z F site xs code (.expr e)) :
    ∀ x ∈ ps, Evaluated z F site xs code x := by
  intro x hx
  cases x with
  | expr e => exact h e hx
  | link => trivial
  | _ => exact absurd (hv _ hx) Bool.false_ne_true

section Furnished

variable (hz : z.scopes.Sound) (hs : Furnishes z F site s)

include hz hs

theorem Within.evaluated (h : Within z site s code e) : Evaluated z F site xs code (.expr e) := by
  obtain ⟨t, he⟩ := h.typed
  exact ⟨t, he.record, expr_gives hz hs e he, Or.inl h.code⟩

theorem evaluated_value {t : TypeId} (h : z.ExprHas s e t) (hc : (expr z site e).code <:+: code) :
    ∀ x ∈ e.parts, Evaluated z F site xs code x :=
  evaluated_of_isValue (fun _ => e.isValue_of_mem_parts) fun _ he =>
    ((within_expr e h he).mono hc).evaluated hz hs

/-- A value that nothing is written to has a type all the same. -/
theorem evaluated_unused {t : TypeId} (h : z.ExprHas s e t) {x : Part} (hx : x ∈ xs)
    (hunused : x.unused = e.parts) : ∀ y ∈ e.parts, Evaluated z F site xs code y := by
  refine evaluated_of_isValue (fun _ => e.isValue_of_mem_parts) fun e' he => ?_
  have hwithin : Within z site s (expr z site e).code e' := within_expr e h he
  obtain ⟨t', he'⟩ := hwithin.typed
  refine ⟨t', he'.record, expr_gives hz hs e' he', Or.inr ?_⟩
  exact Part.unused_subset_allUnused hx (hunused ▸ he)

theorem evaluated_init {v : ScopeId} {node : NodeId} {names : List Ident} {f : DeclFinding}
    {mode : WriteMode} (h : z.InitDone v s node names e f mode) {x : Part} (hx : x ∈ xs)
    (hunused : x.unused = if names = [] then e.parts else [])
    (hc : names ≠ [] → (expr z site e).code <:+: code) :
    ∀ y ∈ e.parts, Evaluated z F site xs code y := by
  obtain ⟨t, hvalue, -⟩ := h.value
  by_cases hnames : names = []
  · exact evaluated_unused hz hs hvalue hx (hunused.trans (if_pos hnames))
  · exact evaluated_value hz hs hvalue (hc hnames)

theorem evaluated_chain {c : Chain} (h : c.links ≠ [] →
    ∃ t, z.ChainHas s c t ∧ (t = none → (chain z site c).code <:+: code)) :
    Evaluated z F site xs code (.chain c) := by
  intro r hr hresult
  have hlinks : c.links ≠ [] := fun hnil => by
    rw [lastRoutine?, Chain.last?, hnil] at hr
    exact absurd hr (by simp)
  obtain ⟨t, hchain, hcode⟩ := h hlinks
  obtain rfl : t = none := (result_of_lastRoutine? hchain hr).trans hresult
  exact ⟨chain_gives hz hs c hchain, hcode rfl⟩

/-- The arguments of a chain are evaluated in code that their code stands in. -/
theorem evaluated_linkParts {c : Chain} (h : c.links ≠ [] →
    ∀ e, .expr e ∈ c.linkParts → Within z site s code e) :
    ∀ x ∈ c.linkParts, Evaluated z F site xs code x := by
  refine evaluated_of_isValue (fun _ => c.isValue_of_mem_linkParts) fun e he => ?_
  have hlinks : c.links ≠ [] := fun hnil => by
    rw [Chain.linkParts_of_nil hnil] at he
    exact List.not_mem_nil he
  exact (h hlinks e he).evaluated hz hs

theorem evaluated_assign {x : Assignment} (h : x.target.links ≠ [] → ∃ f, z.AssignDone s x f)
    (hvalue : ∃ t, z.ExprHas s x.value t) : ∀ y ∈ (Stmt.assign x).parts,
      Evaluated z F site (Stmt.assign x).parts (assign z site x).code y := by
  obtain ⟨t, hvalue⟩ := hvalue
  rw [Stmt.parts, Chain.parts]
  refine List.forall_mem_cons.mpr ⟨trivial, List.forall_mem_append.mpr
    ⟨List.forall_mem_cons.mpr ⟨?_, ?_⟩, ?_⟩⟩
  · refine evaluated_chain hz hs fun hlinks => ?_
    obtain ⟨f, hdone⟩ := h hlinks
    exact ⟨_, hdone.target, fun h => nomatch h⟩
  · refine evaluated_linkParts hz hs fun hlinks => ?_
    obtain ⟨f, hdone⟩ := h hlinks
    exact (within_assign hdone).2
  · by_cases hlinks : x.target.links = []
    · exact evaluated_unused hz hs hvalue List.mem_cons_self (if_pos hlinks)
    · obtain ⟨f, hdone⟩ := h hlinks
      exact evaluated_value hz hs hvalue (within_assign hdone).1

theorem evaluated_call {c : Chain} (h : c.links ≠ [] → ∃ t, z.ChainHas s c t) :
    ∀ x ∈ (Stmt.call c).parts,
      Evaluated z F site (Stmt.call c).parts (callStmt z site c).code x := by
  have hcode : (chain z site c).code <:+: (callStmt z site c).code :=
    (List.prefix_append _ _).isInfix
  rw [Stmt.parts, Chain.parts]
  refine List.forall_mem_cons.mpr ⟨?_, ?_⟩
  · exact evaluated_chain hz hs fun hlinks =>
      (h hlinks).imp fun _ hdone => ⟨hdone, fun _ => hcode⟩
  · refine evaluated_linkParts hz hs fun hlinks e he => ?_
    obtain ⟨t, hdone⟩ := h hlinks
    exact (within_chain c hdone he).mono hcode

end Furnished

/-! ## Steps of lowering -/

/-- A method of one of the classes is the one for the code at a site. -/
structure MethodAt (z : Analysis) (program : String) (cs : List ClassFile) (site : Site)
    (m : Method) : Prop where
  stands : Stands z program site
  listed : ∃ c ∈ cs, c.path = site.path ∧ m ∈ c.methods
  name : m.name = site.kind.method

theorem MethodAt.mono {program : String} {cs cs' : List ClassFile} {m : Method}
    (h : MethodAt z program cs site m) (hcs : cs ⊆ cs') : MethodAt z program cs' site m := by
  obtain ⟨c, hc, hpath, hm⟩ := h.listed
  exact ⟨h.stands, ⟨c, hcs hc, hpath, hm⟩, h.name⟩

/-- A part is evaluated in a method of one of the classes. -/
def Hosted (z : Analysis) (program : String) (cs : List ClassFile) (xs : List Part) (x : Part) :
    Prop :=
  ∃ site m, MethodAt z program cs site m ∧ Evaluated z (frame z m) site xs m.code x

/-- What comes of lowering parts of the tree at a site: code that evaluates them, unless they
are evaluated in a class that is completed on the way. -/
structure Evaluates (z : Analysis) (program : String) (F : Frame) (site : Site) (xs : List Part)
    (cs : List ClassFile) (code : List Instruction) (cs' : List ClassFile) : Prop where
  kept : cs ⊆ cs'
  parts : ∀ x ∈ xs, Evaluated z F site xs code x ∨ Hosted z program cs' xs x

variable {program : String} {cs cs₁ cs' : List ClassFile}

theorem Hosted.mono {x : Part} (h : Hosted z program cs xs x) (hcs : cs ⊆ cs') (hxs : xs ⊆ ys) :
    Hosted z program cs' ys x := by
  obtain ⟨site, m, hm, hx⟩ := h
  exact ⟨site, m, hm.mono hcs, hx.mono hxs (List.infix_refl _)⟩

namespace Evaluates

theorem nothing (z : Analysis) (program : String) (F : Frame) (site : Site)
    (cs : List ClassFile) : Evaluates z program F site [] cs [] cs :=
  ⟨List.Subset.refl _, List.forall_mem_nil _⟩

/-- Code that evaluates all parts itself. -/
theorem place (h : ∀ x ∈ xs, Evaluated z F site xs code x) :
    Evaluates z program F site xs cs code cs := ⟨List.Subset.refl _, fun x hx => Or.inl (h x hx)⟩

theorem trans (h : Evaluates z program F site xs cs code cs₁)
    (h' : Evaluates z program F site ys cs₁ code' cs') :
    Evaluates z program F site (xs ++ ys) cs (code ++ code') cs' := by
  refine ⟨List.Subset.trans h.kept h'.kept, fun x hx => ?_⟩
  rcases List.mem_append.mp hx with hx | hx
  · exact (h.parts x hx).imp
      (·.mono (List.subset_append_left _ _) (List.prefix_append _ _).isInfix)
      (·.mono h'.kept (List.subset_append_left _ _))
  · exact (h'.parts x hx).imp
      (·.mono (List.subset_append_right _ _) (List.suffix_append _ _).isInfix)
      (·.mono (List.Subset.refl _) (List.subset_append_right _ _))

/-- The same parts, listed differently, in longer code. -/
theorem conseq (h : Evaluates z program F site xs cs code cs') (hp : xs.Perm ys)
    (hc : code <:+: code') : Evaluates z program F site ys cs code' cs' :=
  ⟨h.kept, fun x hx => (h.parts x (hp.mem_iff.mpr hx)).imp (·.mono hp.subset hc)
    (·.mono (List.Subset.refl _) hp.subset)⟩

theorem recode (h : Evaluates z program F site xs cs code cs') (hc : code <:+: code') :
    Evaluates z program F site xs cs code' cs' := h.conseq (.refl xs) hc

/-- Parts that are no values, in front. -/
theorem cons (h : Evaluates z program F site xs cs code cs') {x : Part}
    (hx : Evaluated z F site (x :: xs) code x) : Evaluates z program F site (x :: xs) cs code cs' :=
  ⟨h.kept, List.forall_mem_cons.mpr ⟨Or.inl hx, fun y hy => (h.parts y hy).imp
    (·.mono (List.subset_cons_self _ _) (List.infix_refl _))
    (·.mono (List.Subset.refl _) (List.subset_cons_self _ _))⟩⟩

/-- A body behind its test. -/
theorem guarded (hz : z.scopes.Sound) (hs : Furnishes z F site s)
    (h : Evaluates z program F site xs cs code cs') {node : NodeId} {condition : Expr} {t : TypeId}
    (hc : z.ExprHas s condition t) {l : Label}
    (hcode : (jumpUnless z site condition l).code ++ code <:+: code') :
    Evaluates z program F site (.block node :: (condition.parts ++ xs)) cs code' cs' := by
  have htest : (expr z site condition).code <:+: (jumpUnless z site condition l).code :=
    (List.prefix_append _ _).isInfix
  have hcondition : Evaluates z program F site condition.parts cs
      (jumpUnless z site condition l).code cs := place (evaluated_value hz hs hc htest)
  exact (cons (x := .block node) (hcondition.trans h) trivial).recode hcode

/-- The class of the method that the code is for is complete. -/
theorem complete {m : Method} (h : Evaluates z program (frame z m) site xs cs code cs')
    {c : ClassFile} (hm : MethodAt z program (cs' ++ [c]) site m) (hc : code <:+: m.code)
    (F' : Frame) (site' : Site) : Evaluates z program F' site' xs cs [] (cs' ++ [c]) := by
  have hkept : cs' ⊆ cs' ++ [c] := List.subset_append_left _ _
  refine ⟨List.Subset.trans h.kept hkept, fun x hx => Or.inr ?_⟩
  rcases h.parts x hx with hx | hx
  · exact ⟨site, m, hm, hx.mono (List.Subset.refl _) hc⟩
  · exact hx.mono hkept (List.Subset.refl _)

end Evaluates

/-! ## Classes -/

theorem exists_callMethod (f : RoutineFinding) (code : List Instruction) :
    ∃ m ∈ (routineClass z f code).methods, m.name = Reserved.call ∧ m.code = code ∧
      m.vars = (localVars z f.scope ++ [thisVar (z.units.path f.unit)]).mergeSort
        fun a b => decide (a.slot ≤ b.slot) :=
  ⟨_, List.mem_append_right _ (List.mem_singleton_self _), rfl, rfl, rfl⟩

theorem exists_staticMethod (f : TypeFinding) (rs ss : List RoutineFinding)
    (constructor staticInit : List Instruction) :
    ∃ m ∈ (typeClass z f rs ss constructor staticInit).methods, m.name = Reserved.staticInit ∧
      m.code = staticInit :=
  ⟨_, List.mem_append_right _ (List.mem_singleton_self _), rfl, rfl⟩

theorem exists_mainMethod (program : String) (code : List Instruction) :
    ∃ m ∈ (mainClass z program code).methods, m.name = Reserved.main ∧ m.code = code ∧
      m.vars = (localVars z Scopes.rootId ++
        [(⟨0, Reserved.arguments, Reserved.argumentsDescriptor⟩ : LocalVar)]).mergeSort
          fun a b => decide (a.slot ≤ b.slot) :=
  ⟨_, List.mem_append_right _ (List.mem_singleton_self _), rfl, rfl, rfl⟩

theorem evaluated_ret (hz : z.scopes.Sound) {f : RoutineFinding}
    (hs : Furnishes z F (routineSite z f) f.scope) {ret : Option ReturnClause}
    (h : z.RetDone f.scope ret f.signature.result) : ∀ x ∈ ReturnClause.optParts ret,
      Evaluated z F (routineSite z f) xs (routineEnd z f ret).code x := by
  cases ret with
  | none => exact List.forall_mem_nil _
  | some ret =>
    generalize hresult : f.signature.result = result at h
    cases h with
    | some hvalue =>
      refine evaluated_value hz hs hvalue ?_
      rw [routineEnd, hresult]
      exact (List.prefix_append _ _).isInfix

theorem code_staticField_within {f : TypeFinding} {fs : List StaticField} {x : StaticField}
    (hx : x ∈ fs) : (staticField z (staticSite z f) x).code <:+: (staticFields z f fs).code := by
  induction fs with
  | nil => exact absurd hx List.not_mem_nil
  | cons y fs ih =>
    rw [staticFields]
    rcases List.mem_cons.mp hx with rfl | hx
    · exact (List.prefix_append _ _).isInfix
    · exact (ih hx).trans (List.suffix_append _ _).isInfix

theorem evaluated_statics (hz : z.scopes.Sound) {f : TypeFinding}
    (hs : Furnishes z F (staticSite z f) f.fieldInit) {fs : List StaticField}
    (h : ∀ x ∈ fs, ∃ df mode,
      z.InitDone f.scope f.fieldInit x.decl.node x.decl.names x.init df mode)
    (ss : List RoutineFinding) : ∀ x ∈ fs.flatMap StaticField.parts,
      Evaluated z F (staticSite z f) (fs.flatMap StaticField.parts) (staticInitCode z f ss fs).code
        x := by
  intro x hx
  obtain ⟨y, hy, hxy⟩ := List.mem_flatMap.mp hx
  obtain ⟨df, mode, hdone⟩ := h y hy
  have hinit : (staticField z (staticSite z f) y).code <:+: (staticInitCode z f ss fs).code :=
    (code_staticField_within hy).trans
      ((List.suffix_append _ _).isInfix.trans (List.prefix_append _ _).isInfix)
  rw [StaticField.parts, List.mem_cons] at hxy
  rcases hxy with rfl | hxy
  · exact ⟨f, rfl, ⟨_, _, hdone⟩, hs, hinit⟩
  · exact evaluated_init hz hs hdone (x := .staticField y)
      (List.mem_flatMap.mpr ⟨y, hy, List.mem_cons_self⟩) rfl
      (fun hnames => (value_infix_staticField hdone hnames).trans hinit) x hxy

/-- The initial values of a type are evaluated in its class. -/
theorem evaluates_typeClass (hz : z.Final) (program : String) {node : NodeId} {f : TypeFinding}
    (hf : z.findings.types.find? node = some f) {fs : List StaticField}
    (h : ∀ x ∈ fs, ∃ df mode,
      z.InitDone f.scope f.fieldInit x.decl.node x.decl.names x.init df mode)
    (rs ss : List RoutineFinding) (constructor : List Instruction) (cs : List ClassFile)
    (F : Frame) (site : Site) : Evaluates z program F site (fs.flatMap StaticField.parts) cs []
      (cs ++ [typeClass z f rs ss constructor (staticInitCode z f ss fs).code]) := by
  have hmem := NodeTable.mem_of_find? hf
  obtain ⟨m, hm, hname, hcode⟩ :=
    exists_staticMethod f rs ss constructor (staticInitCode z f ss fs).code
  have hs := furnishes_fieldInit hz.sound.scopes (hz.sound.typeFindings _ hmem) m
  have hvalues : Evaluates z program (frame z m) (staticSite z f) (fs.flatMap StaticField.parts)
      cs (staticInitCode z f ss fs).code cs :=
    .place (evaluated_statics hz.sound.scopes hs h ss)
  refine hvalues.complete ⟨.staticInit (List.mem_map_of_mem hmem), ?_, hname⟩ ?_ F site
  · exact ⟨_, List.mem_append_right _ (List.mem_singleton_self _), path_typeClass f _ _ _ _, hm⟩
  · rw [hcode]

/-! ## Statements -/

/-- Where a routine stands, nothing of it is evaluated. -/
theorem Evaluates.routine {program : String} {r : RoutineDef} {s : ScopeId}
    (h : z.RoutineDone s r) {F : Frame} {site : Site} {o : Output}
    (hclass : Evaluates z program F site r.parts o.classes [] ((memberRoutine z r).run o).2.classes) :
    Evaluates z program F site r.parts o.classes ((routine z site r).run o).1
      ((routine z site r).run o).2.classes := by
  cases h with
  | mk record =>
    rw [run_memberRoutine_some z record] at hclass
    rw [run_routine_some z site record]
    exact hclass.recode List.nil_infix

mutual

/-- A statement that is decided is lowered to code that evaluates its expressions. -/
theorem evaluates_stmt (hz : z.Final) (program : String) : (x : Stmt) → {F : Frame} →
    {site : Site} → {s : ScopeId} → z.StmtDone s x → Furnishes z F site s →
      (z.scopes.get s).kind.isBody = true → (o : Output) →
        Evaluates z program F site x.parts o.classes ((stmt z site x).run o).1
          ((stmt z site x).run o).2.classes
  | .declare d, _, site, _, _, _, _, o => by
    rw [stmt, run_place]
    exact .place (List.forall_mem_singleton.mpr trivial)
  | .define d, _, site, _, h, hs, hbody, o => by
    cases h with
    | define hd =>
      rw [stmt, run_place, Stmt.parts]
      exact .place (List.forall_mem_cons.mpr
        ⟨⟨_, hbody, ⟨_, _, hd⟩, hs, List.infix_refl _⟩,
          evaluated_init hz.sound.scopes hs hd List.mem_cons_self rfl
            (value_infix_initDecl hz.sound.scopes hbody hd)⟩)
  | .assign x, _, site, _, h, hs, _, o => by
    cases h with
    | assign ha hvalue =>
      rw [stmt, run_place]
      exact .place (evaluated_assign hz.sound.scopes hs ha hvalue)
  | .call c, _, site, _, h, hs, _, o => by
    cases h with
    | call hc =>
      rw [stmt, run_place]
      exact .place (evaluated_call hz.sound.scopes hs hc)
  | .branch gs otherwise span, _, site, _, h, hs, hbody, o => by
    cases h with
    | branch hgs he =>
      rw [run_if]
      have hbranches := evaluates_branches hz program gs hgs hs ⟨o.labels + 1⟩
        { o with labels := o.labels + 1 }
      exact (hbranches.trans (evaluates_else hz program otherwise he hs _)).recode
        (List.prefix_append _ _).isInfix
  | .loop g, _, site, _, h, hs, hbody, o => by
    cases h with
    | loop hg =>
      rw [stmt]
      exact evaluates_loop hz program g hg hs o
  | .routine r, _, site, _, h, _, _, o => by
    cases h with
    | routine hr =>
      rw [stmt]
      exact .routine hr (evaluates_memberRoutine hz program r hr _ site o)
  | .type t, _, site, _, h, _, _, o => by
    cases h with
    | type ht =>
      rw [stmt]
      exact evaluates_typeDef hz program t ht _ site o

theorem evaluates_branch (hz : z.Final) (program : String) : (g : Guarded) → {F : Frame} →
    {site : Site} → {s : ScopeId} → z.GuardedDone s g → Furnishes z F site s →
      (done : Label) → (o : Output) →
        Evaluates z program F site g.parts o.classes ((branch z site done g).run o).1
          ((branch z site done g).run o).2.classes
  | ⟨node, condition, body, span⟩, _, site, _, h, hs, done, o => by
    cases h with
    | mk record parent kind hc hb =>
      have hinner := hs.block hz.sound.scopes parent kind
      have hbody := evaluates_stmts hz program body hb hinner (by rw [kind]; rfl)
        ⟨o.labels + 1, o.classes, o.gaps + (jumpUnless z site condition ⟨o.labels + 1⟩).gaps⟩
      rw [run_branch]
      exact Evaluates.guarded hz.sound.scopes hinner hbody hc (List.prefix_append _ _).isInfix

theorem evaluates_loop (hz : z.Final) (program : String) : (g : Guarded) → {F : Frame} →
    {site : Site} → {s : ScopeId} → z.GuardedDone s g → Furnishes z F site s → (o : Output) →
      Evaluates z program F site g.parts o.classes ((loop z site g).run o).1
        ((loop z site g).run o).2.classes
  | ⟨node, condition, body, span⟩, _, site, _, h, hs, o => by
    cases h with
    | mk record parent kind hc hb =>
      have hinner := hs.block hz.sound.scopes parent kind
      have hbody := evaluates_stmts hz program body hb hinner (by rw [kind]; rfl)
        ⟨o.labels + 2, o.classes, o.gaps + (jumpUnless z site condition ⟨o.labels + 2⟩).gaps⟩
      rw [run_loop]
      exact Evaluates.guarded hz.sound.scopes hinner hbody hc
        ⟨[.label ⟨o.labels + 1⟩], [.jump ⟨o.labels + 1⟩, .label ⟨o.labels + 2⟩], rfl⟩

theorem evaluates_else (hz : z.Final) (program : String) : (e : Else) → {F : Frame} →
    {site : Site} → {s : ScopeId} → z.ElseDone s e → Furnishes z F site s → (o : Output) →
      Evaluates z program F site e.parts o.classes ((elseBlock z site e).run o).1
        ((elseBlock z site e).run o).2.classes
  | .absent, _, site, _, _, _, o => by
    rw [elseBlock]
    exact .nothing z program _ site o.classes
  | .block node body span, _, site, _, h, hs, o => by
    cases h with
    | block record parent kind hb =>
      rw [elseBlock]
      exact (evaluates_stmts hz program body hb (hs.block hz.sound.scopes parent kind)
        (by rw [kind]; rfl) o).cons trivial

/-- The body of a routine, and the value that it returns, are evaluated in its class. -/
theorem evaluates_memberRoutine (hz : z.Final) (program : String) : (r : RoutineDef) →
    {s : ScopeId} → z.RoutineDone s r → (F : Frame) → (site : Site) → (o : Output) →
      Evaluates z program F site r.parts o.classes [] ((memberRoutine z r).run o).2.classes
  | ⟨node, name, closing, params, result, body, ret, span⟩, _, h, F, site, o => by
    cases h with
    | @mk _ _ _ _ _ _ _ _ _ f record parent hb hret =>
      have hmem := NodeTable.mem_of_find? record
      have hkind := (hz.sound.routines _ hmem).kind
      rw [run_memberRoutine_some z record]
      obtain ⟨m, hm, hname, hcode, hvars⟩ := exists_callMethod (z := z) f
        (((stmts z (routineSite z f) body).run o).1 ++ (routineEnd z f ret).code)
      have hs := furnishes_routine hz.sound hz.laid record hvars
      have hbody := (evaluates_stmts hz program body hb hs (by rw [hkind]; rfl) o).trans
        (.place (evaluated_ret hz.sound.scopes hs hret))
      have hall := hbody.cons
        (x := .routine ⟨node, name, closing, params, result, body, ret, span⟩) trivial
      refine hall.complete ⟨.routine (List.mem_map_of_mem hmem), ?_, hname⟩ ?_ F site
      · exact ⟨_, List.mem_append_right _ (List.mem_singleton_self _), path_routineClass f _, hm⟩
      · rw [hcode]

/-- A type: its initial values are evaluated in its class, and its routines in theirs. -/
theorem evaluates_typeDef (hz : z.Final) (program : String) : (t : TypeDef) →
    {s : ScopeId} → z.TypeDone s t → (F : Frame) → (site : Site) → (o : Output) →
      Evaluates z program F site t.parts o.classes ((typeDef z site t).run o).1
        ((typeDef z site t).run o).2.classes
  | ⟨node, name, closing, fields, statics, routines, staticRoutines, span⟩, _, h, F, site, o => by
    cases h with
    | @mk _ _ _ _ _ _ _ _ _ f record parent hfields hstatics hr hsr =>
      rw [run_typeDef_some z site record, TypeDef.parts, List.append_assoc]
      have hmembers := (evaluates_memberRoutines hz program routines hr F site o).trans
        (evaluates_memberRoutines hz program staticRoutines hsr F site _)
      have hclass := hmembers.trans (evaluates_typeClass hz program record hstatics
        (declaredRoutines z routines) (declaredRoutines z staticRoutines)
        (constructorCode z f (declaredRoutines z routines)).code _ F site)
      have hdata : ∀ x ∈ fields.map .declare, Evaluated z F site (fields.map .declare) [] x :=
        List.forall_mem_map.mpr fun d _ => trivial
      have hall := (Evaluates.place hdata).trans
        (hclass.conseq List.perm_append_comm (List.infix_refl _))
      rw [List.append_assoc]
      exact (hall.cons (x := .type ⟨node, name, closing, fields, statics, routines, staticRoutines,
        span⟩) trivial).recode List.nil_infix

theorem evaluates_stmts (hz : z.Final) (program : String) : (xs : List Stmt) → {F : Frame} →
    {site : Site} → {s : ScopeId} → z.StmtsDone s xs → Furnishes z F site s →
      (z.scopes.get s).kind.isBody = true → (o : Output) →
        Evaluates z program F site (Stmt.allParts xs) o.classes ((stmts z site xs).run o).1
          ((stmts z site xs).run o).2.classes
  | [], _, site, _, _, _, _, o => by
    rw [run_stmts_nil]
    exact .nothing z program _ site o.classes
  | x :: xs, _, site, _, h, hs, hbody, o => by
    cases h with
    | cons hx hxs =>
      rw [run_stmts_cons]
      exact (evaluates_stmt hz program x hx hs hbody o).trans
        (evaluates_stmts hz program xs hxs hs hbody _)

theorem evaluates_branches (hz : z.Final) (program : String) : (gs : List Guarded) →
    {F : Frame} → {site : Site} → {s : ScopeId} → z.GuardedAllDone s gs → Furnishes z F site s →
      (done : Label) → (o : Output) →
        Evaluates z program F site (Guarded.allParts gs) o.classes
          ((branches z site done gs).run o).1 ((branches z site done gs).run o).2.classes
  | [], _, site, _, _, _, done, o => by
    rw [run_branches_nil]
    exact .nothing z program _ site o.classes
  | g :: gs, _, site, _, h, hs, done, o => by
    cases h with
    | cons hg hgs =>
      rw [run_branches_cons]
      exact (evaluates_branch hz program g hg hs done o).trans
        (evaluates_branches hz program gs hgs hs done _)

theorem evaluates_memberRoutines (hz : z.Final) (program : String) : (rs : List RoutineDef) →
    {s : ScopeId} → z.RoutinesDone s rs → (F : Frame) → (site : Site) → (o : Output) →
      Evaluates z program F site (RoutineDef.allParts rs) o.classes []
        ((memberRoutines z rs).run o).2.classes
  | [], _, _, F, site, o => by
    rw [run_memberRoutines_nil]
    exact .nothing z program F site o.classes
  | r :: rs, _, h, F, site, o => by
    cases h with
    | cons hr hrs =>
      rw [run_memberRoutines_cons]
      exact (evaluates_memberRoutine hz program r hr F site o).trans
        (evaluates_memberRoutines hz program rs hrs F site _)

end

/-! ## Whole programs -/

section

variable (program : String) {q : Program} (hq : q.nodes.Nodup)
  (h : (analyze program q).errors = []) (labels : Nat)

include hq h

/-- Every part of an accepted program is evaluated in one of its classes. -/
theorem hosted_generate : ∀ x ∈ q.parts, Hosted (analyze program q) program
    (generate (analyze program q) program q labels).classes q.parts x := by
  have hz := Analysis.final_analyze program hq h
  obtain ⟨base, ds, hclasses⟩ := classes_generate (analyze program q) program q labels
  obtain ⟨m, hm, hname, hcode, hvars⟩ := exists_mainMethod (z := analyze program q) program
    ((makePredefined (analyze program q) Predefined.routines).code ++
      (mainBody (analyze program q) program q labels).1 ++ [.returnNothing])
  have hs := furnishes_main hz.sound.scopes hz.laid program hvars
  have hbody := evaluates_stmts hz program q.stmts (Analysis.done_analyze program hq h) hs
    (by rw [hz.sound.scopes.root_kind]; rfl)
    { labels, gaps := (makePredefined (analyze program q) Predefined.routines).gaps }
  intro x hx
  rw [hclasses]
  rcases hbody.parts x hx with hx | hx
  · refine ⟨mainSite program, m, ⟨.main, ⟨_, List.mem_cons_self, rfl, hm⟩, hname⟩,
      hx.mono (List.Subset.refl _) ?_⟩
    rw [hcode]
    exact List.infix_append _ _ _
  · exact hx.mono (fun c hc => List.mem_cons_of_mem _ (List.mem_append_left _ hc))
      (List.Subset.refl _)

/-- **Code of expressions is balanced and well typed.**  Every expression of an accepted
program has a type on record, and a method of one of its classes evaluates it: from whatever
stands on the operand stack, its code never touches a cell below, fits at every field access
and every call, and ends with one more cell, which fits the descriptor of the type.  Only the
code of values that nothing is written to is left out of the method.  The code of a chain that
ends in a routine without a result leaves the stack as it was. -/
theorem expressions_typed :
    (∀ e, .expr e ∈ q.parts → ∃ t, (analyze program q).findings.exprTypes.find? e.node = some t ∧
      ∃ site m, MethodAt (analyze program q) program
          (generate (analyze program q) program q labels).classes site m ∧
        (∃ d, (frame (analyze program q) m).fits d ((analyze program q).types.descriptor t) = true ∧
          Pushes (frame (analyze program q) m) (expr (analyze program q) site e).code [d]) ∧
        ((expr (analyze program q) site e).code <:+: m.code ∨ .expr e ∈ Part.allUnused q.parts)) ∧
    ∀ c r, .chain c ∈ q.parts → lastRoutine? (analyze program q) c = some r → r.result = none →
      ∃ site m, MethodAt (analyze program q) program
          (generate (analyze program q) program q labels).classes site m ∧
        Pushes (frame (analyze program q) m) (chain (analyze program q) site c).code [] ∧
        (chain (analyze program q) site c).code <:+: m.code := by
  refine ⟨fun e he => ?_, fun c r hc hr hresult => ?_⟩
  · obtain ⟨site, m, hm, t, record, ⟨ρ, hwalk, d, rfl, hd⟩, hcode⟩ :=
      hosted_generate program hq h labels _ he
    exact ⟨t, record, site, m, hm, ⟨d, hd, pushes_of_walk hwalk⟩, hcode⟩
  · obtain ⟨site, m, hm, hx⟩ := hosted_generate program hq h labels _ hc
    obtain ⟨⟨ρ, hwalk, rfl⟩, hcode⟩ := hx r hr hresult
    exact ⟨site, m, hm, pushes_of_walk hwalk, hcode⟩

end

/-- A routine that holds itself:

```
routine note()
  routine() again = note
  again()
end note
```
-/
def selfHeld : Program := (Draft.build [
  .routine ⟨none, "note", [], none, [
    .define ⟨none, .routine none [] none, ["again"], .chain (.of ["note"])⟩,
    .call ⟨none, [.call none "again" []]⟩], none, none⟩]).1

/-- The routine is a value of a routine type, and the call of what it holds leaves nothing. -/
theorem expressions_typed_selfHeld :
    (∃ e t, .expr e ∈ selfHeld.parts ∧
      (analyze "demo" selfHeld).findings.exprTypes.find? e.node = some t ∧
      ∃ site m, MethodAt (analyze "demo" selfHeld) "demo"
          (generate (analyze "demo" selfHeld) "demo" selfHeld 0).classes site m ∧
        ∃ d, (frame (analyze "demo" selfHeld) m).fits d
            ((analyze "demo" selfHeld).types.descriptor t) = true ∧
          Pushes (frame (analyze "demo" selfHeld) m)
            (expr (analyze "demo" selfHeld) site e).code [d]) ∧
    ∃ c, .chain c ∈ selfHeld.parts ∧
      ∃ site m, MethodAt (analyze "demo" selfHeld) "demo"
          (generate (analyze "demo" selfHeld) "demo" selfHeld 0).classes site m ∧
        Pushes (frame (analyze "demo" selfHeld) m)
          (chain (analyze "demo" selfHeld) site c).code [] ∧
        (chain (analyze "demo" selfHeld) site c).code <:+: m.code := by
  have hnodup : selfHeld.nodes.Nodup := Draft.nodup_nodes_build _
  have herrors : (analyze "demo" selfHeld).errors = [] := by decide +kernel
  obtain ⟨hexprs, hchains⟩ := expressions_typed "demo" hnodup herrors 0
  constructor
  · obtain ⟨t, record, site, m, hm, htyped, -⟩ := hexprs _ (List.mem_of_getElem? (i := 2) rfl)
    exact ⟨_, t, List.mem_of_getElem? (i := 2) rfl, record, site, m, hm, htyped⟩
  · exact ⟨_, List.mem_of_getElem? (i := 4) rfl, hchains _ ⟨Reserved.call, [], none⟩
      (List.mem_of_getElem? (i := 4) rfl) (by decide +kernel) rfl⟩

end Lowering

end Unnest
