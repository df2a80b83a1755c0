import Unnest.Proofs.Code.Typed
import Unnest.Proofs.Lowering.Balanced
import Unnest.Proofs.Types.Comparing

/-!
# Expressions are well typed

The code of an expression can be walked through from the empty stack, and what it leaves
there is one cell for a value of the type that was recorded.  On the way everything fits:
receivers are of the types that members were looked up on, and arguments have the
descriptors that the routine names, since types that are equal have one descriptor
(`TypeTable.descriptors_of_lookup`).

What stands in local slots is known from the method that the code is for.  `Furnishes` says
that a frame has the variables of a scope in their slots and, in the class of a routine, the
routine object in the first one.
-/

namespace Unnest

open Code

/-- The type of the value that the links of a chain have produced so far. -/
def Produced.type? : Produced → Option TypeId
  | .value type _ => some type
  | .nothing | .typeName _ => none

namespace Lowering

open Descriptor (valueCells)

variable {z : Analysis} {F : Frame} {site : Site} {s : ScopeId} {ρ : Cells} {c : String}

/-! ## Descriptors -/

theorem valueCells_eq {d : String} (h : Descriptor.cells d = 1) : valueCells d = [d] := by
  rw [valueCells, h, List.replicate_one]

@[simp] theorem valueCells_classDescriptor (path : String) :
    valueCells (TypeTable.classDescriptor path) = [TypeTable.classDescriptor path] :=
  valueCells_eq (cells_classDescriptor path)

@[simp] theorem valueCells_descriptor (t : TypeTable) (type : TypeId) :
    valueCells (t.descriptor type) = [t.descriptor type] := valueCells_classDescriptor _

theorem argumentCells_eq {ds : List String} {result : Option String}
    (h : ∀ d ∈ ds, Descriptor.cells d = 1) :
    Descriptor.argumentCells ⟨ds, result⟩ = ds.reverse := by
  have hflat : ds.flatMap valueCells = ds := by
    induction ds with
    | nil => rfl
    | cons d ds ih =>
      rw [List.forall_mem_cons] at h
      rw [List.flatMap_cons, valueCells_eq h.1, ih h.2, List.singleton_append]
  rw [Descriptor.argumentCells, hflat]

@[simp] theorem argumentCells_descriptorOf (r : Signature) :
    (descriptorOf z r).argumentCells = (r.params.map z.types.descriptor).reverse :=
  argumentCells_eq (List.forall_mem_map.mpr fun _ _ => cells_descriptor _ _)

@[simp] theorem givenCells_descriptorOf (r : Signature) :
    (descriptorOf z r).givenCells = (r.result.map z.types.descriptor).toList := by
  rw [descriptorOf, Descriptor.givenCells]
  cases r.result <;> simp

theorem descriptor_of_routine {type : TypeId} (h : z.types.form type = .routine) :
    z.types.descriptor type = TypeTable.classDescriptor z.types.routineBase := by
  rw [TypeTable.form] at h
  rw [TypeTable.descriptor, TypeTable.path, h]

/-! ## What code leaves -/

/-- The cells that a value of a type takes, or none where there is no value. -/
def Yields (z : Analysis) (F : Frame) : Option TypeId → Cells → Prop
  | some type, ρ => ∃ c, ρ = [c] ∧ F.fits c (z.types.descriptor type) = true
  | none, ρ => ρ = []

/-- Code that gives a value of a type, or nothing. -/
def Gives (z : Analysis) (F : Frame) (code : List Instruction) (type : Option TypeId) : Prop :=
  ∃ ρ, F.walk code [] = some ρ ∧ Yields z F type ρ

/-- Code that gives values of these types, the last one on top. -/
def GivesAll (z : Analysis) (F : Frame) (code : List Instruction) (ts : List TypeId) : Prop :=
  ∃ cs, F.walk code [] = some cs.reverse ∧ F.Fit cs (ts.map z.types.descriptor)

theorem yields_result (r : Signature) :
    Yields z F r.result (r.result.map z.types.descriptor).toList := by
  cases r.result with
  | none => rfl
  | some type => exact ⟨_, rfl, Frame.fits_self F _⟩

theorem yields_descriptor (type : TypeId) : Yields z F (some type) [z.types.descriptor type] :=
  ⟨_, rfl, Frame.fits_self F _⟩

theorem Gives.cons {code code' : List Instruction} {t : TypeId} {ts : List TypeId}
    (h : Gives z F code (some t)) (h' : GivesAll z F code' ts) :
    GivesAll z F (code ++ code') (t :: ts) := by
  obtain ⟨_, hwalk, c, rfl, hc⟩ := h
  obtain ⟨cs, hwalk', hcs⟩ := h'
  refine ⟨c :: cs, ?_, .cons hc hcs⟩
  rw [List.reverse_cons]
  exact Frame.walk_above hwalk hwalk'

theorem Gives.single {code : List Instruction} {t : TypeId} (h : Gives z F code (some t)) :
    GivesAll z F code [t] := by
  obtain ⟨_, hwalk, c, rfl, hc⟩ := h
  exact ⟨[c], hwalk, .cons hc .nil⟩

/-! ## Values -/

theorem walk_makeObject (path : String) :
    F.walk (makeObject path) [] = some [TypeTable.classDescriptor path] := by
  simp [makeObject, Frame.walk, Frame.step, Frame.take, Descriptor.void, Descriptor.argumentCells,
    Descriptor.givenCells]

theorem walk_makeConstant {type : TypeId} {constant : Instruction} {descriptor : String}
    (h : ∀ σ, F.step σ constant = some (valueCells descriptor ++ σ)) :
    F.walk (makeConstant z type constant descriptor) [] = some [z.types.descriptor type] := by
  have hreverse : (valueCells descriptor).reverse = valueCells descriptor :=
    List.reverse_replicate
  have hmake : F.walk [.new (z.types.path type), .dup] [] =
      some [z.types.descriptor type, z.types.descriptor type] := by
    simp [Frame.walk, Frame.step, TypeTable.descriptor]
  have hfit := Frame.take_of_fit
    (F.fit_self (valueCells descriptor ++ [z.types.descriptor type])) [z.types.descriptor type]
  have hcall : F.walk [.invokeSpecial ⟨z.types.path type, Reserved.constructor, ⟨[descriptor], none⟩⟩]
      (valueCells descriptor ++ [z.types.descriptor type] ++ [z.types.descriptor type]) =
        some [z.types.descriptor type] := by
    refine Frame.walk_single ?_
    rw [Frame.step, Descriptor.argumentCells, List.flatMap_singleton, hreverse]
    rw [TypeTable.descriptor] at hfit ⊢
    rw [hfit]
    rfl
  rw [List.append_assoc] at hcall
  exact Frame.walk_two hmake (Frame.walk_two (Frame.walk_single (h _)) hcall)

theorem literal_gives (value : Literal) : Gives z F (literal z value) (some value.type) := by
  refine ⟨_, ?_, yields_descriptor _⟩
  cases value <;> exact walk_makeConstant fun σ => rfl

/-! ## Bindings -/

/-- What the code of a scope finds in the local slots of the method that it is for. -/
structure Furnishes (z : Analysis) (F : Frame) (site : Site) (s : ScopeId) : Prop
    extends Houses z site s where
  kind : (z.scopes.get (z.scopes.owningMethod s)).kind = .routine → site.kind = .routine
  this : site.kind = .routine → F.slot? 0 = some (TypeTable.classDescriptor site.path)
  routine : site.kind = .routine → (site.path, z.types.routineBase) ∈ F.extensions
  slots : ∀ o, z.scopes.owningMethod o = z.scopes.owningMethod s →
    ∀ b ∈ (z.scopes.get o).entries, ∀ k, b.slot = some k →
      F.slot? k = some (z.types.descriptor b.type)
  /-- The routine that the code is of is held by a value of a routine type. -/
  itself : ∀ o, z.scopes.parent (z.scopes.owningMethod s) = some o →
    (z.scopes.get (z.scopes.owningMethod s)).kind = .routine →
    ∀ b ∈ (z.scopes.get o).entries, b.name = (z.scopes.get (z.scopes.owningMethod s)).name →
      z.types.form b.type = .routine

/-- The blocks of a method find there what the method finds. -/
theorem Furnishes.block (h : Furnishes z F site s) (hz : z.scopes.Sound) {b : ScopeId}
    (hp : z.scopes.parent b = some s) (hk : (z.scopes.get b).kind = .block) :
    Furnishes z F site b := by
  have heq := hz.owningMethod_of_parent (by rw [hk]; rfl) hp
  refine ⟨h.toHouses.block hz hp hk, ?_, h.this, h.routine, ?_, ?_⟩ <;> rw [heq]
  · exact h.kind
  · exact h.slots
  · exact h.itself

theorem walk_loadSlot {k : Nat} {d : String} (h : F.slot? k = some d) :
    F.walk [.load k] [] = some [d] :=
  Frame.walk_single (by rw [Frame.step, h]; rfl)

/-- A field is read from an object of the class that it is looked up on. -/
theorem walk_getField {f : FieldRef} (hc : F.fits c (TypeTable.classDescriptor f.owner) = true) :
    F.walk [.getField f] [c] = some (valueCells f.descriptor) := by
  refine Frame.walk_single ?_
  rw [Frame.step, Frame.take, if_pos hc]
  exact congrArg some (List.append_nil _)

theorem walk_getStatic (f : FieldRef) : F.walk [.getStatic f] [] = some (valueCells f.descriptor) :=
  Frame.walk_single (congrArg some (List.append_nil _))

theorem walk_loadInstance (h : Furnishes z F site s) (hk : site.kind = .routine) {owner : TypeId}
    (howner : site.instanceType = some owner) :
    F.walk (loadInstance z site).code [] = some [z.types.descriptor owner] := by
  rw [loadInstance, howner]
  have hget := walk_getField (F := F) (c := TypeTable.classDescriptor site.path)
    (f := ⟨site.path, Reserved.enclosingInstance, z.types.descriptor owner⟩) (Frame.fits_self F _)
  rw [valueCells_descriptor] at hget
  exact Frame.walk_two (walk_loadSlot (h.this hk)) hget

/-- However a binding is reached, its value is pushed. -/
theorem load_gives (hz : z.scopes.Sound) (h : Furnishes z F site s) {b : Binding} {owner : ScopeId}
    {access : Access} (hr : z.scopes.Reaches s ⟨b, owner⟩ access) :
    Gives z F (load z site b access).code (some b.type) := by
  cases access with
  | slot k =>
    obtain ⟨hslot, howner⟩ := hz.leads hr (by simp)
    exact ⟨_, walk_loadSlot (h.slots owner howner b hr.meant.declared k hslot), yields_descriptor _⟩
  | itself =>
    obtain ⟨-, hk, hp, hname⟩ := hz.leads hr (by simp)
    have hform := h.itself owner hp hk b hr.meant.declared hname.symm
    refine ⟨_, walk_loadSlot (h.this (h.kind hk)), _, rfl, ?_⟩
    rw [descriptor_of_routine hform]
    exact Frame.fits_of_extends (h.routine (h.kind hk))
  | static type =>
    refine ⟨_, walk_getStatic _, ?_⟩
    rw [memberField, valueCells_descriptor]
    exact yields_descriptor _
  | captured =>
    rw [load]
    cases hk : site.kind with
    | routine =>
      have hget := walk_getField (F := F) (c := TypeTable.classDescriptor site.path)
        (f := capturedField z site b) (Frame.fits_self F _)
      refine ⟨_, Frame.walk_two (walk_loadSlot (h.this hk)) hget, ?_⟩
      rw [capturedField, valueCells_descriptor]
      exact yields_descriptor _
    | main | constructor | staticInit =>
      refine ⟨_, walk_getStatic _, ?_⟩
      rw [capturedField, valueCells_descriptor]
      exact yields_descriptor _
  | enclosing =>
    obtain ⟨-, hk, -⟩ := hz.leads hr (by simp)
    obtain ⟨type, htype⟩ := h.suits hz hr rfl
    have hget := walk_getField (F := F) (c := z.types.descriptor type) (f := memberField z type b)
      (Frame.fits_self F _)
    rw [load, htype]
    refine ⟨_, Frame.walk_two (walk_loadInstance h (h.kind hk) htype) hget, ?_⟩
    rw [memberField, valueCells_descriptor]
    exact yields_descriptor _

/-- A member is read from the value that it was looked up on, or from its class. -/
theorem readMember_walks {owner : TypeId} {b : Binding} {isStatic isStatic' : Bool}
    (role : b.role = .member isStatic) (h' : isStatic' = true → isStatic = true)
    (hc : F.fits c (z.types.descriptor owner) = true) :
    F.walk (readMember z owner b isStatic') (if isStatic then [] else [c]) =
      some [z.types.descriptor b.type] := by
  rw [readMember, role]
  cases isStatic with
  | true =>
    have hget := walk_getStatic (F := F) (memberField z owner b)
    rw [memberField, valueCells_descriptor] at hget
    cases isStatic' <;> exact hget
  | false =>
    have hget := walk_getField (f := memberField z owner b) hc
    rw [memberField, valueCells_descriptor] at hget
    cases isStatic' with
    | true => exact absurd (h' rfl) Bool.false_ne_true
    | false => exact hget

/-! ## Calls -/

/-- Equal types have one descriptor, so a routine takes what it was looked up with. -/
theorem descriptors_of_offer {owner : TypeId} {isStatic : Bool} {name : String} {ts : List TypeId}
    {r : Signature} (h : z.Offers owner isStatic name ts r) :
    r.params.map z.types.descriptor = ts.map z.types.descriptor := by
  obtain ⟨t, -, hx, hlookup⟩ := h
  exact TypeTable.descriptors_of_lookup hx hlookup

section Calls

variable {owner : TypeId} {isStatic : Bool} {name path method : String} {ts : List TypeId} {r : Signature}
  {args : Fragment}

/-- A call finds its receiver under the arguments. -/
theorem walk_invokeVirtual (h : z.Offers owner isStatic name ts r)
    (hargs : GivesAll z F args.code ts) (hc : F.fits c (TypeTable.classDescriptor path) = true) :
    F.walk (args.code ++ [.invokeVirtual ⟨path, method, descriptorOf z r⟩]) [c] =
      some (r.result.map z.types.descriptor).toList := by
  obtain ⟨cs, hwalk, hcs⟩ := hargs
  rw [← descriptors_of_offer h] at hcs
  have hfit : F.Fit (cs.reverse ++ [c])
      ((r.params.map z.types.descriptor).reverse ++ [TypeTable.classDescriptor path]) :=
    List.rel_append (List.rel_reverse hcs) (.cons hc .nil)
  have htake := Frame.take_of_fit hfit []
  rw [List.append_nil] at htake
  refine Frame.walk_two (Frame.walk_raise hwalk [c]) (Frame.walk_single ?_)
  rw [Frame.step, argumentCells_descriptorOf, htake, givenCells_descriptorOf, Option.map_some,
    List.append_nil]

theorem walk_invokeStatic (h : z.Offers owner isStatic name ts r)
    (hargs : GivesAll z F args.code ts) :
    F.walk (args.code ++ [.invokeStatic ⟨path, method, descriptorOf z r⟩]) [] =
      some (r.result.map z.types.descriptor).toList := by
  obtain ⟨cs, hwalk, hcs⟩ := hargs
  rw [← descriptors_of_offer h] at hcs
  have htake := Frame.take_of_fit (List.rel_reverse hcs) []
  rw [List.append_nil] at htake
  refine Frame.walk_two hwalk (Frame.walk_single ?_)
  rw [Frame.step, argumentCells_descriptorOf, htake, givenCells_descriptorOf, Option.map_some,
    List.append_nil]

/-- A routine is called on a receiver of the type that it was looked up on, or statically. -/
theorem callRoutine_walks (h : z.Offers owner isStatic name ts r)
    (hargs : GivesAll z F args.code ts) (hc : F.fits c (z.types.descriptor owner) = true) :
    F.walk (callRoutine z owner r isStatic args).code (if isStatic then [] else [c]) =
      some (r.result.map z.types.descriptor).toList := by
  have hbase := Frame.fits_self F (TypeTable.classDescriptor z.types.routineBase)
  rw [callRoutine]
  dsimp only
  cases hform : z.types.form owner with
  | library | builtin =>
    cases isStatic with
    | true => exact walk_invokeStatic h hargs
    | false => exact walk_invokeVirtual h hargs hc
  | user =>
    have hvalue : F.walk [if isStatic then Instruction.getStatic
        ⟨z.types.path owner, r.name, TypeTable.classDescriptor z.types.routineBase⟩
      else .getField ⟨z.types.path owner, r.name, TypeTable.classDescriptor z.types.routineBase⟩]
        (if isStatic then [] else [c]) = some [TypeTable.classDescriptor z.types.routineBase] := by
      rw [← valueCells_classDescriptor]
      cases isStatic with
      | true => exact walk_getStatic _
      | false => exact walk_getField hc
    rw [Fragment.code_append, Fragment.code_append, List.append_assoc]
    exact Frame.walk_two hvalue (walk_invokeVirtual h hargs hbase)
  | routine =>
    obtain ⟨t, ht, hx, hlookup⟩ := id h
    rw [hx.form owner (TypeTable.lookup_spec hlookup).1] at hform
    obtain rfl := ht.isStatic_of_lookup hlookup hform
    rw [descriptor_of_routine (hx.isRoutine hform)] at hc
    exact walk_invokeVirtual h hargs hc

/-- What a binding or a field holds is called as a value. -/
theorem callValue_walks {type : TypeId} {read : List Instruction} (h : z.Offers type false name ts r)
    (hargs : GivesAll z F args.code ts) (hread : F.walk read ρ = some [c])
    (hc : F.fits c (z.types.descriptor type) = true) :
    F.walk (read ++ (callRoutine z type r false args).code) ρ =
      some (r.result.map z.types.descriptor).toList :=
  Frame.walk_two hread (callRoutine_walks h hargs hc)

end Calls

/-! ## Expressions -/

theorem type?_ofCall (r : Signature) : (Produced.ofCall r).type? = r.result := by
  rw [Produced.ofCall]
  cases r.result <;> rfl

theorem type?_of_finding? {x : Produced} {f : ChainFinding} (h : x.finding? = some f) :
    x.type? = f.type := by
  cases x with
  | value | nothing =>
    obtain rfl := Option.some.inj h
    rfl
  | typeName => exact absurd h (by simp [Produced.finding?])

/-- What a member is looked up on is on the stack, unless it is static. -/
theorem receiver_cells {x : Produced} {owner : TypeId} {isStatic : Bool}
    (h : x.receiver? = some (owner, isStatic)) (hx : Yields z F x.type? ρ) :
    ∃ c, F.fits c (z.types.descriptor owner) = true ∧ ρ = if isStatic then [] else [c] := by
  cases x with
  | value type b =>
    obtain ⟨rfl, rfl⟩ := Prod.mk.inj (Option.some.inj h)
    obtain ⟨c, rfl, hc⟩ := hx
    exact ⟨c, hc, rfl⟩
  | typeName type =>
    obtain ⟨rfl, rfl⟩ := Prod.mk.inj (Option.some.inj h)
    exact ⟨_, Frame.fits_self F _, hx⟩
  | nothing => exact absurd h (by simp [Produced.receiver?])

mutual

/-- The code of an expression gives a value of its type. -/
theorem expr_gives (hz : z.scopes.Sound) (hs : Furnishes z F site s) : (e : Expr) → {t : TypeId} →
    z.ExprHas s e t → Gives z F (expr z site e).code (some t)
  | .literal _ value _, _, h => by
    cases h
    rw [expr]
    exact literal_gives value
  | .binary _ _ left right _, t, h => by
    cases h with
    | @binary _ _ _ _ _ l _ _ routine hl hr call offer result =>
      obtain ⟨_, hwalk, c, rfl, hc⟩ := expr_gives hz hs left hl
      have hcall := callRoutine_walks offer (expr_gives hz hs right hr).single hc
      rw [expr, call, ← result]
      exact ⟨_, Frame.walk_two hwalk hcall, yields_result routine⟩
  | .unary _ _ operand _, t, h => by
    cases h with
    | @unary _ _ _ _ o _ routine ho call offer result =>
      have hcall := callRoutine_walks offer (expr_gives hz hs operand ho).single
        (Frame.fits_self F (z.types.descriptor o))
      rw [expr, call, ← result]
      exact ⟨_, hcall, yields_result routine⟩
  | .paren _ inner _, _, h => by
    cases h with
    | paren hi =>
      rw [expr]
      exact expr_gives hz hs inner hi
  | .chain c, _, h => by
    cases h with
    | chain hc =>
      rw [expr]
      exact chain_gives hz hs c hc

/-- The code of a chain gives what the chain yields. -/
theorem chain_gives (hz : z.scopes.Sound) (hs : Furnishes z F site s) : (c : Chain) →
    {t : Option TypeId} → z.ChainHas s c t → Gives z F (chain z site c).code t
  | ⟨_, [], _⟩, _, h => nomatch h
  | ⟨_, head :: rest, _⟩, _, h => by
    cases h with
    | mk hh hr finding =>
      obtain ⟨τ, hhead, hτ⟩ := head_gives hz hs head hh
      obtain ⟨ρ, hrest, hρ⟩ := links_walk hz hs rest hr hτ
      rw [chain, links, ← type?_of_finding? finding]
      exact ⟨ρ, Frame.walk_two hhead hrest, hρ⟩

theorem head_gives (hz : z.scopes.Sound) (hs : Furnishes z F site s) : (l : Link) →
    {hasMore : Bool} → {p : Produced} → z.HeadMakes s hasMore l p →
      Gives z F (link z site l).code p.type?
  | .bare _ _ _, _, _, h => by
    cases h with
    | load record sees =>
      obtain ⟨owner, hr⟩ := sees
      rw [link, linkAt_eq record]
      exact load_gives hz hs hr
    | typeName _ record =>
      rw [link, linkAt_eq record]
      exact ⟨[], rfl, rfl⟩
  | .call _ _ args _, _, _, h => by
    cases h with
    | callBinding hargs offer record sees =>
      obtain ⟨owner, hr⟩ := sees
      obtain ⟨_, hwalk, c, rfl, hc⟩ := load_gives hz hs hr
      rw [link, linkAt_eq record, type?_ofCall]
      exact ⟨_, callValue_walks offer (exprs_give hz hs args hargs) hwalk hc, yields_result _⟩
    | @callType _ _ _ _ _ type _ _ hargs offer record =>
      have hcall := callRoutine_walks offer (exprs_give hz hs args hargs)
        (Frame.fits_self F (z.types.descriptor type))
      rw [link, linkAt_eq record, type?_ofCall]
      exact ⟨_, hcall, yields_result _⟩
    | construct _ user record =>
      rw [link, linkAt_eq record, linkCode, defaultValue, user]
      exact ⟨_, walk_makeObject _, yields_descriptor _⟩

/-- A later link turns the value that the links before it gave into its own. -/
theorem link_walks (hz : z.scopes.Sound) (hs : Furnishes z F site s) : (l : Link) →
    {before after : Produced} → z.LinkMakes s before l after → {ρ : Cells} →
      Yields z F before.type? ρ →
        ∃ ρ', F.walk (link z site l).code ρ = some ρ' ∧ Yields z F after.type? ρ'
  | .bare _ _ _, _, _, h, _, hρ => by
    cases h with
    | field on role record =>
      obtain ⟨c, hc, rfl⟩ := receiver_cells on hρ
      rw [link, linkAt_eq record]
      exact ⟨_, readMember_walks role (fun h => absurd h Bool.false_ne_true) hc, yields_descriptor _⟩
  | .call _ _ args _, _, _, h, _, hρ => by
    cases h with
    | callMember on hargs offer record =>
      obtain ⟨c, hc, rfl⟩ := receiver_cells on hρ
      rw [link, linkAt_eq record, type?_ofCall]
      exact ⟨_, callRoutine_walks offer (exprs_give hz hs args hargs) hc, yields_result _⟩
    | callField on hargs role member offer record =>
      obtain ⟨c, hc, rfl⟩ := receiver_cells on hρ
      rw [link, linkAt_eq record, type?_ofCall, linkCode, member]
      exact ⟨_, callValue_walks offer (exprs_give hz hs args hargs) (readMember_walks role id hc)
        (Frame.fits_self F _), yields_result _⟩

theorem links_walk (hz : z.scopes.Sound) (hs : Furnishes z F site s) : (ls : List Link) →
    {before after : Produced} → z.LinksMake s before ls after → {ρ : Cells} →
      Yields z F before.type? ρ →
        ∃ ρ', F.walk (links z site ls).code ρ = some ρ' ∧ Yields z F after.type? ρ'
  | [], _, _, h, ρ, hρ => by
    cases h
    rw [links]
    exact ⟨ρ, rfl, hρ⟩
  | l :: ls, _, _, h, _, hρ => by
    cases h with
    | cons hl hls =>
      obtain ⟨τ, hfirst, hτ⟩ := link_walks hz hs l hl hρ
      obtain ⟨ρ', hrest, hρ'⟩ := links_walk hz hs ls hls hτ
      rw [links]
      exact ⟨ρ', Frame.walk_two hfirst hrest, hρ'⟩

theorem exprs_give (hz : z.scopes.Sound) (hs : Furnishes z F site s) : (es : List Expr) →
    {ts : List TypeId} → z.ArgsHave s es ts → GivesAll z F (exprs z site es).code ts
  | [], _, h => by
    cases h
    rw [exprs]
    exact ⟨[], rfl, .nil⟩
  | e :: es, _, h => by
    cases h with
    | cons he hes =>
      rw [exprs]
      exact (expr_gives hz hs e he).cons (exprs_give hz hs es hes)

end

end Lowering

end Unnest
