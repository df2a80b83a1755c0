import Unnest.Proofs.Analysis.Reads
import Unnest.Proofs.Code.Locals
import Unnest.Proofs.Lowering.Plain

/-!
# What fragments read and fill

The code of an expression stores nothing.  It reads the slots that its links read, and
slot 0 wherever it asks for the routine or the instance that it is in, which is there in
every method that has them (`Site.Holds`).  Declarations fill the slots of their names,
one after the other, and the second of several names may be copied from the first.
-/

namespace Unnest

open Code

/-- Where code at a site asks for the receiver, it is in its slot. -/
def Site.Holds (site : Site) (V : Set Nat) : Prop :=
  site.kind = .routine ∨ site.instanceType.isSome = true → 0 ∈ V

theorem Site.Holds.mono {site : Site} {V U : Set Nat} (h : site.Holds V) (hV : V ⊆ U) :
    site.Holds U := fun hs => hV (h hs)

namespace Lowering

open Analysis (ReadsOnly)

variable {z : Analysis} {site : Site} {V : Set Nat} {F : Label → Set Nat} {N : Nat}

/-! ## Values and calls -/

theorem reads_makeObject (path : String) : Reads V (makeObject path) := by
  simp [makeObject, Instruction.Reads]

theorem reads_defaultValue (type : TypeId) : Reads V (defaultValue z type) := by
  unfold defaultValue
  split
  · simp [Instruction.Reads]
  all_goals exact reads_makeObject _

theorem reads_loadInstance (hs : site.Holds V) : Reads V (loadInstance z site).code := by
  unfold loadInstance
  split
  · rename_i owner h
    have h0 := hs (Or.inr (by rw [h]; rfl))
    simp [Instruction.Reads, h0]
  · exact reads_nil

theorem reads_load (hs : site.Holds V) (b : Binding) {access : Access} (h : access.Within V) :
    Reads V (load z site b access).code := by
  cases access with
  | slot k => exact reads_cons.mpr ⟨h, reads_nil⟩
  | itself => exact reads_cons.mpr ⟨h, reads_nil⟩
  | static owner => exact reads_cons.mpr ⟨trivial, reads_nil⟩
  | captured =>
    rw [load]
    split
    · rename_i hk
      exact reads_cons.mpr ⟨hs (Or.inl hk), reads_cons.mpr ⟨trivial, reads_nil⟩⟩
    all_goals exact reads_cons.mpr ⟨trivial, reads_nil⟩
  | enclosing =>
    rw [load]
    split
    · exact (reads_loadInstance hs).append (reads_cons.mpr ⟨trivial, reads_nil⟩)
    · exact reads_nil

theorem reads_beforeStore (hs : site.Holds V) (access : Access) :
    Reads V (beforeStore z site access).code := by
  cases access with
  | captured =>
    rw [beforeStore]
    split
    · rename_i hk
      exact reads_cons.mpr ⟨hs (Or.inl hk), reads_nil⟩
    all_goals exact reads_nil
  | enclosing => exact reads_loadInstance hs
  | slot | static | itself => exact reads_nil

theorem reads_callRoutine (owner : TypeId) (routine : Signature) (isStatic : Bool)
    {args : Fragment} (h : Reads V args.code) :
    Reads V (callRoutine z owner routine isStatic args).code := by
  unfold callRoutine invokeRoutine
  cases isStatic <;> dsimp only <;> split <;> simp [Instruction.Reads, h]

theorem reads_readMember (owner : TypeId) (b : Binding) (isStatic : Bool) :
    Reads V (readMember z owner b isStatic) := by
  unfold readMember
  dsimp only
  split <;> simp [Instruction.Reads]

theorem reads_loadCaptures (hs : site.Holds V) {cs : List CaptureSource}
    (h : ∀ c ∈ cs, c.access.Within V) : Reads V (loadCaptures z site cs).code := by
  induction cs with
  | nil => exact reads_nil
  | cons c cs ih =>
    rw [List.forall_mem_cons] at h
    exact (reads_load hs _ h.1).append (ih h.2)

/-- Only a member of an instance is made with the instance. -/
theorem reads_makeRoutine (hs : site.Holds V) {r : RoutineFinding}
    (hr : (enclosingType r).isSome = true → 0 ∈ V) (h : ∀ c ∈ r.captures, c.access.Within V) :
    Reads V (makeRoutine z site r).code := by
  have hreceiver : Reads V
      (if (enclosingType r).isSome then Fragment.ofList [.load 0] else {}).code := by
    split
    · rename_i hsome
      exact reads_cons.mpr ⟨hr hsome, reads_nil⟩
    · exact reads_nil
  have hnew : Reads V [.new (z.units.path r.unit), .dup] := by simp [Instruction.Reads]
  exact ((hnew.append hreceiver).append (reads_loadCaptures hs h)).append
    (reads_cons.mpr ⟨trivial, reads_nil⟩)

theorem reads_initType (hs : site.Holds V) {t : TypeFinding}
    (h : ∀ c ∈ t.captures, c.access.Within V) : Reads V (initType z site t).code :=
  (reads_loadCaptures hs h).append (reads_cons.mpr ⟨trivial, reads_nil⟩)

/-! ## Expressions -/

theorem reads_literal (value : Literal) : Reads V (literal z value) := by
  cases value <;> simp [literal, makeConstant, Instruction.Reads]

theorem reads_linkCode (hs : site.Holds V) {args : Fragment} (ha : Reads V args.code)
    {f : LinkFinding} (h : ∀ b access, f.use? = some (b, access) → access.Within V) :
    Reads V (linkCode z site args f).code := by
  cases f with
  | load b access => exact reads_load hs b (h b access rfl)
  | typeName => exact reads_nil
  | construct type => exact reads_defaultValue type
  | field owner b => exact reads_readMember owner b false
  | call owner routine callee =>
    cases callee with
    | binding b access =>
      exact (reads_load hs b (h b access rfl)).append (reads_callRoutine owner routine false ha)
    | member isStatic => exact reads_callRoutine owner routine isStatic ha
    | fieldValue b isStatic =>
      rw [linkCode]
      split
      · exact (reads_readMember _ b isStatic).append (reads_callRoutine owner routine false ha)
      · exact reads_nil

theorem reads_linkAt (hs : site.Holds V) {l : Link} {xs : List Part} (h : ReadsOnly z V xs)
    (hl : .link l ∈ xs) {args : Fragment} (ha : Reads V args.code) :
    Reads V (linkAt z site l.node args).code := by
  unfold linkAt
  split
  · rename_i f hf
    exact reads_linkCode hs ha fun b access => h l f b access hl hf
  · exact reads_nil

mutual

/-- The code of an expression reads what its links read. -/
theorem reads_expr (hs : site.Holds V) : (e : Expr) → ReadsOnly z V e.parts →
    Reads V (expr z site e).code
  | .literal _ value _, _ => by
    rw [expr]
    exact reads_literal value
  | .binary _ _ left right _, h => by
    rw [expr]
    split
    · refine (reads_expr hs left (h.sublist fun x hx => ?_)).append (reads_callRoutine _ _ _
        (reads_expr hs right (h.sublist fun x hx => ?_)))
      · exact List.mem_cons_of_mem _ (List.mem_append_left _ hx)
      · exact List.mem_cons_of_mem _ (List.mem_append_right _ hx)
    · exact reads_nil
  | .unary _ _ operand _, h => by
    rw [expr]
    split
    · exact reads_callRoutine _ _ _ (reads_expr hs operand (h.sublist (List.subset_cons_self _ _)))
    · exact reads_nil
  | .paren _ inner _, h => by
    rw [expr]
    exact reads_expr hs inner (h.sublist (List.subset_cons_self _ _))
  | .chain c, h => by
    rw [expr]
    exact reads_chain hs c (h.sublist (List.subset_cons_self _ _))

theorem reads_chain (hs : site.Holds V) : (c : Chain) → ReadsOnly z V c.linkParts →
    Reads V (chain z site c).code
  | ⟨_, ls, _⟩, h => by
    rw [chain]
    exact reads_links hs ls h

theorem reads_link (hs : site.Holds V) : (l : Link) → ReadsOnly z V l.parts →
    Reads V (link z site l).code
  | .bare node name span, h => by
    rw [link]
    exact reads_linkAt (l := .bare node name span) hs h List.mem_cons_self reads_nil
  | .call node name args span, h => by
    rw [link]
    exact reads_linkAt (l := .call node name args span) hs h List.mem_cons_self
      (reads_exprs hs args (h.sublist (List.subset_cons_self _ _)))

theorem reads_links (hs : site.Holds V) : (ls : List Link) → ReadsOnly z V (Link.allParts ls) →
    Reads V (links z site ls).code
  | [], _ => by
    rw [links]
    exact reads_nil
  | l :: ls, h => by
    rw [links]
    exact (reads_link hs l (h.sublist (List.subset_append_left _ _))).append
      (reads_links hs ls (h.sublist (List.subset_append_right _ _)))

theorem reads_exprs (hs : site.Holds V) : (es : List Expr) → ReadsOnly z V (Expr.allParts es) →
    Reads V (exprs z site es).code
  | [], _ => by
    rw [exprs]
    exact reads_nil
  | e :: es, h => by
    rw [exprs]
    exact (reads_expr hs e (h.sublist (List.subset_append_left _ _))).append
      (reads_exprs hs es (h.sublist (List.subset_append_right _ _)))

end

theorem allParts_dropLast_subset : (ls : List Link) → Link.allParts ls.dropLast ⊆ Link.allParts ls
  | [] => List.Subset.refl _
  | [_] => List.nil_subset _
  | l :: l' :: ls => by
    rw [List.dropLast_cons_cons, Link.allParts, Link.allParts]
    exact List.append_subset.mpr ⟨List.subset_append_left _ _, fun x hx =>
      List.mem_append_right _ (allParts_dropLast_subset (l' :: ls) hx)⟩

/-- The receiver of a target is the target without its last link. -/
theorem reads_receiver (hs : site.Holds V) (c : Chain) (h : ReadsOnly z V c.linkParts) :
    Reads V (receiver z site c).code := by
  obtain ⟨node, ls, span⟩ := c
  exact reads_links hs _ (h.sublist (allParts_dropLast_subset ls))

theorem link_mem_parts (l : Link) : .link l ∈ l.parts := by
  cases l <;> rw [Link.parts] <;> exact List.mem_cons_self

theorem link_mem_allParts {l : Link} : {ls : List Link} → l ∈ ls → .link l ∈ Link.allParts ls
  | _ :: _, h => (List.mem_cons.mp h).elim
      (fun heq => heq ▸ List.mem_append_left _ (link_mem_parts _))
      fun h => List.mem_append_right _ (link_mem_allParts h)

theorem link_mem_of_last? {c : Chain} {l : Link} (h : c.last? = some l) :
    .link l ∈ c.linkParts := by
  obtain ⟨node, ls, span⟩ := c
  exact link_mem_allParts (List.mem_of_getLast? h)

/-! ## Declarations -/

theorem below_insert {k : Nat} (hN : ∀ k ∈ V, k < N) (hk : k < N) : ∀ j ∈ insert k V, j < N :=
  fun _ hj => hj.elim (fun heq => heq ▸ hk) (hN _)

theorem below_union {U : Set Nat} (hN : ∀ k ∈ V, k < N) (hU : ∀ k ∈ U, k < N) :
    ∀ j ∈ V ∪ U, j < N := fun _ hj => hj.elim (hN _) (hU _)

/-- One slot after the other. -/
theorem insert_union_mem (k : Nat) (ks : List Nat) :
    insert k V ∪ {j | j ∈ ks} = V ∪ {j | j ∈ k :: ks} := by
  ext j
  simp only [Set.mem_union, Set.mem_insert_iff, Set.mem_ofPred_eq, List.mem_cons]
  exact ⟨fun h => h.elim (fun h => h.elim (fun h => Or.inr (Or.inl h)) Or.inl)
      fun h => Or.inr (Or.inr h),
    fun h => h.elim (fun h => Or.inl (Or.inr h)) fun h => h.elim (fun h => Or.inl (Or.inl h)) Or.inr⟩

/-- A new value is made and stored. -/
theorem fills_default {k : Nat} (type : TypeId) (hN : ∀ k ∈ V, k < N) (hk : k < N) :
    Fills F N V (defaultValue z type ++ [.store k]) (insert k V) :=
  ((reads_defaultValue type).fills hN).append (fills_store hk (Set.Subset.refl _))

theorem fills_declareSlots {bs : List Binding} (hN : ∀ k ∈ V, k < N)
    (hbs : ∀ k ∈ slotSet bs, k < N) : Fills F N V (declareSlots z bs).code (V ∪ slotSet bs) := by
  induction bs generalizing V with
  | nil =>
    rintro k (hk | ⟨b, hb, -⟩)
    · exact hk
    · exact absurd hb List.not_mem_nil
  | cons b bs ih =>
    have hsplit : slotSet (b :: bs) = slotSet [b] ∪ slotSet bs := slotSet_append [b] bs
    rw [hsplit] at hbs ⊢
    have hrest := ih (below_union hN fun k hk => hbs k (Or.inl hk)) fun k hk => hbs k (Or.inr hk)
    rw [Set.union_assoc] at hrest
    rw [declareSlots, Fragment.code_append]
    refine Fills.append ?_ hrest
    split
    · rename_i k hslot
      rw [slotSet_singleton hslot, Set.union_singleton]
      exact fills_default b.type hN (hbs k (Or.inl ⟨b, List.mem_cons_self, hslot⟩))
    · rename_i hslot
      rintro k (hk | ⟨x, hx, hk⟩)
      · exact hk
      · rw [List.mem_singleton.mp hx, hslot] at hk
        exact absurd hk (by simp)

theorem fills_copyInto (type : TypeId) (routine : Signature) {value : Fragment} {k : Nat}
    (hv : Reads (insert k V) value.code) (hN : ∀ k ∈ V, k < N) (hk : k < N) :
    Fills F N V (copyInto z type routine value (.slot k)).code (insert k V) := by
  have hread : Reads (insert k V) ([.load k] ++ (callRoutine z type routine false value).code) :=
    Reads.append (reads_cons.mpr ⟨Set.mem_insert k V, reads_nil⟩)
      (reads_callRoutine type routine false hv)
  have hall := (fills_default (F := F) (z := z) type hN hk).append
    (hread.fills (below_insert hN hk))
  rw [List.append_assoc] at hall
  simpa [copyInto, Place.slot] using hall

/-- The other slots are copied from a filled one. -/
theorem fills_copies (type : TypeId) (routine : Signature) {first : Nat} {ks : List Nat}
    (hfirst : first ∈ V) (hN : ∀ k ∈ V, k < N) (hks : ∀ k ∈ ks, k < N) :
    Fills F N V (Fragment.concat (ks.map fun k =>
      copyInto z type routine (.ofList [.load first]) (.slot k))).code (V ∪ {k | k ∈ ks}) := by
  induction ks generalizing V with
  | nil =>
    rintro k (hk | hk)
    · exact hk
    · exact absurd hk List.not_mem_nil
  | cons k ks ih =>
    rw [List.forall_mem_cons] at hks
    have hread : Reads (insert k V) [.load first] :=
      reads_cons.mpr ⟨Set.mem_insert_of_mem k hfirst, reads_nil⟩
    rw [← insert_union_mem]
    exact (fills_copyInto type routine hread hN hks.1).append
      (ih (Set.mem_insert_of_mem k hfirst) (below_insert hN hks.1) hks.2)

theorem fills_stores {ks : List Nat} (hks : ∀ k ∈ ks, k < N) :
    Fills F N V (ks.map Instruction.store) (V ∪ {k | k ∈ ks}) := by
  induction ks generalizing V with
  | nil =>
    rintro k (hk | hk)
    · exact hk
    · exact absurd hk List.not_mem_nil
  | cons k ks ih =>
    rw [List.forall_mem_cons] at hks
    rw [← insert_union_mem]
    exact ⟨hks.1, ih hks.2⟩

/-- A definition reads its value, and fills the slots of all its names. -/
theorem fills_initPlaces (type : TypeId) (mode : WriteMode) {value : Fragment} {ks : List Nat}
    (hv : Reads V value.code) (hN : ∀ k ∈ V, k < N) (hks : ∀ k ∈ ks, k < N) :
    Fills F N V (initPlaces z type mode value (ks.map .slot)).code (V ∪ {k | k ∈ ks}) := by
  cases ks with
  | nil =>
    rintro k (hk | hk)
    · exact hk
    · exact absurd hk List.not_mem_nil
  | cons first rest =>
    rw [List.forall_mem_cons] at hks
    cases mode with
    | copy routine =>
      have hfirst : Fills F N V (copyInto z type routine value (.slot first)).code (insert first V) :=
        fills_copyInto type routine (hv.mono (Set.subset_insert first V)) hN hks.1
      have hrest := fills_copies (F := F) (z := z) type routine (Set.mem_insert first V)
        (below_insert hN hks.1) hks.2
      rw [insert_union_mem] at hrest
      rw [List.map_cons, initPlaces, Fragment.code_append, List.map_map]
      exact hfirst.append hrest
    | store =>
      have hdups : Reads V (rest.map fun _ => Instruction.dup) := by
        intro i hi
        obtain ⟨_, _, rfl⟩ := List.mem_map.mp hi
        trivial
      have hstores := fills_stores (F := F) (V := V) (List.forall_mem_cons.mpr hks)
      rw [List.map_cons, initPlaces, List.map_map, ← List.map_cons, List.map_map]
      exact ((hv.append hdups).fills hN).append hstores

/-! ## Assignments -/

theorem fills_storeAccess (b : Binding) {access : Access} (h : access.Within V)
    (hN : ∀ k ∈ V, k < N) : Fills F N V (store z site b access).code V := by
  cases access with
  | slot k => exact fills_store (hN k h) (Set.subset_insert k V)
  | static | itself => exact Reads.fills (reads_cons.mpr ⟨trivial, reads_nil⟩) hN
  | captured =>
    rw [store]
    split <;> exact Reads.fills (reads_cons.mpr ⟨trivial, reads_nil⟩) hN
  | enclosing =>
    rw [store]
    split
    · exact Reads.fills (reads_cons.mpr ⟨trivial, reads_nil⟩) hN
    · exact Set.Subset.refl V

/-- An assignment stores only to a slot that is filled. -/
theorem fills_storeTarget (hs : site.Holds V) {target : Chain} {value : Fragment}
    (h : ReadsOnly z V target.linkParts) (hv : Reads V value.code) (hN : ∀ k ∈ V, k < N) :
    Fills F N V (storeTarget z site target value).code V := by
  unfold storeTarget
  split
  · rename_i b access hlast
    obtain ⟨l, hl, hf⟩ := Option.bind_eq_some_iff.mp hlast
    have haccess := h l _ b access (link_mem_of_last? hl) hf rfl
    exact (((reads_beforeStore hs access).append hv).fills hN).append
      (fills_storeAccess b haccess hN)
  · rename_i owner b hlast
    refine ((((reads_receiver hs target h).append hv).append ?_).fills hN)
    split <;> exact reads_cons.mpr ⟨trivial, reads_nil⟩
  · exact Set.Subset.refl V

theorem fills_assign (hs : site.Holds V) (x : Assignment)
    (h : ReadsOnly z V (x.target.linkParts ++ x.value.parts)) (hN : ∀ k ∈ V, k < N) :
    Fills F N V (assign z site x).code V := by
  have htarget := h.sublist (List.subset_append_left _ _)
  have hvalue := reads_expr hs x.value (h.sublist (List.subset_append_right _ _))
  unfold assign
  split
  · exact ((reads_chain hs x.target htarget).append (reads_callRoutine _ _ _ hvalue)).fills hN
  · exact fills_storeTarget hs htarget hvalue hN
  · exact Set.Subset.refl V

theorem reads_callStmt (hs : site.Holds V) (c : Chain) (h : ReadsOnly z V c.linkParts) :
    Reads V (callStmt z site c).code := by
  refine (reads_chain hs c h).append ?_
  split
  · exact reads_cons.mpr ⟨trivial, reads_nil⟩
  all_goals exact reads_nil

/-! ## Static members -/

theorem reads_copyInto_static (type : TypeId) (routine : Signature) {value : Fragment}
    (hv : Reads V value.code) (field : FieldRef) :
    Reads V (copyInto z type routine value (.staticField field)).code := by
  have hplace : Reads V [(Place.staticField field).write, (Place.staticField field).read] :=
    reads_cons.mpr ⟨trivial, reads_cons.mpr ⟨trivial, reads_nil⟩⟩
  exact ((reads_defaultValue type).append hplace).append (reads_callRoutine type routine false hv)

theorem reads_concat {fs : List Fragment} (h : ∀ f ∈ fs, Reads V f.code) :
    Reads V (Fragment.concat fs).code := by
  induction fs with
  | nil => exact reads_nil
  | cons f fs ih =>
    rw [List.forall_mem_cons] at h
    exact h.1.append (ih h.2)

/-- The initial value of static members is stored in fields. -/
theorem reads_initPlaces_static (type : TypeId) (mode : WriteMode) {value : Fragment}
    (hv : Reads V value.code) (fields : List FieldRef) :
    Reads V (initPlaces z type mode value (fields.map .staticField)).code := by
  cases fields with
  | nil => exact reads_nil
  | cons first rest =>
    cases mode with
    | copy routine =>
      rw [List.map_cons, initPlaces]
      refine (reads_copyInto_static type routine hv first).append (reads_concat fun f hf => ?_)
      rw [List.map_map] at hf
      obtain ⟨field, -, rfl⟩ := List.mem_map.mp hf
      have hfirst : Reads V [.getStatic first] := reads_cons.mpr ⟨trivial, reads_nil⟩
      exact reads_copyInto_static type routine hfirst field
    | store =>
      rw [List.map_cons, initPlaces]
      refine (hv.append fun i hi => ?_).append fun i hi => ?_
      · obtain ⟨_, _, rfl⟩ := List.mem_map.mp hi
        trivial
      · rw [← List.map_cons, List.map_map] at hi
        obtain ⟨_, _, rfl⟩ := List.mem_map.mp hi
        trivial

theorem reads_staticField (hs : site.Holds V) (x : StaticField)
    (h : ReadsOnly z V x.init.parts) : Reads V (staticField z site x).code := by
  unfold staticField
  split
  · rename_i type bs mode _
    have hfields := reads_initPlaces_static (z := z) type mode (reads_expr hs x.init h)
      (bs.map (capturedField z site))
    rwa [List.map_map] at hfields
  · exact reads_nil

theorem reads_staticFields {t : TypeFinding} {xs : List StaticField}
    (h : ∀ x ∈ xs, ReadsOnly z V x.init.parts) : Reads V (staticFields z t xs).code := by
  have hs : (staticSite z t).Holds V := fun h => absurd h (by simp [staticSite])
  induction xs with
  | nil => exact reads_nil
  | cons x xs ih =>
    rw [List.forall_mem_cons] at h
    exact (reads_staticField hs x h.1).append (ih h.2)

end Lowering

end Unnest
