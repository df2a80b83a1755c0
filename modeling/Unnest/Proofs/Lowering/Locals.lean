import Mathlib.Order.Interval.Set.Defs
import Unnest.Proofs.Analysis.Members
import Unnest.Proofs.Lowering.Reading
import Unnest.Proofs.Lowering.Whole

/-!
# Local slots of emitted methods

What the rules of `StmtFills` say about a tree holds of the code that the tree is lowered
to, read once in order: it reads only slots that are filled, and leaves those filled that
the rules say (`lowered_stmts`).  The bodies of routines become methods of their own on
the way, which start with the slots of their arguments, and so do the constructors and
static methods of types, which only read.

So every method of an accepted program uses its local slots safely, on every way through
it (`locals_safe`), and finds its arguments where they were declared.
-/

namespace Unnest

open Code

namespace Code

variable {N : Nat} {F : Label → Set Nat} {A V : Set Nat} {code : List Instruction}

theorem foldl_max_ge (vars : List LocalVar) (n : Nat) :
    n ≤ vars.foldl (fun n v => max n (v.slot + 1)) n := by
  induction vars generalizing n with
  | nil => exact Nat.le_refl n
  | cons v vars ih => exact Nat.le_trans (Nat.le_max_left _ _) (ih _)

section Assembled

variable {name : String} {d : Descriptor} {vars : List LocalVar} {n k : Nat}

/-- A method that is put together is safe when its code, read in order, is. -/
theorem localSafe_assemble {modifiers : Modifiers} (h : Fills F N A code V)
    (hA : ∀ k ∈ A, k ∈ (Method.assemble name d modifiers vars n code).argumentSlots)
    (hN : N ≤ (Method.assemble name d modifiers vars n code).maxLocals)
    (hvars : (vars.map (·.slot)).Nodup) :
    LocalSafe (.assemble name d modifiers vars n code) := by
  refine localSafe_of_fills h hA hN ?_
  have hsorted : (vars.mergeSort fun a b => decide (a.slot ≤ b.slot)).Pairwise
      fun a b => decide (a.slot ≤ b.slot) = true :=
    List.pairwise_mergeSort (fun a b c hab hbc => by
      simp only [decide_eq_true_eq] at *
      omega) (fun a b => by simp only [Bool.or_eq_true, decide_eq_true_eq]; omega) vars
  have hnodup : ((vars.mergeSort fun a b => decide (a.slot ≤ b.slot)).map (·.slot)).Nodup :=
    ((List.mergeSort_perm vars _).map _).nodup_iff.mpr hvars
  rw [List.pairwise_map]
  rw [List.nodup_iff_pairwise_ne, List.pairwise_map] at hnodup
  refine hsorted.imp₂ (fun a b hle hne => ?_) hnodup
  rw [decide_eq_true_eq] at hle
  omega

/-- A method of an instance has its receiver and its arguments in the first slots. -/
theorem mem_argumentSlots_instance (hd : ∀ x ∈ d.params, Descriptor.cells x = 1) :
    k ∈ (Method.assemble name d .instanceMember vars n code).argumentSlots ↔
      k ≤ d.params.length := by
  show k ∈ 0 :: Descriptor.slotsFrom 1 d.params ↔ _
  rw [List.mem_cons, Descriptor.slotsFrom_eq_range' hd, List.mem_range'_1]
  omega

theorem mem_argumentSlots_static (hd : ∀ x ∈ d.params, Descriptor.cells x = 1) :
    k ∈ (Method.assemble name d .staticMember vars n code).argumentSlots ↔
      k < d.params.length := by
  show k ∈ Descriptor.slotsFrom 0 d.params ↔ _
  rw [Descriptor.slotsFrom_eq_range' hd, List.mem_range'_1]
  omega

end Assembled

end Code

namespace Lowering

open Analysis (ReadsOnly StmtFills GuardedFills ElseFills RoutineFills MemberFills StmtsFills)

variable {z : Analysis} {site : Site} {V V' : Set Nat} {N : Nat}

/-! ## Methods without statements -/

theorem reads_constructSuper (path : String) (h : 0 ∈ V) : Reads V (constructSuper path) :=
  reads_cons.mpr ⟨h, reads_cons.mpr ⟨trivial, reads_nil⟩⟩

/-- Code that reads what is in the first slots, and then returns. -/
theorem fills_returnNothing {code : List Instruction} (h : Reads V code) (hN : ∀ k ∈ V, k < N)
    (F : Label → Set Nat) : Fills F N V (code ++ [.returnNothing]) V :=
  (h.fills hN).append ⟨trivial, Set.subset_univ V⟩

theorem localSafe_plainConstructor (path : String) : LocalSafe (plainConstructor path) := by
  have h0 : ∀ k ∈ ({0} : Set Nat), k < 1 := fun k hk => hk ▸ Nat.one_pos
  have hcode := fills_returnNothing (reads_constructSuper path (Set.mem_singleton 0)) h0 fun _ => ∅
  refine localSafe_assemble hcode (fun k hk => ?_) (Nat.le_refl 1) List.nodup_nil
  rw [mem_argumentSlots_instance (d := .void) (List.forall_mem_nil _)]
  exact Nat.le_of_lt_succ (h0 k hk)

theorem reads_storeFields (path : String) {k : Nat} {fields : List (String × String)}
    (h0 : 0 ∈ V) (h : ∀ j, k ≤ j → j < k + fields.length → j ∈ V) :
    Reads V (storeFields path k fields) := by
  induction fields generalizing k with
  | nil => exact reads_nil
  | cons f fields ih =>
    rw [List.length_cons] at h
    have hfirst : Reads V [.load 0, .load k, .putField ⟨path, f.1, f.2⟩] :=
      reads_cons.mpr ⟨h0, reads_cons.mpr ⟨h k (Nat.le_refl k) (by omega),
        reads_cons.mpr ⟨trivial, reads_nil⟩⟩⟩
    exact hfirst.append (ih fun j hj hj' => h j (by omega) (by omega))

theorem localSafe_fieldConstructor (path superPath : String) {fields : List (String × String)}
    (h : ∀ f ∈ fields, Descriptor.cells f.2 = 1) :
    LocalSafe (fieldConstructor path superPath fields) := by
  have h0 : 0 ∈ Set.Iic fields.length := Nat.zero_le _
  have hreads : Reads (Set.Iic fields.length) (constructSuper superPath ++
      storeFields path 1 fields) :=
    (reads_constructSuper superPath h0).append (reads_storeFields path h0 fun j _ hj =>
      Set.mem_Iic.mpr (by omega))
  have hcode := fills_returnNothing hreads (N := 1 + fields.length) (fun k hk => by
    rw [Set.mem_Iic] at hk
    omega) fun _ => ∅
  refine localSafe_assemble hcode (fun k hk => ?_) (foldl_max_ge _ _) List.nodup_nil
  rw [mem_argumentSlots_instance (List.forall_mem_map.mpr h), List.length_map]
  exact hk

theorem localSafe_baseMethod (d : Descriptor) : LocalSafe (baseMethod d) := by
  have hcode : Fills (fun _ => ∅) 0 ∅ (baseMethod d).code ∅ := by
    show Fills _ _ _ (if d.result.isSome then _ else _) _
    split
    · exact ⟨trivial, trivial, Set.empty_subset _⟩
    · exact ⟨trivial, Set.empty_subset _⟩
  exact localSafe_assemble hcode (fun k hk => absurd hk (Set.notMem_empty k)) (Nat.zero_le _)
    List.nodup_nil

theorem localSafe_baseClass (base : String) (ds : List Descriptor) :
    ∀ m ∈ (baseClass base ds).methods, LocalSafe m := by
  refine List.forall_mem_cons.mpr ⟨localSafe_plainConstructor _, fun m hm => ?_⟩
  obtain ⟨d, -, rfl⟩ := List.mem_map.mp hm
  exact localSafe_baseMethod d

/-! ## Methods of types -/

/-- A method without named slots but the receiver's. -/
theorem reads_defaultFields (t : TypeFinding) (h : 0 ∈ V) : Reads V (defaultFields z t) := by
  intro i hi
  obtain ⟨b, -, hi⟩ := List.mem_flatMap.mp hi
  rw [List.cons_append, List.mem_cons, List.mem_append, List.mem_singleton] at hi
  rcases hi with rfl | hi | rfl
  · exact h
  · exact reads_defaultValue b.type i hi
  · trivial

theorem reads_bindRoutines (t : TypeFinding) {rs : List RoutineFinding} (h0 : 0 ∈ V)
    (h : ∀ r ∈ rs, ∀ c ∈ r.captures, c.access.Within V) :
    Reads V (bindRoutines z t rs).code := by
  have hs : (constructorSite z t).Holds V := fun _ => h0
  induction rs with
  | nil => exact reads_nil
  | cons r rs ih =>
    rw [List.forall_mem_cons] at h
    have hthis : Reads V [.load 0] := reads_cons.mpr ⟨h0, reads_nil⟩
    have hput : Reads V [.putField (memberField z t.type r.binding)] :=
      reads_cons.mpr ⟨trivial, reads_nil⟩
    exact ((hthis.append (reads_makeRoutine hs (fun _ => h0) h.1)).append hput).append (ih h.2)

theorem reads_storeCaptures (path : String) {k : Nat} {cs : List CaptureSource}
    (h : ∀ j, k ≤ j → j < k + cs.length → j ∈ V) : Reads V (storeCaptures z path k cs) := by
  induction cs generalizing k with
  | nil => exact reads_nil
  | cons c cs ih =>
    rw [List.length_cons] at h
    have hfirst : Reads V [.load k, .putStatic ⟨path, c.name, z.types.descriptor c.type⟩] :=
      reads_cons.mpr ⟨h k (Nat.le_refl k) (by omega), reads_cons.mpr ⟨trivial, reads_nil⟩⟩
    exact hfirst.append (ih fun j hj hj' => h j (by omega) (by omega))

theorem reads_makeStaticRoutines (t : TypeFinding) {rs : List RoutineFinding}
    (hr : ∀ r ∈ rs, r.isStatic = true) (h : ∀ r ∈ rs, ∀ c ∈ r.captures, c.access.Within V) :
    Reads V (makeStaticRoutines z t rs).code := by
  have hs : (staticSite z t).Holds V := fun h => absurd h (by simp [staticSite])
  induction rs with
  | nil => exact reads_nil
  | cons r rs ih =>
    rw [List.forall_mem_cons] at h hr
    have hfree : (enclosingType r).isSome = true → 0 ∈ V := fun hsome => by
      rw [enclosingType, if_pos hr.1] at hsome
      exact absurd hsome Bool.false_ne_true
    have hput : Reads V [.putStatic (memberField z t.type r.binding)] :=
      reads_cons.mpr ⟨trivial, reads_nil⟩
    exact ((reads_makeRoutine hs hfree h.1).append hput).append (ih hr.2 h.2)

/-- The constructor and the static method of a type's class. -/
theorem localSafe_typeClass (t : TypeFinding) {rs ss : List RoutineFinding}
    {xs : List StaticField} (hrs : ∀ r ∈ rs, ∀ c ∈ r.captures, c.access.Within ∅)
    (hss : ∀ r ∈ ss, r.isStatic = true ∧ ∀ c ∈ r.captures, c.access.Within ∅)
    (hxs : ∀ x ∈ xs, ReadsOnly z ∅ x.init.parts) :
    ∀ m ∈ (typeClass z t rs ss (constructorCode z t rs).code (staticInitCode z t ss xs).code).methods,
      LocalSafe m := by
  have h0 : (0 : Nat) ∈ ({0} : Set Nat) := Set.mem_singleton 0
  have hconstructor : Reads {0} (constructSuper Reserved.object ++ defaultFields z t ++
      (bindRoutines z t rs).code) :=
    ((reads_constructSuper _ h0).append (reads_defaultFields t h0)).append
      (reads_bindRoutines t h0 fun r hr c hc => (hrs r hr c hc).mono (Set.empty_subset _))
  have hstatic : Reads (Set.Iio t.captures.length) (storeCaptures z (z.types.path t.type) 0
      t.captures ++ (makeStaticRoutines z t ss).code ++ (staticFields z t xs).code) :=
    ((reads_storeCaptures _ fun j _ hj => Set.mem_Iio.mpr (by omega)).append
      (reads_makeStaticRoutines t (fun r hr => (hss r hr).1) fun r hr c hc =>
        ((hss r hr).2 c hc).mono (Set.empty_subset _))).append
      ((reads_staticFields hxs).mono (Set.empty_subset _))
  rw [typeClass]
  dsimp only [ClassFile.addMethod]
  rw [methods_addFields]
  refine List.forall_mem_cons.mpr ⟨?_, List.forall_mem_singleton.mpr ?_⟩
  · refine localSafe_assemble (fills_returnNothing hconstructor (N := 1)
      (fun k hk => hk ▸ Nat.one_pos) fun _ => ∅) (fun k hk => ?_) (Nat.le_refl 1)
      (List.nodup_singleton _)
    rw [mem_argumentSlots_instance (d := .void) (List.forall_mem_nil _)]
    exact Nat.le_of_eq hk
  · refine localSafe_assemble (fills_returnNothing hstatic (fun k hk => hk) fun _ => ∅)
      (fun k hk => ?_) (Nat.le_refl _) List.nodup_nil
    rw [mem_argumentSlots_static, captureDescriptors, List.length_map]
    · exact hk
    · exact List.forall_mem_map.mpr fun c _ => cells_descriptor _ _

/-! ## Named slots -/

theorem slot_localVars (z : Analysis) (s : ScopeId) :
    (localVars z s).map (·.slot) = (z.scopes.methodLocals s).filterMap (·.slot) := by
  rw [localVars, List.map_filterMap]
  refine List.filterMap_congr fun b _ => ?_
  cases b.slot <;> rfl

/-- The named slots of a method and one that is taken from the start. -/
theorem nodup_vars {s : ScopeId} (hl : z.scopes.Laid) (howns : (z.scopes.get s).kind.ownsMethod = true)
    (hk : (z.scopes.get s).kind.reservedSlots = 1) (name descriptor : String) :
    ((localVars z s ++ [(⟨0, name, descriptor⟩ : LocalVar)]).map (·.slot)).Nodup := by
  rw [List.map_append, slot_localVars, List.nodup_append']
  refine ⟨hl.nodup_methodLocals howns, List.nodup_singleton _, fun k hk' h0 => ?_⟩
  have hle := hl.reserved_le_methodLocals howns k hk'
  rw [hk, List.mem_singleton.mp h0] at hle
  exact absurd hle (by simp)

/-! ## Methods of routines -/

/-- The end of a routine reads what is filled behind its body. -/
theorem fills_routineEnd {r : RoutineFinding} {ret : Option ReturnClause} (h0 : 0 ∈ V)
    (h : ReadsOnly z V (ReturnClause.optParts ret)) (hN : ∀ k ∈ V, k < N) (F : Label → Set Nat) :
    Fills F N V (routineEnd z r ret).code V := by
  have hnothing : Fills F N V [.returnNothing] V := ⟨trivial, Set.subset_univ V⟩
  cases ret with
  | none => exact hnothing
  | some ret =>
    rw [routineEnd]
    split
    · exact ((reads_expr (fun _ => h0) ret.value h).fills hN).append ⟨trivial, Set.subset_univ V⟩
    · exact hnothing

/-- A routine whose call method, read in order, uses its slots as it should. -/
theorem localSafe_routineClass (hl : z.scopes.Laid) {f : RoutineFinding} {params : List Param}
    (hk : (z.scopes.get f.scope).kind = .routine) (start : z.BodyStart params f V)
    {F : Label → Set Nat} {code : List Instruction}
    (hcode : Fills F (z.scopes.get f.scope).numLocals V code V') :
    ∀ m ∈ (routineClass z f code).methods, LocalSafe m := by
  rw [routineClass]
  dsimp only [ClassFile.addMethod]
  rw [methods_addFields]
  refine List.forall_mem_cons.mpr ⟨localSafe_fieldConstructor _ _ (cells_routineFields f),
    List.forall_mem_singleton.mpr ?_⟩
  refine localSafe_assemble hcode (fun k hk => ?_) (foldl_max_ge _ _)
    (nodup_vars hl (by rw [hk]; rfl) (by rw [hk]; rfl) _ _)
  have hlength : (descriptorOf z f.signature).params.length = params.length := by
    rw [descriptorOf, List.length_map, start.length]
  rw [mem_argumentSlots_instance, hlength]
  · exact start.arguments k hk
  · exact List.forall_mem_map.mpr fun _ _ => cells_descriptor _ _

/-! ## Statements -/

/-- Classes are completed whose methods are safe. -/
structure Completes (o o' : Output) : Prop where
  labels : o.labels ≤ o'.labels
  classes : ∀ c ∈ o'.classes, c ∈ o.classes ∨ ∀ m ∈ c.methods, LocalSafe m

namespace Completes

variable {o o₁ o' : Output}

theorem trans (h : Completes o o₁) (h' : Completes o₁ o') : Completes o o' :=
  ⟨Nat.le_trans h.labels h'.labels, fun c hc => (h'.classes c hc).elim (h.classes c) Or.inr⟩

theorem complete (h : Completes o o') {c : ClassFile} (hc : ∀ m ∈ c.methods, LocalSafe m)
    (gaps : Nat) : Completes o { o' with classes := o'.classes ++ [c], gaps } :=
  ⟨h.labels, fun c' hc' => (List.mem_append.mp hc').elim (h.classes c') fun heq =>
    Or.inr (List.mem_singleton.mp heq ▸ hc)⟩

end Completes

/-- What comes of lowering a part of a body, from filled slots `V` to `V'`. -/
structure Lowered (N : Nat) (J : List Label) (V V' : Set Nat) (o : Output)
    (code : List Instruction) (o' : Output) : Prop where
  filling : Filling N J o.labels o'.labels V code V'
  below : ∀ k ∈ V', k < N
  completes : Completes o o'

namespace Lowered

variable {J : List Label} {V₁ : Set Nat} {o o₁ o' : Output} {code code' : List Instruction}

theorem trans (h : Lowered N J V V₁ o code o₁) (h' : Lowered N J V₁ V' o₁ code' o') :
    Lowered N J V V' o (code ++ code') o' :=
  ⟨h.filling.append h'.filling, h'.below, h.completes.trans h'.completes⟩

theorem nothing (hJ : ∀ l ∈ J, l.number ≤ o.labels) (hN : ∀ k ∈ V, k < N) :
    Lowered N J V V o [] o :=
  ⟨.nothing N o.labels V hJ, hN, Nat.le_refl _, fun _ => Or.inl⟩

/-- A fragment that is placed behind the classes of a definition. -/
theorem place {f : Fragment} (hf : f.IsPlain) (h : ∀ F, Fills F N V f.code V') (hV : V ⊆ V')
    (hN : ∀ k ∈ V', k < N) (hc : Completes o o₁) (gaps : Nat) :
    Lowered N [] V V' o f.code { o₁ with gaps } :=
  ⟨(Filling.of_isPlain (List.forall_mem_nil _) hf hV h).later hc.labels, hN, hc.labels, hc.classes⟩

/-- A fragment that stands for a part without a class. -/
theorem plain {f : Fragment} (hf : f.IsPlain) (h : ∀ F, Fills F N V f.code V') (hV : V ⊆ V')
    (hN : ∀ k ∈ V', k < N) : Lowered N [] V V' o f.code { o with gaps := o.gaps + f.gaps } :=
  place hf h hV hN ⟨Nat.le_refl _, fun _ => Or.inl⟩ _

theorem forget (h : Lowered N J V V' o code o') (hN : ∀ k ∈ V, k < N) :
    Lowered N J V V o code o' := ⟨h.filling.forget, hN, h.completes⟩

end Lowered

theorem reads_testCode (hs : site.Holds V) {condition : Expr}
    (h : ReadsOnly z V condition.parts) : Reads V (testCode z site condition) :=
  (reads_expr hs condition h).append (reads_cons.mpr ⟨trivial, reads_nil⟩)

/-- A routine outside of types is made and stored. -/
theorem fills_bindRoutine {f : RoutineFinding} {k : Nat} (hs : site.Holds V)
    (hN : ∀ j ∈ V, j < N) (slot : f.binding.slot = some k) (hk : k < N)
    (free : f.memberOf = none) (captures : ∀ c ∈ f.captures, c.access.Within V)
    (F : Label → Set Nat) : Fills F N V (bindRoutine z site f).code (insert k V) := by
  have hfree : (enclosingType f).isSome = true → 0 ∈ V := fun hsome => by
    rw [enclosingType, free] at hsome
    split at hsome <;> exact absurd hsome Bool.false_ne_true
  rw [bindRoutine, slot]
  exact ((reads_makeRoutine hs hfree captures).fills hN).append (fills_store hk (Set.Subset.refl _))

theorem fills_initDecl (hs : site.Holds V) {d : InitDecl} {f : DeclFinding} {mode : WriteMode}
    (record : z.findings.decls.find? d.node = some f) (mode_eq : f.mode = some mode)
    (below : ∀ k ∈ slotSet f.bindings, k < N) (value : ReadsOnly z V d.value.parts)
    (hN : ∀ k ∈ V, k < N) (F : Label → Set Nat) :
    Fills F N V (initDecl z site d).code (V ∪ slotSet f.bindings) := by
  obtain ⟨type, bs, mode'⟩ := f
  obtain rfl : mode' = some mode := mode_eq
  have hslots : slotSet bs = {k | k ∈ bs.filterMap (·.slot)} :=
    Set.ext fun k => mem_filterMap_slot.symm
  have hinit := fills_initPlaces (F := F) (z := z) type mode (reads_expr hs d.value value) hN
    fun k hk => below k (mem_filterMap_slot.mp hk)
  rw [initDecl, record]
  show Fills F N V ([] ++ _) (V ∪ slotSet bs)
  rw [hslots]
  exact hinit

theorem mem_declaredRoutines {rs : List RoutineDef} {f : RoutineFinding} :
    f ∈ declaredRoutines z rs ↔ ∃ r ∈ rs, z.findings.routines.find? r.node = some f :=
  List.mem_filterMap

theorem members_captured {isStatic : Bool} {rs : List RoutineDef}
    (h : ∀ r ∈ rs, MemberFills z isStatic r) : ∀ f ∈ declaredRoutines z rs,
      f.isStatic = isStatic ∧ ∀ c ∈ f.captures, c.access.Within ∅ := by
  intro f hf
  obtain ⟨r, hr, hfind⟩ := mem_declaredRoutines.mp hf
  cases h r hr with
  | mk record static captures =>
    obtain rfl := Option.some.inj (record.symm.trans hfind)
    exact ⟨static, captures⟩

mutual

/-- Statements are lowered as the rules say. -/
theorem lowered_stmt (hz : z.Final) : (x : Stmt) → {site : Site} → {N : Nat} → {V V' : Set Nat} →
    StmtFills z N V x V' → site.Holds V → (∀ k ∈ V, k < N) → (o : Output) →
      Lowered N [] V V' o ((stmt z site x).run o).1 ((stmt z site x).run o).2
  | .declare d, site, N, V, _, h, hs, hN, o => by
    cases h with
    | declare record below =>
      rw [stmt, run_place, varDecl, record]
      exact .plain (isPlain_declareSlots z _) (fun F => fills_declareSlots hN below)
        Set.subset_union_left (below_union hN below)
  | .define d, site, N, V, _, h, hs, hN, o => by
    cases h with
    | define record mode_eq below value =>
      rw [stmt, run_place]
      exact .plain (isPlain_initDecl z site d) (fills_initDecl hs record mode_eq below value hN)
        Set.subset_union_left (below_union hN below)
  | .assign x, site, N, V, _, h, hs, hN, o => by
    cases h with
    | assign h =>
      rw [stmt, run_place]
      exact .plain (isPlain_assign z site x) (fun F => fills_assign hs x h hN) (Set.Subset.refl V) hN
  | .call c, site, N, V, _, h, hs, hN, o => by
    cases h with
    | call h =>
      rw [stmt, run_place]
      exact .plain (isPlain_callStmt z site c) (fun F => (reads_callStmt hs c h).fills hN)
        (Set.Subset.refl V) hN
  | .branch gs otherwise span, site, N, V, _, h, hs, hN, o => by
    cases h with
    | branch hgs he =>
      have hbranches := lowered_branches hz gs hgs hs hN ⟨o.labels + 1⟩
        { o with labels := o.labels + 1 } (Nat.le_refl _)
      have helse := lowered_else hz otherwise he hs hN
        ((branches z site ⟨o.labels + 1⟩ gs).run { o with labels := o.labels + 1 }).2
      have hjumping := helse.filling.jumping (J := [⟨o.labels + 1⟩])
        (List.forall_mem_singleton.mpr hbranches.filling.le)
      have hbehind := (hbranches.filling.append hjumping).behind
      rw [run_if]
      exact ⟨hbehind, hN, hbehind.le, (hbranches.completes.trans helse.completes).classes⟩
  | .loop g, site, N, V, _, h, hs, hN, o => by
    cases h with
    | loop hg =>
      rw [stmt]
      exact lowered_loop hz g hg hs hN o
  | .routine r, site, N, V, _, h, hs, hN, o => by
    cases h with
    | routine record slot below free captures h =>
      have hclass := lowered_memberRoutine hz r h o
      rw [run_memberRoutine_some z record] at hclass
      rw [stmt, run_routine_some z site record]
      exact .place (isPlain_bindRoutine z site _)
        (fills_bindRoutine hs hN slot below free captures) (Set.subset_insert _ V)
        (below_insert hN below) hclass _
  | .type t, site, N, V, _, h, hs, hN, o => by
    cases h with
    | type record captures statics routines staticRoutines =>
      rw [stmt]
      exact lowered_typeDef hz t record captures statics routines staticRoutines hs hN o

theorem lowered_branch (hz : z.Final) : (g : Guarded) → {site : Site} → {N : Nat} → {V : Set Nat} →
    GuardedFills z N V g → site.Holds V → (∀ k ∈ V, k < N) → (done : Label) → (o : Output) →
      done.number ≤ o.labels →
        Lowered N [done] V V o ((branch z site done g).run o).1 ((branch z site done g).run o).2
  | ⟨node, condition, body, span⟩, site, N, V, h, hs, hN, done, o, hdone => by
    cases h with
    | mk hc hb =>
      have hbody := lowered_stmts hz body hb hs hN { o with
        labels := o.labels + 1
        gaps := o.gaps + (jumpUnless z site condition ⟨o.labels + 1⟩).gaps }
      have hbranch := Filling.branch (reads_testCode hs hc) hN hbody.filling hdone
      rw [run_branch]
      dsimp only
      rw [code_jumpUnless]
      exact ⟨hbranch, hN, hbranch.le, hbody.completes.classes⟩

theorem lowered_loop (hz : z.Final) : (g : Guarded) → {site : Site} → {N : Nat} → {V : Set Nat} →
    GuardedFills z N V g → site.Holds V → (∀ k ∈ V, k < N) → (o : Output) →
      Lowered N [] V V o ((loop z site g).run o).1 ((loop z site g).run o).2
  | ⟨node, condition, body, span⟩, site, N, V, h, hs, hN, o => by
    cases h with
    | mk hc hb =>
      have hbody := lowered_stmts hz body hb hs hN { o with
        labels := o.labels + 2
        gaps := o.gaps + (jumpUnless z site condition ⟨o.labels + 2⟩).gaps }
      have hloop := Filling.loop (reads_testCode hs hc) hN hbody.filling
      rw [run_loop]
      dsimp only
      rw [code_jumpUnless]
      exact ⟨hloop, hN, hloop.le, hbody.completes.classes⟩

theorem lowered_else (hz : z.Final) : (e : Else) → {site : Site} → {N : Nat} → {V : Set Nat} →
    ElseFills z N V e → site.Holds V → (∀ k ∈ V, k < N) → (o : Output) →
      Lowered N [] V V o ((elseBlock z site e).run o).1 ((elseBlock z site e).run o).2
  | .absent, site, N, V, h, hs, hN, o => by
    rw [elseBlock]
    exact .nothing (List.forall_mem_nil _) hN
  | .block node body span, site, N, V, h, hs, hN, o => by
    cases h with
    | block hb =>
      rw [elseBlock]
      exact (lowered_stmts hz body hb hs hN o).forget hN

/-- A routine: its body becomes the call method of its class. -/
theorem lowered_memberRoutine (hz : z.Final) : (r : RoutineDef) → RoutineFills z r →
    (o : Output) → Completes o ((memberRoutine z r).run o).2
  | ⟨node, name, closing, params, result, body, ret, span⟩, h, o => by
    cases h with
    | @mk _ _ _ _ _ _ _ _ f V V' record start hb hret =>
      have hr := hz.sound.routines _ (NodeTable.mem_of_find? record)
      have hs : (routineSite z f).Holds V := fun _ => start.itself
      have hbody := lowered_stmts hz body hb hs start.below o
      obtain ⟨F, -, hfills⟩ := hbody.filling.fills (fun _ => ∅) (List.forall_mem_nil _)
      have hend := fills_routineEnd (r := f) (hbody.filling.grows start.itself) hret hbody.below F
      rw [run_memberRoutine_some z record]
      exact hbody.completes.complete
        (localSafe_routineClass hz.laid hr.kind start (hfills.append hend)) _

theorem lowered_typeDef (hz : z.Final) : (t : TypeDef) → {site : Site} → {N : Nat} → {V : Set Nat} →
    {f : TypeFinding} → z.findings.types.find? t.node = some f →
      (∀ c ∈ f.captures, c.access.Within V) → (∀ x ∈ t.staticFields, ReadsOnly z ∅ x.init.parts) →
      (∀ r ∈ t.routines, MemberFills z false r) → (∀ r ∈ t.staticRoutines, MemberFills z true r) →
      site.Holds V → (∀ k ∈ V, k < N) → (o : Output) →
        Lowered N [] V V o ((typeDef z site t).run o).1 ((typeDef z site t).run o).2
  | ⟨node, name, closing, fields, statics, routines, staticRoutines, span⟩, site, N, V, f, record,
      captures, hstatics, hr, hsr, hs, hN, o => by
    have hmembers := (lowered_memberRoutines hz routines hr o).trans
      (lowered_memberRoutines hz staticRoutines hsr _)
    have hclass := hmembers.complete (localSafe_typeClass f
      (fun r hr' => (members_captured hr r hr').2) (members_captured hsr) hstatics)
    rw [run_typeDef_some z site record]
    exact .place (isPlain_initType z site f) (fun F => (reads_initType hs captures).fills hN)
      (Set.Subset.refl V) hN (hclass 0) _

theorem lowered_stmts (hz : z.Final) : (xs : List Stmt) → {site : Site} → {N : Nat} →
    {V V' : Set Nat} → StmtsFills z N V xs V' → site.Holds V → (∀ k ∈ V, k < N) → (o : Output) →
      Lowered N [] V V' o ((stmts z site xs).run o).1 ((stmts z site xs).run o).2
  | [], site, N, V, _, h, hs, hN, o => by
    cases h with
    | nil =>
      rw [run_stmts_nil]
      exact .nothing (List.forall_mem_nil _) hN
  | x :: xs, site, N, V, _, h, hs, hN, o => by
    cases h with
    | cons hx hxs =>
      have hfirst := lowered_stmt hz x hx hs hN o
      rw [run_stmts_cons]
      exact hfirst.trans (lowered_stmts hz xs hxs (hs.mono hfirst.filling.grows) hfirst.below _)

theorem lowered_branches (hz : z.Final) : (gs : List Guarded) → {site : Site} → {N : Nat} →
    {V : Set Nat} → (∀ g ∈ gs, GuardedFills z N V g) → site.Holds V → (∀ k ∈ V, k < N) →
      (done : Label) → (o : Output) → done.number ≤ o.labels →
        Lowered N [done] V V o ((branches z site done gs).run o).1 ((branches z site done gs).run o).2
  | [], site, N, V, h, hs, hN, done, o, hdone => by
    rw [run_branches_nil]
    exact .nothing (List.forall_mem_singleton.mpr hdone) hN
  | g :: gs, site, N, V, h, hs, hN, done, o, hdone => by
    rw [List.forall_mem_cons] at h
    have hfirst := lowered_branch hz g h.1 hs hN done o hdone
    rw [run_branches_cons]
    exact hfirst.trans (lowered_branches hz gs h.2 hs hN done _
      (Nat.le_trans hdone hfirst.filling.le))

theorem lowered_memberRoutines (hz : z.Final) : (rs : List RoutineDef) → {isStatic : Bool} →
    (∀ r ∈ rs, MemberFills z isStatic r) → (o : Output) →
      Completes o ((memberRoutines z rs).run o).2
  | [], _, h, o => by
    rw [run_memberRoutines_nil]
    exact ⟨Nat.le_refl _, fun _ => Or.inl⟩
  | r :: rs, _, h, o => by
    rw [List.forall_mem_cons] at h
    rw [run_memberRoutines_cons]
    cases h.1 with
    | mk _ _ _ hr =>
      exact (lowered_memberRoutine hz r hr o).trans (lowered_memberRoutines hz rs h.2 _)

end

/-! ## The method that runs a program -/

/-- Every predefined routine is made in its slot. -/
theorem fills_makePredefined {xs : List (String × TypeId)} {U : Set Nat}
    (hU : ∀ k ∈ U, k ∈ V ∨ ∃ x ∈ xs, ∃ b,
      (z.scopes.get Scopes.rootId).binding? x.1 = some b ∧ b.slot = some k)
    (hxs : ∀ b ∈ (z.scopes.get Scopes.rootId).entries, ∀ k, b.slot = some k → k < N)
    (hN : ∀ k ∈ V, k < N) (F : Label → Set Nat) : Fills F N V (makePredefined z xs).code U := by
  induction xs generalizing V with
  | nil => exact fun k hk => (hU k hk).resolve_right fun ⟨x, hx, _⟩ => List.not_mem_nil hx
  | cons x xs ih =>
    obtain ⟨name, type⟩ := x
    rw [makePredefined, Fragment.code_append]
    cases hslot : (z.scopes.get Scopes.rootId).binding? name |>.bind (·.slot) with
    | none =>
      refine Fills.append (Set.Subset.refl V) (ih (fun k hk => (hU k hk).imp_right ?_) hN)
      rintro ⟨y, hy, b, hb, hk⟩
      refine ⟨y, (List.mem_cons.mp hy).resolve_left ?_, b, hb, hk⟩
      rintro rfl
      rw [hb, Option.bind_some, hk] at hslot
      exact absurd hslot (by simp)
    | some j =>
      obtain ⟨b', hb', hj⟩ := Option.bind_eq_some_iff.mp hslot
      have hlt := hxs b' (List.mem_of_find?_eq_some hb') j hj
      refine (fills_default type hN hlt).append (ih (fun k hk => ?_) (below_insert hN hlt))
      rcases hU k hk with hk | ⟨y, hy, b, hb, hk⟩
      · exact Or.inl (Set.mem_insert_of_mem j hk)
      · rcases List.mem_cons.mp hy with rfl | hy
        · obtain rfl := Option.some.inj (hb.symm.trans hb')
          exact Or.inl (Option.some.inj (hk.symm.trans hj) ▸ Set.mem_insert k V)
        · exact Or.inr ⟨y, hy, b, hb, hk⟩

/-- What a program starts with is made by the code in front of its body. -/
theorem fills_predefined (hz : z.Final) {a : Analysis} (ha : a.scopes.Sound)
    (h : a.OnlyDeclares Predefined.routines) (hg : a.scopes.Extends z.scopes) (F : Label → Set Nat) :
    Fills F (z.scopes.get Scopes.rootId).numLocals {0} (makePredefined z Predefined.routines).code
      (a.scopes.filled Scopes.rootId) := by
  have hroot := hz.sound.scopes.root_kind
  have howner : z.scopes.owningMethod Scopes.rootId = Scopes.rootId :=
    Scopes.owningMethod_of_owns (by rw [hroot]; rfl)
  refine fills_makePredefined (fun k hk => ?_) (fun b hb k hk => ?_) (fun k hk => ?_) F
  · rw [ha.filled_of_owns (by rw [ha.root_kind]; rfl), ha.root_kind] at hk
    rcases hk with hk | ⟨b, hb, hk⟩
    · exact Or.inl (Nat.lt_one_iff.mp hk)
    · obtain ⟨⟨x, hx, hname⟩, hfind⟩ := h b hb
      obtain ⟨bs, hbs⟩ := hg.entries Scopes.rootId ha.root_has
      refine Or.inr ⟨x, hx, b, ?_, hk⟩
      rw [← hname, Scope.binding?, ← hbs, List.find?_append]
      exact congrArg (Option.or · _) hfind
  · have hlt := hz.laid.below Scopes.rootId k ⟨b, hb, hk⟩
    rwa [Scopes.numLocals, howner] at hlt
  · have hle := hz.laid.reserved Scopes.rootId hz.sound.scopes.root_has
    rw [hroot] at hle
    rw [Set.mem_singleton_iff.mp hk]
    exact hle

/-- The class that runs a program. -/
theorem localSafe_mainClass (hz : z.Final) (program : String) {F : Label → Set Nat}
    {code : List Instruction}
    (hcode : Fills F (z.scopes.get Scopes.rootId).numLocals {0} code V') :
    ∀ m ∈ (mainClass z program code).methods, LocalSafe m := by
  have hroot := hz.sound.scopes.root_kind
  refine List.forall_mem_cons.mpr ⟨localSafe_plainConstructor _, List.forall_mem_singleton.mpr ?_⟩
  refine localSafe_assemble hcode (fun k hk => ?_) (foldl_max_ge _ _)
    (nodup_vars hz.laid (by rw [hroot]; rfl) (by rw [hroot]; rfl) _ _)
  rw [mem_argumentSlots_static (List.forall_mem_singleton.mpr (by decide))]
  exact Nat.lt_one_iff.mpr hk

/-! ## Arguments -/

variable {r : RoutineDef}

mutual

/-- The rules are about every routine of a tree. -/
theorem routineFills_stmt : (x : Stmt) → {N : Nat} → {V V' : Set Nat} → StmtFills z N V x V' →
    .routine r ∈ x.parts → RoutineFills z r
  | .declare _, _, _, _, _, hr => absurd (List.mem_singleton.mp hr) (by simp)
  | .define d, _, _, _, _, hr => by
    rw [Stmt.parts, List.mem_cons] at hr
    exact absurd (d.value.isValue_of_mem_parts (hr.resolve_left (by simp))) Bool.false_ne_true
  | .assign x, _, _, _, _, hr => by
    rw [Stmt.parts, Chain.parts, List.cons_append, List.mem_cons, List.mem_cons,
      List.mem_append] at hr
    rcases (hr.resolve_left (by simp)).resolve_left (by simp) with hr | hr
    · exact absurd (x.target.isValue_of_mem_linkParts hr) Bool.false_ne_true
    · exact absurd (x.value.isValue_of_mem_parts hr) Bool.false_ne_true
  | .call c, _, _, _, _, hr => by
    rw [Stmt.parts, Chain.parts, List.mem_cons] at hr
    exact absurd (c.isValue_of_mem_linkParts (hr.resolve_left (by simp))) Bool.false_ne_true
  | .branch gs otherwise _, _, _, _, h, hr => by
    rw [Stmt.parts, List.mem_append] at hr
    cases h with
    | branch hgs he => exact hr.elim (routineFills_branches gs hgs) (routineFills_else otherwise he)
  | .loop g, _, _, _, h, hr => by
    cases h with
    | loop hg => exact routineFills_guarded g hg hr
  | .routine x, _, _, _, h, hr => by
    cases h with
    | routine _ _ _ _ _ h => exact routineFills_routine x h hr
  | .type ⟨_, _, _, fields, statics, routines, staticRoutines, _⟩, _, _, _, h, hr => by
    rw [Stmt.parts, TypeDef.parts, List.mem_cons, List.mem_append, List.mem_append,
      List.mem_append] at hr
    cases h with
    | type _ _ _ hroutines hstatics =>
      rcases hr.resolve_left (by simp) with ((hr | hr) | hr) | hr
      · obtain ⟨d, -, hd⟩ := List.mem_map.mp hr
        exact absurd hd (by simp)
      · obtain ⟨x, -, hx⟩ := List.mem_flatMap.mp hr
        rw [StaticField.parts, List.mem_cons] at hx
        exact absurd (x.init.isValue_of_mem_parts (hx.resolve_left (by simp))) Bool.false_ne_true
      · exact routineFills_members routines hroutines hr
      · exact routineFills_members staticRoutines hstatics hr

theorem routineFills_guarded : (g : Guarded) → {N : Nat} → {V : Set Nat} → GuardedFills z N V g →
    .routine r ∈ g.parts → RoutineFills z r
  | ⟨_, condition, body, _⟩, _, _, h, hr => by
    rw [Guarded.parts, List.mem_cons, List.mem_append] at hr
    cases h with
    | mk _ hb =>
      rcases hr.resolve_left (by simp) with hr | hr
      · exact absurd (condition.isValue_of_mem_parts hr) Bool.false_ne_true
      · exact routineFills_stmts body hb hr

theorem routineFills_else : (e : Else) → {N : Nat} → {V : Set Nat} → ElseFills z N V e →
    .routine r ∈ e.parts → RoutineFills z r
  | .absent, _, _, _, hr => absurd hr List.not_mem_nil
  | .block _ body _, _, _, h, hr => by
    rw [Else.parts, List.mem_cons] at hr
    cases h with
    | block hb => exact routineFills_stmts body hb (hr.resolve_left (by simp))

theorem routineFills_routine : (x : RoutineDef) → RoutineFills z x → .routine r ∈ x.parts →
    RoutineFills z r
  | ⟨_, _, _, _, _, body, _, _⟩, h, hr => by
    rw [RoutineDef.parts, List.mem_cons, List.mem_append] at hr
    rcases hr with hr | hr | hr
    · exact Part.routine.inj hr ▸ h
    · cases h with
      | mk _ _ hb => exact routineFills_stmts body hb hr
    · exact absurd (ReturnClause.isValue_of_mem_optParts hr) Bool.false_ne_true

theorem routineFills_stmts : (xs : List Stmt) → {N : Nat} → {V V' : Set Nat} →
    StmtsFills z N V xs V' → .routine r ∈ Stmt.allParts xs → RoutineFills z r
  | [], _, _, _, _, hr => absurd hr List.not_mem_nil
  | x :: xs, _, _, _, h, hr => by
    rw [Stmt.allParts, List.mem_append] at hr
    cases h with
    | cons hx hxs => exact hr.elim (routineFills_stmt x hx) (routineFills_stmts xs hxs)

theorem routineFills_branches : (gs : List Guarded) → {N : Nat} → {V : Set Nat} →
    (∀ g ∈ gs, GuardedFills z N V g) → .routine r ∈ Guarded.allParts gs → RoutineFills z r
  | [], _, _, _, hr => absurd hr List.not_mem_nil
  | g :: gs, _, _, h, hr => by
    rw [Guarded.allParts, List.mem_append] at hr
    rw [List.forall_mem_cons] at h
    exact hr.elim (routineFills_guarded g h.1) (routineFills_branches gs h.2)

theorem routineFills_members : (rs : List RoutineDef) → {isStatic : Bool} →
    (∀ r ∈ rs, MemberFills z isStatic r) → .routine r ∈ RoutineDef.allParts rs → RoutineFills z r
  | [], _, _, hr => absurd hr List.not_mem_nil
  | x :: xs, _, h, hr => by
    rw [RoutineDef.allParts, List.mem_append] at hr
    rw [List.forall_mem_cons] at h
    cases h.1 with
    | mk _ _ _ hx => exact hr.elim (routineFills_routine x hx) (routineFills_members xs h.2)

end

/-- Parameter `i` of a routine is in slot `i + 1` of its call method: that is where the
caller leaves the argument, and what the parameter's name stands for in the body. -/
structure ParamsPlaced (z : Analysis) (r : RoutineDef) (f : RoutineFinding) (m : Method) :
    Prop where
  length : f.signature.params.length = r.params.length
  descriptor : m.descriptor.params = f.signature.params.map z.types.descriptor
  arguments : ∀ i < r.params.length, m.argumentSlots[i + 1]? = some (i + 1)
  declared : ∀ i p type, r.params[i]? = some p → f.signature.params[i]? = some type →
    { name := p.name.name, type, role := .param, slot := some (i + 1) } ∈
      (z.scopes.get f.scope).entries
  named : ∀ i p type, r.params[i]? = some p → f.signature.params[i]? = some type →
    ⟨i + 1, p.name.name, z.types.descriptor type⟩ ∈ m.vars

/-- A slot has its name in the method that its scope belongs to. -/
theorem mem_localVars {s o : ScopeId} {b : Binding} {k : Nat} (hs : s ∈ z.scopes.methodPath o)
    (hb : b ∈ (z.scopes.get o).entries) (hk : b.slot = some k) :
    ⟨k, b.name, z.types.descriptor b.type⟩ ∈ localVars z s := by
  have hlocal := Scopes.mem_methodLocals.mpr ⟨o, Scopes.has_of_mem_entries hb, hs, hb,
    Option.isSome_iff_exists.mpr ⟨k, hk⟩⟩
  refine List.mem_filterMap.mpr ⟨b, hlocal, ?_⟩
  rw [hk]
  rfl

/-- The call method of a routine's class has the parameters in their places. -/
theorem paramsPlaced_routineClass (h : RoutineFills z r) {f : RoutineFinding}
    (hf : z.findings.routines.find? r.node = some f) (code : List Instruction) :
    ∃ m ∈ (routineClass z f code).methods, m.name = Reserved.call ∧ ParamsPlaced z r f m := by
  cases h with
  | @mk node name closing params result body ret span f' V V' record start _ _ =>
    obtain rfl : f = f' := Option.some.inj (hf.symm.trans record)
    refine ⟨_, List.mem_append_right _ (List.mem_singleton_self _), rfl, ?_⟩
    have hdeclared : ∀ i p type, params[i]? = some p → f.signature.params[i]? = some type →
        { name := p.name.name, type, role := .param, slot := some (i + 1) } ∈
          (z.scopes.get f.scope).entries := fun i p type hp ht => by
      rw [Nat.add_comm]
      exact start.entries.subset (Analysis.getElem?_paramBindings
        (List.getElem?_zip_eq_some.mpr ⟨hp, ht⟩))
    refine ⟨start.length, rfl, fun i hi => ?_, hdeclared, fun i p type hp ht =>
      List.mem_mergeSort.mpr (List.mem_append_left _
        (mem_localVars (Scopes.mem_methodPath_self _ _) (hdeclared i p type hp ht) rfl))⟩
    show (0 :: Descriptor.slotsFrom 1 (f.signature.params.map z.types.descriptor))[i + 1]? = _
    rw [Descriptor.slotsFrom_eq_range' (List.forall_mem_map.mpr fun _ _ => cells_descriptor _ _),
      List.length_map, start.length, List.getElem?_cons_succ, List.getElem?_range' hi]
    exact congrArg some (by omega)

/-! ## Whole programs -/

section

variable (program : String) {q : Program} (hq : q.nodes.Nodup)
  (h : (analyze program q).errors = []) (labels : Nat)

include hq h

/-- The method that runs an accepted program, read in order: it makes the predefined
routines, and then its body reads what is filled. -/
theorem lowered_main : ∃ (F : Label → Set Nat) (V : Set Nat),
    Fills F ((analyze program q).scopes.get Scopes.rootId).numLocals {0}
      ((makePredefined (analyze program q) Predefined.routines).code ++
        (mainBody (analyze program q) program q labels).1 ++ [.returnNothing]) V ∧
    ∀ c ∈ (mainBody (analyze program q) program q labels).2.classes, ∀ m ∈ c.methods,
      LocalSafe m := by
  have hz := Analysis.final_analyze program hq h
  obtain ⟨V, hfills⟩ := Analysis.fills_analyze program hq h
  have hwf := (Analysis.sound_initial program).scopes.toWF
  have hroot := (Analysis.sound_initial program).scopes.root_has
  have hgrows := (Analysis.outcome_analyze program q).walk.grows.scopes
  have hpredefined := fills_predefined hz (Analysis.sound_initial program).scopes
    (Analysis.onlyDeclares_initial program) hgrows
  have hbelow := fun k hk => hz.laid.filled_lt hz.sound.scopes.toWF hz.sound.scopes.root_has k
    (hgrows.filled_subset hwf hz.sound.scopes.toWF hroot hk)
  rw [Scopes.numLocals, Scopes.owningMethod_of_owns (by rw [hz.sound.scopes.root_kind]; rfl)]
    at hbelow
  have hsite : (mainSite program).Holds ((Analysis.initial program).scopes.filled Scopes.rootId) :=
    fun hs => absurd hs (by simp [mainSite])
  have hbody := lowered_stmts hz q.stmts hfills hsite hbelow
    { labels, gaps := (makePredefined (analyze program q) Predefined.routines).gaps }
  obtain ⟨F, -, hF⟩ := hbody.filling.fills (fun _ => ∅) (List.forall_mem_nil _)
  refine ⟨F, V, ((hpredefined F).append hF).append ⟨trivial, Set.subset_univ V⟩, fun c hc => ?_⟩
  exact (hbody.completes.classes c hc).resolve_left List.not_mem_nil

/-- Every method of an accepted program uses its local slots safely: on each way through
it, it reads only arguments and what was stored before, within its limit, and no two
variables share a slot.  The parameters of every routine are where its call method gets
them. -/
theorem locals_safe :
    (∀ c ∈ (generate (analyze program q) program q labels).classes, ∀ m ∈ c.methods,
      LocalSafe m) ∧
    ∀ r, .routine r ∈ q.parts →
      ∃ f, (analyze program q).findings.routines.find? r.node = some f ∧
        ∃ c ∈ (generate (analyze program q) program q labels).classes,
          c.path = (analyze program q).units.path f.unit ∧
            ∃ m ∈ c.methods, m.name = Reserved.call ∧ ParamsPlaced (analyze program q) r f m := by
  refine ⟨fun c hc => ?_, fun r hr => ?_⟩
  · obtain ⟨F, V, hmain, hclasses⟩ := lowered_main program hq h labels
    obtain ⟨base, ds, heq⟩ := classes_generate (analyze program q) program q labels
    rw [heq, List.mem_cons, List.mem_append, List.mem_singleton] at hc
    rcases hc with rfl | hc | rfl
    · exact localSafe_mainClass (Analysis.final_analyze program hq h) program hmain
    · exact hclasses c hc
    · exact localSafe_baseClass base ds
  · obtain ⟨c, hc, f, o, hf, rfl⟩ := exists_class program hq h labels hr
    obtain ⟨V, hfills⟩ := Analysis.fills_analyze program hq h
    obtain ⟨m, hm, hname, hplaced⟩ :=
      paramsPlaced_routineClass (routineFills_stmts q.stmts hfills hr) hf _
    exact ⟨f, hf, _, hc, path_routineClass f _, m, hm, hname, hplaced⟩

end

theorem locals_safe_nested :
    (∀ c ∈ (generate (analyze "demo" nested) "demo" nested 0).classes, ∀ m ∈ c.methods,
      LocalSafe m) ∧
    ∀ r, .routine r ∈ nested.parts →
      ∃ f, (analyze "demo" nested).findings.routines.find? r.node = some f ∧
        ∃ c ∈ (generate (analyze "demo" nested) "demo" nested 0).classes,
          c.path = (analyze "demo" nested).units.path f.unit ∧
            ∃ m ∈ c.methods, m.name = Reserved.call ∧
              ParamsPlaced (analyze "demo" nested) r f m :=
  locals_safe "demo" nodup_nested Analysis.errors_nested 0

end Lowering

end Unnest
