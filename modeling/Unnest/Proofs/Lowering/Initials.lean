import Unnest.Proofs.Lowering.Evaluated

/-!
# Initial values of several names

A declaration can give one initial value to several names.  Its code evaluates the value once,
whatever the number of names, and writes each of their places once and in order.  This is so for
the slots of local names and for static fields, and for both modes of writing
(`initials_emitted`).

Where the type copies, every place first gets an object of the declared type, and the assignment
routine is called on that object.  The first call takes the value, as the routine that was looked
up for it does.  The other calls take what the first place holds, and that is a value of the
declared type.  They are calls of the same routine all the same, so they fit exactly if the
declared type fits where the type of the value is asked for (`copies_fit_iff`).  A routine that
makes a `P` of an `integer` fits for one name, and for no second one (`copies_misfit`).
-/

namespace Unnest

open Code

namespace Lowering

variable {z : Analysis} {F : Frame} {site : Site} {s : ScopeId} {type t : TypeId} {r : Signature}
  {value : Fragment} {p first : Place} {ps rest : List Place}

/-! ## Writes -/

theorem filter_isWrite_of_isPure {c : List Instruction} (h : IsPure c) :
    c.filter (·.isWrite) = [] :=
  List.filter_eq_nil_iff.mpr fun i hi => by
    rw [Instruction.isWrite_of_isPure (h i hi)]
    exact Bool.false_ne_true

/-- A place for values of a type: one instruction writes such a value to it, and another reads
it back. -/
structure Place.Suits (z : Analysis) (F : Frame) (type : TypeId) (p : Place) : Prop where
  isWrite : p.write.isWrite = true
  isPlain : p.write.isPlain = true
  isPure : p.read.isPure = true
  write : F.step [z.types.descriptor type] p.write = some []
  read : F.step [] p.read = some [z.types.descriptor type]

theorem suits_slot {k : Nat} (h : F.slot? k = some (z.types.descriptor type)) :
    (Place.slot k).Suits z F type := by
  refine ⟨rfl, rfl, rfl, ?_, ?_⟩
  · rw [Place.slot, Frame.step, h, Option.bind_some]
    exact Frame.take_of_fit (F.fit_self [z.types.descriptor type]) []
  · rw [Place.slot, Frame.step, h, Option.map_some]

variable (site) in
theorem suits_staticField (b : Binding) :
    (Place.staticField (capturedField z site b)).Suits z F b.type := by
  refine ⟨rfl, rfl, rfl, ?_, ?_⟩ <;>
    rw [Place.staticField, Frame.step, capturedField, valueCells_descriptor]
  · exact Frame.take_of_fit (F.fit_self [z.types.descriptor b.type]) []
  · rfl

theorem filter_isWrite_copyInto (hv : value.IsPure) (hp : p.Suits z F type) :
    (copyInto z type r value p).code.filter (·.isWrite) = [p.write] := by
  have hread := Instruction.isWrite_of_isPure hp.isPure
  rw [copyInto, Fragment.code_append, Fragment.code_ofList, List.filter_append,
    List.filter_append, filter_isWrite_of_isPure (isPure_callRoutine z type r false hv),
    filter_isWrite_of_isPure (isPure_defaultValue z type)]
  simp [hp.isWrite, hread]

theorem filter_isWrite_concat (hv : value.IsPure) (hp : ∀ p ∈ ps, p.Suits z F type) :
    (Fragment.concat (ps.map (copyInto z type r value))).code.filter (·.isWrite) =
      ps.map (·.write) := by
  induction ps with
  | nil => rfl
  | cons p ps ih =>
    rw [List.forall_mem_cons] at hp
    rw [List.map_cons, Fragment.concat, Fragment.code_append, List.filter_append,
      filter_isWrite_copyInto hv hp.1, ih hp.2]
    rfl

/-- Every place is written once, and the places are written in order. -/
theorem filter_isWrite_initPlaces {mode : WriteMode} (hv : value.IsPure)
    (hp : ∀ p ∈ ps, p.Suits z F type) :
    (initPlaces z type mode value ps).code.filter (·.isWrite) = ps.map (·.write) := by
  cases ps with
  | nil => rfl
  | cons first rest =>
    obtain ⟨hfirst, hrest⟩ := List.forall_mem_cons.mp hp
    cases mode with
    | copy r =>
      have hread : (Fragment.ofList [first.read]).IsPure :=
        isPure_cons.mpr ⟨hfirst.isPure, isPure_nil⟩
      rw [initPlaces, Fragment.code_append, List.filter_append, filter_isWrite_concat hread hrest,
        filter_isWrite_copyInto hv hfirst]
      rfl
    | store =>
      have hdups : (rest.map fun _ => Instruction.dup).filter (·.isWrite) = [] :=
        List.filter_eq_nil_iff.mpr <| List.forall_mem_map.mpr fun _ _ => Bool.false_ne_true
      have hwrites : ((first :: rest).map (·.write)).filter (·.isWrite) =
          (first :: rest).map (·.write) :=
        List.filter_eq_self.mpr <| List.forall_mem_map.mpr fun p hm => (hp p hm).isWrite
      rw [initPlaces, Fragment.code_append, Fragment.code_append, List.filter_append,
        List.filter_append, filter_isWrite_of_isPure hv, Fragment.code_ofList, hdups,
        Fragment.code_ofList, hwrites]
      rfl

/-! ## Copies -/

/-- The copies of an initial value, one for each place: the first one is of the value, and the
others are of what the first place holds. -/
def copies (z : Analysis) (type : TypeId) (r : Signature) (value : Fragment) :
    List Place → List Fragment
  | [] => []
  | first :: rest =>
    copyInto z type r value first :: rest.map (copyInto z type r (.ofList [first.read]))

theorem initPlaces_copy (ps : List Place) :
    initPlaces z type (.copy r) value ps = .concat (copies z type r value ps) := by
  cases ps <;> rfl

/-- Values of routine types have no assignment routine. -/
theorem form_ne_of_offers {name : String} {ts : List TypeId} (h : z.Offers type false name ts r)
    (hname : name ≠ Reserved.call) : z.types.form type ≠ .routine := by
  obtain ⟨t, ht, hx, hlookup⟩ := h
  rw [hx.form type (TypeTable.lookup_spec hlookup).1]
  exact fun hform => hname (ht.name_of_lookup hlookup hform)

/-- A place that is written to for the first time holds a new object, on which the routine is
called. -/
theorem walk_fresh (hform : z.types.form type ≠ .routine) (hp : p.Suits z F type) :
    F.walk (defaultValue z type ++ [p.write, p.read]) [] = some [z.types.descriptor type] := by
  have hmake : F.walk (defaultValue z type) [] = some [z.types.descriptor type] := by
    unfold defaultValue
    split
    · exact absurd ‹_› hform
    all_goals exact walk_makeObject _
  exact Frame.walk_two hmake (Frame.walk_two (Frame.walk_single hp.write)
    (Frame.walk_single hp.read))

/-! ### What calls take -/

theorem fits_of_take {c d : String} {ds : List String} {σ ρ : Cells}
    (h : F.take (d :: ds) (c :: σ) = some ρ) : F.fits c d = true := by
  rw [Frame.take] at h
  split at h
  · assumption
  · exact absurd h (by simp)

theorem eq_of_walk_getField {c : String} {f : FieldRef} {ρ : Cells}
    (h : F.walk [.getField f] [c] = some ρ) : ρ = Descriptor.valueCells f.descriptor := by
  have hc : F.fits c (TypeTable.classDescriptor f.owner) = true := by
    rw [Frame.walk_cons, Frame.step, Option.bind_eq_some_iff] at h
    obtain ⟨_, hstep, -⟩ := h
    obtain ⟨_, htake, -⟩ := Option.map_eq_some_iff.mp hstep
    exact fits_of_take htake
  exact Option.some.inj (h.symm.trans (walk_getField hc))

section Calls

variable {c d : String} {ρ : Cells} (h : z.Offers type false Reserved.assignment [t] r)

include h

/-- The call goes through only if its argument fits. -/
theorem fits_of_walk_invokeVirtual {path method : String} (hv : F.walk value.code [] = some [d])
    (hcall : F.walk (value.code ++ [.invokeVirtual ⟨path, method, descriptorOf z r⟩]) [c] =
      some ρ) : F.fits d (z.types.descriptor t) = true := by
  have hargs : F.walk value.code [c] = some [d, c] := Frame.walk_raise hv [c]
  rw [Frame.walk_append, hargs, Option.bind_some, Frame.walk_cons, Frame.step,
    argumentCells_descriptorOf, descriptors_of_offer h] at hcall
  obtain ⟨_, hstep, -⟩ := Option.bind_eq_some_iff.mp hcall
  obtain ⟨_, htake, -⟩ := Option.map_eq_some_iff.mp hstep
  exact fits_of_take htake

theorem fits_of_walk_callRoutine (hv : F.walk value.code [] = some [d])
    (hcall : F.walk (callRoutine z type r false value).code [c] = some ρ) :
    F.fits d (z.types.descriptor t) = true := by
  rw [callRoutine] at hcall
  dsimp only at hcall
  cases hform : z.types.form type with
  | library | builtin | routine =>
    rw [hform] at hcall
    exact fits_of_walk_invokeVirtual h hv hcall
  | user =>
    -- The routine is a field of the receiver, and its value takes the place of the receiver.
    rw [hform] at hcall
    simp only [Fragment.code_append, Fragment.code_ofList, List.append_assoc] at hcall
    rw [Frame.walk_append, Option.bind_eq_some_iff] at hcall
    obtain ⟨τ, hget, hcall⟩ := hcall
    rw [eq_of_walk_getField hget, valueCells_classDescriptor] at hcall
    exact fits_of_walk_invokeVirtual h hv hcall

theorem copyInto_walks (hp : p.Suits z F type) (hv : GivesAll z F value.code [t]) :
    F.walk (copyInto z type r value p).code [] = some (r.result.map z.types.descriptor).toList :=
  Frame.walk_two (walk_fresh (form_ne_of_offers h (by decide)) hp)
    (callRoutine_walks h hv (Frame.fits_self F _))

/-- A copy of a value goes through exactly if the value fits where the routine takes one. -/
theorem copyInto_walks_iff (hp : p.Suits z F type) (hv : F.walk value.code [] = some [d]) :
    (∃ ρ, Pushes F (copyInto z type r value p).code ρ) ↔
      F.fits d (z.types.descriptor t) = true := by
  have hfresh := walk_fresh (form_ne_of_offers h (by decide)) hp
  constructor
  · rintro ⟨ρ, hpushes⟩
    have hwalk := hpushes.ends []
    rw [copyInto, Fragment.code_append, Fragment.code_ofList, Frame.walk_append, hfresh] at hwalk
    exact fits_of_walk_callRoutine h hv hwalk
  · exact fun hfits => ⟨_, pushes_of_walk (copyInto_walks h hp ⟨[d], hv, .cons hfits .nil⟩)⟩

/-- The copies go through one by one: the first one always, and each of the others exactly if a
value of the declared type fits where the routine takes the value. -/
theorem copies_fit_iff (hp : ∀ p ∈ ps, p.Suits z F type) (hv : Gives z F value.code (some t))
    {i : Nat} {copy : Fragment} (hi : (copies z type r value ps)[i]? = some copy) :
    (∃ ρ, Pushes F copy.code ρ) ↔
      i = 0 ∨ F.fits (z.types.descriptor type) (z.types.descriptor t) = true := by
  cases ps with
  | nil => exact absurd hi (by simp [copies])
  | cons first rest =>
    obtain ⟨hfirst, hrest⟩ := List.forall_mem_cons.mp hp
    cases i with
    | zero =>
      obtain rfl := Option.some.inj hi
      exact iff_of_true ⟨_, pushes_of_walk (copyInto_walks h hfirst hv.single)⟩ (Or.inl rfl)
    | succ i =>
      rw [copies, List.getElem?_cons_succ, List.getElem?_map, Option.map_eq_some_iff] at hi
      obtain ⟨p, hi, rfl⟩ := hi
      rw [copyInto_walks_iff h (hrest p (List.mem_of_getElem? hi)) (Frame.walk_single hfirst.read)]
      simp

end Calls

/-! ## Names -/

/-- The copies of a value of the type `t`, one for each place. -/
structure CopiedTo (z : Analysis) (F : Frame) (type t : TypeId) (r : Signature) (value : Fragment)
    (ps : List Place) : Prop where
  code : initPlaces z type (.copy r) value ps = .concat (copies z type r value ps)
  takes : r.params.map z.types.descriptor = [z.types.descriptor t]
  receivers : ∀ p ∈ ps,
    Pushes F (defaultValue z type ++ [p.write, p.read]) [z.types.descriptor type]
  calls : ∀ i copy, (copies z type r value ps)[i]? = some copy →
    ((∃ ρ, Pushes F copy.code ρ) ↔
      i = 0 ∨ F.fits (z.types.descriptor type) (z.types.descriptor t) = true)

/-- The code that gives places of a type a value of the type `t`. -/
structure GivenTo (z : Analysis) (F : Frame) (type t : TypeId) (mode : WriteMode)
    (value : Fragment) (ps : List Place) : Prop where
  plain : (initPlaces z type mode value ps).IsPlain
  once : ∃ before after, ∀ v : Fragment,
    (initPlaces z type mode v ps).code = before ++ v.code ++ after
  writes : (initPlaces z type mode value ps).code.filter (·.isWrite) = ps.map (·.write)
  distinct : (ps.map (·.write)).Nodup
  copied : ∀ r, mode = .copy r → CopiedTo z F type t r value ps

theorem givenTo_of_writes {mode : WriteMode} (h : z.Writes type t mode)
    (hv : Gives z F value.code (some t)) (hpure : value.IsPure) (hne : ps ≠ [])
    (hp : ∀ p ∈ ps, p.Suits z F type) (hdistinct : (ps.map (·.write)).Nodup) :
    GivenTo z F type t mode value ps := by
  obtain ⟨first, rest, rfl⟩ := List.exists_cons_of_ne_nil hne
  refine ⟨?_, code_initPlaces type mode first rest, filter_isWrite_initPlaces hpure hp, hdistinct,
    ?_⟩
  · exact isPlain_initPlaces z type mode hpure (fun p hm => (hp p hm).isPure)
      fun p hm => (hp p hm).isPlain
  · rintro r rfl
    have hform := form_ne_of_offers h (by decide)
    exact ⟨initPlaces_copy _, descriptors_of_offer h,
      fun p hm => pushes_of_walk (walk_fresh hform (hp p hm)),
      fun i copy hi => copies_fit_iff h hp hv hi⟩

/-- In a method of one of the classes, the names of a declaration are given their initial value
at these places. -/
structure NamesGiven (z : Analysis) (program : String) (cs : List ClassFile) (node : NodeId)
    (names : List Ident) (value : Expr) (code : List Instruction) (f : DeclFinding) (site : Site)
    (ps : List Place) : Prop where
  record : z.findings.decls.find? node = some f
  names : f.bindings.map (·.name) = names.map (·.name)
  typed : ∀ b ∈ f.bindings, b.type = f.type
  emitted : ∃ m mode t, MethodAt z program cs site m ∧ code <:+: m.code ∧ f.mode = some mode ∧
    z.findings.exprTypes.find? value.node = some t ∧
    code = (initPlaces z f.type mode (expr z site value) ps).code ∧
    GivenTo z (frame z m) f.type t mode (expr z site value) ps

section Done

variable {s v : ScopeId} {node : NodeId} {names : List Ident} {e : Expr} {f : DeclFinding}
  {mode : WriteMode}

theorem namesGiven_of_done {program : String} {cs : List ClassFile} {m : Method}
    {code : List Instruction} (hz : z.scopes.Sound) (hm : MethodAt z program cs site m)
    (hs : Furnishes z (frame z m) site v) (h : z.InitDone s v node names e f mode)
    (hcode : code = (initPlaces z f.type mode (expr z site e) ps).code) (hwithin : code <:+: m.code)
    (hne : ps ≠ []) (hp : ∀ p ∈ ps, p.Suits z (frame z m) f.type)
    (hdistinct : (ps.map (·.write)).Nodup) :
    NamesGiven z program cs node names e code f site ps := by
  obtain ⟨t, hvalue, hwrites⟩ := h.value
  have hgives := expr_gives hz hs e hvalue
  exact ⟨h.record, h.names.names_eq, h.names.typed, m, mode, t, hm, hwithin, h.mode_eq,
    hvalue.record, hcode,
    givenTo_of_writes hwrites hgives (isPure_expr z site e) hne hp hdistinct⟩

/-- The slots of the names of a local definition differ. -/
theorem nodup_slots (hl : z.scopes.Laid) (h : z.InitDone s v node names e f mode) {ks : List Nat}
    (hks : f.bindings.map (·.slot) = ks.map some) : ks.Nodup := by
  have hslots : (f.bindings.map (·.slot)).Nodup := by
    refine (List.Nodup.of_map _ h.names.distinct).map_on fun b hb b' hb' heq => ?_
    obtain ⟨k, -, hk⟩ := List.mem_map.mp (hks ▸ List.mem_map_of_mem hb)
    exact hl.eq_of_slot (h.names.declared b hb) (h.names.declared b' hb') hk.symm
      (heq.symm.trans hk.symm)
  exact List.Nodup.of_map _ (hks ▸ hslots)

variable (site) in
/-- The static fields of different names differ. -/
theorem nodup_staticFields (h : z.InitDone s v node names e f mode) :
    (f.bindings.map fun b => Instruction.putStatic (capturedField z site b)).Nodup := by
  refine List.pairwise_map.mpr ((List.pairwise_map.mp h.names.distinct).imp fun hne heq => hne ?_)
  exact congrArg FieldRef.name (Instruction.putStatic.inj heq)

end Done

/-! ## Whole programs -/

section

variable (program : String) {q : Program} (hq : q.nodes.Nodup)
  (h : (analyze program q).errors = []) (labels : Nat)

include hq h

theorem namesGiven_define {d : InitDecl} (hd : .define d ∈ q.parts) (hne : d.names ≠ []) :
    ∃ f site, ∃ ks : List Nat, f.bindings.map (·.slot) = ks.map some ∧
      NamesGiven (analyze program q) program
        (generate (analyze program q) program q labels).classes d.node d.names d.value
        (initDecl (analyze program q) site d).code f site (ks.map .slot) := by
  have hz := Analysis.final_analyze program hq h
  obtain ⟨site, m, hm, s, hbody, ⟨f, mode, hdone⟩, hs, hwithin⟩ :=
    hosted_generate program hq h labels _ hd
  obtain ⟨ks, hks, hcode⟩ := initDecl_eq site hz.sound.scopes hbody hdone
  refine ⟨f, site, ks, hks, namesGiven_of_done hz.sound.scopes hm hs hdone
    (congrArg Fragment.code hcode) hwithin (fun hnil => ?_)
    (List.forall_mem_map.mpr fun k hk => ?_) ?_⟩
  · rw [List.map_eq_nil_iff.mp hnil, List.map_nil, List.map_eq_nil_iff] at hks
    exact bindings_ne_nil hdone.names hne hks
  · obtain ⟨b, hb, hslot⟩ := List.mem_map.mp (hks ▸ List.mem_map_of_mem hk)
    rw [← hdone.names.typed b hb]
    exact suits_slot (hs.slots s rfl b (hdone.names.declared b hb) k hslot)
  · rw [List.map_map]
    exact (nodup_slots hz.laid hdone hks).map fun _ _ => Instruction.store.inj

theorem namesGiven_staticField {x : StaticField} (hx : .staticField x ∈ q.parts)
    (hne : x.decl.names ≠ []) : ∃ f, ∃ g : TypeFinding, NamesGiven (analyze program q) program
      (generate (analyze program q) program q labels).classes x.decl.node x.decl.names x.init
      (staticField (analyze program q) (staticSite (analyze program q) g) x).code f
      (staticSite (analyze program q) g)
      (f.bindings.map fun b => .staticField (memberField (analyze program q) g.type b)) := by
  have hz := Analysis.final_analyze program hq h
  obtain ⟨_, m, hm, g, rfl, ⟨f, mode, hdone⟩, hs, hwithin⟩ :=
    hosted_generate program hq h labels _ hx
  refine ⟨f, g, namesGiven_of_done hz.sound.scopes hm hs hdone
    (congrArg Fragment.code (staticField_eq hdone)) hwithin (fun hnil => ?_)
    (List.forall_mem_map.mpr fun b hb => ?_) ?_⟩
  · exact bindings_ne_nil hdone.names hne (List.map_eq_nil_iff.mp hnil)
  · rw [← hdone.names.typed b hb]
    exact suits_staticField (staticSite _ g) b
  · rw [List.map_map]
    exact nodup_staticFields (staticSite _ g) hdone

/-- **Initial values of several names.**  The names of a local definition or of a static member
of an accepted program are given their initial value in a method of one of its classes.  The code
runs from its start to its end.  It holds the code of the value once, whatever the value is, and
of its instructions those that write are the writes of the slots or of the static fields of the
names, each of them once and in order.

Where the value is copied, every copy first puts a new object of the declared type on the stack,
and its call goes through exactly if it is that of the first name, or a value of the declared type
fits where the routine takes the initial value. -/
theorem initials_emitted :
    (∀ d, .define d ∈ q.parts → d.names ≠ [] → ∃ f site, ∃ ks : List Nat,
      f.bindings.map (·.slot) = ks.map some ∧ NamesGiven (analyze program q) program
        (generate (analyze program q) program q labels).classes d.node d.names d.value
        (initDecl (analyze program q) site d).code f site (ks.map .slot)) ∧
    ∀ x, .staticField x ∈ q.parts → x.decl.names ≠ [] → ∃ f, ∃ g : TypeFinding,
      NamesGiven (analyze program q) program
        (generate (analyze program q) program q labels).classes x.decl.node x.decl.names x.init
        (staticField (analyze program q) (staticSite (analyze program q) g) x).code f
        (staticSite (analyze program q) g)
        (f.bindings.map fun b => .staticField (memberField (analyze program q) g.type b)) :=
  ⟨fun _ hd hne => namesGiven_define program hq h labels hd hne,
    fun _ hx hne => namesGiven_staticField program hq h labels hx hne⟩

end

/-- A program with a type that takes integers, and with two names for either kind of value:

```
type P
  static integer low, high = 1
  routine operator_assignment(integer v)
  end operator_assignment
end P
P a, b = 5
```
-/
def pairs : Program := (Draft.build [
  .type ⟨none, "P", [], [⟨none, .of "integer", ["low", "high"], .int 1⟩],
    [⟨none, Reserved.assignment, [(.of "integer", "v")], none, [], none, none⟩], [], none⟩,
  .define ⟨none, .of "P", ["a", "b"], .int 5⟩]).1

theorem initials_emitted_pairs : pairs.nodes.Nodup ∧ (analyze "demo" pairs).errors = [] ∧
    (∃ d, .define d ∈ pairs.parts ∧ d.names ≠ [] ∧ ∃ f site, ∃ ks : List Nat,
      f.bindings.map (·.slot) = ks.map some ∧ NamesGiven (analyze "demo" pairs) "demo"
        (generate (analyze "demo" pairs) "demo" pairs 0).classes d.node d.names d.value
        (initDecl (analyze "demo" pairs) site d).code f site (ks.map .slot)) ∧
    ∃ x, .staticField x ∈ pairs.parts ∧ x.decl.names ≠ [] ∧ ∃ f, ∃ g : TypeFinding,
      NamesGiven (analyze "demo" pairs) "demo"
        (generate (analyze "demo" pairs) "demo" pairs 0).classes x.decl.node x.decl.names x.init
        (staticField (analyze "demo" pairs) (staticSite (analyze "demo" pairs) g) x).code f
        (staticSite (analyze "demo" pairs) g)
        (f.bindings.map fun b => .staticField (memberField (analyze "demo" pairs) g.type b)) := by
  have hnodup : pairs.nodes.Nodup := Draft.nodup_nodes_build _
  have herrors : (analyze "demo" pairs).errors = [] := by decide +kernel
  obtain ⟨hdefine, hstatic⟩ := initials_emitted "demo" hnodup herrors 0
  refine ⟨hnodup, herrors, ?_, ?_⟩
  · exact ⟨_, List.mem_of_getElem? (i := 4) rfl, List.cons_ne_nil _ _,
      hdefine _ (List.mem_of_getElem? (i := 4) rfl) (List.cons_ne_nil _ _)⟩
  · exact ⟨_, List.mem_of_getElem? (i := 1) rfl, List.cons_ne_nil _ _,
      hstatic _ (List.mem_of_getElem? (i := 1) rfl) (List.cons_ne_nil _ _)⟩

/-- What is recorded about `a` and `b`. -/
def pairFinding : DeclFinding where
  type := ⟨6⟩
  bindings := [{ name := "a", type := ⟨6⟩, role := .var, slot := some 3 },
    { name := "b", type := ⟨6⟩, role := .var, slot := some 4 }]
  mode := some (.copy ⟨Reserved.assignment, [.integer], none⟩)

/-- The copy of `a` into `b` does not go through: the routine takes an integer, and `a` is none. -/
theorem copies_misfit : (analyze "demo" pairs).errors = [] ∧ ∃ d site m, .define d ∈ pairs.parts ∧
    (analyze "demo" pairs).findings.decls.find? d.node = some pairFinding ∧
    MethodAt (analyze "demo" pairs) "demo"
      (generate (analyze "demo" pairs) "demo" pairs 0).classes site m ∧
    (Fragment.concat (copies (analyze "demo" pairs) pairFinding.type
      ⟨Reserved.assignment, [.integer], none⟩ (expr (analyze "demo" pairs) site d.value)
      [.slot 3, .slot 4])).code <:+: m.code ∧
    ¬ ∀ copy ∈ copies (analyze "demo" pairs) pairFinding.type
        ⟨Reserved.assignment, [.integer], none⟩ (expr (analyze "demo" pairs) site d.value)
        [.slot 3, .slot 4],
      ∃ ρ, Pushes (frame (analyze "demo" pairs) m) copy.code ρ := by
  have herrors : (analyze "demo" pairs).errors = [] := by decide +kernel
  obtain ⟨d, hd, hne, hrecord, hvalue⟩ : ∃ d, .define d ∈ pairs.parts ∧ d.names ≠ [] ∧
      (analyze "demo" pairs).findings.decls.find? d.node = some pairFinding ∧
      (analyze "demo" pairs).findings.exprTypes.find? d.value.node = some .integer :=
    ⟨_, List.mem_of_getElem? (i := 4) rfl, List.cons_ne_nil _ _, by decide +kernel,
      by decide +kernel⟩
  have hnodup : pairs.nodes.Nodup := Draft.nodup_nodes_build _
  obtain ⟨f, site, ks, hks, hgiven⟩ := namesGiven_define "demo" hnodup herrors 0 hd hne
  obtain rfl : f = pairFinding := Option.some.inj (hgiven.record.symm.trans hrecord)
  obtain rfl : ks = [3, 4] := List.map_injective_iff.mpr (Option.some_injective _) hks.symm
  obtain ⟨m, mode, t, hm, hwithin, hmode, ht, hcode, hto⟩ := hgiven.emitted
  obtain rfl := Option.some.inj hmode
  obtain rfl : t = .integer := Option.some.inj (ht.symm.trans hvalue)
  have hcopied := hto.copied _ rfl
  have hmisfit : (Frame.mk [] (routineExtensions (analyze "demo" pairs))).fits
      ((analyze "demo" pairs).types.descriptor pairFinding.type)
      ((analyze "demo" pairs).types.descriptor .integer) = false := by decide +kernel
  refine ⟨herrors, d, site, m, hd, hrecord, hm, ?_, fun hall => ?_⟩
  · rw [← initPlaces_copy]
    exact hcode ▸ hwithin
  · rcases (hcopied.calls 1 _ rfl).mp (hall _ (List.mem_cons_of_mem _ List.mem_cons_self)) with
      hfirst | hfits
    · exact absurd hfirst Nat.one_ne_zero
    · exact Bool.false_ne_true (hmisfit.symm.trans hfits)

end Lowering

end Unnest
