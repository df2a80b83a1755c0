import Unnest.Proofs.Analysis.Environments
import Unnest.Proofs.Lowering.Balanced

/-!
# What declarations and definitions do to the stack

A declaration and an assignment leave the stack as they found it, but for what a copy
leaves (`WriteMode.left`).  A definition makes an object from the values that it
captured.  Each of them is there because some `enclosing` instance, slot or record was
found; the lemmas here say so of every lookup that the code of a single statement needs.
-/

namespace Unnest

open Code

namespace Code

variable {d : Int}

theorem carries_dups {α : Type} (xs : List α) (h : 0 ≤ d) :
    Carries d (xs.map fun _ => .dup) (d + xs.length) := by
  induction xs generalizing d with
  | nil => exact ⟨h, (Int.add_zero d).symm⟩
  | cons x xs ih =>
    refine ⟨h, ?_⟩
    rw [List.length_cons, Int.natCast_add, Int.add_comm xs.length, ← Int.add_assoc]
    exact ih (Int.add_nonneg h Int.one_nonneg)

/-- Instructions that each take one value from the stack. -/
theorem carries_takes {c : List Instruction} (h : ∀ i ∈ c, i.effect = -1) :
    Carries c.length c 0 := by
  induction c with
  | nil => exact ⟨Int.le_refl 0, rfl⟩
  | cons i c ih =>
    rw [List.forall_mem_cons] at h
    refine ⟨Int.natCast_nonneg _, ?_⟩
    rw [h.1, List.length_cons, Int.natCast_add, Int.natCast_one, Int.add_neg_cancel_right]
    exact ih h.2

end Code

namespace Lowering

variable {z : Analysis} {site : Site} {s v : ScopeId}

/-! ## Initial values -/

/-- Writing to a place takes a value, and reading it gives one. -/
structure Place.Holds (p : Place) : Prop where
  write : p.write.effect = -1
  read : p.read.effect = 1

theorem Place.holds_slot (k : Nat) : (Place.slot k).Holds := ⟨rfl, rfl⟩

theorem Place.holds_staticField (b : Binding) :
    (Place.staticField (capturedField z site b)).Holds := by
  refine ⟨?_, ?_⟩ <;> simp [Place.staticField, Instruction.effect, capturedField]

theorem copyInto_moves {type : TypeId} {t : TypeId} {r : Signature} {value : Fragment} {p : Place}
    (h : z.Offers type false Reserved.assignment [t] r) (hv : value.Moves 0 1) (hp : p.Holds) :
    (copyInto z type r value p).Moves 0 r.yields := by
  refine Fragment.Moves.append (.ofList ?_) (callRoutine_moves h hv)
  refine (defaultValue_moves (z := z) type).carries.append ?_
  simp [Carries, hp.write, hp.read]

theorem initPlaces_moves {type t : TypeId} {mode : WriteMode} {value : Fragment} {ps : List Place}
    (h : z.Writes type t mode) (hv : value.Moves 0 1) (hp : ∀ p ∈ ps, p.Holds) :
    (initPlaces z type mode value ps).Moves 0 (mode.left ps.length) := by
  cases ps with
  | nil =>
    cases mode with
    | copy r =>
      rw [WriteMode.left, List.length_nil, Nat.zero_mul]
      exact .empty 0
    | store => exact .empty 0
  | cons first rest =>
    obtain ⟨hfirst, hrest⟩ := List.forall_mem_cons.mp hp
    cases mode with
    | copy r =>
      have hread : (Fragment.ofList [first.read]).Moves 0 1 :=
        .ofList (by simp [Carries, hfirst.read])
      have hcopies : ∀ f ∈ rest.map (copyInto z type r (.ofList [first.read])),
          f.Moves 0 r.yields := by
        rw [List.forall_mem_map]
        exact fun p hp => copyInto_moves h hread (hrest p hp)
      have hall := Fragment.Moves.concat hcopies
      rw [List.length_map] at hall
      rw [WriteMode.left, List.length_cons, Nat.succ_mul, Nat.add_comm]
      exact (copyInto_moves h hv hfirst).above hall
    | store =>
      have hdups : Carries (1 : Nat) (rest.map fun _ => .dup) ((first :: rest).length : Nat) := by
        rw [List.length_cons, Nat.add_comm, Int.natCast_add]
        exact carries_dups rest (Int.natCast_nonneg 1)
      have hwrites := carries_takes (c := (first :: rest).map (·.write)) (by
        rw [List.forall_mem_map]
        exact fun p hm => (hp p hm).write)
      rw [List.length_map] at hwrites
      exact (hv.append (.ofList hdups)).append (.ofList hwrites)

/-! ## Declarations -/

/-- What is declared in a body has a slot. -/
theorem slot_of_mem (hz : z.scopes.Sound) (hb : (z.scopes.get s).kind.isBody = true)
    {b : Binding} (h : b ∈ (z.scopes.get s).entries) : b.slot.isSome = true := by
  obtain ⟨hmay, hslot⟩ := hz.entries s b h
  rw [hslot]
  unfold Scopes.MayDeclare at hmay
  split at hmay
  · exact hmay
  · exact hmay
  · exact hmay
  · rename_i hk
    rw [hk] at hb
    exact absurd hb Bool.false_ne_true
  · exact hmay.elim

theorem slotted (hz : z.scopes.Sound) (hb : (z.scopes.get s).kind.isBody = true)
    {type : TypeId} {names : List Ident} {bs : List Binding} (h : z.NamesDone s type names bs) :
    ∀ b ∈ bs, b.slot.isSome = true :=
  fun b hbs => slot_of_mem hz hb (h.declared b hbs)

theorem slots_eq {bs : List Binding} (h : ∀ b ∈ bs, b.slot.isSome = true) :
    ∃ ks : List Nat, bs.map (·.slot) = ks.map some ∧ slots bs = (ks, 0) := by
  have hlength : (bs.filterMap (·.slot)).length = bs.length :=
    List.filterMap_length_eq_length.mpr h
  refine ⟨_, ?_, by rw [slots, hlength, Nat.sub_self]⟩
  rw [List.map_filterMap_some_eq_filter_map_isSome, List.filter_eq_self.mpr]
  exact List.forall_mem_map.mpr h

variable (site) in
/-- A local definition gives its value to the slots of its names. -/
theorem initDecl_eq (hz : z.scopes.Sound) (hb : (z.scopes.get s).kind.isBody = true)
    {d : InitDecl} {f : DeclFinding} {mode : WriteMode}
    (h : z.InitDone s v d.node d.names d.value f mode) :
    ∃ ks : List Nat, f.bindings.map (·.slot) = ks.map some ∧
      initDecl z site d = initPlaces z f.type mode (expr z site d.value) (ks.map .slot) := by
  obtain ⟨ks, hks, hslots⟩ := slots_eq (slotted hz hb h.names)
  obtain ⟨type, bs, mode'⟩ := f
  obtain rfl : mode' = some mode := h.mode_eq
  refine ⟨ks, hks, ?_⟩
  rw [initDecl, h.record]
  dsimp only at hslots ⊢
  rw [hslots]
  exact congrArg (Fragment.mk _) (Nat.zero_add _)

/-- A static member gives its value to the static fields of its names. -/
theorem staticField_eq {x : StaticField} {f : DeclFinding} {mode : WriteMode}
    (h : z.InitDone s v x.decl.node x.decl.names x.init f mode) :
    staticField z site x = initPlaces z f.type mode (expr z site x.init)
      (f.bindings.map fun b => .staticField (capturedField z site b)) := by
  obtain ⟨type, bs, mode'⟩ := f
  obtain rfl : mode' = some mode := h.mode_eq
  rw [staticField, h.record]

theorem declareSlots_moves {bs : List Binding} (h : ∀ b ∈ bs, b.slot.isSome = true) :
    (declareSlots z bs).Moves 0 0 := by
  induction bs with
  | nil => exact .empty 0
  | cons b bs ih =>
    rw [List.forall_mem_cons] at h
    obtain ⟨k, hk⟩ := Option.isSome_iff_exists.mp h.1
    rw [declareSlots, hk]
    refine Fragment.Moves.append (.ofList ?_) (ih h.2)
    refine (defaultValue_moves (z := z) b.type).carries.append ?_
    simp [Carries, Instruction.effect]

theorem varDecl_moves (hz : z.scopes.Sound) (hb : (z.scopes.get s).kind.isBody = true)
    {d : VarDecl} {f : DeclFinding} (h : z.DeclDone s d f) : (varDecl z d).Moves 0 0 := by
  rw [varDecl, h.record]
  exact declareSlots_moves (slotted hz hb h.names)

theorem initDecl_moves (hz : z.scopes.Sound) (hb : (z.scopes.get s).kind.isBody = true)
    (hs : Houses z site s) {d : InitDecl} {f : DeclFinding} {mode : WriteMode}
    (h : z.InitDone s s d.node d.names d.value f mode) :
    (initDecl z site d).Moves 0 (mode.left f.bindings.length) := by
  obtain ⟨t, hvalue, hwrites⟩ := h.value
  obtain ⟨ks, hks, hcode⟩ := initDecl_eq site hz hb h
  have hlength := congrArg List.length hks
  rw [List.length_map, List.length_map] at hlength
  rw [hcode, hlength, ← List.length_map Place.slot]
  refine initPlaces_moves hwrites (expr_moves hz hs _ hvalue) ?_
  rw [List.forall_mem_map]
  exact fun k _ => Place.holds_slot k

theorem staticField_moves (hz : z.scopes.Sound) (hv : Houses z site v) {x : StaticField}
    {f : DeclFinding} {mode : WriteMode}
    (h : z.InitDone s v x.decl.node x.decl.names x.init f mode) :
    (staticField z site x).Moves 0 (mode.left f.bindings.length) := by
  obtain ⟨t, hvalue, hwrites⟩ := h.value
  rw [staticField_eq h, ← List.length_map fun b => Place.staticField (capturedField z site b)]
  refine initPlaces_moves hwrites (expr_moves hz hv _ hvalue) ?_
  rw [List.forall_mem_map]
  exact fun b _ => Place.holds_staticField b

/-! ## Assignments -/

theorem last_of_linksMake {p q : Produced} {l : Link} {ls : List Link}
    (h : z.LinksMake s p ls q) (hl : ls.getLast? = some l) :
    ∃ before, z.LinksMake s p ls.dropLast before ∧ z.LinkMakes s before l q := by
  induction ls generalizing p with
  | nil => exact absurd hl (by simp)
  | cons x xs ih =>
    cases h with
    | @cons _ after _ _ _ hx hxs =>
      cases xs with
      | nil =>
        cases hxs
        obtain rfl : x = l := by simpa using hl
        exact ⟨p, .nil, hx⟩
      | cons y ys =>
        obtain ⟨before, hdrop, hlast⟩ := ih hxs (by simpa using hl)
        exact ⟨before, .cons hx hdrop, hlast⟩

/-- The last link of a chain is its only one, or it follows a receiver. -/
theorem last_of_chainHas (hz : z.scopes.Sound) (hs : Houses z site s) {c : Chain}
    {t : Option TypeId} {l : Link} (h : z.ChainHas s c t) (hl : c.last? = some l) :
    (∃ p, z.HeadMakes s false l p ∧ (receiver z site c).Moves 0 0) ∨
      ∃ before after, z.LinkMakes s before l after ∧ (receiver z site c).Moves 0 before.cells := by
  cases h with
  | @mk node head rest span first last f hh hr =>
    cases rest with
    | nil =>
      obtain rfl : head = l := by simpa [Chain.last?] using hl
      refine Or.inl ⟨first, hh, ?_⟩
      rw [receiver, List.dropLast_singleton, links]
      exact .empty 0
    | cons x xs =>
      obtain ⟨before, hdrop, hlast⟩ := last_of_linksMake hr (by simpa [Chain.last?] using hl)
      refine Or.inr ⟨before, last, hlast, ?_⟩
      rw [receiver, List.dropLast_cons_of_ne_nil (List.cons_ne_nil x xs), links]
      exact (head_moves hz hs head hh).append (links_moves hz hs _ hdrop)

theorem storeTarget_moves (hz : z.scopes.Sound) (hs : Houses z site s) {c : Chain}
    {t : Option TypeId} {l : Link} (h : z.ChainHas s c t) (hl : c.last? = some l)
    (hn : z.Names l) {value : Fragment} (hv : value.Moves 0 1) :
    (storeTarget z site c value).Moves 0 0 := by
  have hlast := last_of_chainHas hz hs h hl
  rw [storeTarget, hl, Option.bind_some]
  rcases hn with ⟨b, access, hb⟩ | ⟨owner, b, hb⟩
  · rw [hb]
    dsimp only
    rcases hlast with ⟨p, hhead, -⟩ | ⟨before, after, hlink, -⟩
    · cases hhead with
      | load record sees =>
        obtain ⟨rfl, rfl⟩ := LinkFinding.load.inj (Option.some.inj (record.symm.trans hb))
        obtain ⟨owner, hr⟩ := sees
        exact store_moves _ (hs.suits hz hr) hv
      | typeName _ record | callBinding _ _ record | callType _ _ record | construct _ _ record =>
        exact absurd (record.symm.trans hb) (by simp)
    · cases hlink with
      | field _ _ record | callMember _ _ _ record | callField _ _ _ _ _ record =>
        exact absurd (record.symm.trans hb) (by simp)
  · rw [hb]
    dsimp only
    rcases hlast with ⟨p, hhead, -⟩ | ⟨before, after, hlink, hreceiver⟩
    · cases hhead with
      | load record | typeName _ record | callBinding _ _ record | callType _ _ record
      | construct _ _ record => exact absurd (record.symm.trans hb) (by simp)
    · cases hlink with
      | @field _ _ _ _ _ isStatic _ on role record =>
        obtain ⟨rfl, rfl⟩ := LinkFinding.field.inj (Option.some.inj (record.symm.trans hb))
        rw [Produced.cells_of_receiver? on] at hreceiver
        refine (hreceiver.above hv).append (.ofList ?_)
        rw [role]
        cases isStatic <;> simp [Carries, Role.member, Instruction.effect, memberField]
      | callMember _ _ _ record | callField _ _ _ _ _ record =>
        exact absurd (record.symm.trans hb) (by simp)

theorem assign_moves (hz : z.scopes.Sound) (hs : Houses z site s) {x : Assignment}
    {f : AssignFinding} (h : z.AssignDone s x f) : (assign z site x).Moves 0 (f.mode.left 1) := by
  obtain ⟨t, hvalue, hwrites⟩ := h.value
  have hv := expr_moves hz hs _ hvalue
  obtain ⟨target, mode⟩ := f
  rw [assign, h.record]
  cases mode with
  | copy r =>
    rw [WriteMode.left, Nat.one_mul]
    have hargs : (expr z site x.value).Moves 0 [t].length := hv
    exact (chain_moves hz hs _ h.target).append (callRoutine_moves hwrites hargs)
  | store =>
    obtain ⟨l, hl, hn⟩ := h.stored rfl
    exact storeTarget_moves hz hs h.target hl hn hv

/-- What a chain as a statement yields is dropped. -/
theorem callStmt_moves (hz : z.scopes.Sound) (hs : Houses z site s) {c : Chain}
    {t : Option TypeId} (h : z.ChainHas s c t) : (callStmt z site c).Moves 0 0 := by
  have hchain := chain_moves hz hs c h
  cases h with
  | @mk node head rest span first last f hh hr finding record =>
    obtain ⟨type, binding⟩ := f
    rw [callStmt]
    dsimp only
    rw [record]
    cases type with
    | none => exact hchain.append (.empty 0)
    | some type => exact hchain.append (.ofList (by simp [Carries, Instruction.effect]))

end Lowering

end Unnest
