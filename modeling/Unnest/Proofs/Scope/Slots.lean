import Mathlib.Data.Set.Basic
import Unnest.Proofs.Analysis.Sound

/-!
# Slots

A binding that lives in a slot keeps the slot that it took, and blocks share the slots
of the method around them.  `Laid t` says how the slots of a method are laid out: they
are below the count of the method and not reserved, and no two bindings of one method
have the same, whatever blocks they are in.  Every change of the scopes keeps this.

It also says that a scope never captures what it reaches directly.  In particular a
routine does not capture its own value, which is not in its slot yet when the captures
of the routine are loaded.

The slots that are `filled` in a scope are those that are reserved and those of the
bindings that the scope sees in its method.
-/

namespace Unnest

/-- The slots of bindings. -/
def slotSet (bs : List Binding) : Set Nat := {k | ∃ b ∈ bs, b.slot = some k}

theorem slotSet_append (bs cs : List Binding) :
    slotSet (bs ++ cs) = slotSet bs ∪ slotSet cs := by
  ext k
  simp only [slotSet, List.mem_append, Set.mem_ofPred_eq, Set.mem_union]
  exact ⟨fun ⟨b, hb, hk⟩ => hb.imp (fun h => ⟨b, h, hk⟩) fun h => ⟨b, h, hk⟩,
    fun h => h.elim (fun ⟨b, hb, hk⟩ => ⟨b, Or.inl hb, hk⟩) fun ⟨b, hb, hk⟩ => ⟨b, Or.inr hb, hk⟩⟩

theorem slotSet_singleton {b : Binding} {k : Nat} (h : b.slot = some k) : slotSet [b] = {k} := by
  ext j
  constructor
  · rintro ⟨x, hx, hj⟩
    rw [List.mem_singleton.mp hx, h] at hj
    exact (Option.some.inj hj).symm
  · rintro rfl
    exact ⟨b, List.mem_cons_self, h⟩

theorem mem_filterMap_slot {bs : List Binding} {k : Nat} :
    k ∈ bs.filterMap (·.slot) ↔ k ∈ slotSet bs := List.mem_filterMap

namespace Scopes

variable {t t' : Scopes} {s j o m : ScopeId} {b b' : Binding}

/-- The slots of a method are taken one after the other, by one binding each. -/
structure Flat (t : Scopes) : Prop where
  reserved : ∀ s, t.Has s → (t.get s).kind.reservedSlots ≤ (t.get s).numLocals
  above : ∀ s, ∀ k ∈ slotSet (t.get s).entries,
    (t.get (t.owningMethod s)).kind.reservedSlots ≤ k
  below : ∀ s, ∀ k ∈ slotSet (t.get s).entries, k < t.numLocals s
  increasing : ∀ s, ((t.get s).entries.filterMap (·.slot)).Pairwise (· < ·)
  /-- Scopes of one method take different slots. -/
  apart : ∀ s s', s ≠ s' → t.owningMethod s = t.owningMethod s' →
    ∀ k ∈ slotSet (t.get s).entries, k ∉ slotSet (t.get s').entries
  /-- No slot is left out. -/
  complete : ∀ m, t.Has m → ∀ k, (t.get m).kind.reservedSlots ≤ k → k < (t.get m).numLocals →
    ∃ s, t.Has s ∧ t.owningMethod s = m ∧ k ∈ slotSet (t.get s).entries

/-- The slots of a method are laid out without overlap, and nothing is captured that is
reached without. -/
structure Laid (t : Scopes) : Prop extends Flat t where
  indirect : ∀ s, ∀ c ∈ (t.get s).captures, t.reachesDirectly c.binding c.owner s = false

/-- The slots of its method that hold something for a scope. -/
def filled (t : Scopes) (s : ScopeId) : Set Nat :=
  {k | k < (t.get (t.owningMethod s)).kind.reservedSlots ∨
    ∃ o ∈ t.path s, t.owningMethod o = t.owningMethod s ∧ k ∈ slotSet (t.get o).entries}

/-! ## Counting -/

/-- A change that takes no slot. -/
theorem numLocals_get_update {f : Scope → Scope} (hf : ∀ x, (f x).numLocals = x.numLocals)
    (t : Scopes) (s j : ScopeId) : ((t.update s f).get j).numLocals = (t.get j).numLocals :=
  get_update_congr Scope.numLocals hf t s j

theorem numLocals_get_capture (t : Scopes) (s : ScopeId) (b : Binding) (owner j : ScopeId) :
    ((t.capture s b owner).get j).numLocals = (t.get j).numLocals :=
  get_capture_congr Scope.numLocals (fun _ _ => rfl) t s b owner j

theorem numLocals_get_declareType {name : String} {type : TypeId} {span : Span}
    (h : t.declareType s name type span = .ok t') (j : ScopeId) :
    (t'.get j).numLocals = (t.get j).numLocals := by
  simp only [declareType] at h
  split at h
  · exact absurd h (by simp)
  · split at h
    · exact absurd h (by simp)
    · rw [← Except.ok.inj h, numLocals_get_update]
      exact fun _ => rfl

theorem numLocals_get_takeSlot (t : Scopes) (s : ScopeId) (b : Binding)
    (hm : t.Has (t.owningMethod s)) (j : ScopeId) : ((t.takeSlot s b).2.get j).numLocals =
      (t.get j).numLocals + if b.role.usesSlot = true ∧ t.owningMethod s = j then 1 else 0 := by
  rw [takeSlot]
  by_cases hb : b.role.usesSlot = true
  · rw [if_pos hb]
    by_cases hj : t.owningMethod s = j
    · rw [if_pos ⟨hb, hj⟩, ← hj, get_update_self hm]
    · rw [if_neg fun h => hj h.2, get_update_of_ne hj, Nat.add_zero]
  · rw [if_neg hb, if_neg fun h => hb h.1, Nat.add_zero]

/-- A binding that takes a slot is counted where its method is. -/
theorem numLocals_get_declare {span : Span} (h : t.declare s b span = .ok (b', t'))
    (hm : t.Has (t.owningMethod s)) (j : ScopeId) : (t'.get j).numLocals =
      (t.get j).numLocals + if b.role.usesSlot = true ∧ t.owningMethod s = j then 1 else 0 := by
  simp only [declare] at h
  split at h
  · exact absurd h (by simp)
  · obtain ⟨-, rfl⟩ := Prod.mk.inj (Except.ok.inj h)
    rw [numLocals_get_update, numLocals_get_takeSlot t s b hm]
    exact fun _ => rfl

section Opening

variable (t) (parent : ScopeId) (kind : ScopeKind) (name : String) (unit : UnitId)
  (memberOf : Option TypeId) (isStatic : Bool)

theorem numLocals_get_openMember (j : ScopeId) :
    ((t.openMember parent kind name unit memberOf isStatic).get j).numLocals =
      if j = ⟨t.size⟩ then kind.reservedSlots else (t.get j).numLocals := by
  have hpush : (⟨t.scopes.push (.empty (some parent) kind name unit)⟩ : Scopes).get j =
      if j = ⟨t.size⟩ then .empty (some parent) kind name unit else t.get j := by
    rw [get, get?, Array.getElem?_push]
    by_cases hj : j = ⟨t.size⟩
    · subst hj
      exact (congrArg (Option.getD · default) (if_pos rfl)).trans (if_pos rfl).symm
    · rw [if_neg hj]
      exact congrArg (Option.getD · default) (if_neg fun h => hj (congrArg ScopeId.mk h))
  rw [openMember, markMember, numLocals_get_update, openScope]
  · dsimp only
    rw [numLocals_get_update, hpush]
    · split <;> rfl
    · exact fun _ => rfl
  · exact fun _ => rfl

end Opening

/-! ## Every change keeps the layout -/

theorem WF.has_owningMethod (hw : t.WF) (hs : t.Has s) : t.Has (t.owningMethod s) :=
  has_of_mem_path (hw.owningMethod_mem_path s) hs

/-- A change that declares nothing with a slot. -/
theorem Flat.extend (h : Flat t) (hw : t.WF) (hw' : t'.WF) (hx : SameShape t t')
    (hcount : ∀ j, t.Has j → (t'.get j).numLocals = (t.get j).numLocals)
    (hold : ∀ j, t.Has j → (t'.get j).entries = (t.get j).entries)
    (hnew : ∀ j, t'.Has j → ¬ t.Has j →
      (t'.get j).entries = [] ∧ (t'.get j).numLocals = (t'.get j).kind.reservedSlots) : Flat t' := by
  have hentries : ∀ j, ∀ k ∈ slotSet (t'.get j).entries,
      t.Has j ∧ k ∈ slotSet (t.get j).entries := by
    rintro j k ⟨b, hb, hk⟩
    have hj : t.Has j := by
      by_contra hj
      rw [(hnew j (has_of_mem_entries hb) hj).1] at hb
      exact List.not_mem_nil hb
    exact ⟨hj, b, hold j hj ▸ hb, hk⟩
  have howner : ∀ j, t.Has j → t'.owningMethod j = t.owningMethod j := fun j hj =>
    hx.owningMethod_eq hw hw' hj
  refine ⟨fun j hj => ?_, fun j k hk => ?_, fun j k hk => ?_, fun j => ?_,
    fun i j hne ho k hk hk' => ?_, fun m hm k hle hlt => ?_⟩
  · by_cases hj' : t.Has j
    · rw [hx.kind_eq j hj', hcount j hj']
      exact h.reserved j hj'
    · exact (hnew j hj hj').2.ge
  · obtain ⟨hj, hk⟩ := hentries j k hk
    rw [howner j hj, hx.kind_eq _ (hw.has_owningMethod hj)]
    exact h.above j k hk
  · obtain ⟨hj, hk⟩ := hentries j k hk
    rw [numLocals, howner j hj, hcount _ (hw.has_owningMethod hj)]
    exact h.below j k hk
  · by_cases hj : t.Has j
    · rw [hold j hj]
      exact h.increasing j
    · rw [show (t'.get j).entries = [] from ?_]
      · exact .nil
      · by_cases hj' : t'.Has j
        · exact (hnew j hj' hj).1
        · rw [get_of_not_has hj']
          rfl
  · obtain ⟨hi, hk⟩ := hentries i k hk
    obtain ⟨hj, hk'⟩ := hentries j k hk'
    rw [howner i hi, howner j hj] at ho
    exact h.apart i j hne ho k hk hk'
  · by_cases hm' : t.Has m
    · rw [hx.kind_eq m hm'] at hle
      rw [hcount m hm'] at hlt
      obtain ⟨s, hs, ho, hk⟩ := h.complete m hm' k hle hlt
      exact ⟨s, hx.has hs, (howner s hs).trans ho, (hold s hs).symm ▸ hk⟩
    · exact absurd (Nat.lt_of_le_of_lt hle hlt) (Nat.not_lt_of_le (hnew m hm hm').2.le)

/-- What is declared takes the first slot that is free in its method. -/
theorem Flat.declare (h : Flat t) (hw : t.WF) (hw' : t'.WF) (hs : t.Has s) (slot : b.slot = none)
    {span : Span} (hok : t.declare s b span = .ok (b', t')) : Flat t' := by
  have hd := declared_of_declare hok
  have hx := hd.extends
  have hhas : ∀ j, t'.Has j ↔ t.Has j := fun j => by rw [Has, hd.size_eq, Has]
  have howner : ∀ j, t.Has j → t'.owningMethod j = t.owningMethod j := fun j hj =>
    hx.owningMethod_eq hw hw' hj
  have hcount := numLocals_get_declare hok (hw.has_owningMethod hs)
  have hslot : ∀ k, b'.slot = some k ↔ b.role.usesSlot = true ∧ k = t.numLocals s := by
    intro k
    rw [hd.binding_eq, slot]
    dsimp only
    split
    · rename_i hb
      exact ⟨fun hk => ⟨hb, (Option.some.inj hk).symm⟩, fun hk => congrArg some hk.2.symm⟩
    · rename_i hb
      exact ⟨fun hk => absurd hk (by simp), fun hk => absurd hk.1 hb⟩
  -- a slot is either an old one, or the one that was taken
  have hentries : ∀ j, ∀ k ∈ slotSet (t'.get j).entries, k ∈ slotSet (t.get j).entries ∨
      s = j ∧ b'.slot = some k := by
    rintro j k ⟨x, hx, hk⟩
    rcases hd.mem_entries hs hx with hx | ⟨rfl, rfl⟩
    · exact Or.inl ⟨x, hx, hk⟩
    · exact Or.inr ⟨rfl, hk⟩
  have hin : ∀ j, ∀ k ∈ slotSet (t.get j).entries, t.Has j := by
    rintro j k ⟨x, hx, -⟩
    exact has_of_mem_entries hx
  refine ⟨fun j hj => ?_, fun j k hk => ?_, fun j k hk => ?_, fun j => ?_,
    fun i j hne ho k hk hk' => ?_, fun m hm k hle hlt => ?_⟩
  · rw [hhas] at hj
    rw [hx.kind_eq hj, hcount]
    exact Nat.le_add_right_of_le (h.reserved j hj)
  · rcases hentries j k hk with hold | ⟨rfl, hnew⟩
    · rw [howner j (hin j k hold), hx.kind_eq (hw.has_owningMethod (hin j k hold))]
      exact h.above j k hold
    · rw [howner s hs, hx.kind_eq (hw.has_owningMethod hs), ((hslot k).mp hnew).2]
      exact h.reserved _ (hw.has_owningMethod hs)
  · rw [numLocals, hcount]
    rcases hentries j k hk with hold | ⟨rfl, hnew⟩
    · rw [howner j (hin j k hold)]
      exact Nat.lt_add_right _ (h.below j k hold)
    · obtain ⟨hb, rfl⟩ := (hslot k).mp hnew
      rw [howner s hs, if_pos ⟨hb, rfl⟩]
      exact Nat.lt_succ_self _
  · by_cases hj : s = j
    · subst hj
      rw [hd.entries hs, List.filterMap_append, List.pairwise_append]
      refine ⟨h.increasing s, ?_, fun k hk k' hk' => ?_⟩
      · rw [List.filterMap_cons, List.filterMap_nil]
        split <;> simp
      · obtain ⟨x, hx, hk'⟩ := List.mem_filterMap.mp hk'
        rw [List.mem_singleton.mp hx] at hk'
        rw [((hslot k').mp hk').2]
        exact h.below s k (mem_filterMap_slot.mp hk)
    · rw [(hd.agrees j hj).entries]
      exact h.increasing j
  · rcases hentries i k hk with hold | ⟨rfl, hnew⟩ <;>
      rcases hentries j k hk' with hold' | ⟨rfl, hnew'⟩
    · rw [howner i (hin i k hold), howner j (hin j k hold')] at ho
      exact h.apart i j hne ho k hold hold'
    · rw [howner i (hin i k hold), howner s hs] at ho
      have hlt := h.below i k hold
      rw [((hslot k).mp hnew').2, numLocals, numLocals, ho] at hlt
      exact Nat.lt_irrefl _ hlt
    · rw [howner s hs, howner j (hin j k hold')] at ho
      have hlt := h.below j k hold'
      rw [((hslot k).mp hnew).2, numLocals, numLocals, ho] at hlt
      exact Nat.lt_irrefl _ hlt
    · exact hne rfl
  · rw [hhas] at hm
    rw [hx.kind_eq hm] at hle
    rw [hcount] at hlt
    by_cases hold : k < (t.get m).numLocals
    · obtain ⟨o, ho, hom, y, hy, hk⟩ := h.complete m hm k hle hold
      exact ⟨o, (hhas o).mpr ho, (howner o ho).trans hom, y, (hx.entries o ho).subset hy, hk⟩
    · split at hlt
      · rename_i hb
        refine ⟨s, (hhas s).mpr hs, (howner s hs).trans hb.2, b', ?_, (hslot k).mpr ⟨hb.1, ?_⟩⟩
        · rw [hd.entries hs]
          exact List.mem_append_right _ List.mem_cons_self
        · rw [numLocals, hb.2]
          omega
      · exact absurd hlt hold

theorem Laid.extend (h : Laid t) (hw : t.WF) (hw' : t'.WF) (hx : Extends t t')
    (hcount : ∀ j, t.Has j → (t'.get j).numLocals = (t.get j).numLocals)
    (hold : ∀ j, t.Has j → (t'.get j).entries = (t.get j).entries)
    (hnew : ∀ j, t'.Has j → ¬ t.Has j →
      (t'.get j).entries = [] ∧ (t'.get j).numLocals = (t'.get j).kind.reservedSlots)
    (hcaptures : ∀ j, ∀ c ∈ (t'.get j).captures, c ∈ (t.get j).captures ∨
      t'.reachesDirectly c.binding c.owner j = false) : Laid t' := by
  refine ⟨h.toFlat.extend hw hw' hx.shape hcount hold hnew, fun j c hc => ?_⟩
  rcases hcaptures j c hc with hc | hc
  · rw [hx.reachesDirectly_eq _ _ (has_of_mem_captures hc)]
    exact h.indirect j c hc
  · exact hc

theorem Laid.declare (h : Laid t) (hw : t.WF) (hw' : t'.WF) (hs : t.Has s) (slot : b.slot = none)
    {span : Span} (hok : t.declare s b span = .ok (b', t')) : Laid t' := by
  have hd := declared_of_declare hok
  refine ⟨h.toFlat.declare hw hw' hs slot hok, fun j c hc => ?_⟩
  rw [hd.captures_eq] at hc
  rw [hd.extends.reachesDirectly_eq _ _ (has_of_mem_captures hc)]
  exact h.indirect j c hc

/-- No scope records what it reaches directly. -/
theorem Sound.indirect_captureSites (h : Sound t) {r : Resolved} (hu : Uses t s r)
    (hd : j ∈ t.captureSites s r.binding r.owner) :
    t.reachesDirectly r.binding r.owner j = false := by
  by_cases hj : j = s
  · subst hj
    by_contra hne
    rw [Bool.not_eq_false] at hne
    have howner := owningMethod_of_owns (t := t) (s := j) (by rw [reachesDirectly_kind hne]; rfl)
    have hindirect := hu.outside.indirect
    rw [howner, hne] at hindirect
    exact Bool.noConfusion hindirect
  · exact (h.captureSites_spec hu.resolves hd).2.2.1 hj

/-- Every change keeps the slots laid out. -/
theorem Laid.step (h : Laid t) (hw : Sound t) (hs : t.Has s) (hstep : Step t s t') : Laid t' := by
  have hwf := hstep.wf hw.toWF hs
  have hx := hstep.extends
  cases hstep with
  | @capture n r hl =>
    have hu := hw.uses hl
    have hc := hw.captured s r
    refine h.extend hw.toWF hwf hx (fun j _ => numLocals_get_capture t s _ _ j)
      (fun j _ => hc.entries j) (fun j hj hj' => ?_) fun j c hmem => ?_
    · rw [Has, hc.size_eq] at hj
      exact absurd hj hj'
    · by_cases hd : j ∈ t.captureSites s r.binding r.owner
      · by_cases hj : t.Has j
        · rw [hc.captures_new j hd hj, List.mem_append, List.mem_singleton] at hmem
          refine hmem.imp_right ?_
          rintro rfl
          rw [hx.reachesDirectly_eq _ _ hj]
          exact hw.indirect_captureSites hu hd
        · have hj' := has_of_mem_captures hmem
          rw [Has, hc.size_eq] at hj'
          exact absurd hj' hj
      · exact Or.inl (hc.captures_old j hd ▸ hmem)
  | declare slot _ _ hok => exact h.declare hw.toWF hwf hs slot hok
  | param _ parent _ slot _ hok => exact h.declare hw.toWF hwf (has_of_parent parent) slot hok
  | declareType _ _ _ hok =>
    have hd := typeDeclared_of_declareType hok
    refine h.extend hw.toWF hwf hx (fun j _ => numLocals_get_declareType hok j)
      (fun j _ => hd.entries_eq j) (fun j hj hj' => ?_) fun j c hc => Or.inl (hd.captures_eq j ▸ hc)
    rw [Has, hd.size_eq] at hj
    exact absurd hj hj'
  | nextBlockName =>
    refine h.extend hw.toWF hwf hx (fun j _ => @numLocals_get_update
      (fun x => { x with blockCount := x.blockCount + 1 }) (fun _ => rfl) t s j)
      (fun j _ => (agrees_nextBlockName t s j).entries) (fun j hj hj' => ?_)
      fun j c hc => Or.inl ((agrees_nextBlockName t s j).captures ▸ hc)
    rw [Has, size_nextBlockName] at hj
    exact absurd hj hj'
  | @openMember kind memberOf isStatic may name _ unit =>
    have hnew := agrees_openMember_new t s kind name unit memberOf isStatic
    have hcount := numLocals_get_openMember t s kind name unit memberOf isStatic
    have hne : ∀ j, t.Has j → j ≠ ⟨t.size⟩ := by
      rintro j hj rfl
      exact Nat.lt_irrefl _ hj
    refine h.extend hw.toWF hwf hx (fun j hj => by rw [hcount, if_neg (hne j hj)])
      (fun j hj => (agrees_openMember_old t s kind name unit memberOf isStatic hj).entries)
      (fun j hj hj' => ?_) fun j c hc => ?_
    · obtain rfl := eq_of_has_openMember hj hj'
      refine ⟨hnew.entries, ?_⟩
      rw [hcount, if_pos rfl, hnew.head.kind]
      rfl
    · by_cases hj : t.Has j
      · rw [(agrees_openMember_old t s kind name unit memberOf isStatic hj).captures] at hc
        exact Or.inl hc
      · obtain rfl := eq_of_has_openMember (has_of_mem_captures hc) hj
        rw [hnew.captures] at hc
        exact absurd hc List.not_mem_nil

/-- A change declares only in the scopes inside. -/
theorem Step.names (hw : Sound t) (hstep : Step t s t') (hj : t.Has j) (hout : s ∉ t.path j) :
    SameNames (t.get j) (t'.get j) := by
  have hne : s ≠ j := by
    rintro rfl
    exact hout (mem_path_self t s)
  cases hstep with
  | capture => exact sameNames_capture t s _ _ j
  | declare _ _ _ hok => exact ((declared_of_declare hok).agrees j hne).names
  | @param d b b' span _ _ parent _ _ _ hok =>
    have hne : d ≠ j := by
      rintro rfl
      exact hout (hw.mem_path_of_parent parent (mem_path_self t s))
    exact ((declared_of_declare hok).agrees j hne).names
  | declareType _ _ _ hok => exact ((typeDeclared_of_declareType hok).agrees j hne).names
  | nextBlockName => exact (agrees_nextBlockName t s j).names
  | openMember may _ unit => exact (agrees_openMember_old t s _ _ unit _ _ hj).names

/-! ## The start -/

theorem wf_root (name : String) (unit : UnitId) : (root name unit).WF where
  parent_lt s p hp := by
    obtain rfl := has_root (has_of_parent hp)
    exact absurd hp (by simp [parent, get_root, Scope.empty])

/-- A tree that is nothing but its root has only the slot that is taken from the start. -/
theorem flat_root (name : String) (unit : UnitId) : Flat (root name unit) := by
  have hslots : ∀ s k, k ∉ slotSet ((root name unit).get s).entries := by
    rintro s k ⟨x, hx, -⟩
    obtain rfl := has_root (has_of_mem_entries hx)
    exact List.not_mem_nil hx
  refine ⟨fun s hs => ?_, fun s k hk => absurd hk (hslots s k),
    fun s k hk => absurd hk (hslots s k), fun s => ?_, fun s s' _ _ k hk => absurd hk (hslots s k),
    fun m hm k hle hlt => ?_⟩
  · obtain rfl := has_root hs
    exact Nat.le_refl _
  · rw [List.filterMap_eq_nil_iff.mpr fun x hx => ?_]
    · exact .nil
    · obtain rfl := has_root (has_of_mem_entries hx)
      exact absurd hx List.not_mem_nil
  · obtain rfl := has_root hm
    exact absurd hle (Nat.not_le_of_lt hlt)

theorem laid_root (name : String) (unit : UnitId) : Laid (root name unit) where
  toFlat := flat_root name unit
  indirect s c hc := by
    obtain rfl := has_root (has_of_mem_captures hc)
    exact absurd hc List.not_mem_nil

/-! ## What is filled -/

/-- What is filled in a scope grows by what is declared in the scopes of its method. -/
theorem filled_append {n : ScopeId → List Binding} (hx : Extends t t') (hw : t.WF)
    (hw' : t'.WF) (hs : t.Has s)
    (h : ∀ o ∈ t.path s, (t'.get o).entries = (t.get o).entries ++ n o) :
    t'.filled s = t.filled s ∪
      {k | ∃ o ∈ t.path s, t.owningMethod o = t.owningMethod s ∧ k ∈ slotSet (n o)} := by
  have howner : ∀ o ∈ t.path s, t'.owningMethod o = t.owningMethod o := fun o ho =>
    hx.owningMethod_eq hw hw' (has_of_mem_path ho hs)
  have hm := howner s (mem_path_self t s)
  have hkind := hx.kind_eq (hw.has_owningMethod hs)
  ext k
  simp only [filled, Set.mem_union, Set.mem_ofPred_eq, hx.path_eq hw hw' hs, hm, hkind]
  constructor
  · rintro (hk | ⟨o, ho, hom, hk⟩)
    · exact Or.inl (Or.inl hk)
    · rw [howner o ho] at hom
      rw [h o ho, slotSet_append] at hk
      exact hk.imp (fun hk => Or.inr ⟨o, ho, hom, hk⟩) fun hk => ⟨o, ho, hom, hk⟩
  · rintro ((hk | ⟨o, ho, hom, hk⟩) | ⟨o, ho, hom, hk⟩)
    · exact Or.inl hk
    · exact Or.inr ⟨o, ho, (howner o ho).trans hom, by rw [h o ho, slotSet_append]; exact Or.inl hk⟩
    · exact Or.inr ⟨o, ho, (howner o ho).trans hom, by rw [h o ho, slotSet_append]; exact Or.inr hk⟩

/-- What is filled stays the same while nothing is declared on the path. -/
theorem filled_eq (hx : Extends t t') (hw : t.WF) (hw' : t'.WF) (hs : t.Has s)
    (h : ∀ o ∈ t.path s, (t'.get o).entries = (t.get o).entries) : t'.filled s = t.filled s := by
  rw [filled_append (n := fun _ => []) hx hw hw' hs fun o ho => by rw [h o ho, List.append_nil]]
  refine Set.union_eq_self_of_subset_right ?_
  rintro k ⟨_, _, _, _, hb, _⟩
  exact absurd hb List.not_mem_nil

theorem Extends.filled_subset (hx : Extends t t') (hw : t.WF) (hw' : t'.WF) (hs : t.Has s) :
    t.filled s ⊆ t'.filled s := by
  choose! new hnew using hx.entries
  rw [filled_append (n := new) hx hw hw' hs fun o ho => (hnew o (has_of_mem_path ho hs)).symm]
  exact Set.subset_union_left

/-- An empty block has what the scope around it has. -/
theorem WF.filled_block (hw : t.WF) {p : ScopeId} (hp : t.parent s = some p)
    (hk : (t.get s).kind = .block) (he : (t.get s).entries = []) : t.filled s = t.filled p := by
  have hm : t.owningMethod s = t.owningMethod p :=
    hw.owningMethod_of_parent (by rw [hk]; rfl) hp
  ext k
  simp only [filled, Set.mem_ofPred_eq, hm, hw.path_of_parent hp, List.exists_mem_cons_iff, he]
  refine or_congr_right ⟨fun h => h.resolve_left ?_, Or.inr⟩
  rintro ⟨-, b, hb, -⟩
  exact absurd hb List.not_mem_nil

/-- A scope with a method of its own has what is reserved there and what it declares. -/
theorem WF.filled_of_owns (hw : t.WF) (howns : (t.get s).kind.ownsMethod = true) :
    t.filled s = {k | k < (t.get s).kind.reservedSlots} ∪ slotSet (t.get s).entries := by
  have hm := owningMethod_of_owns howns
  ext k
  simp only [filled, Set.mem_union, Set.mem_ofPred_eq, hm]
  refine or_congr_right ⟨?_, fun hk => ⟨s, mem_path_self t s, hm, hk⟩⟩
  rintro ⟨o, ho, hom, hk⟩
  have hmo := hw.owningMethod_mem_path o
  rw [hom] at hmo
  rwa [mem_path_antisymm ho hmo] at hk

/-- A type has no slots, and neither have the initial values of its static fields. -/
theorem Sound.filled_type (h : Sound t)
    (hk : (t.get s).kind = .type ∨ (t.get s).kind = .fieldInit) : t.filled s = ∅ := by
  rw [h.filled_of_owns (by rcases hk with hk | hk <;> rw [hk] <;> rfl), Set.union_empty_iff]
  refine ⟨?_, Set.eq_empty_of_forall_notMem ?_⟩
  · rcases hk with hk | hk <;> rw [hk] <;> exact Set.eq_empty_of_forall_notMem fun k hk =>
      Nat.not_lt_zero k hk
  · rintro k ⟨b, hb, hslot⟩
    obtain ⟨hmay, hsome⟩ := h.entries s b hb
    rcases hk with hk | hk <;> rw [MayDeclare, hk] at hmay
    · rw [hslot, Role.usesSlot_eq_false_of_isMember hmay.1] at hsome
      exact absurd hsome (by simp)
    · exact hmay

theorem Laid.filled_lt (h : Laid t) (hw : t.WF) (hs : t.Has s) :
    ∀ k ∈ t.filled s, k < t.numLocals s := by
  rintro k (hk | ⟨o, -, hom, hk⟩)
  · exact Nat.lt_of_lt_of_le hk (h.reserved _ (hw.has_owningMethod hs))
  · have hlt := h.below o k hk
    rwa [numLocals, hom] at hlt

/-! ## The named slots of a method -/

theorem getLast?_uptoMethod {xs : List ScopeId} (hm : m ∈ t.uptoMethod xs)
    (howns : (t.get m).kind.ownsMethod = true) : (t.uptoMethod xs).getLast? = some m := by
  induction xs with
  | nil => exact absurd hm List.not_mem_nil
  | cons x xs ih =>
    rw [uptoMethod] at hm ⊢
    cases hx : (t.get x).kind.ownsMethod with
    | true =>
      rw [hx, if_pos rfl, List.mem_singleton] at hm
      rw [if_pos rfl, hm]
      rfl
    | false =>
      rw [hx, if_neg Bool.false_ne_true, List.mem_cons] at hm
      have hrest := ih (hm.resolve_left (by
        rintro rfl
        exact Bool.false_ne_true (hx.symm.trans howns)))
      rw [if_neg Bool.false_ne_true, List.getLast?_cons, hrest]
      rfl

/-- The scopes that a method's slots are collected from are those of the method. -/
theorem owningMethod_of_mem_methodPath (hm : m ∈ t.methodPath s)
    (howns : (t.get m).kind.ownsMethod = true) : t.owningMethod s = m := by
  rw [owningMethod, methodPath, getLast?_uptoMethod hm howns, Option.getD_some]

theorem mem_methodPath_self (t : Scopes) (s : ScopeId) : s ∈ t.methodPath s := by
  rw [methodPath, path, pathWithin, uptoMethod]
  exact List.mem_cons_self

theorem owningMethod_mem_methodPath (t : Scopes) (s : ScopeId) :
    t.owningMethod s ∈ t.methodPath s := by
  have hne : t.methodPath s ≠ [] := List.ne_nil_of_mem (mem_methodPath_self t s)
  rw [owningMethod, List.getLast?_eq_some_getLast hne]
  exact List.getLast_mem hne

/-- Only bodies have slots. -/
theorem Sound.isBody_of_slot (h : Sound t) (hb : b ∈ (t.get s).entries) {k : Nat}
    (hk : b.slot = some k) : (t.get s).kind.isBody = true := by
  obtain ⟨hmay, hslot⟩ := h.entries s b hb
  rw [hk, Option.isSome_some] at hslot
  cases hkind : (t.get s).kind with
  | main | routine | block => rfl
  | fieldInit =>
    rw [MayDeclare, hkind] at hmay
    exact hmay.elim
  | type =>
    rw [MayDeclare, hkind] at hmay
    obtain ⟨hmember, -⟩ := hmay
    cases hrole : b.role <;> rw [hrole] at hslot hmember <;>
      first | exact absurd hslot (by decide) | exact absurd hmember (by decide)

/-- The method of a body has a body. -/
theorem Sound.isBody_owningMethod (h : Sound t) (hs : t.Has s)
    (hb : (t.get s).kind.isBody = true) : (t.get (t.owningMethod s)).kind.isBody = true := by
  induction s using h.toWF.induction with
  | root s hp => rwa [owningMethod_of_root hp]
  | child s p hp ih =>
    cases howns : (t.get s).kind.ownsMethod with
    | true => rwa [owningMethod_of_owns howns]
    | false =>
      rw [h.owningMethod_of_parent howns hp]
      refine ih (h.has_parent hp) ?_
      have hkind : (t.get s).kind = .block := by
        cases hk : (t.get s).kind <;> rw [hk] at howns <;> first | rfl | exact absurd howns (by decide)
      obtain ⟨hmain, -⟩ | ⟨q, hq, hopen⟩ := h.placed s hs
      · rw [hkind] at hmain
        exact absurd hmain (by simp)
      · obtain rfl := Option.some.inj (hq.symm.trans hp)
        rwa [hkind] at hopen

theorem mem_methodLocals {x : Binding} : x ∈ t.methodLocals m ↔
    ∃ s, t.Has s ∧ m ∈ t.methodPath s ∧ x ∈ (t.get s).entries ∧ x.slot.isSome = true := by
  simp only [methodLocals, List.mem_mergeSort, List.mem_flatMap, List.mem_filter, ids,
    List.mem_map, List.mem_range, List.contains_iff_mem]
  constructor
  · rintro ⟨s, ⟨⟨i, hi, rfl⟩, hm⟩, hx⟩
    exact ⟨_, hi, hm, hx⟩
  · rintro ⟨s, hs, hm, hx⟩
    exact ⟨s, ⟨⟨s.index, hs, rfl⟩, hm⟩, hx⟩

/-- No reserved slot has a name. -/
theorem Flat.reserved_le_methodLocals (h : Flat t) (howns : (t.get m).kind.ownsMethod = true) :
    ∀ k ∈ (t.methodLocals m).filterMap (·.slot), (t.get m).kind.reservedSlots ≤ k := by
  intro k hk
  obtain ⟨x, hx, hk⟩ := List.mem_filterMap.mp hk
  obtain ⟨s, -, hm, hx, -⟩ := mem_methodLocals.mp hx
  have hle := h.above s k ⟨x, hx, hk⟩
  rwa [owningMethod_of_mem_methodPath hm howns] at hle

/-- A slot is that of one binding of a scope. -/
theorem Flat.eq_of_slot (h : Flat t) (hb : b ∈ (t.get s).entries) (hb' : b' ∈ (t.get s).entries)
    {k : Nat} (hk : b.slot = some k) (hk' : b'.slot = some k) : b = b' := by
  have hslots : (((t.get s).entries.filter (·.slot.isSome)).map (·.slot)).Nodup := by
    have hnodup := List.Pairwise.imp (S := (· ≠ ·)) Nat.ne_of_lt (h.increasing s)
    have hmap := List.Nodup.map (Option.some_injective Nat) hnodup
    rwa [List.map_filterMap_some_eq_filter_map_isSome, List.filter_map] at hmap
  have hmem : ∀ {x}, x ∈ (t.get s).entries → x.slot = some k →
      x ∈ (t.get s).entries.filter (·.slot.isSome) := fun hx hkx =>
    List.mem_filter.mpr ⟨hx, by rw [hkx]; rfl⟩
  exact List.inj_on_of_nodup_map hslots (hmem hb hk) (hmem hb' hk') (hk.trans hk'.symm)

/-- No slot has two names. -/
theorem Flat.nodup_methodLocals (h : Flat t) (howns : (t.get m).kind.ownsMethod = true) :
    ((t.methodLocals m).filterMap (·.slot)).Nodup := by
  have hids : t.ids.Nodup :=
    List.Nodup.map (fun i j hij => congrArg ScopeId.index hij) List.nodup_range
  rw [methodLocals, ((List.mergeSort_perm _ _).filterMap _).nodup_iff, List.filterMap_flatMap,
    List.nodup_flatMap]
  refine ⟨fun s _ => ?_, ?_⟩
  · have hincreasing := (h.increasing s).imp (S := (· ≠ ·)) Nat.ne_of_lt
    exact hincreasing.sublist (List.filter_sublist.filterMap _)
  · refine List.Pairwise.imp_of_mem ?_ (hids.filter _)
    intro s s' hs hs' hne k hk hk'
    have howner : ∀ {x}, x ∈ t.ids.filter (fun id => (t.methodPath id).contains m) →
        t.owningMethod x = m := fun hx => owningMethod_of_mem_methodPath
      (List.contains_iff_mem.mp (List.mem_filter.mp hx).2) howns
    have hslots : ∀ {x}, k ∈ ((t.get x).entries.filter (·.slot.isSome)).filterMap (·.slot) →
        k ∈ slotSet (t.get x).entries := fun hk =>
      mem_filterMap_slot.mp ((List.filter_sublist.filterMap _).subset hk)
    exact h.apart s s' hne ((howner hs).trans (howner hs').symm) k (hslots hk) (hslots hk')

end Scopes

end Unnest
