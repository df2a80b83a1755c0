import Mathlib.Data.List.Forall2
import Unnest.Lowering.Basic
import Unnest.Proofs.Types.Comparing

/-!
# Unfolding types

A routine type that is made for a signature stands for a tree: the trees of the types that
the signature takes and gives.  Every other type stands for itself (`TypeTable.unfold`).
Comparing two types compares their trees, and finds them equal exactly if they are the same
(`IsTree.equal_iff`).

So everything that holds of equality of trees holds of equality of types: it is an
equivalence, lists are compared one by one, and what is looked up does not depend on which
of the types of one tree an argument has (`Built.structural`).  None of this can be read off the
comparison itself, which looks at the first signature of one side and at all signatures of
the other: it takes that a routine type has one signature, and that the types in it are
older (`Simple`).
-/

namespace Unnest

/-- The tree that a type stands for. -/
inductive Unfolding where
  /-- A type that is itself. -/
  | atom (id : TypeId)
  /-- Routine values that take and give values of these types. -/
  | routine (params : List Unfolding) (result : Option Unfolding)

namespace TypeTable

variable {t t' : TypeTable} {a b c : TypeId} {as bs : List TypeId} {s s' : Signature}
  {test : TypeId → TypeId → Option Bool}

/-- The tree of a type, to a depth. -/
def unfoldWithin (t : TypeTable) : Nat → TypeId → Unfolding
  | 0, id => .atom id
  | depth + 1, id =>
    if t.form id = .routine then
      match (t.get id).routines with
      | [] => .atom id
      | s :: _ =>
        .routine (s.params.map (t.unfoldWithin depth)) (s.result.map (t.unfoldWithin depth))
    else .atom id

/-- The tree of a type.  Signatures of routine types mention older types, so its depth is
at most the index of the type. -/
def unfold (t : TypeTable) (id : TypeId) : Unfolding := t.unfoldWithin (id.index + 1) id

/-- A type that stands for a tree: it is no routine type, or it has one signature, and the
types in that are older and stand for trees. -/
inductive IsTree (t : TypeTable) : TypeId → Prop
  | atom {a : TypeId} (form : t.form a ≠ .routine) : IsTree t a
  | routine {a : TypeId} {s : Signature} (form : t.form a = .routine)
      (hs : (t.get a).routines = [s]) (older : ∀ u ∈ signatureTypes s, u.index < a.index)
      (parts : ∀ u ∈ signatureTypes s, IsTree t u) : IsTree t a

theorem unfoldWithin_of_form_ne (h : t.form a ≠ .routine) (depth : Nat) :
    t.unfoldWithin depth a = .atom a := by
  cases depth with
  | zero => rfl
  | succ depth => rw [unfoldWithin, if_neg h]

theorem unfoldWithin_routine (h : t.form a = .routine) (hs : (t.get a).routines = [s])
    (depth : Nat) : t.unfoldWithin (depth + 1) a =
      .routine (s.params.map (t.unfoldWithin depth)) (s.result.map (t.unfoldWithin depth)) := by
  rw [unfoldWithin, if_pos h, hs]

theorem map_congr_signatureTypes {α : Type} {f g : TypeId → α}
    (h : ∀ u ∈ signatureTypes s, f u = g u) :
    s.params.map f = s.params.map g ∧ s.result.map f = s.result.map g :=
  ⟨List.map_congr_left fun u hu => h u (List.mem_append_left _ hu),
    Option.map_congr fun u hu => h u (List.mem_append_right _ (Option.mem_toList.mpr hu))⟩

theorem unfold_of_form_ne (h : t.form a ≠ .routine) : t.unfold a = .atom a :=
  unfoldWithin_of_form_ne h _

namespace IsTree

/-- The tree of a type does not depend on how deep one looks, once that is deep enough. -/
theorem unfoldWithin_eq (h : t.IsTree a) :
    ∀ {depth : Nat}, a.index < depth → t.unfoldWithin depth a = t.unfold a := by
  induction h with
  | atom hform =>
    intro depth _
    rw [unfoldWithin_of_form_ne hform, unfold_of_form_ne hform]
  | @routine a s hform hs older _ ih =>
    intro depth hlt
    obtain ⟨depth, rfl⟩ : ∃ n, depth = n + 1 := ⟨depth - 1, by omega⟩
    have hdeep : ∀ u ∈ signatureTypes s, t.unfoldWithin depth u = t.unfoldWithin a.index u :=
      fun u hu => by
        have hua := older u hu
        rw [ih u hu (by omega), ih u hu hua]
    obtain ⟨hparams, hresult⟩ := map_congr_signatureTypes hdeep
    rw [unfold, unfoldWithin_routine hform hs, unfoldWithin_routine hform hs, hparams, hresult]

/-- What a routine type that stands for a tree is made of. -/
theorem inside (h : t.IsTree a) (hform : t.form a = .routine) :
    ∃ s, (t.get a).routines = [s] ∧ ∀ u ∈ signatureTypes s, u.index < a.index ∧ t.IsTree u := by
  cases h with
  | atom hne => exact absurd hform hne
  | routine _ hs older parts => exact ⟨_, hs, fun u hu => ⟨older u hu, parts u hu⟩⟩

theorem unfold_routine (h : t.IsTree a) (hform : t.form a = .routine)
    (hs : (t.get a).routines = [s]) :
    t.unfold a = .routine (s.params.map t.unfold) (s.result.map t.unfold) := by
  obtain ⟨s', hs', hinside⟩ := h.inside hform
  obtain rfl := List.singleton_inj.mp (hs.symm.trans hs')
  have hdeep : ∀ u ∈ signatureTypes s, t.unfoldWithin a.index u = t.unfold u :=
    fun u hu => (hinside u hu).2.unfoldWithin_eq (hinside u hu).1
  obtain ⟨hparams, hresult⟩ := map_congr_signatureTypes hdeep
  rw [unfold, unfoldWithin_routine hform hs, hparams, hresult]

end IsTree

/-! ## Comparing trees -/

/-- The test holds of all pairs exactly if it holds of them one by one. -/
theorem allPairs_eq_true_iff :
    allPairs test as bs = some true ↔ List.Forall₂ (fun a b => test a b = some true) as bs := by
  induction as generalizing bs with
  | nil =>
    rw [List.forall₂_nil_left_iff]
    cases bs <;> simp [allPairs]
  | cons a as ih =>
    cases bs with
    | nil => simp [allPairs]
    | cons b bs =>
      rw [List.forall₂_cons, ← ih, allPairs, allPairs, List.length_cons, List.length_cons,
        List.zip_cons_cons, List.allM]
      simp only [Nat.add_right_cancel_iff]
      rcases test a b with _ | _ | _ <;> split <;> simp

theorem forall₂_iff_map_eq {α : Type} {R : TypeId → TypeId → Prop} {g : TypeId → α}
    (h : ∀ x ∈ as, ∀ y ∈ bs, (R x y ↔ g x = g y)) :
    List.Forall₂ R as bs ↔ as.map g = bs.map g := by
  induction as generalizing bs with
  | nil => cases bs <;> simp
  | cons a as ih =>
    cases bs with
    | nil => simp
    | cons b bs =>
      have hrest := ih fun x hx y hy =>
        h x (List.mem_cons_of_mem _ hx) y (List.mem_cons_of_mem _ hy)
      rw [List.forall₂_cons, hrest, h a List.mem_cons_self b List.mem_cons_self, List.map_cons,
        List.map_cons, List.cons.injEq]

theorem sameResult_eq_true_iff {α : Type} {g : TypeId → α} {x y : Option TypeId}
    (h : ∀ u ∈ x, ∀ v ∈ y, (test u v = some true ↔ g u = g v)) :
    sameResult test x y = some true ↔ x.map g = y.map g := by
  cases x <;> cases y
  case some.some u v =>
    rw [sameResult, h u rfl v rfl, Option.map_some, Option.map_some, Option.some.injEq]
  all_goals simp [sameResult]

/-- A test that compares trees finds signatures the same if they have the same trees. -/
theorem sameSignature_eq_true_iff {α : Type} {g : TypeId → α}
    (h : ∀ u ∈ signatureTypes s, ∀ v ∈ signatureTypes s', (test u v = some true ↔ g u = g v)) :
    sameSignature test s s' = some true ↔
      s.params.map g = s'.params.map g ∧ s.result.map g = s'.result.map g := by
  have hparams : allPairs test s.params s'.params = some true ↔
      s.params.map g = s'.params.map g := allPairs_eq_true_iff.trans <|
    forall₂_iff_map_eq fun u hu v hv =>
      h u (List.mem_append_left _ hu) v (List.mem_append_left _ hv)
  have hresult := sameResult_eq_true_iff (x := s.result) (y := s'.result) fun u hu v hv =>
    h u (List.mem_append_right _ (Option.mem_toList.mpr hu)) v
      (List.mem_append_right _ (Option.mem_toList.mpr hv))
  rw [sameSignature, ← hparams, ← hresult]
  rcases allPairs test s.params s'.params with _ | _ | _ <;> simp

namespace IsTree

/-- Types of different forms, or of forms that are compared by themselves, have different
trees unless they are the same type. -/
theorem unfold_ne (ha : t.IsTree a) (hb : t.IsTree b) (hne : a ≠ b)
    (hform : ¬ (t.form a = .routine ∧ t.form b = .routine)) : t.unfold a ≠ t.unfold b := by
  by_cases hforma : t.form a = .routine
  · have hformb : t.form b ≠ .routine := fun hb => hform ⟨hforma, hb⟩
    obtain ⟨s, hs, -⟩ := ha.inside hforma
    rw [ha.unfold_routine hforma hs, unfold_of_form_ne hformb]
    exact Unfolding.noConfusion
  · rw [unfold_of_form_ne hforma]
    by_cases hformb : t.form b = .routine
    · obtain ⟨s, hs, -⟩ := hb.inside hformb
      rw [hb.unfold_routine hformb hs]
      exact Unfolding.noConfusion
    · rw [unfold_of_form_ne hformb]
      exact fun heq => hne (Unfolding.atom.inj heq)

/-- A comparison that may go deep enough finds types equal if they have the same tree. -/
theorem equalWithin_eq_true_iff {depth : Nat} :
    ∀ {a b : TypeId}, t.IsTree a → t.IsTree b → a.index < depth →
      (t.equalWithin depth a b = some true ↔ t.unfold a = t.unfold b) := by
  induction depth with
  | zero => exact fun _ _ hlt => absurd hlt (Nat.not_lt_zero _)
  | succ depth ih =>
    intro a b ha hb hlt
    by_cases heq : a = b
    · subst heq
      exact iff_of_true (by rw [equalWithin, if_pos rfl]) rfl
    · by_cases hform : t.form a = .routine ∧ t.form b = .routine
      · obtain ⟨s, hs, hinside⟩ := ha.inside hform.1
        obtain ⟨s', hs', hinside'⟩ := hb.inside hform.2
        have hsame : sameSignature (t.equalWithin depth) s s' = some true ↔
            s.params.map t.unfold = s'.params.map t.unfold ∧
              s.result.map t.unfold = s'.result.map t.unfold := by
          refine sameSignature_eq_true_iff fun u hu v hv => ?_
          have hua := (hinside u hu).1
          exact ih (hinside u hu).2 (hinside' v hv).2 (by omega)
        rw [equalWithin_succ (has_of_routine hform.1) (has_of_routine hform.2), if_neg heq,
          if_pos hform, ha.unfold_routine hform.1 hs, hb.unfold_routine hform.2 hs',
          Unfolding.routine.injEq, ← hsame, hs, hs', List.head?_cons, Option.elim_some, List.anyM]
        rcases sameSignature (t.equalWithin depth) s s' with _ | _ | _ <;> simp [List.anyM]
      · exact iff_of_false (fun h => (eq_or_routine_of_equalWithin h).elim heq hform)
          (ha.unfold_ne hb heq hform)

/-- Types are equal if and only if they have the same tree. -/
theorem equal?_eq_true_iff (ha : t.IsTree a) (hb : t.IsTree b) :
    t.equal? a b = some true ↔ t.unfold a = t.unfold b := by
  by_cases hform : t.form a = .routine
  · exact equalWithin_eq_true_iff ha hb (lt_depth (has_of_routine hform))
  · by_cases heq : a = b
    · subst heq
      exact iff_of_true (equal?_self t a) rfl
    · exact iff_of_false (fun h => (eq_or_routine_of_equal h).elim heq fun hab => hform hab.1)
        (ha.unfold_ne hb heq fun hab => hform hab.1)

end IsTree

/-! ## What equal types have in common -/

theorem equal_eq_true_iff : t.equal a b = true ↔ t.equal? a b = some true := by
  rw [equal]
  rcases t.equal? a b with _ | _ | _ <;> simp

/-- Lists of types are compared one by one. -/
theorem argsEqual_eq_true_iff :
    t.argsEqual as bs = true ↔ List.Forall₂ (fun a b => t.equal a b = true) as bs := by
  have hall : t.argsEqual? as bs = some true ↔
      List.Forall₂ (fun a b => t.equal a b = true) as bs := by
    simp only [argsEqual?, allPairs_eq_true_iff, equal_eq_true_iff]
  rw [← hall, argsEqual]
  rcases t.argsEqual? as bs with _ | _ | _ <;> simp

/-- What cannot be compared is what would have to be looked up and is not there. -/
theorem Descending.equal?_isSome_iff (h : t.Descending) :
    (t.equal? a b).isSome = true ↔ a = b ∨ t.Has a ∧ t.Has b := by
  constructor
  · intro hsome
    by_contra hnot
    rw [not_or, not_and_or] at hnot
    rw [equal?, equalWithin, if_neg hnot.1] at hsome
    rcases hnot.2 with ha | hb
    · have hget : t.get? a = none := Array.getElem?_eq_none (Nat.le_of_not_lt ha)
      simp [hget] at hsome
    · have hget : t.get? b = none := Array.getElem?_eq_none (Nat.le_of_not_lt hb)
      simp [hget] at hsome
  · rintro (rfl | ⟨ha, hb⟩)
    · rw [equal?_self, Option.isSome_some]
    · exact h.equal?_isSome ha hb

theorem eq_of_isSome_iff {x y : Option Bool} (hsome : x.isSome = true ↔ y.isSome = true)
    (htrue : x = some true ↔ y = some true) : x = y := by
  rcases x with _ | _ | _ <;> rcases y with _ | _ | _ <;> simp_all

theorem allPairs_congr_right (cs : List TypeId)
    (h : List.Forall₂ (fun a b => ∀ c, test c a = test c b) as bs) :
    allPairs test cs as = allPairs test cs bs := by
  have hzip : (cs.zip as).allM (fun p => test p.1 p.2) =
      (cs.zip bs).allM fun p => test p.1 p.2 := by
    induction h generalizing cs with
    | nil => rfl
    | cons hab _ ih =>
      cases cs with
      | nil => rfl
      | cons c cs => rw [List.zip_cons_cons, List.zip_cons_cons, List.allM, List.allM, hab c, ih cs]
  rw [allPairs, allPairs, h.length_eq, hzip]

theorem IsTree.equal_iff (ha : t.IsTree a) (hb : t.IsTree b) :
    t.equal a b = true ↔ t.unfold a = t.unfold b :=
  equal_eq_true_iff.trans (ha.equal?_eq_true_iff hb)

/-! ## Tables of simple types -/

/-- Every routine type has one signature, and that mentions older types. -/
structure Simple (t : TypeTable) : Prop where
  single : ∀ id, t.form id = .routine → ∃ s, (t.get id).routines = [s] ∧ s.name = Reserved.call
  older : t.Descending

namespace Simple

theorem isTree (h : t.Simple) (a : TypeId) : t.IsTree a := by
  obtain ⟨i, hi⟩ : ∃ i, i = a.index := ⟨_, rfl⟩
  induction i using Nat.strong_induction_on generalizing a with
  | _ i ih =>
    subst hi
    by_cases hform : t.form a = .routine
    · obtain ⟨s, hs, -⟩ := h.single a hform
      have holder := h.older a hform s (hs ▸ List.mem_cons_self)
      exact .routine hform hs holder fun u hu => ih u.index (holder u hu) u rfl
    · exact .atom hform

theorem unfold_routine (h : t.Simple) (hform : t.form a = .routine)
    (hs : (t.get a).routines = [s]) :
    t.unfold a = .routine (s.params.map t.unfold) (s.result.map t.unfold) :=
  (h.isTree a).unfold_routine hform hs

theorem equal?_eq_true_iff (h : t.Simple) (a b : TypeId) :
    t.equal? a b = some true ↔ t.unfold a = t.unfold b :=
  (h.isTree a).equal?_eq_true_iff (h.isTree b)

theorem equal_iff (h : t.Simple) (a b : TypeId) :
    t.equal a b = true ↔ t.unfold a = t.unfold b :=
  (h.isTree a).equal_iff (h.isTree b)

theorem equivalence_equal (h : t.Simple) : Equivalence fun a b => t.equal a b = true where
  refl a := equal_self t a
  symm hab := (h.equal_iff _ _).mpr ((h.equal_iff _ _).mp hab).symm
  trans hab hbc :=
    (h.equal_iff _ _).mpr (((h.equal_iff _ _).mp hab).trans ((h.equal_iff _ _).mp hbc))

/-- What a type is compared with may be exchanged for an equal type, on either side. -/
theorem equal?_congr (h : t.Simple) (hab : t.equal a b = true) (c : TypeId) :
    t.equal? c a = t.equal? c b ∧ t.equal? a c = t.equal? b c := by
  have htree := (h.equal_iff a b).mp hab
  rcases eq_or_routine_of_equal (equal_eq_true_iff.mp hab) with rfl | ⟨hforma, hformb⟩
  · exact ⟨rfl, rfl⟩
  · have ha := has_of_routine hforma
    have hb := has_of_routine hformb
    have hleft : ∀ x, t.Has x → ((t.equal? c x).isSome = true ↔ t.Has c) := fun x hx => by
      rw [h.older.equal?_isSome_iff]
      exact ⟨fun hc => hc.elim (fun heq => heq ▸ hx) And.left, fun hc => Or.inr ⟨hc, hx⟩⟩
    have hright : ∀ x, t.Has x → ((t.equal? x c).isSome = true ↔ t.Has c) := fun x hx => by
      rw [h.older.equal?_isSome_iff]
      exact ⟨fun hc => hc.elim (fun heq => heq ▸ hx) And.right, fun hc => Or.inr ⟨hx, hc⟩⟩
    constructor
    · refine eq_of_isSome_iff ((hleft a ha).trans (hleft b hb).symm) ?_
      rw [h.equal?_eq_true_iff, h.equal?_eq_true_iff, htree]
    · refine eq_of_isSome_iff ((hright a ha).trans (hright b hb).symm) ?_
      rw [h.equal?_eq_true_iff, h.equal?_eq_true_iff, htree]

/-- A lookup does not tell equal arguments apart. -/
theorem lookup?_congr (h : t.Simple) (hargs : t.argsEqual as bs = true) (type : TypeId)
    (isStatic : Bool) (name : String) :
    t.lookup? type isStatic name as = t.lookup? type isStatic name bs := by
  have haccepts : t.accepts? name as = t.accepts? name bs := by
    funext s
    have hpairs := allPairs_congr_right s.params <|
      (argsEqual_eq_true_iff.mp hargs).imp fun _ _ hab c => (h.equal?_congr hab c).1
    rw [accepts?, accepts?, argsEqual?, argsEqual?, hpairs]
  rw [lookup?, lookup?, haccepts]

/-- Routine types have the call routine and no other. -/
theorem lookup?_routine (h : t.Simple) (hform : t.form a = .routine) {name : String}
    (hname : name ≠ Reserved.call) : t.lookup? a false name as = some none := by
  obtain ⟨s, hs, hcall⟩ := h.single a hform
  have haccepts : t.accepts? name as s = some false := by
    rw [accepts?, if_neg fun heq => hname (heq.symm.trans hcall)]
  have hroutines : (t.get a).routinesOf false = [s] := hs
  rw [lookup?, get?_eq (has_of_routine hform), Option.bind_eq_bind, Option.bind_some, hroutines,
    List.findM?, haccepts]
  rfl

/-- Whether a value may be written does not tell equal targets or equal values apart. -/
theorem assignable_congr (h : t.Simple) (hasBinding : Bool)
    {target target' value value' : TypeId} (htarget : t.equal target target' = true)
    (hvalue : t.equal value value' = true) :
    t.assignable? hasBinding target value = t.assignable? hasBinding target' value' ∧
      t.assignable hasBinding target value = t.assignable hasBinding target' value' := by
  have hequal : t.equal? target value = t.equal? target' value' :=
    (h.equal?_congr hvalue target).1.trans (h.equal?_congr htarget value').2
  have hargs : t.argsEqual [value] [value'] = true :=
    argsEqual_eq_true_iff.mpr (.cons hvalue .nil)
  have hlookup : t.lookup? target false Reserved.assignment [value] =
      t.lookup? target' false Reserved.assignment [value'] := by
    rw [h.lookup?_congr hargs]
    rcases eq_or_routine_of_equal (equal_eq_true_iff.mp htarget) with rfl | ⟨hform, hform'⟩
    · rfl
    · rw [h.lookup?_routine hform (by decide), h.lookup?_routine hform' (by decide)]
  rw [assignable?, assignable?, assignable, assignable, lookup, lookup, equal, equal, hlookup,
    hequal]
  exact ⟨rfl, rfl⟩

/-- Values of types of one tree have one descriptor. -/
theorem descriptor_eq (h : t.Simple) (htree : t.unfold a = t.unfold b) :
    t.descriptor a = t.descriptor b :=
  descriptor_eq_of_equal (.refl t) ((h.equal?_eq_true_iff a b).mpr htree)

/-- The call routines of routine types of one tree have one descriptor. -/
theorem descriptorOf_eq (h : t.Simple) (hab : t.equal a b = true) (ha : t.form a = .routine)
    (hb : t.form b = .routine) (hs : s ∈ (t.get a).routines) (hs' : s' ∈ (t.get b).routines)
    {z : Analysis} (hz : z.types = t) :
    Lowering.descriptorOf z s = Lowering.descriptorOf z s' := by
  obtain ⟨x, hx, -⟩ := h.single a ha
  obtain ⟨y, hy, -⟩ := h.single b hb
  rw [hx, List.mem_singleton] at hs
  rw [hy, List.mem_singleton] at hs'
  subst hs hs' hz
  have htree := (h.equal_iff a b).mp hab
  rw [h.unfold_routine ha hx, h.unfold_routine hb hy, Unfolding.routine.injEq] at htree
  have hparams : s.params.map z.types.descriptor = s'.params.map z.types.descriptor :=
    (forall₂_iff_map_eq fun _ _ _ _ => Iff.rfl).mp <|
      ((forall₂_iff_map_eq fun _ _ _ _ => Iff.rfl).mpr htree.1).imp fun _ _ => h.descriptor_eq
  have hresult : s.result.map z.types.descriptor = s'.result.map z.types.descriptor := by
    obtain ⟨-, hresult⟩ := htree
    cases hr : s.result <;> cases hr' : s'.result <;> rw [hr, hr'] at hresult
    case some.some u v => exact congrArg some (h.descriptor_eq (Option.some.inj hresult))
    all_goals exact absurd hresult (by simp)
  rw [Lowering.descriptorOf, Lowering.descriptorOf, hparams, hresult]

/-! ## Keeping types simple -/

theorem of_routines (h : t.Simple) (hsame : ∀ id, t'.form id = .routine →
    t.form id = .routine ∧ (t'.get id).routines = (t.get id).routines) : t'.Simple where
  single id hform := by
    obtain ⟨hold, hroutines⟩ := hsame id hform
    exact hroutines ▸ h.single id hold
  older id hform := by
    obtain ⟨hold, hroutines⟩ := hsame id hform
    exact hroutines ▸ h.older id hold

theorem add (h : t.Simple) {d : TypeDecl} (hd : d.form ≠ .routine) : (t.add d).2.Simple := by
  refine h.of_routines fun id hform => ?_
  have hhas := has_of_routine hform
  rw [form] at hform
  by_cases hnew : id = (t.add d).1
  · rw [hnew, get_add_new] at hform
    exact absurd hform hd
  · have hold : t.Has id := by
      by_contra hnot
      exact not_has_add hnew hnot hhas
    rw [get_add_old d hold] at hform ⊢
    exact ⟨hform, rfl⟩

/-- A routine type is made over types that are there. -/
theorem addRoutineType (h : t.Simple) {params : List TypeId} {result : Option TypeId}
    (hhas : ∀ u ∈ params ++ result.toList, t.Has u) :
    (t.addRoutineType params result).2.Simple := by
  have hcases : ∀ id, (t.addRoutineType params result).2.form id = .routine →
      id = ⟨t.size⟩ ∧ ((t.addRoutineType params result).2.get id).routines =
        [⟨Reserved.call, params, result⟩] ∨
      t.form id = .routine ∧
        ((t.addRoutineType params result).2.get id).routines = (t.get id).routines := by
    intro id hform
    by_cases hnew : id = ⟨t.size⟩
    · have hget := get_add_new t (.ofSignatures [⟨Reserved.call, params, result⟩])
      have hroutines := congrArg TypeDecl.routines hget
      subst hnew
      exact Or.inl ⟨rfl, hroutines⟩
    · have hold : t.Has id := by
        by_contra hnot
        exact not_has_add hnew hnot (has_of_routine hform)
      rw [form, TypeTable.addRoutineType, get_add_old _ hold] at hform
      rw [TypeTable.addRoutineType, get_add_old _ hold]
      exact Or.inr ⟨hform, rfl⟩
  refine ⟨fun id hform => ?_, fun id hform s hs u hu => ?_⟩
  · rcases hcases id hform with ⟨-, hnew⟩ | ⟨hold, hsame⟩
    · exact ⟨_, hnew, rfl⟩
    · exact hsame ▸ h.single id hold
  · rcases hcases id hform with ⟨rfl, hnew⟩ | ⟨hold, hsame⟩
    · rw [hnew, List.mem_singleton] at hs
      subst hs
      exact hhas u hu
    · exact h.older id hold s (hsame ▸ hs) u hu

theorem update (h : t.Simple) {id : TypeId} {f : TypeDecl → TypeDecl}
    (hform : ∀ d, (f d).form = d.form)
    (hroutines : t.form id = .routine → ∀ d, (f d).routines = d.routines) :
    (t.update id f).Simple := by
  refine h.of_routines fun other hother => ?_
  have hhas := has_update.mp (has_of_routine hother)
  rw [form] at hother
  by_cases heq : id = other
  · subst heq
    rw [get_update_self hhas, hform] at hother
    rw [get_update_self hhas]
    exact ⟨hother, hroutines hother _⟩
  · rw [get_update_of_ne heq] at hother ⊢
    exact ⟨hother, rfl⟩

theorem predefined (base : String) : (TypeTable.predefined base).Simple := by
  have hnone : ∀ id, (TypeTable.predefined base).form id ≠ .routine := fun id hform => by
    rcases (form_predefined (has_of_routine hform)).1 with h | h <;>
      exact absurd (h.symm.trans hform) (by decide)
  exact ⟨fun id hform => absurd hform (hnone id), fun id hform => absurd hform (hnone id)⟩

end Simple

/-! ## Tables that are built -/

/-- The tables that are built from the predefined types: types that are no routine types are
added as they come and get members and paths at any time, and routine types are made over
types that are there. -/
inductive Built : TypeTable → Prop
  | predefined (base : String) : Built (.predefined base)
  | add {t : TypeTable} {d : TypeDecl} (h : Built t) (hd : d.form ≠ .routine) : Built (t.add d).2
  | addRoutineType {t : TypeTable} {params : List TypeId} {result : Option TypeId} (h : Built t)
      (hhas : ∀ u ∈ params ++ result.toList, t.Has u) : Built (t.addRoutineType params result).2
  | addRoutine {t : TypeTable} {id : TypeId} (h : Built t) (hid : t.form id ≠ .routine)
      (isStatic : Bool) (s : Signature) : Built (t.update id fun d => d.addRoutine isStatic s)
  | addFields {t : TypeTable} {id : TypeId} (h : Built t) (hid : t.form id ≠ .routine)
      (isStatic : Bool) (bs : List Binding) : Built (t.update id fun d => d.addFields isStatic bs)
  | setPath {t : TypeTable} (h : Built t) (id : TypeId) (path : String) : Built (t.setPath id path)

theorem Built.simple (h : t.Built) : t.Simple := by
  induction h with
  | predefined base => exact .predefined base
  | add _ hd ih => exact ih.add hd
  | addRoutineType _ hhas ih => exact ih.addRoutineType hhas
  | addRoutine _ hid isStatic s ih =>
    exact ih.update (fun d => by cases isStatic <;> rfl) fun hform => absurd hform hid
  | addFields _ hid isStatic bs ih =>
    exact ih.update (fun d => by cases isStatic <;> rfl) fun hform => absurd hform hid
  | setPath _ id path ih => exact ih.update (fun _ => rfl) fun _ _ => rfl

/-- Equality of types is equality of their trees, with what follows from that. -/
structure Structural (t : TypeTable) : Prop where
  /-- A type that is no routine type stands for itself. -/
  atom : ∀ a, t.form a ≠ .routine → t.unfold a = .atom a
  /-- A routine type has one signature and stands for the trees of the types in it. -/
  routine : ∀ a, t.form a = .routine → ∃ s, (t.get a).routines = [s] ∧
    t.unfold a = .routine (s.params.map t.unfold) (s.result.map t.unfold)
  /-- Types of the table can be compared. -/
  answers : ∀ a b, t.Has a → t.Has b → (t.equal? a b).isSome = true
  equal_iff : ∀ a b, t.equal a b = true ↔ t.unfold a = t.unfold b
  equivalence : Equivalence fun a b => t.equal a b = true
  argsEqual_iff : ∀ as bs, t.argsEqual as bs = true ↔
    List.Forall₂ (fun a b => t.equal a b = true) as bs
  /-- Looking up an instance routine or a static one does not tell equal arguments apart, not
  even by failing. -/
  lookup : ∀ type isStatic name as bs, t.argsEqual as bs = true →
    t.lookup? type isStatic name as = t.lookup? type isStatic name bs ∧
      t.lookup type isStatic name as = t.lookup type isStatic name bs
  /-- Nor does it matter which of equal values is written into which of equal targets. -/
  assignable : ∀ hasBinding target target' value value', t.equal target target' = true →
    t.equal value value' = true →
      t.assignable? hasBinding target value = t.assignable? hasBinding target' value' ∧
        t.assignable hasBinding target value = t.assignable hasBinding target' value'
  descriptor : ∀ a b, t.equal a b = true → t.descriptor a = t.descriptor b
  /-- Calls of equal routine types have one descriptor. -/
  callDescriptor : ∀ a b, t.equal a b = true → t.form a = .routine → t.form b = .routine →
    ∀ s ∈ (t.get a).routines, ∀ s' ∈ (t.get b).routines, ∀ z : Analysis, z.types = t →
      Lowering.descriptorOf z s = Lowering.descriptorOf z s'

/-- However a table is built, its types are equal exactly if they unfold to one tree. -/
theorem Built.structural (h : t.Built) : t.Structural where
  atom _ hform := unfold_of_form_ne hform
  routine a hform := by
    obtain ⟨s, hs, -⟩ := h.simple.single a hform
    exact ⟨s, hs, h.simple.unfold_routine hform hs⟩
  answers _ _ ha hb := h.simple.older.equal?_isSome ha hb
  equal_iff := h.simple.equal_iff
  equivalence := h.simple.equivalence_equal
  argsEqual_iff _ _ := argsEqual_eq_true_iff
  lookup type isStatic name _ _ hargs := by
    have hlookup := h.simple.lookup?_congr hargs type isStatic name
    exact ⟨hlookup, congrArg Option.join hlookup⟩
  assignable hasBinding _ _ _ _ htarget hvalue :=
    h.simple.assignable_congr hasBinding htarget hvalue
  descriptor a b hab := h.simple.descriptor_eq ((h.simple.equal_iff a b).mp hab)
  callDescriptor _ _ hab ha hb _ hs _ hs' _ hz := h.simple.descriptorOf_eq hab ha hb hs hs' hz

/-- Two types of routines that take an integer and give a string, and over each of them a
type of routines that take such a routine and give nothing. -/
def layered : TypeTable :=
  let t := ((predefined "Base").addRoutineType [.integer] (some .string)).2
  let t := (t.addRoutineType [.integer] (some .string)).2
  ((t.addRoutineType [⟨6⟩] none).2.addRoutineType [⟨7⟩] none).2

theorem built_layered : layered.Built := by
  refine .addRoutineType (.addRoutineType (.addRoutineType (.addRoutineType (.predefined "Base")
    ?_) ?_) ?_) ?_
  all_goals decide

/-- The two types over them are equal, and so any lookup treats them the same. -/
theorem structural_layered : layered.Built ∧ layered.equal ⟨8⟩ ⟨9⟩ = true ∧
    layered.unfold ⟨8⟩ = layered.unfold ⟨9⟩ ∧ layered.descriptor ⟨8⟩ = layered.descriptor ⟨9⟩ := by
  have hequal : layered.equal ⟨8⟩ ⟨9⟩ = true := by decide +kernel
  have hs := built_layered.structural
  exact ⟨built_layered, hequal, (hs.equal_iff ⟨8⟩ ⟨9⟩).mp hequal, hs.descriptor ⟨8⟩ ⟨9⟩ hequal⟩

end TypeTable

end Unnest
