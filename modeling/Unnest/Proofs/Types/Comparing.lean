import Unnest.Proofs.Types.Growth

/-!
# Comparing types

A routine type is made when the types in its signatures are there, so these are older than
it is (`Descending`).  A comparison goes from a routine type to its signatures: it is at most
as deep as the index of the type that it starts from, and finds every type that it looks at
(`Descending.equal?_isSome`).  More depth does not change what it answers
(`Descending.equalWithin_eq`).

Types that are equal are the same type, or both are routine types.  Either way their values
have one descriptor (`descriptor_eq_of_equal`).

As long as types keep the routines that they have, what a comparison answers and what a lookup
finds does not change when types are added (`KeepsRoutines.lookup`).  That nothing is found
does not change either, if the lookup did not leave the table (`KeepsRoutines.lookup_eq`).
-/

namespace Unnest

/-! ## Tests that answer -/

section Tests

variable {α : Type} {xs : List α} {p q : α → Option Bool}

theorem allM_isSome (h : ∀ x ∈ xs, (p x).isSome = true) : (xs.allM p).isSome = true := by
  induction xs with
  | nil => rfl
  | cons x xs ih =>
    obtain ⟨hx, hxs⟩ := List.forall_mem_cons.mp h
    obtain ⟨b, hb⟩ := Option.isSome_iff_exists.mp hx
    rw [List.allM, hb]
    cases b
    · rfl
    · exact ih hxs

theorem allM_congr (h : ∀ x ∈ xs, p x = q x) : xs.allM p = xs.allM q := by
  induction xs with
  | nil => rfl
  | cons x xs ih =>
    obtain ⟨hx, hxs⟩ := List.forall_mem_cons.mp h
    rw [List.allM, List.allM, hx, ih hxs]

theorem anyM_isSome (h : ∀ x ∈ xs, (p x).isSome = true) : (xs.anyM p).isSome = true := by
  induction xs with
  | nil => rfl
  | cons x xs ih =>
    obtain ⟨hx, hxs⟩ := List.forall_mem_cons.mp h
    obtain ⟨b, hb⟩ := Option.isSome_iff_exists.mp hx
    rw [List.anyM, hb]
    cases b
    · exact ih hxs
    · rfl

theorem anyM_congr (h : ∀ x ∈ xs, p x = q x) : xs.anyM p = xs.anyM q := by
  induction xs with
  | nil => rfl
  | cons x xs ih =>
    obtain ⟨hx, hxs⟩ := List.forall_mem_cons.mp h
    rw [List.anyM, List.anyM, hx, ih hxs]

theorem findM?_isSome (h : ∀ x ∈ xs, (p x).isSome = true) : (xs.findM? p).isSome = true := by
  induction xs with
  | nil => rfl
  | cons x xs ih =>
    obtain ⟨hx, hxs⟩ := List.forall_mem_cons.mp h
    obtain ⟨b, hb⟩ := Option.isSome_iff_exists.mp hx
    rw [List.findM?, hb]
    cases b
    · exact ih hxs
    · rfl

theorem allM_eq_some {r : Bool} (h : ∀ x b, p x = some b → q x = some b)
    (hr : xs.allM p = some r) : xs.allM q = some r := by
  induction xs with
  | nil => exact hr
  | cons x xs ih =>
    rw [List.allM, Option.bind_eq_bind, Option.bind_eq_some_iff] at hr
    obtain ⟨b, hb, hr⟩ := hr
    rw [List.allM, h x b hb]
    cases b
    · exact hr
    · exact ih hr

theorem anyM_eq_some {r : Bool} (h : ∀ x b, p x = some b → q x = some b)
    (hr : xs.anyM p = some r) : xs.anyM q = some r := by
  induction xs with
  | nil => exact hr
  | cons x xs ih =>
    rw [List.anyM, Option.bind_eq_bind, Option.bind_eq_some_iff] at hr
    obtain ⟨b, hb, hr⟩ := hr
    rw [List.anyM, h x b hb]
    cases b
    · exact ih hr
    · exact hr

theorem findM?_eq_some {r : Option α} (h : ∀ x b, p x = some b → q x = some b)
    (hr : xs.findM? p = some r) : xs.findM? q = some r := by
  induction xs with
  | nil => exact hr
  | cons x xs ih =>
    rw [List.findM?, Option.bind_eq_bind, Option.bind_eq_some_iff] at hr
    obtain ⟨b, hb, hr⟩ := hr
    rw [List.findM?, h x b hb]
    cases b
    · exact ih hr
    · exact hr

theorem eq_true_of_allM (h : xs.allM p = some true) : ∀ x ∈ xs, p x = some true := by
  induction xs with
  | nil => exact List.forall_mem_nil _
  | cons x xs ih =>
    rw [List.allM, Option.bind_eq_bind, Option.bind_eq_some_iff] at h
    obtain ⟨b, hb, h⟩ := h
    cases b with
    | false => exact absurd h (by simp)
    | true => exact List.forall_mem_cons.mpr ⟨hb, ih h⟩

end Tests

namespace TypeTable

variable {t t' : TypeTable} {a b : TypeId} {as bs : List TypeId} {s c : Signature}
  {f g : TypeId → TypeId → Option Bool}

/-! ## Lists and signatures -/

theorem allPairs_isSome (h : ∀ x ∈ as, ∀ y ∈ bs, (f x y).isSome = true) :
    (allPairs f as bs).isSome = true := by
  rw [allPairs]
  split
  · exact allM_isSome fun p hp => h p.1 (List.of_mem_zip hp).1 p.2 (List.of_mem_zip hp).2
  · rfl

theorem allPairs_congr (h : ∀ x ∈ as, ∀ y ∈ bs, f x y = g x y) :
    allPairs f as bs = allPairs g as bs := by
  rw [allPairs, allPairs,
    allM_congr fun p hp => h p.1 (List.of_mem_zip hp).1 p.2 (List.of_mem_zip hp).2]

/-- The types in a signature. -/
abbrev signatureTypes (s : Signature) : List TypeId := s.params ++ s.result.toList

theorem sameResult_isSome {a b : Option TypeId} (h : ∀ x ∈ a, ∀ y ∈ b, (f x y).isSome = true) :
    (sameResult f a b).isSome = true := by
  cases a <;> cases b
  case some.some a b => exact h a rfl b rfl
  all_goals rfl

theorem sameResult_congr {a b : Option TypeId} (h : ∀ x ∈ a, ∀ y ∈ b, f x y = g x y) :
    sameResult f a b = sameResult g a b := by
  cases a <;> cases b
  case some.some a b => exact h a rfl b rfl
  all_goals rfl

theorem sameSignature_isSome
    (h : ∀ x ∈ signatureTypes s, ∀ y ∈ signatureTypes c, (f x y).isSome = true) :
    (sameSignature f s c).isSome = true := by
  have hparams : (allPairs f s.params c.params).isSome = true := allPairs_isSome fun x hx y hy =>
    h x (List.mem_append_left _ hx) y (List.mem_append_left _ hy)
  obtain ⟨same, hsame⟩ := Option.isSome_iff_exists.mp hparams
  rw [sameSignature, hsame]
  cases same
  · rfl
  · exact sameResult_isSome fun x hx y hy => h x (List.mem_append_right _ (Option.mem_toList.mpr hx))
      y (List.mem_append_right _ (Option.mem_toList.mpr hy))

theorem sameSignature_congr
    (h : ∀ x ∈ signatureTypes s, ∀ y ∈ signatureTypes c, f x y = g x y) :
    sameSignature f s c = sameSignature g s c := by
  rw [sameSignature, sameSignature,
    allPairs_congr fun x hx y hy => h x (List.mem_append_left _ hx) y (List.mem_append_left _ hy),
    sameResult_congr fun x hx y hy => h x (List.mem_append_right _ (Option.mem_toList.mpr hx))
      y (List.mem_append_right _ (Option.mem_toList.mpr hy))]

/-! ## Closed tables -/

/-- Types mention types of the table, and routine types older ones. -/
structure Closed (t : TypeTable) : Prop where
  has : ∀ id isStatic, ∀ s ∈ (t.get id).routinesOf isStatic, ∀ u ∈ signatureTypes s, t.Has u
  older : ∀ id, t.form id = .routine → ∀ s ∈ (t.get id).routines, ∀ u ∈ signatureTypes s,
    u.index < id.index

/-- Routine types mention older types. -/
def Descending (t : TypeTable) : Prop :=
  ∀ id, t.form id = .routine → ∀ s ∈ (t.get id).routines, ∀ u ∈ signatureTypes s,
    u.index < id.index

theorem Closed.descending (h : t.Closed) : t.Descending := h.older

theorem get?_eq (h : t.Has a) : t.get? a = some (t.get a) := by
  have hget : t.get? a = some t.types[a.index] := Array.getElem?_eq_getElem h
  rw [get, hget, Option.getD_some]

/-- What a comparison of two types of the table does. -/
theorem equalWithin_succ (ha : t.Has a) (hb : t.Has b) (depth : Nat) :
    t.equalWithin (depth + 1) a b = if a = b then some true
      else if t.form a = .routine ∧ t.form b = .routine then
        (t.get a).routines.head?.elim (some false) fun s =>
          (t.get b).routines.anyM (sameSignature (t.equalWithin depth) s)
      else some false := by
  rw [equalWithin, get?_eq ha, get?_eq hb, form, form]
  simp only [Option.bind_eq_bind, Option.bind_some]
  cases (t.get a).routines <;> rfl

theorem lt_depth (h : t.Has a) : a.index < t.size * t.size + 1 :=
  Nat.lt_succ_of_lt (Nat.lt_of_lt_of_le h (Nat.le_mul_self _))

namespace Descending

/-- The types that a comparison of routine types goes on with. -/
theorem inside (h : t.Descending) (hform : t.form a = .routine) (hs : s ∈ (t.get a).routines)
    {x : TypeId} (hx : x ∈ signatureTypes s) : t.Has x ∧ x.index < a.index := by
  have hlt := h a hform s hs x hx
  exact ⟨Nat.lt_trans hlt (has_of_routine hform), hlt⟩

/-- A comparison answers once it may go as deep as the index of its first type. -/
theorem equalWithin_isSome (h : t.Descending) {depth : Nat} :
    ∀ {a b : TypeId}, t.Has a → t.Has b → a.index < depth →
      (t.equalWithin depth a b).isSome = true := by
  induction depth with
  | zero => exact fun _ _ hlt => absurd hlt (Nat.not_lt_zero _)
  | succ depth ih =>
    intro a b ha hb hlt
    rw [equalWithin_succ ha hb]
    split
    · rfl
    · split
      · rename_i hform
        cases hs : (t.get a).routines.head? with
        | none => rfl
        | some s =>
          refine anyM_isSome fun c hc => sameSignature_isSome fun x hx y hy => ?_
          obtain ⟨hxh, hxa⟩ := h.inside hform.1 (List.mem_of_head? hs) hx
          exact ih hxh (h.inside hform.2 hc hy).1 (by omega)
      · rfl

/-- What a comparison answers does not depend on how deep it may go. -/
theorem equalWithin_eq (h : t.Descending) {depth depth' : Nat} :
    ∀ {a b : TypeId}, t.Has a → t.Has b → a.index < depth → a.index < depth' →
      t.equalWithin depth a b = t.equalWithin depth' a b := by
  induction depth generalizing depth' with
  | zero => exact fun _ _ hlt => absurd hlt (Nat.not_lt_zero _)
  | succ depth ih =>
    intro a b ha hb hlt hlt'
    obtain ⟨depth', rfl⟩ : ∃ n, depth' = n + 1 := ⟨depth' - 1, by omega⟩
    rw [equalWithin_succ ha hb, equalWithin_succ ha hb]
    split
    · rfl
    · split
      · rename_i hform
        cases hs : (t.get a).routines.head? with
        | none => rfl
        | some s =>
          refine anyM_congr fun c hc => sameSignature_congr fun x hx y hy => ?_
          obtain ⟨hxh, hxa⟩ := h.inside hform.1 (List.mem_of_head? hs) hx
          exact ih hxh (h.inside hform.2 hc hy).1 (by omega) (by omega)
      · rfl

/-- Types of the table can be compared. -/
theorem equal?_isSome (h : t.Descending) (ha : t.Has a) (hb : t.Has b) :
    (t.equal? a b).isSome = true :=
  h.equalWithin_isSome ha hb (lt_depth ha)

theorem argsEqual?_isSome (h : t.Descending) (has : ∀ x ∈ as, t.Has x) (hbs : ∀ x ∈ bs, t.Has x) :
    (t.argsEqual? as bs).isSome = true :=
  allPairs_isSome fun x hx y hy => h.equal?_isSome (has x hx) (hbs y hy)

end Descending

namespace Closed

/-- Routines can be looked up on a type of the table. -/
theorem lookup?_isSome (h : t.Closed) (ha : t.Has a) (isStatic : Bool) (name : String)
    (has : ∀ x ∈ as, t.Has x) : (t.lookup? a isStatic name as).isSome = true := by
  rw [lookup?, get?_eq ha]
  refine findM?_isSome fun s hs => ?_
  rw [accepts?]
  split
  · exact h.descending.argsEqual?_isSome
      (fun x hx => h.has a isStatic s hs x (List.mem_append_left _ hx)) has
  · rfl

/-- Whether a value can be written into a target can be told of types of the table. -/
theorem assignable?_isSome (h : t.Closed) (ha : t.Has a) (hb : t.Has b) (hasBinding : Bool) :
    (t.assignable? hasBinding a b).isSome = true := by
  have hlookup := h.lookup?_isSome ha false Reserved.assignment (List.forall_mem_singleton.mpr hb)
  obtain ⟨routine, hroutine⟩ := Option.isSome_iff_exists.mp hlookup
  rw [assignable?, hroutine]
  cases routine
  · cases hasBinding
    · rfl
    · exact h.descending.equal?_isSome ha hb
  · rfl

end Closed

/-- Whatever analysis asks about types of the table has an answer, and comparing two of them
does not go deeper than the index of the first. -/
structure Answers (t : TypeTable) : Prop where
  equal : ∀ a b, t.Has a → t.Has b → (t.equal? a b).isSome = true
  depth : ∀ a b, t.Has a → t.Has b → t.equalWithin (a.index + 1) a b = t.equal? a b
  args : ∀ as bs, (∀ x ∈ as, t.Has x) → (∀ x ∈ bs, t.Has x) → (t.argsEqual? as bs).isSome = true
  lookup : ∀ a isStatic name as, t.Has a → (∀ x ∈ as, t.Has x) →
    (t.lookup? a isStatic name as).isSome = true
  assignable : ∀ hasBinding a b, t.Has a → t.Has b → (t.assignable? hasBinding a b).isSome = true

theorem Closed.answers (h : t.Closed) : t.Answers where
  equal _ _ := h.descending.equal?_isSome
  depth _ _ ha hb := h.descending.equalWithin_eq ha hb (Nat.lt_succ_self _) (lt_depth ha)
  args _ _ := h.descending.argsEqual?_isSome
  lookup _ isStatic name _ ha has := h.lookup?_isSome ha isStatic name has
  assignable hasBinding _ _ ha hb := h.assignable?_isSome ha hb hasBinding

/-! ## Equal types -/

/-- Types that are found equal are the same, or both are routine types. -/
theorem eq_or_routine_of_equalWithin {depth : Nat} (h : t.equalWithin depth a b = some true) :
    a = b ∨ t.form a = .routine ∧ t.form b = .routine := by
  cases depth with
  | zero => exact absurd h (by simp [equalWithin])
  | succ depth =>
    rw [equalWithin] at h
    split at h
    · exact Or.inl ‹_›
    · right
      rw [Option.bind_eq_bind, Option.bind_eq_some_iff] at h
      obtain ⟨x, hx, h⟩ := h
      rw [Option.bind_eq_some_iff] at h
      obtain ⟨y, hy, h⟩ := h
      split at h
      · rename_i hform
        rwa [form, form, get, get, hx, hy, Option.getD_some, Option.getD_some]
      · exact absurd h (by simp)

theorem eq_or_routine_of_equal (h : t.equal? a b = some true) :
    a = b ∨ t.form a = .routine ∧ t.form b = .routine := eq_or_routine_of_equalWithin h

/-- The values of equal types have one descriptor, then and later. -/
theorem descriptor_eq_of_equal (hx : t.Extends t') (h : t.equal? a b = some true) :
    t'.descriptor a = t'.descriptor b := by
  rcases eq_or_routine_of_equal h with rfl | ⟨ha, hb⟩
  · rfl
  · have ha' := hx.isRoutine ha
    have hb' := hx.isRoutine hb
    rw [form] at ha' hb'
    rw [descriptor, path, ha', descriptor, path, hb']

/-- So have the arguments of a call and the parameters of the routine that it finds. -/
theorem descriptors_of_argsEqual (hx : t.Extends t') (h : t.argsEqual? as bs = some true) :
    as.map t'.descriptor = bs.map t'.descriptor := by
  rw [argsEqual?, allPairs] at h
  split at h
  · rename_i hlength
    have hpairs := eq_true_of_allM h
    clear h
    induction as generalizing bs with
    | nil =>
      rw [List.length_nil] at hlength
      rw [List.length_eq_zero_iff.mp hlength.symm]
    | cons a as ih =>
      cases bs with
      | nil => exact absurd hlength (by simp)
      | cons b bs =>
        rw [List.zip_cons_cons, List.forall_mem_cons] at hpairs
        rw [List.map_cons, List.map_cons, descriptor_eq_of_equal hx hpairs.1,
          ih (Nat.succ.inj hlength) hpairs.2]
  · exact absurd h (by simp)

theorem descriptors_of_lookup (hx : t.Extends t') {isStatic : Bool} {name : String}
    (h : t.lookup a isStatic name as = some s) :
    s.params.map t'.descriptor = as.map t'.descriptor := by
  rw [lookup, Option.join_eq_some_iff, lookup?, Option.bind_eq_bind, Option.bind_eq_some_iff] at h
  obtain ⟨d, -, h⟩ := h
  have haccepts := (mem_of_findM? h).2
  rw [accepts?] at haccepts
  split at haccepts
  · exact descriptors_of_argsEqual hx haccepts
  · exact absurd haccepts (by simp)

/-! ## Later tables -/

section Later

variable {f g : TypeId → TypeId → Option Bool}

theorem allPairs_eq_some {r : Bool} (h : ∀ x y b, f x y = some b → g x y = some b)
    (hr : allPairs f as bs = some r) : allPairs g as bs = some r := by
  rw [allPairs] at hr ⊢
  split
  · rename_i hlength
    rw [if_pos hlength] at hr
    exact allM_eq_some (fun x => h x.1 x.2) hr
  · rename_i hlength
    rwa [if_neg hlength] at hr

theorem sameResult_eq_some {a b : Option TypeId} {r : Bool}
    (h : ∀ x y b, f x y = some b → g x y = some b) (hr : sameResult f a b = some r) :
    sameResult g a b = some r := by
  cases a <;> cases b
  case some.some a b => exact h a b r hr
  all_goals exact hr

theorem sameSignature_eq_some {r : Bool} (h : ∀ x y b, f x y = some b → g x y = some b)
    (hr : sameSignature f s c = some r) : sameSignature g s c = some r := by
  rw [sameSignature, Option.bind_eq_bind, Option.bind_eq_some_iff] at hr
  obtain ⟨same, hsame, hr⟩ := hr
  rw [sameSignature, allPairs_eq_some h hsame]
  cases same
  · exact hr
  · exact sameResult_eq_some h hr

/-- One table comes after another, and the types that were there have the routines that they
had. -/
structure KeepsRoutines (t t' : TypeTable) : Prop extends Extends t t' where
  same : ∀ id isStatic, t.Has id →
    (t'.get id).routinesOf isStatic = (t.get id).routinesOf isStatic
  kept : t.memberTypes <+: t'.memberTypes

namespace KeepsRoutines

theorem get? (h : KeepsRoutines t t') {d : TypeDecl} (hd : t.get? a = some d) :
    ∃ d', t'.get? a = some d' ∧ d'.form = d.form ∧
      ∀ isStatic, d'.routinesOf isStatic = d.routinesOf isStatic := by
  have hhas : t.Has a := by
    by_contra hnot
    rw [TypeTable.get?, Array.getElem?_eq_none (Nat.le_of_not_lt hnot)] at hd
    exact absurd hd (by simp)
  have hget := get?_eq hhas
  rw [hd] at hget
  obtain rfl := Option.some.inj hget
  exact ⟨t'.get a, get?_eq (h.has hhas), h.form a hhas, fun b => h.same a b hhas⟩

/-- A comparison that has an answer has it in later tables. -/
theorem equalWithin (h : KeepsRoutines t t') : {depth depth' : Nat} → {a b : TypeId} →
    {r : Bool} → depth ≤ depth' → t.equalWithin depth a b = some r →
      t'.equalWithin depth' a b = some r
  | 0, _, _, _, _, _, hr => absurd hr (by simp [TypeTable.equalWithin])
  | depth + 1, depth', a, b, r, hle, hr => by
    obtain ⟨depth', rfl⟩ : ∃ n, depth' = n + 1 := ⟨depth' - 1, by omega⟩
    rw [TypeTable.equalWithin] at hr ⊢
    split
    · rename_i heq
      rwa [if_pos heq] at hr
    · rename_i hne
      rw [if_neg hne, Option.bind_eq_bind, Option.bind_eq_some_iff] at hr
      obtain ⟨x, hx, hr⟩ := hr
      rw [Option.bind_eq_some_iff] at hr
      obtain ⟨y, hy, hr⟩ := hr
      obtain ⟨x', hx', hxf, hxr⟩ := h.get? hx
      obtain ⟨y', hy', hyf, hyr⟩ := h.get? hy
      have hxs : x'.routines = x.routines := hxr false
      have hys : y'.routines = y.routines := hyr false
      rw [hx', hy']
      simp only [Option.bind_eq_bind, Option.bind_some, hxf, hyf, hxs, hys]
      split
      · rename_i hform
        rw [if_pos hform] at hr
        cases hs : x.routines with
        | nil => rwa [hs] at hr
        | cons s ss =>
          rw [hs] at hr
          exact anyM_eq_some (fun c b hc => sameSignature_eq_some
            (fun u v b hb => h.equalWithin (Nat.le_of_succ_le_succ hle) hb) hc) hr
      · rename_i hform
        rwa [if_neg hform] at hr

theorem equal? (h : KeepsRoutines t t') {r : Bool} (hr : t.equal? a b = some r) :
    t'.equal? a b = some r :=
  h.equalWithin (Nat.succ_le_succ (Nat.mul_le_mul h.size_le h.size_le)) hr

theorem accepts? (h : KeepsRoutines t t') {name : String} {args : List TypeId} {r : Bool}
    (hr : t.accepts? name args s = some r) : t'.accepts? name args s = some r := by
  rw [TypeTable.accepts?] at hr ⊢
  split
  · rename_i hname
    rw [if_pos hname] at hr
    exact allPairs_eq_some (fun _ _ _ => h.equal?) hr
  · rename_i hname
    rwa [if_neg hname] at hr

/-- A lookup that does not leave the table finds the same later. -/
theorem lookup? (h : KeepsRoutines t t') {isStatic : Bool} {name : String} {args : List TypeId}
    {r : Option Signature} (hr : t.lookup? a isStatic name args = some r) :
    t'.lookup? a isStatic name args = some r := by
  rw [TypeTable.lookup?, Option.bind_eq_bind, Option.bind_eq_some_iff] at hr
  obtain ⟨d, hd, hr⟩ := hr
  obtain ⟨d', hd', -, hroutines⟩ := h.get? hd
  rw [TypeTable.lookup?, hd']
  simp only [Option.bind_eq_bind, Option.bind_some]
  rw [hroutines]
  exact findM?_eq_some (fun _ _ => h.accepts?) hr

/-- A routine that is found is found later. -/
theorem lookup (h : KeepsRoutines t t') {isStatic : Bool} {name : String} {args : List TypeId}
    (hs : t.lookup a isStatic name args = some s) : t'.lookup a isStatic name args = some s := by
  rw [TypeTable.lookup, Option.join_eq_some_iff] at hs ⊢
  exact h.lookup? hs

theorem lookup_eq_of_isSome (h : KeepsRoutines t t') {isStatic : Bool} {name : String}
    (hr : (t.lookup? a isStatic name as).isSome = true) :
    t'.lookup a isStatic name as = t.lookup a isStatic name as := by
  obtain ⟨r, hr⟩ := Option.isSome_iff_exists.mp hr
  rw [TypeTable.lookup, TypeTable.lookup, hr, h.lookup? hr]

/-- A lookup on types of the table finds the same later, nothing included. -/
theorem lookup_eq (h : KeepsRoutines t t') (hc : t.Closed) (ha : t.Has a) (isStatic : Bool)
    (name : String) (has : ∀ x ∈ as, t.Has x) :
    t'.lookup a isStatic name as = t.lookup a isStatic name as :=
  h.lookup_eq_of_isSome (hc.lookup?_isSome ha isStatic name has)

/-- Without arguments there is nothing to compare. -/
theorem lookup_nil (h : KeepsRoutines t t') (ha : t.Has a) (isStatic : Bool) (name : String) :
    t'.lookup a isStatic name [] = t.lookup a isStatic name [] := by
  refine h.lookup_eq_of_isSome ?_
  rw [TypeTable.lookup?, get?_eq ha, Option.bind_eq_bind, Option.bind_some]
  refine findM?_isSome fun s _ => ?_
  rw [TypeTable.accepts?, argsEqual?, allPairs]
  split
  · split
    · rw [List.zip_nil_right]
      rfl
    · rfl
  · rfl

/-- A field that is found is found later. -/
theorem lookupField (h : KeepsRoutines t t') {isStatic : Bool} {name : String} {x : Binding}
    (hx : t.lookupField a isStatic name = some x) : t'.lookupField a isStatic name = some x := by
  have hhas : t.Has a := by
    by_contra hnot
    rw [TypeTable.lookupField, get_of_not_has hnot] at hx
    cases isStatic <;> exact absurd hx.symm (Option.some_ne_none x)
  obtain ⟨fields, hfields⟩ := h.fields a isStatic hhas
  rw [TypeTable.lookupField] at hx ⊢
  rw [← hfields, List.find?_append, hx]
  rfl

/-- The type of member routines that were read is kept. -/
theorem memberType? (h : KeepsRoutines t t') {key : MemberKey} {id : TypeId}
    (hid : t.memberType? key = some id) : t'.memberType? key = some id := by
  obtain ⟨rest, hrest⟩ := h.kept
  rw [TypeTable.memberType?, Option.map_eq_some_iff] at hid ⊢
  obtain ⟨e, he, rfl⟩ := hid
  refine ⟨e, ?_, rfl⟩
  rw [← hrest, List.find?_append, he]
  rfl

end KeepsRoutines

end Later

end TypeTable

end Unnest
