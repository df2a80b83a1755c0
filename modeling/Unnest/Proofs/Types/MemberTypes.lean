import Mathlib.Data.List.Nodup
import Unnest.Proofs.Types.Growth

/-!
# Types of member routines

When a member routine is read as a value, a routine type is made for it and kept.  It is never
made anew, although types get routines while a program is analysed.  What makes this right is
the order in which things happen: a type gets routines only as long as none of its routines
was read (`Unread`), and none can be read before there is one, since a reading that finds no
routine keeps nothing.

`Edit P` lists what analysis does to the types, with what has to hold before; `P` says which
types a part of the analysis may give routines to, and whether it may read them.  Every edit
keeps the types that were made for readings up to date (`Fresh.edit`).  On a table that is up
to date a reading gives what it would give without the kept types, but for which type it is
(`Fresh.readout_memberRoutine`).
-/

namespace Unnest

/-- What a part of the analysis may do to member routines. -/
structure Permit where
  /-- The types that it may give routines to. -/
  gives : TypeId → Prop
  /-- Whether it may read member routines as values. -/
  reads : Prop

namespace Permit

/-- Neither. -/
def neither : Permit := ⟨fun _ => False, False⟩

/-- Reading alone. -/
def reading : Permit := ⟨fun _ => False, True⟩

/-- Giving routines to one type. -/
def giving (type : TypeId) : Permit := ⟨(· = type), False⟩

/-- Both. -/
def both : Permit := ⟨fun _ => True, True⟩

/-- One part may do what another may. -/
structure Within (P Q : Permit) : Prop where
  gives : ∀ id, P.gives id → Q.gives id
  reads : P.reads → Q.reads

theorem within_both (P : Permit) : P.Within both := ⟨fun _ _ => trivial, fun _ => trivial⟩

end Permit

namespace TypeTable

variable {t t' t'' : TypeTable} {id type : TypeId} {P Q : Permit} {key : MemberKey}

/-- No routine of a type has been read as a value. -/
def Unread (t : TypeTable) (type : TypeId) : Prop := ∀ e ∈ t.memberTypes, e.1.owner ≠ type

/-- A user type without routines. -/
structure Bare (t : TypeTable) (type : TypeId) : Prop where
  user : t.form type = .user
  routines : ∀ isStatic, (t.get type).routinesOf isStatic = []

/-- A change that touches neither the form nor the routines. -/
theorem Bare.update (h : t.Bare id) {f : TypeDecl → TypeDecl} (hform : ∀ d, (f d).form = d.form)
    (hroutines : ∀ d b, (f d).routinesOf b = d.routinesOf b) : (t.update type f).Bare id := by
  by_cases heq : type = id
  · subst heq
    have hget := get_update_self (has_of_user h.user) f
    refine ⟨?_, fun b => ?_⟩
    · rw [TypeTable.form, hget, hform]
      exact h.user
    · rw [hget, hroutines]
      exact h.routines b
  · have hget := get_update_of_ne (t := t) heq f
    refine ⟨?_, fun b => ?_⟩
    · rw [TypeTable.form, hget]
      exact h.user
    · rw [hget]
      exact h.routines b

/-- What analysis does to the types. -/
inductive Edit (P : Permit) (t : TypeTable) : TypeTable → Prop
  | addUser (name : String) : Edit P t (t.add { name, form := .user }).2
  | addRoutineType (params : List TypeId) (result : Option TypeId) :
      Edit P t (t.addRoutineType params result).2
  | memberRoutine (reads : P.reads) (owner : TypeId) (isStatic : Bool) (name : String) :
      Edit P t (t.memberRoutine owner isStatic name).2
  /-- A user type gets a path or fields. -/
  | update {type : TypeId} (user : t.form type = .user) {f : TypeDecl → TypeDecl}
      (form : ∀ d, (f d).form = d.form) (routines : ∀ d b, (f d).routinesOf b = d.routinesOf b)
      (fields : ∀ d b, d.fieldsOf b <+: (f d).fieldsOf b) : Edit P t (t.update type f)
  | addRoutine {type : TypeId} (gives : P.gives type) (user : t.form type = .user)
      (unread : t.Unread type) (isStatic : Bool) (s : Signature) :
      Edit P t (t.update type fun d => d.addRoutine isStatic s)

theorem Edit.mono (hPQ : P.Within Q) (h : t.Edit P t') : t.Edit Q t' := by
  cases h with
  | addUser name => exact .addUser name
  | addRoutineType params result => exact .addRoutineType params result
  | memberRoutine reads owner isStatic name =>
    exact .memberRoutine (hPQ.reads reads) owner isStatic name
  | update user form routines fields => exact .update user form routines fields
  | addRoutine gives user unread isStatic s =>
    exact .addRoutine (hPQ.gives _ gives) user unread isStatic s

/-! ## What lasts -/

/-- Types keep their form, and those that are no user types stay as they are.  What was made
for a reading is kept. -/
structure Lasts (t t' : TypeTable) : Prop where
  size_le : t.size ≤ t'.size
  form : ∀ id, t.Has id → t'.form id = t.form id
  get : ∀ id, t.Has id → t.form id ≠ .user → t'.get id = t.get id
  kept : t.memberTypes <+: t'.memberTypes

namespace Lasts

theorem refl (t : TypeTable) : Lasts t t :=
  ⟨Nat.le_refl _, fun _ _ => rfl, fun _ _ _ => rfl, List.prefix_refl _⟩

theorem has (h : Lasts t t') (hid : t.Has id) : t'.Has id := Nat.lt_of_lt_of_le hid h.size_le

theorem trans (h : Lasts t t') (h' : Lasts t' t'') : Lasts t t'' where
  size_le := Nat.le_trans h.size_le h'.size_le
  form id hid := (h'.form id (h.has hid)).trans (h.form id hid)
  get id hid hform :=
    (h'.get id (h.has hid) ((h.form id hid).trans_ne hform)).trans (h.get id hid hform)
  kept := h.kept.trans h'.kept

theorem user (h : Lasts t t') (huser : t.form id = .user) : t'.form id = .user :=
  (h.form id (has_of_user huser)).trans huser

end Lasts

theorem lasts_add (t : TypeTable) (d : TypeDecl) : Lasts t (t.add d).2 :=
  ⟨(extends_add t d).size_le, (extends_add t d).form, fun _ hid _ => get_add_old d hid,
    List.prefix_refl _⟩

theorem lasts_update {f : TypeDecl → TypeDecl} (user : t.form type = .user)
    (form : ∀ d, (f d).form = d.form) : Lasts t (t.update type f) := by
  refine ⟨Nat.le_of_eq (size_update t type f).symm, fun id hid => ?_, fun id _ hform => ?_,
    List.prefix_refl _⟩
  · rw [TypeTable.form, TypeTable.form]
    by_cases heq : type = id
    · subst heq
      rw [get_update_self hid, form]
    · rw [get_update_of_ne heq]
  · refine get_update_of_ne (fun heq => ?_) f
    exact hform (heq ▸ user)

/-- A reading finds a type that is kept, finds no routine, or makes a type and keeps it. -/
inductive Reading (t : TypeTable) (key : MemberKey) : Option TypeId × TypeTable → Prop
  | kept {id : TypeId} (h : t.memberType? key = some id) : Reading t key (some id, t)
  | nothing (h : t.memberType? key = none) (hs : t.memberSignatures key = []) :
      Reading t key (none, t)
  | made (h : t.memberType? key = none) (hs : t.memberSignatures key ≠ []) :
      Reading t key (some ⟨t.size⟩, { (t.add (.ofSignatures (t.memberSignatures key))).2 with
        memberTypes := t.memberTypes ++ [(key, ⟨t.size⟩)] })

theorem reading_memberType (t : TypeTable) (key : MemberKey) :
    t.Reading key (t.memberType key) := by
  rw [memberType]
  split
  · exact .kept ‹_›
  · rename_i hnone
    split
    · exact .nothing hnone ‹_›
    · rename_i hs
      exact .made hnone fun hnil => hs hnil

theorem Reading.lasts {x : Option TypeId × TypeTable} (h : t.Reading key x) : Lasts t x.2 := by
  cases h with
  | kept | nothing => exact .refl t
  | made =>
    have hadd := lasts_add t (.ofSignatures (t.memberSignatures key))
    exact ⟨hadd.size_le, hadd.form, hadd.get, List.prefix_append _ _⟩

/-- What a reading finds or makes is kept. -/
theorem Reading.kept_after {id : TypeId} {x : Option TypeId × TypeTable} (h : t.Reading key x)
    (hx : x.1 = some id) : x.2.memberType? key = some id := by
  cases h with
  | kept h => exact h.trans hx
  | nothing => exact absurd hx (by simp)
  | made h =>
    obtain rfl := Option.some.inj hx
    rw [memberType?, Option.map_eq_none_iff] at h
    rw [memberType?, List.find?_append, h]
    simp

/-- Member routines that were read are read again in a table in which their type is kept. -/
theorem memberRoutine_eq_of_kept {owner : TypeId} {isStatic : Bool} {name : String} {b : Binding}
    (hb : (t.memberRoutine owner isStatic name).1 = some b)
    (hkept : ∀ key id, (t.memberRoutine owner isStatic name).2.memberType? key = some id →
      t'.memberType? key = some id) : (t'.memberRoutine owner isStatic name).1 = some b := by
  obtain ⟨id, hid, rfl⟩ := Option.map_eq_some_iff.mp hb
  have hread := hkept ⟨owner, name, isStatic⟩ id ((reading_memberType t _).kept_after hid)
  rw [memberRoutine, memberType, hread]
  rfl

/-- A reading leaves the types that there are. -/
theorem Reading.get_eq {x : Option TypeId × TypeTable} (h : t.Reading key x) (hid : t.Has id) :
    x.2.get id = t.get id := by
  cases h with
  | kept | nothing => rfl
  | made => exact get_add_old (.ofSignatures (t.memberSignatures key)) hid

theorem Edit.lasts (h : t.Edit P t') : Lasts t t' := by
  cases h with
  | addUser | addRoutineType => exact lasts_add t _
  | memberRoutine _ owner isStatic name =>
    exact (reading_memberType t ⟨owner, name, isStatic⟩).lasts
  | update user form => exact lasts_update user form
  | addRoutine _ user _ isStatic s =>
    exact lasts_update user fun d => by cases isStatic <;> rfl

/-- Nothing is taken away. -/
theorem Edit.extends (h : t.Edit P t') : Extends t t' := by
  cases h with
  | addUser | addRoutineType => exact extends_add t _
  | memberRoutine _ owner isStatic name => exact (Step.memberRoutine owner isStatic name).extends
  | update _ form routines fields =>
    exact extends_update form (fun d b => routines d b ▸ List.prefix_refl _) fields
  | addRoutine => exact extends_addRoutine

/-- The routines of a type are not touched, unless the type may get some. -/
theorem Edit.routinesOf_eq (h : t.Edit P t') (hid : t.Has id) (hgives : ¬ P.gives id)
    (isStatic : Bool) : (t'.get id).routinesOf isStatic = (t.get id).routinesOf isStatic := by
  cases h with
  | addUser name => rw [get_add_old _ hid]
  | addRoutineType params result => rw [TypeTable.addRoutineType, get_add_old _ hid]
  | memberRoutine _ owner isStatic' name =>
    exact congrArg (TypeDecl.routinesOf · isStatic)
      ((reading_memberType t ⟨owner, name, isStatic'⟩).get_eq hid)
  | @update type _ f _ routines _ =>
    by_cases heq : type = id
    · subst heq
      rw [get_update_self hid, routines]
    · rw [get_update_of_ne heq]
  | @addRoutine type gives =>
    rw [get_update_of_ne]
    rintro rfl
    exact hgives gives

theorem Edit.unread (h : t.Edit P t') (hreads : ¬ P.reads) (hid : t.Unread id) : t'.Unread id := by
  cases h with
  | addUser | addRoutineType | update | addRoutine => exact hid
  | memberRoutine reads => exact absurd reads hreads

/-! ## Up to date -/

/-- What was made for readings is up to date: for each of them there is one type, and it has
the signatures of the routines that the owner has now, of which there is at least one. -/
structure Fresh (t : TypeTable) : Prop where
  once : (t.memberTypes.map (·.1)).Nodup
  made : ∀ e ∈ t.memberTypes, t.get e.2 = .ofSignatures (t.memberSignatures e.1)
  nonempty : ∀ e ∈ t.memberTypes, t.memberSignatures e.1 ≠ []

theorem memberSignatures_congr {isStatic : Bool} {name : String}
    (h : (t'.get id).routinesOf isStatic = (t.get id).routinesOf isStatic) :
    t'.memberSignatures ⟨id, name, isStatic⟩ = t.memberSignatures ⟨id, name, isStatic⟩ := by
  rw [memberSignatures, memberSignatures, h]

theorem mem_of_memberType? (h : t.memberType? key = some id) : (key, id) ∈ t.memberTypes := by
  obtain ⟨e, he, rfl⟩ := Option.map_eq_some_iff.mp h
  have hkey : e.1 = key := by simpa using List.find?_some he
  rw [← hkey]
  exact List.mem_of_find?_eq_some he

theorem not_mem_of_memberType? (h : t.memberType? key = none) :
    key ∉ t.memberTypes.map (·.1) := by
  rw [memberType?, Option.map_eq_none_iff, List.find?_eq_none] at h
  intro hmem
  obtain ⟨e, he, rfl⟩ := List.mem_map.mp hmem
  exact h e he (beq_self_eq_true e.1)

theorem has_of_memberSignatures (h : t.memberSignatures key ≠ []) : t.Has key.owner := by
  by_contra hhas
  refine h ?_
  rw [memberSignatures, get_of_not_has hhas]
  cases key.isStatic <;> rfl

namespace Fresh

theorem form (h : t.Fresh) {e : MemberKey × TypeId} (he : e ∈ t.memberTypes) :
    t.form e.2 = .routine := congrArg TypeDecl.form (h.made e he)

/-- A type without routines has no routine that was read. -/
theorem unread (h : t.Fresh) (hbare : t.Bare type) : t.Unread type := by
  rintro e he rfl
  refine h.nonempty e he ?_
  rw [memberSignatures, hbare.routines]
  rfl

/-- A change that touches neither the owners nor the types of what is kept. -/
theorem of_same (h : t.Fresh) (hkept : t'.memberTypes = t.memberTypes)
    (hroutines : ∀ e ∈ t.memberTypes, t.Has e.1.owner →
      (t'.get e.1.owner).routinesOf e.1.isStatic = (t.get e.1.owner).routinesOf e.1.isStatic)
    (hget : ∀ e ∈ t.memberTypes, t.Has e.2 → t.form e.2 = .routine → t'.get e.2 = t.get e.2) :
    t'.Fresh := by
  have hsignatures : ∀ e ∈ t.memberTypes, t'.memberSignatures e.1 = t.memberSignatures e.1 :=
    fun e he => memberSignatures_congr (hroutines e he (has_of_memberSignatures (h.nonempty e he)))
  refine ⟨hkept ▸ h.once, fun e he => ?_, fun e he => ?_⟩ <;> rw [hkept] at he
  · rw [hsignatures e he, hget e he (has_of_routine (h.form he)) (h.form he), h.made e he]
  · rw [hsignatures e he]
    exact h.nonempty e he

theorem add (h : t.Fresh) (d : TypeDecl) : (t.add d).2.Fresh :=
  h.of_same rfl (fun _ _ hhas => by rw [get_add_old d hhas]) fun _ _ hhas _ => get_add_old d hhas

/-- A change of a user type that leaves the routines that were read. -/
theorem update (h : t.Fresh) {f : TypeDecl → TypeDecl} (huser : t.form type = .user)
    (hroutines : ∀ e ∈ t.memberTypes, e.1.owner = type →
      (f (t.get type)).routinesOf e.1.isStatic = (t.get type).routinesOf e.1.isStatic) :
    (t.update type f).Fresh := by
  refine h.of_same rfl (fun e he hhas => ?_) fun e _ _ hform => get_update_of_ne ?_ f
  · by_cases heq : type = e.1.owner
    · rw [← heq, get_update_self (heq ▸ hhas)]
      exact hroutines e he heq.symm
    · rw [get_update_of_ne heq]
  -- the types that were made for readings are no user types, so `f` does not reach them
  · rintro rfl
    exact absurd (huser.symm.trans hform) (by decide)

/-- The type that a reading makes is made once, from the routines that there are. -/
theorem reading (h : t.Fresh) {x : Option TypeId × TypeTable} (hx : t.Reading key x) :
    x.2.Fresh := by
  have hget {id : TypeId} (hid : t.Has id) := hx.get_eq hid
  cases hx with
  | kept | nothing => exact h
  | made hnone hs =>
    -- an owner that is there stays as it is; the owner of the new entry is one, since it has
    -- routines
    have hold : ∀ k : MemberKey, t.Has k.owner → memberSignatures
        { (t.add (.ofSignatures (t.memberSignatures key))).2 with
          memberTypes := t.memberTypes ++ [(key, ⟨t.size⟩)] } k = t.memberSignatures k :=
      fun k hk => memberSignatures_congr (congrArg (TypeDecl.routinesOf · _) (hget hk))
    have hmem : ∀ e ∈ t.memberTypes ++ [(key, (⟨t.size⟩ : TypeId))],
        e ∈ t.memberTypes ∨ e = (key, ⟨t.size⟩) := fun e he => by
      rwa [List.mem_append, List.mem_singleton] at he
    refine ⟨?_, fun e he => ?_, fun e he => ?_⟩
    · rw [List.map_append, List.map_singleton]
      exact List.nodup_append'.mpr ⟨h.once, List.nodup_singleton key,
        List.disjoint_singleton.mpr (not_mem_of_memberType? hnone)⟩
    · rcases hmem e he with he | rfl
      · rw [hget (has_of_routine (h.form he)), h.made e he,
          hold e.1 (has_of_memberSignatures (h.nonempty e he))]
      · rw [hold key (has_of_memberSignatures hs)]
        exact get_add_new t (.ofSignatures (t.memberSignatures key))
    · rcases hmem e he with he | rfl
      · rw [hold e.1 (has_of_memberSignatures (h.nonempty e he))]
        exact h.nonempty e he
      · rw [hold key (has_of_memberSignatures hs)]
        exact hs

/-- Every edit keeps up to date what was made for readings. -/
theorem edit (h : t.Fresh) (hedit : t.Edit P t') : t'.Fresh := by
  cases hedit with
  | addUser | addRoutineType => exact h.add _
  | memberRoutine _ owner isStatic name =>
    exact h.reading (reading_memberType t ⟨owner, name, isStatic⟩)
  | update user form routines => exact h.update user fun _ _ _ => routines _ _
  | addRoutine _ user unread => exact h.update user fun e he howner => absurd howner (unread e he)

end Fresh

/-! ## Reading with and without what is kept -/

/-- A table that has kept nothing for readings. -/
def forgetful (t : TypeTable) : TypeTable := { t with memberTypes := [] }

/-- What a reading comes to, but for the identity of the type: the member, and the type
itself in place of its index. -/
def readout (x : Option Binding × TypeTable) : Option (Binding × TypeDecl) :=
  x.1.map fun b => ({ b with type := default }, x.2.get b.type)

/-- What reading the member routines of one name has to give. -/
def memberReadout (t : TypeTable) (owner : TypeId) (isStatic : Bool) (name : String) :
    Option (Binding × TypeDecl) :=
  if t.memberSignatures ⟨owner, name, isStatic⟩ = [] then none
  else some ({ name, type := default, role := .member isStatic, owner := some owner },
    .ofSignatures (t.memberSignatures ⟨owner, name, isStatic⟩))

theorem Fresh.forgetful (t : TypeTable) : t.forgetful.Fresh :=
  ⟨List.nodup_nil, List.forall_mem_nil _, List.forall_mem_nil _⟩

/-- On a table that is up to date a reading gives the routines that there are. -/
theorem Fresh.readout_memberRoutine (h : t.Fresh) (owner : TypeId) (isStatic : Bool)
    (name : String) :
    readout (t.memberRoutine owner isStatic name) = t.memberReadout owner isStatic name := by
  have hx := reading_memberType t ⟨owner, name, isStatic⟩
  rw [memberRoutine, readout, memberReadout]
  dsimp only
  generalize t.memberType ⟨owner, name, isStatic⟩ = x at hx
  cases hx with
  | kept hid =>
    have hmem := mem_of_memberType? hid
    rw [if_neg (h.nonempty _ hmem), ← h.made _ hmem]
    rfl
  | nothing _ hs =>
    rw [if_pos hs]
    rfl
  | made _ hs =>
    rw [if_neg hs]
    exact congrArg (fun d => some (_, d)) (get_add_new t (.ofSignatures _))

end TypeTable

end Unnest
