import Mathlib.Data.List.Infix
import Unnest.Types.Lookup
import Unnest.Types.Predefined

/-!
# How the types grow

Types are added and get members; what a type is never changes.  `Extends t t'` says so
of two tables.  Routine types have instance signatures only, so no call on one of them
is static (`Sound.isStatic_of_lookup`), and a call is found only with as many arguments
as the routine takes (`lookup_spec`).  Only user types get members, so the predefined
types stay what they are (`Sound.predefined`).
-/

namespace Unnest.TypeTable

variable {t t' t'' : TypeTable} {id : TypeId}

/-- There is a type at an index. -/
def Has (t : TypeTable) (id : TypeId) : Prop := id.index < t.size

instance (t : TypeTable) (id : TypeId) : Decidable (t.Has id) :=
  inferInstanceAs (Decidable (id.index < t.size))

/-- One table of types comes after another: there are more types, with more members. -/
structure Extends (t t' : TypeTable) : Prop where
  size_le : t.size ≤ t'.size
  base : t'.routineBase = t.routineBase
  form : ∀ id, t.Has id → t'.form id = t.form id
  routines : ∀ id b, t.Has id → ((t.get id).routinesOf b) <+: ((t'.get id).routinesOf b)
  fields : ∀ id b, t.Has id → ((t.get id).fieldsOf b) <+: ((t'.get id).fieldsOf b)

namespace Extends

theorem refl (t : TypeTable) : Extends t t :=
  ⟨Nat.le_refl _, rfl, fun _ _ => rfl, fun _ _ _ => List.prefix_refl _,
    fun _ _ _ => List.prefix_refl _⟩

theorem has (h : Extends t t') (hid : t.Has id) : t'.Has id := Nat.lt_of_lt_of_le hid h.size_le

theorem trans (h : Extends t t') (h' : Extends t' t'') : Extends t t'' where
  size_le := Nat.le_trans h.size_le h'.size_le
  base := h'.base.trans h.base
  form id hid := (h'.form id (h.has hid)).trans (h.form id hid)
  routines id b hid := (h.routines id b hid).trans (h'.routines id b (h.has hid))
  fields id b hid := (h.fields id b hid).trans (h'.fields id b (h.has hid))

end Extends

theorem get_of_not_has (h : ¬ t.Has id) : t.get id = default := by
  rw [get, get?, Array.getElem?_eq_none (Nat.le_of_not_lt h)]
  rfl

/-- User types are in the table. -/
theorem has_of_user (h : t.form id = .user) : t.Has id := by
  by_contra hhas
  rw [form, get_of_not_has hhas] at h
  exact absurd h (by decide)

/-- So are routine types. -/
theorem has_of_routine (h : t.form id = .routine) : t.Has id := by
  by_contra hhas
  rw [form, get_of_not_has hhas] at h
  exact absurd h (by decide)

theorem Extends.isRoutine (hx : Extends t t') (h : t.form id = .routine) : t'.form id = .routine :=
  (hx.form id (has_of_routine h)).trans h

theorem get_add_old (d : TypeDecl) (h : t.Has id) : (t.add d).2.get id = t.get id := by
  rw [get, get?_add, get]
  refine congrArg (Option.getD · default) (if_neg ?_)
  rintro rfl
  exact Nat.lt_irrefl _ h

theorem get_add_new (t : TypeTable) (d : TypeDecl) : (t.add d).2.get (t.add d).1 = d := by
  rw [get, get?_add, if_pos rfl, Option.getD_some]

theorem has_add_new (t : TypeTable) (d : TypeDecl) : (t.add d).2.Has (t.add d).1 := by
  rw [Has, size_add]
  exact Nat.lt_succ_self _

theorem get_update_self (h : t.Has id) (f : TypeDecl → TypeDecl) :
    (t.update id f).get id = f (t.get id) := by
  obtain ⟨x, hx⟩ : ∃ x, t.get? id = some x := ⟨_, Array.getElem?_eq_getElem h⟩
  rw [get, get?_update, if_pos rfl, get, hx]
  rfl

theorem get_update_of_ne {other : TypeId} (h : id ≠ other) (f : TypeDecl → TypeDecl) :
    (t.update id f).get other = t.get other := by
  rw [get, get?_update, if_neg h, get]

theorem has_update {other : TypeId} {f : TypeDecl → TypeDecl} :
    (t.update id f).Has other ↔ t.Has other := by
  rw [Has, size_update, Has]

theorem extends_add (t : TypeTable) (d : TypeDecl) : Extends t (t.add d).2 := by
  refine ⟨by rw [size_add]; exact Nat.le_succ _, rfl, ?_, ?_, ?_⟩
  · intro id h
    rw [form, get_add_old d h, form]
  · intro id b h
    rw [get_add_old d h]
  · intro id b h
    rw [get_add_old d h]

theorem extends_update {f : TypeDecl → TypeDecl} (hform : ∀ d, (f d).form = d.form)
    (hroutines : ∀ d b, d.routinesOf b <+: (f d).routinesOf b)
    (hfields : ∀ d b, d.fieldsOf b <+: (f d).fieldsOf b) : Extends t (t.update id f) := by
  refine ⟨by rw [size_update], rfl, ?_, ?_, ?_⟩
  · intro other h
    rw [form, form]
    by_cases heq : id = other
    · subst heq
      rw [get_update_self h, hform]
    · rw [get_update_of_ne heq]
  · intro other b h
    by_cases heq : id = other
    · subst heq
      rw [get_update_self h]
      exact hroutines _ b
    · rw [get_update_of_ne heq]
  · intro other b h
    by_cases heq : id = other
    · subst heq
      rw [get_update_self h]
      exact hfields _ b
    · rw [get_update_of_ne heq]

theorem extends_setPath {path : String} : Extends t (t.setPath id path) :=
  extends_update (fun _ => rfl) (fun d b => by cases b <;> exact List.prefix_refl _)
    fun d b => by cases b <;> exact List.prefix_refl _

theorem extends_addFields {isStatic : Bool} {bs : List Binding} :
    Extends t (t.update id fun d => d.addFields isStatic bs) := by
  refine extends_update (fun d => by cases isStatic <;> rfl) (fun d b => ?_) fun d b => ?_
  · rw [TypeDecl.routinesOf_addFields]
  · rw [TypeDecl.fieldsOf_addFields]
    exact List.prefix_append _ _

theorem extends_addRoutine {isStatic : Bool} {s : Signature} :
    Extends t (t.update id fun d => d.addRoutine isStatic s) := by
  refine extends_update (fun d => by cases isStatic <;> rfl) (fun d b => ?_) fun d b => ?_
  · rw [TypeDecl.routinesOf_addRoutine]
    exact List.prefix_append _ _
  · rw [TypeDecl.fieldsOf_addRoutine]

/-! ## Changes -/

/-- The changes of a table of types. -/
inductive Step (t : TypeTable) : TypeTable → Prop
  | addRoutineType (params : List TypeId) (result : Option TypeId) :
      Step t (t.addRoutineType params result).2
  | memberRoutine (owner : TypeId) (isStatic : Bool) (name : String) :
      Step t (t.memberRoutine owner isStatic name).2
  | addUser (name : String) : Step t (t.add { name, form := .user }).2
  | setPath {type : TypeId} (h : t.form type = .user) (unset : (t.get type).path = none)
      (path : String) : Step t (t.setPath type path)
  | addFields {type : TypeId} (h : t.form type = .user) (isStatic : Bool) {bs : List Binding}
      (members : ∀ b ∈ bs, b.role = .member isStatic ∧ b.owner = some type) :
      Step t (t.update type fun d => d.addFields isStatic bs)
  | addRoutine {type : TypeId} (h : t.form type = .user) (isStatic : Bool) (s : Signature) :
      Step t (t.update type fun d => d.addRoutine isStatic s)

theorem memberType_cases (t : TypeTable) (key : MemberKey) :
    (t.memberType key).2 = t ∨ ∃ signatures memberTypes,
      (∀ s ∈ signatures, s.name = Reserved.call) ∧
        (t.memberType key).2 = { (t.add (.ofSignatures signatures)).2 with memberTypes } := by
  rw [memberType]
  split
  · exact Or.inl rfl
  · have hnames : ∀ s ∈ t.memberSignatures key, s.name = Reserved.call :=
      List.forall_mem_map.mpr fun _ _ => rfl
    split
    · exact Or.inl rfl
    · exact Or.inr ⟨_, _, hnames, rfl⟩

/-- Reading member routines as a value adds at most the type of the value. -/
theorem memberRoutine_cases (t : TypeTable) (owner : TypeId) (isStatic : Bool) (name : String) :
    (t.memberRoutine owner isStatic name).2 = t ∨ ∃ signatures memberTypes,
      (∀ s ∈ signatures, s.name = Reserved.call) ∧
        (t.memberRoutine owner isStatic name).2 =
          { (t.add (.ofSignatures signatures)).2 with memberTypes } :=
  memberType_cases t ⟨owner, name, isStatic⟩

theorem Step.extends (h : Step t t') : Extends t t' := by
  cases h with
  | addRoutineType params result => exact extends_add t _
  | memberRoutine owner isStatic name =>
    rcases memberRoutine_cases t owner isStatic name with h | ⟨signatures, memberTypes, -, h⟩
    · rw [h]
      exact Extends.refl t
    · rw [h]
      have hx := extends_add t (.ofSignatures signatures)
      exact ⟨hx.size_le, hx.base, hx.form, hx.routines, hx.fields⟩
  | addUser name => exact extends_add t _
  | setPath => exact extends_setPath
  | addFields => exact extends_addFields
  | addRoutine => exact extends_addRoutine

/-- The class through which the values of a user type are addressed. -/
structure Addressed (t : TypeTable) (id : TypeId) (path : String) : Prop where
  form : t.form id = .user
  path : (t.get id).path = some path

theorem Addressed.path_eq {p : String} (h : t.Addressed id p) : t.path id = p := by
  have hform : (t.get id).form = .user := h.form
  rw [TypeTable.path, hform]
  dsimp only
  rw [h.path, Option.getD_some]

theorem has_of_path {p : String} (h : (t.get id).path = some p) : t.Has id := by
  by_contra hnot
  rw [get_of_not_has hnot] at h
  exact absurd (show none = some p from h) (by simp)

theorem path_get_add {d : TypeDecl} {p : String} (h : (t.get id).path = some p) :
    ((t.add d).2.get id).path = some p := by
  rw [get_add_old d (has_of_path h)]
  exact h

theorem path_get_update {other : TypeId} {f : TypeDecl → TypeDecl} {p : String}
    (hf : id = other → (f (t.get other)).path = some p) (h : (t.get other).path = some p) :
    ((t.update id f).get other).path = some p := by
  by_cases heq : id = other
  · subst heq
    rw [get_update_self (has_of_path h)]
    exact hf rfl
  · rw [get_update_of_ne heq]
    exact h

/-- The class of a type is said once. -/
theorem Step.path_get (h : Step t t') {p : String} (hp : (t.get id).path = some p) :
    (t'.get id).path = some p := by
  cases h with
  | addRoutineType params result => exact path_get_add hp
  | memberRoutine owner isStatic name =>
    rcases memberRoutine_cases t owner isStatic name with h | ⟨signatures, memberTypes, -, h⟩
    · rw [h]
      exact hp
    · rw [h]
      exact path_get_add hp
  | addUser name => exact path_get_add hp
  | setPath _ unset path =>
    refine path_get_update (fun heq => ?_) hp
    rw [heq, hp] at unset
    exact absurd unset (by simp)
  | addFields _ isStatic members =>
    exact path_get_update (fun _ => by cases isStatic <;> exact hp) hp
  | addRoutine _ isStatic s =>
    exact path_get_update (fun _ => by cases isStatic <;> exact hp) hp

theorem Addressed.step {p : String} (h : t.Addressed id p) (hs : Step t t') :
    t'.Addressed id p :=
  ⟨(hs.extends.form id (has_of_user h.form)).trans h.form, hs.path_get h.path⟩

/-! ## Soundness -/

/-- What holds of the types of a program: values that are routines have no static
side and are only called, fields are members of the type that has them, and the predefined types
stay as they are, with no other types of their kind. -/
structure Sound (t : TypeTable) : Prop where
  static_nil : ∀ id, t.form id = .routine → (t.get id).staticRoutines = []
  called : ∀ id, t.form id = .routine → ∀ s ∈ (t.get id).routines, s.name = Reserved.call
  fields : ∀ id isStatic, ∀ b ∈ (t.get id).fieldsOf isStatic,
    b.role = .member isStatic ∧ b.owner = some id
  predefined : ∀ id, (TypeTable.predefined t.routineBase).Has id →
    t.Has id ∧ t.get id = (TypeTable.predefined t.routineBase).get id
  defined : ∀ id, t.Has id → (TypeTable.predefined t.routineBase).Has id ∨
    t.form id = .routine ∨ t.form id = .user

/-- Predefined types are of the library, and have no fields. -/
theorem form_predefined {base : String} (h : (predefined base).Has id) :
    ((predefined base).form id = .library ∨ (predefined base).form id = .builtin) ∧
      ∀ isStatic, ((predefined base).get id).fieldsOf isStatic = [] := by
  obtain ⟨i⟩ := id
  rw [Has, size_predefined] at h
  dsimp only at h
  have hi : i = 0 ∨ i = 1 ∨ i = 2 ∨ i = 3 ∨ i = 4 ∨ i = 5 := by omega
  rcases hi with rfl | rfl | rfl | rfl | rfl | rfl
  all_goals
    refine ⟨?_, fun isStatic => by cases isStatic <;> rfl⟩
    first
      | exact Or.inl rfl
      | exact Or.inr rfl

theorem sound_predefined (base : String) : Sound (predefined base) := by
  refine ⟨fun id h => ?_, fun id h => ?_, fun id isStatic b hb => ?_, fun _ h => ⟨h, rfl⟩,
    fun _ h => Or.inl h⟩ <;> by_cases hid : (predefined base).Has id
  · rcases (form_predefined hid).1 with h' | h' <;> exact absurd (h.symm.trans h') (by simp)
  · rw [get_of_not_has hid]
    rfl
  · rcases (form_predefined hid).1 with h' | h' <;> exact absurd (h.symm.trans h') (by simp)
  · rw [get_of_not_has hid]
    exact List.forall_mem_nil _
  · rw [(form_predefined hid).2] at hb
    exact absurd hb List.not_mem_nil
  · rw [get_of_not_has hid] at hb
    cases isStatic <;> exact absurd hb List.not_mem_nil

theorem not_has_add {d : TypeDecl} (hnew : id ≠ (t.add d).1) (h : ¬ t.Has id) :
    ¬ (t.add d).2.Has id := by
  rw [Has, size_add]
  obtain ⟨i⟩ := id
  have hne : i ≠ t.size := fun heq => hnew (by rw [heq]; rfl)
  rw [Has] at h
  dsimp only at h ⊢
  omega

theorem sound_add (h : Sound t) {d : TypeDecl} (hform : d.form = .routine ∨ d.form = .user)
    (hd : d.staticRoutines = []) (hcalled : ∀ s ∈ d.routines, s.name = Reserved.call)
    (hfields : ∀ isStatic, d.fieldsOf isStatic = []) : Sound (t.add d).2 := by
  refine ⟨fun id hid => ?_, fun id hid => ?_, fun id isStatic b hb => ?_, fun id hid => ?_,
    fun id hid => ?_⟩
  · by_cases hnew : id = (t.add d).1
    · rw [hnew, get_add_new]
      exact hd
    · by_cases hhas : t.Has id
      · rw [form, get_add_old d hhas] at hid
        rw [get_add_old d hhas]
        exact h.static_nil id hid
      · rw [get_of_not_has (not_has_add hnew hhas)]
        rfl
  · by_cases hnew : id = (t.add d).1
    · rw [hnew, get_add_new]
      exact hcalled
    · by_cases hhas : t.Has id
      · rw [form, get_add_old d hhas] at hid
        rw [get_add_old d hhas]
        exact h.called id hid
      · rw [get_of_not_has (not_has_add hnew hhas)]
        exact List.forall_mem_nil _
  · by_cases hnew : id = (t.add d).1
    · rw [hnew, get_add_new, hfields] at hb
      exact absurd hb List.not_mem_nil
    · by_cases hhas : t.Has id
      · rw [get_add_old d hhas] at hb
        exact h.fields id isStatic b hb
      · rw [get_of_not_has (not_has_add hnew hhas)] at hb
        cases isStatic <;> exact absurd hb List.not_mem_nil
  · obtain ⟨hhas, hget⟩ := h.predefined id hid
    exact ⟨(extends_add t d).has hhas, (get_add_old d hhas).trans hget⟩
  · by_cases hnew : id = (t.add d).1
    · rw [form, hnew, get_add_new]
      exact Or.inr hform
    · by_cases hhas : t.Has id
      · rw [form, get_add_old d hhas]
        exact h.defined id hhas
      · exact absurd hid (not_has_add hnew hhas)

theorem sound_update (h : Sound t) {f : TypeDecl → TypeDecl} (huser : t.form id = .user)
    (hform : ∀ d, (f d).form = d.form)
    (hfields : ∀ isStatic, ∀ b ∈ (f (t.get id)).fieldsOf isStatic,
      b ∈ (t.get id).fieldsOf isStatic ∨ b.role = .member isStatic ∧ b.owner = some id) :
    Sound (t.update id f) := by
  have hhas : t.Has id := by
    by_contra hnot
    rw [form, get_of_not_has hnot] at huser
    exact absurd huser (by decide)
  have hget : ∀ other, (t.update id f).form other = t.form other := fun other => by
    by_cases heq : id = other
    · rw [form, ← heq, get_update_self hhas, hform, form]
    · rw [form, get_update_of_ne heq, form]
  have hne : ∀ other, t.form other = .routine → id ≠ other := fun other hother heq =>
    absurd (huser.symm.trans (heq ▸ hother)) (by simp)
  refine ⟨fun other hother => ?_, fun other hother => ?_, fun other isStatic b hb => ?_,
    fun other hother => ?_, fun other hother => ?_⟩
  · rw [hget] at hother
    rw [get_update_of_ne (hne other hother)]
    exact h.static_nil other hother
  · rw [hget] at hother
    rw [get_update_of_ne (hne other hother)]
    exact h.called other hother
  · by_cases heq : id = other
    · subst heq
      rw [get_update_self hhas] at hb
      exact (hfields isStatic b hb).elim (h.fields id isStatic b) fun h => h
    · rw [get_update_of_ne heq] at hb
      exact h.fields other isStatic b hb
  · obtain ⟨hold, heq⟩ := h.predefined other hother
    have hne : id ≠ other := by
      rintro rfl
      rw [form, heq] at huser
      rcases (form_predefined hother).1 with h' | h' <;> exact absurd (huser.symm.trans h') (by simp)
    exact ⟨has_update.mpr hold, (get_update_of_ne hne f).trans heq⟩
  · rw [hget]
    exact h.defined other (has_update.mp hother)

theorem fieldsOf_ofSignatures (signatures : List Signature) (isStatic : Bool) :
    (TypeDecl.ofSignatures signatures).fieldsOf isStatic = [] := by
  cases isStatic <;> rfl

theorem Sound.step (h : Sound t) (hs : Step t t') : Sound t' := by
  cases hs with
  | addRoutineType params result =>
    exact sound_add h (Or.inl rfl) rfl (List.forall_mem_singleton.mpr rfl)
      (fieldsOf_ofSignatures _)
  | memberRoutine owner isStatic name =>
    rcases memberRoutine_cases t owner isStatic name with
      hm | ⟨signatures, memberTypes, hnames, hm⟩
    · rw [hm]
      exact h
    · rw [hm]
      have hadd := sound_add h (Or.inl rfl) rfl hnames (fieldsOf_ofSignatures signatures)
      exact ⟨hadd.static_nil, hadd.called, hadd.fields, hadd.predefined, hadd.defined⟩
  | addUser name =>
    exact sound_add h (Or.inr rfl) rfl (List.forall_mem_nil _) fun b => by cases b <;> rfl
  | setPath huser _ path =>
    refine sound_update h huser (fun _ => rfl) fun isStatic b hb => Or.inl ?_
    cases isStatic <;> exact hb
  | addFields huser isStatic members =>
    refine sound_update h huser (fun d => by cases isStatic <;> rfl) fun isStatic' b hb => ?_
    rw [TypeDecl.fieldsOf_addFields, List.mem_append] at hb
    refine hb.imp_right fun hb => ?_
    split at hb
    · rename_i heq
      rw [← heq]
      exact members b hb
    · exact absurd hb List.not_mem_nil
  | addRoutine huser isStatic s =>
    refine sound_update h huser (fun d => by cases isStatic <;> rfl) fun isStatic' b hb =>
      Or.inl ?_
    rwa [TypeDecl.fieldsOf_addRoutine] at hb

/-- A field is a member of the type it was looked up on. -/
theorem Sound.lookupField (h : Sound t) {type : TypeId} {isStatic : Bool} {name : String}
    {b : Binding} (hb : t.lookupField type isStatic name = some b) :
    b.role = .member isStatic ∧ b.owner = some type :=
  h.fields type isStatic b (List.mem_of_find?_eq_some hb)

/-- So are member routines that are read as a value. -/
theorem memberRoutine_spec {t : TypeTable} {owner : TypeId} {isStatic : Bool} {name : String}
    {b : Binding} (hb : (t.memberRoutine owner isStatic name).1 = some b) :
    b.role = .member isStatic ∧ b.owner = some owner := by
  rw [memberRoutine] at hb
  obtain ⟨type, -, rfl⟩ := Option.map_eq_some_iff.mp hb
  exact ⟨rfl, rfl⟩

/-! ## Lookups -/

theorem mem_of_findM? {α : Type} {p : α → Option Bool} {xs : List α} {x : α}
    (h : xs.findM? p = some (some x)) : x ∈ xs ∧ p x = some true := by
  induction xs with
  | nil => exact absurd h (by simp)
  | cons y ys ih =>
    rw [List.findM?, Option.bind_eq_bind, Option.bind_eq_some_iff] at h
    obtain ⟨b, hb, h⟩ := h
    cases b with
    | true =>
      obtain rfl := Option.some.inj (Option.some.inj h)
      exact ⟨List.mem_cons_self, hb⟩
    | false => exact ⟨List.mem_cons_of_mem _ (ih h).1, (ih h).2⟩

/-- A routine that a lookup finds is one of the type's, and takes as many arguments as
it was looked up with. -/
theorem lookup_spec {type : TypeId} {isStatic : Bool} {name : String} {args : List TypeId}
    {s : Signature} (h : t.lookup type isStatic name args = some s) :
    t.Has type ∧ s ∈ (t.get type).routinesOf isStatic ∧ s.name = name ∧
      s.params.length = args.length := by
  rw [lookup, Option.join_eq_some_iff, lookup?, Option.bind_eq_bind, Option.bind_eq_some_iff] at h
  obtain ⟨d, hd, h⟩ := h
  obtain ⟨hmem, haccepts⟩ := mem_of_findM? h
  have hget : t.get type = d := by rw [get, hd, Option.getD_some]
  refine ⟨(Array.getElem?_eq_some_iff.mp hd).1, by rw [hget]; exact hmem, ?_⟩
  rw [accepts?] at haccepts
  split at haccepts
  · rename_i hname
    refine ⟨hname, ?_⟩
    rw [argsEqual?, allPairs] at haccepts
    split at haccepts
    · assumption
    · exact absurd haccepts (by simp)
  · exact absurd haccepts (by simp)

/-- Routine types have no static side. -/
theorem Sound.isStatic_of_lookup (h : Sound t) {type : TypeId} {isStatic : Bool} {name : String}
    {args : List TypeId} {s : Signature} (hs : t.lookup type isStatic name args = some s)
    (hform : t.form type = .routine) : isStatic = false := by
  obtain ⟨-, hmem, -⟩ := lookup_spec hs
  cases isStatic with
  | false => rfl
  | true =>
    rw [TypeDecl.routinesOf, if_pos rfl, h.static_nil type hform] at hmem
    exact absurd hmem List.not_mem_nil

/-- Nothing but the call routine is found on them. -/
theorem Sound.name_of_lookup (h : Sound t) {type : TypeId} {name : String} {args : List TypeId}
    {s : Signature} (hs : t.lookup type false name args = some s)
    (hform : t.form type = .routine) : name = Reserved.call := by
  obtain ⟨-, hmem, hname, -⟩ := lookup_spec hs
  exact hname.symm.trans (h.called type hform s hmem)

end Unnest.TypeTable
