import Unnest.Proofs.Analysis.Additions
import Unnest.Proofs.Analysis.Program

/-!
# Types that are known

The tables of an analysis speak of types in three places: a binding has one, a name can
mean one, and a field of a type has one.  Each of them is in the table of types, and each
user type is on record with its scopes once its definition is closed (`Known`).  A type
that was refused has left an error instead.

`Knows ts m new` says that a part of the analysis keeps this.  It needs the types `ts` to
be there, and of the types `new` that its result mentions it makes sure that they are.
-/

namespace Unnest

namespace TypeTable

/-- A field of a type that got fields is an older one or one of them. -/
theorem fieldsOf_update_addFields (t : TypeTable) (type id : TypeId) (isStatic c : Bool)
    (bs : List Binding) :
    ∀ b ∈ ((t.update type fun d => d.addFields isStatic bs).get id).fieldsOf c,
      b ∈ (t.get id).fieldsOf c ∨ b ∈ bs := by
  intro b hb
  by_cases heq : type = id
  · subst heq
    by_cases hhas : t.Has type
    · rw [get_update_self hhas, TypeDecl.fieldsOf_addFields, List.mem_append] at hb
      refine hb.imp_right fun hb => ?_
      split at hb
      · exact hb
      · exact absurd hb List.not_mem_nil
    · rw [get_of_not_has (has_update.not.mpr hhas), ← get_of_not_has hhas] at hb
      exact Or.inl hb
  · rw [get_update_of_ne heq] at hb
    exact Or.inl hb

theorem form_update_addFields (t : TypeTable) (type id : TypeId) (isStatic : Bool)
    (bs : List Binding) : (t.update type fun d => d.addFields isStatic bs).form id = t.form id := by
  by_cases heq : type = id
  · subst heq
    by_cases hhas : t.Has type
    · rw [form, get_update_self hhas]
      cases isStatic <;> rfl
    · rw [form, get_of_not_has (has_update.not.mpr hhas), form, get_of_not_has hhas]
  · rw [form, get_update_of_ne heq, form]

end TypeTable

namespace Analysis

open Analyze

variable {α β : Type} {a b : Analysis} {s : ScopeId} {pending ts ts' : List TypeId}

/-- Every type that the tables mention is in the table of types, and every user type is
on record, but for those whose definition is still open. -/
structure Known (pending : List TypeId) (a : Analysis) : Prop where
  entries : ∀ s, ∀ b ∈ (a.scopes.get s).entries, a.types.Has b.type
  named : ∀ s, ∀ e ∈ (a.scopes.get s).types, a.types.Has e.2
  fields : ∀ id isStatic, ∀ b ∈ (a.types.get id).fieldsOf isStatic, a.types.Has b.type
  users : ∀ id, a.types.form id = .user →
    id ∈ pending ∨ (∃ e ∈ a.findings.types, e.2.type = id) ∨ a.errors ≠ []

namespace Known

theorem quiet (h : Known pending a) (ha : Adds nothing a b) : Known pending b := by
  refine ⟨fun s x hx => ?_, fun s e he => ?_, fun id isStatic x hx => ?_, fun id hid => ?_⟩
  · rw [ha.entries, List.append_nil] at hx
    exact ha.types.has (h.entries s x hx)
  · rw [ha.named] at he
    exact ha.types.has (h.named s e he)
  · rw [ha.types.data] at hx
    exact ha.types.has (h.fields id isStatic x hx)
  · rcases h.users id (ha.types.users id hid) with hp | ⟨e, he, heq⟩ | herrors
    · exact Or.inl hp
    · exact Or.inr (Or.inl ⟨e, ha.recorded he, heq⟩)
    · exact Or.inr (Or.inr fun hb => herrors (List.prefix_nil.mp (hb ▸ ha.errors)))

theorem inScope (h : Known pending a) (s : ScopeId) : Known pending { a with current := s } :=
  ⟨h.entries, h.named, h.fields, h.users⟩

theorem resolveType (h : Known pending a) {name : String} {type : TypeId}
    (ht : a.scopes.resolveType s name = some type) : a.types.Has type := by
  obtain ⟨x, -, hx⟩ := List.exists_of_findSome?_eq_some ht
  obtain ⟨e, he, rfl⟩ := Option.map_eq_some_iff.mp hx
  exact h.named x e (List.mem_of_find?_eq_some he)

/-- What is pending no longer counts once it is on record. -/
theorem close {type : TypeId} (h : Known (type :: pending) a)
    (ht : ∃ e ∈ a.findings.types, e.2.type = type) : Known pending a := by
  refine ⟨h.entries, h.named, h.fields, fun id hid => ?_⟩
  rcases h.users id hid with hp | hr
  · rcases List.mem_cons.mp hp with rfl | hp
    · exact Or.inr (Or.inl ht)
    · exact Or.inl hp
  · exact Or.inr hr

end Known

/-- A part of the analysis keeps the types known.  It starts where `ts` are known, and its
result mentions `new`. -/
def Knows (ts : List TypeId) (m : Analyze α) (new : α → List TypeId) : Prop :=
  ∀ pending a, Known pending a → (∀ t ∈ ts, a.types.Has t) →
    Known pending (m.run a).2 ∧ a.types.Extends (m.run a).2.types ∧
      ∀ t ∈ new (m.run a).1, (m.run a).2.types.Has t

namespace Knows

variable {m : Analyze α} {new : α → List TypeId} {new' : β → List TypeId}

theorem pure {x : α} (h : new x ⊆ ts) : Knows ts (pure x) new :=
  fun _ a ha hts => ⟨ha, .refl a.types, fun t ht => hts t (h ht)⟩

theorem bind {f : α → Analyze β} (hm : Knows ts m new) (hf : ∀ x, Knows (new x ++ ts) (f x) new') :
    Knows ts (m >>= f) new' := by
  intro pending a ha hts
  obtain ⟨hb, hx, hnew⟩ := hm pending a ha hts
  obtain ⟨hc, hx', hnew'⟩ := hf (m.run a).1 pending (m.run a).2 hb fun t ht =>
    (List.mem_append.mp ht).elim (hnew t) fun ht => hx.has (hts t ht)
  exact ⟨hc, hx.trans hx', hnew'⟩

theorem forget (h : Knows ts m new) : Knows ts m fun _ => [] := fun pending a ha hts => by
  obtain ⟨hb, hx, -⟩ := h pending a ha hts
  exact ⟨hb, hx, List.forall_mem_nil _⟩

theorem discard (h : Knows ts m new) : Knows ts (discard m) fun _ => [] := h.forget

theorem quiet (h : Quiet m) : Knows ts m fun _ => [] := fun _ a ha _ =>
  ⟨ha.quiet (h a), (h a).types.toExtends, List.forall_mem_nil _⟩

theorem inScope (h : Knows ts m new) (s : ScopeId) : Knows ts (inScope s m) new :=
  fun pending a ha hts => by
    obtain ⟨hb, hx⟩ := h pending { a with current := s } (ha.inScope s) hts
    exact ⟨hb.inScope a.current, hx⟩

theorem currentScope {f : ScopeId → Analyze α} (h : ∀ s, Knows ts (f s) new) :
    Knows ts (currentScope >>= f) new := fun pending a => h a.current pending a

end Knows

/-! ## Written types -/

theorem knows_addRoutineType (params : List TypeId) (result : Option TypeId) :
    Knows ts (addRoutineType params result) fun t => [t] := fun _ a ha _ => by
  have hquiet := quiet_addRoutineType params result a
  refine ⟨ha.quiet hquiet, hquiet.types.toExtends, fun t ht => ?_⟩
  rw [List.mem_singleton.mp ht]
  exact TypeTable.has_add_new a.types _

theorem knows_resolveType (name : String) :
    Knows ts (Analyze.resolveType name) Option.toList := fun _ a ha _ =>
  ⟨ha, .refl a.types, fun _ ht => ha.resolveType (Option.mem_toList.mp ht)⟩

mutual

theorem knows_resolve : (w : WrittenType) → {ts : List TypeId} →
    Knows ts (resolve w) Option.toList
  | .named name, ts => by
    refine (knows_resolveType name.name).bind fun found => ?_
    cases found with
    | none => exact (Knows.quiet (quiet_report _ _)).bind fun _ => .pure (List.nil_subset _)
    | some type => exact .pure (List.subset_append_left _ _)
  | .routine params result _, ts => by
    refine (Knows.quiet (quiet_resolveAll params)).bind fun ps =>
      (Knows.quiet (quiet_resolveResult result)).bind fun r => ?_
    cases ps with
    | none => exact .pure (List.nil_subset _)
    | some ps =>
      cases r with
      | none => exact .pure (List.nil_subset _)
      | some r => exact (knows_addRoutineType ps r).bind fun _ => .pure (List.subset_append_left _ _)

theorem knows_resolveAll : (ws : List WrittenType) → {ts : List TypeId} →
    Knows ts (resolveAll ws) (·.getD [])
  | [], _ => .pure (List.nil_subset _)
  | w :: ws, ts => by
    refine (knows_resolve w).bind fun first => (knows_resolveAll ws).bind fun rest => ?_
    refine .pure ?_
    cases first with
    | none => exact List.nil_subset _
    | some type =>
      cases rest with
      | none => exact List.nil_subset _
      | some types => simp

end

/-! ## Names -/

/-- A binding is declared, and its type is known. -/
theorem knows_declare (s : ScopeId) {b : Binding} (span : Span) (hb : b.type ∈ ts) :
    Knows ts (declare s b span) fun o => o.toList.map (·.type) := fun pending a ha hts => by
  rw [run_declare]
  cases h : a.scopes.declare s b span with
  | error e => exact ⟨ha.quiet (quiet_reportError e a), .refl _, List.forall_mem_nil _⟩
  | ok result =>
    obtain ⟨b', scopes⟩ := result
    have hd := Scopes.declared_of_declare h
    have htype : a.types.Has b'.type := by
      rw [hd.binding_eq]
      exact hts _ hb
    refine ⟨⟨fun x y hy => ?_, fun x e he => ?_, ha.fields, ha.users⟩, .refl _, ?_⟩
    · have hx : a.scopes.Has x := by
        have hxb := Scopes.has_of_mem_entries hy
        rwa [Scopes.Has, hd.size_eq] at hxb
      by_cases hs : a.scopes.Has s
      · rcases hd.mem_entries hs hy with hy | ⟨-, rfl⟩
        · exact ha.entries x y hy
        · exact htype
      · have hne : s ≠ x := fun heq => hs (heq ▸ hx)
        rw [(hd.agrees x hne).entries] at hy
        exact ha.entries x y hy
    · rcases eq_or_ne s x with rfl | hne
      · rw [hd.types] at he
        exact ha.named s e he
      · rw [(hd.agrees x hne).types] at he
        exact ha.named x e he
    · rintro t ht
      rwa [List.mem_singleton.mp ht]

/-- The names of a declaration get its type. -/
theorem knows_declareNames {type : TypeId} (role : Role) (owner : Option TypeId) :
    (names : List Ident) → {ts : List TypeId} → type ∈ ts →
      Knows ts (declareNames type role owner names) (List.map (·.type))
  | [], _, _ => .pure (List.nil_subset _)
  | name :: names, ts, ht => by
    have hrest : ∀ {us : List TypeId}, type ∈ us → ∀ b : Option Binding,
        Knows (b.toList.map (·.type) ++ us)
          (declareNames type role owner names >>= fun bs => Pure.pure (b.toList ++ bs))
          (List.map (·.type)) := fun hus b =>
      (knows_declareNames role owner names (List.mem_append_right _ hus)).bind fun bs => .pure (by
        rw [List.map_append]
        exact List.append_subset.mpr ⟨List.subset_append_of_subset_right _
          (List.subset_append_left _ _), List.subset_append_left _ _⟩)
    refine (Knows.quiet (quiet_refuseName name)).bind fun refused => ?_
    cases refused with
    | true => exact hrest ht none
    | false =>
      refine Knows.currentScope fun s => ?_
      exact (knows_declare s name.span ht).bind fun b => hrest ht b

theorem knows_recordDecl (node : NodeId) (f : DeclFinding) :
    Knows ts (recordDecl node f) fun _ => [] := .quiet (quiet_note fun _ => rfl)

theorem knows_varDecl (role : Role) (owner : Option TypeId) (d : VarDecl) :
    Knows ts (varDecl role owner d) (List.map (·.type)) := by
  refine (knows_resolve d.type).bind fun type => ?_
  cases type with
  | none => exact .pure (List.nil_subset _)
  | some type =>
    exact (knows_declareNames role owner d.names (List.mem_append_left _ List.mem_cons_self)).bind
      fun bs => (knows_recordDecl _ _).bind fun _ => .pure (List.subset_append_left _ _)

/-! ## Initial values -/

theorem knows_declareInit (node : NodeId) (role : Role) (owner : Option TypeId) (names : List Ident)
    {type : Option TypeId} (value : Option TypeId) (span : Span) (ht : type.toList ⊆ ts) :
    Knows ts (declareInit node role owner names type value span) (List.map (·.type)) := by
  cases type with
  | none => exact .pure (List.nil_subset _)
  | some type =>
    cases value with
    | none => exact .pure (List.nil_subset _)
    | some value =>
      refine (Knows.quiet (quiet_initialMode type value span)).bind fun mode => ?_
      cases mode with
      | none => exact .pure (List.nil_subset _)
      | some mode =>
        exact (knows_declareNames role owner names (ht List.mem_cons_self)).bind fun bs =>
          (knows_recordDecl _ _).bind fun _ => .pure (List.subset_append_left _ _)

theorem knows_initDecl (d : InitDecl) : Knows ts (initDecl d) fun _ => [] :=
  (knows_resolve d.type).bind fun _ => (Knows.quiet (quiet_operand d.value)).bind fun value =>
    (knows_declareInit _ _ _ _ value _ (List.subset_append_left _ _)).discard

/-- A type gets fields of types that are known. -/
theorem knows_addFields (type : TypeId) (isStatic : Bool) {bs : List Binding}
    (h : bs.map (·.type) ⊆ ts) :
    Knows ts (updateTypes fun t => t.update type fun d => d.addFields isStatic bs)
      fun _ => [] := fun pending a ha hts => by
  have hx : a.types.Extends (a.types.update type fun d => d.addFields isStatic bs) :=
    TypeTable.extends_update (fun d => by cases isStatic <;> rfl)
      (fun d c => by rw [TypeDecl.routinesOf_addFields]) fun d c => by
        rw [TypeDecl.fieldsOf_addFields]
        exact List.prefix_append _ _
  have hfields := fun id c => TypeTable.fieldsOf_update_addFields a.types type id isStatic c bs
  have hforms := fun id => TypeTable.form_update_addFields a.types type id isStatic bs
  change Known pending { a with types := a.types.update type fun d => d.addFields isStatic bs } ∧
    a.types.Extends (a.types.update type fun d => d.addFields isStatic bs) ∧ _
  revert hx hfields hforms
  generalize a.types.update type (fun d => d.addFields isStatic bs) = t
  intro hx hfields hforms
  refine ⟨⟨fun s b hb => hx.has (ha.entries s b hb), fun s e he => hx.has (ha.named s e he),
    fun id c b hb => ?_, fun id hid => ha.users id (hforms id ▸ hid)⟩, hx, List.forall_mem_nil _⟩
  rcases hfields id c b hb with hb | hb
  · exact hx.has (ha.fields id c b hb)
  · exact hx.has (hts _ (h (List.mem_map_of_mem hb)))

theorem knows_instanceFields (type : TypeId) : (ds : List VarDecl) → {ts : List TypeId} →
    Knows ts (instanceFields type ds) fun _ => []
  | [], _ => .pure (List.nil_subset _)
  | d :: ds, _ => (knows_varDecl .field (some type) d).bind fun _ =>
      (knows_addFields type false (List.subset_append_left _ _)).bind fun _ =>
        knows_instanceFields type ds

theorem knows_staticField (type : TypeId) (inner : ScopeId) (f : StaticField) :
    Knows ts (staticField type inner f) fun _ => [] :=
  ((Knows.quiet (quiet_operand f.init)).inScope inner).bind fun value =>
    (knows_resolve f.decl.type).bind fun _ =>
      (knows_declareInit _ _ _ _ value _ (List.subset_append_left _ _)).bind fun _ =>
        knows_addFields type true (List.subset_append_left _ _)

theorem knows_staticFields (type : TypeId) (inner : ScopeId) : (fs : List StaticField) →
    {ts : List TypeId} → Knows ts (staticFields type inner fs) fun _ => []
  | [], _ => .pure (List.nil_subset _)
  | f :: fs, _ => (knows_staticField type inner f).bind fun _ => knows_staticFields type inner fs

/-! ## Routines -/

theorem knows_declareParams (s : ScopeId) : (ps : List (Param × TypeId)) → {ts : List TypeId} →
    ps.map (·.2) ⊆ ts → Knows ts (declareParams s ps) fun _ => []
  | [], _, _ => .pure (List.nil_subset _)
  | (p, type) :: ps, ts, h => by
    rw [List.map_cons, List.cons_subset] at h
    refine (knows_declare s p.name.span h.1).bind fun b => ?_
    exact (knows_declareParams s ps (List.subset_append_of_subset_right _ h.2)).bind fun _ =>
      .pure (List.nil_subset _)

/-- Opening a routine declares its parameters, whose types are known. -/
theorem knows_openRoutine (r : RoutineDef) (member : Option Membership) {signature : Signature}
    (binding : Binding) (h : signature.params ⊆ ts) :
    Knows ts (openRoutine r member signature binding) fun _ => [] := fun pending a ha hts => by
  rw [run_openRoutine]
  set units := (a.units.plan (a.scopes.get a.current).unit r.name.name .routine none).2
  have hopen := ha.quiet (adds_openMember a a.current .routine r.name.name ⟨a.units.size⟩
    (member.map (·.type)) ((member.map (·.isStatic)).getD false))
  have hparams : (r.params.zip signature.params).map (·.2) ⊆ ts := by
    intro t ht
    obtain ⟨x, hx, rfl⟩ := List.mem_map.mp ht
    exact h (List.of_mem_zip hx).2
  obtain ⟨hb, hx, -⟩ := knows_declareParams ⟨a.scopes.size⟩ _ hparams pending { a with
    scopes := a.scopes.openMember a.current .routine r.name.name ⟨a.units.size⟩
      (member.map (·.type)) ((member.map (·.isStatic)).getD false)
    units } ⟨hopen.entries, hopen.named, hopen.fields, hopen.users⟩ hts
  exact ⟨⟨hb.entries, hb.named, hb.fields, hb.users⟩, hx, List.forall_mem_nil _⟩

theorem knows_declareRoutine (member : Option Membership) (r : RoutineDef) :
    Knows ts (declareRoutine member r) fun _ => [] := by
  refine (knows_resolveAll (r.params.map (·.type))).bind fun params =>
    (Knows.quiet (quiet_resolveResult r.result)).bind fun result => ?_
  cases params with
  | none => exact .pure (List.nil_subset _)
  | some params =>
    cases result with
    | none => exact .pure (List.nil_subset _)
    | some result =>
      refine (Knows.quiet (quiet_refuseMember member r.name params)).bind fun refused => ?_
      cases refused with
      | true => exact .pure (List.nil_subset _)
      | false =>
        refine (Knows.quiet (quiet_refuseName r.name)).bind fun refused => ?_
        cases refused with
        | true => exact .pure (List.nil_subset _)
        | false =>
          refine (knows_addRoutineType params result).bind fun type =>
            Knows.currentScope fun s => ?_
          have htype : (routineBinding member r.name.name type).type = type := by
            cases member <;> rfl
          have hmem : (routineBinding member r.name.name type).type ∈
              [type] ++ ([] ++ ([] ++ ([] ++ (params ++ ts)))) := by
            rw [htype]
            exact List.mem_cons_self
          refine (knows_declare s r.name.span hmem).bind fun binding => ?_
          cases binding with
          | none => exact .pure (List.nil_subset _)
          | some binding =>
            refine (Knows.quiet (quiet_addMember member _)).bind fun _ =>
              (knows_openRoutine r member binding ?_).bind fun _ => .pure (List.nil_subset _)
            intro t ht
            simp [show t ∈ params from ht]

theorem knows_declareMembers (m : Membership) : (rs : List RoutineDef) → {ts : List TypeId} →
    Knows ts (declareMembers m rs) fun _ => []
  | [], _ => .pure (List.nil_subset _)
  | r :: rs, _ => (knows_declareRoutine (some m) r).bind fun _ =>
      (knows_declareMembers m rs).bind fun _ => .pure (List.nil_subset _)

/-! ## Types -/

namespace Known

variable {type : TypeId}

/-- A user type is added.  Its definition is open from now on. -/
theorem addUser (h : Known pending a) (name : String) :
    Known ((a.types.add { name, form := .user }).1 :: pending)
      { a with types := (a.types.add { name, form := .user }).2 } := by
  have hx := TypeTable.extends_add a.types { name, form := .user }
  refine ⟨fun s b hb => hx.has (h.entries s b hb), fun s e he => hx.has (h.named s e he),
    fun id isStatic b hb => hx.has (h.fields id isStatic b ?_), fun id hid => ?_⟩
  · by_cases hnew : id = (a.types.add { name, form := .user }).1
    · rw [hnew, TypeTable.get_add_new] at hb
      cases isStatic <;> exact absurd hb List.not_mem_nil
    · by_cases hhas : a.types.Has id
      · rwa [TypeTable.get_add_old _ hhas] at hb
      · rwa [TypeTable.get_of_not_has (TypeTable.not_has_add hnew hhas),
          ← TypeTable.get_of_not_has hhas] at hb
  · by_cases hnew : id = (a.types.add { name, form := .user }).1
    · exact Or.inl (hnew ▸ List.mem_cons_self)
    · refine (h.users id ?_).imp_left (List.mem_cons_of_mem _)
      by_cases hhas : a.types.Has id
      · rwa [TypeTable.form, TypeTable.get_add_old _ hhas] at hid
      · rw [TypeTable.form, TypeTable.get_of_not_has (TypeTable.not_has_add hnew hhas)] at hid
        exact absurd hid (by decide)

/-- What is pending no longer counts once there is an error. -/
theorem refuse (h : Known (type :: pending) a) (he : a.errors ≠ []) : Known pending a :=
  ⟨h.entries, h.named, h.fields, fun _ _ => Or.inr (Or.inr he)⟩

/-- A name gets a type that is known. -/
theorem declareType (h : Known pending a) {name : String} {span : Span} {scopes : Scopes}
    (hd : a.scopes.declareType s name type span = .ok scopes) (ht : a.types.Has type) :
    Known pending { a with scopes } := by
  have hdeclared := Scopes.typeDeclared_of_declareType hd
  refine ⟨fun x b hb => h.entries x b ?_, fun x e he => ?_, h.fields, h.users⟩
  · rcases eq_or_ne s x with rfl | hne
    · rwa [← hdeclared.entries]
    · rwa [← (hdeclared.agrees x hne).entries]
  · rcases eq_or_ne s x with rfl | hne
    · by_cases hs : a.scopes.Has s
      · rw [show (scopes.get s).types = _ from hdeclared.types hs, List.mem_append,
          List.mem_singleton] at he
        rcases he with he | rfl
        · exact h.named s e he
        · exact ht
      · have hs' : ¬ scopes.Has s := by rwa [Scopes.Has, hdeclared.size_eq]
        rw [show ({ a with scopes } : Analysis).scopes = scopes from rfl,
          Scopes.get_of_not_has hs'] at he
        exact absurd he List.not_mem_nil
    · exact h.named x e ((hdeclared.agrees x hne).types ▸ he)

end Known

theorem knows_declareType (s : ScopeId) (name : String) {type : TypeId} (span : Span)
    (ht : type ∈ ts) : Knows ts (Analyze.declareType s name type span) fun _ => [] := by
  intro pending a ha hts
  rw [run_declareType]
  cases h : a.scopes.declareType s name type span with
  | error e => exact ⟨ha.quiet (quiet_reportError e a), .refl _, List.forall_mem_nil _⟩
  | ok scopes => exact ⟨ha.declareType h (hts _ ht), .refl _, List.forall_mem_nil _⟩

/-- The scopes of a type are opened, and nothing else is declared. -/
theorem adds_openedType (a : Analysis) (name : String) (type : TypeId) :
    Adds nothing a { openedType a name type with
      scopes := (openedType a name type).scopes.openMember ⟨a.scopes.size⟩ .fieldInit name
        ⟨a.units.size⟩ (some type) false } := by
  set units := (a.units.plan (a.scopes.get a.current).unit name .type (some type)).2
  have hplan : Adds nothing a { a with units } :=
    .of_eq rfl rfl rfl (List.Subset.refl _) (List.prefix_refl _)
  have hpath := @adds_types { a with units } _
    (TypeTable.sameData_setPath a.types type (units.path ⟨a.units.size⟩))
  have hopen := adds_openMember
    { a with units, types := a.types.setPath type (units.path ⟨a.units.size⟩) } a.current .type name
    ⟨a.units.size⟩ (some type) false
  exact ((hplan.after hpath).after hopen).after (adds_openMember _ _ _ _ _ _ _)

/-- What opening a type comes to: a type whose definition is open, or a refusal. -/
structure Opens.Pending (pending : List TypeId) (a : Analysis) (x : Option TypeFinding × Analysis) :
    Prop where
  extends_types : a.types.Extends x.2.types
  refused : x.1 = none → Known pending x.2
  opened : ∀ f, x.1 = some f → Known (f.type :: pending) x.2

theorem Opens.Pending.bind {m : Analyze α} {f : α → Analyze (Option TypeFinding)}
    (hx : a.types.Extends (m.run a).2.types)
    (h : Opens.Pending pending (m.run a).2 ((f (m.run a).1).run (m.run a).2)) :
    Opens.Pending pending a ((m >>= f).run a) :=
  ⟨hx.trans h.extends_types, h.refused, h.opened⟩

theorem Opens.Pending.of_refused (h : Known pending a) : Opens.Pending pending a (none, a) :=
  ⟨.refl _, fun _ => h, fun _ hf => absurd hf (by simp)⟩

theorem Opens.Pending.of_opened {f : TypeFinding} (hx : a.types.Extends b.types)
    (h : Known (f.type :: pending) b) : Opens.Pending pending a (some f, b) :=
  ⟨hx, fun hf => absurd hf (by simp), fun _ hf => Option.some.inj hf ▸ h⟩

theorem pending_openType (name : Ident) (h : Known pending a) :
    Opens.Pending pending a ((openType name).run a) := by
  have hfirst := quiet_refuseType name a
  refine .bind hfirst.types.toExtends ?_
  generalize (refuseType name).run a = x at hfirst ⊢
  obtain ⟨refused, b⟩ := x
  have hb := h.quiet hfirst
  cases refused with
  | true => exact .of_refused hb
  | false =>
    refine .bind (TypeTable.extends_add b.types { name := name.name, form := .user }) ?_
    have hc : Known (((addType { name := name.name, form := .user }).run b).1 :: pending)
        ((addType { name := name.name, form := .user }).run b).2 := hb.addUser name.name
    have hhas : ((addType { name := name.name, form := .user }).run b).2.types.Has
        ((addType { name := name.name, form := .user }).run b).1 := TypeTable.has_add_new _ _
    dsimp only
    generalize (addType { name := name.name, form := .user }).run b = y at hc hhas ⊢
    obtain ⟨type, c⟩ := y
    have hrun := run_declareType c.current name.name type name.span c
    refine .bind (m := currentScope) (.refl c.types) (.bind ?_ ?_)
    all_goals
      rw [show currentScope.run c = (c.current, c) from rfl, show (_ : Bool × Analysis) = _ from hrun]
      cases hd : c.scopes.declareType c.current name.name type name.span
    · exact .refl c.types
    · exact .refl c.types
    · exact .of_refused ((hc.quiet (quiet_reportError _ c)).refuse
        (List.append_ne_nil_of_right_ne_nil c.errors (List.cons_ne_nil _ [])))
    · rename_i scopes
      have hopened := adds_openedType { c with scopes } name.name type
      exact .of_opened (f := typeFinding { c with scopes } name.name type) hopened.types.toExtends
        ((hc.declareType hd hhas).quiet hopened)

/-! ## Statements -/

/-- A type is on record when its definition is finished. -/
theorem recorded_finishType (t : TypeDef) (f : TypeFinding) (a : Analysis) :
    ∃ sources, (t.node, { f with captures := sources }) ∈
      ((finishType t f).run a).2.findings.types := by
  set b := ((captureSources f.scope).run a).2
  set g : TypeFinding := { f with captures := ((captureSources f.scope).run a).1 }
  have hclosing := quiet_checkClosing .typeNotClosed t.name t.closing
    { b with findings := { b.findings with types := b.findings.types.write t.node g } }
  exact ⟨_, hclosing.recorded List.mem_cons_self⟩

mutual

/-- Statements keep the types known. -/
theorem knows_stmt : (x : Stmt) → {ts : List TypeId} → Knows ts (stmt x) fun _ => []
  | .declare d, _ => (knows_varDecl .var none d).discard
  | .define d, _ => knows_initDecl d
  | .assign x, _ => .quiet (quiet_assign x)
  | .call c, _ => (Knows.quiet (quiet_chain c)).discard
  | .branch gs otherwise _, _ => (knows_guardedAll gs).bind fun _ => knows_elseBlock otherwise
  | .loop g, _ => knows_guarded g
  | .routine r, _ => (knows_declareRoutine none r).bind fun declared => by
      cases declared with
      | none => exact .pure (List.nil_subset _)
      | some declared => exact knows_routineBody declared r
  | .type t, _ => knows_typeDef t

theorem knows_guarded : (g : Guarded) → {ts : List TypeId} → Knows ts (guarded g) fun _ => []
  | ⟨node, condition, body, _⟩, _ => (Knows.quiet (quiet_openBlock node)).bind fun scope =>
      ((Knows.quiet (quiet_checkCondition condition)).bind fun _ => knows_stmts body).inScope scope

theorem knows_elseBlock : (e : Else) → {ts : List TypeId} → Knows ts (elseBlock e) fun _ => []
  | .absent, _ => .pure (List.nil_subset _)
  | .block node body _, _ => (Knows.quiet (quiet_openBlock node)).bind fun scope =>
      (knows_stmts body).inScope scope

theorem knows_routineBody (d : DeclaredRoutine) : (r : RoutineDef) → {ts : List TypeId} →
    Knows ts (routineBody d r) fun _ => []
  | ⟨_, _, _, _, _, body, _, _⟩, _ =>
    (((knows_stmts body).bind fun _ => .quiet (quiet_checkReturn _ d.result)).inScope d.scope).bind
      fun _ => .quiet (quiet_finishRoutine _ d.scope)

theorem knows_typeDef : (t : TypeDef) → {ts : List TypeId} → Knows ts (typeDef t) fun _ => []
  | ⟨node, name, closing, fields, statics, routines, staticRoutines, span⟩, ts => by
    intro pending a ha hts
    have hopened := pending_openType name ha
    rw [run_typeDef]
    dsimp only
    generalize (openType name).run a = x at hopened ⊢
    obtain ⟨f, b⟩ := x
    cases f with
    | none => exact ⟨hopened.refused rfl, hopened.extends_types, List.forall_mem_nil _⟩
    | some f =>
      have hmembers : Knows ts (members f fields statics routines staticRoutines) fun _ => [] :=
        (knows_instanceFields f.type fields).bind fun _ =>
          (knows_staticFields f.type f.fieldInit statics).bind fun _ =>
            (knows_declareMembers ⟨f.type, false⟩ routines).bind fun ds =>
              (knows_declareMembers ⟨f.type, true⟩ staticRoutines).bind fun es =>
                (knows_routineBodies ds routines).bind fun _ => knows_routineBodies es staticRoutines
      obtain ⟨hc, hx, -⟩ := hmembers.inScope f.scope _ b (hopened.opened f rfl) fun t ht =>
        hopened.extends_types.has (hts t ht)
      have hfinish := quiet_finishType
        ⟨node, name, closing, fields, statics, routines, staticRoutines, span⟩ f
      refine ⟨(hc.quiet (hfinish _)).close ((recorded_finishType _ f _).elim fun _ h => ⟨_, h, rfl⟩),
        (hopened.extends_types.trans hx).trans (hfinish _).types.toExtends, List.forall_mem_nil _⟩

theorem knows_stmts : (xs : List Stmt) → {ts : List TypeId} → Knows ts (stmts xs) fun _ => []
  | [], _ => .pure (List.nil_subset _)
  | x :: xs, _ => (knows_stmt x).bind fun _ => knows_stmts xs

theorem knows_guardedAll : (gs : List Guarded) → {ts : List TypeId} →
    Knows ts (guardedAll gs) fun _ => []
  | [], _ => .pure (List.nil_subset _)
  | g :: gs, _ => (knows_guarded g).bind fun _ => knows_guardedAll gs

theorem knows_routineBodies : (ds : List (Option DeclaredRoutine)) → (rs : List RoutineDef) →
    {ts : List TypeId} → Knows ts (routineBodies ds rs) fun _ => []
  | some d :: ds, r :: rs, _ => (knows_routineBody d r).bind fun _ => knows_routineBodies ds rs
  | none :: ds, _ :: rs, _ => knows_routineBodies ds rs
  | [], [], _ => .pure (List.nil_subset _)
  | [], _ :: _, _ => .pure (List.nil_subset _)
  | some _ :: _, [], _ => .pure (List.nil_subset _)
  | none :: _, [], _ => .pure (List.nil_subset _)

end

/-! ## Whole programs -/

/-- Without errors, every user type was defined. -/
theorem Known.recorded (h : Known [] a) (he : a.errors = []) {id : TypeId}
    (hid : a.types.form id = .user) : ∃ e ∈ a.findings.types, e.2.type = id := by
  rcases h.users id hid with hp | hr | herrors
  · exact absurd hp List.not_mem_nil
  · exact hr
  · exact absurd he herrors

theorem knows_declareTypes : (xs : List (String × TypeId)) → {ts : List TypeId} →
    xs.map (·.2) ⊆ ts → Knows ts (declareTypes xs) fun _ => []
  | [], _, _ => .pure (List.nil_subset _)
  | (name, type) :: xs, _, h => by
    rw [List.map_cons, List.cons_subset] at h
    exact (knows_declareType _ name _ h.1).discard.bind fun _ => knows_declareTypes xs h.2

theorem knows_declareRoutines : (xs : List (String × TypeId)) → {ts : List TypeId} →
    xs.map (·.2) ⊆ ts → Knows ts (declareRoutines xs) fun _ => []
  | [], _, _ => .pure (List.nil_subset _)
  | (name, type) :: xs, _, h => by
    rw [List.map_cons, List.cons_subset] at h
    exact (knows_declare _ _ h.1).discard.bind fun _ => knows_declareRoutines xs h.2

/-- Before anything is declared, there are the predefined types. -/
theorem known_blank (program : String) : Known [] (blank program) := by
  refine ⟨fun s b hb => ?_, fun s e he => ?_, fun id isStatic b hb => ?_, fun id hid => ?_⟩
  · obtain rfl := Scopes.has_root (Scopes.has_of_mem_entries hb)
    exact absurd hb List.not_mem_nil
  · by_cases hs : (blank program).scopes.Has s
    · obtain rfl := Scopes.has_root hs
      exact absurd he List.not_mem_nil
    · rw [Scopes.get_of_not_has hs] at he
      exact absurd he List.not_mem_nil
  · by_cases hhas : (blank program).types.Has id
    · rw [show ((blank program).types.get id).fieldsOf isStatic = [] from
        (TypeTable.form_predefined hhas).2 isStatic] at hb
      exact absurd hb List.not_mem_nil
    · rw [TypeTable.get_of_not_has hhas] at hb
      cases isStatic <;> exact absurd hb List.not_mem_nil
  · by_cases hhas : (blank program).types.Has id
    · rcases (TypeTable.form_predefined hhas).1 with h | h <;>
        exact absurd (hid.symm.trans h) (by decide)
    · rw [TypeTable.form, TypeTable.get_of_not_has hhas] at hid
      exact absurd hid (by decide)

theorem known_initial (program : String) : Known [] (initial program) := by
  have hpredefined : ∀ t ∈ (Predefined.namedTypes ++ Predefined.routines).map (·.2),
      t.index < 6 := by decide
  have h : Knows ((Predefined.namedTypes ++ Predefined.routines).map (·.2)) predefine fun _ => [] :=
    (knows_declareTypes _ (by decide)).bind fun _ => knows_declareRoutines _ (by decide)
  exact (h [] _ (known_blank program) hpredefined).1

/-- Whatever is written, the types of the tables are known. -/
theorem known_analyze (program : String) (q : Program) : Known [] (analyze program q) :=
  ((knows_stmts q.stmts : Knows [] _ _) [] _ (known_initial program) (List.forall_mem_nil _)).1

end Analysis

end Unnest
