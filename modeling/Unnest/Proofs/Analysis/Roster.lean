import Unnest.Proofs.Analysis.Entries
import Unnest.Proofs.Analysis.Lasting
import Unnest.Proofs.Analysis.Origins
import Unnest.Proofs.Analysis.Refusals

/-!
# The members of a type

What is a member of a type is said twice: in the entries of its scope, where names are
resolved, and in the lists of its declaration, where members are looked up.  The fields of a
type are entries of its scope, and every routine stands for one further entry
(`TypeDecl.Matches`).  This holds when the scope is opened, and each field and each routine
that is declared adds to both sides (`Fills`).

So the names of all members are distinct, as the names of a scope are, and a name means one
member at most (`RosterAt`).  When the first body of a type is analysed, its members are
complete, and they last to the end of the analysis (`roster_final`).
-/

namespace Unnest

namespace TypeDecl

variable {type : TypeId} {d : TypeDecl} {entries : List Binding}

/-- A member of a type, of the type itself if it is static. -/
inductive Member where
  | field (isStatic : Bool) (b : Binding)
  | routine (isStatic : Bool) (s : Signature)

namespace Member

def name : Member → String
  | field _ b => b.name
  | routine _ s => s.name

def isStatic : Member → Bool
  | field isStatic _ | routine isStatic _ => isStatic

end Member

/-- All members: fields, static fields, routines and static routines. -/
def members (d : TypeDecl) : List Member :=
  (d.fieldsOf false).map (.field false) ++ (d.fieldsOf true).map (.field true) ++
    ((d.routinesOf false).map (.routine false) ++ (d.routinesOf true).map (.routine true))

theorem field_mem_members {isStatic : Bool} {b : Binding} :
    .field isStatic b ∈ d.members ↔ b ∈ d.fieldsOf isStatic := by
  cases isStatic <;> simp [members]

theorem routine_mem_members {isStatic : Bool} {s : Signature} :
    .routine isStatic s ∈ d.members ↔ s ∈ d.routinesOf isStatic := by
  cases isStatic <;> simp [members]

/-- A binding stands for a member: it is the field, or it holds the routine. -/
structure Stands (type : TypeId) (b : Binding) (m : Member) : Prop where
  name : b.name = m.name
  role : b.role = .member m.isStatic
  owner : b.owner = some type
  data : ∀ isStatic f, m = .field isStatic f → b = f

theorem names_of_stands {bs : List Binding} {ms : List Member}
    (h : List.Forall₂ (Stands type) bs ms) : bs.map (·.name) = ms.map (·.name) := by
  induction h with
  | nil => rfl
  | cons hb _ ih => rw [List.map_cons, List.map_cons, hb.name, ih]

theorem stands_fields {isStatic : Bool} {bs : List Binding}
    (h : ∀ b ∈ bs, b.role = .member isStatic ∧ b.owner = some type) :
    List.Forall₂ (Stands type) bs (bs.map (.field isStatic)) := by
  induction bs with
  | nil => exact .nil
  | cons b bs ih =>
    rw [List.forall_mem_cons] at h
    refine .cons ⟨rfl, h.1.1, h.1.2, fun _ f hf => ?_⟩ (ih h.2)
    injection hf

/-- The entries of a scope are the fields of a type, and one binding for each routine. -/
def Matches (type : TypeId) (d : TypeDecl) (entries : List Binding) : Prop :=
  ∃ held : Bool → List Binding,
    entries.Perm (d.fieldsOf false ++ d.fieldsOf true ++ (held false ++ held true)) ∧
    ∀ isStatic, List.Forall₂ (fun b s => Stands type b (.routine isStatic s)) (held isStatic)
      (d.routinesOf isStatic)

namespace Matches

theorem empty (hf : ∀ isStatic, d.fieldsOf isStatic = [])
    (hr : ∀ isStatic, d.routinesOf isStatic = []) : d.Matches type [] := by
  refine ⟨fun _ => [], ?_, fun isStatic => ?_⟩
  · rw [hf, hf]
    exact .refl _
  · rw [hr]
    exact .nil

/-- Fields are added on both sides. -/
theorem addFields (h : d.Matches type entries) (isStatic : Bool) (bs : List Binding) :
    (d.addFields isStatic bs).Matches type (entries ++ bs) := by
  obtain ⟨held, hperm, hheld⟩ := h
  refine ⟨held, ?_, fun c => ?_⟩
  · rw [List.perm_iff_count] at hperm ⊢
    intro x
    have hx := hperm x
    simp only [List.count_append, fieldsOf_addFields] at hx ⊢
    cases isStatic <;> simp only [reduceIte, Bool.false_eq_true, Bool.true_eq_false,
      List.count_nil] <;> omega
  · rw [routinesOf_addFields]
    exact hheld c

/-- A routine is added on both sides. -/
theorem addRoutine (h : d.Matches type entries) {isStatic : Bool} {b : Binding} {s : Signature}
    (hb : Stands type b (.routine isStatic s)) :
    (d.addRoutine isStatic s).Matches type (entries ++ [b]) := by
  obtain ⟨held, hperm, hheld⟩ := h
  refine ⟨fun c => held c ++ if isStatic = c then [b] else [], ?_, fun c => ?_⟩
  · rw [List.perm_iff_count] at hperm ⊢
    intro x
    have hx := hperm x
    simp only [List.count_append, fieldsOf_addRoutine] at hx ⊢
    cases isStatic <;> simp only [reduceIte, Bool.false_eq_true, Bool.true_eq_false,
      List.count_nil] <;> omega
  · rw [routinesOf_addRoutine]
    refine List.rel_append (hheld c) ?_
    split
    · rename_i hc
      exact .cons (hc ▸ hb) .nil
    · exact .nil

/-- Every entry stands for one member. -/
theorem exists_stands (h : d.Matches type entries)
    (hfields : ∀ isStatic, ∀ b ∈ d.fieldsOf isStatic,
      b.role = .member isStatic ∧ b.owner = some type) :
    ∃ bs, entries.Perm bs ∧ List.Forall₂ (Stands type) bs d.members := by
  obtain ⟨held, hperm, hheld⟩ := h
  exact ⟨_, hperm, List.rel_append
    (List.rel_append (stands_fields (hfields false)) (stands_fields (hfields true)))
    (List.rel_append (List.forall₂_map_right_iff.mpr (hheld false))
      (List.forall₂_map_right_iff.mpr (hheld true)))⟩

end Matches

end TypeDecl

/-- A lookup of a name on a type comes to a member: a field, a routine that is called, or a
routine that is read as a value. -/
inductive TypeTable.Finds (t : TypeTable) (type : TypeId) (name : String) :
    TypeDecl.Member → Prop
  | field {isStatic : Bool} {b : Binding} (h : t.lookupField type isStatic name = some b) :
      Finds t type name (.field isStatic b)
  | call {isStatic : Bool} {args : List TypeId} {s : Signature}
      (h : t.lookup type isStatic name args = some s) : Finds t type name (.routine isStatic s)
  | value {isStatic : Bool} {s : Signature} (hname : s.name = name)
      (h : { s with name := Reserved.call } ∈ t.memberSignatures ⟨type, name, isStatic⟩) :
      Finds t type name (.routine isStatic s)

/-- What is found is a member of that name. -/
theorem TypeTable.Finds.mem {t : TypeTable} {type : TypeId} {name : String}
    {m : TypeDecl.Member} (h : t.Finds type name m) :
    m ∈ (t.get type).members ∧ m.name = name := by
  cases h with
  | @field isStatic b h =>
    refine ⟨TypeDecl.field_mem_members.mpr (List.mem_of_find?_eq_some h), ?_⟩
    exact eq_of_beq (List.find?_some h :)
  | call h =>
    obtain ⟨-, hmem, hname, -⟩ := lookup_spec h
    exact ⟨TypeDecl.routine_mem_members.mpr hmem, hname⟩
  | @value isStatic s hname h =>
    refine ⟨TypeDecl.routine_mem_members.mpr ?_, hname⟩
    obtain ⟨s', hs', heq⟩ := List.mem_map.mp h
    obtain ⟨hmem, hname'⟩ := List.mem_filter.mp hs'
    obtain ⟨name', params, result⟩ := s
    obtain ⟨name'', params', result'⟩ := s'
    injection heq with _ hparams hresult
    have hnames : name'' = name := eq_of_beq hname'
    subst hparams hresult hnames
    exact hname ▸ hmem

namespace Analysis

open Analyze

variable {program : String} {q : Program} {T : Task} {a b : Analysis} {s inner : ScopeId}
  {type : TypeId}

/-! ## Opening a routine -/

/-- Opening a routine declares in the scope of the routine, and adds nothing to a type. -/
theorem TypeAt.kept_openRoutine (h : TypeAt s type a) (r : RoutineDef)
    (member : Option Membership) (signature : Signature) (x : Binding) :
    Kept s type a ((openRoutine r member signature x).run a).2 ∧
      ((openRoutine r member signature x).run a).2.current = a.current := by
  have hopened := adds_openMember a a.current .routine r.name.name ⟨a.units.size⟩
    (member.map (·.type)) ((member.map (·.isStatic)).getD false)
  rw [run_openRoutine]
  set t := a.scopes.openMember a.current .routine r.name.name ⟨a.units.size⟩
    (member.map (·.type)) ((member.map (·.isStatic)).getD false) with ht
  have hnew : t.Has ⟨a.scopes.size⟩ := by
    rw [ht, Scopes.Has, Scopes.size_openMember]
    exact Nat.lt_succ_self _
  have hne : s ≠ ⟨a.scopes.size⟩ := by
    rintro rfl
    exact Nat.lt_irrefl _ h.has
  set units := (a.units.plan (a.scopes.get a.current).unit r.name.name .routine none).2
  have hparams := @adds_declareParams ⟨a.scopes.size⟩ (r.params.zip signature.params)
    { a with scopes := t, units } hnew
  refine ⟨⟨(hparams.entries s).trans ?_, ?_, congrArg (TypeTable.get · type)
    (types_declareParams _ _ { a with scopes := t, units })⟩, hparams.current⟩
  · rw [only, if_neg hne, List.append_nil]
    exact (hopened.entries s).trans (List.append_nil _)
  · exact (hparams.scopes.kind_eq (hopened.scopes.has h.has)).trans (hopened.scopes.kind_eq h.has)

/-! ## Declaring members -/

/-- The walk is in the scope of a type, and each of its members is on both sides. -/
structure Fills (s : ScopeId) (type : TypeId) (a : Analysis) : Prop extends TypeAt s type a where
  current : a.current = s
  members : (a.types.get type).Matches type (a.scopes.get s).entries

namespace Fills

theorem kept (h : Fills s type a) (hk : Kept s type a b) (hc : b.current = a.current) :
    Fills s type b := by
  refine ⟨hk.typeAt h.toTypeAt, hc.trans h.current, ?_⟩
  rw [hk.type, hk.entries]
  exact h.members

/-- Names are declared, and become fields. -/
theorem enters {m : Analyze (List Binding)} (h : Fills s type a) (ha : Sound a) (hm : Enters m)
    (hk : Keeps a.here Set.univ m) (isStatic : Bool) : Fills s type { (m.run a).2 with
      types := (m.run a).2.types.update type fun d => d.addFields isStatic (m.run a).1 } := by
  have hadds := hm a ha.has
  obtain ⟨-, hspares, -⟩ := hk a (confined_here ha)
  have hentries := hadds.entries s
  rw [h.current, only_self] at hentries
  have htype := TypeTable.get_update_self (hadds.types.has h.hasType) fun d =>
    d.addFields isStatic (m.run a).1
  rw [hspares.types type h.hasType] at htype
  refine ⟨⟨(hadds.scopes.kind_eq h.has).trans h.kind, ?_⟩, hadds.current.trans h.current, ?_⟩
  · rw [TypeTable.form, htype]
    refine Eq.trans ?_ h.form
    cases isStatic <;> rfl
  · rw [htype]
    dsimp only
    rw [hentries]
    exact h.members.addFields isStatic _

theorem instanceFields : (ds : List VarDecl) → {a : Analysis} →
    (Task.instanceFields type ds).Ready a → Fills s type a →
      Fills s type ((Analyze.instanceFields type ds).run a).2
  | [], _, _, h => h
  | d :: ds, a, hT, h => by
    have hrest := (hT.calls _ (List.mem_cons_of_mem _ (List.mem_singleton_self _))).ready
    exact instanceFields ds hrest (h.enters hT.sound (enters_varDecl .field (some type) d)
      (keeps_varDecl _ _ d (notes_univ _)) false)

theorem staticField (f : StaticField) (hT : (Task.staticField type inner f).Ready a)
    (h : Fills s type a) : Fills s type ((Analyze.staticField type inner f).run a).2 := by
  have hvalue := (hT.calls _ List.mem_cons_self).ready
  have hresolve := (hT.calls _ (List.mem_cons_of_mem _ List.mem_cons_self)).ready
  have hdeclare := (hT.calls _ (List.mem_cons_of_mem _ (List.mem_cons_of_mem _
    (List.mem_singleton_self _)))).ready
  have hin : TypeAt s type { a with current := inner } := ⟨h.kind, h.form⟩
  have hoperand := Kept.of_quiet hvalue.sound hin (quiet_operand f.init)
    (keeps_operand f.init fun _ _ => notes_univ _)
  have hb := h.kept (b := ((inScope inner (operand f.init)).run a).2)
    ⟨hoperand.entries, hoperand.kind, hoperand.type⟩ rfl
  have hquiet := quiet_resolve f.decl.type
  have hc := hb.kept (.of_quiet hresolve.sound hb.toTypeAt hquiet (keeps_resolve f.decl.type))
    (hquiet _).current
  exact hc.enters hdeclare.sound
    (enters_declareInit f.decl.node .staticField (some type) f.decl.names _ _ f.init.span)
    (keeps_declareInit (notes_univ _) .staticField (some type) f.decl.names _ _ f.init.span) true

theorem staticFields : (fs : List StaticField) → {a : Analysis} →
    (Task.staticFields type inner fs).Ready a → Fills s type a →
      Fills s type ((Analyze.staticFields type inner fs).run a).2
  | [], _, _, h => h
  | f :: fs, a, hT, h => by
    have hrest := (hT.calls _ (List.mem_cons_of_mem _ (List.mem_singleton_self _))).ready
    exact staticFields fs hrest (staticField f (hT.calls _ List.mem_cons_self).ready h)

/-- A routine is declared in the scope, and listed on the type. -/
theorem addMember {isStatic : Bool} {name : String} {params : List TypeId}
    {result : Option TypeId} {x : Binding} {scopes : Scopes} (h : Fills s type a)
    (hd : Scopes.Declared a.scopes s (routineBinding (some ⟨type, isStatic⟩) name
      (a.types.addRoutineType params result).1) x scopes) :
    Fills s type ((Analyze.addMember (some ⟨type, isStatic⟩) ⟨name, params, result⟩).run
      { a with types := (a.types.addRoutineType params result).2, scopes }).2 := by
  have htype := TypeTable.get_update_self (t := (a.types.addRoutineType params result).2)
    ((TypeTable.extends_add a.types _).has h.hasType) fun d =>
      d.addRoutine isStatic ⟨name, params, result⟩
  rw [TypeTable.addRoutineType, TypeTable.get_add_old _ h.hasType] at htype
  have hstands : TypeDecl.Stands type x (.routine isStatic ⟨name, params, result⟩) := by
    rw [hd.binding_eq]
    exact ⟨rfl, rfl, rfl, fun _ _ h => nomatch h⟩
  refine ⟨⟨hd.head.kind.trans h.kind, ?_⟩, h.current, ?_⟩
  · refine (congrArg TypeDecl.form htype).trans (Eq.trans ?_ h.form)
    cases isStatic <;> rfl
  · refine (congrArg₂ (TypeDecl.Matches type) htype (hd.entries h.has)).mpr ?_
    exact h.members.addRoutine hstands

/-- A routine comes through the checks, and is on both sides. -/
theorem enterRoutine {isStatic : Bool} {r : RoutineDef} (params : List TypeId)
    (result : Option TypeId) (h : Fills s type a) (hfree : IsFree r.name.name a) :
    Fills s type ((Analysis.enterRoutine (some ⟨type, isStatic⟩) r params result).run a).2 := by
  obtain ⟨x, scopes, hdeclare, hrun⟩ := run_enterRoutine (some ⟨type, isStatic⟩) params result
    hfree
  obtain rfl := h.current
  have hmember := h.addMember (Scopes.declared_of_declare hdeclare)
  obtain ⟨hkept, hcurrent⟩ := hmember.kept_openRoutine r (some ⟨type, isStatic⟩)
    ⟨r.name.name, params, result⟩ x
  rw [hrun]
  exact hmember.kept hkept hcurrent

theorem declareRoutine {isStatic : Bool} (r : RoutineDef) (ha : Sound a) (h : Fills s type a) :
    Fills s type ((Analyze.declareRoutine (some ⟨type, isStatic⟩) r).run a).2 := by
  have hcheck := isCheck_checkRoutine (some ⟨type, isStatic⟩) r
  have hb := h.kept (.of_quiet ha h.toTypeAt hcheck.quiet (hcheck.keeps _)) (hcheck.quiet a).current
  cases hx : ((checkRoutine (some ⟨type, isStatic⟩) r).run a).1 with
  | none =>
    rw [run_declareRoutine_of_none hx]
    exact hb
  | some x =>
    rw [run_declareRoutine_of_some hx]
    exact hb.enterRoutine x.1 x.2 (isFree_of_checkRoutine _ r a x hx)

theorem declareMembers {isStatic : Bool} : (rs : List RoutineDef) → {a : Analysis} →
    (Task.declareMembers ⟨type, isStatic⟩ rs).Ready a → Fills s type a →
      Fills s type ((Analyze.declareMembers ⟨type, isStatic⟩ rs).run a).2
  | [], _, _, h => h
  | r :: rs, _, hT, h => by
    have hrest := (hT.calls _ (List.mem_cons_of_mem _ (List.mem_singleton_self _))).ready
    exact declareMembers rs hrest (h.declareRoutine r hT.sound)

end Fills

/-! ## The members of a type -/

/-- The members of a type have names of their own, each entry of its scope stands for one of
them, and a name means one of them at most. -/
structure RosterAt (s : ScopeId) (type : TypeId) (a : Analysis) : Prop extends
    TypeAt s type a where
  distinct : ((a.types.get type).members.map (·.name)).Nodup
  entered : ∃ bs, (a.scopes.get s).entries.Perm bs ∧
    List.Forall₂ (TypeDecl.Stands type) bs (a.types.get type).members
  unique : ∀ name m m', a.types.Finds type name m → a.types.Finds type name m' → m = m'

theorem RosterAt.of_entered (h : TypeAt s type a)
    (distinct : ((a.types.get type).members.map (·.name)).Nodup)
    (entered : ∃ bs, (a.scopes.get s).entries.Perm bs ∧
      List.Forall₂ (TypeDecl.Stands type) bs (a.types.get type).members) : RosterAt s type a := by
  refine ⟨h, distinct, entered, fun name m m' hm hm' => ?_⟩
  obtain ⟨hmem, hname⟩ := hm.mem
  obtain ⟨hmem', hname'⟩ := hm'.mem
  exact List.inj_on_of_nodup_map distinct hmem hmem' (hname.trans hname'.symm)

/-- What is on both sides agrees. -/
theorem Fills.roster (h : Fills s type a) (ha : Sound a) : RosterAt s type a := by
  obtain ⟨bs, hperm, hstands⟩ := h.members.exists_stands (ha.types.fields type)
  refine .of_entered h.toTypeAt ?_ ⟨bs, hperm, hstands⟩
  rw [← TypeDecl.names_of_stands hstands]
  exact (hperm.map (·.name)).nodup (ha.siblings.once s)

/-- The members of a type that lasts. -/
theorem RosterAt.kept (h : RosterAt s type a) (hk : Kept s type a b) : RosterAt s type b := by
  refine .of_entered (hk.typeAt h.toTypeAt) ?_ ?_
  · rw [hk.type]
    exact h.distinct
  · rw [hk.type, hk.entries]
    exact h.entered

/-! ## Opening a type -/

/-- A type is opened without members. -/
theorem members_openType {name : Ident} {f : TypeFinding}
    (hf : ((openType name).run a).1 = some f) (isStatic : Bool) :
    (((openType name).run a).2.types.get f.type).fieldsOf isStatic = [] ∧
      (((openType name).run a).2.types.get f.type).routinesOf isStatic = [] := by
  obtain ⟨scopes, -, hrun⟩ := run_openType (not_refused_of_opened hf)
  rw [hrun] at hf ⊢
  obtain rfl := Option.some.inj hf
  have htype := TypeTable.get_update_self
    (TypeTable.has_add_new a.types { name := name.name, form := .user }) fun d =>
      { d with path := some ((a.units.plan (scopes.get a.current).unit name.name .type
        (some ⟨a.types.size⟩)).2.path ⟨a.units.size⟩) }
  rw [TypeTable.get_add_new] at htype
  constructor
  · refine (congrArg (TypeDecl.fieldsOf · isStatic) htype).trans ?_
    cases isStatic <;> rfl
  · refine (congrArg (TypeDecl.routinesOf · isStatic) htype).trans ?_
    cases isStatic <;> rfl

/-- Nothing is declared in the scope of a type that was just opened. -/
theorem OpensType.fills {d : TypeDef} {f : TypeFinding} (h : OpensType program q d a f) :
    Fills f.scope f.type { ((openType d.name).run a).2 with current := f.scope } := by
  have hT : (Task.typeDef d).Ready a := h.reached.comes.ready
  have hin : InType f.fieldInit f.type { ((openType d.name).run a).2 with current := f.scope } :=
    (hT.calls _ h.mem_calls).ready.given.1
  have hhosts := hin.hosts false
  have hx := openType_spec d.name (InBody.since hT.given hT.sound) (Place.at_since hT.sound)
  obtain ⟨hnew, -⟩ := hx.opened f h.opened
  refine ⟨⟨hhosts.1, hhosts.2.2⟩, rfl, ?_⟩
  have hentries := keepsEntries_openType d.name a f.scope
  rw [Scopes.get_of_not_has hnew] at hentries
  refine (congrArg (TypeDecl.Matches _ _) hentries).mpr ?_
  exact .empty (fun isStatic => (members_openType h.opened isStatic).1)
    fun isStatic => (members_openType h.opened isStatic).2

/-! ## From the first body on -/

/-- The call that goes through the bodies of the routines of a type, those of instances
first.  It comes when all members of the type have been declared. -/
def firstBodies (d : TypeDef) (f : TypeFinding) (a : Analysis) : Call :=
  let opened : Analysis := { ((openType d.name).run a).2 with current := f.scope }
  let fields := ((instanceFields f.type d.fields).run opened).2
  let statics := ((staticFields f.type f.fieldInit d.staticFields).run fields).2
  let routines := (declareMembers ⟨f.type, false⟩ d.routines).run statics
  let all := (declareMembers ⟨f.type, true⟩ d.staticRoutines).run routines.2
  (.routineBodies routines.1 d.routines, all.2)

/-- The first bodies are come to, and all members are declared by then. -/
theorem OpensType.completes {d : TypeDef} {f : TypeFinding} (h : OpensType program q d a f) :
    Reached program q (firstBodies d f a).1 (firstBodies d f a).2 ∧
      Fills f.scope f.type (firstBodies d f a).2 := by
  have hopened := h.fills
  have hmembers := h.reached.call h.mem_calls
  rw [firstBodies]
  generalize ({ ((openType d.name).run a).2 with current := f.scope } : Analysis) = b at *
  have hfields := hmembers.call List.mem_cons_self
  have hstatics := hmembers.call (List.mem_cons_of_mem _ List.mem_cons_self)
  have hroutines := hmembers.call (List.mem_cons_of_mem _ (List.mem_cons_of_mem _
    (List.mem_singleton_self _)))
  have hdata := Fills.staticFields _ hstatics.comes.ready
    (Fills.instanceFields _ hfields.comes.ready hopened)
  obtain ⟨hown, hstatic, hbodies, -⟩ := hroutines.routines
  exact ⟨hbodies, Fills.declareMembers _ hstatic.comes.ready
    (Fills.declareMembers _ hown.comes.ready hdata)⟩

/-- From a call on, the members of a type are as they are there. -/
structure RosterFrom (program : String) (q : Program) (s : ScopeId) (type : TypeId) (c : Call) :
    Prop where
  reached : Reached program q c.1 c.2
  later : ∀ x, Later program q c x → RosterAt s type x.2 ∧ Kept s type c.2 x.2
  final : RosterAt s type (analyze program q) ∧ Kept s type c.2 (analyze program q)

/-- The members of a type are complete and last when its bodies are analysed. -/
theorem OpensType.roster {d : TypeDef} {f : TypeFinding} (h : OpensType program q d a f) :
    RosterFrom program q f.scope f.type (firstBodies d f a) := by
  obtain ⟨hfirst, hfills⟩ := h.completes
  have hbody : (firstBodies d f a).1.HasBody := trivial
  have haside : Aside f.scope f.type (firstBodies d f a) :=
    .passive hfirst.comes.ready trivial hfills.toTypeAt
  have hroster := hfills.roster hfirst.sound
  have hend := hfirst.kept_end hbody haside hfills.toTypeAt
  refine ⟨hfirst, fun x hx => ?_, hroster.kept hend, hend⟩
  have hkept := hx.kept hbody haside hfills.toTypeAt
  exact ⟨hroster.kept hkept, hkept⟩

/-- Every user type was opened by a definition, and when the first of its bodies is analysed,
it has all of its members: their names differ, the entries of the scope of the type stand
for them one by one, and a name means one of them at most.  Whatever is analysed from then
on finds the same members and the same entries, and so it is at the end. -/
theorem roster_final (program : String) (q : Program) {type : TypeId}
    (h : (analyze program q).types.form type = .user) :
    (∃ d a f, OpensType program q d a f ∧ f.type = type) ∧
    ∀ d a f, OpensType program q d a f → f.type = type →
      RosterFrom program q f.scope type (firstBodies d f a) := by
  refine ⟨exists_opens program q h, fun d a f hopens htype => ?_⟩
  subst htype
  exact hopens.roster

/-- A type with names that are taken: `n` twice, and `get` for a static routine as well.

```
type Tally
  integer n, n
  static integer total = 1
  routine get() returns integer
    return n
  end get
  static routine get()
  end get
  static routine reset()
  end reset
end Tally
```
-/
def tally : Program := (Draft.build [
  .type ⟨none, "Tally", [⟨none, .of "integer", ["n", "n"]⟩],
    [⟨none, .of "integer", ["total"], .int 1⟩],
    [⟨none, "get", [], some (.of "integer"), [], some (.chain (.of ["n"])), none⟩],
    [⟨none, "get", [], none, [], none, none⟩, ⟨none, "reset", [], none, [], none, none⟩],
    none⟩]).1

/-- What is refused is no member of `tally`. -/
theorem roster_final_tally : (analyze "demo" tally).types.form ⟨6⟩ = .user ∧
    ((analyze "demo" tally).types.get ⟨6⟩).members.map (·.name) =
      ["n", "total", "get", "reset"] ∧
    ∃ d a f, OpensType "demo" tally d a f ∧
      RosterFrom "demo" tally f.scope ⟨6⟩ (firstBodies d f a) := by
  have huser : (analyze "demo" tally).types.form ⟨6⟩ = .user := by decide +kernel
  obtain ⟨⟨d, a, f, hopens, htype⟩, hall⟩ := roster_final "demo" tally huser
  exact ⟨huser, by decide +kernel, d, a, f, hopens, hall d a f hopens htype⟩

end Analysis

end Unnest
