import Unnest.Proofs.Analysis.Handed
import Unnest.Proofs.Analysis.Roster

/-!
# Fields are of types that come before

A type may be named as soon as it is opened, but not before.  While its fields are declared
it is the newest type of the program, so that every user type among the types of its fields
is the type itself or an older one (`OpensType.precedes`).

What has a type is settled by then, too: the table of types only grows, up to the end of the
analysis (`Reached.extends_end`), and no type becomes a user type later on.  Together with
the members, which last, this orders the types of the whole program by their fields
(`fields_precede`).
-/

namespace Unnest.Analysis

open Analyze

variable {program : String} {q : Program} {T : Task} {a : Analysis} {d : TypeDef}
  {f : TypeFinding}

/-! ## Types stay -/

/-- A part that is ready only adds to the state. -/
theorem Task.Ready.grows (h : T.Ready a) (hT : T.IsPart) : Grows a (Call.after (T, a)) := by
  obtain ⟨ha, h⟩ := h
  cases T with
  | stmt x => exact ((analysed_stmt x).outcome ha h).walk.grows
  | stmts xs => exact ((analysed_stmts xs).outcome ha h).walk.grows
  | guarded g => exact ((analysed_guarded g).outcome ha h).walk.grows
  | guardedAll gs => exact ((analysed_guardedAll gs).outcome ha h).walk.grows
  | elseBlock e => exact ((analysed_else e).outcome ha h).walk.grows
  | typeDef t => exact ((analysed_stmt (.type t)).outcome ha h).walk.grows
  | routineBody d r => exact (bodyAnalysed ha h.toEntry (analysed_stmts r.body)).outcome.walk.grows
  | routineBodies ds rs =>
    exact (bodiesAnalysed rs ha h.toEntries (analysed_bodies rs)).outcome.walk.grows
  | memberRoutines type rs rs' =>
    obtain ⟨inner, h⟩ := h
    exact (outcome_memberRoutines (h.at_type ha) (analysed_bodies rs)
      (analysed_bodies rs')).walk.grows
  | members f fields statics rs rs' =>
    obtain ⟨h, -, hscope, -⟩ := h
    exact (outcome_members (hscope ▸ h.at_type ha) (analysed_bodies rs)
      (analysed_bodies rs')).walk.grows
  | declareRoutine member r =>
    have hhosts : Hosts a.current member a := h
    exact (declareRoutine_spec r (hhosts.since ha) (Place.at_since ha)).steps.grows
  | declareMembers member rs =>
    have hhosts : Hosts a.current (some member) a := h
    exact (declareMembers_spec (hhosts.since ha) rs (Place.at_since ha)).steps.grows
  | _ => exact absurd hT id

/-- Types stay, whatever is done. -/
theorem Task.Ready.extends_after (h : T.Ready a) :
    a.types.Extends (Call.after (T, a)).types := by
  by_cases hT : T.IsPart
  · exact (h.grows hT).types
  · cases T with
    | checkReturn r result => exact (quiet_checkReturn r result a).types.toExtends
    | captureSources s => exact (quiet_captureSources s a).types.toExtends
    | stmt | stmts | guarded | guardedAll | elseBlock | typeDef | routineBody | routineBodies
    | memberRoutines | members | declareRoutine | declareMembers => exact absurd trivial hT
    | _ => exact .refl a.types

/-- When the members of a type are declared, no user type is newer. -/
theorem OpensType.newest (h : OpensType program q d a f) {id : TypeId}
    (hid : (firstBodies d f a).2.types.form id = .user) : id.index ≤ f.type.index := by
  obtain ⟨hindex, -, husers⟩ := users_openType h.opened
  have hopened : ((openType d.name).run a).2.types.form id = .user :=
    ((((addsNoUser_instanceFields f.type d.fields).bind fun _ =>
      addsNoUser_staticFields f.type f.fieldInit d.staticFields).bind fun _ =>
        addsNoUser_declareMembers ⟨f.type, false⟩ d.routines).bind fun _ =>
          addsNoUser_declareMembers ⟨f.type, true⟩ d.staticRoutines)
      { ((openType d.name).run a).2 with current := f.scope } id hid
  rcases husers id hopened with hold | rfl
  · exact hindex ▸ (TypeTable.has_of_user hold).le
  · exact le_rfl

end Unnest.Analysis
