import Mathlib.Logic.Relation
import Unnest.Proofs.Analysis.Spared

/-!
# What comes after a call

The calls of an analysis form a tree, and the tree is walked through in order: a call comes
after another if it is made on behalf of that one, or on behalf of one that stands behind it
in the list of calls of some task (`Later`).

Statements and definitions are analysed for what they do to the state, which can be told
from the call alone (`Call.after`).  Nothing inside an expression or a written type makes a
call of one (`Task.noParts_calls`).  Once such a call is done, all that is left to do of the
task that made it are the calls behind it, and in between no table changes
(`Task.Ready.goesOn`).  From call to call this leads up to the end of the program
(`climb`).
-/

namespace Unnest.Analysis

open Analyze Relation

variable {program : String} {q : Program} {T : Task} {a b : Analysis} {c x y d : Call}
  {ys : List Call}

/-! ## Parts -/

namespace Task

/-- What a task does to the state, where its result is of no use. -/
def part : Task → Analyze Unit
  | stmt x => Analyze.stmt x
  | stmts xs => Analyze.stmts xs
  | guarded g => Analyze.guarded g
  | guardedAll gs => Analyze.guardedAll gs
  | elseBlock e => Analyze.elseBlock e
  | routineBody d r => Analyze.routineBody d r
  | routineBodies ds rs => Analyze.routineBodies ds rs
  | memberRoutines type rs rs' => Analysis.memberRoutines type rs rs'
  | members f fields statics rs rs' => Analysis.members f fields statics rs rs'
  | typeDef d => Analyze.typeDef d
  | declareRoutine member r => discard (Analyze.declareRoutine member r)
  | declareMembers member rs => discard (Analyze.declareMembers member rs)
  | checkReturn r result => Analyze.checkReturn r result
  | captureSources s => discard (Analyze.captureSources s)
  | name _ | resolve _ | resolveAll _ | resolveResult _ | expr _ | arguments _ | chain _
  | headLink _ _ | memberLink _ _ | memberLinks _ _ | declareNames _ _ _ _ | varDecl _ _ _
  | declareInit _ _ _ _ _ _ _ | initDecl _ | staticField _ _ _ | staticFields _ _ _
  | instanceFields _ _ | openType _ | sourcesOf _ | assign _ | checkCondition _ => pure ()

/-- A task that statements, routines or types are analysed by. -/
def IsPart : Task → Prop
  | stmt _ | stmts _ | guarded _ | guardedAll _ | elseBlock _ | routineBody _ _
  | routineBodies _ _ | memberRoutines _ _ _ | members _ _ _ _ _ | typeDef _
  | declareRoutine _ _ | declareMembers _ _ => True
  | name _ | resolve _ | resolveAll _ | resolveResult _ | expr _ | arguments _ | chain _
  | headLink _ _ | memberLink _ _ | memberLinks _ _ | declareNames _ _ _ _ | varDecl _ _ _
  | declareInit _ _ _ _ _ _ _ | initDecl _ | staticField _ _ _ | staticFields _ _ _
  | instanceFields _ _ | openType _ | sourcesOf _ | captureSources _ | assign _
  | checkCondition _ | checkReturn _ _ => False

/-- A part that does not declare a routine and leave its body for later. -/
def HasBody : Task → Prop
  | declareRoutine _ _ | declareMembers _ _ => False
  | T => T.IsPart

end Task

/-- The state behind a call. -/
def Call.after (c : Call) : Analysis := (c.1.part.run c.2).2

namespace Task

/-- No call of a list is a part. -/
def NoParts (cs : List Call) : Prop := ∀ x ∈ cs, ¬ x.1.IsPart

theorem noParts_andThen {α : Type} {x : Option α × Analysis} {call : α → Analysis → List Call}
    (h : ∀ y b, NoParts (call y b)) : NoParts (andThen x call) :=
  forall_mem_andThen fun y _ => h y x.2

theorem noParts_nil : NoParts [] := List.forall_mem_nil _

theorem noParts_cons {cs : List Call} (hx : ¬ x.1.IsPart) (hcs : NoParts cs) :
    NoParts (x :: cs) :=
  List.forall_mem_cons.mpr ⟨hx, hcs⟩

theorem noParts_only (hx : ¬ x.1.IsPart) : NoParts [x] := noParts_cons hx noParts_nil

theorem noParts_headArguments (n : String) (args : List Expr) :
    NoParts (headArguments n args a) := by
  rw [headArguments]
  split
  · exact noParts_only id
  · exact noParts_nil
  · split
    · exact noParts_only id
    · exact noParts_nil

theorem noParts_routineName (member : Option Membership) (r : RoutineDef)
    (params : Option (List TypeId)) (result : Option (Option TypeId)) :
    NoParts (routineName member r params result a) := by
  cases params with
  | none => exact noParts_nil
  | some params =>
    cases result with
    | none => exact noParts_nil
    | some result =>
      rw [routineName]
      split
      · exact noParts_only id
      · exact noParts_nil

/-- Only statements and bodies have statements and bodies inside. -/
theorem noParts_calls (hT : ¬ T.IsPart) : NoParts (T.calls a) := by
  unfold calls
  split
  all_goals first
    | exact absurd trivial hT
    | exact noParts_nil
    | exact noParts_only id
    | exact noParts_cons id (noParts_only id)
    | exact noParts_cons id (noParts_cons id (noParts_only id))
    | exact noParts_cons id (noParts_andThen fun _ _ => noParts_only id)
    | exact noParts_andThen fun _ _ => noParts_only id
    | exact noParts_cons id (noParts_headArguments _ _)
    | exact noParts_cons id (noParts_cons id (noParts_routineName _ _ _ _))
    | skip
  -- A later link that is called, and a return clause that is there.
  · split
    · exact noParts_only id
    · exact noParts_nil
  · split
    · exact noParts_only id
    · exact noParts_nil

end Task

/-! ## What is left to do -/

/-- Nothing changes but the scope that the walk is in, the errors, and findings that are
completed. -/
structure Rests (a b : Analysis) : Prop where
  scopes : b.scopes = a.scopes
  types : b.types = a.types
  recorded : ∀ k, a.findings.Defines k → b.findings.Defines k

theorem Rests.refl (a : Analysis) : Rests a a := ⟨rfl, rfl, fun _ h => h⟩

theorem Rests.trans {c : Analysis} (h : Rests a b) (h' : Rests b c) : Rests a c :=
  ⟨h'.scopes.trans h.scopes, h'.types.trans h.types, fun k hk => h'.recorded k (h.recorded k hk)⟩

theorem rests_enter (a : Analysis) (s : ScopeId) : Rests a { a with current := s } :=
  ⟨rfl, rfl, fun _ h => h⟩

theorem rests_checkClosing (fault : String → String → Fault) (name closing : Ident)
    (a : Analysis) : Rests a ((checkClosing fault name closing).run a).2 := by
  rw [checkClosing]
  split <;> exact ⟨rfl, rfl, fun _ h => h⟩

/-- Findings are completed. -/
theorem rests_record {k : Key} {f : Findings → Findings} (hf : ∀ x : Findings, x.Writes k (f x))
    (a : Analysis) : Rests a ((record f).run a).2 :=
  ⟨rfl, rfl, fun _ h => (hf a.findings).defines h⟩

/-- From one state to another there are these calls, one after the other. -/
inductive Threads : Analysis → List Call → Analysis → Prop
  | done {a b : Analysis} (h : Rests a b) : Threads a [] b
  | call {a b : Analysis} {y : Call} {ys : List Call} (h : Rests a y.2)
      (hys : Threads y.after ys b) : Threads a (y :: ys) b

namespace Threads

/-- One more call, and the end. -/
theorem one (h : Rests a y.2) (hb : Rests y.after b) : Threads a [y] b := .call h (.done hb)

/-- What every call in between does, is done between the ends. -/
theorem induct {R : Analysis → Analysis → Prop} (trans : ∀ {a b c}, R a b → R b c → R a c)
    (rests : ∀ {a b}, Rests a b → R a b) (h : Threads a ys b)
    (hys : ∀ y ∈ ys, R a y.2 → R y.2 y.after) : R a b ∧ ∀ y ∈ ys, R a y.2 := by
  induction h with
  | done h => exact ⟨rests h, List.forall_mem_nil _⟩
  | @call a b y ys h _ ih =>
    rw [List.forall_mem_cons] at hys
    have hy := rests h
    have hafter := trans hy (hys.1 hy)
    obtain ⟨hb, hrest⟩ := ih fun z hz hr => hys.2 z hz (trans hafter hr)
    exact ⟨trans hafter hb, List.forall_mem_cons.mpr ⟨hy, fun z hz => trans hafter (hrest z hz)⟩⟩

end Threads

namespace Task

/-- A task that declares nothing itself. -/
def Passive : Task → Prop
  | routineBody _ _ | routineBodies _ _ | captureSources _ | sourcesOf _ | name _ => True
  | resolve _ | resolveAll _ | resolveResult _ | expr _ | arguments _ | chain _
  | headLink _ _ | memberLink _ _ | memberLinks _ _ | declareNames _ _ _ _ | varDecl _ _ _
  | declareInit _ _ _ _ _ _ _ | initDecl _ | staticField _ _ _ | staticFields _ _ _
  | instanceFields _ _ | declareRoutine _ _ | declareMembers _ _ | openType _
  | assign _ | checkCondition _ | checkReturn _ _ | stmt _ | stmts _ | guarded _ | guardedAll _
  | elseBlock _ | memberRoutines _ _ _ | members _ _ _ _ _ | typeDef _ => False

/-- A part keeps what its horizon does not own. -/
theorem Within.keeps {h : Horizon} (hT : T.Within h) : Keeps h Set.univ T.part := by
  cases T with
  | stmt x => exact keeps_stmt x fun _ _ => annotates_univ _
  | stmts xs => exact keeps_stmts xs fun _ _ => annotates_univ _
  | guarded g => exact keeps_guarded g fun _ _ => annotates_univ _
  | guardedAll gs => exact keeps_guardedAll gs fun _ _ => annotates_univ _
  | elseBlock e => exact keeps_elseBlock e fun _ _ => annotates_univ _
  | routineBody d r => exact keeps_routineBody hT r fun _ _ => annotates_univ _
  | routineBodies ds rs => exact keeps_routineBodies ds rs hT fun _ _ => annotates_univ _
  | memberRoutines type rs rs' => exact keeps_memberRoutines rs rs' hT
  | members f fields statics rs rs' => exact keeps_members fields statics rs rs' hT
  | typeDef t => exact keeps_typeDef t fun _ _ => annotates_univ _
  | declareRoutine member r => exact (stays_declareRoutine hT (Set.mem_univ _)).discard
  | declareMembers member rs => exact (stays_declareMembers hT rs fun _ _ => Set.mem_univ _).discard
  | checkReturn r result => exact keeps_checkReturn r result fun _ _ => notes_univ _
  | captureSources s => exact (keeps_captureSources s).discard
  | _ => exact .done

/-- A call that may stand behind a part: it declares nothing itself, or it stands in a
body. -/
def Follows (y : Call) : Prop := y.1.Passive ∨ InBody y.2 ∧ ∀ h, y.1.Within h

/-- What is left to do for a task once it is done with a part. -/
structure GoesOn (T : Task) (a : Analysis) (x : Call) (ys : List Call) : Prop where
  isPart : T.IsPart
  hasBody : x.1.HasBody → T.HasBody
  threads : Threads x.after ys (Call.after (T, a))
  follows : x.1.HasBody → ∀ y ∈ ys, Follows y

/-- Every part in a list of calls has something to do with the calls behind it. -/
def EachPart (P : Call → List Call → Prop) : List Call → Prop
  | [] => True
  | x :: ys => (x.1.IsPart → P x ys) ∧ EachPart P ys

variable {P : Call → List Call → Prop}

theorem EachPart.split {xs l : List Call} (h : EachPart P l) (hl : l = xs ++ x :: ys)
    (hx : x.1.IsPart) : P x ys := by
  induction xs generalizing l with
  | nil =>
    subst hl
    exact h.1 hx
  | cons z xs ih =>
    subst hl
    exact ih h.2 rfl

theorem eachPart_of_noParts {l : List Call} (h : NoParts l) : EachPart P l := by
  induction l with
  | nil => trivial
  | cons x l ih =>
    rw [NoParts, List.forall_mem_cons] at h
    exact ⟨fun hx => absurd hx h.1, ih h.2⟩

/-- A part at the end of a list. -/
theorem eachPart_last (h : P x []) : EachPart P [x] := ⟨fun _ => h, trivial⟩

/-- A part behind another call. -/
theorem eachPart_cons {l : List Call} (hx : x.1.IsPart → P x l) (hl : EachPart P l) :
    EachPart P (x :: l) := ⟨hx, hl⟩

theorem eachPart_andThen {α : Type} {o : Option α × Analysis}
    {call : α → Analysis → List Call} (h : ∀ r, o.1 = some r → EachPart P (call r o.2)) :
    EachPart P (andThen o call) := by
  obtain ⟨r, b⟩ := o
  cases r with
  | none => trivial
  | some r => exact h r rfl

/-- A call that only happens when the part before it comes to something. -/
theorem threads_andThen {α : Type} {o : Option α × Analysis} {call : α → Analysis → List Call}
    {c : Analysis} (hnone : o.1 = none → Rests b c)
    (hsome : ∀ r, o.1 = some r → Threads b (call r o.2) c) : Threads b (andThen o call) c := by
  obtain ⟨r, e⟩ := o
  cases r with
  | none => exact .done (hnone rfl)
  | some r => exact hsome r rfl

theorem HasBody.isPart (hT : T.HasBody) : T.IsPart := by
  cases T <;> first | exact hT | exact absurd hT id

/-- The task is done when a part is. -/
theorem goesOn_last (hT : T.HasBody) (h : Rests x.after (Call.after (T, a))) : GoesOn T a x [] :=
  ⟨hT.isPart, fun _ => hT, .done h, fun _ => List.forall_mem_nil _⟩

/-- A part is followed by statements, and then the task is done. -/
theorem goesOn_body (hT : T.HasBody) (hx : Rests x.after y.2)
    (hy : Rests y.after (Call.after (T, a))) (hbody : InBody y.2) (hw : ∀ h, y.1.Within h) :
    GoesOn T a x [y] :=
  ⟨hT.isPart, fun _ => hT, .one hx hy, fun _ => List.forall_mem_singleton.mpr (.inr ⟨hbody, hw⟩)⟩

/-- A part is followed by a call that declares nothing, and then the task is done. -/
theorem goesOn_passive (hT : T.HasBody) (hx : Rests x.after y.2)
    (hy : Rests y.after (Call.after (T, a))) (hp : y.1.Passive) : GoesOn T a x [y] :=
  ⟨hT.isPart, fun _ => hT, .one hx hy, fun _ => List.forall_mem_singleton.mpr (.inl hp)⟩

/-- A routine is declared in front of other calls. -/
theorem goesOn_declares (hT : T.IsPart) (hx : ¬ x.1.HasBody)
    (h : Threads x.after ys (Call.after (T, a))) : GoesOn T a x ys :=
  ⟨hT, fun hbody => absurd hbody hx, h, fun hbody => absurd hbody hx⟩

theorem run_routine_of_some {r : RoutineDef} {d : DeclaredRoutine}
    (h : ((Analyze.declareRoutine none r).run a).1 = some d) : (Analyze.stmt (.routine r)).run a =
      (Analyze.routineBody d r).run ((Analyze.declareRoutine none r).run a).2 := by
  rw [run_routine]
  generalize (Analyze.declareRoutine none r).run a = o at h
  obtain ⟨e, b⟩ := o
  obtain rfl := h
  rfl

theorem run_routine_of_none {r : RoutineDef}
    (h : ((Analyze.declareRoutine none r).run a).1 = none) : (Analyze.stmt (.routine r)).run a =
      ((), ((Analyze.declareRoutine none r).run a).2) := by
  rw [run_routine]
  generalize (Analyze.declareRoutine none r).run a = o at h
  obtain ⟨e, b⟩ := o
  obtain rfl := h
  rfl

theorem run_typeDef_of_some {t : TypeDef} {f : TypeFinding}
    (h : ((Analyze.openType t.name).run a).1 = some f) : (Analyze.typeDef t).run a =
      (finishType t f).run
        { ((Analysis.members f t.fields t.staticFields t.routines t.staticRoutines).run
          { ((Analyze.openType t.name).run a).2 with current := f.scope }).2 with
            current := ((Analyze.openType t.name).run a).2.current } := by
  rw [run_typeDef]
  generalize (Analyze.openType t.name).run a = o at h
  obtain ⟨g, b⟩ := o
  obtain rfl := h
  rfl

theorem goesOn_stmt {s : Stmt} (ha : Sound a) (hbody : InBody a) :
    EachPart (GoesOn (stmt s) a) ((stmt s).calls a) := by
  cases s with
  | declare | define | assign | call => exact eachPart_of_noParts (noParts_only id)
  | branch gs otherwise =>
    have hwalk := ((analysed_guardedAll gs).outcome ha hbody).walk
    refine eachPart_cons (fun _ => goesOn_body trivial (.refl _) ?_ (hbody.walk ha hwalk)
      fun _ => trivial) (eachPart_last (goesOn_last trivial ?_))
    all_goals exact .refl _
  | loop g => exact eachPart_last (goesOn_last trivial (.refl _))
  | type d => exact eachPart_last (goesOn_last trivial (.refl _))
  | routine r =>
    have hend : ∀ d, ((Analyze.declareRoutine none r).run a).1 = some d →
        Rests (Call.after (routineBody d r, ((Analyze.declareRoutine none r).run a).2))
          (Call.after (stmt (.routine r), a)) := fun d hd => by
      rw [Call.after, Call.after, part, part, run_routine_of_some hd]
      exact .refl _
    refine eachPart_cons (fun _ => goesOn_declares trivial id (threads_andThen (fun hnone => ?_)
      fun d hd => .one (.refl _) (hend d hd)))
      (eachPart_andThen fun d hd => eachPart_last (goesOn_last trivial (hend d hd)))
    rw [Call.after, Call.after, part, part, run_routine_of_none hnone]
    exact .refl _

theorem goesOn_stmts {xs : List Stmt} (ha : Sound a) (hbody : InBody a) :
    EachPart (GoesOn (stmts xs) a) ((stmts xs).calls a) := by
  cases xs with
  | nil => trivial
  | cons s xs =>
    have hwalk := ((analysed_stmt s).outcome ha hbody).walk
    exact eachPart_cons (fun _ => goesOn_body trivial (.refl _) (.refl _) (hbody.walk ha hwalk)
      fun _ => trivial) (eachPart_last (goesOn_last trivial (.refl _)))

theorem goesOn_guarded {g : Guarded} : EachPart (GoesOn (guarded g) a) ((guarded g).calls a) := by
  obtain ⟨node, condition, body, _⟩ := g
  exact eachPart_cons (fun h => absurd h id) (eachPart_last (goesOn_last trivial (rests_enter ..)))

theorem goesOn_guardedAll {gs : List Guarded} (ha : Sound a) (hbody : InBody a) :
    EachPart (GoesOn (guardedAll gs) a) ((guardedAll gs).calls a) := by
  cases gs with
  | nil => trivial
  | cons g gs =>
    have hwalk := ((analysed_guarded g).outcome ha hbody).walk
    exact eachPart_cons (fun _ => goesOn_body trivial (.refl _) (.refl _) (hbody.walk ha hwalk)
      fun _ => trivial) (eachPart_last (goesOn_last trivial (.refl _)))

theorem goesOn_elseBlock {e : Else} :
    EachPart (GoesOn (elseBlock e) a) ((elseBlock e).calls a) := by
  cases e with
  | absent => trivial
  | block => exact eachPart_last (goesOn_last trivial (rests_enter ..))

/-- What is left of a routine when its captures are known. -/
theorem rests_finishRoutine (r : RoutineDef) (s : ScopeId) (a : Analysis) :
    Rests ((discard (Analyze.captureSources s)).run a).2 ((finishRoutine r s).run a).2 :=
  (rests_record (fun _ => .captures r.node ((Analyze.captureSources s).run a).1) _).trans
    (rests_checkClosing ..)

/-- What is left of a type when its captures are known. -/
theorem rests_finishType (t : TypeDef) (f : TypeFinding) (a : Analysis) :
    Rests ((discard (Analyze.captureSources f.scope)).run a).2 ((finishType t f).run a).2 :=
  (rests_record (fun _ => .type t.node _) _).trans (rests_checkClosing ..)

theorem goesOn_routineBody {d : DeclaredRoutine} {r : RoutineDef} (ha : Sound a)
    (h : Waits a r d) : EachPart (GoesOn (routineBody d r) a) ((routineBody d r).calls a) := by
  have hin := h.enterable.sound ha
  have hwalk := ((analysed_stmts r.body).outcome hin h.inBody).walk
  refine eachPart_cons (fun _ => ⟨trivial, fun _ => trivial, .call (.refl _)
    (.one (rests_enter ..) ?_), fun _ => List.forall_mem_cons.mpr
      ⟨.inr ⟨h.inBody.walk hin hwalk, fun _ => trivial⟩,
        List.forall_mem_singleton.mpr (.inl trivial)⟩⟩) (eachPart_of_noParts
        (noParts_cons id (noParts_only id)))
  rw [Call.after, Call.after, part, part, run_routineBody]
  exact rests_finishRoutine ..

theorem goesOn_routineBodies {ds : List (Option DeclaredRoutine)} {rs : List RoutineDef} :
    EachPart (GoesOn (routineBodies ds rs) a) ((routineBodies ds rs).calls a) := by
  cases ds with
  | nil => trivial
  | cons d ds =>
    cases rs with
    | nil => cases d <;> trivial
    | cons r rs =>
      cases d with
      | none => exact eachPart_last (goesOn_last trivial (.refl _))
      | some d =>
        exact eachPart_cons (fun _ => goesOn_passive trivial (.refl _) (.refl _) trivial)
          (eachPart_last (goesOn_last trivial (.refl _)))

theorem goesOn_memberRoutines {type : TypeId} {rs rs' : List RoutineDef} :
    EachPart (GoesOn (memberRoutines type rs rs') a) ((memberRoutines type rs rs').calls a) :=
  eachPart_cons (fun _ => goesOn_declares trivial id (.call (.refl _) (.call (.refl _)
      (.one (.refl _) (.refl _)))))
    (eachPart_cons (fun _ => goesOn_declares trivial id
        (.call (.refl _) (.one (.refl _) (.refl _))))
      (eachPart_cons (fun _ => goesOn_passive trivial (.refl _) (.refl _) trivial)
        (eachPart_last (goesOn_last trivial (.refl _)))))

theorem goesOn_declareMembers {member : Membership} {rs : List RoutineDef} :
    EachPart (GoesOn (declareMembers member rs) a) ((declareMembers member rs).calls a) := by
  cases rs with
  | nil => trivial
  | cons r rs =>
    exact eachPart_cons (fun _ => goesOn_declares trivial id (.one (.refl _) (.refl _)))
      (eachPart_last (goesOn_declares trivial id (.done (.refl _))))

theorem goesOn_members {f : TypeFinding} {fields : List VarDecl} {statics : List StaticField}
    {rs rs' : List RoutineDef} : EachPart (GoesOn (members f fields statics rs rs') a)
      ((members f fields statics rs rs').calls a) :=
  eachPart_cons (fun h => absurd h id) (eachPart_cons (fun h => absurd h id)
    (eachPart_last (goesOn_last trivial (.refl _))))

theorem goesOn_typeDef {t : TypeDef} : EachPart (GoesOn (typeDef t) a) ((typeDef t).calls a) := by
  refine eachPart_cons (fun h => absurd h id) (eachPart_andThen fun f hf =>
    eachPart_cons (fun _ => goesOn_passive trivial (rests_enter ..) ?_ trivial)
      (eachPart_of_noParts (noParts_only id)))
  rw [Call.after, Call.after, part, part, run_typeDef_of_some hf]
  exact rests_finishType ..

/-- Once a task is done with a part, the calls behind that part are all that is left. -/
theorem Ready.goesOn (h : T.Ready a) : EachPart (GoesOn T a) (T.calls a) := by
  obtain ⟨ha, h⟩ := h
  cases T with
  | stmt => exact goesOn_stmt ha h
  | stmts => exact goesOn_stmts ha h
  | guarded => exact goesOn_guarded
  | guardedAll => exact goesOn_guardedAll ha h
  | elseBlock => exact goesOn_elseBlock
  | routineBody => exact goesOn_routineBody ha h
  | routineBodies => exact goesOn_routineBodies
  | memberRoutines => exact goesOn_memberRoutines
  | members => exact goesOn_members
  | typeDef => exact goesOn_typeDef
  | declareRoutine member r =>
    exact eachPart_of_noParts (noParts_cons id (noParts_cons id (noParts_routineName _ _ _ _)))
  | declareMembers => exact goesOn_declareMembers
  | _ => exact eachPart_of_noParts (noParts_calls id)

end Task

/-! ## The order of calls -/

/-- One call leads to another: it is that call, or it makes a call that leads to it. -/
abbrev Leads : Call → Call → Prop := ReflTransGen fun x y => y ∈ x.1.calls x.2

/-- One call comes after another: it is made by it, or by a call behind it. -/
inductive Later (program : String) (q : Program) (c : Call) : Call → Prop
  | below {d : Call} (h : Leads c d) : Later program q c d
  | behind {T : Task} {a : Analysis} {xs ys : List Call} {x y d : Call}
      (reached : Reached program q T a) (calls : T.calls a = xs ++ x :: ys) (hx : Leads x c)
      (hy : y ∈ ys) (hd : Leads y d) : Later program q c d

/-- The call that an analysis starts with. -/
def Call.first (program : String) (q : Program) : Call := (.stmts q.stmts, initial program)

theorem Reached.leads (h : Reached program q T a) : Leads (.first program q) (T, a) := by
  induction h with
  | start => exact .refl
  | call _ hc ih => exact ih.tail hc

theorem Leads.ready (h : Leads x d) (hx : x.1.Ready x.2) : d.1.Ready d.2 := by
  induction h with
  | refl => exact hx
  | tail _ hc ih => exact (ih.calls _ hc).ready

theorem ready_first (program : String) (q : Program) :
    (Call.first program q).1.Ready (Call.first program q).2 := by
  dsimp only [Call.first]
  exact ⟨sound_initial program, inBody_initial program⟩

/-- Behind the last call, the analysis is at its end. -/
theorem after_first (program : String) (q : Program) :
    (Call.first program q).after = analyze program q := by
  rw [Call.first, Call.after, Task.part, analyze]

section Climb

variable {R : Analysis → Analysis → Prop} {e : Analysis} (trans : ∀ {a b c}, R a b → R b c → R a c)
  (rests : ∀ {a b}, Rests a b → R a b)
  (side : ∀ y : Call, y.1.Ready y.2 → (c.1.HasBody → Task.Follows y) → R e y.2 → R y.2 y.after)
include trans rests side

/-- What is done behind a part, is done since a state that the part comes after. -/
theorem after_part (hT : T.Ready a) {xs : List Call} (hcalls : T.calls a = xs ++ x :: ys)
    (hx : x.1.IsPart) (hbody : c.1.HasBody → x.1.HasBody) (h : R e x.after) :
    R e (Call.after (T, a)) ∧ ∀ y ∈ ys, R e y.2 := by
  have hon := hT.goesOn.split hcalls hx
  have hready : ∀ y ∈ ys, y.1.Ready y.2 := fun y hy =>
    (hT.calls y (hcalls ▸ List.mem_append_right xs (List.mem_cons_of_mem _ hy))).ready
  obtain ⟨hend, hys⟩ := hon.threads.induct (R := R) trans rests fun y hy hr =>
    side y (hready y hy) (fun hc => hon.follows (hbody hc) y hy) (trans h hr)
  exact ⟨trans h hend, fun y hy => trans h (hys y hy)⟩

/-- What a call does, and what is done behind it, leads up to the end of every call that
leads to it. -/
theorem climb (hc : c.1.IsPart) (h : R e c.after) (hx : x.1.Ready x.2) (hl : Leads x c) :
    x.1.IsPart ∧ (c.1.HasBody → x.1.HasBody) ∧ R e x.after := by
  induction hl using ReflTransGen.head_induction_on with
  | refl => exact ⟨hc, id, h⟩
  | @head x y hy _ ih =>
    obtain ⟨hpart, hbody, hr⟩ := ih (hx.calls y hy).ready
    obtain ⟨xs, ys, hcalls⟩ := List.append_of_mem hy
    have hon := hx.goesOn.split hcalls hpart
    exact ⟨hon.isPart, fun hc => hon.hasBody (hbody hc),
      (after_part (R := R) trans rests side hx hcalls hpart hbody hr).1⟩

end Climb

end Unnest.Analysis
