import Unnest.Proofs.Analysis.Rules
import Unnest.Proofs.Tree.Parts

/-!
# Where links stand

The findings of a tree say in which scope each of its links stands: the scope of a
block, of a routine or of the static initial values is on record, and a link stands in
the nearest one around it (`Stmt.linkSites`).  A definition that was refused has no
scope and no sites.  A node has one site at most, since it occurs once in the tree.

`Outcome` is what analysing a statement comes to.  It is a walk; the links that were
recorded on the way are those at the sites of the statement, and each is recorded as it
is seen from there; and in the end something is decided about the statement.
-/

namespace Unnest

/-- The links among parts that stand in one scope. -/
def Part.sites (s : ScopeId) (xs : List Part) : List (NodeId × ScopeId) :=
  xs.filterMap fun x =>
    match x with
    | .link l => some (l.node, s)
    | _ => none

section

variable (f : Findings)

mutual

/-- The links of a statement in the scope `s`, each with the scope that it stands in. -/
def Stmt.linkSites (s : ScopeId) : Stmt → List (NodeId × ScopeId)
  | .declare d => Part.sites s (Stmt.declare d).parts
  | .define d => Part.sites s (Stmt.define d).parts
  | .assign x => Part.sites s (Stmt.assign x).parts
  | .call c => Part.sites s (Stmt.call c).parts
  | .branch branches otherwise _ => Guarded.allLinkSites branches ++ otherwise.linkSites
  | .loop g => g.linkSites
  | .routine r => r.linkSites
  | .type t => t.linkSites

/-- A condition stands in the block that it guards. -/
def Guarded.linkSites : Guarded → List (NodeId × ScopeId)
  | ⟨node, condition, body, _⟩ =>
    match f.blocks.find? node with
    | some b => Part.sites b condition.parts ++ Stmt.allLinkSites b body
    | none => []

def Else.linkSites : Else → List (NodeId × ScopeId)
  | .absent => []
  | .block node body _ =>
    match f.blocks.find? node with
    | some b => Stmt.allLinkSites b body
    | none => []

def RoutineDef.linkSites : RoutineDef → List (NodeId × ScopeId)
  | ⟨node, _, _, _, _, body, ret, _⟩ =>
    match f.routines.find? node with
    | some r => Stmt.allLinkSites r.scope body ++ Part.sites r.scope (ReturnClause.optParts ret)
    | none => []

/-- Static initial values stand in a scope of their own. -/
def TypeDef.linkSites : TypeDef → List (NodeId × ScopeId)
  | ⟨node, _, _, _, staticFields, routines, staticRoutines, _⟩ =>
    match f.types.find? node with
    | some t =>
      Part.sites t.fieldInit (staticFields.flatMap StaticField.parts) ++
        RoutineDef.allLinkSites routines ++ RoutineDef.allLinkSites staticRoutines
    | none => []

def Stmt.allLinkSites (s : ScopeId) : List Stmt → List (NodeId × ScopeId)
  | [] => []
  | x :: xs => x.linkSites s ++ Stmt.allLinkSites s xs

def Guarded.allLinkSites : List Guarded → List (NodeId × ScopeId)
  | [] => []
  | g :: gs => g.linkSites ++ Guarded.allLinkSites gs

def RoutineDef.allLinkSites : List RoutineDef → List (NodeId × ScopeId)
  | [] => []
  | r :: rs => r.linkSites ++ RoutineDef.allLinkSites rs

end

/-- The links of a program, each with the scope that it stands in. -/
def Program.linkSites (p : Program) : List (NodeId × ScopeId) :=
  Stmt.allLinkSites f Scopes.rootId p.stmts

end

namespace Part

theorem sites_append (s : ScopeId) (xs ys : List Part) :
    sites s (xs ++ ys) = sites s xs ++ sites s ys := List.filterMap_append

/-- Parts without links. -/
theorem sites_map {α : Type} {f : α → Part} {s : ScopeId} (h : ∀ x, sites s [f x] = [])
    (xs : List α) : sites s (xs.map f) = [] := by
  induction xs with
  | nil => rfl
  | cons x xs ih =>
    rw [List.map_cons, ← List.singleton_append, sites_append, h, ih, List.append_nil]

/-- The keys of links among the keys of parts. -/
theorem mem_sites_of_key {s : ScopeId} {xs : List Part} {n : NodeId}
    (h : (.links, n) ∈ allKeys xs) : (n, s) ∈ sites s xs := by
  rw [allKeys, Multiset.mem_coe] at h
  obtain ⟨x, hx, hk⟩ := List.mem_flatMap.mp h
  obtain ⟨htable, hnode⟩ := mem_keys.mp hk
  refine List.mem_filterMap.mpr ⟨x, hx, ?_⟩
  unfold tables at htable
  split at htable <;> first
    | exact congrArg (fun n => some (n, s)) hnode
    | simp at htable

theorem sites_nodes (s : ScopeId) (xs : List Part) :
    ((sites s xs).map (·.1)).Sublist (xs.map node) := by
  induction xs with
  | nil => exact List.Sublist.refl _
  | cons x xs ih =>
    rw [List.map_cons]
    cases x with
    | link l => exact ih.cons_cons _
    | _ => exact ih.cons _

end Part

mutual

theorem Stmt.linkSites_nodes (f : Findings) (s : ScopeId) : (x : Stmt) →
    ((x.linkSites f s).map (·.1)).Sublist (x.parts.map Part.node)
  | .declare _ | .define _ | .assign _ | .call _ => Part.sites_nodes s _
  | .branch branches otherwise _ => by
    rw [Stmt.linkSites, Stmt.parts, List.map_append, List.map_append]
    exact (Guarded.allLinkSites_nodes f branches).append (Else.linkSites_nodes f otherwise)
  | .loop g => Guarded.linkSites_nodes f g
  | .routine r => RoutineDef.linkSites_nodes f r
  | .type t => TypeDef.linkSites_nodes f t

theorem Guarded.linkSites_nodes (f : Findings) : (g : Guarded) →
    ((g.linkSites f).map (·.1)).Sublist (g.parts.map Part.node)
  | ⟨node, condition, body, _⟩ => by
    rw [Guarded.linkSites, Guarded.parts, List.map_cons, List.map_append]
    split
    · rw [List.map_append]
      exact ((Part.sites_nodes _ _).append (Stmt.allLinkSites_nodes f _ body)).cons _
    · exact List.nil_sublist _

theorem Else.linkSites_nodes (f : Findings) : (e : Else) →
    ((e.linkSites f).map (·.1)).Sublist (e.parts.map Part.node)
  | .absent => List.Sublist.refl _
  | .block node body _ => by
    rw [Else.linkSites, Else.parts, List.map_cons]
    split
    · exact (Stmt.allLinkSites_nodes f _ body).cons _
    · exact List.nil_sublist _

theorem RoutineDef.linkSites_nodes (f : Findings) : (r : RoutineDef) →
    ((r.linkSites f).map (·.1)).Sublist (r.parts.map Part.node)
  | ⟨node, _, _, _, _, body, ret, _⟩ => by
    rw [RoutineDef.linkSites, RoutineDef.parts, List.map_cons, List.map_append]
    split
    · rw [List.map_append]
      exact ((Stmt.allLinkSites_nodes f _ body).append (Part.sites_nodes _ _)).cons _
    · exact List.nil_sublist _

theorem TypeDef.linkSites_nodes (f : Findings) : (t : TypeDef) →
    ((t.linkSites f).map (·.1)).Sublist (t.parts.map Part.node)
  | ⟨node, _, _, fields, staticFields, routines, staticRoutines, _⟩ => by
    rw [TypeDef.linkSites, TypeDef.parts, List.map_cons, List.append_assoc, List.append_assoc,
      List.map_append, ← List.append_assoc, List.map_append, List.map_append]
    split
    · rw [List.map_append, List.map_append]
      exact ((((Part.sites_nodes _ _).append (RoutineDef.allLinkSites_nodes f routines)).append
        (RoutineDef.allLinkSites_nodes f staticRoutines)).trans
          (List.sublist_append_right _ _)).cons _
    · exact List.nil_sublist _

theorem Stmt.allLinkSites_nodes (f : Findings) (s : ScopeId) : (xs : List Stmt) →
    ((Stmt.allLinkSites f s xs).map (·.1)).Sublist ((Stmt.allParts xs).map Part.node)
  | [] => List.Sublist.refl _
  | x :: xs => by
    rw [Stmt.allLinkSites, Stmt.allParts, List.map_append, List.map_append]
    exact (Stmt.linkSites_nodes f s x).append (Stmt.allLinkSites_nodes f s xs)

theorem Guarded.allLinkSites_nodes (f : Findings) : (gs : List Guarded) →
    ((Guarded.allLinkSites f gs).map (·.1)).Sublist ((Guarded.allParts gs).map Part.node)
  | [] => List.Sublist.refl _
  | g :: gs => by
    rw [Guarded.allLinkSites, Guarded.allParts, List.map_append, List.map_append]
    exact (Guarded.linkSites_nodes f g).append (Guarded.allLinkSites_nodes f gs)

theorem RoutineDef.allLinkSites_nodes (f : Findings) : (rs : List RoutineDef) →
    ((RoutineDef.allLinkSites f rs).map (·.1)).Sublist ((RoutineDef.allParts rs).map Part.node)
  | [] => List.Sublist.refl _
  | r :: rs => by
    rw [RoutineDef.allLinkSites, RoutineDef.allParts, List.map_append, List.map_append]
    exact (RoutineDef.linkSites_nodes f r).append (RoutineDef.allLinkSites_nodes f rs)

end

/-- A link stands in one scope. -/
theorem Program.linkSites_unique {p : Program} (h : p.nodes.Nodup) (f : Findings) {n : NodeId}
    {s s' : ScopeId} (hs : (n, s) ∈ p.linkSites f) (hs' : (n, s') ∈ p.linkSites f) : s = s' := by
  have hnd := h.sublist (Stmt.allLinkSites_nodes f Scopes.rootId p.stmts)
  exact (Prod.mk.inj (List.inj_on_of_nodup_map hnd hs hs' rfl)).2

namespace Analysis

variable {K L : Multiset Key} {S T : Findings → List (NodeId × ScopeId)} {D E : Analysis → Prop}
  {a b c : Analysis} {s : ScopeId}

theorem sees_mono {t t' : Scopes} {s : ScopeId} {f : LinkFinding} (h : t.Sees s f)
    (hx : t.Extends t') (hw : t.WF) (hw' : t'.WF) (hs : t.Has s) : t'.Sees s f := by
  cases f with
  | load b access => exact h.imp fun _ hr => hr.mono hx hw hw' hs
  | call _ _ callee =>
    cases callee with
    | binding b access => exact h.imp fun _ hr => hr.mono hx hw hw' hs
    | member | fieldValue => trivial
  | typeName | construct | field => trivial

theorem Step.links (h : Step K a b) {e : NodeId × LinkFinding}
    (he : e ∈ b.findings.links) : e ∈ a.findings.links ∨
      (.links, e.1) ∈ K ∧ a.scopes.Sees a.current e.2 := by
  cases h with
  | record a h =>
    cases h with
    | link node hsees =>
      rcases List.mem_cons.mp he with rfl | he
      · exact Or.inr ⟨Multiset.mem_singleton_self _, hsees⟩
      · exact Or.inl he
    | _ => exact Or.inl he
  | _ => exact Or.inl he

/-- Links that are recorded are recorded as they are seen. -/
theorem Steps.links (ha : Sound a) (h : Steps K a b) {e : NodeId × LinkFinding}
    (he : e ∈ b.findings.links) : e ∈ a.findings.links ∨
      (.links, e.1) ∈ K ∧ b.scopes.Sees a.current e.2 := by
  induction h with
  | refl => exact Or.inl he
  | step h =>
    refine (h.links he).imp_right fun hs => ⟨hs.1, ?_⟩
    have hb := ha.step h
    exact sees_mono hs.2 h.grows.scopes ha.scopes.toWF hb.scopes.toWF ha.has
  | trans h h' ih ih' =>
    have hb := ha.steps h
    have hc := hb.steps h'
    rcases ih' hb he with he | ⟨hk, hs⟩
    · refine (ih ha he).imp_right fun hs => ⟨Multiset.mem_add.mpr (Or.inl hs.1), ?_⟩
      exact sees_mono hs.2 h'.grows.scopes hb.scopes.toWF hc.scopes.toWF (h.grows.scopes.has ha.has)
    · rw [h.current_eq] at hs
      exact Or.inr ⟨Multiset.mem_add.mpr (Or.inr hk), hs⟩
  | mono _ hKL ih => exact (ih ha he).imp_right fun hs => ⟨Multiset.mem_of_le hKL hs.1, hs.2⟩

/-! ## Outcomes -/

/-- What analysing a part of the tree comes to: the keys `K`, the sites `S` of its
links, and what is decided about it, `D`. -/
structure Outcome (K : Multiset Key) (S : Findings → List (NodeId × ScopeId))
    (D : Analysis → Prop) (a b : Analysis) : Prop where
  walk : Walk K a b
  sited : ∀ z, Settled z → Grows b z → ∀ e ∈ b.findings.links, e ∈ a.findings.links ∨
    ∃ s, (e.1, s) ∈ S z.findings ∧ z.scopes.Sees s e.2
  decided : ∀ z, Accepted z → Grows b z → D z

namespace Outcome

theorem refl (a : Analysis) : Outcome 0 (fun _ => []) (fun _ => True) a a :=
  ⟨.refl a, fun _ _ _ _ he => Or.inl he, fun _ _ _ => trivial⟩

theorem trans (h : Outcome K S D a b) (h' : Outcome L T E b c) :
    Outcome (K + L) (fun f => S f ++ T f) (fun z => D z ∧ E z) a c := by
  refine ⟨h.walk.trans h'.walk, fun z hz hg e he => ?_, fun z hz hg => ?_⟩
  · rcases h'.sited z hz hg e he with he | ⟨s, hs, hsees⟩
    · refine (h.sited z hz (h'.walk.grows.trans hg) e he).imp_right ?_
      rintro ⟨s, hs, hsees⟩
      exact ⟨s, List.mem_append_left _ hs, hsees⟩
    · exact Or.inr ⟨s, List.mem_append_right _ hs, hsees⟩
  · exact ⟨h.decided z hz (h'.walk.grows.trans hg), h'.decided z hz hg⟩

theorem conseq (h : Outcome K S D a b) (hK : K = L)
    (hS : ∀ z, Settled z → Grows b z → S z.findings ⊆ T z.findings)
    (hD : ∀ z, Accepted z → Grows b z → D z → E z) : Outcome L T E a b := by
  refine ⟨hK ▸ h.walk, fun z hz hg e he => ?_, fun z hz hg => hD z hz hg (h.decided z hz hg)⟩
  refine (h.sited z hz hg e he).imp_right ?_
  rintro ⟨s, hs, hsees⟩
  exact ⟨s, hS z hz hg hs, hsees⟩

/-- Through a block, or through the static initial values of a type. -/
theorem inside (parent : a.scopes.parent s = some a.current)
    (kind : (a.scopes.get s).kind = .fieldInit ∨
      (a.scopes.get s).kind = .block ∧ (a.scopes.get s).captures = [])
    (h : Outcome K S D { a with current := s } b) :
    Outcome K S D a { b with current := a.current } :=
  ⟨h.walk.inside parent kind, fun z hz hg => h.sited z hz hg.of_at,
    fun z hz hg => h.decided z hz hg.of_at⟩

end Outcome

/-- Parts that are analysed in one scope have their links there. -/
theorem Steps.outcome (ha : Sound a) {xs : List Part} (h : Steps (Part.allKeys xs) a b) :
    Outcome (Part.allKeys xs) (fun _ => Part.sites a.current xs) (fun _ => True) a b := by
  refine ⟨.steps h, fun z hz hg e he => ?_, fun _ _ _ => trivial⟩
  refine (h.links ha he).imp_right fun hsees =>
    ⟨a.current, Part.mem_sites_of_key hsees.1, sees_mono hsees.2 hg.scopes ?_ ?_ ?_⟩
  · exact (ha.steps h).scopes.toWF
  · exact hz.sound.scopes.toWF
  · exact h.grows.scopes.has ha.has

/-- Changes under no keys leave everything as it was decided. -/
theorem Outcome.andSteps (h : Outcome K S D a b) (hb : Sound b) (hs : Steps 0 b c) :
    Outcome K S D a c :=
  (h.trans (@Steps.outcome _ _ hb [] hs)).conseq (add_zero K)
    (fun z _ _ _ he => List.append_nil (S z.findings) ▸ he) fun _ _ _ hd => hd.1

/-- A part that stays in one scope has the links among its parts. -/
theorem Decides.outcome {α : Type} {p : Place} {xs : List Part} {m : Analyze α}
    {Q : Analysis → α → Prop} (h : Decides p (Part.allKeys xs) m Q) (ha : p.At a) :
    Outcome (Part.allKeys xs) (fun _ => Part.sites p.scope xs) (fun z => Q z (m.run a).1) a
      (m.run a).2 := by
  obtain ⟨hs, hd⟩ := h a ha
  obtain ⟨hwalk, hsited, -⟩ := hs.outcome ha.sound
  exact ⟨hwalk, ha.current ▸ hsited, fun z hz hg => hd z hz.sound hg⟩

end Analysis

end Unnest
