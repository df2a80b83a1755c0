import Unnest.Proofs.Analysis.Finished
import Unnest.Proofs.Analysis.Statements
import Unnest.Proofs.Tree.Built

/-!
# Whole programs

An analysis starts with sound tables in which nothing is recorded, and comes to its end
with sound tables in which every node is recorded at most once (`settled_analyze`) and
every definition is finished (`finished_analyze`).  Whether or not it reports errors,
every link that is recorded stands at its site and is recorded as it is seen from there
(`sited_analyze`).  If it reports none, every statement is decided (`done_analyze`).

The nodes of the program are distinct, as they are in every tree that is built
(`Draft.nodup_nodes_build`).
-/

namespace Unnest

namespace Scopes

/-- The scopes of a program before anything is declared. -/
theorem sound_root (name : String) (unit : UnitId) : Sound (root name unit) where
  parent_lt s p hp := by
    obtain rfl := has_root (has_of_parent hp)
    exact absurd hp (by simp [parent, get_root, Scope.empty])
  root_has := Nat.one_pos
  root_kind := rfl
  placed s hs := by
    obtain rfl := has_root hs
    exact Or.inl ⟨rfl, rfl⟩
  entries s b hb := by
    obtain rfl := has_root (has_of_mem_entries hb)
    exact absurd hb List.not_mem_nil
  captures s c hc := by
    obtain rfl := has_root (has_of_mem_captures hc)
    exact absurd hc List.not_mem_nil

/-- Nothing is around the body of a program. -/
theorem Sound.path_root {t : Scopes} (h : Sound t) : t.path rootId = [rootId] := by
  refine path_of_root ?_
  rcases h.placed rootId h.root_has with ⟨-, hparent⟩ | ⟨p, -, hopen⟩
  · exact hparent
  · rw [h.root_kind] at hopen
    exact hopen.elim

theorem Sound.captures_root {t : Scopes} (h : Sound t) : (t.get rootId).captures = [] := by
  refine List.eq_nil_iff_forall_not_mem.mpr fun c hc => (h.captures rootId c hc).owner_ne ?_
  have howner := (h.captures rootId c hc).owner_mem
  rwa [h.path_root, List.mem_singleton] at howner

theorem Sound.resolveType_root {t : Scopes} (h : Sound t) (n : String) :
    t.resolveType rootId n = (t.get rootId).type? n := by
  rw [resolveType, h.path_root, List.findSome?_singleton]

theorem Sound.resolveValue_root {t : Scopes} (h : Sound t) {n : String}
    (hn : (t.get rootId).binding? n = none) : t.resolveValue rootId n = none := by
  rw [resolveValue, h.path_root, List.findSome?_singleton, answer?, hn, Scope.capture?,
    h.captures_root]
  rfl

end Scopes

namespace Analysis

open Analyze

variable {p : Place} {z : Analysis} {q : Program}

/-! ## The start -/

theorem sound_blank (program : String) : Sound (blank program) where
  scopes := Scopes.sound_root _ _
  siblings := Scopes.siblings_root _ _
  types := TypeTable.sound_predefined _
  houses := Units.houses_root program
  has := Nat.one_pos
  linked s hs _ p hp := by
    obtain rfl := Scopes.has_root (Scopes.has_of_parent hp)
    exact absurd hp (by simp [Scopes.parent, blank, Scopes.get_root, Scope.empty])
  routines _ he := absurd he List.not_mem_nil
  values _ he := absurd he List.not_mem_nil
  typeFindings _ he := absurd he List.not_mem_nil
  classes _ he := absurd he List.not_mem_nil

theorem decides_declareTypes (xs : List (String × TypeId)) :
    Decides (Place.body Scopes.rootId) 0 (declareTypes xs) fun _ _ => True := by
  induction xs with
  | nil => exact .pure fun _ _ => trivial
  | cons x xs ih =>
    obtain ⟨name, type⟩ := x
    have hfirst : Decides (Place.body Scopes.rootId) 0
        (declareType Scopes.rootId name type .unknown) fun z done => Accepted z → done = true :=
      fun a ha => by
        have hs := ha.sound.scopes
        exact declareType_spec (p := Place.body Scopes.rootId) type .unknown ha ha.holds.2
          (fun h => (hs.resolveType_root name).trans h) fun h => hs.resolveValue_root h
    exact hfirst.discard.andThen fun _ => ih.weaken

theorem decides_declareRoutines (xs : List (String × TypeId)) :
    Decides (Place.body Scopes.rootId) 0 (declareRoutines xs) fun z _ => Accepted z →
      ∀ x ∈ xs, ∃ b ∈ (z.scopes.get Scopes.rootId).entries, b.name = x.1 := by
  induction xs with
  | nil => exact .pure fun _ _ _ => List.forall_mem_nil _
  | cons x xs ih =>
    obtain ⟨name, type⟩ := x
    have hfirst : Decides (Place.body Scopes.rootId) 0
        (declare Scopes.rootId { name, type, role := .routine } .unknown)
        (BindingDeclared Scopes.rootId { name, type, role := .routine }) :=
      fun a ha => declare_spec (p := Place.body Scopes.rootId) ha .unknown rfl
        (Scopes.mayDeclare_of_isBody ha.holds.2 rfl)
        fun h => (ha.sound.scopes.resolveType_root name).trans h
    refine hfirst.discard.andThen fun _ => ?_
    refine ih.weaken.conseq fun z _ hz hxs hacc => List.forall_mem_cons.mpr ⟨?_, hxs hacc⟩
    obtain ⟨_, hdeclared⟩ := hz.fact
    obtain ⟨b, rfl⟩ := hdeclared.complete hacc
    obtain ⟨hname, -, -, -, hmem⟩ := hdeclared.declared b rfl
    exact ⟨b, hmem, hname⟩

theorem decides_predefine :
    Decides (Place.body Scopes.rootId) 0 predefine fun z _ => Accepted z →
      ∀ x ∈ Predefined.routines, ∃ b ∈ (z.scopes.get Scopes.rootId).entries, b.name = x.1 :=
  (decides_declareTypes _).andThen fun _ => (decides_declareRoutines _).weaken

/-- Predefining changes the tables like anything else. -/
theorem steps_initial (program : String) : Steps 0 (blank program) (initial program) :=
  (decides_predefine (blank program) ⟨sound_blank program, rfl, Nat.one_pos, rfl⟩).1

theorem sound_initial (program : String) : Sound (initial program) :=
  (sound_blank program).steps (steps_initial program)

theorem finished_initial (program : String) :
    Finished (initial program).current (initial program) := by
  have hs := steps_initial program
  have hblank := sound_blank program
  rw [hs.current_eq]
  refine Finished.steps ?_ hblank hblank.has (Scopes.mem_path_self _ _) hs
  refine ⟨fun _ he => absurd he List.not_mem_nil, fun _ he => absurd he List.not_mem_nil,
    fun _ he => absurd he List.not_mem_nil, fun _ he => absurd he List.not_mem_nil,
    fun _ he => absurd he List.not_mem_nil, fun s _ hne => ?_, fun s _ hne => ?_⟩
  all_goals
    obtain ⟨c, hc⟩ := List.exists_mem_of_ne_nil _ hne
    obtain rfl := Scopes.has_root (Scopes.has_of_mem_captures hc)
    exact absurd hc List.not_mem_nil

theorem keys_initial (program : String) : (initial program).findings.keys = 0 :=
  Multiset.le_zero.mp (steps_initial program).keys_le

/-! ## The end -/

/-- The analysis of a whole program. -/
theorem outcome_analyze (program : String) (q : Program) :
    Outcome q.keys (q.linkSites ·) (StmtsDone · Scopes.rootId q.stmts) (initial program)
      (analyze program q) := by
  have hs := steps_initial program
  have hcur : (initial program).current = Scopes.rootId := hs.current_eq
  have hkind : ((initial program).scopes.get (initial program).current).kind.isBody = true := by
    rw [hcur, hs.grows.scopes.kind_eq (s := Scopes.rootId) Nat.one_pos]
    rfl
  have h := (analysed_stmts q.stmts).outcome (sound_initial program) hkind
  rwa [hcur] at h

/-- The tables of a whole program grow from blank ones. -/
theorem grows_analyze (program : String) (q : Program) :
    Grows (blank program) (analyze program q) :=
  (steps_initial program).grows.trans (outcome_analyze program q).walk.grows

/-- The outermost scope has the name of the program. -/
theorem name_root_analyze (program : String) (q : Program) :
    ((analyze program q).scopes.get Scopes.rootId).name = program :=
  ((grows_analyze program q).scopes.head Scopes.rootId Nat.one_pos).name

theorem binDirectory_analyze (program : String) (q : Program) :
    (analyze program q).units.binDirectory = Units.binDirectoryOf program :=
  (grows_analyze program q).units.binDirectory

theorem routineBase_analyze (program : String) (q : Program) :
    (analyze program q).types.routineBase = Units.binDirectoryOf program ++ Reserved.routine :=
  (grows_analyze program q).types.base

theorem settled_analyze (program : String) (hq : q.nodes.Nodup) :
    Settled (analyze program q) := by
  have hwalk := (outcome_analyze program q).walk
  refine ⟨(sound_initial program).walk hwalk, Multiset.nodup_of_le hwalk.keys_le ?_⟩
  rw [keys_initial, add_zero]
  exact Program.nodup_keys hq

theorem finished_analyze (program : String) (hq : q.nodes.Nodup) :
    Finished Scopes.rootId (analyze program q) := by
  have hwalk := (outcome_analyze program q).walk
  have hcur := hwalk.current_eq.trans (steps_initial program).current_eq
  have h := (finished_initial program).walk (sound_initial program) hwalk (by
    rw [keys_initial, add_zero]
    exact Program.nodup_keys hq)
  rwa [hcur] at h

/-- A link that is recorded stands at its site. -/
theorem sited_analyze (program : String) (hq : q.nodes.Nodup) {node : NodeId} {f : LinkFinding}
    (hf : (analyze program q).findings.links.find? node = some f) :
    ∃ s, (node, s) ∈ q.linkSites (analyze program q).findings ∧
      (analyze program q).scopes.Sees s f := by
  have hsited := (outcome_analyze program q).sited _ (settled_analyze program hq) (.refl _) _
    (NodeTable.mem_of_find? hf)
  refine hsited.resolve_left fun hinitial => ?_
  have hlinks := (steps_initial program).links (sound_blank program) hinitial
  rcases hlinks with hnil | ⟨hk, -⟩
  · exact List.not_mem_nil hnil
  · exact Multiset.notMem_zero _ hk

/-- Nothing is recorded about a chain without links, or about an assignment to one. -/
structure Silent (z : Analysis) (x : Part) : Prop where
  chains : .chains ∉ x.tables → z.findings.chains.find? x.node = none
  assigns : .assigns ∉ x.tables → z.findings.assigns.find? x.node = none

/-- What is recorded is recorded about a part of the tree. -/
theorem exists_part (program : String) {table : Table} {node : NodeId}
    (h : (table, node) ∈ (analyze program q).findings.keys) :
    ∃ x ∈ q.parts, table ∈ x.tables ∧ x.node = node := by
  have hkeys := (outcome_analyze program q).walk.keys_le
  rw [keys_initial, add_zero] at hkeys
  obtain ⟨x, hx, hk⟩ := List.mem_flatMap.mp (Multiset.mem_coe.mp (Multiset.mem_of_le hkeys h))
  exact ⟨x, hx, Part.mem_keys.mp hk⟩

theorem silent_analyze (program : String) (hq : q.nodes.Nodup) {x : Part} (hx : x ∈ q.parts) :
    Silent (analyze program q) x := by
  have habsent : ∀ table, table ∉ x.tables →
      (table, x.node) ∉ (analyze program q).findings.keys := by
    intro table htable hmem
    obtain ⟨y, hy, hty, hny⟩ := exists_part program hmem
    obtain rfl := List.inj_on_of_nodup_map hq hx hy hny.symm
    exact htable hty
  refine ⟨fun h => ?_, fun h => ?_⟩
  · by_contra hne
    obtain ⟨f, hf⟩ := Option.ne_none_iff_exists'.mp hne
    exact habsent _ h (Findings.mem_keys_chains hf)
  · by_contra hne
    obtain ⟨f, hf⟩ := Option.ne_none_iff_exists'.mp hne
    exact habsent _ h (Findings.mem_keys_assigns hf)

theorem accepted_analyze (program : String) (hq : q.nodes.Nodup)
    (h : (analyze program q).errors = []) : Accepted (analyze program q) :=
  ⟨settled_analyze program hq, h⟩

/-- The routines that need no definition are declared in the body of the program. -/
theorem predefined_analyze (program : String) (hq : q.nodes.Nodup)
    (h : (analyze program q).errors = []) : ∀ x ∈ Predefined.routines,
      ∃ b ∈ ((analyze program q).scopes.get Scopes.rootId).entries, b.name = x.1 :=
  (decides_predefine (blank program) ⟨sound_blank program, rfl, Nat.one_pos, rfl⟩).2 _
    (settled_analyze program hq).sound (outcome_analyze program q).walk.grows
    (accepted_analyze program hq h)

/-- In an accepted analysis every statement is decided. -/
theorem done_analyze (program : String) (hq : q.nodes.Nodup)
    (h : (analyze program q).errors = []) :
    StmtsDone (analyze program q) Scopes.rootId q.stmts :=
  (outcome_analyze program q).decided _ (accepted_analyze program hq h) (.refl _)

/-- The analysis of `nested` reports no error. -/
theorem errors_nested : (analyze "demo" nested).errors = [] := by decide +kernel

end Analysis

end Unnest
