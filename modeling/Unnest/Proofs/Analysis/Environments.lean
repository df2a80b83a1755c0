import Unnest.Proofs.Analysis.Program

/-!
# Closure environments

A routine or a type receives the values that it captured when it is made, each by way
of a source.  This holds of every program, with errors or without.

* A use whose access is captured finds the binding among the captures of the class that
  its code is emitted into.
* A definition lists a source for each of its captures, in order, and each source gets
  at the captured binding from the scope around the definition.

Together they lead from every use to the declaration (`Traced`): every step outwards
goes to a scope that was opened earlier, so following the sources comes to an end.
-/

namespace Unnest

/-- The binding that a link uses by its name, and how it is reached. -/
def LinkFinding.use? : LinkFinding → Option (Binding × Access)
  | .load b access | .call _ _ (.binding b access) => some (b, access)
  | .typeName _ | .construct _ | .field _ _ | .call _ _ (.member _)
  | .call _ _ (.fieldValue _ _) => none

/-- What is captured, as its source says it. -/
def Capture.label (c : Capture) : String × TypeId := (c.name, c.binding.type)

def CaptureSource.label (source : CaptureSource) : String × TypeId := (source.name, source.type)

namespace Scopes

theorem Sees.reaches {t : Scopes} {s : ScopeId} {f : LinkFinding} {b : Binding} {access : Access}
    (h : t.Sees s f) (hf : f.use? = some (b, access)) : ∃ owner, Reaches t s ⟨b, owner⟩ access := by
  cases f with
  | load =>
    cases hf
    exact h
  | call owner routine callee =>
    cases callee with
    | binding =>
      cases hf
      exact h
    | member | fieldValue => exact absurd hf (by simp [LinkFinding.use?])
  | typeName | construct | field => exact absurd hf (by simp [LinkFinding.use?])

end Scopes

namespace Analysis

/-- The sources that are recorded for the definition with a scope. -/
inductive Receives (z : Analysis) : ScopeId → List CaptureSource → Prop
  | routine {node : NodeId} {f : RoutineFinding} (h : z.findings.routines.find? node = some f) :
      Receives z f.scope f.captures
  | type {node : NodeId} {f : TypeFinding} (h : z.findings.types.find? node = some f) :
      Receives z f.scope f.captures

/-- Following sources outwards from an access in a scope ends at the captured binding. -/
inductive Traced (z : Analysis) (c : Capture) : ScopeId → Access → Prop
  | ends {s : ScopeId} {access : Access} (h : z.scopes.Leads s c access)
      (direct : access ≠ .captured) : Traced z c s access
  | out {s p : ScopeId} {sources : List CaptureSource} {source : CaptureSource}
      (receives : Receives z (z.scopes.classScope s) sources)
      (listed : (c, source) ∈ (z.scopes.get (z.scopes.classScope s)).captures.zip sources)
      (parent : z.scopes.parent (z.scopes.classScope s) = some p)
      (h : Traced z c p source.access) : Traced z c s .captured

variable {z : Analysis} {s p d : ScopeId} {c : Capture} {access : Access}

theorem exists_mem_zip_of_forall₂ {α β : Type} {R : α → β → Prop} {xs : List α} {ys : List β}
    (h : List.Forall₂ R xs ys) {x : α} (hx : x ∈ xs) : ∃ y, (x, y) ∈ xs.zip ys ∧ R x y := by
  induction h with
  | nil => exact absurd hx List.not_mem_nil
  | @cons a b xs ys hab _ ih =>
    rw [List.zip_cons_cons]
    rcases List.mem_cons.mp hx with rfl | hx
    · exact ⟨b, List.mem_cons_self, hab⟩
    · obtain ⟨y, hy, hr⟩ := ih hx
      exact ⟨y, List.mem_cons_of_mem _ hy, hr⟩

theorem not_mem_path_root (hz : Settled z) (hk : (z.scopes.get d).kind ≠ .main) :
    d ∉ z.scopes.path Scopes.rootId := by
  intro hmem
  have hle := Scopes.index_le_of_mem_path hmem
  refine hk ?_
  have heq : d = Scopes.rootId := by
    obtain ⟨i⟩ := d
    exact congrArg ScopeId.mk (Nat.le_zero.mp hle)
  rw [heq]
  exact hz.sound.scopes.root_kind

/-- The sources of a definition are found from the scope around it. -/
theorem sourcesOf_receives (hz : Settled z) (hf : Finished Scopes.rootId z)
    {sources : List CaptureSource} (h : Receives z d sources) : z.scopes.SourcesOf d sources := by
  cases h with
  | @routine node f h =>
    have hmem := NodeTable.mem_of_find? h
    refine (hf.routine_sources _ hmem).resolve_left (not_mem_path_root hz ?_)
    rw [(hz.sound.routines _ hmem).kind]
    simp
  | @type node f h => exact hf.type_sources _ (NodeTable.mem_of_find? h)

/-- What captured something is recorded as a definition. -/
theorem exists_receives (hz : Settled z) (hf : Finished Scopes.rootId z) (hs : z.scopes.Has s)
    (hc : c ∈ (z.scopes.get (z.scopes.classScope s)).captures) :
    ∃ sources, Receives z (z.scopes.classScope s) sources := by
  have hout := not_mem_path_root hz (hz.sound.scopes.kind_ne_main hc)
  rcases hz.sound.scopes.kind_classScope hs hc with hk | hk
  · obtain ⟨e, he, heq⟩ := (hf.routine_recorded _ hk (List.ne_nil_of_mem hc)).resolve_left hout
    rw [← heq]
    exact ⟨_, .routine ((Findings.nodup_routines hz.keys).find?_eq he)⟩
  · obtain ⟨e, he, heq⟩ := (hf.type_recorded _ hk (List.ne_nil_of_mem hc)).resolve_left hout
    rw [← heq]
    exact ⟨_, .type ((Findings.nodup_types hz.keys).find?_eq he)⟩

/-- Every access to a captured binding leads to the binding in the end. -/
theorem traced_of_reaches (hz : Settled z) (hf : Finished Scopes.rootId z)
    (hr : z.scopes.Reaches s c access) (hstatic : ∀ type, access ≠ .static type) :
    Traced z c s access := by
  induction hn : s.index using Nat.strong_induction_on generalizing s access with
  | _ n ih =>
    subst hn
    have hleads := hz.sound.scopes.leads hr hstatic
    by_cases haccess : access = .captured
    · subst haccess
      obtain ⟨hc, -⟩ := hleads
      obtain ⟨sources, hreceives⟩ := exists_receives hz hf hr.meant.has hc
      obtain ⟨p, hp, hsources⟩ := sourcesOf_receives hz hf hreceives
      obtain ⟨source, hlisted, hsource⟩ := exists_mem_zip_of_forall₂ hsources hc
      refine .out hreceives hlisted hp (ih p.index ?_ hsource.reaches hsource.not_static rfl)
      exact Nat.lt_of_lt_of_le (hz.sound.scopes.parent_lt _ _ hp)
        (Scopes.index_le_of_mem_path (hz.sound.scopes.classScope_mem_path s))
    · exact .ends hleads haccess

/-! ## Complete environments -/

/-- A use of a binding in the scope `s` finds it: a captured one in the class that the
code of `s` is emitted into, and any one in the end where it was declared. -/
structure Served (z : Analysis) (s : ScopeId) (b : Binding) (access : Access) : Prop where
  captured : access = .captured → (z.scopes.get (z.scopes.classScope s)).kind ≠ .main ∧
    ∃ c ∈ (z.scopes.get (z.scopes.classScope s)).captures, c.name = b.name ∧ c.binding = b
  traced : (∀ type, access ≠ .static type) → ∃ owner ∈ z.scopes.path s,
    b ∈ (z.scopes.get owner).entries ∧ Traced z ⟨b, owner⟩ s access

/-- The definition with the scope `d` receives all that it captured, in order, and each
source gets at what it stands for. -/
structure Supplied (z : Analysis) (d : ScopeId) (sources : List CaptureSource) : Prop where
  labels : sources.map (·.label) = (z.scopes.get d).captures.map (·.label)
  sources : ∃ p, z.scopes.parent d = some p ∧
    ∀ c source, (c, source) ∈ (z.scopes.get d).captures.zip sources →
      c.binding ∈ (z.scopes.get c.owner).entries ∧ z.scopes.Leads p c source.access ∧
        Traced z c p source.access

theorem served_of_reaches (hz : Settled z) (hf : Finished Scopes.rootId z) {b : Binding}
    {owner : ScopeId} (hr : z.scopes.Reaches s ⟨b, owner⟩ access) : Served z s b access where
  captured haccess := by
    subst haccess
    obtain ⟨hc, hk⟩ := hz.sound.scopes.captured_leads hr
    exact ⟨hk, _, hc, rfl, rfl⟩
  traced hstatic :=
    ⟨owner, hr.meant.owner_mem, hr.meant.declared, traced_of_reaches hz hf hr hstatic⟩

theorem supplied_of_receives (hz : Settled z) (hf : Finished Scopes.rootId z)
    {sources : List CaptureSource} (h : Receives z d sources) : Supplied z d sources := by
  obtain ⟨p, hp, hsources⟩ := sourcesOf_receives hz hf h
  have hzip := List.forall₂_iff_zip.mp hsources
  refine ⟨?_, p, hp, fun c source hmem => ?_⟩
  · have hlabels : List.Forall₂ (· = ·) ((z.scopes.get d).captures.map (·.label))
        (sources.map (·.label)) := by
      rw [List.forall₂_map_left_iff, List.forall₂_map_right_iff]
      exact hsources.imp fun _ _ hs => (Prod.ext hs.name_eq hs.type_eq).symm
    rw [List.forall₂_eq_eq_eq] at hlabels
    exact hlabels.symm
  · have hs := hzip.2 hmem
    exact ⟨hs.reaches.meant.declared, hz.sound.scopes.leads hs.reaches hs.not_static,
      traced_of_reaches hz hf hs.reaches hs.not_static⟩

/-- Closure environments are complete.  Every link that uses a binding stands in one
scope and is served there, and every definition is supplied with what it captured. -/
theorem environments_complete (program : String) {q : Program} (hq : q.nodes.Nodup) :
    (∀ node f b access, (analyze program q).findings.links.find? node = some f →
      f.use? = some (b, access) →
        ∃ s, (∀ s', (node, s') ∈ q.linkSites (analyze program q).findings ↔ s' = s) ∧
          Served (analyze program q) s b access) ∧
    ∀ d sources, Receives (analyze program q) d sources →
      Supplied (analyze program q) d sources := by
  have hz := settled_analyze program hq
  have hf := finished_analyze program hq
  refine ⟨fun node f b access hfind huse => ?_, fun d sources h => supplied_of_receives hz hf h⟩
  obtain ⟨s, hsite, hsees⟩ := sited_analyze program hq hfind
  obtain ⟨owner, hr⟩ := hsees.reaches huse
  refine ⟨s, fun s' => ⟨fun hs' => ?_, fun heq => heq ▸ hsite⟩, served_of_reaches hz hf hr⟩
  exact Program.linkSites_unique hq _ hs' hsite

/-- What is recorded about the routine `note` of `nested`. -/
def noteFinding : RoutineFinding where
  signature := ⟨"note", [], none⟩
  binding := { name := "note", type := ⟨8⟩, role := .routine, slot := some 2 }
  unit := ⟨3⟩
  scope := ⟨4⟩
  memberOf := none
  isStatic := false
  params := []
  captures := [⟨"count", .integer, .captured⟩, ⟨"by", .integer, .slot 1⟩]

theorem environments_complete_nested :
    Supplied (analyze "demo" nested) ⟨4⟩
      [⟨"count", .integer, .captured⟩, ⟨"by", .integer, .slot 1⟩] :=
  (environments_complete "demo" nodup_nested).2 _ _
    (@Receives.routine _ ⟨19⟩ noteFinding (by decide +kernel))

end Analysis

end Unnest
