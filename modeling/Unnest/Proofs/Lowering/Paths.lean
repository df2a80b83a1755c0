import Unnest.Proofs.Analysis.Program
import Unnest.Proofs.Host.Writing
import Unnest.Proofs.Lowering.Order
import Unnest.Proofs.Scope.Lineage

/-!
# The paths of the classes

The class of a definition is at the path of its unit, and the unit is named by the names
around the definition.  Where no definition is called what a block is called, and no name
has a separator or a slash in it, the classes of an accepted program have different paths,
and on disk none is written over another (`Lowering.classes_apart`).

A routine that is called what the first block is called does get into its way
(`Lowering.classes_clash`).
-/

namespace Unnest

open Code Scopes

/-- The name of a definition. -/
def Part.definedName? : Part → Option String
  | .routine r => some r.name.name
  | .type t => some t.name.name
  | _ => none

/-- A name that no block has, and that is one part of a lineage. -/
structure FreeName (name : String) : Prop extends IsPart name where
  token : ∀ k, name ≠ blockToken k

/-- The definitions among parts have free names. -/
def FreelyNamed (xs : List Part) : Prop := ∀ x ∈ xs, ∀ name ∈ x.definedName?, FreeName name

/-- A name is free if it does not start as tokens do. -/
theorem freelyNamed_of {xs : List Part} (h : ∀ x ∈ xs, ∀ name ∈ x.definedName?,
    IsPart name ∧ ¬ "inner".toList <+: name.toList) : FreelyNamed xs := by
  intro x hx name hname
  obtain ⟨hpart, hprefix⟩ := h x hx name hname
  refine ⟨hpart, ?_⟩
  rintro k rfl
  rw [toList_blockToken] at hprefix
  exact hprefix (List.prefix_append _ _)

theorem FreelyNamed.mono {xs ys : List Part} (h : FreelyNamed ys) (hsub : xs ⊆ ys) :
    FreelyNamed xs := fun x hx => h x (hsub hx)

namespace Analysis

variable {z : Analysis} {s p : ScopeId}

/-! ## Definitions and their scopes -/

/-- A definition stands inside a scope. -/
theorem Settled.defined_parent (hz : Settled z) (d : Defined z.findings) :
    ∃ p, z.scopes.parent d.scope = some p := by
  cases d with
  | routine node f record =>
    obtain ⟨p, hp, -⟩ := (hz.sound.routines _ (NodeTable.mem_of_find? record)).binding
    exact ⟨p, hp⟩
  | type node f record => exact (hz.sound.typeFindings _ (NodeTable.mem_of_find? record)).parent

theorem Settled.defined_kind (hz : Settled z) (d : Defined z.findings) :
    (z.scopes.get d.scope).kind ≠ .fieldInit := by
  cases d with
  | routine node f record =>
    have hkind := (hz.sound.routines _ (NodeTable.mem_of_find? record)).kind
    exact fun h => absurd (hkind.symm.trans h) (by simp)
  | type node f record =>
    have hkind := (hz.sound.typeFindings _ (NodeTable.mem_of_find? record)).kind
    exact fun h => absurd (hkind.symm.trans h) (by simp)

/-- The class of a definition is at the path of the unit of its scope. -/
theorem Settled.defined_path (hz : Settled z) (d : Defined z.findings) :
    d.path z = z.units.path (z.scopes.get d.scope).unit := by
  cases d with
  | routine node f record =>
    exact congrArg z.units.path (hz.sound.routines _ (NodeTable.mem_of_find? record)).unit.symm
  | type node f record =>
    have hmem := NodeTable.mem_of_find? record
    rw [Defined.path, (hz.sound.classes _ hmem).path_eq]
    exact congrArg z.units.path (hz.sound.typeFindings _ hmem).unit.symm

/-- Different definitions open different scopes. -/
theorem Settled.defined_node (hz : Settled z) (hf : Finished rootId z) {d d' : Defined z.findings}
    (h : d.scope = d'.scope) : d.node = d'.node := by
  have hclash : ∀ {node node' f f'}, z.findings.routines.find? node = some f →
      z.findings.types.find? node' = some f' → f.scope ≠ f'.scope := by
    intro node node' f f' hr ht heq
    have hrk := (hz.sound.routines _ (NodeTable.mem_of_find? hr)).kind
    have htk := (hz.sound.typeFindings _ (NodeTable.mem_of_find? ht)).kind
    dsimp only at hrk htk
    rw [heq, htk] at hrk
    exact absurd hrk (by simp)
  cases d with
  | routine node f record =>
    cases d' with
    | routine node' f' record' =>
      exact hf.routine_inj _ (NodeTable.mem_of_find? record) _ (NodeTable.mem_of_find? record') h
    | type node' f' record' => exact absurd h (hclash record record')
  | type node f record =>
    cases d' with
    | routine node' f' record' => exact absurd h.symm (hclash record' record)
    | type node' f' record' =>
      exact hf.type_inj _ (NodeTable.mem_of_find? record) _ (NodeTable.mem_of_find? record') h

/-! ## Definitions with free names -/

theorem plain_of_free (h : FreeName (z.scopes.get s).name) : Plain z.scopes s :=
  ⟨h.toIsPart, fun _ => h.token⟩

mutual

theorem plain_stmt (hz : Settled z) : (x : Stmt) → {s : ScopeId} → StmtDone z s x →
    PlainTo z.scopes s → FreelyNamed x.parts → ∀ d ∈ x.defined z.findings, PlainTo z.scopes d.scope
  | .declare _, _, _, _, _ | .define _, _, _, _, _ | .assign _, _, _, _, _ | .call _, _, _, _, _ => by
    rw [Stmt.defined]
    exact List.forall_mem_nil _
  | .branch gs otherwise _, _, h, hs, hq => by
    rw [Stmt.defined, List.forall_mem_append]
    rw [Stmt.parts] at hq
    cases h with
    | branch hgs he =>
      exact ⟨plain_branches hz gs hgs hs (hq.mono (List.subset_append_left _ _)),
        plain_else hz otherwise he hs (hq.mono (List.subset_append_right _ _))⟩
  | .loop g, _, h, hs, hq => by
    rw [Stmt.defined]
    cases h with
    | loop hg => exact plain_guarded hz g hg hs hq
  | .routine r, _, h, hs, hq => by
    rw [Stmt.defined]
    cases h with
    | routine hr => exact plain_routine hz r hr hs hq
  | .type t, _, h, hs, hq => by
    rw [Stmt.defined]
    cases h with
    | type ht => exact plain_type hz t ht hs hq

theorem plain_guarded (hz : Settled z) : (g : Guarded) → {s : ScopeId} → GuardedDone z s g →
    PlainTo z.scopes s → FreelyNamed g.parts → ∀ d ∈ g.defined z.findings, PlainTo z.scopes d.scope
  | ⟨node, condition, body, _⟩, s, h, hs, hq => by
    rw [Guarded.defined]
    cases h with
    | mk record parent kind hc hb =>
      have hblock := hs.child hz.sound.scopes.toWF parent (hz.sound.siblings.plain_block parent kind)
      refine plain_stmts hz body hb hblock (hq.mono fun x hx => ?_)
      exact List.mem_cons_of_mem _ (List.mem_append_right _ hx)

theorem plain_else (hz : Settled z) : (e : Else) → {s : ScopeId} → ElseDone z s e →
    PlainTo z.scopes s → FreelyNamed e.parts → ∀ d ∈ e.defined z.findings, PlainTo z.scopes d.scope
  | .absent, _, _, _, _ => by
    rw [Else.defined]
    exact List.forall_mem_nil _
  | .block node body _, _, h, hs, hq => by
    rw [Else.defined]
    cases h with
    | block record parent kind hb =>
      have hblock := hs.child hz.sound.scopes.toWF parent (hz.sound.siblings.plain_block parent kind)
      exact plain_stmts hz body hb hblock (hq.mono fun x hx => List.mem_cons_of_mem _ hx)

theorem plain_routine (hz : Settled z) : (r : RoutineDef) → {s : ScopeId} → RoutineDone z s r →
    PlainTo z.scopes s → FreelyNamed r.parts → ∀ d ∈ r.defined z.findings, PlainTo z.scopes d.scope
  | ⟨node, name, closing, params, result, body, ret, span⟩, _, h, hs, hq => by
    cases h with
    | @mk _ _ _ _ _ _ _ _ _ f record parent hb hret named =>
      have hfree : FreeName name.name := hq _ List.mem_cons_self _ rfl
      have hinner := hs.child hz.sound.scopes.toWF parent (plain_of_free (named ▸ hfree))
      rw [RoutineDef.defined_some record, List.forall_mem_append, List.forall_mem_singleton]
      refine ⟨plain_stmts hz body hb hinner (hq.mono fun x hx => ?_), hinner⟩
      exact List.mem_cons_of_mem _ (List.mem_append_left _ hx)

theorem plain_type (hz : Settled z) : (t : TypeDef) → {s : ScopeId} → TypeDone z s t →
    PlainTo z.scopes s → FreelyNamed t.parts → ∀ d ∈ t.defined z.findings, PlainTo z.scopes d.scope
  | ⟨node, name, closing, fields, statics, routines, staticRoutines, span⟩, _, h, hs, hq => by
    cases h with
    | mk record parent hfields hstatics hr hsr named =>
      have hfree : FreeName name.name := hq _ List.mem_cons_self _ rfl
      have hinner := hs.child hz.sound.scopes.toWF parent (plain_of_free (named ▸ hfree))
      rw [TypeDef.defined_some record, List.forall_mem_append, List.forall_mem_append,
        List.forall_mem_singleton]
      refine ⟨⟨plain_routines hz routines hr hinner (hq.mono fun x hx => ?_),
        plain_routines hz staticRoutines hsr hinner (hq.mono fun x hx => ?_)⟩, hinner⟩
      · exact List.mem_cons_of_mem _ (List.mem_append_left _ (List.mem_append_right _ hx))
      · exact List.mem_cons_of_mem _ (List.mem_append_right _ hx)

theorem plain_stmts (hz : Settled z) : (xs : List Stmt) → {s : ScopeId} → StmtsDone z s xs →
    PlainTo z.scopes s → FreelyNamed (Stmt.allParts xs) →
      ∀ d ∈ Stmt.allDefined z.findings xs, PlainTo z.scopes d.scope
  | [], _, _, _, _ => by
    rw [Stmt.allDefined]
    exact List.forall_mem_nil _
  | x :: xs, _, h, hs, hq => by
    rw [Stmt.allDefined, List.forall_mem_append]
    rw [Stmt.allParts] at hq
    cases h with
    | cons hx hxs =>
      exact ⟨plain_stmt hz x hx hs (hq.mono (List.subset_append_left _ _)),
        plain_stmts hz xs hxs hs (hq.mono (List.subset_append_right _ _))⟩

theorem plain_branches (hz : Settled z) : (gs : List Guarded) → {s : ScopeId} →
    GuardedAllDone z s gs → PlainTo z.scopes s → FreelyNamed (Guarded.allParts gs) →
      ∀ d ∈ Guarded.allDefined z.findings gs, PlainTo z.scopes d.scope
  | [], _, _, _, _ => by
    rw [Guarded.allDefined]
    exact List.forall_mem_nil _
  | g :: gs, _, h, hs, hq => by
    rw [Guarded.allDefined, List.forall_mem_append]
    rw [Guarded.allParts] at hq
    cases h with
    | cons hg hgs =>
      exact ⟨plain_guarded hz g hg hs (hq.mono (List.subset_append_left _ _)),
        plain_branches hz gs hgs hs (hq.mono (List.subset_append_right _ _))⟩

theorem plain_routines (hz : Settled z) : (rs : List RoutineDef) → {s : ScopeId} →
    RoutinesDone z s rs → PlainTo z.scopes s → FreelyNamed (RoutineDef.allParts rs) →
      ∀ d ∈ RoutineDef.allDefined z.findings rs, PlainTo z.scopes d.scope
  | [], _, _, _, _ => by
    rw [RoutineDef.allDefined]
    exact List.forall_mem_nil _
  | r :: rs, _, h, hs, hq => by
    rw [RoutineDef.allDefined, List.forall_mem_append]
    rw [RoutineDef.allParts] at hq
    cases h with
    | cons hr hrs =>
      exact ⟨plain_routine hz r hr hs (hq.mono (List.subset_append_left _ _)),
        plain_routines hz rs hrs hs (hq.mono (List.subset_append_right _ _))⟩

end

end Analysis

/-! ## Paths -/

namespace Lowering

/-- A path in the directory of a program. -/
def InBin (program path : String) : Prop :=
  ∃ rest, '/' ∉ rest ∧ path.toList = (Units.binDirectoryOf program).toList ++ rest

theorem toList_binDirectoryOf (program : String) :
    (Units.binDirectoryOf program).toList = (program.toList ++ "_bi".toList ++ ['n']) ++ ['/'] := by
  rw [Units.binDirectoryOf, String.toList_append, List.append_assoc, List.append_assoc]
  rfl

/-- The file of a program is in no directory. -/
theorem ofNames_program {program : String} (h : '/' ∉ program.toList) :
    Path.OfNames (fileOfPath program) := by
  have htext : (fileOfPath program).toList = (program.toList ++ ['.']) ++ ['j'] := by
    rw [fileOfPath, String.toList_append, List.append_assoc]
    rfl
  rw [Path.OfNames, htext, Path.pieces_of_notMem]
  · rw [List.forall_mem_singleton]
    exact Path.isName_concat _ (by decide)
  · simp [h]

theorem ofNames_inBin {program path : String} (h : '/' ∉ program.toList)
    (hpath : InBin program path) : Path.OfNames (fileOfPath path) := by
  obtain ⟨rest, hrest, hpath⟩ := hpath
  have htext : (fileOfPath path).toList = (program.toList ++ "_bi".toList ++ ['n']) ++
      '/' :: ((rest ++ ['.']) ++ ['j']) := by
    simp [fileOfPath, hpath, toList_binDirectoryOf]
  rw [Path.OfNames, htext, Path.pieces_append_slash, Path.pieces_of_notMem,
    Path.pieces_of_notMem]
  · rw [List.forall_mem_append, List.forall_mem_singleton, List.forall_mem_singleton]
    exact ⟨Path.isName_concat _ (by decide), Path.isName_concat _ (by decide)⟩
  · simp [hrest]
  · simp [h]

/-- The program itself is not in its directory. -/
theorem not_inBin {program : String} (h : '/' ∉ program.toList) : ¬ InBin program program := by
  rintro ⟨rest, -, hpath⟩
  rw [hpath, toList_binDirectoryOf] at h
  simp at h

section

variable (program : String) {q : Program} (hq : q.nodes.Nodup)
  (h : (analyze program q).errors = []) (hprogram : IsPart program)
  (hnames : FreelyNamed q.parts)

include hq h hprogram hnames

theorem plain_defined : ∀ d ∈ q.defined (analyze program q).findings,
    PlainTo (analyze program q).scopes d.scope := by
  have hz := Analysis.settled_analyze program hq
  refine Analysis.plain_stmts hz q.stmts (Analysis.done_analyze program hq h) ?_ hnames
  intro x hx
  rw [hz.sound.scopes.path_root, List.mem_singleton] at hx
  subst hx
  refine ⟨?_, fun hkind => ?_⟩
  · rw [Analysis.name_root_analyze]
    exact hprogram
  · rw [hz.sound.scopes.root_kind] at hkind
    rcases hkind with hkind | hkind <;> exact absurd hkind (by simp)

/-- The class of a definition is in the directory of the program, under a name with a
separator. -/
theorem defined_inBin : ∀ d ∈ q.defined (analyze program q).findings,
    ∃ rest, '/' ∉ rest ∧ '$' ∈ rest ∧
      (d.path (analyze program q)).toList = (Units.binDirectoryOf program).toList ++ rest := by
  intro d hd
  have hz := Analysis.settled_analyze program hq
  have hplain := plain_defined program hq h hprogram hnames d hd
  obtain ⟨p, hp⟩ := hz.defined_parent d
  have hw := hz.sound.scopes.toWF
  have hparts := (hplain.parent hw hp).names
  refine ⟨lineageText ((analyze program q).scopes.namesTo p) ++
    ((analyze program q).scopes.get d.scope).name.toList, ?_, ?_, ?_⟩
  · rw [List.mem_append, not_or]
    exact ⟨slash_notMem_lineageText hparts, hplain.self.part.slash⟩
  · refine List.mem_append_left _ ?_
    obtain ⟨n, ns, hns⟩ := List.exists_cons_of_ne_nil (namesTo_ne_nil (analyze program q).scopes p)
    rw [hns, lineageText_cons]
    exact List.mem_append_right _ List.mem_cons_self
  · rw [hz.defined_path d, hz.sound.houses.path_eq hz.sound.scopes hp (hz.defined_kind d),
      Analysis.binDirectory_analyze]

theorem nodup_paths (labels : Nat) :
    ((generate (analyze program q) program q labels).classes.map ClassFile.path).Nodup := by
  have hz := Analysis.settled_analyze program hq
  have hplain := plain_defined program hq h hprogram hnames
  have hinside := defined_inBin program hq h hprogram hnames
  have hnodes := Defined.nodup_nodes (g := (analyze program q).findings) hq
  have hbase : '/' ∈ (analyze program q).types.routineBase.toList := by
    rw [Analysis.routineBase_analyze, String.toList_append, toList_binDirectoryOf]
    simp
  rw [paths_generate, List.nodup_cons, List.mem_append, not_or, List.mem_singleton]
  refine ⟨⟨fun hmem => ?_, fun heq => ?_⟩, List.nodup_append'.mpr ⟨?_, List.nodup_singleton _, ?_⟩⟩
  · obtain ⟨d, hd, heq⟩ := List.mem_map.mp hmem
    obtain ⟨rest, hrest, -, hpath⟩ := hinside d hd
    rw [heq] at hpath
    exact not_inBin hprogram.slash ⟨rest, hrest, hpath⟩
  · rw [← heq] at hbase
    exact hprogram.slash hbase
  · refine (List.Nodup.of_map _ hnodes).map_on fun d hd d' hd' heq => ?_
    obtain ⟨p, hp⟩ := hz.defined_parent d
    obtain ⟨p', hp'⟩ := hz.defined_parent d'
    rw [hz.defined_path, hz.defined_path] at heq
    have hscope := hz.sound.houses.path_inj hz.sound.scopes hz.sound.siblings hp hp'
      (hz.defined_kind d) (hz.defined_kind d') (hplain d hd) (hplain d' hd') heq
    exact List.inj_on_of_nodup_map hnodes hd hd'
      (hz.defined_node (Analysis.finished_analyze program hq) hscope)
  · intro path hmem hpath
    obtain rfl := List.mem_singleton.mp hpath
    obtain ⟨d, hd, heq⟩ := List.mem_map.mp hmem
    obtain ⟨rest, -, hsep, hdpath⟩ := hinside d hd
    rw [heq, Analysis.routineBase_analyze, String.toList_append] at hdpath
    rw [← List.append_cancel_left hdpath] at hsep
    exact absurd hsep (by decide)

/-- The files of the classes of a program are paths of names. -/
theorem ofNames_classes (labels : Nat) :
    ∀ path ∈ (generate (analyze program q) program q labels).classes.map ClassFile.path,
      Path.OfNames (fileOfPath path) := by
  rw [paths_generate, List.forall_mem_cons, List.forall_mem_append, List.forall_mem_singleton]
  refine ⟨ofNames_program hprogram.slash, fun path hpath => ?_, ?_⟩
  · obtain ⟨d, hd, rfl⟩ := List.mem_map.mp hpath
    obtain ⟨rest, hrest, -, heq⟩ := defined_inBin program hq h hprogram hnames d hd
    exact ofNames_inBin hprogram.slash ⟨rest, hrest, heq⟩
  · refine ofNames_inBin hprogram.slash ⟨Reserved.routine.toList, by decide, ?_⟩
    rw [Analysis.routineBase_analyze, String.toList_append]

end

/-- Where no name has a separator or a slash in it and no definition is called what a block
is called, the classes of an accepted program are at different paths.  When they are all
written, the file of each holds its text. -/
theorem classes_apart (program : String) {q : Program} (hq : q.nodes.Nodup)
    (h : (analyze program q).errors = []) (hprogram : IsPart program)
    (hnames : FreelyNamed q.parts) (labels : Nat) :
    ((generate (analyze program q) program q labels).classes.map ClassFile.path).Nodup ∧
      ∀ out d d', Build.writeClasses out d
          (generate (analyze program q) program q labels).classes = (d', .ok ()) →
        ∀ c ∈ (generate (analyze program q) program q labels).classes,
          d'.Holds (Build.placeOfClass out c) c.text := by
  have hpaths := nodup_paths program hq h hprogram hnames labels
  refine ⟨hpaths, fun out d d' hwrite => Build.holds_writeClasses ?_ hwrite⟩
  have hfiles := ofNames_classes program hq h hprogram hnames labels
  have hplaces : (generate (analyze program q) program q labels).classes.map
      (Build.placeOfClass out) = ((generate (analyze program q) program q labels).classes.map
        ClassFile.path).map fun path => Disk.placeOf (Path.join out (fileOfPath path)) := by
    rw [List.map_map]
    rfl
  rw [hplaces]
  refine hpaths.map_on fun path hpath path' hpath' heq => ?_
  have hfile := Disk.placeOf_join_inj (hfiles path hpath) (hfiles path' hpath') heq
  rwa [fileOfPath, fileOfPath, String.append_left_inj] at hfile

theorem classes_apart_nested : IsPart "demo" ∧ FreelyNamed nested.parts ∧
    ((generate (analyze "demo" nested) "demo" nested 0).classes.map ClassFile.path).Nodup ∧
      ∃ d', Build.writeClasses "out" {}
          (generate (analyze "demo" nested) "demo" nested 0).classes = (d', .ok ()) ∧
        ∀ c ∈ (generate (analyze "demo" nested) "demo" nested 0).classes,
          d'.Holds (Build.placeOfClass "out" c) c.text := by
  have hprogram : IsPart "demo" := by decide
  have hnames : FreelyNamed nested.parts := freelyNamed_of (by decide +kernel)
  obtain ⟨hpaths, hfiles⟩ := classes_apart "demo" nodup_nested Analysis.errors_nested hprogram
    hnames 0
  have hwrite : ∃ d', Build.writeClasses "out" {}
      (generate (analyze "demo" nested) "demo" nested 0).classes = (d', .ok ()) :=
    Build.exists_of_isOk (by decide +kernel)
  obtain ⟨d', hd⟩ := hwrite
  exact ⟨hprogram, hnames, hpaths, d', hd, hfiles "out" {} d' hd⟩

/-- A program with a routine that is called what its first block is called:

```
routine inner0()
  routine g(integer x)
  end g
end inner0
if true
  routine g()
  end g
end if
```
-/
def clashing : Program := (Draft.build [
  .routine ⟨none, "inner0", [], none, [
    .routine ⟨none, "g", [(.of "integer", "x")], none, [], none, none⟩], none, none⟩,
  .branch none [⟨none, .literal none (.bool true),
    [.routine ⟨none, "g", [], none, [], none, none⟩]⟩] .absent]).1

/-- The class of one routine is written over that of the other. -/
theorem classes_clash : (analyze "demo" clashing).errors = [] ∧
    (∀ x ∈ clashing.parts, ∀ name ∈ x.definedName?, IsPart name) ∧
      ¬ ((generate (analyze "demo" clashing) "demo" clashing 0).classes.map
        ClassFile.path).Nodup := by
  decide +kernel

end Lowering

end Unnest
