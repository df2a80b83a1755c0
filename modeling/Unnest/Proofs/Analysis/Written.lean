import Unnest.Proofs.Analysis.History
import Unnest.Proofs.Types.Unfolding
import Unnest.Tree.Draft

/-!
# Resolving written types

A written type is a tree over names.  Where its names mean types, it means the tree with these
types in place of the names (`WrittenType.meaning`).  `Stands t id u` says that a type of the
table stands for a tree.  It does so for good, whatever is made of the table (`Stands.lasts`),
and types are equal exactly if they stand for the same tree (`Stands.equal_iff`).

A written type resolves to a type that stands for the tree that it means.  On the way every
name in it that means no type is reported, once and in order; nothing else happens to the
tables but that routine types are added.

Types are only ever named when they are types of their own (`TypesNamed`), so what a name in a
written type means stands for itself.
-/

namespace Unnest

namespace WrittenType

variable {names : String → Option TypeId}

mutual

/-- The names in a written type, in the order in which they are written. -/
def leaves : WrittenType → List Ident
  | .named name => [name]
  | .routine params result _ => leavesAll params ++ leavesResult result

/-- The names in written types. -/
def leavesAll : List WrittenType → List Ident
  | [] => []
  | t :: ts => leaves t ++ leavesAll ts

/-- The names in the result, where one is written. -/
def leavesResult : Option WrittenType → List Ident
  | none => []
  | some t => leaves t

end

mutual

/-- The tree that is written, with types in place of the names; `none` if a name means none. -/
def meaning (names : String → Option TypeId) : WrittenType → Option Unfolding
  | .named name => (names name.name).map .atom
  | .routine params result _ =>
    (meaningAll names params).bind fun ps => (meaningResult names result).map (.routine ps)

/-- The trees of written types. -/
def meaningAll (names : String → Option TypeId) : List WrittenType → Option (List Unfolding)
  | [] => some []
  | t :: ts => (meaning names t).bind fun u => (meaningAll names ts).map (u :: ·)

/-- The tree of the result, where one is written. -/
def meaningResult (names : String → Option TypeId) :
    Option WrittenType → Option (Option Unfolding)
  | none => some none
  | some t => (meaning names t).map some

end

mutual

/-- A written type means something exactly if all of its names do. -/
theorem isSome_meaning : (w : WrittenType) →
    ((w.meaning names).isSome = true ↔ ∀ n ∈ w.leaves, (names n.name).isSome = true)
  | .named n => by rw [meaning, Option.isSome_map, leaves, List.forall_mem_singleton]
  | .routine params result _ => by
    rw [leaves, List.forall_mem_append, ← isSome_meaningAll params, ← isSome_meaningResult result,
      meaning]
    cases meaningAll names params <;> simp

theorem isSome_meaningAll : (ws : List WrittenType) →
    ((meaningAll names ws).isSome = true ↔ ∀ n ∈ leavesAll ws, (names n.name).isSome = true)
  | [] => by simp [meaningAll, leavesAll]
  | w :: ws => by
    rw [leavesAll, List.forall_mem_append, ← isSome_meaning w, ← isSome_meaningAll ws, meaningAll]
    cases meaning names w <;> simp

theorem isSome_meaningResult : (w : Option WrittenType) →
    ((meaningResult names w).isSome = true ↔
      ∀ n ∈ leavesResult w, (names n.name).isSome = true)
  | none => by simp [meaningResult, leavesResult]
  | some w => by rw [meaningResult, Option.isSome_map, leavesResult, isSome_meaning w]

end

end WrittenType

namespace TypeTable

variable {t t' : TypeTable} {a b : TypeId} {u v : Unfolding}

/-- A type of the table stands for a tree. -/
structure Stands (t : TypeTable) (a : TypeId) (u : Unfolding) : Prop where
  has : t.Has a
  isTree : t.IsTree a
  unfold : t.unfold a = u

theorem stands_atom (hhas : t.Has a) (hform : t.form a ≠ .routine) : t.Stands a (.atom a) :=
  ⟨hhas, .atom hform, unfold_of_form_ne hform⟩

namespace Stands

/-- Types are equal if and only if they stand for the same tree. -/
theorem equal_iff (h : t.Stands a u) (h' : t.Stands b v) : t.equal a b = true ↔ u = v := by
  rw [h.isTree.equal_iff h'.isTree, h.unfold, h'.unfold]

/-- A type stands for its tree for good. -/
theorem lasts (h : t.Stands a u) (hl : Lasts t t') : t'.Stands a u := by
  obtain ⟨hhas, htree, rfl⟩ := h
  induction htree with
  | atom hform =>
    have hform' := (hl.form _ hhas).trans_ne hform
    rw [unfold_of_form_ne hform]
    exact stands_atom (hl.has hhas) hform'
  | @routine a s hform hs older parts ih =>
    have hget := hl.get a hhas (hform.trans_ne (by decide))
    have hform' := (hl.form a hhas).trans hform
    have hs' : (t'.get a).routines = [s] := hget ▸ hs
    have hparts : ∀ x ∈ signatureTypes s, t'.Stands x (t.unfold x) := fun x hx =>
      ih x hx (Nat.lt_trans (older x hx) hhas)
    have htree' : t'.IsTree a := .routine hform' hs' older fun x hx => (hparts x hx).isTree
    refine ⟨hl.has hhas, htree', ?_⟩
    obtain ⟨hparams, hresult⟩ := map_congr_signatureTypes fun x hx => (hparts x hx).unfold
    rw [htree'.unfold_routine hform' hs', hparams, hresult,
      (IsTree.routine hform hs older parts).unfold_routine hform hs]

end Stands

/-- A type of a list stands for a tree if all of them do. -/
theorem exists_stands {as : List TypeId} {us : List Unfolding}
    (h : List.Forall₂ t.Stands as us) : ∀ x ∈ as, ∃ u, t.Stands x u := by
  induction h with
  | nil => exact List.forall_mem_nil _
  | cons hx _ ih => exact List.forall_mem_cons.mpr ⟨⟨_, hx⟩, ih⟩

theorem lasts_result {a : Option TypeId} {u : Option Unfolding} (h : Option.Rel t.Stands a u)
    (hl : Lasts t t') : Option.Rel t'.Stands a u := by
  cases h with
  | none => exact .none
  | some h => exact .some (h.lasts hl)

theorem map_unfold {as : List TypeId} {us : List Unfolding} (h : List.Forall₂ t.Stands as us) :
    as.map t.unfold = us := by
  induction h with
  | nil => rfl
  | cons hx _ ih => rw [List.map_cons, hx.unfold, ih]

theorem map_unfold_result {a : Option TypeId} {u : Option Unfolding}
    (h : Option.Rel t.Stands a u) : a.map t.unfold = u := by
  cases h with
  | none => rfl
  | some h => exact congrArg some h.unfold

/-- A routine type that is made over types that stand for trees. -/
theorem stands_addRoutineType {params : List TypeId} {result : Option TypeId}
    {us : List Unfolding} {r : Option Unfolding} (hparams : List.Forall₂ t.Stands params us)
    (hresult : Option.Rel t.Stands result r) :
    (t.addRoutineType params result).2.Stands (t.addRoutineType params result).1
      (.routine us r) := by
  have hl : Lasts t (t.addRoutineType params result).2 := lasts_add t _
  have hget := get_add_new t (.ofSignatures [⟨Reserved.call, params, result⟩])
  have hs : ((t.addRoutineType params result).2.get ⟨t.size⟩).routines =
      [⟨Reserved.call, params, result⟩] := congrArg TypeDecl.routines hget
  have hform : (t.addRoutineType params result).2.form ⟨t.size⟩ = .routine :=
    congrArg TypeDecl.form hget
  have hold : ∀ x ∈ signatureTypes ⟨Reserved.call, params, result⟩, ∃ u, t.Stands x u := by
    refine List.forall_mem_append.mpr ⟨exists_stands hparams, fun x hx => ?_⟩
    cases hresult with
    | none => exact absurd hx List.not_mem_nil
    | some h => exact ⟨_, List.mem_singleton.mp hx ▸ h⟩
  have htree : (t.addRoutineType params result).2.IsTree ⟨t.size⟩ :=
    .routine hform hs (fun x hx => (hold x hx).choose_spec.has) fun x hx =>
      ((hold x hx).choose_spec.lasts hl).isTree
  refine ⟨has_of_routine hform, htree, ?_⟩
  have hparams' := map_unfold (hparams.imp fun _ _ h => h.lasts hl)
  have hresult' := map_unfold_result (lasts_result hresult hl)
  exact (htree.unfold_routine hform hs).trans (by rw [hparams', hresult'])

end TypeTable

namespace Analysis

open Analyze TypeTable

variable {α β : Type} {P : Permit} {a b : Analysis} {program : String} {q : Program}

/-! ## Named types -/

/-- What names mean as types are types of their own. -/
def TypesNamed (a : Analysis) : Prop :=
  ∀ s, ∀ e ∈ (a.scopes.get s).types, a.types.Has e.2 ∧ a.types.form e.2 ≠ .routine

theorem typesNamed_blank (program : String) : TypesNamed (blank program) := by
  intro s e he
  by_cases hs : (blank program).scopes.Has s
  · obtain rfl := Scopes.has_root hs
    exact absurd he List.not_mem_nil
  · rw [Scopes.get_of_not_has hs] at he
    exact absurd he List.not_mem_nil

theorem mem_types_of_declareType {t t' : Scopes} {s x : ScopeId} {name : String} {type : TypeId}
    {span : Span} (h : t.declareType s name type span = .ok t') {e : String × TypeId}
    (he : e ∈ (t'.get x).types) : e ∈ (t.get x).types ∨ e.2 = type := by
  have hd := Scopes.typeDeclared_of_declareType h
  by_cases heq : s = x
  · subst heq
    by_cases hs : t.Has s
    · rw [hd.types hs, List.mem_append, List.mem_singleton] at he
      exact he.imp_right (congrArg Prod.snd)
    · rw [Scopes.get_of_not_has (by rwa [Scopes.Has, hd.size_eq])] at he
      exact absurd he List.not_mem_nil
  · rw [(hd.agrees x heq).types] at he
    exact .inl he

theorem Change.typesNamed (h : Change P a b) (ha : TypesNamed a) : TypesNamed b := by
  cases h with
  | aside types _ _ named =>
    intro s e he
    rw [types]
    exact ha s e (named s ▸ he)
  | declareType has form h =>
    intro s e he
    rcases mem_types_of_declareType h he with he | rfl
    · exact ha s e he
    · exact ⟨has, form⟩
  | record | complete => exact ha
  | types h =>
    intro s e he
    obtain ⟨has, form⟩ := ha s e he
    exact ⟨h.lasts.has has, (h.lasts.form _ has).trans_ne form⟩

theorem Changes.typesNamed (h : Changes P a b) (ha : TypesNamed a) : TypesNamed b := by
  induction h with
  | refl => exact ha
  | tail _ h ih => exact h.typesNamed ih

/-- The current scope gives names these meanings, and they are types of their own. -/
structure Reads (names : String → Option TypeId) (a : Analysis) : Prop where
  resolveType : ∀ n, a.scopes.resolveType a.current n = names n
  atom : ∀ n id, names n = some id → a.types.Stands id (.atom id)

theorem TypesNamed.reads (h : TypesNamed a) : Reads (a.scopes.resolveType a.current) a := by
  refine ⟨fun _ => rfl, fun n id hid => ?_⟩
  obtain ⟨x, -, hx⟩ := List.exists_of_findSome?_eq_some hid
  obtain ⟨e, he, rfl⟩ := Option.map_eq_some_iff.mp hx
  obtain ⟨has, form⟩ := h x e (List.mem_of_find?_eq_some he)
  exact stands_atom has form

/-! ## Resolving -/

/-- The errors about names that mean no type. -/
def notFound (names : String → Option TypeId) (leaves : List Ident) : List SemanticError :=
  (leaves.filter fun n => (names n.name).isNone).map fun n => ⟨.typeNotFound n.name, n.span⟩

theorem notFound_append (names : String → Option TypeId) (xs ys : List Ident) :
    notFound names (xs ++ ys) = notFound names xs ++ notFound names ys := by
  rw [notFound, List.filter_append, List.map_append, notFound, notFound]

/-- Types are added, and that is all. -/
structure AddsTypes (t t' : TypeTable) : Prop where
  lasts : t.Lasts t'
  get : ∀ id, t.Has id → t'.get id = t.get id
  kept : t'.memberTypes = t.memberTypes
  base : t'.routineBase = t.routineBase

theorem AddsTypes.refl (t : TypeTable) : AddsTypes t t := ⟨.refl t, fun _ _ => rfl, rfl, rfl⟩

theorem AddsTypes.trans {t t' t'' : TypeTable} (h : AddsTypes t t') (h' : AddsTypes t' t'') :
    AddsTypes t t'' :=
  ⟨h.lasts.trans h'.lasts, fun id hid => (h'.get id (h.lasts.has hid)).trans (h.get id hid),
    h'.kept.trans h.kept, h'.base.trans h.base⟩

theorem addsTypes_add (t : TypeTable) (d : TypeDecl) : AddsTypes t (t.add d).2 :=
  ⟨lasts_add t d, fun _ hid => get_add_old d hid, rfl, rfl⟩

/-- What resolving comes to: the names that mean no type are reported, types are added, and
there is a result if there is a meaning, which the result stands for. -/
structure Resolves (names : String → Option TypeId) (leaves : List Ident)
    (R : TypeTable → α → β → Prop) (meaning : Option β) (a : Analysis) (x : Option α × Analysis) :
    Prop where
  scopes : x.2.scopes = a.scopes
  units : x.2.units = a.units
  findings : x.2.findings = a.findings
  current : x.2.current = a.current
  errors : x.2.errors = a.errors ++ notFound names leaves
  types : AddsTypes a.types x.2.types
  result : Option.Rel (R x.2.types) x.1 meaning

section Resolving

variable {γ δ : Type} {names : String → Option TypeId} {xs ys : List Ident}
  {R : TypeTable → α → β → Prop} {S : TypeTable → γ → δ → Prop} {meaning : Option β}
  {meaning' : Option δ} {x : Option α × Analysis} {y : Option γ × Analysis}

theorem Resolves.reads (h : Resolves names xs R meaning a x) (ha : Reads names a) :
    Reads names x.2 := by
  refine ⟨fun n => ?_, fun n id hid => (ha.atom n id hid).lasts h.types.lasts⟩
  rw [h.scopes, h.current]
  exact ha.resolveType n

/-- Nothing is resolved. -/
theorem resolves_nothing {z : α} {u : β} (h : R a.types z u) :
    Resolves names [] R (some u) a (some z, a) :=
  ⟨rfl, rfl, rfl, rfl, (List.append_nil _).symm, .refl _, .some h⟩

/-- One part is resolved after another, and something is made of both. -/
theorem Resolves.after {ε ζ : Type} {T : TypeTable → ε → ζ → Prop} {z : Option ε × Analysis}
    {w : Option ζ} (h : Resolves names xs R meaning a x) (h' : Resolves names ys S meaning' x.2 y)
    (hz : Resolves names [] T w y.2 z) : Resolves names (xs ++ ys) T w a z where
  scopes := hz.scopes.trans (h'.scopes.trans h.scopes)
  units := hz.units.trans (h'.units.trans h.units)
  findings := hz.findings.trans (h'.findings.trans h.findings)
  current := hz.current.trans (h'.current.trans h.current)
  errors := by
    rw [hz.errors, h'.errors, h.errors, notFound_append]
    exact (List.append_nil _).trans (List.append_assoc _ _ _)
  types := h.types.trans (h'.types.trans hz.types)
  result := hz.result

theorem resolves_none {T : TypeTable → γ → δ → Prop} :
    Resolves names [] T none a (none, a) :=
  ⟨rfl, rfl, rfl, rfl, (List.append_nil _).symm, .refl _, .none⟩

end Resolving

section Trees

variable {names : String → Option TypeId}

theorem resolves_named (ha : Reads names a) (n : Ident) :
    Resolves names [n] Stands ((names n.name).map .atom) a ((resolve (.named n)).run a) := by
  have hrun : (resolve (.named n)).run a = StateT.run (do
      if (names n.name).isNone then report (.typeNotFound n.name) n.span
      return names n.name : Analyze (Option TypeId)) a := by
    rw [← ha.resolveType n.name]
    rfl
  rw [hrun]
  cases hn : names n.name with
  | none =>
    refine ⟨rfl, rfl, rfl, rfl, ?_, .refl _, .none⟩
    rw [notFound, List.filter_cons_of_pos (by rw [hn]; rfl)]
    rfl
  | some id =>
    refine ⟨rfl, rfl, rfl, rfl, ?_, .refl _, .some (ha.atom n.name id hn)⟩
    rw [notFound, List.filter_cons_of_neg (by rw [hn]; exact Bool.false_ne_true)]
    exact (List.append_nil _).symm

theorem resolves_addRoutineType {ps : List TypeId} {r : Option TypeId} {us : List Unfolding}
    {u : Option Unfolding} (hps : List.Forall₂ a.types.Stands ps us)
    (hr : Option.Rel a.types.Stands r u) :
    Resolves names [] Stands (some (.routine us u)) a
      (some (a.types.addRoutineType ps r).1,
        { a with types := (a.types.addRoutineType ps r).2 }) :=
  ⟨rfl, rfl, rfl, rfl, (List.append_nil _).symm, addsTypes_add a.types _,
    .some (stands_addRoutineType hps hr)⟩

mutual

/-- A written type is resolved to a type that stands for its tree. -/
theorem resolves_resolve : (w : WrittenType) → {a : Analysis} → Reads names a →
    Resolves names w.leaves Stands (w.meaning names) a ((resolve w).run a)
  | .named n, _, ha => resolves_named ha n
  | .routine params result _, a, ha => by
    have hparams := resolves_resolveAll params ha
    obtain ⟨ps, b, hrun⟩ : ∃ ps b, (resolveAll params).run a = (ps, b) := ⟨_, _, rfl⟩
    rw [hrun] at hparams
    have hresult := resolves_resolveResult result (hparams.reads ha)
    obtain ⟨r, c, hrun'⟩ : ∃ r c, (resolveResult result).run b = (r, c) := ⟨_, _, rfl⟩
    rw [hrun'] at hresult
    rw [resolve, run_bind_of hrun, run_bind_of hrun', WrittenType.leaves, WrittenType.meaning]
    -- The result is resolved and reported about whether the parameters have types or not.
    refine hparams.after hresult ?_
    have hps : Option.Rel _ ps _ := hparams.result
    have hr : Option.Rel _ r _ := hresult.result
    generalize WrittenType.meaningAll names params = us at hps
    generalize WrittenType.meaningResult names result = u at hr
    cases hps with
    | none => exact resolves_none
    | some hps =>
      cases hr with
      | none => exact resolves_none
      | some hr =>
        exact resolves_addRoutineType (hps.imp fun _ _ h => h.lasts hresult.types.lasts) hr

theorem resolves_resolveAll : (ws : List WrittenType) → {a : Analysis} → Reads names a →
    Resolves names (WrittenType.leavesAll ws) (fun t => List.Forall₂ t.Stands)
      (WrittenType.meaningAll names ws) a ((resolveAll ws).run a)
  | [], _, _ => resolves_nothing .nil
  | w :: ws, a, ha => by
    have hfirst := resolves_resolve w ha
    obtain ⟨r, b, hrun⟩ : ∃ r b, (resolve w).run a = (r, b) := ⟨_, _, rfl⟩
    rw [hrun] at hfirst
    have hrest := resolves_resolveAll ws (hfirst.reads ha)
    obtain ⟨rs, c, hrun'⟩ : ∃ rs c, (resolveAll ws).run b = (rs, c) := ⟨_, _, rfl⟩
    rw [hrun'] at hrest
    rw [resolveAll, run_bind_of hrun, run_bind_of hrun', WrittenType.leavesAll,
      WrittenType.meaningAll]
    refine hfirst.after hrest ?_
    have hr : Option.Rel _ r _ := hfirst.result
    have hrs : Option.Rel _ rs _ := hrest.result
    generalize WrittenType.meaning names w = u at hr
    generalize WrittenType.meaningAll names ws = us at hrs
    cases hr with
    | none => exact resolves_none
    | some hr =>
      cases hrs with
      | none => exact resolves_none
      | some hrs => exact resolves_nothing (.cons (hr.lasts hrest.types.lasts) hrs)

theorem resolves_resolveResult : (w : Option WrittenType) → {a : Analysis} → Reads names a →
    Resolves names (WrittenType.leavesResult w) (fun t => Option.Rel t.Stands)
      (WrittenType.meaningResult names w) a ((resolveResult w).run a)
  | none, _, _ => resolves_nothing .none
  | some w, a, ha => by
    have h := resolves_resolve w ha
    obtain ⟨r, b, hrun⟩ : ∃ r b, (resolve w).run a = (r, b) := ⟨_, _, rfl⟩
    rw [hrun] at h
    rw [resolveResult, run_bind_of hrun, WrittenType.leavesResult, WrittenType.meaningResult]
    refine ⟨h.scopes, h.units, h.findings, h.current, h.errors, h.types, ?_⟩
    have hr : Option.Rel _ r _ := h.result
    generalize WrittenType.meaning names w = u at hr
    cases hr with
    | none => exact .none
    | some hr => exact .some (.some hr)

end

end Trees

/-! ## Written types in an analysis -/

/-- The tree that a written type means in the current scope. -/
def meaningOf (a : Analysis) (w : WrittenType) : Option Unfolding :=
  w.meaning (a.scopes.resolveType a.current)

/-- What resolving a written type comes to. -/
structure ResolvedExactly (a : Analysis) (w : WrittenType) (x : Option TypeId × Analysis) :
    Prop where
  /-- One error for each name that means no type, in the order in which they are written. -/
  errors : x.2.errors = a.errors ++
    (w.leaves.filter fun n => (a.scopes.resolveType a.current n.name).isNone).map
      fun n => ⟨.typeNotFound n.name, n.span⟩
  isSome_iff : x.1.isSome = true ↔
    ∀ n ∈ w.leaves, (a.scopes.resolveType a.current n.name).isSome = true
  /-- The type stands for the tree that is written. -/
  unfold : x.1.map x.2.types.unfold = a.meaningOf w
  scopes : x.2.scopes = a.scopes
  units : x.2.units = a.units
  findings : x.2.findings = a.findings
  current : x.2.current = a.current
  types : ∀ id, a.types.Has id → x.2.types.get id = a.types.get id
  memberTypes : x.2.types.memberTypes = a.types.memberTypes

theorem Attained.resolves (h : Attained program q a) (w : WrittenType) :
    Resolves (a.scopes.resolveType a.current) w.leaves Stands (a.meaningOf w) a
      ((resolve w).run a) :=
  resolves_resolve w (h.before.typesNamed (typesNamed_blank program)).reads

theorem Resolves.exactly {w : WrittenType} {x : Option TypeId × Analysis}
    (h : Resolves (a.scopes.resolveType a.current) w.leaves Stands (a.meaningOf w) a x) :
    ResolvedExactly a w x where
  errors := h.errors
  isSome_iff := by
    rw [← WrittenType.isSome_meaning, ← meaningOf]
    have hresult := h.result
    generalize a.meaningOf w = u at hresult
    generalize x.1 = r at hresult
    cases hresult <;> exact Iff.rfl
  unfold := map_unfold_result h.result
  scopes := h.scopes
  units := h.units
  findings := h.findings
  current := h.current
  types := h.types.get
  memberTypes := h.types.kept

/-- The type that a written type is resolved to stands for its tree from then on. -/
theorem Resolves.stands {w : WrittenType} {x : Option TypeId × Analysis} {id : TypeId}
    (h : Resolves (a.scopes.resolveType a.current) w.leaves Stands (a.meaningOf w) a x)
    (hid : x.1 = some id) (hb : Changes P x.2 b) :
    ∃ u, a.meaningOf w = some u ∧ b.types.Stands id u := by
  have hresult := h.result
  rw [hid] at hresult
  generalize a.meaningOf w = u at hresult
  cases hresult with
  | some hs => exact ⟨_, rfl, hs.lasts hb.lasts⟩

/-- In every state of an analysis a written type is resolved exactly.  Types that written types
are resolved to, wherever that is, are equal from then on if and only if the same trees are
written: for two that the program has, at the end of the analysis. -/
theorem Attained.resolve_exact (h : Attained program q a) (w : WrittenType) :
    ResolvedExactly a w ((resolve w).run a) ∧
    ∀ {a' : Analysis} {w' : WrittenType} {id id' : TypeId}, Attained program q a' →
      ((resolve w).run a).1 = some id → ((resolve w').run a').1 = some id' →
      (∀ b, Changes .both ((resolve w).run a).2 b → Changes .both ((resolve w').run a').2 b →
        (b.types.equal id id' = true ↔ a.meaningOf w = a'.meaningOf w')) ∧
      (Reached program q (.resolve w) a → Reached program q (.resolve w') a' →
        ((analyze program q).types.equal id id' = true ↔ a.meaningOf w = a'.meaningOf w')) := by
  refine ⟨(h.resolves w).exactly, fun {a' w' id id'} h' hid hid' => ?_⟩
  have hequal : ∀ b, Changes .both ((resolve w).run a).2 b →
      Changes .both ((resolve w').run a').2 b →
        (b.types.equal id id' = true ↔ a.meaningOf w = a'.meaningOf w') := by
    intro b hb hb'
    obtain ⟨u, hu, hs⟩ := (h.resolves w).stands hid hb
    obtain ⟨u', hu', hs'⟩ := (h'.resolves w').stands hid' hb'
    rw [hs.equal_iff hs', hu, hu', Option.some.injEq]
  exact ⟨hequal, fun hr hr' => hequal _ hr.history.after hr'.history.after⟩

/--
A routine type is written twice, and once with names that mean no type:
```
routine(integer) string f
routine(integer) string g
routine(missing, routine(integer) gone) h
```
-/
def routineTypes : Program := (Draft.build [
  .declare ⟨none, .routine none [.named none "integer"] (some (.named none "string")), ["f"]⟩,
  .declare ⟨none, .routine none [.named none "integer"] (some (.named none "string")), ["g"]⟩,
  .declare ⟨none, .routine none [.named none "missing",
    .routine none [.named none "integer"] (some (.named none "gone"))] none, ["h"]⟩]).1

/-- Whether a call resolves a written type, and with such a result. -/
def Call.resolves (p : Option TypeId → Analysis → Bool) : Call → Bool
  | (.resolve w, a) => p ((Analyze.resolve w).run a).1 ((Analyze.resolve w).run a).2
  | _ => false

theorem Reached.exists_resolve {is : List Nat} {p : Option TypeId → Analysis → Bool}
    (h : (Task.follow is (.stmts q.stmts, initial program)).any (Call.resolves p) = true) :
    ∃ w a, Reached program q (.resolve w) a ∧
      p ((Analyze.resolve w).run a).1 ((Analyze.resolve w).run a).2 = true := by
  obtain ⟨T, a, hT, hp⟩ := Reached.exists_call h
  cases T with
  | resolve w => exact ⟨w, a, hT, hp⟩
  | _ => exact absurd hp Bool.false_ne_true

/-- The two types are equal, since the same tree is written, and the third is none. -/
theorem resolve_exact_routineTypes : (∃ w a w' a', Reached "demo" routineTypes (.resolve w) a ∧
      Reached "demo" routineTypes (.resolve w') a' ∧
      ((resolve w).run a).1 = some ⟨6⟩ ∧ ((resolve w').run a').1 = some ⟨7⟩ ∧
      (analyze "demo" routineTypes).types.equal ⟨6⟩ ⟨7⟩ = true ∧
      a.meaningOf w = a'.meaningOf w') ∧
    ∃ w a, Reached "demo" routineTypes (.resolve w) a ∧ ResolvedExactly a w ((resolve w).run a) ∧
      ((resolve w).run a).1 = none ∧ ((resolve w).run a).2.errors.length = 2 := by
  have hfirst : (Task.follow [0, 0, 0] (.stmts routineTypes.stmts, initial "demo")).any
      (Call.resolves fun r _ => r == some ⟨6⟩) = true := by
    decide +kernel
  have hsecond : (Task.follow [1, 0, 0, 0] (.stmts routineTypes.stmts, initial "demo")).any
      (Call.resolves fun r _ => r == some ⟨7⟩) = true := by
    decide +kernel
  have hthird : (Task.follow [1, 1, 0, 0, 0] (.stmts routineTypes.stmts, initial "demo")).any
      (Call.resolves fun r b => r == none && b.errors.length == 2) = true := by
    decide +kernel
  have hequal : (analyze "demo" routineTypes).types.equal ⟨6⟩ ⟨7⟩ = true := by decide +kernel
  obtain ⟨w, a, hw, hid⟩ := Reached.exists_resolve hfirst
  obtain ⟨w', a', hw', hid'⟩ := Reached.exists_resolve hsecond
  obtain ⟨v, c, hv, hp⟩ := Reached.exists_resolve hthird
  obtain ⟨hnone, hlength⟩ := (Bool.and_eq_true_iff).mp hp
  refine ⟨⟨w, a, w', a', hw, hw', eq_of_beq hid, eq_of_beq hid', hequal, ?_⟩,
    v, c, hv, ((Attained.start hv).resolve_exact v).1, eq_of_beq hnone, eq_of_beq hlength⟩
  have hiff := (((Attained.start hw).resolve_exact w).2 (.start hw') (eq_of_beq hid)
    (eq_of_beq hid')).2 hw hw'
  exact hiff.mp hequal

end Analysis

end Unnest
