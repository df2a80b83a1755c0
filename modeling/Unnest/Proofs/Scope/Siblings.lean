import Mathlib.Data.List.Nodup
import Unnest.Proofs.Scope.Growth

/-!
# Siblings

Definitions that stand in one scope have different names, and so do the blocks in it.  A
routine has the name of a value that the scope around it declares, a type has that of a
type, and a block has one of the tokens that were given out (`Claims`).  Since a scope
declares a name once, a name that it has just declared is that of no scope inside
(`Declared.fits`, `TypeDeclared.fits`), and `Siblings` stays as it is when the next scope
is opened.

Between a definition and a block nothing of the kind holds: a routine may be called what
the first block is called.
-/

namespace Unnest.Scopes

/-- The number that decimal digits stand for. -/
def readDecimal (cs : List Char) : Nat := cs.foldl (fun n c => 10 * n + (c.toNat - 48)) 0

theorem toNat_digitChar : ∀ d < 10, (Nat.digitChar d).toNat - 48 = d := by decide

theorem readDecimal_toDigits (n : Nat) : readDecimal (Nat.toDigits 10 n) = n := by
  induction n using Nat.strongRecOn with
  | _ n ih =>
    rcases Nat.lt_or_ge n 10 with h | h
    · rw [Nat.toDigits_of_lt_base h, readDecimal, List.foldl_cons, List.foldl_nil,
        toNat_digitChar n h, Nat.mul_zero, Nat.zero_add]
    · rw [Nat.toDigits_of_base_le (by decide) h, readDecimal, List.foldl_append, ← readDecimal,
        ih _ (Nat.div_lt_self (by omega) (by decide)), List.foldl_cons, List.foldl_nil,
        toNat_digitChar _ (Nat.mod_lt _ (by decide))]
      omega

/-- The token of a block. -/
def blockToken (k : Nat) : String := s!"inner{k}"

theorem toList_blockToken (k : Nat) :
    (blockToken k).toList = "inner".toList ++ Nat.toDigits 10 k := by
  rw [blockToken, ← Nat.toList_repr]
  exact String.toList_append

/-- A token is made of letters and digits. -/
theorem notMem_blockToken (k : Nat) {c : Char} (hletter : c ∉ "inner".toList)
    (hdigit : c.isDigit = false) : c ∉ (blockToken k).toList := by
  rw [toList_blockToken, List.mem_append, not_or]
  refine ⟨hletter, fun h => ?_⟩
  rw [Nat.isDigit_of_mem_toDigits (by decide) (by decide) h] at hdigit
  exact absurd hdigit (by decide)

theorem blockToken_inj {j k : Nat} (h : blockToken j = blockToken k) : j = k := by
  simp only [blockToken, Nat.toString_eq_repr, String.append_right_inj] at h
  rw [← readDecimal_toDigits j, ← readDecimal_toDigits k, ← Nat.toList_repr, h, Nat.toList_repr]

/-- Where a scope inside `s` can have its name from. -/
def Claims (s : Scope) (kind : ScopeKind) (name : String) : Prop :=
  match kind with
  | .routine => ∃ b ∈ s.entries, b.name = name
  | .type => ∃ e ∈ s.types, e.1 = name
  | .block => ∃ k < s.blockCount, name = blockToken k
  | .main | .fieldInit => True

/-- Scopes whose names must differ if they are inside one scope. -/
def Rivals (kind kind' : ScopeKind) : Prop :=
  kind = .block ∧ kind' = .block ∨
    (kind = .routine ∨ kind = .type) ∧ (kind' = .routine ∨ kind' = .type)

/-- A name that a scope inside `s` can get. -/
structure Fits (t : Scopes) (s : ScopeId) (kind : ScopeKind) (name : String) : Prop where
  claims : Claims (t.get s) kind name
  free : ∀ c, t.parent c = some s → Rivals (t.get c).kind kind → (t.get c).name ≠ name

/-- Scopes have their names from the scopes around them, and differ by them.  One scope has
none around it. -/
structure Siblings (t : Scopes) : Prop where
  alone : ∀ s, t.Has s → t.parent s = none → s = rootId
  once : ∀ s, ((t.get s).entries.map (·.name)).Nodup
  claimed : ∀ c p, t.parent c = some p → Claims (t.get p) (t.get c).kind (t.get c).name
  apart : ∀ c d p, t.parent c = some p → t.parent d = some p →
    Rivals (t.get c).kind (t.get d).kind → (t.get c).name = (t.get d).name → c = d

variable {t t' : Scopes} {s c p : ScopeId} {b b' : Binding} {name : String}

theorem Rivals.symm {kind kind' : ScopeKind} (h : Rivals kind kind') : Rivals kind' kind :=
  h.imp And.symm And.symm

/-! ## Blocks are counted -/

theorem blockCount_update {f : Scope → Scope} (hf : ∀ x, (f x).blockCount = x.blockCount)
    (t : Scopes) (s j : ScopeId) : ((t.update s f).get j).blockCount = (t.get j).blockCount :=
  get_update_congr Scope.blockCount hf t s j

theorem blockCount_capture (t : Scopes) (s : ScopeId) (b : Binding) (owner j : ScopeId) :
    ((t.capture s b owner).get j).blockCount = (t.get j).blockCount :=
  get_capture_congr Scope.blockCount (fun _ _ => rfl) t s b owner j

theorem blockCount_declare {span : Span} (h : t.declare s b span = .ok (b', t')) (j : ScopeId) :
    (t'.get j).blockCount = (t.get j).blockCount :=
  get_declare_congr Scope.blockCount (fun _ _ => rfl) (fun _ _ => rfl) h j

theorem blockCount_declareType {type : TypeId} {span : Span}
    (h : t.declareType s name type span = .ok t') (j : ScopeId) :
    (t'.get j).blockCount = (t.get j).blockCount :=
  get_declareType_congr Scope.blockCount (fun _ _ => rfl) h j

theorem blockCount_nextBlockName (hs : t.Has s) (j : ScopeId) :
    ((t.nextBlockName s).2.get j).blockCount =
      (t.get j).blockCount + if s = j then 1 else 0 := by
  rw [nextBlockName]
  by_cases hj : s = j
  · subst hj
    rw [if_pos rfl, get_update_self hs]
  · rw [if_neg hj, get_update_of_ne hj, Nat.add_zero]

theorem blockCount_openMember (t : Scopes) (parent : ScopeId) (kind : ScopeKind) (unit : UnitId)
    (memberOf : Option TypeId) (isStatic : Bool) {j : ScopeId} (hj : t.Has j) :
    ((t.openMember parent kind name unit memberOf isStatic).get j).blockCount =
      (t.get j).blockCount := by
  rw [openMember, markMember, blockCount_update]
  · exact get_openScope_congr parent kind name unit Scope.blockCount (fun _ _ => rfl) hj
  · exact fun _ => rfl

/-! ## Names -/

theorem Claims.mono {s s' : Scope} {kind : ScopeKind} (h : Claims s kind name)
    (hentries : s.entries <+: s'.entries) (htypes : s.types <+: s'.types)
    (hcount : s.blockCount ≤ s'.blockCount) : Claims s' kind name := by
  cases kind with
  | routine =>
    obtain ⟨b, hb, hname⟩ := h
    exact ⟨b, hentries.subset hb, hname⟩
  | type =>
    obtain ⟨e, he, hname⟩ := h
    exact ⟨e, htypes.subset he, hname⟩
  | block =>
    obtain ⟨k, hk, hname⟩ := h
    exact ⟨k, Nat.lt_of_lt_of_le hk hcount, hname⟩
  | main | fieldInit => trivial

/-- When a scope is opened under a name that fits, scopes inside one scope still differ. -/
theorem Siblings.extend (h : Siblings t) (hw : t.WF) (hx : Extends t t')
    (honce : ∀ s, ((t'.get s).entries.map (·.name)).Nodup)
    (hcount : ∀ j, t.Has j → (t.get j).blockCount ≤ (t'.get j).blockCount)
    (hnew : ∀ c, t'.Has c → ¬ t.Has c →
      c.index = t.size ∧ ∃ s, t'.parent c = some s ∧ t.Has s ∧
        Fits t s (t'.get c).kind (t'.get c).name) : Siblings t' := by
  have hold : ∀ {c p}, t'.parent c = some p → t.Has c → t.parent c = some p := fun hp hc =>
    (hx.parent_eq hc).symm.trans hp
  have hmono : ∀ {p kind name}, t.Has p → Claims (t.get p) kind name →
      Claims (t'.get p) kind name := fun hp hc =>
    hc.mono (hx.entries _ hp) (hx.types _ hp) (hcount _ hp)
  have hclash : ∀ {c d p}, t'.parent c = some p → t'.parent d = some p → t.Has c → ¬ t.Has d →
      Rivals (t'.get c).kind (t'.get d).kind → (t'.get c).name ≠ (t'.get d).name := by
    intro c d p hc hd hcold hdnew hrivals
    obtain ⟨-, s, hs, -, hfits⟩ := hnew d (has_of_parent hd) hdnew
    obtain rfl := Option.some.inj (hd.symm.trans hs)
    have hhead := hx.head c hcold
    rw [hhead.kind] at hrivals
    rw [hhead.name]
    exact hfits.free c (hold hc hcold) hrivals
  refine ⟨fun c hc hroot => ?_, honce, fun c p hp => ?_, fun c d p hc hd hrivals hname => ?_⟩
  · by_cases hcold : t.Has c
    · exact h.alone c hcold ((hx.parent_eq hcold).symm.trans hroot)
    · obtain ⟨-, s, hs, -⟩ := hnew c hc hcold
      exact absurd (hs.symm.trans hroot) (by simp)
  · by_cases hcold : t.Has c
    · have hhead := hx.head c hcold
      have hpold := hold hp hcold
      rw [hhead.kind, hhead.name]
      exact hmono (hw.has_parent hpold) (h.claimed c p hpold)
    · obtain ⟨-, s, hs, hsold, hfits⟩ := hnew c (has_of_parent hp) hcold
      obtain rfl := Option.some.inj (hp.symm.trans hs)
      exact hmono hsold hfits.claims
  · by_cases hcold : t.Has c <;> by_cases hdold : t.Has d
    · have hchead := hx.head c hcold
      have hdhead := hx.head d hdold
      rw [hchead.kind, hdhead.kind] at hrivals
      rw [hchead.name, hdhead.name] at hname
      exact h.apart c d p (hold hc hcold) (hold hd hdold) hrivals hname
    · exact absurd hname (hclash hc hd hcold hdold hrivals)
    · exact absurd hname.symm (hclash hd hc hdold hcold hrivals.symm)
    · obtain ⟨i⟩ := c
      obtain ⟨j⟩ := d
      have hi : i = t.size := (hnew _ (has_of_parent hc) hcold).1
      have hj : j = t.size := (hnew _ (has_of_parent hd) hdold).1
      rw [hi, hj]

/-- A change that opens no scope. -/
theorem Siblings.same (h : Siblings t) (hw : t.WF) (hx : Extends t t') (hsize : t'.size = t.size)
    (honce : ∀ s, ((t'.get s).entries.map (·.name)).Nodup)
    (hcount : ∀ j, t.Has j → (t.get j).blockCount ≤ (t'.get j).blockCount) : Siblings t' :=
  h.extend hw hx honce hcount fun c hc hnot => absurd (by rwa [Has, hsize] at hc) hnot

/-- A change that declares no value. -/
theorem Siblings.entries_once (h : Siblings t) (s : ScopeId)
    (hs : (t'.get s).entries = (t.get s).entries ∨ (t'.get s).entries = []) :
    ((t'.get s).entries.map (·.name)).Nodup := by
  rcases hs with hs | hs
  · rw [hs]
    exact h.once s
  · rw [hs]
    exact List.nodup_nil

/-- Only a name that is new in its scope is declared. -/
theorem Declared.entries_once (hd : Declared t s b b' t') (h : Siblings t) (x : ScopeId) :
    ((t'.get x).entries.map (·.name)).Nodup := by
  by_cases hx : s = x
  · subst hx
    by_cases hs : t.Has s
    · have hname : b'.name = b.name := by rw [hd.binding_eq]
      rw [hd.entries hs, List.map_append, List.map_singleton, List.nodup_append]
      refine ⟨h.once s, List.nodup_singleton _, fun n hn m hm heq => ?_⟩
      obtain ⟨c, hc, rfl⟩ := List.mem_map.mp hn
      rw [List.mem_singleton] at hm
      exact absurd (List.find?_eq_none.mp hd.fresh_value c hc) (by simp [heq, hm, hname])
    · exact h.entries_once s (Or.inr (by rw [get_of_not_has (by rwa [Has, hd.size_eq])]; rfl))
  · exact h.entries_once x (Or.inl (hd.agrees x hx).entries)

/-- Values of one scope and one name are the same. -/
theorem Siblings.eq_of_name (h : Siblings t) (hb : b ∈ (t.get s).entries)
    (hb' : b' ∈ (t.get s).entries) (hname : b.name = b'.name) : b = b' :=
  List.inj_on_of_nodup_map (h.once s) hb hb' hname

theorem siblings_root (name : String) (unit : UnitId) : Siblings (root name unit) := by
  have hparent : ∀ c p, (root name unit).parent c ≠ some p := by
    intro c p hp
    obtain rfl := has_root (has_of_parent hp)
    exact absurd hp (by simp [parent, get_root, Scope.empty])
  refine ⟨fun s hs _ => has_root hs, fun s => ?_, fun c p hp => absurd hp (hparent c p),
    fun c _ p hp => absurd hp (hparent c p)⟩
  by_cases hs : (root name unit).Has s
  · obtain rfl := has_root hs
    exact List.nodup_nil
  · rw [get_of_not_has hs]
    exact List.nodup_nil

/-! ## Names that fit -/

/-- A name that a scope does not declare is that of no definition inside. -/
theorem Siblings.free (h : Siblings t)
    (hvalue : (t.get s).binding? name = none) (htype : (t.get s).type? name = none)
    (hc : t.parent c = some s) (hkind : (t.get c).kind = .routine ∨ (t.get c).kind = .type) :
    (t.get c).name ≠ name := by
  rintro rfl
  have hclaims := h.claimed c s hc
  rcases hkind with hk | hk <;> rw [hk] at hclaims
  · obtain ⟨b, hb, hname⟩ := hclaims
    exact absurd (List.find?_eq_none.mp hvalue b hb) (by simp [hname])
  · obtain ⟨e, he, hname⟩ := hclaims
    rw [Scope.type?, Option.map_eq_none_iff] at htype
    exact absurd (List.find?_eq_none.mp htype e he) (by simp [hname])

theorem Rivals.definition {kind kind' : ScopeKind} (h : Rivals kind kind')
    (hk : kind' = .routine ∨ kind' = .type) : kind = .routine ∨ kind = .type := by
  rcases h with ⟨-, h⟩ | ⟨h, -⟩
  · rcases hk with hk | hk <;> exact absurd (hk.symm.trans h) (by simp)
  · exact h

/-- The name of a value that was just declared fits a routine. -/
theorem Declared.fits (h : Siblings t) (hd : Declared t s b b' t') (hs : t.Has s) :
    Fits t' s .routine b.name := by
  refine ⟨⟨b', ?_, by rw [hd.binding_eq]⟩, fun c hc hrivals => ?_⟩
  · rw [hd.entries hs]
    exact List.mem_append_right _ (List.mem_singleton_self b')
  · have hold : t.Has c := by
      rw [Has, ← hd.size_eq]
      exact has_of_parent hc
    have hhead := hd.extends.head c hold
    rw [hhead.name]
    rw [hhead.kind] at hrivals
    exact h.free hd.fresh_value hd.fresh_type ((hd.extends.parent_eq hold).symm.trans hc)
      (hrivals.definition (Or.inl rfl))

/-- The name of a type that was just declared fits the type. -/
theorem TypeDeclared.fits {type : TypeId} (h : Siblings t) (hd : TypeDeclared t s name type t')
    (hs : t.Has s) : Fits t' s .type name := by
  refine ⟨⟨(name, type), ?_, rfl⟩, fun c hc hrivals => ?_⟩
  · rw [hd.types hs]
    exact List.mem_append_right _ (List.mem_singleton_self _)
  · have hold : t.Has c := by
      rw [Has, ← hd.size_eq]
      exact has_of_parent hc
    have hhead := hd.extends.head c hold
    rw [hhead.name]
    rw [hhead.kind] at hrivals
    exact h.free hd.fresh_value hd.fresh_type ((hd.extends.parent_eq hold).symm.trans hc)
      (hrivals.definition (Or.inr rfl))

/-- Static initial values are named after their type. -/
theorem fits_fieldInit (t : Scopes) (s : ScopeId) (name : String) : Fits t s .fieldInit name :=
  ⟨trivial, fun _ _ h => by rcases h with ⟨-, h⟩ | ⟨-, h | h⟩ <;> exact absurd h (by simp)⟩

/-- The next token fits a block. -/
theorem Siblings.fits_block (h : Siblings t) (hs : t.Has s) :
    Fits (t.nextBlockName s).2 s .block (t.nextBlockName s).1 := by
  have hx : ∀ j, SameHead (t.get j) ((t.nextBlockName s).2.get j) := fun j =>
    (agrees_nextBlockName t s j).head
  refine ⟨⟨(t.get s).blockCount, ?_, rfl⟩, fun c hc hrivals hname => ?_⟩
  · rw [blockCount_nextBlockName hs, if_pos rfl]
    exact Nat.lt_succ_self _
  · rw [parent, (hx c).parent] at hc
    rw [(hx c).kind] at hrivals
    have hkind : (t.get c).kind = .block := by
      rcases hrivals with ⟨hk, -⟩ | ⟨-, hk⟩
      · exact hk
      · exact absurd hk (by simp)
    have hclaims := h.claimed c s hc
    rw [hkind] at hclaims
    obtain ⟨k, hk, htoken⟩ := hclaims
    rw [(hx c).name, htoken] at hname
    exact absurd (blockToken_inj hname) (Nat.ne_of_lt hk)

end Unnest.Scopes
