import Unnest.Proofs.Scope.Housing
import Unnest.Proofs.Scope.Siblings
import Unnest.Proofs.Scope.Sound

/-!
# Lineages

A unit is named by the way to its scope: the names of the scopes on it, one behind the
other with separators between them.  No name may contain the separator, and no definition
may be called what a block is called; then the text can be taken apart again into the
names (`lineageText_inj`), the names lead to one scope only (`eq_of_namesTo`), and two
scopes never have units at one path (`Units.Houses.path_inj`).
-/

namespace Unnest

namespace Scopes

/-- The names on the way from the outermost scope to a scope. -/
def namesTo (t : Scopes) (s : ScopeId) : List String :=
  ((t.path s).map fun x => (t.get x).name).reverse

/-- The text of a lineage: every name has a separator behind it. -/
def lineageText (names : List String) : List Char :=
  names.flatMap fun n => n.toList ++ UnitPlan.separator.toList

/-- A name that is one part of a lineage and of a path. -/
structure IsPart (name : String) : Prop where
  separator : '$' ∉ name.toList
  slash : '/' ∉ name.toList

instance (name : String) : Decidable (IsPart name) :=
  decidable_of_iff ('$' ∉ name.toList ∧ '/' ∉ name.toList)
    ⟨fun h => ⟨h.1, h.2⟩, fun h => ⟨h.separator, h.slash⟩⟩

/-- A scope whose name is one part of a lineage, and a token for no scope but a block. -/
structure Plain (t : Scopes) (s : ScopeId) : Prop where
  part : IsPart (t.get s).name
  token : (t.get s).kind = .routine ∨ (t.get s).kind = .type → ∀ k, (t.get s).name ≠ blockToken k

/-- All scopes around a scope are plain, and so is the scope. -/
def PlainTo (t : Scopes) (s : ScopeId) : Prop := ∀ x ∈ t.path s, Plain t x

variable {t : Scopes} {s s' p : ScopeId}

/-! ## Texts -/

theorem append_cons_inj {α : Type} {c : α} {xs xs' ys ys' : List α} (h : c ∉ xs) (h' : c ∉ xs')
    (heq : xs ++ c :: ys = xs' ++ c :: ys') : xs = xs' ∧ ys = ys' := by
  rcases List.append_eq_append_iff.mp heq with ⟨as, rfl, hs⟩ | ⟨as, rfl, hs⟩ <;> cases as with
  | nil => simpa [eq_comm] using hs
  | cons a as =>
    obtain ⟨rfl, -⟩ := List.cons.inj hs
    simp at h h'

theorem lineageText_cons (n : String) (ns : List String) :
    lineageText (n :: ns) = n.toList ++ '$' :: lineageText ns := by
  rw [lineageText, List.flatMap_cons, List.append_assoc]
  rfl

theorem lineageText_ne_nil (n : String) (ns : List String) : lineageText (n :: ns) ≠ [] := by
  rw [lineageText_cons]
  exact List.append_ne_nil_of_right_ne_nil _ (List.cons_ne_nil _ _)

theorem lineageText_concat (ns : List String) (n : String) :
    lineageText (ns ++ [n]) = lineageText ns ++ (n.toList ++ ['$']) := by
  rw [lineageText, List.flatMap_append, List.flatMap_singleton]
  rfl

/-- A lineage has slashes where a name has one. -/
theorem slash_notMem_lineageText {ns : List String} (h : ∀ n ∈ ns, IsPart n) :
    '/' ∉ lineageText ns := by
  intro hmem
  obtain ⟨n, hn, hmem⟩ := List.mem_flatMap.mp hmem
  rcases List.mem_append.mp hmem with hmem | hmem
  · exact (h n hn).slash hmem
  · exact absurd hmem (by decide)

/-- Names without separators can be read off the text. -/
theorem lineageText_inj {ns ns' : List String} (h : ∀ n ∈ ns, IsPart n)
    (h' : ∀ n ∈ ns', IsPart n) (heq : lineageText ns = lineageText ns') : ns = ns' := by
  induction ns generalizing ns' with
  | nil =>
    cases ns' with
    | nil => rfl
    | cons n ns' => exact absurd heq.symm (lineageText_ne_nil n ns')
  | cons n ns ih =>
    cases ns' with
    | nil => exact absurd heq (lineageText_ne_nil n ns)
    | cons n' ns' =>
      rw [List.forall_mem_cons] at h h'
      rw [lineageText_cons, lineageText_cons] at heq
      obtain ⟨hn, hns⟩ := append_cons_inj h.1.separator h'.1.separator heq
      rw [String.toList_inj.mp hn, ih h.2 h'.2 hns]

/-! ## Names -/

/-- A token is one part of a lineage. -/
theorem isPart_blockToken (k : Nat) : IsPart (blockToken k) :=
  ⟨notMem_blockToken k (by decide) (by decide), notMem_blockToken k (by decide) (by decide)⟩

theorem namesTo_root (h : t.parent s = none) : t.namesTo s = [(t.get s).name] := by
  rw [namesTo, path_of_root h]
  rfl

theorem namesTo_child (hw : t.WF) (h : t.parent s = some p) :
    t.namesTo s = t.namesTo p ++ [(t.get s).name] := by
  rw [namesTo, hw.path_of_parent h, List.map_cons, List.reverse_cons, namesTo]

theorem namesTo_ne_nil (t : Scopes) (s : ScopeId) : t.namesTo s ≠ [] := by
  rw [namesTo, Ne, List.reverse_eq_nil_iff, List.map_eq_nil_iff]
  exact List.ne_nil_of_mem (mem_path_self t s)

theorem PlainTo.self (h : PlainTo t s) : Plain t s := h s (mem_path_self t s)

theorem PlainTo.parent (h : PlainTo t s) (hw : t.WF) (hp : t.parent s = some p) : PlainTo t p :=
  fun x hx => h x (hw.mem_path_of_parent hp hx)

theorem PlainTo.child (h : PlainTo t p) (hw : t.WF) (hp : t.parent s = some p) (hs : Plain t s) :
    PlainTo t s := by
  intro x hx
  rw [hw.path_of_parent hp] at hx
  rcases List.mem_cons.mp hx with rfl | hx
  · exact hs
  · exact h x hx

theorem PlainTo.names (h : PlainTo t s) : ∀ n ∈ t.namesTo s, IsPart n := by
  intro n hn
  obtain ⟨x, hx, rfl⟩ := List.mem_map.mp (List.mem_reverse.mp hn)
  exact (h x hx).part

/-- Tokens are given to blocks. -/
theorem Siblings.plain_block (h : Siblings t) (hp : t.parent s = some p)
    (hk : (t.get s).kind = .block) : Plain t s := by
  have hclaims := h.claimed s p hp
  rw [hk] at hclaims
  obtain ⟨k, -, hname⟩ := hclaims
  refine ⟨?_, fun hdef => ?_⟩
  · rw [hname]
    exact isPart_blockToken k
  · rcases hdef with hdef | hdef <;> exact absurd (hk.symm.trans hdef) (by simp)

/-- Nothing is inside of static initial values. -/
theorem Sound.kind_parent (h : Sound t) (hp : t.parent s = some p) :
    (t.get p).kind ≠ .fieldInit := by
  intro hk
  rcases h.placed s (has_of_parent hp) with ⟨-, hnone⟩ | ⟨p', hp', hopen⟩
  · exact absurd (hp.symm.trans hnone) (by simp)
  · obtain rfl := Option.some.inj (hp.symm.trans hp')
    cases hs : (t.get s).kind <;> rw [hs] at hopen <;> simp [MayOpen, hk, ScopeKind.isBody] at hopen

/-- A scope inside another one is a block, a definition or static initial values. -/
theorem Sound.kind_child (h : Sound t) (hp : t.parent s = some p)
    (hk : (t.get s).kind ≠ .fieldInit) :
    (t.get s).kind = .block ∨ (t.get s).kind = .routine ∨ (t.get s).kind = .type := by
  rcases h.placed s (has_of_parent hp) with ⟨-, hnone⟩ | ⟨_, -, hopen⟩
  · exact absurd (hp.symm.trans hnone) (by simp)
  · cases hs : (t.get s).kind <;> rw [hs] at hopen <;> simp [MayOpen] at hopen ⊢
    exact hk hs

/-- Plain scopes of one name inside one scope are rivals. -/
theorem rivals_of_name (h : Sound t) (hsib : Siblings t) (hp : t.parent s = some p)
    (hp' : t.parent s' = some p) (hk : (t.get s).kind ≠ .fieldInit)
    (hk' : (t.get s').kind ≠ .fieldInit) (hs : Plain t s) (hs' : Plain t s')
    (hname : (t.get s).name = (t.get s').name) : Rivals (t.get s).kind (t.get s').kind := by
  have htoken : ∀ x, t.parent x = some p → (t.get x).kind = .block →
      ∃ k, (t.get x).name = blockToken k := by
    intro x hx hkind
    have hclaims := hsib.claimed x p hx
    rw [hkind] at hclaims
    obtain ⟨k, -, h⟩ := hclaims
    exact ⟨k, h⟩
  rcases h.kind_child hp hk with hb | hd <;> rcases h.kind_child hp' hk' with hb' | hd'
  · exact Or.inl ⟨hb, hb'⟩
  · obtain ⟨k, h⟩ := htoken s hp hb
    exact absurd (hname.symm.trans h) (hs'.token hd' k)
  · obtain ⟨k, h⟩ := htoken s' hp' hb'
    exact absurd (hname.trans h) (hs.token hd k)
  · exact Or.inr ⟨hd, hd'⟩

/-- The names on the way to a plain scope lead there and nowhere else. -/
theorem eq_of_namesTo (h : Sound t) (hsib : Siblings t) (hhas : t.Has s) (hhas' : t.Has s')
    (hk : (t.get s).kind ≠ .fieldInit) (hk' : (t.get s').kind ≠ .fieldInit) (hs : PlainTo t s)
    (hs' : PlainTo t s') (heq : t.namesTo s = t.namesTo s') : s = s' := by
  induction s using h.induction generalizing s' with
  | root s hr =>
    cases hp' : t.parent s' with
    | none => rw [hsib.alone s hhas hr, hsib.alone s' hhas' hp']
    | some p' =>
      rw [namesTo_root hr, namesTo_child h.toWF hp'] at heq
      exact absurd ((List.append_eq_singleton_iff.mp heq.symm).resolve_right fun h =>
        absurd h.2 (by simp)).1 (namesTo_ne_nil t p')
  | child s p hp ih =>
    cases hp' : t.parent s' with
    | none =>
      rw [namesTo_root hp', namesTo_child h.toWF hp] at heq
      exact absurd ((List.append_eq_singleton_iff.mp heq).resolve_right fun h =>
        absurd h.2 (by simp)).1 (namesTo_ne_nil t p)
    | some p' =>
      rw [namesTo_child h.toWF hp, namesTo_child h.toWF hp'] at heq
      obtain ⟨hnames, hname⟩ := List.append_inj' heq rfl
      obtain rfl := ih (h.has_parent hp) (h.has_parent hp') (h.kind_parent hp) (h.kind_parent hp')
        (hs.parent h.toWF hp) (hs'.parent h.toWF hp') hnames
      exact hsib.apart s s' p hp hp' (rivals_of_name h hsib hp hp' hk hk' hs.self hs'.self
        (List.singleton_inj.mp hname)) (List.singleton_inj.mp hname)

end Scopes

namespace Units

open Scopes

variable {u : Units} {t : Scopes} {s s' p : ScopeId}

/-- The lineage of what is planned inside the unit of a scope. -/
theorem Houses.lineageInside_eq (h : Houses u t) (hw : t.Sound) (hs : t.Has s)
    (hk : (t.get s).kind ≠ .fieldInit) :
    (u.lineageInside (t.get s).unit).toList = lineageText (t.namesTo s) := by
  induction s using hw.induction with
  | root s hr =>
    rw [lineageInside, get_eq ((h s hs).root hr), namesTo_root hr, lineageText,
      List.flatMap_singleton]
    simp
  | child s p hp ih =>
    obtain ⟨kind, ownerType, hget⟩ := (h s hs).planned p hp hk
    rw [lineageInside, get_eq hget, String.toList_append, String.toList_append,
      ih (hw.has_parent hp) (hw.kind_parent hp), namesTo_child hw.toWF hp, lineageText_concat,
      List.append_assoc]
    rfl

/-- The path of the unit of a scope that is inside another one. -/
theorem Houses.path_eq (h : Houses u t) (hw : t.Sound) (hp : t.parent s = some p)
    (hk : (t.get s).kind ≠ .fieldInit) : (u.path (t.get s).unit).toList =
      u.binDirectory.toList ++ (lineageText (t.namesTo p) ++ (t.get s).name.toList) := by
  obtain ⟨kind, ownerType, hget⟩ := (h s (has_of_parent hp)).planned p hp hk
  rw [path, get_eq hget, UnitPlan.path, String.toList_append, String.toList_append,
    h.lineageInside_eq hw (hw.has_parent hp) (hw.kind_parent hp), List.append_assoc]

/-- Units of plain scopes have different paths. -/
theorem Houses.path_inj (h : Houses u t) (hw : t.Sound) (hsib : Siblings t)
    (hp : t.parent s = some p) {p' : ScopeId} (hp' : t.parent s' = some p')
    (hk : (t.get s).kind ≠ .fieldInit) (hk' : (t.get s').kind ≠ .fieldInit) (hs : PlainTo t s)
    (hs' : PlainTo t s') (heq : u.path (t.get s).unit = u.path (t.get s').unit) : s = s' := by
  have htext := congrArg String.toList heq
  rw [h.path_eq hw hp hk, h.path_eq hw hp' hk'] at htext
  refine eq_of_namesTo hw hsib (has_of_parent hp) (has_of_parent hp') hk hk' hs hs'
    (lineageText_inj hs.names hs'.names ?_)
  have hlineage := congrArg (· ++ ['$']) (List.append_cancel_left htext)
  simpa only [namesTo_child hw.toWF hp, namesTo_child hw.toWF hp', lineageText_concat,
    List.append_assoc] using hlineage

end Units

end Unnest
