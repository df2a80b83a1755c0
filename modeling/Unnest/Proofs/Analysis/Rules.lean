import Unnest.Analysis.Declare
import Unnest.Proofs.Analysis.Decided

/-!
# Rules for the steps of an analysis

A part of the analysis that stays in one scope is specified by `Decides p K m Q`.  Run
at the place `p`, the part `m` makes changes that are written under the keys `K`, and
its result satisfies `Q` in all later tables, the final ones included.  A place is a
scope together with what is known there; what is known once stays known, so a later
part runs at the same place with more known about it (`Decides.bind`).

A part that reports an error decides anything about an accepted analysis
(`decides_report`).  That is how every early return of the analysis is accounted for.
-/

namespace Unnest.Analysis

open Analyze

variable {α β : Type} {K L : Multiset Key} {a b z : Analysis}

/-! ## Places -/

/-- A scope, and what is known while the walk is in it. -/
structure Place where
  scope : ScopeId
  holds : Analysis → Prop
  kept : ∀ {a b : Analysis}, holds a → Grows a b → holds b

namespace Place

variable {p : Place} {Q : Analysis → Prop}

/-- The walk is at a place. -/
structure At (p : Place) (a : Analysis) : Prop where
  sound : Sound a
  current : a.current = p.scope
  holds : p.holds a

/-- Tables that come after the walk was at a place. -/
structure Known (p : Place) (z : Analysis) : Prop where
  sound : Sound z
  has : z.scopes.Has p.scope
  holds : p.holds z

/-- The place with more known about it. -/
def knowing (p : Place) (Q : Analysis → Prop) : Place where
  scope := p.scope
  holds a := p.holds a ∧ ∀ z, p.Known z → Grows a z → Q z
  kept h hg := ⟨p.kept h.1 hg, fun z hz hgz => h.2 z hz (hg.trans hgz)⟩

theorem At.known (h : p.At a) : p.Known a := ⟨h.sound, h.current ▸ h.sound.has, h.holds⟩

theorem At.steps (h : p.At a) (hs : Steps K a b) : p.At b :=
  ⟨h.sound.steps hs, hs.current_eq.trans h.current, p.kept h.holds hs.grows⟩

theorem At.later (h : p.At a) (hz : Sound z) (hg : Grows a z) : p.Known z :=
  ⟨hz, hg.scopes.has h.known.has, p.kept h.holds hg⟩

theorem Known.of_knowing (h : (p.knowing Q).Known z) : p.Known z := ⟨h.sound, h.has, h.holds.1⟩

theorem Known.fact (h : (p.knowing Q).Known z) : Q z := h.holds.2 z h.of_knowing (.refl z)

theorem At.of_knowing (h : (p.knowing Q).At a) : p.At a := ⟨h.sound, h.current, h.holds.1⟩

end Place

/-! ## Rules -/

/-- What a part of the analysis comes to when it is run on these tables. -/
def DecidesFrom (a : Analysis) (K : Multiset Key) (m : Analyze α) (Q : Analysis → α → Prop) :
    Prop :=
  Steps K a (m.run a).2 ∧ ∀ z, Sound z → Grows (m.run a).2 z → Q z (m.run a).1

/-- A part of the analysis decides something, and says under which keys it writes. -/
def Decides (p : Place) (K : Multiset Key) (m : Analyze α) (Q : Analysis → α → Prop) : Prop :=
  ∀ a, p.At a → DecidesFrom a K m Q

namespace Decides

variable {p : Place} {m : Analyze α} {Q Q' : Analysis → α → Prop} {R : Analysis → β → Prop}

theorem pure {x : α} (h : ∀ z, p.Known z → Q z x) : Decides p 0 (pure x) Q :=
  fun a ha => ⟨.refl a, fun z hz hg => h z (ha.later hz hg)⟩

theorem conseq (h : Decides p K m Q) (hQ : ∀ z x, p.Known z → Q z x → Q' z x) :
    Decides p K m Q' := fun a ha => by
  obtain ⟨hs, hd⟩ := h a ha
  exact ⟨hs, fun z hz hg => hQ z _ (ha.later hz (hs.grows.trans hg)) (hd z hz hg)⟩

theorem mono (h : Decides p K m Q) (hKL : K ≤ L) : Decides p L m Q := fun a ha =>
  ⟨(h a ha).1.mono hKL, (h a ha).2⟩

theorem keys (h : Decides p K m Q) (hKL : K = L) : Decides p L m Q := hKL ▸ h

theorem weaken {P : Analysis → Prop} (h : Decides p K m Q) : Decides (p.knowing P) K m Q :=
  fun a ha => h a ha.of_knowing

/-- What is known of the result without later tables. -/
theorem withResult {P : α → Prop} (hm : Decides p K m Q) (h : ∀ a, p.At a → P (m.run a).1) :
    Decides p K m fun z x => Q z x ∧ P x := fun a ha =>
  ⟨(hm a ha).1, fun z hz hg => ⟨(hm a ha).2 z hz hg, h a ha⟩⟩

/-- One part after another. -/
theorem bind {f : α → Analyze β} (hm : Decides p K m Q)
    (hf : ∀ x, Decides (p.knowing (Q · x)) L (f x) R) : Decides p (K + L) (m >>= f) R := by
  intro a ha
  obtain ⟨hs, hd⟩ := hm a ha
  have hb := ha.steps hs
  obtain ⟨hs', hd'⟩ := hf (m.run a).1 (m.run a).2
    ⟨hb.sound, hb.current, hb.holds, fun z hz hg => hd z hz.sound hg⟩
  exact ⟨hs.trans hs', hd'⟩

/-- One part after another that writes nothing. -/
theorem andThen {f : α → Analyze β} (hm : Decides p 0 m Q)
    (hf : ∀ x, Decides (p.knowing (Q · x)) L (f x) R) : Decides p L (m >>= f) R :=
  (hm.bind hf).keys (zero_add L)

/-- A part whose result is made up of what was found out before. -/
theorem andPure {x : α → β} (hm : Decides p K m Q)
    (h : ∀ z y, p.Known z → Q z y → R z (x y)) : Decides p K (m >>= fun y => Pure.pure (x y)) R :=
  (hm.bind (L := 0) fun y => .pure fun z hz => h z y hz.of_knowing hz.fact).keys (add_zero K)

/-- A part that writes nothing may write anything. -/
theorem idle (h : Decides p 0 m Q) : Decides p L m Q := h.mono (Multiset.zero_le L)

/-- A part that reports an error. -/
theorem refused (h : Decides p 0 m fun z _ => ¬ Accepted z) :
    Decides p L m fun z x => Accepted z → Q z x :=
  (h.conseq fun _ _ _ hn hz => absurd hz hn).idle

/-- Reading the tables. -/
theorem get {f : Analysis → Analyze α}
    (h : ∀ a, p.At a → Decides (p.knowing (Grows a)) K (f a) Q) : Decides p K (get >>= f) Q :=
  fun a ha => h a ha a ⟨ha.sound, ha.current, ha.holds, fun _ _ hg => hg⟩

/-- A part before one that is followed state by state. -/
theorem before {f : α → Analyze β} {R : Analysis → β × Analysis → Prop}
    (hR : ∀ {a b : Analysis} {x : β × Analysis}, Steps 0 a b → R b x → R a x) (ha : p.At a)
    (hm : DecidesFrom a 0 m Q)
    (hf : ∀ x b, m.run a = (x, b) → (p.knowing (Q · x)).At b → R b ((f x).run b)) :
    R a ((m >>= f).run a) := by
  obtain ⟨hs, hd⟩ := hm
  have hb := ha.steps hs
  exact hR hs (hf _ _ rfl ⟨hb.sound, hb.current, hb.holds, fun z hz hg => hd z hz.sound hg⟩)

end Decides

/-! ## Single changes -/

variable {p : Place}

theorem Accepted.of_grows (hz : Accepted z) (hg : Grows a z) : a.errors = [] :=
  List.prefix_nil.mp (hz.errors ▸ hg.errors)

/-- An accepted analysis was never anything else. -/
theorem Accepted.before (hz : Accepted z) (ha : Sound a) (hg : Grows a z) : Accepted a :=
  ⟨⟨ha, Multiset.nodup_of_le hg.keys hz.keys⟩, hz.of_grows hg⟩

/-- After a report, nothing is accepted. -/
theorem decides_reportError (e : SemanticError) :
    Decides p 0 (reportError e) fun z _ => ¬ Accepted z := fun a _ => by
  refine ⟨.step (.report a e), fun z _ hg hz => ?_⟩
  have herrors := hz.of_grows hg
  exact List.append_ne_nil_of_right_ne_nil a.errors (List.cons_ne_nil e []) herrors

theorem decides_report (fault : Fault) (span : Span) :
    Decides p 0 (report fault span) fun z _ => ¬ Accepted z :=
  decides_reportError _

theorem decides_types : Decides p 0 Analyze.types fun z t => t.Sound ∧ t.Extends z.types :=
  fun a ha => ⟨.refl a, fun _ _ hg => ⟨ha.sound.types, hg.types⟩⟩

theorem decides_currentScope : Decides p 0 currentScope fun _ s => s = p.scope :=
  fun a ha => ⟨.refl a, fun _ _ _ => ha.current⟩

theorem decides_addRoutineType (params : List TypeId) (result : Option TypeId) :
    Decides p 0 (addRoutineType params result) fun z type => z.types.form type = .routine :=
  fun a _ => by
    have hform := congrArg TypeDecl.form
      (TypeTable.get_add_new a.types (.ofSignatures [⟨Reserved.call, params, result⟩]))
    exact ⟨.step (.types a (.addRoutineType params result)), fun _ _ hg => hg.types.isRoutine hform⟩

theorem decides_typeName (type : TypeId) : Decides p 0 (typeName type) fun _ _ => True :=
  fun a _ => ⟨.refl a, fun _ _ _ => trivial⟩

theorem decides_resolveType (name : String) : Decides p 0 (resolveType name) fun _ _ => True :=
  fun a _ => ⟨.refl a, fun _ _ _ => trivial⟩

/-- A change of the findings. -/
theorem decides_record {f : Findings → Findings} {k : Key} {Q : Analysis → Unit → Prop}
    (h : ∀ a, p.At a → Records a k (f a.findings))
    (hQ : ∀ a z : Analysis, p.Known z → (f a.findings).Grows z.findings → Q z ()) :
    Decides p {k} (record f) Q := fun a ha => by
  have hs : Steps {k} a { a with findings := f a.findings } := .step (.record a (h a ha))
  exact ⟨hs, fun z hz hg => hQ a z (ha.later hz (hs.grows.trans hg)) hg.findings⟩

theorem run_lookup (name : String) (a : Analysis) : (lookup name).run a =
    (a.scopes.lookup a.current name,
      match a.scopes.lookup a.current name with
      | .found r .captured => { a with scopes := a.scopes.capture a.current r.binding r.owner }
      | _ => a) := by
  simp only [lookup, lookupFrom, Analyze.currentScope, updateScopes, StateT.run_bind,
    StateT.run_get, StateT.run_pure, pure_bind]
  cases a.scopes.lookup a.current name with
  | found r access => cases access <;> rfl
  | hidden => rfl
  | missing => rfl

/-- A lookup finds what is reached from the scope. -/
theorem decides_lookup (name : String) : Decides p 0 (lookup name) fun z result =>
    ∀ r access, result = .found r access →
      r.binding.name = name ∧ Scopes.Reaches z.scopes p.scope r.capture access := by
  intro a ha
  have hw := ha.sound.scopes
  rw [DecidesFrom, run_lookup, ← ha.current]
  cases hl : a.scopes.lookup a.current name with
  | hidden => exact ⟨.refl a, fun _ _ _ _ _ h => absurd h (by simp)⟩
  | missing => exact ⟨.refl a, fun _ _ _ _ _ h => absurd h (by simp)⟩
  | found r access =>
    obtain ⟨hname, hmeant, haccess⟩ := hw.found_of_lookup hl
    have hreaches : ∀ z, Grows a z → Sound z →
        (access = .captured → r.capture ∈ (z.scopes.get a.current).captures) →
          r.binding.name = name ∧ Scopes.Reaches z.scopes a.current r.capture access := by
      intro z hg hz hc
      refine ⟨hname, hmeant.mono hg.scopes hw.toWF hz.scopes.toWF ha.sound.has, ?_, hc⟩
      exact (hg.scopes.accessTo_eq hw.toWF hz.scopes.toWF ha.sound.has
        (Scopes.has_of_mem_entries hmeant.declared)).trans haccess
    by_cases hc : access = .captured
    · subst hc
      have hs : Steps 0 a { a with scopes := a.scopes.capture a.current r.binding r.owner } :=
        .step (.within (.capture hl) (Scopes.size_foldl_pushCapture _ _ _))
      refine ⟨hs, fun z hz hg r' access' h => ?_⟩
      obtain ⟨rfl, rfl⟩ := Lookup.found.inj h
      refine hreaches z (hs.grows.trans hg) hz fun _ => ?_
      exact (hg.scopes.captures _ (hs.grows.scopes.has ha.sound.has)).subset
        (hw.mem_captures_capture (hw.uses hl) ha.sound.has)
    · have hstate : (match Lookup.found r access with
          | .found r .captured =>
            { a with scopes := a.scopes.capture a.current r.binding r.owner }
          | _ => a) = a := by
        cases access <;> first | rfl | exact absurd rfl hc
      rw [hstate]
      refine ⟨.refl a, fun z hz hg r' access' h => ?_⟩
      obtain ⟨rfl, rfl⟩ := Lookup.found.inj h
      exact hreaches z hg hz fun h => absurd h hc

end Unnest.Analysis
