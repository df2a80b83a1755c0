import Unnest.Proofs.Scope.Sound

/-!
# Recording a capture

A use of an outer binding is recorded on the using scope and on those around it that
have to hand the binding on.  Every one of them did not know the name before, and the
name meant the same binding from there (`CaptureSite`), so a recorded capture answers
what resolution would have found anyway, and no name changes its meaning
(`WF.resolveValue_capture`).

## Being linked

What a definition captured is looked up again by name, from the scope around it, once
its body is analysed.  `Linked t d` says that each of those lookups still finds the
binding that was captured, for every definition around `d` that is not finished.
-/

namespace Unnest.Scopes

variable {t t' : Scopes} {s p d : ScopeId} {c : Capture} {r : Resolved} {n : String}

/-- What the definitions around a scope captured is what the names mean outside. -/
def Linked (t : Scopes) (d : ScopeId) : Prop :=
  ∀ x ∈ t.path d, (t.get x).kind ≠ .fieldInit → ∀ p, t.parent x = some p →
    ∀ c ∈ (t.get x).captures, t.resolveValue p c.name = some c.resolved

/-! ## The scopes that record -/

/-- A scope that has to record a capture. -/
structure CaptureSite (t : Scopes) (r : Resolved) (d : ScopeId) : Prop where
  unknown : (t.get d).knows r.binding.name = false
  resolves : t.resolveValue d r.binding.name = some r
  ne_owner : d ≠ r.owner

/-- Whether a scope hands a binding on without recording it. -/
def stopsAt (t : Scopes) (r : Resolved) (d : ScopeId) : Bool :=
  (d == r.owner || (t.get d).knows r.binding.name) || t.reachesDirectly r.binding r.owner d

/-- The scopes from one outwards that record a capture. -/
def handOn (t : Scopes) (r : Resolved) (p : ScopeId) : List ScopeId :=
  (t.path p).takeWhile fun d => !t.stopsAt r d

theorem mem_path_of_mem_handOn (h : d ∈ t.handOn r p) : d ∈ t.path p :=
  (List.takeWhile_sublist _).subset h

theorem exists_answer_of_knows (hk : (t.get s).knows n = true) : ∃ r, t.answer? n s = some r := by
  refine Option.ne_none_iff_exists'.mp fun hnone => ?_
  rw [answer?_eq_none.mp hnone] at hk
  exact Bool.noConfusion hk

theorem resolveValue_of_answer (hw : t.WF) {r : Resolved} (ha : t.answer? n s = some r) :
    t.resolveValue s n = some r := by
  cases hp : t.parent s with
  | none => rw [resolveValue_of_root hp, ha]
  | some p => rw [hw.resolveValue_of_parent hp, ha, Option.some_or]

theorem resolveValue_parent_of_unknown (hw : t.WF) (hp : t.parent s = some p)
    (hs : (t.get s).knows n = false) (hr : t.resolveValue s n = some r) :
    t.resolveValue p n = some r := by
  rwa [hw.resolveValue_of_parent hp, answer?_eq_none.mpr hs, Option.none_or] at hr

theorem captureSite_of_not_stops (hr : t.resolveValue s r.binding.name = some r)
    (hs : t.stopsAt r s = false) :
    CaptureSite t r s ∧ t.reachesDirectly r.binding r.owner s = false := by
  simp only [stopsAt, Bool.or_eq_false_iff, beq_eq_false_iff_ne] at hs
  exact ⟨⟨hs.1.2, hr, hs.1.1⟩, hs.2⟩

theorem mem_handOn_self (hs : t.stopsAt r s = false) : s ∈ t.handOn r s := by
  obtain ⟨rest, hrest⟩ : ∃ rest, t.path s = s :: rest := by
    rw [path, pathWithin]
    exact ⟨_, rfl⟩
  rw [handOn, hrest, List.takeWhile_cons, if_pos (by rw [hs]; rfl)]
  exact List.mem_cons_self

theorem mem_handOn_or_stops (t : Scopes) (r : Resolved) (s : ScopeId) :
    s ∈ t.handOn r s ∨ t.stopsAt r s = true := by
  cases hs : t.stopsAt r s with
  | true => exact Or.inr rfl
  | false => exact Or.inl (mem_handOn_self hs)

/-- The scopes that record a capture, from the first one outwards. -/
theorem WF.handOn_spec (h : t.WF) (hr : t.resolveValue p r.binding.name = some r)
    (hd : d ∈ t.handOn r p) :
    CaptureSite t r d ∧ t.reachesDirectly r.binding r.owner d = false ∧
      ∀ q, t.parent d = some q → q ∈ t.handOn r p ∨ t.stopsAt r q = true := by
  induction p using h.induction with
  | root s hs =>
    rw [handOn, path_of_root hs, List.takeWhile_cons] at hd
    split at hd
    · rename_i hstop
      rw [List.takeWhile_nil, List.mem_singleton] at hd
      subst hd
      obtain ⟨hsite, hreach⟩ := captureSite_of_not_stops hr (by simpa using hstop)
      refine ⟨hsite, hreach, fun q hq => ?_⟩
      rw [hs] at hq
      exact absurd hq (by simp)
    · exact absurd hd List.not_mem_nil
  | child s p hp ih =>
    have hpath : t.handOn r s = if (!t.stopsAt r s) = true then s :: t.handOn r p else [] := by
      rw [handOn, h.path_of_parent hp, List.takeWhile_cons, handOn]
    rw [hpath] at hd ⊢
    split at hd
    · rename_i hstop
      rw [if_pos hstop]
      obtain ⟨hsite, hreach⟩ := captureSite_of_not_stops hr (by simpa using hstop)
      have hrp := resolveValue_parent_of_unknown h hp hsite.unknown hr
      rcases List.mem_cons.mp hd with rfl | hd
      · refine ⟨hsite, hreach, fun q hq => ?_⟩
        obtain rfl := Option.some.inj (hp.symm.trans hq)
        exact (mem_handOn_or_stops t r p).imp_left (List.mem_cons_of_mem _)
      · obtain ⟨hsite', hreach', hnext⟩ := ih hrp hd
        exact ⟨hsite', hreach', fun q hq => (hnext q hq).imp_left (List.mem_cons_of_mem _)⟩
    · exact absurd hd List.not_mem_nil

/-- The capture of a binding that a name means. -/
def Resolved.capture (r : Resolved) : Capture := ⟨r.binding, r.owner⟩

/-- A looked-up binding whose access is captured. -/
structure Uses (t : Scopes) (s : ScopeId) (r : Resolved) : Prop where
  resolves : t.resolveValue s r.binding.name = some r
  meant : Meant t s r
  outside : Outside t s r

theorem Sound.uses (h : Sound t) (hl : t.lookup s n = .found r .captured) : Uses t s r := by
  rw [lookup] at hl
  cases hr : t.resolveValue s n with
  | none =>
    rw [hr] at hl
    exact absurd hl (by simp)
  | some r₀ =>
    rw [hr] at hl
    obtain ⟨hname, hm⟩ := h.meant hr
    obtain ⟨rfl, ho⟩ := h.outside hm hl
    exact ⟨by rw [hname, hr], hm, ho⟩

theorem Uses.ne_owner (hw : t.WF) (hu : Uses t s r) : s ≠ r.owner := by
  rintro rfl
  have ho := hu.outside.owner_mem
  exact hu.outside.owner_ne (mem_path_antisymm ho (hw.owningMethod_mem_path _))

/-- A using scope that knows the name has recorded the capture already. -/
theorem Uses.mem_captures_of_knows (hw : t.WF) (hu : Uses t s r)
    (hk : (t.get s).knows r.binding.name = true) : r.capture ∈ (t.get s).captures := by
  obtain ⟨r', ha⟩ := exists_answer_of_knows hk
  obtain rfl := Option.some.inj (hu.resolves.symm.trans (resolveValue_of_answer hw ha))
  obtain ⟨-, ⟨howner, -⟩ | ⟨c, hc, rfl⟩⟩ := answer?_cases ha
  · exact absurd howner.symm (hu.ne_owner hw)
  · exact hc

/-- The scopes that record a use: none if the using one declared the binding or knows the
name, or else it and those that hand the binding on to it. -/
theorem WF.captureSites_eq (hw : t.WF) (s : ScopeId) (r : Resolved) :
    t.captureSites s r.binding r.owner =
      if (s == r.owner || (t.get s).knows r.binding.name) = true then []
      else s :: ((t.parent s).map (t.handOn r)).getD [] := by
  rw [captureSites]
  cases hp : t.parent s with
  | none =>
    rw [path_of_root hp]
    rfl
  | some p =>
    rw [hw.path_of_parent hp]
    rfl

/-- What the recording scopes have in common. -/
theorem WF.captureSites_spec (h : t.WF) (hr : t.resolveValue s r.binding.name = some r)
    (hd : d ∈ t.captureSites s r.binding r.owner) :
    d ∈ t.path s ∧ CaptureSite t r d ∧
      (d ≠ s → t.reachesDirectly r.binding r.owner d = false) ∧
      ∀ q, t.parent d = some q →
        q ∈ t.captureSites s r.binding r.owner ∨ t.stopsAt r q = true := by
  rw [h.captureSites_eq s r] at hd ⊢
  split at hd
  · exact absurd hd List.not_mem_nil
  · rename_i hk
    rw [if_neg hk]
    rw [Bool.not_eq_true, Bool.or_eq_false_iff, beq_eq_false_iff_ne] at hk
    have hsite : CaptureSite t r s := ⟨hk.2, hr, hk.1⟩
    cases hp : t.parent s with
    | none =>
      rw [hp, Option.map_none, Option.getD_none, List.mem_singleton] at hd
      subst hd
      refine ⟨mem_path_self t d, hsite, fun hne => absurd rfl hne, fun q hq => ?_⟩
      rw [hp] at hq
      exact absurd hq (by simp)
    | some p =>
      have hrp := resolveValue_parent_of_unknown h hp hk.2 hr
      rw [hp, Option.map_some, Option.getD_some] at hd
      rw [Option.map_some, Option.getD_some]
      rcases List.mem_cons.mp hd with rfl | hd
      · refine ⟨mem_path_self t d, hsite, fun hne => absurd rfl hne, fun q hq => ?_⟩
        obtain rfl := Option.some.inj (hp.symm.trans hq)
        exact (mem_handOn_or_stops t r p).imp_left (List.mem_cons_of_mem _)
      · obtain ⟨hsite, hreach, hnext⟩ := h.handOn_spec hrp hd
        exact ⟨h.mem_path_of_parent hp (mem_path_of_mem_handOn hd), hsite, fun _ => hreach,
          fun q hq => (hnext q hq).imp_left (List.mem_cons_of_mem _)⟩

/-! ## What recording leaves -/

theorem WF.nodup_captureSites (h : t.WF) (s : ScopeId) (r : Resolved) :
    (t.captureSites s r.binding r.owner).Nodup := by
  refine (h.nodup_path s).sublist ?_
  rw [h.captureSites_eq s r]
  split
  · exact List.nil_sublist _
  · cases hp : t.parent s with
    | none =>
      rw [path_of_root hp]
      exact List.Sublist.refl _
    | some p =>
      rw [h.path_of_parent hp]
      exact (List.takeWhile_sublist _).cons_cons s

theorem WF.captured (h : t.WF) (s : ScopeId) (r : Resolved) :
    Captured t r.capture (t.captureSites s r.binding r.owner) (t.capture s r.binding r.owner) :=
  captured_foldl r.capture (h.nodup_captureSites s r) t

/-- A scope answers as before, or it answers what resolution found from there. -/
theorem WF.answer?_capture (h : t.WF) (hr : t.resolveValue s r.binding.name = some r)
    (d : ScopeId) :
    (t.capture s r.binding r.owner).answer? n d = t.answer? n d ∨
      (t.capture s r.binding r.owner).answer? n d = some r ∧ t.resolveValue d n = some r := by
  have hc := h.captured s r
  have hentries : ((t.capture s r.binding r.owner).get d).binding? n = (t.get d).binding? n := by
    rw [Scope.binding?, hc.entries, Scope.binding?]
  by_cases hd : d ∈ t.captureSites s r.binding r.owner
  · obtain ⟨hmem, hsite, -, -⟩ := h.captureSites_spec hr hd
    by_cases hn : n = r.binding.name
    · subst hn
      refine Or.inr ⟨?_, hsite.resolves⟩
      have hunknown := hsite.unknown
      rw [Scope.knows, Bool.or_eq_false_iff, Option.isSome_eq_false_iff, Option.isNone_iff_eq_none,
        Option.isSome_eq_false_iff, Option.isNone_iff_eq_none] at hunknown
      have hhas : t.Has d := by
        by_contra hnot
        have hfound := hsite.resolves
        have hp : t.parent d = none := by
          rw [parent, get_of_not_has hnot]
          rfl
        rw [resolveValue_of_root hp, answer?_eq_none.mpr hsite.unknown] at hfound
        exact absurd hfound (by simp)
      have hnew := hunknown.2
      rw [Scope.capture?] at hnew
      rw [answer?, hentries, hunknown.1, Scope.capture?, hc.captures_new d hd hhas,
        List.find?_append, hnew, Option.none_or, List.find?_cons]
      simp [Resolved.capture, Capture.name]
    · refine Or.inl ?_
      have hcapture : ((t.capture s r.binding r.owner).get d).capture? n = (t.get d).capture? n := by
        by_cases hhas : t.Has d
        · rw [Scope.capture?, hc.captures_new d hd hhas, List.find?_append, Scope.capture?]
          have hother : [r.capture].find? (fun c => c.name == n) = none := by
            simp [Resolved.capture, Capture.name, Ne.symm hn]
          rw [hother, Option.or_none]
        · have hhas' : ¬ (t.capture s r.binding r.owner).Has d := by
            rwa [Has, hc.size_eq]
          rw [get_of_not_has hhas, get_of_not_has hhas']
      rw [answer?, hentries, hcapture, answer?]
  · refine Or.inl ?_
    rw [answer?, hentries, Scope.capture?, hc.captures_old d hd, answer?, Scope.capture?]

theorem WF.parent_capture (h : t.WF) (s : ScopeId) (r : Resolved) (d : ScopeId) :
    (t.capture s r.binding r.owner).parent d = t.parent d :=
  ((h.captured s r).head d).parent

theorem WF.capture (h : t.WF) (s : ScopeId) (r : Resolved) :
    (t.capture s r.binding r.owner).WF := by
  refine ⟨fun d q hq => ?_⟩
  rw [h.parent_capture s r] at hq
  exact h.parent_lt d q hq

/-- Recording a capture changes the meaning of no name. -/
theorem WF.resolveValue_capture (h : t.WF) (hr : t.resolveValue s r.binding.name = some r)
    (p : ScopeId) (n : String) :
    (t.capture s r.binding r.owner).resolveValue p n = t.resolveValue p n := by
  have hw := h.capture s r
  induction p using h.induction with
  | root p hp =>
    have hp' : (t.capture s r.binding r.owner).parent p = none := by rw [h.parent_capture s r, hp]
    rw [resolveValue_of_root hp']
    rcases h.answer?_capture hr p with ha | ⟨ha, hfound⟩
    · rw [ha, resolveValue_of_root hp]
    · rw [ha, hfound]
  | child p q hp ih =>
    have hp' : (t.capture s r.binding r.owner).parent p = some q := by
      rw [h.parent_capture s r, hp]
    rw [hw.resolveValue_of_parent hp']
    rcases h.answer?_capture hr p with ha | ⟨ha, hfound⟩
    · rw [ha, ih, h.resolveValue_of_parent hp]
    · rw [ha, hfound, Option.some_or]

/-- The using scope has the capture afterwards, whether it is new or not. -/
theorem Sound.mem_captures_capture (h : Sound t) (hu : Uses t s r) (hs : t.Has s) :
    r.capture ∈ ((t.capture s r.binding r.owner).get s).captures := by
  have hc := h.captured s r
  by_cases hk : (t.get s).knows r.binding.name = true
  · exact (hc.extends.captures s hs).subset (hu.mem_captures_of_knows h.toWF hk)
  · have hmem : s ∈ t.captureSites s r.binding r.owner := by
      rw [h.captureSites_eq s r, beq_false_of_ne (hu.ne_owner h.toWF), Bool.false_or, if_neg hk]
      exact List.mem_cons_self
    rw [hc.captures_new s hmem hs]
    exact List.mem_append_right _ List.mem_cons_self

/-- Only the scopes around a use record it. -/
theorem Sound.captures_capture_of_not_mem (h : Sound t) (hu : Uses t s r) (hd : d ∉ t.path s) :
    ((t.capture s r.binding r.owner).get d).captures = (t.get d).captures :=
  (h.captured s r).captures_old d fun hmem => hd (h.captureSites_spec hu.resolves hmem).1

/-- An instance routine of its type reaches a member directly. -/
theorem Sound.reachesDirectly_member (h : Sound t) (hm : Meant t s r)
    (hr : r.binding.role = .field) {m : ScopeId} (hp : t.parent m = some r.owner)
    (hk : (t.get m).kind = .routine) (hst : (t.get m).isStatic = false) :
    t.reachesDirectly r.binding r.owner m = true := by
  obtain ⟨hkind, howner⟩ := h.owner_kind hm (by rw [hr]; rfl)
  have hplaced := h.placed m (has_of_parent hp)
  rw [hk] at hplaced
  obtain ⟨hmain, -⟩ | ⟨p, hp', ⟨hbody, -⟩ | ⟨-, hmember⟩⟩ := hplaced
  · exact absurd hmain (by simp)
  · obtain rfl := Option.some.inj (hp.symm.trans hp')
    rw [hkind] at hbody
    exact absurd hbody (by simp [ScopeKind.isBody])
  · obtain rfl := Option.some.inj (hp.symm.trans hp')
    have htype := h.placed r.owner (has_of_mem_entries hm.declared)
    rw [hkind] at htype
    obtain ⟨hmain, -⟩ | ⟨q, -, -, hsome⟩ := htype
    · exact absurd hmain (by simp)
    · have hparent : (t.get m).parent = some r.owner := hp
      simp only [reachesDirectly, hk, hparent, hr, hst, hmember, howner, hsome, beq_self_eq_true,
        Bool.not_false, Bool.and_self]

/-- The new captures are sound. -/
theorem Sound.captureSound_capture (h : Sound t) (hu : Uses t s r) (hs : t.Has s)
    (hd : d ∈ t.captureSites s r.binding r.owner) :
    CaptureSound (t.capture s r.binding r.owner) d r.capture := by
  have hc := h.captured s r
  have hx := hc.extends
  have hw' := h.toWF.capture s r
  obtain ⟨hmem, hsite, hreach, hnext⟩ := h.captureSites_spec hu.resolves hd
  obtain ⟨-, hmeant⟩ := h.meant hsite.resolves
  have hdh := has_of_mem_path hmem hs
  have hmeant' := hmeant.mono hx h.toWF hw' hdh
  refine ⟨hmeant'.owner_mem, Ne.symm hsite.ne_owner, hmeant'.declared, hu.outside.not_static,
    fun hrole => ?_, fun p hp => ?_⟩
  · obtain ⟨m, hm, hne, hpm, hkm, hstm⟩ := hu.outside.inside hrole
    have hmh := has_of_mem_path hm hs
    have hself : m ≠ d := by
      rintro rfl
      by_cases hms : m = s
      · subst hms
        exact hne (owningMethod_of_owns (by rw [hkm]; rfl)).symm
      · have hdirect := h.reachesDirectly_member hmeant hrole hpm hkm hstm
        rw [hreach hms] at hdirect
        exact Bool.noConfusion hdirect
    have hpath : m ∈ t.path d := by
      rcases h.path_linear hm hmem with hmd | hdm
      · exact hmd
      · have hdo := h.mem_path_parent hpm hdm (Ne.symm hself)
        exact absurd (mem_path_antisymm hdo hmeant.owner_mem) hsite.ne_owner
    refine ⟨m, ?_, hself, ?_, ?_, ?_⟩
    · rw [hx.path_eq h.toWF hw' hdh]
      exact hpath
    · rw [h.parent_capture s r]
      exact hpm
    · rw [hx.kind_eq hmh, hkm]
    · rw [(hx.head m hmh).isStatic, hstm]
  · rw [h.parent_capture s r] at hp
    have hph := h.has_parent hp
    rw [hx.reachesDirectly_eq _ _ hph]
    rcases hnext p hp with hin | hstop
    · refine Or.inr (Or.inr ?_)
      rw [hc.captures_new p hin hph]
      exact List.mem_append_right _ List.mem_cons_self
    · rw [stopsAt, Bool.or_eq_true, Bool.or_eq_true, beq_iff_eq] at hstop
      rcases hstop with (howner | hknows) | hdirect
      · exact Or.inl howner
      · have hrp := resolveValue_parent_of_unknown h.toWF hp hsite.unknown hsite.resolves
        obtain ⟨r', ha⟩ := exists_answer_of_knows hknows
        obtain rfl := Option.some.inj (hrp.symm.trans (resolveValue_of_answer h.toWF ha))
        obtain ⟨-, ⟨howner, -⟩ | ⟨c, hcp, rfl⟩⟩ := answer?_cases ha
        · exact Or.inl howner.symm
        · exact Or.inr (Or.inr ((hx.captures p hph).subset hcp))
      · exact Or.inr (Or.inl hdirect)

/-- Recording a capture keeps scopes sound. -/
theorem Sound.capture (h : Sound t) (hu : Uses t s r) (hs : t.Has s) :
    Sound (t.capture s r.binding r.owner) := by
  have hc := h.captured s r
  have hhas : ∀ d, (t.capture s r.binding r.owner).Has d ↔ t.Has d := fun d => by
    rw [Has, hc.size_eq, Has]
  refine h.extend hc.extends ?_ ?_ ?_ ?_
  · exact hc.extends.wf h.toWF fun a b hab hnot => absurd ((hhas a).mp (has_of_parent hab)) hnot
  · exact fun d hd hnot => absurd ((hhas d).mp hd) hnot
  · intro d b hb
    rw [hc.entries] at hb
    exact Or.inl hb
  · intro d c hcd
    by_cases hd : d ∈ t.captureSites s r.binding r.owner
    · have hdh := (hhas d).mp (has_of_mem_captures hcd)
      rw [hc.captures_new d hd hdh, List.mem_append, List.mem_singleton] at hcd
      rcases hcd with hold | rfl
      · exact Or.inl hold
      · exact Or.inr (h.captureSound_capture hu hs hd)
    · rw [hc.captures_old d hd] at hcd
      exact Or.inl hcd

/-- What is linked stays linked when a capture is recorded. -/
theorem Linked.capture (hl : Linked t d) (h : Sound t) (hu : Uses t s r) (hs : t.Has s)
    (hd : t.Has d) : Linked (t.capture s r.binding r.owner) d := by
  have hc := h.captured s r
  have hw' := (h.capture hu hs).toWF
  intro x hx hkind p hp c hcx
  rw [hc.extends.path_eq h.toWF hw' hd] at hx
  have hxh := has_of_mem_path hx hd
  rw [hc.extends.kind_eq hxh] at hkind
  rw [h.parent_capture s r] at hp
  rw [h.resolveValue_capture hu.resolves]
  by_cases hsite : x ∈ t.captureSites s r.binding r.owner
  · rw [hc.captures_new x hsite hxh, List.mem_append, List.mem_singleton] at hcx
    rcases hcx with hold | rfl
    · exact hl x hx hkind p hp c hold
    · obtain ⟨-, hs, -, -⟩ := h.captureSites_spec hu.resolves hsite
      exact resolveValue_parent_of_unknown h.toWF hp hs.unknown hs.resolves
  · rw [hc.captures_old x hsite] at hcx
    exact hl x hx hkind p hp c hcx

end Unnest.Scopes
