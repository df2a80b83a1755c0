import Unnest.Proofs.Analysis.Sound

/-!
# Finished definitions

A definition is open while the walk is inside of it.  When the walk leaves it, the
scope around it has found every binding that the definition captured, in order, and the
finding lists where (`SourcesOf`).  From then on the definition captures nothing more:
captures are recorded around the walk, and no definition is entered twice.

`Finished d a` says so of every definition that is not around `d`.  While the walk is
on its way, `d` is the scope that it is in; while the sources of a definition are being
looked up, it is still the definition.
-/

namespace Unnest

/-- The scope around a definition finds what the definition captured, in order. -/
def Scopes.SourcesOf (t : Scopes) (s : ScopeId) (sources : List CaptureSource) : Prop :=
  ∃ p, t.parent s = some p ∧ List.Forall₂ (t.Sourced p) (t.get s).captures sources

theorem Scopes.SourcesOf.mono {t t' : Scopes} {s : ScopeId} {sources : List CaptureSource}
    (h : t.SourcesOf s sources) (hx : t.Extends t') (hw : t.WF) (hw' : t'.WF)
    (hc : (t'.get s).captures = (t.get s).captures) : t'.SourcesOf s sources := by
  obtain ⟨p, hp, hs⟩ := h
  refine ⟨p, ?_, ?_⟩
  · rw [hx.parent_eq (has_of_parent hp), hp]
  · rw [hc]
    refine hs.imp fun c source h => ?_
    exact ⟨h.name_eq, h.type_eq, h.reaches.mono hx hw hw' (hw.has_parent hp), h.not_static⟩

theorem Scopes.Step.captures_new {t t' : Scopes} {s x : ScopeId} (h : t.Step s t')
    (hx : ¬ t.Has x) : (t'.get x).captures = [] := by
  by_contra hne
  obtain ⟨c, hc⟩ := List.exists_mem_of_ne_nil _ hne
  have hxh := has_of_mem_captures hc
  cases h with
  | capture h =>
    rw [Has, Scopes.capture, size_foldl_pushCapture] at hxh
    exact hx hxh
  | declare _ _ _ h =>
    rw [Has, (declared_of_declare h).size_eq] at hxh
    exact hx hxh
  | param _ _ _ _ _ h =>
    rw [Has, (declared_of_declare h).size_eq] at hxh
    exact hx hxh
  | declareType _ _ _ h =>
    rw [Has, (typeDeclared_of_declareType h).size_eq] at hxh
    exact hx hxh
  | nextBlockName =>
    rw [Has, size_nextBlockName] at hxh
    exact hx hxh
  | @openMember kind memberOf isStatic may name _ unit =>
    obtain rfl := eq_of_has_openMember hxh hx
    rw [(agrees_openMember_new t s kind name unit memberOf isStatic).captures] at hc
    exact List.not_mem_nil hc

namespace Analysis

/-- Every definition that is not around `d` is finished. -/
structure Finished (d : ScopeId) (a : Analysis) : Prop where
  routine_inj : ∀ e ∈ a.findings.routines, ∀ e' ∈ a.findings.routines,
    e.2.scope = e'.2.scope → e.1 = e'.1
  routine_sources : ∀ e ∈ a.findings.routines,
    e.2.scope ∈ a.scopes.path d ∨ a.scopes.SourcesOf e.2.scope e.2.captures
  type_inj : ∀ e ∈ a.findings.types, ∀ e' ∈ a.findings.types,
    e.2.scope = e'.2.scope → e.1 = e'.1
  type_closed : ∀ e ∈ a.findings.types, e.2.scope ∉ a.scopes.path d
  type_sources : ∀ e ∈ a.findings.types, a.scopes.SourcesOf e.2.scope e.2.captures
  routine_recorded : ∀ s, (a.scopes.get s).kind = .routine → (a.scopes.get s).captures ≠ [] →
    s ∈ a.scopes.path d ∨ ∃ e ∈ a.findings.routines, e.2.scope = s
  type_recorded : ∀ s, (a.scopes.get s).kind = .type → (a.scopes.get s).captures ≠ [] →
    s ∈ a.scopes.path d ∨ ∃ e ∈ a.findings.types, e.2.scope = s

variable {K L : Multiset Key} {a b c : Analysis} {d : ScopeId}

theorem Finished.step (hf : Finished d a) (ha : Sound a) (hd : a.scopes.Has d)
    (hcur : a.current ∈ a.scopes.path d) (h : Step K a b) : Finished d b := by
  cases h with
  | report => exact ⟨hf.1, hf.2, hf.3, hf.4, hf.5, hf.6, hf.7⟩
  | types => exact ⟨hf.1, hf.2, hf.3, hf.4, hf.5, hf.6, hf.7⟩
  | plan => exact ⟨hf.1, hf.2, hf.3, hf.4, hf.5, hf.6, hf.7⟩
  | @scopes _ t h =>
    have hx := h.extends
    have hw' := h.wf ha.scopes.toWF ha.has
    have hpath := hx.path_eq ha.scopes.toWF hw' hd
    have hout : ∀ x, a.scopes.Has x → x ∉ a.scopes.path d →
        (t.get x).captures = (a.scopes.get x).captures := fun x hxh hxd =>
      h.captures_eq ha.scopes hxh fun hxc => hxd (ha.scopes.mem_path_trans hxc hcur)
    refine ⟨hf.routine_inj, fun e he => ?_, hf.type_inj, fun e he => ?_, fun e he => ?_, ?_, ?_⟩
    · dsimp only
      rw [hpath]
      by_cases hed : e.2.scope ∈ a.scopes.path d
      · exact Or.inl hed
      · refine Or.inr (((hf.routine_sources e he).resolve_left hed).mono hx ha.scopes.toWF hw' ?_)
        exact hout _ (ha.routines e he).has hed
    · dsimp only
      rw [hpath]
      exact hf.type_closed e he
    · refine (hf.type_sources e he).mono hx ha.scopes.toWF hw' ?_
      exact hout _ (ha.typeFindings e he).has (hf.type_closed e he)
    all_goals
      intro s hk hne
      dsimp only at hk hne ⊢
      rw [hpath]
      by_cases hsd : s ∈ a.scopes.path d
      · exact Or.inl hsd
      · by_cases hs : a.scopes.Has s
        · rw [hout s hs hsd] at hne
          rw [hx.kind_eq hs] at hk
          first
            | exact hf.routine_recorded s hk hne
            | exact hf.type_recorded s hk hne
        · exact absurd (h.captures_new hs) hne
  | @record _ k f h =>
    cases h with
    | @routine node f ho =>
      refine ⟨?_, fun e he => ?_, hf.type_inj, hf.type_closed, hf.type_sources,
        fun s hk hne => ?_, hf.type_recorded⟩
      · intro e he e' he' heq
        rcases List.mem_cons.mp he with rfl | he <;> rcases List.mem_cons.mp he' with rfl | he'
        · rfl
        · have hlt := ho.fresh e' he'
          dsimp only at heq
          rw [heq] at hlt
          exact absurd hlt (Nat.lt_irrefl _)
        · have hlt := ho.fresh e he
          dsimp only at heq
          rw [heq] at hlt
          exact absurd hlt (Nat.lt_irrefl _)
        · exact hf.routine_inj e he e' he' heq
      · rcases List.mem_cons.mp he with rfl | he
        · refine Or.inr ⟨_, ho.parent, ?_⟩
          rw [ho.empty, ho.captures]
          exact List.Forall₂.nil
        · exact hf.routine_sources e he
      · refine (hf.routine_recorded s hk hne).imp_right ?_
        rintro ⟨e, he, heq⟩
        exact ⟨e, List.mem_cons_of_mem _ he, heq⟩
    | _ => exact ⟨hf.1, hf.2, hf.3, hf.4, hf.5, hf.6, hf.7⟩

theorem Finished.steps (hf : Finished d a) (ha : Sound a) (hd : a.scopes.Has d)
    (hcur : a.current ∈ a.scopes.path d) (h : Steps K a b) : Finished d b := by
  induction h with
  | refl => exact hf
  | step h => exact hf.step ha hd hcur h
  | trans h _ ih ih' =>
    have hb := ha.steps h
    refine ih' (ih hf ha hd hcur) hb (h.grows.scopes.has hd) ?_
    rw [h.current_eq, h.grows.scopes.path_eq ha.scopes.toWF hb.scopes.toWF hd]
    exact hcur
  | mono _ _ ih => exact ih hf ha hd hcur

/-- Entering a scope opens it. -/
theorem Finished.enter (hf : Finished a.current a) (ha : Sound a) {s : ScopeId}
    (hp : a.scopes.parent s = some a.current) (hs : ∀ e ∈ a.findings.types, e.2.scope ≠ s) :
    Finished s { a with current := s } := by
  have hpath := ha.scopes.path_of_parent hp
  refine ⟨hf.routine_inj, fun e he => ?_, hf.type_inj, fun e he hmem => ?_, hf.type_sources,
    fun x hk hne => ?_, fun x hk hne => ?_⟩
  · exact (hf.routine_sources e he).imp_left (ha.scopes.mem_path_of_parent hp)
  · dsimp only at hmem
    rw [hpath, List.mem_cons] at hmem
    rcases hmem with heq | hmem
    · exact hs e he heq
    · exact hf.type_closed e he hmem
  · exact (hf.routine_recorded x hk hne).imp_left (ha.scopes.mem_path_of_parent hp)
  · exact (hf.type_recorded x hk hne).imp_left (ha.scopes.mem_path_of_parent hp)

/-- Walks finish what they open. -/
theorem Finished.walk (hf : Finished a.current a) (ha : Sound a) (h : Walk K a b)
    (hK : (K + a.findings.keys).Nodup) : Finished b.current b := by
  induction h with
  | steps h =>
    rw [h.current_eq]
    exact hf.steps ha ha.has (Scopes.mem_path_self _ _) h
  | @trans K L a b c h h' ih ih' =>
    have hKa : (K + a.findings.keys).Nodup := by
      refine Multiset.nodup_of_le ?_ hK
      rw [add_assoc, add_left_comm]
      exact Multiset.le_add_left _ _
    refine ih' (ih hf ha hKa) (ha.walk h) (Multiset.nodup_of_le ?_ hK)
    refine (add_le_add_right h.keys_le L).trans (le_of_eq ?_)
    abel
  | mono _ hKL ih => exact ih hf ha (Multiset.nodup_of_le (add_le_add_left hKL _) hK)
  | @inside K a b s hp hk h ih =>
    have hs := ha.enter hp (hk.imp_right And.right)
    have hb := hs.walk h
    have hkind : ∀ k, (a.scopes.get s).kind = k → k ≠ .routine ∧ k ≠ .type := by
      rintro k rfl
      rcases hk with hk | ⟨hk, -⟩ <;> rw [hk] <;> simp
    have hbs := ih (hf.enter ha hp fun e he heq => ?_) hs hK
    · rw [h.current_eq] at hbs
      have hsh := Scopes.has_of_parent hp
      have hp' : b.scopes.parent s = some a.current := by rw [h.grows.scopes.parent_eq hsh, hp]
      have hkb := h.grows.scopes.kind_eq hsh
      have hpath : ∀ x, x ∈ b.scopes.path s → x ≠ s → x ∈ b.scopes.path a.current :=
        fun x hx hne => hb.scopes.mem_path_parent hp' hx hne
      refine ⟨hbs.routine_inj, fun e he => ?_, hbs.type_inj, fun e he hmem => ?_,
        hbs.type_sources, fun x hkx hne => ?_, fun x hkx hne => ?_⟩
      · refine (hbs.routine_sources e he).imp_left fun hmem => hpath _ hmem ?_
        rintro rfl
        exact (hkind _ hkb.symm).1 (hb.routines e he).kind
      · exact hbs.type_closed e he (hb.scopes.mem_path_of_parent hp' hmem)
      · refine (hbs.routine_recorded x hkx hne).imp_left fun hmem => hpath _ hmem ?_
        rintro rfl
        exact (hkind _ hkb.symm).1 hkx
      · refine (hbs.type_recorded x hkx hne).imp_left fun hmem => hpath _ hmem ?_
        rintro rfl
        exact (hkind _ hkb.symm).2 hkx
    · subst heq
      exact (hkind _ rfl).2 (ha.typeFindings e he).kind
  | @routine K a b c s node sources hp hk hempty found body after sourced ih =>
    have hs := ha.enter hp (Or.inr hempty)
    have hb := hs.walk body
    have hsh := Scopes.has_of_parent hp
    have hbs := ih (hf.enter ha hp fun e he heq => ?_) hs hK
    · rw [body.current_eq] at hbs
      have hback := hb.back hp body
      have hpb : b.scopes.parent s = some a.current := by
        rw [body.grows.scopes.parent_eq hsh, hp]
      have hshb := body.grows.scopes.has hsh
      have hbs' : Finished s { b with current := a.current } :=
        ⟨hbs.1, hbs.2, hbs.3, hbs.4, hbs.5, hbs.6, hbs.7⟩
      have hcs := hbs'.steps hback hshb
        (hb.scopes.mem_path_of_parent hpb (Scopes.mem_path_self _ _)) after
      have hc := hback.steps after
      have hpc : c.scopes.parent s = some a.current := by
        rw [after.grows.scopes.parent_eq hshb, hpb]
      have hkc : (c.scopes.get s).kind = .routine := by
        rw [after.grows.scopes.kind_eq hshb, body.grows.scopes.kind_eq hsh, hk]
      obtain ⟨f, hfa, hfs⟩ := found
      obtain ⟨cs, hfc⟩ := (body.grows.findings.trans after.grows.findings).routines _ hfa
      have hnd : c.findings.keys.Nodup := by
        refine Multiset.nodup_of_le ?_ hK
        have hkeys := after.keys_le
        rw [zero_add] at hkeys
        exact hkeys.trans body.keys_le
      have hpath : ∀ x, x ∈ c.scopes.path s → x ≠ s → x ∈ c.scopes.path a.current :=
        fun x hx hne => hc.scopes.mem_path_parent hpc hx hne
      have hcur := after.current_eq
      dsimp only at hcur ⊢
      rw [hcur]
      refine ⟨?_, fun e he => ?_, hcs.type_inj, fun e he hmem => ?_, hcs.type_sources,
        fun x hkx hne => ?_, fun x hkx hne => ?_⟩
      · intro e he e' he' heq
        obtain ⟨e₀, he₀, h₁, h₂, -⟩ := Findings.mem_routines_complete he
        obtain ⟨e₁, he₁, h₁', h₂', -⟩ := Findings.mem_routines_complete he'
        rw [h₁, h₁']
        rw [h₂, h₂'] at heq
        exact hcs.routine_inj e₀ he₀ e₁ he₁ heq
      · obtain ⟨e₀, he₀, h₁, h₂, ⟨hnode, hsources⟩ | ⟨hnode, rfl⟩⟩ :=
          Findings.mem_routines_complete he
        · obtain ⟨node₀, f₀⟩ := e₀
          obtain rfl : node₀ = node := hnode
          obtain rfl := (Findings.nodup_routines hnd).eq_of_mem hfc he₀
          refine Or.inr ⟨a.current, ?_, ?_⟩
          · rw [h₂, ← hpc, ← hfs]
          · rw [hsources, h₂]
            dsimp only
            rw [hfs]
            exact sourced
        · rcases hcs.routine_sources e he₀ with hmem | hsrc
          · refine Or.inl (hpath _ hmem fun heq => hnode ?_)
            exact hcs.routine_inj e he₀ _ hfc (by rw [heq]; exact hfs.symm)
          · exact Or.inr hsrc
      · exact hcs.type_closed e he (hc.scopes.mem_path_of_parent hpc hmem)
      · by_cases heq : x = s
        · subst heq
          refine Or.inr ⟨_, List.mem_map.mpr ⟨_, hfc, if_pos rfl⟩, hfs⟩
        · rcases hcs.routine_recorded x hkx hne with hmem | ⟨e, he, hex⟩
          · exact Or.inl (hpath x hmem heq)
          · obtain ⟨cs', he'⟩ := (Findings.grows_complete c.findings node sources).routines e he
            exact Or.inr ⟨_, he', hex⟩
      · refine (hcs.type_recorded x hkx hne).imp_left fun hmem => hpath x hmem ?_
        rintro rfl
        dsimp only at hkx
        rw [hkc] at hkx
        exact absurd hkx (by simp)
    · subst heq
      rw [(ha.typeFindings e he).kind] at hk
      exact absurd hk (by simp)
  | @type K a b c node f hp hk hempty fresh hm _ _ hin hik body after sourced ih =>
    have hs := ha.enter hp (Or.inr hempty)
    have hb := hs.walk body
    have hsh := Scopes.has_of_parent hp
    have hKa : (K + a.findings.keys).Nodup := by
      refine Multiset.nodup_of_le ?_ hK
      rw [add_right_comm]
      exact Multiset.le_add_right _ _
    have hbs := ih (hf.enter ha hp fresh) hs hKa
    rw [body.current_eq] at hbs
    have hback := hb.back hp body
    have hpb : b.scopes.parent f.scope = some a.current := by
      rw [body.grows.scopes.parent_eq hsh, hp]
    have hshb := body.grows.scopes.has hsh
    have hbs' : Finished f.scope { b with current := a.current } :=
      ⟨hbs.1, hbs.2, hbs.3, hbs.4, hbs.5, hbs.6, hbs.7⟩
    have hcs := hbs'.steps hback hshb
      (hb.scopes.mem_path_of_parent hpb (Scopes.mem_path_self _ _)) after
    have hc := hback.steps after
    have hpc : c.scopes.parent f.scope = some a.current := by
      rw [after.grows.scopes.parent_eq hshb, hpb]
    have hkc : (c.scopes.get f.scope).kind = .type := by
      rw [after.grows.scopes.kind_eq hshb, body.grows.scopes.kind_eq hsh, hk]
    have hpath : ∀ x, x ∈ c.scopes.path f.scope → x ≠ f.scope → x ∈ c.scopes.path a.current :=
      fun x hx hne => hc.scopes.mem_path_parent hpc hx hne
    have hcur := after.current_eq
    dsimp only at hcur ⊢
    rw [hcur]
    refine ⟨hcs.routine_inj, fun e he => ?_, fun e he e' he' heq => ?_, fun e he hmem => ?_,
      fun e he => ?_, fun x hkx hne => ?_, fun x hkx hne => ?_⟩
    · refine (hcs.routine_sources e he).imp_left fun hmem => hpath _ hmem fun heq => ?_
      have hke := (hc.routines e he).kind
      rw [heq, hkc] at hke
      exact absurd hke (by simp)
    · have hold : ∀ e ∈ c.findings.types, e.2.scope ≠ f.scope := fun e he heq =>
        hcs.type_closed e he (heq ▸ Scopes.mem_path_self _ _)
      rcases List.mem_cons.mp he with rfl | he <;> rcases List.mem_cons.mp he' with rfl | he'
      · rfl
      · exact absurd heq.symm (hold e' he')
      · exact absurd heq (hold e he)
      · exact hcs.type_inj e he e' he' heq
    · rcases List.mem_cons.mp he with rfl | he
      · exact hc.scopes.ne_of_mem_path_parent hpc hmem rfl
      · exact hcs.type_closed e he (hc.scopes.mem_path_of_parent hpc hmem)
    · rcases List.mem_cons.mp he with rfl | he
      · exact ⟨a.current, hpc, sourced⟩
      · exact hcs.type_sources e he
    · refine (hcs.routine_recorded x hkx hne).imp_left fun hmem => hpath x hmem ?_
      rintro rfl
      dsimp only at hkx
      rw [hkc] at hkx
      exact absurd hkx (by simp)
    · by_cases heq : x = f.scope
      · exact Or.inr ⟨_, List.mem_cons_self, heq.symm⟩
      · rcases hcs.type_recorded x hkx hne with hmem | ⟨e, he, hex⟩
        · exact Or.inl (hpath x hmem heq)
        · exact Or.inr ⟨e, List.mem_cons_of_mem _ he, hex⟩

end Analysis

end Unnest
