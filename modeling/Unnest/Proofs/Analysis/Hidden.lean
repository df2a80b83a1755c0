import Unnest.Proofs.Analysis.Names

/-!
# Instance members and static code

An instance member is reached by way of the instance, and only the instance routines of its
type have one.  Which scope decides is a matter of nesting alone: the *way in*, the scope right
inside the type that the looking scope stands in (`Scopes.WayIn`).  If it is an instance
routine, the member is found, in the instance itself or captured by what is nested deeper.  If
it is a static routine or the scope of the static initial values, the member is hidden: the
name is reported as undeclared, nothing is captured, and no outer value or type of the same
name is taken for it (`Reached.instance_member`).

Resolution answers from captures too, and those of static initial values can be stale.  They
are never stale about an instance member (`Linked.resolveValue_member`).
-/

namespace Unnest

namespace Scopes

variable {t : Scopes} {s p c c' : ScopeId} {n : String} {r : Resolved}

/-! ## The way in -/

/-- The scope right inside `o` on the way from a scope outwards. -/
structure WayIn (t : Scopes) (s o c : ScopeId) : Prop where
  mem_path : c ∈ t.path s
  parent : t.parent c = some o

theorem WF.exists_wayIn (hw : t.WF) {o : ScopeId} (ho : o ∈ t.path s) (hne : o ≠ s) :
    ∃ c, WayIn t s o c := by
  induction s using hw.induction with
  | root s hs =>
    rw [path_of_root hs, List.mem_singleton] at ho
    exact absurd ho hne
  | child s p hp ih =>
    have hmem := hw.mem_path_parent hp ho hne
    by_cases heq : o = p
    · exact ⟨s, mem_path_self t s, heq ▸ hp⟩
    · obtain ⟨c, hc⟩ := ih hmem heq
      exact ⟨c, hw.mem_path_of_parent hp hc.mem_path, hc.parent⟩

theorem WF.wayIn_unique (hw : t.WF) {o : ScopeId} (h : WayIn t s o c) (h' : WayIn t s o c') :
    c = c' :=
  hw.eq_of_parent_eq h.mem_path h'.mem_path h.parent h'.parent

/-- Right inside a type there are routines and the scope of its static initial values. -/
theorem Sound.ownsMethod_of_parent_type (h : Sound t) (hp : t.parent c = some p)
    (hk : (t.get p).kind = .type) : (t.get c).kind.ownsMethod = true := by
  obtain ⟨hmain, -⟩ | ⟨p', hp', hopen⟩ := h.placed c (has_of_parent hp)
  · rw [hmain]
    rfl
  · obtain rfl := Option.some.inj (hp.symm.trans hp')
    cases hc : (t.get c).kind with
    | block =>
      rw [hc, MayOpen, hk] at hopen
      exact absurd hopen (by decide)
    | main | type | routine | fieldInit => rfl

/-! ## Access -/

/-- An instance routine: its code has an instance. -/
def HasInstance (t : Scopes) (c : ScopeId) : Prop :=
  (t.get c).kind = .routine ∧ (t.get c).isStatic = false

/-- An instance member is in no slot. -/
theorem Sound.accessTo_member (h : Sound t) (hm : Meant t s r) (hr : r.binding.role = .field) :
    t.accessTo s r = t.memberAccess s r := by
  have hslot := (h.entries _ _ hm.declared).2
  rw [hr] at hslot
  have hnone : r.binding.slot = none := Option.isSome_eq_false_iff.mp hslot |> Option.isNone_iff_eq_none.mp
  rw [accessTo, hnone]
  dsimp only
  rw [outerAccess, hr]

/-- The scope right inside the type decides. -/
theorem Sound.memberAccess_of_wayIn (h : Sound t) (hk : (t.get r.owner).kind = .type)
    (hc : WayIn t s r.owner c) :
    (t.HasInstance c → t.memberAccess s r =
      .found r (if c = t.owningMethod s then .enclosing else .captured)) ∧
    (¬ t.HasInstance c → t.memberAccess s r = .hidden) := by
  have hmem : c ∈ t.methods s :=
    mem_methods.mpr ⟨hc.mem_path, h.ownsMethod_of_parent_type hc.parent hk⟩
  have hfind : (t.methods s).find? (fun m => t.parent m == some r.owner) = some c := by
    obtain ⟨m, hm⟩ := Option.isSome_iff_exists.mp
      (List.find?_isSome (p := fun m => t.parent m == some r.owner) |>.mpr
        ⟨c, hmem, beq_iff_eq.mpr hc.parent⟩)
    have hparent := List.find?_some hm
    have hpath := (mem_methods.mp (List.mem_of_find?_eq_some hm)).1
    rw [hm, h.toWF.wayIn_unique ⟨hpath, eq_of_beq hparent⟩ hc]
  rw [memberAccess, hfind]
  dsimp only
  exact ⟨fun hi => if_pos hi, fun hi => if_neg hi⟩

theorem memberAccess_of_no_wayIn (h : ∀ c, ¬ WayIn t s r.owner c) : t.memberAccess s r = .hidden := by
  have hfind : (t.methods s).find? (fun m => t.parent m == some r.owner) = none := by
    refine List.find?_eq_none.mpr fun m hm hp => ?_
    exact h m ⟨(mem_methods.mp hm).1, eq_of_beq hp⟩
  rw [memberAccess, hfind]

/-! ## Resolution -/

theorem capture?_isSome {cp : Capture} (h : cp ∈ (t.get s).captures) :
    ∃ cp', (t.get s).capture? cp.name = some cp' :=
  Option.isSome_iff_exists.mp (List.find?_isSome.mpr ⟨cp, h, beq_self_eq_true _⟩)

/-- The static initial values of a type find an instance member that is the nearest
declaration of its name.  If they have captured the name, so has the type, and both captures
are what the name means around the type. -/
theorem Linked.resolveValue_member (h : Sound t) (hl : Linked t s)
    (hk : (t.get s).kind = .fieldInit) (hm : CapturesNoMember t s)
    (hr : t.nearest? s n = some r) (hrole : r.binding.role = .field) :
    t.resolveValue s n = some r := by
  obtain ⟨hmain, -⟩ | ⟨p, hp, -⟩ := h.placed s (by
    by_contra hs
    rw [get_of_not_has hs] at hk
    exact absurd hk (by decide))
  · exact absurd (hk.symm.trans hmain) (by decide)
  have hlp := hl.of_parent h.toWF hp
  rw [h.toWF.nearest?_of_parent hp, h.binding?_fieldInit hk, Option.map_none, Option.none_or] at hr
  have hparent : t.resolveValue p n = some r :=
    (hlp.resolveValue_eq h fun hkp => absurd hkp (h.kind_of_parent hp)).trans hr
  rw [h.resolveValue_of_parent hp, answer?, h.binding?_fieldInit hk]
  cases hcap : (t.get s).capture? n with
  | none => exact hparent
  | some cp =>
    obtain ⟨hmem, rfl⟩ := capture?_eq_some hcap
    obtain ⟨p', hp', hmemp⟩ := h.mem_captures_type hk hmem
    obtain rfl := Option.some.inj (hp.symm.trans hp')
    -- The type does not declare the name, for then `r` would be that member.
    have hnone : (t.get p).binding? cp.name = none := by
      cases hb : (t.get p).binding? cp.name with
      | none => rfl
      | some b =>
        have hanswer : t.answer? cp.name p = some ⟨b, p⟩ := by rw [answer?, hb]
        obtain rfl := Option.some.inj (hparent.symm.trans (resolveValue_of_answer h.toWF hanswer))
        exact absurd (hcap.symm.trans (hm p hp _ b hb hrole)) (Option.some_ne_none cp)
    obtain ⟨cp', hcap'⟩ := capture?_isSome hmemp
    obtain ⟨hmemp', hname⟩ := capture?_eq_some hcap'
    have hpk : (t.get p).kind ≠ .fieldInit := h.kind_of_parent hp
    cases hq : t.parent p with
    | none => exact absurd (h.captures_of_root hq ▸ hmemp) List.not_mem_nil
    | some q =>
      have hout := hlp p (mem_path_self t p) hpk q hq cp hmemp
      have hout' := hlp p (mem_path_self t p) hpk q hq cp' hmemp'
      rw [hname, hout] at hout'
      have hanswer : t.answer? cp.name p = some cp'.resolved := by
        rw [answer?, hnone, hcap']
        rfl
      have hfound := hparent.symm.trans (resolveValue_of_answer h.toWF hanswer)
      rw [← hout'] at hfound
      exact hfound.symm

/-- The nearest declaration is one of a scope on the path. -/
theorem meant_of_nearest? (hr : t.nearest? s n = some r) : Meant t s r := by
  obtain ⟨o, ho, hanswer⟩ := List.exists_of_findSome?_eq_some hr
  obtain ⟨b, hb, rfl⟩ := Option.map_eq_some_iff.mp hanswer
  exact ⟨ho, List.mem_of_find?_eq_some hb⟩

end Scopes

namespace Analysis

open Analyze

variable {a : Analysis} {program : String} {q : Program} {T : Task} {n : String}
  {r : Scopes.Resolved}

/-! ## The head of a chain -/

/-- A name that means a hidden member is undeclared, bare or called.  The arguments of the call
are not looked at, and nothing but the error is left behind. -/
theorem run_headLink_of_hidden {l : Link}
    (h : a.scopes.lookup a.current l.name.name = .hidden) (hasMore : Bool) :
    (headLink hasMore l).run a = (none,
      { a with diagnostics := a.diagnostics.report ⟨.undeclared l.name.name none, l.span⟩ }) := by
  have hrun := run_lookup l.name.name a
  rw [h] at hrun
  cases l with
  | bare node name span =>
    have hname : (lookup name.name).run a = (.hidden, a) := hrun
    rw [headLink, bareHead, StateT.run_bind, hname]
    rfl
  | call node name args span =>
    have hname : (lookup name.name).run a = (.hidden, a) := hrun
    rw [headLink, callHead, StateT.run_bind, hname]
    rfl

/-! ## Every lookup -/

theorem noMemberCaptured_initial (program : String) : NoMemberCaptured (initial program) := by
  intro hk
  have hbody := inBody_initial program
  rw [InBody, hk] at hbody
  exact absurd hbody (by decide)

theorem Reached.noMemberCaptured (h : Reached program q T a) : NoMemberCaptured a :=
  h.passes.noMemberCaptured (sound_initial program) (noMemberCaptured_initial program)

/-- A name whose nearest declaration is an instance member means that member. -/
theorem Reached.resolves_member (h : Reached program q T a)
    (hr : a.scopes.nearest? a.current n = some r) (hrole : r.binding.role = .field) :
    a.scopes.resolveValue a.current n = some r := by
  by_cases hk : (a.scopes.get a.current).kind = .fieldInit
  · exact h.sound.linked.resolveValue_member h.sound.scopes hk (h.noMemberCaptured hk) hr hrole
  · rw [h.finds_nearest fun hinit => absurd hinit hk]
    exact hr

/-- What comes of looking up a name that means the instance member `r`. -/
structure MemberLookup (a : Analysis) (n : String) (r : Scopes.Resolved) : Prop where
  /-- The member was declared by a type. -/
  owner_type : (a.scopes.get r.owner).kind = .type
  /-- There is a way into the type, but for its own scope. -/
  way : a.current ≠ r.owner → ∃ c, a.scopes.WayIn a.current r.owner c
  /-- In an instance routine the member is found: through the instance that the routine itself
  belongs to, or captured where the use is nested deeper. -/
  found : ∀ c, a.scopes.WayIn a.current r.owner c → a.scopes.HasInstance c →
    a.scopes.lookup a.current n =
      .found r (if c = a.scopes.owningMethod a.current then .enclosing else .captured)
  /-- Everywhere else it is hidden, and a chain that starts with the name reports that it is
  undeclared and does nothing else. -/
  hidden : (¬ ∃ c, a.scopes.WayIn a.current r.owner c ∧ a.scopes.HasInstance c) →
    a.scopes.lookup a.current n = .hidden ∧
      ∀ hasMore l, l.name.name = n → (headLink hasMore l).run a = (none,
        { a with diagnostics := a.diagnostics.report ⟨.undeclared n none, l.span⟩ })

/-- Wherever an analysis looks up a name whose nearest declaration is an instance member, the
member is found exactly inside the instance routines of its type. -/
theorem Reached.instance_member (h : Reached program q T a)
    (hr : a.scopes.nearest? a.current n = some r) (hrole : r.binding.role = .field) :
    MemberLookup a n r := by
  have hw := h.sound.scopes
  have hmeant := Scopes.meant_of_nearest? hr
  have htype := (hw.owner_kind hmeant (by rw [hrole]; rfl)).1
  have hlookup : a.scopes.lookup a.current n = a.scopes.memberAccess a.current r := by
    rw [Scopes.lookup, h.resolves_member hr hrole]
    exact hw.accessTo_member hmeant hrole
  refine ⟨htype, fun hne => hw.toWF.exists_wayIn hmeant.owner_mem hne.symm, fun c hc hi => ?_,
    fun hno => ?_⟩
  · rw [hlookup]
    exact (hw.memberAccess_of_wayIn htype hc).1 hi
  · have hhidden : a.scopes.lookup a.current n = .hidden := by
      rw [hlookup]
      by_cases hway : ∃ c, a.scopes.WayIn a.current r.owner c
      · obtain ⟨c, hc⟩ := hway
        exact (hw.memberAccess_of_wayIn htype hc).2 fun hi => hno ⟨c, hc, hi⟩
      · exact Scopes.memberAccess_of_no_wayIn fun c hc => hway ⟨c, hc⟩
    refine ⟨hhidden, fun hasMore l hl => ?_⟩
    subst hl
    exact run_headLink_of_hidden hhidden hasMore

/-- A type whose member has the name of a variable outside:

```
integer x = 1
type T
  integer x
  routine get() returns integer
    routine inner() returns integer
      return x
    end inner
    return inner()
  end get
  static routine peek() returns integer
    return x
  end peek
end T
```
-/
def twoNames : Program := (Draft.build [
  .define ⟨none, .of "integer", ["x"], .int 1⟩,
  .type ⟨none, "T", [⟨none, .of "integer", ["x"]⟩], [],
    [⟨none, "get", [], some (.of "integer"),
      [.routine ⟨none, "inner", [], some (.of "integer"), [], some (.chain (.of ["x"])), none⟩],
      some (.chain ⟨none, [.call none "inner" []]⟩), none⟩],
    [⟨none, "peek", [], some (.of "integer"), [], some (.chain (.of ["x"])), none⟩], none⟩]).1

/-- Whether the nearest declaration of `x` is an instance member. -/
def meansMember (a : Analysis) : Bool :=
  (a.scopes.nearest? a.current "x").any (·.binding.role == .field)

theorem of_meansMember (h : meansMember a = true) :
    ∃ r, a.scopes.nearest? a.current "x" = some r ∧ r.binding.role = .field := by
  rw [meansMember, Option.any_eq_true] at h
  obtain ⟨r, hr, hrole⟩ := h
  exact ⟨r, hr, eq_of_beq hrole⟩

/-- The static routine of `twoNames` does not see the member, nor the variable behind it, and
the routine inside of the instance routine captures the member. -/
theorem instance_member_twoNames :
    (∃ a r, Reached "demo" twoNames (.name "x") a ∧
      a.scopes.nearest? a.current "x" = some r ∧ r.binding.role = .field ∧ MemberLookup a "x" r ∧
        a.scopes.lookup a.current "x" = .hidden) ∧
    ∃ a r, Reached "demo" twoNames (.name "x") a ∧
      a.scopes.nearest? a.current "x" = some r ∧ r.binding.role = .field ∧ MemberLookup a "x" r ∧
        a.scopes.lookup a.current "x" = .found r .captured := by
  constructor
  · have hfollow : (Task.follow [1, 0, 0, 1, 2, 3, 0, 1, 0, 0, 0, 0]
        (.stmts twoNames.stmts, initial "demo")).any (Call.looksUp "x" fun a =>
          meansMember a && a.scopes.lookup a.current "x" == .hidden) = true := by decide +kernel
    obtain ⟨a, h, hp⟩ := Reached.exists_lookup hfollow
    obtain ⟨hmember, hhidden⟩ := Bool.and_eq_true_iff.mp hp
    obtain ⟨r, hr, hrole⟩ := of_meansMember hmember
    exact ⟨a, r, h, hr, hrole, h.instance_member hr hrole, eq_of_beq hhidden⟩
  · have hfollow : (Task.follow [1, 0, 0, 1, 2, 2, 0, 0, 0, 1, 1, 0, 0, 0, 0]
        (.stmts twoNames.stmts, initial "demo")).any (Call.looksUp "x" fun a =>
          meansMember a && (a.scopes.nearest? a.current "x").any fun r =>
            a.scopes.lookup a.current "x" == .found r .captured) = true := by decide +kernel
    obtain ⟨a, h, hp⟩ := Reached.exists_lookup hfollow
    obtain ⟨hmember, hcaptured⟩ := Bool.and_eq_true_iff.mp hp
    obtain ⟨r, hr, hrole⟩ := of_meansMember hmember
    rw [hr, Option.any_some] at hcaptured
    exact ⟨a, r, h, hr, hrole, h.instance_member hr hrole, eq_of_beq hcaptured⟩

end Analysis

end Unnest
