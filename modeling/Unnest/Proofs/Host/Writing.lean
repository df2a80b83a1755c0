import Mathlib.Data.List.Nodup
import Unnest.Build.Run

/-!
# What a build writes

A path names a place on disk, whatever is there (`Disk.placeOf`).  Writing a file changes
what is at its place and nothing else, so classes that are written to different places are
all there when the last one is written (`Build.holds_writeClasses`).

Paths whose pieces are all names, and not dots, lead to different places if they differ
(`Disk.placeOf_join_inj`).
-/

namespace Unnest

namespace Path

/-! ## Pieces -/

theorem pieces_ne_nil (cs : List Char) : pieces cs ≠ [] := by
  fun_induction pieces cs <;> simp

theorem pieces_cons {c : Char} (hc : c ≠ '/') {cs piece : List Char} {others : List (List Char)}
    (h : pieces cs = piece :: others) : pieces (c :: cs) = (c :: piece) :: others := by
  rw [pieces, h]
  exact hc

/-- A slash is the end of a piece. -/
theorem pieces_append_slash (xs ys : List Char) :
    pieces (xs ++ '/' :: ys) = pieces xs ++ pieces ys := by
  induction xs with
  | nil => rfl
  | cons c xs ih =>
    by_cases hc : c = '/'
    · subst hc
      exact congrArg ([] :: ·) ih
    · obtain ⟨piece, others, h⟩ := List.exists_cons_of_ne_nil (pieces_ne_nil xs)
      have h' : pieces (xs ++ '/' :: ys) = piece :: (others ++ pieces ys) := by
        rw [ih, h, List.cons_append]
      rw [List.cons_append, pieces_cons hc h, pieces_cons hc h', List.cons_append]

theorem pieces_of_notMem {xs : List Char} (h : '/' ∉ xs) : pieces xs = [xs] := by
  induction xs with
  | nil => rfl
  | cons c xs ih =>
    rw [List.mem_cons, not_or] at h
    exact pieces_cons (Ne.symm h.1) (ih h.2)

/-- A text can be put together again from its pieces. -/
theorem intercalate_pieces (xs : List Char) : List.intercalate ['/'] (pieces xs) = xs := by
  induction xs with
  | nil => rfl
  | cons c xs ih =>
    obtain ⟨piece, others, h⟩ := List.exists_cons_of_ne_nil (pieces_ne_nil xs)
    by_cases hc : c = '/'
    · subst hc
      calc List.intercalate ['/'] ([] :: pieces xs)
          = '/' :: List.intercalate ['/'] (pieces xs) := by rw [h]; rfl
        _ = '/' :: xs := by rw [ih]
    · calc List.intercalate ['/'] (pieces (c :: xs))
          = c :: List.intercalate ['/'] (pieces xs) := by
            rw [pieces_cons hc h, h]
            cases others <;> rfl
        _ = c :: xs := by rw [ih]

/-- A piece that is the name of a file or directory. -/
def IsName (piece : List Char) : Prop := piece ≠ [] ∧ piece ≠ ['.'] ∧ piece ≠ ['.', '.']

/-- What does not end in a dot is a name. -/
theorem isName_concat (xs : List Char) {c : Char} (hc : c ≠ '.') : IsName (xs ++ [c]) := by
  have h : ∀ ys : List Char, ys.getLast? = none ∨ ys.getLast? = some '.' → xs ++ [c] ≠ ys := by
    rintro ys hys rfl
    rw [List.getLast?_concat] at hys
    rcases hys with hys | hys
    · exact absurd hys (by simp)
    · exact hc (Option.some.inj hys)
  exact ⟨h _ (Or.inl rfl), h _ (Or.inr rfl), h _ (Or.inr rfl)⟩

/-- A path that has nothing but names on it. -/
def OfNames (path : String) : Prop := ∀ piece ∈ pieces path.toList, IsName piece

namespace OfNames

variable {path path' : String}

theorem components_eq (h : OfNames path) :
    components path = (pieces path.toList).map String.ofList := by
  rw [components, List.filter_eq_self.mpr]
  intro piece hpiece
  simp [(h piece hpiece).1, (h piece hpiece).2.1]

theorem isAbsolute_eq (h : OfNames path) : isAbsolute path = false := by
  rw [isAbsolute]
  cases hpath : path.toList with
  | nil => rfl
  | cons c cs =>
    rw [List.head?_cons]
    refine beq_eq_false_iff_ne.mpr fun hc => ?_
    obtain rfl := Option.some.inj hc
    refine (h [] ?_).1 rfl
    rw [hpath]
    exact List.mem_cons_self

theorem up_notMem (h : OfNames path) : ".." ∉ components path := by
  rw [h.components_eq, List.mem_map]
  rintro ⟨piece, hpiece, heq⟩
  refine (h piece hpiece).2.2 ?_
  rw [← String.toList_ofList (l := piece), heq]
  rfl

/-- Different paths have different names on them. -/
theorem components_inj (h : OfNames path) (h' : OfNames path')
    (heq : components path = components path') : path = path' := by
  rw [h.components_eq, h'.components_eq] at heq
  have hpieces := List.map_injective_iff.mpr (fun _ _ h => String.ofList_injective h) heq
  rw [← String.toList_inj, ← intercalate_pieces path.toList, hpieces, intercalate_pieces]

end OfNames

/-! ## Joining -/

theorem join_eq (directory : String) {path : String} (h : isAbsolute path = false) :
    directory = "" ∧ join directory path = path ∨
      ∃ before, (directory.toList = before ++ ['/'] ∨ directory.toList = before ∧ before ≠ []) ∧
        (join directory path).toList = before ++ '/' :: path.toList := by
  rw [join, h, if_neg Bool.false_ne_true]
  rcases List.eq_nil_or_concat' directory.toList with hd | ⟨before, c, hd⟩
  · obtain rfl : directory = "" := String.toList_inj.mp hd
    exact Or.inl ⟨rfl, by simp⟩
  · rw [hd]
    by_cases hc : c = '/'
    · subst hc
      refine Or.inr ⟨before, Or.inl rfl, ?_⟩
      simp [hd]
    · refine Or.inr ⟨before ++ [c], Or.inr ⟨rfl, by simp⟩, ?_⟩
      simp [hc, hd]

/-- The names on a joined path are those on both. -/
theorem components_join {directory path : String} (h : isAbsolute path = false) :
    components (join directory path) = components directory ++ components path := by
  rcases join_eq directory h with ⟨rfl, hjoin⟩ | ⟨before, hdirectory, hjoin⟩
  · rw [hjoin]
    rfl
  · have hbefore : components directory =
        ((pieces before).filter fun p => p != [] && p != ['.']).map String.ofList := by
      rcases hdirectory with hd | ⟨hd, -⟩
      · rw [components, hd, pieces_append_slash, List.filter_append]
        exact congrArg (List.map String.ofList) (List.append_nil _)
      · rw [components, hd]
    rw [hbefore, components, hjoin, pieces_append_slash, List.filter_append, List.map_append,
      components]

theorem isAbsolute_join {directory path : String} (h : isAbsolute path = false) :
    isAbsolute (join directory path) = isAbsolute directory := by
  rcases join_eq directory h with ⟨rfl, hjoin⟩ | ⟨before, hdirectory, hjoin⟩
  · rw [hjoin, h]
    rfl
  · rw [isAbsolute, isAbsolute, hjoin]
    rcases hdirectory with hd | ⟨hd, hne⟩ <;> rw [hd] <;> cases before with
    | nil => first | rfl | exact absurd rfl hne
    | cons => rfl

end Path

/-! ## Places -/

namespace Disk

/-- Where names lead from a place, whatever is there. -/
def leadsTo (here : List String) : List String → List String
  | [] => here
  | name :: rest =>
    if name = ".." then leadsTo here.dropLast rest else leadsTo (here ++ [name]) rest

/-- The place of a path. -/
def placeOf (path : String) : List String := leadsTo (start path) (Path.components path)

/-- A file holds a text. -/
def Holds (d : Disk) (place : List String) (text : String) : Prop :=
  ∀ s, (place, s) ∈ d.files ↔ s = text

variable {d d' : Disk} {here place other : List String} {names names' : List String}
  {path path' text : String}

theorem leadsTo_append (here : List String) (names names' : List String) :
    leadsTo here (names ++ names') = leadsTo (leadsTo here names) names' := by
  induction names generalizing here with
  | nil => rfl
  | cons name rest ih =>
    rw [List.cons_append, leadsTo, leadsTo]
    split <;> exact ih _

/-- Names lead inside unless one of them leads up. -/
theorem leadsTo_eq (h : ".." ∉ names) : leadsTo here names = here ++ names := by
  induction names generalizing here with
  | nil => rw [leadsTo, List.append_nil]
  | cons name rest ih =>
    rw [List.mem_cons, not_or] at h
    rw [leadsTo, if_neg (Ne.symm h.1), ih h.2, List.append_assoc, List.singleton_append]

theorem eq_leadsTo_of_walk (h : d.walk here names = some place) : place = leadsTo here names := by
  induction names generalizing here with
  | nil => exact (Option.some.inj h).symm
  | cons name rest ih =>
    rw [walk] at h
    rw [leadsTo]
    split at h
    · rw [if_pos ‹_›]
      exact ih h
    · rw [if_neg ‹_›]
      split at h
      · exact ih h
      · exact absurd h (by simp)

/-- Files in one directory have different places. -/
theorem placeOf_join (h : Path.OfNames path) (directory : String) :
    placeOf (Path.join directory path) = placeOf directory ++ Path.components path := by
  rw [placeOf, Path.components_join h.isAbsolute_eq, start, Path.isAbsolute_join h.isAbsolute_eq,
    ← start, leadsTo_append, leadsTo_eq h.up_notMem, placeOf]

theorem placeOf_join_inj (h : Path.OfNames path) (h' : Path.OfNames path') {directory : String}
    (heq : placeOf (Path.join directory path) = placeOf (Path.join directory path')) :
    path = path' := by
  rw [placeOf_join h, placeOf_join h'] at heq
  exact h.components_inj h' (List.append_cancel_left heq)

/-! ## Changes of a disk -/

theorem files_makeDirectory (h : d.makeDirectory place = some d') : d'.files = d.files := by
  rw [makeDirectory] at h
  split at h
  · exact absurd h (by simp)
  · split at h <;> obtain rfl := Option.some.inj h <;> rfl

theorem files_makeFrom (h : d.makeFrom here names = some d') : d'.files = d.files := by
  induction names generalizing d here with
  | nil => rw [← Option.some.inj h]
  | cons name rest ih =>
    rw [makeFrom] at h
    split at h
    · exact ih h
    · obtain ⟨d₁, hmake, hrest⟩ := Option.bind_eq_some_iff.mp h
      rw [ih hrest, files_makeDirectory hmake]

/-- Making directories leaves the files alone. -/
theorem files_makeDirectories (h : d.makeDirectories path = some d') : d'.files = d.files := by
  rw [makeDirectories] at h
  split at h
  · exact files_makeFrom h
  · exact absurd h (by simp)

/-- A file is written at the place of its path. -/
theorem eq_put_of_writeFile (h : d.writeFile path text = some d') :
    d' = d.put (placeOf path) text := by
  rw [writeFile] at h
  split at h
  · exact absurd h (by simp)
  · split at h
    · exact absurd h (by simp)
    · exact absurd h (by simp)
    · rename_i name hup hlast
      obtain ⟨directory, hwalk, hput⟩ := Option.bind_eq_some_iff.mp h
      dsimp only at hput
      split at hput
      · exact absurd hput (by simp)
      · rw [placeOf, ← List.dropLast_append_getLast? name hlast, leadsTo_append,
          ← eq_leadsTo_of_walk hwalk, leadsTo, if_neg hup, leadsTo, Option.some.inj hput]

theorem mem_files_put {s : String} : (other, s) ∈ (d.put place text).files ↔
    (other, s) ∈ d.files ∧ other ≠ place ∨ other = place ∧ s = text := by
  rw [put, List.mem_append, List.mem_filter, List.mem_singleton, Prod.mk.injEq]
  simp

theorem holds_put (d : Disk) (place : List String) (text : String) :
    (d.put place text).Holds place text := by
  intro s
  rw [mem_files_put]
  exact ⟨fun h => h.elim (fun h => absurd rfl h.2) And.right, fun h => Or.inr ⟨rfl, h⟩⟩

/-- Writing a file changes no other one. -/
theorem Holds.put (h : d.Holds place text) (hne : place ≠ other) (s : String) :
    (d.put other s).Holds place text := by
  intro s'
  rw [mem_files_put, ← h s']
  exact ⟨fun h => h.elim And.left fun h => absurd h.1 hne, fun h => Or.inl ⟨h, hne⟩⟩

theorem Holds.congr (h : d.Holds place text) (hfiles : d'.files = d.files) :
    d'.Holds place text := by
  rwa [Holds, hfiles]

end Disk

/-! ## Classes -/

namespace Build

open Code Disk

-- Nothing here depends on the limits of a path, and counting up to them takes long.
attribute [local irreducible] isUsable

variable {out : String} {d d' : Disk} {c : ClassFile} {cs : List ClassFile}

/-- Where a class is written. -/
def placeOfClass (out : String) (c : ClassFile) : List String :=
  placeOf (Path.join out (fileOf c))

theorem writeClass_ok (h : writeClass out d c = (d', .ok ())) :
    ∃ d₁ : Disk, d₁.files = d.files ∧ d' = d₁.put (placeOfClass out c) c.text := by
  delta writeClass at h
  dsimp only at h
  split at h
  · exact absurd (Prod.mk.inj h).2 (by simp)
  · rename_i d₁ hmake
    split at h
    · exact absurd (Prod.mk.inj h).2 (by simp)
    · rename_i d₂ hwrite
      rw [← (Prod.mk.inj h).1]
      exact ⟨d₁, files_makeDirectories hmake, eq_put_of_writeFile hwrite⟩

theorem writeClasses_cons (out : String) (d : Disk) (c : ClassFile) (cs : List ClassFile) :
    writeClasses out d (c :: cs) =
      match writeClass out d c with
      | (d, .ok ()) => writeClasses out d cs
      | (d, .error e) => (d, .error e) := rfl

theorem writeClasses_cons_ok (h : writeClasses out d (c :: cs) = (d', .ok ())) :
    ∃ d₁ : Disk, writeClass out d c = (d₁, .ok ()) ∧ writeClasses out d₁ cs = (d', .ok ()) := by
  rw [writeClasses_cons] at h
  split at h
  · rename_i d₁ hfirst
    exact ⟨d₁, hfirst, h⟩
  · exact absurd (Prod.mk.inj h).2 (by simp)

theorem exists_of_isOk (h : (writeClasses out d cs).2.isOk = true) :
    ∃ d' : Disk, writeClasses out d cs = (d', .ok ()) := by
  generalize writeClasses out d cs = r at h ⊢
  obtain ⟨d', _ | ⟨⟩⟩ := r
  · exact absurd h (by simp [Except.isOk, Except.toBool])
  · exact ⟨d', rfl⟩

/-- Files that no class is written to stay. -/
theorem holds_of_writeClasses {place : List String} {text : String} (h : d.Holds place text)
    (hne : ∀ c ∈ cs, place ≠ placeOfClass out c)
    (hwrite : writeClasses out d cs = (d', .ok ())) : d'.Holds place text := by
  induction cs generalizing d with
  | nil => rwa [← (Prod.mk.inj hwrite).1]
  | cons c cs ih =>
    rw [List.forall_mem_cons] at hne
    obtain ⟨d₁, hfirst, hrest⟩ := writeClasses_cons_ok hwrite
    obtain ⟨d₂, hfiles, rfl⟩ := writeClass_ok hfirst
    exact ih ((h.congr hfiles).put hne.1 _) hne.2 hrest

/-- Classes with places of their own are all there in the end. -/
theorem holds_writeClasses (hcs : (cs.map (placeOfClass out)).Nodup)
    (hwrite : writeClasses out d cs = (d', .ok ())) :
    ∀ c ∈ cs, d'.Holds (placeOfClass out c) c.text := by
  induction cs generalizing d with
  | nil => exact List.forall_mem_nil _
  | cons c cs ih =>
    rw [List.map_cons, List.nodup_cons] at hcs
    obtain ⟨d₁, hfirst, hrest⟩ := writeClasses_cons_ok hwrite
    obtain ⟨d₂, hfiles, rfl⟩ := writeClass_ok hfirst
    refine List.forall_mem_cons.mpr ⟨?_, ih hcs.2 hrest⟩
    refine holds_of_writeClasses (holds_put d₂ _ _) (fun c' hc' heq => ?_) hrest
    exact hcs.1 (List.mem_map.mpr ⟨c', hc', heq.symm⟩)

end Build

end Unnest
