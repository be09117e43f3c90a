import ActionVm.Proofs.Files.Containment

/-!
# Spellings of a new file

A file that is not there yet is compared with the roots of a grant by its name in the directory
that is written before the name. Where none is written, the name is compared as it stands.

* `FileTree.Bare`: a path without a directory before its name;
* `FileTree.SpellsNew`: a path that spells a name in a directory, and leads nowhere yet;
* `FileTree.SpellsNew.resolve_eq`: the spelling that is compared;
* **`FileTree.permits_new_file`**: a new file may be accessed where a root covers it, however it is
  spelled, but for a name alone.
-/

namespace ActionVm

namespace FileTree

variable {t : FileTree} {path n : String} {directory : Location} {roots : List String}

/-- The path is a name alone, without a directory before it. -/
def Bare (path : String) : Prop := (Path.ofText path).components.length = 1

instance (path : String) : Decidable (Bare path) :=
  inferInstanceAs (Decidable ((Path.ofText path).components.length = 1))

/-- The path leads nowhere, ends with a name, and has the directory before it. The working directory
stands before a name alone. -/
structure SpellsNew (t : FileTree) (path : String) (directory : Location) (n : String) : Prop where
  nowhere : ∀ place, t.realPlace path ≠ .ok place
  last : (Path.ofText path).components.getLast? = some (.name n)
  before : t.findSteps (Path.ofText path).components.dropLast = .ok directory

/-- The spelling that is compared with the roots. -/
theorem SpellsNew.resolve_eq (h : t.SpellsNew path directory n) :
    t.resolve path = if Bare path then [.name n] else Path.ofLocation (directory ++ [n]) := by
  obtain ⟨e, he⟩ : ∃ e, t.realPlace path = .error e := by
    cases hr : t.realPlace path with
    | error e => exact ⟨e, rfl⟩
    | ok place => exact absurd hr (h.nowhere place)
  rw [resolve, he]
  simp only [h.last, h.before]
  by_cases hbare : (Path.ofText path).components.length = 1
  · rw [if_pos hbare, if_pos (show Bare path from hbare)]
    obtain ⟨piece, hpiece⟩ := List.length_eq_one_iff.mp hbare
    have hlast := h.last
    rw [hpiece] at hlast ⊢
    cases hlast
    rfl
  · rw [if_neg hbare, if_neg (show ¬ Bare path from hbare)]

theorem SpellsNew.permits_iff (h : t.SpellsNew path directory n) (hroots : t.HasRoots roots) :
    t.permits (.within roots) path = true ↔
      ¬ Bare path ∧ t.Covers roots (directory ++ [n]) := by
  have hresolve := h.resolve_eq
  by_cases hbare : Bare path
  · rw [if_pos hbare] at hresolve
    exact ⟨fun hp => absurd hresolve (hroots.resolve_ne_name hp n), fun hp => absurd hbare hp.1⟩
  · rw [if_neg hbare] at hresolve
    rw [hroots.permits_iff hresolve]
    exact ⟨fun hc => ⟨hbare, hc⟩, And.right⟩

/-- **A new file may be accessed where a root covers it**, whatever path spells it; but never by its
name alone. -/
theorem permits_new_file (t : FileTree) (grants : Grants) (access : Access) (roots : List String)
    (hgrant : grants.grant access = .within roots) (hroots : t.HasRoots roots)
    {path path' n : String} {directory : Location} (h : t.SpellsNew path directory n)
    (h' : t.SpellsNew path' directory n) :
    (t.permits (grants.grant access) path = true ↔
      ¬ Bare path ∧ t.Covers roots (directory ++ [n])) ∧
    (t.permits (grants.grant access) path' = true ↔
      ¬ Bare path' ∧ t.Covers roots (directory ++ [n])) ∧
    ((Bare path ↔ Bare path') →
      t.permits (grants.grant access) path = t.permits (grants.grant access) path') := by
  rw [hgrant]
  refine ⟨h.permits_iff hroots, h'.permits_iff hroots, fun hbare => ?_⟩
  rw [Bool.eq_iff_iff, h.permits_iff hroots, h'.permits_iff hroots, hbare]

/-! ## A new file in the working directory -/

theorem ofText_here : Path.ofText "." = ⟨[.here], false⟩ := by
  rw [Path.ofText_eq]
  decide +kernel

theorem ofText_new : Path.ofText "new.txt" = ⟨[.name "new.txt"], false⟩ := by
  rw [Path.ofText_eq]
  decide +kernel

theorem ofText_here_new : Path.ofText "./new.txt" = ⟨[.here, .name "new.txt"], false⟩ := by
  rw [Path.ofText_eq]
  decide +kernel

theorem ofText_detour_new :
    Path.ofText "granted/../new.txt" = ⟨[.name "granted", .up, .name "new.txt"], false⟩ := by
  rw [Path.ofText_eq]
  decide +kernel

theorem realPlace_eq {path : String} (hpath : check path = .ok ()) :
    t.realPlace path = t.findSteps (Path.ofText path).steps := by
  rw [realPlace, hpath]
  rfl

theorem walk_new (links : ℕ) : leaky.walk links ["w"] [.name "new.txt"] = .error .missing := by
  rw [walk_name leaky_working, if_neg (by decide)]
  rfl

theorem walk_here_leaky (links : ℕ) (rest : List Piece) :
    leaky.walk links ["w"] (.here :: rest) = leaky.walk links ["w"] rest :=
  walk_here leaky_working

theorem walk_detour (links : ℕ) (rest : List Piece) :
    leaky.walk links ["w"] (.name "granted" :: .up :: rest) = leaky.walk links ["w"] rest := by
  rw [walk_granted, walk_up leaky_granted]
  rfl

theorem realPlace_here : leaky.realPlace "." = .ok ["w"] := by
  rw [realPlace_eq (by simp [check]), ofText_here, findSteps_eq_ok_iff]
  exact ⟨linkLimit, (walk_here_leaky linkLimit []).trans walk_nil⟩

theorem hasRoots_here : leaky.HasRoots ["."] := by
  intro root hroot
  obtain rfl := List.mem_singleton.mp hroot
  exact ⟨_, realPlace_here, leaky_working⟩

theorem covers_here {n : String} : leaky.Covers ["."] ["w", n] :=
  ⟨".", List.mem_singleton_self _, _, realPlace_here, [n], rfl⟩

theorem spellsNew_of_walk (pieces : List Piece) (hpath : check path = .ok ())
    (htext : Path.ofText path = ⟨pieces ++ [.name "new.txt"], false⟩)
    (hcomponents : (Path.ofText path).components = pieces ++ [.name "new.txt"])
    (hwalk : ∀ rest, leaky.walk linkLimit ["w"] (pieces ++ rest) =
      leaky.walk linkLimit ["w"] rest) : leaky.SpellsNew path ["w"] "new.txt" where
  nowhere place h := by
    rw [realPlace_eq hpath, htext, findSteps_eq_ok_iff] at h
    obtain ⟨left, h⟩ := h
    change leaky.walk linkLimit ["w"] (pieces ++ [.name "new.txt"]) = _ at h
    rw [hwalk, walk_new] at h
    cases h
  last := by rw [hcomponents, List.getLast?_concat]
  before := by
    rw [hcomponents, List.dropLast_concat, findSteps_eq_ok_iff]
    have h := hwalk []
    rw [List.append_nil] at h
    exact ⟨linkLimit, h.trans walk_nil⟩

theorem spellsNew_bare : leaky.SpellsNew "new.txt" ["w"] "new.txt" :=
  spellsNew_of_walk [] (by simp [check]) ofText_new (by rw [ofText_new]; rfl)
    fun _ => rfl

theorem spellsNew_here : leaky.SpellsNew "./new.txt" ["w"] "new.txt" :=
  spellsNew_of_walk [.here] (by simp [check]) ofText_here_new
    (by rw [ofText_here_new]; rfl) (walk_here_leaky _)

theorem spellsNew_detour : leaky.SpellsNew "granted/../new.txt" ["w"] "new.txt" :=
  spellsNew_of_walk [.name "granted", .up] (by simp [check]) ofText_detour_new
    (by rw [ofText_detour_new]; rfl) (walk_detour _)

theorem not_bare_here : ¬ Bare "./new.txt" := by
  rw [Bare, ofText_here_new]
  decide

/-- Two spellings of a new file in the granted working directory, both of which may be written. -/
theorem permits_new_file_here :
    let grants : Grants := ⟨.nothing, .within ["."]⟩
    grants.grant .write = .within ["."] ∧ leaky.HasRoots ["."] ∧
      leaky.SpellsNew "./new.txt" ["w"] "new.txt" ∧
      leaky.SpellsNew "granted/../new.txt" ["w"] "new.txt" ∧
      leaky.permits (grants.grant .write) "./new.txt" = true ∧
      leaky.permits (grants.grant .write) "granted/../new.txt" = true := by
  intro grants
  obtain ⟨hhere, hdetour, -⟩ := permits_new_file leaky grants .write ["."] rfl hasRoots_here
    spellsNew_here spellsNew_detour
  refine ⟨rfl, hasRoots_here, spellsNew_here, spellsNew_detour,
    hhere.mpr ⟨not_bare_here, covers_here⟩, hdetour.mpr ⟨?_, covers_here⟩⟩
  rw [Bare, ofText_detour_new]
  decide

/-- **A name alone may not be written** in a granted working directory, although the same file may
with the directory before the name. -/
theorem not_permits_bare_name :
    leaky.HasRoots ["."] ∧ leaky.SpellsNew "./new.txt" ["w"] "new.txt" ∧
      leaky.SpellsNew "new.txt" ["w"] "new.txt" ∧ leaky.Covers ["."] ["w", "new.txt"] ∧
      leaky.permits (.within ["."]) "./new.txt" = true ∧
      leaky.permits (.within ["."]) "new.txt" = false := by
  refine ⟨hasRoots_here, spellsNew_here, spellsNew_bare, covers_here,
    (spellsNew_here.permits_iff hasRoots_here).mpr ⟨not_bare_here, covers_here⟩, ?_⟩
  rw [Bool.eq_false_iff]
  intro h
  refine ((spellsNew_bare.permits_iff hasRoots_here).mp h).1 ?_
  rw [Bare, ofText_new]
  rfl

end FileTree

end ActionVm
