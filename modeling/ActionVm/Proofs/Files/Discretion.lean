import ActionVm.Proofs.Files.Containment

/-!
# What a script is told of files

Two file trees that agree on what lies below the roots of a grant are compared by what a script is
told of a path.

* `FileTree.asks`, `FileTree.walk_congr`: a walk depends on the places about which it asks;
* `FileTree.AgreesWithin`: trees that agree on what lies below the roots;
* `Files.told`: what a script is told of a path;
* **`Files.told_eq_of_agreesWithin`**: it is the same in both trees if the path leads to the same
  place below a root, or to none in either tree;
* `Files.told_of_detour`: a path through other places may lead below a root in one tree alone.
-/

namespace ActionVm

namespace FileTree

variable {t t' : FileTree} {roots : List String} {path : String} {l : Location}

/-! ## Walks -/

/-- The places about which a walk asks what stands there. -/
def asks (t : FileTree) (links : ℕ) (at_ : Location) (steps : List Piece) : List Location :=
  match steps with
  | [] => []
  | .root :: rest => t.asks links [] rest
  | step :: rest =>
    if !t.isDirectory at_ then [at_]
    else match step with
      | .root | .here => at_ :: t.asks links at_ rest
      | .up => at_ :: t.asks links at_.dropLast rest
      | .name n =>
        if nameLimit < n.utf8ByteSize then [at_]
        else match t.node? (at_ ++ [n]) with
          | none => [at_, at_ ++ [n]]
          | some (.link target) =>
            match links with
            | 0 => [at_, at_ ++ [n]]
            | links + 1 => at_ :: (at_ ++ [n]) :: t.asks links at_ (linkSteps target ++ rest)
          | some _ => at_ :: (at_ ++ [n]) :: t.asks links (at_ ++ [n]) rest
termination_by (links, steps.length)

theorem isDirectory_congr (h : t'.node? l = t.node? l) : t'.isDirectory l = t.isDirectory l := by
  rw [isDirectory, isDirectory, h]

section Asks

variable {links : ℕ} {rest : List Piece} {n : String}

theorem asks_root : t.asks links l (.root :: rest) = t.asks links [] rest := by rw [asks.eq_def]

theorem asks_of_not_isDirectory (h : t.isDirectory l = false) {step : Piece} (hs : step ≠ .root) :
    t.asks links l (step :: rest) = [l] := by
  cases step with
  | root => exact absurd rfl hs
  | here | up | name n => rw [asks.eq_def]; simp [h]

theorem asks_here (h : t.isDirectory l = true) :
    t.asks links l (.here :: rest) = l :: t.asks links l rest := by
  rw [asks.eq_def]
  simp [h]

theorem asks_up (h : t.isDirectory l = true) :
    t.asks links l (.up :: rest) = l :: t.asks links l.dropLast rest := by
  rw [asks.eq_def]
  simp [h]

theorem asks_name (h : t.isDirectory l = true) : t.asks links l (.name n :: rest) =
    if nameLimit < n.utf8ByteSize then [l]
    else match t.node? (l ++ [n]) with
      | none => [l, l ++ [n]]
      | some (.link target) =>
        match links with
        | 0 => [l, l ++ [n]]
        | links + 1 => l :: (l ++ [n]) :: t.asks links l (linkSteps target ++ rest)
      | some _ => l :: (l ++ [n]) :: t.asks links (l ++ [n]) rest := by
  rw [asks.eq_def]
  change (if (!t.isDirectory l) = true then _ else _) = _
  rw [h]
  rfl

end Asks

/-- **A walk depends on the places about which it asks.** -/
theorem walk_congr {links : ℕ} {steps : List Piece}
    (h : ∀ place ∈ t.asks links l steps, t'.node? place = t.node? place) :
    t'.walk links l steps = t.walk links l steps := by
  fun_induction walk t links l steps with
  | case1 => exact walk_nil
  | case2 _ _ _ ih =>
    rw [asks_root] at h
    rw [walk_root]
    exact ih h
  | case3 _ l step _ hs hd =>
    have hd : t.isDirectory l = false := by simpa using hd
    rw [asks_of_not_isDirectory hd hs, List.forall_mem_singleton] at h
    exact walk_of_not_isDirectory ((isDirectory_congr h).trans hd) hs
  | case4 _ _ _ _ hs => exact absurd rfl hs
  | case5 _ l _ hd _ ih =>
    have hd : t.isDirectory l = true := by simpa using hd
    rw [asks_here hd, List.forall_mem_cons] at h
    rw [walk_here ((isDirectory_congr h.1).trans hd), ih h.2]
  | case6 _ l _ hd _ ih =>
    have hd : t.isDirectory l = true := by simpa using hd
    rw [asks_up hd, List.forall_mem_cons] at h
    rw [walk_up ((isDirectory_congr h.1).trans hd), ih h.2]
  | case7 _ l _ hd n hn =>
    have hd : t.isDirectory l = true := by simpa using hd
    rw [asks_name hd, if_pos hn, List.forall_mem_singleton] at h
    rw [walk_name ((isDirectory_congr h).trans hd), if_pos hn]
  | case8 _ l _ hd n hn hnode =>
    have hd : t.isDirectory l = true := by simpa using hd
    rw [asks_name hd, if_neg hn, hnode] at h
    rw [List.forall_mem_cons, List.forall_mem_singleton] at h
    rw [walk_name ((isDirectory_congr h.1).trans hd), if_neg hn, h.2, hnode]
  | case9 l _ hd n hn target hnode =>
    have hd : t.isDirectory l = true := by simpa using hd
    rw [asks_name hd, if_neg hn, hnode] at h
    rw [List.forall_mem_cons, List.forall_mem_singleton] at h
    rw [walk_name ((isDirectory_congr h.1).trans hd), if_neg hn, h.2, hnode]
  | case10 l _ hd n hn target hnode links _ ih =>
    have hd : t.isDirectory l = true := by simpa using hd
    rw [asks_name hd, if_neg hn, hnode] at h
    rw [List.forall_mem_cons, List.forall_mem_cons] at h
    rw [walk_name ((isDirectory_congr h.1).trans hd), if_neg hn, h.2.1, hnode]
    exact ih h.2.2
  | case11 _ l _ hd n hn node hlink hnode _ ih =>
    have hd : t.isDirectory l = true := by simpa using hd
    rw [asks_name hd, if_neg hn, hnode] at h
    cases node with
    | link target => exact absurd rfl (hlink target)
    | directory | file =>
      rw [List.forall_mem_cons, List.forall_mem_cons] at h
      rw [walk_name ((isDirectory_congr h.1).trans hd), if_neg hn, h.2.1, hnode]
      exact ih h.2.2

theorem realPlace_congr (hworking : t.working = t'.working)
    (h : ∀ place ∈ t.asks linkLimit t.working (Path.ofText path).steps,
      t'.node? place = t.node? place) : t'.realPlace path = t.realPlace path := by
  rw [realPlace, realPlace, findSteps, findSteps, ← hworking, walk_congr h]

/-! ## Trees that agree below the roots -/

/-- The trees have the same working directory, and each root leads in both of them to the same
directory, at which and below which the same things stand. -/
structure AgreesWithin (t t' : FileTree) (roots : List String) : Prop where
  working : t.working = t'.working
  below : ∀ root ∈ roots, ∃ l, t.realPlace root = .ok l ∧ t'.realPlace root = .ok l ∧
    t.isDirectory l = true ∧ ∀ place, l <+: place → t'.node? place = t.node? place

namespace AgreesWithin

theorem hasRoots (h : t.AgreesWithin t' roots) : t.HasRoots roots := fun root hroot =>
  let ⟨l, hl, _, hdir, _⟩ := h.below root hroot
  ⟨l, hl, hdir⟩

theorem symm (h : t.AgreesWithin t' roots) : t'.AgreesWithin t roots where
  working := h.working.symm
  below root hroot := by
    obtain ⟨l, hl, hl', hdir, hnode⟩ := h.below root hroot
    exact ⟨l, hl', hl, (isDirectory_congr (hnode l (List.prefix_refl l))).trans hdir,
      fun place hplace => (hnode place hplace).symm⟩

theorem covers (h : t.AgreesWithin t' roots) (hl : t.Covers roots l) : t'.Covers roots l := by
  obtain ⟨root, hroot, place, hplace, hprefix⟩ := hl
  obtain ⟨_, hq, hq', -, -⟩ := h.below root hroot
  rw [hplace] at hq
  cases hq
  exact ⟨root, hroot, place, hq', hprefix⟩

theorem node?_eq (h : t.AgreesWithin t' roots) (hl : t.Covers roots l) :
    t'.node? l = t.node? l := by
  obtain ⟨root, hroot, place, hplace, hprefix⟩ := hl
  obtain ⟨_, hq, -, -, hnode⟩ := h.below root hroot
  rw [hplace] at hq
  cases hq
  exact hnode l hprefix

end AgreesWithin

/-- A path leads to the same place below a root in both trees, or to none in either tree. -/
def SameBelow (t t' : FileTree) (roots : List String) (path : String) : Prop :=
  ∀ l, t.Covers roots l → (t.realPlace path = .ok l ↔ t'.realPlace path = .ok l)

theorem find_of_realPlace (h : t.realPlace path = .ok l) :
    t.find path = (checkOpening path).map fun _ => l := by
  have hsteps : t.findSteps (Path.ofText path).steps = .ok l :=
    findSteps_eq_ok_iff.mpr (realPlace_eq_ok h)
  rw [find, hsteps]
  cases checkOpening path <;> rfl

/-- What is read is decided by the place and what stands there. -/
theorem read_congr (h : t.realPlace path = .ok l) (h' : t'.realPlace path = .ok l)
    (hnode : t'.node? l = t.node? l) : t'.read path = t.read path := by
  rw [read, read, find_of_realPlace h, find_of_realPlace h']
  cases checkOpening path with
  | error e => rfl
  | ok _ =>
    simp only [Except.map, bind, Except.bind, hnode]

end FileTree

/-! ## What a script is told -/

namespace Files

open FileTree

variable {t t' : FileTree} {grants : Grants} {roots : List String} {path : String}

/-- What a script is told of a path: whether a file has it, the text of the file, and its bytes. -/
def told (f : Files) (path : String) :
    Bool × Except ScriptError String × Except ScriptError (List UInt8) :=
  (f.has path, f.existing path (f.readText path), f.existing path (f.readBytes path))

theorem told_of_not_has {f : Files} (h : f.has path = false) :
    f.told path = (false, .error (.fileNotFound path), .error (.fileNotFound path)) := by
  rw [told, existing, existing, h]
  rfl

theorem told_congr (hpermits : t'.permits grants.read path = t.permits grants.read path)
    (hread : t'.read path = t.read path) : (tree t grants).told path = (tree t' grants).told path := by
  have hbytes : (tree t' grants).readBytes path = (tree t grants).readBytes path := by
    rw [readBytes, readBytes, require, require, Grants.grant, hpermits, hread]
  have htext : (tree t' grants).readText path = (tree t grants).readText path := by
    rw [readText, readText, hbytes]
    rfl
  have hhas : (tree t' grants).has path = (tree t grants).has path := by
    rw [has, has, hpermits, isFile, isFile, hread]
  rw [told, told, existing, existing, existing, existing, hhas, htext, hbytes]

/-- A file that a script is told of is one below a root, to which the path leads. -/
theorem exists_covered_of_has (hgrant : grants.read = .within roots) (hroots : t.HasRoots roots)
    (h : (tree t grants).has path = true) : ∃ l, t.Covers roots l ∧ t.realPlace path = .ok l := by
  rw [has, hgrant, Bool.and_eq_true, isFile] at h
  obtain ⟨hpermits, hread⟩ := h
  cases hbytes : t.read path with
  | error e =>
    rw [hbytes] at hread
    cases hread
  | ok bytes =>
    obtain ⟨l, hl, -⟩ := read_eq_ok hbytes
    exact ⟨l, (hroots.permits_iff (resolve_of_realPlace hl)).mp hpermits, hl⟩

theorem told_of_sameBelow (hgrant : grants.read = .within roots) (h : t.AgreesWithin t' roots)
    (hpath : t.SameBelow t' roots path) : (tree t grants).told path = (tree t' grants).told path := by
  by_cases hleads : ∃ l, t.Covers roots l ∧ t.realPlace path = .ok l
  · obtain ⟨l, hl, hplace⟩ := hleads
    have hplace' := (hpath l hl).mp hplace
    have hpermits := (h.hasRoots.permits_iff (resolve_of_realPlace hplace)).mpr hl
    have hpermits' := (h.symm.hasRoots.permits_iff (resolve_of_realPlace hplace')).mpr (h.covers hl)
    rw [← hgrant] at hpermits hpermits'
    exact told_congr (hpermits'.trans hpermits.symm) (read_congr hplace hplace' (h.node?_eq hl))
  · have hnot : (tree t grants).has path = false := by
      rw [Bool.eq_false_iff]
      exact fun hh => hleads (exists_covered_of_has hgrant h.hasRoots hh)
    have hnot' : (tree t' grants).has path = false := by
      rw [Bool.eq_false_iff]
      intro hh
      obtain ⟨l, hl, hplace⟩ := exists_covered_of_has hgrant h.symm.hasRoots hh
      have hl := h.symm.covers hl
      exact hleads ⟨l, hl, (hpath l hl).mpr hplace⟩
    rw [told_of_not_has hnot, told_of_not_has hnot']

/-- **A script is told the same of a path** in trees that agree below the roots, if the path leads
to the same place there in both of them, or in neither. This is so if the way to it asks only about
places at which the same things stand. -/
theorem told_eq_of_agreesWithin (t t' : FileTree) (grants : Grants) (roots : List String)
    (hgrant : grants.read = .within roots) (h : t.AgreesWithin t' roots) (path : String) :
    (t.SameBelow t' roots path → (tree t grants).told path = (tree t' grants).told path) ∧
    ((∀ place ∈ t.asks linkLimit t.working (Path.ofText path).steps,
        t'.node? place = t.node? place) →
      (tree t grants).told path = (tree t' grants).told path) := by
  refine ⟨told_of_sameBelow hgrant h, fun hasks => told_of_sameBelow hgrant h fun l _ => ?_⟩
  rw [realPlace_congr h.working hasks]

end Files

/-! ## A directory beside the granted one -/

namespace FileTree

variable {t : FileTree} {l place : Location}

theorem node?_put_of_ne (h : place ≠ l) (n : Node) : (t.put l n).node? place = t.node? place := by
  rw [node?, node?, put, List.find?_cons_of_neg (by simpa using h.symm)]
  congr 2
  rw [List.find?_filter]
  congr 1
  funext x
  by_cases hx : x.1 = place <;> simp [hx, h]

/-- There is a second directory. -/
def leakyBeside : FileTree := leaky.put ["w", "outside"] .directory

theorem leakyBeside_working : leakyBeside.isDirectory ["w"] = true := rfl

theorem leakyBeside_outside : leakyBeside.isDirectory ["w", "outside"] = true := rfl

theorem ofText_detour : Path.ofText "outside/../granted/file" =
    ⟨[.name "outside", .up, .name "granted", .name "file"], false⟩ := by
  rw [Path.ofText_eq]
  decide +kernel

theorem node?_leakyBeside (h : place ≠ ["w", "outside"]) :
    leakyBeside.node? place = leaky.node? place := node?_put_of_ne h _

theorem asks_granted (rest : List Piece) :
    leaky.asks linkLimit ["w"] (.name "granted" :: rest) =
      ["w"] :: ["w", "granted"] :: leaky.asks linkLimit ["w", "granted"] rest := by
  rw [asks_name leaky_working, if_neg (by decide)]
  rfl

theorem asks_granted_file : leaky.asks linkLimit ["w"] [.name "granted", .name "file"] =
    [["w"], ["w", "granted"], ["w", "granted"], ["w", "granted", "file"]] := by
  rw [asks_granted, asks_name leaky_granted, if_neg (by decide)]
  change [["w"], ["w", "granted"], ["w", "granted"], ["w", "granted", "file"]] ++
    leaky.asks linkLimit ["w", "granted", "file"] [] = _
  rw [asks.eq_def]
  rfl

theorem realPlace_beside {path : String}
    (h : ["w", "outside"] ∉ leaky.asks linkLimit ["w"] (Path.ofText path).steps) :
    leakyBeside.realPlace path = leaky.realPlace path := by
  refine realPlace_congr rfl fun place hplace => node?_leakyBeside ?_
  rintro rfl
  exact h hplace

theorem outside_notMem_asks_file :
    ["w", "outside"] ∉ leaky.asks linkLimit ["w"] (Path.ofText "granted/file").steps := by
  rw [ofText_file]
  change _ ∉ leaky.asks linkLimit ["w"] [.name "granted", .name "file"]
  rw [asks_granted_file]
  decide

theorem realPlace_granted_beside : leakyBeside.realPlace "granted" = .ok ["w", "granted"] := by
  refine (realPlace_beside ?_).trans realPlace_granted
  rw [ofText_granted]
  change _ ∉ leaky.asks linkLimit ["w"] [.name "granted"]
  rw [asks_granted, asks.eq_def]
  decide

theorem agreesWithin_beside : leaky.AgreesWithin leakyBeside ["granted"] where
  working := rfl
  below root hroot := by
    obtain rfl := List.mem_singleton.mp hroot
    refine ⟨_, realPlace_granted, realPlace_granted_beside, leaky_granted, fun place hplace => ?_⟩
    refine node?_leakyBeside ?_
    rintro rfl
    exact absurd hplace (by decide)

/-- The way through the other directory comes back only where that directory is. -/
theorem walk_detour_missing : leaky.walk linkLimit ["w"]
    [.name "outside", .up, .name "granted", .name "file"] = .error .missing := by
  rw [walk_name leaky_working, if_neg (by decide)]
  rfl

theorem walk_detour_beside : leakyBeside.walk linkLimit ["w"]
    [.name "outside", .up, .name "granted", .name "file"] =
      .ok (["w", "granted", "file"], linkLimit) := by
  rw [walk_name leakyBeside_working, if_neg (by decide)]
  change leakyBeside.walk linkLimit ["w", "outside"] _ = _
  rw [walk_up leakyBeside_outside]
  change leakyBeside.walk linkLimit ["w"] _ = _
  rw [walk_name leakyBeside_working, if_neg (by decide)]
  change leakyBeside.walk linkLimit ["w", "granted"] _ = _
  rw [walk_name (by rfl), if_neg (by decide)]
  exact walk_nil

theorem realPlace_detour_missing :
    leaky.realPlace "outside/../granted/file" = .error .missing := by
  have hcheck : check "outside/../granted/file" = .ok () := by simp [check]
  rw [realPlace, hcheck, ofText_detour]
  change (leaky.walk linkLimit ["w"] [.name "outside", .up, .name "granted", .name "file"]).map _ = _
  rw [walk_detour_missing]
  rfl

theorem realPlace_detour_beside :
    leakyBeside.realPlace "outside/../granted/file" = .ok ["w", "granted", "file"] := by
  have hcheck : check "outside/../granted/file" = .ok () := by simp [check]
  rw [realPlace, hcheck, ofText_detour]
  change leakyBeside.findSteps [.name "outside", .up, .name "granted", .name "file"] = _
  rw [findSteps_eq_ok_iff]
  exact ⟨linkLimit, walk_detour_beside⟩

end FileTree

namespace Files

open FileTree

theorem checkOpening_detour : checkOpening "outside/../granted/file" = .ok () := by
  simp [checkOpening, check]
  decide

theorem has_of_realPlace {t : FileTree} {grants : Grants} {roots : List String} {path : String}
    {l : Location} {bytes : List UInt8} (hgrant : grants.read = .within roots)
    (hroots : t.HasRoots roots) (hopening : checkOpening path = .ok ())
    (hplace : t.realPlace path = .ok l) (hl : t.Covers roots l)
    (hnode : t.node? l = some (.file bytes)) : (tree t grants).has path = true := by
  have hpermits := (hroots.permits_iff (resolve_of_realPlace hplace)).mpr hl
  rw [has, hgrant, hpermits, isFile, FileTree.read, find_of_realPlace hplace, hopening]
  simp only [Except.map, bind, Except.bind, hnode]
  rfl

/-- A script is told the same of the file in the granted directory, with and without the other
directory. -/
theorem told_of_granted_file :
    let grants : Grants := ⟨.within ["granted"], .nothing⟩
    leaky.AgreesWithin leakyBeside ["granted"] ∧
      leaky.SameBelow leakyBeside ["granted"] "granted/file" ∧
      (∀ place ∈ leaky.asks linkLimit leaky.working (Path.ofText "granted/file").steps,
        leakyBeside.node? place = leaky.node? place) ∧
      (tree leaky grants).told "granted/file" = (tree leakyBeside grants).told "granted/file" ∧
      (tree leaky grants).has "granted/file" = true := by
  intro grants
  have hsame : leaky.SameBelow leakyBeside ["granted"] "granted/file" := fun l _ => by
    rw [realPlace_beside outside_notMem_asks_file]
  refine ⟨agreesWithin_beside, hsame, fun place hplace => node?_leakyBeside ?_,
    (told_eq_of_agreesWithin leaky leakyBeside grants ["granted"] rfl agreesWithin_beside _).1 hsame,
    has_of_realPlace rfl hasRoots_leaky checkOpening_file (realPlace_of_find find_file)
      covers_leaky rfl⟩
  rintro rfl
  exact outside_notMem_asks_file hplace

/-- **The way through another directory tells whether that directory is there**: it leads to the
granted file only then. -/
theorem told_of_detour :
    let grants : Grants := ⟨.within ["granted"], .nothing⟩
    leaky.AgreesWithin leakyBeside ["granted"] ∧
      (tree leaky grants).has "outside/../granted/file" = false ∧
      (tree leakyBeside grants).has "outside/../granted/file" = true ∧
      (tree leaky grants).told "outside/../granted/file" ≠
        (tree leakyBeside grants).told "outside/../granted/file" := by
  intro grants
  have hnot : (tree leaky grants).has "outside/../granted/file" = false := by
    rw [Bool.eq_false_iff]
    intro h
    obtain ⟨l, -, hl⟩ := exists_covered_of_has rfl hasRoots_leaky h
    cases realPlace_detour_missing.symm.trans hl
  have hhas : (tree leakyBeside grants).has "outside/../granted/file" = true :=
    has_of_realPlace rfl agreesWithin_beside.symm.hasRoots checkOpening_detour
      realPlace_detour_beside (agreesWithin_beside.covers covers_leaky) rfl
  refine ⟨agreesWithin_beside, hnot, hhas, fun h => ?_⟩
  have hfirst := congrArg Prod.fst h
  rw [told, told, hnot, hhas] at hfirst
  cases hfirst

end Files

end ActionVm
