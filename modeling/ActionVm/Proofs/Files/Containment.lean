import ActionVm.Files.Access
import ActionVm.Proofs.Files.Walk
import Mathlib.Data.List.Infix

/-!
# Access within grants

A path is compared with the roots of a grant in one spelling and opened in another way. What both
have to do with each other is settled here.

* `FileTree.resolve_of_realPlace`, `FileTree.resolve_of_directory`: the spelling that is compared;
* `FileTree.Covers`, `FileTree.HasRoots`, `FileTree.DanglesAt`: what a grant is about, and links
  that lead to nothing;
* **`FileTree.HasRoots.covers_destination`**: the place that is written to;
* **`Files.access_within_grants`**: what is read and written lies within the grants, but for what
  is written through a link that leads to nothing.
-/

namespace ActionVm

/-! ## Grants -/

namespace FileTree

variable {t : FileTree} {steps : List Piece}

theorem findSteps_eq_ok_iff {place : Location} :
    t.findSteps steps = .ok place ↔
      ∃ left, t.walk linkLimit t.working steps = .ok (place, left) := by
  rw [findSteps]
  cases t.walk linkLimit t.working steps with
  | error e => exact ⟨nofun, nofun⟩
  | ok r =>
    constructor
    · rintro ⟨⟩
      exact ⟨r.2, rfl⟩
    · rintro ⟨left, ⟨⟩⟩
      rfl

theorem realPlace_eq_ok {path : String} {place : Location} (h : t.realPlace path = .ok place) :
    ∃ left, t.walk linkLimit t.working (Path.ofText path).steps = .ok (place, left) := by
  rw [realPlace] at h
  cases hc : check path with
  | error e =>
    rw [hc] at h
    cases h
  | ok _ =>
    rw [hc] at h
    exact findSteps_eq_ok_iff.mp h

theorem realPlace_of_find {path : String} {place : Location} (h : t.find path = .ok place) :
    t.realPlace path = .ok place := by
  rw [find, checkOpening] at h
  rw [realPlace]
  cases hc : check path with
  | error e =>
    rw [hc] at h
    cases h
  | ok _ =>
    rw [hc] at h
    change (if _ then _ else _) >>= _ = _ at h
    split at h
    · cases h
    · exact h

theorem resolve_of_realPlace {path : String} {place : Location}
    (h : t.realPlace path = .ok place) : t.resolve path = Path.ofLocation place := by
  rw [resolve, h]

/-- A path that leads nowhere is spelled by its last name in the directory before it, or by that
name alone. -/
theorem resolve_of_directory {path n : String} {directory : Location}
    (hnowhere : ∀ place, t.realPlace path ≠ .ok place)
    (hlast : (Path.ofText path).pieces.getLast? = some (.name n))
    (hdir : t.findSteps (Path.ofText path).pieces.dropLast = .ok directory) :
    t.resolve path = Path.ofLocation (directory ++ [n]) ∨
      t.resolve path = [.name n] ∧ (Path.ofText path).components = [.name n] := by
  obtain ⟨e, he⟩ : ∃ e, t.realPlace path = .error e := by
    cases hr : t.realPlace path with
    | error e => exact ⟨e, rfl⟩
    | ok place => exact absurd hr (hnowhere place)
  rw [resolve, he]
  rcases Path.components_of_last hlast with hc | ⟨first, rest, hdrop, hc⟩
  · simp [hc]
  · left
    rw [hdrop, findSteps_eq_ok_iff] at hdir
    obtain ⟨left, hdir⟩ := hdir
    rw [← List.singleton_append, walk_append_eq_ok_iff] at hdir
    obtain ⟨l, left', hfirst, hrest⟩ := hdir
    have hwalk := walk_append_eq_ok_iff.mpr ⟨l, left', hfirst, walk_filter_here hrest⟩
    have hfind : t.findSteps (first :: rest.filter (· ≠ .here)) = .ok directory :=
      findSteps_eq_ok_iff.mpr ⟨left, hwalk⟩
    simp only [hc, List.getLast?_concat, List.dropLast_concat, hfind]
    rw [if_neg (by simp)]

/-- One of the roots leads to the place, or to a directory above it. -/
def Covers (t : FileTree) (roots : List String) (place : Location) : Prop :=
  ∃ root ∈ roots, ∃ l, t.realPlace root = .ok l ∧ l <+: place

/-- The last name of the path is that of a link at the place, from where nothing is reached. -/
def DanglesAt (t : FileTree) (path : String) (l : Location) : Prop :=
  (∀ place, t.realPlace path ≠ .ok place) ∧ ∃ n directory target,
    (Path.ofText path).pieces.getLast? = some (.name n) ∧
    t.findSteps (Path.ofText path).pieces.dropLast = .ok directory ∧
    l = directory ++ [n] ∧ t.node? l = some (.link target)

theorem ofLocation_prefix_iff {l place : Location} :
    Path.ofLocation l <+: Path.ofLocation place ↔ l <+: place := by
  rw [Path.ofLocation, Path.ofLocation, List.cons_prefix_cons, eq_self, true_and]
  exact List.prefix_map_iff_of_injective fun _ _ h => by cases h; rfl

theorem permits_within_iff {roots : List String} {path : String} :
    t.permits (.within roots) path = true ↔ ∃ root ∈ roots, t.resolve root <+: t.resolve path := by
  simp only [permits, List.any_eq_true, List.isPrefixOf_iff_prefix]

/-- Every root leads to a directory. -/
def HasRoots (t : FileTree) (roots : List String) : Prop :=
  ∀ root ∈ roots, ∃ l, t.realPlace root = .ok l ∧ t.isDirectory l = true

section Permits

variable {roots : List String} {path : String} {place : Location}

/-- The spelling of a path that is within a grant begins with that of a place of a root. -/
theorem HasRoots.exists_prefix (hroots : t.HasRoots roots)
    (h : t.permits (.within roots) path = true) : ∃ root ∈ roots, ∃ l,
      t.realPlace root = .ok l ∧ Path.ofLocation l <+: t.resolve path := by
  obtain ⟨root, hroot, hprefix⟩ := permits_within_iff.mp h
  obtain ⟨l, hl, -⟩ := hroots root hroot
  rw [resolve_of_realPlace hl] at hprefix
  exact ⟨root, hroot, l, hl, hprefix⟩

theorem HasRoots.permits_iff (hroots : t.HasRoots roots)
    (hp : t.resolve path = Path.ofLocation place) :
    t.permits (.within roots) path = true ↔ t.Covers roots place := by
  constructor
  · intro h
    obtain ⟨root, hroot, l, hl, hprefix⟩ := hroots.exists_prefix h
    rw [hp, ofLocation_prefix_iff] at hprefix
    exact ⟨root, hroot, l, hl, hprefix⟩
  · rintro ⟨root, hroot, l, hl, hprefix⟩
    rw [permits_within_iff, hp]
    exact ⟨root, hroot, by rwa [resolve_of_realPlace hl, ofLocation_prefix_iff]⟩

theorem HasRoots.resolve_ne_name (hroots : t.HasRoots roots)
    (h : t.permits (.within roots) path = true) (n : String) : t.resolve path ≠ [.name n] := by
  intro hp
  obtain ⟨root, -, l, -, hprefix⟩ := hroots.exists_prefix h
  rw [hp, Path.ofLocation, List.cons_prefix_cons] at hprefix
  cases hprefix.1

theorem destination_eq_ok (h : t.destination path = .ok place) :
    t.destinationFrom linkLimit t.working (Path.ofText path) = .ok place := by
  rw [destination] at h
  cases hc : checkOpening path with
  | error e =>
    rw [hc] at h
    cases h
  | ok _ =>
    rw [hc] at h
    exact h

/-- **The place that is written to** lies within the grant, unless the path is a link that leads
nowhere. -/
theorem HasRoots.covers_destination (hroots : t.HasRoots roots)
    (h : t.permits (.within roots) path = true) (hd : t.destination path = .ok place) :
    t.Covers roots place ∨ ∃ l, t.DanglesAt path l ∧ t.Covers roots l := by
  have hd := destination_eq_ok hd
  by_cases hq : ∃ q, t.realPlace path = .ok q
  · obtain ⟨q, hq⟩ := hq
    obtain ⟨left, hw⟩ := realPlace_eq_ok hq
    obtain rfl := destinationFrom_eq_of_walk hd hw
    exact Or.inl ((hroots.permits_iff (resolve_of_realPlace hq)).mp h)
  · -- the path leads nowhere, and was compared by its last name in the directory before it
    replace hq := not_exists.mp hq
    obtain ⟨-, n, directory, left, hlast, hdir, -, -, hplace⟩ := destinationFrom_eq_ok hd
    have hfind : t.findSteps (Path.ofText path).pieces.dropLast = .ok directory :=
      findSteps_eq_ok_iff.mpr ⟨left, hdir⟩
    have hcovers : t.Covers roots (directory ++ [n]) := by
      rcases resolve_of_directory hq hlast hfind with hp | ⟨hp, -⟩
      · exact (hroots.permits_iff hp).mp h
      · exact absurd hp (hroots.resolve_ne_name h n)
    rcases hplace with ⟨-, rfl⟩ | ⟨target, hnode, -⟩
    · exact Or.inl hcovers
    · exact Or.inr ⟨_, ⟨hq, n, directory, target, hlast, hfind, rfl, hnode⟩, hcovers⟩

end Permits

theorem read_eq_ok {path : String} {bytes : List UInt8} (h : t.read path = .ok bytes) :
    ∃ place, t.realPlace path = .ok place ∧ t.node? place = some (.file bytes) := by
  rw [read] at h
  cases hf : t.find path with
  | error e =>
    rw [hf] at h
    cases h
  | ok place =>
    rw [hf] at h
    refine ⟨place, realPlace_of_find hf, ?_⟩
    simp only [bind, Except.bind] at h
    split at h
    · next hnode =>
      cases h
      exact hnode
    · cases h
    · cases h
    · cases h

end FileTree

/-! ## A link that leads to nothing -/

namespace FileTree

/-- A working directory that holds a directory `granted`, with a file in it and a link that leads to
a free place beside the directory. -/
def leaky : FileTree where
  nodes := [(["w"], .directory), (["w", "granted"], .directory),
    (["w", "granted", "file"], .file [0x68, 0x69]),
    (["w", "granted", "link"], .link "../new.txt")]
  working := ["w"]

theorem leaky_working : leaky.isDirectory ["w"] = true := rfl

theorem leaky_granted : leaky.isDirectory ["w", "granted"] = true := rfl

theorem ofText_granted : Path.ofText "granted" = ⟨[.name "granted"], false⟩ := by
  rw [Path.ofText_eq]
  decide +kernel

theorem ofText_file : Path.ofText "granted/file" = ⟨[.name "granted", .name "file"], false⟩ := by
  rw [Path.ofText_eq]
  decide +kernel

theorem ofText_link : Path.ofText "granted/link" = ⟨[.name "granted", .name "link"], false⟩ := by
  rw [Path.ofText_eq]
  decide +kernel

theorem ofText_target : Path.ofText "../new.txt" = ⟨[.up, .name "new.txt"], false⟩ := by
  rw [Path.ofText_eq]
  decide +kernel

theorem walk_granted (links : ℕ) (rest : List Piece) :
    leaky.walk links ["w"] (.name "granted" :: rest) = leaky.walk links ["w", "granted"] rest := by
  rw [walk_name leaky_working, if_neg (by decide)]
  rfl

theorem walk_to_granted (links : ℕ) :
    leaky.walk links ["w"] [.name "granted"] = .ok (["w", "granted"], links) :=
  (walk_granted links []).trans walk_nil

theorem realPlace_granted : leaky.realPlace "granted" = .ok ["w", "granted"] := by
  have hcheck : check "granted" = .ok () := by simp [check]
  rw [realPlace, hcheck, ofText_granted]
  change leaky.findSteps [.name "granted"] = _
  rw [findSteps_eq_ok_iff]
  exact ⟨linkLimit, walk_to_granted linkLimit⟩

theorem checkOpening_file : checkOpening "granted/file" = .ok () := by
  simp [checkOpening, check]
  decide

theorem find_file : leaky.find "granted/file" = .ok ["w", "granted", "file"] := by
  rw [find, checkOpening_file, ofText_file]
  change leaky.findSteps [.name "granted", .name "file"] = _
  rw [findSteps_eq_ok_iff]
  refine ⟨linkLimit, ?_⟩
  change leaky.walk linkLimit ["w"] _ = _
  rw [walk_granted, walk_name leaky_granted, if_neg (by decide)]
  exact walk_nil

theorem destination_file : leaky.destination "granted/file" = .ok ["w", "granted", "file"] := by
  rw [destination, checkOpening_file, ofText_file]
  exact destinationFrom_of_receives rfl rfl (walk_to_granted linkLimit) leaky_granted (by decide)
    (Or.inr ⟨_, rfl⟩)

theorem realPlace_link : leaky.realPlace "granted/link" = .error .missing := by
  have hcheck : check "granted/link" = .ok () := by simp [check]
  have hw : leaky.walk linkLimit ["w"] [.name "granted", .name "link"] = .error .missing := by
    rw [walk_granted, walk_name leaky_granted, if_neg (by decide)]
    change leaky.walk 39 ["w", "granted"] (linkSteps "../new.txt" ++ []) = _
    rw [linkSteps, ofText_target]
    change leaky.walk 39 ["w", "granted"] [.up, .name "new.txt"] = _
    rw [walk_up leaky_granted]
    change leaky.walk 39 ["w"] [.name "new.txt"] = _
    rw [walk_name leaky_working, if_neg (by decide)]
    rfl
  rw [realPlace, hcheck, ofText_link]
  change (leaky.walk linkLimit ["w"] [.name "granted", .name "link"]).map _ = _
  rw [hw]
  rfl

theorem resolve_link :
    leaky.resolve "granted/link" = Path.ofLocation ["w", "granted", "link"] := by
  have hnowhere : ∀ place, leaky.realPlace "granted/link" ≠ .ok place := by
    intro place h
    cases realPlace_link.symm.trans h
  have hlast : (Path.ofText "granted/link").pieces.getLast? = some (.name "link") := by
    rw [ofText_link]
    rfl
  have hdir : leaky.findSteps (Path.ofText "granted/link").pieces.dropLast =
      .ok ["w", "granted"] := by
    rw [ofText_link]
    exact findSteps_eq_ok_iff.mpr ⟨linkLimit, walk_to_granted linkLimit⟩
  obtain h | ⟨-, h⟩ := resolve_of_directory hnowhere hlast hdir
  · exact h
  · rw [ofText_link] at h
    exact absurd h (by decide)

theorem hasRoots_leaky : leaky.HasRoots ["granted"] := by
  intro root hroot
  obtain rfl := List.mem_singleton.mp hroot
  exact ⟨_, realPlace_granted, leaky_granted⟩

theorem covers_leaky {n : String} : leaky.Covers ["granted"] ["w", "granted", n] :=
  ⟨"granted", List.mem_singleton_self _, _, realPlace_granted, [n], rfl⟩

theorem destination_link : leaky.destination "granted/link" = .ok ["w", "new.txt"] := by
  have hcheck : checkOpening "granted/link" = .ok () := by
    simp [checkOpening, check]
    decide
  have hup : leaky.walk 39 ["w", "granted"] [.up] = .ok (["w"], 39) :=
    (walk_up leaky_granted).trans walk_nil
  rw [destination, hcheck]
  change leaky.destinationFrom linkLimit ["w"] (Path.ofText "granted/link") = _
  rw [ofText_link, destinationFrom_of_link rfl rfl (walk_to_granted linkLimit) leaky_granted
    (by decide) rfl (by decide), ofText_target]
  exact destinationFrom_of_receives rfl rfl hup leaky_working (by decide) (Or.inl rfl)

end FileTree

/-! ## Reading and writing -/

namespace Files

open FileTree

variable {t : FileTree} {grants : Grants} {roots : List String} {path : String}

theorem readBytes_eq_ok_iff {bytes : List UInt8} :
    (tree t grants).readBytes path = .ok bytes ↔
      t.permits grants.read path = true ∧ t.read path = .ok bytes := by
  rw [readBytes, require, Grants.grant]
  by_cases hp : t.permits grants.read path = true
  · rw [if_pos hp]
    cases t.read path with
    | error e => exact ⟨nofun, nofun⟩
    | ok _ =>
      constructor
      · rintro ⟨⟩
        exact ⟨hp, rfl⟩
      · rintro ⟨-, ⟨⟩⟩
        rfl
  · rw [if_neg hp]
    exact ⟨nofun, fun h => absurd h.1 hp⟩

theorem writeBytes_eq_ok_iff {bytes : List UInt8} {f : Files} :
    (tree t grants).writeBytes path bytes = .ok f ↔
      t.permits grants.write path = true ∧
        ∃ place, t.destination path = .ok place ∧ f = tree (t.put place (.file bytes)) grants := by
  rw [writeBytes, require, Grants.grant, write]
  by_cases hp : t.permits grants.write path = true
  · rw [if_pos hp]
    cases t.destination path with
    | error e => exact ⟨nofun, nofun⟩
    | ok place =>
      constructor
      · rintro ⟨⟩
        exact ⟨hp, place, rfl, rfl⟩
      · rintro ⟨-, _, ⟨⟩, rfl⟩
        rfl
  · rw [if_neg hp]
    exact ⟨nofun, fun h => absurd h.1 hp⟩

theorem readText_eq_ok {f : Files} {text : String} (h : f.readText path = .ok text) :
    ∃ bytes, f.readBytes path = .ok bytes ∧ Utf8.check bytes = .ok text := by
  rw [readText] at h
  cases hb : f.readBytes path with
  | error e =>
    rw [hb] at h
    cases h
  | ok bytes =>
    rw [hb] at h
    refine ⟨bytes, rfl, ?_⟩
    simp only [bind, Except.bind] at h
    split at h
    · next hc =>
      cases h
      exact hc
    · cases h

/-- The bytes are those of a file below one of the roots, to which the path leads. -/
def ReadBelow (t : FileTree) (roots : List String) (path : String) (bytes : List UInt8) : Prop :=
  ∃ place, t.realPlace path = .ok place ∧ t.node? place = some (.file bytes) ∧
    t.Covers roots place

/-- The files afterwards are those of a tree with one more file, or one with other bytes, below one
of the roots. The path may also be a link there that leads to nothing; the file then stands where
the link says. -/
def WrittenBelow (t : FileTree) (grants : Grants) (roots : List String) (path : String)
    (bytes : List UInt8) (f : Files) : Prop :=
  ∃ place, f = tree (t.put place (.file bytes)) grants ∧
    t.isDirectory place.dropLast = true ∧ t.Receives place ∧
    (t.Covers roots place ∨ ∃ l, t.DanglesAt path l ∧ t.Covers roots l)

theorem readBelow_of_readBytes {bytes : List UInt8} (hroots : t.HasRoots roots)
    (hgrant : grants.read = .within roots) (h : (tree t grants).readBytes path = .ok bytes) :
    ReadBelow t roots path bytes := by
  obtain ⟨hpermits, hread⟩ := readBytes_eq_ok_iff.mp h
  obtain ⟨place, hplace, hnode⟩ := read_eq_ok hread
  rw [hgrant] at hpermits
  exact ⟨place, hplace, hnode, (hroots.permits_iff (resolve_of_realPlace hplace)).mp hpermits⟩

theorem writtenBelow_of_writeBytes {bytes : List UInt8} {f : Files} (hroots : t.HasRoots roots)
    (hgrant : grants.write = .within roots) (h : (tree t grants).writeBytes path bytes = .ok f) :
    WrittenBelow t grants roots path bytes f := by
  obtain ⟨hpermits, place, hd, hf⟩ := writeBytes_eq_ok_iff.mp h
  rw [hgrant] at hpermits
  obtain ⟨hdir, hreceives⟩ := receives_of_destinationFrom (destination_eq_ok hd)
  exact ⟨place, hf, hdir, hreceives, hroots.covers_destination hpermits hd⟩

/-- **What is read and written lies below the roots of the grants**, but for what is written through
a link that leads to nothing. -/
theorem access_within_grants (t : FileTree) (grants : Grants) (roots : List String)
    (hroots : t.HasRoots roots) (path : String) :
    (grants.read = .within roots →
      (∀ bytes, (tree t grants).readBytes path = .ok bytes → ReadBelow t roots path bytes) ∧
      ∀ text, (tree t grants).readText path = .ok text →
        ∃ bytes, Utf8.check bytes = .ok text ∧ ReadBelow t roots path bytes) ∧
    (grants.write = .within roots →
      (∀ bytes f, (tree t grants).writeBytes path bytes = .ok f →
        WrittenBelow t grants roots path bytes f) ∧
      ∀ text f, (tree t grants).writeText path text = .ok f →
        WrittenBelow t grants roots path (Utf8.encode text) f) := by
  refine ⟨fun hgrant => ⟨fun bytes h => readBelow_of_readBytes hroots hgrant h, ?_⟩,
    fun hgrant => ⟨fun bytes f h => writtenBelow_of_writeBytes hroots hgrant h,
      fun text f h => writtenBelow_of_writeBytes hroots hgrant h⟩⟩
  intro text h
  obtain ⟨bytes, hbytes, htext⟩ := readText_eq_ok h
  exact ⟨bytes, htext, readBelow_of_readBytes hroots hgrant hbytes⟩

/-- The file in the granted directory is read and written within the grants. -/
theorem access_within_granted_directory :
    let f := tree leaky ⟨.within ["granted"], .within ["granted"]⟩
    leaky.HasRoots ["granted"] ∧ f.readBytes "granted/file" = .ok [0x68, 0x69] ∧
      ReadBelow leaky ["granted"] "granted/file" [0x68, 0x69] ∧
      ∃ f', f.writeText "granted/file" "x" = .ok f' ∧
        WrittenBelow leaky ⟨.within ["granted"], .within ["granted"]⟩ ["granted"] "granted/file"
          (Utf8.encode "x") f' := by
  intro f
  have hpermits : leaky.permits (.within ["granted"]) "granted/file" = true :=
    (hasRoots_leaky.permits_iff (resolve_of_realPlace (realPlace_of_find find_file))).mpr
      covers_leaky
  have hread : f.readBytes "granted/file" = .ok [0x68, 0x69] := by
    refine readBytes_eq_ok_iff.mpr ⟨hpermits, ?_⟩
    rw [FileTree.read, find_file]
    rfl
  have hwrite : f.writeText "granted/file" "x" =
      .ok (tree (leaky.put ["w", "granted", "file"] (.file (Utf8.encode "x"))) _) :=
    writeBytes_eq_ok_iff.mpr ⟨hpermits, _, destination_file, rfl⟩
  refine ⟨hasRoots_leaky, hread, ?_, _, hwrite, ?_⟩
  · exact ((access_within_grants leaky _ _ hasRoots_leaky _).1 rfl).1 _ hread
  · exact ((access_within_grants leaky _ _ hasRoots_leaky _).2 rfl).2 _ _ hwrite

/-- **A file may be created outside the grants**: a link in the granted directory leads to a free
place beside it. -/
theorem write_outside_grants :
    leaky.HasRoots ["granted"] ∧
      (tree leaky ⟨.nothing, .within ["granted"]⟩).writeText "granted/link" "x" =
        .ok (tree (leaky.put ["w", "new.txt"] (.file (Utf8.encode "x")))
          ⟨.nothing, .within ["granted"]⟩) ∧
      leaky.node? ["w", "new.txt"] = none ∧ ¬ leaky.Covers ["granted"] ["w", "new.txt"] := by
  refine ⟨hasRoots_leaky, ?_, rfl, ?_⟩
  · exact writeBytes_eq_ok_iff.mpr ⟨(hasRoots_leaky.permits_iff resolve_link).mpr covers_leaky,
      _, destination_link, rfl⟩
  · rintro ⟨root, hroot, l, hl, hprefix⟩
    obtain rfl := List.mem_singleton.mp hroot
    rw [realPlace_granted] at hl
    cases hl
    exact absurd hprefix (by decide)

end Files

end ActionVm
