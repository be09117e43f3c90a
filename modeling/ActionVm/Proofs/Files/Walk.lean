import ActionVm.Files.Tree
import ActionVm.Proofs.Text.Splitting

/-!
# Walks through a file tree

A path is followed step by step, either to the place to which it leads or to the place to which it
writes, which need not be there yet.

* `endsWith_slash`, `Path.ofText_eq`: how a path is spelled;
* `FileTree.walk_append`, `FileTree.walk_last`: walks by their parts;
* `FileTree.destinationFrom_eq_ok`, `FileTree.receives_of_destinationFrom`: what it takes to write;
* **`FileTree.destinationFrom_eq_of_walk`**: a path that leads to a place is written to there.
-/

namespace ActionVm

/-! ## Spelled paths -/

section Spelling

open String

theorem endsWith_slash (s : String) : s.endsWith "/" = decide (s.toList.getLast? = some '/') := by
  rw [Bool.eq_iff_iff, String.endsWith, Slice.endsWith_string_iff, copy_toSlice, decide_eq_true_iff]
  exact List.singleton_suffix_iff_getLast?_eq_some

/-- A path is spelled by its pieces, with slashes between them. -/
theorem Path.ofText_eq (s : String) :
    let texts := ((s.toList.splitOnP (· == '/')).map ofList).filter (· ≠ "")
    Path.ofText s =
      ⟨(if s.startsWith "/" then [Piece.root] else []) ++ texts.map Path.pieceOf,
        !texts.isEmpty && decide (s.toList.getLast? = some '/')⟩ := by
  have hpieces : s.splitOn "/" = (s.toList.splitOnP (· == '/')).map ofList :=
    splitOn_singleton '/' s
  rw [Path.ofText, hpieces, endsWith_slash]

end Spelling

/-- A path that ends with a name is that name alone, or it has pieces before the name, of which
those that stay where they are do not count from the second on. -/
theorem Path.components_of_last {p : Path} {n : String}
    (h : p.pieces.getLast? = some (.name n)) : p.components = [.name n] ∨
      ∃ first rest, p.pieces.dropLast = first :: rest ∧
        p.components = (first :: rest.filter (· ≠ .here)) ++ [.name n] := by
  rw [Path.components]
  rcases hp : p.pieces with _ | ⟨first, rest⟩
  · rw [hp] at h
    cases h
  · rw [hp] at h
    rcases List.eq_nil_or_concat rest with rfl | ⟨init, last, rfl⟩
    · cases h
      exact Or.inl rfl
    · rw [List.concat_eq_append, ← List.cons_append, List.getLast?_concat] at h
      cases h
      right
      refine ⟨first, init, ?_, by simp⟩
      rw [List.concat_eq_append, ← List.cons_append, List.dropLast_concat]

/-! ## Walks -/

namespace FileTree

variable {t : FileTree} {links : ℕ} {l : Location} {steps rest : List Piece}

@[simp] theorem walk_nil : t.walk links l [] = .ok (l, links) := by rw [walk.eq_def]

@[simp] theorem walk_root : t.walk links l (.root :: rest) = t.walk links [] rest := by
  rw [walk.eq_def]

theorem walk_of_not_isDirectory (h : t.isDirectory l = false) {step : Piece} (hs : step ≠ .root) :
    t.walk links l (step :: rest) = .error .notDirectory := by
  cases step with
  | root => exact absurd rfl hs
  | here | up | name n => rw [walk.eq_def]; simp [h]

theorem walk_here (h : t.isDirectory l = true) :
    t.walk links l (.here :: rest) = t.walk links l rest := by
  rw [walk.eq_def]
  simp [h]

theorem walk_up (h : t.isDirectory l = true) :
    t.walk links l (.up :: rest) = t.walk links l.dropLast rest := by
  rw [walk.eq_def]
  simp [h]

theorem walk_name (h : t.isDirectory l = true) {n : String} : t.walk links l (.name n :: rest) =
    if nameLimit < n.utf8ByteSize then .error .nameTooLong
    else match t.node? (l ++ [n]) with
      | none => .error .missing
      | some (.link target) =>
        match links with
        | 0 => .error .tooManyLinks
        | links + 1 => t.walk links l (linkSteps target ++ rest)
      | some _ => t.walk links (l ++ [n]) rest := by
  rw [walk.eq_def]
  change (if (!t.isDirectory l) = true then _ else _) = _
  rw [h]
  rfl

/-- Steps are taken one after the other. -/
theorem walk_append (links : ℕ) (l : Location) (steps rest : List Piece) :
    t.walk links l (steps ++ rest) =
      (t.walk links l steps).bind fun (place, left) => t.walk left place rest := by
  fun_induction walk t links l steps with
  | case1 => rfl
  | case2 _ _ _ ih => rw [List.cons_append, walk_root, ih]
  | case3 _ _ step _ hs hd =>
    rw [List.cons_append, walk_of_not_isDirectory (by simpa using hd) hs]
    rfl
  | case4 _ _ _ _ hs => exact absurd rfl hs
  | case5 _ _ _ hd _ ih => rw [List.cons_append, walk_here (by simpa using hd), ih]
  | case6 _ _ _ hd _ ih => rw [List.cons_append, walk_up (by simpa using hd), ih]
  | case7 _ _ _ hd n hn =>
    rw [List.cons_append, walk_name (by simpa using hd), if_pos hn]
    rfl
  | case8 _ _ _ hd n hn hnode =>
    rw [List.cons_append, walk_name (by simpa using hd), if_neg hn]
    simp only [hnode]
    rfl
  | case9 _ _ hd n hn target hnode =>
    rw [List.cons_append, walk_name (by simpa using hd), if_neg hn]
    simp only [hnode]
    rfl
  | case10 _ _ hd n hn target hnode links _ ih =>
    rw [List.append_assoc] at ih
    rw [List.cons_append, walk_name (by simpa using hd), if_neg hn]
    simp only [hnode]
    exact ih
  | case11 _ _ _ hd n hn node hlink hnode _ ih =>
    rw [List.cons_append, walk_name (by simpa using hd), if_neg hn]
    simp only [hnode]
    exact ih

theorem walk_append_eq_ok_iff {r : Location × ℕ} : t.walk links l (steps ++ rest) = .ok r ↔
    ∃ place left, t.walk links l steps = .ok (place, left) ∧ t.walk left place rest = .ok r := by
  rw [walk_append]
  cases t.walk links l steps with
  | error e => exact ⟨nofun, nofun⟩
  | ok p =>
    constructor
    · intro h
      exact ⟨p.1, p.2, rfl, h⟩
    · rintro ⟨place, left, ⟨⟩, h⟩
      exact h

/-- Steps that stay where they are may be left out. -/
theorem walk_filter_here {r : Location × ℕ} (h : t.walk links l steps = .ok r) :
    t.walk links l (steps.filter (· ≠ .here)) = .ok r := by
  induction steps generalizing links l with
  | nil => exact h
  | cons step steps ih =>
    by_cases hs : step = .here
    · subst hs
      rw [List.filter_cons_of_neg (by simp)]
      by_cases hd : t.isDirectory l = true
      · rw [walk_here hd] at h
        exact ih h
      · rw [walk_of_not_isDirectory (by simpa using hd) (by simp)] at h
        cases h
    · rw [← List.singleton_append, walk_append_eq_ok_iff] at h
      obtain ⟨place, left, hstep, h⟩ := h
      rw [List.filter_cons_of_pos (by simpa using hs), ← List.singleton_append,
        walk_append_eq_ok_iff]
      exact ⟨place, left, hstep, ih h⟩

/-! ## Writing -/

/-- Bytes may be put at the place: nothing stands there, or a file. -/
def Receives (t : FileTree) (l : Location) : Prop :=
  t.node? l = none ∨ ∃ bytes, t.node? l = some (.file bytes)

/-- What it takes to write through a path. -/
theorem destinationFrom_eq_ok {path : Path} {place : Location}
    (h : t.destinationFrom links l path = .ok place) :
    path.slashAtEnd = false ∧ ∃ n directory left, path.pieces.getLast? = some (.name n) ∧
      t.walk links l path.pieces.dropLast = .ok (directory, left) ∧
      t.isDirectory directory = true ∧ n.utf8ByteSize ≤ nameLimit ∧
      (t.Receives (directory ++ [n]) ∧ place = directory ++ [n] ∨
        ∃ target, t.node? (directory ++ [n]) = some (.link target) ∧ 0 < left ∧
          t.destinationFrom (left - 1) directory (Path.ofText target) = .ok place) := by
  rw [destinationFrom.eq_def] at h
  split at h
  · cases h
  · next n hn =>
    split at h
    · cases h
    · next directory left hw =>
      split at h
      · cases h
      next hd =>
      split at h
      · cases h
      next hs =>
      split at h
      · cases h
      next hl =>
      refine ⟨by simpa using hs, n, directory, left, hn, hw, by simpa using hd, by omega, ?_⟩
      split at h
      · next hnode =>
        cases h
        exact Or.inl ⟨Or.inl hnode, rfl⟩
      · next bytes hnode =>
        cases h
        exact Or.inl ⟨Or.inr ⟨bytes, hnode⟩, rfl⟩
      · cases h
      · next target hnode =>
        split at h
        · next hleft => exact Or.inr ⟨target, hnode, hleft, h⟩
        · cases h
  · split at h <;> cases h

theorem walk_last {n : String} {directory : Location} {left : ℕ} {r : Location × ℕ}
    (hlast : steps.getLast? = some (.name n))
    (hw : t.walk links l steps.dropLast = .ok (directory, left))
    (h : t.walk links l steps = .ok r) : t.walk left directory [.name n] = .ok r := by
  rw [← List.dropLast_append_getLast? _ hlast, walk_append_eq_ok_iff] at h
  obtain ⟨_, _, hw', h⟩ := h
  rw [hw] at hw'
  cases hw'
  exact h

section Destination

variable {path : Path} {n target : String} {directory : Location} {left : ℕ}

theorem destinationFrom_of_receives (hslash : path.slashAtEnd = false)
    (hlast : path.pieces.getLast? = some (.name n))
    (hw : t.walk links l path.pieces.dropLast = .ok (directory, left))
    (hdir : t.isDirectory directory = true) (hn : n.utf8ByteSize ≤ nameLimit)
    (hnode : t.Receives (directory ++ [n])) :
    t.destinationFrom links l path = .ok (directory ++ [n]) := by
  rw [destinationFrom.eq_def]
  simp only [hlast, hslash, Bool.false_eq_true, if_false, if_neg (not_lt.mpr hn)]
  split
  · simp_all
  · next directory' left' hw' =>
    rw [hw] at hw'
    cases hw'
    rw [hdir]
    rcases hnode with hnode | ⟨bytes, hnode⟩ <;> simp only [hnode] <;> rfl

theorem destinationFrom_of_link (hslash : path.slashAtEnd = false)
    (hlast : path.pieces.getLast? = some (.name n))
    (hw : t.walk links l path.pieces.dropLast = .ok (directory, left))
    (hdir : t.isDirectory directory = true) (hn : n.utf8ByteSize ≤ nameLimit)
    (hnode : t.node? (directory ++ [n]) = some (.link target)) (hleft : 0 < left) :
    t.destinationFrom links l path =
      t.destinationFrom (left - 1) directory (Path.ofText target) := by
  rw [destinationFrom.eq_def]
  simp only [hlast, hslash, Bool.false_eq_true, if_false, if_neg (not_lt.mpr hn)]
  split
  · simp_all
  · next directory' left' hw' =>
    rw [hw] at hw'
    cases hw'
    rw [hdir]
    simp only [hnode, hleft, if_true]
    rfl

end Destination

/-- A place that is written to is one in a directory that may receive bytes. -/
theorem receives_of_destinationFrom {path : Path} {place : Location}
    (h : t.destinationFrom links l path = .ok place) :
    t.isDirectory place.dropLast = true ∧ t.Receives place := by
  induction links using Nat.strongRecOn generalizing l path with
  | _ links ih =>
    obtain ⟨-, n, directory, left, -, hdir, hisdir, -, hplace⟩ := destinationFrom_eq_ok h
    rcases hplace with ⟨hnode, rfl⟩ | ⟨target, -, hpos, h⟩
    · rw [List.dropLast_concat]
      exact ⟨hisdir, hnode⟩
    · have hle := walk_links_le hdir
      exact ih (left - 1) (by omega) h

/-- **A path that leads to a place** is written to there. -/
theorem destinationFrom_eq_of_walk {path : Path} {place q : Location} {left : ℕ}
    (hd : t.destinationFrom links l path = .ok place)
    (hw : t.walk links l path.steps = .ok (q, left)) : place = q := by
  induction links using Nat.strongRecOn generalizing l path left with
  | _ links ih =>
    obtain ⟨hslash, n, directory, left', hlast, hdir, hisdir, hlimit, hplace⟩ :=
      destinationFrom_eq_ok hd
    rw [Path.steps, hslash, if_neg (by simp)] at hw
    have hname := walk_last hlast hdir hw
    rw [walk_name hisdir, if_neg (by omega)] at hname
    rcases hplace with ⟨hnode | ⟨bytes, hnode⟩, rfl⟩ | ⟨target, hnode, hpos, hd⟩
    · simp only [hnode] at hname
      cases hname
    · simp only [hnode, walk_nil] at hname
      cases hname
      rfl
    · -- the link leads both on, with one link less to follow
      simp only [hnode] at hname
      obtain ⟨left'', rfl⟩ := Nat.exists_eq_succ_of_ne_zero (by omega : left' ≠ 0)
      have hle := walk_links_le hdir
      rw [List.append_nil] at hname
      exact ih left'' (by omega) hd hname

end FileTree

end ActionVm
