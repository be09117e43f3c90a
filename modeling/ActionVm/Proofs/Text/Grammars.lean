import ActionVm.Proofs.Decimal.Whole

/-!
# Two grammars of numbers

A text is read as a number in two ways. Conversions cut off blanks, and know hexadecimal integers
and three spellings of the infinities. The plain reading takes a text as it is, and knows words for
infinity and NaN in any case, but no hexadecimal integers.

* `IsDecimal`, `IsWord`, `IsInfinity`, `IsHexadecimal`: the forms of numbers, with
  `isNumberChar_of_isDecimal` and `isLetter_of_isWord` for their characters;
* **`isNaN_number`**, **`isSome_plainNumber?`**: what each of the two readings takes for a number;
* `ReadsTwoWays`, **`isNone_plainNumber?_iff`**: the texts on which they differ.
-/

namespace ActionVm.Text

variable {cs : List Char} {c : Char}

/-! ## Forms of numbers -/

/-- Digits with a sign, a point and an exponent. -/
def IsDecimal (cs : List Char) : Prop := (decimal? cs).isSome = true

/-- A word for infinity or NaN in any case, with an optional sign. -/
def IsWord (cs : List Char) : Prop := (numberWord? (splitSign cs).2).isSome = true

/-- The spellings of the infinities that conversions know. -/
def infinities : List (List Char) := ["Infinity".toList, "+Infinity".toList, "-Infinity".toList]

/-- One of the three spellings. -/
def IsInfinity (cs : List Char) : Prop := cs ∈ infinities

/-- A hexadecimal integer that 64 bits can hold. -/
def IsHexadecimal (cs : List Char) : Prop :=
  ∃ x hex, cs = '0' :: x :: hex ∧ (x = 'x' ∨ x = 'X') ∧ (hexadecimal? hex).isSome = true

instance : DecidablePred IsDecimal := fun _ => inferInstanceAs (Decidable (_ = true))

instance : DecidablePred IsWord := fun _ => inferInstanceAs (Decidable (_ = true))

instance : DecidablePred IsInfinity := fun _ => inferInstanceAs (Decidable (_ ∈ infinities))

/-! ## Their characters -/

theorem forall_of_splitSign {P : Char → Prop} (hminus : P '-') (hplus : P '+')
    (h : ∀ c ∈ (splitSign cs).2, P c) : ∀ c ∈ cs, P c := by
  unfold splitSign at h
  split at h
  · exact List.forall_mem_cons.mpr ⟨hminus, h⟩
  · exact List.forall_mem_cons.mpr ⟨hplus, h⟩
  · exact h

theorem isNumberChar_of_isDigit (h : c.isDigit = true) : isNumberChar c = true := by
  simp [isNumberChar, h]

theorem isNumberChar_of_exponent? {e : ℤ} (h : exponent? cs = some e) :
    ∀ c ∈ cs, isNumberChar c = true := by
  cases cs with
  | nil => nofun
  | cons x rest =>
    simp only [exponent?] at h
    split_ifs at h with hx
    all_goals
      simp only [Bool.and_eq_true, Bool.or_eq_true, decide_eq_true_eq, List.all_eq_true] at hx
      obtain ⟨⟨hletter, -⟩, hdigits⟩ := hx
      refine List.forall_mem_cons.mpr ⟨?_, forall_of_splitSign (by decide) (by decide) fun c hc =>
        isNumberChar_of_isDigit (hdigits c hc)⟩
      rcases hletter with rfl | rfl <;> decide

theorem isNumberChar_of_mem_takeWhile : ∀ c ∈ cs.takeWhile Char.isDigit, isNumberChar c = true :=
  fun _ hc => isNumberChar_of_isDigit (List.mem_takeWhile_imp hc)

theorem isNaN_scaled (m : ℕ) (e : ℤ) : (scaled m e).isNaN = false := by
  rw [scaled]
  split_ifs
  · decide +kernel
  · decide +kernel
  · exact isNaN_ofScientific ..

/-- Digits have their characters, and are a number. -/
theorem of_unsignedDecimal? {x : Float} (h : unsignedDecimal? cs = some x) :
    (∀ c ∈ cs, isNumberChar c = true) ∧ x.isNaN = false := by
  rw [← List.takeWhile_append_dropWhile (p := Char.isDigit) (l := cs), List.forall_mem_append,
    and_assoc]
  refine ⟨isNumberChar_of_mem_takeWhile, ?_⟩
  rw [unsignedDecimal?] at h
  dsimp only at h
  split at h
  · next rest hpoint =>
    split_ifs at h
    obtain ⟨e, he, rfl⟩ := Option.map_eq_some_iff.mp h
    rw [hpoint, List.forall_mem_cons,
      ← List.takeWhile_append_dropWhile (p := Char.isDigit) (l := rest), List.forall_mem_append]
    exact ⟨⟨by decide, isNumberChar_of_mem_takeWhile, isNumberChar_of_exponent? he⟩,
      isNaN_scaled ..⟩
  · split_ifs at h
    obtain ⟨e, he, rfl⟩ := Option.map_eq_some_iff.mp h
    exact ⟨isNumberChar_of_exponent? he, isNaN_scaled ..⟩

theorem of_decimal? {x : Float} (h : decimal? cs = some x) :
    (∀ c ∈ cs, isNumberChar c = true) ∧ x.isNaN = false := by
  obtain ⟨y, hy, rfl⟩ := Option.map_eq_some_iff.mp h
  obtain ⟨hchars, hnan⟩ := of_unsignedDecimal? hy
  refine ⟨forall_of_splitSign (by decide) (by decide) hchars, ?_⟩
  split_ifs
  · exact isNaN_neg hnan
  · exact hnan

theorem isNumberChar_of_isDecimal (h : IsDecimal cs) : ∀ c ∈ cs, isNumberChar c = true := by
  obtain ⟨x, hx⟩ := Option.isSome_iff_exists.mp h
  exact (of_decimal? hx).1

/-! ## Words -/

/-- The words in lower case. -/
def words : List (List Char) := ["inf".toList, "infinity".toList, "nan".toList]

theorem isSome_numberWord? : (numberWord? cs).isSome = true ↔ cs.map Char.toLower ∈ words := by
  have hlist : ∀ s : String, String.ofList (cs.map Char.toLower) = s ↔
      cs.map Char.toLower = s.toList := fun s =>
    ⟨fun h => by rw [← h, String.toList_ofList], fun h => by rw [h, String.ofList_toList]⟩
  rw [numberWord?, words, List.mem_cons, List.mem_cons, List.mem_singleton, ← hlist, ← hlist,
    ← hlist]
  split <;> simp_all

/-- A letter of a word. -/
def IsLetter (c : Char) : Prop := ∃ w ∈ words, c.toLower ∈ w

theorem isLetter_of_isWord (h : IsWord cs) : ∀ c ∈ cs, IsLetter c ∨ c = '-' ∨ c = '+' :=
  forall_of_splitSign (by simp) (by simp) fun _ hc =>
    Or.inl ⟨_, isSome_numberWord?.mp h, List.mem_map_of_mem hc⟩

/-! ## Blanks -/

theorem toNat_of_isBlank (h : isBlank c = true) : c.toNat ≤ 32 ∨ 0x85 ≤ c.toNat := by
  simp only [isBlank, Unicode.within, Unicode.whiteSpace, List.any_cons, List.any_nil,
    Bool.or_eq_true, Bool.and_eq_true, decide_eq_true_eq, Bool.false_eq_true, or_false] at h
  omega

/-- The characters of decimal numbers beside the digits. -/
def otherNumberChars : List Char := ['.', 'e', 'E', '+', '-']

/-- The characters of numbers are digits and a few others. -/
theorem isNumberChar_iff : isNumberChar c = true ↔
    (48 ≤ c.toNat ∧ c.toNat ≤ 57) ∨ c ∈ otherNumberChars := by
  have hdigit : c.isDigit = true ↔ 48 ≤ c.toNat ∧ c.toNat ≤ 57 := by
    simp only [Char.isDigit, Bool.and_eq_true, decide_eq_true_eq]
    exact and_congr UInt32.le_iff_toNat_le UInt32.le_iff_toNat_le
  simp only [isNumberChar, Bool.or_eq_true, decide_eq_true_eq, hdigit, or_assoc]
  exact or_congr Iff.rfl (by simp [otherNumberChars])

theorem toNat_of_isNumberChar (h : isNumberChar c = true) : 32 < c.toNat ∧ c.toNat < 0x85 := by
  rcases isNumberChar_iff.mp h with hdigit | hother
  · omega
  · have hall : otherNumberChars.all fun c => 32 < c.toNat && c.toNat < 0x85 := by decide
    simpa using List.all_eq_true.mp hall c hother

/-- The words have a letter that decimal numbers do not have. -/
theorem toLower_ne_of_isNumberChar (h : isNumberChar c = true) : c.toLower ≠ 'n' := by
  rcases isNumberChar_iff.mp h with hdigit | hother
  · intro hn
    rw [Char.toLower, dif_neg fun hupper => ?_] at hn
    · rw [hn] at hdigit
      exact absurd hdigit (by decide)
    · have hlow : 65 ≤ c.toNat := UInt32.le_iff_toNat_le.mp hupper.1
      omega
  · have hall : otherNumberChars.all fun c => c.toLower ≠ 'n' := by decide
    simpa using List.all_eq_true.mp hall c hother

theorem toNat_of_isLetter (h : IsLetter c) : 57 < c.toNat ∧ c.toNat < 0x85 := by
  obtain ⟨w, hw, hc⟩ := h
  have hall : words.all fun w => w.all fun x => 97 ≤ x.toNat && x.toNat ≤ 122 := by decide
  have hlower : 97 ≤ c.toLower.toNat ∧ c.toLower.toNat ≤ 122 := by
    simpa using List.all_eq_true.mp (List.all_eq_true.mp hall w hw) _ hc
  rw [Char.toLower] at hlower
  split_ifs at hlower with hupper
  · have hlow : 65 ≤ c.toNat := UInt32.le_iff_toNat_le.mp hupper.1
    have hhigh : c.toNat ≤ 90 := UInt32.le_iff_toNat_le.mp hupper.2
    omega
  · omega

theorem isBlank_of_toNat (h : 32 < c.toNat ∧ c.toNat < 0x85) : isBlank c = false := by
  rw [Bool.eq_false_iff]
  intro hblank
  have := toNat_of_isBlank hblank
  omega

theorem trimChars_of_forall (h : ∀ c ∈ cs, isBlank c = false) : trimChars cs = cs := by
  have hdrop : ∀ {l : List Char}, (∀ c ∈ l, isBlank c = false) → l.dropWhile isBlank = l :=
    fun {l} hl => List.dropWhile_eq_self_iff.mpr fun hpos => by
      rw [hl _ (List.getElem_mem hpos)]
      exact Bool.false_ne_true
  rw [trimChars, hdrop h, hdrop fun c hc => h c (List.mem_reverse.mp hc), List.reverse_reverse]

/-- What is taken for a number as it is has no blanks. -/
theorem trimChars_of_isDecimal (h : IsDecimal cs) : trimChars cs = cs :=
  trimChars_of_forall fun c hc =>
    isBlank_of_toNat (toNat_of_isNumberChar (isNumberChar_of_isDecimal h c hc))

theorem trimChars_of_isWord (h : IsWord cs) : trimChars cs = cs :=
  trimChars_of_forall fun c hc => isBlank_of_toNat <| by
    rcases isLetter_of_isWord h c hc with hletter | rfl | rfl
    · have := toNat_of_isLetter hletter
      omega
    · decide
    · decide

/-! ## No text has two forms -/

theorem isWord_of_isInfinity (h : IsInfinity cs) : IsWord cs := by
  have hall : ∀ cs ∈ infinities, IsWord cs := by decide
  exact hall cs h

theorem not_isHexadecimal_of_isDecimal (h : IsDecimal cs) : ¬ IsHexadecimal cs := by
  rintro ⟨x, hex, rfl, hx, -⟩
  have hchar := isNumberChar_of_isDecimal h x (by simp)
  rcases hx with rfl | rfl <;> exact absurd hchar (by decide)

theorem not_isHexadecimal_of_isWord (h : IsWord cs) : ¬ IsHexadecimal cs := by
  rintro ⟨x, hex, rfl, -, -⟩
  rcases isLetter_of_isWord h '0' List.mem_cons_self with hletter | hsign
  · exact absurd (toNat_of_isLetter hletter) (by decide)
  · exact absurd hsign (by decide)

theorem not_isDecimal_of_isWord (h : IsWord cs) : ¬ IsDecimal cs := by
  intro hdecimal
  obtain ⟨x, hx⟩ := Option.isSome_iff_exists.mp hdecimal
  obtain ⟨y, hy, -⟩ := Option.map_eq_some_iff.mp hx
  have hn : ∀ w ∈ words, 'n' ∈ w := by decide
  obtain ⟨c, hc, heq⟩ := List.mem_map.mp (hn _ (isSome_numberWord?.mp h))
  exact toLower_ne_of_isNumberChar ((of_unsignedDecimal? hy).1 c hc) heq

/-! ## What is a number -/

/-- **The plain reading**: a decimal number or a word, as it stands. -/
theorem isSome_plainNumber? (s : String) :
    (plainNumber? s).isSome = true ↔ IsDecimal s.toList ∨ IsWord s.toList := by
  rw [plainNumber?, Option.isSome_map, IsDecimal, IsWord, decimal?, Option.isSome_map]
  cases unsignedDecimal? (splitSign s.toList).2 <;> simp

theorem isNaN_hexadecimal? (hex : List Char) {x : Char} (hx : x = 'x' ∨ x = 'X') :
    (((hexadecimal? hex).map Float.ofInt).getD (0 / 0)).isNaN = false ↔
      IsDecimal ('0' :: x :: hex) ∨ IsInfinity ('0' :: x :: hex) ∨
        IsHexadecimal ('0' :: x :: hex) := by
  have hdecimal : ¬ IsDecimal ('0' :: x :: hex) := by
    intro h
    have hchar := isNumberChar_of_isDecimal h x (by simp)
    rcases hx with rfl | rfl <;> exact absurd hchar (by decide)
  have hinfinity : ¬ IsInfinity ('0' :: x :: hex) := by
    simp [IsInfinity, infinities]
  have hhex : IsHexadecimal ('0' :: x :: hex) ↔ (hexadecimal? hex).isSome = true := by
    constructor
    · rintro ⟨x', hex', heq, -, h⟩
      cases heq
      exact h
    · exact fun h => ⟨x, hex, rfl, hx, h⟩
  rw [hhex, or_iff_right hdecimal, or_iff_right hinfinity]
  cases hexadecimal? hex with
  | none => exact iff_of_false (by decide) (by decide)
  | some i => exact iff_of_true (isNaN_ofInt i) rfl

theorem isNaN_decimal? : (if cs.all isNumberChar then (decimal? cs).getD (0 / 0)
    else 0 / 0).isNaN = false ↔ IsDecimal cs := by
  split_ifs with hchars
  · rw [IsDecimal]
    cases h : decimal? cs with
    | none => exact iff_of_false (by decide) (by decide)
    | some x => exact iff_of_true (of_decimal? h).2 rfl
  · refine iff_of_false (by decide) fun h => hchars ?_
    exact List.all_eq_true.mpr (isNumberChar_of_isDecimal h)

theorem toList_eq_of_ofList_eq {s : String} (h : String.ofList cs = s) : cs = s.toList := by
  rw [← h, String.toList_ofList]

/-- **The reading of conversions**: a decimal number, an infinity or a hexadecimal integer, without
the blanks at the ends. -/
theorem isNaN_number (s : String) : (number s).isNaN = false ↔
    IsDecimal (trimChars s.toList) ∨ IsInfinity (trimChars s.toList) ∨
      IsHexadecimal (trimChars s.toList) := by
  rw [number]
  generalize trimChars s.toList = t
  split
  · refine iff_of_false (by decide) ?_
    rintro (h | h | ⟨x, hex, h, -⟩)
    · exact absurd h (by decide)
    · exact absurd h (by decide)
    · cases h
  · exact isNaN_hexadecimal? _ (Or.inl rfl)
  · exact isNaN_hexadecimal? _ (Or.inr rfl)
  · next hempty hlower hupper =>
    have hhex : ¬ IsHexadecimal t := by
      rintro ⟨x, hex, rfl, rfl | rfl, -⟩
      · exact hlower hex rfl
      · exact hupper hex rfl
    rw [or_iff_left hhex]
    split
    · next h => exact iff_of_true (by decide) (Or.inr (toList_eq_of_ofList_eq h ▸ by decide))
    · next h => exact iff_of_true (by decide) (Or.inr (toList_eq_of_ofList_eq h ▸ by decide))
    · next h => exact iff_of_true (by decide) (Or.inr (toList_eq_of_ofList_eq h ▸ by decide))
    · next h h' h'' =>
      have hinfinity : ¬ IsInfinity t := by
        rw [IsInfinity, infinities, List.mem_cons, List.mem_cons, List.mem_singleton]
        rintro (rfl | rfl | rfl)
        · exact h (String.ofList_toList)
        · exact h' (String.ofList_toList)
        · exact h'' (String.ofList_toList)
      rw [or_iff_left hinfinity]
      exact isNaN_decimal?

/-! ## Where the two readings differ -/

/-- The text is a word that is not one of the three spellings of infinities, or it is a number in
hexadecimal form or after its blanks are cut off. -/
def ReadsTwoWays (s : String) : Prop :=
  IsWord s.toList ∧ ¬ IsInfinity s.toList ∨ IsHexadecimal (trimChars s.toList) ∨
    trimChars s.toList ≠ s.toList ∧
      (IsDecimal (trimChars s.toList) ∨ IsInfinity (trimChars s.toList))

/-- **The two readings agree** on all other texts, and only on them. -/
theorem isNone_plainNumber?_iff (s : String) :
    ((plainNumber? s).isNone = (number s).isNaN) ↔ ¬ ReadsTwoWays s := by
  have hagree : ((plainNumber? s).isNone = (number s).isNaN) ↔
      ((plainNumber? s).isSome = true ↔ (number s).isNaN = false) := by
    cases plainNumber? s <;> cases (number s).isNaN <;> simp
  rw [hagree, isSome_plainNumber?, isNaN_number, ReadsTwoWays]
  by_cases htrim : trimChars s.toList = s.toList
  · simp only [htrim, ne_eq, not_true_eq_false, false_and, or_false]
    have hword : IsInfinity s.toList → IsWord s.toList := isWord_of_isInfinity
    have hdecimal : IsWord s.toList → ¬ IsDecimal s.toList := not_isDecimal_of_isWord
    have hhex : IsHexadecimal s.toList → ¬ IsDecimal s.toList ∧ ¬ IsWord s.toList := fun h =>
      ⟨fun h' => not_isHexadecimal_of_isDecimal h' h, fun h' => not_isHexadecimal_of_isWord h' h⟩
    generalize IsDecimal s.toList = D, IsWord s.toList = W, IsInfinity s.toList = I,
      IsHexadecimal s.toList = H at *
    clear hagree htrim
    tauto
  · have hdecimal : ¬ IsDecimal s.toList := fun h => htrim (trimChars_of_isDecimal h)
    have hword : ¬ IsWord s.toList := fun h => htrim (trimChars_of_isWord h)
    simp only [hdecimal, hword, htrim, ne_eq, not_false_eq_true, true_and, false_and, false_or]
    generalize IsDecimal (trimChars s.toList) = D, IsInfinity (trimChars s.toList) = I,
      IsHexadecimal (trimChars s.toList) = H
    clear hagree htrim hdecimal hword
    tauto

end ActionVm.Text
