import ActionVm.Block.Listing
import ActionVm.Proofs.Block.Outline
import ActionVm.Proofs.Text.Plain
import ActionVm.Toml.Scalar
import Mathlib.Data.List.Forall2

/-!
# Listings read back

No text that a block carries can pass for a line of its listing. Every record has one line, which
begins with its depth, its offset and its name and goes on with nothing but plain text, so that the
outline of the block is read back from the listing.

* `PushValue.plain_listing`, `Action.details_cases`: what stands behind the name of an action;
* `baseValue_hex`: an offset is known from its digits;
* `LineOf`, `lineOf_recordLine`: the form of a line;
* `readLine`, `readListing`: depth, offset and name of a line, and the outline of a listing;
* **`listing_reads_back`**: the lines of a listing, and the outline that is read from them.
-/

namespace ActionVm

open Text

/-! ## Operands on a line -/

theorem plain_bracketed {texts : List String} (h : ∀ s ∈ texts, Plain s.toList) :
    Plain (bracketed texts).toList := by
  have hinner : Plain (", ".intercalate texts).toList := by
    rw [String.toList_intercalate]
    exact plain_intercalate (by decide) (List.forall_mem_map.mpr h)
  simp only [bracketed, String.toList_append, plain_append]
  exact ⟨⟨by decide, hinner⟩, by decide⟩

theorem PushValue.plain_listing (v : PushValue) : Plain v.listing.toList := by
  cases v with
  | string s =>
    simp only [listing, String.toList_append, plain_append]
    exact ⟨⟨by decide, plain_quote s⟩, by decide⟩
  | float bits | double bits =>
    simp only [listing, String.toList_append, plain_append]
    exact ⟨⟨by decide, Reading.plain_write (by decide) _ _⟩, by decide⟩
  | null | undefined => decide
  | boolean b => cases b <;> decide
  | register r =>
    simp only [listing, String.toList_append, plain_append]
    exact ⟨⟨by decide, plain_toString _⟩, by decide⟩
  | constant i =>
    simp only [listing, String.toList_append, plain_append]
    exact ⟨⟨by decide, plain_toString _⟩, by decide⟩
  | integer i =>
    simp only [listing, String.toList_append, plain_append]
    exact ⟨⟨by decide, plain_toString_int _⟩, by decide⟩

/-! ## Offsets -/

/-- The digits of an offset. -/
def offsetDigits : List Char := "0123456789ABCDEF".toList

theorem toList_hex (width n : ℕ) : (DecodeError.hex width n).toList =
    List.replicate (width - (Nat.toDigits 16 n).length) '0' ++
      (Nat.toDigits 16 n).map Char.toUpper := by
  rw [DecodeError.hex, String.toList_map, paddedHex, String.toList_ofList, List.map_append,
    List.map_replicate]
  rfl

theorem mem_offsetDigits_of_mem_hex {width n : ℕ} {c : Char}
    (h : c ∈ (DecodeError.hex width n).toList) : c ∈ offsetDigits := by
  rw [toList_hex] at h
  rcases List.mem_append.mp h with h | h
  · rw [List.eq_of_mem_replicate h]
    decide
  · obtain ⟨_, hdigit, rfl⟩ := List.mem_map.mp h
    obtain ⟨d, hd, rfl⟩ := exists_digit_of_mem_toDigits (by decide) hdigit
    have hall : ∀ d < 16, (Nat.digitChar d).toUpper ∈ offsetDigits := by decide
    exact hall d hd

theorem le_length_hex (width n : ℕ) : width ≤ (DecodeError.hex width n).toList.length := by
  rw [toList_hex, List.length_append, List.length_replicate, List.length_map]
  omega

theorem baseValue_concat (base : ℕ) (digits : List Char) (c : Char) :
    Toml.baseValue base (digits ++ [c]) =
      Toml.baseValue base digits * base + (hexValue? c).getD 0 := by
  rw [Toml.baseValue, List.foldl_append]
  rfl

/-- Zeros in front add nothing. -/
theorem baseValue_replicate_append (base k : ℕ) (digits : List Char) :
    Toml.baseValue base (List.replicate k '0' ++ digits) = Toml.baseValue base digits := by
  induction k with
  | zero => rfl
  | succ k ih =>
    have hzero : (hexValue? '0').getD 0 = 0 := rfl
    rw [Toml.baseValue] at ih ⊢
    rw [List.replicate_succ, List.cons_append, List.foldl_cons, hzero, Nat.zero_mul]
    exact ih

theorem baseValue_toDigits (n : ℕ) :
    Toml.baseValue 16 ((Nat.toDigits 16 n).map Char.toUpper) = n := by
  have hdigit : ∀ d < 16, (hexValue? (Nat.digitChar d).toUpper).getD 0 = d := by decide
  induction n using Nat.strong_induction_on with
  | _ n ih =>
    rw [Nat.toDigits_eq_if (by decide)]
    split
    · next hn =>
      have := baseValue_concat 16 [] (Nat.digitChar n).toUpper
      rw [hdigit n hn] at this
      simpa [Toml.baseValue] using this
    · next hn =>
      rw [List.map_append, List.map_singleton, baseValue_concat, ih (n / 16) (by omega),
        hdigit (n % 16) (Nat.mod_lt n (by decide))]
      omega

/-- An offset is known from its digits. -/
theorem baseValue_hex (width n : ℕ) :
    Toml.baseValue 16 (DecodeError.hex width n).toList = n := by
  rw [toList_hex, baseValue_replicate_append, baseValue_toDigits]

theorem plain_hex (width n : ℕ) : Plain (DecodeError.hex width n).toList := by
  have hall : Plain offsetDigits := by decide
  exact fun c hc => hall c (mem_offsetDigits_of_mem_hex hc)

theorem offsetText_of_nat (n : ℕ) : offsetText n = DecodeError.hex 4 n := by
  rw [offsetText, if_neg (by omega), Int.toNat_natCast]

/-! ## Names and operands -/

/-- Names are made of letters and digits. -/
theorem isAlphanum_of_mem_name {a : Action} {c : Char} (h : c ∈ a.name.toList) :
    c.isAlphanum = true := by
  have hall : ∀ code ∈ Code.all, code.name.toList.all Char.isAlphanum = true := by decide +kernel
  unfold Action.name at h
  rcases hcode : Code.ofByte? a.code with _ | code
  all_goals rw [hcode] at h
  · exact List.all_eq_true.mp (by decide : "Unknown".toList.all Char.isAlphanum = true) c h
  · exact List.all_eq_true.mp (hall code (Code.mem_all code)) c h

theorem plain_signed (i : ℤ) : Plain (signed i).toList := by
  unfold signed
  split
  · exact plain_toString_int i
  · rw [String.toList_append]
    exact plain_append.mpr ⟨by decide, plain_toString_int i⟩

theorem plain_offsetText (i : ℤ) : Plain (offsetText i).toList := plain_hex _ _

/-- What follows the name on a line is nothing, or a space and a plain text. -/
theorem Action.details_cases (finish : ℕ) (a : Action) :
    (a.details finish).toList = [] ∨
      ∃ text, (a.details finish).toList = ' ' :: text ∧ Plain text := by
  have hspace : ∀ s : String, (" " ++ s).toList = ' ' :: s.toList := fun s => by
    rw [String.toList_append]
    rfl
  cases a with
  | push values =>
    refine .inr ⟨_, hspace _, plain_bracketed fun s hs => ?_⟩
    obtain ⟨v, -, rfl⟩ := List.mem_map.mp hs
    exact v.plain_listing
  | constantPool entries =>
    refine .inr ⟨_, hspace _, plain_bracketed fun s hs => ?_⟩
    obtain ⟨entry, -, rfl⟩ := List.mem_map.mp hs
    exact plain_quote entry
  | jump offset | branchIf offset =>
    refine .inr ⟨(signed offset.toInt ++ " -> " ++ offsetText (finish + offset.toInt)).toList,
      ?_, ?_⟩
    · rw [← hspace, Action.details, String.append_assoc, String.append_assoc, String.append_assoc]
    · simp only [String.toList_append, plain_append]
      exact ⟨⟨plain_signed _, by decide⟩, plain_offsetText _⟩
  | storeRegister register =>
    refine .inr ⟨("r" ++ toString register).toList, ?_, ?_⟩
    · rw [← hspace]
      rfl
    · rw [String.toList_append]
      exact plain_append.mpr ⟨by decide, plain_toString _⟩
  | _ => exact .inl rfl

/-! ## Lines -/

/-- The line of a record inside `depth` bodies: two spaces for each body, the offset in at least
four digits, the name, and nothing else or more after a space. -/
structure LineOf (depth : ℕ) (r : Record) (line : List Char) : Prop where
  head : ∃ digits details, line =
      List.replicate (2 * depth) ' ' ++ (digits ++ ' ' :: (r.action.name.toList ++ details)) ∧
    4 ≤ digits.length ∧ (∀ c ∈ digits, c ∈ offsetDigits) ∧
    Toml.baseValue 16 digits = r.offset ∧ (details = [] ∨ ∃ text, details = ' ' :: text)
  plain : Plain line

theorem lineOf_recordLine (depth : ℕ) (r : Record) :
    LineOf depth r (recordLine depth r).toList := by
  have hline : (recordLine depth r).toList = List.replicate (2 * depth) ' ' ++
      ((DecodeError.hex 4 r.offset).toList ++
        ' ' :: (r.action.name.toList ++ (r.action.details r.finish).toList)) := by
    simp [recordLine, offsetText_of_nat]
  have hdetails := r.action.details_cases r.finish
  refine ⟨⟨_, _, hline, le_length_hex 4 _, fun c => mem_offsetDigits_of_mem_hex,
    baseValue_hex 4 _, hdetails.imp_right fun ⟨text, h, _⟩ => ⟨text, h⟩⟩, ?_⟩
  have hname : Plain r.action.name.toList :=
    fun c hc => not_isControl_of_isAlphanum (isAlphanum_of_mem_name hc)
  have htail : Plain (r.action.details r.finish).toList := by
    rcases hdetails with h | ⟨text, h, hplain⟩
    · rw [h]
      exact plain_nil
    · rw [h, ← List.singleton_append, plain_append]
      exact ⟨by decide, hplain⟩
  rw [hline, ← List.singleton_append]
  simp only [plain_append]
  exact ⟨plain_replicate (by decide), plain_hex _ _, by decide, hname, htail⟩

theorem LineOf.newline_notMem {depth : ℕ} {r : Record} {line : List Char}
    (h : LineOf depth r line) : '\n' ∉ line :=
  fun hc => h.plain _ hc (by decide)

/-- What a line tells: the depth, and the offset and the name of its record. -/
def readLine (line : List Char) : ℕ × (ℕ × String) :=
  let rest := line.dropWhile (· = ' ')
  ((line.takeWhile (· = ' ')).length / 2,
    (Toml.baseValue 16 (rest.takeWhile (· ≠ ' ')),
      String.ofList (((rest.dropWhile (· ≠ ' ')).drop 1).takeWhile (· ≠ ' '))))

/-- A word ends where the line does, or at a space. -/
theorem takeWhile_word {word rest : List Char} (h : ' ' ∉ word)
    (hrest : rest = [] ∨ ∃ text, rest = ' ' :: text) :
    (word ++ rest).takeWhile (· ≠ ' ') = word := by
  have hword : ∀ c ∈ word, decide (c ≠ ' ') = true := fun c hc =>
    decide_eq_true fun hspace : c = ' ' => h (hspace ▸ hc)
  rw [List.takeWhile_append_of_pos hword]
  rcases hrest with rfl | ⟨text, rfl⟩
  · rw [List.takeWhile_nil, List.append_nil]
  · rw [List.takeWhile_cons_of_neg (by decide), List.append_nil]

/-- The spaces in front of a line end at its first word. -/
theorem takeWhile_indent {n : ℕ} {rest : List Char} (h : (rest.head?.all (· ≠ ' ')) = true) :
    (List.replicate n ' ' ++ rest).takeWhile (· = ' ') = List.replicate n ' ' := by
  have hindent : ∀ c ∈ List.replicate n ' ', decide (c = ' ') = true := fun c hc =>
    decide_eq_true (List.eq_of_mem_replicate hc)
  rw [List.takeWhile_append_of_pos hindent]
  rcases rest with _ | ⟨c, rest⟩
  · rw [List.takeWhile_nil, List.append_nil]
  · rw [List.takeWhile_cons_of_neg (by simpa using h), List.append_nil]

/-- A line tells depth, offset and name. -/
theorem readLine_of_lineOf {depth : ℕ} {r : Record} {line : List Char} (h : LineOf depth r line) :
    readLine line = (depth, (r.offset, r.action.name)) := by
  obtain ⟨digits, details, rfl, hlength, hdigits, hvalue, hdetails⟩ := h.head
  have hname : ' ' ∉ r.action.name.toList := fun hc =>
    absurd (isAlphanum_of_mem_name hc) (by decide)
  have hspace : ' ' ∉ digits := fun hc => absurd (hdigits _ hc) (by decide)
  have hfirst : ((digits ++ ' ' :: (r.action.name.toList ++ details)).head?.all
      (· ≠ ' ')) = true := by
    rcases digits with _ | ⟨d, ds⟩
    · simp at hlength
    · simpa using fun hd : d = ' ' => hspace (hd ▸ List.mem_cons_self)
  have hindent := takeWhile_indent (n := 2 * depth) hfirst
  have hoffset := takeWhile_word hspace (.inr ⟨r.action.name.toList ++ details, rfl⟩)
  unfold readLine
  dsimp only
  rw [hindent, dropWhile_of_takeWhile hindent, hoffset, dropWhile_of_takeWhile hoffset,
    List.drop_succ_cons, List.drop_zero, takeWhile_word hname hdetails, hvalue,
    String.ofList_toList, List.length_replicate, Nat.mul_div_cancel_left depth (by decide)]

/-- The outline that a listing tells. Its last line break ends the last line. -/
def readListing (text : String) : Outline (ℕ × String) :=
  .ofPreorder (((text.toList.splitOn '\n').dropLast).map readLine)

/-! ## Listings -/

/-- Lines that are ended by line breaks are told apart, as long as they have no others. -/
theorem splitOn_join_lines {lines : List String} (h : ∀ line ∈ lines, '\n' ∉ line.toList) :
    (String.join (lines.map (· ++ "\n"))).toList.splitOn '\n' =
      lines.map String.toList ++ [[]] := by
  induction lines with
  | nil => rfl
  | cons line lines ih =>
    have hrest := ih fun l hl => h l (List.mem_cons_of_mem line hl)
    have hcons : (String.join ((line :: lines).map (· ++ "\n"))).toList =
        line.toList ++ '\n' :: (String.join (lines.map (· ++ "\n"))).toList := by
      simp [String.toList_join]
    rw [hcons, List.splitOn_append_cons_self_of_not_mem (h line List.mem_cons_self), hrest,
      List.map_cons, List.cons_append]

/-- **A listing has a line for each record, and the outline is read back from it.** The lines are
those of the records of all bodies in pre-order, each ended by a line break, and there are no
others; depths, offsets and names tell the records apart from anything that they carry. -/
theorem listing_reads_back (b : Block) :
    (∃ lines, (listing b).toList.splitOn '\n' = lines ++ [[]] ∧
      List.Forall₂ (fun p line => LineOf p.1 p.2 line) ((blockOutline b).preorder 0) lines) ∧
    readListing (listing b) = (blockOutline b).map fun r => (r.offset, r.action.name) := by
  have hsplit : (listing b).toList.splitOn '\n' =
      ((blockOutline b).preorder 0).map (fun p => (recordLine p.1 p.2).toList) ++ [[]] := by
    rw [listing, blockLines_eq, splitOn_join_lines, outlineLines, List.map_map]
    · rfl
    · intro line hline
      obtain ⟨p, -, rfl⟩ := List.mem_map.mp hline
      exact (lineOf_recordLine p.1 p.2).newline_notMem
  refine ⟨⟨_, hsplit, ?_⟩, ?_⟩
  · rw [List.forall₂_map_right_iff, List.forall₂_same]
    exact fun p _ => lineOf_recordLine p.1 p.2
  · have hread : (fun p : ℕ × Record => readLine (recordLine p.1 p.2).toList) =
        Prod.map id fun r => (r.offset, r.action.name) :=
      funext fun p => readLine_of_lineOf (lineOf_recordLine p.1 p.2)
    rw [readListing, hsplit, List.dropLast_concat, List.map_map, Function.comp_def, hread,
      ← Outline.preorder_map, Outline.ofPreorder_preorder]

/-- A pushed text that imitates a record stays on the line of the record that pushes it. -/
example : listing ⟨[⟨0, 22, .withObject ⟨[⟨0, 17, .push [.string "\n0000 Stop"]⟩], 17⟩⟩], 22⟩ =
    "0000 With\n  0000 Push [Str(\"\\n0000 Stop\")]\n" := by cbv

end ActionVm
