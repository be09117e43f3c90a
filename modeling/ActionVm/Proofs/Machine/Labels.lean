import ActionVm.Machine.Actions
import ActionVm.Proofs.Text.Grammars

/-!
# Labels and frame numbers

A text on the stack asks the stage for the frame of that label, or for a frame by its number. Which
of the two is decided by the plain reading of numbers, and the number itself is that of the
conversion, which reads some texts otherwise.

* `toNat_frameIndex`: frames are counted from one, and after those of the scenes before;
* `Event.ofText`, `perform_gotoFrame2`: what a text asks of the stage;
* **`gotoFrame2_of_text`**: for which texts that is the frame of the number they convert to;
* `gotoFrame2_of_blanks`: a number between blanks goes to a label.
-/

namespace ActionVm

open Text

/-- The index of a frame, where it is no larger than a word. -/
theorem toNat_frameIndex {sceneBias : UInt16} {number : UInt32}
    (h : number.toNat - 1 + sceneBias.toNat < UInt32.size) :
    (frameIndex sceneBias number).toNat = number.toNat - 1 + sceneBias.toNat := by
  have hfirst : (if number = 0 then 0 else number - 1).toNat = number.toNat - 1 := by
    split_ifs with hzero
    · rw [hzero]
      rfl
    · have hle : (1 : UInt32) ≤ number := by
        rw [UInt32.le_iff_toNat_le, UInt32.toNat_one, Nat.one_le_iff_ne_zero]
        exact fun h => hzero (UInt32.toNat_inj.mp h)
      rw [UInt32.toNat_sub_of_le number 1 hle, UInt32.toNat_one]
  rw [frameIndex, UInt32.toNat_add, hfirst, UInt16.toNat_toUInt32]
  exact Nat.mod_eq_of_lt h

/-- What a text asks of the stage. -/
def Event.ofText (play : Bool) (sceneBias : UInt16) (text : String) : Event :=
  if (plainNumber? text).isNone then .gotoLabel text play
  else .gotoFrame (frameIndex sceneBias (Value.string text).toUInt32) play

theorem gotoFrame_string (play : Bool) (sceneBias : UInt16) (text : String) :
    gotoFrame play sceneBias (.string text) = Exec.tell (.ofText play sceneBias text) := by
  rw [gotoFrame, Event.ofText]
  split_ifs <;> rfl

theorem perform_gotoFrame2 (e : Embedding) (c : Context) (s : State) (play : Bool)
    (sceneBias : Option UInt16) (text : String) :
    perform e (.gotoFrame2 play sceneBias) (c.push (.string text), s) =
      (.ok .next, c, s.withWorker fun w => { w with
        stage := w.stage.tell (.ofText play (sceneBias.getD 0) text) }) := by
  change (do
    Act.exec (gotoFrame play _ (.string text))
    return Outcome.next : Act Outcome) (c, s) = _
  rw [gotoFrame_string]
  rfl

/-- **A text goes to a frame by its number** if it is a decimal number or a word for infinity or NaN
as it stands, and else to the frame of its label. That is the frame of the number that it converts
to, and a label where it converts to NaN, unless the text is read in two ways; and for those texts
it is just the other way round. The number is counted from one, and after the frames of the scenes
before. -/
theorem gotoFrame2_of_text (e : Embedding) (c : Context) (s : State) (play : Bool)
    (sceneBias : Option UInt16) (text : String) :
    let word := (Value.string text).toUInt32
    let frame := frameIndex (sceneBias.getD 0) word
    (word.toNat - 1 + (sceneBias.getD 0).toNat < UInt32.size →
      frame.toNat = word.toNat - 1 + (sceneBias.getD 0).toNat) ∧
    ∃ asked, perform e (.gotoFrame2 play sceneBias) (c.push (.string text), s) =
        (.ok .next, c, s.withWorker fun w => { w with stage := w.stage.tell asked }) ∧
      (IsDecimal text.toList ∨ IsWord text.toList → asked = .gotoFrame frame play) ∧
      (¬ (IsDecimal text.toList ∨ IsWord text.toList) → asked = .gotoLabel text play) ∧
      (¬ ReadsTwoWays text → asked =
        if (Value.string text).toNumber.isNaN then .gotoLabel text play
        else .gotoFrame frame play) ∧
      (ReadsTwoWays text → asked =
        if (Value.string text).toNumber.isNaN then .gotoFrame frame play
        else .gotoLabel text play) := by
  intro word frame
  have hnumber : (Value.string text).toNumber = number text := rfl
  refine ⟨toNat_frameIndex, _, perform_gotoFrame2 e c s play sceneBias text, fun h => ?_, fun h => ?_, fun h => ?_,
    fun h => ?_⟩
  · rw [Event.ofText, if_neg]
    rw [Option.isNone_iff_eq_none, ← Option.not_isSome_iff_eq_none, not_not]
    exact (isSome_plainNumber? text).mpr h
  · rw [Event.ofText, if_pos]
    rw [Option.isNone_iff_eq_none, ← Option.not_isSome_iff_eq_none, isSome_plainNumber?]
    exact h
  · rw [Event.ofText, (isNone_plainNumber?_iff text).mpr h, hnumber]
  · have hdiffers : (plainNumber? text).isNone = !(number text).isNaN :=
      Bool.eq_not.mpr (mt (isNone_plainNumber?_iff text).mp (not_not.mpr h))
    rw [Event.ofText, hnumber, hdiffers]
    cases (number text).isNaN <;> rfl

/-! ## A worker with nothing but a stage -/

/-- One object and one domain, and nothing told yet. -/
def bareState : State :=
  ⟨⟨#[.plain], #[], #[⟨none, .empty, none⟩]⟩, .idle .default ⟨0⟩ ⟨0⟩⟩

/-- No operands. -/
def bareContext : Context := .start ⟨⟨0⟩, []⟩ .null

/-- A decimal number is the number of a frame, counted from one. -/
theorem gotoFrame2_of_text_twelve : IsDecimal "12".toList ∧
    ∃ s', perform .none (.gotoFrame2 true (some 100)) (bareContext.push (.string "12"), bareState) =
        (.ok .next, bareContext, s') ∧
      s'.worker.stage.events = [.gotoFrame 111 true] := by
  have hdecimal : IsDecimal "12".toList := by decide +kernel
  obtain ⟨hword, asked, hperform, hframe, -⟩ :=
    gotoFrame2_of_text .none bareContext bareState true (some 100) "12"
  have hvalue : frameIndex ((some 100).getD 0) (Value.string "12").toUInt32 = 111 :=
    UInt32.toNat_inj.mp (hword (by decide +kernel) |>.trans (by decide +kernel))
  refine ⟨hdecimal, _, hperform, ?_⟩
  rw [hframe (Or.inl hdecimal), hvalue]
  rfl

/-- **A number between blanks goes to a label**, and a word in lower case to the first frame,
although the one converts to a number and the other to NaN. -/
theorem gotoFrame2_of_blanks :
    ((Value.string " 5 ").toNumber.isNaN = false ∧ (Value.string " 5 ").toUInt32 = 5 ∧
      ∃ s', perform .none (.gotoFrame2 false none) (bareContext.push (.string " 5 "), bareState) =
          (.ok .next, bareContext, s') ∧
        s'.worker.stage.events = [.gotoLabel " 5 " false]) ∧
    (Value.string "nan").toNumber.isNaN = true ∧
      ∃ s', perform .none (.gotoFrame2 false none) (bareContext.push (.string "nan"), bareState) =
          (.ok .next, bareContext, s') ∧
        s'.worker.stage.events = [.gotoFrame 0 false] := by
  have hnone : (plainNumber? " 5 ").isNone = true := by decide +kernel
  have hsome : (plainNumber? "nan").isNone = false := by decide +kernel
  have hframe : frameIndex 0 (Value.string "nan").toUInt32 = 0 := by decide +kernel
  refine ⟨⟨by decide +kernel, by decide +kernel, _, perform_gotoFrame2 .., ?_⟩, by decide +kernel,
    _, perform_gotoFrame2 .., ?_⟩
  · change [Event.ofText false 0 " 5 "] = _
    rw [Event.ofText, if_pos hnone]
  · change [Event.ofText false 0 "nan"] = _
    rw [Event.ofText, hsome, hframe]
    rfl

end ActionVm
