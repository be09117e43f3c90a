import ActionVm.Proofs.Block.Chain
import ActionVm.Proofs.Block.Landing

/-!
# Bodies and streams

A body and a stream of the same bytes hold the same records if no zero byte stands before the last
byte. A zero byte at the end does not belong to the stream, but it does to the body, so a branch to
it ends the stream and leads nowhere in the body.

* `decodeBody_eq_map`: the block of the body from that of the stream;
* `BlockOf.landing_longer_iff`, `BlockOf.branch_longer_iff`: what more bytes at the end change;
* **`decodeBody_agrees`**: the same records or the same error, and which branches lead to the same
  place;
* `branch_to_final_zero`: a branch that does not.
-/

namespace ActionVm

variable {s : List UInt8}

/-- A body is the stream of the same bytes up to the end of these. -/
theorem decodeBody_eq_map (h : ∀ b, decodeActions s = .ok b → s.length ≤ b.byteLength + 1) :
    decodeBody s = (decodeActions s).map fun b => ⟨b.records, s.length⟩ := by
  obtain ⟨l, r', c, hl, hc⟩ := exists_chain (decoderBelow maxNesting) (.ofBytes s)
  have hspan : r'.position + r'.rest.length = 0 + s.length := hl.position_add_length
  have hstream : decodeActions s = c.map (⟨l, ·⟩) := hc.answer hl
  have hbody : decodeBody s =
      ((readRecords (decoderBelow maxNesting) true).run.run (.ofBytes s)).1 := rfl
  rw [hstream, hbody]
  cases hc with
  | finish hr =>
    rw [hr, List.length_nil] at hspan
    rw [hl.answer_of_nil hr, show r'.position = s.length by omega]
    rfl
  | @zero rest hr =>
    -- the zero byte is the last one: the stream ends before it, and the body skips it
    have hlen : s.length ≤ r'.position + 1 := h _ hstream
    rw [hr, List.length_cons] at hspan
    obtain rfl : rest = [] := List.eq_nil_of_length_eq_zero (by omega)
    rw [List.length_nil] at hspan
    rw [hl.answer_of_last_zero hr, show r'.position + 1 = s.length by omega]
    rfl
  | error hr he =>
    rw [hl.answer_of_fails hr he]
    rfl

/-- A block that reaches further differs only in what stands behind the shorter one. -/
theorem BlockOf.landing_longer_iff {b : Block} {n : ℕ} (hn : b.byteLength ≤ n) (target : ℤ) :
    BlockOf.landing ⟨b.records, n⟩ target = b.landing target ↔
      ¬ (b.byteLength ≤ target ∧ target < n) := by
  by_cases hbehind : b.byteLength ≤ target ∧ target < n
  · refine iff_of_false (fun hl => ?_) (not_not_intro hbehind)
    rw [landing_eq_finish_iff.mpr hbehind.1, landing_eq_finish_iff] at hl
    exact absurd hbehind.2 (Int.not_lt.mpr hl)
  · refine iff_of_true ?_ hbehind
    have hend : (n : ℤ) ≤ target ↔ (b.byteLength : ℤ) ≤ target := by omega
    simp only [landing, hend]

theorem BlockOf.branch_longer_iff {b : Block} {n : ℕ} (hn : b.byteLength ≤ n) (index : ℕ)
    (offset : Int16) : BlockOf.branch ⟨b.records, n⟩ index offset = b.branch index offset ↔
      ¬ ∃ x, b.records[index]? = some x ∧ b.byteLength ≤ x.finish + offset.toInt ∧
        x.finish + offset.toInt < n := by
  simp only [branch]
  cases b.records[index]? with
  | none => simp
  | some x => simp only [landing_longer_iff hn, Option.some.injEq, exists_eq_left']

/-- The last of records side by side reaches their end. -/
theorem Tiles.exists_last {i j : ℕ} {l : List Record} (h : Tiles i l j) (hl : l ≠ []) :
    ∃ x, l[l.length - 1]? = some x ∧ x.finish = j := by
  induction l generalizing i with
  | nil => exact absurd rfl hl
  | cons x l ih =>
    cases l with
    | nil => exact ⟨x, rfl, h.2⟩
    | cons y l => exact ih h.2 nofun

/-- **A body agrees with the stream of the same bytes** if the stream ends with the last byte or
before it, but for branches to a zero byte at the end. -/
theorem decodeBody_agrees (h : ∀ b, decodeActions s = .ok b → s.length ≤ b.byteLength + 1) :
    (∃ e, decodeActions s = .error e ∧ decodeBody s = .error e) ∨
    ∃ b c, decodeActions s = .ok b ∧ decodeBody s = .ok c ∧ c.records = b.records ∧
      (∀ index offset, c.branch index offset = b.branch index offset ↔
        ¬ (b.byteLength < s.length ∧
          ∃ x, b.records[index]? = some x ∧ x.finish + offset.toInt = b.byteLength)) ∧
      ((∀ index offset, c.branch index offset = b.branch index offset) ↔
        b.byteLength = s.length ∨ b.records = []) := by
  have hbody := decodeBody_eq_map h
  rcases hstream : decodeActions s with e | b
  · exact Or.inl ⟨e, rfl, by rw [hbody, hstream]; rfl⟩
  have hlen := h b hstream
  have hle : b.byteLength ≤ s.length := by
    rcases (describes_of_decodeActions hstream).ends with hend | hzero
    · exact hend.le
    · exact (List.getElem?_eq_some_iff.mp hzero).1.le
  have hbranch : ∀ index offset,
      BlockOf.branch ⟨b.records, s.length⟩ index offset = b.branch index offset ↔
        ¬ (b.byteLength < s.length ∧
          ∃ x, b.records[index]? = some x ∧ x.finish + offset.toInt = b.byteLength) := by
    intro index offset
    rw [BlockOf.branch_longer_iff hle, not_iff_not, ← exists_and_left]
    refine exists_congr fun x => ?_
    rw [@and_left_comm (b.byteLength < s.length)]
    refine and_congr_right fun _ => ?_
    omega
  refine Or.inr ⟨b, ⟨b.records, s.length⟩, rfl, by rw [hbody, hstream]; rfl, rfl, hbranch, ?_⟩
  simp only [hbranch]
  constructor
  · intro hall
    by_contra hno
    rw [not_or] at hno
    obtain ⟨x, hx, hfin⟩ := (describes_of_decodeActions hstream).tiles.exists_last hno.2
    exact hall _ 0 ⟨by omega, x, hx, by rw [hfin]; rfl⟩
  · rintro (heq | hnil) index offset ⟨hlt, x, hx, -⟩
    · omega
    · rw [hnil] at hx
      cases hx

/-- A branch of a body to its last record, and one over it to the zero byte behind it. -/
theorem decodeBody_agrees_with_final_zero :
    (∀ b, decodeActions [0x99, 2, 0, 0, 0, 7, 0] = .ok b → 7 ≤ b.byteLength + 1) ∧
    ∃ b c, decodeActions [0x99, 2, 0, 0, 0, 7, 0] = .ok b ∧
      decodeBody [0x99, 2, 0, 0, 0, 7, 0] = .ok c ∧ c.records = b.records ∧
      c.branch 0 0 = b.branch 0 0 ∧ c.branch 0 1 ≠ b.branch 0 1 := by
  have hstream : decodeActions [0x99, 2, 0, 0, 0, 7, 0] =
      .ok ⟨[⟨0, 5, .jump 0⟩, ⟨5, 1, .op .stop⟩], 6⟩ := rfl
  have hlen : ∀ b, decodeActions [0x99, 2, 0, 0, 0, 7, 0] = .ok b → 7 ≤ b.byteLength + 1 := by
    intro b hb
    cases hstream.symm.trans hb
    decide
  refine ⟨hlen, ?_⟩
  obtain ⟨e, he, -⟩ | ⟨b, c, hb, hc, hrec, hbranch, -⟩ := decodeBody_agrees hlen
  · cases hstream.symm.trans he
  · refine ⟨b, c, hb, hc, hrec, (hbranch 0 0).mpr ?_, fun heq => (hbranch 0 1).mp heq ?_⟩
    all_goals cases hstream.symm.trans hb
    · decide
    · exact ⟨by decide, _, rfl, rfl⟩

/-- **A branch to the zero byte at the end** ends a stream, and in a body it leads nowhere. -/
theorem branch_to_final_zero :
    decodeActions [0x99, 2, 0, 0, 0, 0] = .ok ⟨[⟨0, 5, .jump 0⟩], 5⟩ ∧
    decodeBody [0x99, 2, 0, 0, 0, 0] = .ok ⟨[⟨0, 5, .jump 0⟩], 6⟩ ∧
    BlockOf.branch (⟨[⟨0, 5, .jump 0⟩], 5⟩ : Block) 0 0 = .finish ∧
    BlockOf.branch (⟨[⟨0, 5, .jump 0⟩], 6⟩ : Block) 0 0 = .invalid 5 :=
  ⟨rfl, rfl, rfl, by simp [BlockOf.branch, BlockOf.landing, search, lastUpTo, Placed.finish]⟩

end ActionVm
