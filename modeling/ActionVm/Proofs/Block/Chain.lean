import ActionVm.Proofs.Block.Frugality

/-!
# Chains of records

The records of a span are read one after another up to a place where there is no further one. What
a stream or a body answers depends only on the chain of its records and on what stands there.

* `Chain`: records that are read one after another;
* `Chain.withRest`: a chain stays one, whatever comes after its last record;
* `Closes`, `exists_chain`: every chain ends at the end of the span, at a zero byte or in an error;
* **`Closes.answer`**: what a stream answers;
* `Chain.answer_of_nil`, `Chain.answer_of_last_zero` and the like: what a body answers.
-/

namespace ActionVm

open Read

variable {decode : Option (Reader → Except DecodeError Block)}

/-- From `r` up to `r'`, records are read one after another. -/
inductive Chain (decode : Option (Reader → Except DecodeError Block)) :
    Reader → List Record → Reader → Prop
  | nil (r : Reader) : Chain decode r [] r
  | cons {r m r' : Reader} {x : Record} {l : List Record} :
    Gives (readRecord decode) r (some x) m → Chain decode m l r' → Chain decode r (x :: l) r'

/-- The reader at the same place before `rest`. -/
def Reader.withRest (r : Reader) (rest : List UInt8) : Reader := ⟨rest, r.position, r.base⟩

namespace Chain

variable {r m r' : Reader} {l l' : List Record}

theorem append (h : Chain decode r l m) (h' : Chain decode m l' r') :
    Chain decode r (l ++ l') r' := by
  induction h with
  | nil => exact h'
  | cons hx _ ih => exact .cons hx (ih h')

theorem withRest (h : Chain decode r l r') (rest : List UInt8) :
    Chain decode (r.withRest (r.rest ++ rest)) l (r'.withRest (r'.rest ++ rest)) := by
  induction h with
  | nil r => exact .nil _
  | @cons r m r' x l hx _ ih =>
    obtain ⟨-, -, bytes, hl, hr, hm, hs⟩ := spends_readRecord hx
    have hg := hs.gives (m.rest ++ rest)
    rw [← List.append_assoc, ← hr, hl] at hg
    have hm' : m.withRest (m.rest ++ rest) = ⟨m.rest ++ rest, r.position + x.size, r.base⟩ := by
      rw [hm]
      rfl
    exact .cons (hm' ▸ hg) ih

theorem base_eq (h : Chain decode r l r') : r'.base = r.base := by
  induction h with
  | nil r => rfl
  | cons hx _ ih =>
    obtain ⟨-, -, _, -, -, hm, -⟩ := spends_readRecord hx
    rw [ih, hm]
    rfl

theorem position_add_length (h : Chain decode r l r') :
    r'.position + r'.rest.length = r.position + r.rest.length := by
  induction h with
  | nil r => rfl
  | @cons r m r' x l hx _ ih =>
    obtain ⟨-, -, bytes, hl, hrest, hm, -⟩ := spends_readRecord hx
    have hpos : m.position = r.position + x.size := by rw [hm]; rfl
    rw [ih, hpos, hrest, List.length_append]
    omega

end Chain

/-! ## The end of a chain -/

/-- What reading records comes to at a place where there is no further one. -/
inductive Closes (decode : Option (Reader → Except DecodeError Block)) (r : Reader) :
    Except DecodeError ℕ → Prop
  | finish : r.rest = [] → Closes decode r (.ok r.position)
  | zero {rest : List UInt8} : r.rest = 0 :: rest → Closes decode r (.ok r.position)
  | error {e : DecodeError} : r.rest ≠ [] → Fails (readRecord decode) r e →
    Closes decode r (.error e)

/-- Every reader stands at the start of a chain, which ends somehow. -/
theorem exists_chain (decode : Option (Reader → Except DecodeError Block)) (r : Reader) :
    ∃ l r' c, Chain decode r l r' ∧ Closes decode r' c := by
  induction hn : r.rest.length using Nat.strong_induction_on generalizing r with
  | _ n ih =>
    by_cases hr : r.rest = []
    · exact ⟨[], r, _, .nil r, .finish hr⟩
    · rcases gives_or_fails (readRecord decode) r with ⟨_ | x, m, h⟩ | ⟨e, he⟩
      · obtain ⟨rest, hrest⟩ := rest_of_readRecord_none h
        exact ⟨[], r, _, .nil r, .zero hrest⟩
      · obtain ⟨-, hpos, bytes, hl, hrest, -⟩ := spends_readRecord h
        have hlt : m.rest.length < n := by
          rw [← hn, hrest, List.length_append]
          omega
        obtain ⟨l, r', c, hl, hc⟩ := ih _ hlt m rfl
        exact ⟨x :: l, r', c, .cons h hl, hc⟩
      · exact ⟨[], r, _, .nil r, .error hr he⟩

/-! ## Answers -/

theorem run_get_bind {α : Type} {f : Reader → Read α} {r : Reader} :
    (get >>= f : Read α).run.run r = (f r).run.run r := rfl

theorem run_readRecordsAfter_of_nil {zeros : Bool} {done : List Record} {n : ℕ} {r : Reader}
    (h : r.rest = []) : (readRecordsAfter decode zeros done n).run.run r =
      (.ok ⟨done.reverse, r.position⟩, r) := by
  cases n with
  | zero => rfl
  | succ n =>
    rw [readRecordsAfter, run_get_bind, if_pos (by rw [Reader.isEmpty, h]; rfl)]
    rfl

theorem run_readRecordsAfter_of_ne_nil {zeros : Bool} {done : List Record} {n : ℕ} {r : Reader}
    (h : r.rest ≠ []) : (readRecordsAfter decode zeros done (n + 1)).run.run r =
      (readRecord decode >>= fun x => match x with
        | some record => readRecordsAfter decode zeros (record :: done) n
        | none => if zeros then readRecordsAfter decode zeros done n
          else return ⟨done.reverse, r.position⟩).run.run r := by
  have hne : ¬ r.isEmpty = true := by rwa [Reader.isEmpty, List.isEmpty_iff]
  rw [readRecordsAfter, run_get_bind]
  exact congrArg (fun x : Read Block => x.run.run r) (if_neg hne)

namespace Chain

variable {zeros : Bool} {r r' : Reader} {l : List Record}

theorem run (zeros : Bool) (h : Chain decode r l r') : ∀ (done : List Record) (n : ℕ),
    r.remaining ≤ n →
    ∃ n', r'.remaining ≤ n' ∧ (readRecordsAfter decode zeros done n).run.run r =
      (readRecordsAfter decode zeros (l.reverse ++ done) n').run.run r' := by
  induction h with
  | nil r => exact fun _ _ hn => ⟨_, hn, rfl⟩
  | @cons r m r' x l hx _ ih =>
    intro done n hn
    obtain ⟨-, hpos, bytes, hl, hrest, -⟩ := spends_readRecord hx
    have hlen := congrArg List.length hrest
    rw [List.length_append] at hlen
    simp only [Reader.remaining] at hn ih ⊢
    obtain ⟨n, rfl⟩ : ∃ k, n = k + 1 := ⟨n - 1, by omega⟩
    obtain ⟨n', hn', hrun⟩ := ih (x :: done) n (by omega)
    refine ⟨n', hn', ?_⟩
    rw [List.reverse_cons, List.append_assoc, List.singleton_append, ← hrun,
      run_readRecordsAfter_of_ne_nil, hx.run_bind]
    exact List.ne_nil_of_length_pos (by omega)

theorem exists_run (zeros : Bool) (h : Chain decode r l r') : ∃ n, r'.remaining ≤ n ∧
    (readRecords decode zeros).run.run r =
      (readRecordsAfter decode zeros l.reverse n).run.run r' := by
  obtain ⟨n, hn, hrun⟩ := h.run zeros [] _ (le_refl r.remaining)
  rw [List.append_nil] at hrun
  exact ⟨n, hn, hrun⟩

theorem exists_run_of_ne_nil (zeros : Bool) (h : Chain decode r l r') (hr : r'.rest ≠ []) :
    ∃ n, (readRecords decode zeros).run.run r =
      (readRecord decode >>= fun x => match x with
        | some record => readRecordsAfter decode zeros (record :: l.reverse) n
        | none => if zeros then readRecordsAfter decode zeros l.reverse n
          else return ⟨l.reverse.reverse, r'.position⟩).run.run r' := by
  obtain ⟨n, hn, hrun⟩ := h.exists_run zeros
  have hpos := List.length_pos_iff.mpr hr
  rw [Reader.remaining] at hn
  obtain ⟨n, rfl⟩ : ∃ k, n = k + 1 := ⟨n - 1, by omega⟩
  exact ⟨n, hrun.trans (run_readRecordsAfter_of_ne_nil hr)⟩

theorem answer_of_nil (h : Chain decode r l r') (hr : r'.rest = []) :
    ((readRecords decode zeros).run.run r).1 = .ok ⟨l, r'.position⟩ := by
  obtain ⟨n, -, hrun⟩ := h.exists_run zeros
  rw [hrun, run_readRecordsAfter_of_nil hr, List.reverse_reverse]

theorem answer_of_fails (h : Chain decode r l r') (hr : r'.rest ≠ []) {e : DecodeError}
    (he : Fails (readRecord decode) r' e) :
    ((readRecords decode zeros).run.run r).1 = .error e := by
  obtain ⟨n, hrun⟩ := h.exists_run_of_ne_nil zeros hr
  rw [hrun]
  exact he.bind _

theorem answer_of_zero (h : Chain decode r l r') {rest : List UInt8} (hr : r'.rest = 0 :: rest) :
    ((readRecords decode false).run.run r).1 = .ok ⟨l, r'.position⟩ := by
  obtain ⟨n, hrun⟩ := h.exists_run_of_ne_nil false (hr ▸ nofun)
  rw [hrun, (gives_readRecord_none hr).run_bind, List.reverse_reverse]
  rfl

/-- A zero byte that is skipped belongs to the block. -/
theorem answer_of_last_zero (h : Chain decode r l r') (hr : r'.rest = [0]) :
    ((readRecords decode true).run.run r).1 = .ok ⟨l, r'.position + 1⟩ := by
  obtain ⟨n, hrun⟩ := h.exists_run_of_ne_nil true (hr ▸ nofun)
  have hend : (r'.past 1 []).rest = [] := rfl
  rw [hrun, (gives_readRecord_none hr).run_bind]
  simp only [if_true]
  rw [run_readRecordsAfter_of_nil hend, List.reverse_reverse]
  rfl

end Chain

/-- **A stream answers the records of its chain**, or the error in which the chain ends. -/
theorem Closes.answer {r r' : Reader} {l : List Record} {c : Except DecodeError ℕ}
    (hc : Closes decode r' c) (h : Chain decode r l r') :
    ((readRecords decode false).run.run r).1 = c.map (⟨l, ·⟩) := by
  cases hc with
  | finish hr => exact h.answer_of_nil hr
  | zero hr => exact h.answer_of_zero hr
  | error hr he => exact h.answer_of_fails hr he

theorem exists_chain_of_decodeActions {s : List UInt8} {b : Block} (h : decodeActions s = .ok b) :
    ∃ r', Chain (decoderBelow maxNesting) (.ofBytes s) b.records r' ∧
      b.byteLength = r'.position ∧ Closes (decoderBelow maxNesting) r' (.ok r'.position) := by
  obtain ⟨l, r', c, hl, hc⟩ := exists_chain (decoderBelow maxNesting) (.ofBytes s)
  have ha : decodeActions s = c.map (⟨l, ·⟩) := hc.answer hl
  rw [h] at ha
  cases hc with
  | finish hr =>
    cases ha
    exact ⟨r', hl, rfl, .finish hr⟩
  | zero hr =>
    cases ha
    exact ⟨r', hl, rfl, .zero hr⟩
  | error hr he => cases ha

end ActionVm
