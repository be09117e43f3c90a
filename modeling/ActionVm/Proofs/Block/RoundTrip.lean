import ActionVm.Proofs.Block.Chain
import ActionVm.Proofs.Block.Operands

/-!
# Decoding what was encoded

Decoding undoes encoding. Every step of a description comes back as one record, with what it was
given and at the place where its bytes were written.

* `Step.decoded`, `recordsFrom`: the records that steps stand for;
* `Step.nesting`, `Step.Encodable`: steps that fit the encoding;
* `Step.ReadsBack`: the bytes of a step are read as its record;
* **`decodeActions_encodeStream`**: an encoded stream decodes to its steps.
-/

namespace ActionVm

open Read

/-! ## Steps as records -/

mutual

/-- The action that a step stands for. Bytes that are given as such stand for no action in
particular. -/
def Step.decoded : Step → Action
  | .action (.op o) => .op o
  | .action code => .notImplemented code.byte 0
  | .record code _ => .notImplemented code 0
  | .raw _ => .notImplemented 0 0
  | .push values => .push values
  | .jump offset => .jump offset
  | .branchIf offset => .branchIf offset
  | .storeRegister register => .storeRegister register
  | .constantPool entries => .constantPool entries
  | .defineFunction name params body =>
    .defineFunction name params ⟨recordsFrom 0 body, (encode body).length⟩
  | .defineFunction2 name registerCount flags params body =>
    .defineFunction2 name registerCount flags (params.map paramOf)
      ⟨recordsFrom 0 body, (encode body).length⟩
  | .withObject body => .withObject ⟨recordsFrom 0 body, (encode body).length⟩

/-- One record for each step, at the places of their bytes from `start` on. -/
def recordsFrom (start : Nat) : List Step → List Record
  | [] => []
  | step :: rest =>
    ⟨start, (encodeStep step).length, step.decoded⟩ ::
      recordsFrom (start + (encodeStep step).length) rest

end

mutual

/-- How deep bodies nest in a step. -/
def Step.nesting : Step → Nat
  | .defineFunction _ _ body => nesting body + 1
  | .defineFunction2 _ _ _ _ body => nesting body + 1
  | .withObject body => nesting body + 1
  | _ => 0

/-- How deep bodies nest in any of the steps. -/
def nesting : List Step → Nat
  | [] => 0
  | step :: rest => max step.nesting (nesting rest)

end

mutual

/-- The step and those of its body say nothing that the encoding has no room for: codes without
operands only by themselves, no zero character in a string, operands and bodies of at most
`2 ^ 16 - 1` bytes. No step gives bytes as such. -/
def Step.Encodable : Step → Prop
  | .action code => code.byte < 0x80
  | .record _ _ => False
  | .raw _ => False
  | .push values =>
    (∀ s, .string s ∈ values → NulFree s) ∧ (pushOperands values).length < 0x10000
  | .jump _ => True
  | .branchIf _ => True
  | .storeRegister _ => True
  | .constantPool entries =>
    (∀ s ∈ entries, NulFree s) ∧ (poolOperands entries).length < 0x10000
  | .defineFunction name params body =>
    NulFree name ∧ (∀ s ∈ params, NulFree s) ∧
      (functionOperands name params (encode body).length).length < 0x10000 ∧
      (encode body).length < 0x10000 ∧ AllEncodable body
  | .defineFunction2 name registerCount flags params body =>
    NulFree name ∧ (∀ p ∈ params, NulFree p.2) ∧
      (function2Operands name registerCount flags params (encode body).length).length < 0x10000 ∧
      (encode body).length < 0x10000 ∧ AllEncodable body
  | .withObject body => (encode body).length < 0x10000 ∧ AllEncodable body

/-- Each of the steps is encodable. -/
def AllEncodable : List Step → Prop
  | [] => True
  | step :: rest => step.Encodable ∧ AllEncodable rest

end

/-! ## Records of each form -/

variable {decode : Option (Reader → Except DecodeError Block)} {payload : List UInt8}

theorem encodeForm_eq (f : Form) (payload : List UInt8) :
    encodeForm f payload = (Code.form f).byte :: (encodeCount payload.length ++ payload) := by
  rw [encodeForm, encodeRecord, if_pos (hasLength_form f)]

theorem readOperands_form (f : Form) (length : UInt16) :
    readOperands (Code.form f).byte length = readForm f := by
  rw [readOperands, Code.ofByte?_byte]

/-- The operands of the form `f` are read from exactly these bytes as `x`. -/
def Form.Tells (f : Form) (payload : List UInt8) (x : Operands) : Prop :=
  payload.length < 0x10000 ∧
    ∀ span : Reader, span.rest = payload → ∃ r', Gives (readForm f) span x r'

theorem Form.tells_of_takes {f : Form} {x : Operands} (hl : payload.length < 0x10000)
    (h : Takes (readForm f) payload x) : f.Tells payload x :=
  ⟨hl, fun span hr => ⟨_, h span [] (by rw [hr, List.append_nil])⟩⟩

/-- The length and the operands of a record are read before its body, if there is any. -/
theorem gives_readAction {f : Form} {x : Operands} (h : f.Tells payload x) {start : ℕ}
    {r r' : Reader} {rest : List UInt8} {a : Action}
    (hr : r.rest = encodeCount payload.length ++ payload ++ rest)
    (hx : Gives (readBody decode (Code.form f).byte start x)
      (r.past (encodeCount payload.length ++ payload).length rest) a r') :
    Gives (readAction decode (Code.form f).byte start) r a r' := by
  obtain ⟨hl, h⟩ := h
  have hlength := UInt16.toNat_ofNat_of_lt' hl
  rw [List.append_assoc] at hr
  simp only [readAction, gives_bind, gives_ofExcept, gives_readSpan]
  refine ⟨UInt16.ofNat payload.length, r.past 2 (payload ++ rest), ?_, _, _, ⟨?_, rfl, rfl⟩, x, _,
    ⟨?_, rfl⟩, ?_⟩
  · rw [readLength, if_pos (hasLength_form f)]
    exact takes_count r _ hr
  · rw [hlength]
    simp [Reader.past]
  · rw [operandsOf, readOperands_form]
    refine run_eq_ok_iff.mpr (h _ ?_)
    simp [Reader.sub, Reader.past, hlength]
  · rw [hlength]
    have : (r.past 2 (payload ++ rest)).skip payload.length =
        r.past (encodeCount payload.length ++ payload).length rest := by
      simp [Reader.skip, Reader.past, encodeCount, Word.le16]
      omega
    rw [this]
    exact hx

theorem takes_readAction_complete {f : Form} {a : Action} (h : f.Tells payload (.complete a))
    (start : ℕ) : Takes (readAction decode (Code.form f).byte start)
      (encodeCount payload.length ++ payload) a :=
  fun _ _ hr => gives_readAction h hr (gives_pure.mpr ⟨rfl, rfl⟩)

theorem takes_readAction_enclosing {f : Form} {action : Block → Action} {bytes : List UInt8}
    {decode : Reader → Except DecodeError Block} {b : Block}
    (h : f.Tells payload (.enclosing (UInt16.ofNat bytes.length) action))
    (hl : bytes.length < 0x10000) (hb : ∀ base, decode ⟨bytes, 0, base⟩ = .ok b) (start : ℕ) :
    Takes (readAction (some decode) (Code.form f).byte start)
      (encodeCount payload.length ++ payload ++ bytes) (action b) := by
  intro r rest hr
  rw [List.append_assoc] at hr
  refine gives_readAction h hr ?_
  have hlength := UInt16.toNat_ofNat_of_lt' hl
  simp only [readBody, gives_bind, gives_readSpan, gives_ofExcept, gives_pure, hlength]
  refine ⟨_, _, ⟨?_, rfl, rfl⟩, b, _, ⟨?_, rfl⟩, rfl, ?_⟩
  · simp [Reader.past]
  · have := hb (r.past (encodeCount payload.length ++ payload).length (bytes ++ rest)).place
    simpa [Reader.sub, Reader.past] using this
  · simp [Reader.skip, Reader.past, Nat.add_assoc]

theorem readOperands_code {code : Code} (h : Code.hasLength code.byte = false) :
    readOperands code.byte 0 = pure (.complete (Step.decoded (.action code))) := by
  rw [readOperands, Code.ofByte?_byte]
  rcases code with o | f | u
  · rfl
  · rw [hasLength_form] at h
    cases h
  · rfl

/-- A code without operands is all there is of its record. -/
theorem takes_readAction_code {code : Code} (h : code.byte < 0x80) (start : ℕ) :
    Takes (readAction decode code.byte start) [] (Step.decoded (.action code)) := by
  intro r rest hr
  have hl : Code.hasLength code.byte = false := decide_eq_false (UInt8.not_le.mpr h)
  simp only [readAction, gives_bind, gives_ofExcept, gives_readSpan]
  refine ⟨0, r, ?_, _, _, ⟨Nat.zero_le _, rfl, rfl⟩, .complete (Step.decoded (.action code)), _,
    ⟨?_, rfl⟩, ?_⟩
  · rw [readLength, hl]
    exact gives_pure.mpr ⟨rfl, rfl⟩
  · rw [operandsOf, readOperands_code hl]
    rfl
  · refine gives_pure.mpr ⟨rfl, ?_⟩
    simp [Reader.skip, Reader.past, ← (show r.rest = rest from hr)]

/-! ## Steps read back -/

/-- The bytes of the step are those of one record, whose action is read from them. -/
def Step.ReadsBack (decode : Option (Reader → Except DecodeError Block)) (step : Step) : Prop :=
  ∃ code bytes, encodeStep step = code :: bytes ∧ code ≠ 0 ∧
    ∀ start, Takes (readAction decode code start) bytes step.decoded

theorem gives_readRecord {step : Step} (h : step.ReadsBack decode) {r : Reader}
    {rest : List UInt8} (hr : r.rest = encodeStep step ++ rest) :
    Gives (readRecord decode) r (some ⟨r.position, (encodeStep step).length, step.decoded⟩)
      (r.past (encodeStep step).length rest) := by
  obtain ⟨code, bytes, he, hc, h⟩ := h
  rw [he] at hr ⊢
  have hread := h r.place (r.past 1 (bytes ++ rest)) rest rfl
  rw [Reader.past_past, Nat.add_comm, ← List.length_cons] at hread
  simp only [readRecord, gives_bind, gives_get]
  refine ⟨r, r, ⟨rfl, rfl⟩, code, _, takes_u8 code r _ hr, ?_⟩
  rw [if_neg hc]
  simp only [gives_bind, gives_get, gives_pure]
  refine ⟨_, _, hread, _, _, ⟨rfl, rfl⟩, ?_, rfl⟩
  simp [Reader.past]

/-- The steps come back one after another, each as a record. -/
theorem chain_encode {steps : List Step} (h : ∀ step ∈ steps, step.ReadsBack decode)
    {rest : List UInt8} : ∀ {r : Reader}, r.rest = encode steps ++ rest →
      Chain decode r (recordsFrom r.position steps) (r.past (encode steps).length rest) := by
  induction steps with
  | nil =>
    intro r hr
    have hend : r.past 0 rest = r := by rw [← show r.rest = rest from hr]; rfl
    exact (congrArg (Chain decode r []) hend).mpr (.nil r)
  | cons step steps ih =>
    intro r hr
    rw [encode, List.append_assoc] at hr
    have hsteps := ih (fun step hs => h step (List.mem_cons_of_mem _ hs))
      (r := r.past (encodeStep step).length (encode steps ++ rest)) rfl
    rw [Reader.past_past, ← List.length_append] at hsteps
    exact .cons (gives_readRecord (h step List.mem_cons_self) hr) hsteps

/-- What may follow the records of a span: nothing, or a zero byte that is not skipped. -/
def Stops (zeros : Bool) (rest : List UInt8) : Prop :=
  rest = [] ∨ zeros = false ∧ ∃ t, rest = 0 :: t

theorem gives_readRecords {zeros : Bool} {rest : List UInt8} (hrest : Stops zeros rest)
    {steps : List Step} (h : ∀ step ∈ steps, step.ReadsBack decode) {r : Reader}
    (hr : r.rest = encode steps ++ rest) :
    ∃ r', Gives (readRecords decode zeros) r
      ⟨recordsFrom r.position steps, r.position + (encode steps).length⟩ r' := by
  have hsteps := chain_encode h hr
  refine run_eq_ok_iff.mp ?_
  rcases hrest with hnil | ⟨rfl, t, hzero⟩
  · exact hsteps.answer_of_nil hnil
  · exact hsteps.answer_of_zero hzero

theorem bodyDecoder_encode {depth : ℕ} {steps : List Step}
    (h : ∀ step ∈ steps, step.ReadsBack (decoderBelow depth)) (base : ℕ) :
    bodyDecoder depth ⟨encode steps, 0, base⟩ =
      .ok ⟨recordsFrom 0 steps, (encode steps).length⟩ := by
  have hrest : Stops true [] := Or.inl rfl
  have := gives_readRecords hrest h (r := ⟨encode steps, 0, base⟩) (List.append_nil _).symm
  rw [bodyDecoder_eq]
  simpa using run_eq_ok_iff.mpr this

theorem Code.byte_ne_zero (c : Code) : c.byte ≠ 0 := by
  rcases c with o | f | u
  · cases o <;> decide
  · cases f <;> decide
  · cases u <;> decide

theorem readsBack_of_complete {f : Form} {step : Step} (he : encodeStep step = encodeForm f payload)
    (h : f.Tells payload (.complete step.decoded)) : step.ReadsBack decode := by
  exact ⟨_, _, he.trans (encodeForm_eq f payload), Code.byte_ne_zero _,
    takes_readAction_complete h⟩

/-- The body of a step is read back one body deeper. -/
theorem readsBack_of_body {f : Form} {step : Step} {action : Block → Action} {body : List Step}
    {depth : ℕ} (he : encodeStep step = encodeForm f payload ++ encode body)
    (h : f.Tells payload (.enclosing (UInt16.ofNat (encode body).length) action))
    (hl : (encode body).length < 0x10000)
    (ha : step.decoded = action ⟨recordsFrom 0 body, (encode body).length⟩)
    (hd : nesting body + 1 ≤ depth)
    (hb : ∀ d, nesting body ≤ d → ∀ step ∈ body, step.ReadsBack (decoderBelow d)) :
    step.ReadsBack (decoderBelow depth) := by
  obtain ⟨d, rfl⟩ := Nat.exists_eq_add_of_le hd
  rw [Nat.add_right_comm]
  have hbody := bodyDecoder_encode (hb _ (Nat.le_add_right (nesting body) d))
  rw [encodeForm_eq, List.cons_append] at he
  exact ⟨_, _, he, Code.byte_ne_zero _,
    fun start => ha ▸ takes_readAction_enclosing h hl hbody start⟩

mutual

/-- A step comes back wherever its bodies may nest as deep as they do. -/
theorem Step.Encodable.readsBack {depth : ℕ} : ∀ {step : Step}, step.Encodable →
    step.nesting ≤ depth → step.ReadsBack (decoderBelow depth)
  | .action code, h, _ => ⟨code.byte, [], rfl, code.byte_ne_zero, takes_readAction_code h⟩
  | .record .., h, _ => h.elim
  | .raw _, h, _ => h.elim
  | .push _, ⟨hs, hl⟩, _ => by
    refine readsBack_of_complete (f := .push) rfl ⟨hl, fun span hr => ?_⟩
    obtain ⟨r', h⟩ := gives_readPushValues hs hr
    exact ⟨r', gives_bind.mpr ⟨_, _, h, gives_pure.mpr ⟨rfl, rfl⟩⟩⟩
  | .jump offset, _, _ =>
    readsBack_of_complete (f := .jump) rfl
      (Form.tells_of_takes (by simp [Word.le16]) ((takes_i16 offset).map _))
  | .branchIf offset, _, _ =>
    readsBack_of_complete (f := .branchIf) rfl
      (Form.tells_of_takes (by simp [Word.le16]) ((takes_i16 offset).map _))
  | .storeRegister register, _, _ =>
    readsBack_of_complete (f := .storeRegister) rfl
      (Form.tells_of_takes (by simp) ((takes_u8 register).map _))
  | .constantPool _, ⟨hs, hl⟩, _ =>
    readsBack_of_complete (f := .constantPool) rfl (Form.tells_of_takes hl (takes_pool hs hl))
  | .defineFunction _ _ body, ⟨hn, hp, hl, hb, h⟩, hd =>
    readsBack_of_body rfl (Form.tells_of_takes hl (takes_function hn hp hl)) hb rfl hd
      fun _ hd => AllEncodable.readBack h hd
  | .defineFunction2 _ _ _ _ body, ⟨hn, hp, hl, hb, h⟩, hd =>
    readsBack_of_body rfl (Form.tells_of_takes hl (takes_function2 hn hp hl)) hb rfl hd
      fun _ hd => AllEncodable.readBack h hd
  | .withObject body, ⟨hb, h⟩, hd =>
    readsBack_of_body (f := .withObject) rfl
      (Form.tells_of_takes (by simp [encodeCount, Word.le16]) (takes_count.map _)) hb rfl hd
      fun _ hd => AllEncodable.readBack h hd

theorem AllEncodable.readBack {depth : ℕ} : ∀ {steps : List Step}, AllEncodable steps →
    nesting steps ≤ depth → ∀ step ∈ steps, step.ReadsBack (decoderBelow depth)
  | [], _, _ => nofun
  | step :: steps, ⟨h, hs⟩, hd => by
    rw [nesting] at hd
    rintro _ (_ | ⟨_, hm⟩)
    · exact h.readsBack (by omega)
    · exact AllEncodable.readBack hs (by omega) _ hm

end

/-- **Decoding undoes encoding.** A stream of steps that fit the encoding decodes to one record for
each step. -/
theorem decodeActions_encodeStream {steps : List Step} (h : AllEncodable steps)
    (hd : nesting steps ≤ maxNesting) :
    decodeActions (encodeStream steps) = .ok ⟨recordsFrom 0 steps, (encode steps).length⟩ := by
  have hrest : Stops false [0] := Or.inr ⟨rfl, [], rfl⟩
  have := gives_readRecords hrest (h.readBack hd) (r := .ofBytes (encodeStream steps)) rfl
  exact (run_eq_ok_iff.mpr this).trans (by simp [Reader.ofBytes])

/-- A function with a parameter in a register, in a body. -/
theorem decodeActions_encodeStream_nested :
    AllEncodable [.withObject [.push [.string "a", .double 1, .constant 256],
      .defineFunction2 "f" 2 ⟨4⟩ [(1, "x"), (0, "y")] [.storeRegister 1, .jump (-5)]],
      .action (.unsupported .randomNumber)] ∧
    decodeActions (encodeStream
      [.withObject [.push [.string "a", .double 1, .constant 256],
        .defineFunction2 "f" 2 ⟨4⟩ [(1, "x"), (0, "y")] [.storeRegister 1, .jump (-5)]],
      .action (.unsupported .randomNumber)]) =
      .ok ⟨[⟨0, 50, .withObject
          ⟨[⟨0, 18, .push [.string "a", .double 1, .constant 256]⟩,
            ⟨18, 27, .defineFunction2 "f" 2 ⟨4⟩ [⟨some 1, "x"⟩, ⟨none, "y"⟩]
              ⟨[⟨0, 4, .storeRegister 1⟩, ⟨4, 5, .jump (-5)⟩], 9⟩⟩], 45⟩⟩,
        ⟨50, 1, .notImplemented 0x30 0⟩], 51⟩ := by
  have hs : AllEncodable [.withObject [.push [.string "a", .double 1, .constant 256],
      .defineFunction2 "f" 2 ⟨4⟩ [(1, "x"), (0, "y")] [.storeRegister 1, .jump (-5)]],
      .action (.unsupported .randomNumber)] := by
    refine ⟨⟨by decide, ⟨?_, by decide⟩, ⟨?_, ?_, by decide, by decide, trivial, trivial, trivial⟩,
      trivial⟩, (by decide : (Code.unsupported .randomNumber).byte < 0x80), trivial⟩
    all_goals simp [NulFree]
  exact ⟨hs, decodeActions_encodeStream hs (by decide)⟩

end ActionVm
