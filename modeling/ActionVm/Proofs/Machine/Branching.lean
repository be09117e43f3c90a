import ActionVm.Proofs.Block.Landing
import ActionVm.Proofs.Machine.Loops

/-!
# Branches in runs

Where a loop goes on after each of its records.

* `Machine.Until`: what holds until something else does, in a run;
* `Machine.InLoop`, `Machine.Within`, `Machine.GivenUp`: a loop in control, a loop inside which
  something goes on, and a loop that is given up;
* `BlockOf.Resolves`, `Machine.Lands`: where a branch leads, and where the loop that takes it goes;
* **`loop_of_decoded`**: branches land on their targets, and all else goes to the next record.
-/

namespace ActionVm

namespace Machine

variable {e : Embedding} {m : Machine}

/-! ## Until -/

/-- In the run from `m` on, `P` holds until `Q` does, and for ever if `Q` never does. -/
def Until (e : Embedding) (P Q : Machine → Prop) (m : Machine) : Prop :=
  ∀ n, (∀ k ≤ n, P (m.run e k)) ∨ ∃ k ≤ n, (∀ j < k, P (m.run e j)) ∧ Q (m.run e k)

theorem until_of_step {P Q : Machine → Prop}
    (hstep : ∀ {m : Machine}, m.Sound → P m → P (m.step e) ∨ Q (m.step e)) (hm : m.Sound)
    (h : P m ∨ Q m) : Until e P Q m := by
  intro n
  rcases h with h | h
  · induction n with
    | zero =>
      left
      intro k hk
      obtain rfl := Nat.le_zero.mp hk
      exact h
    | succ n ih =>
      rcases ih with hall | ⟨k, hk, hbefore, hq⟩
      · rcases hstep (hm.run n) (hall n le_rfl) with hp | hq
        · left
          intro k hk
          rcases Nat.le_succ_iff.mp hk with hk | rfl
          · exact hall k hk
          · rwa [run_step]
        · rw [← run_step] at hq
          exact Or.inr ⟨n + 1, le_rfl, fun j hj => hall j (Nat.lt_succ_iff.mp hj), hq⟩
      · exact Or.inr ⟨k, Nat.le_succ_of_le hk, hbefore, hq⟩
  · exact Or.inr ⟨0, Nat.zero_le n, nofun, h⟩

/-! ## Loops -/

/-- The loop over the block `b` is in control, with the record of index `i` at hand, inside the
loops `outer`. -/
def InLoop (m : Machine) (b : Block) (i : ℕ) (outer : List Cursor) : Prop :=
  m.control.isGo = true ∧ m.cursors = ⟨b, b.records.drop i⟩ :: outer

/-- Something goes on inside the loop that stands at `c`, inside the loops `outer`. -/
def Within (m : Machine) (c : Cursor) (outer : List Cursor) : Prop :=
  ∃ inner, m.cursors = inner ++ c :: outer ∧ (inner = [] → m.control.isGo = false)

/-- A return or an error has ended the invocation of a loop inside the loops `outer`. -/
def GivenUp (m : Machine) (outer : List Cursor) : Prop :=
  ∃ context ending, m.control = .ended context ending ∧ ending ≠ .completed ∧ m.cursors <:+ outer

/-- No branch is taken by the record at hand. -/
def Quiet (m : Machine) : Prop :=
  ∀ i record, m.control = .go i → i.record? = some record →
    record.action.taken? i.context = none

variable {c : Cursor} {outer : List Cursor}

/-- A loop stands still while something goes on inside it, and then goes to its next record, unless
it is given up. -/
theorem Move.within {m' : Machine} (h : Move m m') (hc : c.rest ≠ []) (inner : List Cursor)
    (hcur : m.cursors = inner ++ c :: outer) (hquiet : inner = [] → m.Quiet) :
    m'.Within c outer ∨ (m'.control.isGo = true ∧ m'.cursors = c.next :: outer) ∨
      m'.GivenUp outer := by
  cases h with
  | wait hsame hgo => exact Or.inl ⟨inner, hsame.trans hcur, fun _ => hgo⟩
  | start b hb => exact Or.inl ⟨.start b :: inner, hb.trans (congrArg _ hcur), nofun⟩
  | advance hold hadv hgo hnew =>
    rw [hcur] at hold
    rcases inner with _ | ⟨x, inner⟩
    · obtain ⟨rfl, rfl⟩ := List.cons.inj hold
      right; left
      refine ⟨hgo, ?_⟩
      rcases hadv with hadv | ⟨i, record, offset, hi, hr, ht, -⟩
      · rw [Cursor.advance_none] at hadv
        cases hadv
        exact hnew
      · rw [hquiet rfl i record hi hr] at ht
        cases ht
    · obtain ⟨rfl, rfl⟩ := List.cons.inj hold
      exact Or.inl ⟨_ :: inner, hnew, nofun⟩
  | leave hold hend hgo hnew =>
    rw [hcur] at hold
    rcases inner with _ | ⟨x, _ | ⟨y, inner⟩⟩
    · obtain ⟨rfl, -⟩ := List.cons.inj hold
      exact absurd hend hc
    · obtain ⟨-, hold⟩ := List.cons.inj hold
      obtain ⟨rfl, rfl⟩ := List.cons.inj hold
      exact Or.inr (Or.inl ⟨hgo, hnew⟩)
    · obtain ⟨-, hold⟩ := List.cons.inj hold
      obtain ⟨rfl, rfl⟩ := List.cons.inj hold
      exact Or.inl ⟨_ :: inner, hnew, nofun⟩
  | complete hold hend hgo =>
    rw [hcur] at hold
    rcases inner with _ | ⟨x, inner⟩
    · obtain ⟨rfl, -⟩ := List.cons.inj hold
      exact absurd hend hc
    · obtain ⟨-, hold⟩ := List.cons.inj hold
      exact Or.inl ⟨inner, hold.symm, fun _ => hgo⟩
  | abort hended hne hsuffix =>
    -- either the loop itself is given up, or only what goes on inside it
    rw [hcur] at hsuffix
    have hsuffixes := List.suffix_or_suffix_of_suffix hsuffix (List.suffix_append inner _)
    rcases hsuffixes with hs | ⟨inner', hinner⟩
    · rcases List.suffix_cons_iff.mp hs with heq | hs
      · exact Or.inl ⟨[], heq, fun _ => by rw [hended]; rfl⟩
      · exact Or.inr (Or.inr ⟨_, _, hended, hne, hs⟩)
    · exact Or.inl ⟨inner', hinner.symm, fun _ => by rw [hended]; rfl⟩

/-- What goes on inside a loop stays inside until the loop goes on or is given up. -/
theorem until_within (hm : m.Sound) (hc : c.rest ≠ [])
    (h : m.Within c outer ∨ (m.control.isGo = true ∧ m.cursors = c.next :: outer) ∨
      m.GivenUp outer) :
    Until e (·.Within c outer) (fun m => (m.control.isGo = true ∧ m.cursors = c.next :: outer) ∨
      m.GivenUp outer) m := by
  refine until_of_step (fun hm hw => ?_) hm h
  obtain ⟨inner, hcur, hgo⟩ := hw
  refine hm.move.1.within hc inner hcur fun hi j record hj hr => ?_
  have := hgo hi
  rw [hj] at this
  cases this

/-! ## One record -/

theorem step_of_end {i : Invocation} (hgo : m.control = .go i) (hi : i.cursors = c :: outer)
    (hc : c.rest = []) : i.record? = none ∧ m.step e = ⟨i.leave, m.frames, m.state⟩ := by
  have hr : i.record? = none := by
    rw [Invocation.record?_eq, hi, List.head?_cons, Option.bind_some, hc]
    rfl
  refine ⟨hr, ?_⟩
  obtain ⟨control, frames, s⟩ := m
  cases hgo
  simp only [step, hr]

theorem step_of_taken {i : Invocation} (hi : i.Sound) {record : Record} {offset : Int16}
    (hr : i.record? = some record) (ho : record.action.taken? i.context = some offset)
    (frames : List Frame) (s : State) :
    ∃ (j : Invocation) (s' : State), step e ⟨.go i, frames, s⟩ = ⟨j.proceed, frames, s'⟩ ∧
      j.cursors = i.cursors ∧ j.block? = i.block? ∧ j.context.pendingJump = some offset := by
  obtain ⟨result, context, s', hperform, hjump, htaken, -⟩ :=
    perform_spec (e := e) hi.pending record.action frames s
  refine ⟨⟨context, i.bodies, i.main⟩, s', ?_, rfl, rfl, hjump.trans ho⟩
  simp only [step, hr]
  rw [hperform, htaken offset ho]
  rfl

end Machine

/-! ## Where branches lead -/

/-- A branch by `offset` from the record of index `i` leads to `target`. -/
structure BlockOf.Resolves (b : Block) (i : ℕ) (offset : Int16) (target : ℤ) : Prop where
  record : ∀ j, b.branch i offset = .record j ↔ b.StartsAt j target
  finish : b.branch i offset = .finish ↔ (b.byteLength : ℤ) ≤ target
  invalid : ∀ t, b.branch i offset = .invalid t ↔
    t = target ∧ target < b.byteLength ∧ ∀ j, ¬ b.StartsAt j target

theorem Decoded.resolves {s : List UInt8} {b : Block} (h : Decoded s b) {i : ℕ} {r : Record}
    (hi : b.records[i]? = some r) (offset : Int16) :
    b.Resolves i offset (r.finish + offset.toInt) := by
  have hb : b.branch i offset = b.landing (r.finish + offset.toInt) := by
    rw [BlockOf.branch, hi]
  refine ⟨fun j => ?_, ?_, fun t => ?_⟩
  · rw [hb, h.landing_eq_record_iff]
  · rw [hb, BlockOf.landing_eq_finish_iff]
  · rw [hb, h.landing_eq_invalid_iff]

namespace Machine

/-- The loop over the block `b` has taken a branch to `target`: it is at the one record that starts
there, or at the end of the block and then over, or the branch has failed. -/
inductive Lands (e : Embedding) (b : Block) (target : ℤ) (outer : List Cursor) (m : Machine) :
    Prop where
  | record (j : ℕ) : b.StartsAt j target → (∀ k, b.StartsAt k target → k = j) →
    m.InLoop b j outer → Lands e b target outer m
  | finish : (b.byteLength : ℤ) ≤ target → m.InLoop b b.records.length outer →
    (m.step e).cursors.length ≤ outer.length → Lands e b target outer m
  | invalid {context : Context} : target < b.byteLength → (∀ j, ¬ b.StartsAt j target) →
    m.control = .ended context (.failed (.invalidJump target)) → m.cursors <:+ outer →
    Lands e b target outer m

variable {e : Embedding} {m : Machine} {b : Block} {c : Cursor} {outer : List Cursor}

/-- A loop in control belongs to the invocation that goes on. -/
theorem Sound.cursors_eq (hm : m.Sound) {i : Invocation} (hgo : m.control = .go i)
    (hcur : m.cursors = c :: outer) : ∃ inner, i.cursors = c :: inner ∧
      outer = inner ++ m.frames.flatMap Frame.cursors := by
  have hc := hm.control
  rw [hgo] at hc
  obtain ⟨x, inner, hi⟩ := List.exists_cons_of_ne_nil hc.2
  rw [cursors, hgo, Control.cursors, hi] at hcur
  obtain ⟨rfl, rfl⟩ := List.cons.inj hcur
  exact ⟨inner, hi, rfl⟩

theorem Sound.sound_of_go (hm : m.Sound) {i : Invocation} (hgo : m.control = .go i) : i.Sound := by
  have hc := hm.control
  rw [hgo] at hc
  exact hc.1

/-- A loop at the end of its block is left. -/
theorem Sound.left_of_end (hm : m.Sound) {i : Invocation} (hgo : m.control = .go i)
    (hcur : m.cursors = c :: outer) (hc : c.rest = []) :
    (m.step e).cursors.length ≤ outer.length := by
  obtain ⟨inner, hi, rfl⟩ := hm.cursors_eq hgo hcur
  rw [(step_of_end hgo hi hc).2]
  rcases inner with _ | ⟨d, inner⟩
  · obtain ⟨context, hl⟩ := Invocation.leave_of_last hi
    rw [hl]
    exact le_rfl
  · obtain ⟨j, hl, hj, -⟩ := Invocation.leave_of_body hi (hm.sound_of_go hgo).pending
    rw [hl, cursors, Control.cursors, hj]
    exact le_rfl

/-- What follows a branch of an invocation, in which `c` is at hand inside `outer`: the record that
starts at the target is at hand, or none at the end of the block, or the branch has failed. -/
inductive Branched (i : Invocation) (c : Cursor) (outer : List Cursor) (target : ℤ) :
    Control → Prop where
  | record {j : Invocation} {k : ℕ} : c.block.StartsAt k target →
    j.cursors = ⟨c.block, c.block.records.drop k⟩ :: outer → j.block? = i.block? →
    Branched i c outer target (.go j)
  | finish {j : Invocation} : (c.block.byteLength : ℤ) ≤ target →
    j.cursors = ⟨c.block, []⟩ :: outer → j.block? = i.block? → Branched i c outer target (.go j)
  | invalid {context : Context} : target < c.block.byteLength →
    (∀ k, ¬ c.block.StartsAt k target) →
    Branched i c outer target (.ended context (.failed (.invalidJump target)))

theorem Sound.branched {s : List UInt8} (h : Decoded s c.block) (hm : m.Sound) {i : Invocation}
    (hgo : m.control = .go i) (hi : i.cursors = c :: outer) {record : Record} {offset : Int16}
    (hr : i.record? = some record) (ho : record.action.taken? i.context = some offset) :
    Branched i c outer (record.finish + offset.toInt) (m.step e).control ∧
      (m.step e).frames = m.frames := by
  obtain ⟨j, s', hstep, hj, hb, hp⟩ := step_of_taken (e := e) (hm.sound_of_go hgo) hr ho m.frames
    m.state
  rw [← hgo] at hstep
  obtain ⟨rest, hrest⟩ : ∃ rest, c.rest = record :: rest := by
    rwa [Invocation.record?_eq, hi, List.head?_cons, Option.bind_some,
      List.head?_eq_some_iff] at hr
  have hadv := Cursor.advance_some hrest offset
  rw [← hp] at hadv
  rw [hi] at hj
  rw [show m.step e = _ from hstep]
  refine ⟨?_, rfl⟩
  rcases hl : c.block.landing (record.finish + offset.toInt) with k | _ | t
  · rw [hl] at hadv
    obtain ⟨i', hi', hcur', hb', -⟩ := Invocation.proceed_of_ok hj hadv
    rw [hi']
    exact .record (h.landing_eq_record_iff.mp hl) hcur' (hb'.trans hb)
  · rw [hl] at hadv
    obtain ⟨i', hi', hcur', hb', -⟩ := Invocation.proceed_of_ok hj hadv
    rw [hi']
    exact .finish (BlockOf.landing_eq_finish_iff.mp hl) hcur' (hb'.trans hb)
  · rw [hl] at hadv
    obtain ⟨rfl, hlt, hno⟩ := h.landing_eq_invalid_iff.mp hl
    obtain ⟨context, hi'⟩ := Invocation.proceed_of_error hj hadv
    rw [hi']
    exact .invalid hlt hno

/-- **A branch that is taken lands on its target.** -/
theorem Sound.lands {s : List UInt8} (h : Decoded s c.block) (hm : m.Sound) {i : Invocation}
    (hgo : m.control = .go i) (hcur : m.cursors = c :: outer) {record : Record} {offset : Int16}
    (hr : i.record? = some record) (ho : record.action.taken? i.context = some offset) :
    Lands e c.block (record.finish + offset.toInt) outer (m.step e) := by
  obtain ⟨inner, hi, rfl⟩ := hm.cursors_eq hgo hcur
  obtain ⟨hbranched, hframes⟩ := Sound.branched (e := e) h hm hgo hi hr ho
  have hsound : (m.step e).Sound := hm.move.2
  generalize m.step e = m' at hbranched hframes hsound
  obtain ⟨control, frames, s'⟩ := m'
  obtain rfl : frames = m.frames := hframes
  cases hbranched with
  | record hk hcur' =>
    exact .record _ hk (fun _ => h.startsAt_unique hk) ⟨rfl, congrArg (· ++ _) hcur'⟩
  | @finish j hle hcur' =>
    have hend : cursors ⟨.go j, m.frames, s'⟩ =
        ⟨c.block, []⟩ :: (inner ++ m.frames.flatMap Frame.cursors) := congrArg (· ++ _) hcur'
    refine .finish hle ⟨rfl, ?_⟩ (hsound.left_of_end rfl hend rfl)
    rw [hend, List.drop_length]
  | invalid hlt hno => exact .invalid hlt hno rfl (List.suffix_append _ _)

/-- **Any other record** is followed by the next one, once what it starts is over. -/
theorem Sound.goesOn (hm : m.Sound) {i : Invocation} (hgo : m.control = .go i)
    (hcur : m.cursors = c :: outer) {record : Record} (hr : i.record? = some record)
    (ho : record.action.taken? i.context = none) :
    (m.step e).Until e (·.Within c outer) fun m =>
      (m.control.isGo = true ∧ m.cursors = c.next :: outer) ∨ m.GivenUp outer := by
  obtain ⟨inner, hi, -⟩ := hm.cursors_eq hgo hcur
  have hc : c.rest ≠ [] := by
    rw [Invocation.record?_eq, hi, List.head?_cons, Option.bind_some] at hr
    rintro hnil
    rw [hnil] at hr
    cases hr
  have hmove : m.Move (m.step e) := hm.move.1
  refine until_within hm.move.2 hc (hmove.within hc [] hcur fun _ j x hj hx => ?_)
  rw [hgo] at hj
  cases hj
  rw [hr] at hx
  cases hx
  exact ho

end Machine

/-! ## Loops over decoded blocks -/

/-- **Branches and loops over a decoded block.** A branch leads to the record that starts at its
target, to the end if there is no byte of the block at its target or after it, and else nowhere. In
every run, a loop over the block stands at one of its records or at its end, where it is left. After
a branch that is taken it lands on the target. After any other record it goes on to the next one,
once what the record starts is over, unless a return or an error ends its invocation. -/
theorem loop_of_decoded {s : List UInt8} {b : Block} (h : Decoded s b) :
    (∀ i r offset, b.records[i]? = some r → b.Resolves i offset (r.finish + offset.toInt)) ∧
    ∀ e m inv rest outer, Reached e m → m.control = .go inv → m.cursors = ⟨b, rest⟩ :: outer →
      ∃ i, rest = b.records.drop i ∧
        (b.records[i]? = none → (m.step e).cursors.length ≤ outer.length) ∧
        ∀ r, b.records[i]? = some r →
          (∀ offset, r.action.taken? inv.context = some offset →
            Machine.Lands e b (r.finish + offset.toInt) outer (m.step e)) ∧
          (r.action.taken? inv.context = none →
            (m.step e).Until e (·.Within ⟨b, rest⟩ outer)
              fun m => m.InLoop b (i + 1) outer ∨ m.GivenUp outer) := by
  refine ⟨fun i r offset hi => h.resolves hi offset, ?_⟩
  intro e m inv rest outer hm hgo hcur
  have hs := hm.sound
  obtain ⟨inner, hinv, -⟩ := hs.cursors_eq hgo hcur
  have hnested := (hs.sound_of_go hgo).nested
  rw [hinv] at hnested
  obtain ⟨i, hi⟩ := hnested.onBlock _ List.mem_cons_self
  have hi : rest = b.records.drop i := hi
  have hrecord : inv.record? = b.records[i]? := by
    rw [Invocation.record?_eq, hinv, List.head?_cons, Option.bind_some, hi, List.head?_drop]
  refine ⟨i, hi, fun hnone => ?_, fun r hr => ⟨fun offset ho => ?_, fun ho => ?_⟩⟩
  · refine hs.left_of_end hgo hcur ?_
    rw [hi]
    exact List.drop_eq_nil_of_le (List.getElem?_eq_none_iff.mp hnone)
  · exact hs.lands h hgo hcur (hrecord.trans hr) ho
  · have hnext : (⟨b, rest⟩ : Cursor).next = ⟨b, b.records.drop (i + 1)⟩ := by
      rw [Cursor.next, hi, List.tail_drop]
    have := hs.goesOn hgo hcur (hrecord.trans hr) ho (e := e)
    rw [hnext] at this
    exact this

/-- A jump over a record, in a block of its own. -/
theorem loop_of_jump :
    let b : Block := ⟨[⟨0, 5, .jump 1⟩, ⟨5, 1, .op .play⟩, ⟨6, 1, .op .stop⟩], 7⟩
    let m := Machine.start (.start default) (topContext (State.start default).worker) b
    decodeActions [0x99, 2, 0, 1, 0, 6, 7, 0] = .ok b ∧
      b.branch 0 1 = .record 2 ∧ (m.step .none).InLoop b 2 [] := by
  intro b m
  have hb : decodeActions [0x99, 2, 0, 1, 0, 6, 7, 0] = .ok b := rfl
  obtain ⟨hresolves, hloop⟩ := loop_of_decoded (decoded_of_decodeActions hb)
  have h₂ : b.StartsAt 2 6 := ⟨_, rfl, rfl⟩
  refine ⟨hb, ((hresolves 0 _ 1 rfl).record 2).mpr h₂, ?_⟩
  obtain ⟨i, hi, -, hrecord⟩ := hloop .none m _ b.records [] (.start _ b rfl) rfl rfl
  obtain rfl : i = 0 := by
    have hlen := congrArg List.length hi
    rw [List.length_drop] at hlen
    have : b.records.length = 3 := rfl
    omega
  cases (hrecord _ rfl).1 1 rfl with
  | record j _ hunique hat =>
    obtain rfl := hunique 2 h₂
    exact hat
  | finish hle => exact absurd hle (by decide)
  | invalid _ hno => exact absurd h₂ (hno 2)

end ActionVm
