import ActionVm.Proofs.Machine.Branching
import ActionVm.Proofs.Text.Utf8

/-!
# Branches in streams

A body is a part of the stream around it. A branch in a body counts from the end of its record in
the stream, but it leads no further than the body.

* `streamStart`, `Invocation.place?`: the place in the stream of what is at hand;
* `Nested.byte`: what is at hand has its code there;
* `resumed`: where the stream goes on after the end of a body;
* **`Machine.Sound.resumes`**: from the end of a body the stream goes on there;
* **`branch_in_stream`**: where the stream goes on after a branch.
-/

namespace ActionVm

/-! ## Places in streams -/

/-- Where the innermost of the blocks in progress starts in the bytes of the outermost. A body takes
the last bytes of the record that is at hand around it. -/
def streamStart : List Cursor → ℕ
  | c :: d :: outer =>
    streamStart (d :: outer) +
      ((d.rest.head?.map Placed.finish).getD 0 - c.block.byteLength)
  | [_] => 0
  | [] => 0

theorem streamStart_congr {c c' : Cursor} (h : c'.block = c.block) (outer : List Cursor) :
    streamStart (c' :: outer) = streamStart (c :: outer) := by
  cases outer with
  | nil => rfl
  | cons d outer => rw [streamStart, streamStart, h]

/-- The place in the stream of the record at hand. -/
def Invocation.place? (i : Invocation) : Option ℕ :=
  i.record?.map fun record => streamStart i.cursors + record.offset

variable {s : List UInt8} {b : Block}

theorem Decoded.length_bodyAt (h : Decoded s b) {x : Record} (hx : x ∈ b.records) {d : Block}
    (hd : x.action.body? = some d) : (bodyAt s x.offset).length = d.byteLength ∧
      x.finish = x.offset + headSize s x.offset + d.byteLength := by
  obtain ⟨depth, zeros, i, hs⟩ := h.sequence
  obtain ⟨_, -, hbody⟩ := (hs.record x hx).sequence hd
  have hlen := hbody.fillsIn.byteLength
  have hstands := h.stands x hx
  refine ⟨hlen.symm, ?_⟩
  rw [hlen, hstands.length_bodyAt, Placed.finish, hstands.size, Nat.add_assoc]

theorem getElem?_bodyAt {i k : ℕ} (hk : k < (bodyAt s i).length) :
    (bodyAt s i)[k]? = s[i + headSize s i + k]? := by
  rw [bodyAt, List.length_take] at hk
  rw [bodyAt, List.getElem?_take_of_lt (by omega), List.getElem?_drop]

namespace Nested

variable {c c₀ : Cursor} {l : List Cursor}

theorem body_mem {d : Cursor} (h : Nested (c :: d :: l)) : ∃ x ∈ d.block.records,
    x.action.body? = some c.block ∧ d.rest.head? = some x := by
  obtain ⟨x, rest, hrest, hx⟩ := (List.isChain_cons_cons.mp h.chain).1
  obtain ⟨k, hk⟩ := h.onBlock d (by simp)
  refine ⟨x, ?_, by rw [hx]; rfl, by rw [hrest]; rfl⟩
  rw [hrest] at hk
  exact List.mem_of_mem_drop (hk ▸ List.mem_cons_self)

/-- The innermost block is decoded from bytes that the stream has where it starts. -/
theorem exists_bytes (hs : Decoded s c₀.block) : ∀ {l : List Cursor} {c : Cursor},
    Nested (c :: l) → (c :: l).getLast? = some c₀ →
    ∃ t, Decoded t c.block ∧ ∀ k < t.length, s[streamStart (c :: l) + k]? = t[k]?
  | [], c, _, hl => by
    cases hl
    exact ⟨s, hs, fun k _ => by rw [streamStart, Nat.zero_add]⟩
  | d :: l, c, h, hl => by
    obtain ⟨t, ht, hbytes⟩ := exists_bytes hs h.tail (by simpa using hl)
    obtain ⟨x, hx, hbody, hhead⟩ := h.body_mem
    obtain ⟨hlen, hfinish⟩ := ht.length_bodyAt hx hbody
    refine ⟨bodyAt t x.offset, ht.inside hx hbody, fun k hk => ?_⟩
    have hin := (ht.stands x hx).finish_le
    have hstart : streamStart (c :: d :: l) + k =
        streamStart (d :: l) + (x.offset + headSize t x.offset + k) := by
      rw [streamStart, hhead, Option.map_some, Option.getD_some, hfinish]
      omega
    rw [getElem?_bodyAt hk, hstart, hbytes _ (by omega)]

/-- **A record stands in the stream** at its place in the innermost block. -/
theorem byte (h : Nested (c :: l)) (hl : (c :: l).getLast? = some c₀) (hs : Decoded s c₀.block)
    {x : Record} (hx : x ∈ c.block.records) :
    s[streamStart (c :: l) + x.offset]? = some x.action.code := by
  obtain ⟨t, ht, hbytes⟩ := exists_bytes hs h hl
  have hcode := (ht.stands x hx).code
  rw [hbytes _ (List.getElem?_eq_some_iff.mp hcode).1, hcode]

end Nested

theorem Invocation.getLast?_cursors {i : Invocation} (h : i.block? = some b) :
    ∃ c, i.cursors.getLast? = some c ∧ c.block = b := by
  obtain ⟨c, hc, rfl⟩ := Option.map_eq_some_iff.mp h
  exact ⟨c, by rw [cursors, hc, Option.toList_some, List.getLast?_concat], rfl⟩

/-- The record at hand has its code at its place in the stream. -/
theorem Invocation.Sound.byte {i : Invocation} (h : i.Sound) (hb : i.block? = some b)
    (hs : Decoded s b) {record : Record} (hr : i.record? = some record) :
    s[streamStart i.cursors + record.offset]? = some record.action.code := by
  obtain ⟨c₀, hlast, rfl⟩ := getLast?_cursors hb
  have hn := h.nested
  rw [record?_eq] at hr
  rcases hi : i.cursors with _ | ⟨c, l⟩
  · rw [hi] at hr
    cases hr
  · rw [hi] at hr hlast hn
    rw [List.head?_cons, Option.bind_some, List.head?_eq_some_iff] at hr
    obtain ⟨rest, hrest⟩ := hr
    obtain ⟨k, hk⟩ := hn.onBlock c List.mem_cons_self
    rw [hrest] at hk
    exact hn.byte hlast hs (List.mem_of_mem_drop (hk ▸ List.mem_cons_self))

/-! ## The ends of bodies -/

/-- The blocks in progress from the record on that follows the innermost body after which there is
one. -/
def resumed : List Cursor → List Cursor
  | [] => []
  | d :: outer => if d.next.rest.isEmpty then resumed outer else d.next :: outer

namespace Machine

variable {e : Embedding} {m : Machine}

/-- The invocation that runs the block `b` over the frames comes to the end of one of its blocks,
and performs nothing. -/
def AtEnd (m : Machine) (b : Block) (frames : List Frame) : Prop :=
  ∃ i, m.control = .go i ∧ m.frames = frames ∧ i.block? = some b ∧ i.record? = none

/-- The invocation that runs the block `b` over the frames has a record at hand, with the given
blocks in progress, or it is complete if there are none. -/
def GoesOn (m : Machine) (b : Block) (frames : List Frame) : List Cursor → Prop
  | [] => m.frames = frames ∧ ∃ context, m.control = .ended context .completed
  | l => m.frames = frames ∧ ∃ i, m.control = .go i ∧ i.block? = some b ∧ i.cursors = l ∧
    i.record?.isSome = true

/-- **From the end of a body** nothing is performed before the record that follows it, or the
innermost body around it after which there is one. -/
theorem Sound.resumes {outer : List Cursor} : ∀ {m : Machine} {i : Invocation} {c : Cursor},
    m.Sound → m.control = .go i → i.block? = some b → i.cursors = c :: outer → c.rest = [] →
    ∃ n, (∀ k ≤ n, (m.run e k).AtEnd b m.frames) ∧
      (m.run e (n + 1)).GoesOn b m.frames (resumed outer) := by
  induction outer with
  | nil =>
    intro m i c hm hgo hb hi hc
    obtain ⟨hr, hstep⟩ := step_of_end (e := e) hgo hi hc
    have hend : m.AtEnd b m.frames := ⟨i, hgo, rfl, hb, hr⟩
    obtain ⟨context, hl⟩ := Invocation.leave_of_last hi
    refine ⟨0, fun k hk => ?_, ?_⟩
    · obtain rfl := Nat.le_zero.mp hk
      exact hend
    · rw [run_step, Machine.run, hstep, hl]
      exact ⟨rfl, context, rfl⟩
  | cons d outer ih =>
    intro m i c hm hgo hb hi hc
    obtain ⟨hr, hstep⟩ := step_of_end (e := e) hgo hi hc
    have hend : m.AtEnd b m.frames := ⟨i, hgo, rfl, hb, hr⟩
    obtain ⟨j, hl, hj, hjb, -⟩ := Invocation.leave_of_body hi (hm.sound_of_go hgo).pending
    rw [hl] at hstep
    have hgo' : (m.step e).control = .go j := by rw [hstep]
    have hframes : (m.step e).frames = m.frames := by rw [hstep]
    by_cases hd : d.next.rest = []
    · obtain ⟨n, hall, hgoes⟩ := ih hm.move.2 hgo' (hjb.trans hb) hj hd
      rw [hframes] at hall hgoes
      refine ⟨n + 1, fun k hk => ?_, ?_⟩
      · cases k with
        | zero => exact hend
        | succ k =>
          rw [run_succ]
          exact hall k (by omega)
      · rw [run_succ, resumed, if_pos (by rw [hd]; rfl)]
        exact hgoes
    · refine ⟨0, fun k hk => ?_, ?_⟩
      · obtain rfl := Nat.le_zero.mp hk
        exact hend
      · have hsome : j.record?.isSome = true := by
          rwa [Invocation.record?_eq, hj, List.head?_cons, Option.bind_some, List.isSome_head?]
        rw [run_step, Machine.run, resumed, if_neg (by simpa using hd)]
        exact ⟨hframes, j, hgo', hjb.trans hb, hj, hsome⟩

end Machine

/-! ## Branches -/

/-- **Where a stream goes on after a branch.** If the target is before the end of the innermost block
around the branch, the next record that the invocation performs stands in the stream at the end of
the branch and its offset, or the branch fails where no record of that block starts. If the target
is not before that end, the stream goes on behind the body. -/
theorem branch_in_stream {e : Embedding} {m : Machine} {inv : Invocation} {b : Block}
    {s : List UInt8} {c : Cursor} {outer : List Cursor} {r : Record} {offset : Int16}
    (hm : Reached e m) (hgo : m.control = .go inv) (hb : inv.block? = some b) (hs : Decoded s b)
    (hi : inv.cursors = c :: outer) (hr : inv.record? = some r)
    (ho : r.action.taken? inv.context = some offset) :
    s[streamStart inv.cursors + r.offset]? = some r.action.code ∧
    (r.finish + offset.toInt < c.block.byteLength → (m.step e).frames = m.frames ∧
      ((∃ i p x, (m.step e).control = .go i ∧ i.block? = some b ∧ i.cursors.tail = outer ∧
          i.record? = some x ∧ i.place? = some p ∧ s[p]? = some x.action.code ∧
          (p : ℤ) = streamStart inv.cursors + r.finish + offset.toInt) ∨
        (∀ k, ¬ c.block.StartsAt k (r.finish + offset.toInt)) ∧
          ∃ context, (m.step e).control =
            .ended context (.failed (.invalidJump (r.finish + offset.toInt))))) ∧
    (c.block.byteLength ≤ r.finish + offset.toInt →
      ∃ n, (∀ k < n, (m.run e (k + 1)).AtEnd b m.frames) ∧
        (m.run e (n + 1)).GoesOn b m.frames (resumed outer)) := by
  have hsound := hm.sound
  have hinv := hsound.sound_of_go hgo
  have hn := hinv.nested
  obtain ⟨c₀, hlast, rfl⟩ := Invocation.getLast?_cursors hb
  rw [hi] at hn hlast
  obtain ⟨t, ht, -⟩ := hn.exists_bytes hs hlast
  obtain ⟨hbranched, hframes⟩ := Machine.Sound.branched (e := e) ht hsound hgo hi hr ho
  have hstep : (m.step e).Sound := hsound.move.2
  refine ⟨hinv.byte hb hs hr, ?_⟩
  generalize hcontrol : (m.step e).control = control at hbranched
  cases hbranched with
  | @record j k hk hcur hblock =>
    refine ⟨fun _ => ⟨hframes, Or.inl ?_⟩, fun hle => absurd (ht.lt_of_startsAt hk).2 (by omega)⟩
    obtain ⟨x, hx, hoffset⟩ := hk
    have hrec : j.record? = some x := by
      rw [Invocation.record?_eq, hcur, List.head?_cons, Option.bind_some, List.head?_drop, hx]
    have hbyte := (hstep.sound_of_go hcontrol).byte (hblock.trans hb) hs hrec
    have hstart : streamStart j.cursors = streamStart inv.cursors := by
      rw [hcur, hi]
      exact streamStart_congr (c := c) (by rfl) outer
    refine ⟨j, _, x, rfl, hblock.trans hb, by rw [hcur]; rfl, hrec, ?_, hbyte, ?_⟩
    · rw [Invocation.place?, hrec, Option.map_some]
    · rw [hstart]
      omega
  | finish hle hcur hblock =>
    refine ⟨fun hlt => absurd hlt (by omega), fun _ => ?_⟩
    obtain ⟨n, hall, hgoes⟩ := hstep.resumes (e := e) hcontrol (hblock.trans hb) hcur rfl
    rw [hframes] at hall hgoes
    refine ⟨n + 1, fun k hk => ?_, ?_⟩
    · rw [Machine.run_succ]
      exact hall k (by omega)
    · rw [Machine.run_succ]
      exact hgoes
  | @invalid context hlt hno =>
    exact ⟨fun _ => ⟨hframes, Or.inr ⟨hno, context, rfl⟩⟩, fun hle => absurd hle (by omega)⟩

/-- A branch inside a body, which starts at 13: the next record is at 19. -/
theorem branch_in_body :
    let b : Block := ⟨[⟨0, 8, .defineFunction "" [] ⟨[], 0⟩⟩,
      ⟨8, 12, .withObject ⟨[⟨0, 5, .jump 1⟩, ⟨5, 1, .op .play⟩, ⟨6, 1, .op .stop⟩], 7⟩⟩], 20⟩
    let m := (Machine.start (.start default) (topContext (State.start default).worker) b).run
      .none 2
    decodeActions [0x9B, 5, 0, 0, 0, 0, 0, 0, 0x94, 2, 0, 7, 0, 0x99, 2, 0, 1, 0, 6, 7] = .ok b ∧
    (∃ i, m.control = .go i ∧ i.place? = some 13) ∧
      ∃ i p, (m.step .none).control = .go i ∧ i.place? = some p ∧ (p : ℤ) = 13 + 5 + 1 := by
  intro b m
  have hb : decodeActions [0x9B, 5, 0, 0, 0, 0, 0, 0, 0x94, 2, 0, 7, 0, 0x99, 2, 0, 1, 0, 6, 7] =
      .ok b := by
    unfold b
    rw [← Utf8.repair_nil]
    rfl
  have hm : Reached .none m := (Reached.start _ b rfl).run 2
  obtain ⟨-, hin, -⟩ := branch_in_stream hm rfl rfl (decoded_of_decodeActions hb) rfl rfl rfl
  refine ⟨hb, ⟨_, rfl, rfl⟩, ?_⟩
  obtain ⟨-, ⟨i, p, x, hgo, -, -, -, hp, -, hplace⟩ | ⟨hno, -⟩⟩ := hin (by decide)
  · exact ⟨i, p, hgo, hp, hplace⟩
  · exact absurd ⟨_, rfl, rfl⟩ (hno 2)

/-- A branch out of a body. Its target would be the second record after the body, at 19, but the
first one is performed next. -/
theorem branch_out_of_body :
    let b : Block := ⟨[⟨0, 8, .defineFunction "" [] ⟨[], 0⟩⟩,
      ⟨8, 10, .withObject ⟨[⟨0, 5, .jump 1⟩], 5⟩⟩, ⟨18, 1, .op .play⟩, ⟨19, 1, .op .stop⟩], 20⟩
    let m := (Machine.start (.start default) (topContext (State.start default).worker) b).run
      .none 2
    decodeActions [0x9B, 5, 0, 0, 0, 0, 0, 0, 0x94, 2, 0, 5, 0, 0x99, 2, 0, 1, 0, 6, 7, 0] = .ok b ∧
    ∃ i record j, m.control = .go i ∧ i.record? = some record ∧
      record.action.taken? i.context = some 1 ∧
      (m.run .none 1).AtEnd b m.frames ∧ (m.run .none 2).control = .go j ∧
      (m.run .none 2).frames = m.frames ∧ j.place? = some 18 ∧
      (18 : ℤ) ≠ streamStart i.cursors + record.finish + (1 : Int16).toInt := by
  refine ⟨?_, _, _, _, rfl, rfl, rfl, ⟨_, rfl, rfl, rfl, rfl⟩, rfl, rfl, rfl, by decide⟩
  rw [← Utf8.repair_nil]
  rfl

end ActionVm
