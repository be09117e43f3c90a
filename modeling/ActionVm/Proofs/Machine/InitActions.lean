import ActionVm.Proofs.Block.Displacement
import ActionVm.Proofs.Machine.Bottom
import ActionVm.Proofs.Machine.Branching
import ActionVm.Tag.Run

/-!
# Init actions

The actions of a sprite stand behind two bytes that name it, and these count in all offsets of their
block. They run like the same actions alone: a branch leads from the same record to the same record,
and only the offset of a branch that leads nowhere tells the difference.

* `BlockOf.landing_moved`: where a branch leads in a block with more bytes before it;
* `Cursor.moved`, `Invocation.moved`, **`recasts_moved`**: what runs in such a block;
* `Machine.Strays`: the block at the bottom takes a branch that leads nowhere;
* `decodeInitActions_cons`: init actions are a stream that is moved;
* **`Machine.recast_moved_run`**: a run of both, until a branch leads nowhere;
* **`init_actions_run_alike`**: decoding and running.
-/

namespace ActionVm

/-! ## Branches -/

/-- Halving ends at the same index where all numbers are greater by `k`. -/
theorem lastUpTo_map_add (l : List ℕ) (k target base size : ℕ) (h : base + size ≤ l.length) :
    lastUpTo (l.map (· + k)) (target + k) base size = lastUpTo l target base size := by
  fun_induction lastUpTo l target base size with
  | case1 base size hsize => rw [lastUpTo, if_pos hsize]
  | case2 base size hsize half ih =>
    have hhalf : half = size / 2 := rfl
    have hmid : (l.map (· + k)).getD (base + half) 0 = l.getD (base + half) 0 + k := by
      have hlt : base + half < l.length := by omega
      simp [List.getD_eq_getElem?_getD, List.getElem?_eq_getElem hlt]
    rw [lastUpTo, if_neg hsize]
    simp only [← hhalf, hmid, Nat.add_lt_add_iff_right]
    refine ih ?_
    split <;> omega

theorem search_map_add (l : List ℕ) (k target : ℕ) :
    search (l.map (· + k)) (target + k) = search l target := by
  have hlast := lastUpTo_map_add l k target 0 l.length (by omega)
  have hvalue : ∀ i, (l.map (· + k))[i]? = some (target + k) ↔ l[i]? = some target := fun i => by
    rw [List.getElem?_map, Option.map_eq_some_iff]
    constructor
    · rintro ⟨a, ha, hk⟩
      rw [ha, Nat.add_right_cancel hk]
    · exact fun ha => ⟨target, ha, rfl⟩
  simp only [search, List.length_map, hlast, hvalue]

theorem search_map_add_of_lt (l : List ℕ) {k target : ℕ} (h : target < k) :
    search (l.map (· + k)) target = none := by
  refine if_neg fun ht => ?_
  rw [List.getElem?_map, Option.map_eq_some_iff] at ht
  obtain ⟨a, -, ha⟩ := ht
  omega

/-- The same where `k` bytes more stand before the block. -/
def Landing.moved (k : ℕ) : Landing → Landing
  | record index => record index
  | finish => finish
  | invalid target => invalid (target + k)

/-- **Branches lead to the same records** where more bytes stand before a block. -/
theorem BlockOf.landing_moved (k : ℕ) (b : Block) (target : ℤ) :
    (b.moved k).landing (target + k) = (b.landing target).moved k := by
  have hoffsets : (b.moved k).records.map Placed.offset =
      (b.records.map Placed.offset).map (· + k) := by
    simp [Block.moved, Record.moved, Function.comp_def]
  have hlength : ((b.moved k).byteLength : ℤ) = b.byteLength + k := by simp [Block.moved]
  unfold landing
  rw [hoffsets, hlength]
  by_cases hneg : target < 0
  · -- before the block, where the other one may have bytes, but no record
    rw [if_pos hneg]
    split_ifs with hbefore hend
    · rfl
    · omega
    · rw [search_map_add_of_lt _ (by omega)]
      rfl
  · have hplace : (target + k).toNat = target.toNat + k := by omega
    rw [if_neg hneg, if_neg (by omega : ¬target + k < 0), hplace, search_map_add]
    by_cases hend : (b.byteLength : ℤ) ≤ target
    · rw [if_pos hend, if_pos (by omega)]
      rfl
    · rw [if_neg hend, if_neg (by omega)]
      split <;> rfl

/-! ## Invocations -/

namespace Cursor

/-- The cursor in the block with `k` bytes more before it. -/
def moved (k : ℕ) (c : Cursor) : Cursor := ⟨c.block.moved k, c.rest.map (Record.moved k)⟩

theorem follow_moved (k : ℕ) (c : Cursor) (l : Landing) :
    (c.moved k).follow (l.moved k) = match c.follow l with
      | .ok c' => .ok (c'.moved k)
      | .error target => .error (target + k) := by
  cases l with
  | record index => simp [follow, Landing.moved, moved, Block.moved, List.map_drop]
  | finish => rfl
  | invalid target => rfl

theorem follow_eq_error_iff {c : Cursor} {l : Landing} {target : ℤ} :
    c.follow l = .error target ↔ l = .invalid target := by
  cases l <;> simp [follow]

theorem advance_moved (k : ℕ) (c : Cursor) (jump : Option Int16) :
    (c.moved k).advance jump = match c.advance jump with
      | .ok c' => .ok (c'.moved k)
      | .error target => .error (target + k) := by
  obtain ⟨block, _ | ⟨record, rest⟩⟩ := c
  · rfl
  · cases jump with
    | none => rfl
    | some offset =>
      have hfinish : ((record.moved k).finish : ℤ) + offset.toInt =
          record.finish + offset.toInt + k := by
        simp [Record.moved, Placed.finish]
        omega
      have hrest : (moved k ⟨block, record :: rest⟩).rest =
          record.moved k :: rest.map (Record.moved k) := rfl
      rw [advance_some hrest, advance_some (c := ⟨block, record :: rest⟩) rfl, hfinish]
      change follow _ ((block.moved k).landing _) = _
      rw [BlockOf.landing_moved, follow_moved]

end Cursor

namespace Invocation

/-- The invocation of the block with `k` bytes more before it. -/
def moved (k : ℕ) (i : Invocation) : Invocation := { i with main := i.main.map (Cursor.moved k) }

/-- An invocation whose block takes no branch that leads nowhere goes on in the same way. -/
theorem proceed_moved (k : ℕ) {i : Invocation}
    (h : i.bodies = [] → ∀ c target, i.main = some c →
      c.advance i.context.pendingJump ≠ .error target) :
    (i.moved k).proceed = i.proceed.recast (moved k) id := by
  obtain ⟨context, _ | ⟨body, bodies⟩, main⟩ := i
  · rcases main with _ | c
    · rfl
    · have hc := Cursor.advance_moved k c context.pendingJump
      rcases hadvance : c.advance context.pendingJump with target | c'
      · exact absurd hadvance (h rfl c target rfl)
      · rw [hadvance] at hc
        simp only [proceed, moved, Option.map_some, hc, hadvance]
        rfl
  · rcases hadvance : body.advance context.pendingJump with target | body'
    · simp only [proceed, moved, hadvance]
      rfl
    · simp only [proceed, moved, hadvance]
      rfl

theorem proceed_moved_of_none (k : ℕ) {i : Invocation} (hi : i.context.pendingJump = none) :
    (i.moved k).proceed = i.proceed.recast (moved k) id :=
  proceed_moved k fun _ c target _ => by
    rw [hi, Cursor.advance_none]
    nofun

end Invocation

/-- Where more bytes stand before the block, an invocation goes on in the same way. -/
theorem recasts_moved (k : ℕ) : Recasts (·.pendingJump = none) (Invocation.moved k) id where
  action i := by
    obtain ⟨context, _ | ⟨body, bodies⟩, _ | c⟩ := i
    · rfl
    · simp only [Invocation.record?, Invocation.moved, Option.map_some, Option.bind_some,
        Cursor.moved, List.head?_map, Option.map_map]
      rfl
    · rfl
    · rfl
  enter _ _ _ := rfl
  unwound _ := rfl
  resume i v hi :=
    Invocation.proceed_moved_of_none k (i := { i with context := i.context.push v }) hi
  leave i hi := by
    obtain ⟨context, _ | ⟨body, bodies⟩, main⟩ := i
    · rfl
    · exact Invocation.proceed_moved_of_none k
        (i := ⟨{ context with scope := context.scope.pop }, bodies, main⟩) hi

/-! ## Runs -/

namespace Machine

variable {e : Embedding} {m m' : Machine}

/-- The block at the bottom is about to take a branch that leads nowhere. -/
def Strays (m : Machine) (target : ℤ) : Prop :=
  ∃ c block record offset, m.control = .go ⟨c, [], some block⟩ ∧ m.frames = [] ∧
    block.rest.head? = some record ∧ record.action.taken? c = some offset ∧
    block.block.landing (record.finish + offset.toInt) = .invalid target

/-- A branch that leads nowhere ends the invocation at the bottom. -/
theorem Strays.step {target : ℤ} (h : m.Strays target) (e : Embedding) (k : ℕ)
    (hr : Recast (Invocation.moved k) id m m') : ∃ c s,
      m.step e = ⟨.ended c (.failed (.invalidJump target)), [], s⟩ ∧
      m'.step e = ⟨.ended c (.failed (.invalidJump (target + k))), [], s⟩ := by
  obtain ⟨c, block, record, offset, hcontrol, hframes, hrecord, htaken, hlanding⟩ := h
  obtain ⟨rest, hrest⟩ := List.head?_eq_some_iff.mp hrecord
  have hadvance : block.advance (some offset) = .error target := by
    rw [Cursor.advance_some hrest, Cursor.follow_eq_error_iff, hlanding]
  have hmoved := Cursor.advance_moved k block (some offset)
  rw [hadvance] at hmoved
  cases hr with
  | wait _ above => simp at hframes
  | ended => cases hcontrol
  | go i s =>
    cases hcontrol
    have hpending := perform_pendingJump e record.action c s
    have hnext := perform_of_taken (e := e) htaken s
    rcases hr : (ActionVm.perform e record.action).run.run (c, s) with ⟨result, c', s'⟩
    rw [hr] at hpending hnext
    obtain rfl : result = .ok .next := hnext
    obtain hjump : c'.pendingJump = some offset := by simpa [htaken] using hpending
    have hmain : (Invocation.moved k ⟨c, [], some block⟩).record? = some (record.moved k) := by
      change (block.rest.map _).head? = _
      rw [List.head?_map, hrecord]
      rfl
    have hrec : Invocation.record? ⟨c, [], some block⟩ = some record := hrecord
    refine ⟨{ c' with pendingJump := none }, s', ?_, ?_⟩
    · simp only [Machine.step, hrec]
      rw [perform_of_result hr]
      simp only [settle, Invocation.proceed, hjump, hadvance]
    · simp only [Machine.step, hmain, Record.moved]
      rw [perform_of_result (i := Invocation.moved k _) hr]
      simp only [settle, Invocation.proceed, Invocation.moved, Option.map_some, hjump, hmoved]

/-- An action of the block at the bottom, unless it is a branch that leads nowhere. -/
theorem recast_moved_perform (k : ℕ) {i : Invocation} {record : Record} {s : State}
    (hi : i.context.pendingJump = none) (hrecord : i.record? = some record)
    (h : ∀ target, ¬Strays ⟨.go i, [], s⟩ target) :
    Recast (Invocation.moved k) id (perform e [] s i record.action)
      (perform e [] s (i.moved k) record.action) := by
  have hpending := perform_pendingJump e record.action i.context s
  rcases hr : (ActionVm.perform e record.action).run.run (i.context, s) with ⟨result, c, s'⟩
  rw [hr, hi, Option.or_none] at hpending
  rw [perform_of_result hr, perform_of_result (i := i.moved k) hr]
  refine (recasts_moved k).settle ⟨c, i.bodies, i.main⟩ result (fun _ => ?_) s'
  refine Invocation.proceed_moved k fun hbodies block target hblock => ?_
  have hrecord : block.rest.head? = some record := by
    rw [← hrecord, Invocation.record?, show i.bodies = [] from hbodies,
      show i.main = some block from hblock]
    rfl
  rw [show c.pendingJump = _ from hpending]
  rcases htaken : record.action.taken? i.context with _ | offset
  · rw [Cursor.advance_none]
    nofun
  · obtain ⟨rest, hrest⟩ := List.head?_eq_some_iff.mp hrecord
    rw [Cursor.advance_some hrest, Ne, Cursor.follow_eq_error_iff]
    intro hlanding
    obtain ⟨context, bodies, main⟩ := i
    obtain rfl : bodies = [] := hbodies
    obtain rfl : main = some block := hblock
    exact h target ⟨context, block, record, offset, rfl, rfl, hrecord, htaken, hlanding⟩

theorem sameDomains_of_recast_moved {k : ℕ} (h : Recast (Invocation.moved k) id m m') (r : Request)
    (s : State) (d : DomainId) : SameDomains (.call r :: m.frames) (.call r :: m'.frames) s d := by
  have hroots : roots (.call r :: m.frames) s.worker = roots (.call r :: m'.frames) s.worker := by
    cases h with
    | go | ended => rfl
    | wait control above i => simp [roots, Frame.entities, Invocation.moved]
  intro p _
  rw [hroots]

/-- A step, unless the block at the bottom takes a branch that leads nowhere. -/
theorem step_recast_moved {k : ℕ} (hm : m.Sound) (h : Recast (Invocation.moved k) id m m')
    (hstrays : ∀ target, ¬m.Strays target) :
    Recast (Invocation.moved k) id (m.step e) (m'.step e) := by
  have hgo : ∀ i, m.control = .go i → i.context.pendingJump = none :=
    fun i hi => (hm.sound_of_go hi).pending
  refine (recasts_moved k).step h hgo (fun i hi => (hm.frames _ hi).pending) ?_
    fun r d _ s' _ _ => sameDomains_of_recast_moved h r s' d
  intro i record hcontrol hframes hrecord
  obtain ⟨control, frames, s'⟩ := m
  subst hcontrol hframes
  exact recast_moved_perform k (hgo i rfl) hrecord hstrays

/-- **A run of a block with more bytes before it** goes from record to record as that of the block,
until a branch leads nowhere. -/
theorem recast_moved_run (e : Embedding) (k : ℕ) (s : State) {c : Context}
    (hc : c.pendingJump = none) (b : Block) (n : ℕ) :
    (∀ j < n, ∀ target, ¬((start s c b).run e j).Strays target) ∧
        Recast (Invocation.moved k) id ((start s c b).run e n) ((start s c (b.moved k)).run e n) ∨
      ∃ j < n, ∃ target, ((start s c b).run e j).Strays target ∧ ∃ c' s',
        (start s c b).run e n = ⟨.ended c' (.failed (.invalidJump target)), [], s'⟩ ∧
        (start s c (b.moved k)).run e n =
          ⟨.ended c' (.failed (.invalidJump (target + k))), [], s'⟩ := by
  induction n with
  | zero => exact Or.inl ⟨nofun, .go (.start c b) s⟩
  | succ n ih =>
    rw [run_step, run_step]
    rcases ih with ⟨hbefore, hr⟩ | ⟨j, hj, target, hstrays, c', s', hm, hm'⟩
    · have hsound := ((Reached.start s b hc).run (e := e) n).sound
      by_cases hstrays : ∃ target, ((start s c b).run e n).Strays target
      · obtain ⟨target, hstrays⟩ := hstrays
        obtain ⟨c', s', hm, hm'⟩ := hstrays.step e k hr
        exact Or.inr ⟨n, by omega, target, hstrays, c', s', hm, hm'⟩
      · rw [not_exists] at hstrays
        refine Or.inl ⟨fun j hj => ?_, ?_⟩
        · rcases Nat.lt_succ_iff_lt_or_eq.mp hj with hj | rfl
          · exact hbefore j hj
          · exact hstrays
        · exact step_recast_moved hsound hr hstrays
    · rw [hm, hm']
      exact Or.inr ⟨j, by omega, target, hstrays, c', s', rfl, rfl⟩

theorem Recast.answer?_eq {φ : Invocation → Invocation} (h : Recast φ id m m') :
    m'.answer? = m.answer? ∧ m'.state = m.state := by
  cases h with
  | go i s => exact ⟨rfl, rfl⟩
  | ended c ending s => exact ⟨rfl, rfl⟩
  | wait control above i s =>
    refine ⟨?_, rfl⟩
    rcases above with _ | ⟨frame, above⟩ <;> cases control <;> rfl

end Machine

/-! ## Tags -/

/-- Init actions are a stream behind the two bytes of the sprite. -/
theorem decodeInitActions_cons (x y : UInt8) (bytes : List UInt8) :
    decodeInitActions (x :: y :: bytes) =
      (outcome (Block.moved 2) 2 (decodeActions bytes)).map (⟨Word.of16 x y, ·⟩) := by
  have hu16 : Read.Gives Read.u16 (.ofBytes (x :: y :: bytes)) (Word.of16 x y)
      ((Reader.ofBytes bytes).moved 2 0) := Read.gives_u16.mpr ⟨x, y, bytes, rfl, rfl, rfl⟩
  have hstream : (readStream.run.run ((Reader.ofBytes bytes).moved 2 0)).1 =
      outcome (Block.moved 2) 2 (decodeActions bytes) :=
    answer_moved (movesBodies_decoderBelow maxNesting) false (.ofBytes bytes) 2 0
  rw [decodeInitActions, Read.answer, hu16.run_bind, ← hstream, ExceptT.run_bind, StateT.run_bind]
  rcases StateT.run (ExceptT.run readStream) ((Reader.ofBytes bytes).moved 2 0) with ⟨e | b, r⟩
  · rfl
  · rfl

/-- **Init actions run like the same actions alone.** Two bytes before a stream move the place of an
error by two. Where the stream decodes, init actions that run for the first time give the same
answer in the same state after the same number of steps, unless the block of the stream itself takes
a branch that leads nowhere: then both fail there in the same state, and the offset to which it
leads in the init actions is greater by two. -/
theorem init_actions_run_alike (x y : UInt8) (bytes : List UInt8) :
    match decodeActions bytes with
    | .error error => decodeInitActions (x :: y :: bytes) = .error (error.moved 2)
    | .ok b => ∃ tag, decodeInitActions (x :: y :: bytes) = .ok tag ∧
      ∀ (e : Embedding) (s : State) (steps : ℕ),
        (∀ k < steps, ∀ target,
            ¬((Machine.start s (topContext s.worker (e.root s)) b).run e k).Strays target) ∧
          InitTag.run? e steps s ⟨tag, false⟩ = (runTop e steps s b).map (⟨tag, true⟩, ·) ∨
        ∃ k < steps, ∃ target s',
          ((Machine.start s (topContext s.worker (e.root s)) b).run e k).Strays target ∧
          runTop e steps s b = some (.error (.invalidJump target), s') ∧
          InitTag.run? e steps s ⟨tag, false⟩ =
            some (⟨tag, true⟩, .error (.invalidJump (target + 2)), s') := by
  have hcons := decodeInitActions_cons x y bytes
  rcases hd : decodeActions bytes with error | b
  · rw [hd] at hcons
    exact hcons
  rw [hd] at hcons
  refine ⟨⟨Word.of16 x y, b.moved 2⟩, hcons, fun e s steps => ?_⟩
  have hresult : InitTag.run? e steps s ⟨⟨Word.of16 x y, b.moved 2⟩, false⟩ =
      (runTop e steps s (b.moved 2)).map (⟨⟨Word.of16 x y, b.moved 2⟩, true⟩, ·) := rfl
  rw [hresult]
  unfold runTop Machine.result?
  rcases Machine.recast_moved_run e 2 s (c := topContext s.worker (e.root s)) rfl b steps with
    ⟨hstrays, hr⟩ | ⟨j, hj, target, hstrays, c, s', hm, hm'⟩
  · obtain ⟨hanswer, hstate⟩ := hr.answer?_eq
    dsimp only
    rw [hanswer, hstate]
    exact Or.inl ⟨hstrays, rfl⟩
  · rw [hm, hm']
    exact Or.inr ⟨j, hj, target, s', hstrays, rfl, rfl⟩

end ActionVm
