import ActionVm.Machine
import ActionVm.Proofs.Buffer.Bytes
import ActionVm.Proofs.Store.Entries
import Mathlib.Logic.Function.Basic

/-!
# Slots that workers share

Workers that have one buffer as their memory swap numbers in its slots. A call is not one step: it
finds the memory of the active domain, and later it swaps. In between the others do what they like.

* `Store.number?`: the number in a slot of a buffer;
* `Swap`: a call that has found its memory, with `Swap.find`, `Swap.run` and
  **`compareAndSwap_eq_find_run`**: a call is the two one after the other;
* **`Swap.number?_run`**: every slot after a swap;
* `Team`, `Team.Step`, `Team.Run`: workers, and what they do in any order;
* `History`: swaps of one slot, one after the other, with **`Team.history_of_run`**: the swaps of a
  run are such a history, whatever was done in between;
* **`Team.swaps_lose_no_update`**: who swaps first, and how often a counter has moved on.
-/

namespace ActionVm

open Function

/-! ## Slots of a store -/

namespace Buffer

variable {b : Buffer} {address : ℕ}

theorem slot?_eq_some_iff {n : Int32} :
    b.slot? address = some n ↔ b.hasSlot address = true ∧ (b.word (address / 4)).toInt32 = n := by
  unfold slot?
  split_ifs with h <;> simp [h]

theorem slot?_setWord (hb : b.hasSlot address = true) (a : ℕ) (n : Int32) :
    (b.setWord (address / 4) n.toUInt32).slot? a = if a = address then some n else b.slot? a := by
  have hslot : (b.setWord (address / 4) n.toUInt32).hasSlot a = b.hasSlot a := rfl
  by_cases ha : b.hasSlot a = true
  · have hword : a / 4 = address / 4 ↔ a = address := by
      simp only [hasSlot, Bool.and_eq_true, decide_eq_true_eq] at hb ha
      omega
    simp only [slot?, hslot, ha, if_true, word_setWord, hword]
    split_ifs <;> simp
  · have hne : a ≠ address := by
      rintro rfl
      exact ha hb
    simp [slot?, hslot, ha, hne]

/-- The slots of a buffer after a swap in one of them. -/
theorem slot?_swapped {old : Int32} (h : b.slot? address = some old) (expected new : Int32)
    (a : ℕ) :
    (if old = expected then b.setWord (address / 4) new.toUInt32 else b).slot? a =
      if a = address then some (if old = expected then new else old) else b.slot? a := by
  by_cases he : old = expected
  · simp only [if_pos he, slot?_setWord (slot?_eq_some_iff.mp h).1]
  · simp only [if_neg he]
    split_ifs with ha
    · rw [ha, h]
    · rfl

end Buffer

namespace Store

variable {s : Store} {b : BufferId} {address : ℕ}

/-- The number in a slot of a buffer. -/
def number? (s : Store) (b : BufferId) (address : ℕ) : Option Int32 := (s.buffer b).slot? address

/-- A buffer that is not in the store has no bytes. -/
theorem lt_size_of_length_pos (h : 0 < (s.buffer b).length) : b.index < s.buffers.size := by
  by_contra hb
  rw [buffer_of_size_le (Nat.le_of_not_lt hb)] at h
  exact absurd h (by decide)

theorem lt_size_of_hasSlot (h : (s.buffer b).hasSlot address = true) :
    b.index < s.buffers.size := by
  simp only [Buffer.hasSlot, Buffer.covers, Bool.and_eq_true, decide_eq_true_eq] at h
  exact lt_size_of_length_pos (by omega)

end Store

namespace Exec

variable {s : State}

/-- A swap in a slot gives the number that was there. -/
theorem swapSlot_of_some {b : BufferId} {address : ℕ} {expected new old : Int32}
    (h : s.store.number? b address = some old) :
    swapSlot b address expected new s = (.ok old, ⟨s.store.setBuffer b
      (if old = expected then (s.store.buffer b).setWord (address / 4) new.toUInt32
        else s.store.buffer b), s.worker⟩) := by
  obtain ⟨hslot, rfl⟩ := Buffer.slot?_eq_some_iff.mp h
  have hswap : (s.store.buffer b).compareAndSwap? address expected new = _ := if_pos hslot
  rw [swapSlot, bind_ask]
  simp only [hswap]
  rfl

theorem slot_of_some {b : BufferId} {address : ℕ} {n : Int32}
    (h : s.store.number? b address = some n) : slot b address s = (.ok n, s) := by
  have hslot : (s.store.buffer b).slot? address = some n := h
  rw [slot, bind_ask]
  simp only [hslot]
  rfl

theorem swapSlot_of_none {b : BufferId} {address : ℕ} {expected new : Int32}
    (h : s.store.number? b address = none) :
    swapSlot b address expected new s =
      (.error (.noSlot address (s.store.buffer b).length), s) := by
  have hslot : ¬(s.store.buffer b).hasSlot address = true := fun hslot => by
    rw [Store.number?, Buffer.slot?, if_pos hslot] at h
    cases h
  have hswap : (s.store.buffer b).compareAndSwap? address expected new = none := if_neg hslot
  rw [swapSlot, bind_ask]
  simp only [hswap]
  rfl

end Exec

/-! ## Calls -/

/-- A call that has found its memory. -/
structure Swap where
  memory : Option BufferId
  address : ℕ
  expected : Int32
  new : Int32

namespace Swap

variable {w : Swap} {s : State} {b : BufferId} {address : ℕ}

/-- The call swaps in the slot. -/
def On (w : Swap) (b : BufferId) (address : ℕ) : Prop := w.memory = some b ∧ w.address = address

instance : Decidable (w.On b address) := inferInstanceAs (Decidable (_ ∧ _))

/-- The arguments are converted, and the memory of the active domain is found. -/
def find (args : List Value) : Exec Swap := do
  Host.expect "casi32" (.exactly 3) args
  let d ← Exec.worker Worker.activeDomain
  let memory ← Exec.ask (·.memory? d)
  return ⟨memory, (Host.argument args 0).toUInt32.toNat, (Host.argument args 1).toInt32,
    (Host.argument args 2).toInt32⟩

/-- The numbers are swapped. -/
def run (w : Swap) : Exec Value := do
  match w.memory with
  | some b => return .integer (← Exec.swapSlot b w.address w.expected w.new)
  | none => return .integer 0

/-- What becomes of the number in the slot. -/
def next (w : Swap) (n : Int32) : Int32 := if n = w.expected then w.new else n

theorem find_eq (args : List Value) (s : State) : find args s =
    if args.length = 3 then
      (.ok ⟨s.store.memory? s.worker.activeDomain, (Host.argument args 0).toUInt32.toNat,
        (Host.argument args 1).toInt32, (Host.argument args 2).toInt32⟩, s)
    else (.error (.argumentCount "casi32" (.exactly 3) args.length), s) := by
  have hadmits : (Arity.exactly 3).admits args.length = true ↔ args.length = 3 := by
    change (decide (3 ≤ args.length) && decide (args.length ≤ 3)) = true ↔ _
    rw [Bool.and_eq_true, decide_eq_true_eq, decide_eq_true_eq]
    omega
  unfold find Host.expect
  simp only [hadmits]
  split_ifs <;> rfl

/-- **A call finds its memory and then swaps.** -/
theorem compareAndSwap_eq_find_run (args : List Value) :
    Host.compareAndSwap args = find args >>= run := by
  unfold Host.compareAndSwap find Exec.compareAndSwap
  simp only [bind_assoc, pure_bind]
  refine bind_congr fun _ => bind_congr fun d => bind_congr fun memory => ?_
  cases memory <;> rfl

theorem run_of_memory_eq_none (hw : w.memory = none) : w.run s = (.ok (.integer 0), s) := by
  unfold run
  rw [hw]
  rfl

theorem run_of_number?_eq_none (hw : w.memory = some b)
    (h : s.store.number? b w.address = none) :
    w.run s = (.error (.noSlot w.address (s.store.buffer b).length), s) := by
  unfold run
  rw [hw]
  exact Exec.bind_of_error (Exec.swapSlot_of_none h)

/-- A swap answers with the number that was there. -/
theorem run_of_number?_eq_some {old : Int32} (hw : w.memory = some b)
    (h : s.store.number? b w.address = some old) :
    w.run s = (.ok (.integer old), ⟨s.store.setBuffer b
      (if old = w.expected then (s.store.buffer b).setWord (w.address / 4) w.new.toUInt32
        else s.store.buffer b), s.worker⟩) := by
  unfold run
  rw [hw]
  exact Exec.bind_of_ok (Exec.swapSlot_of_some h)

/-- **A swap changes its own slot, if it is the expected number that is there, and no other.** -/
theorem number?_run (w : Swap) (s : State) (b : BufferId) (address : ℕ) :
    (w.run s).2.store.number? b address =
      if w.On b address then (s.store.number? b address).map w.next
      else s.store.number? b address := by
  rcases hw : w.memory with _ | m
  · have hoff : ¬w.On b address := fun h => by simp [On, hw] at h
    rw [run_of_memory_eq_none hw, if_neg hoff]
  rcases hn : s.store.number? m w.address with _ | old
  · rw [run_of_number?_eq_none hw hn]
    split_ifs with hon
    · obtain ⟨hm, rfl⟩ := hon
      obtain rfl : m = b := by simpa [hw] using hm
      simp [hn]
    · rfl
  · obtain ⟨hslot, hold⟩ := Buffer.slot?_eq_some_iff.mp hn
    rw [run_of_number?_eq_some hw hn]
    dsimp only [Store.number?] at hn ⊢
    rw [Store.buffer_setBuffer]
    by_cases hb : b = m
    · subst hb
      have hon : w.On b address ↔ address = w.address := by simp [On, hw, eq_comm]
      rw [if_pos ⟨rfl, Store.lt_size_of_hasSlot hslot⟩, Buffer.slot?_swapped hn]
      by_cases ha : address = w.address
      · rw [if_pos ha, if_pos (hon.mpr ha), ha, hn]
        rfl
      · rw [if_neg ha, if_neg (ha ∘ hon.mp)]
    · have hoff : ¬w.On b address := fun h => hb (Option.some.inj (h.1.symm.trans hw))
      rw [if_neg (fun h => hb h.1), if_neg hoff]

/-- A swap in a slot answers with the number that is there. -/
theorem answer_run {old : Int32} (hw : w.On b address)
    (h : s.store.number? b address = some old) : (w.run s).1 = .ok (.integer old) := by
  obtain ⟨hm, rfl⟩ := hw
  rw [run_of_number?_eq_some hm h]

end Swap

/-! ## Histories of a slot -/

/-- A swap that is over, with its answer. -/
abbrev Swapped := Swap × Answer

/-- The swap has answered with the number that it expected. -/
def Swapped.succeeded (c : Swapped) : Bool :=
  match c with
  | (w, .ok (.integer n)) => n = w.expected
  | _ => false

/-- Swaps of one slot, one after the other, from a number on. Each answers with the number that the
ones before it have left. -/
inductive History : Int32 → List Swapped → Int32 → Prop where
  | nil (n : Int32) : History n [] n
  | cons {n last : Int32} {w : Swap} {rest : List Swapped} :
    History (w.next n) rest last → History n ((w, .ok (.integer n)) :: rest) last

namespace History

variable {n last : Int32} {calls : List Swapped}

/-- What is no longer there is never there again if nobody swaps it in. -/
theorem answers_of_ne {e : Int32} (h : History n calls last) (hn : n ≠ e)
    (hcalls : ∀ c ∈ calls, c.1.expected = e) : ∀ c ∈ calls, c.2 = .ok (.integer n) := by
  induction h with
  | nil => exact fun c hc => by cases hc
  | @cons n last w rest h ih =>
    rw [List.forall_mem_cons] at hcalls ⊢
    have hnext : w.next n = n := if_neg (hcalls.1 ▸ hn)
    rw [hnext] at ih
    exact ⟨rfl, ih hn hcalls.2⟩

/-- **One wins.** Where all expect the number that is there and swap in another one, the first gets
it, and the others get what the first has swapped in. -/
theorem first_wins (h : History n calls last)
    (hcalls : ∀ c ∈ calls, c.1.expected = n ∧ c.1.new ≠ n) (hne : calls ≠ []) :
    ∃ w rest, calls = (w, .ok (.integer n)) :: rest ∧ ∀ c ∈ rest, c.2 = .ok (.integer w.new) := by
  cases h with
  | nil => exact absurd rfl hne
  | @cons _ _ w rest h =>
    rw [List.forall_mem_cons] at hcalls
    obtain ⟨⟨he, hnew⟩, hrest⟩ := hcalls
    have hnext : w.next n = w.new := if_pos he.symm
    rw [hnext] at h
    exact ⟨w, rest, rfl, h.answers_of_ne hnew fun c hc => (hrest c hc).1⟩

/-- **A counter loses nothing.** Where all swap in the number after the one that they expect, the
number at the end is that at the beginning and one for each that succeeded. -/
theorem last_eq (h : History n calls last) (hcalls : ∀ c ∈ calls, c.1.new = c.1.expected + 1) :
    last = n + Int32.ofNat (calls.countP Swapped.succeeded) := by
  induction h with
  | nil n => exact (Int32.add_zero n).symm
  | @cons n last w rest h ih =>
    rw [List.forall_mem_cons] at hcalls
    rw [List.countP_cons]
    by_cases hn : n = w.expected
    · have hs : Swapped.succeeded (w, .ok (.integer n)) = true := decide_eq_true hn
      have hnext : w.next n = n + 1 := by rw [Swap.next, if_pos hn, hcalls.1, hn]
      rw [if_pos hs]
      calc last = n + 1 + Int32.ofNat (rest.countP Swapped.succeeded) := by
            rw [ih hcalls.2, hnext]
        _ = n + (Int32.ofNat (rest.countP Swapped.succeeded) + 1) := by
            rw [Int32.add_assoc, Int32.add_comm 1]
        _ = n + Int32.ofNat (rest.countP Swapped.succeeded + 1) := by
            rw [Int32.ofNat_add]
            rfl
    · have hs : ¬Swapped.succeeded (w, .ok (.integer n)) = true := fun h => hn (of_decide_eq_true h)
      rw [if_neg hs, ih hcalls.2, Swap.next, if_neg hn]
      rfl

end History

/-! ## Teams -/

/-- Workers with one store, and their calls in progress. -/
structure Team (ι : Type) where
  store : Store
  worker : ι → Worker
  swap? : ι → Option Swap

/-- What one of a team does. -/
inductive Move (ι : Type) where
  /-- A call starts. -/
  | find (i : ι) (args : List Value) (w : Swap)
  /-- A call is over. -/
  | swap (i : ι) (w : Swap) (a : Answer)
  /-- The number in the slot is read. -/
  | read (i : ι) (n : Int32)
  /-- Anything else. -/
  | other

/-- The swap of a slot that is over with a move. -/
def Move.swapped? {ι : Type} (b : BufferId) (address : ℕ) : Move ι → Option Swapped
  | .swap _ w a => if w.On b address then some (w, a) else none
  | _ => none

/-- The swaps of a slot, in the order in which they are over. -/
def swaps {ι : Type} (b : BufferId) (address : ℕ) (moves : List (Move ι)) : List Swapped :=
  moves.filterMap (·.swapped? b address)

namespace Team

variable {ι : Type} [DecidableEq ι] {b : BufferId} {address : ℕ} {t t' : Team ι}

/-- What one of the team sees. -/
def state (t : Team ι) (i : ι) : State := ⟨t.store, t.worker i⟩

/-- The team after one of it has done something. -/
def withState (t : Team ι) (i : ι) (s : State) (w : Option Swap) : Team ι :=
  ⟨s.store, update t.worker i s.worker, update t.swap? i w⟩

/-- One of a team does something. Only swaps change the number in the slot. -/
inductive Step (b : BufferId) (address : ℕ) : Team ι → Move ι → Team ι → Prop where
  | find {t : Team ι} {i : ι} {args : List Value} {w : Swap} {s : State} :
    t.swap? i = none → Swap.find args (t.state i) = (.ok w, s) →
    Step b address t (.find i args w) (t.withState i s (some w))
  | swap {t : Team ι} {i : ι} {w : Swap} {a : Answer} {s : State} :
    t.swap? i = some w → w.run (t.state i) = (a, s) →
    Step b address t (.swap i w a) (t.withState i s none)
  | read {t : Team ι} {i : ι} {n : Int32} {s : State} :
    Exec.slot b address (t.state i) = (.ok n, s) →
    Step b address t (.read i n) (t.withState i s (t.swap? i))
  | other {t t' : Team ι} : t'.swap? = t.swap? →
    t'.store.number? b address = t.store.number? b address → Step b address t .other t'

/-- A team does one thing after the other. -/
inductive Run (b : BufferId) (address : ℕ) : Team ι → List (Move ι) → Team ι → Prop where
  | nil (t : Team ι) : Run b address t [] t
  | cons {t t' t'' : Team ι} {move : Move ι} {moves : List (Move ι)} :
    t.Step b address move t' → Run b address t' moves t'' →
    Run b address t (move :: moves) t''

/-- A move leaves the number in the slot as it is, or it is the end of a swap. -/
theorem number?_of_step {move : Move ι} {n : Int32} (h : Step b address t move t')
    (hn : t.store.number? b address = some n) :
    move.swapped? b address = none ∧ t'.store.number? b address = some n ∨
      ∃ w, move.swapped? b address = some (w, .ok (.integer n)) ∧
        t'.store.number? b address = some (w.next n) := by
  cases h with
  | @find i args w s _ hfind =>
    rw [Swap.find_eq] at hfind
    split_ifs at hfind
    · cases hfind
      exact Or.inl ⟨rfl, hn⟩
    · cases hfind
  | @swap i w a s _ hrun =>
    have hnumber := w.number?_run (t.state i) b address
    rw [hrun] at hnumber
    by_cases hon : w.On b address
    · have ha := Swap.answer_run (s := t.state i) hon hn
      rw [hrun] at ha
      obtain rfl : a = .ok (.integer n) := ha
      refine Or.inr ⟨w, if_pos hon, ?_⟩
      rw [if_pos hon, show (t.state i).store.number? b address = some n from hn] at hnumber
      exact hnumber
    · rw [if_neg hon] at hnumber
      exact Or.inl ⟨if_neg hon, hnumber.trans hn⟩
  | @read i m s hread =>
    rw [Exec.slot_of_some (s := t.state i) hn] at hread
    cases hread
    exact Or.inl ⟨rfl, hn⟩
  | other _ hslot => exact Or.inl ⟨rfl, hslot.trans hn⟩

/-- **The swaps of a run are a history of the slot**, whatever was done in between. -/
theorem history_of_run {moves : List (Move ι)} {n : Int32} (h : Run b address t moves t')
    (hn : t.store.number? b address = some n) :
    ∃ last, t'.store.number? b address = some last ∧ History n (swaps b address moves) last := by
  induction h generalizing n with
  | nil t => exact ⟨n, hn, .nil n⟩
  | cons hstep _ ih =>
    rw [swaps]
    rcases number?_of_step hstep hn with ⟨hmove, hn'⟩ | ⟨w, hmove, hn'⟩
    · rw [List.filterMap_cons_none hmove]
      exact ih hn'
    · rw [List.filterMap_cons_some hmove]
      obtain ⟨last, hlast, hrest⟩ := ih hn'
      exact ⟨last, hlast, .cons hrest⟩

/-- **No update is lost.** A call of a worker is a look at the memory of its active domain and,
later, a swap. The swap answers with the number that is in its slot, changes that slot if and only
if it answers with the number that it expects, and changes no other slot. Let a team do anything in
any order from a team on in which `start` is in the slot, but for other changes of the slot. If all
calls expect `start` and have another new number, then one answers with `start`, and all after it
with the new number of that one. If the new number of each call is the one after the number that it
expects, then the number in the slot has moved on by the number of calls that have answered with
what they expect. -/
theorem swaps_lose_no_update (ι : Type) [DecidableEq ι] (b : BufferId) (address : ℕ) :
    (∀ args, Host.compareAndSwap args = Swap.find args >>= Swap.run) ∧
    (∀ (t t' : Team ι) (i : ι) (args : List Value) (w : Swap),
      t.Step b address (.find i args w) t' →
        t'.store = t.store ∧ w = ⟨t.store.memory? (t.worker i).activeDomain,
          (Host.argument args 0).toUInt32.toNat, (Host.argument args 1).toInt32,
          (Host.argument args 2).toInt32⟩) ∧
    (∀ (t t' : Team ι) (i : ι) (w : Swap) (a : Answer), t.Step b address (.swap i w a) t' →
      (∀ b' address', ¬w.On b' address' →
        t'.store.number? b' address' = t.store.number? b' address') ∧
      ∀ b' address' old, w.On b' address' → t.store.number? b' address' = some old →
        a = .ok (.integer old) ∧ (w.new ≠ w.expected →
          (t'.store.number? b' address' ≠ some old ↔ old = w.expected))) ∧
    ∀ (t t' : Team ι) (moves : List (Move ι)) (start : Int32),
      t.Run b address moves t' → t.store.number? b address = some start →
        ((∀ c ∈ swaps b address moves, c.1.expected = start ∧ c.1.new ≠ start) →
          swaps b address moves ≠ [] → ∃ w rest,
            swaps b address moves = (w, .ok (.integer start)) :: rest ∧ w.new ≠ start ∧
              ∀ c ∈ rest, c.2 = .ok (.integer w.new)) ∧
        ((∀ c ∈ swaps b address moves, c.1.new = c.1.expected + 1) →
          t'.store.number? b address =
            some (start + Int32.ofNat ((swaps b address moves).countP Swapped.succeeded))) := by
  refine ⟨Swap.compareAndSwap_eq_find_run, ?find, ?swap, ?run⟩
  case find =>
    intro t t' i args w hstep
    cases hstep with
    | find _ hfind =>
      rw [Swap.find_eq] at hfind
      split_ifs at hfind <;> cases hfind
      exact ⟨rfl, rfl⟩
  case swap =>
    intro t t' i w a hstep
    cases hstep with
    | @swap _ _ _ s _ hrun =>
    have hnumber := w.number?_run (t.state i)
    rw [hrun] at hnumber
    refine ⟨fun b' address' hoff => (hnumber b' address').trans (if_neg hoff), ?_⟩
    intro b' address' old hon hold
    have ha := Swap.answer_run (s := t.state i) hon hold
    rw [hrun] at ha
    refine ⟨ha, fun hne => ?_⟩
    have hafter : s.store.number? b' address' = some (w.next old) := by
      rw [hnumber, if_pos hon, show (t.state i).store.number? b' address' = some old from hold]
      rfl
    change s.store.number? b' address' ≠ some old ↔ old = w.expected
    rw [hafter, Ne, Option.some_inj, Swap.next]
    split_ifs with he
    · exact ⟨fun _ => he, fun _ => he ▸ hne⟩
    · simp [he]
  case run =>
    intro t t' moves start hrun hstart
    obtain ⟨last, hlast, hhistory⟩ := history_of_run hrun hstart
    refine ⟨fun hcalls hne => ?_, fun hcalls => ?_⟩
    · obtain ⟨w, rest, hswaps, hrest⟩ := hhistory.first_wins hcalls hne
      have hnew : w.new ≠ start := (hcalls _ (hswaps ▸ List.mem_cons_self)).2
      exact ⟨w, rest, hswaps, hnew, hrest⟩
    · rw [hlast, hhistory.last_eq hcalls]

/-- Two workers with one domain, whose memory is empty. -/
def pair : Team Bool where
  store := ⟨#[], #[.zeros 1024], #[⟨none, .empty, some ⟨0⟩⟩]⟩
  worker := fun _ => .idle .default ⟨0⟩ ⟨0⟩
  swap? := fun _ => none

/-- Both workers have read a zero and count it up at the same time. -/
def race : List (Move Bool) :=
  let args := [.integer 8, .integer 0, .integer 1]
  let w := ⟨some ⟨0⟩, 8, 0, 1⟩
  [.read true 0, .read false 0, .find true args w, .find false args w,
    .swap false w (.ok (.integer 0)), .swap true w (.ok (.integer 1))]

theorem swaps_lose_no_update_pair : ∃ t', pair.Run ⟨0⟩ 8 race t' ∧
    t'.store.number? ⟨0⟩ 8 = some 1 ∧ ∃ w rest,
      swaps ⟨0⟩ 8 race = (w, .ok (.integer 0)) :: rest ∧ w.new ≠ 0 ∧
        ∀ c ∈ rest, c.2 = .ok (.integer w.new) := by
  have hrun : ∃ t', pair.Run ⟨0⟩ 8 race t' :=
    ⟨_, .cons (.read rfl) (.cons (.read rfl) (.cons (.find rfl rfl) (.cons (.find rfl rfl)
      (.cons (.swap rfl rfl) (.cons (.swap rfl rfl) (.nil _))))))⟩
  obtain ⟨t', hrun⟩ := hrun
  obtain ⟨hwins, hcounts⟩ :=
    (swaps_lose_no_update Bool ⟨0⟩ 8).2.2.2 pair t' race 0 hrun (by decide)
  exact ⟨t', hrun, hcounts (by decide), hwins (by decide) (by decide)⟩

end Team

end ActionVm
