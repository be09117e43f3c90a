import ActionVm.Reader
import Mathlib.Data.List.Basic
import Mathlib.Data.List.TakeWhile
import Mathlib.Logic.Function.Iterate

/-!
# What reads answer

What a read answers and where it leaves the reader, read by read, and how it fails.

* `Read.Gives`: at a reader the read answers, and leaves the reader elsewhere;
* `gives_bind` and the like: how reads are put together;
* `Read.Fails`, `Read.Refuses`: at a reader the read fails, or fails without moving it;
* `gives_u16`, `gives_cstr` and the like: each read in terms of the bytes that are left;
* **`gives_times`**: what a repeated read leaves is what the single read leaves, time after time.
-/

namespace ActionVm

/-- The reader after `n` bytes, with `rest` left. -/
def Reader.past (r : Reader) (n : Nat) (rest : List UInt8) : Reader :=
  ⟨rest, r.position + n, r.base⟩

namespace Read

variable {α β : Type}

/-- At `r` the read answers `a`, and it leaves the reader at `r'`. -/
def Gives (x : Read α) (r : Reader) (a : α) (r' : Reader) : Prop := x.run.run r = (.ok a, r')

/-! ## Putting reads together -/

theorem gives_pure {a b : α} {r r' : Reader} : Gives (pure a) r b r' ↔ a = b ∧ r = r' := by
  constructor
  · intro h; cases h; exact ⟨rfl, rfl⟩
  · rintro ⟨rfl, rfl⟩; rfl

theorem gives_bind {x : Read α} {f : α → Read β} {r r' : Reader} {b : β} :
    Gives (x >>= f) r b r' ↔ ∃ a m, Gives x r a m ∧ Gives (f a) m b r' := by
  unfold Gives
  rw [ExceptT.run_bind, StateT.run_bind]
  rcases hx : StateT.run (ExceptT.run x) r with ⟨e | a, m⟩
  · constructor
    · intro h; cases h
    · rintro ⟨_, _, h, -⟩; cases h
  · constructor
    · intro h; exact ⟨a, m, rfl, h⟩
    · rintro ⟨_, _, ⟨⟩, h⟩; exact h

theorem gives_get {r a r' : Reader} : Gives get r a r' ↔ r = a ∧ r = r' := by
  constructor
  · intro h; cases h; exact ⟨rfl, rfl⟩
  · rintro ⟨rfl, rfl⟩; rfl

theorem gives_set {q r r' : Reader} {u : PUnit} : Gives (set q) r u r' ↔ q = r' := by
  constructor
  · intro h; cases h; rfl
  · rintro rfl; rfl

theorem not_gives_throw {e : DecodeError} {r r' : Reader} {a : α} :
    ¬ Gives (throw e) r a r' := by
  intro h; cases h

theorem gives_ofExcept {x : Except DecodeError α} {r r' : Reader} {a : α} :
    Gives (liftM x) r a r' ↔ x = .ok a ∧ r = r' := by
  cases x with
  | error e =>
    constructor
    · intro h; cases h
    · rintro ⟨h, -⟩; cases h
  | ok b =>
    constructor
    · intro h; cases h; exact ⟨rfl, rfl⟩
    · rintro ⟨h, rfl⟩; cases h; rfl

/-- The answer alone is that of a read which gives it. -/
theorem run_eq_ok_iff {x : Read α} {r : Reader} {a : α} :
    (x.run.run r).1 = .ok a ↔ ∃ r', Gives x r a r' := by
  constructor
  · intro h; exact ⟨(x.run.run r).2, Prod.ext h rfl⟩
  · rintro ⟨r', h⟩; rw [h]

theorem Gives.map {x : Read α} {r r' : Reader} {a : α} (h : Gives x r a r') (f : α → β) :
    Gives (do return f (← x)) r (f a) r' :=
  gives_bind.mpr ⟨a, r', h, gives_pure.mpr ⟨rfl, rfl⟩⟩

theorem Gives.run_bind {x : Read α} {f : α → Read β} {r m : Reader} {a : α} (h : Gives x r a m) :
    (x >>= f).run.run r = (f a).run.run m := by
  unfold Gives at h
  rw [ExceptT.run_bind, StateT.run_bind, h]
  rfl

/-! ## Failing -/

/-- At `r` the read fails with `e`. -/
def Fails (x : Read α) (r : Reader) (e : DecodeError) : Prop := (x.run.run r).1 = .error e

theorem gives_or_fails (x : Read α) (r : Reader) :
    (∃ a r', Gives x r a r') ∨ ∃ e, Fails x r e := by
  rcases h : x.run.run r with ⟨e | a, r'⟩
  · exact Or.inr ⟨e, congrArg Prod.fst h⟩
  · exact Or.inl ⟨a, r', h⟩

theorem fails_throw {e : DecodeError} {r : Reader} : Fails (throw e : Read α) r e := rfl

theorem Fails.bind {x : Read α} {r : Reader} {e : DecodeError} (h : Fails x r e)
    (f : α → Read β) : Fails (x >>= f) r e := by
  unfold Fails at h ⊢
  rw [ExceptT.run_bind, StateT.run_bind]
  rcases hx : StateT.run (ExceptT.run x) r with ⟨e' | a, m⟩
  · rw [hx] at h
    cases h
    rfl
  · rw [hx] at h
    cases h

theorem Gives.bind_fails {x : Read α} {f : α → Read β} {r m : Reader} {a : α} {e : DecodeError}
    (h : Gives x r a m) (hf : Fails (f a) m e) : Fails (x >>= f) r e := by
  unfold Fails at hf ⊢
  rw [h.run_bind, hf]

/-- At `r` the read fails with `e`, and it leaves the reader where it is. -/
def Refuses (x : Read α) (r : Reader) (e : DecodeError) : Prop := x.run.run r = (.error e, r)

theorem Refuses.fails {x : Read α} {r : Reader} {e : DecodeError} (h : Refuses x r e) :
    Fails x r e := congrArg Prod.fst h

theorem refuses_throw {e : DecodeError} {r : Reader} : Refuses (throw e : Read α) r e := rfl

theorem Refuses.bind {x : Read α} {r : Reader} {e : DecodeError} (h : Refuses x r e)
    (f : α → Read β) : Refuses (x >>= f) r e := by
  unfold Refuses at h ⊢
  rw [ExceptT.run_bind, StateT.run_bind, h]
  rfl

/-- A question that does not move the reader does not matter to where it is left. -/
theorem Gives.bind_refuses {x : Read α} {f : α → Read β} {r : Reader} {a : α} {e : DecodeError}
    (h : Gives x r a r) (hf : Refuses (f a) r e) : Refuses (x >>= f) r e := by
  unfold Refuses at hf ⊢
  rw [h.run_bind, hf]

/-! ## Bytes and words -/

theorem gives_need {n : Nat} {r r' : Reader} {u : Unit} :
    Gives (need n) r u r' ↔ n ≤ r.rest.length ∧ r = r' := by
  unfold need
  rw [gives_bind]
  simp only [gives_get]
  constructor
  · rintro ⟨_, _, ⟨rfl, rfl⟩, h⟩
    split at h
    · next hn => exact ⟨hasAtLeast_iff.mp hn, (gives_pure.mp h).2⟩
    · exact absurd h not_gives_throw
  · rintro ⟨hn, rfl⟩
    refine ⟨_, _, ⟨rfl, rfl⟩, ?_⟩
    rw [if_pos (hasAtLeast_iff.mpr hn)]
    exact gives_pure.mpr ⟨rfl, rfl⟩

theorem refuses_need {n : Nat} {r : Reader} (h : r.rest.length < n) :
    Refuses (need n) r (.unexpectedEnd r.place n r.remaining) := by
  refine (gives_get.mpr ⟨rfl, rfl⟩).bind_refuses ?_
  rw [if_neg (by rw [hasAtLeast_iff]; omega)]
  exact refuses_throw

theorem fails_need {n : Nat} {r : Reader} (h : r.rest.length < n) :
    Fails (need n) r (.unexpectedEnd r.place n r.remaining) := (refuses_need h).fails

/-- The bytes that are taken stand before those that are left. -/
theorem gives_take {n : Nat} {r r' : Reader} {l : List UInt8} :
    Gives (take n) r l r' ↔
      l.length = n ∧ ∃ rest, r.rest = l ++ rest ∧ r' = r.past l.length rest := by
  simp only [take, gives_bind, gives_need, gives_get, gives_set, gives_pure]
  constructor
  · rintro ⟨_, _, ⟨hn, rfl⟩, _, _, ⟨rfl, rfl⟩, _, _, rfl, rfl, rfl⟩
    have hl : (r.rest.take n).length = n := List.length_take_of_le hn
    refine ⟨hl, r.rest.drop n, (List.take_append_drop n r.rest).symm, ?_⟩
    rw [hl]
    rfl
  · rintro ⟨rfl, rest, hr, rfl⟩
    refine ⟨(), r, ⟨?_, rfl⟩, r, r, ⟨rfl, rfl⟩, ⟨⟩, _, rfl, ?_, ?_⟩
    · rw [hr, List.length_append]
      exact Nat.le_add_right _ _
    · rw [hr, List.take_left]
    · rw [Reader.skip, hr, List.drop_left]
      rfl

theorem gives_take_of_le {n : Nat} {r : Reader} (h : n ≤ r.rest.length) :
    Gives (take n) r (r.rest.take n) (r.skip n) := by
  have hl : (r.rest.take n).length = n := List.length_take_of_le h
  refine gives_take.mpr ⟨hl, r.rest.drop n, (List.take_append_drop n r.rest).symm, ?_⟩
  rw [hl]
  rfl

/-- Bytes that are there are taken, and what is made of them afterwards always answers. -/
theorem exists_gives_take_bind {n : Nat} {r : Reader} {f : List UInt8 → Read α}
    (h : n ≤ r.rest.length) (hf : ∀ l m, ∃ a, Gives (f l) m a m) :
    ∃ a, Gives (take n >>= f) r a (r.skip n) := by
  obtain ⟨a, ha⟩ := hf (r.rest.take n) (r.skip n)
  exact ⟨a, gives_bind.mpr ⟨_, _, gives_take_of_le h, ha⟩⟩

theorem refuses_take {n : Nat} {r : Reader} (h : r.rest.length < n) :
    Refuses (take n) r (.unexpectedEnd r.place n r.remaining) := (refuses_need h).bind _

theorem gives_sub {n : Nat} {r q r' : Reader} :
    Gives (Read.sub n) r q r' ↔ n ≤ r.rest.length ∧ q = r.sub n ∧ r' = r.skip n := by
  simp only [Read.sub, gives_bind, gives_need, gives_get, gives_set, gives_pure]
  constructor
  · rintro ⟨_, _, ⟨rfl, rfl⟩, _, _, ⟨hn, rfl⟩, _, _, rfl, rfl, rfl⟩
    exact ⟨hn, rfl, rfl⟩
  · rintro ⟨hn, rfl, rfl⟩
    exact ⟨_, _, ⟨rfl, rfl⟩, (), _, ⟨hn, rfl⟩, ⟨⟩, _, rfl, rfl, rfl⟩

theorem gives_u8 {r r' : Reader} {a : UInt8} :
    Gives u8 r a r' ↔ ∃ rest, r.rest = a :: rest ∧ r' = r.past 1 rest := by
  simp only [u8, gives_bind, gives_take]
  constructor
  · rintro ⟨l, _, ⟨hl, rest, hr, rfl⟩, h⟩
    obtain ⟨b, rfl⟩ := List.length_eq_one_iff.mp hl
    obtain ⟨rfl, rfl⟩ := gives_pure.mp h
    exact ⟨rest, hr, rfl⟩
  · rintro ⟨rest, hr, rfl⟩
    exact ⟨[a], _, ⟨rfl, rest, hr, rfl⟩, gives_pure.mpr ⟨rfl, rfl⟩⟩

theorem exists_gives_u8 {r : Reader} (h : 1 ≤ r.rest.length) : ∃ a, Gives u8 r a (r.skip 1) :=
  exists_gives_take_bind h fun l m => by split <;> exact ⟨_, gives_pure.mpr ⟨rfl, rfl⟩⟩

theorem gives_u16 {r r' : Reader} {w : UInt16} :
    Gives u16 r w r' ↔
      ∃ a b rest, r.rest = a :: b :: rest ∧ w = Word.of16 a b ∧ r' = r.past 2 rest := by
  simp only [u16, gives_bind, gives_take]
  constructor
  · rintro ⟨l, _, ⟨hl, rest, hr, rfl⟩, h⟩
    obtain ⟨a, b, rfl⟩ := List.length_eq_two.mp hl
    obtain ⟨rfl, rfl⟩ := gives_pure.mp h
    exact ⟨a, b, rest, hr, rfl, rfl⟩
  · rintro ⟨a, b, rest, hr, rfl, rfl⟩
    exact ⟨[a, b], _, ⟨rfl, rest, hr, rfl⟩, gives_pure.mpr ⟨rfl, rfl⟩⟩

theorem exists_gives_u16 {r : Reader} (h : 2 ≤ r.rest.length) : ∃ w, Gives u16 r w (r.skip 2) :=
  exists_gives_take_bind h fun l m => by split <;> exact ⟨_, gives_pure.mpr ⟨rfl, rfl⟩⟩

theorem gives_u32 {r r' : Reader} {w : UInt32} :
    Gives u32 r w r' ↔ ∃ a b c d rest, r.rest = a :: b :: c :: d :: rest ∧
      w = Word.of32 a b c d ∧ r' = r.past 4 rest := by
  simp only [u32, gives_bind, gives_take]
  constructor
  · rintro ⟨l, _, ⟨hl, rest, hr, rfl⟩, h⟩
    obtain ⟨a, b, c, d, rfl⟩ : ∃ a b c d, l = [a, b, c, d] := by
      rcases l with _ | ⟨a, l⟩
      · cases hl
      · obtain ⟨b, c, d, rfl⟩ := List.length_eq_three.mp (Nat.succ.inj hl)
        exact ⟨a, b, c, d, rfl⟩
    obtain ⟨rfl, rfl⟩ := gives_pure.mp h
    exact ⟨a, b, c, d, rest, hr, rfl, rfl⟩
  · rintro ⟨a, b, c, d, rest, hr, rfl, rfl⟩
    exact ⟨[a, b, c, d], _, ⟨rfl, rest, hr, rfl⟩, gives_pure.mpr ⟨rfl, rfl⟩⟩

theorem exists_gives_u32 {r : Reader} (h : 4 ≤ r.rest.length) : ∃ w, Gives u32 r w (r.skip 4) :=
  exists_gives_take_bind h fun l m => by split <;> exact ⟨_, gives_pure.mpr ⟨rfl, rfl⟩⟩

/-! ## Strings and repetition -/

/-- The bytes up to the first zero byte are those before any zero byte that follows none. -/
theorem takeWhile_ne_zero {text rest : List UInt8} (ht : 0 ∉ text) :
    (text ++ 0 :: rest).takeWhile (· ≠ 0) = text := by
  rw [List.takeWhile_append_of_pos fun b hb => by simpa using fun h : b = 0 => ht (h ▸ hb)]
  simp

/-- Bytes are their part before the first zero byte, that byte, and a rest, if that part is not
everything. -/
theorem exists_eq_takeWhile_append (l : List UInt8)
    (h : l.drop (l.takeWhile (· ≠ 0)).length ≠ []) :
    ∃ rest, l = l.takeWhile (· ≠ 0) ++ 0 :: rest := by
  induction l with
  | nil => exact absurd rfl h
  | cons b l ih =>
    by_cases hb : b = 0
    · exact ⟨l, by simp [hb]⟩
    · simp only [List.takeWhile_cons, hb, ne_eq, not_false_eq_true, decide_true, if_true,
        List.length_cons, List.drop_succ_cons] at h ih ⊢
      obtain ⟨rest, hrest⟩ := ih h
      exact ⟨rest, congrArg (b :: ·) hrest⟩

theorem gives_cstr {r r' : Reader} {s : String} :
    Gives cstr r s r' ↔ ∃ text rest, r.rest = text ++ 0 :: rest ∧ 0 ∉ text ∧
      s = Utf8.repair text ∧ r' = r.past (text.length + 1) rest := by
  have hskip : ∀ {text rest : List UInt8}, r.rest = text ++ 0 :: rest →
      r.skip (text.length + 1) = r.past (text.length + 1) rest := by
    intro text rest hr
    simp [Reader.skip, Reader.past, hr, List.drop_append]
  simp only [cstr, gives_bind, gives_get]
  constructor
  · rintro ⟨_, _, ⟨rfl, rfl⟩, h⟩
    split at h
    · simp only [gives_bind, not_gives_throw, false_and, exists_false] at h
    · next he =>
      simp only [gives_bind, gives_pure, gives_set] at h
      obtain ⟨_, _, rfl, rfl, rfl⟩ := h
      obtain ⟨rest, hrest⟩ := exists_eq_takeWhile_append r.rest (by simpa using he)
      exact ⟨_, rest, hrest, fun h => by simpa using List.mem_takeWhile_imp h, rfl, hskip hrest⟩
  · rintro ⟨text, rest, hr, ht, rfl, rfl⟩
    refine ⟨_, _, ⟨rfl, rfl⟩, ?_⟩
    rw [hr, takeWhile_ne_zero ht, if_neg (by simp), gives_bind]
    exact ⟨⟨⟩, _, gives_set.mpr rfl, gives_pure.mpr ⟨rfl, hskip hr⟩⟩

theorem refuses_cstr {r : Reader} (h : 0 ∉ r.rest) :
    Refuses cstr r (.unterminatedString r.place) := by
  have hall : r.rest.takeWhile (· ≠ 0) = r.rest :=
    List.takeWhile_eq_self_iff.mpr fun b hb => by simpa using fun hz : b = 0 => h (hz ▸ hb)
  refine (gives_get.mpr ⟨rfl, rfl⟩).bind_refuses ?_
  dsimp only
  rw [hall, List.drop_length, if_pos List.isEmpty_nil]
  exact refuses_throw.bind _

/-- What is left after repeated reads, where `f` tells what one read leaves. -/
theorem gives_timesAfter {read : Read α} {f : List UInt8 → List UInt8}
    (hf : ∀ r a r', Gives read r a r' → r'.rest = f r.rest) (n : Nat) :
    ∀ {done l : List α} {r r' : Reader}, Gives (timesAfter read done n) r l r' →
      r'.rest = f^[n] r.rest := by
  induction n with
  | zero =>
    intro done l r r' h
    rw [(gives_pure.mp h).2]
    rfl
  | succ n ih =>
    intro done l r r' h
    obtain ⟨a, m, ha, hn⟩ := gives_bind.mp h
    rw [ih hn, hf r a m ha, Function.iterate_succ_apply]

/-- **What is left after a read is repeated** is what one read leaves, time after time. -/
theorem gives_times {read : Read α} {f : List UInt8 → List UInt8}
    (hf : ∀ r a r', Gives read r a r' → r'.rest = f r.rest) {n : Nat} {l : List α}
    {r r' : Reader} (h : Gives (times read n) r l r') : r'.rest = f^[n] r.rest :=
  gives_timesAfter hf n h

end Read

end ActionVm
