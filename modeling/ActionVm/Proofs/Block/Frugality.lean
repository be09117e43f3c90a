import ActionVm.Proofs.Block.Layout

/-!
# Frugal reads

A read is frugal if its answer rests on the bytes that it takes and on no others: whatever follows
them it answers the same, and where only a part of them is left it fails for want of the rest.

* `DecodeError.IsShort`: the errors that say that bytes are missing;
* `Read.Spends`: a read of certain bytes, wherever they end;
* `Read.Frugal`, `Frugal.bind` and the like: frugal reads and how they are put together;
* **`frugal_readRecord`**: a record is read frugally, its operands and its body included;
* `spends_readRecord`: the bytes that it takes are those between its offset and its end.
-/

namespace ActionVm

/-- The bytes end before what they announce. -/
def DecodeError.IsShort : DecodeError → Prop
  | unexpectedEnd .. | truncated .. => True
  | _ => False

namespace Read

variable {α β : Type}

/-- From the given place on the read answers `a` for exactly the given bytes, whatever follows
them, and fails where only a part of them is left. -/
structure Spends (x : Read α) (position base : ℕ) (bytes : List UInt8) (a : α) : Prop where
  gives : ∀ rest,
    Gives x ⟨bytes ++ rest, position, base⟩ a ⟨rest, position + bytes.length, base⟩
  short : ∀ k < bytes.length, ∃ e, Fails x ⟨bytes.take k, position, base⟩ e ∧ e.IsShort

theorem spends_pure (a : α) (position base : ℕ) : Spends (pure a) position base [] a :=
  ⟨fun _ => gives_pure.mpr ⟨rfl, rfl⟩, fun _ h => absurd h (Nat.not_lt_zero _)⟩

theorem Spends.bind {x : Read α} {f : α → Read β} {position base : ℕ} {u v : List UInt8} {a : α}
    {b : β} (hx : Spends x position base u a) (hf : Spends (f a) (position + u.length) base v b) :
    Spends (x >>= f) position base (u ++ v) b where
  gives rest := by
    rw [List.append_assoc, List.length_append, ← Nat.add_assoc]
    exact gives_bind.mpr ⟨a, _, hx.gives _, hf.gives rest⟩
  short k hk := by
    rw [List.length_append] at hk
    rcases Nat.lt_or_ge k u.length with h | h
    -- the bytes end within those of the first read, or after them
    · obtain ⟨e, he, hs⟩ := hx.short k h
      rw [List.take_append_of_le_length h.le]
      exact ⟨e, he.bind f, hs⟩
    · obtain ⟨e, he, hs⟩ := hf.short (k - u.length) (by omega)
      rw [List.take_append, List.take_of_length_le h]
      exact ⟨e, (hx.gives _).bind_fails he, hs⟩

/-- Whenever the read answers, it does so for the bytes that it takes and for no others. -/
def Frugal (x : Read α) : Prop :=
  ∀ r a r', Gives x r a r' → ∃ bytes, r.rest = bytes ++ r'.rest ∧
    r' = r.past bytes.length r'.rest ∧ Spends x r.position r.base bytes a

theorem frugal_pure (a : α) : Frugal (pure a : Read α) := by
  intro r b r' h
  obtain ⟨rfl, rfl⟩ := gives_pure.mp h
  exact ⟨[], rfl, rfl, spends_pure a _ _⟩

theorem frugal_throw (e : DecodeError) : Frugal (throw e : Read α) :=
  fun _ _ _ h => absurd h not_gives_throw

theorem Frugal.bind {x : Read α} {f : α → Read β} (hx : Frugal x) (hf : ∀ a, Frugal (f a)) :
    Frugal (x >>= f) := by
  intro r b r' h
  obtain ⟨a, m, ha, hb⟩ := gives_bind.mp h
  obtain ⟨u, hu, hm, hsu⟩ := hx _ _ _ ha
  obtain ⟨v, hv, hr', hsv⟩ := hf a _ _ _ hb
  rw [hm] at hsv
  refine ⟨u ++ v, ?_, ?_, hsu.bind hsv⟩
  · rw [hu, hv, List.append_assoc]
  · rw [hr', hm]
    simp [Reader.past, Nat.add_assoc]

/-- To ask for the place and nothing else costs no bytes. -/
theorem frugal_get_bind {f : Reader → Read α} (hf : ∀ q, Frugal (f q))
    (h : ∀ q q', q.position = q'.position → q.base = q'.base → f q = f q') :
    Frugal (get >>= f) := by
  intro r a r' hr
  obtain ⟨_, _, hget, hr⟩ := gives_bind.mp hr
  obtain ⟨rfl, rfl⟩ := gives_get.mp hget
  obtain ⟨bytes, hrest, hr', hs⟩ := hf r _ _ _ hr
  have hq : ∀ rest, f ⟨rest, r.position, r.base⟩ = f r := fun rest => h _ _ rfl rfl
  refine ⟨bytes, hrest, hr', fun rest => ?_, fun k hk => ?_⟩
  · exact gives_bind.mpr ⟨_, _, gives_get.mpr ⟨rfl, rfl⟩, hq _ ▸ hs.gives rest⟩
  · obtain ⟨e, he, hshort⟩ := hs.short k hk
    exact ⟨e, (gives_get.mpr ⟨rfl, rfl⟩).bind_fails (hq _ ▸ he), hshort⟩

theorem frugal_ofExcept (x : Except DecodeError α) : Frugal (liftM x : Read α) := by
  cases x with
  | error e => exact frugal_throw e
  | ok a => exact frugal_pure a

theorem frugal_take (n : ℕ) : Frugal (take n) := by
  intro r l r' h
  obtain ⟨rfl, rest, hr, rfl⟩ := gives_take.mp h
  refine ⟨l, hr, rfl, fun rest => gives_take.mpr ⟨rfl, rest, rfl, rfl⟩, fun k hk => ?_⟩
  refine ⟨_, (fails_need ?_).bind _, trivial⟩
  rw [List.length_take]
  omega

theorem frugal_u8 : Frugal u8 := (frugal_take 1).bind fun l => by
  split <;> exact frugal_pure _

theorem frugal_u16 : Frugal u16 := (frugal_take 2).bind fun l => by
  split <;> exact frugal_pure _

end Read

open Read

/-! ## Records -/

variable {decode : Option (Reader → Except DecodeError Block)}

theorem frugal_readLength (code : UInt8) : Frugal (readLength code) := by
  unfold readLength
  split
  · exact frugal_u16
  · exact frugal_pure 0

theorem frugal_readSpan (code : UInt8) (start n : ℕ) : Frugal (readSpan code start n) := by
  intro r q r' h
  obtain ⟨hn, rfl, rfl⟩ := gives_readSpan.mp h
  have hl : (r.rest.take n).length = n := List.length_take_of_le hn
  refine ⟨r.rest.take n, (List.take_append_drop n r.rest).symm, ?_, fun rest => ?_, fun k hk => ?_⟩
  · rw [hl]
    rfl
  · refine gives_readSpan.mpr ⟨?_, ?_, ?_⟩
    · rw [List.length_append, hl]
      exact Nat.le_add_right _ _
    · rw [Reader.sub, Reader.sub, List.take_left' hl]
      rfl
    · rw [Reader.skip, List.drop_left' hl, hl]
  · refine ⟨_, fails_readSpan ?_, trivial⟩
    rw [List.length_take]
    omega

theorem frugal_readBody (code : UInt8) (start : ℕ) (x : Operands) :
    Frugal (readBody decode code start x) := by
  rcases x with action | ⟨size, action⟩
  · exact frugal_pure action
  · rcases decode with _ | f
    · exact frugal_throw _
    · exact (frugal_readSpan code start _).bind fun _ =>
        (frugal_ofExcept _).bind fun b => frugal_pure (action b)

-- operands and bodies are decoded from spans of their own, which any cut leaves whole or misses
theorem frugal_readAction (code : UInt8) (start : ℕ) : Frugal (readAction decode code start) :=
  (frugal_readLength code).bind fun _ => (frugal_readSpan code start _).bind fun _ =>
    (frugal_ofExcept _).bind fun x => frugal_readBody code start x

/-- **A record is read frugally.** -/
theorem frugal_readRecord : Frugal (readRecord decode) := by
  refine frugal_get_bind (fun q => frugal_u8.bind fun code => ?_) fun q q' hp hb => ?_
  · split
    · exact frugal_pure none
    · refine (frugal_readAction code q.place).bind fun a =>
        frugal_get_bind (fun _ => frugal_pure _) fun q q' hp _ => ?_
      rw [hp]
  · rw [Reader.place, Reader.place, hp, hb]

theorem Reader.in_span (r : Reader) : r.In (List.replicate r.position 0 ++ r.rest) :=
  ⟨by rw [List.drop_left' List.length_replicate], by simp⟩

/-- A record takes as many bytes as it says. -/
theorem spends_readRecord {r m : Reader} {x : Record} (h : Gives (readRecord decode) r (some x) m) :
    x.offset = r.position ∧ 0 < x.size ∧ ∃ bytes, bytes.length = x.size ∧
      r.rest = bytes ++ m.rest ∧ m = r.past x.size m.rest ∧
      Spends (readRecord decode) r.position r.base bytes (some x) := by
  obtain ⟨ho, hx, -, hfin⟩ := readRecord_some r.in_span h
  obtain ⟨bytes, hr, hm, hs⟩ := frugal_readRecord _ _ _ h
  have hpos := hx.offset_lt_finish
  rw [Placed.finish] at hpos hfin
  have hl : bytes.length = x.size := by
    have : m.position = r.position + bytes.length := by rw [hm]; rfl
    omega
  exact ⟨ho, by omega, bytes, hl, hr, hl ▸ hm, hs⟩

theorem rest_of_readRecord_none {r m : Reader} (h : Gives (readRecord decode) r none m) :
    ∃ rest, r.rest = 0 :: rest := by
  have hz := (readRecord_none r.in_span h).1
  rw [List.getElem?_append_right (by simp), List.length_replicate, Nat.sub_self] at hz
  rcases hr : r.rest with _ | ⟨code, rest⟩
  · rw [hr] at hz
    cases hz
  · rw [hr] at hz
    cases hz
    exact ⟨rest, rfl⟩

end ActionVm
