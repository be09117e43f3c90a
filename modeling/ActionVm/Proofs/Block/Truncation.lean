import ActionVm.Proofs.Block.Chain
import ActionVm.Proofs.Block.Landing

/-!
# Truncated streams

The first bytes of a stream decode to the first of its records, or they are refused because bytes
are missing. No part of a record is ever taken for a record.

* `Reader.upTo`: the reader in a span that ends early;
* `Chain.upTo`: the part of the span holds all records of a chain, or ends before or within one;
* `CutAt`, `cutAt_of_decodeActions`: what the first bytes of a stream decode to;
* **`decodeActions_take`**: they decode to records of the stream, exactly if they end between two of
  them or at its end, and else to an error that says that bytes are missing.
-/

namespace ActionVm

open Read

variable {decode : Option (Reader → Except DecodeError Block)} {n : ℕ}

/-- The reader in the part of its span up to place `n`. -/
def Reader.upTo (n : ℕ) (r : Reader) : Reader := r.withRest (r.rest.take (n - r.position))

section

variable {r m r' : Reader} {x : Record} {l : List Record}

theorem gives_readRecord_upTo (h : Gives (readRecord decode) r (some x) m) (hn : x.finish ≤ n) :
    Gives (readRecord decode) (r.upTo n) (some x) (m.upTo n) := by
  obtain ⟨ho, -, bytes, hl, hr, hm, hs⟩ := spends_readRecord h
  rw [Placed.finish, ho] at hn
  have hg := hs.gives (m.rest.take (n - r.position - x.size))
  have htake : r.rest.take (n - r.position) =
      bytes ++ m.rest.take (n - r.position - x.size) := by
    rw [hr, List.take_append, List.take_of_length_le (by omega), hl]
  have hm' : m.upTo n =
      ⟨m.rest.take (n - r.position - x.size), r.position + bytes.length, r.base⟩ := by
    rw [hm, hl, Nat.sub_sub]
    rfl
  rw [hm', Reader.upTo, htake]
  exact hg

theorem closes_upTo_offset (h : Gives (readRecord decode) r (some x) m) :
    Closes decode (r.upTo x.offset) (.ok x.offset) := by
  have ho := (spends_readRecord h).1
  have hc : Closes decode (r.upTo x.offset) (.ok (r.upTo x.offset).position) :=
    .finish (by rw [Reader.upTo, ho, Nat.sub_self]; rfl)
  exact ho ▸ hc

/-- A record of which only a part is there is an error. -/
theorem closes_upTo_within (h : Gives (readRecord decode) r (some x) m) (ho : x.offset < n)
    (hn : n < x.finish) : ∃ e, Closes decode (r.upTo n) (.error e) ∧ e.IsShort := by
  obtain ⟨hp, -, bytes, hl, hr, hm, hs⟩ := spends_readRecord h
  rw [Placed.finish] at hn
  have hk : n - r.position < bytes.length := by omega
  obtain ⟨e, he, hshort⟩ := hs.short _ hk
  have hcut : r.upTo n = ⟨bytes.take (n - r.position), r.position, r.base⟩ := by
    rw [Reader.upTo, hr, List.take_append_of_le_length hk.le]
    rfl
  rw [hcut]
  refine ⟨e, .error (List.ne_nil_of_length_pos ?_) he, hshort⟩
  rw [List.length_take]
  omega

theorem Closes.upTo (h : Closes decode r (.ok r.position)) (n : ℕ) :
    Closes decode (r.upTo n) (.ok r.position) := by
  rcases h with hr | ⟨hr⟩
  · exact .finish (by rw [Reader.upTo, hr, List.take_nil]; rfl)
  · rcases hk : n - r.position with _ | k
    · exact .finish (by rw [Reader.upTo, hk]; rfl)
    · exact .zero (by rw [Reader.upTo, hr, hk]; rfl)

/-- A part of the span holds all records of a chain, or it ends before or within one of them. -/
theorem Chain.upTo (h : Chain decode r l r') (hn : r.position ≤ n) :
    r'.position ≤ n ∧ Chain decode (r.upTo n) l (r'.upTo n) ∨
      ∃ l₁ x l₂ m m', l = l₁ ++ x :: l₂ ∧ Chain decode (r.upTo n) l₁ (m.upTo n) ∧
        Gives (readRecord decode) m (some x) m' ∧ x.offset ≤ n ∧ n < x.finish := by
  induction h with
  | nil r => exact Or.inl ⟨hn, .nil _⟩
  | @cons r m r' x l hx _ ih =>
    obtain ⟨ho, -, -, -, -, hm, -⟩ := spends_readRecord hx
    have hpos : m.position = x.finish := by rw [hm, Placed.finish, ho]; rfl
    rcases Nat.lt_or_ge n x.finish with hlt | hle
    · exact Or.inr ⟨[], x, l, r, m, rfl, .nil _, hx, ho ▸ hn, hlt⟩
    · have hcut := gives_readRecord_upTo hx hle
      rcases ih (hpos ▸ hle) with ⟨hr', hc⟩ | ⟨l₁, y, l₂, q, q', rfl, hc, hy⟩
      · exact Or.inl ⟨hr', .cons hcut hc⟩
      · exact Or.inr ⟨x :: l₁, y, l₂, q, q', rfl, .cons hcut hc, hy⟩

end

/-- What the first `n` bytes of a stream with the block `b` decode to. -/
inductive CutAt (b : Block) (n : ℕ) : Except DecodeError Block → Prop
  | whole : b.byteLength ≤ n → CutAt b n (.ok b)
  | before {l₁ l₂ : List Record} {x : Record} : b.records = l₁ ++ x :: l₂ → x.offset = n →
    CutAt b n (.ok ⟨l₁, n⟩)
  | within {l₁ l₂ : List Record} {x : Record} {e : DecodeError} : b.records = l₁ ++ x :: l₂ →
    x.offset < n → n < x.finish → e.IsShort → CutAt b n (.error e)

theorem cutAt_of_decodeActions {s : List UInt8} {b : Block} (h : decodeActions s = .ok b) (n : ℕ) :
    CutAt b n (decodeActions (s.take n)) := by
  obtain ⟨r', hl, hlen, hc⟩ := exists_chain_of_decodeActions h
  rcases hl.upTo (Nat.zero_le n) with ⟨hn, hcut⟩ | ⟨l₁, x, l₂, m, m', hrec, hcut, hx, ho, hf⟩
  · have ha : decodeActions (s.take n) = .ok ⟨b.records, r'.position⟩ := (hc.upTo n).answer hcut
    rw [ha, ← hlen]
    exact .whole (hlen ▸ hn)
  · rcases Nat.eq_or_lt_of_le ho with rfl | hlt
    · have ha : decodeActions (s.take x.offset) = .ok ⟨l₁, x.offset⟩ :=
        (closes_upTo_offset hx).answer hcut
      rw [ha]
      exact .before hrec rfl
    · obtain ⟨e, hc, hs⟩ := closes_upTo_within hx hlt hf
      have ha : decodeActions (s.take n) = .error e := hc.answer hcut
      rw [ha]
      exact .within hrec hlt hf hs

/-- No record of a decoded stream starts inside another one. -/
theorem offset_ne_of_within {s : List UInt8} {b : Block} (h : decodeActions s = .ok b)
    {l₁ l₂ : List Record} {x y : Record} (hrec : b.records = l₁ ++ x :: l₂) (ho : x.offset < n)
    (hf : n < x.finish) (hy : y ∈ b.records) : y.offset ≠ n := by
  have hseq := sequence_of_decodeActions h
  have hord := hseq.spread.ordered hseq.offset_lt_finish
  rw [hrec, Ordered, List.pairwise_append, List.pairwise_cons] at hord
  rw [hrec, List.mem_append, List.mem_cons] at hy
  rcases hy with hy | rfl | hy
  · have := (hord.2.2 y hy x List.mem_cons_self).1
    omega
  · omega
  · have := (hord.2.1.1 y hy).2
    omega

/-- **The first bytes of a stream decode to its first records**, if they end where a record starts
or not before the stream does. Otherwise they are refused because bytes are missing. -/
theorem decodeActions_take {s : List UInt8} {b : Block} (h : decodeActions s = .ok b) (n : ℕ) :
    (∀ e, decodeActions (s.take n) = .error e → e.IsShort) ∧
    (∀ c, decodeActions (s.take n) = .ok c → c.records <+: b.records) ∧
    ((∃ c, decodeActions (s.take n) = .ok c) ↔
      b.byteLength ≤ n ∨ ∃ x ∈ b.records, x.offset = n) := by
  have hcut := cutAt_of_decodeActions h n
  generalize decodeActions (s.take n) = answer at hcut ⊢
  cases hcut with
  | whole hn =>
    refine ⟨nofun, fun c hc => ?_, iff_of_true ⟨_, rfl⟩ (Or.inl hn)⟩
    cases hc
    exact List.prefix_rfl
  | @before l₁ l₂ x hrec ho =>
    refine ⟨nofun, fun c hc => ?_, iff_of_true ⟨_, rfl⟩ (Or.inr ⟨x, ?_, ho⟩)⟩
    · cases hc
      exact ⟨_, hrec.symm⟩
    · simp [hrec]
  | @within l₁ l₂ x e hrec ho hf hs =>
    refine ⟨fun e' he => ?_, nofun, iff_of_false nofun ?_⟩
    · cases he
      exact hs
    · rintro (hn | ⟨y, hy, hyn⟩)
      · have := (decoded_of_decodeActions h).finish_le x (by simp [hrec])
        omega
      · exact offset_ne_of_within h hrec ho hf hy hyn

/-- A stream that is cut inside a body: the body is refused, and not made shorter. -/
theorem decodeActions_take_within_body :
    decodeActions [6, 0x94, 2, 0, 2, 0, 0x17, 7, 4] =
      .ok ⟨[⟨0, 1, .op .play⟩, ⟨1, 7, .withObject ⟨[⟨0, 1, .op .pop⟩, ⟨1, 1, .op .stop⟩], 2⟩⟩,
        ⟨8, 1, .op .nextFrame⟩], 9⟩ ∧
    decodeActions [6, 0x94, 2, 0, 2, 0, 0x17] = .error (.truncated 0x94 1 2 1) ∧
    DecodeError.IsShort (.truncated 0x94 1 2 1) ∧
    decodeActions [6, 0x94, 2, 0, 2, 0, 0x17, 7] =
      .ok ⟨[⟨0, 1, .op .play⟩, ⟨1, 7, .withObject ⟨[⟨0, 1, .op .pop⟩, ⟨1, 1, .op .stop⟩], 2⟩⟩], 8⟩ :=
  ⟨rfl, rfl, (decodeActions_take (s := [6, 0x94, 2, 0, 2, 0, 0x17, 7, 4]) rfl 7).1 _ rfl, rfl⟩

end ActionVm
