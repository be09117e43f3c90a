import ActionVm.Proofs.Block.Layout
import ActionVm.Proofs.Block.Operands

/-!
# Reads within a span

A reader answers from the bytes of its own span and from no others. What does not fit into the bytes
that are left is refused, and the reader stays where it is. Only a number of double precision, whose
two words are read one after the other, can be given up halfway.

* `Datum`: what a reader can be asked for, with its read, its size and its bytes;
* `Datum.gives_of_fits`, `Datum.holds_of_gives`: the reads that answer;
* `Read.Refuses`, `Datum.refuses_of_not_fits`, `Datum.fails_f64`: the reads that fail;
* `Datum.allOrNothing_iff`: the one read that can fail after it took bytes;
* `Stretch`, `Leads`: where a reader has its bytes, and what reads make of it;
* **`reads_within_stretch`**: every read of every reader that comes up over an input.
-/

namespace ActionVm

open Read

/-! ## What a reader can be asked for -/

/-- What a reader can be asked for. -/
inductive Datum where
  | u8
  | u16
  | i16
  | u32
  | i32
  | f32
  | f64
  | cstr
  /-- The next `n` bytes as they are. -/
  | bytes (n : ℕ)
  /-- A reader over exactly the next `n` bytes. -/
  | span (n : ℕ)
  deriving DecidableEq, Repr

namespace Datum

/-- The type of the answer. Numbers that are not whole come as their bit patterns. -/
def Answer : Datum → Type
  | u8 => UInt8
  | u16 => UInt16
  | i16 => Int16
  | u32 => UInt32
  | i32 => Int32
  | f32 => UInt32
  | f64 => UInt64
  | cstr => String
  | bytes _ => List UInt8
  | span _ => Reader

/-- The read that asks for it. -/
def read : (k : Datum) → Read k.Answer
  | u8 => Read.u8
  | u16 => Read.u16
  | i16 => Read.i16
  | u32 => Read.u32
  | i32 => Read.i32
  | f32 => Read.u32
  | f64 => Read.f64
  | cstr => Read.cstr
  | bytes n => Read.take n
  | span n => Read.sub n

/-- The reader after the read, whether that answers or fails. -/
def after (k : Datum) (r : Reader) : Reader := (k.read.run.run r).2

/-- The number of bytes that it takes at the start of `rest`. A string takes its zero byte, too. -/
def size (rest : List UInt8) : Datum → ℕ
  | u8 => 1
  | u16 | i16 => 2
  | u32 | i32 | f32 => 4
  | f64 => 8
  | cstr => (rest.takeWhile (· ≠ 0)).length + 1
  | bytes n | span n => n

/-- It is all there at the start of `rest`. -/
def Fits (rest : List UInt8) : Datum → Prop
  | cstr => 0 ∈ rest
  | k => k.size rest ≤ rest.length

/-- The bytes `l`, the first of which stands at the given place of the input, are those of the
answer. -/
def Holds (place : ℕ) (l : List UInt8) : (k : Datum) → k.Answer → Prop
  | u8, a => l = [a]
  | u16, w => l = Word.le16 w
  | i16, i => l = Word.le16 i.toUInt16
  | u32, w => l = Word.le32 w
  | i32, i => l = Word.le32 i.toUInt32
  | f32, w => l = Word.le32 w
  | f64, w => l = Word.le32 (Word.high w) ++ Word.le32 (Word.low w)
  | cstr, s => ∃ text, l = text ++ [0] ∧ 0 ∉ text ∧ s = Utf8.repair text
  | bytes n, a => l = a ∧ a.length = n
  | span n, q => q = ⟨l, 0, place⟩ ∧ l.length = n

/-- If the read fails, it leaves the reader where it was. -/
def AllOrNothing (k : Datum) (r : Reader) : Prop := ∀ e, Fails k.read r e → k.after r = r

/-! ## Reads that answer -/

variable {k : Datum} {r r' : Reader}

/-- What fits into the bytes that are left is answered. -/
theorem gives_of_fits (h : k.Fits r.rest) : ∃ a r', Gives k.read r a r' := by
  cases k with
  | u8 => exact (exists_gives_u8 h).imp fun _ ha => ⟨_, ha⟩
  | u16 => exact (exists_gives_u16 h).imp fun _ ha => ⟨_, ha⟩
  | u32 | f32 => exact (exists_gives_u32 h).imp fun _ ha => ⟨_, ha⟩
  | i16 =>
    obtain ⟨w, hw⟩ := exists_gives_u16 h
    exact ⟨_, _, hw.map UInt16.toInt16⟩
  | i32 =>
    obtain ⟨w, hw⟩ := exists_gives_u32 h
    exact ⟨_, _, hw.map UInt32.toInt32⟩
  | f64 =>
    change 8 ≤ r.rest.length at h
    obtain ⟨high, hhigh⟩ := exists_gives_u32 (r := r) (by omega)
    have hrest : 4 ≤ (r.skip 4).rest.length := by
      rw [Reader.skip, List.length_drop]
      omega
    obtain ⟨low, hlow⟩ := exists_gives_u32 hrest
    exact ⟨_, _, gives_bind.mpr ⟨_, _, hhigh, hlow.map (Word.of64 high)⟩⟩
  | cstr =>
    obtain ⟨text, rest, hr, ht⟩ := List.eq_append_cons_of_mem h
    exact ⟨_, _, gives_cstr.mpr ⟨text, rest, hr, ht, rfl, rfl⟩⟩
  | bytes n => exact ⟨_, _, gives_take_of_le h⟩
  | span n => exact ⟨_, _, gives_sub.mpr ⟨h, rfl, rfl⟩⟩

theorem le16_of_gives {w : UInt16} (h : Gives Read.u16 r w r') :
    ∃ rest, r.rest = Word.le16 w ++ rest ∧ r' = r.past 2 rest := by
  obtain ⟨a, b, rest, hr, rfl, rfl⟩ := gives_u16.mp h
  exact ⟨rest, by rw [hr, Word.le16_of16]; rfl, rfl⟩

theorem le32_of_gives {w : UInt32} (h : Gives Read.u32 r w r') :
    ∃ rest, r.rest = Word.le32 w ++ rest ∧ r' = r.past 4 rest := by
  obtain ⟨a, b, c, d, rest, hr, rfl, rfl⟩ := gives_u32.mp h
  exact ⟨rest, by rw [hr, Word.le32_of32]; rfl, rfl⟩

/-- An answer is made of the next bytes, as many as its size says, and the reader moves past
them. -/
theorem holds_of_gives {a : k.Answer} (h : Gives k.read r a r') :
    ∃ l rest, r.rest = l ++ rest ∧ k.Holds r.place l a ∧ l.length = k.size r.rest ∧
      r' = r.past l.length rest := by
  cases k with
  | u8 =>
    obtain ⟨rest, hr, rfl⟩ := gives_u8.mp h
    exact ⟨[a], rest, hr, rfl, rfl, rfl⟩
  | u16 =>
    obtain ⟨rest, hr, rfl⟩ := le16_of_gives h
    exact ⟨Word.le16 a, rest, hr, rfl, rfl, rfl⟩
  | i16 =>
    obtain ⟨w, _, hw, hpure⟩ := gives_bind.mp h
    obtain ⟨rfl, rfl⟩ := gives_pure.mp hpure
    obtain ⟨rest, hr, rfl⟩ := le16_of_gives hw
    exact ⟨Word.le16 w, rest, hr, rfl, rfl, rfl⟩
  | u32 | f32 =>
    obtain ⟨rest, hr, rfl⟩ := le32_of_gives h
    exact ⟨Word.le32 a, rest, hr, rfl, rfl, rfl⟩
  | i32 =>
    obtain ⟨w, _, hw, hpure⟩ := gives_bind.mp h
    obtain ⟨rfl, rfl⟩ := gives_pure.mp hpure
    obtain ⟨rest, hr, rfl⟩ := le32_of_gives hw
    exact ⟨Word.le32 w, rest, hr, rfl, rfl, rfl⟩
  | f64 =>
    obtain ⟨high, _, hhigh, h⟩ := gives_bind.mp h
    obtain ⟨low, _, hlow, hpure⟩ := gives_bind.mp h
    obtain ⟨rfl, rfl⟩ := gives_pure.mp hpure
    obtain ⟨rest, hr, rfl⟩ := le32_of_gives hhigh
    obtain ⟨rest', hr', rfl⟩ := le32_of_gives hlow
    refine ⟨Word.le32 high ++ Word.le32 low, rest', ?_, ?_, rfl, rfl⟩
    · exact hr.trans ((congrArg (Word.le32 high ++ ·) hr').trans (List.append_assoc ..).symm)
    · change _ = Word.le32 (Word.high _) ++ Word.le32 (Word.low _)
      rw [Word.high_of64, Word.low_of64]
  | cstr =>
    obtain ⟨text, rest, hr, ht, rfl, rfl⟩ := gives_cstr.mp h
    have hl : (text ++ [0]).length = text.length + 1 := by simp
    refine ⟨text ++ [0], rest, by simp [hr], ⟨text, rfl, ht, rfl⟩, ?_, by rw [hl]⟩
    rw [hl, size, hr, takeWhile_ne_zero ht]
  | bytes n =>
    obtain ⟨hl, rest, hr, rfl⟩ := gives_take.mp h
    exact ⟨a, rest, hr, ⟨rfl, hl⟩, hl, rfl⟩
  | span n =>
    obtain ⟨hn, rfl, rfl⟩ := gives_sub.mp h
    have hl : (r.rest.take n).length = n := List.length_take_of_le hn
    refine ⟨r.rest.take n, r.rest.drop n, (List.take_append_drop n r.rest).symm, ⟨rfl, hl⟩, hl, ?_⟩
    rw [hl]
    rfl

/-- A string takes no more bytes than are left if and only if one of them is zero. -/
theorem fits_iff (rest : List UInt8) (k : Datum) : k.Fits rest ↔ k.size rest ≤ rest.length := by
  cases k with
  | cstr =>
    rw [Fits, size, Nat.succ_le_iff]
    constructor
    · intro h
      obtain ⟨text, rest, rfl, ht⟩ := List.eq_append_cons_of_mem h
      rw [takeWhile_ne_zero ht]
      simp
    · intro h
      obtain ⟨rest', hrest⟩ := exists_eq_takeWhile_append rest fun hnil => by
        have := List.drop_eq_nil_iff.mp hnil
        omega
      rw [hrest]
      simp
  | _ => exact Iff.rfl

theorem fits_of_gives {a : k.Answer} (h : Gives k.read r a r') : k.Fits r.rest := by
  obtain ⟨l, rest, hr, -, hl, -⟩ := holds_of_gives h
  rw [fits_iff, ← hl, hr, List.length_append]
  exact Nat.le_add_right _ _

/-! ## Reads that fail -/

/-- What does not fit is refused, except for a number of which one word is there. -/
theorem refuses_of_not_fits (h : ¬ k.Fits r.rest) (hk : k = .f64 → r.remaining < 4) :
    ∃ e, Refuses k.read r e := by
  cases k with
  | u8 | u16 | u32 | f32 => exact ⟨_, (refuses_take (Nat.lt_of_not_le h)).bind _⟩
  | i16 | i32 => exact ⟨_, ((refuses_take (Nat.lt_of_not_le h)).bind _).bind _⟩
  | f64 => exact ⟨_, ((refuses_take (hk rfl)).bind _).bind _⟩
  | cstr => exact ⟨_, refuses_cstr h⟩
  | bytes n => exact ⟨_, refuses_take (Nat.lt_of_not_le h)⟩
  | span n =>
    exact ⟨_, (gives_get.mpr ⟨rfl, rfl⟩).bind_refuses ((refuses_need (Nat.lt_of_not_le h)).bind _)⟩

/-- A number of which only one word is there is given up behind that word. -/
theorem fails_f64 (h₄ : 4 ≤ r.remaining) (h₈ : r.remaining < 8) :
    ∃ e, Fails (read f64) r e ∧ f64.after r = r.skip 4 := by
  obtain ⟨high, hhigh⟩ := exists_gives_u32 h₄
  have hrest : (r.skip 4).rest.length < 4 := by
    rw [Reader.remaining] at h₈
    rw [Reader.skip, List.length_drop]
    omega
  have hrun := (hhigh.run_bind (f := fun high => return Word.of64 high (← Read.u32))).trans
    (((refuses_take hrest).bind _).bind _)
  exact ⟨_, congrArg Prod.fst hrun, congrArg Prod.snd hrun⟩

/-- A read fails if and only if what it asks for does not fit. -/
theorem fails_iff : (∃ e, Fails k.read r e) ↔ ¬ k.Fits r.rest := by
  constructor
  · rintro ⟨e, he⟩ hfits
    obtain ⟨a, r', ha⟩ := gives_of_fits hfits
    rw [Fails, ha] at he
    cases he
  · intro h
    refine (gives_or_fails k.read r).resolve_left ?_
    rintro ⟨a, r', ha⟩
    exact h (fits_of_gives ha)

/-- Where a failed read leaves the reader. -/
theorem after_of_fails {e : DecodeError} (h : Fails k.read r e) :
    k.after r = if k = .f64 ∧ 4 ≤ r.remaining then r.skip 4 else r := by
  have hfits := fails_iff.mp ⟨e, h⟩
  split
  · next hk =>
    obtain ⟨rfl, h₄⟩ := hk
    obtain ⟨_, -, hafter⟩ := fails_f64 h₄ (Nat.lt_of_not_le hfits)
    exact hafter
  · next hk =>
    obtain ⟨e', he'⟩ := refuses_of_not_fits hfits fun hf =>
      Nat.lt_of_not_le fun h₄ => hk ⟨hf, h₄⟩
    exact congrArg Prod.snd he'

/-- Every read is all or nothing but the one that finds a single word of the two of a number. -/
theorem allOrNothing_iff :
    k.AllOrNothing r ↔ ¬ (k = .f64 ∧ 4 ≤ r.remaining ∧ r.remaining < 8) := by
  constructor
  · rintro h ⟨rfl, h₄, h₈⟩
    obtain ⟨e, he, hafter⟩ := fails_f64 h₄ h₈
    -- four bytes on is another place
    have hstay : (r.skip 4).position = r.position := by rw [← hafter, h e he]
    simp [Reader.skip] at hstay
  · intro h e he
    have hfits := fails_iff.mp ⟨e, he⟩
    rw [after_of_fails he, if_neg]
    rintro ⟨rfl, h₄⟩
    exact h ⟨rfl, h₄, Nat.lt_of_not_le hfits⟩

end Datum

/-! ## Stretches of the input -/

/-- A part of the input. -/
structure Stretch where
  first : ℕ
  length : ℕ
  deriving DecidableEq, Repr

namespace Stretch

variable {s t : Stretch}

/-- The place behind the stretch. -/
def finish (s : Stretch) : ℕ := s.first + s.length

/-- The bytes of the stretch. -/
def bytes (s : Stretch) (input : List UInt8) : List UInt8 := (input.drop s.first).take s.length

/-- The stretch is a part of the other one. -/
def Within (t s : Stretch) : Prop := s.first ≤ t.first ∧ t.finish ≤ s.finish

theorem Within.refl (s : Stretch) : s.Within s := ⟨le_rfl, le_rfl⟩

theorem Within.trans {u : Stretch} (h : u.Within t) (h' : t.Within s) : u.Within s :=
  ⟨h'.1.trans h.1, h.2.trans h'.2⟩

theorem length_bytes {input : List UInt8} (h : s.finish ≤ input.length) :
    (s.bytes input).length = s.length := by
  rw [finish] at h
  rw [bytes, List.length_take, List.length_drop]
  omega

/-- The bytes of a part of a stretch are among those of the stretch. -/
theorem Within.bytes_eq (h : t.Within s) (input : List UInt8) :
    t.bytes input = ((s.bytes input).drop (t.first - s.first)).take t.length := by
  obtain ⟨hfirst, hfinish⟩ := h
  rw [finish, finish] at hfinish
  rw [bytes, bytes, List.drop_take, List.take_take, List.drop_drop, Nat.min_eq_left (by omega),
    Nat.add_sub_cancel' hfirst]

end Stretch

/-- The reader is over the stretch `s` of the input. -/
structure Reader.Over (input : List UInt8) (s : Stretch) (r : Reader) : Prop where
  base : r.base = s.first
  inside : r.In (s.bytes input)
  finish_le : s.finish ≤ input.length

namespace Reader.Over

variable {input : List UInt8} {s : Stretch} {r : Reader}

theorem ofBytes (input : List UInt8) : (Reader.ofBytes input).Over input ⟨0, input.length⟩ :=
  ⟨rfl, ⟨List.take_length.symm, Nat.zero_le _⟩, (Nat.zero_add _).le⟩

/-- The bytes that are left reach to the end of the stretch. -/
theorem place_add (h : r.Over input s) : r.place + r.rest.length = s.finish := by
  have hle := h.inside.position_le
  rw [Stretch.length_bytes h.finish_le] at hle
  rw [Reader.place, h.base, h.inside.rest, List.length_drop, Stretch.length_bytes h.finish_le,
    Stretch.finish]
  omega

theorem skip (h : r.Over input s) {n : ℕ} (hn : n ≤ r.rest.length) : (r.skip n).Over input s :=
  ⟨h.base, h.inside.skip hn, h.finish_le⟩

/-- Whatever is asked for, the reader stays over its stretch. -/
theorem after (h : r.Over input s) (k : Datum) : (k.after r).Over input s := by
  rcases gives_or_fails k.read r with ⟨a, r', ha⟩ | ⟨e, he⟩
  · obtain ⟨l, rest, hr, -, -, rfl⟩ := Datum.holds_of_gives ha
    have hafter : k.after r = r.skip l.length := by
      rw [Reader.skip, hr, List.drop_left]
      exact congrArg Prod.snd ha
    rw [hafter]
    exact h.skip (by rw [hr, List.length_append]; exact Nat.le_add_right _ _)
  · rw [Datum.after_of_fails he]
    split
    · next hk => exact h.skip hk.2
    · exact h

theorem within (h : r.Over input s) {n : ℕ} (hn : n ≤ r.rest.length) :
    Stretch.Within ⟨r.place, n⟩ s := by
  refine ⟨?_, ?_⟩
  · rw [Reader.place, h.base]
    exact Nat.le_add_right _ _
  · rw [← h.place_add]
    exact Nat.add_le_add_left hn _

/-- A reader that is split off is over a stretch of its own. -/
theorem sub (h : r.Over input s) {n : ℕ} (hn : n ≤ r.rest.length) :
    (r.sub n).Over input ⟨r.place, n⟩ := by
  have hwithin := h.within hn
  refine ⟨rfl, ⟨?_, Nat.zero_le _⟩, hwithin.2.trans h.finish_le⟩
  have hposition : r.place - s.first = r.position := by
    rw [Reader.place, h.base, Nat.add_sub_cancel_left]
  rw [hwithin.bytes_eq, hposition, ← h.inside.rest]
  rfl

end Reader.Over

/-- Reads lead from the reader `r` of the stretch `s` to the reader `q` of the stretch `t`. A read
that fails is a read as well, and a reader that is split off is read from in its turn. -/
inductive Leads (s : Stretch) (r : Reader) : Stretch → Reader → Prop where
  | here : Leads s r s r
  | read {t : Stretch} {q : Reader} (k : Datum) : Leads s r t q → Leads s r t (k.after q)
  | enter {t : Stretch} {q p q' : Reader} (n : ℕ) :
    Leads s r t q → Gives (Read.sub n) q p q' → Leads s r ⟨q.place, n⟩ p

/-- Readers that come up are over their stretches, which lie within the first one. -/
theorem Leads.over {input : List UInt8} {s t : Stretch} {r q : Reader} (h : Leads s r t q)
    (hr : r.Over input s) : q.Over input t ∧ t.Within s := by
  induction h with
  | here => exact ⟨hr, .refl s⟩
  | read k _ ih => exact ⟨ih.1.after k, ih.2⟩
  | enter n _ hsub ih =>
    obtain ⟨hn, rfl, -⟩ := gives_sub.mp hsub
    exact ⟨ih.1.sub hn, (ih.1.within hn).trans ih.2⟩

/-- What is read from the reader `r` of the stretch `s`, and from readers that are split off from
it. -/
structure ReadsWithin (input : List UInt8) (s : Stretch) (r : Reader) : Prop where
  /-- The reader has not gone beyond the end of its stretch. -/
  position_le : r.position ≤ s.length
  /-- Left to it are the bytes of its stretch from its position on. -/
  rest : r.rest = (s.bytes input).drop r.position
  /-- A read fails if and only if what it asks for does not fit into these. -/
  fails_iff : ∀ k : Datum, (∃ e, Fails k.read r e) ↔ ¬ k.Fits r.rest
  /-- A read that answers takes the bytes of its answer, and the reader moves by their number. -/
  answers : ∀ (k : Datum) (a : k.Answer) (r' : Reader), Gives k.read r a r' →
    ∃ l rest, r.rest = l ++ rest ∧ k.Holds r.place l a ∧ l.length = k.size r.rest ∧
      r' = r.past l.length rest
  /-- A read that fails leaves the reader where it was, unless it finds one word of a number. -/
  allOrNothing : ∀ k : Datum,
    k.AllOrNothing r ↔ ¬ (k = .f64 ∧ 4 ≤ r.remaining ∧ r.remaining < 8)
  /-- That word is then taken. -/
  halfway : 4 ≤ r.remaining → r.remaining < 8 → Datum.f64.after r = r.skip 4
  /-- All readers to which reads lead from here stay within the stretch. -/
  confined : ∀ t q, Leads s r t q → t.Within s ∧ q.position ≤ t.length
  /-- What they have left is told by the bytes of the stretch, whatever stands around it. -/
  alike : ∀ input', s.bytes input' = s.bytes input → ∀ t q, Leads s r t q →
    q.rest = (t.bytes input').drop q.position

/-- **Readers read within their stretch**, and what they do not answer they leave untouched but for
one half of a number. -/
theorem reads_within_stretch {input : List UInt8} {s : Stretch} {r : Reader}
    (h : Leads ⟨0, input.length⟩ (.ofBytes input) s r) : ReadsWithin input s r where
  position_le := by
    obtain ⟨hr, -⟩ := h.over (.ofBytes input)
    exact hr.inside.position_le.trans (Stretch.length_bytes hr.finish_le).le
  rest := (h.over (.ofBytes input)).1.inside.rest
  fails_iff _ := Datum.fails_iff
  answers _ _ _ := Datum.holds_of_gives
  allOrNothing _ := Datum.allOrNothing_iff
  halfway h₄ h₈ := by
    obtain ⟨_, -, hafter⟩ := Datum.fails_f64 h₄ h₈
    exact hafter
  confined t q hq := by
    obtain ⟨hr, -⟩ := h.over (.ofBytes input)
    obtain ⟨hover, hwithin⟩ := hq.over hr
    exact ⟨hwithin, hover.inside.position_le.trans (Stretch.length_bytes hover.finish_le).le⟩
  alike input' hbytes t q hq := by
    obtain ⟨hr, -⟩ := h.over (.ofBytes input)
    obtain ⟨hover, hwithin⟩ := hq.over hr
    rw [hwithin.bytes_eq, hbytes, ← hwithin.bytes_eq]
    exact hover.inside.rest

/-- A reader inside a reader inside a reader, after a number that did not fit. -/
theorem reads_within_inner_stretch :
    Leads ⟨0, 8⟩ (.ofBytes [9, 1, 2, 3, 65, 0, 7, 7]) ⟨3, 3⟩ ⟨[65, 0], 1, 3⟩ ∧
      ReadsWithin [9, 1, 2, 3, 65, 0, 7, 7] ⟨3, 3⟩ ⟨[65, 0], 1, 3⟩ := by
  have houter : Leads ⟨0, 8⟩ (.ofBytes [9, 1, 2, 3, 65, 0, 7, 7]) ⟨1, 6⟩
      ⟨[1, 2, 3, 65, 0, 7], 0, 1⟩ :=
    .enter (q := ⟨[1, 2, 3, 65, 0, 7, 7], 1, 0⟩) 6 (.read .u8 .here) rfl
  have hinner : Leads ⟨0, 8⟩ (.ofBytes [9, 1, 2, 3, 65, 0, 7, 7]) ⟨3, 3⟩ ⟨[3, 65, 0], 0, 3⟩ :=
    .enter (q := ⟨[3, 65, 0, 7], 2, 1⟩) 3 (.read .u16 houter) rfl
  have h : Leads ⟨0, 8⟩ (.ofBytes [9, 1, 2, 3, 65, 0, 7, 7]) ⟨3, 3⟩ ⟨[65, 0], 1, 3⟩ :=
    .read .u8 (.read .f64 hinner)
  exact ⟨h, reads_within_stretch h⟩

/-- A number of eight bytes is asked for where five are left: the read fails, and four are gone. -/
theorem f64_leaves_half :
    Leads ⟨0, 5⟩ (.ofBytes [1, 2, 3, 4, 5]) ⟨0, 5⟩ (.ofBytes [1, 2, 3, 4, 5]) ∧
      Fails (Datum.read .f64) (.ofBytes [1, 2, 3, 4, 5]) (.unexpectedEnd 4 4 1) ∧
      Datum.f64.after (.ofBytes [1, 2, 3, 4, 5]) = ⟨[5], 4, 0⟩ ∧
      ¬ Datum.f64.AllOrNothing (.ofBytes [1, 2, 3, 4, 5]) :=
  ⟨.here, rfl, rfl, fun h => absurd (h _ rfl) (by decide)⟩

end ActionVm
