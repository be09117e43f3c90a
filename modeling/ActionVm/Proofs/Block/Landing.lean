import ActionVm.Block.Branch
import ActionVm.Proofs.Block.Layout

/-!
# Where branches land

A branch in a decoded block leads to the record that starts at its target, if one does.

* `lastUpTo_spec`, **`search_eq_some_iff`**: halving finds the numbers of a list that ascends;
* `Decoded`: blocks that are decoded from bytes, alone or inside another block;
* `Decoded.finish_le`, `Decoded.ascending`: the places of their records;
* **`Decoded.landing_eq_record_iff`**, **`BlockOf.landing_eq_finish_iff`**,
  **`Decoded.landing_eq_invalid_iff`**: what stands at an offset.
-/

namespace ActionVm

open Read

/-! ## Halving -/

/-- The numbers from `i` on are all greater than `target`. -/
def GreaterFrom (l : List ℕ) (target i : ℕ) : Prop :=
  ∀ j a, i ≤ j → l[j]? = some a → target < a

theorem lt_of_ascending {l : List ℕ} (hl : l.Pairwise (· < ·)) {i j a b : ℕ} (hij : i < j)
    (hi : l[i]? = some a) (hj : l[j]? = some b) : a < b := by
  obtain ⟨hil, rfl⟩ := List.getElem?_eq_some_iff.mp hi
  obtain ⟨hjl, rfl⟩ := List.getElem?_eq_some_iff.mp hj
  exact List.pairwise_iff_getElem.mp hl i j hil hjl hij

theorem GreaterFrom.of_lt {l : List ℕ} (hl : l.Pairwise (· < ·)) {target i b : ℕ}
    (hi : l[i]? = some b) (h : target < b) : GreaterFrom l target i := by
  intro j a hij hj
  rcases Nat.eq_or_lt_of_le hij with rfl | hij
  · rw [hi] at hj
    cases hj
    exact h
  · exact h.trans (lt_of_ascending hl hij hi hj)

/-- Halving ends at an index after which all numbers are greater than the target. The number at the
index itself is not, unless the index is zero. -/
theorem lastUpTo_spec {l : List ℕ} (hl : l.Pairwise (· < ·)) (target base size : ℕ)
    (hpos : 0 < size) (hlen : base + size ≤ l.length)
    (hbase : base = 0 ∨ ∃ a ≤ target, l[base]? = some a)
    (hrest : GreaterFrom l target (base + size)) :
    (lastUpTo l target base size = 0 ∨ ∃ a ≤ target, l[lastUpTo l target base size]? = some a) ∧
      GreaterFrom l target (lastUpTo l target base size + 1) := by
  fun_induction lastUpTo l target base size with
  | case1 base size h =>
    obtain rfl : size = 1 := by omega
    exact ⟨hbase, hrest⟩
  | case2 base size h half ih =>
    have hhalf : half = size / 2 := rfl
    have hmid : l[base + half]? = some (l.getD (base + half) 0) := by
      rw [List.getD_eq_getElem?_getD, List.getElem?_eq_getElem (by omega), Option.getD_some]
    split at ih
    · next hlt =>
      rw [if_pos hlt]
      refine ih (by omega) (by omega) hbase fun j a hj => ?_
      exact GreaterFrom.of_lt hl hmid hlt j a (by omega)
    · next hle =>
      rw [if_neg hle]
      refine ih (by omega) (by omega) (Or.inr ⟨_, by omega, hmid⟩) fun j a hj => ?_
      exact hrest j a (by omega)

/-- **Halving finds a number where it stands.** -/
theorem search_eq_some_iff {l : List ℕ} (hl : l.Pairwise (· < ·)) {target i : ℕ} :
    search l target = some i ↔ l[i]? = some target := by
  simp only [search]
  constructor
  · intro h
    split at h
    · next hi =>
      cases h
      exact hi
    · cases h
  · intro hi
    have hlen := (List.getElem?_eq_some_iff.mp hi).1
    have hend : GreaterFrom l target (0 + l.length) := by
      intro j a hj h
      rw [List.getElem?_eq_none (by omega)] at h
      cases h
    obtain ⟨hlast, hrest⟩ :=
      lastUpTo_spec hl target 0 l.length (by omega) (by omega) (Or.inl rfl) hend
    have hle : i ≤ lastUpTo l target 0 l.length := by
      by_contra hlt
      exact absurd (hrest i target (by omega) hi) (lt_irrefl _)
    have heq : lastUpTo l target 0 l.length = i := by
      rcases hlast with hzero | ⟨a, ha, hlast⟩
      · omega
      · by_contra hne
        have := lt_of_ascending hl (by omega) hi hlast
        omega
    rw [heq, if_pos hi]

/-! ## Decoded blocks -/

/-- The block is decoded from the bytes `s`: as a stream from some place of them on, as a body that
takes them all, or as a body inside a block. -/
inductive Decoded : List UInt8 → Block → Prop
  | stream {s : List UInt8} {r r' : Reader} {b : Block} : r.In s → Gives readStream r b r' →
    Decoded s b
  | body {s : List UInt8} {b : Block} : decodeBody s = .ok b → Decoded s b
  | inside {s : List UInt8} {b d : Block} {x : Record} : Decoded s b → x ∈ b.records →
    x.action.body? = some d → Decoded (bodyAt s x.offset) d

theorem decoded_of_decodeActions {s : List UInt8} {b : Block} (h : decodeActions s = .ok b) :
    Decoded s b := by
  obtain ⟨r', h⟩ := run_eq_ok_iff.mp h
  exact .stream ⟨rfl, Nat.zero_le _⟩ h

namespace Decoded

variable {s : List UInt8} {b : Block}

theorem sequence (h : Decoded s b) : ∃ depth zeros i,
    Sequence (decoderBelow depth) zeros s i b.records b.byteLength := by
  induction h with
  | stream hr h => exact ⟨maxNesting, false, _, readRecords_spec hr h⟩
  | body h => exact ⟨maxNesting, true, 0, sequence_of_bodyDecoder h⟩
  | inside _ hx hd ih =>
    obtain ⟨depth, zeros, i, hs⟩ := ih
    obtain ⟨d, -, hs⟩ := (hs.record _ hx).sequence hd
    exact ⟨d, true, 0, hs⟩

theorem offset_lt_finish (h : Decoded s b) : ∀ x ∈ b.records, x.offset < x.finish := by
  obtain ⟨_, _, _, hs⟩ := h.sequence
  exact hs.offset_lt_finish

theorem finish_le (h : Decoded s b) : ∀ x ∈ b.records, x.finish ≤ b.byteLength := by
  obtain ⟨_, _, _, hs⟩ := h.sequence
  exact (hs.spread.finish_le hs.offset_lt_finish).2

/-- The records of a decoded block stand in order. -/
theorem ascending (h : Decoded s b) : (b.records.map Placed.offset).Pairwise (· < ·) := by
  obtain ⟨_, _, _, hs⟩ := h.sequence
  rw [List.pairwise_map]
  exact (hs.spread.ordered hs.offset_lt_finish).imp And.left

theorem stands (h : Decoded s b) : ∀ x ∈ b.records, StandsIn s x := by
  obtain ⟨_, _, _, hs⟩ := h.sequence
  exact fun x hx => (hs.record x hx).stands

end Decoded

/-! ## Branches in decoded blocks -/

/-- The record of index `j` starts at the offset `target`. -/
def BlockOf.StartsAt (b : Block) (j : ℕ) (target : ℤ) : Prop :=
  ∃ x, b.records[j]? = some x ∧ (x.offset : ℤ) = target

theorem BlockOf.landing_eq_finish_iff {b : Block} {target : ℤ} :
    b.landing target = .finish ↔ (b.byteLength : ℤ) ≤ target := by
  by_cases hneg : target < 0
  · simp only [BlockOf.landing, if_pos hneg]
    constructor
    · intro h; cases h
    · intro h; omega
  · rw [BlockOf.landing, if_neg hneg]
    by_cases hend : (b.byteLength : ℤ) ≤ target
    · simp [hend]
    · rw [if_neg hend]
      split <;> simp [hend]

/-- A branch that leads nowhere tells its own target. -/
theorem BlockOf.eq_of_landing_eq_invalid {b : Block} {target t : ℤ}
    (h : b.landing target = .invalid t) : t = target := by
  unfold BlockOf.landing at h
  split at h
  · cases h
    rfl
  · split at h
    · cases h
    · split at h
      · cases h
      · cases h
        rfl

namespace Decoded

variable {s : List UInt8} {b : Block} {target : ℤ}

theorem lt_of_startsAt (h : Decoded s b) {j : ℕ} (hj : b.StartsAt j target) :
    0 ≤ target ∧ target < b.byteLength := by
  obtain ⟨x, hx, rfl⟩ := hj
  have hx := List.mem_of_getElem? hx
  have hlt := h.offset_lt_finish x hx
  have hle := h.finish_le x hx
  omega

theorem search_eq_some_iff (h : Decoded s b) {j : ℕ} (ht : 0 ≤ target) :
    search (b.records.map Placed.offset) target.toNat = some j ↔ b.StartsAt j target := by
  rw [ActionVm.search_eq_some_iff h.ascending, List.getElem?_map, Option.map_eq_some_iff]
  refine exists_congr fun x => and_congr_right fun _ => ?_
  omega

theorem landing_eq_record_iff (h : Decoded s b) {j : ℕ} :
    b.landing target = .record j ↔ b.StartsAt j target := by
  by_cases hneg : target < 0
  · have hno : ¬ b.StartsAt j target := fun hj => absurd (h.lt_of_startsAt hj).1 (by omega)
    simp [BlockOf.landing, hneg, hno]
  · by_cases hend : (b.byteLength : ℤ) ≤ target
    · have hno : ¬ b.StartsAt j target := fun hj => absurd (h.lt_of_startsAt hj).2 (by omega)
      simp [BlockOf.landing, hneg, hend, hno]
    · rw [← h.search_eq_some_iff (by omega), BlockOf.landing, if_neg hneg, if_neg hend]
      split
      · next hs => simp [hs]
      · next hs => simp [hs]

/-- At most one record starts at an offset. -/
theorem startsAt_unique (h : Decoded s b) {j k : ℕ} (hj : b.StartsAt j target)
    (hk : b.StartsAt k target) : k = j := by
  rw [← h.landing_eq_record_iff] at hj hk
  rw [hj] at hk
  cases hk
  rfl

theorem landing_eq_invalid_iff (h : Decoded s b) {t : ℤ} :
    b.landing target = .invalid t ↔
      t = target ∧ target < b.byteLength ∧ ∀ j, ¬ b.StartsAt j target := by
  rcases hl : b.landing target with j | _ | u
  · have hj := h.landing_eq_record_iff.mp hl
    exact iff_of_false nofun fun hn => hn.2.2 j hj
  · have hend := BlockOf.landing_eq_finish_iff.mp hl
    exact iff_of_false nofun fun hn => absurd hn.2.1 (by omega)
  · have hu := BlockOf.eq_of_landing_eq_invalid hl
    rw [Landing.invalid.injEq]
    constructor
    · rintro rfl
      refine ⟨hu, ?_, fun j hj => ?_⟩
      · by_contra hend
        rw [BlockOf.landing_eq_finish_iff.mpr (by omega)] at hl
        cases hl
      · rw [h.landing_eq_record_iff.mpr hj] at hl
        cases hl
    · rintro ⟨rfl, -⟩
      exact hu

end Decoded

end ActionVm
