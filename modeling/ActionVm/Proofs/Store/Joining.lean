import ActionVm.Proofs.Store.Elements
import ActionVm.Worker
import Mathlib.Logic.Relation

/-!
# Texts of arrays

The text of an array joins the texts of its elements. The arrays that are being joined are kept on a
stack. An array enters it unless it is there already, or the stack is full, and leaves it again when
its text is there.

* `Store.array?`: the array as which a value is joined;
* `Conversion`, `Conversion.step`, `Conversion.run`: a conversion in small steps, with its stack;
* `Conversion.Within`, **`Conversion.Within.run`**: what is on the stack meanwhile;
* **`Conversion.reaches_text`**: every conversion comes to an end, with the stack as it was;
* `Store.Texts`: the texts of elements by plain recursion;
* `Store.Nests`, `Store.Path`, **`Store.texts_of_path`**: arrays inside each other, and the text of
  one that is not inside itself;
* **`text_of_value`**: all this of any value.
-/

namespace ActionVm

/-! ## Arrays as texts -/

namespace Store

variable {s : Store} {o : ObjectId} {v : Value} {joining : List ObjectId} {room : ℕ}

/-- The elements of the object are joined when it becomes a text. -/
def joins (s : Store) (o : ObjectId) : Bool :=
  match (s.object o).payload with
  | .plain => (s.object o).isArray
  | _ => false

/-- The array whose elements are joined when the value becomes a text. -/
def array? (s : Store) (v : Value) : Option ObjectId := v.object?.filter s.joins

/-- The text of an element inside the arrays `joining`, with room for `room` more. -/
def elementText (s : Store) (joining : List ObjectId) (room : ℕ) (v : Value) : String :=
  if v.isNullish then "" else s.textWithin joining room v

theorem eq_object_of_array? (h : s.array? v = some o) : v = .object o ∧ s.joins o = true := by
  rw [array?, Option.filter_eq_some_iff] at h
  cases v with
  | object p =>
    obtain rfl := Option.some.inj h.1
    exact ⟨rfl, h.2⟩
  | _ => cases h.1

theorem array?_of_isNullish (h : v.isNullish = true) : s.array? v = none := by
  cases v with
  | undefined | null => rfl
  | _ => cases h

/-- Without room an array has no text. -/
theorem textWithin_zero (h : s.array? v = some o) : s.textWithin joining 0 v = "" := by
  obtain ⟨rfl, hjoins⟩ := eq_object_of_array? h
  unfold joins at hjoins
  unfold textWithin
  split at hjoins
  · next hpayload => simp only [hpayload, hjoins, if_true]
  · cases hjoins

theorem textWithin_succ (h : s.array? v = some o) :
    s.textWithin joining (room + 1) v =
      if joining.contains o then ""
      else ",".intercalate ((s.arrayValues o).map (s.elementText (o :: joining) room)) := by
  obtain ⟨rfl, hjoins⟩ := eq_object_of_array? h
  unfold joins at hjoins
  split at hjoins
  · next hpayload =>
    rw [textWithin]
    simp only [hpayload, hjoins, if_true]
    rfl
  · cases hjoins

/-- The text of a value that is no array is the same everywhere. -/
theorem textWithin_of_array?_eq_none (h : s.array? v = none) :
    s.textWithin joining room v = s.text v := by
  unfold text
  cases v with
  | object o =>
    have hjoins : ¬ s.joins o = true := by
      intro hjoins
      rw [array?, Value.object?, Option.filter_some, if_pos hjoins] at h
      cases h
    unfold textWithin
    unfold joins at hjoins
    split at hjoins
    · next hpayload => simp only [hpayload, hjoins, Bool.false_eq_true, if_false]
    · next hpayload =>
      cases hp : (s.object o).payload with
      | plain => exact absurd hp hpayload
      | _ => rfl
  | _ =>
    unfold textWithin
    rfl

end Store

/-! ## Conversions in small steps -/

/-- An array that is being joined: the texts of its first elements, the latest first, and the
elements after them. -/
structure Join where
  array : ObjectId
  texts : List String
  rest : List Value

/-- What a conversion is at. -/
inductive Focus where
  /-- A value is to be converted. -/
  | value (v : Value)
  /-- The text of a value is there. -/
  | text (t : String)
  /-- The innermost join goes on. -/
  | join

/-- A conversion of a value to a text: what it is at, the joins that wait, innermost first, and the
stack of the arrays that are being joined. -/
structure Conversion where
  focus : Focus
  waiting : List Join
  joining : List ObjectId

namespace Conversion

/-- One step. A conversion that is over stays as it is. -/
def step (s : Store) : Conversion → Conversion
  | ⟨.value v, waiting, joining⟩ =>
    match s.array? v with
    | none => ⟨.text (s.text v), waiting, joining⟩
    | some o =>
      if Store.joinLimit ≤ joining.length ∨ o ∈ joining then ⟨.text "", waiting, joining⟩
      else ⟨.join, ⟨o, [], s.arrayValues o⟩ :: waiting, o :: joining⟩
  | ⟨.text t, ⟨o, texts, rest⟩ :: waiting, joining⟩ =>
    ⟨.join, ⟨o, t :: texts, rest⟩ :: waiting, joining⟩
  | ⟨.join, ⟨o, texts, v :: rest⟩ :: waiting, joining⟩ =>
    if v.isNullish then ⟨.join, ⟨o, "" :: texts, rest⟩ :: waiting, joining⟩
    else ⟨.value v, ⟨o, texts, rest⟩ :: waiting, joining⟩
  | ⟨.join, ⟨_, texts, []⟩ :: waiting, joining⟩ =>
    ⟨.text (",".intercalate texts.reverse), waiting, joining.tail⟩
  | ⟨.text t, [], joining⟩ => ⟨.text t, [], joining⟩
  | ⟨.join, [], joining⟩ => ⟨.join, [], joining⟩

section Values

variable {s : Store} {v : Value} {o : ObjectId} {waiting : List Join} {joining : List ObjectId}

theorem step_plain (hv : s.array? v = none) :
    step s ⟨.value v, waiting, joining⟩ = ⟨.text (s.text v), waiting, joining⟩ := by
  simp only [step, hv]

/-- An array that may not be joined has the empty text. -/
theorem step_refused (hv : s.array? v = some o)
    (h : Store.joinLimit ≤ joining.length ∨ o ∈ joining) :
    step s ⟨.value v, waiting, joining⟩ = ⟨.text "", waiting, joining⟩ := by
  simp only [step, hv, if_pos h]

/-- An array that may be joined enters the stack. -/
theorem step_entered (hv : s.array? v = some o)
    (h : ¬ (Store.joinLimit ≤ joining.length ∨ o ∈ joining)) :
    step s ⟨.value v, waiting, joining⟩ =
      ⟨.join, ⟨o, [], s.arrayValues o⟩ :: waiting, o :: joining⟩ := by
  simp only [step, hv, if_neg h]

end Values

/-- A conversion after `n` steps. -/
def run (s : Store) : (n : ℕ) → Conversion → Conversion
  | 0, x => x
  | n + 1, x => run s n (x.step s)

theorem run_add (s : Store) (m n : ℕ) (x : Conversion) :
    x.run s (m + n) = (x.run s m).run s n := by
  induction m generalizing x with
  | zero => rw [Nat.zero_add, run]
  | succ m ih => rw [Nat.succ_add, run, run, ih]

theorem run_text (s : Store) (t : String) (joining : List ObjectId) (n : ℕ) :
    run s n ⟨.text t, [], joining⟩ = ⟨.text t, [], joining⟩ := by
  induction n with
  | zero => rfl
  | succ n ih => rwa [run]

/-! ### The stack meanwhile -/

/-- On the stack are the arrays of the joins that wait, each one once, and below them those that
were being joined before. There are no more than may be. -/
structure Within (joining : List ObjectId) (x : Conversion) : Prop where
  stack : x.joining = x.waiting.map Join.array ++ joining
  nested : x.waiting.length ≤ Store.joinLimit - joining.length
  distinct : (x.waiting.map Join.array).Nodup
  apart : ∀ j ∈ x.waiting, j.array ∉ joining

theorem within_start (focus : Focus) (joining : List ObjectId) :
    Within joining ⟨focus, [], joining⟩ :=
  ⟨rfl, Nat.zero_le _, List.nodup_nil, fun _ h => absurd h List.not_mem_nil⟩

section Within

variable {joining stack : List ObjectId} {focus focus' : Focus} {o : ObjectId}
  {texts texts' : List String} {rest rest' : List Value} {waiting : List Join}

theorem Within.refocus (h : Within joining ⟨focus, waiting, stack⟩) :
    Within joining ⟨focus', waiting, stack⟩ := ⟨h.stack, h.nested, h.distinct, h.apart⟩

/-- A join that goes on is on the stack as before. -/
theorem Within.replace (h : Within joining ⟨focus, ⟨o, texts, rest⟩ :: waiting, stack⟩) :
    Within joining ⟨focus', ⟨o, texts', rest'⟩ :: waiting, stack⟩ where
  stack := h.stack
  nested := h.nested
  distinct := h.distinct
  apart := by
    have happart := List.forall_mem_cons.mp h.apart
    exact List.forall_mem_cons.mpr ⟨happart.1, happart.2⟩

/-- An array that is not on the stack enters it, if there is room. -/
theorem Within.enter (h : Within joining ⟨focus, waiting, stack⟩)
    (hlength : stack.length < Store.joinLimit) (ho : o ∉ stack) :
    Within joining ⟨focus', ⟨o, texts, rest⟩ :: waiting, o :: stack⟩ := by
  have hstack : stack = waiting.map Join.array ++ joining := h.stack
  rw [hstack, List.length_append, List.length_map] at hlength
  rw [hstack, List.mem_append, not_or] at ho
  refine ⟨congrArg (o :: ·) hstack, ?_, List.nodup_cons.mpr ⟨ho.1, h.distinct⟩,
    List.forall_mem_cons.mpr ⟨ho.2, h.apart⟩⟩
  change waiting.length + 1 ≤ Store.joinLimit - joining.length
  omega

/-- The innermost array leaves the stack. -/
theorem Within.leave (h : Within joining ⟨focus, ⟨o, texts, rest⟩ :: waiting, stack⟩) :
    Within joining ⟨focus', waiting, stack.tail⟩ where
  stack := congrArg List.tail h.stack
  nested := (Nat.le_succ _).trans h.nested
  distinct := (List.nodup_cons.mp h.distinct).2
  apart := (List.forall_mem_cons.mp h.apart).2

end Within

/-- **One step of a conversion** keeps the stack in order. -/
theorem Within.step {joining : List ObjectId} {x : Conversion} (h : x.Within joining) (s : Store) :
    (x.step s).Within joining := by
  obtain ⟨v | t | _, waiting, stack⟩ := x
  · cases hv : s.array? v with
    | none =>
      rw [step_plain hv]
      exact h.refocus
    | some o =>
      by_cases hrefused : Store.joinLimit ≤ stack.length ∨ o ∈ stack
      · rw [step_refused hv hrefused]
        exact h.refocus
      · rw [step_entered hv hrefused]
        rw [not_or, not_le] at hrefused
        exact h.enter hrefused.1 hrefused.2
  · obtain _ | ⟨⟨o, texts, rest⟩, waiting⟩ := waiting
    · exact h
    · exact h.replace
  · obtain _ | ⟨⟨o, texts, _ | ⟨v, rest⟩⟩, waiting⟩ := waiting
    · exact h
    · exact h.leave
    · unfold Conversion.step
      dsimp only
      split_ifs
      · exact h.replace
      · exact h.replace

/-- **The stack during a conversion.** -/
theorem Within.run {joining : List ObjectId} {x : Conversion} (h : x.Within joining) (s : Store)
    (n : ℕ) : (x.run s n).Within joining := by
  induction n generalizing x with
  | zero => exact h
  | succ n ih => exact ih (h.step s)

/-! ### The end -/

/-- A conversion comes to another one in some steps. -/
def Reaches (s : Store) (x y : Conversion) : Prop := ∃ n, x.run s n = y

variable {s : Store} {x y z : Conversion}

theorem Reaches.refl (x : Conversion) : x.Reaches s x := ⟨0, rfl⟩

theorem Reaches.trans (h : x.Reaches s y) (h' : y.Reaches s z) : x.Reaches s z := by
  obtain ⟨m, rfl⟩ := h
  obtain ⟨n, rfl⟩ := h'
  exact ⟨m + n, run_add s m n x⟩

theorem Reaches.head (h : (x.step s).Reaches s y) : x.Reaches s y := by
  obtain ⟨n, rfl⟩ := h
  exact ⟨n + 1, rfl⟩

theorem Reaches.single (h : x.step s = y) : x.Reaches s y := .head (h ▸ .refl _)

/-- A join comes to an end if the conversions of the elements do. -/
theorem reaches_join {o : ObjectId} {joining : List ObjectId} {room : ℕ}
    (helement : ∀ v waiting, Reaches s ⟨.value v, waiting, o :: joining⟩
      ⟨.text (s.textWithin (o :: joining) room v), waiting, o :: joining⟩)
    (waiting : List Join) (rest : List Value) (texts : List String) :
    Reaches s ⟨.join, ⟨o, texts, rest⟩ :: waiting, o :: joining⟩
      ⟨.text (",".intercalate (texts.reverse ++ rest.map (s.elementText (o :: joining) room))),
        waiting, joining⟩ := by
  induction rest generalizing texts with
  | nil =>
    rw [List.map_nil, List.append_nil]
    exact .head (.refl _)
  | cons v rest ih =>
    rw [List.map_cons, List.append_cons, ← List.reverse_cons]
    have htext : Reaches s ⟨.join, ⟨o, texts, v :: rest⟩ :: waiting, o :: joining⟩
        ⟨.join, ⟨o, s.elementText (o :: joining) room v :: texts, rest⟩ :: waiting,
          o :: joining⟩ := by
      refine .head ?_
      unfold step Store.elementText
      dsimp only
      split_ifs
      · exact .refl _
      · exact (helement v _).trans (.head (.refl _))
    exact htext.trans (ih _)

/-- **Every conversion comes to an end**, and the stack is as it was. -/
theorem reaches_text (s : Store) (room : ℕ) : ∀ {joining : List ObjectId},
    Store.joinLimit - joining.length = room → ∀ v waiting,
    Reaches s ⟨.value v, waiting, joining⟩
      ⟨.text (s.textWithin joining room v), waiting, joining⟩ := by
  induction room with
  | zero =>
    intro joining hroom v waiting
    cases hv : s.array? v with
    | none =>
      rw [Store.textWithin_of_array?_eq_none hv]
      exact .single (step_plain hv)
    | some o =>
      rw [Store.textWithin_zero hv]
      exact .single (step_refused hv (.inl (Nat.sub_eq_zero_iff_le.mp hroom)))
  | succ room ih =>
    intro joining hroom v waiting
    cases hv : s.array? v with
    | none =>
      rw [Store.textWithin_of_array?_eq_none hv]
      exact .single (step_plain hv)
    | some o =>
      rw [Store.textWithin_succ hv]
      by_cases ho : o ∈ joining
      · rw [if_pos (List.contains_iff_mem.mpr ho)]
        exact .single (step_refused hv (.inr ho))
      · rw [if_neg (fun h => ho (List.contains_iff_mem.mp h))]
        have hfits : ¬ (Store.joinLimit ≤ joining.length ∨ o ∈ joining) :=
          not_or.mpr ⟨by omega, ho⟩
        have hinner : Store.joinLimit - (o :: joining).length = room := by
          rw [List.length_cons]
          omega
        refine .head ?_
        rw [step_entered hv hfits]
        exact reaches_join (ih hinner) waiting (s.arrayValues o) []

end Conversion

/-! ## Plain recursion -/

namespace Store

variable {s : Store} {o a b : ObjectId} {v : Value} {l : List ObjectId} {room : ℕ}

/-- The texts of elements by plain recursion: null and undefined are empty, the texts of the
elements of an array are joined, and other values have their own text. -/
inductive Texts (s : Store) : List Value → List String → Prop where
  | nil : Texts s [] []
  | nullish {v : Value} {values : List Value} {texts : List String} : v.isNullish = true →
    Texts s values texts → Texts s (v :: values) ("" :: texts)
  | other {v : Value} {values : List Value} {texts : List String} : v.isNullish = false →
    s.array? v = none → Texts s values texts → Texts s (v :: values) (s.text v :: texts)
  | array {v : Value} {o : ObjectId} {values : List Value} {inner texts : List String} :
    s.array? v = some o → Texts s (s.arrayValues o) inner → Texts s values texts →
    Texts s (v :: values) (",".intercalate inner :: texts)

/-- Elements have their texts once. -/
theorem Texts.unique {values : List Value} {texts texts' : List String} (h : s.Texts values texts)
    (h' : s.Texts values texts') : texts' = texts := by
  induction h generalizing texts' with
  | nil =>
    cases h'
    rfl
  | nullish hnullish _ ih =>
    cases h' with
    | nullish _ hrest => rw [ih hrest]
    | other hnot _ _ => exact absurd hnullish (hnot ▸ Bool.false_ne_true)
    | array harray _ _ => cases (array?_of_isNullish hnullish).symm.trans harray
  | other hnot hnone _ ih =>
    cases h' with
    | nullish hnullish _ => exact absurd hnullish (hnot ▸ Bool.false_ne_true)
    | other _ _ hrest => rw [ih hrest]
    | array harray _ _ => cases hnone.symm.trans harray
  | array harray _ _ ihinner ih =>
    cases h' with
    | nullish hnullish _ => cases (array?_of_isNullish hnullish).symm.trans harray
    | other _ hnone _ => cases hnone.symm.trans harray
    | array harray' hinner hrest =>
      obtain rfl := Option.some.inj (harray'.symm.trans harray)
      rw [ihinner hinner, ih hrest]

/-! ## Arrays inside each other -/

/-- An array is an element of an object. -/
def Nests (s : Store) (a b : ObjectId) : Prop := ∃ v ∈ s.arrayValues a, s.array? v = some b

/-- A way from one array to another, through the arrays `l` that have the next one as an element,
the last one first. -/
inductive Path (s : Store) (o : ObjectId) : ObjectId → List ObjectId → Prop where
  | start : Path s o o []
  | nest {a b : ObjectId} {l : List ObjectId} : Path s o a l → s.Nests a b → Path s o b (a :: l)

theorem Path.reaches (h : s.Path o a l) : Relation.ReflTransGen s.Nests o a := by
  induction h with
  | start => exact .refl
  | nest _ hnests ih => exact ih.tail hnests

theorem Path.reaches_of_mem (h : s.Path o a l) (hb : b ∈ a :: l) :
    Relation.ReflTransGen s.Nests b a := by
  induction h with
  | start =>
    obtain rfl := List.mem_singleton.mp hb
    exact .refl
  | nest _ hnests ih =>
    obtain rfl | hb := List.mem_cons.mp hb
    · exact .refl
    · exact (ih hb).tail hnests

/-- A way comes by no array twice if none of them is inside itself. -/
theorem Path.nodup (h : s.Path o a l)
    (hacyclic : ∀ a, Relation.ReflTransGen s.Nests o a → ¬ Relation.TransGen s.Nests a a) :
    (a :: l).Nodup := by
  induction h with
  | start => exact List.pairwise_singleton _ _
  | nest hpath hnests ih =>
    refine List.nodup_cons.mpr ⟨fun hmem => ?_, ih⟩
    exact hacyclic _ (hpath.reaches.tail hnests) (.tail' (hpath.reaches_of_mem hmem) hnests)

/-- Elements have texts, if those of them do that are arrays. -/
theorem texts_of_elements {values : List Value} (harrays : ∀ v ∈ values, ∀ b, s.array? v = some b →
    ∃ texts, s.Texts (s.arrayValues b) texts ∧ s.textWithin l room v = ",".intercalate texts) :
    s.Texts values (values.map (s.elementText l room)) := by
  induction values with
  | nil => exact .nil
  | cons v values ih =>
    obtain ⟨hfirst, hothers⟩ := List.forall_mem_cons.mp harrays
    have hrest := ih hothers
    rw [List.map_cons, elementText]
    split_ifs with hnullish
    · exact .nullish hnullish hrest
    · rw [Bool.not_eq_true] at hnullish
      cases hb : s.array? v with
      | none =>
        rw [textWithin_of_array?_eq_none hb]
        exact .other hnullish hb hrest
      | some b =>
        obtain ⟨texts, htexts, htext⟩ := hfirst b hb
        rw [htext]
        exact .array hb htexts hrest

/-- **The text of an array that is not inside itself** is that of plain recursion. The stack is the
way that has led to it. -/
theorem texts_of_path
    (hacyclic : ∀ a, Relation.ReflTransGen s.Nests o a → ¬ Relation.TransGen s.Nests a a)
    (hdepth : ∀ a l, s.Path o a l → (a :: l).Nodup → (a :: l).length ≤ joinLimit)
    (h : s.Path o a l) (hroom : l.length + room = joinLimit) (hv : s.array? v = some a) :
    ∃ texts, s.Texts (s.arrayValues a) texts ∧
      s.textWithin l room v = ",".intercalate texts := by
  induction room generalizing a l v with
  | zero =>
    have hlength := hdepth a l h (h.nodup hacyclic)
    rw [List.length_cons] at hlength
    omega
  | succ room ih =>
    have hfresh : ¬ l.contains a = true := fun hmem =>
      (List.nodup_cons.mp (h.nodup hacyclic)).1 (List.contains_iff_mem.mp hmem)
    have hinner : (a :: l).length + room = joinLimit := by
      rw [List.length_cons]
      omega
    refine ⟨_, texts_of_elements fun v hmem b hb => ?_, (textWithin_succ hv).trans (if_neg hfresh)⟩
    exact ih (h.nest ⟨v, hmem, hb⟩) hinner hb

end Store

/-! ## The text of a value -/

/-- **The text of a value.** Its conversion comes to an end, and leaves the stack of the arrays that
are being joined as it was. Meanwhile there are no more arrays on it than may be, and none twice. No
object changes. The text of an array is that of plain recursion, if no array is inside itself and
they are not too deep inside each other. -/
theorem text_of_value (s : Store) (v : Value) (joining : List ObjectId) :
    (∃ n, ∀ m ≥ n, Conversion.run s m ⟨.value v, [], joining⟩ =
      ⟨.text (s.textWithin joining (Store.joinLimit - joining.length) v), [], joining⟩) ∧
    (∀ n, (Conversion.run s n ⟨.value v, [], joining⟩).Within joining) ∧
    (∀ w, Exec.text v ⟨s, w⟩ = (.ok (s.textWithin [] Store.joinLimit v), ⟨s, w⟩)) ∧
    ∀ o, s.array? v = some o →
      (∀ a, Relation.ReflTransGen s.Nests o a → ¬ Relation.TransGen s.Nests a a) →
      (∀ a l, s.Path o a l → (a :: l).Nodup → (a :: l).length ≤ Store.joinLimit) →
      ∃ texts, s.textWithin [] Store.joinLimit v = ",".intercalate texts ∧
        s.Texts (s.arrayValues o) texts ∧
        ∀ texts', s.Texts (s.arrayValues o) texts' → texts' = texts := by
  refine ⟨?_, fun n => (Conversion.within_start _ joining).run s n, fun w => rfl,
    fun o ho hacyclic hdepth => ?_⟩
  · obtain ⟨n, hn⟩ := Conversion.reaches_text s _ rfl v []
    refine ⟨n, fun m hm => ?_⟩
    obtain ⟨k, rfl⟩ := Nat.exists_eq_add_of_le hm
    rw [Conversion.run_add, hn, Conversion.run_text]
  · obtain ⟨texts, htexts, htext⟩ :=
      Store.texts_of_path hacyclic hdepth .start (Nat.zero_add _) ho
    exact ⟨texts, htext, htexts, fun _ h => htexts.unique h⟩

/-- An array that has another one twice as an element, and nothing after that. -/
theorem text_of_shared_element :
    let inner : Object := .array [.string "x", .boolean true]
    let outer : Object := .array [.object ⟨1⟩, .object ⟨1⟩, .null]
    let s : Store := ⟨#[outer, inner], #[], #[]⟩
    s.array? (.object ⟨0⟩) = some ⟨0⟩ ∧
      (∀ a, Relation.ReflTransGen s.Nests ⟨0⟩ a → ¬ Relation.TransGen s.Nests a a) ∧
      (∀ a l, s.Path ⟨0⟩ a l → (a :: l).Nodup → (a :: l).length ≤ Store.joinLimit) ∧
      ∃ texts, s.textWithin [] Store.joinLimit (.object ⟨0⟩) = ",".intercalate texts ∧
        s.Texts (s.arrayValues ⟨0⟩) texts := by
  intro inner outer s
  have houter : s.arrayValues ⟨0⟩ = [.object ⟨1⟩, .object ⟨1⟩, .null] :=
    Store.IsArrayOf.arrayValues ⟨by decide, rfl⟩ (by decide)
  have hinner : s.arrayValues ⟨1⟩ = [.string "x", .boolean true] :=
    Store.IsArrayOf.arrayValues ⟨by decide, rfl⟩ (by decide)
  have hnests : ∀ {a b}, s.Nests a b → a = ⟨0⟩ ∧ b = ⟨1⟩ := by
    rintro ⟨_ | _ | n⟩ b ⟨v, hv, hb⟩
    · rw [houter] at hv
      obtain ⟨rfl, -⟩ := Store.eq_object_of_array? hb
      simpa using hv
    · rw [hinner] at hv
      obtain ⟨rfl, -⟩ := Store.eq_object_of_array? hb
      simp at hv
    · have habsent : s.object ⟨n + 2⟩ = default :=
        Store.object_of_size_le (show s.objects.size ≤ n + 2 from Nat.le_add_left 2 n)
      rw [Store.arrayValues, Store.arrayLength, Store.ownValue?, habsent] at hv
      exact absurd hv List.not_mem_nil
  have harray : s.array? (.object ⟨0⟩) = some ⟨0⟩ := rfl
  have hacyclic : ∀ a, Relation.ReflTransGen s.Nests ⟨0⟩ a → ¬ Relation.TransGen s.Nests a a := by
    intro a _ hcycle
    obtain ⟨_, hfirst, _⟩ := Relation.TransGen.head'_iff.mp hcycle
    obtain ⟨_, _, hlast⟩ := Relation.TransGen.tail'_iff.mp hcycle
    exact absurd ((hnests hfirst).1.symm.trans (hnests hlast).2) (by decide)
  have hdepth : ∀ a l, s.Path ⟨0⟩ a l → (a :: l).Nodup → (a :: l).length ≤ Store.joinLimit := by
    rintro a l (_ | ⟨_ | ⟨_, hfirst⟩, hlast⟩) _
    · decide
    · exact (by decide : 2 ≤ Store.joinLimit)
    · exact absurd ((hnests hlast).1.symm.trans (hnests hfirst).2) (by decide)
  obtain ⟨-, -, -, hplain⟩ := text_of_value s (.object ⟨0⟩) []
  obtain ⟨texts, htext, htexts, -⟩ := hplain ⟨0⟩ harray hacyclic hdepth
  exact ⟨harray, hacyclic, hdepth, texts, htext, htexts⟩

end ActionVm
