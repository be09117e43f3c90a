import ActionVm.Proofs.Store.Correspondence

/-!
# What corresponding stores say

Whatever is looked up in two stores that correspond is the same, but for the things that stand for
each other.

* `Object.Matches.define`, `Object.matches_array` and the like: matching objects;
* `Corresponds.lookup?`, `Corresponds.findScope`: members and variables;
* `Corresponds.keys_eq`, `Corresponds.arrayValues`: enumerations and arrays;
* **`Corresponds.text_eq`**: the texts of values.
-/

namespace ActionVm

open List (Forall₂ rel_map)

variable {η : Naming}

/-! ## Matching objects -/

namespace Object.Matches

variable {o o' : Object} (h : o.Matches η o')
include h

theorem buffer? : Option.Rel η.buffer o.buffer? o'.buffer? := by
  have hpayload := h.payload
  unfold Object.buffer?
  revert hpayload
  generalize o.payload = p
  generalize o'.payload = p'
  intro hpayload
  cases hpayload with
  | buffer h => exact .some h
  | plain | function | domain => exact .none

theorem domain? : Option.Rel η.domain o.domain? o'.domain? := by
  have hpayload := h.payload
  unfold Object.domain?
  revert hpayload
  generalize o.payload = p
  generalize o'.payload = p'
  intro hpayload
  cases hpayload with
  | domain h => exact .some h
  | plain | function | buffer => exact .none

theorem callable? : Option.Rel (Callable.Matches η) o.callable? o'.callable? := by
  have hpayload := h.payload
  unfold Object.callable?
  revert hpayload
  generalize o.payload = p
  generalize o'.payload = p'
  intro hpayload
  cases hpayload with
  | function h => exact .some h
  | plain | buffer | domain => exact .none

theorem value? (name : String) :
    Option.Rel (Value.Matches η) (o.value? name) (o'.value? name) := by
  refine (h.properties.get? name).bind fun p p' hp => ?_
  cases hp with
  | data hv => exact .some hv
  | accessor => exact .none

theorem isArray_eq : o.isArray = o'.isArray := by
  rw [Object.isArray, Object.isArray, h.className]

theorem define (name : String) {v v' : Value} (hv : v.Matches η v') :
    (o.define name v).Matches η (o'.define name v') :=
  { h with properties := h.properties.insert name (.data hv) }

end Object.Matches

theorem Object.matches_ofClass (className : String) {p p' : Option ObjectId}
    (hp : Option.Rel η.object p p') :
    (Object.ofClass className p).Matches η (.ofClass className p') :=
  ⟨rfl, hp, .nil, .nil, .plain⟩

theorem Object.matches_plain : Object.plain.Matches η .plain := matches_ofClass _ .none

theorem Object.matches_byteArray {b b' : BufferId} (hb : η.buffer b b') :
    (Object.byteArray b).Matches η (.byteArray b') := ⟨rfl, .none, .nil, .nil, .buffer hb⟩

theorem Object.matches_domain {d d' : DomainId} (hd : η.domain d d') {p p' : ObjectId}
    (hp : η.object p p') : (Object.domain d (some p)).Matches η (.domain d' (some p')) :=
  ⟨rfl, .some hp, .nil, .nil, .domain hd⟩

theorem Object.matches_function {c c' : Callable} (hc : c.Matches η c') {p p' : ObjectId}
    (hp : η.object p p') : (Object.function c p).Matches η (.function c' p') :=
  ⟨rfl, .none, .cons ⟨rfl, .data (.object hp)⟩ .nil, .nil, .function hc⟩

theorem Object.matches_array {values values' : List Value}
    (h : Forall₂ (Value.Matches η) values values') :
    (Object.array values).Matches η (.array values') := by
  have helements : ∀ n, Forall₂ (fun x x' => x.1 = x'.1 ∧ Property.Matches η x.2 x'.2)
      ((values.zipIdx n).map fun x => (toString x.2, Property.data x.1))
      ((values'.zipIdx n).map fun x => (toString x.2, Property.data x.1)) := by
    induction h with
    | nil => exact fun _ => .nil
    | cons hv _ ih => exact fun n => .cons ⟨rfl, .data hv⟩ (ih (n + 1))
  refine ⟨rfl, .none, List.rel_append (helements 0) (.cons ⟨rfl, ?_⟩ .nil), .nil, .plain⟩
  rw [h.length_eq]
  exact .data (.same rfl)

/-! ## Members -/

namespace Setting.Corresponds

variable {Γ : Setting} {s s' : Store} {o o' : ObjectId}

section Objects

variable (h : Γ.Corresponds η s s') (ho : η.object o o')
include h ho

theorem matches_object : (s.object o).Matches η (s'.object o') := (h.object ho).2.2

theorem own? (name : String) :
    Option.Rel (Property.Matches η) (s.own? o name) (s'.own? o' name) :=
  (h.matches_object ho).properties.get? name

theorem ownValue? (name : String) :
    Option.Rel (Value.Matches η) (s.ownValue? o name) (s'.ownValue? o' name) :=
  (h.matches_object ho).value? name

theorem ancestors (limit : ℕ) :
    Forall₂ η.object (s.ancestors limit o) (s'.ancestors limit o') := by
  induction limit generalizing o o' with
  | zero => exact .nil
  | succ limit ih =>
    have hproto := (h.matches_object ho).proto
    rw [Store.ancestors, Store.ancestors]
    revert hproto
    generalize (s.object o).proto = p
    generalize (s'.object o').proto = p'
    rintro (hp | _)
    · exact .cons hp (ih hp)
    · exact .nil

theorem lookup? (name : String) :
    Option.Rel (Property.Matches η) (s.lookup? o name) (s'.lookup? o' name) := by
  have hown := h.own? ho name
  rw [Store.lookup?, Store.lookup?]
  revert hown
  generalize s.own? o name = p
  generalize s'.own? o' name = p'
  rintro (hp | _)
  · exact .some hp
  · exact (h.ancestors ho _).findSome? fun a a' ha => h.own? ha name

theorem slot? (name : String) :
    Option.Rel (Value.Matches η) (s.slot? o name) (s'.slot? o' name) := by
  have hbuffer := (h.matches_object ho).buffer?
  rw [Store.slot?, Store.slot?]
  revert hbuffer
  generalize (s.object o).buffer? = b
  generalize (s'.object o').buffer? = b'
  rintro (hb | _)
  · dsimp only
    rw [(h.buffer hb).2.2]
    split_ifs
    · exact .some (.same rfl)
    · refine .self fun v hv => .same ?_
      obtain ⟨i, -, rfl⟩ := Option.map_eq_some_iff.mp hv
      split <;> rfl
  · exact .none

theorem has_eq (name : String) : s.has o name = s'.has o' name := by
  rw [Store.has, Store.has, (h.slot? ho name).isSome_eq, (h.lookup? ho name).isSome_eq]

theorem keys_eq : s.keys o = s'.keys o' := by
  have hnames : ∀ {l l' : List ObjectId}, Forall₂ η.object l l' →
      (l.flatMap fun h => (s.object h).properties.names.filter (!Store.isHidden ·)) =
        l'.flatMap fun h => (s'.object h).properties.names.filter (!Store.isHidden ·) := by
    intro l l' hl
    induction hl with
    | nil => rfl
    | cons hp _ ih =>
      rw [List.flatMap_cons, List.flatMap_cons, ih, (h.matches_object hp).properties.names_eq]
  simp only [Store.keys, hnames (.cons ho (h.ancestors ho _)), (h.matches_object ho).isArray_eq]

theorem arrayLength_eq : s.arrayLength o = s'.arrayLength o' := by
  have hlength := h.ownValue? ho "length"
  rw [Store.arrayLength, Store.arrayLength]
  revert hlength
  generalize s.ownValue? o "length" = v
  generalize s'.ownValue? o' "length" = v'
  rintro (hv | _)
  · exact hv.congr Value.toCount fun _ _ => rfl
  · rfl

theorem arrayValues :
    Forall₂ (Value.Matches η) (s.arrayValues o) (s'.arrayValues o') := by
  rw [Store.arrayValues, Store.arrayValues, h.arrayLength_eq ho]
  refine List.forall₂_map_left_iff.mpr (List.forall₂_map_right_iff.mpr ?_)
  exact List.forall₂_same.mpr fun i _ => (h.ownValue? ho (toString i)).getD (.same rfl)

end Objects

variable {v v' : Value}

section Values

variable (h : Γ.Corresponds η s s') (hv : v.Matches η v')
include h hv

theorem callable? : Option.Rel (Callable.Matches η) (s.callable? v) (s'.callable? v') :=
  hv.object?.bind fun _ _ ho => (h.matches_object ho).callable?

theorem kind_eq : s.kind v = s'.kind v' := by
  cases hv with
  | same hv =>
    cases v with
    | object o => cases hv
    | _ => rfl
  | object ho => rw [Store.kind, Store.kind, (h.matches_object ho).callable?.isSome_eq]

theorem superOf : (superOf s v).Matches η (superOf s' v') := by
  have hproto : Option.Rel η.object (v.object?.bind fun o => (s.object o).proto)
      (v'.object?.bind fun o => (s'.object o).proto) :=
    hv.object?.bind fun _ _ ho => (h.matches_object ho).proto
  exact (hproto.bind fun _ _ hp => h.ownValue? hp "__constructor__").getD (.same rfl)

end Values

/-- The texts of values, with the arrays that are being joined. -/
theorem textWithin_eq (h : Γ.Corresponds η s s') (room : ℕ) {joining joining' : List ObjectId}
    (hjoining : Forall₂ η.object joining joining') (hv : v.Matches η v') :
    s.textWithin joining room v = s'.textWithin joining' room v' := by
  induction room using Nat.strongRecOn generalizing joining joining' v v' with
  | _ room ih =>
    unfold Store.textWithin
    cases hv with
    | same hv => cases v <;> first | rfl | cases hv
    | @object o o' ho =>
      have hpayload := (h.matches_object ho).payload
      dsimp only
      rw [(h.matches_object ho).isArray_eq]
      revert hpayload
      generalize (s.object o).payload = p
      generalize (s'.object o').payload = p'
      rintro (_ | _ | hb | _)
      · cases room with
        | zero => rfl
        | succ room =>
          have hcontains : joining.contains o = joining'.contains o' := by
            rw [Bool.eq_iff_iff, List.contains_iff_mem, List.contains_iff_mem]
            exact List.rel_mem h.oneToOne.object ho hjoining
          have htexts : (s.arrayValues o).map (fun v =>
                if v.isNullish then "" else s.textWithin (o :: joining) room v) =
              (s'.arrayValues o').map fun v =>
                if v.isNullish then "" else s'.textWithin (o' :: joining') room v := by
            rw [← List.forall₂_eq_eq_eq, List.forall₂_map_left_iff, List.forall₂_map_right_iff]
            refine (h.arrayValues ho).imp fun a a' ha => ?_
            rw [ih room (Nat.lt_succ_self room) (.cons ho hjoining) ha,
              ha.congr Value.isNullish fun _ _ => rfl]
          simp only [hcontains, htexts]
      · rfl
      · dsimp only
        rw [(h.buffer hb).2.2]
      · rfl

/-- **The texts of values** are the same. -/
theorem text_eq (h : Γ.Corresponds η s s') (hv : v.Matches η v') : s.text v = s'.text v' :=
  h.textWithin_eq _ .nil hv

/-! ## Variables -/

theorem findScope (h : Γ.Corresponds η s s') {scope scope' : Scope}
    (hscope : scope.Matches η scope') (name : String) :
    Option.Rel η.object (s.findScope scope name) (s'.findScope scope' name) :=
  hscope.toList.find? fun _ _ ho => h.has_eq ho name

end Setting.Corresponds

end ActionVm
