import Criteria.Proofs.Evaluation.Places
import Criteria.Proofs.Number.Value

/-!
# What makes values equal

Strict equality asks one thing of each value: which truth value, number or string it is, or where it
lives when it is an array or an object. `Value.identity?` is that thing, numbers by their exact
values, and only NaN has none. Two values are equal when they have the same identity
(`Value.strictEq_iff_identity`), so equality is symmetric and transitive, and everything but NaN is
equal to itself (`Value.strictEq_partialEquivalence`).

In one tree of data an array or object lives at one path, so what is read at two paths is the same
array or object only when the paths are the same (`Value.strictEq_read_iff`).
-/

namespace Criteria

/-! ## Identities -/

/-- What a number is worth. -/
inductive Quantity
  | rational (value : ℚ)
  | infinite (negative : Bool)

/-- What strict equality compares of a value. -/
inductive Identity
  | missing
  | null
  | bool (value : Bool)
  /-- A number, by what it is worth. -/
  | number (quantity : Quantity)
  | string (value : String)
  /-- An array, by the place where it lives. -/
  | array (mark : Mark)
  /-- An object, by the place where it lives. -/
  | object (mark : Mark)

/-- The name of the kind of the values with an identity. -/
def Identity.kind : Identity → String
  | .missing => "undefined"
  | .null => "null"
  | .bool _ => "boolean"
  | .number _ => "number"
  | .string _ => "string"
  | .array _ => "array"
  | .object _ => "object"

namespace Double

/-- What a double is worth; NaN is worth nothing. -/
def quantity? : Double → Option Quantity
  | .nan => none
  | .infinite negative => some (.infinite negative)
  | .finite negative significand scale h =>
    (Double.finite negative significand scale h).value?.map .rational

variable {d e : Double}

theorem quantity_of_units {u : Int} (h : d.units? = some u) :
    d.quantity? = some (.rational (u / unitsPerOne)) := by
  cases d with
  | nan => cases h
  | infinite => cases h
  | finite =>
    rw [quantity?, value?, h]
    rfl

theorem eqInt_iff_quantity {n : Int} :
    d.eqInt n = true ↔ d.quantity? = some (.rational n) := by
  rw [eqInt_iff_value]
  cases d with
  | nan => exact iff_of_false nofun nofun
  | infinite => exact iff_of_false nofun nofun
  | finite => simp [quantity?]

theorem numEq_iff_quantity :
    d.numEq e = true ↔ ∃ q, d.quantity? = some q ∧ e.quantity? = some q := by
  constructor
  · intro h
    rcases eq_or_units_of_numEq h with rfl | ⟨u, hd, he⟩
    · cases d with
      | nan => cases h
      | infinite negative => exact ⟨_, rfl, rfl⟩
      | finite => exact ⟨_, rfl, rfl⟩
    · exact ⟨_, quantity_of_units hd, quantity_of_units he⟩
  · rintro ⟨q, hd, he⟩
    cases d with
    | nan => cases hd
    | infinite a =>
      cases hd
      cases e with
      | infinite b =>
        cases he
        exact (numEq_iff (rank_infinite a) (rank_infinite a)).2 rfl
      | _ => cases he
    | finite =>
      cases hd
      cases e with
      | finite =>
        have hvalue := Quantity.rational.inj (Option.some.inj he)
        exact numEq_of_units rfl (congrArg some (div_unitsPerOne_inj.1 hvalue))
      | _ => cases he

end Double

namespace Scalar

/-- What strict equality compares of a value without parts. -/
def identity? : Scalar → Option Identity
  | .null => some .null
  | .bool b => some (.bool b)
  | .int n => some (.number (.rational n))
  | .double d => d.quantity?.map .number
  | .string s => some (.string s)

theorem same_iff_identity {a b : Scalar} :
    a.same b = true ↔ ∃ i, a.identity? = some i ∧ b.identity? = some i := by
  cases a with
  | double d =>
    cases b with
    | int n => simp [same, identity?, Double.eqInt_iff_quantity]
    | double e =>
      simp only [same, identity?, Double.numEq_iff_quantity, Option.map_eq_some_iff]
      constructor
      · rintro ⟨q, hd, he⟩
        exact ⟨_, ⟨q, hd, rfl⟩, q, he, rfl⟩
      · rintro ⟨_, ⟨q, hd, rfl⟩, _, he, ⟨⟩⟩
        exact ⟨q, hd, he⟩
    | _ => simp [same, identity?]
  | int n =>
    cases b with
    | double e => simp [same, identity?, Double.eqInt_iff_quantity]
    | _ => simp [same, identity?] <;> exact eq_comm
  | _ => cases b <;> simp [same, identity?] <;> exact eq_comm

end Scalar

namespace Value

/-- What strict equality compares of a value. -/
def identity? : Value → Option Identity
  | .missing => some .missing
  | .scalar value => value.identity?
  | .array mark _ => some (.array mark)
  | .object mark _ => some (.object mark)

variable {v w x : Value}

/-- **Equal values are those with the same identity.** -/
theorem strictEq_iff_identity :
    v.strictEq w = true ↔ ∃ i, v.identity? = some i ∧ w.identity? = some i := by
  cases v with
  | scalar a =>
    cases w with
    | scalar b => exact Scalar.same_iff_identity
    | _ => cases a <;> simp [strictEq, identity?, Scalar.identity?]
  | _ =>
    cases w with
    | scalar b => cases b <;> simp [strictEq, identity?, Scalar.identity?]
    | _ => simp [strictEq, identity?] <;> exact eq_comm

theorem strictEq_comm : v.strictEq w = w.strictEq v := by
  rw [Bool.eq_iff_iff, strictEq_iff_identity, strictEq_iff_identity]
  exact exists_congr fun _ => and_comm

theorem strictEq_trans (h : v.strictEq w = true) (h' : w.strictEq x = true) :
    v.strictEq x = true := by
  obtain ⟨i, hv, hw⟩ := strictEq_iff_identity.1 h
  obtain ⟨j, hw', hx⟩ := strictEq_iff_identity.1 h'
  cases hw.symm.trans hw'
  exact strictEq_iff_identity.2 ⟨i, hv, hx⟩

/-- Only NaN is not equal to itself. -/
theorem strictEq_self_iff : v.strictEq v = true ↔ v ≠ .scalar (.double .nan) := by
  have hsome : v.strictEq v = true ↔ v.identity? ≠ none := by
    rw [strictEq_iff_identity, Option.ne_none_iff_exists']
    exact exists_congr fun _ => and_self_iff
  have hdouble : ∀ d : Double, d.quantity? = none ↔ d = .nan := fun d => by
    cases d <;> simp [Double.quantity?, Double.value?, Double.units?]
  rw [hsome]
  cases v with
  | scalar a => cases a <;> simp [identity?, Scalar.identity?, hdouble]
  | _ => simp [identity?]

theorem kind_of_identity {i : Identity} (h : v.identity? = some i) : v.kind = i.kind := by
  cases v with
  | scalar a =>
    cases a with
    | double d =>
      obtain ⟨q, -, rfl⟩ := Option.map_eq_some_iff.1 h
      rfl
    | _ =>
      cases h
      rfl
  | _ =>
    cases h
    rfl

theorem kind_eq_of_strictEq (h : v.strictEq w = true) : v.kind = w.kind := by
  obtain ⟨i, hv, hw⟩ := strictEq_iff_identity.1 h
  rw [kind_of_identity hv, kind_of_identity hw]

end Value

/-! ## Places -/

namespace Path

/-- The segments that a path leads along; the empty path leads nowhere. -/
def steps (path : String) : List String := if path = "" then [] else segments path

theorem segments_ne_nil (path : String) : segments path ≠ [] :=
  mt List.map_eq_nil_iff.1 (Text.pieces_ne_nil _ _)

theorem segments_injective {p q : String} (h : segments p = segments q) : p = q := by
  have hpieces := List.map_injective_iff.2 (fun _ _ => String.ofList_inj.1) h
  rw [← String.toList_inj, ← Text.intercalate_pieces '.' p.toList, hpieces,
    Text.intercalate_pieces]

theorem steps_injective {p q : String} (h : steps p = steps q) : p = q := by
  unfold steps at h
  split_ifs at h with hp hq hq
  · rw [hp, hq]
  · exact absurd h.symm (segments_ne_nil q)
  · exact absurd h (segments_ne_nil p)
  · exact segments_injective h

end Path

namespace Value

variable {v w : Value}

theorem read_eq_follow (value : Value) (path : String) :
    value.read path = value.follow (Path.steps path) := by
  unfold read Path.steps
  split <;> rfl

/-- The place where an array or object lives. -/
def place? : Value → Option Mark
  | .array mark _ => some mark
  | .object mark _ => some mark
  | _ => none

/-- **Arrays and objects are equal to what lives in the same place.** -/
theorem strictEq_iff_place {place : Mark} (h : v.place? = some place) :
    v.strictEq w = true ↔ w.place? = some place ∧ w.kind = v.kind := by
  cases v with
  | array =>
    cases h
    cases w with
    | array => simpa [strictEq, place?, kind] using eq_comm
    | _ => simp [strictEq, place?, kind]
  | object =>
    cases h
    cases w with
    | object => simpa [strictEq, place?, kind] using eq_comm
    | _ => simp [strictEq, place?, kind]
  | _ => cases h

theorem place_ofJson {mark place : Mark} {data : Json}
    (h : (ofJson mark data).place? = some place) : place = mark := by
  cases data <;> cases h <;> rfl

/-- What lies some segments further inside lives as many steps further inside. -/
theorem place_of_follow {mark place : Mark} {data : Json} {segments : List String}
    (h : (ofJson mark data).follow segments = .ok (some v)) (hplace : v.place? = some place) :
    ∃ steps, steps.length = segments.length ∧ place = ⟨mark.root, steps ++ mark.way⟩ := by
  induction segments generalizing mark data with
  | nil =>
    cases h
    exact ⟨[], rfl, place_ofJson hplace⟩
  | cons segment rest ih =>
    obtain ⟨found, hpart, h⟩ := bind_ok h
    cases found with
    | none => cases h
    | some next =>
      obtain ⟨i, x, -, rfl⟩ := part?_ofJson hpart
      obtain ⟨steps, hlength, rfl⟩ := ih h
      exact ⟨steps ++ [i], by simp [hlength], by simp⟩

/-- **One way leads to each place.** -/
theorem segments_eq_of_follow {mark place : Mark} {data : Json} {s t : List String}
    (hv : (ofJson mark data).follow s = .ok (some v)) (hplace : v.place? = some place)
    (hw : (ofJson mark data).follow t = .ok (some w)) (hplace' : w.place? = some place) :
    s = t := by
  induction s generalizing mark data t with
  | nil =>
    cases hv
    obtain ⟨steps, hlength, hsteps⟩ := place_of_follow hw hplace'
    rw [place_ofJson hplace, Mark.mk.injEq, List.self_eq_append_left] at hsteps
    obtain ⟨-, rfl⟩ := hsteps
    exact (List.length_eq_zero_iff.1 hlength.symm).symm
  | cons segment rest ih =>
    cases t with
    | nil =>
      cases hw
      obtain ⟨steps, hlength, hsteps⟩ := place_of_follow hv hplace
      rw [place_ofJson hplace', Mark.mk.injEq, List.self_eq_append_left] at hsteps
      obtain ⟨-, rfl⟩ := hsteps
      cases hlength
    | cons segment' rest' =>
      obtain ⟨_ | next, hpart, hv⟩ := bind_ok hv
      · cases hv
      obtain ⟨_ | next', hpart', hw⟩ := bind_ok hw
      · cases hw
      obtain ⟨i, x, hx, rfl⟩ := part?_ofJson hpart
      obtain ⟨j, y, hy, rfl⟩ := part?_ofJson hpart'
      -- both ways end in the same place, so they start with the same step
      obtain ⟨steps, -, hsteps⟩ := place_of_follow hv hplace
      obtain ⟨steps', -, hsteps'⟩ := place_of_follow hw hplace'
      have hway := congrArg Mark.way (hsteps.symm.trans hsteps')
      obtain ⟨-, hstep⟩ := List.append_inj' hway rfl
      obtain ⟨rfl, -⟩ := List.cons.inj hstep
      obtain rfl := Json.segment_eq_of_partAt? hx hy
      cases hx.symm.trans hy
      rw [ih hv hw]

/-- In one tree of data, an array or object is equal only to what is read at the same path. -/
theorem strictEq_read_iff {mark place : Mark} {data : Json} {p q : String}
    (hv : (ofJson mark data).read p = .ok (some v)) (hplace : v.place? = some place)
    (hw : (ofJson mark data).read q = .ok (some w)) : v.strictEq w = true ↔ p = q := by
  constructor
  · intro h
    have hplace' := ((strictEq_iff_place hplace).1 h).1
    rw [read_eq_follow] at hv hw
    exact Path.steps_injective (segments_eq_of_follow hv hplace hw hplace')
  · rintro rfl
    cases hv.symm.trans hw
    refine strictEq_self_iff.2 ?_
    rintro rfl
    cases hplace

/-- **Strict equality is a partial equivalence that leaves out NaN.** It is symmetric and
transitive, and every value but NaN is equal to itself. An integer and a double are equal when the
exact value of the double is the integer; an array or object is equal to the one that lives where it
does, which in one tree of data is the one at the same path; and values of different kinds differ. -/
theorem strictEq_partialEquivalence :
    (∀ v w : Value, v.strictEq w = w.strictEq v) ∧
    (∀ u v w : Value, u.strictEq v = true → v.strictEq w = true → u.strictEq w = true) ∧
    (∀ v : Value, v.strictEq v = true ↔ v ≠ .scalar (.double .nan)) ∧
    (∀ (n : Int) (d : Double),
      (Value.scalar (.int n)).strictEq (.scalar (.double d)) = true ↔ d.value? = some (n : ℚ)) ∧
    (∀ (v w : Value) (place : Mark), v.place? = some place →
      (v.strictEq w = true ↔ w.place? = some place ∧ w.kind = v.kind)) ∧
    (∀ (mark place : Mark) (data : Json) (p q : String) (v w : Value),
      (ofJson mark data).read p = .ok (some v) → v.place? = some place →
        (ofJson mark data).read q = .ok (some w) → (v.strictEq w = true ↔ p = q)) ∧
    (∀ v w : Value, v.strictEq w = true → v.kind = w.kind) := by
  refine ⟨fun _ _ => strictEq_comm, fun _ _ _ => strictEq_trans, fun _ => strictEq_self_iff,
    fun n d => Double.eqInt_iff_value, ?_, ?_, fun _ _ => kind_eq_of_strictEq⟩
  · exact fun _ _ _ hplace => strictEq_iff_place hplace
  · exact fun _ _ _ _ _ _ _ hv hplace hw => strictEq_read_iff hv hplace hw

end Value

end Criteria
