import Mathlib.Algebra.Group.Nat.Defs
import Mathlib.Data.List.Induction
import Criteria.Proofs.Evaluation.Twins

/-!
# Places in data

The same path leads to a place in each of two trees of data, if it leads anywhere.
`Json.Aligned p q way way' x y` says that the same steps lead to `x` in `p` and to `y` in `q`; the
ways differ where objects list their entries otherwise. Places correspond one to one
(`oneToOne_corresponds`), since an array index has one spelling (`Path.indexValue_injective`). So
parts of two trees that have the same content and are read at the same path are twins
(`Value.twin_of_read`).
-/

namespace Criteria

/-! ## Array indices -/

namespace Path

theorem digitChar_of_isDigit {c : Char} (h : c.isDigit = true) :
    c.toNat - '0'.toNat < 10 ∧ Nat.digitChar (c.toNat - '0'.toNat) = c := by
  have hzero : '0'.toNat = 48 := rfl
  have hrange : 48 ≤ c.toNat ∧ c.toNat ≤ 57 := by
    simpa [Char.isDigit, UInt32.le_iff_toNat_le] using h
  have hlt : c.toNat - '0'.toNat < 10 := by omega
  refine ⟨hlt, Char.toNat_inj.1 ?_⟩
  rw [Nat.toNat_digitChar_of_lt_ten hlt]
  omega

/-- Digits that do not start with a zero are those of their number. -/
theorem toDigits_ofDigitChars {cs : List Char} (hne : cs ≠ []) (hzero : cs.head? ≠ some '0')
    (hdigits : ∀ c ∈ cs, c.isDigit = true) : Nat.toDigits 10 (Nat.ofDigitChars 10 cs 0) = cs := by
  induction cs using List.reverseRecOn with
  | nil => exact absurd rfl hne
  | append_singleton init last ih =>
    obtain ⟨hinit, hlast⟩ := List.forall_mem_append.1 hdigits
    obtain ⟨hlt, hchar⟩ := digitChar_of_isDigit (hlast last (List.mem_singleton_self _))
    have hdigit : Nat.toDigits 10 (last.toNat - '0'.toNat) = [last] := by
      rw [Nat.toDigits_of_lt_base hlt, hchar]
    rw [Nat.ofDigitChars_append, Nat.ofDigitChars_cons, Nat.ofDigitChars_nil]
    rcases init with _ | ⟨first, rest⟩
    · simpa using hdigit
    · have hnumber := ih (List.cons_ne_nil _ _) hzero hinit
      have hpos : 0 < Nat.ofDigitChars 10 (first :: rest) 0 := by
        rw [Nat.pos_iff_ne_zero]
        intro h0
        rw [h0] at hnumber
        cases hnumber
        exact hzero rfl
      rw [← Nat.toDigits_append_toDigits (by decide) hpos hlt, hnumber, hdigit]

theorem toDigits_indexValue {segment : String} (h : isIndex segment = true) :
    Nat.toDigits 10 (indexValue segment) = segment.toList := by
  unfold isIndex at h
  unfold indexValue
  split at h
  · cases h
  · rename_i hzero
    rw [hzero]
    rfl
  · rename_i c rest _ hcs
    rw [hcs]
    simp only [Bool.and_eq_true, bne_iff_ne, List.all_eq_true] at h
    obtain ⟨⟨hne, hc⟩, hrest⟩ := h
    refine toDigits_ofDigitChars (List.cons_ne_nil _ _) ?_ (List.forall_mem_cons.2 ⟨hc, hrest⟩)
    rintro ⟨⟩
    exact hne rfl

/-- **An index has one spelling.** -/
theorem indexValue_injective {s t : String} (hs : isIndex s = true) (ht : isIndex t = true)
    (h : indexValue s = indexValue t) : s = t := by
  rw [← String.toList_inj, ← toDigits_indexValue hs, ← toDigits_indexValue ht, h]

/-- A number other than zero is not written with a zero in front. -/
theorem head?_toDigits_ne {n : Nat} (h : n ≠ 0) : (Nat.toDigits 10 n).head? ≠ some '0' := by
  induction n using Nat.strongRecOn with
  | ind n ih =>
    rcases Nat.lt_or_ge n 10 with hlt | hge
    · have hdigit : ∀ d < 10, d ≠ 0 → Nat.digitChar d ≠ '0' := by decide
      rw [Nat.toDigits_of_lt_base hlt]
      exact fun hhead => hdigit n hlt h (Option.some.inj hhead)
    · rw [Nat.toDigits_of_base_le (by decide) hge, List.head?_append_of_ne_nil _ Nat.toDigits_ne_nil]
      exact ih (n / 10) (by omega) (by omega)

/-- A number is written as an index. -/
theorem isIndex_toString (n : Nat) : isIndex (toString n) = true := by
  have hdigit : ∀ c ∈ Nat.toDigits 10 n, c.isDigit = true := fun c hc =>
    Nat.isDigit_of_mem_toDigits (by decide) (by decide) hc
  have hlist : (toString n).toList = Nat.toDigits 10 n := Nat.toList_repr
  rcases Nat.eq_zero_or_pos n with rfl | hpos
  · rfl
  obtain ⟨c, rest, hcs⟩ := List.exists_cons_of_ne_nil (Nat.toDigits_ne_nil (n := n) (b := 10))
  have hhead := head?_toDigits_ne (Nat.pos_iff_ne_zero.1 hpos)
  rw [hcs] at hlist hdigit hhead
  obtain ⟨hc, hrest⟩ := List.forall_mem_cons.1 hdigit
  unfold isIndex
  rw [hlist]
  split
  · rename_i heq
    cases heq
  · rfl
  · rename_i heq
    obtain ⟨rfl, rfl⟩ := List.cons.inj heq
    have hne : c ≠ '0' := fun h => hhead (congrArg some h)
    simpa [hne, hc] using hrest

theorem indexValue_toString (n : Nat) : indexValue (toString n) = n := by
  rw [indexValue, show (toString n).toList = Nat.toDigits 10 n from Nat.toList_repr]
  exact Nat.ofDigitChars_ten_toDigits

theorem length_toString_le {n : Nat} (h : n < 10 ^ maxIntDigits) :
    (toString n).length ≤ maxIntDigits := by
  rw [← String.length_toList, show (toString n).toList = Nat.toDigits 10 n from Nat.toList_repr]
  exact (Nat.length_toDigits_le_iff (by decide) (by decide)).2 h

end Path

/-! ## Parts of data -/

namespace Json

/-- Induction over data, from the parts of a value to the value. -/
theorem induction_on_parts {P : Json → Prop} (scalar : ∀ value, P (.scalar value))
    (array : ∀ items, (∀ item ∈ items, P item) → P (.array items))
    (object : ∀ fields, (∀ entry ∈ fields, P entry.2) → P (.object fields)) (data : Json) :
    P data :=
  @Json.rec P (fun items => ∀ item ∈ items, P item) (fun fields => ∀ entry ∈ fields, P entry.2)
    (fun entry => P entry.2) scalar array object (List.forall_mem_nil _)
    (fun _ _ hitem hrest => List.forall_mem_cons.2 ⟨hitem, hrest⟩) (List.forall_mem_nil _)
    (fun _ _ hentry hrest => List.forall_mem_cons.2 ⟨hentry, hrest⟩) (fun _ _ hvalue => hvalue) data

/-- The part of a value that a segment of a path names, and the step that leads there. -/
def partAt? (segment : String) : Json → Option (Nat × Json)
  | .scalar _ => none
  | .array items =>
    if Path.isIndex segment then
      items[Path.indexValue segment]?.map fun item => (Path.indexValue segment, item)
    else none
  | .object fields =>
    (fields.findIdx? (·.1 == segment)).bind fun i => fields[i]?.map fun entry => (i, entry.2)

theorem partAt?_array {segment : String} {items : List Json} {i : Nat} {item : Json}
    (h : (Json.array items).partAt? segment = some (i, item)) :
    Path.isIndex segment = true ∧ i = Path.indexValue segment ∧ items[i]? = some item := by
  rw [partAt?, Option.ite_none_right_eq_some, Option.map_eq_some_iff] at h
  obtain ⟨hindex, found, hfound, heq⟩ := h
  cases heq
  exact ⟨hindex, rfl, hfound⟩

theorem partAt?_object {segment : String} {fields : List (String × Json)} {i : Nat} {value : Json}
    (h : (Json.object fields).partAt? segment = some (i, value)) :
    fields[i]? = some (segment, value) := by
  rw [partAt?, Option.bind_eq_some_iff] at h
  obtain ⟨j, hj, h⟩ := h
  obtain ⟨⟨name, found⟩, hfound, heq⟩ := Option.map_eq_some_iff.1 h
  cases heq
  obtain ⟨hlt, hname, -⟩ := List.findIdx?_eq_some_iff_getElem.1 hj
  rw [List.getElem?_eq_some_iff] at hfound
  obtain ⟨_, hentry⟩ := hfound
  rw [hentry, beq_iff_eq] at hname
  rw [List.getElem?_eq_getElem hlt, hentry, ← hname]

/-- A step is named by one segment. -/
theorem segment_eq_of_partAt? {s t : String} {value x y : Json} {i : Nat}
    (hs : value.partAt? s = some (i, x)) (ht : value.partAt? t = some (i, y)) : s = t := by
  cases value with
  | scalar => cases hs
  | array items =>
    obtain ⟨hindex, hi, -⟩ := partAt?_array hs
    obtain ⟨hindex', hi', -⟩ := partAt?_array ht
    exact Path.indexValue_injective hindex hindex' (hi.symm.trans hi')
  | object fields =>
    have hentry := (partAt?_object hs).symm.trans (partAt?_object ht)
    cases hentry
    rfl

/-! ## Corresponding places -/

/-- The same steps lead to `x` in `p` and to `y` in `q`, on the given ways. -/
inductive Aligned (p q : Json) : List Nat → List Nat → Json → Json → Prop
  | root : Aligned p q [] [] p q
  | item {way way' : List Nat} {items items' : List Json} {i : Nat} {x y : Json}
    (h : Aligned p q way way' (.array items) (.array items')) (hx : items[i]? = some x)
    (hy : items'[i]? = some y) : Aligned p q (i :: way) (i :: way') x y
  | part {way way' : List Nat} {value value' : Json} {segment : String} {i j : Nat} {x y : Json}
    (h : Aligned p q way way' value value') (hx : value.partAt? segment = some (i, x))
    (hy : value'.partAt? segment = some (j, y)) : Aligned p q (i :: way) (j :: way') x y

variable {p q : Json}

theorem Aligned.symm {way way' : List Nat} {x y : Json} (h : Aligned p q way way' x y) :
    Aligned q p way' way y x := by
  induction h with
  | root => exact .root
  | item _ hx hy ih => exact .item ih hy hx
  | part _ hx hy ih => exact .part ih hy hx

/-- A way in one tree leads to one place in the other. -/
theorem Aligned.unique {way way₁ way₂ : List Nat} {x₁ x₂ y₁ y₂ : Json}
    (h : Aligned p q way way₁ x₁ y₁) (h' : Aligned p q way way₂ x₂ y₂) :
    way₁ = way₂ ∧ x₁ = x₂ ∧ y₁ = y₂ := by
  induction h generalizing way₂ x₂ y₂ with
  | root =>
    cases h' with
    | root => exact ⟨rfl, rfl, rfl⟩
  | item _ hx hy ih =>
    cases h' with
    | item h₂ hx₂ hy₂ =>
      obtain ⟨rfl, ⟨⟩, ⟨⟩⟩ := ih h₂
      cases hx.symm.trans hx₂
      cases hy.symm.trans hy₂
      exact ⟨rfl, rfl, rfl⟩
    | part h₂ hx₂ hy₂ =>
      obtain ⟨rfl, rfl, rfl⟩ := ih h₂
      obtain ⟨-, hi, hx₂⟩ := partAt?_array hx₂
      obtain ⟨-, hj, hy₂⟩ := partAt?_array hy₂
      rw [← hi] at hj
      subst hj
      cases hx.symm.trans hx₂
      cases hy.symm.trans hy₂
      exact ⟨rfl, rfl, rfl⟩
  | part _ hx hy ih =>
    cases h' with
    | item h₂ hx₂ hy₂ =>
      obtain ⟨rfl, rfl, rfl⟩ := ih h₂
      obtain ⟨-, hi, hx⟩ := partAt?_array hx
      obtain ⟨-, hj, hy⟩ := partAt?_array hy
      rw [← hi] at hj
      subst hj
      cases hx.symm.trans hx₂
      cases hy.symm.trans hy₂
      exact ⟨rfl, rfl, rfl⟩
    | part h₂ hx₂ hy₂ =>
      obtain ⟨rfl, rfl, rfl⟩ := ih h₂
      cases segment_eq_of_partAt? hx hx₂
      cases hx.symm.trans hx₂
      cases hy.symm.trans hy₂
      exact ⟨rfl, rfl, rfl⟩

/-- The places of two trees of data that the same steps lead to correspond, and every other place
corresponds to itself. -/
def Corresponds (p q : Json) (m n : Mark) : Prop :=
  (m.root = 0 ∧ n.root = 0 ∧ ∃ x y, Aligned p q m.way n.way x y) ∨ (m = n ∧ 0 < m.root)

theorem corresponds_symm {m n : Mark} (h : Corresponds p q m n) : Corresponds q p n m := by
  rcases h with ⟨hm, hn, x, y, halign⟩ | ⟨rfl, hpos⟩
  · exact .inl ⟨hn, hm, y, x, halign.symm⟩
  · exact .inr ⟨rfl, hpos⟩

theorem corresponds_unique {m n n' : Mark} (h : Corresponds p q m n) (h' : Corresponds p q m n') :
    n = n' := by
  rcases h with ⟨hm, hn, x, y, halign⟩ | ⟨rfl, hpos⟩ <;>
    rcases h' with ⟨hm', hn', x', y', halign'⟩ | ⟨rfl, hpos'⟩
  · obtain ⟨hway, -⟩ := halign.unique halign'
    rcases n with ⟨root, way⟩
    rcases n' with ⟨root', way'⟩
    cases hn.trans hn'.symm
    cases hway
    rfl
  · omega
  · omega
  · rfl

/-- **Places correspond one to one.** -/
theorem oneToOne_corresponds (p q : Json) : OneToOne (Corresponds p q) := by
  intro m n m' n' h h'
  constructor
  · rintro rfl
    exact corresponds_unique h h'
  · rintro rfl
    exact corresponds_unique (corresponds_symm h) (corresponds_symm h')

end Json

/-! ## Parts of data as values -/

namespace Value

open Json

theorem getElem?_ofItems (mark : Mark) (index : Nat) (items : List Json) (i : Nat) :
    (ofItems mark index items)[i]? =
      items[i]?.map (ofJson ⟨mark.root, (index + i) :: mark.way⟩) := by
  induction items generalizing index i with
  | nil => rfl
  | cons item rest ih =>
    cases i with
    | zero => rfl
    | succ i =>
      rw [ofItems, List.getElem?_cons_succ, List.getElem?_cons_succ, ih, Nat.add_right_comm]
      rfl

theorem lookup_ofFields {mark : Mark} {index : Nat} {fields : List (String × Json)}
    {segment : String} {value : Value}
    (h : (ofFields mark index fields).lookup segment = some value) :
    ∃ i x, (Json.object fields).partAt? segment = some (i, x) ∧
      value = ofJson ⟨mark.root, (index + i) :: mark.way⟩ x := by
  induction fields generalizing index with
  | nil => cases h
  | cons entry rest ih =>
    obtain ⟨name, x⟩ := entry
    rw [ofFields, List.lookup_cons] at h
    cases hname : segment == name with
    | true =>
      rw [hname] at h
      cases h
      refine ⟨0, x, ?_, rfl⟩
      rw [partAt?, List.findIdx?_cons, beq_iff_eq.1 hname, beq_self_eq_true, if_pos rfl]
      rfl
    | false =>
      rw [hname] at h
      obtain ⟨i, y, hpart, rfl⟩ := ih h
      refine ⟨i + 1, y, ?_, by rw [Nat.add_right_comm]; rfl⟩
      rw [partAt?, Option.bind_eq_some_iff] at hpart ⊢
      obtain ⟨j, hj, hentry⟩ := hpart
      obtain ⟨found, hfound, heq⟩ := Option.map_eq_some_iff.1 hentry
      cases heq
      refine ⟨i + 1, ?_, ?_⟩
      · rw [List.findIdx?_cons, BEq.comm, hname, hj]
        rfl
      · rw [List.getElem?_cons_succ, hfound]
        rfl

theorem length_ofItems (mark : Mark) (index : Nat) (items : List Json) :
    (ofItems mark index items).length = items.length := by
  induction items generalizing index with
  | nil => rfl
  | cons _ _ ih => rw [ofItems, List.length_cons, List.length_cons, ih]

theorem isSome_lookup_ofFields (mark : Mark) (index : Nat) (fields : List (String × Json))
    (name : String) :
    ((ofFields mark index fields).lookup name).isSome = (fields.lookup name).isSome := by
  induction fields generalizing index with
  | nil => rfl
  | cons entry rest ih =>
    rw [ofFields, List.lookup_cons, List.lookup_cons]
    split
    · rfl
    · exact ih _

/-- A part of data is the data of a part. -/
theorem part?_ofJson {mark : Mark} {data : Json} {segment : String} {value : Value}
    (h : (ofJson mark data).part? segment = .ok (some value)) :
    ∃ i x, data.partAt? segment = some (i, x) ∧ value = ofJson ⟨mark.root, i :: mark.way⟩ x := by
  cases data with
  | scalar => cases h
  | array items =>
    simp only [ofJson, part?] at h
    split at h
    · rename_i hindex
      split at h
      · cases h
      · rw [Except.ok.injEq, getElem?_ofItems, Option.map_eq_some_iff] at h
        obtain ⟨x, hx, rfl⟩ := h
        refine ⟨Path.indexValue segment, x, ?_, by rw [Nat.zero_add]⟩
        rw [partAt?, if_pos hindex, hx]
        rfl
    · cases h
  | object fields =>
    obtain ⟨i, x, hpart, rfl⟩ := lookup_ofFields (Except.ok.inj h)
    exact ⟨i, x, hpart, by rw [Nat.zero_add]⟩

/-- Data has the same content wherever it lives. -/
theorem same_ofJson (m n : Mark) (data : Json) : (ofJson m data).Same (ofJson n data) := by
  induction data using Json.induction_on_parts generalizing m n with
  | scalar value => exact .scalar value
  | array items ih =>
    refine .array trivial (by rw [length_ofItems, length_ofItems]) fun i v w hv hw => ?_
    rw [getElem?_ofItems, Option.map_eq_some_iff] at hv hw
    obtain ⟨x, hx, rfl⟩ := hv
    obtain ⟨y, hy, rfl⟩ := hw
    cases hx.symm.trans hy
    exact ih x (List.mem_of_getElem? hx) _ _
  | object fields ih =>
    refine .object trivial (fun name => ?_) fun name v w hv hw => ?_
    · rw [isSome_lookup_ofFields, isSome_lookup_ofFields]
    · obtain ⟨i, x, hx, rfl⟩ := lookup_ofFields hv
      obtain ⟨j, y, hy, rfl⟩ := lookup_ofFields hw
      cases hx.symm.trans hy
      exact ih _ (List.mem_of_getElem? (partAt?_object hx)) _ _

variable {p q : Json} {way way' : List Nat} {x y : Json}

/-- The same segments lead from corresponding parts to corresponding parts. -/
theorem aligned_of_follow (h : Aligned p q way way' x y) {segments : List String} {v w : Value}
    (hv : (ofJson ⟨0, way⟩ x).follow segments = .ok (some v))
    (hw : (ofJson ⟨0, way'⟩ y).follow segments = .ok (some w)) :
    ∃ way₁ way₂ x₁ y₁, Aligned p q way₁ way₂ x₁ y₁ ∧ v = ofJson ⟨0, way₁⟩ x₁ ∧
      w = ofJson ⟨0, way₂⟩ y₁ := by
  induction segments generalizing way way' x y with
  | nil =>
    cases hv
    cases hw
    exact ⟨way, way', x, y, h, rfl, rfl⟩
  | cons segment rest ih =>
    obtain ⟨found, hpart, hv⟩ := bind_ok hv
    obtain ⟨found', hpart', hw⟩ := bind_ok hw
    cases found with
    | none => cases hv
    | some next =>
      cases found' with
      | none => cases hw
      | some next' =>
        obtain ⟨i, x₁, hx, rfl⟩ := part?_ofJson hpart
        obtain ⟨j, y₁, hy, rfl⟩ := part?_ofJson hpart'
        exact ih (h.part hx hy) hv hw

/-- Corresponding parts with the same content are twins. -/
theorem twin_of_aligned {v w : Value} (hsame : v.Same w) (h : Aligned p q way way' x y)
    (hv : v = ofJson ⟨0, way⟩ x) (hw : w = ofJson ⟨0, way'⟩ y) :
    v.Twin (Corresponds p q) w := by
  have hmark : Corresponds p q ⟨0, way⟩ ⟨0, way'⟩ := .inl ⟨rfl, rfl, x, y, h⟩
  induction hsame generalizing way way' x y with
  | missing => exact .missing
  | scalar value => exact .scalar value
  | array _ hlength _ ih =>
    rcases x with _ | xs | _ <;> cases hv
    rcases y with _ | ys | _ <;> cases hw
    refine .array hmark hlength fun i v w hv hw => ?_
    obtain ⟨x, hx, hvx⟩ := Option.map_eq_some_iff.1 ((getElem?_ofItems _ _ _ _).symm.trans hv)
    obtain ⟨y, hy, hwy⟩ := Option.map_eq_some_iff.1 ((getElem?_ofItems _ _ _ _).symm.trans hw)
    rw [Nat.zero_add] at hvx hwy
    have hitem := h.item hx hy
    exact ih i v w hv hw hitem hvx.symm hwy.symm (.inl ⟨rfl, rfl, x, y, hitem⟩)
  | object _ hnames _ ih =>
    rcases x with _ | _ | fs <;> cases hv
    rcases y with _ | _ | gs <;> cases hw
    refine .object hmark hnames fun name v w hv hw => ?_
    obtain ⟨i, x, hx, hvx⟩ := lookup_ofFields hv
    obtain ⟨j, y, hy, hwy⟩ := lookup_ofFields hw
    rw [Nat.zero_add] at hvx hwy
    have hentry := h.part hx hy
    exact ih name v w hv hw hentry hvx hwy (.inl ⟨rfl, rfl, x, y, hentry⟩)

/-- **What two trees have in common at a path are twins.** -/
theorem twin_of_read {path : String} {v w : Value}
    (hv : (ofJson ⟨0, []⟩ p).read path = .ok (some v))
    (hw : (ofJson ⟨0, []⟩ q).read path = .ok (some w)) (hsame : v.Same w) :
    v.Twin (Corresponds p q) w := by
  unfold read at hv hw
  split at hv
  · rename_i hpath
    rw [if_pos hpath] at hw
    cases hv
    cases hw
    exact twin_of_aligned hsame .root rfl rfl
  · rename_i hpath
    rw [if_neg hpath] at hw
    obtain ⟨way, way', x, y, h, rfl, rfl⟩ := aligned_of_follow .root hv hw
    exact twin_of_aligned hsame h rfl rfl

end Value

end Criteria
