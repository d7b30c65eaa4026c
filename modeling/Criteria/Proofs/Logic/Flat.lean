import Criteria.Proofs.Logic.Canonical

/-!
# Flat lists of operands

In the JSON-Logic of a condition no operand of a connective is an expression of the same connective,
at any depth (`Json.Flat`).

Which operands stand in a list does not depend on how the chain associates. They come from the
largest parts of the condition that are no chains of the connective, from left to right. A part is
found by a route, which says at each node whether to go on with its first or with its second part
(`Expr.at?`). Routes to the largest such parts are described by `Expr.LeavesChain`, and from left to
right they lead to the factors of the condition (`Expr.exists_listsFactors`).
-/

namespace Criteria

/-! ## Flat values -/

/-- Operands of a connective of which there are two at least, and none of them has operands of the
same connective itself. -/
structure Connective.IsFlat (c : Connective) (operands : List Json) : Prop where
  two_le : 2 ≤ operands.length
  apart : ∀ operand ∈ operands, operand.get? c.key = none

namespace Json

/-- A value stands in another one, at any depth, or is that value. -/
inductive Within (v : Json) : Json → Prop
  | self : Within v v
  | item {items : List Json} {x : Json} (hx : x ∈ items) (h : Within v x) : Within v (.array items)
  | entry {fields : List (String × Json)} {key : String} {x : Json} (hx : (key, x) ∈ fields)
      (h : Within v x) : Within v (.object fields)

theorem Within.trans {u v w : Json} (h : Within u v) (h' : Within v w) : Within u w := by
  induction h' with
  | self => exact h
  | item hx _ ih => exact .item hx ih
  | entry hx _ ih => exact .entry hx ih

/-- Wherever in a value something stands under a connective, it is a flat list of operands. -/
def Flat (w : Json) : Prop :=
  ∀ v : Json, v.Within w → ∀ (c : Connective) (operand : Json), v.get? c.key = some operand →
    ∃ items, operand = .array items ∧ c.IsFlat items

theorem Flat.of_within {v w : Json} (h : w.Flat) (hv : v.Within w) : v.Flat :=
  fun u hu => h u (hu.trans hv)

theorem flat_scalar (value : Scalar) : (scalar value).Flat := by
  rintro v ⟨⟩ c operand hget
  cases hget

theorem flat_array {items : List Json} (h : ∀ x ∈ items, x.Flat) : (array items).Flat := by
  intro v hv c operand hget
  cases hv with
  | self => cases hget
  | item hx hv => exact h _ hx v hv c operand hget

theorem get?_singleton_eq_some {key name : String} {operand x : Json}
    (h : (object [(key, operand)]).get? name = some x) : name = key ∧ operand = x := by
  rw [get?, fields, List.lookup_cons] at h
  split at h
  · rename_i hname
    exact ⟨eq_of_beq hname, Option.some.inj h⟩
  · cases h

/-- An object with one entry is flat when its operand is, and when the operand is a flat list where
the key is a connective. -/
theorem flat_object {key : String} {operand : Json} (hoperand : operand.Flat)
    (hlist : ∀ c : Connective, c.key = key → ∃ items, operand = .array items ∧ c.IsFlat items) :
    (object [(key, operand)]).Flat := by
  intro v hv c x hget
  cases hv with
  | self =>
    obtain ⟨hkey, rfl⟩ := get?_singleton_eq_some hget
    exact hlist c hkey
  | entry hx hv =>
    obtain ⟨-, rfl⟩ := Prod.mk.inj (List.mem_singleton.1 hx)
    exact hoperand v hv c x hget

end Json

/-- The operands that a value contributes stand in it. -/
theorem Connective.within_of_mem_operands {c : Connective} {v x : Json} (h : x ∈ c.operands v) :
    x.Within v := by
  rcases c.operands_cases v with hsingle | hchain
  · rw [hsingle] at h
    obtain rfl := List.mem_singleton.1 h
    exact .self
  · rw [hchain]
    exact .entry (List.mem_singleton_self _) (.item h .self)

namespace Expr

/-! ## Compiled conditions are flat -/

/-- The key of another operation is no connective. -/
theorem ne_key_of_ne (op : Operation) {c : Connective} (h : op ≠ .logical c) : c.key ≠ op.key :=
  fun hkey => h (key_injective (show op.key = Operation.key (.logical c) from hkey.symm))

/-- A factor is no chain of the connective. -/
theorem operation?_of_mem_factors {c : Connective} {e f : Expr} (hf : f ∈ e.factors c) :
    f.operation? ≠ some (.logical c) := by
  by_cases hchain : e.operation? = some (.logical c)
  · obtain ⟨left, right, s, t, rfl⟩ := exists_of_operation?_logical hchain
    rw [factors_chain, List.mem_append] at hf
    rcases hf with hf | hf
    · exact operation?_of_mem_factors hf
    · exact operation?_of_mem_factors hf
  · rw [factors_of_ne hchain, List.mem_singleton] at hf
    rwa [hf]
termination_by e

/-- What is no chain of the connective is compiled to no expression of the connective. -/
theorem get?_toLogic_eq_none {c : Connective} {e : Expr} (h : e.operation? ≠ some (.logical c)) :
    e.toLogic.get? c.key = none := by
  rw [Option.eq_none_iff_forall_ne_some]
  intro x hget
  cases hop : e.operation? with
  | none =>
    cases e with
    | literal => cases hget
    | binary op' => cases op' <;> cases hop
    | _ => cases hop
  | some op =>
    obtain ⟨operand, hlogic⟩ := exists_toLogic hop
    rw [hlogic] at hget
    rw [hop, Ne, Option.some.injEq] at h
    exact ne_key_of_ne op h (Json.get?_singleton_eq_some hget).1

/-- The operands of two conditions in a row are a flat list. -/
theorem isFlat_operands (c : Connective) (left right : Expr) :
    c.IsFlat (c.operands left.toLogic ++ c.operands right.toLogic) := by
  have hne : ∀ e : Expr, 0 < (c.operands e.toLogic).length := by
    intro e
    obtain ⟨first, rest, hfactors, -⟩ := exists_factors c e
    rw [operands_toLogic, hfactors]
    exact Nat.succ_pos _
  have hapart : ∀ e : Expr, ∀ operand ∈ c.operands e.toLogic, operand.get? c.key = none := by
    intro e operand hoperand
    rw [operands_toLogic] at hoperand
    obtain ⟨f, hf, rfl⟩ := List.mem_map.1 hoperand
    exact get?_toLogic_eq_none (operation?_of_mem_factors hf)
  refine ⟨?_, List.forall_mem_append.2 ⟨hapart left, hapart right⟩⟩
  have hleft := hne left
  have hright := hne right
  rw [List.length_append]
  omega

/-- **The JSON-Logic of a condition is flat.** -/
theorem flat_toLogic (e : Expr) : e.toLogic.Flat := by
  induction e with
  | literal => exact Json.flat_scalar _
  | reference =>
    exact Json.flat_object (Json.flat_scalar _) fun c hkey =>
      absurd hkey (ne_key_of_ne .variable nofun)
  | not _ _ _ ih =>
    exact Json.flat_object ih fun c hkey => absurd hkey (ne_key_of_ne .not nofun)
  | binary op left right _ _ ihl ihr =>
    cases op with
    | logical c =>
      -- an operand of a chain is an operand inside one of its two conditions, or is that condition
      refine Json.flat_object (Json.flat_array fun x hx => ?_) fun c' hkey => ?_
      · rcases List.mem_append.1 hx with hx | hx
        · exact ihl.of_within (c.within_of_mem_operands hx)
        · exact ihr.of_within (c.within_of_mem_operands hx)
      · have hop : Operation.logical c' = .logical c := key_injective hkey
        cases hop
        exact ⟨_, rfl, isFlat_operands c left right⟩
    | compare c =>
      refine Json.flat_object (Json.flat_array ?_) fun c' hkey =>
        absurd hkey (ne_key_of_ne (.compare c) nofun)
      exact List.forall_mem_cons.2 ⟨ihl, List.forall_mem_singleton.2 ihr⟩
  | quantified q collection predicate binder _ ihc ihp =>
    refine Json.flat_object (Json.flat_array ?_) fun c' hkey =>
      absurd hkey (ne_key_of_ne (.quantify q) nofun)
    refine List.forall_mem_cons.2 ⟨ihc, List.forall_mem_cons.2 ⟨ihp, fun x hx => ?_⟩⟩
    split at hx
    · obtain rfl := List.mem_singleton.1 hx
      exact Json.flat_scalar _
    · cases hx

/-! ## Routes to factors -/

/-- The conditions of which a condition is made, from left to right. -/
def parts : Expr → List Expr
  | .literal .. => []
  | .reference .. => []
  | .not argument _ _ => [argument]
  | .binary _ left right _ _ => [left, right]
  | .quantified _ collection predicate _ _ => [collection, predicate]

/-- The condition to which a route leads, which says at each node with which part to go on. -/
def at? (e : Expr) : List Nat → Option Expr
  | [] => some e
  | i :: route => e.parts[i]?.bind fun part => part.at? route

/-- A route leads to a largest part that is no chain of the connective: all conditions on the way to
it are chains. -/
structure LeavesChain (c : Connective) (e : Expr) (route : List Nat) (f : Expr) : Prop where
  leads : e.at? route = some f
  apart : f.operation? ≠ some (.logical c)
  largest : ∀ above i below, route = above ++ i :: below →
    ∃ around, e.at? above = some around ∧ around.operation? = some (.logical c)

/-- The largest parts that are no chains of the connective, from left to right, with the routes to
them. -/
structure ListsFactors (c : Connective) (e : Expr) (found : List (List Nat × Expr)) : Prop where
  ordered : found.Pairwise fun a b => a.1 < b.1
  complete : ∀ route f, (route, f) ∈ found ↔ e.LeavesChain c route f

variable {c : Connective} {left right f : Expr} {s t : Option Span} {route : List Nat}

theorem leavesChain_of_ne {e : Expr} (h : e.operation? ≠ some (.logical c)) :
    e.LeavesChain c route f ↔ route = [] ∧ f = e := by
  constructor
  · intro hf
    cases route with
    | nil => exact ⟨rfl, (Option.some.inj hf.leads).symm⟩
    | cons i below =>
      -- a longer route leaves a chain at its start
      obtain ⟨around, hat, hchain⟩ := hf.largest [] i below rfl
      obtain rfl := Option.some.inj hat
      exact absurd hchain h
  · rintro ⟨rfl, rfl⟩
    refine ⟨rfl, h, fun above i below hroute => ?_⟩
    cases above <;> cases hroute

/-- Routes out of a chain go through one of its two conditions. -/
theorem leavesChain_chain : (binary (.logical c) left right s t).LeavesChain c route f ↔
    ∃ i part below, [left, right][i]? = some part ∧ route = i :: below ∧
      part.LeavesChain c below f := by
  constructor
  · rintro ⟨hleads, hapart, hlargest⟩
    cases route with
    | nil =>
      obtain rfl := Option.some.inj hleads
      exact absurd rfl hapart
    | cons i below =>
      obtain ⟨part, hpart, hleads⟩ := Option.bind_eq_some_iff.1 hleads
      refine ⟨i, part, below, hpart, rfl, hleads, hapart, fun above j rest hroute => ?_⟩
      obtain ⟨around, haround, hchain⟩ := hlargest (i :: above) j rest (by rw [hroute]; rfl)
      obtain ⟨part', hpart', haround⟩ := Option.bind_eq_some_iff.1 haround
      obtain rfl := Option.some.inj (hpart.symm.trans hpart')
      exact ⟨around, haround, hchain⟩
  · rintro ⟨i, part, below, hpart, rfl, hleads, hapart, hlargest⟩
    refine ⟨Option.bind_eq_some_iff.2 ⟨part, hpart, hleads⟩, hapart, fun above j rest hroute => ?_⟩
    cases above with
    | nil => exact ⟨_, rfl, rfl⟩
    | cons k above =>
      rw [List.cons_append, List.cons.injEq] at hroute
      obtain ⟨rfl, hroute⟩ := hroute
      obtain ⟨around, haround, hchain⟩ := hlargest above j rest hroute
      exact ⟨around, Option.bind_eq_some_iff.2 ⟨part, hpart, haround⟩, hchain⟩

/-- The listing of a chain is that of its left condition and then that of its right one. -/
theorem ListsFactors.chain {found found' : List (List Nat × Expr)} (h : left.ListsFactors c found)
    (h' : right.ListsFactors c found') :
    (binary (.logical c) left right s t).ListsFactors c
      (found.map (fun factor => (0 :: factor.1, factor.2)) ++
        found'.map fun factor => (1 :: factor.1, factor.2)) := by
  constructor
  · refine List.pairwise_append.2 ⟨?_, ?_, ?_⟩
    · exact List.pairwise_map.2 (h.ordered.imp List.cons_lt_cons_self.2)
    · exact List.pairwise_map.2 (h'.ordered.imp List.cons_lt_cons_self.2)
    · intro a ha b hb
      obtain ⟨x, -, rfl⟩ := List.mem_map.1 ha
      obtain ⟨y, -, rfl⟩ := List.mem_map.1 hb
      exact List.Lex.rel Nat.one_pos
  · intro route f
    rw [leavesChain_chain, List.mem_append, List.mem_map, List.mem_map]
    constructor
    · rintro (⟨x, hx, heq⟩ | ⟨x, hx, heq⟩)
      · obtain ⟨rfl, rfl⟩ := Prod.mk.inj heq
        exact ⟨0, left, x.1, rfl, rfl, (h.complete _ _).1 hx⟩
      · obtain ⟨rfl, rfl⟩ := Prod.mk.inj heq
        exact ⟨1, right, x.1, rfl, rfl, (h'.complete _ _).1 hx⟩
    · rintro ⟨i, part, below, hpart, rfl, hf⟩
      match i, hpart with
      | 0, rfl => exact .inl ⟨(below, f), (h.complete _ _).2 hf, rfl⟩
      | 1, rfl => exact .inr ⟨(below, f), (h'.complete _ _).2 hf, rfl⟩

/-- **The factors of a condition are its largest parts that are no chains**, from left to right. -/
theorem exists_listsFactors (c : Connective) (e : Expr) :
    ∃ found, e.ListsFactors c found ∧ found.map (·.2) = e.factors c := by
  by_cases hchain : e.operation? = some (.logical c)
  · obtain ⟨left, right, s, t, rfl⟩ := exists_of_operation?_logical hchain
    obtain ⟨found, hfound, hfactors⟩ := exists_listsFactors c left
    obtain ⟨found', hfound', hfactors'⟩ := exists_listsFactors c right
    refine ⟨_, hfound.chain hfound', ?_⟩
    rw [factors_chain, ← hfactors, ← hfactors', List.map_append, List.map_map, List.map_map]
    rfl
  · refine ⟨[([], e)], ⟨List.pairwise_singleton _ _, fun route f => ?_⟩, ?_⟩
    · rw [leavesChain_of_ne hchain, List.mem_singleton, Prod.mk.injEq]
    · rw [factors_of_ne hchain]
      rfl
termination_by e

/-- **Compiling flattens chains and keeps the order of their operands**: lists of operands are flat
at every depth, and a chain is compiled to the list of its largest parts that are no chains of the
same connective, from left to right. -/
theorem toLogic_flattened (e : Expr) : e.toLogic.Flat ∧
    ∀ c, e.operation? = some (.logical c) → ∃ found, e.ListsFactors c found ∧
      e.toLogic = .object [(c.key, .array (found.map fun factor => factor.2.toLogic))] := by
  refine ⟨e.flat_toLogic, fun c hchain => ?_⟩
  obtain ⟨found, hfound, hfactors⟩ := exists_listsFactors c e
  refine ⟨found, hfound, ?_⟩
  have hoperands : c.operands e.toLogic = found.map fun factor => factor.2.toLogic := by
    rw [operands_toLogic, ← hfactors, List.map_map]
    rfl
  obtain ⟨left, right, s, t, rfl⟩ := exists_of_operation?_logical hchain
  rw [← hoperands, toLogic, Connective.operands_self]

/-- `1 && (2 && (3 || 4))`: the inner `&&` disappears, the `||` stays. -/
example :
    let number (n : Int) := literal (.int n) none
    (binary (.logical .and) (number 1) (binary (.logical .and) (number 2)
      (binary (.logical .or) (number 3) (number 4) none none) none none) none none).toLogic =
      .object [("and", .array [.scalar (.int 1), .scalar (.int 2),
        .object [("or", .array [.scalar (.int 3), .scalar (.int 4)])]])] := rfl

end Expr

end Criteria
