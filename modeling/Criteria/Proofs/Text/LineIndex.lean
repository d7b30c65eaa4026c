import Criteria.Diagnostic
import Mathlib.Data.List.GetD
import Mathlib.Data.List.Induction
import Mathlib.Data.Prod.Lex
import Mathlib.Order.Interval.Set.Defs
import Mathlib.Order.Monotone.Basic

/-!
# Lines and columns by counting

The line index agrees with counting: a point is on the line after as many as there are line feeds
before it (`LineIndex.line_ofChars`), and in the column after the characters that follow the last of
them (`LineIndex.column_ofChars`). So a point depends only on the text before it
(`LineIndex.position_eq_of_before_eq`), and later points are on later lines or in later columns
(`LineIndex.lt_of_clamp_lt`).

Points are ordered by line and then by column (`Position.place`). In this order the points of a text
follow one another as the offsets do, and no diagnostic ends before it starts
(`LineIndex.position_agrees`).
-/

namespace Criteria

/-- The line and column of a point, in the order in which a text is read. -/
def Position.place (p : Position) : ℕ ×ₗ ℕ := toLex (p.line, p.column)

namespace LineIndex

/-! ## The starts of lines -/

theorem startsFrom_append (offset : Nat) (cs ds : List Char) :
    startsFrom offset (cs ++ ds) = startsFrom offset cs ++ startsFrom (offset + cs.length) ds := by
  induction cs generalizing offset with
  | nil => rfl
  | cons c cs ih =>
    have hlength : offset + (c :: cs).length = offset + 1 + cs.length := by
      simp only [List.length_cons]
      omega
    rw [List.cons_append, startsFrom, startsFrom, ih, hlength]
    split <;> rfl

theorem length_startsFrom (offset : Nat) (cs : List Char) :
    (startsFrom offset cs).length = cs.count '\n' := by
  induction cs generalizing offset with
  | nil => rfl
  | cons c cs ih =>
    rw [startsFrom, List.count_cons, ← ih (offset + 1)]
    split <;> simp_all

/-- Lines after the first start behind the offset, and within the text. -/
theorem bounds_startsFrom (offset : Nat) (cs : List Char) :
    ∀ s ∈ startsFrom offset cs, offset < s ∧ s ≤ offset + cs.length := by
  induction cs generalizing offset with
  | nil => intro s hs; cases hs
  | cons c cs ih =>
    intro s hs
    have hrest : s ∈ startsFrom (offset + 1) cs ∨ s = offset + 1 := by
      rw [startsFrom] at hs
      split at hs
      · exact (List.mem_cons.1 hs).symm
      · exact .inl hs
    simp only [List.length_cons]
    rcases hrest with hrest | rfl
    · have := ih (offset + 1) s hrest
      omega
    · omega

/-- The characters after the last line feed. -/
def lastLine (cs : List Char) : List Char := (cs.reverse.takeWhile (· ≠ '\n')).reverse

theorem length_lastLine_append (cs : List Char) {ds : List Char} (h : '\n' ∉ ds) :
    (lastLine (cs ++ ds)).length = (lastLine cs).length + ds.length := by
  have hds : ∀ c ∈ ds.reverse, decide (c ≠ '\n') = true := by
    intro c hc
    rw [decide_eq_true_eq]
    rintro rfl
    exact h (List.mem_reverse.1 hc)
  rw [lastLine, lastLine, List.reverse_append, List.takeWhile_append_of_pos hds,
    List.length_reverse, List.length_append, List.length_reverse, List.length_reverse, Nat.add_comm]

/-- The last line of a text starts so far before its end. -/
theorem getD_startsFrom (cs : List Char) :
    (0 :: startsFrom 0 cs).getD (cs.count '\n') 0 + (lastLine cs).length = cs.length := by
  induction cs using List.reverseRecOn with
  | nil => rfl
  | append_singleton cs c ih =>
    have hlength : (0 :: startsFrom 0 cs).length = cs.count '\n' + 1 := by
      rw [List.length_cons, length_startsFrom]
    by_cases hc : c = '\n'
    · subst hc
      have hstarts : 0 :: startsFrom 0 (cs ++ ['\n']) =
          (0 :: startsFrom 0 cs) ++ [cs.length + 1] := by
        rw [startsFrom_append]
        simp [startsFrom]
      have hcount : (cs ++ ['\n']).count '\n' = (0 :: startsFrom 0 cs).length := by
        rw [hlength, List.count_append]
        rfl
      have hlast : lastLine (cs ++ ['\n']) = [] := by simp [lastLine]
      rw [hstarts, hcount, hlast, List.getD_append_right _ _ _ _ (Nat.le_refl _), Nat.sub_self]
      simp
    · have hstarts : startsFrom 0 (cs ++ [c]) = startsFrom 0 cs := by
        rw [startsFrom_append]
        simp [startsFrom, hc]
      have hcount : (cs ++ [c]).count '\n' = cs.count '\n' := by
        rw [List.count_append, List.count_singleton, beq_false_of_ne hc]
        rfl
      have hbreak : '\n' ∉ [c] := by simpa using Ne.symm hc
      have hlast := length_lastLine_append cs hbreak
      rw [hstarts, hcount, hlast, List.length_append]
      omega

/-! ## The search -/

/-- **The search counts the starts up to an offset**, when there is a point among the starts such
that those before it are at most the offset and the others are not. -/
theorem countUpTo_eq {starts : Array Nat} {offset n : Nat}
    (h : ∀ (i : Nat) (hi : i < starts.size), starts[i] ≤ offset ↔ i < n) (lo hi : Nat)
    (inside : hi ≤ starts.size) (hlo : lo ≤ n) (hhi : n ≤ hi) :
    countUpTo starts offset lo hi inside = n := by
  fun_induction countUpTo starts offset lo hi inside with
  | case1 lo hi inside hlt mid hle ih =>
    have := (h mid (by omega)).1 hle
    exact ih (by omega) hhi
  | case2 lo hi inside hlt mid hle ih =>
    have := mt (h mid (by omega)).2 hle
    exact ih hlo (by omega)
  | case3 lo hi inside hlt => omega

/-! ## Points of a text -/

/-- The text before an offset. -/
def before (cs : List Char) (offset : Int) : List Char := cs.take ((ofChars cs).clamp offset)

variable (cs : List Char) (offset : Int)

theorem length_before : (before cs offset).length = (ofChars cs).clamp offset := by
  have hle : (ofChars cs).clamp offset ≤ cs.length := Nat.min_le_right ..
  rw [before, List.length_take, Nat.min_eq_left hle]

/-- The lines of a text start in the text before an offset, or after it. -/
theorem toList_starts :
    (ofChars cs).starts.toList = (0 :: startsFrom 0 (before cs offset)) ++
      startsFrom ((ofChars cs).clamp offset) (cs.drop ((ofChars cs).clamp offset)) := by
  have hsplit : cs = before cs offset ++ cs.drop ((ofChars cs).clamp offset) :=
    (List.take_append_drop _ _).symm
  have hstarts := startsFrom_append 0 (before cs offset) (cs.drop ((ofChars cs).clamp offset))
  rw [← hsplit, length_before, Nat.zero_add] at hstarts
  rw [List.cons_append, ← hstarts]
  rfl

theorem starts_le_iff (i : Nat) (hi : i < (ofChars cs).starts.size) :
    (ofChars cs).starts[i] ≤ (ofChars cs).clamp offset ↔
      i < (before cs offset).count '\n' + 1 := by
  have hlist := toList_starts cs offset
  have hlength : (0 :: startsFrom 0 (before cs offset)).length =
      (before cs offset).count '\n' + 1 := by
    rw [List.length_cons, length_startsFrom]
  have hi' : i < ((0 :: startsFrom 0 (before cs offset)) ++
      startsFrom ((ofChars cs).clamp offset) (cs.drop ((ofChars cs).clamp offset))).length := by
    rw [← hlist, Array.length_toList]
    exact hi
  have hget : (ofChars cs).starts[i] = ((0 :: startsFrom 0 (before cs offset)) ++
      startsFrom ((ofChars cs).clamp offset) (cs.drop ((ofChars cs).clamp offset)))[i] := by
    simp only [← hlist, Array.getElem_toList]
  rw [hget, ← hlength, List.getElem_append]
  split
  · rename_i hfirst
    refine iff_of_true ?_ hfirst
    have hmem := List.getElem_mem hfirst
    rcases List.mem_cons.1 hmem with hzero | hmem
    · rw [hzero]
      exact Nat.zero_le _
    · have hbounds := bounds_startsFrom 0 _ _ hmem
      rw [length_before] at hbounds
      omega
  · rename_i hlater
    refine iff_of_false ?_ hlater
    have hbounds := bounds_startsFrom _ _ _ (List.getElem_mem (by
      rw [List.length_append] at hi'
      omega : i - (0 :: startsFrom 0 (before cs offset)).length <
        (startsFrom ((ofChars cs).clamp offset) (cs.drop ((ofChars cs).clamp offset))).length))
    omega

/-- **A point is on the line after as many as there are line feeds before it.** -/
theorem line_ofChars : (ofChars cs).line offset = (before cs offset).count '\n' + 1 := by
  have hsize : (before cs offset).count '\n' + 1 ≤ (ofChars cs).starts.size := by
    have hlength := congrArg List.length (toList_starts cs offset)
    rw [Array.length_toList, List.length_append, List.length_cons, length_startsFrom] at hlength
    omega
  exact countUpTo_eq (starts_le_iff cs offset) _ _ _ (Nat.zero_le _) hsize

/-- **A point is in the column after the characters that follow the last line feed before it.** -/
theorem column_ofChars : (ofChars cs).column offset = (lastLine (before cs offset)).length + 1 := by
  have hlast := getD_startsFrom (before cs offset)
  have hstart : (ofChars cs).starts.getD ((ofChars cs).line offset - 1) 0 =
      (0 :: startsFrom 0 (before cs offset)).getD ((before cs offset).count '\n') 0 := by
    rw [line_ofChars, Nat.add_sub_cancel, Array.getD_eq_getD_getElem?, ← Array.getElem?_toList,
      toList_starts cs offset, ← List.getD_eq_getElem?_getD, List.getD_append]
    rw [List.length_cons, length_startsFrom]
    exact Nat.lt_succ_self _
  rw [column, hstart]
  rw [length_before] at hlast
  omega

/-- A point depends only on the text before it. -/
theorem position_eq_of_before_eq {cs ds : List Char} {offset : Int}
    (h : before cs offset = before ds offset) :
    (ofChars cs).position offset = (ofChars ds).position offset := by
  rw [position, position, line_ofChars, line_ofChars, column_ofChars, column_ofChars, h]

/-- **Later points are on later lines or in later columns.** -/
theorem lt_of_clamp_lt {cs : List Char} {a b : Int}
    (h : (ofChars cs).clamp a < (ofChars cs).clamp b) :
    (ofChars cs).line a < (ofChars cs).line b ∨
      (ofChars cs).line a = (ofChars cs).line b ∧
        (ofChars cs).column a < (ofChars cs).column b := by
  obtain ⟨n, hn⟩ := Nat.exists_eq_add_of_lt h
  obtain ⟨more, hmore, hlength⟩ :
      ∃ more, before cs b = before cs a ++ more ∧ more.length = n + 1 := by
    have hb := length_before cs b
    have ha := length_before cs a
    have happend : before cs b = before cs a ++ (cs.drop ((ofChars cs).clamp a)).take (n + 1) := by
      rw [before, before, hn, Nat.add_assoc, List.take_add]
    refine ⟨_, happend, ?_⟩
    have hlengths := congrArg List.length happend
    rw [List.length_append] at hlengths
    omega
  rw [line_ofChars, line_ofChars, column_ofChars, column_ofChars, hmore, List.count_append]
  by_cases hbreak : '\n' ∈ more
  · have hcount := List.count_pos_iff.2 hbreak
    exact .inl (by omega)
  · have hcount := List.count_eq_zero.2 hbreak
    have hcolumn := length_lastLine_append (before cs a) hbreak
    exact .inr ⟨by omega, by omega⟩

/-! ## The order of points -/

theorem clamp_mono (index : LineIndex) {a b : Int} (h : a ≤ b) : index.clamp a ≤ index.clamp b := by
  unfold clamp
  omega

theorem clamp_natCast {index : LineIndex} {o : ℕ} (h : o ≤ index.length) : index.clamp o = o := by
  unfold clamp
  omega

/-- Inside the text points follow one another as the offsets do. -/
theorem strictMonoOn_place (cs : List Char) :
    StrictMonoOn (fun o : ℕ => ((ofChars cs).position o).place) (Set.Iic cs.length) := by
  intro a ha b hb hlt
  refine Prod.Lex.toLex_lt_toLex.2 (lt_of_clamp_lt ?_)
  rwa [clamp_natCast ha, clamp_natCast hb]

/-- Everywhere points keep the order of the offsets. -/
theorem place_mono (cs : List Char) {a b : Int} (h : a ≤ b) :
    ((ofChars cs).position a).place ≤ ((ofChars cs).position b).place := by
  rcases (clamp_mono (ofChars cs) h).lt_or_eq with hlt | heq
  · exact (Prod.Lex.toLex_lt_toLex.2 (lt_of_clamp_lt hlt)).le
  · have hbefore : before cs a = before cs b := by rw [before, before, heq]
    refine le_of_eq (congrArg toLex (Prod.ext ?_ ?_))
    · exact (line_ofChars cs a).trans (hbefore ▸ (line_ofChars cs b).symm)
    · exact (column_ofChars cs a).trans (hbefore ▸ (column_ofChars cs b).symm)

/-- **The index agrees with counting.** The point at an offset, which counts as the nearest one in
the text, is on the line after as many as there are line feeds before it, and in the column after
the characters behind the last of these. The points of the offsets in a text are in strictly
ascending order, so that a point tells its offset; and a diagnostic between any two offsets does not
end before it starts. -/
theorem position_agrees (text : String) :
    (∀ offset : Int,
      let head := text.toList.take (max 0 (min offset text.length)).toNat
      (ofText text).position offset =
        ⟨offset, 1 + head.count '\n', 1 + (lastLine head).length⟩) ∧
    StrictMonoOn (fun o : ℕ => ((ofText text).position o).place) (Set.Iic text.length) ∧
    Set.InjOn (fun o : ℕ => ((ofText text).position o).place) (Set.Iic text.length) ∧
    ∀ (code : ErrorCode) (message : String) (start stop : Int),
      ∃ extent, (Diagnostic.spanning code message (ofText text) start stop).extent = some extent ∧
        extent.start.offset = start ∧ extent.stop.offset = stop ∧
          extent.start.place ≤ extent.stop.place := by
  have hmono := strictMonoOn_place text.toList
  rw [String.length_toList] at hmono
  refine ⟨?_, hmono, hmono.injOn, ?_⟩
  · intro offset head
    have hclamp : (max 0 (min offset text.length)).toNat = (ofChars text.toList).clamp offset := by
      change _ = min offset.toNat text.toList.length
      rw [String.length_toList]
      omega
    have hhead : head = before text.toList offset := congrArg (text.toList.take ·) hclamp
    rw [hhead, Nat.add_comm 1, Nat.add_comm 1, ofText, position, line_ofChars, column_ofChars]
  · intro code message start stop
    exact ⟨_, rfl, rfl, rfl, place_mono text.toList (le_max_left start stop)⟩

end LineIndex

end Criteria
