import LineLexer.Proofs.Source.Continuation
/-!
The lines of a text that is put together from two texts.

If the first text is empty or ends its last line, no physical line crosses the border.  If no
physical line of it is continued, no logical line does.  The second text then has the lines that
it has alone, with the numbers raised by the number of physical lines before it.
-/

namespace LineLexer

/-- The text is empty or ends with a line feed. -/
def EndsItsLines (text : List Char) : Prop :=
  text = [] ∨ text.getLast? = some '\n'

theorem EndsItsLines.tail {c : Char} {rest : List Char} (hends : EndsItsLines (c :: rest)) :
    EndsItsLines rest ∧ (rest = [] → c = '\n') := by
  rcases hends with hnil | hlast
  · cases hnil
  · cases rest with
    | nil => exact ⟨Or.inl rfl, fun _ => by simpa using hlast⟩
    | cons d others =>
        rw [List.getLast?_cons_cons] at hlast
        exact ⟨Or.inr hlast, fun hnil => by cases hnil⟩

theorem physicalLines_ne_nil {text : List Char} (htext : text ≠ []) : physicalLines text ≠ [] := by
  fun_cases physicalLines text with
  | case1 => exact absurd rfl htext
  | case2 => simp
  | case3 => simp
  | case4 => simp
  | case5 => simp

theorem physicalLines_append {front : List Char} (hends : EndsItsLines front)
    (back : List Char) :
    physicalLines (front ++ back) = physicalLines front ++ physicalLines back := by
  fun_induction physicalLines front with
  | case1 => rfl
  | case2 rest ih =>
      rw [List.cons_append, physicalLines, ih hends.tail.1, List.cons_append]
  | case3 rest ih =>
      rw [List.cons_append, List.cons_append, physicalLines, ih hends.tail.1.tail.1,
        List.cons_append]
  | case4 c rest hfeed hreturn hnone ih =>
      -- The last character of the text would be no line feed.
      have hrest : rest = [] := by
        by_contra hne
        exact physicalLines_ne_nil hne hnone
      exact absurd (hends.tail.2 hrest) hfeed
  | case5 c rest hfeed hreturn line lines hsome ih =>
      have hborder : ∀ others, c = '\r' → rest ++ back = '\n' :: others → False := by
        intro others hc hfront
        cases rest with
        | nil => simp [physicalLines] at hsome
        | cons d more => exact hreturn more hc (by rw [(List.cons.inj hfront).1])
      rw [List.cons_append, physicalLines.eq_4 _ _ hfeed hborder, ih hends.tail.1, hsome]
      rfl

namespace LogicalLine

/-- The same line, a number of physical lines further down. -/
def later (count : Nat) (line : LogicalLine) : LogicalLine :=
  { line with number := line.number + count }

end LogicalLine

/-- The numbers of logical lines are counted from that of the first physical line. -/
theorem joinLines_later (count : Nat) (carried : Option LogicalLine) (number : Nat)
    (lines : List (List Char)) :
    joinLines (carried.map (·.later count)) (number + count) lines =
      (joinLines carried number lines).map (·.later count) := by
  induction lines generalizing carried number with
  | nil => cases carried <;> rfl
  | cons line rest ih =>
      have hline : lineWith (carried.map (·.later count)) (number + count) line =
          (lineWith carried number line).later count := by
        cases carried <;> rfl
      have hnext : number + count + 1 = number + 1 + count := Nat.add_right_comm number count 1
      have htext : ((lineWith carried number line).later count).text =
          (lineWith carried number line).text := rfl
      rw [joinLines_cons, joinLines_cons, hline, hnext, htext]
      cases beforeBackslash? (lineWith carried number line).text with
      | some text => exact ih (some { lineWith carried number line with text }) (number + 1)
      | none =>
          rw [List.map_cons]
          exact congrArg _ (ih none _)

/-- Lines that are not continued are logical lines by themselves, and what follows them is
joined as if it stood alone. -/
theorem joinLines_append {front : List (List Char)}
    (hplain : ∀ line ∈ front, ¬ EndsInBackslash line) (number : Nat) (back : List (List Char)) :
    joinLines none number (front ++ back) =
      joinLines none number front ++ joinLines none (number + front.length) back := by
  induction front generalizing number with
  | nil => rfl
  | cons line rest ih =>
      have hline : beforeBackslash? (lineWith none number line).text = none :=
        beforeBackslash?_eq_none_iff.mpr (hplain line List.mem_cons_self)
      have hlength : number + (line :: rest).length = number + 1 + rest.length := by
        rw [List.length_cons]
        omega
      rw [List.cons_append, joinLines_cons, joinLines_cons, hline, hlength]
      dsimp only
      rw [ih (fun other hother => hplain other (List.mem_cons_of_mem line hother)),
        List.cons_append]

namespace Source

/-- The logical lines of a text after another one. -/
theorem logicalLines_append (name : String) {first : String}
    (hends : EndsItsLines first.toList)
    (hplain : ∀ line ∈ physicalLines first.toList, ¬ EndsInBackslash line) (second : String) :
    (Source.mk name (first ++ second)).logicalLines =
      (Source.mk name first).logicalLines ++
        (Source.mk name second).logicalLines.map
          (·.later (Source.mk name first).lineCount) := by
  have hlater := joinLines_later (Source.mk name first).lineCount none 1
    (Source.mk name second).lines
  rw [logicalLines, lines, String.toList_append, physicalLines_append hends,
    joinLines_append hplain]
  exact congrArg _ hlater

end Source

end LineLexer
