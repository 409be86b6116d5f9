import Mathlib.Data.List.Basic
import LineLexer.Source
/-!
Which physical lines begin a logical line.

Lines are joined on the text that has been joined so far: its last backslash goes, and the
next physical line is added.  A line that is not empty decides by its own end whether the next
one is joined to it.  An empty line leaves the decision to what stands before it, and so a
text that ended in two backslashes is continued beyond an empty line.  Joining adds no character,
and so a logical line has no line feed in it, just as a physical line has none.
-/

namespace LineLexer

def EndsInBackslash (text : List Char) : Prop :=
  ['\\'] <:+ text

/-- The text ends in two backslashes, one to continue it and one to stay. -/
def EndsInTwoBackslashes (text : List Char) : Prop :=
  ['\\', '\\'] <:+ text

section Backslash

variable {text front : List Char}

theorem endsInBackslash_iff_getLast? : EndsInBackslash text ↔ text.getLast? = some '\\' := by
  rw [List.getLast?_eq_some_iff]
  exact exists_congr fun _ => eq_comm

theorem beforeBackslash?_eq_some_iff :
    beforeBackslash? text = some front ↔ front ++ ['\\'] = text := by
  rcases List.eq_nil_or_concat' text with rfl | ⟨others, c, rfl⟩
  · simp [beforeBackslash?]
  · by_cases hc : c = '\\'
    · simp [beforeBackslash?, hc, eq_comm]
    · simp [beforeBackslash?, hc, Ne.symm hc]

theorem beforeBackslash?_eq_none_iff : beforeBackslash? text = none ↔ ¬ EndsInBackslash text := by
  rw [Option.eq_none_iff_forall_ne_some, EndsInBackslash, List.IsSuffix, not_exists]
  exact forall_congr' fun _ => not_congr beforeBackslash?_eq_some_iff

/-- Without its last backslash a text ends in another one if it ended in two. -/
theorem endsInBackslash_beforeBackslash?_iff :
    EndsInBackslash ((beforeBackslash? text).getD []) ↔ EndsInTwoBackslashes text := by
  cases hbefore : beforeBackslash? text with
  | none =>
      have hends := beforeBackslash?_eq_none_iff.mp hbefore
      constructor
      · intro hnil
        exact absurd (List.eq_nil_of_suffix_nil hnil) (by simp)
      · rintro ⟨front, rfl⟩
        exact absurd ⟨front ++ ['\\'], by simp⟩ hends
  | some front =>
      rw [← beforeBackslash?_eq_some_iff.mp hbefore, Option.getD_some]
      constructor
      · rintro ⟨others, rfl⟩
        exact ⟨others, by simp⟩
      · rintro ⟨others, hsplit⟩
        rw [List.append_cons] at hsplit
        exact ⟨others, List.append_cancel_right hsplit⟩

end Backslash

/-- The text joined so far with the next physical line. -/
def joinNext (text line : List Char) : List Char :=
  (beforeBackslash? text).getD [] ++ line

/-- What is there of a logical line when some physical lines have been read, the last of which
is part of it. -/
def joinedText (lines : List (List Char)) : List Char :=
  lines.foldl joinNext []

/-- The end of a joined text is the end of its last line, if the line is not empty. -/
theorem endsInBackslash_joinNext_iff {text line : List Char} :
    EndsInBackslash (joinNext text line) ↔
      EndsInBackslash line ∨ line = [] ∧ EndsInTwoBackslashes text := by
  rcases List.eq_nil_or_concat' line with rfl | ⟨front, c, rfl⟩
  · have hnil : ¬ EndsInBackslash [] := by simp [EndsInBackslash]
    simp [joinNext, endsInBackslash_beforeBackslash?_iff, hnil]
  · rw [joinNext, ← List.append_assoc, endsInBackslash_iff_getLast?,
      endsInBackslash_iff_getLast?, List.getLast?_concat, List.getLast?_concat]
    simp

/-- The logical line that is open after one more physical line. -/
def lineWith (carried : Option LogicalLine) (number : Nat) (line : List Char) : LogicalLine :=
  ⟨(carried.map (·.number)).getD number, (carried.map (·.text)).getD [] ++ line⟩

theorem joinLines_cons (carried : Option LogicalLine) (number : Nat) (line : List Char)
    (rest : List (List Char)) :
    joinLines carried number (line :: rest) =
      match beforeBackslash? (lineWith carried number line).text with
      | some text =>
          joinLines (some { lineWith carried number line with text }) (number + 1) rest
      | none => lineWith carried number line :: joinLines none (number + 1) rest := by
  cases carried <;> rfl

/-- The number of a logical line is the one of its first physical line. -/
theorem head?_joinLines_number (first : LogicalLine) (number : Nat) (lines : List (List Char)) :
    (joinLines (some first) number lines).head?.map (·.number) = some first.number := by
  induction lines generalizing first number with
  | nil => rfl
  | cons line rest ih =>
      rw [joinLines_cons]
      split
      · exact ih _ _
      · rfl

/-- The numbers of logical lines are the one of the line that is open and those of the physical
lines before which the joined text does not end in a backslash. -/
theorem mem_joinLines_number_iff {text : List Char} {carried : Option LogicalLine}
    (hcarried : beforeBackslash? text = carried.map (·.text)) (number k : Nat)
    (lines : List (List Char)) :
    k ∈ (joinLines carried number lines).map (·.number) ↔
      k ∈ carried.map (·.number) ∨
        ∃ i, i < lines.length ∧ k = number + i ∧
          ¬ EndsInBackslash ((lines.take i).foldl joinNext text) := by
  induction lines generalizing text carried number with
  | nil => cases carried <;> simp [joinLines, eq_comm]
  | cons line rest ih =>
      have htext : (lineWith carried number line).text = joinNext text line := by
        rw [lineWith, joinNext, hcarried]
      have hnumber : k = (lineWith carried number line).number ↔
          k ∈ carried.map (·.number) ∨ k = number + 0 ∧ ¬ EndsInBackslash text := by
        rw [← beforeBackslash?_eq_none_iff, hcarried]
        cases carried <;> simp [lineWith, eq_comm]
      have hlater : ∀ i, k = number + (i + 1) ∧
            ¬ EndsInBackslash (((line :: rest).take (i + 1)).foldl joinNext text) ↔
          k = number + 1 + i ∧
            ¬ EndsInBackslash ((rest.take i).foldl joinNext (joinNext text line)) := by
        intro i
        rw [List.take_succ_cons, List.foldl_cons, Nat.add_assoc, Nat.add_comm 1 i]
      rw [List.length_cons, Nat.exists_lt_succ_left, ← or_assoc, List.take_zero,
        List.foldl_nil, ← hnumber]
      simp only [hlater]
      rw [joinLines_cons, htext]
      split
      · rename_i front hfront
        rw [ih hfront, Option.map_some, Option.mem_some_iff, eq_comm]
      · rename_i hfront
        rw [List.map_cons, List.mem_cons, ih hfront]
        simp

/-- The numbers of logical lines ascend from that of the line that is open, or else from that of
the next physical line. -/
theorem joinLines_number_ascending {carried : Option LogicalLine} {number : Nat}
    (hcarried : ∀ first ∈ carried, first.number < number) (lines : List (List Char)) :
    ((joinLines carried number lines).map (·.number)).Pairwise (· < ·) ∧
      ∀ k ∈ (joinLines carried number lines).map (·.number),
        (carried.map (·.number)).getD number ≤ k := by
  induction lines generalizing carried number with
  | nil => cases carried <;> simp [joinLines]
  | cons line rest ih =>
      have hnumber : (lineWith carried number line).number =
          (carried.map (·.number)).getD number := rfl
      have hbound : (lineWith carried number line).number < number + 1 := by
        cases carried with
        | none => exact Nat.lt_succ_self number
        | some first => exact Nat.lt_succ_of_lt (hcarried first rfl)
      rw [joinLines_cons, ← hnumber]
      split
      · rename_i text _
        have hopen : ∀ first ∈ some { lineWith carried number line with text },
            first.number < number + 1 := by simpa using hbound
        exact ih hopen
      · have hnone : ∀ first ∈ (none : Option LogicalLine), first.number < number + 1 := by simp
        obtain ⟨hlater, hleast⟩ := ih hnone
        rw [List.map_cons, List.pairwise_cons]
        refine ⟨⟨fun k hk => Nat.lt_of_lt_of_le hbound (hleast k hk), hlater⟩, ?_⟩
        intro k hk
        rcases List.mem_cons.mp hk with rfl | hk
        · exact Nat.le_refl _
        · exact Nat.le_of_lt (Nat.lt_of_lt_of_le hbound (hleast k hk))

/-- A line feed ends its line. -/
theorem feed_not_mem_physicalLines (text : List Char) :
    ∀ line ∈ physicalLines text, '\n' ∉ line := by
  fun_induction physicalLines text with
  | case1 => simp
  | case2 rest ih => exact List.forall_mem_cons.mpr ⟨List.not_mem_nil, ih⟩
  | case3 rest ih => exact List.forall_mem_cons.mpr ⟨List.not_mem_nil, ih⟩
  | case4 c rest hfeed _ _ ih => simpa using fun hc : '\n' = c => hfeed hc.symm
  | case5 c rest hfeed _ first lines hlines ih =>
      rw [hlines, List.forall_mem_cons] at ih
      refine List.forall_mem_cons.mpr ⟨?_, ih.2⟩
      rw [List.mem_cons, not_or]
      exact ⟨fun hc => hfeed hc.symm, ih.1⟩

/-- Joining lines puts nothing into them. -/
theorem not_mem_joinLines {c : Char} {carried : Option LogicalLine} {lines : List (List Char)}
    (hcarried : ∀ first ∈ carried, c ∉ first.text) (hlines : ∀ line ∈ lines, c ∉ line)
    (number : Nat) : ∀ line ∈ joinLines carried number lines, c ∉ line.text := by
  induction lines generalizing carried number with
  | nil => simpa [joinLines] using hcarried
  | cons line rest ih =>
      obtain ⟨hline, hrest⟩ := List.forall_mem_cons.mp hlines
      have hjoined : c ∉ (lineWith carried number line).text := by
        cases carried with
        | none => simpa [lineWith] using hline
        | some first => simpa [lineWith] using ⟨hcarried first rfl, hline⟩
      rw [joinLines_cons]
      split
      · rename_i text hbefore
        have hopen : c ∉ text := by
          rw [← beforeBackslash?_eq_some_iff.mp hbefore, List.mem_append, not_or] at hjoined
          exact hjoined.1
        exact ih (by simpa using hopen) hrest (number + 1)
      · exact List.forall_mem_cons.mpr ⟨hjoined, ih (by simp) hrest (number + 1)⟩

namespace Source

variable (source : Source)

/-- Line feeds end lines, and no logical line has one in it. -/
theorem feed_not_mem_logicalLines :
    ∀ line ∈ source.logicalLines, '\n' ∉ line.text :=
  not_mem_joinLines (by simp) (feed_not_mem_physicalLines source.text.toList) 1

theorem mem_logicalLines_number_iff (number : Nat) :
    number ∈ source.logicalLines.map (·.number) ↔
      ∃ i, i < source.lineCount ∧ number = 1 + i ∧
        ¬ EndsInBackslash (joinedText (source.lines.take i)) := by
  have hstart : beforeBackslash? [] = Option.map LogicalLine.text none := rfl
  have hlines := mem_joinLines_number_iff hstart 1 number source.lines
  simp only [Option.map_none, Option.not_mem_none, false_or] at hlines
  exact hlines

theorem logicalLines_number_ascending :
    (source.logicalLines.map (·.number)).Pairwise (· < ·) := by
  have hstart : ∀ first ∈ (none : Option LogicalLine), first.number < 1 := by simp
  exact (joinLines_number_ascending hstart source.lines).1

/-- What the physical line with the given number leaves at the end of the joined text. -/
theorem endsInBackslash_joinedText_iff {number : Nat} (hlast : number ≤ source.lineCount) :
    EndsInBackslash (joinedText (source.lines.take number)) ↔
      ∃ line, source.line? number = some line ∧
        (EndsInBackslash line ∨
          line = [] ∧ EndsInTwoBackslashes (joinedText (source.lines.take (number - 1)))) := by
  cases number with
  | zero => simp [joinedText, EndsInBackslash, line?]
  | succ i =>
      have hget : source.lines[i]? = some source.lines[i] := List.getElem?_eq_getElem hlast
      have hline : source.line? (i + 1) = some source.lines[i] := by
        rw [line?, if_neg (Nat.succ_ne_zero i), Nat.add_sub_cancel, hget]
      rw [hline, List.take_add_one, hget, joinedText, List.foldl_append]
      simp [endsInBackslash_joinNext_iff, joinedText]

/-- A physical line begins a logical line unless the line before ends in a backslash, or is
empty and stands after a text that ended in two.  The first logical line begins with the first
physical line. -/
theorem begins_logicalLine_iff (number : Nat) :
    (number ∈ source.logicalLines.map (·.number) ↔
      1 ≤ number ∧ number ≤ source.lineCount ∧
        ¬ ∃ line, source.line? (number - 1) = some line ∧
          (EndsInBackslash line ∨
            line = [] ∧ EndsInTwoBackslashes (joinedText (source.lines.take (number - 2))))) ∧
      source.logicalLines.head?.map (·.number) = source.lines.head?.map fun _ => 1 := by
  constructor
  · rw [mem_logicalLines_number_iff]
    constructor
    · rintro ⟨i, hbound, rfl, hends⟩
      rw [endsInBackslash_joinedText_iff source (Nat.le_of_lt hbound)] at hends
      rw [Nat.add_sub_cancel_left, Nat.add_comm 1 i]
      exact ⟨Nat.le_add_left 1 i, hbound, hends⟩
    · rintro ⟨hfirst, hlast, hends⟩
      obtain ⟨i, rfl⟩ := Nat.exists_eq_add_of_le' hfirst
      refine ⟨i, hlast, Nat.add_comm i 1, ?_⟩
      rw [endsInBackslash_joinedText_iff source (Nat.le_of_lt hlast)]
      exact hends
  · unfold logicalLines
    cases source.lines with
    | nil => rfl
    | cons line rest =>
        rw [joinLines_cons]
        split
        · exact head?_joinLines_number _ _ _
        · rfl

/-- An empty line does not end in a backslash, and still the line after it is joined if the
line before it ends in two. -/
theorem begins_logicalLine_not_iff :
    let source : Source := ⟨"x.cpp", "a\\\\\n\nb"⟩
    source.lineCount = 3 ∧ source.line? 2 = some [] ∧
      ¬ (3 ∈ source.logicalLines.map (·.number) ↔ ¬ EndsInBackslash []) := by
  unfold EndsInBackslash
  decide

end Source

end LineLexer
