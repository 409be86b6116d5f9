import LineLexer.Json.Printer
import LineLexer.Proofs.Json.Grammar
/-!
What is written is JSON.

Both layouts put nothing but white space between the marks of a text.  A value that is written by
such a layout is spelled by the text, with a character escaped only where it must be.  A printer
that follows a layout prints the same text from the parts of the value.
-/

namespace LineLexer.Json

section Numbers

theorem digits_decimal (n : Nat) : Digits (decimal n) :=
  ⟨Nat.toDigits_ne_nil, fun _ hc => Nat.isDigit_of_mem_toDigits (by decide) (by decide) hc⟩

theorem digitsValue_decimal (n : Nat) : digitsValue (decimal n) = n :=
  Nat.ofDigitChars_ten_toDigits

/-- The digits of a number start with a zero only if it is zero. -/
theorem head?_decimal_ne {n : Nat} (hpositive : 0 < n) : (decimal n).head? ≠ some '0' := by
  induction n using Nat.strongRecOn with
  | ind n ih =>
      by_cases hsmall : n < 10
      · rw [decimal, Nat.toDigits_of_lt_base hsmall]
        simp only [List.head?_cons, ne_eq, Option.some.injEq, Nat.digitChar_eq_zero]
        omega
      · have hfront := ih (n / 10) (by omega) (by omega)
        have hsplit : decimal n = decimal (n / 10) ++ [Nat.digitChar (n % 10)] :=
          Nat.toDigits_of_base_le (by decide) (by omega)
        obtain ⟨c, later, htext⟩ := List.exists_cons_of_ne_nil (digits_decimal (n / 10)).ne_nil
        rw [htext, List.head?_cons] at hfront
        rw [hsplit, htext, List.cons_append, List.head?_cons]
        exact hfront

theorem spellsWhole_decimal (n : Nat) : SpellsWhole n (decimal n) where
  digits := digits_decimal n
  not_padded c later htext := by
    rcases Nat.eq_zero_or_pos n with rfl | hpositive
    · have hzero : decimal 0 = ['0'] := Nat.toDigits_zero 10
      rw [hzero] at htext
      cases htext
    · exact head?_decimal_ne hpositive (by rw [htext, List.head?_cons])
  value_eq := digitsValue_decimal n

/-- The fraction of a number as text. -/
private def fractionText (fraction : List Char) : List Char :=
  if fraction.isEmpty then [] else '.' :: fraction

private theorem spellsFraction_text {fraction : List Char}
    (hdigits : ∀ c ∈ fraction, c.isDigit = true) :
    SpellsFraction fraction (fractionText fraction) := by
  cases fraction with
  | nil => exact .absent
  | cons c later => exact .present ⟨List.cons_ne_nil c later, hdigits⟩

/-- The exponent of a number as text. -/
private def exponentText : Option Int → List Char
  | none => []
  | some (.ofNat n) => 'e' :: decimal n
  | some (.negSucc n) => 'e' :: '-' :: decimal (n + 1)

private theorem spellsExponent_text (exponent : Option Int) :
    SpellsExponent exponent (exponentText exponent) := by
  match exponent with
  | none => exact .absent
  | some (.ofNat n) =>
      have hspells := SpellsExponent.unsigned (Or.inl rfl) (digits_decimal n)
      rw [digitsValue_decimal] at hspells
      exact hspells
  | some (.negSucc n) =>
      have hspells := SpellsExponent.minus (Or.inl rfl) (digits_decimal (n + 1))
      rw [digitsValue_decimal] at hspells
      exact hspells

theorem spellsScalar_number {number : Number}
    (hdigits : ∀ c ∈ number.fraction, c.isDigit = true) :
    SpellsScalar (.number number) number.text := by
  have hunsigned := SpellsUnsigned.parts (spellsWhole_decimal number.whole)
    (spellsFraction_text hdigits) (spellsExponent_text number.exponent)
  have htext : number.text = (if number.negative then ['-'] else []) ++
      (decimal number.whole ++
        (fractionText number.fraction ++ exponentText number.exponent)) := by
    rw [← List.append_assoc, ← List.append_assoc]
    rfl
  rw [htext]
  cases hsign : number.negative with
  | false => exact .positive hsign hunsigned
  | true => exact .negative hsign hunsigned

end Numbers

section Strings

theorem hexValue?_digitChar : ∀ n < 16, hexValue? (Nat.digitChar n) = some n := by
  decide

theorem spellsChar_escape (c : Char) : SpellsChar c (escape c) := by
  unfold escape
  split
  case h_8 hquote hbackslash _ _ _ _ _ =>
    split
    · -- The first two of the four digits are zeros.
      have hzero : hexValue? '0' = some 0 := by decide
      have hunit := SpellsUnit.digits hzero hzero (hexValue?_digitChar (c.toNat / 16) (by omega))
        (hexValue?_digitChar (c.toNat % 16) (by omega))
      have hvalue : ((0 * 16 + 0) * 16 + c.toNat / 16) * 16 + c.toNat % 16 = c.toNat := by omega
      rw [hvalue] at hunit
      exact .unit hunit
    · exact .plain hquote hbackslash (by omega)
  all_goals exact .short (by decide)

theorem spellsString_escape (string : List Char) :
    SpellsString string (string.flatMap escape ++ ['"']) := by
  induction string with
  | nil => exact .close
  | cons c later ih =>
      rw [List.flatMap_cons, List.append_assoc]
      exact .char (spellsChar_escape c) ih

theorem spellsScalar_quote (text : String) : SpellsScalar (.string text) (quote text) :=
  .string (spellsString_escape text.toList)

end Strings

section Parts

variable (layout : Layout) (depth : Nat)

theorem writeItems_eq_map (items : List Json) :
    writeItems layout depth items = items.map (write layout depth) := by
  induction items with
  | nil => rfl
  | cons item items ih => rw [writeItems, ih, List.map_cons]

theorem writeMembers_eq_map (members : List (String × Json)) :
    writeMembers layout depth members =
      members.map fun member => quote member.1 ++ layout.colon ++ member.2.write layout depth := by
  induction members with
  | nil => rfl
  | cons member members ih => rw [writeMembers, ih, List.map_cons]

namespace Printer.Follows

variable {layout : Layout} {printer : Printer} (hfollows : printer.Follows layout)

include hfollows

theorem string_eq_write (text : String) :
    printer.string text = (Json.string text).write layout depth := by
  rw [write]
  exact hfollows.string_eq text

theorem number_eq_write {n : Nat} (hbound : n < Nat.pow 2 64) :
    printer.number n = (ofNat n).write layout depth := by
  rw [hfollows.number_eq n hbound, ofNat, write]
  simp [Number.text]

theorem array_eq_write (items : List Json) :
    printer.array depth items.length (items.map (write layout (depth + 1))) =
      (Json.array items).write layout depth := by
  have harray := hfollows.array_eq depth (items.map (write layout (depth + 1)))
  rw [List.length_map] at harray
  rw [harray, write, writeItems_eq_map]

theorem object_eq_write (members : List (String × Json)) :
    printer.object depth (members.map fun member => (member.1, member.2.write layout (depth + 1))) =
      (Json.object members).write layout depth := by
  rw [hfollows.object_eq, List.map_map, write, writeMembers_eq_map]
  rfl

end Printer.Follows

end Parts

/-- A layout that adds nothing but white space. -/
structure Layout.Blank (layout : Layout) : Prop where
  gap : ∀ depth, Gap (layout.gap depth)
  colon : ∃ gap, Gap gap ∧ layout.colon = ':' :: gap

theorem Layout.blank_compact : Layout.compact.Blank :=
  ⟨fun _ => gap_nil, [], gap_nil, rfl⟩

theorem Layout.blank_pretty : Layout.pretty.Blank where
  gap depth := by
    refine gap_cons (by decide) fun c hc => ?_
    exact Or.inl (List.eq_of_mem_replicate hc)
  colon := ⟨[' '], gap_cons (by decide) gap_nil, rfl⟩

/-- What is written after the opening bracket of a container with parts. -/
def Layout.inside (layout : Layout) (depth : Nat) (closing : Char) (parts : List (List Char)) :
    List Char :=
  layout.gap (depth + 1) ++
    ((',' :: layout.gap (depth + 1)).intercalate parts ++ (layout.gap depth ++ [closing]))

namespace Layout

variable (layout : Layout) (depth : Nat) (opening closing : Char) (part : List Char)
  (parts : List (List Char))

theorem enclose_cons : layout.enclose depth opening closing (part :: parts) =
    opening :: layout.inside depth closing (part :: parts) := by
  simp [enclose, inside]

theorem inside_singleton : layout.inside depth closing [part] =
    layout.gap (depth + 1) ++ (part ++ (layout.gap depth ++ [closing])) := by
  simp [inside]

theorem inside_cons_cons (next : List Char) :
    layout.inside depth closing (part :: next :: parts) =
      layout.gap (depth + 1) ++
        (part ++ ([] ++ ',' :: layout.inside depth closing (next :: parts))) := by
  simp [inside]

end Layout

section Containers

variable {layout : Layout} (hlayout : layout.Blank) (depth : Nat)

include hlayout

/-- The white space before a key belongs to the key, and that after its colon to the value. -/
theorem spellsKey_quote (key : String) : ∃ front gap, SpellsKey key front ∧ Gap gap ∧
    ∀ text, layout.gap depth ++ (quote key ++ layout.colon ++ text) = front ++ (gap ++ text) := by
  obtain ⟨gap, hgap, hcolon⟩ := hlayout.colon
  refine ⟨_, gap,
    .quoted (hlayout.gap depth) (spellsString_escape key.toList) gap_nil, hgap, fun text => ?_⟩
  simp [quote, hcolon]

theorem spellsItems_inside (item : Json) (items : List Json)
    (hitems : ∀ other ∈ item :: items, Spells other (other.write layout (depth + 1))) :
    SpellsItems (item :: items)
      (layout.inside depth ']' (writeItems layout (depth + 1) (item :: items))) := by
  induction items generalizing item with
  | nil =>
      rw [writeItems, writeItems, Layout.inside_singleton]
      exact .last (hlayout.gap _) (hitems item List.mem_cons_self) (hlayout.gap _)
  | cons next items ih =>
      rw [List.forall_mem_cons] at hitems
      have hlater := ih next hitems.2
      rw [writeItems] at hlater ⊢
      rw [writeItems, Layout.inside_cons_cons]
      exact .more (hlayout.gap _) hitems.1 gap_nil hlater

theorem spellsMembers_inside (member : String × Json) (members : List (String × Json))
    (hmembers : ∀ other ∈ member :: members,
      Spells other.2 (other.2.write layout (depth + 1))) :
    SpellsMembers (member :: members)
      (layout.inside depth '\x7d' (writeMembers layout (depth + 1) (member :: members))) := by
  induction members generalizing member with
  | nil =>
      obtain ⟨front, gap, hkey, hgap, htext⟩ := spellsKey_quote hlayout (depth + 1) member.1
      rw [writeMembers, writeMembers, Layout.inside_singleton, List.append_assoc, htext]
      exact .last hkey hgap (hmembers member List.mem_cons_self) (hlayout.gap _)
  | cons next members ih =>
      rw [List.forall_mem_cons] at hmembers
      have hlater := ih next hmembers.2
      obtain ⟨front, gap, hkey, hgap, htext⟩ := spellsKey_quote hlayout (depth + 1) member.1
      rw [writeMembers] at hlater ⊢
      rw [writeMembers, Layout.inside_cons_cons, List.append_assoc, htext]
      exact .more hkey hgap hmembers.1 gap_nil hlater

/-- A value is spelled by its text. -/
theorem spells_write {room : Nat} {value : Json} (hfits : Fits room value) :
    Spells value (value.write layout depth) := by
  induction hfits generalizing depth with
  | null => exact .scalar .null
  | @bool _ value =>
      cases value with
      | false => exact .scalar .false
      | true => exact .scalar .true
  | number hdigits => exact .scalar (spellsScalar_number hdigits)
  | @string _ text => exact .scalar (spellsScalar_quote text)
  | @array _ items _ ih =>
      cases items with
      | nil => exact .emptyArray gap_nil
      | cons item items =>
          rw [write, writeItems, Layout.enclose_cons]
          exact .array (spellsItems_inside hlayout depth item items fun other hother =>
            ih other hother (depth + 1))
  | @object _ members _ ih =>
      cases members with
      | nil => exact .emptyObject gap_nil
      | cons member members =>
          rw [write, writeMembers, Layout.enclose_cons]
          exact .object (spellsMembers_inside hlayout depth member members fun other hother =>
            ih other hother (depth + 1))

end Containers

/-- A text in either layout holds the value and nothing else. -/
theorem spellsText_write {layout : Layout} (hlayout : layout.Blank) {room : Nat} {value : Json}
    (hfits : Fits room value) : SpellsText value (value.write layout 0) := by
  have htext := SpellsText.padded gap_nil (spells_write hlayout 0 hfits) gap_nil
  simpa using htext

end LineLexer.Json
