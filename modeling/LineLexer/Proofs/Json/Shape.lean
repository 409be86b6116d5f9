import LineLexer.Proofs.Json.Reading
/-!
The shape of JSON texts, whatever they stand for.

A text can have the shape of a value without spelling one: an escape of half a surrogate pair
stands for no character, and a number may be out of all bounds.  Such a value cannot be used, but it
can be skipped.  Skipping follows the shape of the text through any number of open containers and
stops at its end.
-/

namespace LineLexer.Json

/-- A character of a string, or an escape of any code unit. -/
inductive ShapedChar : List Char → Prop
  | plain {c : Char} (hquote : c ≠ '"') (hbackslash : c ≠ '\\') (hcontrol : 0x20 ≤ c.toNat) :
      ShapedChar [c]
  | short {letter c : Char} (hletter : (letter, c) ∈ shortEscapes) : ShapedChar ['\\', letter]
  | unit {unit : Nat} {digits : List Char} (hunit : SpellsUnit unit digits) :
      ShapedChar ('\\' :: 'u' :: digits)

/-- The text of a string after its opening quote. -/
inductive ShapedString : List Char → Prop
  | close : ShapedString ['"']
  | char {text later : List Char} (hchar : ShapedChar text) (hlater : ShapedString later) :
      ShapedString (text ++ later)

/-- The values without parts. -/
inductive ShapedScalar : List Char → Prop
  | null : ShapedScalar ['n', 'u', 'l', 'l']
  | true : ShapedScalar ['t', 'r', 'u', 'e']
  | false : ShapedScalar ['f', 'a', 'l', 's', 'e']
  | positive {number : Number} {text : List Char} (hsign : number.negative = false)
      (hnumber : SpellsUnsigned number text) : ShapedScalar text
  | negative {number : Number} {text : List Char} (hsign : number.negative = true)
      (hnumber : SpellsUnsigned number text) : ShapedScalar ('-' :: text)
  | string {text : List Char} (hstring : ShapedString text) : ShapedScalar ('"' :: text)

/-- The key of a member, through the colon. -/
inductive ShapedKey : List Char → Prop
  | quoted {before text after : List Char} (hbefore : Gap before) (htext : ShapedString text)
      (hafter : Gap after) : ShapedKey (before ++ ('"' :: text ++ (after ++ [':'])))

mutual

/-- The texts with the shape of a value, from its first mark to its last. -/
inductive Shaped : List Char → Prop
  | scalar {text : List Char} (hscalar : ShapedScalar text) : Shaped text
  | emptyArray {gap : List Char} (hgap : Gap gap) : Shaped ('[' :: (gap ++ [']']))
  | array {text : List Char} (hitems : ShapedItems text) : Shaped ('[' :: text)
  | emptyObject {gap : List Char} (hgap : Gap gap) : Shaped ('\x7b' :: (gap ++ ['\x7d']))
  | object {text : List Char} (hmembers : ShapedMembers text) : Shaped ('\x7b' :: text)

/-- The items of an array, through the bracket that ends it. -/
inductive ShapedItems : List Char → Prop
  | last {before text after : List Char} (hbefore : Gap before) (hitem : Shaped text)
      (hafter : Gap after) : ShapedItems (before ++ (text ++ (after ++ [']'])))
  | more {before text after later : List Char} (hbefore : Gap before) (hitem : Shaped text)
      (hafter : Gap after) (hlater : ShapedItems later) :
      ShapedItems (before ++ (text ++ (after ++ ',' :: later)))

/-- The members of an object, through the bracket that ends it. -/
inductive ShapedMembers : List Char → Prop
  | last {front before text after : List Char} (hkey : ShapedKey front) (hbefore : Gap before)
      (hvalue : Shaped text) (hafter : Gap after) :
      ShapedMembers (front ++ (before ++ (text ++ (after ++ ['\x7d']))))
  | more {front before text after later : List Char} (hkey : ShapedKey front)
      (hbefore : Gap before) (hvalue : Shaped text) (hafter : Gap after)
      (hlater : ShapedMembers later) :
      ShapedMembers (front ++ (before ++ (text ++ (after ++ ',' :: later))))

end

section Spelled

theorem SpellsString.shaped {string text : List Char} (htext : SpellsString string text) :
    ShapedString text := by
  induction htext with
  | close => exact .close
  | char hchar _ ih =>
      cases hchar with
      | plain hquote hbackslash hcontrol => exact .char (.plain hquote hbackslash hcontrol) ih
      | short hletter => exact .char (.short hletter) ih
      | unit hunit => exact .char (.unit hunit) ih
      | pair _ hhigh hlow =>
          rw [List.append_assoc]
          exact .char (.unit hhigh) (.char (.unit hlow) ih)

theorem SpellsKey.shaped {key : String} {front : List Char} (hkey : SpellsKey key front) :
    ShapedKey front := by
  obtain ⟨hbefore, htext, hafter⟩ := hkey
  exact .quoted hbefore htext.shaped hafter

theorem SpellsScalar.shaped {value : Json} {text : List Char} (htext : SpellsScalar value text) :
    ShapedScalar text := by
  cases htext with
  | null => exact .null
  | true => exact .true
  | false => exact .false
  | positive hsign hnumber => exact .positive hsign hnumber
  | negative hsign hnumber => exact .negative hsign hnumber
  | string hstring => exact .string hstring.shaped

mutual

/-- What spells a value has the shape of one. -/
theorem Spells.shaped {value : Json} {text : List Char} (htext : Spells value text) :
    Shaped text := by
  cases htext with
  | scalar hscalar => exact .scalar hscalar.shaped
  | emptyArray hgap => exact .emptyArray hgap
  | array hitems => exact .array hitems.shaped
  | emptyObject hgap => exact .emptyObject hgap
  | object hmembers => exact .object hmembers.shaped

theorem SpellsItems.shaped {items : List Json} {text : List Char} (htext : SpellsItems items text) :
    ShapedItems text := by
  cases htext with
  | last hbefore hitem hafter => exact .last hbefore hitem.shaped hafter
  | more hbefore hitem hafter hlater => exact .more hbefore hitem.shaped hafter hlater.shaped

theorem SpellsMembers.shaped {members : List (String × Json)} {text : List Char}
    (htext : SpellsMembers members text) : ShapedMembers text := by
  cases htext with
  | last hkey hbefore hvalue hafter => exact .last hkey.shaped hbefore hvalue.shaped hafter
  | more hkey hbefore hvalue hafter hlater =>
      exact .more hkey.shaped hbefore hvalue.shaped hafter hlater.shaped

end

end Spelled

section Strings

variable {limit : Nat} {text rest : List Char}

theorem readEscape_skimming_unit {digits : List Char} {unit : Nat}
    (hunit : readCodeUnit digits = .ok (unit, rest)) :
    readEscape .skimming ('u' :: digits) = .ok (Char.ofNat unit, rest) := by
  rw [readEscape, hunit]
  exact if_pos (Or.inl rfl)

theorem readString_shapedChar (htext : ShapedChar text) :
    ∃ c, ∀ rest, readString .skimming (text ++ rest) =
      mapValue (c :: ·) (readString .skimming rest) := by
  cases htext with
  | @plain c hquote hbackslash hcontrol =>
      refine ⟨c, fun rest => ?_⟩
      rw [List.cons_append, readString, if_neg hquote, if_neg hbackslash,
        if_neg (Nat.not_lt.mpr hcontrol)]
      rfl
  | short hletter => exact ⟨_, fun rest => readString_escape (readEscape_short hletter)⟩
  | unit hunit =>
      exact ⟨_, fun rest => readString_escape
        (readEscape_skimming_unit (readCodeUnit_append hunit))⟩

/-- Without care a string is read to its end. -/
theorem readString_shaped (htext : ShapedString text) :
    ∃ string, ∀ rest, readString .skimming (text ++ rest) = .ok (string, rest) := by
  induction htext with
  | close =>
      refine ⟨[], fun rest => ?_⟩
      rw [List.cons_append, readString]
      rfl
  | char hchar _ ih =>
      obtain ⟨c, hc⟩ := readString_shapedChar hchar
      obtain ⟨string, hlater⟩ := ih
      refine ⟨c :: string, fun rest => ?_⟩
      rw [List.append_assoc, hc, hlater]
      rfl

theorem readLowSurrogate_eq_ok {high : Nat} {c : Char}
    (hread : readLowSurrogate high text = .ok (c, rest)) :
    ∃ digits low, text = '\\' :: 'u' :: digits ∧ readCodeUnit digits = .ok (low, rest) := by
  unfold readLowSurrogate at hread
  split at hread
  · cases hread
  · cases hread
  · split at hread
    · rename_i low later hunit
      split at hread
      · simp only [Except.ok.injEq, Prod.mk.injEq] at hread
        exact ⟨_, low, rfl, hread.2 ▸ hunit⟩
      · cases hread
    · cases hread
  · cases hread

/-- An escape that is accepted with care is one escape or two without. -/
theorem readEscape_skimming {c : Char} (hread : readEscape (.strict limit) text = .ok (c, rest)) :
    (∃ d, readEscape .skimming text = .ok (d, rest)) ∨
      ∃ d e between, readEscape .skimming text = .ok (d, '\\' :: between) ∧
        readEscape .skimming between = .ok (e, rest) := by
  unfold readEscape at hread
  split at hread
  case h_10 digits =>
    split at hread
    · rename_i unit later hunit
      split at hread
      · cases hread
        exact Or.inl ⟨_, readEscape_skimming_unit hunit⟩
      · split at hread
        · cases hread
        · obtain ⟨others, low, rfl, hlow⟩ := readLowSurrogate_eq_ok hread
          exact Or.inr ⟨_, _, _, readEscape_skimming_unit hunit, readEscape_skimming_unit hlow⟩
    · cases hread
  all_goals
    first
    | exact Or.inl ⟨_, by cases hread; rfl⟩
    | cases hread

/-- A string that is accepted with care ends where it ends without. -/
theorem readString_skimming {string : List Char}
    (hread : readString (.strict limit) text = .ok (string, rest)) :
    ∃ other, readString .skimming text = .ok (other, rest) := by
  fun_induction readString (.strict limit) text generalizing string with
  | case1 => cases hread
  | case2 later =>
      cases hread
      refine ⟨[], ?_⟩
      rw [readString]
      rfl
  | case3 later decoded after hescape _ ih =>
      obtain ⟨tail, htail, -⟩ := mapValue_eq_ok_iff.mp hread
      obtain ⟨other, hother⟩ := ih htail
      rcases readEscape_skimming hescape with ⟨d, hone⟩ | ⟨d, e, between, hfirst, hsecond⟩
      · exact ⟨d :: other, by rw [readString_escape hone, hother]; rfl⟩
      · refine ⟨d :: e :: other, ?_⟩
        rw [readString_escape hfirst, readString_escape hsecond, hother]
        rfl
  | case4 => cases hread
  | case5 => cases hread
  | case6 c later hquote hbackslash hcontrol ih =>
      obtain ⟨tail, htail, -⟩ := mapValue_eq_ok_iff.mp hread
      obtain ⟨other, hother⟩ := ih htail
      refine ⟨c :: other, ?_⟩
      rw [readString, if_neg hquote, if_neg hbackslash, if_neg hcontrol, hother]
      rfl

/-- With care, too, a string is read to its end, if it is accepted. -/
theorem readString_exact (htext : ShapedString text) {string later : List Char}
    (hread : readString (.strict limit) (text ++ rest) = .ok (string, later)) : later = rest := by
  obtain ⟨skimmed, hskimmed⟩ := readString_shaped htext
  obtain ⟨other, hother⟩ := readString_skimming hread
  rw [hskimmed] at hother
  cases hother
  rfl

end Strings

section Scalars

variable {limit : Nat} {text rest : List Char} {c : Char}

theorem ShapedScalar.starts (htext : ShapedScalar text) :
    ∃ c later, text = c :: later ∧ Starts c := by
  cases htext with
  | positive _ hnumber =>
      obtain ⟨c, later, htext, hc⟩ := hnumber.starts
      exact ⟨c, later, htext, starts_of_isDigit hc⟩
  | null | true | false | negative | string => exact ⟨_, _, rfl, by decide⟩

/-- Without care a value without parts is read to its end. -/
theorem readScalar_shaped (htext : ShapedScalar (c :: text)) :
    ∃ value, ∀ rest, Avoids numberMarks rest →
      readScalar .skimming c (text ++ rest) = .ok (value, rest) := by
  cases htext with
  | null | true | false => exact ⟨_, fun rest _ => rfl⟩
  | @positive number _ hsign hnumber =>
      obtain ⟨_, _, ⟨⟩, hc⟩ := hnumber.starts
      refine ⟨.number number, fun rest hrest => ?_⟩
      have hread :
          readUnsigned .skimming number.negative (c :: text ++ rest) = .ok (number, rest) :=
        readUnsigned_eq hnumber hrest
      rw [hsign] at hread
      rw [readScalar_digit hc]
      exact congrArg (mapValue Json.number) hread
  | @negative number _ hsign hnumber =>
      refine ⟨.number number, fun rest hrest => ?_⟩
      have hread : readUnsigned .skimming number.negative (text ++ rest) = .ok (number, rest) :=
        readUnsigned_eq hnumber hrest
      rw [hsign] at hread
      exact congrArg (mapValue Json.number) hread
  | string hstring =>
      obtain ⟨string, hread⟩ := readString_shaped hstring
      refine ⟨.string (String.ofList string), fun rest _ => ?_⟩
      rw [readScalar, if_pos rfl, hread, mapValue]

/-- With care, too, a value without parts is read to its end, if it is accepted. -/
theorem readScalar_exact (htext : ShapedScalar (c :: text)) (hrest : Avoids numberMarks rest)
    {value : Json} {later : List Char}
    (hread : readScalar (.strict limit) c (text ++ rest) = .ok (value, later)) : later = rest := by
  have hnumber {number : Number} {digits : List Char} (hdigits : SpellsUnsigned number digits)
      (hmapped : mapValue Json.number (readUnsigned (.strict limit) number.negative
        (digits ++ rest)) = .ok (value, later)) : later = rest := by
    rw [readUnsigned_eq hdigits hrest] at hmapped
    split at hmapped
    · cases hmapped
    · cases hmapped
      rfl
  cases htext with
  | null | true | false =>
      cases hread
      rfl
  | positive hsign hdigits =>
      obtain ⟨_, _, ⟨⟩, hc⟩ := hdigits.starts
      rw [readScalar_digit hc, ← hsign] at hread
      exact hnumber hdigits hread
  | negative hsign hdigits =>
      refine hnumber hdigits ?_
      rw [hsign]
      exact hread
  | string hstring =>
      rw [readScalar, if_pos rfl] at hread
      obtain ⟨string, hstrict, -⟩ := mapValue_eq_ok_iff.mp hread
      exact readString_exact hstring hstrict

end Scalars

theorem Shaped.starts {text : List Char} (htext : Shaped text) :
    ∃ c later, text = c :: later ∧ ¬ IsSpace c ∧ c ≠ ']' := by
  cases htext with
  | scalar hscalar =>
      obtain ⟨c, later, rfl, hspace, hbracket⟩ := hscalar.starts
      refine ⟨c, later, rfl, hspace, ?_⟩
      rintro rfl
      exact hbracket (by decide)
  | emptyArray | array | emptyObject | object => exact ⟨_, _, rfl, by decide, by decide⟩

theorem ShapedItems.exists_lead {text : List Char} (htext : ShapedItems text)
    (rest : List Char) : ∃ c later, lead (text ++ rest) = some (c, later) ∧ c ≠ ']' := by
  cases htext with
  | last hbefore hitem | more hbefore hitem =>
      obtain ⟨c, later, rfl, hspace, hbracket⟩ := hitem.starts
      rw [List.append_assoc, List.append_assoc]
      exact ⟨c, _, lead_gap_cons hbefore hspace, hbracket⟩

theorem ShapedMembers.exists_lead {text : List Char} (htext : ShapedMembers text)
    (rest : List Char) : ∃ c later, lead (text ++ rest) = some (c, later) ∧ c ≠ '\x7d' := by
  cases htext with
  | last hkey | more hkey =>
      obtain ⟨hbefore, -, -⟩ := hkey
      rw [List.append_assoc, List.append_assoc]
      exact ⟨'"', _, lead_gap_cons hbefore (by decide), by decide⟩

/-- A key is read to its quote, and its colon comes next. -/
theorem Reader.read_key_shaped {text : List Char} (hkey : ShapedKey text) :
    ∃ gap, Gap gap ∧ (∀ rest, ∃ name,
        (key .skimming).read (text ++ rest) = .ok (name, gap ++ ':' :: rest)) ∧
      ∀ limit rest name later, (key (.strict limit)).read (text ++ rest) = .ok (name, later) →
        later = gap ++ ':' :: rest := by
  obtain ⟨hbefore, htext, hafter⟩ := hkey
  refine ⟨_, hafter, fun rest => ?_, fun limit rest name later hread => ?_⟩
  · obtain ⟨name, hread⟩ := readString_shaped htext
    refine ⟨name, ?_⟩
    rw [List.append_assoc, List.cons_append, List.cons_append, List.append_assoc,
      List.append_assoc, List.singleton_append, read_key_quote hbefore, hread]
  · rw [List.append_assoc, List.cons_append, List.cons_append, List.append_assoc,
      List.append_assoc, List.singleton_append, read_key_quote hbefore] at hread
    exact readString_exact htext hread

section Runs

open Assembly
open Reader (proceed iterate iterate_eq_proceed)

mutual

/-- Where a value is skipped, a text with the shape of one completes it. -/
theorem Shaped.iterate_eq {text : List Char} (htext : Shaped text) (frames : List Frame)
    {before rest : List Char} (hbefore : Gap before) (hrest : Avoids numberMarks rest) :
    ∃ value, iterate (step .skimming) (.awaiting frames) (before ++ (text ++ rest)) =
      proceed (step .skimming) (complete value frames) rest := by
  cases htext with
  | scalar hscalar =>
      obtain ⟨c, later, rfl, hc⟩ := hscalar.starts
      obtain ⟨value, hread⟩ := readScalar_shaped hscalar
      exact ⟨value, iterate_eq_proceed (read_step_readScalar hbefore hc (hread rest hrest))⟩
  | @emptyArray gap hgap =>
      have hlead : lead (gap ++ ']' :: rest) = some (']', rest) :=
        lead_gap_cons hgap (by decide)
      refine ⟨.array [], ?_⟩
      rw [List.cons_append, List.append_assoc, List.singleton_append]
      exact iterate_eq_proceed ((read_step_array hbefore).trans (openContainer_closing rfl hlead))
  | array hitems =>
      obtain ⟨c, later, hlead, hc⟩ := hitems.exists_lead rest
      obtain ⟨value, hread⟩ := hitems.iterate_eq frames [] rest
      exact ⟨value, (iterate_eq_proceed
        ((read_step_array hbefore).trans (openContainer_part rfl hlead hc))).trans hread⟩
  | @emptyObject gap hgap =>
      have hlead : lead (gap ++ '\x7d' :: rest) = some ('\x7d', rest) :=
        lead_gap_cons hgap (by decide)
      refine ⟨.object [], ?_⟩
      rw [List.cons_append, List.append_assoc, List.singleton_append]
      exact iterate_eq_proceed
        ((read_step_object hbefore).trans (openContainer_closing rfl hlead))
  | object hmembers =>
      obtain ⟨c, later, hlead, hc⟩ := hmembers.exists_lead rest
      obtain ⟨value, hread⟩ := hmembers.iterate_eq frames [] rest
      exact ⟨value, (iterate_eq_proceed
        ((read_step_object hbefore).trans (openContainer_part rfl hlead hc))).trans hread⟩
termination_by text.length

/-- The items that come next are skipped with the bracket behind them. -/
theorem ShapedItems.iterate_eq {text : List Char} (htext : ShapedItems text)
    (outer : List Frame) (done : List Json) (rest : List Char) :
    ∃ value, iterate (step .skimming) (.awaiting (.array done :: outer)) (text ++ rest) =
      proceed (step .skimming) (complete value outer) rest := by
  cases htext with
  | @last before text after hbefore hitem hafter =>
      have hend : Avoids numberMarks (after ++ ']' :: rest) :=
        avoids_gap_cons hafter (by decide) rest
      obtain ⟨item, hread⟩ := hitem.iterate_eq (.array done :: outer) hbefore hend
      refine ⟨.array (item :: done).reverse, ?_⟩
      rw [List.append_assoc, List.append_assoc, List.append_assoc, List.singleton_append, hread]
      exact iterate_eq_proceed (read_step_item_closing hafter)
  | @more before text after later hbefore hitem hafter hlater =>
      have hend : Avoids numberMarks (after ++ ',' :: (later ++ rest)) :=
        avoids_gap_cons hafter (by decide) _
      obtain ⟨item, hread⟩ := hitem.iterate_eq (.array done :: outer) hbefore hend
      obtain ⟨value, hothers⟩ := hlater.iterate_eq outer (item :: done) rest
      refine ⟨value, ?_⟩
      rw [List.append_assoc, List.append_assoc, List.append_assoc, List.cons_append, hread]
      exact (iterate_eq_proceed (read_step_item_comma hafter)).trans hothers
termination_by text.length
decreasing_by all_goals simp only [List.length_append, List.length_cons]; omega

/-- The members that come next are skipped with the brace behind them. -/
theorem ShapedMembers.iterate_eq {text : List Char} (htext : ShapedMembers text)
    (outer : List Frame) (done : List (String × Json)) (rest : List Char) :
    ∃ value, iterate (step .skimming) (.member done outer) (text ++ rest) =
      proceed (step .skimming) (complete value outer) rest := by
  cases htext with
  | @last front before text after hkey hbefore hvalue hafter =>
      obtain ⟨gap, hgap, hkeys, -⟩ := Reader.read_key_shaped hkey
      obtain ⟨name, hname⟩ := hkeys (before ++ (text ++ (after ++ '\x7d' :: rest)))
      have hend : Avoids numberMarks (after ++ '\x7d' :: rest) :=
        avoids_gap_cons hafter (by decide) rest
      obtain ⟨value, hread⟩ :=
        hvalue.iterate_eq (.object done (String.ofList name) :: outer) hbefore hend
      refine ⟨.object ((String.ofList name, value) :: done).reverse, ?_⟩
      rw [List.append_assoc, List.append_assoc, List.append_assoc, List.append_assoc,
        List.singleton_append, iterate_eq_proceed (read_step_key hgap hname), proceed, hread]
      exact iterate_eq_proceed (read_step_value_closing hafter)
  | @more front before text after later hkey hbefore hvalue hafter hlater =>
      obtain ⟨gap, hgap, hkeys, -⟩ := Reader.read_key_shaped hkey
      obtain ⟨name, hname⟩ := hkeys (before ++ (text ++ (after ++ ',' :: (later ++ rest))))
      have hend : Avoids numberMarks (after ++ ',' :: (later ++ rest)) :=
        avoids_gap_cons hafter (by decide) _
      obtain ⟨value, hread⟩ :=
        hvalue.iterate_eq (.object done (String.ofList name) :: outer) hbefore hend
      obtain ⟨whole, hothers⟩ := hlater.iterate_eq outer ((String.ofList name, value) :: done) rest
      refine ⟨whole, ?_⟩
      rw [List.append_assoc, List.append_assoc, List.append_assoc, List.append_assoc,
        List.cons_append, iterate_eq_proceed (read_step_key hgap hname), proceed, hread]
      exact (iterate_eq_proceed (read_step_value_comma hafter)).trans hothers
termination_by text.length
decreasing_by all_goals simp only [List.length_append, List.length_cons]; omega

end

end Runs

end LineLexer.Json
