import LineLexer.Json.Reader
import LineLexer.Proofs.Json.Grammar
/-!
What is spelled is read.

A number ends only where the text goes on with a character that cannot belong to it, so each
reader of digits is followed by a text that avoids some characters.  For all other values the text
behind them plays no role.  A container is read part by part with the open ones on a stack; the
grammar drives the reader from the state before a value to the one after it.
-/

namespace LineLexer.Json

section Spaces

variable {gap text : List Char} {c : Char}

theorem lead_append (hgap : Gap gap) : lead (gap ++ text) = lead text := by
  induction gap with
  | nil => rfl
  | cons c later ih =>
      obtain ⟨hc, hlater⟩ := List.forall_mem_cons.mp hgap
      rw [List.cons_append, lead]
      exact (if_pos hc).trans (ih hlater)

theorem lead_cons (hc : ¬ IsSpace c) : lead (c :: text) = some (c, text) := by
  rw [lead]
  exact if_neg hc

theorem lead_gap_cons (hgap : Gap gap) (hc : ¬ IsSpace c) :
    lead (gap ++ c :: text) = some (c, text) := by
  rw [lead_append hgap, lead_cons hc]

theorem lead_gap (hgap : Gap gap) : lead gap = none := by
  have hempty : lead (gap ++ []) = lead [] := lead_append hgap
  rw [List.append_nil] at hempty
  rw [hempty]
  rfl

end Spaces

section Numbers

/-- The text starts neither with a digit nor with one of the marks. -/
def Avoids (marks text : List Char) : Prop :=
  ∀ c later, text = c :: later → c.isDigit = false ∧ c ∉ marks

theorem avoids_nil (marks : List Char) : Avoids marks [] := by
  intro c later htext
  cases htext

theorem avoids_cons {marks : List Char} {c : Char} (hdigit : c.isDigit = false)
    (hmark : c ∉ marks) (later : List Char) : Avoids marks (c :: later) := by
  rintro _ _ ⟨⟩
  exact ⟨hdigit, hmark⟩

variable {care : Care} {rest : List Char}

theorem Avoids.mono {marks fewer text : List Char} (havoids : Avoids marks text)
    (hsubset : fewer ⊆ marks) : Avoids fewer text := by
  intro c later htext
  obtain ⟨hdigit, hmark⟩ := havoids c later htext
  exact ⟨hdigit, fun hmem => hmark (hsubset hmem)⟩

theorem spanDigits_append {digits : List Char} (hdigits : Digits digits)
    (hrest : Avoids [] rest) : spanDigits (digits ++ rest) = (digits, rest) := by
  have hstop : rest.takeWhile Char.isDigit = [] ∧ rest.dropWhile Char.isDigit = rest := by
    cases rest with
    | nil => exact ⟨rfl, rfl⟩
    | cons c later =>
        have hc := (hrest c later rfl).1
        simp [hc]
  rw [spanDigits, List.takeWhile_append_of_pos hdigits.isDigit,
    List.dropWhile_append_of_pos hdigits.isDigit, hstop.1, hstop.2, List.append_nil]

theorem readWhole_append {n : Nat} {text : List Char} (htext : SpellsWhole n text)
    (hrest : Avoids [] rest) : readWhole care (text ++ rest) = .ok (n, rest) := by
  rw [readWhole, spanDigits_append htext.digits hrest]
  split
  · rename_i hspan
    exact absurd (congrArg Prod.fst hspan) htext.digits.ne_nil
  · rename_i c later _ hspan
    exact absurd (congrArg Prod.fst hspan) (htext.not_padded c later)
  · rename_i hspan
    cases hspan
    rw [htext.value_eq]

theorem readFraction_append {fraction text : List Char} (htext : SpellsFraction fraction text)
    (hrest : Avoids ['.'] rest) : readFraction care (text ++ rest) = .ok (fraction, rest) := by
  cases htext with
  | absent =>
      rw [List.nil_append, readFraction]
      rintro after rfl
      exact (hrest '.' after rfl).2 List.mem_cons_self
  | present hdigits =>
      rw [List.cons_append, readFraction, spanDigits_append hdigits (hrest.mono (by simp))]
      split
      · rename_i hspan
        exact absurd (congrArg Prod.fst hspan) hdigits.ne_nil
      · rename_i hspan
        cases hspan
        rfl

/-- The marks that may follow the digits of a number. -/
abbrev numberMarks : List Char :=
  ['.', 'e', 'E']

theorem exponentSign_append {digits : List Char} (hdigits : Digits digits) :
    exponentSign (digits ++ rest) = (false, digits ++ rest) := by
  obtain ⟨c, later, rfl⟩ := List.exists_cons_of_ne_nil hdigits.ne_nil
  have hc := hdigits.isDigit c List.mem_cons_self
  rw [List.cons_append, exponentSign]
  · rintro rest' ⟨⟩
    cases hc
  · rintro rest' ⟨⟩
    cases hc

/-- Behind its mark an exponent is read from its sign on. -/
theorem readExponent_mark {mark : Char} {digits after : List Char} {negative : Bool}
    (hmark : mark = 'e' ∨ mark = 'E') (hsign : exponentSign after = (negative, digits ++ rest))
    (hdigits : Digits digits) (hrest : Avoids [] rest) :
    readExponent care (mark :: after) =
      .ok (some (if negative then -(digitsValue digits : Int) else digitsValue digits), rest) := by
  rcases hmark with rfl | rfl
  all_goals
    rw [readExponent, hsign]
    dsimp only
    rw [spanDigits_append hdigits hrest]
    split
    · rename_i hspan
      exact absurd (congrArg Prod.fst hspan) hdigits.ne_nil
    · rename_i hspan
      cases hspan
      rfl

theorem readExponent_append {exponent : Option Int} {text : List Char}
    (htext : SpellsExponent exponent text) (hrest : Avoids numberMarks rest) :
    readExponent care (text ++ rest) = .ok (exponent, rest) := by
  have hend : Avoids [] rest := hrest.mono (by simp)
  cases htext with
  | absent =>
      rw [List.nil_append, readExponent]
      · rintro after rfl
        exact (hrest 'e' after rfl).2 (by decide)
      · rintro after rfl
        exact (hrest 'E' after rfl).2 (by decide)
  | unsigned hmark hdigits =>
      exact readExponent_mark hmark (exponentSign_append hdigits) hdigits hend
  | @plus _ digits hmark hdigits =>
      have hsign : exponentSign ('+' :: (digits ++ rest)) = (false, digits ++ rest) := rfl
      exact readExponent_mark hmark hsign hdigits hend
  | @minus _ digits hmark hdigits =>
      have hsign : exponentSign ('-' :: (digits ++ rest)) = (true, digits ++ rest) := rfl
      exact readExponent_mark hmark hsign hdigits hend

theorem SpellsExponent.avoids {exponent : Option Int} {text : List Char}
    (htext : SpellsExponent exponent text) (hrest : Avoids numberMarks rest) :
    Avoids ['.'] (text ++ rest) := by
  cases htext with
  | absent => exact hrest.mono (by simp)
  | unsigned hmark | plus hmark | minus hmark =>
      rcases hmark with rfl | rfl <;> exact avoids_cons (by decide) (by decide) _

theorem SpellsFraction.avoids {fraction text : List Char}
    (htext : SpellsFraction fraction text) (hrest : Avoids ['.'] rest) :
    Avoids [] (text ++ rest) := by
  cases htext with
  | absent => exact hrest.mono (by simp)
  | present => exact avoids_cons (by decide) (by decide) _

/-- A number is read to its end.  One that is not finite is refused there, unless it is skipped. -/
theorem readUnsigned_eq {number : Number} {text : List Char}
    (htext : SpellsUnsigned number text) (hrest : Avoids numberMarks rest) :
    readUnsigned care number.negative (text ++ rest) =
      if care ≠ .skimming ∧ number.isHuge then .error .malformed else .ok (number, rest) := by
  obtain ⟨hwhole, hfraction, hexponent⟩ := htext
  have hlater := hexponent.avoids hrest
  rw [List.append_assoc, List.append_assoc, readUnsigned,
    readWhole_append hwhole (hfraction.avoids hlater)]
  dsimp only
  rw [readFraction_append hfraction hlater]
  dsimp only
  rw [readExponent_append hexponent hrest]

theorem readUnsigned_append {number : Number} {text : List Char}
    (htext : SpellsUnsigned number text) (hfinite : number.isHuge = false)
    (hrest : Avoids numberMarks rest) :
    readUnsigned care number.negative (text ++ rest) = .ok (number, rest) := by
  rw [readUnsigned_eq htext hrest]
  simp [hfinite]

end Numbers

section Strings

variable {care : Care} {limit : Nat} {rest : List Char}

theorem readCodeUnit_append {unit : Nat} {digits : List Char} (hunit : SpellsUnit unit digits) :
    readCodeUnit (digits ++ rest) = .ok (unit, rest) := by
  cases hunit with
  | @digits a b c d i j k l ha hb hc hd =>
      have hlong : ¬ 0 + a.utf8Size + b.utf8Size + c.utf8Size + d.utf8Size < 4 := by
        have := a.utf8Size_pos
        have := b.utf8Size_pos
        have := c.utf8Size_pos
        have := d.utf8Size_pos
        omega
      simp only [List.cons_append, List.nil_append, readCodeUnit, List.take_succ_cons,
        List.take_zero, List.foldl_cons, List.foldl_nil, if_neg hlong, ha, hb, hc, hd]

/-- A character of the first plane is no surrogate. -/
theorem readEscape_unit {c : Char} {digits : List Char} (hunit : SpellsUnit c.toNat digits) :
    readEscape care ('u' :: (digits ++ rest)) = .ok (c, rest) := by
  have hscalar : c.toNat < 0xD800 ∨ 0xDFFF < c.toNat := by
    rcases c.valid with hlow | ⟨hhigh, -⟩
    · exact Or.inl hlow
    · exact Or.inr hhigh
  rw [readEscape, readCodeUnit_append hunit]
  dsimp only
  rw [if_pos (Or.inr hscalar), Char.ofNat_toNat]

theorem readEscape_pair {c : Char} {high low : List Char} (hwide : 0x10000 ≤ c.toNat)
    (hhigh : SpellsUnit (0xD800 + (c.toNat - 0x10000) / 0x400) high)
    (hlow : SpellsUnit (0xDC00 + (c.toNat - 0x10000) % 0x400) low) :
    readEscape (.strict limit) ('u' :: (high ++ '\\' :: 'u' :: (low ++ rest))) =
      .ok (c, rest) := by
  have hbound : c.toNat < 0x110000 := by
    rcases c.valid with hsmall | ⟨-, hlarge⟩
    · exact Nat.lt_trans hsmall (by decide)
    · exact hlarge
  have hvalue : 0x10000 + (0xD800 + (c.toNat - 0x10000) / 0x400 - 0xD800) * 0x400 +
      (0xDC00 + (c.toNat - 0x10000) % 0x400 - 0xDC00) = c.toNat := by
    omega
  rw [readEscape, readCodeUnit_append hhigh]
  dsimp only
  rw [if_neg (by simp only [reduceCtorEq, false_or]; omega), if_neg (by omega), readLowSurrogate,
    readCodeUnit_append hlow]
  dsimp only
  rw [if_pos (by omega), hvalue, Char.ofNat_toNat]

theorem readEscape_short {letter c : Char} (hletter : (letter, c) ∈ shortEscapes) :
    readEscape care (letter :: rest) = .ok (c, rest) := by
  simp only [shortEscapes, List.mem_cons, Prod.mk.injEq, List.not_mem_nil, or_false] at hletter
  rcases hletter with ⟨rfl, rfl⟩ | ⟨rfl, rfl⟩ | ⟨rfl, rfl⟩ | ⟨rfl, rfl⟩ | ⟨rfl, rfl⟩ |
    ⟨rfl, rfl⟩ | ⟨rfl, rfl⟩ | ⟨rfl, rfl⟩ <;> rfl

theorem readString_escape {c : Char} {text later : List Char}
    (hescape : readEscape care text = .ok (c, later)) :
    readString care ('\\' :: text) = mapValue (c :: ·) (readString care later) := by
  rw [readString, if_neg (by decide), if_pos rfl]
  split
  · rename_i hread
    rw [hescape] at hread
    cases hread
    rfl
  · rename_i hread
    rw [hescape] at hread
    cases hread

theorem readString_char {c : Char} {text : List Char} (htext : SpellsChar c text) :
    readString (.strict limit) (text ++ rest) =
      mapValue (c :: ·) (readString (.strict limit) rest) := by
  cases htext with
  | plain hquote hbackslash hcontrol =>
      rw [List.cons_append, readString, if_neg hquote, if_neg hbackslash,
        if_neg (Nat.not_lt.mpr hcontrol)]
      rfl
  | short hletter => exact readString_escape (readEscape_short hletter)
  | unit hunit => exact readString_escape (readEscape_unit hunit)
  | pair hwide hhigh hlow =>
      rw [List.cons_append, List.cons_append, List.append_assoc]
      exact readString_escape (readEscape_pair hwide hhigh hlow)

theorem readString_append {string text : List Char} (htext : SpellsString string text) :
    readString (.strict limit) (text ++ rest) = .ok (string, rest) := by
  induction htext with
  | close =>
      rw [List.cons_append, readString]
      rfl
  | char hchar _ ih =>
      rw [List.append_assoc, readString_char hchar, ih]
      rfl

end Strings

section Scalars

variable {care : Care} {limit room : Nat} {value : Json} {text rest : List Char} {c : Char}

/-- A character that is neither white space nor a bracket. -/
def Starts (c : Char) : Prop :=
  ¬ IsSpace c ∧ c ∉ ['[', ']', '\x7b', '\x7d']

instance : DecidablePred Starts :=
  fun c => inferInstanceAs (Decidable (¬ IsSpace c ∧ c ∉ ['[', ']', '\x7b', '\x7d']))

theorem starts_of_isDigit (hc : c.isDigit = true) : Starts c := by
  constructor
  · rintro (rfl | rfl | rfl | rfl) <;> cases hc
  · intro hmem
    simp only [List.mem_cons, List.not_mem_nil, or_false] at hmem
    rcases hmem with rfl | rfl | rfl | rfl <;> cases hc

theorem readScalar_digit (hc : c.isDigit = true) :
    readScalar care c text = mapValue .number (readUnsigned care false (c :: text)) := by
  have hne (other : Char) (hother : other.isDigit = false) : c ≠ other := by
    rintro rfl
    rw [hother] at hc
    cases hc
  rw [readScalar, if_neg (hne '"' rfl), if_neg (hne 'n' rfl), if_neg (hne 't' rfl),
    if_neg (hne 'f' rfl), if_neg (hne '-' rfl), if_pos hc]

theorem SpellsUnsigned.starts {number : Number} (htext : SpellsUnsigned number text) :
    ∃ c later, text = c :: later ∧ c.isDigit = true := by
  obtain ⟨hwhole, -, -⟩ := htext
  obtain ⟨c, later, rfl⟩ := List.exists_cons_of_ne_nil hwhole.digits.ne_nil
  exact ⟨c, _, rfl, hwhole.digits.isDigit c List.mem_cons_self⟩

theorem SpellsScalar.starts (htext : SpellsScalar value text) :
    ∃ c later, text = c :: later ∧ Starts c := by
  cases htext with
  | positive _ hnumber =>
      obtain ⟨c, later, htext, hc⟩ := hnumber.starts
      exact ⟨c, later, htext, starts_of_isDigit hc⟩
  | null | true | false | negative | string => exact ⟨_, _, rfl, by decide⟩

theorem readScalar_append (htext : SpellsScalar value (c :: text)) (hfits : Fits room value)
    (hrest : Avoids numberMarks rest) :
    readScalar (.strict limit) c (text ++ rest) = .ok (value, rest) := by
  cases htext with
  | null | true | false => rfl
  | @positive number _ hsign hnumber =>
      obtain ⟨_, _, ⟨⟩, hc⟩ := hnumber.starts
      cases hfits with
      | number _ hfinite =>
          have hread : readUnsigned (.strict limit) number.negative (c :: text ++ rest) =
              .ok (number, rest) := readUnsigned_append hnumber hfinite hrest
          rw [hsign] at hread
          rw [readScalar_digit hc]
          exact congrArg (mapValue Json.number) hread
  | @negative number _ hsign hnumber =>
      cases hfits with
      | number _ hfinite =>
          have hread : readUnsigned (.strict limit) number.negative (text ++ rest) =
              .ok (number, rest) := readUnsigned_append hnumber hfinite hrest
          rw [hsign] at hread
          exact congrArg (mapValue Json.number) hread
  | string hstring =>
      rw [readScalar, if_pos rfl, readString_append hstring, mapValue, String.ofList_toList]

end Scalars

namespace Reader

variable {α σ : Type} {text rest : List Char}

/-- A loop goes on from a state, or ends with a result. -/
def proceed (step : σ → Reader (σ ⊕ α)) : σ ⊕ α → List Char → Result α
  | .inl state, text => iterate step state text
  | .inr value, text => .ok (value, text)

theorem iterate_eq_proceed {step : σ → Reader (σ ⊕ α)} {state : σ} {next : σ ⊕ α}
    (hread : (step state).read text = .ok (next, rest)) :
    iterate step state text = proceed step next rest := by
  rw [iterate]
  split <;> rename_i hother <;> rw [hread] at hother <;> cases hother <;> rfl

section Marks

variable {gap : List Char} {closing wanted : Char} (hgap : Gap gap)

include hgap

theorem read_mark (hwanted : ¬ IsSpace wanted) :
    (mark wanted).read (gap ++ wanted :: rest) = .ok ((), rest) := by
  simp only [mark, byLead, lead_gap_cons hgap hwanted, if_pos]

theorem read_separator_comma :
    (separator closing).read (gap ++ ',' :: rest) = .ok (true, rest) := by
  have hcomma : ¬ IsSpace ',' := by decide
  simp only [separator, byLead, lead_gap_cons hgap hcomma, if_pos]

theorem read_separator_closing (hclosing : ¬ IsSpace closing) (hcomma : closing ≠ ',') :
    (separator closing).read (gap ++ closing :: rest) = .ok (false, rest) := by
  simp only [separator, byLead, lead_gap_cons hgap hclosing, if_neg hcomma, if_pos]

end Marks

theorem read_key_quote {care : Care} {gap : List Char} (hgap : Gap gap) :
    (key care).read (gap ++ '"' :: text) = readString care text := by
  have hquote : ¬ IsSpace '"' := by decide
  simp only [key, byLead, lead_gap_cons hgap hquote, if_pos]

/-- After a key its colon comes next. -/
theorem read_key {name : String} (hkey : SpellsKey name text) :
    ∃ gap, Gap gap ∧ ∀ limit rest,
      (key (.strict limit)).read (text ++ rest) = .ok (name.toList, gap ++ ':' :: rest) := by
  obtain ⟨hbefore, htext, hafter⟩ := hkey
  refine ⟨_, hafter, fun limit rest => ?_⟩
  rw [List.append_assoc, List.cons_append, List.cons_append, List.append_assoc,
    List.append_assoc, List.singleton_append, read_key_quote hbefore, readString_append htext]

end Reader

namespace Assembly

open Reader (iterate proceed)

variable {care : Care} {limit room : Nat} {frames outer : List Frame} {value : Json} {c : Char}
  {gap text rest : List Char}

section Opening

variable {empty : Json} {closing : Char} {first : Assembly}
  (hallows : care.allows (frames.length + 1) = true)

include hallows

theorem openContainer_closing (hlead : lead text = some (closing, rest)) :
    openContainer care frames empty closing first text =
      .ok (complete empty frames, rest) := by
  rw [openContainer, if_pos hallows, hlead]
  exact if_pos rfl

theorem openContainer_part (hlead : lead text = some (c, rest)) (hc : c ≠ closing) :
    openContainer care frames empty closing first text = .ok (.inl first, text) := by
  rw [openContainer, if_pos hallows, hlead]
  exact if_neg hc

end Opening

theorem read_step_readScalar (hgap : Gap gap) (hc : Starts c)
    (hread : readScalar care c text = .ok (value, rest)) :
    (step care (.awaiting frames)).read (gap ++ c :: text) = .ok (complete value frames, rest) := by
  obtain ⟨hspace, hbracket⟩ := hc
  have harray : c ≠ '[' := by
    rintro rfl
    exact hbracket (by decide)
  have hobject : c ≠ '\x7b' := by
    rintro rfl
    exact hbracket (by decide)
  simp only [step, readValue, Reader.byLead, lead_gap_cons hgap hspace, if_neg harray,
    if_neg hobject, hread, mapValue]

theorem read_step_scalar (hgap : Gap gap) (htext : SpellsScalar value text)
    (hfits : Fits room value) (hrest : Avoids numberMarks rest) :
    (step (.strict limit) (.awaiting frames)).read (gap ++ (text ++ rest)) =
      .ok (complete value frames, rest) := by
  obtain ⟨c, later, rfl, hc⟩ := htext.starts
  exact read_step_readScalar hgap hc (readScalar_append htext hfits hrest)

theorem read_step_array (hgap : Gap gap) :
    (step care (.awaiting frames)).read (gap ++ '[' :: text) =
      openContainer care frames (.array []) ']' (.awaiting (.array [] :: frames))
        text := by
  have hbracket : ¬ IsSpace '[' := by decide
  simp only [step, readValue, Reader.byLead, lead_gap_cons hgap hbracket, if_pos]

theorem read_step_object (hgap : Gap gap) :
    (step care (.awaiting frames)).read (gap ++ '\x7b' :: text) =
      openContainer care frames (.object []) '\x7d' (.member [] frames) text := by
  have hbrace : ¬ IsSpace '\x7b' := by decide
  have hother : ¬ '\x7b' = '[' := by decide
  simp only [step, readValue, Reader.byLead, lead_gap_cons hgap hbrace, if_neg hother, if_pos]

theorem read_step_key {members : List (String × Json)} {key : List Char} (hgap : Gap gap)
    (hread : (Reader.key care).read text = .ok (key, gap ++ ':' :: rest)) :
    (step care (.member members outer)).read text =
      .ok (.inl (.awaiting (.object members (String.ofList key) :: outer)), rest) := by
  have hcolon : ¬ IsSpace ':' := by decide
  simp only [step, Reader.bind, Reader.map, hread, Reader.read_mark hgap hcolon, mapValue]

theorem read_step_member {members : List (String × Json)} {key : String}
    (hkey : SpellsKey key text) :
    (step (.strict limit) (.member members outer)).read (text ++ rest) =
      .ok (.inl (.awaiting (.object members key :: outer)), rest) := by
  obtain ⟨gap, hgap, hread⟩ := Reader.read_key hkey
  rw [read_step_key hgap (hread limit rest), String.ofList_toList]

section Separators

variable (hgap : Gap gap)

include hgap

theorem read_step_item_comma {items : List Json} :
    (step care (.separator value (.array items) outer)).read (gap ++ ',' :: rest) =
      .ok (.inl (.awaiting (.array (value :: items) :: outer)), rest) := by
  simp only [step, Reader.map, Reader.read_separator_comma hgap, mapValue, if_pos]

theorem read_step_item_closing {items : List Json} :
    (step care (.separator value (.array items) outer)).read (gap ++ ']' :: rest) =
      .ok (complete (.array (value :: items).reverse) outer, rest) := by
  have hread : (Reader.separator ']').read (gap ++ ']' :: rest) = .ok (false, rest) :=
    Reader.read_separator_closing hgap (by decide) (by decide)
  simp [step, Reader.map, hread, mapValue]

theorem read_step_value_comma {members : List (String × Json)} {key : String} :
    (step care (.separator value (.object members key) outer)).read
        (gap ++ ',' :: rest) =
      .ok (.inl (.member ((key, value) :: members) outer), rest) := by
  simp only [step, Reader.map, Reader.read_separator_comma hgap, mapValue, if_pos]

theorem read_step_value_closing {members : List (String × Json)} {key : String} :
    (step care (.separator value (.object members key) outer)).read
        (gap ++ '\x7d' :: rest) =
      .ok (complete (.object ((key, value) :: members).reverse) outer, rest) := by
  have hread : (Reader.separator '\x7d').read (gap ++ '\x7d' :: rest) = .ok (false, rest) :=
    Reader.read_separator_closing hgap (by decide) (by decide)
  simp [step, Reader.map, hread, mapValue]

end Separators

end Assembly

theorem Spells.starts {value : Json} {text : List Char} (htext : Spells value text) :
    ∃ c later, text = c :: later ∧ ¬ IsSpace c ∧ c ≠ ']' := by
  cases htext with
  | scalar hscalar =>
      obtain ⟨c, later, rfl, hspace, hbracket⟩ := hscalar.starts
      refine ⟨c, later, rfl, hspace, ?_⟩
      rintro rfl
      exact hbracket (by decide)
  | emptyArray | array | emptyObject | object => exact ⟨_, _, rfl, by decide, by decide⟩

theorem SpellsItems.exists_lead {items : List Json} {text : List Char}
    (htext : SpellsItems items text) (rest : List Char) :
    ∃ c later, lead (text ++ rest) = some (c, later) ∧ c ≠ ']' := by
  cases htext with
  | last hbefore hitem | more hbefore hitem =>
      obtain ⟨c, later, rfl, hspace, hbracket⟩ := hitem.starts
      rw [List.append_assoc, List.append_assoc]
      exact ⟨c, _, lead_gap_cons hbefore hspace, hbracket⟩

theorem SpellsMembers.exists_lead {members : List (String × Json)} {text : List Char}
    (htext : SpellsMembers members text) (rest : List Char) :
    ∃ c later, lead (text ++ rest) = some (c, later) ∧ c ≠ '\x7d' := by
  cases htext with
  | last hkey | more hkey =>
      obtain ⟨hbefore, -, -⟩ := hkey
      rw [List.append_assoc, List.append_assoc]
      exact ⟨'"', _, lead_gap_cons hbefore (by decide), by decide⟩

/-- White space does not belong to a number. -/
theorem avoids_gap_append {gap rest : List Char} (hgap : Gap gap)
    (hrest : Avoids numberMarks rest) : Avoids numberMarks (gap ++ rest) := by
  cases gap with
  | nil => exact hrest
  | cons space later =>
      rcases hgap space List.mem_cons_self with rfl | rfl | rfl | rfl <;>
        exact avoids_cons (by decide) (by decide) _

/-- Nor does what follows a part of a container. -/
theorem avoids_gap_cons {gap : List Char} {c : Char} (hgap : Gap gap)
    (hc : c ∈ [',', ']', '\x7d']) (rest : List Char) : Avoids numberMarks (gap ++ c :: rest) := by
  refine avoids_gap_append hgap ?_
  simp only [List.mem_cons, List.not_mem_nil, or_false] at hc
  rcases hc with rfl | rfl | rfl <;> exact avoids_cons (by decide) (by decide) _

section Runs

open Assembly
open Reader (proceed iterate iterate_eq_proceed)

variable {limit : Nat}

/-- There is room for one more container if there is room for all that is in it. -/
theorem allows_strict {depth room : Nat} (hroom : depth + (room + 1) ≤ limit) :
    (Care.strict limit).allows (depth + 1) = true :=
  decide_eq_true (by omega)

mutual

/-- Where a value comes next, a text that spells one completes it. -/
theorem Spells.iterate_eq {value : Json} {text : List Char} (htext : Spells value text)
    (frames : List Frame) {room : Nat} {before rest : List Char} (hbefore : Gap before)
    (hfits : Fits room value) (hroom : frames.length + room ≤ limit)
    (hrest : Avoids numberMarks rest) :
    iterate (step (.strict limit)) (.awaiting frames) (before ++ (text ++ rest)) =
      proceed (step (.strict limit)) (complete value frames) rest := by
  cases htext with
  | scalar hscalar => exact iterate_eq_proceed (read_step_scalar hbefore hscalar hfits hrest)
  | @emptyArray gap hgap =>
      cases hfits with
      | array =>
          have hlead : lead (gap ++ ']' :: rest) = some (']', rest) :=
            lead_gap_cons hgap (by decide)
          rw [List.cons_append, List.append_assoc, List.singleton_append]
          exact iterate_eq_proceed
            ((read_step_array hbefore).trans (openContainer_closing (allows_strict hroom) hlead))
  | array hitems =>
      cases hfits with
      | array hitemsFit =>
          obtain ⟨c, later, hlead, hc⟩ := hitems.exists_lead rest
          refine (iterate_eq_proceed ((read_step_array hbefore).trans
            (openContainer_part (allows_strict hroom) hlead hc))).trans ?_
          exact hitems.iterate_eq frames [] hitemsFit (by omega)
  | @emptyObject gap hgap =>
      cases hfits with
      | object =>
          have hlead : lead (gap ++ '\x7d' :: rest) = some ('\x7d', rest) :=
            lead_gap_cons hgap (by decide)
          rw [List.cons_append, List.append_assoc, List.singleton_append]
          exact iterate_eq_proceed
            ((read_step_object hbefore).trans (openContainer_closing (allows_strict hroom) hlead))
  | object hmembers =>
      cases hfits with
      | object hmembersFit =>
          obtain ⟨c, later, hlead, hc⟩ := hmembers.exists_lead rest
          refine (iterate_eq_proceed ((read_step_object hbefore).trans
            (openContainer_part (allows_strict hroom) hlead hc))).trans ?_
          exact hmembers.iterate_eq frames [] hmembersFit (by omega)

/-- The items that come next are added to those that have been read. -/
theorem SpellsItems.iterate_eq {items : List Json} {text : List Char}
    (htext : SpellsItems items text) (outer : List Frame) (done : List Json) {room : Nat}
    {rest : List Char} (hfits : ∀ item ∈ items, Fits room item)
    (hroom : outer.length + 1 + room ≤ limit) :
    iterate (step (.strict limit)) (.awaiting (.array done :: outer)) (text ++ rest) =
      proceed (step (.strict limit)) (complete (.array (done.reverse ++ items)) outer) rest := by
  cases htext with
  | @last item before text after hbefore hitem hafter =>
      have hend : Avoids numberMarks (after ++ ']' :: rest) :=
        avoids_gap_cons hafter (by decide) rest
      have hread := hitem.iterate_eq (.array done :: outer) hbefore
        (hfits item List.mem_cons_self) hroom hend
      rw [List.append_assoc, List.append_assoc, List.append_assoc, List.singleton_append, hread]
      refine (iterate_eq_proceed (read_step_item_closing hafter)).trans ?_
      rw [List.reverse_cons]
  | @more item items before text after later hbefore hitem hafter hlater =>
      rw [List.forall_mem_cons] at hfits
      have hend : Avoids numberMarks (after ++ ',' :: (later ++ rest)) :=
        avoids_gap_cons hafter (by decide) _
      have hread := hitem.iterate_eq (.array done :: outer) hbefore hfits.1 hroom hend
      rw [List.append_assoc, List.append_assoc, List.append_assoc, List.cons_append, hread]
      refine (iterate_eq_proceed (read_step_item_comma hafter)).trans ?_
      refine (hlater.iterate_eq outer (item :: done) hfits.2 hroom).trans ?_
      rw [List.reverse_cons, List.append_assoc, List.singleton_append]

/-- The members that come next are added to those that have been read. -/
theorem SpellsMembers.iterate_eq {members : List (String × Json)} {text : List Char}
    (htext : SpellsMembers members text) (outer : List Frame) (done : List (String × Json))
    {room : Nat} {rest : List Char} (hfits : ∀ member ∈ members, Fits room member.2)
    (hroom : outer.length + 1 + room ≤ limit) :
    iterate (step (.strict limit)) (.member done outer) (text ++ rest) =
      proceed (step (.strict limit)) (complete (.object (done.reverse ++ members)) outer)
        rest := by
  cases htext with
  | @last key value front before text after hkey hbefore hvalue hafter =>
      have hend : Avoids numberMarks (after ++ '\x7d' :: rest) :=
        avoids_gap_cons hafter (by decide) rest
      have hread := hvalue.iterate_eq (.object done key :: outer) hbefore
        (hfits (key, value) List.mem_cons_self) hroom hend
      rw [List.append_assoc, iterate_eq_proceed (read_step_member hkey), proceed,
        List.append_assoc, List.append_assoc, List.append_assoc, List.singleton_append, hread]
      refine (iterate_eq_proceed (read_step_value_closing hafter)).trans ?_
      rw [List.reverse_cons]
  | @more key value members front before text after later hkey hbefore hvalue hafter hlater =>
      rw [List.forall_mem_cons] at hfits
      have hend : Avoids numberMarks (after ++ ',' :: (later ++ rest)) :=
        avoids_gap_cons hafter (by decide) _
      have hread := hvalue.iterate_eq (.object done key :: outer) hbefore hfits.1 hroom hend
      rw [List.append_assoc, iterate_eq_proceed (read_step_member hkey), proceed,
        List.append_assoc, List.append_assoc, List.append_assoc, List.cons_append, hread]
      refine (iterate_eq_proceed (read_step_value_comma hafter)).trans ?_
      refine (hlater.iterate_eq outer ((key, value) :: done) hfits.2 hroom).trans ?_
      rw [List.reverse_cons, List.append_assoc, List.singleton_append]

end

/-- A text that spells a value is read as that value, whichever of the ways to write it was
chosen. -/
theorem parse_of_spellsText {value : Json} {text : String} (htext : SpellsText value text.toList)
    (hfits : Fits 127 value) : parse text = .ok value := by
  generalize hchars : text.toList = chars at htext
  cases htext with
  | @padded before body after hbefore hvalue hafter =>
      have hend : Avoids numberMarks after := by
        have happend := avoids_gap_append hafter (avoids_nil numberMarks)
        rwa [List.append_nil] at happend
      have hread : (Reader.value (.strict 127)).read text.toList = .ok (value, after) := by
        rw [hchars]
        exact hvalue.iterate_eq [] hbefore hfits (Nat.le_refl 127) hend
      simp [parse, Reader.parse, hread, lead_gap hafter]

end Runs

end LineLexer.Json
