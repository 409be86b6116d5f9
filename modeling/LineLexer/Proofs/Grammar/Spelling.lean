import LineLexer.Proofs.Grammar.Recognition
/-!
What has been read when the table is in a state of code.

Every state has a language, the texts that lead to it: words, numbers and their unfinished
forms, open literals, and one text for each of the states inside operators.  A text that leads
to a state in which a token may end, and a text that completes a token, are in the grammar.
-/

open scoped Computability

namespace LineLexer

/-- The text of a state inside operators, and of the start state. -/
def State.marks? : State → Option (List Char)
  | .start => some []
  | .dot => some ['.']
  | .dotDot => some ['.', '.']
  | .hash => some ['#']
  | .slash => some ['/']
  | .star => some ['*']
  | .plus => some ['+']
  | .minus => some ['-']
  | .arrow => some ['-', '>']
  | .equals => some ['=']
  | .bang => some ['!']
  | .percent => some ['%']
  | .caret => some ['^']
  | .ampersand => some ['&']
  | .pipe => some ['|']
  | .colon => some [':']
  | .less => some ['<']
  | .shiftLeft => some ['<', '<']
  | .lessEq => some ['<', '=']
  | .greater => some ['>']
  | .shiftRight => some ['>', '>']
  | _ => none

namespace Grammar

/-- A number with an exponent letter that may get a sign. -/
def exponentNumber : Language Char :=
  number * (1 + mark '\'') * exponentLetter

/-- The texts that lead to a state of code. -/
def spelling : State → Language Char
  | .ident => identifier
  | .directive => directive
  | .number => number
  | .numberExp => exponentNumber
  | .numberSign => exponentNumber * sign
  | .numberQuote => number * mark '\''
  | .string => openLiteral .double
  | .stringEscape => openLiteral .double * mark '\\'
  | .char => openLiteral .single
  | .charEscape => openLiteral .single * mark '\\'
  | state => {text | state.marks? = some text}

section Sources

/-! Where the table stores a character into a state. -/

theorem transition_store_ident : ∀ state kind, transition state kind = .store .ident →
    (kind = .letter ∨ kind = .exponentLetter) ∧ (state = .start ∨ state = .ident) ∨
      kind = .digit ∧ state = .ident := by
  decide

theorem transition_store_directive : ∀ state kind, transition state kind = .store .directive →
    (kind = .letter ∨ kind = .exponentLetter) ∧ (state = .hash ∨ state = .directive) ∨
      kind = .digit ∧ state = .directive := by
  decide

theorem transition_store_number : ∀ state kind, transition state kind = .store .number →
    kind = .digit ∧ (state = .start ∨ state = .dot ∨ state = .numberSign) ∨
      kind = .dot ∧ EndsNumber state ∨
      (kind = .digit ∨ kind = .letter) ∧ (EndsNumber state ∨ state = .numberQuote) := by
  unfold EndsNumber
  decide

theorem transition_store_numberExp : ∀ state kind, transition state kind = .store .numberExp →
    kind = .exponentLetter ∧ (EndsNumber state ∨ state = .numberQuote) := by
  unfold EndsNumber
  decide

theorem transition_store_numberSign : ∀ state kind,
    transition state kind = .store .numberSign →
      (kind = .plus ∨ kind = .minus) ∧ state = .numberExp := by
  decide

theorem transition_store_numberQuote : ∀ state kind,
    transition state kind = .store .numberQuote → kind = .singleQuote ∧ EndsNumber state := by
  unfold EndsNumber
  decide

theorem transition_store_inside (delimiter : Delimiter) : ∀ state kind,
    transition state kind = .store delimiter.inside →
      state = .start ∧ kind = delimiter.kind ∨
        state = delimiter.inside ∧ kind ≠ delimiter.kind ∧ kind ≠ .backslash ∨
        state = delimiter.escaped := by
  cases delimiter <;> decide

theorem transition_store_escaped (delimiter : Delimiter) : ∀ state kind,
    transition state kind = .store delimiter.escaped →
      state = delimiter.inside ∧ kind = .backslash := by
  cases delimiter <;> decide

/-- The states inside operators follow one another, and a single mark leads from one to the
next. -/
theorem transition_store_marks : ∀ state kind, (transition state kind).action = .store →
    (transition state kind).next.marks? =
      state.marks?.bind (fun marks => kind.char?.map fun c => marks ++ [c]) ∨
      (transition state kind).next.marks? = none := by
  decide

end Sources

section Step

variable {state : State} {c : Char} {text marks : List Char}

theorem eq_of_mem_spelling (hmarks : state.marks? = some marks)
    (htext : text ∈ spelling state) : text = marks := by
  have hsome : state.marks? = some text := by
    cases state <;> first | exact htext | cases hmarks
  exact Option.some.inj (hsome.symm.trans hmarks)

theorem singleton_mem_digit (hkind : CharClass.classify .normal c = .digit) : [c] ∈ digit :=
  singleton_mem_single.mpr (CharClass.classify_eq_digit_iff.mp hkind)

theorem singleton_mem_plainLetter (hkind : CharClass.classify .normal c = .letter) :
    [c] ∈ plainLetter := by
  obtain ⟨hletter, hexponent⟩ := CharClass.classify_eq_letter_iff.mp hkind
  exact singleton_mem_single.mpr (by simp [hletter, hexponent])

theorem singleton_mem_exponentLetter (hkind : CharClass.classify .normal c = .exponentLetter) :
    [c] ∈ exponentLetter :=
  singleton_mem_single.mpr (CharClass.classify_eq_exponentLetter_iff.mp hkind)

theorem singleton_mem_letter (hkind : CharClass.classify .normal c = .letter ∨
    CharClass.classify .normal c = .exponentLetter) : [c] ∈ letter := by
  rw [letter_eq, Language.mem_add]
  rcases hkind with hkind | hkind
  · exact Or.inl (singleton_mem_plainLetter hkind)
  · exact Or.inr (singleton_mem_exponentLetter hkind)

theorem singleton_mem_mark {d : Char} (hkind : (CharClass.classify .normal c).char? = some d) :
    [c] ∈ mark d := by
  rw [CharClass.eq_of_char?_classify hkind]
  exact mem_mark.mpr rfl

/-- A number, with the quote after it or without, goes on with a unit. -/
theorem append_unit_mem_number {front unit : List Char}
    (hfront : front ∈ number * (1 + mark '\'')) (hunit : unit ∈ numberUnit) :
    front ++ unit ∈ number := by
  obtain ⟨digits, hdigits, quote, hquote, rfl⟩ := Language.mem_mul.mp hfront
  rw [List.append_assoc]
  exact append_mem_mul_kstar hdigits (Or.inr (Language.append_mem_mul hquote hunit))

/-- An exponent letter is a unit also without a sign. -/
theorem mem_number_of_exponentNumber (htext : text ∈ exponentNumber) : text ∈ number := by
  obtain ⟨front, hfront, exponent, hexponent, rfl⟩ := Language.mem_mul.mp htext
  exact append_unit_mem_number hfront (Or.inr (mem_mul_optional_of_mem hexponent))

theorem append_digit_mem_number {signed last : List Char} (hsigned : signed ∈ exponentNumber * sign)
    (hlast : last ∈ digit) : signed ++ last ∈ number := by
  obtain ⟨exponent, hexponent, signText, hsign, rfl⟩ := Language.mem_mul.mp hsigned
  obtain ⟨front, hfront, letterText, hletter, rfl⟩ := Language.mem_mul.mp hexponent
  have hunit := append_mem_mul_optional hletter (Language.append_mem_mul hsign hlast)
  have hnumber := append_unit_mem_number hfront (Or.inr hunit)
  simpa only [List.append_assoc] using hnumber

theorem mem_number_of_spelling (hstate : EndsNumber state) (htext : text ∈ spelling state) :
    text ∈ number := by
  rcases hstate with rfl | rfl
  · exact htext
  · exact mem_number_of_exponentNumber htext

theorem mem_quotable_of_spelling (hstate : EndsNumber state ∨ state = .numberQuote)
    (htext : text ∈ spelling state) : text ∈ number * (1 + mark '\'') := by
  rcases hstate with hstate | rfl
  · exact mem_mul_optional_of_mem (mem_number_of_spelling hstate htext)
  · obtain ⟨front, hfront, quote, hquote, rfl⟩ := Language.mem_mul.mp htext
    exact append_mem_mul_optional hfront hquote

theorem append_mem_openLiteral {delimiter : Delimiter} {item : List Char}
    (htext : text ∈ openLiteral delimiter) (hitem : item ∈ literalItem delimiter) :
    text ++ item ∈ openLiteral delimiter :=
  append_mem_mul_kstar htext hitem

theorem spelling_inside (delimiter : Delimiter) :
    spelling delimiter.inside = openLiteral delimiter := by
  cases delimiter <;> rfl

theorem spelling_escaped (delimiter : Delimiter) :
    spelling delimiter.escaped = openLiteral delimiter * mark '\\' := by
  cases delimiter <;> rfl

/-- A character stored into an open literal extends it. -/
theorem append_mem_spelling_inside {delimiter : Delimiter} (htext : text ∈ spelling state)
    (hmove : transition state (.classify .normal c) = .store delimiter.inside) :
    text ++ [c] ∈ openLiteral delimiter := by
  rcases transition_store_inside delimiter _ _ hmove with ⟨rfl, hkind⟩ | ⟨rfl, hmark, hslash⟩ |
    rfl
  · rw [eq_of_mem_spelling rfl htext, Delimiter.mark_of_classify hkind]
    exact mem_mul_kstar_of_mem (mem_mark.mpr rfl)
  · rw [spelling_inside] at htext
    apply append_mem_openLiteral htext
    refine Or.inl (singleton_mem_single.mpr ?_)
    rw [Bool.and_eq_true, bne_iff_ne, bne_iff_ne]
    constructor
    · rintro rfl
      exact hmark delimiter.classify_mark
    · rintro rfl
      exact hslash rfl
  · rw [spelling_escaped] at htext
    obtain ⟨front, hfront, backslash, hbackslash, rfl⟩ := Language.mem_mul.mp htext
    rw [List.append_assoc]
    apply append_mem_openLiteral hfront
    exact Or.inr (Language.append_mem_mul hbackslash (singleton_mem_single.mpr rfl))

theorem append_mem_spelling_escaped {delimiter : Delimiter} (htext : text ∈ spelling state)
    (hmove : transition state (.classify .normal c) = .store delimiter.escaped) :
    text ++ [c] ∈ openLiteral delimiter * mark '\\' := by
  obtain ⟨rfl, hkind⟩ := transition_store_escaped delimiter _ _ hmove
  rw [spelling_inside] at htext
  exact Language.append_mem_mul htext (singleton_mem_mark (by rw [hkind]; rfl))

theorem append_mem_number (htext : text ∈ spelling state)
    (hmove : transition state (.classify .normal c) = .store .number) : text ++ [c] ∈ number := by
  rcases transition_store_number _ _ hmove with ⟨hkind, hstate⟩ | ⟨hkind, hstate⟩ |
    ⟨hkind, hstate⟩
  · have hdigit := singleton_mem_digit hkind
    rcases hstate with rfl | rfl | rfl
    · rw [eq_of_mem_spelling rfl htext]
      exact mem_mul_kstar_of_mem (Or.inl hdigit)
    · rw [eq_of_mem_spelling rfl htext]
      exact mem_mul_kstar_of_mem
        (Or.inr (Language.append_mem_mul (mem_mark.mpr rfl) hdigit))
    · exact append_digit_mem_number htext hdigit
  · apply append_mem_mul_kstar (mem_number_of_spelling hstate htext)
    exact Or.inl (singleton_mem_mark (by rw [hkind]; rfl))
  · apply append_unit_mem_number (mem_quotable_of_spelling hstate htext)
    rcases hkind with hkind | hkind
    · exact Or.inl (Or.inl (singleton_mem_digit hkind))
    · exact Or.inl (Or.inr (singleton_mem_plainLetter hkind))

/-- A word goes on with letters and digits. -/
theorem append_mem_word {front : Language Char} (htext : text ∈ front * (letter + digit)∗)
    (hkind : (CharClass.classify .normal c = .letter ∨
      CharClass.classify .normal c = .exponentLetter) ∨
      CharClass.classify .normal c = .digit) : text ++ [c] ∈ front * (letter + digit)∗ := by
  apply append_mem_mul_kstar htext
  rcases hkind with hkind | hkind
  · exact Or.inl (singleton_mem_letter hkind)
  · exact Or.inr (singleton_mem_digit hkind)

/-- Inside an operator a stored mark is added to its text. -/
theorem marks?_of_store {next : State} (htext : text ∈ spelling state)
    (hmove : transition state (.classify .normal c) = .store next)
    (hmarks : next.marks?.isSome = true) : next.marks? = some (text ++ [c]) := by
  have htable := transition_store_marks state (.classify .normal c) (by rw [hmove]; rfl)
  have hnext : (transition state (.classify .normal c)).next = next := by rw [hmove]; rfl
  rw [hnext] at htable
  rcases htable with hlonger | hnone
  · rw [hlonger] at hmarks ⊢
    obtain ⟨longer, hlonger⟩ := Option.isSome_iff_exists.mp hmarks
    obtain ⟨front, hfront, hlast⟩ := Option.bind_eq_some_iff.mp hlonger
    obtain ⟨mark, hmark, rfl⟩ := Option.map_eq_some_iff.mp hlast
    rw [hlonger, eq_of_mem_spelling hfront htext, CharClass.eq_of_char?_classify hmark]
  · rw [hnone] at hmarks
    cases hmarks

/-- A stored character leads from the language of one state to the language of the next. -/
theorem append_mem_spelling {next : State} (howns : Mode.normal.owns next = true)
    (htext : text ∈ spelling state)
    (hmove : transition state (.classify .normal c) = .store next) :
    text ++ [c] ∈ spelling next := by
  cases next with
  | ident =>
      rcases transition_store_ident _ _ hmove with ⟨hkind, rfl | rfl⟩ | ⟨hkind, rfl⟩
      · rw [eq_of_mem_spelling rfl htext]
        exact mem_mul_kstar_of_mem (singleton_mem_letter hkind)
      · exact append_mem_word htext (Or.inl hkind)
      · exact append_mem_word htext (Or.inr hkind)
  | directive =>
      rcases transition_store_directive _ _ hmove with ⟨hkind, rfl | rfl⟩ | ⟨hkind, rfl⟩
      · rw [eq_of_mem_spelling rfl htext]
        exact mem_mul_kstar_of_mem
          (Language.append_mem_mul (mem_mark.mpr rfl) (singleton_mem_letter hkind))
      · exact append_mem_word htext (Or.inl hkind)
      · exact append_mem_word htext (Or.inr hkind)
  | number => exact append_mem_number htext hmove
  | numberExp =>
      obtain ⟨hkind, hstate⟩ := transition_store_numberExp _ _ hmove
      exact Language.append_mem_mul (mem_quotable_of_spelling hstate htext)
        (singleton_mem_exponentLetter hkind)
  | numberSign =>
      obtain ⟨hkind, rfl⟩ := transition_store_numberSign _ _ hmove
      refine Language.append_mem_mul htext (singleton_mem_single.mpr ?_)
      rw [Bool.or_eq_true, beq_iff_eq, beq_iff_eq]
      rcases hkind with hkind | hkind
      · exact Or.inl (CharClass.eq_of_char?_classify (by rw [hkind]; rfl))
      · exact Or.inr (CharClass.eq_of_char?_classify (by rw [hkind]; rfl))
  | numberQuote =>
      obtain ⟨hkind, hstate⟩ := transition_store_numberQuote _ _ hmove
      exact Language.append_mem_mul (mem_number_of_spelling hstate htext)
        (singleton_mem_mark (by rw [hkind]; rfl))
  | string =>
      have hinside : transition state _ = .store Delimiter.double.inside := hmove
      exact append_mem_spelling_inside htext hinside
  | char =>
      have hinside : transition state _ = .store Delimiter.single.inside := hmove
      exact append_mem_spelling_inside htext hinside
  | stringEscape =>
      have hescaped : transition state _ = .store Delimiter.double.escaped := hmove
      exact append_mem_spelling_escaped htext hescaped
  | charEscape =>
      have hescaped : transition state _ = .store Delimiter.single.escaped := hmove
      exact append_mem_spelling_escaped htext hescaped
  | angleLiteral | commentStart | commentWord | commentStar | commentString
  | commentStringEscape | inlineStart | inlineBody => cases howns
  | _ => exact marks?_of_store htext hmove rfl

/-- A text that leads to a state is in the language of the state. -/
theorem mem_spelling_of_readCode (hread : State.start.readCode text = some state) :
    text ∈ spelling state := by
  induction text using List.reverseRecOn generalizing state with
  | nil =>
      obtain rfl := Option.some.inj hread
      rfl
  | append_singleton front c ih =>
      have howns : Mode.normal.owns state = true :=
        Mode.owns_of_reading (CharClass.presents_of_mem_map _ (front ++ [c])) hread
      obtain ⟨middle, hmiddle, hstore, rfl⟩ := State.readCode_concat.mp hread
      exact append_mem_spelling howns (ih hmiddle) (by rw [Move.store, ← hstore])

end Step

end Grammar

end LineLexer
