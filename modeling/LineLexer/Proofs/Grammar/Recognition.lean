import LineLexer.Proofs.Grammar.Basic
/-!
The transition table recognizes every token of the grammar.

A text is recognized if the table stores its characters one after the other from the start
state on, and the last one either completes a token or is not read on trust.  Each part of the
grammar leads the table along its own states.
-/

open scoped Computability

namespace LineLexer

/-- The state after characters of code have been added to a token. -/
def State.readCode (state : State) (text : List Char) : Option State :=
  state.reading (text.map (CharClass.classify .normal))

/-- The last character of a text completes the token that the others have led to. -/
def Completed (text : List Char) : Prop :=
  ∃ front c state, text = front ++ [c] ∧ State.start.readCode front = some state ∧
    (transition state (CharClass.classify .normal c)).action.consumes = true ∧
    (transition state (CharClass.classify .normal c)).action ≠ .store

/-- The table may end a token with the last character of the text. -/
def Recognized (text : List Char) : Prop :=
  (∃ state, State.start.readCode text = some state ∧ state.onTrust = false) ∨ Completed text

theorem State.readCode_append {state middle last : State} {first second : List Char}
    (hfirst : state.readCode first = some middle) (hsecond : middle.readCode second = some last) :
    state.readCode (first ++ second) = some last := by
  rw [State.readCode, List.map_append, State.reading_append]
  rw [State.readCode] at hfirst hsecond
  rw [hfirst]
  exact hsecond

theorem State.readCode_concat {state last : State} {front : List Char} {c : Char} :
    state.readCode (front ++ [c]) = some last ↔
      ∃ middle, state.readCode front = some middle ∧
        (transition middle (CharClass.classify .normal c)).action = .store ∧
        (transition middle (CharClass.classify .normal c)).next = last := by
  rw [State.readCode, List.map_append, List.map_singleton, State.reading_concat]
  rfl

/-- What follows the front of a text that is read as a whole is stored. -/
theorem State.store_of_readCode {state middle last : State} {front more : List Char} {c : Char}
    (hread : state.readCode (front ++ c :: more) = some last)
    (hfront : state.readCode front = some middle) :
    (transition middle (CharClass.classify .normal c)).action = .store := by
  rw [State.readCode, List.append_cons, List.map_append, State.reading_append] at hread
  obtain ⟨found, hfound, _⟩ := Option.bind_eq_some_iff.mp hread
  obtain ⟨stored, hstored, hstore, _⟩ := State.readCode_concat.mp hfound
  rw [hfront, Option.some.injEq] at hstored
  rw [hstored]
  exact hstore

theorem State.readCode_nil (state : State) : state.readCode [] = some state := by
  rfl

/-- What every item of a language keeps is kept by any number of items. -/
theorem State.readCode_kstar {P : State → Prop} {items : Language Char}
    (hitem : ∀ state text, P state → text ∈ items →
      ∃ last, state.readCode text = some last ∧ P last)
    {state : State} {text : List Char} (hstate : P state) (htext : text ∈ items∗) :
    ∃ last, state.readCode text = some last ∧ P last := by
  obtain ⟨parts, rfl, hparts⟩ := Language.mem_kstar.mp htext
  clear htext
  induction parts generalizing state with
  | nil => exact ⟨state, state.readCode_nil, hstate⟩
  | cons part others ih =>
      obtain ⟨middle, hfirst, hmiddle⟩ := hitem state part hstate (hparts part List.mem_cons_self)
      have hrest := fun other hother => hparts other (List.mem_cons_of_mem part hother)
      obtain ⟨last, hsecond, hlast⟩ := ih hmiddle hrest
      exact ⟨last, State.readCode_append hfirst hsecond, hlast⟩

namespace Grammar

section Recognition

variable {state last : State} {p : Char → Bool} {kind : CharClass} {text : List Char}

/-- One character of a class is read as the table says. -/
theorem readCode_single (hclass : ∀ c, p c = true → CharClass.classify .normal c = kind)
    (hmove : transition state kind = .store last) (htext : text ∈ single p) :
    state.readCode text = some last := by
  obtain ⟨c, hc, rfl⟩ := mem_single.mp htext
  simp [State.readCode, State.reading, hclass c hc, hmove, Move.store]

theorem readCode_mark {c : Char} (hclass : CharClass.classify .normal c = kind)
    (hmove : transition state kind = .store last) (htext : text ∈ mark c) :
    state.readCode text = some last := by
  rw [mem_mark.mp htext]
  simp [State.readCode, State.reading, hclass, hmove, Move.store]

theorem readCode_digit (hmove : transition state .digit = .store last) (htext : text ∈ digit) :
    state.readCode text = some last :=
  readCode_single (fun _ hc => CharClass.classify_eq_digit_iff.mpr hc) hmove htext

theorem readCode_exponentLetter (hmove : transition state .exponentLetter = .store last)
    (htext : text ∈ exponentLetter) : state.readCode text = some last :=
  readCode_single (fun _ hc => CharClass.classify_eq_exponentLetter_iff.mpr hc) hmove htext

theorem readCode_plainLetter (hmove : transition state .letter = .store last)
    (htext : text ∈ plainLetter) : state.readCode text = some last := by
  apply readCode_single _ hmove htext
  intro c hc
  rw [Bool.and_eq_true, Bool.not_eq_true'] at hc
  exact CharClass.classify_eq_letter_iff.mpr hc

/-- Letters are of two classes, which identifiers do not tell apart. -/
theorem letter_eq : letter = plainLetter + exponentLetter := by
  ext text
  rw [Language.mem_add]
  constructor
  · rintro ⟨c, hc, rfl⟩
    cases hletter : isExponentLetter c with
    | true => exact Or.inr ⟨c, hletter, rfl⟩
    | false => exact Or.inl ⟨c, by simp [hc, hletter], rfl⟩
  · rintro (⟨c, hc, rfl⟩ | ⟨c, hc, rfl⟩)
    · rw [Bool.and_eq_true] at hc
      exact ⟨c, hc.1, rfl⟩
    · refine ⟨c, ?_, rfl⟩
      simp only [isExponentLetter, Bool.or_eq_true, beq_iff_eq] at hc
      rcases hc with ((rfl | rfl) | rfl) | rfl <;> decide

theorem readCode_letter (hplain : transition state .letter = .store last)
    (hexponent : transition state .exponentLetter = .store last) (htext : text ∈ letter) :
    state.readCode text = some last := by
  rw [letter_eq, Language.mem_add] at htext
  rcases htext with htext | htext
  · exact readCode_plainLetter hplain htext
  · exact readCode_exponentLetter hexponent htext

/-- Letters and digits keep the table in a state of words. -/
theorem readCode_letters (hplain : transition state .letter = .store state)
    (hexponent : transition state .exponentLetter = .store state)
    (hdigit : transition state .digit = .store state) (htext : text ∈ (letter + digit)∗) :
    state.readCode text = some state := by
  have hitem : ∀ middle item, middle = state → item ∈ letter + digit →
      ∃ last, middle.readCode item = some last ∧ last = state := by
    rintro _ item rfl hitem
    rcases hitem with hitem | hitem
    · exact ⟨_, readCode_letter hplain hexponent hitem, rfl⟩
    · exact ⟨_, readCode_digit hdigit hitem, rfl⟩
  obtain ⟨_, hread, rfl⟩ := State.readCode_kstar hitem rfl htext
  exact hread

theorem readCode_identifier (htext : text ∈ identifier) :
    State.start.readCode text = some .ident := by
  obtain ⟨first, hfirst, rest, hrest, rfl⟩ := Language.mem_mul.mp htext
  exact State.readCode_append (readCode_letter rfl rfl hfirst) (readCode_letters rfl rfl rfl hrest)

theorem readCode_directive (htext : text ∈ directive) :
    State.start.readCode text = some .directive := by
  obtain ⟨front, hfront, rest, hrest, rfl⟩ := Language.mem_mul.mp htext
  obtain ⟨hash, hhash, first, hfirst, rfl⟩ := Language.mem_mul.mp hfront
  have hmark : State.start.readCode hash = some .hash := readCode_mark rfl rfl hhash
  have hread : State.start.readCode (hash ++ first) = some .directive :=
    State.readCode_append hmark (readCode_letter rfl rfl hfirst)
  exact State.readCode_append hread (readCode_letters rfl rfl rfl hrest)

/-- The two states in which a number may end. -/
def EndsNumber (state : State) : Prop :=
  state = .number ∨ state = .numberExp

/-- A unit leads from any state that goes on with a number to one in which it may end. -/
theorem readCode_numberUnit (hdigit : transition state .digit = .store .number)
    (hplain : transition state .letter = .store .number)
    (hexponent : transition state .exponentLetter = .store .numberExp)
    (htext : text ∈ numberUnit) : ∃ last, state.readCode text = some last ∧ EndsNumber last := by
  rcases htext with (htext | htext) | htext
  · exact ⟨_, readCode_digit hdigit htext, Or.inl rfl⟩
  · exact ⟨_, readCode_plainLetter hplain htext, Or.inl rfl⟩
  · obtain ⟨front, hfront, rest, hrest, rfl⟩ := Language.mem_mul.mp htext
    have hread := readCode_exponentLetter hexponent hfront
    rcases hrest with rfl | hrest
    · rw [List.append_nil]
      exact ⟨_, hread, Or.inr rfl⟩
    · obtain ⟨signText, ⟨c, hc, rfl⟩, last, hlast, rfl⟩ := Language.mem_mul.mp hrest
      have hsign : State.numberExp.readCode [c] = some .numberSign := by
        rw [Bool.or_eq_true, beq_iff_eq, beq_iff_eq] at hc
        rcases hc with rfl | rfl <;> decide
      have hdigits := State.readCode_append hsign (readCode_digit rfl hlast)
      exact ⟨_, State.readCode_append hread hdigits, Or.inl rfl⟩

theorem readCode_numberItem (hstate : EndsNumber state) (htext : text ∈ numberItem) :
    ∃ last, state.readCode text = some last ∧ EndsNumber last := by
  rcases htext with htext | htext
  · refine ⟨.number, ?_, Or.inl rfl⟩
    rcases hstate with rfl | rfl <;> exact readCode_mark rfl rfl htext
  · obtain ⟨front, hfront, unit, hunit, rfl⟩ := Language.mem_mul.mp htext
    rcases hfront with rfl | hfront
    · rcases hstate with rfl | rfl <;> exact readCode_numberUnit rfl rfl rfl hunit
    · have hquote : state.readCode front = some .numberQuote := by
        rcases hstate with rfl | rfl <;> exact readCode_mark rfl rfl hfront
      obtain ⟨last, hread, hlast⟩ : ∃ last, State.numberQuote.readCode unit = some last ∧
          EndsNumber last := readCode_numberUnit rfl rfl rfl hunit
      exact ⟨last, State.readCode_append hquote hread, hlast⟩

theorem readCode_number (htext : text ∈ number) :
    ∃ last, State.start.readCode text = some last ∧ EndsNumber last := by
  obtain ⟨front, hfront, rest, hrest, rfl⟩ := Language.mem_mul.mp htext
  have hnumber : State.start.readCode front = some .number := by
    rcases hfront with hfront | hfront
    · exact readCode_digit rfl hfront
    · obtain ⟨dot, hdot, digits, hdigits, rfl⟩ := Language.mem_mul.mp hfront
      have hmark : State.start.readCode dot = some .dot := readCode_mark rfl rfl hdot
      exact State.readCode_append hmark (readCode_digit rfl hdigits)
  obtain ⟨last, hread, hlast⟩ := State.readCode_kstar
    (fun _ _ hstate hitem => readCode_numberItem hstate hitem) (Or.inl rfl) hrest
  exact ⟨last, State.readCode_append hnumber hread, hlast⟩

end Recognition

end Grammar

namespace Delimiter

def kind : Delimiter → CharClass
  | .double => .doubleQuote
  | .single => .singleQuote

/-- The state inside a literal. -/
def inside : Delimiter → State
  | .double => .string
  | .single => .char

/-- The state after a backslash inside a literal. -/
def escaped : Delimiter → State
  | .double => .stringEscape
  | .single => .charEscape

theorem classify_mark (delimiter : Delimiter) :
    CharClass.classify .normal delimiter.mark = delimiter.kind := by
  cases delimiter <;> rfl

theorem mark_of_classify {delimiter : Delimiter} {c : Char}
    (hclass : CharClass.classify .normal c = delimiter.kind) : c = delimiter.mark := by
  have hmark : (CharClass.classify .normal c).char? = some delimiter.mark := by
    rw [hclass]
    cases delimiter <;> rfl
  exact CharClass.eq_of_char?_classify hmark

/-- Inside a literal every character is stored but its mark and the backslash. -/
theorem transition_inside (delimiter : Delimiter) : ∀ kind, Mode.normal.presents kind = true →
    kind ≠ .endOfLine → kind ≠ delimiter.kind → kind ≠ .backslash →
      transition delimiter.inside kind = .store delimiter.inside := by
  cases delimiter <;> decide

theorem transition_escaped (delimiter : Delimiter) : ∀ kind, Mode.normal.presents kind = true →
    kind ≠ .endOfLine → transition delimiter.escaped kind = .store delimiter.inside := by
  cases delimiter <;> decide

end Delimiter

namespace Grammar

section Literals

variable {delimiter : Delimiter} {text : List Char}

theorem readCode_literalItem (htext : text ∈ literalItem delimiter) :
    delimiter.inside.readCode text = some delimiter.inside := by
  rcases htext with ⟨c, hc, rfl⟩ | htext
  · rw [Bool.and_eq_true, bne_iff_ne, bne_iff_ne] at hc
    have hmove := delimiter.transition_inside _ (CharClass.presents_classify .normal c)
      (CharClass.classify_ne_endOfLine .normal c) (fun h => hc.1 (Delimiter.mark_of_classify h))
      (fun h => hc.2 (CharClass.eq_of_char?_classify (by rw [h]; rfl)))
    simp [State.readCode, State.reading, hmove, Move.store]
  · obtain ⟨backslash, hbackslash, taken, ⟨c, _, rfl⟩, rfl⟩ := Language.mem_mul.mp htext
    have hread : delimiter.inside.readCode backslash = some delimiter.escaped := by
      cases delimiter <;> exact readCode_mark rfl rfl hbackslash
    have hmove := delimiter.transition_escaped _ (CharClass.presents_classify .normal c)
      (CharClass.classify_ne_endOfLine .normal c)
    apply State.readCode_append hread
    simp [State.readCode, State.reading, hmove, Move.store]

theorem readCode_openLiteral (htext : text ∈ openLiteral delimiter) :
    State.start.readCode text = some delimiter.inside := by
  obtain ⟨front, hfront, items, hitems, rfl⟩ := Language.mem_mul.mp htext
  have hread : State.start.readCode front = some delimiter.inside := by
    cases delimiter <;> exact readCode_mark rfl rfl hfront
  have hitem : ∀ state item, state = delimiter.inside → item ∈ literalItem delimiter →
      ∃ last, state.readCode item = some last ∧ last = delimiter.inside := by
    rintro _ item rfl hitem
    exact ⟨_, readCode_literalItem hitem, rfl⟩
  obtain ⟨_, hrest, rfl⟩ := State.readCode_kstar hitem rfl hitems
  exact State.readCode_append hread hrest

theorem completed_of_literal (htext : text ∈ literal delimiter) : Completed text := by
  obtain ⟨front, hfront, last, hlast, rfl⟩ := Language.mem_mul.mp htext
  rw [mem_mark.mp hlast]
  refine ⟨front, delimiter.mark, delimiter.inside, rfl, readCode_openLiteral hfront, ?_⟩
  rw [delimiter.classify_mark]
  cases delimiter <;> decide

end Literals

/-- The operators and what the table does with each of them. -/
theorem recognized_operators : ∀ text ∈ operators,
    (State.start.readCode text).any (!·.onTrust) = true ∨
      ((State.start.readCode text.dropLast).any fun state => text.getLast?.any fun c =>
        (transition state (.classify .normal c)).action.consumes &&
          (transition state (.classify .normal c)).action != .store) = true := by
  decide

theorem transition_start : ∀ kind, Mode.normal.presents kind = true → kind ≠ .whitespace →
    kind ≠ .endOfLine → (transition .start kind).action = .store ∨
      ((transition .start kind).action.consumes = true ∧
        (transition .start kind).action ≠ .store) := by
  decide

theorem recognized_of_single {c : Char} (hblank : isBlank c = false) : Recognized [c] := by
  obtain ⟨hpresented, hwhite, hend⟩ := CharClass.classify_presented .normal hblank
  rcases transition_start _ hpresented hwhite hend with hstore | hcompletes
  · refine Or.inl ⟨(transition .start (.classify .normal c)).next, ?_, ?_⟩
    · simp [State.readCode, State.reading, hstore]
    · exact transition_start_not_onTrust .start _ rfl
  · exact Or.inr ⟨[], c, .start, rfl, rfl, hcompletes⟩

theorem recognized_of_operator {text : List Char} (htext : text ∈ operator) :
    Recognized text := by
  rcases recognized_operators text htext with hstored | hcompleted
  · obtain ⟨state, hread, htrust⟩ := (Option.any_eq_true _ _).mp hstored
    exact Or.inl ⟨state, hread, by simpa using htrust⟩
  · obtain ⟨state, hread, hlast⟩ := (Option.any_eq_true _ _).mp hcompleted
    obtain ⟨c, hc, hmove⟩ := (Option.any_eq_true _ _).mp hlast
    rw [Bool.and_eq_true, bne_iff_ne] at hmove
    exact Or.inr ⟨_, c, state, (List.dropLast_append_getLast? c hc).symm, hread, hmove⟩

/-- The table recognizes the grammar. -/
theorem recognized_of_lexeme {text : List Char} (htext : text ∈ lexeme) : Recognized text := by
  rcases htext with (((((htext | htext) | htext) | htext) | htext) | htext) | htext
  · exact Or.inl ⟨_, readCode_identifier htext, rfl⟩
  · exact Or.inl ⟨_, readCode_directive htext, rfl⟩
  · obtain ⟨last, hread, hlast⟩ := readCode_number htext
    exact Or.inl ⟨last, hread, by rcases hlast with rfl | rfl <;> rfl⟩
  · exact Or.inr (completed_of_literal htext)
  · exact Or.inr (completed_of_literal htext)
  · exact recognized_of_operator htext
  · obtain ⟨c, hc, rfl⟩ := htext
    exact recognized_of_single (by simpa using hc)

end Grammar

end LineLexer
