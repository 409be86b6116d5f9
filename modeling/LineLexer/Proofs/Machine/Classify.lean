import LineLexer.Machine.CharClass
import LineLexer.Proofs.Machine.Reading
/-!
What the class of a character says about the character.

White space has its class in every mode, a mode presents only the classes of its own row of
`Mode.presents`, and a class that stands for a single mark determines the character.  So a
word of such classes is the class word of one text only, which is how texts of tokens are
recovered from what the table has read.  Letters and digits are the only classes of code that
stand for sets of characters which a grammar has a name for.
-/

namespace LineLexer

/-- The only character of a class, where the class has no more than one. -/
def CharClass.char? : CharClass → Option Char
  | .dot => some '.'
  | .doubleQuote => some '"'
  | .singleQuote => some '\''
  | .backslash => some '\\'
  | .hash => some '#'
  | .slash => some '/'
  | .star => some '*'
  | .plus => some '+'
  | .minus => some '-'
  | .equals => some '='
  | .bang => some '!'
  | .percent => some '%'
  | .caret => some '^'
  | .ampersand => some '&'
  | .pipe => some '|'
  | .colon => some ':'
  | .less | .angleOpen => some '<'
  | .greater | .angleClose => some '>'
  | _ => none

theorem CharClass.eq_of_char?_ofCode {c d : Char}
    (hclass : (CharClass.ofCode c).char? = some d) : c = d := by
  unfold CharClass.ofCode at hclass
  split at hclass
  all_goals first
    | exact Option.some.inj hclass
    | (split at hclass <;> cases hclass)
    | cases hclass

/-- A class that stands for a single mark stands for the same mark in every mode. -/
theorem CharClass.eq_of_char?_classify {mode : Mode} {c d : Char}
    (hclass : (CharClass.classify mode c).char? = some d) : c = d := by
  unfold CharClass.classify at hclass
  split at hclass
  · cases hclass
  · cases mode with
    | normal => exact CharClass.eq_of_char?_ofCode hclass
    | inlineComment => cases hclass
    | blockComment =>
        simp only at hclass
        split at hclass <;> cases hclass <;> rfl
    | includeLiteral =>
        simp only at hclass
        split at hclass
        · exact Option.some.inj hclass
        · exact Option.some.inj hclass
        · exact CharClass.eq_of_char?_ofCode hclass

theorem CharClass.ofCode_presented (c : Char) :
    Mode.normal.presents (CharClass.ofCode c) = true ∧
      CharClass.ofCode c ≠ .whitespace ∧ CharClass.ofCode c ≠ .endOfLine := by
  unfold CharClass.ofCode
  split
  all_goals try decide
  split <;> decide

theorem CharClass.classify_of_isBlank {c : Char} (mode : Mode) (hblank : isBlank c = true) :
    CharClass.classify mode c = .whitespace := by
  unfold CharClass.classify
  rw [if_pos hblank]

/-- Outside white space a character has a class of the mode that is neither white space nor
the end of the line. -/
theorem CharClass.classify_presented (mode : Mode) {c : Char} (hblank : isBlank c = false) :
    mode.presents (CharClass.classify mode c) = true ∧
      CharClass.classify mode c ≠ .whitespace ∧ CharClass.classify mode c ≠ .endOfLine := by
  have hcode := CharClass.ofCode_presented c
  unfold CharClass.classify
  rw [if_neg (by simp [hblank])]
  cases mode with
  | normal => exact hcode
  | inlineComment =>
      dsimp only
      decide
  | blockComment =>
      dsimp only
      split <;> decide
  | includeLiteral =>
      dsimp only
      split
      · decide
      · decide
      · rename_i hless hgreater
        refine ⟨?_, hcode.2⟩
        -- The classes of the two angle brackets are those that only the other mode presents.
        have hnot : CharClass.ofCode c ≠ .less ∧ CharClass.ofCode c ≠ .greater := by
          constructor
          · intro hclass
            exact hless (CharClass.eq_of_char?_ofCode (by rw [hclass]; rfl))
          · intro hclass
            exact hgreater (CharClass.eq_of_char?_ofCode (by rw [hclass]; rfl))
        revert hcode hnot
        cases CharClass.ofCode c <;> simp [Mode.presents]

theorem CharClass.presents_classify (mode : Mode) (c : Char) :
    mode.presents (CharClass.classify mode c) = true := by
  cases hblank : isBlank c with
  | true =>
      rw [CharClass.classify_of_isBlank mode hblank]
      cases mode <;> rfl
  | false => exact (CharClass.classify_presented mode hblank).1

theorem CharClass.presents_of_mem_map (mode : Mode) (text : List Char) :
    ∀ kind ∈ text.map (CharClass.classify mode), mode.presents kind = true := by
  intro kind hkind
  obtain ⟨c, _, rfl⟩ := List.mem_map.mp hkind
  exact CharClass.presents_classify mode c

theorem CharClass.classify_ne_endOfLine (mode : Mode) (c : Char) :
    CharClass.classify mode c ≠ .endOfLine := by
  cases hblank : isBlank c with
  | true =>
      rw [CharClass.classify_of_isBlank mode hblank]
      decide
  | false => exact (CharClass.classify_presented mode hblank).2.2

@[simp] theorem CharClass.classify_eq_whitespace_iff {mode : Mode} {c : Char} :
    CharClass.classify mode c = .whitespace ↔ isBlank c = true := by
  constructor
  · intro hclass
    by_contra hblank
    exact (CharClass.classify_presented mode (Bool.eq_false_iff.mpr hblank)).2.1 hclass
  · exact CharClass.classify_of_isBlank mode

/-- A text is determined by its class word if every class stands for a single mark. -/
theorem CharClass.text_eq_of_map_classify {mode : Mode} {text marks : List Char}
    (hmarks : (text.map (CharClass.classify mode)).map CharClass.char? = marks.map some) :
    text = marks := by
  induction text generalizing marks with
  | nil =>
      cases marks with
      | nil => rfl
      | cons mark rest => cases hmarks
  | cons c rest ih =>
      cases marks with
      | nil => cases hmarks
      | cons mark others =>
          simp only [List.map_cons, List.cons.injEq] at hmarks
          rw [CharClass.eq_of_char?_classify hmarks.1, ih hmarks.2]

/-- Letters of identifiers. -/
def isLetter (c : Char) : Bool :=
  isAlphabetic c || c == '_'

/-- The letters that may introduce a signed exponent. -/
def isExponentLetter (c : Char) : Bool :=
  c == 'e' || c == 'E' || c == 'p' || c == 'P'

theorem isAlphabetic_of_isBlank {c : Char} (hblank : isBlank c = true) :
    isAlphabetic c = false := by
  unfold isBlank at hblank
  unfold isAlphabetic
  simp only [Bool.or_eq_true, Bool.and_eq_true, decide_eq_true_eq, beq_iff_eq] at hblank
  generalize c.toNat = n at hblank
  have hcode : n ∈ [0x9, 0xA, 0xB, 0xC, 0xD, 0x20, 0x85, 0xA0, 0x1680, 0x2000, 0x2001, 0x2002,
      0x2003, 0x2004, 0x2005, 0x2006, 0x2007, 0x2008, 0x2009, 0x200A, 0x2028, 0x2029, 0x202F,
      0x205F, 0x3000] := by
    simp only [List.mem_cons, List.not_mem_nil]
    omega
  clear hblank
  revert n
  decide

theorem CharClass.ofCode_of_isBlank {c : Char} (hblank : isBlank c = true) :
    CharClass.ofCode c = .other := by
  unfold CharClass.ofCode
  split
  all_goals first
    | exact absurd hblank (by decide)
    | rw [isAlphabetic_of_isBlank hblank]; rfl

/-- In code the class of a character is the one that its marks and letters give it. -/
theorem CharClass.classify_normal_iff {c : Char} {kind : CharClass} (hblank : kind ≠ .whitespace)
    (hother : kind ≠ .other) :
    CharClass.classify .normal c = kind ↔ CharClass.ofCode c = kind := by
  cases hc : isBlank c with
  | true =>
      rw [CharClass.classify_of_isBlank _ hc, CharClass.ofCode_of_isBlank hc]
      constructor
      · intro h
        exact absurd h.symm hblank
      · intro h
        exact absurd h.symm hother
  | false =>
      unfold CharClass.classify
      rw [if_neg (by simp [hc])]

theorem isDigit_iff_mem {c : Char} : c.isDigit = true ↔ c ∈ "0123456789".toList := by
  constructor
  · intro hdigit
    have hcode : c.toNat ∈ List.range' 48 10 := by
      simp only [Char.isDigit, Bool.and_eq_true, decide_eq_true_eq, ge_iff_le,
        UInt32.le_iff_toNat_le] at hdigit
      rw [List.mem_range'_1]
      exact ⟨hdigit.1, Nat.lt_succ_of_le hdigit.2⟩
    have hall : ((List.range' 48 10).all fun n => "0123456789".toList.contains (Char.ofNat n)) =
        true := by
      decide
    have hc := List.contains_iff_mem.mp (List.all_eq_true.mp hall _ hcode)
    rwa [Char.ofNat_toNat] at hc
  · intro hmem
    have hall : ("0123456789".toList.all Char.isDigit) = true := by decide
    exact List.all_eq_true.mp hall c hmem

theorem CharClass.ofCode_eq_digit_iff {c : Char} :
    CharClass.ofCode c = .digit ↔ c.isDigit = true := by
  constructor
  · intro hclass
    unfold CharClass.ofCode at hclass
    split at hclass
    all_goals first
      | rfl
      | cases hclass
      | (split at hclass <;> cases hclass)
  · intro hdigit
    have hall : ("0123456789".toList.all fun d => CharClass.ofCode d = .digit) = true := by decide
    exact of_decide_eq_true (List.all_eq_true.mp hall c (isDigit_iff_mem.mp hdigit))

theorem CharClass.ofCode_eq_exponentLetter_iff {c : Char} :
    CharClass.ofCode c = .exponentLetter ↔ isExponentLetter c = true := by
  constructor
  · intro hclass
    unfold CharClass.ofCode at hclass
    split at hclass
    all_goals first
      | rfl
      | cases hclass
      | (split at hclass <;> cases hclass)
  · intro hletter
    simp only [isExponentLetter, Bool.or_eq_true, beq_iff_eq] at hletter
    rcases hletter with ((rfl | rfl) | rfl) | rfl <;> rfl

theorem CharClass.ofCode_eq_letter_iff {c : Char} :
    CharClass.ofCode c = .letter ↔ isLetter c = true ∧ isExponentLetter c = false := by
  constructor
  · intro hclass
    have hexp : isExponentLetter c = false := by
      rw [Bool.eq_false_iff, Ne, ← CharClass.ofCode_eq_exponentLetter_iff, hclass]
      decide
    refine ⟨?_, hexp⟩
    unfold CharClass.ofCode at hclass
    split at hclass
    all_goals try cases hclass
    · rfl
    · split at hclass
      · simp [isLetter, *]
      · cases hclass
  · rintro ⟨hletter, hexp⟩
    rw [isLetter, Bool.or_eq_true, beq_iff_eq] at hletter
    rcases hletter with halpha | rfl
    · unfold CharClass.ofCode
      split
      all_goals first
        | exact absurd hexp (by decide)
        | exact absurd halpha (by decide)
        | rw [if_pos halpha]
    · rfl

section Normal

variable {c : Char}

theorem CharClass.classify_eq_digit_iff :
    CharClass.classify .normal c = .digit ↔ c.isDigit = true := by
  rw [CharClass.classify_normal_iff (by decide) (by decide), CharClass.ofCode_eq_digit_iff]

theorem CharClass.classify_eq_exponentLetter_iff :
    CharClass.classify .normal c = .exponentLetter ↔ isExponentLetter c = true := by
  rw [CharClass.classify_normal_iff (by decide) (by decide),
    CharClass.ofCode_eq_exponentLetter_iff]

theorem CharClass.classify_eq_letter_iff :
    CharClass.classify .normal c = .letter ↔ isLetter c = true ∧ isExponentLetter c = false := by
  rw [CharClass.classify_normal_iff (by decide) (by decide), CharClass.ofCode_eq_letter_iff]

end Normal

end LineLexer
