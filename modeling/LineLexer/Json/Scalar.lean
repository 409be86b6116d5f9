import LineLexer.Json.Value
/-!
Reading the values without parts from the front of JSON texts, up to the first fault:
literals, strings and numbers.  What is read is always returned with the rest of the text,
and for each reader a lemma says that the rest is shorter.

Values are read at one of two levels of care.  A value that is used is read strictly: its
strings must be sequences of characters, its numbers must be finite in double precision, and
its containers must not be nested too deep.  A value that is skipped must only have the
shape of one.
-/

namespace LineLexer.Json

/-- The first thing wrong with a text. -/
inductive Fault where
  /-- The text ends too early. -/
  | truncated
  /-- The text is not JSON from here on. -/
  | malformed
  /-- A value is not of the kind that is wanted. -/
  | mismatched
deriving DecidableEq

/-- How carefully values are read. -/
inductive Care where
  /-- With containers nested at most as deep as given. -/
  | strict (depth : Nat)
  | skimming
deriving DecidableEq

/-- Whether containers may be nested this deep. -/
def Care.allows : Care → Nat → Bool
  | .strict limit, depth => depth ≤ limit
  | .skimming, _ => true

/-- What a reader returns: a fault, or a value and the rest of the text. -/
abbrev Result (α : Type) : Type :=
  Except Fault (α × List Char)

/-- The first character after white space, and what follows it. -/
def lead : List Char → Option (Char × List Char)
  | [] => none
  | c :: rest =>
      if c = ' ' ∨ c = '\t' ∨ c = '\n' ∨ c = '\r' then lead rest else some (c, rest)

theorem length_of_lead {text rest : List Char} {c : Char}
    (h : lead text = some (c, rest)) : rest.length < text.length := by
  induction text with
  | nil => simp [lead] at h
  | cons head tail ih =>
      simp only [lead] at h
      split at h
      · have := ih h
        simp only [List.length_cons]
        omega
      · simp only [Option.some.injEq, Prod.mk.injEq] at h
        simp [h.2]

/-- Reads the rest of a literal, letter by letter. -/
def readWord : List Char → List Char → Except Fault (List Char)
  | [], text => .ok text
  | _ :: _, [] => .error .truncated
  | letter :: word, c :: rest => if c = letter then readWord word rest else .error .malformed

theorem length_of_readWord {word text rest : List Char} (h : readWord word text = .ok rest) :
    rest.length ≤ text.length := by
  induction word generalizing text with
  | nil =>
      simp only [readWord, Except.ok.injEq] at h
      simp [h]
  | cons letter word ih =>
      cases text with
      | nil => simp [readWord] at h
      | cons c tail =>
          simp only [readWord] at h
          split at h
          · have := ih h
            simp only [List.length_cons]
            omega
          · cases h

/-- The value of a hexadecimal digit. -/
def hexValue? (c : Char) : Option Nat :=
  let n := c.toNat
  if 0x30 ≤ n ∧ n ≤ 0x39 then some (n - 0x30)
  else if 0x41 ≤ n ∧ n ≤ 0x46 then some (n - 0x41 + 10)
  else if 0x61 ≤ n ∧ n ≤ 0x66 then some (n - 0x61 + 10)
  else none

/-- Reads the four digits of a code unit.  A text of less than four bytes is too short
whatever it holds. -/
def readCodeUnit (text : List Char) : Result Nat :=
  if (text.take 4).foldl (fun size c => size + c.utf8Size) 0 < 4 then .error .truncated
  else match text with
    | a :: b :: c :: d :: rest =>
        match hexValue? a, hexValue? b, hexValue? c, hexValue? d with
        | some a, some b, some c, some d => .ok (((a * 16 + b) * 16 + c) * 16 + d, rest)
        | _, _, _, _ => .error .malformed
    | _ => .error .malformed

theorem length_of_readCodeUnit {text rest : List Char} {unit : Nat}
    (h : readCodeUnit text = .ok (unit, rest)) : rest.length < text.length := by
  unfold readCodeUnit at h
  split at h
  · cases h
  · split at h
    · split at h
      · simp only [Except.ok.injEq, Prod.mk.injEq] at h
        simp only [List.length_cons, ← h.2]
        omega
      · cases h
    · cases h

/-- Reads the second half of a surrogate pair whose first half is `high`. -/
def readLowSurrogate (high : Nat) : List Char → Result Char
  | [] | ['\\'] => .error .truncated
  | '\\' :: 'u' :: rest =>
      match readCodeUnit rest with
      | .ok (low, later) =>
          if 0xDC00 ≤ low ∧ low ≤ 0xDFFF then
            .ok (Char.ofNat (0x10000 + (high - 0xD800) * 0x400 + (low - 0xDC00)), later)
          else .error .malformed
      | .error fault => .error fault
  | _ => .error .malformed

theorem length_of_readLowSurrogate {high : Nat} {text rest : List Char} {c : Char}
    (h : readLowSurrogate high text = .ok (c, rest)) : rest.length < text.length := by
  unfold readLowSurrogate at h
  split at h
  · cases h
  · cases h
  · split at h
    · rename_i hunit
      split at h
      · simp only [Except.ok.injEq, Prod.mk.injEq] at h
        have := length_of_readCodeUnit hunit
        simp only [List.length_cons, ← h.2]
        omega
      · cases h
    · cases h
  · cases h

/-- Reads an escape after its backslash.  Strictly, a surrogate stands only in a pair;
otherwise any four digits do. -/
def readEscape (care : Care) : List Char → Result Char
  | [] => .error .truncated
  | '"' :: rest => .ok ('"', rest)
  | '\\' :: rest => .ok ('\\', rest)
  | '/' :: rest => .ok ('/', rest)
  | 'b' :: rest => .ok ('\x08', rest)
  | 'f' :: rest => .ok ('\x0c', rest)
  | 'n' :: rest => .ok ('\n', rest)
  | 'r' :: rest => .ok ('\r', rest)
  | 't' :: rest => .ok ('\t', rest)
  | 'u' :: rest =>
      match readCodeUnit rest with
      | .ok (unit, later) =>
          if care = .skimming ∨ unit < 0xD800 ∨ 0xDFFF < unit then
            .ok (Char.ofNat unit, later)
          else if 0xDC00 ≤ unit then .error .malformed
          else readLowSurrogate unit later
      | .error fault => .error fault
  | _ :: _ => .error .malformed

theorem length_of_readEscape {care : Care} {text rest : List Char} {c : Char}
    (h : readEscape care text = .ok (c, rest)) : rest.length < text.length := by
  unfold readEscape at h
  split at h
  case h_10 =>
    split at h
    · rename_i hunit
      have hshorter := length_of_readCodeUnit hunit
      split at h
      · simp only [Except.ok.injEq, Prod.mk.injEq] at h
        simp only [List.length_cons, ← h.2]
        omega
      · split at h
        · cases h
        · have := length_of_readLowSurrogate h
          simp only [List.length_cons]
          omega
    · cases h
  all_goals
    first
    | (simp only [Except.ok.injEq, Prod.mk.injEq] at h
       simp [h.2])
    | cases h

/-- Applies a function to the value that was read. -/
def mapValue {α β : Type} (f : α → β) : Result α → Result β
  | .ok (value, rest) => .ok (f value, rest)
  | .error fault => .error fault

theorem mapValue_eq_ok_iff {α β : Type} {f : α → β} {result : Result α} {value : β}
    {rest : List Char} :
    mapValue f result = .ok (value, rest) ↔
      ∃ original, result = .ok (original, rest) ∧ f original = value := by
  cases result with
  | error fault => simp [mapValue]
  | ok pair =>
      simp only [mapValue, Except.ok.injEq, Prod.mk.injEq]
      constructor
      · rintro ⟨hvalue, hrest⟩
        exact ⟨pair.1, by rw [← hrest], hvalue⟩
      · rintro ⟨original, rfl, hvalue⟩
        exact ⟨hvalue, rfl⟩

/-- Reads a string after its opening quote. -/
def readString (care : Care) : List Char → Result (List Char)
  | [] => .error .truncated
  | c :: rest =>
      if c = '"' then .ok ([], rest)
      else if c = '\\' then
        match _h : readEscape care rest with
        | .ok (decoded, later) => mapValue (decoded :: ·) (readString care later)
        | .error fault => .error fault
      else if c.toNat < 0x20 then .error .malformed
      else mapValue (c :: ·) (readString care rest)
termination_by text => text.length
decreasing_by
  · have := length_of_readEscape _h
    simp only [List.length_cons]
    omega
  · simp

theorem length_of_readString {care : Care} {text string rest : List Char}
    (h : readString care text = .ok (string, rest)) : rest.length < text.length := by
  fun_induction readString care text generalizing string with
  | case1 => cases h
  | case2 rest' =>
      simp only [Except.ok.injEq, Prod.mk.injEq] at h
      simp [h.2]
  | case3 rest' decoded later hescape hq ih =>
      obtain ⟨tail, htail, -⟩ := mapValue_eq_ok_iff.mp h
      have := ih htail
      have := length_of_readEscape hescape
      simp only [List.length_cons]
      omega
  | case4 => cases h
  | case5 => cases h
  | case6 c rest' hq hb hc ih =>
      obtain ⟨tail, htail, -⟩ := mapValue_eq_ok_iff.mp h
      have := ih htail
      simp only [List.length_cons]
      omega

/-- The digits at the front of a text, and the rest. -/
def spanDigits (text : List Char) : List Char × List Char :=
  (text.takeWhile Char.isDigit, text.dropWhile Char.isDigit)

theorem length_spanDigits (text : List Char) : (spanDigits text).2.length ≤ text.length :=
  (List.dropWhile_sublist _).length_le

/-- The fault of a number that lacks a digit.  At the end of the text a number that is used
is cut off; one that is skipped is malformed like any other. -/
def lacksDigit (care : Care) (rest : List Char) : Fault :=
  if rest.isEmpty ∧ care ≠ .skimming then .truncated else .malformed

/-- The value of a sequence of digits. -/
def digitsValue (digits : List Char) : Nat :=
  Nat.ofDigitChars 10 digits 0

/-- Reads the whole part of a number: a zero, or digits that do not start with one. -/
def readWhole (care : Care) (text : List Char) : Result Nat :=
  match spanDigits text with
  | ([], rest) => .error (lacksDigit care rest)
  | ('0' :: _ :: _, _) => .error .malformed
  | (digits, rest) => .ok (digitsValue digits, rest)

theorem length_of_readWhole {care : Care} {text rest : List Char} {whole : Nat}
    (h : readWhole care text = .ok (whole, rest)) : rest.length < text.length := by
  unfold readWhole at h
  split at h
  · cases h
  · cases h
  · rename_i digits rest' hempty _ hspan
    simp only [Except.ok.injEq, Prod.mk.injEq] at h
    have hlength : (spanDigits text).1.length + (spanDigits text).2.length = text.length := by
      rw [← List.length_append, spanDigits, List.takeWhile_append_dropWhile]
    have hpositive : digits ≠ [] := hempty
    have := List.length_pos_iff.mpr hpositive
    rw [hspan] at hlength
    simp only at hlength
    rw [← h.2]
    omega

/-- Reads the fraction of a number, if there is one. -/
def readFraction (care : Care) (text : List Char) : Result (List Char) :=
  match text with
  | '.' :: after =>
      match spanDigits after with
      | ([], rest) => .error (lacksDigit care rest)
      | (digits, rest) => .ok (digits, rest)
  | _ => .ok ([], text)

theorem length_of_readFraction {care : Care} {text fraction rest : List Char}
    (h : readFraction care text = .ok (fraction, rest)) : rest.length ≤ text.length := by
  unfold readFraction at h
  split at h
  · rename_i after
    have hlength := length_spanDigits after
    split at h
    · cases h
    · rename_i hspan
      simp only [Except.ok.injEq, Prod.mk.injEq] at h
      rw [hspan] at hlength
      simp only at hlength
      simp only [List.length_cons, ← h.2]
      omega
  · simp only [Except.ok.injEq, Prod.mk.injEq] at h
    simp [h.2]

/-- Splits the sign off an exponent. -/
def exponentSign : List Char → Bool × List Char
  | '+' :: rest => (false, rest)
  | '-' :: rest => (true, rest)
  | text => (false, text)

/-- Reads the exponent of a number, if there is one. -/
def readExponent (care : Care) (text : List Char) : Result (Option Int) :=
  match text with
  | 'e' :: after | 'E' :: after =>
      let (negative, unsigned) := exponentSign after
      match spanDigits unsigned with
      | ([], rest) => .error (lacksDigit care rest)
      | (digits, rest) =>
          let magnitude : Int := digitsValue digits
          .ok (some (if negative then -magnitude else magnitude), rest)
  | _ => .ok (none, text)

theorem length_exponentSign (text : List Char) :
    (exponentSign text).2.length ≤ text.length := by
  unfold exponentSign
  split <;> simp

private theorem length_of_readExponent_after {care : Care} {after rest : List Char}
    {exponent : Option Int}
    (h : readExponent care ('e' :: after) = .ok (exponent, rest)) :
    rest.length ≤ after.length := by
  have hsign := length_exponentSign after
  have hlength := length_spanDigits (exponentSign after).2
  simp only [readExponent] at h
  split at h
  · cases h
  · rename_i hspan
    simp only [Except.ok.injEq, Prod.mk.injEq] at h
    rw [hspan] at hlength
    simp only at hlength
    rw [← h.2]
    omega

theorem length_of_readExponent {care : Care} {text rest : List Char} {exponent : Option Int}
    (h : readExponent care text = .ok (exponent, rest)) : rest.length ≤ text.length := by
  unfold readExponent at h
  split at h
  · exact Nat.le_succ_of_le (length_of_readExponent_after h)
  · exact Nat.le_succ_of_le (length_of_readExponent_after h)
  · simp only [Except.ok.injEq, Prod.mk.injEq] at h
    simp [h.2]

/-- A natural number in double precision: its 53 leading bits, rounded to the nearest and
halfway to the even neighbour. -/
def roundToDouble (n : Nat) : Nat :=
  let unit := Nat.pow 2 (n.log2 - 52)
  let quotient := n / unit
  let remainder := n % unit
  if unit < 2 * remainder ∨ (unit = 2 * remainder ∧ quotient % 2 = 1) then
    (quotient + 1) * unit
  else quotient * unit

/-- Appends decimal digits to a coefficient as long as it fits 64 bits, and counts the
digits left out. -/
def appendDigits (coefficient : Nat) : List Char → Nat × Nat
  | [] => (coefficient, 0)
  | digit :: digits =>
      let next := 10 * coefficient + (digit.toNat - '0'.toNat)
      if next < Nat.pow 2 64 then appendDigits next digits
      else (coefficient, digits.length + 1)

/-- Whether a number is infinite in double precision.  It is taken as a coefficient of 64
bits, made of the leading digits of both parts, times a power of ten, each rounded by
itself. -/
def Number.isHuge (number : Number) : Bool :=
  let (whole, dropped) := appendDigits 0 (decimal number.whole)
  let (coefficient, ignored) := appendDigits whole number.fraction
  let exponent : Int :=
    number.exponent.getD 0 + dropped - (number.fraction.length - ignored : Nat)
  if coefficient = 0 ∨ exponent < 0 then false
  else if 308 < exponent then true
  else Nat.pow 2 1024 ≤
    roundToDouble (roundToDouble coefficient * roundToDouble (Nat.pow 10 exponent.toNat))

/-- Reads a number without its sign. -/
def readUnsigned (care : Care) (negative : Bool) (text : List Char) : Result Number :=
  match readWhole care text with
  | .error fault => .error fault
  | .ok (whole, afterWhole) =>
      match readFraction care afterWhole with
      | .error fault => .error fault
      | .ok (fraction, afterFraction) =>
          match readExponent care afterFraction with
          | .error fault => .error fault
          | .ok (exponent, rest) =>
              let number : Number := { negative, whole, fraction, exponent }
              if care ≠ .skimming ∧ number.isHuge then .error .malformed
              else .ok (number, rest)

theorem length_of_readUnsigned {care : Care} {negative : Bool} {text rest : List Char}
    {number : Number} (h : readUnsigned care negative text = .ok (number, rest)) :
    rest.length < text.length := by
  unfold readUnsigned at h
  split at h
  · cases h
  · rename_i hwhole
    split at h
    · cases h
    · rename_i hfraction
      split at h
      · cases h
      · rename_i hexponent
        have := length_of_readWhole hwhole
        have := length_of_readFraction hfraction
        have := length_of_readExponent hexponent
        simp only at h
        split at h
        · cases h
        · simp only [Except.ok.injEq, Prod.mk.injEq] at h
          rw [← h.2]
          omega

/-- Reads a literal after its first letter. -/
def readLiteral (value : Json) (word : List Char) (text : List Char) : Result Json :=
  (readWord word text).map fun rest => (value, rest)

/-- Reads a value without parts whose first character is `c`. -/
def readScalar (care : Care) (c : Char) (rest : List Char) : Result Json :=
  if c = '"' then mapValue (fun text => .string (String.ofList text)) (readString care rest)
  else if c = 'n' then readLiteral .null ['u', 'l', 'l'] rest
  else if c = 't' then readLiteral (.bool true) ['r', 'u', 'e'] rest
  else if c = 'f' then readLiteral (.bool false) ['a', 'l', 's', 'e'] rest
  else if c = '-' then mapValue .number (readUnsigned care true rest)
  else if c.isDigit then mapValue .number (readUnsigned care false (c :: rest))
  else .error .malformed

theorem length_of_readLiteral {value read : Json} {word text rest : List Char}
    (h : readLiteral value word text = .ok (read, rest)) : rest.length ≤ text.length := by
  unfold readLiteral at h
  cases hword : readWord word text with
  | error fault => simp [hword, Except.map] at h
  | ok later =>
      simp only [hword, Except.map, Except.ok.injEq, Prod.mk.injEq] at h
      exact h.2 ▸ length_of_readWord hword

theorem length_of_readScalar {care : Care} {c : Char} {text rest : List Char} {value : Json}
    (h : readScalar care c text = .ok (value, rest)) : rest.length ≤ text.length := by
  unfold readScalar at h
  split at h
  · obtain ⟨string, hstring, -⟩ := mapValue_eq_ok_iff.mp h
    exact Nat.le_of_lt (length_of_readString hstring)
  split at h
  · exact length_of_readLiteral h
  split at h
  · exact length_of_readLiteral h
  split at h
  · exact length_of_readLiteral h
  split at h
  · obtain ⟨number, hnumber, -⟩ := mapValue_eq_ok_iff.mp h
    exact Nat.le_of_lt (length_of_readUnsigned hnumber)
  split at h
  · obtain ⟨number, hnumber, -⟩ := mapValue_eq_ok_iff.mp h
    exact Nat.le_of_lt_succ (length_of_readUnsigned hnumber)
  · cases h

end LineLexer.Json
