import Mathlib.Computability.Language
import LineLexer.Proofs.Machine.Classify
/-!
The grammar of tokens.

The tokens of code are given as languages, without any mention of states or of how a text is
read: identifiers, directives, numbers, closed literals, operators, and every single
character that is not white space.
-/

open scoped Computability

namespace LineLexer

/-- The two marks that delimit a literal. -/
inductive Delimiter where
  | double
  | single
deriving DecidableEq

def Delimiter.mark : Delimiter → Char
  | .double => '"'
  | .single => '\''

namespace Grammar

/-- The texts that consist of one character with a property. -/
def single (p : Char → Bool) : Language Char :=
  {text | ∃ c, p c = true ∧ text = [c]}

def mark (c : Char) : Language Char :=
  single (· == c)

def letter : Language Char :=
  single isLetter

def digit : Language Char :=
  single Char.isDigit

def plainLetter : Language Char :=
  single fun c => isLetter c && !isExponentLetter c

def exponentLetter : Language Char :=
  single isExponentLetter

def sign : Language Char :=
  single fun c => c == '+' || c == '-'

def identifier : Language Char :=
  letter * (letter + digit)∗

def directive : Language Char :=
  mark '#' * letter * (letter + digit)∗

/-- A digit, a letter, or an exponent letter with a signed digit. -/
def numberUnit : Language Char :=
  digit + plainLetter + exponentLetter * (1 + sign * digit)

/-- What follows the front of a number: a dot, or a unit that may be separated by a quote. -/
def numberItem : Language Char :=
  mark '.' + (1 + mark '\'') * numberUnit

def number : Language Char :=
  (digit + mark '.' * digit) * numberItem∗

/-- A character inside a literal; a backslash takes the next one with it. -/
def literalItem (delimiter : Delimiter) : Language Char :=
  single (fun c => c != delimiter.mark && c != '\\') + mark '\\' * single fun _ => true

/-- A literal up to its closing mark. -/
def openLiteral (delimiter : Delimiter) : Language Char :=
  mark delimiter.mark * (literalItem delimiter)∗

def literal (delimiter : Delimiter) : Language Char :=
  openLiteral delimiter * mark delimiter.mark

def operators : List (List Char) :=
  [".", ".*", "...", "#", "##", "/", "/=", "//", "/*", "*", "*=", "+", "++", "+=", "-", "--",
    "-=", "->", "->*", "=", "==", "!", "!=", "%", "%=", "^", "^=", "&", "&&", "&=", "|", "||",
    "|=", ":", "::", "<", "<<", "<<=", "<=", "<=>", ">", ">>", ">>=", ">="].map String.toList

def operator : Language Char :=
  {text | text ∈ operators}

/-- The tokens of code. -/
def lexeme : Language Char :=
  identifier + directive + number + literal .double + literal .single + operator +
    single fun c => !isBlank c

/-- A text that starts with a literal which is never closed. -/
def Unclosed (text : List Char) : Prop :=
  ∃ delimiter : Delimiter, text.head? = some delimiter.mark ∧
    ∀ front, front <+: text → front ∉ literal delimiter

/-- A prefix of a text that is a token, while no longer prefix is one. -/
structure IsLongestLexeme (text token : List Char) : Prop where
  isPrefix : token <+: text
  mem : token ∈ lexeme
  longest : ∀ front, front <+: text → front ∈ lexeme → front.length ≤ token.length

section Membership

variable {p : Char → Bool} {c : Char} {first second : Language Char} {front item : List Char}

theorem mem_single {text : List Char} : text ∈ single p ↔ ∃ c, p c = true ∧ text = [c] :=
  Iff.rfl

theorem singleton_mem_single : [c] ∈ single p ↔ p c = true := by
  simp [mem_single]

theorem mem_mark {text : List Char} : text ∈ mark c ↔ text = [c] := by
  simp [mark, mem_single]

/-- A text that may be continued by items is continued by one more. -/
theorem append_mem_mul_kstar (hfront : front ∈ first * second∗) (hitem : item ∈ second) :
    front ++ item ∈ first * second∗ := by
  obtain ⟨head, hhead, rest, hrest, rfl⟩ := Language.mem_mul.mp hfront
  rw [List.append_assoc]
  have hlonger : second∗ * second ≤ second∗ := kstar_mul_le_kstar
  exact Language.append_mem_mul hhead (hlonger (Language.append_mem_mul hrest hitem))

theorem mem_mul_kstar_of_mem (hfront : front ∈ first) : front ∈ first * second∗ := by
  have happend := Language.append_mem_mul hfront (Language.nil_mem_kstar second)
  rwa [List.append_nil] at happend

/-- What may follow a text may also be missing. -/
theorem mem_mul_optional_of_mem (hfront : front ∈ first) : front ∈ first * (1 + second) := by
  have hnil : [] ∈ 1 + second := Or.inl rfl
  have happend := Language.append_mem_mul hfront hnil
  rwa [List.append_nil] at happend

theorem append_mem_mul_optional (hfront : front ∈ first) (hitem : item ∈ second) :
    front ++ item ∈ first * (1 + second) := by
  have hsome : item ∈ 1 + second := Or.inr hitem
  exact Language.append_mem_mul hfront hsome

end Membership

end Grammar

end LineLexer
