import LineLexer.Json.Scalar
/-!
The grammar of JSON texts.

`Spells value text` says that a text is one of the ways to write a value: with white space around
every mark, with any escapes in its strings, and with every form of an exponent.  Nothing is said
about how a text is read.  The text of a part reaches up to the mark that ends it, and that of a
container runs from one mark to the next, so that the grammar has the shape of the value.
-/

namespace LineLexer.Json

def IsSpace (c : Char) : Prop :=
  c = ' ' ∨ c = '\t' ∨ c = '\n' ∨ c = '\r'

instance : DecidablePred IsSpace :=
  fun c => inferInstanceAs (Decidable (c = ' ' ∨ c = '\t' ∨ c = '\n' ∨ c = '\r'))

/-- White space, which may stand around every mark. -/
def Gap (text : List Char) : Prop :=
  ∀ c ∈ text, IsSpace c

/-- At least one digit, and nothing else. -/
structure Digits (text : List Char) : Prop where
  ne_nil : text ≠ []
  isDigit : ∀ c ∈ text, c.isDigit = true

/-- The letters that stand after a backslash for one character. -/
def shortEscapes : List (Char × Char) :=
  [('"', '"'), ('\\', '\\'), ('/', '/'), ('b', '\x08'), ('f', '\x0c'), ('n', '\n'), ('r', '\r'),
    ('t', '\t')]

/-- Four hexadecimal digits of a number. -/
inductive SpellsUnit : Nat → List Char → Prop
  | digits {a b c d : Char} {i j k l : Nat} (ha : hexValue? a = some i) (hb : hexValue? b = some j)
      (hc : hexValue? c = some k) (hd : hexValue? d = some l) :
      SpellsUnit (((i * 16 + j) * 16 + k) * 16 + l) [a, b, c, d]

/-- The ways to write a character inside a string. -/
inductive SpellsChar : Char → List Char → Prop
  | plain {c : Char} (hquote : c ≠ '"') (hbackslash : c ≠ '\\') (hcontrol : 0x20 ≤ c.toNat) :
      SpellsChar c [c]
  | short {letter c : Char} (hletter : (letter, c) ∈ shortEscapes) : SpellsChar c ['\\', letter]
  | unit {c : Char} {digits : List Char} (hunit : SpellsUnit c.toNat digits) :
      SpellsChar c ('\\' :: 'u' :: digits)
  /-- A character beyond the first plane is a pair of surrogates. -/
  | pair {c : Char} {high low : List Char} (hwide : 0x10000 ≤ c.toNat)
      (hhigh : SpellsUnit (0xD800 + (c.toNat - 0x10000) / 0x400) high)
      (hlow : SpellsUnit (0xDC00 + (c.toNat - 0x10000) % 0x400) low) :
      SpellsChar c ('\\' :: 'u' :: high ++ '\\' :: 'u' :: low)

/-- The text of a string after its opening quote. -/
inductive SpellsString : List Char → List Char → Prop
  | close : SpellsString [] ['"']
  | char {c : Char} {text : List Char} {string later : List Char} (hchar : SpellsChar c text)
      (hlater : SpellsString string later) : SpellsString (c :: string) (text ++ later)

/-- The digits of a natural number, without leading zeros. -/
structure SpellsWhole (n : Nat) (text : List Char) : Prop where
  digits : Digits text
  not_padded : ∀ c later, text ≠ '0' :: c :: later
  value_eq : digitsValue text = n

/-- The point of a number with the digits after it, if there are any. -/
inductive SpellsFraction : List Char → List Char → Prop
  | absent : SpellsFraction [] []
  | present {digits : List Char} (hdigits : Digits digits) : SpellsFraction digits ('.' :: digits)

/-- The exponent of a number, if there is one. -/
inductive SpellsExponent : Option Int → List Char → Prop
  | absent : SpellsExponent none []
  | unsigned {mark : Char} {digits : List Char} (hmark : mark = 'e' ∨ mark = 'E')
      (hdigits : Digits digits) : SpellsExponent (some (digitsValue digits)) (mark :: digits)
  | plus {mark : Char} {digits : List Char} (hmark : mark = 'e' ∨ mark = 'E')
      (hdigits : Digits digits) :
      SpellsExponent (some (digitsValue digits)) (mark :: '+' :: digits)
  | minus {mark : Char} {digits : List Char} (hmark : mark = 'e' ∨ mark = 'E')
      (hdigits : Digits digits) :
      SpellsExponent (some (-(digitsValue digits : Int))) (mark :: '-' :: digits)

/-- A number without its sign. -/
inductive SpellsUnsigned (number : Number) : List Char → Prop
  | parts {whole fraction exponent : List Char} (hwhole : SpellsWhole number.whole whole)
      (hfraction : SpellsFraction number.fraction fraction)
      (hexponent : SpellsExponent number.exponent exponent) :
      SpellsUnsigned number (whole ++ (fraction ++ exponent))

/-- The values without parts. -/
inductive SpellsScalar : Json → List Char → Prop
  | null : SpellsScalar .null ['n', 'u', 'l', 'l']
  | true : SpellsScalar (.bool true) ['t', 'r', 'u', 'e']
  | false : SpellsScalar (.bool false) ['f', 'a', 'l', 's', 'e']
  | positive {number : Number} {text : List Char} (hsign : number.negative = false)
      (hnumber : SpellsUnsigned number text) : SpellsScalar (.number number) text
  | negative {number : Number} {text : List Char} (hsign : number.negative = true)
      (hnumber : SpellsUnsigned number text) : SpellsScalar (.number number) ('-' :: text)
  | string {string : String} {text : List Char} (hstring : SpellsString string.toList text) :
      SpellsScalar (.string string) ('"' :: text)

/-- The key of a member, through the colon. -/
inductive SpellsKey : String → List Char → Prop
  | quoted {key : String} {before text after : List Char} (hbefore : Gap before)
      (htext : SpellsString key.toList text) (hafter : Gap after) :
      SpellsKey key (before ++ ('"' :: text ++ (after ++ [':'])))

mutual

/-- The ways to write a value, from its first mark to its last. -/
inductive Spells : Json → List Char → Prop
  | scalar {value : Json} {text : List Char} (hscalar : SpellsScalar value text) :
      Spells value text
  | emptyArray {gap : List Char} (hgap : Gap gap) : Spells (.array []) ('[' :: (gap ++ [']']))
  | array {items : List Json} {text : List Char} (hitems : SpellsItems items text) :
      Spells (.array items) ('[' :: text)
  | emptyObject {gap : List Char} (hgap : Gap gap) :
      Spells (.object []) ('\x7b' :: (gap ++ ['\x7d']))
  | object {members : List (String × Json)} {text : List Char}
      (hmembers : SpellsMembers members text) : Spells (.object members) ('\x7b' :: text)

/-- The items of an array, through the bracket that ends it. -/
inductive SpellsItems : List Json → List Char → Prop
  | last {item : Json} {before text after : List Char} (hbefore : Gap before)
      (hitem : Spells item text) (hafter : Gap after) :
      SpellsItems [item] (before ++ (text ++ (after ++ [']'])))
  | more {item : Json} {items : List Json} {before text after later : List Char}
      (hbefore : Gap before) (hitem : Spells item text) (hafter : Gap after)
      (hlater : SpellsItems items later) :
      SpellsItems (item :: items) (before ++ (text ++ (after ++ ',' :: later)))

/-- The members of an object, through the bracket that ends it. -/
inductive SpellsMembers : List (String × Json) → List Char → Prop
  | last {key : String} {value : Json} {front before text after : List Char}
      (hkey : SpellsKey key front) (hbefore : Gap before) (hvalue : Spells value text)
      (hafter : Gap after) :
      SpellsMembers [(key, value)] (front ++ (before ++ (text ++ (after ++ ['\x7d']))))
  | more {key : String} {value : Json} {members : List (String × Json)}
      {front before text after later : List Char} (hkey : SpellsKey key front)
      (hbefore : Gap before) (hvalue : Spells value text) (hafter : Gap after)
      (hlater : SpellsMembers members later) :
      SpellsMembers ((key, value) :: members)
        (front ++ (before ++ (text ++ (after ++ ',' :: later))))

end

/-- The texts that hold a value and nothing else. -/
inductive SpellsText (value : Json) : List Char → Prop
  | padded {before text after : List Char} (hbefore : Gap before) (hvalue : Spells value text)
      (hafter : Gap after) : SpellsText value (before ++ (text ++ after))

/-- The values that can be written as JSON and taken back: the fractions of their numbers are
digits, the numbers are finite in double precision, and the containers are nested at most `room`
deep. -/
inductive Fits : Nat → Json → Prop
  | null {room : Nat} : Fits room .null
  | bool {room : Nat} {value : Bool} : Fits room (.bool value)
  | number {room : Nat} {number : Number} (hdigits : ∀ c ∈ number.fraction, c.isDigit = true)
      (hfinite : number.isHuge = false) : Fits room (.number number)
  | string {room : Nat} {text : String} : Fits room (.string text)
  | array {room : Nat} {items : List Json} (hitems : ∀ item ∈ items, Fits room item) :
      Fits (room + 1) (.array items)
  | object {room : Nat} {members : List (String × Json)}
      (hmembers : ∀ member ∈ members, Fits room member.2) : Fits (room + 1) (.object members)

theorem gap_nil : Gap [] := by
  simp [Gap]

theorem gap_cons {c : Char} {text : List Char} (hc : IsSpace c) (htext : Gap text) :
    Gap (c :: text) :=
  List.forall_mem_cons.mpr ⟨hc, htext⟩

end LineLexer.Json
