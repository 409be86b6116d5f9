import LineLexer.Proofs.Json.Derived
import LineLexer.Proofs.Tokenized.Document
/-!
A diagnostic is read back from its JSON form.

The members of its position stand beside those of the diagnostic itself.  The three members of its
own are taken as they come and all others are kept until the end of the object; then the two of the
position are looked for among them.  So the five members may come in any order, with others in
between.

This holds of every library that reads records as documented, and of every printer that puts objects
into the compact layout.  The readers and the printer here are among them.
-/

namespace LineLexer

open Json

namespace Diagnostic

/-- What a library offers for reading diagnostics. -/
structure Library (ε : Type) where
  code : Reading ε Code
  severity : Reading ε Severity
  message : Reading ε String
  /-- A value that has been kept as a number of the position. -/
  number : Json → Option Nat
  diagnostic : Reading ε Diagnostic
  /-- A diagnostic from a text that holds nothing else. -/
  parse : String → Except ε Diagnostic

/-- The members of the JSON form of a diagnostic. -/
def members (diagnostic : Diagnostic) : List (String × Json) :=
  [("code", diagnostic.code.toJson), ("severity", diagnostic.severity.toJson),
    ("message", .string diagnostic.message), ("line", .ofNat diagnostic.position.line),
    ("column", .ofNat diagnostic.position.column)]

/-- What the members of an object say about a diagnostic. -/
structure SaidBy (members : List (String × Json)) (diagnostic : Diagnostic) : Prop where
  code : valuesOf "code" members = [diagnostic.code.toJson]
  severity : valuesOf "severity" members = [diagnostic.severity.toJson]
  message : valuesOf "message" members = [.string diagnostic.message]
  line : valuesOf "line" members = [.ofNat diagnostic.position.line]
  column : valuesOf "column" members = [.ofNat diagnostic.position.column]

section Members

variable {diagnostic : Diagnostic} {members others : List (String × Json)}

/-- The members of a diagnostic say it in any order and among others of other names. -/
theorem saidBy_of_perm (hperm : members.Perm (diagnostic.members ++ others))
    (hothers : ∀ other ∈ others, other.1 ∉ diagnostic.members.map Prod.fst) :
    SaidBy members diagnostic := by
  have honly {key : String} {value : Json} (hkey : key ∈ diagnostic.members.map Prod.fst)
      (hvalues : valuesOf key diagnostic.members = [value]) : valuesOf key members = [value] := by
    have hnone : valuesOf key others = [] :=
      valuesOf_eq_nil fun other hmem hsame => hothers other hmem (hsame ▸ hkey)
    have hmoved : (valuesOf key members).Perm (valuesOf key (diagnostic.members ++ others)) :=
      (hperm.filter _).map _
    rw [valuesOf_append, hnone, List.append_nil, hvalues] at hmoved
    exact List.perm_singleton.mp hmoved
  exact ⟨honly (by simp [Diagnostic.members]) rfl, honly (by simp [Diagnostic.members]) rfl,
    honly (by simp [Diagnostic.members]) rfl, honly (by simp [Diagnostic.members]) rfl,
    honly (by simp [Diagnostic.members]) rfl⟩

variable (hline : diagnostic.position.line < Position.bound)
  (hcolumn : diagnostic.position.column < Position.bound)

include hline hcolumn

theorem plain_members (room : Nat) : ∀ member ∈ diagnostic.members, Plain room member.2 := by
  have hcode : diagnostic.code.number.toNat < Nat.pow 2 64 :=
    Nat.lt_of_lt_of_le diagnostic.code.number.toNat_lt (by decide)
  simp only [Diagnostic.members, List.forall_mem_cons, List.not_mem_nil, false_imp_iff,
    implies_true, and_true]
  exact ⟨.natural hcode, .string, .string, .natural hline, .natural hcolumn⟩

end Members

section Documented

variable {ε : Type} (library : Library ε)

/-- How the own fields of a diagnostic are read. -/
def Library.fields : ∀ field, Reading ε (schema.Value field)
  | .code => library.code
  | .severity => library.severity
  | .message => library.message

/-- What is documented of the library: a code is read from its number, a severity from its name and
a string from its notation, a number of 64 bits is kept as it is, a diagnostic is read together with
its position, and a text as a whole is read like a value with white space around it. -/
structure Library.Documented : Prop where
  reads_code {n : Nat} {text : List Char} : n < Nat.pow 2 16 →
    SpellsScalar (.ofNat n) text → Reading.Reads library.code text ⟨.ofNat n⟩
  reads_severity {severity : Severity} {text : List Char} :
    SpellsScalar (.string severity.key) text → Reading.Reads library.severity text severity
  reads_message {message : String} {text : List Char} :
    SpellsScalar (.string message) text → Reading.Reads library.message text message
  number_ofNat {n : Nat} : n < Position.bound → library.number (.ofNat n) = some n
  flattened_diagnostic : schema.Flattened Position.schema library.fields
    (fun _ => library.number) ofDrafts? library.diagnostic
  parse_eq_of_reads {text : List Char} {source : String} {diagnostic : Diagnostic} :
    Padded text source → Reading.Reads library.diagnostic text diagnostic →
    library.parse source = .ok diagnostic

variable {library} (hlibrary : library.Documented) {diagnostic : Diagnostic}

include hlibrary

/-- The own members of a diagnostic fill its draft. -/
theorem Library.Documented.passes_own {members : List (String × Json)}
    (hsaid : SaidBy members diagnostic) : ∃ last,
      Passes (Schema.Step fun field json found =>
        ∀ text, Spells json text → Reading.Reads (library.fields field) text found) members
        schema.empty last ∧
      last .code = some diagnostic.code ∧ last .severity = some diagnostic.severity ∧
      last .message = some diagnostic.message := by
  let last : schema.Draft
    | .code => some diagnostic.code
    | .severity => some diagnostic.severity
    | .message => some diagnostic.message
  refine ⟨last, Schema.passes_iff_supplied.mpr fun field => ?_, rfl, rfl, rfl⟩
  cases field with
  | code =>
      have hnumber : (⟨.ofNat diagnostic.code.number.toNat⟩ : Code) = diagnostic.code := by
        rw [UInt16.ofNat_toNat]
      refine hsaid.code ▸ .given fun text htext => ?_
      cases htext with
      | scalar hscalar =>
          exact hnumber ▸ hlibrary.reads_code diagnostic.code.number.toNat_lt hscalar
  | severity =>
      refine hsaid.severity ▸ .given fun text htext => ?_
      cases htext with
      | scalar hscalar => exact hlibrary.reads_severity hscalar
  | message =>
      refine hsaid.message ▸ .given fun text htext => ?_
      cases htext with
      | scalar hscalar => exact hlibrary.reads_message hscalar

variable (hline : diagnostic.position.line < Position.bound)
  (hcolumn : diagnostic.position.column < Position.bound)

include hline hcolumn

/-- The members of the position fill its draft, wherever they stand among those that are kept. -/
theorem Library.Documented.passes_position {members : List (String × Json)}
    (hsaid : SaidBy members diagnostic) : ∃ rest,
      Passes (Schema.Step fun _ json found => library.number json = some found)
        (schema.others members) Position.schema.empty rest ∧
      Position.ofDraft? rest = some diagnostic.position := by
  let rest : Position.schema.Draft
    | .line => some diagnostic.position.line
    | .column => some diagnostic.position.column
  refine ⟨rest, Schema.passes_iff_supplied.mpr fun field => ?_, rfl⟩
  cases field with
  | line =>
      have hvalues : valuesOf "line" (schema.others members) = _ :=
        (Schema.valuesOf_others (fun field => by cases field <;> decide) members).trans hsaid.line
      exact hvalues ▸ .given (hlibrary.number_ofNat hline)
  | column =>
      have hvalues : valuesOf "column" (schema.others members) = _ :=
        (Schema.valuesOf_others (fun field => by cases field <;> decide) members).trans hsaid.column
      exact hvalues ▸ .given (hlibrary.number_ofNat hcolumn)

/-- An object whose members say a diagnostic is read as it. -/
theorem Library.Documented.reads_object {members : List (String × Json)} {text : List Char}
    (htext : Spells (.object members) text) (hsaid : SaidBy members diagnostic)
    (hplain : ∀ member ∈ members, Plain 99 member.2) :
    Reading.Reads library.diagnostic text diagnostic := by
  obtain ⟨last, hown, hcode, hseverity, hmessage⟩ := hlibrary.passes_own hsaid
  obtain ⟨rest, hinner, hposition⟩ := hlibrary.passes_position hline hcolumn hsaid
  refine hlibrary.flattened_diagnostic.reads htext ?_ hown hinner ?_
  · exact fun member hmem => hplain member (List.mem_of_mem_filter hmem)
  · simp only [ofDrafts?, hcode, hseverity, hmessage, hposition]

/-- A diagnostic is read back from its compact text.  It is read from every object with the same
members, too: they may come in any order, with any white space and escapes, and among others of
other names. -/
theorem parse_members {printer : Printer} (hfollows : printer.Follows .compact) :
    library.parse (String.ofList (diagnostic.print printer 0)) = .ok diagnostic ∧
      ∀ (others members : List (String × Json)) (text : String),
        (∀ other ∈ others, other.1 ∉ diagnostic.members.map Prod.fst ∧ Plain 99 other.2) →
        members.Perm (diagnostic.members ++ others) →
        SpellsText (.object members) text.toList → library.parse text = .ok diagnostic := by
  have hread (others members : List (String × Json)) (text : String)
      (hothers : ∀ other ∈ others, other.1 ∉ diagnostic.members.map Prod.fst ∧ Plain 99 other.2)
      (hperm : members.Perm (diagnostic.members ++ others))
      (htext : SpellsText (.object members) text.toList) :
      library.parse text = .ok diagnostic := by
    have hsaid := saidBy_of_perm hperm fun other hmem => (hothers other hmem).1
    have hplain : ∀ member ∈ members, Plain 99 member.2 := by
      intro member hmem
      rcases List.mem_append.mp (hperm.mem_iff.mp hmem) with hown | hother
      · exact plain_members hline hcolumn 99 member hown
      · exact (hothers member hother).2
    generalize hchars : text.toList = chars at htext
    obtain ⟨hbefore, hvalue, hafter⟩ := htext
    exact hlibrary.parse_eq_of_reads ⟨_, _, hbefore, hafter, hchars⟩
      (hlibrary.reads_object hline hcolumn hvalue hsaid hplain)
  refine ⟨hread [] diagnostic.members _ (by simp) (by simp) ?_, hread⟩
  have hfits : Fits 1 diagnostic.toJson := fits_toJson hline hcolumn
  rw [String.toList_ofList, print_eq hfollows 0 hline hcolumn]
  exact spellsText_write Layout.blank_compact hfits

end Documented

/-- The readers here as a library. -/
def library : Library Fault where
  code := Code.reader.read
  severity := Severity.reader.read
  message := Reader.string.read
  number := Position.number?
  diagnostic := reader.read
  parse := parse

theorem library_documented : library.Documented where
  reads_code {n _} hbound hscalar := by
    have hfits : Fits 0 (.ofNat n) := fits_ofNat (Nat.lt_of_lt_of_le hbound (by decide))
    exact (Reader.reads_natural hscalar hfits hbound).map
  reads_severity {severity _} hscalar :=
    Reader.reads_named hscalar (by cases severity <;> decide)
  reads_message hscalar := Reader.reads_string hscalar
  number_ofNat hbound := by simp [library, Position.number?, ofNat, Number.natural?, hbound]
  flattened_diagnostic := by
    have hfields : library.fields = fun field => (readers field).read := by
      funext field
      cases field <;> rfl
    have hroom : 99 ≤ 126 := by decide
    rw [hfields]
    exact Schema.flattened_record schema readers hroom (fun _ => Position.number?) ofDrafts?
  parse_eq_of_reads hpadded hreads := Reader.Reads.parse hpadded hreads

/-- The column comes first, another member stands between it and the line, and the line inside of
that member is not the one of the position. -/
theorem parse_members_scattered :
    let diagnostic : Diagnostic := ⟨⟨65535⟩, .warning, "é\"\t", ⟨3, 18446744073709551615⟩⟩
    library.Documented ∧ Layout.compact.printer.Follows .compact ∧
      diagnostic.position.line < Position.bound ∧ diagnostic.position.column < Position.bound ∧
      library.parse (String.ofList (diagnostic.print Layout.compact.printer 0)) = .ok diagnostic ∧
      library.parse ("\x7b\n  \"column\": 18446744073709551615,\n  \"x\": \x7b\n    \"line\": [" ++
        "\n      -9223372036854775808,\n      null\n    ]\n  \x7d,\n  \"line\": 3,\n" ++
        "  \"message\": \"é\\\"\\t\",\n  \"severity\": \"warning\",\n  \"code\": 65535\n\x7d") =
        .ok diagnostic := by
  intro diagnostic
  have hfollows : Layout.compact.printer.Follows .compact := Layout.compact.printer_follows
  have hline : diagnostic.position.line < Position.bound := by decide
  have hcolumn : diagnostic.position.column < Position.bound := by decide
  obtain ⟨hcompact, hread⟩ := parse_members library_documented hline hcolumn hfollows
  let extra : Json := .object [("line", .array
    [.number { negative := true, whole := 9223372036854775808 }, .null])]
  have hextra : Plain 99 extra := by
    refine .object (List.forall_mem_singleton.mpr (.array ?_))
    exact List.forall_mem_cons.mpr ⟨.negative (by decide), List.forall_mem_singleton.mpr .null⟩
  let scattered : List (String × Json) :=
    [("column", .ofNat 18446744073709551615)] ++ ("x", extra) :: [("line", .ofNat 3),
      ("message", .string "é\"\t"), ("severity", .string "warning"), ("code", .ofNat 65535)]
  refine ⟨library_documented, hfollows, hline, hcolumn, hcompact,
    hread [("x", extra)] scattered _ ?_ ?_ ?_⟩
  · exact List.forall_mem_singleton.mpr ⟨by decide, hextra⟩
  · have hreversed := (List.reverse_perm diagnostic.members).cons ("x", extra)
    exact (List.perm_middle.trans hreversed).trans (List.perm_append_singleton _ _).symm
  · have hscattered : Fits 100 (.object scattered) := by
      refine .object ?_
      simp only [scattered, List.forall_mem_cons, List.not_mem_nil, false_imp_iff,
        List.singleton_append, implies_true, and_true]
      exact ⟨fits_ofNat (by decide), hextra.fits, fits_ofNat (by decide), .string, .string,
        fits_ofNat (by decide)⟩
    refine Eq.mp (congrArg (SpellsText _) ?_) (spellsText_write Layout.blank_pretty hscattered)
    rw [String.toList_append, String.toList_append]
    decide +kernel

end Diagnostic

end LineLexer
