import LineLexer.Decoding
import LineLexer.Proofs.Json.RoundTrip
import LineLexer.Proofs.TokenList.Removal
/-!
The document of an output says everything about it.

A printer is told the number of tokens before the walk along them, and nothing is known of what it
prints if the number is wrong.  So the document depends on the size that a list keeps, which is the
number of its tokens however the list came about.  The document is then the text of a JSON value,
and that value can be read back from it.
-/

namespace LineLexer

namespace TokenList

/-- A list keeps the number of its tokens. -/
theorem Reached.size_eq {list : TokenList} (hlist : list.Reached) :
    list.size = list.texts.length := by
  obtain ⟨tape, htape⟩ := hlist.represents
  rw [htape.shows_tape.size_eq, texts, htape.shows_tape.entries_eq, List.length_map]

/-- The size that a list announces is right, so that its array is printed in the layout. -/
theorem Reached.print_eq {list : TokenList} (hlist : list.Reached) {printer : Json.Printer}
    {layout : Json.Layout} (hfollows : printer.Follows layout) (depth : Nat) :
    list.print printer depth = list.toJson.write layout depth := by
  have hstrings : list.texts.map printer.string =
      (list.texts.map Json.string).map (Json.write layout (depth + 1)) := by
    rw [List.map_map]
    exact List.map_congr_left fun text _ => hfollows.string_eq_write (depth + 1) text
  have harray := hfollows.array_eq_write depth (list.texts.map Json.string)
  rw [List.length_map] at harray
  rw [print, toJson, hlist.size_eq, hstrings, harray]

end TokenList

section Printed

variable {printer : Json.Printer} {layout : Json.Layout} (hfollows : printer.Follows layout)
  (depth : Nat)

include hfollows

theorem Diagnostic.print_eq {diagnostic : Diagnostic}
    (hline : diagnostic.position.line < Position.bound)
    (hcolumn : diagnostic.position.column < Position.bound) :
    diagnostic.print printer depth = diagnostic.toJson.write layout depth := by
  have hcode : diagnostic.code.number.toNat < Nat.pow 2 64 :=
    Nat.lt_of_lt_of_le diagnostic.code.number.toNat_lt (by decide)
  rw [print, Code.print, Severity.print, hfollows.number_eq_write (depth + 1) hcode,
    hfollows.string_eq_write (depth + 1), hfollows.string_eq_write (depth + 1),
    hfollows.number_eq_write (depth + 1) hline, hfollows.number_eq_write (depth + 1) hcolumn,
    toJson, ← hfollows.object_eq_write]
  rfl

theorem CommentCounts.print_eq {counts : CommentCounts} (hinline : counts.inline < Position.bound)
    (hblock : counts.block < Position.bound) :
    counts.print printer depth = counts.toJson.write layout depth := by
  rw [print, hfollows.number_eq_write (depth + 1) hinline,
    hfollows.number_eq_write (depth + 1) hblock, toJson, ← hfollows.object_eq_write]
  rfl

end Printed

namespace Tokenized

/-- The positions and counts of an output are numbers of 64 bits. -/
structure Bounded (tokenized : Tokenized) : Prop where
  line_lt : ∀ diagnostic ∈ tokenized.diagnostics, diagnostic.position.line < Position.bound
  column_lt : ∀ diagnostic ∈ tokenized.diagnostics, diagnostic.position.column < Position.bound
  inline_lt : tokenized.comments.inline < Position.bound
  block_lt : tokenized.comments.block < Position.bound

theorem print_eq {printer : Json.Printer} {layout : Json.Layout}
    (hfollows : printer.Follows layout) (depth : Nat) {tokenized : Tokenized}
    (hreached : tokenized.tokens.Reached) (hbounded : tokenized.Bounded) :
    tokenized.print printer depth = tokenized.toJson.write layout depth := by
  have hdiagnostics : tokenized.diagnostics.map (·.print printer (depth + 2)) =
      (tokenized.diagnostics.map Diagnostic.toJson).map (Json.write layout (depth + 2)) := by
    rw [List.map_map]
    exact List.map_congr_left fun diagnostic hmem => Diagnostic.print_eq hfollows (depth + 2)
      (hbounded.line_lt diagnostic hmem) (hbounded.column_lt diagnostic hmem)
  have harray := hfollows.array_eq_write (depth + 1) (tokenized.diagnostics.map Diagnostic.toJson)
  rw [List.length_map] at harray
  rw [print, hreached.print_eq hfollows, hdiagnostics, harray,
    CommentCounts.print_eq hfollows (depth + 1) hbounded.inline_lt hbounded.block_lt,
    toJson, ← hfollows.object_eq_write]
  rfl

theorem document_eq {printer : Json.Printer} (hfollows : printer.Follows .pretty)
    {tokenized : Tokenized} (hreached : tokenized.tokens.Reached)
    (hbounded : tokenized.Bounded) : tokenized.document printer = tokenized.toJson.pretty :=
  congrArg String.ofList (print_eq hfollows 0 hreached hbounded)

end Tokenized

theorem Diagnostic.fits_toJson {diagnostic : Diagnostic} {room : Nat}
    (hline : diagnostic.position.line < Position.bound)
    (hcolumn : diagnostic.position.column < Position.bound) :
    Json.Fits (room + 1) diagnostic.toJson := by
  have hcode : diagnostic.code.number.toNat < Nat.pow 2 64 :=
    Nat.lt_of_lt_of_le diagnostic.code.number.toNat_lt (by decide)
  refine .object ?_
  simp only [List.forall_mem_cons, List.not_mem_nil, false_imp_iff, implies_true, and_true]
  exact ⟨Json.fits_ofNat hcode, .string, .string, Json.fits_ofNat hline, Json.fits_ofNat hcolumn⟩

theorem CommentCounts.fits_toJson {counts : CommentCounts} {room : Nat}
    (hinline : counts.inline < Position.bound) (hblock : counts.block < Position.bound) :
    Json.Fits (room + 1) counts.toJson := by
  refine .object ?_
  simp only [List.forall_mem_cons, List.not_mem_nil, false_imp_iff, implies_true, and_true]
  exact ⟨Json.fits_ofNat hinline, Json.fits_ofNat hblock⟩

theorem TokenList.fits_toJson (list : TokenList) {room : Nat} :
    Json.Fits (room + 1) list.toJson := by
  refine .array fun item hitem => ?_
  obtain ⟨text, -, rfl⟩ := List.mem_map.mp hitem
  exact .string

theorem Tokenized.fits_toJson {tokenized : Tokenized} (hbounded : tokenized.Bounded)
    (room : Nat) : Json.Fits (room + 3) tokenized.toJson := by
  refine .object ?_
  simp only [List.forall_mem_cons, List.not_mem_nil, false_imp_iff, implies_true, and_true]
  refine ⟨tokenized.tokens.fits_toJson, .array fun item hitem => ?_,
    CommentCounts.fits_toJson hbounded.inline_lt hbounded.block_lt⟩
  obtain ⟨diagnostic, hmem, rfl⟩ := List.mem_map.mp hitem
  exact Diagnostic.fits_toJson (hbounded.line_lt _ hmem) (hbounded.column_lt _ hmem)

theorem Severity.eq_of_key_eq {severity other : Severity} (hkey : severity.key = other.key) :
    severity = other := by
  cases severity <;> cases other <;> first | rfl | exact absurd hkey (by decide)

theorem Diagnostic.eq_of_toJson_eq {diagnostic other : Diagnostic}
    (hjson : diagnostic.toJson = other.toJson) : diagnostic = other := by
  obtain ⟨⟨number⟩, severity, message, line, column⟩ := diagnostic
  obtain ⟨⟨number'⟩, severity', message', line', column'⟩ := other
  simp only [toJson, Code.toJson, Severity.toJson, Json.ofNat, Json.object.injEq, List.cons.injEq,
    Prod.mk.injEq, Json.number.injEq, Json.Number.mk.injEq, Json.string.injEq, true_and,
    and_true] at hjson
  obtain ⟨hnumber, hseverity, rfl, rfl, rfl⟩ := hjson
  rw [UInt16.toNat_inj.mp hnumber, Severity.eq_of_key_eq hseverity]

theorem CommentCounts.eq_of_toJson_eq {counts other : CommentCounts}
    (hjson : counts.toJson = other.toJson) : counts = other := by
  obtain ⟨inline, block⟩ := counts
  obtain ⟨inline', block'⟩ := other
  simp only [toJson, Json.ofNat, Json.object.injEq, List.cons.injEq, Prod.mk.injEq,
    Json.number.injEq, Json.Number.mk.injEq, true_and, and_true] at hjson
  rw [hjson.1, hjson.2]

namespace Tokenized

variable {tokenized other : Tokenized}

theorem eq_of_toJson_eq (hjson : tokenized.toJson = other.toJson) :
    tokenized.tokens.texts = other.tokens.texts ∧ tokenized.diagnostics = other.diagnostics ∧
      tokenized.comments = other.comments := by
  simp only [toJson, TokenList.toJson, Json.object.injEq, List.cons.injEq, Prod.mk.injEq,
    Json.array.injEq, true_and, and_true] at hjson
  obtain ⟨htexts, hdiagnostics, hcomments⟩ := hjson
  refine ⟨?_, ?_, CommentCounts.eq_of_toJson_eq hcomments⟩
  · exact List.map_inj_right (fun _ _ htext => Json.string.inj htext) |>.mp htexts
  · exact List.map_inj_right (fun _ _ => Diagnostic.eq_of_toJson_eq) |>.mp hdiagnostics

theorem parse_document_toJson {printer : Json.Printer} (hfollows : printer.Follows .pretty)
    (hreached : tokenized.tokens.Reached) (hbounded : tokenized.Bounded) :
    Json.parse (tokenized.document printer) = .ok tokenized.toJson := by
  rw [document_eq hfollows hreached hbounded]
  exact Json.parse_pretty (fits_toJson hbounded 124)

/-- Whatever printer the document of an output is made with, as long as it follows the layout with
every element on a line of its own, the document is the JSON text of the output.  It holds one value
and nothing else: an object of the texts of the tokens front to back, of the diagnostics in their
order, and of the two counts.  Outputs with the same document agree in all three. -/
theorem parse_document (printer : Json.Printer) (hfollows : printer.Follows .pretty)
    (tokenized : Tokenized) (hreached : tokenized.tokens.Reached) (hbounded : tokenized.Bounded) :
    tokenized.document printer = tokenized.toJson.pretty ∧
    Json.SpellsText tokenized.toJson (tokenized.document printer).toList ∧
    Json.parse (tokenized.document printer) = .ok (.object
      [("tokens", .array (tokenized.tokens.texts.map .string)),
        ("diagnostics", .array (tokenized.diagnostics.map fun diagnostic => .object
          [("code", .ofNat diagnostic.code.number.toNat),
            ("severity", .string diagnostic.severity.key),
            ("message", .string diagnostic.message),
            ("line", .ofNat diagnostic.position.line),
            ("column", .ofNat diagnostic.position.column)])),
        ("comments", .object [("inline", .ofNat tokenized.comments.inline),
          ("block", .ofNat tokenized.comments.block)])]) ∧
    ∀ other : Tokenized, other.tokens.Reached → other.Bounded →
      other.document printer = tokenized.document printer →
      other.tokens.texts = tokenized.tokens.texts ∧
        other.diagnostics = tokenized.diagnostics ∧ other.comments = tokenized.comments := by
  have hdocument := document_eq hfollows hreached hbounded
  refine ⟨hdocument, ?_, parse_document_toJson hfollows hreached hbounded, ?_⟩
  · rw [hdocument, Json.pretty, String.toList_ofList]
    exact Json.spellsText_write Json.Layout.blank_pretty (fits_toJson hbounded 0)
  · intro other hother hotherBounded hsame
    have hparse := parse_document_toJson hfollows hother hotherBounded
    rw [hsame, parse_document_toJson hfollows hreached hbounded, Except.ok.injEq] at hparse
    exact eq_of_toJson_eq hparse.symm

/-- The tokens that are left of a list after a comment and another token have been removed. -/
theorem parse_document_removed :
    let grown := ((TokenList.empty 0).perform
      (.extend ["\"a\\b\"", "//", "note", "\n", "é\x01", ""])).2
    let tokens := ((grown.removeComments [.inline, .block]).2.perform (.erase ⟨0, 3, 0⟩)).2
    let tokenized : Tokenized :=
      { tokens, diagnostics := [⟨⟨203⟩, .error, "left\topen", ⟨3, 1⟩⟩], comments := ⟨1, 0⟩ }
    Json.Layout.pretty.printer.Follows .pretty ∧ tokens.Reached ∧ tokenized.Bounded ∧
    tokens.texts = ["\"a\\b\"", "é\x01", ""] ∧
    Json.parse (tokenized.document Json.Layout.pretty.printer) = .ok (.object
      [("tokens", .array [.string "\"a\\b\"", .string "é\x01", .string ""]),
        ("diagnostics", .array [.object [("code", .ofNat 203), ("severity", .string "error"),
          ("message", .string "left\topen"), ("line", .ofNat 3), ("column", .ofNat 1)]]),
        ("comments", .object [("inline", .ofNat 1), ("block", .ofNat 0)])]) := by
  intro grown tokens tokenized
  have hreached : tokens.Reached :=
    (((TokenList.Reached.empty 0).perform _).removeComments _).perform _
  have htexts : tokens.texts = ["\"a\\b\"", "é\x01", ""] := by decide +kernel
  clear_value tokens
  have hbounded : tokenized.Bounded := by
    constructor <;> simp [tokenized, Position.bound]
  have hfollows := Json.Layout.pretty.printer_follows
  have hparse := (parse_document _ hfollows tokenized hreached hbounded).2.2.1
  rw [htexts] at hparse
  exact ⟨hfollows, hreached, hbounded, htexts, hparse⟩

end Tokenized

end LineLexer
