import LineLexer.Encoding
import LineLexer.Json.Schema
/-!
Reading the library's types from their JSON forms.

A member that must not be missing has no default; of the switches every one may be missing.
Members of other names are ignored, whatever their values.  The members of a diagnostic that
are not its own are read before its position is looked for among them, so that a fault of the
text comes before a fault of the position.

The fields of the types are declared apart from the readers: how texts are read by them is a
matter of a library, and the readers here are one.
-/

namespace LineLexer

open Json

/-- The severity of a name. -/
def Severity.ofKey? (key : String) : Option Severity :=
  [Severity.error, .warning].find? (·.key == key)

/-- The construct of a name. -/
def Construct.ofKey? (key : String) : Option Construct :=
  Construct.all.find? (·.key == key)

def Severity.reader : Reader Severity :=
  .named Severity.ofKey?

def Construct.reader : Reader Construct :=
  .named Construct.ofKey?

def Code.reader : Reader Code :=
  (Reader.natural (Nat.pow 2 16)).map fun number => ⟨.ofNat number⟩

/-- The fields of a configuration. -/
inductive Config.Field where
  | emitLineTerminator
  | reportUnterminated

def Config.schema : Schema where
  Field := Config.Field
  fields := [.emitLineTerminator, .reportUnterminated]
  key
    | .emitLineTerminator => "emit_line_terminator"
    | .reportUnterminated => "report_unterminated"
  Value _ := Bool
  mem_fields field := by cases field <;> simp
  key_injective field other := by cases field <;> cases other <;> simp

/-- The defaults stand for what is missing. -/
def Config.ofDraft (draft : schema.Draft) : Config where
  emitLineTerminator := (draft Field.emitLineTerminator).getD ({} : Config).emitLineTerminator
  reportUnterminated := (draft Field.reportUnterminated).getD ({} : Config).reportUnterminated

def Config.record : Record schema.Draft Config :=
  schema.record (fun _ => Reader.bool) fun draft => some (ofDraft draft)

def Config.reader : Reader Config :=
  Config.record.ofContainer

/-- The fields of options. -/
inductive Options.Field where
  | tokenizer
  | stripComments

def Options.schema : Schema where
  Field := Options.Field
  fields := [.tokenizer, .stripComments]
  key
    | .tokenizer => "tokenizer"
    | .stripComments => "strip_comments"
  Value
    | .tokenizer => Config
    | .stripComments => Bool
  mem_fields field := by cases field <;> simp
  key_injective field other := by cases field <;> cases other <;> simp

/-- The defaults stand for what is missing. -/
def Options.ofDraft (draft : schema.Draft) : Options where
  tokenizer := (draft Field.tokenizer).getD ({} : Options).tokenizer
  stripComments := (draft Field.stripComments).getD ({} : Options).stripComments

/-- The readers of the fields of options. -/
def Options.readers : ∀ field, Reader (schema.Value field)
  | .tokenizer => Config.reader
  | .stripComments => Reader.bool

def Options.record : Record schema.Draft Options :=
  schema.record readers fun draft => some (ofDraft draft)

def Options.reader : Reader Options :=
  Options.record.ofContainer

/-- The fields of a position. -/
inductive Position.Field where
  | line
  | column

def Position.schema : Schema where
  Field := Position.Field
  fields := [.line, .column]
  key
    | .line => "line"
    | .column => "column"
  Value _ := Nat
  mem_fields field := by cases field <;> simp
  key_injective field other := by cases field <;> cases other <;> simp

/-- A position lacks neither of its numbers. -/
def Position.ofDraft? (draft : schema.Draft) : Option Position :=
  match draft Field.line, draft Field.column with
  | some line, some column => some ⟨line, column⟩
  | _, _ => none

def Position.record : Record schema.Draft Position :=
  schema.record (fun _ => Reader.natural bound) ofDraft?

def Position.reader : Reader Position :=
  Position.record.ofContainer

/-- A number of a position among the values that have been kept. -/
def Position.number? : Json → Option Nat
  | .number n => n.natural?.filter (· < bound)
  | _ => none

/-- The fields of a diagnostic, apart from those of its position. -/
inductive Diagnostic.Field where
  | code
  | severity
  | message

def Diagnostic.schema : Schema where
  Field := Diagnostic.Field
  fields := [.code, .severity, .message]
  key
    | .code => "code"
    | .severity => "severity"
    | .message => "message"
  Value
    | .code => Code
    | .severity => Severity
    | .message => String
  mem_fields field := by cases field <;> simp
  key_injective field other := by cases field <;> cases other <;> simp

/-- A diagnostic lacks none of its fields, nor any of its position. -/
def Diagnostic.ofDrafts? (draft : schema.Draft) (inner : Position.schema.Draft) :
    Option Diagnostic :=
  match draft Field.code, draft Field.severity, draft Field.message, Position.ofDraft? inner with
  | some code, some severity, some message, some position =>
      some ⟨code, severity, message, position⟩
  | _, _, _, _ => none

/-- The readers of the fields of a diagnostic. -/
def Diagnostic.readers : ∀ field, Reader (schema.Value field)
  | .code => Code.reader
  | .severity => Severity.reader
  | .message => Reader.string

/-- The other members of a diagnostic stand inside its own brackets, so they may be nested
one level less deep than a text of their own. -/
def Diagnostic.record : Record (schema.Draft × List (String × Json)) Diagnostic :=
  schema.recordWithOthers readers 126 fun draft others =>
    (Position.schema.gather (fun _ => Position.number?) others Position.schema.empty).bind
      (ofDrafts? draft)

def Diagnostic.reader : Reader Diagnostic :=
  Diagnostic.record.ofObject

/-- What a message about a text without options in it starts with. -/
def Options.refusal : String :=
  "invalid pipeline options: "

/-- The fault of a text without options in it. -/
structure Options.Invalid (ε : Type) where
  fault : ε

/-- The message about the fault, which is itself described by those who have found it. -/
def Options.Invalid.text {ε : Type} (invalid : Options.Invalid ε) (describe : ε → String) :
    String :=
  refusal ++ describe invalid.fault

/-- Options from a text, for a way to parse them. -/
def Options.fromJson {ε : Type} (parse : String → Except ε Options) (text : String) :
    Except (Options.Invalid ε) Options :=
  (parse text).mapError Options.Invalid.mk

/-- Options from a text. -/
def Options.parse (text : String) : Except Fault Options :=
  Options.reader.parse text

/-- A configuration from a text. -/
def Config.parse (text : String) : Except Fault Config :=
  Config.reader.parse text

/-- A position from a text. -/
def Position.parse (text : String) : Except Fault Position :=
  Position.reader.parse text

/-- A construct from a text. -/
def Construct.parse (text : String) : Except Fault Construct :=
  Construct.reader.parse text

/-- A severity from a text. -/
def Severity.parse (text : String) : Except Fault Severity :=
  Severity.reader.parse text

/-- A code from a text. -/
def Code.parse (text : String) : Except Fault Code :=
  Code.reader.parse text

/-- A diagnostic from a text. -/
def Diagnostic.parse (text : String) : Except Fault Diagnostic :=
  Diagnostic.reader.parse text

end LineLexer
