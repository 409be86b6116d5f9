import LineLexer.Json.Reader
/-!
Records by their fields.

A record type is declared by its fields, each with a key and a type of values.  While an object is
read, a draft holds what has come of each field so far.  A member whose key is that of a field is
read as a value of the field, and only once.  Members of other names are skipped, or else they are
kept for another record that stands in the same object.
-/

namespace LineLexer.Json

/-- The fields of a record type.  No two of them have one key. -/
structure Schema where
  Field : Type
  /-- The fields in the order of their declaration. -/
  fields : List Field
  key : Field → String
  Value : Field → Type
  mem_fields : ∀ field, field ∈ fields
  key_injective : ∀ field other, key field = key other → field = other

namespace Schema

variable {α : Type} (schema : Schema)

/-- What has been read of a record. -/
abbrev Draft : Type :=
  ∀ field, Option (schema.Value field)

/-- Nothing has been read of a record. -/
def empty : schema.Draft :=
  fun _ => none

instance : DecidableEq schema.Field :=
  fun field other =>
    decidable_of_iff (schema.key field = schema.key other)
      ⟨schema.key_injective field other, congrArg schema.key⟩

variable {schema} in
/-- A draft with a value of one more field. -/
def Draft.hold (draft : schema.Draft) (field : schema.Field) (value : schema.Value field) :
    schema.Draft :=
  fun other => if hsame : field = other then some (hsame ▸ value) else draft other

/-- The field with a key. -/
def field? (key : String) : Option schema.Field :=
  schema.fields.find? (schema.key · == key)

/-- A record that is read by its fields and skips all other members. -/
def record (readers : ∀ field, Reader (schema.Value field)) (finish : schema.Draft → Option α) :
    Record schema.Draft α where
  start := schema.empty
  member key draft :=
    match schema.field? key with
    | some field => ((readers field).once (draft field)).map (draft.hold field)
    | none => Reader.skipMember.map fun _ => draft
  items := schema.fields.map fun field draft => (readers field).map (draft.hold field)
  finish

/-- A record that is read by its fields and keeps all other members, whose values have at most
`room` containers open at a time. -/
def recordWithOthers (readers : ∀ field, Reader (schema.Value field)) (room : Nat)
    (finish : schema.Draft → List (String × Json) → Option α) :
    Record (schema.Draft × List (String × Json)) α where
  start := (schema.empty, [])
  member key state :=
    match schema.field? key with
    | some field =>
        ((readers field).once (state.1 field)).map fun value => (state.1.hold field value, state.2)
    | none =>
        (Reader.mark ':').bind fun _ =>
          (Reader.value (.strict room)).map fun value => (state.1, state.2 ++ [(key, value)])
  items := []
  finish state := finish state.1 state.2

/-- What is read of a record from members that have been kept. -/
def gather (judge : ∀ field, Json → Option (schema.Value field)) :
    List (String × Json) → schema.Draft → Option schema.Draft
  | [], draft => some draft
  | (key, json) :: members, draft =>
      match schema.field? key with
      | some field =>
          if (draft field).isSome then none
          else (judge field json).bind fun value => gather judge members (draft.hold field value)
      | none => gather judge members draft

end Schema

end LineLexer.Json
