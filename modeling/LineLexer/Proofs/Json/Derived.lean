import LineLexer.Proofs.Json.Fields
import LineLexer.Proofs.Json.RoundTrip
/-!
What is relied on of a library that reads records from objects.

Such a library is told the fields of a record, how to read a value of each, and what a draft stands
for in the end.  Two rules are documented of it.  By the first one a record takes each member of an
object whose key is that of a field, once, and ignores all others (`Schema.Derived`).  By the second
one two records stand in one object, and the inner one is read from the members that are not the
outer one's own (`Schema.Flattened`).  They are stated member by member, in the order of the text;
that the order does not matter is no part of them.

The readers here keep to both rules, so the rules can be kept.
-/

namespace LineLexer.Json

/-- The values that are built from strings, truth values, null and integers of 64 bits by containers
that are nested at most `room` deep. -/
inductive Plain : Nat → Json → Prop
  | null {room : Nat} : Plain room .null
  | bool {room : Nat} {value : Bool} : Plain room (.bool value)
  | natural {room n : Nat} (hbound : n < Nat.pow 2 64) : Plain room (.ofNat n)
  | negative {room n : Nat} (hbound : n ≤ Nat.pow 2 63) :
      Plain room (.number { negative := true, whole := n })
  | string {room : Nat} {text : String} : Plain room (.string text)
  | array {room : Nat} {items : List Json} (hitems : ∀ item ∈ items, Plain room item) :
      Plain (room + 1) (.array items)
  | object {room : Nat} {members : List (String × Json)}
      (hmembers : ∀ member ∈ members, Plain room member.2) : Plain (room + 1) (.object members)

/-- Integers of 64 bits are finite in double precision, whatever their sign. -/
theorem Plain.fits {room : Nat} {value : Json} (hplain : Plain room value) : Fits room value := by
  induction hplain with
  | null => exact .null
  | bool => exact .bool
  | natural hbound => exact fits_ofNat hbound
  | @negative _ n hbound =>
      have hsign : ({ negative := true, whole := n } : Number).isHuge =
        ({ whole := n } : Number).isHuge := rfl
      have hsmall : n < Nat.pow 2 64 := Nat.lt_of_le_of_lt hbound (by decide)
      exact .number (fun _ hc => by cases hc) (hsign.trans (isHuge_natural hsmall))
  | string => exact .string
  | array _ ih => exact .array ih
  | object _ ih => exact .object ih

namespace Schema

variable {ε α : Type}

/-- A record that is read by its fields.  An object is read if its members can be taken one after
the other, and it is accepted only if they can. -/
structure Derived (schema : Schema) (fields : ∀ field, Reading ε (schema.Value field))
    (finish : schema.Draft → Option α) (read : Reading ε α) : Prop where
  reads {entries : List (String × List Char)} {text : List Char} {last : schema.Draft} {value : α} :
    SpellsObject entries text →
    Passes (Step fun field => Reading.Reads (fields field)) entries schema.empty last →
    finish last = some value → Reading.Reads read text value
  passes {entries : List (String × List Char)} {text : List Char} {value : α} :
    SpellsObject entries text → Reading.Admits read text value →
    ∃ last, Passes (Step fun field => Reading.Admits (fields field)) entries schema.empty last

namespace Derived

variable {schema : Schema} {fields : ∀ field, Reading ε (schema.Value field)}
  {finish : schema.Draft → Option α} {read : Reading ε α}
  (hderived : schema.Derived fields finish read) {entries : List (String × List Char)}
  {text : List Char} {value : α} (hobject : SpellsObject entries text)

include hderived hobject

/-- An object is read if each field is supplied from the members with its key. -/
theorem reads_of_supplied {last : schema.Draft}
    (hsupplied : ∀ field, Supplied (Reading.Reads (fields field)) none
      (valuesOf (schema.key field) entries) (last field))
    (hfinish : finish last = some value) : Reading.Reads read text value :=
  hderived.reads hobject (passes_iff_supplied.mpr hsupplied) hfinish

theorem supplied_of_admits (hadmits : Reading.Admits read text value) :
    ∃ last : schema.Draft, ∀ field, Supplied (Reading.Admits (fields field)) none
      (valuesOf (schema.key field) entries) (last field) := by
  obtain ⟨last, hpasses⟩ := hderived.passes hobject hadmits
  exact ⟨last, passes_iff_supplied.mp hpasses⟩

end Derived

/-- The members that are not a record's own. -/
def others (schema : Schema) (members : List (String × Json)) : List (String × Json) :=
  members.filter fun member => (schema.field? member.1).isNone

/-- A record that is read by its own fields and together with an inner one.  The other members are
kept, if they are plain, and the inner record is read from what has been kept. -/
structure Flattened (own inner : Schema) (fields : ∀ field, Reading ε (own.Value field))
    (judge : ∀ field, Json → Option (inner.Value field))
    (finish : own.Draft → inner.Draft → Option α) (read : Reading ε α) : Prop where
  reads {members : List (String × Json)} {text : List Char} {last : own.Draft} {rest : inner.Draft}
    {value : α} : Spells (.object members) text →
    (∀ member ∈ own.others members, Plain 99 member.2) →
    Passes (Step fun field json found =>
      ∀ text, Spells json text → Reading.Reads (fields field) text found) members own.empty last →
    Passes (Step fun field json found => judge field json = some found) (own.others members)
      inner.empty rest →
    finish last rest = some value → Reading.Reads read text value

/-- No value of another key is lost. -/
theorem valuesOf_others {schema : Schema} {key : String} (hkey : ∀ field, schema.key field ≠ key)
    (members : List (String × Json)) : valuesOf key (schema.others members) =
      valuesOf key members := by
  rw [valuesOf, others, List.filter_filter, valuesOf]
  congr 1
  apply List.filter_congr
  intro member _
  by_cases hmember : member.1 = key <;> simp [hmember, field?_eq_none_iff.mpr hkey]

section Readers

variable (schema : Schema) (readers : ∀ field, Reader (schema.Value field))

section Skipping

variable (finish : schema.Draft → Option α)

theorem record_member_key (field : schema.Field) (draft : schema.Draft) :
    (schema.record readers finish).member (schema.key field) draft =
      ((readers field).once (draft field)).map (draft.hold field) := by
  simp only [record, field?_key]

theorem record_member_other {key : String} (hkey : ∀ field, schema.key field ≠ key)
    (draft : schema.Draft) : (schema.record readers finish).member key draft =
      Reader.skipMember.map fun _ => draft := by
  simp only [record, field?_eq_none_iff.mpr hkey]

/-- A key is that of a field or of none. -/
theorem key_cases (key : String) :
    (∃ field, schema.key field = key) ∨ ∀ field, schema.key field ≠ key := by
  rw [← not_exists]
  exact Classical.em _

variable {schema readers} (hexact : ∀ field text, Shaped text → (readers field).Exact text)

include hexact

theorem exact_record_member {before text : List Char} (hbefore : Gap before) (htext : Shaped text)
    (key : String) (draft : schema.Draft) :
    ((schema.record readers finish).member key draft).Exact (valuePart before text) := by
  rcases schema.key_cases key with ⟨field, rfl⟩ | hkey
  · rw [record_member_key]
    exact (hexact field text htext).once hbefore (draft field)
  · rw [record_member_other _ _ _ hkey]
    exact (Reader.reads_skipMember hbefore htext).exact.map

/-- Records of fields that are read to their ends are read to their ends. -/
theorem exact_record {text : List Char} (htext : Shaped text) :
    (schema.record readers finish).ofContainer.Exact text := by
  refine Record.exact_ofContainer _ ?_ ?_ htext
  · intro key draft before text hbefore hshaped
    exact exact_record_member finish hexact hbefore hshaped key draft
  · intro item hitem draft text hshaped
    obtain ⟨field, -, rfl⟩ := List.mem_map.mp hitem
    exact (hexact field text hshaped).map

/-- A record that is read by its fields here keeps to the rule. -/
theorem derived_record : schema.Derived (fun field => (readers field).read) finish
    (schema.record readers finish).ofContainer.read where
  reads := by
    intro entries text last value hobject hpasses hfinish
    obtain ⟨hbody⟩ := hobject
    refine (Record.reads_object _ hbody (hpasses.mono ?_) hfinish).2
    intro member draft next hstep before text hbefore hspells
    obtain ⟨rfl, htext⟩ := hspells
    cases hstep with
    | known field hfresh haccepts =>
        rw [record_member_key]
        exact Reader.Reads.once hbefore haccepts hfresh rfl
    | ignored hkey =>
        rw [record_member_other _ _ _ hkey]
        exact (Reader.reads_skipMember hbefore htext).map
  passes := by
    intro entries text value hobject hadmits
    obtain ⟨hbody⟩ := hobject
    have hmember : ∀ key entry draft before text, (key, entry) ∈ entries → Gap before →
        ShapedAs entry text →
        ((schema.record readers finish).member key draft).Exact (valuePart before text) :=
      fun key _ draft _ _ _ hbefore htext =>
        exact_record_member finish hexact hbefore (htext.1 ▸ htext.2) key draft
    obtain ⟨last, hpasses⟩ := Record.passes_of_admits _ hbody hmember hadmits
    refine ⟨last, hpasses.mono ?_⟩
    rintro ⟨key, entry⟩ draft next ⟨before, text, hbefore, ⟨rfl, -⟩, hadmitted⟩
    rcases schema.key_cases key with ⟨field, rfl⟩ | hkey
    · rw [record_member_key] at hadmitted
      obtain ⟨hfresh, found, hfound, rfl⟩ := hadmitted.of_once
      exact .known field hfresh (hfound.of_afterColon hbefore)
    · rw [record_member_other _ _ _ hkey] at hadmitted
      obtain ⟨-, -, rfl⟩ := hadmitted.of_map
      exact .ignored hkey

end Skipping

section Keeping

theorem others_cons_key (field : schema.Field) (json : Json) (members : List (String × Json)) :
    schema.others ((schema.key field, json) :: members) = schema.others members := by
  simp [others, field?_key]

theorem others_cons_other {key : String} (hkey : ∀ field, schema.key field ≠ key) (json : Json)
    (members : List (String × Json)) :
    schema.others ((key, json) :: members) = (key, json) :: schema.others members := by
  simp [others, field?_eq_none_iff.mpr hkey]

variable {room : Nat} (hroom : 99 ≤ room)

include hroom

/-- While its own members fill the draft of a record, the others are kept in their order. -/
theorem passes_recordWithOthers (finish : schema.Draft → List (String × Json) → Option α)
    {members : List (String × Json)} {draft last : schema.Draft}
    (hplain : ∀ member ∈ schema.others members, Plain 99 member.2)
    (hpasses : Passes (Step fun field json found =>
      ∀ text, Spells json text → (readers field).Reads text found) members draft last)
    (kept : List (String × Json)) :
    Passes ((schema.recordWithOthers readers room finish).Reads Spells) members (draft, kept)
      (last, kept ++ schema.others members) := by
  induction hpasses generalizing kept with
  | nil draft =>
      rw [others, List.filter_nil, List.append_nil]
      exact .nil _
  | @cons _ members _ _ _ hstep _ ih =>
      cases hstep with
      | known field hfresh haccepts =>
          rw [others_cons_key] at hplain ⊢
          refine .cons (fun before text hbefore htext => ?_) (ih hplain kept)
          simp only [recordWithOthers, field?_key]
          exact (haccepts text htext).once hbefore hfresh rfl
      | @ignored _ key json hkey =>
          rw [others_cons_other schema hkey, List.forall_mem_cons] at hplain
          obtain ⟨hjson, hothers⟩ := hplain
          have hlater := ih hothers (kept ++ [(key, json)])
          rw [others_cons_other schema hkey, List.append_cons]
          refine .cons (fun before text hbefore htext => ?_) hlater
          simp only [recordWithOthers, field?_eq_none_iff.mpr hkey]
          exact (Reader.reads_value htext hjson.fits hroom).map.afterColon hbefore

/-- A record that is read here together with an inner one keeps to the rule. -/
theorem flattened_record {inner : Schema} (judge : ∀ field, Json → Option (inner.Value field))
    (finish : schema.Draft → inner.Draft → Option α) :
    schema.Flattened inner (fun field => (readers field).read) judge finish
      (schema.recordWithOthers readers room fun draft members =>
        (inner.gather judge members inner.empty).bind (finish draft)).ofObject.read where
  reads := by
    intro members text last rest value htext hplain hpasses hinner hfinish
    obtain ⟨body, rfl, hbody⟩ := htext.body
    have hkept := passes_recordWithOthers schema readers hroom (fun draft members =>
      (inner.gather judge members inner.empty).bind (finish draft)) hplain hpasses []
    refine (Record.reads_object _ hbody hkept ?_).1
    simp only [recordWithOthers, List.nil_append, gather_of_passes hinner, Option.bind_some,
      hfinish]

end Keeping

end Readers

end Schema

end LineLexer.Json
