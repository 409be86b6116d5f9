import LineLexer.Json.Schema
import LineLexer.Proofs.Json.Records
/-!
Filling a draft from members.

A member with the key of a field gives the draft a value for this field, if it has none yet, and
every other member leaves the draft as it is.  So what is held of a field in the end depends on the
members with its key only: there is none of them, or a single one, and its value is held.  Neither
the order of the members nor the number of the others matters (`passes_iff_supplied`).
-/

namespace LineLexer.Json

/-- What is held of a field after some values of it have come: what was held before if there are
none, and otherwise what the only one is accepted as. -/
inductive Supplied {γ β : Type} (accepts : γ → β → Prop) : Option β → List γ → Option β → Prop
  | kept (held : Option β) : Supplied accepts held [] held
  | given {value : γ} {result : β} (haccepts : accepts value result) :
      Supplied accepts none [value] (some result)

theorem supplied_nil_iff {γ β : Type} {accepts : γ → β → Prop} {held result : Option β} :
    Supplied accepts held [] result ↔ held = result := by
  constructor
  · rintro ⟨⟩
    rfl
  · rintro rfl
    exact .kept held

theorem Supplied.length_le_one {γ β : Type} {accepts : γ → β → Prop} {held result : Option β}
    {values : List γ} (hsupplied : Supplied accepts held values result) : values.length ≤ 1 := by
  cases hsupplied with
  | kept => exact Nat.zero_le 1
  | given => exact Nat.le_refl 1

theorem Supplied.exists_of_mem {γ β : Type} {accepts : γ → β → Prop} {held result : Option β}
    {values : List γ} {value : γ} (hsupplied : Supplied accepts held values result)
    (hmem : value ∈ values) : ∃ found, accepts value found := by
  cases hsupplied with
  | kept => cases hmem
  | given haccepts =>
      rw [List.mem_singleton.mp hmem]
      exact ⟨_, haccepts⟩

namespace Schema

variable {γ : Type} {schema : Schema}

section Drafts

variable (draft : schema.Draft) {field other : schema.Field} (value : schema.Value field)

theorem Draft.hold_self : draft.hold field value field = some value := by
  simp [Draft.hold]

theorem Draft.hold_of_ne (hother : field ≠ other) : draft.hold field value other = draft other := by
  simp [Draft.hold, hother]

theorem field?_key (field : schema.Field) : schema.field? (schema.key field) = some field := by
  obtain ⟨found, hfound⟩ : ∃ found, schema.field? (schema.key field) = some found := by
    rw [← Option.isSome_iff_exists]
    exact List.find?_isSome.mpr ⟨field, schema.mem_fields field, by simp⟩
  have hkey : schema.key found = schema.key field := by simpa using List.find?_some hfound
  rw [hfound, schema.key_injective found field hkey]

theorem field?_eq_none_iff {key : String} :
    schema.field? key = none ↔ ∀ field, schema.key field ≠ key := by
  rw [field?, List.find?_eq_none]
  simp [schema.mem_fields]

end Drafts

/-- What one member does to a draft, where `accepts` says as what a value of a field is taken. -/
inductive Step (accepts : ∀ field, γ → schema.Value field → Prop) :
    String × γ → schema.Draft → schema.Draft → Prop
  | known {draft : schema.Draft} {given : γ} (field : schema.Field) {value : schema.Value field}
      (hfresh : draft field = none) (haccepts : accepts field given value) :
      Step accepts (schema.key field, given) draft (draft.hold field value)
  | ignored {draft : schema.Draft} {key : String} {given : γ}
      (hkey : ∀ field, schema.key field ≠ key) : Step accepts (key, given) draft draft

variable {accepts : ∀ field, γ → schema.Value field → Prop} {members : List (String × γ)}
  {draft last : schema.Draft}

theorem supplied_of_passes (hpasses : Passes (Step accepts) members draft last)
    (field : schema.Field) :
    Supplied (accepts field) (draft field) (valuesOf (schema.key field) members) (last field) := by
  induction hpasses with
  | nil draft => exact .kept _
  | @cons _ members _ _ last hstep _ ih =>
      cases hstep with
      | @known _ given taken value hfresh haccepts =>
          rw [valuesOf_cons]
          by_cases hfield : taken = field
          · subst hfield
            rw [Draft.hold_self] at ih
            rw [if_pos rfl, hfresh]
            generalize valuesOf (schema.key taken) members = values at ih ⊢
            generalize last taken = result at ih ⊢
            cases ih
            exact .given haccepts
          · rw [if_neg (mt (schema.key_injective taken field) hfield)]
            rwa [Draft.hold_of_ne _ value hfield] at ih
      | ignored hkey =>
          rw [valuesOf_cons, if_neg (Ne.symm (hkey field))]
          exact ih

theorem passes_of_supplied (hsupplied : ∀ field, Supplied (accepts field) (draft field)
    (valuesOf (schema.key field) members) (last field)) :
    Passes (Step accepts) members draft last := by
  induction members generalizing draft with
  | nil =>
      obtain rfl : draft = last := by
        funext field
        simpa only [valuesOf, List.filter_nil, List.map_nil, supplied_nil_iff] using hsupplied field
      exact .nil draft
  | cons member members ih =>
      obtain ⟨key, given⟩ := member
      cases hfound : schema.field? key with
      | none =>
          have hkey := field?_eq_none_iff.mp hfound
          refine .cons (.ignored hkey) (ih fun field => ?_)
          have hfield := hsupplied field
          rwa [valuesOf_cons, if_neg (Ne.symm (hkey field))] at hfield
      | some taken =>
          obtain rfl : schema.key taken = key := by simpa using List.find?_some hfound
          have htaken := hsupplied taken
          rw [valuesOf_cons, if_pos rfl] at htaken
          generalize hheld : draft taken = held at htaken
          generalize hvalues : valuesOf (schema.key taken) members = values at htaken
          generalize hresult : last taken = result at htaken
          cases htaken with
          | @given _ value haccepts =>
              refine .cons (.known taken hheld haccepts) (ih fun field => ?_)
              by_cases hfield : taken = field
              · subst hfield
                rw [Draft.hold_self, hvalues, hresult]
                exact .kept _
              · have hothers := hsupplied field
                rw [valuesOf_cons, if_neg (mt (schema.key_injective taken field) hfield)] at hothers
                rwa [Draft.hold_of_ne draft value hfield]

/-- Members fill a draft exactly if each field is supplied from the members with its key. -/
theorem passes_iff_supplied : Passes (Step accepts) members draft last ↔ ∀ field,
    Supplied (accepts field) (draft field) (valuesOf (schema.key field) members) (last field) :=
  ⟨supplied_of_passes, passes_of_supplied⟩

/-- Members that have been kept are gathered one after the other. -/
theorem gather_of_passes {judge : ∀ field, Json → Option (schema.Value field)}
    {members : List (String × Json)}
    (hpasses : Passes (Step fun field json value => judge field json = some value)
      members draft last) :
    schema.gather judge members draft = some last := by
  induction hpasses with
  | nil => rfl
  | cons hstep _ ih =>
      cases hstep with
      | known field hfresh haccepts =>
          simp only [gather, field?_key, hfresh, Option.isSome_none, haccepts, Option.bind_some]
          exact ih
      | ignored hkey =>
          simp only [gather, field?_eq_none_iff.mpr hkey]
          exact ih

end Schema

end LineLexer.Json
