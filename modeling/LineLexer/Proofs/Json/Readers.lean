import LineLexer.Proofs.Json.Shape
/-!
What readings of one type do with the text of a value.

White space may stand before a value, and what follows it does not go on with its digits.  In all
such places a reading that accepts a text reads it to its end.  This is stated three times: the text
is read everywhere (`Reads`), it is read somewhere (`Admits`), and whatever is read ends where the
text ends (`Exact`).  The readers that are put together from others inherit all three.
-/

namespace LineLexer.Json

/-- The text of a member from its colon on. -/
def valuePart (before text : List Char) : List Char :=
  ':' :: (before ++ text)

/-- The source holds the text and white space around it. -/
def Padded (text : List Char) (source : String) : Prop :=
  ∃ before after, Gap before ∧ Gap after ∧ source.toList = before ++ (text ++ after)

/-- A way to read values from the front of texts.  A value comes with what follows its text. -/
abbrev Reading (ε α : Type) : Type :=
  List Char → Except ε (α × List Char)

namespace Reading

variable {ε α : Type} (read : Reading ε α) (text : List Char) (value : α)

/-- The text is read as the value wherever it stands. -/
def Reads : Prop :=
  ∀ before rest, Gap before → Avoids numberMarks rest →
    read (before ++ (text ++ rest)) = .ok (value, rest)

/-- The text is read as the value somewhere. -/
def Admits : Prop :=
  ∃ before rest, Gap before ∧ Avoids numberMarks rest ∧
    read (before ++ (text ++ rest)) = .ok (value, rest)

end Reading

namespace Reader

variable {α β γ : Type}

def Reads (reader : Reader α) (text : List Char) (value : α) : Prop :=
  Reading.Reads reader.read text value

def Admits (reader : Reader α) (text : List Char) (value : α) : Prop :=
  Reading.Admits reader.read text value

/-- What is read where the text stands, if anything is, ends with the text. -/
def Exact (reader : Reader α) (text : List Char) : Prop :=
  ∀ before rest value later, Gap before → Avoids numberMarks rest →
    reader.read (before ++ (text ++ rest)) = .ok (value, later) → later = rest

variable {reader : Reader α} {text before : List Char} {value : α}

theorem Reads.exact (hreads : reader.Reads text value) : reader.Exact text := by
  intro before rest other later hbefore hrest hread
  rw [hreads before rest hbefore hrest] at hread
  cases hread
  rfl

/-- A loop that ends has taken a first step. -/
theorem of_iterate {σ : Type} {step : σ → Reader (σ ⊕ α)} {state : σ} {later : List Char}
    (hread : iterate step state text = .ok (value, later)) :
    ∃ next rest, (step state).read text = .ok (next, rest) ∧
      proceed step next rest = .ok (value, later) := by
  rw [iterate] at hread
  split at hread
  · rename_i next rest hstep
    exact ⟨.inl next, rest, hstep, hread⟩
  · rename_i found rest hstep
    exact ⟨.inr found, rest, hstep, hread⟩
  · cases hread

section Map

variable {f : α → β}

theorem Reads.map (hreads : reader.Reads text value) : (reader.map f).Reads text (f value) := by
  intro before rest hbefore hrest
  simp only [Reader.map, hreads before rest hbefore hrest, mapValue]

theorem Exact.map (hexact : reader.Exact text) : (reader.map f).Exact text := by
  intro before rest _ later hbefore hrest hread
  obtain ⟨value, hvalue, -⟩ := mapValue_eq_ok_iff.mp hread
  exact hexact before rest value later hbefore hrest hvalue

theorem Admits.of_map {result : β} (hadmits : (reader.map f).Admits text result) :
    ∃ value, reader.Admits text value ∧ f value = result := by
  obtain ⟨before, rest, hbefore, hrest, hread⟩ := hadmits
  obtain ⟨value, hvalue, hresult⟩ := mapValue_eq_ok_iff.mp hread
  exact ⟨value, ⟨before, rest, hbefore, hrest, hvalue⟩, hresult⟩

end Map

section FilterMap

variable {f : α → Option β} {kept : β} {rest : List Char}

theorem read_filterMap_eq_ok_iff : (reader.filterMap f).read text = .ok (kept, rest) ↔
    ∃ value, reader.read text = .ok (value, rest) ∧ f value = some kept := by
  simp only [filterMap]
  constructor
  · intro hread
    split at hread
    · rename_i value later hvalue
      split at hread
      · rename_i found hfound
        cases hread
        exact ⟨value, hvalue, hfound⟩
      · cases hread
    · cases hread
  · rintro ⟨value, hvalue, hkept⟩
    simp only [hvalue, hkept]

theorem Reads.filterMap (hreads : reader.Reads text value) (hkept : f value = some kept) :
    (reader.filterMap f).Reads text kept :=
  fun before rest hbefore hrest =>
    read_filterMap_eq_ok_iff.mpr ⟨value, hreads before rest hbefore hrest, hkept⟩

end FilterMap

section Member

theorem read_mark_bind {gap rest : List Char} (hgap : Gap gap) :
    ((mark ':').bind fun _ => reader).read (gap ++ (valuePart before text ++ rest)) =
      reader.read (before ++ (text ++ rest)) := by
  have hmark : (mark ':').read (gap ++ ':' :: (before ++ (text ++ rest))) =
      .ok ((), before ++ (text ++ rest)) := read_mark hgap (by decide)
  rw [valuePart, List.cons_append, List.append_assoc]
  simp only [bind, hmark]

variable (hbefore : Gap before)

include hbefore

theorem Reads.afterColon (hreads : reader.Reads text value) :
    ((mark ':').bind fun _ => reader).Reads (valuePart before text) value := by
  intro gap rest hgap hrest
  rw [read_mark_bind hgap]
  exact hreads before rest hbefore hrest

theorem Exact.afterColon (hexact : reader.Exact text) :
    ((mark ':').bind fun _ => reader).Exact (valuePart before text) := by
  intro gap rest value later hgap hrest hread
  rw [read_mark_bind hgap] at hread
  exact hexact before rest value later hbefore hrest hread

theorem Admits.of_afterColon
    (hadmits : ((mark ':').bind fun _ => reader).Admits (valuePart before text) value) :
    reader.Admits text value := by
  obtain ⟨gap, rest, hgap, hrest, hread⟩ := hadmits
  rw [read_mark_bind hgap] at hread
  exact ⟨before, rest, hbefore, hrest, hread⟩

/-- A member that has not come before is read and set. -/
theorem Reads.once {earlier : Option γ} {set : α → β} {next : β} (hreads : reader.Reads text value)
    (hearlier : earlier = none) (hnext : set value = next) :
    ((reader.once earlier).map set).Reads (valuePart before text) next := by
  subst hearlier hnext
  exact (hreads.afterColon hbefore).map

theorem Exact.once {set : α → β} (hexact : reader.Exact text) (earlier : Option γ) :
    ((reader.once earlier).map set).Exact (valuePart before text) := by
  refine Exact.map ?_
  unfold Reader.once
  split
  · intro _ _ _ _ _ _ hread
    cases hread
  · exact hexact.afterColon hbefore

/-- A member is skipped together with its value, whatever is in it. -/
theorem reads_skipMember (htext : Shaped text) : skipMember.Reads (valuePart before text) () := by
  refine Reads.afterColon hbefore fun gap rest hgap hrest => ?_
  obtain ⟨value, hread⟩ := htext.iterate_eq [] hgap hrest
  have hvalue : (Reader.value .skimming).read (gap ++ (text ++ rest)) = .ok (value, rest) := hread
  simp only [Reader.map, hvalue, mapValue]

end Member

/-- A member that must not come a second time has not come before. -/
theorem Admits.of_once {earlier : Option γ} {set : α → β} {next : β}
    (hadmits : ((reader.once earlier).map set).Admits text next) :
    earlier = none ∧ ∃ value, ((mark ':').bind fun _ => reader).Admits text value ∧
      set value = next := by
  obtain ⟨value, honce, hnext⟩ := hadmits.of_map
  cases earlier with
  | none => exact ⟨rfl, value, honce, hnext⟩
  | some first =>
      obtain ⟨_, _, _, _, hread⟩ := honce
      cases hread

section Values

variable {rest : List Char}

/-- A value is read as itself if there is room for its containers. -/
theorem reads_value {json : Json} {room limit : Nat} (htext : Spells json text)
    (hfits : Fits room json) (hroom : room ≤ limit) :
    (Reader.value (.strict limit)).Reads text json := by
  intro before rest hbefore hrest
  exact htext.iterate_eq [] hbefore hfits (by simpa using hroom) hrest

variable {judge : Json → Option α}

theorem reads_scalar {json : Json} {room : Nat} (htext : SpellsScalar json text)
    (hfits : Fits room json) (hjudge : judge json = some value) :
    (scalar judge).Reads text value := by
  intro before rest hbefore hrest
  obtain ⟨c, later, rfl, hspace, -⟩ := htext.starts
  have hread : readScalar (.strict 0) c (later ++ rest) = .ok (json, rest) :=
    readScalar_append htext hfits hrest
  simp only [scalar, byLead, List.cons_append, lead_gap_cons hbefore hspace, hread, hjudge]

/-- A value that is accepted as one without parts has none. -/
theorem exact_scalar (htext : Shaped text) : (scalar judge).Exact text := by
  intro before rest value later hbefore hrest hread
  obtain ⟨c, inside, rfl, hspace, -⟩ := htext.starts
  simp only [scalar, byLead, List.cons_append, lead_gap_cons hbefore hspace] at hread
  split at hread
  · rename_i json after hscalar
    split at hread
    · cases hread
      cases htext with
      | scalar hshaped => exact readScalar_exact hshaped hrest hscalar
      | emptyArray | array | emptyObject | object => cases hscalar
    · cases hread
  · cases hread

theorem reads_bool {switch : Bool} (htext : SpellsScalar (.bool switch) text) :
    Reader.bool.Reads text switch :=
  reads_scalar htext (.bool : Fits 0 (.bool switch)) rfl

theorem reads_string {string : String} (htext : SpellsScalar (.string string) text) :
    Reader.string.Reads text string :=
  reads_scalar htext (.string : Fits 0 (.string string)) rfl

theorem reads_natural {n bound : Nat} {room : Nat} (htext : SpellsScalar (.ofNat n) text)
    (hfits : Fits room (.ofNat n)) (hbound : n < bound) : (natural bound).Reads text n := by
  refine reads_scalar htext hfits ?_
  simp [ofNat, Number.natural?, hbound]

/-- A name is read as what it names. -/
theorem reads_named {find : String → Option α} {name : String}
    (htext : SpellsScalar (.string name) text) (hfind : find name = some value) :
    (named find).Reads text value := by
  intro before rest hbefore hrest
  have hread := (reads_string htext).filterMap hfind [] rest gap_nil hrest
  cases htext with
  | string hstring =>
      have hquote : ¬ IsSpace '"' := by decide
      simp only [named, byLead, List.cons_append, lead_gap_cons hbefore hquote, if_pos]
      exact hread

end Values

section Parse

variable {source : String}

theorem avoids_after {after : List Char} (hafter : Gap after) : Avoids numberMarks after := by
  have happend := avoids_gap_append hafter (avoids_nil numberMarks)
  rwa [List.append_nil] at happend

theorem Reads.parse (hpadded : Padded text source) (hreads : reader.Reads text value) :
    reader.parse source = .ok value := by
  obtain ⟨before, after, hbefore, hafter, hsource⟩ := hpadded
  have hread := hreads before after hbefore (avoids_after hafter)
  simp [Reader.parse, hsource, hread, lead_gap hafter]

theorem admits_of_parse (hpadded : Padded text source) (hexact : reader.Exact text)
    (hparse : reader.parse source = .ok value) : reader.Admits text value := by
  obtain ⟨before, after, hbefore, hafter, hsource⟩ := hpadded
  rw [Reader.parse, hsource] at hparse
  split at hparse
  · rename_i found later hread
    obtain rfl := hexact before after found later hbefore (avoids_after hafter) hread
    split at hparse
    · cases hparse
      exact ⟨before, _, hbefore, avoids_after hafter, hread⟩
    · cases hparse
  · cases hparse

end Parse

end Reader

end LineLexer.Json
