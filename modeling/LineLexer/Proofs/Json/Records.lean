import LineLexer.Proofs.Json.Readers
/-!
Reading records from objects.

A record is read member by member from a state that starts empty.  If every member can be read in
the state that those before it have led to, the object is read.  In turn an object that is accepted
has passed through a state before each member.
-/

namespace LineLexer.Json

section Grammar

variable {γ : Type}

/-- The members of an object, through the brace that ends it, where `spells` relates the values to
their texts. -/
inductive SpellsParts (spells : γ → List Char → Prop) : List (String × γ) → List Char → Prop
  | last {key : String} {value : γ} {front before text after : List Char}
      (hkey : SpellsKey key front) (hbefore : Gap before) (hvalue : spells value text)
      (hafter : Gap after) :
      SpellsParts spells [(key, value)] (front ++ (before ++ (text ++ (after ++ ['\x7d']))))
  | more {key : String} {value : γ} {members : List (String × γ)}
      {front before text after later : List Char} (hkey : SpellsKey key front)
      (hbefore : Gap before) (hvalue : spells value text) (hafter : Gap after)
      (hlater : SpellsParts spells members later) :
      SpellsParts spells ((key, value) :: members)
        (front ++ (before ++ (text ++ (after ++ ',' :: later))))

/-- What follows the opening brace of an object. -/
inductive SpellsBody (spells : γ → List Char → Prop) : List (String × γ) → List Char → Prop
  | empty {gap : List Char} (hgap : Gap gap) : SpellsBody spells [] (gap ++ ['\x7d'])
  | parts {members : List (String × γ)} {text : List Char}
      (hparts : SpellsParts spells members text) : SpellsBody spells members text

/-- The value is its text, which has the shape of a value. -/
def ShapedAs (value text : List Char) : Prop :=
  text = value ∧ Shaped value

/-- The objects whose members have the given keys and the given texts as values. -/
inductive SpellsObject (entries : List (String × List Char)) : List Char → Prop
  | braces {body : List Char} (hbody : SpellsBody ShapedAs entries body) :
      SpellsObject entries ('\x7b' :: body)

/-- The values of the members with a key, in their order. -/
def valuesOf (key : String) (members : List (String × γ)) : List γ :=
  (members.filter (·.1 == key)).map Prod.snd

/-- The members are taken one after the other, the first one in the given state. -/
inductive Passes {σ : Type} (step : String × γ → σ → σ → Prop) : List (String × γ) → σ → σ → Prop
  | nil (state : σ) : Passes step [] state state
  | cons {member : String × γ} {members : List (String × γ)} {state next last : σ}
      (hstep : step member state next) (hlater : Passes step members next last) :
      Passes step (member :: members) state last

variable {spells : γ → List Char → Prop} {key : String} {members : List (String × γ)}

theorem Passes.mono {σ : Type} {step other : String × γ → σ → σ → Prop} {state last : σ}
    (hpasses : Passes step members state last)
    (hstep : ∀ member state next, step member state next → other member state next) :
    Passes other members state last := by
  induction hpasses with
  | nil state => exact .nil state
  | cons hfirst _ ih => exact .cons (hstep _ _ _ hfirst) ih

theorem valuesOf_cons (other : String) (value : γ) :
    valuesOf key ((other, value) :: members) =
      if other = key then value :: valuesOf key members else valuesOf key members := by
  by_cases hkey : other = key <;> simp [valuesOf, hkey]

theorem valuesOf_append (front back : List (String × γ)) :
    valuesOf key (front ++ back) = valuesOf key front ++ valuesOf key back := by
  simp [valuesOf]

theorem valuesOf_eq_nil (hkey : ∀ member ∈ members, member.1 ≠ key) :
    valuesOf key members = [] := by
  rw [valuesOf, List.map_eq_nil_iff, List.filter_eq_nil_iff]
  simpa using hkey

theorem SpellsParts.exists_lead {text : List Char} (htext : SpellsParts spells members text)
    (rest : List Char) : ∃ c later, lead (text ++ rest) = some (c, later) ∧ c ≠ '\x7d' := by
  cases htext with
  | last hkey | more hkey =>
      obtain ⟨hbefore, -, -⟩ := hkey
      rw [List.append_assoc, List.append_assoc]
      exact ⟨'"', _, lead_gap_cons hbefore (by decide), by decide⟩

theorem SpellsParts.shaped {entries : List (String × List Char)} {text : List Char}
    (htext : SpellsParts ShapedAs entries text) : ShapedMembers text := by
  induction htext with
  | last hkey hbefore hvalue hafter =>
      exact .last hkey.shaped hbefore (hvalue.1 ▸ hvalue.2) hafter
  | more hkey hbefore hvalue hafter _ ih =>
      exact .more hkey.shaped hbefore (hvalue.1 ▸ hvalue.2) hafter ih

theorem SpellsObject.shaped {entries : List (String × List Char)} {text : List Char}
    (htext : SpellsObject entries text) : Shaped text := by
  obtain ⟨hbody⟩ := htext
  cases hbody with
  | empty hgap => exact .emptyObject hgap
  | parts hparts => exact .object hparts.shaped

theorem SpellsMembers.parts {members : List (String × Json)} {text : List Char}
    (htext : SpellsMembers members text) : SpellsParts Spells members text := by
  induction members generalizing text with
  | nil => cases htext
  | cons member members ih =>
      cases htext with
      | last hkey hbefore hvalue hafter => exact .last hkey hbefore hvalue hafter
      | more hkey hbefore hvalue hafter hlater =>
          exact .more hkey hbefore hvalue hafter (ih hlater)

theorem Spells.body {members : List (String × Json)} {text : List Char}
    (htext : Spells (.object members) text) :
    ∃ body, text = '\x7b' :: body ∧ SpellsBody Spells members body := by
  cases htext with
  | scalar hscalar => cases hscalar
  | emptyObject hgap => exact ⟨_, rfl, .empty hgap⟩
  | object hmembers => exact ⟨_, rfl, .parts hmembers.parts⟩

end Grammar

namespace Record

variable {σ α γ : Type} (record : Record σ α) {spells : γ → List Char → Prop}
  {members : List (String × γ)} {text rest : List Char} {state last : σ}

/-- The member leads from one state to the next however its value is spelled. -/
def Reads (spells : γ → List Char → Prop) (member : String × γ) (state next : σ) : Prop :=
  ∀ before text, Gap before → spells member.2 text →
    (record.member member.1 state).Reads (valuePart before text) next

/-- The member leads from one state to the next in some way to spell its value. -/
def Admits (spells : γ → List Char → Prop) (member : String × γ) (state next : σ) : Prop :=
  ∃ before text, Gap before ∧ spells member.2 text ∧
    (record.member member.1 state).Admits (valuePart before text) next

theorem valuePart_append (before text rest : List Char) :
    valuePart before text ++ rest = ':' :: (before ++ (text ++ rest)) := by
  rw [valuePart, List.cons_append, List.append_assoc]

theorem read_separator_mark {gap : List Char} {mark : Char} (hgap : Gap gap)
    (hmark : mark = ',' ∨ mark = '\x7d') (rest : List Char) :
    (Reader.separator '\x7d').read (gap ++ mark :: rest) = .ok (mark == ',', rest) := by
  rcases hmark with rfl | rfl
  · exact Reader.read_separator_comma hgap
  · exact Reader.read_separator_closing hgap (by decide) (by decide)

/-- The text of a key with the colon behind it.  If it is accepted, it is as one of the keys. -/
def KeyText (keys : String → Prop) (front : List Char) : Prop :=
  ∃ gap, Gap gap ∧ ∀ rest name later,
    (Reader.key (.strict 0)).read (front ++ rest) = .ok (name, later) →
      later = gap ++ ':' :: rest ∧ keys (String.ofList name)

theorem keyText_of_spellsKey {key : String} {front : List Char} (hkey : SpellsKey key front) :
    KeyText (· = key) front := by
  obtain ⟨gap, hgap, hread⟩ := Reader.read_key hkey
  refine ⟨gap, hgap, fun rest name later hother => ?_⟩
  rw [hread] at hother
  cases hother
  exact ⟨rfl, String.ofList_toList⟩

theorem keyText_of_shapedKey {front : List Char} (hkey : ShapedKey front) :
    KeyText (fun _ => True) front := by
  obtain ⟨gap, hgap, -, hread⟩ := Reader.read_key_shaped hkey
  exact ⟨gap, hgap, fun rest name later hother => ⟨hread 0 rest name later hother, trivial⟩⟩

/-- A member that is accepted has been read to its end. -/
theorem of_read_step {keys : String → Prop} {front before after : List Char} {mark : Char}
    {result : σ ⊕ σ} {later : List Char} (hkey : KeyText keys front) (hafter : Gap after)
    (hmark : mark = ',' ∨ mark = '\x7d')
    (hexact : ∀ key, keys key → (record.member key state).Exact (valuePart before text))
    (hread : (record.step state).read
      (front ++ (before ++ (text ++ (after ++ mark :: rest)))) = .ok (result, later)) :
    later = rest ∧ ∃ key next, keys key ∧
      (record.member key state).Admits (valuePart before text) next ∧
      result = if mark = ',' then .inl next else .inr next := by
  have hend : Avoids numberMarks (after ++ mark :: rest) :=
    avoids_gap_cons hafter (by rcases hmark with rfl | rfl <;> decide) rest
  obtain ⟨gap, hgap, hkeys⟩ := hkey
  simp only [step, Reader.bind, Reader.map] at hread
  split at hread
  · rename_i name colon hname
    obtain ⟨rfl, hmem⟩ := hkeys _ name colon hname
    rw [← valuePart_append] at hread
    split at hread
    · rename_i next between hmember
      obtain rfl := hexact _ hmem gap _ next between hgap hend hmember
      rw [read_separator_mark hafter hmark] at hread
      cases hread
      exact ⟨rfl, _, next, hmem, ⟨gap, _, hgap, hend, hmember⟩, by simp⟩
    · cases hread
  · cases hread

/-- A member that can be read is read to its end. -/
theorem read_step_reads {key : String} {front before after : List Char} {mark : Char} {next : σ}
    (hkey : SpellsKey key front) (hafter : Gap after) (hmark : mark = ',' ∨ mark = '\x7d')
    (hreads : (record.member key state).Reads (valuePart before text) next) (rest : List Char) :
    (record.step state).read (front ++ (before ++ (text ++ (after ++ mark :: rest)))) =
      .ok (if mark = ',' then .inl next else .inr next, rest) := by
  have hend : Avoids numberMarks (after ++ mark :: rest) :=
    avoids_gap_cons hafter (by rcases hmark with rfl | rfl <;> decide) rest
  obtain ⟨gap, hgap, hread⟩ := Reader.read_key hkey
  have hmember := hreads gap (after ++ mark :: rest) hgap hend
  rw [valuePart_append] at hmember
  simp only [step, Reader.bind, Reader.map, hread, String.ofList_toList, hmember,
    read_separator_mark hafter hmark, mapValue, beq_iff_eq]

/-- If each member can be read in the state that those before it have led to, all are read. -/
theorem iterate_parts (hparts : SpellsParts spells members text)
    (hpasses : Passes (record.Reads spells) members state last) (rest : List Char) :
    Reader.iterate record.step state (text ++ rest) = .ok (last, rest) := by
  induction hparts generalizing state with
  | last hkey hbefore hvalue hafter =>
      obtain _ | ⟨hmember, hlater⟩ := hpasses
      cases hlater
      have hstep := record.read_step_reads hkey hafter (Or.inr rfl)
        (hmember _ _ hbefore hvalue) rest
      simp only [List.append_assoc, List.singleton_append]
      exact Reader.iterate_eq_proceed hstep
  | @more key value members front before text after later hkey hbefore hvalue hafter _ ih =>
      obtain _ | ⟨hmember, hlater⟩ := hpasses
      have hstep := record.read_step_reads hkey hafter (Or.inl rfl)
        (hmember _ _ hbefore hvalue) (later ++ rest)
      simp only [List.append_assoc, List.cons_append]
      exact (Reader.iterate_eq_proceed hstep).trans (ih hlater)

/-- If members are accepted, the record has passed them one after the other. -/
theorem passes_of_iterate (hparts : SpellsParts spells members text)
    (hexact : ∀ key value state before text, (key, value) ∈ members → Gap before →
      spells value text → (record.member key state).Exact (valuePart before text))
    {later : List Char}
    (hread : Reader.iterate record.step state (text ++ rest) = .ok (last, later)) :
    later = rest ∧ Passes (record.Admits spells) members state last := by
  induction hparts generalizing state with
  | @last key value front before text after hkey hbefore hvalue hafter =>
      have hmember : ∀ other, other = key →
          (record.member other state).Exact (valuePart before text) := by
        rintro _ rfl
        exact hexact _ value state before text List.mem_cons_self hbefore hvalue
      simp only [List.append_assoc, List.singleton_append] at hread
      obtain ⟨result, between, hstep, hproceed⟩ := Reader.of_iterate hread
      obtain ⟨rfl, _, next, rfl, hadmits, rfl⟩ :=
        record.of_read_step (keyText_of_spellsKey hkey) hafter (Or.inr rfl) hmember hstep
      cases hproceed
      exact ⟨rfl, .cons ⟨before, text, hbefore, hvalue, hadmits⟩ (.nil last)⟩
  | @more key value members front before text after others hkey hbefore hvalue hafter _ ih =>
      have hmember : ∀ other, other = key →
          (record.member other state).Exact (valuePart before text) := by
        rintro _ rfl
        exact hexact _ value state before text List.mem_cons_self hbefore hvalue
      simp only [List.append_assoc, List.cons_append] at hread
      obtain ⟨result, between, hstep, hproceed⟩ := Reader.of_iterate hread
      obtain ⟨rfl, _, next, rfl, hadmits, rfl⟩ :=
        record.of_read_step (keyText_of_spellsKey hkey) hafter (Or.inl rfl) hmember hstep
      obtain ⟨hend, hpasses⟩ := ih (fun key value state before text hmem =>
        hexact key value state before text (List.mem_cons_of_mem _ hmem)) hproceed
      exact ⟨hend, .cons ⟨before, text, hbefore, hvalue, hadmits⟩ hpasses⟩

section Objects

variable (hbody : SpellsBody spells members text)

include hbody

theorem readMembers_body (hpasses : Passes (record.Reads spells) members record.start last)
    (rest : List Char) : record.readMembers (text ++ rest) = .ok (last, rest) := by
  cases hbody with
  | empty hgap =>
      cases hpasses
      have hbrace : ¬ IsSpace '\x7d' := by decide
      rw [readMembers, List.append_assoc, List.singleton_append, lead_gap_cons hgap hbrace]
      rfl
  | parts hparts =>
      obtain ⟨c, later, hlead, hc⟩ := hparts.exists_lead rest
      rw [readMembers, hlead]
      dsimp only
      rw [if_neg hc]
      exact record.iterate_parts hparts hpasses rest

theorem passes_of_readMembers
    (hexact : ∀ key value state before text, (key, value) ∈ members → Gap before →
      spells value text → (record.member key state).Exact (valuePart before text))
    {later : List Char} (hread : record.readMembers (text ++ rest) = .ok (last, later)) :
    later = rest ∧ Passes (record.Admits spells) members record.start last := by
  cases hbody with
  | empty hgap =>
      have hbrace : ¬ IsSpace '\x7d' := by decide
      rw [readMembers, List.append_assoc, List.singleton_append, lead_gap_cons hgap hbrace] at hread
      cases hread
      exact ⟨rfl, .nil _⟩
  | parts hparts =>
      obtain ⟨c, after, hlead, hc⟩ := hparts.exists_lead rest
      rw [readMembers, hlead] at hread
      dsimp only at hread
      rw [if_neg hc] at hread
      exact record.passes_of_iterate hparts hexact hread

end Objects

section Containers

variable {before : List Char} {value : α} {c : Char}

theorem read_ofObject_brace_iff (hbefore : Gap before) :
    record.ofObject.read (before ++ '\x7b' :: text) = .ok (value, rest) ↔
      ∃ last, record.readMembers text = .ok (last, rest) ∧ record.finish last = some value := by
  have hbrace : ¬ IsSpace '\x7b' := by decide
  simp only [ofObject, Reader.read_filterMap_eq_ok_iff, Reader.byLead,
    lead_gap_cons hbefore hbrace, if_pos]

theorem read_ofContainer_brace_iff (hbefore : Gap before) :
    record.ofContainer.read (before ++ '\x7b' :: text) = .ok (value, rest) ↔
      ∃ last, record.readMembers text = .ok (last, rest) ∧ record.finish last = some value := by
  have hbrace : ¬ IsSpace '\x7b' := by decide
  simp only [ofContainer, Reader.read_filterMap_eq_ok_iff, Reader.byLead,
    lead_gap_cons hbefore hbrace, if_pos]

theorem read_ofContainer_bracket_iff (hbefore : Gap before) :
    record.ofContainer.read (before ++ '[' :: text) = .ok (value, rest) ↔
      ∃ last, record.readArray text = .ok (last, rest) ∧ record.finish last = some value := by
  have hbracket : ¬ IsSpace '[' := by decide
  have hbrace : ¬ '[' = '\x7b' := by decide
  simp only [ofContainer, Reader.read_filterMap_eq_ok_iff, Reader.byLead,
    lead_gap_cons hbefore hbracket, if_neg hbrace, if_pos]

theorem read_ofContainer_starts (hbefore : Gap before) (hc : Starts c) :
    record.ofContainer.read (before ++ c :: text) ≠ .ok (value, rest) := by
  obtain ⟨hspace, hbracket⟩ := hc
  have harray : c ≠ '[' := by
    rintro rfl
    exact hbracket (by decide)
  have hobject : c ≠ '\x7b' := by
    rintro rfl
    exact hbracket (by decide)
  intro hread
  simp only [ofContainer, Reader.read_filterMap_eq_ok_iff, Reader.byLead,
    lead_gap_cons hbefore hspace, if_neg harray, if_neg hobject] at hread
  obtain ⟨_, herror, _⟩ := hread
  cases herror

/-- An object is read if each of its members can be read in the state that those before it have led
to, and nothing is missing at the end. -/
theorem reads_object (hbody : SpellsBody spells members text)
    (hpasses : Passes (record.Reads spells) members record.start last)
    (hfinish : record.finish last = some value) :
    record.ofObject.Reads ('\x7b' :: text) value ∧
      record.ofContainer.Reads ('\x7b' :: text) value := by
  constructor
  · intro before rest hbefore _
    exact (record.read_ofObject_brace_iff hbefore).mpr
      ⟨last, record.readMembers_body hbody hpasses rest, hfinish⟩
  · intro before rest hbefore _
    exact (record.read_ofContainer_brace_iff hbefore).mpr
      ⟨last, record.readMembers_body hbody hpasses rest, hfinish⟩

/-- An object that is accepted has passed its members. -/
theorem passes_of_admits (hbody : SpellsBody spells members text)
    (hexact : ∀ key value state before text, (key, value) ∈ members → Gap before →
      spells value text → (record.member key state).Exact (valuePart before text))
    (hadmits : record.ofContainer.Admits ('\x7b' :: text) value) :
    ∃ last, Passes (record.Admits spells) members record.start last := by
  obtain ⟨before, rest, hbefore, _, hread⟩ := hadmits
  rw [List.cons_append, record.read_ofContainer_brace_iff hbefore] at hread
  obtain ⟨last, hmembers, _⟩ := hread
  exact ⟨last, (record.passes_of_readMembers hbody hexact hmembers).2⟩

end Containers

section Exact

variable (hmember : ∀ key state before text, Gap before → Shaped text →
  (record.member key state).Exact (valuePart before text))

include hmember

/-- Whatever the keys are, members that are accepted are read to the brace that ends them. -/
theorem exact_shapedMembers (htext : ShapedMembers text) {later : List Char}
    (hread : Reader.iterate record.step state (text ++ rest) = .ok (last, later)) :
    later = rest := by
  induction hlength : text.length using Nat.strongRecOn generalizing text state with
  | ind length ih =>
      cases htext with
      | last hkey hbefore hvalue hafter =>
          simp only [List.append_assoc, List.singleton_append] at hread
          obtain ⟨result, between, hstep, hproceed⟩ := Reader.of_iterate hread
          obtain ⟨rfl, _, next, -, -, rfl⟩ := record.of_read_step (keyText_of_shapedKey hkey)
            hafter (Or.inr rfl) (fun key _ => hmember key state _ _ hbefore hvalue) hstep
          cases hproceed
          rfl
      | @more front before text after others hkey hbefore hvalue hafter hlater =>
          simp only [List.append_assoc, List.cons_append] at hread
          obtain ⟨result, between, hstep, hproceed⟩ := Reader.of_iterate hread
          obtain ⟨rfl, _, next, -, -, rfl⟩ := record.of_read_step (keyText_of_shapedKey hkey)
            hafter (Or.inl rfl) (fun key _ => hmember key state _ _ hbefore hvalue) hstep
          have hshorter : others.length < length := by
            simp only [← hlength, List.length_append, List.length_cons]
            omega
          exact ih others.length hshorter hlater hproceed rfl

omit hmember

/-- An item that is accepted is read to the mark behind it. -/
theorem exact_firstItem {item : Reader σ} (hexact : ∀ text, Shaped text → item.Exact text)
    (htext : ShapedItems text) {between : List Char}
    (hitem : item.read (text ++ rest) = .ok (last, between)) :
    (∃ gap, Gap gap ∧ between = gap ++ ']' :: rest) ∨
      ∃ gap others, Gap gap ∧ ShapedItems others ∧ between = gap ++ ',' :: (others ++ rest) := by
  cases htext with
  | @last before text after hbefore hshaped hafter =>
      have hend : Avoids numberMarks (after ++ ']' :: rest) :=
        avoids_gap_cons hafter (by decide) rest
      simp only [List.append_assoc, List.singleton_append] at hitem
      exact Or.inl ⟨after, hafter, hexact text hshaped before _ last between hbefore hend hitem⟩
  | @more before text after others hbefore hshaped hafter hothers =>
      have hend : Avoids numberMarks (after ++ ',' :: (others ++ rest)) :=
        avoids_gap_cons hafter (by decide) _
      simp only [List.append_assoc, List.cons_append] at hitem
      exact Or.inr ⟨after, others, hafter, hothers,
        hexact text hshaped before _ last between hbefore hend hitem⟩

/-- The items that follow an item are read to the bracket that ends them, if they are accepted. -/
theorem exact_shapedItems {item : σ → Reader σ} {items : List (σ → Reader σ)}
    (hitems : ∀ other ∈ item :: items, ∀ state text, Shaped text → (other state).Exact text)
    (htext : ShapedItems text) {next : σ} {between later : List Char}
    (hitem : (item state).read (text ++ rest) = .ok (next, between))
    (hread : readItems next between items = .ok (last, later)) : later = rest := by
  induction items generalizing item state text next between with
  | nil =>
      rcases exact_firstItem (hitems item List.mem_cons_self state) htext hitem with
        ⟨gap, hgap, rfl⟩ | ⟨gap, others, hgap, hothers, rfl⟩
      · rw [readItems, Reader.read_mark hgap (by decide)] at hread
        cases hread
        rfl
      · have hcomma : lead (gap ++ ',' :: (others ++ rest)) = some (',', others ++ rest) :=
          lead_gap_cons hgap (by decide)
        simp [readItems, Reader.mark, Reader.byLead, hcomma, mapValue] at hread
  | cons second items ih =>
      rw [List.forall_mem_cons] at hitems
      rcases exact_firstItem (hitems.1 state) htext hitem with
        ⟨gap, hgap, rfl⟩ | ⟨gap, others, hgap, hothers, rfl⟩
      · rw [readItems, Reader.read_separator_closing hgap (by decide) (by decide)] at hread
        cases hread
        rfl
      · rw [readItems, Reader.read_separator_comma hgap] at hread
        dsimp only at hread
        split at hread
        · rename_i third after hsecond
          exact ih hitems.2 hothers hsecond hread
        · cases hread

include hmember

/-- A record is read to the end of its text, if it is accepted. -/
theorem exact_ofContainer
    (hitems : ∀ item ∈ record.items, ∀ state text, Shaped text → (item state).Exact text)
    (htext : Shaped text) : record.ofContainer.Exact text := by
  intro before rest value later hbefore _ hread
  cases htext with
  | scalar hscalar =>
      obtain ⟨c, others, rfl, hc⟩ := hscalar.starts
      exact absurd hread (record.read_ofContainer_starts hbefore hc)
  | @emptyArray gap hgap =>
      rw [List.cons_append, read_ofContainer_bracket_iff record hbefore, List.append_assoc,
        List.singleton_append] at hread
      obtain ⟨last, harray, -⟩ := hread
      have hbracket : ¬ IsSpace ']' := by decide
      rw [readArray, lead_gap_cons hgap hbracket] at harray
      cases harray
      rfl
  | array hshaped =>
      rw [List.cons_append, read_ofContainer_bracket_iff record hbefore] at hread
      obtain ⟨last, harray, -⟩ := hread
      obtain ⟨c, others, hlead, hc⟩ := hshaped.exists_lead rest
      rw [readArray, hlead] at harray
      dsimp only at harray
      rw [if_neg hc] at harray
      split at harray
      · cases harray
      · rename_i item items hrecord
        split at harray
        · rename_i next between hitem
          rw [hrecord] at hitems
          exact exact_shapedItems hitems hshaped hitem harray
        · cases harray
  | @emptyObject gap hgap =>
      rw [List.cons_append, read_ofContainer_brace_iff record hbefore, List.append_assoc,
        List.singleton_append] at hread
      obtain ⟨last, hmembers, -⟩ := hread
      have hbrace : ¬ IsSpace '\x7d' := by decide
      rw [readMembers, lead_gap_cons hgap hbrace] at hmembers
      cases hmembers
      rfl
  | object hshaped =>
      rw [List.cons_append, read_ofContainer_brace_iff record hbefore] at hread
      obtain ⟨last, hmembers, -⟩ := hread
      obtain ⟨c, others, hlead, hc⟩ := hshaped.exists_lead rest
      rw [readMembers, hlead] at hmembers
      dsimp only at hmembers
      rw [if_neg hc] at hmembers
      exact record.exact_shapedMembers hmember hshaped hmembers

end Exact

end Record

end LineLexer.Json
