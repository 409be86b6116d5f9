import LineLexer.Json.Scalar
/-!
Reading values of any type from the front of JSON texts.

A `Json.Reader` carries the proof that it never returns without having read something, so
that `Reader.repeat` ends; it is the only loop here.  Containers of any value are read with
the open ones on a stack.  A `Json.Record` says how a record is put together from the members
of an object, or from the items of an array.

Faults are judged in the order of the text.  A scalar of the wrong type is read to its end
before it is refused, a container is refused at its bracket, and a member that must not come
is refused at its key.
-/

namespace LineLexer.Json

/-- A reader of values of one type. -/
structure Reader (α : Type) where
  read : List Char → Result α
  /-- Something is always read. -/
  shortens : ∀ {text rest : List Char} {value : α},
    read text = .ok (value, rest) → rest.length < text.length

namespace Reader

variable {α β σ : Type}

/-- Reads nothing. -/
def fail (fault : Fault) : Reader α where
  read _ := .error fault
  shortens h := by cases h

/-- Reads one value and then another that may depend on it. -/
def bind (first : Reader α) (next : α → Reader β) : Reader β where
  read text :=
    match first.read text with
    | .ok (value, rest) => (next value).read rest
    | .error fault => .error fault
  shortens h := by
    split at h
    · rename_i hfirst
      exact Nat.lt_trans ((next _).shortens h) (first.shortens hfirst)
    · cases h

/-- Applies a function to what is read. -/
def map (f : α → β) (reader : Reader α) : Reader β where
  read text := mapValue f (reader.read text)
  shortens h := by
    obtain ⟨_, hread, -⟩ := mapValue_eq_ok_iff.mp h
    exact reader.shortens hread

/-- Refuses some of what is read. -/
def filterMap (f : α → Option β) (reader : Reader α) : Reader β where
  read text :=
    match reader.read text with
    | .ok (value, rest) =>
        match f value with
        | some kept => .ok (kept, rest)
        | none => .error .mismatched
    | .error fault => .error fault
  shortens h := by
    split at h
    · rename_i hread
      split at h
      · simp only [Except.ok.injEq, Prod.mk.injEq] at h
        exact h.2 ▸ reader.shortens hread
      · cases h
    · cases h

/-- Reads by the first character after white space, which a text must have. -/
def byLead (next : Char → List Char → Result α)
    (hnext : ∀ {c text rest value}, next c text = .ok (value, rest) →
      rest.length ≤ text.length) : Reader α where
  read text :=
    match lead text with
    | some (c, rest) => next c rest
    | none => .error .truncated
  shortens h := by
    split at h
    · rename_i hlead
      exact Nat.lt_of_le_of_lt (hnext h) (length_of_lead hlead)
    · cases h

/-- Reads the next state of a loop until a reader returns a result. -/
def iterate (step : σ → Reader (σ ⊕ α)) (state : σ) (text : List Char) : Result α :=
  match _h : (step state).read text with
  | .ok (.inl next, rest) => iterate step next rest
  | .ok (.inr value, rest) => .ok (value, rest)
  | .error fault => .error fault
termination_by text.length
decreasing_by exact (step state).shortens _h

/-- Repeats a step from a first state until it returns a result. -/
def loop (step : σ → Reader (σ ⊕ α)) (state : σ) : Reader α where
  read := iterate step state
  shortens {text rest value} h := by
    fun_induction iterate step state text with
    | case1 state text next later hstep ih =>
        exact Nat.lt_trans (ih h) ((step state).shortens hstep)
    | case2 state text found later hstep =>
        simp only [Except.ok.injEq, Prod.mk.injEq] at h
        exact h.2 ▸ (step state).shortens hstep
    | case3 => cases h

/-- Reads one punctuation mark. -/
def mark (wanted : Char) : Reader Unit :=
  byLead (fun c rest => if c = wanted then .ok ((), rest) else .error .malformed) (by
    intro c text rest value h
    split at h
    · simp only [Except.ok.injEq, Prod.mk.injEq] at h
      simp [h.2]
    · cases h)

/-- Reads what follows a part of a container: whether another part comes. -/
def separator (closing : Char) : Reader Bool :=
  byLead
    (fun c rest =>
      if c = ',' then .ok (true, rest)
      else if c = closing then .ok (false, rest)
      else .error .malformed)
    (by
      intro c text rest value h
      split at h
      · simp only [Except.ok.injEq, Prod.mk.injEq] at h
        simp [h.2]
      split at h
      · simp only [Except.ok.injEq, Prod.mk.injEq] at h
        simp [h.2]
      · cases h)

/-- Reads the key of a member. -/
def key (care : Care) : Reader (List Char) :=
  byLead (fun c rest => if c = '"' then readString care rest else .error .malformed) (by
    intro c text rest value h
    split at h
    · exact Nat.le_of_lt (length_of_readString h)
    · cases h)

end Reader

/-- A container that is being read, with the parts read so far, newest first. -/
inductive Frame where
  | array (items : List Json)
  /-- An object whose member `key` is being read. -/
  | object (members : List (String × Json)) (key : String)

/-- A value that is being read.  Open containers stand innermost first. -/
inductive Assembly where
  /-- A value comes next. -/
  | awaiting (frames : List Frame)
  /-- A member comes next. -/
  | member (members : List (String × Json)) (outer : List Frame)
  /-- The end of a part comes next. -/
  | separator (part : Json) (frame : Frame) (outer : List Frame)

namespace Assembly

/-- A value is complete: the whole, or a part of the innermost open container. -/
def complete (value : Json) : List Frame → Assembly ⊕ Json
  | [] => .inr value
  | frame :: outer => .inl (.separator value frame outer)

/-- Reads what follows an opening bracket: the closing bracket, or nothing yet of a first
part. -/
def openContainer (care : Care) (frames : List Frame) (empty : Json) (closing : Char)
    (first : Assembly) (text : List Char) : Result (Assembly ⊕ Json) :=
  if care.allows (frames.length + 1) then
    match lead text with
    | none => .error .truncated
    | some (c, rest) =>
        if c = closing then .ok (complete empty frames, rest) else .ok (.inl first, text)
  else .error .malformed

theorem length_of_openContainer {care : Care} {frames : List Frame} {empty : Json}
    {closing : Char} {first : Assembly} {text rest : List Char} {next : Assembly ⊕ Json}
    (h : openContainer care frames empty closing first text = .ok (next, rest)) :
    rest.length ≤ text.length := by
  unfold openContainer at h
  split at h
  · split at h
    · cases h
    · rename_i hlead
      have := length_of_lead hlead
      split at h
      · simp only [Except.ok.injEq, Prod.mk.injEq] at h
        exact h.2 ▸ Nat.le_of_lt this
      · simp only [Except.ok.injEq, Prod.mk.injEq] at h
        exact h.2 ▸ Nat.le_refl _
  · cases h

/-- Reads the beginning of a value, or all of it if it has no parts. -/
def readValue (care : Care) (frames : List Frame) : Reader (Assembly ⊕ Json) :=
  Reader.byLead
    (fun c rest =>
      if c = '[' then
        openContainer care frames (.array []) ']' (.awaiting (.array [] :: frames)) rest
      else if c = '\x7b' then
        openContainer care frames (.object []) '\x7d' (.member [] frames) rest
      else mapValue (complete · frames) (readScalar care c rest))
    (by
      intro c text rest value h
      split at h
      · exact length_of_openContainer h
      split at h
      · exact length_of_openContainer h
      · obtain ⟨_, hscalar, -⟩ := mapValue_eq_ok_iff.mp h
        exact length_of_readScalar hscalar)

/-- Reads a value one part further. -/
def step (care : Care) : Assembly → Reader (Assembly ⊕ Json)
  | .awaiting frames => readValue care frames
  | .member members outer =>
      (Reader.key care).bind fun key =>
        (Reader.mark ':').map fun _ =>
          .inl (.awaiting (.object members (String.ofList key) :: outer))
  | .separator item (.array items) outer =>
      (Reader.separator ']').map fun more =>
        if more then .inl (.awaiting (.array (item :: items) :: outer))
        else complete (.array (item :: items).reverse) outer
  | .separator value (.object members key) outer =>
      (Reader.separator '\x7d').map fun more =>
        if more then .inl (.member ((key, value) :: members) outer)
        else complete (.object ((key, value) :: members).reverse) outer

end Assembly

namespace Reader

variable {α β σ : Type}

/-- Reads any value. -/
def value (care : Care) : Reader Json :=
  loop (Assembly.step care) (.awaiting [])

/-- The fault of a value that is refused, by its first character. -/
def refusal (c : Char) (rest : List Char) : Fault :=
  if c = '[' ∨ c = '\x7b' then .mismatched
  else match readScalar (.strict 0) c rest with
    | .ok _ => .mismatched
    | .error fault => fault

/-- Reads a value without parts, if it is of the right kind. -/
def scalar (judge : Json → Option α) : Reader α :=
  byLead
    (fun c rest =>
      match readScalar (.strict 0) c rest with
      | .ok (value, later) =>
          match judge value with
          | some found => .ok (found, later)
          | none => .error .mismatched
      | .error _ => .error (refusal c rest))
    (by
      intro c text rest value h
      split at h
      · rename_i hscalar
        split at h
        · simp only [Except.ok.injEq, Prod.mk.injEq] at h
          exact h.2 ▸ length_of_readScalar hscalar
        · cases h
      · cases h)

/-- Reads a truth value. -/
def bool : Reader Bool :=
  scalar fun
    | .bool value => some value
    | _ => none

/-- Reads a string. -/
def string : Reader String :=
  scalar fun
    | .string text => some text
    | _ => none

/-- Reads a natural number below a bound. -/
def natural (bound : Nat) : Reader Nat :=
  scalar fun
    | .number n => n.natural?.filter (· < bound)
    | _ => none

/-- Reads one of the values that have names: its name, or an object whose only key is the
name and whose value is null. -/
def named (find : String → Option α) : Reader α :=
  byLead
    (fun c rest =>
      if c = '"' then (filterMap find string).read (c :: rest)
      else if c = '\x7b' then
        ((filterMap find string).bind fun found =>
          (mark ':').bind fun _ =>
            (scalar fun | .null => some () | _ => none).bind fun _ =>
              (mark '\x7d').map fun _ => found).read rest
      else .error .malformed)
    (by
      intro c text rest value h
      split at h
      · exact Nat.le_of_lt_succ (Reader.shortens _ h)
      split at h
      · exact Nat.le_of_lt (Reader.shortens _ h)
      · cases h)

end Reader

/-- How a record is put together: `σ` is what has been read of it. -/
structure Record (σ α : Type) where
  start : σ
  /-- Reads on after the key of a member. -/
  member : String → σ → Reader σ
  /-- Reads the items of the array form, in their order. -/
  items : List (σ → Reader σ)
  /-- The record, if nothing is missing. -/
  finish : σ → Option α

namespace Record

variable {σ α : Type}

/-- Reads a member and what follows it. -/
def step (record : Record σ α) (state : σ) : Reader (σ ⊕ σ) :=
  (Reader.key (.strict 0)).bind fun key =>
    (record.member (String.ofList key) state).bind fun next =>
      (Reader.separator '\x7d').map fun more => if more then .inl next else .inr next

/-- Reads an object after its opening bracket. -/
def readMembers (record : Record σ α) (text : List Char) : Result σ :=
  match lead text with
  | none => .error .truncated
  | some (c, rest) =>
      if c = '\x7d' then .ok (record.start, rest)
      else (Reader.loop record.step record.start).read text

/-- Reads the items that follow an item. -/
def readItems (state : σ) (text : List Char) : List (σ → Reader σ) → Result σ
  | [] => mapValue (fun _ => state) ((Reader.mark ']').read text)
  | item :: items =>
      match (Reader.separator ']').read text with
      | .ok (true, rest) =>
          match (item state).read rest with
          | .ok (next, later) => readItems next later items
          | .error fault => .error fault
      | .ok (false, rest) => .ok (state, rest)
      | .error fault => .error fault

/-- Reads an array after its opening bracket. -/
def readArray (record : Record σ α) (text : List Char) : Result σ :=
  match lead text with
  | none => .error .truncated
  | some (c, rest) =>
      if c = ']' then .ok (record.start, rest)
      else match record.items with
        | [] => .error .malformed
        | item :: items =>
            match (item record.start).read text with
            | .ok (next, later) => readItems next later items
            | .error fault => .error fault

theorem length_of_readMembers {record : Record σ α} {text rest : List Char} {state : σ}
    (h : record.readMembers text = .ok (state, rest)) : rest.length ≤ text.length := by
  unfold readMembers at h
  split at h
  · cases h
  · rename_i hlead
    split at h
    · simp only [Except.ok.injEq, Prod.mk.injEq] at h
      exact h.2 ▸ Nat.le_of_lt (length_of_lead hlead)
    · exact Nat.le_of_lt (Reader.shortens _ h)

theorem length_of_readItems {items : List (σ → Reader σ)} {first state : σ}
    {text rest : List Char} (h : readItems first text items = .ok (state, rest)) :
    rest.length < text.length := by
  induction items generalizing first text with
  | nil =>
      obtain ⟨_, hmark, -⟩ := mapValue_eq_ok_iff.mp h
      exact Reader.shortens _ hmark
  | cons item items ih =>
      unfold readItems at h
      split at h
      · rename_i hseparator
        split at h
        · rename_i hitem
          exact Nat.lt_trans (ih h)
            (Nat.lt_trans (Reader.shortens _ hitem) (Reader.shortens _ hseparator))
        · cases h
      · rename_i hseparator
        simp only [Except.ok.injEq, Prod.mk.injEq] at h
        exact h.2 ▸ Reader.shortens _ hseparator
      · cases h

theorem length_of_readArray {record : Record σ α} {text rest : List Char} {state : σ}
    (h : record.readArray text = .ok (state, rest)) : rest.length ≤ text.length := by
  unfold readArray at h
  split at h
  · cases h
  · rename_i hlead
    split at h
    · simp only [Except.ok.injEq, Prod.mk.injEq] at h
      exact h.2 ▸ Nat.le_of_lt (length_of_lead hlead)
    · split at h
      · cases h
      · split at h
        · rename_i hitem
          exact Nat.le_of_lt (Nat.lt_trans (length_of_readItems h) (Reader.shortens _ hitem))
        · cases h

/-- Reads a record from an object. -/
def ofObject (record : Record σ α) : Reader α :=
  Reader.filterMap record.finish <| Reader.byLead
    (fun c rest =>
      if c = '\x7b' then record.readMembers rest else .error (Reader.refusal c rest))
    (by
      intro c text rest state h
      split at h
      · exact length_of_readMembers h
      · cases h)

/-- Reads a record from an object or from an array. -/
def ofContainer (record : Record σ α) : Reader α :=
  Reader.filterMap record.finish <| Reader.byLead
    (fun c rest =>
      if c = '\x7b' then record.readMembers rest
      else if c = '[' then record.readArray rest
      else .error (Reader.refusal c rest))
    (by
      intro c text rest state h
      split at h
      · exact length_of_readMembers h
      split at h
      · exact length_of_readArray h
      · cases h)

end Record

namespace Reader

variable {α β : Type}

/-- Reads on after the key of a member that may come only once. -/
def once (earlier : Option β) (reader : Reader α) : Reader α :=
  if earlier.isSome then fail .mismatched else (mark ':').bind fun _ => reader

/-- Skips a member after its key. -/
def skipMember : Reader Unit :=
  (mark ':').bind fun _ => (value .skimming).map fun _ => ()

/-- Reads a text that holds one value and nothing else. -/
def parse (reader : Reader α) (text : String) : Except Fault α :=
  match reader.read text.toList with
  | .ok (value, rest) => if (lead rest).isNone then .ok value else .error .malformed
  | .error fault => .error fault

end Reader

/-- Reads a text that holds one value of any kind. -/
def parse (text : String) : Except Fault Json :=
  (Reader.value (.strict 127)).parse text

end LineLexer.Json
