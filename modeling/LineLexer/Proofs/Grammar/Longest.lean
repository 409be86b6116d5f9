import LineLexer.Proofs.Grammar.Spelling
/-!
Where the table stops, the longest token ends.

The table stores the characters of a text as long as it can.  No readable prefix of the text
is longer than what it has stored then, and a token of the grammar is readable up to its last
character at least.  So the action that ends the token decides which prefix is the longest
one: one more character, all that has been stored, or one character less.
-/

open scoped Computability

namespace LineLexer

/-- The state is one of those inside a literal. -/
def Delimiter.Opens (delimiter : Delimiter) (state : State) : Prop :=
  state = delimiter.inside ∨ state = delimiter.escaped

theorem Delimiter.opens_of_store (delimiter : Delimiter) : ∀ state kind, delimiter.Opens state →
    (transition state kind).action = .store → delimiter.Opens (transition state kind).next := by
  unfold Delimiter.Opens
  cases delimiter <;> decide

theorem Delimiter.transition_opens (delimiter : Delimiter) : ∀ state kind,
    delimiter.Opens state → Mode.normal.presents kind = true → 
    (transition state kind).action ≠ .store →
    kind = .endOfLine ∧ (transition state kind).action = .acceptBack1 ∨
      state = delimiter.inside ∧ kind = delimiter.kind := by
  unfold Delimiter.Opens
  cases delimiter <;> decide

namespace Grammar

section Endings

variable {state : State} {text : List Char}

/-- Which states let a token end, and which operators they stand for. -/
theorem marks?_mem_operators : ∀ state, Mode.normal.owns state = true → state ≠ .start →
    state.onTrust = false → ∀ marks ∈ state.marks?, marks ∈ operators := by
  decide

theorem transition_onTrust : ∀ state kind, state.onTrust = true → Mode.normal.owns state = true →
    Mode.normal.presents kind = true → (transition state kind).action = .store ∨
      (transition state kind).action.consumes = true ∨
      (transition state kind).action = .acceptBack2 := by
  decide

theorem operators_of_completes : ∀ state kind, Mode.normal.owns state = true →
    (transition state kind).action.consumes = true → (transition state kind).action ≠ .store →
      state = .start ∨ (∃ delimiter ∈ [Delimiter.double, Delimiter.single],
        state = delimiter.inside ∧ kind = delimiter.kind) ∨
      ∃ longer ∈ state.marks?.bind fun marks => kind.char?.map fun c => marks ++ [c],
        longer ∈ operators := by
  decide

theorem mem_lexeme_of_mem_operators (htext : text ∈ operators) : text ∈ lexeme :=
  Or.inl (Or.inr htext)

theorem mem_lexeme_of_mem_number (htext : text ∈ number) : text ∈ lexeme :=
  Or.inl (Or.inl (Or.inl (Or.inl (Or.inr htext))))

theorem mem_lexeme_of_mem_literal {delimiter : Delimiter} (htext : text ∈ literal delimiter) :
    text ∈ lexeme := by
  cases delimiter with
  | double => exact Or.inl (Or.inl (Or.inl (Or.inr htext)))
  | single => exact Or.inl (Or.inl (Or.inr htext))

theorem mem_lexeme_of_single {c : Char} (hblank : isBlank c = false) : [c] ∈ lexeme :=
  Or.inr (singleton_mem_single.mpr (by simp [hblank]))

/-- A text that leads to a state in which nothing is missing is a token. -/
theorem mem_lexeme_of_spelling (howns : Mode.normal.owns state = true) (hstart : state ≠ .start)
    (htrust : state.onTrust = false) (hclosed : ∀ delimiter : Delimiter, ¬ delimiter.Opens state)
    (htext : text ∈ spelling state) : text ∈ lexeme := by
  cases hmarks : state.marks? with
  | some marks =>
      rw [eq_of_mem_spelling hmarks htext]
      exact mem_lexeme_of_mem_operators
        (marks?_mem_operators state howns hstart htrust marks hmarks)
  | none =>
      cases state with
      | ident => exact Or.inl (Or.inl (Or.inl (Or.inl (Or.inl (Or.inl htext)))))
      | directive => exact Or.inl (Or.inl (Or.inl (Or.inl (Or.inl (Or.inr htext)))))
      | number => exact mem_lexeme_of_mem_number htext
      | numberExp => exact mem_lexeme_of_mem_number (mem_number_of_exponentNumber htext)
      | string => exact absurd (Or.inl rfl) (hclosed .double)
      | stringEscape => exact absurd (Or.inr rfl) (hclosed .double)
      | char => exact absurd (Or.inl rfl) (hclosed .single)
      | charEscape => exact absurd (Or.inr rfl) (hclosed .single)
      | numberSign | numberQuote => cases htrust
      | angleLiteral | commentStart | commentWord | commentStar | commentString
      | commentStringEscape | inlineStart | inlineBody => cases howns
      | _ => cases hmarks

/-- A character that completes what has been read completes a token. -/
theorem mem_lexeme_of_completes {c : Char} (howns : Mode.normal.owns state = true)
    (htext : text ∈ spelling state)
    (hconsumes : (transition state (.classify .normal c)).action.consumes = true)
    (hstore : (transition state (.classify .normal c)).action ≠ .store) :
    text ++ [c] ∈ lexeme := by
  rcases operators_of_completes state _ howns hconsumes hstore with rfl |
    ⟨delimiter, _, rfl, hkind⟩ | ⟨longer, hlonger, hoperator⟩
  · rw [eq_of_mem_spelling rfl htext]
    apply mem_lexeme_of_single
    by_contra hblank
    rw [CharClass.classify_of_isBlank _ (by simpa using hblank)] at hconsumes
    cases hconsumes
  · rw [spelling_inside] at htext
    rw [Delimiter.mark_of_classify hkind]
    exact mem_lexeme_of_mem_literal (Language.append_mem_mul htext (mem_mark.mpr rfl))
  · obtain ⟨marks, hmarks, hlast⟩ := Option.bind_eq_some_iff.mp hlonger
    obtain ⟨mark, hmark, rfl⟩ := Option.map_eq_some_iff.mp hlast
    rw [eq_of_mem_spelling hmarks htext, CharClass.eq_of_char?_classify hmark]
    exact mem_lexeme_of_mem_operators hoperator

/-- Without the character read on trust the text is a token. -/
theorem dropLast_mem_lexeme (htrust : state.onTrust = true) (htext : text ∈ spelling state) :
    text.dropLast ∈ lexeme := by
  cases state with
  | numberSign =>
      obtain ⟨front, hfront, _, ⟨c, _, rfl⟩, rfl⟩ := Language.mem_mul.mp htext
      rw [List.dropLast_concat]
      exact mem_lexeme_of_mem_number (mem_number_of_exponentNumber hfront)
  | numberQuote =>
      obtain ⟨front, hfront, _, ⟨c, _, rfl⟩, rfl⟩ := Language.mem_mul.mp htext
      rw [List.dropLast_concat]
      exact mem_lexeme_of_mem_number hfront
  | dotDot =>
      rw [eq_of_mem_spelling rfl htext]
      exact mem_lexeme_of_mem_operators (by decide)
  | _ => cases htrust

end Endings

/-- The class of the symbol that follows in a line of code. -/
def nextKind : List Char → CharClass
  | [] => .endOfLine
  | c :: _ => .classify .normal c

theorem nextKind_eq_endOfLine_iff {back : List Char} : nextKind back = .endOfLine ↔ back = [] := by
  cases back with
  | nil => simp [nextKind]
  | cons c _ => simp [nextKind, CharClass.classify_ne_endOfLine]

/-- The table stores the front of a text and does something else with what follows. -/
structure Stops (text front back : List Char) (state : State) : Prop where
  text_eq : text = front ++ back
  readCode_eq : State.start.readCode front = some state
  not_store : (transition state (nextKind back)).action ≠ .store

/-- The token that an action ends, of the characters stored before it and those that follow. -/
def tokenOf (action : Action) (front back : List Char) : List Char :=
  if action.consumes then front ++ back.take 1
  else if action = .acceptBack2 then front.dropLast
  else front

namespace Stops

variable {text front back part : List Char} {state : State} (hstops : Stops text front back state)

include hstops

/-- Nothing longer can be read. -/
theorem isPrefix_of_readCode {last : State} (hpart : part <+: text)
    (hread : State.start.readCode part = some last) : part <+: front := by
  have hfront : front <+: text := by
    rw [hstops.text_eq]
    exact List.prefix_append front back
  rcases List.prefix_or_prefix_of_prefix hpart hfront with hshort | ⟨more, rfl⟩
  · exact hshort
  · cases more with
    | nil => simp
    | cons c more =>
        exfalso
        obtain ⟨later, htext⟩ := hpart
        have hback : back = c :: (more ++ later) := by
          have hboth := htext.trans hstops.text_eq
          rw [List.append_assoc, List.append_cancel_left_eq] at hboth
          simpa using hboth.symm
        apply hstops.not_store
        rw [hback]
        exact State.store_of_readCode hread hstops.readCode_eq

/-- A text that its last character completes ends right after what has been stored. -/
theorem completed_eq (hpart : part <+: text) (hcompleted : Completed part) :
    ∃ c others, back = c :: others ∧ part = front ++ [c] ∧
      (transition state (.classify .normal c)).action.consumes = true := by
  obtain ⟨short, c, middle, rfl, hread, hconsumes, hstore⟩ := hcompleted
  have hshort : short <+: text := (List.prefix_append short [c]).trans hpart
  obtain ⟨more, hfront⟩ := hstops.isPrefix_of_readCode hshort hread
  obtain ⟨later, htext⟩ := hpart
  have hback : more ++ back = c :: later := by
    have hboth := htext.trans hstops.text_eq
    rw [← hfront, List.append_assoc, List.append_assoc, List.append_cancel_left_eq] at hboth
    exact hboth.symm
  cases more with
  | nil =>
      rw [List.append_nil] at hfront
      subst hfront
      rw [hstops.readCode_eq, Option.some.injEq] at hread
      subst hread
      exact ⟨c, later, by simpa using hback, rfl, hconsumes⟩
  | cons d more =>
      exfalso
      obtain ⟨rfl, _⟩ := List.cons.inj hback
      have hlonger := hstops.readCode_eq
      rw [← hfront] at hlonger
      exact hstore (State.store_of_readCode hlonger hread)

/-- No token of the grammar is longer than the one that the action ends. -/
theorem length_le_tokenOf (hpart : part <+: text) (hlexeme : part ∈ lexeme) :
    part.length ≤ (tokenOf (transition state (nextKind back)).action front back).length := by
  rcases recognized_of_lexeme hlexeme with ⟨last, hread, htrust⟩ | hcompleted
  · have hlength := (hstops.isPrefix_of_readCode hpart hread).length_le
    unfold tokenOf
    split
    · rw [List.length_append]
      omega
    · split
      · rename_i hback
        -- What has been stored is no token itself, since its last character was read on trust.
        have honTrust := transition_acceptBack2_onTrust _ _ hback
        have hne : part.length ≠ front.length := by
          intro hsame
          have heq := (hstops.isPrefix_of_readCode hpart hread).eq_of_length hsame
          rw [heq, hstops.readCode_eq, Option.some.injEq] at hread
          rw [hread, htrust] at honTrust
          cases honTrust
        rw [List.length_dropLast]
        omega
      · exact hlength
  · obtain ⟨c, others, rfl, rfl, hconsumes⟩ := hstops.completed_eq hpart hcompleted
    rw [tokenOf, if_pos (by exact hconsumes)]
    simp

end Stops

section Literals

variable {delimiter : Delimiter} {state last : State} {text : List Char}

/-- Inside a literal the table stays there, whatever it stores. -/
theorem opens_of_readCode (hopens : delimiter.Opens state)
    (hread : state.readCode text = some last) :
    delimiter.Opens last := by
  induction text using List.reverseRecOn generalizing last with
  | nil =>
      obtain rfl := Option.some.inj hread
      exact hopens
  | append_singleton front c ih =>
      obtain ⟨middle, hmiddle, hstore, rfl⟩ := State.readCode_concat.mp hread
      exact delimiter.opens_of_store _ _ (ih hmiddle) hstore

theorem head?_of_mem_openLiteral (htext : text ∈ openLiteral delimiter) :
    text.head? = some delimiter.mark := by
  obtain ⟨first, hfirst, _, _, rfl⟩ := Language.mem_mul.mp htext
  rw [mem_mark.mp hfirst]
  rfl

theorem head?_of_opens (hopens : delimiter.Opens state) (htext : text ∈ spelling state) :
    text.head? = some delimiter.mark := by
  rcases hopens with rfl | rfl
  · rw [spelling_inside] at htext
    exact head?_of_mem_openLiteral htext
  · rw [spelling_escaped] at htext
    obtain ⟨front, hfront, _, _, rfl⟩ := Language.mem_mul.mp htext
    rw [List.head?_append, head?_of_mem_openLiteral hfront]
    rfl

theorem readCode_cons_mark :
    State.start.readCode (delimiter.mark :: text) = delimiter.inside.readCode text := by
  rw [State.readCode, List.map_cons, delimiter.classify_mark]
  cases delimiter <;> rfl

end Literals

namespace Stops

variable {text front back : List Char} {state : State} (hstops : Stops text front back state)

include hstops

theorem owns_state : Mode.normal.owns state = true :=
  Mode.owns_of_reading (CharClass.presents_of_mem_map _ front) hstops.readCode_eq

theorem mem_spelling : front ∈ spelling state :=
  mem_spelling_of_readCode hstops.readCode_eq

/-- After a mark of literals the table stops inside the literal. -/
theorem opens_of_head? {delimiter : Delimiter} (hhead : text.head? = some delimiter.mark) :
    delimiter.Opens state := by
  obtain ⟨rfl, hread, hstop⟩ := hstops
  cases front with
  | nil =>
      obtain ⟨others, rfl⟩ := List.head?_eq_some_iff.mp hhead
      obtain rfl := Option.some.inj hread
      rw [nextKind, delimiter.classify_mark] at hstop
      cases delimiter <;> exact absurd rfl hstop
  | cons c rest =>
      obtain rfl : c = delimiter.mark := by simpa using hhead
      rw [readCode_cons_mark] at hread
      exact opens_of_readCode (Or.inl rfl) hread

theorem presents_nextKind : Mode.normal.presents (nextKind back) = true := by
  cases back with
  | nil => rfl
  | cons c _ => exact CharClass.presents_classify .normal c

/-- A literal is never closed if the text ends inside of it. -/
theorem unclosed_iff :
    Unclosed text ↔ ∃ delimiter : Delimiter, delimiter.Opens state ∧ back = [] := by
  constructor
  · rintro ⟨delimiter, hhead, hnone⟩
    have hopens := hstops.opens_of_head? hhead
    refine ⟨delimiter, hopens, ?_⟩
    rcases delimiter.transition_opens _ _ hopens hstops.presents_nextKind hstops.not_store with
      ⟨hkind, _⟩ | ⟨rfl, hkind⟩
    · exact nextKind_eq_endOfLine_iff.mp hkind
    · exfalso
      cases hback : back with
      | nil =>
          rw [hback] at hkind
          cases delimiter <;> cases hkind
      | cons c others =>
          rw [hback] at hkind
          have hspelled := hstops.mem_spelling
          rw [spelling_inside] at hspelled
          apply hnone (front ++ [c])
          · exact ⟨others, by simp [hstops.text_eq, hback]⟩
          · rw [Delimiter.mark_of_classify hkind]
            exact Language.append_mem_mul hspelled (mem_mark.mpr rfl)
  · rintro ⟨delimiter, hopens, rfl⟩
    refine ⟨delimiter, ?_, ?_⟩
    · rw [hstops.text_eq, List.append_nil]
      exact head?_of_opens hopens hstops.mem_spelling
    · intro part hpart hliteral
      obtain ⟨c, others, hback, _⟩ := hstops.completed_eq hpart (completed_of_literal hliteral)
      cases hback

theorem tokenOf_isPrefix (action : Action) : tokenOf action front back <+: text := by
  rw [hstops.text_eq]
  unfold tokenOf
  split
  · exact (List.prefix_append_right_inj front).mpr (List.take_prefix 1 back)
  · split
    · exact (List.dropLast_prefix front).trans (List.prefix_append front back)
    · exact List.prefix_append front back

/-- What the action ends is a token, unless the text ends inside a literal. -/
theorem tokenOf_mem_lexeme (hclosed : ¬ Unclosed text)
    (hsolid : front = [] → ∃ c others, back = c :: others ∧ isBlank c = false) :
    tokenOf (transition state (nextKind back)).action front back ∈ lexeme := by
  have howns := hstops.owns_state
  have hspelled := hstops.mem_spelling
  have hpresents := hstops.presents_nextKind
  have hstop := hstops.not_store
  by_cases hconsumes : (transition state (nextKind back)).action.consumes = true
  · cases back with
    | nil => simp [nextKind, transition_endOfLine_not_consumes] at hconsumes
    | cons c others =>
        rw [tokenOf, if_pos hconsumes]
        exact mem_lexeme_of_completes howns hspelled hconsumes hstop
  by_cases hback : (transition state (nextKind back)).action = .acceptBack2
  · rw [tokenOf, if_neg hconsumes, if_pos hback]
    exact dropLast_mem_lexeme (transition_acceptBack2_onTrust _ _ hback) hspelled
  rw [tokenOf, if_neg hconsumes, if_neg hback]
  apply mem_lexeme_of_spelling howns _ _ _ hspelled
  · rintro rfl
    obtain ⟨c, others, rfl, hblank⟩ := hsolid (eq_of_mem_spelling rfl hspelled)
    obtain ⟨_, hwhite, hend⟩ := CharClass.classify_presented .normal hblank
    rcases transition_start _ hpresents hwhite hend with hstore | hcompletes
    · exact hstop hstore
    · exact hconsumes hcompletes.1
  · by_contra htrust
    rcases transition_onTrust state _ (by simpa using htrust) hstops.owns_state hpresents with
      hstore | hcompletes | hgives
    · exact hstop hstore
    · exact hconsumes hcompletes
    · exact hback hgives
  · intro delimiter hopens
    rcases delimiter.transition_opens _ _ hopens hpresents hstop with ⟨hkind, _⟩ | ⟨rfl, hkind⟩
    · exact hclosed (hstops.unclosed_iff.mpr
        ⟨delimiter, hopens, nextKind_eq_endOfLine_iff.mp hkind⟩)
    · rw [hkind] at hconsumes
      cases delimiter <;> exact hconsumes rfl

/-- The action ends the whole text if it ends inside a literal, and the longest token that
the text starts with otherwise. -/
theorem longest (hsolid : front = [] → ∃ c others, back = c :: others ∧ isBlank c = false) :
    (Unclosed text → tokenOf (transition state (nextKind back)).action front back = text) ∧
      (¬ Unclosed text →
        IsLongestLexeme text (tokenOf (transition state (nextKind back)).action front back)) := by
  constructor
  · intro hunclosed
    obtain ⟨delimiter, hopens, rfl⟩ := hstops.unclosed_iff.mp hunclosed
    rcases delimiter.transition_opens _ _ hopens hstops.presents_nextKind hstops.not_store with
      ⟨_, hback⟩ | ⟨_, hkind⟩
    · rw [hback, hstops.text_eq, List.append_nil]
      rfl
    · cases delimiter <;> cases hkind
  · intro hclosed
    exact ⟨hstops.tokenOf_isPrefix _, hstops.tokenOf_mem_lexeme hclosed hsolid,
      fun _ hpart hlexeme => hstops.length_le_tokenOf hpart hlexeme⟩

end Stops

end Grammar

end LineLexer
