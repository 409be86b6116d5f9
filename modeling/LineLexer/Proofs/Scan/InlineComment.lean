import LineLexer.Proofs.Scan.LineBreaks
/-!
The body of an inline comment.

Behind the mark of an inline comment a scan skips white space, reads all that is left of the line
into one token and trims its end.  The scan skips and trims by one notion of white space, so the
token is the rest of the line without the white space at both ends.  The comment takes up the end of
the line, where a literal could be cut off, so that such a line has no reports.
-/

namespace LineLexer

/-- The tokens of an inline comment behind its mark: the rest of the line without the white space at
both ends, or none if the rest is white space only. -/
inductive CommentBody : List Char → List (List Char) → Prop
  | blank {rest : List Char} (hblank : Blank rest) : CommentBody rest []
  | text {lead body trail : List Char} (hlead : Blank lead) (hfirst : Solid body)
      (hlast : Solid body.reverse) (htrail : Blank trail) :
      CommentBody (lead ++ (body ++ trail)) [body]

theorem CommentBody.cons_blank {rest : List Char} {tokens : List (List Char)} {c : Char}
    (hc : isBlank c = true) (hbody : CommentBody rest tokens) : CommentBody (c :: rest) tokens := by
  cases hbody with
  | blank hblank => exact .blank (List.forall_mem_cons.mpr ⟨hc, hblank⟩)
  | @text lead body trail hlead hfirst hlast htrail =>
      have hblank : Blank (c :: lead) := List.forall_mem_cons.mpr ⟨hc, hlead⟩
      exact .text hblank hfirst hlast htrail

/-- A trimmed text does not end with white space. -/
theorem Solid.reverse_trimRight {text : List Char} (hsolid : Solid text) :
    Solid (LineLexer.trimRight text).reverse := by
  obtain ⟨c, rest, htrimmed, _⟩ := hsolid.trimRight
  rw [LineLexer.trimRight, List.reverse_eq_iff] at htrimmed
  obtain ⟨d, others, hdropped⟩ : ∃ d others, text.reverse.dropWhile isBlank = d :: others :=
    List.exists_cons_of_ne_nil (by simp [htrimmed])
  refine ⟨d, others, by rw [LineLexer.trimRight, List.reverse_reverse, hdropped], ?_⟩
  have hhead := List.head?_dropWhile_not isBlank text.reverse
  rw [hdropped] at hhead
  simpa using hhead

theorem commentBody_trimRight {text : List Char} (hsolid : Solid text) :
    CommentBody text [trimRight text] := by
  obtain ⟨trail, htrail, htext⟩ := trimRight_append_blank text
  have hbody := CommentBody.text Blank.nil hsolid.trimRight hsolid.reverse_trimRight htrail
  rwa [List.nil_append, ← htext] at hbody

section Table

theorem transition_inlineComment_store : ∀ kind, kind = .whitespace ∨ kind = .commentChar →
    transition .inlineBody kind = .store .inlineBody := by
  decide

end Table

theorem CharClass.classify_inlineComment (c : Char) :
    CharClass.classify .inlineComment c = if isBlank c then .whitespace else .commentChar :=
  rfl

/-- All characters of a line belong to the body of an inline comment. -/
theorem State.reading_inlineBody (text : List Char) :
    State.inlineBody.reading (text.map (CharClass.classify .inlineComment)) = some .inlineBody := by
  induction text with
  | nil => rfl
  | cons c text ih =>
      have hkind : CharClass.classify .inlineComment c = .whitespace ∨
          CharClass.classify .inlineComment c = .commentChar := by
        rw [CharClass.classify_inlineComment]
        split
        · exact Or.inl rfl
        · exact Or.inr rfl
      rw [List.map_cons, State.reading, transition_inlineComment_store _ hkind]
      exact (if_pos rfl).trans ih

/-- The body starts with its first character that is not white space. -/
theorem State.reading_inlineStart {c : Char} (hc : isBlank c = false) (text : List Char) :
    State.inlineStart.reading ((c :: text).map (CharClass.classify .inlineComment)) =
      some .inlineBody := by
  have hkind : CharClass.classify .inlineComment c = .commentChar := by
    rw [CharClass.classify_inlineComment, if_neg (by simp [hc])]
  rw [List.map_cons, hkind]
  exact State.reading_inlineBody text

namespace Scan

/-- The end of the line ends the body, which is trimmed then. -/
theorem leads_of_inlineBody {scan : Scan} (hcoherent : scan.Coherent)
    (hmode : scan.mode = .inlineComment) (hstate : scan.state = .inlineBody) :
    ∃ later : Scan, scan.Leads [.endOfLine] [trimRight scan.text] later [] := by
  let t : Step := ⟨scan, .endOfLine⟩
  have haction : t.action = .acceptBack1 := by
    have hmove : t.move = transition scan.state .endOfLine := by
      rcases t.move_cases with htable | ⟨_, hdirective, _⟩
      · exact htable
      · rw [hstate] at hdirective
        cases hdirective
    rw [Step.action, hmove, hstate]
    rfl
  have hbody : t.body = trimRight scan.text := by
    rw [Step.body, if_pos hmode, Step.ended_of_givesBack (Or.inl haction)]
  have hleads := Step.leads t []
  rw [Step.token?_eq_some_body hcoherent (by simp [haction]) (by simp [haction]), hbody,
    Step.unread_of_givesBack (Or.inl haction)] at hleads
  have hfront := Step.atFront_after (t := t) hcoherent (by simp [haction])
  obtain ⟨later, _, hskips⟩ := hfront.skips .endOfLine (Or.inr rfl) []
  exact ⟨later, hleads.trans hskips⟩

/-- Behind the mark of an inline comment the tokens are its body. -/
theorem AtFront.run_commentBody {front : Scan} (hfront : front.AtFront .inlineComment)
    (rest : List Char) : CommentBody rest (front.run (lineSymbols rest)).tokens := by
  induction rest generalizing front with
  | nil =>
      obtain ⟨later, _, hskips⟩ := hfront.skips .endOfLine (Or.inr rfl) []
      have htokens : (front.run (lineSymbols [])).tokens = [] := by
        rw [lineSymbols_nil, hskips.tokens_eq, run_nil]
        rfl
      rw [htokens]
      exact .blank Blank.nil
  | cons c rest ih =>
      cases hc : isBlank c with
      | true =>
          obtain ⟨later, hlater, hskips⟩ := hfront.skips (.char c)
            (Or.inl (CharClass.classify_of_isBlank .inlineComment hc)) (lineSymbols rest)
          rw [lineSymbols_cons, hskips.tokens_eq]
          exact (ih hlater).cons_blank hc
      | false =>
          -- From here on all is read into one token, up to the end of the line.
          have hstart : front.state = .inlineStart := hfront.state_eq
          have hreading : front.state.reading ((c :: rest).map (CharClass.classify front.mode)) =
              some .inlineBody := by
            rw [hstart, hfront.mode_eq]
            exact State.reading_inlineStart hc rest
          obtain ⟨scan, hmode, hstate, hpending, hreads⟩ := leads_of_reading hreading [.endOfLine]
          rw [hfront.mode_eq] at hmode
          rw [hfront.pending_eq, List.append_nil] at hpending
          have htext : scan.text = c :: rest := by
            rw [Scan.text, hpending, List.reverse_reverse]
          have hcoherent : scan.Coherent := by
            rw [Coherent, kinds, htext, hmode, hstate]
            exact State.reading_inlineStart hc rest
          obtain ⟨later, hends⟩ := leads_of_inlineBody hcoherent hmode hstate
          have htokens := (hreads.trans hends).tokens_eq
          rw [htext, run_nil] at htokens
          rw [lineSymbols, htokens]
          exact commentBody_trimRight ⟨c, rest, rfl, hc⟩

/-- A scan of an inline comment stays in it. -/
theorem run_steps_inlineComment (scan : Scan) (symbols : List Symbol) :
    scan.Coherent → scan.mode = .inlineComment →
      ∀ t ∈ (scan.run symbols).steps, t.scan.mode = .inlineComment := by
  induction scan, symbols using run_induction with
  | hnil scan =>
      intro _ _ t hmem
      rw [run_nil] at hmem
      cases hmem
  | hcons t rest ih =>
      intro hcoherent hmode
      rw [run_cons_steps]
      refine List.forall_mem_cons.mpr ⟨hmode, ?_⟩
      exact ih (Step.coherent_after hcoherent) (Step.mode_of_inlineComment hcoherent hmode)

end Scan

section Line

variable {mode : Mode} {line : List Char} {before after : List Step} {t : Step}
  (hsplit : (scanLine mode line).steps = before ++ t :: after)
  (haction : t.action = .startInlineComment)

include hsplit haction

/-- A scan enters an inline comment on the second slash of its mark and is then at the front of the
body, which takes up all the other steps. -/
theorem scanLine_startInlineComment :
    ∃ code rest, line = code ++ '/' :: '/' :: rest ∧ t.scan.offset = code.length + 1 ∧
      t.after.AtFront .inlineComment ∧ (t.after.run (lineSymbols rest)).steps = after := by
  obtain ⟨symbols, hcoherent, hwithin, hsteps⟩ := scanLine_steps_within hsplit
  have hmark : t.action = CommentMark.inlineOpening.action := haction
  have hconsumes : t.action.consumes = true := by rw [haction]; rfl
  obtain ⟨hstate, hkind⟩ := Step.state_of_mark hmark
  have htext : t.scan.text = ['/'] := hcoherent.text_eq_first hstate
  obtain ⟨c, hsymbol⟩ := Step.exists_char_of_consumes hconsumes
  obtain rfl : c = '/' := by
    rw [Step.kind, hsymbol] at hkind
    exact CharClass.eq_of_char?_classify (congrArg CharClass.char? hkind)
  cases hwithin with
  | finished _ _ hsymbols => cases hsymbols
  | inside read left hline hoffset hsuffix hsymbols =>
      rw [hsymbol] at hsymbols
      cases left with
      | nil => cases hsymbols
      | cons d rest =>
          obtain ⟨hd, rfl⟩ := List.cons.inj hsymbols
          obtain rfl := Symbol.char.inj hd
          obtain ⟨code, rfl⟩ := hsuffix
          rw [htext] at hline hoffset
          refine ⟨code, rest, by rw [hline, List.append_assoc]; rfl, ?_, ?_, ?_⟩
          · rw [hoffset, List.length_append, List.length_singleton]
          · have hfront := Step.atFront_after hcoherent (t := t) (by simp [haction])
            rwa [Step.mode, haction] at hfront
          · rw [Scan.run_cons_steps, Step.unread_of_consumes hconsumes, List.nil_append] at hsteps
            exact (List.cons.inj hsteps).2

/-- The token that ends on the second slash is the mark. -/
theorem Step.token?_of_startInlineComment : t.token? = some ['/', '/'] := by
  have hcoherent : t.scan.Coherent := scanLine_coherent (by rw [hsplit]; simp)
  have hmark : t.action = CommentMark.inlineOpening.action := haction
  have hmode := mode_ne_inlineComment hcoherent
    (Or.inl ⟨by rw [haction]; rfl, by simp [haction]⟩)
  rw [token?_eq_some_body hcoherent (by simp [haction]) (by simp [haction]), Step.body,
    if_neg hmode, ended_of_mark hcoherent hmark]
  rfl

/-- From the mark on all is in the comment. -/
theorem mode_eq_of_startInlineComment {other : Step} (hmem : other ∈ t :: after) :
    other.after.mode = .inlineComment ∧ (other ∈ after → other.scan.mode = .inlineComment) := by
  obtain ⟨_, rest, _, _, hfront, hsteps⟩ := scanLine_startInlineComment hsplit haction
  have hmodes : ∀ later ∈ after, later.scan.mode = .inlineComment := by
    rw [← hsteps]
    exact Scan.run_steps_inlineComment _ _ hfront.coherent hfront.mode_eq
  refine ⟨?_, hmodes other⟩
  rcases List.mem_cons.mp hmem with rfl | hafter
  · exact hfront.mode_eq
  · have hcoherent : other.scan.Coherent := scanLine_coherent (by rw [hsplit]; simp [hafter])
    exact Step.mode_of_inlineComment hcoherent (hmodes other hafter)

/-- No literal reaches the end of the line. -/
theorem Step.not_cuts_of_startInlineComment {other : Step}
    (hmem : other ∈ (scanLine mode line).steps) (construct : Construct) :
    ¬ other.Cuts construct := by
  intro hcuts
  rw [hsplit, List.mem_append, List.mem_cons] at hmem
  rcases hmem with hbefore | rfl | hafter
  · -- After a literal that is cut off there is nothing but the end of the line.
    obtain ⟨earlier, between, rfl⟩ := List.append_of_mem hbefore
    rw [List.append_assoc, List.cons_append] at hsplit
    obtain ⟨skip, hskip, _, hskips⟩ := hcuts.after_eq hsplit
    have hmem : t ∈ between ++ t :: after := by simp
    rw [hskip, List.mem_singleton] at hmem
    rw [← hmem, haction] at hskips
    cases hskips
  · rw [hcuts.action_eq] at haction
    cases haction
  · have hmode := (mode_eq_of_startInlineComment hsplit haction
      (List.mem_cons_of_mem t hafter)).2 hafter
    have hcoherent : other.scan.Coherent := scanLine_coherent (by rw [hsplit]; simp [hafter])
    exact (Mode.outside_of_openLiteral _ _ hcoherent.owns_state (by simp [hcuts.2])).1 hmode

/-- An inline comment is its mark and at most one token behind it.  The line has no reports, and the
next line starts in code. -/
theorem scanLine_inlineComment :
    (∃ code rest, line = code ++ '/' :: '/' :: rest ∧ t.scan.offset = code.length + 1 ∧
      CommentBody rest (after.filterMap Step.token?)) ∧
    (scanLine mode line).tokens =
      before.filterMap Step.token? ++ ['/', '/'] :: after.filterMap Step.token? ∧
    (∀ report number, (scanLine mode line).warnings report number = []) ∧
    carriedMode mode line = .normal := by
  obtain ⟨code, rest, hline, hoffset, hfront, hsteps⟩ :=
    scanLine_startInlineComment hsplit haction
  refine ⟨⟨code, rest, hline, hoffset, ?_⟩, ?_, ?_, ?_⟩
  · rw [← hsteps]
    exact hfront.run_commentBody rest
  · rw [Run.tokens, hsplit, List.filterMap_append, filterMap_cons_toList,
      Step.token?_of_startInlineComment hsplit haction]
    rfl
  · intro report number
    rw [Run.warnings, List.filterMap_eq_nil_iff]
    intro other hmem
    exact Step.warning?_eq_none (scanLine_coherent hmem)
      (Step.not_cuts_of_startInlineComment hsplit haction hmem) report number
  · cases hlast : (t :: after).getLast? with
    | none => cases List.getLast?_eq_none_iff.mp hlast
    | some last =>
        have hmode := (mode_eq_of_startInlineComment hsplit haction
          (List.mem_of_getLast? hlast)).1
        have hafter : (scanLine mode line).last = last.after := by
          rw [scanLine, Scan.run_last_eq, ← scanLine, hsplit, List.getLast?_append, hlast]
          rfl
        rw [carriedMode, hafter, Scan.park, hmode]
        rfl

end Line

end LineLexer
