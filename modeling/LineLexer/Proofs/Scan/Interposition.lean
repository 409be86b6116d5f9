import LineLexer.Proofs.Scan.Marks
import LineLexer.Proofs.Scan.Respacing
/-!
A block comment put into a gap between two tokens.

A scan never comes back behind white space that it has passed, so what stands before a gap is
scanned in the same way whatever follows the gap (`leads_to_gap`).  A comment in a gap of code
is read as its two marks and its word, and the scan goes on at the front of a token in normal
mode.  That is the mode of the gap, unless an include directive stands before it.
-/

namespace LineLexer

section Alike

theorem Scan.Alike.after {first second : Scan} (halike : first.Alike second) (symbol : Symbol) :
    (⟨first, symbol⟩ : Step).after.Alike (⟨second, symbol⟩ : Step).after := by
  obtain ⟨mode, state, pending, _, _⟩ := first
  obtain ⟨_, _, _, _, _⟩ := second
  obtain ⟨rfl, rfl, rfl⟩ := halike
  exact ⟨rfl, rfl, rfl⟩

/-- Alike scans find the same tokens and leave the same mode. -/
theorem Scan.Alike.run (second : Scan) (symbols : List Symbol) :
    ∀ first : Scan, first.Alike second →
      (first.run symbols).tokens = (second.run symbols).tokens ∧
        (first.run symbols).last.mode = (second.run symbols).last.mode := by
  induction second, symbols using Scan.run_induction with
  | hnil second =>
      intro first halike
      rw [Scan.run_nil, Scan.run_nil]
      exact ⟨rfl, halike.mode_eq⟩
  | hcons t rest ih =>
      intro first halike
      obtain ⟨htoken, _, _, hunread⟩ := halike.step t.symbol
      obtain ⟨htokens, hlast⟩ := ih _ (halike.after t.symbol)
      have hfirst := Step.leads ⟨first, t.symbol⟩ rest
      have hsecond := t.leads rest
      rw [htoken, hunread] at hfirst
      rw [hfirst.tokens_eq, hfirst.last_eq, hsecond.tokens_eq, hsecond.last_eq, htokens, hlast]
      exact ⟨rfl, rfl⟩

/-- At the front of a token only the mode matters. -/
theorem Scan.AtFront.run_eq {mode : Mode} {front : Scan} (hfront : front.AtFront mode)
    (line : List Char) :
    (front.run (lineSymbols line)).tokens = (scanLine mode line).tokens ∧
      (front.run (lineSymbols line)).last.mode = (scanLine mode line).last.mode :=
  Scan.Alike.run (Scan.ofMode mode) (lineSymbols line) front
    ⟨hfront.mode_eq, hfront.state_eq, hfront.pending_eq⟩

/-- A way to the front of a token leaves the rest of the line as a line of its own. -/
theorem Scan.Leads.scanLine_eq {mode last : Mode} {line rest : List Char}
    {tokens : List (List Char)} {later : Scan}
    (hleads : (Scan.ofMode mode).Leads (lineSymbols line) tokens later (lineSymbols rest))
    (hlater : later.AtFront last) :
    (scanLine mode line).tokens = tokens ++ (scanLine last rest).tokens ∧
      carriedMode mode line = carriedMode last rest := by
  obtain ⟨htokens, hlast⟩ := hlater.run_eq rest
  have hmode : (scanLine mode line).last.mode = (scanLine last rest).last.mode :=
    (congrArg Scan.mode hleads.last_eq).trans hlast
  exact ⟨hleads.tokens_eq.trans (by rw [htokens]), congrArg Mode.atLineEnd hmode⟩

end Alike

section Gap

/-- White space is not read on trust. -/
theorem transition_store_onTrust_ne_whitespace : ∀ state kind,
    (transition state kind).action = .store → (transition state kind).next.onTrust = true →
      kind ≠ .whitespace := by
  decide

theorem Scan.Coherent.not_isBlank_of_onTrust {scan : Scan} (hcoherent : scan.Coherent)
    (htrust : scan.state.onTrust = true) {last : Char} {others : List Char}
    (hpending : scan.pending = last :: others) : isBlank last = false := by
  have hkinds : scan.kinds = others.reverse.map (CharClass.classify scan.mode) ++
      [CharClass.classify scan.mode last] := by
    simp [Scan.kinds, Scan.text, hpending]
  rw [Scan.Coherent, hkinds, State.reading_concat] at hcoherent
  obtain ⟨middle, _, hstore, hnext⟩ := hcoherent
  have hkind := transition_store_onTrust_ne_whitespace middle _ hstore (by rw [hnext]; exact htrust)
  rw [Ne, CharClass.classify_eq_whitespace_iff] at hkind
  exact Bool.eq_false_iff.mpr hkind

namespace Scan.Within

variable {line : List Char} {scan : Scan} {symbols : List Symbol}

/-- What is left of a line is what follows the offset. -/
theorem symbols_eq (hwithin : Within line scan symbols) (hbound : scan.offset ≤ line.length) :
    symbols = lineSymbols (line.drop scan.offset) := by
  cases hwithin with
  | inside read left hline hoffset _ hsymbols => rw [hsymbols, hline, hoffset, List.drop_left]
  | finished hoffset _ _ => omega

/-- The character read last is the last one before the offset. -/
theorem take_offset (hwithin : Within line scan symbols) {last : Char} {others : List Char}
    (hpending : scan.pending = last :: others) :
    ∃ front, line.take scan.offset = front ++ [last] := by
  cases hwithin with
  | finished _ hnone _ =>
      rw [hnone] at hpending
      cases hpending
  | inside read left hline hoffset htext _ =>
      obtain ⟨front, rfl⟩ := htext
      refine ⟨front ++ others.reverse, ?_⟩
      rw [hline, hoffset, List.take_left]
      simp [Scan.text, hpending]

/-- The line at a character that is looked at. -/
theorem split_of_char {c : Char} {rest : List Symbol}
    (hwithin : Within line scan (.char c :: rest)) :
    line = line.take scan.offset ++ c :: line.drop (scan.offset + 1) ∧
      (line.take scan.offset).length = scan.offset := by
  obtain ⟨others, hdrop, _⟩ := hwithin.left_of_char
  have hlt : scan.offset < line.length := by
    by_contra hend
    rw [List.drop_of_length_le (Nat.le_of_not_lt hend)] at hdrop
    cases hdrop
  rw [List.drop_eq_getElem_cons hlt] at hdrop
  refine ⟨?_, List.length_take_of_le (Nat.le_of_lt hlt)⟩
  rw [← (List.cons.inj hdrop).1, ← List.drop_eq_getElem_cons hlt, List.take_append_drop]

end Scan.Within

namespace Step

variable {t : Step} {front left : List Char} {c : Char} {rest : List Symbol}

/-- A character that is skipped is white space in front of a token. -/
theorem gap_of_ignore (hcoherent : t.scan.Coherent) (hskips : t.action = .ignore)
    (hsymbol : t.symbol = .char c) : t.scan.AtFront t.scan.mode ∧ isBlank c = true := by
  rcases shape hcoherent with ⟨_, _, haction⟩ | ⟨_, hpending, hblank⟩ | ⟨_, _, hconsumes, _⟩ |
    ⟨haction, _⟩ | ⟨haction, _⟩
  · simp [hskips] at haction
  · exact ⟨⟨rfl, hcoherent.state_eq_startState hpending, hpending⟩, hblank c hsymbol⟩
  · simp [hskips, Action.consumes] at hconsumes
  · simp [hskips] at haction
  · simp [hskips] at haction

/-- A step never leads back to white space that has been passed. -/
theorem lt_after_offset (hcoherent : t.scan.Coherent)
    (hwithin : Scan.Within (front ++ c :: left) t.scan (t.symbol :: rest))
    (hblank : isBlank c = true) (hpassed : front.length < t.scan.offset) :
    front.length < t.after.offset := by
  have hoffset : t.after.offset = t.scan.offset + 1 - t.unread.length := rfl
  rcases shape hcoherent with ⟨_, _, haction⟩ | ⟨haction, _, _⟩ | ⟨_, _, hconsumes, _⟩ |
    ⟨haction, _⟩ | ⟨haction, last, first, others, hpending⟩
  · rw [hoffset, unread_of_consumes (by rw [haction]; rfl), List.length_nil]
    omega
  · have hunread : t.unread = [] := by simp [Step.unread, haction]
    rw [hoffset, hunread, List.length_nil]
    omega
  · rw [hoffset, unread_of_consumes hconsumes, List.length_nil]
    omega
  · rw [hoffset, unread_of_givesBack haction, List.length_singleton]
    omega
  · -- Only the last character is given back, and it is no white space.
    have htable : (transition t.scan.state t.kind).action = .acceptBack2 := by
      rw [transition_action (by simp [haction]), haction]
    have hsolid := hcoherent.not_isBlank_of_onTrust (transition_acceptBack2_onTrust _ _ htable)
      hpending
    have hne : t.scan.offset ≠ front.length + 1 := by
      intro hnext
      obtain ⟨others, htake⟩ := hwithin.take_offset hpending
      rw [hnext, List.append_cons, List.take_append_of_le_length (by simp),
        List.take_of_length_le (by simp)] at htake
      obtain ⟨_, hlast⟩ := List.append_inj' htake rfl
      obtain rfl := (List.cons.inj hlast).1
      rw [hsolid] at hblank
      cases hblank
    have hunread : t.unread.length = 2 := by simp [Step.unread, haction, hpending]
    rw [hoffset, hunread]
    omega

/-- A step that gives its symbol back does the same with another symbol of its class. -/
theorem eq_of_kind {other : Symbol} (hkind : (⟨t.scan, other⟩ : Step).kind = t.kind)
    (hback : t.action = .acceptBack1 ∨ t.action = .startInclude ∨ t.action = .acceptBack2) :
    (⟨t.scan, other⟩ : Step).token? = t.token? ∧ (⟨t.scan, other⟩ : Step).after = t.after := by
  have hmove : (⟨t.scan, other⟩ : Step).move = t.move := by
    rw [Step.move, Step.move, hkind]
  have haction : (⟨t.scan, other⟩ : Step).action = t.action := congrArg Move.action hmove
  have hheld : (⟨t.scan, other⟩ : Step).held = t.held := by
    rcases hback with hback | hback | hback <;>
      simp [Step.held, haction, hback, Action.consumes]
  have hended : (⟨t.scan, other⟩ : Step).ended = t.ended := by
    simp only [Step.ended, haction, hheld]
  have hmode : (⟨t.scan, other⟩ : Step).mode = t.mode := by
    simp only [Step.mode, haction]
  have hunread : (⟨t.scan, other⟩ : Step).unread.length = t.unread.length := by
    rcases hback with hback | hback | hback <;> simp [Step.unread, haction, hback]
  constructor
  · simp only [Step.token?, hended]
  · simp only [Step.after, haction, hheld, hmode, hmove, hunread]

end Step

variable {front left other : List Char} {c d : Char}

/-- A scan that is still to come to a gap has not passed it, since it would stay behind it. -/
theorem offset_le_of_gap (hc : isBlank c = true) {before after : List Step} {t : Step}
    {scan : Scan} {symbols : List Symbol} (hcoherent : scan.Coherent)
    (hwithin : Scan.Within (front ++ c :: left) scan symbols)
    (hsplit : (scan.run symbols).steps = before ++ t :: after)
    (hgap : t.scan.offset = front.length) : scan.offset ≤ front.length := by
  by_contra hpassed
  obtain ⟨_, ⟨_, _, hlater⟩, _⟩ := Scan.run_steps_invariant
    (P := fun scan symbols => scan.Coherent ∧ Scan.Within (front ++ c :: left) scan symbols ∧
      front.length < scan.offset)
    (fun _ _ h => ⟨Step.coherent_after h.1, Step.within_after h.1 h.2.1,
      Step.lt_after_offset h.1 h.2.1 hc h.2.2⟩)
    ⟨hcoherent, hwithin, Nat.lt_of_not_le hpassed⟩ hsplit
  omega

/-- Before a gap the same step is taken whatever follows the gap. -/
theorem step_before_gap (hc : isBlank c = true) (hd : isBlank d = true) {t : Step}
    {rest symbols : List Symbol}
    (hwithin : Scan.Within (front ++ c :: left) t.scan (t.symbol :: rest))
    (hother : Scan.Within (front ++ d :: other) t.scan symbols)
    (hbound : t.scan.offset ≤ front.length) (hafter : t.after.offset ≤ front.length) :
    ∃ symbol others, symbols = symbol :: others ∧
      (⟨t.scan, symbol⟩ : Step).token? = t.token? ∧
      (⟨t.scan, symbol⟩ : Step).after = t.after := by
  have hfirst := hwithin.symbols_eq (by simp; omega)
  have hsecond := hother.symbols_eq (by simp; omega)
  rw [List.drop_append_of_le_length hbound] at hfirst hsecond
  cases hmore : front.drop t.scan.offset with
  | cons e more =>
      rw [hmore, List.cons_append, lineSymbols_cons, List.cons.injEq] at hfirst
      rw [hmore, List.cons_append, lineSymbols_cons] at hsecond
      rw [← hfirst.1] at hsecond
      exact ⟨t.symbol, _, hsecond, rfl, rfl⟩
  | nil =>
      rw [hmore, List.nil_append, lineSymbols_cons, List.cons.injEq] at hfirst
      rw [hmore, List.nil_append, lineSymbols_cons] at hsecond
      have hend : front.length ≤ t.scan.offset := List.drop_eq_nil_iff.mp hmore
      refine ⟨.char d, _, hsecond, ?_⟩
      apply Step.eq_of_kind
      · simp only [Step.kind, hfirst.1, Symbol.classify, CharClass.classify_of_isBlank _ hc,
          CharClass.classify_of_isBlank _ hd]
      · -- The white space is given back, because the scan does not get behind it.
        have hunread : t.unread ≠ [] := by
          intro hnone
          rw [Step.after_offset_of_unread hnone] at hafter
          omega
        revert hunread
        unfold Step.unread
        cases t.action <;> simp

/-- The way of a scan to a gap is the same whatever follows the gap. -/
theorem leads_to_gap (hc : isBlank c = true) (hd : isBlank d = true) {before after : List Step}
    {t : Step} {scan : Scan} {symbols symbols' : List Symbol} (hcoherent : scan.Coherent)
    (hwithin : Scan.Within (front ++ c :: left) scan symbols)
    (hother : Scan.Within (front ++ d :: other) scan symbols')
    (hsplit : (scan.run symbols).steps = before ++ t :: after)
    (hgap : t.scan.offset = front.length) :
    scan.Leads symbols' (before.filterMap Step.token?) t.scan (.char d :: lineSymbols other) := by
  induction before generalizing scan symbols symbols' with
  | nil =>
      obtain ⟨_, rfl, _, _⟩ := Scan.exists_of_run_steps hsplit
      have hsymbols := hother.symbols_eq (by simp [hgap])
      rw [hgap, List.drop_left, lineSymbols_cons] at hsymbols
      rw [hsymbols]
      exact .refl _ _
  | cons first others ih =>
      have hbound := offset_le_of_gap hc hcoherent hwithin hsplit hgap
      obtain ⟨rest, rfl, rfl, hlater⟩ := Scan.exists_of_run_steps hsplit
      have hcoherent' := Step.coherent_after hcoherent
      have hwithin' := Step.within_after hcoherent hwithin
      have hafter := offset_le_of_gap hc hcoherent' hwithin' hlater hgap
      obtain ⟨symbol', rest', rfl, htoken, hsame⟩ :=
        step_before_gap hc hd hwithin hother hbound hafter
      have hother' := Step.within_after (t := ⟨first.scan, symbol'⟩) hcoherent hother
      rw [hsame] at hother'
      have hstep := Step.leads ⟨first.scan, symbol'⟩ rest'
      rw [htoken, hsame] at hstep
      rw [filterMap_cons_toList]
      exact hstep.trans (ih hcoherent' hwithin' hother' hlater)

end Gap

section Comment

/-- A mark is read in the modes in which it may occur, whatever follows it. -/
theorem readsBefore_mark (mark : CommentMark) {mode : Mode}
    (hmode : mode.startState = mark.start) (symbol : Symbol) :
    ReadsBefore mode [mark.first, mark.second] symbol
      (nextMode mode mark.middle mark.action) := by
  let t : Step := ⟨{ mode, state := mark.middle, pending := [mark.first] }, .char mark.second⟩
  have hfirst := (mark.transition_store_middle_iff _ _).mpr ⟨rfl, rfl⟩
  have hcoherent : t.scan.Coherent := by
    rw [Scan.Coherent]
    change mode.startState.reading [CharClass.classify mode mark.first] = some mark.middle
    rw [mark.classify_first hmode, hmode, State.reading, if_pos hfirst.1, hfirst.2]
    rfl
  have hkind : t.kind = mark.secondKind := mark.classify_second hmode
  have htable : (transition t.scan.state t.kind).action = mark.action :=
    (mark.transition_action_iff _ _).mpr ⟨rfl, hkind⟩
  have haction : t.action = mark.action := by
    rw [Step.action, Step.move_eq_of_ne_acceptBack1 (by rw [htable]; cases mark <;> decide), htable]
  have hconsumes : t.action.consumes = true := by rw [haction, mark.action_consumes]
  have hstore : t.action ≠ .store := by rw [haction]; exact mark.action_ne_store
  have hreads := readsBefore_of_completes hcoherent rfl hconsumes hstore symbol
  have hbody : t.body = [mark.first, mark.second] := by
    rw [Step.body, if_neg (mode_ne_inlineComment hcoherent (Or.inl ⟨hconsumes, hstore⟩))]
    exact Step.ended_of_mark hcoherent haction
  have hnext : t.mode = nextMode mode mark.middle mark.action := by
    rw [Step.mode, haction]
  rw [hbody, hnext] at hreads
  exact hreads

/-- Letters mean nothing in a block comment. -/
theorem CharClass.classify_of_isAlpha {c : Char} (hletter : c.isAlpha = true) :
    CharClass.classify .blockComment c = .commentChar := by
  have hcode : c.toNat < 0x80 ∧ 0x41 ≤ c.toNat := by
    have hcases : (c.isUpper || c.isLower) = true := hletter
    rcases Bool.or_eq_true _ _ ▸ hcases with hupper | hlower
    · have hbounds : 0x41 ≤ c.toNat ∧ c.toNat ≤ 0x5A := of_decide_eq_true hupper
      omega
    · obtain ⟨hfirst, hlast⟩ := Bool.and_eq_true_iff.mp hlower
      have hbounds : 0x61 ≤ c.toNat ∧ c.toNat ≤ 0x7A :=
        ⟨of_decide_eq_true hfirst, of_decide_eq_true hlast⟩
      omega
  have hblank : isBlank c = false := by
    simp only [isBlank, Bool.or_eq_false_iff, Bool.and_eq_false_iff, decide_eq_false_iff_not,
      beq_eq_false_iff_ne]
    omega
  unfold CharClass.classify
  rw [if_neg (by simp [hblank])]
  dsimp only
  split
  all_goals first
    | rfl
    | exact absurd hletter (by decide)

theorem reading_commentWord (count : Nat) :
    State.commentStart.reading (List.replicate (count + 1) .commentChar) = some .commentWord := by
  induction count with
  | zero => rfl
  | succ count ih =>
      rw [List.replicate_succ', State.reading_concat]
      exact ⟨.commentWord, ih, rfl, rfl⟩

theorem transition_commentWord_space :
    (transition .commentWord (Symbol.classify .blockComment (.char ' '))).action =
      .acceptBack1 := by
  decide

/-- A word of letters is one token of a block comment. -/
theorem readsBefore_commentWord {word : List Char} (hword : word ≠ [])
    (hletters : ∀ c ∈ word, c.isAlpha = true) :
    ReadsBefore .blockComment word (.char ' ') .blockComment := by
  let scan : Scan := { mode := .blockComment, state := .commentWord, pending := word.reverse }
  have htext : scan.text = word := List.reverse_reverse word
  have hkinds : scan.kinds = List.replicate word.length .commentChar := by
    rw [Scan.kinds, htext, List.map_eq_replicate_iff]
    exact fun c hc => CharClass.classify_of_isAlpha (hletters c hc)
  have hcoherent : scan.Coherent := by
    obtain ⟨count, hcount⟩ := Nat.exists_eq_succ_of_ne_zero (mt List.length_eq_zero_iff.mp hword)
    rw [Scan.Coherent, hkinds, hcount]
    exact reading_commentWord count
  have hinline : scan.mode ≠ .inlineComment := by simp [scan]
  have hreads := readsBefore_text hcoherent transition_commentWord_space
    fun hmode => absurd hmode hinline
  rw [htext] at hreads
  exact hreads

/-- A comment of one word, with a space on each side of its marks. -/
def wordComment (word : List Char) : List Char :=
  [' ', '/', '*', ' '] ++ word ++ [' ', '*', '/', ' ']

/-- The tokens of such a comment. -/
def wordCommentTokens (word : List Char) : List (List Char) :=
  [['/', '*'], word, ['*', '/']]

/-- From code a comment leads to the front of a token in normal mode. -/
theorem Scan.AtFront.leads_wordComment {mode : Mode} {front : Scan} (hfront : front.AtFront mode)
    (hcode : mode.startState = .start) {word : List Char} (hword : word ≠ [])
    (hletters : ∀ c ∈ word, c.isAlpha = true) (rest : List Symbol) :
    ∃ later : Scan, later.AtFront .normal ∧
      front.Leads ((wordComment word).map .char ++ rest) (wordCommentTokens word) later rest := by
  have hopening := readsBefore_mark .blockOpening hcode (.char ' ')
  have hblock : Mode.blockComment.startState = CommentMark.blockClosing.start := rfl
  have hclosing := readsBefore_mark .blockClosing hblock (.char ' ')
  obtain ⟨gap, hgap, hspace⟩ := hfront.skips_space
    (['/', '*'].map .char ++ .char ' ' :: (word.map .char ++ .char ' ' ::
      (['*', '/'].map .char ++ .char ' ' :: rest)))
  obtain ⟨opened, hopened, hopen⟩ := hopening.leads_space hgap _
  obtain ⟨inside, hinside, hread⟩ := (readsBefore_commentWord hword hletters).leads_space hopened _
  obtain ⟨later, hlater, hclose⟩ := hclosing.leads_space hinside _
  refine ⟨later, hlater, ?_⟩
  have hleads := hspace.trans (hopen.trans (hread.trans hclose))
  simpa [wordComment, wordCommentTokens, CommentMark.first, CommentMark.second] using hleads

end Comment

/-- The line with a comment of one word in place of the character at the offset. -/
def interposed (word line : List Char) (offset : Nat) : List Char :=
  line.take offset ++ wordComment word ++ line.drop (offset + 1)

section Interposed

variable {mode : Mode} {line word : List Char} {before after : List Step} {t : Step} {c : Char}

/-- Before a gap of code a line is scanned in the same way with and without a comment in the
gap.  Behind it the line is scanned in the mode of the gap without the comment, and in normal
mode with it. -/
theorem scanLine_interposed (hsplit : (scanLine mode line).steps = before ++ t :: after)
    (hskips : t.action = .ignore) (hsymbol : t.symbol = .char c)
    (hcode : t.scan.mode.startState = .start) (hword : word ≠ [])
    (hletters : ∀ d ∈ word, d.isAlpha = true) :
    let front := before.filterMap Step.token?
    let rest := line.drop (t.scan.offset + 1)
    let commented := interposed word line t.scan.offset
    ((scanLine mode line).tokens = front ++ (scanLine t.scan.mode rest).tokens ∧
        carriedMode mode line = carriedMode t.scan.mode rest) ∧
      (scanLine mode commented).tokens =
          front ++ wordCommentTokens word ++ (scanLine .normal rest).tokens ∧
        carriedMode mode commented = carriedMode .normal rest := by
  intro front rest commented
  obtain ⟨symbols, hcoherent, hwithin, _⟩ := scanLine_steps_within hsplit
  obtain ⟨hfront, hblank⟩ := Step.gap_of_ignore hcoherent hskips hsymbol
  rw [hsymbol] at hwithin
  obtain ⟨hline, hoffset⟩ := hwithin.split_of_char
  have hstart := Scan.within_ofMode mode line
  rw [hline] at hstart
  have hway : ∀ (d : Char) (other : List Char), isBlank d = true →
      (Scan.ofMode mode).Leads (lineSymbols (line.take t.scan.offset ++ d :: other)) front t.scan
        (.char d :: lineSymbols other) := by
    intro d other hd
    rw [hline] at hsplit
    exact leads_to_gap hblank hd (Scan.coherent_ofMode mode) hstart
      (Scan.within_ofMode mode _) hsplit hoffset.symm
  constructor
  · obtain ⟨later, hlater, hskip⟩ := hfront.skips (.char c)
      (Or.inl (CharClass.classify_of_isBlank _ hblank)) (lineSymbols rest)
    have hleads := (hway c rest hblank).trans hskip
    rw [← hline, List.append_nil] at hleads
    exact hleads.scanLine_eq hlater
  · obtain ⟨later, hlater, hcomment⟩ :=
      hfront.leads_wordComment hcode hword hletters (lineSymbols rest)
    have hgap := hway ' ' ((wordComment word).tail ++ rest) (by decide)
    have hsymbols : .char ' ' :: lineSymbols ((wordComment word).tail ++ rest) =
        (wordComment word).map .char ++ lineSymbols rest := by
      rw [← lineSymbols_append, ← lineSymbols_cons]
      rfl
    have hcommented : line.take t.scan.offset ++ ' ' :: ((wordComment word).tail ++ rest) =
        commented :=
      (List.append_assoc (line.take t.scan.offset) (wordComment word) rest).symm
    rw [hsymbols, hcommented] at hgap
    exact (hgap.trans hcomment).scanLine_eq hlater

end Interposed

end LineLexer
