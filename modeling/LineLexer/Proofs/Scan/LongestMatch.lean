import LineLexer.Proofs.Grammar.Longest
import LineLexer.Proofs.Scan.Reconstruction
/-!
A scan of code takes the longest token.

Within a token a scan of code follows `State.readCode` until the table stops, and the token
that the step there delivers is the one of `Grammar.tokenOf`.  So what the grammar says about
the texts at which the table stops holds of the lines that are scanned.
-/

namespace LineLexer

open Grammar

namespace Step

variable {t : Step}

/-- In code the step that ends a token stops at what has been read. -/
theorem stops_of_not_store {left : List Char} (hcoherent : t.scan.Coherent)
    (hmode : t.scan.mode = .normal) (hkind : t.kind = nextKind left)
    (hstore : t.action ≠ .store) :
    Stops (t.scan.text ++ left) t.scan.text left t.scan.state where
  text_eq := rfl
  readCode_eq := by
    rw [Scan.Coherent, Scan.kinds, hmode] at hcoherent
    exact hcoherent
  not_store := by
    rw [← hkind]
    intro htable
    by_cases hinclude : t.action = .startInclude
    · rw [(move_of_startInclude hinclude).2.2] at htable
      cases htable
    · rw [transition_action hinclude] at htable
      exact hstore htable

/-- The token of such a step is the one that the table ends. -/
theorem token?_eq_tokenOf {left : List Char} (hcoherent : t.scan.Coherent)
    (hmode : t.scan.mode = .normal) (hkind : t.kind = nextKind left)
    (hsymbol : t.symbol.chars = left.take 1)
    (hstore : t.action ≠ .store) (hignore : t.action ≠ .ignore) :
    t.token? =
      some (tokenOf (transition t.scan.state (nextKind left)).action t.scan.text left) := by
  have hbody : t.body = t.ended.reverse := by simp [Step.body, hmode]
  rw [token?_eq_some_body hcoherent hstore hignore, hbody, ← hkind]
  congr 1
  rcases shape hcoherent with ⟨_, _, haction⟩ | ⟨haction, _, _⟩ |
    ⟨c, hchar, hconsumes, _⟩ | ⟨haction, _⟩ | ⟨haction, last, first, others, hpending⟩
  · exact absurd haction hstore
  · exact absurd haction hignore
  · rw [ended_of_completes hchar hconsumes hstore,
      transition_action (ne_startInclude_of_consumes hconsumes), tokenOf, if_pos hconsumes,
      ← hsymbol, hchar]
    rfl
  · have htable : (transition t.scan.state t.kind).action = .acceptBack1 := by
      rcases haction with haction | haction
      · rw [transition_action (by simp [haction]), haction]
      · exact (move_of_startInclude haction).2.2
    rw [ended_of_givesBack haction, htable]
    rfl
  · rw [ended_of_givesBackTwo haction, transition_action (by simp [haction]), haction]
    exact List.dropLast_reverse.symm

end Step

/-- The first token that a scan delivers from inside a token on, or from a character that is
not white space, is the longest one. -/
theorem run_first_token (scan : Scan) (symbols : List Symbol) :
    scan.Coherent → scan.mode = .normal → ∀ left, symbols = lineSymbols left →
      (scan.text = [] → ∃ c others, left = c :: others ∧ isBlank c = false) →
      ∃ token, (scan.run symbols).tokens.head? = some token ∧
        (Unclosed (scan.text ++ left) → token = scan.text ++ left) ∧
        (¬ Unclosed (scan.text ++ left) → IsLongestLexeme (scan.text ++ left) token) := by
  induction scan, symbols using Scan.run_induction with
  | hnil scan =>
      intro _ _ left hsymbols
      exact absurd hsymbols.symm (lineSymbols_ne_nil left)
  | hcons t rest ih =>
      intro hcoherent hmode left hsymbols hsolid
      rw [Run.tokens_run_cons]
      by_cases hstore : t.action = .store
      · -- One character more has been read of the token.
        obtain ⟨c, hsymbol⟩ := Step.exists_char_of_consumes (t := t) (by rw [hstore]; rfl)
        cases left with
        | nil => simp [hsymbol] at hsymbols
        | cons d left =>
            simp only [lineSymbols_cons, hsymbol, List.cons.injEq, Symbol.char.injEq] at hsymbols
            obtain ⟨rfl, rfl⟩ := hsymbols
            have hunread : t.unread = [] := Step.unread_of_consumes (by rw [hstore]; rfl)
            have htext : t.after.text = t.scan.text ++ [c] := by
              simp [Scan.text, Step.after_pending_of_store hsymbol hstore]
            have hmodeAfter : t.after.mode = .normal :=
              (Step.mode_eq_of_store hstore).trans hmode
            have hlater := ih (Step.coherent_after hcoherent) hmodeAfter left (by rw [hunread]; rfl)
              (by simp [htext])
            rw [htext, List.append_assoc, List.singleton_append] at hlater
            rw [Step.token?_of_ended_eq_nil (Step.ended_of_store hstore)]
            exact hlater
      · have hkind : t.kind = nextKind left ∧ t.symbol.chars = left.take 1 := by
          cases left with
          | nil =>
              rw [lineSymbols_nil, List.cons.injEq] at hsymbols
              simp [Step.kind, hsymbols.1, Symbol.classify, Symbol.chars, nextKind]
          | cons c left =>
              rw [lineSymbols_cons, List.cons.injEq] at hsymbols
              simp [Step.kind, hsymbols.1, Symbol.classify, Symbol.chars, nextKind, hmode]
        have hignore : t.action ≠ .ignore := by
          intro hignore
          have htable := transition_ignore_iff t.scan.state t.kind
          rw [Step.transition_action (by simp [hignore])] at htable
          obtain ⟨hstart, hskipped⟩ := htable.mp hignore
          obtain ⟨c, others, rfl, hblank⟩ :=
            hsolid (Scan.text_eq_nil_iff.mpr (hcoherent.isStart_iff.mp hstart))
          rw [hkind.1, nextKind] at hskipped
          have hpresented := CharClass.classify_presented .normal hblank
          exact hskipped.elim hpresented.2.1 hpresented.2.2
        have hstops := Step.stops_of_not_store hcoherent hmode hkind.1 hstore
        rw [Step.token?_eq_tokenOf hcoherent hmode hkind.1 hkind.2 hstore hignore]
        exact ⟨_, rfl, hstops.longest hsolid⟩

/-- Wherever a scan of a line stands in code with nothing pending and looks at a character
that is not white space, the next token is the longest one that the rest of the line starts
with.  Only the rest of a line that starts with a literal which is never closed is taken as a
whole. -/
theorem scanLine_next_token {mode : Mode} {line : List Char} {before after : List Step}
    {t : Step} {c : Char} (hsplit : (scanLine mode line).steps = before ++ t :: after)
    (hmode : t.scan.mode = .normal) (hpending : t.scan.pending = [])
    (hsymbol : t.symbol = .char c) (hblank : isBlank c = false) :
    ∃ token, ((t :: after).filterMap Step.token?).head? = some token ∧
      (Unclosed (line.drop t.scan.offset) → token = line.drop t.scan.offset) ∧
      (¬ Unclosed (line.drop t.scan.offset) →
        IsLongestLexeme (line.drop t.scan.offset) token) := by
  obtain ⟨rest, hcoherent, hwithin, hsteps⟩ := scanLine_steps_within hsplit
  rw [hsymbol] at hwithin
  obtain ⟨others, hleft, rfl⟩ := hwithin.left_of_char
  have htext : t.scan.text = [] := Scan.text_eq_nil_iff.mpr hpending
  have hfirst := run_first_token t.scan (t.symbol :: lineSymbols others) hcoherent hmode
    (c :: others) (by rw [hsymbol, lineSymbols_cons]) fun _ => ⟨c, others, rfl, hblank⟩
  rw [htext, List.nil_append, Run.tokens, hsteps] at hfirst
  rw [hleft]
  exact hfirst

/-- At the end of its line a sign after an exponent letter is no part of the number. -/
theorem scanLine_next_token_number :
    ∃ token, (scanLine .normal ['1', 'e', '+']).tokens.head? = some token ∧
      (Unclosed ['1', 'e', '+'] → token = ['1', 'e', '+']) ∧
      (¬ Unclosed ['1', 'e', '+'] → IsLongestLexeme ['1', 'e', '+'] token) := by
  have hsplit : ∃ after : List Step, (scanLine .normal ['1', 'e', '+']).steps =
      [] ++ (⟨.ofMode .normal, .char '1'⟩ : Step) :: after :=
    ⟨_, Scan.run_cons_steps ⟨.ofMode .normal, .char '1'⟩ (lineSymbols ['e', '+'])⟩
  obtain ⟨after, hsplit⟩ := hsplit
  have hnext := scanLine_next_token hsplit rfl rfl rfl (by decide)
  rw [Run.tokens, hsplit]
  exact hnext

end LineLexer
