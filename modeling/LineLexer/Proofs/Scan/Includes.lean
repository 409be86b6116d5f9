import LineLexer.Proofs.Scan.Respacing
/-!
What an include directive changes.

After an include directive the angle brackets have classes of their own, and everything else is
read like any other code.  So a scan that meets no angle bracket finds the same tokens with and
without the directive before it (`scanLine_includeLiteral`).
-/

namespace LineLexer

variable {c : Char} {t : Step} {line : List Char}

theorem CharClass.classify_includeLiteral (hangle : c ≠ '<' ∧ c ≠ '>') :
    CharClass.classify .includeLiteral c = CharClass.classify .normal c := by
  unfold CharClass.classify
  split
  · rfl
  · dsimp only
    split
    · exact absurd rfl hangle.1
    · exact absurd rfl hangle.2
    · rfl

theorem transition_accept_literal : ∀ state kind, (transition state kind).action = .accept →
    state = .angleLiteral ∨ state = .string → (transition state kind).next = .start := by
  decide

/-- An include directive is answered, or stays to be answered, or a step leads away from it in
the same way in which it would lead away from the code before the directive. -/
theorem nextMode_includeLiteral (state : State) (action : Action) :
    nextMode .includeLiteral state action = .includeLiteral ∧
        nextMode .normal state action = .normal ∨
      nextMode .includeLiteral state action = nextMode .normal state action ∧
        (action = .startInclude ∨
          action = .accept ∧ (state = .angleLiteral ∨ state = .string) ∨
            (nextMode .normal state action).startState ≠ .start) := by
  cases action <;> revert state <;> decide

/-- The same situation without an include directive before it. -/
def Scan.inNormal (scan : Scan) : Scan :=
  { scan with mode := .normal }

/-- The same step without an include directive before it. -/
def Step.inNormal (t : Step) : Step :=
  ⟨t.scan.inNormal, t.symbol⟩

namespace Step

/-- The answer to a directive, and a directive itself, lead back to the start of code. -/
theorem next_eq_start (hends : t.action = .startInclude ∨
    t.action = .accept ∧ (t.scan.state = .angleLiteral ∨ t.scan.state = .string)) :
    t.move.next = .start := by
  rcases hends with hinclude | ⟨haccept, hliteral⟩
  · rw [(move_of_startInclude hinclude).1]
  · have hne : t.action ≠ .startInclude := by simp [haccept]
    rw [move_eq_transition hne]
    exact transition_accept_literal _ _ ((transition_action hne).trans haccept) hliteral

variable (hkind : t.inNormal.kind = t.kind)

include hkind

theorem inNormal_move : t.inNormal.move = t.move := by
  rw [Step.move, Step.move, hkind]
  rfl

theorem inNormal_action : t.inNormal.action = t.action :=
  congrArg Move.action (inNormal_move hkind)

theorem inNormal_held : t.inNormal.held = t.held := by
  rw [Step.held, Step.held, inNormal_action hkind]
  rfl

theorem inNormal_unread : t.inNormal.unread = t.unread := by
  rw [Step.unread, Step.unread, inNormal_action hkind]
  rfl

theorem inNormal_token? (hmode : t.scan.mode = .includeLiteral) :
    t.inNormal.token? = t.token? := by
  have hnormal : t.inNormal.scan.mode = .normal := rfl
  have hended : t.inNormal.ended = t.ended := by
    rw [Step.ended, Step.ended, inNormal_action hkind, inNormal_held hkind]
  simp [Step.token?, hended, hmode, hnormal]

theorem inNormal_after : t.inNormal.after = { t.after with
    mode := t.inNormal.mode
    state := if t.inNormal.mode = .normal then t.move.next else t.inNormal.mode.startState } := by
  have hnormal : t.inNormal.scan.mode = .normal := rfl
  simp only [Step.after, inNormal_move hkind, inNormal_action hkind, inNormal_held hkind,
    inNormal_unread hkind, hnormal]
  rfl

/-- After a step the directive is still to be answered, or it has lost its effect. -/
theorem inNormal_after_cases (hmode : t.scan.mode = .includeLiteral) :
    t.mode = .includeLiteral ∧ t.inNormal.after = t.after.inNormal ∨
      t.inNormal.after = t.after := by
  have hmodes := nextMode_includeLiteral t.scan.state t.action
  have hstate : t.after.state =
      if t.mode = .includeLiteral then t.move.next else t.mode.startState := by
    rw [← hmode]
    rfl
  have hthis : t.mode = nextMode .includeLiteral t.scan.state t.action := by
    rw [← hmode]
    rfl
  have hthat : t.inNormal.mode = nextMode .normal t.scan.state t.action := by
    rw [← inNormal_action hkind]
    rfl
  rw [← hthis, ← hthat] at hmodes
  rw [inNormal_after hkind]
  rcases hmodes with ⟨hkept, hnone⟩ | ⟨hsame, hends⟩
  · refine Or.inl ⟨hkept, ?_⟩
    rw [Scan.inNormal, hstate, hnone, hkept]
    rfl
  · have hstart : t.mode.startState = .start → t.move.next = .start := by
      intro hcode
      rcases hends with hinclude | hanswer | hcomment
      · exact next_eq_start (Or.inl hinclude)
      · exact next_eq_start (Or.inr hanswer)
      · rw [← hsame] at hcomment
        exact absurd hcode hcomment
    have hagree : (if t.mode = .normal then t.move.next else t.mode.startState) =
        t.after.state := by
      rw [hstate]
      cases hcase : t.mode with
      | normal | includeLiteral => simp [hstart (by rw [hcase]; rfl), Mode.startState]
      | blockComment | inlineComment => rfl
    rw [← hsame, hagree]
    exact Or.inr rfl

end Step

/-- Without angle brackets an include directive makes no difference. -/
theorem Scan.run_inNormal (hangle : ∀ c ∈ line, c ≠ '<' ∧ c ≠ '>') (scan : Scan)
    (symbols : List Symbol) :
    scan.Coherent → Scan.Within line scan symbols → scan.mode = .includeLiteral →
      (scan.inNormal.run symbols).tokens = (scan.run symbols).tokens ∧
        (scan.inNormal.run symbols).last.mode.atLineEnd =
          (scan.run symbols).last.mode.atLineEnd := by
  induction scan, symbols using Scan.run_induction with
  | hnil scan =>
      intro _ _ hmode
      rw [Scan.run_nil, Scan.run_nil, hmode]
      exact ⟨rfl, rfl⟩
  | hcons t rest ih =>
      intro hcoherent hwithin hmode
      have hkind : t.inNormal.kind = t.kind := by
        rw [Step.kind, Step.kind, hmode]
        cases hsymbol : t.symbol with
        | endOfLine => simp [Step.inNormal, hsymbol, Symbol.classify]
        | char c =>
            rw [hsymbol] at hwithin
            obtain ⟨others, hdrop, _⟩ := hwithin.left_of_char
            have hmem : c ∈ line := List.mem_of_mem_drop (hdrop ▸ List.mem_cons_self)
            simp [Step.inNormal, hsymbol, Symbol.classify, Scan.inNormal,
              CharClass.classify_includeLiteral (hangle c hmem)]
      have hfirst := t.inNormal.leads rest
      have hsecond := t.leads rest
      rw [Step.inNormal_token? hkind hmode, Step.inNormal_unread hkind] at hfirst
      have hstart : t.inNormal.scan.run (t.inNormal.symbol :: rest) =
          t.scan.inNormal.run (t.symbol :: rest) := rfl
      rw [← hstart, hfirst.tokens_eq, hfirst.last_eq, hsecond.tokens_eq, hsecond.last_eq]
      rcases Step.inNormal_after_cases hkind hmode with ⟨hnext, hafter⟩ | hafter
      · obtain ⟨htokens, hlast⟩ := ih (Step.coherent_after hcoherent)
          (Step.within_after hcoherent hwithin) hnext
        rw [hafter, htokens, hlast]
        exact ⟨rfl, rfl⟩
      · rw [hafter]
        exact ⟨rfl, rfl⟩

theorem scanLine_includeLiteral (hangle : ∀ c ∈ line, c ≠ '<' ∧ c ≠ '>') :
    (scanLine .includeLiteral line).tokens = (scanLine .normal line).tokens ∧
      carriedMode .includeLiteral line = carriedMode .normal line := by
  obtain ⟨htokens, hlast⟩ := Scan.run_inNormal hangle (Scan.ofMode .includeLiteral)
    (lineSymbols line) (Scan.coherent_ofMode _) (Scan.within_ofMode _ line) rfl
  exact ⟨htokens.symm, hlast.symm⟩

/-- In code the mode matters only to angle brackets. -/
theorem scanLine_code {mode : Mode} (hcode : mode = .normal ∨ mode = .includeLiteral)
    (hsame : mode = .normal ∨ ∀ c ∈ line, c ≠ '<' ∧ c ≠ '>') :
    (scanLine mode line).tokens = (scanLine .normal line).tokens ∧
      carriedMode mode line = carriedMode .normal line := by
  rcases hcode with rfl | rfl
  · exact ⟨rfl, rfl⟩
  · rcases hsame with hnormal | hangle
    · cases hnormal
    · exact scanLine_includeLiteral hangle

end LineLexer
