import Mathlib.Data.List.DropRight
import LineLexer.Proofs.Scan.Reconstruction
/-!
The tokens of a line, written with one space between neighbours, are scanned again.

A token that a scan has found is found again, in the same mode, when a space or the end of the
line follows it instead of what followed it before, and the mode after it is the same
(`ReadsBefore`).  The exception is a token that only the end of its line has ended: it may go
on with a space, but then it is the last one of its line.  So the tokens of a line form a
chain through the modes (`Chain`), and whatever forms a chain is scanned as it is written.
-/

namespace LineLexer

/-- Two scans that differ in nothing but their positions. -/
structure Scan.Alike (first second : Scan) : Prop where
  mode_eq : first.mode = second.mode
  state_eq : first.state = second.state
  pending_eq : first.pending = second.pending

/-- A scan at the front of a token of the mode. -/
structure Scan.AtFront (mode : Mode) (scan : Scan) : Prop where
  mode_eq : scan.mode = mode
  state_eq : scan.state = mode.startState
  pending_eq : scan.pending = []

/-- The run of a scan leads to another scan and to the symbols that are left then, and
delivers some tokens on the way. -/
structure Scan.Leads (scan : Scan) (symbols : List Symbol) (tokens : List (List Char))
    (later : Scan) (rest : List Symbol) : Prop where
  tokens_eq : (scan.run symbols).tokens = tokens ++ (later.run rest).tokens
  last_eq : (scan.run symbols).last = (later.run rest).last

theorem Step.leads (t : Step) (rest : List Symbol) :
    t.scan.Leads (t.symbol :: rest) t.token?.toList t.after (t.unread ++ rest) :=
  ⟨Run.tokens_run_cons t rest, Scan.run_cons_last t rest⟩

namespace Scan

theorem Leads.refl (scan : Scan) (symbols : List Symbol) : scan.Leads symbols [] scan symbols :=
  ⟨rfl, rfl⟩

theorem Leads.trans {scan middle later : Scan} {symbols left rest : List Symbol}
    {tokens more : List (List Char)} (hfirst : scan.Leads symbols tokens middle left)
    (hsecond : middle.Leads left more later rest) :
    scan.Leads symbols (tokens ++ more) later rest where
  tokens_eq := by rw [hfirst.tokens_eq, hsecond.tokens_eq, List.append_assoc]
  last_eq := hfirst.last_eq.trans hsecond.last_eq

theorem AtFront.coherent {mode : Mode} {scan : Scan} (hfront : scan.AtFront mode) :
    scan.Coherent := by
  rw [Coherent, hfront.mode_eq, kinds, text, hfront.pending_eq, hfront.state_eq]
  rfl

theorem atFront_ofMode (mode : Mode) : (Scan.ofMode mode).AtFront mode :=
  ⟨rfl, rfl, rfl⟩

theorem Alike.coherent {first second : Scan} (halike : first.Alike second)
    (hcoherent : second.Coherent) : first.Coherent := by
  rw [Coherent, kinds, text] at hcoherent ⊢
  rw [halike.mode_eq, halike.state_eq, halike.pending_eq]
  exact hcoherent

end Scan

/-- Alike scans do the same with a symbol. -/
theorem Scan.Alike.step {first second : Scan} (halike : first.Alike second) (symbol : Symbol) :
    (⟨first, symbol⟩ : Step).token? = (⟨second, symbol⟩ : Step).token? ∧
      (⟨first, symbol⟩ : Step).action = (⟨second, symbol⟩ : Step).action ∧
      (⟨first, symbol⟩ : Step).mode = (⟨second, symbol⟩ : Step).mode ∧
      (⟨first, symbol⟩ : Step).unread = (⟨second, symbol⟩ : Step).unread := by
  obtain ⟨mode, state, pending, _, _⟩ := first
  obtain ⟨_, _, _, _, _⟩ := second
  obtain ⟨rfl, rfl, rfl⟩ := halike
  exact ⟨rfl, rfl, rfl, rfl⟩

namespace Step

variable {t : Step}

/-- Unless the table ends the token before the symbol, its text makes no difference. -/
theorem move_eq_of_ne_acceptBack1
    (htable : (transition t.scan.state t.kind).action ≠ .acceptBack1) :
    t.move = transition t.scan.state t.kind := by
  rcases t.move_cases with hmove | ⟨_, _, hback⟩
  · exact hmove
  · exact absurd hback htable

/-- A step that ends a token, or skips a symbol, leads to the front of a token. -/
theorem atFront_after (hcoherent : t.scan.Coherent) (haction : t.action ≠ .store) :
    t.after.AtFront t.mode :=
  ⟨rfl, after_state_of_not_store hcoherent haction, after_pending_of_not_store hcoherent haction⟩

end Step

/-- A scan reads a text that the table stores as a whole. -/
theorem Scan.leads_of_reading {scan : Scan} {text : List Char} {state : State}
    (hreading : scan.state.reading (text.map (CharClass.classify scan.mode)) = some state)
    (rest : List Symbol) :
    ∃ later : Scan, later.mode = scan.mode ∧ later.state = state ∧
      later.pending = text.reverse ++ scan.pending ∧
      scan.Leads (text.map .char ++ rest) [] later rest := by
  induction text generalizing scan with
  | nil => exact ⟨scan, rfl, Option.some.inj hreading, rfl, .refl _ _⟩
  | cons c text ih =>
      rw [List.map_cons, State.reading] at hreading
      split at hreading
      · rename_i hstore
        have hmove : (⟨scan, .char c⟩ : Step).move =
            transition scan.state (.classify scan.mode c) :=
          Step.move_eq_of_ne_acceptBack1 (by rw [Step.kind, Symbol.classify, hstore]; decide)
        have haction : (⟨scan, .char c⟩ : Step).action = .store := by
          rw [Step.action, hmove, hstore]
        have hmode := Step.mode_eq_of_store haction
        have hpending := Step.after_pending_of_store rfl haction
        have hstate : (⟨scan, .char c⟩ : Step).after.state =
            (transition scan.state (.classify scan.mode c)).next := by
          simp only [Step.after, hmode, if_pos, hmove]
        have hafter : (⟨scan, .char c⟩ : Step).after.mode = scan.mode := hmode
        rw [← hstate, ← hafter] at hreading
        obtain ⟨later, hlater, hlast, hheld, hleads⟩ := ih hreading
        refine ⟨later, hlater.trans hafter, hlast, ?_, ?_⟩
        · rw [hheld, hpending]
          simp
        · have hfirst := Step.leads ⟨scan, .char c⟩ (text.map .char ++ rest)
          rw [Step.token?_of_ended_eq_nil (Step.ended_of_store haction),
            Step.unread_of_consumes (by rw [haction]; rfl)] at hfirst
          exact hfirst.trans hleads
      · cases hreading

/-- From the front of its mode the text of a coherent scan leads to a scan like it. -/
theorem Scan.Coherent.leads {scan front : Scan} (hcoherent : scan.Coherent)
    (hfront : front.AtFront scan.mode) (rest : List Symbol) :
    ∃ later : Scan, later.Alike scan ∧ front.Leads (scan.text.map .char ++ rest) [] later rest := by
  rw [Scan.Coherent, Scan.kinds, ← hfront.state_eq, ← hfront.mode_eq] at hcoherent
  obtain ⟨later, hmode, hstate, hpending, hleads⟩ := Scan.leads_of_reading hcoherent rest
  refine ⟨later, ⟨hmode.trans hfront.mode_eq, hstate, ?_⟩, hleads⟩
  rw [hpending, hfront.pending_eq, Scan.text]
  simp

/-- A step that ends a token is found again after the text of its scan. -/
theorem Step.leads_from_front {t : Step} {front : Scan} (hcoherent : t.scan.Coherent)
    (hstore : t.action ≠ .store) (hfront : front.AtFront t.scan.mode) (rest : List Symbol) :
    ∃ later : Scan, later.AtFront t.mode ∧
      front.Leads (t.scan.text.map .char ++ t.symbol :: rest) t.token?.toList later
        (t.unread ++ rest) := by
  obtain ⟨middle, halike, hleads⟩ := hcoherent.leads hfront (t.symbol :: rest)
  obtain ⟨htoken, haction, hmode, hunread⟩ := halike.step t.symbol
  have hmiddle := halike.coherent hcoherent
  refine ⟨(⟨middle, t.symbol⟩ : Step).after, ?_, ?_⟩
  · rw [← hmode]
    exact Step.atFront_after hmiddle (by rw [haction]; exact hstore)
  · rw [← htoken, ← hunread]
    exact hleads.trans (Step.leads ⟨middle, t.symbol⟩ rest)

/-- Between two tokens a scan skips white space and the end of the line. -/
theorem Scan.AtFront.skips {mode : Mode} {front : Scan} (hfront : front.AtFront mode)
    (symbol : Symbol)
    (hkind : symbol.classify mode = .whitespace ∨ symbol.classify mode = .endOfLine)
    (rest : List Symbol) :
    ∃ later : Scan, later.AtFront mode ∧ front.Leads (symbol :: rest) [] later rest := by
  have hcoherent := hfront.coherent
  have htable : (transition front.state (symbol.classify front.mode)).action = .ignore := by
    rw [transition_ignore_iff, hfront.mode_eq, hfront.state_eq]
    exact ⟨mode.startState_isStart, hkind⟩
  have haction : (⟨front, symbol⟩ : Step).action = .ignore := by
    rw [Step.action, Step.move_eq_of_ne_acceptBack1 (by rw [Step.kind, htable]; decide)]
    exact htable
  have hmode : (⟨front, symbol⟩ : Step).mode = mode := by
    rw [Step.mode, haction, ← hfront.mode_eq]
    rfl
  refine ⟨(⟨front, symbol⟩ : Step).after, ?_, ?_⟩
  · have hafter := Step.atFront_after (t := ⟨front, symbol⟩) hcoherent (by simp [haction])
    rwa [hmode] at hafter
  · have hleads := Step.leads ⟨front, symbol⟩ rest
    rw [Step.token?_of_ended_eq_nil (Step.ended_of_ignore haction)] at hleads
    simpa [Step.unread, haction] using hleads

/-- In the mode the token is read where the symbol follows it, and the symbol is looked at
again at the front of the next mode. -/
def ReadsBefore (mode : Mode) (token : List Char) (symbol : Symbol) (next : Mode) : Prop :=
  ∀ front : Scan, front.AtFront mode → ∀ rest, ∃ later : Scan, later.AtFront next ∧
    front.Leads (token.map .char ++ symbol :: rest) [token] later (symbol :: rest)

theorem Scan.AtFront.skips_space {mode : Mode} {front : Scan} (hfront : front.AtFront mode)
    (rest : List Symbol) :
    ∃ later : Scan, later.AtFront mode ∧ front.Leads (.char ' ' :: rest) [] later rest :=
  hfront.skips (.char ' ') (Or.inl (CharClass.classify_of_isBlank mode (by decide))) rest

/-- A token and the space after it are read together. -/
theorem ReadsBefore.leads_space {mode next : Mode} {token : List Char}
    (hreads : ReadsBefore mode token (.char ' ') next) {front : Scan}
    (hfront : front.AtFront mode) (rest : List Symbol) :
    ∃ later : Scan, later.AtFront next ∧
      front.Leads (token.map .char ++ .char ' ' :: rest) [token] later rest := by
  obtain ⟨middle, hmiddle, hread⟩ := hreads front hfront rest
  obtain ⟨later, hlater, hskipped⟩ := hmiddle.skips_space rest
  exact ⟨later, hlater, hread.trans hskipped⟩

/-- What may follow a token when tokens are written with spaces between them. -/
def separators : List Symbol :=
  [.char ' ', .endOfLine]

section Table

/-- A token that ends before one of several symbols also ends before white space.  The tokens
that only the end of the line ends are the exception. -/
theorem transition_acceptBack1_separators : ∀ state kind,
    (transition state kind).action = .acceptBack1 → kind = .endOfLine ∨
      (transition state .whitespace).action = .acceptBack1 ∧
        (transition state .endOfLine).action = .acceptBack1 := by
  decide

/-- Where a character is read on trust, a token could have ended before. -/
theorem transition_store_onTrust : ∀ state kind,
    (transition state kind).action = .store → (transition state kind).next.onTrust = true →
      state ≠ .directive ∧ (transition state .whitespace).action = .acceptBack1 ∧
        (transition state .endOfLine).action = .acceptBack1 := by
  decide

/-- In an inline comment only the end of the line ends a token. -/
theorem transition_inlineComment : ∀ state kind, Mode.owns .inlineComment state = true →
    Mode.presents .inlineComment kind = true →
      (transition state kind).action = .store ∨ (transition state kind).action = .ignore ∨
        (transition state kind).action = .acceptBack1 ∧ kind = .endOfLine := by
  decide

theorem Mode.eq_inlineBody_of_owns : ∀ state, Mode.owns .inlineComment state = true →
    state.isStart = false → state = .inlineBody := by
  decide

end Table

theorem Symbol.classify_separator {symbol : Symbol} (hsymbol : symbol ∈ separators)
    (mode : Mode) : symbol.classify mode = .whitespace ∨ symbol.classify mode = .endOfLine := by
  simp only [separators, List.mem_cons, List.not_mem_nil, or_false] at hsymbol
  rcases hsymbol with rfl | rfl
  · exact Or.inl (CharClass.classify_of_isBlank mode (by decide))
  · exact Or.inr rfl

theorem transition_separator {state : State} {symbol : Symbol}
    (hends : (transition state .whitespace).action = .acceptBack1 ∧
      (transition state .endOfLine).action = .acceptBack1)
    (hsymbol : symbol ∈ separators) (mode : Mode) :
    (transition state (symbol.classify mode)).action = .acceptBack1 := by
  rcases Symbol.classify_separator hsymbol mode with hkind | hkind
  · rw [hkind]
    exact hends.1
  · rw [hkind]
    exact hends.2

section ReadsBefore

variable {t : Step} {scan : Scan} {symbol : Symbol}

/-- The text of a scan is read where the table ends its token before the symbol. -/
theorem readsBefore_text (hcoherent : scan.Coherent)
    (htable : (transition scan.state (symbol.classify scan.mode)).action = .acceptBack1)
    (htrimmed : scan.mode = .inlineComment → trimRight scan.text = scan.text) :
    ReadsBefore scan.mode scan.text symbol (⟨scan, symbol⟩ : Step).mode := by
  intro front hfront rest
  have haction : (⟨scan, symbol⟩ : Step).action = .acceptBack1 ∨
      (⟨scan, symbol⟩ : Step).action = .startInclude := by
    rcases (⟨scan, symbol⟩ : Step).move_cases with hmove | ⟨hmove, _⟩
    · exact Or.inl ((congrArg Move.action hmove).trans htable)
    · exact Or.inr (congrArg Move.action hmove)
  have hstore : (⟨scan, symbol⟩ : Step).action ≠ .store := by
    rcases haction with haction | haction <;> simp [haction]
  have hignore : (⟨scan, symbol⟩ : Step).action ≠ .ignore := by
    rcases haction with haction | haction <;> simp [haction]
  have hbody : (⟨scan, symbol⟩ : Step).body = scan.text := by
    rw [Step.body, Step.ended_of_givesBack haction]
    split
    · rename_i hmode
      exact htrimmed hmode
    · rfl
  have hleads := Step.leads_from_front (t := ⟨scan, symbol⟩) hcoherent hstore hfront rest
  rw [Step.token?_eq_some_body hcoherent hstore hignore, hbody,
    Step.unread_of_givesBack haction] at hleads
  exact hleads

/-- A step that takes its symbol into the token, or gives two back, is of no inline comment. -/
theorem mode_ne_inlineComment (hcoherent : t.scan.Coherent)
    (haction : t.action.consumes = true ∧ t.action ≠ .store ∨ t.action = .acceptBack2) :
    t.scan.mode ≠ .inlineComment := by
  intro hmode
  have howns := hcoherent.owns_state
  have hpresents := t.presents_kind
  rw [hmode] at howns hpresents
  have htable := transition_inlineComment t.scan.state t.kind howns hpresents
  rw [Step.transition_action (by rintro hinclude; simp [hinclude, Action.consumes] at haction)]
    at htable
  rcases htable with htable | htable | ⟨htable, _⟩ <;> simp [htable, Action.consumes] at haction

/-- A token that its last character completes is read whatever follows it. -/
theorem readsBefore_of_completes (hcoherent : t.scan.Coherent) {c : Char}
    (hsymbol : t.symbol = .char c) (hconsumes : t.action.consumes = true)
    (hstore : t.action ≠ .store) (symbol : Symbol) :
    ReadsBefore t.scan.mode t.body symbol t.mode := by
  intro front hfront rest
  have hmode := mode_ne_inlineComment hcoherent (Or.inl ⟨hconsumes, hstore⟩)
  have hbody : t.body = t.scan.text ++ [c] := by
    rw [Step.body, if_neg hmode, Step.ended_of_completes hsymbol hconsumes hstore]
  have hignore : t.action ≠ .ignore := by
    intro hignore
    simp [hignore, Action.consumes] at hconsumes
  obtain ⟨later, hlater, hleads⟩ :=
    Step.leads_from_front hcoherent hstore hfront (symbol :: rest)
  rw [Step.token?_eq_some_body hcoherent hstore hignore, Step.unread_of_consumes hconsumes,
    hsymbol] at hleads
  refine ⟨later, hlater, ?_⟩
  rw [hbody] at hleads ⊢
  simpa using hleads

/-- Where the table ends a token before either of two symbols, the same mode follows. -/
theorem mode_eq_of_acceptBack1 {other : Symbol}
    (hfirst : (transition scan.state (symbol.classify scan.mode)).action = .acceptBack1)
    (hsecond : (transition scan.state (other.classify scan.mode)).action = .acceptBack1) :
    (⟨scan, symbol⟩ : Step).mode = (⟨scan, other⟩ : Step).mode := by
  have haction : (⟨scan, symbol⟩ : Step).action = (⟨scan, other⟩ : Step).action := by
    simp only [Step.action, Step.move, step, Step.kind, hfirst, hsecond]
    split <;> simp [hfirst, hsecond]
  simp only [Step.mode, haction]

/-- Before a character that was read on trust the token could have ended. -/
theorem Scan.Coherent.exists_before_trust (hcoherent : scan.Coherent)
    (htrust : scan.state.onTrust = true) :
    ∃ last state pending, scan.pending = last :: pending ∧
      ({ scan with state, pending } : Scan).Coherent ∧ state ≠ .directive ∧
      (transition state .whitespace).action = .acceptBack1 ∧
        (transition state .endOfLine).action = .acceptBack1 := by
  cases hpending : scan.pending with
  | nil =>
      have hlength := hcoherent.two_le_length_pending htrust
      rw [hpending] at hlength
      cases hlength
  | cons last pending =>
      have hkinds : scan.kinds = pending.reverse.map (CharClass.classify scan.mode) ++
          [CharClass.classify scan.mode last] := by
        simp [Scan.kinds, Scan.text, hpending]
      rw [Scan.Coherent, hkinds, State.reading_concat] at hcoherent
      obtain ⟨state, hreading, hstore, hnext⟩ := hcoherent
      exact ⟨last, state, pending, rfl, hreading,
        transition_store_onTrust state _ hstore (by rw [hnext]; exact htrust)⟩

/-- A token that gives its last character back is read where it ends itself. -/
theorem readsBefore_of_givesBackTwo (hcoherent : t.scan.Coherent)
    (haction : t.action = .acceptBack2) (hsymbol : symbol ∈ separators) :
    ReadsBefore t.scan.mode t.body symbol t.mode := by
  have hinline := mode_ne_inlineComment hcoherent (Or.inr haction)
  have hback : (transition t.scan.state t.kind).action = .acceptBack2 := by
    rw [Step.transition_action (by simp [haction]), haction]
  obtain ⟨last, state, pending, hpending, hbefore, hdirective, hends⟩ :=
    hcoherent.exists_before_trust (transition_acceptBack2_onTrust _ _ hback)
  let scan : Scan := { t.scan with state, pending }
  have htable : (transition scan.state (symbol.classify scan.mode)).action = .acceptBack1 :=
    transition_separator hends hsymbol scan.mode
  have hreads : ReadsBefore scan.mode scan.text symbol (⟨scan, symbol⟩ : Step).mode :=
    readsBefore_text hbefore htable (fun hmode => absurd hmode hinline)
  have hmode : (⟨scan, symbol⟩ : Step).mode = t.mode := by
    have hmove : (⟨scan, symbol⟩ : Step).action = .acceptBack1 := by
      rcases (⟨scan, symbol⟩ : Step).move_cases with hmove | ⟨_, hstate, _⟩
      · exact (congrArg Move.action hmove).trans htable
      · exact absurd hstate hdirective
    rw [Step.mode, Step.mode, hmove, haction]
    rfl
  have hbody : t.body = scan.text := by
    rw [Step.body, if_neg hinline, Step.ended_of_givesBackTwo haction, hpending]
    rfl
  rw [hmode] at hreads
  rw [hbody]
  exact hreads

/-- Without the white space at its end an inline comment is still inside its body. -/
theorem Scan.Coherent.trimmed (hcoherent : scan.Coherent) (hmode : scan.mode = .inlineComment)
    (hstate : scan.state = .inlineBody) (hsolid : Solid (trimRight scan.text)) :
    ({ scan with pending := (trimRight scan.text).reverse } : Scan).Coherent := by
  obtain ⟨gap, _, hsplit⟩ := trimRight_append_blank scan.text
  rw [Scan.Coherent, Scan.kinds, hsplit, List.map_append, State.reading_append] at hcoherent
  obtain ⟨state, hreading, _⟩ := Option.bind_eq_some_iff.mp hcoherent
  -- Something has been read, and a comment has only one state inside its body.
  have howns := Mode.owns_of_reading (CharClass.presents_of_mem_map _ _) hreading
  have hinside : state.isStart = false := by
    rw [Bool.eq_false_iff, Ne, Mode.isStart_of_reading hreading, List.map_eq_nil_iff]
    obtain ⟨c, rest, htrim, _⟩ := hsolid
    simp [htrim]
  rw [hmode] at howns
  rw [Mode.eq_inlineBody_of_owns state howns hinside, ← hstate] at hreading
  have htext : Scan.text { scan with pending := (trimRight scan.text).reverse } =
      trimRight scan.text := List.reverse_reverse _
  rw [Scan.Coherent, Scan.kinds, htext]
  exact hreading

/-- The body of an inline comment is read without the white space at its end too. -/
theorem readsBefore_inlineComment (hcoherent : scan.Coherent)
    (hmode : scan.mode = .inlineComment) (hstate : scan.state = .inlineBody)
    (hsolid : Solid (trimRight scan.text)) :
    ReadsBefore .inlineComment (trimRight scan.text) .endOfLine .inlineComment := by
  let trimmed : Scan := { scan with pending := (trimRight scan.text).reverse }
  have htext : trimmed.text = trimRight scan.text := List.reverse_reverse _
  have htrimmedMode : trimmed.mode = .inlineComment := hmode
  have htrimmedState : trimmed.state = .inlineBody := hstate
  have htable : (transition trimmed.state (Symbol.classify trimmed.mode .endOfLine)).action =
      .acceptBack1 := by
    rw [htrimmedState]
    rfl
  have htrim : trimRight trimmed.text = trimmed.text := by
    rw [htext, trimRight, trimRight, List.reverse_reverse, List.dropWhile_idempotent]
  have hnext : (⟨trimmed, .endOfLine⟩ : Step).mode = .inlineComment := by
    rw [Step.mode, Step.action, Step.move]
    simp only [htrimmedMode, htrimmedState]
    rfl
  have hreads := readsBefore_text (hcoherent.trimmed hmode hstate hsolid) htable fun _ => htrim
  rw [hnext, htext, htrimmedMode] at hreads
  exact hreads

/-- In an inline comment a token ends before the end of the line only. -/
theorem inlineBody_of_givesBack (hcoherent : t.scan.Coherent)
    (hmode : t.scan.mode = .inlineComment)
    (hback : (transition t.scan.state t.kind).action = .acceptBack1) :
    t.scan.state = .inlineBody ∧ t.kind = .endOfLine := by
  have howns := hcoherent.owns_state
  have hpresents := t.presents_kind
  rw [hmode] at howns hpresents
  have hinside := (transition_acceptBack1_not_isStart _ _ hback).1
  have hcases := transition_inlineComment _ _ howns hpresents
  exact ⟨Mode.eq_inlineBody_of_owns _ howns hinside, by simpa [hback] using hcases⟩

theorem symbol_eq_endOfLine (hkind : t.kind = .endOfLine) : t.symbol = .endOfLine := by
  cases hsymbol : t.symbol with
  | endOfLine => rfl
  | char c =>
      rw [Step.kind, hsymbol] at hkind
      exact absurd hkind (CharClass.classify_ne_endOfLine _ c)

/-- A token that ends before its symbol is read before separators too, or the end of its line
has ended it. -/
theorem readsBefore_of_givesBack (hcoherent : t.scan.Coherent)
    (haction : t.action = .acceptBack1 ∨ t.action = .startInclude) :
    (∀ symbol ∈ separators, ReadsBefore t.scan.mode t.body symbol t.mode) ∨
      t.symbol = .endOfLine ∧ ReadsBefore t.scan.mode t.body .endOfLine t.mode := by
  have htable : (transition t.scan.state t.kind).action = .acceptBack1 := by
    rcases haction with haction | haction
    · rw [Step.transition_action (by simp [haction]), haction]
    · exact (Step.move_of_startInclude haction).2.2
  by_cases hmode : t.scan.mode = .inlineComment
  · obtain ⟨hstate, hkind⟩ := inlineBody_of_givesBack hcoherent hmode htable
    have hback : t.action = .acceptBack1 := by
      rcases haction with hback | hinclude
      · exact hback
      · rw [(Step.move_of_startInclude hinclude).2.1] at hstate
        cases hstate
    have hnext : t.mode = .inlineComment := by
      rw [Step.mode, hback, hmode]
      rfl
    have hbody : t.body = trimRight t.scan.text := by
      rw [Step.body, if_pos hmode, Step.ended_of_givesBack haction]
    have hsolid := Step.solid_body hcoherent (by simp [hback]) (by simp [hback])
    rw [hbody] at hsolid
    rw [hnext, hbody, hmode]
    exact Or.inr ⟨symbol_eq_endOfLine hkind,
      readsBefore_inlineComment hcoherent hmode hstate hsolid⟩
  · have hbody : t.body = t.scan.text := by
      rw [Step.body, if_neg hmode, Step.ended_of_givesBack haction]
    rw [hbody]
    rcases transition_acceptBack1_separators _ _ htable with hkind | hends
    · have hsymbol := symbol_eq_endOfLine hkind
      refine Or.inr ⟨hsymbol, ?_⟩
      rw [← hsymbol]
      exact readsBefore_text hcoherent htable fun hinline => absurd hinline hmode
    · refine Or.inl fun symbol hsymbol => ?_
      have hseparator := transition_separator hends hsymbol t.scan.mode
      have hnext : (⟨t.scan, symbol⟩ : Step).mode = t.mode :=
        mode_eq_of_acceptBack1 hseparator htable
      rw [← hnext]
      exact readsBefore_text hcoherent hseparator fun hinline => absurd hinline hmode

/-- A token that a step delivers is read before separators, or at least before the end of a
line if the step gives the end of its line back. -/
theorem readsBefore_of_token? (hcoherent : t.scan.Coherent) {token : List Char}
    (htoken : t.token? = some token) :
    (∀ symbol ∈ separators, ReadsBefore t.scan.mode token symbol t.mode) ∨
      t.symbol = .endOfLine ∧ t.unread = [.endOfLine] ∧
        ReadsBefore t.scan.mode token .endOfLine t.mode := by
  obtain ⟨rfl, hstore, hignore⟩ := Step.eq_body_of_token? hcoherent htoken
  rcases Step.shape hcoherent with ⟨_, _, haction⟩ | ⟨haction, _, _⟩ |
    ⟨c, hsymbol, hconsumes, _⟩ | ⟨haction, _⟩ | ⟨haction, _⟩
  · exact absurd haction hstore
  · exact absurd haction hignore
  · exact Or.inl fun symbol _ =>
      readsBefore_of_completes hcoherent hsymbol hconsumes hstore symbol
  · rcases readsBefore_of_givesBack hcoherent haction with hreads | ⟨hsymbol, hreads⟩
    · exact Or.inl hreads
    · refine Or.inr ⟨hsymbol, ?_, hreads⟩
      rw [Step.unread_of_givesBack haction, hsymbol]
  · exact Or.inl fun _ hsymbol => readsBefore_of_givesBackTwo hcoherent haction hsymbol

end ReadsBefore

/-- Tokens that lead from one mode to another, each read before separators in the mode that
the tokens before it have led to.  The last token may need the end of the line. -/
inductive Chain : Mode → List (List Char) → Mode → Prop
  | nil (mode : Mode) : Chain mode [] mode
  | last {mode next : Mode} {token : List Char}
      (hreads : ReadsBefore mode token .endOfLine next) : Chain mode [token] next
  | cons {mode next last : Mode} {token : List Char} {tokens : List (List Char)}
      (hreads : ∀ symbol ∈ separators, ReadsBefore mode token symbol next)
      (hrest : Chain next tokens last) : Chain mode (token :: tokens) last

theorem Scan.AtFront.leads_endOfLine {mode : Mode} {front : Scan} (hfront : front.AtFront mode) :
    (front.run [.endOfLine]).tokens = [] ∧ (front.run [.endOfLine]).last.mode = mode := by
  obtain ⟨later, hlater, hleads⟩ := hfront.skips .endOfLine (Or.inr rfl) []
  rw [hleads.tokens_eq, hleads.last_eq, Scan.run_nil]
  exact ⟨rfl, hlater.mode_eq⟩

/-- Nothing of a line is left after its end. -/
theorem Scan.Within.rest_of_endOfLine {line : List Char} {scan : Scan} {rest : List Symbol}
    (hwithin : Scan.Within line scan (.endOfLine :: rest)) : rest = [] := by
  cases hwithin with
  | finished _ _ hsymbols => cases hsymbols
  | inside _ left _ _ _ hsymbols =>
      cases left with
      | nil => exact (List.cons.inj hsymbols).2
      | cons c left => cases hsymbols

/-- The tokens of a run form a chain from the mode of the scan to the mode that is left. -/
theorem run_chain {line : List Char} (scan : Scan) (symbols : List Symbol) :
    scan.Coherent → Scan.Within line scan symbols →
      Chain scan.mode (scan.run symbols).tokens (scan.run symbols).last.mode := by
  induction scan, symbols using Scan.run_induction with
  | hnil scan =>
      intro _ _
      rw [Scan.run_nil]
      exact .nil scan.mode
  | hcons t rest ih =>
      intro hcoherent hwithin
      have hlater := ih (Step.coherent_after hcoherent) (Step.within_after hcoherent hwithin)
      have hmode : t.after.mode = t.mode := rfl
      rw [hmode] at hlater
      rw [Run.tokens_run_cons, Scan.run_cons_last]
      cases htoken : t.token? with
      | none =>
          have hstays : t.mode = t.scan.mode := by
            rcases (Step.token?_eq_none_iff hcoherent).mp htoken with haction | haction <;>
              simp [Step.mode, haction, nextMode]
          rw [hstays] at hlater
          exact hlater
      | some token =>
          rcases readsBefore_of_token? hcoherent htoken with hreads | ⟨hsymbol, hunread, hreads⟩
          · exact .cons hreads hlater
          · -- Nothing is left of the line but its end.
            rw [hsymbol] at hwithin
            have hrest := hwithin.rest_of_endOfLine
            have hstore : t.action ≠ .store := (Step.eq_body_of_token? hcoherent htoken).2.1
            obtain ⟨htokens, hlast⟩ := (Step.atFront_after hcoherent hstore).leads_endOfLine
            rw [hunread, hrest, List.append_nil, htokens, hlast]
            exact .last hreads

/-- The tokens with one space between neighbours. -/
def spaced (tokens : List (List Char)) : List Char :=
  [' '].intercalate tokens

@[simp] theorem spaced_singleton (token : List Char) : spaced [token] = token :=
  List.intercalate_singleton

@[simp] theorem spaced_cons_cons (token other : List Char) (tokens : List (List Char)) :
    spaced (token :: other :: tokens) = token ++ ' ' :: spaced (other :: tokens) := by
  simp [spaced, List.intercalate_cons_cons]

theorem lineSymbols_append (front back : List Char) :
    lineSymbols (front ++ back) = front.map .char ++ lineSymbols back := by
  simp [lineSymbols]

/-- A token at the end of its line is the last one. -/
theorem ReadsBefore.run_last {mode next : Mode} {token : List Char}
    (hreads : ReadsBefore mode token .endOfLine next) {front : Scan}
    (hfront : front.AtFront mode) :
    (front.run (lineSymbols token)).tokens = [token] ∧
      (front.run (lineSymbols token)).last.mode = next := by
  obtain ⟨later, hlater, hleads⟩ := hreads front hfront []
  obtain ⟨htokens, hlast⟩ := hlater.leads_endOfLine
  rw [lineSymbols, hleads.tokens_eq, hleads.last_eq, htokens]
  exact ⟨rfl, hlast⟩

/-- What forms a chain is scanned as it is written. -/
theorem Chain.run_spaced {mode last : Mode} {tokens : List (List Char)}
    (hchain : Chain mode tokens last) {front : Scan} (hfront : front.AtFront mode) :
    (front.run (lineSymbols (spaced tokens))).tokens = tokens ∧
      (front.run (lineSymbols (spaced tokens))).last.mode = last := by
  induction hchain generalizing front with
  | nil mode => exact hfront.leads_endOfLine
  | last hreads =>
      rw [spaced_singleton]
      exact hreads.run_last hfront
  | @cons mode next last token tokens hreads hrest ih =>
      cases tokens with
      | nil =>
          cases hrest
          rw [spaced_singleton]
          exact (hreads .endOfLine (by simp [separators])).run_last hfront
      | cons other tokens =>
          have hspace := hreads (.char ' ') (by simp [separators])
          obtain ⟨later, hlater, hleads⟩ :=
            hspace.leads_space hfront (lineSymbols (spaced (other :: tokens)))
          rw [spaced_cons_cons, lineSymbols_append, lineSymbols_cons, hleads.tokens_eq,
            hleads.last_eq]
          obtain ⟨htokens, hlast⟩ := ih hlater
          rw [htokens]
          exact ⟨rfl, hlast⟩

/-- Scanning the tokens of a line with one space between neighbours finds the same tokens and
leaves the same mode. -/
theorem scanLine_spaced (mode : Mode) (line : List Char) :
    (scanLine mode (spaced (scanLine mode line).tokens)).tokens = (scanLine mode line).tokens ∧
      (scanLine mode (spaced (scanLine mode line).tokens)).last.mode =
        (scanLine mode line).last.mode :=
  (run_chain (Scan.ofMode mode) (lineSymbols line) (Scan.coherent_ofMode mode)
    (Scan.within_ofMode mode line)).run_spaced (Scan.atFront_ofMode mode)

end LineLexer
