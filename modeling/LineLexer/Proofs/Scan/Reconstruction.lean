import Mathlib.Data.List.TakeWhile
import LineLexer.Proofs.Scan.Position
/-!
A line is its tokens with white space between them.

Each step passes some of the characters at hand on to a token, keeps some pending and drops
only white space (`Step.text_balance`).  Over a run these balances add up: the line is woven
from the tokens, in their order, and from gaps of white space, one before each token and one
after the last.
-/

namespace LineLexer

/-- A text of white space only. -/
def Blank (text : List Char) : Prop :=
  ∀ c ∈ text, isBlank c = true

/-- A text that begins with something else than white space. -/
def Solid (text : List Char) : Prop :=
  ∃ c rest, text = c :: rest ∧ isBlank c = false

/-- The text in which gaps and tokens alternate, starting with a gap. -/
def weave : List (List Char) → List (List Char) → List Char
  | gap :: gaps, token :: tokens => gap ++ token ++ weave gaps tokens
  | gap :: _, [] => gap
  | [], _ => []

/-- The line is made of the tokens in their order, with one gap of white space more than
there are tokens. -/
def Woven (tokens : List (List Char)) (line : List Char) : Prop :=
  (∀ token ∈ tokens, Solid token) ∧
    ∃ gaps, gaps.length = tokens.length + 1 ∧ (∀ gap ∈ gaps, Blank gap) ∧
      line = weave gaps tokens

theorem Blank.nil : Blank [] := by
  intro c hc
  cases hc

theorem Blank.append {first second : List Char} (hfirst : Blank first)
    (hsecond : Blank second) : Blank (first ++ second) := by
  intro c hc
  rcases List.mem_append.mp hc with hc | hc
  · exact hfirst c hc
  · exact hsecond c hc

theorem Blank.filter_eq_nil {text : List Char} (hblank : Blank text) :
    text.filter (!isBlank ·) = [] := by
  rw [List.filter_eq_nil_iff]
  intro c hc
  simp [hblank c hc]

theorem Woven.of_blank {gap : List Char} (hgap : Blank gap) : Woven [] gap := by
  refine ⟨by simp, [gap], rfl, ?_, rfl⟩
  intro other hother
  rw [List.mem_singleton.mp hother]
  exact hgap

/-- White space in front joins the first gap. -/
theorem Woven.gap_append {tokens : List (List Char)} {gap line : List Char}
    (hgap : Blank gap) (hwoven : Woven tokens line) : Woven tokens (gap ++ line) := by
  obtain ⟨hsolid, gaps, hlength, hblank, rfl⟩ := hwoven
  cases gaps with
  | nil => simp at hlength
  | cons first others =>
      refine ⟨hsolid, (gap ++ first) :: others, by simpa using hlength, ?_, ?_⟩
      · intro other hother
        rcases List.mem_cons.mp hother with rfl | hother
        · exact hgap.append (hblank first List.mem_cons_self)
        · exact hblank other (List.mem_cons_of_mem first hother)
      · cases tokens <;> simp [weave]

theorem Woven.token_append {tokens : List (List Char)} {token line : List Char}
    (htoken : Solid token) (hwoven : Woven tokens line) :
    Woven (token :: tokens) (token ++ line) := by
  obtain ⟨hsolid, gaps, hlength, hblank, rfl⟩ := hwoven
  refine ⟨?_, [] :: gaps, by simpa using hlength, ?_, by simp [weave]⟩
  · intro other hother
    rcases List.mem_cons.mp hother with rfl | hother
    · exact htoken
    · exact hsolid other hother
  · intro other hother
    rcases List.mem_cons.mp hother with rfl | hother
    · exact Blank.nil
    · exact hblank other hother

/-- Without white space a line is the text of its tokens. -/
theorem Woven.filter_eq {tokens : List (List Char)} {line : List Char}
    (hwoven : Woven tokens line) :
    tokens.flatten.filter (!isBlank ·) = line.filter (!isBlank ·) := by
  obtain ⟨hsolid, gaps, hlength, hblank, rfl⟩ := hwoven
  clear hsolid
  induction tokens generalizing gaps with
  | nil =>
      match gaps, hlength with
      | [gap], _ => simp [weave, (hblank gap List.mem_cons_self).filter_eq_nil]
  | cons token tokens ih =>
      cases gaps with
      | nil => simp at hlength
      | cons gap gaps =>
          have hrest := ih gaps (by simpa using hlength)
            fun other hother => hblank other (List.mem_cons_of_mem gap hother)
          simp only [weave, List.flatten_cons, List.filter_append, hrest,
            (hblank gap List.mem_cons_self).filter_eq_nil, List.nil_append]

/-- A text in which gaps and tokens alternate has all characters of the tokens. -/
theorem mem_weave {gaps tokens : List (List Char)} (hlength : gaps.length = tokens.length + 1)
    {token : List Char} (htoken : token ∈ tokens) {c : Char} (hc : c ∈ token) :
    c ∈ weave gaps tokens := by
  induction tokens generalizing gaps with
  | nil => cases htoken
  | cons first tokens ih =>
      cases gaps with
      | nil => simp at hlength
      | cons gap gaps =>
          rw [weave, List.mem_append, List.mem_append]
          rcases List.mem_cons.mp htoken with rfl | hothers
          · exact Or.inl (Or.inr hc)
          · exact Or.inr (ih (by simpa using hlength) hothers)

theorem Woven.mem {tokens : List (List Char)} {line token : List Char} (hwoven : Woven tokens line)
    (htoken : token ∈ tokens) {c : Char} (hc : c ∈ token) : c ∈ line := by
  obtain ⟨_, gaps, hlength, _, rfl⟩ := hwoven
  exact mem_weave hlength htoken hc

theorem trimRight_append_blank (text : List Char) :
    ∃ gap, Blank gap ∧ text = trimRight text ++ gap := by
  refine ⟨(text.reverse.takeWhile isBlank).reverse, ?_, ?_⟩
  · intro c hc
    exact List.mem_takeWhile_imp (List.mem_reverse.mp hc)
  · rw [trimRight, ← List.reverse_append, List.takeWhile_append_dropWhile,
      List.reverse_reverse]

/-- Trimming the end leaves the beginning of a text that does not begin with white space. -/
theorem Solid.trimRight {text : List Char} (hsolid : Solid text) :
    Solid (LineLexer.trimRight text) := by
  obtain ⟨c, rest, rfl, hc⟩ := hsolid
  obtain ⟨gap, hgap, htext⟩ := trimRight_append_blank (c :: rest)
  cases htrim : LineLexer.trimRight (c :: rest) with
  | nil =>
      rw [htrim, List.nil_append] at htext
      rw [← htext] at hgap
      exact absurd (hgap c List.mem_cons_self) (by simp [hc])
  | cons d others =>
      rw [htrim, List.cons_append, List.cons.injEq] at htext
      exact ⟨d, others, rfl, htext.1 ▸ hc⟩

namespace Step

variable {t : Step}

theorem ended_of_store (haction : t.action = .store) : t.ended = [] := by
  simp [Step.ended, haction]

theorem ended_of_ignore (haction : t.action = .ignore) : t.ended = [] := by
  simp [Step.ended, haction]

theorem ended_of_completes {c : Char} (hsymbol : t.symbol = .char c)
    (hconsumes : t.action.consumes = true) (hstore : t.action ≠ .store) :
    t.ended.reverse = t.scan.text ++ [c] := by
  cases haction : t.action <;>
    simp_all [Step.ended, Step.held, Action.consumes, Symbol.chars, Scan.text]

theorem ended_of_givesBack (haction : t.action = .acceptBack1 ∨ t.action = .startInclude) :
    t.ended.reverse = t.scan.text := by
  rcases haction with haction | haction <;>
    simp [Step.ended, Step.held, Action.consumes, haction, Scan.text]

theorem ended_of_givesBackTwo (haction : t.action = .acceptBack2) :
    t.ended.reverse = t.scan.pending.tail.reverse := by
  simp [Step.ended, Step.held, Action.consumes, haction]

/-- The first character of a token is never white space, also where the step that ends the
token is the one that reads it. -/
theorem solid_text_append {c : Char} (hcoherent : t.scan.Coherent)
    (hsymbol : t.symbol = .char c) (haction : t.action ≠ .ignore)
    (hinclude : t.action ≠ .startInclude) : Solid (t.scan.text ++ [c]) := by
  cases htext : t.scan.text with
  | cons d rest => exact ⟨d, rest ++ [c], rfl, hcoherent.not_isBlank_of_text htext⟩
  | nil =>
      refine ⟨c, [], rfl, ?_⟩
      by_contra hblank
      have hkind : t.kind = .whitespace := by
        simp only [Step.kind, hsymbol, Symbol.classify]
        exact CharClass.classify_of_isBlank _ (by simpa using hblank)
      have hstart := hcoherent.isStart_iff.mpr (Scan.text_eq_nil_iff.mp htext)
      have hskip := (transition_ignore_iff t.scan.state t.kind).mpr ⟨hstart, Or.inl hkind⟩
      rw [transition_action hinclude] at hskip
      exact haction hskip

/-- What a step ends is solid, if it ends anything. -/
theorem solid_ended (hcoherent : t.scan.Coherent) (hstore : t.action ≠ .store)
    (hignore : t.action ≠ .ignore) : Solid t.ended.reverse := by
  rcases shape hcoherent with ⟨_, _, haction⟩ | ⟨haction, _, _⟩ |
    ⟨c, hsymbol, hconsumes, _⟩ | ⟨haction, hpending⟩ | ⟨haction, last, first, others, hpending⟩
  · exact absurd haction hstore
  · exact absurd haction hignore
  · rw [ended_of_completes hsymbol hconsumes hstore]
    apply solid_text_append hcoherent hsymbol hignore
    exact ne_startInclude_of_consumes hconsumes
  · rw [ended_of_givesBack haction]
    cases htext : t.scan.text with
    | nil => exact absurd (Scan.text_eq_nil_iff.mp htext) hpending
    | cons c rest => exact ⟨c, rest, rfl, hcoherent.not_isBlank_of_text htext⟩
  · rw [ended_of_givesBackTwo haction, hpending, List.tail_cons]
    cases hrest : (first :: others).reverse with
    | nil => simp at hrest
    | cons c rest =>
        have htext : t.scan.text = c :: (rest ++ [last]) := by
          rw [Scan.text, hpending, List.reverse_cons, hrest, List.cons_append]
        exact ⟨c, rest, rfl, hcoherent.not_isBlank_of_text htext⟩

/-- The text that a step delivers once it has ended a token. -/
def body (t : Step) : List Char :=
  if t.scan.mode = .inlineComment then trimRight t.ended.reverse else t.ended.reverse

theorem token?_of_ended_eq_nil (hended : t.ended = []) : t.token? = none := by
  simp [Step.token?, hended, trimRight]

theorem solid_body (hcoherent : t.scan.Coherent) (hstore : t.action ≠ .store)
    (hignore : t.action ≠ .ignore) : Solid t.body := by
  have hsolid := solid_ended hcoherent hstore hignore
  unfold Step.body
  split
  · exact hsolid.trimRight
  · exact hsolid

/-- Every step that ends a token delivers it. -/
theorem token?_eq_some_body (hcoherent : t.scan.Coherent) (hstore : t.action ≠ .store)
    (hignore : t.action ≠ .ignore) : t.token? = some t.body := by
  obtain ⟨c, rest, hbody, _⟩ := solid_body hcoherent hstore hignore
  have htoken : t.token? = if t.body.isEmpty then none else some t.body := rfl
  rw [htoken, hbody]
  rfl

/-- Only a step that stores or skips its symbol delivers nothing. -/
theorem token?_eq_none_iff (hcoherent : t.scan.Coherent) :
    t.token? = none ↔ t.action = .store ∨ t.action = .ignore := by
  constructor
  · intro htoken
    by_contra hends
    rw [not_or] at hends
    rw [token?_eq_some_body hcoherent hends.1 hends.2] at htoken
    cases htoken
  · rintro (haction | haction)
    · exact token?_of_ended_eq_nil (ended_of_store haction)
    · exact token?_of_ended_eq_nil (ended_of_ignore haction)

theorem eq_body_of_token? {token : List Char} (hcoherent : t.scan.Coherent)
    (htoken : t.token? = some token) :
    token = t.body ∧ t.action ≠ .store ∧ t.action ≠ .ignore := by
  have hends : ¬(t.action = .store ∨ t.action = .ignore) := by
    rw [← token?_eq_none_iff hcoherent, htoken]
    exact Option.some_ne_none token
  rw [not_or] at hends
  rw [token?_eq_some_body hcoherent hends.1 hends.2, Option.some.injEq] at htoken
  exact ⟨htoken.symm, hends⟩

/-- What is skipped at one step is white space. -/
theorem blank_chars (hblank : ∀ c, t.symbol = .char c → isBlank c = true) :
    Blank t.symbol.chars := by
  intro c hc
  cases hsymbol : t.symbol with
  | endOfLine => simp [hsymbol, Symbol.chars] at hc
  | char d =>
      simp only [hsymbol, Symbol.chars, List.mem_singleton] at hc
      exact hc ▸ hblank d hsymbol

/-- The characters at hand before a step are what it ends, white space and the characters at
hand after it. -/
theorem ended_balance (hcoherent : t.scan.Coherent) :
    ∃ gap, Blank gap ∧ t.scan.text ++ t.symbol.chars =
      t.ended.reverse ++ gap ++ (t.after.text ++ t.unread.flatMap Symbol.chars) := by
  rcases shape hcoherent with ⟨c, hsymbol, haction⟩ | ⟨haction, hpending, hblank⟩ |
    ⟨c, hsymbol, hconsumes, haction⟩ | ⟨haction, _⟩ | ⟨haction, last, first, others, hpending⟩
  · have hunread : t.unread = [] := unread_of_consumes (by rw [haction]; rfl)
    refine ⟨[], Blank.nil, ?_⟩
    simp [ended_of_store haction, hunread, Scan.text, hsymbol, Symbol.chars,
      after_pending_of_store hsymbol haction]
  · refine ⟨t.symbol.chars, blank_chars hblank, ?_⟩
    have hafter := after_text_eq_nil hcoherent (t := t) (by simp [haction])
    simp [ended_of_ignore haction, hafter, Scan.text_eq_nil_iff.mpr hpending, Step.unread,
      haction]
  · refine ⟨[], Blank.nil, ?_⟩
    rw [ended_of_completes hsymbol hconsumes haction, after_text_eq_nil hcoherent haction,
      unread_of_consumes hconsumes]
    simp [hsymbol, Symbol.chars]
  · refine ⟨[], Blank.nil, ?_⟩
    have hafter := after_text_eq_nil hcoherent (t := t)
      (by rcases haction with h | h <;> simp [h])
    simp [ended_of_givesBack haction, hafter, unread_of_givesBack haction]
  · refine ⟨[], Blank.nil, ?_⟩
    have hafter := after_text_eq_nil hcoherent (t := t) (by simp [haction])
    have htext : t.scan.text = (first :: others).reverse ++ [last] := by
      simp [Scan.text, hpending]
    simp [ended_of_givesBackTwo haction, hafter, htext, Step.unread, haction, hpending,
      Symbol.chars]

/-- What a step ends and does not deliver is white space: the end of an inline comment. -/
theorem token?_balance (hcoherent : t.scan.Coherent) :
    ∃ gap, Blank gap ∧ t.ended.reverse = t.token?.getD [] ++ gap := by
  by_cases hnone : t.action = .store ∨ t.action = .ignore
  · have hended : t.ended = [] := by
      rcases hnone with haction | haction
      · exact ended_of_store haction
      · exact ended_of_ignore haction
    exact ⟨[], Blank.nil, by simp [hended, token?_of_ended_eq_nil hended]⟩
  · rw [not_or] at hnone
    rw [token?_eq_some_body hcoherent hnone.1 hnone.2, Option.getD_some, Step.body]
    split
    · exact trimRight_append_blank t.ended.reverse
    · exact ⟨[], Blank.nil, by simp⟩

/-- The characters at hand before a step are the token it delivers, white space and the
characters at hand after it. -/
theorem text_balance (hcoherent : t.scan.Coherent) :
    ∃ gap, Blank gap ∧ t.scan.text ++ t.symbol.chars =
      t.token?.getD [] ++ gap ++ (t.after.text ++ t.unread.flatMap Symbol.chars) := by
  obtain ⟨skipped, hskipped, hended⟩ := ended_balance hcoherent
  obtain ⟨trimmed, htrimmed, htoken⟩ := token?_balance hcoherent
  refine ⟨trimmed ++ skipped, htrimmed.append hskipped, ?_⟩
  rw [hended, htoken]
  simp only [List.append_assoc]

theorem solid_of_token? {token : List Char} (hcoherent : t.scan.Coherent)
    (htoken : t.token? = some token) : Solid token := by
  obtain ⟨rfl, hstore, hignore⟩ := eq_body_of_token? hcoherent htoken
  exact solid_body hcoherent hstore hignore

end Step

theorem Run.tokens_run_cons (t : Step) (rest : List Symbol) :
    (t.scan.run (t.symbol :: rest)).tokens =
      t.token?.toList ++ (t.after.run (t.unread ++ rest)).tokens := by
  rw [Run.tokens, Scan.run_cons_steps, filterMap_cons_toList]
  rfl

/-- The tokens of a run are woven into the characters at hand when it starts. -/
theorem run_tokens_woven {line : List Char} (scan : Scan) (symbols : List Symbol) :
    scan.Coherent → Scan.Within line scan symbols →
      Woven (scan.run symbols).tokens (scan.text ++ symbols.flatMap Symbol.chars) := by
  induction scan, symbols using Scan.run_induction with
  | hnil scan =>
      intro _ hwithin
      rw [Scan.text_eq_nil_iff.mpr hwithin.pending_eq_nil, Scan.run_nil]
      exact Woven.of_blank Blank.nil
  | hcons t rest ih =>
      intro hcoherent hwithin
      obtain ⟨gap, hgap, hbalance⟩ := Step.text_balance hcoherent
      have hlater := (ih (Step.coherent_after hcoherent)
        (Step.within_after hcoherent hwithin)).gap_append hgap
      rw [List.flatMap_append] at hlater
      rw [Run.tokens_run_cons, List.flatMap_cons, ← List.append_assoc, hbalance]
      cases htoken : t.token? with
      | none => simpa using hlater
      | some token =>
          have hsolid := Step.solid_of_token? hcoherent htoken
          simpa using hlater.token_append hsolid

theorem lineSymbols_chars (line : List Char) :
    (lineSymbols line).flatMap Symbol.chars = line := by
  induction line with
  | nil => rfl
  | cons c rest ih => simp [Symbol.chars, ih]

theorem scanLine_tokens_woven (mode : Mode) (line : List Char) :
    Woven (scanLine mode line).tokens line := by
  have hwoven := run_tokens_woven (Scan.ofMode mode) (lineSymbols line)
    (Scan.coherent_ofMode mode) (Scan.within_ofMode mode line)
  rw [lineSymbols_chars] at hwoven
  exact hwoven

end LineLexer
