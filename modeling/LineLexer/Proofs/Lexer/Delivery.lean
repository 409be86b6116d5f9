import LineLexer.Lexer
import LineLexer.Proofs.Scan.Reconstruction
import LineLexer.Proofs.TokenList.Tape
/-!
What a lexer delivers is what the scan of the line found.

The list of a lexer is cleared and filled again for every line, so that its slots have been
used by the tokens of earlier lines.  Whatever has been done with the lexer before, the list
holds exactly the tokens of the line read last, and pulling them delivers them in their order.
-/

namespace LineLexer

namespace Lexer

/-- What can be done with a lexer. -/
inductive Operation where
  | read (text : List Char)
  | readNumbered (number : Nat) (text : List Char)
  | tokenizeLine (text : List Char)
  | pull
  | finish
  | takeDiagnostics

def perform (lexer : Lexer) : Operation → Lexer
  | .read text => lexer.read text
  | .readNumbered number text => lexer.readNumbered number text
  | .tokenizeLine text => (lexer.tokenizeLine text).2
  | .pull => lexer.pull.2
  | .finish => lexer.finish.2
  | .takeDiagnostics => lexer.takeDiagnostics.2

/-- The lexer after some operations, the first one first. -/
def after (lexer : Lexer) (history : List Operation) : Lexer :=
  history.foldl perform lexer

variable {lexer : Lexer} {tape : Tape}

/-- A line that is read replaces all tokens of the line before, read or not. -/
theorem readNumbered_represents (htokens : lexer.tokens.Represents tape) (number : Nat)
    (text : List Char) :
    ∃ entries, entries.map entryText = lineTexts lexer.config (scanLine lexer.mode text) ∧
      (lexer.readNumbered number text).tokens.Represents ⟨[], entries⟩ :=
  htokens.clear.extend _

/-- A pull delivers the first unread token. -/
theorem pull_of_unread {entry : Handle × Token} {unread : List (Handle × Token)}
    (htokens : lexer.tokens.Represents tape) (hunread : tape.unread = entry :: unread) :
    lexer.pull = (.ok entry.2.text, { lexer with tokens := lexer.tokens.advance.2 }) := by
  obtain ⟨hhandle, hnext⟩ := htokens.advance_of_unread hunread
  have hplace : Tape.entries ⟨tape.read ++ [entry], unread⟩ =
      tape.read ++ (entry.1, entry.2) :: unread := by
    simp [Tape.entries]
  have hnode := hnext.holds.node_of_split _ _ _ _ hplace
  have htext : lexer.tokens.advance.2.text? entry.1 = some entry.2.text := by
    rw [TokenList.text?, TokenList.get?, hnode]
    rfl
  simp only [pull, hhandle, Option.bind_some, htext]

theorem pull_of_read (htokens : lexer.tokens.Represents tape) (hunread : tape.unread = []) :
    lexer.pull = (.error .exhaustedCursor, lexer) := by
  simp only [pull, htokens.advance_of_read hunread, Option.bind_none]

/-- Pulling several times delivers as many unread tokens as there are. -/
theorem pullMany_eq (htokens : lexer.tokens.Represents tape) (count : Nat) :
    ∃ tokens, pullMany count lexer =
        ((tape.unread.take count).map entryText, { lexer with tokens }) ∧
      tokens.Represents ⟨tape.read ++ tape.unread.take count, tape.unread.drop count⟩ := by
  induction count generalizing lexer tape with
  | zero => exact ⟨lexer.tokens, rfl, by simpa using htokens⟩
  | succ count ih =>
      cases hunread : tape.unread with
      | nil =>
          refine ⟨lexer.tokens, ?_, ?_⟩
          · simp only [pullMany, pull_of_read htokens hunread]
            rfl
          · rw [List.take_nil, List.drop_nil, List.append_nil, ← hunread]
            exact htokens
      | cons entry unread =>
          have hnext : ({ lexer with tokens := lexer.tokens.advance.2 } : Lexer).tokens.Represents
              ⟨tape.read ++ [entry], unread⟩ := (htokens.advance_of_unread hunread).2
          obtain ⟨tokens, hlater, hlast⟩ := ih hnext
          refine ⟨tokens, ?_, by simpa using hlast⟩
          simp only [pullMany, pull_of_unread htokens hunread, hlater]
          rfl

/-- Draining delivers every unread token and leaves nothing unread. -/
theorem drain_eq (htokens : lexer.tokens.Represents tape) :
    ∃ tokens, lexer.drain = (tape.unread.map entryText, { lexer with tokens }) ∧
      tokens.Represents ⟨tape.entries, []⟩ := by
  obtain ⟨tokens, hdrain, hlast⟩ := pullMany_eq htokens lexer.tokens.size
  have hlength : tape.unread.length ≤ lexer.tokens.size := by
    rw [htokens.holds.size_eq, Tape.entries, List.length_append]
    exact Nat.le_add_left _ _
  rw [List.take_of_length_le hlength] at hdrain hlast
  rw [List.drop_of_length_le hlength] at hlast
  exact ⟨tokens, hdrain, hlast⟩

/-- The lexer works under a configuration on a list whose links are in order. -/
def Works (config : Config) (lexer : Lexer) : Prop :=
  lexer.config = config ∧ ∃ tape, lexer.tokens.Represents tape

theorem works_ofConfig (config : Config) : (ofConfig config).Works config :=
  ⟨rfl, {}, TokenList.represents_empty 0⟩

section Works

variable {config : Config}

theorem Works.readNumbered (hworks : lexer.Works config) (number : Nat) (text : List Char) :
    (lexer.readNumbered number text).Works config := by
  obtain ⟨hconfig, tape, htokens⟩ := hworks
  obtain ⟨entries, _, hfilled⟩ := readNumbered_represents htokens number text
  exact ⟨hconfig, _, hfilled⟩

theorem Works.drain (hworks : lexer.Works config) : lexer.drain.2.Works config := by
  obtain ⟨hconfig, tape, htokens⟩ := hworks
  obtain ⟨tokens, hdrain, hlast⟩ := drain_eq htokens
  rw [hdrain]
  exact ⟨hconfig, _, hlast⟩

theorem Works.pull (hworks : lexer.Works config) : lexer.pull.2.Works config := by
  obtain ⟨hconfig, tape, htokens⟩ := hworks
  cases hunread : tape.unread with
  | nil =>
      rw [pull_of_read htokens hunread]
      exact ⟨hconfig, tape, htokens⟩
  | cons entry unread =>
      rw [pull_of_unread htokens hunread]
      exact ⟨hconfig, _, (htokens.advance_of_unread hunread).2⟩

theorem Works.perform (hworks : lexer.Works config) (operation : Operation) :
    (lexer.perform operation).Works config := by
  cases operation with
  | read text => exact hworks.readNumbered _ text
  | readNumbered number text => exact hworks.readNumbered number text
  | tokenizeLine text => exact (hworks.readNumbered _ text).drain
  | pull => exact hworks.pull
  | finish => exact hworks
  | takeDiagnostics => exact hworks

theorem Works.after (hworks : lexer.Works config) (history : List Operation) :
    (lexer.after history).Works config := by
  induction history generalizing lexer with
  | nil => exact hworks
  | cons operation later ih => exact ih (hworks.perform operation)

/-- The tokens of a line are those that its scan finds, whatever the lexer has read before,
and pulling delivers them all. -/
theorem Works.readNumbered_texts (hworks : lexer.Works config) (number : Nat)
    (text : List Char) :
    (lexer.readNumbered number text).tokens.texts =
        lineTexts config (scanLine lexer.mode text) ∧
      (lexer.readNumbered number text).drain.1 =
        lineTexts config (scanLine lexer.mode text) := by
  obtain ⟨rfl, tape, htokens⟩ := hworks
  obtain ⟨entries, htexts, hfilled⟩ := readNumbered_represents htokens number text
  obtain ⟨_, hdrain, _⟩ := drain_eq hfilled
  rw [TokenList.texts_eq hfilled.holds, hdrain]
  exact ⟨htexts, htexts⟩

end Works

/-- Without line terminators the tokens of a line, pulled or listed, are consecutive pieces
of it with nothing but white space before, between and after them, whatever the lexer has
read before. -/
theorem readNumbered_woven (report : Bool) (history : List Operation) (number : Nat)
    (line : List Char) :
    let lexer := (ofConfig ⟨false, report⟩).after history
    ∃ tokens : List (List Char),
      (lexer.readNumbered number line).tokens.texts = tokens.map String.ofList ∧
        (lexer.readNumbered number line).drain.1 = tokens.map String.ofList ∧
        Woven tokens line ∧
        tokens.flatten.filter (!isBlank ·) = line.filter (!isBlank ·) := by
  intro lexer
  have hworks := (works_ofConfig ⟨false, report⟩).after history
  have hwoven := scanLine_tokens_woven lexer.mode line
  have htexts : lineTexts ⟨false, report⟩ (scanLine lexer.mode line) =
      (scanLine lexer.mode line).tokens.map String.ofList := by
    simp [lineTexts]
  obtain ⟨hlist, hdrain⟩ := hworks.readNumbered_texts number line
  rw [htexts] at hlist hdrain
  exact ⟨(scanLine lexer.mode line).tokens, hlist, hdrain, hwoven, hwoven.filter_eq⟩

end Lexer

end LineLexer
