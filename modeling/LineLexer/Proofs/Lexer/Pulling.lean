import LineLexer.Proofs.Lexer.Parking
import LineLexer.Proofs.TokenList.Lifetime
/-!
A lexer as a queue that each line fills anew.

After a line has been read its tokens wait to be pulled.  Each pull takes the first of them until
none is left, and then fails and changes nothing.  Whatever else is asked of the lexer meanwhile
makes no difference, until the next line takes the place of what is left.  The tokens of the lines
before are gone for good: as long as the list is in bounds, their handles are not given again.
-/

namespace LineLexer

namespace Lexer

/-- What can be asked of a lexer. -/
inductive Request where
  | operate (operation : Operation)
  | isComplete
  | diagnostics

namespace Request

/-- The line that a request sets. -/
def line? : Request → Option (List Char)
  | .operate operation => operation.line?
  | .isComplete | .diagnostics => none

def isPull : Request → Bool
  | .operate .pull => true
  | _ => false

end Request

/-- The lexer after a request.  A question leaves it as it is. -/
def serve (lexer : Lexer) : Request → Lexer
  | .operate operation => lexer.perform operation
  | .isComplete | .diagnostics => lexer

/-- The lexer after some requests, the first one first. -/
def serveAll (lexer : Lexer) (requests : List Request) : Lexer :=
  requests.foldl serve lexer

/-- No line is set by the requests. -/
def LineFree (requests : List Request) : Prop :=
  ∀ request ∈ requests, request.line? = none

/-- The answer of a pull, given the texts that were to be pulled and how many pulls have been made
before. -/
def answerOf (texts : List String) (before : Nat) : Except LexError String :=
  match texts[before]? with
  | some text => .ok text
  | none => .error .exhaustedCursor

/-- The texts are those of the tokens that are left to be pulled. -/
def Awaits (lexer : Lexer) (texts : List String) : Prop :=
  ∃ tape, lexer.tokens.Represents tape ∧ tape.unread.map entryText = texts

namespace Awaits

variable {lexer : Lexer} {text : String} {texts : List String}

theorem pull_of_cons (hawaits : lexer.Awaits (text :: texts)) :
    lexer.pull.1 = .ok text ∧ lexer.pull.2.Awaits texts := by
  obtain ⟨tape, htokens, hunread⟩ := hawaits
  obtain ⟨entry, unread, htape, htext, htexts⟩ := List.map_eq_cons_iff.mp hunread
  have hpull := pull_of_unread htokens htape
  have hnext := (htokens.advance_of_unread htape).2
  rw [hpull]
  exact ⟨congrArg Except.ok htext, _, hnext, htexts⟩

theorem pull_of_nil (hawaits : lexer.Awaits []) :
    lexer.pull = (.error .exhaustedCursor, lexer) := by
  obtain ⟨tape, htokens, hunread⟩ := hawaits
  apply pull_of_read htokens
  exact List.map_eq_nil_iff.mp hunread

theorem isComplete_iff (hawaits : lexer.Awaits texts) :
    lexer.isComplete = true ↔ texts = [] := by
  obtain ⟨tape, htokens, hunread⟩ := hawaits
  rw [isComplete, htokens.isExhausted_iff, ← hunread, List.map_eq_nil_iff]

/-- Whether or not there is a token left, a pull takes the first one. -/
theorem pull (hawaits : lexer.Awaits texts) :
    lexer.pull.1 = answerOf texts 0 ∧ lexer.pull.2.Awaits (texts.drop 1) := by
  cases texts with
  | nil =>
      rw [hawaits.pull_of_nil]
      exact ⟨rfl, hawaits⟩
  | cons text texts => exact hawaits.pull_of_cons

/-- Of the requests that set no line only pulls concern the tokens that are left. -/
theorem serve (hawaits : lexer.Awaits texts) {request : Request} (hfree : request.line? = none) :
    (lexer.serve request).Awaits (texts.drop (if request.isPull then 1 else 0)) := by
  cases request with
  | isComplete | diagnostics => exact hawaits
  | operate operation =>
      cases operation with
      | read text | readNumbered number text | tokenizeLine text => cases hfree
      | pull => exact hawaits.pull.2
      | finish | takeDiagnostics => exact hawaits

theorem serveAll (hawaits : lexer.Awaits texts) {requests : List Request}
    (hfree : LineFree requests) :
    (lexer.serveAll requests).Awaits (texts.drop (requests.countP Request.isPull)) := by
  induction requests generalizing lexer texts with
  | nil => exact hawaits
  | cons request later ih =>
      obtain ⟨hfirst, hlater⟩ := List.forall_mem_cons.mp hfree
      have hlast := ih (hawaits.serve hfirst) hlater
      rw [List.drop_drop, Nat.add_comm, ← List.countP_cons] at hlast
      exact hlast

end Awaits

section Works

variable {config : Config} {lexer : Lexer}

theorem Works.serve (hworks : lexer.Works config) (request : Request) :
    (lexer.serve request).Works config := by
  cases request with
  | operate operation => exact hworks.perform operation
  | isComplete | diagnostics => exact hworks

theorem Works.serveAll (hworks : lexer.Works config) (requests : List Request) :
    (lexer.serveAll requests).Works config := by
  induction requests generalizing lexer with
  | nil => exact hworks
  | cons request later ih => exact ih (hworks.serve request)

/-- No more texts are left to be pulled than there are tokens. -/
theorem Works.awaits (hworks : lexer.Works config) :
    ∃ texts, lexer.Awaits texts ∧ texts.length ≤ lexer.tokens.size := by
  obtain ⟨_, tape, htokens⟩ := hworks
  refine ⟨_, ⟨tape, htokens, rfl⟩, ?_⟩
  rw [htokens.holds.size_eq, List.length_map, Tape.entries, List.length_append]
  exact Nat.le_add_left _ _

theorem Works.awaits_readNumbered (hworks : lexer.Works config) (number : Nat)
    (line : List Char) :
    (lexer.readNumbered number line).Awaits (lineTexts config (scanLine lexer.mode line)) := by
  obtain ⟨rfl, tape, htokens⟩ := hworks
  obtain ⟨entries, htexts, hfilled⟩ := readNumbered_represents htokens number line
  exact ⟨_, hfilled, htexts⟩

theorem Works.tokenizeLine_eq (hworks : lexer.Works config) (line : List Char) :
    (lexer.tokenizeLine line).1 = lineTexts config (scanLine lexer.mode line) ∧
      (lexer.tokenizeLine line).2.Awaits [] := by
  obtain ⟨tape, htokens, hunread⟩ := hworks.awaits_readNumbered (lexer.line + 1) line
  obtain ⟨tokens, hdrain, hlast⟩ := drain_eq htokens
  have hline : lexer.tokenizeLine line = (lexer.readNumbered (lexer.line + 1) line).drain := rfl
  rw [hline, hdrain]
  exact ⟨hunread, _, hlast, rfl⟩

end Works

section Edits

variable {config : Config} {lexer : Lexer} {handle : Handle}

end Edits

end Lexer

end LineLexer
