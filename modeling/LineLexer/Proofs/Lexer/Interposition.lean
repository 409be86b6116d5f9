import LineLexer.Proofs.Lexer.Delivery
import LineLexer.Proofs.Scan.Comments
import LineLexer.Proofs.Scan.Includes
import LineLexer.Proofs.Scan.Interposition
/-!
A block comment in a gap of code adds its own tokens to those of the line.

The rest of the line is read in normal mode behind the comment.  Where it has the same tokens
without the comment, removal of comments leaves no trace of it.  Only behind an include
directive, and only if an angle bracket follows, the rest may have other tokens: the comment
then ends the effect of the directive.
-/

namespace LineLexer

open CommentKind

/-- The texts of a comment of one word. -/
def wordCommentTexts (word : List Char) : List String :=
  (wordCommentTokens word).map String.ofList

/-- Removal passes a comment of one word without a trace. -/
theorem survivors_wordComment {front back : List String} {word : List Char}
    (hcode : followAll both id none front = none) (hletters : ∀ c ∈ word, c.isAlpha = true) :
    survivors both id none (front ++ wordCommentTexts word ++ back) =
      survivors both id none (front ++ back) := by
  have hopening : opened? both (String.ofList ['/', '*']) = some .block := by decide
  have hword : String.ofList word ≠ CommentKind.block.closing := by
    intro htext
    obtain rfl : word = ['*', '/'] := String.ofList_injective htext
    exact absurd (hletters '*' List.mem_cons_self) (by decide)
  have hclosing : String.ofList ['*', '/'] = CommentKind.block.closing := rfl
  rw [List.append_assoc, survivors_append, survivors_append both id none front back, hcode]
  simp [wordCommentTexts, wordCommentTokens, survivors, covers, follow, hopening, hword, hclosing,
    CommentKind.ownsClosing]

namespace Lexer

/-- Removal of comments from the tokens of a line leaves what survives of their texts. -/
theorem Works.readNumbered_stripComments {lexer : Lexer} {config : Config}
    (hworks : lexer.Works config) (number : Nat) (text : List Char) :
    (lexer.readNumbered number text).tokens.stripComments.2.texts =
      survivors both id none (lexer.readNumbered number text).tokens.texts := by
  obtain ⟨_, tape, hrepresents⟩ := hworks.readNumbered number text
  rw [TokenList.stripComments, hrepresents.holds.removeComments_texts]

/-- A comment of one word in a gap of code adds its three tokens at the gap, and the rest of the
line is read in normal mode behind it.  If the gap is in normal mode, or no angle bracket
follows it, the rest has the same tokens as without the comment and the next line starts in the
same mode; and if the rest has the same tokens, removal of comments makes the two lines equal. -/
theorem readNumbered_interposed (config : Config) (history : List Operation) (number : Nat)
    {line word : List Char} {before after : List Step} {t : Step} {c : Char}
    (hmode : ((ofConfig config).after history).mode = .normal)
    (hsplit : (scanLine .normal line).steps = before ++ t :: after)
    (hskips : t.action = .ignore) (hsymbol : t.symbol = .char c)
    (hcode : t.scan.mode = .normal ∨ t.scan.mode = .includeLiteral)
    (hword : word ≠ []) (hletters : ∀ d ∈ word, d.isAlpha = true) :
    let lexer := (ofConfig config).after history
    let original := (lexer.readNumbered number line).tokens
    let changed := (lexer.readNumbered number (interposed word line t.scan.offset)).tokens
    let front := (before.filterMap Step.token?).map String.ofList
    let rest := line.drop (t.scan.offset + 1)
    let back := lineTexts config (scanLine t.scan.mode rest)
    let backInNormal := lineTexts config (scanLine .normal rest)
    original.texts = front ++ back ∧
      changed.texts = front ++ wordCommentTexts word ++ backInNormal ∧
      (t.scan.mode = .normal ∨ (∀ d ∈ rest, d ≠ '<' ∧ d ≠ '>') → back = backInNormal ∧
        (lexer.readNumbered number (interposed word line t.scan.offset)).mode =
          (lexer.readNumbered number line).mode) ∧
      (back = backInNormal → changed.stripComments.2.texts = original.stripComments.2.texts) := by
  intro lexer original changed front rest back backInNormal
  have hworks : lexer.Works config := (works_ofConfig config).after history
  have hstart : t.scan.mode.startState = .start := by
    rcases hcode with hcode | hcode <;> rw [hcode] <;> rfl
  obtain ⟨⟨hplain, hplainMode⟩, hcommented, hcommentedMode⟩ :=
    scanLine_interposed hsplit hskips hsymbol hstart hword hletters
  have horiginal : original.texts = front ++ back := by
    rw [(hworks.readNumbered_texts number line).1, hmode, lineTexts, hplain, List.map_append,
      List.append_assoc]
    rfl
  have hchanged : changed.texts = front ++ wordCommentTexts word ++ backInNormal := by
    rw [(hworks.readNumbered_texts number _).1, hmode, lineTexts, hcommented, List.map_append,
      List.map_append, List.append_assoc]
    rfl
  refine ⟨horiginal, hchanged, ?_, ?_⟩
  · intro hsame
    have hrest := scanLine_code hcode hsame
    have hafter : ∀ text, (lexer.readNumbered number text).mode = carriedMode .normal text :=
      fun text => congrArg (carriedMode · text) hmode
    rw [hafter, hafter, hcommentedMode, hplainMode, hrest.2]
    exact ⟨by simp only [back, backInNormal, lineTexts, hrest.1], rfl⟩
  · intro hback
    have hcomment : t.scan.mode.comment? = none := by
      rcases hcode with hcode | hcode <;> rw [hcode] <;> rfl
    have hfront : followAll both id none front = none :=
      followAll_tokens_eq_none rfl hsplit hcomment
    have hremoved : changed.stripComments.2.texts = survivors both id none changed.texts :=
      hworks.readNumbered_stripComments number _
    have hkept : original.stripComments.2.texts = survivors both id none original.texts :=
      hworks.readNumbered_stripComments number line
    rw [hremoved, hkept, hchanged, horiginal, hback]
    exact survivors_wordComment hfront hletters

/-- The gap behind an include directive that names its file in quotes. -/
theorem readNumbered_interposed_directive :
    let line := ['#', 'i', 'n', 'c', 'l', 'u', 'd', 'e', ' ', '"', 'a', '"']
    let t : Step := ⟨⟨.includeLiteral, .start, [], 0, 8⟩, .char ' '⟩
    let original := ((ofConfig {}).readNumbered 1 line).tokens
    let changed := ((ofConfig {}).readNumbered 1 (interposed ['w'] line 8)).tokens
    (ofConfig {}).mode = .normal ∧
      (∃ before after, (scanLine .normal line).steps = before ++ t :: after) ∧
      t.action = .ignore ∧ t.scan.mode = .includeLiteral ∧
      original.texts = ["#include", "\"a\""] ∧
      changed.texts = ["#include", "/*", "w", "*/", "\"a\""] ∧
      changed.stripComments.2.texts = original.stripComments.2.texts := by
  intro line t original changed
  have hsplit : (scanLine .normal line).steps =
      (scanLine .normal line).steps.take 9 ++ t :: (scanLine .normal line).steps.drop 10 := by
    decide +kernel
  have hskips : t.action = .ignore := by decide
  have hlexer : ((ofConfig {}).after []).mode = .normal := rfl
  have hword : ['w'] ≠ [] := by decide
  have hletters : ∀ d ∈ ['w'], d.isAlpha = true := by simp
  have hangle : ∀ d ∈ ['"', 'a', '"'], d ≠ '<' ∧ d ≠ '>' := by simp
  obtain ⟨horiginal, hchanged, hback, hremoved⟩ :=
    readNumbered_interposed {} [] 1 hlexer hsplit hskips rfl (Or.inr rfl) hword hletters
  have hrest := (hback (Or.inr hangle)).1
  refine ⟨hlexer, ⟨_, _, hsplit⟩, hskips, rfl, horiginal.trans ?_, hchanged.trans ?_,
    hremoved hrest⟩
  · decide +kernel
  · decide +kernel

/-- A comment between an include directive and a file in angle brackets changes the tokens of the
file. -/
theorem stripComments_interposed_ne :
    let line := ['#', 'i', 'n', 'c', 'l', 'u', 'd', 'e', ' ', '<', 'a', '>']
    let t : Step := ⟨⟨.includeLiteral, .start, [], 0, 8⟩, .char ' '⟩
    let original := ((ofConfig {}).readNumbered 1 line).tokens
    let changed := ((ofConfig {}).readNumbered 1 (interposed ['w'] line 8)).tokens
    (ofConfig {}).mode = .normal ∧ t ∈ (scanLine .normal line).steps ∧ t.action = .ignore ∧
      original.stripComments.2.texts = ["#include", "<a>"] ∧
      changed.stripComments.2.texts = ["#include", "<", "a", ">"] := by
  decide +kernel

end Lexer

end LineLexer
