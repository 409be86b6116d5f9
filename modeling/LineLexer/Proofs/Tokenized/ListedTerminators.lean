import LineLexer.Proofs.Tokenized.Listing
import LineLexer.Proofs.Tokenized.CommentRemoval
/-!
What a listing says of line terminators.

A line terminator is shown as a backslash and an `n`.  In code a backslash is a token of its own, so
that no token of code is shown like this.  In comments a backslash is a character like any other,
and a comment may have these two characters as one of its tokens.  So the listing of an output
without comments tells its tokens, and that of an output with comments tells them up to such tokens.
-/

namespace LineLexer

open CommentKind

/-- In code the table ends a token at a backslash. -/
theorem Mode.reading_backslash : ∀ mode : Mode, mode.startState = .start →
    mode.startState.reading (['\\'].map (CharClass.classify mode)) = none := by
  decide

/-- In code no token starts with a backslash and goes on. -/
theorem Step.ended_ne_backslash_cons {t : Step} (hcoherent : t.scan.Coherent)
    (hcode : t.scan.mode.startState = .start) (c : Char) (rest : List Char) :
    t.ended.reverse ≠ '\\' :: c :: rest := by
  intro hended
  -- Before the step at least the backslash has been read.
  have hread : ∃ back, t.scan.text = ['\\'] ++ back := by
    rcases ended_cases hcoherent (by simp) hended with
      ⟨front, last, hword, htext, _⟩ | ⟨htext, _⟩ | ⟨last, htext, _⟩
    · cases front with
      | nil => cases hword
      | cons first others =>
          obtain ⟨rfl, _⟩ := List.cons.inj hword
          exact ⟨others, htext⟩
    · exact ⟨_, htext⟩
    · exact ⟨_, htext⟩
  obtain ⟨back, htext⟩ := hread
  exact hcoherent.reading_ne_none htext (Mode.reading_backslash t.scan.mode hcode)

/-- A token of these two characters belongs to a comment. -/
theorem ne_escape_of_mem_labelledLines {mode : Mode} {lines : List LogicalLine} {text : String}
    (hmem : (text, false) ∈ labelledLines mode lines) : text ≠ "\\n" := by
  rcases mem_labelledLines hmem with hend | ⟨t, hcoherent, hlabelled⟩
  · rw [show text = lineTerminator from hend]
    decide
  · obtain ⟨hcode, rfl⟩ := Step.ended_of_labelled? hcoherent hlabelled
    intro hescape
    exact Step.ended_ne_backslash_cons hcoherent hcode 'n' [] (String.ofList_injective hescape)

namespace Tokenized

/-- The tokens of a source are those of its lines, without the ones that belong to comments where
comments are removed. -/
theorem texts_ofSource (options : Options) (source : Source) :
    (ofSource options source).tokens.texts =
      ((labelledLines .normal source.logicalLines).filter
        fun labelled => !(options.stripComments && labelled.2)).map Prod.fst := by
  obtain ⟨_, hstep⟩ := lines_inStep .normal source.logicalLines
  have hleft : survivors both Prod.fst none (labelledLines .normal source.logicalLines) =
      (labelledLines .normal source.logicalLines).filter (!·.2) := hstep.survivors_eq
  rw [(ofSource_texts options source).1, ← map_fst_labelledLines, ← map_survivors, hleft]
  cases options.stripComments <;> simp

/-- Where comments are removed no token is shown like a line terminator. -/
theorem escape_not_mem_texts {options : Options} (hstrip : options.stripComments = true)
    (source : Source) : "\\n" ∉ (ofSource options source).tokens.texts := by
  rw [texts_ofSource, hstrip]
  intro hmem
  obtain ⟨⟨text, label⟩, hkept, rfl⟩ := List.mem_map.mp hmem
  obtain ⟨hlabelled, hlabel⟩ := List.mem_filter.mp hkept
  cases label with
  | true => cases hlabel
  | false => exact ne_escape_of_mem_labelledLines hlabelled rfl

/-- Where comments are kept a token is shown like a line terminator only as part of a comment. -/
theorem getElem?_texts_eq_escape_iff (options : Options) (source : Source) (index : Nat) :
    (ofSource options source).tokens.texts[index]? = some "\\n" ↔
      options.stripComments = false ∧
        (labelledLines .normal source.logicalLines)[index]? = some ("\\n", true) := by
  cases hstrip : options.stripComments with
  | true =>
      have hnone := escape_not_mem_texts hstrip source
      simpa using fun htext => hnone (List.mem_of_getElem? htext)
  | false =>
      have htexts : (ofSource options source).tokens.texts =
          (labelledLines .normal source.logicalLines).map Prod.fst := by
        simp [texts_ofSource, hstrip]
      rw [htexts, List.getElem?_map, Option.map_eq_some_iff]
      constructor
      · rintro ⟨⟨text, label⟩, hlabelled, rfl⟩
        cases label with
        | true => exact ⟨rfl, hlabelled⟩
        | false =>
            exact absurd rfl (ne_escape_of_mem_labelledLines (List.mem_of_getElem? hlabelled))
      · rintro ⟨_, hlabelled⟩
        exact ⟨_, hlabelled, rfl⟩

/-- A row of a listing shows a backslash and an `n` for a line terminator and, if comments are
kept, for a token of these characters, which always belongs to a comment.  Two outputs have the same
listing if they have the same tokens up to such tokens in place of terminators, so that without such
tokens, as where comments are removed, the listing tells the tokens. -/
theorem listing_terminators (options : Options) (source : Source) :
    let tokens := (ofSource options source).tokens
    (∀ index, (tokens.listing.toList.splitOn '\n')[index]? =
        some ("Token " ++ toString (index + 1) ++ ": \\n").toList ↔
      tokens.texts[index]? = some "\n" ∨ options.stripComments = false ∧
        (labelledLines .normal source.logicalLines)[index]? = some ("\\n", true)) ∧
    (options.stripComments = true → "\\n" ∉ tokens.texts) ∧
    ∀ (others : Options) (another : Source),
      let otherTokens := (ofSource others another).tokens
      (tokens.listing = otherTokens.listing ↔
        List.Forall₂ ShownAlike tokens.texts otherTokens.texts) ∧
      ("\\n" ∉ tokens.texts → "\\n" ∉ otherTokens.texts →
        tokens.listing = otherTokens.listing → tokens.texts = otherTokens.texts) := by
  intro tokens
  have htexts : ∀ text ∈ tokens.texts, TerminatorOrInLine text :=
    terminatorOrInLine_ofSource options source
  refine ⟨?_, fun hstrip => escape_not_mem_texts hstrip source, ?_⟩
  · intro index
    rw [← getElem?_texts_eq_escape_iff]
    exact TokenList.getElem?_splitOn_listing_iff htexts index
  · intro others another otherTokens
    have hothers : ∀ text ∈ otherTokens.texts, TerminatorOrInLine text :=
      terminatorOrInLine_ofSource others another
    have hlistings := TokenList.listing_eq_iff htexts hothers
    exact ⟨hlistings, fun hnone hotherNone hlisting =>
      eq_of_forall₂_shownAlike (hlistings.mp hlisting) hnone hotherNone⟩

/-- Two comments that are listed alike, and two sources that have the same tokens outside of
them. -/
theorem listing_terminators_comments :
    let first : Source := ⟨"first", "a /* \\n\n*/ b"⟩
    let second : Source := ⟨"second", "a /*\n\\n */ b"⟩
    let third : Source := ⟨"third", "a b // \\n"⟩
    let kept := (ofSource {} first).tokens
    let removed := (ofSource ⟨{}, true⟩ first).tokens
    ((kept.listing.toList.splitOn '\n')[2]? = some "Token 3: \\n".toList ∧
        (kept.listing.toList.splitOn '\n')[3]? = some "Token 4: \\n".toList) ∧
      kept.listing = (ofSource {} second).tokens.listing ∧
      "\\n" ∉ removed.texts ∧ removed.texts = (ofSource ⟨{}, true⟩ third).tokens.texts := by
  intro first second third kept removed
  obtain ⟨hrows, _, hlistings⟩ := listing_terminators {} first
  obtain ⟨_, hnone, hremoved⟩ := listing_terminators ⟨{}, true⟩ first
  obtain ⟨_, hthirdNone, _⟩ := listing_terminators ⟨{}, true⟩ third
  have hcomment : (labelledLines .normal first.logicalLines)[2]? = some ("\\n", true) := by
    decide +kernel
  have hterminator : kept.texts[3]? = some "\n" := by decide +kernel
  have hthird : (ofSource ⟨{}, true⟩ first).tokens.listing =
      (ofSource ⟨{}, true⟩ third).tokens.listing := by decide +kernel
  refine ⟨⟨(hrows 2).mpr (Or.inr ⟨rfl, hcomment⟩), (hrows 3).mpr (Or.inl hterminator)⟩,
    (hlistings {} second).1.mpr ?_, hnone rfl, ?_⟩
  · rw [forall₂_shownAlike_iff]
    decide +kernel
  · exact (hremoved ⟨{}, true⟩ third).2 (hnone rfl) (hthirdNone rfl) hthird

/-- A token of a comment is listed like a line terminator, so that sources with different tokens
have the same listing. -/
theorem listing_terminators_not_iff :
    let spelled : Source := ⟨"spelled", "// \\n"⟩
    let ended : Source := ⟨"ended", "//\n\n"⟩
    let tokens := (ofSource {} spelled).tokens
    let others := (ofSource {} ended).tokens
    ¬ ((tokens.listing.toList.splitOn '\n')[1]? =
        some ("Token " ++ toString (1 + 1) ++ ": \\n").toList ↔ tokens.texts[1]? = some "\n") ∧
      ¬ (tokens.listing = others.listing → tokens.texts = others.texts) := by
  decide +kernel

end Tokenized

end LineLexer
