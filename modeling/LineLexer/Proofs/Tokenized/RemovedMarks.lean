import LineLexer.Proofs.TokenList.CommentWalk
import LineLexer.Proofs.Tokenized.CommentRemoval
/-!
The marks that removal of comments leaves.

A text that survives opens no comment: outside of comments it would have opened one, and of a
comment only the line terminator after it survives.  So what is left of a list has nothing for
another removal to find, and the removal leaves the list as it is.  Removal knows nothing of closing
marks outside of comments and keeps them.  The tokens of a source have none, because in code a star
is a token of its own before a slash.
-/

namespace LineLexer

open CommentKind

section Survivors

variable {α : Type} {kinds : List CommentKind} {text : α → String} {opened : Option CommentKind}

theorem CommentKind.opened?_of_not_covers {word : String}
    (hkept : covers kinds opened word = false) : opened? kinds word = none := by
  cases opened with
  | none => exact Option.isSome_eq_false_iff.mp hkept |> Option.isNone_iff_eq_none.mp
  | some kind =>
      rw [covers, Bool.or_eq_false_iff, bne_eq_false_iff_eq] at hkept
      -- Of the two kinds only inline comments leave what ends them.
      cases kind with
      | inline =>
          rw [hkept.1]
          exact opened?_lineTerminator kinds
      | block => cases hkept.2

/-- What survives opens no comment. -/
theorem CommentKind.opened?_of_mem_survivors {xs : List α} {x : α}
    (hmem : x ∈ survivors kinds text opened xs) : opened? kinds (text x) = none := by
  induction xs generalizing opened with
  | nil => cases hmem
  | cons y rest ih =>
      rw [survivors] at hmem
      split at hmem
      · exact ih hmem
      · rename_i hkept
        rcases List.mem_cons.mp hmem with rfl | hlater
        · exact opened?_of_not_covers (Bool.eq_false_iff.mpr hkept)
        · exact ih hlater

/-- Fewer kinds of comments are opened by fewer texts. -/
theorem CommentKind.opened?_of_subset {fewer : List CommentKind} (hfewer : fewer ⊆ kinds)
    {word : String} (hnone : opened? kinds word = none) : opened? fewer word = none := by
  rw [Option.eq_none_iff_forall_ne_some]
  intro kind hopened
  obtain ⟨hword, hmem⟩ := opened?_eq_some_iff.mp hopened
  rw [opened?_eq_some_iff.mpr ⟨hword, hfewer hmem⟩] at hnone
  cases hnone

end Survivors

/-- Where no comment is opened, no token is covered. -/
theorem CommentSweep.of_eq_empty {kinds : List CommentKind} {entries : List (Handle × Token)}
    (hnone : ∀ entry ∈ entries, opened? kinds (entryText entry) = none) :
    CommentSweep.of kinds none entries = {} := by
  induction entries with
  | nil => rfl
  | cons entry rest ih =>
      rw [CommentSweep.of_cons_of_none (hnone entry List.mem_cons_self)]
      exact ih fun other hother => hnone other (List.mem_cons_of_mem entry hother)

namespace TokenList

variable {list : TokenList} {kinds fewer : List CommentKind}

/-- No token of the list opens a comment of the kinds. -/
def OpensNone (list : TokenList) (kinds : List CommentKind) : Prop :=
  ∀ text ∈ list.texts, opened? kinds text = none

theorem OpensNone.opening_not_mem (hnone : list.OpensNone kinds) {kind : CommentKind}
    (hkind : kind ∈ kinds) : kind.opening ∉ list.texts := by
  intro hmem
  have hopened := hnone kind.opening hmem
  rw [opened?_eq_some_iff.mpr ⟨rfl, hkind⟩] at hopened
  cases hopened

theorem OpensNone.of_subset (hnone : list.OpensNone kinds) (hfewer : fewer ⊆ kinds) :
    list.OpensNone fewer :=
  fun text hmem => opened?_of_subset hfewer (hnone text hmem)

/-- Where no comment is opened, removal leaves the whole list as it is. -/
theorem OpensNone.removeComments_eq (hnone : list.OpensNone kinds) :
    list.removeComments kinds = ({}, list) := by
  have hentries : ∀ entry ∈ list.entries, opened? kinds (entryText entry) = none :=
    fun entry hmem => hnone (entryText entry) (List.mem_map_of_mem hmem)
  rw [removeComments, CommentSweep.of_eq_empty hentries]
  rfl

theorem OpensNone.removeInlineComments_eq (hnone : list.OpensNone [.inline]) :
    list.removeInlineComments = (0, list) := by
  rw [removeInlineComments, hnone.removeComments_eq]

theorem OpensNone.removeBlockComments_eq (hnone : list.OpensNone [.block]) :
    list.removeBlockComments = (0, list) := by
  rw [removeBlockComments, hnone.removeComments_eq]

/-- After removal no comment of its kinds is opened. -/
theorem Holds.opensNone_removeComments {entries : List (Handle × Token)}
    (hholds : list.Holds entries) (kinds : List CommentKind) :
    (list.removeComments kinds).2.OpensNone kinds := by
  intro text hmem
  rw [hholds.removeComments_texts] at hmem
  exact opened?_of_mem_survivors hmem

end TokenList

/-- A token that belongs to no comment is no closing mark. -/
theorem ne_blockClosing_of_mem_labelledLines {mode : Mode} {lines : List LogicalLine}
    {text : String} (hmem : (text, false) ∈ labelledLines mode lines) : text ≠ "*/" := by
  rcases mem_labelledLines hmem with hend | ⟨t, hcoherent, hlabelled⟩
  · rw [show text = lineTerminator from hend]
    decide
  · obtain ⟨hcode, rfl⟩ := Step.ended_of_labelled? hcoherent hlabelled
    intro hmark
    exact Step.ended_ne_blockClosing hcoherent hcode (String.ofList_injective hmark)

namespace Tokenized

/-- Removal from the tokens of a source leaves no closing marks. -/
theorem blockClosing_not_mem (config : Config) (source : Source) :
    "*/" ∉ (ofSource ⟨config, false⟩ source).tokens.stripComments.2.texts := by
  obtain ⟨entries, hholds, htexts⟩ := readLines_texts config source.logicalLines
  have hlabelled : (labelledLines .normal source.logicalLines).map Prod.fst =
      entries.map entryText := by
    rw [htexts]
    exact map_fst_labelledLines .normal source.logicalLines
  obtain ⟨_, hstep⟩ := lines_inStep .normal source.logicalLines
  have hkept : (ofSource ⟨config, false⟩ source).tokens.stripComments.2.texts =
      (survivors both Prod.fst none (labelledLines .normal source.logicalLines)).map Prod.fst :=
    hholds.stripComments_texts hlabelled
  have hleft : survivors both Prod.fst none (labelledLines .normal source.logicalLines) =
      (labelledLines .normal source.logicalLines).filter (!·.2) := hstep.survivors_eq
  rw [hkept, hleft]
  intro hmem
  obtain ⟨⟨text, label⟩, hcode, rfl⟩ := List.mem_map.mp hmem
  obtain ⟨hlabelledText, hlabel⟩ := List.mem_filter.mp hcode
  cases label with
  | true => cases hlabel
  | false => exact ne_blockClosing_of_mem_labelledLines hlabelledText rfl

end Tokenized

/-- Removal is complete, so that a second removal finds nothing and leaves the whole list as it is.
After removal of both kinds of comments a source has no marks of block comments at all. -/
theorem removal_complete :
    (∀ list : TokenList, list.Reached →
      let stripped := list.stripComments.2
      let inlineGone := list.removeInlineComments.2
      let blockGone := list.removeBlockComments.2
      ("//" ∉ stripped.texts ∧ "/*" ∉ stripped.texts ∧
        stripped.stripComments = ({}, stripped) ∧
        stripped.removeInlineComments = (0, stripped) ∧
        stripped.removeBlockComments = (0, stripped)) ∧
      ("//" ∉ inlineGone.texts ∧ inlineGone.removeInlineComments = (0, inlineGone)) ∧
      ("/*" ∉ blockGone.texts ∧ blockGone.removeBlockComments = (0, blockGone))) ∧
    ∀ config source,
      "*/" ∉ (Tokenized.ofSource ⟨config, false⟩ source).tokens.stripComments.2.texts := by
  refine ⟨?_, Tokenized.blockClosing_not_mem⟩
  intro list hlist stripped inlineGone blockGone
  obtain ⟨tape, htape⟩ := hlist.represents
  have hstripped : stripped.OpensNone both := htape.holds.opensNone_removeComments both
  have hinlineGone : inlineGone.OpensNone [.inline] := htape.holds.opensNone_removeComments _
  have hblockGone : blockGone.OpensNone [.block] := htape.holds.opensNone_removeComments _
  have hnoInline : stripped.OpensNone [.inline] := hstripped.of_subset (by decide)
  have hnoBlock : stripped.OpensNone [.block] := hstripped.of_subset (by decide)
  refine ⟨⟨?_, ?_, ?_, ?_, ?_⟩, ⟨?_, ?_⟩, ?_, ?_⟩
  · exact hnoInline.opening_not_mem List.mem_cons_self
  · exact hnoBlock.opening_not_mem List.mem_cons_self
  · exact hstripped.removeComments_eq
  · exact hnoInline.removeInlineComments_eq
  · exact hnoBlock.removeBlockComments_eq
  · exact hinlineGone.opening_not_mem List.mem_cons_self
  · exact hinlineGone.removeInlineComments_eq
  · exact hblockGone.opening_not_mem List.mem_cons_self
  · exact hblockGone.removeBlockComments_eq

/-- Removal brings the parts of a closing mark together, but they stay two tokens; the whole closing
mark outside of comments stays in the list as well, and is never in a source. -/
theorem removal_complete_split_mark :
    let texts := ["*", "/*", "//", "*/", "/", "*/", "//", "b", "/*", "\n", "/*", "c"]
    let list := (((TokenList.empty 0).perform (.extend texts)).2.perform .advance).2
    let stripped := list.stripComments.2
    let source : Source := ⟨"stars", "a*/b/*c\n*/*/"⟩
    list.Reached ∧ stripped.stripComments = ({}, stripped) ∧
      stripped.texts = ["*", "/", "*/", "\n"] ∧
      "*/" ∉ (Tokenized.ofSource ⟨{}, false⟩ source).tokens.stripComments.2.texts := by
  intro texts list stripped source
  have hreached : list.Reached := ((TokenList.Reached.empty 0).perform _).perform _
  obtain ⟨hlists, hsources⟩ := removal_complete
  obtain ⟨⟨_, _, hagain, _⟩, _⟩ := hlists list hreached
  exact ⟨hreached, hagain, by decide +kernel, hsources _ _⟩

end LineLexer
