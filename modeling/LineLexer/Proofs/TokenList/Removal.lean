import LineLexer.TokenList.Comments
import LineLexer.Proofs.TokenList.Refinement
/-!
What removal of comments leaves of a token list.

Removal decides by texts alone.  `survivors` and `openings` say what it does to a sequence of
texts: which ones stay, and which comments are opened among them.  The tokens are erased one
by one from a list in which their slots are linked to those of the tokens that stay, and what
is left is the sequence of the survivors.
-/

namespace LineLexer

namespace CommentKind

/-- Whether a text belongs to a comment. The second argument is the comment that is open
before it. -/
def covers (kinds : List CommentKind) : Option CommentKind → String → Bool
  | none, text => (opened? kinds text).isSome
  | some kind, text => text != kind.closing || kind.ownsClosing

/-- The comment that is open after a text. -/
def follow (kinds : List CommentKind) : Option CommentKind → String → Option CommentKind
  | none, text => opened? kinds text
  | some kind, text => if text = kind.closing then none else some kind

/-- The comment that a text opens. -/
def opens (kinds : List CommentKind) : Option CommentKind → String → Option CommentKind
  | none, text => opened? kinds text
  | some _, _ => none

section Survivors

variable {α : Type}

/-- The elements of a sequence whose texts belong to no comment. -/
def survivors (kinds : List CommentKind) (text : α → String) :
    Option CommentKind → List α → List α
  | _, [] => []
  | opened, x :: rest =>
      let later := survivors kinds text (follow kinds opened (text x)) rest
      if covers kinds opened (text x) then later else x :: later

/-- The kinds of the comments that are opened in a sequence, in their order. -/
def openings (kinds : List CommentKind) (text : α → String) :
    Option CommentKind → List α → List CommentKind
  | _, [] => []
  | opened, x :: rest =>
      (opens kinds opened (text x)).toList ++
        openings kinds text (follow kinds opened (text x)) rest

/-- The comment that is open after a sequence. -/
def followAll (kinds : List CommentKind) (text : α → String) (opened : Option CommentKind)
    (xs : List α) : Option CommentKind :=
  xs.foldl (fun opened x => follow kinds opened (text x)) opened

/-- What no comment covers has been there before. -/
theorem mem_of_mem_survivors {kinds : List CommentKind} {text : α → String}
    {opened : Option CommentKind} {xs : List α} {x : α}
    (hmem : x ∈ survivors kinds text opened xs) : x ∈ xs := by
  induction xs generalizing opened with
  | nil => exact hmem
  | cons first rest ih =>
      rw [survivors] at hmem
      split at hmem
      · exact List.mem_cons_of_mem first (ih hmem)
      · rcases List.mem_cons.mp hmem with rfl | hlater
        · exact List.mem_cons_self
        · exact List.mem_cons_of_mem first (ih hlater)

variable (kinds : List CommentKind) (text : α → String) (opened : Option CommentKind)
  (xs ys : List α)

theorem survivors_append : survivors kinds text opened (xs ++ ys) =
    survivors kinds text opened xs ++
      survivors kinds text (followAll kinds text opened xs) ys := by
  induction xs generalizing opened with
  | nil => rfl
  | cons x rest ih =>
      simp only [List.cons_append, survivors, followAll, List.foldl_cons]
      rw [ih (follow kinds opened (text x))]
      split <;> rfl

theorem openings_append : openings kinds text opened (xs ++ ys) =
    openings kinds text opened xs ++
      openings kinds text (followAll kinds text opened xs) ys := by
  induction xs generalizing opened with
  | nil => rfl
  | cons x rest ih =>
      simp only [List.cons_append, openings, followAll, List.foldl_cons]
      rw [ih (follow kinds opened (text x)), List.append_assoc]
      rfl

theorem followAll_map :
    followAll kinds id opened (xs.map text) = followAll kinds text opened xs := by
  rw [followAll, followAll, List.foldl_map]
  rfl

/-- What stays depends on the texts only. -/
theorem map_survivors : (survivors kinds text opened xs).map text =
    survivors kinds id opened (xs.map text) := by
  induction xs generalizing opened with
  | nil => rfl
  | cons x rest ih =>
      simp only [survivors, List.map_cons, id, ← ih]
      split <;> rfl

theorem openings_map :
    openings kinds id opened (xs.map text) = openings kinds text opened xs := by
  induction xs generalizing opened with
  | nil => rfl
  | cons x rest ih => simp only [openings, List.map_cons, id, ih]

end Survivors

end CommentKind

open CommentKind

namespace CommentSweep

variable (kinds : List CommentKind)

/-- The sweep of a list covers a token or leaves it, like `covers` says. -/
theorem of_cons_handles (opened : Option CommentKind) (entry : Handle × Token)
    (rest : List (Handle × Token)) :
    (CommentSweep.of kinds opened (entry :: rest)).handles =
      (if covers kinds opened (entryText entry) then [entry.1] else []) ++
        (CommentSweep.of kinds (follow kinds opened (entryText entry)) rest).handles := by
  cases opened with
  | none =>
      cases hopened : opened? kinds entry.2.text <;>
        simp [CommentSweep.of, covers, follow, entryText, hopened]
  | some kind =>
      by_cases hclosing : entry.2.text = kind.closing <;>
        cases howns : kind.ownsClosing <;>
          simp [CommentSweep.of, covers, follow, entryText, hclosing, howns]

/-- Every handle of the sweep is one of the list. -/
theorem mem_of_mem_handles {opened : Option CommentKind} {entries : List (Handle × Token)}
    {handle : Handle} (hmem : handle ∈ (CommentSweep.of kinds opened entries).handles) :
    handle ∈ entries.map Prod.fst := by
  induction entries generalizing opened with
  | nil => simp [CommentSweep.of] at hmem
  | cons entry rest ih =>
      rw [of_cons_handles, List.mem_append] at hmem
      rw [List.map_cons, List.mem_cons]
      rcases hmem with hfirst | hlater
      · split at hfirst
        · exact Or.inl (List.mem_singleton.mp hfirst)
        · cases hfirst
      · exact Or.inr (ih hlater)

/-- With distinct handles the tokens outside the sweep are the survivors. -/
theorem filter_not_mem_handles (opened : Option CommentKind) {entries : List (Handle × Token)}
    (hnodup : (entries.map Prod.fst).Nodup) :
    entries.filter (fun entry => entry.1 ∉ (CommentSweep.of kinds opened entries).handles) =
      survivors kinds entryText opened entries := by
  induction entries generalizing opened with
  | nil => rfl
  | cons entry rest ih =>
      rw [List.map_cons, List.nodup_cons] at hnodup
      have hlater := ih (follow kinds opened (entryText entry)) hnodup.2
      have hfirst : entry.1 ∉
          (CommentSweep.of kinds (follow kinds opened (entryText entry)) rest).handles :=
        fun hmem => hnodup.1 (mem_of_mem_handles kinds hmem)
      have hrest : ∀ other ∈ rest, other.1 ≠ entry.1 := by
        intro other hother hsame
        exact hnodup.1 (hsame ▸ List.mem_map_of_mem hother)
      rw [of_cons_handles, survivors, ← hlater]
      by_cases hcovers : covers kinds opened (entryText entry) = true
      · rw [if_pos hcovers, if_pos hcovers, List.filter_cons_of_neg (by simp)]
        apply List.filter_congr
        intro other hother
        simp [hrest other hother]
      · rw [if_neg hcovers, if_neg hcovers, List.nil_append,
          List.filter_cons_of_pos (by simpa using hfirst)]

end CommentSweep

namespace TokenList

variable {list : TokenList} {entries : List (Handle × Token)}

/-- Erasing by any handle leaves the tokens of other handles. -/
theorem Holds.erase_without (hholds : list.Holds entries) (handle : Handle) :
    (list.erase handle).2.Holds (without entries handle) := by
  by_cases hmem : handle ∈ entries.map Prod.fst
  · exact hholds.erase hmem
  · rw [erase_of_not_mem hholds hmem, without_eq_self hmem]
    exact hholds

theorem Holds.eraseAll (hholds : list.Holds entries) (handles : List Handle) :
    (list.eraseAll handles).Holds (entries.filter fun entry => entry.1 ∉ handles) := by
  induction handles generalizing list entries with
  | nil => simpa [TokenList.eraseAll] using hholds
  | cons handle others ih =>
      have hlater := ih (hholds.erase_without handle)
      have hfilter : (without entries handle).filter (fun entry => entry.1 ∉ others) =
          entries.filter fun entry => entry.1 ∉ handle :: others := by
        rw [without, List.filter_filter]
        apply List.filter_congr
        intro entry _
        by_cases hsame : entry.1 = handle <;> simp [hsame]
      rw [hfilter] at hlater
      exact hlater

/-- Removal leaves the tokens whose texts survive. -/
theorem Holds.removeComments (hholds : list.Holds entries) (kinds : List CommentKind) :
    (list.removeComments kinds).2.Holds (survivors kinds entryText none entries) := by
  rw [TokenList.removeComments, entries_eq hholds,
    ← CommentSweep.filter_not_mem_handles kinds none hholds.nodup]
  exact hholds.eraseAll _

end TokenList

namespace CommentSweep

/-- The number of comments of each kind is the number of times one is opened. -/
theorem of_counts (kinds : List CommentKind) (opened : Option CommentKind)
    (entries : List (Handle × Token)) :
    (CommentSweep.of kinds opened entries).counts =
      ⟨(openings kinds entryText opened entries).count .inline,
        (openings kinds entryText opened entries).count .block⟩ := by
  induction entries generalizing opened with
  | nil => cases opened <;> rfl
  | cons entry rest ih =>
      cases opened with
      | none =>
          cases hopened : opened? kinds entry.2.text with
          | none => simp [CommentSweep.of, openings, opens, follow, entryText, hopened, ih]
          | some kind =>
              cases kind <;> simp [CommentSweep.of, openings, opens, follow, entryText, hopened,
                ih, CommentCounts.count]
      | some kind =>
          by_cases hclosing : entry.2.text = kind.closing <;>
            cases howns : kind.ownsClosing <;>
              simp [CommentSweep.of, openings, opens, follow, entryText, hclosing, howns, ih]

end CommentSweep

namespace TokenList

variable {list : TokenList} {entries : List (Handle × Token)}

/-- The texts that removal leaves depend on the texts only. -/
theorem Holds.removeComments_texts (hholds : list.Holds entries) (kinds : List CommentKind) :
    (list.removeComments kinds).2.texts = survivors kinds id none list.texts := by
  rw [texts_eq (hholds.removeComments kinds), map_survivors, texts_eq hholds]

/-- So do the counts. -/
theorem Holds.removeComments_counts (hholds : list.Holds entries) (kinds : List CommentKind) :
    (list.removeComments kinds).1 =
      ⟨(openings kinds id none list.texts).count .inline,
        (openings kinds id none list.texts).count .block⟩ := by
  rw [TokenList.removeComments, entries_eq hholds, CommentSweep.of_counts, texts_eq hholds,
    openings_map]

/-- The lists that come about from a list without tokens. -/
inductive Reached : TokenList → Prop
  | empty (tag : Nat) : Reached (empty tag)
  | perform {list : TokenList} (hlist : Reached list) (operation : Operation) :
      Reached (list.perform operation).2
  | removeComments {list : TokenList} (hlist : Reached list) (kinds : List CommentKind) :
      Reached (list.removeComments kinds).2

/-- Erasing by any handle leaves the tokens of other handles on both sides of the cut. -/
theorem Represents.erase_remove {list : TokenList} {tape : Tape} (hlist : list.Represents tape)
    (handle : Handle) : (list.erase handle).2.Represents (tape.remove handle) := by
  by_cases hmem : handle ∈ tape.handles
  · exact hlist.erase hmem
  · rw [erase_of_not_mem hlist.holds hmem, tape.remove_eq_self handle hmem]
    exact hlist

/-- Erasing several tokens takes them out on both sides of the cut. -/
theorem Represents.eraseAll {list : TokenList} {tape : Tape} (hlist : list.Represents tape)
    (handles : List Handle) :
    (list.eraseAll handles).Represents (tape.keep fun handle => handle ∉ handles) := by
  induction handles generalizing list tape with
  | nil =>
      have hsame : tape.keep (fun handle => handle ∉ []) = tape := by simp [Tape.keep]
      rw [hsame]
      exact hlist
  | cons handle others ih =>
      have hlater := ih (hlist.erase_remove handle)
      have hkept : (fun other => decide (other ≠ handle) && decide (other ∉ others)) =
          fun other => decide (other ∉ handle :: others) := by
        funext other
        simp
      rw [Tape.keep_remove, hkept] at hlater
      exact hlater

theorem Reached.represents {list : TokenList} (hlist : list.Reached) :
    ∃ tape, list.Represents tape := by
  induction hlist with
  | empty tag => exact ⟨{}, represents_empty tag⟩
  | perform _ operation ih =>
      obtain ⟨tape, htape⟩ := ih
      obtain ⟨next, -, hnext⟩ := htape.perform operation
      exact ⟨next, hnext⟩
  | removeComments _ kinds ih =>
      obtain ⟨tape, htape⟩ := ih
      exact ⟨_, htape.eraseAll _⟩

end TokenList

end LineLexer
