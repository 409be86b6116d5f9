import Mathlib.Data.List.Forall2
import LineLexer.TokenList.Listing
/-!
The rows of a listing.

A row is ended by a line feed, and a line terminator is shown without one.  So the line feeds of a
listing are the ends of its rows, if no other token has a line feed in it, and cutting the listing
there gives one row for each token and the closing row.

What a line terminator is shown as is shown as it is where it is a token itself.  Nothing else is
shown alike, and what is shown of every token can be read off the listing.
-/

namespace LineLexer

/-- The text is a line terminator or stands within a line. -/
def TerminatorOrInLine (text : String) : Prop :=
  text = lineTerminator ∨ '\n' ∉ text.toList

theorem shownText_eq (text : String) :
    shownText text = if text = lineTerminator then "\\n" else text := by
  simp [shownText]

theorem shownText_eq_escape_iff (text : String) :
    shownText text = "\\n" ↔ text = lineTerminator ∨ text = "\\n" := by
  rw [shownText_eq]
  split <;> simp [*]

/-- The listing shows the texts alike: they are the same, or one is the line terminator and the
other is what the terminator is shown as. -/
def ShownAlike (first second : String) : Prop :=
  first = second ∨ (first = lineTerminator ∧ second = "\\n") ∨
    (first = "\\n" ∧ second = lineTerminator)

theorem shownText_eq_shownText_iff (first second : String) :
    shownText first = shownText second ↔ ShownAlike first second := by
  have hne : lineTerminator ≠ "\\n" := by decide
  by_cases hfirst : first = lineTerminator <;> by_cases hsecond : second = lineTerminator <;>
    simp_all [shownText_eq, ShownAlike, eq_comm]

theorem ShownAlike.eq {first second : String} (halike : ShownAlike first second)
    (hfirst : first ≠ "\\n") (hsecond : second ≠ "\\n") : first = second := by
  rcases halike with heq | ⟨_, hescape⟩ | ⟨hescape, _⟩
  · exact heq
  · exact absurd hescape hsecond
  · exact absurd hescape hfirst

theorem forall₂_shownAlike_iff (first second : List String) :
    List.Forall₂ ShownAlike first second ↔ first.map shownText = second.map shownText := by
  rw [← List.forall₂_eq_eq_eq, List.forall₂_map_left_iff, List.forall₂_map_right_iff]
  simp only [shownText_eq_shownText_iff]

/-- Where no text is what a terminator is shown as, texts that are shown alike are the same. -/
theorem eq_of_forall₂_shownAlike {first second : List String}
    (halike : List.Forall₂ ShownAlike first second) (hfirst : "\\n" ∉ first)
    (hsecond : "\\n" ∉ second) : first = second := by
  induction halike with
  | nil => rfl
  | cons hhead _ ih =>
      rw [List.mem_cons, not_or] at hfirst hsecond
      rw [hhead.eq (Ne.symm hfirst.1) (Ne.symm hsecond.1), ih hfirst.2 hsecond.2]

/-- One row for each text, in their order and numbered from one, and a last row with their
number. -/
structure ListingOf (texts rows : List String) : Prop where
  length_eq : rows.length = texts.length + 1
  row_eq : ∀ (index : Nat) (text : String), texts[index]? = some text →
    rows[index]? = some ("Token " ++ toString (index + 1) ++ ": " ++
      if text = lineTerminator then "\\n" else text)
  last_eq : rows[texts.length]? =
    some ("Number of tokens processed: " ++ toString texts.length)

namespace ListingOf

variable {texts others rows : List String}

/-- A row with the number of its place shows the token of that place. -/
theorem row_iff (hrows : ListingOf texts rows) (index : Nat) (shown : String) :
    rows[index]? = some ("Token " ++ toString (index + 1) ++ ": " ++ shown) ↔
      texts[index]?.map shownText = some shown := by
  cases htext : texts[index]? with
  | some text =>
      rw [hrows.row_eq index text htext, ← shownText_eq]
      simp
  | none =>
      have hlength := List.getElem?_eq_none_iff.mp htext
      -- Behind the rows of the tokens only the closing row is left.
      rcases Nat.eq_or_lt_of_le hlength with rfl | hbehind
      · have hfront (number shown : String) :
            "Number of tokens processed: " ++ number ≠ "Token " ++ shown := by
          intro heq
          simpa using congrArg String.toList heq
        simp [hrows.last_eq, String.append_assoc, hfront]
      · have hnone : rows[index]? = none := by
          rw [List.getElem?_eq_none_iff, hrows.length_eq]
          exact hbehind
        simp [hnone]

/-- The rows tell what is shown of the tokens. -/
theorem map_shownText_eq (hrows : ListingOf texts rows) (hothers : ListingOf others rows) :
    texts.map shownText = others.map shownText := by
  apply List.ext_getElem?
  intro index
  ext shown
  rw [List.getElem?_map, List.getElem?_map, ← hrows.row_iff, ← hothers.row_iff]

end ListingOf

theorem feed_not_mem_toString (n : Nat) : '\n' ∉ (toString n).toList := by
  intro hmem
  have hdigits : (toString n).toList = Nat.toDigits 10 n := by simp
  rw [hdigits] at hmem
  have hdigit := Nat.isDigit_of_mem_toDigits (by decide) (by decide) hmem
  exact absurd hdigit (by decide)

/-- A token stays in its row. -/
theorem feed_not_mem_shownText {text : String} (htext : TerminatorOrInLine text) :
    '\n' ∉ (shownText text).toList := by
  unfold shownText
  split
  · decide
  · rename_i hne
    exact htext.resolve_left (by simpa using hne)

/-- A row without its end. -/
def openRow (number : Nat) (text : String) : String :=
  "Token " ++ toString number ++ ": " ++ shownText text

theorem feed_not_mem_openRow (number : Nat) {text : String} (htext : TerminatorOrInLine text) :
    '\n' ∉ (openRow number text).toList := by
  have htoken : '\n' ∉ "Token ".toList := by decide
  have hcolon : '\n' ∉ ": ".toList := by decide
  simp only [openRow, String.toList_append, List.mem_append, not_or]
  exact ⟨⟨⟨htoken, feed_not_mem_toString number⟩, hcolon⟩, feed_not_mem_shownText htext⟩

/-- A row that is ended by a line feed is cut off by it. -/
theorem splitOn_row {row : List Char} (hrow : '\n' ∉ row) (rest : List Char) :
    (row ++ '\n' :: rest).splitOn '\n' = row :: rest.splitOn '\n' := by
  have hsplit : row.splitOnP (· == '\n') = [row] := by
    apply List.splitOnP_eq_singleton
    intro c hc
    simpa using fun heq : c = '\n' => hrow (heq ▸ hc)
  have happend : (row ++ '\n' :: rest).splitOnP (· == '\n') =
      row.splitOnP (· == '\n') ++ rest.splitOnP (· == '\n') :=
    List.splitOnP_append_cons row rest (beq_self_eq_true '\n')
  rw [List.splitOn, happend, hsplit]
  rfl

/-- The rows of tokens that are numbered from `number` on, without their ends. -/
def openRows (number : Nat) (texts : List String) : List String :=
  texts.mapIdx fun index text => openRow (number + index) text

theorem openRows_cons (number : Nat) (text : String) (texts : List String) :
    openRows number (text :: texts) = openRow number text :: openRows (number + 1) texts := by
  have hlater : (fun index text => openRow (number + (index + 1)) text) =
      fun index text => openRow (number + 1 + index) text := by
    funext index text
    rw [Nat.add_right_comm, Nat.add_assoc]
  rw [openRows, List.mapIdx_cons, hlater]
  rfl

/-- The rows are cut off one after the other. -/
theorem splitOn_listingRows {texts : List String} (htexts : ∀ text ∈ texts, TerminatorOrInLine text)
    (number : Nat) (rest : List Char) :
    ((String.join (listingRows number texts)).toList ++ rest).splitOn '\n' =
      (openRows number texts).map String.toList ++ rest.splitOn '\n' := by
  induction texts generalizing number with
  | nil => rfl
  | cons text texts ih =>
      obtain ⟨htext, hothers⟩ := List.forall_mem_cons.mp htexts
      have hrow : (String.join (listingRows number (text :: texts))).toList ++ rest =
          (openRow number text).toList ++
            '\n' :: ((String.join (listingRows (number + 1) texts)).toList ++ rest) := by
        simp [listingRows, listingRow, openRow]
      rw [hrow, splitOn_row (feed_not_mem_openRow number htext), ih hothers, openRows_cons]
      rfl

/-- Behind the rows nothing follows. -/
theorem getElem?_cut_iff (rows : List String) (index : Nat) {row : String} (hrow : row ≠ "") :
    (rows.map String.toList ++ [[]])[index]? = some row.toList ↔ rows[index]? = some row := by
  rw [List.getElem?_append, List.length_map]
  split
  · rw [List.getElem?_map, Option.map_eq_some_iff]
    simp only [String.toList_inj, exists_eq_right]
  · rename_i hbehind
    have hnone : rows[index]? = none := List.getElem?_eq_none_iff.mpr (Nat.le_of_not_lt hbehind)
    rw [hnone, List.getElem?_singleton]
    split <;> simp [hrow]

theorem listingRows_eq_of_shownAlike {texts others : List String}
    (halike : List.Forall₂ ShownAlike texts others) (number : Nat) :
    listingRows number texts = listingRows number others := by
  induction halike generalizing number with
  | nil => rfl
  | cons hfirst _ ih =>
      rw [listingRows, listingRows, ih, listingRow, (shownText_eq_shownText_iff _ _).mpr hfirst]
      rfl

namespace TokenList

/-- The line feeds of a listing end its rows, and nothing follows the last one. -/
theorem splitOn_listing {list : TokenList} (htexts : ∀ text ∈ list.texts, TerminatorOrInLine text) :
    ∃ rows, ListingOf list.texts rows ∧
      list.listing.toList.splitOn '\n' = rows.map String.toList ++ [[]] := by
  let last := "Number of tokens processed: " ++ toString list.texts.length
  have hlast : '\n' ∉ last.toList := by
    have hfront : '\n' ∉ "Number of tokens processed: ".toList := by decide
    simp only [last, String.toList_append, List.mem_append, not_or]
    exact ⟨hfront, feed_not_mem_toString _⟩
  have hlisting : list.listing.toList =
      (String.join (listingRows 1 list.texts)).toList ++ (last.toList ++ '\n' :: []) := by
    simp [listing, last]
  refine ⟨openRows 1 list.texts ++ [last], ⟨?_, ?_, ?_⟩, ?_⟩
  · simp [openRows]
  · intro index text htext
    have hindex : index < list.texts.length := (List.getElem?_eq_some_iff.mp htext).1
    rw [List.getElem?_append_left (by simpa [openRows] using hindex), openRows,
      List.getElem?_mapIdx, htext]
    simp [openRow, shownText, Nat.add_comm]
  · simp [openRows, last]
  · rw [hlisting, splitOn_listingRows htexts, splitOn_row hlast, List.map_append,
      List.append_assoc]
    rfl

section Reading

variable {list other : TokenList} (htexts : ∀ text ∈ list.texts, TerminatorOrInLine text)

include htexts

/-- The row of a token shows a backslash and an `n` for the line terminator, and for a token of
these two characters. -/
theorem getElem?_splitOn_listing_iff (index : Nat) :
    (list.listing.toList.splitOn '\n')[index]? =
        some ("Token " ++ toString (index + 1) ++ ": \\n").toList ↔
      list.texts[index]? = some lineTerminator ∨ list.texts[index]? = some "\\n" := by
  obtain ⟨rows, hrows, hlisting⟩ := splitOn_listing htexts
  have hescape : ": \\n" = ": " ++ "\\n" := by decide
  rw [hlisting, getElem?_cut_iff rows index (by simp), hescape, ← String.append_assoc,
    hrows.row_iff, Option.map_eq_some_iff]
  simp only [shownText_eq_escape_iff, and_or_left, exists_or, exists_eq_right]

/-- Two listings are the same if the tokens are shown alike one by one. -/
theorem listing_eq_iff (hothers : ∀ text ∈ other.texts, TerminatorOrInLine text) :
    list.listing = other.listing ↔ List.Forall₂ ShownAlike list.texts other.texts := by
  constructor
  · intro heq
    obtain ⟨rows, hrows, hlisting⟩ := splitOn_listing htexts
    obtain ⟨otherRows, hotherRows, hotherListing⟩ := splitOn_listing hothers
    rw [← heq, hlisting] at hotherListing
    have hsame : rows = otherRows :=
      List.map_injective_iff.mpr (fun _ _ => String.toList_injective)
        (List.append_cancel_right hotherListing)
    rw [forall₂_shownAlike_iff]
    exact hrows.map_shownText_eq (hsame ▸ hotherRows)
  · intro halike
    rw [listing, listing, listingRows_eq_of_shownAlike halike, halike.length_eq]

end Reading

end TokenList

end LineLexer
