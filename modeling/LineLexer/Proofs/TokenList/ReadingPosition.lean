import LineLexer.Proofs.TokenList.CommentWalk
/-!
What removal of comments does to the reading of a list.

The cursor parts a list into the tokens that have been delivered and those that are still to come.
Removal erases tokens on both sides one after the other and moves the cursor on whenever it erases
the token at the cursor.  In the end each side has lost the tokens of comments and nothing else, so
that the reading goes on with the first token at or after its old place that is still there.
-/

namespace LineLexer

namespace TokenList

/-- The tokens before the cursor. -/
def passed (list : TokenList) : List (Handle × Token) :=
  list.entries.takeWhile fun entry => list.cursor ≠ some entry.1

/-- The token at the cursor and the tokens after it; none if all have been delivered. -/
def remaining (list : TokenList) : List (Handle × Token) :=
  list.entries.dropWhile fun entry => list.cursor ≠ some entry.1

/-- The answers to the given number of requests for the next token. -/
def deliveries : Nat → TokenList → List (Option Handle)
  | 0, _ => []
  | count + 1, list => list.advance.1 :: deliveries count list.advance.2

/-- The comments of the given kinds have been taken out of a list, and the reading goes on in the
rest where it stood in the list. -/
structure KeepsPlace (list : TokenList) (kinds : List CommentKind) (rest : TokenList) : Prop where
  /-- The tokens that survive are those outside of comments. -/
  survivors_eq : rest.entries = (withoutComments kinds list.entries).2
  passed_eq : rest.passed = list.passed.filter (rest.contains ·.1)
  remaining_eq : rest.remaining = list.remaining.filter (rest.contains ·.1)
  /-- The cursor stands at the first survivor at or after its old place. -/
  cursor_eq : rest.cursor = (list.remaining.find? (rest.contains ·.1)).map Prod.fst
  /-- The survivors among the tokens to come are delivered in their order, and nothing after
  them. -/
  deliveries_eq : ∀ count, rest.deliveries count =
    ((list.remaining.filter (rest.contains ·.1)).map fun entry => some entry.1).takeD count none
  /-- What has been delivered is not delivered again. -/
  not_again : ∀ entry ∈ list.passed, ∀ count, some entry.1 ∉ rest.deliveries count
  /-- Where nothing has been delivered yet, the reading starts at the front again. -/
  at_front : list.passed = [] → rest.cursor = rest.head

namespace Represents

variable {list : TokenList} {tape : Tape} (hlist : list.Represents tape)

include hlist

/-- No token stands on both sides of the cut. -/
theorem not_mem_unread : ∀ entry ∈ tape.read, entry.1 ∉ tape.unread.map Prod.fst := by
  intro entry hread hunread
  have hnodup := hlist.holds.nodup
  rw [Tape.entries, List.map_append, List.nodup_append] at hnodup
  exact hnodup.2.2 entry.1 (List.mem_map_of_mem hread) entry.1 hunread rfl

/-- No token before the cut is the one at the cursor. -/
theorem cursor_ne_of_mem_read : ∀ entry ∈ tape.read, list.cursor ≠ some entry.1 := by
  intro entry hread hcursor
  apply hlist.not_mem_unread entry hread
  rw [hlist.cursor_eq, ← List.head?_map] at hcursor
  exact List.mem_of_head? hcursor

theorem cursor_of_head? {entry : Handle × Token} {unread : List (Handle × Token)}
    (hunread : tape.unread = entry :: unread) : list.cursor = some entry.1 := by
  rw [hlist.cursor_eq, hunread]
  rfl

/-- The tokens before the cursor are those before the cut. -/
theorem passed_eq : list.passed = tape.read := by
  have hread : ∀ entry ∈ tape.read, decide (list.cursor ≠ some entry.1) = true :=
    fun entry hmem => decide_eq_true (hlist.cursor_ne_of_mem_read entry hmem)
  rw [passed, entries_eq hlist.holds, Tape.entries, List.takeWhile_append_of_pos hread]
  cases hunread : tape.unread with
  | nil => simp
  | cons entry unread => simp [hlist.cursor_of_head? hunread]

theorem remaining_eq : list.remaining = tape.unread := by
  have hread : ∀ entry ∈ tape.read, decide (list.cursor ≠ some entry.1) = true :=
    fun entry hmem => decide_eq_true (hlist.cursor_ne_of_mem_read entry hmem)
  rw [remaining, entries_eq hlist.holds, Tape.entries, List.dropWhile_append_of_pos hread]
  cases hunread : tape.unread with
  | nil => rfl
  | cons entry unread => simp [hlist.cursor_of_head? hunread]

/-- The tokens after the cut are delivered one by one, and then none. -/
theorem deliveries_eq (count : Nat) : list.deliveries count =
    (tape.unread.map fun entry => some entry.1).takeD count none := by
  induction count generalizing list tape with
  | zero => rfl
  | succ count ih =>
      rw [deliveries, List.takeD_succ]
      cases hunread : tape.unread with
      | nil =>
          have hlater := ih hlist
          rw [hunread] at hlater
          rw [hlist.advance_of_read hunread, hlater]
          rfl
      | cons entry unread =>
          obtain ⟨hanswer, hnext⟩ := hlist.advance_of_unread hunread
          rw [hanswer, ih hnext]
          rfl

/-- What is delivered stands after the cut. -/
theorem mem_unread_of_mem_deliveries {handle : Handle} {count : Nat}
    (hmem : some handle ∈ list.deliveries count) : handle ∈ tape.unread.map Prod.fst := by
  induction count generalizing list tape with
  | zero => cases hmem
  | succ count ih =>
      rw [deliveries, List.mem_cons] at hmem
      cases hunread : tape.unread with
      | nil =>
          rw [hlist.advance_of_read hunread] at hmem
          have hlater := ih hlist (hmem.resolve_left (Option.some_ne_none handle))
          rwa [hunread] at hlater
      | cons entry unread =>
          obtain ⟨hanswer, hnext⟩ := hlist.advance_of_unread hunread
          rw [List.map_cons, List.mem_cons]
          rcases hmem with hfirst | hlater
          · rw [hanswer] at hfirst
            exact Or.inl (Option.some.inj hfirst)
          · exact Or.inr (ih hnext hlater)

/-- Removal leaves on both sides of the cut the tokens that are still there. -/
theorem removeComments_keep (kinds : List CommentKind) :
    (list.removeComments kinds).2.Represents
      (tape.keep (list.removeComments kinds).2.contains) := by
  obtain ⟨handles, hrest⟩ : ∃ handles, (list.removeComments kinds).2 = list.eraseAll handles :=
    ⟨_, rfl⟩
  have hleft := hlist.eraseAll handles
  have hkept : ∀ entry ∈ tape.entries,
      decide (entry.1 ∉ handles) = (list.eraseAll handles).contains entry.1 := by
    intro entry hmem
    rw [Bool.eq_iff_iff, decide_eq_true_iff, hleft.holds.contains_iff_mem, Tape.entries_keep,
      List.mem_map]
    constructor
    · intro hout
      exact ⟨entry, List.mem_filter.mpr ⟨hmem, decide_eq_true hout⟩, rfl⟩
    · rintro ⟨other, hother, hsame⟩
      rw [← hsame]
      exact of_decide_eq_true (List.mem_filter.mp hother).2
  have hread := List.filter_congr fun entry hmem => hkept entry (List.mem_append_left _ hmem)
  have hunread := List.filter_congr fun entry hmem => hkept entry (List.mem_append_right _ hmem)
  rw [hrest, Tape.keep, ← hread, ← hunread]
  exact hleft

/-- Removal keeps the place of the reading. -/
theorem removeComments_keepsPlace (kinds : List CommentKind) :
    list.KeepsPlace kinds (list.removeComments kinds).2 := by
  have hrest := hlist.removeComments_keep kinds
  have hreading := (hlist.holds.removeComments_uncommented kinds).reading_eq
  generalize (list.removeComments kinds).2 = rest at hrest hreading ⊢
  rw [Tape.keep, ← hlist.passed_eq, ← hlist.remaining_eq] at hrest
  constructor
  case survivors_eq => rw [hreading]
  case passed_eq => exact hrest.passed_eq
  case remaining_eq => exact hrest.remaining_eq
  case cursor_eq => rw [hrest.cursor_eq, List.head?_filter]
  case deliveries_eq => exact hrest.deliveries_eq
  case not_again =>
    intro entry hpassed count hdelivered
    rw [hlist.passed_eq] at hpassed
    apply hlist.not_mem_unread entry hpassed
    rw [← hlist.remaining_eq]
    have hsublist : (list.remaining.filter (rest.contains ·.1)).Sublist list.remaining :=
      List.filter_sublist
    exact (hsublist.map Prod.fst).subset (hrest.mem_unread_of_mem_deliveries hdelivered)
  case at_front =>
    intro hnone
    rw [hrest.cursor_eq, hrest.holds.head_eq, Tape.entries, hnone]
    rfl

end Represents

/-- Whatever has been done to a list, and wherever its cursor stands, the three removals leave the
reading where it was: it goes on with the first token at or after its place that is still there,
and through all others of these tokens in their order. -/
theorem Reached.keepsPlace {list : TokenList} (hlist : list.Reached) :
    list.KeepsPlace [.inline, .block] list.stripComments.2 ∧
      list.KeepsPlace [.inline] list.removeInlineComments.2 ∧
      list.KeepsPlace [.block] list.removeBlockComments.2 := by
  obtain ⟨tape, htape⟩ := hlist.represents
  exact ⟨htape.removeComments_keepsPlace _, htape.removeComments_keepsPlace _,
    htape.removeComments_keepsPlace _⟩

/-- The cursor stands inside a comment that begins before it, and another comment follows. -/
theorem keepsPlace_inside_comment :
    let texts := ["a", "/*", "b", "c", "*/", "//", "d", "\n", "e"]
    let grown := ((TokenList.empty 0).perform (.extend texts)).2
    let list := (((grown.perform .advance).2.perform .advance).2.perform .advance).2
    list.Reached ∧ list.KeepsPlace [.inline, .block] list.stripComments.2 ∧
      list.cursor = some ⟨0, 3, 0⟩ ∧
      list.stripComments.2.deliveries 3 = [some ⟨0, 7, 0⟩, some ⟨0, 8, 0⟩, none] := by
  intro texts grown list
  have hreached : list.Reached :=
    ((((Reached.empty 0).perform _).perform _).perform _).perform _
  obtain ⟨hboth, _⟩ := hreached.keepsPlace
  refine ⟨hreached, hboth, by decide +kernel, ?_⟩
  rw [hboth.deliveries_eq]
  decide +kernel

end TokenList

end LineLexer
