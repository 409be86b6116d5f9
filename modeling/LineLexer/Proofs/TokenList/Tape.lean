import LineLexer.Proofs.TokenList.Sequence
/-!
A token list as a tape: a sequence of tokens cut in two at the cursor.

The tokens before the cut have been delivered, the ones after it have not.  The cursor is the
handle of the first token that has not been delivered.  This file follows the tape through
every operation that changes a list.
-/

namespace LineLexer

/-- A sequence of tokens cut in two. -/
structure Tape where
  read : List (Handle × Token) := []
  unread : List (Handle × Token) := []

namespace Tape

/-- The tokens on both sides of the cut. -/
def entries (tape : Tape) : List (Handle × Token) :=
  tape.read ++ tape.unread

def handles (tape : Tape) : List Handle :=
  tape.entries.map Prod.fst

/-- Adds tokens at the end of the unread part. -/
def add (tape : Tape) (more : List (Handle × Token)) : Tape :=
  { tape with unread := tape.unread ++ more }

/-- Leaves out the token that a handle names, on whichever side it stands. -/
def remove (tape : Tape) (handle : Handle) : Tape :=
  ⟨without tape.read handle, without tape.unread handle⟩

/-- Leaves out the tokens whose handles are not kept, on both sides. -/
def keep (tape : Tape) (kept : Handle → Bool) : Tape :=
  ⟨tape.read.filter (kept ·.1), tape.unread.filter (kept ·.1)⟩

/-- Gives another text to the token that a handle names, on whichever side it stands. -/
def write (tape : Tape) (handle : Handle) (text : String) : Tape :=
  ⟨retext tape.read handle text, retext tape.unread handle text⟩

/-- Moves the cut to the front. -/
def rewind (tape : Tape) : Tape :=
  ⟨[], tape.entries⟩

variable (tape : Tape) (handle : Handle)

theorem entries_add (more : List (Handle × Token)) :
    (tape.add more).entries = tape.entries ++ more := by
  simp [add, entries]

theorem entries_remove : (tape.remove handle).entries = without tape.entries handle := by
  simp [remove, entries, without]

theorem remove_eq_self (hmem : handle ∉ tape.handles) : tape.remove handle = tape := by
  rw [handles, entries, List.map_append, List.mem_append, not_or] at hmem
  rw [remove, without_eq_self hmem.1, without_eq_self hmem.2]

theorem entries_keep (kept : Handle → Bool) :
    (tape.keep kept).entries = tape.entries.filter (kept ·.1) := by
  simp [keep, entries]

theorem keep_remove (kept : Handle → Bool) :
    (tape.remove handle).keep kept = tape.keep fun other => other ≠ handle && kept other := by
  simp [keep, remove, without, List.filter_filter, Bool.and_comm]

theorem entries_write (text : String) :
    (tape.write handle text).entries = retext tape.entries handle text := by
  simp [write, entries, retext]

theorem add_add (first second : List (Handle × Token)) :
    (tape.add first).add second = tape.add (first ++ second) := by
  simp [add]

end Tape

namespace TokenList

/-- The list holds the tokens of the tape, with the cursor at the cut. -/
structure Represents (list : TokenList) (tape : Tape) : Prop where
  holds : list.Holds tape.entries
  cursor_eq : list.cursor = tape.unread.head?.map Prod.fst

theorem represents_empty (tag : Nat) : (empty tag).Represents {} :=
  ⟨holds_empty tag, rfl⟩

/-- Erasing the token at the cursor moves the cursor to the token after it. -/
theorem cursor_erase {list : TokenList} {entries front back : List (Handle × Token)}
    {handle : Handle} {token : Token} (hholds : list.Holds entries)
    (hsplit : entries = front ++ (handle, token) :: back) :
    (list.erase handle).2.cursor =
      if list.cursor = some handle then back.head?.map Prod.fst else list.cursor := by
  obtain ⟨rest, hrelease, herase⟩ :=
    erase_of_node (hholds.node_of_split front handle token back hsplit)
  rw [herase, unlink_eq, release_eq hrelease]

/-- The answer to erasing a token is the token. -/
theorem erase_of_mem {list : TokenList} {entries : List (Handle × Token)} {handle : Handle}
    {token : Token} (hholds : list.Holds entries) (hmem : (handle, token) ∈ entries) :
    (list.erase handle).1 = .ok token := by
  obtain ⟨front, back, hsplit⟩ := List.append_of_mem hmem
  obtain ⟨rest, _, herase⟩ :=
    erase_of_node (hholds.node_of_split front handle token back hsplit)
  rw [herase]

namespace Represents

variable {list : TokenList} {tape : Tape} (hlist : list.Represents tape)

include hlist

theorem push (token : Token) :
    (list.push token).2.Represents (tape.add [((list.push token).1, token)]) := by
  constructor
  · rw [Tape.entries_add]
    exact hlist.holds.push token
  · have hcursor : (list.push token).2.cursor = list.cursor.or (some (list.push token).1) := by
      rw [push_eq]
    rw [hcursor, hlist.cursor_eq]
    cases hunread : tape.unread with
    | nil => simp [Tape.add, hunread]
    | cons entry unread => simp [Tape.add, hunread]

/-- The tokens added together have the given texts. -/
theorem extend (texts : List String) :
    ∃ entries : List (Handle × Token), entries.map entryText = texts ∧
      (list.extend texts).Represents (tape.add entries) := by
  induction texts generalizing list tape with
  | nil =>
      refine ⟨[], rfl, ?_⟩
      simpa [TokenList.extend, Tape.add] using hlist
  | cons text texts ih =>
      obtain ⟨entries, htexts, hlater⟩ := ih (hlist.push ⟨text⟩)
      have hall : (((list.push ⟨text⟩).1, ⟨text⟩) :: entries).map entryText = text :: texts := by
        rw [List.map_cons, htexts, entryText]
      refine ⟨((list.push ⟨text⟩).1, ⟨text⟩) :: entries, hall, ?_⟩
      rw [Tape.add_add] at hlater
      exact hlater

theorem erase {handle : Handle} (hmem : handle ∈ tape.handles) :
    (list.erase handle).2.Represents (tape.remove handle) := by
  constructor
  · rw [Tape.entries_remove]
    exact hlist.holds.erase hmem
  · obtain ⟨front, token, back, hsplit⟩ := exists_split_of_mem hmem
    rw [cursor_erase hlist.holds hsplit, hlist.cursor_eq]
    cases hunread : tape.unread with
    | nil => simp [Tape.remove, hunread, without]
    | cons entry unread =>
        by_cases hfirst : entry.1 = handle
        · -- The token at the cursor is the one that is erased.
          have hplace : tape.entries = tape.read ++ (handle, entry.2) :: unread := by
            rw [Tape.entries, hunread, ← hfirst]
          have hnode := hlist.holds.node_of_split front handle token back hsplit
          rw [hlist.holds.node_of_split _ handle _ _ hplace, Option.some.injEq,
            Node.mk.injEq] at hnode
          have hlater := (not_mem_of_split hlist.holds.nodup hplace).2
          have hrest : without (entry :: unread) handle = unread := by
            rw [without, List.filter_cons_of_neg (by simp [hfirst])]
            exact without_eq_self hlater
          simp [Tape.remove, hunread, hrest, hfirst, hnode.2.1]
        · simp [Tape.remove, hunread, without, hfirst]

theorem clear : list.clear.Represents {} :=
  ⟨hlist.holds.clear, rfl⟩

theorem setText (handle : Handle) (text : String) :
    (list.setText handle text).Represents (tape.write handle text) := by
  constructor
  · rw [Tape.entries_write]
    exact hlist.holds.setText handle text
  · have hcursor : (list.setText handle text).cursor = list.cursor :=
      (modifyNode_frame list handle _).2.2.2.2.1
    have hhead := map_fst_retext tape.unread handle text
    rw [hcursor, hlist.cursor_eq, ← List.head?_map, ← List.head?_map, ← hhead]
    rfl

/-- The first unread token is delivered and becomes the last read one. -/
theorem advance_of_unread {entry : Handle × Token} {unread : List (Handle × Token)}
    (hunread : tape.unread = entry :: unread) :
    list.advance.1 = some entry.1 ∧
      list.advance.2.Represents ⟨tape.read ++ [entry], unread⟩ := by
  have hplace : tape.entries = tape.read ++ entry :: unread := by
    rw [Tape.entries, hunread]
  have hcursor : list.cursor = some entry.1 := by
    rw [hlist.cursor_eq, hunread]
    rfl
  have hnode := hlist.holds.node_of_split tape.read entry.1 entry.2 unread hplace
  have hnext : list.next? entry.1 = unread.head?.map Prod.fst := by
    rw [next?, hnode]
    rfl
  rw [advance, hcursor]
  refine ⟨rfl, ?_, hnext⟩
  have hentries : Tape.entries ⟨tape.read ++ [entry], unread⟩ = tape.entries := by
    simp [Tape.entries, hunread]
  rw [hentries]
  exact hlist.holds.of_cursor _

/-- Nothing is delivered once everything has been read. -/
theorem advance_of_read (hunread : tape.unread = []) : list.advance = (none, list) := by
  have hcursor : list.cursor = none := by
    rw [hlist.cursor_eq, hunread]
    rfl
  rw [advance, hcursor]

theorem rewind : list.rewind.Represents tape.rewind := by
  constructor
  · exact hlist.holds.of_cursor _
  · exact hlist.holds.head_eq

theorem isExhausted_iff : list.isExhausted = true ↔ tape.unread = [] := by
  rw [isExhausted, hlist.cursor_eq]
  cases tape.unread <;> simp

end Represents

end TokenList

end LineLexer
