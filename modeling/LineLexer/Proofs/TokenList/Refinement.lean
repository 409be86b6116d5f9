import LineLexer.Proofs.TokenList.Tape
/-!
Token lists refine tapes.

Slots, generations, links, the free slots, the two ends, the cursor and the size are an
implementation of a sequence of tokens with a cut in it.  Each operation on a list answers,
and changes the sequence, in a way that mentions the sequence alone; and whatever can be asked
about a list is a question about its sequence.
-/

namespace LineLexer

/-- What can be done to a token list.  A list that is created or collected takes the place of
the one there was. -/
inductive TokenList.Operation where
  | create (tag : Nat)
  | collect (tag : Nat) (texts : List String)
  | append (text : String)
  | appendToken (token : Token)
  | extend (texts : List String)
  | erase (handle : Handle)
  | clear
  | setText (handle : Handle) (text : String)
  | advance
  | rewind

/-- What an operation gives back. -/
inductive TokenList.Answer where
  | done
  | added (handle : Handle)
  | erased (result : Except LexError Token)
  /-- The token whose text is set, as it was before. -/
  | found (token : Option Token)
  | delivered (handle : Option Handle)

open TokenList (Operation Answer)

namespace TokenList

/-- The answer to an operation and the list after it. -/
def perform (list : TokenList) : Operation → Answer × TokenList
  | .create tag => (.done, empty tag)
  | .collect tag texts => (.done, ofTexts tag texts)
  | .append text => let (handle, grown) := list.append text; (.added handle, grown)
  | .appendToken token => let (handle, grown) := list.push token; (.added handle, grown)
  | .extend texts => (.done, list.extend texts)
  | .erase handle => let (result, rest) := list.erase handle; (.erased result, rest)
  | .clear => (.done, list.clear)
  | .setText handle text => (.found (list.get? handle), list.setText handle text)
  | .advance => let (handle, rest) := list.advance; (.delivered handle, rest)
  | .rewind => (.done, list.rewind)

end TokenList

/-- What an operation answers on a tape, and the tape after it. -/
inductive Tape.Step (tape : Tape) : Operation → Answer → Tape → Prop
  | create (tag : Nat) :
      Step tape (.create tag) .done {}
  | collect (tag : Nat) (entries : List (Handle × Token)) :
      Step tape (.collect tag (entries.map entryText)) .done ⟨[], entries⟩
  | append (text : String) (handle : Handle) :
      Step tape (.append text) (.added handle) (tape.add [(handle, ⟨text⟩)])
  | appendToken (token : Token) (handle : Handle) :
      Step tape (.appendToken token) (.added handle) (tape.add [(handle, token)])
  | extend (entries : List (Handle × Token)) :
      Step tape (.extend (entries.map entryText)) .done (tape.add entries)
  | erase (handle : Handle) (token : Token) (hmem : (handle, token) ∈ tape.entries) :
      Step tape (.erase handle) (.erased (.ok token)) (tape.remove handle)
  | refuse (handle : Handle) (hmem : handle ∉ tape.handles) :
      Step tape (.erase handle) (.erased (.error handle.notMember)) tape
  | clear :
      Step tape .clear .done {}
  | setText (handle : Handle) (text : String) (token : Token)
      (hmem : (handle, token) ∈ tape.entries) :
      Step tape (.setText handle text) (.found (some token)) (tape.write handle text)
  | miss (handle : Handle) (text : String) (hmem : handle ∉ tape.handles) :
      Step tape (.setText handle text) (.found none) tape
  | advance (entry : Handle × Token) (unread : List (Handle × Token))
      (hunread : tape.unread = entry :: unread) :
      Step tape .advance (.delivered (some entry.1)) ⟨tape.read ++ [entry], unread⟩
  | stay (hunread : tape.unread = []) :
      Step tape .advance (.delivered none) tape
  | rewind :
      Step tape .rewind .done tape.rewind

namespace TokenList

/-- Everything that can be asked about a list has the answer that the tape gives. -/
structure Shows (list : TokenList) (tape : Tape) : Prop where
  nodup : tape.handles.Nodup
  entries_eq : list.entries = tape.entries
  entriesBackward_eq : list.entriesBackward = tape.entries.reverse
  /-- A walk of any number of stops ends with the sequence. -/
  walk_next_eq : ∀ stops, list.walk (·.next) stops list.head = tape.entries.take stops
  walk_prev_eq : ∀ stops, list.walk (·.prev) stops list.tail = tape.entries.reverse.take stops
  head_eq : list.head = tape.handles.head?
  tail_eq : list.tail = tape.handles.getLast?
  node_of_split : ∀ front handle token back, tape.entries = front ++ (handle, token) :: back →
    list.get? handle = some token ∧
      list.next? handle = (back.map Prod.fst).head? ∧
      list.prev? handle = (front.map Prod.fst).getLast?
  size_eq : list.size = tape.entries.length
  isEmpty_iff : list.isEmpty = true ↔ tape.entries = []
  contains_iff : ∀ handle, list.contains handle = true ↔ handle ∈ tape.handles
  isExhausted_iff : list.isExhausted = true ↔ tape.unread = []

/-- The list shows the tape now and, with tapes that follow one another step by step, after
each of the operations to come. -/
def Refines (list : TokenList) (tape : Tape) : List Operation → Prop
  | [] => list.Shows tape
  | operation :: later =>
      list.Shows tape ∧ ∃ next, tape.Step operation (list.perform operation).1 next ∧
        (list.perform operation).2.Refines next later

namespace Represents

variable {list : TokenList} {tape : Tape}

theorem shows_tape (hlist : list.Represents tape) : list.Shows tape where
  nodup := hlist.holds.nodup
  entries_eq := entries_eq hlist.holds
  entriesBackward_eq := entriesBackward_eq hlist.holds
  walk_next_eq stops := by
    rw [hlist.holds.head_eq]
    exact walk_next_of_split hlist.holds (List.nil_append _).symm stops
  walk_prev_eq stops := by
    rw [hlist.holds.tail_eq]
    exact walk_prev_of_split hlist.holds (List.append_nil _).symm stops
  head_eq := by rw [hlist.holds.head_eq, Tape.handles, List.head?_map]
  tail_eq := by rw [hlist.holds.tail_eq, Tape.handles, List.getLast?_map]
  node_of_split front handle token back hsplit := by
    have hnode := hlist.holds.node_of_split front handle token back hsplit
    rw [get?, next?, prev?, hnode, List.head?_map, List.getLast?_map]
    exact ⟨rfl, rfl, rfl⟩
  size_eq := hlist.holds.size_eq
  isEmpty_iff := by
    rw [isEmpty, hlist.holds.size_eq, beq_iff_eq, List.length_eq_zero_iff]
  contains_iff _ := hlist.holds.contains_iff_mem
  isExhausted_iff := hlist.isExhausted_iff

/-- One operation on a list is one step of its tape. -/
theorem perform (hlist : list.Represents tape) (operation : Operation) :
    ∃ next, tape.Step operation (list.perform operation).1 next ∧
      (list.perform operation).2.Represents next := by
  cases operation with
  | create tag => exact ⟨{}, .create tag, represents_empty tag⟩
  | collect tag texts =>
      obtain ⟨entries, rfl, hnext⟩ := (represents_empty tag).extend texts
      exact ⟨⟨[], entries⟩, .collect tag entries, hnext⟩
  | append text => exact ⟨_, .append text _, hlist.push ⟨text⟩⟩
  | appendToken token => exact ⟨_, .appendToken token _, hlist.push token⟩
  | extend texts =>
      obtain ⟨entries, rfl, hnext⟩ := hlist.extend texts
      exact ⟨tape.add entries, .extend entries, hnext⟩
  | erase handle =>
      by_cases hmem : handle ∈ tape.handles
      · obtain ⟨⟨_, token⟩, hentry, rfl⟩ := List.mem_map.mp hmem
        refine ⟨tape.remove _, ?_, hlist.erase hmem⟩
        have hanswer := erase_of_mem hlist.holds hentry
        simpa only [TokenList.perform, hanswer] using Tape.Step.erase _ token hentry
      · have hrefused := erase_of_not_mem hlist.holds hmem
        refine ⟨tape, ?_, ?_⟩
        · simpa only [TokenList.perform, hrefused] using Tape.Step.refuse handle hmem
        · simpa only [TokenList.perform, hrefused] using hlist
  | clear => exact ⟨{}, .clear, hlist.clear⟩
  | setText handle text =>
      by_cases hmem : handle ∈ tape.handles
      · obtain ⟨⟨_, token⟩, hentry, rfl⟩ := List.mem_map.mp hmem
        refine ⟨tape.write _ text, ?_, hlist.setText _ text⟩
        obtain ⟨front, back, hsplit⟩ := List.append_of_mem hentry
        have hfound := (hlist.shows_tape.node_of_split front _ token back hsplit).1
        simpa only [TokenList.perform, hfound] using Tape.Step.setText _ text token hentry
      · have hnode := hlist.holds.node?_eq_none_iff.mpr hmem
        have hfound : list.get? handle = none := by rw [get?, hnode, Option.map_none]
        have hcontains : list.contains handle = false := by simp [contains, hnode]
        refine ⟨tape, ?_, ?_⟩
        · simpa only [TokenList.perform, hfound] using Tape.Step.miss handle text hmem
        · simpa [TokenList.perform, TokenList.setText, modifyNode, hcontains] using hlist
  | advance =>
      cases hunread : tape.unread with
      | nil =>
          have hstays := hlist.advance_of_read hunread
          refine ⟨tape, ?_, ?_⟩
          · simpa only [TokenList.perform, hstays] using Tape.Step.stay hunread
          · simpa only [TokenList.perform, hstays] using hlist
      | cons entry unread =>
          obtain ⟨hanswer, hnext⟩ := hlist.advance_of_unread hunread
          refine ⟨⟨tape.read ++ [entry], unread⟩, ?_, hnext⟩
          simpa only [TokenList.perform, hanswer] using Tape.Step.advance entry unread hunread
  | rewind => exact ⟨tape.rewind, .rewind, hlist.rewind⟩

theorem refines_tape (hlist : list.Represents tape) (operations : List Operation) :
    list.Refines tape operations := by
  induction operations generalizing list tape with
  | nil => exact hlist.shows_tape
  | cons operation later ih =>
      obtain ⟨next, hstep, hnext⟩ := hlist.perform operation
      exact ⟨hlist.shows_tape, next, hstep, ih hnext⟩

end Represents

/-- Every run of operations from a new list refines a run of a tape from the empty one. -/
theorem empty_refines (tag : Nat) (operations : List Operation) :
    (empty tag).Refines {} operations :=
  (represents_empty tag).refines_tape operations

end TokenList

end LineLexer
