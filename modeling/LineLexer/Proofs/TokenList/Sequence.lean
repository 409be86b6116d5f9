import Mathlib.Data.List.Nodup
import Mathlib.Data.List.Perm.Subperm
import LineLexer.Proofs.TokenList.Slots
/-!
A token list as a sequence of tokens with distinct handles.

A list holds a sequence if its nodes, links, ends, size and free slots are what the sequence
asks for.  Links are stated over all ways to split the sequence at one token: the neighbours
of the token are the last one before and the first one after it.  Adding a token is adding it
to the end of the sequence, erasing one is leaving it out, and walks along the links meet the
tokens in their order.
-/

namespace LineLexer

/-- Where an element stands when two sequences are put one after the other. -/
theorem append_eq_append_cons {α : Type} {first second front back : List α} {x : α}
    (hsplit : first ++ second = front ++ x :: back) :
    (∃ middle, first = front ++ x :: middle ∧ back = middle ++ second) ∨
      (∃ middle, front = first ++ middle ∧ second = middle ++ x :: back) := by
  rcases List.append_eq_append_iff.mp hsplit with ⟨middle, hfront, hsecond⟩ |
    ⟨middle, hfirst, hback⟩
  · exact Or.inr ⟨middle, hfront, hsecond⟩
  · cases middle with
    | nil =>
        rw [List.append_nil] at hfirst
        exact Or.inr ⟨[], by simp [hfirst], by simpa using hback.symm⟩
    | cons y middle =>
        obtain ⟨rfl, rfl⟩ := List.cons.inj hback
        exact Or.inl ⟨middle, hfirst, rfl⟩

theorem getLast?_append_cons_cons {α : Type} (front : List α) (x y : α) (back : List α) :
    (front ++ x :: y :: back).getLast? = (y :: back).getLast? := by
  simp [List.getLast?_append, List.getLast?_cons]

def entryText (entry : Handle × Token) : String :=
  entry.2.text

/-- The sequence without the token that a handle names. -/
def without (entries : List (Handle × Token)) (handle : Handle) : List (Handle × Token) :=
  entries.filter fun entry => entry.1 ≠ handle

/-- The sequence with another text for the token that a handle names. -/
def retext (entries : List (Handle × Token)) (handle : Handle) (text : String) :
    List (Handle × Token) :=
  entries.map fun entry => if entry.1 = handle then (handle, ⟨text⟩) else entry

/-- The list has the tokens of the sequence in their order, each linked to its neighbours,
and nothing else. -/
structure TokenList.Holds (list : TokenList) (entries : List (Handle × Token)) : Prop where
  freeSlots : list.FreeSlots
  nodup : (entries.map Prod.fst).Nodup
  node_of_split : ∀ front handle token back, entries = front ++ (handle, token) :: back →
    list.node? handle = some
      ⟨token, back.head?.map Prod.fst, front.getLast?.map Prod.fst⟩
  mem_of_node : ∀ handle node, list.node? handle = some node → handle ∈ entries.map Prod.fst
  head_eq : list.head = entries.head?.map Prod.fst
  tail_eq : list.tail = entries.getLast?.map Prod.fst
  size_eq : list.size = entries.length

section Split

variable {entries front back : List (Handle × Token)} {handle : Handle} {token : Token}

theorem exists_split_of_mem (hmem : handle ∈ entries.map Prod.fst) :
    ∃ front token back, entries = front ++ (handle, token) :: back := by
  obtain ⟨⟨found, token⟩, hentry, rfl⟩ := List.mem_map.mp hmem
  obtain ⟨front, back, hsplit⟩ := List.append_of_mem hentry
  exact ⟨front, token, back, hsplit⟩

/-- With distinct handles a token stands in one place only. -/
theorem not_mem_of_split (hnodup : (entries.map Prod.fst).Nodup)
    (hsplit : entries = front ++ (handle, token) :: back) :
    handle ∉ front.map Prod.fst ∧ handle ∉ back.map Prod.fst := by
  rw [hsplit, List.map_append, List.map_cons] at hnodup
  have hmiddle := List.nodup_middle.mp hnodup
  rw [List.nodup_cons, List.mem_append, not_or] at hmiddle
  exact hmiddle.1

theorem without_eq_self (hmem : handle ∉ entries.map Prod.fst) :
    without entries handle = entries := by
  apply List.filter_eq_self.mpr
  intro entry hentry
  have hne : entry.1 ≠ handle := by
    rintro rfl
    exact hmem (List.mem_map_of_mem hentry)
  simpa using hne

theorem without_of_split (hnodup : (entries.map Prod.fst).Nodup)
    (hsplit : entries = front ++ (handle, token) :: back) :
    without entries handle = front ++ back := by
  obtain ⟨hfront, hback⟩ := not_mem_of_split hnodup hsplit
  have hkept : without entries handle = without front handle ++ without back handle := by
    simp [hsplit, without]
  rw [hkept, without_eq_self hfront, without_eq_self hback]

theorem mem_map_fst_without {other : Handle} :
    other ∈ (without entries handle).map Prod.fst ↔
      other ∈ entries.map Prod.fst ∧ other ≠ handle := by
  simp [without]

theorem nodup_without (hnodup : (entries.map Prod.fst).Nodup) :
    ((without entries handle).map Prod.fst).Nodup :=
  hnodup.sublist (List.filter_sublist.map Prod.fst)

theorem map_fst_retext (entries : List (Handle × Token)) (handle : Handle) (text : String) :
    (retext entries handle text).map Prod.fst = entries.map Prod.fst := by
  rw [retext, List.map_map]
  apply List.map_congr_left
  intro entry _
  by_cases hsame : entry.1 = handle <;> simp [hsame]

theorem head?_ne_of_not_mem (hmem : handle ∉ entries.map Prod.fst) :
    entries.head?.map Prod.fst ≠ some handle := by
  intro hhead
  obtain ⟨first, hfirst, rfl⟩ := Option.map_eq_some_iff.mp hhead
  exact hmem (List.mem_map_of_mem (List.mem_of_head? hfirst))

theorem getLast?_ne_of_not_mem (hmem : handle ∉ entries.map Prod.fst) :
    entries.getLast?.map Prod.fst ≠ some handle := by
  intro hlast
  obtain ⟨last, hfound, rfl⟩ := Option.map_eq_some_iff.mp hlast
  exact hmem (List.mem_map_of_mem (List.mem_of_getLast? hfound))

end Split

namespace TokenList

theorem holds_empty (tag : Nat) : (empty tag).Holds [] where
  freeSlots := ⟨List.nodup_nil, by simp [empty, Vacant]⟩
  nodup := List.nodup_nil
  node_of_split front handle token back hsplit := by simp at hsplit
  mem_of_node handle node hnode := by simp [node?, empty] at hnode
  head_eq := rfl
  tail_eq := rfl
  size_eq := rfl

namespace Holds

variable {list : TokenList} {entries : List (Handle × Token)} (hholds : list.Holds entries)

include hholds

/-- The cursor is no part of the sequence. -/
theorem of_cursor (cursor : Option Handle) : { list with cursor }.Holds entries where
  freeSlots := ⟨hholds.freeSlots.nodup, hholds.freeSlots.mem_iff⟩
  nodup := hholds.nodup
  node_of_split := hholds.node_of_split
  mem_of_node := hholds.mem_of_node
  head_eq := hholds.head_eq
  tail_eq := hholds.tail_eq
  size_eq := hholds.size_eq

theorem clear : list.clear.Holds [] where
  freeSlots := hholds.freeSlots.clear
  nodup := List.nodup_nil
  node_of_split front handle token back hsplit := by simp at hsplit
  mem_of_node handle node hnode := by simp [node?_clear] at hnode
  head_eq := rfl
  tail_eq := rfl
  size_eq := rfl

theorem contains_iff_mem {handle : Handle} :
    list.contains handle = true ↔ handle ∈ entries.map Prod.fst := by
  rw [contains_iff]
  constructor
  · rintro ⟨node, hnode⟩
    exact hholds.mem_of_node handle node hnode
  · intro hmem
    obtain ⟨front, token, back, hsplit⟩ := exists_split_of_mem hmem
    exact ⟨_, hholds.node_of_split front handle token back hsplit⟩

theorem node?_eq_none_iff {handle : Handle} :
    list.node? handle = none ↔ handle ∉ entries.map Prod.fst := by
  rw [← hholds.contains_iff_mem, contains]
  cases list.node? handle <;> simp

end Holds

section Erase

variable {list : TokenList} {entries front back : List (Handle × Token)} {handle : Handle}
  {token : Token}

theorem erase_of_node {node : Node} (hnode : list.node? handle = some node) :
    ∃ rest, list.release handle = some (node, rest) ∧
      list.erase handle = (.ok node.token, rest.unlink handle node) := by
  have hrelease : ∃ rest, list.release handle = some (node, rest) := by
    simp [release, hnode]
  obtain ⟨rest, hrelease⟩ := hrelease
  exact ⟨rest, hrelease, by rw [erase, hrelease]⟩

/-- A handle of no token is refused, and the list stays as it is. -/
theorem erase_of_not_mem (hholds : list.Holds entries)
    (hmem : handle ∉ entries.map Prod.fst) :
    list.erase handle = (.error handle.notMember, list) := by
  have hrelease : list.release handle = none := by
    rw [release, hholds.node?_eq_none_iff.mpr hmem]
    rfl
  rw [erase, hrelease]

/-- Every other token is linked to its neighbours in the sequence without the erased one. -/
theorem node?_erase_of_split (hholds : list.Holds entries)
    (hsplit : entries = front ++ (handle, token) :: back)
    {first second : List (Handle × Token)} {other : Handle} {kept : Token}
    (hplace : front ++ back = first ++ (other, kept) :: second) :
    (list.erase handle).2.node? other = some
      ⟨kept, second.head?.map Prod.fst, first.getLast?.map Prod.fst⟩ := by
  have hnodup : ((front ++ back).map Prod.fst).Nodup := by
    rw [← without_of_split hholds.nodup hsplit]
    exact nodup_without hholds.nodup
  obtain ⟨hfirst, hsecond⟩ := not_mem_of_split hnodup hplace
  obtain ⟨hfront, hback⟩ := not_mem_of_split hholds.nodup hsplit
  have hne : other ≠ handle := by
    rintro rfl
    have hother : other ∈ (front ++ back).map Prod.fst := by simp [hplace]
    rw [List.map_append, List.mem_append] at hother
    exact hother.elim hfront hback
  obtain ⟨rest, hrelease, herase⟩ :=
    erase_of_node (hholds.node_of_split front handle token back hsplit)
  rw [herase, node?_unlink, node?_release hrelease, if_neg hne]
  rcases append_eq_append_cons hplace with ⟨middle, rfl, rfl⟩ | ⟨middle, rfl, rfl⟩
  · -- The token stands before the erased one.
    have hnode := hholds.node_of_split first other kept (middle ++ (handle, token) :: back)
      (by simp [hsplit])
    have hnext : back.head?.map Prod.fst ≠ some other := by
      apply head?_ne_of_not_mem
      intro hmem
      exact hsecond (by simp [hmem])
    rw [hnode]
    cases middle with
    | nil => simp [hnext]
    | cons entry middle =>
        have hprev : (entry :: middle).getLast?.map Prod.fst ≠ some other := by
          apply getLast?_ne_of_not_mem
          intro hmem
          rw [List.map_append] at hsecond
          exact hsecond (List.mem_append_left _ hmem)
        simp only [Option.map_some, getLast?_append_cons_cons, if_neg hprev, if_neg hnext]
        rfl
  · -- The token stands after the erased one.
    have hnode := hholds.node_of_split (front ++ (handle, token) :: middle) other kept second
      (by simp [hsplit])
    have hprev : front.getLast?.map Prod.fst ≠ some other := by
      apply getLast?_ne_of_not_mem
      intro hmem
      exact hfirst (by simp [hmem])
    rw [hnode]
    cases middle with
    | nil => simp [hprev]
    | cons entry middle =>
        have hhead : entry.1 ≠ other := by
          rintro rfl
          exact hfirst (by simp)
        simp [hprev, hhead, List.getLast?_append, List.getLast?_cons]

/-- Erasing leaves the sequence without the token that the handle named. -/
theorem Holds.erase (hholds : list.Holds entries) (hmem : handle ∈ entries.map Prod.fst) :
    (list.erase handle).2.Holds (without entries handle) := by
  obtain ⟨front, token, back, hsplit⟩ := exists_split_of_mem hmem
  obtain ⟨rest, hrelease, herase⟩ :=
    erase_of_node (hholds.node_of_split front handle token back hsplit)
  have hwithout := without_of_split hholds.nodup hsplit
  refine ⟨?_, nodup_without hholds.nodup, ?_, ?_, ?_, ?_, ?_⟩
  · rw [herase]
    exact (FreeSlots.release hrelease hholds.freeSlots).unlink _ _
  · intro first other kept second hplace
    rw [hwithout] at hplace
    exact node?_erase_of_split hholds hsplit hplace
  · intro other node hnode
    rw [herase, node?_unlink, node?_release hrelease] at hnode
    by_cases hsame : other = handle
    · simp [hsame] at hnode
    · rw [if_neg hsame] at hnode
      obtain ⟨found, hfound, _⟩ := Option.map_eq_some_iff.mp hnode
      exact mem_map_fst_without.mpr ⟨hholds.mem_of_node other found hfound, hsame⟩
  · rw [herase, unlink_eq, hwithout, release_eq hrelease]
    cases front with
    | nil => simp
    | cons entry front => simp [hholds.head_eq, hsplit]
  · rw [herase, unlink_eq, hwithout, release_eq hrelease]
    cases back with
    | nil => simp
    | cons entry back => simp [hholds.tail_eq, hsplit]
  · rw [herase, unlink_eq, hwithout, release_eq hrelease]
    simp only [hholds.size_eq, hsplit, List.length_append, List.length_cons]
    omega

end Erase

section Push

variable {list : TokenList} {entries : List (Handle × Token)} (hholds : list.Holds entries)
  (token : Token)

/-- Adding a token as filling a slot and changing the link of the last token, with the ends,
the cursor and the size set afterwards. -/
theorem push_eq (list : TokenList) (token : Token) :
    list.push token =
      ((list.allocate { token, prev := list.tail }).1,
        { (list.allocate { token, prev := list.tail }).2.modifyNode? list.tail fun node =>
            { node with next := some (list.allocate { token, prev := list.tail }).1 } with
          head := if list.tail = none then some (list.allocate { token, prev := list.tail }).1
            else list.head
          tail := some (list.allocate { token, prev := list.tail }).1
          cursor := list.cursor.or (some (list.allocate { token, prev := list.tail }).1)
          size := list.size + 1 }) := by
  cases htail : list.tail <;> simp [push, htail, modifyNode?]

include hholds

theorem push_not_mem : (list.push token).1 ∉ entries.map Prod.fst := by
  rw [push_eq, ← hholds.node?_eq_none_iff]
  exact node?_allocate_fresh hholds.freeSlots _

theorem node?_push (other : Handle) :
    (list.push token).2.node? other =
      if other = (list.push token).1 then some { token, prev := list.tail }
      else (list.node? other).map fun found =>
        if list.tail = some other then { found with next := some (list.push token).1 }
        else found := by
  have htail : list.tail ≠ some (list.push token).1 := by
    rw [hholds.tail_eq]
    exact getLast?_ne_of_not_mem (push_not_mem hholds token)
  have hhandle : (list.push token).1 = (list.allocate { token, prev := list.tail }).1 := by
    rw [push_eq]
  have hlookup : (list.push token).2.node? other =
      ((list.allocate { token, prev := list.tail }).2.modifyNode? list.tail fun node =>
        { node with next := some (list.push token).1 }).node? other := by
    rw [push_eq]
    rfl
  rw [hlookup, node?_modifyNode?, node?_allocate hholds.freeSlots, ← hhandle]
  by_cases hsame : other = (list.push token).1
  · rw [if_pos hsame, if_pos hsame, hsame, Option.map_some, if_neg htail]
  · rw [if_neg hsame, if_neg hsame]

/-- A token is added at the end of the sequence. -/
theorem Holds.push :
    (list.push token).2.Holds (entries ++ [((list.push token).1, token)]) := by
  have hfresh := push_not_mem hholds token
  have hnodup : ((entries ++ [((list.push token).1, token)]).map Prod.fst).Nodup := by
    rw [List.map_append, List.map_singleton, ← List.concat_eq_append]
    exact hholds.nodup.concat hfresh
  refine ⟨?_, hnodup, ?_, ?_, ?_, ?_, ?_⟩
  · rw [push_eq]
    have hkept := (hholds.freeSlots.allocate { token, prev := list.tail }).modifyNode?
      list.tail fun node =>
        { node with next := some (list.allocate { token, prev := list.tail }).1 }
    exact ⟨hkept.nodup, hkept.mem_iff⟩
  · intro front other kept back hplace
    rw [node?_push hholds]
    rcases append_eq_append_cons hplace with ⟨middle, hentries, rfl⟩ | ⟨middle, rfl, hlast⟩
    · -- An old token; only the last one has a new neighbour.
      have hnode := hholds.node_of_split front other kept middle hentries
      obtain ⟨_, hmiddle⟩ := not_mem_of_split hholds.nodup hentries
      have hne : other ≠ (list.push token).1 := by
        rintro rfl
        exact hfresh (by simp [hentries])
      rw [if_neg hne, hnode, hholds.tail_eq, hentries]
      cases middle with
      | nil => simp
      | cons entry middle =>
          rw [getLast?_append_cons_cons, Option.map_some, if_neg (getLast?_ne_of_not_mem hmiddle)]
          rfl
    · -- The new token.
      cases middle with
      | cons entry middle => simp at hlast
      | nil =>
          simp only [List.nil_append, List.cons.injEq, Prod.mk.injEq] at hlast
          obtain ⟨⟨rfl, rfl⟩, rfl⟩ := hlast
          simp [hholds.tail_eq]
  · intro other node hnode
    rw [node?_push hholds] at hnode
    by_cases hsame : other = (list.push token).1
    · simp [hsame]
    · rw [if_neg hsame] at hnode
      obtain ⟨found, hfound, _⟩ := Option.map_eq_some_iff.mp hnode
      rw [List.map_append, List.mem_append]
      exact Or.inl (hholds.mem_of_node other found hfound)
  · rw [push_eq]
    simp only [hholds.head_eq, hholds.tail_eq]
    cases entries with
    | nil => simp
    | cons entry others => simp [List.getLast?_cons]
  · rw [push_eq]
    simp
  · rw [push_eq]
    simp [hholds.size_eq]

end Push

section SetText

variable {list : TokenList} {entries : List (Handle × Token)} (hholds : list.Holds entries)
  (handle : Handle) (text : String)

include hholds

/-- Changing a text keeps all handles and links. -/
theorem Holds.setText : (list.setText handle text).Holds (retext entries handle text) := by
  have hframe := modifyNode_frame list handle fun node => { node with token := ⟨text⟩ }
  have hhead : ∀ part : List (Handle × Token),
      (retext part handle text).head?.map Prod.fst = part.head?.map Prod.fst := by
    intro part
    rw [← List.head?_map, map_fst_retext, List.head?_map]
  have hlast : ∀ part : List (Handle × Token),
      (retext part handle text).getLast?.map Prod.fst = part.getLast?.map Prod.fst := by
    intro part
    rw [← List.getLast?_map, map_fst_retext, List.getLast?_map]
  refine ⟨hholds.freeSlots.modifyNode handle _, ?_, ?_, ?_, ?_, ?_, ?_⟩
  · rw [map_fst_retext]
    exact hholds.nodup
  · intro first other kept second hplace
    rw [retext, List.map_eq_append_iff] at hplace
    obtain ⟨front, rest, hentries, rfl, hrest⟩ := hplace
    obtain ⟨⟨found, token⟩, back, rfl, hentry, rfl⟩ := List.map_eq_cons_iff.mp hrest
    have hnode := hholds.node_of_split front found token back hentries
    rw [TokenList.setText, node?_modifyNode]
    change _ = some (Node.mk kept ((retext back handle text).head?.map Prod.fst)
      ((retext front handle text).getLast?.map Prod.fst))
    rw [hhead, hlast]
    by_cases hsame : found = handle
    · rw [if_pos hsame, Prod.mk.injEq] at hentry
      obtain ⟨rfl, rfl⟩ := hentry
      rw [if_pos rfl, ← hsame, hnode]
      rfl
    · rw [if_neg hsame, Prod.mk.injEq] at hentry
      obtain ⟨rfl, rfl⟩ := hentry
      rw [if_neg hsame, hnode]
  · intro other node hnode
    rw [map_fst_retext]
    rw [TokenList.setText, node?_modifyNode] at hnode
    split at hnode
    · obtain ⟨found, hfound, _⟩ := Option.map_eq_some_iff.mp hnode
      exact hholds.mem_of_node other found hfound
    · exact hholds.mem_of_node other node hnode
  · rw [hhead, TokenList.setText, hframe.2.2.1, hholds.head_eq]
  · rw [hlast, TokenList.setText, hframe.2.2.2.1, hholds.tail_eq]
  · rw [retext, List.length_map, TokenList.setText, hframe.2.2.2.2.2, hholds.size_eq]

end SetText

section Walk

variable {list : TokenList} {entries : List (Handle × Token)} (hholds : list.Holds entries)

include hholds

/-- A walk along the links to the next tokens meets the tokens from a place on. -/
theorem walk_next_of_split {front back : List (Handle × Token)}
    (hsplit : entries = front ++ back) (stops : Nat) :
    list.walk (·.next) stops (back.head?.map Prod.fst) = back.take stops := by
  induction stops generalizing front back with
  | zero => cases back <;> rfl
  | succ stops ih =>
      cases back with
      | nil => rfl
      | cons entry back =>
          have hnode := hholds.node_of_split front entry.1 entry.2 back hsplit
          have hlater := ih (show entries = (front ++ [entry]) ++ back by simp [hsplit])
          rw [List.head?_cons, Option.map_some, walk, hnode]
          simp only [hlater, List.take_succ_cons]

theorem walk_prev_of_split {front back : List (Handle × Token)}
    (hsplit : entries = front ++ back) (stops : Nat) :
    list.walk (·.prev) stops (front.getLast?.map Prod.fst) = front.reverse.take stops := by
  induction stops generalizing front back with
  | zero => cases front.getLast? <;> rfl
  | succ stops ih =>
      rcases List.eq_nil_or_concat' front with rfl | ⟨front, entry, rfl⟩
      · rfl
      · rw [List.append_assoc, List.singleton_append] at hsplit
        have hnode := hholds.node_of_split front entry.1 entry.2 back hsplit
        have hlater := ih hsplit
        rw [List.getLast?_concat, Option.map_some, walk, hnode]
        simp only [hlater, List.reverse_append, List.reverse_singleton,
          List.singleton_append, List.take_succ_cons]

/-- Handles that name tokens at the same time stand for different slots. -/
theorem eq_of_index_eq {first second : Handle} (hfirst : first ∈ entries.map Prod.fst)
    (hsecond : second ∈ entries.map Prod.fst) (hindex : first.index = second.index) :
    first = second := by
  obtain ⟨firstNode, hfirst⟩ := contains_iff.mp (hholds.contains_iff_mem.mpr hfirst)
  obtain ⟨secondNode, hsecond⟩ := contains_iff.mp (hholds.contains_iff_mem.mpr hsecond)
  obtain ⟨hfirstTag, slot, hslot, hfirstGen, _⟩ := node?_eq_some_iff.mp hfirst
  obtain ⟨hsecondTag, other, hother, hsecondGen, _⟩ := node?_eq_some_iff.mp hsecond
  rw [hindex, hother, Option.some.injEq] at hslot
  subst hslot
  cases first
  cases second
  simp_all

/-- Every token has a slot of its own. -/
theorem nodup_indices : ((entries.map Prod.fst).map Handle.index).Nodup := by
  apply hholds.nodup.map_on
  intro first hfirst second hsecond hindex
  exact eq_of_index_eq hholds hfirst hsecond hindex

/-- A walk needs no more stops than there are slots. -/
theorem length_le_slots : entries.length ≤ list.slots.size := by
  have hbound : (entries.map Prod.fst).map Handle.index ⊆ List.range list.slots.size := by
    intro index hindex
    obtain ⟨handle, hmem, rfl⟩ := List.mem_map.mp hindex
    obtain ⟨node, hnode⟩ := contains_iff.mp (hholds.contains_iff_mem.mpr hmem)
    obtain ⟨_, slot, hslot, _⟩ := node?_eq_some_iff.mp hnode
    exact List.mem_range.mpr (Array.getElem?_eq_some_iff.mp hslot).1
  have hlength := ((nodup_indices hholds).subperm hbound).length_le
  simpa using hlength

/-- The tokens of the list, front to back. -/
theorem entries_eq : list.entries = entries := by
  have hwalk := walk_next_of_split hholds (List.nil_append entries).symm list.slots.size
  rw [TokenList.entries, hholds.head_eq, hwalk,
    List.take_of_length_le (length_le_slots hholds)]

theorem entriesBackward_eq : list.entriesBackward = entries.reverse := by
  have hwalk := walk_prev_of_split hholds (List.append_nil entries).symm list.slots.size
  rw [entriesBackward, hholds.tail_eq, hwalk, List.take_of_length_le]
  rw [List.length_reverse]
  exact length_le_slots hholds

theorem texts_eq : list.texts = entries.map entryText := by
  rw [TokenList.texts, entries_eq hholds]
  rfl

end Walk

end TokenList

end LineLexer
