import LineLexer.Proofs.TokenList.Issue
import LineLexer.Proofs.TokenList.Refinement
/-!
What a handle names in the course of time.

From the moment it is issued a handle names its token, with the text that was last given to
it, until the token is removed; from then on it names nothing.  Whatever else is done to the
list makes no difference to the handle, because its slot cannot be filled under the handle a
second time.
-/

namespace LineLexer

namespace TokenList

/-- Whether another list takes the place of the list. -/
def Operation.replaces : Operation → Bool
  | .create _ | .collect _ _ => true
  | _ => false

/-- What can be done to a list that stays the same list. -/
structure Edit where
  operation : Operation
  keeps : operation.replaces = false

/-- The list after an edit. -/
def edit (list : TokenList) (edit : Edit) : TokenList :=
  (list.perform edit.operation).2

/-- The list after some edits, the first one first. -/
def editAll (list : TokenList) (edits : List Edit) : TokenList :=
  edits.foldl TokenList.edit list

/-- The handles that adding tokens with the given texts issues, with the tokens. -/
def issuedTexts (list : TokenList) : List String → List (Handle × Token)
  | [] => []
  | text :: texts =>
      ((list.append text).1, ⟨text⟩) :: (list.append text).2.issuedTexts texts

/-- The handles that an edit issues, with the tokens. -/
def issued (list : TokenList) (edit : Edit) : List (Handle × Token) :=
  match edit.operation with
  | .append text => [((list.append text).1, ⟨text⟩)]
  | .appendToken token => [((list.push token).1, token)]
  | .extend texts => list.issuedTexts texts
  | _ => []

/-- Whether an edit removes the token that the handle names. -/
def Edit.removes (handle : Handle) (edit : Edit) : Bool :=
  match edit.operation with
  | .erase other => other == handle
  | .clear => true
  | _ => false

/-- The token that the handle names after an edit that does not remove it. -/
def Edit.rewrite (handle : Handle) (token : Token) (edit : Edit) : Token :=
  match edit.operation with
  | .setText other text => if other = handle then ⟨text⟩ else token
  | _ => token

/-- The list gives the handle to whoever asks for an end, for a neighbour, for the next token to
be delivered or for all tokens. -/
inductive Gives (list : TokenList) (handle : Handle) : Prop
  | head (hhead : list.head = some handle)
  | tail (htail : list.tail = some handle)
  | advance (hadvance : list.advance.1 = some handle)
  | next (other : Handle) (hnext : list.next? other = some handle)
  | prev (other : Handle) (hprev : list.prev? other = some handle)
  | entries (hmem : handle ∈ list.handles)

/-- The list treats the handle as one of no token. -/
structure Forgets (list : TokenList) (handle : Handle) : Prop where
  contains_eq : list.contains handle = false
  get?_eq : list.get? handle = none
  text?_eq : list.text? handle = none
  next?_eq : list.next? handle = none
  prev?_eq : list.prev? handle = none
  erase_eq : list.erase handle = (.error handle.notMember, list)

/-- The links of the list are in order. -/
def Linked (list : TokenList) : Prop :=
  ∃ tape, list.Represents tape

theorem linked_empty (tag : Nat) : (empty tag).Linked :=
  ⟨{}, represents_empty tag⟩

theorem linked_ofTexts (tag : Nat) (texts : List String) : (ofTexts tag texts).Linked := by
  obtain ⟨entries, _, hlist⟩ := (represents_empty tag).extend texts
  exact ⟨_, hlist⟩

section Push

variable {list : TokenList} (hlinked : list.Linked) (token : Token)

include hlinked

theorem Linked.push : (list.push token).2.Linked := by
  obtain ⟨tape, hlist⟩ := hlinked
  exact ⟨_, hlist.push token⟩

theorem Linked.push_not_hasIssued : ¬ list.HasIssued (list.push token).1 := by
  obtain ⟨tape, hlist⟩ := hlinked
  exact TokenList.push_not_hasIssued hlist.holds token

theorem Linked.hasIssued_push (handle : Handle) :
    (list.push token).2.HasIssued handle ↔
      list.HasIssued handle ∨ handle = (list.push token).1 := by
  obtain ⟨tape, hlist⟩ := hlinked
  exact TokenList.hasIssued_push hlist.holds token handle

/-- Adding a token makes no difference to the other handles. -/
theorem Linked.get?_push (handle : Handle) :
    (list.push token).2.get? handle =
      if handle = (list.push token).1 then some token else list.get? handle := by
  obtain ⟨tape, hlist⟩ := hlinked
  rw [get?, get?, node?_push hlist.holds]
  split
  · rfl
  · rw [Option.map_map]
    congr 1
    funext node
    simp only [Function.comp_apply]
    split <;> rfl

theorem Linked.get?_push_of_hasIssued {handle : Handle} (hissued : list.HasIssued handle) :
    (list.push token).2.get? handle = list.get? handle := by
  rw [hlinked.get?_push, if_neg]
  rintro rfl
  exact hlinked.push_not_hasIssued token hissued

end Push

section Extend

variable {list : TokenList} {handle : Handle}

theorem extend_cons (list : TokenList) (text : String) (texts : List String) :
    list.extend (text :: texts) = (list.push ⟨text⟩).2.extend texts :=
  rfl

theorem issuedTexts_cons (list : TokenList) (text : String) (texts : List String) :
    list.issuedTexts (text :: texts) =
      ((list.push ⟨text⟩).1, ⟨text⟩) :: (list.push ⟨text⟩).2.issuedTexts texts :=
  rfl

theorem Linked.hasIssued_extend (hlinked : list.Linked) (texts : List String) :
    (list.extend texts).HasIssued handle ↔
      list.HasIssued handle ∨ handle ∈ (list.issuedTexts texts).map Prod.fst := by
  induction texts generalizing list with
  | nil => simp [extend, issuedTexts]
  | cons text texts ih =>
      rw [extend_cons, ih (hlinked.push ⟨text⟩), hlinked.hasIssued_push, issuedTexts_cons,
        List.map_cons, List.mem_cons, or_assoc]

theorem Linked.get?_extend_of_hasIssued (hlinked : list.Linked) (texts : List String)
    (hissued : list.HasIssued handle) : (list.extend texts).get? handle = list.get? handle := by
  induction texts generalizing list with
  | nil => rfl
  | cons text texts ih =>
      rw [extend_cons, ih (hlinked.push ⟨text⟩) ((hlinked.hasIssued_push _ _).mpr (Or.inl hissued))]
      exact hlinked.get?_push_of_hasIssued ⟨text⟩ hissued

/-- The handles issued together differ from each other and from all handles before. -/
theorem Linked.issuedTexts_fresh (hlinked : list.Linked) (texts : List String) :
    (∀ entry ∈ list.issuedTexts texts, ¬ list.HasIssued entry.1) ∧
      ((list.issuedTexts texts).map Prod.fst).Nodup := by
  induction texts generalizing list with
  | nil => simp [issuedTexts]
  | cons text texts ih =>
      obtain ⟨hfresh, hnodup⟩ := ih (hlinked.push ⟨text⟩)
      have hfirst := hlinked.push_not_hasIssued ⟨text⟩
      constructor
      · intro entry hmem hissued
        rcases List.mem_cons.mp hmem with rfl | hlater
        · exact hfirst hissued
        · exact hfresh entry hlater ((hlinked.hasIssued_push _ _).mpr (Or.inl hissued))
      · rw [issuedTexts_cons, List.map_cons, List.nodup_cons]
        refine ⟨?_, hnodup⟩
        intro hmem
        obtain ⟨entry, hentry, hhandle⟩ := List.mem_map.mp hmem
        exact hfresh entry hentry ((hlinked.hasIssued_push _ _).mpr (Or.inr hhandle))

/-- The handles issued together name their tokens. -/
theorem Linked.get?_issuedTexts (hlinked : list.Linked) {texts : List String}
    {entry : Handle × Token} (hmem : entry ∈ list.issuedTexts texts) :
    (list.extend texts).get? entry.1 = some entry.2 := by
  induction texts generalizing list with
  | nil => cases hmem
  | cons text texts ih =>
      rw [extend_cons]
      rcases List.mem_cons.mp hmem with rfl | hlater
      · have hissued := (hlinked.hasIssued_push ⟨text⟩ _).mpr (Or.inr rfl)
        have hkept := (hlinked.push ⟨text⟩).get?_extend_of_hasIssued texts hissued
        rw [hlinked.get?_push, if_pos rfl] at hkept
        exact hkept
      · exact ih (hlinked.push ⟨text⟩) hlater

end Extend

section Edit

variable {list : TokenList} {handle : Handle}

theorem Linked.edit (hlinked : list.Linked) (edit : Edit) : (list.edit edit).Linked := by
  obtain ⟨tape, hlist⟩ := hlinked
  obtain ⟨next, _, hnext⟩ := hlist.perform edit.operation
  exact ⟨next, hnext⟩

/-- An edit issues the handles of the tokens it adds and no other. -/
theorem Linked.hasIssued_edit (hlinked : list.Linked) (edit : Edit) :
    (list.edit edit).HasIssued handle ↔
      list.HasIssued handle ∨ handle ∈ (list.issued edit).map Prod.fst := by
  obtain ⟨operation, hkeeps⟩ := edit
  cases operation with
  | create tag | collect tag texts => cases hkeeps
  | append text =>
      simpa [issued, TokenList.edit, perform, append] using hlinked.hasIssued_push ⟨text⟩ handle
  | appendToken token =>
      simpa [issued, TokenList.edit, perform] using hlinked.hasIssued_push token handle
  | extend texts => exact hlinked.hasIssued_extend texts
  | erase erased => simpa [issued, TokenList.edit, perform] using hasIssued_erase list erased handle
  | clear =>
      have htag : list.clear.tag = list.tag := rfl
      simp [issued, TokenList.edit, perform, HasIssued, uses_clear, htag]
  | setText changed text =>
      simp [issued, TokenList.edit, perform, HasIssued, TokenList.setText, uses_modifyNode]
  | advance =>
      simp only [issued, TokenList.edit, perform, advance]
      cases list.cursor <;> simp [HasIssued, uses]
  | rewind => simp [issued, TokenList.edit, perform, rewind, HasIssued, uses]

theorem Linked.issued_fresh (hlinked : list.Linked) (edit : Edit) :
    (∀ entry ∈ list.issued edit, ¬ list.HasIssued entry.1) ∧
      ((list.issued edit).map Prod.fst).Nodup := by
  obtain ⟨operation, hkeeps⟩ := edit
  cases operation with
  | append text => simpa [issued, append] using hlinked.push_not_hasIssued ⟨text⟩
  | appendToken token => simpa [issued] using hlinked.push_not_hasIssued token
  | extend texts => exact hlinked.issuedTexts_fresh texts
  | create | collect | erase | clear | setText | advance | rewind => simp [issued]

theorem Linked.get?_issued (hlinked : list.Linked) {edit : Edit} {entry : Handle × Token}
    (hmem : entry ∈ list.issued edit) : (list.edit edit).get? entry.1 = some entry.2 := by
  obtain ⟨operation, hkeeps⟩ := edit
  cases operation with
  | append text =>
      obtain rfl := List.mem_singleton.mp hmem
      exact (hlinked.get?_push ⟨text⟩ _).trans (if_pos rfl)
  | appendToken token =>
      obtain rfl := List.mem_singleton.mp hmem
      exact (hlinked.get?_push token _).trans (if_pos rfl)
  | extend texts => exact hlinked.get?_issuedTexts hmem
  | create | collect | erase | clear | setText | advance | rewind => cases hmem

theorem get?_erase (list : TokenList) (erased handle : Handle) :
    (list.erase erased).2.get? handle = if erased = handle then none else list.get? handle := by
  unfold erase
  split
  · rename_i node rest hrelease
    rw [get?, get?, node?_unlink, node?_release hrelease]
    by_cases hsame : erased = handle
    · rw [if_pos hsame, if_pos hsame.symm]
      rfl
    · rw [if_neg hsame, if_neg (Ne.symm hsame), Option.map_map]
      rfl
  · rename_i hrelease
    split
    · rename_i hsame
      subst hsame
      rw [get?]
      exact congrArg (Option.map _) (Option.map_eq_none_iff.mp hrelease)
    · rfl

theorem get?_setText (list : TokenList) (changed handle : Handle) (text : String) :
    (list.setText changed text).get? handle =
      (list.get? handle).map fun token => if changed = handle then ⟨text⟩ else token := by
  rw [get?, get?, setText, node?_modifyNode]
  by_cases hsame : changed = handle
  · simp [hsame, Function.comp_def]
  · simp [hsame, Ne.symm hsame, Function.comp_def]

/-- What a handle that has been issued names after an edit. -/
theorem Linked.get?_edit (hlinked : list.Linked) (hissued : list.HasIssued handle)
    (edit : Edit) :
    (list.edit edit).get? handle =
      if edit.removes handle then none
      else (list.get? handle).map fun token => edit.rewrite handle token := by
  obtain ⟨operation, hkeeps⟩ := edit
  cases operation with
  | create tag | collect tag texts => cases hkeeps
  | append text =>
      simpa [TokenList.edit, perform, append, Edit.removes, Edit.rewrite] using
        hlinked.get?_push_of_hasIssued ⟨text⟩ hissued
  | appendToken token =>
      simpa [TokenList.edit, perform, Edit.removes, Edit.rewrite] using
        hlinked.get?_push_of_hasIssued token hissued
  | extend texts =>
      simpa [TokenList.edit, perform, Edit.removes, Edit.rewrite] using
        hlinked.get?_extend_of_hasIssued texts hissued
  | erase erased =>
      simpa [TokenList.edit, perform, Edit.removes, Edit.rewrite] using
        get?_erase list erased handle
  | clear => simp [TokenList.edit, perform, Edit.removes, get?, node?_clear]
  | setText changed text =>
      simpa [TokenList.edit, perform, Edit.removes, Edit.rewrite] using
        get?_setText list changed handle text
  | advance =>
      simp only [TokenList.edit, perform, advance, Edit.removes, Edit.rewrite]
      cases list.cursor <;> exact Option.map_id'.symm
  | rewind => exact Option.map_id'.symm

theorem extend_tag (list : TokenList) (texts : List String) :
    (list.extend texts).tag = list.tag := by
  induction texts generalizing list with
  | nil => rfl
  | cons text texts ih => rw [extend_cons, ih, (push_tag list ⟨text⟩).1]

theorem edit_tag (list : TokenList) (edit : Edit) : (list.edit edit).tag = list.tag := by
  obtain ⟨operation, hkeeps⟩ := edit
  cases operation with
  | create tag | collect tag texts => cases hkeeps
  | append text => exact (push_tag list ⟨text⟩).1
  | appendToken token => exact (push_tag list token).1
  | extend texts => exact extend_tag list texts
  | erase erased => exact erase_tag list erased
  | clear | rewind => rfl
  | setText changed text => exact (modifyNode_frame list changed _).1
  | advance =>
      simp only [TokenList.edit, perform, advance]
      cases list.cursor <;> rfl

end Edit

section Edits

variable {list : TokenList} {handle : Handle}

theorem Linked.editAll (hlinked : list.Linked) (edits : List Edit) :
    (list.editAll edits).Linked := by
  induction edits generalizing list with
  | nil => exact hlinked
  | cons edit edits ih => exact ih (hlinked.edit edit)

theorem editAll_tag (list : TokenList) (edits : List Edit) :
    (list.editAll edits).tag = list.tag := by
  induction edits generalizing list with
  | nil => rfl
  | cons edit edits ih => exact (ih (list.edit edit)).trans (edit_tag list edit)

/-- A handle that has been issued stays issued. -/
theorem Linked.hasIssued_editAll (hlinked : list.Linked) (hissued : list.HasIssued handle)
    (edits : List Edit) : (list.editAll edits).HasIssued handle := by
  induction edits generalizing list with
  | nil => exact hissued
  | cons edit edits ih =>
      exact ih (hlinked.edit edit) ((hlinked.hasIssued_edit edit).mpr (Or.inl hissued))

/-- A token that is removed by none of the edits keeps its handle. -/
theorem Linked.get?_editAll (hlinked : list.Linked) (hissued : list.HasIssued handle)
    {edits : List Edit} (hkept : ∀ edit ∈ edits, edit.removes handle = false) :
    (list.editAll edits).get? handle =
      (list.get? handle).map fun token => edits.foldl (Edit.rewrite handle) token := by
  induction edits generalizing list with
  | nil => exact Option.map_id'.symm
  | cons edit edits ih =>
      obtain ⟨hfirst, hlater⟩ := List.forall_mem_cons.mp hkept
      have hissued' := (hlinked.hasIssued_edit edit).mpr (Or.inl hissued)
      have hedit := hlinked.get?_edit hissued edit
      rw [hfirst, if_neg Bool.false_ne_true] at hedit
      rw [TokenList.editAll, List.foldl_cons]
      exact (ih (hlinked.edit edit) hissued' hlater).trans (by rw [hedit, Option.map_map]; rfl)

/-- A handle that has been issued and names nothing never names anything again. -/
theorem Linked.get?_editAll_of_none (hlinked : list.Linked) (hissued : list.HasIssued handle)
    (hnone : list.get? handle = none) (edits : List Edit) :
    (list.editAll edits).get? handle = none := by
  induction edits generalizing list with
  | nil => exact hnone
  | cons edit edits ih =>
      refine ih (hlinked.edit edit) ((hlinked.hasIssued_edit edit).mpr (Or.inl hissued)) ?_
      rw [hlinked.get?_edit hissued, hnone, Option.map_none, ite_self]

/-- Once one of the edits has removed its token, a handle names nothing. -/
theorem Linked.get?_editAll_of_removes (hlinked : list.Linked) (hissued : list.HasIssued handle)
    {edits : List Edit} (hremoved : ∃ edit ∈ edits, edit.removes handle = true) :
    (list.editAll edits).get? handle = none := by
  obtain ⟨edit, hmem, hremoves⟩ := hremoved
  obtain ⟨before, later, rfl⟩ := List.append_of_mem hmem
  have hlist := hlinked.editAll before
  have hissued := hlinked.hasIssued_editAll hissued before
  rw [TokenList.editAll, List.foldl_append, List.foldl_cons]
  refine (hlist.edit edit).get?_editAll_of_none
    ((hlist.hasIssued_edit edit).mpr (Or.inl hissued)) ?_ later
  rw [hlist.get?_edit hissued, if_pos hremoves]

end Edits

section Gives

variable {list : TokenList} {handle : Handle}

theorem forgets_of_get?_eq_none (hnone : list.get? handle = none) : list.Forgets handle := by
  have hnode : list.node? handle = none := Option.map_eq_none_iff.mp hnone
  refine ⟨by simp [contains, hnode], hnone, by simp [text?, hnone], by simp [next?, hnode],
    by simp [prev?, hnode], ?_⟩
  rw [erase, release, hnode]
  rfl

theorem forgets_of_tag_ne (htag : handle.list ≠ list.tag) : list.Forgets handle :=
  forgets_of_get?_eq_none (by rw [get?, node?, if_neg htag, Option.map_none])

/-- A list gives no handles but those of its tokens. -/
theorem Linked.contains_of_gives (hlinked : list.Linked) (hgives : list.Gives handle) :
    list.contains handle = true := by
  obtain ⟨tape, hlist⟩ := hlinked
  have hshows := hlist.shows_tape
  rw [hshows.contains_iff]
  -- A handle with a neighbour names a token of the sequence.
  have hsplit : ∀ other node, list.node? other = some node → ∃ front token back,
      tape.entries = front ++ (other, token) :: back := by
    intro other node hnode
    exact exists_split_of_mem
      ((hshows.contains_iff other).mp (contains_iff.mpr ⟨node, hnode⟩))
  cases hgives with
  | head hhead =>
      rw [hshows.head_eq] at hhead
      exact List.mem_of_head? hhead
  | tail htail =>
      rw [hshows.tail_eq] at htail
      exact List.mem_of_getLast? htail
  | advance hadvance =>
      cases hunread : tape.unread with
      | nil =>
          rw [hlist.advance_of_read hunread] at hadvance
          cases hadvance
      | cons entry unread =>
          rw [(hlist.advance_of_unread hunread).1] at hadvance
          obtain rfl := Option.some.inj hadvance
          simp [Tape.handles, Tape.entries, hunread]
  | next other hnext =>
      obtain ⟨node, hnode, _⟩ := Option.bind_eq_some_iff.mp hnext
      obtain ⟨front, token, back, hentries⟩ := hsplit other node hnode
      rw [(hshows.node_of_split front other token back hentries).2.1] at hnext
      have hmem := List.mem_of_head? hnext
      rw [Tape.handles, hentries]
      simp [hmem]
  | prev other hprev =>
      obtain ⟨node, hnode, _⟩ := Option.bind_eq_some_iff.mp hprev
      obtain ⟨front, token, back, hentries⟩ := hsplit other node hnode
      rw [(hshows.node_of_split front other token back hentries).2.2] at hprev
      have hmem := List.mem_of_getLast? hprev
      rw [Tape.handles, hentries, List.map_append]
      exact List.mem_append_left _ hmem
  | entries hmem =>
      rw [handles, hshows.entries_eq] at hmem
      exact hmem

end Gives

end TokenList

end LineLexer
