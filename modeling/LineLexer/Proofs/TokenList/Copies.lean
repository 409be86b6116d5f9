import LineLexer.Proofs.TokenList.Shelved
/-!
Handles among copies of lists.

A copy has the tag, the slots and the free slots of its original.  It knows the handles that
were issued before it was made, and from then on the two lists issue handles by themselves,
under one tag.  So a list knows the handles that it has issued and those that it has taken
over, as long as their tokens are there, and no others (`contains_iff_known`).  A handle that
another list has issued is foreign to it, unless it has issued the same handle for a token of
its own, which happens among copies of one list, and among others only if so many lists have been
created that the tags have come round.
-/

namespace LineLexer

namespace TokenList

variable {list : TokenList} {handle : Handle}

theorem contains_iff_get? :
    list.contains handle = true ↔ ∃ token, list.get? handle = some token := by
  rw [contains, ← Option.isSome_map (f := (·.token)), ← Option.isSome_iff_exists]
  rfl

theorem forgets_iff_not_contains : list.Forgets handle ↔ ¬ list.contains handle = true := by
  constructor
  · intro hforgets
    rw [hforgets.contains_eq]
    exact Bool.false_ne_true
  · intro hcontains
    apply forgets_of_get?_eq_none
    rw [Option.eq_none_iff_forall_ne_some]
    exact fun token hget => hcontains (contains_iff_get?.mpr ⟨token, hget⟩)

/-- An edit takes the handles of the tokens it removes and gives those of the tokens it adds. -/
theorem Linked.contains_edit (hlinked : list.Linked) (edit : Edit) :
    (list.edit edit).contains handle = true ↔
      list.contains handle = true ∧ edit.removes handle = false ∨
        handle ∈ (list.issued edit).map Prod.fst := by
  constructor
  · intro hcontains
    rcases (hlinked.hasIssued_edit edit).mp (hasIssued_of_contains hcontains) with hissued | hnew
    · left
      obtain ⟨token, hget⟩ := contains_iff_get?.mp hcontains
      rw [hlinked.get?_edit hissued] at hget
      split at hget
      · cases hget
      · rename_i hkept
        obtain ⟨old, hold, _⟩ := Option.map_eq_some_iff.mp hget
        exact ⟨contains_iff_get?.mpr ⟨old, hold⟩, Bool.eq_false_iff.mpr hkept⟩
    · exact Or.inr hnew
  · rintro (⟨hcontains, hkept⟩ | hnew)
    · obtain ⟨token, hget⟩ := contains_iff_get?.mp hcontains
      refine contains_iff_get?.mpr ⟨edit.rewrite handle token, ?_⟩
      rw [hlinked.get?_edit (hasIssued_of_contains hcontains), hkept, hget]
      rfl
    · obtain ⟨entry, hentry, rfl⟩ := List.mem_map.mp hnew
      exact contains_iff_get?.mpr ⟨entry.2, hlinked.get?_issued hentry⟩

/-- A new list knows the handles of its tokens. -/
theorem contains_ofTexts (tag : Nat) (texts : List String) :
    (ofTexts tag texts).contains handle = true ↔
      handle ∈ ((empty tag).issuedTexts texts).map Prod.fst := by
  constructor
  · intro hcontains
    have hissued := ((linked_empty tag).hasIssued_extend texts).mp (hasIssued_of_contains hcontains)
    have hnone : ¬ (empty tag).HasIssued handle := by simp [HasIssued, uses, empty]
    exact hissued.resolve_left hnone
  · intro hmem
    obtain ⟨entry, hentry, rfl⟩ := List.mem_map.mp hmem
    exact contains_iff_get?.mpr ⟨entry.2, (linked_empty tag).get?_issuedTexts hentry⟩

end TokenList

namespace Shelf

/-- What can be done with lists that may be copied. -/
inductive Change where
  | operate (operation : Operation)
  | copy (source : Nat)

/-- The edits that a change makes at a position. -/
def Change.editsAt (position : Nat) : Change → List TokenList.Edit
  | .operate operation => Shelf.editsAt position [operation]
  | .copy _ => []

/-- Copying where there is no list does nothing. -/
def change (shelf : Shelf) : Change → Shelf
  | .operate operation => shelf.perform operation
  | .copy source =>
      match shelf.list? source with
      | some list => (shelf.copy list).2
      | none => shelf

/-- The shelf after the changes of a log, which has the last change first. -/
def ofLog : List Change → Shelf
  | [] => {}
  | change :: earlier => (ofLog earlier).change change

/-- How many lists have been created in a log. -/
def created : List Change → Nat
  | [] => 0
  | .operate (.create _) :: earlier => created earlier + 1
  | .operate (.edit _ _) :: earlier | .copy _ :: earlier => created earlier

/-- Where a list stood before a change.  A new list stood nowhere, and a copy stood where its
original stands. -/
def origin? (shelf : Shelf) (position : Nat) : Change → Option Nat
  | .operate (.create _) => if position = shelf.lists.size then none else some position
  | .operate (.edit _ _) => some position
  | .copy source => if position = shelf.lists.size then some source else some position

/-- The handles that a change issues at a position, with the tokens. -/
def issuedBy (shelf : Shelf) (position : Nat) : Change → List (Handle × Token)
  | .operate operation => shelf.issued position operation
  | .copy _ => []

/-- The handles that the list at a position has issued, or has taken over by being copied, and
whose tokens no edit has removed since.  Each is numbered by the changes made before the one
that issued it. -/
def known : List Change → Nat → List (Nat × Handle)
  | [], _ => []
  | change :: earlier, position =>
      let old := match (ofLog earlier).origin? position change with
        | some source => known earlier source
        | none => []
      (old.filter fun entry =>
          (change.editsAt position).all fun edit => !edit.removes entry.2) ++
        ((ofLog earlier).issuedBy position change).map fun entry => (earlier.length, entry.1)

/-- Where the list at a position stood before the later changes: the list itself, or the one
that it has been copied from, directly or through other copies. -/
def ancestor? (earlier : List Change) : List Change → Nat → Option Nat
  | [], position => some position
  | change :: later, position =>
      ((ofLog (later ++ earlier)).origin? position change).bind (ancestor? earlier later)

/-- The number of changes made before the creation of the list that the list at a position goes
back to. -/
def root? : List Change → Nat → Option Nat
  | [], _ => none
  | change :: earlier, position =>
      match (ofLog earlier).origin? position change with
      | some source => root? earlier source
      | none => some earlier.length

variable {shelf : Shelf} {position : Nat} {handle : Handle} {list : TokenList}

theorem list?_copy (shelf : Shelf) (list : TokenList) (position : Nat) :
    (shelf.copy list).2.list? position =
      if position = shelf.lists.size then some list else shelf.list? position :=
  Array.getElem?_push

theorem ne_size_of_list? (hlist : shelf.list? position = some list) :
    position ≠ shelf.lists.size := by
  rintro rfl
  rw [list?_eq_none_iff.mpr (Nat.le_refl _)] at hlist
  cases hlist

/-- A list that is on the shelf after a change has just been created, or it is what the change
makes of the list that was there, or of the one it is a copy of. -/
theorem list?_change_cases {change : Change}
    (hlist : (shelf.change change).list? position = some list) :
    (∃ texts, change = .operate (.create texts) ∧ position = shelf.lists.size ∧
        list = .ofTexts shelf.nextTag.toNat texts) ∨
      ∃ source old, shelf.origin? position change = some source ∧
        shelf.list? source = some old ∧ list = old.editAll (change.editsAt position) ∧
        shelf.issuedBy position change = (change.editsAt position).flatMap old.issued := by
  cases change with
  | operate operation =>
      rcases list?_perform_cases hlist with ⟨texts, rfl, hposition, hnew⟩ | ⟨old, hold, hedit⟩
      · exact Or.inl ⟨texts, rfl, hposition, hnew⟩
      · right
        cases operation with
        | create texts =>
            have hposition := ne_size_of_list? hold
            exact ⟨position, old, if_neg hposition, hold, hedit, if_neg hposition⟩
        | edit other edit =>
            refine ⟨position, old, rfl, hold, hedit, ?_⟩
            by_cases hsame : other = position <;>
              simp [issuedBy, issued, Change.editsAt, editsAt, Operation.editAt?, hsame, hold]
  | copy source =>
      right
      rw [Shelf.change] at hlist
      split at hlist
      · rename_i original horiginal
        rw [list?_copy] at hlist
        split at hlist
        · rename_i hposition
          obtain rfl := Option.some.inj hlist
          exact ⟨source, original, if_pos hposition, horiginal, rfl, rfl⟩
        · rename_i hposition
          exact ⟨position, list, if_neg hposition, hlist, rfl, rfl⟩
      · exact ⟨position, list, if_neg (ne_size_of_list? hlist), hlist, rfl, rfl⟩

/-- At most one edit is made by a change. -/
theorem Change.editsAt_cases (position : Nat) (change : Change) :
    change.editsAt position = [] ∨ ∃ edit, change.editsAt position = [edit] := by
  cases change with
  | copy source => exact Or.inl rfl
  | operate operation =>
      cases hedit : operation.editAt? position with
      | none => exact Or.inl (by simp [Change.editsAt, Shelf.editsAt, hedit])
      | some edit => exact Or.inr ⟨edit, by simp [Change.editsAt, Shelf.editsAt, hedit]⟩

/-- The links of every list are in order, whatever has been copied. -/
theorem linked_ofLog (log : List Change) :
    ∀ position list, (ofLog log).list? position = some list → list.Linked := by
  induction log with
  | nil =>
      intro position list hlist
      simp [ofLog, list?] at hlist
  | cons change earlier ih =>
      intro position list hlist
      rcases list?_change_cases hlist with ⟨texts, _, _, rfl⟩ | ⟨source, old, _, hold, rfl, _⟩
      · exact TokenList.linked_ofTexts _ _
      · exact (ih source old hold).editAll _

theorem nextTag_change (shelf : Shelf) (change : Change) :
    (shelf.change change).nextTag =
      match change with
      | .operate (.create _) => shelf.nextTag + 1
      | _ => shelf.nextTag := by
  cases change with
  | operate operation =>
      cases operation with
      | create texts => rfl
      | edit other edit =>
          simp only [change, perform]
          split <;> rfl
  | copy source =>
      simp only [change]
      split <;> rfl

/-- The tag of the next new list is the number of those created so far, counted with 32 bits. -/
theorem nextTag_ofLog (log : List Change) : (ofLog log).nextTag = .ofNat (created log) := by
  induction log with
  | nil => rfl
  | cons change earlier ih =>
      rw [ofLog, nextTag_change, ih]
      rcases change with (texts | ⟨position, edit⟩) | source
      · have hcreated : created (.operate (.create texts) :: earlier) = created earlier + 1 := rfl
        rw [hcreated, UInt32.ofNat_add]
        rfl
      · rfl
      · rfl

theorem created_cons_le (change : Change) (earlier : List Change) :
    created earlier ≤ created (change :: earlier) := by
  rcases change with (texts | ⟨position, edit⟩) | source
  · exact Nat.le_succ _
  · exact Nat.le_refl _
  · exact Nat.le_refl _

/-- As long as the tags have not come round, the next new list has a tag of its own. -/
theorem toNat_nextTag_ofLog {log : List Change} (hcreated : created log < Handle.bound) :
    (ofLog log).nextTag.toNat = created log := by
  rw [nextTag_ofLog]
  exact UInt32.toNat_ofNat_of_lt' hcreated

theorem tag_lt_created {log : List Change} (hcreated : created log ≤ Handle.bound)
    (hlist : (ofLog log).list? position = some list) : list.tag < created log := by
  induction log generalizing position list with
  | nil => simp [ofLog, list?] at hlist
  | cons change earlier ih =>
      have hless := created_cons_le change earlier
      rcases list?_change_cases hlist with ⟨texts, rfl, _, rfl⟩ | ⟨source, old, _, hold, rfl, _⟩
      · have hnew : created (.operate (.create texts) :: earlier) = created earlier + 1 := rfl
        rw [TokenList.ofTexts, TokenList.extend_tag, hnew]
        have htag : (ofLog earlier).nextTag.toNat = created earlier :=
          toNat_nextTag_ofLog (by omega)
        exact Nat.lt_succ_of_le (Nat.le_of_eq htag)
      · rw [TokenList.editAll_tag]
        exact Nat.lt_of_lt_of_le (ih (Nat.le_trans hless hcreated) hold) hless

/-- A list resolves the handles that it knows and no others. -/
theorem contains_iff_known (log : List Change)
    (hlist : (ofLog log).list? position = some list) (handle : Handle) :
    list.contains handle = true ↔ ∃ moment, (moment, handle) ∈ known log position := by
  induction log generalizing position list with
  | nil => simp [ofLog, list?] at hlist
  | cons change earlier ih =>
      rcases list?_change_cases hlist with
        ⟨texts, rfl, hposition, rfl⟩ | ⟨source, old, horigin, hold, rfl, hissued⟩
      · have hcreate : (ofLog earlier).origin? position (.operate (.create texts)) = none :=
          if_pos hposition
        rw [TokenList.contains_ofTexts, known, hcreate]
        simp [issuedBy, issued, hposition]
      · rw [known, horigin, hissued]
        rcases change.editsAt_cases position with hnone | ⟨edit, hedit⟩
        · rw [hnone]
          simpa [TokenList.editAll] using ih hold
        · have hlinked := linked_ofLog earlier source old hold
          rw [hedit, TokenList.editAll, List.foldl_cons, List.foldl_nil,
            hlinked.contains_edit, ih hold]
          simp [exists_or]

/-- Handles are numbered by changes that have been made. -/
theorem lt_length_of_mem_known {log : List Change} {entry : Nat × Handle}
    (hmem : entry ∈ known log position) : entry.1 < log.length := by
  induction log generalizing position with
  | nil => cases hmem
  | cons change earlier ih =>
      rw [known, List.mem_append] at hmem
      rw [List.length_cons]
      rcases hmem with hold | hnew
      · have hold := (List.mem_filter.mp hold).1
        split at hold
        · exact Nat.lt_succ_of_lt (ih hold)
        · cases hold
      · obtain ⟨issued, _, rfl⟩ := List.mem_map.mp hnew
        exact Nat.lt_succ_self _

/-- An operation issues handles at one position only. -/
theorem eq_of_mem_issued {operation : Operation} {other : Nat} {first second : Handle × Token}
    (hfirst : first ∈ shelf.issued position operation)
    (hsecond : second ∈ shelf.issued other operation) : position = other := by
  cases operation with
  | create texts =>
      rw [issued] at hfirst hsecond
      split at hfirst
      · split at hsecond
        · rename_i hposition hother
          rw [hposition, hother]
        · cases hsecond
      · cases hfirst
  | edit changed edit =>
      rw [issued] at hfirst hsecond
      split at hfirst
      · split at hsecond
        · rename_i hposition hother
          rw [← hposition, hother]
        · cases hsecond
      · cases hfirst

/-- A list that knows a handle since a certain operation goes back to the list that the
operation was made on. -/
theorem ancestor?_of_known {earlier later : List Change} {operation : Operation} {source : Nat}
    {entry : Handle × Token} (hissued : entry ∈ (ofLog earlier).issued source operation)
    (hknown : (earlier.length, handle) ∈ known (later ++ .operate operation :: earlier) position) :
    ancestor? (.operate operation :: earlier) later position = some source := by
  induction later generalizing position with
  | nil =>
      rw [List.nil_append, known, List.mem_append] at hknown
      rcases hknown with hold | hnew
      · have hold := (List.mem_filter.mp hold).1
        split at hold
        · exact absurd (lt_length_of_mem_known hold) (Nat.lt_irrefl _)
        · cases hold
      · obtain ⟨other, hother, _⟩ := List.mem_map.mp hnew
        rw [ancestor?, eq_of_mem_issued hother hissued]
  | cons change later ih =>
      rw [List.cons_append, known, List.mem_append] at hknown
      rcases hknown with hold | hnew
      · have hold := (List.mem_filter.mp hold).1
        split at hold
        · rename_i origin horigin
          rw [ancestor?, horigin]
          exact ih hold
        · cases hold
      · obtain ⟨_, _, hmoment⟩ := List.mem_map.mp hnew
        have hlength := congrArg Prod.fst hmoment
        simp only [List.length_append, List.length_cons] at hlength
        omega

/-- A list that has just been created has a new tag, and every other one has the tag of the list
that it goes back to. -/
theorem list?_change_tag {change : Change}
    (hlist : (shelf.change change).list? position = some list) :
    position = shelf.lists.size ∧ (∃ texts, change = .operate (.create texts)) ∧
        list.tag = shelf.nextTag.toNat ∨
      ∃ source old, shelf.origin? position change = some source ∧
        shelf.list? source = some old ∧ list.tag = old.tag := by
  rcases list?_change_cases hlist with
    ⟨texts, hchange, hposition, hnew⟩ | ⟨source, old, horigin, hold, hedit, _⟩
  · refine Or.inl ⟨hposition, ⟨texts, hchange⟩, ?_⟩
    rw [hnew, TokenList.ofTexts, TokenList.extend_tag]
    rfl
  · refine Or.inr ⟨source, old, horigin, hold, ?_⟩
    rw [hedit, TokenList.editAll_tag]

/-- A list that is created before the tags have come round has another tag than those before. -/
theorem tag_ne_nextTag {log : List Change} {texts : List String}
    (hcreated : created (.operate (.create texts) :: log) ≤ Handle.bound)
    (hlist : (ofLog log).list? position = some list) : list.tag ≠ (ofLog log).nextTag.toNat := by
  have hnew : created log + 1 ≤ Handle.bound := hcreated
  rw [toNat_nextTag_ofLog hnew]
  exact Nat.ne_of_lt (tag_lt_created (Nat.le_of_succ_le hnew) hlist)

/-- As long as the tags have not come round, lists with one tag go back to one list. -/
theorem root?_eq_of_tag_eq {log : List Change} {other : Nat} {first second : TokenList}
    (hcreated : created log ≤ Handle.bound) (hfirst : (ofLog log).list? position = some first)
    (hsecond : (ofLog log).list? other = some second) (htag : first.tag = second.tag) :
    root? log position = root? log other := by
  induction log generalizing position other first second with
  | nil => simp [ofLog, list?] at hfirst
  | cons change earlier ih =>
      rcases list?_change_tag hfirst with
          ⟨hposition, hcreation, hnew⟩ | ⟨source, old, horigin, hold, hsame⟩ <;>
        rcases list?_change_tag hsecond with
          ⟨hposition', hcreation', hnew'⟩ | ⟨source', old', horigin', hold', hsame'⟩
      · rw [hposition, hposition']
      · obtain ⟨texts, rfl⟩ := hcreation
        exact absurd (by rw [← hsame', ← htag, hnew]) (tag_ne_nextTag hcreated hold')
      · obtain ⟨texts, rfl⟩ := hcreation'
        exact absurd (by rw [← hsame, htag, hnew']) (tag_ne_nextTag hcreated hold)
      · rw [root?, root?, horigin, horigin']
        have hearlier := Nat.le_trans (created_cons_le change earlier) hcreated
        exact ih hearlier hold hold' (by rw [← hsame, ← hsame', htag])

/-- A list stays at its position and keeps its tag. -/
theorem exists_list?_change (hlist : shelf.list? position = some list) (change : Change) :
    ∃ next, (shelf.change change).list? position = some next ∧ next.tag = list.tag := by
  cases change with
  | operate operation =>
      exact ⟨_, list?_perform hlist operation, TokenList.editAll_tag _ _⟩
  | copy source =>
      refine ⟨list, ?_, rfl⟩
      rw [Shelf.change]
      split
      · rw [list?_copy, if_neg (ne_size_of_list? hlist)]
        exact hlist
      · exact hlist

theorem exists_list?_later {log : List Change} (hlist : (ofLog log).list? position = some list)
    (later : List Change) :
    ∃ next, (ofLog (later ++ log)).list? position = some next ∧ next.tag = list.tag := by
  induction later with
  | nil => exact ⟨list, hlist, rfl⟩
  | cons change later ih =>
      obtain ⟨middle, hmiddle, htag⟩ := ih
      obtain ⟨next, hnext, hsame⟩ := exists_list?_change hmiddle change
      exact ⟨next, hnext, hsame.trans htag⟩

/-- A handle that an operation has issued in a list has the tag that the list keeps. -/
theorem exists_list?_of_issued {earlier : List Change} {operation : Operation} {source : Nat}
    {entry : Handle × Token} (hissued : entry ∈ (ofLog earlier).issued source operation)
    (later : List Change) :
    ∃ owner, (ofLog (later ++ .operate operation :: earlier)).list? source = some owner ∧
      owner.tag = entry.1.list := by
  obtain ⟨owner, howner, hget⟩ := get?_issued (linked_ofLog earlier) hissued
  have hlog : (ofLog (.operate operation :: earlier)).list? source = some owner := howner
  obtain ⟨next, hnext, htag⟩ := exists_list?_later hlog later
  obtain ⟨node, hnode, _⟩ := Option.map_eq_some_iff.mp hget
  have hlist := (TokenList.hasIssued_of_contains (TokenList.contains_iff.mpr ⟨node, hnode⟩)).1
  exact ⟨next, hnext, htag.trans hlist.symm⟩

/-- To a list that was not copied from another list since that one issued a handle, the handle
is foreign, except where the list itself, or one that it was copied from, has issued the same
handle at another time.  As long as the tags have not come round, that is possible only if both
lists go back to one. -/
theorem forgets_of_issued_apart (earlier : List Change) (operation : Operation)
    (later : List Change) {source position : Nat} {handle : Handle} {token : Token}
    {list : TokenList}
    (hissued : (handle, token) ∈ (ofLog earlier).issued source operation)
    (hlist : (ofLog (later ++ .operate operation :: earlier)).list? position = some list)
    (hapart : ancestor? (.operate operation :: earlier) later position ≠ some source) :
    (list.Forgets handle ↔ ¬ ∃ moment, moment ≠ earlier.length ∧
        (moment, handle) ∈ known (later ++ .operate operation :: earlier) position) ∧
      (created (later ++ .operate operation :: earlier) ≤ Handle.bound →
        root? (later ++ .operate operation :: earlier) position ≠
          root? (later ++ .operate operation :: earlier) source → list.Forgets handle) := by
  constructor
  · rw [TokenList.forgets_iff_not_contains, contains_iff_known _ hlist, not_iff_not]
    constructor
    · rintro ⟨moment, hknown⟩
      refine ⟨moment, ?_, hknown⟩
      rintro rfl
      exact hapart (ancestor?_of_known hissued hknown)
    · rintro ⟨moment, _, hknown⟩
      exact ⟨moment, hknown⟩
  · intro hcreated hroot
    obtain ⟨owner, howner, htag⟩ := exists_list?_of_issued hissued later
    apply TokenList.forgets_of_tag_ne
    rw [← htag]
    exact fun hsame => hroot (root?_eq_of_tag_eq hcreated hlist howner hsame.symm)

/-- The original issues a handle after it was copied; the copy, which has issued one handle of
its own by then, does not know it. -/
theorem forgets_of_issued_apart_copied :
    let earlier : List Change := [.operate (.edit 1 ⟨.append "y", rfl⟩), .copy 0,
      .operate (.create ["a"])]
    let operation : Operation := .edit 0 ⟨.extend ["x", "z"], rfl⟩
    ∃ list, (⟨0, 2, 0⟩, ⟨"z"⟩) ∈ (ofLog earlier).issued 0 operation ∧
      (ofLog ([] ++ .operate operation :: earlier)).list? 1 = some list ∧
      ancestor? (.operate operation :: earlier) [] 1 ≠ some 0 ∧ list.Forgets ⟨0, 2, 0⟩ := by
  intro earlier operation
  have hissued : ((⟨0, 2, 0⟩, ⟨"z"⟩) : Handle × Token) ∈ (ofLog earlier).issued 0 operation := by
    decide
  have hapart : ancestor? (.operate operation :: earlier) [] 1 ≠ some 0 := by decide
  obtain ⟨list, hlist⟩ : ∃ list,
      (ofLog ([] ++ .operate operation :: earlier)).list? 1 = some list := ⟨_, rfl⟩
  have hknown : known ([] ++ .operate operation :: earlier) 1 =
      [(0, ⟨0, 0, 0⟩), (2, ⟨0, 1, 0⟩)] := by decide
  refine ⟨list, hissued, hlist, hapart, ?_⟩
  rw [(forgets_of_issued_apart earlier operation [] hissued hlist hapart).1, hknown]
  simp

/-- After it was copied a list issues a handle, and so does the copy: it is the same handle, and
by the handle of the one list the copy finds and erases its own token. -/
theorem not_forgets_of_copied :
    let earlier : List Change := [.copy 0, .operate (.create [])]
    let operation : Operation := .edit 0 ⟨.append "x", rfl⟩
    let later : List Change := [.operate (.edit 1 ⟨.append "y", rfl⟩)]
    (⟨0, 0, 0⟩, ⟨"x"⟩) ∈ (ofLog earlier).issued 0 operation ∧
      ancestor? (.operate operation :: earlier) later 1 ≠ some 0 ∧
      ∃ list, (ofLog (later ++ .operate operation :: earlier)).list? 1 = some list ∧
        list.text? ⟨0, 0, 0⟩ = some "y" ∧ (list.erase ⟨0, 0, 0⟩).1.toOption = some ⟨"y"⟩ ∧
        ¬ list.Forgets ⟨0, 0, 0⟩ := by
  refine ⟨by decide, by decide, _, rfl, by decide, by decide, ?_⟩
  intro hforgets
  exact absurd hforgets.contains_eq (by decide)

end Shelf

end LineLexer
