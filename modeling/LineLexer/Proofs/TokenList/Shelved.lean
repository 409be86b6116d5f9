import LineLexer.TokenList.Shelf
import LineLexer.Proofs.TokenList.Lifetime
/-!
Handles among several lists.

The lists on a shelf are created one after the other and edited in any order.  A list goes
through the edits that are made at its position and no others, and its tag is its position,
counted with 32 bits, as long as no list is copied.  So what a handle names is a matter of the
edits at one position, and to a list at another position the handle means nothing unless the
tags have come round to its tag between the two.
-/

namespace LineLexer

namespace Shelf

/-- What can be done with lists of which none is copied. -/
inductive Operation where
  | create (texts : List String)
  | edit (position : Nat) (edit : TokenList.Edit)

/-- The edit that an operation makes at a position. -/
def Operation.editAt? (position : Nat) : Operation → Option TokenList.Edit
  | .create _ => none
  | .edit other change => if other = position then some change else none

/-- The edits that are made at a position, the first one first. -/
def editsAt (position : Nat) (history : List Operation) : List TokenList.Edit :=
  history.filterMap (Operation.editAt? position)

/-- An edit where there is no list does nothing. -/
def perform (shelf : Shelf) : Operation → Shelf
  | .create texts => (shelf.create texts).2
  | .edit position edit =>
      match shelf.list? position with
      | some list => shelf.replace position (list.edit edit)
      | none => shelf

/-- The shelf after some operations, the first one first. -/
def after (shelf : Shelf) (history : List Operation) : Shelf :=
  history.foldl perform shelf

/-- The handles that an operation issues at a position, with the tokens. -/
def issued (shelf : Shelf) (position : Nat) : Operation → List (Handle × Token)
  | .create texts =>
      if position = shelf.lists.size then
        (TokenList.empty shelf.nextTag.toNat).issuedTexts texts
      else []
  | .edit other edit =>
      if other = position then
        match shelf.list? position with
        | some list => list.issued edit
        | none => []
      else []

/-- The handles that are issued at a position in a history, with the tokens. -/
def issuedIn (shelf : Shelf) (position : Nat) : List Operation → List (Handle × Token)
  | [] => []
  | operation :: later =>
      shelf.issued position operation ++ (shelf.perform operation).issuedIn position later

/-- The list at a position has put a token under the handle at some time. -/
def HasIssued (shelf : Shelf) (position : Nat) (handle : Handle) : Prop :=
  ∃ list, shelf.list? position = some list ∧ list.HasIssued handle

/-- The lists are numbered by their tags, and their links are in order. -/
structure Numbered (shelf : Shelf) : Prop where
  nextTag_eq : shelf.nextTag = .ofNat shelf.lists.size
  tag_eq : ∀ position list, shelf.list? position = some list →
    list.tag = position % Handle.bound
  linked : ∀ position list, shelf.list? position = some list → list.Linked

theorem numbered_empty : ({} : Shelf).Numbered where
  nextTag_eq := rfl
  tag_eq position list hlist := by simp [list?] at hlist
  linked position list hlist := by simp [list?] at hlist

variable {shelf : Shelf} {position : Nat} {handle : Handle}

theorem list?_create (shelf : Shelf) (texts : List String) (position : Nat) :
    (shelf.create texts).2.list? position =
      if position = shelf.lists.size then some (.ofTexts shelf.nextTag.toNat texts)
      else shelf.list? position :=
  Array.getElem?_push

theorem list?_replace (shelf : Shelf) (other position : Nat) (list : TokenList) :
    (shelf.replace other list).list? position =
      if other = position then (shelf.list? position).map fun _ => list
      else shelf.list? position := by
  rw [list?, replace, Array.getElem?_setIfInBounds, list?]
  split
  · rename_i hsame
    subst hsame
    by_cases hbound : other < shelf.lists.size <;> simp [hbound]
  · rfl

/-- An edit changes the list at its position. -/
theorem list?_edit (shelf : Shelf) (other position : Nat) (edit : TokenList.Edit) :
    (shelf.perform (.edit other edit)).list? position =
      if other = position then (shelf.list? position).map fun list => list.edit edit
      else shelf.list? position := by
  unfold perform
  dsimp only
  split
  · rename_i list hlist
    rw [list?_replace]
    split
    · rename_i hsame
      rw [← hsame, hlist]
      rfl
    · rfl
  · rename_i hnone
    split
    · rename_i hsame
      rw [← hsame, hnone]
      rfl
    · rfl

theorem size_perform (shelf : Shelf) (operation : Operation) :
    (shelf.perform operation).lists.size =
      match operation with
      | .create _ => shelf.lists.size + 1
      | .edit _ _ => shelf.lists.size := by
  cases operation with
  | create texts => exact Array.size_push _
  | edit other edit =>
      simp only [perform]
      split <;> simp [replace]

theorem after_append (shelf : Shelf) (before later : List Operation) :
    shelf.after (before ++ later) = (shelf.after before).after later :=
  List.foldl_append

/-- There are lists at the positions below the number of lists. -/
theorem list?_eq_none_iff : shelf.list? position = none ↔ shelf.lists.size ≤ position :=
  Array.getElem?_eq_none_iff

/-- A list that is on the shelf goes through the edits that are made at its position. -/
theorem list?_perform {list : TokenList} (hlist : shelf.list? position = some list)
    (operation : Operation) :
    (shelf.perform operation).list? position =
      some (list.editAll (editsAt position [operation])) := by
  cases operation with
  | create texts =>
      have hbound : position ≠ shelf.lists.size := by
        rintro rfl
        rw [list?_eq_none_iff.mpr (Nat.le_refl _)] at hlist
        cases hlist
      rw [perform, list?_create, if_neg hbound]
      exact hlist
  | edit other edit =>
      rw [list?_edit, hlist]
      split
      · rename_i hsame
        simp [editsAt, Operation.editAt?, hsame, TokenList.editAll]
      · rename_i hother
        simp [editsAt, Operation.editAt?, hother, TokenList.editAll]

theorem list?_after {list : TokenList} (hlist : shelf.list? position = some list)
    (later : List Operation) :
    (shelf.after later).list? position = some (list.editAll (editsAt position later)) := by
  induction later generalizing shelf list with
  | nil => exact hlist
  | cons operation later ih =>
      have hsplit : editsAt position (operation :: later) =
          editsAt position [operation] ++ editsAt position later := by
        rw [editsAt, editsAt, editsAt, ← List.filterMap_append, List.singleton_append]
      rw [hsplit, TokenList.editAll, List.foldl_append]
      exact ih (list?_perform hlist operation)

/-- A list that an operation leaves at a position has just been created, or it is what the
operation makes of the list that was there. -/
theorem list?_perform_cases {list : TokenList} {operation : Operation}
    (hlist : (shelf.perform operation).list? position = some list) :
    (∃ texts, operation = .create texts ∧ position = shelf.lists.size ∧
        list = .ofTexts shelf.nextTag.toNat texts) ∨
      ∃ old, shelf.list? position = some old ∧
        list = old.editAll (editsAt position [operation]) := by
  cases hold : shelf.list? position with
  | some old =>
      rw [list?_perform hold, Option.some.injEq] at hlist
      exact Or.inr ⟨old, rfl, hlist.symm⟩
  | none =>
      cases operation with
      | create texts =>
          rw [perform, list?_create, hold] at hlist
          split at hlist
          · rename_i hposition
            exact Or.inl ⟨texts, rfl, hposition, (Option.some.inj hlist).symm⟩
          · cases hlist
      | edit other edit =>
          rw [list?_edit, hold] at hlist
          split at hlist <;> cases hlist

theorem Numbered.perform (hshelf : shelf.Numbered) (operation : Operation) :
    (shelf.perform operation).Numbered where
  nextTag_eq := by
    rw [size_perform]
    cases operation with
    | create texts =>
        have hnext : (shelf.perform (.create texts)).nextTag = shelf.nextTag + 1 := rfl
        rw [hnext, hshelf.nextTag_eq, UInt32.ofNat_add]
        rfl
    | edit other edit =>
        have htag : (shelf.perform (.edit other edit)).nextTag = shelf.nextTag := by
          unfold Shelf.perform
          dsimp only
          split <;> rfl
        exact htag.trans hshelf.nextTag_eq
  tag_eq position list hlist := by
    rcases list?_perform_cases hlist with ⟨texts, _, hposition, rfl⟩ | ⟨old, hold, rfl⟩
    · rw [TokenList.ofTexts, TokenList.extend_tag, hposition, hshelf.nextTag_eq]
      exact UInt32.toNat_ofNat'
    · rw [TokenList.editAll_tag]
      exact hshelf.tag_eq position old hold
  linked position list hlist := by
    rcases list?_perform_cases hlist with ⟨texts, _, _, rfl⟩ | ⟨old, hold, rfl⟩
    · exact TokenList.linked_ofTexts _ texts
    · exact (hshelf.linked position old hold).editAll _

theorem Numbered.after (hshelf : shelf.Numbered) (history : List Operation) :
    (shelf.after history).Numbered := by
  induction history generalizing shelf with
  | nil => exact hshelf
  | cons operation later ih => exact ih (hshelf.perform operation)

/-- No handle is issued a second time, neither later nor by the same operation. -/
theorem Numbered.issued_fresh (hshelf : shelf.Numbered) (position : Nat)
    (operation : Operation) :
    (∀ entry ∈ shelf.issued position operation, ¬ shelf.HasIssued position entry.1) ∧
      ((shelf.issued position operation).map Prod.fst).Nodup := by
  cases operation with
  | create texts =>
      rw [issued]
      split
      · rename_i hposition
        have hnone : shelf.list? position = none :=
          list?_eq_none_iff.mpr (Nat.le_of_eq hposition.symm)
        refine ⟨?_, ((TokenList.linked_empty _).issuedTexts_fresh texts).2⟩
        rintro entry _ ⟨list, hlist, _⟩
        rw [hnone] at hlist
        cases hlist
      · simp
  | edit other edit =>
      rw [issued]
      split
      · split
        · rename_i list hlist
          obtain ⟨hfresh, hnodup⟩ := (hshelf.linked position list hlist).issued_fresh edit
          refine ⟨?_, hnodup⟩
          rintro entry hmem ⟨found, hfound, hissued⟩
          rw [hlist, Option.some.injEq] at hfound
          subst hfound
          exact hfresh entry hmem hissued
        · simp
      · simp

/-- Where the links of all lists are in order, the handles that an operation issues name their
tokens. -/
theorem get?_issued
    (hlinked : ∀ position list, shelf.list? position = some list → list.Linked)
    {operation : Operation} {entry : Handle × Token}
    (hmem : entry ∈ shelf.issued position operation) :
    ∃ list, (shelf.perform operation).list? position = some list ∧
      list.get? entry.1 = some entry.2 := by
  cases operation with
  | create texts =>
      rw [issued] at hmem
      split at hmem
      · rename_i hposition
        rw [Shelf.perform, list?_create, if_pos hposition]
        exact ⟨_, rfl, (TokenList.linked_empty _).get?_issuedTexts hmem⟩
      · cases hmem
  | edit other edit =>
      rw [issued] at hmem
      split at hmem
      · rename_i hsame
        split at hmem
        · rename_i list hlist
          rw [list?_edit, if_pos hsame, hlist]
          exact ⟨_, rfl, (hlinked position list hlist).get?_issued hmem⟩
        · cases hmem
      · cases hmem

theorem Numbered.get?_issued (hshelf : shelf.Numbered) {operation : Operation}
    {entry : Handle × Token} (hmem : entry ∈ shelf.issued position operation) :
    ∃ list, (shelf.perform operation).list? position = some list ∧
      list.get? entry.1 = some entry.2 :=
  Shelf.get?_issued hshelf.linked hmem

/-- A handle that has been issued stays issued. -/
theorem Numbered.hasIssued_after (hshelf : shelf.Numbered)
    (hissued : shelf.HasIssued position handle) (later : List Operation) :
    (shelf.after later).HasIssued position handle := by
  obtain ⟨list, hlist, hissued⟩ := hissued
  exact ⟨_, list?_after hlist later,
    (hshelf.linked position list hlist).hasIssued_editAll hissued _⟩

theorem HasIssued.of_get? {list : TokenList} {token : Token}
    (hlist : shelf.list? position = some list) (hget : list.get? handle = some token) :
    shelf.HasIssued position handle := by
  refine ⟨list, hlist, TokenList.hasIssued_of_contains ?_⟩
  obtain ⟨node, hnode, _⟩ := Option.map_eq_some_iff.mp hget
  exact TokenList.contains_iff.mpr ⟨node, hnode⟩

/-- The handles that are issued at a position differ from each other and from all handles
before. -/
theorem Numbered.issuedIn_fresh (hshelf : shelf.Numbered) (history : List Operation) :
    (∀ entry ∈ shelf.issuedIn position history, ¬ shelf.HasIssued position entry.1) ∧
      ((shelf.issuedIn position history).map Prod.fst).Nodup := by
  induction history generalizing shelf with
  | nil => simp [issuedIn]
  | cons operation later ih =>
      obtain ⟨hfirst, hfirstNodup⟩ := hshelf.issued_fresh position operation
      obtain ⟨hlater, hlaterNodup⟩ := ih (hshelf.perform operation)
      constructor
      · intro entry hmem hissued
        rcases List.mem_append.mp hmem with hentry | hentry
        · exact hfirst entry hentry hissued
        · exact hlater entry hentry (hshelf.hasIssued_after hissued [operation])
      · rw [issuedIn, List.map_append, List.nodup_append]
        refine ⟨hfirstNodup, hlaterNodup, ?_⟩
        rintro handle hhandle other hother rfl
        obtain ⟨entry, hentry, rfl⟩ := List.mem_map.mp hhandle
        obtain ⟨later, hmem, hsame⟩ := List.mem_map.mp hother
        obtain ⟨list, hlist, hget⟩ := hshelf.get?_issued hentry
        apply hlater later hmem
        rw [hsame]
        exact .of_get? hlist hget

/-- The life of a token in the list at a position: an operation puts it into the list under a
handle, and other operations come before and after. -/
structure Lifetime (position : Nat) (handle : Handle) (token : Token) (before : List Operation)
    (operation : Operation) (later : List Operation) : Prop where
  /-- No two tokens of the list are put under one handle. -/
  nodup : ((({} : Shelf).issuedIn position (before ++ operation :: later)).map Prod.fst).Nodup
  /-- The list has not given the handle to anyone before. -/
  fresh : ∀ early list, early <+: before →
    (({} : Shelf).after early).list? position = some list → ¬ list.Gives handle
  /-- The handle names the token until the token is removed. -/
  names : (∀ edit ∈ editsAt position later, edit.removes handle = false) →
    ∃ list, (({} : Shelf).after (before ++ operation :: later)).list? position = some list ∧
      list.get? handle =
        some ((editsAt position later).foldl (TokenList.Edit.rewrite handle) token)
  /-- Once the token is removed the handle names nothing. -/
  forgets : (∃ edit ∈ editsAt position later, edit.removes handle = true) →
    ∃ list, (({} : Shelf).after (before ++ operation :: later)).list? position = some list ∧
      list.Forgets handle
  /-- The handle never names anything in another list, unless the tags have come round between the
  two. -/
  foreign : ∀ moment other list, moment <+: before ++ operation :: later →
    other % Handle.bound ≠ position % Handle.bound →
    (({} : Shelf).after moment).list? other = some list → list.Forgets handle
  /-- The numbers in the handle are numbers of 32 bits. -/
  fits : handle.list < Handle.bound ∧ handle.index < Handle.bound ∧
    handle.generation < Handle.bound

/-- A token that is put into a list gets a handle that is new and names the token as long as
it is in the list, and nothing afterwards or in any list with another tag.  The list must have
stayed in bounds. -/
theorem lifetime_of_issued (before : List Operation) (operation : Operation)
    (later : List Operation) {position : Nat} {handle : Handle} {token : Token}
    (hissued : (handle, token) ∈ (({} : Shelf).after before).issued position operation)
    (hbounds : ∀ list, (({} : Shelf).after (before ++ operation :: later)).list? position =
      some list → list.InBounds) :
    Lifetime position handle token before operation later := by
  have hbefore := numbered_empty.after before
  obtain ⟨list, hlist, hget⟩ := hbefore.get?_issued hissued
  have hnamed := hbefore.perform operation
  have hlinked := hnamed.linked position list hlist
  obtain ⟨_, hfound, hlistIssued⟩ := HasIssued.of_get? hlist hget
  rw [hlist, Option.some.injEq] at hfound
  subst hfound
  have hafter : ({} : Shelf).after (before ++ operation :: later) =
      ((({} : Shelf).after before).perform operation).after later :=
    after_append _ before (operation :: later)
  constructor
  case nodup => exact (numbered_empty.issuedIn_fresh _).2
  case fresh =>
    -- What the list gave then it had issued, and the operation issues only new handles.
    rintro early old ⟨rest, rfl⟩ hold hgives
    have hearly := numbered_empty.after early
    have hcontains := (hearly.linked position old hold).contains_of_gives hgives
    have hpast := hearly.hasIssued_after
      ⟨old, hold, TokenList.hasIssued_of_contains hcontains⟩ rest
    rw [← after_append] at hpast
    exact (hbefore.issued_fresh position operation).1 _ hissued hpast
  case names =>
    intro hkept
    refine ⟨_, hafter ▸ list?_after hlist later, ?_⟩
    rw [hlinked.get?_editAll hlistIssued hkept, hget, Option.map_some]
  case forgets =>
    intro hremoved
    refine ⟨_, hafter ▸ list?_after hlist later, ?_⟩
    exact TokenList.forgets_of_get?_eq_none
      (hlinked.get?_editAll_of_removes hlistIssued hremoved)
  case foreign =>
    intro moment other foreign _ hother hforeign
    apply TokenList.forgets_of_tag_ne
    rw [hlistIssued.1, hnamed.tag_eq position list hlist,
      (numbered_empty.after moment).tag_eq other foreign hforeign]
    exact Ne.symm hother
  case fits =>
    have hlast := hafter ▸ list?_after hlist later
    have hstays := hlinked.hasIssued_editAll hlistIssued (editsAt position later)
    refine ⟨?_, hstays.fits (hbounds _ hlast)⟩
    rw [hlistIssued.1, hnamed.tag_eq position list hlist]
    exact Nat.mod_lt _ (Nat.two_pow_pos 32)

/-- A token in a slot that another token has left, changed once before it is erased. -/
theorem lifetime_of_issued_reused :
    let before : List Operation := [.create ["a", "b"], .edit 0 ⟨.advance, rfl⟩,
      .edit 0 ⟨.erase ⟨0, 1, 0⟩, rfl⟩, .create []]
    let operation : Operation := .edit 0 ⟨.append "c", rfl⟩
    let later : List Operation := [.edit 0 ⟨.setText ⟨0, 1, 1⟩ "d", rfl⟩,
      .edit 1 ⟨.append "e", rfl⟩, .edit 0 ⟨.erase ⟨0, 1, 1⟩, rfl⟩, .edit 0 ⟨.append "f", rfl⟩]
    (⟨0, 1, 1⟩, ⟨"c"⟩) ∈ (({} : Shelf).after before).issued 0 operation ∧
      (∀ list, (({} : Shelf).after (before ++ operation :: later)).list? 0 = some list →
        list.InBounds) ∧
      Lifetime 0 ⟨0, 1, 1⟩ ⟨"c"⟩ before operation later := by
  intro before operation later
  have hissued : ((⟨0, 1, 1⟩, ⟨"c"⟩) : Handle × Token) ∈
      (({} : Shelf).after before).issued 0 operation := by
    decide
  have hbounds : ∀ list, (({} : Shelf).after (before ++ operation :: later)).list? 0 = some list →
      list.InBounds := by
    have hall : ((({} : Shelf).after (before ++ operation :: later)).list? 0).all
        (fun list => decide list.InBounds) = true := by
      decide +kernel
    intro list hlist
    rw [hlist] at hall
    exact of_decide_eq_true hall
  exact ⟨hissued, hbounds, lifetime_of_issued before operation later hissued hbounds⟩

/-- Many lists without tokens are created one after the other. -/
theorem size_after_create (shelf : Shelf) (count : Nat) :
    (shelf.after (List.replicate count (.create []))).lists.size = shelf.lists.size + count := by
  induction count generalizing shelf with
  | zero => rfl
  | succ count ih =>
      have hfirst : (shelf.perform (.create [])).lists.size = shelf.lists.size + 1 :=
        size_perform shelf (.create [])
      have hlater := ih (shelf.perform (.create []))
      rw [hfirst] at hlater
      rw [List.replicate_succ]
      exact hlater.trans (by omega)

/-- The list that is created when the tags have come round has the tag of the first one. -/
theorem Numbered.list?_after_bound (hshelf : shelf.Numbered)
    (hsize : shelf.lists.size = Handle.bound) (edit : TokenList.Edit) :
    (shelf.after [.create [], .edit Handle.bound edit]).list? Handle.bound =
      some ((TokenList.empty 0).edit edit) := by
  have htag : shelf.nextTag.toNat = 0 := by
    rw [hshelf.nextTag_eq, hsize]
    rfl
  have hcreated : (shelf.perform (.create [])).list? Handle.bound = some (TokenList.empty 0) := by
    rw [Shelf.perform, list?_create, if_pos hsize.symm, htag]
    rfl
  rw [Shelf.after, List.foldl_cons, List.foldl_cons, List.foldl_nil, list?_edit, if_pos rfl,
    hcreated, Option.map_some]

/-- A list that is created when the tags have come round issues the first handle of the first list
for a token of its own. -/
theorem not_foreign_of_wrapped :
    let before : List Operation := [.create []]
    let operation : Operation := .edit 0 ⟨.append "x", rfl⟩
    let later := List.replicate (Handle.bound - 1) (Operation.create []) ++
      [.create [], .edit Handle.bound ⟨.append "y", rfl⟩]
    (⟨0, 0, 0⟩, ⟨"x"⟩) ∈ (({} : Shelf).after before).issued 0 operation ∧
      ∃ list, (({} : Shelf).after (before ++ operation :: later)).list? Handle.bound = some list ∧
        list.text? ⟨0, 0, 0⟩ = some "y" ∧ ¬ list.Forgets ⟨0, 0, 0⟩ := by
  intro before operation later
  have hlater : later = List.replicate (Handle.bound - 1) (Operation.create []) ++
      [.create [], .edit Handle.bound ⟨.append "y", rfl⟩] := rfl
  have hfirst : (({} : Shelf).after (before ++ [operation])).lists.size = 1 := rfl
  have hnumbered := (numbered_empty.after (before ++ [operation])).after
    (List.replicate (Handle.bound - 1) (.create []))
  have hbound : 1 ≤ Handle.bound := by decide
  have hsize := size_after_create (({} : Shelf).after (before ++ [operation])) (Handle.bound - 1)
  rw [hfirst, Nat.add_sub_of_le hbound] at hsize
  have hlast := hnumbered.list?_after_bound hsize ⟨.append "y", rfl⟩
  rw [hlater, List.append_cons, after_append, after_append]
  refine ⟨by decide, _, hlast, by decide, ?_⟩
  exact fun hforgets => absurd hforgets.contains_eq (by decide)

end Shelf

end LineLexer
