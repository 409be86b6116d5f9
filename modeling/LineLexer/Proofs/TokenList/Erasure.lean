import LineLexer.Proofs.TokenList.Copies
/-!
What erasing does to the rest of a list.

A token is erased by a handle that the list resolves.  The links to the token then lead past
it, to the token that stood behind it on the same side, and so do the end of the list and the
cursor if they were at it.  Every other handle names the token that it named, and no other list
is changed, not even a copy that shares the handles.  By any other handle nothing is erased and
nothing is changed.
-/

namespace LineLexer

namespace TokenList

/-- Where a link leads after a token has been taken out.  A link to the token leads past it. -/
def linkPast (handle : Handle) (beyond link : Option Handle) : Option Handle :=
  if link = some handle then beyond else link

/-- The list `rest` is `list` without the token that the handle names there. -/
structure LacksOnly (rest list : TokenList) (handle : Handle) : Prop where
  tag_eq : rest.tag = list.tag
  size_eq : rest.size + 1 = list.size
  entries_eq : rest.entries = without list.entries handle
  forgets : rest.Forgets handle
  get?_eq : ∀ other, other ≠ handle → rest.get? other = list.get? other
  next?_eq : ∀ other, other ≠ handle →
    rest.next? other = linkPast handle (list.next? handle) (list.next? other)
  prev?_eq : ∀ other, other ≠ handle →
    rest.prev? other = linkPast handle (list.prev? handle) (list.prev? other)
  head_eq : rest.head = linkPast handle (list.next? handle) list.head
  tail_eq : rest.tail = linkPast handle (list.prev? handle) list.tail
  cursor_eq : rest.cursor = linkPast handle (list.next? handle) list.cursor
  /-- The handle stays issued, and no other is issued. -/
  hasIssued_iff : ∀ other, rest.HasIssued other ↔ list.HasIssued other

section Links

variable {list : TokenList} {entries : List (Handle × Token)} {handle first second : Handle}
  (hholds : list.Holds entries)

include hholds

/-- A token is linked to the next one if the two stand side by side. -/
theorem Holds.next?_eq_some_iff :
    list.next? first = some second ↔
      ∃ front token later back, entries = front ++ (first, token) :: (second, later) :: back := by
  constructor
  · intro hnext
    obtain ⟨node, hnode, hlink⟩ := Option.bind_eq_some_iff.mp hnext
    obtain ⟨front, token, back, hsplit⟩ := exists_split_of_mem (hholds.mem_of_node first node hnode)
    simp only [hholds.node_of_split front first token back hsplit, Option.some.injEq] at hnode
    simp only [← hnode, Option.map_eq_some_iff] at hlink
    obtain ⟨entry, hentry, rfl⟩ := hlink
    obtain ⟨later, rfl⟩ := List.head?_eq_some_iff.mp hentry
    exact ⟨front, token, entry.2, later, hsplit⟩
  · rintro ⟨front, token, later, back, hsplit⟩
    simp [next?, hholds.node_of_split front first token _ hsplit]

theorem Holds.prev?_eq_some_iff :
    list.prev? second = some first ↔
      ∃ front token later back, entries = front ++ (first, token) :: (second, later) :: back := by
  constructor
  · intro hprev
    obtain ⟨node, hnode, hlink⟩ := Option.bind_eq_some_iff.mp hprev
    obtain ⟨front, token, back, hsplit⟩ :=
      exists_split_of_mem (hholds.mem_of_node second node hnode)
    simp only [hholds.node_of_split front second token back hsplit, Option.some.injEq] at hnode
    simp only [← hnode, Option.map_eq_some_iff] at hlink
    obtain ⟨entry, hentry, rfl⟩ := hlink
    obtain ⟨before, rfl⟩ := List.getLast?_eq_some_iff.mp hentry
    exact ⟨before, entry.2, token, back, by simp [hsplit]⟩
  · rintro ⟨front, token, later, back, hsplit⟩
    have hplace : entries = (front ++ [(first, token)]) ++ (second, later) :: back := by
      simp [hsplit]
    simp [prev?, hholds.node_of_split _ second later back hplace]

/-- The links of a list go both ways. -/
theorem Holds.prev?_eq_some_iff_next? :
    list.prev? second = some first ↔ list.next? first = some second := by
  rw [hholds.prev?_eq_some_iff, hholds.next?_eq_some_iff]

/-- Only the first token has none before it. -/
theorem Holds.prev?_eq_none_iff (hmem : handle ∈ entries.map Prod.fst) :
    list.prev? handle = none ↔ list.head = some handle := by
  obtain ⟨front, token, back, hsplit⟩ := exists_split_of_mem hmem
  have hfront := (not_mem_of_split hholds.nodup hsplit).1
  simp only [prev?, hholds.node_of_split front handle token back hsplit, Option.bind_some,
    hholds.head_eq]
  cases front with
  | nil => simp [hsplit]
  | cons entry front =>
      have hne : entry.1 ≠ handle := by
        rintro rfl
        apply hfront
        simp
      simp [hsplit, hne, List.getLast?_cons]

/-- Only the last token has none after it. -/
theorem Holds.next?_eq_none_iff (hmem : handle ∈ entries.map Prod.fst) :
    list.next? handle = none ↔ list.tail = some handle := by
  obtain ⟨front, token, back, hsplit⟩ := exists_split_of_mem hmem
  have hback := (not_mem_of_split hholds.nodup hsplit).2
  simp only [next?, hholds.node_of_split front handle token back hsplit, Option.bind_some,
    hholds.tail_eq]
  cases back with
  | nil => simp [hsplit]
  | cons entry back =>
      have hlast := getLast?_ne_of_not_mem hback
      simp only [hsplit, getLast?_append_cons_cons, hlast, List.head?_cons, Option.map_some,
        reduceCtorEq]

end Links

section Erase

variable {list : TokenList} {entries : List (Handle × Token)} {handle other : Handle} {node : Node}

/-- Erasing changes the links of the two tokens that were linked to the erased one. -/
theorem node?_erase (hnode : list.node? handle = some node) (hne : other ≠ handle) :
    (list.erase handle).2.node? other = (list.node? other).map fun found =>
      { found with
        next := if node.prev = some other then node.next else found.next
        prev := if node.next = some other then node.prev else found.prev } := by
  obtain ⟨rest, hrelease, herase⟩ := erase_of_node hnode
  rw [herase, node?_unlink, node?_release hrelease, if_neg hne]

/-- The front and the cursor move to the token after the erased one if they were at it, and the
end to the token before it. -/
theorem erase_ends (hnode : list.node? handle = some node) :
    (list.erase handle).2.head = (if node.prev = none then node.next else list.head) ∧
      (list.erase handle).2.tail = (if node.next = none then node.prev else list.tail) ∧
      (list.erase handle).2.cursor =
        (if list.cursor = some handle then node.next else list.cursor) ∧
      (list.erase handle).2.size = list.size - 1 := by
  obtain ⟨rest, hrelease, herase⟩ := erase_of_node hnode
  rw [herase, unlink_eq, release_eq hrelease]
  exact ⟨rfl, rfl, rfl, rfl⟩

variable (hholds : list.Holds entries)

include hholds

theorem Holds.next?_erase (hnode : list.node? handle = some node) (hne : other ≠ handle) :
    (list.erase handle).2.next? other =
      linkPast handle (list.next? handle) (list.next? other) := by
  have hbefore : node.prev = some other ↔ list.next? other = some handle := by
    rw [← hholds.prev?_eq_some_iff_next?, prev?, hnode, Option.bind_some]
  have hbeyond : list.next? handle = node.next := by simp [next?, hnode]
  rw [next?, node?_erase hnode hne, linkPast, hbeyond]
  simp only [← hbefore]
  cases hother : list.node? other with
  | some found => simp [next?, hother]
  | none =>
      have hapart : ¬ node.prev = some other := by simp [hbefore, next?, hother]
      simp [hapart, next?, hother]

theorem Holds.prev?_erase (hnode : list.node? handle = some node) (hne : other ≠ handle) :
    (list.erase handle).2.prev? other =
      linkPast handle (list.prev? handle) (list.prev? other) := by
  have hafter : node.next = some other ↔ list.prev? other = some handle := by
    rw [hholds.prev?_eq_some_iff_next?, next?, hnode, Option.bind_some]
  have hbeyond : list.prev? handle = node.prev := by simp [prev?, hnode]
  rw [prev?, node?_erase hnode hne, linkPast, hbeyond]
  simp only [← hafter]
  cases hother : list.node? other with
  | some found => simp [prev?, hother]
  | none =>
      have hapart : ¬ node.next = some other := by simp [hafter, prev?, hother]
      simp [hapart, prev?, hother]

/-- Erasing a token of a list takes out that token and no more. -/
theorem Holds.lacksOnly_erase (hmem : handle ∈ entries.map Prod.fst) :
    (list.erase handle).2.LacksOnly list handle := by
  obtain ⟨node, hnode⟩ := contains_iff.mp (hholds.contains_iff_mem.mpr hmem)
  obtain ⟨hhead, htail, hcursor, hsize⟩ := erase_ends hnode
  have hnext : list.next? handle = node.next := by simp [next?, hnode]
  have hprev : list.prev? handle = node.prev := by simp [prev?, hnode]
  constructor
  case tag_eq => exact erase_tag list handle
  case size_eq =>
    have hpos : 0 < entries.length := by
      simpa using List.length_pos_of_mem hmem
    rw [hsize, hholds.size_eq]
    omega
  case entries_eq => rw [entries_eq (hholds.erase hmem), entries_eq hholds]
  case forgets =>
    apply forgets_of_get?_eq_none
    rw [get?_erase, if_pos rfl]
  case get?_eq =>
    intro other hne
    rw [get?_erase, if_neg (Ne.symm hne)]
  case next?_eq => exact fun other hne => hholds.next?_erase hnode hne
  case prev?_eq => exact fun other hne => hholds.prev?_erase hnode hne
  case head_eq =>
    simp only [hhead, linkPast, ← hholds.prev?_eq_none_iff hmem, hnext, hprev]
  case tail_eq =>
    simp only [htail, linkPast, ← hholds.next?_eq_none_iff hmem, hnext, hprev]
  case cursor_eq => rw [hcursor, linkPast, hnext]
  case hasIssued_iff => exact fun other => hasIssued_erase list handle other

end Erase

/-- The answer of erasing is a token exactly if the handle names that token. -/
theorem erase_eq_ok_iff {list : TokenList} {handle : Handle} {token : Token} :
    (list.erase handle).1 = .ok token ↔ list.get? handle = some token := by
  cases hnode : list.node? handle with
  | some node =>
      obtain ⟨rest, _, herase⟩ := erase_of_node hnode
      simp [herase, get?, hnode]
  | none => simp [erase, release, get?, hnode]

end TokenList

namespace Shelf

variable {position : Nat} {list : TokenList}

/-- Of the lists on a shelf, copies among them, erasing changes one, and only if that list
resolves the handle.  Then the answer is the token as it is at the time, and the list lacks that
token and nothing else.  By a handle that the list does not resolve, for whatever reason, the
answer is an error that names the handle, and the list stays as it is in every respect. -/
theorem erase_exact (log : List Change) (hlist : (ofLog log).list? position = some list)
    (handle : Handle) :
    (∀ token, (list.erase handle).1 = .ok token ↔ list.get? handle = some token) ∧
      ((∃ token, (list.erase handle).1 = .ok token) ↔ list.contains handle = true) ∧
      (list.contains handle = false → list.erase handle =
        (.error (.invalidArgument ("token " ++ handle.text ++ " is not a member of this list")),
          list)) ∧
      (list.contains handle = true → (list.erase handle).2.LacksOnly list handle) ∧
      (∀ other, (ofLog (.operate (.edit position ⟨.erase handle, rfl⟩) :: log)).list? other =
        if position = other then some (list.erase handle).2 else (ofLog log).list? other) := by
  obtain ⟨tape, htape⟩ := linked_ofLog log position list hlist
  refine ⟨fun token => TokenList.erase_eq_ok_iff, ?_, ?_, ?_, ?_⟩
  · simp only [TokenList.contains_iff_get?, TokenList.erase_eq_ok_iff]
  · intro hcontains
    have hforgets : list.Forgets handle := by
      simp [TokenList.forgets_iff_not_contains, hcontains]
    exact hforgets.erase_eq
  · intro hcontains
    apply htape.holds.lacksOnly_erase
    exact htape.holds.contains_iff_mem.mp hcontains
  · intro other
    have hedit := list?_edit (ofLog log) position other ⟨.erase handle, rfl⟩
    by_cases hsame : position = other
    · simp only [← hsame, hlist] at hedit ⊢
      exact hedit
    · simp only [if_neg hsame] at hedit ⊢
      exact hedit

/-- In the copy of a list one of whose slots is in use for the second time, the cursor at it:
the handle of the earlier token is refused and that of the token erases it. -/
theorem erase_exact_copied :
    let log : List Change := [.operate (.edit 1 ⟨.advance, rfl⟩), .copy 0,
      .operate (.edit 0 ⟨.append "c", rfl⟩), .operate (.edit 0 ⟨.erase ⟨0, 1, 0⟩, rfl⟩),
      .operate (.create ["a", "b"])]
    ∃ list, (ofLog log).list? 1 = some list ∧ list.cursor = some ⟨0, 1, 1⟩ ∧
      list.erase ⟨0, 1, 0⟩ =
        (.error (.invalidArgument "token 0:1v0 is not a member of this list"), list) ∧
      (list.erase ⟨0, 1, 1⟩).1 = .ok ⟨"c"⟩ ∧
      (list.erase ⟨0, 1, 1⟩).2.LacksOnly list ⟨0, 1, 1⟩ := by
  intro log
  obtain ⟨list, hlist⟩ : ∃ list, (ofLog log).list? 1 = some list := ⟨_, rfl⟩
  have hfound : (ofLog log).list? 1 = some list → list.contains ⟨0, 1, 0⟩ = false ∧
      list.get? ⟨0, 1, 1⟩ = some ⟨"c"⟩ ∧ list.cursor = some ⟨0, 1, 1⟩ := by
    rintro ⟨⟩
    decide
  obtain ⟨hstale, hget, hcursor⟩ := hfound hlist
  obtain ⟨_, _, hrefused, _, _⟩ := erase_exact log hlist ⟨0, 1, 0⟩
  obtain ⟨hanswer, _, _, hlacks, _⟩ := erase_exact log hlist ⟨0, 1, 1⟩
  refine ⟨list, hlist, hcursor, ?_, (hanswer ⟨"c"⟩).mpr hget, ?_⟩
  · exact hrefused hstale
  · exact hlacks (TokenList.contains_iff_get?.mpr ⟨⟨"c"⟩, hget⟩)

end Shelf

end LineLexer
