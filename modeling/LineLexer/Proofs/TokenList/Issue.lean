import LineLexer.Proofs.TokenList.Sequence
/-!
Which handles a list has issued.

Vacating a slot makes its generation count the token that leaves it, so that the tokens put
into a slot so far are those of the earlier generations and the one it holds.  Only filling a
slot changes their number.  The handle of a new token carries the number that its slot had
before, and therefore it is the handle of no token before it.
-/

namespace LineLexer

/-- How many tokens have been put into the slot. -/
def Slot.uses (slot : Slot) : Nat :=
  match slot.node with
  | some _ => slot.generation + 1
  | none => slot.generation

theorem Slot.uses_vacate {slot : Slot} (hnode : slot.node.isSome = true) :
    slot.vacate.uses = slot.uses := by
  obtain ⟨node, hnode⟩ := Option.isSome_iff_exists.mp hnode
  rw [Slot.uses, Slot.uses, hnode]
  rfl

namespace TokenList

/-- How many tokens have been put into the slot at an index. -/
def uses (list : TokenList) (index : Nat) : Nat :=
  list.slots[index]?.elim 0 Slot.uses

/-- The list has put a token under the handle at some time. -/
def HasIssued (list : TokenList) (handle : Handle) : Prop :=
  handle.list = list.tag ∧ handle.generation < list.uses handle.index

section Slots

variable {list rest : TokenList} {handle : Handle} {node : Node}

/-- The numbers in a handle that a list in bounds has issued are numbers of 32 bits. -/
theorem HasIssued.fits (hissued : list.HasIssued handle) (hbounds : list.InBounds) :
    handle.index < Handle.bound ∧ handle.generation < Handle.bound := by
  obtain ⟨_, hgeneration⟩ := hissued
  rw [uses] at hgeneration
  cases hslot : list.slots[handle.index]? with
  | none =>
      rw [hslot] at hgeneration
      cases hgeneration
  | some slot =>
      obtain ⟨hindex, hmem⟩ := Array.getElem?_eq_some_iff.mp hslot
      have hslotBound := hbounds.generation_lt slot (hmem ▸ Array.getElem_mem hindex)
      have huses : slot.uses ≤ slot.generation + 1 := by
        unfold Slot.uses
        split <;> omega
      rw [hslot, Option.elim_some] at hgeneration
      exact ⟨Nat.lt_trans hindex hbounds.size_lt, by omega⟩

theorem hasIssued_of_contains (hcontains : list.contains handle = true) :
    list.HasIssued handle := by
  obtain ⟨node, hnode⟩ := contains_iff.mp hcontains
  obtain ⟨htag, slot, hslot, hgeneration, hnode⟩ := node?_eq_some_iff.mp hnode
  refine ⟨htag, ?_⟩
  rw [uses, hslot, Option.elim_some, Slot.uses, hnode, ← hgeneration]
  exact Nat.lt_succ_self _

theorem uses_modifyNode (list : TokenList) (handle : Handle) (change : Node → Node)
    (index : Nat) : (list.modifyNode handle change).uses index = list.uses index := by
  unfold modifyNode
  split
  · simp only [uses, Array.getElem?_modify]
    split
    · cases list.slots[index]? with
      | none => rfl
      | some slot => cases hnode : slot.node <;> simp [Slot.uses, hnode]
    · rfl
  · rfl

theorem uses_modifyNode? (list : TokenList) (changed : Option Handle) (change : Node → Node)
    (index : Nat) : (list.modifyNode? changed change).uses index = list.uses index := by
  cases changed with
  | none => rfl
  | some changed => exact uses_modifyNode list changed change index

theorem uses_release (hrelease : list.release handle = some (node, rest)) (index : Nat) :
    rest.uses index = list.uses index := by
  obtain ⟨_, slot, hslot, _, hnode⟩ := node?_eq_some_iff.mp (node?_of_release hrelease)
  rw [release_eq hrelease, uses, uses, Array.getElem?_modify]
  split
  · rename_i hindex
    rw [← hindex, hslot, Option.map_some, Option.elim_some, Option.elim_some,
      Slot.uses_vacate (by simp [hnode])]
  · rfl

theorem uses_clear (list : TokenList) (index : Nat) : list.clear.uses index = list.uses index := by
  simp only [uses, clear, Array.getElem?_map]
  cases list.slots[index]? with
  | none => rfl
  | some slot =>
      rw [Option.map_some, Option.elim_some, Option.elim_some]
      split
      · rename_i hnode
        exact Slot.uses_vacate hnode
      · rfl

section Allocate

variable (hfree : list.FreeSlots) (node : Node)

include hfree

/-- A new handle carries the number of tokens that its slot has had. -/
theorem allocate_generation :
    (list.allocate node).1.generation = list.uses (list.allocate node).1.index := by
  unfold allocate
  split
  · rename_i index free hcons
    obtain ⟨slot, hslot, hvacant⟩ := (hfree.mem_iff index).mp (by simp [hcons])
    simp [uses, hslot, Slot.uses, hvacant, Array.getD_eq_getD_getElem?]
  · simp [uses]

theorem uses_allocate (index : Nat) :
    (list.allocate node).2.uses index =
      if index = (list.allocate node).1.index then list.uses index + 1 else list.uses index := by
  unfold allocate
  split
  · rename_i position free hcons
    obtain ⟨slot, hslot, hvacant⟩ := (hfree.mem_iff position).mp (by simp [hcons])
    obtain ⟨hbound, _⟩ := Array.getElem?_eq_some_iff.mp hslot
    by_cases hindex : index = position
    · subst hindex
      rw [if_pos rfl, uses, uses, Array.getElem?_setIfInBounds_self_of_lt hbound, hslot]
      simp [Slot.uses, hvacant, hslot, Array.getD_eq_getD_getElem?]
    · simp [uses, hindex, Ne.symm hindex]
  · by_cases hindex : index = list.slots.size
    · simp [uses, hindex, Slot.uses]
    · simp [uses, hindex, Array.getElem?_push]

end Allocate

end Slots

section Issue

variable {list : TokenList} {entries : List (Handle × Token)} (hholds : list.Holds entries)
  (token : Token)

theorem push_tag (list : TokenList) (token : Token) :
    (list.push token).2.tag = list.tag ∧ (list.push token).1.list = list.tag := by
  rw [push_eq]
  cases list.tail <;> simp [modifyNode?]

theorem erase_tag (list : TokenList) (handle : Handle) :
    (list.erase handle).2.tag = list.tag := by
  unfold erase
  split
  · rename_i node rest hrelease
    rw [unlink_eq, release_eq hrelease]
    cases node.prev <;> cases node.next <;> simp [modifyNode?]
  · rfl

theorem hasIssued_erase (list : TokenList) (erased handle : Handle) :
    (list.erase erased).2.HasIssued handle ↔ list.HasIssued handle := by
  rw [HasIssued, HasIssued, erase_tag]
  have huses : (list.erase erased).2.uses handle.index = list.uses handle.index := by
    unfold erase
    split
    · rename_i node rest hrelease
      rw [← uses_release hrelease, unlink_eq]
      exact (uses_modifyNode? _ _ _ _).trans (uses_modifyNode? _ _ _ _)
    · rfl
  rw [huses]

include hholds

/-- A new token gets a handle that the list has not issued before. -/
theorem push_not_hasIssued : ¬ list.HasIssued (list.push token).1 := by
  rw [HasIssued, push_eq, allocate_generation hholds.freeSlots]
  exact fun hissued => Nat.lt_irrefl _ hissued.2

/-- Adding a token issues its handle and no other. -/
theorem hasIssued_push (handle : Handle) :
    (list.push token).2.HasIssued handle ↔
      list.HasIssued handle ∨ handle = (list.push token).1 := by
  have hgeneration : (list.push token).1.generation = list.uses (list.push token).1.index := by
    rw [push_eq, allocate_generation hholds.freeSlots]
  have huses : (list.push token).2.uses handle.index =
      if handle.index = (list.push token).1.index then list.uses handle.index + 1
      else list.uses handle.index := by
    rw [push_eq, ← uses_allocate hholds.freeSlots]
    exact uses_modifyNode? _ _ _ _
  obtain ⟨htag, hlist⟩ := push_tag list token
  rw [HasIssued, HasIssued, htag, huses]
  generalize (list.push token).1 = new at *
  obtain ⟨tag, index, generation⟩ := handle
  obtain ⟨newTag, newIndex, newGeneration⟩ := new
  dsimp only at hlist hgeneration
  subst hlist hgeneration
  simp only [Handle.mk.injEq]
  split
  · rename_i hindex
    subst hindex
    omega
  · omega

end Issue

end TokenList

end LineLexer
