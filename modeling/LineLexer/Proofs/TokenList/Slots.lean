import LineLexer.TokenList.Basic
/-!
What the operations on slots do to the nodes that handles name.

A handle names a node only while its slot has the generation it was issued with, so changing
one slot changes what one handle names and nothing else.  Every operation below is described
by the look-up `TokenList.node?` after it, for all handles at once.
-/

namespace LineLexer

namespace TokenList

/-- The slot exists and holds no token. -/
def Vacant (list : TokenList) (index : Nat) : Prop :=
  ∃ slot, list.slots[index]? = some slot ∧ slot.node = none

/-- The vacated slots are kept for reuse, each once. -/
structure FreeSlots (list : TokenList) : Prop where
  nodup : list.free.Nodup
  mem_iff : ∀ index, index ∈ list.free ↔ list.Vacant index

theorem node?_eq_some_iff {list : TokenList} {handle : Handle} {node : Node} :
    list.node? handle = some node ↔
      handle.list = list.tag ∧ ∃ slot, list.slots[handle.index]? = some slot ∧
        slot.generation = handle.generation ∧ slot.node = some node := by
  unfold node?
  split
  · rename_i htag
    cases hslot : list.slots[handle.index]? with
    | none => simp
    | some slot =>
        by_cases hgeneration : slot.generation = handle.generation
        · simp [htag, hgeneration]
        · simp [hgeneration]
  · rename_i htag
    simp [htag]

theorem contains_iff {list : TokenList} {handle : Handle} :
    list.contains handle = true ↔ ∃ node, list.node? handle = some node := by
  rw [contains, Option.isSome_iff_exists]

section ModifyNode

variable (list : TokenList) (handle : Handle) (change : Node → Node)

/-- Everything but the slots stays as it is. -/
@[simp] theorem modifyNode_frame :
    (list.modifyNode handle change).tag = list.tag ∧
      (list.modifyNode handle change).free = list.free ∧
      (list.modifyNode handle change).head = list.head ∧
      (list.modifyNode handle change).tail = list.tail ∧
      (list.modifyNode handle change).cursor = list.cursor ∧
      (list.modifyNode handle change).size = list.size := by
  unfold modifyNode
  split <;> simp

/-- Only the node that the handle names is changed. -/
theorem node?_modifyNode (other : Handle) :
    (list.modifyNode handle change).node? other =
      if other = handle then (list.node? other).map change else list.node? other := by
  unfold modifyNode
  split
  · rename_i hcontains
    obtain ⟨node, hnode⟩ := contains_iff.mp hcontains
    obtain ⟨htag, slot, hslot, hgeneration, _⟩ := node?_eq_some_iff.mp hnode
    by_cases hsame : other = handle
    · subst hsame
      simp [node?, htag, hslot, hgeneration, Array.getElem?_modify]
    · rw [if_neg hsame]
      unfold node?
      dsimp only
      by_cases hindex : handle.index = other.index
      · -- The slot is the same, so the two handles differ in tag or generation.
        rw [Array.getElem?_modify, if_pos hindex, ← hindex, hslot]
        by_cases hother : other.list = list.tag
        · have hgen : slot.generation ≠ other.generation := by
            intro hgen
            apply hsame
            cases other
            cases handle
            simp_all
          simp [hother, hgen]
        · simp [hother]
      · rw [Array.getElem?_modify, if_neg hindex]
  · rename_i hcontains
    have hnone : list.node? handle = none := by
      simpa [contains] using hcontains
    split
    · rename_i hsame
      rw [hsame, hnone]
      rfl
    · rfl

theorem vacant_modifyNode (index : Nat) :
    (list.modifyNode handle change).Vacant index ↔ list.Vacant index := by
  unfold modifyNode
  split
  · unfold Vacant
    dsimp only
    rw [Array.getElem?_modify]
    split
    · cases list.slots[index]? <;> simp
    · rfl
  · rfl

theorem FreeSlots.modifyNode {list : TokenList} (hfree : list.FreeSlots) :
    (list.modifyNode handle change).FreeSlots where
  nodup := by simpa using hfree.nodup
  mem_iff index := by
    rw [vacant_modifyNode, (modifyNode_frame list handle change).2.1]
    exact hfree.mem_iff index

end ModifyNode

section Allocate

variable {list : TokenList} (hfree : list.FreeSlots) (node : Node)

include hfree

/-- The handle of a new node named nothing before. -/
theorem node?_allocate_fresh : list.node? (list.allocate node).1 = none := by
  unfold allocate
  split
  · rename_i index free hcons
    obtain ⟨slot, hslot, hvacant⟩ := (hfree.mem_iff index).mp (by simp [hcons])
    simp [node?, hslot, hvacant, Array.getD_eq_getD_getElem?]
  · simp [node?]

theorem node?_allocate (other : Handle) :
    (list.allocate node).2.node? other =
      if other = (list.allocate node).1 then some node else list.node? other := by
  obtain ⟨tag, position, generation⟩ := other
  unfold allocate
  split
  · rename_i index free hcons
    obtain ⟨slot, hslot, hvacant⟩ := (hfree.mem_iff index).mp (by simp [hcons])
    obtain ⟨hbound, hget⟩ := Array.getElem?_eq_some_iff.mp hslot
    simp only [node?, Array.getD_eq_getD_getElem?, hslot, Option.getD_some,
      Array.getElem?_setIfInBounds, Handle.mk.injEq]
    by_cases hindex : index = position
    · subst hindex
      by_cases htag : tag = list.tag
      · by_cases hgeneration : slot.generation = generation
        · simp [htag, hgeneration, hbound]
        · simp [htag, hgeneration, Ne.symm hgeneration, hbound, hget]
      · simp [htag]
    · simp [hindex, Ne.symm hindex]
  · simp only [node?, Array.getElem?_push, Handle.mk.injEq]
    by_cases hindex : position = list.slots.size
    · subst hindex
      by_cases htag : tag = list.tag
      · by_cases hgeneration : generation = 0
        · simp [htag, hgeneration]
        · simp [htag, hgeneration, Ne.symm hgeneration]
      · simp [htag]
    · simp [hindex]

theorem FreeSlots.allocate : (list.allocate node).2.FreeSlots := by
  unfold TokenList.allocate
  split
  · rename_i index free hcons
    have hnodup := hfree.nodup
    rw [hcons, List.nodup_cons] at hnodup
    refine ⟨hnodup.2, ?_⟩
    intro other
    have hmem := hfree.mem_iff other
    rw [hcons, List.mem_cons] at hmem
    by_cases hsame : other = index
    · subst hsame
      simp only [Vacant, hnodup.1, false_iff]
      rintro ⟨slot, hslot, hvacant⟩
      rw [Array.getElem?_setIfInBounds_self] at hslot
      split at hslot
      · cases hslot
        cases hvacant
      · cases hslot
    · simp only [hsame, false_or] at hmem
      rw [hmem]
      simp [Vacant, Ne.symm hsame]
  · rename_i hnil
    refine ⟨hnil ▸ List.nodup_nil, ?_⟩
    intro other
    have hmem := hfree.mem_iff other
    simp only [hnil, List.not_mem_nil, false_iff] at hmem ⊢
    rintro ⟨slot, hslot, hvacant⟩
    rw [Array.getElem?_push] at hslot
    split at hslot
    · cases hslot
      cases hvacant
    · exact hmem ⟨slot, hslot, hvacant⟩

end Allocate

@[simp] theorem allocate_frame (list : TokenList) (node : Node) :
    (list.allocate node).2.tag = list.tag ∧ (list.allocate node).2.head = list.head ∧
      (list.allocate node).2.tail = list.tail ∧ (list.allocate node).2.cursor = list.cursor ∧
      (list.allocate node).2.size = list.size ∧ (list.allocate node).1.list = list.tag := by
  unfold allocate
  split <;> simp

section Release

variable {list rest : TokenList} {handle : Handle} {node : Node}
  (hrelease : list.release handle = some (node, rest))

include hrelease

theorem node?_of_release : list.node? handle = some node := by
  simp only [release, Option.map_eq_some_iff, Prod.mk.injEq] at hrelease
  obtain ⟨found, hfound, rfl, _⟩ := hrelease
  exact hfound

theorem release_eq :
    rest = { list with
      slots := list.slots.modify handle.index Slot.vacate
      free := handle.index :: list.free } := by
  simp only [release, Option.map_eq_some_iff, Prod.mk.injEq] at hrelease
  obtain ⟨_, _, _, hrest⟩ := hrelease
  exact hrest.symm

/-- The handle stops naming a node; no other handle is concerned. -/
theorem node?_release (other : Handle) :
    rest.node? other = if other = handle then none else list.node? other := by
  obtain ⟨htag, slot, hslot, hgeneration, hnode⟩ :=
    node?_eq_some_iff.mp (node?_of_release hrelease)
  rw [release_eq hrelease]
  obtain ⟨otherTag, position, generation⟩ := other
  obtain ⟨ownTag, index, own⟩ := handle
  simp only at htag hslot hgeneration
  simp only [node?, Array.getElem?_modify, Handle.mk.injEq]
  by_cases hindex : index = position
  · subst hindex
    by_cases hother : otherTag = list.tag
    · by_cases hgen : own = generation
      · simp [hother, htag, hslot, hgen, Slot.vacate]
      · simp [hother, htag, hslot, hgeneration, hgen, Ne.symm hgen, Slot.vacate]
    · simp [hother, htag]
  · simp [hindex, Ne.symm hindex]

theorem FreeSlots.release (hfree : list.FreeSlots) : rest.FreeSlots := by
  obtain ⟨_, slot, hslot, _, hnode⟩ := node?_eq_some_iff.mp (node?_of_release hrelease)
  rw [release_eq hrelease]
  constructor
  · rw [List.nodup_cons]
    refine ⟨?_, hfree.nodup⟩
    intro hmem
    obtain ⟨other, hother, hvacant⟩ := (hfree.mem_iff _).mp hmem
    rw [hslot, Option.some.injEq] at hother
    rw [← hother, hnode] at hvacant
    cases hvacant
  · intro index
    rw [List.mem_cons, hfree.mem_iff]
    simp only [Vacant, Array.getElem?_modify]
    by_cases hindex : handle.index = index
    · subst hindex
      simp [hslot, Slot.vacate]
    · simp [hindex, Ne.symm hindex]

end Release

/-- Changes a node, if there is one to change. -/
def modifyNode? (list : TokenList) (handle : Option Handle) (change : Node → Node) :
    TokenList :=
  match handle with
  | some handle => list.modifyNode handle change
  | none => list

section Unlink

variable (list : TokenList) (handle : Handle) (node : Node)

theorem node?_modifyNode? (changed : Option Handle) (change : Node → Node) (other : Handle) :
    (list.modifyNode? changed change).node? other =
      (list.node? other).map fun found =>
        if changed = some other then change found else found := by
  cases changed with
  | none => simp [modifyNode?]
  | some changed =>
      rw [modifyNode?, node?_modifyNode]
      by_cases hsame : other = changed
      · simp [hsame]
      · simp [hsame, Ne.symm hsame]

theorem FreeSlots.modifyNode? {list : TokenList} (hfree : list.FreeSlots)
    (changed : Option Handle) (change : Node → Node) :
    (list.modifyNode? changed change).FreeSlots := by
  cases changed with
  | none => exact hfree
  | some changed => exact hfree.modifyNode changed change

/-- Taking a node out of the chain as a change of its two neighbours, with the ends, the
cursor and the size set afterwards. -/
theorem unlink_eq :
    list.unlink handle node =
      { (list.modifyNode? node.prev fun other => { other with next := node.next }).modifyNode?
          node.next fun other => { other with prev := node.prev } with
        head := if node.prev = none then node.next else list.head
        tail := if node.next = none then node.prev else list.tail
        cursor := if list.cursor = some handle then node.next else list.cursor
        size := list.size - 1 } := by
  have hcontains : ∀ head other,
      ({ list with head } : TokenList).contains other = list.contains other :=
    fun _ _ => rfl
  obtain ⟨token, next, prev⟩ := node
  cases prev with
  | some prev => cases next <;> simp [unlink, modifyNode?]
  | none =>
      cases next with
      | none => rfl
      | some next =>
          cases hnext : list.contains next <;>
            simp [unlink, modifyNode?, modifyNode, hcontains, hnext]

/-- Taking a node out of the chain changes no more than the links of its neighbours. -/
theorem node?_unlink (other : Handle) :
    (list.unlink handle node).node? other = (list.node? other).map fun found =>
      { found with
        next := if node.prev = some other then node.next else found.next
        prev := if node.next = some other then node.prev else found.prev } := by
  have hlookup : (list.unlink handle node).node? other =
      ((list.modifyNode? node.prev fun other => { other with next := node.next }).modifyNode?
        node.next fun other => { other with prev := node.prev }).node? other := by
    rw [unlink_eq]
    rfl
  rw [hlookup, node?_modifyNode?, node?_modifyNode?, Option.map_map]
  congr 1
  funext found
  by_cases hprev : node.prev = some other <;> by_cases hnext : node.next = some other <;>
    simp [hprev, hnext]

theorem FreeSlots.unlink {list : TokenList} (hfree : list.FreeSlots) :
    (list.unlink handle node).FreeSlots := by
  rw [unlink_eq]
  have hkept := (hfree.modifyNode? node.prev
    fun other => { other with next := node.next }).modifyNode? node.next
      fun other => { other with prev := node.prev }
  exact ⟨hkept.nodup, hkept.mem_iff⟩

end Unlink

section Clear

variable (list : TokenList)

theorem mem_liveSlots_iff {index : Nat} :
    index ∈ list.liveSlots ↔
      ∃ slot, list.slots[index]? = some slot ∧ slot.node.isSome = true := by
  simp only [liveSlots, List.mem_filter, List.mem_range, Array.getD_eq_getD_getElem?]
  constructor
  · rintro ⟨hbound, hnode⟩
    exact ⟨list.slots[index], by simp [hbound], by simpa [hbound] using hnode⟩
  · rintro ⟨slot, hslot, hnode⟩
    obtain ⟨hbound, _⟩ := Array.getElem?_eq_some_iff.mp hslot
    exact ⟨hbound, by simpa [hslot] using hnode⟩

/-- A cleared list has every slot vacant. -/
theorem vacant_clear_iff {index : Nat} : list.clear.Vacant index ↔ index < list.slots.size := by
  constructor
  · rintro ⟨slot, hslot, _⟩
    simpa [clear] using (Array.getElem?_eq_some_iff.mp hslot).1
  · intro hbound
    refine ⟨_, by simp [clear, hbound]; rfl, ?_⟩
    cases hnode : list.slots[index].node <;> simp [hnode, Slot.vacate]

theorem node?_clear (handle : Handle) : list.clear.node? handle = none := by
  cases hnode : list.clear.node? handle with
  | none => rfl
  | some node =>
      obtain ⟨_, slot, hslot, _, hsome⟩ := node?_eq_some_iff.mp hnode
      have hbound := (Array.getElem?_eq_some_iff.mp hslot).1
      obtain ⟨other, hother, hvacant⟩ :=
        (vacant_clear_iff list).mpr (by simpa [clear] using hbound)
      rw [hslot, Option.some.injEq] at hother
      rw [← hother, hsome] at hvacant
      cases hvacant

/-- A slot either holds a token or is vacant. -/
theorem mem_liveSlots_or_vacant_iff {index : Nat} :
    index ∈ list.liveSlots ∨ list.Vacant index ↔ index < list.slots.size := by
  rw [mem_liveSlots_iff]
  constructor
  · rintro (⟨slot, hslot, _⟩ | ⟨slot, hslot, _⟩)
    · exact (Array.getElem?_eq_some_iff.mp hslot).1
    · exact (Array.getElem?_eq_some_iff.mp hslot).1
  · intro hbound
    have hslot := Array.getElem?_eq_getElem hbound
    cases hnode : list.slots[index].node with
    | none => exact Or.inr ⟨_, hslot, hnode⟩
    | some node => exact Or.inl ⟨_, hslot, by simp [hnode]⟩

theorem not_mem_liveSlots_of_vacant {index : Nat} (hvacant : list.Vacant index) :
    index ∉ list.liveSlots := by
  intro hmem
  obtain ⟨slot, hslot, hnode⟩ := (mem_liveSlots_iff list).mp hmem
  obtain ⟨other, hother, hnone⟩ := hvacant
  rw [hslot, Option.some.injEq] at hother
  simp [hother, hnone] at hnode

theorem FreeSlots.clear {list : TokenList} (hfree : list.FreeSlots) :
    list.clear.FreeSlots where
  nodup := by
    have hlive : list.liveSlots.Nodup := List.nodup_range.filter _
    refine List.nodup_append.mpr ⟨List.pairwise_reverse.mpr (hlive.imp Ne.symm), hfree.nodup, ?_⟩
    rintro index hindex other hother rfl
    exact not_mem_liveSlots_of_vacant list ((hfree.mem_iff index).mp hother)
      (List.mem_reverse.mp hindex)
  mem_iff index := by
    rw [vacant_clear_iff, ← mem_liveSlots_or_vacant_iff, ← hfree.mem_iff]
    simp [TokenList.clear]

end Clear

end TokenList

end LineLexer
