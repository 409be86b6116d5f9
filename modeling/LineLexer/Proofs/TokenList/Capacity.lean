import Mathlib.Data.List.Infix
import Mathlib.Order.Bounds.Basic
import LineLexer.Proofs.TokenList.Lifetime
/-!
How many slots a list has.

Every slot either holds a token or is kept for reuse, and is kept once.  A new slot is made only
where none is kept, that is, where every slot holds a token, and nothing else changes the number of
slots.  So a list has as many slots as it has had tokens at one time.
-/

namespace LineLexer

namespace TokenList

/-- A node is put into a slot that holds nothing, or into a new slot if none is kept for reuse. -/
theorem FreeSlots.vacant_allocate {list : TokenList} (hfree : list.FreeSlots) (node : Node) :
    list.Vacant (list.allocate node).1.index ∨
      list.free = [] ∧ (list.allocate node).1.index = list.slots.size := by
  unfold TokenList.allocate
  split
  · rename_i index free hcons
    exact Or.inl ((hfree.mem_iff index).mp (by simp [hcons]))
  · rename_i hnil
    exact Or.inr ⟨hnil, rfl⟩

section Size

variable (list : TokenList) (handle : Handle) (change : Node → Node)

theorem slots_size_modifyNode :
    (list.modifyNode handle change).slots.size = list.slots.size := by
  unfold modifyNode
  split
  · exact Array.size_modify
  · rfl

theorem slots_size_modifyNode? (changed : Option Handle) :
    (list.modifyNode? changed change).slots.size = list.slots.size := by
  cases changed with
  | none => rfl
  | some changed => exact slots_size_modifyNode list changed change

theorem slots_size_allocate (node : Node) :
    (list.allocate node).2.slots.size =
      if list.free = [] then list.slots.size + 1 else list.slots.size := by
  unfold allocate
  split
  · rename_i index free hcons
    simp [hcons]
  · rename_i hnil
    simp [hnil]

theorem slots_size_erase : (list.erase handle).2.slots.size = list.slots.size := by
  unfold erase
  split
  · rename_i node rest hrelease
    have hunlink : (rest.unlink handle node).slots.size = rest.slots.size := by
      rw [unlink_eq]
      exact (slots_size_modifyNode? _ _ _).trans (slots_size_modifyNode? _ _ _)
    rw [hunlink, release_eq hrelease]
    exact Array.size_modify
  · rfl

theorem slots_size_clear : list.clear.slots.size = list.slots.size :=
  Array.size_map

end Size

namespace Holds

variable {list : TokenList} {entries : List (Handle × Token)} (hholds : list.Holds entries)

include hholds

/-- The slots of the tokens are the slots that are not vacant. -/
theorem mem_indices_iff {index : Nat} :
    index ∈ (entries.map Prod.fst).map Handle.index ↔ index ∈ list.liveSlots := by
  rw [mem_liveSlots_iff]
  constructor
  · intro hindex
    obtain ⟨handle, hmem, rfl⟩ := List.mem_map.mp hindex
    obtain ⟨node, hnode⟩ := contains_iff.mp (hholds.contains_iff_mem.mpr hmem)
    obtain ⟨_, slot, hslot, _, hheld⟩ := node?_eq_some_iff.mp hnode
    exact ⟨slot, hslot, by simp [hheld]⟩
  · rintro ⟨slot, hslot, hheld⟩
    obtain ⟨node, hnode⟩ := Option.isSome_iff_exists.mp hheld
    have hnamed : list.node? ⟨list.tag, index, slot.generation⟩ = some node :=
      node?_eq_some_iff.mpr ⟨rfl, slot, hslot, rfl, hnode⟩
    exact List.mem_map.mpr ⟨_, hholds.mem_of_node _ node hnamed, rfl⟩

/-- The slots of the tokens and the slots kept for reuse make up all slots, each once. -/
theorem slots_perm :
    ((entries.map Prod.fst).map Handle.index ++ list.free).Perm (List.range list.slots.size) := by
  have hnodup : ((entries.map Prod.fst).map Handle.index ++ list.free).Nodup := by
    refine List.nodup_append.mpr ⟨nodup_indices hholds, hholds.freeSlots.nodup, ?_⟩
    rintro index hindex other hother rfl
    exact not_mem_liveSlots_of_vacant list ((hholds.freeSlots.mem_iff index).mp hother)
      (hholds.mem_indices_iff.mp hindex)
  rw [List.perm_ext_iff_of_nodup hnodup List.nodup_range]
  intro index
  rw [List.mem_append, hholds.mem_indices_iff, hholds.freeSlots.mem_iff,
    mem_liveSlots_or_vacant_iff, List.mem_range]

theorem slots_size_eq : list.slots.size = list.size + list.free.length := by
  have hlength := hholds.slots_perm.length_eq
  rw [List.length_append, List.length_map, List.length_map, List.length_range,
    ← hholds.size_eq] at hlength
  exact hlength.symm

/-- Adding a token makes a slot only if all slots hold tokens. -/
theorem slots_size_push (token : Token) :
    (list.push token).2.slots.size = max list.slots.size (list.push token).2.size := by
  have hpushed : (list.push token).2.slots.size =
      (list.allocate { token, prev := list.tail }).2.slots.size := by
    rw [push_eq]
    exact slots_size_modifyNode? _ _ _
  have hsize : (list.push token).2.size = list.size + 1 := by rw [push_eq]
  have hslots := hholds.slots_size_eq
  rw [hpushed, hsize, slots_size_allocate]
  split
  · rename_i hnil
    rw [hnil, List.length_nil] at hslots
    omega
  · rename_i hcons
    have hkept := List.length_pos_of_ne_nil hcons
    omega

end Holds

section Edit

variable {list : TokenList}

theorem Linked.slots_size_eq (hlinked : list.Linked) :
    list.slots.size = list.size + list.free.length := by
  obtain ⟨tape, hlist⟩ := hlinked
  exact hlist.holds.slots_size_eq

theorem Linked.slots_size_push (hlinked : list.Linked) (token : Token) :
    (list.push token).2.slots.size = max list.slots.size (list.push token).2.size := by
  obtain ⟨tape, hlist⟩ := hlinked
  exact hlist.holds.slots_size_push token

theorem size_push (list : TokenList) (token : Token) :
    (list.push token).2.size = list.size + 1 := by
  rw [push_eq]

theorem size_extend (list : TokenList) (texts : List String) :
    (list.extend texts).size = list.size + texts.length := by
  induction texts generalizing list with
  | nil => rfl
  | cons text texts ih =>
      rw [extend_cons, ih, size_push, List.length_cons]
      omega

theorem Linked.slots_size_extend (hlinked : list.Linked) (texts : List String) :
    (list.extend texts).slots.size = max list.slots.size (list.extend texts).size := by
  induction texts generalizing list with
  | nil =>
      have hslots := hlinked.slots_size_eq
      change list.slots.size = max list.slots.size list.size
      omega
  | cons text texts ih =>
      have hgrown := size_extend (list.push ⟨text⟩).2 texts
      rw [extend_cons, ih (hlinked.push ⟨text⟩), hlinked.slots_size_push]
      omega

/-- Where an edit makes no slot, the tokens after it have room in the slots there were. -/
theorem Linked.slots_size_of_eq {after : TokenList} (hlinked : after.Linked)
    (hslots : after.slots.size = list.slots.size) :
    after.slots.size = max list.slots.size after.size := by
  have hroom := hlinked.slots_size_eq
  omega

/-- An edit makes as many slots as the tokens after it need. -/
theorem Linked.slots_size_edit (hlinked : list.Linked) (edit : Edit) :
    (list.edit edit).slots.size = max list.slots.size (list.edit edit).size := by
  have hafter := hlinked.edit edit
  obtain ⟨operation, hkeeps⟩ := edit
  cases operation with
  | create tag | collect tag texts => cases hkeeps
  | append text => exact hlinked.slots_size_push ⟨text⟩
  | appendToken token => exact hlinked.slots_size_push token
  | extend texts => exact hlinked.slots_size_extend texts
  | erase handle => exact hafter.slots_size_of_eq (slots_size_erase list handle)
  | clear => exact hafter.slots_size_of_eq (slots_size_clear list)
  | setText handle text => exact hafter.slots_size_of_eq (slots_size_modifyNode list handle _)
  | advance =>
      apply hafter.slots_size_of_eq
      simp only [TokenList.edit, perform, advance]
      cases list.cursor <;> rfl
  | rewind => exact hafter.slots_size_of_eq rfl

end Edit

/-- The numbers of tokens that a list has had on the way, from no tokens to those it has after
some edits. -/
def pastSizes (tag : Nat) (edits : List Edit) : Set Nat :=
  {size | ∃ early, early <+: edits ∧ ((empty tag).editAll early).size = size}

theorem pastSizes_nil (tag : Nat) : pastSizes tag [] = {0} := by
  ext size
  simp only [pastSizes, List.prefix_nil, exists_eq_left, Set.mem_ofPred_eq, Set.mem_singleton_iff]
  exact eq_comm

theorem pastSizes_concat (tag : Nat) (edits : List Edit) (edit : Edit) :
    pastSizes tag (edits ++ [edit]) =
      insert ((empty tag).editAll (edits ++ [edit])).size (pastSizes tag edits) := by
  ext size
  simp only [pastSizes, List.prefix_concat_iff, Set.mem_ofPred_eq, Set.mem_insert_iff, or_and_right,
    exists_or, exists_eq_left, eq_comm]

/-- A list has as many slots as the most tokens it has had. -/
theorem slots_size_isGreatest (tag : Nat) (edits : List Edit) :
    IsGreatest (pastSizes tag edits) ((empty tag).editAll edits).slots.size := by
  induction edits using List.reverseRecOn with
  | nil =>
      rw [pastSizes_nil]
      exact isGreatest_singleton
  | append_singleton edits edit ih =>
      have hlinked := (linked_empty tag).editAll edits
      have hedited : (empty tag).editAll (edits ++ [edit]) =
          ((empty tag).editAll edits).edit edit := List.foldl_append
      rw [pastSizes_concat, hedited, hlinked.slots_size_edit, max_comm]
      exact ih.insert _

end TokenList

end LineLexer
