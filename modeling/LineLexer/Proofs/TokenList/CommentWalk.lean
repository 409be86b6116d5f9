import LineLexer.Proofs.TokenList.Lifetime
import LineLexer.Proofs.TokenList.Removal
/-!
Removal of comments as a walk.

Removal can decide which tokens go before any of them is erased, or it can erase them while it
walks along the list.  A walk has to ask for the token after the one it erases while that one is
still linked, and the comments it has met are gone when it goes on.  Both ways are compared here
with a reading of the sequence of tokens: a comment is taken out of it from its opening mark on,
and what follows the comment is read in the same way.
-/

namespace LineLexer

open CommentKind

/-- Whether a text leaves a comment of the kind open. -/
def CommentKind.lasts (kind : CommentKind) (text : String) : Bool :=
  text != kind.closing

namespace TokenList

/-- The list after a token has been erased, unless the handle is refused. -/
def erased? (list : TokenList) (handle : Handle) : Option TokenList :=
  match list.erase handle with
  | (.ok _, rest) => some rest
  | (.error _, _) => none

/-- A walk erases tokens from a place on as long as `goes` holds of their texts.  It leaves a list
and comes to another place.  A walk that does not end, or has a handle refused, comes to none. -/
inductive ErasesWhile (goes : String → Bool) :
    TokenList → Option Handle → TokenList → Option Handle → Prop
  | finish (list : TokenList) : ErasesWhile goes list none list none
  | stop {list : TokenList} {handle : Handle} (hstops : (list.text? handle).any goes = false) :
      ErasesWhile goes list (some handle) list (some handle)
  | erase {list rest last : TokenList} {handle : Handle} {place : Option Handle}
      (hgoes : (list.text? handle).any goes = true) (herased : list.erased? handle = some rest)
      (hlater : ErasesWhile goes rest (list.next? handle) last place) :
      ErasesWhile goes list (some handle) last place

/-- A walk erases the comment that a token opens.  It leaves a list and comes to the place after
the comment. -/
inductive ErasesComment :
    CommentKind → TokenList → Handle → TokenList → Option Handle → Prop
  | inline {list rest : TokenList} {handle : Handle} {place : Option Handle}
      (hwalk : ErasesWhile CommentKind.inline.lasts list (some handle) rest place) :
      ErasesComment .inline list handle rest place
  | blockToEnd {list opened rest : TokenList} {handle : Handle}
      (hmark : list.erased? handle = some opened)
      (hwalk : ErasesWhile CommentKind.block.lasts opened (list.next? handle) rest none) :
      ErasesComment .block list handle rest none
  | block {list opened rest closed : TokenList} {handle closing : Handle}
      (hmark : list.erased? handle = some opened)
      (hwalk : ErasesWhile CommentKind.block.lasts opened (list.next? handle) rest (some closing))
      (hclosing : rest.erased? closing = some closed) :
      ErasesComment .block list handle closed (rest.next? closing)

/-- A walk erases the comments of the given kinds from a place on and counts them.  A walk that
does not end, or has a handle refused, leaves no list. -/
inductive ErasesComments (kinds : List CommentKind) :
    TokenList → Option Handle → CommentCounts → TokenList → Prop
  | finish (list : TokenList) : ErasesComments kinds list none {} list
  | keep {list last : TokenList} {handle : Handle} {counts : CommentCounts}
      (hplain : (list.text? handle).bind (opened? kinds) = none)
      (hlater : ErasesComments kinds list (list.next? handle) counts last) :
      ErasesComments kinds list (some handle) counts last
  | comment {list rest last : TokenList} {handle : Handle} {kind : CommentKind}
      {place : Option Handle} {counts : CommentCounts}
      (hopens : (list.text? handle).bind (opened? kinds) = some kind)
      (hcomment : ErasesComment kind list handle rest place)
      (hlater : ErasesComments kinds rest place counts last) :
      ErasesComments kinds list (some handle) (counts.count kind) last

section Unique

variable {list last other : TokenList} {place otherPlace : Option Handle}

/-- A walk comes to one end at most. -/
theorem ErasesWhile.unique {goes : String → Bool} {start : Option Handle}
    (hwalk : ErasesWhile goes list start last place)
    (hother : ErasesWhile goes list start other otherPlace) :
    other = last ∧ otherPlace = place := by
  induction hwalk with
  | finish list =>
      cases hother with
      | finish _ => exact ⟨rfl, rfl⟩
  | stop hstops =>
      cases hother with
      | stop _ => exact ⟨rfl, rfl⟩
      | erase hgoes _ _ =>
          rw [hstops] at hgoes
          cases hgoes
  | erase hgoes herased _ ih =>
      cases hother with
      | stop hstops =>
          rw [hgoes] at hstops
          cases hstops
      | erase _ hother hlater =>
          obtain rfl := Option.some.inj (herased.symm.trans hother)
          exact ih hlater

theorem ErasesComment.unique {kind : CommentKind} {handle : Handle}
    (hwalk : ErasesComment kind list handle last place)
    (hother : ErasesComment kind list handle other otherPlace) :
    other = last ∧ otherPlace = place := by
  cases hwalk with
  | inline hwalk =>
      cases hother with
      | inline hother => exact hwalk.unique hother
  | blockToEnd hmark hwalk =>
      cases hother with
      | blockToEnd hmark' hother =>
          obtain rfl := Option.some.inj (hmark.symm.trans hmark')
          exact hwalk.unique hother
      | block hmark' hother _ =>
          obtain rfl := Option.some.inj (hmark.symm.trans hmark')
          cases (hwalk.unique hother).2
  | block hmark hwalk hclosing =>
      cases hother with
      | blockToEnd hmark' hother =>
          obtain rfl := Option.some.inj (hmark.symm.trans hmark')
          cases (hwalk.unique hother).2
      | block hmark' hother hclosing' =>
          obtain rfl := Option.some.inj (hmark.symm.trans hmark')
          obtain ⟨rfl, hsame⟩ := hwalk.unique hother
          obtain rfl := Option.some.inj hsame
          exact ⟨Option.some.inj (hclosing'.symm.trans hclosing), rfl⟩

theorem ErasesComments.unique {kinds : List CommentKind} {start : Option Handle}
    {counts otherCounts : CommentCounts} (hwalk : ErasesComments kinds list start counts last)
    (hother : ErasesComments kinds list start otherCounts other) :
    otherCounts = counts ∧ other = last := by
  induction hwalk generalizing otherCounts with
  | finish list =>
      cases hother with
      | finish _ => exact ⟨rfl, rfl⟩
  | keep hplain _ ih =>
      cases hother with
      | keep _ hlater => exact ih hlater
      | comment hopens _ _ => cases hplain.symm.trans hopens
  | comment hopens hcomment _ ih =>
      cases hother with
      | keep hplain _ => cases hplain.symm.trans hopens
      | comment hopens' hcomment' hlater =>
          obtain rfl := Option.some.inj (hopens.symm.trans hopens')
          obtain ⟨rfl, rfl⟩ := hcomment.unique hcomment'
          obtain ⟨rfl, rfl⟩ := ih hlater
          exact ⟨rfl, rfl⟩

end Unique

end TokenList

/-- The comments of the given kinds in a sequence of tokens, and the tokens outside of them.  A
block comment ends with the first closing mark after its opening mark, an inline comment before the
first line terminator after its mark, and what follows is read in the same way. -/
def withoutComments (kinds : List CommentKind) :
    List (Handle × Token) → CommentCounts × List (Handle × Token)
  | [] => ({}, [])
  | entry :: rest =>
      if entryText entry = "/*" ∧ .block ∈ kinds then
        let later := withoutComments kinds (rest.dropWhile (entryText · != "*/")).tail
        ({ later.1 with block := later.1.block + 1 }, later.2)
      else if entryText entry = "//" ∧ .inline ∈ kinds then
        let later := withoutComments kinds (rest.dropWhile (entryText · != "\n"))
        ({ later.1 with inline := later.1.inline + 1 }, later.2)
      else
        let later := withoutComments kinds rest
        (later.1, entry :: later.2)
termination_by entries => entries.length
decreasing_by
  · have hlength := (List.dropWhile_sublist (entryText · != "*/") (l := rest)).length_le
    simp only [List.length_tail, List.length_cons]
    omega
  · have hlength := (List.dropWhile_sublist (entryText · != "\n") (l := rest)).length_le
    simp only [List.length_cons]
    omega
  · simp

namespace CommentKind

theorem opened?_eq_some_iff {kinds : List CommentKind} {text : String} {kind : CommentKind} :
    opened? kinds text = some kind ↔ text = kind.opening ∧ kind ∈ kinds := by
  constructor
  · intro hopened
    have htext : kind.opening = text := by simpa using List.find?_some hopened
    exact ⟨htext.symm, List.mem_of_find?_eq_some hopened⟩
  · rintro ⟨rfl, hmem⟩
    obtain ⟨found, hfound⟩ : ∃ found, opened? kinds kind.opening = some found := by
      rw [← Option.isSome_iff_exists, opened?, List.find?_isSome]
      exact ⟨kind, hmem, by simp⟩
    have hopening : found.opening = kind.opening := by simpa using List.find?_some hfound
    rw [hfound]
    -- The two kinds have different opening marks.
    cases found <;> cases kind <;> first | rfl | exact absurd hopening (by decide)

/-- A line terminator opens no comment. -/
theorem opened?_lineTerminator (kinds : List CommentKind) :
    opened? kinds lineTerminator = none := by
  rw [Option.eq_none_iff_forall_ne_some]
  intro kind hopened
  have htext := (opened?_eq_some_iff.mp hopened).1
  cases kind <;> exact absurd htext (by decide)

/-- The tokens that a comment takes after its opening mark. -/
def taken (kind : CommentKind) (entries : List (Handle × Token)) : List (Handle × Token) :=
  entries.takeWhile (kind.lasts ∘ entryText) ++
    (entries.dropWhile (kind.lasts ∘ entryText)).take kind.ownsClosing.toNat

/-- The tokens that come after a comment. -/
def beyond (kind : CommentKind) (entries : List (Handle × Token)) : List (Handle × Token) :=
  (entries.dropWhile (kind.lasts ∘ entryText)).drop kind.ownsClosing.toNat

theorem beyond_sublist (kind : CommentKind) (entries : List (Handle × Token)) :
    (kind.beyond entries).Sublist entries :=
  (List.drop_sublist _ _).trans (List.dropWhile_sublist _)

section Lasts

variable {kind : CommentKind} {entry : Handle × Token} (rest : List (Handle × Token))

theorem taken_of_lasts (hlasts : kind.lasts (entryText entry) = true) :
    kind.taken (entry :: rest) = entry :: kind.taken rest ∧
      kind.beyond (entry :: rest) = kind.beyond rest := by
  simp [taken, beyond, hlasts]

theorem taken_of_not_lasts (hlasts : kind.lasts (entryText entry) = false) :
    kind.taken (entry :: rest) = (if kind.ownsClosing then [entry] else []) ∧
      kind.beyond (entry :: rest) = if kind.ownsClosing then rest else entry :: rest := by
  cases howns : kind.ownsClosing <;> simp [taken, beyond, hlasts, howns]

end Lasts

end CommentKind

section Sequence

variable {kinds : List CommentKind} {kind : CommentKind} {entry : Handle × Token}

/-- A sweep that is in a comment goes through the comment and then on in code. -/
theorem CommentSweep.of_some (kind : CommentKind) (entries : List (Handle × Token)) :
    CommentSweep.of kinds (some kind) entries =
      let later := CommentSweep.of kinds none (kind.beyond entries)
      ⟨(kind.taken entries).map Prod.fst ++ later.handles, later.counts⟩ := by
  induction entries with
  | nil => simp [CommentSweep.of, taken, beyond]
  | cons entry rest ih =>
      cases hlasts : kind.lasts (entryText entry) with
      | true =>
          have hclosing : entry.2.text ≠ kind.closing := by
            simpa [lasts, entryText] using hlasts
          rw [(taken_of_lasts rest hlasts).1, (taken_of_lasts rest hlasts).2]
          simp [CommentSweep.of, hclosing, ih]
      | false =>
          have hclosing : entry.2.text = kind.closing := by
            simpa [lasts, entryText] using hlasts
          rw [(taken_of_not_lasts rest hlasts).1, (taken_of_not_lasts rest hlasts).2]
          cases kind with
          | inline =>
              have hopened : opened? kinds CommentKind.inline.closing = none :=
                opened?_lineTerminator kinds
              simp [CommentSweep.of, hclosing, hopened, ownsClosing]
          | block => simp [CommentSweep.of, hclosing, ownsClosing]

theorem CommentSweep.of_cons_of_none (hopened : opened? kinds (entryText entry) = none)
    (rest : List (Handle × Token)) :
    CommentSweep.of kinds none (entry :: rest) = CommentSweep.of kinds none rest := by
  rw [entryText] at hopened
  simp [CommentSweep.of, hopened]

theorem CommentSweep.of_cons_of_some (hopened : opened? kinds (entryText entry) = some kind)
    (rest : List (Handle × Token)) :
    CommentSweep.of kinds none (entry :: rest) =
      let later := CommentSweep.of kinds none (kind.beyond rest)
      ⟨(entry :: kind.taken rest).map Prod.fst ++ later.handles, later.counts.count kind⟩ := by
  rw [entryText] at hopened
  simp [CommentSweep.of, hopened, of_some]

theorem withoutComments_of_none (hopened : opened? kinds (entryText entry) = none)
    (rest : List (Handle × Token)) :
    withoutComments kinds (entry :: rest) =
      ((withoutComments kinds rest).1, entry :: (withoutComments kinds rest).2) := by
  have hplain : ∀ kind ∈ kinds, entryText entry ≠ kind.opening := by
    intro kind hmem htext
    rw [opened?_eq_some_iff.mpr ⟨htext, hmem⟩] at hopened
    cases hopened
  rw [withoutComments, if_neg, if_neg]
  · exact fun hinline => hplain .inline hinline.2 hinline.1
  · exact fun hblock => hplain .block hblock.2 hblock.1

theorem withoutComments_of_some (hopened : opened? kinds (entryText entry) = some kind)
    (rest : List (Handle × Token)) :
    withoutComments kinds (entry :: rest) =
      ((withoutComments kinds (kind.beyond rest)).1.count kind,
        (withoutComments kinds (kind.beyond rest)).2) := by
  obtain ⟨htext, hmem⟩ := opened?_eq_some_iff.mp hopened
  cases kind with
  | inline =>
      have hblock : ¬ (entryText entry = "/*" ∧ .block ∈ kinds) := by simp [htext, opening]
      rw [withoutComments, if_neg hblock, if_pos ⟨htext, hmem⟩]
      rfl
  | block =>
      rw [withoutComments, if_pos ⟨htext, hmem⟩, ← List.drop_one]
      rfl

variable (kinds) (entries : List (Handle × Token))

/-- Comments of other kinds are not counted. -/
theorem withoutComments_count :
    (.inline ∉ kinds → (withoutComments kinds entries).1.inline = 0) ∧
      (.block ∉ kinds → (withoutComments kinds entries).1.block = 0) := by
  fun_induction withoutComments kinds entries with
  | case1 => exact ⟨fun _ => rfl, fun _ => rfl⟩
  | case2 entry rest hblock _ ih => exact ⟨ih.1, fun hkinds => absurd hblock.2 hkinds⟩
  | case3 entry rest _ hinline _ ih => exact ⟨fun hkinds => absurd hinline.2 hkinds, ih.2⟩
  | case4 entry rest _ _ _ ih => exact ih

theorem withoutComments_sublist : (withoutComments kinds entries).2.Sublist entries := by
  fun_induction withoutComments kinds entries with
  | case1 => exact List.Sublist.refl []
  | case2 entry rest _ _ ih =>
      have hrest := List.dropWhile_sublist (entryText · != "*/") (l := rest)
      exact (ih.trans ((List.tail_sublist _).trans hrest)).cons entry
  | case3 entry rest _ _ _ ih => exact (ih.trans (List.dropWhile_sublist _)).cons entry
  | case4 entry rest _ _ _ ih => exact ih.cons_cons entry

end Sequence

namespace TokenList

theorem eraseAll_append (list : TokenList) (first second : List Handle) :
    list.eraseAll (first ++ second) = (list.eraseAll first).eraseAll second := by
  rw [eraseAll, List.foldl_append]
  rfl

section Place

variable {list : TokenList} {front back : List (Handle × Token)} {entry : Handle × Token}
  (hholds : list.Holds (front ++ entry :: back))

include hholds

theorem Holds.node?_eq : list.node? entry.1 =
    some ⟨entry.2, back.head?.map Prod.fst, front.getLast?.map Prod.fst⟩ :=
  hholds.node_of_split front entry.1 entry.2 back rfl

theorem Holds.text?_eq : list.text? entry.1 = some (entryText entry) := by
  rw [text?, get?, hholds.node?_eq]
  rfl

theorem Holds.next?_eq : list.next? entry.1 = back.head?.map Prod.fst := by
  rw [next?, hholds.node?_eq]
  rfl

/-- A token that is met on a walk is erased. -/
theorem Holds.erased?_eq : list.erased? entry.1 = some (list.eraseAll [entry.1]) := by
  obtain ⟨rest, _, herase⟩ := erase_of_node hholds.node?_eq
  rw [erased?, TokenList.eraseAll, List.foldl_cons, herase]
  rfl

theorem Holds.eraseAll_singleton : (list.eraseAll [entry.1]).Holds (front ++ back) := by
  have hrest := hholds.erase_without entry.1
  rw [without_of_split hholds.nodup rfl] at hrest
  exact hrest

end Place

variable {list : TokenList} {front back : List (Handle × Token)}

/-- Erasing from a place on takes the tokens of which `goes` holds and stops before the first
other one. -/
theorem Holds.erasesWhile (hholds : list.Holds (front ++ back)) (goes : String → Bool) :
    let rest := list.eraseAll ((back.takeWhile (goes ∘ entryText)).map Prod.fst)
    let later := back.dropWhile (goes ∘ entryText)
    ErasesWhile goes list (back.head?.map Prod.fst) rest (later.head?.map Prod.fst) ∧
      rest.Holds (front ++ later) := by
  induction back generalizing list with
  | nil => exact ⟨.finish list, hholds⟩
  | cons entry back ih =>
      have htext : (list.text? entry.1).any goes = goes (entryText entry) := by
        rw [hholds.text?_eq, Option.any_some]
      cases hgoes : goes (entryText entry) with
      | false =>
          have hstops : ¬ (goes ∘ entryText) entry = true := by simpa using hgoes
          rw [List.takeWhile_cons_of_neg hstops, List.dropWhile_cons_of_neg hstops]
          exact ⟨.stop (htext.trans hgoes), hholds⟩
      | true =>
          have hlasts : (goes ∘ entryText) entry = true := hgoes
          obtain ⟨hwalk, hkept⟩ := ih hholds.eraseAll_singleton
          rw [List.takeWhile_cons_of_pos hlasts, List.dropWhile_cons_of_pos hlasts, List.map_cons,
            ← List.singleton_append, eraseAll_append]
          rw [← hholds.next?_eq] at hwalk
          exact ⟨.erase (htext.trans hgoes) hholds.erased?_eq hwalk, hkept⟩

variable {kinds : List CommentKind} {entry : Handle × Token}

/-- The walk erases a comment with its marks and comes to the place after it. -/
theorem Holds.erasesComment (hholds : list.Holds (front ++ entry :: back)) {kind : CommentKind}
    (htext : entryText entry = kind.opening) :
    let rest := list.eraseAll ((entry :: kind.taken back).map Prod.fst)
    ErasesComment kind list entry.1 rest ((kind.beyond back).head?.map Prod.fst) ∧
      rest.Holds (front ++ kind.beyond back) := by
  intro rest
  cases kind with
  | inline =>
      -- The mark is the first of the tokens that the comment takes.
      have hmark : (CommentKind.inline.lasts ∘ entryText) entry = true := by
        simp only [Function.comp, htext]
        decide
      obtain ⟨hwalk, hkept⟩ := hholds.erasesWhile CommentKind.inline.lasts
      rw [List.takeWhile_cons_of_pos hmark, List.dropWhile_cons_of_pos hmark] at hwalk hkept
      have htaken : CommentKind.inline.taken back =
          back.takeWhile (CommentKind.inline.lasts ∘ entryText) := List.append_nil _
      rw [← htaken] at hwalk hkept
      exact ⟨.inline hwalk, hkept⟩
  | block =>
      obtain ⟨hwalk, hkept⟩ := hholds.eraseAll_singleton.erasesWhile CommentKind.block.lasts
      rw [← eraseAll_append, List.singleton_append, ← List.map_cons] at hwalk hkept
      rw [← hholds.next?_eq] at hwalk
      cases hend : back.dropWhile (CommentKind.block.lasts ∘ entryText) with
      | nil =>
          have htaken : CommentKind.block.taken back =
              back.takeWhile (CommentKind.block.lasts ∘ entryText) := by simp [taken, hend]
          have hbeyond : CommentKind.block.beyond back = [] := by simp [beyond, hend]
          rw [hend, ← htaken] at hwalk hkept
          rw [hbeyond]
          exact ⟨.blockToEnd hholds.erased?_eq hwalk, hkept⟩
      | cons closing later =>
          have htaken : CommentKind.block.taken back =
              back.takeWhile (CommentKind.block.lasts ∘ entryText) ++ [closing] := by
            simp [taken, hend, ownsClosing]
          have hbeyond : CommentKind.block.beyond back = later := by
            simp [beyond, hend, ownsClosing]
          have hrest : rest = (list.eraseAll ((entry ::
              back.takeWhile (CommentKind.block.lasts ∘ entryText)).map Prod.fst)).eraseAll
                [closing.1] := by
            rw [← eraseAll_append]
            simp only [rest, htaken, List.map_cons, List.map_append, List.map_nil, List.cons_append]
          rw [hend] at hwalk hkept
          rw [hbeyond, hrest, ← hkept.next?_eq]
          exact ⟨.block hholds.erased?_eq hwalk hkept.erased?_eq, hkept.eraseAll_singleton⟩

/-- The walk, the sweep and the reading agree from a place on. -/
theorem Holds.erasesComments (hholds : list.Holds (front ++ back)) (kinds : List CommentKind) :
    let sweep := CommentSweep.of kinds none back
    ErasesComments kinds list (back.head?.map Prod.fst) sweep.counts
        (list.eraseAll sweep.handles) ∧
      sweep.counts = (withoutComments kinds back).1 ∧
      (list.eraseAll sweep.handles).Holds (front ++ (withoutComments kinds back).2) := by
  induction hlength : back.length using Nat.strongRecOn generalizing list front back with
  | ind length ih =>
  cases back with
  | nil =>
      rw [withoutComments]
      exact ⟨.finish list, rfl, hholds⟩
  | cons entry back =>
      have hopening : (list.text? entry.1).bind (opened? kinds) =
          opened? kinds (entryText entry) := by
        rw [hholds.text?_eq, Option.bind_some]
      cases hopened : opened? kinds (entryText entry) with
      | none =>
          have hplace : list.Holds ((front ++ [entry]) ++ back) := by simpa using hholds
          obtain ⟨hwalk, hcounts, hkept⟩ :=
            ih back.length (by simp [← hlength]) hplace rfl
          rw [← hholds.next?_eq] at hwalk
          rw [CommentSweep.of_cons_of_none hopened, withoutComments_of_none hopened]
          exact ⟨.keep (hopening.trans hopened) hwalk, hcounts, by simpa using hkept⟩
      | some kind =>
          obtain ⟨hcomment, hrest⟩ := hholds.erasesComment (opened?_eq_some_iff.mp hopened).1
          have hshorter := (kind.beyond_sublist back).length_le
          obtain ⟨hwalk, hcounts, hkept⟩ :=
            ih (kind.beyond back).length (by rw [← hlength, List.length_cons]; omega) hrest rfl
          rw [CommentSweep.of_cons_of_some hopened, withoutComments_of_some hopened]
          dsimp only
          rw [eraseAll_append, ← hcounts]
          exact ⟨.comment (hopening.trans hopened) hcomment hwalk, rfl, hkept⟩

/-- The comments of the given kinds have been taken out of a list and counted: a walk that erases
them comes to its end with this list, and the sequence of tokens is read in this way.  The tokens
that are left keep their handles and their order, and the handles of the others name nothing. -/
structure Uncommented (list : TokenList) (kinds : List CommentKind) (counts : CommentCounts)
    (rest : TokenList) : Prop where
  walk_iff : ∀ otherCounts other,
    ErasesComments kinds list list.head otherCounts other ↔ otherCounts = counts ∧ other = rest
  reading_eq : withoutComments kinds list.entries = (counts, rest.entries)
  sublist : rest.entries.Sublist list.entries
  get?_eq : ∀ entry ∈ rest.entries, rest.get? entry.1 = some entry.2
  forgets : ∀ entry ∈ list.entries, entry ∉ rest.entries → rest.Forgets entry.1

theorem Holds.removeComments_uncommented {entries : List (Handle × Token)}
    (hholds : list.Holds entries) (kinds : List CommentKind) :
    list.Uncommented kinds (list.removeComments kinds).1 (list.removeComments kinds).2 := by
  have hfront : list.Holds ([] ++ entries) := hholds
  obtain ⟨hwalk, hcounts, hkept⟩ := hfront.erasesComments kinds
  rw [List.nil_append] at hkept
  rw [← hholds.head_eq] at hwalk
  have hsublist := withoutComments_sublist kinds entries
  rw [TokenList.removeComments, entries_eq hholds]
  refine ⟨?_, ?_, ?_, ?_, ?_⟩
  · intro otherCounts other
    refine ⟨hwalk.unique, ?_⟩
    rintro ⟨rfl, rfl⟩
    exact hwalk
  · rw [entries_eq hholds, entries_eq hkept, hcounts]
  · rw [entries_eq hholds, entries_eq hkept]
    exact hsublist
  · intro entry hmem
    rw [entries_eq hkept] at hmem
    obtain ⟨front, back, hsplit⟩ := List.append_of_mem hmem
    rw [get?, hkept.node_of_split front entry.1 entry.2 back hsplit]
    rfl
  · intro entry hmem hgone
    rw [entries_eq hholds] at hmem
    rw [entries_eq hkept] at hgone
    have hhandle : entry.1 ∉ (withoutComments kinds entries).2.map Prod.fst := by
      intro hleft
      obtain ⟨other, hother, hsame⟩ := List.mem_map.mp hleft
      -- A handle stands for one token of the sequence only.
      have heq := List.inj_on_of_nodup_map hholds.nodup (hsublist.subset hother) hmem hsame
      exact hgone (heq ▸ hother)
    apply forgets_of_get?_eq_none
    rw [get?, hkept.node?_eq_none_iff.mpr hhandle]
    rfl

/-- Whatever has been done to a list, the three removals take the comments of their kinds out of it
and count them. -/
theorem Reached.uncommented (hlist : list.Reached) :
    list.Uncommented [.inline, .block] list.stripComments.1 list.stripComments.2 ∧
      list.Uncommented [.inline] ⟨list.removeInlineComments.1, 0⟩ list.removeInlineComments.2 ∧
      list.Uncommented [.block] ⟨0, list.removeBlockComments.1⟩ list.removeBlockComments.2 := by
  obtain ⟨tape, htape⟩ := hlist.represents
  have hremoved := htape.holds.removeComments_uncommented
  have hcounts : ∀ kinds, (list.removeComments kinds).1 = (withoutComments kinds list.entries).1 :=
    fun kinds => (congrArg Prod.fst (hremoved kinds).reading_eq).symm
  refine ⟨hremoved [.inline, .block], ?_, ?_⟩
  · have hblock : (list.removeComments [.inline]).1.block = 0 := by
      rw [hcounts]
      exact (withoutComments_count [.inline] list.entries).2 (by decide)
    have hinline := hremoved [.inline]
    rw [show (list.removeComments [.inline]).1 = ⟨list.removeInlineComments.1, 0⟩ by
      rw [← hblock]; rfl] at hinline
    exact hinline
  · have hinline : (list.removeComments [.block]).1.inline = 0 := by
      rw [hcounts]
      exact (withoutComments_count [.block] list.entries).1 (by decide)
    have hblock := hremoved [.block]
    rw [show (list.removeComments [.block]).1 = ⟨0, list.removeBlockComments.1⟩ by
      rw [← hinline]; rfl] at hblock
    exact hblock

/-- Marks of each kind inside comments of the other kind, a closing mark outside of comments and a
comment that is not closed. -/
theorem uncommented_nested :
    let texts := ["*/", "a", "/*", "//", "b", "*/", "c", "//", "/*", "d", "\n", "/*", "e"]
    let grown := ((TokenList.empty 0).perform (.extend texts)).2
    let list := ((grown.perform .advance).2.perform (.erase ⟨0, 1, 0⟩)).2
    list.Reached ∧
      ErasesComments [.inline, .block] list list.head ⟨1, 2⟩ list.stripComments.2 ∧
      list.stripComments.2.entries =
        [(⟨0, 0, 0⟩, ⟨"*/"⟩), (⟨0, 6, 0⟩, ⟨"c"⟩), (⟨0, 10, 0⟩, ⟨"\n"⟩)] ∧
      withoutComments [.inline] list.entries = (⟨1, 0⟩, [(⟨0, 0, 0⟩, ⟨"*/"⟩), (⟨0, 2, 0⟩, ⟨"/*"⟩),
        (⟨0, 10, 0⟩, ⟨"\n"⟩), (⟨0, 11, 0⟩, ⟨"/*"⟩), (⟨0, 12, 0⟩, ⟨"e"⟩)]) ∧
      withoutComments [.block] list.entries =
        (⟨0, 2⟩, [(⟨0, 0, 0⟩, ⟨"*/"⟩), (⟨0, 6, 0⟩, ⟨"c"⟩), (⟨0, 7, 0⟩, ⟨"//"⟩)]) := by
  intro texts grown list
  have hreached : list.Reached := (((Reached.empty 0).perform _).perform _).perform _
  obtain ⟨hboth, hinline, hblock⟩ := hreached.uncommented
  refine ⟨hreached, ?_, by decide +kernel, ?_, ?_⟩
  · rw [hboth.walk_iff]
    exact ⟨by decide +kernel, rfl⟩
  · rw [hinline.reading_eq]
    decide +kernel
  · rw [hblock.reading_eq]
    decide +kernel

end TokenList

end LineLexer
