import LineLexer.Proofs.Scan.Reconstruction
/-!
The marks of comments among the tokens of a scan.

Three actions end a token and enter or leave a comment.  Each of them is taken in one
situation only, after the first character of its mark and on the second one.  Within the modes
in which the mark may occur the converse holds too: a token that spells the mark is ended by
its action, since the table never stores the second character of the mark.
-/

namespace LineLexer

/-- The marks that enter and leave comments. -/
inductive CommentMark where
  | inlineOpening
  | blockOpening
  | blockClosing
deriving DecidableEq

namespace CommentMark

/-- The state before the mark. -/
def start : CommentMark → State
  | .inlineOpening | .blockOpening => .start
  | .blockClosing => .commentStart

/-- The state between the two characters of the mark. -/
def middle : CommentMark → State
  | .inlineOpening | .blockOpening => .slash
  | .blockClosing => .commentStar

def first : CommentMark → Char
  | .inlineOpening | .blockOpening => '/'
  | .blockClosing => '*'

def second : CommentMark → Char
  | .inlineOpening | .blockClosing => '/'
  | .blockOpening => '*'

def firstKind : CommentMark → CharClass
  | .inlineOpening | .blockOpening => .slash
  | .blockClosing => .star

def secondKind : CommentMark → CharClass
  | .inlineOpening | .blockClosing => .slash
  | .blockOpening => .star

def action : CommentMark → Action
  | .inlineOpening => .startInlineComment
  | .blockOpening => .startBlockComment
  | .blockClosing => .stopBlockComment

variable (mark : CommentMark)

theorem action_consumes : mark.action.consumes = true := by
  cases mark <;> rfl

theorem action_ne_store : mark.action ≠ .store := by
  cases mark <;> decide

/-- The action of a mark is taken on its second character after its first one, nowhere else. -/
theorem transition_action_iff : ∀ state kind, (transition state kind).action = mark.action ↔
    state = mark.middle ∧ kind = mark.secondKind := by
  cases mark <;> decide

/-- Only the first character of a mark leads to the state in its middle. -/
theorem transition_store_middle_iff : ∀ state kind,
    ((transition state kind).action = .store ∧ (transition state kind).next = mark.middle) ↔
      state = mark.start ∧ kind = mark.firstKind := by
  cases mark <;> decide

theorem isStart_start : mark.start.isStart = true := by
  cases mark <;> rfl

theorem isStart_middle : mark.middle.isStart = false := by
  cases mark <;> rfl

theorem char?_firstKind : mark.firstKind.char? = some mark.first := by
  cases mark <;> rfl

theorem char?_secondKind : mark.secondKind.char? = some mark.second := by
  cases mark <;> rfl

theorem classify_first {mode : Mode} (hmode : mode.startState = mark.start) :
    CharClass.classify mode mark.first = mark.firstKind := by
  cases mark <;> cases mode <;> first | rfl | cases hmode

theorem classify_second {mode : Mode} (hmode : mode.startState = mark.start) :
    CharClass.classify mode mark.second = mark.secondKind := by
  cases mark <;> cases mode <;> first | rfl | cases hmode

end CommentMark

namespace Scan.Coherent

variable {scan : Scan} (hcoherent : scan.Coherent) {mark : CommentMark}

include hcoherent

/-- In the middle of a mark its first character has been read. -/
theorem text_eq_first (hstate : scan.state = mark.middle) : scan.text = [mark.first] := by
  rw [Scan.Coherent, hstate] at hcoherent
  rcases List.eq_nil_or_concat' scan.kinds with hnil | ⟨front, kind, hkinds⟩
  · rw [hnil] at hcoherent
    have hstart := (Mode.isStart_of_reading hcoherent).mpr rfl
    rw [mark.isStart_middle] at hstart
    cases hstart
  · rw [hkinds, State.reading_concat] at hcoherent
    obtain ⟨state, hfront, hstore⟩ := hcoherent
    obtain ⟨rfl, rfl⟩ := (mark.transition_store_middle_iff state kind).mp hstore
    obtain rfl := (Mode.isStart_of_reading hfront).mp mark.isStart_start
    rw [Scan.kinds, List.nil_append] at hkinds
    have hchars : (scan.text.map (CharClass.classify scan.mode)).map CharClass.char? =
        [mark.first].map some := by
      rw [hkinds, List.map_singleton, mark.char?_firstKind, List.map_singleton]
    exact CharClass.text_eq_of_map_classify hchars

end Scan.Coherent

/-- In code a star is stored, and a slash after it is not. -/
theorem Mode.reading_blockClosing : ∀ mode : Mode, mode.startState = .start →
    mode.startState.reading (['*'].map (CharClass.classify mode)) = some .star ∧
      (transition .star (CharClass.classify mode '/')).action = .acceptBack1 := by
  decide

/-- What a scan has read starts with nothing that the table refuses. -/
theorem Scan.Coherent.reading_ne_none {scan : Scan} (hcoherent : scan.Coherent)
    {front back : List Char} (htext : scan.text = front ++ back) :
    scan.mode.startState.reading (front.map (CharClass.classify scan.mode)) ≠ none := by
  intro hnone
  rw [Scan.Coherent, Scan.kinds, htext, List.map_append, State.reading_append, hnone] at hcoherent
  cases hcoherent

namespace Step

variable {t : Step} {mark : CommentMark}

/-- Where the action of a mark is taken. -/
theorem state_of_mark (haction : t.action = mark.action) :
    t.scan.state = mark.middle ∧ t.kind = mark.secondKind := by
  have hconsumes : t.action.consumes = true := by rw [haction, mark.action_consumes]
  rw [← mark.transition_action_iff, transition_action (ne_startInclude_of_consumes hconsumes),
    haction]

/-- The action of a mark ends a token that spells the mark. -/
theorem ended_of_mark (hcoherent : t.scan.Coherent) (haction : t.action = mark.action) :
    t.ended.reverse = [mark.first, mark.second] := by
  obtain ⟨hstate, hkind⟩ := state_of_mark haction
  have hconsumes : t.action.consumes = true := by rw [haction, mark.action_consumes]
  obtain ⟨c, hsymbol⟩ := exists_char_of_consumes hconsumes
  have hclass : CharClass.classify t.scan.mode c = mark.secondKind := by
    rw [← hkind, Step.kind, hsymbol, Symbol.classify]
  have hc : c = mark.second :=
    CharClass.eq_of_char?_classify (by rw [hclass, mark.char?_secondKind])
  rw [ended_of_completes hsymbol hconsumes (by rw [haction]; exact mark.action_ne_store),
    hcoherent.text_eq_first hstate, hc]
  rfl

/-- How the text of a token that a step ends has been read: its last character completes what the
others have led to, or all of it has led to the state of the scan, or it has led there with one
character more, which is given back. -/
theorem ended_cases (hcoherent : t.scan.Coherent) {word : List Char} (hword : word ≠ [])
    (hended : t.ended.reverse = word) :
    (∃ front c, word = front ++ [c] ∧ t.scan.text = front ∧ t.symbol = .char c ∧
        t.action.consumes = true ∧ t.action ≠ .store) ∨
      (t.scan.text = word ∧ (t.action = .acceptBack1 ∨ t.action = .startInclude)) ∨
      ∃ last, t.scan.text = word ++ [last] ∧ t.action = .acceptBack2 := by
  rcases shape hcoherent with ⟨_, _, haction⟩ | ⟨haction, _, _⟩ | ⟨c, hsymbol, hconsumes, hstore⟩ |
    ⟨haction, _⟩ | ⟨haction, last, first, others, hpending⟩
  · rw [ended_of_store haction] at hended
    exact absurd hended.symm hword
  · rw [ended_of_ignore haction] at hended
    exact absurd hended.symm hword
  · rw [ended_of_completes hsymbol hconsumes hstore] at hended
    exact Or.inl ⟨_, c, hended.symm, rfl, hsymbol, hconsumes, hstore⟩
  · rw [ended_of_givesBack haction] at hended
    exact Or.inr (Or.inl ⟨hended, haction⟩)
  · rw [ended_of_givesBackTwo haction, hpending, List.tail_cons] at hended
    refine Or.inr (Or.inr ⟨last, ?_, haction⟩)
    rw [Scan.text, hpending, List.reverse_cons, hended]

/-- A token whose last character the table does not store was completed by this character. -/
theorem completes_of_ended (hcoherent : t.scan.Coherent) {front : List Char} {c : Char}
    {state : State}
    (hread : t.scan.mode.startState.reading (front.map (CharClass.classify t.scan.mode)) =
      some state)
    (hstop : (transition state (CharClass.classify t.scan.mode c)).action ≠ .store)
    (hended : t.ended.reverse = front ++ [c]) :
    t.scan.state = state ∧ t.action = (transition state (CharClass.classify t.scan.mode c)).action ∧
      t.action.consumes = true := by
  have hnone : t.scan.mode.startState.reading
      ((front ++ [c]).map (CharClass.classify t.scan.mode)) = none := by
    rw [Option.eq_none_iff_forall_ne_some]
    intro last hlast
    rw [List.map_append, List.map_singleton, State.reading_concat, hread] at hlast
    obtain ⟨middle, hmiddle, hstore, _⟩ := hlast
    exact hstop (Option.some.inj hmiddle ▸ hstore)
  rcases ended_cases hcoherent (by simp) hended with
    ⟨others, d, hword, htext, hsymbol, hconsumes, _⟩ | ⟨htext, _⟩ | ⟨last, htext, _⟩
  · obtain ⟨rfl, hlast⟩ := List.append_inj' hword rfl
    obtain ⟨rfl, _⟩ := List.cons.inj hlast
    rw [Scan.Coherent, Scan.kinds, htext, hread] at hcoherent
    have hstate := (Option.some.inj hcoherent).symm
    have hkind : t.kind = .classify t.scan.mode c := by
      rw [Step.kind, hsymbol]
      rfl
    refine ⟨hstate, ?_, hconsumes⟩
    rw [← transition_action (ne_startInclude_of_consumes hconsumes), hkind, hstate]
  · exact absurd hnone (hcoherent.reading_ne_none (htext.trans (List.append_nil _).symm))
  · exact absurd hnone (hcoherent.reading_ne_none htext)

/-- In the modes of a mark every token that spells it is ended by its action. -/
theorem mark_of_ended (hcoherent : t.scan.Coherent)
    (hmode : t.scan.mode.startState = mark.start)
    (hended : t.ended.reverse = [mark.first, mark.second]) : t.action = mark.action := by
  have hfirst := (mark.transition_store_middle_iff _ _).mpr ⟨rfl, rfl⟩
  have hsecond := (mark.transition_action_iff _ _).mpr ⟨rfl, rfl⟩
  have hread : t.scan.mode.startState.reading
      ([mark.first].map (CharClass.classify t.scan.mode)) = some mark.middle := by
    rw [List.map_singleton, mark.classify_first hmode, hmode, State.reading, if_pos hfirst.1,
      hfirst.2, State.reading]
  rw [← mark.classify_second hmode] at hsecond
  have hstop : (transition mark.middle (CharClass.classify t.scan.mode mark.second)).action ≠
      .store := by
    rw [hsecond]
    exact mark.action_ne_store
  rw [(completes_of_ended hcoherent hread hstop hended).2.1, hsecond]

/-- In code the closing mark of block comments is no token: the star ends before the slash. -/
theorem ended_ne_blockClosing (hcoherent : t.scan.Coherent)
    (hcode : t.scan.mode.startState = .start) : t.ended.reverse ≠ ['*', '/'] := by
  intro hended
  obtain ⟨hstar, hslash⟩ := Mode.reading_blockClosing t.scan.mode hcode
  obtain ⟨_, haction, hconsumes⟩ :=
    completes_of_ended hcoherent hstar (by rw [hslash]; decide) hended
  rw [haction, hslash] at hconsumes
  cases hconsumes

end Step

end LineLexer
