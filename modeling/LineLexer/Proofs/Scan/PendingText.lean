import LineLexer.Proofs.Scan.Resumption
/-!
The characters a scan holds of its current token.

They are the part of the line between the start of the token and the offset.  Storing a character
moves the offset and keeps the start, and every other step empties what is held, so nothing is held
twice and nothing is held that stands elsewhere.  A step that ends a token without adding to it
therefore has something to deliver, also where it gives the last character back and where the white
space at the end of an inline comment is cut off.
-/

namespace LineLexer

/-- A scan holds nothing at the start of a token.  Inside a token it holds the characters of the
line from the start of the token up to the offset, and the first of them is not white space. -/
structure Scan.HoldsSlice (chars : List Char) (scan : Scan) : Prop where
  isStart_iff : scan.state.isStart = true ↔ scan.pending = []
  start_lt : scan.pending ≠ [] → scan.start < scan.offset
  offset_le : scan.offset ≤ chars.length
  text_eq : scan.pending ≠ [] → scan.text = (chars.take scan.offset).drop scan.start
  solid_text : scan.pending ≠ [] → Solid scan.text

/-- What a scan holds is enough for what a step takes away from it. -/
structure Step.EndsHeld (chars : List Char) (t : Step) : Prop where
  /-- A token that ends before the symbol is held. -/
  givesBack : t.action = .acceptBack1 ∨ t.action = .startInclude → 1 ≤ t.scan.pending.length
  /-- A character that is given back is the one before the offset, and there is one before it in
  the token. -/
  givesBackTwo : t.action = .acceptBack2 → 2 ≤ t.scan.pending.length ∧
    t.scan.pending.head? = chars[t.scan.offset - 1]?
  /-- Whatever else a step does than storing or skipping its symbol, it delivers a token. -/
  delivers : t.action ≠ .store → t.action ≠ .ignore → ∃ token, t.token? = some token ∧ token ≠ []

namespace Step

variable {chars : List Char} {t : Step} {rest : List Symbol}

/-- The character held last stands before the offset. -/
theorem head?_pending_eq (hwithin : Scan.Within chars t.scan (t.symbol :: rest))
    (hpending : t.scan.pending ≠ []) : t.scan.pending.head? = chars[t.scan.offset - 1]? := by
  cases hwithin with
  | finished _ _ hsymbols => cases hsymbols
  | inside read left hline hoffset htext _ =>
      obtain ⟨front, rfl⟩ := htext
      obtain ⟨last, others, hlast⟩ := List.exists_cons_of_ne_nil hpending
      have htext : t.scan.text = others.reverse ++ [last] := by
        rw [Scan.text, hlast, List.reverse_cons]
      rw [hlast, hline, hoffset, htext]
      simp

variable (hcoherent : t.scan.Coherent)

include hcoherent

theorem pending_ne_nil_of_givesBack (haction : t.action = .acceptBack1 ∨ t.action = .startInclude) :
    t.scan.pending ≠ [] := by
  rcases shape hcoherent with ⟨_, _, hstore⟩ | ⟨hignore, _, _⟩ | ⟨_, _, hconsumes, _⟩ |
    ⟨_, hpending⟩ | ⟨hback, _, _, _, _⟩
  · simp [hstore] at haction
  · simp [hignore] at haction
  · rcases haction with haction | haction <;> simp [haction, Action.consumes] at hconsumes
  · exact hpending
  · simp [hback] at haction

theorem exists_pending_of_givesBackTwo (haction : t.action = .acceptBack2) :
    ∃ last first others, t.scan.pending = last :: first :: others := by
  rcases shape hcoherent with ⟨_, _, hstore⟩ | ⟨hignore, _, _⟩ | ⟨_, _, hconsumes, _⟩ |
    ⟨hback, _⟩ | ⟨_, last, first, others, hpending⟩
  · simp [hstore] at haction
  · simp [hignore] at haction
  · simp [haction, Action.consumes] at hconsumes
  · simp [haction] at hback
  · exact ⟨last, first, others, hpending⟩

variable (hwithin : Scan.Within chars t.scan (t.symbol :: rest))

include hwithin

theorem endsHeld : t.EndsHeld chars where
  givesBack haction := List.length_pos_of_ne_nil (pending_ne_nil_of_givesBack hcoherent haction)
  givesBackTwo haction := by
    obtain ⟨last, first, others, hpending⟩ := exists_pending_of_givesBackTwo hcoherent haction
    refine ⟨by simp [hpending], ?_⟩
    exact head?_pending_eq hwithin (by simp [hpending])
  delivers hstore hignore := by
    have htoken := token?_eq_some_body hcoherent hstore hignore
    obtain ⟨c, others, hbody, _⟩ := solid_body hcoherent hstore hignore
    exact ⟨t.body, htoken, by simp [hbody]⟩

/-- What is held ends at the offset and is as long as the start says. -/
theorem holdsSlice (hanchored : t.scan.Anchored) : t.scan.HoldsSlice chars := by
  cases hwithin with
  | finished _ _ hsymbols => cases hsymbols
  | inside read left hline hoffset htext _ =>
      obtain ⟨front, hfront⟩ := htext
      have hlength : front.length + t.scan.pending.length = t.scan.offset := by
        rw [hoffset, ← hfront, List.length_append, Scan.text, List.length_reverse]
      refine ⟨hcoherent.isStart_iff, ?_, ?_, ?_, ?_⟩
      · intro hpending
        have hstart := hanchored hpending
        have hheld := List.length_pos_of_ne_nil hpending
        omega
      · rw [hline, hoffset, List.length_append]
        exact Nat.le_add_right _ _
      · intro hpending
        have hstart : t.scan.start = front.length := by
          have hkept := hanchored hpending
          omega
        rw [hline, hoffset, List.take_left, hstart, ← hfront, List.drop_left]
      · intro hpending
        cases htext : t.scan.text with
        | nil => exact absurd (Scan.text_eq_nil_iff.mp htext) hpending
        | cons c others => exact ⟨c, others, rfl, hcoherent.not_isBlank_of_text htext⟩

end Step

theorem Scan.coherent_resume (mode : Mode) (start : Nat) : (Scan.resume mode start).Coherent := by
  rfl

theorem Scan.within_resume (mode : Mode) (start : Nat) (chars : List Char) :
    Scan.Within chars (Scan.resume mode start) (lineSymbols chars) :=
  .inside [] chars rfl rfl (List.suffix_refl []) rfl

theorem Scan.anchored_resume (mode : Mode) (start : Nat) : (Scan.resume mode start).Anchored :=
  fun hpending => absurd rfl hpending

/-- Before every step of a scan of a line, in whatever mode the line starts and whatever start of a
token is left from earlier lines, what is held is the slice of the line from the start of the token
to the offset, and it is enough for the step. -/
theorem Scan.run_holdsSlice (mode : Mode) (start : Nat) (chars : List Char) :
    ∀ t ∈ ((Scan.resume mode start).run (lineSymbols chars)).steps,
      t.scan.HoldsSlice chars ∧ t.EndsHeld chars := by
  intro t ht
  obtain ⟨before, after, hsplit⟩ := List.append_of_mem ht
  obtain ⟨rest, ⟨hcoherent, hwithin, hanchored⟩, _⟩ :=
    Scan.run_steps_invariant
      (P := fun scan symbols => scan.Coherent ∧ Scan.Within chars scan symbols ∧ scan.Anchored)
      (fun _ _ h => ⟨Step.coherent_after h.1, Step.within_after h.1 h.2.1,
        Step.anchored_after h.1 h.2.2⟩)
      ⟨Scan.coherent_resume mode start, Scan.within_resume mode start chars,
        Scan.anchored_resume mode start⟩ hsplit
  exact ⟨Step.holdsSlice hcoherent hwithin hanchored, Step.endsHeld hcoherent hwithin⟩

/-- A sign that is given back in an include, and an inline comment with white space at its end. -/
theorem Scan.run_holdsSlice_exponent :
    let chars := "#include 1e+x//\ta ".toList
    let run := (Scan.resume .normal 7).run (lineSymbols chars)
    let sign : Step := ⟨⟨.includeLiteral, .numberSign, ['+', 'e', '1'], 9, 12⟩, .char 'x'⟩
    let body : Step := ⟨⟨.inlineComment, .inlineBody, [' ', 'a'], 16, 18⟩, .endOfLine⟩
    (sign ∈ run.steps ∧ sign.action = .acceptBack2 ∧ body ∈ run.steps) ∧
      sign.scan.text = (chars.take 12).drop 9 ∧
      (2 ≤ sign.scan.pending.length ∧ sign.scan.pending.head? = chars[11]?) ∧
      (∃ token, sign.token? = some token ∧ token ≠ []) ∧
      body.scan.text = (chars.take 18).drop 16 ∧
      ∃ token, body.token? = some token ∧ token ≠ [] := by
  intro chars run sign body
  have hmem : sign ∈ run.steps ∧ sign.action = .acceptBack2 ∧ body ∈ run.steps := by
    decide +kernel
  obtain ⟨hsign, hback, hbody⟩ := hmem
  obtain ⟨hsignHolds, hsignEnds⟩ := Scan.run_holdsSlice .normal 7 chars sign hsign
  obtain ⟨hbodyHolds, hbodyEnds⟩ := Scan.run_holdsSlice .normal 7 chars body hbody
  refine ⟨⟨hsign, hback, hbody⟩, hsignHolds.text_eq (by decide), hsignEnds.givesBackTwo hback,
    hsignEnds.delivers (by decide) (by decide), hbodyHolds.text_eq (by decide), ?_⟩
  exact hbodyEnds.delivers (by decide +kernel) (by decide +kernel)

end LineLexer
