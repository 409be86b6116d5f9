import LineLexer.Proofs.Scan.Position
/-!
The run over a line as a loop over offsets.

A run carries the symbols that are left and puts back those that are to be looked at again.
The same steps are taken by a loop that keeps the line as it is and looks at the symbol at the
offset of the scan until the offset is behind the end of the line.  The offset may stand still or
go back, so that the loop ends is not seen from it; but the loop follows the run, and of a run the
number of steps is bounded by the weight that every step lowers.
-/

namespace LineLexer

/-- The symbol at an offset of a line.  Behind the last character stands the end of the line. -/
def symbolAt (text : List Char) (offset : Nat) : Symbol :=
  (text[offset]?).elim .endOfLine .char

theorem symbolAt_eq_endOfLine_iff {text : List Char} {offset : Nat} :
    symbolAt text offset = .endOfLine ↔ text.length ≤ offset := by
  rw [← List.getElem?_eq_none_iff, symbolAt]
  cases text[offset]? <;> simp

/-- The run of a loop that takes steps on the symbols at the offset until the offset is behind the
end of the line.  A loop that never gets there has no run. -/
inductive Scan.Loops (line : List Char) : Scan → Run → Prop
  | stop {scan : Scan} (hend : line.length < scan.offset) : Loops line scan ⟨[], scan⟩
  | step {scan : Scan} {later : Run} (hinside : scan.offset ≤ line.length)
      (hlater : Loops line (Step.mk scan (symbolAt line scan.offset)).after later) :
      Loops line scan ⟨⟨scan, symbolAt line scan.offset⟩ :: later.steps, later.last⟩

/-- A loop has one run at most. -/
theorem Scan.Loops.unique {line : List Char} {scan : Scan} {run other : Run}
    (hrun : scan.Loops line run) (hother : scan.Loops line other) : other = run := by
  induction hrun generalizing other with
  | stop hend =>
      cases hother with
      | stop _ => rfl
      | step hinside _ => exact absurd hinside (Nat.not_le_of_lt hend)
  | step hinside _ ih =>
      cases hother with
      | stop hend => exact absurd hinside (Nat.not_le_of_lt hend)
      | step _ hlater => rw [ih hlater]

namespace Scan.Within

variable {line : List Char} {scan : Scan} {symbol : Symbol} {rest : List Symbol}

/-- The first symbol that is left is the one at the offset. -/
theorem symbol_eq (hwithin : Within line scan (symbol :: rest)) :
    scan.offset ≤ line.length ∧ symbol = symbolAt line scan.offset := by
  cases hwithin with
  | finished _ _ hsymbols => cases hsymbols
  | inside read left hline hoffset _ hsymbols =>
      rw [hline, hoffset, symbolAt]
      cases left with
      | nil => simpa using (List.cons.inj hsymbols).1
      | cons c others => simpa using (List.cons.inj hsymbols).1

theorem offset_of_nil (hwithin : Within line scan []) : scan.offset = line.length + 1 := by
  cases hwithin with
  | inside read left _ _ _ hsymbols => exact absurd hsymbols.symm (lineSymbols_ne_nil left)
  | finished hoffset _ _ => exact hoffset

/-- No more characters are pending than have been read. -/
theorem length_pending_le (hwithin : Within line scan (symbol :: rest)) :
    scan.pending.length ≤ scan.offset := by
  cases hwithin with
  | finished _ _ hsymbols => cases hsymbols
  | inside read left _ hoffset htext _ =>
      rw [hoffset]
      simpa [Scan.text] using htext.length_le

end Scan.Within

/-- The offset after a step and the symbols that are given back make up the offset behind the
symbol, so nothing is subtracted from too small an offset. -/
theorem Step.offset_after {line : List Char} {t : Step} {rest : List Symbol}
    (hcoherent : t.scan.Coherent) (hwithin : Scan.Within line t.scan (t.symbol :: rest)) :
    t.after.offset + t.action.givesBack = t.scan.offset + 1 := by
  have hoffset : t.after.offset = t.scan.offset + 1 - t.unread.length := rfl
  rcases shape hcoherent with ⟨c, _, haction⟩ | ⟨haction, _, _⟩ | ⟨c, _, hconsumes, _⟩ |
    ⟨haction, _⟩ | ⟨haction, last, first, others, hpending⟩
  · rw [after_offset_of_unread (unread_of_consumes (by rw [haction]; rfl)), haction]
    rfl
  · have hunread : t.unread = [] := by simp [Step.unread, haction]
    rw [after_offset_of_unread hunread, haction]
    rfl
  · rw [after_offset_of_unread (unread_of_consumes hconsumes)]
    cases haction : t.action <;> simp_all [Action.consumes, Action.givesBack]
  · rw [hoffset, unread_of_givesBack haction]
    rcases haction with haction | haction <;> rw [haction] <;> rfl
  · -- The character that is given back has been read on this line.
    have hunread : t.unread.length = 2 := by simp [Step.unread, haction, hpending]
    have hread := hwithin.length_pending_le
    rw [hpending, List.length_cons, List.length_cons] at hread
    rw [hoffset, hunread, haction, Action.givesBack]
    omega

/-- A run takes at most three steps for every symbol. -/
theorem Scan.length_run_le (scan : Scan) (symbols : List Symbol) :
    (scan.run symbols).steps.length ≤ 3 * symbols.length + scan.state.weight := by
  induction scan, symbols using Scan.run_induction with
  | hnil scan => simp
  | hcons t rest ih =>
      have hweight := t.weight_after
      rw [List.length_append] at ih
      rw [run_cons_steps, List.length_cons, List.length_cons]
      omega

/-- The loop follows the run. -/
theorem Scan.loops_run {line : List Char} (scan : Scan) (symbols : List Symbol) :
    scan.Coherent → Scan.Within line scan symbols → scan.Loops line (scan.run symbols) := by
  induction scan, symbols using Scan.run_induction with
  | hnil scan =>
      intro _ hwithin
      have hend : line.length < scan.offset := by
        rw [hwithin.offset_of_nil]
        exact Nat.lt_succ_self _
      rw [Scan.run_nil]
      exact .stop hend
  | hcons t rest ih =>
      intro hcoherent hwithin
      have hlater := ih (Step.coherent_after hcoherent) (Step.within_after hcoherent hwithin)
      obtain ⟨scan, symbol⟩ := t
      obtain ⟨hinside, hsymbol⟩ := hwithin.symbol_eq
      obtain rfl : symbol = symbolAt line scan.offset := hsymbol
      rw [Scan.run]
      exact .step hinside hlater

/-- The loop over a line ends, whatever mode it starts in: after at most three steps for each
character and for the end of the line, behind the end of the line, with nothing pending.  Its steps
are those of the run over the line.  Each of them moves the offset forward by one symbol, but for
the symbols that its action gives back, and these have been read. -/
theorem scanLine_loop (mode : Mode) (line : List Char) :
    let run := scanLine mode line
    (∀ other, (Scan.ofMode mode).Loops line other ↔ other = run) ∧
      run.steps.length ≤ 3 * (line.length + 1) ∧
      run.last.offset = line.length + 1 ∧ run.last.pending = [] ∧
      ∀ t ∈ run.steps, t.after.offset + t.action.givesBack = t.scan.offset + 1 := by
  intro run
  have hcoherent := Scan.coherent_ofMode mode
  have hwithin := Scan.within_ofMode mode line
  have hlast := scanLine_last_within mode line
  have hloops : (Scan.ofMode mode).Loops line run := Scan.loops_run _ _ hcoherent hwithin
  refine ⟨fun other => ⟨hloops.unique, fun hsame => hsame ▸ hloops⟩, ?_, hlast.offset_of_nil,
    hlast.pending_eq_nil, ?_⟩
  · have hlength := Scan.length_run_le (Scan.ofMode mode) (lineSymbols line)
    have hweight : (Scan.ofMode mode).state.weight = 0 := mode.startState_weight
    have hsymbols : (lineSymbols line).length = line.length + 1 := by simp [lineSymbols]
    rw [hweight, hsymbols] at hlength
    exact hlength
  · intro t ht
    obtain ⟨before, after, hsplit⟩ := List.append_of_mem ht
    obtain ⟨rest, hcoherent, hwithin, _⟩ := scanLine_steps_within hsplit
    exact Step.offset_after hcoherent hwithin

end LineLexer
