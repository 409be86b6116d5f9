import LineLexer.Proofs.Scan.Coherence
/-!
Where in its line a scan stands.

At every moment of a run the line splits into what has been read and what is left, the offset
of the scan is the length of the first part, and the characters of the current token are the
end of it.  A step moves the border forward, leaves it or moves it back by one character;
in each case the symbols that the run goes on with are those of what is left.
-/

namespace LineLexer

@[simp] theorem lineSymbols_nil : lineSymbols [] = [.endOfLine] := by
  rfl

@[simp] theorem lineSymbols_cons (c : Char) (rest : List Char) :
    lineSymbols (c :: rest) = .char c :: lineSymbols rest := by
  rfl

theorem lineSymbols_ne_nil (line : List Char) : lineSymbols line ≠ [] := by
  simp [lineSymbols]

/-- A scan of a line with the symbols that are left. -/
inductive Scan.Within (line : List Char) (scan : Scan) (symbols : List Symbol) : Prop
  | inside (read left : List Char) (hline : line = read ++ left)
      (hoffset : scan.offset = read.length) (htext : scan.text <:+ read)
      (hsymbols : symbols = lineSymbols left)
  | finished (hoffset : scan.offset = line.length + 1) (hpending : scan.pending = [])
      (hsymbols : symbols = [])

theorem Scan.within_ofMode (mode : Mode) (line : List Char) :
    Scan.Within line (Scan.ofMode mode) (lineSymbols line) :=
  .inside [] line rfl rfl (List.suffix_refl []) rfl

theorem Scan.Within.pending_eq_nil {line : List Char} {scan : Scan}
    (hwithin : Scan.Within line scan []) : scan.pending = [] := by
  cases hwithin with
  | inside read left _ _ _ hsymbols => exact absurd hsymbols.symm (lineSymbols_ne_nil left)
  | finished _ hpending _ => exact hpending

/-- What is left of the line when the next symbol is a character. -/
theorem Scan.Within.left_of_char {line : List Char} {scan : Scan} {c : Char}
    {rest : List Symbol} (hwithin : Scan.Within line scan (.char c :: rest)) :
    ∃ others, line.drop scan.offset = c :: others ∧ rest = lineSymbols others := by
  cases hwithin with
  | finished _ _ hsymbols => cases hsymbols
  | inside read left hline hoffset _ hsymbols =>
      cases left with
      | nil => cases hsymbols
      | cons d others =>
          simp only [lineSymbols_cons, List.cons.injEq, Symbol.char.injEq] at hsymbols
          obtain ⟨rfl, rfl⟩ := hsymbols
          refine ⟨others, ?_, rfl⟩
          rw [hline, hoffset, List.drop_left]

namespace Step

variable {t : Step} {rest : List Symbol} {line : List Char}

theorem unread_of_consumes (hconsumes : t.action.consumes = true) : t.unread = [] := by
  cases haction : t.action <;> simp_all [Step.unread, Action.consumes]

theorem unread_of_givesBack (haction : t.action = .acceptBack1 ∨ t.action = .startInclude) :
    t.unread = [t.symbol] := by
  rcases haction with haction | haction <;> simp [Step.unread, haction]

theorem after_offset_of_unread (hunread : t.unread = []) :
    t.after.offset = t.scan.offset + 1 := by
  simp [Step.after, hunread]

theorem after_text_eq_nil (hcoherent : t.scan.Coherent) (haction : t.action ≠ .store) :
    t.after.text = [] :=
  Scan.text_eq_nil_iff.mpr (after_pending_of_not_store hcoherent haction)

/-- The scan reads on where its step ended. -/
theorem within_after (hcoherent : t.scan.Coherent)
    (hwithin : Scan.Within line t.scan (t.symbol :: rest)) :
    Scan.Within line t.after (t.unread ++ rest) := by
  cases hwithin with
  | finished _ _ hsymbols => cases hsymbols
  | inside read left hline hoffset htext hsymbols =>
  -- The five things a step does, each with the place where it leaves the border.
  rcases shape hcoherent with ⟨c, hsymbol, haction⟩ | ⟨haction, hpending, _⟩ |
    ⟨c, hsymbol, hconsumes, haction⟩ | ⟨haction, _⟩ | ⟨haction, last, first, others, hpending⟩
  · have hunread : t.unread = [] := unread_of_consumes (by rw [haction]; rfl)
    cases left with
    | nil => simp [hsymbol] at hsymbols
    | cons d left =>
        simp only [lineSymbols_cons, hsymbol, List.cons.injEq, Symbol.char.injEq] at hsymbols
        obtain ⟨rfl, rfl⟩ := hsymbols
        refine .inside (read ++ [c]) left (by simp [hline]) ?_ ?_ (by simp [hunread])
        · simp [after_offset_of_unread hunread, hoffset]
        · obtain ⟨front, rfl⟩ := htext
          refine ⟨front, ?_⟩
          simp [Scan.text, after_pending_of_store hsymbol haction]
  · have hunread : t.unread = [] := by simp [Step.unread, haction]
    have hnil := after_text_eq_nil hcoherent (t := t) (by simp [haction])
    cases left with
    | nil =>
        simp only [lineSymbols_nil, List.cons.injEq] at hsymbols
        refine .finished ?_ (Scan.text_eq_nil_iff.mp hnil) (by simp [hunread, hsymbols.2])
        simp [after_offset_of_unread hunread, hoffset, hline]
    | cons d left =>
        simp only [lineSymbols_cons, List.cons.injEq] at hsymbols
        refine .inside (read ++ [d]) left (by simp [hline]) ?_ ?_
          (by simp [hunread, hsymbols.2])
        · simp [after_offset_of_unread hunread, hoffset]
        · rw [hnil]
          exact List.nil_suffix
  · have hunread : t.unread = [] := unread_of_consumes hconsumes
    cases left with
    | nil => simp [hsymbol] at hsymbols
    | cons d left =>
        simp only [lineSymbols_cons, List.cons.injEq] at hsymbols
        refine .inside (read ++ [d]) left (by simp [hline]) ?_ ?_
          (by simp [hunread, hsymbols.2])
        · simp [after_offset_of_unread hunread, hoffset]
        · rw [after_text_eq_nil hcoherent haction]
          exact List.nil_suffix
  · have hunread := unread_of_givesBack haction
    refine .inside read left hline ?_ ?_ (by simp [hunread, hsymbols])
    · simp [Step.after, hunread, hoffset]
    · rw [after_text_eq_nil hcoherent (by rcases haction with h | h <;> simp [h])]
      exact List.nil_suffix
  · have hunread : t.unread = [.char last, t.symbol] := by
      simp [Step.unread, haction, hpending]
    obtain ⟨front, rfl⟩ := htext
    refine .inside (front ++ (first :: others).reverse) (last :: left) ?_ ?_ ?_ ?_
    · simp [hline, Scan.text, hpending]
    · simp [Step.after, hunread, hoffset, Scan.text, hpending]
    · rw [after_text_eq_nil hcoherent (by simp [haction])]
      exact List.nil_suffix
    · simp [hunread, hsymbols]

end Step

/-- Before every step of a run over a line the scan is coherent and stands within the line. -/
theorem scanLine_steps_within {mode : Mode} {line : List Char} {before after : List Step}
    {t : Step} (hsplit : (scanLine mode line).steps = before ++ t :: after) :
    ∃ rest, t.scan.Coherent ∧ Scan.Within line t.scan (t.symbol :: rest) ∧
      (t.scan.run (t.symbol :: rest)).steps = t :: after := by
  obtain ⟨rest, ⟨hcoherent, hwithin⟩, hsteps⟩ :=
    Scan.run_steps_invariant
      (P := fun scan symbols => scan.Coherent ∧ Scan.Within line scan symbols)
      (fun _ _ h => ⟨Step.coherent_after h.1, Step.within_after h.1 h.2⟩)
      ⟨Scan.coherent_ofMode mode, Scan.within_ofMode mode line⟩ hsplit
  exact ⟨rest, hcoherent, hwithin, hsteps⟩

theorem scanLine_coherent {mode : Mode} {line : List Char} {t : Step}
    (hmem : t ∈ (scanLine mode line).steps) : t.scan.Coherent := by
  obtain ⟨before, after, hsplit⟩ := List.append_of_mem hmem
  obtain ⟨_, hcoherent, _⟩ := scanLine_steps_within hsplit
  exact hcoherent

/-- A run ends where nothing is left of its line. -/
theorem Scan.run_last_within {line : List Char} (scan : Scan) (symbols : List Symbol) :
    scan.Coherent → Scan.Within line scan symbols →
      Scan.Within line (scan.run symbols).last [] := by
  induction scan, symbols using Scan.run_induction with
  | hnil scan =>
      intro _ hwithin
      rw [Scan.run_nil]
      exact hwithin
  | hcons t rest ih =>
      intro hcoherent hwithin
      rw [run_cons_last]
      exact ih (Step.coherent_after hcoherent) (Step.within_after hcoherent hwithin)

/-- Nothing of a line is left after its run. -/
theorem scanLine_last_within (mode : Mode) (line : List Char) :
    Scan.Within line (scanLine mode line).last [] :=
  Scan.run_last_within (Scan.ofMode mode) (lineSymbols line) (Scan.coherent_ofMode mode)
    (Scan.within_ofMode mode line)

end LineLexer
