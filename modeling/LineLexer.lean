import LineLexer.Text.Alphabetic
import LineLexer.Text.Blank
import LineLexer.Machine.State
import LineLexer.Machine.CharClass
import LineLexer.Machine.Transition
import LineLexer.Diagnostic
import LineLexer.Config
import LineLexer.Scan
import LineLexer.TokenList.Basic
import LineLexer.TokenList.Shelf
import LineLexer.TokenList.Comments
import LineLexer.TokenList.Listing
import LineLexer.Lexer
import LineLexer.Source
import LineLexer.Tokenized
import LineLexer.Json.Value
import LineLexer.Json.Printer
import LineLexer.Json.Scalar
import LineLexer.Json.Reader
import LineLexer.Json.Schema
import LineLexer.Encoding
import LineLexer.Decoding
import LineLexer.Proofs.Machine.Classify
import LineLexer.Proofs.Scan.Coherence
import LineLexer.Proofs.Scan.Position
import LineLexer.Proofs.Scan.Reconstruction
import LineLexer.Proofs.TokenList.Slots
import LineLexer.Proofs.TokenList.Sequence
import LineLexer.Proofs.TokenList.Tape
import LineLexer.Proofs.Lexer.Delivery
import LineLexer.Proofs.TokenList.Refinement
import LineLexer.Proofs.Grammar.Basic
import LineLexer.Proofs.Grammar.Recognition
import LineLexer.Proofs.Grammar.Spelling
import LineLexer.Proofs.Grammar.Longest
import LineLexer.Proofs.Scan.LongestMatch
import LineLexer.Proofs.TokenList.Removal
import LineLexer.Proofs.Scan.Loop
import LineLexer.Proofs.Scan.Marks
import LineLexer.Proofs.Scan.Comments
import LineLexer.Proofs.Tokenized.CommentRemoval
import LineLexer.Proofs.Tokenized.RemovedMarks
import LineLexer.Proofs.Lexer.Parking
import LineLexer.Proofs.Source.Continuation
import LineLexer.Proofs.Scan.Respacing
import LineLexer.Proofs.Lexer.Respacing
import LineLexer.Proofs.TokenList.Issue
import LineLexer.Proofs.TokenList.Lifetime
import LineLexer.Proofs.TokenList.Shelved
import LineLexer.Proofs.TokenList.Copies
import LineLexer.Proofs.TokenList.CommentWalk
import LineLexer.Proofs.TokenList.ReadingPosition
import LineLexer.Proofs.Scan.Interposition
import LineLexer.Proofs.Lexer.Interposition
import LineLexer.Proofs.Source.Concatenation
import LineLexer.Proofs.Tokenized.Concatenation
import LineLexer.Proofs.Tokenized.LineEnds
import LineLexer.Proofs.Scan.OpenLiterals
import LineLexer.Proofs.Scan.CommentEnd
import LineLexer.Proofs.Scan.IncludeMode
import LineLexer.Proofs.Scan.Resumption
import LineLexer.Proofs.Scan.LineBreaks
import LineLexer.Proofs.Lexer.LineBreaks
import LineLexer.Proofs.Tokenized.Warnings
import LineLexer.Proofs.Lexer.History
import LineLexer.Proofs.Lexer.OpenComment
import LineLexer.Proofs.Tokenized.Switches
import LineLexer.Proofs.Json.Grammar
import LineLexer.Proofs.Json.Writing
import LineLexer.Proofs.Json.Reading
import LineLexer.Proofs.Json.RoundTrip
import LineLexer.Proofs.Tokenized.Document
import LineLexer.Proofs.Source.Blocks
import LineLexer.Proofs.TokenList.Erasure
import LineLexer.Proofs.Lexer.Pulling
import LineLexer.Proofs.Lexer.Draining
import LineLexer.Proofs.Tokenized.LineByLine
import LineLexer.Proofs.Scan.InlineComment
import LineLexer.Proofs.Lexer.InlineComment
import LineLexer.Proofs.TokenList.Listing
import LineLexer.Proofs.Tokenized.Listing
import LineLexer.Proofs.Tokenized.ListedTerminators
import LineLexer.Proofs.Json.Shape
import LineLexer.Proofs.Json.Readers
import LineLexer.Proofs.Json.Records
import LineLexer.Proofs.Json.Fields
import LineLexer.Proofs.Json.Derived
import LineLexer.Proofs.Decoding.Options
import LineLexer.Proofs.Decoding.Diagnostic
import LineLexer.Proofs.Scan.PendingText
import LineLexer.Proofs.TokenList.Capacity
import LineLexer.Proofs.Lexer.Capacity
