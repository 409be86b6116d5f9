import LineLexer.Decoding
import LineLexer.Proofs.Json.Derived
import LineLexer.Proofs.Json.Writing
/-!
Options are read by their known members only.

The members of an options object stand on two levels: those of the options themselves and, inside of
one of them, those of the configuration of the tokenizer.  On either level the known members are
found by their keys, each of them at most once, and all others are skipped.  So what is read depends
neither on the order of the members nor on what the others hold.

This holds of every library that reads records as documented.  The readers here are one.
-/

namespace LineLexer

open Json

/-- The switch that is set by the values of its key: by the only one, or else by default. -/
inductive Sets (default : Bool) : List (List Char) → Bool → Prop
  | absent : Sets default [] default
  | present {switch : Bool} {text : List Char} (htext : SpellsScalar (.bool switch) text) :
      Sets default [text] switch

/-- What the members of an object say about a configuration. -/
structure Config.SaidBy (entries : List (String × List Char)) (config : Config) : Prop where
  emitLineTerminator :
    Sets false (valuesOf "emit_line_terminator" entries) config.emitLineTerminator
  reportUnterminated :
    Sets true (valuesOf "report_unterminated" entries) config.reportUnterminated

/-- A key of a switch comes twice in an object. -/
def Config.Repeated (entries : List (String × List Char)) : Prop :=
  ∃ key ∈ ["emit_line_terminator", "report_unterminated"], 1 < (valuesOf key entries).length

namespace Options

/-- The configuration that is set by the values of its key: by the members of the only one, which is
an object, or else by default. -/
inductive SetsTokenizer : List (List Char) → Config → Prop
  | absent : SetsTokenizer [] ⟨false, true⟩
  | present {entries : List (String × List Char)} {config : Config} {text : List Char}
      (hobject : SpellsObject entries text) (hsaid : Config.SaidBy entries config) :
      SetsTokenizer [text] config

/-- What the members of an object say about options. -/
structure SaidBy (entries : List (String × List Char)) (options : Options) : Prop where
  tokenizer : SetsTokenizer (valuesOf "tokenizer" entries) options.tokenizer
  stripComments : Sets false (valuesOf "strip_comments" entries) options.stripComments

/-- A known key comes twice on its level: among the members of an object, or among those of an
object that is a value of the configuration. -/
inductive Repeated (entries : List (String × List Char)) : Prop
  | outer {key : String} (hkey : key ∈ ["tokenizer", "strip_comments"])
      (hcount : 1 < (valuesOf key entries).length) : Repeated entries
  | inner {others : List (String × List Char)} {text : List Char}
      (htext : text ∈ valuesOf "tokenizer" entries) (hobject : SpellsObject others text)
      (hrepeated : Config.Repeated others) : Repeated entries

/-- What a library offers for reading options. -/
structure Library (ε : Type) where
  bool : Reading ε Bool
  config : Reading ε Config
  options : Reading ε Options
  /-- Options from a text that holds nothing else. -/
  parse : String → Except ε Options

section Documented

variable {ε : Type} (library : Library ε)

/-- How the fields of options are read. -/
def Library.fields : ∀ field, Reading ε (schema.Value field)
  | .tokenizer => library.config
  | .stripComments => library.bool

/-- What is documented of the library: the notation of truth values, that either record is read by
its fields, and that a text as a whole is read like a value with white space around it. -/
structure Library.Documented : Prop where
  reads_bool {switch : Bool} {text : List Char} :
    SpellsScalar (.bool switch) text → Reading.Reads library.bool text switch
  derived_config : Config.schema.Derived (fun _ => library.bool)
    (fun draft => some (Config.ofDraft draft)) library.config
  derived_options : schema.Derived library.fields (fun draft => some (ofDraft draft))
    library.options
  parse_eq_of_reads {text : List Char} {source : String} {options : Options} :
    Padded text source → Reading.Reads library.options text options →
    library.parse source = .ok options
  admits_of_parse_eq {text : List Char} {source : String} {options : Options} :
    Padded text source → Shaped text → library.parse source = .ok options →
    Reading.Admits library.options text options

variable {library} (hlibrary : library.Documented) {entries : List (String × List Char)}
  {text : List Char}

include hlibrary

theorem Library.Documented.supplied_of_sets {default switch : Bool} {values : List (List Char)}
    (hsets : Sets default values switch) :
    ∃ held, Supplied (Reading.Reads library.bool) none values held ∧
      held.getD default = switch := by
  cases hsets with
  | absent => exact ⟨none, .kept none, rfl⟩
  | present htext => exact ⟨some switch, .given (hlibrary.reads_bool htext), rfl⟩

theorem Library.Documented.reads_config {config : Config} (hobject : SpellsObject entries text)
    (hsaid : Config.SaidBy entries config) : Reading.Reads library.config text config := by
  obtain ⟨emit, hemit, hemitted⟩ := hlibrary.supplied_of_sets hsaid.emitLineTerminator
  obtain ⟨report, hreport, hreported⟩ := hlibrary.supplied_of_sets hsaid.reportUnterminated
  let last : Config.schema.Draft
    | .emitLineTerminator => emit
    | .reportUnterminated => report
  have hconfig : Config.ofDraft last = config :=
    congr (congrArg Config.mk hemitted) hreported
  refine hlibrary.derived_config.reads_of_supplied hobject (fun field => ?_)
    (congrArg some hconfig)
  cases field with
  | emitLineTerminator => exact hemit
  | reportUnterminated => exact hreport

theorem Library.Documented.supplied_of_setsTokenizer {config : Config} {values : List (List Char)}
    (hsets : SetsTokenizer values config) :
    ∃ held, Supplied (Reading.Reads library.config) none values held ∧ held.getD {} = config := by
  cases hsets with
  | absent => exact ⟨none, .kept none, rfl⟩
  | present hobject hsaid =>
      exact ⟨some config, .given (hlibrary.reads_config hobject hsaid), rfl⟩

theorem Library.Documented.reads_options {options : Options} (hobject : SpellsObject entries text)
    (hsaid : SaidBy entries options) : Reading.Reads library.options text options := by
  obtain ⟨tokenizer, htokenizer, hconfigured⟩ :=
    hlibrary.supplied_of_setsTokenizer hsaid.tokenizer
  obtain ⟨strip, hstrip, hstripped⟩ := hlibrary.supplied_of_sets hsaid.stripComments
  let last : schema.Draft
    | .tokenizer => tokenizer
    | .stripComments => strip
  have hoptions : ofDraft last = options := congr (congrArg Options.mk hconfigured) hstripped
  refine hlibrary.derived_options.reads_of_supplied hobject (fun field => ?_)
    (congrArg some hoptions)
  cases field with
  | tokenizer => exact htokenizer
  | stripComments => exact hstrip

theorem Library.Documented.not_admits_config (hobject : SpellsObject entries text)
    (hrepeated : Config.Repeated entries) (config : Config) :
    ¬ Reading.Admits library.config text config := by
  intro hadmits
  obtain ⟨last, hsupplied⟩ := hlibrary.derived_config.supplied_of_admits hobject hadmits
  obtain ⟨key, hkey, hcount⟩ := hrepeated
  simp only [List.mem_cons, List.not_mem_nil, or_false] at hkey
  rcases hkey with rfl | rfl
  · exact absurd hcount (Nat.not_lt.mpr (hsupplied .emitLineTerminator).length_le_one)
  · exact absurd hcount (Nat.not_lt.mpr (hsupplied .reportUnterminated).length_le_one)

theorem Library.Documented.not_admits_options (hobject : SpellsObject entries text)
    (hrepeated : Repeated entries) (options : Options) :
    ¬ Reading.Admits library.options text options := by
  intro hadmits
  obtain ⟨last, hsupplied⟩ := hlibrary.derived_options.supplied_of_admits hobject hadmits
  cases hrepeated with
  | outer hkey hcount =>
      simp only [List.mem_cons, List.not_mem_nil, or_false] at hkey
      rcases hkey with rfl | rfl
      · exact absurd hcount (Nat.not_lt.mpr (hsupplied .tokenizer).length_le_one)
      · exact absurd hcount (Nat.not_lt.mpr (hsupplied .stripComments).length_le_one)
  | inner htext hinner hrepeated =>
      obtain ⟨config, hconfig⟩ := (hsupplied .tokenizer).exists_of_mem htext
      exact hlibrary.not_admits_config hinner hrepeated config hconfig

/-- A text that holds an object is read as what its known members say, with the defaults for those
that are missing, and is refused if a known key comes twice on its level.  The members may stand in
any order, with any escapes in their keys and any white space around their marks, and those of other
names may hold whatever has the shape of a value. -/
theorem fromJson_object {source : String} (hobject : SpellsObject entries text)
    (hpadded : Padded text source) :
    (∀ options, SaidBy entries options → fromJson library.parse source = .ok options) ∧
      (Repeated entries → ∃ invalid, fromJson library.parse source = .error invalid) := by
  constructor
  · intro options hsaid
    rw [fromJson, hlibrary.parse_eq_of_reads hpadded (hlibrary.reads_options hobject hsaid)]
    rfl
  · intro hrepeated
    cases hparse : library.parse source with
    | error fault => exact ⟨⟨fault⟩, by rw [fromJson, hparse]; rfl⟩
    | ok options =>
        have hadmits := hlibrary.admits_of_parse_eq hpadded hobject.shaped hparse
        exact absurd hadmits (hlibrary.not_admits_options hobject hrepeated options)

end Documented

/-- The readers here as a library. -/
def library : Library Fault where
  bool := Reader.bool.read
  config := Config.reader.read
  options := reader.read
  parse := parse

theorem exact_readers (field : schema.Field) (text : List Char) (htext : Shaped text) :
    (readers field).Exact text := by
  cases field with
  | tokenizer => exact Schema.exact_record _ (fun _ _ => Reader.exact_scalar) htext
  | stripComments => exact Reader.exact_scalar htext

theorem library_documented : library.Documented where
  reads_bool htext := Reader.reads_bool htext
  derived_config := Schema.derived_record _ fun _ _ => Reader.exact_scalar
  derived_options := by
    have hfields : library.fields = fun field => (readers field).read := by
      funext field
      cases field <;> rfl
    rw [hfields]
    exact Schema.derived_record _ exact_readers
  parse_eq_of_reads hpadded hreads := Reader.Reads.parse hpadded hreads
  admits_of_parse_eq hpadded hshaped hparse :=
    Reader.admits_of_parse hpadded (Schema.exact_record _ exact_readers hshaped) hparse

/-- A known key inside of another member is not taken for a member, half a surrogate pair is
skipped, and a key may be escaped.  Escapes do not hide that a key comes twice, either. -/
theorem fromJson_object_nested :
    let source :=
      "\t\x7b\"x\":[\x7b\"tokenizer\":null\x7d,\"\\ud800\"], \"\\u0073trip_comments\": true," ++
        "\"tokenizer\":\x7b\"report_unterminated\":false\x7d\x7d"
    let twice := "\x7b\"strip_comments\":true,\"\\u0073trip_comments\":true\x7d"
    library.Documented ∧ fromJson library.parse source = .ok ⟨⟨false, false⟩, true⟩ ∧
      ∃ invalid, fromJson library.parse twice = .error invalid := by
  intro source twice
  have hspace : Gap [' '] := gap_cons (by decide) gap_nil
  have htab : Gap ['\t'] := gap_cons (by decide) gap_nil
  have hzero : hexValue? '0' = some 0 := by decide
  have hunit : SpellsUnit 's'.toNat ['0', '0', '7', '3'] :=
    SpellsUnit.digits hzero hzero (show hexValue? '7' = some 7 by decide)
      (show hexValue? '3' = some 3 by decide)
  have hkey : "strip_comments".toList = 's' :: "trip_comments".toList := by decide
  have hescaped : SpellsString "strip_comments".toList ('\\' :: 'u' :: ['0', '0', '7', '3'] ++
      ("trip_comments".toList.flatMap escape ++ ['"'])) := by
    rw [hkey]
    exact .char (.unit hunit) (spellsString_escape _)
  have hhalf : ShapedString ['\\', 'u', 'd', '8', '0', '0', '"'] :=
    .char (.unit (.digits rfl rfl rfl rfl)) .close
  refine ⟨library_documented, ?_, ?_⟩
  · have hother : Shaped _ := .array (.more gap_nil
      (.object (.last (.quoted gap_nil (spellsString_escape "tokenizer".toList).shaped gap_nil)
        gap_nil (.scalar .null) gap_nil))
      gap_nil (.last gap_nil (.scalar (.string hhalf)) gap_nil))
    have hinner : SpellsObject [("report_unterminated", ['f', 'a', 'l', 's', 'e'])] _ :=
      .braces (.parts (.last (.quoted gap_nil (spellsString_escape _) gap_nil) gap_nil
        ⟨rfl, .scalar .false⟩ gap_nil))
    have hobject : SpellsObject [("x", _), ("strip_comments", ['t', 'r', 'u', 'e']),
        ("tokenizer", _)] _ :=
      .braces (.parts (.more (.quoted gap_nil (spellsString_escape _) gap_nil) gap_nil
        ⟨rfl, hother⟩ gap_nil (.more (.quoted hspace hescaped gap_nil) hspace
          ⟨rfl, .scalar .true⟩ gap_nil (.last (.quoted gap_nil (spellsString_escape _) gap_nil)
            gap_nil ⟨rfl, hinner.shaped⟩ gap_nil))))
    refine (fromJson_object library_documented hobject
      ⟨['\t'], [], htab, gap_nil, ?_⟩).1 _ ⟨?_, ?_⟩
    · decide +kernel
    · rw [valuesOf_cons, if_neg (by decide), valuesOf_cons, if_neg (by decide), valuesOf_cons,
        if_pos rfl]
      exact .present hinner ⟨.absent, .present .false⟩
    · rw [valuesOf_cons, if_neg (by decide), valuesOf_cons, if_pos rfl, valuesOf_cons,
        if_neg (by decide)]
      exact .present .true
  · have hobject : SpellsObject [("strip_comments", ['t', 'r', 'u', 'e']),
        ("strip_comments", ['t', 'r', 'u', 'e'])] _ :=
      .braces (.parts (.more (.quoted gap_nil (spellsString_escape _) gap_nil) gap_nil
        ⟨rfl, .scalar .true⟩ gap_nil (.last (.quoted gap_nil hescaped gap_nil) gap_nil
          ⟨rfl, .scalar .true⟩ gap_nil)))
    have hkeys : "strip_comments" ∈ ["tokenizer", "strip_comments"] := by decide
    refine (fromJson_object library_documented hobject
      ⟨[], [], gap_nil, gap_nil, ?_⟩).2 (.outer hkeys (by decide))
    decide +kernel

end Options

end LineLexer
