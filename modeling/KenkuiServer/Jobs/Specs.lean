import KenkuiServer.Data.Json
import KenkuiServer.Jobs.Models
import Mathlib.Data.List.Sort
import Mathlib.Data.Prod.Lex
import Mathlib.Data.String.Basic
import Mathlib.Order.WithBot
import Mathlib.Tactic.Common

/-! The constructors of a job's specification: what they normalize, and what they refuse. -/
namespace KenkuiServer.Jobs
open Data

/-- `_required` of a value of unknown type. -/
def requiredOf (value : Json) (code : String) : Except Error String :=
  match value with
  | .str s => required s code
  | _ => .error (.attribute "strip")

/-- Every keyword argument is a parameter. -/
def known (fields : List String) (kwargs : List (String × Json)) : Except Error Unit :=
  if kwargs.all fun item => item.1 ∈ fields then .ok () else .error .type

def SingleVoiceCasting.init (voiceId : String) : Except Error Casting := do
  return .single (← required voiceId "invalid_voice_id")

/-- The order of pairs of strings. -/
def castLE (p q : String × String) : Prop := toLex p ≤ toLex q

instance : DecidableRel castLE := fun p q => inferInstanceAs (Decidable (toLex p ≤ toLex q))

def castPair (pair : String × String) : Except Error (String × String) := do
  return (← required pair.1 "invalid_character_id", ← required pair.2 "invalid_voice_id")

def CharacterCasting.init (narratorVoiceId unknownVoiceId : String) (cast : List (String × String))
    (method modelId : String) : Except Error CharacterCasting := do
  let narrator ← required narratorVoiceId "invalid_voice_id"
  let unknown := if strip unknownVoiceId = "" then narrator else strip unknownVoiceId
  let modelId ← required modelId "invalid_model_id"
  let method ← required method "invalid_method"
  let pairs ← cast.mapM castPair
  return ⟨narrator, unknown, pairs.insertionSort castLE, method, modelId⟩

namespace TtsSettings

/-- The parameters of the constructor. -/
def fields : List String :=
  ["normalize_text", "chapter_pauses", "prepare_numbers", "pronunciation_corrections", "stutter_handling",
    "chapter_pause_ms", "heading_before_pause_ms", "heading_after_pause_ms", "paragraph_pause_ms",
    "line_pause_ms", "scene_pause_ms", "speak_chapter_titles", "chapter_title_pause_ms",
      "chapter_title_overrides"]

/-- The values that a field has without an argument. -/
def defaults : TtsSettings := {}

def overrideKey (entry : String × Option String) : String ×ₗ WithBot String := toLex (entry.1, entry.2)

/-- The order of overrides of which no two have one key, one of them with a title and one without. -/
def overrideLE (p q : String × Option String) : Prop := overrideKey p ≤ overrideKey q

instance : DecidableRel overrideLE := fun p q => inferInstanceAs (Decidable (overrideKey p ≤ overrideKey q))

/-- `sorted` compares `None` with a string. -/
def mixed (entries : List (String × Option String)) : Bool :=
  entries.any fun p => entries.any fun q => p.1 = q.1 ∧ p.2.isSome ∧ q.2.isNone

def override : Json × Json → Option (String × Option String)
  | (.str key, .null) => some (key, none)
  | (.str key, .str value) => some (key, some value)
  | _ => none

def validOverride (entry : String × Option String) : Bool :=
  strip entry.1 ≠ "" ∧ entry.2.all fun value => strip value ≠ "" ∧ value.length ≤ 500

/-- The sorted overrides. An entry that is no string with a string or `None` is refused by the check, unless
`sorted` has raised a `TypeError` over it. -/
def overrides (value : Json) : Except Error (List (String × Option String)) := do
  let items ← (← value.iter).mapM Json.pair
  match items.mapM override with
  | none => .error (.value "invalid_chapter_title_override")
  | some entries =>
    if mixed entries then .error .type
    else if !entries.all validOverride then .error (.value "invalid_chapter_title_override")
    else .ok (entries.insertionSort overrideLE)

section
variable (kwargs : List (String × Json)) (name : String)

def overridesArg : Except Error (List (String × Option String)) :=
  match kwargs.lookup "chapter_title_overrides" with
  | none => .ok defaults.chapterTitleOverrides
  | some value => overrides value

def boolArg (default : Bool) : Except Error Bool :=
  match kwargs.lookup name with
  | none => .ok default
  | some (.bool b) => .ok b
  | some _ => .error (.value ("invalid_" ++ name))

def msArg (default : ℤ) : Except Error ℤ :=
  match kwargs.lookup name with
  | none => .ok default
  | some (.int n) => if 0 ≤ n ∧ n ≤ 60000 then .ok n else .error (.value ("invalid_" ++ name))
  | some _ => .error (.value ("invalid_" ++ name))

def optionalMsArg (default : Option ℤ) : Except Error (Option ℤ) :=
  match kwargs.lookup name with
  | none => .ok default
  | some .null => .ok none
  | some (.int n) => if 0 ≤ n ∧ n ≤ 60000 then .ok (some n) else .error (.value ("invalid_" ++ name))
  | some _ => .error (.value ("invalid_" ++ name))

end

/-- `TtsSettings(**kwargs)`. -/
def init (kwargs : List (String × Json)) : Except Error TtsSettings := do
  known fields kwargs
  let chapterTitleOverrides ← overridesArg kwargs
  let normalizeText ← boolArg kwargs "normalize_text" defaults.normalizeText
  let chapterPauses ← boolArg kwargs "chapter_pauses" defaults.chapterPauses
  let prepareNumbers ← boolArg kwargs "prepare_numbers" defaults.prepareNumbers
  let pronunciationCorrections ← boolArg kwargs "pronunciation_corrections" defaults.pronunciationCorrections
  let stutterHandling ← boolArg kwargs "stutter_handling" defaults.stutterHandling
  let speakChapterTitles ← boolArg kwargs "speak_chapter_titles" defaults.speakChapterTitles
  let chapterPauseMs ← optionalMsArg kwargs "chapter_pause_ms" defaults.chapterPauseMs
  let headingBeforePauseMs ← msArg kwargs "heading_before_pause_ms" defaults.headingBeforePauseMs
  let headingAfterPauseMs ← msArg kwargs "heading_after_pause_ms" defaults.headingAfterPauseMs
  let paragraphPauseMs ← msArg kwargs "paragraph_pause_ms" defaults.paragraphPauseMs
  let linePauseMs ← msArg kwargs "line_pause_ms" defaults.linePauseMs
  let scenePauseMs ← msArg kwargs "scene_pause_ms" defaults.scenePauseMs
  let chapterTitlePauseMs ← msArg kwargs "chapter_title_pause_ms" defaults.chapterTitlePauseMs
  return {
    normalizeText := normalizeText, chapterPauses := chapterPauses, prepareNumbers := prepareNumbers
    pronunciationCorrections := pronunciationCorrections, stutterHandling := stutterHandling
    chapterPauseMs := chapterPauseMs, headingBeforePauseMs := headingBeforePauseMs
    headingAfterPauseMs := headingAfterPauseMs, paragraphPauseMs := paragraphPauseMs
    linePauseMs := linePauseMs, scenePauseMs := scenePauseMs, speakChapterTitles := speakChapterTitles
    chapterTitlePauseMs := chapterTitlePauseMs, chapterTitleOverrides := chapterTitleOverrides }

end TtsSettings

namespace OutputSpec

def fields : List String := ["path", "title", "author", "source_cover"]

/-- `path.lower().endswith(".m4b")`; no character but those of ASCII has one of these in lower case. -/
def isM4b (path : String) : Bool := ".m4b".toList.isSuffixOf (path.toList.map Char.toLower)

/-- An argument that the constructor takes as it is: `None` or a string. -/
def textArg (kwargs : List (String × Json)) (name : String) : Except Error (Option String) :=
  match kwargs.lookup name with
  | none => .ok none
  | some .null => .ok none
  | some (.str s) => .ok (some s)
  | some _ => .error .type

def coverArg (kwargs : List (String × Json)) : Except Error Bool :=
  match kwargs.lookup "source_cover" with
  | none => .ok true
  | some (.bool b) => .ok b
  | some _ => .error .type

def pathArg (kwargs : List (String × Json)) : Except Error String := do
  match kwargs.lookup "path" with
  | none => .error .type
  | some path =>
    let path ← requiredOf path "invalid_output_path"
    if isM4b path then .ok path else .error (.value "invalid_output_path")

/-- `OutputSpec(**kwargs)`. -/
def init (kwargs : List (String × Json)) : Except Error OutputSpec := do
  known fields kwargs
  let path ← pathArg kwargs
  let title ← textArg kwargs "title"
  let author ← textArg kwargs "author"
  let sourceCover ← coverArg kwargs
  return ⟨path, title, author, sourceCover⟩

end OutputSpec

theorem requiredOf_ok {value : Json} {code normalized : String} (h : requiredOf value code = .ok normalized) :
    strip normalized = normalized ∧ normalized ≠ "" := by
  cases value with
  | str s => exact required_ok h
  | _ => cases h

theorem mapM_requiredOf_ok {code : String} {values : List Json} {normalized : List String}
    (h : values.mapM (requiredOf · code) = .ok normalized) : ∀ c ∈ normalized, strip c = c ∧ c ≠ "" := by
  induction values generalizing normalized with
  | nil =>
    cases h
    simp
  | cons value values ih =>
    rw [List.mapM_cons] at h
    cases hvalue : requiredOf value code with
    | error e =>
      rw [hvalue] at h
      cases h
    | ok first =>
      cases hrest : values.mapM (requiredOf · code) with
      | error e =>
        rw [hvalue, hrest] at h
        cases h
      | ok rest =>
        rw [hvalue, hrest] at h
        cases h
        intro c hc
        rcases List.mem_cons.mp hc with rfl | hc
        · exact requiredOf_ok hvalue
        · exact ih hrest c hc

/-- `JobSpec(source_id, chapters, casting, tts, output)`. -/
def JobSpec.init (sourceId : Json) (chapters : List Json) (casting : Casting) (tts : TtsSettings)
    (output : OutputSpec) :
    Except Error JobSpec :=
  match hsource : requiredOf sourceId "invalid_source_id" with
  | .error e => .error e
  | .ok sourceId =>
    match hchapters : chapters.mapM (requiredOf · "invalid_chapter_id") with
    | .error e => .error e
    | .ok chapters =>
      if hempty : chapters = [] then .error (.value "empty_chapter_selection")
      else if hnodup : chapters.Nodup then
        .ok { sourceId, chapters, casting, tts, output
              sourceNamed := requiredOf_ok hsource
              chaptersNamed := mapM_requiredOf_ok hchapters
              chaptersNonempty := hempty
              chaptersNodup := hnodup }
      else .error (.value "duplicate_chapter_id")

end KenkuiServer.Jobs
