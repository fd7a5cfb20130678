import KenkuiServer.Jobs.Specs

/-! The rows in which specifications are stored: what was written is read again, also from rows of before a
field was there. -/
namespace KenkuiServer.Jobs
open Data

/-- A name as `_required` leaves it. -/
def Named (s : String) : Prop := strip s = s ∧ s ≠ ""

/-- What the constructor leaves. -/
structure CharacterCasting.Valid (casting : CharacterCasting) : Prop where
  narrator : Named casting.narratorVoiceId
  unknown : Named casting.unknownVoiceId
  method : Named casting.method
  model : Named casting.modelId
  pairs : ∀ pair ∈ casting.cast, Named pair.1 ∧ Named pair.2
  sorted : casting.cast.Pairwise castLE

def Casting.Valid : Casting → Prop
  | .single voiceId => Named voiceId
  | .characters casting => casting.Valid

def InRange (n : ℤ) : Prop := 0 ≤ n ∧ n ≤ 60000

structure TtsSettings.Valid (tts : TtsSettings) : Prop where
  chapterPauseMs : ∀ n, tts.chapterPauseMs = some n → InRange n
  headingBeforePauseMs : InRange tts.headingBeforePauseMs
  headingAfterPauseMs : InRange tts.headingAfterPauseMs
  paragraphPauseMs : InRange tts.paragraphPauseMs
  linePauseMs : InRange tts.linePauseMs
  scenePauseMs : InRange tts.scenePauseMs
  chapterTitlePauseMs : InRange tts.chapterTitlePauseMs
  titled : tts.chapterTitleOverrides.all TtsSettings.validOverride = true
  unmixed : TtsSettings.mixed tts.chapterTitleOverrides = false
  sorted : tts.chapterTitleOverrides.Pairwise TtsSettings.overrideLE

structure OutputSpec.Valid (output : OutputSpec) : Prop where
  path : Named output.path
  m4b : OutputSpec.isM4b output.path = true

section
variable {α β γ : Type}

theorem mapM_map_ok {f : α → β} {g : β → Except Error γ} {h : α → γ} {xs : List α}
    (hg : ∀ x ∈ xs, g (f x) = .ok (h x)) : (xs.map f).mapM g = .ok (xs.map h) := by
  induction xs with
  | nil => rfl
  | cons x xs ih =>
    have hrest := ih fun y hy => hg y (List.mem_cons_of_mem _ hy)
    rw [List.map_cons, List.mapM_cons, hg x List.mem_cons_self, hrest]
    rfl

theorem mapM_map_some {f : α → β} {g : β → Option γ} {h : α → γ} {xs : List α}
    (hg : ∀ x ∈ xs, g (f x) = some (h x)) :
    (xs.map f).mapM g = some (xs.map h) := by
  induction xs with
  | nil => rfl
  | cons x xs ih =>
    have hrest := ih fun y hy => hg y (List.mem_cons_of_mem _ hy)
    rw [List.map_cons, List.mapM_cons, hg x List.mem_cons_self, hrest]
    rfl

theorem forall_of_mapM_ok {g : α → Except Error β} {P : β → Prop}
    (hg : ∀ x y, g x = .ok y → P y) {xs : List α} {ys : List β} (h : xs.mapM g = .ok ys) : ∀ y ∈ ys, P y := by
  induction xs generalizing ys with
  | nil =>
    cases h
    simp
  | cons x xs ih =>
    rw [List.mapM_cons] at h
    obtain ⟨y, hy, h⟩ := bind_eq_ok.mp h
    obtain ⟨rest, hrest, h⟩ := bind_eq_ok.mp h
    cases h
    intro z hz
    rcases List.mem_cons.mp hz with rfl | hz
    · exact hg x z hy
    · exact ih hrest z hz

end

instance : Std.Total castLE := ⟨fun p q => le_total (toLex p) (toLex q)⟩

instance : IsTrans (String × String) castLE := ⟨fun _ _ _ h h' => le_trans h h'⟩

instance : Std.Total TtsSettings.overrideLE :=
    ⟨fun p q => le_total (TtsSettings.overrideKey p) (TtsSettings.overrideKey q)⟩

instance : IsTrans (String × Option String) TtsSettings.overrideLE := ⟨fun _ _ _ h h' => le_trans h h'⟩

theorem requiredOf_named {s code : String} (h : Named s) : requiredOf (.str s) code = .ok s := required_eq h

theorem required_named {value code normalized : String} (h : required value code = .ok normalized) :
    Named normalized :=
  required_ok h

theorem SingleVoiceCasting.init_named {voiceId : String} {casting : Casting}
    (h : SingleVoiceCasting.init voiceId = .ok casting) :
    casting.Valid := by
  obtain ⟨normalized, hrequired, h⟩ := bind_eq_ok.mp h
  cases h
  exact required_named hrequired

theorem castPair_named {pair normalized : String × String} (h : castPair pair = .ok normalized) :
    Named normalized.1 ∧ Named normalized.2 := by
  obtain ⟨character, hcharacter, h⟩ := bind_eq_ok.mp h
  obtain ⟨voice, hvoice, h⟩ := bind_eq_ok.mp h
  cases h
  exact ⟨required_named hcharacter, required_named hvoice⟩

theorem CharacterCasting.init_valid {narratorVoiceId unknownVoiceId method modelId : String}
    {cast : List (String × String)} {casting : CharacterCasting}
    (h : CharacterCasting.init narratorVoiceId unknownVoiceId cast method modelId = .ok casting) :
    casting.Valid := by
  obtain ⟨narrator, hnarrator, h⟩ := bind_eq_ok.mp h
  obtain ⟨model, hmodel, h⟩ := bind_eq_ok.mp h
  obtain ⟨named, hmethod, h⟩ := bind_eq_ok.mp h
  obtain ⟨pairs, hpairs, h⟩ := bind_eq_ok.mp h
  cases h
  have hnarrator := required_named hnarrator
  constructor
  · exact hnarrator
  · show Named (if strip unknownVoiceId = "" then narrator else strip unknownVoiceId)
    split_ifs with hunknown
    · exact hnarrator
    · exact ⟨strip_strip unknownVoiceId, hunknown⟩
  · exact required_named hmethod
  · exact required_named hmodel
  · intro pair hpair
    exact forall_of_mapM_ok (fun _ _ h => castPair_named h) hpairs pair ((List.mem_insertionSort _).mp hpair)
  · exact List.pairwise_insertionSort castLE pairs

/-- The constructor takes back what it left. -/
theorem CharacterCasting.init_eq {casting : CharacterCasting} (h : casting.Valid) :
    CharacterCasting.init casting.narratorVoiceId casting.unknownVoiceId casting.cast casting.method
      casting.modelId =
      .ok casting := by
  have hunknown : ¬ strip casting.unknownVoiceId = "" := by
    rw [h.unknown.1]
    exact h.unknown.2
  have hpairs : casting.cast.mapM castPair = .ok casting.cast := by
    have hid := @mapM_map_ok _ _ _ id castPair id casting.cast fun pair hpair => by
      obtain ⟨hcharacter, hvoice⟩ := h.pairs pair hpair
      show castPair pair = .ok pair
      simp only [castPair, required_eq hcharacter, required_eq hvoice]
      rfl
    simpa using hid
  have hsorted := h.sorted.insertionSort_eq
  unfold CharacterCasting.init
  rw [required_eq h.narrator, required_eq h.model, required_eq h.method, hpairs]
  show Except.ok (CharacterCasting.mk casting.narratorVoiceId
    (if strip casting.unknownVoiceId = "" then casting.narratorVoiceId else strip casting.unknownVoiceId)
    (casting.cast.insertionSort castLE) casting.method casting.modelId) = .ok casting
  rw [if_neg hunknown, h.unknown.1, hsorted]

namespace TtsSettings

theorem mixed_perm {entries entries' : List (String × Option String)} (h : entries.Perm entries') :
    mixed entries = mixed entries' := by
  unfold mixed
  rw [h.any_eq]
  congr 1
  funext p
  exact h.any_eq

theorem overrides_valid {value : Json} {entries : List (String × Option String)}
    (h : overrides value = .ok entries) :
    entries.all validOverride = true ∧ mixed entries = false ∧ entries.Pairwise overrideLE := by
  obtain ⟨items, -, h⟩ := bind_eq_ok.mp h
  obtain ⟨pairs, -, h⟩ := bind_eq_ok.mp h
  cases hpairs : pairs.mapM override with
  | none => simp [hpairs] at h
  | some found =>
    simp only [hpairs] at h
    split_ifs at h with hmixed hvalid
    cases h
    have hperm := List.perm_insertionSort overrideLE found
    refine ⟨?_, ?_, List.pairwise_insertionSort overrideLE found⟩
    · rw [hperm.all_eq]
      simpa using hvalid
    · rw [mixed_perm hperm]
      simpa using hmixed

theorem msArg_range {kwargs : List (String × Json)} {name : String} {default n : ℤ}
    (hdefault : InRange default) (h : msArg kwargs name default = .ok n) : InRange n := by
  unfold msArg at h
  split at h
  · cases h
    exact hdefault
  · split_ifs at h with hrange
    cases h
    exact hrange
  · cases h

theorem optionalMsArg_range {kwargs : List (String × Json)} {name : String} {found : Option ℤ}
    (h : optionalMsArg kwargs name none = .ok found) : ∀ n, found = some n → InRange n := by
  unfold optionalMsArg at h
  split at h
  · cases h
    simp
  · cases h
    simp
  · split_ifs at h with hrange
    cases h
    rintro n ⟨⟩
    exact hrange
  · cases h

/-- The constructor checks every field. -/
theorem init_valid {kwargs : List (String × Json)} {tts : TtsSettings} (h : init kwargs = .ok tts) :
    tts.Valid := by
  unfold init at h
  obtain ⟨_, -, h⟩ := bind_eq_ok.mp h
  obtain ⟨entries, hentries, h⟩ := bind_eq_ok.mp h
  iterate 6 obtain ⟨_, -, h⟩ := bind_eq_ok.mp h
  obtain ⟨pause, hpause, h⟩ := bind_eq_ok.mp h
  obtain ⟨before, hbefore, h⟩ := bind_eq_ok.mp h
  obtain ⟨after, hafter, h⟩ := bind_eq_ok.mp h
  obtain ⟨paragraph, hparagraph, h⟩ := bind_eq_ok.mp h
  obtain ⟨line, hline, h⟩ := bind_eq_ok.mp h
  obtain ⟨scene, hscene, h⟩ := bind_eq_ok.mp h
  obtain ⟨title, htitle, h⟩ := bind_eq_ok.mp h
  cases h
  have hentries : entries.all validOverride = true ∧ mixed entries = false ∧ entries.Pairwise overrideLE := by
    unfold overridesArg at hentries
    split at hentries
    · cases hentries
      exact ⟨rfl, rfl, List.Pairwise.nil⟩
    · exact overrides_valid hentries
  have hzero : InRange 0 := ⟨le_rfl, by decide⟩
  constructor
  · exact optionalMsArg_range hpause
  · exact msArg_range hzero hbefore
  · exact msArg_range hzero hafter
  · exact msArg_range hzero hparagraph
  · exact msArg_range hzero hline
  · exact msArg_range hzero hscene
  · exact msArg_range ⟨by decide, by decide⟩ htitle
  · exact hentries.1
  · exact hentries.2.1
  · exact hentries.2.2

end TtsSettings

theorem OutputSpec.init_valid {kwargs : List (String × Json)} {output : OutputSpec}
    (h : OutputSpec.init kwargs = .ok output) :
    output.Valid := by
  unfold OutputSpec.init at h
  obtain ⟨_, -, h⟩ := bind_eq_ok.mp h
  obtain ⟨path, hpath, h⟩ := bind_eq_ok.mp h
  obtain ⟨title, -, h⟩ := bind_eq_ok.mp h
  obtain ⟨author, -, h⟩ := bind_eq_ok.mp h
  obtain ⟨cover, -, h⟩ := bind_eq_ok.mp h
  cases h
  unfold OutputSpec.pathArg at hpath
  split at hpath
  · cases hpath
  · obtain ⟨named, hnamed, hpath⟩ := bind_eq_ok.mp hpath
    split_ifs at hpath with hm4b
    cases hpath
    exact ⟨requiredOf_ok hnamed, hm4b⟩

end KenkuiServer.Jobs

namespace KenkuiServer.Storage
open Data Jobs

/-! The rows, their keys as `sort_keys=True` orders them. -/

def castingToRow : Casting → List (String × Json)
  | .single voiceId => [("kind", .str "single"), ("voice_id", .str voiceId)]
  | .characters casting =>
    [("cast", .list (casting.cast.map fun pair => .list [.str pair.1, .str pair.2])),
      ("kind", .str "characters"),
      ("method", .str casting.method),
      ("model_id", .str casting.modelId),
      ("narrator_voice_id", .str casting.narratorVoiceId),
      ("unknown_voice_id", .str casting.unknownVoiceId)]

/-- `asdict(spec.tts)`. -/
def ttsToRow (tts : TtsSettings) : List (String × Json) :=
  [("chapter_pause_ms", tts.chapterPauseMs.elim .null .int),
    ("chapter_pauses", .bool tts.chapterPauses),
    ("chapter_title_overrides",
      .list (tts.chapterTitleOverrides.map fun entry => .list [.str entry.1, .ofOption entry.2])),
    ("chapter_title_pause_ms", .int tts.chapterTitlePauseMs),
    ("heading_after_pause_ms", .int tts.headingAfterPauseMs),
    ("heading_before_pause_ms", .int tts.headingBeforePauseMs),
    ("line_pause_ms", .int tts.linePauseMs),
    ("normalize_text", .bool tts.normalizeText),
    ("paragraph_pause_ms", .int tts.paragraphPauseMs),
    ("prepare_numbers", .bool tts.prepareNumbers),
    ("pronunciation_corrections", .bool tts.pronunciationCorrections),
    ("scene_pause_ms", .int tts.scenePauseMs),
    ("speak_chapter_titles", .bool tts.speakChapterTitles),
    ("stutter_handling", .bool tts.stutterHandling)]

/-- `asdict(spec.output)`. -/
def outputToRow (output : OutputSpec) : List (String × Json) :=
  [("author", .ofOption output.author), ("path", .str output.path),
    ("source_cover", .bool output.sourceCover), ("title", .ofOption output.title)]

def specToRow (casting : List (String × Json)) (tts : List (String × Json)) (output : List (String × Json))
    (spec : JobSpec) : Json :=
  .dict [("casting", .dict casting), ("chapters", .list (spec.chapters.map .str)), ("output", .dict output),
    ("source_id", .str spec.sourceId), ("tts", .dict tts)]

/-- What `_encode_spec` dumps. -/
def specRow (spec : JobSpec) : Json :=
  specToRow (castingToRow spec.casting) (ttsToRow spec.tts) (outputToRow spec.output) spec

def encodeSpec (dumps : Json → String) (spec : JobSpec) : String := dumps (specRow spec)

section
variable (repr : Json → String)

def castFromRow (item : Json) : Except Error (String × String) := do
  let pair ← item.pair
  return (pair.1.asStr repr, pair.2.asStr repr)

def castingFromRow (value : Json) : Except Error Casting := do
  let kind ← value.get "kind"
  if Json.eqStr "characters" kind then
    let narrator ← value.getItem "narrator_voice_id"
    let unknown ← value.getItem "unknown_voice_id"
    let items ← (← value.getItem "cast").iter
    let cast ← items.mapM (castFromRow repr)
    let method ← value.getItem "method"
    let model ← value.getItem "model_id"
    return .characters (← CharacterCasting.init (narrator.asStr repr) (unknown.asStr repr)
      cast (method.asStr repr)
      (model.asStr repr))
  else SingleVoiceCasting.init ((← value.getItem "voice_id").asStr repr)

def decodeSpec (loads : String → Except Error Json) (raw : String) : Except Error JobSpec := do
  let value ← loads raw
  let sourceId ← value.getItem "source_id"
  let chapters ← (← value.getItem "chapters").iter
  let casting ← castingFromRow repr (← value.getItem "casting")
  let tts ← TtsSettings.init (← (← value.getItem "tts").kwargs)
  let output ← OutputSpec.init (← (← value.getItem "output").kwargs)
  JobSpec.init sourceId chapters casting tts output

end

/-- The casting in a row of before there were two shapes of it. -/
def untag (untagged : Bool) (casting : Casting) : List (String × Json) :=
  kept (fun key => untagged && !casting.isCharacters && key == "kind") (castingToRow casting)

/-- The row without the tag of a casting of one voice, and without keys that have defaults. -/
def legacyRow (untagged : Bool) (removedTts removedOutput : String → Bool) (spec : JobSpec) : Json :=
  specToRow (untag untagged spec.casting) (kept removedTts (ttsToRow spec.tts))
    (kept (fun key => removedOutput key && key != "path") (outputToRow spec.output)) spec

/-- The field, or its default if its key has been removed. -/
def fallBack {α : Type} (removed : String → Bool) (key : String) (default value : α) : α :=
  if removed key then default else value

def legacyTts (removed : String → Bool) (tts : TtsSettings) : TtsSettings where
  normalizeText := fallBack removed "normalize_text" TtsSettings.defaults.normalizeText tts.normalizeText
  chapterPauses := fallBack removed "chapter_pauses" TtsSettings.defaults.chapterPauses tts.chapterPauses
  prepareNumbers := fallBack removed "prepare_numbers" TtsSettings.defaults.prepareNumbers tts.prepareNumbers
  pronunciationCorrections :=
    fallBack removed "pronunciation_corrections" TtsSettings.defaults.pronunciationCorrections
      tts.pronunciationCorrections
  stutterHandling := fallBack removed "stutter_handling" TtsSettings.defaults.stutterHandling
    tts.stutterHandling
  chapterPauseMs := fallBack removed "chapter_pause_ms" TtsSettings.defaults.chapterPauseMs tts.chapterPauseMs
  headingBeforePauseMs :=
    fallBack removed "heading_before_pause_ms" TtsSettings.defaults.headingBeforePauseMs
      tts.headingBeforePauseMs
  headingAfterPauseMs :=
    fallBack removed "heading_after_pause_ms" TtsSettings.defaults.headingAfterPauseMs tts.headingAfterPauseMs
  paragraphPauseMs := fallBack removed "paragraph_pause_ms" TtsSettings.defaults.paragraphPauseMs
    tts.paragraphPauseMs
  linePauseMs := fallBack removed "line_pause_ms" TtsSettings.defaults.linePauseMs tts.linePauseMs
  scenePauseMs := fallBack removed "scene_pause_ms" TtsSettings.defaults.scenePauseMs tts.scenePauseMs
  speakChapterTitles := fallBack removed "speak_chapter_titles" TtsSettings.defaults.speakChapterTitles
    tts.speakChapterTitles
  chapterTitlePauseMs :=
    fallBack removed "chapter_title_pause_ms" TtsSettings.defaults.chapterTitlePauseMs tts.chapterTitlePauseMs
  chapterTitleOverrides :=
    fallBack removed "chapter_title_overrides" TtsSettings.defaults.chapterTitleOverrides
      tts.chapterTitleOverrides

def legacyOutput (removed : String → Bool) (output : OutputSpec) : OutputSpec where
  path := output.path
  title := fallBack removed "title" none output.title
  author := fallBack removed "author" none output.author
  sourceCover := fallBack removed "source_cover" true output.sourceCover

def legacySpec (removedTts removedOutput : String → Bool) (spec : JobSpec) : JobSpec :=
  { spec with tts := legacyTts removedTts spec.tts, output := legacyOutput removedOutput spec.output }

section
variable {items : List (String × Json)} {removed : String → Bool} {name : String}

theorem boolArg_kept {b default : Bool} (h : items.lookup name = some (.bool b)) :
    TtsSettings.boolArg (kept removed items) name default = .ok (fallBack removed name default b) := by
  unfold TtsSettings.boolArg fallBack
  rw [lookup_kept, h]
  by_cases hremoved : removed name = true
  · simp [hremoved]
  · simp [hremoved]

theorem msArg_kept {n default : ℤ} (h : items.lookup name = some (.int n)) (hn : InRange n) :
    TtsSettings.msArg (kept removed items) name default = .ok (fallBack removed name default n) := by
  unfold TtsSettings.msArg fallBack
  rw [lookup_kept, h]
  by_cases hremoved : removed name = true
  · simp [hremoved]
  · simp [hremoved, hn.1, hn.2]

theorem optionalMsArg_kept {found default : Option ℤ} (h : items.lookup name = some (found.elim .null .int))
    (hn : ∀ n, found = some n → InRange n) :
    TtsSettings.optionalMsArg (kept removed items) name default = .ok
      (fallBack removed name default found) := by
  unfold TtsSettings.optionalMsArg fallBack
  rw [lookup_kept, h]
  by_cases hremoved : removed name = true
  · simp [hremoved]
  · cases found with
    | none => simp [hremoved]
    | some n => simp [hremoved, (hn n rfl).1, (hn n rfl).2]

theorem textArg_kept {text : Option String} (h : items.lookup name = some (.ofOption text)) :
    OutputSpec.textArg (kept removed items) name = .ok (fallBack removed name none text) := by
  unfold OutputSpec.textArg fallBack
  rw [lookup_kept, h]
  by_cases hremoved : removed name = true
  · simp [hremoved]
  · cases text with
    | none => simp [hremoved, Json.ofOption]
    | some s => simp [hremoved, Json.ofOption]

theorem coverArg_kept {b : Bool} (h : items.lookup "source_cover" = some (.bool b)) :
    OutputSpec.coverArg (kept removed items) = .ok (fallBack removed "source_cover" true b) := by
  unfold OutputSpec.coverArg fallBack
  rw [lookup_kept, h]
  by_cases hremoved : removed "source_cover" = true
  · simp [hremoved]
  · simp [hremoved]

theorem known_kept {fields : List String} (h : known fields items = .ok ()) :
    known fields (kept removed items) = .ok () := by
  unfold known at h ⊢
  split_ifs at h with hall
  rw [if_pos]
  rw [List.all_eq_true] at hall ⊢
  exact fun item hitem => hall item (mem_kept hitem)

end

/-- Overrides that arrive as pairs of strings are checked and sorted. -/
theorem overrides_entries (entries : List (String × Option String)) :
    TtsSettings.overrides (.list (entries.map fun entry => .list [.str entry.1, .ofOption entry.2])) =
      if TtsSettings.mixed entries then .error .type
      else if !entries.all TtsSettings.validOverride then .error (.value "invalid_chapter_title_override")
      else .ok (entries.insertionSort TtsSettings.overrideLE) := by
  have hpairs : (entries.map fun entry => Json.list [.str entry.1, .ofOption entry.2]).mapM Json.pair =
      .ok (entries.map fun entry => (Json.str entry.1, Json.ofOption entry.2)) := mapM_map_ok
        fun entry _ => rfl
  have hentries : (entries.map fun entry => (Json.str entry.1, Json.ofOption entry.2)).mapM
      TtsSettings.override =
      some entries := by
    have hsome : ∀ entry ∈ entries, TtsSettings.override (Json.str entry.1, Json.ofOption entry.2) =
        some (id entry) := by
      intro entry _
      obtain ⟨key, value⟩ := entry
      cases value <;> rfl
    rw [mapM_map_some hsome, List.map_id]
  unfold TtsSettings.overrides
  simp only [Json.iter, Bind.bind, Except.bind, hpairs, hentries]

/-- The overrides that were stored. -/
theorem overrides_row {tts : TtsSettings} (h : tts.Valid) :
    TtsSettings.overrides
      (.list (tts.chapterTitleOverrides.map fun entry => .list [.str entry.1, .ofOption entry.2])) =
      .ok tts.chapterTitleOverrides := by
  have hsorted := h.sorted.insertionSort_eq
  rw [overrides_entries, h.unmixed, h.titled, hsorted]
  rfl

/-- The constructor takes the row back, and gives a field without a key its default. -/
theorem init_ttsToRow {tts : TtsSettings} (h : tts.Valid) (removed : String → Bool) :
    TtsSettings.init (kept removed (ttsToRow tts)) = .ok (legacyTts removed tts) := by
  have hknown : known TtsSettings.fields (kept removed (ttsToRow tts)) = .ok () := known_kept rfl
  have hoverrides : TtsSettings.overridesArg (kept removed (ttsToRow tts)) =
      .ok (fallBack removed "chapter_title_overrides"
      TtsSettings.defaults.chapterTitleOverrides tts.chapterTitleOverrides) := by
    have hrow := overrides_row h
    unfold TtsSettings.overridesArg fallBack
    rw [lookup_kept]
    by_cases hremoved : removed "chapter_title_overrides" = true
    · simp [hremoved]
    · simp [hremoved, ttsToRow, List.lookup_cons, hrow]
  unfold TtsSettings.init
  rw [hknown, hoverrides, boolArg_kept (b := tts.normalizeText) rfl,
    boolArg_kept (b := tts.chapterPauses) rfl, boolArg_kept (b := tts.prepareNumbers) rfl,
    boolArg_kept (b := tts.pronunciationCorrections) rfl, boolArg_kept (b := tts.stutterHandling) rfl,
    boolArg_kept (b := tts.speakChapterTitles) rfl, optionalMsArg_kept rfl h.chapterPauseMs,
    msArg_kept rfl h.headingBeforePauseMs, msArg_kept rfl h.headingAfterPauseMs,
    msArg_kept rfl h.paragraphPauseMs, msArg_kept rfl h.linePauseMs, msArg_kept rfl h.scenePauseMs,
      msArg_kept rfl h.chapterTitlePauseMs]
  rfl

theorem init_outputToRow {output : OutputSpec} (h : output.Valid) (removed : String → Bool) :
    OutputSpec.init (kept (fun key => removed key && key != "path") (outputToRow output)) =
      .ok (legacyOutput removed output) := by
  set removed' : String → Bool := fun key => removed key && key != "path" with hremoved'
  have hknown : known OutputSpec.fields (kept removed' (outputToRow output)) = .ok () := known_kept rfl
  have hpath : OutputSpec.pathArg (kept removed' (outputToRow output)) = .ok output.path := by
    have hlookup : (outputToRow output).lookup "path" = some (.str output.path) := rfl
    unfold OutputSpec.pathArg
    rw [lookup_kept, hlookup]
    simp only [hremoved', bne_self_eq_false, Bool.and_false, Bool.false_eq_true, if_false,
      requiredOf_named h.path]
    simp [Bind.bind, Except.bind, h.m4b]
  have htitle : OutputSpec.textArg (kept removed' (outputToRow output)) "title" =
      .ok (fallBack removed' "title" none output.title) := textArg_kept rfl
  have hauthor : OutputSpec.textArg (kept removed' (outputToRow output)) "author" =
      .ok (fallBack removed' "author" none output.author) := textArg_kept rfl
  unfold OutputSpec.init
  rw [hknown, hpath, htitle, hauthor, coverArg_kept (b := output.sourceCover) rfl]
  simp [Bind.bind, Except.bind, legacyOutput, fallBack, hremoved', Pure.pure, Except.pure]

theorem castingFromRow_single (repr : Json → String) {voiceId : String} (h : Named voiceId)
    (untagged : Bool) :
    castingFromRow repr (.dict (untag untagged (.single voiceId))) = .ok (.single voiceId) := by
  set removed : String → Bool := fun key => untagged && !(Casting.single voiceId).isCharacters && key ==
    "kind" with hremoved
  have hkind : (untag untagged (.single voiceId)).lookup "kind" = if untagged then none else some
      (.str "single") := by
    unfold untag
    rw [lookup_kept]
    simp [Casting.isCharacters, castingToRow]
  have hvoice : (untag untagged (.single voiceId)).lookup "voice_id" = some (.str voiceId) := by
    unfold untag
    rw [lookup_kept]
    simp [castingToRow, List.lookup_cons]
  have hsingle : Json.eqStr "characters" (if untagged then none else some (.str "single")) = false := by
    cases untagged
    · rfl
    · rfl
  have hinit : SingleVoiceCasting.init voiceId = .ok (.single voiceId) := by
    simp only [SingleVoiceCasting.init, required_eq h]
    rfl
  simp only [castingFromRow, Json.get, hkind, Bind.bind, Except.bind, hsingle, Bool.false_eq_true,
    if_false, Json.getItem, hvoice, Json.asStr, hinit]

theorem castingFromRow_characters (repr : Json → String) {casting : CharacterCasting} (h : casting.Valid)
    (untagged : Bool) :
    castingFromRow repr (.dict (untag untagged (.characters casting))) = .ok (.characters casting) := by
  have hrow : untag untagged (.characters casting) = castingToRow (.characters casting) := by
    unfold untag kept
    refine List.filter_eq_self.mpr fun item _ => ?_
    simp [Casting.isCharacters]
  have hcast : (casting.cast.map fun pair => Json.list [.str pair.1, .str pair.2]).mapM (castFromRow repr) =
      .ok casting.cast := by
    have hid := @mapM_map_ok _ _ _ (fun pair : String × String => Json.list [.str pair.1, .str pair.2])
      (castFromRow repr) id
      casting.cast fun pair _ => rfl
    rwa [List.map_id] at hid
  have hinit := CharacterCasting.init_eq h
  have hget : ∀ (key : String) (value : Json), (castingToRow (.characters casting)).lookup key = some value →
      (Json.dict (castingToRow (.characters casting))).getItem key = .ok value := by
    intro key value hvalue
    simp only [Json.getItem, hvalue]
  have hkind : (Json.dict (castingToRow (.characters casting))).get "kind" =
      .ok (some (.str "characters")) := by
    simp [Json.get, castingToRow, List.lookup_cons]
  have hcharacters : Json.eqStr "characters" (some (.str "characters")) = true := rfl
  rw [hrow]
  simp only [castingFromRow, hkind, Bind.bind, Except.bind, hcharacters, if_true,
    hget "narrator_voice_id" (.str casting.narratorVoiceId) (by simp [castingToRow, List.lookup_cons]),
    hget "unknown_voice_id" (.str casting.unknownVoiceId) (by simp [castingToRow, List.lookup_cons]),
    hget "cast" (.list (casting.cast.map fun pair => .list [.str pair.1, .str pair.2]))
    (by simp [castingToRow]), hget "method" (.str casting.method) (by simp [castingToRow, List.lookup_cons]),
    hget "model_id" (.str casting.modelId) (by simp [castingToRow, List.lookup_cons]), Json.iter, hcast,
    Json.asStr, hinit, Pure.pure, Except.pure]

theorem castingFromRow_eq (repr : Json → String) {casting : Casting} (h : casting.Valid) (untagged : Bool) :
    castingFromRow repr (.dict (untag untagged casting)) = .ok casting := by
  cases casting with
  | single voiceId => exact castingFromRow_single repr h untagged
  | characters casting => exact castingFromRow_characters repr h untagged

theorem init_eq (spec : JobSpec) (tts : TtsSettings) (output : OutputSpec) :
    JobSpec.init (.str spec.sourceId) (spec.chapters.map .str) spec.casting tts output = .ok
      { spec with tts, output } := by
  have hsource : requiredOf (.str spec.sourceId) "invalid_source_id" = .ok spec.sourceId :=
    requiredOf_named spec.sourceNamed
  have hchapters : (spec.chapters.map Json.str).mapM (requiredOf · "invalid_chapter_id") =
      .ok spec.chapters := by
    have hid := @mapM_map_ok _ _ _ Json.str (requiredOf · "invalid_chapter_id") id spec.chapters
      fun chapter hchapter => requiredOf_named (spec.chaptersNamed chapter hchapter)
    rwa [List.map_id] at hid
  unfold JobSpec.init
  split
  · rename_i e he
    rw [hsource] at he
    cases he
  rename_i sourceId hsourceId
  obtain rfl : spec.sourceId = sourceId := by
    rw [hsource] at hsourceId
    exact Except.ok.inj hsourceId
  split
  · rename_i e he
    rw [hchapters] at he
    cases he
  rename_i chapters hchapterIds
  obtain rfl : spec.chapters = chapters := by
    rw [hchapters] at hchapterIds
    exact Except.ok.inj hchapterIds
  rw [dif_neg spec.chaptersNonempty, dif_pos spec.chaptersNodup]

/-- A specification whose parts came from their constructors. -/
structure Constructed (spec : JobSpec) : Prop where
  casting : (∃ voiceId, SingleVoiceCasting.init voiceId = .ok spec.casting) ∨
    ∃ narratorVoiceId unknownVoiceId cast method modelId casting,
      CharacterCasting.init narratorVoiceId unknownVoiceId cast method modelId = .ok casting ∧
        spec.casting = .characters casting
  tts : ∃ kwargs, TtsSettings.init kwargs = .ok spec.tts
  output : ∃ kwargs, OutputSpec.init kwargs = .ok spec.output

theorem Constructed.castingValid {spec : JobSpec} (h : Constructed spec) : spec.casting.Valid := by
  obtain ⟨voiceId, hinit⟩ | ⟨narrator, unknown, cast, method, model, casting, hinit, heq⟩ := h.casting
  · exact SingleVoiceCasting.init_named hinit
  · rw [heq]
    exact CharacterCasting.init_valid hinit

/-- A row of before is read with the defaults of what is missing. -/
theorem decodeSpec_legacyRow (repr : Json → String) {loads : String → Except Error Json} {spec : JobSpec}
    (h : Constructed spec) {raw : String} {untagged : Bool} {removedTts removedOutput : String → Bool}
    (hraw : loads raw = .ok (legacyRow untagged removedTts removedOutput spec)) :
    decodeSpec repr loads raw = .ok (legacySpec removedTts removedOutput spec) := by
  obtain ⟨_, htts⟩ := h.tts
  obtain ⟨_, houtput⟩ := h.output
  have hcasting := castingFromRow_eq repr h.castingValid untagged
  have htts := init_ttsToRow (TtsSettings.init_valid htts) removedTts
  have houtput := init_outputToRow (OutputSpec.init_valid houtput) removedOutput
  have hspec := init_eq spec (legacyTts removedTts spec.tts) (legacyOutput removedOutput spec.output)
  set row := legacyRow untagged removedTts removedOutput spec with hrow
  have hsourceItem : row.getItem "source_id" = .ok (.str spec.sourceId) := by
    simp [hrow, legacyRow, specToRow, Json.getItem, List.lookup_cons]
  have hchaptersItem : row.getItem "chapters" = .ok (.list (spec.chapters.map .str)) := by
    simp [hrow, legacyRow, specToRow, Json.getItem, List.lookup_cons]
  have hcastingItem : row.getItem "casting" = .ok (.dict (untag untagged spec.casting)) := by
    simp [hrow, legacyRow, specToRow, Json.getItem]
  have httsItem : row.getItem "tts" = .ok (.dict (kept removedTts (ttsToRow spec.tts))) := by
    simp [hrow, legacyRow, specToRow, Json.getItem, List.lookup_cons]
  have houtputItem : row.getItem "output" =
      .ok (.dict (kept (fun key => removedOutput key && key != "path") (outputToRow spec.output))) := by
    simp [hrow, legacyRow, specToRow, Json.getItem, List.lookup_cons]
  simp only [decodeSpec, hraw, Bind.bind, Except.bind, hsourceItem, hchaptersItem, hcastingItem,
    httsItem, houtputItem, Json.iter, Json.kwargs, hcasting, htts, houtput]
  exact hspec

theorem kept_none (items : List (String × Json)) : kept (fun _ => false) items = items :=
  List.filter_eq_self.mpr fun _ _ => rfl

theorem legacyRow_none (spec : JobSpec) :
    legacyRow false (fun _ => false) (fun _ => false) spec = specRow spec := by
  unfold legacyRow specRow untag
  simp only [Bool.false_and, kept_none]

theorem legacySpec_none (spec : JobSpec) : legacySpec (fun _ => false) (fun _ => false) spec = spec := rfl

theorem decodeSpec_stored (repr dumps : Json → String) {loads : String → Except Error Json} {spec : JobSpec}
    (h : Constructed spec) (hjson : loads (dumps (specRow spec)) = .ok (specRow spec)) :
    decodeSpec repr loads (encodeSpec dumps spec) = .ok spec := by
  rw [← legacyRow_none] at hjson
  have hdecoded := decodeSpec_legacyRow repr h hjson
  rwa [legacySpec_none, legacyRow_none] at hdecoded

/-- A specification is read as it was stored, and from a row of before with the defaults of what is
missing. -/
theorem decodeSpec_encodeSpec (repr dumps : Json → String) {loads : String → Except Error Json}
    {spec : JobSpec} (h : Constructed spec) (hjson : loads (dumps (specRow spec)) = .ok (specRow spec)) :
    decodeSpec repr loads (encodeSpec dumps spec) = .ok spec ∧
      ∀ (raw : String) (untagged : Bool) (removedTts removedOutput : String → Bool),
        loads raw = .ok (legacyRow untagged removedTts removedOutput spec) →
          decodeSpec repr loads raw = .ok (legacySpec removedTts removedOutput spec) := by
  constructor
  · exact decodeSpec_stored repr dumps h hjson
  · intro raw untagged removedTts removedOutput hraw
    exact decodeSpec_legacyRow repr h hraw

/-- A chapter whose title is not read aloud. -/
def sampleSpec : JobSpec where
  sourceId := "novel"
  chapters := ["c1"]
  casting := .single "voice"
  tts := { chapterTitleOverrides := [("c1", none)] }
  output := { path := "out.m4b" }
  sourceNamed := by decide
  chaptersNamed := by decide
  chaptersNonempty := by decide
  chaptersNodup := by decide

theorem sampleSpec_constructed : Constructed sampleSpec where
  casting := .inl ⟨"voice", rfl⟩
  tts := ⟨[("chapter_title_overrides", .list [.list [.str "c1", .null]])], rfl⟩
  output := ⟨[("path", .str "out.m4b")], rfl⟩

def sampleText : String :=
  "\x7b\"casting\":\x7b\"kind\":" ++ ("\"single\",\"voice_id\":\"voice\"\x7d,\"chapters\":[\"c1\"]," ++
    "\"output\":\x7b\"author\":null,\"path\":\"out.m4b\",\"source_cover\":true,\"title\":null\x7d," ++
    "\"source_id\":\"novel\",\"tts\":\x7b\"chapter_pause_ms\":null,\"chapter_pauses\":false," ++
    "\"chapter_title_overrides\":[[\"c1\",null]],\"chapter_title_pause_ms\":750,\"heading_after_pause_ms\":0," ++
    "\"heading_before_pause_ms\":0,\"line_pause_ms\":0,\"normalize_text\":true,\"paragraph_pause_ms\":0," ++
    "\"prepare_numbers\":false,\"pronunciation_corrections\":false,\"scene_pause_ms\":0," ++
    "\"speak_chapter_titles\":false,\"stutter_handling\":false\x7d\x7d")

/-- The row of before there was a kind of casting, with none of the keys that have defaults. -/
def legacyText : String :=
  "\x7b\"casting\":\x7b\"voice_id\":" ++
    ("\"voice\"\x7d,\"chapters\":[\"c1\"],\"output\":\x7b\"path\":\"out.m4b\"\x7d," ++
    "\"source_id\":\"novel\",\"tts\":\x7b\x7d\x7d")

theorem legacyText_ne : legacyText ≠ sampleText := by
  have hheads :
      ∀ x y : String, "\x7b\"casting\":\x7b\"voice_id\":" ++ x ≠ "\x7b\"casting\":\x7b\"kind\":" ++ y := by
    intro x y h
    have hchar := congrArg (fun s => s.toList[13]?) h
    simp only [String.toList_append] at hchar
    rw [List.getElem?_append_left (by decide +kernel), List.getElem?_append_left (by decide +kernel)] at hchar
    exact absurd hchar (by decide +kernel)
  exact hheads _ _

def sampleLoads (text : String) : Except Error Json :=
  if text = sampleText then .ok (specRow sampleSpec)
  else if text = legacyText then .ok (legacyRow true (fun _ => true) (fun _ => true) sampleSpec)
  else .error (.value "Expecting value")

theorem decodeSpec_encodeSpec_sample :
    decodeSpec (fun _ => "") sampleLoads (encodeSpec (fun _ => sampleText) sampleSpec) = .ok sampleSpec ∧
      decodeSpec (fun _ => "") sampleLoads legacyText =
        .ok (legacySpec (fun _ => true) (fun _ => true) sampleSpec) := by
  have hsample : sampleLoads sampleText = .ok (specRow sampleSpec) := if_pos rfl
  have hlegacy : sampleLoads legacyText =
      .ok (legacyRow true (fun _ => true) (fun _ => true) sampleSpec) := by
    unfold sampleLoads
    rw [if_neg legacyText_ne, if_pos rfl]
  obtain ⟨hdecoded, hrows⟩ :=
    decodeSpec_encodeSpec (fun _ => "") (fun _ => sampleText) sampleSpec_constructed hsample
  exact ⟨hdecoded, hrows legacyText true (fun _ => true) (fun _ => true) hlegacy⟩

end KenkuiServer.Storage
