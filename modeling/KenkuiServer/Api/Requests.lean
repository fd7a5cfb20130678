import KenkuiServer.Local.Submission
import KenkuiServer.Storage.Specs

/-! The job that a request asks for: requests that say the same in another order ask for the same job, under
one key. -/
namespace KenkuiServer.Api
open Data Jobs Storage

/-- What a handler raises: an `HTTPException`, or an exception of the services. -/
inductive Failure
  | http (status : ℕ) (detail : String)
  | raised (e : Error)
  deriving DecidableEq, Repr

structure CastingRequest where
  voiceId : Option String := none
  narratorVoiceId : Option String := none
  unknownVoiceId : Option String := none
  /-- A `dict`: its items in their order. -/
  cast : List (String × String) := []
  castKeys : (cast.map (·.1)).Nodup := by decide
  method : String := "gendered"
  modelId : Option String := none

structure TtsRequest where
  chapterPauses : Bool := false
  prepareNumbers : Bool := false
  pronunciationCorrections : Bool := false
  stutterHandling : Bool := false
  chapterPauseMs : Option ℤ := none
  headingBeforePauseMs : ℤ := 0
  headingAfterPauseMs : ℤ := 0
  paragraphPauseMs : ℤ := 0
  linePauseMs : ℤ := 0
  scenePauseMs : ℤ := 0
  speakChapterTitles : Bool := true
  chapterTitlePauseMs : ℤ := 750
  chapterTitleOverrides : List (String × Option String) := []
  overrideKeys : (chapterTitleOverrides.map (·.1)).Nodup := by decide

structure OutputRequest where
  format : String := "m4b"
  title : Option String := none
  author : Option String := none
  sourceCover : Bool := true

structure JobRequest where
  sourceId : String
  chapters : List String
  casting : CastingRequest
  tts : TtsRequest := {}
  output : OutputRequest := {}

def lift {α : Type} : Except Error α → Except Failure α
  | .ok a => .ok a
  | .error e => .error (.raised e)

/-- `request.narrator_voice_id or request.voice_id`. -/
def CastingRequest.narrator (request : CastingRequest) : Option String :=
  if request.narratorVoiceId.getD "" = "" then request.voiceId else request.narratorVoiceId

def casting (request : CastingRequest) (allowedModels : List String) : Except Failure Casting :=
  match request.modelId with
  | none =>
    match request.voiceId with
    | none => .error (.http 422 "a voice is required")
    | some voiceId => lift (SingleVoiceCasting.init voiceId)
  | some modelId =>
    if modelId ∉ allowedModels then .error (.http 422 "model_not_allowed")
    else
      match request.narrator with
      | none => .error (.http 422 "a narrator voice is required")
      | some narrator => lift do
        return .characters (← CharacterCasting.init narrator (request.unknownVoiceId.getD "")
          request.cast request.method
          modelId)

/-- The arguments of `TtsSettings`. -/
def TtsRequest.arguments (tts : TtsRequest) : List (String × Json) :=
  [("chapter_pauses", .bool tts.chapterPauses),
    ("prepare_numbers", .bool tts.prepareNumbers),
    ("pronunciation_corrections", .bool tts.pronunciationCorrections),
    ("stutter_handling", .bool tts.stutterHandling),
    ("chapter_pause_ms", tts.chapterPauseMs.elim .null .int),
    ("heading_before_pause_ms", .int tts.headingBeforePauseMs),
    ("heading_after_pause_ms", .int tts.headingAfterPauseMs),
    ("paragraph_pause_ms", .int tts.paragraphPauseMs),
    ("line_pause_ms", .int tts.linePauseMs),
    ("scene_pause_ms", .int tts.scenePauseMs),
    ("speak_chapter_titles", .bool tts.speakChapterTitles),
    ("chapter_title_pause_ms", .int tts.chapterTitlePauseMs),
    ("chapter_title_overrides",
      .list (tts.chapterTitleOverrides.map fun entry => .list [.str entry.1, .ofOption entry.2]))]

def OutputRequest.arguments (output : OutputRequest) : List (String × Json) :=
  [("path", .str "artifact.m4b"), ("title", .ofOption output.title), ("author", .ofOption output.author),
    ("source_cover", .bool output.sourceCover)]

/-- The `try` block of `_spec`. -/
def build (request : JobRequest) (allowedModels : List String) : Except Failure JobSpec := do
  let casting ← casting request.casting allowedModels
  let tts ← lift (TtsSettings.init request.tts.arguments)
  let output ← lift (OutputSpec.init request.output.arguments)
  lift (JobSpec.init (.str request.sourceId) (request.chapters.map .str) casting tts output)

def spec (request : JobRequest) (allowedModels : List String) : Except Failure JobSpec :=
  if request.output.format ≠ "m4b" then .error (.http 422 "only m4b output is supported")
  else
    match build request allowedModels with
    | .error (.raised (.value code)) => .error (.http 422 code)
    | result => result

/-- Two requests for a casting that differ in the order of the cast and in space around the names. -/
structure CastingRequest.Reordered (request request' : CastingRequest) : Prop where
  voiceId : request.voiceId.map strip = request'.voiceId.map strip
  narratorVoiceId : request.narratorVoiceId.map strip = request'.narratorVoiceId.map strip
  unknownVoiceId : request.unknownVoiceId.map strip = request'.unknownVoiceId.map strip
  cast : (request.cast.map fun pair => (strip pair.1, strip pair.2)).Perm
    (request'.cast.map fun pair => (strip pair.1, strip pair.2))
  method : strip request.method = strip request'.method
  modelId : request.modelId.map strip = request'.modelId.map strip

/-- Two requests that differ in the order of the cast and of the overrides, and in space around the names. -/
structure JobRequest.Reordered (request request' : JobRequest) : Prop where
  sourceId : strip request.sourceId = strip request'.sourceId
  chapters : request.chapters.map strip = request'.chapters.map strip
  casting : request.casting.Reordered request'.casting
  overrides : request.tts.chapterTitleOverrides.Perm request'.tts.chapterTitleOverrides
  tts : { request.tts with chapterTitleOverrides := [], overrideKeys := List.nodup_nil } =
    { request'.tts with chapterTitleOverrides := [], overrideKeys := List.nodup_nil }
  output : request.output = request'.output

instance : Std.Antisymm castLE := ⟨fun _ _ h h' => toLex.injective (le_antisymm h h')⟩

theorem overrideKey_injective : Function.Injective TtsSettings.overrideKey := by
  intro p q h
  have hpair := Prod.mk.inj (toLex.injective h)
  exact Prod.ext hpair.1 hpair.2

instance : Std.Antisymm TtsSettings.overrideLE := ⟨fun _ _ h h' => overrideKey_injective (le_antisymm h h')⟩

/-- Sorting forgets the order of the entries. -/
theorem insertionSort_of_perm {α : Type} {r : α → α → Prop} [DecidableRel r] [Std.Total r] [IsTrans α r]
    [Std.Antisymm r] {xs ys : List α} (h : xs.Perm ys) : xs.insertionSort r = ys.insertionSort r := by
  have hperm := (List.perm_insertionSort r xs).trans (h.trans (List.perm_insertionSort r ys).symm)
  exact hperm.eq_of_pairwise' (List.pairwise_insertionSort r xs) (List.pairwise_insertionSort r ys)

section
variable {value code normalized : String}

theorem required_strip (h : required value code = .ok normalized) : normalized = strip value := by
  unfold required at h
  split_ifs at h
  exact (Except.ok.inj h).symm

theorem required_nonempty (h : required value code = .ok normalized) : strip value ≠ "" := by
  unfold required at h
  split_ifs at h with hempty
  exact hempty

theorem lift_ok {α : Type} {x : Except Error α} {a : α} (h : lift x = .ok a) : x = .ok a := by
  cases x with
  | error e => cases h
  | ok a' =>
    cases h
    rfl

theorem mapM_castPair {pairs normalized : List (String × String)} (h : pairs.mapM castPair = .ok normalized) :
    normalized = pairs.map fun pair => (strip pair.1, strip pair.2) := by
  induction pairs generalizing normalized with
  | nil =>
    cases h
    rfl
  | cons pair pairs ih =>
    rw [List.mapM_cons] at h
    obtain ⟨first, hfirst, h⟩ := bind_eq_ok.mp h
    obtain ⟨rest, hrest, h⟩ := bind_eq_ok.mp h
    obtain ⟨character, hcharacter, hfirst⟩ := bind_eq_ok.mp hfirst
    obtain ⟨voice, hvoice, hfirst⟩ := bind_eq_ok.mp hfirst
    cases hfirst
    cases h
    rw [List.map_cons, ih hrest, required_strip hcharacter, required_strip hvoice]

theorem mapM_requiredOf {values normalized : List String}
    (h : (values.map Json.str).mapM (requiredOf · code) = .ok normalized) :
    normalized = values.map strip := by
  induction values generalizing normalized with
  | nil =>
    cases h
    rfl
  | cons value values ih =>
    rw [List.map_cons, List.mapM_cons] at h
    obtain ⟨first, hfirst, h⟩ := bind_eq_ok.mp h
    obtain ⟨rest, hrest, h⟩ := bind_eq_ok.mp h
    cases h
    have hfirst : required value code = .ok first := hfirst
    rw [List.map_cons, ih hrest, required_strip hfirst]

/-- What an accepted cast is. -/
theorem CharacterCasting.init_ok {narrator unknown method model : String} {cast : List (String × String)}
    {casting : CharacterCasting} (h : CharacterCasting.init narrator unknown cast method
      model = .ok casting) :
    strip narrator ≠ "" ∧ casting =
      ⟨strip narrator, if strip unknown = "" then strip narrator else strip unknown,
        (cast.map fun pair => (strip pair.1, strip pair.2)).insertionSort castLE, strip method,
          strip model⟩ := by
  obtain ⟨named, hnarrator, h⟩ := bind_eq_ok.mp h
  obtain ⟨namedModel, hmodel, h⟩ := bind_eq_ok.mp h
  obtain ⟨namedMethod, hmethod, h⟩ := bind_eq_ok.mp h
  obtain ⟨pairs, hpairs, h⟩ := bind_eq_ok.mp h
  cases h
  rw [mapM_castPair hpairs, required_strip hnarrator, required_strip hmodel, required_strip hmethod]
  exact ⟨required_nonempty hnarrator, rfl⟩

end

section
variable {request request' : CastingRequest} {allowedModels : List String}

theorem strip_getD {a b : Option String} (h : a.map strip = b.map strip) :
    strip (a.getD "") = strip (b.getD "") := by
  cases a with
  | none =>
    cases b with
    | none => rfl
    | some s => cases h
  | some s =>
    cases b with
    | none => cases h
    | some t => exact Option.some.inj h

/-- The narrators of two requests that are both accepted. -/
theorem narrator_eq (h : request.Reordered request') {narrator narrator' : String}
    (hn : request.narrator = some narrator) (hn' : request'.narrator = some narrator')
    (hnamed : strip narrator ≠ "") (hnamed' : strip narrator' ≠ "") :
    strip narrator = strip narrator' := by
  have hstrip := strip_getD h.narratorVoiceId
  have hempty : strip "" = "" := by decide
  unfold CastingRequest.narrator at hn hn'
  split_ifs at hn hn' with hfirst hsecond hsecond
  · -- Both take the voice.
    have hvoice := h.voiceId
    rw [hn, hn'] at hvoice
    exact Option.some.inj hvoice
  · -- A narrator of spaces only is not accepted.
    rw [hfirst, hempty, hn', Option.getD_some] at hstrip
    exact absurd hstrip.symm hnamed'
  · rw [hsecond, hempty, hn, Option.getD_some] at hstrip
    exact absurd hstrip hnamed
  · have hnarrator := h.narratorVoiceId
    rw [hn, hn'] at hnarrator
    exact Option.some.inj hnarrator

theorem casting_eq (h : request.Reordered request') {found found' : Casting}
    (hc : casting request allowedModels = .ok found) (hc' : casting request' allowedModels = .ok found') :
    found = found' := by
  have hmodel := h.modelId
  unfold casting at hc hc'
  cases hm : request.modelId with
  | none =>
    obtain hm' : request'.modelId = none := by
      rw [hm] at hmodel
      exact Option.map_eq_none_iff.mp hmodel.symm
    have hvoice := h.voiceId
    simp only [hm, hm'] at hc hc'
    cases hv : request.voiceId with
    | none => simp [hv] at hc
    | some voiceId =>
      cases hv' : request'.voiceId with
      | none => simp [hv'] at hc'
      | some voiceId' =>
        simp only [hv, hv'] at hc hc' hvoice
        obtain ⟨named, hnamed, hc⟩ := bind_eq_ok.mp (lift_ok hc)
        obtain ⟨named', hnamed', hc'⟩ := bind_eq_ok.mp (lift_ok hc')
        cases hc
        cases hc'
        rw [required_strip hnamed, required_strip hnamed', Option.some.inj hvoice]
  | some model =>
    obtain ⟨model', hm', hmodels⟩ : ∃ model', request'.modelId = some model' ∧
        strip model' = strip model := by
      rw [hm, Option.map_some] at hmodel
      exact Option.map_eq_some_iff.mp hmodel.symm
    simp only [hm, hm'] at hc hc'
    split_ifs at hc hc'
    cases hn : request.narrator with
    | none => simp [hn] at hc
    | some narrator =>
      cases hn' : request'.narrator with
      | none => simp [hn'] at hc'
      | some narrator' =>
        simp only [hn, hn'] at hc hc'
        obtain ⟨built, hbuilt, hc⟩ := bind_eq_ok.mp (lift_ok hc)
        obtain ⟨built', hbuilt', hc'⟩ := bind_eq_ok.mp (lift_ok hc')
        cases hc
        cases hc'
        obtain ⟨hnamed, rfl⟩ := CharacterCasting.init_ok hbuilt
        obtain ⟨hnamed', rfl⟩ := CharacterCasting.init_ok hbuilt'
        rw [narrator_eq h hn hn' hnamed hnamed', strip_getD h.unknownVoiceId, insertionSort_of_perm h.cast,
          h.method, hmodels]

end

/-- What the overrides of a request come to. -/
theorem overrides_ok {entries found : List (String × Option String)}
    (h : TtsSettings.overrides (.list (entries.map fun entry => .list [.str entry.1, .ofOption entry.2])) =
      .ok found) :
    found = entries.insertionSort TtsSettings.overrideLE := by
  rw [overrides_entries] at h
  split_ifs at h
  exact (Except.ok.inj h).symm

theorem overridesArg_arguments (tts : TtsRequest) :
    TtsSettings.overridesArg tts.arguments = TtsSettings.overrides
      (.list (tts.chapterTitleOverrides.map fun entry => .list [.str entry.1, .ofOption entry.2])) := by
  have hlookup : tts.arguments.lookup "chapter_title_overrides" =
      some (.list (tts.chapterTitleOverrides.map fun entry => .list [.str entry.1, .ofOption entry.2])) := by
    simp [TtsRequest.arguments, List.lookup_cons]
  simp only [TtsSettings.overridesArg, hlookup]

/-- The overrides that an accepted request has. -/
theorem overridesArg_ok {kwargs : List (String × Json)} {tts : TtsSettings}
    (h : TtsSettings.init kwargs = .ok tts) :
    ∃ entries, TtsSettings.overridesArg kwargs = .ok entries := by
  unfold TtsSettings.init at h
  obtain ⟨_, -, h⟩ := bind_eq_ok.mp h
  obtain ⟨entries, hentries, -⟩ := bind_eq_ok.mp h
  exact ⟨entries, hentries⟩

theorem tts_eq {request request' : TtsRequest}
    (h : request.chapterTitleOverrides.Perm request'.chapterTitleOverrides)
    (hrest : ({ request with chapterTitleOverrides := [], overrideKeys := List.nodup_nil } : TtsRequest) =
      { request' with chapterTitleOverrides := [], overrideKeys := List.nodup_nil }) {tts tts' : TtsSettings}
    (ht : TtsSettings.init request.arguments = .ok tts)
    (ht' : TtsSettings.init request'.arguments = .ok tts') :
    tts = tts' := by
  obtain ⟨entries, hentries⟩ := overridesArg_ok ht
  obtain ⟨entries', hentries'⟩ := overridesArg_ok ht'
  have hsame : TtsSettings.overridesArg request.arguments = TtsSettings.overridesArg request'.arguments := by
    have hsorted := overrides_ok ((overridesArg_arguments request).symm.trans hentries)
    have hsorted' := overrides_ok ((overridesArg_arguments request').symm.trans hentries')
    rw [hentries, hentries', hsorted, hsorted', insertionSort_of_perm h]
  -- The other arguments are the same.
  have hrows : kept (· == "chapter_title_overrides") request.arguments =
      kept (· == "chapter_title_overrides") request'.arguments := by
    have hrow := congrArg TtsRequest.arguments hrest
    have hkept := congrArg (kept (· == "chapter_title_overrides")) hrow
    simpa [TtsRequest.arguments, kept] using hkept
  have hlookup : ∀ name, name ≠ "chapter_title_overrides" →
      request.arguments.lookup name = request'.arguments.lookup name := by
    intro name hname
    have hbool : (name == "chapter_title_overrides") = false := by simpa using hname
    have hleft := lookup_kept (· == "chapter_title_overrides") request.arguments name
    have hright := lookup_kept (· == "chapter_title_overrides") request'.arguments name
    simp only [hbool, Bool.false_eq_true, if_false] at hleft hright
    rw [← hleft, ← hright, hrows]
  have hinit : TtsSettings.init request.arguments = TtsSettings.init request'.arguments := by
    have hknown : known TtsSettings.fields request.arguments = .ok () := rfl
    have hknown' : known TtsSettings.fields request'.arguments = .ok () := rfl
    have hbool : ∀ name default, name ≠ "chapter_title_overrides" →
        TtsSettings.boolArg request.arguments name default = TtsSettings.boolArg request'.arguments
          name default := by
      intro name default hname
      simp only [TtsSettings.boolArg, hlookup name hname]
    have hms : ∀ name default, name ≠ "chapter_title_overrides" →
        TtsSettings.msArg request.arguments name default = TtsSettings.msArg request'.arguments
          name default := by
      intro name default hname
      simp only [TtsSettings.msArg, hlookup name hname]
    have hoptional : ∀ name default, name ≠ "chapter_title_overrides" →
        TtsSettings.optionalMsArg request.arguments name default =
          TtsSettings.optionalMsArg request'.arguments name default := by
      intro name default hname
      simp only [TtsSettings.optionalMsArg, hlookup name hname]
    unfold TtsSettings.init
    rw [hknown, hknown', hsame]
    simp only [hbool _ _ (show "normalize_text" ≠ _ by decide),
      hbool _ _ (show "chapter_pauses" ≠ _ by decide), hbool _ _ (show "prepare_numbers" ≠ _ by decide),
      hbool _ _ (show "pronunciation_corrections" ≠ _ by decide),
        hbool _ _ (show "stutter_handling" ≠ _ by decide),
      hbool _ _ (show "speak_chapter_titles" ≠ _ by decide),
        hoptional _ _ (show "chapter_pause_ms" ≠ _ by decide),
      hms _ _ (show "heading_before_pause_ms" ≠ _ by decide),
        hms _ _ (show "heading_after_pause_ms" ≠ _ by decide),
      hms _ _ (show "paragraph_pause_ms" ≠ _ by decide), hms _ _ (show "line_pause_ms" ≠ _ by decide),
      hms _ _ (show "scene_pause_ms" ≠ _ by decide), hms _ _ (show "chapter_title_pause_ms" ≠ _ by decide)]
  rw [hinit, ht'] at ht
  exact (Except.ok.inj ht).symm

section
variable {request request' : JobRequest} {allowedModels : List String} {found found' : JobSpec}

/-- What an accepted request is built of. -/
theorem build_of_spec (h : spec request allowedModels = .ok found) :
    build request allowedModels = .ok found := by
  unfold spec at h
  split_ifs at h
  split at h
  · cases h
  · exact h

theorem build_eq_ok (h : build request allowedModels = .ok found) :
    ∃ cast tts output, casting request.casting allowedModels = .ok cast ∧
      TtsSettings.init request.tts.arguments = .ok tts ∧
      OutputSpec.init request.output.arguments = .ok output ∧
      JobSpec.init (.str request.sourceId) (request.chapters.map .str) cast tts output = .ok found := by
  unfold build at h
  cases hcast : casting request.casting allowedModels with
  | error e => simp [hcast, Bind.bind, Except.bind] at h
  | ok cast =>
    cases htts : TtsSettings.init request.tts.arguments with
    | error e => simp [hcast, htts, lift, Bind.bind, Except.bind] at h
    | ok tts =>
      cases houtput : OutputSpec.init request.output.arguments with
      | error e => simp [hcast, htts, houtput, lift, Bind.bind, Except.bind] at h
      | ok output =>
        simp only [hcast, htts, houtput, lift, Bind.bind, Except.bind] at h
        exact ⟨cast, tts, output, rfl, rfl, rfl, lift_ok h⟩

theorem init_ok {sourceId : String} {chapters : List String} {cast : Casting} {tts : TtsSettings}
    {output : OutputSpec} (h : JobSpec.init (.str sourceId) (chapters.map .str) cast tts output = .ok found) :
    found.sourceId = strip sourceId ∧ found.chapters = chapters.map strip ∧ found.casting = cast ∧
      found.tts = tts ∧
      found.output = output := by
  unfold JobSpec.init at h
  split at h
  · cases h
  rename_i source hsource
  split at h
  · cases h
  rename_i named hchapters
  split_ifs at h
  cases h
  exact ⟨required_strip hsource, mapM_requiredOf hchapters, rfl, rfl, rfl⟩

/-- Requests that say the same in another order ask for the same job. -/
theorem spec_eq (h : request.Reordered request') (hs : spec request allowedModels = .ok found)
    (hs' : spec request' allowedModels = .ok found') : found = found' := by
  obtain ⟨cast, tts, output, hcast, htts, houtput, hfound⟩ := build_eq_ok (build_of_spec hs)
  obtain ⟨cast', tts', output', hcast', htts', houtput', hfound'⟩ := build_eq_ok (build_of_spec hs')
  obtain ⟨hsource, hchapters, hc, ht, ho⟩ := init_ok hfound
  obtain ⟨hsource', hchapters', hc', ht', ho'⟩ := init_ok hfound'
  have hoSame : output = output' := by
    rw [h.output, houtput'] at houtput
    exact (Except.ok.inj houtput).symm
  have hcSame := casting_eq h.casting hcast hcast'
  have htSame := tts_eq h.overrides h.tts htts htts'
  obtain ⟨sourceId, chapters, casting, tts, output⟩ := found
  obtain ⟨sourceId', chapters', casting', tts', output'⟩ := found'
  simp only at hsource hchapters hc ht ho hsource' hchapters' hc' ht' ho'
  subst hc ht ho hc' ht' ho'
  rw [h.sourceId] at hsource
  rw [h.chapters] at hchapters
  simp only [hsource, hsource', hchapters, hchapters', hcSame, htSame, hoSame]

theorem spec_constructed (h : spec request allowedModels = .ok found) : Constructed found := by
  obtain ⟨cast, tts, output, hcast, htts, houtput, hfound⟩ := build_eq_ok (build_of_spec h)
  obtain ⟨-, -, hc, ht, ho⟩ := init_ok hfound
  refine ⟨?_, ⟨_, ht ▸ htts⟩, ⟨_, ho ▸ houtput⟩⟩
  rw [hc]
  unfold casting at hcast
  split at hcast
  · split at hcast
    · cases hcast
    · exact .inl ⟨_, lift_ok hcast⟩
  · split_ifs at hcast
    split at hcast
    · cases hcast
    · obtain ⟨built, hbuilt, hcast⟩ := bind_eq_ok.mp (lift_ok hcast)
      cases hcast
      exact .inr ⟨_, _, _, _, _, built, hbuilt, rfl⟩

end

open Local in
/-- Accepted requests that differ in order and in space are stored as one text, and under one key they get
one job, whatever was called in between. Under that key another specification is a conflict. -/
theorem reordered_replayed {request request' : JobRequest} {allowedModels : List String}
    {found found' : JobSpec} (h : request.Reordered request') (hs : spec request allowedModels = .ok found)
    (hs' : spec request' allowedModels = .ok found') :
    found = found' ∧
      (∀ dumps : Json → String, encodeSpec dumps found = encodeSpec dumps found') ∧
      (∀ (repr dumps : Json → String) (loads : String → Except Error Json),
        loads (dumps (specRow found)) = .ok (specRow found) →
          decodeSpec repr loads (encodeSpec dumps found) = .ok found') ∧
      ∀ (d : LocalDb) (key : String) (jobId dispatchId : Uuid) (job : Job),
        (submit found (some key) jobId dispatchId d).result = .ok job →
        ∀ (calls : List Call) (jobId' dispatchId' : Uuid), jobId'.text ≠ job.id →
          let d' := after (submit found (some key) jobId dispatchId d).db calls
          ∃ first, d'.jobs.get? job.id = some first ∧ first.spec = found ∧
            submit found' (some key) jobId' dispatchId' d' = ⟨.ok first, d', none⟩ ∧
            ∀ other, other ≠ found →
              submit other (some key) jobId' dispatchId' d' =
                ⟨.error (.value "idempotency_conflict"), d', none⟩ := by
  have hsame := spec_eq h hs hs'
  subst hsame
  have hdecoded : ∀ (repr dumps : Json → String) (loads : String → Except Error Json),
      loads (dumps (specRow found)) = .ok (specRow found) →
        decodeSpec repr loads (encodeSpec dumps found) = .ok found :=
    fun repr dumps loads hjson => decodeSpec_stored repr dumps (spec_constructed hs) hjson
  refine ⟨rfl, fun _ => rfl, hdecoded, ?_⟩
  intro d key jobId dispatchId job hjob calls jobId' dispatchId' hfresh d'
  have hkeyed : Keyed d' key job.id found := (submit_keyed hjob).retained (after_retained _ calls)
  obtain ⟨first, hfirst, hspec, hreplayed⟩ := submit_taken hkeyed found dispatchId' hfresh
  rw [if_pos rfl] at hreplayed
  refine ⟨first, hfirst, hspec, hreplayed, ?_⟩
  intro other hother
  obtain ⟨other', -, -, hconflict⟩ := submit_taken hkeyed other dispatchId' hfresh
  rw [if_neg hother] at hconflict
  exact hconflict

def sampleRequest : JobRequest where
  sourceId := "book"
  chapters := ["c1", "c2"]
  casting :=
    { narratorVoiceId := some "narrator", cast := [("Ann", "v1"), ("Ben", "v2")], modelId := some "model" }
  tts := { chapterTitleOverrides := [("c1", none), ("c2", some "Two")] }

/-- The sample with its entries in another order and spaces around its names. -/
def sampleReordered : JobRequest where
  sourceId := " book"
  chapters := ["c1 ", "c2"]
  casting :=
    { narratorVoiceId := some " narrator ", cast := [("Ben ", "v2"), ("Ann", " v1")], method := "gendered ",
      modelId := some "model" }
  tts := { chapterTitleOverrides := [("c2", some "Two"), ("c1", none)] }

theorem sampleReordered_reordered : sampleRequest.Reordered sampleReordered where
  sourceId := by decide
  chapters := by decide
  casting := ⟨by decide, by decide, by decide, by decide, by decide, by decide⟩
  overrides := by decide
  tts := rfl
  output := rfl

def sampleUuid : Local.Uuid := ⟨"0", by decide⟩

def otherUuid : Local.Uuid := ⟨"1", by decide⟩

open Local in
theorem reordered_replayed_sample : ∃ found found',
    spec sampleRequest ["model"] = .ok found ∧ spec sampleReordered ["model"] = .ok found' ∧ found = found' ∧
      ∃ first d', d' = after (submit found (some "key") sampleUuid sampleUuid {}).db
        [.requestCancellation "0"] ∧
        submit found' (some "key") otherUuid otherUuid d' = ⟨.ok first, d', none⟩ := by
  have haccepted : ∀ result : Except Failure JobSpec, result.toOption.isSome = true →
      ∃ found, result = .ok found := by
    intro result hresult
    cases result with
    | error e => cases hresult
    | ok found => exact ⟨found, rfl⟩
  obtain ⟨found, hfound⟩ := haccepted (spec sampleRequest ["model"]) (by decide +kernel)
  obtain ⟨found', hfound'⟩ := haccepted (spec sampleReordered ["model"]) (by decide +kernel)
  obtain ⟨hsame, -, -, hreplayed⟩ := reordered_replayed sampleReordered_reordered hfound hfound'
  obtain ⟨first, -, -, hfirst, -⟩ :=
    hreplayed {} "key" sampleUuid sampleUuid ⟨"0", found, .queued, 0, .queued, by decide⟩
    rfl [.requestCancellation "0"] otherUuid otherUuid (show "1" ≠ "0" by decide)
  exact ⟨found, found', hfound, hfound', hsame, first, _, rfl, hfirst⟩

end KenkuiServer.Api
