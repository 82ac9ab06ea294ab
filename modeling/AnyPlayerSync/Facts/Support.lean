import AnyPlayerSync.Facts.Contributions
import AnyPlayerSync.Keys.Cuts

/-!
# What supports a claim

The three checks read a response of a source; what a response says when it supports a contribution
is written down here as a relation of its own (`Response.States`), and a check that accepts has
established it (`states_of_check`).

A claim is about a song and an artist when their keys are not empty. `bounded` refuses white space,
but `key` erases underscores too, so a text of underscores and spaces passes `bounded` and has the
empty key: exactly such texts lead to facts that no source supports (`no_unsupported_iff`).
-/

set_option autoImplicit false

namespace AnyPlayerSync.Facts

open AnyPlayerSync.Foundation
open AnyPlayerSync.Foundation.Text
open AnyPlayerSync.Facts.FactSources
open AnyPlayerSync.Sync (ApiError)

/-! ## Empty keys -/

/-- A character that `key` keeps. -/
def Visible (value : Str) : Prop := ∃ c ∈ value, isWhitespace c = false ∧ c ≠ '_'

section Keys

variable {U : UnicodeTables}

theorem isWhitespace_space : isWhitespace ' ' = true := by decide

theorem isWhitespace_spaced (c : Char) :
    isWhitespace (if c = '_' then ' ' else c) = false ↔ isWhitespace c = false ∧ c ≠ '_' := by
  split_ifs with h
  · simp [h, isWhitespace_space]
  · simp [h]

theorem key_eq_nil_iff (value : Str) : key U value = [] ↔ ¬ Visible value := by
  have hkey : key U value = Keys.matchKey U (value.map fun c => if c = '_' then ' ' else c) := rfl
  rw [hkey, Keys.matchKey_eq_nil_iff]
  constructor
  · rintro hblank ⟨c, hc, hkept⟩
    have hspace := hblank _ (List.mem_map_of_mem hc)
    -- `c` survives the replacement of underscores, so the key is not blank
    rw [(isWhitespace_spaced c).2 hkept] at hspace
    cases hspace
  · intro hvisible d hd
    obtain ⟨c, hc, rfl⟩ := List.mem_map.1 hd
    by_contra hsolid
    exact hvisible ⟨c, hc, (isWhitespace_spaced c).1 (Bool.not_eq_true _ ▸ hsolid)⟩

theorem key_ne_nil_iff (value : Str) : key U value ≠ [] ↔ Visible value := by
  rw [Ne, key_eq_nil_iff, not_not]

end Keys

/-! ## What a response says -/

/-- A response of one of the three kinds of sources. -/
inductive Response where
  | article (page : Json)
  | recording (page : Json)
  | entity (page linkedArtist : Json)

section Responses

variable (U : UnicodeTables)

/-- The string member of an object. -/
def stringAt (entity : Json) (field : String) : Option Str :=
  (entity.get field.toList).bind Json.asStr

/-- The one page of a response is there, was not redirected to and has the title of the id; its
extract has the claim, and the claim the song and the artist. -/
structure ArticleStates (page : Json) (input : Contribution) : Prop where
  direct : page.pointer (["query", "redirects"].map String.toList) = none
  passage : ∃ name entry title extract,
    (page.pointer (["query", "pages"].map String.toList)).bind Json.asObject =
      some [(name, entry)] ∧
    entry.get "missing".toList = none ∧
    stringAt entry "title" = some title ∧ key U title = key U input.sourceId ∧
    stringAt entry "extract" = some extract ∧ input.claim <:+: extract
  song : key U input.song <:+: key U input.claim
  artist : key U input.artist <:+: key U input.claim

/-- A name, the sort name or an alternative name of an artist. -/
inductive NameOf (entity : Json) (name : Str) : Prop
  | name (h : stringAt entity "name" = some name)
  | sortName (h : stringAt entity "sort-name" = some name)
  | alternative {aliases : List Json} {other : Json}
      (h : (entity.get "aliases".toList).bind Json.asArray = some aliases) (mem : other ∈ aliases)
      (text : stringAt other "name" = some name)

/-- The record has the id and the title, and credits the artist; the claim is the sentence of the
credit or the one of the date. -/
structure RecordingStates (page : Json) (input : Contribution) : Prop where
  id : stringAt page "id" = some input.sourceId
  title : ∃ title, stringAt page "title" = some title ∧ key U title = key U input.song
  credit : ∃ credited credit entity name,
    (page.get "artist-credit".toList).bind Json.asArray = some credited ∧ credit ∈ credited ∧
    credit.get "artist".toList = some entity ∧ NameOf entity name ∧
    key U name = key U input.artist
  sentence : input.claim = input.song ++ " is credited to ".toList ++ input.artist ++ ".".toList ∨
    ∃ date, date ≠ [] ∧ stringAt page "first-release-date" = some date ∧
      input.claim = input.song ++ " was released on ".toList ++ date ++ ".".toList

/-- An English label of an entity. -/
def englishLabel (entity : Json) : Option Str :=
  (entity.pointer (["labels", "en", "value"].map String.toList)).bind Json.asStr

/-- The entity has the id and the label of the song, and a performer it links has the label of the
artist; the claim is the sentence of the performer. -/
structure EntityStates (page linkedArtist : Json) (input : Contribution) : Prop where
  song : ∃ entity label values performerId performer artistLabel,
    page.pointer ["entities".toList, input.sourceId] = some entity ∧
    stringAt entity "id" = some input.sourceId ∧
    englishLabel entity = some label ∧ key U label = key U input.song ∧
    performers entity = some values ∧ performerId ∈ performerIds values ∧
    linkedArtist.pointer ["entities".toList, performerId] = some performer ∧
    stringAt performer "id" = some performerId ∧
    englishLabel performer = some artistLabel ∧ key U artistLabel = key U input.artist
  sentence : input.claim = input.song ++ " is performed by ".toList ++ input.artist ++ ".".toList

def Response.States (input : Contribution) : Response → Prop
  | .article page => ArticleStates U page input
  | .recording page => RecordingStates U page input
  | .entity page linkedArtist => EntityStates U page linkedArtist input

/-- The check that reads the response. -/
def Response.check (input : Contribution) : Response → Except ApiError Unit
  | .article page =>
      checkWikipedia U page input.sourceId input.song input.artist input.evidence input.claim
  | .recording page =>
      checkMusicbrainz U page input.sourceId input.song input.artist input.evidence input.claim
  | .entity page linkedArtist =>
      checkWikidata U page linkedArtist input.sourceId input.song input.artist input.evidence
        input.claim

/-- The response supports the contribution: it says what the claim says, of a song and an artist
that have keys. -/
structure Supported (input : Contribution) (response : Response) : Prop where
  stated : response.States U input
  song : key U input.song ≠ []
  artist : key U input.artist ≠ []
  evidence : input.evidence = input.claim

end Responses

/-! ## The checks -/

section Checks

variable {U : UnicodeTables} {input : Contribution}

theorem wikipediaSupports_iff {entry : Json} {title extract id song artist evidence claim : Str} :
    wikipediaSupports U entry title extract id song artist evidence claim = true ↔
      entry.get "missing".toList = none ∧ key U title = key U id ∧
      (key U title = key U song ∨
        key U song ++ " (".toList <+: key U title ∧ (key U title).getLast? = some ')') ∧
      evidence ≠ [] ∧ key U song <:+: key U evidence ∧ key U artist <:+: key U evidence ∧
      evidence <:+: extract ∧ evidence = claim := by
  rw [wikipediaSupports]
  simp only [Bool.not_eq_true', Bool.or_eq_false_iff, Option.isSome_eq_false_iff,
    Option.isNone_iff_eq_none, Bool.not_eq_false', bne_eq_false_iff_eq, beq_eq_false_iff_ne,
    Bool.or_eq_true, Bool.and_eq_true, decide_eq_true_eq, beq_iff_eq, contains]
  constructor
  -- the code tests the claim for emptiness too, which follows from the evidence
  · rintro ⟨⟨⟨⟨⟨⟨⟨⟨hthere, htitle⟩, hsong⟩, hevidence⟩, -⟩, hs⟩, ha⟩, hextract⟩, hsame⟩
    exact ⟨hthere, htitle, hsong, hevidence, hs, ha, hextract, hsame⟩
  · rintro ⟨hthere, htitle, hsong, hevidence, hs, ha, hextract, hsame⟩
    exact ⟨⟨⟨⟨⟨⟨⟨⟨hthere, htitle⟩, hsong⟩, hevidence⟩, hsame ▸ hevidence⟩, hs⟩, ha⟩, hextract⟩,
      hsame⟩

theorem articleStates_of_check {page : Json}
    (h : (Response.article page).check U input = .ok ()) :
    ArticleStates U page input ∧ input.evidence = input.claim := by
  rw [Response.check, checkWikipedia] at h
  split at h
  · cases h
  · rename_i hredirects
    have hdirect := Option.not_isSome_iff_eq_none.1 hredirects
    split at h
    · cases h
    · rename_i name entry hpage
      split at h
      · cases h
      · rename_i title htitle
        split at h
        · cases h
        · rename_i extract hextract
          split at h
          · rename_i hsupports
            obtain ⟨hthere, hid, -, -, hsong, hartist, hin, hsame⟩ :=
              wikipediaSupports_iff.1 hsupports
            rw [hsame] at hsong hartist hin
            exact ⟨⟨hdirect, ⟨name, entry, title, extract, hpage, hthere, htitle, hid, hextract,
              hin⟩, hsong, hartist⟩, hsame⟩
          · cases h
    · cases h

theorem names_iff {entity : Json} {field : String} {text : Str} :
    names U entity field text = true ↔
      ∃ name, stringAt entity field = some name ∧ key U name = key U text := by
  rw [names, ← stringAt, Option.any_eq_true]
  simp only [beq_iff_eq]

theorem credits_iff {credit : Json} {artist : Str} :
    credits U credit artist = true ↔
      ∃ entity name, credit.get "artist".toList = some entity ∧ NameOf entity name ∧
        key U name = key U artist := by
  rw [credits, Option.any_eq_true]
  constructor
  · rintro ⟨entity, hentity, h⟩
    rw [Bool.or_eq_true] at h
    rcases h with h | h
    · rw [List.any_cons, List.any_cons, List.any_nil, Bool.or_false, Bool.or_eq_true, names_iff,
        names_iff] at h
      rcases h with ⟨name, hname, hkey⟩ | ⟨name, hname, hkey⟩
      · exact ⟨entity, name, hentity, .name hname, hkey⟩
      · exact ⟨entity, name, hentity, .sortName hname, hkey⟩
    · obtain ⟨aliases, haliases, h⟩ := (Option.any_eq_true _ _).1 h
      obtain ⟨other, hother, h⟩ := List.any_eq_true.1 h
      obtain ⟨name, hname, hkey⟩ := names_iff.1 h
      exact ⟨entity, name, hentity, .alternative haliases hother hname, hkey⟩
  · rintro ⟨entity, name, hentity, hname, hkey⟩
    refine ⟨entity, hentity, ?_⟩
    rw [Bool.or_eq_true]
    cases hname with
    | name h =>
        refine Or.inl (List.any_eq_true.2 ⟨"name", by simp, names_iff.2 ⟨name, h, hkey⟩⟩)
    | sortName h =>
        refine Or.inl (List.any_eq_true.2 ⟨"sort-name", by simp, names_iff.2 ⟨name, h, hkey⟩⟩)
    | alternative haliases hother h =>
        exact Or.inr ((Option.any_eq_true _ _).2 ⟨_, haliases,
          List.any_eq_true.2 ⟨_, hother, names_iff.2 ⟨name, h, hkey⟩⟩⟩)

theorem exactStructured_eq_ok_iff {evidence claim : Str} {supported : List Str} :
    exactStructured evidence claim supported = .ok () ↔ evidence = claim ∧ claim ∈ supported := by
  rw [exactStructured]
  split_ifs with h
  · exact iff_of_true rfl h
  · exact iff_of_false (fun hok => nomatch hok) h

theorem mem_recordingFacts {page : Json} {song artist claim : Str} :
    claim ∈ recordingFacts page song artist ↔
      claim = song ++ " is credited to ".toList ++ artist ++ ".".toList ∨
      ∃ date, date ≠ [] ∧ stringAt page "first-release-date" = some date ∧
        claim = song ++ " was released on ".toList ++ date ++ ".".toList := by
  rw [recordingFacts, List.mem_cons]
  apply or_congr_right
  rw [← stringAt]
  cases hdate : stringAt page "first-release-date" with
  | none => simp
  | some date =>
      dsimp only
      split_ifs with hempty
      · rw [List.mem_singleton]
        constructor
        · exact fun h => ⟨date, hempty, rfl, h⟩
        · rintro ⟨_, -, hsame, h⟩
          cases hsame
          exact h
      · constructor
        · exact fun h => absurd h List.not_mem_nil
        · rintro ⟨_, hne, hsame, -⟩
          cases hsame
          exact absurd hne hempty

/-- The check of a recording tests exactly what is stated. -/
theorem check_recording_iff {page : Json} :
    (Response.recording page).check U input = .ok () ↔
      RecordingStates U page input ∧ input.evidence = input.claim := by
  rw [Response.check, checkMusicbrainz]
  constructor
  · intro h
    split at h
    · cases h
    · rename_i hidentity
      rw [Bool.or_eq_true, not_or, decide_eq_true_eq, not_not, Bool.not_eq_true',
        Bool.not_eq_false] at hidentity
      obtain ⟨hid, htitle⟩ := hidentity
      split at h
      · cases h
      · rename_i credited hcredited
        split at h
        · cases h
        · rename_i hcredits
          rw [Bool.not_eq_true', Bool.not_eq_false, List.any_eq_true] at hcredits
          obtain ⟨credit, hcredit, hcredits⟩ := hcredits
          obtain ⟨entity, name, hentity, hname, hkey⟩ := credits_iff.1 hcredits
          obtain ⟨hsame, hsentence⟩ := exactStructured_eq_ok_iff.1 h
          exact ⟨⟨hid, names_iff.1 htitle, ⟨credited, credit, entity, name, hcredited, hcredit,
            hentity, hname, hkey⟩, mem_recordingFacts.1 hsentence⟩, hsame⟩
  · rintro ⟨⟨hid, htitle, ⟨credited, credit, entity, name, hcredited, hcredit, hentity, hname,
      hkey⟩, hsentence⟩, hsame⟩
    have hcredits : (credited.any fun credit => credits U credit input.artist) = true :=
      List.any_eq_true.2 ⟨credit, hcredit, credits_iff.2 ⟨entity, name, hentity, hname, hkey⟩⟩
    rw [stringAt] at hid
    rw [hid, names_iff.2 htitle, hcredited]
    dsimp only
    rw [hcredits, if_neg (by simp), if_neg (by simp)]
    exact exactStructured_eq_ok_iff.2 ⟨hsame, mem_recordingFacts.2 hsentence⟩

theorem labelled_iff {entity : Json} {text : Str} :
    labelled U entity text = true ↔
      ∃ label, englishLabel entity = some label ∧ key U label = key U text := by
  rw [labelled, ← englishLabel, Option.any_eq_true]
  simp only [beq_iff_eq]

theorem performs_iff {linkedArtist : Json} {artist performerId : Str} :
    performs U linkedArtist artist performerId = true ↔
      validQid performerId = true ∧ ∃ performer label,
        linkedArtist.pointer ["entities".toList, performerId] = some performer ∧
        stringAt performer "id" = some performerId ∧ englishLabel performer = some label ∧
        key U label = key U artist := by
  rw [performs, Bool.and_eq_true, Option.any_eq_true]
  apply and_congr_right
  intro _
  constructor
  · rintro ⟨performer, hperformer, h⟩
    rw [Bool.and_eq_true, beq_iff_eq, labelled_iff] at h
    obtain ⟨hid, label, hlabel, hkey⟩ := h
    exact ⟨performer, label, hperformer, hid, hlabel, hkey⟩
  · rintro ⟨performer, label, hperformer, hid, hlabel, hkey⟩
    refine ⟨performer, hperformer, ?_⟩
    rw [Bool.and_eq_true, beq_iff_eq, labelled_iff]
    exact ⟨hid, label, hlabel, hkey⟩

theorem entityStates_of_check {page linkedArtist : Json}
    (h : (Response.entity page linkedArtist).check U input = .ok ()) :
    EntityStates U page linkedArtist input ∧ input.evidence = input.claim := by
  rw [Response.check, checkWikidata] at h
  split at h
  · cases h
  · rename_i entity hentity
    split at h
    · cases h
    · rename_i hidentity
      rw [Bool.or_eq_true, not_or, decide_eq_true_eq, not_not, Bool.not_eq_true',
        Bool.not_eq_false, labelled_iff] at hidentity
      obtain ⟨hid, label, hlabel, hkey⟩ := hidentity
      split at h
      · cases h
      · rename_i values hvalues
        split at h
        · cases h
        · rename_i hperforms
          rw [Bool.not_eq_true', Bool.not_eq_false, List.any_eq_true] at hperforms
          obtain ⟨performerId, hmem, hperforms⟩ := hperforms
          obtain ⟨-, performer, artistLabel, hperformer, hperformerId, hartistLabel, hartist⟩ :=
            performs_iff.1 hperforms
          obtain ⟨hsame, hsentence⟩ := exactStructured_eq_ok_iff.1 h
          exact ⟨⟨⟨entity, label, values, performerId, performer, artistLabel, hentity, hid, hlabel,
            hkey, hvalues, hmem, hperformer, hperformerId, hartistLabel, hartist⟩,
            List.mem_singleton.1 hsentence⟩, hsame⟩

/-- A check that accepts has read what the claim states. -/
theorem states_of_check {response : Response} (h : response.check U input = .ok ()) :
    response.States U input ∧ input.evidence = input.claim := by
  cases response with
  | article page => exact articleStates_of_check h
  | recording page => exact check_recording_iff.1 h
  | entity page linkedArtist => exact entityStates_of_check h

/-- Apart from the keys, every part of the support is checked. -/
theorem supported_iff_of_check {response : Response} (h : response.check U input = .ok ()) :
    Supported U input response ↔ Visible input.song ∧ Visible input.artist := by
  obtain ⟨hstated, hevidence⟩ := states_of_check h
  rw [← key_ne_nil_iff (U := U), ← key_ne_nil_iff (U := U)]
  constructor
  · exact fun hsupported => ⟨hsupported.song, hsupported.artist⟩
  · exact fun ⟨hsong, hartist⟩ => ⟨hstated, hsong, hartist, hevidence⟩

end Checks

/-! ## What is accepted -/

section Accepted

variable {U : UnicodeTables}

/-- A verified contribution has a response that a check accepts. -/
theorem exists_response_of_verified {input : Contribution} (h : input.Verified U) :
    ∃ response : Response, response.check U input = .ok () := by
  obtain ⟨fetch, hverify⟩ := h.supported
  rw [verify, canonical_of_verify hverify] at hverify
  obtain ⟨_, hchecked, -⟩ := exists_of_bind_eq_ok hverify
  rw [checkSource] at hchecked
  -- one case for each host, in the order in which `checkSource` tests them
  split at hchecked
  · obtain ⟨page, -, hpage⟩ := exists_of_bind_eq_ok hchecked
    exact ⟨.article page, hpage⟩
  · split at hchecked
    · obtain ⟨page, -, hpage⟩ := exists_of_bind_eq_ok hchecked
      exact ⟨.recording page, hpage⟩
    · rw [verifyWikidata] at hchecked
      obtain ⟨page, -, hpage⟩ := exists_of_bind_eq_ok hchecked
      split at hpage
      · cases hpage
      · dsimp only at hpage
        split at hpage
        · cases hpage
        · obtain ⟨linked, -, hlinked⟩ := exists_of_bind_eq_ok hpage
          exact ⟨.entity page linked, hlinked⟩

/-- What is verified of a song and an artist that can be seen is supported by a response. -/
theorem supported_of_verified {input : Contribution} (h : input.Verified U)
    (hsong : Visible input.song) (hartist : Visible input.artist) :
    ∃ response, Supported U input response := by
  obtain ⟨response, hchecked⟩ := exists_response_of_verified h
  exact ⟨response, (supported_iff_of_check hchecked).2 ⟨hsong, hartist⟩⟩

/-- A recording of the song that credits the artist. -/
def creditedRecording (song artist : Str) : Json :=
  .obj [
    ("artist-credit".toList, .arr [.obj [("artist".toList, .obj [("name".toList, .str artist)])]]),
    ("id".toList, .str "b1a9c0e9-d987-4042-ae91-78d6a3267d69".toList), ("title".toList, .str song)]

/-- The sentence of the credit. -/
def creditedClaim (song artist : Str) : Str :=
  song ++ " is credited to ".toList ++ artist ++ ".".toList

def creditedContribution (song artist : Str) : Contribution where
  song := song
  artist := artist
  claim := creditedClaim song artist
  source := "musicbrainz".toList
  sourceId := "b1a9c0e9-d987-4042-ae91-78d6a3267d69".toList
  sourceUrl := "https://musicbrainz.org/recording/b1a9c0e9-d987-4042-ae91-78d6a3267d69".toList
  evidence := creditedClaim song artist

theorem check_creditedRecording (song artist : Str) :
    (Response.recording (creditedRecording song artist)).check U (creditedContribution song artist)
      = .ok () := by
  apply check_recording_iff.2
  refine ⟨⟨rfl, ⟨song, rfl, rfl⟩, ⟨_, _, _, artist, rfl, List.mem_singleton_self _, rfl, .name rfl,
    rfl⟩, Or.inl rfl⟩, rfl⟩

theorem byteLen_append (s t : Str) :
    Sources.byteLen (s ++ t) = Sources.byteLen s + Sources.byteLen t := by
  rw [Sources.byteLen_eq_len, Sources.byteLen_eq_len, Sources.byteLen_eq_len, len_append]

theorem bounded_iff {value : Str} {max : Nat} : bounded value max = true ↔
    ¬ Blank value ∧ Sources.byteLen value ≤ max ∧ value.any isControl = false := by
  rw [bounded, Bool.and_eq_true, Bool.and_eq_true, decide_eq_true_eq, decide_eq_true_eq, Ne,
    trim_eq_nil_iff, Bool.not_eq_true', and_assoc]

theorem bounded_append {s t : Str} {m n : Nat} (hs : bounded s m = true)
    (ht : Sources.byteLen t ≤ n) (hcontrol : t.any isControl = false) :
    bounded (s ++ t) (m + n) = true := by
  obtain ⟨hblank, hlen, hplain⟩ := bounded_iff.1 hs
  refine bounded_iff.2 ⟨fun h => hblank h.of_append_left, ?_, ?_⟩
  · rw [byteLen_append]
    omega
  · rw [List.any_append, hplain, hcontrol]
    rfl

theorem bounded_mono {value : Str} {m n : Nat} (h : bounded value m = true) (hmn : m ≤ n) :
    bounded value n = true := by
  obtain ⟨hblank, hlen, hplain⟩ := bounded_iff.1 h
  exact bounded_iff.2 ⟨hblank, hlen.trans hmn, hplain⟩

theorem fieldsBounded_creditedContribution {song artist : Str} (hsong : bounded song 200 = true)
    (hartist : bounded artist 200 = true) :
    (creditedContribution song artist).fieldsBounded = true := by
  -- 200 bytes for the song and the artist each, 17 for the words and the full stop
  have hclaim : bounded (creditedClaim song artist) 417 = true := by
    obtain ⟨-, hlen, hplain⟩ := bounded_iff.1 hartist
    have hwords := bounded_append (t := " is credited to ".toList) (n := 16) hsong (by decide)
      (by decide)
    exact bounded_append (t := ".".toList) (n := 1) (bounded_append hwords hlen hplain) (by decide)
      (by decide)
  have hevidence := bounded_mono hclaim (n := 1000) (by omega)
  have hclaim := bounded_mono hclaim (n := 500) (by omega)
  rw [Contribution.fieldsBounded]
  simp only [creditedContribution, hsong, hartist, hclaim, hevidence, Bool.true_and]
  decide

/-- **What is supported.** A contribution that a check accepts is supported by the response exactly
when its song and its artist each have a character other than white space and underscores. With any
song or artist that `bounded` lets through and that has none, a fact is accepted that no response
supports. -/
theorem no_unsupported_iff :
    (∀ (input : Contribution) (response : Response), input.fieldsBounded = true →
      response.check U input = .ok () →
        (Supported U input response ↔ Visible input.song ∧ Visible input.artist)) ∧
    ∀ song artist : Str, bounded song 200 = true → bounded artist 200 = true →
      ((∀ (input : Contribution) (response : Response), input.song = song →
          input.artist = artist → input.fieldsBounded = true → response.check U input = .ok () →
            Supported U input response) ↔
        Visible song ∧ Visible artist) := by
  refine ⟨fun input response _ h => supported_iff_of_check h, fun song artist hsong hartist => ?_⟩
  constructor
  · intro hsupported
    have hcheck := check_creditedRecording (U := U) song artist
    have hbounded := fieldsBounded_creditedContribution hsong hartist
    exact (supported_iff_of_check hcheck).1 (hsupported _ _ rfl rfl hbounded hcheck)
  · rintro hvisible input response rfl rfl - hcheck
    exact (supported_iff_of_check hcheck).2 hvisible

end Accepted

/-- The page supports its claim of the artist; an artist "_" is accepted without support. -/
theorem no_unsupported_my_song :
    Supported asciiTables
      (mySongClaim "My Song" "An Artist" "My Song was recorded by An Artist in 1998.")
      (.article mySongPage) ∧
    ¬ ∀ (input : Contribution) (response : Response), input.song = "My Song".toList →
      input.artist = "_".toList → input.fieldsBounded = true →
      response.check asciiTables input = .ok () → Supported asciiTables input response := by
  have hsong : Visible "My Song".toList := ⟨'M', by simp, by decide, by decide⟩
  have hartist : Visible "An Artist".toList := ⟨'A', by simp, by decide, by decide⟩
  constructor
  · exact (no_unsupported_iff.1 _ _ (by decide) (by decide +kernel)).2 ⟨hsong, hartist⟩
  · intro hsupported
    obtain ⟨-, c, hc, -, hvisible⟩ :=
      (no_unsupported_iff.2 "My Song".toList "_".toList (by decide) (by decide)).1 hsupported
    exact hvisible (List.mem_singleton.1 hc)

/-- A claim of the artist "_", which the page does not mention, is verified. -/
def underscoreClaim : Contribution :=
  mySongClaim "My Song" "_" "My Song was recorded by An Artist in 1998."

theorem not_no_unsupported_underscore :
    underscoreClaim.fieldsBounded = true ∧
    verify asciiTables (fun _ => .ok mySongPage) underscoreClaim.source underscoreClaim.sourceId
      underscoreClaim.song underscoreClaim.artist underscoreClaim.evidence underscoreClaim.claim =
        .ok underscoreClaim.sourceUrl ∧
    (Response.article mySongPage).check asciiTables underscoreClaim = .ok () ∧
    ¬ Supported asciiTables underscoreClaim (.article mySongPage) := by
  refine ⟨by decide, by decide +kernel, by decide +kernel, fun h => h.artist ?_⟩
  exact (key_eq_nil_iff _).2 fun ⟨c, hc, _, hvisible⟩ => hvisible (List.mem_singleton.1 hc)

end AnyPlayerSync.Facts
