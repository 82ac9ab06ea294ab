import AnyPlayerSync.Facts.Model
import AnyPlayerSync.Sources.Http

/-!
# Verification of a fact

`dj_fact_sources.rs`: the canonical URL of a source identity, what the three kinds of sources must
say of a claim, and `verify`. A request is a parameter: for each URL, the JSON that `fetch` makes of
the response, or its error.

Claims and evidence are compared as they are; the names of songs, artists and pages are compared
under `key`.
-/

set_option autoImplicit false

namespace AnyPlayerSync.Facts.FactSources

open AnyPlayerSync.Foundation
open AnyPlayerSync.Foundation.Text
open AnyPlayerSync.Sources (byteLen hexDigit percentEncode)
open AnyPlayerSync.Sync (ApiError)

/-- Every complaint about a contribution is a 400. -/
def invalid (message : String) : ApiError := ApiError.badRequest message

/-! ## Identities -/

/-- `u8::is_ascii_digit`. -/
def isAsciiDigit (b : UInt8) : Bool := '0'.toUInt8 ≤ b && b ≤ '9'.toUInt8

/-- `u8::is_ascii_alphanumeric`. -/
def isAsciiAlphanumeric (b : UInt8) : Bool :=
  isAsciiDigit b || ('a'.toUInt8 ≤ b && b ≤ 'z'.toUInt8) || ('A'.toUInt8 ≤ b && b ≤ 'Z'.toUInt8)

/-- `id.bytes()`. -/
def bytes (id : Str) : List UInt8 := id.flatMap String.utf8EncodeChar

/-- The page of a Wikipedia title, with its spaces as underscores. -/
def wikiTitleUrl (id : Str) : Str :=
  (bytes (id.map fun c => if c = ' ' then '_' else c)).flatMap fun b =>
    if isAsciiAlphanumeric b || "_-.*".toList.any (fun c => c.toUInt8 == b) then
      [Char.ofNat b.toNat]
    else ['%', hexDigit (b.toNat / 16), hexDigit (b.toNat % 16)]

/-- Wikipedia language edition for each accepted `wikipedia*` source name. -/
def wikipediaLang (source : Str) : Option Str :=
  if source = "wikipedia".toList then some "en".toList
  else if source = "wikipedia-ja".toList then some "ja".toList
  else if source = "wikipedia-ko".toList then some "ko".toList
  else none

/-- `Q` and one to fifteen digits. -/
def validQid (id : Str) : Bool :=
  2 ≤ byteLen id && byteLen id ≤ 16 && id.head? == some 'Q' &&
    id.tail.all fun c => '0' ≤ c && c ≤ '9'

/-- The ids of MusicBrainz are written in lower case. -/
def validUuid (id : Str) : Bool :=
  byteLen id == 36 && (bytes id).zipIdx.all fun (b, i) =>
    if i ∈ [8, 13, 18, 23] then b == '-'.toUInt8
    else isAsciiDigit b || ('a'.toUInt8 ≤ b && b ≤ 'f'.toUInt8)

section Canonical

variable (U : UnicodeTables)

/-- A title that may stand in a Wikipedia URL. -/
def validTitle (id : Str) : Bool :=
  id ≠ [] && byteLen id ≤ 160 &&
    id.all fun c => U.isAlphanumeric c || " _-(),.'!?&:・".toList.contains c

/-- The address that a fact shows for its source, when the id has the form of the source's ids. -/
def canonical (source id : Str) : Option Str :=
  match wikipediaLang source with
  | some lang =>
      if validTitle U id then
        some ("https://".toList ++ lang ++ ".wikipedia.org/wiki/".toList ++ wikiTitleUrl id)
      else none
  | none =>
      if source = "wikidata".toList ∧ validQid id then
        some ("https://www.wikidata.org/wiki/".toList ++ id)
      else if source = "musicbrainz".toList ∧ validUuid id then
        some ("https://musicbrainz.org/recording/".toList ++ id)
      else none

end Canonical

/-! ## What a source says -/

section Checks

variable (U : UnicodeTables)

/-- Texts are compared in lower case, with single blanks and without underscores. -/
def key (value : Str) : Str :=
  Keys.foldDashes (toLowercase U (join " ".toList
    (splitWhitespace (value.map fun c => if c = '_' then ' ' else c))))

/-- A string under the name that is, under `key`, the text. -/
def names (entity : Json) (field : String) (text : Str) : Bool :=
  ((entity.get field.toList).bind Json.asStr).any fun name => key U name == key U text

/-- The evidence is the claim, which is one of the supported sentences. -/
def exactStructured (evidence claim : Str) (supported : List Str) : Except ApiError Unit :=
  if evidence = claim ∧ claim ∈ supported then .ok ()
  else .error (invalid "claim is not supported by source values")

/-- The tests of `check_wikipedia` on the one page of a response. -/
def wikipediaSupports (entry : Json) (title extract id song artist evidence claim : Str) : Bool :=
  let titleKey := key U title
  let songKey := key U song
  let titleMatchesSong := titleKey == songKey ||
    (decide (songKey ++ " (".toList <+: titleKey) && titleKey.getLast? == some ')')
  !((entry.get "missing".toList).isSome || titleKey != key U id || !titleMatchesSong ||
    evidence == [] || claim == [] || !contains (key U evidence) (key U song) ||
    !contains (key U evidence) (key U artist) || !contains extract evidence || evidence != claim)

/-- The one page found has the id for its title, which is the song's, and has the evidence in it;
the evidence names the song and the artist and is the claim. -/
def checkWikipedia (page : Json) (id song artist evidence claim : Str) : Except ApiError Unit :=
  if (page.pointer (["query", "redirects"].map String.toList)).isSome then
    .error (invalid "source page redirects")
  else
    match (page.pointer (["query", "pages"].map String.toList)).bind Json.asObject with
    | none => .error (invalid "source page missing")
    | some [(_, entry)] =>
        match (entry.get "title".toList).bind Json.asStr with
        | none => .error (invalid "source title missing")
        | some title =>
            match (entry.get "extract".toList).bind Json.asStr with
            | none => .error (invalid "source passage missing")
            | some extract =>
                if wikipediaSupports U entry title extract id song artist evidence claim then
                  .ok ()
                else .error (invalid "source does not support song, artist and claim")
    | some _ => .error (invalid "ambiguous source page")

/-- A credit names the artist: its name, its sort name or one of its aliases. -/
def credits (credit : Json) (artist : Str) : Bool :=
  (credit.get "artist".toList).any fun entity =>
    (["name", "sort-name"].any fun field => names U entity field artist) ||
      ((entity.get "aliases".toList).bind Json.asArray).any fun aliases =>
        aliases.any fun alternative => names U alternative "name" artist

/-- The sentences that a recording supports. -/
def recordingFacts (page : Json) (song artist : Str) : List Str :=
  (song ++ " is credited to ".toList ++ artist ++ ".".toList) ::
    match (page.get "first-release-date".toList).bind Json.asStr with
    | some date =>
        if date ≠ [] then [song ++ " was released on ".toList ++ date ++ ".".toList] else []
    | none => []

/-- The recording has the id, the title and the artist, and the claim is one of its sentences. -/
def checkMusicbrainz (page : Json) (id song artist evidence claim : Str) : Except ApiError Unit :=
  if (page.get "id".toList).bind Json.asStr ≠ some id || !names U page "title" song then
    .error (invalid "recording identity does not match")
  else
    match (page.get "artist-credit".toList).bind Json.asArray with
    | none => .error (invalid "artist credit missing")
    | some credited =>
        if !credited.any fun credit => credits U credit artist then
          .error (invalid "artist credit does not match")
        else exactStructured evidence claim (recordingFacts page song artist)

/-- The English label of an entity is, under `key`, the text. -/
def labelled (entity : Json) (text : Str) : Bool :=
  ((entity.pointer (["labels", "en", "value"].map String.toList)).bind Json.asStr).any fun label =>
    key U label == key U text

/-- The performers of a song entity. -/
def performers (entity : Json) : Option (List Json) :=
  (entity.pointer (["claims", "P175"].map String.toList)).bind Json.asArray

/-- The entities that the performer statements name, in order. -/
def performerIds (values : List Json) : List Str :=
  values.filterMap fun v =>
    (v.pointer (["mainsnak", "datavalue", "value", "id"].map String.toList)).bind Json.asStr

/-- The linked artist has the performer's id, and the artist for its label. -/
def performs (linkedArtist : Json) (artist performerId : Str) : Bool :=
  validQid performerId && (linkedArtist.pointer ["entities".toList, performerId]).any fun entity =>
    (entity.get "id".toList).bind Json.asStr == some performerId && labelled U entity artist

/-- The entity has the id and the song for its label, one of its performers has the artist for its
label, and the claim is the sentence that says so. -/
def checkWikidata (page linkedArtist : Json) (id song artist evidence claim : Str) :
    Except ApiError Unit :=
  match page.pointer ["entities".toList, id] with
  | none => .error (invalid "song entity missing")
  | some entity =>
      if (entity.get "id".toList).bind Json.asStr ≠ some id || !labelled U entity song then
        .error (invalid "song entity identity does not match")
      else
        match performers entity with
        | none => .error (invalid "performer missing")
        | some values =>
            if !(performerIds values).any fun performerId =>
                performs U linkedArtist artist performerId then
              .error (invalid "performer identity does not match")
            else exactStructured evidence claim
              [song ++ " is performed by ".toList ++ artist ++ ".".toList]

end Checks

/-! ## `verify` -/

section Verify

variable (U : UnicodeTables) (fetch : Str → Except ApiError Json)

/-- The request for the plain text of an article. -/
def extractUrl (lang sourceId : Str) : Str :=
  "https://".toList ++ lang ++ (".wikipedia.org/w/api.php?action=query&prop=extracts" ++
    "&explaintext=1&format=json&titles=").toList ++ percentEncode sourceId

/-- The request for a recording with its artists. -/
def recordingUrl (sourceId : Str) : Str :=
  "https://musicbrainz.org/ws/2/recording/".toList ++ sourceId ++
    "?inc=artists+aliases&fmt=json".toList

/-- The request for the data of an entity. -/
def entityUrl (sourceId : Str) : Str :=
  "https://www.wikidata.org/w/api.php?action=wbgetentities&ids=".toList ++ sourceId ++
    "&props=labels%7Cclaims&languages=en&format=json".toList

/-- The request for the labels of the performers. -/
def labelsUrl (ids : List Str) : Str :=
  "https://www.wikidata.org/w/api.php?action=wbgetentities&ids=".toList ++
    join "%7C".toList ids ++ "&props=labels&languages=en&format=json".toList

/-- The requests for a Wikidata entity and for the performers it links. -/
def verifyWikidata (sourceId song artist evidence claim : Str) : Except ApiError Unit := do
  let page ← fetch (entityUrl sourceId)
  match (page.pointer ["entities".toList, sourceId]).bind performers with
  | none => .error (invalid "performer missing")
  | some values =>
      let ids := ((performerIds values).filter validQid).take 20
      if ids = [] then .error (invalid "performer missing")
      else
        let linked ← fetch (labelsUrl ids)
        checkWikidata U page linked sourceId song artist evidence claim

/-- The requests and checks of `verify` for a source that has a canonical URL. -/
def checkSource (source sourceId song artist evidence claim : Str) : Except ApiError Unit :=
  match wikipediaLang source with
  | some lang => do
      let page ← fetch (extractUrl lang sourceId)
      checkWikipedia U page sourceId song artist evidence claim
  | none =>
      if source = "musicbrainz".toList then do
        let page ← fetch (recordingUrl sourceId)
        checkMusicbrainz U page sourceId song artist evidence claim
      -- no other source has a canonical URL
      else verifyWikidata U fetch sourceId song artist evidence claim

/-- What the contribution is checked against is fetched, and the answer is its canonical URL. -/
def verify (source sourceId song artist evidence claim : Str) : Except ApiError Str :=
  match canonical U source sourceId with
  | none => .error (invalid "unsupported source identity")
  | some url => do
      checkSource U fetch source sourceId song artist evidence claim
      return url

end Verify

/-! ## The sources that are accepted -/

/-- The sources that `verify` knows. -/
def acceptedSources : List Str :=
  ["wikipedia", "wikipedia-ja", "wikipedia-ko", "wikidata", "musicbrainz"].map String.toList

section Accepted

variable {U : UnicodeTables} {source id url : Str}

theorem wikipediaLang_mem {lang : Str} (h : wikipediaLang source = some lang) :
    source ∈ acceptedSources := by
  rw [wikipediaLang] at h
  split_ifs at h with hen hja hko
  · rw [hen]
    decide
  · rw [hja]
    decide
  · rw [hko]
    decide

/-- Only the five sources have canonical URLs. -/
theorem canonical_mem (h : canonical U source id = some url) : source ∈ acceptedSources := by
  rw [canonical] at h
  cases hlang : wikipediaLang source with
  | some lang => exact wikipediaLang_mem hlang
  | none =>
      rw [hlang] at h
      dsimp only at h
      split_ifs at h with hwikidata hmusicbrainz
      · rw [hwikidata.1]
        decide
      · rw [hmusicbrainz.1]
        decide

theorem exists_of_bind_eq_ok {ε α β : Type} {x : Except ε α} {f : α → Except ε β} {b : β}
    (h : x >>= f = .ok b) : ∃ a, x = .ok a ∧ f a = .ok b := by
  cases x with
  | error e => cases h
  | ok a => exact ⟨a, rfl, h⟩

/-- What is verified is answered with the canonical URL. -/
theorem canonical_of_verify {fetch : Str → Except ApiError Json}
    {song artist evidence claim : Str}
    (h : verify U fetch source id song artist evidence claim = .ok url) :
    canonical U source id = some url := by
  rw [verify] at h
  cases hurl : canonical U source id with
  | none =>
      rw [hurl] at h
      cases h
  | some found =>
      rw [hurl] at h
      obtain ⟨_, -, hreturned⟩ := exists_of_bind_eq_ok h
      cases hreturned
      rfl

end Accepted

end AnyPlayerSync.Facts.FactSources
