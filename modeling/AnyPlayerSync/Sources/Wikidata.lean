import AnyPlayerSync.Sources.Clean
import AnyPlayerSync.Sources.Http

/-!
# Wikidata

`sources/wikidata.rs`: the first entity with the song's label that has a performer with the key of a
credited artist, its statements rendered as sentences.
-/

set_option autoImplicit false

namespace AnyPlayerSync.Sources

open AnyPlayerSync.Foundation
open AnyPlayerSync.Foundation.Text
open AnyPlayerSync.Passages

namespace Wikidata

variable (U : UnicodeTables)

/-- The properties that are told, each with its phrase. -/
def props : List (Str × Str) :=
  [("P86", "It was composed by"), ("P676", "Its lyrics were written by"),
    ("P162", "It was produced by"), ("P264", "It was released on the label"),
    ("P361", "It is part of"), ("P136", "Its genre is"), ("P1411", "It was nominated for"),
    ("P166", "It received")].map fun p => (p.1.toList, p.2.toList)

/-! ## Responses -/

/-- The entities that the statements of a property name. -/
def claimIds (entity : Json) (prop : Str) : List Str :=
  ((entity.index "claims".toList).index prop).elements.filterMap fun c =>
    (c.pointer (["mainsnak", "datavalue", "value", "id"].map String.toList)).bind Json.asStr

/-- The entity's label in the first of the three languages that has one. -/
def label (labels : Json) (id : Str) : Option Str :=
  let l := ((labels.index "entities".toList).index id).index "labels".toList
  (["en", "ja", "ko"].map String.toList).findSome? fun lang =>
    ((l.index lang).index "value".toList).asStr

/-- Up to 5 ids of hits with the song's label. -/
def hitIds (search : Json) (song : Str) : List Str :=
  (((search.index "search".toList).elements.filter fun h =>
    match (h.index "label".toList).asStr with
    | some l => decide (key U l = key U song)
    | none => false).filterMap fun h => (h.index "id".toList).asStr).take 5

/-- The first credited artist who has the key of a performer's label. -/
def performer (credit : Str) (labels : Json) (performers : List Str) : Option Str :=
  (Keys.artistParts U credit).find? fun a =>
    performers.any fun p =>
      match label labels p with
      | some l => decide (key U l = key U a)
      | none => false

/-! ## Rendering -/

/-- The date of the first publication statement. -/
def published (entity : Json) : Option Str :=
  ((((entity.index "claims".toList).index "P577".toList).elements.head?).bind fun c =>
    (c.pointer (["mainsnak", "datavalue", "value", "time"].map String.toList)).bind
      Json.asStr).map fun time => (time.dropWhile (· = '+')).takeWhile (· ≠ 'T')

/-- The sentences about an entity. -/
def render (entity labels : Json) (song artist : Str) : Str :=
  let date := match published entity with
    | some d => " It was published on ".toList ++ d ++ ".".toList
    | none => []
  let statements := props.flatMap fun (prop, phrase) =>
    let names := (claimIds entity prop).filterMap (label labels)
    if names = [] then []
    else " ".toList ++ phrase ++ " ".toList ++ join ", ".toList names ++ ".".toList
  song ++ " is performed by ".toList ++ artist ++ ".".toList ++ date ++ statements

/-! ## Requests -/

/-- The search for the song. -/
def searchUrl (song : Str) : Str :=
  "https://www.wikidata.org/w/api.php?action=wbsearchentities&search=".toList ++
    percentEncode song ++ "&language=en&type=item&limit=10&format=json".toList

/-- The request for entities with their labels and statements. -/
def entitiesUrl (ids : List Str) : Str :=
  "https://www.wikidata.org/w/api.php?action=wbgetentities&ids=".toList ++
    join "%7C".toList ids ++
    "&props=labels%7Cclaims&languages=en%7Cja%7Cko&format=json".toList

/-- The ids whose labels are asked for. -/
def referenced (entity : Json) (performers : List Str) : List Str :=
  ((props.flatMap fun p => claimIds entity p.1) ++ performers).take 45

/-- The document of an entity. -/
def document (track : TrackRequest) (id artist body : Str) : NewDocument where
  source := "wikidata".toList
  sourceRef := id
  sourceUrl := "https://www.wikidata.org/wiki/".toList ++ id
  subject := .song
  song := some track.song
  album := track.album
  artist := artist
  title := Keys.baseTitle U track.song
  lang := "en".toList
  body := body

/-- The loop over the ids. -/
def tryIds (track : TrackRequest) (entities : Json) : List Str → Fetch (List NewDocument)
  | [] => pure []
  | id :: ids => do
      let entity := (entities.index "entities".toList).index id
      let performers := claimIds entity "P175".toList
      if performers = [] then tryIds track entities ids
      else
        let labels ← getJson (entitiesUrl (referenced entity performers))
        match performer U track.artist labels performers with
        | some artist =>
            let song := Keys.baseTitle U track.song
            return [document U track id artist (render entity labels song artist)]
        | none => tryIds track entities ids

/-- A search, its entities, and the labels of each until a performer is credited. -/
def fetch (track : TrackRequest) (scope : Scope) : Fetch (List NewDocument) :=
  fetchIf scope.song do
    let song := Keys.baseTitle U track.song
    let search ← getJson (searchUrl song)
    let ids := hitIds U search song
    if ids = [] then return []
    let entities ← getJson (entitiesUrl ids)
    tryIds U track entities ids

end Wikidata

end AnyPlayerSync.Sources
