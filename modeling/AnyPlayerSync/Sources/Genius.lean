import AnyPlayerSync.Sources.Clean
import AnyPlayerSync.Sources.Http

/-!
# Genius

`sources/genius.rs`: the description and the annotations of the first hit whose title is the song
and whose primary artist is credited, and the description of that artist. A paragraph or an
annotation that quotes a referent fragment is left out.
-/

set_option autoImplicit false

namespace AnyPlayerSync.Sources

open AnyPlayerSync.Foundation
open AnyPlayerSync.Foundation.Text
open AnyPlayerSync.Passages

namespace Genius

variable (U : UnicodeTables)

/-! ## Responses -/

/-- What is used of a hit. -/
structure Hit where
  songId : Int
  artistId : Int
  artist : Str
  url : Str

/-- `as_i64().unwrap_or_default()`. -/
def asI64 (v : Option Json) : Int :=
  match v.bind Json.asInt with
  | some n => if -9223372036854775808 ≤ n ∧ n ≤ 9223372036854775807 then n else 0
  | none => 0

/-- A hit that matches. -/
def matchHit (song credit : Str) (h : Json) : Option Hit := do
  let r := h.index "result".toList
  let primary ← (← r.pointer (["primary_artist", "name"].map String.toList)).asStr
  let artist ← (Keys.artistParts U credit).find? fun a => key U a = key U primary
  let title ← (r.index "title".toList).asStr
  if titleMatches U title song then
    some {
      songId := asI64 (some (r.index "id".toList))
      artistId := asI64 (r.pointer (["primary_artist", "id"].map String.toList))
      artist := artist
      url := ((r.index "url".toList).asStr).getD [] }
  else none

/-- The first hit of a search that matches. -/
def pickHit (search : Json) (song credit : Str) : Option Hit := do
  let hits ← (← search.pointer (["response", "hits"].map String.toList)).asArray
  hits.findSome? (matchHit U song credit)

/-- The description of a song or an artist; Genius has `?` for none. -/
def description (v : Json) : Option Str := do
  let text ← (← v.pointer (["description", "plain"].map String.toList)).asStr
  if trim text ≠ [] ∧ trim text ≠ "?".toList then some (trim text) else none

/-- The text quotes one of the fragments. -/
def quotes (fragments : List Str) (text : Str) : Bool := fragments.any fun f => contains text f

/-- The paragraphs that quote no fragment, if there are any. -/
def stripLyricParagraphs (text : Str) (fragments : List Str) : Option Str :=
  let kept := ((splitStr "\n\n".toList text).map trim).filter fun p =>
    p ≠ [] ∧ quotes fragments p = false
  if kept = [] then none else some (join "\n\n".toList kept)

/-- An annotation's text, unless it quotes a fragment. -/
def annotation (fragments : List Str) (a : Json) : Option Str := do
  let text ← (← a.pointer (["body", "plain"].map String.toList)).asStr
  if trim text ≠ [] ∧ quotes fragments (trim text) = false then some (trim text) else none

/-- The song description and every annotation body. -/
def songBody (song referents : Json) : Str :=
  let refs := ((referents.pointer (["response", "referents"].map String.toList)).bind
    Json.asArray).getD []
  let fragments := (refs.filterMap fun r => (r.index "fragment".toList).asStr).filter fun f =>
    f ≠ []
  let about := (description ((song.index "response".toList).index "song".toList)).bind fun d =>
    stripLyricParagraphs d fragments
  join "\n\n".toList (about.toList ++
    refs.flatMap fun r => (r.index "annotations".toList).elements.filterMap fun a =>
      annotation fragments a)

/-! ## Requests -/

/-- The URL of a path of the API. -/
def url (path : Str) : Str := "https://api.genius.com".toList ++ path

/-- An integer in decimal. -/
def decimal (n : Int) : Str := (toString n).toList

/-- The document about the song. -/
def songDocument (track : TrackRequest) (hit : Hit) (body : Str) : NewDocument where
  source := "genius".toList
  sourceRef := "song:".toList ++ decimal hit.songId
  sourceUrl := hit.url
  subject := .song
  song := some track.song
  album := track.album
  artist := hit.artist
  title := Keys.baseTitle U track.song
  lang := "en".toList
  body := truncateBody body maxBodyBytes

/-- The document about the artist of the hit. -/
def artistDocument (hit : Hit) (a : Json) (body : Str) : NewDocument where
  source := "genius".toList
  sourceRef := "artist:".toList ++ decimal hit.artistId
  sourceUrl := ((a.pointer (["response", "artist", "url"].map String.toList)).bind
    Json.asStr).getD []
  subject := .artist
  song := none
  album := none
  artist := hit.artist
  title := hit.artist
  lang := "en".toList
  body := truncateBody body maxBodyBytes

/-- The song and its referents are asked for. -/
def fetchSong (track : TrackRequest) (hit : Hit) : Fetch (List NewDocument) := do
  let song ← getJson (url ("/songs/".toList ++ decimal hit.songId ++ "?text_format=plain".toList))
  let refs ← getJson (url ("/referents?song_id=".toList ++ decimal hit.songId ++
    "&text_format=plain&per_page=50".toList))
  let body := songBody song refs
  if body = [] then return [] else return [songDocument U track hit body]

/-- The artist is asked for. -/
def fetchArtist (hit : Hit) : Fetch (List NewDocument) := do
  let a ← getJson (url ("/artists/".toList ++ decimal hit.artistId ++
    "?text_format=plain".toList))
  match description ((a.index "response".toList).index "artist".toList) with
  | some body => return [artistDocument hit a body]
  | none => return []

/-- A search, and then what the scope wants of its hit. -/
def fetch (track : TrackRequest) (scope : Scope) : Fetch (List NewDocument) :=
  if !scope.song && !scope.artist then pure []
  else do
    let song := Keys.baseTitle U track.song
    let search ← getJson
      (url ("/search?q=".toList ++ percentEncode (song ++ ' ' :: track.artist)))
    match pickHit U search song track.artist with
    | none => return []
    | some hit =>
        let songs ← fetchIf scope.song (fetchSong U track hit)
        let artists ← fetchIf scope.artist (fetchArtist hit)
        return songs ++ artists

end Genius

end AnyPlayerSync.Sources
