import AnyPlayerSync.Sources.Clean
import AnyPlayerSync.Sources.Http

/-!
# MusicBrainz

`sources/musicbrainz.rs`: the first recording, of the first artist of the credit that has one, whose
title is the song and whose credit names the artist, rendered as sentences.
-/

set_option autoImplicit false

namespace AnyPlayerSync.Sources

open AnyPlayerSync.Foundation
open AnyPlayerSync.Foundation.Text
open AnyPlayerSync.Passages

namespace MusicBrainz

variable (U : UnicodeTables)

/-! ## Responses -/

/-- `r["first-release-date"]`, with a text that sorts last for a missing date. -/
def releaseDate (r : Json) : Str :=
  match (r.index "first-release-date".toList).asStr with
  | some d => if d = [] then "9999".toList else d
  | none => "9999".toList

/-- `a ≤ b` in the order of `str`, which is that of the code points. -/
def sortsBefore (a b : Str) : Bool := !b.lex a fun c d => decide (c.toNat < d.toNat)

/-- Up to 5 matching recording ids, earliest first release first. -/
def candidateIds (v : Json) (song : Str) : List Str :=
  let recs := (v.index "recordings".toList).elements.filter fun r =>
    match (r.index "title".toList).asStr with
    | some t => decide (key U t = key U song)
    | none => false
  let recs := recs.mergeSort fun a b => sortsBefore (releaseDate a) (releaseDate b)
  (recs.take 5).filterMap fun r => (r.index "id".toList).asStr

/-- A name with the key of the artist. -/
def namesKey (artist : Str) (name : Json) : Bool :=
  match name.asStr with
  | some n => decide (key U n = key U artist)
  | none => false

/-- The recording is credited to the artist, under the name, the sort name or an alias. -/
def credited (rec : Json) (artist : Str) : Bool :=
  (rec.index "artist-credit".toList).elements.any fun c =>
    let a := c.index "artist".toList
    namesKey U artist (a.index "name".toList) || namesKey U artist (a.index "sort-name".toList) ||
      (a.index "aliases".toList).elements.any fun al => namesKey U artist (al.index "name".toList)

/-- Up to two works that the recording is a performance of. -/
def workIds (rec : Json) : List Str :=
  (((rec.index "relations".toList).elements.filter fun r =>
    decide ((r.index "type".toList).asStr = some "performance".toList)).filterMap fun r =>
      (r.pointer ["work".toList, "id".toList]).bind Json.asStr).take 2

/-! ## Rendering -/

/-- The related artist, place or recording. -/
def relatedName (r : Json) : Option Str :=
  ((r.pointer ["artist".toList, "name".toList]).or
    ((r.pointer ["place".toList, "name".toList]).or
      (r.pointer ["recording".toList, "title".toList]))).bind Json.asStr

/-- The names of the relations of some types, each once. -/
def names (relations : Json) (types : List Str) : List Str :=
  relations.elements.foldl (fun out r =>
    match (r.index "type".toList).asStr with
    | some t =>
        if t ∈ types then
          match relatedName r with
          | some n => if n ∈ out then out else out ++ [n]
          | none => out
        else out
    | none => out) []

/-- `phrases` rendered after `before`, each with its names; nothing for a phrase without names. -/
def renderNames (relations : Json) (before : Str) (phrases : List (List Str × Str)) : Str :=
  phrases.flatMap fun (types, phrase) =>
    let n := names relations types
    if n = [] then [] else before ++ phrase ++ " ".toList ++ join ", ".toList n ++ ".".toList

/-- The types of relations of a recording, each with its phrase. -/
def recordingPhrases : List (List Str × Str) :=
  [(["producer"], "Produced by"), (["engineer", "recording", "audio"], "Engineered by"),
    (["mix"], "Mixed by"), (["recorded at"], "Recorded at"), (["samples material"], "It samples"),
    (["instrument", "vocal"], "Performers include")].map fun p =>
      (p.1.map String.toList, p.2.toList)

/-- The types of relations of a work, each with its phrase. -/
def workPhrases : List (List Str × Str) :=
  [(["composer"], "composed by"), (["lyricist"], "given lyrics by"),
    (["writer"], "written by")].map fun p => (p.1.map String.toList, p.2.toList)

/-- The sentences about a recording. -/
def render (rec : Json) (song artist : Str) : Str :=
  let released := match (rec.index "first-release-date".toList).asStr with
    | some d => if d = [] then [] else " It was first released on ".toList ++ d ++ ".".toList
    | none => []
  let group := match ((rec.index "release-groups".toList).elements.head?).bind fun g =>
      (g.index "title".toList).asStr with
    | some title => " It appears on ".toList ++ title ++ ".".toList
    | none => []
  song ++ " is a recording credited to ".toList ++ artist ++ ".".toList ++ released ++ group ++
    renderNames (rec.index "relations".toList) " ".toList recordingPhrases

/-- The sentences about a work. -/
def renderWork (work : Json) (song : Str) : Str :=
  renderNames (work.index "relations".toList) (" ".toList ++ song ++ " was ".toList) workPhrases

/-! ## Requests -/

/-- The search for a recording. -/
def queryUrl (song artist : Str) : Str :=
  "https://musicbrainz.org/ws/2/recording?fmt=json&limit=25&query=".toList ++
    percentEncode ("recording:\"".toList ++ song ++ "\" AND artist:\"".toList ++ artist ++
      "\"".toList)

/-- The request for a recording with its relations. -/
def recordingUrl (id : Str) : Str :=
  "https://musicbrainz.org/ws/2/recording/".toList ++ id ++
    ("?fmt=json&inc=artists+aliases+artist-rels+place-rels+work-rels+recording-rels" ++
      "+release-groups").toList

/-- The request for a work with its artists. -/
def workUrl (work : Str) : Str :=
  "https://musicbrainz.org/ws/2/work/".toList ++ work ++ "?fmt=json&inc=artist-rels".toList

/-- What the works of a recording add to the body. -/
def fetchWorks (song : Str) : List Str → Fetch Str
  | [] => pure []
  | work :: works => do
      let w ← getJson (workUrl work)
      let rest ← fetchWorks song works
      return renderWork w song ++ rest

/-- The document of a recording. -/
def document (track : TrackRequest) (id artist body : Str) : NewDocument where
  source := "musicbrainz".toList
  sourceRef := id
  sourceUrl := "https://musicbrainz.org/recording/".toList ++ id
  subject := .song
  song := some track.song
  album := track.album
  artist := artist
  title := Keys.baseTitle U track.song
  lang := "en".toList
  body := body

/-- The loop over the candidates of one artist. -/
def tryIds (track : TrackRequest) (artist : Str) : List Str → Fetch (Option NewDocument)
  | [] => pure none
  | id :: ids => do
      let rec' ← getJson (recordingUrl id)
      if credited U rec' artist then
        let song := Keys.baseTitle U track.song
        let works ← fetchWorks song (workIds rec')
        return some (document U track id artist (render rec' song artist ++ works))
      else tryIds track artist ids

/-- The loop over the artists. -/
def tryArtists (track : TrackRequest) : List Str → Fetch (List NewDocument)
  | [] => pure []
  | artist :: artists => do
      let song := Keys.baseTitle U track.song
      let found ← getJson (queryUrl song artist)
      match ← tryIds U track artist (candidateIds U found song) with
      | some doc => return [doc]
      | none => tryArtists track artists

/-- The artists of the credit in turn, until a recording is found. -/
def fetch (track : TrackRequest) (scope : Scope) : Fetch (List NewDocument) :=
  fetchIf scope.song (tryArtists U track (Keys.artistParts U track.artist))

end MusicBrainz

end AnyPlayerSync.Sources
