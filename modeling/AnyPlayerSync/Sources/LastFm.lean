import AnyPlayerSync.Sources.Clean
import AnyPlayerSync.Sources.Http

/-!
# Last.fm

`sources/lastfm.rs`: the wiki texts of the track, the album and the artist, for the first credited
artist that has one.
-/

set_option autoImplicit false

namespace AnyPlayerSync.Sources

open AnyPlayerSync.Foundation
open AnyPlayerSync.Foundation.Text
open AnyPlayerSync.Passages

namespace LastFm

variable (U : UnicodeTables)

/-- The member of the response that holds the item. -/
def root : Subject → Str
  | .song => "track".toList
  | .album => "album".toList
  | .artist => "artist".toList

/-- The path to the wiki text. -/
def content : Subject → List Str
  | .song => ["track", "wiki", "content"].map String.toList
  | .album => ["album", "wiki", "content"].map String.toList
  | .artist => ["artist", "bio", "content"].map String.toList

/-- The text at a path has the key of the artist. -/
def hasKey (v : Json) (path : List Str) (artist : Str) : Bool :=
  match (v.pointer path).bind Json.asStr with
  | some a => decide (key U a = key U artist)
  | none => false

/-- The response is about the item asked for; autocorrect may return another. An album response
for a track without album ends `parse`. -/
def identityOk (v : Json) (subject : Subject) (track : TrackRequest) (artist name : Str) :
    Option Bool :=
  match subject with
  | .song => some (titleMatches U name track.song &&
      hasKey U v (["track", "artist", "name"].map String.toList) artist)
  | .album => track.album.map fun album => titleMatches U name album &&
      hasKey U v (["album", "artist"].map String.toList) artist
  | .artist => some (decide (key U name = key U artist))

/-- The document of a response; an album title goes to all three. -/
def document (track : TrackRequest) (subject : Subject) (artist name url body : Str) :
    NewDocument where
  source := "lastfm".toList
  sourceRef := subject.asStr ++ ":".toList ++ url
  sourceUrl := url
  subject := subject
  song := if subject = .song then some track.song else none
  album := track.album
  artist := artist
  title := name
  lang := "en".toList
  body := truncateBody body maxBodyBytes

/-- The document of a response that is about the item and has a text. -/
def parse (v : Json) (subject : Subject) (track : TrackRequest) (artist : Str) :
    Option NewDocument := do
  let name ← (← v.pointer [root subject, "name".toList]).asStr
  let ok ← identityOk U v subject track artist name
  let body := stripLastfmSuffix (← (← v.pointer (content subject)).asStr)
  let url := ((v.pointer [root subject, "url".toList]).bind Json.asStr).getD []
  if ok = true ∧ body ≠ [] then some (document track subject artist name url body) else none

/-! ## Requests -/

/-- The URL of a method, with the key in its query. -/
def callUrl (apiKey method params : Str) : Str :=
  "https://ws.audioscrobbler.com/2.0/?method=".toList ++ method ++
    "&format=json&autocorrect=1&api_key=".toList ++ apiKey ++ "&".toList ++ params

/-- The request for a subject. -/
def subjectUrl (apiKey : Str) (track : TrackRequest) (artist : Str) : Subject → Str
  | .song => callUrl apiKey "track.getInfo".toList ("artist=".toList ++ percentEncode artist ++
      "&track=".toList ++ percentEncode (Keys.baseTitle U track.song))
  | .album => callUrl apiKey "album.getInfo".toList ("artist=".toList ++ percentEncode artist ++
      "&album=".toList ++ percentEncode (track.album.getD []))
  | .artist => callUrl apiKey "artist.getInfo".toList ("artist=".toList ++ percentEncode artist)

/-- The subjects that are asked for. -/
def wantedSubjects (track : TrackRequest) (scope : Scope) : List Subject :=
  (if scope.song then [.song] else []) ++
    (if scope.album ∧ track.album ≠ none then [.album] else []) ++
    (if scope.artist then [.artist] else [])

/-- The documents of one artist. -/
def fetchSubjects (apiKey : Str) (track : TrackRequest) (artist : Str) :
    List Subject → Fetch (List NewDocument)
  | [] => pure []
  | subject :: subjects => do
      let v ← getJson (subjectUrl U apiKey track artist subject)
      let docs ← fetchSubjects apiKey track artist subjects
      return (parse U v subject track artist).toList ++ docs

/-- The loop over the artists. -/
def tryArtists (apiKey : Str) (track : TrackRequest) (scope : Scope) :
    List Str → Fetch (List NewDocument)
  | [] => pure []
  | artist :: artists => do
      let docs ← fetchSubjects U apiKey track artist (wantedSubjects track scope)
      if docs = [] then tryArtists apiKey track scope artists else return docs

/-- The artists of the credit in turn, until one has documents. -/
def fetch (apiKey : Str) (track : TrackRequest) (scope : Scope) : Fetch (List NewDocument) :=
  tryArtists U apiKey track scope (Keys.artistParts U track.artist)

end LastFm

end AnyPlayerSync.Sources
