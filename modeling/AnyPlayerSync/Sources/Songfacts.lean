import AnyPlayerSync.Sources.Clean
import AnyPlayerSync.Sources.Http

/-!
# Songfacts

`sources/songfacts.rs`: the first search result whose title is the song and whose listed artist is
credited, then the facts of its page. The HTML parser is a parameter: what its selectors find in a
page.
-/

set_option autoImplicit false

namespace AnyPlayerSync.Sources

open AnyPlayerSync.Foundation
open AnyPlayerSync.Foundation.Text
open AnyPlayerSync.Passages

/-- An element `a[href^="/facts/"]`: its target, its text and the text node after it. -/
structure FactLink where
  href : Str
  title : Str
  after : Str

/-- The two selectors of the source: the links to facts, and the texts of
`ul.songfacts-results > li > div.inner`. -/
structure Html where
  links : Str → List FactLink
  items : Str → List Str

namespace Songfacts

variable (U : UnicodeTables) (html : Html)

/-- The search, with the title in the path. -/
def searchUrl (song : Str) : Str :=
  "https://www.songfacts.com/search/songs/".toList ++ percentEncode (toLowercase U song)

/-- The artist that stands after the link, behind a dash. -/
def listedArtist (link : FactLink) : Str := trim ((trim link.after).dropWhile (· = '-'))

/-- The target and the credited artist of a link that matches. -/
def matchLink (song credit : Str) (link : FactLink) : Option (Str × Str) :=
  if link.href.count '/' = 3 ∧ titleMatches U link.title song = true then
    let named := (Keys.artistParts U credit).find? fun p => key U p = key U (listedArtist link)
    named.map fun artist => (link.href, artist)
  else none

/-- The first link of a page that matches. -/
def findResult (page song credit : Str) : Option (Str × Str) :=
  (html.links page).findSome? (matchLink U song credit)

/-- The facts of a page, each as one paragraph. -/
def facts (page : Str) : Str :=
  join "\n\n".toList
    (((html.items page).map fun item => join " ".toList (splitWhitespace item)).filter fun s =>
      s ≠ [])

/-- The document of a page. -/
def document (track : TrackRequest) (path url artist body : Str) : NewDocument where
  source := "songfacts".toList
  sourceRef := path
  sourceUrl := url
  subject := .song
  song := some track.song
  album := track.album
  artist := artist
  title := Keys.baseTitle U track.song
  lang := "en".toList
  body := truncateBody body maxBodyBytes

/-- A search, and the page of its first match. -/
def fetch (track : TrackRequest) (scope : Scope) : Fetch (List NewDocument) :=
  fetchIf scope.song do
    let song := Keys.baseTitle U track.song
    let search ← getText (searchUrl U song)
    match findResult U html search song track.artist with
    | none => return []
    | some (path, artist) =>
        let url := "https://www.songfacts.com".toList ++ path
        let body := facts html (← getText url)
        if body = [] then return []
        return [document U track path url artist body]

end Songfacts

end AnyPlayerSync.Sources
