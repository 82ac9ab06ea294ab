import AnyPlayerSync.Sources.Clean
import AnyPlayerSync.Sources.Http

/-!
# Wikipedia

`sources/wikipedia.rs`: for one language, a search for the song, one for its album and one for each
artist of the credit. A search takes the first hit whose page has a matching title and an accepted
text. The three languages have clients of their own and run concurrently, so their answers are
independent.
-/

set_option autoImplicit false

namespace AnyPlayerSync.Sources

open AnyPlayerSync.Foundation
open AnyPlayerSync.Foundation.Text
open AnyPlayerSync.Passages

namespace Wikipedia

/-- The languages of the source. -/
def langs : List Str := ["en", "ja", "ko"].map String.toList

/-- Words that the article of an artist has near its beginning. -/
def artistWords : List Str :=
  ["band", "singer", "musician", "rapper", "group", "duo", "songwriter", "producer", "dj", "歌手",
    "バンド", "ミュージシャン", "グループ", "ユニット", "가수", "밴드", "그룹", "음악가"].map
    String.toList

/-! ## Responses -/

/-- The titles that a search found. -/
def searchTitles (v : Json) : List Str :=
  (((v.pointer ["query".toList, "search".toList]).bind Json.asArray).getD []).filterMap fun h =>
    (h.get "title".toList).bind Json.asStr

/-- The resolved title and the plain text of the single page in an extracts response. -/
def parseExtract (v : Json) : Option (Str × Str) := do
  let pages ← (← v.pointer ["query".toList, "pages".toList]).asObject
  let (_, page) ← pages.head?
  if (page.get "missing".toList).isSome then none
  let title ← (← page.get "title".toList).asStr
  let extract ← (← page.get "extract".toList).asStr
  return (title, extract)

/-! ## Requests -/

/-- The API of a language. -/
def api (lang : Str) : Str := "https://".toList ++ lang ++ ".wikipedia.org/w/api.php".toList

/-- The search for articles. -/
def searchUrl (lang query : Str) : Str :=
  api lang ++ "?action=query&list=search&srlimit=5&format=json&srsearch=".toList ++
    percentEncode query

/-- The request for the plain text of an article. -/
def pageUrl (lang title : Str) : Str :=
  api lang ++ "?action=query&prop=extracts&explaintext=1&format=json&redirects=1&titles=".toList ++
    percentEncode title

/-! ## Acceptance -/

variable (U : UnicodeTables)

/-- The most specific credited artist that the text names. -/
def namedArtist (text credit : Str) : Option Str :=
  (Keys.artistParts U credit).reverse.find? fun a => contains (key U text) (key U a)

/-- The beginning of the text has one of the words. -/
def isArtistArticle (text : Str) : Bool :=
  artistWords.any fun w => contains (key U (text.take 600)) w

/-! ## One search -/

/-- The arguments of `find`. -/
structure Search where
  query : Str
  wanted : Str
  subject : Subject
  track : TrackRequest
  textOk : Str → Bool

/-- A page that a search accepts. -/
def Search.Accepts (search : Search) (page : Str × Str) : Prop :=
  titleMatches U page.1 search.wanted = true ∧ search.textOk page.2 = true

instance (search : Search) (page : Str × Str) : Decidable (search.Accepts U page) :=
  inferInstanceAs (Decidable (_ ∧ _))

/-- The artist that a document is stored under. -/
def Search.credited (search : Search) (text : Str) : Str :=
  (namedArtist U text search.track.artist).getD search.track.artist

/-- The document of an article that was accepted. -/
def Search.document (search : Search) (lang : Str) (page : Str × Str) : NewDocument where
  source := "wikipedia-".toList ++ lang
  sourceRef := page.1
  sourceUrl := "https://".toList ++ lang ++ ".wikipedia.org/wiki/".toList ++
    page.1.map fun c => if c = ' ' then '_' else c
  subject := search.subject
  song := if search.subject = .song then some search.track.song else none
  album := search.track.album
  artist := search.credited U page.2
  title := page.1
  lang := lang
  body := truncateBody (stripWikiSections page.2) maxBodyBytes

section Document

variable (search : Search) (lang : Str) (page : Str × Str)

@[simp] theorem Search.document_subject : (search.document U lang page).subject = search.subject :=
  rfl

@[simp] theorem Search.document_song : (search.document U lang page).song =
    if search.subject = .song then some search.track.song else none := rfl

@[simp] theorem Search.document_album : (search.document U lang page).album = search.track.album :=
  rfl

@[simp] theorem Search.document_artist :
    (search.document U lang page).artist = search.credited U page.2 := rfl

theorem Search.document_body : (search.document U lang page).body =
    truncateBody (stripWikiSections page.2) maxBodyBytes := by
  delta Search.document
  dsimp only

end Document

/-- The loop of `find` over the hits. -/
def Search.tryTitles (search : Search) (lang : Str) : List Str → Fetch (Option NewDocument)
  | [] => pure none
  | title :: titles => do
      match parseExtract (← getJson (pageUrl lang title)) with
      | none => search.tryTitles lang titles
      | some page =>
          if search.Accepts U page then pure (some (search.document U lang page))
          else search.tryTitles lang titles

/-- A search, and the first of its articles that is accepted. -/
def Search.find (search : Search) (lang : Str) : Fetch (Option NewDocument) := do
  let found ← getJson (searchUrl lang search.query)
  search.tryTitles U lang ((searchTitles found).filter fun t => titleMatches U t search.wanted)

/-! ## One language -/

/-- The text names an artist of the credit. -/
def namesArtist (track : TrackRequest) (text : Str) : Bool :=
  (namedArtist U text track.artist).isSome

/-- The artists that are looked up: those that a credit of several names, else the credit. -/
def individuals (credit : Str) : List Str :=
  let parts := Keys.artistParts U credit
  if parts.length > 1 then parts.tail else parts

/-- The search for the song. -/
def songSearch (track : TrackRequest) : Search where
  query := track.song ++ ' ' :: track.artist
  wanted := track.song
  subject := .song
  track := track
  textOk := namesArtist U track

/-- The search for the album. -/
def albumSearch (track : TrackRequest) (album : Str) : Search where
  query := album ++ ' ' :: track.artist
  wanted := album
  subject := .album
  track := track
  textOk := namesArtist U track

/-- The search for one artist. -/
def artistSearch (track : TrackRequest) (artist : Str) : Search where
  query := artist
  wanted := artist
  subject := .artist
  track := { track with artist := artist }
  textOk := isArtistArticle U

/-- The searches of `fetch_lang`, in order. -/
def searches (track : TrackRequest) (scope : Scope) : List Search :=
  (if scope.song then [songSearch U track] else []) ++
    (if scope.album then (track.album.map (albumSearch U track)).toList else []) ++
    (if scope.artist then (individuals U track.artist).map (artistSearch U track) else [])

/-- The searches one after the other; the first error ends them. -/
def findAll (lang : Str) : List Search → Fetch (List NewDocument)
  | [] => pure []
  | search :: rest => do
      let found ← search.find U lang
      let docs ← findAll lang rest
      return found.toList ++ docs

/-- All that one language has. -/
def fetchLang (lang : Str) (track : TrackRequest) (scope : Scope) : Fetch (List NewDocument) :=
  findAll U lang (searches U track scope)

/-- `webs lang` answers the client of a language. -/
def fetch (webs : Str → Web) (track : TrackRequest) (scope : Scope) : SourceResult := do
  let perLang ← langs.mapM fun lang => (fetchLang U lang track scope).result (webs lang)
  return perLang.flatten

end Wikipedia

end AnyPlayerSync.Sources
