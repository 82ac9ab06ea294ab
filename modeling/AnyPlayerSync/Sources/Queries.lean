import AnyPlayerSync.Sources.All

/-!
# What the searches tell

A search has texts of the track in its URL, which may have any characters. A server reads the URL as
the client asks for it, with its dot segments resolved, and its query as a form. It gets the texts
back as values of parameters, next to no other parameters than the fixed ones (`searches_tell`).

Two sources do more with the texts. MusicBrainz gets both in one search text, in whose own syntax
they are not escaped. Songfacts gets the title as a segment of the path, and two titles are dot
segments (`Songfacts.searchUrl_tells_iff`).
-/

set_option autoImplicit false

namespace AnyPlayerSync.Sources

open AnyPlayerSync.Foundation
open AnyPlayerSync.Foundation.Percent
open AnyPlayerSync.Foundation.Text
open AnyPlayerSync.Passages

/-! ## Reading a request -/

/-- The pairs of a form in bytes. -/
def formOf (pairs : List (Str × Str)) : List (List UInt8 × List UInt8) :=
  pairs.map fun p => (utf8 p.1, utf8 p.2)

/-- What a server reads of a request, whose URL has no character that a client would rewrite. -/
structure Tells (url host path : Str) (pairs : List (Str × Str)) : Prop where
  plain : UrlText url
  scheme : (readRequest url).scheme = some "https".toList
  authority : (readRequest url).authority = some host
  path : decode (readRequest url).path = utf8 path
  pairs : readForm ((readRequest url).query.getD []) = formOf pairs
  fragment : (readRequest url).fragment = none

/-- The first part of a URL, with the beginning of its query. -/
structure Begins (base host path query : Str) : Prop where
  url : readRequest base = ⟨some "https".toList, some host, path, some query, none⟩
  plain : UrlText base
  percent : '%' ∉ path

instance (base host path query : Str) : Decidable (Begins base host path query) :=
  decidable_of_iff
    (readRequest base = ⟨some "https".toList, some host, path, some query, none⟩ ∧
      UrlText base ∧ '%' ∉ path)
    ⟨fun h => ⟨h.1, h.2.1, h.2.2⟩, fun h => ⟨h.url, h.plain, h.percent⟩⟩

section Reading

variable {base host path query before name : Str} {pairs : List (Str × Str)}

/-- A query that goes on from a fixed beginning. -/
theorem Begins.tells (hbase : Begins base host path query) {rest : Str} (hrest : UrlText rest)
    (hform : readForm (query ++ rest) = formOf pairs) : Tells (base ++ rest) host path pairs := by
  have hquery : (readRequest base).query = some query := by rw [hbase.url]
  have hread := readRequest_append_query hquery hbase.plain.hash_not_mem hrest.hash_not_mem
  rw [hbase.url] at hread
  have hpath : decode path = utf8 path := decode_eq_utf8 (not_hasEscape_of_not_mem hbase.percent)
  constructor
  · exact hbase.plain.append hrest
  · rw [hread]
  · rw [hread]
  · rw [hread, hpath]
  · rw [hread]
    exact hform
  · rw [hread]

/-- A pair with an encoded value is read back. -/
theorem readForm_encoded (hname : ∀ c ∈ ['&', '=', '+', '%'], c ∉ name) (value : Str) :
    readForm (name ++ '=' :: percentEncode value) = [(utf8 name, utf8 value)] := by
  have hvalue : ∀ c ∈ ['&', '+'], c ∉ percentEncode value := by
    simp only [List.forall_mem_cons, List.not_mem_nil, false_imp_iff, implies_true, and_true]
    exact ⟨not_mem_percentEncode (by decide) (by decide) value,
      not_mem_percentEncode (by decide) (by decide) value⟩
  rw [readForm_pair hname hvalue, decode_percentEncode]

/-- The value of the last parameter of a query. -/
theorem readForm_last (hname : ∀ c ∈ ['&', '=', '+', '%'], c ∉ name) (value : Str) :
    readForm (before ++ '&' :: (name ++ ['=']) ++ percentEncode value) =
      readForm before ++ [(utf8 name, utf8 value)] := by
  have hsplit : before ++ '&' :: (name ++ ['=']) ++ percentEncode value =
      before ++ '&' :: (name ++ '=' :: percentEncode value) := by simp
  rw [hsplit, readForm_append, readForm_encoded hname]

/-- A value with more parameters behind it. -/
theorem readForm_then (hname : ∀ c ∈ ['&', '=', '+', '%'], c ∉ name) (value after : Str) :
    readForm (before ++ '&' :: (name ++ ['=']) ++ (percentEncode value ++ '&' :: after)) =
      readForm before ++ (utf8 name, utf8 value) :: readForm after := by
  rw [← List.append_assoc, readForm_append, readForm_last hname, List.append_assoc,
    List.singleton_append]

/-- One parameter, whose text up to the value is `start`. -/
theorem readForm_one {start : Str} (hstart : start = name ++ ['='])
    (hname : ∀ c ∈ ['&', '=', '+', '%'], c ∉ name) (value : Str) :
    readForm (start ++ percentEncode value) = [(utf8 name, utf8 value)] := by
  rw [hstart, List.append_assoc, List.singleton_append, readForm_encoded hname]

/-- Two parameters; `mark` stands between the value of the first and that of the second. -/
theorem readForm_two {start mark second : Str} (hstart : start = name ++ ['='])
    (hmark : mark = '&' :: (second ++ ['=']))
    (hname : ∀ c ∈ ['&', '=', '+', '%'], c ∉ name)
    (hsecond : ∀ c ∈ ['&', '=', '+', '%'], c ∉ second) (value other : Str) :
    readForm (start ++ percentEncode value ++ mark ++ percentEncode other) =
      [(utf8 name, utf8 value), (utf8 second, utf8 other)] := by
  rw [hmark, readForm_last hsecond, readForm_one hstart hname]
  rfl

end Reading

/-! ## Wikipedia -/

namespace Wikipedia

/-- What the search is meant to tell Wikipedia. -/
def searchPairs (query : Str) : List (Str × Str) :=
  [("action".toList, "query".toList), ("list".toList, "search".toList),
    ("srlimit".toList, "5".toList), ("format".toList, "json".toList), ("srsearch".toList, query)]

/-- What the request of a page is meant to tell. -/
def pagePairs (title : Str) : List (Str × Str) :=
  [("action".toList, "query".toList), ("prop".toList, "extracts".toList),
    ("explaintext".toList, "1".toList), ("format".toList, "json".toList),
    ("redirects".toList, "1".toList), ("titles".toList, title)]

/-- The fixed parts of the two requests. -/
theorem fixed_parts :
    (∀ lang ∈ langs,
      Begins (api lang ++ "?action=query&list=search&srlimit=5&format=json&srsearch=".toList)
          (lang ++ ".wikipedia.org".toList) "/w/api.php".toList
          ("action=query&list=search&srlimit=5&format=json".toList ++
            '&' :: ("srsearch".toList ++ ['='])) ∧
        Begins (api lang ++
            "?action=query&prop=extracts&explaintext=1&format=json&redirects=1&titles=".toList)
          (lang ++ ".wikipedia.org".toList) "/w/api.php".toList
          ("action=query&prop=extracts&explaintext=1&format=json&redirects=1".toList ++
            '&' :: ("titles".toList ++ ['=']))) ∧
      readForm "action=query&list=search&srlimit=5&format=json".toList =
        formOf ((searchPairs []).take 4) ∧
      readForm "action=query&prop=extracts&explaintext=1&format=json&redirects=1".toList =
        formOf ((pagePairs []).take 5) := by
  decide +kernel

variable {lang : Str}

/-- The search text is one parameter. -/
theorem searchUrl_tells (hlang : lang ∈ langs) (query : Str) :
    Tells (searchUrl lang query) (lang ++ ".wikipedia.org".toList) "/w/api.php".toList
      (searchPairs query) := by
  obtain ⟨hbegins, hform, -⟩ := fixed_parts
  refine (hbegins lang hlang).1.tells (urlText_percentEncode query) ?_
  rw [readForm_last (by simp), hform]
  rfl

/-- The title is one parameter. -/
theorem pageUrl_tells (hlang : lang ∈ langs) (title : Str) :
    Tells (pageUrl lang title) (lang ++ ".wikipedia.org".toList) "/w/api.php".toList
      (pagePairs title) := by
  obtain ⟨hbegins, -, hform⟩ := fixed_parts
  refine (hbegins lang hlang).2.tells (urlText_percentEncode title) ?_
  rw [readForm_last (by simp), hform]
  rfl

end Wikipedia

/-! ## MusicBrainz -/

namespace MusicBrainz

/-- What the search is meant to tell MusicBrainz. -/
def queryPairs (song artist : Str) : List (Str × Str) :=
  [("fmt".toList, "json".toList), ("limit".toList, "25".toList),
    ("query".toList, "recording:\"".toList ++ song ++ "\" AND artist:\"".toList ++ artist ++
      "\"".toList)]

theorem fixed_parts :
    Begins "https://musicbrainz.org/ws/2/recording?fmt=json&limit=25&query=".toList
        "musicbrainz.org".toList "/ws/2/recording".toList
        ("fmt=json&limit=25".toList ++ '&' :: ("query".toList ++ ['='])) ∧
      readForm "fmt=json&limit=25".toList = formOf ((queryPairs [] []).take 2) := by
  decide +kernel

/-- The composed text is one parameter, with both names in it. -/
theorem queryUrl_tells (song artist : Str) :
    Tells (queryUrl song artist) "musicbrainz.org".toList "/ws/2/recording".toList
      (queryPairs song artist) := by
  obtain ⟨hbegins, hform⟩ := fixed_parts
  refine hbegins.tells (urlText_percentEncode _) ?_
  rw [readForm_last (by simp), hform]
  rfl

end MusicBrainz

/-! ## Wikidata -/

namespace Wikidata

/-- What the search is meant to tell Wikidata. -/
def searchPairs (song : Str) : List (Str × Str) :=
  [("action".toList, "wbsearchentities".toList), ("search".toList, song),
    ("language".toList, "en".toList), ("type".toList, "item".toList), ("limit".toList, "10".toList),
    ("format".toList, "json".toList)]

theorem fixed_parts :
    Begins "https://www.wikidata.org/w/api.php?action=wbsearchentities&search=".toList
        "www.wikidata.org".toList "/w/api.php".toList
        ("action=wbsearchentities".toList ++ '&' :: ("search".toList ++ ['='])) ∧
      readForm "action=wbsearchentities".toList = formOf ((searchPairs []).take 1) ∧
      readForm "language=en&type=item&limit=10&format=json".toList =
        formOf ((searchPairs []).drop 2) ∧
      "&language=en&type=item&limit=10&format=json".toList =
        '&' :: "language=en&type=item&limit=10&format=json".toList ∧
      UrlText "&language=en&type=item&limit=10&format=json".toList := by
  decide +kernel

/-- The song is one parameter, with the fixed ones around it. -/
theorem searchUrl_tells (song : Str) :
    Tells (searchUrl song) "www.wikidata.org".toList "/w/api.php".toList (searchPairs song) := by
  obtain ⟨hbegins, hbefore, hafter, htail, hplain⟩ := fixed_parts
  unfold searchUrl
  -- the literals stay folded
  generalize "&language=en&type=item&limit=10&format=json".toList = tail,
    "language=en&type=item&limit=10&format=json".toList = after at htail hplain hafter ⊢
  subst htail
  rw [List.append_assoc]
  refine hbegins.tells ((urlText_percentEncode song).append hplain) ?_
  rw [readForm_then (by simp), hbefore, hafter]
  rfl

end Wikidata

/-! ## Last.fm -/

namespace LastFm

/-- What a request for a subject tells besides its method and the key. -/
def trackPairs (U : UnicodeTables) (track : TrackRequest) (artist : Str) :
    Subject → List (Str × Str)
  | .song => [("artist".toList, artist), ("track".toList, Keys.baseTitle U track.song)]
  | .album => [("artist".toList, artist), ("album".toList, track.album.getD [])]
  | .artist => [("artist".toList, artist)]

/-- The method of a subject. -/
def method : Subject → Str
  | .song => "track.getInfo".toList
  | .album => "album.getInfo".toList
  | .artist => "artist.getInfo".toList

/-- What the request of a subject is meant to tell Last.fm. -/
def subjectPairs (U : UnicodeTables) (apiKey : Str) (track : TrackRequest) (artist : Str)
    (subject : Subject) : List (Str × Str) :=
  [("method".toList, method subject), ("format".toList, "json".toList),
    ("autocorrect".toList, "1".toList), ("api_key".toList, apiKey)] ++
      trackPairs U track artist subject

theorem fixed_parts : ∀ subject ∈ [Subject.song, .album, .artist],
    Begins ("https://ws.audioscrobbler.com/2.0/?method=".toList ++ method subject ++
          "&format=json&autocorrect=1&api_key=".toList)
        "ws.audioscrobbler.com".toList "/2.0/".toList
        ("method=".toList ++ method subject ++ "&format=json&autocorrect=1".toList ++
          '&' :: ("api_key".toList ++ ['='])) ∧
      readForm ("method=".toList ++ method subject ++ "&format=json&autocorrect=1".toList) =
        formOf [("method".toList, method subject), ("format".toList, "json".toList),
          ("autocorrect".toList, "1".toList)] := by
  decide +kernel

/-- What the URL of a subject ends with. -/
def params (U : UnicodeTables) (track : TrackRequest) (artist : Str) : Subject → Str
  | .song => "artist=".toList ++ percentEncode artist ++ "&track=".toList ++
      percentEncode (Keys.baseTitle U track.song)
  | .album => "artist=".toList ++ percentEncode artist ++ "&album=".toList ++
      percentEncode (track.album.getD [])
  | .artist => "artist=".toList ++ percentEncode artist

theorem subjectUrl_eq (U : UnicodeTables) (apiKey : Str) (track : TrackRequest) (artist : Str)
    (subject : Subject) :
    subjectUrl U apiKey track artist subject =
      callUrl apiKey (method subject) (params U track artist subject) := by
  cases subject <;> rfl

section Params

variable {U : UnicodeTables} {track : TrackRequest} {artist : Str}

theorem artist_start : "artist=".toList = "artist".toList ++ ['='] := by decide

theorem track_mark : "&track=".toList = '&' :: ("track".toList ++ ['=']) := by decide

theorem album_mark : "&album=".toList = '&' :: ("album".toList ++ ['=']) := by decide

theorem params_song : params U track artist .song = "artist=".toList ++ percentEncode artist ++
    "&track=".toList ++ percentEncode (Keys.baseTitle U track.song) := rfl

theorem params_album : params U track artist .album = "artist=".toList ++ percentEncode artist ++
    "&album=".toList ++ percentEncode (track.album.getD []) := rfl

theorem params_artist : params U track artist .artist =
    "artist=".toList ++ percentEncode artist := rfl

/-- The parameters of each subject are read back. -/
theorem readForm_params (subject : Subject) :
    readForm (params U track artist subject) = formOf (trackPairs U track artist subject) := by
  cases subject with
  | song =>
      rw [params_song, readForm_two artist_start track_mark (by simp) (by simp)]
      rfl
  | album =>
      rw [params_album, readForm_two artist_start album_mark (by simp) (by simp)]
      rfl
  | artist =>
      rw [params_artist, readForm_one artist_start (by simp)]
      rfl

theorem urlText_params (subject : Subject) : UrlText (params U track artist subject) := by
  have hstart : UrlText "artist=".toList := by decide
  have hartist := hstart.append (urlText_percentEncode artist)
  have htrack : UrlText "&track=".toList := by decide
  have halbum : UrlText "&album=".toList := by decide
  cases subject with
  | song =>
      rw [params_song]
      exact (hartist.append htrack).append (urlText_percentEncode _)
  | album =>
      rw [params_album]
      exact (hartist.append halbum).append (urlText_percentEncode _)
  | artist =>
      rw [params_artist]
      exact hartist

theorem mem_subjects (subject : Subject) : subject ∈ [Subject.song, .album, .artist] := by
  cases subject <;> decide

/-- A key of letters and digits stands in the URL as it is. -/
theorem subjectUrl_tells {apiKey : Str} (hkey : ∀ c ∈ apiKey, c.isAlphanum = true)
    (subject : Subject) :
    Tells (subjectUrl U apiKey track artist subject) "ws.audioscrobbler.com".toList "/2.0/".toList
      (subjectPairs U apiKey track artist subject) := by
  have hencode : percentEncode apiKey = apiKey := encodeText_of_kept hkey
  obtain ⟨hbegins, hform⟩ := fixed_parts subject (mem_subjects subject)
  have hsplit : callUrl apiKey (method subject) (params U track artist subject) =
      "https://ws.audioscrobbler.com/2.0/?method=".toList ++ method subject ++
        "&format=json&autocorrect=1&api_key=".toList ++
          (percentEncode apiKey ++ '&' :: params U track artist subject) := by
    rw [hencode]
    unfold callUrl
    generalize "https://ws.audioscrobbler.com/2.0/?method=".toList = start,
      "&format=json&autocorrect=1&api_key=".toList = format
    simp only [List.append_assoc]
    rfl
  rw [subjectUrl_eq, hsplit]
  have hparams : UrlText ('&' :: params U track artist subject) :=
    List.forall_mem_cons.2 ⟨by decide, urlText_params subject⟩
  refine hbegins.tells ((urlText_percentEncode apiKey).append hparams) ?_
  rw [readForm_then (by simp), hform, readForm_params]
  rfl

end Params

end LastFm

/-! ## Genius -/

namespace Genius

theorem begins_search :
    Begins (url "/search?q=".toList) "api.genius.com".toList "/search".toList
      ("q".toList ++ ['=']) := by
  decide +kernel

/-- The text is the one parameter. -/
theorem searchUrl_tells (text : Str) :
    Tells (url ("/search?q=".toList ++ percentEncode text)) "api.genius.com".toList
      "/search".toList [("q".toList, text)] := by
  have hsplit : url ("/search?q=".toList ++ percentEncode text) =
      url "/search?q=".toList ++ percentEncode text := (List.append_assoc _ _ _).symm
  have hname : ∀ c ∈ ['&', '=', '+', '%'], c ∉ "q".toList := by simp
  rw [hsplit]
  exact begins_search.tells (urlText_percentEncode text) (readForm_one rfl hname text)

end Genius

/-! ## Songfacts -/

namespace Songfacts

/-- The segments of the path before the title. -/
def directory : List Str := ["search".toList, "songs".toList]

theorem fixed_parts :
    "https://www.songfacts.com/search/songs/".toList =
        "https".toList ++ ("://".toList ++
          ("www.songfacts.com".toList ++ '/' :: "search/songs/".toList)) ∧
      "search/songs/".toList = "search".toList ++ '/' :: ("songs".toList ++ ['/']) ∧
      UrlText "https://www.songfacts.com/search/songs/".toList ∧
      (∀ segment ∈ directory, ¬ IsDotDot segment ∧ ¬ IsDot segment) ∧
      '%' ∉ "/search/songs/".toList := by
  decide +kernel

/-- A request whose path ends with an encoded title. -/
theorem readRequest_searchUrl (U : UnicodeTables) (song : Str) :
    readRequest (searchUrl U song) =
      { scheme := some "https".toList
        authority := some "www.songfacts.com".toList
        path := resolvePath ('/' :: ("search/songs/".toList ++ percentEncode (toLowercase U song)))
        query := none
        fragment := none } := by
  have hscheme : ∀ c ∈ ['#', '?', ':', '/'], c ∉ "https".toList := by simp
  have hauthority : ∀ c ∈ ['#', '?', '/'], c ∉ "www.songfacts.com".toList := by simp
  have hhash : '#' ∉ "search/songs/".toList ++ percentEncode (toLowercase U song) := by
    rw [List.mem_append, not_or]
    exact ⟨by decide, (urlText_percentEncode _).hash_not_mem⟩
  have hquestion : '?' ∉ "search/songs/".toList ++ percentEncode (toLowercase U song) := by
    rw [List.mem_append, not_or]
    exact ⟨by decide, not_mem_percentEncode (by decide) (by decide) _⟩
  have hread := readUrl_append (by decide) hscheme hauthority
    ("search/songs/".toList ++ percentEncode (toLowercase U song))
  rw [cut_of_not_mem hhash] at hread
  dsimp only at hread
  rw [cut_of_not_mem hquestion] at hread
  have hsplit : searchUrl U song = "https".toList ++ ("://".toList ++
      ("www.songfacts.com".toList ++
        '/' :: ("search/songs/".toList ++ percentEncode (toLowercase U song)))) := by
    have hbase := fixed_parts.1
    unfold searchUrl
    generalize "https://www.songfacts.com/search/songs/".toList = base, "https".toList = scheme,
      "://".toList = colon, "www.songfacts.com".toList = host, "search/songs/".toList = path
      at hbase ⊢
    subst hbase
    simp only [List.append_assoc, List.cons_append]
  rw [hsplit, readRequest, hread]

/-- The title is the last segment, unless it is a dot segment. -/
theorem resolvePath_search (title : Str) :
    resolvePath ('/' :: ("search/songs/".toList ++ percentEncode title)) =
      if title = "..".toList then "/search/".toList
      else if title = ".".toList then "/search/songs/".toList
      else "/search/songs/".toList ++ percentEncode title := by
  obtain ⟨-, hpath, -, hdirectory, -⟩ := fixed_parts
  have hslash : '/' ∉ percentEncode title := not_mem_percentEncode (by decide) (by decide) title
  have hsegments : ("search/songs/".toList ++ percentEncode title).splitOn '/' =
      directory ++ [percentEncode title] := by
    rw [hpath]
    simp only [List.append_assoc, List.cons_append, List.nil_append]
    rw [List.splitOn_append_cons_self, List.splitOn_append_cons_self,
      List.splitOn_eq_singleton (by decide), List.splitOn_eq_singleton (by decide),
      List.splitOn_eq_singleton hslash]
    rfl
  -- the segment is decoded before it is compared
  have hdotdot : IsDotDot (percentEncode title) ↔ title = "..".toList := by
    rw [IsDotDot, decode_percentEncode, utf8_inj]
  have hdot : IsDot (percentEncode title) ↔ title = ".".toList := by
    rw [IsDot, decode_percentEncode, utf8_inj]
  rw [resolvePath, hsegments, removeDots_append hdirectory, removeDots]
  simp only [hdotdot, hdot]
  split_ifs
  · decide
  · decide
  · rw [removeDots, List.append_assoc, directory]
    simp

/-- The title is one segment of the path, whatever slashes it has, and comes after the others. -/
theorem searchUrl_segment (U : UnicodeTables) {song : Str}
    (hdot : toLowercase U song ≠ ".".toList) (hdotdot : toLowercase U song ≠ "..".toList) :
    ∃ segment, '/' ∉ segment ∧
      (readRequest (searchUrl U song)).path = "/search/songs/".toList ++ segment ∧
      decode segment = utf8 (toLowercase U song) := by
  refine ⟨percentEncode (toLowercase U song), ?_, ?_, decode_percentEncode _⟩
  · exact not_mem_percentEncode (by decide) (by decide) _
  · rw [readRequest_searchUrl, resolvePath_search, if_neg hdotdot, if_neg hdot]

/-- The title reaches Songfacts exactly when it is no dot segment. -/
theorem searchUrl_tells_iff (U : UnicodeTables) (song : Str) :
    Tells (searchUrl U song) "www.songfacts.com".toList
        ("/search/songs/".toList ++ toLowercase U song) [] ↔
      toLowercase U song ≠ ".".toList ∧ toLowercase U song ≠ "..".toList := by
  obtain ⟨-, -, hplain, -, hpercent⟩ := fixed_parts
  have hread := readRequest_searchUrl U song
  rw [resolvePath_search] at hread
  constructor
  · intro h
    have hpath := h.path
    rw [hread] at hpath
    constructor
    · intro hdot
      rw [hdot] at hpath
      exact absurd hpath (by decide)
    · intro hdotdot
      rw [hdotdot] at hpath
      exact absurd hpath (by decide)
  · rintro ⟨hdot, hdotdot⟩
    rw [if_neg hdotdot, if_neg hdot] at hread
    constructor
    · exact hplain.append (urlText_percentEncode _)
    · rw [hread]
    · rw [hread]
    · rw [hread]
      dsimp only
      rw [decode_append hpercent, decode_percentEncode, utf8, utf8, utf8, List.flatMap_append]
    · rw [hread]
      rfl
    · rw [hread]

end Songfacts

/-! ## All searches -/

/-- Every search tells its texts, whatever they are, two titles of Songfacts apart. -/
structure SearchesTell (U : UnicodeTables) (apiKey : Str) : Prop where
  article : ∀ lang ∈ Wikipedia.langs, ∀ query, Tells (Wikipedia.searchUrl lang query)
    (lang ++ ".wikipedia.org".toList) "/w/api.php".toList (Wikipedia.searchPairs query)
  page : ∀ lang ∈ Wikipedia.langs, ∀ title, Tells (Wikipedia.pageUrl lang title)
    (lang ++ ".wikipedia.org".toList) "/w/api.php".toList (Wikipedia.pagePairs title)
  /-- One parameter has both texts, with the quotes around them. -/
  recording : ∀ song artist, Tells (MusicBrainz.queryUrl song artist) "musicbrainz.org".toList
    "/ws/2/recording".toList (MusicBrainz.queryPairs song artist)
  entity : ∀ song, Tells (Wikidata.searchUrl song) "www.wikidata.org".toList "/w/api.php".toList
    (Wikidata.searchPairs song)
  facts : ∀ song, Tells (Songfacts.searchUrl U song) "www.songfacts.com".toList
      ("/search/songs/".toList ++ toLowercase U song) [] ↔
    toLowercase U song ≠ ".".toList ∧ toLowercase U song ≠ "..".toList
  /-- A title with slashes is still the last segment, and not several. -/
  last : ∀ song, toLowercase U song ≠ ".".toList → toLowercase U song ≠ "..".toList →
    ∃ segment, '/' ∉ segment ∧
      (readRequest (Songfacts.searchUrl U song)).path = "/search/songs/".toList ++ segment ∧
      decode segment = utf8 (toLowercase U song)
  subject : ∀ track artist subject, Tells (LastFm.subjectUrl U apiKey track artist subject)
    "ws.audioscrobbler.com".toList "/2.0/".toList
    (LastFm.subjectPairs U apiKey track artist subject)
  hit : ∀ text, Tells (Genius.url ("/search?q=".toList ++ percentEncode text))
    "api.genius.com".toList "/search".toList [("q".toList, text)]

/-- **What the searches tell.** Titles, artists and albums with any characters reach the sources in
the parameters made for them and next to no others. In the path of Songfacts a title arrives
exactly when it is no dot segment. -/
theorem searches_tell {U : UnicodeTables} {apiKey : Str}
    (hkey : ∀ c ∈ apiKey, c.isAlphanum = true) : SearchesTell U apiKey where
  article _ hlang query := Wikipedia.searchUrl_tells hlang query
  page _ hlang title := Wikipedia.pageUrl_tells hlang title
  recording song artist := MusicBrainz.queryUrl_tells song artist
  entity song := Wikidata.searchUrl_tells song
  facts song := Songfacts.searchUrl_tells_iff U song
  last _ hdot hdotdot := Songfacts.searchUrl_segment U hdot hdotdot
  subject _ _ subject := LastFm.subjectUrl_tells hkey subject
  hit text := Genius.searchUrl_tells text

/-- An artist that would end the parameter and begin another, and a title that is lost. -/
theorem searches_tell_marked :
    Tells (LastFm.subjectUrl asciiTables "0123456789abcdef".toList
        ⟨"R U Mine?".toList, "AC/DC&track=x#".toList, none⟩ "AC/DC&track=x#".toList .artist)
      "ws.audioscrobbler.com".toList "/2.0/".toList
      [("method".toList, "artist.getInfo".toList), ("format".toList, "json".toList),
        ("autocorrect".toList, "1".toList), ("api_key".toList, "0123456789abcdef".toList),
        ("artist".toList, "AC/DC&track=x#".toList)] ∧
      ¬ Tells (Songfacts.searchUrl asciiTables "..".toList) "www.songfacts.com".toList
        ("/search/songs/".toList ++ toLowercase asciiTables "..".toList) [] := by
  have htell : SearchesTell asciiTables "0123456789abcdef".toList :=
    searches_tell (List.all_eq_true.1 (by decide))
  refine ⟨htell.subject _ _ _, fun h => ?_⟩
  exact ((htell.facts "..".toList).1 h).2 (by decide +kernel)

end AnyPlayerSync.Sources
