import AnyPlayerSync.Sources.All
import AnyPlayerSync.Sources.Client

/-!
# Where the sources ask

A source builds its URLs from fixed texts, the texts of the track and what it was answered before.
Whatever those are, it asks its own hosts only, over https (`fetch_congr`), so its client never
refuses a request of its own (`requests_addressed`).
-/

set_option autoImplicit false

namespace AnyPlayerSync.Sources

open AnyPlayerSync.Foundation
open AnyPlayerSync.Passages

/-! ## URLs -/

/-- A URL over https at the host. -/
def At (host url : Str) : Prop := "https://".toList ++ host ++ ['/'] <+: url

instance (host url : Str) : Decidable (At host url) := inferInstanceAs (Decidable (_ <+: url))

/-- What is appended to a URL with its path begun does not change the host. -/
theorem at_append {host base : Str} (h : At host base) (rest : Str) : At host (base ++ rest) :=
  h.trans (List.prefix_append base rest)

section Asks

variable {U : UnicodeTables} {track : TrackRequest} {scope : Scope}

/-! ## Wikipedia -/

namespace Wikipedia

/-- The host of a language. -/
def host (lang : Str) : Str := lang ++ ".wikipedia.org".toList

theorem api_path : ".wikipedia.org/w/api.php".toList =
    ".wikipedia.org".toList ++ '/' :: "w/api.php".toList := by decide +kernel

theorem at_api (lang : Str) : At (host lang) (api lang) := by
  have hpath := api_path
  unfold At host api
  -- the literals stay folded
  generalize "https://".toList = scheme, ".wikipedia.org".toList = domain,
    "w/api.php".toList = path, ".wikipedia.org/w/api.php".toList = endpoint at hpath ⊢
  subst hpath
  exact ⟨path, by simp only [List.append_assoc, List.cons_append, List.nil_append]⟩

variable {lang : Str}

theorem at_searchUrl (query : Str) : At (host lang) (searchUrl lang query) :=
  at_append (at_append (at_api lang) _) _

theorem at_pageUrl (title : Str) : At (host lang) (pageUrl lang title) :=
  at_append (at_append (at_api lang) _) _

/-- By induction on the titles. -/
theorem asks_tryTitles (search : Search) (titles : List Str) :
    Asks (At (host lang)) (search.tryTitles U lang titles) := by
  induction titles with
  | nil => exact asks_pure none
  | cons title titles ih =>
      refine asks_bind (asks_getJson (at_pageUrl title)) fun v => ?_
      split
      · exact ih
      · split_ifs
        · exact asks_pure _
        · exact ih

/-- By induction on the searches. -/
theorem asks_findAll (searches : List Search) :
    Asks (At (host lang)) (findAll U lang searches) := by
  induction searches with
  | nil => exact asks_pure []
  | cons search searches ih =>
      have hfind : Asks (At (host lang)) (search.find U lang) :=
        asks_bind (asks_getJson (at_searchUrl _)) fun found => asks_tryTitles search _
      exact asks_bind hfind fun found => asks_bind ih fun docs => asks_pure _

theorem asks_fetchLang : Asks (At (host lang)) (fetchLang U lang track scope) := asks_findAll _

end Wikipedia

/-! ## MusicBrainz -/

namespace MusicBrainz

/-- The host of MusicBrainz. -/
def host : Str := "musicbrainz.org".toList

theorem at_bases :
    At host "https://musicbrainz.org/ws/2/recording?fmt=json&limit=25&query=".toList ∧
      At host "https://musicbrainz.org/ws/2/recording/".toList ∧
      At host "https://musicbrainz.org/ws/2/work/".toList := by
  decide +kernel

theorem at_queryUrl (song artist : Str) : At host (queryUrl song artist) := at_append at_bases.1 _

theorem at_recordingUrl (id : Str) : At host (recordingUrl id) :=
  at_append (at_append at_bases.2.1 id) _

theorem at_workUrl (work : Str) : At host (workUrl work) :=
  at_append (at_append at_bases.2.2 work) _

theorem asks_fetchWorks (song : Str) (works : List Str) :
    Asks (At host) (fetchWorks song works) := by
  induction works with
  | nil => exact asks_pure []
  | cons work works ih =>
      exact asks_bind (asks_getJson (at_workUrl work)) fun w =>
        asks_bind ih fun rest => asks_pure _

theorem asks_tryIds (artist : Str) (ids : List Str) :
    Asks (At host) (tryIds U track artist ids) := by
  induction ids with
  | nil => exact asks_pure none
  | cons id ids ih =>
      refine asks_bind (asks_getJson (at_recordingUrl id)) fun recording => ?_
      dsimp only
      split_ifs
      · exact asks_bind (asks_fetchWorks _ _) fun works => asks_pure _
      · exact ih

theorem asks_tryArtists (artists : List Str) : Asks (At host) (tryArtists U track artists) := by
  induction artists with
  | nil => exact asks_pure []
  | cons artist artists ih =>
      refine asks_bind (asks_getJson (at_queryUrl _ _)) fun found =>
        asks_bind (asks_tryIds artist _) fun doc => ?_
      cases doc with
      | some doc => exact asks_pure _
      | none => exact ih

theorem asks_fetch : Asks (At host) (fetch U track scope) := asks_fetchIf (asks_tryArtists _)

end MusicBrainz

/-! ## Wikidata -/

namespace Wikidata

/-- The host of Wikidata. -/
def host : Str := "www.wikidata.org".toList

theorem at_bases :
    At host "https://www.wikidata.org/w/api.php?action=wbsearchentities&search=".toList ∧
      At host "https://www.wikidata.org/w/api.php?action=wbgetentities&ids=".toList := by
  decide +kernel

theorem at_searchUrl (song : Str) : At host (searchUrl song) :=
  at_append (at_append at_bases.1 _) _

theorem at_entitiesUrl (ids : List Str) : At host (entitiesUrl ids) :=
  at_append (at_append at_bases.2 _) _

theorem asks_tryIds (entities : Json) (ids : List Str) :
    Asks (At host) (tryIds U track entities ids) := by
  induction ids with
  | nil => exact asks_pure []
  | cons id ids ih =>
      rw [tryIds]
      split_ifs
      · exact ih
      · refine asks_bind (asks_getJson (at_entitiesUrl _)) fun labels => ?_
        dsimp only
        split
        · exact asks_pure _
        · exact ih

theorem asks_fetch : Asks (At host) (fetch U track scope) := by
  refine asks_fetchIf (asks_bind (asks_getJson (at_searchUrl _)) fun search => ?_)
  dsimp only
  split_ifs
  · exact asks_pure []
  · exact asks_bind (asks_getJson (at_entitiesUrl _)) fun entities => asks_tryIds entities _

end Wikidata

/-! ## Songfacts -/

/-- The selector takes links to facts only. -/
def Html.SelectsFacts (html : Html) : Prop :=
  ∀ page, ∀ link ∈ html.links page, "/facts/".toList <+: link.href

namespace Songfacts

/-- The host of Songfacts. -/
def host : Str := "www.songfacts.com".toList

theorem at_bases : At host "https://www.songfacts.com/search/songs/".toList ∧
    At host ("https://www.songfacts.com".toList ++ "/facts/".toList) := by
  decide +kernel

theorem at_searchUrl (song : Str) : At host (searchUrl U song) := at_append at_bases.1 _

/-- The pages that are asked for are those that the selector takes. -/
theorem findResult_href {html : Html} {search song artist : Str} {found : Str × Str}
    (h : findResult U html search song artist = some found) :
    ∃ link ∈ html.links search, link.href = found.1 := by
  obtain ⟨link, hlink, hmatch⟩ := List.exists_of_findSome?_eq_some h
  refine ⟨link, hlink, ?_⟩
  rw [matchLink] at hmatch
  split_ifs at hmatch
  obtain ⟨a, -, rfl⟩ := Option.map_eq_some_iff.1 hmatch
  rfl

theorem at_page {path : Str} (h : "/facts/".toList <+: path) :
    At host ("https://www.songfacts.com".toList ++ path) := by
  have hfacts := at_bases.2
  obtain ⟨rest, rfl⟩ := h
  generalize "https://www.songfacts.com".toList = site, "/facts/".toList = facts at hfacts ⊢
  rw [← List.append_assoc]
  exact at_append hfacts rest

theorem asks_fetch {html : Html} (hhtml : html.SelectsFacts) :
    Asks (At host) (fetch U html track scope) := by
  refine asks_fetchIf (asks_bind (asks_getText (at_searchUrl _)) fun search => ?_)
  split
  · exact asks_pure []
  · rename_i path artist hfound
    obtain ⟨link, hlink, hhref⟩ := findResult_href hfound
    have hpath : "/facts/".toList <+: path := by
      have := hhtml search link hlink
      rwa [hhref] at this
    refine asks_bind (asks_getText (at_page hpath)) fun page => ?_
    dsimp only
    split_ifs
    · exact asks_pure []
    · exact asks_pure _

end Songfacts

/-! ## Last.fm -/

namespace LastFm

/-- The host of Last.fm. -/
def host : Str := "ws.audioscrobbler.com".toList

variable {apiKey : Str}

theorem at_method : At host "https://ws.audioscrobbler.com/2.0/?method=".toList := by
  decide +kernel

theorem at_callUrl (method params : Str) : At host (callUrl apiKey method params) :=
  at_append (at_append (at_append (at_append (at_append at_method _) _) _) _) _

theorem at_subjectUrl (artist : Str) (subject : Subject) :
    At host (subjectUrl U apiKey track artist subject) := by
  cases subject with
  | song => exact at_callUrl _ _
  | album => exact at_callUrl _ _
  | artist => exact at_callUrl _ _

theorem asks_fetchSubjects (artist : Str) (subjects : List Subject) :
    Asks (At host) (fetchSubjects U apiKey track artist subjects) := by
  induction subjects with
  | nil => exact asks_pure []
  | cons subject subjects ih =>
      exact asks_bind (asks_getJson (at_subjectUrl artist subject)) fun v =>
        asks_bind ih fun docs => asks_pure _

theorem asks_tryArtists (artists : List Str) :
    Asks (At host) (tryArtists U apiKey track scope artists) := by
  induction artists with
  | nil => exact asks_pure []
  | cons artist artists ih =>
      refine asks_bind (asks_fetchSubjects artist _) fun docs => ?_
      split_ifs
      · exact ih
      · exact asks_pure _

theorem asks_fetch : Asks (At host) (fetch U apiKey track scope) := asks_tryArtists _

end LastFm

/-! ## Genius -/

namespace Genius

/-- The host of Genius. -/
def host : Str := "api.genius.com".toList

theorem at_root : At host ("https://api.genius.com".toList ++ ['/']) := by decide +kernel

theorem at_url {path : Str} (h : ['/'] <+: path) : At host (url path) := by
  have hroot := at_root
  obtain ⟨rest, rfl⟩ := h
  unfold url
  generalize "https://api.genius.com".toList = site at hroot ⊢
  rw [← List.append_assoc]
  exact at_append hroot rest

theorem slash_append {base : Str} (h : ['/'] <+: base) (rest : Str) : ['/'] <+: base ++ rest :=
  h.trans (List.prefix_append base rest)

theorem songs_path : ['/'] <+: "/songs/".toList := by decide

theorem referents_path : ['/'] <+: "/referents?song_id=".toList := by decide

theorem artists_path : ['/'] <+: "/artists/".toList := by decide

theorem search_path : ['/'] <+: "/search?q=".toList := by decide

theorem asks_fetchSong (hit : Hit) : Asks (At host) (fetchSong U track hit) := by
  refine asks_bind (asks_getJson (at_url (slash_append (slash_append songs_path _) _)))
    fun song => asks_bind
      (asks_getJson (at_url (slash_append (slash_append referents_path _) _))) fun refs => ?_
  dsimp only
  split_ifs
  · exact asks_pure _
  · exact asks_pure _

theorem asks_fetchArtist (hit : Hit) : Asks (At host) (fetchArtist hit) := by
  refine asks_bind (asks_getJson (at_url (slash_append (slash_append artists_path _) _)))
    fun a => ?_
  split
  · exact asks_pure _
  · exact asks_pure _

theorem asks_fetch : Asks (At host) (fetch U track scope) := by
  rw [fetch]
  split_ifs
  · exact asks_pure []
  · refine asks_bind (asks_getJson (at_url (slash_append search_path _))) fun search => ?_
    split
    · exact asks_pure []
    · exact asks_bind (asks_fetchIf (asks_fetchSong _)) fun songs =>
        asks_bind (asks_fetchIf (asks_fetchArtist _)) fun artists => asks_pure _

end Genius

end Asks

/-! ## All sources -/

/-- The client of a source, by its name, or of Wikipedia in a language. -/
def client (name : Str) : SourceHttp :=
  if name ∈ Wikipedia.langs then ⟨[Wikipedia.host name], 1000, textCap⟩
  else if name = "musicbrainz".toList then ⟨[MusicBrainz.host], 1000, jsonCap⟩
  else if name = "wikidata".toList then ⟨[Wikidata.host], 1000, jsonCap⟩
  else if name = "songfacts".toList then ⟨[Songfacts.host], 5000, textCap⟩
  else if name = "lastfm".toList then ⟨[LastFm.host], 1000, jsonCap⟩
  else if name = "genius".toList then ⟨[Genius.host], 1000, jsonCap⟩
  -- nobody asks for another one
  else ⟨[], 0, 0⟩

/-- The URLs that the client is for. -/
def SourceHttp.Own (http : SourceHttp) (url : Str) : Prop := ∃ host ∈ http.hosts, At host url

instance (http : SourceHttp) (url : Str) : Decidable (http.Own url) :=
  inferInstanceAs (Decidable (∃ host ∈ http.hosts, At host url))

section All

variable {U : UnicodeTables} {html : Html} {webs webs' : Str → Web} {track : TrackRequest}
  {scope : Scope}

/-- A program that asks the host of its client. -/
theorem result_congr {α : Type} {x : Fetch α} {host : Str} (hx : Asks (At host) x) {name : Str}
    (hhost : host ∈ (client name).hosts)
    (h : ∀ name, AgreeOn (client name).Own (webs name) (webs' name)) :
    x.result (webs name) = x.result (webs' name) :=
  hx.result fun n url hurl => h name n url ⟨host, hhost, hurl⟩

/-- Answers from elsewhere make no difference to Wikipedia, language by language. -/
theorem wikipedia_fetch_congr (h : ∀ name, AgreeOn (client name).Own (webs name) (webs' name)) :
    Wikipedia.fetch U webs track scope = Wikipedia.fetch U webs' track scope := by
  have hlang : ∀ lang ∈ Wikipedia.langs,
      (Wikipedia.fetchLang U lang track scope).result (webs lang) =
        (Wikipedia.fetchLang U lang track scope).result (webs' lang) := by
    intro lang hlang
    refine result_congr Wikipedia.asks_fetchLang ?_ h
    rw [client, if_pos hlang]
    exact List.mem_singleton_self _
  simp only [Wikipedia.langs, List.map_cons, List.map_nil, List.forall_mem_cons] at hlang
  obtain ⟨hen, hja, hko, -⟩ := hlang
  simp only [Wikipedia.fetch, Wikipedia.langs, List.map_cons, List.map_nil, List.mapM_cons,
    List.mapM_nil, hen, hja, hko]

/-- Each source asks the host of its client. -/
theorem mem_client_hosts :
    MusicBrainz.host ∈ (client "musicbrainz".toList).hosts ∧
      Wikidata.host ∈ (client "wikidata".toList).hosts ∧
      Songfacts.host ∈ (client "songfacts".toList).hosts ∧
      LastFm.host ∈ (client "lastfm".toList).hosts ∧
      Genius.host ∈ (client "genius".toList).hosts := by
  decide +kernel

/-- What a source returns is up to the answers to its own URLs. -/
theorem fetch_congr (hhtml : html.SelectsFacts) (config : Config)
    (h : ∀ name, AgreeOn (client name).Own (webs name) (webs' name)) (name : Str) :
    fetch U html config webs name track scope = fetch U html config webs' name track scope := by
  obtain ⟨hmusicbrainzHost, hwikidataHost, hsongfactsHost, hlastfmHost, hgeniusHost⟩ :=
    mem_client_hosts
  unfold fetch
  split_ifs with hwikipedia hmusicbrainz hwikidata hsongfacts hlastfm hgenius
  · exact wikipedia_fetch_congr h
  · subst hmusicbrainz
    exact result_congr MusicBrainz.asks_fetch hmusicbrainzHost h
  · subst hwikidata
    exact result_congr Wikidata.asks_fetch hwikidataHost h
  · subst hsongfacts
    exact result_congr (Songfacts.asks_fetch hhtml) hsongfactsHost h
  · subst hlastfm
    cases config.lastfmKey with
    | none => rfl
    | some apiKey => exact result_congr LastFm.asks_fetch hlastfmHost h
  · subst hgenius
    cases config.geniusToken with
    | none => rfl
    | some token => exact result_congr Genius.asks_fetch hgeniusHost h
  · rfl

end All

/-! ## The check of a client -/

/-- The answers without the check of a URL. -/
def uncheckedWeb (L : HttpLibrary) (http : SourceHttp) (transport : Transport) : Web where
  json n url := (receive L http (transport n url)).bind fun body =>
    (L.parseJson body).mapError fun e => .permanent ("bad JSON: ".toList ++ e)
  text n url := (receive L http (transport n url)).map L.decodeLossy

/-- A URL of one of the hosts is read as such, whatever its path, query and fragment. -/
def HttpLibrary.ReadsHosts (L : HttpLibrary) : Prop :=
  ∀ name, ∀ host ∈ (client name).hosts, ∀ url, At host url →
    ∃ path, L.parse url = .ok ⟨"https".toList, some host, path⟩

section Check

variable {U : UnicodeTables} {html : Html} {L : HttpLibrary}
  {transports transports' : Str → Transport}

theorem allowed_of_own (hL : L.ReadsHosts) {name url : Str} (h : (client name).Own url) :
    Allowed L (client name) url := by
  obtain ⟨host, hhost, hurl⟩ := h
  obtain ⟨path, hpath⟩ := hL name host hhost url hurl
  exact ⟨_, host, hpath, rfl, rfl, hhost⟩

/-- The check lets a URL of the client's own hosts pass. -/
theorem getBytes_own (hL : L.ReadsHosts) {name url : Str} (h : (client name).Own url)
    (transport : Transport) (n : Nat) :
    getBytes L (client name) transport n url = receive L (client name) (transport n url) := by
  rw [getBytes, check_ok_iff.2 (allowed_of_own hL h)]

/-- **The sources ask their own hosts only.** For any track, and whatever the answers were before,
a source returns what it would return without the check of its client, and no answer from anywhere
else makes a difference. -/
theorem requests_addressed (hL : L.ReadsHosts) (hhtml : html.SelectsFacts)
    (h : ∀ name n url, (client name).Own url → transports name n url = transports' name n url)
    (config : Config) (name : Str) (track : TrackRequest) (scope : Scope) :
    fetch U html config (fun name => webOf L (client name) (transports name)) name track scope =
      fetch U html config (fun name => uncheckedWeb L (client name) (transports' name)) name track
        scope := by
  refine fetch_congr hhtml config (fun name n url hurl => ?_) name
  have hbytes : getBytes L (client name) (transports name) n url =
      receive L (client name) (transports' name n url) := by
    rw [getBytes_own hL hurl, h name n url hurl]
  simp only [webOf, uncheckedWeb, hbytes, and_self]

end Check

/-! ## A network with a wall -/

/-- No character ends the host. -/
def endless (host : Str) : Bool := host.all fun c => c != '#' && c != '?' && c != '/'

theorem not_mem_of_endless {host : Str} (h : endless host = true) :
    ∀ c ∈ ['#', '?', '/'], c ∉ host := by
  intro c hc hmem
  have hall := List.all_eq_true.1 h c hmem
  simp only [List.mem_cons, List.not_mem_nil, or_false] at hc
  rcases hc with rfl | rfl | rfl <;> simp at hall

theorem wikipedia_endless : ∀ lang ∈ Wikipedia.langs, endless (Wikipedia.host lang) = true := by
  decide +kernel

/-- No host has a character that ends it. -/
theorem client_hosts_endless (name : Str) : ((client name).hosts.all endless) = true := by
  rw [client]
  split_ifs with hlang
  · rw [List.all_cons, wikipedia_endless name hlang]
    rfl
  · rfl
  · rfl
  · rfl
  · rfl
  · rfl
  · rfl

/-- The plain library reads hosts as they stand. -/
theorem plainLibrary_readsHosts : plainLibrary.ReadsHosts := by
  intro name host hhost url hurl
  obtain ⟨rest, rfl⟩ := hurl
  have hscheme : ∀ c ∈ ['#', '?', ':', '/'], c ∉ "https".toList := by simp
  have hread := Percent.readUrl_append (by decide) hscheme
    (not_mem_of_endless (List.all_eq_true.1 (client_hosts_endless name) host hhost)) rest
  have hsplit : "https://".toList ++ host ++ ['/'] ++ rest =
      "https".toList ++ ("://".toList ++ (host ++ '/' :: rest)) := by
    simp only [List.append_assoc, List.cons_append, List.nil_append]
    rfl
  rw [hsplit]
  simp only [plainLibrary, hread, Option.getD_some]
  exact ⟨_, rfl⟩

/-- Every request is answered with the same page. -/
def page : Transport := fun _ _ => .ok ⟨200, [.ok [60, 112, 62]]⟩

/-- The other hosts are out of reach. -/
def walled (name : Str) : Transport := fun n url =>
  if (client name).Own url then page n url else .error ⟨"connection refused".toList, some url⟩

/-- Genius returns the same from behind the wall. -/
theorem requests_addressed_walled :
    let html : Html := ⟨fun _ => [⟨"/facts/radiohead/creep".toList, [], []⟩], fun _ => []⟩
    let config : Config := ⟨none, some "token".toList⟩
    let track : TrackRequest := ⟨"Creep".toList, "Radiohead".toList, none⟩
    fetch asciiTables html config (fun name => webOf plainLibrary (client name) (walled name))
        "genius".toList track ⟨true, true, true⟩ =
      fetch asciiTables html config (fun name => uncheckedWeb plainLibrary (client name) page)
        "genius".toList track ⟨true, true, true⟩ :=
  requests_addressed plainLibrary_readsHosts
    (by intro page link hlink; rw [List.mem_singleton.1 hlink]; decide +kernel)
    (fun _ _ _ hurl => if_pos hurl) _ _ _ _

end AnyPlayerSync.Sources
