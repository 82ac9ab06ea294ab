import AnyPlayerSync.Passages.Worker
import AnyPlayerSync.Sources.All
import AnyPlayerSync.Sources.Requests
import Mathlib.Data.List.Forall2

/-!
# Secrets

The key of Last.fm is part of the URLs that are asked for, and an error of the transport names its
URL. Two runs of the ingest with different keys, whose transports answer alike up to the URLs in
their errors, record the same: neither a document nor an outcome of a job depends on the key
(`attempt_hides_keys`). The token of Genius travels in a header, which no answer repeats.
-/

set_option autoImplicit false

namespace AnyPlayerSync.Sources

open AnyPlayerSync.Foundation
open AnyPlayerSync.Passages

/-! ## Answers up to the URLs in errors -/

/-- Two answers to the read of a chunk that differ in the URL of an error only. -/
inductive SameRead : Except RequestError (List UInt8) → Except RequestError (List UInt8) → Prop
  | failed {e e' : RequestError} (text : e.text = e'.text) : SameRead (.error e) (.error e')
  | read (chunk : List UInt8) : SameRead (.ok chunk) (.ok chunk)

/-- Two answers to a request that differ in the URLs of errors only. -/
inductive Alike : Except RequestError HttpResponse → Except RequestError HttpResponse → Prop
  | failed {e e' : RequestError} (text : e.text = e'.text) : Alike (.error e) (.error e')
  | answered (status : Nat) {chunks chunks' : List (Except RequestError (List UInt8))}
      (reads : List.Forall₂ SameRead chunks chunks') :
      Alike (.ok ⟨status, chunks⟩) (.ok ⟨status, chunks'⟩)

/-- What `check` reads of a URL comes before its query. -/
def HttpLibrary.IgnoresQuery (L : HttpLibrary) : Prop :=
  ∀ base query query' : Str, '?' ∉ base → '#' ∉ base →
    L.parse (base ++ '?' :: query) = L.parse (base ++ '?' :: query')

section Answers

variable {L : HttpLibrary} {http : SourceHttp} {transport transport' : Transport}

theorem withoutUrl_toStr (e : RequestError) : e.withoutUrl.toStr = e.text := rfl

theorem readBody_sameRead {maxBytes : Nat} {chunks chunks' : List (Except RequestError (List UInt8))}
    (h : List.Forall₂ SameRead chunks chunks') :
    ∀ body, readBody maxBytes body chunks = readBody maxBytes body chunks' := by
  induction h with
  | nil => exact fun body => rfl
  | cons hread _ ih =>
      intro body
      cases hread with
      | failed text => simp only [readBody, withoutUrl_toStr, text]
      | read chunk => simp only [readBody, ih]

theorem receive_alike {sent sent' : Except RequestError HttpResponse} (h : Alike sent sent') :
    receive L http sent = receive L http sent' := by
  cases h with
  | failed text => simp only [receive, withoutUrl_toStr, text]
  | answered status reads => simp only [receive, readBody_sameRead reads]

theorem getBytes_alike (hL : L.IgnoresQuery) {base query query' : Str} (hquery : '?' ∉ base)
    (hfragment : '#' ∉ base) {n : Nat}
    (h : Alike (transport n (base ++ '?' :: query)) (transport' n (base ++ '?' :: query'))) :
    getBytes L http transport n (base ++ '?' :: query) =
      getBytes L http transport' n (base ++ '?' :: query') := by
  have hcheck : check L http (base ++ '?' :: query) = check L http (base ++ '?' :: query') := by
    rw [check, check, hL base query query' hquery hfragment]
  rw [getBytes, getBytes, hcheck, receive_alike h]

end Answers

/-! ## Last.fm -/

namespace LastFm

/-- The URL before the query. -/
def endpoint : Str := "https://ws.audioscrobbler.com/2.0/".toList

/-- The query of a call. -/
def callQuery (apiKey method params : Str) : Str :=
  "method=".toList ++ method ++ "&format=json&autocorrect=1&api_key=".toList ++ apiKey ++
    "&".toList ++ params

theorem endpoint_append : "https://ws.audioscrobbler.com/2.0/?method=".toList =
    endpoint ++ '?' :: "method=".toList := by decide +kernel

theorem callUrl_eq (apiKey method params : Str) :
    callUrl apiKey method params = endpoint ++ '?' :: callQuery apiKey method params := by
  have h := endpoint_append
  unfold callUrl callQuery
  -- the literals stay folded
  generalize "https://ws.audioscrobbler.com/2.0/?method=".toList = start,
    "method=".toList = name, "&format=json&autocorrect=1&api_key=".toList = format,
    "&".toList = ampersand, endpoint = host at h ⊢
  subst h
  simp only [List.append_assoc, List.cons_append]

/-- The two transports answer alike the calls that differ in their key only. -/
def AnswersAlike (transport transport' : Transport) (apiKey apiKey' : Str) : Prop :=
  ∀ n method params,
    Alike (transport n (callUrl apiKey method params)) (transport' n (callUrl apiKey' method params))

section Keys

variable {U : UnicodeTables} {L : HttpLibrary} {http : SourceHttp} {apiKey apiKey' : Str}
  {transport transport' : Transport} {track : TrackRequest}

theorem json_alike (hL : L.IgnoresQuery) (h : AnswersAlike transport transport' apiKey apiKey')
    (n : Nat) (method params : Str) :
    (webOf L http transport).json n (callUrl apiKey method params) =
      (webOf L http transport').json n (callUrl apiKey' method params) := by
  have hn := h n method params
  rw [callUrl_eq, callUrl_eq] at hn ⊢
  simp only [webOf, @getBytes_alike L http transport transport' hL _ _ _ (by decide) (by decide) n hn]

/-- The same answers for the requests of each subject. -/
def SameSubjects (U : UnicodeTables) (apiKey apiKey' : Str) (web web' : Web)
    (track : TrackRequest) : Prop :=
  ∀ n artist subject, web.json n (subjectUrl U apiKey track artist subject) =
    web'.json n (subjectUrl U apiKey' track artist subject)

theorem sameSubjects_of_alike (hL : L.IgnoresQuery)
    (h : AnswersAlike transport transport' apiKey apiKey') :
    SameSubjects U apiKey apiKey' (webOf L http transport) (webOf L http transport') track := by
  intro n artist subject
  cases subject <;> exact json_alike hL h n _ _

variable {web web' : Web}

theorem fetchSubjects_same (h : SameSubjects U apiKey apiKey' web web' track) (artist : Str)
    (subjects : List Subject) : ∀ n,
    fetchSubjects U apiKey track artist subjects web n =
      fetchSubjects U apiKey' track artist subjects web' n := by
  induction subjects with
  | nil => exact fun n => rfl
  | cons subject subjects ih =>
      intro n
      apply bind_same
      · rw [getJson, getJson, h n artist subject]
      · intro v m
        exact bind_same (ih m) fun docs m => rfl

theorem tryArtists_same (h : SameSubjects U apiKey apiKey' web web' track) (scope : Scope)
    (artists : List Str) : ∀ n,
    tryArtists U apiKey track scope artists web n =
      tryArtists U apiKey' track scope artists web' n := by
  induction artists with
  | nil => exact fun n => rfl
  | cons artist artists ih =>
      intro n
      apply bind_same (fetchSubjects_same h artist _ n)
      intro docs m
      split_ifs
      · exact ih m
      · rfl

end Keys

end LastFm

/-! ## An attempt -/

/-- `Sources::names`. -/
def names (config : Config) : List Str :=
  ["wikipedia", "musicbrainz", "wikidata", "songfacts"].map String.toList ++
    (if config.lastfmKey.isSome then ["lastfm".toList] else []) ++
    (if config.geniusToken.isSome then ["genius".toList] else [])

/-- The results of an attempt at a job with the configured sources; `scopes` are the scopes that
`scope_for` answers, `stored` what comes of storing the documents. -/
def attempt (U : UnicodeTables) (html : Html) (config : Config) (webs : Str → Web)
    (scopes : Str → Scope) (stored : Str → Nat → Option Str) (job : Job) : StrMap Json :=
  attemptResults job.results (pendingSources (names config) job.results) fun name =>
    ⟨fetch U html config webs name job.track (scopes name), stored name⟩

section Attempt

variable {U : UnicodeTables} {html : Html} {L : HttpLibrary} {http : SourceHttp}
  {apiKey apiKey' token token' : Str} {transport transport' : Transport}

/-- The clients of all sources but Last.fm answer the same. -/
def withLastfm (webs : Str → Web) (web : Web) (name : Str) : Web :=
  if name = "lastfm".toList then web else webs name

/-- The languages of Wikipedia are no name of another source. -/
theorem wikipedia_fetch_withLastfm (webs : Str → Web) (web : Web) (track : TrackRequest)
    (scope : Scope) :
    Wikipedia.fetch U (withLastfm webs web) track scope = Wikipedia.fetch U webs track scope := by
  have hen : withLastfm webs web "en".toList = webs "en".toList := if_neg (by decide)
  have hja : withLastfm webs web "ja".toList = webs "ja".toList := if_neg (by decide)
  have hko : withLastfm webs web "ko".toList = webs "ko".toList := if_neg (by decide)
  simp only [Wikipedia.fetch, Wikipedia.langs, List.map_cons, List.map_nil, List.mapM_cons,
    List.mapM_nil, hen, hja, hko]

theorem fetch_lastfm (token : Option Str) (webs : Str → Web) (track : TrackRequest)
    (scope : Scope) :
    fetch U html ⟨some apiKey, token⟩ webs "lastfm".toList track scope =
      (LastFm.fetch U apiKey track scope).result (webs "lastfm".toList) := by
  rw [fetch, if_neg (by decide), if_neg (by decide), if_neg (by decide), if_neg (by decide),
    if_pos rfl]

theorem fetch_same (hL : L.IgnoresQuery)
    (h : LastFm.AnswersAlike transport transport' apiKey apiKey') (webs : Str → Web) (name : Str)
    (track : TrackRequest) (scope : Scope) :
    fetch U html ⟨some apiKey, some token⟩ (withLastfm webs (webOf L http transport)) name track
        scope =
      fetch U html ⟨some apiKey', some token'⟩ (withLastfm webs (webOf L http transport')) name track
        scope := by
  by_cases hname : name = "lastfm".toList
  · subst hname
    have hsame : LastFm.SameSubjects U apiKey apiKey' (webOf L http transport)
        (webOf L http transport') track := LastFm.sameSubjects_of_alike hL h
    have hlastfm := LastFm.tryArtists_same hsame scope (Keys.artistParts U track.artist) 0
    rw [fetch_lastfm, fetch_lastfm, withLastfm, withLastfm, if_pos rfl, if_pos rfl, LastFm.fetch,
      LastFm.fetch, Fetch.result, Fetch.result, hlastfm]
  · simp only [fetch, wikipedia_fetch_withLastfm, withLastfm, if_neg hname]

/-- **Keys stay out of what is stored.** Two attempts at a job that differ in their keys, and for
which Last.fm answers alike up to the URLs in its errors, leave the same results. -/
theorem attempt_hides_keys (hL : L.IgnoresQuery)
    (h : LastFm.AnswersAlike transport transport' apiKey apiKey') (webs : Str → Web)
    (scopes : Str → Scope) (stored : Str → Nat → Option Str) (job : Job) :
    attempt U html ⟨some apiKey, some token⟩ (withLastfm webs (webOf L http transport)) scopes stored
        job =
      attempt U html ⟨some apiKey', some token'⟩ (withLastfm webs (webOf L http transport')) scopes
        stored job := by
  simp only [attempt, @fetch_same U html L http apiKey apiKey' token token' transport transport' hL h]
  rfl

end Attempt

/-! ## A network that comes and goes -/

/-- Of three requests one is answered, one breaks off in its body and one does not get through; the
errors name their URL. -/
def unsteady : Transport := fun n url =>
  if n % 3 = 0 then .ok ⟨200, [.ok (Percent.utf8 "\x7b\x7d".toList)]⟩
  else if n % 3 = 1 then
    .ok ⟨200, [.ok (Percent.utf8 "\x7b".toList), .error ⟨"error reading a body".toList, some url⟩]⟩
  else .error ⟨"error sending request".toList, some url⟩

theorem unsteady_alike (apiKey apiKey' : Str) :
    LastFm.AnswersAlike unsteady unsteady apiKey apiKey' := by
  intro n method params
  rw [unsteady, unsteady]
  split_ifs
  · exact .answered 200 (.cons (.read _) .nil)
  · exact .answered 200 (.cons (.read _) (.cons (.failed rfl) .nil))
  · exact .failed rfl

theorem plainLibrary_ignoresQuery : plainLibrary.IgnoresQuery := by
  intro base query query' hquery hfragment
  have hread : ∀ query, (Percent.cut '?' (Percent.cut '#' (base ++ '?' :: query)).1).1 = base := by
    intro query
    have hmark : Percent.cut '#' ('?' :: query) = ('?' :: (Percent.cut '#' query).1, _) :=
      Percent.cut_append (s := ['?']) (by decide) query
    rw [Percent.cut_append hfragment, hmark, Percent.cut_append hquery, Percent.cut_cons_self,
      List.append_nil]
  simp only [plainLibrary, Percent.readUrl, hread]

/-- The client of Last.fm. -/
def lastfmClient : SourceHttp := ⟨["ws.audioscrobbler.com".toList], 1000, jsonCap⟩

/-- Two servers with different keys leave the same. -/
theorem attempt_hides_keys_unsteady :
    let webs (http : SourceHttp) : Web := webOf plainLibrary http unsteady
    let attemptWith (apiKey token : String) : StrMap Json :=
      attempt asciiTables ⟨fun _ => [], fun _ => []⟩ ⟨some apiKey.toList, some token.toList⟩
        (withLastfm (fun _ => webs wikipediaClient) (webs lastfmClient))
        (fun _ => ⟨true, true, true⟩) (fun _ _ => none)
        ⟨1, ⟨"Creep".toList, "Radiohead".toList, none⟩, 1, []⟩
    attemptWith "0123456789abcdef" "first" = attemptWith "fedcba9876543210" "second" :=
  attempt_hides_keys plainLibrary_ignoresQuery (unsteady_alike _ _) _ _ _ _

end AnyPlayerSync.Sources
