import AnyPlayerSync.Keys.Credits
import AnyPlayerSync.Sources.All
import AnyPlayerSync.Sources.Articles

/-!
# What the sources return for a track

A document is covered by a track when its artist has a key of the track's credit and its song or
album is the track's. Five sources take the artist of a document from the parts of the credit, so
their documents are covered. Wikipedia looks each part up again as a credit of its own: its
documents are covered as long as no part that it looks up splits further (`SplitsOnce`).
-/

set_option autoImplicit false

namespace AnyPlayerSync.Sources

open AnyPlayerSync.Foundation
open AnyPlayerSync.Foundation.Text
open AnyPlayerSync.Passages

variable {U : UnicodeTables} {track : TrackRequest} {scope : Scope}

variable (U) in
/-- A lookup of the track tries the keys of the document. -/
structure Covered (track : TrackRequest) (d : NewDocument) : Prop where
  artist : Keys.matchKey U d.artist ∈ Keys.artistKeys U track.artist
  song : d.subject = .song → d.song = some track.song
  album : d.subject = .album → d.album = track.album ∧ track.album ≠ none

/-- A song document whose artist is a part of the credit. -/
theorem covered_song {d : NewDocument} (hsubject : d.subject = .song)
    (hsong : d.song = some track.song) (hartist : d.artist ∈ Keys.artistParts U track.artist) :
    Covered U track d where
  artist := Keys.matchKey_mem_artistKeys U hartist
  song _ := hsong
  album h := by rw [hsubject] at h; cases h

/-- An artist document whose artist is a part of the credit. -/
theorem covered_artist {d : NewDocument} (hsubject : d.subject = .artist)
    (hartist : d.artist ∈ Keys.artistParts U track.artist) : Covered U track d where
  artist := Keys.matchKey_mem_artistKeys U hartist
  song h := by rw [hsubject] at h; cases h
  album h := by rw [hsubject] at h; cases h

/-! ## Sources that take the artist from the credit -/

namespace MusicBrainz

/-- By induction on the candidates. -/
theorem tryIds_covered {artist : Str} (hartist : artist ∈ Keys.artistParts U track.artist)
    {d : NewDocument} (ids : List Str) (h : Yields (tryIds U track artist ids) (some d)) :
    Covered U track d := by
  induction ids with
  | nil => cases yields_pure h
  | cons id ids ih =>
      obtain ⟨v, -, h⟩ := yields_bind h
      split_ifs at h
      · obtain ⟨works, -, h⟩ := yields_bind h
        cases yields_pure h
        exact covered_song rfl rfl hartist
      · exact ih h

/-- By induction on the artists. -/
theorem tryArtists_covered {docs : List NewDocument} (artists : List Str)
    (hartists : ∀ a ∈ artists, a ∈ Keys.artistParts U track.artist)
    (h : Yields (tryArtists U track artists) docs) : ∀ d ∈ docs, Covered U track d := by
  induction artists with
  | nil =>
      exact yields_nil h
  | cons artist artists ih =>
      obtain ⟨found, -, h⟩ := yields_bind h
      obtain ⟨d?, hd, h⟩ := yields_bind h
      cases d? with
      | none => exact ih (fun a ha => hartists a (List.mem_cons_of_mem _ ha)) h
      | some doc =>
          exact yields_singleton h (tryIds_covered (hartists artist List.mem_cons_self) _ hd)

/-- What MusicBrainz returns is covered. -/
theorem fetch_covered {docs : List NewDocument} (h : Yields (fetch U track scope) docs) :
    ∀ d ∈ docs, Covered U track d := by
  exact yields_fetchIf_forall h fun h => tryArtists_covered _ (fun _ ha => ha) h

end MusicBrainz

namespace Wikidata

theorem tryIds_covered {entities : Json} {docs : List NewDocument} (ids : List Str)
    (h : Yields (tryIds U track entities ids) docs) : ∀ d ∈ docs, Covered U track d := by
  induction ids with
  | nil =>
      exact yields_nil h
  | cons id ids ih =>
      rw [tryIds] at h
      dsimp only at h
      split_ifs at h
      · exact ih h
      · obtain ⟨labels, -, h⟩ := yields_bind h
        cases hp : performer U track.artist labels
            (claimIds ((entities.index "entities".toList).index id) "P175".toList) with
        | none =>
            rw [hp] at h
            exact ih h
        | some artist =>
            rw [hp] at h
            exact yields_singleton h (covered_song rfl rfl (List.mem_of_find?_eq_some hp))

/-- What Wikidata returns is covered. -/
theorem fetch_covered {docs : List NewDocument} (h : Yields (fetch U track scope) docs) :
    ∀ d ∈ docs, Covered U track d := by
  refine yields_fetchIf_forall h fun h => ?_
  obtain ⟨search, -, h⟩ := yields_bind h
  dsimp only at h
  split_ifs at h
  · exact yields_nil h
  · obtain ⟨entities, -, h⟩ := yields_bind h
    exact tryIds_covered _ h

end Wikidata

namespace Songfacts

/-- The artist of a link is one of the credit. -/
theorem findResult_credited {html : Html} {page song credit path artist : Str}
    (h : findResult U html page song credit = some (path, artist)) :
    artist ∈ Keys.artistParts U credit := by
  obtain ⟨link, -, hlink⟩ := List.exists_of_findSome?_eq_some h
  rw [matchLink] at hlink
  split_ifs at hlink
  obtain ⟨a, ha, heq⟩ := Option.map_eq_some_iff.1 hlink
  cases heq
  exact List.mem_of_find?_eq_some ha

/-- What Songfacts returns is covered. -/
theorem fetch_covered {html : Html} {docs : List NewDocument}
    (h : Yields (fetch U html track scope) docs) : ∀ d ∈ docs, Covered U track d := by
  refine yields_fetchIf_forall h fun h => ?_
  obtain ⟨search, -, h⟩ := yields_bind h
  cases hr : findResult U html search (Keys.baseTitle U track.song) track.artist with
  | none =>
      rw [hr] at h
      exact yields_nil h
  | some found =>
      obtain ⟨path, artist⟩ := found
      rw [hr] at h
      obtain ⟨page, -, h⟩ := yields_bind h
      dsimp only at h
      split_ifs at h
      · exact yields_nil h
      · exact yields_singleton h (covered_song rfl rfl (findResult_credited hr))

end Songfacts

namespace LastFm

/-- A document is made of the track and of texts of the response. -/
theorem parse_document {v : Json} {subject : Subject} {artist : Str} {d : NewDocument}
    (h : parse U v subject track artist = some d) :
    ∃ name url body, d = document track subject artist name url body := by
  simp only [parse, Option.bind_eq_bind, Option.bind_eq_some_iff] at h
  obtain ⟨_, -, name, -, ok, -, _, -, text, -, h⟩ := h
  split_ifs at h
  exact ⟨name, _, _, (Option.some.inj h).symm⟩

theorem parse_covered {v : Json} {subject : Subject} {artist : Str} {d : NewDocument}
    (hartist : artist ∈ Keys.artistParts U track.artist)
    (halbum : subject = .album → track.album ≠ none)
    (h : parse U v subject track artist = some d) : Covered U track d := by
  obtain ⟨name, url, body, rfl⟩ := parse_document h
  exact ⟨Keys.matchKey_mem_artistKeys U hartist, fun hs => if_pos hs, fun ha => ⟨rfl, halbum ha⟩⟩

theorem wantedSubjects_album {subject : Subject} (h : subject ∈ wantedSubjects track scope)
    (halbum : subject = .album) : track.album ≠ none := by
  subst halbum
  rcases List.mem_append.1 h with h | h
  · rcases List.mem_append.1 h with h | h
    · split_ifs at h <;> simp at h
    · split_ifs at h with hscope
      · exact hscope.2
      · cases h
  · split_ifs at h <;> simp at h

theorem fetchSubjects_covered {apiKey artist : Str}
    (hartist : artist ∈ Keys.artistParts U track.artist) (subjects : List Subject) :
    ∀ docs, (∀ subject ∈ subjects, subject = .album → track.album ≠ none) →
      Yields (fetchSubjects U apiKey track artist subjects) docs →
        ∀ d ∈ docs, Covered U track d := by
  induction subjects with
  | nil =>
      intro docs _ h
      exact yields_nil h
  | cons subject subjects ih =>
      intro docs halbum h
      obtain ⟨v, -, h⟩ := yields_bind h
      obtain ⟨rest, hrest, h⟩ := yields_bind h
      cases yields_pure h
      intro d hd
      rcases List.mem_append.1 hd with hd | hd
      · exact parse_covered hartist (halbum subject List.mem_cons_self) (Option.mem_toList.1 hd)
      · exact ih rest (fun s hs => halbum s (List.mem_cons_of_mem _ hs)) hrest d hd

theorem tryArtists_covered {apiKey : Str} {docs : List NewDocument} (artists : List Str)
    (hartists : ∀ a ∈ artists, a ∈ Keys.artistParts U track.artist)
    (h : Yields (tryArtists U apiKey track scope artists) docs) :
    ∀ d ∈ docs, Covered U track d := by
  induction artists with
  | nil =>
      exact yields_nil h
  | cons artist artists ih =>
      obtain ⟨found, hfound, h⟩ := yields_bind h
      split_ifs at h
      · exact ih (fun a ha => hartists a (List.mem_cons_of_mem _ ha)) h
      · cases yields_pure h
        exact fetchSubjects_covered (hartists artist List.mem_cons_self) _ _
          (fun _ hs => wantedSubjects_album hs) hfound

/-- What Last.fm returns is covered. -/
theorem fetch_covered {apiKey : Str} {docs : List NewDocument}
    (h : Yields (fetch U apiKey track scope) docs) : ∀ d ∈ docs, Covered U track d :=
  tryArtists_covered _ (fun _ ha => ha) h

end LastFm

namespace Genius

/-- The artist of a hit is one of the credit. -/
theorem pickHit_credited {search : Json} {song credit : Str} {hit : Hit}
    (h : pickHit U search song credit = some hit) : hit.artist ∈ Keys.artistParts U credit := by
  simp only [pickHit, Option.bind_eq_bind, Option.bind_eq_some_iff] at h
  obtain ⟨_, -, hits, -, h⟩ := h
  obtain ⟨hitJson, -, h⟩ := List.exists_of_findSome?_eq_some h
  simp only [matchHit, Option.bind_eq_bind, Option.bind_eq_some_iff] at h
  obtain ⟨_, -, primary, -, artist, hartist, title, -, h⟩ := h
  split_ifs at h
  cases h
  exact List.mem_of_find?_eq_some hartist

theorem fetchSong_covered {hit : Hit} (hhit : hit.artist ∈ Keys.artistParts U track.artist)
    {docs : List NewDocument} (h : Yields (fetchSong U track hit) docs) :
    ∀ d ∈ docs, Covered U track d := by
  obtain ⟨song, -, h⟩ := yields_bind h
  obtain ⟨refs, -, h⟩ := yields_bind h
  dsimp only at h
  split_ifs at h
  · exact yields_nil h
  · exact yields_singleton h (covered_song rfl rfl hhit)

theorem fetchArtist_covered {hit : Hit} (hhit : hit.artist ∈ Keys.artistParts U track.artist)
    {docs : List NewDocument} (h : Yields (fetchArtist hit) docs) :
    ∀ d ∈ docs, Covered U track d := by
  obtain ⟨a, -, h⟩ := yields_bind h
  cases hb : description ((a.index "response".toList).index "artist".toList) with
  | none =>
      rw [hb] at h
      exact yields_nil h
  | some body =>
      rw [hb] at h
      exact yields_singleton h (covered_artist rfl hhit)

/-- What Genius returns is covered. -/
theorem fetch_covered {docs : List NewDocument} (h : Yields (fetch U track scope) docs) :
    ∀ d ∈ docs, Covered U track d := by
  rw [fetch] at h
  split_ifs at h
  · exact yields_nil h
  · obtain ⟨search, -, h⟩ := yields_bind h
    cases hh : pickHit U search (Keys.baseTitle U track.song) track.artist with
    | none =>
        rw [hh] at h
        exact yields_nil h
    | some hit =>
        rw [hh] at h
        have hhit := pickHit_credited hh
        obtain ⟨songs, hsongs, h⟩ := yields_bind h
        obtain ⟨artists, hartists, h⟩ := yields_bind h
        cases yields_pure h
        intro d hd
        rcases List.mem_append.1 hd with hd | hd
        · exact yields_fetchIf_forall hsongs (fetchSong_covered hhit) d hd
        · exact yields_fetchIf_forall hartists (fetchArtist_covered hhit) d hd

end Genius

/-! ## Wikipedia -/

namespace Wikipedia

variable (U) in
/-- The credit names several artists, or one however it is trimmed. -/
def SplitsOnce (credit : Str) : Prop :=
  1 < (Keys.artistParts U credit).length ∨
    (Keys.artistParts U (trim credit)).length = 1

instance (credit : Str) : Decidable (SplitsOnce U credit) :=
  inferInstanceAs (Decidable (_ ∨ _))

/-- An artist that is looked up is a part of the credit, and splits no further. -/
theorem individuals_single {credit a : Str} (hcredit : SplitsOnce U credit)
    (ha : a ∈ individuals U credit) :
    a ∈ Keys.artistParts U credit ∧ Keys.artistParts U a = [trim a] := by
  obtain ⟨extras, hparts, hfree⟩ := Keys.artistParts_cons U credit
  rw [individuals] at ha
  split_ifs at ha with hseveral
  · -- a part that was cut off has no separator
    rw [hparts, List.tail_cons] at ha
    exact ⟨hparts ▸ List.mem_cons_of_mem _ ha, Keys.artistParts_of_free U (hfree a ha)⟩
  · -- the credit as a whole
    have hnone : extras = [] := by
      rw [hparts, List.length_cons] at hseveral
      exact List.eq_nil_of_length_eq_zero (by omega)
    have hone : (Keys.artistParts U (trim credit)).length = 1 := hcredit.resolve_left hseveral
    rw [hparts, hnone, List.mem_singleton] at ha
    subst ha
    obtain ⟨more, hmore, -⟩ := Keys.artistParts_cons U (trim credit)
    rw [hmore, List.length_cons] at hone
    refine ⟨Keys.trim_mem_artistParts U credit, ?_⟩
    rw [hmore, List.eq_nil_of_length_eq_zero (Nat.succ.inj hone)]

/-- A document is stored under an artist of the credit that the search was for, or that credit. -/
theorem credited_cases (search : Search) (text : Str) :
    search.credited U text ∈ Keys.artistParts U search.track.artist ∨
      search.credited U text = search.track.artist := by
  rw [Search.credited]
  cases h : namedArtist U text search.track.artist with
  | none => exact Or.inr Option.getD_none
  | some a =>
      rw [namedArtist] at h
      rw [Option.getD_some]
      exact Or.inl (List.mem_reverse.1 (List.mem_of_find?_eq_some h))

/-- Searches with the track's own credit. -/
theorem credited_key {search : Search} (hartist : search.track.artist = track.artist)
    (text : Str) :
    Keys.matchKey U (search.credited U text) ∈ Keys.artistKeys U track.artist := by
  rcases credited_cases (U := U) search text with h | h
  · rw [hartist] at h
    exact Keys.matchKey_mem_artistKeys U h
  · rw [h, hartist]
    exact Keys.credit_mem_artistKeys U track.artist

/-- The search for one artist, whose credit is that artist. -/
theorem artistSearch_key {a : Str} (hcredit : SplitsOnce U track.artist)
    (ha : a ∈ individuals U track.artist) (text : Str) :
    Keys.matchKey U ((artistSearch U track a).credited U text) ∈
      Keys.artistKeys U track.artist := by
  obtain ⟨hmem, hsingle⟩ := individuals_single hcredit ha
  have hkey := Keys.matchKey_mem_artistKeys U hmem
  have hcredited : (artistSearch U track a).track.artist = a := by rw [artistSearch]
  rcases credited_cases (U := U) (artistSearch U track a) text with h | h
  · rw [hcredited, hsingle, List.mem_singleton] at h
    rw [h, Keys.matchKey_trim]
    exact hkey
  · rw [h, hcredited]
    exact hkey

theorem document_covered {search : Search} (hcredit : SplitsOnce U track.artist)
    (hsearch : search ∈ searches U track scope) (lang : Str) (page : Str × Str) :
    Covered U track (search.document U lang page) := by
  -- the song and the album search have the track's credit, an artist search has one of its parts
  rcases mem_searches hsearch with rfl | ⟨album, halbum, rfl⟩ | ⟨a, ha, rfl⟩
  · refine ⟨credited_key (by rw [songSearch]) page.2, ?_, ?_⟩
    · simp [songSearch]
    · simp [songSearch]
  · refine ⟨credited_key (by rw [albumSearch]) page.2, ?_, ?_⟩
    · simp [albumSearch]
    · simp [albumSearch, halbum]
  · refine ⟨artistSearch_key hcredit ha page.2, ?_, ?_⟩
    · simp [artistSearch]
    · simp [artistSearch]

theorem fetchLang_covered {lang : Str} {docs : List NewDocument}
    (hcredit : SplitsOnce U track.artist) (h : Yields (fetchLang U lang track scope) docs) :
    ∀ d ∈ docs, Covered U track d := by
  obtain ⟨found, hsub, -, rfl⟩ := findAll_yields _ _ h
  intro d hd
  obtain ⟨p, hp, rfl⟩ := List.mem_map.1 hd
  exact document_covered hcredit (hsub.subset (List.mem_map_of_mem hp)) lang p.2

/-- The answers of the languages, when all of them succeed. -/
theorem perLang_yields {webs : Str → Web} {langs : List Str} : ∀ {perLang},
    (langs.mapM fun lang => (fetchLang U lang track scope).result (webs lang)) = .ok perLang →
    ∀ docs ∈ perLang, ∃ lang, Yields (fetchLang U lang track scope) docs := by
  induction langs with
  | nil =>
      intro perLang h docs hdocs
      cases h
      cases hdocs
  | cons lang langs ih =>
      intro perLang h docs hdocs
      rw [List.mapM_cons] at h
      cases hfirst : (fetchLang U lang track scope).result (webs lang) with
      | error e => rw [hfirst] at h; cases h
      | ok first =>
          cases hrest : langs.mapM fun lang =>
              (fetchLang U lang track scope).result (webs lang) with
          | error e => rw [hfirst, hrest] at h; cases h
          | ok rest =>
              rw [hfirst, hrest] at h
              cases h
              rcases List.mem_cons.1 hdocs with rfl | hdocs
              · exact ⟨lang, yields_of_result hfirst⟩
              · exact ih hrest docs hdocs

/-- What Wikipedia returns is covered, when the credit splits once. -/
theorem fetch_covered {webs : Str → Web} {docs : List NewDocument}
    (hcredit : SplitsOnce U track.artist) (h : fetch U webs track scope = .ok docs) :
    ∀ d ∈ docs, Covered U track d := by
  rw [fetch] at h
  cases hlangs : langs.mapM fun lang => (fetchLang U lang track scope).result (webs lang) with
  | error e => rw [hlangs] at h; cases h
  | ok perLang =>
      rw [hlangs] at h
      cases h
      intro d hd
      obtain ⟨found, hfound, hd⟩ := List.mem_flatten.1 hd
      obtain ⟨lang, hyields⟩ := perLang_yields hlangs found hfound
      exact fetchLang_covered hcredit hyields d hd

end Wikipedia

/-! ## All sources -/

/-- Whatever a source returns for a track is covered by it, when no part of the credit that is
looked up splits further. -/
theorem fetch_covered {html : Html} {config : Config} {webs : Str → Web} {name : Str}
    {docs : List NewDocument} (hcredit : Wikipedia.SplitsOnce U track.artist)
    (h : fetch U html config webs name track scope = .ok docs) : ∀ d ∈ docs, Covered U track d := by
  rw [fetch] at h
  split_ifs at h
  · exact Wikipedia.fetch_covered hcredit h
  · exact MusicBrainz.fetch_covered (yields_of_result h)
  · exact Wikidata.fetch_covered (yields_of_result h)
  · exact Songfacts.fetch_covered (yields_of_result h)
  · cases hkey : config.lastfmKey with
    | none =>
        rw [hkey] at h
        cases h
        intro _ h
        cases h
    | some apiKey =>
        rw [hkey] at h
        exact LastFm.fetch_covered (yields_of_result h)
  · cases htoken : config.geniusToken with
    | none =>
        rw [htoken] at h
        cases h
        intro _ h
        cases h
    | some token =>
        rw [htoken] at h
        exact Genius.fetch_covered (yields_of_result h)

end AnyPlayerSync.Sources
