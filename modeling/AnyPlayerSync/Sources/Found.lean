import AnyPlayerSync.Passages.Lookup
import AnyPlayerSync.Sources.Coverage

/-!
# What is ingested is found

A document is written under keys that ingest derives from it, and looked up under keys that a lookup
derives from the track. Covered documents have keys that the lookup tries, so they are found.

The exception is a credit that `artist_parts` leaves whole while it splits the trimmed credit. Such
a credit begins or ends with a separator's space: `artist_parts` cuts the credit as it was given,
`fetch_lang` looks the trimmed credit up as one artist, and `named_artist` cuts that again. The
document of an article on one of the parts is stored under a key that no lookup of the track tries
(`ingest_found_iff`).
-/

set_option autoImplicit false

namespace AnyPlayerSync.Sources

open AnyPlayerSync.Foundation
open AnyPlayerSync.Foundation.Text
open AnyPlayerSync.Passages
open AnyPlayerSync.Sync (Time UserId)

variable {U : UnicodeTables} {track : TrackRequest}

variable (U) in
/-- Whatever a source answers for the track: a document that is not blank, and that is not stored
yet or with another body, is listed for the track once it is written. -/
def IngestFound (track : TrackRequest) : Prop :=
  ∀ (html : Html) (config : Config) (webs : Str → Web) (name : Str) (scope : Scope)
    (docs : List NewDocument), fetch U html config webs name track scope = .ok docs →
    ∀ d ∈ docs, ¬ Blank d.body →
    ∀ (V : Type) (hash : Str → Str) (E : Embedder V) (s : Store V) (addedBy : Option UserId)
      (now : Time) (T' : Tables V) (id : Nat),
      (∀ r ∈ s.tables.docs, r.key = d.key → r.contentHash ≠ hash d.body) →
      upsertDocument U hash E s.tables d addedBy now = .ok (T', id) →
      Listed T' (lookupKeys U track) id d.subject (chunk E.countTokens d.body)

/-! ## Covered documents -/

/-- The keys of a covered document are among those of the lookup. -/
theorem Covered.match {d : NewDocument} {r : DocumentRow} (h : Covered U track d)
    (hr : Carries U d r) : (lookupKeys U track).Match r := by
  have hartist : r.artistKey ∈ Keys.artistKeys U track.artist := by
    rw [hr.artistKey]
    exact h.artist
  rw [lookupKeys]
  cases hsubject : d.subject with
  | song =>
      have hsong : r.songKey = some (Keys.matchKey U (Keys.baseTitle U track.song)) := by
        rw [hr.songKey, h.song hsubject, Option.map_some]
      exact Or.inl ⟨hr.subject.trans hsubject, ⟨_, Keys.songKey_mem_songKeys U track.song, hsong⟩,
        hartist⟩
  | album =>
      obtain ⟨halbum, hsome⟩ := h.album hsubject
      have hkey := hr.albumKey
      rw [halbum] at hkey
      exact Or.inr (Or.inl ⟨hr.subject.trans hsubject, mt Option.map_eq_none_iff.1 hsome, hkey,
        hartist⟩)
  | artist => exact Or.inr (Or.inr ⟨hr.subject.trans hsubject, hartist⟩)

theorem ingestFound_of_splitsOnce (hcredit : Wikipedia.SplitsOnce U track.artist) :
    IngestFound U track := by
  intro html config webs name scope docs hdocs d hd _ V hash E s addedBy now T' id hold hok
  have hcovered : Covered U track d := fetch_covered hcredit hdocs d hd
  rcases upsertDocument_cases U hash E s.tables d addedBy now with
    ⟨r, hr, hhash, -⟩ | ⟨-, hfull⟩
  · obtain ⟨hmem, hkey⟩ := Table.row?_spec hr
    exact absurd hhash (hold r hmem hkey)
  · rw [hfull] at hok
    exact (rewriteDocument_rewritten s.valid hok).listed fun r hr => hcovered.match hr

/-! ## A part of the trimmed credit -/

namespace Wikipedia

/-- A credit that is whole as given, and has a part with another key once it is trimmed. -/
theorem exists_part_of_trim {credit : Str} (h : ¬ SplitsOnce U credit) :
    Keys.artistKeys U credit = [Keys.matchKey U credit] ∧
      individuals U credit = [trim credit] ∧
      ∃ p parts, (Keys.artistParts U (trim credit)).reverse = p :: parts ∧
        Keys.matchKey U p ≠ Keys.matchKey U credit := by
  obtain ⟨hseveral, hone⟩ := not_or.1 h
  obtain ⟨extras, hparts, -⟩ := Keys.artistParts_cons U credit
  have hwhole : Keys.artistParts U credit = [trim credit] := by
    rw [hparts, List.length_cons] at hseveral
    rw [hparts, List.eq_nil_of_length_eq_zero (by omega : extras.length = 0)]
  obtain ⟨more, hmore, -⟩ := Keys.artistParts_cons U (trim credit)
  have hne : more ≠ [] := by
    rintro rfl
    exact hone (by rw [hmore]; rfl)
  refine ⟨?_, ?_, more.getLast hne, more.dropLast.reverse ++ [trim (trim credit)], ?_, ?_⟩
  · rw [Keys.artistKeys, hwhole, List.map_singleton, Keys.matchKey_trim]
  · rw [individuals, hwhole]
    rfl
  · rw [hmore, List.reverse_cons, ← List.cons_append, ← List.reverse_concat,
      List.dropLast_concat_getLast hne]
  · -- the keys of the parts are different, and the first has the key of the credit
    have hkeys := Keys.artistParts_keys U (trim credit)
    rw [hmore, List.map_cons, List.nodup_cons, Keys.matchKey_trim, Keys.matchKey_trim] at hkeys
    intro heq
    exact hkeys.1 (heq ▸ List.mem_map_of_mem (List.getLast_mem hne))

/-- An article on a part of a credit is credited to it. -/
theorem namedArtist_bandText {credit p : Str} {parts : List Str}
    (h : (Keys.artistParts U credit).reverse = p :: parts) :
    namedArtist U (bandText p) credit = some p := by
  rw [namedArtist, h]
  refine List.find?_cons_of_pos (p := fun a => contains (key U (bandText p)) (key U a)) ?_
  exact decide_eq_true (Keys.matchKey_infix_word_cons U isWord_band p)

/-- The stored text of such an article. -/
theorem not_blank_bandText (credit : Str) :
    ¬ Blank (truncateBody (stripWikiSections (bandText credit)) maxBodyBytes) := by
  have hbegin : "band".toList <+: bandText credit := List.prefix_append _ _
  have hsections := prefix_stripWikiSections isWord_band (by decide) hbegin
  obtain ⟨rest, hrest⟩ := prefix_truncateBody isWord_band (by decide : _ ≤ maxBodyBytes) hsections
  intro hblank
  rw [← hrest] at hblank
  exact isWord_band.not_blank hblank.of_append_left

/-- The document that every language makes of an article on a part of the credit. -/
theorem exists_lost_document {track : TrackRequest} (h : ¬ SplitsOnce U track.artist) :
    ∃ webs docs, fetch U webs track ⟨true, false, true⟩ = .ok docs ∧
      ∃ d ∈ docs, d.subject = .artist ∧ ¬ Blank d.body ∧
        Keys.matchKey U d.artist ∉ Keys.artistKeys U track.artist := by
  obtain ⟨hkeys, hindividuals, p, parts, hreverse, hother⟩ := exists_part_of_trim h
  have hwanted : (artistSearch U track (trim track.artist)).wanted = trim track.artist := by
    rw [artistSearch]
  have hcredit : (artistSearch U track (trim track.artist)).track.artist = trim track.artist := by
    rw [artistSearch]
  -- an article with the name of the credit, on the part that `named_artist` prefers
  have hfetch : fetch U (fun lang => articleWeb lang (Keys.baseTitle U (trim track.artist))
      (bandText p)) track ⟨true, false, true⟩ =
        .ok (langs.map fun lang => (searches U track ⟨true, false, true⟩).filterMap
          (Search.inArticle U lang (Keys.baseTitle U (trim track.artist))
            (bandText p))).flatten := by
    rw [fetch]
    simp only [fetchLang_article]
    rfl
  refine ⟨_, _, hfetch, (artistSearch U track (trim track.artist)).document U "en".toList
    (Keys.baseTitle U (trim track.artist), bandText p), ?_, ?_, ?_, ?_⟩
  · have hsearch : artistSearch U track (trim track.artist) ∈
        searches U track ⟨true, false, true⟩ := by
      apply List.mem_append_right
      rw [if_pos rfl, hindividuals]
      exact List.mem_singleton_self _
    have haccepts : (artistSearch U track (trim track.artist)).Accepts U
        (Keys.baseTitle U (trim track.artist), bandText p) := by
      constructor
      · rw [hwanted]
        exact titleMatches_of_key_eq rfl
      · rw [artistSearch]
        exact isArtistArticle_bandText p
    refine List.mem_flatten.2 ⟨_, List.mem_map.2 ⟨"en".toList, by decide, rfl⟩, ?_⟩
    exact List.mem_filterMap.2 ⟨_, hsearch, if_pos haccepts⟩
  · rw [Search.document_subject, artistSearch]
  · rw [Search.document_body]
    exact not_blank_bandText p
  · rw [Search.document_artist, Search.credited, hcredit, namedArtist_bandText hreverse,
      Option.getD_some, hkeys, List.mem_singleton]
    exact hother

end Wikipedia

/-- A document of an artist that the lookup does not try. -/
theorem not_match {d : NewDocument} {r : DocumentRow} (hr : Carries U d r)
    (hsubject : d.subject = .artist)
    (hartist : Keys.matchKey U d.artist ∉ Keys.artistKeys U track.artist) :
    ¬ (lookupKeys U track).Match r := by
  rw [← hr.artistKey] at hartist
  rintro (⟨hsong, -⟩ | ⟨halbum, -⟩ | ⟨-, hkey⟩)
  · rw [hr.subject, hsubject] at hsong
    cases hsong
  · rw [hr.subject, hsubject] at halbum
    cases halbum
  · exact hartist hkey

theorem splitsOnce_of_ingestFound (h : IngestFound U track) :
    Wikipedia.SplitsOnce U track.artist := by
  by_contra hcredit
  obtain ⟨webs, docs, hfetch, d, hd, hsubject, hbody, hartist⟩ :=
    Wikipedia.exists_lost_document hcredit
  -- the document is written to an empty store, where no lookup of the track finds it
  obtain ⟨⟨T', id⟩, hok⟩ := upsertDocument_ok U (fun body => body) unitEmbedder_ok Tables.empty
    d none 0
  have hrewritten : Rewritten U (fun body => body) unitEmbedder Tables.empty d T' id :=
    rewriteDocument_rewritten Tables.valid_empty hok
  have hnone : ∀ user, T'.matching (lookupKeys U track) user = [] :=
    hrewritten.matching_empty fun r hr => not_match hr hsubject hartist
  have hlisted := h ⟨fun _ => [], fun _ => []⟩ ⟨none, none⟩ webs "wikipedia".toList
    ⟨true, false, true⟩ docs hfetch d hd hbody Unit (fun body => body) unitEmbedder
    ⟨Tables.empty, Tables.valid_empty⟩ none 0 T' id (fun _ hr => nomatch hr) hok
  obtain ⟨text, htext⟩ := List.exists_mem_of_ne_nil (chunk unitEmbedder.countTokens d.body)
    (chunk_ne_nil hbody)
  rw [← hlisted.texts_eq] at htext
  obtain ⟨c, hc, -⟩ := List.mem_map.1 htext
  obtain ⟨hc, hid⟩ := List.mem_filter.1 hc
  obtain ⟨candidate, hcandidate, -⟩ := hlisted.candidates 0
    (by rw [hnone]; exact Nat.zero_le _) c hc (of_decide_eq_true hid)
  have hmatching := mem_matching_of_mem_candidates hcandidate
  rw [hnone] at hmatching
  cases hmatching

/-- **What is ingested is found** exactly when the credit names several artists as it was given, or
one once it is trimmed. -/
theorem ingest_found_iff (U : UnicodeTables) (track : TrackRequest) :
    IngestFound U track ↔ Wikipedia.SplitsOnce U track.artist :=
  ⟨splitsOnce_of_ingestFound, ingestFound_of_splitsOnce⟩

/-- A credit that is one artist as given, and two once it is trimmed. -/
def featComma : TrackRequest where
  song := "Thriller".toList
  artist := " feat. ,".toList
  album := none

theorem feat_comma_not_found : ¬ IngestFound asciiTables featComma :=
  fun h => absurd (splitsOnce_of_ingestFound h) (by decide +kernel)

end AnyPlayerSync.Sources
