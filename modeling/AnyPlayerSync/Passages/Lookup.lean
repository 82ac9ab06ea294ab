import AnyPlayerSync.Keys.Spellings
import AnyPlayerSync.Passages.Jobs
import AnyPlayerSync.Passages.Rewrite

/-!
# Lookups

`passages/api.rs`: the keys that a lookup of a track binds to the query of `candidates`, and what
the query lists. A document that was written in full is listed by every lookup that its row matches,
as long as the query's limit leaves nothing out (`Rewritten.listed`).

Documents and jobs are stored under the key of the base title. `spellings_meet_iff`: when two
spellings of a title are stored under one key.
-/

set_option autoImplicit false

namespace AnyPlayerSync.Passages

open AnyPlayerSync.Foundation
open AnyPlayerSync.Sync (UserId)

variable {V : Type}

/-- The keys of a lookup. -/
def lookupKeys (U : UnicodeTables) (track : TrackRequest) : LookupKeys where
  songKeys := Keys.songKeys U track.song
  artistKeys := Keys.artistKeys U track.artist
  albumKey := track.album.map fun album => Keys.matchKey U (Keys.baseTitle U album)

/-! ## What the query lists -/

section Query

variable {T : Tables V} {keys : LookupKeys} {user : UserId}

theorem mem_matching_iff {candidate : Candidate V} : candidate ∈ T.matching keys user ↔
    ∃ c ∈ T.chunks, ∃ r ∈ T.docs, r.id = c.documentId ∧ keys.Match r ∧
      T.candidate user c r = candidate := by
  simp only [Tables.matching, List.mem_flatMap, List.mem_map, List.mem_filter, decide_eq_true_eq,
    and_assoc]

/-- The query lists what matches. -/
theorem mem_matching_of_mem_candidates {candidate : Candidate V}
    (h : candidate ∈ T.candidates keys user) : candidate ∈ T.matching keys user :=
  List.mem_mergeSort.1 (List.mem_of_mem_take h)

/-- Below the limit it lists all that matches. -/
theorem mem_candidates {candidate : Candidate V}
    (hlimit : (T.matching keys user).length ≤ candidateLimit)
    (h : candidate ∈ T.matching keys user) : candidate ∈ T.candidates keys user := by
  have hlength : ((T.matching keys user).mergeSort fun a b => a.chunkId ≤ b.chunkId).length ≤
      candidateLimit := by rw [List.length_mergeSort]; exact hlimit
  rw [Tables.candidates, List.take_of_length_le hlength]
  exact List.mem_mergeSort.2 h

end Query

/-! ## What is listed of a document -/

/-- The chunk rows of the document store the texts, and whoever looks the keys up is given each of
them under the subject, unless more chunks match than the query's limit. -/
structure Listed (T : Tables V) (keys : LookupKeys) (id : Nat) (subject : Subject)
    (texts : List Str) : Prop where
  texts_eq : (T.chunks.filter fun c => c.documentId = id).map ChunkRow.text = texts
  candidates : ∀ user, (T.matching keys user).length ≤ candidateLimit →
    ∀ c ∈ T.chunks, c.documentId = id → ∃ candidate ∈ T.candidates keys user,
      candidate.chunkId = c.id ∧ candidate.documentId = id ∧ candidate.text = c.text ∧
        candidate.subject = subject

/-- The chunk rows of the document after the full path. -/
theorem Rewritten.filter_chunks {U : UnicodeTables} {hash : Str → Str} {E : Embedder V}
    {T T' : Tables V} {doc : NewDocument} {id : Nat} (h : Rewritten U hash E T doc T' id) :
    Stored (T'.chunks.filter fun c => c.documentId = id) id (chunk E.countTokens doc.body) := by
  obtain ⟨rows, hstored, hchunks⟩ := h.chunks
  have hold : ((T.chunks.filter fun c => c.documentId ≠ id).filter fun c => c.documentId = id) =
      [] := by
    rw [List.filter_eq_nil_iff]
    intro c hc hid
    exact of_decide_eq_true (List.mem_filter.1 hc).2 (of_decide_eq_true hid)
  have hnew : (rows.filter fun c => c.documentId = id) = rows :=
    List.filter_eq_self.2 fun c hc => decide_eq_true (hstored.documentId_eq hc)
  rw [hchunks, List.filter_append, hold, hnew, List.nil_append]
  exact hstored

/-- A document that was written in full is listed under the keys that its row matches. -/
theorem Rewritten.listed {U : UnicodeTables} {hash : Str → Str} {E : Embedder V} {T T' : Tables V}
    {doc : NewDocument} {id : Nat} (h : Rewritten U hash E T doc T' id) {keys : LookupKeys}
    (hmatch : ∀ r, Carries U doc r → keys.Match r) :
    Listed T' keys id doc.subject (chunk E.countTokens doc.body) where
  texts_eq := h.filter_chunks.map_text
  candidates user hlimit c hc hid := by
    obtain ⟨row, hrow, hinserted, hrowId⟩ := h.row
    obtain ⟨hmem, -⟩ := Table.row?_spec hrow
    refine ⟨T'.candidate user c row, mem_candidates hlimit ?_, rfl, hid, rfl,
      hinserted.carries.subject⟩
    exact mem_matching_iff.2 ⟨c, hc, row, hmem, hrowId.trans hid.symm,
      hmatch row hinserted.carries, rfl⟩

/-- The only document of a store is not found under keys that its row does not match. -/
theorem Rewritten.matching_empty {U : UnicodeTables} {hash : Str → Str} {E : Embedder V}
    {T' : Tables V} {doc : NewDocument} {id : Nat}
    (h : Rewritten U hash E Tables.empty doc T' id) {keys : LookupKeys}
    (hmatch : ∀ r, Carries U doc r → ¬ keys.Match r) (user : UserId) :
    T'.matching keys user = [] := by
  refine List.eq_nil_iff_forall_not_mem.2 fun candidate hcandidate => ?_
  obtain ⟨c, -, r, hr, -, hmatches, -⟩ := mem_matching_iff.1 hcandidate
  obtain ⟨row, hinserted, -, -, hdocs⟩ := h.docs
  rw [hdocs] at hr
  rcases Table.mem_put.1 hr with rfl | ⟨hr, -⟩
  · exact hmatch r hinserted.carries hmatches
  · cases hr

/-! ## Spellings of a title -/

section Spellings

open AnyPlayerSync.Keys

/-- **Two spellings of a title** have one base key, and so one job each artist and album, exactly
when they are spelled alike up to their first `" - "`. A lookup of the one then finds what is stored
under the other. -/
theorem spellings_meet_iff {U : UnicodeTables} (hU : PlainMarks U) {t₁ t₂ : Str}
    (h : matchKey U t₁ = matchKey U t₂) :
    (matchKey U (baseTitle U t₁) = matchKey U (baseTitle U t₂) ↔ SpelledAlike U t₁ t₂) ∧
    (SpelledAlike U t₁ t₂ → matchKey U (baseTitle U t₁) ∈ songKeys U t₂) ∧
    ∀ artist album, jobKeys U ⟨t₁, artist, album⟩ = jobKeys U ⟨t₂, artist, album⟩ ↔
      SpelledAlike U t₁ t₂ := by
  have hiff := baseTitle_key_iff hU h
  refine ⟨hiff, fun halike => ?_, fun artist album => ?_⟩
  · rw [hiff.2 halike]
    exact songKey_mem_songKeys U t₂
  · rw [← hiff, jobKeys, jobKeys]
    exact ⟨fun hkeys => congrArg JobKeys.songKey hkeys, fun hkey => by rw [hkey]⟩

theorem spellings_meet_iff_creep :
    SpelledAlike asciiTables "Creep (Live)".toList "CREEP  (live)".toList ∧
    matchKey asciiTables (baseTitle asciiTables "Creep (Live)".toList) ∈
      songKeys asciiTables "CREEP  (live)".toList ∧
    jobKeys asciiTables ⟨"Creep (Live)".toList, "TWICE".toList, none⟩ =
      jobKeys asciiTables ⟨"CREEP  (live)".toList, "TWICE".toList, none⟩ := by
  have hkey : matchKey asciiTables "Creep (Live)".toList =
      matchKey asciiTables "CREEP  (live)".toList := by decide +kernel
  obtain ⟨hiff, hfound, hjobs⟩ := spellings_meet_iff plainMarks_asciiTables hkey
  have halike := hiff.1 (by decide +kernel)
  exact ⟨halike, hfound halike, (hjobs _ none).2 halike⟩

/-- Spellings with another dash: the cut is made in one of them only. -/
theorem creep_en_dash :
    matchKey asciiTables "Creep - Live".toList = matchKey asciiTables "Creep – Live".toList ∧
    matchKey asciiTables (baseTitle asciiTables "Creep - Live".toList) ≠
      matchKey asciiTables (baseTitle asciiTables "Creep – Live".toList) ∧
    matchKey asciiTables (baseTitle asciiTables "Creep - Live".toList) ∉
      songKeys asciiTables "Creep – Live".toList ∧
    jobKeys asciiTables ⟨"Creep - Live".toList, "TWICE".toList, none⟩ ≠
      jobKeys asciiTables ⟨"Creep – Live".toList, "TWICE".toList, none⟩ := by
  decide +kernel

end Spellings

end AnyPlayerSync.Passages
