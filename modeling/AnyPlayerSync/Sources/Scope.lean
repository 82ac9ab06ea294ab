import AnyPlayerSync.Keys.Credits
import AnyPlayerSync.Passages.Jobs
import AnyPlayerSync.Passages.Store
import AnyPlayerSync.Sources.Wikipedia

/-!
# What is fetched again

`scope_for` of `passages/worker.rs`: the subjects that a job fetches from a source, given the
documents that are fresh. Each of its queries sees the tables of its own moment, or fails, which
counts as not fresh.

The loop asks for every entry of `artist_parts`, the credit itself included, where Wikipedia looks
up the individual artists of a credit of several. So when all of these are fresh, a credit of one
artist is not fetched again, and a credit of several is, unless a fresh document has the key of the
whole credit (`wikipedia_artist_scope_iff`).
-/

set_option autoImplicit false

namespace AnyPlayerSync.Sources

open AnyPlayerSync.Foundation
open AnyPlayerSync.Passages
open AnyPlayerSync.Sync (Time)

/-! ## Queries -/

/-- The column that `fresh` compares. -/
def keyColumn (r : DocumentRow) : Subject → Option Str
  | .song => r.songKey
  | .album => r.albumKey
  | .artist => some r.artistKey

/-- The `WHERE` clause of `fresh`. No source has a wildcard in its name, so `LIKE` compares a
beginning. -/
def FreshRow (now : Time) (source : Str) (subject : Subject) (key : Str) (artistKeys : List Str)
    (r : DocumentRow) : Prop :=
  source <+: r.source ∧ r.subject = subject ∧ keyColumn r subject = some key ∧
    r.artistKey ∈ artistKeys ∧ now - 30 * day < r.fetchedAt

instance (now : Time) (source : Str) (subject : Subject) (key : Str) (artistKeys : List Str)
    (r : DocumentRow) : Decidable (FreshRow now source subject key artistKeys r) :=
  inferInstanceAs (Decidable (_ ∧ _))

/-- The documents and the time that a query sees. -/
structure View where
  docs : List DocumentRow
  now : Time

/-- A fresh document is there. -/
def View.fresh (v : View) (source : Str) (subject : Subject) (key : Str)
    (artistKeys : List Str) : Bool :=
  v.docs.any fun r => FreshRow v.now source subject key artistKeys r

section Scopes

variable (U : UnicodeTables) (views : Nat → Option View)

/-- `fresh(...).await.unwrap_or(false)`, for the `n`-th query. -/
def freshOr (n : Nat) (source : Str) (subject : Subject) (key : Str) (artistKeys : List Str) :
    Bool :=
  (views n).any fun v => v.fresh source subject key artistKeys

/-- The loop over the artists of a credit, from the `n`-th query on. -/
def artistsFresh (source : Str) (credited : List Str) : Nat → List Str → Bool
  | _, [] => true
  | n, artist :: artists =>
      freshOr views n source .artist (Keys.matchKey U artist) credited &&
        artistsFresh source credited (n + 1) artists

/-- What is fetched of a track: the song always, the album and the artists unless fresh. -/
def scopeFor (source : Str) (track : TrackRequest) : Scope :=
  let credited := Keys.artistKeys U track.artist
  let artists := Keys.artistParts U track.artist
  let artistFresh := artistsFresh U views source credited 0 artists
  let albumFresh := match track.album with
    | some album =>
        freshOr views artists.length source .album (Keys.matchKey U (Keys.baseTitle U album))
          credited
    | none => true
  ⟨true, !albumFresh, !artistFresh⟩

end Scopes

/-! ## Fresh artists -/

/-- A document of an artist, from a source of that name, fetched in the last 30 days. -/
def View.FreshArtist (v : View) (source key : Str) : Prop :=
  ∃ r ∈ v.docs, source <+: r.source ∧ r.subject = .artist ∧ r.artistKey = key ∧
    v.now - 30 * day < r.fetchedAt

instance (v : View) (source key : Str) : Decidable (v.FreshArtist source key) :=
  inferInstanceAs (Decidable (∃ r ∈ v.docs, _))

section Fresh

variable {U : UnicodeTables} {views : Nat → Option View} {source : Str}

/-- A query for an artist whose key is among those credited. -/
theorem freshOr_artist_iff {n : Nat} {key : Str} {credited : List Str} (hkey : key ∈ credited) :
    freshOr views n source .artist key credited = true ↔
      ∃ v, views n = some v ∧ v.FreshArtist source key := by
  rw [freshOr, Option.any_eq_true]
  simp only [View.fresh, List.any_eq_true, decide_eq_true_eq]
  apply exists_congr
  intro v
  apply and_congr_right
  intro _
  constructor
  · rintro ⟨r, hr, hsource, hsubject, hcolumn, -, hrecent⟩
    exact ⟨r, hr, hsource, hsubject, Option.some.inj hcolumn, hrecent⟩
  · rintro ⟨r, hr, hsource, hsubject, rfl, hrecent⟩
    exact ⟨r, hr, hsource, hsubject, rfl, hkey, hrecent⟩

/-- The loop finds every artist fresh when each query does. -/
theorem artistsFresh_of_forall {credited artists : List Str}
    (hcredited : ∀ a ∈ artists, Keys.matchKey U a ∈ credited) : ∀ n : Nat,
    (∀ m, n ≤ m → ∃ v, views m = some v ∧
      ∀ a ∈ artists, v.FreshArtist source (Keys.matchKey U a)) →
    artistsFresh U views source credited n artists = true := by
  induction artists with
  | nil =>
      intro n _
      rfl
  | cons a artists ih =>
      intro n hviews
      rw [artistsFresh, Bool.and_eq_true]
      constructor
      · obtain ⟨v, hv, hfresh⟩ := hviews n (Nat.le_refl n)
        apply (freshOr_artist_iff (hcredited a List.mem_cons_self)).2
        exact ⟨v, hv, hfresh a List.mem_cons_self⟩
      · apply ih (fun b hb => hcredited b (List.mem_cons_of_mem a hb))
        intro m hm
        obtain ⟨v, hv, hfresh⟩ := hviews m (Nat.le_of_succ_le hm)
        exact ⟨v, hv, fun b hb => hfresh b (List.mem_cons_of_mem a hb)⟩

/-- **Fresh artists.** Every query succeeds, and sees a fresh Wikipedia document of each artist that
Wikipedia looks up for the credit. Then the artists are left out of the scope exactly when the
credit is one artist, or a fresh document has the key of the whole credit. -/
theorem wikipedia_artist_scope_iff (U : UnicodeTables) (track : TrackRequest)
    (views : Nat → Option View)
    (hfresh : ∀ n, ∃ v, views n = some v ∧ ∀ a ∈ Wikipedia.individuals U track.artist,
      v.FreshArtist "wikipedia".toList (Keys.matchKey U a)) :
    (scopeFor U views "wikipedia".toList track).artist = false ↔
      (Keys.artistParts U track.artist).length = 1 ∨
        ∃ v, views 0 = some v ∧
          v.FreshArtist "wikipedia".toList (Keys.matchKey U track.artist) := by
  have hscope : (scopeFor U views "wikipedia".toList track).artist = false ↔
      artistsFresh U views "wikipedia".toList (Keys.artistKeys U track.artist) 0
        (Keys.artistParts U track.artist) = true := by
    rw [scopeFor, Bool.not_eq_false']
  have hcredited : ∀ a ∈ Keys.artistParts U track.artist,
      Keys.matchKey U a ∈ Keys.artistKeys U track.artist := fun a ha =>
    Keys.matchKey_mem_artistKeys U ha
  obtain ⟨extras, hparts, -⟩ := Keys.artistParts_cons U track.artist
  rw [Wikipedia.individuals] at hfresh
  rw [hscope]
  rw [hparts] at hfresh hcredited ⊢
  cases extras with
  | nil =>
      refine iff_of_true ?_ (Or.inl rfl)
      exact artistsFresh_of_forall hcredited 0 fun n _ => hfresh n
  | cons a extras =>
      -- the individual artists are fresh, which leaves the query for the whole credit
      have hlater : artistsFresh U views "wikipedia".toList (Keys.artistKeys U track.artist) 1
          (a :: extras) = true := by
        apply artistsFresh_of_forall fun b hb => hcredited b (List.mem_cons_of_mem _ hb)
        exact fun n _ => hfresh n
      rw [artistsFresh, hlater, Bool.and_true, freshOr_artist_iff (hcredited _ List.mem_cons_self),
        Keys.matchKey_trim]
      simp

end Fresh

/-- A Wikipedia document of an artist. -/
def artistRow (id : Nat) (artist : String) : DocumentRow where
  id := id
  source := "wikipedia-en".toList
  sourceRef := artist.toList
  sourceUrl := "https://en.wikipedia.org/wiki/".toList ++ artist.toList
  subject := .artist
  songKey := none
  albumKey := none
  artistKey := Keys.matchKey asciiTables artist.toList
  title := artist.toList
  lang := "en".toList
  body := "A band.".toList
  contentHash := []
  fetchedAt := 0
  addedBy := none

/-- The documents of two artists, a day after they were fetched. -/
def duoView : View := ⟨[artistRow 1 "Eagles", artistRow 2 "TWICE"], day⟩

/-- A track with this credit. -/
def duoTrack (artist : String) : TrackRequest :=
  ⟨"My Song".toList, artist.toList, none⟩

/-- An artist alone is not fetched again. -/
theorem wikipedia_artist_scope_eagles :
    (scopeFor asciiTables (fun _ => some duoView) "wikipedia".toList (duoTrack "Eagles")).artist =
      false := by
  refine (wikipedia_artist_scope_iff asciiTables (duoTrack "Eagles") (fun _ => some duoView)
    fun _ => ⟨duoView, rfl, ?_⟩).2 (Or.inl ?_)
  · decide +kernel
  · decide +kernel

/-- Both artists are fresh, and are fetched again for a song of the two. -/
theorem not_wikipedia_artist_scope_duo :
    (∀ n : Nat, ∃ v, (fun _ : Nat => some duoView) n = some v ∧
      ∀ a ∈ Wikipedia.individuals asciiTables (duoTrack "Eagles & TWICE").artist,
        v.FreshArtist "wikipedia".toList (Keys.matchKey asciiTables a)) ∧
    (scopeFor asciiTables (fun _ => some duoView) "wikipedia".toList
      (duoTrack "Eagles & TWICE")).artist = true := by
  constructor
  · intro n
    refine ⟨duoView, rfl, ?_⟩
    decide +kernel
  · decide +kernel

end AnyPlayerSync.Sources
