import AnyPlayerSync.Passages.Rewrite
import AnyPlayerSync.Sources.Articles
import Mathlib.Data.List.Perm.Subperm

/-!
# Wikipedia documents under one key

A Wikipedia document is stored under its language and its article's title; the subject is no part
of the key (the sources Last.fm and Genius put theirs in). When two searches of a call resolve to
one article, the two documents have one key, and storing them leaves one row.

For a track and a scope this can happen exactly when two of the names searched for are the same up
to a disambiguation in parentheses (`subjects_apart_iff`): a title track and its album, a
self-titled album and its band.
-/

set_option autoImplicit false

namespace AnyPlayerSync.Sources.Wikipedia

open AnyPlayerSync.Foundation
open AnyPlayerSync.Foundation.Text
open AnyPlayerSync.Passages
open AnyPlayerSync.Sync (Time UserId)

variable {U : UnicodeTables} {lang : Str} {track : TrackRequest} {scope : Scope}

variable (U lang track scope) in
/-- Whatever the responses, documents of different subjects have different keys, and storing the
documents of a call, none of which is stored yet, leaves a row for each with its own subject. -/
structure SubjectsApart : Prop where
  keys : ∀ web docs, (fetchLang U lang track scope).result web = .ok docs →
    ∀ d ∈ docs, ∀ d' ∈ docs, d.subject ≠ d'.subject → d.key ≠ d'.key
  stored : ∀ web docs, (fetchLang U lang track scope).result web = .ok docs →
    ∀ (V : Type) (hash : Str → Str) (E : Embedder V) (s : Store V) (addedBy : Option UserId)
      (now : Time) (T' : Tables V), (∀ r ∈ s.tables.docs, ∀ d ∈ docs, r.key ≠ d.key) →
      storeAll U hash E s.tables addedBy now docs = .ok T' →
      (T'.docs.filter fun r => r.key ∈ docs.map NewDocument.key).length = docs.length ∧
        ∀ d ∈ docs, ∃ r ∈ T'.docs, r.key = d.key ∧ r.subject = d.subject

/-! ## Different names -/

/-- Searches that accept one article want the same name. -/
theorem sameName_of_accepts {a b : Search} {title x y : Str} (ha : a.Accepts U (title, x))
    (hb : b.Accepts U (title, y)) : SameName (a.name U) (b.name U) :=
  sameName_of_names ha.1 hb.1

/-- The documents of searches for different names have different keys. -/
theorem keys_nodup {docs : List NewDocument}
    (hnames : (searches U track scope).Pairwise fun a b => ¬ SameName (a.name U) (b.name U))
    (h : Yields (fetchLang U lang track scope) docs) : (docs.map NewDocument.key).Nodup := by
  obtain ⟨found, hsub, hacc, rfl⟩ := findAll_yields _ _ h
  have hpairs : found.Pairwise fun p q => ¬ SameName (p.1.name U) (q.1.name U) :=
    List.pairwise_map.1 (hnames.sublist hsub)
  rw [List.map_map, List.Nodup, List.pairwise_map]
  refine hpairs.imp_of_mem fun {p q} hp hq hne heq => hne ?_
  obtain ⟨a, title, x⟩ := p
  obtain ⟨b, title', y⟩ := q
  have htitle : title = title' := (Prod.mk.inj heq).2
  subst htitle
  exact sameName_of_accepts (hacc _ hp) (hacc _ hq)

/-- Under unique keys, as many rows have the keys of the documents as there are documents. -/
theorem length_filter_keys {V : Type} {T : Tables V} (hT : T.Valid) {docs : List NewDocument}
    (hnodup : (docs.map NewDocument.key).Nodup) (hrows : ∀ d ∈ docs, ∃ r ∈ T.docs, r.key = d.key) :
    (T.docs.filter fun r => r.key ∈ docs.map NewDocument.key).length = docs.length := by
  have hperm : ((T.docs.filter fun r => r.key ∈ docs.map NewDocument.key).map
      DocumentRow.key).Perm (docs.map NewDocument.key) := by
    refine (List.perm_ext_iff_of_nodup (hT.docKeys.sublist (List.filter_sublist.map _)) hnodup).2 ?_
    intro k
    constructor
    · intro hk
      obtain ⟨r, hr, rfl⟩ := List.mem_map.1 hk
      exact of_decide_eq_true (List.mem_filter.1 hr).2
    · intro hk
      obtain ⟨d, hd, rfl⟩ := List.mem_map.1 hk
      obtain ⟨r, hr, hkey⟩ := hrows d hd
      exact List.mem_map.2 ⟨r, List.mem_filter.2 ⟨hr, decide_eq_true (hkey ▸ hk)⟩, hkey⟩
  simpa using hperm.length_eq

theorem subjectsApart_of_names
    (hnames : (searches U track scope).Pairwise fun a b => ¬ SameName (a.name U) (b.name U)) :
    SubjectsApart U lang track scope where
  keys web docs hdocs d hd d' hd' hsubject hkey := by
    have hnodup := keys_nodup hnames (yields_of_result hdocs)
    exact hsubject (congrArg _ (List.inj_on_of_nodup_map hnodup hd hd' hkey))
  stored web docs hdocs V hash E s addedBy now T' hnew hok := by
    have hnodup := keys_nodup hnames (yields_of_result hdocs)
    obtain ⟨hvalid, hstored, -⟩ := storeAll_new docs s.valid hok hnodup hnew
    have hrows : ∀ d ∈ docs, ∃ r ∈ T'.docs, r.key = d.key ∧ r.subject = d.subject := by
      intro d hd
      obtain ⟨r, hr, hinserted⟩ := hstored d hd
      exact ⟨r, hr, hinserted.key, hinserted.carries.subject⟩
    refine ⟨length_filter_keys hvalid hnodup fun d hd => ?_, hrows⟩
    obtain ⟨r, hr, hkey, -⟩ := hrows d hd
    exact ⟨r, hr, hkey⟩

/-! ## The same name -/

/-- As many rows as documents means that no two documents share a key. -/
theorem nodup_of_length_filter {V : Type} {T : Tables V} (hT : T.Valid) {docs : List NewDocument}
    (h : (T.docs.filter fun r => r.key ∈ docs.map NewDocument.key).length = docs.length) :
    (docs.map NewDocument.key).Nodup := by
  have hkeys : ((T.docs.filter fun r => r.key ∈ docs.map NewDocument.key).map
      DocumentRow.key).Nodup := hT.docKeys.sublist (List.filter_sublist.map _)
  have hsub : (T.docs.filter fun r => r.key ∈ docs.map NewDocument.key).map DocumentRow.key ⊆
      docs.map NewDocument.key := by
    intro k hk
    obtain ⟨r, hr, rfl⟩ := List.mem_map.1 hk
    exact of_decide_eq_true (List.mem_filter.1 hr).2
  have hlen : (docs.map NewDocument.key).length ≤
      ((T.docs.filter fun r => r.key ∈ docs.map NewDocument.key).map DocumentRow.key).length := by
    rw [List.length_map, List.length_map, h]
  exact ((List.subperm_of_subset hkeys hsub).perm_of_length_le hlen).nodup_iff.1 hkeys

/-- Two searches for one name find one article, and its documents share a key. -/
theorem names_of_subjectsApart (h : SubjectsApart U lang track scope) :
    (searches U track scope).Pairwise fun a b => ¬ SameName (a.name U) (b.name U) := by
  refine List.pairwise_iff_forall_sublist.2 fun {a b} hab hsame => ?_
  obtain ⟨title, ha, hb⟩ := exists_common_title hsame
  -- the web of one article that both accept
  have haccepts : ∀ search ∈ [a, b], titleMatches U title search.wanted = true →
      search.inArticle U lang title (bandText track.artist) =
        some (search.document U lang (title, bandText track.artist)) :=
    fun search hmem htitle => if_pos ⟨htitle, textOk_bandText (hab.subset hmem)⟩
  have hresult := fetchLang_article U lang track scope title (bandText track.artist)
  obtain ⟨T', hT'⟩ := storeAll_ok U (fun body => body) unitEmbedder_ok none 0
    ((searches U track scope).filterMap (Search.inArticle U lang title (bandText track.artist)))
    Tables.empty
  obtain ⟨hlen, -⟩ := h.stored _ _ hresult Unit (fun body => body) unitEmbedder
    ⟨Tables.empty, Tables.valid_empty⟩ none 0 T' (fun _ hr => nomatch hr) hT'
  have hnodup := nodup_of_length_filter (storeAll_valid _ Tables.valid_empty hT') hlen
  have hpair := (hab.filterMap (Search.inArticle U lang title (bandText track.artist))).map
    NewDocument.key
  rw [List.filterMap_cons_some (haccepts a List.mem_cons_self ha),
    List.filterMap_cons_some (haccepts b (List.mem_cons_of_mem _ (List.mem_singleton_self b)) hb)]
    at hpair
  have hne := List.pairwise_iff_forall_sublist.1 hnodup hpair
  exact hne rfl

/-- **Documents of one call stay apart** exactly when no two of the searched names are the same up
to a disambiguation in parentheses. -/
theorem subjects_apart_iff (U : UnicodeTables) (lang : Str) (track : TrackRequest) (scope : Scope) :
    SubjectsApart U lang track scope ↔
      (searches U track scope).Pairwise fun a b => ¬ SameName (a.name U) (b.name U) :=
  ⟨names_of_subjectsApart, subjectsApart_of_names⟩

/-- A title track. -/
def thriller : TrackRequest where
  song := "Thriller".toList
  artist := "Michael Jackson".toList
  album := some "Thriller".toList

/-- The song search and the album search find one article, which is stored once. -/
theorem title_track_not_apart :
    ¬ SubjectsApart asciiTables "en".toList thriller ⟨true, true, true⟩ :=
  fun h => absurd (names_of_subjectsApart h) (by decide +kernel)

end AnyPlayerSync.Sources.Wikipedia
