import AnyPlayerSync.Keys.Credits
import AnyPlayerSync.Sources.Wikipedia

/-!
# Articles

Which articles the searches of one language can return. A document is made from a page that its
search accepts (`find_yields`), and the documents of a call come from different searches, in their
order (`findAll_yields`).

Conversely a single article whose title names what several searches want, and whose text calls the
credit a band, is accepted by all of them (`findAll_article`). Two wanted names have such a title
exactly when they are the same up to a disambiguation in parentheses (`SameName`).
-/

set_option autoImplicit false

namespace AnyPlayerSync.Sources.Wikipedia

open AnyPlayerSync.Foundation
open AnyPlayerSync.Foundation.Text
open AnyPlayerSync.Passages

variable {U : UnicodeTables} {lang : Str}

/-! ## What a search returns -/

theorem tryTitles_yields {search : Search} {d : NewDocument} (titles : List Str)
    (h : Yields (search.tryTitles U lang titles) (some d)) :
    ∃ page, search.Accepts U page ∧ d = search.document U lang page := by
  induction titles with
  | nil => cases yields_pure h
  | cons title titles ih =>
      obtain ⟨v, -, h⟩ := yields_bind h
      cases hv : parseExtract v with
      | none =>
          rw [hv] at h
          exact ih h
      | some page =>
          rw [hv] at h
          dsimp only at h
          split_ifs at h with hacc
          · exact ⟨page, hacc, (Option.some.inj (yields_pure h)).symm⟩
          · exact ih h

theorem find_yields {search : Search} {d : NewDocument}
    (h : Yields (search.find U lang) (some d)) :
    ∃ page, search.Accepts U page ∧ d = search.document U lang page := by
  obtain ⟨v, -, h⟩ := yields_bind h
  exact tryTitles_yields _ h

/-- The documents of a call, each with its search and the page that the search accepted. -/
theorem findAll_yields (all : List Search) : ∀ docs, Yields (findAll U lang all) docs →
    ∃ found : List (Search × (Str × Str)), (found.map Prod.fst).Sublist all ∧
      (∀ p ∈ found, p.1.Accepts U p.2) ∧ docs = found.map fun p => p.1.document U lang p.2 := by
  induction all with
  | nil =>
      intro docs h
      exact ⟨[], List.Sublist.refl _, fun _ h => (nomatch h), (yields_pure h).symm⟩
  | cons search rest ih =>
      intro docs h
      obtain ⟨d?, hd, h⟩ := yields_bind h
      obtain ⟨tail, htail, h⟩ := yields_bind h
      obtain ⟨found, hsub, hacc, rfl⟩ := ih tail htail
      have hdocs := yields_pure h
      cases d? with
      | none => exact ⟨found, hsub.cons search, hacc, hdocs.symm⟩
      | some d =>
          obtain ⟨page, hpage, rfl⟩ := find_yields hd
          refine ⟨(search, page) :: found, hsub.cons_cons search, fun p hp => ?_, hdocs.symm⟩
          rcases List.mem_cons.1 hp with rfl | hp
          · exact hpage
          · exact hacc p hp

/-! ## Names that one title can have -/

/-- Keys that are the same, or of which one is the other followed by a parenthesis. -/
def SameName (w w' : Str) : Prop :=
  w = w' ∨ w ++ " (".toList <+: w' ∨ w' ++ " (".toList <+: w

instance (w w' : Str) : Decidable (SameName w w') := inferInstanceAs (Decidable (_ ∨ _))

theorem SameName.symm {w w' : Str} (h : SameName w w') : SameName w' w :=
  h.elim (fun h => Or.inl h.symm) fun h => Or.inr h.symm

/-- A beginning followed by a parenthesis, of one that is followed by a parenthesis too. -/
theorem prefix_of_parentheses {w w' : Str} (h : w ++ " (".toList <+: w' ++ " (".toList)
    (hne : w ≠ w') : w ++ " (".toList <+: w' := by
  have hlen := h.length_le
  simp only [List.length_append] at hlen
  rcases Nat.lt_or_ge (w.length + 1) w'.length with hlt | hge
  · exact List.prefix_of_prefix_length_le h (List.prefix_append w' _)
      (by simp only [List.length_append]; exact hlt)
  · -- the texts would differ by one character, a parenthesis where the other has a space
    exfalso
    have hw : w <+: w' := by
      refine List.prefix_of_prefix_length_le ((List.prefix_append w _).trans h)
        (List.prefix_append w' _) ?_
      exact Nat.le_of_add_le_add_right hlen
    obtain ⟨t, rfl⟩ := hw
    rw [List.append_assoc, List.prefix_append_right_inj] at h
    match t, h, hge, hne with
    | [], _, _, hne => exact hne (List.append_nil w).symm
    | [c], h, _, _ =>
        have hc := (List.cons_prefix_cons.1 h).2
        exact absurd (List.cons_prefix_cons.1 hc).1 (by decide)
    | c :: d :: t, _, hge, _ =>
        simp only [List.length_append, List.length_cons] at hge
        omega

/-- Two names of one title are the same name. -/
theorem sameName_of_names {c w w' : Str} (h : keyNames c w = true) (h' : keyNames c w' = true) :
    SameName w w' := by
  simp only [keyNames, Bool.or_eq_true, Bool.and_eq_true, decide_eq_true_eq] at h h'
  rcases h with rfl | ⟨h, -⟩
  · rcases h' with rfl | ⟨h', -⟩
    · exact Or.inl rfl
    · exact Or.inr (Or.inr h')
  · rcases h' with rfl | ⟨h', -⟩
    · exact Or.inr (Or.inl h)
    -- both are followed by a parenthesis in `c`, and one of the two beginnings is the shorter
    · by_cases hne : w = w'
      · exact Or.inl hne
      · rcases List.prefix_or_prefix_of_prefix h h' with hp | hp
        · exact Or.inr (Or.inl (prefix_of_parentheses hp hne))
        · exact Or.inr (Or.inr (prefix_of_parentheses hp (Ne.symm hne)))

variable (U) in
/-- The key that a search wants. -/
def Search.name (search : Search) : Str := key U (Keys.baseTitle U search.wanted)

/-- The title of a name followed by a disambiguation names every beginning of it. -/
theorem titleMatches_parentheses {wanted wanted' : Str}
    (h : key U (Keys.baseTitle U wanted) ++ " (".toList <+: key U (Keys.baseTitle U wanted')) :
    titleMatches U (Keys.baseTitle U wanted' ++ " ()".toList) wanted = true ∧
      titleMatches U (Keys.baseTitle U wanted' ++ " ()".toList) wanted' = true := by
  have hwords : splitWhitespace (Keys.baseTitle U wanted') ≠ [] := by
    intro hnone
    rw [key, key, Keys.matchKey_of_no_word U hnone] at h
    exact absurd (List.prefix_nil.1 h) (List.append_ne_nil_of_right_ne_nil _ (by decide))
  have hkey : key U (Keys.baseTitle U wanted' ++ " ()".toList) =
      key U (Keys.baseTitle U wanted') ++ " ()".toList := Keys.matchKey_parentheses U hwords
  have hlast : (key U (Keys.baseTitle U wanted') ++ " ()".toList).getLast? = some ')' := by
    simp
  simp only [titleMatches, keyNames, hkey, hlast, Bool.or_eq_true, Bool.and_eq_true,
    decide_eq_true_eq, and_true]
  refine ⟨Or.inr (h.trans (List.prefix_append _ _)), Or.inr ?_⟩
  exact (List.prefix_append_right_inj _).2 (by decide)

theorem titleMatches_of_key_eq {title wanted : Str}
    (h : key U title = key U (Keys.baseTitle U wanted)) : titleMatches U title wanted = true := by
  simp [titleMatches, keyNames, h]

/-- Names that are the same have a title in common. -/
theorem exists_common_title {wanted wanted' : Str}
    (h : SameName (key U (Keys.baseTitle U wanted)) (key U (Keys.baseTitle U wanted'))) :
    ∃ title, titleMatches U title wanted = true ∧ titleMatches U title wanted' = true := by
  rcases h with heq | hpre | hpre
  · exact ⟨Keys.baseTitle U wanted, titleMatches_of_key_eq rfl, titleMatches_of_key_eq heq⟩
  · exact ⟨_, titleMatches_parentheses hpre⟩
  · exact ⟨_, (titleMatches_parentheses hpre).symm⟩

/-! ## One article -/

/-- An article whose text calls the credit a band. -/
def bandText (credit : Str) : Str := "band".toList ++ ' ' :: credit

/-- A search with one hit. -/
def searchResponse (title : Str) : Json :=
  .obj [("query".toList, .obj [("search".toList, .arr [.obj [("title".toList, .str title)]])])]

/-- An article. -/
def pageResponse (title extract : Str) : Json :=
  .obj [("query".toList, .obj [("pages".toList, .obj [("1".toList,
    .obj [("extract".toList, .str extract), ("title".toList, .str title)])])])]

/-- Every search has the article as its only hit. -/
def articleWeb (lang title extract : Str) : Web where
  json _ url :=
    if url = pageUrl lang title then .ok (pageResponse title extract)
    else .ok (searchResponse title)
  text _ _ := .error (.permanent [])

theorem searchTitles_searchResponse (title : Str) : searchTitles (searchResponse title) = [title] :=
  rfl

theorem parseExtract_pageResponse (title extract : Str) :
    parseExtract (pageResponse title extract) = some (title, extract) := rfl

theorem searchUrl_ne_pageUrl (query title : Str) : searchUrl lang query ≠ pageUrl lang title := by
  intro h
  rw [searchUrl, pageUrl, List.append_assoc, List.append_assoc] at h
  have hrest := List.append_cancel_left h
  have hchar := congrArg (fun s : Str => s[14]?) hrest
  simp at hchar

variable (U lang) in
/-- What a search finds in a web of one article. -/
def Search.inArticle (title extract : Str) (search : Search) : Option NewDocument :=
  if search.Accepts U (title, extract) then some (search.document U lang (title, extract)) else none

variable (U lang) in
theorem find_article (title extract : Str) (search : Search) (n : Nat) :
    ∃ n', (search.find U lang) (articleWeb lang title extract) n =
      .ok (search.inArticle U lang title extract, n') := by
  have hsearch : (articleWeb lang title extract).json n (searchUrl lang search.query) =
      .ok (searchResponse title) := if_neg (searchUrl_ne_pageUrl _ _)
  have hpage : (articleWeb lang title extract).json (n + 1) (pageUrl lang title) =
      .ok (pageResponse title extract) := if_pos rfl
  rw [Search.find, run_bind (run_getJson hsearch), searchTitles_searchResponse]
  by_cases htitle : titleMatches U title search.wanted = true
  · refine ⟨n + 1 + 1, ?_⟩
    rw [List.filter_cons_of_pos (p := fun t => titleMatches U t search.wanted) htitle,
      Search.tryTitles, run_bind (run_getJson hpage), parseExtract_pageResponse, Search.inArticle]
    dsimp only
    split_ifs
    · rfl
    · rfl
  · refine ⟨n + 1, ?_⟩
    rw [List.filter_cons_of_neg (p := fun t => titleMatches U t search.wanted) htitle,
      Search.inArticle, if_neg fun hacc => htitle hacc.1]
    rfl

variable (U lang) in
theorem findAll_article (title extract : Str) (all : List Search) : ∀ n, ∃ n',
    (findAll U lang all) (articleWeb lang title extract) n =
      .ok (all.filterMap (Search.inArticle U lang title extract), n') := by
  induction all with
  | nil =>
      intro n
      exact ⟨n, rfl⟩
  | cons search rest ih =>
      intro n
      obtain ⟨n₁, hfind⟩ := find_article U lang title extract search n
      obtain ⟨n₂, hrest⟩ := ih n₁
      refine ⟨n₂, ?_⟩
      rw [findAll, run_bind hfind, run_bind hrest, run_pure, List.filterMap_cons]
      cases search.inArticle U lang title extract with
      | none => rfl
      | some d => rfl

variable (U lang) in
/-- A call in a web of one article. -/
theorem fetchLang_article (track : TrackRequest) (scope : Scope) (title extract : Str) :
    (fetchLang U lang track scope).result (articleWeb lang title extract) =
      .ok ((searches U track scope).filterMap (Search.inArticle U lang title extract)) := by
  obtain ⟨n, hrun⟩ := findAll_article U lang title extract (searches U track scope) 0
  rw [Fetch.result, fetchLang, hrun]
  rfl

/-! ## Its text -/

theorem isWord_band : IsWord "band".toList := by
  constructor
  · exact List.cons_ne_nil _ _
  · simp [isWhitespace]

theorem namesArtist_bandText (track : TrackRequest) :
    namesArtist U track (bandText track.artist) = true := by
  rw [namesArtist, namedArtist, List.find?_isSome]
  refine ⟨trim track.artist, List.mem_reverse.2 (Keys.trim_mem_artistParts U track.artist), ?_⟩
  rw [contains, key, key, Keys.matchKey_trim]
  exact decide_eq_true (Keys.matchKey_infix_word_cons U isWord_band track.artist)

theorem isArtistArticle_bandText (credit : Str) : isArtistArticle U (bandText credit) = true := by
  have htake : (bandText credit).take 600 = "band".toList ++ ' ' :: credit.take 595 := rfl
  have hband : Keys.keyWord U "band".toList = "band".toList := Keys.keyWord_ascii U (by simp)
  rw [isArtistArticle, List.any_eq_true]
  refine ⟨"band".toList, List.mem_cons_self, ?_⟩
  rw [htake, contains, key]
  apply decide_eq_true
  have hprefix := Keys.keyWord_prefix_word_cons U isWord_band (credit.take 595)
  rw [hband] at hprefix
  exact hprefix.isInfix

/-- The searches of a call. -/
theorem mem_searches {track : TrackRequest} {scope : Scope} {search : Search}
    (h : search ∈ searches U track scope) :
    search = songSearch U track ∨ (∃ album, track.album = some album ∧
      search = albumSearch U track album) ∨
      ∃ artist ∈ individuals U track.artist, search = artistSearch U track artist := by
  rcases List.mem_append.1 h with h | h
  · rcases List.mem_append.1 h with h | h
    · split_ifs at h
      · exact Or.inl (List.mem_singleton.1 h)
      · cases h
    · split_ifs at h
      · obtain ⟨album, halbum, heq⟩ := Option.map_eq_some_iff.1 (Option.mem_toList.1 h)
        exact Or.inr (Or.inl ⟨album, halbum, heq.symm⟩)
      · cases h
  · split_ifs at h
    · obtain ⟨artist, hartist, heq⟩ := List.mem_map.1 h
      exact Or.inr (Or.inr ⟨artist, hartist, heq.symm⟩)
    · cases h

/-- Every search of a call accepts the text. -/
theorem textOk_bandText {track : TrackRequest} {scope : Scope} {search : Search}
    (h : search ∈ searches U track scope) : search.textOk (bandText track.artist) = true := by
  have htextOk : search.textOk = namesArtist U track ∨ search.textOk = isArtistArticle U := by
    rcases mem_searches h with rfl | ⟨album, -, rfl⟩ | ⟨artist, -, rfl⟩
    · left; rw [songSearch]
    · left; rw [albumSearch]
    · right; rw [artistSearch]
  rcases htextOk with heq | heq
  · rw [heq]
    exact namesArtist_bandText track
  · rw [heq]
    exact isArtistArticle_bandText track.artist

end AnyPlayerSync.Sources.Wikipedia
