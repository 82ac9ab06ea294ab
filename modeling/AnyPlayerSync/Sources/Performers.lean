import AnyPlayerSync.Sources.Wikidata

/-!
# Performers

Whether Wikidata has a document for a track, when every request is answered and `wbgetentities`
answers with the labels of the ids that it was asked for. The labels of a candidate's performers are
asked for in one request together with those of its other statements, cut to 45 ids, with the
performers last. A document is found exactly when some candidate has a performer of the right name
among those 45 (`fetch_finds_iff`); a candidate with more statements hides its performers.
-/

set_option autoImplicit false

namespace AnyPlayerSync.Sources.Wikidata

open AnyPlayerSync.Foundation
open AnyPlayerSync.Passages

/-! ## Labels -/

/-- The labels of the entities: by id and language. -/
abbrev Labels := Str → Str → Option Str

/-- The languages whose labels are asked for, in the order in which one is taken. -/
def languages : List Str := ["en", "ja", "ko"].map String.toList

/-- The label of an id in a response. -/
def labelIn (response : Json) (id lang : Str) : Option Str :=
  (((((response.index "entities".toList).index id).index "labels".toList).index lang).index
    "value".toList).asStr

/-- The response has the labels of the ids that were asked for, and no others. -/
def Answers (labels : Labels) (ids : List Str) (response : Json) : Prop :=
  ∀ id, ∀ lang ∈ languages, labelIn response id lang = if id ∈ ids then labels id lang else none

/-- The label in the first of the three languages that has one. -/
def firstLabel (labels : Labels) (id : Str) : Option Str :=
  languages.findSome? fun lang => labels id lang

section Names

variable {U : UnicodeTables} {labels : Labels}

theorem label_of_answers {ids : List Str} {response : Json} (h : Answers labels ids response)
    (id : Str) : label response id = if id ∈ ids then firstLabel labels id else none := by
  have hlabel : label response id = languages.findSome? fun lang => labelIn response id lang := rfl
  have hall : ∀ lang ∈ languages,
      labelIn response id lang = if id ∈ ids then labels id lang else none := h id
  rw [hlabel, firstLabel]
  split_ifs at hall ⊢ with hid
  · simp only [languages, List.map_cons, List.map_nil, List.forall_mem_cons] at hall
    simp only [languages, List.map_cons, List.map_nil, List.findSome?_cons, List.findSome?_nil,
      hall]
  · rw [List.findSome?_eq_none_iff]
    exact hall

/-! ## Candidates -/

/-- The entity of a candidate. -/
def entityOf (entities : Json) (id : Str) : Json := (entities.index "entities".toList).index id

/-- The performers of a candidate. -/
def performersOf (entities : Json) (id : Str) : List Str :=
  claimIds (entityOf entities id) "P175".toList

/-- The ids whose labels are asked for, for a candidate. -/
def askedOf (entities : Json) (id : Str) : List Str :=
  referenced (entityOf entities id) (performersOf entities id)

variable (U labels) in
/-- The performer has the name of an artist of the credit. -/
def Credited (credit performerId : Str) : Prop :=
  ∃ name, firstLabel labels performerId = some name ∧
    ∃ a ∈ Keys.artistParts U credit, key U name = key U a

variable (U labels) in
/-- Some performer of the candidate has the name of a credited artist. -/
def Named (credit : Str) (entities : Json) (id : Str) : Prop :=
  ∃ p ∈ performersOf entities id, Credited U labels credit p

variable (U labels) in
/-- Some such performer is among the ids whose labels are asked for. -/
def Reached (credit : Str) (entities : Json) (id : Str) : Prop :=
  ∃ p ∈ performersOf entities id, p ∈ askedOf entities id ∧ Credited U labels credit p

theorem Reached.named {credit : Str} {entities : Json} {id : Str}
    (h : Reached U labels credit entities id) : Named U labels credit entities id := by
  obtain ⟨p, hp, -, hcredited⟩ := h
  exact ⟨p, hp, hcredited⟩

/-- A candidate with few statements is reached when it is named. -/
theorem Named.reached {credit : Str} {entities : Json} {id : Str}
    (h : Named U labels credit entities id)
    (hfew : (props.flatMap fun p => claimIds (entityOf entities id) p.1).length +
      (performersOf entities id).length ≤ 45) : Reached U labels credit entities id := by
  obtain ⟨p, hp, hcredited⟩ := h
  refine ⟨p, hp, ?_, hcredited⟩
  rw [askedOf, referenced, List.take_of_length_le (by rw [List.length_append]; exact hfew)]
  exact List.mem_append_right _ hp

theorem performer_isSome_iff {credit : Str} {response : Json} {ids performers : List Str}
    (h : Answers labels ids response) :
    (performer U credit response performers).isSome = true ↔
      ∃ p ∈ performers, p ∈ ids ∧ Credited U labels credit p := by
  rw [performer, List.find?_isSome]
  constructor
  · rintro ⟨a, ha, hany⟩
    obtain ⟨p, hp, hkey⟩ := List.any_eq_true.1 hany
    rw [label_of_answers h] at hkey
    split_ifs at hkey with hid
    cases hname : firstLabel labels p with
    | none =>
        rw [hname] at hkey
        cases hkey
    | some name =>
        rw [hname] at hkey
        exact ⟨p, hp, hid, name, hname, a, ha, of_decide_eq_true hkey⟩
  · rintro ⟨p, hp, hid, name, hname, a, ha, hkey⟩
    refine ⟨a, ha, List.any_eq_true.2 ⟨p, hp, ?_⟩⟩
    rw [label_of_answers h, if_pos hid, hname]
    exact decide_eq_true hkey

end Names

/-! ## The loop -/

section Loop

variable {U : UnicodeTables} {labels : Labels} {track : TrackRequest} {entities : Json} {web : Web}

/-- Each candidate's request for labels, which comes after two others, is answered. -/
def LabelsAnswered (labels : Labels) (entities : Json) (web : Web) (ids : List Str) : Prop :=
  ∀ id ∈ ids, ∀ n, 2 ≤ n → ∃ response,
    web.json n (entitiesUrl (askedOf entities id)) = .ok response ∧
      Answers labels (askedOf entities id) response

theorem tryIds_cons (id : Str) (ids : List Str) :
    tryIds U track entities (id :: ids) =
      (if performersOf entities id = [] then tryIds U track entities ids
      else do
        let response ← getJson (entitiesUrl (askedOf entities id))
        match performer U track.artist response (performersOf entities id) with
        | some artist =>
            return [document U track id artist
              (render (entityOf entities id) response (Keys.baseTitle U track.song) artist)]
        | none => tryIds U track entities ids) := rfl

theorem tryIds_finds (ids : List Str) (hanswered : LabelsAnswered labels entities web ids) :
    ∀ n, 2 ≤ n → ∃ docs m, tryIds U track entities ids web n = .ok (docs, m) ∧
      (docs ≠ [] ↔ ∃ id ∈ ids, Reached U labels track.artist entities id) := by
  induction ids with
  | nil =>
      intro n _
      exact ⟨[], n, rfl, by simp⟩
  | cons id ids ih =>
      intro n hn
      have hrest := ih fun other hother => hanswered other (List.mem_cons_of_mem id hother)
      have hskip : ¬ Reached U labels track.artist entities id →
          ∀ docs : List NewDocument, (docs ≠ [] ↔
            ∃ other ∈ ids, Reached U labels track.artist entities other) →
          (docs ≠ [] ↔ ∃ other ∈ id :: ids, Reached U labels track.artist entities other) := by
        intro hnot docs hdocs
        rw [hdocs, List.exists_mem_cons_iff]
        exact (or_iff_right hnot).symm
      by_cases hnone : performersOf entities id = []
      · obtain ⟨docs, m, hrun, hdocs⟩ := hrest n hn
        have hnot : ¬ Reached U labels track.artist entities id := by
          rintro ⟨p, hp, -⟩
          rw [hnone] at hp
          cases hp
        refine ⟨docs, m, ?_, hskip hnot docs hdocs⟩
        rw [tryIds_cons, if_pos hnone]
        exact hrun
      · obtain ⟨response, hresponse, hlabels⟩ := hanswered id List.mem_cons_self n hn
        have hperformer :
            (performer U track.artist response (performersOf entities id)).isSome = true ↔
              Reached U labels track.artist entities id := performer_isSome_iff hlabels
        have hask : tryIds U track entities (id :: ids) web n =
            (match performer U track.artist response (performersOf entities id) with
              | some artist => (pure [document U track id artist (render (entityOf entities id)
                  response (Keys.baseTitle U track.song) artist)] : Fetch (List NewDocument))
              | none => tryIds U track entities ids) web (n + 1) := by
          rw [tryIds_cons, if_neg hnone]
          exact run_bind (run_getJson hresponse)
        -- the first candidate with a performer of the right name ends the loop
        cases hfound : performer U track.artist response (performersOf entities id) with
        | some artist =>
            rw [hfound] at hask hperformer
            refine ⟨_, n + 1, hask, iff_of_true (List.cons_ne_nil _ _) ?_⟩
            exact ⟨id, List.mem_cons_self, hperformer.1 rfl⟩
        | none =>
            rw [hfound] at hask hperformer
            obtain ⟨docs, m, hrun, hdocs⟩ := hrest (n + 1) (Nat.le_succ_of_le hn)
            refine ⟨docs, m, hask.trans hrun, hskip ?_ docs hdocs⟩
            exact fun hreached => Bool.false_ne_true (hperformer.2 hreached)

/-- **Which tracks Wikidata has.** Every request is answered, those for labels with the labels of
the ids that were asked for. Then a document is found exactly when, for one of the candidates, a
performer with the name of a credited artist is among the first 45 ids of its statements, of which
its performers are the last. -/
theorem fetch_finds_iff (U : UnicodeTables) (labels : Labels) (track : TrackRequest) (scope : Scope)
    (hsong : scope.song = true) (web : Web) (search entities : Json)
    (hsearch : web.json 0 (searchUrl (Keys.baseTitle U track.song)) = .ok search)
    (hentities : web.json 1 (entitiesUrl (hitIds U search (Keys.baseTitle U track.song))) =
      .ok entities)
    (hanswered : LabelsAnswered labels entities web
      (hitIds U search (Keys.baseTitle U track.song))) :
    ∃ docs, (fetch U track scope).result web = .ok docs ∧
      (docs ≠ [] ↔ ∃ id ∈ hitIds U search (Keys.baseTitle U track.song),
        Reached U labels track.artist entities id) := by
  by_cases hnone : hitIds U search (Keys.baseTitle U track.song) = []
  · refine ⟨[], ?_, by simp [hnone]⟩
    have hrun : (fetch U track scope) web 0 = .ok ([], 1) := by
      rw [fetch, fetchIf, if_pos hsong]
      refine (run_bind (run_getJson hsearch)).trans ?_
      rw [if_pos hnone]
      rfl
    rw [Fetch.result, hrun]
    rfl
  · obtain ⟨docs, m, hrun, hdocs⟩ :=
      @tryIds_finds U labels track entities web _ hanswered 2 (Nat.le_refl 2)
    refine ⟨docs, ?_, hdocs⟩
    have hfetch : (fetch U track scope) web 0 = .ok (docs, m) := by
      rw [fetch, fetchIf, if_pos hsong]
      refine (run_bind (run_getJson hsearch)).trans ?_
      rw [if_neg hnone]
      exact (run_bind (run_getJson hentities)).trans hrun
    rw [Fetch.result, hfetch]
    rfl

end Loop

/-- A performer whose Japanese label would match. -/
def twoLabels : Labels := fun id lang =>
  if id = "Q2092".toList ∧ lang = "en".toList then some "Eagles Band".toList
  else if id = "Q2092".toList ∧ lang = "ja".toList then some "Eagles".toList
  else none

-- the label behind the English one is never compared
example : firstLabel twoLabels "Q2092".toList = some "Eagles Band".toList ∧
    key asciiTables "Eagles Band".toList ≠ key asciiTables "Eagles".toList := by decide

/-! ## Long entities -/

/-- An object with the members that the function has values for. -/
def objectOf (f : Str → Option Json) (keys : List Str) : Json :=
  .obj (keys.filterMap fun k => (f k).map fun v => (k, v))

theorem index_objectOf (f : Str → Option Json) (keys : List Str) (k : Str) :
    (objectOf f keys).index k = if k ∈ keys then (f k).getD .null else .null := by
  have hlookup : StrMap.lookup k (keys.filterMap fun k => (f k).map fun v => (k, v)) =
      if k ∈ keys then f k else none := by
    induction keys with
    | nil => rfl
    | cons other keys ih =>
        by_cases h : other = k
        · subst h
          rw [if_pos List.mem_cons_self, List.filterMap_cons]
          cases hf : f other with
          | none => simp [ih, hf]
          | some v => simp [StrMap.lookup_cons]
        · have hmem : k ∈ other :: keys ↔ k ∈ keys := by simp [Ne.symm h]
          simp only [hmem, ← ih]
          rw [List.filterMap_cons]
          cases f other with
          | none => rfl
          | some v => exact if_neg h
  show (StrMap.lookup k _).getD Json.null = _
  rw [hlookup]
  split_ifs <;> rfl

/-- A response with the labels of the ids. -/
def labelsResponse (labels : Labels) (ids : List Str) : Json :=
  .obj [("entities".toList, objectOf (fun id => some (.obj [("labels".toList,
    objectOf (fun lang => (labels id lang).map fun l => .obj [("value".toList, .str l)])
      languages)])) ids)]

theorem answers_labelsResponse (labels : Labels) (ids : List Str) :
    Answers labels ids (labelsResponse labels ids) := by
  intro id lang hlang
  have hentities : (labelsResponse labels ids).index "entities".toList =
      objectOf (fun id => some (.obj [("labels".toList, objectOf (fun lang =>
        (labels id lang).map fun l => .obj [("value".toList, .str l)]) languages)])) ids := rfl
  rw [labelIn, hentities, index_objectOf]
  split_ifs with hid
  · show (((objectOf _ languages).index lang).index "value".toList).asStr = _
    rw [index_objectOf, if_pos hlang]
    cases labels id lang <;> rfl
  · rfl

/-- A statement about an item. -/
def statement (id : Str) : Json :=
  .obj [("mainsnak".toList, .obj [("datavalue".toList, .obj [("value".toList,
    .obj [("id".toList, .str id)])])])]

/-- The song with so many composers, fewer than a hundred, and a performer. -/
def hotelCalifornia (composers : Nat) : Json :=
  .obj [("entities".toList, .obj [("Q780394".toList, .obj [("claims".toList, .obj [
    ("P175".toList, .arr [statement "Q2092".toList]),
    ("P86".toList, .arr ((List.range composers).map fun n =>
      statement ("Q3".toList ++ [Char.ofNat (48 + n / 10), Char.ofNat (48 + n % 10)])))])])])]

/-- The label of the performer. -/
def eaglesLabel : Labels := fun id lang =>
  if id = "Q2092".toList ∧ lang = "en".toList then some "Eagles".toList else none

/-- The track that is looked for. -/
def hotelTrack : TrackRequest := ⟨"Hotel California".toList, "Eagles".toList, none⟩

/-- The search finds the entity. -/
def hotelSearch : Json :=
  .obj [("search".toList, .arr [.obj [("id".toList, .str "Q780394".toList),
    ("label".toList, .str "Hotel California".toList)]])]

/-- A search, the entities and then labels. -/
def hotelWeb (composers : Nat) : Web where
  json n _ :=
    match n with
    | 0 => .ok hotelSearch
    | 1 => .ok (hotelCalifornia composers)
    | _ => .ok (labelsResponse eaglesLabel (askedOf (hotelCalifornia composers) "Q780394".toList))
  text _ _ := .error (.permanent [])

theorem hitIds_hotelSearch : hitIds asciiTables hotelSearch
    (Keys.baseTitle asciiTables "Hotel California".toList) = ["Q780394".toList] := by
  decide +kernel

theorem labelsAnswered_hotelWeb (composers : Nat) :
    LabelsAnswered eaglesLabel (hotelCalifornia composers) (hotelWeb composers)
      ["Q780394".toList] := by
  intro id hid n hn
  rw [List.mem_singleton.1 hid]
  obtain ⟨m, rfl⟩ := Nat.exists_eq_add_of_le' hn
  exact ⟨_, rfl, answers_labelsResponse _ _⟩

theorem named_hotelCalifornia (composers : Nat) :
    Named asciiTables eaglesLabel "Eagles".toList (hotelCalifornia composers)
      "Q780394".toList := by
  refine ⟨"Q2092".toList, List.mem_singleton_self _, "Eagles".toList, rfl, "Eagles".toList, ?_, rfl⟩
  decide +kernel

/-- With one composer the song is found. -/
theorem fetch_finds_hotel_california :
    ∃ docs, (fetch asciiTables hotelTrack ⟨true, true, true⟩).result (hotelWeb 1) = .ok docs ∧
      docs ≠ [] := by
  obtain ⟨docs, hrun, hdocs⟩ := fetch_finds_iff asciiTables eaglesLabel hotelTrack
    ⟨true, true, true⟩ rfl (hotelWeb 1) hotelSearch (hotelCalifornia 1) rfl rfl
    (hitIds_hotelSearch ▸ labelsAnswered_hotelWeb 1)
  refine ⟨docs, hrun, hdocs.2 ⟨"Q780394".toList, ?_, ?_⟩⟩
  · exact hitIds_hotelSearch ▸ List.mem_singleton_self _
  · exact (named_hotelCalifornia 1).reached (by decide)

/-- With 45 composers nothing is found, although the performer has the artist's name. -/
theorem not_fetch_finds_composers :
    hitIds asciiTables hotelSearch (Keys.baseTitle asciiTables hotelTrack.song) =
      ["Q780394".toList] ∧
    Named asciiTables eaglesLabel hotelTrack.artist (hotelCalifornia 45) "Q780394".toList ∧
    (performersOf (hotelCalifornia 45) "Q780394".toList).length = 1 ∧
    LabelsAnswered eaglesLabel (hotelCalifornia 45) (hotelWeb 45) ["Q780394".toList] ∧
    (fetch asciiTables hotelTrack ⟨true, true, true⟩).result (hotelWeb 45) = .ok [] := by
  refine ⟨hitIds_hotelSearch, named_hotelCalifornia 45, by decide, labelsAnswered_hotelWeb 45, ?_⟩
  have hempty : ((fetch asciiTables hotelTrack ⟨true, true, true⟩).result
      (hotelWeb 45)).toOption.map List.isEmpty = some true := by decide +kernel
  generalize (fetch asciiTables hotelTrack ⟨true, true, true⟩).result (hotelWeb 45) = result
    at hempty ⊢
  cases result with
  | error e => cases hempty
  | ok docs =>
      obtain rfl := List.isEmpty_iff.1 (Option.some.inj hempty)
      rfl

end AnyPlayerSync.Sources.Wikidata
