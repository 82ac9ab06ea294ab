import AnyPlayerSync.Facts.Urls
import AnyPlayerSync.Sources.Articles

/-!
# Links

The link that is stored with a Wikipedia document, read as a URL. `find` writes the title into the
path as it is, but for its spaces, where `wiki_title_url` encodes it; the link leads to the article
exactly when no character of the title has a meaning in a URL (`source_url_leads_iff`).
-/

set_option autoImplicit false

namespace AnyPlayerSync.Sources.Wikipedia

open AnyPlayerSync.Foundation
open AnyPlayerSync.Foundation.Percent
open AnyPlayerSync.Passages
open AnyPlayerSync.Facts.FactSources (underscored wikiTitleUrl escaped_wikiTitleUrl
  decode_wikiTitleUrl)

/-- The URL is that of the page of the title: it has no query and no fragment, and what stands after
`/wiki/` reads as the title. It is split by the generic syntax of URLs. What a browser does to a URL
of the web beyond that, which is to take a backslash for a slash and to resolve dot segments, is no
part of it. -/
structure LeadsTo (url lang title : Str) : Prop where
  scheme : (readUrl url).scheme = some "https".toList
  authority : (readUrl url).authority = some (lang ++ ".wikipedia.org".toList)
  query : (readUrl url).query = none
  fragment : (readUrl url).fragment = none
  path : ∃ path, (readUrl url).path = "/wiki/".toList ++ path ∧
    decode path = utf8 (underscored title)

/-- The URL of a page, by what stands after `/wiki/`. -/
def wikiUrl (lang path : Str) : Str :=
  "https://".toList ++ lang ++ ".wikipedia.org/wiki/".toList ++ path

/-- No character has a meaning in a URL: there is no question mark, no number sign, and no percent
sign that two hexadecimal digits follow. -/
def Inert (title : Str) : Prop := '?' ∉ title ∧ '#' ∉ title ∧ ¬ HasEscape title

section Urls

variable {lang : Str}

theorem readUrl_wikiUrl (hlang : lang ∈ langs) (path : Str) :
    readUrl (wikiUrl lang path) =
      { scheme := some "https".toList
        authority := some (lang ++ ".wikipedia.org".toList)
        path := "/wiki/".toList ++ (cut '?' (cut '#' path).1).1
        query := (cut '?' (cut '#' path).1).2
        fragment := (cut '#' path).2 } := by
  have hauthority : ∀ lang ∈ langs, ∀ c ∈ ['#', '?', '/'],
      c ∉ lang ++ ".wikipedia.org".toList := by
    simp [langs]
  have hsplit : wikiUrl lang path = "https".toList ++ ("://".toList ++
      (lang ++ ".wikipedia.org".toList ++ '/' :: ("wiki/".toList ++ path))) := by
    change "https://".toList ++ lang ++ ".wikipedia.org/wiki/".toList ++ path = _
    simp only [List.append_assoc]
    rfl
  have hscheme : ∀ c ∈ ['#', '?', ':', '/'], c ∉ "https".toList := by simp
  have hhash : '#' ∉ "wiki/".toList := by decide
  have hquestion : '?' ∉ "wiki/".toList := by decide
  -- the fragment is cut off first, then the query of what is left
  rw [hsplit, readUrl_append (by decide) hscheme (hauthority lang hlang), cut_append hhash]
  dsimp only
  rw [cut_append hquestion]
  rfl

/-- A link leads to the article when its text is not cut and reads as the title. -/
theorem leadsTo_wikiUrl_iff (hlang : lang ∈ langs) {path title : Str} :
    LeadsTo (wikiUrl lang path) lang title ↔
      '?' ∉ path ∧ '#' ∉ path ∧ decode path = utf8 (underscored title) := by
  have hread := readUrl_wikiUrl hlang path
  constructor
  · rintro ⟨-, -, hquery, hfragment, ⟨part, hpath, hdecode⟩⟩
    simp only [hread] at hquery hfragment hpath
    have hhash : '#' ∉ path := cut_snd_eq_none_iff.1 hfragment
    simp only [cut_of_not_mem hhash] at hquery hpath
    have hquestion : '?' ∉ path := cut_snd_eq_none_iff.1 hquery
    simp only [cut_of_not_mem hquestion] at hpath
    have hpart : path = part := List.append_cancel_left hpath
    exact ⟨hquestion, hhash, hpart ▸ hdecode⟩
  · rintro ⟨hquestion, hhash, hdecode⟩
    rw [cut_of_not_mem hhash, cut_of_not_mem hquestion] at hread
    constructor
    · rw [hread]
    · rw [hread]
    · rw [hread]
    · rw [hread]
    · exact ⟨path, by rw [hread], hdecode⟩

/-- The encoder of the fact links always leads to the page. -/
theorem leadsTo_wikiTitleUrl (hlang : lang ∈ langs) (title : Str) :
    LeadsTo (wikiUrl lang (wikiTitleUrl title)) lang title := by
  have hplain := escaped_wikiTitleUrl title
  refine (leadsTo_wikiUrl_iff hlang).2 ⟨?_, ?_, decode_wikiTitleUrl title⟩
  · exact hplain.not_mem (by decide) (by decide) (by decide)
  · exact hplain.not_mem (by decide) (by decide) (by decide)

theorem escaped_underscore (c a b : Char) :
    escaped (if c = ' ' then '_' else c) (if a = ' ' then '_' else a) (if b = ' ' then '_' else b) =
      escaped c a b := by
  -- a space becomes an underscore, which is no hexadecimal digit either
  have hhex : ∀ d : Char, hexValue (if d = ' ' then '_' else d) = hexValue d := by
    intro d
    split_ifs with hd
    · rw [hd]
      decide
    · rfl
  have hpercent : (if c = ' ' then '_' else c) = '%' ↔ c = '%' := by
    split_ifs with hc
    · rw [hc]
      decide
    · exact Iff.rfl
  simp only [escaped, hhex, hpercent]

theorem mem_underscored_iff {c : Char} (hspace : c ≠ ' ') (hunderscore : c ≠ '_') {title : Str} :
    c ∈ underscored title ↔ c ∈ title := by
  rw [underscored, List.mem_map]
  constructor
  · rintro ⟨d, hd, hdc⟩
    split_ifs at hdc with h
    · exact absurd hdc.symm hunderscore
    · exact hdc ▸ hd
  · exact fun hc => ⟨c, hc, if_neg hspace⟩

/-- The title as `find` writes it. -/
theorem leadsTo_underscored_iff (hlang : lang ∈ langs) (title : Str) :
    LeadsTo (wikiUrl lang (underscored title)) lang title ↔ Inert title := by
  rw [leadsTo_wikiUrl_iff hlang, decode_eq_utf8_iff, underscored,
    hasEscape_map escaped_underscore, ← underscored, Inert,
    mem_underscored_iff (by decide) (by decide), mem_underscored_iff (by decide) (by decide)]

end Urls

section Documents

variable {U : UnicodeTables} {lang : Str}

/-- **The stored link.** The link of a document that a search returns leads to the article of its
title exactly when no character of the title has a meaning in a URL. The URL that `wiki_title_url`
makes of the title always does. -/
theorem source_url_leads_iff (hlang : lang ∈ langs) {search : Search} {d : NewDocument}
    (h : Yields (search.find U lang) (some d)) :
    (LeadsTo d.sourceUrl lang d.title ↔ Inert d.title) ∧
      LeadsTo (wikiUrl lang (wikiTitleUrl d.title)) lang d.title := by
  obtain ⟨page, -, rfl⟩ := find_yields h
  exact ⟨leadsTo_underscored_iff hlang page.1, leadsTo_wikiTitleUrl hlang page.1⟩

end Documents

/-- A search for the song of that title. -/
def titleSearch (title : String) : Search :=
  songSearch asciiTables ⟨title.toList, "An Artist".toList, none⟩

/-- The document of an article that names the artist. -/
def titleDocument (title : String) : NewDocument :=
  (titleSearch title).document asciiTables "en".toList
    (title.toList, "A song recorded by An Artist.".toList)

theorem yields_titleDocument {title : String}
    (h : (titleSearch title).Accepts asciiTables
      (title.toList, "A song recorded by An Artist.".toList)) :
    Yields ((titleSearch title).find asciiTables "en".toList) (some (titleDocument title)) := by
  obtain ⟨n, hrun⟩ := find_article asciiTables "en".toList title.toList
    "A song recorded by An Artist.".toList (titleSearch title) 0
  rw [Search.inArticle, if_pos h] at hrun
  exact ⟨_, 0, n, hrun⟩

/-- The link of a title of letters and spaces leads to its article. -/
theorem source_url_leads_my_song :
    LeadsTo (titleDocument "My Song").sourceUrl "en".toList "My Song".toList ∧
    LeadsTo (wikiUrl "en".toList (wikiTitleUrl "My Song".toList)) "en".toList
      "My Song".toList := by
  have hinert : Inert "My Song".toList := by
    refine ⟨by decide, by decide, ?_⟩
    rintro ⟨a, b, -, hinfix⟩
    have hpercent : '%' ∈ "My Song".toList := hinfix.subset List.mem_cons_self
    revert hpercent
    decide
  have h := @source_url_leads_iff asciiTables "en".toList (by decide) _ _
    (@yields_titleDocument "My Song" (by decide +kernel))
  exact ⟨h.1.2 hinert, h.2⟩

/-- The link of the article "Why?" leads to the article "Why", with an empty query. -/
theorem not_source_url_leads_why :
    Yields ((titleSearch "Why?").find asciiTables "en".toList) (some (titleDocument "Why?")) ∧
    (titleDocument "Why?").title = "Why?".toList ∧
    (titleDocument "Why?").sourceUrl = "https://en.wikipedia.org/wiki/Why?".toList ∧
    (readUrl (titleDocument "Why?").sourceUrl).path = "/wiki/Why".toList ∧
    ¬ LeadsTo (titleDocument "Why?").sourceUrl "en".toList "Why?".toList := by
  refine ⟨yields_titleDocument (by decide +kernel), by decide, by decide, by decide, ?_⟩
  intro h
  have hquery : (readUrl (titleDocument "Why?").sourceUrl).query = some [] := by decide
  exact absurd (hquery.symm.trans h.query) (Option.some_ne_none _)

end AnyPlayerSync.Sources.Wikipedia
