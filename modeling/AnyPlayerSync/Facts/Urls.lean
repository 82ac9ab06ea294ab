import AnyPlayerSync.Facts.FactSources
import AnyPlayerSync.Foundation.Percent

/-!
# The URLs of facts

The part of a Wikipedia URL after `/wiki/` is an encoding of the id's bytes, with spaces as
underscores. So an accepted URL is known by its source and its id (`canonical_injective`).
-/

set_option autoImplicit false

namespace AnyPlayerSync.Facts.FactSources

open AnyPlayerSync.Foundation
open AnyPlayerSync.Foundation.Percent

/-! ## Titles -/

/-- A title as it stands in a URL. -/
def underscored (id : Str) : Str := id.map fun c => if c = ' ' then '_' else c

/-- A character that stands for itself in the URL of a title. -/
def IsPlain (c : Char) : Prop := c.isAlphanum = true ∨ c ∈ "_-.*".toList

instance (c : Char) : Decidable (IsPlain c) := inferInstanceAs (Decidable (_ ∨ _))

/-- A byte that `wiki_title_url` keeps. -/
def keepsByte (b : UInt8) : Bool :=
  isAsciiAlphanumeric b || "_-.*".toList.any fun c => c.toUInt8 == b

theorem wikiTitleUrl_eq (id : Str) :
    wikiTitleUrl id = encode keepsByte (utf8 (underscored id)) := rfl

theorem forall_byte {P : UInt8 → Prop} (h : ∀ n : Fin 256, P (UInt8.ofNat n)) (b : UInt8) :
    P b := by
  have hb := h ⟨b.toNat, b.toNat_lt⟩
  rwa [UInt8.ofNat_toNat] at hb

theorem ascii_of_keepsByte (b : UInt8) : keepsByte b = true → b.toNat < 128 :=
  forall_byte (P := fun b => keepsByte b = true → b.toNat < 128) (by decide +kernel) b

theorem isPlain_of_keepsByte (b : UInt8) : keepsByte b = true → IsPlain (Char.ofNat b.toNat) :=
  forall_byte (P := fun b => keepsByte b = true → IsPlain (Char.ofNat b.toNat))
    (by decide +kernel) b

theorem escaped_wikiTitleUrl (id : Str) : Escaped IsPlain (wikiTitleUrl id) := by
  rw [wikiTitleUrl_eq]
  exact escaped_encode isPlain_of_keepsByte _

theorem decode_wikiTitleUrl (id : Str) : decode (wikiTitleUrl id) = utf8 (underscored id) := by
  rw [wikiTitleUrl_eq]
  exact decode_encode ascii_of_keepsByte (by decide) _

/-- Titles have one URL when they differ in spaces and underscores only. -/
theorem wikiTitleUrl_inj {id id' : Str} :
    wikiTitleUrl id = wikiTitleUrl id' ↔ underscored id = underscored id' := by
  constructor
  · intro h
    have hbytes := congrArg decode h
    rwa [decode_wikiTitleUrl, decode_wikiTitleUrl, utf8_inj] at hbytes
  · intro h
    rw [wikiTitleUrl_eq, wikiTitleUrl_eq, h]

/-! ## Sources -/

/-- What comes before the id. -/
def base (source : Str) : Str :=
  match wikipediaLang source with
  | some lang => "https://".toList ++ lang ++ ".wikipedia.org/wiki/".toList
  | none =>
      if source = "wikidata".toList then "https://www.wikidata.org/wiki/".toList
      else "https://musicbrainz.org/recording/".toList

/-- The id as it stands in the URL. -/
def urlId (source id : Str) : Str :=
  match wikipediaLang source with
  | some _ => wikiTitleUrl id
  | none => id

/-- The ids are the same for the source: titles up to spaces and underscores. -/
def SameId (source id id' : Str) : Prop :=
  match wikipediaLang source with
  | some _ => underscored id = underscored id'
  | none => id = id'

theorem urlId_inj {source id id' : Str} : urlId source id = urlId source id' ↔
    SameId source id id' := by
  rw [urlId, urlId, SameId]
  cases wikipediaLang source with
  | some lang => exact wikiTitleUrl_inj
  | none => exact Iff.rfl

/-- The first characters of a URL tell its source. -/
theorem source_of_base : ∀ source ∈ acceptedSources, ∀ source' ∈ acceptedSources,
    10 ≤ (base source).length ∧
      ((base source).take 10 = (base source').take 10 → source = source') := by
  decide

section Canonical

variable {U : UnicodeTables}

theorem canonical_eq {source id url : Str} (h : canonical U source id = some url) :
    url = base source ++ urlId source id := by
  rw [canonical] at h
  rw [base, urlId]
  cases hlang : wikipediaLang source with
  | some lang =>
      rw [hlang] at h
      dsimp only at h
      split_ifs at h
      exact (Option.some.inj h).symm
  | none =>
      rw [hlang] at h
      dsimp only at h
      split_ifs at h with hwikidata hmusicbrainz
      · rw [if_pos hwikidata.1]
        exact (Option.some.inj h).symm
      · have hne : source ≠ "wikidata".toList := by
          rw [hmusicbrainz.1]
          decide
        rw [if_neg hne]
        exact (Option.some.inj h).symm

theorem canonical_inj {source source' id id' url url' : Str}
    (h : canonical U source id = some url) (h' : canonical U source' id' = some url') :
    url = url' ↔ source = source' ∧ SameId source id id' := by
  obtain ⟨hlen, htells⟩ := source_of_base source (canonical_mem h) source' (canonical_mem h')
  obtain ⟨hlen', -⟩ := source_of_base source' (canonical_mem h') source (canonical_mem h)
  rw [canonical_eq h, canonical_eq h']
  constructor
  · intro hsame
    -- ten characters tell the source, so equal URLs have equal sources
    have hbase : (base source).take 10 = (base source').take 10 := by
      have htake := congrArg (List.take 10) hsame
      rwa [List.take_append_of_le_length hlen, List.take_append_of_le_length hlen'] at htake
    obtain rfl := htells hbase
    exact ⟨rfl, urlId_inj.1 (List.append_cancel_left hsame)⟩
  · rintro ⟨rfl, hid⟩
    rw [urlId_inj.2 hid]

/-- **Canonical URLs.** What stands after `/wiki/` in the URL of a Wikipedia page are plain
characters and escapes, and reads as the id with underscores. Two accepted identities have one URL
exactly when they have one source and the same id. -/
theorem canonical_injective :
    (∀ source lang id url : Str, wikipediaLang source = some lang →
      canonical U source id = some url →
        ∃ path, url = "https://".toList ++ lang ++ ".wikipedia.org/wiki/".toList ++ path ∧
          Escaped IsPlain path ∧ decode path = bytes (underscored id)) ∧
    ∀ source source' id id' url url' : Str, canonical U source id = some url →
      canonical U source' id' = some url' →
        (url = url' ↔ source = source' ∧ SameId source id id') := by
  constructor
  · intro source lang id url hlang h
    refine ⟨wikiTitleUrl id, ?_, escaped_wikiTitleUrl id, decode_wikiTitleUrl id⟩
    rw [canonical_eq h, base, urlId, hlang]
  · exact fun source source' id id' url url' h h' => canonical_inj h h'

end Canonical

/-- One page under two ids, and one id of two sources. -/
theorem canonical_injective_my_song :
    (∃ path, canonical asciiTables "wikipedia".toList "My Song?".toList =
        some ("https://".toList ++ "en".toList ++ ".wikipedia.org/wiki/".toList ++ path) ∧
      Escaped IsPlain path ∧ decode path = bytes (underscored "My Song?".toList)) ∧
    canonical asciiTables "wikipedia".toList "My Song?".toList =
      canonical asciiTables "wikipedia".toList "My_Song?".toList ∧
    SameId "wikipedia".toList "My Song?".toList "My_Song?".toList ∧
    canonical asciiTables "wikidata".toList "Q42".toList ≠
      canonical asciiTables "wikipedia".toList "Q42".toList := by
  have hspace : canonical asciiTables "wikipedia".toList "My Song?".toList =
      some "https://en.wikipedia.org/wiki/My_Song%3F".toList := by decide +kernel
  have hunderscore : canonical asciiTables "wikipedia".toList "My_Song?".toList =
      some "https://en.wikipedia.org/wiki/My_Song%3F".toList := by decide +kernel
  have hpage : canonical asciiTables "wikipedia".toList "Q42".toList =
      some "https://en.wikipedia.org/wiki/Q42".toList := by decide +kernel
  have hentity : canonical asciiTables "wikidata".toList "Q42".toList =
      some "https://www.wikidata.org/wiki/Q42".toList := by decide +kernel
  refine ⟨?_, hspace.trans hunderscore.symm, ?_, ?_⟩
  · obtain ⟨path, hurl, hplain, hdecode⟩ := canonical_injective.1 _ _ _ _ rfl hspace
    exact ⟨path, hspace.trans (congrArg some hurl), hplain, hdecode⟩
  · exact ((canonical_injective.2 _ _ _ _ _ _ hspace hunderscore).1 rfl).2
  · intro hsame
    rw [hentity, hpage, Option.some.injEq] at hsame
    have hsource := ((canonical_injective.2 _ _ _ _ _ _ hentity hpage).1 hsame).1
    revert hsource
    decide

end AnyPlayerSync.Facts.FactSources
