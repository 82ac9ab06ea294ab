import AnyPlayerSync.Foundation.Percent
import AnyPlayerSync.Server.Handlers

/-!
# Catalogs of models and voices

`load_dj_catalog` of `main.rs`, once for the script models and once for the voices. The manifest's
files are looked at twice: a first pass checks every entry, a second one hashes the files and drops
those that cannot be read any more. Each access finds the file system as it is at that moment, so a
file may vanish between the two passes.

A catalog that was loaded is well formed in either mode, and its default is one of its entries
(`loadDjCatalog_wellFormed`).
-/

set_option autoImplicit false

namespace AnyPlayerSync.Server

open AnyPlayerSync.Foundation
open AnyPlayerSync.Foundation.Percent (utf8)
open AnyPlayerSync.Foundation.Program
open AnyPlayerSync.Sync (ApiError UserId)

/-! ## The file system -/

/-- What is asked of a file. -/
structure FileMetadata where
  isFile : Bool
  len : Nat

/-- An open file, with the answers to its reads. -/
structure OpenFile where
  metadata : Except Str FileMetadata
  reads : List (Except Str (List UInt8))

/-- What the file system answers at one moment. -/
structure FileSystem where
  readToString : Str → Except Str Str
  metadata : Str → Except Str FileMetadata
  openFile : Str → Except Str OpenFile

/-- The bytes of the reads up to the first empty one; `none` when a read fails. -/
def readAll : List (Except Str (List UInt8)) → Option (List UInt8)
  | [] => some []
  | .error _ :: _ => none
  | .ok buf :: reads => if buf = [] then some [] else (readAll reads).map (buf ++ ·)

/-! ## Manifests -/

/-- A model as the manifest lists it. -/
structure DjManifestEntry where
  id : Str
  name : Str
  version : Str
  path : Str
  deriving DecidableEq

/-- A parsed manifest. -/
structure DjCatalogManifest where
  defaultId : Option Str
  entries : List DjManifestEntry

/-- A file that was read in full. -/
structure DjModelInfo where
  path : Str
  version : Str
  sizeBytes : Nat
  sha256 : Str

/-- `u8::is_ascii_alphanumeric`. -/
def isAsciiAlphanumeric (b : UInt8) : Bool :=
  (48 ≤ b && b ≤ 57) || (65 ≤ b && b ≤ 90) || (97 ≤ b && b ≤ 122)

/-- `is_safe_voice_component`. -/
def isSafeVoiceComponent (value : Str) : Bool :=
  let bytes := utf8 value
  decide (1 ≤ bytes.length ∧ bytes.length ≤ 128) && bytes.head?.any isAsciiAlphanumeric &&
    -- `.`, `_` and `-`
    bytes.tail.all fun b => isAsciiAlphanumeric b || b == 46 || b == 95 || b == 45

/-- The closure `has_format`. -/
def hasFormat (formats : List Str) (path : Str) : Bool :=
  formats.isEmpty || (extension path).any fun ext => formats.contains ext

/-! ## Loading -/

section Load

variable (sha256 : List UInt8 → Str) (parse : Str → Except Str DjCatalogManifest)
  (fs : Nat → FileSystem)

/-- `load_dj_model_info` at one moment. -/
def loadDjModelInfo (now : FileSystem) (path : Option Str) (version : Str) :
    Option DjModelInfo := do
  let path ← path
  let file ← (now.openFile path).toOption
  let metadata ← file.metadata.toOption
  guard metadata.isFile
  let bytes ← readAll file.reads
  return ⟨path, version, metadata.len, sha256 bytes⟩

/-- The first pass over the manifest, from the moment `n` on; `ids` are those of the entries
before. -/
def checkEntries (kind : Str) (formats : List Str) :
    Nat → List Str → List DjManifestEntry → Except Str (List Str)
  | _, ids, [] => .ok ids
  | n, ids, entry :: entries =>
      if !isSafeVoiceComponent entry.id || !isSafeVoiceComponent entry.version then
        .error (kind ++ " manifest contains an unsafe id or version".toList)
      else if !entry.path.head?.any (· = '/') then
        .error (kind ++ " manifest paths must be absolute".toList)
      else if !hasFormat formats entry.path then
        .error (kind ++ " manifest file ".toList ++ entry.path ++ " must be one of: ".toList ++
          Text.join ", ".toList formats)
      else
        match (fs n).metadata entry.path with
        | .error err =>
            .error (kind ++ " manifest file ".toList ++ entry.path ++ " is unavailable: ".toList ++
              err)
        | .ok metadata =>
            if !metadata.isFile then
              .error (kind ++ " manifest file ".toList ++ entry.path ++
                " is not a regular file".toList)
            else if entry.id ∈ ids then
              .error (kind ++ " manifest contains duplicate id '".toList ++ entry.id ++ "'".toList)
            else checkEntries kind formats (n + 1) (entry.id :: ids) entries

/-- The second pass: the entries whose files can be hashed. -/
def loadEntries : Nat → List DjManifestEntry → List DjCatalogEntry
  | _, [] => []
  | n, entry :: entries =>
      match loadDjModelInfo sha256 (fs n) (some entry.path) entry.version with
      | none => loadEntries (n + 1) entries
      | some info =>
          ⟨⟨entry.id, entry.name, info.version, info.sizeBytes, info.sha256⟩, info.path⟩ ::
            loadEntries (n + 1) entries

/-- `load_dj_catalog` without a manifest. -/
def loadLegacy (kind : Str) (legacyPath : Option Str) (legacyVersion : Str) (formats : List Str) :
    Except Str DjCatalog :=
  let load :=
    let entries := ((loadDjModelInfo sha256 (fs 0) legacyPath legacyVersion).map fun info =>
      (⟨⟨"default".toList, "Default".toList, info.version, info.sizeBytes, info.sha256⟩,
        info.path⟩ : DjCatalogEntry)).toList
    .ok ⟨if entries.isEmpty then none else some "default".toList, entries⟩
  match legacyPath with
  | none => load
  | some path =>
      if !isSafeVoiceComponent legacyVersion then
        .error ("legacy ".toList ++ kind ++ " version is unsafe".toList)
      else if !hasFormat formats path then
        .error ("legacy ".toList ++ kind ++ " file must be one of: ".toList ++
          Text.join ", ".toList formats)
      else load

/-- The manifest at a path, read at the moment 0. -/
def readManifest (kind manifestPath : Str) : Except Str DjCatalogManifest :=
  match (fs 0).readToString manifestPath with
  | .error err =>
      .error ("failed to read ".toList ++ kind ++ " manifest ".toList ++ manifestPath ++
        ": ".toList ++ err)
  | .ok source =>
      match parse source with
      | .error err =>
          .error ("invalid ".toList ++ kind ++ " manifest ".toList ++ manifestPath ++
            ": ".toList ++ err)
      | .ok manifest => .ok manifest

/-- `load_dj_catalog` for a manifest that was read. -/
def loadManifest (kind : Str) (manifest : DjCatalogManifest) (formats : List Str) :
    Except Str DjCatalog :=
  if manifest.defaultId.any fun id => !isSafeVoiceComponent id then
    .error (kind ++ " manifest default_id is unsafe".toList)
  else
    match checkEntries fs kind formats 1 [] manifest.entries with
    | .error err => .error err
    | .ok ids =>
        let entries := loadEntries sha256 fs (1 + manifest.entries.length) manifest.entries
        if manifest.defaultId.any fun id => !ids.contains id then
          .error (kind ++ " manifest default_id is not in the manifest".toList)
        else if entries.isEmpty then .error (kind ++ " manifest has no usable files".toList)
        else if manifest.defaultId.any fun id =>
            !entries.any fun entry => entry.descriptor.id = id then
          .error (kind ++ " manifest default_id file is unavailable".toList)
        else .ok ⟨manifest.defaultId, entries⟩

/-- `load_dj_catalog`. -/
def loadDjCatalog (kind : Str) (manifestPath legacyPath : Option Str) (legacyVersion : Str)
    (formats : List Str) : Except Str DjCatalog :=
  match manifestPath with
  | none => loadLegacy sha256 fs kind legacyPath legacyVersion formats
  | some manifestPath =>
      match readManifest parse fs kind manifestPath with
      | .error err => .error err
      | .ok manifest => loadManifest sha256 fs kind manifest formats

/-- `DJ_MODEL_FORMATS`. -/
def djModelFormats : List Str := ["task".toList, "litertlm".toList]

/-- Voices may have any extension. -/
def loadDjVoiceCatalog (manifestPath legacyPath : Option Str) (legacyVersion : Str) :
    Except Str DjCatalog :=
  loadDjCatalog sha256 parse fs "voice".toList manifestPath legacyPath legacyVersion []

/-- Models have one of the listed extensions. -/
def loadDjModelCatalog (manifestPath legacyPath : Option Str) (legacyVersion : Str) :
    Except Str DjCatalog :=
  loadDjCatalog sha256 parse fs "model".toList manifestPath legacyPath legacyVersion djModelFormats

end Load

/-! ## Well-formed catalogs -/

/-- What a catalog has of an entry of the manifest. -/
def DjCatalogEntry.source (entry : DjCatalogEntry) : DjManifestEntry :=
  ⟨entry.descriptor.id, entry.descriptor.name, entry.descriptor.version, entry.path⟩

/-- The ids are pairwise distinct, every id and version is safe, every file has one of the formats
(any, when there are none), and the default is an entry. -/
structure DjCatalog.WellFormed (formats : List Str) (catalog : DjCatalog) : Prop where
  distinct : (catalog.entries.map fun entry => entry.descriptor.id).Nodup
  safeId : ∀ entry ∈ catalog.entries, isSafeVoiceComponent entry.descriptor.id = true
  safeVersion : ∀ entry ∈ catalog.entries, isSafeVoiceComponent entry.descriptor.version = true
  format : formats ≠ [] →
    ∀ entry ∈ catalog.entries, ∃ ext ∈ formats, extension entry.path = some ext
  default : ∀ id, catalog.defaultId = some id →
    ∃ entry ∈ catalog.entries, catalog.find id = some entry

theorem isSafeVoiceComponent_nil : isSafeVoiceComponent [] = false := rfl

theorem exists_extension {formats : List Str} {path : Str} (h : hasFormat formats path = true)
    (hne : formats ≠ []) : ∃ ext ∈ formats, extension path = some ext := by
  simp only [hasFormat, Bool.or_eq_true, List.isEmpty_iff, hne, false_or, Option.any_eq_true,
    List.contains_iff_mem] at h
  obtain ⟨ext, hext, hmem⟩ := h
  exact ⟨ext, hmem, hext⟩

/-- The id of an entry finds an entry. -/
theorem exists_find {catalog : DjCatalog} {entry : DjCatalogEntry} (h : entry ∈ catalog.entries) :
    ∃ found ∈ catalog.entries, catalog.find entry.descriptor.id = some found := by
  cases hfind : catalog.find entry.descriptor.id with
  | none => simpa using List.find?_eq_none.1 hfind entry h
  | some found => exact ⟨found, List.mem_of_find?_eq_some hfind, rfl⟩

section Passes

variable {sha256 : List UInt8 → Str} {parse : Str → Except Str DjCatalogManifest}
  {fs : Nat → FileSystem} {kind : Str} {formats : List Str}

theorem loadDjModelInfo_eq_some {now : FileSystem} {path : Option Str} {version : Str}
    {info : DjModelInfo} (h : loadDjModelInfo sha256 now path version = some info) :
    path = some info.path ∧ info.version = version := by
  simp only [loadDjModelInfo, Option.bind_eq_bind, Option.bind_eq_some_iff] at h
  obtain ⟨path, rfl, file, -, metadata, -, -, -, bytes, -, h⟩ := h
  cases h
  exact ⟨rfl, rfl⟩

/-- What the first pass has checked of an entry. -/
structure Checked (formats : List Str) (entry : DjManifestEntry) : Prop where
  id : isSafeVoiceComponent entry.id = true
  version : isSafeVoiceComponent entry.version = true
  format : hasFormat formats entry.path = true

/-- The first pass accepts only entries that are checked and whose ids are new, and it returns the
ids. -/
theorem checkEntries_eq_ok (entries : List DjManifestEntry) : ∀ {n : Nat} {ids ids' : List Str},
    checkEntries fs kind formats n ids entries = .ok ids' →
      (∀ entry ∈ entries, Checked formats entry ∧ entry.id ∉ ids) ∧
      (entries.map DjManifestEntry.id).Nodup := by
  induction entries with
  | nil =>
      intro n ids ids' _
      exact ⟨fun entry hentry => (nomatch hentry), List.nodup_nil⟩
  | cons entry entries ih =>
      intro n ids ids' h
      cases hmeta : (fs n).metadata entry.path with
      | error err =>
          simp only [checkEntries, hmeta] at h
          split_ifs at h
      | ok metadata =>
          simp only [checkEntries, hmeta] at h
          -- every other branch is an error; an id that is not new is the last of them
          split_ifs at h with hsafe habsolute hformat hfile hmem
          obtain ⟨hchecked, hnodup⟩ := ih h
          have hentry : Checked formats entry := by
            simp only [Bool.or_eq_true, Bool.not_eq_true', not_or, Bool.not_eq_false] at hsafe
            exact ⟨hsafe.1, hsafe.2, by simpa using hformat⟩
          refine ⟨?_, ?_⟩
          · intro e he
            rcases List.mem_cons.1 he with rfl | he
            · exact ⟨hentry, hmem⟩
            · exact ⟨(hchecked e he).1, fun hids => (hchecked e he).2 (List.mem_cons_of_mem _ hids)⟩
          · rw [List.map_cons, List.nodup_cons]
            refine ⟨?_, hnodup⟩
            intro hids
            obtain ⟨e, he, heq⟩ := List.mem_map.1 hids
            apply (hchecked e he).2
            rw [heq]
            exact List.mem_cons_self

/-- The second pass only drops entries. -/
theorem loadEntries_sublist (entries : List DjManifestEntry) : ∀ n : Nat,
    ((loadEntries sha256 fs n entries).map DjCatalogEntry.source).Sublist entries := by
  induction entries with
  | nil => exact fun n => List.Sublist.slnil
  | cons entry entries ih =>
      intro n
      rw [loadEntries]
      cases hinfo : loadDjModelInfo sha256 (fs n) (some entry.path) entry.version with
      | none => exact (ih (n + 1)).cons entry
      | some info =>
          obtain ⟨hpath, hversion⟩ := loadDjModelInfo_eq_some hinfo
          have hsource : DjCatalogEntry.source ⟨⟨entry.id, entry.name, info.version,
              info.sizeBytes, info.sha256⟩, info.path⟩ = entry := by
            rw [DjCatalogEntry.source, ← Option.some.inj hpath, hversion]
          rw [List.map_cons, hsource]
          exact (ih (n + 1)).cons_cons entry

/-- What a manifest's catalog is when no check failed. -/
theorem loadManifest_eq_ok {manifest : DjCatalogManifest} {catalog : DjCatalog}
    (h : loadManifest sha256 fs kind manifest formats = .ok catalog) :
    (∃ ids, checkEntries fs kind formats 1 [] manifest.entries = .ok ids) ∧
      catalog.entries = loadEntries sha256 fs (1 + manifest.entries.length) manifest.entries ∧
      catalog.entries ≠ [] ∧ catalog.defaultId = manifest.defaultId ∧
      ∀ id, catalog.defaultId = some id → ∃ entry ∈ catalog.entries, entry.descriptor.id = id := by
  rw [loadManifest] at h
  cases hids : checkEntries fs kind formats 1 [] manifest.entries with
  | error err =>
      simp only [hids] at h
      split_ifs at h
  | ok ids =>
      simp only [hids] at h
      -- the checks of the default follow the second pass, so it is among what that pass kept
      split_ifs at h with hsafe hknown hempty hdefault
      cases h
      refine ⟨⟨ids, rfl⟩, rfl, by simpa using hempty, rfl, ?_⟩
      intro id hid
      replace hid : manifest.defaultId = some id := hid
      rw [hid] at hdefault
      simpa using hdefault

/-- **Loading.** A catalog that was loaded is well formed in both modes; a manifest's catalog has
some of the manifest's entries, in order, and its default. -/
theorem loadManifest_wellFormed {manifest : DjCatalogManifest} {catalog : DjCatalog}
    (h : loadManifest sha256 fs kind manifest formats = .ok catalog) :
    catalog.WellFormed formats ∧ catalog.entries ≠ [] ∧
      (catalog.entries.map DjCatalogEntry.source).Sublist manifest.entries ∧
      catalog.defaultId = manifest.defaultId := by
  obtain ⟨⟨ids, hids⟩, hentries, hne, hdefault, hfound⟩ := loadManifest_eq_ok h
  obtain ⟨hchecked, hnodup⟩ := checkEntries_eq_ok _ hids
  have hsub : (catalog.entries.map DjCatalogEntry.source).Sublist manifest.entries := by
    rw [hentries]
    exact loadEntries_sublist _ _
  have hentry : ∀ entry ∈ catalog.entries, Checked formats entry.source := fun entry hmem =>
    (hchecked _ (hsub.subset (List.mem_map_of_mem hmem))).1
  refine ⟨⟨?_, ?_, ?_, ?_, ?_⟩, hne, hsub, hdefault⟩
  · have hmap := (hsub.map DjManifestEntry.id).nodup hnodup
    rwa [List.map_map] at hmap
  · exact fun entry hmem => (hentry entry hmem).id
  · exact fun entry hmem => (hentry entry hmem).version
  · exact fun hformats entry hmem => exists_extension (hentry entry hmem).format hformats
  · intro id hid
    obtain ⟨entry, hmem, rfl⟩ := hfound id hid
    exact exists_find hmem

/-- Without a manifest, the catalog is empty or has the entry `default` alone. -/
theorem loadLegacy_wellFormed {legacyPath : Option Str} {legacyVersion : Str} {catalog : DjCatalog}
    (h : loadLegacy sha256 fs kind legacyPath legacyVersion formats = .ok catalog) :
    catalog.WellFormed formats := by
  have hempty : (⟨none, []⟩ : DjCatalog).WellFormed formats :=
    ⟨List.nodup_nil, fun _ h => (nomatch h), fun _ h => (nomatch h), fun _ _ h => (nomatch h),
      fun _ h => (nomatch h)⟩
  cases legacyPath with
  | none => cases h; exact hempty
  | some path =>
      cases hinfo : loadDjModelInfo sha256 (fs 0) (some path) legacyVersion with
      | none =>
          simp only [loadLegacy, hinfo, Option.map_none, Option.toList_none, List.isEmpty_nil,
            if_true] at h
          split_ifs at h
          cases h
          exact hempty
      | some info =>
          obtain ⟨hpath, hversion⟩ := loadDjModelInfo_eq_some hinfo
          simp only [loadLegacy, hinfo, Option.map_some, Option.toList_some, List.isEmpty_cons,
            Bool.false_eq_true, if_false] at h
          split_ifs at h with hsafe hformat
          cases h
          -- the id is the literal `default`; version and format were checked
          have hid : isSafeVoiceComponent "default".toList = true := by decide
          refine ⟨List.nodup_singleton _, ?_, ?_, ?_, ?_⟩
          · intro entry hmem
            rw [List.mem_singleton.1 hmem]
            exact hid
          · intro entry hmem
            rw [List.mem_singleton.1 hmem, hversion]
            simpa using hsafe
          · intro hformats entry hmem
            rw [List.mem_singleton.1 hmem, ← Option.some.inj hpath]
            exact exists_extension (by simpa using hformat) hformats
          · intro id hid
            cases hid
            exact ⟨_, List.mem_singleton_self _, rfl⟩

/-- `load_dj_catalog`, in either mode. -/
theorem loadDjCatalog_eq_ok {manifestPath legacyPath : Option Str} {legacyVersion : Str}
    {catalog : DjCatalog}
    (h : loadDjCatalog sha256 parse fs kind manifestPath legacyPath legacyVersion formats =
      .ok catalog) :
    catalog.WellFormed formats ∧ ∀ path, manifestPath = some path →
      ∃ manifest, readManifest parse fs kind path = .ok manifest ∧ catalog.entries ≠ [] ∧
        (catalog.entries.map DjCatalogEntry.source).Sublist manifest.entries ∧
        catalog.defaultId = manifest.defaultId := by
  cases manifestPath with
  | none => exact ⟨loadLegacy_wellFormed h, fun path hpath => nomatch hpath⟩
  | some path =>
      cases hmanifest : readManifest parse fs kind path with
      | error err => simp only [loadDjCatalog, hmanifest] at h; cases h
      | ok manifest =>
          simp only [loadDjCatalog, hmanifest] at h
          obtain ⟨hwell, hne, hsub, hdefault⟩ := loadManifest_wellFormed h
          refine ⟨hwell, ?_⟩
          rintro _ ⟨rfl⟩
          exact ⟨manifest, hmanifest, hne, hsub, hdefault⟩

end Passes

/-! ## The legacy endpoints -/

/-- Both endpoints serve the default, or both answer that nothing is configured. -/
def ServesDefault (catalog : DjCatalog) (message : String) (info download : Except ApiError Reply) :
    Prop :=
  (∃ id, catalog.defaultId = some id ∧ ∃ entry ∈ catalog.entries, catalog.find id = some entry ∧
    info = .ok (.modelInfo
      ⟨entry.descriptor.version, entry.descriptor.sizeBytes, entry.descriptor.sha256⟩) ∧
    download = .ok (.file entry.path)) ∨
  (catalog.defaultId = none ∧ info = .error (ApiError.notFound message) ∧
    download = .error (ApiError.notFound message))

/-- The two ways to the default agree: `info` asks for it, `download` looks up its id, or the
empty id when there is none. -/
theorem DjCatalog.WellFormed.servesDefault {formats : List Str} {catalog : DjCatalog}
    (hw : catalog.WellFormed formats) (message : String) :
    ServesDefault catalog message (djCatalogEntryInfo catalog.defaultModel message)
      (djCatalogDownload catalog (catalog.defaultId.getD []) message) := by
  cases hdefault : catalog.defaultId with
  | some id =>
      obtain ⟨entry, hmem, hfind⟩ := hw.default id hdefault
      have hmodel : catalog.defaultModel = some entry := by
        rw [DjCatalog.defaultModel, hdefault, Option.bind_some, hfind]
      refine Or.inl ⟨id, hdefault, entry, hmem, hfind, ?_, ?_⟩
      · rw [hmodel, djCatalogEntryInfo]
      · rw [Option.getD_some, djCatalogDownload, hfind]
  | none =>
      have hmodel : catalog.defaultModel = none := by
        rw [DjCatalog.defaultModel, hdefault, Option.bind_none]
      have hempty : catalog.find [] = none := by
        rw [DjCatalog.find, List.find?_eq_none]
        intro entry hmem
        rw [decide_eq_true_eq]
        intro hid
        have hsafe := hw.safeId entry hmem
        rw [hid, isSafeVoiceComponent_nil] at hsafe
        cases hsafe
      refine Or.inr ⟨hdefault, ?_, ?_⟩
      · rw [hmodel, djCatalogEntryInfo]
      · rw [Option.getD_none, djCatalogDownload, hempty]

/-- **A loaded catalog.** Whatever the file system answers at each access, a catalog that
`load_dj_catalog` returns is well formed; with a manifest it is not empty and has some of the
manifest's entries, in order, with its default. The legacy endpoints of a server with this catalog
both serve the default, or are both not found. -/
theorem loadDjCatalog_wellFormed {V F : Type} [Inhabited V] {sha256 : List UInt8 → Str}
    {parse : Str → Except Str DjCatalogManifest} {fs : Nat → FileSystem} {kind : Str}
    {manifestPath legacyPath : Option Str} {legacyVersion : Str} {formats : List Str}
    {catalog : DjCatalog}
    (h : loadDjCatalog sha256 parse fs kind manifestPath legacyPath legacyVersion formats =
      .ok catalog) :
    catalog.WellFormed formats ∧
    (∀ path, manifestPath = some path → ∃ manifest, readManifest parse fs kind path = .ok manifest ∧
      catalog.entries ≠ [] ∧
      (catalog.entries.map DjCatalogEntry.source).Sublist manifest.entries ∧
      catalog.defaultId = manifest.defaultId) ∧
    ∀ (X : Externals V F) (state : AppContext V) (user : UserId),
      (state.djModelCatalog = catalog → ∃ info download,
        userCall X state user .djModelInfo = check info ∧
        userCall X state user .djModelDownload = check download ∧
        ServesDefault catalog djModelNotConfigured info download) ∧
      (state.djVoiceCatalog = catalog → ∃ info download,
        userCall X state user .djVoiceModelInfo = check info ∧
        userCall X state user .djVoiceModelDownload = check download ∧
        ServesDefault catalog djVoiceNotConfigured info download) := by
  obtain ⟨hwell, hmanifest⟩ := loadDjCatalog_eq_ok h
  refine ⟨hwell, hmanifest, fun X state user => ⟨?_, ?_⟩⟩
  · rintro rfl
    exact ⟨_, _, rfl, rfl, hwell.servesDefault djModelNotConfigured⟩
  · rintro rfl
    exact ⟨_, _, rfl, rfl, hwell.servesDefault djVoiceNotConfigured⟩

/-! ## A file that vanishes -/

/-- Two models, the second of which is the default. -/
def gemmaManifest : DjCatalogManifest :=
  ⟨some "gemma".toList,
    [⟨"tiny".toList, "Tiny".toList, "v1".toList, "/srv/tiny.litertlm".toList⟩,
      ⟨"gemma".toList, "Gemma".toList, "v1".toList, "/srv/gemma.task".toList⟩]⟩

/-- The manifest's text. -/
def gemmaSource : Str :=
  ("\x7b\"default_id\":\"gemma\",\"models\":[" ++
    "\x7b\"id\":\"tiny\",\"name\":\"Tiny\",\"version\":\"v1\"," ++
      "\"path\":\"/srv/tiny.litertlm\"\x7d," ++
    "\x7b\"id\":\"gemma\",\"name\":\"Gemma\",\"version\":\"v1\"," ++
      "\"path\":\"/srv/gemma.task\"\x7d]\x7d").toList

/-- A parser that knows one text. -/
def parseGemma (source : Str) : Except Str DjCatalogManifest :=
  if source = gemmaSource then .ok gemmaManifest else .error "expected value".toList

/-- The content of both files. -/
def fixture : List UInt8 := utf8 "voice-model-fixture\n".toList

/-- A digest that agrees with SHA-256 on the fixture. -/
def fixtureSha256 (bytes : List UInt8) : Str :=
  if bytes = fixture then
    "590cde0323c8ece1ed91c67448110d2247fe64708ce2310d1e988df0d8e3c0bb".toList
  else []

/-- After both files were checked, at the moments 1 and 2, one is removed. -/
def vanishing (n : Nat) : FileSystem where
  readToString _ := .ok gemmaSource
  metadata _ := .ok ⟨true, 20⟩
  openFile path :=
    if 2 < n ∧ path = "/srv/tiny.litertlm".toList then .error "No such file or directory".toList
    else .ok ⟨.ok ⟨true, 20⟩, [.ok fixture, .ok []]⟩

/-- The catalog without the file that was removed. -/
def gemmaCatalog : DjCatalog :=
  ⟨some "gemma".toList,
    [⟨⟨"gemma".toList, "Gemma".toList, "v1".toList, 20, fixtureSha256 fixture⟩,
      "/srv/gemma.task".toList⟩]⟩

theorem loadDjCatalog_wellFormed_gemma :
    loadDjModelCatalog fixtureSha256 parseGemma vanishing (some "/srv/models.json".toList) none
      "unversioned".toList = .ok gemmaCatalog ∧ gemmaCatalog.WellFormed djModelFormats := by
  have h : loadDjModelCatalog fixtureSha256 parseGemma vanishing (some "/srv/models.json".toList)
      none "unversioned".toList = .ok gemmaCatalog := by
    have hread : readManifest parseGemma vanishing "model".toList "/srv/models.json".toList =
        .ok gemmaManifest := by
      simp only [readManifest, vanishing, parseGemma, if_true]
    simp only [loadDjModelCatalog, loadDjCatalog, hread]
    rfl
  exact ⟨h, (loadDjCatalog_wellFormed (V := Unit) (F := Unit) h).1⟩

end AnyPlayerSync.Server
