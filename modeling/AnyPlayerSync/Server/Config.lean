import AnyPlayerSync.Foundation.Percent
import AnyPlayerSync.Foundation.Text
import AnyPlayerSync.Sources.Http

/-!
# The configuration

`AppConfig::from_env` of `config.rs`: the environment with its defaults, and the two URLs of the
database. The parser of socket addresses belongs to the standard library and is a parameter.

The URL of the database is read by the library that connects, which is a parameter too. Of that
reader only this is assumed: a URL that names a connection by the syntax of URLs (`Names`), all of
its parts being there and free of what a reader might rewrite, is read as that connection
(`Documented`). Every such reader gets user and password as they were set, whatever characters they
have (`databaseUrl_reads`). Nothing else of the configuration depends on the password.
-/

set_option autoImplicit false

namespace AnyPlayerSync.Server

open AnyPlayerSync.Foundation
open AnyPlayerSync.Foundation.Percent
open AnyPlayerSync.Foundation.Text
open AnyPlayerSync.Sources (percentEncode decode_percentEncode not_mem_percentEncode
  urlText_percentEncode)

/-! ## The environment -/

/-- The variables that are set, with their values in Unicode. -/
abbrev Env := String → Option Str

/-- A trimmed value that is not empty. -/
def optional (env : Env) (name : String) : Option Str :=
  ((env name).map trim).filter fun value => value ≠ []

/-- `str::parse::<usize>`. -/
def parseUsize (value : Str) : Option Nat :=
  let digits := if value.head? = some '+' then value.tail else value
  if digits ≠ [] ∧ digits.all Char.isDigit then
    let n := digits.foldl (fun n c => 10 * n + (c.toNat - '0'.toNat)) 0
    if n < UInt64.size then some n else none
  else none

/-- The settings that the URL is made of, without the password. -/
structure DatabaseSettings where
  user : Str
  host : Str
  port : Str
  name : Str
  sslmode : Str

/-- The settings of an environment, with their defaults. -/
def databaseSettings (env : Env) : DatabaseSettings where
  user := (env "DB_USER").getD "postgres".toList
  host := (env "DB_HOST").getD "127.0.0.1".toList
  port := (env "DB_PORT").getD "5432".toList
  name := (env "DB_NAME").getD "any_player_sync".toList
  sslmode := (env "DB_SSLMODE").getD "prefer".toList

/-- The URL with what stands for the password. -/
def DatabaseSettings.url (d : DatabaseSettings) (password : Str) : Str :=
  "postgres://".toList ++ percentEncode d.user ++ ":".toList ++ password ++ "@".toList ++ d.host ++
    ":".toList ++ d.port ++ "/".toList ++ d.name ++ "?sslmode=".toList ++ d.sslmode

/-- The configuration of the server. -/
structure AppConfig (Address : Type) where
  bindAddress : Address
  databaseUrl : Str
  databaseUrlSafe : Str
  corsAllowedOrigins : List Str
  maxBodySize : Nat
  adminBootstrapName : Str
  adminBootstrapToken : Option Str
  djModelPath : Option Str
  djModelVersion : Str
  djModelsManifestPath : Option Str
  djVoiceModelPath : Option Str
  djVoiceModelVersion : Str
  djVoiceModelsManifestPath : Option Str
  djEmbeddingModelDir : Option Str
  geniusToken : Option Str
  lastfmApiKey : Option Str

section FromEnv

variable {Address : Type} (parseAddress : Str → Option Address)

/-- `AppConfig::from_env`. -/
def fromEnv (env : Env) : Except Str (AppConfig Address) :=
  let bindAddress := (env "BIND_ADDRESS").getD "127.0.0.1:8080".toList
  match env "DB_PASSWORD" with
  | none => .error "DB_PASSWORD environment variable is required but not set".toList
  | some dbPassword =>
      match parseAddress bindAddress with
      | none => .error ("invalid BIND_ADDRESS '".toList ++ bindAddress ++ "'".toList)
      | some address =>
          .ok {
            bindAddress := address
            databaseUrl := (databaseSettings env).url (percentEncode dbPassword)
            databaseUrlSafe := (databaseSettings env).url "****".toList
            corsAllowedOrigins :=
              ((((env "CORS_ALLOWED_ORIGINS").getD []).splitOn ',').map trim).filter fun s => s ≠ []
            maxBodySize := ((env "MAX_BODY_SIZE").bind parseUsize).getD (1024 * 1024)
            adminBootstrapName := trim ((env "ADMIN_BOOTSTRAP_NAME").getD "admin".toList)
            adminBootstrapToken := optional env "ADMIN_BOOTSTRAP_TOKEN"
            djModelPath := optional env "DJ_MODEL_PATH"
            djModelVersion := (env "DJ_MODEL_VERSION").getD "unversioned".toList
            djModelsManifestPath := optional env "DJ_MODELS_MANIFEST_PATH"
            djVoiceModelPath := optional env "DJ_VOICE_MODEL_PATH"
            djVoiceModelVersion := (env "DJ_VOICE_MODEL_VERSION").getD "unversioned".toList
            djVoiceModelsManifestPath := optional env "DJ_VOICE_MODELS_MANIFEST_PATH"
            djEmbeddingModelDir := optional env "DJ_EMBEDDING_MODEL_DIR"
            geniusToken := optional env "GENIUS_TOKEN"
            lastfmApiKey := optional env "LASTFM_API_KEY" }

end FromEnv

/-! ## The connection that a URL names -/

/-- What a connection takes from a URL. -/
structure Connection where
  user : Str
  password : Str
  host : Str
  port : Nat
  database : Str
  sslmode : Str

/-- The number of a port. -/
def parsePort (value : Str) : Option Nat :=
  if value ≠ [] ∧ value.all Char.isDigit then
    let n := value.foldl (fun n c => 10 * n + (c.toNat - '0'.toNat)) 0
    if n < UInt16.size then some n else none
  else none

/-- The URL names the connection, by the syntax of URLs. The user information ends at the last `@`
of the authority and the host at the last colon; the first colon is between user and password, which
are percent-decoded; the database stands as it is, and the query is read as a form. -/
structure Names (s : Str) (c : Connection) : Prop where
  scheme : (readUrl s).scheme = some "postgres".toList
  authority : ∃ user password port,
    (readUrl s).authority = some (user ++ ':' :: (password ++ '@' :: (c.host ++ ':' :: port))) ∧
      ':' ∉ user ∧ '@' ∉ c.host ∧ '@' ∉ port ∧ ':' ∉ port ∧
      decode user = utf8 c.user ∧ decode password = utf8 c.password ∧ parsePort port = some c.port
  path : (readUrl s).path = '/' :: c.database
  query : ∃ query, (readUrl s).query = some query ∧
    readForm query = [(utf8 "sslmode".toList, utf8 c.sslmode)]
  fragment : (readUrl s).fragment = none

/-- The modes that PostgreSQL knows. -/
def sslModes : List Str :=
  ["disable".toList, "allow".toList, "prefer".toList, "require".toList, "verify-ca".toList,
    "verify-full".toList]

/-- A name that stands in a URL as it is. -/
def IsName (marks : List Char) (s : Str) : Prop :=
  s ≠ [] ∧ (s.all fun c => c.isAlphanum || marks.contains c) = true

instance (marks : List Char) (s : Str) : Decidable (IsName marks s) :=
  inferInstanceAs (Decidable (_ ∧ _))

theorem IsName.mem {marks : List Char} {s : Str} (h : IsName marks s) {c : Char} (hc : c ∈ s) :
    c.isAlphanum = true ∨ c ∈ marks := by
  have hchar := List.all_eq_true.1 h.2 c hc
  rwa [Bool.or_eq_true, List.contains_iff_mem] at hchar

/-- No part is missing, which a reader would take from elsewhere, and host, database and mode are
names that every reader takes as they are. -/
structure Connection.Ordinary (c : Connection) : Prop where
  user : c.user ≠ []
  password : c.password ≠ []
  host : IsName ['.', '-', '_'] c.host
  database : IsName ['-', '_'] c.database
  sslmode : c.sslmode ∈ sslModes

/-- What the reader of database URLs is documented to do with a URL of plain characters that names
an ordinary connection. -/
def Documented (read : Str → Option Connection) : Prop :=
  ∀ s c, UrlText s → Names s c → c.Ordinary → read s = some c

/-! ## What the URL names -/

/-- The settings, with a password and the number of the port. -/
def DatabaseSettings.connection (d : DatabaseSettings) (password : Str) (port : Nat) :
    Connection where
  user := d.user
  password := password
  host := d.host
  port := port
  database := d.name
  sslmode := d.sslmode

/-- The settings that stand in the URL as they are have no mark in them. -/
structure DatabaseSettings.Plain (d : DatabaseSettings) (port : Nat) : Prop where
  host : IsName ['.', '-', '_'] d.host
  port : parsePort d.port = some port
  name : IsName ['-', '_'] d.name
  sslmode : d.sslmode ∈ sslModes

theorem IsName.mono {marks marks' : List Char} {s : Str} (h : IsName marks s)
    (hmarks : marks ⊆ marks') : IsName marks' s :=
  ⟨h.1, List.all_eq_true.2 fun c hc => by
    rw [Bool.or_eq_true, List.contains_iff_mem]
    exact (h.mem hc).imp_right fun hmark => hmarks hmark⟩

/-- A character that is no letter, no digit and no mark of the name is not in it. -/
theorem IsName.not_mem {marks : List Char} {s : Str} (h : IsName marks s) {c : Char}
    (halnum : c.isAlphanum = false) (hmark : c ∉ marks) : c ∉ s := by
  intro hc
  rcases h.mem hc with hc | hc
  · rw [halnum] at hc
    cases hc
  · exact hmark hc

theorem IsName.urlText {s : Str} (h : IsName ['.', '-', '_'] s) : UrlText s := by
  intro c hc
  rcases h.mem hc with hc | hc
  · exact Or.inl hc
  · right
    simp only [List.mem_cons, List.not_mem_nil, or_false] at hc ⊢
    tauto

/-- A mode is a name. -/
theorem isName_of_mem_sslModes : ∀ mode ∈ sslModes, IsName ['-'] mode := by decide +kernel

/-- A port is a name without marks. -/
theorem isName_of_parsePort {value : Str} {n : Nat} (h : parsePort value = some n) :
    IsName [] value := by
  rw [parsePort] at h
  split_ifs at h with hdigits
  refine ⟨hdigits.1, List.all_eq_true.2 fun c hc => ?_⟩
  rw [Char.isAlphanum, List.all_eq_true.1 hdigits.2 c hc, Bool.or_true, Bool.true_or]

theorem DatabaseSettings.url_eq (d : DatabaseSettings) (password : Str) :
    d.url password = "postgres".toList ++ ("://".toList ++
      (percentEncode d.user ++ ':' :: (password ++ '@' :: (d.host ++ ':' :: d.port)) ++
        '/' :: (d.name ++ '?' :: ("sslmode".toList ++ '=' :: d.sslmode)))) := by
  have hscheme : "postgres://".toList = "postgres".toList ++ "://".toList := by decide
  have hquery : "?sslmode=".toList = '?' :: ("sslmode".toList ++ ['=']) := by decide
  unfold DatabaseSettings.url
  generalize "postgres://".toList = start, "postgres".toList = scheme, "://".toList = colon,
    "?sslmode=".toList = mark, "sslmode".toList = key at hscheme hquery ⊢
  subst hscheme hquery
  simp only [List.append_assoc, List.cons_append, List.nil_append]
  rfl

section Url

variable {d : DatabaseSettings} {port : Nat}

/-- All four are names, of the same characters. -/
theorem DatabaseSettings.Plain.isName (hd : d.Plain port) {value : Str}
    (h : value ∈ [d.host, d.port, d.name, d.sslmode]) : IsName ['.', '-', '_'] value := by
  simp only [List.mem_cons, List.not_mem_nil, or_false] at h
  rcases h with rfl | rfl | rfl | rfl
  · exact hd.host
  · exact (isName_of_parsePort hd.port).mono (List.nil_subset _)
  · exact hd.name.mono (List.subset_cons_self _ _)
  · exact (isName_of_mem_sslModes _ hd.sslmode).mono (by simp)

theorem DatabaseSettings.Plain.urlText (hd : d.Plain port) (password : Str) :
    UrlText (d.url (percentEncode password)) := by
  have hmarks : UrlText "postgres://".toList ∧ UrlText ":".toList ∧ UrlText "@".toList ∧
      UrlText "/".toList ∧ UrlText "?sslmode=".toList := by decide +kernel
  obtain ⟨hstart, hcolon, hat, hslash, hquery⟩ := hmarks
  have hhost : UrlText d.host := (hd.isName (by simp)).urlText
  have hport : UrlText d.port := (hd.isName (by simp)).urlText
  have hname : UrlText d.name := (hd.isName (by simp)).urlText
  have hmode : UrlText d.sslmode := (hd.isName (by simp)).urlText
  have huser := (hstart.append (urlText_percentEncode d.user)).append hcolon
  have hpassword := (huser.append (urlText_percentEncode password)).append hat
  have haddress := ((hpassword.append hhost).append hcolon).append hport
  exact (((haddress.append hslash).append hname).append hquery).append hmode

/-- The components of the URL. -/
theorem DatabaseSettings.Plain.readUrl_url (hd : d.Plain port) (password : Str) :
    readUrl (d.url (percentEncode password)) =
      { scheme := some "postgres".toList
        authority := some (percentEncode d.user ++
          ':' :: (percentEncode password ++ '@' :: (d.host ++ ':' :: d.port)))
        path := '/' :: d.name
        query := some ("sslmode".toList ++ '=' :: d.sslmode)
        fragment := none } := by
  have hname {value : Str} (h : value ∈ [d.host, d.port, d.name, d.sslmode]) {c : Char}
      (halnum : c.isAlphanum = false) (hmark : c ∉ ['.', '-', '_']) : c ∉ value :=
    (hd.isName h).not_mem halnum hmark
  have hscheme : ∀ c ∈ ['#', '?', ':', '/'], c ∉ "postgres".toList := by simp
  -- no part of the authority has a character that ends it
  have hauthority : ∀ c ∈ ['#', '?', '/'], c ∉ percentEncode d.user ++
      ':' :: (percentEncode password ++ '@' :: (d.host ++ ':' :: d.port)) := by
    have hends : ∀ c ∈ ['#', '?', '/'], c.isAlphanum = false ∧ c ≠ '%' ∧ c ≠ ':' ∧ c ≠ '@' ∧
        c ∉ ['.', '-', '_'] := by
      simp only [List.forall_mem_cons, List.not_mem_nil, false_imp_iff, implies_true, and_true]
      decide
    intro c hc
    obtain ⟨halnum, hpercent, hcolon, hat, hmarks⟩ := hends c hc
    simp only [List.mem_append, List.mem_cons, not_or]
    exact ⟨not_mem_percentEncode halnum hpercent _, hcolon,
      not_mem_percentEncode halnum hpercent _, hat, hname (by simp) halnum hmarks, hcolon,
      hname (by simp) halnum hmarks⟩
  have hhash : '#' ∉ d.name ++ '?' :: ("sslmode".toList ++ '=' :: d.sslmode) := by
    simp only [List.mem_append, List.mem_cons, not_or]
    exact ⟨hname (by simp) (by decide) (by decide), by decide, by decide, by decide,
      hname (by simp) (by decide) (by decide)⟩
  have hquestion : '?' ∉ d.name := hname (by simp) (by decide) (by decide)
  have hread := readUrl_append (by decide) hscheme hauthority
    (d.name ++ '?' :: ("sslmode".toList ++ '=' :: d.sslmode))
  rw [cut_of_not_mem hhash] at hread
  dsimp only at hread
  rw [cut_append hquestion, cut_cons_self, List.append_nil] at hread
  rw [d.url_eq, hread]

/-- **The URL names its settings**, whatever user and password are. -/
theorem DatabaseSettings.Plain.names (hd : d.Plain port) (password : Str) :
    Names (d.url (percentEncode password)) (d.connection password port) := by
  have hname {value : Str} (h : value ∈ [d.host, d.port, d.name, d.sslmode]) {c : Char}
      (halnum : c.isAlphanum = false) (hmark : c ∉ ['.', '-', '_']) : c ∉ value :=
    (hd.isName h).not_mem halnum hmark
  have hhost : '@' ∉ d.host := hname (by simp) (by decide) (by decide)
  have hread := hd.readUrl_url password
  constructor
  · rw [hread]
  · refine ⟨percentEncode d.user, percentEncode password, d.port, by rw [hread]; rfl, ?_, ?_, ?_, ?_,
      decode_percentEncode d.user, decode_percentEncode password, hd.port⟩
    · exact not_mem_percentEncode (by decide) (by decide) d.user
    · exact hhost
    · exact hname (by simp) (by decide) (by decide)
    · exact hname (by simp) (by decide) (by decide)
  · rw [hread]
    rfl
  · have hpercent : '%' ∉ d.sslmode := hname (by simp) (by decide) (by decide)
    have hvalue : ∀ c ∈ ['&', '+'], c ∉ d.sslmode := by
      simp only [List.forall_mem_cons, List.not_mem_nil, false_imp_iff, implies_true, and_true]
      exact ⟨hname (by simp) (by decide) (by decide), hname (by simp) (by decide) (by decide)⟩
    refine ⟨"sslmode".toList ++ '=' :: d.sslmode, by rw [hread], ?_⟩
    rw [readForm_pair (by simp) hvalue, decode_eq_utf8 (not_hasEscape_of_not_mem hpercent)]
    rfl
  · rw [hread]

end Url

/-! ## What the configuration is made of -/

section Configured

variable {Address : Type} {parseAddress : Str → Option Address} {env env' : Env}
  {config config' : AppConfig Address}

theorem fromEnv_urls (h : fromEnv parseAddress env = .ok config) :
    ∃ password, env "DB_PASSWORD" = some password ∧
      config.databaseUrl = (databaseSettings env).url (percentEncode password) ∧
      config.databaseUrlSafe = (databaseSettings env).url "****".toList := by
  rw [fromEnv] at h
  cases hpassword : env "DB_PASSWORD" with
  | none => rw [hpassword] at h; cases h
  | some password =>
      rw [hpassword] at h
      dsimp only at h
      split at h
      · cases h
      · cases h
        exact ⟨password, rfl, rfl, rfl⟩

/-- Only the URL of the database has the password. -/
theorem fromEnv_congr (hsame : ∀ name, name ≠ "DB_PASSWORD" → env' name = env name)
    (h : fromEnv parseAddress env = .ok config) (h' : fromEnv parseAddress env' = .ok config') :
    config' = { config with databaseUrl := config'.databaseUrl } := by
  simp (disch := decide) only [fromEnv, databaseSettings, optional, hsame] at h h'
  cases hpassword : env "DB_PASSWORD" with
  | none => rw [hpassword] at h; cases h
  | some password =>
      cases hpassword' : env' "DB_PASSWORD" with
      | none => rw [hpassword'] at h'; cases h'
      | some password' =>
          rw [hpassword] at h
          rw [hpassword'] at h'
          dsimp only at h h'
          split at h
          · cases h
          · rename_i address haddress
            rw [haddress] at h'
            cases h
            cases h'
            rfl

/-- **The database gets its settings.** Whatever characters user and password have, the URL is read
as the settings were meant, when the others are plain. The URL for the logs is the same but for its
password, and no other field of the configuration depends on that. -/
theorem databaseUrl_reads {read : Str → Option Connection} (hread : Documented read)
    (h : fromEnv parseAddress env = .ok config) {port : Nat}
    (hplain : (databaseSettings env).Plain port) (huser : (databaseSettings env).user ≠ []) :
    ∃ password, env "DB_PASSWORD" = some password ∧
      (password ≠ [] →
        read config.databaseUrl = some ((databaseSettings env).connection password port)) ∧
      config.databaseUrlSafe = (databaseSettings env).url "****".toList ∧
      ∀ env' config', (∀ name, name ≠ "DB_PASSWORD" → env' name = env name) →
        fromEnv parseAddress env' = .ok config' →
          config' = { config with databaseUrl := config'.databaseUrl } := by
  obtain ⟨password, hpassword, hurl, hsafe⟩ := fromEnv_urls h
  refine ⟨password, hpassword, fun hne => ?_, hsafe, fun env' config' hsame h' =>
    fromEnv_congr hsame h h'⟩
  rw [hurl]
  exact hread _ _ (hplain.urlText password) (hplain.names password)
    ⟨huser, hne, hplain.host, hplain.name, hplain.sslmode⟩

end Configured

/-! ## A reader -/

/-- The text of bytes in UTF-8. -/
def readText (bytes : List UInt8) : Option Str :=
  (ByteArray.utf8Decode? bytes.toByteArray).map Array.toList

theorem readText_utf8 (s : Str) : readText (utf8 s) = some s := by
  have hdecode : ByteArray.utf8Decode? (utf8 s).toByteArray = some s.toArray :=
    List.utf8Decode?_utf8Encode
  rw [readText, hdecode]
  rfl

/-- The reader that follows the syntax of URLs alone. -/
def readDatabaseUrl (s : Str) : Option Connection := do
  let authority ← (readUrl s).authority
  let (userinfo, address) ← splitLast '@' authority
  let (host, port) ← splitLast ':' address
  let (user, password) := cut ':' userinfo
  let user ← readText (decode user)
  let password ← readText (decode (password.getD []))
  let port ← parsePort port
  let database := (readUrl s).path.tail
  let mode ← (readForm ((readUrl s).query.getD [])).find? fun p => p.1 = utf8 "sslmode".toList
  let mode ← readText mode.2
  return ⟨user, password, host, port, database, mode⟩

/-- A URL names one connection at most, which this reader finds. -/
theorem documented_readDatabaseUrl : Documented readDatabaseUrl := by
  intro s c _ hnames _
  obtain ⟨user, password, port, hauthority, huserColon, hhostAt, hportAt, hportColon, huser,
    hpassword, hport⟩ := hnames.authority
  obtain ⟨query, hquery, hform⟩ := hnames.query
  have haddress : '@' ∉ c.host ++ ':' :: port := by
    simp only [List.mem_append, List.mem_cons, not_or]
    exact ⟨hhostAt, by decide, hportAt⟩
  have hsplit : user ++ ':' :: (password ++ '@' :: (c.host ++ ':' :: port)) =
      (user ++ ':' :: password) ++ '@' :: (c.host ++ ':' :: port) := by simp
  rw [readDatabaseUrl, hauthority, hnames.path, hquery]
  dsimp only [Option.bind_eq_bind, Option.bind_some, Option.getD_some, List.tail_cons]
  rw [hsplit, splitLast_append_cons haddress]
  dsimp only [Option.bind_some]
  rw [splitLast_append_cons hportColon]
  dsimp only [Option.bind_some]
  rw [cut_append huserColon, cut_cons_self, List.append_nil, huser, readText_utf8]
  dsimp only [Option.bind_some, Option.getD_some]
  rw [hpassword, readText_utf8, hport, hform]
  simp [readText_utf8]

/-- A password with every mark of a URL. -/
def markedEnv : Env
  | "DB_PASSWORD" => some "p@ss:w/rd?#100%".toList
  | "DB_USER" => some "any player".toList
  | _ => none

theorem databaseUrl_reads_marked :
    ∃ config : AppConfig Str, fromEnv some markedEnv = .ok config ∧
      readDatabaseUrl config.databaseUrl = some
        { user := "any player".toList
          password := "p@ss:w/rd?#100%".toList
          host := "127.0.0.1".toList
          port := 5432
          database := "any_player_sync".toList
          sslmode := "prefer".toList } := by
  refine ⟨_, rfl, ?_⟩
  have hplain : (databaseSettings markedEnv).Plain 5432 :=
    ⟨by decide, by decide, by decide, by decide⟩
  obtain ⟨password, hpassword, hreads, -⟩ :=
    @databaseUrl_reads Str some markedEnv _ _ documented_readDatabaseUrl rfl _ hplain (by decide)
  cases hpassword
  exact hreads (by decide)

end AnyPlayerSync.Server
