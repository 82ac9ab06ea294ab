import AnyPlayerSync.Server.Handlers

/-!
# What the calls of a user keep

`KeptByCalls` lists the statements of the calls that any user may make, those on the job table
apart. What each of them keeps, every such call keeps (`KeptByCalls.userCall`), whichever of its
statements fail; only for the lookup of passages, which writes to the job table, it has to be known
already. `KeptByUser` is the same for what a contribution keeps under any id.
-/

set_option autoImplicit false

namespace AnyPlayerSync.Server

open AnyPlayerSync.Facts (Contribution FactPlay FactQuery FactTables)
open AnyPlayerSync.Foundation
open AnyPlayerSync.Foundation.Program
open AnyPlayerSync.Passages (PlayedRequest)
open AnyPlayerSync.Sync (Documents Put Time UserId)

variable {V F : Type}

/-- `I` outlives the statements of a user's calls. -/
structure KeptByUser (X : Externals V F) (user : UserId) (I : Database V → Prop) : Prop where
  documents : ∀ {s : Database V} {documents : Documents}, I s →
    (∀ key : UserId × Int, key.1 ≠ user → documents key = s.documents key) →
    I { s with documents := documents }
  contribution : ∀ {s : Database V} (input : Contribution) (id : Int) (sourceUrl : Str)
    (now : Time), I s →
    I { s with
      facts := (s.facts.insertFact (input.row X.unicode X.sha256 id sourceUrl now)).1 }
  factPlay : ∀ {s : Database V} {facts : FactTables} {play : FactPlay}, I s → play.userId = user →
    s.facts.insertPlay play = some facts → I { s with facts := facts }
  passagePlays : ∀ {s : Database V} (input : PlayedRequest), I s →
    I { s with tables := s.tables.recordPlays user input }

/-- `I` outlives the statements of a user's calls, where a contribution takes the next id. -/
structure KeptByCalls (X : Externals V F) (user : UserId) (I : Database V → Prop) : Prop where
  documents : ∀ {s : Database V} {documents : Documents}, I s →
    (∀ key : UserId × Int, key.1 ≠ user → documents key = s.documents key) →
    I { s with documents := documents }
  contribution : ∀ {s : Database V} (input : Contribution) (sourceUrl : Str) (now : Time), I s →
    I { s with
      facts :=
        (s.facts.insertFact (input.row X.unicode X.sha256 s.facts.nextFact sourceUrl now)).1 }
  factPlay : ∀ {s : Database V} {facts : FactTables} {play : FactPlay}, I s → play.userId = user →
    s.facts.insertPlay play = some facts → I { s with facts := facts }
  passagePlays : ∀ {s : Database V} (input : PlayedRequest), I s →
    I { s with tables := s.tables.recordPlays user input }

theorem KeptByUser.calls {X : Externals V F} {user : UserId} {I : Database V → Prop}
    (h : KeptByUser X user I) : KeptByCalls X user I where
  documents := h.documents
  contribution {s} input sourceUrl now hs :=
    h.contribution input s.facts.nextFact sourceUrl now hs
  factPlay := h.factPlay
  passagePlays := h.passagePlays

/-! ## The user's own row of `user_sync_document` -/

section Documents

variable {user : UserId}

theorem ensureUserDocument_other (documents : Documents) (now : Time) (key : UserId × Int)
    (hkey : key.1 ≠ user) : Sync.ensureUserDocument documents user now key = documents key := by
  rw [Sync.ensureUserDocument]
  cases documents (user, 1) with
  | some row => rfl
  | none =>
      apply Function.update_of_ne
      rintro rfl
      exact hkey rfl

theorem updateRow_other {documents documents' : Documents} {p : Put} {newVersion : Int}
    {updatedAt : Time} {row : Sync.Snapshot}
    (h : Sync.updateRow documents user p newVersion updatedAt = some (documents', row))
    (key : UserId × Int) (hkey : key.1 ≠ user) : documents' key = documents key := by
  obtain ⟨-, old, -, -, hdocuments⟩ := Sync.updateRow_some h
  rw [hdocuments]
  apply Function.update_of_ne
  rintro rfl
  exact hkey rfl

end Documents

/-! ## The handlers -/

section Handlers

variable {c : Course} {user : UserId} {I : Database V → Prop} {X : Externals V F}
  (state : AppContext V)

theorem stays_engine : Stays c I (engine state) := by
  rw [engine]
  split
  · exact stays_pure _
  · exact stays_fail _

theorem stays_factLookup (q : FactQuery) : Stays c I (factLookup (V := V) X user q) := by
  rw [factLookup]
  split_ifs
  · exact stays_fail _
  · exact stays_bind stays_query fun _ => stays_pure _

theorem KeptByCalls.ensureUserDocument (h : KeptByCalls X user I) :
    Stays c I (ensureUserDocument (V := V) user) := by
  apply stays_statement
  intro now s hs
  exact h.documents hs (ensureUserDocument_other s.documents now)

theorem KeptByCalls.loadSnapshot (h : KeptByCalls X user I) :
    Stays c I (loadSnapshot (V := V) user) :=
  stays_bind h.ensureUserDocument fun _ => stays_query

theorem KeptByCalls.writeDocument (h : KeptByCalls X user I) (p : Put) :
    Stays c I (writeDocument (V := V) user p) := by
  apply stays_bind h.ensureUserDocument
  intro _
  apply stays_transaction
  apply stays_bind stays_query
  intro current
  apply stays_bind (stays_check _)
  intro _
  apply stays_bind stays_clock
  intro updatedAt
  refine stays_bind (stays_statement ?_) fun _ => stays_pure _
  intro _ s hs
  cases hrow : Sync.updateRow s.documents user p (current + 1) updatedAt with
  | none => exact hs
  | some q =>
      obtain ⟨documents, row⟩ := q
      exact h.documents hs (updateRow_other hrow)

theorem KeptByCalls.sync (h : KeptByCalls X user I) (request : Sync.Request) :
    Stays c I (sync (V := V) user request) := by
  cases request with
  | getSnapshot since => exact stays_bind h.loadSnapshot fun _ => stays_pure _
  | putSnapshot payload => exact stays_bind (h.writeDocument _) fun _ => stays_pure _
  | getNamespace path =>
      rw [Server.sync, getNamespace]
      split
      · exact stays_fail _
      · split_ifs
        · exact stays_fail _
        · exact stays_bind h.loadSnapshot fun _ => stays_pure _
  | putNamespace path payload =>
      rw [Server.sync, putNamespace]
      split
      · exact stays_fail _
      · split_ifs
        · exact stays_fail _
        · exact stays_bind (h.writeDocument _) fun _ => stays_pure _

theorem KeptByCalls.factContribute (h : KeptByCalls X user I) (input : Contribution)
    (verified : Except Sync.ApiError Str) :
    Stays c I (factContribute (V := V) X input verified) := by
  rw [Server.factContribute]
  split_ifs
  · exact stays_fail _
  · apply stays_bind (stays_check verified)
    intro sourceUrl
    split_ifs
    · exact stays_fail _
    · refine stays_bind (stays_statement ?_) fun _ => stays_pure _
      intro now s hs
      exact h.contribution input sourceUrl now hs

theorem KeptByCalls.factPlayed (h : KeptByCalls X user I) (id : Int) (input : Facts.Played) :
    Stays c I (factPlayed (V := V) user id input) := by
  apply stays_bind stays_clock
  intro now
  apply stays_bind (stays_check _)
  intro _
  apply stays_bind
  · apply stays_statement
    intro _ s hs
    cases hplay : s.facts.insertPlay ⟨user, input.eventId, id, input.playedAt⟩ with
    | none => exact hs
    | some facts => exact h.factPlay hs rfl hplay
  · intro inserted
    split_ifs
    · exact stays_pure _
    · apply stays_bind stays_query
      intro existing
      apply stays_bind (stays_check _)
      exact fun _ => stays_pure _

theorem KeptByCalls.passagePlayed (h : KeptByCalls X user I) (input : PlayedRequest) :
    Stays c I (passagePlayed state user input) := by
  apply stays_bind (stays_engine state)
  intro _
  apply stays_bind stays_clock
  intro now
  split_ifs
  · exact stays_fail _
  · refine stays_bind (stays_statement ?_) fun _ => stays_pure _
    intro _ s hs
    exact h.passagePlays input hs

/-- One case for each route that any user may call. -/
theorem KeptByCalls.userCall [Inhabited V] (h : KeptByCalls X user I) (call : UserCall)
    (hlookup : ∀ query, call = .passageLookup query →
      Stays c I (passageLookup X state user query)) :
    Stays c I (userCall X state user call) := by
  cases call with
  | sync request => exact h.sync request
  | djModels | djVoiceModels => exact stays_pure _
  | djModelInfo | djModelDownload | djModelDownloadById modelId => exact stays_check _
  | djVoiceModelInfo | djVoiceModelDownload | djVoiceModelDownloadById voiceId =>
      exact stays_check _
  | factLookup q => exact stays_factLookup q
  | factContribute input verified => exact h.factContribute input verified
  | factPlayed id input => exact h.factPlayed id input
  | passagePlayed input => exact h.passagePlayed state input
  | passageLookup query => exact hlookup query rfl

theorem KeptByUser.userCall [Inhabited V] (h : KeptByUser X user I) (call : UserCall)
    (hlookup : ∀ query, call = .passageLookup query →
      Stays c I (passageLookup X state user query)) :
    Stays c I (userCall X state user call) :=
  h.calls.userCall state call hlookup

end Handlers

end AnyPlayerSync.Server
