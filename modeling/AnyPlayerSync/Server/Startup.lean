import AnyPlayerSync.Server.Frame
import AnyPlayerSync.Server.Routes
import AnyPlayerSync.Server.Schema

/-!
# Starting the server again

Requests to servers of this version, starts and bootstraps in any order, from any store whose keys
are `identity_key` or `match_key` of their texts. Every route keeps what the store inherited
(`inherited_handle`), so every start finds such a store (`ensureSchema_migrates`).
-/

set_option autoImplicit false

namespace AnyPlayerSync.Server

open AnyPlayerSync.Facts (Contribution FactRow FactTables)
open AnyPlayerSync.Foundation
open AnyPlayerSync.Foundation.Program
open AnyPlayerSync.Sync (ApiError Time)

/-! ## What requests keep -/

section Requests

variable {V F : Type} {c : Course} (X : Externals V F) (state : AppContext V)

/-- A contribution is stored under `match_key` of its texts. -/
theorem Inherited.insertFact {U : UnicodeTables} {db : Database V} (h : Inherited U db)
    (sha256 : Str → Str) (input : Contribution) (id : Int) (sourceUrl : Str) (now : Time) :
    Inherited U { db with
      facts := (db.facts.insertFact (input.row U sha256 id sourceUrl now)).1 } := by
  refine ⟨?_, h.names⟩
  rw [FactTables.insertFact]
  split
  · exact h.keys
  · intro f hf
    rcases List.mem_append.1 hf with hf | hf
    · exact h.keys f hf
    · rw [List.mem_singleton.1 hf]
      exact ⟨Or.inr rfl, Or.inr rfl⟩

/-- One case for each kind of statement. -/
theorem inherited_routes :
    KeptByRoutes X state (Inherited X.unicode) fun _ => Inherited X.unicode where
  anyone hs := hs
  granted hs _ := hs
  calls user :=
    { documents := fun hs _ => hs.of_eq rfl rfl
      contribution := fun input sourceUrl now hs => hs.insertFact X.sha256 input _ sourceUrl now
      factPlay := fun {s facts play} hs _ hplay => by
        rw [FactTables.insertPlay] at hplay
        split_ifs at hplay
        obtain rfl := Option.some.inj hplay
        exact hs.of_eq rfl rfl
      passagePlays := fun _ hs => hs.of_eq rfl rfl }
  accounts hs hstep := hs.accounts (Accounts.accountStep_change hstep)
  inserted _ _ _ hs _ := hs.of_eq rfl rfl
  skipped hs := hs.of_eq rfl rfl
  requeued hs _ := hs.of_eq rfl rfl
  upserted hs _ _ := hs.of_eq rfl rfl
  deleted _ hs := hs.of_eq rfl rfl

/-- **Every request keeps what was inherited**, whatever fails on its way. -/
theorem inherited_handle [Inhabited V] (request : HttpRequest) :
    Stays c (Inherited X.unicode) (handle X state request) :=
  (inherited_routes X state).handle request

end Requests

/-! ## Starts among requests -/

/-- A request to a server that was started with `state`, a start, or the bootstrap after it. -/
inductive StartAction (V : Type) where
  | request (state : AppContext V) (course : Course) (now : Time) (request : HttpRequest)
  | ensureSchema (course : Course) (now : Time)
  | ensureBootstrapAdmin (adminName : Str) (adminToken : Option Str) (now : Time)

/-- What a step answers. -/
inductive StartEvent where
  | answered (answer : Except ApiError Reply)
  | ensured (answer : Except SqlError Unit)
  | bootstrapped (answer : Except String Unit)

section Starts

variable {V F : Type} [Inhabited V] (X : Externals V F)

/-- The store, started as earlier versions have left it. -/
def starts (store : Store V) : Machine (Store V) (StartAction V) StartEvent where
  init := store
  step s
    | .request state course now request =>
        let (answer, m) := handle X state request course ⟨s.db, now, 0⟩
        some ({ s with db := m.db }, .answered answer)
    | .ensureSchema course now =>
        let (answer, m) := ensureSchema course ⟨s, now, 0⟩
        some (m.db, .ensured answer)
    | .ensureBootstrapAdmin adminName adminToken now =>
        let (accounts, answer) :=
          s.db.accounts.ensureBootstrapAdmin X.sha256 adminName adminToken now
        some ({ s with db := { s.db with accounts := accounts } }, .bootstrapped answer)

variable {X} {store s : Store V}

theorem inherited_step {a : StartAction V} {s' : Store V} {e : StartEvent}
    (h : Inherited X.unicode s.db) (hs : (starts X store).step s a = some (s', e)) :
    Inherited X.unicode s'.db := by
  cases a with
  | request state course now request =>
      cases hs
      exact inherited_handle X state request ⟨s.db, now, 0⟩ h
  | ensureSchema course now =>
      have hs' : s' = (ensureSchema course ⟨s, now, 0⟩).2.db :=
        (congrArg Prod.fst (Option.some.inj hs)).symm
      rw [hs']
      rcases (triple_ensureSchema course s ⟨s, now, 0⟩ rfl).2 with hsame | ⟨now', hmigrate⟩
      · rw [hsame]
        exact h
      · rw [hmigrate]
        exact migrate_inherited h
  | ensureBootstrapAdmin adminName adminToken now =>
      cases hs
      exact h.accounts (Accounts.ensureBootstrapAdmin_change adminName adminToken now)

/-- **Starting again.** Between any requests and starts, from any store whose keys are one of the
two, a start that answers has migrated the store, and a second start in a row changes no row,
whether it answers or fails. A start that fails has done all of its work or nothing. -/
theorem ensureSchema_migrates (hstore : Inherited X.unicode store.db)
    {l : List (Machine.Step (Store V) (StartAction V) StartEvent)}
    (ht : (starts X store).Trace l s) :
    ∀ st ∈ l, ∀ course now answer, st.action = .ensureSchema course now →
      st.event = .ensured answer →
      (answer = .ok () → Migrated X.unicode st.before st.after ∧ ∀ course' now',
        SameRows st.after (ensureSchema course' ⟨st.after, now', 0⟩).2.db) ∧
      (st.after = st.before ∨ Migrated X.unicode st.before st.after) := by
  intro st hst course now answer haction hevent
  obtain ⟨earlier, hearlier, hstep⟩ := ht.mem st hst
  have hinherited : Inherited X.unicode st.before.db :=
    hearlier.invariant (I := fun _ s => Inherited X.unicode s.db) hstore
      fun _ _ _ _ _ _ h hs => inherited_step h hs
  rw [haction, hevent] at hstep
  cases hrun : ensureSchema course ⟨st.before, now, 0⟩ with
  | mk r m =>
      have htriple := triple_ensureSchema course st.before ⟨st.before, now, 0⟩ rfl
      simp only [starts, hrun, Option.some.injEq, Prod.mk.injEq, StartEvent.ensured.injEq] at hstep
      obtain ⟨hafter, rfl⟩ := hstep
      rw [hrun, hafter] at htriple
      constructor
      · intro hok
        obtain ⟨now₁, hmigrate⟩ := htriple.1 hok
        rw [hmigrate]
        refine ⟨migrate_migrated hinherited, fun course' now' => ?_⟩
        rcases (triple_ensureSchema course' (migrate now₁ st.before)
          ⟨migrate now₁ st.before, now', 0⟩ rfl).2 with hsame | ⟨now₂, hagain⟩
        · rw [hsame]
          exact ⟨_, rfl⟩
        · rw [hagain]
          exact migrate_again now₁ now₂ st.before
      · rcases htriple.2 with hsame | ⟨now₁, hmigrate⟩
        · exact Or.inl hsame
        · rw [hmigrate]
          exact Or.inr (migrate_migrated hinherited)

end Starts

/-! ## An upgraded server -/

/-- A fact of a version that did not fold dashes. -/
def oldFact : FactRow where
  id := 1
  songKey := "american woman".toList
  artistKey := "bachman\u2013turner overdrive".toList
  song := "American Woman".toList
  artist := "Bachman\u2013Turner Overdrive".toList
  claim := "It was recorded in one take.".toList
  source := "wikipedia".toList
  sourceId := "American Woman".toList
  sourceUrl := "https://en.wikipedia.org/wiki/American_Woman".toList
  evidence := "recorded in one take".toList
  fingerprint := []
  verifiedAt := 0

/-- The user `kim` with a token, an old fact, and the document of the time before users. -/
def oldStore : Store Nat where
  db := { kimDatabase with facts := ⟨[oldFact], [], 2⟩ }
  legacy := some fun id => if id = 1 then some (Sync.emptyDocument 0) else none

theorem ensureSchema_migrates_upgrade :
    let after := (ensureSchema Course.still ⟨oldStore, 2, 0⟩).2.db
    after.db.facts.facts.map FactRow.artistKey = ["bachman-turner overdrive".toList] ∧
      Migrated asciiTables oldStore after := by
  have hold : Inherited asciiTables oldStore.db := by
    refine ⟨?_, by decide⟩
    intro f hf
    rw [List.mem_singleton.1 hf]
    exact ⟨Or.inl (by decide +kernel), Or.inl (by decide +kernel)⟩
  have hstep : (starts kimExternals oldStore).step oldStore (.ensureSchema Course.still 2) =
      some ((ensureSchema Course.still ⟨oldStore, 2, 0⟩).2.db, .ensured (.ok ())) := rfl
  have ht := Machine.Trace.step (Machine.Trace.start (M := starts kimExternals oldStore)) hstep
  refine ⟨by decide +kernel, ?_⟩
  exact ((ensureSchema_migrates hold ht _ List.mem_cons_self Course.still 2 (.ok ()) rfl rfl).1
    rfl).1

end AnyPlayerSync.Server
