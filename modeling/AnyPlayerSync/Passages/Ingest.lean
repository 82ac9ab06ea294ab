import AnyPlayerSync.Foundation.Components
import AnyPlayerSync.Passages.Outcomes
import AnyPlayerSync.Passages.Uploads

/-!
# The ingest as a whole

The workers of the queue, the store that they write to, and what lies between the two. `process`
fetches the pending sources concurrently; `store_results` uploads the documents of one source one
after the other, stops at the first that the store refuses, and records an outcome; when every
pending source has one, the job is finished. Other uploads and deletions run at any time, and a
worker may die at any point.

Seen from the job table a run of the ingest is a run of the queue (`queue_component`), and seen from
the documents it is a run of the store (`store_component`). What a finish records of a source is
what the source returned and what became of its documents (`Told`, `ingest_told`).
-/

set_option autoImplicit false

namespace AnyPlayerSync.Passages

open AnyPlayerSync.Foundation
open AnyPlayerSync.Sync (Time UserId)

/-! ## State -/

/-- How far an attempt is with one source: its documents that are stored, the one whose turn it is,
with the call that uploads it once it has begun, and those that come after. -/
inductive SourceWork where
  | fetching
  | storing (done : List NewDocument) (doc : NewDocument) (rest : List NewDocument)
      (call : Option Nat)
  | recorded (outcome : Json)

/-- `work` knows an attempt by the number of its claim. -/
structure Ingest (V : Type) where
  queue : Queue
  store : TxnState V
  work : Nat → Str → SourceWork

/-- Empty tables, and no attempt has fetched anything. -/
def Ingest.empty {V : Type} : Ingest V := ⟨Queue.empty, TxnState.empty, fun _ _ => .fetching⟩

/-! ## Actions and events -/

/-- A scheduling choice, or what a source returns. -/
inductive IngestAction where
  /-- A step of the queue other than a finish. -/
  | queue (a : QueueAction)
  | fetched (token : Nat) (name : Str) (result : SourceResult)
  | upload (token : Nat) (name : Str) (call : Nat)
  /-- A step of any call to the store; `message` is its error when it fails. -/
  | store (a : StoreAction) (message : Str)
  | finish (token : Nat) (clock : Str)

/-- What a step tells, with the event of the queue or the store in it. -/
inductive IngestEvent (V : Type) where
  | queue (e : QueueEvent)
  | fetched (token : Nat) (name : Str) (result : SourceResult)
  | upload (token : Nat) (name : Str) (doc : NewDocument) (e : StoreEvent V)
  | store (e : StoreEvent V) (message : Str)
  | finished (token : Nat) (pending : List Str) (e : QueueEvent)

/-- What the queue sees of an event. -/
def IngestEvent.queueEvent {V : Type} : IngestEvent V → Option QueueEvent
  | .queue e => some e
  | .finished _ _ e => some e
  | _ => none

/-- What the store sees of an event. -/
def IngestEvent.storeEvent {V : Type} : IngestEvent V → Option (StoreEvent V)
  | .upload _ _ _ e => some e
  | .store e _ => some e
  | _ => none

/-! ## The machine -/

namespace SourceWork

/-- The loop of `store_results`, with these documents stored and those still to store. -/
def next (done : List NewDocument) : List NewDocument → SourceWork
  | [] => .recorded (outcomeFor (.ok done))
  | doc :: rest => .storing done doc rest none

/-- What a source returned is stored, or recorded at once. -/
def begin : SourceResult → SourceWork
  | .ok docs => .next [] docs
  | .error e => .recorded (outcomeFor (.error e))

/-- A step of the store, as the attempts see it: the call that an attempt waits for returns or
fails. -/
def after {V : Type} (e : StoreEvent V) (message : Str) : SourceWork → SourceWork
  | .storing done doc rest (some call) =>
      if e.call = call then
        match e.result with
        | .returned _ => .next (done ++ [doc]) rest
        | .failed => .recorded (errorOutcome ("store: ".toList ++ message))
        | _ => .storing done doc rest (some call)
      else .storing done doc rest (some call)
  | w => w

/-- The outcome that `store_results` has returned. -/
def outcome? : SourceWork → Option Json
  | .recorded outcome => some outcome
  | _ => none

end SourceWork

section Machine

variable {V : Type}

/-- An attempt is elsewhere with one source. -/
def Ingest.setWork (s : Ingest V) (token : Nat) (name : Str) (w : SourceWork) : Ingest V :=
  { s with
    work := Function.update s.work token (Function.update (s.work token) name w) }

theorem Ingest.setWork_cases (s : Ingest V) (token : Nat) (name : Str) (w : SourceWork) (t : Nat)
    (n : Str) :
    (t = token ∧ n = name) ∧ (s.setWork token name w).work t n = w ∨
      ¬ (token = t ∧ name = n) ∧ (s.setWork token name w).work t n = s.work t n := by
  by_cases ht : t = token
  · subst ht
    by_cases hn : n = name
    · subst hn
      exact Or.inl ⟨⟨rfl, rfl⟩, by simp [Ingest.setWork]⟩
    · exact Or.inr ⟨fun h => hn h.2.symm, by simp [Ingest.setWork, hn]⟩
  · exact Or.inr ⟨fun h => ht h.1.symm, by simp [Ingest.setWork, ht]⟩

/-- The sources that an attempt fetches. -/
def Queue.pending (s : Queue) (token : Nat) : List Str :=
  match s.holders token with
  | some ⟨_, _, .fetching _ pending⟩ => pending
  | _ => []

/-- `results.insert(name, outcome)` for each outcome. -/
def recordResults (results : StrMap Json) (pending : List Str) (outcome : Str → Json) :
    StrMap Json :=
  pending.foldl (fun results name => StrMap.insert name (outcome name) results) results

variable (U : UnicodeTables) (hash : Str → Str) (E : Embedder V)

/-- One step of the ingest. -/
def ingestStep (s : Ingest V) : IngestAction → Option (Ingest V × IngestEvent V)
  | .queue (.finish _ _ _) => none
  | .queue a => (queueStep U s.queue a).map fun p => ({ s with queue := p.1 }, .queue p.2)
  | .fetched token name result =>
      match s.work token name with
      | .fetching =>
          if name ∈ s.queue.pending token then
            some (s.setWork token name (.begin result), .fetched token name result)
          else none
      | _ => none
  | .upload token name call =>
      match s.work token name with
      | .storing done doc rest none =>
          if name ∈ s.queue.pending token then
            (storeStep U hash E s.store (.upsert call doc none)).map fun p =>
              ({ s with store := p.1 }.setWork token name (.storing done doc rest (some call)),
                .upload token name doc p.2)
          else none
      | _ => none
  | .store a message =>
      (storeStep U hash E s.store a).map fun p =>
        (⟨s.queue, p.1, fun token name => (s.work token name).after p.2 message⟩,
          .store p.2 message)
  | .finish token clock =>
      match s.queue.holders token with
      | none => none
      | some holder =>
          match holder.phase with
          | .fetching enabled pending =>
              -- `join_all` has every outcome
              if ∀ name ∈ pending, (s.work token name).outcome?.isSome then
                let results := recordResults holder.job.results pending fun name =>
                  (s.work token name).outcome?.getD .null
                let rows := finish s.queue.rows holder.job results clock s.queue.now
                some ({ s with
                    queue := { s.queue with rows := rows }.setHolder token
                      { holder with phase := .ended } },
                  .finished token pending
                    (.finished token holder.job.id enabled
                      (rows.find? fun r => r.id = holder.job.id)))
              else none
          | _ => none

/-- The ingest, started on empty tables. -/
def ingest : Machine (Ingest V) IngestAction (IngestEvent V) where
  init := Ingest.empty
  step := ingestStep U hash E

end Machine

/-! ## What a step can do -/

section Turns

variable {V : Type} {U : UnicodeTables} {hash : Str → Str} {E : Embedder V}

variable (U hash E) in
/-- What each step does to the three parts. -/
inductive IngestTurn (s : Ingest V) : Ingest V → IngestEvent V → Prop
  | queue {a : QueueAction} {q : Queue} {e : QueueEvent}
      (step : queueStep U s.queue a = some (q, e)) :
      IngestTurn s { s with queue := q } (.queue e)
  | fetched {token : Nat} {name : Str} (result : SourceResult)
      (was : s.work token name = .fetching) :
      IngestTurn s (s.setWork token name (.begin result)) (.fetched token name result)
  | upload {token : Nat} {name : Str} {done : List NewDocument} {doc : NewDocument}
      {rest : List NewDocument} {call : Nat} {t : TxnState V} {e : StoreEvent V}
      (was : s.work token name = .storing done doc rest none)
      (step : storeStep U hash E s.store (.upsert call doc none) = some (t, e)) :
      IngestTurn s ({ s with store := t }.setWork token name (.storing done doc rest (some call)))
        (.upload token name doc e)
  | store {a : StoreAction} {t : TxnState V} {e : StoreEvent V} (message : Str)
      (step : storeStep U hash E s.store a = some (t, e)) :
      IngestTurn s ⟨s.queue, t, fun token name => (s.work token name).after e message⟩
        (.store e message)
  | finished {token : Nat} {holder : Holder} {enabled pending : List Str} (clock : Str)
      {outcome : Str → Json} (held : s.queue.holders token = some holder)
      (phase : holder.phase = .fetching enabled pending)
      (outcomes : ∀ name ∈ pending, s.work token name = .recorded (outcome name)) :
      IngestTurn s
        { s with
          queue := Queue.setHolder
            { s.queue with
              rows := finish s.queue.rows holder.job
                (recordResults holder.job.results pending outcome) clock s.queue.now }
            token { holder with phase := .ended } }
        (.finished token pending
          (.finished token holder.job.id enabled
            ((finish s.queue.rows holder.job (recordResults holder.job.results pending outcome)
              clock s.queue.now).find? fun r => r.id = holder.job.id)))

theorem SourceWork.eq_recorded {w : SourceWork} (h : w.outcome?.isSome = true) :
    w = .recorded (w.outcome?.getD .null) := by
  cases w with
  | recorded outcome => rfl
  | fetching => cases h
  | storing => cases h

theorem ingestStep_turn {s s' : Ingest V} {a : IngestAction} {e : IngestEvent V}
    (h : ingestStep U hash E s a = some (s', e)) : IngestTurn U hash E s s' e := by
  cases a with
  | queue a =>
      have hstep : ∃ p, queueStep U s.queue a = some p ∧
          ({ s with queue := p.1 }, .queue p.2) = (s', e) := by
        cases a with
        | finish => cases h
        | _ => exact Option.map_eq_some_iff.1 h
      obtain ⟨⟨q, e'⟩, hstep, heq⟩ := hstep
      cases heq
      exact .queue hstep
  | fetched token name result =>
      cases hwork : s.work token name with
      | fetching =>
          simp only [ingestStep, hwork] at h
          split_ifs at h
          cases h
          exact .fetched result hwork
      | storing | recorded => simp [ingestStep, hwork] at h
  | upload token name call =>
      cases hwork : s.work token name with
      | storing done doc rest begun =>
          cases begun with
          | none =>
              simp only [ingestStep, hwork] at h
              split_ifs at h
              obtain ⟨⟨t, e'⟩, hstep, heq⟩ := Option.map_eq_some_iff.1 h
              cases heq
              exact .upload hwork hstep
          | some other => simp [ingestStep, hwork] at h
      | fetching | recorded => simp [ingestStep, hwork] at h
  | store a message =>
      obtain ⟨⟨t, e'⟩, hstep, heq⟩ := Option.map_eq_some_iff.1 h
      cases heq
      exact .store message hstep
  | finish token clock =>
      cases held : s.queue.holders token with
      | none => simp [ingestStep, held] at h
      | some holder =>
          cases hphase : holder.phase with
          | fetching enabled pending =>
              simp only [ingestStep, held, hphase] at h
              split_ifs at h with houtcomes
              cases h
              exact .finished clock held hphase fun name hname =>
                SourceWork.eq_recorded (houtcomes name hname)
          | claimed | ended => simp [ingestStep, held, hphase] at h

end Turns

/-! ## What the history says of an attempt -/

section History

variable {V : Type}

/-- What a source returned to an attempt. -/
def fetches (token : Nat) (name : Str) : List (IngestEvent V) → List SourceResult
  | [] => []
  | .fetched token' name' result :: h =>
      if token' = token ∧ name' = name then result :: fetches token name h else fetches token name h
  | _ :: h => fetches token name h

/-- The documents that an attempt began to upload for a source, each with its call. -/
def uploads (token : Nat) (name : Str) : List (IngestEvent V) → List (NewDocument × Nat)
  | [] => []
  | .upload token' name' doc e :: h =>
      if token' = token ∧ name' = name then (doc, e.call) :: uploads token name h
      else uploads token name h
  | _ :: h => uploads token name h

/-- The call has returned, and the committed tables have had its document. -/
def Uploaded (hash : Str → Str) (h : List (IngestEvent V)) (u : NewDocument × Nat) : Prop :=
  (∃ e message id, .store e message ∈ h ∧ e.call = u.2 ∧ e.result = .returned id) ∧
    HeldBy hash (h.filterMap IngestEvent.storeEvent) u.2 u.1

/-- The call has failed with this error. -/
def Refused (h : List (IngestEvent V)) (call : Nat) (message : Str) : Prop :=
  ∃ e, .store e message ∈ h ∧ e.call = call ∧ e.result = .failed

/-- The documents were uploaded one after the other; the latest upload comes first. -/
def UploadedAll (hash : Str → Str) (h : List (IngestEvent V)) (us : List (NewDocument × Nat))
    (docs : List NewDocument) : Prop :=
  us.map Prod.fst = docs.reverse ∧ ∀ u ∈ us, Uploaded hash h u

variable (hash : Str → Str)

/-- What an outcome tells of the source and of its documents. -/
inductive Told (h : List (IngestEvent V)) (token : Nat) (name : Str) : Json → Prop
  /-- The source returned an error, and nothing was uploaded. -/
  | failed {e : SourceError} (fetched : fetches token name h = [.error e])
      (uploaded : uploads token name h = []) : Told h token name (outcomeFor (.error e))
  /-- Every document that the source returned is stored. -/
  | stored {docs : List NewDocument} (fetched : fetches token name h = [.ok docs])
      (uploaded : UploadedAll hash h (uploads token name h) docs) :
      Told h token name (outcomeFor (.ok docs))
  /-- The store refused a document; those before it are stored, and none after it was tried. -/
  | refused {done rest : List NewDocument} {doc : NewDocument} {call : Nat} {message : Str}
      {us : List (NewDocument × Nat)}
      (fetched : fetches token name h = [.ok (done ++ doc :: rest)])
      (begun : uploads token name h = (doc, call) :: us) (uploaded : UploadedAll hash h us done)
      (refused : Refused h call message) :
      Told h token name (errorOutcome ("store: ".toList ++ message))

/-- The state of an attempt's work on a source fits its history. -/
def SourceWork.Fits (h : List (IngestEvent V)) (token : Nat) (name : Str) (store : TxnState V) :
    SourceWork → Prop
  | .fetching => fetches token name h = [] ∧ uploads token name h = []
  | .storing done doc rest none =>
      fetches token name h = [.ok (done ++ doc :: rest)] ∧
        UploadedAll hash h (uploads token name h) done
  | .storing done doc rest (some call) =>
      fetches token name h = [.ok (done ++ doc :: rest)] ∧
        (∃ phase, store.calls call = some (.upsert doc none phase)) ∧
          ∃ us, uploads token name h = (doc, call) :: us ∧ UploadedAll hash h us done
  | .recorded outcome => Told hash h token name outcome

end History

/-! ## The components -/

section Runs

variable {V : Type} {U : UnicodeTables} {hash : Str → Str} {E : Embedder V}
  {h : List (IngestEvent V)} {s s' : Ingest V} {a : IngestAction} {e : IngestEvent V}

/-- **The documents see a run of the store.** -/
theorem store_component :
    (ingest U hash E).Component (store U hash E) Ingest.store IngestEvent.storeEvent where
  start := rfl
  step := by
    intro h s s' a e hr hs
    cases ingestStep_turn hs with
    | queue | fetched | finished => rfl
    | @upload token name done doc rest call t e was step => exact ⟨.upsert call doc none, step⟩
    | store message step => exact ⟨_, step⟩

/-! ## The work fits the history -/

theorem Uploaded.cons {u : NewDocument × Nat} (hu : Uploaded hash h u) :
    Uploaded hash (e :: h) u := by
  obtain ⟨⟨f, message, id, hmem, hcall, hresult⟩, hheld⟩ := hu
  refine ⟨⟨f, message, id, List.mem_cons_of_mem e hmem, hcall, hresult⟩, ?_⟩
  cases hevent : e.storeEvent with
  | none =>
      rw [List.filterMap_cons_none hevent]
      exact hheld
  | some f =>
      rw [List.filterMap_cons_some hevent]
      exact hheld.cons

theorem UploadedAll.cons {us : List (NewDocument × Nat)} {docs : List NewDocument}
    (hu : UploadedAll hash h us docs) : UploadedAll hash (e :: h) us docs :=
  ⟨hu.1, fun u hmem => (hu.2 u hmem).cons⟩

/-- One more document is stored. -/
theorem UploadedAll.snoc {us : List (NewDocument × Nat)} {docs : List NewDocument}
    {u : NewDocument × Nat} (hu : UploadedAll hash h us docs) (hlast : Uploaded hash h u) :
    UploadedAll hash h (u :: us) (docs ++ [u.1]) := by
  refine ⟨?_, List.forall_mem_cons.2 ⟨hlast, hu.2⟩⟩
  rw [List.map_cons, hu.1, List.reverse_append]
  rfl

section Frame

variable {token : Nat} {name : Str} {w : SourceWork} {store store' : TxnState V}

/-- An event of another source, or of none. -/
theorem Told.cons {outcome : Json} (ht : Told hash h token name outcome)
    (hfetches : fetches token name (e :: h) = fetches token name h)
    (huploads : uploads token name (e :: h) = uploads token name h) :
    Told hash (e :: h) token name outcome := by
  cases ht with
  | failed fetched uploaded => exact .failed (hfetches.trans fetched) (huploads.trans uploaded)
  | stored fetched uploaded =>
      refine .stored (hfetches.trans fetched) ?_
      rw [huploads]
      exact uploaded.cons
  | refused fetched begun uploaded refused =>
      obtain ⟨f, hmem, hcall, hfailed⟩ := refused
      exact .refused (hfetches.trans fetched) (huploads.trans begun) uploaded.cons
        ⟨f, List.mem_cons_of_mem e hmem, hcall, hfailed⟩

theorem SourceWork.Fits.cons (hf : w.Fits hash h token name store)
    (hfetches : fetches token name (e :: h) = fetches token name h)
    (huploads : uploads token name (e :: h) = uploads token name h)
    (hcalls : ∀ call c, store.calls call = some c → store'.calls call = some c) :
    w.Fits hash (e :: h) token name store' := by
  cases w with
  | fetching => exact ⟨hfetches.trans hf.1, huploads.trans hf.2⟩
  | storing done doc rest call =>
      cases call with
      | none =>
          refine ⟨hfetches.trans hf.1, ?_⟩
          rw [huploads]
          exact hf.2.cons
      | some call =>
          obtain ⟨hfetched, ⟨phase, hphase⟩, us, hus, hall⟩ := hf
          exact ⟨hfetches.trans hfetched, ⟨phase, hcalls call _ hphase⟩, us, huploads.trans hus,
            hall.cons⟩
  | recorded outcome => exact Told.cons hf hfetches huploads

/-- What a source returned is recorded, or its first document is next. -/
theorem SourceWork.fits_begin {result : SourceResult}
    (hfetches : fetches token name h = [result]) (huploads : uploads token name h = []) :
    (SourceWork.begin result).Fits hash h token name store := by
  cases result with
  | error e => exact Told.failed hfetches huploads
  | ok docs =>
      have hnone : UploadedAll hash h (uploads token name h) [] := by
        rw [huploads]
        exact ⟨rfl, fun _ hu => by cases hu⟩
      cases docs with
      | nil => exact Told.stored hfetches hnone
      | cons doc docs => exact ⟨hfetches, hnone⟩

/-- A document is stored, and the next one is begun or the outcome recorded. -/
theorem SourceWork.fits_next {done rest : List NewDocument}
    (hfetches : fetches token name h = [.ok (done ++ rest)])
    (hall : UploadedAll hash h (uploads token name h) done) :
    (SourceWork.next done rest).Fits hash h token name store := by
  cases rest with
  | nil =>
      rw [List.append_nil] at hfetches
      exact Told.stored hfetches hall
  | cons doc rest => exact ⟨hfetches, hall⟩

end Frame

/-- **A step of the store** moves the work of the attempt that waits for it. -/
theorem SourceWork.Fits.after {token : Nat} {name : Str} {w : SourceWork} {t : TxnState V}
    {a : StoreAction} {e : StoreEvent V} {message : Str} (hf : w.Fits hash h token name s.store)
    (hr : (store U hash E).Run (h.filterMap IngestEvent.storeEvent) s.store)
    (hs : storeStep U hash E s.store a = some (t, e)) :
    (w.after e message).Fits hash (.store e message :: h) token name t := by
  cases w with
  | fetching => exact hf
  | recorded outcome => exact Told.cons hf rfl rfl
  | storing done doc rest call =>
      cases call with
      | none => exact ⟨hf.1, hf.2.cons⟩
      | some call =>
          obtain ⟨hfetched, ⟨phase, hphase⟩, us, hus, hall⟩ := hf
          by_cases hcall : e.call = call
          · subst hcall
            rw [SourceWork.after, if_pos rfl]
            rcases upload_step hr hs hphase with ⟨hresult, hnext⟩ | ⟨⟨id, hresult⟩, hheld⟩ | hresult
            · rw [hresult]
              exact ⟨hfetched, hnext, us, hus, hall.cons⟩
            · rw [hresult]
              have hlast : Uploaded hash (.store e message :: h) (doc, e.call) :=
                ⟨⟨e, message, id, List.mem_cons_self, rfl, hresult⟩, hheld⟩
              refine SourceWork.fits_next ?_ ?_
              · rw [List.append_assoc]
                exact hfetched
              · rw [show uploads token name (.store e message :: h) = (doc, e.call) :: us from hus]
                exact hall.cons.snoc hlast
            · rw [hresult]
              exact Told.refused hfetched hus hall.cons ⟨e, List.mem_cons_self, rfl, hresult⟩
          · rw [SourceWork.after, if_neg hcall]
            refine ⟨hfetched, ⟨phase, ?_⟩, us, hus, hall.cons⟩
            rw [(storeStep_effect hs).facts.others call (Ne.symm hcall)]
            exact hphase

/-- A new call to the store leaves the others as they are. -/
theorem storeStep_upsert {s t : TxnState V} {call : Nat} {doc : NewDocument}
    {addedBy : Option UserId} {e : StoreEvent V}
    (hs : storeStep U hash E s (.upsert call doc addedBy) = some (t, e)) :
    e.call = call ∧ t.calls call = some (.upsert doc addedBy .reading) ∧
      ∀ j c, s.calls j = some c → t.calls j = some c := by
  rw [storeStep] at hs
  split_ifs at hs with hfresh
  cases hs
  refine ⟨rfl, Function.update_self .., fun j c hc => ?_⟩
  have hj : j ≠ call := by
    rintro rfl
    rw [hfresh] at hc
    cases hc
  exact (Function.update_of_ne hj ..).trans hc

/-- The work of every attempt fits its history. -/
theorem run_fits (hr : (ingest U hash E).Run h s) :
    ∀ token name, (s.work token name).Fits hash h token name s.store := by
  refine hr.invariant (I := fun h s => ∀ token name, (s.work token name).Fits hash h token name
    s.store) ?_ ?_
  · exact fun _ _ => ⟨rfl, rfl⟩
  · intro h s a s' e hrun ih hs _ token name
    cases ingestStep_turn hs with
    | queue => exact (ih token name).cons rfl rfl fun _ _ hc => hc
    | finished => exact (ih token name).cons rfl rfl fun _ _ hc => hc
    | store message step => exact (ih token name).after (store_component.run hrun) step
    | @fetched token' name' result was =>
        rcases s.setWork_cases token' name' (.begin result) token name with
          ⟨⟨rfl, rfl⟩, hwork⟩ | ⟨hother, hwork⟩
        · have hnone := ih token name
          rw [was] at hnone
          rw [hwork]
          refine SourceWork.fits_begin ?_ hnone.2
          rw [fetches, if_pos ⟨rfl, rfl⟩, hnone.1]
        · rw [hwork]
          refine (ih token name).cons ?_ rfl fun _ _ hc => hc
          rw [fetches, if_neg hother]
    | @upload token' name' done doc rest call t e was step =>
        obtain ⟨rfl, hnew, hcalls⟩ := storeStep_upsert step
        rcases Ingest.setWork_cases { s with store := t } token' name'
            (.storing done doc rest (some e.call)) token name with
          ⟨⟨rfl, rfl⟩, hwork⟩ | ⟨hother, hwork⟩
        · have hbefore := ih token name
          rw [was] at hbefore
          rw [hwork]
          refine ⟨hbefore.1, ⟨_, hnew⟩, uploads token name h, ?_, hbefore.2.cons⟩
          rw [uploads, if_pos ⟨rfl, rfl⟩]
        · rw [hwork]
          refine (ih token name).cons rfl ?_ hcalls
          rw [uploads, if_neg hother]

/-! ## The job table -/

/-- The documents before the one that the store refused are no error. -/
theorem firstStoreError_at (message : Str) (doc : NewDocument) (rest : List NewDocument) :
    ∀ (done : List NewDocument) (i : Nat),
      firstStoreError (fun j => if j = i + done.length then some message else none) i
        (done ++ doc :: rest) = some message
  | [], i => by simp [firstStoreError]
  | d :: done, i => by
      have hne : i ≠ i + (d :: done).length := by
        rw [List.length_cons]
        omega
      have hlen : i + (d :: done).length = i + 1 + done.length := by
        rw [List.length_cons]
        omega
      rw [List.cons_append, firstStoreError, if_neg hne, hlen]
      exact firstStoreError_at message doc rest done (i + 1)

theorem firstStoreError_none (docs : List NewDocument) (i : Nat) :
    firstStoreError (fun _ => none) i docs = none := by
  induction docs generalizing i with
  | nil => rfl
  | cons doc docs ih => exact ih (i + 1)

/-- An outcome is that of `store_results` on what the source returned. -/
theorem Told.storeResults {token : Nat} {name : Str} {outcome : Json}
    (ht : Told hash h token name outcome) :
    ∃ f : Fetched, fetches token name h = [f.result] ∧ outcome = storeResults f.result f.stored := by
  cases ht with
  | @failed e fetched uploaded => exact ⟨⟨.error e, fun _ => none⟩, fetched, rfl⟩
  | @stored docs fetched uploaded =>
      refine ⟨⟨.ok docs, fun _ => none⟩, fetched, ?_⟩
      rw [Passages.storeResults]
      dsimp only
      rw [firstStoreError_none]
  | @refused done rest doc call message us fetched begun uploaded refused =>
      refine ⟨⟨.ok (done ++ doc :: rest),
        fun j => if j = 0 + done.length then some message else none⟩, fetched, ?_⟩
      rw [Passages.storeResults]
      dsimp only
      rw [firstStoreError_at]

theorem recordResults_congr {results : StrMap Json} {pending : List Str}
    {outcome outcome' : Str → Json}
    (h : ∀ name ∈ pending, outcome name = outcome' name) :
    recordResults results pending outcome = recordResults results pending outcome' := by
  induction pending generalizing results with
  | nil => rfl
  | cons name pending ih =>
      obtain ⟨hname, hrest⟩ := List.forall_mem_cons.1 h
      simp only [recordResults, List.foldl_cons] at ih ⊢
      rw [hname]
      exact ih hrest

/-- **The job table sees a run of the queue.** -/
theorem queue_component :
    (ingest U hash E).Component (queue U) Ingest.queue IngestEvent.queueEvent where
  start := rfl
  step := by
    intro h s s' a e hr hs
    cases ingestStep_turn hs with
    | fetched | upload | store => rfl
    | queue step => exact ⟨_, step⟩
    | @finished token holder enabled pending clock outcome held phase outcomes =>
        have htold : ∀ name, ∃ f : Fetched,
            name ∈ pending → outcome name = storeResults f.result f.stored := by
          intro name
          by_cases hname : name ∈ pending
          · have hfits := run_fits hr token name
            rw [outcomes name hname] at hfits
            obtain ⟨f, -, hf⟩ := hfits.storeResults
            exact ⟨f, fun _ => hf⟩
          · exact ⟨⟨.ok [], fun _ => none⟩, fun hmem => absurd hmem hname⟩
        choose fetched hfetched using htold
        have hresults : attemptResults holder.job.results pending fetched =
            recordResults holder.job.results pending outcome :=
          recordResults_congr fun name hname => (hfetched name hname).symm
        refine ⟨.finish token fetched clock, ?_⟩
        change queueStep U s.queue (.finish token fetched clock) = some _
        simp only [queueStep, held, phase, hresults]

/-- **Each run of the ingest is a run of the queue and a run of the store.** A condition on the
steps of the queue carries over. -/
theorem ingest_refines {C : List QueueEvent → Queue → QueueEvent → Prop}
    (hr : (ingest U hash E).RunIf (Machine.OnPart Ingest.queue IngestEvent.queueEvent C) h s) :
    (queue U).RunIf C (h.filterMap IngestEvent.queueEvent) s.queue ∧
      (store U hash E).Run (h.filterMap IngestEvent.storeEvent) s.store :=
  ⟨queue_component.runIf hr, store_component.run hr.run⟩

/-! ## What a finish records -/

theorem lookup_recordResults_other {results : StrMap Json} {pending : List Str}
    {outcome : Str → Json} {name : Str} (h : name ∉ pending) :
    StrMap.lookup name (recordResults results pending outcome) = StrMap.lookup name results := by
  induction pending generalizing results with
  | nil => rfl
  | cons source pending ih =>
      obtain ⟨hne, hrest⟩ := not_or.1 (mt List.mem_cons.2 h)
      exact (ih hrest).trans (StrMap.lookup_insert_of_ne hne _ _)

theorem lookup_recordResults {results : StrMap Json} {pending : List Str} {outcome : Str → Json}
    {name : Str} (h : name ∈ pending) :
    StrMap.lookup name (recordResults results pending outcome) = some (outcome name) := by
  induction pending generalizing results with
  | nil => cases h
  | cons source pending ih =>
      by_cases hrest : name ∈ pending
      · exact ih hrest
      · obtain rfl := (List.mem_cons.1 h).resolve_right hrest
        exact (lookup_recordResults_other hrest).trans (StrMap.lookup_insert_self ..)

/-- **What a finish records of a source** is what the source returned to this attempt and what
became of its documents. -/
theorem ingest_told (hr : (ingest U hash E).Run h s) {later earlier : List (IngestEvent V)}
    {token job : Nat} {pending enabled : List Str} {row : JobRow}
    (hh : h = later ++ .finished token pending (.finished token job enabled (some row)) :: earlier)
    {name : Str} (hname : name ∈ pending) :
    ∃ outcome clock, Told hash earlier token name outcome ∧
      StrMap.lookup name row.entries = some (stamp clock outcome) := by
  refine hr.forall_steps (P := fun e earlier => ∀ token job pending enabled row name,
    e = .finished token pending (.finished token job enabled (some row)) → name ∈ pending →
      ∃ outcome clock, Told hash earlier token name outcome ∧
        StrMap.lookup name row.entries = some (stamp clock outcome)) ?_ later _ earlier hh
    token job pending enabled row name rfl hname
  intro h s a s' e hrun hs _ token job pending enabled row name heq hname
  subst heq
  have hturn := ingestStep_turn hs
  generalize hwritten : some row = written at hturn
  cases hturn with
  | finished clock held phase outcomes =>
      obtain ⟨hmem, hid⟩ := find_spec hwritten.symm
      obtain ⟨old, hold, rfl⟩ := List.mem_map.1 hmem
      have hfits := run_fits hrun token name
      rw [outcomes name hname] at hfits
      refine ⟨_, clock, hfits, ?_⟩
      split_ifs with hjob
      · exact (lookup_stampResults clock name _).trans
          (congrArg (Option.map (stamp clock)) (lookup_recordResults hname))
      · rw [if_neg hjob] at hid
        exact absurd hid hjob

end Runs

/-! ## A document that is stored -/

/-- An attempt at a song, for which Wikipedia returns a page that is not stored yet. -/
def storedSong : List IngestAction :=
  [.queue (.call 0 ⟨"Thriller".toList, "Michael Jackson".toList, none⟩ none false false),
    .queue (.proceed 0), .queue (.claim []), .queue (.fetch 0 ["wikipedia".toList]),
    .fetched 0 "wikipedia".toList (.ok [thrillerPage .song none]),
    .upload 0 "wikipedia".toList 0, .store (.proceed 0 0) [], .store (.proceed 0 0) [],
    .store (.proceed 0 0) [], .store (.proceed 0 0) [], .store (.proceed 0 0) [],
    .store (.proceed 0 0) [], .finish 0 []]

/-- The history and the state after it. -/
def storedSongRun : List (IngestEvent Nat) × Ingest Nat :=
  (ingest asciiTables thrillerHash wordEmbedder).exec ([], Ingest.empty) storedSong

theorem ingest_refines_storedSong :
    (queue asciiTables).Run (storedSongRun.1.filterMap IngestEvent.queueEvent)
        storedSongRun.2.queue ∧
      (store asciiTables thrillerHash wordEmbedder).Run
        (storedSongRun.1.filterMap IngestEvent.storeEvent) storedSongRun.2.store :=
  ingest_refines ((Machine.run_exec storedSong).mono fun _ _ _ _ _ _ => trivial)

theorem ingest_told_storedSong :
    ∃ row ∈ storedSongRun.2.queue.rows, ∃ outcome clock,
      Told thrillerHash storedSongRun.1.tail 0 "wikipedia".toList outcome ∧
        StrMap.lookup "wikipedia".toList row.entries = some (stamp clock outcome) :=
  ⟨_, List.mem_cons_self, ingest_told (Machine.run_exec storedSong)
    (show storedSongRun.1 = [] ++ .finished 0 ["wikipedia".toList]
      (.finished 0 1 ["wikipedia".toList] (some _)) :: storedSongRun.1.tail from rfl) (by decide)⟩

end AnyPlayerSync.Passages
