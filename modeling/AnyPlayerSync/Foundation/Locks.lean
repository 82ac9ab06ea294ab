import AnyPlayerSync.Foundation.Machine
import Mathlib.Data.List.Basic
import Mathlib.Logic.Function.Basic

/-!
# Schemas created under advisory locks

Any number of sessions, each with its own program of DDL statements, run interleaved on one
database. `CREATE ... IF NOT EXISTS` looks at what is committed and at what its own transaction has
created; a name that another open transaction has created is not seen, and the second creation
collides. A statement may fail at any time, which takes its transaction and its locks back, and the
answer of a commit may be lost.

A program is disciplined when it creates every name under the lock of that name and asks for a lock
only while it holds none (`Locked`), and when it names only what it has created or found before
(`Closed`). Sessions with disciplined programs never collide and miss nothing (`run_disciplined`,
`run_no_error`), what a program has created is there when it ends (`Disciplined.made`), and while
one of them has not ended, some session can go on (`Disciplined.exists_enabled`).
-/

set_option autoImplicit false

namespace AnyPlayerSync.Foundation.Locks

universe u v w

/-! ## Programs -/

/-- `CREATE ... IF NOT EXISTS`, with the names that it refers to. -/
structure Create (N : Type w) where
  name : N
  needs : List N

/-- The statements of a program: transactions that lock, create and use, and what stands alone. -/
inductive Statement (K : Type v) (N : Type w) where
  | start
  | lock (key : K)
  | create (c : Create N)
  /-- A statement on the tables. -/
  | use (needs : List N)
  | commit
  /-- A creation on its own, whose error is ignored. -/
  | attempt (name : N)
  /-- The program goes on only when the name is there. -/
  | require (name : N)

/-- The names that a program creates. -/
def created {K : Type v} {N : Type w} (p : List (Statement K N)) : List N :=
  p.filterMap fun
    | .create c => some c.name
    | _ => none

/-- The statements that a session has left, or how it ended. -/
inductive Progress (K : Type v) (N : Type w) where
  | running (todo : List (Statement K N))
  | stopped
  | failed

/-- `fresh` are the names that open transactions have created, each with its session. -/
structure State (ι : Type u) (K : Type v) (N : Type w) where
  catalog : List N
  fresh : List (ι × N)
  locks : List (K × ι)
  sessions : ι → Progress K N

variable {ι : Type u} {K : Type v} {N : Type w}

/-- What a session sees. -/
def State.Visible (s : State ι K N) (i : ι) (n : N) : Prop := n ∈ s.catalog ∨ (i, n) ∈ s.fresh

instance [DecidableEq ι] [DecidableEq N] (s : State ι K N) (i : ι) (n : N) :
    Decidable (s.Visible i n) :=
  inferInstanceAs (Decidable (_ ∨ _))

/-! ## Discipline -/

/-- Every name is created under its lock, and no lock is asked for under another. `held` is the lock
that the program holds. -/
inductive Locked (keyOf : N → K) : Option K → List (Statement K N) → Prop
  | nil : Locked keyOf none []
  | start {p : List (Statement K N)} (rest : Locked keyOf none p) :
      Locked keyOf none (.start :: p)
  | lock {key : K} {p : List (Statement K N)} (rest : Locked keyOf (some key) p) :
      Locked keyOf none (.lock key :: p)
  | create {key : K} {c : Create N} {p : List (Statement K N)} (own : keyOf c.name = key)
      (rest : Locked keyOf (some key) p) : Locked keyOf (some key) (.create c :: p)
  | use {held : Option K} {needs : List N} {p : List (Statement K N)}
      (rest : Locked keyOf held p) : Locked keyOf held (.use needs :: p)
  | commit {held : Option K} {p : List (Statement K N)} (rest : Locked keyOf none p) :
      Locked keyOf held (.commit :: p)
  | attempt {name : N} {p : List (Statement K N)} (rest : Locked keyOf none p) :
      Locked keyOf none (.attempt name :: p)
  | require {name : N} {p : List (Statement K N)} (rest : Locked keyOf none p) :
      Locked keyOf none (.require name :: p)

/-- The program names only what is there, what it has created or what it has required. -/
def Closed : (N → Prop) → List (Statement K N) → Prop
  | _, [] => True
  | there, .create c :: p => (∀ n ∈ c.needs, there n) ∧ Closed (fun n => n = c.name ∨ there n) p
  | there, .use needs :: p => (∀ n ∈ needs, there n) ∧ Closed there p
  | there, .require name :: p => Closed (fun n => n = name ∨ there n) p
  | there, _ :: p => Closed there p

theorem Closed.mono {there there' : N → Prop} {p : List (Statement K N)} (h : Closed there p)
    (hle : ∀ n, there n → there' n) : Closed there' p := by
  induction p generalizing there there' with
  | nil => trivial
  | cons statement p ih =>
      cases statement with
      | create c =>
          exact ⟨fun n hn => hle n (h.1 n hn), ih h.2 fun n hn => hn.imp_right (hle n)⟩
      | use needs => exact ⟨fun n hn => hle n (h.1 n hn), ih h.2 hle⟩
      | require name => exact ih h fun n hn => hn.imp_right (hle n)
      | start | lock | commit | attempt => exact ih h hle

/-! ## What a session can rely on -/

/-- A session that holds `held` and has run `ran` of its program, before `todo`. -/
structure Before (program : List (Statement K N)) (keyOf : N → K) (s : State ι K N) (i : ι)
    (held : Option K) (ran todo : List (Statement K N)) : Prop where
  split : program = ran ++ todo
  locked : Locked keyOf held todo
  locks : ∀ key, (key, i) ∈ s.locks ↔ held = some key
  fresh : ∀ n, (i, n) ∈ s.fresh → held = some (keyOf n)
  closed : Closed (s.Visible i) todo
  made : ∀ n ∈ created ran, s.Visible i n

/-- A session is before some statement of its program, or out of the way. -/
inductive Sound (program : List (Statement K N)) (keyOf : N → K) (s : State ι K N) (i : ι) :
    Progress K N → Prop
  | running {held : Option K} {ran todo : List (Statement K N)}
      (before : Before program keyOf s i held ran todo) : Sound program keyOf s i (.running todo)
  | stopped {name : N} {ran todo : List (Statement K N)}
      (split : program = ran ++ .require name :: todo) (locks : ∀ key, (key, i) ∉ s.locks)
      (fresh : ∀ n, (i, n) ∉ s.fresh) (made : ∀ n ∈ created ran, n ∈ s.catalog) :
      Sound program keyOf s i .stopped
  | failed (locks : ∀ key, (key, i) ∉ s.locks) (fresh : ∀ n, (i, n) ∉ s.fresh) :
      Sound program keyOf s i .failed

/-- The invariant: every session is sound and no lock is held twice. -/
structure Disciplined (programs : ι → List (Statement K N)) (keyOf : N → K) (s : State ι K N) :
    Prop where
  sound : ∀ i, Sound (programs i) keyOf s i (s.sessions i)
  exclusive : ∀ key i j, (key, i) ∈ s.locks → (key, j) ∈ s.locks → i = j

/-- A step of a session, as the others see it. -/
structure Frame (i : ι) (s s' : State ι K N) : Prop where
  sessions : ∀ j, j ≠ i → s'.sessions j = s.sessions j
  locks : ∀ key j, j ≠ i → ((key, j) ∈ s'.locks ↔ (key, j) ∈ s.locks)
  fresh : ∀ n j, j ≠ i → ((j, n) ∈ s'.fresh ↔ (j, n) ∈ s.fresh)
  catalog : ∀ n ∈ s.catalog, n ∈ s'.catalog

section Sound

variable {programs : ι → List (Statement K N)} {keyOf : N → K} {s s' s'' : State ι K N} {i j : ι}

theorem Frame.trans (h : Frame i s s') (h' : Frame i s' s'') : Frame i s s'' where
  sessions j hj := (h'.sessions j hj).trans (h.sessions j hj)
  locks key j hj := (h'.locks key j hj).trans (h.locks key j hj)
  fresh n j hj := (h'.fresh n j hj).trans (h.fresh n j hj)
  catalog n hn := h'.catalog n (h.catalog n hn)

theorem Frame.visible (hf : Frame i s s') (hj : j ≠ i) {n : N} (h : s.Visible j n) :
    s'.Visible j n :=
  h.imp (hf.catalog n) (hf.fresh n j hj).2

/-- The other sessions stay sound. -/
theorem Frame.sound (hf : Frame i s s') (hj : j ≠ i) {program : List (Statement K N)}
    {p : Progress K N} (h : Sound program keyOf s j p) : Sound program keyOf s' j p := by
  cases h with
  | running hb =>
      exact .running
        { split := hb.split
          locked := hb.locked
          locks := fun key => (hf.locks key j hj).trans (hb.locks key)
          fresh := fun n hn => hb.fresh n ((hf.fresh n j hj).1 hn)
          closed := hb.closed.mono fun n => hf.visible hj
          made := fun c hc => hf.visible hj (hb.made c hc) }
  | stopped split locks fresh made =>
      exact .stopped split (fun key h => locks key ((hf.locks key j hj).1 h))
        (fun n h => fresh n ((hf.fresh n j hj).1 h)) fun c hc => hf.catalog _ (made c hc)
  | failed locks fresh =>
      exact .failed (fun key h => locks key ((hf.locks key j hj).1 h))
        fun n h => fresh n ((hf.fresh n j hj).1 h)

/-- What an open transaction has created is under the lock that it holds. -/
theorem Disciplined.locked_of_fresh (hd : Disciplined programs keyOf s) {n : N}
    (h : (j, n) ∈ s.fresh) : (keyOf n, j) ∈ s.locks := by
  have hsound := hd.sound j
  generalize s.sessions j = p at hsound
  cases hsound with
  | running hb => exact (hb.locks _).2 (hb.fresh n h)
  | stopped split locks fresh made => exact absurd h (fresh n)
  | failed locks fresh => exact absurd h (fresh n)

/-- A step that leaves its session sound, and its locks its own, keeps the invariant. -/
theorem Disciplined.of_frame (hd : Disciplined programs keyOf s) (hf : Frame i s s')
    (hsound : Sound (programs i) keyOf s' i (s'.sessions i))
    (hown : ∀ key j, (key, i) ∈ s'.locks → (key, j) ∈ s'.locks → j = i) :
    Disciplined programs keyOf s' where
  sound j := by
    by_cases hj : j = i
    · exact hj ▸ hsound
    · rw [hf.sessions j hj]
      exact hf.sound hj (hd.sound j)
  exclusive key j j' hlock hlock' := by
    by_cases hj : j = i
    · subst hj
      exact (hown key j' hlock hlock').symm
    · by_cases hj' : j' = i
      · subst hj'
        exact hown key j hlock' hlock
      · exact hd.exclusive key j j' ((hf.locks key j hj).1 hlock) ((hf.locks key j' hj').1 hlock')

/-- What a program has created is there when it ends. -/
theorem Disciplined.made (hd : Disciplined programs keyOf s) (h : s.sessions i = .running []) :
    ∀ n ∈ created (programs i), n ∈ s.catalog := by
  intro n hn
  have hsound := hd.sound i
  rw [h] at hsound
  cases hsound with
  | running hb =>
      obtain ⟨split, locked, -, fresh, -, made⟩ := hb
      cases locked
      rw [List.append_nil] at split
      -- no lock is held, so nothing is uncommitted
      rcases made n (split ▸ hn) with hthere | hfresh
      · exact hthere
      · cases fresh _ hfresh

/-- A program that stopped has made what stands before some `require`. -/
theorem Disciplined.made_before (hd : Disciplined programs keyOf s)
    (h : s.sessions i = .stopped) : ∃ ran name todo, programs i = ran ++ .require name :: todo ∧
      ∀ n ∈ created ran, n ∈ s.catalog := by
  have hsound := hd.sound i
  rw [h] at hsound
  cases hsound with
  | stopped split locks fresh made => exact ⟨_, _, _, split, made⟩

end Sound

/-! ## The machine -/

/-- A scheduling choice: who runs next, and how that ends. -/
inductive Action (ι : Type u) where
  | proceed (i : ι) (succeeds : Bool)
  | fail (i : ι)
  /-- The answer of a commit is lost. -/
  | lose (i : ι)

/-- What a step tells. -/
inductive Event (ι : Type u) (N : Type w) where
  | ran (i : ι)
  | collided (i : ι) (name : N)
  | missing (i : ι)
  | stopped (i : ι)
  | failed (i : ι)

/-- The errors that no statement should meet. -/
def Event.IsError : Event ι N → Prop
  | .collided _ _ => True
  | .missing _ => True
  | _ => False

section Sessions

variable [DecidableEq ι]

/-- The session is elsewhere. -/
def State.set (s : State ι K N) (i : ι) (p : Progress K N) : State ι K N :=
  { s with sessions := Function.update s.sessions i p }

/-- The end of a transaction. -/
def State.release (s : State ι K N) (i : ι) : State ι K N :=
  { s with
    fresh := s.fresh.filter fun p => p.1 ≠ i
    locks := s.locks.filter fun p => p.2 ≠ i }

/-- The session ends, its locks are free and its objects are visible. -/
def State.commit (s : State ι K N) (i : ι) : State ι K N :=
  { s.release i with catalog := (s.fresh.filter fun p => p.1 = i).map Prod.snd ++ s.catalog }

/-- The session ends without its objects, and its locks are free. -/
def State.abort (s : State ι K N) (i : ι) : State ι K N := (s.release i).set i .failed

/-- The session holds the lock. -/
def State.take (s : State ι K N) (key : K) (i : ι) : State ι K N :=
  { s with locks := (key, i) :: s.locks }

/-- The session has created the object, uncommitted. -/
def State.add (s : State ι K N) (i : ι) (n : N) : State ι K N :=
  { s with fresh := (i, n) :: s.fresh }

/-- The object is there without a transaction. -/
def State.grow (s : State ι K N) (n : N) : State ι K N := { s with catalog := n :: s.catalog }

variable (s : State ι K N) (i : ι)

@[simp] theorem set_sessions_self (p : Progress K N) : (s.set i p).sessions i = p :=
  Function.update_self ..

@[simp] theorem not_mem_release_locks (key : K) : (key, i) ∉ (s.release i).locks := by
  simp [State.release]

@[simp] theorem not_mem_release_fresh (n : N) : (i, n) ∉ (s.release i).fresh := by
  simp [State.release]

/-- A commit makes what the session sees the catalog. -/
theorem mem_commit_catalog (n : N) : n ∈ (s.commit i).catalog ↔ s.Visible i n := by
  simp [State.commit, State.Visible, or_comm]

theorem frame_set (p : Progress K N) : Frame i s (s.set i p) where
  sessions _ hj := Function.update_of_ne hj ..
  locks _ _ _ := Iff.rfl
  fresh _ _ _ := Iff.rfl
  catalog _ hn := hn

theorem frame_release : Frame i s (s.release i) where
  sessions _ _ := rfl
  locks key j hj := by simp [State.release, hj]
  fresh n j hj := by simp [State.release, hj]
  catalog _ hn := hn

theorem frame_commit : Frame i s (s.commit i) where
  sessions _ _ := rfl
  locks := (frame_release s i).locks
  fresh := (frame_release s i).fresh
  catalog _ hn := List.mem_append_right _ hn

theorem frame_abort : Frame i s (s.abort i) := (frame_release s i).trans (frame_set _ i _)

omit [DecidableEq ι] in
theorem frame_take (key : K) : Frame i s (s.take key i) where
  sessions _ _ := rfl
  locks key' j hj := by simp [State.take, hj]
  fresh _ _ _ := Iff.rfl
  catalog _ hn := hn

omit [DecidableEq ι] in
theorem frame_add (n : N) : Frame i s (s.add i n) where
  sessions _ _ := rfl
  locks _ _ _ := Iff.rfl
  fresh n' j hj := by simp [State.add, hj]
  catalog _ hn := hn

omit [DecidableEq ι] in
theorem frame_grow (n : N) : Frame i s (s.grow n) where
  sessions _ _ := rfl
  locks _ _ _ := Iff.rfl
  fresh _ _ _ := Iff.rfl
  catalog _ hn := List.mem_cons_of_mem n hn

end Sessions

section Step

variable [DecidableEq ι] [DecidableEq K] [DecidableEq N]

/-- The next statement of a session, and the statements after it. -/
def execute (s : State ι K N) (i : ι) (succeeds : Bool) (rest : List (Statement K N)) :
    Statement K N → Option (State ι K N × Event ι N)
  | .start => some (s.set i (.running rest), .ran i)
  | .lock key =>
      if s.locks.any fun p => p.1 = key ∧ p.2 ≠ i then none
      else some ((s.take key i).set i (.running rest), .ran i)
  | .create c =>
      if s.Visible i c.name then some (s.set i (.running rest), .ran i)
      else if ∀ n ∈ c.needs, s.Visible i n then
        -- another transaction has created the name
        if s.fresh.any fun p => p.2 = c.name then some (s.abort i, .collided i c.name)
        else some ((s.add i c.name).set i (.running rest), .ran i)
      else some (s.abort i, .missing i)
  | .use needs =>
      if ∀ n ∈ needs, s.Visible i n then some (s.set i (.running rest), .ran i)
      else some (s.abort i, .missing i)
  | .commit => some ((s.commit i).set i (.running rest), .ran i)
  | .attempt name =>
      some ((if succeeds then s.grow name else s).set i (.running rest), .ran i)
  | .require name =>
      if name ∈ s.catalog then some (s.set i (.running rest), .ran i)
      else some (s.set i .stopped, .stopped i)

/-- One statement of one session. -/
def step (s : State ι K N) : Action ι → Option (State ι K N × Event ι N)
  | .proceed i succeeds =>
      match s.sessions i with
      | .running (statement :: rest) => execute s i succeeds rest statement
      | _ => none
  | .fail i =>
      match s.sessions i with
      | .running (_ :: _) => some (s.abort i, .failed i)
      | _ => none
  | .lose i =>
      match s.sessions i with
      | .running (.commit :: _) => some ((s.commit i).set i .failed, .failed i)
      | _ => none

/-- The sessions with their programs, on a database with some names. -/
def sessions (programs : ι → List (Statement K N)) (catalog : List N) :
    Machine (State ι K N) (Action ι) (Event ι N) where
  init := ⟨catalog, [], [], fun i => .running (programs i)⟩
  step := step

/-! ## What a step keeps -/

variable {programs : ι → List (Statement K N)} {keyOf : N → K} {s s' : State ι K N} {i : ι}
  {e : Event ι N}

omit [DecidableEq K] [DecidableEq N] in
/-- A session that fails is out of the way. -/
theorem Disciplined.abort (hd : Disciplined programs keyOf s) (i : ι) :
    Disciplined programs keyOf (s.abort i) := by
  refine hd.of_frame (frame_abort s i) ?_ fun key j hlock _ => ?_
  · rw [State.abort, set_sessions_self]
    exact .failed (not_mem_release_locks s i) (not_mem_release_fresh s i)
  · exact absurd hlock (not_mem_release_locks s i key)

section Statements

variable {held : Option K} {ran rest : List (Statement K N)} {statement : Statement K N}

omit [DecidableEq ι] [DecidableEq K] [DecidableEq N] in
theorem frame_refl (s : State ι K N) (i : ι) : Frame i s s where
  sessions _ _ := rfl
  locks _ _ _ := Iff.rfl
  fresh _ _ _ := Iff.rfl
  catalog _ hn := hn

omit [DecidableEq ι] [DecidableEq K] [DecidableEq N] in
theorem Disciplined.own (hd : Disciplined programs keyOf s) (key : K) (j : ι)
    (h : (key, i) ∈ s.locks) (h' : (key, j) ∈ s.locks) : j = i :=
  (hd.exclusive key i j h h').symm

omit [DecidableEq K] [DecidableEq N] in
/-- A session that has run one statement more. -/
theorem Disciplined.advance (hd : Disciplined programs keyOf s) {t : State ι K N}
    (hf : Frame i s t) (hb : Before (programs i) keyOf t i held (ran ++ [statement]) rest)
    (hown : ∀ key j, (key, i) ∈ t.locks → (key, j) ∈ t.locks → j = i) :
    Disciplined programs keyOf (t.set i (.running rest)) := by
  refine hd.of_frame (hf.trans (frame_set t i _)) ?_ hown
  rw [set_sessions_self]
  exact .running { hb with }

omit [DecidableEq ι] [DecidableEq K] [DecidableEq N] in
/-- One statement more is run, after which the session sees what it created. -/
theorem Before.next {program : List (Statement K N)} {t : State ι K N} {held' : Option K}
    (hb : Before program keyOf s i held ran (statement :: rest)) (locked : Locked keyOf held' rest)
    (locks : ∀ key, (key, i) ∈ t.locks ↔ held' = some key)
    (fresh : ∀ n, (i, n) ∈ t.fresh → held' = some (keyOf n)) (closed : Closed (t.Visible i) rest)
    (kept : ∀ n, s.Visible i n → t.Visible i n)
    (hnew : ∀ n ∈ created [statement], t.Visible i n) :
    Before program keyOf t i held' (ran ++ [statement]) rest where
  split := by rw [hb.split, List.append_assoc, List.singleton_append]
  locked := locked
  locks := locks
  fresh := fresh
  closed := closed
  made n hn := by
    rw [created, List.filterMap_append] at hn
    exact (List.mem_append.1 hn).elim (fun hn => kept n (hb.made n hn)) (hnew n)

omit [DecidableEq K] [DecidableEq N] in
/-- A statement that finds what it wants and changes nothing. -/
theorem Disciplined.pass (hd : Disciplined programs keyOf s)
    (hb : Before (programs i) keyOf s i held ran (statement :: rest))
    (locked : Locked keyOf held rest) (closed : Closed (s.Visible i) rest)
    (hnew : ∀ n ∈ created [statement], s.Visible i n) :
    Disciplined programs keyOf (s.set i (.running rest)) :=
  hd.advance (frame_refl s i) (hb.next locked hb.locks hb.fresh closed (fun _ hn => hn) hnew) hd.own

omit [DecidableEq K] [DecidableEq N] in
/-- A session takes a lock that no other session holds. -/
theorem Disciplined.lock (hd : Disciplined programs keyOf s) {key : K}
    (hb : Before (programs i) keyOf s i none ran (.lock key :: rest))
    (locked : Locked keyOf (some key) rest) (hfree : ∀ j, (key, j) ∈ s.locks → j = i) :
    Disciplined programs keyOf ((s.take key i).set i (.running rest)) := by
  refine hd.advance (frame_take s i key) (hb.next locked (fun key' => ?_)
    (fun n hn => by cases hb.fresh n hn) hb.closed (fun _ hn => hn)
    fun _ hn => absurd hn List.not_mem_nil) ?_
  · simp [State.take, hb.locks, eq_comm]
  · intro key' j hlock hlock'
    rcases List.mem_cons.1 hlock' with hnew | hold
    · exact congrArg Prod.snd hnew
    · rcases List.mem_cons.1 hlock with hnew | hlock
      · obtain ⟨rfl, -⟩ := Prod.mk.inj hnew
        exact hfree j hold
      · exact hd.own key' j hlock hold

omit [DecidableEq K] [DecidableEq N] in
/-- A session creates a name under its lock. -/
theorem Disciplined.create (hd : Disciplined programs keyOf s) {c : Create N}
    (hb : Before (programs i) keyOf s i (some (keyOf c.name)) ran (.create c :: rest))
    (locked : Locked keyOf (some (keyOf c.name)) rest) :
    Disciplined programs keyOf ((s.add i c.name).set i (.running rest)) := by
  have kept : ∀ n, s.Visible i n → (s.add i c.name).Visible i n :=
    fun n hn => hn.imp_right (List.mem_cons_of_mem _)
  have hnew : (s.add i c.name).Visible i c.name := Or.inr List.mem_cons_self
  refine hd.advance (frame_add s i c.name) (hb.next locked hb.locks (fun n hn => ?_)
    (hb.closed.2.mono fun n hn => ?_) kept fun n hn => ?_) hd.own
  · rcases List.mem_cons.1 hn with hnew | hold
    · rw [(Prod.mk.inj hnew).2]
    · exact hb.fresh n hold
  · rcases hn with rfl | hn
    · exact hnew
    · exact kept n hn
  · rw [List.mem_singleton.1 hn]
    exact hnew

omit [DecidableEq ι] [DecidableEq K] [DecidableEq N] in
/-- Whoever has created a name holds its lock, so under that lock there is nobody else to. -/
theorem Disciplined.not_collides (hd : Disciplined programs keyOf s) {n : N}
    (hlock : (keyOf n, i) ∈ s.locks) (hunseen : ¬ s.Visible i n) : ∀ j, (j, n) ∉ s.fresh := by
  intro j hj
  have hsame := hd.exclusive _ j i (hd.locked_of_fresh hj) hlock
  exact hunseen (Or.inr (hsame ▸ hj))

omit [DecidableEq K] [DecidableEq N] in
/-- A commit gives up the locks and shows everybody what the session has seen. -/
theorem Disciplined.commit (hd : Disciplined programs keyOf s)
    (hb : Before (programs i) keyOf s i held ran (.commit :: rest))
    (locked : Locked keyOf none rest) :
    Disciplined programs keyOf ((s.commit i).set i (.running rest)) := by
  have kept : ∀ n, s.Visible i n → (s.commit i).Visible i n :=
    fun n hn => Or.inl ((mem_commit_catalog s i n).2 hn)
  refine hd.advance (frame_commit s i) (hb.next locked (fun key => ?_)
    (fun n hn => absurd hn (not_mem_release_fresh s i n)) (hb.closed.mono kept) kept
    fun _ hn => absurd hn List.not_mem_nil) ?_
  · exact iff_of_false (not_mem_release_locks s i key) (by simp)
  · exact fun key j h => absurd h (not_mem_release_locks s i key)

omit [DecidableEq K] [DecidableEq N] in
/-- A name that comes outside a transaction. -/
theorem Disciplined.grow (hd : Disciplined programs keyOf s) {name : N}
    (hb : Before (programs i) keyOf s i held ran (.attempt name :: rest))
    (locked : Locked keyOf held rest) :
    Disciplined programs keyOf ((s.grow name).set i (.running rest)) := by
  have kept : ∀ n, s.Visible i n → (s.grow name).Visible i n :=
    fun n hn => hn.imp_left (List.mem_cons_of_mem name)
  exact hd.advance (frame_grow s i name) (hb.next locked hb.locks hb.fresh (hb.closed.mono kept) kept
    fun _ hn => absurd hn List.not_mem_nil) hd.own

omit [DecidableEq K] [DecidableEq N] in
/-- A session that does not find what it requires stops, and holds nothing. -/
theorem Disciplined.stop (hd : Disciplined programs keyOf s) {name : N}
    (hb : Before (programs i) keyOf s i none ran (.require name :: rest)) :
    Disciplined programs keyOf (s.set i .stopped) := by
  have hfresh : ∀ n, (i, n) ∉ s.fresh := fun n hn => by cases hb.fresh n hn
  refine hd.of_frame (frame_set s i _) ?_ hd.own
  rw [set_sessions_self]
  refine .stopped hb.split (fun key h => by cases (hb.locks key).1 h) hfresh fun n hn => ?_
  exact (hb.made n hn).resolve_right (hfresh n)

end Statements

/-- **One statement** of a disciplined program: no error, and the invariant is kept. -/
theorem Disciplined.execute (hd : Disciplined programs keyOf s) {statement : Statement K N}
    {rest : List (Statement K N)} (hsession : s.sessions i = .running (statement :: rest))
    {succeeds : Bool} (he : execute s i succeeds rest statement = some (s', e)) :
    Disciplined programs keyOf s' ∧ ¬ e.IsError := by
  have hsound := hd.sound i
  rw [hsession] at hsound
  have hnone {n : N} : n ∉ ([] : List N) := List.not_mem_nil
  cases hsound with
  | running hb =>
      cases hb.locked with
      | start locked =>
          cases he
          exact ⟨hd.pass hb locked hb.closed fun _ hn => absurd hn hnone, id⟩
      | lock locked =>
          simp only [Locks.execute] at he
          split_ifs at he with hheld
          cases he
          refine ⟨hd.lock hb locked fun j hj => ?_, id⟩
          by_contra hji
          exact hheld (List.any_eq_true.2 ⟨_, hj, decide_eq_true ⟨rfl, hji⟩⟩)
      | @create key c _ own locked =>
          subst own
          simp only [Locks.execute, if_pos hb.closed.1] at he
          split_ifs at he with hvisible hcollides
          · cases he
            refine ⟨hd.pass hb locked (hb.closed.2.mono ?_) ?_, id⟩
            · rintro n (rfl | hn)
              · exact hvisible
              · exact hn
            · intro n hn
              rw [List.mem_singleton.1 hn]
              exact hvisible
          · obtain ⟨⟨j, n⟩, hj, hn⟩ := List.any_eq_true.1 hcollides
            obtain rfl : n = c.name := of_decide_eq_true hn
            exact absurd hj (hd.not_collides ((hb.locks _).2 rfl) hvisible j)
          · cases he
            exact ⟨hd.create hb locked, id⟩
      | use locked =>
          simp only [Locks.execute, if_pos hb.closed.1] at he
          cases he
          exact ⟨hd.pass hb locked hb.closed.2 fun _ hn => absurd hn hnone, id⟩
      | commit locked =>
          cases he
          exact ⟨hd.commit hb locked, id⟩
      | attempt locked =>
          cases he
          cases succeeds with
          | false => exact ⟨hd.pass hb locked hb.closed fun _ hn => absurd hn hnone, id⟩
          | true => exact ⟨hd.grow hb locked, id⟩
      | @require name _ locked =>
          simp only [Locks.execute] at he
          split_ifs at he with hthere
          · cases he
            have hclosed : Closed (fun n => n = name ∨ s.Visible i n) rest := hb.closed
            refine ⟨hd.pass hb locked (hclosed.mono ?_) fun _ hn => absurd hn hnone, id⟩
            rintro n (rfl | hn)
            · exact Or.inl hthere
            · exact hn
          · cases he
            exact ⟨hd.stop hb, id⟩

/-- **One step** of any session. -/
theorem Disciplined.step (hd : Disciplined programs keyOf s) {a : Action ι}
    (hs : step s a = some (s', e)) : Disciplined programs keyOf s' ∧ ¬ e.IsError := by
  cases a with
  | proceed i succeeds =>
      simp only [Locks.step] at hs
      split at hs
      · rename_i hsession
        exact hd.execute hsession hs
      · cases hs
  | fail i =>
      simp only [Locks.step] at hs
      split at hs
      · cases hs
        exact ⟨hd.abort i, id⟩
      · cases hs
  | lose i =>
      simp only [Locks.step] at hs
      split at hs
      · cases hs
        refine ⟨hd.of_frame ((frame_commit s i).trans (frame_set _ i _)) ?_ ?_, id⟩
        · rw [set_sessions_self]
          exact .failed (not_mem_release_locks s i) (not_mem_release_fresh s i)
        · exact fun key j h => absurd h (not_mem_release_locks s i key)
      · cases hs

/-- **Every run** of disciplined programs keeps the invariant. -/
theorem run_disciplined {catalog : List N} {h : List (Event ι N)}
    (hlocked : ∀ i, Locked keyOf none (programs i))
    (hclosed : ∀ i, Closed (fun n => n ∈ catalog) (programs i))
    (hr : (sessions programs catalog).Run h s) : Disciplined programs keyOf s := by
  refine hr.invariant (I := fun _ s => Disciplined programs keyOf s) ?_ ?_
  · refine ⟨fun i => .running ⟨(List.nil_append _).symm, hlocked i, ?_, ?_, ?_, ?_⟩, ?_⟩
    · exact fun key => iff_of_false List.not_mem_nil (by simp)
    · exact fun n hn => absurd hn List.not_mem_nil
    · exact (hclosed i).mono fun n => Or.inl
    · exact fun n hn => absurd hn List.not_mem_nil
    · exact fun key i j hi => absurd hi List.not_mem_nil
  · exact fun _ _ _ _ _ _ hd hs _ => (hd.step hs).1

/-- No statement of a disciplined program collides or misses anything. -/
theorem run_no_error {catalog : List N} {h : List (Event ι N)}
    (hlocked : ∀ i, Locked keyOf none (programs i))
    (hclosed : ∀ i, Closed (fun n => n ∈ catalog) (programs i))
    (hr : (sessions programs catalog).Run h s) : ∀ e ∈ h, ¬ e.IsError :=
  hr.forall_events fun _ _ _ _ _ hr hs _ => ((run_disciplined hlocked hclosed hr).step hs).2

/-! ## Somebody can go on -/

/-- Every statement but a lock that another session holds can be run. -/
theorem execute_enabled {statement : Statement K N} {rest : List (Statement K N)}
    (h : ∀ key j, statement = .lock key → (key, j) ∈ s.locks → j = i) :
    (execute s i true rest statement).isSome = true := by
  cases statement with
  | lock key =>
      have hfree : ¬ (s.locks.any fun p => p.1 = key ∧ p.2 ≠ i) = true := by
        intro hany
        obtain ⟨⟨key', j⟩, hmem, hp⟩ := List.any_eq_true.1 hany
        obtain ⟨rfl, hne⟩ : key' = key ∧ j ≠ i := of_decide_eq_true hp
        exact hne (h key' j rfl hmem)
      rw [execute, if_neg hfree]
      rfl
  | create c =>
      rw [execute]
      split_ifs <;> rfl
  | use needs =>
      rw [execute]
      split_ifs <;> rfl
  | require name =>
      rw [execute]
      split_ifs <;> rfl
  | start | commit | attempt => rfl

/-- While a session has statements left, some session can run its next one: this one, or the one
that holds the lock it waits for. -/
theorem Disciplined.exists_enabled (hd : Disciplined programs keyOf s)
    {statement : Statement K N} {rest : List (Statement K N)}
    (h : s.sessions i = .running (statement :: rest)) :
    ∃ j, (Locks.step s (.proceed j true)).isSome = true := by
  by_cases hfree : ∀ key j, statement = .lock key → (key, j) ∈ s.locks → j = i
  · refine ⟨i, ?_⟩
    simp only [Locks.step, h]
    exact execute_enabled hfree
  · push Not at hfree
    obtain ⟨key, j, -, hlock, -⟩ := hfree
    refine ⟨j, ?_⟩
    -- the holder is inside its transaction, where it asks for no lock
    have hsound := hd.sound j
    cases hp : s.sessions j with
    | running todo =>
        rw [hp] at hsound
        cases hsound with
        | running hb =>
            have locked := hb.locked
            rw [(hb.locks key).1 hlock] at locked
            simp only [Locks.step, hp]
            cases locked <;> exact execute_enabled fun _ _ h => by cases h
    | stopped =>
        rw [hp] at hsound
        cases hsound with
        | stopped split locks fresh made => exact absurd hlock (locks key)
    | failed =>
        rw [hp] at hsound
        cases hsound with
        | failed locks fresh => exact absurd hlock (locks key)

end Step

end AnyPlayerSync.Foundation.Locks
