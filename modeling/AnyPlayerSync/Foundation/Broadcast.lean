import Mathlib.Data.List.Basic
import Mathlib.Tactic.Common

/-!
# Bounded broadcast

A receiver of a bounded broadcast channel reads a log of the values sent since it subscribed, of
which only the last `capacity` are retained. It holds a position in the log. When the value at its
position is gone, the next read reports how many values it missed and moves the receiver to the
oldest value that is retained.

`Reading` is what a receiver has done with the log up to its position: it took the values at some
positions, in order, and was overrun at all the others. A receiver that has read to the end of the
log has taken its last value, when an overrun position lies `capacity` values back
(`Reading.getLast?_eq`).
-/

set_option autoImplicit false

namespace AnyPlayerSync.Foundation.Broadcast

universe u

variable {α : Type u}

/-- What a read answers. -/
inductive Received (α : Type u) where
  | value (v : α)
  | lagged (missed : Nat)
  | empty
  deriving DecidableEq

/-- The position of the oldest value that is retained. -/
def oldest (capacity : Nat) (log : List α) : Nat := log.length - capacity

/-- One read at a position, and the position after it. -/
def recv (capacity : Nat) (log : List α) (next : Nat) : Received α × Nat :=
  if next < oldest capacity log then
    (.lagged (oldest capacity log - next), oldest capacity log)
  else
    match log[next]? with
    | some v => (.value v, next + 1)
    | none => (.empty, next)

section Recv

variable {capacity : Nat} {log : List α} {next after : Nat}

/-- The value is gone, it is there, or it is still to come. -/
theorem recv_cases (capacity : Nat) (log : List α) (next : Nat) :
    (next < oldest capacity log ∧ recv capacity log next =
        (.lagged (oldest capacity log - next), oldest capacity log)) ∨
      (∃ v, log[next]? = some v ∧ recv capacity log next = (.value v, next + 1)) ∨
        (log[next]? = none ∧ recv capacity log next = (.empty, next)) := by
  rw [recv]
  split_ifs with hbehind
  · exact Or.inl ⟨hbehind, rfl⟩
  · right
    cases hv : log[next]? with
    | some v => exact Or.inl ⟨v, rfl, rfl⟩
    | none => exact Or.inr ⟨rfl, rfl⟩

/-- A value is read where the receiver stands. -/
theorem recv_value {v : α} (h : recv capacity log next = (.value v, after)) :
    next < log.length ∧ log[next]? = some v ∧ after = next + 1 := by
  rcases recv_cases capacity log next with ⟨-, hrecv⟩ | ⟨w, hw, hrecv⟩ | ⟨-, hrecv⟩
  · cases hrecv.symm.trans h
  · cases hrecv.symm.trans h
    exact ⟨(List.getElem?_eq_some_iff.1 hw).1, hw, rfl⟩
  · cases hrecv.symm.trans h

/-- A receiver lags when its value is gone, and moves to the oldest one. -/
theorem recv_lagged {missed : Nat} (h : recv capacity log next = (.lagged missed, after)) :
    next < oldest capacity log ∧ after = oldest capacity log := by
  rcases recv_cases capacity log next with ⟨hbehind, hrecv⟩ | ⟨w, -, hrecv⟩ | ⟨-, hrecv⟩
  · cases hrecv.symm.trans h
    exact ⟨hbehind, rfl⟩
  · cases hrecv.symm.trans h
  · cases hrecv.symm.trans h

/-- There is nothing to read only at the end of the log. -/
theorem length_le_of_recv_empty (h : (recv capacity log next).1 = .empty) :
    log.length ≤ next := by
  rcases recv_cases capacity log next with ⟨-, hrecv⟩ | ⟨w, -, hrecv⟩ | ⟨hnone, -⟩
  · rw [hrecv] at h
    cases h
  · rw [hrecv] at h
    cases h
  · exact List.getElem?_eq_none_iff.1 hnone

end Recv

theorem oldest_le (capacity : Nat) (log : List α) : oldest capacity log ≤ log.length :=
  Nat.sub_le _ _

/-- The values at positions of a log. -/
def valuesAt (log : List α) (ps : List Nat) : List α := ps.filterMap fun p => log[p]?

section ValuesAt

variable {log : List α} {ps : List Nat}

theorem valuesAt_append (log : List α) (ps qs : List Nat) :
    valuesAt log (ps ++ qs) = valuesAt log ps ++ valuesAt log qs := List.filterMap_append

theorem valuesAt_singleton {p : Nat} {v : α} (h : log[p]? = some v) : valuesAt log [p] = [v] := by
  rw [valuesAt, List.filterMap_cons, h]
  rfl

/-- Values that are there already are not changed by later ones. -/
theorem valuesAt_grow (h : ∀ p ∈ ps, p < log.length) (more : List α) :
    valuesAt (log ++ more) ps = valuesAt log ps := by
  apply List.filterMap_congr
  intro p hp
  exact List.getElem?_append_left (h p hp)

theorem valuesAt_eq_map (h : ∀ p ∈ ps, p < log.length) :
    (valuesAt log ps).map some = ps.map fun p => log[p]? := by
  induction ps with
  | nil => rfl
  | cons p ps ih =>
      rw [List.forall_mem_cons] at h
      have hp : log[p]? = some log[p] := List.getElem?_eq_getElem h.1
      rw [valuesAt, List.filterMap_cons, hp, List.map_cons, List.map_cons, hp]
      exact congrArg _ (ih h.2)

/-- Positions after the first value, counted from the second. -/
theorem valuesAt_cons (v : α) (log : List α) (hpos : ∀ p ∈ ps, 0 < p) :
    valuesAt (v :: log) ps = valuesAt log (ps.map Nat.pred) := by
  rw [valuesAt, valuesAt, List.filterMap_map]
  apply List.filterMap_congr
  intro p hp
  obtain ⟨n, rfl⟩ := Nat.exists_eq_succ_of_ne_zero (Nat.ne_of_gt (hpos p hp))
  rfl

theorem pairwise_pred (hsorted : ps.Pairwise (· < ·)) (hpos : ∀ p ∈ ps, 0 < p) :
    (ps.map Nat.pred).Pairwise (· < ·) := by
  rw [List.pairwise_map]
  apply hsorted.imp_of_mem
  intro a b ha hb hab
  have hapos := hpos a ha
  simp only [Nat.pred_eq_sub_one]
  omega

/-- The values at growing positions are a subsequence. -/
theorem valuesAt_sublist (hsorted : ps.Pairwise (· < ·)) : (valuesAt log ps).Sublist log := by
  induction log generalizing ps with
  | nil =>
      have hnone : valuesAt ([] : List α) ps = [] := List.filterMap_eq_nil_iff.2 fun _ _ => rfl
      rw [hnone]
  | cons v log ih =>
      cases ps with
      | nil => exact List.nil_sublist _
      | cons p ps =>
          obtain ⟨hp, hps⟩ := List.pairwise_cons.1 hsorted
          have hpos : ∀ q ∈ ps, 0 < q := fun q hq => Nat.zero_lt_of_lt (hp q hq)
          -- only the least position can be that of the first value
          cases p with
          | zero =>
              show (v :: valuesAt (v :: log) ps).Sublist (v :: log)
              rw [valuesAt_cons v log hpos]
              exact (ih (pairwise_pred hps hpos)).cons_cons v
          | succ n =>
              have hall : ∀ q ∈ (n + 1) :: ps, 0 < q :=
                List.forall_mem_cons.2 ⟨Nat.succ_pos n, hpos⟩
              rw [valuesAt_cons v log hall]
              exact (ih (pairwise_pred hsorted hall)).cons v

end ValuesAt

/-! ## Readings -/

/-- A receiver at position `next` has taken the values at the positions `taken`, and was overrun at
every other position before. -/
structure Reading (log : List α) (next : Nat) (taken : List Nat) (Overrun : Nat → Prop) : Prop where
  le : next ≤ log.length
  sorted : taken.Pairwise (· < ·)
  before : ∀ p ∈ taken, p < next
  covered : ∀ p < next, p ∈ taken ∨ Overrun p

namespace Reading

variable {log : List α} {next : Nat} {taken : List Nat} {Overrun : Nat → Prop}

theorem start (log : List α) (Overrun : Nat → Prop) : Reading log 0 [] Overrun where
  le := Nat.zero_le _
  sorted := List.Pairwise.nil
  before _ hp := nomatch hp
  covered p hp := absurd hp (Nat.not_lt_zero p)

theorem mono (h : Reading log next taken Overrun) {Overrun' : Nat → Prop}
    (hmono : ∀ p, Overrun p → Overrun' p) : Reading log next taken Overrun' :=
  { h with covered := fun p hp => (h.covered p hp).imp_right (hmono p) }

/-- Values are sent. -/
theorem grow (h : Reading log next taken Overrun) (more : List α) :
    Reading (log ++ more) next taken Overrun := by
  refine { h with le := ?_ }
  rw [List.length_append]
  exact Nat.le_trans h.le (Nat.le_add_right _ _)

/-- The value at the position is taken. -/
theorem take (h : Reading log next taken Overrun) (hnext : next < log.length) :
    Reading log (next + 1) (taken ++ [next]) Overrun where
  le := hnext
  sorted := by
    rw [List.pairwise_append]
    refine ⟨h.sorted, List.pairwise_singleton _ _, fun p hp q hq => ?_⟩
    rw [List.mem_singleton.1 hq]
    exact h.before p hp
  before p hp := by
    rcases List.mem_append.1 hp with hp | hp
    · exact Nat.lt_succ_of_lt (h.before p hp)
    · exact List.mem_singleton.1 hp ▸ Nat.lt_succ_self _
  covered p hp := by
    rcases Nat.lt_succ_iff_lt_or_eq.1 hp with hlt | rfl
    · exact (h.covered p hlt).imp_left (List.mem_append_left _)
    · exact Or.inl (List.mem_append_right _ (List.mem_singleton_self _))

/-- The receiver is moved ahead. -/
theorem lag (h : Reading log next taken Overrun) {ahead : Nat} (hle : next ≤ ahead)
    (hlog : ahead ≤ log.length) (hover : ∀ p, next ≤ p → p < ahead → Overrun p) :
    Reading log ahead taken Overrun where
  le := hlog
  sorted := h.sorted
  before p hp := Nat.lt_of_lt_of_le (h.before p hp) hle
  covered p hp := by
    rcases Nat.lt_or_ge p next with hlt | hge
    · exact h.covered p hlt
    · exact Or.inr (hover p hge hp)

theorem bounded (h : Reading log next taken Overrun) : ∀ p ∈ taken, p < log.length := fun p hp =>
  Nat.lt_of_lt_of_le (h.before p hp) h.le

/-- Having read to the end, a receiver that the last value did not overrun has taken it last. -/
theorem getLast?_eq (h : Reading log log.length taken Overrun)
    (hlast : ∀ p, p + 1 = log.length → ¬ Overrun p) :
    (valuesAt log taken).getLast? = log.getLast? := by
  rcases Nat.eq_zero_or_pos log.length with hzero | hpos
  · have hnone : taken = [] := List.eq_nil_iff_forall_not_mem.2 fun p hp =>
      absurd (h.before p hp) (by omega)
    rw [hnone, List.length_eq_zero_iff.1 hzero]
    rfl
  · obtain ⟨p, hp⟩ : ∃ p, p + 1 = log.length := ⟨log.length - 1, by omega⟩
    have hmem : p ∈ taken := (h.covered p (by omega)).resolve_right (hlast p hp)
    obtain ⟨earlier, later, rfl⟩ := List.append_of_mem hmem
    have hend : later = [] := by
      apply List.eq_nil_iff_forall_not_mem.2
      intro q hq
      have hlt := (List.pairwise_cons.1 (List.pairwise_append.1 h.sorted).2.1).1 q hq
      have hbound := h.before q (List.mem_append_right _ (List.mem_cons_of_mem p hq))
      omega
    have hvalue : log[p]? = log.getLast? := by
      rw [List.getLast?_eq_getElem?]
      congr 1
      omega
    have hsome : ∃ v, log[p]? = some v := ⟨log[p], List.getElem?_eq_getElem (by omega)⟩
    obtain ⟨v, hv⟩ := hsome
    rw [hend, valuesAt_append, valuesAt_singleton hv, List.getLast?_append, ← hvalue, hv]
    rfl

end Reading

end AnyPlayerSync.Foundation.Broadcast
