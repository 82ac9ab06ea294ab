import Mathlib.Data.List.Chain
import Mathlib.Data.List.Infix

/-!
# Greedy packing with an overlap

Items are packed in order. A pack ends when it is full, or when the next item would make it too big;
the pack after it opens with the last item before it, unless the two items alone are too big. `big`
and `full` are tests on the items of a pack, in order.

- `pack_run`: the runs of the packs, one after the other, are the items.
- `forall_mem_pack`: what each turn establishes of the open pack holds of every pack.
- `pack_follows`: when a pack ends, and what the next one repeats.
-/

set_option autoImplicit false

namespace AnyPlayerSync.Foundation

/-- The item a pack repeats, and the items it adds. -/
structure Pack (α : Type) where
  overlap : Option α
  run : List α

namespace Pack

variable {α : Type}

/-- The elements of a pack, the one it shares with the pack before first. -/
def all (b : Pack α) : List α := b.overlap.toList ++ b.run

/-- The pack that comes after this one, before its first item. -/
def next (b : Pack α) : Pack α := ⟨b.run.getLast?, []⟩

section Turn

variable (big full : List α → Prop) [DecidablePred big] [DecidablePred full]

/-- The pack has to end before this item. -/
def Yields (b : Pack α) (a : α) : Prop := b.run ≠ [] ∧ big (b.all ++ [a])

instance (b : Pack α) (a : α) : Decidable (b.Yields big a) :=
  inferInstanceAs (Decidable (b.run ≠ [] ∧ big (b.all ++ [a])))

/-- One more element at the end. -/
def add (b : Pack α) (a : α) : Pack α :=
  if b.run = [] ∧ big (b.all ++ [a]) then ⟨none, [a]⟩ else ⟨b.overlap, b.run ++ [a]⟩

/-- The pack that takes the item. -/
def opened (b : Pack α) (a : α) : Pack α :=
  if b.Yields big a then b.next.add big a else b.add big a

/-- The item is added to what is open once there is room. -/
theorem opened_eq (b : Pack α) (a : α) :
    b.opened big a = (if b.Yields big a then b.next else b).add big a :=
  (apply_ite (fun c : Pack α => c.add big a) _ _ _).symm

/-- The open pack after a turn. -/
def after (b : Pack α) (a : α) : Pack α :=
  if full (b.opened big a).all then (b.opened big a).next else b.opened big a

/-- The packs that a turn ends. -/
def ended (b : Pack α) (a : α) : List (Pack α) :=
  (if b.Yields big a then [b] else []) ++
    if full (b.opened big a).all then [b.opened big a] else []

end Turn

end Pack

section Packs

variable {α : Type} (big full : List α → Prop) [DecidablePred big] [DecidablePred full]

/-- The packs of a list, given the open pack. -/
def pack (b : Pack α) : List α → List (Pack α)
  | [] => if b.run = [] then [] else [b]
  | a :: l => b.ended big full a ++ pack (b.after big full a) l

/-! ## One turn -/

variable {big full}

variable (big) in
/-- A pack begins with the item, and repeats one only if both fit, or it grows within the limit. -/
theorem Pack.opened_cases (b : Pack α) (a : α) :
    (∃ q, b.opened big a = ⟨q, [a]⟩ ∧ (q = none ∨ ¬ big (q.toList ++ [a]))) ∨
    (b.run ≠ [] ∧ ¬ big (b.all ++ [a]) ∧ b.opened big a = ⟨b.overlap, b.run ++ [a]⟩) := by
  have hadd : ∀ c : Pack α, c.run = [] →
      ∃ q, c.add big a = ⟨q, [a]⟩ ∧ (q = none ∨ ¬ big (q.toList ++ [a])) := by
    intro c hc
    by_cases hover : big (c.all ++ [a])
    · exact ⟨none, by rw [add, if_pos ⟨hc, hover⟩], Or.inl rfl⟩
    · refine ⟨c.overlap, by rw [add, if_neg fun h => hover h.2, hc, List.nil_append], Or.inr ?_⟩
      rwa [all, hc, List.append_nil] at hover
  by_cases hrun : b.run = []
  · left
    rw [opened, if_neg fun h => h.1 hrun]
    exact hadd b hrun
  · by_cases hover : big (b.all ++ [a])
    · left
      rw [opened, if_pos ⟨hrun, hover⟩]
      exact hadd b.next rfl
    · right
      refine ⟨hrun, hover, ?_⟩
      rw [opened, if_neg fun h => hover h.2, add, if_neg fun h => hrun h.1]

theorem Pack.opened_run_ne_nil (b : Pack α) (a : α) : (b.opened big a).run ≠ [] := by
  rcases b.opened_cases big a with ⟨q, h, -⟩ | ⟨-, -, h⟩
  · rw [h]
    exact List.cons_ne_nil _ _
  · rw [h]
    exact List.append_ne_nil_of_right_ne_nil _ (List.cons_ne_nil _ _)

/-- A turn adds its item to the runs. -/
theorem Pack.turn_run (b : Pack α) (a : α) :
    (b.ended big full a).flatMap Pack.run ++ (b.after big full a).run = b.run ++ [a] := by
  have hopen : ((if b.Yields big a then [b] else []).flatMap Pack.run) ++ (b.opened big a).run =
      b.run ++ [a] := by
    by_cases hy : b.Yields big a
    · rw [opened, if_pos hy, if_pos hy, add]
      split_ifs <;> simp [next]
    · rw [opened, if_neg hy, if_neg hy, add]
      split_ifs with h
      · simp [h.1]
      · simp
  rw [ended, after, List.flatMap_append, List.append_assoc]
  split_ifs with hy hfull hfull
  all_goals simpa [hy, hfull, next] using hopen

/-! ## Every pack -/

/-- The runs of the packs are the items, in order. -/
theorem pack_run (l : List α) :
    ∀ b : Pack α, (pack big full b l).flatMap Pack.run = b.run ++ l := by
  induction l with
  | nil =>
      intro b
      rw [pack]
      split_ifs with h
      · simp [h]
      · simp
  | cons a l ih =>
      intro b
      rw [pack, List.flatMap_append, ih, ← List.append_assoc, b.turn_run, List.append_assoc]
      rfl

/-- An open pack is empty, or it meets the predicate and is not full. -/
def Pack.Open (full : List α → Prop) (P : Pack α → Prop) (b : Pack α) : Prop :=
  b.run = [] ∨ (P b ∧ ¬ full b.all)

/-- A predicate that each turn establishes of the pack it puts its item in holds of every pack. -/
theorem forall_mem_pack {P : Pack α → Prop} (l : List α)
    (hturn : ∀ b : Pack α, ∀ a ∈ l, b.Open full P → P (b.opened big a)) :
    ∀ b : Pack α, b.Open full P → ∀ c ∈ pack big full b l, P c := by
  induction l with
  | nil =>
      intro b hb c hc
      rw [pack] at hc
      split_ifs at hc with h
      · cases hc
      · rw [List.mem_singleton.1 hc]
        exact (hb.resolve_left h).1
  | cons a l ih =>
      intro b hb c hc
      have hopen : P (b.opened big a) := hturn b a List.mem_cons_self hb
      rw [pack, List.mem_append, Pack.ended, List.mem_append] at hc
      rcases hc with (hc | hc) | hc
      · split_ifs at hc with hy
        · rw [List.mem_singleton.1 hc]
          exact (hb.resolve_left hy.1).1
        · cases hc
      · split_ifs at hc with hfull
        · rw [List.mem_singleton.1 hc]
          exact hopen
        · cases hc
      · refine ih (fun b a ha => hturn b a (List.mem_cons_of_mem _ ha)) _ ?_ c hc
        rw [Pack.after]
        split_ifs with hfull
        · exact Or.inl rfl
        · exact Or.inr ⟨hopen, hfull⟩

theorem pack_run_ne_nil {l : List α} {c : Pack α} (hc : c ∈ pack big full ⟨none, []⟩ l) :
    c.run ≠ [] :=
  forall_mem_pack (P := fun c => c.run ≠ []) l (fun b a _ _ => b.opened_run_ne_nil a) _
    (Or.inl rfl) c hc

/-- A pack within the limit, or one item. -/
theorem pack_not_over {l : List α} (hl : ∀ a ∈ l, ¬ big [a]) {c : Pack α}
    (hc : c ∈ pack big full ⟨none, []⟩ l) : ¬ big c.all := by
  refine forall_mem_pack (P := fun c => ¬ big c.all) l (fun b a ha _ => ?_) _ (Or.inl rfl) c hc
  rcases b.opened_cases big a with ⟨q, h, hq⟩ | ⟨-, hover, h⟩
  · rw [h]
    rcases hq with rfl | hq
    · exact hl a ha
    · exact hq
  · rw [h, Pack.all, ← List.append_assoc]
    exact hover

/-- Without its last item a pack of two new items was not full. -/
theorem pack_dropLast_not_full {l : List α} {c : Pack α} (hc : c ∈ pack big full ⟨none, []⟩ l)
    (htwo : 2 ≤ c.run.length) : ¬ full c.all.dropLast := by
  refine forall_mem_pack (P := fun c => 2 ≤ c.run.length → ¬ full c.all.dropLast) l
    (fun b a _ hb => ?_) _ (Or.inl rfl) c hc htwo
  rcases b.opened_cases big a with ⟨q, h, -⟩ | ⟨hrun, -, h⟩
  · rw [h]
    intro htwo
    exact absurd htwo (by simp)
  · -- the pack grew, so it was not full before this item
    rw [h]
    intro _
    have hall : (⟨b.overlap, b.run ++ [a]⟩ : Pack α).all.dropLast = b.all := by
      rw [Pack.all, ← List.append_assoc, List.dropLast_concat, Pack.all]
    rw [hall]
    exact (hb.resolve_left hrun).2

end Packs

/-! ## One pack after another -/

section Follows

variable {α : Type}

/-- A pack ends because it is full or the next item is too much, and its last item is repeated
exactly when it fits with that item. -/
structure Pack.Follows (big full : List α → Prop) (b c : Pack α) (q p : α) : Prop where
  last : b.run.getLast? = some q
  first : c.run.head? = some p
  ended : full b.all ∨ big (b.all ++ [p])
  overlap : c.overlap = none ∨ c.overlap = some q
  repeats : c.overlap = some q ↔ ¬ big [q, p]

/-- The open pack comes after a pack that has ended. -/
def Pack.Linked (big full : List α → Prop) (d b : Pack α) : Prop :=
  (d.run ≠ [] ∧ b = d.next ∧ full d.all) ∨ ∃ q p, d.Follows big full b q p

variable {big full : List α → Prop}

theorem Pack.Linked.follows {d b : Pack α} (h : d.Linked big full b) (hrun : b.run ≠ []) :
    ∃ q p, d.Follows big full b q p := by
  rcases h with ⟨-, rfl, -⟩ | h
  · exact absurd rfl hrun
  · exact h

/-- A pack that grows keeps what it repeats and how it begins. -/
theorem Pack.Follows.grow {d b : Pack α} {q p : α} (h : d.Follows big full b q p) (a : α) :
    d.Follows big full ⟨b.overlap, b.run ++ [a]⟩ q p where
  last := h.last
  first := by
    rw [List.head?_append, h.first]
    rfl
  ended := h.ended
  overlap := h.overlap
  repeats := h.repeats

variable [DecidablePred big]

theorem Pack.follows_add {d : Pack α} {a : α} (hd : d.run ≠ [])
    (hended : full d.all ∨ big (d.all ++ [a])) :
    d.Follows big full (d.next.add big a) (d.run.getLast hd) a := by
  have hlast : d.run.getLast? = some (d.run.getLast hd) := List.getLast?_eq_some_getLast hd
  have hall : d.next.all ++ [a] = [d.run.getLast hd, a] := by
    rw [all, next, hlast]
    rfl
  by_cases hover : big [d.run.getLast hd, a]
  · have hadd : d.next.add big a = ⟨none, [a]⟩ := by
      rw [add, if_pos ⟨rfl, hall ▸ hover⟩]
    rw [hadd]
    exact ⟨hlast, rfl, hended, Or.inl rfl,
      iff_of_false (Option.some_ne_none _).symm (not_not.2 hover)⟩
  · have hadd : d.next.add big a = ⟨some (d.run.getLast hd), [a]⟩ := by
      rw [add, if_neg fun h => hover (hall ▸ h.2), next, hlast]
      rfl
    rw [hadd]
    exact ⟨hlast, rfl, hended, Or.inr rfl, iff_of_true rfl hover⟩

theorem Pack.Linked.opened {d b : Pack α} (h : d.Linked big full b) {a : α}
    (hy : ¬ b.Yields big a) : d.Linked big full (b.opened big a) := by
  right
  rw [Pack.opened, if_neg hy]
  rcases h with ⟨hd, rfl, hfull⟩ | ⟨q, p, hf⟩
  · exact ⟨_, a, follows_add hd (Or.inl hfull)⟩
  · have hrun : b.run ≠ [] := by
      intro hb
      have hfirst := hf.first
      rw [hb] at hfirst
      cases hfirst
    rw [add, if_neg fun h => hrun h.1]
    exact ⟨q, p, hf.grow a⟩

theorem Pack.Yields.linked {b : Pack α} {a : α} (hy : b.Yields big a) :
    b.Linked big full (b.opened big a) := by
  right
  rw [Pack.opened, if_pos hy]
  exact ⟨_, a, follows_add hy.1 (Or.inr hy.2)⟩

variable [DecidablePred full]

variable (big full) in
/-- The packs of a list, from the start or after a pack that has ended. -/
theorem pack_follows (l : List α) : ∀ (d : Option (Pack α)) (b : Pack α),
    (∀ d' ∈ d, d'.Linked big full b) →
    (d.toList ++ pack big full b l).IsChain fun b c => ∃ q p, b.Follows big full c q p := by
  have hcons : ∀ (d : Option (Pack α)) (c : Pack α) (rest : List (Pack α)),
      (∀ d' ∈ d, d'.Linked big full c) → c.run ≠ [] →
      ((c :: rest).IsChain fun b c => ∃ q p, b.Follows big full c q p) →
      (d.toList ++ c :: rest).IsChain fun b c => ∃ q p, b.Follows big full c q p := by
    intro d c rest hd hrun hchain
    cases d with
    | none => exact hchain
    | some d => exact List.IsChain.cons_cons ((hd d rfl).follows hrun) hchain
  induction l with
  | nil =>
      intro d b hd
      rw [pack]
      split_ifs with hrun
      · cases d <;> simp
      · exact hcons d b [] hd hrun (List.IsChain.singleton b)
  | cons a l ih =>
      intro d b hd
      have hrun : (b.opened big a).run ≠ [] := b.opened_run_ne_nil a
      have hopened : ∀ d : Option (Pack α), (∀ d' ∈ d, d'.Linked big full (b.opened big a)) →
          (d.toList ++ ((if full (b.opened big a).all then [b.opened big a] else []) ++
            pack big full (b.after big full a) l)).IsChain
              fun b c => ∃ q p, b.Follows big full c q p := by
        intro d hd
        rw [Pack.after]
        split_ifs with hfull
        · refine hcons d _ _ hd hrun (ih (some (b.opened big a)) _ ?_)
          intro d' hd'
          cases hd'
          exact Or.inl ⟨hrun, rfl, hfull⟩
        · exact ih d _ hd
      rw [pack, Pack.ended, List.append_assoc]
      by_cases hy : b.Yields big a
      · rw [if_pos hy]
        refine hcons d b _ hd hy.1 (hopened (some b) ?_)
        intro d' hd'
        cases hd'
        exact hy.linked
      · rw [if_neg hy]
        exact hopened d fun d' hd' => (hd d' hd').opened hy

theorem pack_follows_succ {l : List α} {i : Nat} {b c : Pack α}
    (hb : (pack big full ⟨none, []⟩ l)[i]? = some b)
    (hc : (pack big full ⟨none, []⟩ l)[i + 1]? = some c) : ∃ q p, b.Follows big full c q p := by
  have hchain := pack_follows big full l none ⟨none, []⟩ (by simp)
  obtain ⟨hi, hbi⟩ := List.getElem?_eq_some_iff.1 hb
  obtain ⟨hi', hci⟩ := List.getElem?_eq_some_iff.1 hc
  have hrel := List.isChain_iff_getElem.1 hchain i hi'
  rw [← hbi, ← hci]
  exact hrel

/-- The first pack repeats nothing. -/
theorem pack_head_overlap (l : List α) : ∀ b : Pack α, b.overlap = none →
    ∀ c ∈ (pack big full b l).head?, c.overlap = none := by
  induction l with
  | nil =>
      intro b hb c hc
      rw [pack] at hc
      split_ifs at hc with hrun
      · cases hc
      · cases hc
        exact hb
  | cons a l ih =>
      intro b hb c hc
      rw [pack, Pack.ended] at hc
      by_cases hy : b.Yields big a
      · rw [if_pos hy] at hc
        cases hc
        exact hb
      · have hopened : (b.opened big a).overlap = none := by
          rw [Pack.opened, if_neg hy, Pack.add]
          split_ifs
          · rfl
          · exact hb
        rw [if_neg hy, Pack.after] at hc
        split_ifs at hc with hfull
        · cases hc
          exact hopened
        · exact ih _ hopened c hc

/-- What a pack repeats is the last item of the pack before it. -/
theorem pack_overlap {l : List α} {i : Nat} {c : Pack α}
    (hc : (pack big full ⟨none, []⟩ l)[i]? = some c) {q : α} (hq : c.overlap = some q) :
    ∃ j b, i = j + 1 ∧ (pack big full ⟨none, []⟩ l)[j]? = some b ∧ b.run.getLast? = some q := by
  cases i with
  | zero =>
      have hnone := pack_head_overlap l ⟨none, []⟩ rfl c (by rw [List.head?_eq_getElem?, hc]; rfl)
      rw [hq] at hnone
      cases hnone
  | succ j =>
      obtain ⟨hi, -⟩ := List.getElem?_eq_some_iff.1 hc
      have hb := List.getElem?_eq_getElem (Nat.lt_of_succ_lt hi)
      obtain ⟨q', p, hf⟩ := pack_follows_succ hb hc
      refine ⟨j, _, rfl, hb, ?_⟩
      rcases hf.overlap with hnone | hsome
      · rw [hq] at hnone
        cases hnone
      · rw [hf.last, ← hsome, hq]

/-- What a pack holds is among the items. -/
theorem mem_of_mem_pack {l : List α} {c : Pack α} (hc : c ∈ pack big full ⟨none, []⟩ l) {x : α}
    (hx : x ∈ c.all) : x ∈ l := by
  have hrun : ∀ b ∈ pack big full ⟨none, []⟩ l, ∀ y ∈ b.run, y ∈ l := by
    intro b hb y hy
    have hmem : y ∈ (pack big full ⟨none, []⟩ l).flatMap Pack.run := List.mem_flatMap.2 ⟨b, hb, hy⟩
    rwa [pack_run] at hmem
  rcases List.mem_append.1 hx with hx | hx
  · obtain ⟨i, hi⟩ := List.mem_iff_getElem?.1 hc
    obtain ⟨j, b, -, hb, hlast⟩ := pack_overlap hi (Option.mem_toList.1 hx)
    exact hrun b (List.mem_of_getElem? hb) x (List.mem_of_getLast? hlast)
  · exact hrun c hc x hx

end Follows

/-! ## Packs of one kind of item -/

section Kind

variable {α : Type} {big full : List α → Prop} [DecidablePred big] [DecidablePred full]

/-- The pack holds only items of a kind. -/
def Pack.Only (kind : α → Prop) (b : Pack α) : Prop := ∀ x ∈ b.all, kind x

/-- A turn that leaves open a pack of only such items leaves it below full and with room for the
next item. -/
def Pack.Spares (big full : List α → Prop) [DecidablePred big] [DecidablePred full]
    (kind : α → Prop) (b : Pack α) (l : List α) : Prop :=
  ∀ before a x rest, l = before ++ a :: x :: rest →
    ((before.foldl (Pack.after big full) b).opened big a).Only kind →
      ¬ full ((before.foldl (Pack.after big full) b).opened big a).all ∧
      ¬ big (((before.foldl (Pack.after big full) b).opened big a).all ++ [x])

variable {kind : α → Prop}

theorem Pack.spares_cons (b : Pack α) (a : α) (l : List α) :
    b.Spares big full kind (a :: l) ↔
      ((b.opened big a).Only kind → ∀ x ∈ l.head?,
        ¬ full (b.opened big a).all ∧ ¬ big ((b.opened big a).all ++ [x])) ∧
      (b.after big full a).Spares big full kind l := by
  constructor
  · intro h
    refine ⟨fun honly x hx => ?_, fun before a' x rest hl => ?_⟩
    · obtain ⟨rest, rfl⟩ := List.head?_eq_some_iff.1 hx
      exact h [] a x rest rfl honly
    · exact h (a :: before) a' x rest (by rw [hl]; rfl)
  · rintro ⟨hfirst, hrest⟩ before a' x rest hl
    cases before with
    | nil =>
        cases hl
        exact fun honly => hfirst honly x rfl
    | cons a'' before =>
        cases hl
        exact hrest before a' x rest rfl

/-- An item is in the pack that takes it. -/
theorem Pack.mem_opened (b : Pack α) (a : α) : a ∈ (b.opened big a).all := by
  rcases b.opened_cases big a with ⟨q, h, -⟩ | ⟨-, -, h⟩ <;> rw [h] <;> simp [Pack.all]

/-- A pack that a turn ends is the open one, which was too big with the item. -/
theorem Pack.yields_not_only_iff (b : Pack α) (a : α) (l : List α) :
    (∀ c ∈ (if b.Yields big a then [b] else []), ¬ c.Only kind) ↔
      (b.run ≠ [] → b.Only kind → ∀ x ∈ (a :: l).head?, ¬ big (b.all ++ [x])) := by
  by_cases hy : b.Yields big a
  · rw [if_pos hy, List.forall_mem_singleton]
    constructor
    · exact fun hnot _ honly => absurd honly hnot
    · exact fun h honly => h hy.1 honly a rfl hy.2
  · rw [if_neg hy]
    apply iff_of_true (fun _ hc => (by cases hc))
    rintro hrun - x hx
    cases hx
    exact fun hover => hy ⟨hrun, hover⟩

/-- No pack holds only items of a kind, exactly when the turns spare the open packs of only such
items; the last item is not of the kind. -/
theorem forall_not_only_iff (l : List α) : ∀ b : Pack α, (∀ x ∈ l.getLast?, ¬ kind x) →
    (l = [] → b.run ≠ [] → ¬ b.Only kind) →
    ((∀ c ∈ pack big full b l, ¬ c.Only kind) ↔
      (b.run ≠ [] → b.Only kind → ∀ x ∈ l.head?, ¬ big (b.all ++ [x])) ∧
      b.Spares big full kind l) := by
  induction l with
  | nil =>
      intro b _ hb
      constructor
      · intro _
        refine ⟨fun _ _ x hx => (by cases hx), fun before a x rest hl => ?_⟩
        exact absurd hl (by simp)
      · intro _ c hc
        rw [pack] at hc
        split_ifs at hc with hrun
        · cases hc
        · rw [List.mem_singleton.1 hc]
          exact hb rfl hrun
  | cons a l ih =>
      intro b hlast _
      have hend : l = [] → ¬ (b.opened big a).Only kind := by
        rintro rfl honly
        exact hlast a rfl (honly a (b.mem_opened a))
      have hlast' : ∀ x ∈ l.getLast?, ¬ kind x := by
        intro x hx
        apply hlast x
        rw [List.getLast?_cons, hx]
        rfl
      have hafter : l = [] → (b.after big full a).run ≠ [] →
          ¬ (b.after big full a).Only kind := by
        intro hl hrun
        rw [Pack.after] at hrun ⊢
        split_ifs at hrun ⊢
        · exact absurd rfl hrun
        · exact hend hl
      rw [pack, Pack.ended, List.forall_mem_append, List.forall_mem_append,
        b.yields_not_only_iff a l, and_assoc,
        ih _ hlast' hafter, b.spares_cons]
      apply and_congr_right
      intro _
      rw [← and_assoc]
      apply and_congr_left
      intro _
      rw [Pack.after]
      -- a full pack is ended at once, so only then it has to be spared here
      by_cases hfull : full (b.opened big a).all
      · rw [if_pos hfull, if_pos hfull]
        constructor
        · rintro ⟨hnot, -⟩ honly
          exact absurd honly (hnot _ (List.mem_singleton_self _))
        · intro h
          refine ⟨fun c hc honly => ?_, fun hrun => absurd rfl hrun⟩
          rw [List.mem_singleton.1 hc] at honly
          cases hl : l with
          | nil => exact hend hl honly
          | cons x rest => exact (h honly x (by rw [hl]; rfl)).1 hfull
      · rw [if_neg hfull, if_neg hfull]
        constructor
        · rintro ⟨-, h⟩ honly x hx
          exact ⟨hfull, h (b.opened_run_ne_nil a) honly x hx⟩
        · intro h
          exact ⟨fun _ hc => (by cases hc), fun _ honly x hx => (h honly x hx).2⟩

end Kind

end AnyPlayerSync.Foundation
