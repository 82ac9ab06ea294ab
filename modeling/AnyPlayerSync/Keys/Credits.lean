import AnyPlayerSync.Keys.KeyWords
import Mathlib.Data.List.Nodup

/-!
# Credits

What `artist_parts` makes of a credit: the trimmed credit, then trimmed parts of it that no
separator occurs in (`artistParts_cons`). Such a part is split no further, so it has one entry of
its own (`artistParts_of_free`).

`CutInTurn` says what the loop over the separators computes, and `creditEntries` what the loop over
the parts does (`artistParts_exact`).

The credit is cut as it was given and trimmed afterwards. A credit that begins with a separator's
space loses it by trimming, and the trimmed credit is then cut at other places than the credit.
-/

set_option autoImplicit false

namespace AnyPlayerSync.Keys

open AnyPlayerSync.Foundation
open AnyPlayerSync.Foundation.Text

variable (U : UnicodeTables)

/-! ## Cutting -/

/-- No separator occurs in the text. -/
def Free (seps : List Str) (s : Str) : Prop := ∀ sep ∈ seps, ¬ sep <:+: s

theorem Free.of_isInfix {seps : List Str} {s t : Str} (h : Free seps s) (ht : t <:+: s) :
    Free seps t :=
  fun sep hsep hin => h sep hsep (hin.trans ht)

/-- Cutting in turn leaves no separator in the parts. -/
theorem foldl_free (seps : List Str) (hne : ∀ sep ∈ seps, sep ≠ []) :
    ∀ (done parts : List Str), (∀ p ∈ parts, Free done p) →
      ∀ p ∈ seps.foldl (fun parts sep => parts.flatMap (splitStr sep)) parts,
        Free (done ++ seps) p := by
  induction seps with
  | nil =>
      intro done parts hparts p hp
      rw [List.append_nil]
      exact hparts p hp
  | cons sep seps ih =>
      intro done parts hparts
      rw [List.append_cons]
      apply ih (fun s hs => hne s (List.mem_cons_of_mem _ hs)) (done ++ [sep]) _
      intro p hp
      obtain ⟨whole, hwhole, hp⟩ := List.mem_flatMap.1 hp
      -- free of this separator by the cut, and of those before since it lies in a part that is
      have hcut := splitStr_parts (hne sep List.mem_cons_self) whole
      intro s hs
      rcases List.mem_append.1 hs with hs | hs
      · exact (hparts whole hwhole).of_isInfix (hcut.found p hp) s hs
      · rw [List.mem_singleton.1 hs]
        exact hcut.free p hp

theorem creditSeparators_ne_nil : ∀ sep ∈ creditSeparators, sep ≠ [] := by decide

theorem splitCredit_free {credit p : Str} (hp : p ∈ splitCredit creditSeparators credit) :
    Free creditSeparators p :=
  foldl_free creditSeparators creditSeparators_ne_nil [] [credit]
    (fun _ _ _ hsep => nomatch hsep) p hp

theorem splitCredit_of_free {seps : List Str} {s : Str} (h : Free seps s) :
    splitCredit seps s = [s] := by
  induction seps with
  | nil => rfl
  | cons sep seps ih =>
      have hsplit : [s].flatMap (splitStr sep) = [s] := by
        rw [List.flatMap_singleton, splitStr_of_free (h sep List.mem_cons_self)]
      rw [splitCredit, List.foldl_cons, hsplit]
      exact ih fun t ht => h t (List.mem_cons_of_mem _ ht)

/-- The pieces of texts that are cut at each separator in turn. -/
def CutInTurn : List Str → List Str → List Str → Prop
  | [], parts, pieces => parts = pieces
  | sep :: seps, parts, pieces =>
      ∃ cuts, List.Forall₂ (CutAt sep) parts cuts ∧ CutInTurn seps cuts.flatten pieces

theorem forall₂_cutAt_iff {sep : Str} (hsep : sep ≠ []) {parts : List Str}
    {cuts : List (List Str)} :
    List.Forall₂ (CutAt sep) parts cuts ↔ parts.map (splitStr sep) = cuts := by
  have hcut : CutAt sep = fun s pieces => splitStr sep s = pieces := by
    funext s pieces
    exact propext (cutAt_iff hsep)
  rw [hcut, ← List.forall₂_map_left_iff, List.forall₂_eq_eq_eq]

/-- The loop over the separators is the only way to cut at each in turn. -/
theorem cutInTurn_iff (seps : List Str) (hne : ∀ sep ∈ seps, sep ≠ []) :
    ∀ parts pieces, CutInTurn seps parts pieces ↔
      seps.foldl (fun parts sep => parts.flatMap (splitStr sep)) parts = pieces := by
  induction seps with
  | nil =>
      intro parts pieces
      rfl
  | cons sep seps ih =>
      intro parts pieces
      have hrest := ih fun s hs => hne s (List.mem_cons_of_mem sep hs)
      rw [List.foldl_cons, ← hrest, CutInTurn, List.flatMap_def]
      constructor
      · rintro ⟨cuts, hcuts, hpieces⟩
        rwa [(forall₂_cutAt_iff (hne sep List.mem_cons_self)).1 hcuts]
      · intro hpieces
        exact ⟨_, (forall₂_cutAt_iff (hne sep List.mem_cons_self)).2 rfl, hpieces⟩

/-! ## Adding parts -/

/-- The trimmed pieces of a credit that are not empty. -/
def creditSegments (credit : Str) : List Str :=
  ((splitCredit creditSeparators credit).map trim).filter fun s => s ≠ []

/-- Two spellings of one name. -/
def sameKey (s t : Str) : Bool := decide (matchKey U s = matchKey U t)

/-- The trimmed credit and its segments, without those whose key an earlier one has. -/
def creditEntries (credit : Str) : List Str :=
  (trim credit :: creditSegments credit).eraseDupsBy (sameKey U)

/-- Parts are added after those there, and only those that are not empty. -/
theorem addParts_append (parts : List Str) : ∀ out : List Str, ∃ extras,
    addParts U out parts = out ++ extras ∧ ∀ x ∈ extras, x ∈ parts ∧ x ≠ [] := by
  induction parts with
  | nil =>
      intro out
      exact ⟨[], (List.append_nil out).symm, fun _ h => nomatch h⟩
  | cons part parts ih =>
      intro out
      rw [addParts, List.foldl_cons]
      split_ifs with hnew
      · obtain ⟨extras, heq, hextras⟩ := ih (out ++ [part])
        refine ⟨part :: extras, heq.trans (List.append_assoc _ _ _), fun x hx => ?_⟩
        rcases List.mem_cons.1 hx with rfl | hx
        · exact ⟨List.mem_cons_self, hnew.1⟩
        · exact ⟨List.mem_cons_of_mem _ (hextras x hx).1, (hextras x hx).2⟩
      · obtain ⟨extras, heq, hextras⟩ := ih out
        exact ⟨extras, heq, fun x hx => ⟨List.mem_cons_of_mem _ (hextras x hx).1, (hextras x hx).2⟩⟩

/-- No key is added twice. -/
theorem addParts_keys (parts : List Str) : ∀ out : List Str, (out.map (matchKey U)).Nodup →
    ((addParts U out parts).map (matchKey U)).Nodup := by
  induction parts with
  | nil =>
      intro _ h
      exact h
  | cons part parts ih =>
      intro out hout
      rw [addParts, List.foldl_cons]
      split_ifs with hnew
      · apply ih (out ++ [part])
        rw [List.map_append, List.nodup_append]
        refine ⟨hout, List.nodup_singleton _, ?_⟩
        intro a ha b hb
        obtain ⟨o, ho, rfl⟩ := List.mem_map.1 ha
        rw [List.map_singleton, List.mem_singleton] at hb
        exact hb ▸ hnew.2 o ho
      · exact ih out hout

theorem addParts_eq_loop (parts : List Str) : ∀ out : List Str, addParts U out parts =
    List.eraseDupsBy.loop (sameKey U) (parts.filter fun s => s ≠ []) out.reverse := by
  induction parts with
  | nil =>
      intro out
      exact (List.reverse_reverse out).symm
  | cons part parts ih =>
      intro out
      rw [addParts, List.foldl_cons, ← addParts, ih]
      by_cases hne : part = []
      · rw [if_neg fun h => h.1 hne, List.filter_cons_of_neg (by simp [hne])]
      · rw [List.filter_cons_of_pos (by simp [hne])]
        by_cases hnew : ∀ o ∈ out, matchKey U o ≠ matchKey U part
        · have hany : out.reverse.any (sameKey U part) = false := by
            rw [List.any_reverse, List.any_eq_false]
            intro o ho hsame
            exact hnew o ho (of_decide_eq_true hsame).symm
          rw [if_pos ⟨hne, hnew⟩, List.eraseDupsBy.loop, hany, List.reverse_append]
          rfl
        · have hany : out.reverse.any (sameKey U part) = true := by
            simp only [not_forall, not_not] at hnew
            obtain ⟨o, ho, hkey⟩ := hnew
            rw [List.any_reverse, List.any_eq_true]
            exact ⟨o, ho, decide_eq_true hkey.symm⟩
          rw [if_neg fun h => hnew h.2, List.eraseDupsBy.loop, hany]

/-- The keys after the loop: those that were there, and those of the parts. -/
theorem mem_keys_addParts (parts : List Str) : ∀ (out : List Str) (k : Str),
    k ∈ (addParts U out parts).map (matchKey U) ↔
      k ∈ out.map (matchKey U) ∨ k ∈ (parts.filter fun s => s ≠ []).map (matchKey U) := by
  induction parts with
  | nil =>
      intro out k
      simp [addParts]
  | cons part parts ih =>
      intro out k
      rw [addParts, List.foldl_cons, ← addParts, ih]
      by_cases hne : part = []
      · rw [if_neg fun h => h.1 hne, List.filter_cons_of_neg (by simp [hne])]
      · rw [List.filter_cons_of_pos (by simp [hne]), List.map_cons, List.mem_cons]
        by_cases hnew : ∀ o ∈ out, matchKey U o ≠ matchKey U part
        · rw [if_pos ⟨hne, hnew⟩, List.map_append, List.mem_append, List.map_singleton,
            List.mem_singleton, or_assoc]
        · rw [if_neg fun h => hnew h.2]
          simp only [not_forall, not_not] at hnew
          obtain ⟨o, ho, hkey⟩ := hnew
          have hthere : k = matchKey U part → k ∈ out.map (matchKey U) := by
            rintro rfl
            exact hkey ▸ List.mem_map_of_mem ho
          constructor
          · rintro (h | h)
            · exact Or.inl h
            · exact Or.inr (Or.inr h)
          · rintro (h | h | h)
            · exact Or.inl h
            · exact Or.inl (hthere h)
            · exact Or.inr h

/-! ## The parts of a credit -/

theorem addParts_eq_creditEntries (credit : Str) :
    addParts U [trim credit] ((splitCredit creditSeparators credit).map trim) =
      creditEntries U credit := by
  rw [addParts_eq_loop]
  rfl

theorem artistParts_eq_take (credit : Str) :
    artistParts U credit = (creditEntries U credit).take 16 := by
  rw [artistParts, addParts_eq_creditEntries]

/-- The trimmed credit, then trimmed parts without separators. -/
theorem artistParts_cons (credit : Str) : ∃ extras, artistParts U credit = trim credit :: extras ∧
    ∀ x ∈ extras, Free creditSeparators x := by
  obtain ⟨extras, heq, hextras⟩ :=
    addParts_append U ((splitCredit creditSeparators credit).map trim) [trim credit]
  refine ⟨extras.take 15, by rw [artistParts, heq]; rfl, fun x hx => ?_⟩
  obtain ⟨p, hp, rfl⟩ := List.mem_map.1 (hextras x (List.mem_of_mem_take hx)).1
  exact (splitCredit_free hp).of_isInfix (trim_isInfix p)

theorem artistParts_keys (credit : Str) : ((artistParts U credit).map (matchKey U)).Nodup := by
  rw [artistParts, List.map_take]
  have hkeys := addParts_keys U ((splitCredit creditSeparators credit).map trim) [trim credit]
    (List.nodup_singleton _)
  exact hkeys.sublist (List.take_sublist _ _)

/-- **A credit is split exactly.** Its pieces are those of cutting it at each separator in turn; the
entries are the trimmed credit and the trimmed pieces, each key once, sixteen of them at most. -/
theorem artistParts_exact (credit : Str) :
    (∀ pieces, CutInTurn creditSeparators [credit] pieces ↔
        splitCredit creditSeparators credit = pieces) ∧
      artistParts U credit = (creditEntries U credit).take 16 ∧
      (artistKeys U credit).Nodup ∧
      (∀ p ∈ (artistParts U credit).tail, Free creditSeparators p) ∧
      ∀ s ∈ creditSegments credit, matchKey U s ∈ artistKeys U credit ∨
        matchKey U s ∈ ((creditEntries U credit).drop 16).map (matchKey U) := by
  refine ⟨cutInTurn_iff creditSeparators creditSeparators_ne_nil [credit],
    artistParts_eq_take U credit, artistParts_keys U credit, ?_, ?_⟩
  · obtain ⟨extras, heq, hfree⟩ := artistParts_cons U credit
    rw [heq]
    exact hfree
  · intro s hs
    have hkey : matchKey U s ∈ (creditEntries U credit).map (matchKey U) := by
      rw [← addParts_eq_creditEntries, mem_keys_addParts]
      exact Or.inr (List.mem_map_of_mem hs)
    rw [← List.take_append_drop 16 (creditEntries U credit), List.map_append,
      List.mem_append] at hkey
    rwa [artistKeys, artistParts_eq_take]

theorem trim_mem_artistParts (credit : Str) : trim credit ∈ artistParts U credit := by
  obtain ⟨extras, heq, -⟩ := artistParts_cons U credit
  rw [heq]
  exact List.mem_cons_self

/-- A text without separators is one artist. -/
theorem artistParts_of_free {s : Str} (h : Free creditSeparators s) :
    artistParts U s = [trim s] := by
  have hsame : addParts U [trim s] [trim s] = [trim s] := by
    rw [addParts, List.foldl_cons, List.foldl_nil]
    apply if_neg
    intro hnew
    exact hnew.2 (trim s) (List.mem_singleton_self _) rfl
  rw [artistParts, splitCredit_of_free h, List.map_singleton, hsame]
  rfl

/-- An artist of the credit has a key of the credit. -/
theorem matchKey_mem_artistKeys {credit a : Str} (h : a ∈ artistParts U credit) :
    matchKey U a ∈ artistKeys U credit := List.mem_map_of_mem h

theorem credit_mem_artistKeys (credit : Str) : matchKey U credit ∈ artistKeys U credit := by
  rw [← matchKey_trim]
  exact matchKey_mem_artistKeys U (trim_mem_artistParts U credit)

theorem songKey_mem_songKeys (title : Str) : matchKey U (baseTitle U title) ∈ songKeys U title := by
  rw [songKeys]
  split_ifs with h
  · exact h
  · exact List.mem_cons_of_mem _ (List.mem_singleton_self _)

end AnyPlayerSync.Keys
