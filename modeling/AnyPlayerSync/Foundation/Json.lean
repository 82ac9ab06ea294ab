import Mathlib.Tactic.Common

/-!
# JSON values and string-keyed maps

Text is a list of Unicode scalar values (`Str`). A map with string keys is an association list in
iteration order, smallest key first; `insert` keeps that order and `lookup` reads the first entry
of a key, so the two laws of a map (`lookup_insert_self`, `lookup_insert_of_ne`) hold of every
list. A JSON value is a tree over such maps, with the accessors of a dynamically typed value.
`Json.nulFree` is what a binary JSON column asks of a value, its size apart.
-/

set_option autoImplicit false

namespace AnyPlayerSync.Foundation

universe u

/-- A Rust `str` or `String`: its characters in order. -/
abbrev Str := List Char

instance : LawfulBEq Str := inferInstance

/-- The text holds no U+0000. -/
def NulFree (s : Str) : Prop := Char.ofNat 0 ∉ s

instance (s : Str) : Decidable (NulFree s) := inferInstanceAs (Decidable (_ ∉ s))

/-- A map with string keys, in iteration order. -/
abbrev StrMap (β : Type u) := List (Str × β)

namespace StrMap

variable {β : Type u}

/-- The value of a key. -/
def lookup (k : Str) : StrMap β → Option β
  | [] => none
  | (k', v) :: m => if k' = k then some v else lookup k m

/-- Set the value of a key, in key order. -/
def insert (k : Str) (v : β) : StrMap β → StrMap β
  | [] => [(k, v)]
  | (k', v') :: m =>
      if k' = k then (k, v) :: m
      else if k < k' then (k, v) :: (k', v') :: m
      else (k', v') :: insert k v m

@[simp] theorem lookup_nil (k : Str) : lookup k ([] : StrMap β) = none := rfl

theorem lookup_cons (k k' : Str) (v : β) (m : StrMap β) :
    lookup k ((k', v) :: m) = if k' = k then some v else lookup k m := rfl

@[simp] theorem lookup_insert_self (k : Str) (v : β) (m : StrMap β) :
    lookup k (insert k v m) = some v := by
  induction m with
  | nil => simp [insert, lookup_cons]
  | cons p m ih =>
      obtain ⟨k', v'⟩ := p
      simp only [insert]
      split_ifs with hk hlt
      · simp [lookup_cons]
      · simp [lookup_cons]
      · rw [lookup_cons, if_neg hk, ih]

theorem lookup_insert_of_ne {k k' : Str} (h : k' ≠ k) (v : β) (m : StrMap β) :
    lookup k' (insert k v m) = lookup k' m := by
  induction m with
  | nil => simp [insert, lookup_cons, h.symm]
  | cons p m ih =>
      obtain ⟨j, w⟩ := p
      simp only [insert]
      split_ifs with hj hlt
      · subst hj
        rw [lookup_cons, lookup_cons, if_neg h.symm, if_neg h.symm]
      · rw [lookup_cons, if_neg h.symm]
      · rw [lookup_cons, lookup_cons, ih]

/-- An entry read by `lookup` is an entry of the list. -/
theorem mem_of_lookup {k : Str} {v : β} {m : StrMap β} (h : lookup k m = some v) : (k, v) ∈ m := by
  induction m with
  | nil => simp at h
  | cons p m ih =>
      obtain ⟨k', v'⟩ := p
      rw [lookup_cons] at h
      split_ifs at h with hk
      · subst hk
        cases h
        exact List.mem_cons_self
      · exact List.mem_cons_of_mem _ (ih h)

/-- The entries after an insertion are the new entry and old ones. -/
theorem mem_insert {k : Str} {v : β} {m : StrMap β} {q : Str × β} (h : q ∈ insert k v m) :
    q = (k, v) ∨ q ∈ m := by
  induction m with
  | nil => simpa [insert] using h
  | cons p m ih =>
      obtain ⟨k', v'⟩ := p
      simp only [insert] at h
      split_ifs at h with hk hlt
      · exact (List.mem_cons.1 h).imp_right (List.mem_cons_of_mem _)
      · exact List.mem_cons.1 h
      · rcases List.mem_cons.1 h with h | h
        · exact Or.inr (h ▸ List.mem_cons_self)
        · exact (ih h).imp_right (List.mem_cons_of_mem _)

theorem lookup_map (f : β → β) (k : Str) (m : StrMap β) :
    lookup k (m.map fun p => (p.1, f p.2)) = (lookup k m).map f := by
  induction m with
  | nil => rfl
  | cons p m ih =>
      obtain ⟨k', v⟩ := p
      rw [List.map_cons, lookup_cons, lookup_cons]
      split_ifs
      · rfl
      · exact ih

/-- The keys ascend, so no key comes twice. -/
def Ascending (m : StrMap β) : Prop := m.Pairwise fun p q => p.1 < q.1

theorem Ascending.insert {m : StrMap β} (hm : Ascending m) (k : Str) (v : β) :
    Ascending (insert k v m) := by
  induction m with
  | nil => exact List.pairwise_singleton _ _
  | cons p m ih =>
      obtain ⟨k', v'⟩ := p
      obtain ⟨hfirst, hrest⟩ := List.pairwise_cons.1 hm
      simp only [StrMap.insert]
      split_ifs with hk hlt
      · subst hk
        exact List.pairwise_cons.2 ⟨hfirst, hrest⟩
      · refine List.pairwise_cons.2 ⟨fun q hq => ?_, hm⟩
        rcases List.mem_cons.1 hq with rfl | hq
        · exact hlt
        · exact List.lt_trans hlt (hfirst q hq)
      · refine List.pairwise_cons.2 ⟨fun q hq => ?_, ih hrest⟩
        rcases mem_insert hq with rfl | hq
        · by_contra hge
          exact hk (List.le_antisymm (List.not_lt.1 hlt) (List.not_lt.1 hge))
        · exact hfirst q hq

theorem Ascending.lookup {m : StrMap β} (hm : Ascending m) {p : Str × β} (hp : p ∈ m) :
    lookup p.1 m = some p.2 := by
  induction m with
  | nil => cases hp
  | cons q m ih =>
      obtain ⟨hfirst, hrest⟩ := List.pairwise_cons.1 hm
      rcases List.mem_cons.1 hp with rfl | hp
      · rw [lookup_cons, if_pos rfl]
      · rw [lookup_cons, if_neg, ih hrest hp]
        intro h
        have hlt := hfirst p hp
        rw [h] at hlt
        exact List.lt_irrefl _ hlt

end StrMap

/-- A JSON value. Integers are exact; any other number keeps its text. -/
inductive Json where
  | null
  | bool (b : Bool)
  | int (n : Int)
  | float (text : Str)
  | str (s : Str)
  | arr (items : List Json)
  | obj (fields : List (Str × Json))

namespace Json

/-- The member `key` of an object; `none` on a missing member and on any other value. -/
def get (key : Str) : Json → Option Json
  | .obj fields => StrMap.lookup key fields
  | _ => none

/-- `value[key]`: the member, or `null`. -/
def index (v : Json) (key : Str) : Json := (v.get key).getD .null

/-- The value at a path of object members. -/
def pointer : List Str → Json → Option Json
  | [], v => some v
  | key :: path, v => (v.get key).bind (pointer path)

/-- The text of a string value. -/
def asStr : Json → Option Str
  | .str s => some s
  | _ => none

/-- The items of an array. -/
def asArray : Json → Option (List Json)
  | .arr items => some items
  | _ => none

/-- The members of an object. -/
def asObject : Json → Option (StrMap Json)
  | .obj fields => some fields
  | _ => none

/-- The value of an integer. -/
def asInt : Json → Option Int
  | .int n => some n
  | _ => none

/-- The elements of an array; none for any other value. -/
def elements (v : Json) : List Json := v.asArray.getD []

mutual

/-- No text of the value and no member name holds U+0000. -/
def nulFree : Json → Bool
  | .str s => decide (NulFree s)
  | .arr items => nulFreeItems items
  | .obj fields => nulFreeFields fields
  | _ => true

/-- No item has U+0000. -/
def nulFreeItems : List Json → Bool
  | [] => true
  | v :: items => v.nulFree && nulFreeItems items

/-- No member has U+0000, in its name or its value. -/
def nulFreeFields : List (Str × Json) → Bool
  | [] => true
  | (k, v) :: fields => decide (NulFree k) && v.nulFree && nulFreeFields fields

end

end Json

end AnyPlayerSync.Foundation
