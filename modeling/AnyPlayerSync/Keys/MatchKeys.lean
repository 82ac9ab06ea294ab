import AnyPlayerSync.Foundation.Text

/-!
# Match keys

`match_keys.rs`: the keys that titles and credits reduce to. A document or a job is stored under
`match_key` of its base title and artist; a lookup tries the title as given and its base title, and
the credit as given and each artist it names.

`stripQualifiers` is the `while` loop of `base_title` with a bound on its turns; each turn that
continues makes the title shorter, so the length of the title bounds them
(`stripQualifier_stripQualifiers`). `baseTitle` and `artistParts` are irreducible: the proofs use
their lemmas, and unification shall not run them.
-/

set_option autoImplicit false

namespace AnyPlayerSync.Keys

open AnyPlayerSync.Foundation
open AnyPlayerSync.Foundation.Text

variable (U : UnicodeTables)

/-! ## Keys -/

/-- `DASHES` of `dj_fact_sources.rs`. -/
def dashes : List Char := ['\u2010', '\u2011', '\u2012', '\u2013', '\u2014', '\u2015']

/-- Every kind of dash as a hyphen. -/
def foldDashes (value : Str) : Str := value.map fun c => if c ∈ dashes then '-' else c

/-- One blank between words, in lower case. -/
def identityKey (value : Str) : Str := toLowercase U (join " ".toList (splitWhitespace value))

/-- The key by which names and titles are compared. -/
def matchKey (value : Str) : Str := foldDashes (identityKey U value)

/-! ## Titles -/

/-- The words that mark a trailing bracket as a release qualifier. -/
def titleQualifiers : List Str :=
  ["feat", "feat.", "ft", "ft.", "featuring", "with", "from", "remaster", "remastered", "version",
    "live", "remix", "edit", "mix", "mono", "stereo", "acoustic", "demo", "instrumental",
    "explicit", "ver", "ver."].map String.toList

/-- The text in a trailing bracket marks a release: digits only, or a qualifier among its words. -/
def isQualifier (inner : Str) : Bool :=
  let inner := toLowercase U inner
  (trim inner).all (fun c => '0' ≤ c && c ≤ '9') ||
    (inner.splitOnP fun c => !U.isAlphanumeric c && c != '.').any fun word =>
      word ∈ titleQualifiers

/-- The bracket that opens what a trailing bracket closes. -/
def openBracket? : Char → Option Char
  | ')' => some '('
  | ']' => some '['
  | _ => none

/-- One turn of the loop of `base_title`: the title without its trailing qualifier. -/
def stripQualifier (base : Str) : Option Str := do
  let close ← base.getLast?
  let bracket ← openBracket? close
  let (before, after) ← splitLast bracket base
  if isQualifier U after.dropLast && before ≠ [] then some (trimEnd before) else none

/-- Qualifiers are cut off the end until there is none. -/
def stripQualifiers : Nat → Str → Str
  | 0, base => base
  | turns + 1, base =>
      match stripQualifier U base with
      | some shorter => stripQualifiers turns shorter
      | none => base

theorem stripQualifier_length_lt {base shorter : Str} (h : stripQualifier U base = some shorter) :
    shorter.length < base.length := by
  simp only [stripQualifier, Option.bind_eq_bind, Option.bind_eq_some_iff] at h
  obtain ⟨close, -, bracket, -, ⟨before, after⟩, hsplit, h⟩ := h
  dsimp only at h
  split_ifs at h
  cases h
  have hle : (trimEnd before).length ≤ before.length := (List.rdropWhile_prefix _ before).length_le
  rw [splitLast_eq hsplit, List.length_append, List.length_cons]
  omega

/-- The loop has ended: with a turn for each character, no qualifier is left. -/
theorem stripQualifier_stripQualifiers (turns : Nat) :
    ∀ base : Str, base.length ≤ turns → stripQualifier U (stripQualifiers U turns base) = none := by
  induction turns with
  | zero =>
      intro base hlen
      rw [List.eq_nil_of_length_eq_zero (Nat.le_zero.1 hlen)]
      rfl
  | succ turns ih =>
      intro base hlen
      rw [stripQualifiers]
      cases hstep : stripQualifier U base with
      | none => exact hstep
      | some shorter =>
          refine ih shorter (Nat.le_of_lt_succ ?_)
          exact Nat.lt_of_lt_of_le (stripQualifier_length_lt U hstep) hlen

/-- The title with release qualifiers removed. -/
@[irreducible] def baseTitle (title : Str) : Str :=
  let base := trimEnd ((splitStr " - ".toList title).headD title)
  let base := stripQualifiers U base.length base
  if base = [] then title else base

/-- Lookup keys for a player-supplied title: as given, plus without release qualifiers. -/
def songKeys (title : Str) : List Str :=
  let key := matchKey U title
  let base := matchKey U (baseTitle U title)
  if base ∈ [key] then [key] else [key, base]

/-! ## Credits -/

/-- What stands between the artists of a credit, tried in this order. -/
def creditSeparators : List Str :=
  [",", "&", "、", " feat. ", " ft. ", " featuring "].map String.toList

/-- The credit cut at each separator in turn. -/
def splitCredit (seps : List Str) (credit : Str) : List Str :=
  seps.foldl (fun parts sep => parts.flatMap (splitStr sep)) [credit]

/-- Append the parts that are not blank and whose key is new. -/
def addParts (out parts : List Str) : List Str :=
  parts.foldl (fun out part =>
    if part ≠ [] ∧ ∀ o ∈ out, matchKey U o ≠ matchKey U part then out ++ [part] else out) out

/-- The credit as given, then each credited artist of a multi-artist credit ("A, B & C"). -/
@[irreducible] def artistParts (artist : Str) : List Str :=
  (addParts U [trim artist] ((splitCredit creditSeparators artist).map trim)).take 16

/-- Lookup keys for a player-supplied artist credit. -/
def artistKeys (artist : Str) : List Str := (artistParts U artist).map (matchKey U)

end AnyPlayerSync.Keys
