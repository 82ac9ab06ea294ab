import AnyPlayerSync.Foundation.Percent
import AnyPlayerSync.Passages.Model

/-!
# Requests

What the ingest sources use of `sources/http.rs`: a program that makes requests one after the other
and may fail. The answers are a parameter (`Web`): for the n-th request of the program and its URL,
either the value received or the error that `get_json` or `get_text` makes of it. The URLs are the
source's own, built from fixed hosts, so the host check never refuses one.

`Yields x a` says that for some answers `x` returns `a`; its lemmas take a program apart.
-/

set_option autoImplicit false

namespace AnyPlayerSync.Sources

open AnyPlayerSync.Foundation
open AnyPlayerSync.Passages (SourceError)

/-- The answers to the requests of one program. -/
structure Web where
  json : Nat → Str → Except SourceError Json
  text : Nat → Str → Except SourceError Str

/-- A program that makes requests; the state counts them. -/
abbrev Fetch (α : Type) := ReaderT Web (StateT Nat (Except SourceError)) α

/-- The next request, for JSON. -/
def getJson (url : Str) : Fetch Json := fun web n => (web.json n url).map fun v => (v, n + 1)

/-- The next request, for a page. -/
def getText (url : Str) : Fetch Str := fun web n => (web.text n url).map fun v => (v, n + 1)

/-- A part of a program that its scope may leave out. -/
def fetchIf {α : Type} (wanted : Bool) (x : Fetch (List α)) : Fetch (List α) :=
  if wanted then x else pure []

/-- The result of a program, from its first request on. -/
def Fetch.result {α : Type} (x : Fetch α) (web : Web) : Except SourceError α :=
  (x web 0).map Prod.fst

/-! ## Percent-encoding -/

/-- The upper-case digit of a number below 16. -/
def hexDigit (n : Nat) : Char := "0123456789ABCDEF".toList.getD n '0'

/-- `utf8_percent_encode(s, NON_ALPHANUMERIC)`. -/
def percentEncode (s : Str) : Str :=
  s.flatMap fun c =>
    -- `NON_ALPHANUMERIC` keeps the ASCII letters and digits
    if c.isAlphanum then [c]
    else (String.utf8EncodeChar c).flatMap fun b =>
      ['%', hexDigit (b.toNat / 16), hexDigit (b.toNat % 16)]

theorem percentEncode_eq (s : Str) : percentEncode s = Percent.encodeText Char.isAlphanum s := rfl

theorem decode_percentEncode (s : Str) : Percent.decode (percentEncode s) = Percent.utf8 s :=
  Percent.decode_encodeText (by decide) s

theorem isAlphanum_of_isUpperHex {c : Char} (h : Percent.IsUpperHex c) : c.isAlphanum = true := by
  rw [Char.isAlphanum, Bool.or_eq_true]
  rcases h with ⟨hlow, hhigh⟩ | ⟨hlow, hhigh⟩
  · exact Or.inr (Bool.and_eq_true_iff.2 ⟨decide_eq_true hlow, decide_eq_true hhigh⟩)
  · refine Or.inl (Bool.or_eq_true_iff.2 (Or.inl ?_))
    exact decide_eq_true ⟨hlow, Char.le_trans hhigh (by decide : 'F' ≤ 'Z')⟩

/-- An encoded text consists of letters, digits and percent signs. -/
theorem urlText_percentEncode (s : Str) : Percent.UrlText (percentEncode s) := by
  intro c hc
  rw [percentEncode_eq] at hc
  rcases (Percent.escaped_encodeText s).mem hc with hc | rfl | hc
  · exact Or.inl hc
  · exact Or.inr (by decide)
  · exact Or.inl (isAlphanum_of_isUpperHex hc)

/-- An encoded text has no mark. -/
theorem not_mem_percentEncode {c : Char} (h : c.isAlphanum = false) (hpercent : c ≠ '%') (s : Str) :
    c ∉ percentEncode s := by
  rw [percentEncode_eq]
  refine (Percent.escaped_encodeText s).not_mem ?_ hpercent fun hhex => ?_
  · rw [h]
    exact Bool.false_ne_true
  · rw [isAlphanum_of_isUpperHex hhex] at h
    cases h

/-! ## What a program can return -/

section Yields

variable {α β : Type}

/-- For some answers, and some number of requests before, the program returns the value. -/
def Yields (x : Fetch α) (a : α) : Prop := ∃ web n n', x web n = .ok (a, n')

theorem yields_pure {a b : α} (h : Yields (pure a : Fetch α) b) : a = b := by
  obtain ⟨web, n, n', h⟩ := h
  exact (Prod.mk.inj (Except.ok.inj h)).1

theorem yields_bind {x : Fetch α} {f : α → Fetch β} {b : β} (h : Yields (x >>= f) b) :
    ∃ a, Yields x a ∧ Yields (f a) b := by
  obtain ⟨web, n, n', h⟩ := h
  change ((x web n).bind fun p => f p.1 web p.2) = .ok (b, n') at h
  cases hx : x web n with
  | error e => rw [hx] at h; cases h
  | ok p =>
      rw [hx] at h
      exact ⟨p.1, ⟨web, n, p.2, hx⟩, web, p.2, n', h⟩

theorem yields_fetchIf {wanted : Bool} {x : Fetch (List α)} {l : List α}
    (h : Yields (fetchIf wanted x) l) : l = [] ∨ Yields x l := by
  rw [fetchIf] at h
  split_ifs at h
  · exact Or.inr h
  · exact Or.inl (yields_pure h).symm

/-- Nothing is returned, so all of it has the property. -/
theorem yields_nil {P : α → Prop} {l : List α} (h : Yields (pure [] : Fetch (List α)) l) :
    ∀ a ∈ l, P a := by
  cases yields_pure h
  intro _ h
  cases h

theorem yields_singleton {P : α → Prop} {a : α} {l : List α}
    (h : Yields (pure [a] : Fetch (List α)) l) (ha : P a) : ∀ b ∈ l, P b := by
  cases yields_pure h
  intro b hb
  rw [List.mem_singleton.1 hb]
  exact ha

/-- What a part returns has the property, when it does whenever the scope wants it. -/
theorem yields_fetchIf_forall {P : α → Prop} {wanted : Bool} {x : Fetch (List α)} {l : List α}
    (h : Yields (fetchIf wanted x) l) (hx : Yields x l → ∀ a ∈ l, P a) : ∀ a ∈ l, P a := by
  rcases yields_fetchIf h with rfl | h
  · intro _ h
    cases h
  · exact hx h

theorem yields_of_result {x : Fetch α} {web : Web} {a : α} (h : x.result web = .ok a) :
    Yields x a := by
  rw [Fetch.result] at h
  cases hx : x web 0 with
  | error e => rw [hx] at h; cases h
  | ok p =>
      rw [hx] at h
      cases h
      exact ⟨web, 0, p.2, hx⟩

end Yields

/-! ## Running a program -/

section Run

variable {α β : Type} {web : Web} {n : Nat}

theorem run_pure (a : α) : (pure a : Fetch α) web n = .ok (a, n) := rfl

theorem run_bind {x : Fetch α} {f : α → Fetch β} {a : α} {m : Nat} (hx : x web n = .ok (a, m)) :
    (x >>= f) web n = f a web m := by
  change ((x web n).bind fun p => f p.1 web p.2) = _
  rw [hx]
  rfl

theorem run_getJson {url : Str} {v : Json} (h : web.json n url = .ok v) :
    getJson url web n = .ok (v, n + 1) := by
  rw [getJson, h]
  rfl

end Run

/-! ## What a program asks for -/

section Asks

variable {α β : Type} {S : Str → Prop}

/-- Both runs make their first part alike, so they go on alike. -/
theorem bind_same {x x' : Fetch α} {f f' : α → Fetch β} {web web' : Web} {n : Nat}
    (hx : x web n = x' web' n) (hf : ∀ a m, f a web m = f' a web' m) :
    (x >>= f) web n = (x' >>= f') web' n := by
  change ((x web n).bind fun p => f p.1 web p.2) = (x' web' n).bind fun p => f' p.1 web' p.2
  rw [hx]
  cases x' web' n with
  | error e => rfl
  | ok p => exact hf p.1 p.2

/-- The answers agree on some URLs. -/
def AgreeOn (S : Str → Prop) (web web' : Web) : Prop :=
  ∀ n url, S url → web.json n url = web'.json n url ∧ web.text n url = web'.text n url

/-- The program asks for such URLs only: no other answer makes a difference. -/
def Asks (S : Str → Prop) (x : Fetch α) : Prop :=
  ∀ web web', AgreeOn S web web' → ∀ n, x web n = x web' n

theorem asks_pure (a : α) : Asks S (pure a : Fetch α) := fun _ _ _ _ => rfl

theorem asks_bind {x : Fetch α} {f : α → Fetch β} (hx : Asks S x) (hf : ∀ a, Asks S (f a)) :
    Asks S (x >>= f) := fun web web' h n =>
  bind_same (hx web web' h n) fun a => hf a web web' h

theorem asks_getJson {url : Str} (h : S url) : Asks S (getJson url) := by
  intro web web' hweb n
  rw [getJson, getJson, (hweb n url h).1]

theorem asks_getText {url : Str} (h : S url) : Asks S (getText url) := by
  intro web web' hweb n
  rw [getText, getText, (hweb n url h).2]

theorem asks_fetchIf {wanted : Bool} {x : Fetch (List α)} (hx : Asks S x) :
    Asks S (fetchIf wanted x) := by
  rw [fetchIf]
  split_ifs
  · exact hx
  · exact asks_pure []

theorem Asks.result {x : Fetch α} (hx : Asks S x) {web web' : Web} (h : AgreeOn S web web') :
    x.result web = x.result web' := by
  rw [Fetch.result, Fetch.result, hx web web' h 0]

end Asks

end AnyPlayerSync.Sources
