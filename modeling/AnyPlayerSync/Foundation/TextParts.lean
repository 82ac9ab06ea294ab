import AnyPlayerSync.Foundation.Text

/-!
# Text by parts

Laws of joining, of splitting at a separator string, of the characters that splitting at white space
keeps, and of `str::to_lowercase` on the parts of a text. The rule for a final sigma looks at the
text around it, but not past white space, so lower case is taken word by word
(`toLowercase_append`).
-/

set_option autoImplicit false

namespace AnyPlayerSync.Foundation.Text

/-! ## Joining -/

theorem join_singleton (sep s : Str) : join sep [s] = s := List.intercalate_singleton

theorem join_cons (sep s : Str) {parts : List Str} (h : parts ≠ []) :
    join sep (s :: parts) = s ++ (sep ++ join sep parts) := by
  rw [join, List.intercalate_cons_of_ne_nil h, List.append_assoc]
  rfl

/-- Two joins, joined. -/
theorem join_append (sep : Str) {parts parts' : List Str} (h : parts ≠ []) (h' : parts' ≠ []) :
    join sep (parts ++ parts') = join sep parts ++ (sep ++ join sep parts') := by
  induction parts with
  | nil => exact absurd rfl h
  | cons s parts ih =>
      cases parts with
      | nil => rw [List.singleton_append, join_cons sep s h', join_singleton]
      | cons t parts =>
          have hne : t :: parts ≠ [] := List.cons_ne_nil t parts
          rw [List.cons_append, join_cons sep s (List.append_ne_nil_of_left_ne_nil hne _), ih hne,
            join_cons sep s hne, List.append_assoc, List.append_assoc]

/-- A join of texts, joined to more texts. -/
theorem join_join (sep : Str) {parts : List Str} (h : parts ≠ []) (rest : List Str) :
    join sep (join sep parts :: rest) = join sep (parts ++ rest) := by
  by_cases hrest : rest = []
  · rw [hrest, join_singleton, List.append_nil]
  · rw [join_cons _ _ hrest, join_append _ h hrest]

/-- A join of images, for a function that respects the cuts at the separator. -/
theorem apply_join {f : Str → Str} {sep : Str} (hnil : f [] = [])
    (hcut : ∀ s t, f (s ++ (sep ++ t)) = f s ++ (sep ++ f t)) (parts : List Str) :
    f (join sep parts) = join sep (parts.map f) := by
  induction parts with
  | nil => exact hnil
  | cons s parts ih =>
      by_cases hparts : parts = []
      · rw [hparts, List.map_singleton, join_singleton, join_singleton]
      · rw [List.map_cons, join_cons sep s hparts, hcut, ih,
          join_cons sep _ (mt List.map_eq_nil_iff.1 hparts)]

/-! ## What a join contains -/

/-- The text stands across the seam between a part and what is joined to it: it begins in the part
and reaches past its end, or it begins in the separator. -/
def Crosses (sep part rest f : Str) : Prop :=
  (∃ s t, f = s ++ t ∧ t ≠ [] ∧ s <:+ part ∧ t <+: sep ++ rest) ∨
    ∃ m, m ≠ [] ∧ m <:+ sep ∧ f <+: m ++ rest

section Seams

variable {sep f : Str}

theorem crosses_of_infix_append {part rest : Str} (h : f <:+: part ++ (sep ++ rest)) :
    f <:+: part ∨ Crosses sep part rest f ∨ f <:+: rest := by
  rcases List.infix_append_iff.1 h with h | h | ⟨s, t, hst, hs, ht⟩
  · exact Or.inl h
  · obtain ⟨before, after, h⟩ := h
    rw [List.append_assoc] at h
    rcases List.append_eq_append_iff.1 h with ⟨m, hsep, hrest⟩ | ⟨before', -, hrest⟩
    · by_cases hm : m = []
      · rw [hm, List.nil_append] at hrest
        exact Or.inr (Or.inr ⟨[], after, hrest⟩)
      · exact Or.inr (Or.inl (Or.inr ⟨m, hm, ⟨before, hsep.symm⟩, after, hrest⟩))
    · exact Or.inr (Or.inr ⟨before', after, by rw [hrest, List.append_assoc]⟩)
  · by_cases hnil : t = []
    · rw [hst, hnil, List.append_nil]
      exact Or.inl hs.isInfix
    · exact Or.inr (Or.inl (Or.inl ⟨s, t, hst, hnil, hs, ht⟩))

theorem Crosses.isInfix {part rest : Str} (h : Crosses sep part rest f) :
    f <:+: part ++ (sep ++ rest) := by
  rcases h with ⟨s, t, hst, -, hs, ht⟩ | ⟨m, -, hm, hf⟩
  · exact List.infix_append_iff.2 (Or.inr (Or.inr ⟨s, t, hst, hs, ht⟩))
  · obtain ⟨before, rfl⟩ := hm
    rw [List.append_assoc, ← List.append_assoc]
    exact hf.isInfix.trans (List.suffix_append _ _).isInfix

/-- A text in a join is in a part, or across a seam. -/
theorem infix_join_iff (hf : f ≠ []) (parts : List Str) : f <:+: join sep parts ↔
    (∃ p ∈ parts, f <:+: p) ∨
      ∃ before p after, parts = before ++ p :: after ∧ after ≠ [] ∧
        Crosses sep p (join sep after) f := by
  induction parts with
  | nil =>
      constructor
      · intro h
        exact absurd (List.eq_nil_of_infix_nil h) hf
      · rintro (⟨p, hp, -⟩ | ⟨before, p, after, h, -⟩)
        · cases hp
        · exact absurd h (by simp)
  | cons p parts ih =>
      by_cases hparts : parts = []
      · rw [hparts, join_singleton]
        constructor
        · intro h
          exact Or.inl ⟨p, List.mem_singleton_self p, h⟩
        · rintro (⟨q, hq, h⟩ | ⟨before, q, after, h, hafter, -⟩)
          · rwa [← List.mem_singleton.1 hq]
          · -- a single part has no seam
            have hlength := congrArg List.length h
            have hpos := List.length_pos_of_ne_nil hafter
            simp only [List.length_append, List.length_cons, List.length_nil] at hlength
            omega
      · rw [join_cons sep p hparts]
        constructor
        · intro h
          rcases crosses_of_infix_append h with h | h | h
          · exact Or.inl ⟨p, List.mem_cons_self, h⟩
          · exact Or.inr ⟨[], p, parts, rfl, hparts, h⟩
          · rcases ih.1 h with ⟨q, hq, h⟩ | ⟨before, q, after, hsplit, hafter, h⟩
            · exact Or.inl ⟨q, List.mem_cons_of_mem p hq, h⟩
            · exact Or.inr ⟨p :: before, q, after, by rw [hsplit]; rfl, hafter, h⟩
        · have hlater : f <:+: join sep parts → f <:+: p ++ (sep ++ join sep parts) := fun h =>
            (h.trans (List.suffix_append _ _).isInfix).trans (List.suffix_append _ _).isInfix
          rintro (⟨q, hq, h⟩ | ⟨before, q, after, hsplit, hafter, h⟩)
          · rcases List.mem_cons.1 hq with rfl | hq
            · exact h.trans (List.prefix_append _ _).isInfix
            · exact hlater (ih.2 (Or.inl ⟨q, hq, h⟩))
          · cases before with
            | nil =>
                cases hsplit
                exact h.isInfix
            | cons b before =>
                cases hsplit
                exact hlater (ih.2 (Or.inr ⟨before, q, after, rfl, hafter, h⟩))

/-- What crosses a seam has a character of the separator. -/
theorem Crosses.exists_mem {part rest : Str} (hsep : sep ≠ []) (hf : f ≠ [])
    (h : Crosses sep part rest f) : ∃ c ∈ sep, c ∈ f := by
  rcases h with ⟨s, t, rfl, ht, -, ⟨after, hbegins⟩⟩ | ⟨m, hm, hends, ⟨after, hbegins⟩⟩
  · obtain ⟨c, t, rfl⟩ := List.exists_cons_of_ne_nil ht
    obtain ⟨d, sep, rfl⟩ := List.exists_cons_of_ne_nil hsep
    obtain rfl : c = d := (List.cons.inj hbegins).1
    exact ⟨c, List.mem_cons_self, List.mem_append_right _ List.mem_cons_self⟩
  · obtain ⟨c, f, rfl⟩ := List.exists_cons_of_ne_nil hf
    obtain ⟨d, m, rfl⟩ := List.exists_cons_of_ne_nil hm
    obtain rfl : c = d := (List.cons.inj hbegins).1
    exact ⟨c, hends.subset List.mem_cons_self, List.mem_cons_self⟩

end Seams

/-! ## Characters that are not white space -/

/-- The text without its white space. -/
def solid (s : Str) : Str := s.filter fun c => !isWhitespace c

theorem solid_append (s t : Str) : solid (s ++ t) = solid s ++ solid t := List.filter_append _ _

theorem solid_eq_nil_iff (s : Str) : solid s = [] ↔ Blank s := by
  rw [solid, List.filter_eq_nil_iff, Blank]
  refine forall₂_congr fun c _ => ?_
  rw [Bool.not_eq_true', Bool.not_eq_false]

theorem solid_trim (s : Str) : solid (trim s) = solid s := by
  obtain ⟨before, after, hbefore, hafter, hs⟩ := exists_trim s
  conv_rhs => rw [hs]
  rw [solid_append, solid_append, (solid_eq_nil_iff before).2 hbefore,
    (solid_eq_nil_iff after).2 hafter, List.nil_append, List.append_nil]

/-- Cutting at white space loses only white space. -/
theorem solid_splitOnP {p : Char → Bool} (hp : ∀ c, p c = true → isWhitespace c = true) (s : Str) :
    solid (s.splitOnP p).flatten = solid s := by
  have hcons : ∀ c t, solid (c :: t) = solid [c] ++ solid t := fun c t => solid_append [c] t
  induction s with
  | nil => rfl
  | cons c s ih =>
      rw [List.splitOnP_cons_eq_if_modifyHead]
      split_ifs with hc
      · rw [List.flatten_cons, List.nil_append, ih, solid, solid,
          List.filter_cons_of_neg (by simp [hp c hc])]
      · obtain ⟨first, parts, hparts⟩ := List.exists_cons_of_ne_nil (List.splitOnP_ne_nil p s)
        rw [hparts] at ih ⊢
        rw [List.modifyHead_cons, List.flatten_cons, List.cons_append, hcons, ← List.flatten_cons,
          ih, ← hcons]

theorem solid_splitWhitespace (s : Str) : solid (splitWhitespace s).flatten = solid s := by
  rw [splitWhitespace, List.flatten_filter_ne_nil, solid_splitOnP fun _ hc => hc]

/-- Texts cut into parts of the same characters. -/
theorem solid_flatMap {α : Type} {f : α → List Str} {g : α → Str}
    (h : ∀ a, solid (f a).flatten = solid (g a)) (l : List α) :
    solid (l.flatMap f).flatten = solid (l.map g).flatten := by
  induction l with
  | nil => rfl
  | cons a l ih =>
      rw [List.flatMap_cons, List.flatten_append, solid_append, h, ih, List.map_cons,
        List.flatten_cons, solid_append]

/-- Parts changed in white space only. -/
theorem solid_map {f : Str → Str} (h : ∀ s, solid (f s) = solid s) (parts : List Str) :
    solid (parts.map f).flatten = solid parts.flatten := by
  induction parts with
  | nil => rfl
  | cons s parts ih =>
      rw [List.map_cons, List.flatten_cons, List.flatten_cons, solid_append, solid_append, h, ih]

/-! ## Splitting at a separator -/

theorem splitStrFrom_skip (sep : Str) : ∀ (skip : Nat) (s : Str),
    splitStrFrom sep skip s = splitStrFrom sep 0 (s.drop skip)
  | 0, _ => rfl
  | _ + 1, [] => rfl
  | skip + 1, _ :: s => splitStrFrom_skip sep skip s

theorem splitStr_ne_nil (sep s : Str) : splitStr sep s ≠ [] := by
  cases s with
  | nil => exact List.cons_ne_nil _ _
  | cons c s =>
      rw [splitStr, splitStrFrom]
      split_ifs
      · exact List.cons_ne_nil _ _
      · rw [Ne, List.modifyHead_eq_nil_iff]
        exact splitStr_ne_nil sep s

/-- A text without the separator is one part. -/
theorem splitStr_of_free {sep s : Str} (h : ¬ sep <:+: s) : splitStr sep s = [s] := by
  induction s with
  | nil => rfl
  | cons c s ih =>
      rw [List.infix_cons_iff, not_or] at h
      have hs : splitStrFrom sep 0 s = [s] := ih h.2
      rw [splitStr, splitStrFrom, if_neg h.1, hs]
      rfl

/-- The parts of a text that is cut at a separator, from the left: each cut is at the first place
where the separator stands in what is left of the text. -/
inductive CutAt (sep : Str) : Str → List Str → Prop
  | whole {s : Str} (free : ¬ sep <:+: s) : CutAt sep s [s]
  | cut {s before after : Str} {parts : List Str} (here : s = before ++ (sep ++ after))
      (first : ¬ sep <:+: before ++ sep.dropLast) (rest : CutAt sep after parts) :
      CutAt sep s (before :: parts)

section CutAt

variable {sep : Str}

theorem not_infix_nil (hsep : sep ≠ []) : ¬ sep <:+: ([] : Str) := fun h =>
  hsep (List.eq_nil_of_infix_nil h)

theorem not_infix_dropLast (hsep : sep ≠ []) : ¬ sep <:+: sep.dropLast := by
  intro h
  have hlen := h.length_le
  rw [List.length_dropLast] at hlen
  have hpos := List.length_pos_of_ne_nil hsep
  omega

/-- No separator stands here: the first part of the rest grows by one character. -/
theorem CutAt.keep {s : Str} {parts : List Str} {c : Char} (hnot : ¬ sep <+: c :: s)
    (h : CutAt sep s parts) : CutAt sep (c :: s) (parts.modifyHead (c :: ·)) := by
  cases h with
  | whole free =>
      apply CutAt.whole
      rw [List.infix_cons_iff, not_or]
      exact ⟨hnot, free⟩
  | cut here first rest =>
      rename_i before after parts
      have hbegins : c :: (before ++ sep.dropLast) <+: c :: s := by
        rw [here, List.prefix_cons_inj, List.prefix_append_right_inj]
        exact (List.dropLast_prefix sep).trans (List.prefix_append sep after)
      refine CutAt.cut (congrArg (c :: ·) here) ?_ rest
      rw [List.cons_append, List.infix_cons_iff, not_or]
      exact ⟨fun hpre => hnot (hpre.trans hbegins), first⟩

theorem splitStr_append (hsep : sep ≠ []) (after : Str) : ∀ before : Str,
    ¬ sep <:+: before ++ sep.dropLast →
      splitStr sep (before ++ (sep ++ after)) = before :: splitStr sep after
  | [], _ => by
      obtain ⟨c, rest, rfl⟩ := List.exists_cons_of_ne_nil hsep
      have hbegins : c :: rest <+: c :: (rest ++ after) := List.prefix_append (c :: rest) after
      rw [List.nil_append, List.cons_append, splitStr, splitStrFrom, if_pos hbegins,
        splitStrFrom_skip, List.length_cons, Nat.add_sub_cancel, List.drop_left]
      rfl
  | c :: before, hfirst => by
      rw [List.cons_append, List.infix_cons_iff, not_or] at hfirst
      have hnot : ¬ sep <+: c :: (before ++ (sep ++ after)) := by
        intro hpre
        apply hfirst.1
        refine List.prefix_of_prefix_length_le hpre ?_ ?_
        · rw [List.prefix_cons_inj, List.prefix_append_right_inj]
          exact (List.dropLast_prefix sep).trans (List.prefix_append sep after)
        · rw [List.length_cons, List.length_append, List.length_dropLast]
          omega
      have hrest := splitStr_append hsep after before hfirst.2
      rw [splitStr] at hrest
      rw [List.cons_append, splitStr, splitStrFrom, if_neg hnot, hrest]
      rfl

theorem CutAt.eq_splitStr (hsep : sep ≠ []) {s : Str} {parts : List Str} (h : CutAt sep s parts) :
    parts = splitStr sep s := by
  induction h with
  | whole free => exact (splitStr_of_free free).symm
  | cut here first rest ih => rw [here, splitStr_append hsep _ _ first, ih]

theorem splitStr_cutAt_of_length_le (hsep : sep ≠ []) (n : Nat) :
    ∀ s : Str, s.length ≤ n → CutAt sep s (splitStr sep s) := by
  induction n with
  | zero =>
      intro s hs
      rw [List.length_eq_zero_iff.1 (Nat.le_zero.1 hs)]
      exact CutAt.whole (not_infix_nil hsep)
  | succ n ih =>
      intro s hs
      cases s with
      | nil => exact CutAt.whole (not_infix_nil hsep)
      | cons c s =>
          have hs : s.length ≤ n := Nat.le_of_succ_le_succ hs
          by_cases hfound : sep <+: c :: s
          · obtain ⟨after, hafter⟩ := hfound
            have hlen : after.length ≤ n := by
              have hsum := congrArg List.length hafter
              have hpos := List.length_pos_of_ne_nil hsep
              rw [List.length_append, List.length_cons] at hsum
              omega
            have hnone : ¬ sep <:+: [] ++ sep.dropLast := not_infix_dropLast hsep
            rw [← hafter, ← List.nil_append (sep ++ after), splitStr_append hsep after [] hnone]
            exact CutAt.cut rfl hnone (ih after hlen)
          · have hkept := (ih s hs).keep hfound
            rwa [splitStr, splitStrFrom, if_neg hfound]

/-- Splitting is the only way to cut a text at a separator. -/
theorem cutAt_iff (hsep : sep ≠ []) {s : Str} {parts : List Str} :
    CutAt sep s parts ↔ splitStr sep s = parts := by
  constructor
  · intro h
    exact (h.eq_splitStr hsep).symm
  · rintro rfl
    exact splitStr_cutAt_of_length_le hsep s.length s le_rfl

/-- Parts of a text: no separator occurs in them, each is found in the text, and the first begins
it. -/
structure Parts (sep s : Str) (parts : List Str) : Prop where
  free : ∀ p ∈ parts, ¬ sep <:+: p
  found : ∀ p ∈ parts, p <:+: s
  begins : ∀ p ∈ parts.head?, p <+: s

theorem CutAt.parts {s : Str} {parts : List Str} (h : CutAt sep s parts) : Parts sep s parts := by
  induction h with
  | @whole s free =>
      constructor
      · intro p hp
        rwa [List.mem_singleton.1 hp]
      · intro p hp
        rw [List.mem_singleton.1 hp]
      · intro p hp
        cases hp
        exact List.prefix_refl s
  | @cut s before after parts here first rest ih =>
      have hbefore : before <+: s := here ▸ List.prefix_append before _
      have hafter : after <:+ s := by
        rw [here, ← List.append_assoc]
        exact List.suffix_append _ after
      constructor
      · intro p hp
        rcases List.mem_cons.1 hp with rfl | hp
        · exact fun hin => first (hin.trans (List.prefix_append _ _).isInfix)
        · exact ih.free p hp
      · intro p hp
        rcases List.mem_cons.1 hp with rfl | hp
        · exact hbefore.isInfix
        · exact (ih.found p hp).trans hafter.isInfix
      · intro p hp
        cases hp
        exact hbefore

theorem splitStr_parts (hsep : sep ≠ []) (s : Str) : Parts sep s (splitStr sep s) :=
  ((cutAt_iff hsep).2 rfl).parts

end CutAt

/-! ## Lower case by words -/

variable (U : UnicodeTables)

/-- A character that is its own lower case and hides what stands behind it from the sigma rule. -/
structure Barrier (c : Char) : Prop where
  ignorable : U.caseIgnorable c = false
  cased : U.cased c = false
  lower : U.lower c = [c]
  ne_sigma : c ≠ 'Σ'

theorem ne_sigma_of_whitespace {c : Char} (hc : isWhitespace c = true) : c ≠ 'Σ' := by
  rintro rfl
  exact absurd hc (by decide)

theorem barrier_whitespace {c : Char} (hc : isWhitespace c = true) : Barrier U c where
  ignorable := U.caseIgnorable_whitespace c hc
  cased := U.cased_whitespace c hc
  lower := U.lower_whitespace c hc
  ne_sigma := ne_sigma_of_whitespace hc

variable {U} in
theorem Barrier.caseIgnorableThenCased {c : Char} (hc : Barrier U c) (s t : Str) :
    caseIgnorableThenCased U (s ++ c :: t) = Text.caseIgnorableThenCased U s := by
  induction s with
  | nil =>
      simp [Text.caseIgnorableThenCased, hc.ignorable, hc.cased]
  | cons d s ih =>
      by_cases hd : U.caseIgnorable d = true
      · simpa [Text.caseIgnorableThenCased, hd] using ih
      · simp [Text.caseIgnorableThenCased, hd]

variable {U} in
theorem Barrier.toLowercaseFrom_before {c : Char} (hc : Barrier U c) (t b' : Str) :
    ∀ b, toLowercaseFrom U (b ++ c :: b') t = toLowercaseFrom U b t := by
  induction t with
  | nil =>
      intro _
      rfl
  | cons d t ih =>
      intro b
      -- the only place where the text before matters is the rule for a final sigma
      rw [toLowercaseFrom, toLowercaseFrom, lowerSigma, lowerSigma,
        hc.caseIgnorableThenCased b b', ← List.cons_append, ih (d :: b)]

variable {U} in
/-- A barrier separates what is put to lower case. -/
theorem Barrier.toLowercaseFrom_append {c : Char} (hc : Barrier U c) (s t : Str) :
    ∀ b, toLowercaseFrom U b (s ++ c :: t) =
      toLowercaseFrom U b s ++ c :: toLowercaseFrom U [] t := by
  induction s with
  | nil =>
      intro b
      have hbefore := hc.toLowercaseFrom_before t b []
      rw [List.nil_append] at hbefore
      conv_lhs =>
        rw [List.nil_append, toLowercaseFrom, if_neg hc.ne_sigma, hc.lower, hbefore]
      rfl
  | cons d s ih =>
      intro b
      rw [List.cons_append, toLowercaseFrom, toLowercaseFrom, lowerSigma, lowerSigma,
        hc.caseIgnorableThenCased s t, ih (d :: b), List.append_assoc]

variable {U} in
theorem Barrier.toLowercase_append {c : Char} (hc : Barrier U c) (s t : Str) :
    toLowercase U (s ++ c :: t) = toLowercase U s ++ c :: toLowercase U t :=
  hc.toLowercaseFrom_append s t []

/-- White space separates what is put to lower case. -/
theorem toLowercase_append (s t : Str) {c : Char} (hc : isWhitespace c = true) :
    toLowercase U (s ++ c :: t) = toLowercase U s ++ c :: toLowercase U t :=
  (barrier_whitespace U hc).toLowercase_append s t

/-- A character of the lower case comes from a character of the text, or is a small sigma. -/
theorem exists_of_mem_toLowercaseFrom {d : Char} (s : Str) : ∀ b, d ∈ toLowercaseFrom U b s →
    (∃ c ∈ s, d ∈ U.lower c) ∨ d = 'ς' ∨ d = 'σ' := by
  induction s with
  | nil =>
      intro b hd
      cases hd
  | cons c s ih =>
      intro b hd
      rw [toLowercaseFrom, List.mem_append] at hd
      rcases hd with hd | hd
      · split_ifs at hd with hsigma
        · right
          rw [List.mem_singleton.1 hd, lowerSigma]
          split_ifs
          · exact Or.inl rfl
          · exact Or.inr rfl
        · exact Or.inl ⟨c, List.mem_cons_self, hd⟩
      · rcases ih _ hd with ⟨c', hc', hd⟩ | hd
        · exact Or.inl ⟨c', List.mem_cons_of_mem c hc', hd⟩
        · exact Or.inr hd

/-- Text that ASCII calls lower case stays. -/
theorem toLowercase_ascii {w : Str} (hw : ∀ c ∈ w, c.toNat < 128 ∧ c.toLower = c) :
    toLowercase U w = w := by
  have hfrom : ∀ b, toLowercaseFrom U b w = w := by
    induction w with
    | nil =>
        intro _
        rfl
    | cons c w ih =>
        intro b
        obtain ⟨hascii, hlower⟩ := hw c List.mem_cons_self
        have hsigma : c ≠ 'Σ' := by
          rintro rfl
          exact absurd hascii (by decide)
        rw [toLowercaseFrom, if_neg hsigma, U.lower_ascii c hascii, hlower,
          ih (fun d hd => hw d (List.mem_cons_of_mem c hd)) (c :: b)]
        rfl
  exact hfrom []

end AnyPlayerSync.Foundation.Text
