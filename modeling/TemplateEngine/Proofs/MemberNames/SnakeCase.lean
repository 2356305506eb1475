import TemplateEngine.Text.SnakeCase

/-!
# Member names by one local rule

A local rule says for every character what is written for it, from the character before it and the
one behind it (`rewriteBy`). Each of the three passes over a member name is one: whatever a match
takes away from the ones that could follow, it begins and ends at places where the rule does not
put an underscore anyway.

* `replaceAll_acronym` — an underscore before a capital between a capital and a small letter.
* `replaceAll_wordBoundary` — an underscore before a capital behind a small letter or a digit.
* `replaceAll_separators` — an underscore for the first of neighbouring separators, and nothing for
  the others.

Three passes over a name, each of which replaces what the one before has written, come to the same
as one look at every character and its two neighbours in the name itself (`nameRule`). An underscore
that a pass puts in lies between characters that no later pass would part or join. What the rule
writes is left alone by the rule, and it drops nothing but hyphens and blanks.

* `snakeCase_is_local` — for every name in ASCII.
-/

namespace TemplateEngine.Text

open Pattern

/-! ## Local rules -/

/-- Writes for every character of a text, with another one `before` it, what a rule says that sees
its neighbours. -/
def rewriteBy (rule : Option Char → Char → Option Char → List Char) (before : Option Char) :
    List Char → List Char
  | [] => []
  | c :: rest => rule before c rest.head? ++ rewriteBy rule (some c) rest

/-- A capital between a capital and a small letter. -/
def splitsAcronym (before : Option Char) (c : Char) (after : Option Char) : Bool :=
  before.any isCapital && isCapital c && after.any isSmall

/-- A capital behind a small letter or a digit. -/
def splitsWord (before : Option Char) (c : Char) : Bool :=
  before.any isSmallOrDigit && isCapital c

def acronymRule (before : Option Char) (c : Char) (after : Option Char) : List Char :=
  if splitsAcronym before c after then ['_', c] else [c]

def wordRule (before : Option Char) (c : Char) (_ : Option Char) : List Char :=
  if splitsWord before c then ['_', c] else [c]

def separatorRule (before : Option Char) (c : Char) (_ : Option Char) : List Char :=
  if isSeparator c then if before.any isSeparator then [] else ['_'] else [c]

/-- Replacing all matches is a local rule if each match is written as the rule writes it and each
character outside of matches stays. Both are asked for only where the rule is quiet, which is how
the text behind a match or a character has to be again. -/
theorem replaceAll_eq_rewriteBy {p : Pattern} {replacement : List Replacement}
    {rule : Option Char → Char → Option Char → List Char} (Quiet : Option Char → List Char → Prop)
    (hmatch : ∀ before text m, Quiet before text → p.match? text = some m →
      ∃ last, rewriteBy rule before text =
        replacement.flatMap (·.expand m) ++ rewriteBy rule (some last) m.rest ∧
          Quiet (some last) m.rest)
    (hnone : ∀ before c rest, Quiet before (c :: rest) → p.match? (c :: rest) = none →
      rule before c rest.head? = [c] ∧ Quiet (some c) rest)
    (text : List Char) (before : Option Char) (hquiet : Quiet before text) :
    p.replaceAll replacement text = rewriteBy rule before text := by
  induction hn : text.length using Nat.strongRecOn generalizing text before with
  | ind n ih =>
    cases h : p.match? text with
    | some m =>
      obtain ⟨last, hwrites, hrest⟩ := hmatch before text m hquiet h
      obtain ⟨hne, htext⟩ := text_of_mem_ways (mem_ways_of_match? h)
      have hlength : m.rest.length < n := by
        have := List.length_pos_iff.2 hne
        rw [← hn, htext, List.length_append]
        omega
      rw [replaceAll_of_match? h, ih _ hlength m.rest (some last) hrest rfl, hwrites]
    | none =>
      cases text with
      | nil => simp [rewriteBy]
      | cons c rest =>
        obtain ⟨hwrites, hrest⟩ := hnone before c rest hquiet h
        have hlength : rest.length < n := by simp [← hn]
        rw [replaceAll_cons_of_match?_eq_none h, ih _ hlength rest (some c) hrest rfl, rewriteBy,
          hwrites]
        rfl

/-! ## Classes of characters -/

theorem isCapital_iff {c : Char} : isCapital c = true ↔ 65 ≤ c.toNat ∧ c.toNat ≤ 90 := by
  simp [isCapital, Char.le_def, UInt32.le_iff_toNat_le]

theorem isSmall_iff {c : Char} : isSmall c = true ↔ 97 ≤ c.toNat ∧ c.toNat ≤ 122 := by
  simp [isSmall, Char.le_def, UInt32.le_iff_toNat_le]

/-- Apart from the hyphen, no printable character of ASCII separates. -/
theorem isSeparator_eq_false {c : Char} (h : 45 < c.toNat) (h' : c.toNat < 128) :
    isSeparator c = false := by
  have hc : c ≠ '-' := by
    rintro rfl
    exact absurd h (by decide)
  simp [isSeparator, isBlank, hc]
  omega

section

variable {c : Char} (h : isCapital c = true)

include h

theorem isSmall_of_isCapital : isSmall c = false := by
  rw [← Bool.not_eq_true, isSmall_iff]
  have := isCapital_iff.1 h
  omega

theorem isSmallOrDigit_of_isCapital : isSmallOrDigit c = false := by
  rw [isSmallOrDigit, isSmall_of_isCapital h, Bool.false_or, ← Bool.not_eq_true]
  intro hdigit
  have hdigit : 48 ≤ c.toNat ∧ c.toNat ≤ 57 := Char.isDigit_iff_toNat.1 hdigit
  have hcapital := isCapital_iff.1 h
  omega

theorem isSeparator_of_isCapital : isSeparator c = false := by
  have := isCapital_iff.1 h
  exact isSeparator_eq_false (by omega) (by omega)

end

theorem isCapital_of_isSmall {c : Char} (h : isSmall c = true) : isCapital c = false := by
  rw [← Bool.not_eq_true]
  intro hc
  rw [isSmall_of_isCapital hc] at h
  cases h

theorem isCapital_of_isSmallOrDigit {c : Char} (h : isSmallOrDigit c = true) :
    isCapital c = false := by
  rw [← Bool.not_eq_true]
  intro hc
  rw [isSmallOrDigit_of_isCapital hc] at h
  cases h

/-! ## Acronyms -/

/-- An acronym is met by capitals, of which there is at least one, a capital and a small letter. -/
theorem mem_ways_acronym {text : List Char} {m : Match} :
    m ∈ acronym.ways text ↔ ∃ u d e, u ≠ [] ∧ (∀ c ∈ u, isCapital c) ∧ isCapital d ∧ isSmall e ∧
      text = u ++ d :: e :: m.rest ∧ m = ⟨u ++ [d, e], [u, [d, e]], m.rest⟩ := by
  constructor
  · intro h
    obtain ⟨first, hfirst, second, hsecond, rfl⟩ := mem_ways_seq.1 h
    obtain ⟨a, ha, rfl⟩ := mem_ways_group.1 hfirst
    obtain ⟨hne, hall, hgroups, htext⟩ := mem_runs_iff.1 ha
    obtain ⟨b, hb, rfl⟩ := mem_ways_group.1 hsecond
    obtain ⟨x, hx, y, hy, rfl⟩ := mem_ways_seq.1 hb
    obtain ⟨d, hd, hrest, hx⟩ := mem_ways_one.1 hx
    obtain ⟨e, he, hrest', hy⟩ := mem_ways_one.1 hy
    refine ⟨a.taken, d, e, hne, hall, hd, he, ?_, ?_⟩
    · exact htext.trans (congrArg (a.taken ++ ·) (hrest.trans (congrArg (d :: ·) hrest')))
    · rw [hx, hy, hgroups]
      rfl
  · rintro ⟨u, d, e, hne, hall, hd, he, rfl, hm⟩
    have hd' : ⟨[d], [], e :: m.rest⟩ ∈ (one isCapital).ways (d :: e :: m.rest) :=
      mem_ways_one.2 ⟨d, hd, rfl, rfl⟩
    have he' : ⟨[e], [], m.rest⟩ ∈ (one isSmall).ways (e :: m.rest) :=
      mem_ways_one.2 ⟨e, he, rfl, rfl⟩
    have hu : ⟨u, [], d :: e :: m.rest⟩ ∈ (many isCapital).ways (u ++ d :: e :: m.rest) :=
      mem_runs_iff.2 ⟨hne, hall, rfl, rfl⟩
    have hword := mem_ways_group.2 ⟨_, mem_ways_seq.2 ⟨_, hd', _, he', rfl⟩, rfl⟩
    exact mem_ways_seq.2 ⟨_, mem_ways_group.2 ⟨_, hu, rfl⟩, _, hword, hm⟩

/-- In an acronym the rule puts one underscore, before the last capital. -/
theorem rewriteBy_acronym {u rest : List Char} {d e : Char} (before : Option Char)
    (hne : u ≠ []) (hu : ∀ c ∈ u, isCapital c) (hd : isCapital d) (he : isSmall e) :
    rewriteBy acronymRule before (u ++ d :: e :: rest) =
      u ++ '_' :: d :: e :: rewriteBy acronymRule (some e) rest := by
  induction u generalizing before with
  | nil => exact absurd rfl hne
  | cons c u ih =>
    have hc : isCapital c := hu c List.mem_cons_self
    cases u with
    | nil =>
      have hc' : isSmall d = false := isSmall_of_isCapital hd
      have he' : isCapital e = false := isCapital_of_isSmall he
      simp [rewriteBy, acronymRule, splitsAcronym, hc, hd, he, hc', he']
    | cons b u =>
      have hb : isSmall b = false := isSmall_of_isCapital (hu b (by simp))
      have hrest := ih (some c) (List.cons_ne_nil _ _) fun x hx => hu x (List.mem_cons_of_mem _ hx)
      rw [List.cons_append, rewriteBy, hrest]
      simp [acronymRule, splitsAcronym, hb]

/-- The first pass. -/
theorem replaceAll_acronym (text : List Char) :
    acronym.replaceAll parted text = rewriteBy acronymRule none text := by
  refine replaceAll_eq_rewriteBy
    (fun before text => ∀ c rest, text = c :: rest → splitsAcronym before c rest.head? = false)
    ?_ ?_ text none fun _ _ _ => rfl
  · intro before text m _ hmatch
    obtain ⟨u, d, e, hne, hu, hd, he, htext, hm⟩ :=
      mem_ways_acronym.1 (mem_ways_of_match? hmatch)
    refine ⟨e, ?_, fun c rest _ => by simp [splitsAcronym, isCapital_of_isSmall he]⟩
    rw [htext, rewriteBy_acronym before hne hu hd he, hm]
    simp [parted, Replacement.expand]
  · intro before c rest hquiet hnone
    refine ⟨by simp [acronymRule, hquiet c rest rfl], fun d tail htail => ?_⟩
    -- otherwise the text would begin with an acronym of one capital
    rw [← Bool.not_eq_true]
    intro hsplits
    simp only [splitsAcronym, Option.any_some, Bool.and_eq_true] at hsplits
    obtain ⟨⟨hc, hd⟩, he⟩ := hsplits
    cases tail with
    | nil => cases he
    | cons e tail =>
      refine match?_eq_none_iff.1 hnone ⟨[c, d, e], [[c], [d, e]], tail⟩
        (mem_ways_acronym.2 ⟨[c], d, e, List.cons_ne_nil _ _, ?_, hd, he, ?_, rfl⟩)
      · simpa using hc
      · rw [htail]
        rfl

/-! ## Words -/

/-- The end of a word is met by a small letter or a digit and a capital. -/
theorem mem_ways_wordBoundary {text : List Char} {m : Match} :
    m ∈ wordBoundary.ways text ↔ ∃ c d, isSmallOrDigit c ∧ isCapital d ∧
      text = c :: d :: m.rest ∧ m = ⟨[c, d], [[c], [d]], m.rest⟩ := by
  constructor
  · intro h
    obtain ⟨first, hfirst, second, hsecond, rfl⟩ := mem_ways_seq.1 h
    obtain ⟨a, ha, rfl⟩ := mem_ways_group.1 hfirst
    obtain ⟨b, hb, rfl⟩ := mem_ways_group.1 hsecond
    obtain ⟨c, hc, htext, ha⟩ := mem_ways_one.1 ha
    obtain ⟨d, hd, hrest, hb⟩ := mem_ways_one.1 hb
    refine ⟨c, d, hc, hd, htext.trans (congrArg (c :: ·) hrest), ?_⟩
    rw [ha, hb]
    rfl
  · rintro ⟨c, d, hc, hd, rfl, hm⟩
    have hc' : ⟨[c], [], d :: m.rest⟩ ∈ (one isSmallOrDigit).ways (c :: d :: m.rest) :=
      mem_ways_one.2 ⟨c, hc, rfl, rfl⟩
    have hd' : ⟨[d], [], m.rest⟩ ∈ (one isCapital).ways (d :: m.rest) :=
      mem_ways_one.2 ⟨d, hd, rfl, rfl⟩
    exact mem_ways_seq.2 ⟨_, mem_ways_group.2 ⟨_, hc', rfl⟩, _, mem_ways_group.2 ⟨_, hd', rfl⟩, hm⟩

/-- The second pass. -/
theorem replaceAll_wordBoundary (text : List Char) :
    wordBoundary.replaceAll parted text = rewriteBy wordRule none text := by
  refine replaceAll_eq_rewriteBy
    (fun before text => ∀ c rest, text = c :: rest → splitsWord before c = false)
    ?_ ?_ text none fun _ _ _ => rfl
  · intro before text m _ hmatch
    obtain ⟨c, d, hc, hd, htext, hm⟩ := mem_ways_wordBoundary.1 (mem_ways_of_match? hmatch)
    have hc' := isCapital_of_isSmallOrDigit hc
    have hd' := isSmallOrDigit_of_isCapital hd
    refine ⟨d, ?_, fun _ _ _ => by simp [splitsWord, hd']⟩
    rw [htext, hm]
    simp [rewriteBy, wordRule, splitsWord, hc, hd, hc', parted, Replacement.expand]
  · intro before c rest hquiet hnone
    refine ⟨by simp [wordRule, hquiet c rest rfl], fun d tail htail => ?_⟩
    rw [← Bool.not_eq_true]
    intro hsplits
    simp only [splitsWord, Option.any_some, Bool.and_eq_true] at hsplits
    refine match?_eq_none_iff.1 hnone ⟨[c, d], [[c], [d]], tail⟩
      (mem_ways_wordBoundary.2 ⟨c, d, hsplits.1, hsplits.2, ?_, rfl⟩)
    rw [htail]

/-! ## Separators -/

/-- Behind a separator the others of its run are passed over. -/
theorem rewriteBy_separators {before : Char} (h : isSeparator before) (text : List Char) :
    ∃ last, rewriteBy separatorRule (some before) text =
      rewriteBy separatorRule (some last) (text.dropWhile isSeparator) := by
  induction text generalizing before with
  | nil => exact ⟨before, rfl⟩
  | cons c rest ih =>
    cases hc : isSeparator c with
    | false => exact ⟨before, by simp [hc]⟩
    | true =>
      obtain ⟨last, hlast⟩ := ih hc
      refine ⟨last, ?_⟩
      rw [rewriteBy, hlast]
      simp [separatorRule, h, hc]

/-- The third pass. -/
theorem replaceAll_separators (text : List Char) :
    separators.replaceAll [.text "_"] text = rewriteBy separatorRule none text := by
  refine replaceAll_eq_rewriteBy
    (fun before text =>
      ∀ c rest, text = c :: rest → (before.any isSeparator && isSeparator c) = false)
    ?_ ?_ text none fun _ _ _ => rfl
  · intro before text m hquiet hmatch
    obtain ⟨htaken, hrest⟩ := match?_many hmatch
    obtain ⟨hne, -⟩ := text_of_mem_ways (mem_ways_of_match? hmatch)
    cases text with
    | nil => exact absurd htaken hne
    | cons c rest =>
      have hc : isSeparator c = true := by
        rw [← Bool.not_eq_false]
        intro hc
        simp [htaken, hc] at hne
      obtain ⟨last, hlast⟩ := rewriteBy_separators hc rest
      have hbefore : before.any isSeparator = false := by simpa [hc] using hquiet c rest rfl
      refine ⟨last, ?_, fun d tail htail => ?_⟩
      · rw [rewriteBy, hlast, hrest]
        simp [separatorRule, hc, hbefore, Replacement.expand]
      · have hd := List.head?_dropWhile_not isSeparator (c :: rest)
        rw [← hrest, htail] at hd
        simpa using fun _ => hd
  · intro before c rest _ hnone
    have hc : isSeparator c = false := by
      rw [← Bool.not_eq_true]
      intro hc
      exact match?_eq_none_iff.1 hnone ⟨[c], [], rest⟩
        (mem_runs_iff.2 ⟨List.cons_ne_nil _ _, by simpa using hc, rfl, rfl⟩)
    exact ⟨by simp [separatorRule, hc], fun d tail _ => by simp [hc]⟩

/-! ## The rule of names -/

/-- An underscore before every capital that begins a word. -/
def partRule (before : Option Char) (c : Char) (after : Option Char) : List Char :=
  if splitsWord before c || splitsAcronym before c after then ['_', c] else [c]

/-- What one look at a character and its neighbours writes: an underscore for the first of
neighbouring separators, an underscore before a capital that begins a word, and all else in small
letters. -/
def nameRule (before : Option Char) (c : Char) (after : Option Char) : List Char :=
  if isSeparator c then if before.any isSeparator then [] else ['_']
  else if splitsWord before c || splitsAcronym before c after then ['_', c.toLower]
  else [c.toLower]

/-- The character stays in a name, if only as a small letter. -/
def staysInName (c : Char) : Bool := c ≠ '_' && !isSeparator c

/-! ## One pass for three -/

/-- An underscore of the first pass stands between two capitals, where the second one puts none. -/
theorem wordRule_acronymRule (text : List Char) (before : Option Char) :
    rewriteBy wordRule before (rewriteBy acronymRule before text) =
      rewriteBy partRule before text := by
  induction text generalizing before with
  | nil => rfl
  | cons c rest ih =>
    rw [rewriteBy, rewriteBy, partRule, ← ih (some c)]
    cases hsplits : splitsAcronym before c rest.head? with
    | false => simp [acronymRule, hsplits, rewriteBy, wordRule]
    | true =>
      have hbefore : splitsWord before '_' = false := by simp [splitsWord, isCapital]
      have hbehind : splitsWord (some '_') c = false := by
        simp [splitsWord, isSmallOrDigit, isSmall]
      simp [acronymRule, hsplits, rewriteBy, wordRule, hbefore, hbehind]

/-- An underscore of the first two passes stands before a capital, which is no separator. -/
theorem separatorRule_partRule (text : List Char) (before : Option Char) :
    (rewriteBy separatorRule before (rewriteBy partRule before text)).map Char.toLower =
      rewriteBy nameRule before text := by
  induction text generalizing before with
  | nil => rfl
  | cons c rest ih =>
    rw [rewriteBy, rewriteBy, ← ih (some c), partRule, nameRule]
    cases hc : isSeparator c with
    | true =>
      have hcapital : isCapital c = false := by
        rw [← Bool.not_eq_true]
        intro h
        rw [isSeparator_of_isCapital h] at hc
        cases hc
      simp [splitsWord, splitsAcronym, hcapital, rewriteBy, separatorRule, hc]
      split <;> rfl
    | false =>
      have hunderscore : isSeparator '_' = false := by decide
      split
      · simp [rewriteBy, separatorRule, hc, hunderscore]
      · simp [rewriteBy, separatorRule, hc]

/-! ## ASCII -/

/-- Small letters of ASCII, and all else that small letters leave as it is. -/
theorem toLower_of_ascii {c : Char} (h : c.toNat < 128) :
    c.toLower.toNat < 128 ∧ isCapital c.toLower = false ∧
      (isCapital c = false → c.toLower = c) ∧ isSeparator c.toLower = isSeparator c ∧
      (c.toLower = '_' ↔ c = '_') := by
  have hall : ∀ n < 128, (Char.ofNat n).toLower.toNat < 128 ∧
      isCapital (Char.ofNat n).toLower = false ∧
      (isCapital (Char.ofNat n) = false → (Char.ofNat n).toLower = Char.ofNat n) ∧
      isSeparator (Char.ofNat n).toLower = isSeparator (Char.ofNat n) ∧
      ((Char.ofNat n).toLower = '_' ↔ Char.ofNat n = '_') := by decide
  simpa using hall c.toNat h

theorem lower_of_ascii {text : List Char} (h : ∀ c ∈ text, c.toNat < 128) :
    lower text = text.map Char.toLower := by
  have hafter (seen : List Char) : lowerAfter seen text = text.map Char.toLower := by
    induction text generalizing seen with
    | nil => rfl
    | cons c rest ih =>
      have hc : c.toNat < 128 := h c List.mem_cons_self
      have hsigma : c ≠ 'Σ' := by
        rintro rfl
        exact absurd hc (by decide)
      rw [lowerAfter, ih fun d hd => h d (List.mem_cons_of_mem _ hd)]
      simp [hsigma, small, hc]
  exact hafter []

/-- What a rule writes for every character of a text, all the text written by it is. -/
theorem forall_mem_rewriteBy {rule : Option Char → Char → Option Char → List Char}
    {P Q : Char → Prop} (hrule : ∀ before c after, P c → ∀ d ∈ rule before c after, Q d)
    {text : List Char} (h : ∀ c ∈ text, P c) (before : Option Char) :
    ∀ d ∈ rewriteBy rule before text, Q d := by
  induction text generalizing before with
  | nil => exact fun d hd => absurd hd List.not_mem_nil
  | cons c rest ih =>
    intro d hd
    rcases List.mem_append.1 hd with hd | hd
    · exact hrule before c rest.head? (h c List.mem_cons_self) d hd
    · exact ih (fun e he => h e (List.mem_cons_of_mem _ he)) (some c) d hd

/-! ## What the rule writes -/

section

variable {text : List Char} (before : Option Char)

/-- No capitals and no separators are written. -/
theorem plain_nameRule (h : ∀ c ∈ text, c.toNat < 128) :
    ∀ d ∈ rewriteBy nameRule before text,
      d.toNat < 128 ∧ isCapital d = false ∧ isSeparator d = false := by
  refine forall_mem_rewriteBy (fun before c after hc d hd => ?_) h before
  obtain ⟨hascii, hcapital, -, hseparator, -⟩ := toLower_of_ascii hc
  have hunderscore :
      ('_' : Char).toNat < 128 ∧ isCapital '_' = false ∧ isSeparator '_' = false := by decide
  rw [nameRule] at hd
  split at hd
  · split at hd
    · cases hd
    · exact List.mem_singleton.1 hd ▸ hunderscore
  · next hc =>
    have hlower : c.toLower.toNat < 128 ∧ isCapital c.toLower = false ∧
        isSeparator c.toLower = false :=
      ⟨hascii, hcapital, hseparator.trans (Bool.not_eq_true _ ▸ hc)⟩
    split at hd
    · rcases List.mem_cons.1 hd with rfl | hd
      · exact hunderscore
      · exact List.mem_singleton.1 hd ▸ hlower
    · exact List.mem_singleton.1 hd ▸ hlower

/-- Where there are no capitals and no separators, nothing is changed. -/
theorem rewriteBy_nameRule_of_plain
    (h : ∀ c ∈ text, c.toNat < 128 ∧ isCapital c = false ∧ isSeparator c = false) :
    rewriteBy nameRule before text = text := by
  induction text generalizing before with
  | nil => rfl
  | cons c rest ih =>
    obtain ⟨hascii, hcapital, hseparator⟩ := h c List.mem_cons_self
    rw [rewriteBy, ih (some c) fun d hd => h d (List.mem_cons_of_mem _ hd), nameRule,
      (toLower_of_ascii hascii).2.2.1 hcapital]
    simp [hseparator, splitsWord, splitsAcronym, hcapital]

/-- Whatever is no underscore and no separator is kept in its place. -/
theorem filter_nameRule (h : ∀ c ∈ text, c.toNat < 128) :
    (rewriteBy nameRule before text).filter staysInName =
      (text.filter staysInName).map Char.toLower := by
  induction text generalizing before with
  | nil => rfl
  | cons c rest ih =>
    obtain ⟨-, -, -, hseparator, hunderscore⟩ := toLower_of_ascii (h c List.mem_cons_self)
    have hstays : staysInName c.toLower = staysInName c := by
      simp only [staysInName, ne_eq, hunderscore, hseparator]
    have hfilter : (nameRule before c rest.head?).filter staysInName =
        if staysInName c then [c.toLower] else [] := by
      have hdrop : staysInName '_' = false := by decide
      rw [nameRule]
      split
      · next hc =>
        have hc' : staysInName c = false := by simp [staysInName, hc]
        split <;> simp [hdrop, hc']
      · split <;> cases hs : staysInName c <;> simp [hdrop, hstays, hs]
    have hrest := ih (some c) fun d hd => h d (List.mem_cons_of_mem _ hd)
    rw [rewriteBy, List.filter_append, hfilter, hrest]
    cases hs : staysInName c <;> simp [hs]

end

/-- A name in ASCII is written character by character. -/
theorem toList_snakeCase {name : String} (h : ∀ c ∈ name.toList, c.toNat < 128) :
    (snakeCase name).toList = rewriteBy nameRule none name.toList := by
  have hpart : ∀ d ∈ rewriteBy partRule none name.toList, d.toNat < 128 := by
    refine forall_mem_rewriteBy (fun before c after hc d hd => ?_) h none
    rw [partRule] at hd
    split at hd
    · rcases List.mem_cons.1 hd with rfl | hd
      · decide
      · exact List.mem_singleton.1 hd ▸ hc
    · exact List.mem_singleton.1 hd ▸ hc
  have hseparated :
      ∀ d ∈ rewriteBy separatorRule none (rewriteBy partRule none name.toList), d.toNat < 128 := by
    refine forall_mem_rewriteBy (fun before c after hc d hd => ?_) hpart none
    rw [separatorRule] at hd
    split at hd
    · split at hd
      · cases hd
      · exact List.mem_singleton.1 hd ▸ by decide
    · exact List.mem_singleton.1 hd ▸ hc
  rw [snakeCase, replaceAll_acronym, replaceAll_wordBoundary, replaceAll_separators,
    wordRule_acronymRule, lower_of_ascii hseparated, separatorRule_partRule, String.toList_ofList]

/-- For a name in ASCII, snake case is what one local rule writes. It leaves its own results alone,
writes no capitals, hyphens and blanks, and keeps every other character in its place, capitals as
small letters. -/
theorem snakeCase_is_local (name : String) (h : ∀ c ∈ name.toList, c.toNat < 128) :
    snakeCase name = String.ofList (rewriteBy nameRule none name.toList) ∧
      snakeCase (snakeCase name) = snakeCase name ∧
      (∀ c ∈ (snakeCase name).toList, isCapital c = false ∧ isSeparator c = false) ∧
      (snakeCase name).toList.filter staysInName =
        (name.toList.filter staysInName).map Char.toLower := by
  have hlocal := toList_snakeCase h
  have hplain : ∀ c ∈ (snakeCase name).toList,
      c.toNat < 128 ∧ isCapital c = false ∧ isSeparator c = false := by
    rw [hlocal]
    exact plain_nameRule none h
  refine ⟨?_, ?_, fun c hc => (hplain c hc).2, ?_⟩
  · rw [← hlocal, String.ofList_toList]
  · rw [← String.toList_inj, toList_snakeCase fun c hc => (hplain c hc).1,
      rewriteBy_nameRule_of_plain none hplain]
  · rw [hlocal, filter_nameRule none h]

/-- A name with an acronym, a digit, a run of separators and an underscore of its own. -/
theorem mixedName_is_local :
    (∀ c ∈ "getHTTPCode2X - my_Key".toList, c.toNat < 128) ∧
      snakeCase "getHTTPCode2X - my_Key" = "get_http_code2_x_my_key" ∧
      snakeCase "get_http_code2_x_my_key" = "get_http_code2_x_my_key" := by
  have hascii : ∀ c ∈ "getHTTPCode2X - my_Key".toList, c.toNat < 128 := by simp
  obtain ⟨hlocal, hagain, -⟩ := snakeCase_is_local "getHTTPCode2X - my_Key" hascii
  have hname : snakeCase "getHTTPCode2X - my_Key" = "get_http_code2_x_my_key" :=
    hlocal.trans (by decide)
  rw [hname] at hagain
  exact ⟨hascii, hname, hagain⟩

end TemplateEngine.Text
