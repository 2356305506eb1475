/-!
# Patterns

A pattern is met by characters at the front of a text. Where it can be met in several ways, the
first repetition takes as many characters as it can, and then the next one. Replacing goes through
a text from its front: where the pattern is met, all that it takes is replaced at once, and the
search goes on behind it.
-/

namespace TemplateEngine.Text

/-- A pattern, which takes at least one character. -/
inductive Pattern
  /-- One character of a class. -/
  | one (among : Char → Bool)
  /-- Characters of a class, one or more. -/
  | many (among : Char → Bool)
  /-- A part that a replacement can repeat. -/
  | group (part : Pattern)
  /-- One pattern behind the other. -/
  | seq (first second : Pattern)

/-- How a pattern is met: all that it takes, what its groups take, and what is left. -/
structure Match where
  taken : List Char
  groups : List (List Char)
  rest : List Char
deriving DecidableEq

/-- A part of what is written in place of a match. -/
inductive Replacement
  | text (t : String)
  /-- What a group has taken; the first one has the number 1. -/
  | group (number : Nat)

/-- What a part of a replacement writes for a match. -/
def Replacement.expand (r : Replacement) (m : Match) : List Char :=
  match r with
  | .text t => t.toList
  | .group number => (m.groups[number - 1]?).getD []

namespace Pattern

/-- The ways in which a text begins with characters of a class, the longest first. -/
def runs (among : Char → Bool) : List Char → List Match
  | [] => []
  | c :: rest =>
    if among c then
      (runs among rest).map (fun m => { m with taken := c :: m.taken }) ++ [⟨[c], [], rest⟩]
    else []

/-- The ways in which the front of a text meets a pattern, the preferred one first. -/
def ways : Pattern → List Char → List Match
  | .one _, [] => []
  | .one among, c :: rest => if among c then [⟨[c], [], rest⟩] else []
  | .many among, text => runs among text
  | .group p, text => (p.ways text).map fun m => { m with groups := m.taken :: m.groups }
  | .seq p q, text => (p.ways text).flatMap fun m =>
    (q.ways m.rest).map fun n => ⟨m.taken ++ n.taken, m.groups ++ n.groups, n.rest⟩

/-- The way in which the front of a text meets a pattern. -/
def match? (p : Pattern) (text : List Char) : Option Match := (p.ways text).head?

/-- Replaces the matches in a text, of which the first `skip` characters belong to a match that has
been replaced already. -/
def replaceFrom (p : Pattern) (replacement : List Replacement) : Nat → List Char → List Char
  | _, [] => []
  | skip + 1, _ :: rest => p.replaceFrom replacement skip rest
  | 0, c :: rest =>
    match p.match? (c :: rest) with
    | some m =>
      replacement.flatMap (·.expand m) ++ p.replaceFrom replacement (m.taken.length - 1) rest
    | none => c :: p.replaceFrom replacement 0 rest

/-- Replaces every match in a text. -/
def replaceAll (p : Pattern) (replacement : List Replacement) (text : List Char) : List Char :=
  p.replaceFrom replacement 0 text

/-! ## Matches -/

theorem mem_runs_iff {among : Char → Bool} {text : List Char} {m : Match} :
    m ∈ runs among text ↔
      m.taken ≠ [] ∧ (∀ c ∈ m.taken, among c) ∧ m.groups = [] ∧ text = m.taken ++ m.rest := by
  induction text generalizing m with
  | nil =>
    obtain ⟨taken, groups, rest⟩ := m
    cases taken <;> simp [runs]
  | cons c text ih =>
    obtain ⟨taken, groups, rest⟩ := m
    cases hc : among c with
    | false =>
      cases taken with
      | nil => simp [runs, hc]
      | cons d taken =>
        simp only [runs, hc, Bool.false_eq_true, if_false, List.not_mem_nil, false_iff]
        rintro ⟨-, hall, -, htext⟩
        obtain ⟨rfl, -⟩ := List.cons.inj htext
        exact Bool.false_ne_true (hc.symm.trans (hall c List.mem_cons_self))
    | true =>
      simp only [runs, hc, if_true, List.mem_append, List.mem_map, List.mem_singleton]
      constructor
      · rintro (⟨n, hn, heq⟩ | heq)
        · obtain ⟨-, hall, hgroups, rfl⟩ := ih.1 hn
          cases heq
          simp [hc, hgroups]
          exact hall
        · cases heq
          simp [hc]
      · rintro ⟨hne, hall, rfl, htext⟩
        cases taken with
        | nil => exact absurd rfl hne
        | cons d taken =>
          obtain ⟨rfl, rfl⟩ : c = d ∧ text = taken ++ rest := List.cons.inj htext
          cases taken with
          | nil => exact .inr rfl
          | cons e taken =>
            refine .inl ⟨⟨e :: taken, [], rest⟩, ih.2 ⟨List.cons_ne_nil _ _, ?_, rfl, rfl⟩, rfl⟩
            exact fun x hx => hall x (List.mem_cons_of_mem _ hx)

theorem mem_ways_one {among : Char → Bool} {text : List Char} {m : Match} :
    m ∈ (one among).ways text ↔ ∃ c, among c ∧ text = c :: m.rest ∧ m = ⟨[c], [], m.rest⟩ := by
  cases text with
  | nil => simp [ways]
  | cons c rest =>
    rw [ways]
    split
    · next hc =>
      rw [List.mem_singleton]
      constructor
      · rintro rfl
        exact ⟨c, hc, rfl, rfl⟩
      · rintro ⟨d, -, htext, hm⟩
        obtain ⟨rfl, hrest⟩ := List.cons.inj htext
        rw [hm, ← hrest]
    · next hc =>
      refine iff_of_false List.not_mem_nil ?_
      rintro ⟨d, hd, htext, -⟩
      obtain ⟨rfl, -⟩ := List.cons.inj htext
      exact hc hd

theorem mem_ways_group {p : Pattern} {text : List Char} {m : Match} :
    m ∈ (group p).ways text ↔
      ∃ n ∈ p.ways text, m = ⟨n.taken, n.taken :: n.groups, n.rest⟩ := by
  simp only [ways, List.mem_map, eq_comm]

theorem mem_ways_seq {p q : Pattern} {text : List Char} {m : Match} :
    m ∈ (seq p q).ways text ↔ ∃ a ∈ p.ways text, ∃ b ∈ q.ways a.rest,
      m = ⟨a.taken ++ b.taken, a.groups ++ b.groups, b.rest⟩ := by
  simp only [ways, List.mem_flatMap, List.mem_map, eq_comm]

/-- A match is the front of the text, and not empty. -/
theorem text_of_mem_ways {p : Pattern} {text : List Char} {m : Match} (h : m ∈ p.ways text) :
    m.taken ≠ [] ∧ text = m.taken ++ m.rest := by
  induction p generalizing text m with
  | one among =>
    obtain ⟨c, -, htext, hm⟩ := mem_ways_one.1 h
    rw [hm]
    exact ⟨List.cons_ne_nil _ _, htext⟩
  | many among =>
    obtain ⟨hne, -, -, htext⟩ := mem_runs_iff.1 h
    exact ⟨hne, htext⟩
  | group p ih =>
    obtain ⟨n, hn, rfl⟩ := mem_ways_group.1 h
    obtain ⟨hne, htext⟩ := ih hn
    exact ⟨hne, htext⟩
  | seq p q ihp ihq =>
    obtain ⟨a, ha, b, hb, rfl⟩ := mem_ways_seq.1 h
    obtain ⟨hne, rfl⟩ := ihp ha
    obtain ⟨-, hrest⟩ := ihq hb
    refine ⟨fun hnil => hne (List.append_eq_nil_iff.1 hnil).1, ?_⟩
    rw [List.append_assoc, ← hrest]

theorem match?_eq_none_iff {p : Pattern} {text : List Char} :
    p.match? text = none ↔ ∀ m, m ∉ p.ways text := by
  rw [match?, List.head?_eq_none_iff, List.eq_nil_iff_forall_not_mem]

theorem mem_ways_of_match? {p : Pattern} {text : List Char} {m : Match}
    (h : p.match? text = some m) : m ∈ p.ways text := List.mem_of_head? h

/-- A repetition takes all characters of its class that the text begins with. -/
theorem match?_many {among : Char → Bool} {text : List Char} {m : Match}
    (h : (many among).match? text = some m) :
    m.taken = text.takeWhile among ∧ m.rest = text.dropWhile among := by
  rw [match?, ways] at h
  induction text generalizing m with
  | nil => cases h
  | cons c rest ih =>
    rw [runs] at h
    split at h
    · next hc =>
      rw [List.head?_append, List.head?_map] at h
      cases hrest : (runs among rest).head? with
      | some n =>
        rw [hrest] at h
        cases h
        obtain ⟨htaken, hleft⟩ := ih hrest
        simp [hc, htaken, hleft]
      | none =>
        rw [hrest] at h
        cases h
        have hnil : ∀ d tail, rest = d :: tail → among d = false := by
          rintro d tail rfl
          rw [← Bool.not_eq_true]
          intro hd
          simp [runs, hd] at hrest
        cases rest with
        | nil => simp [hc]
        | cons d tail => simp [hc, hnil d tail rfl]
    · cases h

/-! ## Replacing -/

section

variable {p : Pattern} {replacement : List Replacement} {text : List Char}

@[simp] theorem replaceAll_nil : p.replaceAll replacement [] = [] := by
  simp [replaceAll, replaceFrom]

theorem replaceFrom_eq_drop (skip : Nat) :
    p.replaceFrom replacement skip text = p.replaceAll replacement (text.drop skip) := by
  induction text generalizing skip with
  | nil => cases skip <;> simp [replaceFrom]
  | cons c rest ih =>
    cases skip with
    | zero => rfl
    | succ skip => rw [replaceFrom, ih, List.drop_succ_cons]

theorem replaceAll_of_match? {m : Match} (h : p.match? text = some m) :
    p.replaceAll replacement text =
      replacement.flatMap (·.expand m) ++ p.replaceAll replacement m.rest := by
  obtain ⟨hne, rfl⟩ := text_of_mem_ways (mem_ways_of_match? h)
  obtain ⟨taken, groups, rest⟩ := m
  cases taken with
  | nil => exact absurd rfl hne
  | cons c taken =>
    rw [replaceAll, List.cons_append, replaceFrom]
    rw [List.cons_append] at h
    rw [h]
    simp [replaceFrom_eq_drop]

theorem replaceAll_cons_of_match?_eq_none {c : Char} (h : p.match? (c :: text) = none) :
    p.replaceAll replacement (c :: text) = c :: p.replaceAll replacement text := by
  rw [replaceAll, replaceFrom, h]
  rfl

end

end Pattern

end TemplateEngine.Text
