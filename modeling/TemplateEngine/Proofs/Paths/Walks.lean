import Mathlib.Data.List.DropRight
import TemplateEngine.CommandLine.Run

/-!
# Walks along paths

A path is read as a walk: from the root along the segments of the directory of the includer, and
on along the segments of the path. What is said of `Path.join?` here is said in terms of such
walks and of `List.splitOn`.

* `join_is_confined_and_canonical` — a path has no name exactly if its walk goes up from the root.
  Otherwise its name is the text of the place where the walk ends: it consists of names only, below
  any directory it leads to a place below that directory without leaving it on the way, and it is
  its own name.
-/

namespace TemplateEngine.Path

/-- A segment that leads down. -/
def IsName (segment : List Char) : Prop :=
  segment ≠ [] ∧ segment ≠ ['.'] ∧ segment ≠ ['.', '.']

/-- From a place, which is given outermost name first, a way leads to a place. -/
inductive Walk : List (List Char) → List (List Char) → List (List Char) → Prop
  | arrived {place : List (List Char)} : Walk place [] place
  | stay {place way goal : List (List Char)} {segment : List Char}
      (here : segment = [] ∨ segment = ['.']) (rest : Walk place way goal) :
      Walk place (segment :: way) goal
  | up {place way goal : List (List Char)} {inner : List Char} (rest : Walk place way goal) :
      Walk (place ++ [inner]) (['.', '.'] :: way) goal
  | down {place way goal : List (List Char)} {segment : List Char} (name : IsName segment)
      (rest : Walk (place ++ [segment]) way goal) : Walk place (segment :: way) goal

/-- On the way from a place, two dots stand where the root is. -/
def ClimbsOut (place way : List (List Char)) : Prop :=
  ∃ before after, way = before ++ ['.', '.'] :: after ∧ Walk place before []

/-- The texts between the slashes of a text. -/
def segments (text : String) : List (List Char) := text.toList.splitOn '/'

/-- The text before the last slash, or no text. -/
def beforeLastSlash (text : List Char) : List Char := (text.rdropWhile (· ≠ '/')).dropLast

/-- The segments of the directory of the includer, or none if there is no includer or the path
begins with a slash, and then those of the path. -/
def route (includer : Option String) (path : String) : List (List Char) :=
  match includer with
  | some template =>
    if path.toList.head? = some '/' then segments path
    else (beforeLastSlash template.toList).splitOn '/' ++ segments path
  | none => segments path

/-- The text of a place. -/
def text (place : List (List Char)) : String := "/".intercalate (place.map String.ofList)

/-- Wherever it starts, no part of the way leads to a place that is not below the start. -/
def StaysBelow (way : List (List Char)) : Prop :=
  ∀ start inside, inside <+: way → ∃ further, Walk start inside (start ++ further)

/-- A name is the canonical name of a place. -/
structure Canonical (name : String) (place : List (List Char)) : Prop where
  /-- No segment is empty, one dot or two dots, and none has a slash in it. -/
  names : ∀ segment ∈ place, IsName segment ∧ '/' ∉ segment
  /-- The segments of the name are those of the place; the name of the root is empty. -/
  segments_eq : segments name = if place = [] then [[]] else place
  head : name.toList.head? ≠ some '/'
  last : name.toList.getLast? ≠ some '/'
  stays : StaysBelow (segments name)
  /-- Below a directory, it leads through the directory to the place. -/
  below (root : String) : ∃ front, segments (CommandLine.below root name) = front ++ segments name ∧
    ∀ start directory, Walk start (segments root) directory →
      Walk start front directory ∧ Walk directory (segments name) (directory ++ place)
  again : join? none name = some name

/-! ## Walks -/

variable {place middle goal way more : List (List Char)} {segment : List Char}

theorem walk_nil_iff : Walk place [] goal ↔ goal = place :=
  ⟨fun h => by cases h; rfl, fun h => h ▸ .arrived⟩

/-- The first step of a walk. -/
theorem walk_cons_iff : Walk place (segment :: way) goal ↔
    (segment = [] ∨ segment = ['.']) ∧ Walk place way goal ∨
    segment = ['.', '.'] ∧ (∃ above inner, place = above ++ [inner] ∧ Walk above way goal) ∨
    IsName segment ∧ Walk (place ++ [segment]) way goal := by
  constructor
  · intro h
    generalize hs : segment :: way = steps at h
    cases h with
    | arrived => cases hs
    | stay here rest => cases hs; exact .inl ⟨here, rest⟩
    | up rest => cases hs; exact .inr (.inl ⟨rfl, _, _, rfl, rest⟩)
    | down name rest => cases hs; exact .inr (.inr ⟨name, rest⟩)
  · rintro (⟨here, rest⟩ | ⟨rfl, above, inner, rfl, rest⟩ | ⟨name, rest⟩)
    · exact .stay here rest
    · exact .up rest
    · exact .down name rest

namespace Walk

theorem append (first : Walk place way middle) (second : Walk middle more goal) :
    Walk place (way ++ more) goal := by
  induction first with
  | arrived => exact second
  | stay here _ ih => exact .stay here (ih second)
  | up _ ih => exact .up (ih second)
  | down name _ ih => exact .down name (ih second)

/-- A way is walked in two parts. -/
theorem parts (h : Walk place (way ++ more) goal) :
    ∃ middle, Walk place way middle ∧ Walk middle more goal := by
  induction way generalizing place with
  | nil => exact ⟨place, .arrived, h⟩
  | cons segment way ih =>
    cases h with
    | stay here rest => exact (ih rest).imp fun _ h => ⟨.stay here h.1, h.2⟩
    | up rest => exact (ih rest).imp fun _ h => ⟨.up h.1, h.2⟩
    | down name rest => exact (ih rest).imp fun _ h => ⟨.down name h.1, h.2⟩

/-- Names lead down. -/
theorem names (place : List (List Char)) (h : ∀ segment ∈ way, IsName segment) :
    Walk place way (place ++ way) := by
  induction way generalizing place with
  | nil => simpa using Walk.arrived
  | cons segment way ih =>
    refine .down (h segment List.mem_cons_self) ?_
    simpa using ih (place ++ [segment]) fun s hs => h s (List.mem_cons_of_mem _ hs)

/-- Without dots, a way leads down or stays. -/
theorem downward (place : List (List Char)) (h : ∀ segment ∈ way, segment = [] ∨ IsName segment) :
    ∃ further, Walk place way (place ++ further) := by
  induction way generalizing place with
  | nil => exact ⟨[], by simpa using Walk.arrived⟩
  | cons segment way ih =>
    have hrest : ∀ s ∈ way, s = [] ∨ IsName s := fun s hs => h s (List.mem_cons_of_mem _ hs)
    rcases h segment List.mem_cons_self with hempty | hname
    · exact (ih place hrest).imp fun _ rest => .stay (.inl hempty) rest
    · obtain ⟨further, rest⟩ := ih (place ++ [segment]) hrest
      exact ⟨segment :: further, .down hname (by simpa using rest)⟩

/-- What is new at the end is a name on the way. -/
theorem mem_goal (h : Walk place way goal) (hmem : segment ∈ goal) :
    segment ∈ place ∨ segment ∈ way ∧ IsName segment := by
  induction h with
  | arrived => exact .inl hmem
  | stay _ _ ih => exact (ih hmem).imp_right fun h => ⟨List.mem_cons_of_mem _ h.1, h.2⟩
  | up _ ih =>
    exact (ih hmem).imp (List.mem_append_left _) fun h => ⟨List.mem_cons_of_mem _ h.1, h.2⟩
  | down name _ ih =>
    rcases ih hmem with h | h
    · rcases List.mem_append.1 h with h | h
      · exact .inl h
      · obtain rfl := List.mem_singleton.1 h
        exact .inr ⟨List.mem_cons_self, name⟩
    · exact .inr ⟨List.mem_cons_of_mem _ h.1, h.2⟩

end Walk

/-- An empty segment at the end changes no walk. -/
theorem walk_append_empty : Walk place (way ++ [[]]) goal ↔ Walk place way goal := by
  refine ⟨fun h => ?_, fun h => h.append (.stay (.inl rfl) .arrived)⟩
  obtain ⟨middle, first, second⟩ := h.parts
  cases second with
  | stay _ rest => exact walk_nil_iff.1 rest ▸ first
  | down name _ => exact absurd rfl name.1

/-- Two dots stand where the root is: at once, or after the first step. -/
theorem climbsOut_cons_iff : ClimbsOut place (segment :: way) ↔
    segment = ['.', '.'] ∧ place = [] ∨
    ∃ middle, Walk place [segment] middle ∧ ClimbsOut middle way := by
  constructor
  · rintro ⟨before, after, heq, h⟩
    cases before with
    | nil =>
      rw [List.nil_append, List.cons.injEq] at heq
      exact .inl ⟨heq.1, (walk_nil_iff.1 h).symm⟩
    | cons first before =>
      rw [List.cons_append, List.cons.injEq] at heq
      obtain ⟨rfl, rfl⟩ := heq
      obtain ⟨middle, hfirst, hrest⟩ : ∃ middle, Walk place [segment] middle ∧ _ := h.parts
      exact .inr ⟨middle, hfirst, before, after, rfl, hrest⟩
  · rintro (⟨rfl, rfl⟩ | ⟨middle, first, before, after, rfl, h⟩)
    · exact ⟨[], way, rfl, .arrived⟩
    · exact ⟨segment :: before, after, rfl, first.append h⟩

/-! ## Climbing is walking -/

theorem climb?_cons (place : List (List Char)) (segment : List Char) (way : List (List Char)) :
    climb? place (segment :: way) = (climb? place [segment]).bind fun middle => climb? middle way := by
  simp only [climb?]
  split
  · rfl
  · split
    · cases place <;> rfl
    · rfl

theorem climb?_singleton_eq_none_iff :
    climb? place [segment] = none ↔ segment = ['.', '.'] ∧ place = [] := by
  simp only [climb?]
  split
  · next here => simpa using fun h : segment = ['.', '.'] => by simp [h] at here
  · split
    · next hup => cases place <;> simp [hup]
    · next hup => simp [hup]

theorem isName_dots : ¬ IsName ['.', '.'] := fun h => h.2.2 rfl

/-- Climbing keeps the place innermost name first. -/
theorem climb?_eq_some_iff : climb? place way = some goal ↔ Walk place.reverse way goal.reverse := by
  induction way generalizing place with
  | nil => simp [climb?, walk_nil_iff, eq_comm]
  | cons segment way ih =>
    rw [walk_cons_iff]
    simp only [climb?]
    split
    · next here =>
      have hdots : segment ≠ ['.', '.'] := by rintro rfl; simp at here
      have hname : ¬ IsName segment := fun h => here.elim h.1 h.2.1
      simp [ih, here, hdots, hname]
    · next hstay =>
      split
      · next hup => cases place <;> simp [ih, hup, isName_dots]
      · next hup =>
        have hname : IsName segment := ⟨fun h => hstay (.inl h), fun h => hstay (.inr h), hup⟩
        simp [ih, hstay, hup, hname]

theorem climb?_eq_none_iff : climb? place way = none ↔ ClimbsOut place.reverse way := by
  induction way generalizing place with
  | nil => simp [climb?, ClimbsOut]
  | cons segment way ih =>
    rw [climb?_cons, climbsOut_cons_iff, List.reverse_eq_nil_iff,
      ← climb?_singleton_eq_none_iff]
    cases hfirst : climb? place [segment] with
    | none => simp
    | some next =>
      have hnext (middle : List (List Char)) :
          Walk place.reverse [segment] middle ↔ middle = next.reverse := by
        rw [← List.reverse_reverse middle, ← climb?_eq_some_iff, hfirst, Option.some.injEq,
          List.reverse_inj, eq_comm]
      simp [hnext, ih]

/-! ## Segments -/

theorem parts_eq_splitOn (text : List Char) : parts text = text.splitOn '/' := by
  induction text with
  | nil => rfl
  | cons c rest ih =>
    have hcons : (c :: rest).splitOn '/' =
        if (c == '/') = true then [] :: rest.splitOn '/'
        else (rest.splitOn '/').modifyHead (c :: ·) :=
      List.splitOnP_cons_eq_if_modifyHead c rest
    rw [parts, ih, hcons]
    by_cases h : c = '/'
    · rw [if_pos h, if_pos (beq_iff_eq.2 h)]
    · rw [if_neg h, if_neg (mt beq_iff_eq.1 h)]
      cases hs : rest.splitOn '/' with
      | nil => exact absurd hs (List.splitOn_ne_nil _ _)
      | cons first more => rfl

theorem splitOn_of_not_mem {text : List Char} (h : '/' ∉ text) : text.splitOn '/' = [text] :=
  List.splitOnP_eq_singleton fun c hc => by
    rw [beq_eq_false_iff_ne]
    rintro rfl
    exact h hc

theorem not_mem_of_mem_splitOn {text : List Char} (h : segment ∈ text.splitOn '/') :
    '/' ∉ segment := by
  rcases Decidable.em ('/' ∈ text) with hin | hout
  · obtain ⟨front, back, rfl, hfront⟩ := List.eq_append_cons_of_mem hin
    rw [List.splitOn_append_cons_self_of_not_mem hfront] at h
    rcases List.mem_cons.1 h with rfl | h
    · exact hfront
    · exact not_mem_of_mem_splitOn h
  · rw [splitOn_of_not_mem hout] at h
    exact List.mem_singleton.1 h ▸ hout
termination_by text.length
decreasing_by subst_vars; simp; omega

theorem beforeLastSlash_append {name : List Char} (front : List Char) (h : '/' ∉ name) :
    beforeLastSlash (front ++ '/' :: name) = front := by
  have hname : ∀ c ∈ name.reverse, decide (c ≠ '/') = true := fun c hc => by
    rw [decide_eq_true_iff]
    rintro rfl
    exact h (List.mem_reverse.1 hc)
  have hrev : (front ++ '/' :: name).reverse = name.reverse ++ '/' :: front.reverse := by simp
  rw [beforeLastSlash, List.rdropWhile, hrev, List.dropWhile_append_of_pos hname,
    List.dropWhile_cons_of_neg (by simp), List.reverse_cons, List.reverse_reverse,
    List.dropLast_concat]

theorem beforeLastSlash_of_not_mem {text : List Char} (h : '/' ∉ text) :
    beforeLastSlash text = [] := by
  have hall : text.rdropWhile (· ≠ '/') = [] := List.rdropWhile_eq_nil_iff.2 fun c hc => by
    rw [decide_eq_true_iff]
    rintro rfl
    exact h hc
  rw [beforeLastSlash, hall, List.dropLast_nil]

/-- From the root, the directory of a template is where the text before its last slash leads. -/
theorem climb?_directory (template : List Char) (way : List (List Char)) :
    climb? [] (directory template ++ way) =
      climb? [] ((beforeLastSlash template).splitOn '/' ++ way) := by
  rw [directory, parts_eq_splitOn]
  by_cases hin : '/' ∈ template
  · obtain ⟨back, front, hrev, hname⟩ := List.eq_append_cons_of_mem (List.mem_reverse.2 hin)
    obtain rfl : template = front.reverse ++ '/' :: back.reverse := by
      rw [← List.reverse_reverse template, hrev]
      simp
    have hback : '/' ∉ back.reverse := mt List.mem_reverse.1 hname
    rw [beforeLastSlash_append _ hback, List.splitOn_append_cons_self, splitOn_of_not_mem hback,
      List.dropLast_concat]
  · rw [beforeLastSlash_of_not_mem hin, splitOn_of_not_mem hin, List.splitOn_nil]
    rfl

theorem join?_eq (includer : Option String) (path : String) :
    join? includer path = (climb? [] (route includer path)).map fun place =>
      "/".intercalate (place.reverse.map String.ofList) := by
  rw [join?, parts_eq_splitOn]
  cases includer with
  | none => rfl
  | some template =>
    simp only [base, route]
    split
    · rfl
    · rw [climb?_directory, segments]

theorem not_mem_of_mem_route {includer : Option String} {path : String}
    (h : segment ∈ route includer path) : '/' ∉ segment := by
  have hsegments (h : segment ∈ segments path) : '/' ∉ segment := not_mem_of_mem_splitOn h
  unfold route at h
  split at h
  · split at h
    · exact hsegments h
    · exact (List.mem_append.1 h).elim not_mem_of_mem_splitOn hsegments
  · exact hsegments h

/-! ## Names of places -/

theorem segments_text (hslash : ∀ segment ∈ place, '/' ∉ segment) :
    segments (text place) = if place = [] then [[]] else place := by
  have htext : (text place).toList = ['/'].intercalate place := by
    rw [text, String.toList_intercalate, List.map_map]
    congr 1
    simp [Function.comp_def]
  rw [segments, htext]
  split
  · next h => rw [h]; rfl
  · next h => exact List.splitOn_intercalate _ hslash h

theorem head_segments {name : String} (h : name.toList.head? = some '/') :
    ∃ rest, rest ≠ [] ∧ segments name = [] :: rest := by
  obtain ⟨rest, hrest⟩ := List.head?_eq_some_iff.1 h
  refine ⟨rest.splitOn '/', List.splitOn_ne_nil _ _, ?_⟩
  rw [segments, hrest]
  exact List.splitOn_append_cons_self [] rest

theorem last_segments {name : String} (h : name.toList.getLast? = some '/') :
    ∃ front, front ≠ [] ∧ segments name = front ++ [[]] := by
  obtain ⟨front, hfront⟩ := List.getLast?_eq_some_iff.1 h
  refine ⟨front.splitOn '/', List.splitOn_ne_nil _ _, ?_⟩
  rw [segments, hfront, List.splitOn_append_cons_self, List.splitOn_nil]

theorem join?_eq_some_iff {includer : Option String} {path name : String} :
    join? includer path = some name ↔
      ∃ place, Walk [] (route includer path) place ∧ name = text place := by
  rw [join?_eq, Option.map_eq_some_iff]
  constructor
  · rintro ⟨goal, hgoal, rfl⟩
    exact ⟨goal.reverse, climb?_eq_some_iff.1 hgoal, rfl⟩
  · rintro ⟨place, hwalk, rfl⟩
    refine ⟨place.reverse, climb?_eq_some_iff.2 (by simpa using hwalk), ?_⟩
    rw [List.reverse_reverse, text]

/-- A name below a directory: the segments of the directory, but for an empty one at the end, and
those of the name. -/
theorem segments_below (root name : String) : ∃ front,
    segments (CommandLine.below root name) = front ++ segments name ∧
    ∀ start goal, Walk start front goal ↔ Walk start (segments root) goal := by
  have hslash : ("/" : String).toList = ['/'] := rfl
  unfold CommandLine.below
  split
  · next h =>
    obtain ⟨front, hfront⟩ := List.getLast?_eq_some_iff.1 h
    refine ⟨front.splitOn '/', ?_, fun start goal => ?_⟩
    · rw [segments, String.toList_append, hfront, List.append_assoc, List.singleton_append,
        List.splitOn_append_cons_self, segments]
    · rw [segments, hfront, List.splitOn_append_cons_self, List.splitOn_nil, walk_append_empty]
  · refine ⟨segments root, ?_, fun _ _ => .rfl⟩
    rw [segments, String.toList_append, String.toList_append, hslash, List.append_assoc,
      List.singleton_append, List.splitOn_append_cons_self]
    rfl

/-- The text of names is canonical. -/
theorem canonical_text (h : ∀ segment ∈ place, IsName segment ∧ '/' ∉ segment) :
    Canonical (text place) place := by
  have hsegments := segments_text fun segment hmem => (h segment hmem).2
  have hwalk (start : List (List Char)) : Walk start (segments (text place)) (start ++ place) := by
    rw [hsegments]
    split
    · next hplace => subst hplace; simpa using Walk.stay (.inl rfl) .arrived
    · exact .names start fun segment hmem => (h segment hmem).1
  have hnames (hplace : place ≠ []) : [] ∉ segments (text place) := by
    rw [hsegments, if_neg hplace]
    exact fun hmem => (h [] hmem).1.1 rfl
  -- A slash at an end would leave an empty segment there beside another one.
  have hends {one more : List (List Char)} (heq : segments (text place) = one ++ more)
      (hone : one ≠ []) (hmore : more ≠ []) (hempty : [] ∈ one ++ more) : False := by
    by_cases hplace : place = []
    · rw [hsegments, if_pos hplace, eq_comm, List.append_eq_singleton_iff] at heq
      exact heq.elim (fun h => hone h.1) fun h => hmore h.2
    · exact hnames hplace (heq ▸ hempty)
  refine ⟨h, hsegments, fun hhead => ?_, fun hlast => ?_, ?_, fun root => ?_, ?_⟩
  · obtain ⟨rest, hrest, heq⟩ := head_segments hhead
    exact hends (List.singleton_append.trans heq.symm).symm (by simp) hrest (by simp)
  · obtain ⟨front, hfront, heq⟩ := last_segments hlast
    exact hends heq hfront (by simp) (by simp)
  · refine fun start inside hinside => Walk.downward start fun segment hmem => ?_
    replace hmem := hinside.subset hmem
    rw [hsegments] at hmem
    split at hmem
    · exact .inl (List.mem_singleton.1 hmem)
    · exact .inr (h segment hmem).1
  · obtain ⟨front, heq, hfront⟩ := segments_below root (text place)
    exact ⟨front, heq, fun start directory hroot => ⟨(hfront start directory).2 hroot,
      hwalk directory⟩⟩
  · exact join?_eq_some_iff.2 ⟨place, hwalk [], rfl⟩

/-! ## Paths -/

theorem join?_eq_none_iff {includer : Option String} {path : String} :
    join? includer path = none ↔ ClimbsOut [] (route includer path) := by
  rw [join?_eq, Option.map_eq_none_iff, climb?_eq_none_iff, List.reverse_nil]

theorem Walk.canonical {includer : Option String} {path : String}
    (h : Walk [] (route includer path) place) : Canonical (text place) place :=
  canonical_text fun _ hmem =>
    have hway := (h.mem_goal hmem).resolve_left List.not_mem_nil
    ⟨hway.2, not_mem_of_mem_route hway.1⟩

/-- What a path leads to has its own name. -/
theorem join?_again {includer : Option String} {path name : String}
    (h : join? includer path = some name) : join? none name = some name := by
  obtain ⟨place, hwalk, rfl⟩ := join?_eq_some_iff.1 h
  exact hwalk.canonical.again

/-- A path has no name exactly if its walk goes up from the root; otherwise it has the canonical
name of the place where its walk ends. -/
theorem join_is_confined_and_canonical (includer : Option String) (path : String) :
    (join? includer path = none ↔ ClimbsOut [] (route includer path)) ∧
    (∀ name, join? includer path = some name ↔
      ∃ place, Walk [] (route includer path) place ∧ name = text place) ∧
    ∀ place, Walk [] (route includer path) place → Canonical (text place) place :=
  ⟨join?_eq_none_iff, fun _ => join?_eq_some_iff, fun _ hwalk => hwalk.canonical⟩

/-- From two directories down, a path goes up twice; from one, it does not. -/
example : join? (some "pages/./x/index.html") "../../y.html" = some "y.html" ∧
    join? (some "pages/index.html") "../../y.html" = none := by decide +kernel

end TemplateEngine.Path
