import TemplateEngine.Proofs.Includes.Homes
import TemplateEngine.Proofs.Paths.Walks

/-!
# What a shelf holds

A shelf is told by the insertions that made it. Every insertion under a name that leads somewhere
is an insertion at the place where the name leads, however the name is written; one under a name
that leads nowhere can be found under no other name.

* `shelf_finds_last_insertion` — what a path resolves to is loaded from the last insertion there. A
  path resolves to the place where it leads from the directory of the includer if something was
  inserted there, and to the one where it leads from the root if something was inserted there only.
  It is outside the root exactly if its walk goes up from there.
-/

namespace TemplateEngine

namespace Shelf

/-- The shelf after insertions of sources under names. -/
def ofInsertions (insertions : List (String × String)) : Shelf :=
  insertions.foldl (fun s i => s.insert i.1 i.2) empty

end Shelf

/-! ## Insertions -/

/-- Something was inserted under a name that leads to the place. -/
def InsertedAt (insertions : List (String × String)) (place : String) : Prop :=
  ∃ i ∈ insertions, Path.join? none i.1 = some place

/-- The source was the last to be inserted under a name that leads to the place. -/
def LastInsertedAt (insertions : List (String × String)) (place source : String) : Prop :=
  ∃ before name after, insertions = before ++ (name, source) :: after ∧
    Path.join? none name = some place ∧ ∀ later ∈ after, Path.join? none later.1 ≠ some place

theorem lastInsertedAt_concat {insertions : List (String × String)} {name text place source : String} :
    LastInsertedAt (insertions ++ [(name, text)]) place source ↔
      if Path.join? none name = some place then text = source
      else LastInsertedAt insertions place source := by
  constructor
  · rintro ⟨before, other, after, heq, hother, hafter⟩
    rcases List.eq_nil_or_concat after with rfl | ⟨after, last, rfl⟩
    · obtain ⟨-, heq⟩ := List.append_inj' heq rfl
      cases heq
      rw [if_pos hother]
    · rw [List.concat_eq_append, ← List.cons_append, ← List.append_assoc] at heq
      obtain ⟨rfl, hlast⟩ := List.append_inj' heq rfl
      obtain rfl := List.singleton_inj.1 hlast
      rw [List.concat_eq_append] at hafter
      rw [if_neg (hafter _ (List.mem_append_right _ List.mem_cons_self))]
      exact ⟨before, other, after, rfl, hother, fun l hl => hafter l (List.mem_append_left _ hl)⟩
  · intro h
    split at h
    · next hname =>
      exact h ▸ ⟨insertions, name, [], rfl, hname, fun _ hl => absurd hl List.not_mem_nil⟩
    · next hname =>
      obtain ⟨before, other, after, rfl, hother, hafter⟩ := h
      refine ⟨before, other, after ++ [(name, text)], by simp, hother, fun l hl => ?_⟩
      rcases List.mem_append.1 hl with hl | hl
      · exact hafter l hl
      · exact List.mem_singleton.1 hl ▸ hname

/-- Of the insertions at a place, one is the last. -/
theorem insertedAt_iff {insertions : List (String × String)} {place : String} :
    InsertedAt insertions place ↔ ∃ source, LastInsertedAt insertions place source := by
  constructor
  · induction insertions using List.reverseRecOn with
    | nil => exact fun ⟨_, h, _⟩ => absurd h List.not_mem_nil
    | append_singleton insertions i ih =>
      rintro ⟨j, hj, hplace⟩
      by_cases hlast : Path.join? none i.1 = some place
      · exact ⟨i.2, lastInsertedAt_concat.2 (by rw [if_pos hlast])⟩
      · have hearlier : j ∈ insertions := (List.mem_append.1 hj).resolve_right fun h =>
          hlast (List.mem_singleton.1 h ▸ hplace)
        obtain ⟨source, hsource⟩ := ih ⟨j, hearlier, hplace⟩
        exact ⟨source, lastInsertedAt_concat.2 (by rwa [if_neg hlast])⟩
  · rintro ⟨source, before, name, after, rfl, hname, -⟩
    exact ⟨(name, source), by simp, hname⟩

/-! ## Sources by place -/

/-- Names that lead nowhere are no places, so that they do not get in the way. -/
theorem Shelf.get?_insert_place {place : String} (hplace : Path.join? none place = some place)
    (s : Shelf) (name source : String) :
    (s.insert name source).sources.get? place =
      if Path.join? none name = some place then some source else s.sources.get? place := by
  have hkey : (Path.join? none name).getD name = place ↔ Path.join? none name = some place := by
    cases hname : Path.join? none name with
    | none =>
      refine ⟨fun h => ?_, fun h => nomatch h⟩
      rw [← hname, show name = place from h, hplace]
    | some leads => simp
  simp only [Shelf.insert, Dictionary.get?_insert, hkey]

theorem Shelf.get?_ofInsertions {place : String} (hplace : Path.join? none place = some place)
    {insertions : List (String × String)} {source : String} :
    (ofInsertions insertions).sources.get? place = some source ↔
      LastInsertedAt insertions place source := by
  induction insertions using List.reverseRecOn with
  | nil =>
    refine iff_of_false (fun h => nomatch h) ?_
    rintro ⟨before, name, after, heq, -⟩
    exact absurd heq (by simp)
  | append_singleton insertions i ih =>
    have hstep : ofInsertions (insertions ++ [i]) = (ofInsertions insertions).insert i.1 i.2 := by
      simp [ofInsertions]
    rw [hstep, get?_insert_place hplace, lastInsertedAt_concat]
    split
    · rw [Option.some.injEq]
    · exact ih

theorem Shelf.contains_ofInsertions {place : String} (hplace : Path.join? none place = some place)
    {insertions : List (String × String)} :
    (ofInsertions insertions).sources.contains place = true ↔ InsertedAt insertions place := by
  rw [Dictionary.contains, Option.isSome_iff_exists, insertedAt_iff]
  exact exists_congr fun source => get?_ofInsertions hplace

/-! ## Paths on a shelf -/

namespace Shelf

variable {insertions : List (String × String)} {path place near : String}
  {includer : Option String}

theorem load_ofInsertions {source : String} (hplace : Path.join? none place = some place)
    (h : LastInsertedAt insertions place source) (options : ParserOptions) :
    (ofInsertions insertions).load place options =
      (Template.parse place source options).mapError .parse := by
  rw [load, (get?_ofInsertions hplace).2 h]

theorem resolve_ofInsertions_eq_ok_iff (hnear : Path.join? includer path = some near) :
    (ofInsertions insertions).resolve path includer = .ok place ↔ InsertedAt insertions place ∧
      (place = near ∨ ¬ InsertedAt insertions near ∧ Path.join? none path = some place) := by
  have hcontains : (ofInsertions insertions).sources.contains near = true ↔ _ :=
    contains_ofInsertions (Path.join?_again hnear)
  rw [resolve_eq_ok_iff, hnear]
  simp only [Option.some.injEq, exists_eq_left', ← Bool.not_eq_true, hcontains]
  refine and_congr_left fun h => contains_ofInsertions ?_
  rcases h with rfl | ⟨-, hfar⟩
  · exact Path.join?_again hnear
  · exact Path.join?_again hfar

/-- A path either leads outside or to a place near the includer, which is what is not found. -/
theorem resolve_cases (s : Shelf) (path : String) (includer : Option String) :
    Path.join? includer path = none ∧ s.resolve path includer = .error (.outsideRoot path) ∨
    ∃ near, Path.join? includer path = some near ∧
      ((∃ place, s.resolve path includer = .ok place) ∨
        s.resolve path includer = .error (.notFound near)) := by
  unfold resolve
  cases hnear : Path.join? includer path with
  | none => exact .inl ⟨rfl, rfl⟩
  | some near =>
    refine .inr ⟨near, rfl, ?_⟩
    dsimp only
    split
    · exact .inl ⟨near, rfl⟩
    · split
      · next far _ =>
        split
        · exact .inl ⟨far, rfl⟩
        · exact .inr rfl
      · exact .inr rfl

/-- What a path resolves to is a place where something was inserted. -/
theorem insertedAt_of_resolve
    (h : (ofInsertions insertions).resolve path includer = .ok place) :
    Path.join? none place = some place ∧ InsertedAt insertions place := by
  obtain ⟨hcontains, near, hnear, hplace⟩ := resolve_eq_ok_iff.1 h
  have hagain : Path.join? none place = some place := by
    rcases hplace with rfl | ⟨-, hfar⟩
    · exact Path.join?_again hnear
    · exact Path.join?_again hfar
  exact ⟨hagain, (contains_ofInsertions hagain).1 hcontains⟩

theorem resolve_ofInsertions_eq_notFound_iff (hnear : Path.join? includer path = some near) :
    (ofInsertions insertions).resolve path includer = .error (.notFound near) ↔
      ¬ InsertedAt insertions near ∧
        ∀ far, Path.join? none path = some far → ¬ InsertedAt insertions far := by
  have hok {place : String} : (ofInsertions insertions).resolve path includer = .ok place ↔ _ :=
    resolve_ofInsertions_eq_ok_iff hnear
  rcases resolve_cases (ofInsertions insertions) path includer with
    ⟨hnone, -⟩ | ⟨_, hsome, ⟨place, hplace⟩ | herror⟩
  · rw [hnear] at hnone
    cases hnone
  · rw [hplace]
    refine iff_of_false (fun h => nomatch h) fun ⟨hout, hfar⟩ => ?_
    obtain ⟨hin, rfl | ⟨-, hleads⟩⟩ := hok.1 hplace
    · exact hout hin
    · exact hfar place hleads hin
  · obtain rfl := Option.some.inj (hnear.symm.trans hsome)
    have hnever (place : String) : (ofInsertions insertions).resolve path includer ≠ .ok place := by
      rw [herror]
      exact fun h => nomatch h
    have hout : ¬ InsertedAt insertions near := fun h => hnever near (hok.2 ⟨h, .inl rfl⟩)
    exact iff_of_true herror ⟨hout, fun far hfar h => hnever far (hok.2 ⟨h, .inr ⟨hout, hfar⟩⟩)⟩

theorem resolve_eq_outsideRoot_iff {s : Shelf} {outside : String} :
    s.resolve path includer = .error (.outsideRoot outside) ↔
      outside = path ∧ Path.ClimbsOut [] (Path.route includer path) := by
  rw [← Path.join?_eq_none_iff]
  rcases s.resolve_cases path includer with ⟨hnone, herror⟩ | ⟨near, hsome, ⟨place, hok⟩ | herror⟩
  · simp [hnone, herror, eq_comm]
  · simp [hsome, hok]
  · simp [hsome, herror]

end Shelf

/-- After any insertions: what a path resolves to is loaded from the last insertion there. A path
resolves to the place near the includer exactly if something was inserted there, to the one near
the root exactly if that holds of it only, and otherwise nothing is found at the place near the
includer, unless the walk goes up from the root. Every name under which something was inserted and
that leads somewhere resolves to what was last inserted there. -/
theorem shelf_finds_last_insertion (insertions : List (String × String)) :
    (∀ path includer place, (Shelf.ofInsertions insertions).resolve path includer = .ok place →
      ∃ source, LastInsertedAt insertions place source ∧ ∀ options,
        (Shelf.ofInsertions insertions).load place options =
          (Template.parse place source options).mapError .parse ∧
        ∀ name, (Shelf.ofInsertions insertions).load place options ≠ .error (.notFound name)) ∧
    (∀ path includer near, Path.join? includer path = some near →
      ((Shelf.ofInsertions insertions).resolve path includer = .ok near ↔
        InsertedAt insertions near) ∧
      (∀ far, Path.join? none path = some far → far ≠ near →
        ((Shelf.ofInsertions insertions).resolve path includer = .ok far ↔
          ¬ InsertedAt insertions near ∧ InsertedAt insertions far)) ∧
      ((Shelf.ofInsertions insertions).resolve path includer = .error (.notFound near) ↔
        ¬ InsertedAt insertions near ∧
          ∀ far, Path.join? none path = some far → ¬ InsertedAt insertions far)) ∧
    (∀ path includer outside,
      (Shelf.ofInsertions insertions).resolve path includer = .error (.outsideRoot outside) ↔
        outside = path ∧ Path.ClimbsOut [] (Path.route includer path)) ∧
    ∀ name source, (name, source) ∈ insertions → ¬ Path.ClimbsOut [] (Path.segments name) →
      ∃ place last, Path.join? none name = some place ∧
        (Shelf.ofInsertions insertions).resolve name none = .ok place ∧
        LastInsertedAt insertions place last ∧ ∀ options,
          (Shelf.ofInsertions insertions).load place options =
            (Template.parse place last options).mapError .parse := by
  refine ⟨fun path includer place h => ?_, fun path includer near hnear =>
    ⟨?_, fun far hfar hne => ?_, Shelf.resolve_ofInsertions_eq_notFound_iff hnear⟩,
    fun path includer outside => Shelf.resolve_eq_outsideRoot_iff, fun name source hmem hin => ?_⟩
  · obtain ⟨hagain, hinserted⟩ := Shelf.insertedAt_of_resolve h
    obtain ⟨source, hlast⟩ := insertedAt_iff.1 hinserted
    refine ⟨source, hlast, fun options => ?_⟩
    have hload := Shelf.load_ofInsertions hagain hlast options
    refine ⟨hload, fun name hname => ?_⟩
    rw [hload] at hname
    cases hparse : Template.parse place source options <;> rw [hparse] at hname <;> cases hname
  · simp [Shelf.resolve_ofInsertions_eq_ok_iff hnear]
  · simp [Shelf.resolve_ofInsertions_eq_ok_iff hnear, hfar, hne, and_comm]
  · have hleads : Path.join? none name ≠ none := mt Path.join?_eq_none_iff.1 hin
    obtain ⟨place, hplace⟩ := Option.ne_none_iff_exists'.1 hleads
    have hinserted : InsertedAt insertions place := ⟨(name, source), hmem, hplace⟩
    obtain ⟨last, hlast⟩ := insertedAt_iff.1 hinserted
    exact ⟨place, last, hplace,
      (Shelf.resolve_ofInsertions_eq_ok_iff hplace).2 ⟨hinserted, .inl rfl⟩, hlast,
      Shelf.load_ofInsertions (Path.join?_again hplace) hlast⟩

/-- A name that leads nowhere is inserted and is not found again. -/
example :
    let s := Shelf.ofInsertions [("base", "one"), ("/./base", "two"), ("../base", "three")]
    s.sources.get? "base" = some "two" ∧ s.sources.get? "../base" = some "three" ∧
      s.resolve "base" (some "pages/index") = .ok "base" ∧
      s.resolve "../base" none = .error (.outsideRoot "../base") := by decide +kernel

end TemplateEngine
