import Mathlib.Tactic.Choose
import TemplateEngine.Heap.Conversion
import TemplateEngine.Proofs.Values.Nesting

/-!
# What is shown of a value

A value is shown by a recursion through its parts that writes one chunk of text after the other
(`Store.Writes`). Whether it comes to an end depends on where it stops: the one that stops nowhere
(`Store.Renders`) has no end in a list that holds itself. The one that is used (`Store.Shows`) stops
at a container that it is inside of already, and at one that has 64 others around it.

* `nesting_guard_is_exact` — it always comes to an end, it cuts a container exactly in the values
  that the search for faults refuses, and it shows all others as the recursion without stops does.
  These others have a text, but for functions.
-/

namespace TemplateEngine

/-! ## Chunks of text -/

/-- What is written at once: a text, or the mark of a container that is cut. -/
inductive Chunk
  | text (t : String)
  | cut

namespace Chunk

/-- The text that stands for a chunk. -/
def written : Chunk → String
  | .text t => t
  | .cut => "[...]"

/-- The text that chunks give one after the other. -/
def joined (ps : List Chunk) : String := String.join (ps.map written)

/-- Parts with commas between and something around them. -/
def enclosed (opening closing : String) (parts : List (List Chunk)) : List Chunk :=
  .text opening :: [.text ", "].intercalate parts ++ [.text closing]

@[simp] theorem joined_append (ps qs : List Chunk) :
    joined (ps ++ qs) = joined ps ++ joined qs := by
  simp [joined]

@[simp] theorem joined_cons (p : Chunk) (ps : List Chunk) :
    joined (p :: ps) = p.written ++ joined ps := by
  simp [joined]

@[simp] theorem joined_nil : joined [] = "" := rfl

theorem joined_intercalate (parts : List (List Chunk)) :
    joined ([.text ", "].intercalate parts) = commaSeparated (parts.map joined) := by
  induction parts with
  | nil => rfl
  | cons p rest ih =>
    cases rest with
    | nil => simp [commaSeparated]
    | cons q rest => simpa [commaSeparated, written, String.append_assoc] using ih

theorem joined_enclosed (opening closing : String) (parts : List (List Chunk)) :
    joined (enclosed opening closing parts) =
      opening ++ commaSeparated (parts.map joined) ++ closing := by
  simp [enclosed, joined_intercalate, written, String.append_assoc]

theorem cut_mem_intercalate (parts : List (List Chunk)) :
    .cut ∈ [.text ", "].intercalate parts ↔ ∃ p ∈ parts, .cut ∈ p := by
  induction parts with
  | nil => simp
  | cons p rest ih =>
    cases rest with
    | nil => simp
    | cons q rest => simpa using or_congr Iff.rfl ih

theorem cut_mem_enclosed (opening closing : String) (parts : List (List Chunk)) :
    .cut ∈ enclosed opening closing parts ↔ ∃ p ∈ parts, .cut ∈ p := by
  simp [enclosed, cut_mem_intercalate]

end Chunk

namespace Store

variable {s : Store} {v w : Value} {r : Ref} {parts : List Value} {path : List Ref} {room : Nat}
  {ps qs : List Chunk} {stops : List Ref → Ref → Prop}

/-! ## The recursion -/

/-- The text of a value that is not a container. -/
def plainText (s : Store) : Value → String
  | .bool b => if b then "true" else "false"
  | .int n => toString n
  | .float x => floatText x
  | .text t => t
  | .object r => "[object " ++ s.objectType r ++ "]"
  | .record r => "[" ++ (s.record r).type ++ "]"
  | .function f => "[function " ++ f.name ++ "]"
  | .undefined | .null | .list _ | .array _ | .map _ => ""

/-- The chunks of a container of which each part is drawn in this way. -/
def assembled (s : Store) (drawn : Value → List Chunk) : Value → List Chunk
  | .list r | .array r => Chunk.enclosed "[" "]" ((s.items r).map drawn)
  | .map r =>
    Chunk.enclosed "\x7b" "\x7d"
      ((s.entries r).entries.map fun e => .text (e.1 ++ ": ") :: drawn e.2)
  | _ => []

/-- Whether the recursion through a value comes to an end with these chunks. It is inside of the
containers of `path` and cuts those that `stops` picks. -/
inductive Writes (s : Store) (stops : List Ref → Ref → Prop) :
    List Ref → Value → List Chunk → Prop
  | plain {path : List Ref} {v : Value} (h : s.container? v = none) :
    Writes s stops path v [.text (s.plainText v)]
  | cut {path : List Ref} {v : Value} {r : Ref} {parts : List Value}
    (h : s.container? v = some (r, parts)) (hs : stops path r) : Writes s stops path v [.cut]
  | whole {path : List Ref} {v : Value} {r : Ref} {parts : List Value} {drawn : Value → List Chunk}
    (h : s.container? v = some (r, parts)) (hs : ¬stops path r)
    (hw : ∀ w ∈ parts, Writes s stops (r :: path) w (drawn w)) :
    Writes s stops path v (s.assembled drawn v)

/-- The recursion that stops nowhere comes to an end with these chunks. -/
def Renders (s : Store) (v : Value) (ps : List Chunk) : Prop := s.Writes (fun _ _ => False) [] v ps

/-- Inside of the containers of `path`, the guard is against one of them, and against any other one
if there are 64 of them. -/
def Guarded (path : List Ref) (r : Ref) : Prop := r ∈ path ∨ 64 ≤ path.length

/-- The recursion that stops where the guard is against going on comes to an end with these
chunks. -/
def Shows (s : Store) (v : Value) (ps : List Chunk) : Prop := s.Writes Guarded [] v ps

theorem assembled_congr {f g : Value → List Chunk} (h : s.container? v = some (r, parts))
    (hfg : ∀ w ∈ parts, f w = g w) : s.assembled f v = s.assembled g v := by
  obtain ⟨rfl | rfl, rfl⟩ | ⟨rfl, rfl⟩ := container?_cases h
  · simp only [assembled, List.map_congr_left hfg]
  · simp only [assembled, List.map_congr_left hfg]
  · have hmap : ∀ e ∈ (s.entries r).entries, f e.2 = g e.2 := fun e he =>
      hfg e.2 (List.mem_map_of_mem he)
    simp only [assembled, List.map_congr_left fun e he => congrArg _ (hmap e he)]

/-- A recursion has one end at most. -/
theorem Writes.unique (h : s.Writes stops path v ps) (h' : s.Writes stops path v qs) : ps = qs := by
  induction h generalizing qs with
  | plain h =>
    cases h' with
    | plain => rfl
    | cut h' | whole h' => simp [h] at h'
  | cut h hs =>
    cases h' with
    | plain h' => simp [h] at h'
    | cut => rfl
    | whole h' hs' =>
      cases h.symm.trans h'
      exact absurd hs hs'
  | whole h hs _ ih =>
    cases h' with
    | plain h' => simp [h] at h'
    | cut h' hs' =>
      cases h.symm.trans h'
      exact absurd hs' hs
    | whole h' _ hw' =>
      cases h.symm.trans h'
      exact assembled_congr h fun w hw => ih w hw (hw' w hw)

/-! ## The text that is written -/

theorem displayWithin_of_none (h : s.container? v = none) :
    s.displayWithin room path v = s.plainText v := by
  cases v with
  | list | array | map => simp [container?] at h
  | _ => simp [displayWithin, plainText]

theorem displayWithin_of_mem (h : s.container? v = some (r, parts)) (hr : r ∈ path) :
    s.displayWithin room path v = "[...]" := by
  obtain ⟨rfl | rfl, -⟩ | ⟨rfl, -⟩ := container?_cases h <;> unfold displayWithin <;> simp [hr]

theorem displayWithin_zero (h : s.container? v = some (r, parts)) :
    s.displayWithin 0 path v = "[...]" := by
  obtain ⟨rfl | rfl, -⟩ | ⟨rfl, -⟩ := container?_cases h <;> unfold displayWithin <;> simp

theorem displayWithin_succ {drawn : Value → List Chunk} (h : s.container? v = some (r, parts))
    (hr : r ∉ path)
    (hd : ∀ w ∈ parts, s.displayWithin room (r :: path) w = Chunk.joined (drawn w)) :
    s.displayWithin (room + 1) path v = Chunk.joined (s.assembled drawn v) := by
  obtain ⟨rfl | rfl, rfl⟩ | ⟨rfl, rfl⟩ := container?_cases h
  · rw [displayWithin]
    simp [hr, assembled, Chunk.joined_enclosed, List.map_congr_left hd, Function.comp_def]
  · rw [displayWithin]
    simp [hr, assembled, Chunk.joined_enclosed, List.map_congr_left hd, Function.comp_def]
  · have hentries : ∀ e ∈ (s.entries r).entries,
        e.1 ++ ": " ++ s.displayWithin room (r :: path) e.2 =
          Chunk.joined (.text (e.1 ++ ": ") :: drawn e.2) := by
      intro e he
      simp [hd e.2 (List.mem_map_of_mem he), Chunk.written]
    rw [displayWithin]
    simp only [hr, List.contains_iff_mem, if_false, assembled, Chunk.joined_enclosed, List.map_map,
      Function.comp_def, List.map_congr_left hentries]

theorem cut_mem_assembled {drawn : Value → List Chunk} (h : s.container? v = some (r, parts)) :
    .cut ∈ s.assembled drawn v ↔ ∃ w ∈ parts, .cut ∈ drawn w := by
  obtain ⟨rfl | rfl, rfl⟩ | ⟨rfl, rfl⟩ := container?_cases h
  · simp [assembled, Chunk.cut_mem_enclosed]
  · simp [assembled, Chunk.cut_mem_enclosed]
  · simp only [assembled, Chunk.cut_mem_enclosed, Dictionary.values, List.mem_map]
    constructor
    · rintro ⟨_, ⟨e, he, rfl⟩, hc⟩
      exact ⟨e.2, ⟨e, he, rfl⟩, by simpa using hc⟩
    · rintro ⟨_, ⟨e, he, rfl⟩, hc⟩
      exact ⟨_, ⟨e, he, rfl⟩, by simpa using hc⟩

/-- The walk that is inside of `path` and has this room writes these chunks: the guarded recursion
ends with them, and the walk writes their text. It cuts a container if the search for faults finds
one, and if not, the recursion without stops ends with the same chunks. -/
structure Draws (s : Store) (room : Nat) (path : List Ref) (v : Value) (ps : List Chunk) : Prop where
  writes : s.Writes Guarded path v ps
  display : s.displayWithin room path v = Chunk.joined ps
  cut_iff : .cut ∈ ps ↔ (s.faultWithin room path v).isSome
  plain : s.faultWithin room path v = none → s.Writes (fun _ _ => False) path v ps

theorem draws_of_none (h : s.container? v = none) :
    s.Draws room path v [.text (s.plainText v)] where
  writes := .plain h
  display := by simp [displayWithin_of_none h, Chunk.written]
  cut_iff := by simp [faultWithin_of_none h]
  plain _ := .plain h

theorem draws_of_mem (h : s.container? v = some (r, parts)) (hr : r ∈ path) :
    s.Draws room path v [.cut] where
  writes := .cut h (.inl hr)
  display := by simp [displayWithin_of_mem h hr, Chunk.written]
  cut_iff := by simp [faultWithin_of_mem h hr]
  plain hn := by simp [faultWithin_of_mem h hr] at hn

theorem draws_zero (h : s.container? v = some (r, parts)) (hr : r ∉ path)
    (hp : 64 ≤ path.length) : s.Draws 0 path v [.cut] where
  writes := .cut h (.inr hp)
  display := by simp [displayWithin_zero h, Chunk.written]
  cut_iff := by simp [faultWithin_zero h hr]
  plain hn := by simp [faultWithin_zero h hr] at hn

theorem draws_succ {drawn : Value → List Chunk} (h : s.container? v = some (r, parts))
    (hr : r ∉ path) (hp : path.length < 64) (hw : ∀ w, s.Draws room (r :: path) w (drawn w)) :
    s.Draws (room + 1) path v (s.assembled drawn v) where
  writes := .whole h (not_or.2 ⟨hr, Nat.not_le.2 hp⟩) fun w _ => (hw w).writes
  display := displayWithin_succ h hr fun w _ => (hw w).display
  cut_iff := by
    simp [cut_mem_assembled h, faultWithin_succ h hr, List.findSome?_isSome_iff, (hw _).cut_iff]
  plain hn := by
    rw [faultWithin_succ h hr, List.findSome?_eq_none_iff] at hn
    exact .whole h id fun w hmem => (hw w).plain (hn w hmem)

theorem exists_draws (s : Store) (room : Nat) (path : List Ref) (v : Value)
    (hroom : room + path.length = 64) : ∃ ps, s.Draws room path v ps := by
  -- On the room: a walk that enters a container gives up one place of it to the path.
  induction room generalizing path v with
  | zero =>
    cases h : s.container? v with
    | none => exact ⟨_, draws_of_none h⟩
    | some c =>
      by_cases hr : c.1 ∈ path
      · exact ⟨_, draws_of_mem h hr⟩
      · exact ⟨_, draws_zero h hr (by omega)⟩
  | succ room ih =>
    cases h : s.container? v with
    | none => exact ⟨_, draws_of_none h⟩
    | some c =>
      by_cases hr : c.1 ∈ path
      · exact ⟨_, draws_of_mem h hr⟩
      · choose drawn hdrawn using fun w => ih (c.1 :: path) w (by simp; omega)
        exact ⟨_, draws_succ h hr (by omega) hdrawn⟩

theorem toText_eq_ok_iff {t : String} :
    s.toText v = .ok t ↔ v.function? = none ∧ s.nestingFault? v = none ∧ t = s.display v := by
  cases v with
  | function f => simp [toText, Value.function?]
  | _ =>
    simp only [toText, Value.function?, true_and]
    split
    · next h => simp [h]
    · next h => simp [h, eq_comm]

/-! ## The guard -/

/-- A value has a fault exactly if some way into it comes twice to the same container or to more
than 64 of them. The recursion that shows a value always comes to an end. It writes what is
displayed, with a cut exactly if there is a fault, and without a fault it has the chunks of the
recursion that stops nowhere. A value has a text exactly if it is no function and has no fault, and
the text is what is displayed. -/
theorem nesting_guard_is_exact (s : Store) (v : Value) :
    ((s.nestingFault? v).isSome ↔
      ∃ rs, s.Passes v rs ∧ (¬rs.Nodup ∨ 64 < rs.length)) ∧
    (∃ ps, (∀ qs, s.Shows v qs ↔ qs = ps) ∧ s.display v = Chunk.joined ps ∧
      (.cut ∈ ps ↔ (s.nestingFault? v).isSome) ∧
      (s.nestingFault? v = none → ∀ qs, s.Renders v qs ↔ qs = ps)) ∧
    ∀ t, s.toText v = .ok t ↔
      v.function? = none ∧ s.nestingFault? v = none ∧ t = s.display v := by
  refine ⟨nestingFault?_isSome_iff, ?_, fun _ => toText_eq_ok_iff⟩
  obtain ⟨ps, hdraws⟩ := exists_draws s maxNesting [] v rfl
  refine ⟨ps, fun qs => ⟨fun h => h.unique hdraws.writes, fun h => h ▸ hdraws.writes⟩,
    hdraws.display, hdraws.cut_iff, fun hn qs => ?_⟩
  exact ⟨fun h => h.unique (hdraws.plain hn), fun h => h ▸ hdraws.plain hn⟩

/-- A list that holds itself is cut inside of itself. -/
example : (Store.mk #[.items [.int 1, .list 0]] 0).display (.list 0) = "[1, [...]]" := by
  decide +kernel

end Store

end TemplateEngine
