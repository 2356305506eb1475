import TemplateEngine.State.Region

/-!
# Histories of loops

What happens to the loops of a context, event by event: loops begin and end, rounds are counted or
refused, and bodies run. A history is lawful under a ceiling if the rounds are counted up to the
ceiling and refused from then on, if a refusal names the place of the innermost loop, and if each
body runs right after a round was counted (`LoopEvent.Lawful`). In a lawful history no more bodies
run than the ceiling says, whatever the loops are.
-/

namespace TemplateEngine

/-- What can happen to loops. -/
inductive LoopEvent
  | enter (p : Position)
  | exit
  /-- A round was counted. -/
  | counted
  /-- A round was refused, with this place in the message. -/
  | refused (p : Position)
  /-- The body of a round begins. -/
  | body
deriving DecidableEq

namespace LoopEvent

/-- Whether a round was asked for. -/
def isStep : LoopEvent → Bool
  | .counted | .refused _ => true
  | .enter _ | .exit | .body => false

/-- The places of the active loops after an event, innermost first. -/
def afterwards (active : List Position) : LoopEvent → List Position
  | .enter p => p :: active
  | .exit => active.tail
  | .counted | .refused _ | .body => active

end LoopEvent

/-- Events, earliest first. -/
abbrev LoopHistory := List LoopEvent

namespace LoopHistory

/-- The rounds that were asked for. -/
def steps (h : LoopHistory) : Nat := h.countP LoopEvent.isStep

/-- The places of the active loops, innermost first. -/
def active (h : LoopHistory) : List Position := h.foldl LoopEvent.afterwards []

/-- The place of the innermost loop. -/
def position (h : LoopHistory) : Position := h.active.head?.getD .unknown

@[simp] theorem steps_append (h k : LoopHistory) : steps (h ++ k) = h.steps + k.steps :=
  List.countP_append

@[simp] theorem steps_singleton (e : LoopEvent) : steps [e] = if e.isStep then 1 else 0 :=
  List.countP_singleton

@[simp] theorem active_concat (h : LoopHistory) (e : LoopEvent) :
    active (h ++ [e]) = e.afterwards h.active := by
  simp [active]

end LoopHistory

/-- Whether an event may follow a history under a ceiling. -/
def LoopEvent.Lawful (ceiling : Nat) (before : LoopHistory) : LoopEvent → Prop
  | .enter _ => True
  | .exit => before.active ≠ []
  | .counted => before.steps < ceiling
  | .refused p => ceiling ≤ before.steps ∧ p = before.position
  | .body => before.getLast? = some .counted

namespace LoopHistory

/-- Whether events may follow a history, each in turn. -/
def Continues (ceiling : Nat) (before : LoopHistory) : LoopHistory → Prop
  | [] => True
  | e :: rest => e.Lawful ceiling before ∧ Continues ceiling (before ++ [e]) rest

variable {ceiling : Nat} {before h k : LoopHistory}

theorem Continues.append (hh : Continues ceiling before h)
    (hk : Continues ceiling (before ++ h) k) : Continues ceiling before (h ++ k) := by
  induction h generalizing before with
  | nil => simpa using hk
  | cons e rest ih => exact ⟨hh.1, ih hh.2 (by simpa using hk)⟩

theorem Continues.lawful (hh : Continues ceiling before h) (i : Fin h.length) :
    h[i].Lawful ceiling (before ++ h.take i) := by
  induction h generalizing before with
  | nil => exact i.elim0
  | cons e rest ih =>
    cases i using Fin.cases with
    | zero => simpa using hh.1
    | succ i => simpa using ih hh.2 i

/-! ## The ceiling -/

/-- The outcomes of the rounds that were asked for: whether each was counted. -/
def verdicts (h : LoopHistory) : List Bool :=
  (h.filter LoopEvent.isStep).map (· == .counted)

/-- What a lawful history has done to the count: bodies that ran are rounds that were counted, one
of which may still wait for its body. -/
structure Within (ceiling : Nat) (h : LoopHistory) : Prop where
  counted : h.count .counted = min h.steps ceiling
  bodies : h.count .body + (if h.getLast? = some .counted then 1 else 0) ≤ h.count .counted
  verdicts : h.verdicts =
    List.replicate (min h.steps ceiling) true ++ List.replicate (h.steps - ceiling) false

theorem Within.nil (ceiling : Nat) : Within ceiling [] := by
  constructor <;> simp [steps, LoopHistory.verdicts]

theorem verdicts_concat (h : LoopHistory) (e : LoopEvent) :
    (h ++ [e]).verdicts = h.verdicts ++ if e.isStep then [e == .counted] else [] := by
  unfold LoopHistory.verdicts
  cases e <;> simp [LoopEvent.isStep, List.filter_cons]

/-- An event that asks for no round and runs no body changes nothing that is counted. -/
theorem Within.other {e : LoopEvent} (hw : Within ceiling h) (hs : e.isStep = false)
    (hb : e ≠ .body) : Within ceiling (h ++ [e]) where
  counted := by
    have hc : e ≠ .counted := fun he => by simp [he, LoopEvent.isStep] at hs
    simpa [hs, List.count_singleton, hc] using hw.counted
  bodies := by
    have hc : e ≠ .counted := fun he => by simp [he, LoopEvent.isStep] at hs
    have := hw.bodies
    simp only [List.count_append, List.count_singleton, List.getLast?_concat, beq_iff_eq, hb, hc,
      Option.some.injEq, if_false, Nat.add_zero]
    omega
  verdicts := by
    simpa [verdicts_concat, hs] using hw.verdicts

theorem Within.concat {e : LoopEvent} (hw : Within ceiling h) (he : e.Lawful ceiling h) :
    Within ceiling (h ++ [e]) := by
  obtain ⟨hcount, hbody, hverd⟩ := hw
  cases e with
  | enter p => exact Within.other ⟨hcount, hbody, hverd⟩ rfl nofun
  | exit => exact Within.other ⟨hcount, hbody, hverd⟩ rfl nofun
  | body =>
    have he : h.getLast? = some .counted := he
    rw [if_pos he] at hbody
    refine ⟨?_, ?_, ?_⟩
    · simpa [LoopEvent.isStep] using hcount
    · simpa using hbody
    · simpa [verdicts_concat, LoopEvent.isStep] using hverd
  | counted =>
    have he : h.steps < ceiling := he
    refine ⟨?_, ?_, ?_⟩
    · simp [LoopEvent.isStep, hcount]
      omega
    · simp
      omega
    · have hmin : min (h.steps + 1) ceiling = min h.steps ceiling + 1 := by omega
      have hleft : h.steps + 1 - ceiling = h.steps - ceiling := by omega
      have hzero : h.steps - ceiling = 0 := by omega
      simp [verdicts_concat, LoopEvent.isStep, hverd, hmin, hleft, hzero, List.replicate_succ']
  | refused p =>
    have he : ceiling ≤ h.steps := he.1
    refine ⟨?_, ?_, ?_⟩
    · simp [LoopEvent.isStep, hcount]
      omega
    · simp
      omega
    · have hmin : min (h.steps + 1) ceiling = min h.steps ceiling := by omega
      have hleft : h.steps + 1 - ceiling = (h.steps - ceiling) + 1 := by omega
      simp [verdicts_concat, LoopEvent.isStep, hverd, hmin, hleft, List.replicate_succ']

/-- Whatever continues a history lawfully stays within the ceiling. -/
theorem Within.append (hw : Within ceiling before) (hh : Continues ceiling before h) :
    Within ceiling (before ++ h) := by
  induction h generalizing before with
  | nil => simpa using hw
  | cons e rest ih => simpa using ih (hw.concat hh.1) hh.2

/-- No more bodies have run than the ceiling says. -/
theorem Within.count_body_le (hw : Within ceiling h) : h.count .body ≤ ceiling := by
  have hc := hw.counted
  have hb := hw.bodies
  omega

end LoopHistory

end TemplateEngine
