import TemplateEngine.Proofs.Evaluation.Balance
import TemplateEngine.Proofs.Evaluation.Unaware
import TemplateEngine.Proofs.Frames.Order

/-!
# Reports of frames

Every action reports which frames it opens and closes (`Watched`), and the report and the context
keep the same books (`FrameBooks`). Primitive actions open and close nothing
(`Action.Primitive.frameBooks`), regions open and close one frame each or none, and the report of a
run is put together along the run (`Congruence.watching`). Nothing is said about what is opened
first: a function may be left, a model closed or a loop ended out of turn.
-/

namespace TemplateEngine

open TemplateEngine.Action

/-! ## Books -/

/-- What happened to the frames on the way from one context to another. -/
structure FrameBooks (c : Context) (log : FrameHistory) (d : Context) : Prop where
  limits : d.limits = c.limits
  scopes : Scopes.Books c.limits.depth c.scopes log d.scopes

namespace FrameBooks

variable {c d e : Context} {log rest : FrameHistory}

theorem refl (c : Context) : FrameBooks c [] c := ⟨rfl, .refl _ _⟩

theorem append (h : FrameBooks c log d) (k : FrameBooks d rest e) :
    FrameBooks c (log ++ rest) e where
  limits := k.limits.trans h.limits
  scopes := h.scopes.append (h.limits ▸ k.scopes)

/-- The scopes are left as they are. -/
theorem same (hlimits : d.limits = c.limits) (hscopes : d.scopes = c.scopes) :
    FrameBooks c [] d :=
  ⟨hlimits, hscopes ▸ .refl _ _⟩

/-- Only the loop rounds are counted on. -/
theorem counted (hlimits : d.limits = c.limits) {n : Nat}
    (hscopes : d.scopes = { c.scopes with iterations := n }) : FrameBooks c [] d :=
  ⟨hlimits, hscopes ▸ .nil rfl rfl id rfl rfl rfl⟩

end FrameBooks

/-! ## Primitive actions -/

section

variable {α : Type} {x : Action α}

/-- What neither looks at the frames nor changes them leaves the scopes as they are. -/
theorem scopes_of_unaware (hq : x.Quiet) (h : x.Unaware) (c : Context) :
    (x c).2.scopes = c.scopes := by
  have hpool : (x c).2.scopes.pool = c.scopes.pool := congrArg Foreground.pool (h.foreground c)
  have hstill : c.Still (x c).2 := (hq c).2
  rw [← hstill, hpool]

theorem frameBooks_of_unaware (hq : x.Quiet) (h : x.Unaware) (c : Context) :
    FrameBooks c [] (x c).2 :=
  .same (hq c).2.limits (scopes_of_unaware hq h c)

theorem frameBooks_readVariable (ref : VarRef) (c : Context) :
    FrameBooks c [] (readVariable ref c).2 := by
  cases h : ref.scope with
  | global => exact frameBooks_of_unaware (quiet_readVariable ref) (unaware_readVariable h) c
  | locals =>
    simp only [readVariable, h]
    exact .refl c
  | loop =>
    simp only [readVariable, h, bind_apply, view]
    cases c.scopes.loopFrame? with
    | none => exact .refl c
    | some frame => exact .refl c

theorem frameBooks_writeVariable (ref : VarRef) (v : Value) (c : Context) :
    FrameBooks c [] (writeVariable ref v c).2 := by
  cases h : ref.scope with
  | global =>
    exact frameBooks_of_unaware (quiet_writeVariable ref v) (unaware_writeVariable h v) c
  | locals =>
    simp only [writeVariable, h, bind_apply, view]
    cases c.scopes.localFrame.set ref.name v with
    | ok frame => exact ⟨rfl, Scopes.books_setLocalFrame _ _⟩
    | error e => exact .refl c
  | loop =>
    simp only [writeVariable, h, bind_apply, view]
    cases c.scopes.loopFrame? with
    | none => exact .refl c
    | some frame =>
      dsimp only
      cases frame.set ref.name v with
      | ok frame => exact ⟨rfl, Scopes.books_setLoopFrame _ _⟩
      | error e => exact .refl c

theorem frameBooks_setReadOnly (ref : VarRef) (readOnly : Bool) (c : Context) :
    FrameBooks c [] (setReadOnly ref readOnly c).2 := by
  cases h : ref.scope with
  | global =>
    simp only [setReadOnly, h, Action.modify]
    split
    · exact .same rfl rfl
    · exact ⟨rfl, Scopes.books_flagGlobal _ _ _⟩
  | locals =>
    simp only [setReadOnly, h]
    exact ⟨rfl, Scopes.books_setLocalFrame _ _⟩
  | loop =>
    simp only [setReadOnly, h, bind_apply, view]
    cases c.scopes.loopFrame? with
    | none => exact .refl c
    | some frame => exact ⟨rfl, Scopes.books_setLoopFrame _ _⟩

theorem frameBooks_bindLoop (name : String) (v : Value) (c : Context) :
    FrameBooks c [] (bindLoop name v c).2 := by
  unfold bindLoop
  split
  · exact ⟨rfl, Scopes.books_setLoopFrame _ _⟩
  · exact .refl c

theorem frameBooks_stepLoop (c : Context) : FrameBooks c [] (stepLoop c).2 := by
  unfold stepLoop
  dsimp only
  split <;> exact .counted rfl rfl

/-- Primitive actions open and close nothing. -/
theorem Action.Primitive.frameBooks (h : x.Primitive) (c : Context) :
    FrameBooks c [] (x c).2 := by
  cases h with
  | suppressed => exact .refl c
  | failAt p fault => exact .refl c
  | inStore f => exact .refl c
  | tryView p f => exact frameBooks_of_unaware (.tryView p f) (.tryView p f) c
  | newList vs => exact .same rfl rfl
  | newMap d => exact .same rfl rfl
  | newNamespace f => exact .same rfl rfl
  | bindLocal name v => exact ⟨rfl, Scopes.books_setLocalFrame _ _⟩
  | inheritLoop => exact ⟨rfl, Scopes.books_inheritLoop _⟩
  | binary p op a b => exact frameBooks_of_unaware (.tryStore p _) (.tryStore p _) c
  | readVariable ref => exact frameBooks_readVariable ref c
  | writeVariable ref v => exact frameBooks_writeVariable ref v c
  | ofMember object name target p =>
    exact frameBooks_of_unaware (quiet_ofMember _ _ _ _) (unaware_ofMember _ _ _ _) c
  | ofKey object key q target p =>
    exact frameBooks_of_unaware (quiet_ofKey _ _ _ _ _) (unaware_ofKey _ _ _ _ _) c
  | read place => exact frameBooks_of_unaware (quiet_read place) (unaware_read place) c
  | write v place => exact frameBooks_of_unaware (quiet_write v place) (unaware_write v place) c
  | builtin b args p =>
    exact frameBooks_of_unaware (quiet_builtin b args p) (unaware_builtin b args p) c
  | load path p =>
    exact frameBooks_of_unaware (quiet_loadTemplate path p) (unaware_loadTemplate path p) c

end

/-! ## Reports -/

/-- What an action reports to have happened to the frames, in keeping with the books. -/
structure Watched {α : Type} (x : Action α) where
  log : Context → FrameHistory
  books (c : Context) : FrameBooks c (log c) (x c).2

namespace Watched

variable {α β : Type} {x : Action α}

/-- Nothing is opened or closed. -/
def silent (h : ∀ c, FrameBooks c [] (x c).2) : Watched x := ⟨fun _ => [], h⟩

def pure (a : α) : Watched (pure a) := silent .refl

/-- Either the action has a result and a frame is opened or closed, or it has none and does
nothing. -/
def event (e : FrameEvent) (h : ∀ c, (∃ a d, x c = (.ok a, d) ∧ FrameBooks c [e] d) ∨
    (∀ a, (x c).1 ≠ .ok a) ∧ (x c).2 = c) : Watched x where
  log c :=
    match (x c).1 with
    | .ok _ => [e]
    | .error _ | .outOfFuel => []
  books c := by
    rcases h c with ⟨a, d, hx, hbooks⟩ | ⟨hfail, hsame⟩
    · rw [hx]
      exact hbooks
    · rw [hsame]
      rcases hx : (x c).1 with a | e | _
      · exact absurd hx (hfail a)
      · exact .refl c
      · exact .refl c

/-- The report of an action comes before the report of what it goes on with. -/
def bind {f : α → Action β} (h : Watched x) (hf : ∀ a, Watched (f a)) : Watched (x >>= f) where
  log c := h.log c ++
    match x c with
    | (.ok a, d) => (hf a).log d
    | (.error _, _) | (.outOfFuel, _) => []
  books c := by
    have hc := h.books c
    rcases hx : x c with ⟨a | e | _, d⟩ <;> rw [hx] at hc
    · rw [bind_of_ok hx]
      exact hc.append ((hf a).books d)
    · rw [bind_of_error hx]
      simpa using hc
    · rw [bind_of_outOfFuel hx]
      simpa using hc

/-- What is the same action reports the same. -/
def congr {y : Action α} (hxy : y = x) (h : Watched x) : Watched y where
  log := h.log
  books := hxy ▸ h.books

def suppress (b : Bool) (h : Watched x) : Watched (withSuppression b x) where
  log c := h.log { c with suppressed := b }
  books c := ⟨(h.books _).limits, (h.books { c with suppressed := b }).scopes⟩

/-- What is opened is closed again, whatever the body has opened and closed in between. -/
def holding {r : Region} {opening : Action Unit} (ho : Watched opening) (hc : Watched r.close)
    (h : Watched x) : Watched (r.holding opening x) where
  log c := ho.log c ++
    match opening c with
    | (.ok _, d) => h.log d ++ hc.log (x d).2
    | (.error _, _) | (.outOfFuel, _) => []
  books c := by
    have hopen := ho.books c
    rcases hc' : opening c with ⟨u | e | _, d⟩ <;> rw [hc'] at hopen
    · rw [Region.holding_snd_of_ok hc']
      exact hopen.append ((h.books d).append (hc.books _))
    · rw [Region.holding_snd_of_not_ok (by simp [hc']), hc']
      simpa using hopen
    · rw [Region.holding_snd_of_not_ok (by simp [hc']), hc']
      simpa using hopen

/-! ### Opening and closing -/

def enterFunction (p : Position) : Watched (enterFunction p) := event .opened fun c => by
  unfold Action.enterFunction
  split
  · next hlt => exact .inl ⟨_, _, rfl, rfl, Scopes.books_enter hlt⟩
  · exact .inr ⟨nofun, rfl⟩

def exitFunction : Watched exitFunction := event .closed fun c => by
  unfold Action.exitFunction
  split
  · exact .inr ⟨nofun, rfl⟩
  · next hd =>
    split
    · next hpop => exact .inl ⟨_, _, rfl, rfl, Scopes.books_exit hd hpop⟩
    · exact .inr ⟨nofun, rfl⟩

def pushGlobal (model : Value) : Watched (pushGlobal model) := event .opened fun c => by
  unfold Action.pushGlobal
  split
  · exact .inr ⟨nofun, rfl⟩
  · exact .inl ⟨_, _, rfl, rfl, Scopes.books_pushGlobal _ _⟩

def popGlobal : Watched popGlobal := event .closed fun c => by
  unfold Action.popGlobal
  split
  · next hpop => exact .inl ⟨_, _, rfl, rfl, Scopes.books_popGlobal hpop⟩
  · exact .inr ⟨nofun, rfl⟩

def enterLoop (p : Position) : Watched (enterLoop p) := event .opened fun _ =>
  .inl ⟨_, _, rfl, rfl, Scopes.books_pushLoop _ p⟩

def exitLoop : Watched exitLoop := event .closed fun c => by
  unfold Action.exitLoop
  split
  · next hpop => exact .inl ⟨_, _, rfl, rfl, Scopes.books_popLoop hpop⟩
  · exact .inr ⟨nofun, rfl⟩

def pushOutput : Watched pushOutput := silent fun _ => .same rfl rfl

def popOutput : Watched popOutput := silent fun c => by
  unfold Action.popOutput
  split
  · exact .same rfl rfl
  · exact .refl c

def pushSource (name : String) : Watched (pushSource name) := silent fun c => by
  unfold Action.pushSource
  split
  · exact .refl c
  · exact .same rfl rfl

def popSource : Watched popSource := silent fun c => by
  unfold Action.popSource
  split
  · exact .same rfl rfl
  · exact .refl c

def close : ∀ r : Region, Watched r.close
  | .function => exitFunction.bind fun _ => pure _
  | .loop => exitLoop.bind fun _ => pure _
  | .global => popGlobal
  | .output => popOutput.bind fun _ => pure _
  | .source => popSource.bind fun _ => pure _

/-! ### Loops -/

def countedRound {prepare : Action Unit} {f : Action Flow} (hp : Watched prepare)
    (h : Watched f) : Watched (Machine.countedRound prepare f) :=
  (silent frameBooks_stepLoop).bind fun _ => hp.bind fun _ => h

def bindRound (name : String) (length : Nat) (item : Value × Nat) :
    Watched (Machine.bindRound name length item) :=
  (silent (frameBooks_bindLoop _ _)).bind fun _ =>
    (silent fun _ => .same rfl rfl).bind fun _ => silent (frameBooks_bindLoop _ _)

def whileBody {condition : Action Value} {f : Action Flow} (hc : Watched condition)
    (h : Watched f) : Watched (Machine.whileBody condition f) :=
  congr (Machine.whileBody_eq condition f) <|
    hc.bind fun _ => (silent .refl).bind fun holds =>
      match holds with
      | true => (countedRound (pure ()) h).bind fun _ => pure _
      | false => pure _

/-- Rounds in a row report one after the other. -/
def repeatRound {round : Action (Option Flow)} (h : Watched round) :
    ∀ bound : Nat, Watched (α := Flow) (Machine.repeatRound round bound)
  | 0 => silent .refl
  | bound + 1 => congr (Machine.repeatRound_succ round bound) <| h.bind fun flow =>
    match flow with
    | none => repeatRound h bound
    | some _ => pure _

def whileRounds {condition : Action Value} {f : Action Flow} (hc : Watched condition)
    (h : Watched f) : Watched (Machine.whileRounds condition f) where
  log c := ((hc.whileBody h).repeatRound (c.limits.loops - c.scopes.iterations + 1)).log c
  books c := ((hc.whileBody h).repeatRound _).books c

end Watched

/-! ## Every run -/

/-- Every construct has a report. -/
def Congruence.watching : Congruence fun _ _ _ x _ => Watched x where
  pure a := .pure a
  bind := .bind
  congr hx _ h := .congr hx h
  up h := h
  primitive h := .silent h.frameBooks
  suppress b _ _ h := h.suppress b
  text _ := .silent fun _ => .same rfl rfl
  function p _ _ h := .holding (.enterFunction p) (.close _) h
  global model _ _ h := .holding (.pushGlobal model) (.close _) h
  source name _ _ h := .holding (.pushSource name) (.close _) h
  output h := .holding .pushOutput (.close _) h
  loop p _ _ h := .holding (.enterLoop p) (.close _) h
  round name length item _ _ h := .countedRound (.bindRound name length item) h
  whileRounds := .whileRounds

/-- What a machine reports where evaluation leaves the syntax. -/
structure Machine.Watched (m : Machine) where
  run (b : Block) : TemplateEngine.Watched (m.run b)
  native (f : Native) (args : List Value) (p : Position) :
    TemplateEngine.Watched (m.native f args p)

/-- The operations of a host report what they open and close, whatever that is. -/
abbrev Host.Watched (host : Host) :=
  ∀ (f : Native) (m : Machine), m.Watched → ∀ (args : List Value) (p : Position),
    TemplateEngine.Watched (host f m args p)

/-- A host without operations has nothing to report. -/
def Host.none_watched : Host.none.Watched := fun _ _ _ _ _ => .silent .refl

/-- What bodies and operations report, with so many levels of calls. -/
def Host.Watched.machine {host : Host} (h : host.Watched) : ∀ n, (machine host n).Watched
  | 0 => ⟨fun _ => .silent .refl, fun _ _ _ => .silent .refl⟩
  | n + 1 =>
    let m := Host.Watched.machine h n
    ⟨Congruence.watching.block (n := TemplateEngine.machine host n) m.run m.native,
      fun f args p => h f _ m args p⟩

end TemplateEngine
