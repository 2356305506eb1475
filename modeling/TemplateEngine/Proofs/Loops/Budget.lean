import TemplateEngine.Proofs.Evaluation.Balance
import TemplateEngine.Proofs.Loops.History

/-!
# The budget of loops

Every run reports what happens to the loops on its way (`Logged`): the report is put together along
the run, in which each round of either kind of loop asks for its step and then runs its body. The
report and the context keep the same books (`Books`): the steps of the report are the ones that the
context counts, its active loops are the loops of the context, and it is lawful under the limit of
the context. The books of one operation after the other are those of the whole life of a context.
-/

namespace TemplateEngine

open TemplateEngine.Action

/-! ## Books -/

/-- The history of a context up to now has counted the same rounds and has the same active loops. -/
structure LoopHistory.Tells (h : LoopHistory) (c : Context) : Prop where
  steps : h.steps = c.scopes.iterations
  active : h.active = c.scopes.loops.map LoopFrame.position

/-- What happened to the loops on the way from one context to another. -/
structure Books (c : Context) (log : LoopHistory) (d : Context) : Prop where
  limits : d.limits = c.limits
  lawful {h : LoopHistory} : h.Tells c → LoopHistory.Continues c.limits.loops h log
  tells {h : LoopHistory} : h.Tells c → (h ++ log).Tells d

namespace Books

variable {c d e : Context} {log rest : LoopHistory}

/-- Nothing happens to the loops. -/
theorem nil (hlimits : d.limits = c.limits) (hloops : d.scopes.loops = c.scopes.loops)
    (hsteps : d.scopes.iterations = c.scopes.iterations) : Books c [] d where
  limits := hlimits
  lawful _ := trivial
  tells ht := by
    rw [List.append_nil]
    exact ⟨ht.steps.trans hsteps.symm, hloops ▸ ht.active⟩

theorem refl (c : Context) : Books c [] c := .nil rfl rfl rfl

theorem append (h : Books c log d) (k : Books d rest e) : Books c (log ++ rest) e where
  limits := k.limits.trans h.limits
  lawful ht := (h.lawful ht).append (h.limits ▸ k.lawful (h.tells ht))
  tells ht := by
    rw [← List.append_assoc]
    exact k.tells (h.tells ht)

/-- What is done before and after, where nothing happens to the loops, leaves no trace. -/
theorem around {c' d' : Context} (h : Books c [] c') (k : Books c' log d') (k' : Books d' [] d) :
    Books c log d := by
  simpa using (h.append k).append k'

theorem still (h : c.Still d) : Books c [] d := .nil h.limits h.loops h.iterations

theorem enter (p : Position) : Books c [.enter p] (enterLoop p c).2 where
  limits := rfl
  lawful _ := ⟨trivial, trivial⟩
  tells ht := ⟨by simp [LoopEvent.isStep, ht.steps]; rfl,
    by simp [LoopEvent.afterwards, ht.active]; rfl⟩

theorem exit {l : LoopFrame} {rest : List LoopFrame} (hl : c.scopes.loops = l :: rest) :
    Books c [.exit] (exitLoop c).2 := by
  simp only [exitLoop, Scopes.popLoop?, hl]
  refine ⟨rfl, fun ht => ⟨?_, trivial⟩, fun ht => ⟨?_, ?_⟩⟩
  · change LoopHistory.active _ ≠ []
    simp [ht.active, hl]
  · simp [LoopEvent.isStep, ht.steps]
  · simp [LoopEvent.afterwards, ht.active, hl]

end Books

/-! ## Steps -/

/-- What a step of a loop does, by its outcome. -/
def LoopEvent.ofStep : Outcome Unit → LoopEvent
  | .ok _ => .counted
  | .error (.script p _) => .refused p
  | .error _ | .outOfFuel => .refused .unknown

theorem Books.step (c : Context) : Books c [.ofStep (stepLoop c).1] (stepLoop c).2 := by
  unfold stepLoop
  dsimp only
  split
  · next hlt =>
    refine ⟨rfl, fun ht => ⟨?_, trivial⟩, fun ht => ⟨?_, ?_⟩⟩
    · exact ht.steps ▸ hlt
    · simp [LoopEvent.ofStep, LoopEvent.isStep, ht.steps]
    · simp [LoopEvent.ofStep, LoopEvent.afterwards, ht.active]
  · next hge =>
    refine ⟨rfl, fun ht => ⟨⟨?_, ?_⟩, trivial⟩, fun ht => ⟨?_, ?_⟩⟩
    · exact ht.steps ▸ Nat.le_of_not_lt hge
    · simp [LoopHistory.position, ht.active, Scopes.loopPosition]
    · simp [LoopEvent.ofStep, LoopEvent.isStep, ht.steps]
    · simp [LoopEvent.ofStep, LoopEvent.afterwards, ht.active]

/-- The body of a round runs right after the round was counted. -/
theorem Books.body {c d : Context} {u : Unit} (h : stepLoop c = (.ok u, d)) :
    Books c [.counted, .body] d := by
  have hs := Books.step c
  rw [h] at hs
  refine ⟨hs.limits, fun ht => ⟨(hs.lawful ht).1, List.getLast?_concat, trivial⟩, fun {k} ht => ?_⟩
  have hk : k ++ [.counted, .body] = (k ++ [.counted]) ++ [.body] := by simp
  rw [hk]
  constructor
  · rw [LoopHistory.steps_append]
    exact (hs.tells ht).steps
  · rw [LoopHistory.active_concat]
    exact (hs.tells ht).active

/-! ## Reports -/

/-- What an action reports to have happened to the loops, in keeping with the books. -/
structure Logged (out : Output → Output → Prop) {α : Type} (x : Action α) where
  log : Context → LoopHistory
  keeps : x.Keeps out
  books : ∀ c, Books c (log c) (x c).2

namespace Logged

variable {α β : Type} {out body : Output → Output → Prop} {x : Action α}

/-- Quiet actions have nothing to report. -/
def quiet (h : x.Quiet) : Logged Eq x where
  log _ := []
  keeps := h.keeps
  books c := .still (h c).2

/-- The report of an action comes before the report of what it goes on with. -/
def bind [Trans out out out] {f : α → Action β} (h : Logged out x) (hf : ∀ a, Logged out (f a)) :
    Logged out (x >>= f) where
  log c := h.log c ++
    match x c with
    | (.ok a, d) => (hf a).log d
    | (.error _, _) | (.outOfFuel, _) => []
  keeps := h.keeps.bind fun a => (hf a).keeps
  books c := by
    have hc := h.books c
    rcases hx : x c with ⟨a | e | _, d⟩ <;> rw [hx] at hc
    · rw [bind_of_ok hx]
      exact hc.append ((hf a).books d)
    · rw [bind_of_error hx]
      simpa using hc
    · rw [bind_of_outOfFuel hx]
      simpa using hc

def up [Std.Refl out] (h : Logged Eq x) : Logged out x := { h with keeps := h.keeps.up }

def suppress (b : Bool) (h : Logged out x) : Logged out (withSuppression b x) where
  log c := h.log { c with suppressed := b }
  keeps := h.keeps.withSuppression b
  books c :=
    have hc : Books c [] { c with suppressed := b } := .nil rfl rfl rfl
    hc.around (h.books _) (.nil rfl rfl rfl)

/-- Regions other than loops report what their bodies report. -/
def holding {r : Region} {opening : Action Unit} (hr : r.Restores opening body out)
    (ho : ∀ c, Books c [] (opening c).2) (hc : ∀ c, Books c [] (r.close c).2) (h : Logged body x) :
    Logged out (r.holding opening x) where
  log c :=
    match opening c with
    | (.ok _, d) => h.log d
    | (.error _, _) | (.outOfFuel, _) => []
  keeps := Region.keeps_holding hr h.keeps
  books c := by
    have hopen := ho c
    rcases hc' : opening c with ⟨u | e | _, d⟩ <;> rw [hc'] at hopen
    · rw [Region.holding_snd_of_ok hc']
      exact .around hopen (h.books d) (hc _)
    · rw [Region.holding_snd_of_not_ok (by simp [hc']), hc']
      exact hopen
    · rw [Region.holding_snd_of_not_ok (by simp [hc']), hc']
      exact hopen

theorem close_loop_snd (c : Context) : (Region.loop.close c).2 = (exitLoop c).2 := by
  simp only [Region.close, bind_apply]
  rcases exitLoop c with ⟨u | e | _, d⟩ <;> rfl

/-- Loops report when they begin and when they end. -/
def loop (p : Position) (h : Logged out x) :
    Logged out (Region.loop.holding (enterLoop p) x) where
  log c := .enter p :: (h.log (enterLoop p c).2 ++ [.exit])
  keeps := Region.keeps_holding (Region.restores_loop p) h.keeps
  books c := by
    have hloops := (h.keeps (enterLoop p c).2).loops
    have hopen : enterLoop p c = (.ok (), (enterLoop p c).2) := rfl
    rw [Region.holding_snd_of_ok hopen, close_loop_snd]
    exact (Books.enter p).append ((h.books _).append (.exit hloops))

/-- Rounds report their step, and then the body if it runs. -/
def countedRound {prepare : Action Unit} {f : Action Flow} (hp : prepare.Quiet)
    (h : Logged Output.Extends f) : Logged Output.Extends (Machine.countedRound prepare f) where
  log c :=
    match stepLoop c with
    | (.ok _, d) =>
      match prepare d with
      | (.ok _, e) => .counted :: .body :: h.log e
      | (.error _, _) | (.outOfFuel, _) => [.counted]
    | (r, _) => [.ofStep r]
  keeps := keeps_countedRound hp h.keeps
  books c := by
    have hs := Books.step c
    unfold Machine.countedRound
    rcases hc : stepLoop c with ⟨u | e | _, d⟩ <;> rw [hc] at hs
    · have hq := Books.still (hp d).2
      rw [bind_of_ok hc]
      rcases hd : prepare d with ⟨u | e | _, d'⟩ <;> rw [hd] at hq <;> dsimp only <;> rw [hd]
      · rw [bind_of_ok hd]
        exact ((Books.body hc).append hq).append (h.books d')
      · rw [bind_of_error hd]
        exact hs.append hq
      · rw [bind_of_outOfFuel hd]
        exact hs.append hq
    · rw [bind_of_error hc]
      exact hs
    · rw [bind_of_outOfFuel hc]
      exact hs

/-- What is the same action reports the same. -/
def congr {y : Action α} (hxy : y = x) (h : Logged out x) : Logged out y where
  log := h.log
  keeps := hxy ▸ h.keeps
  books := hxy ▸ h.books

/-- A round of a loop with a condition reports first what its condition does. -/
def whileBody {condition : Action Value} {f : Action Flow} (hc : Logged Eq condition)
    (h : Logged Output.Extends f) : Logged Output.Extends (Machine.whileBody condition f) :=
  congr (Machine.whileBody_eq condition f) <|
    hc.up.bind fun _ => (quiet (.view _)).up.bind fun holds =>
      match holds with
      | true => (countedRound (.pure ()) h).bind fun _ => (quiet (.pure _)).up
      | false => (quiet (.pure _)).up

/-- Rounds in a row report one after the other. -/
def repeatRound {round : Action (Option Flow)} (h : Logged Output.Extends round) :
    ∀ bound : Nat, Logged Output.Extends (α := Flow) (Machine.repeatRound round bound)
  | 0 => ⟨fun _ => [], fun c => .refl c, fun c => .refl c⟩
  | bound + 1 => congr (Machine.repeatRound_succ round bound) <| h.bind fun flow =>
    match flow with
    | none => repeatRound h bound
    | some _ => (quiet (.pure _)).up

def whileRounds {condition : Action Value} {f : Action Flow} (hc : Logged Eq condition)
    (h : Logged Output.Extends f) : Logged Output.Extends (Machine.whileRounds condition f) where
  log c := ((hc.whileBody h).repeatRound (c.limits.loops - c.scopes.iterations + 1)).log c
  keeps _ := ((hc.whileBody h).repeatRound _).keeps _
  books _ := ((hc.whileBody h).repeatRound _).books _

end Logged

/-! ## What spares the loops -/

/-- The action leaves the loops, their count and the limits alone. -/
def Action.Spares {α : Type} (x : Action α) : Prop := ∀ c, Books c [] (x c).2

theorem Action.Quiet.spares {α : Type} {x : Action α} (h : x.Quiet) : x.Spares :=
  fun c => .still (h c).2

theorem Action.Spares.bind {α β : Type} {x : Action α} {f : α → Action β} (hx : x.Spares)
    (hf : ∀ a, (f a).Spares) : (x >>= f).Spares := by
  intro c
  have hc := hx c
  rcases h : x c with ⟨a | e | _, d⟩ <;> rw [h] at hc
  · rw [bind_of_ok h]
    exact hc.append (hf a d)
  · rw [bind_of_error h]
    exact hc
  · rw [bind_of_outOfFuel h]
    exact hc

theorem spares_enterFunction (p : Position) : (enterFunction p).Spares := by
  intro c
  unfold enterFunction
  split
  · exact .nil rfl rfl rfl
  · exact .refl c

theorem spares_pushGlobal (model : Value) : (pushGlobal model).Spares := by
  intro c
  unfold pushGlobal
  split
  · exact .refl c
  · exact .nil rfl rfl rfl

theorem spares_pushSource (name : String) : (pushSource name).Spares := by
  intro c
  unfold pushSource
  split
  · exact .refl c
  · exact .nil rfl rfl rfl

theorem spares_pushOutput : pushOutput.Spares := fun _ => .nil rfl rfl rfl

theorem spares_exitFunction : exitFunction.Spares := by
  intro c
  unfold exitFunction Scopes.popLocal?
  split
  · exact .refl c
  · split
    · next h =>
      split at h
      · cases h
        exact .nil rfl rfl rfl
      · cases h
    · exact .refl c

theorem spares_popGlobal : popGlobal.Spares := by
  intro c
  unfold popGlobal Scopes.popGlobal?
  split
  · next h =>
    split at h
    · cases h
      exact .nil rfl rfl rfl
    · cases h
  · exact .refl c

theorem spares_popOutput : popOutput.Spares := by
  intro c
  unfold popOutput
  split
  · exact .nil rfl rfl rfl
  · exact .refl c

theorem spares_popSource : popSource.Spares := by
  intro c
  unfold popSource
  split
  · exact .nil rfl rfl rfl
  · exact .refl c

theorem spares_close {r : Region} (hr : r ≠ .loop) : r.close.Spares := by
  cases r with
  | function => exact spares_exitFunction.bind fun _ => (Quiet.pure _).spares
  | loop => exact absurd rfl hr
  | global => exact spares_popGlobal
  | output => exact spares_popOutput.bind fun _ => (Quiet.pure _).spares
  | source => exact spares_popSource.bind fun _ => (Quiet.pure _).spares

/-! ## Every run -/

/-- Every construct has a report. -/
def Congruence.logging : Congruence fun _ v _ x _ => Logged v.Change x where
  pure a := .quiet (.pure a)
  bind := .bind
  congr hx _ h := .congr hx h
  up := .up
  primitive h := .quiet h.quiet
  suppress b _ _ h := h.suppress b
  text t := ⟨fun _ => [], keeps_writeText t, fun _ => .nil rfl rfl rfl⟩
  function p _ _ h := .holding (Region.restores_function p) (spares_enterFunction p)
    (spares_close nofun) h
  global model _ _ h := .holding (Region.restores_global model) (spares_pushGlobal model)
    (spares_close nofun) h
  source name _ _ h := .holding (Region.restores_source name) (spares_pushSource name)
    (spares_close nofun) h
  output h := .holding Region.restores_output spares_pushOutput (spares_close nofun) h
  loop p _ _ h := h.loop p
  round name length item _ _ h := .countedRound (Machine.quiet_bindRound name length item) h
  whileRounds := .whileRounds

/-- Without operations of a host, their part of a machine reports nothing. -/
def loggedNative : ∀ (n : Nat) (f : Native) (args : List Value) (p : Position),
    Logged Eq ((machine .none n).native f args p)
  | 0, _, _, _ => ⟨fun _ => [], fun c => .refl c, fun c => .refl c⟩
  | _ + 1, _, _, _ => .quiet (.fail _)

/-- What the bodies of functions and templates report, with so many levels of calls. -/
def loggedRun : ∀ (n : Nat) (b : Block), Logged Output.Extends ((machine .none n).run b)
  | 0, _ => ⟨fun _ => [], fun c => .refl c, fun c => .refl c⟩
  | n + 1, b => Congruence.logging.block (n := machine .none n) (loggedRun n) (loggedNative n) b

/-! ## The life of a context -/

/-- What is done with a context from outside. -/
inductive Operation
  | render (t : Template) (model : Value)
  | renderPath (path : String) (model : Value)
  | execute (b : Block)
  | evaluate (e : Expr)
  | evaluateUninvoked (e : Expr)
  | assign (e : Expr) (v : Value)
  | call (f : Function) (args : List Value) (p : Position)
  | enterLoop (p : Position)
  | exitLoop
  | stepLoop
  /-- Everything else spares the loops. -/
  | other (x : Action Unit) (h : x.Spares)

namespace Operation

/-- The context after an operation with so many levels of calls, however that ended. -/
def after (n : Nat) (c : Context) : Operation → Context
  | render t model => (t.render (machine .none n) model c).2
  | renderPath path model => (TemplateEngine.renderPath (machine .none n) path model c).2
  | execute b => (runBlock (machine .none n) b c).2
  | evaluate e => (e.evaluate (machine .none n) c).2
  | evaluateUninvoked e => (e.evaluateUninvoked (machine .none n) c).2
  | assign e v => (e.assign (machine .none n) v c).2
  | call f args p => ((machine .none n).call f args p c).2
  | enterLoop p => (Action.enterLoop p c).2
  | exitLoop => (Action.exitLoop c).2
  | stepLoop => (Action.stepLoop c).2
  | other x _ => (x c).2

/-- What an operation reports. -/
def report (n : Nat) (c : Context) : Operation → LoopHistory
  | render t model =>
    (Congruence.logging.render (n := machine .none n) (loggedRun n) (loggedNative n) t model).log c
  | renderPath path model =>
    (Congruence.logging.renderPath (n := machine .none n) (loggedRun n) (loggedNative n) path
      model).log c
  | execute b =>
    (Congruence.logging.block (n := machine .none n) (loggedRun n) (loggedNative n) b).log c
  | evaluate e =>
    (Congruence.logging.evaluate (n := machine .none n) (loggedRun n) (loggedNative n) e).log c
  | evaluateUninvoked e =>
    (Congruence.logging.evaluateUninvoked (n := machine .none n) (loggedRun n) (loggedNative n)
      e).log c
  | assign e v =>
    (Congruence.logging.assign (n := machine .none n) (loggedRun n) (loggedNative n) e v).log c
  | call f args p =>
    (Congruence.logging.call (n := machine .none n) (loggedRun n) (loggedNative n) f args p).log c
  | enterLoop p => [.enter p]
  | exitLoop =>
    match c.scopes.loops with
    | [] => []
    | _ :: _ => [.exit]
  | stepLoop => [.ofStep (Action.stepLoop c).1]
  | other _ _ => []

theorem books (n : Nat) (c : Context) (o : Operation) : Books c (o.report n c) (o.after n c) := by
  cases o with
  | render | renderPath | execute | evaluate | evaluateUninvoked | assign | call =>
    exact Logged.books _ c
  | enterLoop p => exact .enter p
  | exitLoop =>
    unfold report after
    cases h : c.scopes.loops with
    | nil =>
      simp only [Action.exitLoop, Scopes.popLoop?, h]
      exact .refl c
    | cons l rest => exact .exit h
  | stepLoop => exact .step c
  | other x h => exact h c

end Operation

/-- What operations report in turn, and the context after them. -/
def life : List (Nat × Operation) → Context → LoopHistory × Context
  | [], c => ([], c)
  | (n, o) :: rest, c =>
    let (log, d) := life rest (o.after n c)
    (o.report n c ++ log, d)

theorem books_life (ops : List (Nat × Operation)) (c : Context) :
    Books c (life ops c).1 (life ops c).2 := by
  induction ops generalizing c with
  | nil => exact .refl c
  | cons op rest ih => exact (op.2.books op.1 c).append (ih _)

theorem tells_newContext (s : Settings) : LoopHistory.Tells [] s.newContext :=
  ⟨rfl, rfl⟩

example :
    let p : Position := ⟨1, 1⟩
    let s : Settings := { Settings.standard id with limits := ⟨2, 1⟩ }
    (life [(1, .execute [.repeatWhile (.literal (.bool true) p) [] p])] s.newContext).1 =
      [.enter p, .counted, .body, .counted, .body, .refused p, .exit] := by
  decide +kernel

end TemplateEngine
