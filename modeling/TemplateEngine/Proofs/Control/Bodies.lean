import TemplateEngine.Proofs.Control.Exits

/-!
# Control and the bodies it stays in

A source whose tags nest, and whose literals are in range, is read exactly if its loop controls
stand in loops. In what is read, a `break` or a `continue` reaches the innermost loop around it in
the source and no other, so that no body is ever left by one, and a `return` ends the body that it
stands in: a call goes on with the value, and an include or a rendering with what was written
(`control_stays_in_place`).
-/

namespace TemplateEngine

open TemplateEngine.Action

/-! ## Bodies -/

/-- The blocks that a template is run by: its own body and those of the functions in it. -/
def Template.bodies (t : Template) : List Block :=
  t.body :: (functionsIn t.body).map FunctionDef.body

theorem Template.strayControl?_bodies {t : Template} (h : strayControl? false t.body = none) :
    ∀ b ∈ t.bodies, strayControl? false b = none := by
  refine List.forall_mem_cons.2 ⟨h, List.forall_mem_map.2 ?_⟩
  exact strayControl?_functionsIn t.body h

/-- No control in a template that was read is stray, whether its functions have been numbered or
not. -/
theorem strayControl?_of_parse {name source : String} {options : ParserOptions} {t u : Template}
    (h : Template.parse name source options = .ok t) (hu : u = t ∨ ∃ n, u = (t.identify n).1) :
    strayControl? false u.body = none := by
  obtain ⟨body, hbody, rfl⟩ := Template.parse_eq_ok_iff.1 h
  obtain ⟨pieces, block, -, -, -, hstray, rfl⟩ := parseBlock_eq_ok_iff.1 hbody
  have hresolved : strayControl? false (resolveBlock .top block) = none := by
    rw [strayControl?_resolve, hstray]
  obtain rfl | ⟨n, rfl⟩ := hu
  · exact hresolved
  · have hnumbered := strayControl?_identify false (resolveBlock .top block) (n + 1)
    exact hnumbered.trans hresolved

/-- Where tags nest and literals are in range, only stray controls keep a source from being read. -/
theorem exists_parse_iff {source : String} {options : ParserOptions} {pieces : List Piece}
    {b : Block} (name : String) (hpieces : piecesOf source.toList = .ok pieces)
    (hrange : ∀ p ∈ pieces, ∀ e ∈ p.content.exprs, e.oversized? = none)
    (hblock : Block.ofTokens (tokensOf options false pieces) = .ok b) :
    (∃ t, Template.parse name source options = .ok t) ↔ b.ControlsLoops := by
  rw [← strayControl?_eq_none_iff]
  constructor
  · rintro ⟨t, ht⟩
    obtain ⟨body, hbody, -⟩ := Template.parse_eq_ok_iff.1 ht
    obtain ⟨pieces', b', hpieces', -, hblock', hstray, -⟩ := parseBlock_eq_ok_iff.1 hbody
    obtain rfl : pieces = pieces' := by simpa [hpieces] using hpieces'
    obtain rfl : b = b' := by simpa [hblock] using hblock'
    exact hstray
  · intro hstray
    have hliterals : (pieces.flatMap (·.content.exprs)).findSome? Expr.oversized? = none := by
      rw [List.findSome?_eq_none_iff]
      intro e he
      obtain ⟨p, hp, hep⟩ := List.mem_flatMap.1 he
      exact hrange p hp e hep
    have hbody := parseBlock_eq_ok_iff.2 ⟨pieces, b, hpieces, hliterals, hblock, hstray, rfl⟩
    exact ⟨_, Template.parse_eq_ok_iff.2 ⟨_, hbody, rfl⟩⟩

/-! ## Where a body ends -/

/-- The flow that an exit is. -/
def Exit.flow : Except Exit Unit → Flow
  | .ok () => .normal
  | .error (.stop _) => .stop
  | .error (.next _) => .next
  | .error (.leave value) => .leave value

/-- Runs the work of a body to its end or to its `return`, which ends here, and gives the value that
is returned, if there is one. -/
def Exit.ending (work : Exit.Work Unit) : Action (Option Value) := do
  let r ← work.run
  match r with
  | .error (.leave value) => pure value
  | .error (.stop _) | .error (.next _) | .ok () => pure none

/-- Calls a function whose body runs on the machine and ends at its `return`. -/
def callExiting (m : Machine) (f : FunctionDef) (args : List Value) (p : Position) :
    Action Value :=
  if f.params.length < args.length then
    failAt p (.argumentCount f.name.name f.params.length args.length)
  else
    Region.function.around (enterFunction p) do
      Machine.bindParams f.params args
      let (returned, text) ←
        Region.output.holding pushOutput (Exit.ending (blockExiting m 0 f.body))
      pure (returned.getD text)

/-- Includes a template whose body runs on the machine and ends at its `return`. -/
def includeExiting (m : Machine) (t : Template) (model : Option Value) (p : Position) :
    Action Unit :=
  Region.function.around (enterFunction p) <|
    Region.source.around (pushSource t.name) do
      let _ ← match model with
        | some v => Region.global.around (pushGlobal v) (Exit.ending (blockExiting m 0 t.body))
        | none => Exit.ending (blockExiting m 0 t.body)
      pure ()

/-- Renders a template whose body ends at its `return`. -/
def renderExiting (m : Machine) (t : Template) (model : Value) : Action String := do
  let model ← if model.isAbsent then onStore fun s => s.newMap .empty else pure model
  Region.global.around (pushGlobal model) do
    let names ← onStore fun s => s.newNamespace .empty
    Region.global.around (pushGlobal names) <|
      Region.source.around (pushSource (if t.name.isEmpty then "<inline>" else t.name)) do
        let (_, text) ← Region.output.holding pushOutput (Exit.ending (blockExiting m 0 t.body))
        pure (bufferText text)

/-! ## Bodies that run the same -/

/-- A body has ended by itself or with a `return`. -/
inductive Exit.Ended : Flow → Option Value → Prop
  | normal : Ended .normal none
  | leave (value : Option Value) : Ended (.leave value) value

namespace Action.Matches

variable {α β : Type} {R : α → β → Prop} {x : Action α} {y : Action β}

/-- Actions that match and give the same are one action. -/
theorem eq {x y : Action α} (h : x.Matches Eq y) : x = y := by
  funext c
  obtain ⟨hr, hd⟩ := h c
  rcases hx : x c with ⟨r, d⟩
  rcases hy : y c with ⟨r', d'⟩
  rw [hx, hy] at hr hd
  obtain rfl : d = d' := hd
  cases hr with
  | ok hab => rw [hab]
  | error e => rfl
  | outOfFuel => rfl

/-- A result of the first is related to a result of the second. -/
theorem result (h : x.Matches R y) {c d : Context} {a : α} (hx : x c = (.ok a, d)) :
    ∃ b, R a b := by
  obtain ⟨hr, -⟩ := h c
  rw [hx] at hr
  generalize (y c).1 = r at hr
  cases hr with
  | ok hab => exact ⟨_, hab⟩

end Action.Matches

section

variable {m : Machine} {b : Block} (h : strayControl? false b = none)

include h

/-- The body runs as it does with exits, and none of them is an exit of a loop. -/
theorem body_runsAs (m : Machine) : Exit.RunsAs 0 (runBlock m b) (blockExiting m 0 b) :=
  block_runsAs m 0 b h

theorem runBlock_eq_flow (m : Machine) :
    runBlock m b = (blockExiting m 0 b).run >>= fun r => pure (Exit.flow r) := by
  have hbind : (runBlock m b >>= pure).Matches Eq
      ((blockExiting m 0 b).run >>= fun r => pure (Exit.flow r)) := by
    refine .bind (body_runsAs h m) ?_
    intro flow r hr
    cases hr with
    | normal => exact .pure rfl
    | stop hpos => exact absurd hpos (Nat.lt_irrefl 0)
    | next hpos => exact absurd hpos (Nat.lt_irrefl 0)
    | leave v => exact .pure rfl
  rw [bind_pure] at hbind
  exact hbind.eq

/-- A body is never left by a control of a loop. -/
theorem runBlock_ne_control (m : Machine) (c : Context) :
    (runBlock m b c).1 ≠ .ok .stop ∧ (runBlock m b c).1 ≠ .ok .next := by
  have hmatch := body_runsAs h m
  constructor
  · intro hstop
    obtain ⟨r, hr⟩ := hmatch.result (Prod.ext hstop rfl)
    cases hr with
    | stop hpos => exact Nat.lt_irrefl 0 hpos
  · intro hnext
    obtain ⟨r, hr⟩ := hmatch.result (Prod.ext hnext rfl)
    cases hr with
    | next hpos => exact Nat.lt_irrefl 0 hpos

theorem runBlock_matches_ending (m : Machine) :
    (runBlock m b).Matches Exit.Ended (Exit.ending (blockExiting m 0 b)) := by
  have hbind : (runBlock m b >>= pure).Matches Exit.Ended (Exit.ending (blockExiting m 0 b)) := by
    refine .bind (body_runsAs h m) ?_
    intro flow r hr
    cases hr with
    | normal => exact .pure .normal
    | stop hpos => exact absurd hpos (Nat.lt_irrefl 0)
    | next hpos => exact absurd hpos (Nat.lt_irrefl 0)
    | leave v => exact .pure (.leave v)
  rwa [bind_pure] at hbind

end

theorem callDefined_eq_callExiting {f : FunctionDef} (h : strayControl? false f.body = none)
    (host : Host) (n : Nat) (args : List Value) (p : Position) :
    (machine host (n + 1)).callDefined f args p = callExiting (machine host n) f args p := by
  unfold Machine.callDefined callExiting
  split
  · rfl
  · have hbody := runBlock_matches_ending h (machine host n)
    refine Action.Matches.eq (.around _ _ (.after _ fun _ => .bind (hbody.between _ _) ?_))
    rintro ⟨flow, text⟩ ⟨returned, text'⟩ ⟨hended, htext⟩
    obtain rfl : text = text' := htext
    cases hended with
    | normal => exact .pure rfl
    | leave => cases returned <;> exact .pure rfl

theorem runIncluded_eq_includeExiting {t : Template} (h : strayControl? false t.body = none)
    (host : Host) (n : Nat) (model : Option Value) (p : Position) :
    runIncluded (machine host (n + 1)) t model p = includeExiting (machine host n) t model p := by
  have hbody := runBlock_matches_ending h (machine host n)
  refine Action.Matches.eq (.around _ _ (.around _ _ ?_))
  cases model with
  | none => exact .bind hbody fun _ _ _ => .pure rfl
  | some v => exact .bind (hbody.around _ _) fun _ _ _ => .pure rfl

theorem render_eq_renderExiting {t : Template} (h : strayControl? false t.body = none)
    (m : Machine) (model : Value) : t.render m model = renderExiting m t model := by
  have hbody := runBlock_matches_ending h m
  unfold Template.render renderExiting
  refine Action.Matches.eq ?_
  dsimp only
  split
  all_goals
    refine .after _ fun model => .around _ _ (.after _ fun names =>
      .around _ _ (.around _ _ (.bind (hbody.between _ _) ?_)))
    rintro ⟨flow, text⟩ ⟨returned, text'⟩ ⟨-, htext⟩
    obtain rfl : text = text' := htext
    exact .pure rfl

/-- Whatever an include runs, the statements behind it come next. -/
theorem include_ends_normally {path : Expr} {model : Option Expr} {p : Position} {m : Machine}
    {c d : Context} {flow : Flow} (h : (Stmt.include path model p).run m c = (.ok flow, d)) :
    flow = .normal := by
  have hrun : (Stmt.include path model p).run m =
      (Stmt.include path model p).run m >>= fun _ => pure .normal := by
    simp only [Stmt.run, bind_assoc, pure_bind]
  rw [hrun] at h
  obtain ⟨_, _, -, hflow⟩ := bind_eq_ok.1 h
  simp only [pure_apply, Prod.mk.injEq, Outcome.ok.injEq] at hflow
  exact hflow.1.symm

/-! ## Control in place -/

/-- A source whose tags nest and whose integer literals are in range is read exactly if each `break`
and `continue` stands in the body of a loop in its own function. In a template that is read, bodies
run as they do if each `break` and `continue` is an exit for the innermost loop around it in the
source, so that no body is left by one; and a `return` ends the body that it stands in, which is
that of one call, one include or one rendering. -/
theorem control_stays_in_place :
    (∀ (name source : String) (options : ParserOptions) (pieces : List Piece) (b : Block),
      piecesOf source.toList = .ok pieces →
      (∀ p ∈ pieces, ∀ e ∈ p.content.exprs, e.oversized? = none) →
      Block.ofTokens (tokensOf options false pieces) = .ok b →
      ((∃ t, Template.parse name source options = .ok t) ↔ b.ControlsLoops)) ∧
    (∀ (name source : String) (options : ParserOptions) (t u : Template),
      Template.parse name source options = .ok t → (u = t ∨ ∃ n, u = (t.identify n).1) →
      (∀ b ∈ u.bodies, ∀ m,
        runBlock m b = ((blockExiting m 0 b).run >>= fun r => pure (Exit.flow r)) ∧
        ∀ c, (runBlock m b c).1 ≠ .ok .stop ∧ (runBlock m b c).1 ≠ .ok .next) ∧
      (∀ f ∈ functionsIn u.body, ∀ host n args p,
        (machine host (n + 1)).callDefined f args p = callExiting (machine host n) f args p) ∧
      (∀ host n model p, runIncluded (machine host (n + 1)) u model p =
        includeExiting (machine host n) u model p) ∧
      ∀ m model, u.render m model = renderExiting m u model) ∧
    ∀ path model p m c flow d, (Stmt.include path model p).run m c = (.ok flow, d) →
      flow = .normal := by
  refine ⟨?_, ?_, fun path model p m c flow d h => include_ends_normally h⟩
  · intro name source options pieces b hpieces hrange hblock
    exact exists_parse_iff name hpieces hrange hblock
  · intro name source options t u ht hu
    have hstray := strayControl?_of_parse ht hu
    refine ⟨fun b hb m => ?_, fun f hf host n args p => ?_, fun host n model p => ?_, ?_⟩
    · have hb := Template.strayControl?_bodies hstray b hb
      exact ⟨runBlock_eq_flow hb m, runBlock_ne_control hb m⟩
    · exact callDefined_eq_callExiting (strayControl?_functionsIn u.body hstray f hf) host n args p
    · exact runIncluded_eq_includeExiting hstray host n model p
    · exact render_eq_renderExiting hstray

/-! ## Instances -/

/-- A loop that is left from inside of a choice and a capture, behind a function with a loop of its
own. -/
def leftLoop : String :=
  "\x7b% function f() %\x7d\x7b% while true %\x7d\x7b% continue %\x7d\x7b% endwhile %\x7d" ++
    "\x7b% endfunction %\x7d\x7b% for x in y %\x7d\x7b% capture z %\x7d\x7b% if x %\x7d" ++
    "\x7b% break %\x7d\x7b% endif %\x7d\x7b% endcapture %\x7d\x7b% endfor %\x7d"

theorem leftLoop_stays_in_place : ∃ t pieces b, Template.parse "t" leftLoop .plain = .ok t ∧
    piecesOf leftLoop.toList = .ok pieces ∧
    Block.ofTokens (tokensOf .plain false pieces) = .ok b ∧ b.ControlsLoops ∧
    ∀ m c, (runBlock m t.body c).1 ≠ .ok .stop ∧ (runBlock m t.body c).1 ≠ .ok .next := by
  have hread : (Template.parse "t" leftLoop .plain).toOption.isSome = true := by decide +kernel
  cases ht : Template.parse "t" leftLoop .plain with
  | error e =>
    rw [ht] at hread
    cases hread
  | ok t =>
    obtain ⟨body, hbody, -⟩ := Template.parse_eq_ok_iff.1 ht
    obtain ⟨pieces, b, hpieces, hliterals, hblock, -, -⟩ := parseBlock_eq_ok_iff.1 hbody
    have hrange : ∀ p ∈ pieces, ∀ e ∈ p.content.exprs, e.oversized? = none := fun p hp e he =>
      List.findSome?_eq_none_iff.1 hliterals e (List.mem_flatMap.2 ⟨p, hp, he⟩)
    have hplaced := control_stays_in_place.1 "t" leftLoop .plain pieces b hpieces hrange hblock
    have hbodies := (control_stays_in_place.2.1 "t" leftLoop .plain t t ht (.inl rfl)).1
    exact ⟨t, pieces, b, rfl, hpieces, hblock, hplaced.1 ⟨t, ht⟩,
      fun m => (hbodies t.body List.mem_cons_self m).2⟩

/-- The first integer that is out of range, written out. -/
def outOfRange : String := "\x7b\x7b 9223372036854775808 \x7d\x7d"

/-- Nested tags and loop controls in place are not enough: a literal out of range is refused. -/
theorem outOfRange_is_refused :
    ¬ ∀ (name source : String) (options : ParserOptions) (pieces : List Piece) (b : Block),
      piecesOf source.toList = .ok pieces →
      Block.ofTokens (tokensOf options false pieces) = .ok b →
      ((∃ t, Template.parse name source options = .ok t) ↔ b.ControlsLoops) := by
  intro h
  have hread : ((piecesOf outOfRange.toList).toOption.bind fun pieces =>
      (Block.ofTokens (tokensOf .plain false pieces)).toOption).any
        (fun b => (strayControl? false b).isNone) = true := by decide +kernel
  have hrefused : (Template.parse "t" outOfRange .plain).toOption.isNone = true := by
    decide +kernel
  cases hpieces : piecesOf outOfRange.toList with
  | error p =>
    rw [hpieces] at hread
    cases hread
  | ok pieces =>
    rw [hpieces] at hread
    change (Block.ofTokens (tokensOf .plain false pieces)).toOption.any _ = true at hread
    cases hblock : Block.ofTokens (tokensOf .plain false pieces) with
    | error e =>
      rw [hblock] at hread
      cases hread
    | ok b =>
      rw [hblock] at hread
      have hstray : strayControl? false b = none := Option.isNone_iff_eq_none.1 hread
      have hplaced := (strayControl?_eq_none_iff b).1 hstray
      obtain ⟨t, ht⟩ := (h "t" outOfRange .plain pieces b hpieces hblock).2 hplaced
      rw [ht] at hrefused
      cases hrefused

end TemplateEngine
