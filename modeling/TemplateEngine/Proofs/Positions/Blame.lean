import TemplateEngine.Proofs.Evaluation.Balance

/-!
# Where the script is blamed

An action that fails because of the script names a place. The primitive actions name the place that
they are given, or the place of the name that they look up (`Action.Names`). A round of a loop that
may not begin names the place of the innermost loop, and so whatever runs in a loop depends on where
that stands (`Action.Blames`): the loop itself brings this place with it, and everything that runs
inside leaves the loops standing.
-/

namespace TemplateEngine

open TemplateEngine.Action

variable {A : Position → Prop} {l : Bool}

/-! ## Primitive actions -/

namespace Action

variable {α β : Type}

/-- If the action fails because of the script, then at one of the places. -/
def Names (A : Position → Prop) (x : Action α) : Prop :=
  ∀ (c : Context) (p : Position) (fault : ScriptFault), (x c).1 = .error (.script p fault) → A p

namespace Names

/-- The second part has to name such places after the results that the first part has. -/
theorem bind_of {B : α → Prop} {x : Action α} {f : α → Action β} (hx : x.Names A)
    (hB : ∀ c a, (x c).1 = .ok a → B a) (hf : ∀ a, B a → (f a).Names A) : (x >>= f).Names A := by
  intro c p fault
  have hfails := hx c p fault
  have ha := hB c
  rcases h : x c with ⟨a | e | _, d⟩ <;> rw [h] at hfails ha
  · rw [bind_of_ok h]
    exact hf a (ha a rfl) d p fault
  · rw [bind_of_error h]
    rintro ⟨⟩
    exact hfails rfl
  · rw [bind_of_outOfFuel h]
    exact nofun

theorem bind {x : Action α} {f : α → Action β} (hx : x.Names A) (hf : ∀ a, (f a).Names A) :
    (x >>= f).Names A := bind_of (B := fun _ => True) hx (fun _ _ _ => trivial) fun a _ => hf a

theorem ite {p : Prop} [Decidable p] {x y : Action α} (hx : x.Names A) (hy : y.Names A) :
    (if p then x else y).Names A := by
  split
  · exact hx
  · exact hy

/-- What never fails because of the script names no place. -/
theorem of_ne {x : Action α} (h : ∀ c p fault, (x c).1 ≠ .error (.script p fault)) : x.Names A :=
  fun c p fault heq => absurd heq (h c p fault)

theorem pure (a : α) : Names A (pure a : Action α) := of_ne fun _ _ _ => nofun

theorem view (f : Context → α) : (view f).Names A := of_ne fun _ _ _ => nofun

theorem onStore (f : Store → α × Store) : (onStore f).Names A := of_ne fun _ _ _ => nofun

theorem failAt {p : Position} (hp : A p) (fault : ScriptFault) :
    Names A (failAt p fault : Action α) := by
  rintro _ _ _ ⟨⟩
  exact hp

theorem tryView {p : Position} (hp : A p) (f : Store → Except ScriptFault α) :
    (tryView p f).Names A := by
  intro c
  unfold Action.tryView
  split
  · exact fun _ _ => nofun
  · exact failAt hp _ c

theorem tryStore {p : Position} (hp : A p) (f : Store → Except ScriptFault (α × Store)) :
    (tryStore p f).Names A := by
  intro c
  unfold Action.tryStore
  split
  · exact fun _ _ => nofun
  · exact failAt hp _ c

theorem toText (v : Value) {p : Position} (hp : A p) : (toText v p).Names A := tryView hp _

theorem toInteger (v : Value) {p : Position} (hp : A p) : (toInteger v p).Names A := tryView hp _

end Names

/-! ### Members and variables -/

theorem names_readMember (target : Value) (name : String) : (readMember target name).Names A := by
  refine .bind (.of_ne fun _ _ _ => nofun) fun _ => .bind (.view _) fun a => ?_
  cases a with
  | value v => exact .pure v
  | newFunction name operation => exact .onStore _

theorem names_writeMember (target : Value) (name : String) (v : Value) :
    (writeMember target name v).Names A :=
  .bind (.of_ne fun _ _ _ => nofun) fun _ => .onStore _

theorem names_readGlobal (name : String) (gs : List GlobalFrame) :
    (readGlobal name gs).Names A := by
  induction gs with
  | nil => exact .pure _
  | cons g rest ih => exact .bind (names_readMember g.model name) fun _ => .ite ih (.pure _)

theorem names_readVariable {ref : VarRef} (href : A ref.position) :
    (readVariable ref).Names A := by
  unfold readVariable
  split
  · exact .bind (.view _) fun _ => names_readGlobal _ _
  · exact .view _
  · refine .bind (.view _) fun frame => ?_
    cases frame with
    | none => exact .failAt href _
    | some frame => exact .pure _

theorem names_writeVariable {ref : VarRef} (href : A ref.position) (v : Value) :
    (writeVariable ref v).Names A := by
  unfold writeVariable
  split
  · refine .bind (.view _) fun g => .ite (.failAt href _) ?_
    refine .bind (names_writeMember _ _ _) fun r => ?_
    split
    · exact .pure _
    · exact .failAt href _
    · exact .bind (.view _) fun _ => .failAt href _
  · refine .bind (.view _) fun frame => ?_
    split
    · exact .of_ne fun _ _ _ => nofun
    · exact .failAt href _
  · refine .bind (.view _) fun frame => ?_
    split
    · exact .failAt href _
    · split
      · exact .of_ne fun _ _ _ => nofun
      · exact .failAt href _

end Action

/-! ### Places -/

/-- Where the expression stands that the place was found for. -/
def Place.position : Place → Position
  | .member _ _ _ p => p
  | .item _ _ _ _ p => p

namespace Place

variable {object key : Value} {name : String} {q p : Position} {target : Expr} {c : Context}
  {place : Place}

theorem position_of_ofMember (h : (ofMember object name target p c).1 = .ok place) :
    place.position = p := by
  unfold ofMember at h
  split at h
  · cases h
  · split at h
    · cases h
    · cases h
      rfl

theorem position_of_ofKey (h : (ofKey object key q target p c).1 = .ok place) :
    place.position = p := by
  unfold ofKey at h
  split at h
  · cases h
  · split at h
    iterate 2
      obtain ⟨_, _, _, hpure⟩ := bind_eq_ok.1 (show _ = (Outcome.ok place, _) from Prod.ext h rfl)
      cases hpure
      rfl
    obtain ⟨accessor, _, _, h⟩ := bind_eq_ok.1 (show _ = (Outcome.ok place, _) from Prod.ext h rfl)
    cases accessor with
    | none => cases h
    | some accessor =>
      obtain ⟨_, _, _, hpure⟩ := bind_eq_ok.1 h
      cases hpure
      rfl

end Place

namespace Action

theorem names_ofMember (object : Value) (name : String) (target : Expr) {p : Position}
    (hp : A p) : (Place.ofMember object name target p).Names A :=
  .ite (.failAt hp _) (.ite (.bind (.view _) fun _ => .failAt hp _) (.pure _))

theorem names_ofKey (object key : Value) {q : Position} (hq : A q) (target : Expr) {p : Position}
    (hp : A p) : (Place.ofKey object key q target p).Names A := by
  refine .ite (.failAt hp _) ?_
  split
  · exact .bind (.toText _ hq) fun _ => .pure _
  · exact .bind (.toText _ hq) fun _ => .pure _
  · refine .bind (.of_ne fun _ _ _ => nofun) fun accessor => ?_
    cases accessor with
    | none => exact .bind (.view _) fun _ => .failAt hp _
    | some accessor => exact .bind (.toInteger _ hq) fun _ => .pure _

theorem names_read {place : Place} (hp : A place.position) : place.read.Names A := by
  cases place with
  | member object name target p => exact names_readMember object name
  | item accessor object index target p => exact .tryView hp _

theorem names_write (v : Value) {place : Place} (hp : A place.position) :
    (place.write v).Names A := by
  cases place with
  | member object name target p =>
    refine .bind (names_writeMember _ _ _) fun r => ?_
    split
    · exact .pure _
    · exact .failAt hp _
    · exact .failAt hp _
  | item accessor object index target p => exact .tryStore hp _

/-! ### Built-in functions and templates -/

theorem names_textsOf {p : Position} (hp : A p) (vs : List Value) :
    (Builtin.textsOf p vs).Names A := by
  induction vs with
  | nil => exact .pure _
  | cons v rest ih => exact .bind (.toText v hp) fun _ => .bind ih fun _ => .pure _

theorem names_rangeOf (args : List Value) {p : Position} (hp : A p) :
    (Builtin.rangeOf args p).Names A := by
  have hbounds : (Builtin.rangeBounds p args).Names A := by
    unfold Builtin.rangeBounds
    split
    · exact .failAt hp _
    · exact .bind (.toInteger _ hp) fun _ => .pure _
    · exact .bind (.toInteger _ hp) fun _ => .bind (.toInteger _ hp) fun _ => .pure _
  refine .bind hbounds fun ⟨start, stop⟩ => ?_
  have hstep : ∀ step : Int, Names A
      (if step = 0 then failAt p (.type .rangeStep)
      else do
        let limit ← view fun c => c.limits.loops
        if limit < rangeCount start stop step then failAt p (.loopLimit limit)
        else onStore fun s => s.newList (rangeItems start stop step)) := fun step =>
    .ite (.failAt hp _) (.bind (.view _) fun limit => .ite (.failAt hp _) (.onStore _))
  dsimp only
  split
  · exact .bind (.toInteger _ hp) hstep
  · exact .bind (.pure _) hstep

/-- A built-in function blames the place of its call. -/
theorem names_builtin (b : Builtin) (args : List Value) {p : Position} (hp : A p) :
    (b.call args p).Names A := by
  refine .ite (.failAt hp _) ?_
  cases b with
  | len => exact .bind (.tryView hp _) fun _ => .pure _
  | upper => exact .bind (.toText _ hp) fun _ => .pure _
  | lower => exact .bind (.toText _ hp) fun _ => .pure _
  | trim => exact .bind (.toText _ hp) fun _ => .pure _
  | join =>
    exact .bind (.toText _ hp) fun _ => .bind (.tryView hp _) fun _ =>
      .bind (names_textsOf hp _) fun _ => .pure _
  | range => exact names_rangeOf args hp
  | keys => exact .bind (.tryView hp _) fun _ => .onStore _
  | default => exact .pure _
  | str => exact .bind (.toText _ hp) fun _ => .pure _
  | int => exact .bind (.toInteger _ hp) fun _ => .pure _

theorem names_loadTemplate (path : String) {p : Position} (hp : A p) :
    (loadTemplate path p).Names A := by
  refine .bind (.view _) fun c => ?_
  split
  · exact .failAt hp _
  · split
    · exact .failAt hp _
    · split
      · exact .pure _
      · split
        · exact .failAt hp _
        · exact .bind (.onStore _) fun _ => .bind (.of_ne fun _ _ _ => nofun) fun _ => .pure _

end Action

/-! ## Whatever runs in a loop -/

/-- The action leaves the context standing. If it fails because of the script, then at one of the
places, provided that the innermost loop stands at one of them if this is said. -/
structure Action.Blames (A : Position → Prop) (l : Bool) (v : Voice) {α : Type} (x : Action α) :
    Prop where
  keeps : x.Keeps v.Change
  names (c : Context) : (l = true → A c.scopes.loopPosition) →
    ∀ (p : Position) (fault : ScriptFault), (x c).1 = .error (.script p fault) → A p

namespace Action.Blames

variable {α β : Type} {v : Voice} {x : Action α} {f : α → Action β}

theorem quiet (hq : x.Quiet) (hn : x.Names A) : Blames A l .silent x where
  keeps := hq.keeps
  names c _ := hn c

theorem pure (a : α) : Blames A l .silent (pure a : Action α) := quiet (.pure a) (.pure a)

theorem outOfFuel : Blames A l v (outOfFuel : Action α) := ⟨fun c => .refl c, fun _ _ _ _ => nofun⟩

theorem failAt {p : Position} (hp : A p) (fault : ScriptFault) :
    Blames A l .silent (failAt p fault : Action α) := quiet (.failAt p fault) (.failAt hp fault)

theorem view (g : Context → α) : Blames A l .silent (view g) := quiet (.view g) (.view g)

theorem tryView {p : Position} (hp : A p) (g : Store → Except ScriptFault α) :
    Blames A l .silent (tryView p g) := quiet (.tryView p g) (.tryView hp g)

/-- The second part has to blame such places after the results that the first part has. -/
theorem bind_of {B : α → Prop} (hx : Blames A l v x) (hB : ∀ c a, (x c).1 = .ok a → B a)
    (hf : ∀ a, B a → Blames A l v (f a)) : Blames A l v (x >>= f) := by
  refine ⟨fun c => ?_, fun c hc => ?_⟩
  · have hd := hx.keeps c
    have ha := hB c
    rcases h : x c with ⟨a | e | _, d⟩ <;> rw [h] at hd ha
    · rw [bind_of_ok h]
      exact hd.trans ((hf a (ha a rfl)).keeps d)
    · rw [bind_of_error h]
      exact hd
    · rw [bind_of_outOfFuel h]
      exact hd
  · have hd := hx.keeps c
    have ha := hB c
    have hnames := hx.names c hc
    rcases h : x c with ⟨a | e | _, d⟩ <;> rw [h] at hd ha hnames
    · rw [bind_of_ok h]
      refine (hf a (ha a rfl)).names d fun hl => ?_
      -- the first part has left the loops standing
      rw [Scopes.loopPosition, hd.loops]
      exact hc hl
    · rw [bind_of_error h]
      rintro p fault ⟨⟩
      exact hnames p fault rfl
    · rw [bind_of_outOfFuel h]
      exact fun _ _ => nofun

theorem bind (hx : Blames A l v x) (hf : ∀ a, Blames A l v (f a)) : Blames A l v (x >>= f) :=
  bind_of (B := fun _ => True) hx (fun _ _ _ => trivial) fun a _ => hf a

theorem up (h : Blames A l .silent x) : Blames A l .writing x := ⟨h.keeps.up, h.names⟩

theorem ite {p : Prop} [Decidable p] {y : Action α} (hx : Blames A l v x) (hy : Blames A l v y) :
    Blames A l v (if p then x else y) := by
  split
  · exact hx
  · exact hy

/-- In a loop, too. -/
theorem inner (h : Blames A false v x) : Blames A l v x := ⟨h.keeps, fun c _ => h.names c nofun⟩

theorem withSuppression (b : Bool) (h : Blames A l v x) : Blames A l v (withSuppression b x) where
  keeps := h.keeps.withSuppression b
  names c hc := h.names { c with suppressed := b } hc

theorem writeText (t : String) : Blames A l .writing (writeText t) :=
  ⟨keeps_writeText t, fun _ _ _ _ => nofun⟩

theorem first {x : Action (α × Value)} (h : Blames A l v x) :
    Blames A l v (x >>= fun r => Pure.pure r.1) := by
  cases v with
  | silent => exact h.bind fun _ => .pure _
  | writing => exact h.bind fun _ => .up (.pure _)

end Action.Blames

/-! ## Regions -/

namespace Region

variable {α : Type} {r : Region} {opening : Action Unit} {x : Action α}

/-- Closing fails, if it does, because the engine is used wrongly. -/
theorem names_close (r : Region) : r.close.Names A := by
  cases r with
  | function =>
    refine .bind (.of_ne fun c p fault => ?_) fun _ => .pure _
    unfold exitFunction
    split
    · rintro ⟨⟩
    · split <;> rintro ⟨⟩
  | loop =>
    refine .bind (.of_ne fun c p fault => ?_) fun _ => .pure _
    unfold exitLoop
    split <;> rintro ⟨⟩
  | global =>
    refine .of_ne fun c p fault => ?_
    unfold close popGlobal
    dsimp only
    split <;> rintro ⟨⟩
  | output =>
    refine .bind (.of_ne fun c p fault => ?_) fun _ => .pure _
    unfold popOutput
    split <;> rintro ⟨⟩
  | source =>
    refine .bind (.of_ne fun c p fault => ?_) fun _ => .pure _
    unfold popSource
    split <;> rintro ⟨⟩

/-- What runs in a region blames such places, if opening the region does. -/
theorem blames_holding {v w : Voice} (hr : r.Restores opening v.Change w.Change)
    (ho : opening.Names A) (hl : ∀ c, l = true → A (opening c).2.scopes.loopPosition)
    (hx : x.Blames A l v) : (r.holding opening x).Blames A false w where
  keeps := keeps_holding hr hx.keeps
  names c _ p fault := by
    have hopen := ho c p fault
    have hbody := hx.names (opening c).2 (hl c) p fault
    have hclose := names_close (A := A) r (x (opening c).2).2 p fault
    unfold holding between
    rcases hc : opening c with ⟨u | e | _, d⟩ <;> rw [hc] at hopen hbody hclose
    · dsimp only at hbody hclose ⊢
      rcases hd : x d with ⟨a | e | _, d'⟩ <;> rw [hd] at hbody hclose
      · dsimp only at hclose ⊢
        rcases he : r.close d' with ⟨b | e | _, d''⟩ <;> rw [he] at hclose
        · exact nofun
        · rintro ⟨⟩
          exact hclose rfl
        · exact nofun
      · rintro ⟨⟩
        exact hbody rfl
      · exact nofun
    · rintro ⟨⟩
      exact hopen rfl
    · exact nofun

theorem blames_function {v : Voice} {p : Position} (hp : A p) (hx : x.Blames A false v) :
    (function.holding (enterFunction p) x).Blames A false v := by
  refine blames_holding (l := false) (restores_function p) (fun c q fault => ?_) (fun _ => nofun) hx
  unfold enterFunction
  split
  · exact nofun
  · rintro ⟨⟩
    exact hp

theorem blames_global {v : Voice} (model : Value) (hx : x.Blames A false v) :
    (global.holding (pushGlobal model) x).Blames A false v := by
  refine blames_holding (l := false) (restores_global model) (.of_ne fun c p fault => ?_)
    (fun _ => nofun) hx
  unfold pushGlobal
  split <;> exact nofun

theorem blames_source {v : Voice} (name : String) (hx : x.Blames A false v) :
    (source.holding (pushSource name) x).Blames A false v := by
  refine blames_holding (l := false) (restores_source name) (.of_ne fun c p fault => ?_)
    (fun _ => nofun) hx
  unfold pushSource
  split <;> exact nofun

theorem blames_output (hx : x.Blames A false .writing) :
    (output.holding pushOutput x).Blames A false .silent :=
  blames_holding (l := false) (v := .writing) (w := .silent) restores_output
    (.of_ne fun _ _ _ => nofun) (fun _ => nofun) hx

/-- In a loop the innermost loop stands where this one does. -/
theorem blames_loop {p : Position} (hp : A p) (hx : x.Blames A true .writing) :
    (loop.holding (enterLoop p) x).Blames A false .writing :=
  blames_holding (restores_loop p) (.of_ne fun _ _ _ => nofun) (fun _ _ => hp) hx

end Region

/-! ## Loops -/

theorem blames_stepLoop : stepLoop.Blames A true .silent where
  keeps := keeps_stepLoop
  names c hc p fault := by
    unfold stepLoop
    dsimp only
    split
    · exact nofun
    · rintro ⟨⟩
      exact hc rfl

theorem names_bindLoop (name : String) (v : Value) : (bindLoop name v).Names A := by
  refine .of_ne fun c p fault => ?_
  unfold bindLoop
  split <;> exact nofun

theorem blames_countedRound {prepare : Action Unit} {body : Action Flow} (hq : prepare.Quiet)
    (hp : prepare.Names A) (h : body.Blames A true .writing) :
    (Machine.countedRound prepare body).Blames A true .writing :=
  .bind blames_stepLoop.up fun _ => .bind (Action.Blames.quiet hq hp).up fun _ => h

theorem blames_eachRound {α : Type} {round : α → Action (Option Flow)}
    (h : ∀ a, (round a).Blames A true .writing) :
    ∀ items : List α, Action.Blames A true .writing (Machine.eachRound round items)
  | [] => .up (.pure Flow.normal)
  | a :: rest => by
    rw [Machine.eachRound_cons]
    refine .bind (h a) fun flow => ?_
    match flow with
    | none => exact blames_eachRound h rest
    | some flow => exact .up (.pure flow)

theorem blames_repeatRound {round : Action (Option Flow)} (h : round.Blames A true .writing)
    (bound : Nat) : Action.Blames A true .writing (Machine.repeatRound round bound) := by
  induction bound with
  | zero => exact .outOfFuel
  | succ n ih =>
    rw [Machine.repeatRound_succ]
    refine .bind h fun flow => ?_
    match flow with
    | none => exact ih
    | some flow => exact .up (.pure flow)

theorem blames_inLoop {p : Position} (hp : A p) {rounds : Action Flow}
    (h : rounds.Blames A true .writing) : (Machine.inLoop p rounds).Blames A false .writing :=
  .first <| Region.blames_loop hp <|
    .bind (.up (.quiet quiet_inheritLoop (.of_ne fun _ _ _ => nofun))) fun _ => h

theorem blames_forEach (name : String) {p : Position} (hp : A p) (items : List Value)
    {body : Action Flow} (h : body.Blames A false .writing) :
    (Machine.forEach name p items body).Blames A false .writing := by
  refine blames_inLoop hp (blames_eachRound (fun item => ?_) _)
  rw [Machine.eachBody_eq]
  have hprepare : (Machine.bindRound name items.length item).Names A :=
    .bind (names_bindLoop _ _) fun _ => .bind (.onStore _) fun _ => names_bindLoop _ _
  exact .bind (blames_countedRound (Machine.quiet_bindRound _ _ _) hprepare h.inner) fun _ =>
    .up (.pure _)

theorem blames_whileLoop {p : Position} (hp : A p) {condition : Action Value} {body : Action Flow}
    (hc : condition.Blames A false .silent) (h : body.Blames A false .writing) :
    (Machine.whileLoop p condition body).Blames A false .writing := by
  have hround : (Machine.whileBody condition body).Blames A true .writing := by
    rw [Machine.whileBody_eq]
    refine .bind hc.inner.up fun v => .bind (.up (.view _)) fun holds => ?_
    exact .ite (.bind (blames_countedRound (.pure ()) (.pure ()) h.inner) fun _ => .up (.pure _))
      (.up (.pure _))
  exact blames_inLoop hp ⟨fun c => (blames_repeatRound hround _).keeps c,
    fun c => (blames_repeatRound hround _).names c⟩

end TemplateEngine
