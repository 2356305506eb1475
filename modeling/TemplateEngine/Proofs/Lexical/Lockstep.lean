import TemplateEngine.Proofs.Evaluation.Unaware
import TemplateEngine.Proofs.Lexical.Actions
import TemplateEngine.Proofs.Lexical.Reading
import TemplateEngine.Proofs.Lexical.Views

/-!
# Two runs in lockstep

Two contexts are twins if they differ in their frames only (`Context.Twins`); what is seen of the
frames on either side is told by a relation of views. Two actions run in lockstep if on twins they
end in the same way and leave twins with views that are related as before (`Action.Lockstep`), and
run in the very same way on one and the same context. Actions that do not look at frames run in
lockstep with themselves, however the views are related. A variable is read in lockstep by
evaluation and by a faithful reader as soon as the views agree on what the place can see
(`ScopeView.Sees`), and it is written in lockstep inside of a call (`ScopeView.Inside`).
-/

namespace TemplateEngine

/-! ## What a place sees -/

/-- The name is bound to the value and locked. -/
def Frame.Holds (k : Frame) (name : String) (v : Value) : Prop :=
  k.get? name = some v ∧ k.isReadOnly name = true

namespace LoopNames

/-- The names that stand for something. -/
def Bound (names : LoopNames) : String → Prop := fun n => ∃ v, names n = some v

/-- The names stand for lexical values. -/
def Lexical (names : LoopNames) : Prop := ∀ n, ∀ v ∈ names n, v.Lexical

/-- The innermost loop binds the names to what they stand for, and locks them. -/
def Held (names : LoopNames) (v : ScopeView) : Prop :=
  ∀ n, ∀ u ∈ names n, ∃ k ∈ v.loop?, k.Holds n u

theorem bound_none : none.Bound = noName := by
  funext n
  simp [Bound, none, noName]

theorem bound_within (names : LoopNames) (name : String) (item info : Value) :
    (names.within name item info).Bound = withinLoop names.Bound name := by
  funext n
  simp only [Bound, within, bind, withinLoop, eq_iff_iff]
  by_cases hl : "loop" = n
  · simp [← hl]
  · by_cases hn : name = n
    · simp [hl, hn]
    · simp [hl, hn, Ne.symm hl, Ne.symm hn]

theorem lexical_none : none.Lexical := nofun

theorem Lexical.bind {names : LoopNames} (h : names.Lexical) (name : String) {v : Value}
    (hv : v.Lexical) : (names.bind name v).Lexical := by
  intro n u hu
  simp only [LoopNames.bind] at hu
  split at hu
  · cases hu
    exact hv
  · exact h n u hu

theorem Lexical.within {names : LoopNames} (h : names.Lexical) (name : String) {item info : Value}
    (hitem : item.Lexical) (hinfo : info.Lexical) : (names.within name item info).Lexical :=
  (h.bind name hitem).bind "loop" hinfo

theorem held_none (v : ScopeView) : none.Held v := nofun

end LoopNames

namespace ScopeView

/-- At a place with such loop names both runs see the same. -/
structure Sees (names : LoopNames) (v w : ScopeView) : Prop where
  same : v.locals.head? = w.locals.head?
  lexical : ∀ f ∈ v.locals.head?, f.Lexical
  left : names.Held v
  right : names.Held w

/-- Both runs are where these views were seen, with the same local bindings. -/
def Inside (v w : ScopeView) : ScopeView → ScopeView → Prop := fun v' w' =>
  ∃ f : Frame, f.Lexical ∧ v' = v.withLocal f ∧ w' = w.withLocal f

/-- Both runs see what they saw. -/
def Unmoved (v w : ScopeView) : ScopeView → ScopeView → Prop := fun v' w' => v' = v ∧ w' = w

/-- The local bindings that both runs see. -/
theorem Sees.localFrame {names : LoopNames} {c d : Context}
    (h : Sees names c.scopes.view d.scopes.view) :
    c.scopes.localFrame = d.scopes.localFrame ∧ c.scopes.localFrame.Lexical := by
  have hc : c.scopes.view.locals.head? = some c.scopes.localFrame := by
    rw [c.scopes.view_locals]
    rfl
  have hd : d.scopes.view.locals.head? = some d.scopes.localFrame := by
    rw [d.scopes.view_locals]
    rfl
  have hsame := h.same
  rw [hc, hd] at hsame
  exact ⟨Option.some.inj hsame, h.lexical _ hc⟩

theorem Inside.sees {names : LoopNames} {v w : ScopeView} (hv : names.Held v) (hw : names.Held w) :
    ∀ v' w', Inside v w v' w' → Sees names v' w' := by
  rintro _ _ ⟨f, hf, rfl, rfl⟩
  refine ⟨rfl, ?_, hv, hw⟩
  rintro _ ⟨⟩
  exact hf

end ScopeView

/-! ## Twins -/

/-- The contexts differ in their frames only, and what is seen of these is related. -/
structure Context.Twins (P : ScopeView → ScopeView → Prop) (c d : Context) : Prop where
  same : c.withForeground d.foreground = d
  suppressed : c.suppressed = d.suppressed
  lexical : c.Lexical
  left : c.scopes.Tidy
  right : d.scopes.Tidy
  views : P c.scopes.view d.scopes.view

namespace Context

variable {P Q : ScopeView → ScopeView → Prop} {c d : Context}

theorem Lexical.withForeground (h : c.Lexical) (f : Foreground) : (c.withForeground f).Lexical :=
  { h with }

theorem Twins.mono (h : c.Twins P d) (hPQ : ∀ v w, P v w → Q v w) : c.Twins Q d :=
  { h with views := hPQ _ _ h.views }

theorem Twins.right_lexical (h : c.Twins P d) : d.Lexical :=
  h.same ▸ h.lexical.withForeground d.foreground

/-- What is beside the frames is equal. -/
theorem Twins.eq {α : Type} (h : c.Twins P d) {v : Context → α}
    (hv : ∀ c f, v (c.withForeground f) = v c) : v c = v d := by
  rw [← h.same, hv]

/-- Working on the scopes of both. -/
theorem Twins.onScopes (h : c.Twins P d) {s t : Scopes} (hglobals : s.globals = t.globals)
    (hdepth : s.depth = t.depth) (hiterations : s.iterations = t.iterations)
    (hlexical : ∀ g ∈ s.globals.toList, g.model.Lexical) (hs : s.Tidy) (ht : t.Tidy)
    (hviews : Q s.view t.view) : Twins Q { c with scopes := s } { d with scopes := t } where
  same := by
    conv_rhs => rw [← h.same]
    obtain ⟨_, _, _, _, _, _⟩ := t
    cases hglobals
    cases hdepth
    cases hiterations
    rfl
  suppressed := h.suppressed
  lexical := { h.lexical with globals := hlexical }
  left := hs
  right := ht
  views := hviews

theorem Twins.globals (h : c.Twins P d) : c.scopes.globals = d.scopes.globals :=
  h.eq (v := fun c => c.scopes.globals) fun _ _ => rfl

theorem Twins.depth (h : c.Twins P d) : c.scopes.depth = d.scopes.depth :=
  h.eq (v := fun c => c.scopes.depth) fun _ _ => rfl

theorem Twins.iterations (h : c.Twins P d) : c.scopes.iterations = d.scopes.iterations :=
  h.eq (v := fun c => c.scopes.iterations) fun _ _ => rfl

theorem Twins.limits (h : c.Twins P d) : c.limits = d.limits :=
  h.eq (v := fun c => c.limits) fun _ _ => rfl

/-- Working on the frames of both. -/
theorem Twins.onFrames (h : c.Twins P d) {s t : Scopes}
    (hc : s = { c.scopes with pool := s.pool, locals := s.locals, loops := s.loops })
    (hd : t = { d.scopes with pool := t.pool, locals := t.locals, loops := t.loops })
    (hs : s.Tidy) (ht : t.Tidy) (hviews : Q s.view t.view) :
    Twins Q { c with scopes := s } { d with scopes := t } := by
  refine h.onScopes ?_ ?_ ?_ ?_ hs ht hviews
  · rw [hc, hd]
    exact h.globals
  · rw [hc, hd]
    exact h.depth
  · rw [hc, hd]
    exact h.iterations
  · rw [hc]
    exact h.lexical.globals

theorem Twins.withSuppressed (h : c.Twins P d) (b : Bool) :
    Twins P { c with suppressed := b } { d with suppressed := b } where
  same := congrArg (fun c : Context => { c with suppressed := b }) h.same
  suppressed := rfl
  lexical := { h.lexical with }
  left := h.left
  right := h.right
  views := h.views

end Context

/-- Both runs end in the same way, with a result that has the property or with a failure that is not
about a loop name, and leave twins. -/
structure EndsAlike {α : Type} (A : α → Prop) (P : ScopeView → ScopeView → Prop)
    (r s : Outcome α × Context) : Prop where
  outcome : r.1 = s.1
  regular : r.1.Regular A
  twins : r.2.Twins P s.2

/-- Two runs that end in the same way on twins, and in the very same way on one context. -/
def Action.Lockstep {α : Type} (P : ScopeView → ScopeView → Prop) (A : α → Prop)
    (x y : Action α) : Prop :=
  ∀ c d : Context, c.Twins P d → EndsAlike A P (x c) (y d) ∧ (c = d → x c = y d)

/-- An action that succeeds in the same way on twins and changes what is seen of them. -/
def Action.Moves {α : Type} (P : ScopeView → ScopeView → Prop) (A : α → Prop)
    (Q : α → ScopeView → ScopeView → Prop) (x : Action α) : Prop :=
  ∀ c d : Context, c.Twins P d →
    ∃ a c' d', x c = (.ok a, c') ∧ x d = (.ok a, d') ∧ A a ∧ c'.Twins (Q a) d'

namespace Action

open ScopeView

namespace Lockstep

variable {α β : Type} {P Q : ScopeView → ScopeView → Prop} {A : α → Prop} {B : β → Prop}
  {x y : Action α}

/-! ## Putting actions together -/

theorem pure {a : α} (h : A a) : Lockstep P A (pure a : Action α) (pure a) :=
  fun c d hcd => ⟨⟨rfl, .ok h, hcd⟩, fun heq => by rw [heq]⟩

theorem bind {f g : α → Action β} (hx : Lockstep P A x y)
    (hf : ∀ a, A a → Lockstep P B (f a) (g a)) : Lockstep P B (x >>= f) (y >>= g) := by
  intro c d hcd
  obtain ⟨hends, hsame⟩ := hx c d hcd
  rcases hc : x c with ⟨o, c'⟩
  rcases hd : y d with ⟨o', d'⟩
  rw [hc, hd] at hends hsame
  obtain ⟨rfl, hr, ht⟩ := hends
  cases hr with
  | ok ha =>
    obtain ⟨hends, hsame'⟩ := hf _ ha c' d' ht
    rw [bind_of_ok hc, bind_of_ok hd]
    exact ⟨hends, fun heq => hsame' (congrArg Prod.snd (hsame heq))⟩
  | error he =>
    rw [bind_of_error hc, bind_of_error hd]
    exact ⟨⟨rfl, .error he, ht⟩, fun heq => congrArg (Prod.mk _) (congrArg Prod.snd (hsame heq))⟩
  | outOfFuel =>
    rw [bind_of_outOfFuel hc, bind_of_outOfFuel hd]
    exact ⟨⟨rfl, .outOfFuel, ht⟩, fun heq => congrArg (Prod.mk _) (congrArg Prod.snd (hsame heq))⟩

/-- After a change of what is seen. -/
theorem after {m : Action α} {R : α → ScopeView → ScopeView → Prop} {f g : α → Action β}
    (hm : m.Moves P A R) (h : ∀ a, A a → Lockstep (R a) B (f a) (g a))
    (hRP : ∀ a v w, R a v w → P v w) : Lockstep P B (m >>= f) (m >>= g) := by
  intro c d hcd
  obtain ⟨a, c', d', hc, hd, ha, ht⟩ := hm c d hcd
  rw [bind_of_ok hc, bind_of_ok hd]
  obtain ⟨⟨ho, hr, ht'⟩, hsame⟩ := h a ha c' d' ht
  refine ⟨⟨ho, hr, ht'.mono (hRP a)⟩, fun heq => hsame ?_⟩
  rw [heq, hd] at hc
  exact (congrArg Prod.snd hc).symm

theorem ite {p : Prop} [Decidable p] {x' y' : Action α} (h : Lockstep P A x y)
    (h' : Lockstep P A x' y') : Lockstep P A (if p then x else x') (if p then y else y') := by
  split
  · exact h
  · exact h'

theorem suppress (h : Lockstep P A x y) (b : Bool) :
    Lockstep P A (withSuppression b x) (withSuppression b y) := by
  intro c d hcd
  obtain ⟨⟨ho, hr, ht⟩, hsame⟩ := h _ _ (hcd.withSuppressed b)
  refine ⟨⟨ho, hr, ?_⟩, fun heq => by subst heq; simp only [withSuppression, hsame rfl]⟩
  simp only [withSuppression, hcd.suppressed]
  exact ht.withSuppressed d.suppressed

/-- It is enough to know what is seen at the beginning. -/
theorem of_views (h : ∀ v w, P v w → Lockstep (Unmoved v w) A x y) : Lockstep P A x y := by
  intro c d hcd
  obtain ⟨⟨ho, hr, ht⟩, hsame⟩ := h _ _ hcd.views c d { hcd with views := ⟨rfl, rfl⟩ }
  refine ⟨⟨ho, hr, { ht with views := ?_ }⟩, hsame⟩
  rw [ht.views.1, ht.views.2]
  exact hcd.views

/-! ## Actions that do not look at frames -/

theorem of_unaware (hu : x.Unaware) (hy : x.Yields A) : Lockstep P A x x := by
  intro c d hcd
  obtain ⟨hr, hl, hs⟩ := hy c hcd.lexical
  have hd := hu c d.foreground
  rw [hcd.same] at hd
  refine ⟨⟨by rw [hd], hr, ?_⟩, fun heq => congrArg x heq⟩
  have hs' : (x d).2.scopes = d.scopes := (hy d hcd.right_lexical).2.2
  have hsuppressed : (x c).2.suppressed = c.suppressed :=
    congrArg Foreground.suppressed (hu.foreground c)
  have hsuppressed' : (x d).2.suppressed = d.suppressed :=
    congrArg Foreground.suppressed (hu.foreground d)
  refine ⟨?_, ?_, hl, hs ▸ hcd.left, hs' ▸ hcd.right, ?_⟩
  · rw [hu.foreground d, hd]
  · rw [hsuppressed, hsuppressed', hcd.suppressed]
  · rw [hs, hs']
    exact hcd.views

theorem failAt (p : Position) {fault : ScriptFault} (h : ¬ fault.Stray) :
    Lockstep P A (failAt p fault : Action α) (Action.failAt p fault) :=
  of_unaware (.failAt p fault) (.failAt p h)

theorem inStore {f : Store → α} (h : ∀ s : Store, s.Lexical → A (f s)) :
    Lockstep P A (inStore f) (Action.inStore f) := of_unaware (.inStore f) (.inStore h)

theorem isTruthy (v : Value) :
    Lockstep P (fun _ => True) (Action.inStore fun s => s.isTruthy v)
      (Action.inStore fun s => s.isTruthy v) := inStore fun _ _ => trivial

theorem tryView (p : Position) {f : Store → Except ScriptFault α}
    (h : ∀ s : Store, s.Lexical → Regular A (f s)) :
    Lockstep P A (tryView p f) (Action.tryView p f) := of_unaware (.tryView p f) (.tryView p h)

theorem toText (v : Value) (p : Position) :
    Lockstep P (fun _ => True) (toText v p) (Action.toText v p) :=
  of_unaware (.toText v p) (.toText v p)

/-- What is found is the same on both sides. -/
theorem view {v : Context → α} (h : ∀ c d : Context, c.Twins P d → v c = v d ∧ A (v c)) :
    Lockstep P A (view v) (Action.view v) := by
  intro c d hcd
  obtain ⟨heq, ha⟩ := h c d hcd
  exact ⟨⟨congrArg Outcome.ok heq, .ok ha, hcd⟩, fun hsame => by rw [hsame]⟩

end Lockstep

/-! ## Variables -/

variable {P : ScopeView → ScopeView → Prop} {names : LoopNames} {ref : VarRef}

/-- A loop name is read as what it stands for. -/
theorem readVariable_loop {c : Context} {v : Value} (hscope : ref.scope = .loop)
    (hname : names ref.name = some v) (h : names.Held c.scopes.view) :
    readVariable ref c = (.ok v, c) := by
  obtain ⟨k, hk, hget, -⟩ := h ref.name v hname
  rw [← Scopes.loopFrame?_eq, Option.mem_def] at hk
  simp only [readVariable, hscope, bind_apply, Action.view, hk, pure_apply, Frame.get, hget,
    Option.getD_some]

/-- Evaluation and a faithful reader read the same. -/
theorem lockstep_read {read : Reader} (hread : read.Faithful) (hnames : names.Lexical)
    (href : ref.Lexical names.Bound) (hP : ∀ v w, P v w → Sees names v w) :
    Lockstep P Value.Lexical (readVariable ref) (read names ref) := by
  cases hscope : ref.scope with
  | global =>
    rw [hread.other names ref (by rw [hscope]; nofun)]
    exact .of_unaware (unaware_readVariable hscope) (yields_readVariable hscope)
  | locals =>
    rw [hread.other names ref (by rw [hscope]; nofun)]
    simp only [readVariable, hscope]
    refine .view fun c d hcd => ?_
    obtain ⟨hsame, hlexical⟩ := (hP _ _ hcd.views).localFrame
    exact ⟨by rw [hsame], hlexical.get ref.name⟩
  | loop =>
    obtain ⟨v, hv⟩ := href hscope
    intro c d hcd
    have hsees := hP _ _ hcd.views
    rw [readVariable_loop hscope hv hsees.left,
      hread.loop names ref v d hscope hv (readVariable_loop hscope hv hsees.right)]
    exact ⟨⟨rfl, .ok (hnames _ v hv), hcd⟩, fun heq => by rw [heq]⟩

/-- Changing the local bindings on both sides. -/
theorem twins_setLocalFrame {v w : ScopeView} {c d : Context} (h : c.Twins (Inside v w) d)
    {f : Frame} (hf : f.Lexical) :
    Context.Twins (Inside v w) { c with scopes := c.scopes.setLocalFrame f }
      { d with scopes := d.scopes.setLocalFrame f } := by
  refine h.onFrames rfl rfl (h.left.setLocalFrame f) (h.right.setLocalFrame f) ?_
  obtain ⟨g, -, hv, hw⟩ := h.views
  refine ⟨f, hf, ?_, ?_⟩
  · rw [h.left.view_setLocalFrame, hv, withLocal_withLocal]
  · rw [h.right.view_setLocalFrame, hw, withLocal_withLocal]

/-- A variable is written in the same way on both sides; loop names are locked. -/
theorem lockstep_write {v w : ScopeView} (hv : names.Held v) (hw : names.Held w)
    (href : ref.Lexical names.Bound) {u : Value} (hu : u.Lexical) :
    Lockstep (Inside v w) (fun _ => True) (writeVariable ref u) (writeVariable ref u) := by
  have hP := Inside.sees hv hw
  cases hscope : ref.scope with
  | global => exact .of_unaware (unaware_writeVariable hscope _) (yields_writeVariable hscope hu)
  | locals =>
    intro c d hcd
    refine ⟨?_, fun heq => congrArg _ heq⟩
    obtain ⟨hsame, hlexical⟩ := (hP _ _ hcd.views).localFrame
    simp only [writeVariable, hscope, bind_apply, Action.view, hsame]
    rw [hsame] at hlexical
    cases hset : d.scopes.localFrame.set ref.name u with
    | error e => exact ⟨rfl, .error id, hcd⟩
    | ok f => exact ⟨rfl, .ok trivial, twins_setLocalFrame hcd (hlexical.set hu hset)⟩
  | loop =>
    -- a loop name is locked on both sides, so neither run writes
    obtain ⟨old, hold⟩ := href hscope
    have hlocked : ∀ c : Context, names.Held c.scopes.view →
        writeVariable ref u c =
          (.error (.script ref.position (.readOnlyVariable ref.name)), c) := by
      intro c hc
      obtain ⟨k, hk, -, hlock⟩ := hc ref.name old hold
      rw [← Scopes.loopFrame?_eq, Option.mem_def] at hk
      simp only [writeVariable, hscope, bind_apply, Action.view, hk, Frame.set, hlock, if_true]
      rfl
    intro c d hcd
    have hsees := hP _ _ hcd.views
    rw [hlocked c hsees.left, hlocked d hsees.right]
    exact ⟨⟨rfl, .error id, hcd⟩, fun heq => by rw [heq]⟩

end Action

end TemplateEngine
