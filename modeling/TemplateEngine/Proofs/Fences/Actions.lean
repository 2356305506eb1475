import TemplateEngine.Proofs.Evaluation.Balance
import TemplateEngine.Proofs.Evaluation.Primitive
import TemplateEngine.Proofs.Fences.Operations

/-!
# Actions inside of fences

A context is known if all values that it works on are: those in its store, those that frames bind,
and its models above the ground. An action respects a fence if it leaves a known context known and
standing, and what has to stay as it is, provided that the innermost model may change
(`Action.Respects`). Its result then has a property, and what goes on with it needs to respect the
fence for such results only.
-/

namespace TemplateEngine

open TemplateEngine.Action

variable {F : Fence}

/-! ## Contexts -/

/-- Every value that a frame of the pool binds is known. -/
def FramePool.Known (F : Fence) (p : FramePool) : Prop := ∀ i, (p.get i).Known F

namespace FramePool.Known

variable {p : FramePool} (h : p.Known F)

include h

theorem set (i : Nat) {f : Frame} (hf : f.Known F) : (p.set i f).Known F := by
  intro j
  by_cases hij : i = j
  · subst hij
    by_cases hi : i < p.frames.size
    · rw [get_set_self hi]
      exact hf
    · simp only [FramePool.get, FramePool.set, Array.getElem?_setIfInBounds_self, if_neg hi]
      exact .empty
  · rw [get_set_of_ne p hij]
    exact h j

theorem acquire : p.acquire.2.Known F := fun j => by
  rw [get_acquire]
  exact h j

theorem release (i : Nat) : (p.release i).Known F := by
  intro j
  by_cases hij : i = j
  · subst hij
    rw [get_release_self]
    exact .empty
  · rw [get_release_of_ne p hij]
    exact h j

end FramePool.Known

/-- The values that the context works on are known. The ground of the models need not be, since
only its members can be got at. -/
structure Context.Known (F : Fence) (c : Context) : Prop where
  store : c.store.Known F
  frames : c.scopes.pool.Known F
  models : ∀ g ∈ c.scopes.globals.above, g.model.Known F
  members : c.members.Confined F

/-- The innermost model may change. -/
def Context.Open (F : Fence) (c : Context) : Prop := c.scopes.globals.top.model.Outside F

/-- Any two outputs. -/
def Output.Whatever (_ _ : Output) : Prop := True

instance : Std.Refl Output.Whatever := ⟨fun _ => trivial⟩

instance : Trans Output.Whatever Output.Whatever Output.Whatever := ⟨fun _ _ => trivial⟩

/-- The second context is known, stands as the first one, and what has to stay is as it is in the
first one. -/
structure Context.Spared (F : Fence) (c d : Context) : Prop where
  known : d.Known F
  stays : c.store.Stays F d.store
  stands : c.Kept Output.Whatever d

namespace Context

variable {c d e : Context}

theorem Kept.whatever {out : Output → Output → Prop} (h : c.Kept out d) :
    c.Kept Output.Whatever d := { h with output := trivial }

theorem Known.spared (h : c.Known F) : c.Spared F c := ⟨h, .refl _, .refl c⟩

theorem Spared.trans (h : c.Spared F d) (k : d.Spared F e) : c.Spared F e :=
  ⟨k.known, h.stays.trans k.stays, h.stands.trans k.stands⟩

theorem Spared.open (h : c.Spared F d) (hc : c.Open F) : d.Open F := by
  unfold Open
  rw [h.stands.globals]
  exact hc

/-- Something is worked on that is no value. -/
theorem Known.spared_same (h : c.Known F) (hc : c.Kept Output.Whatever d)
    (hstore : d.store = c.store) (hpool : d.scopes.pool = c.scopes.pool)
    (hmembers : d.members = c.members) : c.Spared F d where
  known := ⟨hstore ▸ h.store, hpool ▸ h.frames, hc.globals ▸ h.models, hmembers ▸ h.members⟩
  stays := hstore ▸ .refl _
  stands := hc

/-- What the context refers to is worked on. -/
theorem Known.spared_store (h : c.Known F) {s : Store} (hs : c.store.Spared F s) :
    c.Spared F { c with store := s } :=
  ⟨{ h with store := hs.known }, hs.stays, { Kept.refl c with }⟩

/-- A frame is worked on. -/
theorem Known.spared_pool (h : c.Known F) {p : FramePool} (hp : p.Known F) :
    c.Spared F { c with scopes := { c.scopes with pool := p } } :=
  ⟨⟨h.store, hp, h.models, h.members⟩, .refl _, { Kept.refl c with }⟩

theorem Known.spared_loopFrame (h : c.Known F) {f : Frame} (hf : f.Known F) :
    c.Spared F { c with scopes := c.scopes.setLoopFrame f } := by
  unfold Scopes.setLoopFrame
  split
  · exact h.spared
  · exact h.spared_pool (h.frames.set _ hf)

theorem Known.loopFrame (h : c.Known F) : ∀ f ∈ c.scopes.loopFrame?, f.Known F := by
  unfold Scopes.loopFrame?
  cases c.scopes.loops with
  | nil => nofun
  | cons l rest =>
    rintro _ ⟨⟩
    exact h.frames l.frame

end Context

/-! ## Fences that hide nothing -/

section

variable (h : ∀ r, ¬ F.hidden r)

include h

theorem Value.known_of_open (v : Value) : v.Known F := fun r _ => h r

theorem Frame.known_of_open (f : Frame) : f.Known F := fun x _ => x.2.value.known_of_open h

theorem Record.known_of_open (x : Record) : x.Known F := fun y _ => y.2.known_of_open h

theorem Cell.known_of_open (c : Cell) : c.Known F := by
  cases c with
  | items xs => exact fun v _ => v.known_of_open h
  | entries d => exact fun x _ => x.2.known_of_open h
  | names f => exact f.known_of_open h
  | capability c => exact fun name => (c.get name).known_of_open h
  | record x => exact x.known_of_open h

theorem Member.confined_of_open (m : Member) : m.Confined F := by
  cases m with
  | length => trivial
  | field read write =>
    refine ⟨fun x _ => ?_, fun f _ s x v _ _ _ => (f s x v).known_of_open h⟩
    cases read x with
    | value v => exact v.known_of_open h
    | newFunction name operation => trivial

/-- If nothing is hidden, then all is known. -/
theorem Context.known_of_open (c : Context) (hkept : ∀ r, F.kept r → r < c.store.cells.size) :
    c.Known F where
  store := ⟨hkept, fun r hr => absurd hr (h r), fun _ cell _ => cell.known_of_open h⟩
  frames _ := Frame.known_of_open h _
  models g _ := g.model.known_of_open h
  members := ⟨fun _ x _ => x.2.confined_of_open h, fun _ _ m _ => m.2.confined_of_open h⟩

end

/-! ## Actions -/

namespace Action

variable {α β : Type}

/-- The action ended in a context in which what has to stay is spared, and its result has the
property. -/
structure SparedWith {α : Type} (F : Fence) (A : α → Prop) (c : Context)
    (r : Outcome α × Context) : Prop where
  spared : c.Spared F r.2
  gives : ∀ a, r.1 = .ok a → A a

/-- On a known context whose innermost model may change, the action spares what has to stay, and its
result has the property. -/
def Respects (F : Fence) (A : α → Prop) (x : Action α) : Prop :=
  ∀ c : Context, c.Known F → c.Open F → SparedWith F A c (x c)

variable {A : α → Prop} {B : β → Prop}

namespace SparedWith

variable {c d : Context}

theorem ok (h : c.Spared F d) {a : α} (ha : A a) : SparedWith F A c (.ok a, d) := by
  refine ⟨h, ?_⟩
  rintro _ ⟨⟩
  exact ha

theorem pure (hc : c.Known F) {a : α} (h : A a) :
    SparedWith F A c ((pure a : Action α) c) := .ok hc.spared h

theorem fail (hc : c.Known F) (e : EvalError) : SparedWith F A c ((fail e : Action α) c) :=
  ⟨hc.spared, fun _ => nofun⟩

theorem bind {x : Action α} {f : α → Action β} (hx : SparedWith F A c (x c))
    (hf : ∀ a d, A a → c.Spared F d → SparedWith F B d (f a d)) :
    SparedWith F B c ((x >>= f) c) := by
  obtain ⟨hd, ha⟩ := hx
  rcases h : x c with ⟨a | e | _, d⟩ <;> rw [h] at hd ha
  · rw [bind_of_ok h]
    obtain ⟨he, hb⟩ := hf a d (ha a rfl) hd
    exact ⟨hd.trans he, hb⟩
  · rw [bind_of_error h]
    exact ⟨hd, fun _ => nofun⟩
  · rw [bind_of_outOfFuel h]
    exact ⟨hd, fun _ => nofun⟩

theorem onStore (hc : c.Known F) {f : Store → α × Store}
    (h : ∀ s : Store, s.Known F → A (f s).1 ∧ s.Spared F (f s).2) :
    SparedWith F A c (onStore f c) := by
  obtain ⟨ha, hs⟩ := h c.store hc.store
  exact .ok (hc.spared_store hs) ha

end SparedWith

namespace Respects

theorem pure {a : α} (h : A a) : Respects F A (pure a : Action α) := fun _ hc _ => .pure hc h

theorem fail (e : EvalError) : Respects F A (fail e : Action α) := fun _ hc _ => .fail hc e

theorem failAt (p : Position) (fault : ScriptFault) : Respects F A (failAt p fault : Action α) :=
  fail _

theorem outOfFuel : Respects F A (outOfFuel : Action α) :=
  fun _ hc _ => ⟨hc.spared, fun _ => nofun⟩

theorem bind {x : Action α} {f : α → Action β} (hx : x.Respects F A)
    (hf : ∀ a, A a → (f a).Respects F B) : (x >>= f).Respects F B := fun c hc hopen =>
  (hx c hc hopen).bind fun a d ha hd => hf a ha d hd.known (hd.open hopen)

theorem ite {p : Prop} [Decidable p] {x y : Action α} (hx : x.Respects F A)
    (hy : y.Respects F A) : (if p then x else y).Respects F A := by
  split
  · exact hx
  · exact hy

theorem view {v : Context → α} (h : ∀ c : Context, c.Known F → A (v c)) :
    (view v).Respects F A := fun c hc _ => .ok hc.spared (h c hc)

theorem inStore {f : Store → α} (h : ∀ s : Store, s.Known F → A (f s)) :
    (inStore f).Respects F A := view fun _ hc => h _ hc.store

/-- What is done with something that is looked up. -/
theorem viewing {v : Context → α} {f : α → Action β}
    (h : ∀ c : Context, c.Known F → c.Open F → (f (v c)).Respects F B) :
    (Action.view v >>= f).Respects F B := fun c hc hopen => h c hc hopen c hc hopen

theorem onStore {f : Store → α × Store}
    (h : ∀ s : Store, s.Known F → A (f s).1 ∧ s.Spared F (f s).2) : (onStore f).Respects F A :=
  fun _ hc _ => .onStore hc h

theorem tryView (p : Position) {f : Store → Except ScriptFault α}
    (h : ∀ s : Store, s.Known F → ∀ a, f s = .ok a → A a) : (tryView p f).Respects F A := by
  intro c hc _
  have ha := h c.store hc.store
  unfold Action.tryView
  split
  · next a hf => exact .ok hc.spared (ha a hf)
  · exact ⟨hc.spared, fun _ => nofun⟩

theorem tryStore (p : Position) {f : Store → Except ScriptFault (α × Store)}
    (h : ∀ s : Store, s.Known F → ∀ a t, f s = .ok (a, t) → A a ∧ s.Spared F t) :
    (tryStore p f).Respects F A := by
  intro c hc _
  have hf := h c.store hc.store
  unfold Action.tryStore
  split
  · next a t heq =>
    obtain ⟨ha, ht⟩ := hf a t heq
    exact .ok (hc.spared_store ht) ha
  · exact ⟨hc.spared, fun _ => nofun⟩

/-- The context is worked on where there is no value. -/
theorem modify {f : Context → Context} (h : ∀ c : Context, c.Known F → c.Spared F (f c)) :
    (modify f).Respects F fun _ => True := fun c hc _ => ⟨h c hc, fun _ _ => trivial⟩

theorem toText (v : Value) (p : Position) : (toText v p).Respects F fun _ => True :=
  tryView p fun _ _ _ _ => trivial

theorem toInteger (v : Value) (p : Position) : (toInteger v p).Respects F fun _ => True :=
  tryView p fun _ _ _ _ => trivial

theorem withSuppression (b : Bool) {x : Action α} (h : x.Respects F A) :
    (withSuppression b x).Respects F A := by
  intro c hc hopen
  have hc' : Context.Known F { c with suppressed := b } :=
    ⟨hc.store, hc.frames, hc.models, hc.members⟩
  obtain ⟨hd, ha⟩ := h { c with suppressed := b } hc' hopen
  have hk := hd.known
  exact ⟨⟨⟨hk.store, hk.frames, hk.models, hk.members⟩, hd.stays,
    { hd.stands with suppressed := rfl }⟩, ha⟩

end Respects

end Action

end TemplateEngine
