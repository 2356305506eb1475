import TemplateEngine.Proofs.Evaluation.Balance
import TemplateEngine.Proofs.Isolation.Members
import TemplateEngine.Proofs.Isolation.Operators
import TemplateEngine.Proofs.Isolation.Pairing
import TemplateEngine.Proofs.Isolation.Scopes

/-!
# Contexts alike

A template that is numbered from two beginnings gives two templates that are alike, as soon as the
numbers of the one are paired to those of the other in their order. Numbering goes through without
gaps and overwrites the numbers that were there, so a numbered template tells which numbers are
its own.

Two contexts that were opened with the same settings are alike under a pairing if nothing that a
template can observe tells them apart: the stores and the scopes are alike, and the output, the
sources and the settings are equal. The first one may have more behind it. It may have found more
tables of members, loaded more templates and counted more loop rounds than the second one. Two runs
on contexts that are alike end alike, unless the first one uses up its loop rounds (`Ends`).
-/

namespace TemplateEngine

/-! ## Numbering -/

/-- Numbering goes from `n` up to `m` and from `n'` as far up to `m'`, and what pairs these numbers
in their order has the property. -/
structure Numbers (n n' m m' : Nat) (P : Pairing → Prop) : Prop where
  le : n ≤ m
  even : m + n' = m' + n
  paired : ∀ w : Pairing, (∀ i i', n ≤ i → i < m → i + n' = i' + n → w.identity i i') → P w

namespace Numbers

variable {n n' m m' k k' : Nat} {P Q : Pairing → Prop}

theorem none (h : ∀ w, P w) : Numbers n n' n n' P := ⟨Nat.le_refl n, by omega, fun w _ => h w⟩

theorem imp (h : Numbers n n' m m' P) (hPQ : ∀ w, P w → Q w) : Numbers n n' m m' Q :=
  ⟨h.le, h.even, fun w hw => hPQ w (h.paired w hw)⟩

theorem seq (h : Numbers n n' m m' P) (h' : Numbers m m' k k' Q) :
    Numbers n n' k k' fun w => P w ∧ Q w where
  le := Nat.le_trans h.le h'.le
  even := by
    have := h.even
    have := h'.even
    omega
  paired w hw := by
    have hle := h.le
    have hle' := h'.le
    have heven := h.even
    exact ⟨h.paired w fun i i' hi hm => hw i i' hi (by omega),
      h'.paired w fun i i' hi hk hii => hw i i' (by omega) hk (by omega)⟩

/-- The first number is taken by itself. -/
theorem cons (h : Numbers (n + 1) (n' + 1) m m' P) :
    Numbers n n' m m' fun w => w.identity n n' ∧ P w where
  le := by
    have := h.le
    omega
  even := by
    have := h.even
    omega
  paired w hw := by
    have hle := h.le
    exact ⟨hw n n' (Nat.le_refl n) (by omega) (by omega),
      h.paired w fun i i' hi hm hii => hw i i' (by omega) hm (by omega)⟩

end Numbers

mutual

/-- A statement numbered twice. -/
theorem Stmt.numbers_identify (n n' : Nat) : ∀ s : Stmt,
    Numbers n n' (s.identify n).2 (s.identify n').2
      fun w => StmtAlike w (s.identify n).1 (s.identify n').1
  | .text t => .none fun _ => .text t
  | .output e => .none fun _ => .output e
  | .assign target e => .none fun _ => .assign target e
  | .assignGlobal ref e => .none fun _ => .assignGlobal ref e
  | .choose bs none =>
    (numbers_identifyBranches n n' bs).imp fun _ h => .choose h .none
  | .choose bs (some b) =>
    ((numbers_identifyBranches n n' bs).seq (numbers_identifyBlock _ _ b)).imp
      fun _ h => .choose h.1 (.some h.2)
  | .each ref e b none p =>
    (numbers_identifyBlock n n' b).imp fun _ h => .each ref e p h .none
  | .each ref e b (some o) p =>
    ((numbers_identifyBlock n n' b).seq (numbers_identifyBlock _ _ o)).imp
      fun _ h => .each ref e p h.1 (.some h.2)
  | .repeatWhile e b p => (numbers_identifyBlock n n' b).imp fun _ h => .repeatWhile e p h
  | .define _ name params b p =>
    (numbers_identifyBlock (n + 1) (n' + 1) b).cons.imp fun _ h => .define name params p h.1 h.2
  | .leave e p => .none fun _ => .leave e p
  | .stop p => .none fun _ => .stop p
  | .next p => .none fun _ => .next p
  | .capture target b => (numbers_identifyBlock n n' b).imp fun _ h => .capture target h
  | .include path model p => .none fun _ => .include path model p

theorem numbers_identifyBlock (n n' : Nat) : ∀ b : List Stmt,
    Numbers n n' (identifyBlock n b).2 (identifyBlock n' b).2
      fun w => BlockAlike w (identifyBlock n b).1 (identifyBlock n' b).1
  | [] => .none fun _ => .nil
  | s :: rest =>
    ((s.numbers_identify n n').seq (numbers_identifyBlock _ _ rest)).imp fun _ h => .cons h.1 h.2

theorem numbers_identifyBranches (n n' : Nat) : ∀ bs : List (Expr × List Stmt),
    Numbers n n' (identifyBranches n bs).2 (identifyBranches n' bs).2
      fun w => BranchesAlike w (identifyBranches n bs).1 (identifyBranches n' bs).1
  | [] => .none fun _ => .nil
  | (e, b) :: rest =>
    ((numbers_identifyBlock n n' b).seq (numbers_identifyBranches _ _ rest)).imp
      fun _ h => .cons e h.1 h.2

end

mutual

/-- Numbering forgets the numbers that were there. -/
theorem Stmt.identify_identify (n m : Nat) : ∀ s : Stmt, (s.identify n).1.identify m = s.identify m
  | .text _ | .output _ | .assign _ _ | .assignGlobal _ _ | .leave _ _ | .stop _ | .next _
  | .include _ _ _ => rfl
  | .choose bs none => by
    simp only [Stmt.identify, identifyBranches_identifyBranches n m bs]
  | .choose bs (some b) => by
    simp only [Stmt.identify, identifyBranches_identifyBranches n m bs,
      identifyBlock_identifyBlock _ _ b]
  | .each _ _ b none _ => by
    simp only [Stmt.identify, identifyBlock_identifyBlock n m b]
  | .each _ _ b (some o) _ => by
    simp only [Stmt.identify, identifyBlock_identifyBlock n m b, identifyBlock_identifyBlock _ _ o]
  | .repeatWhile _ b _ => by
    simp only [Stmt.identify, identifyBlock_identifyBlock n m b]
  | .define _ _ _ b _ => by
    simp only [Stmt.identify, identifyBlock_identifyBlock (n + 1) (m + 1) b]
  | .capture _ b => by
    simp only [Stmt.identify, identifyBlock_identifyBlock n m b]

theorem identifyBlock_identifyBlock (n m : Nat) : ∀ b : List Stmt,
    identifyBlock m (identifyBlock n b).1 = identifyBlock m b
  | [] => rfl
  | s :: rest => by
    simp only [identifyBlock, s.identify_identify n m, identifyBlock_identifyBlock _ _ rest]

theorem identifyBranches_identifyBranches (n m : Nat) : ∀ bs : List (Expr × List Stmt),
    identifyBranches m (identifyBranches n bs).1 = identifyBranches m bs
  | [] => rfl
  | (_, b) :: rest => by
    simp only [identifyBranches, identifyBlock_identifyBlock n m b,
      identifyBranches_identifyBranches _ _ rest]

end

/-! ## Numbered templates -/

/-- Templates of one name, which differ in their identities only. -/
structure Template.Alike (w : Pairing) (t t' : Template) : Prop where
  name : t.name = t'.name
  body : BlockAlike w t.body t'.body

theorem Template.Alike.mono {w v : Pairing} (h : w ≤ v) {t t' : Template} (ht : t.Alike w t') :
    t.Alike v t' := ⟨ht.name, ht.body.mono h⟩

/-- A template numbered twice. -/
theorem Template.numbers_identify (t : Template) (n n' : Nat) :
    Numbers n n' (t.identify n).2 (t.identify n').2
      fun w => (t.identify n).1.Alike w (t.identify n').1 :=
  (numbers_identifyBlock (n + 1) (n' + 1) t.body).cons.imp fun _ h => ⟨rfl, h.2⟩

theorem Template.identify_identify (t : Template) (n m : Nat) :
    (t.identify n).1.identify m = t.identify m := by
  simp only [Template.identify, identifyBlock_identifyBlock (n + 1) (m + 1) t.body]

/-- The numbers of a template that was numbered: from its own up to the first one left free. -/
def Template.Owns (t : Template) (i : Nat) : Prop :=
  t.identity ≤ i ∧ i < (t.identify t.identity).2

theorem Template.owns_identify (t : Template) (n i : Nat) :
    (t.identify n).1.Owns i ↔ n ≤ i ∧ i < (t.identify n).2 := by
  unfold Owns
  rw [show (t.identify n).1.identity = n from rfl, t.identify_identify n n]

/-! ## Templates alike -/

/-- The templates are what the loader gives, numbered apart from each other and below `next`. -/
structure Loaded (s : Settings) (next : Nat) (ts : Dictionary Template) : Prop where
  load {name : String} {t : Template} : ts.get? name = some t →
    ∃ loader t₀, s.loader = some loader ∧ loader.load name s.options = .ok t₀ ∧
      (t₀.identify t.identity).1 = t
  owns_lt {name : String} {t : Template} {i : Nat} : ts.get? name = some t → t.Owns i → i < next
  apart {a b : String} {t u : Template} {i : Nat} : ts.get? a = some t → ts.get? b = some u →
    t.Owns i → u.Owns i → a = b

theorem Loaded.empty (s : Settings) (next : Nat) : Loaded s next .empty where
  load h := by cases h
  owns_lt h := by cases h
  apart h := by cases h

theorem Loaded.mono {s : Settings} {next next' : Nat} {ts : Dictionary Template}
    (h : Loaded s next ts) (hle : next ≤ next') : Loaded s next' ts :=
  { h with owns_lt := fun ht hi => Nat.lt_of_lt_of_le (h.owns_lt ht hi) hle }

/-- What the second run has loaded, the first one has loaded as well; what the first one alone has
loaded is its own. -/
structure LoadedAlike (w : Pairing) (ts us : Dictionary Template) : Prop where
  alike {name : String} {u : Template} : us.get? name = some u →
    ∃ t, ts.get? name = some t ∧ t.Alike w u
  unpaired {name : String} {t : Template} {i j : Nat} : ts.get? name = some t →
    us.get? name = none → t.Owns i → ¬ w.identity i j

/-! ## Contexts -/

namespace Context

/-- The context was opened with these settings. -/
structure Of (s : Settings) (c : Context) : Prop where
  members : c.members.Sound s.shapes s.transform
  loader : c.loader = s.loader
  options : c.options = s.options
  limits : c.limits = s.limits

/-- Nothing that a template can observe tells the contexts apart, and the first one has counted so
many loop rounds more than the second one. -/
structure Alike (s : Settings) (gap : Nat) (w : Pairing) (c d : Context) : Prop where
  left : c.Of s
  right : d.Of s
  store : c.store.Alike w d.store
  scopes : c.scopes.Alike w gap d.scopes
  loaded : Loaded s c.store.nextIdentity c.templates
  templates : LoadedAlike w c.templates d.templates
  output : c.output = d.output
  sources : c.sources = d.sources
  suppressed : c.suppressed = d.suppressed

/-- A template is being rendered: there is a model over the root namespace, and a local frame over
the lowest one. -/
structure Inner (c : Context) : Prop where
  globals : c.scopes.globals.above ≠ []
  locals : c.scopes.locals.above ≠ []

theorem Kept.inner {out : Output → Output → Prop} {c d : Context} (h : c.Kept out d)
    (hc : c.Inner) : d.Inner := ⟨h.globals ▸ hc.globals, h.locals ▸ hc.locals⟩

theorem Kept.extends {c d : Context} (h : c.Kept Eq d) : c.Kept Output.Extends d :=
  { h with output := h.output ▸ .refl _ }

variable {s : Settings} {gap : Nat} {w v : Pairing} {c d : Context}

/-- Working on the stores. -/
theorem Alike.onStore (h : Alike s gap w c d) {t u : Store}
    (hstep : StoreStep w v c.store d.store t u) :
    Alike s gap v { c with store := t } { d with store := u } :=
  { h with
    left := { h.left with }
    right := { h.right with }
    store := hstep.alike
    scopes := h.scopes.mono hstep.grows.le
    loaded := h.loaded.mono hstep.grows.nextIdentity
    templates.alike := fun hu => by
      obtain ⟨t, ht, htu⟩ := h.templates.alike hu
      exact ⟨t, ht, htu.mono hstep.grows.le⟩
    templates.unpaired := fun ht hu hi hij => by
      rcases hstep.identity hij with hij | ⟨hle, _⟩
      · exact h.templates.unpaired ht hu hi hij
      · exact absurd (h.loaded.owns_lt ht hi) (Nat.not_lt.2 hle) }

/-- Working on the scopes. -/
theorem Alike.onScopes (h : Alike s gap w c d) {t u : Scopes} (ht : t.Alike w gap u) :
    Alike s gap w { c with scopes := t } { d with scopes := u } :=
  { h with
    left := { h.left with }
    right := { h.right with }
    scopes := ht }

end Context

/-! ## Two runs -/

/-- Results that are related, or the same failure. -/
inductive Outcome.Alike {α β : Type} (A : α → β → Prop) : Outcome α → Outcome β → Prop
  | ok {a : α} {b : β} : A a b → Alike A (.ok a) (.ok b)
  | error (e : EvalError) : Alike A (.error e) (.error e)
  | outOfFuel : Alike A .outOfFuel .outOfFuel

/-- How two runs end that began on contexts that are alike, the first of them on `c`. -/
inductive Ends (s : Settings) (gap : Nat) (w : Pairing) {α β : Type} (A : Pairing → α → β → Prop)
    (c : Context) (x : Outcome α × Context) (y : Outcome β × Context) : Prop
  /-- The first one fails since it shares its loop rounds with runs before it. -/
  | usedUp (e : EvalError) : gap ≠ 0 → x.1 = .error e → s.limits.loops < x.2.scopes.iterations →
    Ends s gap w A c x y
  | alike (v : Pairing) : w.Grows v c.store x.2.store → Context.Alike s gap v x.2 y.2 →
    c.Kept Output.Extends x.2 → x.1.Alike (A v) y.1 → Ends s gap w A c x y

open TemplateEngine.Action

namespace Ends

variable {s : Settings} {gap : Nat} {w v : Pairing} {α β α' β' : Type}
  {A : Pairing → α → β → Prop} {B : Pairing → α' → β' → Prop} {c d : Context}

/-- Nothing happens but that a result is given. -/
theorem same (h : Context.Alike s gap w c d) {a : Outcome α} {b : Outcome β}
    (hab : a.Alike (A w) b) : Ends s gap w A c (a, c) (b, d) :=
  .alike w (.refl w c.store) h (.refl c) hab

/-- What two runs did before counts as part of them. -/
theorem after {c' : Context} (hgrow : w.Grows v c.store c'.store)
    (hkept : c.Kept Output.Extends c') {x : Outcome α × Context} {y : Outcome β × Context}
    (h : Ends s gap v A c' x y) : Ends s gap w A c x y := by
  rcases h with ⟨e, hgap, he, hup⟩ | ⟨u, hgrow', hcd, hkept', hab⟩
  · exact .usedUp e hgap he hup
  · exact .alike u (hgrow.trans hgrow') hcd (hkept.trans hkept') hab

/-- Going on where two runs have ended. -/
theorem bind {x : Action α} {y : Action β} {f : α → Action α'} {g : β → Action β'}
    (h : Ends s gap w A c (x c) (y d))
    (hf : ∀ {v a b c' d'}, x c = (.ok a, c') → y d = (.ok b, d') → w ≤ v → A v a b →
      Context.Alike s gap v c' d' → c.Kept Output.Extends c' →
      Ends s gap v B c' (f a c') (g b d')) :
    Ends s gap w B c ((x >>= f) c) ((y >>= g) d) := by
  rcases hx : x c with ⟨a, c'⟩
  rcases hy : y d with ⟨b, d'⟩
  rw [hx, hy] at h
  rcases h with ⟨e, hgap, rfl, hup⟩ | ⟨v, hgrow, hcd, hkept, hab⟩
  · rw [bind_of_error hx]
    exact .usedUp e hgap rfl hup
  · cases hab with
    | ok hab =>
      rw [bind_of_ok hx, bind_of_ok hy]
      exact .after hgrow hkept (hf hx hy hgrow.le hab hcd hkept)
    | error e =>
      rw [bind_of_error hx, bind_of_error hy]
      exact .alike v hgrow hcd hkept (.error e)
    | outOfFuel =>
      rw [bind_of_outOfFuel hx, bind_of_outOfFuel hy]
      exact .alike v hgrow hcd hkept .outOfFuel

/-- Both stores are worked on. -/
theorem stored (hcd : Context.Alike s gap w c d) {x : α × Store} {y : β × Store}
    (h : Gives A w c.store d.store x y) :
    Ends s gap w A c (.ok x.1, { c with store := x.2 }) (.ok y.1, { d with store := y.2 }) := by
  obtain ⟨v, hstep, hab⟩ := h
  have hstill : c.Still { c with store := x.2 } := rfl
  exact .alike v hstep.grows (hcd.onStore hstep) hstill.kept.extends (.ok hab)

/-- Both scopes are worked on, and the stacks stay where they are. -/
theorem rescoped (hcd : Context.Alike s gap w c d) {t u : Scopes}
    (htu : t.Alike w gap u) (hkept : c.Kept Output.Extends { c with scopes := t }) {a : α} {b : β}
    (hab : A w a b) :
    Ends s gap w A c (.ok a, { c with scopes := t }) (.ok b, { d with scopes := u }) :=
  .alike w (.refl w c.store) (hcd.onScopes htu) hkept (.ok hab)

end Ends

/-- Wherever a template is rendered on contexts that are alike under `w` or a pairing that it grew
to, the actions end alike. -/
def Action.Sim (s : Settings) (gap : Nat) (w : Pairing) {α β : Type} (A : Pairing → α → β → Prop)
    (x : Action α) (y : Action β) : Prop :=
  ∀ ⦃v c d⦄, w ≤ v → Context.Alike s gap v c d → c.Inner → Ends s gap v A c (x c) (y d)

namespace Action.Sim

variable {s : Settings} {gap : Nat} {w v : Pairing} {α β α' β' : Type}
  {A : Pairing → α → β → Prop} {B : Pairing → α' → β' → Prop}

theorem mono (hle : w ≤ v) {x : Action α} {y : Action β} (h : Sim s gap w A x y) :
    Sim s gap v A x y := fun _ _ _ hu hcd hc => h (Pairing.le_trans hle hu) hcd hc

theorem pure {a : α} {b : β} (h : ∀ {v}, w ≤ v → A v a b) :
    Sim s gap w A (Pure.pure a) (Pure.pure b) := fun _ _ _ hv hcd _ => .same hcd (.ok (h hv))

theorem bind {x : Action α} {y : Action β} {f : α → Action α'} {g : β → Action β'}
    (h : Sim s gap w A x y) (hf : ∀ {v a b}, w ≤ v → A v a b → Sim s gap v B (f a) (g b)) :
    Sim s gap w B (x >>= f) (y >>= g) := by
  intro v c d hv hcd hc
  refine (h hv hcd hc).bind ?_
  intro u a b c' d' _ _ hu hab hcd' hkept
  exact hf (Pairing.le_trans hv hu) hab (Pairing.le_refl u) hcd' (hkept.inner hc)

theorem fail (e : EvalError) : Sim s gap w A (Action.fail e) (Action.fail e) :=
  fun _ _ _ _ hcd _ => .same hcd (.error e)

theorem failAt (p : Position) (fault : ScriptFault) :
    Sim s gap w A (Action.failAt p fault) (Action.failAt p fault) := fail _

theorem ite {p q : Prop} [Decidable p] [Decidable q] (hpq : p ↔ q) {x x' : Action α}
    {y y' : Action β} (h : Sim s gap w A x y) (h' : Sim s gap w A x' y') :
    Sim s gap w A (if p then x else x') (if q then y else y') := by
  by_cases hp : p
  · rw [if_pos hp, if_pos (hpq.1 hp)]
    exact h
  · rw [if_neg hp, if_neg fun hq => hp (hpq.2 hq)]
    exact h'

theorem view {f : Context → α} {g : Context → β}
    (h : ∀ {v c d}, w ≤ v → Context.Alike s gap v c d → c.Inner → A v (f c) (g d)) :
    Sim s gap w A (Action.view f) (Action.view g) :=
  fun _ _ _ hv hcd hc => .same hcd (.ok (h hv hcd hc))

theorem inStore {f : Store → α} {g : Store → β}
    (h : ∀ {v s t}, w ≤ v → Store.Alike v s t → A v (f s) (g t)) :
    Sim s gap w A (Action.inStore f) (Action.inStore g) := view fun hv hcd _ => h hv hcd.store

theorem tryView (p : Position) {f : Store → Except ScriptFault α}
    {g : Store → Except ScriptFault β}
    (h : ∀ {v s t}, w ≤ v → Store.Alike v s t → ExceptAlike (A v) (f s) (g t)) :
    Sim s gap w A (Action.tryView p f) (Action.tryView p g) := by
  intro v c d hv hcd _
  have hfg := h hv hcd.store
  unfold Action.tryView
  revert hfg
  generalize f c.store = a
  generalize g d.store = b
  intro hfg
  cases hfg with
  | ok hab => exact .same hcd (.ok hab)
  | error e => exact .same hcd (.error _)

theorem onStore {f : Store → α × Store} {g : Store → β × Store}
    (h : ∀ {v s t}, w ≤ v → Store.Alike v s t → Gives A v s t (f s) (g t)) :
    Sim s gap w A (Action.onStore f) (Action.onStore g) :=
  fun _ _ _ hv hcd _ => .stored hcd (h hv hcd.store)

theorem tryStore (p : Position) {f : Store → Except ScriptFault (α × Store)}
    {g : Store → Except ScriptFault (β × Store)}
    (h : ∀ {v s t}, w ≤ v → Store.Alike v s t → ExceptAlike (Gives A v s t) (f s) (g t)) :
    Sim s gap w A (Action.tryStore p f) (Action.tryStore p g) := by
  intro v c d hv hcd _
  have hfg := h hv hcd.store
  unfold Action.tryStore
  revert hfg
  generalize f c.store = a
  generalize g d.store = b
  intro hfg
  cases hfg with
  | ok hab => exact .stored hcd hab
  | error e => exact .same hcd (.error _)

theorem withSuppression (b : Bool) {x : Action α} {y : Action β} (h : Sim s gap w A x y) :
    Sim s gap w A (Action.withSuppression b x) (Action.withSuppression b y) := by
  intro v c d hv hcd hc
  have hends := h hv (c := { c with suppressed := b }) (d := { d with suppressed := b })
    { hcd with left := { hcd.left with }, right := { hcd.right with }, suppressed := rfl }
    ⟨hc.globals, hc.locals⟩
  rcases hends with ⟨e, hgap, he, hup⟩ | ⟨u, hgrow, hcd', hkept, hab⟩
  · exact .usedUp e hgap he hup
  · exact .alike u hgrow { hcd' with
      left := { hcd'.left with }
      right := { hcd'.right with }
      suppressed := hcd.suppressed } { hkept with suppressed := rfl } hab

end Action.Sim

end TemplateEngine
