import TemplateEngine.Proofs.Isolation.Evaluation

/-!
# Renderings do not see each other

A context serves a host for a while: the host makes values and has templates rendered with them.
What the host keeps apart from all these renderings it can render afterwards, and the result is the
one that a context opened just now gives. Everything that the context kept is left unseen: the
frames that came back, the tables of members, the templates that were loaded and whatever a failure
left unfinished. Two things are shared: the loop rounds that a context may count, and the functions
that a loaded template defines, which are the same ones each time the template is included. So the
rendering must get along with the rounds that are left, and the host must not have taken a function
of a loaded template out of an earlier rendering.
-/

namespace TemplateEngine

/-! ## Domains -/

/-- Places and functions that belong together. -/
structure Domain where
  places : Nat → Prop
  functions : Nat → Prop

namespace Domain

/-- Nothing at all. -/
def empty : Domain := ⟨fun _ => False, fun _ => False⟩

/-- Everything in the domain paired with itself. -/
def pairing (K : Domain) : Pairing :=
  ⟨fun r q => r = q ∧ K.places r, fun i j => i = j ∧ K.functions i⟩

/-- Both stores hold the places of the domain with the same in them, which refers to nothing outside
of it; the root namespace is no part of it. -/
structure Shared (K : Domain) (σ τ : Store) : Prop where
  place {r : Nat} : K.places r → r ≠ 0 ∧
    ∃ c, σ.cell? r = some c ∧ τ.cell? r = some c ∧ c.Alike K.pairing c
  function {i : Nat} : K.functions i → i < σ.nextIdentity ∧ i < τ.nextIdentity

end Domain

/-- The value refers to nothing outside of the domain. -/
def Value.In (K : Domain) (v : Value) : Prop := v.Alike K.pairing v

/-- The template defines functions of the domain only. -/
def Template.In (K : Domain) (t : Template) : Prop := t.Alike K.pairing t

/-- The host makes and changes values. It has no hold of the root namespace, and it takes no number
for a function twice. -/
structure Store.Worked (σ σ' : Store) : Prop where
  root : σ'.cell? 0 = σ.cell? 0
  nextIdentity : σ.nextIdentity ≤ σ'.nextIdentity

/-! ## Sessions -/

/-- The context was opened and has served its host since; the store is the one of a host that did
the same but never rendered. What the host keeps in the domain it has in both. -/
inductive Served (s : Settings) : Domain → Context → Store → Prop
  | opened : Served s .empty s.newContext s.newContext.store
  | worked {K L : Domain} {c : Context} {τ σ' τ' : Store} : Served s K c τ →
    c.store.Worked σ' → τ.Worked τ' → L.Shared σ' τ' → Served s L { c with store := σ' } τ'
  /-- A template is rendered with a model that shares no place with what the host keeps. -/
  | rendered {K M : Domain} {c : Context} {τ : Store} {t : Template} {model : Value} (n : Nat) :
    Served s K c τ → M.Shared c.store c.store → (∀ r, M.places r → ¬ K.places r) → t.In M →
    model.In M → Served s K (t.render (machine .none n) model c).2 τ
  | renderedPath {K M : Domain} {c : Context} {τ : Store} {model : Value} (n : Nat)
    (path : String) : Served s K c τ → M.Shared c.store c.store →
    (∀ r, M.places r → ¬ K.places r) → model.In M →
    Served s K (renderPath (machine .none n) path model c).2 τ

/-- The context that was opened just now, on a store that a host has worked on. -/
def Settings.contextOn (s : Settings) (τ : Store) : Context := { s.newContext with store := τ }

/-! ## Contexts between renderings -/

/-- The context stands as it did when it was opened, with what it keeps in order. -/
structure Context.Idle (s : Settings) (c : Context) : Prop where
  root : c.store.cell? 0 = some (.names s.root.1)
  kept : s.newContext.Kept Eq c
  settings : c.Of s
  scopes : c.scopes.Sound
  loaded : Loaded s c.store.nextIdentity c.templates

section

variable {s : Settings} (hs : s.functions = [])

include hs

theorem Settings.root_eq : s.root =
    (Builtin.all.foldl (fun f b => f.define b.name (.function (.builtin b)) true) .empty,
      .empty) := by
  simp only [Settings.root, hs, List.foldl_nil]

/-- The root namespace refers to nothing but built-in functions. -/
theorem Settings.root_alike (w : Pairing) : s.root.1.Alike w s.root.1 := by
  have hdefine : ∀ (bs : List Builtin) (f : Frame), f.Alike w f →
      (bs.foldl (fun f b => f.define b.name (.function (.builtin b)) true) f).Alike w
        (bs.foldl (fun f b => f.define b.name (.function (.builtin b)) true) f) := by
    intro bs
    induction bs with
    | nil =>
      intro f hf
      exact hf
    | cons b rest ih =>
      intro f hf
      exact ih _ (hf.define b.name (.function (.builtin b)) true)
  rw [Settings.root_eq hs]
  exact hdefine Builtin.all .empty (.empty w)

theorem Settings.idle_newContext : s.newContext.Idle s := by
  have hpool : FramePool.empty.Sound [] := ⟨List.nodup_nil, by simp [FramePool.empty], by
    simp [FramePool.empty]⟩
  have hroot : s.root = (s.root.1, .empty) := by rw [root_eq hs]
  refine ⟨?_, .refl _, ⟨MemberAccessors.sound_new _ _, rfl, rfl, rfl⟩, ⟨?_, ?_⟩, .empty s _⟩
  · unfold Settings.newContext
    rw [hroot]
    rfl
  · exact hpool.acquire
  · unfold Settings.newContext
    rw [hroot]
    rfl

omit hs in
/-- Contexts that stand as they were opened are alike if what they hold and have loaded is. -/
theorem Context.Idle.alike {w : Pairing} {c d : Context} (hc : c.Idle s) (hd : d.Idle s)
    (hstore : c.store.Alike w d.store) (htemplates : LoadedAlike w c.templates d.templates)
    (hiter : d.scopes.iterations ≤ c.scopes.iterations) :
    Context.Alike s (c.scopes.iterations - d.scopes.iterations) w c d where
  left := hc.settings
  right := hd.settings
  store := hstore
  scopes := by
    refine ⟨hc.scopes, hd.scopes, ?_, ?_, ?_, ?_, ?_, by omega⟩
    · rw [hc.kept.globals, hd.kept.globals]
      exact .nil
    · rw [hc.kept.locals, hd.kept.locals]
      exact .nil
    · rw [hc.kept.loops, hd.kept.loops]
      exact .nil
    · rw [hc.kept.loops, hd.kept.loops]
    · rw [hc.kept.depth, hd.kept.depth]
  loaded := hc.loaded
  templates := htemplates
  output := hc.kept.output.symm.trans hd.kept.output
  sources := hc.kept.sources.trans hd.kept.sources.symm
  suppressed := hc.kept.suppressed.trans hd.kept.suppressed.symm

/-- Stores with the root namespace are alike on a domain that they share. -/
theorem Domain.Shared.alike {K : Domain} {σ τ : Store} (h : K.Shared σ τ)
    (hσ : σ.cell? 0 = some (.names s.root.1)) (hτ : τ.cell? 0 = some (.names s.root.1)) :
    σ.Alike K.pairing τ where
  cell := by
    rintro r q ⟨rfl, hr⟩
    obtain ⟨_, c, hσ, hτ, hc⟩ := h.place hr
    exact ⟨c, c, hσ, hτ, hc⟩
  place_inj := by
    rintro r q r' q' ⟨rfl, _⟩ ⟨rfl, _⟩
    rfl
  identity_inj := by
    rintro i j i' j' ⟨rfl, _⟩ ⟨rfl, _⟩
    rfl
  identity_lt := by
    rintro i j ⟨rfl, hi⟩
    exact h.function hi
  root := ⟨s.root.1, hσ, hτ, s.root_alike hs _⟩
  place_ne_root := by
    rintro r q ⟨rfl, hr⟩
    exact ⟨(h.place hr).1, (h.place hr).1⟩

end

/-! ## One rendering -/

section

variable {s : Settings} {K M : Domain} {c : Context} {τ : Store} {t : Template} {model : Value}

/-- The domain with all functions that there are. -/
def Domain.below (M : Domain) (next : Nat) : Domain := ⟨M.places, fun i => i < next⟩

theorem Domain.Shared.below (h : M.Shared c.store c.store) :
    M.pairing ≤ (M.below c.store.nextIdentity).pairing ∧
      (M.below c.store.nextIdentity).Shared c.store c.store := by
  have hle : M.pairing ≤ (M.below c.store.nextIdentity).pairing :=
    ⟨fun _ _ hr => hr, fun _ _ hi => ⟨hi.1, (h.function hi.2).1⟩⟩
  refine ⟨hle, fun hr => ?_, fun hi => ⟨hi, hi⟩⟩
  obtain ⟨hne, c, hc, _, hcc⟩ := h.place hr
  exact ⟨hne, c, hc, hc, hcc.mono hle⟩

/-- Templates that were loaded are alike to themselves where their numbers are paired. -/
theorem Loaded.alike_self {next : Nat} {ts : Dictionary Template} (h : Loaded s next ts)
    {w : Pairing} (hw : ∀ i < next, w.identity i i) : LoadedAlike w ts ts where
  alike {name t} ht := by
    obtain ⟨_, t₀, _, _, hid⟩ := h.load ht
    have hself := (t₀.numbers_identify t.identity t.identity).paired w fun i i' hn hm hij => by
      obtain rfl : i = i' := by omega
      have hown := (t₀.owns_identify t.identity i).2 ⟨hn, hm⟩
      rw [hid] at hown
      exact hw i (h.owns_lt ht hown)
    rw [hid] at hself
    exact ⟨t, ht, hself⟩
  unpaired ht hu := by
    rw [ht] at hu
    cases hu

/-- A context is alike to itself on what a rendering is handed. -/
theorem Context.Idle.alike_self (hs : s.functions = []) (hc : c.Idle s)
    (hM : M.Shared c.store c.store) :
    Context.Alike s 0 (M.below c.store.nextIdentity).pairing c c := by
  have halike := hc.alike hc (hM.below.2.alike hs hc.root hc.root)
    (hc.loaded.alike_self fun i hi => ⟨rfl, hi⟩) (Nat.le_refl _)
  rwa [Nat.sub_self] at halike

/-- A rendering leaves the context standing as it was opened, and does not touch what it is not
handed. -/
theorem Context.Idle.after (hc : c.Idle s) (hM : M.Shared c.store c.store)
    {A : Pairing → String → String → Prop} {x : Outcome String × Context} (hkept : c.Kept Eq x.2)
    (h : Ends s 0 (M.below c.store.nextIdentity).pairing A c x x) :
    x.2.Idle s ∧ c.store.nextIdentity ≤ x.2.store.nextIdentity ∧
      ∀ r, r < c.store.cells.size → ¬ M.places r → x.2.store.cell? r = c.store.cell? r := by
  rcases h with ⟨_, hgap, _, _⟩ | ⟨v, hgrow, halike, _, _⟩
  · exact absurd rfl hgap
  have hframe : ∀ r, r < c.store.cells.size → ¬ M.places r →
      x.2.store.cell? r = c.store.cell? r :=
    fun r hr hfree => hgrow.frame hr fun q hq => hfree hq.2
  have hroot : ¬ M.places 0 := fun h => (hM.place h).1 rfl
  refine ⟨⟨?_, ?_, halike.left, halike.scopes.left, halike.loaded⟩, hgrow.nextIdentity, hframe⟩
  · rw [hframe 0 (Array.getElem?_eq_some_iff.1 hc.root).1 hroot]
    exact hc.root
  · exact hc.kept.trans hkept

/-! ## Whole sessions -/

theorem keeps_render (n : Nat) (t : Template) (model : Value) :
    (t.render (machine .none n) model).Keeps Eq :=
  Congruence.keeping.render (n := machine .none n) (keeps_run n) (keeps_native n) t model

theorem keeps_renderPath (n : Nat) (path : String) (model : Value) :
    (renderPath (machine .none n) path model).Keeps Eq :=
  Congruence.keeping.renderPath (n := machine .none n) (keeps_run n) (keeps_native n) path model

/-- What the host keeps apart is still there in both stores after a rendering. -/
theorem Domain.Shared.after (h : K.Shared c.store τ) {σ' : Store}
    (hnext : c.store.nextIdentity ≤ σ'.nextIdentity) (hapart : ∀ r, M.places r → ¬ K.places r)
    (hframe : ∀ r, r < c.store.cells.size → ¬ M.places r → σ'.cell? r = c.store.cell? r) :
    K.Shared σ' τ where
  place {r} hr := by
    obtain ⟨hne, x, hx, hτ, hxx⟩ := h.place hr
    refine ⟨hne, x, ?_, hτ, hxx⟩
    rw [hframe r (Array.getElem?_eq_some_iff.1 hx).1 fun hM => hapart r hM hr]
    exact hx
  function hi := ⟨Nat.lt_of_lt_of_le (h.function hi).1 hnext, (h.function hi).2⟩

/-- Between renderings the context stands as it was opened, and what the host keeps is the same as
without the renderings, by induction on the session. -/
theorem Served.idle (hs : s.functions = []) (hshapes : s.shapes.Uniform) (h : Served s K c τ) :
    c.Idle s ∧ τ.cell? 0 = some (.names s.root.1) ∧ K.Shared c.store τ := by
  induction h with
  | opened =>
    have hidle := Settings.idle_newContext hs
    exact ⟨hidle, hidle.root, fun hr => hr.elim, fun hi => hi.elim⟩
  | worked _ hσ hτ hL ih =>
    obtain ⟨hidle, hroot, _⟩ := ih
    refine ⟨{ hidle with
      root := hσ.root.trans hidle.root
      kept := { hidle.kept with }
      settings := { hidle.settings with }
      loaded := hidle.loaded.mono hσ.nextIdentity }, hτ.root.trans hroot, hL⟩
  | @rendered K M c τ t model n _ hM hapart ht hmodel ih =>
    obtain ⟨hidle, hroot, hK⟩ := ih
    have hle := hM.below.1
    have hends := ends_render (uniform_machine hshapes 0 n) hshapes (hmodel.mono hle)
      (hidle.alike_self hs hM) (ht.mono hle)
    obtain ⟨hidle', hnext, hframe⟩ := hidle.after hM (keeps_render n t model c) hends
    exact ⟨hidle', hroot, hK.after hnext hapart hframe⟩
  | @renderedPath K M c τ model n path _ hM hapart hmodel ih =>
    obtain ⟨hidle, hroot, hK⟩ := ih
    have hends := ends_renderPath (uniform_machine hshapes 0 n) hshapes (hmodel.mono hM.below.1)
      (hidle.alike_self hs hM) path
    obtain ⟨hidle', hnext, hframe⟩ := hidle.after hM (keeps_renderPath n path model c) hends
    exact ⟨hidle', hroot, hK.after hnext hapart hframe⟩

/-! ## The next rendering -/

/-- The action does not tell the context from one that was opened just now, if the loop rounds that
the context has left suffice for it. -/
def Context.LooksNew (s : Settings) (c : Context) (τ : Store) (x : Action String) : Prop :=
  (x c).2.scopes.iterations ≤ s.limits.loops → (x c).1 = (x (s.contextOn τ)).1

theorem Ends.looksNew {gap : Nat} {w : Pairing} {x : Action String}
    (h : Ends s gap w (fun _ => Eq) c (x c) (x (s.contextOn τ))) : c.LooksNew s τ x := by
  intro hfit
  rcases h with ⟨_, _, _, hup⟩ | ⟨_, _, _, _, hab⟩
  · exact absurd hfit (Nat.not_le.2 hup)
  · generalize (x c).1 = a at hab ⊢
    generalize (x (s.contextOn τ)).1 = b at hab ⊢
    cases hab with
    | ok h => rw [h]
    | error e => rfl
    | outOfFuel => rfl

/-- With more levels than calls are left a rendering comes to a result or an error. -/
theorem finishes_render {n : Nat} (hn : c.limits.depth < n) (t : Template) (model : Value) :
    (t.render (machine .none n) model c).1 ≠ .outOfFuel := by
  obtain ⟨k, rfl⟩ := Nat.exists_eq_add_of_le hn
  have hsettled := (Congruence.settling c.limits.depth).render (settled_run c.limits.depth k)
    (settled_native c.limits.depth k) t model
  obtain ⟨heq, hend⟩ := hsettled.agree c (Nat.lt_succ_of_le (Nat.sub_le _ _))
  rwa [heq] at hend

theorem finishes_renderPath {n : Nat} (hn : c.limits.depth < n) (path : String) (model : Value) :
    (renderPath (machine .none n) path model c).1 ≠ .outOfFuel := by
  obtain ⟨k, rfl⟩ := Nat.exists_eq_add_of_le hn
  have hsettled := (Congruence.settling c.limits.depth).renderPath (settled_run c.limits.depth k)
    (settled_native c.limits.depth k) path model
  obtain ⟨heq, hend⟩ := hsettled.agree c (Nat.lt_succ_of_le (Nat.sub_le _ _))
  rwa [heq] at hend

/-- The next rendering comes to the same text or error as on a context that was opened just now,
whatever was rendered before. -/
theorem rendering_looks_new (hs : s.functions = []) (hshapes : s.shapes.Uniform)
    (h : Served s K c τ)
    (hown : ∀ {name t i}, c.templates.get? name = some t → t.Owns i → ¬ K.functions i)
    (hmodel : model.In K) (n : Nat) :
    (∀ t : Template, t.In K → c.LooksNew s τ (t.render (machine .none n) model) ∧
      (s.limits.depth < n → (t.render (machine .none n) model c).1 ≠ .outOfFuel)) ∧
    ∀ path : String, c.LooksNew s τ (renderPath (machine .none n) path model) ∧
      (s.limits.depth < n → (renderPath (machine .none n) path model c).1 ≠ .outOfFuel) := by
  obtain ⟨hidle, hroot, hK⟩ := h.idle hs hshapes
  have hopened := Settings.idle_newContext hs
  have hnew : (s.contextOn τ).Idle s :=
    { hopened with
      root := hroot
      kept := { hopened.kept with }
      settings := { hopened.settings with }
      loaded := .empty s _ }
  have hloaded : LoadedAlike K.pairing c.templates (s.contextOn τ).templates :=
    ⟨fun hu => absurd hu (by simp [Settings.contextOn, Settings.newContext]),
      fun ht _ hi hij => hown ht hi hij.2⟩
  have halike := hidle.alike hnew (hK.alike hs hidle.root hroot) hloaded (Nat.zero_le _)
  have hm := uniform_machine hshapes (c.scopes.iterations - (s.contextOn τ).scopes.iterations) n
  have hdepth : c.limits = s.limits := hidle.settings.limits
  constructor
  · intro t ht
    exact ⟨(ends_render hm hshapes hmodel halike ht).looksNew,
      fun hn => finishes_render (hdepth ▸ hn) t model⟩
  · intro path
    exact ⟨(ends_renderPath hm hshapes hmodel halike path).looksNew,
      fun hn => finishes_renderPath (hdepth ▸ hn) path model⟩

end

/-! ## A library that was included before

A context has rendered a template that includes a library. A template with a function of its own
does not notice this. What betrays the context is the function of the library, if the host takes it
out of the first rendering and puts it into a later model: including the library again defines the
same function, since the template was kept. -/

theorem Shapes.uniform_empty : Shapes.empty.Uniform := by
  intro key p hp
  cases key with
  | list | array =>
    obtain rfl := List.mem_singleton.1 hp
    exact .length
  | record | builtin => cases hp

/-- Declaring one more shape. -/
theorem Shapes.Uniform.register {shapes : Shapes} (h : shapes.Uniform) (type : String)
    {shape : Shape} (hshape : ∀ p ∈ shape, p.2.Uniform) : (shapes.register type shape).Uniform := by
  intro key p hp
  cases key with
  | record name =>
    simp only [Shapes.get, Shapes.register, Dictionary.get?_insert] at hp
    split at hp
    · exact hshape p hp
    · exact h (.record name) p hp
  | list => exact h .list p hp
  | array => exact h .array p hp
  | builtin kind => exact h (.builtin kind) p hp

/-- A member that shows a field of its record and replaces it. -/
def Member.plain (name : String) : Member :=
  .field (fun x => .value ((x.fields.get? name).getD .undefined))
    (some fun _ x v => ⟨x.type, x.fields.insert name v⟩)

theorem Member.uniform_plain (name : String) : (Member.plain name).Uniform := by
  refine .field (fun h => .value (Value.alike_getD (h.fields.get? name))) fun f hf => ?_
  cases hf
  exact fun _ h hab => ⟨h.type, h.fields.insert name hab⟩

/-- A library of one function in memory, and points with one member. -/
def library : Settings :=
  { Settings.standard id with
    loader := some (Shelf.empty.insert "lib" "{% function f() %}x{% endfunction %}").loader
    shapes := Shapes.empty.register "point" [("x", .plain "x")] }

theorem uniform_library : library.shapes.Uniform :=
  Shapes.uniform_empty.register "point" fun p hp => by
    obtain rfl := List.mem_singleton.1 hp
    exact Member.uniform_plain "x"

/-- Includes the library into a map of the model. -/
def borrow (name : String) : Stmt :=
  .include (.literal (.text "lib") .unknown) (some (.var ⟨name, .global, .unknown⟩)) .unknown

/-- The host makes a map, an empty map and a model that names them `a` and `b`, and takes some
numbers for functions. -/
def Store.furnish (σ : Store) (d : Dictionary Value) (numbers : Nat) : Store :=
  ⟨σ.cells ++ #[.entries d, .entries .empty,
      .entries (.ofList [("a", .map σ.cells.size), ("b", .map (σ.cells.size + 1))])],
    σ.nextIdentity + numbers⟩

/-- What was furnished, with some functions. -/
def Store.furniture (σ : Store) (functions : Nat → Prop) : Domain :=
  ⟨fun r => σ.cells.size ≤ r ∧ r < σ.cells.size + 3, functions⟩

/-- The model that was furnished. -/
def Store.furnished (σ : Store) : Value := .map (σ.cells.size + 2)

theorem Store.cell?_furnish_of_lt {σ : Store} {r : Nat} (d : Dictionary Value) (numbers : Nat)
    (hr : r < σ.cells.size) : (σ.furnish d numbers).cell? r = σ.cell? r := by
  simp [furnish, cell?, Array.getElem?_append_left hr]

theorem Store.worked_furnish {σ : Store} (hσ : 0 < σ.cells.size) (d : Dictionary Value)
    (numbers : Nat) : σ.Worked (σ.furnish d numbers) :=
  ⟨cell?_furnish_of_lt d numbers hσ, Nat.le_add_right _ _⟩

theorem Store.shared_furnish {σ : Store} (hσ : 0 < σ.cells.size) {d : Dictionary Value}
    {numbers : Nat} {functions : Nat → Prop}
    (hd : d.Alike (Value.Alike (σ.furniture functions).pairing) d)
    (hnew : ∀ i, functions i → i < σ.nextIdentity + numbers) :
    (σ.furniture functions).Shared (σ.furnish d numbers) (σ.furnish d numbers) where
  place {r} hr := by
    obtain ⟨hle, hlt⟩ := hr
    obtain ⟨j, rfl⟩ := Nat.exists_eq_add_of_le hle
    have hj : j = 0 ∨ j = 1 ∨ j = 2 := by omega
    refine ⟨by omega, ?_⟩
    rcases hj with rfl | rfl | rfl
    · exact ⟨.entries d, by simp [furnish, cell?], by simp [furnish, cell?], .entries hd⟩
    · exact ⟨.entries .empty, by simp [furnish, cell?], by simp [furnish, cell?], .entries .empty⟩
    · refine ⟨_, by simp [furnish, cell?]; rfl, by simp [furnish, cell?], .entries (.ofList ?_)⟩
      exact .cons ⟨rfl, .map ⟨rfl, by simp [furniture]⟩⟩
        (.cons ⟨rfl, .map ⟨rfl, by simp [furniture]⟩⟩ .nil)
  function hi := ⟨hnew _ hi, hnew _ hi⟩

theorem Store.furnished_in (σ : Store) (functions : Nat → Prop) :
    σ.furnished.In (σ.furniture functions) := .map ⟨rfl, by simp [furniture]⟩

/-- The context on the store that was furnished. -/
def Context.furnish (c : Context) (d : Dictionary Value) (numbers : Nat) : Context :=
  { c with store := c.store.furnish d numbers }

theorem Served.furnish {s : Settings} (hs : s.functions = []) (hshapes : s.shapes.Uniform)
    {K : Domain} {c : Context} {τ : Store} (h : Served s K c τ)
    (hτ : τ.nextIdentity ≤ c.store.nextIdentity) (d : Dictionary Value) (numbers : Nat)
    (functions : Nat → Prop)
    (hd : d.Alike (Value.Alike (c.store.furniture functions).pairing) d)
    (hnew : ∀ i, functions i → i < c.store.nextIdentity + numbers) :
    Served s (c.store.furniture functions) (c.furnish d numbers) (c.store.furnish d numbers) := by
  obtain ⟨hidle, hroot, _⟩ := h.idle hs hshapes
  have hsize : 0 < c.store.cells.size := (Array.getElem?_eq_some_iff.1 hidle.root).1
  have hworked := Store.worked_furnish hsize d numbers
  exact .worked h hworked ⟨hworked.root.trans (hidle.root.trans hroot.symm),
    Nat.le_trans hτ hworked.nextIdentity⟩ (Store.shared_furnish hsize hd hnew)

/-- What was loaded before has other numbers than what was numbered afterwards. -/
theorem Served.owns_lt_furnish {s : Settings} (hs : s.functions = []) (hshapes : s.shapes.Uniform)
    {K : Domain} {c : Context} {τ : Store} (h : Served s K c τ) (d : Dictionary Value)
    (numbers : Nat) {name : String} {t : Template} {i : Nat}
    (ht : (c.furnish d numbers).templates.get? name = some t) (hi : t.Owns i) :
    i < c.store.nextIdentity := (h.idle hs hshapes).1.loaded.owns_lt ht hi

/-- The context after the library was included into the first map of a model. -/
def library.visited : Context :=
  (Template.render (machine .none 101) ⟨0, "", [borrow "a"]⟩ library.newContext.store.furnished
    (library.newContext.furnish .empty 0)).2

theorem library.served :
    Served library .empty library.visited (library.newContext.store.furnish .empty 0) := by
  have hroot : 0 < library.newContext.store.cells.size := by decide
  have hworked := Store.worked_furnish hroot .empty 0
  refine .rendered (M := library.newContext.store.furniture fun _ => False) 101
    (.worked .opened hworked hworked ⟨fun h => h.elim, fun h => h.elim⟩)
    (Store.shared_furnish hroot .empty fun _ h => h.elim) (fun _ _ h => h) ?_
    (Store.furnished_in _ _)
  exact ⟨rfl, .cons (.include _ _ _) .nil⟩

/-- Includes the library into the second map and compares the maps. -/
def comparison : Template :=
  ⟨0, "", [borrow "b", .output (.binary .eq (.var ⟨"a", .global, .unknown⟩)
    (.var ⟨"b", .global, .unknown⟩) .unknown)]⟩

/-- The same after a function of its own, numbered after all functions so far. -/
def ownComparison : Template :=
  (Template.identify library.visited.store.nextIdentity ⟨0, "",
    .define 0 ⟨"g", .global, .unknown⟩ [] [.text "y"] .unknown :: comparison.body⟩).1

/-- The numbers of that template. -/
def ownNumber (i : Nat) : Prop :=
  library.visited.store.nextIdentity ≤ i ∧ i < library.visited.store.nextIdentity + 2

theorem ownComparison_in : ownComparison.In (library.visited.store.furniture ownNumber) :=
  (Template.numbers_identify _ _ _).paired _ fun _ _ hn hm hij =>
    ⟨Nat.add_right_cancel hij, hn, hm⟩

/-- A template with a function of its own comes to the same on the context that has the library as
on one that was opened just now. -/
theorem ownComparison_looks_new :
    (ownComparison.render (machine .none 101) library.visited.store.furnished
        (library.visited.furnish .empty 2)).1 =
      (ownComparison.render (machine .none 101) library.visited.store.furnished
        (library.contextOn (library.visited.store.furnish .empty 2))).1 := by
  have hserved := library.served.furnish rfl uniform_library (Nat.zero_le _) .empty 2 ownNumber
    .empty fun _ hi => hi.2
  have hnew := (rendering_looks_new rfl uniform_library hserved
    (fun ht hi hown => Nat.not_lt.2 hown.1
      (library.served.owns_lt_furnish rfl uniform_library _ _ ht hi))
    (Store.furnished_in _ _) 101).1 _ ownComparison_in
  exact hnew.1 (by decide +kernel)

/-- The function that the library defined in the first map. -/
def library.function : Value :=
  ((library.visited.store.entries library.newContext.store.cells.size).get? "f").getD .undefined

/-- A function that writes some text, with a number below `next`. -/
def Value.isTextFunction (next : Nat) : Value → Bool
  | .function (.defined ⟨i, _, _, [.text _], _⟩) => i < next
  | _ => false

theorem Value.in_of_isTextFunction {K : Domain} (next : Nat) {v : Value}
    (h : v.isTextFunction next = true) (hK : ∀ i < next, K.functions i) : v.In K := by
  unfold isTextFunction at h
  split at h
  · next i _ _ _ _ =>
    exact .function (.defined ⟨⟨rfl, hK i (of_decide_eq_true h)⟩, rfl, rfl,
      .cons (.text _) .nil, rfl⟩)
  · cases h

/-- What the host puts into the first map of the next model. -/
def souvenir (v : Value) : Dictionary Value := .ofList [("f", v)]

theorem souvenir_alike {K : Domain} {v : Value} (h : v.In K) :
    (souvenir v).Alike (Value.Alike K.pairing) (souvenir v) := .ofList (.cons ⟨rfl, h⟩ .nil)

/-- The numbers of the functions up to then. -/
def earlierNumber (i : Nat) : Prop := i < library.visited.store.nextIdentity

/-- The maps and the model made after the first rendering, with the functions up to then. -/
def takenAlong : Domain := library.visited.store.furniture earlierNumber

theorem library.function_in : library.function.In takenAlong :=
  Value.in_of_isTextFunction library.visited.store.nextIdentity (by decide +kernel)
    fun _ hi => hi

/-- Whether an action came to some text. -/
def Outcome.reads (o : Outcome String) (text : String) : Bool :=
  match o with
  | .ok t => t == text
  | _ => false

/-- With the function of the library in its model, a template tells the context from a new one,
though no place of the model was there during the first rendering. -/
theorem library_function_is_recognised :
    Served library takenAlong (library.visited.furnish (souvenir library.function) 0)
      (library.visited.store.furnish (souvenir library.function) 0) ∧
    (∀ r, takenAlong.places r → library.visited.store.cells.size ≤ r) ∧
    comparison.In takenAlong ∧ library.visited.store.furnished.In takenAlong ∧
    ¬ (library.visited.furnish (souvenir library.function) 0).LooksNew library
      (library.visited.store.furnish (souvenir library.function) 0)
      (comparison.render (machine .none 101) library.visited.store.furnished) := by
  have hserved := library.served.furnish rfl uniform_library (Nat.zero_le _)
    (souvenir library.function) 0 earlierNumber (souvenir_alike library.function_in)
    fun _ hi => Nat.lt_add_right 0 hi
  have hused : (comparison.render (machine .none 101) library.visited.store.furnished
      (library.visited.furnish (souvenir library.function) 0)).1.reads "true" = true := by
    decide +kernel
  have hnew : (comparison.render (machine .none 101) library.visited.store.furnished
      (library.contextOn (library.visited.store.furnish (souvenir library.function) 0))).1.reads
        "true" = false := by
    decide +kernel
  refine ⟨hserved, fun _ hr => hr.1, ⟨rfl, .cons (.include _ _ _) (.cons (.output _) .nil)⟩,
    Store.furnished_in _ _, fun h => ?_⟩
  have hequal := h (by decide +kernel)
  rw [hequal, hnew] at hused
  cases hused

end TemplateEngine
