import TemplateEngine.Proofs.Fences.Permits
import TemplateEngine.Proofs.Includes.Homes
import TemplateEngine.Proofs.Positions.Agreement
import TemplateEngine.Proofs.Positions.Evaluation
import TemplateEngine.Proofs.Positions.Sources

/-!
# Errors point into the source that runs

Bodies of functions and of included templates are run by the machine, and nothing else is. So which
bodies a render needs can be asked of a machine that has only some of them (`machineFor`): a render
that comes to an end there runs no others. A render that fails because of the script points into the
template or into one of the bodies that it runs, whichever bodies these are: the place of the error
is one of a statement there, of a name that the statement binds or of a node of its expressions.
What is read from a source stands in it, and so the place is never the unknown one
(`errors_point_into_bodies_run`); only a path that cannot be loaded is blamed there
(`Context.MadeOf.renderPath_blames_known`). Contexts that are opened over a loader of sources hold
nothing but what was read, and they stay so (`Settings.madeOf_newContext`,
`Context.MadeOf.render`).
-/

namespace TemplateEngine

open TemplateEngine.Action

/-! ## Sources -/

/-- The template was read from a source, and perhaps numbered since. -/
def Template.OfSource (u : Template) : Prop :=
  ∃ name source options t, Template.parse name source options = .ok t ∧
    (u = t ∨ ∃ n, u = (t.identify n).1)

/-- The statement is one of a template that was read from a source. -/
def Stmt.OfSource (s : Stmt) : Prop :=
  ∃ u : Template, u.OfSource ∧ ∃ path inside, Within u.body path inside ∧ s ∈ inside

theorem Template.OfSource.madeOf {u : Template} (h : u.OfSource) : u.MadeOf Stmt.OfSource :=
  fun path inside hinside _ hs => ⟨u, h, path, inside, hinside, hs⟩

theorem Loader.Reads.madeOf {l : Loader} (h : l.Reads) : l.MadeOf Stmt.OfSource := by
  intro name options t ht n
  obtain ⟨source, hparse⟩ := h name options t ht
  exact Template.OfSource.madeOf ⟨name, source, options, t, hparse, .inr ⟨n, rfl⟩⟩

theorem Stmt.OfSource.stands {s : Stmt} (h : s.OfSource) : ∃ source : String,
    s.Stands (Position.In source.toList) := by
  obtain ⟨u, ⟨name, source, options, t, ht, hu⟩, path, inside, hinside, hs⟩ := h
  have hall : u.body.Everywhere (Stmt.Stands (Position.In source.toList)) := by
    obtain rfl | ⟨n, rfl⟩ := hu
    · exact Template.everywhere_of_parse ht
    · exact Template.everywhere_identify (Template.everywhere_of_parse ht) n
  exact ⟨source, hall path inside hinside s hs⟩

/-! ## Bodies -/

/-- A statement in the block stands at the place, however deep it is in it. -/
def Block.StandsAt (b : Block) (p : Position) : Prop :=
  ∃ path inside, Within b path inside ∧ ∃ s ∈ inside, p ∈ s.positions

theorem Block.everywhere_of_not_standsAt {b : Block} {p : Position} (h : ¬ b.StandsAt p) :
    b.Everywhere (Stmt.Stands (· ≠ p)) := fun path inside hinside s hs _ hq heq =>
  h ⟨path, inside, hinside, s, hs, heq ▸ hq⟩

theorem Block.StandsAt.ne_unknown {b : Block} {p : Position} (h : b.StandsAt p)
    (hb : b.Everywhere Stmt.OfSource) : p ≠ .unknown := by
  obtain ⟨path, inside, hinside, s, hs, hp⟩ := h
  obtain ⟨source, hstands⟩ := (hb path inside hinside s hs).stands
  exact (hstands p hp).ne_unknown

/-- The machine with so many levels of calls that has only such bodies of functions and templates:
it stops where another one is to be run. -/
def machineFor (bodies : Block → Bool) (host : Host) : Nat → Machine
  | 0 => ⟨fun _ => outOfFuel, fun _ _ _ => outOfFuel⟩
  | n + 1 => {
      run := fun b => if bodies b then runBlock (machineFor bodies host n) b else outOfFuel
      native := fun f args p => host f (machineFor bodies host n) args p }

variable {bodies other : Block → Bool} {host : Host}

/-- The machine with all bodies is the machine. -/
theorem machineFor_all (host : Host) (n : Nat) :
    machineFor (fun _ => true) host n = machine host n := by
  induction n with
  | zero => rfl
  | succ n ih => simp only [machineFor, machine, ih, if_true]

/-- With all bodies the same is done, by induction on the levels of calls. -/
theorem Host.Steady.covers_machineFor (h : host.Steady) (bodies : Block → Bool) (n : Nat) :
    (machine host n).Covers (machineFor bodies host n) := by
  induction n with
  | zero => exact ⟨fun _ => .refl _, fun _ _ _ => .refl _⟩
  | succ n ih =>
    refine ⟨fun b => ?_, fun f args p => h f _ _ ih args p⟩
    simp only [machine, machineFor]
    split
    · exact Congruence.covering.block ih.run ih.native b
    · exact fun _ hend => absurd rfl hend

/-- Bodies that stand at certain places blame no others. -/
theorem blames_machineFor {A : Position → Prop}
    (h : ∀ b, bodies b = true → b.Everywhere (Stmt.Stands A)) (n : Nat) :
    (machineFor bodies .none n).Blames A := by
  induction n with
  | zero => exact ⟨fun _ => .outOfFuel, fun _ _ _ _ => .outOfFuel⟩
  | succ n ih =>
    refine ⟨fun b => ?_, fun _ _ _ _ => .quiet (.fail _) (.of_ne fun _ _ _ => nofun)⟩
    simp only [machineFor]
    split
    · next hb => exact ih.block b (h b hb)
    · exact .outOfFuel

/-- Bodies of other statements make no difference where there are none. -/
theorem accord_machineFor {S : Stmt → Prop} (h : ∀ b : Block, b.Everywhere S → bodies b = other b)
    (n : Nat) : (machineFor bodies .none n).Accord S (machineFor other .none n) := by
  induction n with
  | zero => exact ⟨fun _ => .outOfFuel, fun _ _ _ _ => .outOfFuel⟩
  | succ n ih =>
    refine ⟨fun {b} hb => ?_, fun _ _ _ _ => .fail _⟩
    simp only [machineFor, h b hb]
    exact .ite (ih.block b hb) .outOfFuel

/-! ## Renders -/

variable {S : Stmt → Prop} {c : Context} {t : Template} {model : Value} {n : Nat}

/-- A render brings no other statements into the context. -/
theorem Context.MadeOf.render (hc : c.MadeOf S) (ht : t.MadeOf S) (hmodel : model.MadeOf S)
    (n : Nat) : (t.render (machine .none n) model c).2.MadeOf S := by
  rw [← machineFor_all]
  exact ((accord_machineFor (S := S) (fun _ _ => rfl) n).render ht hmodel).leaves c hc

/-- Where a render fails a statement stands, in the template or in one of the bodies that it runs,
and it is one of those that the context and the template are made of. -/
theorem Context.MadeOf.exists_standsAt (hc : c.MadeOf S) (ht : t.MadeOf S)
    (hmodel : model.MadeOf S) {p : Position} {fault : ScriptFault}
    (h : (t.render (machine .none n) model c).1 = .error (.script p fault))
    (hend : (t.render (machineFor bodies .none n) model c).1 ≠ .outOfFuel) :
    ∃ b, (b = t.body ∨ bodies b = true) ∧ b.Everywhere S ∧ b.StandsAt p := by
  classical
  -- only bodies that are made of such statements are ever asked for
  let kept : Block → Bool := fun b => bodies b && decide (b.Everywhere S)
  have hkept : ∀ b : Block, b.Everywhere S → bodies b = kept b := fun b hb => by
    simp [kept, hb]
  have hm := Host.none_steady.covers_machineFor bodies n
  have hsame := ((accord_machineFor hkept n).render ht hmodel).same c hc
  rw [Congruence.covering.render hm.run hm.native t model c hend, hsame] at h
  refine Classical.byContradiction fun hnone => ?_
  have hstands : ∀ b, (b = t.body ∨ bodies b = true) → b.Everywhere S →
      b.Everywhere (Stmt.Stands (· ≠ p)) := fun b hb hS =>
    Block.everywhere_of_not_standsAt fun hp => hnone ⟨b, hb, hS, hp⟩
  have hblames : (machineFor kept .none n).Blames (· ≠ p) := by
    refine blames_machineFor (fun b hb => ?_) n
    obtain ⟨hb, hS⟩ := Bool.and_eq_true_iff.1 hb
    exact hstands b (.inr hb) (of_decide_eq_true hS)
  exact (hblames.render (hstands t.body (.inl rfl) ht) model).names c nofun p fault h rfl

/-- What the template and the context are made of was read from sources, and so the place at which
a render fails is known. -/
theorem Context.MadeOf.blames_known (hc : c.MadeOf Stmt.OfSource) (ht : t.MadeOf Stmt.OfSource)
    (hmodel : model.MadeOf Stmt.OfSource) {p : Position} {fault : ScriptFault}
    (h : (t.render (machine .none n) model c).1 = .error (.script p fault)) : p ≠ .unknown := by
  have hend : (t.render (machineFor (fun _ => true) .none n) model c).1 ≠ .outOfFuel := by
    rw [machineFor_all, h]
    exact nofun
  obtain ⟨b, -, hb, hp⟩ := hc.exists_standsAt ht hmodel h hend
  exact hp.ne_unknown hb

/-- A render by path fails at the unknown place only if the template cannot be loaded. -/
theorem Context.MadeOf.renderPath_blames_known (hc : c.MadeOf Stmt.OfSource)
    (hmodel : model.MadeOf Stmt.OfSource) {path : String} {p : Position} {fault : ScriptFault}
    (h : (renderPath (machine .none n) path model c).1 = .error (.script p fault)) :
    (loadTemplate path .unknown c).1 = .error (.script p fault) ∨ p ≠ .unknown := by
  have hload := stays_loadTemplate (S := Stmt.OfSource) path .unknown
  have hd := hload.leaves c hc
  have ht := hload.gives c hc
  unfold renderPath at h
  rcases hl : loadTemplate path .unknown c with ⟨t | e | _, d⟩ <;> rw [hl] at hd ht
  · rw [bind_of_ok hl] at h
    exact .inr (hd.blames_known (ht t rfl) hmodel h)
  · rw [bind_of_error hl] at h
    cases h
    exact .inl rfl
  · rw [bind_of_outOfFuel hl] at h
    cases h

/-- A render that fails because of the script points to a place in the template, in one that it
includes or in a function that it calls: whichever bodies a machine has to have for the render to
come to an end, the place is one of a statement in the template or in one of these bodies, of a name
that it binds or of a node of its expressions. All of them were read from sources, and the place is
not the unknown one. -/
theorem errors_point_into_bodies_run {p : Position} {fault : ScriptFault} (ht : t.OfSource)
    (hc : c.MadeOf Stmt.OfSource) (hmodel : model.MadeOf Stmt.OfSource) (n : Nat)
    (h : (t.render (machine .none n) model c).1 = .error (.script p fault)) :
    p ≠ .unknown ∧ ∀ bodies : Block → Bool,
      (t.render (machineFor bodies .none n) model c).1 ≠ .outOfFuel →
        ∃ b, (b = t.body ∨ bodies b = true) ∧ b.Everywhere Stmt.OfSource ∧ b.StandsAt p :=
  ⟨hc.blames_known ht.madeOf hmodel h, fun _ hend => hc.exists_standsAt ht.madeOf hmodel h hend⟩

/-- A template that includes another one and calls a function of it, which divides. -/
def dividing : Shelf :=
  (Shelf.empty.insert "main" "\x7b% include 'lib' %\x7d\x7b\x7b f(0) \x7d\x7d").insert "lib"
    "\n\x7b% function f(x) %\x7d\x7b\x7b 1 / x \x7d\x7d\x7b% endfunction %\x7d"

/-- The place that is to blame for a failure. -/
def Outcome.blamed? {α : Type} : Outcome α → Option Position
  | .error e => e.position?
  | _ => none

theorem Outcome.blamed?_eq_some_iff {α : Type} {o : Outcome α} {p : Position} :
    o.blamed? = some p ↔ ∃ fault, o = .error (.script p fault) := by
  rcases o with a | (_ | _ | _) | _ <;> simp [blamed?, EvalError.position?]

/-- The division is blamed, on the second line of the template that is included. -/
theorem dividing_points_into_the_function : ∃ t fault, dividing.loader.load "main" .plain = .ok t ∧
    (t.render (machine .none 3) .null dividing.context).1 = .error (.script ⟨2, 25⟩ fault) ∧
    ∀ bodies : Block → Bool,
      (t.render (machineFor bodies .none 3) .null dividing.context).1 ≠ .outOfFuel →
        ∃ b, (b = t.body ∨ bodies b = true) ∧ b.Everywhere Stmt.OfSource ∧
          b.StandsAt ⟨2, 25⟩ := by
  have hrun : (match dividing.loader.load "main" .plain with
      | .ok t => (t.render (machine .none 3) .null dividing.context).1.blamed?
      | .error _ => none) = some ⟨2, 25⟩ := by
    decide +kernel
  cases hload : dividing.loader.load "main" .plain with
  | error e =>
    rw [hload] at hrun
    cases hrun
  | ok t =>
    rw [hload] at hrun
    dsimp only at hrun
    obtain ⟨fault, hfault⟩ := Outcome.blamed?_eq_some_iff.1 hrun
    obtain ⟨source, hparse⟩ := dividing.reads_loader "main" .plain t hload
    have hc : dividing.context.MadeOf Stmt.OfSource := Settings.madeOf_newContext
      (by rintro _ ⟨⟩; exact dividing.reads_loader.madeOf) Shapes.keep_empty
    have ht : t.OfSource := ⟨"main", source, .plain, t, hparse, .inl rfl⟩
    have hmodel : Value.null.MadeOf Stmt.OfSource := trivial
    exact ⟨t, fault, rfl, hfault, (errors_point_into_bodies_run ht hc hmodel 3 hfault).2⟩

end TemplateEngine
