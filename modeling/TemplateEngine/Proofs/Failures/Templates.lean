import TemplateEngine.Proofs.Failures.Expressions
import TemplateEngine.Proofs.Includes.Homes

/-!
# Failures of templates

Templates cannot use the engine wrongly: the models and buffers that they open can be opened and are
closed again, and rounds run in loops only. One thing is missed. A shelf can hold a source at its
root, under no name, and a template without a name can be loaded but not included. Every other
failure of a render is one of the script, and it has a place, or one of an operation of the host
(`failures_are_runtime`, `nameless_include_is_misuse`).
-/

namespace TemplateEngine

open TemplateEngine.Action Action.Fair

variable {s : Surroundings} {l : Bool}

/-! ## Loading -/

/-- A template that is read from a shelf has the name that it is read under. -/
theorem Shelf.name_of_load {x : Shelf} {name : String} {options : ParserOptions} {t : Template}
    (h : x.load name options = .ok t) : t.name = name := by
  unfold Shelf.load Template.parse at h
  split at h
  · cases h
  · next source _ =>
    cases hblock : parseBlock source options with
    | error e =>
      rw [hblock] at h
      cases h
    | ok block =>
      rw [hblock] at h
      cases h
      rfl

/-- Loading fails because of the script, or it gives a template, which is kept under its name from
then on. The template has a name unless a source has none. -/
theorem Context.Over.loadTemplate_cases {c : Context} (hc : c.Over s l) (path : String)
    (p : Position) :
    (∃ fault, loadTemplate path p c = (.error (.script p fault), c)) ∨
      ∃ t store templates,
        loadTemplate path p c = (.ok t, { c with store := store, templates := templates }) ∧
        (t.name = "" → s.HasNameless) ∧
        (templates = c.templates ∨ templates = c.templates.insert t.name t) := by
  generalize hr : loadTemplate path p c = r
  unfold loadTemplate at hr
  rw [bind_of_ok (rfl : view id c = (.ok c, c)), id] at hr
  have hloader := hc.loader
  cases hs : s.shelf with
  | none =>
    rw [hs, Option.map_none] at hloader
    rw [hloader] at hr
    exact .inl ⟨_, hr.symm⟩
  | some x =>
    rw [hs, Option.map_some] at hloader
    rw [hloader] at hr
    cases hname : x.loader.resolve path c.source? with
    | error e =>
      simp only [hname] at hr
      exact .inl ⟨_, hr.symm⟩
    | ok name =>
      have hnameless : name = "" → s.HasNameless := by
        rintro rfl
        exact ⟨x, hs, (Shelf.resolve_eq_ok_iff.1 hname).1⟩
      simp only [hname] at hr
      cases hcached : c.templates.get? name with
      | some t =>
        obtain rfl := hc.named name t hcached
        rw [hcached] at hr
        exact .inr ⟨t, c.store, c.templates, hr.symm, hnameless, .inl rfl⟩
      | none =>
        rw [hcached] at hr
        cases hload : x.loader.load name c.options with
        | error e =>
          simp only [hload] at hr
          exact .inl ⟨_, hr.symm⟩
        | ok t =>
          obtain rfl := Shelf.name_of_load hload
          simp only [hload] at hr
          exact .inr ⟨(t.identify c.store.nextIdentity).1, _, _, hr.symm, hnameless, .inr rfl⟩

theorem named_insert {templates : Dictionary Template}
    (h : ∀ name t, templates.get? name = some t → t.name = name) (t : Template) (name : String)
    (u : Template) (hu : (templates.insert t.name t).get? name = some u) : u.name = name := by
  rw [Dictionary.get?_insert] at hu
  split at hu
  · next heq =>
    cases hu
    exact heq
  · exact h name u hu

theorem fair_loadTemplate (path : String) (p : Position) :
    (loadTemplate path p).Fair s l .silent where
  keeps := (quiet_loadTemplate path p).keeps
  stays c hc := by
    obtain ⟨fault, h⟩ | ⟨t, store, templates, h, -, rfl | rfl⟩ := hc.loadTemplate_cases path p <;>
      rw [h]
    · exact hc
    · exact ⟨hc.loader, hc.named, hc.loop⟩
    · exact ⟨hc.loader, named_insert hc.named t, hc.loop⟩
  fails c hc e he := by
    obtain ⟨fault, h⟩ | ⟨t, store, templates, h, -, -⟩ := hc.loadTemplate_cases path p <;>
      rw [h] at he
    · cases he
      exact .inl rfl
    · cases he

theorem Context.Over.nameless_of_load {c : Context} (hc : c.Over s l) {path : String}
    {p : Position} {t : Template} (ht : (loadTemplate path p c).1 = .ok t) :
    t.name = "" → s.HasNameless := by
  obtain ⟨fault, h⟩ | ⟨u, store, templates, h, hname, -⟩ := hc.loadTemplate_cases path p <;>
    rw [h] at ht
  · cases ht
  · cases ht
    exact hname

/-! ## Statements -/

namespace Machine.Fair

variable {m : Machine}

theorem includedModel (h : m.Fair s) (path : String) (model : Option Expr) :
    (TemplateEngine.includedModel m path model).Fair s false .silent := by
  cases model with
  | none => exact .pure _
  | some e =>
    exact .bind (h.evaluate e) fun _ => .ite (.plain (.failAt _ _) (.failAt _ _)) (.pure _)

end Machine.Fair

/-- The model of an include is there. -/
theorem present_of_includedModel {m : Machine} {path : String} {model : Option Expr} {c : Context}
    {o : Option Value} (h : (includedModel m path model c).1 = .ok o) :
    ∀ v ∈ o, v.isAbsent = false := by
  cases model with
  | none =>
    cases h
    exact nofun
  | some e =>
    dsimp only [includedModel] at h
    rcases he : e.evaluate m c with ⟨v | err | _, d⟩
    · rw [bind_of_ok he] at h
      split at h
      · cases h
      · next hpresent =>
        cases h
        rintro _ ⟨⟩
        exact Bool.not_eq_true _ ▸ hpresent
    · rw [bind_of_error he] at h
      cases h
    · rw [bind_of_outOfFuel he] at h
      cases h

namespace Machine.Fair

variable {m : Machine}

theorem runIncluded (h : m.Fair s) {t : Template} (hname : t.name = "" → s.HasNameless)
    {model : Option Value} (hmodel : ∀ v ∈ model, v.isAbsent = false) (p : Position) :
    (TemplateEngine.runIncluded m t model p).Fair s false .writing := by
  refine .first <| Region.fair_holding (Region.closes_function p .writing) <| .first <|
    Region.fair_holding (Region.closes_source hname .writing) ?_
  cases model with
  | none => exact .bind (h.run t.body) fun _ => .up (.pure _)
  | some v =>
    have hglobal := Region.closes_global (s := s) (hmodel v rfl) .writing
    exact .bind (.first (Region.fair_holding hglobal (h.run t.body))) fun _ => .up (.pure _)

/-- What is included has a name unless a source has none, since it was loaded. -/
theorem included (h : m.Fair s) (path : String) (model : Option Expr) (p : Position) :
    Action.Fair s false .writing (do
      let t ← loadTemplate path p
      let v ← TemplateEngine.includedModel m path model
      TemplateEngine.runIncluded m t v p
      pure Flow.normal) := by
  refine bind_over (A := fun t => t.name = "" → s.HasNameless) (fair_loadTemplate path p).up
    (fun c hc t ht => hc.nameless_of_load ht) ?_ fun t hname => ?_
  · exact (quiet_loadTemplate path p).keeps.up.bind fun t =>
      (h.includedModel path model).keeps.up.bind fun v =>
      (Congruence.keeping.runIncluded (n := m) (fun b => (h.run b).keeps) t v p).bind fun _ =>
      (Quiet.pure _).keeps.up
  · exact bind_of (h.includedModel path model).up (fun c o => present_of_includedModel)
      fun o hmodel => .bind (h.runIncluded hname hmodel p) fun _ => .up (.pure _)

theorem writeValue (v : Value) (p : Position) :
    (TemplateEngine.Action.writeValue v p).Fair s l .writing :=
  .ite (.up (.pure _)) <| .bind (.up (.plain (.tryView _ _) (.tryView _ _))) .writeText

mutual

/-- Statements, by induction on the syntax. -/
theorem statement (h : m.Fair s) : ∀ st : Stmt, (st.run m).Fair s false .writing
  | .text t => .bind (.writeText t) fun _ => .up (.pure _)
  | .output e => .bind (h.evaluate e).up fun v => .bind (writeValue v _) fun _ => .up (.pure _)
  | .assign target e => .bind (h.evaluate e).up fun v =>
    .bind (h.assign target v).up fun _ => .up (.pure _)
  | .assignGlobal ref e => .bind (h.evaluate e).up fun v =>
    .bind (.up (.plain (quiet_writeVariable ref v) (plain_writeVariable ref v))) fun _ =>
    .up (.pure _)
  | .choose bs none => .bind (branches h bs) fun
    | some _ => .up (.pure _)
    | none => .up (.pure _)
  | .choose bs (some b) => .bind (branches h bs) fun
    | some _ => .up (.pure _)
    | none => block h b
  | .each ref e body none p => .bind (h.evaluate e).up fun _ =>
    .bind (.up (.plain (.tryView _ _) (.tryView _ _))) fun
    | [] => .up (.pure _)
    | x :: xs => fair_forEach ref.name p (x :: xs) (block h body)
  | .each ref e body (some b) p => .bind (h.evaluate e).up fun _ =>
    .bind (.up (.plain (.tryView _ _) (.tryView _ _))) fun
    | [] => block h b
    | x :: xs => fair_forEach ref.name p (x :: xs) (block h body)
  | .repeatWhile e body p => fair_whileLoop p (h.evaluate e) (block h body)
  | .define _ name _ _ _ =>
    .bind (.up (.plain (quiet_writeVariable name _) (plain_writeVariable name _))) fun _ =>
    .up (.pure _)
  | .leave none _ => .up (.pure _)
  | .leave (some e) _ => .bind (h.evaluate e).up fun _ => .up (.pure _)
  | .stop _ => .up (.pure _)
  | .next _ => .up (.pure _)
  | .capture target body => .up <|
    .bind (Region.fair_holding Region.closes_output (block h body)) fun (_, text) =>
    .bind (h.assign target text) fun _ => .pure _
  | .include path model p => .bind (h.evaluate path).up fun v =>
    .bind (.up (.plain (quiet_toText v _) (plain_toText v _))) fun name => h.included name model p

theorem block (h : m.Fair s) : ∀ b : List Stmt, (runBlock m b).Fair s false .writing
  | [] => .up (.pure _)
  | st :: rest => .bind (statement h st) fun
    | .normal => block h rest
    | .stop => .up (.pure _)
    | .next => .up (.pure _)
    | .leave _ => .up (.pure _)

theorem branches (h : m.Fair s) :
    ∀ bs : List (Expr × List Stmt), (runBranches m bs).Fair s false .writing
  | [] => .up (.pure _)
  | (e, body) :: rest => .bind (h.evaluate e).up fun _ =>
    .bind (.up (.plain (.view _) (.view _))) fun _ =>
    .ite (.bind (block h body) fun _ => .up (.pure _)) (branches h rest)

end

end Machine.Fair

/-! ## Templates -/

/-- The operations of the host leave the context standing and its templates under their names, and
fail as they are expected to. -/
def Host.Fair (s : Surroundings) (host : Host) : Prop :=
  ∀ (f : Native) (m : Machine), m.Fair s → ∀ (args : List Value) (p : Position),
    (host f m args p).Fair s false .silent

/-- Whatever runs is fair, by induction on the levels of calls. -/
theorem Host.Fair.machine {host : Host} (h : host.Fair s) (n : Nat) :
    (machine host n).Fair s := by
  induction n with
  | zero => exact ⟨fun _ => .outOfFuel, fun _ _ _ => .outOfFuel⟩
  | succ n ih => exact ⟨ih.block, fun f args p => h f _ ih args p⟩

/-- A model that is there can be opened, and a namespace is there. -/
theorem fair_rendering {name : String} (hname : name ≠ "") {model : Value}
    (hmodel : model.isAbsent = false) {body : Action Flow} (h : body.Fair s false .writing) :
    (rendering name body model).Fair s false .silent := by
  refine .first <| Region.fair_holding (Region.closes_global hmodel .silent) <|
    .onStore_bind fun st => ?_
  have hnames : (st.newNamespace .empty).1.isAbsent = false := rfl
  exact .first <| Region.fair_holding (Region.closes_global hnames .silent) <| .first <|
    Region.fair_holding (Region.closes_source (fun h => absurd h hname) .silent) <|
    .bind (Region.fair_holding Region.closes_output h) fun _ => .pure _

theorem Machine.Fair.render {m : Machine} (h : m.Fair s) (t : Template) (model : Value) :
    (t.render m model).Fair s false .silent := by
  have hname : (if t.name.isEmpty then "<inline>" else t.name) ≠ "" := by
    split
    · decide
    · next hempty => exact fun h => hempty (String.isEmpty_iff.2 h)
  rw [Template.render_eq]
  dsimp only
  split
  · exact .onStore_bind fun st => fair_rendering hname rfl (h.block t.body)
  · next hmodel =>
    exact fair_rendering hname (Bool.eq_false_iff.2 hmodel) (h.block t.body)

theorem Machine.Fair.renderPath {m : Machine} (h : m.Fair s) (path : String) (model : Value) :
    (TemplateEngine.renderPath m path model).Fair s false .silent :=
  .bind (fair_loadTemplate path .unknown) fun t => h.render t model

/-! ## Contexts -/

theorem Settings.over_newContext {settings : Settings}
    (h : settings.loader = s.shelf.map Shelf.loader) : settings.newContext.Over s false :=
  ⟨h, fun _ _ => nofun, nofun⟩

theorem Context.Over.cacheTemplate {c : Context} (hc : c.Over s l) (t : Template) :
    (cacheTemplate t c).2.Over s l :=
  ⟨hc.loader, named_insert hc.named t, hc.loop⟩

/-- The host without operations fails if it is asked for one. -/
theorem Host.none_fair
    (h : ∀ f : Native, s.own (.usage (.host s!"there is no operation {f.operation}"))) :
    Host.none.Fair s := by
  refine fun f m _ args p => ⟨fun c => .refl c, fun _ hc => hc, fun c _ e he => ?_⟩
  cases he
  exact .inr (.inr (h f))

/-- Contexts over a shelf are those that are opened with it, with templates cached and rendered in
them. Whatever is rendered in such a context, under whatever name and with whatever model: if it
fails, then the script is to blame and the place is known, or the shelf has a source without a name
and a template without a name was included, or an operation of the host failed in its own way. -/
theorem failures_are_runtime {host : Host} (hhost : host.Fair s) (n : Nat) :
    let m := machine host n
    (∀ settings : Settings, settings.loader = s.shelf.map Shelf.loader →
      settings.newContext.Over s false) ∧
    (∀ c : Context, c.Over s false → ∀ t : Template, (cacheTemplate t c).2.Over s false) ∧
    ∀ c : Context, c.Over s false → ∀ x : Action String,
      ((∃ t model, x = Template.render m t model) ∨ ∃ path model, x = renderPath m path model) →
      (x c).2.Over s false ∧ ∀ e, (x c).1 = .error e →
        (e.isRuntime = true ∧ ∃ p, e.position? = some p) ∨
        (e = .usage .sourceNameMissing ∧ s.HasNameless) ∨ s.own e := by
  intro m
  have hm : m.Fair s := hhost.machine n
  refine ⟨fun _ => Settings.over_newContext, fun c hc => hc.cacheTemplate, fun c hc x hx => ?_⟩
  have hfair : x.Fair s false .silent := by
    obtain ⟨t, model, rfl⟩ | ⟨path, model, rfl⟩ := hx
    · exact hm.render t model
    · exact hm.renderPath path model
  refine ⟨hfair.stays c hc, fun e he => ?_⟩
  exact (hfair.fails c hc e he).imp_left fun hruntime => ⟨hruntime, e.isRuntime_iff.1 hruntime⟩

/-! ## An instance and the exception -/

theorem Host.applying_fair : Host.applying.Fair s := by
  intro f m hm args p
  unfold Host.applying
  split
  · exact hm.call _ _ p
  · exact .pure _

/-- No source of `sharedParts` is without a name, so that only scripts are to blame there. -/
theorem sharedParts_failures_are_runtime :
    (∃ e, (renderPath (machine .applying 3) "nowhere" .null sharedParts.context).1 = .error e) ∧
      ∀ e, (renderPath (machine .applying 3) "nowhere" .null sharedParts.context).1 = .error e →
        e.isRuntime = true ∧ ∃ p, e.position? = some p := by
  have hs : ¬ Surroundings.HasNameless ⟨some sharedParts, fun _ => False⟩ := by
    rintro ⟨_, ⟨⟩, h⟩
    exact absurd h (by decide +kernel)
  obtain ⟨hnew, -, hfails⟩ :=
    failures_are_runtime (s := ⟨some sharedParts, fun _ => False⟩) Host.applying_fair 3
  refine ⟨⟨_, rfl⟩, fun e he => ?_⟩
  obtain ⟨-, h⟩ := hfails sharedParts.context (hnew _ rfl) _ (.inr ⟨"nowhere", .null, rfl⟩)
  obtain hruntime | ⟨-, hnameless⟩ | hown := h e he
  · exact hruntime
  · exact absurd hnameless hs
  · exact hown.elim

/-- A template without a name can be loaded, but where it is included, it cannot be put on the stack
of sources. -/
theorem nameless_include_is_misuse (m : Machine) {t : Template} (ht : t.name = "")
    (model : Option Value) (p : Position) {c : Context} (hdepth : c.scopes.depth < c.limits.depth) :
    (runIncluded m t model p c).1 = .error (.usage .sourceNameMissing) := by
  have hpush (d : Context) : pushSource t.name d = (.error (.usage .sourceNameMissing), d) := by
    rw [ht]
    rfl
  simp only [runIncluded, Region.around, Region.holding, between, bind_apply, enterFunction,
    if_pos hdepth, hpush]

/-- The source without a name is found, and yet it cannot be included. -/
example :
    let s : Shelf := (Shelf.empty.insert "" "x").insert "main" "\x7b% include '' %\x7d"
    (renderPath (machine .none 3) "" .null s.context).1.value? = some "x" ∧
      (match (renderPath (machine .none 3) "main" .null s.context).1 with
        | .error e => e.message
        | _ => "") = "invalid usage: push_source_file requires a name" := by
  decide +kernel

end TemplateEngine
