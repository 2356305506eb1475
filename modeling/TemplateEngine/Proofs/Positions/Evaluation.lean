import TemplateEngine.Proofs.Evaluation.Congruence
import TemplateEngine.Proofs.Positions.Blame
import TemplateEngine.Proofs.Positions.Nodes

/-!
# What evaluation blames

An expression that stands at certain places blames no other places, as long as what it calls does
not (`Machine.Blames.reach`): an operation is blamed where its node stands, a function or an
operation of the language where it was called, and a key where its own expression stands. The same
holds of a block of which every statement stands there (`Machine.Blames.block`). The bodies of
functions and of templates are run by the machine, and so the rest is an induction on the levels of
calls.
-/

namespace TemplateEngine

open TemplateEngine.Action TemplateEngine.Action.Blames TemplateEngine.Expr

variable {A : Position → Prop}

/-- Whatever the machine is asked for blames the script at such places only, if it is asked from
one. -/
structure Machine.Blames (A : Position → Prop) (m : Machine) : Prop where
  run (b : Block) : (m.run b).Blames A false .writing
  native (f : Native) (args : List Value) {p : Position} : A p →
    (m.native f args p).Blames A false .silent

namespace Machine.Blames

variable {m : Machine}

/-! ## Calls -/

theorem bindParams : ∀ (names : List String) (args : List Value),
    (Machine.bindParams names args).Blames A false .silent
  | [], _ => .pure _
  | _ :: rest, args =>
    .bind (.quiet (quiet_setLocalFrame _) (.of_ne fun _ _ _ => nofun)) fun _ =>
    bindParams rest args.tail

theorem callDefined (h : m.Blames A) (d : FunctionDef) (args : List Value) {p : Position}
    (hp : A p) : (m.callDefined d args p).Blames A false .silent := by
  refine .ite (.failAt hp _) <| .first <| Region.blames_function hp <|
    .bind (bindParams d.params args) fun _ =>
    .bind (Region.blames_output (h.run d.body)) fun r => ?_
  rcases r with ⟨_ | _ | _ | ⟨_ | _⟩, _⟩ <;> exact .pure _

theorem call (h : m.Blames A) (f : Function) (args : List Value) {p : Position} (hp : A p) :
    (m.call f args p).Blames A false .silent := by
  cases f with
  | builtin b => exact .quiet (quiet_builtin b args p) (names_builtin b args hp)
  | native f => exact h.native f args hp
  | defined d => exact h.callDefined d args hp

theorem settle (h : m.Blames A) (outermost : Bool) {p : Position} (hp : A p) (v : Value) :
    (m.settle outermost p v).Blames A false .silent := by
  cases v with
  | function f => exact .bind (.view _) fun _ => .ite (.pure _) (h.call f [] hp)
  | _ => exact .pure _

theorem callValue (h : m.Blames A) (v : Value) (args : List Value) (callee : Expr) {p : Position}
    (hp : A p) : (m.callValue v args callee p).Blames A false .silent := by
  cases v with
  | function f => exact h.call f args hp
  | _ => exact .bind (.view _) fun _ => .failAt hp _

/-! ## Expressions -/

/-- What is found at a place, called if it is a function. -/
theorem found (h : m.Blames A) (outermost : Bool) {p : Position} (hp : A p) {place : Place}
    (hplace : place.position = p) :
    (place.read >>= fun v => m.settle outermost p v).Blames A false .silent :=
  .bind (.quiet (quiet_read place) (names_read (hplace ▸ hp))) fun v => h.settle outermost hp v

/-- What is done at the member of a value. -/
theorem atMember {α : Type} (object : Value) (name : String) (target : Expr) {p : Position}
    (hp : A p) {f : Place → Action α}
    (hf : ∀ place : Place, place.position = p → (f place).Blames A false .silent) :
    (Place.ofMember object name target p >>= f).Blames A false .silent :=
  .bind_of (.quiet (quiet_ofMember object name target p) (names_ofMember object name target hp))
    (fun _ _ => Place.position_of_ofMember) hf

/-- What is done at the item of a value, of which the key stands elsewhere. -/
theorem atKey {α : Type} (object key : Value) {q : Position} (hq : A q) (target : Expr)
    {p : Position} (hp : A p) {f : Place → Action α}
    (hf : ∀ place : Place, place.position = p → (f place).Blames A false .silent) :
    (Place.ofKey object key q target p >>= f).Blames A false .silent :=
  .bind_of (.quiet (quiet_ofKey object key q target p) (names_ofKey object key hq target hp))
    (fun _ _ => Place.position_of_ofKey) hf

mutual

/-- Expressions, by induction on the syntax. -/
theorem reach (h : m.Blames A) : ∀ (e : Expr) (outermost : Bool), e.Stands A →
    (e.reach m outermost).Blames A false .silent
  | .literal v _, o, he => h.settle o (stands_literal.1 he) (.ofLiteral v)
  | .var ref, o, he =>
    .bind (.quiet (quiet_readVariable ref) (names_readVariable (stands_var.1 he))) fun v =>
    h.settle o (stands_var.1 he) v
  | .member target name _, o, he =>
    have ⟨hp, ht⟩ := stands_member.1 he
    .bind (reach h target false ht) fun object =>
    atMember object name target hp fun _ hplace => h.found o hp hplace
  | .index target key _, o, he =>
    have ⟨hp, ht, hk⟩ := stands_index.1 he
    .bind (reach h target false ht) fun object =>
    .ite (.failAt hp _) <|
    .bind ((reach h key true hk).withSuppression false) fun k =>
    atKey object k hk.position target hp fun _ hplace => h.found o hp hplace
  | .call callee args _, o, he =>
    have ⟨hp, hc, ha⟩ := stands_call.1 he
    .bind ((reach h callee true hc).withSuppression true) fun f =>
    .bind (items h args ha) fun vs =>
    .bind (h.callValue f vs callee hp) fun v => h.settle o hp v
  | .list es _, o, he =>
    have ⟨hp, hes⟩ := stands_list.1 he
    .bind (items h es hes) fun _ => .bind (.quiet (.onStore _) (.onStore _)) fun v =>
    h.settle o hp v
  | .map es _, o, he =>
    have ⟨hp, hes⟩ := stands_map.1 he
    .bind (entries h es hes) fun _ => .bind (.quiet (.onStore _) (.onStore _)) fun v =>
    h.settle o hp v
  | .unary _ operand _, o, he =>
    have ⟨hp, ho⟩ := stands_unary.1 he
    .bind ((reach h operand true ho).withSuppression false) fun _ =>
    .bind (.tryView hp _) fun v => h.settle o hp v
  | .binary .and left right _, o, he =>
    have ⟨hp, hl, hr⟩ := stands_binary.1 he
    .bind ((reach h left true hl).withSuppression false) fun a =>
    .bind (.view _) fun _ =>
    .ite (.bind ((reach h right true hr).withSuppression false) fun v => h.settle o hp v)
      (.bind (.pure a) fun v => h.settle o hp v)
  | .binary .or left right _, o, he =>
    have ⟨hp, hl, hr⟩ := stands_binary.1 he
    .bind ((reach h left true hl).withSuppression false) fun a =>
    .bind (.view _) fun _ =>
    .ite (.bind (.pure a) fun v => h.settle o hp v)
      (.bind ((reach h right true hr).withSuppression false) fun v => h.settle o hp v)
  | .binary .add left right p, o, he | .binary .sub left right p, o, he
  | .binary .mul left right p, o, he | .binary .div left right p, o, he
  | .binary .rem left right p, o, he | .binary .concat left right p, o, he
  | .binary .eq left right p, o, he | .binary .ne left right p, o, he
  | .binary .lt left right p, o, he | .binary .gt left right p, o, he
  | .binary .le left right p, o, he | .binary .ge left right p, o, he =>
    have ⟨hp, hl, hr⟩ := stands_binary.1 he
    .bind ((reach h left true hl).withSuppression false) fun _ =>
    .bind ((reach h right true hr).withSuppression false) fun _ =>
    .bind (.quiet (.tryStore p _) (.tryStore hp _)) fun v => h.settle o hp v

theorem items (h : m.Blames A) : ∀ es : List Expr, (∀ e ∈ es, e.Stands A) →
    (evaluateItems m es).Blames A false .silent
  | [], _ => .pure _
  | e :: rest, hes =>
    have ⟨he, hrest⟩ := List.forall_mem_cons.1 hes
    .bind ((reach h e true he).withSuppression false) fun _ =>
    .bind (items h rest hrest) fun _ => .pure _

theorem entries (h : m.Blames A) : ∀ es : List (String × Expr), (∀ x ∈ es, x.2.Stands A) →
    (evaluateEntries m es).Blames A false .silent
  | [], _ => .pure _
  | (_, e) :: rest, hes =>
    have ⟨he, hrest⟩ := List.forall_mem_cons.1 hes
    .bind ((reach h e true he).withSuppression false) fun _ =>
    .bind (entries h rest hrest) fun _ => .pure _

end

theorem evaluate (h : m.Blames A) {e : Expr} (he : e.Stands A) :
    (e.evaluate m).Blames A false .silent := (h.reach e true he).withSuppression false

theorem assign (h : m.Blames A) {e : Expr} (he : e.Stands A) (v : Value) :
    (e.assign m v).Blames A false .silent := by
  refine Action.Blames.withSuppression false ?_
  cases e with
  | var ref =>
    exact .quiet (quiet_writeVariable ref v) (names_writeVariable (stands_var.1 he) v)
  | member target name p =>
    obtain ⟨hp, ht⟩ := stands_member.1 he
    exact .bind (h.reach target false ht) fun object => atMember object name target hp
      fun place hplace => .quiet (quiet_write v place) (names_write v (hplace ▸ hp))
  | index target key p =>
    obtain ⟨hp, ht, hk⟩ := stands_index.1 he
    exact .bind (h.reach target false ht) fun object => .ite (.failAt hp _) <|
      .bind (h.evaluate hk) fun k => atKey object k hk.position target hp
      fun place hplace => .quiet (quiet_write v place) (names_write v (hplace ▸ hp))
  | _ => exact .failAt he.position _

/-! ## Statements -/

theorem includedModel (h : m.Blames A) (path : String) {model : Option Expr}
    (hmodel : ∀ e ∈ model, e.Stands A) :
    (TemplateEngine.includedModel m path model).Blames A false .silent := by
  cases model with
  | none => exact .pure _
  | some e =>
    have he := hmodel e rfl
    exact .bind (h.evaluate he) fun _ => .ite (.failAt he.position _) (.pure _)

theorem runIncluded (h : m.Blames A) (t : Template) (model : Option Value) {p : Position}
    (hp : A p) : (TemplateEngine.runIncluded m t model p).Blames A false .writing := by
  refine .first <| Region.blames_function hp <| .first <| Region.blames_source t.name ?_
  cases model with
  | none => exact .bind (h.run t.body) fun _ => .up (.pure _)
  | some v =>
    exact .bind (.first (Region.blames_global v (h.run t.body))) fun _ => .up (.pure _)

theorem writeValue (v : Value) {p : Position} (hp : A p) :
    (TemplateEngine.Action.writeValue v p).Blames A false .writing :=
  .ite (.up (.pure _)) <| .bind (.up (.tryView hp _)) .writeText

mutual

/-- Statements, by induction on the syntax. -/
theorem statement (h : m.Blames A) : ∀ s : Stmt, s.Stands A →
    (∀ x ∈ s.blocks, x.2.Everywhere (Stmt.Stands A)) → (s.run m).Blames A false .writing
  | .text t, _, _ => .bind (.writeText t) fun _ => .up (.pure _)
  | .output _, hs, _ =>
    have he := hs.expr (List.mem_singleton.2 rfl)
    .bind (h.evaluate he).up fun v => .bind (writeValue v he.position) fun _ => .up (.pure _)
  | .assign target e, hs, _ =>
    have ht : target.Stands A := hs.expr List.mem_cons_self
    have he : e.Stands A := hs.expr (List.mem_cons_of_mem _ (List.mem_singleton.2 rfl))
    .bind (h.evaluate he).up fun v => .bind (h.assign ht v).up fun _ => .up (.pure _)
  | .assignGlobal ref _, hs, _ =>
    have href := hs.binding (List.mem_singleton.2 rfl)
    .bind (h.evaluate (hs.expr (List.mem_singleton.2 rfl))).up fun v =>
    .bind (.up (.quiet (quiet_writeVariable ref v) (names_writeVariable href v))) fun _ =>
    .up (.pure _)
  | .choose bs none, hs, hb =>
    .bind (branches h bs fun x hx => ⟨hs.expr (List.mem_map_of_mem hx),
      hb (.plain, x.2) (List.mem_append_left _ (List.mem_map_of_mem hx))⟩) fun
    | some _ => .up (.pure _)
    | none => .up (.pure _)
  | .choose bs (some b), hs, hb =>
    .bind (branches h bs fun x hx => ⟨hs.expr (List.mem_map_of_mem hx),
      hb (.plain, x.2) (List.mem_append_left _ (List.mem_map_of_mem hx))⟩) fun
    | some _ => .up (.pure _)
    | none => block h b (hb (.plain, b) (by simp [Stmt.blocks]))
  | .each ref _ body none _, hs, hb =>
    have he := hs.expr (List.mem_singleton.2 rfl)
    .bind (h.evaluate he).up fun _ => .bind (.up (.tryView he.position _)) fun
    | [] => .up (.pure _)
    | x :: xs => blames_forEach ref.name (hs.position rfl) (x :: xs)
      (block h body (hb _ List.mem_cons_self))
  | .each ref _ body (some b) _, hs, hb =>
    have he := hs.expr (List.mem_singleton.2 rfl)
    .bind (h.evaluate he).up fun _ => .bind (.up (.tryView he.position _)) fun
    | [] => block h b (hb (.plain, b) (by simp [Stmt.blocks]))
    | x :: xs => blames_forEach ref.name (hs.position rfl) (x :: xs)
      (block h body (hb _ List.mem_cons_self))
  | .repeatWhile _ body _, hs, hb =>
    blames_whileLoop (hs.position rfl) (h.evaluate (hs.expr (List.mem_singleton.2 rfl)))
      (block h body (hb _ List.mem_cons_self))
  | .define _ name _ _ _, hs, _ =>
    have hname := hs.binding (List.mem_singleton.2 rfl)
    .bind (.up (.quiet (quiet_writeVariable name _) (names_writeVariable hname _))) fun _ =>
    .up (.pure _)
  | .leave none _, _, _ => .up (.pure _)
  | .leave (some _) _, hs, _ =>
    .bind (h.evaluate (hs.expr (List.mem_singleton.2 rfl))).up fun _ => .up (.pure _)
  | .stop _, _, _ => .up (.pure _)
  | .next _, _, _ => .up (.pure _)
  | .capture _ body, hs, hb => .up <|
    .bind (Region.blames_output (block h body (hb _ List.mem_cons_self))) fun r =>
    .bind (h.assign (hs.expr (List.mem_singleton.2 rfl)) r.2) fun _ => .pure _
  | .include path model p, hs, _ =>
    have hpath : path.Stands A := hs.expr List.mem_cons_self
    have hmodel : ∀ e ∈ model, e.Stands A := fun _ he =>
      hs.expr (List.mem_cons_of_mem _ (Option.mem_toList.2 he))
    have hp : A p := hs.position rfl
    .bind (h.evaluate hpath).up fun _ => .bind (.up (.tryView hpath.position _)) fun name =>
    .bind (.up (.quiet (quiet_loadTemplate name p) (names_loadTemplate name hp))) fun t =>
    .bind (h.includedModel name hmodel).up fun v =>
    .bind (h.runIncluded t v hp) fun _ => .up (.pure _)

theorem block (h : m.Blames A) : ∀ b : List Stmt, Block.Everywhere (Stmt.Stands A) b →
    (runBlock m b).Blames A false .writing
  | [], _ => .up (.pure _)
  | s :: rest, hb =>
    have ⟨⟨hs, hblocks⟩, hrest⟩ := Block.everywhere_cons.1 hb
    .bind (statement h s hs hblocks) fun
    | .normal => block h rest hrest
    | .stop => .up (.pure _)
    | .next => .up (.pure _)
    | .leave _ => .up (.pure _)

theorem branches (h : m.Blames A) : ∀ bs : List (Expr × List Stmt),
    (∀ x ∈ bs, x.1.Stands A ∧ Block.Everywhere (Stmt.Stands A) x.2) →
      (runBranches m bs).Blames A false .writing
  | [], _ => .up (.pure _)
  | (_, body) :: rest, hbs =>
    have ⟨⟨he, hbody⟩, hrest⟩ := List.forall_mem_cons.1 hbs
    .bind (h.evaluate he).up fun _ => .bind (.up (.view _)) fun _ =>
    .ite (.bind (block h body hbody) fun _ => .up (.pure _)) (branches h rest hrest)

end

/-! ## Renders -/

theorem rendering (name : String) {body : Action Flow} (h : body.Blames A false .writing)
    (model : Value) : (TemplateEngine.rendering name body model).Blames A false .silent :=
  .first <| Region.blames_global model <| .bind (.quiet (.onStore _) (.onStore _)) fun names =>
    .first <| Region.blames_global names <| .first <| Region.blames_source name <|
    .bind (Region.blames_output h) fun _ => .pure _

theorem render (h : m.Blames A) {t : Template} (ht : t.body.Everywhere (Stmt.Stands A))
    (model : Value) : (t.render m model).Blames A false .silent := by
  have hbody := h.block t.body ht
  rw [Template.render_eq]
  dsimp only
  split
  · exact .bind (.quiet (.onStore _) (.onStore _)) fun v => rendering _ hbody v
  · exact rendering _ hbody model

end Machine.Blames

end TemplateEngine
