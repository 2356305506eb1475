import TemplateEngine.Proofs.Evaluation.Balance
import TemplateEngine.Proofs.Evaluation.Composition

/-!
# Trails

A trail of an action is the list of what is done on the way, deed by deed: done in turn, the deeds
lead to the context in which the action ends (`Trail.replays`), and every context on the way is
reached by a part of the list. Opening and closing a scope are deeds, and so are writing to a
variable or to a member, locking a name, and the work that lets everything last. Every run has a
trail (`Composition.trails`), however it ends. If the operations of the host close the loops that
they open, then loops that begin on a trail also end on it, and rounds over items begin only in
loops over items (`Trail.nests`).
-/

namespace TemplateEngine

open TemplateEngine.Action

/-! ## Deeds -/

/-- Which loop has begun. -/
inductive LoopKind
  | each
  | repeatWhile
  /-- A loop of the host, which takes over no bindings. -/
  | bare
deriving DecidableEq

/-- What is done to a context at once. -/
inductive Deed
  /-- Something that lets everything last. -/
  | work (x : Action Unit) (lasting : x.Lasting)
  | write (ref : VarRef) (v : Value)
  | put (place : Place) (v : Value)
  | lock (ref : VarRef) (readOnly : Bool)
  | openModel (model : Value)
  | closeModel
  | beginCall (p : Position) (names : List String) (args : List Value)
  | endCall
  | beginLoop (kind : LoopKind) (p : Position)
  | endLoop
  | bindRound (name : String) (length : Nat) (item : Value × Nat)
  /-- The host changes what values of its own refer to. -/
  | change (f : Store → Store)

namespace Deed

/-- Does it. -/
def act : Deed → Action Unit
  | work x _ => x
  | write ref v => writeVariable ref v
  | put place v => place.write v
  | lock ref readOnly => setReadOnly ref readOnly
  | openModel model => pushGlobal model
  | closeModel => do let _ ← popGlobal
  | beginCall p names args => Action.beginCall p names args
  | endCall => exitFunction
  | beginLoop .bare p => enterLoop p
  | beginLoop .each p | beginLoop .repeatWhile p => Action.beginLoop p
  | endLoop => exitLoop
  | bindRound name length item => Machine.bindRound name length item
  | change f => modify fun c => { c with store := f c.store }

/-- The loops that have begun and not ended after a deed, innermost first. There are none if a loop
ends that has not begun, or if a round begins in a loop that is not over items. -/
def nest (begun : List LoopKind) : Deed → Option (List LoopKind)
  | beginLoop kind _ => some (kind :: begun)
  | endLoop =>
    match begun with
    | [] => none
    | _ :: rest => some rest
  | bindRound _ _ _ => if begun.head? = some .each then some begun else none
  | work _ _ | write _ _ | put _ _ | lock _ _ | openModel _ | closeModel | beginCall _ _ _ | endCall
  | change _ => some begun

/-- The deed neither begins nor ends a loop. -/
def LeavesLoops : Deed → Prop
  | beginLoop _ _ | endLoop => False
  | _ => True

theorem LeavesLoops.nest {d : Deed} {begun after : List LoopKind} (h : d.LeavesLoops)
    (hn : d.nest begun = some after) : after = begun := by
  cases d with
  | beginLoop kind p | endLoop => exact h.elim
  | bindRound name length item =>
    simp only [Deed.nest] at hn
    split at hn
    · exact (Option.some.inj hn).symm
    · cases hn
  | _ => exact (Option.some.inj hn).symm

/-- The loops around do not matter. -/
theorem nest_append {d : Deed} {begun after : List LoopKind} (outer : List LoopKind)
    (h : d.nest begun = some after) : d.nest (begun ++ outer) = some (after ++ outer) := by
  cases d with
  | endLoop => cases begun <;> cases h; rfl
  | bindRound name length item =>
    simp only [nest] at h ⊢
    split at h
    · next hhead =>
      cases h
      cases begun with
      | nil => cases hhead
      | cons kind rest => exact if_pos hhead
    · cases h
  | _ =>
    cases h
    rfl

end Deed

/-- The context after deeds that are done in turn. -/
def Context.after (c : Context) (ds : List Deed) : Context := ds.foldl (fun c d => (d.act c).2) c

/-- The loops that have begun and not ended after deeds. -/
def loopsAfter (begun : List LoopKind) (ds : List Deed) : Option (List LoopKind) :=
  ds.foldlM Deed.nest begun

namespace Context

@[simp] theorem after_nil (c : Context) : c.after [] = c := rfl

@[simp] theorem after_cons (c : Context) (d : Deed) (ds : List Deed) :
    c.after (d :: ds) = Context.after (d.act c).2 ds := rfl

@[simp] theorem after_append (c : Context) (ds es : List Deed) :
    c.after (ds ++ es) = (c.after ds).after es := List.foldl_append

end Context

section

variable {begun after : List LoopKind} {ds es : List Deed}

theorem loopsAfter_cons (begun : List LoopKind) (d : Deed) (ds : List Deed) :
    loopsAfter begun (d :: ds) = (d.nest begun).bind fun after => loopsAfter after ds := by
  simp only [loopsAfter, List.foldlM_cons]
  rfl

theorem loopsAfter_append (begun : List LoopKind) (ds es : List Deed) :
    loopsAfter begun (ds ++ es) = (loopsAfter begun ds).bind fun after => loopsAfter after es := by
  simp only [loopsAfter, List.foldlM_append]
  rfl

theorem loopsAfter_outer (outer : List LoopKind) (h : loopsAfter begun ds = some after) :
    loopsAfter (begun ++ outer) ds = some (after ++ outer) := by
  induction ds generalizing begun with
  | nil =>
    cases h
    rfl
  | cons d rest ih =>
    rw [loopsAfter_cons, Option.bind_eq_some_iff] at h
    obtain ⟨next, hd, hrest⟩ := h
    rw [loopsAfter_cons, Deed.nest_append outer hd]
    exact ih hrest

/-- At every moment of what is well nested some loops have begun. -/
theorem exists_loopsAfter_take (h : loopsAfter begun ds = some after) (j : Nat) :
    ∃ still, loopsAfter begun (ds.take j) = some still := by
  rw [← List.take_append_drop j ds, loopsAfter_append, Option.bind_eq_some_iff] at h
  obtain ⟨still, hstill, -⟩ := h
  exact ⟨still, hstill⟩

/-- What closes its loops goes on with the loops that were there. -/
theorem loopsAfter_append_of_closed (hd : loopsAfter begun ds = some begun)
    (he : loopsAfter begun es = some begun) : loopsAfter begun (ds ++ es) = some begun := by
  rw [loopsAfter_append, hd]
  exact he

end

/-! ## Trails -/

/-- What an action does deed by deed, inside of these loops. -/
structure Trail (closed : Prop) (begun : List LoopKind) {α : Type} (x : Action α) where
  log : Context → List Deed
  replays (c : Context) : (x c).2 = c.after (log c)
  nests : closed → ∀ c, loopsAfter begun (log c) = some begun

namespace Trail

variable {α β : Type} {closed : Prop} {begun : List LoopKind} {x : Action α}

/-- Nothing is done. -/
def idle (h : ∀ c, (x c).2 = c) : Trail closed begun x := ⟨fun _ => [], h, fun _ _ => rfl⟩

protected def pure (a : α) : Trail closed begun (pure a) := idle fun _ => rfl

/-- The action does one deed, and gives something. -/
def deed (d : Deed) (h : ∀ c, (x c).2 = (d.act c).2) (hnest : d.nest begun = some begun) :
    Trail closed begun x where
  log _ := [d]
  replays := h
  nests _ _ := by
    rw [loopsAfter_cons, hnest]
    rfl

theorem snd_bind_pure (x : Action α) (g : α → β) (c : Context) :
    ((x >>= fun a => pure (g a)) c).2 = (x c).2 := by
  rcases h : x c with ⟨a | e | _, d⟩
  · rw [bind_of_ok h]
    rfl
  · rw [bind_of_error h]
  · rw [bind_of_outOfFuel h]

/-- The action is work that lets everything last. -/
def lasting (h : x.Lasting) : Trail closed begun x :=
  deed (.work (x >>= fun _ => pure ()) (h.bind fun _ => .pure ()))
    (fun c => (snd_bind_pure x (fun _ => ()) c).symm) rfl

/-- The trail of an action goes on with the trail of what it goes on with. -/
def bind {f : α → Action β} (h : Trail closed begun x) (hf : ∀ a, Trail closed begun (f a)) :
    Trail closed begun (x >>= f) where
  log c := h.log c ++
    match x c with
    | (.ok a, d) => (hf a).log d
    | (.error _, _) | (.outOfFuel, _) => []
  replays c := by
    have hc := h.replays c
    rcases hx : x c with ⟨a | e | _, d⟩ <;> rw [hx] at hc
    · rw [bind_of_ok hx, (hf a).replays, Context.after_append, ← hc]
    · rw [bind_of_error hx, List.append_nil]
      exact hc
    · rw [bind_of_outOfFuel hx, List.append_nil]
      exact hc
  nests hclosed c := by
    refine loopsAfter_append_of_closed (h.nests hclosed c) ?_
    rcases x c with ⟨a | e | _, d⟩
    · exact (hf a).nests hclosed d
    · rfl
    · rfl

/-- What is the same action has the same trail. -/
def congr {y : Action α} (hxy : y = x) (h : Trail closed begun x) : Trail closed begun y :=
  ⟨h.log, hxy ▸ h.replays, h.nests⟩

/-- A trail that leaves no loop open may be followed inside of other loops. -/
def inside (h : Trail closed [] x) (begun : List LoopKind) : Trail closed begun x where
  log := h.log
  replays := h.replays
  nests hclosed c := loopsAfter_outer begun (h.nests hclosed c)

/-- Says whether the outermost function is given instead of called. -/
def setSuppressed (b : Bool) : Deed :=
  .work (modify fun c => { c with suppressed := b }) fun _ => .same rfl rfl

def suppress (b : Bool) (h : Trail closed begun x) : Trail closed begun (withSuppression b x) where
  log c := setSuppressed b :: (h.log { c with suppressed := b } ++ [setSuppressed c.suppressed])
  replays c := by
    rw [Context.after_cons, Context.after_append]
    exact congrArg (fun d : Context => { d with suppressed := c.suppressed })
      (h.replays { c with suppressed := b })
  nests hclosed c :=
    loopsAfter_append_of_closed (h.nests hclosed { c with suppressed := b }) rfl

/-- What is opened is closed again. -/
def holding {r : Region} {opening : Action Unit} (ho : Trail closed begun opening)
    (hc : Trail closed begun r.close) (h : Trail closed begun x) :
    Trail closed begun (r.holding opening x) where
  log c := ho.log c ++
    match opening c with
    | (.ok _, d) => h.log d ++ hc.log (x d).2
    | (.error _, _) | (.outOfFuel, _) => []
  replays c := by
    have hopen := ho.replays c
    rcases hc' : opening c with ⟨u | e | _, d⟩ <;> rw [hc'] at hopen
    · change d = _ at hopen
      rw [Region.holding_snd_of_ok hc', hc.replays, Context.after_append, Context.after_append,
        ← hopen, ← h.replays]
    · rw [Region.holding_snd_of_not_ok (by simp [hc']), hc', List.append_nil]
      exact hopen
    · rw [Region.holding_snd_of_not_ok (by simp [hc']), hc', List.append_nil]
      exact hopen
  nests hclosed c := by
    refine loopsAfter_append_of_closed (ho.nests hclosed c) ?_
    rcases opening c with ⟨u | e | _, d⟩
    · exact loopsAfter_append_of_closed (h.nests hclosed d) (hc.nests hclosed _)
    · rfl
    · rfl

/-! ### Loops -/

theorem act_beginLoop {kind : LoopKind} (hkind : kind ≠ .bare) (p : Position) :
    (Deed.beginLoop kind p).act = beginLoop p := by
  cases kind with
  | bare => exact absurd rfl hkind
  | each | repeatWhile => rfl

/-- A loop is begun and ended, whatever is done in it. -/
def loop (kind : LoopKind) (hkind : kind ≠ .bare) (p : Position)
    (h : Trail closed (kind :: begun) x) :
    Trail closed begun (Region.loop.holding (beginLoop p) x) where
  log c := .beginLoop kind p :: (h.log (beginLoop p c).2 ++ [.endLoop])
  replays c := by
    have hopen : beginLoop p c = (.ok (), (beginLoop p c).2) := rfl
    rw [Region.holding_snd_of_ok hopen, Context.after_cons, Context.after_append,
      act_beginLoop hkind, ← h.replays]
    exact snd_bind_pure exitLoop _ _
  nests hclosed c := by
    rw [loopsAfter_cons]
    change loopsAfter (kind :: begun) (h.log (beginLoop p c).2 ++ [.endLoop]) = some begun
    rw [loopsAfter_append, h.nests hclosed]
    rfl

/-- A round is counted, prepared and run. -/
def countedRound {prepare : Action Unit} {body : Action Flow}
    (hprepare : Trail closed begun prepare) (h : Trail closed begun body) :
    Trail closed begun (Machine.countedRound prepare body) :=
  (lasting lasting_stepLoop).bind fun _ => hprepare.bind fun _ => h

/-- Rounds over items, each of which begins with what it binds. -/
def eachRound (name : String) (length : Nat) {body : Action Flow}
    (h : Trail closed (.each :: begun) body) :
    ∀ items : List (Value × Nat), Trail (α := Flow) closed (.each :: begun)
      (Machine.eachRound (Machine.eachBody name length body) items)
  | [] => idle fun _ => rfl
  | item :: rest =>
    congr (Machine.eachRound_cons _ _ _) <| bind
      (congr (Machine.eachBody_eq name length body item) <|
        (countedRound (deed (.bindRound name length item) (fun _ => rfl) rfl) h).bind fun _ =>
          .pure _)
      fun
        | none => eachRound name length h rest
        | some _ => .pure _

def each (name : String) (p : Position) (items : List Value) {body : Action Flow}
    (h : Trail closed [] body) : Trail closed [] (Machine.forEach name p items body) :=
  congr (Machine.inLoop_eq p _) <|
    (loop .each nofun p (eachRound name items.length (h.inside _) items.zipIdx)).bind
      fun _ => .pure _

/-- Rounds with a condition. -/
def repeatRound {round : Action (Option Flow)} (h : Trail closed begun round) :
    ∀ bound : Nat, Trail (α := Flow) closed begun (Machine.repeatRound round bound)
  | 0 => idle fun _ => rfl
  | bound + 1 => congr (Machine.repeatRound_succ round bound) <| h.bind fun
    | none => repeatRound h bound
    | some _ => .pure _

def whileBody {condition : Action Value} {body : Action Flow} (hc : Trail closed begun condition)
    (h : Trail closed begun body) : Trail closed begun (Machine.whileBody condition body) :=
  congr (Machine.whileBody_eq condition body) <| hc.bind fun _ => (idle fun _ => rfl).bind fun
    | true => (countedRound (.pure ()) h).bind fun _ => .pure _
    | false => .pure _

def repeatWhile (p : Position) {condition : Action Value} {body : Action Flow}
    (hc : Trail closed [] condition) (h : Trail closed [] body) :
    Trail closed [] (Machine.whileLoop p condition body) :=
  let round := whileBody (hc.inside [.repeatWhile]) (h.inside [.repeatWhile])
  congr (Machine.inLoop_eq p _) <|
    (loop .repeatWhile nofun p
      { log c := (repeatRound round (c.limits.loops - c.scopes.iterations + 1)).log c
        replays c := (repeatRound round _).replays c
        nests hclosed c := (repeatRound round _).nests hclosed c }).bind fun _ => .pure _

end Trail

/-! ## Every run -/

/-- Every construct has a trail. -/
def Composition.trails (closed : Prop) : Composition fun _ x => Trail closed [] x where
  pure := .pure
  bind := .bind
  congr := .congr
  primitive _ h := .lasting h
  write ref v := .deed (.write ref v) (fun _ => rfl) rfl
  put place v := .deed (.put place v) (fun _ => rfl) rfl
  text t := .lasting (lasting_writeText t)
  suppress b _ h := h.suppress b
  call p names args _ h := .holding (.deed (.beginCall p names args) (fun _ => rfl) rfl)
    (.deed .endCall (fun c => Trail.snd_bind_pure exitFunction _ c) rfl) h
  global model _ h := .holding (.deed (.openModel model) (fun _ => rfl) rfl)
    (.deed .closeModel (fun c => (Trail.snd_bind_pure popGlobal _ c).symm) rfl) h
  source name _ h := .holding (.lasting (lasting_pushSource name))
    (.lasting (lasting_popSource.bind fun _ => .pure _)) h
  output h := .holding (.lasting lasting_pushOutput)
    (.lasting (lasting_popOutput.bind fun _ => .pure _)) h
  each := .each
  repeatWhile := .repeatWhile

/-- What a machine does where evaluation leaves the syntax. -/
structure Machine.Trailed (closed : Prop) (m : Machine) where
  run (b : Block) : Trail closed [] (m.run b)
  native (f : Native) (args : List Value) (p : Position) : Trail closed [] (m.native f args p)

/-- The operations of a host do nothing but deeds, whichever these are. -/
abbrev Host.Trailed (closed : Prop) (host : Host) :=
  ∀ (f : Native) (m : Machine), m.Trailed closed → ∀ (args : List Value) (p : Position),
    Trail closed [] (host f m args p)

/-- A host without operations does nothing. -/
def Host.none_trailed (closed : Prop) : Host.none.Trailed closed :=
  fun _ _ _ _ _ => .idle fun _ => rfl

/-- What bodies and operations do, with so many levels of calls. -/
def Host.Trailed.machine {closed : Prop} {host : Host} (h : host.Trailed closed) :
    ∀ n, (machine host n).Trailed closed
  | 0 => ⟨fun _ => .idle fun _ => rfl, fun _ _ _ => .idle fun _ => rfl⟩
  | n + 1 =>
    let m := Host.Trailed.machine h n
    ⟨(Composition.trails closed).block m.run m.native, fun f args p => h f _ m args p⟩

end TemplateEngine
