import TemplateEngine.Proofs.Contexts.Order
import TemplateEngine.Proofs.Lexical.Rounds
import TemplateEngine.Proofs.Texts.ByteOrder

/-!
# Loops over items

A `for` takes stock of what it visits when it begins (`Store.Visits`). If that is nothing, no loop
is begun and no round is counted. Otherwise the rounds go from one item to the next
(`Machine.Laps`): each of them is counted, binds the variable of the loop and what the name `loop`
tells (`Context.BeginsRound`), and runs the body, whatever the rounds before it have done; and the
loop ends after the last item, or before that as a round says or with the round that is refused
(`for_visits_items`).
-/

namespace TemplateEngine

open TemplateEngine.Action

/-! ## What is visited -/

/-- What a loop over a value visits: the items of a list or an array, the keys of a map in the order
of their bytes, the keys that an object shows, and nothing if nothing is there. -/
inductive Store.Visits (σ : Store) : Value → List Value → Prop
  | absent {v : Value} : v.isAbsent = true → Visits σ v []
  | list (r : Ref) : Visits σ (.list r) (σ.items r)
  | array (r : Ref) : Visits σ (.array r) (σ.items r)
  | map (r : Ref) (keys : List String) : keys.Pairwise (fun a b => utf8 a < utf8 b) →
      (∀ k, k ∈ keys ↔ (σ.entries r).contains k = true) → Visits σ (.map r) (keys.map .text)
  | object (r : Ref) : Visits σ (.object r) ((σ.objectKeys r).map .text)

theorem Dictionary.mem_keys_iff {α : Type} (d : Dictionary α) (k : String) :
    k ∈ d.keys ↔ d.contains k = true := by
  obtain ⟨entries, sorted⟩ := d
  simp only [keys, contains, get?]
  clear sorted
  induction entries with
  | nil => simp [lookupEntry]
  | cons e rest ih =>
    obtain ⟨name, v⟩ := e
    simp only [List.map_cons, List.mem_cons, lookupEntry]
    by_cases h : name = k
    · simp [h]
    · rw [if_neg h, ← ih]
      simp [Ne.symm h]

theorem Store.visits_of_iterationItems {σ : Store} {v : Value} {xs : List Value}
    (h : σ.iterationItems v = .ok xs) : σ.Visits v xs := by
  cases v with
  | undefined | null =>
    cases h
    exact .absent rfl
  | list r =>
    cases h
    exact .list r
  | array r =>
    cases h
    exact .array r
  | map r =>
    cases h
    exact .map r _ (σ.entries r).keys_in_byte_order fun k => (σ.entries r).mem_keys_iff k
  | object r =>
    cases h
    exact .object r
  | _ => cases h

/-! ## What a round binds -/

/-- What the name `loop` tells in the round of this number, counted from zero, of so many. -/
structure Dictionary.TellsRound (d : Dictionary Value) (k n : Nat) : Prop where
  index : d.get? "index" = some (.int (k + 1))
  index0 : d.get? "index0" = some (.int k)
  first : d.get? "first" = some (.bool (k = 0))
  last : d.get? "last" = some (.bool (k + 1 = n))
  length : d.get? "length" = some (.int n)
  keys : d.keys = ["first", "index", "index0", "last", "length"]

theorem Machine.loopEntries_tellsRound (k n : Nat) : (loopEntries k n).TellsRound k n := by
  have hkeys : (loopEntries k n).keys = ["first", "index", "index0", "last", "length"] := rfl
  constructor <;> first | exact hkeys | simp [loopEntries, Dictionary.ofList]

/-- A round over an item begins: it could be counted, and it is; the frame of the loop binds the
item and what `loop` tells, and locks both; and nothing else has changed. -/
structure Context.BeginsRound (name : String) (item : Value) (k n : Nat) (c d : Context) :
    Prop where
  budget : c.scopes.iterations < c.limits.loops
  bound : ∃ (before frame : Frame) (r : Ref),
    c.scopes.loopFrame? = some before ∧ d.scopes.loopFrame? = some frame ∧
    (name ≠ "loop" → frame.Holds name item) ∧ frame.Holds "loop" (.map r) ∧
    (d.store.entries r).TellsRound k n ∧
    (∀ other, other ≠ name → other ≠ "loop" →
      frame.slots.get? other = before.slots.get? other) ∧
    d.scopes.view = c.scopes.view.withLoop frame ∧
    c.store.cell? r = none ∧ ∀ q, q ≠ r → d.store.cell? q = c.store.cell? q
  rest : d = { c with
    store := d.store
    scopes := { c.scopes with pool := d.scopes.pool, iterations := c.scopes.iterations + 1 } }

section

variable {c : Context} {before : Frame}

theorem bindLoop_of_loopFrame (h : c.scopes.loopFrame? = some before) (name : String) (v : Value) :
    bindLoop name v c =
      (.ok (), { c with scopes := c.scopes.setLoopFrame (before.define name v true) }) := by
  unfold bindLoop
  rw [h]

theorem stepLoop_of_lt (h : c.scopes.iterations < c.limits.loops) :
    stepLoop c =
      (.ok (), { c with scopes := { c.scopes with iterations := c.scopes.iterations + 1 } }) := by
  unfold stepLoop
  rw [if_pos h]

/-- A round that is in the budget begins. -/
theorem Scopes.Tidy.exists_beginsRound (h : c.scopes.Tidy)
    (hframe : c.scopes.loopFrame? = some before) (hbudget : c.scopes.iterations < c.limits.loops)
    (name : String) (item : Value) (k n : Nat) :
    ∃ d, (stepLoop >>= fun _ => Machine.bindRound name n (item, k)) c = (.ok (), d) ∧
      c.BeginsRound name item k n d := by
  -- the scopes once the round is counted, once the item is bound, and once `loop` is
  let s₁ : Scopes := { c.scopes with iterations := c.scopes.iterations + 1 }
  let r := c.store.cells.size
  let f₁ := before.define name item true
  let f₂ := f₁.define "loop" (.map r) true
  let s₂ := s₁.setLoopFrame f₁
  let s₃ := s₂.setLoopFrame f₂
  let σ := (c.store.alloc (.entries (Machine.loopEntries k n))).2
  have hview₂ : s₂.view = c.scopes.view.withLoop f₁ := Tidy.view_setLoopFrame (s := s₁) h f₁
  have htidy₂ : s₂.Tidy := Tidy.setLoopFrame (s := s₁) h f₁
  have hview₃ : s₃.view = c.scopes.view.withLoop f₂ := by
    rw [htidy₂.view_setLoopFrame, hview₂, ScopeView.withLoop_withLoop]
  have hsome : c.scopes.view.loop? = some before := by rw [← loopFrame?_eq, hframe]
  have hframe₂ : s₂.loopFrame? = some f₁ := by
    rw [loopFrame?_eq, hview₂, ScopeView.loop?_withLoop, hsome, Option.map_some]
  have hframe₃ : s₃.loopFrame? = some f₂ := by
    rw [loopFrame?_eq, hview₃, ScopeView.loop?_withLoop, hsome, Option.map_some]
  refine ⟨{ c with store := σ, scopes := s₃ }, ?_, hbudget, ?_, ?_⟩
  · have hbind : bindLoop name item { c with scopes := s₁ } = (.ok (), { c with scopes := s₂ }) :=
      bindLoop_of_loopFrame (c := { c with scopes := s₁ }) hframe name item
    have hnew : onStore (fun σ => σ.newMap (Machine.loopEntries k n)) { c with scopes := s₂ } =
        (.ok (.map r), { c with store := σ, scopes := s₂ }) := rfl
    have hinfo : bindLoop "loop" (.map r) { c with store := σ, scopes := s₂ } =
        (.ok (), { c with store := σ, scopes := s₃ }) :=
      bindLoop_of_loopFrame (c := { c with store := σ, scopes := s₂ }) hframe₂ "loop" (.map r)
    rw [bind_of_ok (stepLoop_of_lt hbudget), Machine.bindRound, bind_of_ok hbind, bind_of_ok hnew,
      hinfo]
  · refine ⟨before, f₂, r, hframe, hframe₃, ?_, ?_, ?_, ?_, hview₃, ?_, ?_⟩
    · intro hname
      simp [Frame.Holds, f₂, f₁, Ne.symm hname]
    · simp [Frame.Holds, f₂]
    · have hentries : σ.entries r = Machine.loopEntries k n := by
        simp [Store.entries, σ, r, Store.cell?_alloc]
      rw [hentries]
      exact Machine.loopEntries_tellsRound k n
    · intro other hname hloop
      simp [f₂, f₁, Frame.define, Ne.symm hname, Ne.symm hloop]
    · simp [Store.cell?, r]
    · intro q hq
      simp only [σ, Store.cell?_alloc]
      rw [if_neg hq]
  · have hpool (t : Scopes) (f : Frame) :
        t.setLoopFrame f = { t with pool := (t.setLoopFrame f).pool } := by
      unfold Scopes.setLoopFrame
      split <;> rfl
    have hs₃ : s₃ = { s₁ with pool := s₃.pool } :=
      (hpool s₂ f₂).trans (congrArg (fun t : Scopes => { t with pool := s₃.pool }) (hpool s₁ f₁))
    exact congrArg (fun t : Scopes => { c with store := σ, scopes := t }) hs₃

end

theorem stepLoop_of_le {c : Context} (h : c.limits.loops ≤ c.scopes.iterations) :
    stepLoop c = (.error (.script c.scopes.loopPosition (.loopLimit c.limits.loops)),
      { c with scopes := { c.scopes with iterations := c.scopes.iterations + 1 } }) := by
  unfold stepLoop
  rw [if_neg (Nat.not_lt.2 h)]

/-! ## From item to item -/

namespace Machine

/-- The rounds of a loop that stands at a place, from the item of this number on: from which context
to which they lead, and how they end. -/
inductive Laps (name : String) (p : Position) (items : List Value) (body : Action Flow) :
    Nat → Context → Outcome Flow → Context → Prop
  /-- Every item has had its round. -/
  | finished {c : Context} : Laps name p items body items.length c (.ok .normal) c
  /-- All rounds that the context has are used up. -/
  | refused {k : Nat} {c : Context} : k < items.length → c.limits.loops ≤ c.scopes.iterations →
      Laps name p items body k c (.error (.script p (.loopLimit c.limits.loops)))
        { c with scopes := { c.scopes with iterations := c.scopes.iterations + 1 } }
  /-- The body ends normally or with a `continue`, and the next item follows. -/
  | goesOn {k : Nat} {c d e f : Context} {item : Value} {flow : Flow} {r : Outcome Flow} :
      items[k]? = some item → c.BeginsRound name item k items.length d → body d = (.ok flow, e) →
      flow = .normal ∨ flow = .next → Laps name p items body (k + 1) e r f →
      Laps name p items body k c r f
  /-- The body ends with a `break`. -/
  | stopped {k : Nat} {c d e : Context} {item : Value} :
      items[k]? = some item → c.BeginsRound name item k items.length d → body d = (.ok .stop, e) →
      Laps name p items body k c (.ok .normal) e
  /-- The body ends with a `return`, which the loop passes on. -/
  | left {k : Nat} {c d e : Context} {item : Value} {value : Option Value} :
      items[k]? = some item → c.BeginsRound name item k items.length d →
      body d = (.ok (.leave value), e) → Laps name p items body k c (.ok (.leave value)) e
  | failed {k : Nat} {c d e : Context} {item : Value} {x : EvalError} :
      items[k]? = some item → c.BeginsRound name item k items.length d →
      body d = (.error x, e) → Laps name p items body k c (.error x) e
  | outOfFuel {k : Nat} {c d e : Context} {item : Value} :
      items[k]? = some item → c.BeginsRound name item k items.length d →
      body d = (.outOfFuel, e) → Laps name p items body k c .outOfFuel e

variable {s : Settings} {body : Action Flow}

/-- The rounds over the items that are left are laps, by induction on these items. -/
theorem laps_eachRound (horderly : body.Orderly s) (hkeeps : body.Keeps Output.Extends)
    (name : String) (items : List Value) {c : Context} (hc : c.InOrder s) {l : LoopFrame}
    {outer : List LoopFrame} (hl : c.scopes.loops = l :: outer) {k : Nat}
    {todo : List (Value × Nat)} (htodo : items.zipIdx.drop k = todo) (hk : k ≤ items.length) :
    Laps name l.position items body k c
      (eachRound (eachBody name items.length body) todo c).1
      (eachRound (eachBody name items.length body) todo c).2 := by
  induction todo generalizing c k with
  | nil =>
    have hlength : items.zipIdx.length ≤ k := List.drop_eq_nil_iff.1 htodo
    rw [List.length_zipIdx] at hlength
    obtain rfl : k = items.length := Nat.le_antisymm hk hlength
    exact .finished
  | cons x rest ih =>
    obtain ⟨first, j⟩ := x
    have hget : items.zipIdx[k]? = some (first, j) := by
      have hhead := congrArg (fun xs : List (Value × Nat) => xs[0]?) htodo
      simpa [List.getElem?_drop] using hhead
    rw [List.getElem?_zipIdx, Option.map_eq_some_iff] at hget
    obtain ⟨item, hitem, hpair⟩ := hget
    rw [Nat.zero_add, Prod.mk.injEq] at hpair
    obtain ⟨rfl, rfl⟩ := hpair
    have hlt : k < items.length := (List.getElem?_eq_some_iff.1 hitem).1
    have hrest : items.zipIdx.drop (k + 1) = rest := by
      rw [← List.drop_drop, htodo, List.drop_one, List.tail_cons]
    have htidy : c.scopes.Tidy := hc.scopes.pool.toSound
    have hframe : c.scopes.loopFrame? = some (c.scopes.pool.get l.frame) := by
      simp [Scopes.loopFrame?, hl]
    rw [eachRound_cons, eachBody_eq]
    by_cases hbudget : c.scopes.iterations < c.limits.loops
    · obtain ⟨d, hbegin, hround⟩ :=
        htidy.exists_beginsRound hframe hbudget name item k items.length
      have hd : d.InOrder s := by
        have hafter := Orderly.bind (s := s) orderly_stepLoop
          (fun _ => orderly_bindRound name items.length (item, k)) c hc
        rwa [hbegin] at hafter
      have hcounted : countedRound (bindRound name items.length (item, k)) body c = body d := by
        rw [countedRound, ← bind_assoc, bind_of_ok hbegin]
      have he : (body d).2.InOrder s := horderly d hd
      have hle : (body d).2.scopes.loops = l :: outer := by
        rw [(hkeeps d).loops, hround.rest]
        exact hl
      rcases hbody : body d with ⟨r, e⟩
      rw [hbody] at hcounted he hle
      cases r with
      | ok flow =>
        have hflow := bind_of_ok (f := fun flow => pure flow.endsLoop) hcounted
        rw [bind_of_ok hflow]
        cases flow with
        | normal => exact .goesOn hitem hround hbody (.inl rfl) (ih he hle hrest hlt)
        | next => exact .goesOn hitem hround hbody (.inr rfl) (ih he hle hrest hlt)
        | stop => exact .stopped hitem hround hbody
        | leave value => exact .left hitem hround hbody
      | error x =>
        have herror := bind_of_error (f := fun flow => pure flow.endsLoop) hcounted
        rw [bind_of_error herror]
        exact .failed hitem hround hbody
      | outOfFuel =>
        have hfuel := bind_of_outOfFuel (f := fun flow => pure flow.endsLoop) hcounted
        rw [bind_of_outOfFuel hfuel]
        exact .outOfFuel hitem hround hbody
    · have hstep := stepLoop_of_le (Nat.not_lt.1 hbudget)
      have hposition : c.scopes.loopPosition = l.position := by simp [Scopes.loopPosition, hl]
      rw [hposition] at hstep
      have hcounted : countedRound (bindRound name items.length (item, k)) body c =
          (.error (.script l.position (.loopLimit c.limits.loops)), _) := bind_of_error hstep
      have herror := bind_of_error (f := fun flow => pure flow.endsLoop) hcounted
      rw [bind_of_error herror]
      exact .refused hlt (Nat.not_lt.1 hbudget)

end Machine

/-! ## Beginning and ending -/

/-- A loop at a place begins: its frame takes over what the loop around it binds, and nothing else
has changed. -/
structure Context.BeginsLoop (p : Position) (c d : Context) : Prop where
  view : d.scopes.view = (c.scopes.view.looping p).withLoop c.scopes.view.inherited
  rest : d = { c with
    scopes := { c.scopes with pool := d.scopes.pool, loops := d.scopes.loops } }

/-- The innermost loop ends, and nothing else has changed. -/
structure Context.EndsLoop (c d : Context) : Prop where
  view : d.scopes.view = { c.scopes.view with loops := c.scopes.view.loops.tail }
  loops : d.scopes.loops = c.scopes.loops.tail
  rest : d = { c with
    scopes := { c.scopes with pool := d.scopes.pool, loops := d.scopes.loops } }

theorem Region.around_of_ok {α : Type} {r : Region} {opening : Action Unit} {x : Action α}
    {c d e f : Context} {o : Outcome α} {v : Value} (hopen : opening c = (.ok (), d))
    (hx : x d = (o, e)) (hclose : r.close e = (.ok v, f)) : r.around opening x c = (o, f) := by
  cases o <;> simp [Region.around, Region.holding, bind_apply, between, hopen, hx, hclose]

section

variable {s : Settings} {c : Context} (hc : c.InOrder s)

include hc

theorem Context.InOrder.beginsLoop (p : Position) :
    ∃ d, (enterLoop p >>= fun _ => inheritLoop) c = (.ok (), d) ∧ c.BeginsLoop p d ∧ d.InOrder s ∧
      ∃ i, d.scopes.loops = ⟨i, p⟩ :: c.scopes.loops := by
  have htidy : c.scopes.Tidy := hc.scopes.pool.toSound
  have hopen : Action.Orderly s (enterLoop p >>= fun _ => inheritLoop) :=
    .bind (orderly_enterLoop p) fun _ => Primitive.inheritLoop.orderly
  have hloops : (c.scopes.pushLoop p).inheritLoop.loops =
      ⟨c.scopes.pool.acquire.1, p⟩ :: c.scopes.loops := by
    unfold Scopes.inheritLoop
    split <;> rfl
  have hrest : (c.scopes.pushLoop p).inheritLoop =
      { c.scopes with
        pool := (c.scopes.pushLoop p).inheritLoop.pool
        loops := (c.scopes.pushLoop p).inheritLoop.loops } := by
    unfold Scopes.inheritLoop
    split <;> rfl
  exact ⟨{ c with scopes := (c.scopes.pushLoop p).inheritLoop }, rfl,
    ⟨(htidy.inherit p).2, congrArg (fun t : Scopes => { c with scopes := t }) hrest⟩, hopen c hc,
    _, hloops⟩

theorem Context.InOrder.endsLoop {l : LoopFrame} {outer : List LoopFrame}
    (hl : c.scopes.loops = l :: outer) :
    ∃ d, Region.loop.close c = (.ok .undefined, d) ∧ c.EndsLoop d := by
  have htidy : c.scopes.Tidy := hc.scopes.pool.toSound
  have hne : c.scopes.view.loops ≠ [] := by simp [Scopes.view, hl]
  obtain ⟨t, hpop, -, hrest, hview⟩ := htidy.popLoop hne
  have hloops : t.loops = c.scopes.loops.tail := by
    simp only [Scopes.popLoop?, hl, Option.some.injEq] at hpop
    rw [← hpop, hl, List.tail_cons]
  refine ⟨{ c with scopes := t }, ?_, hview, hloops, ?_⟩
  · simp only [Region.close, exitLoop, bind_apply, hpop]
    rfl
  · exact congrArg (fun t : Scopes => { c with scopes := t }) hrest

end

/-! ## The meaning of loops over items -/

/-- Once its value has been found, a `for` runs rounds over the items or else the other block. -/
theorem run_each {m : Machine} {ref : VarRef} {e : Expr} {body : Block} {otherwise : Option Block}
    {p : Position} {c d : Context} {v : Value} (hv : e.evaluate m c = (.ok v, d))
    {items : List Value} (hitems : d.store.iterationItems v = .ok items) :
    (Stmt.each ref e body otherwise p).run m c =
      (match items with
        | [] =>
          match otherwise with
          | none => (pure .normal : Action Flow)
          | some block => runBlock m block
        | xs => Machine.forEach ref.name p xs (runBlock m body)) d := by
  have htry : tryView e.position (fun σ => σ.iterationItems v) d = (.ok items, d) := by
    simp [tryView, hitems]
  unfold Stmt.run
  rw [bind_of_ok hv, bind_of_ok htry]
  rfl

theorem Machine.keeps_eachBody {body : Action Flow} (h : body.Keeps Output.Extends) (name : String)
    (length : Nat) (item : Value × Nat) :
    (eachBody name length body item).Keeps Output.Extends := by
  rw [eachBody_eq]
  exact .bind (keeps_countedRound (quiet_bindRound name length item) h)
    fun _ => (Quiet.pure _).keeps.up

theorem Machine.orderly_eachBody {s : Settings} {body : Action Flow} (h : body.Orderly s)
    (name : String) (length : Nat) (item : Value × Nat) :
    (eachBody name length body item).Orderly s := by
  rw [eachBody_eq]
  exact .bind (orderly_countedRound (orderly_bindRound name length item) h) fun _ => .pure _

/-- A loop over items begins, goes through its laps and ends. -/
theorem Machine.forEach_laps {s : Settings} {body : Action Flow} (horderly : body.Orderly s)
    (hkeeps : body.Keeps Output.Extends) (name : String) (p : Position) (items : List Value)
    {c : Context} (hc : c.InOrder s) :
    ∃ begun r done ended, c.BeginsLoop p begun ∧ Laps name p items body 0 begun r done ∧
      done.EndsLoop ended ∧ ended.scopes.loops = c.scopes.loops ∧
      forEach name p items body c = (r, ended) := by
  obtain ⟨begun, hopen, hbegins, hbegun, i, hloops⟩ := hc.beginsLoop p
  let round := eachBody name items.length body
  have hdoneOrder : (eachRound round items.zipIdx begun).2.InOrder s :=
    (Congruence.orderly s).eachRound (s := .here) (g := round)
      (orderly_eachBody horderly name items.length) items.zipIdx begun hbegun
  have hdoneKept : begun.Kept Output.Extends (eachRound round items.zipIdx begun).2 :=
    Congruence.keeping.eachRound (s := .here) (g := round) (keeps_eachBody hkeeps name items.length)
      items.zipIdx begun
  have hlaps : Laps name p items body 0 begun (eachRound round items.zipIdx begun).1
      (eachRound round items.zipIdx begun).2 :=
    laps_eachRound horderly hkeeps name items hbegun hloops rfl (Nat.zero_le _)
  rcases hrounds : eachRound round items.zipIdx begun with ⟨r, done⟩
  rw [hrounds] at hdoneOrder hdoneKept hlaps
  have hdoneLoops : done.scopes.loops = ⟨i, p⟩ :: c.scopes.loops := hdoneKept.loops.trans hloops
  obtain ⟨ended, hclose, hended⟩ := hdoneOrder.endsLoop hdoneLoops
  have hrestored : ended.scopes.loops = c.scopes.loops := by
    rw [hended.loops, hdoneLoops, List.tail_cons]
  have hrun : forEach name p items body c = (r, ended) :=
    (congrFun (inLoop_eq p _) c).trans (Region.around_of_ok hopen hrounds hclose)
  exact ⟨begun, r, done, ended, hbegins, hlaps, hended, hrestored, hrun⟩

/-- A loop over two items that is left in its first round. -/
def leftAtOnce : Stmt :=
  let p : Position := .unknown
  .each ⟨"x", .loop, p⟩ (.list [.literal (.int 1) p, .literal (.int 2) p] p) [.stop p]
    (some [.text "none"]) p

end TemplateEngine
