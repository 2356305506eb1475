import TemplateEngine.Proofs.Locks.Flags
import TemplateEngine.Proofs.Loops.Items

/-!
# What `loop` tells

A round of a `for` binds its variable and the name `loop`, and locks both. A `while` takes over what
is bound around it, lock and all, so both names stand for the same throughout the round, but for
what is within another `for` (`Binds.after`). The lock is one of the name: the map that it stands
for can be written like every other map, and every entry tells what the round bound until it is
written (`loop_tells_round_until_written`).
-/

namespace TemplateEngine

open TemplateEngine.Action

/-! ## Loops in a round -/

/-- No loop is open but such with a condition. -/
def Whiles (begun : List LoopKind) : Prop := ∀ kind ∈ begun, kind = .repeatWhile

/-- The frame around the loops that have begun binds the name to the value and locks it, and so does
the frame of every `while` that is not within another kind of loop. -/
def Binds (name : String) (v : Value) : List LoopKind → List (Frame × Position) → Prop
  | _, [] => False
  | [], l :: _ => l.1.Holds name v
  | kind :: begun, l :: outer =>
    (Whiles (kind :: begun) → l.1.Holds name v) ∧ Binds name v begun outer

section

variable {name : String} {v : Value} {begun still : List LoopKind}

namespace Binds

theorem of_innermost {u : ScopeView} {f : Frame} (hf : u.loop? = some f) (h : f.Holds name v) :
    Binds name v [] u.loops := by
  unfold ScopeView.loop? at hf
  cases hl : u.loops with
  | nil => simp [hl] at hf
  | cons l outer =>
    rw [hl] at hf
    cases hf
    exact h

/-- Within no other kind of loop, the innermost frame binds the name. -/
theorem innermost {u : ScopeView} (h : Binds name v begun u.loops) (hw : Whiles begun) :
    ∃ f, u.loop? = some f ∧ f.Holds name v := by
  unfold ScopeView.loop?
  cases hl : u.loops with
  | nil =>
    rw [hl] at h
    cases begun <;> exact h.elim
  | cons l outer =>
    rw [hl] at h
    cases begun with
    | nil => exact ⟨l.1, rfl, h⟩
    | cons kind rest => exact ⟨l.1, rfl, h.1 hw⟩

theorem withLoop {u : ScopeView} {f g : Frame} (h : Binds name v begun u.loops)
    (hf : u.loop? = some f) (hg : Whiles begun → f.Holds name v → g.Holds name v) :
    Binds name v begun (u.withLoop g).loops := by
  unfold ScopeView.loop? at hf
  unfold ScopeView.withLoop
  dsimp only
  cases hl : u.loops with
  | nil => simp [hl] at hf
  | cons l outer =>
    rw [hl] at h hf
    cases hf
    cases begun with
    | nil => exact hg nofun h
    | cons kind rest => exact ⟨fun hw => hg hw (h.1 hw), h.2⟩

end Binds

namespace Frame.Holds

variable {f : Frame}

theorem define_of_free (h : f.Holds name v) {key : String} (hfree : f.isReadOnly key = false)
    (x : Value) : (f.define key x false).Holds name v := by
  have hne : key ≠ name := by
    rintro rfl
    exact absurd h.2 (by simp [hfree])
  simpa [Frame.Holds, hne] using h

theorem setReadOnly (h : f.Holds name v) {key : String} {readOnly : Bool}
    (hlock : key = name → readOnly = true) : (f.setReadOnly key readOnly).Holds name v := by
  have hget : f.get name = v := by simp [Frame.get, h.1]
  by_cases hkey : key = name
  · subst hkey
    simp [Frame.Holds, Frame.setReadOnly, hget, hlock rfl]
  · simpa [Frame.Holds, Frame.setReadOnly, hkey] using h

/-- A loop takes over names with their locks. -/
theorem inherited {u : ScopeView} (hf : u.loop? = some f) (h : f.Holds name v) :
    u.inherited.Holds name v := by
  simp only [ScopeView.inherited, hf, Option.map_some, Option.getD_some, Frame.Holds, Frame.get?,
    Frame.isReadOnly, Frame.slots_update_empty]
  exact h

end Frame.Holds

/-- A deed of a round lets a name of it stand unless it unlocks the name. -/
theorem Binds.shows {u w : ScopeView} {d : Deed} (h : Binds name v begun u.loops)
    (hshows : d.Shows u w) (hnest : d.nest begun = some still)
    (hd : ∀ p, d ≠ .lock ⟨name, .loop, p⟩ false) : Binds name v still w.loops := by
  cases hshows with
  | same hleaves hlocals hloops | opensLocal f hleaves hlocals hloops
  | closesLocal hleaves hlocals hne hloops =>
    rw [hleaves.nest hnest, hloops]
    exact h
  | assignsLocal x hscope hf hfree | locksLocal readOnly hscope hf =>
    cases hnest
    exact h
  | assignsLoop x hscope hf hfree =>
    cases hnest
    exact h.withLoop hf fun _ hholds => hholds.define_of_free hfree x
  | @locksLoop ref f readOnly hscope hf =>
    cases hnest
    refine h.withLoop hf fun _ hholds => hholds.setReadOnly ?_
    rintro rfl
    by_contra hfree
    refine hd ref.position ?_
    rw [← hscope, eq_false_of_ne_true hfree]
  | beginsLoop p hkind =>
    cases hnest
    refine ⟨fun hw => ?_, h⟩
    obtain ⟨f, hf, hholds⟩ := h.innermost fun kind hmem => hw kind (List.mem_cons_of_mem _ hmem)
    exact hholds.inherited hf
  | beginsBare p =>
    cases hnest
    refine ⟨fun hw => ?_, h⟩
    cases hw .bare List.mem_cons_self
  | endsLoop hlocals hloops =>
    rw [hloops]
    cases begun with
    | nil => cases hnest
    | cons kind rest =>
      cases hnest
      cases hl : u.loops with
      | nil =>
        rw [hl] at h
        exact h.elim
      | cons l outer =>
        rw [hl] at h
        exact h.2
  | bindsRound round length info hf =>
    simp only [Deed.nest] at hnest
    split at hnest
    · next hhead =>
      cases hnest
      refine h.withLoop hf fun hw _ => ?_
      cases hw .each (List.mem_of_mem_head? hhead)
    · cases hnest

theorem Binds.after {c : Context} (h : Binds name v begun c.scopes.view.loops)
    (hc : c.scopes.Tidy) {ds : List Deed} (hnest : loopsAfter begun ds = some still)
    (hds : ∀ p, .lock ⟨name, .loop, p⟩ false ∉ ds) :
    Binds name v still (c.after ds).scopes.view.loops := by
  induction ds generalizing c begun with
  | nil =>
    cases hnest
    exact h
  | cons d rest ih =>
    rw [loopsAfter_cons, Option.bind_eq_some_iff] at hnest
    obtain ⟨next, hd, hrest⟩ := hnest
    have heffects := d.effects hc
    refine ih (h.shows heffects.shows hd fun p hp => hds p ?_) heffects.tidy hrest fun p hp =>
      hds p (List.mem_cons_of_mem _ hp)
    rw [hp]
    exact List.mem_cons_self

end

/-! ## Entries -/

/-- What is done to a context changes the entry of a map under a key: a member of the map is
written, or a global name while the map is the innermost model, or the host changes it. -/
inductive Deed.Rewrites (c : Context) (r : Ref) (key : String) : Deed → Prop
  | member (target : Expr) (p : Position) (v : Value) :
    Rewrites c r key (.put (.member (.map r) key target p) v)
  | variable (p : Position) (v : Value) : c.scopes.globals.top.model = .map r →
    Rewrites c r key (.write ⟨key, .global, p⟩ v)
  | change (f : Store → Store) : ((f c.store).entries r).get? key ≠ (c.store.entries r).get? key →
    Rewrites c r key (.change f)

section

variable {c : Context} {r : Ref} {key : String} {v : Value}

theorem Store.entry_iff {σ : Store} : (σ.entries r).get? key = some v ↔
    σ.Has r fun x => ∃ d, x = .entries d ∧ d.get? key = some v := by
  unfold entries Has
  rcases σ.cell? r with _ | (_ | _ | _ | _ | _) <;> simp [Dictionary.get?_empty]

/-- An entry of a map is what it was unless its place is changed to one in which it is not. -/
theorem Store.entry_put {σ : Store} (h : (σ.entries r).get? key = some v) {q : Ref} {x y : Cell}
    (hx : σ.cell? q = some x) (hxy : q = r → ∀ d, x = .entries d → d.get? key = some v →
      ∃ e, y = .entries e ∧ e.get? key = some v) :
    ((σ.put q y).entries r).get? key = some v := by
  refine entry_iff.2 ((entry_iff.1 h).put hx ?_)
  rintro hq ⟨d, hd, hv⟩
  exact hxy hq d hd hv

/-- Writing a member changes the entry of that name in that map and no other. -/
theorem Store.Puts.entry_of_ne {σ τ : Store} {name : String} {target : Value}
    (hputs : σ.Puts name target τ) (h : (σ.entries r).get? key = some v)
    (hne : ¬ (target = .map r ∧ name = key)) : (τ.entries r).get? key = some v := by
  cases hputs with
  | same => exact h
  | entry x hcell =>
    refine entry_put h hcell fun hq d hd hv => ⟨_, rfl, ?_⟩
    cases hd
    rw [Dictionary.get?_insert_of_ne _ (fun hname => hne ⟨hq ▸ rfl, hname⟩), hv]
  | name x hcell hfree => exact entry_put h hcell nofun
  | record y hcell => exact entry_put h hcell nofun

/-- A deed lets an entry of a map stand unless it writes it. -/
theorem Deed.Stores.entry {d : Deed} {τ : Store} (hstores : d.Stores c τ)
    (h : (c.store.entries r).get? key = some v) (hd : ¬ d.Rewrites c r key) :
    (τ.entries r).get? key = some v := by
  cases hstores with
  | adds hadds => exact Store.entry_iff.2 ((Store.entry_iff.1 h).adds hadds)
  | @writes ref τ x hscope hputs =>
    refine hputs.entry_of_ne h ?_
    rintro ⟨hmodel, rfl⟩
    obtain ⟨name, scope, p⟩ := ref
    cases hscope
    exact hd (.variable p x hmodel)
  | puts x hputs =>
    refine hputs.entry_of_ne h ?_
    rintro ⟨rfl, rfl⟩
    exact hd (.member _ _ _)
  | putsItem x hputs =>
    cases hputs with
    | same => exact h
    | items ys hcell => exact Store.entry_put h hcell nofun
  | locks readOnly hscope hmodel hcell => exact Store.entry_put h hcell nofun
  | changes f => exact by_contra fun hne => hd (.change f (h ▸ hne))

/-- Along the deeds the entry of a map is not written. -/
def Context.Spares (r : Ref) (key : String) : Context → List Deed → Prop
  | _, [] => True
  | c, d :: rest => ¬ d.Rewrites c r key ∧ Spares r key (d.act c).2 rest

theorem Context.Spares.entry {ds : List Deed} (hds : c.Spares r key ds) (hc : c.scopes.Tidy)
    (h : (c.store.entries r).get? key = some v) :
    ((c.after ds).store.entries r).get? key = some v := by
  induction ds generalizing c with
  | nil => exact h
  | cons d rest ih =>
    have heffects := d.effects hc
    exact ih hds.2 heffects.tidy (heffects.stores.entry h hds.1)

end

/-! ## Reading -/

/-- A name of the innermost loop reads as the value, and is not written. -/
structure Context.StandsFor (c : Context) (name : String) (v : Value) : Prop where
  reads (p : Position) : readVariable ⟨name, .loop, p⟩ c = (.ok v, c)
  refuses (p : Position) (x : Value) : writeVariable ⟨name, .loop, p⟩ x c =
    (.error (.script p (.readOnlyVariable name)), c)

section

variable {c : Context} {f : Frame} {name : String} {v : Value}

/-- What the innermost loop binds and locks reads as that, and is not written. -/
theorem Frame.Holds.standsFor (h : f.Holds name v) (hf : c.scopes.loopFrame? = some f) :
    c.StandsFor name v := by
  refine ⟨fun p => ?_, fun p x => ?_⟩
  · rw [readVariable_loop rfl, hf]
    simp [Frame.get, h.1]
  · exact writeVariable_of_locksName (by simp [Context.locksName, hf, h.2]) p x

/-- A member of what stands for a map is the entry of the map. -/
theorem Frame.Holds.evaluate_member {r : Ref} (h : f.Holds name (.map r))
    (hf : c.scopes.loopFrame? = some f) {key : String} (hv : (c.store.entries r).get? key = some v)
    (hplain : ∀ g, v ≠ .function g) (m : Machine) (p q : Position) :
    (Expr.member (.var ⟨name, .loop, p⟩) key q).evaluate m c = (.ok v, c) := by
  let d : Context := { c with suppressed := false }
  have hobject : readVariable ⟨name, .loop, p⟩ d = (.ok (.map r), d) :=
    (h.standsFor (c := d) hf).reads p
  obtain ⟨_, hcell, entries, rfl, hentry⟩ := Store.entry_iff.1 hv
  have hmember : readMember (.map r) key d = (.ok v, d) := by
    have hnames : d.store.HoldsNames (.map r) := ⟨entries, hcell⟩
    rw [readMember_of_holdsNames hnames]
    simp [Store.bound?, d, hcell, Cell.bound?, hentry]
  have hsettle : m.settle true q v d = (.ok v, d) := by
    cases v with
    | function g => exact absurd rfl (hplain g)
    | _ => rfl
  have hreach : (Expr.member (.var ⟨name, .loop, p⟩) key q).reach m true d = (.ok v, d) := by
    have htarget : (Expr.var ⟨name, .loop, p⟩).reach m false d = (.ok (.map r), d) := by
      rw [Expr.reach, bind_of_ok hobject]
      rfl
    rw [Expr.reach, bind_of_ok htarget]
    exact (bind_of_ok hmember).trans hsettle
  simp only [Expr.evaluate, withSuppression]
  exact congrArg (fun out : Outcome Value × Context =>
    (out.1, { out.2 with suppressed := c.suppressed })) hreach

end

/-- What a round tells is no function. -/
theorem Dictionary.TellsRound.plain {d : Dictionary Value} {k n : Nat} (h : d.TellsRound k n)
    {key : String} {v : Value} (hv : d.get? key = some v) (g : Function) : v ≠ .function g := by
  have hmem : key ∈ d.keys := (d.mem_keys_iff key).2 (by simp [contains, hv])
  rw [h.keys] at hmem
  rintro rfl
  simp only [List.mem_cons, List.not_mem_nil, or_false] at hmem
  rcases hmem with rfl | rfl | rfl | rfl | rfl
  · cases h.first.symm.trans hv
  · cases h.index.symm.trans hv
  · cases h.index0.symm.trans hv
  · cases h.last.symm.trans hv
  · cases h.length.symm.trans hv

/-! ## A round -/

/-- A round that could be counted and has a frame to bind its names in has begun. -/
theorem Scopes.Tidy.beginsRound {c b : Context} (hc : c.scopes.Tidy) {name : String} {item : Value}
    {k length : Nat}
    (hround : (stepLoop >>= fun _ => Machine.bindRound name length (item, k)) c = (.ok (), b)) :
    c.BeginsRound name item k length b ∧ b.scopes.Tidy := by
  let d : Context :=
    { c with scopes := { c.scopes with iterations := c.scopes.iterations + 1 } }
  by_cases hbudget : c.scopes.iterations < c.limits.loops
  · have hstep : stepLoop c = (.ok (), d) := stepLoop_of_lt hbudget
    have hbind : Machine.bindRound name length (item, k) d = (.ok (), b) := by
      rwa [bind_of_ok hstep] at hround
    have htidy : b.scopes.Tidy := by
      have hafter := ((Deed.bindRound name length (item, k)).effects (c := d) hc).tidy
      rwa [Deed.act, hbind] at hafter
    cases hframe : c.scopes.loopFrame? with
    | none =>
      have hnone : bindLoop name item d = (.error .noLoopFrame, d) := by
        unfold bindLoop
        rw [show d.scopes.loopFrame? = none from hframe]
      rw [Machine.bindRound, bind_of_error hnone] at hbind
      cases hbind
    | some before =>
      obtain ⟨e, he, hbegins⟩ := hc.exists_beginsRound hframe hbudget name item k length
      cases he.symm.trans hround
      exact ⟨hbegins, htidy⟩
  · rw [bind_of_error (stepLoop_of_le (Nat.not_lt.1 hbudget))] at hround
    cases hround

/-- A round of a `for` begins, and its body is run: every moment of that run, also within the calls
and includes that it makes, is reached by a part of the deeds of the body. Outside of loops in the
round other than those with a condition, the variable of the loop and the name `loop` then stand
for what the round bound, unless the host has unlocked them, and they cannot be written; and `loop`
tells under every key what it told when the round began, unless that entry of the map has been
written. -/
theorem loop_tells_round_until_written {host : Host} (hhost : host.Trailed True) (n : Nat)
    (body : Block) {c b : Context} (hc : c.scopes.Tidy) {name : String} {item : Value}
    {k length : Nat}
    (hround : (stepLoop >>= fun _ => Machine.bindRound name length (item, k)) c = (.ok (), b)) :
    let m := machine host n
    let trail := (Composition.trails True).block (hhost.machine n).run (hhost.machine n).native body
    (Machine.eachBody name length (runBlock m body) (item, k) c).2 = b.after (trail.log b) ∧
    ∃ r, (b.store.entries r).TellsRound k length ∧
      ∀ j, ∃ begun, loopsAfter [] ((trail.log b).take j) = some begun ∧ (Whiles begun →
        let deeds := (trail.log b).take j
        let e := b.after deeds
        (name ≠ "loop" → (∀ p, .lock ⟨name, .loop, p⟩ false ∉ deeds) → e.StandsFor name item) ∧
        ((∀ p, .lock ⟨"loop", .loop, p⟩ false ∉ deeds) → e.StandsFor "loop" (.map r) ∧
          ∀ key v, (b.store.entries r).get? key = some v → b.Spares r key deeds → ∀ p q,
            (Expr.member (.var ⟨"loop", .loop, p⟩) key q).evaluate m e = (.ok v, e))) := by
  intro m trail
  obtain ⟨hbegins, hb⟩ := hc.beginsRound hround
  obtain ⟨before, frame, r, hbefore, hframe, hitem, hloop, htells, -⟩ := hbegins.bound
  rw [Scopes.loopFrame?_eq] at hframe
  refine ⟨?_, r, htells, fun j => ?_⟩
  · have hrun : Machine.eachBody name length (runBlock m body) (item, k) c =
        (runBlock m body >>= fun flow => pure flow.endsLoop) b := by
      rw [Machine.eachBody_eq, Machine.countedRound, ← bind_assoc, bind_assoc, bind_of_ok hround]
    rw [hrun, Trail.snd_bind_pure, trail.replays]
  obtain ⟨begun, hbegun⟩ := exists_loopsAfter_take (trail.nests trivial b) j
  refine ⟨begun, hbegun, fun hw => ?_⟩
  intro deeds e
  have hstands {key : String} {v : Value} (h : frame.Holds key v)
      (hlock : ∀ p, .lock ⟨key, .loop, p⟩ false ∉ deeds) :
      ∃ f, e.scopes.loopFrame? = some f ∧ f.Holds key v := by
    rw [Scopes.loopFrame?_eq]
    exact ((Binds.of_innermost hframe h).after hb hbegun hlock).innermost hw
  refine ⟨fun hname hlock => ?_, fun hlock => ?_⟩
  · obtain ⟨f, hf, hholds⟩ := hstands (hitem hname) hlock
    exact hholds.standsFor hf
  · obtain ⟨f, hf, hholds⟩ := hstands hloop hlock
    refine ⟨hholds.standsFor hf, fun key v hv hspares p q => ?_⟩
    exact hholds.evaluate_member hf (hspares.entry hb hv) (htells.plain hv) m p q

/-- Within a `while` in its only round, a `for` is still in its first round. -/
theorem loop_tells_round_within_while :
    let p : Position := .unknown
    let body : Block := [.repeatWhile (.literal (.bool true) p) [.stop p] p]
    let c := (Settings.standard id).newContext.after [.beginLoop .each p]
    let b := ((stepLoop >>= fun _ => Machine.bindRound "x" 1 (.int 7, 0)) c).2
    let e := b.after [.beginLoop .repeatWhile p]
    (∃ rest, (Machine.eachBody "x" 1 (runBlock (machine .none 1) body) (.int 7, 0) c).2 =
      e.after rest) ∧
      (Expr.member (.var ⟨"loop", .loop, p⟩) "index" p).evaluate (machine .none 1) e =
        (.ok (.int 1), e) := by
  intro p body c b e
  have hc : c.scopes.Tidy := Context.tidy_after (Scopes.tidy_new _) _
  have hround : (stepLoop >>= fun _ => Machine.bindRound "x" 1 (.int 7, 0)) c = (.ok (), b) := rfl
  let trail := (Composition.trails True).block ((Host.none_trailed True).machine 1).run
    ((Host.none_trailed True).machine 1).native body
  obtain ⟨hrun, r, htells, hmoments⟩ :=
    loop_tells_round_until_written (Host.none_trailed True) 1 body hc hround
  have hlog : (trail.log b).take 1 = [.beginLoop .repeatWhile p] := rfl
  obtain ⟨begun, hbegun, hstands⟩ := hmoments 1
  rw [hlog] at hbegun hstands
  cases hbegun
  refine ⟨⟨(trail.log b).drop 1, ?_⟩, ?_⟩
  · rw [hrun, ← Context.after_append, ← hlog, List.take_append_drop]
  · refine ((hstands ?_).2 ?_).2 "index" _ htells.index ⟨nofun, trivial⟩ p p
    · simp [Whiles]
    · simp

/-- The only round of a loop tells its number, writes over it and tells another one. -/
theorem loop_index_can_be_written :
    let source := "\x7b% for x in [7] %\x7d\x7b\x7b loop.index \x7d\x7d" ++
      "\x7b% set loop.index = 5 %\x7d\x7b\x7b loop.index \x7d\x7d\x7b% endfor %\x7d"
    (match Template.parse "t" source .plain with
      | .ok t => match (t.render (machine .none 1) .null (Settings.standard id).newContext).1 with
        | .ok text => text
        | _ => ""
      | .error _ => "") = "15" := by
  decide +kernel

end TemplateEngine
