import TemplateEngine.Proofs.Evaluation.Unaware
import TemplateEngine.Proofs.Frames.Reports
import TemplateEngine.Proofs.Lexical.Bodies
import TemplateEngine.Proofs.Trails.Deeds

/-!
# What deeds do

Each deed is followed once. What is seen of the frames after it is told by `Deed.Shows`, the models
by `Deed.Models`, and what places hold by `Deed.Stores`; and it leaves the frames in use handed out
once each (`Deed.effects`). A member that is written is changed in the one place that the value
refers to, and in a namespace only if it is not locked (`Store.Puts`).
-/

namespace TemplateEngine

open TemplateEngine.Action

/-! ## Writing through a value -/

/-- The place holds something that fits. -/
def Store.Has (σ : Store) (r : Ref) (fits : Cell → Prop) : Prop :=
  ∃ x, σ.cell? r = some x ∧ fits x

namespace Store.Has

variable {σ τ : Store} {r q : Ref} {fits : Cell → Prop} {x y : Cell}

theorem adds (h : σ.Has r fits) (hadds : σ.Adds τ) : τ.Has r fits := by
  obtain ⟨z, hz, hfits⟩ := h
  exact ⟨z, hadds r z hz, hfits⟩

/-- What fits there still does if no place is changed from one that fits to one that does not. -/
theorem put (h : σ.Has r fits) (hx : σ.cell? q = some x) (hxy : q = r → fits x → fits y) :
    (σ.put q y).Has r fits := by
  obtain ⟨z, hz, hfits⟩ := h
  by_cases hq : q = r
  · subst hq
    obtain rfl := Option.some.inj (hx.symm.trans hz)
    exact ⟨y, cell?_put_self hx, hxy rfl hfits⟩
  · exact ⟨z, (cell?_put_of_ne σ y hq).trans hz, hfits⟩

/-- What fits there did before if no place is changed from one that does not fit to one that does. -/
theorem of_put (h : (σ.put q y).Has r fits) (hx : σ.cell? q = some x)
    (hxy : q = r → fits y → fits x) : σ.Has r fits := by
  obtain ⟨z, hz, hfits⟩ := h
  by_cases hq : q = r
  · subst hq
    obtain rfl := Option.some.inj ((cell?_put_self hx).symm.trans hz)
    exact ⟨x, hx, hxy rfl hfits⟩
  · exact ⟨z, (cell?_put_of_ne σ y hq).symm.trans hz, hfits⟩

end Store.Has

/-- What writing a member of a value may do to a store. -/
inductive Store.Puts (σ : Store) (name : String) : Value → Store → Prop
  | same (v : Value) : Puts σ name v σ
  | entry {r : Ref} {d : Dictionary Value} (x : Value) :
    σ.cell? r = some (.entries d) → Puts σ name (.map r) (σ.put r (.entries (d.insert name x)))
  | name {r : Ref} {f : Frame} (x : Value) :
    σ.cell? r = some (.names f) → f.isReadOnly name = false →
    Puts σ name (.object r) (σ.put r (.names (f.define name x false)))
  | record {r : Ref} {x : Record} (y : Record) :
    σ.cell? r = some (.record x) → Puts σ name (.record r) (σ.put r (.record y))

/-- What writing an item of a value may do to a store. -/
inductive Store.PutsItem (σ : Store) : Store → Prop
  | same : PutsItem σ σ
  | items {r : Ref} {xs : List Value} (ys : List Value) : σ.cell? r = some (.items xs) →
    PutsItem σ (σ.put r (.items ys))

namespace Store

variable {σ τ : Store} {target v : Value} {name : String}

theorem putsItem_setItem (r : Ref) (i : Nat) (v : Value) : σ.PutsItem (σ.setItem r i v) := by
  unfold setItem
  split
  · next hcell => exact .items _ hcell
  · exact .same

theorem puts_setEntry (r : Ref) (name : String) (v : Value) :
    σ.Puts name (.map r) (σ.setEntry r name v) := by
  unfold setEntry
  split
  · next hcell => exact .entry v hcell
  · exact .same _

theorem puts_changeRecord (r : Ref) (change : Record → Record) :
    σ.Puts name (.record r) (σ.changeRecord r change) := by
  unfold changeRecord
  split
  · next hcell => exact .record _ hcell
  · exact .same _

theorem puts_objectSet {r : Ref} (h : σ.objectSet r name v = .ok τ) :
    σ.Puts name (.object r) τ := by
  unfold objectSet at h
  split at h
  · next f hcell =>
    cases hset : f.set name v with
    | error e =>
      rw [hset] at h
      cases h
    | ok g =>
      rw [hset] at h
      cases h
      obtain ⟨hfree, rfl⟩ := Frame.set_eq_ok_iff.1 hset
      exact .name v hcell hfree
  · split at h
    · cases h
    · cases h
      exact .same _
  · cases h

theorem puts_writeMember {m : Member} (h : m.write σ target v = .ok τ) : σ.Puts name target τ := by
  unfold Member.write at h
  split at h
  · cases h
    exact puts_changeRecord _ _
  · cases h
  · cases h

theorem puts_setMember {a : MemberAccessor} (h : a.set σ target name v = .ok τ) :
    σ.Puts name target τ := by
  unfold MemberAccessor.set at h
  split at h
  · exact puts_objectSet h
  · cases h
    exact puts_setEntry _ _ _
  · split at h
    · exact puts_writeMember h
    · cases h
  · cases h

theorem putsItem_setPosition {a : SequenceAccessor} {index : Int}
    (h : a.set σ target index v = .ok τ) : σ.PutsItem τ := by
  unfold SequenceAccessor.set at h
  cases hplace : a.place? target with
  | none =>
    rw [hplace] at h
    cases h
  | some r =>
    rw [hplace] at h
    cases hbounds : inBounds index (σ.items r).length with
    | error e =>
      simp only [hbounds] at h
      cases h
    | ok i =>
      simp only [hbounds] at h
      cases h
      exact putsItem_setItem r i v

end Store

namespace Action

theorem puts_writeMember (c : Context) (target : Value) (name : String) (v : Value) :
    c.store.Puts name target (writeMember target name v c).2.store := by
  simp only [writeMember, memberAccessor, onStore, bind_apply]
  split
  · next h => exact Store.puts_setMember h
  · exact .same _

theorem puts_writeVariable (c : Context) {ref : VarRef} (hscope : ref.scope = .global) (v : Value) :
    c.store.Puts ref.name c.scopes.globals.top.model (writeVariable ref v c).2.store := by
  simp only [writeVariable, hscope, bind_apply, view]
  split
  · exact .same _
  · refine holds_after_bind
      (P := fun d => c.store.Puts ref.name c.scopes.globals.top.model d.store)
      (puts_writeMember c _ ref.name v) fun r d hd => ?_
    rcases r with (_ | _) | _ <;> exact hd

end Action

/-! ## Effects -/

/-- The value is a namespace, which keeps locks itself. -/
def Store.KeepsLocks (σ : Store) (v : Value) : Prop :=
  ∃ r f, v = .object r ∧ σ.cell? r = some (.names f)

/-- What is seen of the frames after a deed. -/
inductive Deed.Shows (v : ScopeView) : Deed → ScopeView → Prop
  | same {d : Deed} {w : ScopeView} : d.LeavesLoops → w.locals = v.locals → w.loops = v.loops →
    Shows v d w
  | assignsLocal {ref : VarRef} {f : Frame} (x : Value) : ref.scope = .locals →
    v.locals.head? = some f → f.isReadOnly ref.name = false →
    Shows v (.write ref x) (v.withLocal (f.define ref.name x false))
  | assignsLoop {ref : VarRef} {f : Frame} (x : Value) : ref.scope = .loop →
    v.loop? = some f → f.isReadOnly ref.name = false →
    Shows v (.write ref x) (v.withLoop (f.define ref.name x false))
  | locksLocal {ref : VarRef} {f : Frame} (readOnly : Bool) : ref.scope = .locals →
    v.locals.head? = some f →
    Shows v (.lock ref readOnly) (v.withLocal (f.setReadOnly ref.name readOnly))
  | locksLoop {ref : VarRef} {f : Frame} (readOnly : Bool) : ref.scope = .loop →
    v.loop? = some f →
    Shows v (.lock ref readOnly) (v.withLoop (f.setReadOnly ref.name readOnly))
  | opensLocal {d : Deed} {w : ScopeView} (f : Frame) : d.LeavesLoops →
    w.locals = f :: v.locals → w.loops = v.loops → Shows v d w
  | closesLocal {d : Deed} {w : ScopeView} : d.LeavesLoops → w.locals = v.locals.tail →
    w.locals ≠ [] → w.loops = v.loops → Shows v d w
  | beginsLoop {kind : LoopKind} (p : Position) : kind ≠ .bare →
    Shows v (.beginLoop kind p) ((v.looping p).withLoop v.inherited)
  | beginsBare (p : Position) : Shows v (.beginLoop .bare p) (v.looping p)
  | endsLoop {w : ScopeView} : w.locals = v.locals → w.loops = v.loops.tail → Shows v .endLoop w
  | bindsRound {f : Frame} {item : Value × Nat} (name : String) (length : Nat) (info : Value) :
    v.loop? = some f →
    Shows v (.bindRound name length item)
      (v.withLoop ((f.define name item.1 true).define "loop" info true))

/-- The models after a deed, innermost first. -/
inductive Deed.Models (c : Context) : Deed → List GlobalFrame → Prop
  | same {d : Deed} {gs : List GlobalFrame} : gs = c.scopes.globals.toList → Models c d gs
  | opens (model : Value) : Models c (.openModel model) (⟨model, []⟩ :: c.scopes.globals.toList)
  | closes {g : GlobalFrame} {rest : List GlobalFrame} : c.scopes.globals.toList = g :: rest →
    rest ≠ [] → Models c .closeModel rest
  | locks {ref : VarRef} {g : GlobalFrame} {rest : List GlobalFrame} (readOnly : Bool) :
    ref.scope = .global → c.scopes.globals.toList = g :: rest → ¬ c.store.KeepsLocks g.model →
    Models c (.lock ref readOnly)
      (⟨g.model, if readOnly then ref.name :: g.readOnly.filter (· ≠ ref.name)
        else g.readOnly.filter (· ≠ ref.name)⟩ :: rest)

/-- What places hold after a deed. -/
inductive Deed.Stores (c : Context) : Deed → Store → Prop
  | adds {d : Deed} {τ : Store} : c.store.Adds τ → Stores c d τ
  | writes {ref : VarRef} {τ : Store} (v : Value) : ref.scope = .global →
    c.store.Puts ref.name c.scopes.globals.top.model τ → Stores c (.write ref v) τ
  | puts {object : Value} {name : String} {target : Expr} {p : Position} {τ : Store} (v : Value) :
    c.store.Puts name object τ → Stores c (.put (.member object name target p) v) τ
  | putsItem {place : Place} {τ : Store} (v : Value) : c.store.PutsItem τ →
    Stores c (.put place v) τ
  | locks {ref : VarRef} {r : Ref} {f : Frame} (readOnly : Bool) : ref.scope = .global →
    c.scopes.globals.top.model = .object r → c.store.cell? r = some (.names f) →
    Stores c (.lock ref readOnly) (c.store.put r (.names (f.setReadOnly ref.name readOnly)))
  | changes (f : Store → Store) : Stores c (.change f) (f c.store)

/-- What a deed does to a context. -/
structure Deed.Effects (d : Deed) (c e : Context) : Prop where
  tidy : e.scopes.Tidy
  shows : d.Shows c.scopes.view e.scopes.view
  models : d.Models c e.scopes.globals.toList
  stores : d.Stores c e.store

namespace Deed.Effects

variable {d : Deed} {c e : Context}

/-- The scopes are left as they are, but for rounds that are counted. -/
theorem of_scopes (h : c.scopes.Tidy) (hd : d.LeavesLoops) {n : Nat}
    (hscopes : e.scopes = { c.scopes with iterations := n })
    (hstores : d.Stores c e.store) : d.Effects c e := by
  refine ⟨?_, ?_, ?_, hstores⟩
  · rw [hscopes]
    exact h
  · rw [hscopes]
    exact .same hd rfl rfl
  · rw [hscopes]
    exact .same rfl

/-- Nothing is done. -/
theorem none (h : c.scopes.Tidy) (hd : d.LeavesLoops) : d.Effects c c :=
  of_scopes h hd rfl (.adds (.refl _))

/-- Only what frames bind has changed. -/
theorem of_frames (htidy : e.scopes.Tidy) (hshows : d.Shows c.scopes.view e.scopes.view)
    (hmodels : e.scopes.globals = c.scopes.globals) (hstore : e.store = c.store) :
    d.Effects c e :=
  ⟨htidy, hshows, .same (congrArg Stack.toList hmodels), .adds (hstore ▸ .refl _)⟩

end Deed.Effects

theorem Stack.toList_modifyTop {α : Type} (s : Stack α) (f : α → α) :
    (s.modifyTop f).toList = f s.top :: s.toList.tail := by
  obtain ⟨ground, above⟩ := s
  cases above <;> rfl

namespace Scopes

theorem head?_view_locals (s : Scopes) : s.view.locals.head? = some s.localFrame := by
  rw [view_locals]
  rfl

theorem globals_setLoopFrame (s : Scopes) (f : Frame) :
    (s.setLoopFrame f).globals = s.globals := by
  rw [setLoopFrame_eq]

end Scopes

/-! ## Each deed -/

namespace Deed

variable {c : Context} (h : c.scopes.Tidy)

include h

theorem effects_work {x : Action Unit} (hx : x.Lasting) : (work x hx).Effects c (x c).2 :=
  .of_scopes h trivial (hx c).scopes (.adds (hx c).store)

theorem effects_write (ref : VarRef) (v : Value) :
    (write ref v).Effects c (writeVariable ref v c).2 := by
  cases hscope : ref.scope with
  | global =>
    refine .of_scopes (n := c.scopes.iterations) h trivial ?_
      (.writes v hscope (puts_writeVariable c hscope v))
    exact scopes_of_unaware (quiet_writeVariable ref v) (unaware_writeVariable hscope v) c
  | locals =>
    simp only [writeVariable, hscope, bind_apply, view]
    cases hset : c.scopes.localFrame.set ref.name v with
    | error e => exact .none h trivial
    | ok g =>
      obtain ⟨hfree, rfl⟩ := Frame.set_eq_ok_iff.1 hset
      refine .of_frames (h.setLocalFrame _) ?_ rfl rfl
      simp only [Action.modify]
      rw [h.view_setLocalFrame]
      exact .assignsLocal v hscope c.scopes.head?_view_locals hfree
  | loop =>
    simp only [writeVariable, hscope, bind_apply, view]
    cases hframe : c.scopes.loopFrame? with
    | none => exact .none h trivial
    | some f =>
      dsimp only
      cases hset : f.set ref.name v with
      | error e => exact .none h trivial
      | ok g =>
        obtain ⟨hfree, rfl⟩ := Frame.set_eq_ok_iff.1 hset
        refine .of_frames (h.setLoopFrame _) ?_ (Scopes.globals_setLoopFrame _ _) rfl
        simp only [Action.modify]
        rw [h.view_setLoopFrame]
        exact .assignsLoop v hscope (by rw [← Scopes.loopFrame?_eq, hframe]) hfree

theorem effects_put (place : Place) (v : Value) :
    (put place v).Effects c (place.write v c).2 := by
  refine .of_scopes (n := c.scopes.iterations) h trivial
    (scopes_of_unaware (quiet_write v place) (unaware_write v place) c) ?_
  cases place with
  | member object name target p =>
    refine .puts v (holds_after_bind (P := fun d => c.store.Puts name object d.store)
      (puts_writeMember c object name v) fun r d hd => ?_)
    rcases r with (_ | _) | _ <;> exact hd
  | item accessor object index target p =>
    simp only [Place.write, tryStore]
    cases hset : accessor.set c.store object index v with
    | error e => exact .adds (.refl _)
    | ok τ => exact .putsItem v (Store.putsItem_setPosition hset)

theorem effects_lock (ref : VarRef) (readOnly : Bool) :
    (lock ref readOnly).Effects c (setReadOnly ref readOnly c).2 := by
  cases hscope : ref.scope with
  | global =>
    simp only [setReadOnly, hscope, Action.modify]
    have hflag (hfree : ¬ c.store.KeepsLocks c.scopes.globals.top.model) :
        (lock ref readOnly).Effects c
          { c with scopes := c.scopes.flagGlobal ref.name readOnly } := by
      refine ⟨h, .same trivial rfl rfl, ?_, .adds (.refl _)⟩
      change Models _ _ (c.scopes.globals.modifyTop _).toList
      rw [Stack.toList_modifyTop]
      exact .locks readOnly hscope (Scopes.toList_eq_top_cons _) hfree
    split
    · next store hkept =>
      split at hkept
      · next r hmodel =>
        unfold Store.objectSetReadOnly? at hkept
        split at hkept
        · next f hcell =>
          cases hkept
          exact .of_scopes (n := c.scopes.iterations) h trivial rfl
            (.locks readOnly hscope hmodel hcell)
        · cases hkept
      · cases hkept
    · next hkept =>
      refine hflag ?_
      rintro ⟨r, f, hmodel, hcell⟩
      simp [hmodel, Store.objectSetReadOnly?, hcell] at hkept
  | locals =>
    simp only [setReadOnly, hscope, Action.modify]
    refine .of_frames (h.setLocalFrame _) ?_ rfl rfl
    rw [h.view_setLocalFrame]
    exact .locksLocal readOnly hscope c.scopes.head?_view_locals
  | loop =>
    simp only [setReadOnly, hscope, bind_apply, view]
    cases hframe : c.scopes.loopFrame? with
    | none => exact .none h trivial
    | some f =>
      refine .of_frames (h.setLoopFrame _) ?_ (Scopes.globals_setLoopFrame _ _) rfl
      simp only [Action.modify]
      rw [h.view_setLoopFrame]
      exact .locksLoop readOnly hscope (by rw [← Scopes.loopFrame?_eq, hframe])

theorem effects_openModel (model : Value) :
    (openModel model).Effects c (pushGlobal model c).2 := by
  unfold pushGlobal
  split
  · exact .none h trivial
  · refine ⟨h.pushGlobal model, ?_, .opens model, .adds (.refl _)⟩
    simp only [Action.modify]
    rw [h.view_pushGlobal]
    exact .opensLocal .empty trivial rfl rfl

theorem effects_closeModel : closeModel.Effects c (popGlobal c).2 := by
  unfold popGlobal
  split
  · next model s hpop =>
    unfold Scopes.popGlobal? at hpop
    split at hpop
    · next g globals i locals hg hl =>
      cases hpop
      rw [Stack.pop?_eq_some_iff] at hg hl
      obtain ⟨htidy, hview⟩ := h.release hl
      have hlocals := congrArg ScopeView.locals hview
      have hloops := congrArg ScopeView.loops hview
      refine ⟨htidy, .closesLocal trivial hlocals ?_ hloops, ?_, .adds (.refl _)⟩
      · exact Scopes.locals_ne_nil _
      · refine .closes (g := g) ?_ (by simp [Stack.toList])
        rw [hg, Stack.toList_push]
    · cases hpop
  · exact .none h trivial

theorem effects_beginCall (p : Position) (names : List String) (args : List Value) :
    (beginCall p names args).Effects c (Action.beginCall p names args c).2 := by
  by_cases hdepth : c.scopes.depth < c.limits.depth
  · let s : Scopes := { c.scopes.pushLocal with depth := c.scopes.depth + 1 }
    have henter : enterFunction p c = (.ok (), { c with scopes := s }) := by
      unfold enterFunction
      rw [if_pos hdepth]
    have htidy : s.Tidy := h.pushLocal
    have hbind := TemplateEngine.bindParams_eq (c := { c with scopes := s }) htidy names args
    rw [Action.beginCall, bind_of_ok henter, hbind]
    refine .of_frames (htidy.setLocalFrame _) ?_ rfl rfl
    rw [htidy.view_setLocalFrame, h.view_enter]
    exact .opensLocal _ trivial rfl rfl
  · have henter : enterFunction p c =
        (.error (.script p (.recursionLimit c.limits.depth)), c) := by
      unfold enterFunction
      rw [if_neg hdepth]
    rw [Action.beginCall, bind_of_error henter]
    exact .none h trivial

theorem effects_endCall : endCall.Effects c (exitFunction c).2 := by
  unfold exitFunction
  split
  · exact .none h trivial
  · split
    · next s hpop =>
      unfold Scopes.popLocal? at hpop
      split at hpop
      · next i locals hl =>
        cases hpop
        rw [Stack.pop?_eq_some_iff] at hl
        obtain ⟨htidy, hview⟩ := h.release hl
        have hlocals := congrArg ScopeView.locals hview
        have hloops := congrArg ScopeView.loops hview
        exact .of_frames htidy (.closesLocal trivial hlocals (Scopes.locals_ne_nil _) hloops) rfl
          rfl
      · cases hpop
    · exact .none h trivial

theorem effects_beginLoop (kind : LoopKind) (p : Position) :
    (beginLoop kind p).Effects c ((beginLoop kind p).act c).2 := by
  by_cases hkind : kind = .bare
  · subst hkind
    refine .of_frames (h.pushLoop p) ?_ rfl rfl
    change Shows _ _ (c.scopes.pushLoop p).view
    rw [h.view_pushLoop]
    exact .beginsBare p
  · rw [Trail.act_beginLoop hkind]
    obtain ⟨htidy, hview⟩ := h.inherit p
    refine .of_frames htidy ?_ ?_ rfl
    · change Shows _ _ (c.scopes.pushLoop p).inheritLoop.view
      rw [hview]
      exact .beginsLoop p hkind
    · change (c.scopes.pushLoop p).inheritLoop.globals = _
      rw [Scopes.inherit_eq]

theorem effects_endLoop : endLoop.Effects c (exitLoop c).2 := by
  unfold exitLoop
  split
  · next s hpop =>
    have hne : c.scopes.view.loops ≠ [] := by
      unfold Scopes.popLoop? at hpop
      split at hpop
      · cases hpop
      · next hl => simp [Scopes.view, hl]
    obtain ⟨t, ht, htidy, hrest, hview⟩ := h.popLoop hne
    obtain rfl := Option.some.inj (hpop.symm.trans ht)
    refine .of_frames htidy (hview ▸ .endsLoop rfl rfl) ?_ rfl
    change s.globals = _
    rw [hrest]
  · next hpop =>
    have hnone : c.scopes.view.loops = [] := by
      unfold Scopes.popLoop? at hpop
      split at hpop
      · next hl => simp [Scopes.view, hl]
      · cases hpop
    exact .of_frames h (.endsLoop rfl (by rw [hnone]; rfl)) rfl rfl

theorem effects_bindRound (name : String) (length : Nat) (item : Value × Nat) :
    (bindRound name length item).Effects c (Machine.bindRound name length item c).2 := by
  cases hframe : c.scopes.loopFrame? with
  | none =>
    have hbind : bindLoop name item.1 c = (.error .noLoopFrame, c) := by
      unfold bindLoop
      rw [hframe]
    rw [Machine.bindRound, bind_of_error hbind]
    exact .none h trivial
  | some f =>
    have hloop : c.scopes.view.loop? = some f := by rw [← Scopes.loopFrame?_eq, hframe]
    let s := c.scopes.setLoopFrame (f.define name item.1 true)
    let σ := (c.store.alloc (.entries (Machine.loopEntries item.2 length))).2
    have htidy : s.Tidy := h.setLoopFrame _
    have hview : s.view = c.scopes.view.withLoop (f.define name item.1 true) :=
      h.view_setLoopFrame _
    have hnext : s.loopFrame? = some (f.define name item.1 true) := by
      rw [Scopes.loopFrame?_eq, hview, ScopeView.loop?_withLoop, hloop, Option.map_some]
    have hbound : Machine.bindRound name length item c = (.ok (), { c with
        store := σ
        scopes := s.setLoopFrame
          ((f.define name item.1 true).define "loop" (.map c.store.cells.size) true) }) := by
      have hitem : bindLoop name item.1 c = (.ok (), { c with scopes := s }) := by
        unfold bindLoop
        rw [hframe]
      rw [Machine.bindRound, bind_of_ok hitem]
      simp only [bindLoop, bind_apply, onStore, hnext]
      rfl
    rw [hbound]
    refine ⟨htidy.setLoopFrame _, ?_, ?_, .adds (.alloc _ _)⟩
    · dsimp only
      rw [htidy.view_setLoopFrame, hview, ScopeView.withLoop_withLoop]
      exact .bindsRound name length _ hloop
    · dsimp only [s]
      rw [Scopes.globals_setLoopFrame, Scopes.globals_setLoopFrame]
      exact .same rfl

/-- What a deed does, whichever it is. -/
theorem effects (d : Deed) : d.Effects c (d.act c).2 := by
  cases d with
  | work x hx => exact effects_work h hx
  | write ref v => exact effects_write h ref v
  | put place v => exact effects_put h place v
  | lock ref readOnly => exact effects_lock h ref readOnly
  | openModel model => exact effects_openModel h model
  | closeModel =>
    have hclose : (closeModel.act c).2 = (popGlobal c).2 :=
      Trail.snd_bind_pure popGlobal (fun _ => ()) c
    rw [hclose]
    exact effects_closeModel h
  | beginCall p names args => exact effects_beginCall h p names args
  | endCall => exact effects_endCall h
  | beginLoop kind p => exact effects_beginLoop h kind p
  | endLoop => exact effects_endLoop h
  | bindRound name length item => exact effects_bindRound h name length item
  | change f =>
    exact ⟨h, .same trivial rfl rfl, .same rfl, .changes f⟩

end Deed

/-- Whatever is done, the frames in use are handed out once each. -/
theorem Context.tidy_after {c : Context} (h : c.scopes.Tidy) (ds : List Deed) :
    (c.after ds).scopes.Tidy := by
  induction ds generalizing c with
  | nil => exact h
  | cons d rest ih => exact ih (d.effects h).tidy

end TemplateEngine
