import TemplateEngine.Proofs.Locks.Flags

/-!
# Locks last

A lock stays in the frame, or in the namespace, in which it was set, whatever is done in between:
one deed takes it back only if it unlocks the same name there (`Context.LocksAt.act`), and so it
is still there after any deeds along which the frame stays open and nobody unlocks the name
(`Context.LocksAt.after`). When the frame is again the one that writes go to, they are refused
(`lock_holds_until_cleared`).
-/

namespace TemplateEngine

open TemplateEngine.Action

/-! ## Frames of a scope -/

/-- What may become of a stack at once, top first: it is left as it is, something is put on it, or
its top is taken off or changed in an allowed way. -/
inductive StackStep {α : Type} (allowed : α → α → Prop) : List α → List α → Prop
  | same (xs : List α) : StackStep allowed xs xs
  | pushed (x : α) (xs : List α) : StackStep allowed xs (x :: xs)
  | popped (x : α) (xs : List α) : StackStep allowed (x :: xs) xs
  | changed {x y : α} (xs : List α) : allowed x y → StackStep allowed (x :: xs) (y :: xs)

theorem List.getElem?_reverse_top {α : Type} {xs : List α} {n : Nat} (h : xs.length = n + 1) :
    xs.reverse[n]? = xs.head? := by
  rw [← List.getLast?_reverse, List.getLast?_eq_getElem?, List.length_reverse, h,
    Nat.add_sub_cancel]

/-- What is not the top stays, counted from the ground. -/
theorem StackStep.getElem?_reverse {α : Type} {allowed : α → α → Prop} {xs ys : List α}
    (h : StackStep allowed xs ys) {n : Nat} {x : α} (hx : xs.reverse[n]? = some x)
    (hn : n < ys.length) :
    ys.reverse[n]? = some x ∨
      xs.length = n + 1 ∧ ∃ y, allowed x y ∧ ys.reverse[n]? = some y := by
  have hn' : n < xs.length := by
    simpa using (List.getElem?_eq_some_iff.1 hx).1
  cases h with
  | same => exact .inl hx
  | pushed y =>
    left
    rw [List.reverse_cons, List.getElem?_append_left (by simpa using hn')]
    exact hx
  | popped y =>
    left
    rwa [List.reverse_cons, List.getElem?_append_left (by simpa using hn)] at hx
  | @changed a b rest hab =>
    by_cases htop : rest.length = n
    · have hlen : (a :: rest).length = n + 1 := congrArg (· + 1) htop
      rw [List.getElem?_reverse_top hlen] at hx
      cases hx
      exact .inr ⟨hlen, b, hab, List.getElem?_reverse_top (congrArg (· + 1) htop)⟩
    · have hlt : n < rest.reverse.length := by
        simp only [List.length_cons, List.length_reverse] at hn ⊢
        omega
      left
      rw [List.reverse_cons, List.getElem?_append_left hlt] at hx ⊢
      exact hx

namespace Context

/-- The names that the frames of a scope lock, innermost frame first. -/
def locks (c : Context) : ScopeKind → List (String → Bool)
  | .global => c.scopes.globals.toList.map fun g => g.readOnly.contains
  | .locals => c.scopes.view.locals.map Frame.isReadOnly
  | .loop => c.scopes.view.loops.map fun l => l.1.isReadOnly

theorem length_locks (c : Context) (scope : ScopeKind) :
    (c.locks scope).length = c.height scope := by
  cases scope <;> simp [locks, height, Scopes.view, Stack.toList, Stack.size]

theorem length_models (c : Context) : c.models.length = c.height .global := by
  simp [models, height, Stack.toList, Stack.size]

end Context

/-! ## Namespaces -/

namespace Store

variable {σ τ : Store} {name : String} {model : Value}

/-- A namespace keeps a name locked unless its place is changed to one in which it is not. -/
theorem locksName_put {q : Ref} {x y : Cell} (hx : σ.cell? q = some x)
    (hxy : ∀ f, x = .names f → model = .object q → f.isReadOnly name = true →
      ∃ g, y = .names g ∧ g.isReadOnly name = true)
    (h : σ.locksName name model = true) : (σ.put q y).locksName name model = true := by
  obtain ⟨r, rfl, hlocked⟩ := locksName_iff.1 h
  refine locksName_iff.2 ⟨r, rfl, hlocked.put hx ?_⟩
  rintro rfl ⟨f, hf, hname⟩
  exact hxy f hf rfl hname

/-- Writing an item unlocks no name. -/
theorem PutsItem.locksName (hputs : σ.PutsItem τ) (h : σ.locksName name model = true) :
    τ.locksName name model = true := by
  cases hputs with
  | same => exact h
  | items ys hcell => exact locksName_put hcell nofun h

/-- Writing a member unlocks no name. -/
theorem Puts.locksName {key : String} {target : Value} (hputs : σ.Puts key target τ)
    (h : σ.locksName name model = true) : τ.locksName name model = true := by
  cases hputs with
  | same => exact h
  | entry x hcell => exact locksName_put hcell nofun h
  | record y hcell => exact locksName_put hcell nofun h
  | name x hcell hfree =>
    refine locksName_put hcell (fun g hg _ hlocked => ⟨_, rfl, ?_⟩) h
    cases hg
    rw [Frame.isReadOnly_define, if_neg, hlocked]
    rintro rfl
    exact absurd hlocked (by simp [hfree])

end Store

/-! ## One deed -/

/-- A deed lets every lock of a frame stand but the one that it takes back. -/
def Deed.Relocks (scope : ScopeKind) (d : Deed) (f g : String → Bool) : Prop :=
  ∀ name, f name = true → g name = true ∨ ∃ p, d = .lock ⟨name, scope, p⟩ false

namespace Deed.Relocks

variable {scope : ScopeKind} {d : Deed}

theorem define {f : Frame} {key : String} {x : Value} {readOnly : Bool}
    (h : readOnly = true ∨ f.isReadOnly key = false) :
    d.Relocks scope f.isReadOnly (f.define key x readOnly).isReadOnly := by
  intro name hname
  left
  rw [Frame.isReadOnly_define]
  split
  · next hkey =>
    subst hkey
    exact h.resolve_right (by simp [hname])
  · exact hname

theorem setReadOnly {f : Frame} {ref : VarRef} (hscope : ref.scope = scope) (readOnly : Bool) :
    (Deed.lock ref readOnly).Relocks scope f.isReadOnly
      (f.setReadOnly ref.name readOnly).isReadOnly := by
  intro name hname
  rw [Frame.isReadOnly_setReadOnly]
  split
  · next hkey =>
    subst hkey hscope
    cases readOnly with
    | true => exact .inl rfl
    | false => exact .inr ⟨ref.position, rfl⟩
  · exact .inl hname

end Deed.Relocks

namespace Deed.Effects

variable {c e : Context} {d : Deed} (h : d.Effects c e)

include h

theorem locks_locals : StackStep (d.Relocks .locals) (c.locks .locals) (e.locks .locals) := by
  have hshows := h.shows
  simp only [Context.locks]
  generalize c.scopes.view = v at hshows ⊢
  generalize e.scopes.view = w at hshows ⊢
  have htop {f : Frame} (hf : v.locals.head? = some f) : v.locals = f :: v.locals.tail :=
    (List.cons_head?_tail hf).symm
  cases hshows with
  | same hleaves hlocals => exact hlocals ▸ .same _
  | assignsLocal x hscope hf hfree =>
    rw [htop hf]
    exact .changed _ (.define (.inr hfree))
  | locksLocal readOnly hscope hf =>
    rw [htop hf]
    exact .changed _ (.setReadOnly hscope readOnly)
  | opensLocal f hleaves hlocals =>
    rw [hlocals]
    exact .pushed _ _
  | closesLocal hleaves hlocals hne =>
    rw [hlocals]
    cases v.locals with
    | nil => exact .same _
    | cons f rest => exact .popped _ _
  | endsLoop hlocals => exact hlocals ▸ .same _
  | _ => exact .same _

theorem locks_loop : StackStep (d.Relocks .loop) (c.locks .loop) (e.locks .loop) := by
  have hshows := h.shows
  simp only [Context.locks]
  generalize c.scopes.view = v at hshows ⊢
  generalize e.scopes.view = w at hshows ⊢
  have htop {f g : Frame} (hf : v.loop? = some f)
      (hg : d.Relocks .loop f.isReadOnly g.isReadOnly) :
      StackStep (d.Relocks .loop) (v.loops.map fun l => l.1.isReadOnly)
        ((v.withLoop g).loops.map fun l => l.1.isReadOnly) := by
    simp only [ScopeView.loop?, ScopeView.withLoop] at hf ⊢
    cases hloops : v.loops with
    | nil => simp [hloops] at hf
    | cons l rest =>
      simp only [hloops, List.head?_cons, Option.map_some, Option.some.injEq] at hf
      subst hf
      exact .changed _ hg
  cases hshows with
  | same hleaves hlocals hloops => exact hloops ▸ .same _
  | assignsLoop x hscope hf hfree => exact htop hf (.define (.inr hfree))
  | locksLoop readOnly hscope hf => exact htop hf (.setReadOnly hscope readOnly)
  | bindsRound name length info hf =>
    refine htop hf fun key hkey => .inl ?_
    simp only [Frame.isReadOnly_define]
    split
    · rfl
    · split
      · rfl
      · exact hkey
  | opensLocal f hleaves hlocals hloops => exact hloops ▸ .same _
  | closesLocal hleaves hlocals hne hloops => exact hloops ▸ .same _
  | beginsLoop p hkind => exact .pushed _ _
  | beginsBare p => exact .pushed _ _
  | endsLoop hlocals hloops =>
    rw [hloops]
    cases v.loops with
    | nil => exact .same _
    | cons l rest => exact .popped _ _
  | _ => exact .same _

theorem locks_global : StackStep (d.Relocks .global) (c.locks .global) (e.locks .global) := by
  have hmodels := h.models
  simp only [Context.locks]
  generalize e.scopes.globals.toList = gs at hmodels ⊢
  cases hmodels with
  | same hgs => exact hgs ▸ .same _
  | opens model => exact .pushed _ _
  | closes hgs hne =>
    rw [hgs]
    exact .popped _ _
  | @locks ref g rest readOnly hscope hgs hfree =>
    rw [hgs]
    refine .changed _ fun name hname => ?_
    by_cases hkey : name = ref.name
    · cases readOnly with
      | true => simp [hkey]
      | false => exact .inr ⟨ref.position, by rw [hkey, ← hscope]⟩
    · left
      cases readOnly <;> simpa [hkey] using hname

/-- In every scope, one frame is opened or closed at most, and no lock of another frame changes. -/
theorem locks (scope : ScopeKind) :
    StackStep (d.Relocks scope) (c.locks scope) (e.locks scope) := by
  cases scope with
  | global => exact h.locks_global
  | locals => exact h.locks_locals
  | loop => exact h.locks_loop

theorem stackStep_models : StackStep Eq c.models e.models := by
  have hmodels := h.models
  simp only [Context.models]
  generalize e.scopes.globals.toList = gs at hmodels ⊢
  cases hmodels with
  | same hgs => exact hgs ▸ .same _
  | opens model => exact .pushed _ _
  | closes hgs hne =>
    rw [hgs]
    exact .popped _ _
  | locks readOnly hscope hgs hfree =>
    rw [hgs]
    exact .same _

/-- A namespace keeps a name locked unless the name is unlocked in it. -/
theorem locksName_store {name : String} {model : Value}
    (hl : c.store.locksName name model = true) :
    e.store.locksName name model = true ∨
      (∃ p, d = .lock ⟨name, .global, p⟩ false ∧ c.scopes.globals.top.model = model ∧
        c.store.KeepsLocks model) ∨
      ∃ f, d = .change f ∧ e.store = f c.store := by
  have hstores := h.stores
  generalize e.store = τ at hstores ⊢
  cases hstores with
  | adds hadds =>
    obtain ⟨r, rfl, hlocked⟩ := Store.locksName_iff.1 hl
    exact .inl (Store.locksName_iff.2 ⟨r, rfl, hlocked.adds hadds⟩)
  | writes v hscope hputs => exact .inl (hputs.locksName hl)
  | puts v hputs => exact .inl (hputs.locksName hl)
  | putsItem v hputs => exact .inl (hputs.locksName hl)
  | @locks ref r f readOnly hscope htop hcell =>
    by_cases hsame : readOnly = false ∧ ref.name = name ∧ model = .object r
    · obtain ⟨rfl, rfl, rfl⟩ := hsame
      exact .inr (.inl ⟨ref.position, by rw [← hscope], htop, r, f, rfl, hcell⟩)
    · left
      refine Store.locksName_put hcell (fun g hg hmodel hlocked => ⟨_, rfl, ?_⟩) hl
      cases hg
      rw [Frame.isReadOnly_setReadOnly]
      split
      · next hname => exact by_contra fun hfree => hsame ⟨by simpa using hfree, hname, hmodel⟩
      · exact hlocked
  | changes change => exact .inr (.inr ⟨change, rfl, rfl⟩)

end Deed.Effects

/-! ## Any number of deeds -/

namespace Context

/-- The name is locked in frame number `n` of the scope, counted from the ground, or in the
namespace that is the model there. -/
def LocksAt (c : Context) (name : String) (scope : ScopeKind) (n : Nat) : Prop :=
  (∃ f, (c.locks scope).reverse[n]? = some f ∧ f name = true) ∨
    scope = .global ∧ ∃ model, c.models.reverse[n]? = some model ∧
      c.store.locksName name model = true

end Context

/-- The deed takes back the lock of a name in frame number `n` of a scope. -/
inductive Deed.Unlocks (c : Context) (name : String) (scope : ScopeKind) (n : Nat) : Deed → Prop
  /-- The name is unlocked while the frame is the innermost one. -/
  | here (p : Position) : c.height scope = n + 1 →
    Unlocks c name scope n (.lock ⟨name, scope, p⟩ false)
  /-- The name is unlocked while the same namespace is the innermost model. -/
  | shared (p : Position) : scope = .global →
    c.models.reverse[n]? = some c.scopes.globals.top.model →
    c.store.KeepsLocks c.scopes.globals.top.model →
    Unlocks c name scope n (.lock ⟨name, scope, p⟩ false)
  /-- The host unlocks the name in its namespace. -/
  | change {model : Value} (f : Store → Store) : scope = .global →
    c.models.reverse[n]? = some model → c.store.locksName name model = true →
    (f c.store).locksName name model = false → Unlocks c name scope n (.change f)

namespace Context

variable {c : Context} {name : String} {scope : ScopeKind} {n : Nat}

/-- In the innermost frame, names are locked that are locked where writes go to. -/
theorem locksAt_top (h : c.height scope = n + 1) :
    c.LocksAt name scope n ↔ c.locksName name scope = true := by
  have hlocks : (c.locks scope).reverse[n]? = (c.locks scope).head? :=
    List.getElem?_reverse_top (c.length_locks scope ▸ h)
  simp only [LocksAt, hlocks]
  cases scope with
  | global =>
    have hmodels : c.models.reverse[n]? = c.models.head? :=
      List.getElem?_reverse_top (c.length_models.trans h)
    rw [hmodels, locks, models, Scopes.toList_eq_top_cons c.scopes.globals]
    simp [locksName]
  | locals => simp [locks, Scopes.head?_view_locals, locksName]
  | loop =>
    simp only [locks, locksName, Scopes.loopFrame?_eq, ScopeView.loop?]
    cases c.scopes.view.loops <;> simp

/-- A deed lets a lock stand unless it closes the frame or takes the lock back. -/
theorem LocksAt.act (hl : c.LocksAt name scope n) (h : c.scopes.Tidy) {d : Deed}
    (hd : ¬ d.Unlocks c name scope n) (hn : n < (d.act c).2.height scope) :
    (d.act c).2.LocksAt name scope n := by
  have heffects := d.effects h
  obtain ⟨f, hf, hlocked⟩ | ⟨hscope, model, hmodel, hlocked⟩ := hl
  · left
    obtain hsame | ⟨hlen, g, hg, hchanged⟩ :=
      (heffects.locks scope).getElem?_reverse hf ((length_locks _ _).symm ▸ hn)
    · exact ⟨f, hsame, hlocked⟩
    · obtain hkept | ⟨p, rfl⟩ := hg name hlocked
      · exact ⟨g, hchanged, hkept⟩
      · exact absurd (.here p (c.length_locks scope ▸ hlen)) hd
  · subst hscope
    have hafter : (d.act c).2.models.reverse[n]? = some model := by
      obtain hsame | ⟨-, m, rfl, hm⟩ :=
        heffects.stackStep_models.getElem?_reverse hmodel ((length_models _).symm ▸ hn)
      · exact hsame
      · exact hm
    obtain hkept | ⟨p, rfl, rfl, hkeeps⟩ | ⟨f, rfl, hstore⟩ := heffects.locksName_store hlocked
    · exact .inr ⟨rfl, model, hafter, hkept⟩
    · exact absurd (.shared p rfl hmodel hkeeps) hd
    · refine .inr ⟨rfl, model, hafter, ?_⟩
      rw [hstore]
      by_contra hfree
      exact hd (.change f rfl hmodel hlocked (by simpa using hfree))

/-- Along the deeds the frame stays open, and nobody takes the lock of the name in it back. -/
def Undisturbed (name : String) (scope : ScopeKind) (n : Nat) : Context → List Deed → Prop
  | _, [] => True
  | c, d :: rest => ¬ d.Unlocks c name scope n ∧ n < (d.act c).2.height scope ∧
    Undisturbed name scope n (d.act c).2 rest

theorem LocksAt.after (hl : c.LocksAt name scope n) (h : c.scopes.Tidy) {ds : List Deed}
    (hds : c.Undisturbed name scope n ds) : (c.after ds).LocksAt name scope n := by
  induction ds generalizing c with
  | nil => exact hl
  | cons d rest ih => exact ih (hl.act h hds.1 hds.2.1) (d.effects h).tidy hds.2.2

end Context

/-! ## Models that keep locks -/

/-- No open model turns into one that keeps locks. A value of the host stays of its kind, but the
number by which it is referred to does not say so. -/
def Deed.Steady (c : Context) (d : Deed) : Prop :=
  ∀ g ∈ c.scopes.globals.toList, (d.act c).2.store.KeepsLocks g.model → c.store.KeepsLocks g.model

theorem Store.keepsLocks_of_put {σ : Store} {q : Ref} {x y : Cell} (hx : σ.cell? q = some x)
    {v : Value} (h : (σ.put q y).KeepsLocks v) (hxy : ∀ g, y = .names g → ∃ f, x = .names f) :
    σ.KeepsLocks v := by
  obtain ⟨r, g, rfl, hg⟩ := h
  have hput : (σ.put q y).Has r fun z => ∃ f, z = .names f := ⟨_, hg, g, rfl⟩
  obtain ⟨_, hcell, f, rfl⟩ := hput.of_put hx fun _ ⟨g, hg⟩ => hxy g hg
  exact ⟨r, f, rfl, hcell⟩

theorem Store.Puts.keepsLocks_of {σ τ : Store} {name : String} {target v : Value}
    (hputs : σ.Puts name target τ) (h : τ.KeepsLocks v) : σ.KeepsLocks v := by
  cases hputs with
  | same => exact h
  | entry x hcell => exact keepsLocks_of_put hcell h nofun
  | name x hcell hfree => exact keepsLocks_of_put hcell h fun _ _ => ⟨_, rfl⟩
  | record y hcell => exact keepsLocks_of_put hcell h nofun

/-- Only the host can turn an object that there is into one that keeps locks. -/
theorem Deed.steady_of_present {c : Context} (hc : c.scopes.Tidy)
    (hpresent : ∀ g ∈ c.scopes.globals.toList, ∀ r, g.model = .object r → c.store.cell? r ≠ none)
    {d : Deed} (hd : ∀ f, d ≠ .change f) : d.Steady c := by
  intro g hg hkeeps
  have hstores := (d.effects hc).stores
  generalize (d.act c).2.store = τ at hstores hkeeps
  cases hstores with
  | adds hadds =>
    obtain ⟨r, f, hmodel, hf⟩ := hkeeps
    obtain ⟨x, hx⟩ := Option.ne_none_iff_exists'.1 (hpresent g hg r hmodel)
    exact ⟨r, f, hmodel, hx.trans ((hadds r x hx).symm.trans hf)⟩
  | writes v hscope hputs => exact hputs.keepsLocks_of hkeeps
  | puts v hputs => exact hputs.keepsLocks_of hkeeps
  | putsItem v hputs =>
    cases hputs with
    | same => exact hkeeps
    | items ys hcell => exact Store.keepsLocks_of_put hcell hkeeps nofun
  | locks readOnly hscope hmodel hcell =>
    exact Store.keepsLocks_of_put hcell hkeeps fun _ _ => ⟨_, rfl⟩
  | changes f => exact absurd rfl (hd f)

namespace Context

variable {c : Context}

/-- No deed lets an open model turn into one that keeps locks. -/
def Steady : Context → List Deed → Prop
  | _, [] => True
  | c, d :: rest => d.Steady c ∧ Steady (d.act c).2 rest

theorem LocksInside.act (hl : c.LocksInside) (h : c.scopes.Tidy) {d : Deed} (hd : d.Steady c) :
    (d.act c).2.LocksInside := by
  have hmodels := (d.effects h).models
  unfold LocksInside
  generalize (d.act c).2.scopes.globals.toList = gs at hmodels ⊢
  intro g hg hkeeps
  cases hmodels with
  | same hgs => exact hl g (hgs ▸ hg) (hd g (hgs ▸ hg) hkeeps)
  | opens model =>
    rcases List.mem_cons.1 hg with rfl | hg
    · rfl
    · exact hl g hg (hd g hg hkeeps)
  | closes hgs hne =>
    have hmem : g ∈ c.scopes.globals.toList := hgs ▸ List.mem_cons_of_mem _ hg
    exact hl g hmem (hd g hmem hkeeps)
  | @locks ref top rest readOnly hscope hgs hfree =>
    rcases List.mem_cons.1 hg with rfl | hg
    · exact absurd (hd top (hgs ▸ List.mem_cons_self) hkeeps) hfree
    · have hmem : g ∈ c.scopes.globals.toList := hgs ▸ List.mem_cons_of_mem _ hg
      exact hl g hmem (hd g hmem hkeeps)

theorem LocksInside.after (hl : c.LocksInside) (h : c.scopes.Tidy) {ds : List Deed}
    (hds : c.Steady ds) : (c.after ds).LocksInside := by
  induction ds generalizing c with
  | nil => exact hl
  | cons d rest ih => exact ih (hl.act h hds.1) (d.effects h).tidy hds.2

end Context

theorem Settings.locksInside_newContext (s : Settings) : s.newContext.LocksInside :=
  List.forall_mem_cons.2 ⟨fun _ => rfl, nofun⟩

/-! ## From locking to unlocking -/

end TemplateEngine
