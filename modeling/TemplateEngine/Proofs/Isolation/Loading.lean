import TemplateEngine.Proofs.Isolation.Primitives

/-!
# Loading templates in two runs

A template that is loaded twice gives the same statements with other numbers. So it makes no
difference whether the first run finds a template that was kept or loads it as the second run does:
the numbers of the kept template have not been paired before, and are paired now.
-/

namespace TemplateEngine

open TemplateEngine.Action

variable {s : Settings} {gap : Nat} {w v : Pairing} {name : String} {t t₀ : Template} {n : Nat}
  {ts us : Dictionary Template}

/-- A template takes at least one number. -/
theorem Template.lt_identify (t : Template) (n : Nat) : n < (t.identify n).2 :=
  (numbers_identifyBlock (n + 1) (n + 1) t.body).le

/-- A template numbered twice is alike as soon as its numbers are paired. -/
theorem Template.alike_identify (w : Pairing) (t : Template) (n n' : Nat) :
    (t.identify n).1.Alike (w.withIdentities n (t.identify n).2 n') (t.identify n').1 :=
  (t.numbers_identify n n').paired _ fun _ _ hn hm hij => .inr ⟨hn, hm, hij⟩

/-! ## What is kept -/

/-- Keeping one more template that was numbered now. -/
theorem Loaded.insert (h : Loaded s n ts) {loader : Loader} (hloader : s.loader = some loader)
    (hload : loader.load name s.options = .ok t₀) :
    Loaded s (t₀.identify n).2 (ts.insert name (t₀.identify n).1) where
  load {a t} ht := by
    rw [Dictionary.get?_insert] at ht
    split at ht
    · next he =>
      cases ht
      exact ⟨loader, t₀, hloader, he ▸ hload, rfl⟩
    · exact h.load ht
  owns_lt {a t i} ht hi := by
    rw [Dictionary.get?_insert] at ht
    split at ht
    · cases ht
      exact ((t₀.owns_identify n i).1 hi).2
    · have := h.owns_lt ht hi
      have := t₀.lt_identify n
      omega
  apart {a b t u i} ht hu hi hi' := by
    rw [Dictionary.get?_insert] at ht hu
    split at ht <;> split at hu
    · next ha hb => exact ha.symm.trans hb
    · cases ht
      have := h.owns_lt hu hi'
      have := (t₀.owns_identify n i).1 hi
      omega
    · cases hu
      have := h.owns_lt ht hi
      have := (t₀.owns_identify n i).1 hi'
      omega
    · exact h.apart ht hu hi hi'

/-- Both runs keep one more template. -/
theorem LoadedAlike.insert (h : LoadedAlike w ts us) {t u : Template} (htu : t.Alike w u) :
    LoadedAlike w (ts.insert name t) (us.insert name u) where
  alike {a x} hx := by
    rw [Dictionary.get?_insert] at hx ⊢
    split at hx
    · next he =>
      cases hx
      exact ⟨t, by rw [if_pos he], htu⟩
    · next he =>
      rw [if_neg he]
      exact h.alike hx
  unpaired {a x i j} hx hu hi := by
    rw [Dictionary.get?_insert] at hx hu
    split at hu
    · cases hu
    · next he =>
      rw [if_neg he] at hx
      exact h.unpaired hx hu hi

/-- The second run keeps a template that the first one has kept before, whose numbers are paired as
it does so. -/
theorem LoadedAlike.catchUp (h : LoadedAlike w ts us) (hle : w ≤ v) {u : Template}
    (ht : ts.get? name = some t) (htu : t.Alike v u)
    (hnew : ∀ i j, v.identity i j → w.identity i j ∨ t.Owns i)
    (hapart : ∀ {a x i}, ts.get? a = some x → x.Owns i → t.Owns i → a = name) :
    LoadedAlike v ts (us.insert name u) where
  alike {a x} hx := by
    rw [Dictionary.get?_insert] at hx
    split at hx
    · next he =>
      cases hx
      exact ⟨t, he ▸ ht, htu⟩
    · obtain ⟨y, hy, hyx⟩ := h.alike hx
      exact ⟨y, hy, hyx.mono hle⟩
  unpaired {a x i j} hx hu hi hij := by
    rw [Dictionary.get?_insert] at hu
    split at hu
    · cases hu
    · next he =>
      rcases hnew i j hij with hij | hown
      · exact h.unpaired hx hu hi hij
      · exact he (hapart hx hi hown).symm

/-! ## Loading -/

variable {c d : Context} {loader : Loader} (h : Context.Alike s gap w c d)
  (hloader : s.loader = some loader) (hload : loader.load name s.options = .ok t₀)

include h

/-- The context after a template was loaded into it, with numbers of its own. -/
def Context.keep (c : Context) (name : String) (t₀ : Template) : Context :=
  { c with
    store := ⟨c.store.cells, (t₀.identify c.store.nextIdentity).2⟩
    templates := c.templates.insert name (t₀.identify c.store.nextIdentity).1 }

include hloader hload in
/-- Both runs load the template. -/
theorem ends_loadBoth :
    Ends s gap w Template.Alike c
      (.ok (t₀.identify c.store.nextIdentity).1, c.keep name t₀)
      (.ok (t₀.identify d.store.nextIdentity).1, d.keep name t₀) := by
  have hnumbers := t₀.numbers_identify c.store.nextIdentity d.store.nextIdentity
  have hstep := h.store.number hnumbers.le hnumbers.even
  have halike := t₀.alike_identify w c.store.nextIdentity d.store.nextIdentity
  have hcd := h.onStore hstep
  have hstill : c.Still (c.keep name t₀) := rfl
  exact .alike _ hstep.grows
    { hcd with
      left := { hcd.left with }
      right := { hcd.right with }
      loaded := h.loaded.insert hloader hload
      templates := hcd.templates.insert halike }
    hstill.kept.extends (.ok halike)

/-- The first run has kept the template, and the second one loads it. -/
theorem ends_loadAgain (hload : (t₀.identify t.identity).1 = t)
    (ht : c.templates.get? name = some t) (hu : d.templates.get? name = none) :
    Ends s gap w Template.Alike c (.ok t, c)
      (.ok (t₀.identify d.store.nextIdentity).1, d.keep name t₀) := by
  have howns : ∀ i, t.Owns i ↔ t.identity ≤ i ∧ i < (t₀.identify t.identity).2 := fun i => by
    have := t₀.owns_identify t.identity i
    rwa [hload] at this
  have hnumbers := t₀.numbers_identify t.identity d.store.nextIdentity
  have hle := w.le_withIdentities t.identity (t₀.identify t.identity).2 d.store.nextIdentity
  have halike := t₀.alike_identify w t.identity d.store.nextIdentity
  have hbelow : (t₀.identify t.identity).2 ≤ c.store.nextIdentity := by
    have hlt := t₀.lt_identify t.identity
    have := h.loaded.owns_lt ht ((howns ((t₀.identify t.identity).2 - 1)).2 (by omega))
    omega
  have hstore : c.store.Alike _ ⟨d.store.cells, (t₀.identify d.store.nextIdentity).2⟩ :=
    h.store.withIdentities (fun i j hn hm => h.templates.unpaired ht hu ((howns i).2 ⟨hn, hm⟩))
      (fun i j hj hij => absurd (h.store.identity_lt hij).2 (Nat.not_lt.2 hj)) (Nat.le_refl _)
      hbelow (Nat.le_of_lt (t₀.lt_identify _)) (Nat.le_of_eq hnumbers.even)
  rw [hload] at halike
  exact .alike _ ⟨hle, Nat.le_refl _, Nat.le_refl _, .inl, fun _ _ => rfl⟩
    { h with
      right := { h.right with }
      store := hstore
      scopes := h.scopes.mono hle
      templates := h.templates.catchUp hle ht halike
        (fun i j hij => hij.imp_right fun hi => (howns i).2 ⟨hi.1, hi.2.1⟩)
        fun hx hi hown => h.loaded.apart hx ht hi hown }
    (.refl c) (.ok halike)

/-- Loading ends alike, whatever was loaded before. -/
theorem ends_loadTemplate (path : String) (p : Position) :
    Ends s gap w Template.Alike c (loadTemplate path p c) (loadTemplate path p d) := by
  have hview : ∀ c : Context, view id c = (.ok c, c) := fun _ => rfl
  unfold loadTemplate
  rw [bind_of_ok (hview c), bind_of_ok (hview d), h.left.loader, h.right.loader]
  rcases hloader : s.loader with _ | loader
  · exact .same h (.error _)
  · have hsource : c.source? = d.source? := by rw [Context.source?, h.sources, Context.source?]
    dsimp only
    rw [hsource]
    rcases loader.resolve path d.source? with e | name
    · exact .same h (.error _)
    · dsimp only
      rw [h.left.options, h.right.options]
      rcases hu : d.templates.get? name with _ | u
      · rcases ht : c.templates.get? name with _ | t
        · rcases hload : loader.load name s.options with e | t₀
          · exact .same h (.error _)
          · exact ends_loadBoth h hloader hload
        · obtain ⟨_, t₀, hl, hload, hid⟩ := h.loaded.load ht
          cases hloader.symm.trans hl
          rw [hload]
          exact ends_loadAgain h hid ht hu
      · obtain ⟨t, ht, htu⟩ := h.templates.alike hu
        rw [ht]
        exact .same h (.ok htu)

omit h in
theorem sim_loadTemplate (path : String) (p : Position) :
    Sim s gap w Template.Alike (loadTemplate path p) (loadTemplate path p) :=
  fun _ _ _ _ hcd _ => ends_loadTemplate hcd path p

end TemplateEngine
