import Mathlib.Data.List.Dedup
import TemplateEngine.Proofs.Isolation.Loading
import TemplateEngine.Proofs.Loops.Items
import TemplateEngine.Proofs.Trails.Sessions

/-!
# Templates that are kept

In the life of a context templates are asked for one after the other: by includes, by renderings of
a path, and by the program around the engine. A list of loads tells the requests with their answers,
and says that nothing else happens to the templates that are kept (`Context.Loads`). Every step has
such a list (`passage_loads`).

A template that was read is kept under its name and given out again. Nobody who asks for a template
can tell, but for one thing: it is the same template each time. Every answer is the one of a reading
that keeps nothing (`Settings.read`), and a request that fails leaves the context as it was. What is
kept are the templates that were asked for with success, each once (`Context.Keeps`).

* `keeping_is_transparent` — this holds in the whole life of a context, as long as no template is
  put into it from outside.
-/

namespace TemplateEngine

open TemplateEngine.Action

/-! ## Loads -/

/-- A template that was asked for: the path and the place of the request, the template that was
being rendered, and how the request ended. -/
structure Load where
  path : String
  position : Position
  includer : Option String
  answer : Outcome Template

namespace Context

/-- Where templates come from, how they are read, and which of them are kept. -/
def shelved (c : Context) : Option Loader × ParserOptions × Dictionary Template :=
  (c.loader, c.options, c.templates)

/-- Asks for a template. -/
def load (c : Context) (path : String) (p : Position) : Load :=
  ⟨path, p, c.source?, (loadTemplate path p c).1⟩

/-- On the way from one context to another these templates were asked for, in this order. Whatever
else was done left the templates alone. -/
inductive Loads : Context → List Load → Context → Prop
  | aside {c d : Context} : d.shelved = c.shelved → Loads c [] d
  | asked (c : Context) (path : String) (p : Position) :
    Loads c [c.load path p] (loadTemplate path p c).2
  | append {c d e : Context} {log rest : List Load} :
    Loads c log d → Loads d rest e → Loads c (log ++ rest) e

end Context

/-! ## Runs -/

/-- However the action ends, it can be told which templates were asked for. -/
def Action.Accounted {α : Type} (x : Action α) : Prop := ∀ c : Context, ∃ log, c.Loads log (x c).2

/-- Whatever the machine is asked for can be accounted for. -/
structure Machine.Accounted (m : Machine) : Prop where
  run (b : Block) : (m.run b).Accounted
  native (f : Native) (args : List Value) (p : Position) : (m.native f args p).Accounted

/-- The operations of the host put no template of their own into a context. -/
def Host.Accounted (host : Host) : Prop :=
  ∀ (f : Native) (m : Machine), m.Accounted → ∀ args p, (host f m args p).Accounted

/-- Every step can be accounted for. -/
theorem passage_loads : Passage fun c d => ∃ log, c.Loads log d where
  aside {c d} h := by
    simp only [Context.standing, Prod.mk.injEq] at h
    obtain ⟨-, -, htemplates, hloader, hoptions, -⟩ := h
    refine ⟨[], .aside ?_⟩
    rw [Context.shelved, Context.shelved, htemplates, hloader, hoptions]
  trans hc hd := by
    obtain ⟨log, hlog⟩ := hc
    obtain ⟨rest, hrest⟩ := hd
    exact ⟨log ++ rest, hlog.append hrest⟩
  member _ _ := ⟨[], .aside rfl⟩
  sequence _ _ := ⟨[], .aside rfl⟩
  load path p c := ⟨[c.load path p], .asked c path p⟩

theorem Host.none_accounted : Host.none.Accounted := fun _ _ _ _ _ _ => ⟨[], .aside rfl⟩

/-- Whatever is done with a context, as long as no template is put into it from outside: it can be
told which templates were asked for. -/
theorem loads_of_life {host : Host} (h : host.Accounted) {life : List Errand}
    (hlife : ∀ e ∈ life, ∀ t, e ≠ .work (.cache t)) (c : Context) :
    ∃ log, c.Loads log (life.foldl (fun c e => (e.act host c).2) c) :=
  passage_loads.of_life (fun f m hm => h f m ⟨hm.run, hm.native⟩)
    (fun t ht => absurd rfl (hlife _ ht t)) c

variable {s : Settings} {c d : Context} {log rest : List Load}

/-! ## Reading afresh -/

/-- The name that a path stands for and the template of this name, read for this request alone. -/
def Settings.read (s : Settings) (path : String) (includer : Option String) :
    Except LoadError (String × Template) :=
  match s.loader with
  | none => .error .noLoader
  | some loader =>
    match loader.resolve path includer with
    | .error e => .error e
    | .ok name =>
      match loader.load name s.options with
      | .error e => .error e
      | .ok t => .ok (name, t)

namespace Load

/-- The answer is the error of reading afresh, or what was read, with numbers of its own. -/
def AsRead (s : Settings) (l : Load) : Prop :=
  match s.read l.path l.includer with
  | .error e => l.answer = .error (.script l.position (.load l.path e))
  | .ok (_, t) => ∃ n, l.answer = .ok (t.identify n).1

/-- The name that was asked for, if the template of this name can be read. -/
def name? (s : Settings) (l : Load) : Option String :=
  match s.read l.path l.includer with
  | .error _ => none
  | .ok (name, _) => some name

end Load

/-! ## What is kept -/

/-- The context keeps what was asked for with success, and each answer that was given is kept since
then. -/
structure Context.Keeps (s : Settings) (log : List Load) (c : Context) : Prop where
  loader : c.loader = s.loader
  options : c.options = s.options
  asRead : ∀ l ∈ log, l.AsRead s
  kept : ∀ l ∈ log, ∀ name ∈ l.name? s, ∃ t, l.answer = .ok t ∧ c.templates.get? name = some t
  asked : ∀ name t, c.templates.get? name = some t → ∃ l ∈ log, l.name? s = some name

theorem Settings.keeps_newContext (s : Settings) : s.newContext.Keeps s [] where
  loader := rfl
  options := rfl
  asRead := nofun
  kept := nofun
  asked _ _ := nofun

/-- What has the name of a request that succeeded can be read. -/
theorem Load.read_of_name? {l : Load} {name : String} (h : l.name? s = some name) :
    ∃ t, s.read l.path l.includer = .ok (name, t) := by
  unfold Load.name? at h
  split at h
  · cases h
  · next t hread => exact ⟨t, Option.some.inj h ▸ hread⟩

theorem Settings.load_of_read {path name : String} {includer : Option String} {t : Template}
    (h : s.read path includer = .ok (name, t)) :
    ∃ loader, s.loader = some loader ∧ loader.load name s.options = .ok t := by
  unfold Settings.read at h
  split at h
  · cases h
  · next loader hloader =>
    split at h
    · cases h
    · split at h
      · cases h
      · next hload =>
        cases h
        exact ⟨loader, hloader, hload⟩

namespace Context.Keeps

/-- Only what can be read is kept, so that it makes no difference which of the two is tried first:
reading fails, or the template was kept before, or it is read and kept now. -/
theorem loadTemplate_eq (h : c.Keeps s log) (path : String) (p : Position) :
    loadTemplate path p c =
      match s.read path c.source? with
      | .error e => (.error (.script p (.load path e)), c)
      | .ok (name, t) =>
        match c.templates.get? name with
        | some u => (.ok u, c)
        | none => (.ok (t.identify c.store.nextIdentity).1, c.keep name t) := by
  unfold loadTemplate Settings.read
  rw [bind_of_ok (rfl : view id c = (.ok c, c)), id, h.loader, h.options]
  cases hloader : s.loader with
  | none => rfl
  | some loader =>
    dsimp only
    cases loader.resolve path c.source? with
    | error e => rfl
    | ok name =>
      dsimp only
      cases hkept : c.templates.get? name with
      | some u =>
        obtain ⟨l, -, hname⟩ := h.asked name u hkept
        obtain ⟨t, hread⟩ := Load.read_of_name? hname
        obtain ⟨_, hsame, hload⟩ := Settings.load_of_read hread
        cases hloader.symm.trans hsame
        simp only [hload, hkept]
        rfl
      | none =>
        cases hload : loader.load name s.options with
        | error e => simp only; rfl
        | ok t => simp only [hkept]; rfl

/-- What is kept under a name is what is read under it, with numbers of its own. -/
theorem identify_of_get? (h : c.Keeps s log) {path name : String} {includer : Option String}
    {t u : Template} (hu : c.templates.get? name = some u)
    (hread : s.read path includer = .ok (name, t)) : ∃ n, u = (t.identify n).1 := by
  obtain ⟨l, hl, hname⟩ := h.asked name u hu
  obtain ⟨v, hanswer, hv⟩ := h.kept l hl name hname
  cases hu.symm.trans hv
  obtain ⟨t', hread'⟩ := Load.read_of_name? hname
  obtain ⟨loader, hloader, hload⟩ := Settings.load_of_read hread
  obtain ⟨_, hsame, hload'⟩ := Settings.load_of_read hread'
  cases hloader.symm.trans hsame
  cases hload.symm.trans hload'
  have hasRead := h.asRead l hl
  rw [Load.AsRead, hread', hanswer] at hasRead
  obtain ⟨n, hn⟩ := hasRead
  exact ⟨n, Outcome.ok.inj hn⟩

/-- One more answer that changes nothing of what is kept, and is kept itself if it is a template. -/
theorem answered (h : c.Keeps s log) {l : Load} (hread : l.AsRead s)
    (hkept : ∀ name ∈ l.name? s, ∃ t, l.answer = .ok t ∧ c.templates.get? name = some t) :
    c.Keeps s (log ++ [l]) where
  loader := h.loader
  options := h.options
  asRead k hk := by
    rcases List.mem_append.1 hk with hk | hk
    · exact h.asRead k hk
    · exact List.mem_singleton.1 hk ▸ hread
  kept k hk := by
    rcases List.mem_append.1 hk with hk | hk
    · exact h.kept k hk
    · exact List.mem_singleton.1 hk ▸ hkept
  asked name t ht := by
    obtain ⟨k, hk, hname⟩ := h.asked name t ht
    exact ⟨k, List.mem_append_left _ hk, hname⟩

/-- A template that was read and was not kept before is kept from now on. -/
theorem keep (h : c.Keeps s log) {l : Load} {name : String} {t : Template}
    (hread : s.read l.path l.includer = .ok (name, t)) (hnew : c.templates.get? name = none)
    (hanswer : l.answer = .ok (t.identify c.store.nextIdentity).1) :
    (c.keep name t).Keeps s (log ++ [l]) := by
  have hname : l.name? s = some name := by rw [Load.name?, hread]
  refine { loader := h.loader, options := h.options, asRead := ?_, kept := ?_, asked := ?_ }
  · intro k hk
    rcases List.mem_append.1 hk with hk | hk
    · exact h.asRead k hk
    · rw [List.mem_singleton.1 hk, Load.AsRead, hread]
      exact ⟨_, hanswer⟩
  · intro k hk other hother
    rcases List.mem_append.1 hk with hk | hk
    · obtain ⟨u, hu, hkept⟩ := h.kept k hk other hother
      have hne : name ≠ other := by
        rintro rfl
        rw [hkept] at hnew
        cases hnew
      exact ⟨u, hu, (Dictionary.get?_insert_of_ne _ hne _).trans hkept⟩
    · rw [List.mem_singleton.1 hk] at hother ⊢
      cases hname.symm.trans hother
      exact ⟨_, hanswer, Dictionary.get?_insert_self _ _ _⟩
  · intro other u hu
    by_cases hne : name = other
    · exact ⟨l, by simp, hne ▸ hname⟩
    · obtain ⟨k, hk, hother⟩ :=
        h.asked other u ((Dictionary.get?_insert_of_ne _ hne _).symm.trans hu)
      exact ⟨k, List.mem_append_left _ hk, hother⟩

/-- Asking for a template. -/
theorem load (h : c.Keeps s log) (path : String) (p : Position) :
    (loadTemplate path p c).2.Keeps s (log ++ [c.load path p]) := by
  have heq := h.loadTemplate_eq path p
  have hanswer : (c.load path p).answer = (loadTemplate path p c).1 := rfl
  cases hread : s.read path c.source? with
  | error e =>
    rw [hread] at heq
    rw [heq] at hanswer ⊢
    refine h.answered ?_ ?_
    · rw [Load.AsRead, show s.read (c.load path p).path (c.load path p).includer = _ from hread]
      exact hanswer
    · intro name hname
      obtain ⟨t, ht⟩ := Load.read_of_name? hname
      cases ht.symm.trans hread
  | ok r =>
    obtain ⟨name, t⟩ := r
    rw [hread] at heq
    dsimp only at heq
    cases hkept : c.templates.get? name with
    | some u =>
      rw [hkept] at heq
      rw [heq] at hanswer ⊢
      have hasRead : s.read (c.load path p).path (c.load path p).includer = .ok (name, t) := hread
      obtain ⟨n, rfl⟩ := h.identify_of_get? hkept hread
      refine h.answered ?_ ?_
      · rw [Load.AsRead, hasRead]
        exact ⟨n, hanswer⟩
      · intro other hother
        rw [Load.name?, hasRead] at hother
        cases hother
        exact ⟨_, hanswer, hkept⟩
    | none =>
      rw [hkept] at heq
      rw [heq] at hanswer ⊢
      exact h.keep hread hkept hanswer

/-- What is asked for on the way to another context is kept there, by induction on the way. -/
theorem loads (h : c.Keeps s log) (hway : c.Loads rest d) : d.Keeps s (log ++ rest) := by
  induction hway generalizing log with
  | @aside c d hsame =>
    simp only [Context.shelved, Prod.mk.injEq] at hsame
    obtain ⟨hloader, hoptions, htemplates⟩ := hsame
    rw [List.append_nil]
    exact { h with
      loader := hloader.trans h.loader
      options := hoptions.trans h.options
      kept := htemplates ▸ h.kept
      asked := htemplates ▸ h.asked }
  | asked c path p => exact h.load path p
  | append _ _ ihfirst ihrest =>
    rw [← List.append_assoc]
    exact ihrest (ihfirst h)

/-- What is kept is what was asked for with success. -/
theorem mem_keys_iff (h : c.Keeps s log) (name : String) :
    name ∈ c.templates.keys ↔ name ∈ log.filterMap (Load.name? s) := by
  rw [Dictionary.mem_keys_iff, Dictionary.contains, Option.isSome_iff_exists, List.mem_filterMap]
  constructor
  · rintro ⟨t, ht⟩
    exact h.asked name t ht
  · rintro ⟨l, hl, hname⟩
    obtain ⟨t, -, ht⟩ := h.kept l hl name hname
    exact ⟨t, ht⟩

/-- There are as many templates as different names that were asked for with success. -/
theorem size_eq (h : c.Keeps s log) :
    c.templates.size = (log.filterMap (Load.name? s)).dedup.length := by
  have hkeys : c.templates.keys.Nodup := c.templates.sorted.imp fun hlt heq => by
    rw [heq] at hlt
    exact String.lt_irrefl _ hlt
  have hperm : c.templates.keys.Perm (log.filterMap (Load.name? s)).dedup :=
    (List.perm_ext_iff_of_nodup hkeys (List.nodup_dedup _)).2 fun name => by
      rw [h.mem_keys_iff, List.mem_dedup]
  rw [← hperm.length_eq, Dictionary.keys, List.length_map, Dictionary.size]

end Context.Keeps

/-! ## The life of a context -/

/-- Whatever is done with a context after its opening, as long as no template is put into it from
outside, it can be told which templates were asked for. Each answer is the error of reading afresh,
or what was read; the same name gives the same template; a request that fails leaves the context as
it was; and the context keeps the templates that were asked for with success, each once. -/
theorem keeping_is_transparent (s : Settings) {host : Host} (hhost : host.Accounted) :
    (∀ life : List Errand, (∀ e ∈ life, ∀ t, e ≠ .work (.cache t)) →
      ∃ log, s.newContext.Loads log (life.foldl (fun c e => (e.act host c).2) s.newContext)) ∧
    ∀ log c, s.newContext.Loads log c →
      (∀ l ∈ log, l.AsRead s) ∧
      (∀ l ∈ log, ∀ k ∈ log, ∀ name, l.name? s = some name → k.name? s = some name →
        ∃ t, l.answer = .ok t ∧ k.answer = .ok t) ∧
      (∀ path p e d, loadTemplate path p c = (.error e, d) → d = c) ∧
      c.templates.size = (log.filterMap (Load.name? s)).dedup.length ∧
      ∀ name, name ∈ c.templates.keys ↔ name ∈ log.filterMap (Load.name? s) := by
  refine ⟨fun life hlife => loads_of_life hhost hlife _, fun log c hway => ?_⟩
  have hkeeps : c.Keeps s log := s.keeps_newContext.loads hway
  refine ⟨hkeeps.asRead, fun l hl k hk name hlname hkname => ?_, fun path p e d hfails => ?_,
    hkeeps.size_eq, hkeeps.mem_keys_iff⟩
  · obtain ⟨t, hanswer, ht⟩ := hkeeps.kept l hl name hlname
    obtain ⟨u, hanswer', hu⟩ := hkeeps.kept k hk name hkname
    cases ht.symm.trans hu
    exact ⟨t, hanswer, hanswer'⟩
  · rw [hkeeps.loadTemplate_eq] at hfails
    split at hfails
    · cases hfails
      rfl
    · split at hfails <;> cases hfails

/-! ## An instance -/

/-- A shelf with a part beside the pages, one of the same name at the root, and one that cannot be
read. -/
def pages : Settings :=
  { Settings.standard id with
    loader := some (((Shelf.empty.insert "nav" "root").insert "pages/nav" "near").insert "broken"
      "\x7b% if %\x7d").loader }

namespace pages

/-- The part at the root was asked for, and a page begins. -/
def opened : Context :=
  { (loadTemplate "nav" .unknown pages.newContext).2 with sources := ["pages/index"] }

/-- The page asks for the part beside it, -/
def first : Context := (loadTemplate "nav" .unknown opened).2

/-- then for the one at the root, -/
def second : Context := (loadTemplate "/nav" .unknown first).2

/-- and then for the one that cannot be read. -/
def third : Context := (loadTemplate "/broken" .unknown second).2

/-- What was asked for, and what was answered. -/
def requests : List Load :=
  [pages.newContext.load "nav" .unknown, opened.load "nav" .unknown, first.load "/nav" .unknown,
    second.load "/broken" .unknown]

theorem loads : pages.newContext.Loads requests third :=
  have page : Context.Loads (loadTemplate "nav" .unknown pages.newContext).2 [] opened := .aside rfl
  .append (.asked _ "nav" .unknown) <| page.append <|
    .append (.asked _ "nav" .unknown) <|
      .append (.asked _ "/nav" .unknown) (.asked _ "/broken" .unknown)

end pages

/-- The first and the third request are for one name and give one template; two templates are
kept. -/
theorem pages_are_kept_as_read :
    pages.newContext.Loads pages.requests pages.third ∧ (∀ l ∈ pages.requests, l.AsRead pages) ∧
      (∃ t, (pages.newContext.load "nav" .unknown).answer = .ok t ∧
        (pages.first.load "/nav" .unknown).answer = .ok t) ∧
      (∀ d e, loadTemplate "../x" .unknown pages.third = (.error e, d) → d = pages.third) ∧
      pages.third.templates.size = 2 ∧
      ∃ log, pages.newContext.Loads log
        ([Errand.call 2 (.renderPath "nav" .null), .work (.load "nav" .unknown)].foldl
          (fun c e => (e.act .none c).2) pages.newContext) := by
  have hlife : ∀ e ∈ [Errand.call 2 (.renderPath "nav" .null), .work (.load "nav" .unknown)],
      ∀ t, e ≠ .work (.cache t) := by simp
  have htransparent := keeping_is_transparent pages Host.none_accounted
  obtain ⟨hread, hsame, hfails, hsize, -⟩ := htransparent.2 pages.requests pages.third pages.loads
  refine ⟨pages.loads, hread, ?_, fun d e => hfails "../x" .unknown e d, ?_,
    htransparent.1 _ hlife⟩
  · refine hsame _ (by simp [pages.requests]) _ (by simp [pages.requests]) "nav" ?_ ?_ <;>
      decide +kernel
  · exact hsize.trans (by decide +kernel)

end TemplateEngine
