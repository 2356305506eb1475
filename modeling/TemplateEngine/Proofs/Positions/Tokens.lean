import Mathlib.Data.List.Induction
import TemplateEngine.Proofs.Positions.Nodes
import TemplateEngine.Proofs.Precedence.Sources
import TemplateEngine.Proofs.Spelling.Quotes

/-!
# Tokens of nodes

Every node of an expression has a token of its own: a name, a sign, or the text of a constant
(`Expr.IsToken`). A place with what stands there is an anchor. Scanners take the anchors of what
they read from one cursor to the next, each a token further on (`Spread`), so that no two of them
share a place (`Spread.nodup`). This is handed on by each way to put scanners together
(`Scanner.Owns`).
-/

namespace TemplateEngine

open Scanner

/-! ## Lines and columns -/

namespace Position

/-- The place behind a text: line feeds end lines, and characters are counted from the last of
them on. -/
def behind (text : List Char) : Position :=
  ⟨text.count '\n' + 1, (text.reverse.takeWhile (· ≠ '\n')).length + 1⟩

theorem start_after (text : List Char) : start.after text = behind text := by
  induction text using List.reverseRecOn with
  | nil => rfl
  | append_singleton text c ih =>
    rw [after_append, ih, after_cons, after_nil, step, behind]
    by_cases hc : c = '\n'
    · subst hc
      simp [behind]
    · rw [if_neg hc]
      simp [behind, hc]

/-- The first place is on an earlier line, or before the other one on its line. -/
def Before (p q : Position) : Prop := p.line < q.line ∨ p.line = q.line ∧ p.column < q.column

variable {p q r : Position}

theorem Before.trans (h : p.Before q) (k : q.Before r) : p.Before r := by
  unfold Before at *
  omega

theorem Before.ne (h : p.Before q) : p ≠ q := by
  rintro rfl
  unfold Before at h
  omega

theorem before_step (p : Position) (c : Char) : p.Before (p.step c) := by
  unfold step
  split
  · exact .inl (Nat.lt_succ_self _)
  · exact .inr ⟨rfl, Nat.lt_succ_self _⟩

/-- Behind a text, places are further on. -/
theorem before_after {text : List Char} (h : text ≠ []) (p : Position) :
    p.Before (p.after text) := by
  induction text generalizing p with
  | nil => exact absurd rfl h
  | cons c text ih =>
    rw [after_cons]
    by_cases htext : text = []
    · subst htext
      exact p.before_step c
    · exact (p.before_step c).trans (ih htext _)

end Position

/-! ## Tokens -/

/-- A unary operator as it is written. -/
def UnaryOp.symbol : UnaryOp → String
  | .not => "not"
  | .neg => "-"

/-- The text writes the constant. -/
inductive Literal.Writes : Literal → List Char → Prop
  | null : Writes .null "null".toList
  | bool (b : Bool) : Writes (.bool b) (if b then "true" else "false").toList
  | int {ds : List Char} : ds ≠ [] → ds.all Char.isDigit = true →
    Writes (.int (Integer.ofDigits ds)) ds
  | float {whole fraction : List Char} : whole ≠ [] → whole.all Char.isDigit = true →
    fraction ≠ [] → fraction.all Char.isDigit = true →
    Writes (.float (Reading.nearest (Integer.ofDigits (whole ++ fraction))
      (-(fraction.length : Int)))) (whole ++ '.' :: fraction)
  | text {s : String} {q : Quote} {body : List Char} : Decodes q body s.toList →
    Writes (.text s) (q.char :: (body ++ [q.char]))

/-- The text is the token of the node itself. -/
def Expr.IsToken : Expr → List Char → Prop
  | .literal value _, text => value.Writes text
  | .var ref, text => text = ref.name.toList
  | .member .., text => text = ".".toList
  | .index .., text => text = "[".toList
  | .call .., text => text = "(".toList
  | .list .., text => text = "[".toList
  | .map .., text => text = "\x7b".toList
  | .unary op _ _, text => text = op.symbol.toList
  | .binary op _ _ _, text => text = op.symbol.toList

/-- A place and the texts of which one stands there. -/
structure Anchor where
  position : Position
  token : List Char → Prop

/-- One of the texts of the anchor stands at its place in the source, which is told by what is
before it. -/
def Anchor.Stands (source : List Char) (a : Anchor) : Prop :=
  ∃ before text after, source = before ++ text ++ after ∧ a.position = .behind before ∧
    text ≠ [] ∧ a.token text

/-- The anchor of a name. -/
def VarRef.anchor (ref : VarRef) : Anchor := ⟨ref.position, (· = ref.name.toList)⟩

/-- The anchor of the node itself. -/
def Expr.anchor (e : Expr) : Anchor := ⟨e.position, e.IsToken⟩

/-- The anchors of all nodes. -/
def Expr.anchors (e : Expr) : List Anchor := e.nodes.map Expr.anchor

/-! ## Spreading -/

/-- Between two cursors stand the anchors, in their order and each behind the token of the one
before it. -/
inductive Spread : List Anchor → Cursor → Cursor → Prop
  | nil {c d : Cursor} {text : List Char} : c.Behind text d → Spread [] c d
  | cons {a : Anchor} {as : List Anchor} {b c d e : Cursor} {before text : List Char} :
    b.Behind before c → a.position = c.position → a.token text → text ≠ [] → c.Behind text d →
      Spread as d e → Spread (a :: as) b e

namespace Spread

variable {a : Anchor} {as bs : List Anchor} {b c d : Cursor}

theorem refl (c : Cursor) : Spread [] c c := .nil (.refl c)

/-- What stands before adds no anchor. -/
theorem behind {text : List Char} (h : b.Behind text c) (k : Spread as c d) : Spread as b d := by
  cases k with
  | nil hbehind => exact .nil (h.trans hbehind)
  | cons hbefore hposition htoken hne hbehind hrest =>
    exact .cons (h.trans hbefore) hposition htoken hne hbehind hrest

theorem append (h : Spread as b c) (k : Spread bs c d) : Spread (as ++ bs) b d := by
  induction h with
  | nil hbehind => exact k.behind hbehind
  | cons hbefore hposition htoken hne hbehind _ ih =>
    exact .cons hbefore hposition htoken hne hbehind (ih k)

/-- No anchor is before the cursor, and each is before the next ones. -/
theorem ordered (h : Spread as c d) :
    (∀ a ∈ as, a.position = c.position ∨ c.position.Before a.position) ∧
      (as.map Anchor.position).Pairwise Position.Before := by
  induction h with
  | nil => exact ⟨nofun, .nil⟩
  | @cons a as b c d e before text hbefore hposition _ hne hbehind _ ih =>
    obtain ⟨hrest, hpairwise⟩ := ih
    have hnext : c.position.Before d.position := by
      rw [hbehind.position]
      exact Position.before_after hne _
    have hlater : ∀ x ∈ as, c.position.Before x.position := by
      intro x hx
      obtain heq | hd := hrest x hx
      · rwa [heq]
      · exact hnext.trans hd
    have hfirst : c.position = b.position ∨ b.position.Before c.position := by
      rw [hbefore.position]
      by_cases hnil : before = []
      · subst hnil
        exact .inl rfl
      · exact .inr (Position.before_after hnil _)
    refine ⟨List.forall_mem_cons.2 ⟨hposition ▸ hfirst, fun x hx => .inr ?_⟩, ?_⟩
    · obtain heq | hb := hfirst
      · exact heq ▸ hlater x hx
      · exact hb.trans (hlater x hx)
    · rw [List.map_cons, List.pairwise_cons, List.forall_mem_map, hposition]
      exact ⟨hlater, hpairwise⟩

/-- No two of the anchors share a place. -/
theorem nodup (h : Spread as c d) : (as.map Anchor.position).Nodup :=
  h.ordered.2.imp fun hbefore => hbefore.ne

/-- The anchors stand in the source in which the cursor is. -/
theorem stands {source before : List Char} (h : Spread as c d)
    (hc : (Cursor.start source).Behind before c) : ∀ a ∈ as, a.Stands source := by
  induction h generalizing before with
  | nil => exact nofun
  | @cons a as b c d e gap text hgap hposition htoken hne hbehind _ ih =>
    have hhere := hc.trans hgap
    refine List.forall_mem_cons.2 ⟨⟨before ++ gap, text, d.rest, ?_, ?_, hne, htoken⟩,
      ih (hhere.trans hbehind)⟩
    · exact (hhere.trans hbehind).rest
    · rw [hposition, hhere.position]
      exact Position.start_after _

end Spread

/-! ## Scanners -/

namespace Scanner

variable {α β : Type}

/-- Whatever the scanner reads is one of the tokens of the value. -/
def Lexes (T : α → List Char → Prop) (p : Scanner α) : Prop :=
  ∀ ⦃c : Cursor⦄ ⦃a : α⦄ ⦃d : Cursor⦄, p.Reads c a d →
    ∃ text, T a text ∧ text ≠ [] ∧ c.Behind text d

/-- Whatever the scanner reads spreads anchors that suit the value. -/
def Owns (S : α → List Anchor → Prop) (p : Scanner α) : Prop :=
  ∀ ⦃c : Cursor⦄ ⦃a : α⦄ ⦃d : Cursor⦄, p.Reads c a d → ∃ as, Spread as c d ∧ S a as

/-- It does so where it begins at the place. -/
def OwnsAt (position : Position) (S : α → List Anchor → Prop) (p : Scanner α) : Prop :=
  ∀ ⦃c : Cursor⦄ ⦃a : α⦄ ⦃d : Cursor⦄, c.position = position → p.Reads c a d →
    ∃ as, Spread as c d ∧ S a as

/-- Whatever the scanner reads spreads the anchors of the value, in some order. -/
def Spreads (anchors : α → List Anchor) (p : Scanner α) : Prop :=
  p.Owns fun a as => as.Perm (anchors a)

section

variable {p q : Scanner α} {f : α → Scanner β} {S : α → List Anchor → Prop}
  {R : β → List Anchor → Prop} {T : α → List Char → Prop} {position : Position}

namespace OwnsAt

theorem of_owns (h : p.Owns S) : p.OwnsAt position S := fun _ _ _ _ hreads => h hreads

theorem firstOf {ps : List (Scanner α)} (h : ∀ p ∈ ps, p.OwnsAt position S) :
    (firstOf ps).OwnsAt position S := by
  intro c a d hc hreads
  obtain ⟨p, hp, hreads⟩ := hreads.of_firstOf
  exact h p hp hc hreads

/-- A token stands where the scanner begins. -/
theorem token (hp : p.Lexes T) (hf : ∀ a, (f a).Owns fun b bs => R b (⟨position, T a⟩ :: bs)) :
    (p >>= f).OwnsAt position R := by
  intro c b d hc h
  obtain ⟨a, e, ha, hb⟩ := reads_bind.1 h
  obtain ⟨text, htoken, hne, hbehind⟩ := hp ha
  obtain ⟨bs, hspread, hR⟩ := hf a hb
  exact ⟨_, .cons (.refl c) hc.symm htoken hne hbehind hspread, hR⟩

end OwnsAt

namespace Owns

protected theorem pure {a : α} (h : S a []) : (pure a : Scanner α).Owns S := by
  rintro c _ _ ⟨⟩
  exact ⟨[], .refl c, h⟩

protected theorem fail : (fail : Scanner α).Owns S := nofun

theorem bind (hp : p.Owns S) (hf : ∀ a as, S a as → (f a).Owns fun b bs => R b (as ++ bs)) :
    (p >>= f).Owns R := by
  intro c b d h
  obtain ⟨a, e, ha, hb⟩ := reads_bind.1 h
  obtain ⟨as, has, hS⟩ := hp ha
  obtain ⟨bs, hbs, hR⟩ := hf a as hS hb
  exact ⟨as ++ bs, has.append hbs, hR⟩

/-- What is read first has no anchors. -/
theorem skip (hp : p.Advances) (hf : ∀ a, (f a).Owns R) : (p >>= f).Owns R := by
  intro c b d h
  obtain ⟨a, e, ha, hb⟩ := reads_bind.1 h
  obtain ⟨text, htext⟩ := hp ha
  obtain ⟨bs, hbs, hR⟩ := hf a hb
  exact ⟨bs, hbs.behind htext, hR⟩

/-- The place is noted before what is read there. -/
theorem here {f : Position → Scanner β} (h : ∀ position, (f position).OwnsAt position R) :
    (here >>= f).Owns R := by
  intro c b d hreads
  obtain ⟨_, _, hhere, hf⟩ := reads_bind.1 hreads
  cases hhere
  exact h _ rfl hf

theorem rule (h : p.Owns S) : (rule p).Owns S := fun _ _ _ hreads => h (reads_rule.1 hreads)

theorem orElse (hp : p.Owns S) (hq : q.Owns S) : (orElse p q).Owns S := by
  intro c a d h
  obtain h | ⟨-, h⟩ := reads_orElse.1 h
  · exact hp h
  · exact hq h

theorem firstOf {ps : List (Scanner α)} (h : ∀ p ∈ ps, p.Owns S) : (firstOf ps).Owns S := by
  intro c a d hreads
  obtain ⟨p, hp, hreads⟩ := hreads.of_firstOf
  exact h p hp hreads

/-- A scanner may depend on the cursor that it starts from. -/
theorem atCursor {p : Cursor → Scanner α} (h : ∀ c, (p c).Owns S) : Owns S fun c => p c c :=
  fun c _ _ hreads => h c hreads

theorem optional {R : Option α → List Anchor → Prop} (hp : p.Owns S) (hnone : R none [])
    (hsome : ∀ a as, S a as → R (some a) as) : (optional p).Owns R :=
  .orElse (.bind hp fun a as ha => .pure (by rw [List.append_nil]; exact hsome a as ha))
    (.pure hnone)

/-- Many values, whose anchors follow one another. -/
theorem many {R : List α → List Anchor → Prop} (hp : p.Owns S) (hnil : R [] [])
    (hcons : ∀ x xs as bs, S x as → R xs bs → R (x :: xs) (as ++ bs)) : (many p).Owns R := by
  intro c xs d h
  have hruns := h.runs_of_many
  clear h
  induction hruns with
  | nil c => exact ⟨[], .refl c, hnil⟩
  | cons hgap hx _ ih =>
    obtain ⟨gap, -, hbehind⟩ := hgap
    obtain ⟨as, has, hS⟩ := hp hx
    obtain ⟨bs, hbs, hR⟩ := ih
    exact ⟨as ++ bs, (has.behind hbehind).append hbs, hcons _ _ as bs hS hR⟩

end Owns

end

section

variable {p : Scanner α} {anchors : α → List Anchor}

namespace Spreads

theorem optional (hp : p.Spreads anchors) :
    (optional p).Spreads fun x => x.toList.flatMap anchors :=
  Owns.optional hp (.refl _) fun a as ha => by simpa using ha

theorem many (hp : p.Spreads anchors) : (many p).Spreads fun xs => xs.flatMap anchors :=
  Owns.many hp (.refl _) fun _ _ _ _ hx hxs => hx.append hxs

theorem separated (hp : p.Spreads anchors) :
    (separated p).Spreads fun xs => xs.flatMap anchors := by
  have hmore : (Scanner.many (do exactly ","; blanks; p)).Spreads fun xs => xs.flatMap anchors :=
    many (Owns.skip (.exactly _) fun _ => .skip .blanks fun _ => hp)
  exact Owns.bind hp fun x as hx => .skip .blanks fun _ => .bind hmore fun xs bs hxs =>
    .pure (by simpa using hx.append hxs)

theorem listed (hp : p.Spreads anchors) : (listed p).Spreads fun xs => xs.flatMap anchors :=
  Owns.bind (separated hp) fun xs as hxs => .skip .blanks fun _ =>
    .skip (.optional (.exactly _)) fun _ => .pure (by simpa using hxs)

/-- A list that may be left out. -/
theorem optional_list {p : Scanner (List α)} (hp : p.Spreads fun xs => xs.flatMap anchors) :
    (Scanner.optional p).Spreads fun x => (x.getD []).flatMap anchors :=
  Owns.optional hp (.refl _) fun _ _ hxs => hxs

end Spreads

end

end Scanner

/-! ## Lexemes -/

theorem lexes_exactly {text : String} (h : text.toList ≠ []) :
    (exactly text).Lexes fun _ => (· = text.toList) :=
  fun _ _ _ hreads => ⟨_, rfl, h, behind_of_exactly hreads⟩

theorem lexes_identifier : identifier.Lexes fun name => (· = name.toList) := by
  intro c name d h
  obtain ⟨hbehind, hname, -⟩ := behind_of_wordThat (reads_rule.1 h)
  refine ⟨_, rfl, fun hnil => ?_, hbehind⟩
  simp [isName, hnil] at hname

theorem behind_of_digits {c d : Cursor} {ds : List Char} (h : digits.Reads c ds d) :
    c.Behind ds d ∧ ds ≠ [] ∧ ds.all Char.isDigit = true := by
  obtain ⟨_, e, htake, h⟩ := reads_bind.1 h
  obtain ⟨hbehind, hall⟩ := behind_of_takeWhile htake
  split at h
  · cases h
  · next hne =>
    cases h
    exact ⟨hbehind, by simpa using hne, hall⟩

theorem lexes_literal : literal.Lexes Literal.Writes := by
  intro c value d h
  obtain ⟨p, hp, h⟩ := h.of_firstOf
  simp only [List.mem_cons, List.not_mem_nil, or_false] at hp
  obtain rfl | rfl | rfl | rfl | rfl := hp
  · obtain ⟨whole, _, hwhole, h⟩ := reads_bind.1 (reads_rule.1 h)
    obtain ⟨_, _, hpoint, h⟩ := reads_bind.1 h
    obtain ⟨fraction, _, hfraction, hpure⟩ := reads_bind.1 h
    cases hpure
    obtain ⟨hbehind, hne, hdigits⟩ := behind_of_digits hwhole
    obtain ⟨hbehind', hne', hdigits'⟩ := behind_of_digits hfraction
    exact ⟨_, .float hne hdigits hne' hdigits', by simp,
      hbehind.trans ((behind_of_exactly hpoint).trans hbehind')⟩
  · obtain ⟨ds, _, hds, hpure⟩ := reads_bind.1 (reads_rule.1 h)
    cases hpure
    obtain ⟨hbehind, hne, hdigits⟩ := behind_of_digits hds
    exact ⟨_, .int hne hdigits, hne, hbehind⟩
  · obtain ⟨s, _, hs, hpure⟩ := reads_bind.1 h
    cases hpure
    obtain ⟨q, body, hbody, hbehind⟩ := reads_stringLiteral_iff.1 hs
    exact ⟨_, .text hbody, by simp, hbehind⟩
  · obtain ⟨w, _, hw, hpure⟩ := reads_bind.1 h
    cases hpure
    obtain ⟨hbehind, hwanted, -⟩ := behind_of_wordThat (reads_rule.1 hw)
    have hwords : w = "true" ∨ w = "false" := by simpa using hwanted
    obtain rfl | rfl := hwords
    · exact ⟨_, .bool true, by decide, hbehind⟩
    · exact ⟨_, .bool false, by decide, hbehind⟩
  · obtain ⟨w, _, hw, hpure⟩ := reads_bind.1 h
    cases hpure
    obtain ⟨hbehind, hwanted, -⟩ := behind_of_wordThat (reads_rule.1 hw)
    obtain rfl : w = "null" := by simpa using hwanted
    exact ⟨_, .null, by decide, hbehind⟩

end TemplateEngine
