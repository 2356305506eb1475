import TemplateEngine.Proofs.Isolation.Variables

/-!
# Places and built-in functions in two runs

Items are found at the same positions, built-in functions come to the same results, and a template
that one run has loaded before is the one that the other run loads now.
-/

namespace TemplateEngine

open TemplateEngine.Action

namespace ExceptAlike

variable {ε ε' α β : Type} {A : α → β → Prop}

theorem of_eq {x y : Except ε α} (h : x = y) : ExceptAlike Eq x y := by
  subst h
  cases x with
  | ok a => exact .ok rfl
  | error e => exact .error e

theorem mapError {x : Except ε α} {y : Except ε β} (h : ExceptAlike A x y) (f : ε → ε') :
    ExceptAlike A (x.mapError f) (y.mapError f) := by
  cases h with
  | ok h => exact .ok h
  | error e => exact .error (f e)

end ExceptAlike

theorem forall₂_getElem? {α β : Type} {R : α → β → Prop} {xs : List α} {ys : List β}
    (h : List.Forall₂ R xs ys) (i : Nat) : Option.Rel R xs[i]? ys[i]? := by
  induction h generalizing i with
  | nil => exact .none
  | cons hxy _ ih =>
    cases i with
    | zero => exact .some hxy
    | succ i => exact ih i

/-! ## Items -/

namespace SequenceAccessor

variable {w : Pairing} {s t : Store} (h : s.Alike w t) (accessor : SequenceAccessor) {a b : Value}
  (hab : a.Alike w b)

include hab

theorem place?_alike : Option.Rel w.place (accessor.place? a) (accessor.place? b) := by
  cases accessor with
  | growable =>
    cases hab with
    | list hr => exact .some hr
    | _ => exact .none
  | fixed =>
    cases hab with
    | array hr => exact .some hr
    | _ => exact .none

include h

theorem get_alike (index : Int) :
    ExceptAlike (Value.Alike w) (accessor.get s a index) (accessor.get t b index) := by
  have hplace := accessor.place?_alike hab
  unfold SequenceAccessor.get
  generalize accessor.place? a = x at hplace ⊢
  generalize accessor.place? b = y at hplace ⊢
  cases hplace with
  | none => exact .error _
  | some hr =>
    have hitems := h.items hr
    simp only [← hitems.length_eq]
    cases inBounds index (s.items _).length with
    | error e => exact .error e
    | ok i => exact .ok (Value.alike_getD (forall₂_getElem? hitems i))

theorem set_alike (index : Int) {x y : Value} (hxy : x.Alike w y) :
    ExceptAlike (StoreStep w w s t) (accessor.set s a index x) (accessor.set t b index y) := by
  have hplace := accessor.place?_alike hab
  unfold SequenceAccessor.set
  generalize accessor.place? a = p at hplace ⊢
  generalize accessor.place? b = q at hplace ⊢
  cases hplace with
  | none => exact .error _
  | some hr =>
    simp only [← (h.items hr).length_eq]
    cases inBounds index (s.items _).length with
    | error e => exact .error e
    | ok i => exact .ok (h.setItem hr hxy i)

end SequenceAccessor

section

variable {s : Settings} {gap : Nat} {w : Pairing} {a b : Value}

theorem sim_sequenceAccessor (hab : a.Alike w b) :
    Sim s gap w (fun _ => Eq) (sequenceAccessor a) (sequenceAccessor b) := by
  intro v c d hv hcd _
  have hstill : c.Still (sequenceAccessor a c).2 := rfl
  have hof : (c.sequences.resolve a).1 = (d.sequences.resolve b).1 := by
    cases hab <;> rfl
  exact .alike v (.refl v c.store)
    { hcd with left := { hcd.left with }, right := { hcd.right with } }
    hstill.kept.extends (.ok hof)

theorem sim_toText (hab : a.Alike w b) (p : Position) :
    Sim s gap w (fun _ => Eq) (toText a p) (toText b p) :=
  .tryView p fun hv h => .of_eq (by rw [h.toText_eq (hab.mono hv)])

theorem sim_toInteger (hab : a.Alike w b) (p : Position) :
    Sim s gap w (fun _ => Eq) (toInteger a p) (toInteger b p) :=
  .tryView p fun hv h => .of_eq (by rw [h.toInteger_eq (hab.mono hv)])

/-! ## Places -/

/-- Places inside of values that are alike. -/
inductive Place.Alike (w : Pairing) : Place → Place → Prop
  | member {a b : Value} (name : String) (target : Expr) (p : Position) : a.Alike w b →
    Alike w (.member a name target p) (.member b name target p)
  | item (accessor : SequenceAccessor) {a b : Value} (index : Int) (target : Expr) (p : Position) :
    a.Alike w b → Alike w (.item accessor a index target p) (.item accessor b index target p)

theorem sim_ofMember (hab : a.Alike w b) (name : String) (target : Expr) (p : Position) :
    Sim s gap w Place.Alike (Place.ofMember a name target p)
      (Place.ofMember b name target p) := by
  refine .ite (by rw [hab.isAbsent_eq]) (.failAt _ _) (.ite (by rw [hab.isPrimitive_eq]) ?_ ?_)
  · exact sim_failTyped hab _ fun kind => .memberOfPrimitive target.display name kind
  · exact .pure fun hv => .member name target p (hab.mono hv)

theorem sim_ofKey (hab : a.Alike w b) {k l : Value} (hkl : k.Alike w l) (q : Position)
    (target : Expr) (p : Position) :
    Sim s gap w Place.Alike (Place.ofKey a k q target p) (Place.ofKey b l q target p) := by
  have hnamed : Sim s gap w Place.Alike
      (toText k q >>= fun name => pure (.member a name target p))
      (toText l q >>= fun name => pure (.member b name target p)) :=
    .bind (sim_toText hkl q) fun hv hname =>
      hname ▸ .pure fun hu => .member _ target p (hab.mono (Pairing.le_trans hv hu))
  refine .ite (by rw [hkl.isAbsent_eq]) (.failAt _ _) ?_
  have hall := hab
  cases hab with
  | map | object => exact hnamed
  | undefined | null | bool | int | float | text | list | array | record | function =>
    refine .bind (sim_sequenceAccessor hall) ?_
    intro v x y hv hxy
    subst hxy
    have hall := hall.mono hv
    cases x with
    | none => exact sim_failTyped hall _ fun kind => .notIndexable target.display kind
    | some accessor =>
      refine .bind (sim_toInteger (hkl.mono hv) q) fun hu hindex => hindex ▸ .pure fun hu' => ?_
      exact .item accessor _ target p (hall.mono (Pairing.le_trans hu hu'))

variable (hs : s.shapes.Uniform)

include hs

theorem sim_read {x y : Place} (hxy : x.Alike w y) : Sim s gap w Value.Alike x.read y.read := by
  cases hxy with
  | member name target p hab => exact sim_readMember hs hab name
  | item accessor index target p hab =>
    exact .tryView p fun hv h => (accessor.get_alike h (hab.mono hv) index).mapError _

theorem sim_write {x y : Place} (hxy : x.Alike w y) (hab : a.Alike w b) :
    Sim s gap w (fun _ => Eq) (x.write a) (y.write b) := by
  cases hxy with
  | member name target p hxy =>
    refine .bind (sim_writeMember hs hxy name hab) ?_
    intro v r r' hv hr
    subst hr
    split
    · exact .pure fun _ => rfl
    · exact .failAt _ _
    · exact .failAt _ _
  | @item accessor x y index target p hxy =>
    unfold Place.write
    refine .tryStore p ?_
    intro v s t hv h
    have hset := accessor.set_alike h (hxy.mono hv) index (hab.mono hv)
    generalize accessor.set s x index a = r at hset
    generalize accessor.set t y index b = r' at hset
    cases hset with
    | ok hstep => exact .ok ⟨v, hstep, rfl⟩
    | error e => exact .error _

end

/-! ## Built-in functions -/

section

variable {s : Settings} {gap : Nat} {w : Pairing} {xs ys : List Value}
  (h : List.Forall₂ (Value.Alike w) xs ys) (p : Position)

include h

theorem forall₂_mono {v : Pairing} (hv : w ≤ v) : List.Forall₂ (Value.Alike v) xs ys :=
  h.imp fun _ _ hxy => hxy.mono hv

theorem argument_alike (i : Nat) : (argument xs i).Alike w (argument ys i) :=
  Value.alike_getD (forall₂_getElem? h i)

theorem sim_textsOf : Sim s gap w (fun _ => Eq) (Builtin.textsOf p xs) (Builtin.textsOf p ys) := by
  induction h with
  | nil => exact .pure fun _ => rfl
  | cons hxy _ ih =>
    refine .bind (sim_toText hxy p) fun hv ht => .bind (ih.mono hv) fun _ hts => ?_
    rw [ht, hts]
    exact .pure fun _ => rfl

theorem sim_mapText (f : List Char → List Char) :
    Sim s gap w Value.Alike (Builtin.mapText xs p f) (Builtin.mapText ys p f) :=
  .bind (sim_toText (argument_alike h 0) p) fun _ ht => ht ▸ .pure fun _ => .text _

theorem sim_rangeBounds :
    Sim s gap w (fun _ => Eq) (Builtin.rangeBounds p xs) (Builtin.rangeBounds p ys) := by
  cases h with
  | nil => exact .failAt _ _
  | cons hfirst hrest =>
    cases hrest with
    | nil => exact .bind (sim_toInteger hfirst p) fun _ hn => hn ▸ .pure fun _ => rfl
    | cons hsecond _ =>
      refine .bind (sim_toInteger hfirst p) fun hv hn => ?_
      refine .bind (sim_toInteger (hsecond.mono hv) p) fun _ hm => ?_
      rw [hn, hm]
      exact .pure fun _ => rfl

omit h in
theorem forall₂_rangeItems (w : Pairing) (start stop step : Int) :
    List.Forall₂ (Value.Alike w) (rangeItems start stop step) (rangeItems start stop step) := by
  refine List.forall₂_same.2 fun v hv => ?_
  obtain ⟨i, _, rfl⟩ := List.mem_map.1 hv
  exact .int _

theorem sim_rangeOf : Sim s gap w Value.Alike (Builtin.rangeOf xs p) (Builtin.rangeOf ys p) := by
  refine .bind (sim_rangeBounds h p) ?_
  intro v r r' hv hr
  obtain ⟨start, stop⟩ := r
  subst hr
  have hitems : ∀ {v : Pairing} (step : Int), Sim s gap v Value.Alike
      (if step = 0 then failAt p (.type .rangeStep)
      else do
        let limit ← view fun c => c.limits.loops
        if limit < rangeCount start stop step then failAt p (.loopLimit limit)
        else onStore fun s => s.newList (rangeItems start stop step))
      (if step = 0 then failAt p (.type .rangeStep)
      else do
        let limit ← view fun c => c.limits.loops
        if limit < rangeCount start stop step then failAt p (.loopLimit limit)
        else onStore fun s => s.newList (rangeItems start stop step)) := by
    intro v step
    refine .ite Iff.rfl (.failAt _ _) ?_
    refine .bind (.view (A := fun _ => Eq) fun _ hcd _ => ?_) fun _ hlimit => ?_
    · rw [hcd.left.limits, hcd.right.limits]
    · rw [hlimit]
      exact .ite Iff.rfl (.failAt _ _)
        (.onStore fun _ hs => hs.gives_newList (forall₂_rangeItems _ start stop step))
  have hstep := forall₂_getElem? (forall₂_mono h hv) 2
  dsimp only
  generalize xs[2]? = x at hstep ⊢
  generalize ys[2]? = y at hstep ⊢
  cases hstep with
  | none => exact .bind (.pure (A := fun _ => Eq) fun _ => rfl) fun _ hn => hn ▸ hitems _
  | some hxy => exact .bind (sim_toInteger hxy p) fun _ hn => hn ▸ hitems _

theorem sim_builtin (b : Builtin) : Sim s gap w Value.Alike (b.call xs p) (b.call ys p) := by
  have harg := argument_alike h
  unfold Builtin.call
  rw [h.length_eq]
  refine .ite Iff.rfl (.failAt _ _) ?_
  cases b with
  | len =>
    refine .bind (.tryView (A := fun _ => Eq) p fun hv hs => .of_eq ?_) fun _ hn => ?_
    · rw [hs.countOf_eq ((harg 0).mono hv)]
    · exact hn ▸ .pure fun _ => .int _
  | upper | lower | trim => exact sim_mapText h p _
  | join =>
    refine .bind (sim_toText (harg 1) p) ?_
    intro v t t' hv ht
    refine .bind (.tryView p fun hu hs => hs.joinItems ?_) ?_
    · exact (harg 0).mono (Pairing.le_trans hv hu)
    · intro u vs vs' hu hvs
      refine .bind (sim_textsOf hvs p) fun _ hts => ?_
      rw [ht, hts]
      exact .pure fun _ => .text _
  | range => exact sim_rangeOf h p
  | keys =>
    refine .bind (.tryView (A := fun _ => Eq) p fun hv hs => .of_eq ?_) fun _ hns => ?_
    · rw [hs.keysOf_eq ((harg 0).mono hv)]
    · rw [hns]
      exact .onStore fun _ hs => hs.gives_newList (forall₂_text _ _)
  | default =>
    refine .pure fun hv => ?_
    rw [(harg 0).isAbsent_eq]
    split
    · exact (harg 1).mono hv
    · exact (harg 0).mono hv
  | str => exact .bind (sim_toText (harg 0) p) fun _ ht => ht ▸ .pure fun _ => .text _
  | int => exact .bind (sim_toInteger (harg 0) p) fun _ hn => hn ▸ .pure fun _ => .int _

end

end TemplateEngine
