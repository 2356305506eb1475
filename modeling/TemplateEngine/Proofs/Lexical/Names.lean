import TemplateEngine.Source.Scope

/-!
# Loop names in code

A piece of code is lexical over some names if it looks up no other names in a loop frame
(`Expr.Lexical`, `Stmt.Lexical`). The body of a `for` may also look up its variable and `loop`; the
body of a function may look up no loop name at all, whatever surrounds its definition. Giving names
their scopes makes code lexical over the names that are bound by the loops around it
(`Block.lexical_resolve`), and numbering definitions leaves it so (`Block.Lexical.identify`).
-/

namespace TemplateEngine

/-- If the name is looked up in a loop frame, it is one of these. -/
def VarRef.Lexical (P : String → Prop) (ref : VarRef) : Prop := ref.scope = .loop → P ref.name

/-- No names. -/
def noName : String → Prop := fun _ => False

/-- The names that are bound inside of a `for` with a variable. -/
def withinLoop (P : String → Prop) (name : String) : String → Prop :=
  fun n => n = "loop" ∨ n = name ∨ P n

/-- The expression looks up only these names in a loop frame. -/
inductive Expr.Lexical (P : String → Prop) : Expr → Prop
  | literal (l : Literal) (p : Position) : Lexical P (.literal l p)
  | var {ref : VarRef} : ref.Lexical P → Lexical P (.var ref)
  | member {target : Expr} (name : String) (p : Position) :
    Lexical P target → Lexical P (.member target name p)
  | index {target key : Expr} (p : Position) :
    Lexical P target → Lexical P key → Lexical P (.index target key p)
  | call {callee : Expr} {args : List Expr} (p : Position) :
    Lexical P callee → (∀ e ∈ args, Lexical P e) → Lexical P (.call callee args p)
  | list {items : List Expr} (p : Position) :
    (∀ e ∈ items, Lexical P e) → Lexical P (.list items p)
  | map {entries : List (String × Expr)} (p : Position) :
    (∀ x ∈ entries, Lexical P x.2) → Lexical P (.map entries p)
  | unary (op : UnaryOp) {operand : Expr} (p : Position) :
    Lexical P operand → Lexical P (.unary op operand p)
  | binary (op : BinaryOp) {left right : Expr} (p : Position) :
    Lexical P left → Lexical P right → Lexical P (.binary op left right p)

/-- The statement looks up only these names in a loop frame, and in the body of a `for` its variable
and `loop`. -/
inductive Stmt.Lexical : (String → Prop) → Stmt → Prop
  | text {P : String → Prop} (t : String) : Lexical P (.text t)
  | output {P : String → Prop} {e : Expr} : e.Lexical P → Lexical P (.output e)
  | assign {P : String → Prop} {target e : Expr} :
    target.Lexical P → e.Lexical P → Lexical P (.assign target e)
  | assignGlobal {P : String → Prop} {ref : VarRef} {e : Expr} :
    ref.Lexical P → e.Lexical P → Lexical P (.assignGlobal ref e)
  | choose {P : String → Prop} {bs : List (Expr × List Stmt)} {o : Option (List Stmt)} :
    (∀ x ∈ bs, x.1.Lexical P) → (∀ x ∈ bs, ∀ s ∈ x.2, Lexical P s) →
    (∀ b ∈ o, ∀ s ∈ b, Lexical P s) → Lexical P (.choose bs o)
  | each {P : String → Prop} {ref : VarRef} {e : Expr} {b : List Stmt} {o : Option (List Stmt)}
    (p : Position) : e.Lexical P → (∀ s ∈ b, Lexical (withinLoop P ref.name) s) →
    (∀ b ∈ o, ∀ s ∈ b, Lexical P s) → Lexical P (.each ref e b o p)
  | repeatWhile {P : String → Prop} {e : Expr} {b : List Stmt} (p : Position) :
    e.Lexical P → (∀ s ∈ b, Lexical P s) → Lexical P (.repeatWhile e b p)
  | define {P : String → Prop} (i : Nat) {name : VarRef} (params : List String) {b : List Stmt}
    (p : Position) : name.Lexical P → (∀ s ∈ b, Lexical noName s) →
    Lexical P (.define i name params b p)
  | leave {P : String → Prop} {e : Option Expr} (p : Position) :
    (∀ x ∈ e, x.Lexical P) → Lexical P (.leave e p)
  | stop {P : String → Prop} (p : Position) : Lexical P (.stop p)
  | next {P : String → Prop} (p : Position) : Lexical P (.next p)
  | capture {P : String → Prop} {target : Expr} {b : List Stmt} :
    target.Lexical P → (∀ s ∈ b, Lexical P s) → Lexical P (.capture target b)
  | include {P : String → Prop} {path : Expr} {model : Option Expr} (p : Position) :
    path.Lexical P → (∀ x ∈ model, x.Lexical P) → Lexical P (.include path model p)

/-- The statements look up only these names in a loop frame. -/
def Block.Lexical (P : String → Prop) (b : Block) : Prop := ∀ s ∈ b, s.Lexical P

theorem Block.Lexical.otherwise {P : String → Prop} {b : Block} (h : b.Lexical P) :
    ∀ x ∈ some b, Block.Lexical P x := by
  rintro _ ⟨⟩
  exact h

/-- The body looks up no name of a loop that is not in it. -/
def FunctionDef.Lexical (d : FunctionDef) : Prop := Block.Lexical noName d.body

/-- The template looks up no name of a loop that is not in it. -/
def Template.Lexical (t : Template) : Prop := Block.Lexical noName t.body

/-! ## Giving names their scopes -/

mutual

/-- The names to which a statement binds functions and global assignments. -/
def Stmt.globalRefs : Stmt → List VarRef
  | .assignGlobal ref _ => [ref]
  | .choose branches otherwise =>
    globalRefsInBranches branches ++
      match otherwise with
      | none => []
      | some block => globalRefs block
  | .each _ _ body otherwise _ =>
    globalRefs body ++
      match otherwise with
      | none => []
      | some block => globalRefs block
  | .repeatWhile _ body _ => globalRefs body
  | .define _ name _ body _ => name :: globalRefs body
  | .capture _ body => globalRefs body
  | .text _ | .output _ | .assign _ _ | .leave _ _ | .stop _ | .next _ | .include _ _ _ => []

/-- The names to which a block binds functions and global assignments. -/
def globalRefs : List Stmt → List VarRef
  | [] => []
  | s :: rest => s.globalRefs ++ globalRefs rest

/-- The names to which the bodies of branches bind functions and global assignments. -/
def globalRefsInBranches : List (Expr × List Stmt) → List VarRef
  | [] => []
  | (_, body) :: rest => globalRefs body ++ globalRefsInBranches rest

end

/-- The names that are looked up in a loop frame at a place. -/
def Scope.loopNames (s : Scope) : String → Prop := fun n => s.kindOf n = .loop

namespace Scope

theorem kindOf_eq_loop_iff (s : Scope) (n : String) :
    s.kindOf n = .loop ↔ some n ∈ s.loops ∨ n = "loop" ∧ ∃ x ∈ s.loops, x.isSome := by
  unfold kindOf
  split
  · next h => simpa using h
  · next h =>
    simp only [Bool.or_eq_true, List.contains_eq_mem, decide_eq_true_eq, Bool.and_eq_true,
      List.any_eq_true] at h
    simp only [h, iff_false]
    split <;> nofun

/-- No loop surrounds the top level, and none surrounds the body of a function. -/
theorem loopNames_of_loops_eq_nil {s : Scope} (h : s.loops = []) : s.loopNames = noName := by
  funext n
  simp [loopNames, noName, kindOf_eq_loop_iff, h]

theorem loopNames_inside_some (s : Scope) (name : String) :
    (s.inside (some name)).loopNames = withinLoop s.loopNames name := by
  funext n
  simp only [loopNames, withinLoop, kindOf_eq_loop_iff, inside, List.mem_cons, Option.some.injEq,
    eq_iff_iff]
  constructor
  · rintro ((rfl | h) | ⟨rfl, _⟩)
    · exact .inr (.inl rfl)
    · exact .inr (.inr (.inl h))
    · exact .inl rfl
  · rintro (rfl | rfl | h | ⟨rfl, x, hx, hsome⟩)
    · exact .inr ⟨rfl, some name, .inl rfl, rfl⟩
    · exact .inl (.inl rfl)
    · exact .inl (.inr h)
    · exact .inr ⟨rfl, x, .inr hx, hsome⟩

/-- A loop with a condition binds no names. -/
theorem loopNames_inside_none (s : Scope) : (s.inside none).loopNames = s.loopNames := by
  funext n
  simp [loopNames, kindOf_eq_loop_iff, inside]

end Scope

mutual

theorem Expr.lexical_resolve (s : Scope) : ∀ e : Expr, (e.resolve s).Lexical s.loopNames
  | .literal l p => .literal l p
  | .var _ => .var id
  | .member target name p => .member name p (target.lexical_resolve s)
  | .index target key p => .index p (target.lexical_resolve s) (key.lexical_resolve s)
  | .call callee args p => .call p (callee.lexical_resolve s) (lexical_resolveItems s args)
  | .list items p => .list p (lexical_resolveItems s items)
  | .map entries p => .map p (lexical_resolveEntries s entries)
  | .unary op operand p => .unary op p (operand.lexical_resolve s)
  | .binary op left right p => .binary op p (left.lexical_resolve s) (right.lexical_resolve s)

theorem lexical_resolveItems (s : Scope) :
    ∀ es : List Expr, ∀ e ∈ resolveItems s es, e.Lexical s.loopNames
  | [] => nofun
  | e :: rest => List.forall_mem_cons.2 ⟨e.lexical_resolve s, lexical_resolveItems s rest⟩

theorem lexical_resolveEntries (s : Scope) :
    ∀ es : List (String × Expr), ∀ x ∈ resolveEntries s es, x.2.Lexical s.loopNames
  | [] => nofun
  | (_, e) :: rest =>
    List.forall_mem_cons.2 ⟨e.lexical_resolve s, lexical_resolveEntries s rest⟩

end

/-- A name that is not looked up in a loop frame may stand anywhere. -/
theorem VarRef.Lexical.of_global {P : String → Prop} {ref : VarRef} (h : ref.scope = .global) :
    ref.Lexical P := fun hloop => nomatch h.symm.trans hloop

mutual

theorem Stmt.lexical_resolve (s : Scope) : ∀ stmt : Stmt,
    (∀ ref ∈ stmt.globalRefs, ref.scope = .global) → (stmt.resolve s).Lexical s.loopNames
  | .text t, _ => .text t
  | .output e, _ => .output (e.lexical_resolve s)
  | .assign target e, _ => .assign (target.lexical_resolve s) (e.lexical_resolve s)
  | .assignGlobal ref e, h =>
    .assignGlobal (.of_global (h ref (by simp [Stmt.globalRefs]))) (e.lexical_resolve s)
  | .choose bs none, h => by
    simp only [Stmt.globalRefs, List.append_nil] at h
    exact .choose (lexical_resolveConditions s bs) (lexical_resolveBranches s bs h) nofun
  | .choose bs (some b), h => by
    simp only [Stmt.globalRefs, List.forall_mem_append] at h
    exact .choose (lexical_resolveConditions s bs) (lexical_resolveBranches s bs h.1)
      (Block.Lexical.otherwise (lexical_resolveBlock s b h.2))
  | .each ref e b none p, h => by
    simp only [Stmt.globalRefs, List.append_nil] at h
    exact .each p (e.lexical_resolve s)
      (s.loopNames_inside_some ref.name ▸ lexical_resolveBlock _ b h) nofun
  | .each ref e b (some o) p, h => by
    simp only [Stmt.globalRefs, List.forall_mem_append] at h
    exact .each p (e.lexical_resolve s)
      (s.loopNames_inside_some ref.name ▸ lexical_resolveBlock _ b h.1)
      (Block.Lexical.otherwise (lexical_resolveBlock s o h.2))
  | .repeatWhile e b p, h =>
    .repeatWhile p (e.lexical_resolve s)
      (s.loopNames_inside_none ▸ lexical_resolveBlock _ b h)
  | .define i name params b p, h => by
    simp only [Stmt.globalRefs, List.forall_mem_cons] at h
    -- the scope of a body forgets the loops around the definition
    exact .define i params p (.of_global h.1)
      (Scope.loopNames_of_loops_eq_nil (s := .body params b) rfl ▸ lexical_resolveBlock _ b h.2)
  | .leave none p, _ => .leave p nofun
  | .leave (some e) p, _ => .leave p (by simpa using e.lexical_resolve s)
  | .stop p, _ => .stop p
  | .next p, _ => .next p
  | .capture target b, h => .capture (target.lexical_resolve s) (lexical_resolveBlock s b h)
  | .include path none p, _ => .include p (path.lexical_resolve s) nofun
  | .include path (some e) p, _ =>
    .include p (path.lexical_resolve s) (by simpa using e.lexical_resolve s)

theorem lexical_resolveBlock (s : Scope) : ∀ b : List Stmt,
    (∀ ref ∈ globalRefs b, ref.scope = .global) → Block.Lexical s.loopNames (resolveBlock s b)
  | [], _ => nofun
  | stmt :: rest, h => by
    simp only [globalRefs, List.forall_mem_append] at h
    exact List.forall_mem_cons.2 ⟨stmt.lexical_resolve s h.1, lexical_resolveBlock s rest h.2⟩

theorem lexical_resolveConditions (s : Scope) : ∀ bs : List (Expr × List Stmt),
    ∀ x ∈ resolveBranches s bs, x.1.Lexical s.loopNames
  | [] => nofun
  | (e, _) :: rest => List.forall_mem_cons.2 ⟨e.lexical_resolve s, lexical_resolveConditions s rest⟩

theorem lexical_resolveBranches (s : Scope) : ∀ bs : List (Expr × List Stmt),
    (∀ ref ∈ globalRefsInBranches bs, ref.scope = .global) →
    ∀ x ∈ resolveBranches s bs, Block.Lexical s.loopNames x.2
  | [], _ => nofun
  | (_, body) :: rest, h => by
    simp only [globalRefsInBranches, List.forall_mem_append] at h
    exact List.forall_mem_cons.2
      ⟨lexical_resolveBlock s body h.1, lexical_resolveBranches s rest h.2⟩

end

/-- Giving the names of a template their scopes makes it lexical. -/
theorem Block.lexical_resolve {b : Block} (h : ∀ ref ∈ globalRefs b, ref.scope = .global) :
    Block.Lexical noName (resolveBlock .top b) :=
  Scope.loopNames_of_loops_eq_nil (s := .top) rfl ▸ lexical_resolveBlock .top b h

/-! ## Numbering definitions -/

mutual

theorem Stmt.Lexical.identify {P : String → Prop} (n : Nat) :
    ∀ {s : Stmt}, s.Lexical P → (s.identify n).1.Lexical P
  | .text t, _ => .text t
  | .output _, h => h
  | .assign _ _, h => h
  | .assignGlobal _ _, h => h
  | .choose _ none, .choose hc hb _ =>
    .choose (conditions_identify n hc) (branches_identify n hb) nofun
  | .choose _ (some b), .choose hc hb ho =>
    .choose (conditions_identify n hc) (branches_identify n hb)
      (Block.Lexical.otherwise (block_identify _ (ho b rfl)))
  | .each _ _ _ none _, .each p he hb _ => .each p he (block_identify n hb) nofun
  | .each _ _ _ (some o) _, .each p he hb ho =>
    .each p he (block_identify n hb) (Block.Lexical.otherwise (block_identify _ (ho o rfl)))
  | .repeatWhile _ _ _, .repeatWhile p he hb => .repeatWhile p he (block_identify n hb)
  | .define _ _ _ _ _, .define _ params p hname hb =>
    .define n params p hname (block_identify (n + 1) hb)
  | .leave _ _, h => h
  | .stop p, _ => .stop p
  | .next p, _ => .next p
  | .capture _ _, .capture ht hb => .capture ht (block_identify n hb)
  | .include _ _ _, h => h

theorem block_identify {P : String → Prop} (n : Nat) :
    ∀ {b : List Stmt}, Block.Lexical P b → Block.Lexical P (identifyBlock n b).1
  | [], _ => nofun
  | _ :: _, h => List.forall_mem_cons.2
    ⟨(List.forall_mem_cons.1 h).1.identify n, block_identify _ (List.forall_mem_cons.1 h).2⟩

theorem conditions_identify {P : String → Prop} (n : Nat) : ∀ {bs : List (Expr × List Stmt)},
    (∀ x ∈ bs, x.1.Lexical P) → ∀ x ∈ (identifyBranches n bs).1, x.1.Lexical P
  | [], _ => nofun
  | (_, _) :: _, h => List.forall_mem_cons.2
    ⟨(List.forall_mem_cons.1 h).1, conditions_identify _ (List.forall_mem_cons.1 h).2⟩

theorem branches_identify {P : String → Prop} (n : Nat) : ∀ {bs : List (Expr × List Stmt)},
    (∀ x ∈ bs, Block.Lexical P x.2) → ∀ x ∈ (identifyBranches n bs).1, Block.Lexical P x.2
  | [], _ => nofun
  | (_, _) :: _, h => List.forall_mem_cons.2
    ⟨block_identify n (List.forall_mem_cons.1 h).1,
      branches_identify _ (List.forall_mem_cons.1 h).2⟩

end

theorem Template.Lexical.identify {t : Template} (h : t.Lexical) (n : Nat) :
    (t.identify n).1.Lexical := block_identify (n + 1) h

end TemplateEngine
