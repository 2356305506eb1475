import Mathlib.Data.List.Forall2
import TemplateEngine.Heap.Store

/-!
# Values alike

Two runs on different stores give their places and their functions different numbers. A pairing says
which numbers correspond, and values, frames and cells are alike under a pairing if they are equal
up to these numbers. What is alike stays alike when more numbers are paired.
-/

namespace TemplateEngine

/-- Which places and which identities of functions correspond in two runs. -/
structure Pairing where
  place : Nat → Nat → Prop
  identity : Nat → Nat → Prop

namespace Pairing

/-- The second pairing has at least the correspondences of the first. -/
instance : LE Pairing where
  le w v := (∀ r q, w.place r q → v.place r q) ∧ ∀ i j, w.identity i j → v.identity i j

protected theorem le_refl (w : Pairing) : w ≤ w := ⟨fun _ _ h => h, fun _ _ h => h⟩

protected theorem le_trans {u v w : Pairing} (h : u ≤ v) (k : v ≤ w) : u ≤ w :=
  ⟨fun r q hr => k.1 r q (h.1 r q hr), fun i j hi => k.2 i j (h.2 i j hi)⟩

end Pairing

/-! ## Syntax -/

mutual

/-- Statements that differ in the identities of the functions they define only. -/
inductive StmtAlike (w : Pairing) : Stmt → Stmt → Prop
  | text (t : String) : StmtAlike w (.text t) (.text t)
  | output (e : Expr) : StmtAlike w (.output e) (.output e)
  | assign (target e : Expr) : StmtAlike w (.assign target e) (.assign target e)
  | assignGlobal (ref : VarRef) (e : Expr) : StmtAlike w (.assignGlobal ref e) (.assignGlobal ref e)
  | choose {bs bs' : List (Expr × List Stmt)} {o o' : Option (List Stmt)} :
    BranchesAlike w bs bs' → OtherwiseAlike w o o' → StmtAlike w (.choose bs o) (.choose bs' o')
  | each (ref : VarRef) (e : Expr) {b b' : List Stmt} {o o' : Option (List Stmt)} (p : Position) :
    BlockAlike w b b' → OtherwiseAlike w o o' →
    StmtAlike w (.each ref e b o p) (.each ref e b' o' p)
  | repeatWhile (e : Expr) {b b' : List Stmt} (p : Position) :
    BlockAlike w b b' → StmtAlike w (.repeatWhile e b p) (.repeatWhile e b' p)
  | define {i i' : Nat} (name : VarRef) (params : List String) {b b' : List Stmt} (p : Position) :
    w.identity i i' → BlockAlike w b b' →
    StmtAlike w (.define i name params b p) (.define i' name params b' p)
  | leave (e : Option Expr) (p : Position) : StmtAlike w (.leave e p) (.leave e p)
  | stop (p : Position) : StmtAlike w (.stop p) (.stop p)
  | next (p : Position) : StmtAlike w (.next p) (.next p)
  | capture (target : Expr) {b b' : List Stmt} :
    BlockAlike w b b' → StmtAlike w (.capture target b) (.capture target b')
  | include (path : Expr) (model : Option Expr) (p : Position) :
    StmtAlike w (.include path model p) (.include path model p)

inductive BlockAlike (w : Pairing) : List Stmt → List Stmt → Prop
  | nil : BlockAlike w [] []
  | cons {s s' : Stmt} {b b' : List Stmt} :
    StmtAlike w s s' → BlockAlike w b b' → BlockAlike w (s :: b) (s' :: b')

inductive BranchesAlike (w : Pairing) : List (Expr × List Stmt) → List (Expr × List Stmt) → Prop
  | nil : BranchesAlike w [] []
  | cons (e : Expr) {b b' : List Stmt} {bs bs' : List (Expr × List Stmt)} :
    BlockAlike w b b' → BranchesAlike w bs bs' → BranchesAlike w ((e, b) :: bs) ((e, b') :: bs')

inductive OtherwiseAlike (w : Pairing) : Option (List Stmt) → Option (List Stmt) → Prop
  | none : OtherwiseAlike w none none
  | some {b b' : List Stmt} : BlockAlike w b b' → OtherwiseAlike w (some b) (some b')

end

section

variable {w v : Pairing}

mutual

theorem StmtAlike.mono (h : w ≤ v) {s s' : Stmt} : StmtAlike w s s' → StmtAlike v s s'
  | .text t => .text t
  | .output e => .output e
  | .assign target e => .assign target e
  | .assignGlobal ref e => .assignGlobal ref e
  | .choose hb ho => .choose (hb.mono h) (ho.mono h)
  | .each ref e p hb ho => .each ref e p (hb.mono h) (ho.mono h)
  | .repeatWhile e p hb => .repeatWhile e p (hb.mono h)
  | .define name params p hi hb => .define name params p (h.2 _ _ hi) (hb.mono h)
  | .leave e p => .leave e p
  | .stop p => .stop p
  | .next p => .next p
  | .capture target hb => .capture target (hb.mono h)
  | .include path model p => .include path model p

theorem BlockAlike.mono (h : w ≤ v) {b b' : List Stmt} : BlockAlike w b b' → BlockAlike v b b'
  | .nil => .nil
  | .cons hs hb => .cons (hs.mono h) (hb.mono h)

theorem BranchesAlike.mono (h : w ≤ v) {bs bs' : List (Expr × List Stmt)} :
    BranchesAlike w bs bs' → BranchesAlike v bs bs'
  | .nil => .nil
  | .cons e hb hbs => .cons e (hb.mono h) (hbs.mono h)

theorem OtherwiseAlike.mono (h : w ≤ v) {o o' : Option (List Stmt)} :
    OtherwiseAlike w o o' → OtherwiseAlike v o o'
  | .none => .none
  | .some hb => .some (hb.mono h)

end

end

/-- Functions that templates define, which differ in their identities only. -/
structure FunctionDef.Alike (w : Pairing) (d d' : FunctionDef) : Prop where
  identity : w.identity d.identity d'.identity
  name : d.name = d'.name
  params : d.params = d'.params
  body : BlockAlike w d.body d'.body
  position : d.position = d'.position

/-! ## Values -/

inductive Function.Alike (w : Pairing) : Function → Function → Prop
  | builtin (b : Builtin) : Alike w (.builtin b) (.builtin b)
  | native {i j : Nat} (name operation : String) :
    w.identity i j → Alike w (.native ⟨i, name, operation⟩) (.native ⟨j, name, operation⟩)
  | defined {d d' : FunctionDef} : d.Alike w d' → Alike w (.defined d) (.defined d')

inductive Value.Alike (w : Pairing) : Value → Value → Prop
  | undefined : Alike w .undefined .undefined
  | null : Alike w .null .null
  | bool (b : Bool) : Alike w (.bool b) (.bool b)
  | int (n : Int) : Alike w (.int n) (.int n)
  | float (x : Float) : Alike w (.float x) (.float x)
  | text (t : String) : Alike w (.text t) (.text t)
  | list {r q : Nat} : w.place r q → Alike w (.list r) (.list q)
  | array {r q : Nat} : w.place r q → Alike w (.array r) (.array q)
  | map {r q : Nat} : w.place r q → Alike w (.map r) (.map q)
  | object {r q : Nat} : w.place r q → Alike w (.object r) (.object q)
  | record {r q : Nat} : w.place r q → Alike w (.record r) (.record q)
  | function {f g : Function} : f.Alike w g → Alike w (.function f) (.function g)

section

variable {w v : Pairing}

theorem FunctionDef.Alike.mono (h : w ≤ v) {d d' : FunctionDef} (hd : d.Alike w d') :
    d.Alike v d' :=
  { hd with identity := h.2 _ _ hd.identity, body := hd.body.mono h }

theorem Function.Alike.mono (h : w ≤ v) {f g : Function} (hf : f.Alike w g) : f.Alike v g := by
  cases hf with
  | builtin b => exact .builtin b
  | native name operation hi => exact .native name operation (h.2 _ _ hi)
  | defined hd => exact .defined (hd.mono h)

theorem Value.Alike.mono (h : w ≤ v) {a b : Value} (hv : a.Alike w b) : a.Alike v b := by
  cases hv with
  | undefined => exact .undefined
  | null => exact .null
  | bool b => exact .bool b
  | int n => exact .int n
  | float x => exact .float x
  | text t => exact .text t
  | list hr => exact .list (h.1 _ _ hr)
  | array hr => exact .array (h.1 _ _ hr)
  | map hr => exact .map (h.1 _ _ hr)
  | object hr => exact .object (h.1 _ _ hr)
  | record hr => exact .record (h.1 _ _ hr)
  | function hf => exact .function (hf.mono h)

theorem Function.Alike.name_eq {f g : Function} (h : f.Alike w g) : f.name = g.name := by
  cases h with
  | builtin b => rfl
  | native name operation _ => rfl
  | defined hd => exact congrArg VarRef.name hd.name

theorem Value.Alike.isAbsent_eq {a b : Value} (h : a.Alike w b) : a.isAbsent = b.isAbsent := by
  cases h <;> rfl

theorem Value.Alike.isUndefined_eq {a b : Value} (h : a.Alike w b) :
    a.isUndefined = b.isUndefined := by
  cases h <;> rfl

theorem Value.Alike.isPrimitive_eq {a b : Value} (h : a.Alike w b) :
    a.isPrimitive = b.isPrimitive := by
  cases h <;> rfl

/-- What is missing on both sides is undefined on both sides. -/
theorem Value.alike_getD {x y : Option Value} (h : Option.Rel (Value.Alike w) x y) :
    (x.getD .undefined).Alike w (y.getD .undefined) := by
  cases h with
  | none => exact .undefined
  | some hxy => exact hxy

theorem Value.alike_ofLiteral (w : Pairing) (l : Literal) :
    (Value.ofLiteral l).Alike w (.ofLiteral l) := by
  cases l with
  | null => exact .null
  | bool b => exact .bool b
  | int n => exact .int n
  | float x => exact .float x
  | text t => exact .text t

end

end TemplateEngine
