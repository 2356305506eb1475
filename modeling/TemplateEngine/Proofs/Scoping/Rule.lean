import TemplateEngine.Proofs.Lexical.Parsing
import TemplateEngine.Proofs.Spelling.Sources
import TemplateEngine.Syntax.Nodes

/-!
# The rule of scopes

What a name means can be said of its place alone: of the blocks that surround it (`Within`). A name
is looked up in a loop frame if a `for` around it, in the same function, has it for its variable
(`BoundByLoop`); else it is local if its function has it for a parameter or assigns it bare
(`LocalTo`); else it is global. The pass that gives names their scopes follows this rule at every
place of every template that is read (`scopes_follow_the_rule`): with each block it keeps what the
surroundings of the block say (`Scope.Fits`), and collecting the names that a function assigns finds
just the bare targets in its body (`mem_assignedNames_iff`).
-/

namespace TemplateEngine

/-! ## The rule -/

/-- The surroundings that lie in the same function. -/
def nearby (path : List Surround) : List Surround := path.takeWhile fun a => !a.isFunction

/-- The name is the variable of a `for` around the place, in the same function, or it is `loop` and
there is such a `for`. -/
def BoundByLoop (path : List Surround) (n : String) : Prop :=
  .loop n ∈ nearby path ∨ n = "loop" ∧ ∃ m, .loop m ∈ nearby path

/-- The name is the bare target of a `set` or a `capture` somewhere in the block, outside of the
functions that are defined in it. -/
def AssignsBare (body : Block) (n : String) : Prop :=
  ∃ path b, Within body path b ∧ (∀ a ∈ path, a.isFunction = false) ∧
    ∃ s ∈ b, s.bareTarget? = some n

/-- There is a function around the place, and the innermost one has the name for a parameter or
assigns it bare. -/
def LocalTo (path : List Surround) (n : String) : Prop :=
  ∃ params body, path.find? (·.isFunction) = some (.function params body) ∧
    (n ∈ params ∨ AssignsBare body n)

/-! ## Names that a body assigns -/

theorem mem_assignedNames {b : Block} {n : String} :
    n ∈ assignedNames b ↔ ∃ s ∈ b, n ∈ s.assignedNames := by
  induction b with
  | nil => simp [assignedNames]
  | cons s rest ih => simp [assignedNames, ih]

theorem mem_assignedInBranches {bs : List (Expr × Block)} {n : String} :
    n ∈ assignedInBranches bs ↔ ∃ branch ∈ bs, n ∈ assignedNames branch.2 := by
  induction bs with
  | nil => simp [assignedInBranches]
  | cons branch rest ih => simp [assignedInBranches, ih]

/-- A statement assigns its own target and what its blocks assign. -/
theorem Stmt.mem_assignedNames {s : Stmt} {n : String} :
    n ∈ s.assignedNames ↔ s.bareTarget? = some n ∨
      ∃ x ∈ s.blocks, x.1.isFunction = false ∧ n ∈ TemplateEngine.assignedNames x.2 := by
  cases s with
  | choose branches otherwise =>
    have hbranches : n ∈ assignedInBranches branches ↔
        ∃ x ∈ branches.map fun branch => (Surround.plain, branch.2),
          x.1.isFunction = false ∧ n ∈ TemplateEngine.assignedNames x.2 := by
      rw [mem_assignedInBranches]
      constructor
      · rintro ⟨branch, hbranch, h⟩
        exact ⟨_, List.mem_map_of_mem hbranch, rfl, h⟩
      · rintro ⟨_, hx, -, h⟩
        obtain ⟨branch, hbranch, rfl⟩ := List.mem_map.1 hx
        exact ⟨branch, hbranch, h⟩
    cases otherwise with
    | none => simpa [assignedNames, bareTarget?, blocks] using hbranches
    | some b =>
      simp only [assignedNames, bareTarget?, blocks, List.mem_append, hbranches, or_and_right,
        exists_or]
      simp
  | each ref items body otherwise p =>
    cases otherwise <;> simp [assignedNames, bareTarget?, blocks]
  | assign target value =>
    cases target <;> simp [assignedNames, bareTarget?, blocks, eq_comm (a := n)]
  | capture target body =>
    cases target <;> simp [assignedNames, bareTarget?, blocks, eq_comm (a := n)]
  | _ => simp [assignedNames, bareTarget?, blocks]

/-- The names that are collected from a block are the bare targets in it. -/
theorem mem_assignedNames_iff {b : Block} {n : String} :
    n ∈ assignedNames b ↔ AssignsBare b n := by
  constructor
  · induction b using Block.induction with
    | h b ih =>
      intro h
      obtain ⟨s, hs, h⟩ := mem_assignedNames.1 h
      obtain htarget | ⟨x, hx, hplain, h⟩ := Stmt.mem_assignedNames.1 h
      · exact ⟨[], b, .root, nofun, s, hs, htarget⟩
      · obtain ⟨path, b', hwithin, hpath, htarget⟩ := ih s hs x hx h
        refine ⟨path ++ [x.1], b', (Within.inner .root hs hx).trans hwithin, ?_, htarget⟩
        simpa [or_imp, forall_and] using ⟨hpath, hplain⟩
  · rintro ⟨path, b', hwithin, hpath, s, hs, htarget⟩
    -- from the block of the target outwards
    have hinner : n ∈ assignedNames b' :=
      mem_assignedNames.2 ⟨s, hs, Stmt.mem_assignedNames.2 (.inl htarget)⟩
    clear hs htarget
    induction hwithin with
    | root => exact hinner
    | inner _ hs hx ih =>
      rw [List.forall_mem_cons] at hpath
      exact ih hpath.2 (mem_assignedNames.2
        ⟨_, hs, Stmt.mem_assignedNames.2 (.inr ⟨_, hx, hpath.1, hinner⟩)⟩)

mutual

/-- Scopes do not change what a statement assigns. -/
theorem Stmt.assignedNames_resolve (scope : Scope) :
    ∀ s : Stmt, (s.resolve scope).assignedNames = s.assignedNames
  | .text _ | .output _ | .assignGlobal .. | .define .. | .leave .. | .stop _ | .next _
  | .include .. => rfl
  | .assign target value => by
    cases target <;> rfl
  | .choose bs none => by
    simp only [Stmt.resolve, Stmt.assignedNames, assignedInBranches_resolve scope bs]
  | .choose bs (some b) => by
    simp only [Stmt.resolve, Stmt.assignedNames, assignedInBranches_resolve scope bs,
      assignedNames_resolve scope b]
  | .each ref items b none p => by
    simp only [Stmt.resolve, Stmt.assignedNames, assignedNames_resolve _ b]
  | .each ref items b (some o) p => by
    simp only [Stmt.resolve, Stmt.assignedNames, assignedNames_resolve _ b,
      assignedNames_resolve _ o]
  | .repeatWhile c b p => by
    simp only [Stmt.resolve, Stmt.assignedNames, assignedNames_resolve _ b]
  | .capture target b => by
    cases target <;>
      simp only [Stmt.resolve, Expr.resolve, Stmt.assignedNames, assignedNames_resolve _ b]

theorem assignedNames_resolve (scope : Scope) :
    ∀ b : List Stmt, assignedNames (resolveBlock scope b) = assignedNames b
  | [] => rfl
  | s :: rest => by
    simp only [resolveBlock, assignedNames, s.assignedNames_resolve scope,
      assignedNames_resolve scope rest]

theorem assignedInBranches_resolve (scope : Scope) : ∀ bs : List (Expr × List Stmt),
    assignedInBranches (resolveBranches scope bs) = assignedInBranches bs
  | [] => rfl
  | (_, b) :: rest => by
    simp only [resolveBranches, assignedInBranches, assignedNames_resolve scope b,
      assignedInBranches_resolve scope rest]

end

/-! ## What the pass keeps -/

/-- The scope inside of a block of a statement. -/
def Scope.enter (scope : Scope) : Surround → Scope
  | .loop name => scope.inside (some name)
  | .whileLoop => scope.inside none
  | .function params body => .body params body
  | .plain => scope

/-- The surrounding when names have been given their scopes. -/
def Surround.resolve : Surround → Surround
  | .function params body => .function params (resolveBlock (.body params body) body)
  | around => around

/-- The scope says of every name what the surroundings say. -/
structure Scope.Fits (scope : Scope) (path : List Surround) : Prop where
  loops : ∀ n, some n ∈ scope.loops ↔ .loop n ∈ nearby path
  locals : ∀ n, n ∈ scope.locals ↔ LocalTo path n

namespace Scope

variable {scope : Scope} {path : List Surround}

theorem fits_top : Scope.top.Fits [] :=
  ⟨fun n => by simp [top, nearby], fun n => by simp [top, LocalTo]⟩

/-- In a block the scope says what the surroundings of the block say. Only the body of a function
starts afresh. -/
theorem Fits.enter (h : scope.Fits path) (around : Surround) :
    (scope.enter around).Fits (around.resolve :: path) := by
  cases around with
  | loop name =>
    refine ⟨fun n => ?_, fun n => ?_⟩
    · simpa [Scope.enter, Surround.resolve, inside, nearby] using or_congr_right (h.loops n)
    · simpa [Scope.enter, Surround.resolve, inside, LocalTo] using h.locals n
  | whileLoop =>
    exact ⟨fun n => by simpa [Scope.enter, Surround.resolve, inside, nearby] using h.loops n,
      fun n => by simpa [Scope.enter, Surround.resolve, inside, LocalTo] using h.locals n⟩
  | function params body =>
    refine ⟨fun n => by simp [Scope.enter, Surround.resolve, Scope.body, nearby], fun n => ?_⟩
    have hbody :
        n ∈ assignedNames body ↔ AssignsBare (resolveBlock (.body params body) body) n := by
      rw [← mem_assignedNames_iff, assignedNames_resolve]
    simp only [Scope.enter, Surround.resolve, Scope.body, LocalTo, List.find?_cons,
      Surround.isFunction_function, Option.some.injEq, Surround.function.injEq, List.mem_append]
    constructor
    · intro hn
      exact ⟨params, _, ⟨rfl, rfl⟩, hn.imp_right hbody.1⟩
    · rintro ⟨_, _, ⟨rfl, rfl⟩, hn⟩
      exact hn.imp_right hbody.2
  | plain =>
    exact ⟨fun n => by simpa [Scope.enter, Surround.resolve, nearby] using h.loops n,
      fun n => by simpa [Scope.enter, Surround.resolve, LocalTo] using h.locals n⟩

/-- The scope of a name is the one that the rule gives. -/
theorem Fits.kindOf (h : scope.Fits path) (n : String) :
    (scope.kindOf n = .loop ↔ BoundByLoop path n) ∧
    (scope.kindOf n = .locals ↔ ¬ BoundByLoop path n ∧ LocalTo path n) ∧
    (scope.kindOf n = .global ↔ ¬ BoundByLoop path n ∧ ¬ LocalTo path n) := by
  have hloop : scope.kindOf n = .loop ↔ BoundByLoop path n := by
    rw [kindOf_eq_loop_iff, h.loops]
    refine or_congr_right (and_congr_right fun _ => ⟨?_, ?_⟩)
    · rintro ⟨_ | m, hm, hsome⟩
      · cases hsome
      · exact ⟨m, (h.loops m).1 hm⟩
    · rintro ⟨m, hm⟩
      exact ⟨some m, (h.loops m).2 hm, rfl⟩
  refine ⟨hloop, ?_⟩
  rw [← hloop, ← h.locals]
  unfold Scope.kindOf
  split
  · simp
  · split <;> simp_all

end Scope

/-! ## Blocks with scopes -/

theorem resolveBlock_eq_map (scope : Scope) (b : Block) :
    resolveBlock scope b = b.map (·.resolve scope) := by
  induction b with
  | nil => rfl
  | cons s rest ih => simp only [resolveBlock, List.map_cons, ih]

theorem resolveBranches_eq_map (scope : Scope) (bs : List (Expr × Block)) :
    resolveBranches scope bs =
      bs.map fun branch => (branch.1.resolve scope, resolveBlock scope branch.2) := by
  induction bs with
  | nil => rfl
  | cons branch rest ih => simp only [resolveBranches, List.map_cons, ih]

/-- The blocks of a statement are given the scopes inside of them. -/
theorem Stmt.blocks_resolve (scope : Scope) (s : Stmt) :
    (s.resolve scope).blocks =
      s.blocks.map fun x => (x.1.resolve, resolveBlock (scope.enter x.1) x.2) := by
  cases s with
  | choose bs otherwise =>
    cases otherwise <;>
      simp [Stmt.resolve, blocks, resolveBranches_eq_map, Surround.resolve, Scope.enter]
  | each ref items body otherwise p =>
    cases otherwise <;> simp [Stmt.resolve, blocks, Surround.resolve, Scope.enter]
  | _ => rfl

theorem Block.NamesGlobals.of_mem {b : Block} (h : Block.NamesGlobals b) {s : Stmt} (hs : s ∈ b) :
    ∀ ref ∈ s.globalRefs, ref.scope = .global := by
  induction b with
  | nil => cases hs
  | cons s' rest ih =>
    simp only [Block.NamesGlobals, globalRefs, List.forall_mem_append] at h
    obtain rfl | hs := List.mem_cons.1 hs
    · exact h.1
    · exact ih h.2 hs

theorem namesGlobals_of_mem_branches {bs : List (Expr × Block)}
    (h : ∀ ref ∈ globalRefsInBranches bs, ref.scope = .global) {branch : Expr × Block}
    (hbranch : branch ∈ bs) : Block.NamesGlobals branch.2 := by
  induction bs with
  | nil => cases hbranch
  | cons x rest ih =>
    simp only [globalRefsInBranches, List.forall_mem_append] at h
    obtain rfl | hbranch := List.mem_cons.1 hbranch
    · exact h.1
    · exact ih h.2 hbranch

/-- The blocks of a statement name their globals as globals if the statement does. -/
theorem Stmt.namesGlobals_of_mem_blocks {s : Stmt} (h : ∀ ref ∈ s.globalRefs, ref.scope = .global)
    {x : Surround × Block} (hx : x ∈ s.blocks) : Block.NamesGlobals x.2 := by
  cases s with
  | choose bs otherwise =>
    have hbs : ∀ ref ∈ globalRefsInBranches bs, ref.scope = .global := fun ref href =>
      h ref (by cases otherwise <;> simp [globalRefs, href])
    obtain hx | hx := List.mem_append.1 hx
    · obtain ⟨branch, hbranch, rfl⟩ := List.mem_map.1 hx
      exact namesGlobals_of_mem_branches hbs hbranch
    · obtain ⟨b, hb, rfl⟩ := List.mem_map.1 hx
      cases Option.mem_toList.1 hb
      exact fun ref href => h ref (by simp [globalRefs, href])
  | each ref items body otherwise p =>
    obtain rfl | hx := List.mem_cons.1 hx
    · exact fun ref href => h ref (by cases otherwise <;> simp [globalRefs, href])
    · obtain ⟨b, hb, rfl⟩ := List.mem_map.1 hx
      cases Option.mem_toList.1 hb
      exact fun ref href => h ref (by simp [globalRefs, href])
  | repeatWhile | capture =>
    cases List.mem_singleton.1 hx
    exact h
  | define =>
    cases List.mem_singleton.1 hx
    exact (List.forall_mem_cons.1 h).2
  | _ => cases hx

/-- The block is one whose names have been given the scopes that its surroundings say. -/
def Block.ScopedBy (path : List Surround) (b : Block) : Prop :=
  ∃ scope source, b = resolveBlock scope source ∧ scope.Fits path ∧ Block.NamesGlobals source

/-- Every block in a block whose names have been given scopes is one of that kind. -/
theorem Within.scopedBy {root b : Block} {path : List Surround} (h : Within root path b)
    (hroot : Block.ScopedBy [] root) : Block.ScopedBy path b := by
  induction h with
  | root => exact hroot
  | inner _ hs hx ih =>
    obtain ⟨scope, source, rfl, hfits, hglobals⟩ := ih
    rw [resolveBlock_eq_map] at hs
    obtain ⟨s, hmem, rfl⟩ := List.mem_map.1 hs
    rw [s.blocks_resolve] at hx
    obtain ⟨x, hblock, heq⟩ := List.mem_map.1 hx
    cases heq
    exact ⟨_, x.2, rfl, hfits.enter x.1,
      Stmt.namesGlobals_of_mem_blocks (hglobals.of_mem hmem) hblock⟩

/-! ## Single names -/

mutual

theorem Expr.nodes_resolve (scope : Scope) :
    ∀ e : Expr, (e.resolve scope).nodes = e.nodes.map (·.resolve scope)
  | .literal .. | .var _ => rfl
  | .member target name p => by
    simp only [Expr.resolve, Expr.nodes, List.map_cons, target.nodes_resolve scope]
  | .index target key p => by
    simp only [Expr.resolve, Expr.nodes, List.map_cons, List.map_append,
      target.nodes_resolve scope, key.nodes_resolve scope]
  | .call callee args p => by
    simp only [Expr.resolve, Expr.nodes, List.map_cons, List.map_append,
      callee.nodes_resolve scope, nodesOfItems_resolve scope args]
  | .list items p => by
    simp only [Expr.resolve, Expr.nodes, List.map_cons, nodesOfItems_resolve scope items]
  | .map entries p => by
    simp only [Expr.resolve, Expr.nodes, List.map_cons, nodesOfEntries_resolve scope entries]
  | .unary op operand p => by
    simp only [Expr.resolve, Expr.nodes, List.map_cons, operand.nodes_resolve scope]
  | .binary op left right p => by
    simp only [Expr.resolve, Expr.nodes, List.map_cons, List.map_append,
      left.nodes_resolve scope, right.nodes_resolve scope]

theorem nodesOfItems_resolve (scope : Scope) : ∀ es : List Expr,
    nodesOfItems (resolveItems scope es) = (nodesOfItems es).map (·.resolve scope)
  | [] => rfl
  | e :: rest => by
    simp only [resolveItems, nodesOfItems, List.map_append, e.nodes_resolve scope,
      nodesOfItems_resolve scope rest]

theorem nodesOfEntries_resolve (scope : Scope) : ∀ es : List (String × Expr),
    nodesOfEntries (resolveEntries scope es) = (nodesOfEntries es).map (·.resolve scope)
  | [] => rfl
  | (_, e) :: rest => by
    simp only [resolveEntries, nodesOfEntries, List.map_append, e.nodes_resolve scope,
      nodesOfEntries_resolve scope rest]

end

/-- A name in an expression has the scope that it was given. -/
theorem Expr.scope_of_mem_resolve {scope : Scope} {e : Expr} {ref : VarRef}
    (h : .var ref ∈ (e.resolve scope).nodes) : ref.scope = scope.kindOf ref.name := by
  rw [e.nodes_resolve scope, List.mem_map] at h
  obtain ⟨node, -, h⟩ := h
  cases node <;> cases h
  rfl

theorem Stmt.exprs_resolve (scope : Scope) (s : Stmt) :
    (s.resolve scope).exprs = s.exprs.map (·.resolve scope) := by
  cases s with
  | choose bs otherwise => simp [Stmt.resolve, Stmt.exprs, resolveBranches_eq_map]
  | leave value p => cases value <;> rfl
  | «include» path model p => cases model <;> rfl
  | _ => rfl

theorem Stmt.globalTarget?_resolve (scope : Scope) (s : Stmt) :
    (s.resolve scope).globalTarget? = s.globalTarget? := by
  cases s <;> rfl

theorem Stmt.mem_globalRefs_of_globalTarget? {s : Stmt} {ref : VarRef}
    (h : s.globalTarget? = some ref) : ref ∈ s.globalRefs := by
  cases s with
  | assignGlobal | define =>
    cases h
    simp [Stmt.globalRefs]
  | _ => cases h

/-- In a template that is read every name in an expression has the scope that the rule gives to its
place, and the names of functions and the targets of `global` are global. -/
theorem scopes_follow_the_rule {name source : String} {options : ParserOptions} {t : Template}
    (h : Template.parse name source options = .ok t) {path : List Surround} {b : Block}
    (hb : Within t.body path b) {s : Stmt} (hs : s ∈ b) :
    (∀ e ∈ s.exprs, ∀ ref, .var ref ∈ e.nodes →
      (ref.scope = .loop ↔ BoundByLoop path ref.name) ∧
      (ref.scope = .locals ↔ ¬ BoundByLoop path ref.name ∧ LocalTo path ref.name) ∧
      (ref.scope = .global ↔ ¬ BoundByLoop path ref.name ∧ ¬ LocalTo path ref.name)) ∧
    ∀ ref, s.globalTarget? = some ref → ref.scope = .global := by
  obtain ⟨body, hbody, rfl⟩ := Template.parse_eq_ok_iff.1 h
  obtain ⟨ps, block, hps, -, hblock, -, rfl⟩ := parseBlock_eq_ok_iff.1 hbody
  have hglobals : Block.NamesGlobals block := namesGlobals_ofTokens
    (namesGlobals_tokensOf options false (namesGlobals_of_piecesOf hps)) hblock
  obtain ⟨scope, source, rfl, hfits, hsource⟩ :=
    hb.scopedBy ⟨.top, block, rfl, Scope.fits_top, hglobals⟩
  rw [resolveBlock_eq_map] at hs
  obtain ⟨s, hmem, rfl⟩ := List.mem_map.1 hs
  constructor
  · intro e he ref href
    rw [s.exprs_resolve scope, List.mem_map] at he
    obtain ⟨e, -, rfl⟩ := he
    rw [Expr.scope_of_mem_resolve href]
    exact hfits.kindOf ref.name
  · intro ref href
    rw [s.globalTarget?_resolve scope] at href
    exact hsource.of_mem hmem ref (Stmt.mem_globalRefs_of_globalTarget? href)

/-! ## An instance -/

/-- A function in which a loop sets a name to the variable of the loop. -/
def lastOf : String :=
  "\x7b% function f(xs) %\x7d\x7b% for x in xs %\x7d\x7b% set y = x %\x7d\x7b% endfor %\x7d" ++
    "\x7b% endfunction %\x7d"

/-- The name that is set in a template of this form. -/
def Template.setInLoop? : Template → Option VarRef
  | ⟨_, _, [.define _ _ _ [.each _ _ [.assign (.var y) _] _ _] _]⟩ => some y
  | _ => none

theorem Template.exists_within_of_setInLoop? {t : Template} {y : VarRef}
    (h : t.setInLoop? = some y) :
    ∃ path b s, Within t.body path b ∧ s ∈ b ∧ .var y ∈ s.exprs := by
  unfold setInLoop? at h
  split at h
  · cases h
    exact ⟨_, _, _, .inner (.inner .root List.mem_cons_self List.mem_cons_self)
      List.mem_cons_self List.mem_cons_self, List.mem_cons_self, List.mem_cons_self⟩
  · cases h

theorem lastOf_follows_the_rule : ∃ t path b s y, Template.parse "t" lastOf .plain = .ok t ∧
    Within t.body path b ∧ s ∈ b ∧ .var y ∈ s.exprs ∧ y.name = "y" ∧
    (y.scope = .loop ↔ BoundByLoop path y.name) ∧
    (y.scope = .locals ↔ ¬ BoundByLoop path y.name ∧ LocalTo path y.name) ∧
    (y.scope = .global ↔ ¬ BoundByLoop path y.name ∧ ¬ LocalTo path y.name) := by
  have hread : ((Template.parse "t" lastOf .plain).toOption.bind Template.setInLoop?).any
      (·.name = "y") = true := by decide +kernel
  cases h : Template.parse "t" lastOf .plain with
  | error e =>
    rw [h] at hread
    cases hread
  | ok t =>
    rw [h] at hread
    cases hy : t.setInLoop? with
    | none =>
      rw [show (Except.ok t : Except ParseError Template).toOption = some t from rfl,
        Option.bind_some, hy] at hread
      cases hread
    | some y =>
      rw [show (Except.ok t : Except ParseError Template).toOption = some t from rfl,
        Option.bind_some, hy] at hread
      obtain ⟨path, b, s, hb, hs, he⟩ := Template.exists_within_of_setInLoop? hy
      have hrule := (scopes_follow_the_rule h hb hs).1 (.var y) he y (by simp [Expr.nodes])
      exact ⟨t, path, b, s, y, rfl, hb, hs, he, by simpa using hread, hrule⟩

end TemplateEngine
