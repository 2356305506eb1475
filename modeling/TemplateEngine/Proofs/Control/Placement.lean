import TemplateEngine.Proofs.Lexical.Bodies
import TemplateEngine.Proofs.Nesting.Flattening
import TemplateEngine.Proofs.Scoping.Rule

/-!
# Where loop controls may stand

A `break` or a `continue` belongs into the body of a loop, and the loop has to stand in the same
function (`Block.ControlsLoops`). The pass that looks for stray controls keeps whether one may stand
at the place where it is (`admitsControl`), and it finds none exactly if all of them stand where
they belong (`strayControl?_eq_none_iff`). What it finds does not depend on the scopes of names or
on the numbers of functions, and if it finds none in a block then it finds none in the bodies of the
functions in it.

The pass stops at the first stray control. All of them can be listed as well (`strays`): they are
the controls that no loop in the same function surrounds (`mem_strays_iff`), and the list has the
order in which they are written (`strays_sublist`). The pass finds the first of the list
(`strayControl?_eq_head?`).
-/

namespace TemplateEngine

/-! ## The rule -/

/-- The block is the body of a loop. -/
def Surround.isLoop : Surround → Bool
  | .loop _ | .whileLoop => true
  | .function .. | .plain => false

/-- The statement is a `break` or a `continue`. -/
def Stmt.isLoopControl : Stmt → Bool
  | .stop _ | .next _ => true
  | _ => false

/-- Every `break` and `continue` in the block stands in the body of a loop that lies in the same
function, or in no function if it lies in none. -/
def Block.ControlsLoops (b : Block) : Prop :=
  ∀ path inside, Within b path inside → ∀ s ∈ inside, s.isLoopControl = true →
    ∃ a ∈ nearby path, a.isLoop = true

/-- Whether a loop control may stand in a block, if it may or may not beside the block. -/
def Surround.admits (inLoop : Bool) : Surround → Bool
  | .loop _ | .whileLoop => true
  | .function .. => false
  | .plain => inLoop

/-- Whether a loop control may stand in these surroundings. -/
def admitsControl : List Surround → Bool
  | [] => false
  | a :: path => a.admits (admitsControl path)

theorem admitsControl_iff (path : List Surround) :
    admitsControl path = true ↔ ∃ a ∈ nearby path, a.isLoop = true := by
  induction path with
  | nil => simp [admitsControl, nearby]
  | cons a path ih =>
    cases a with
    | loop name =>
      have hmem : Surround.loop name ∈ nearby (.loop name :: path) := by simp [nearby]
      exact ⟨fun _ => ⟨_, hmem, rfl⟩, fun _ => rfl⟩
    | whileLoop =>
      have hmem : Surround.whileLoop ∈ nearby (.whileLoop :: path) := by simp [nearby]
      exact ⟨fun _ => ⟨_, hmem, rfl⟩, fun _ => rfl⟩
    | function params body => simp [admitsControl, Surround.admits, nearby]
    | plain =>
      have hnearby : nearby (.plain :: path) = .plain :: nearby path := by simp [nearby]
      have hplain : Surround.plain.isLoop = false := rfl
      simpa [admitsControl, Surround.admits, hnearby, hplain] using ih

/-! ## The pass -/

theorem strayControl?_eq_none {inLoop : Bool} {b : Block} :
    strayControl? inLoop b = none ↔ ∀ s ∈ b, s.strayControl? inLoop = none := by
  induction b with
  | nil => simp [strayControl?]
  | cons s rest ih => simp only [strayControl?, Option.or_eq_none_iff, List.forall_mem_cons, ih]

theorem strayInBranches?_eq_none {inLoop : Bool} {bs : List (Expr × Block)} :
    strayInBranches? inLoop bs = none ↔ ∀ x ∈ bs, strayControl? inLoop x.2 = none := by
  induction bs with
  | nil => simp [strayInBranches?]
  | cons x rest ih =>
    obtain ⟨e, body⟩ := x
    simp only [strayInBranches?, Option.or_eq_none_iff, List.forall_mem_cons, ih]

/-- A statement has no stray control if it is none and its blocks have none. -/
theorem Stmt.strayControl?_eq_none {inLoop : Bool} {s : Stmt} :
    s.strayControl? inLoop = none ↔ (s.isLoopControl = true → inLoop = true) ∧
      ∀ x ∈ s.blocks, TemplateEngine.strayControl? (x.1.admits inLoop) x.2 = none := by
  cases s with
  | choose branches otherwise =>
    cases otherwise with
    | none =>
      have hblocks : (Stmt.choose branches none).blocks =
          branches.map fun branch => (.plain, branch.2) := by simp [blocks]
      rw [hblocks, List.forall_mem_map]
      simp only [Stmt.strayControl?, Option.or_none, strayInBranches?_eq_none, Surround.admits]
      simp [isLoopControl]
    | some block =>
      have hblocks : (Stmt.choose branches (some block)).blocks =
          branches.map (fun branch => (.plain, branch.2)) ++ [(.plain, block)] := by simp [blocks]
      rw [hblocks, List.forall_mem_append, List.forall_mem_map, List.forall_mem_singleton]
      simp only [Stmt.strayControl?, Option.or_eq_none_iff, strayInBranches?_eq_none,
        Surround.admits]
      simp [isLoopControl]
  | each ref items body otherwise p =>
    cases otherwise <;> simp [Stmt.strayControl?, isLoopControl, blocks, Surround.admits]
  | repeatWhile | define | capture | stop | next =>
    simp [Stmt.strayControl?, isLoopControl, blocks, Surround.admits]
  | _ => simp [Stmt.strayControl?, isLoopControl, blocks]

/-- What the pass says of a block, it says of the blocks in it. -/
theorem Within.strayControl? {root b : Block} {path : List Surround} (h : Within root path b)
    (hroot : TemplateEngine.strayControl? false root = none) :
    TemplateEngine.strayControl? (admitsControl path) b = none := by
  induction h with
  | root => exact hroot
  | inner _ hs hx ih =>
    have hstmt := strayControl?_eq_none.1 ih _ hs
    exact (Stmt.strayControl?_eq_none.1 hstmt).2 _ hx

/-- The pass finds no stray control exactly if all controls stand where they belong. -/
theorem strayControl?_eq_none_iff (root : Block) :
    strayControl? false root = none ↔ root.ControlsLoops := by
  constructor
  · intro h path inside hinside s hs hcontrol
    have hstmt := strayControl?_eq_none.1 (hinside.strayControl? h) s hs
    exact (admitsControl_iff path).1 ((Stmt.strayControl?_eq_none.1 hstmt).1 hcontrol)
  · intro h
    -- from the innermost blocks outwards, each at its place in the whole
    have hall : ∀ b : Block, ∀ path, Within root path b →
        strayControl? (admitsControl path) b = none := by
      intro b
      induction b using Block.induction with
      | h b ih =>
        intro path hb
        refine strayControl?_eq_none.2 fun s hs => Stmt.strayControl?_eq_none.2 ⟨?_, ?_⟩
        · intro hcontrol
          exact (admitsControl_iff path).2 (h path b hb s hs hcontrol)
        · intro x hx
          exact ih s hs x hx (x.1 :: path) (.inner hb hs hx)
    exact hall root [] .root

/-! ## Scopes and numbers -/

mutual

/-- Controls stand where they stood when names are given their scopes. -/
theorem Stmt.strayControl?_resolve (scope : Scope) (inLoop : Bool) :
    ∀ s : Stmt, (s.resolve scope).strayControl? inLoop = s.strayControl? inLoop
  | .choose branches none => by
    simp only [Stmt.resolve, Stmt.strayControl?, strayInBranches?_resolve scope inLoop branches]
  | .choose branches (some block) => by
    simp only [Stmt.resolve, Stmt.strayControl?, strayInBranches?_resolve scope inLoop branches,
      strayControl?_resolve scope inLoop block]
  | .each ref _ body none _ => by
    simp only [Stmt.resolve, Stmt.strayControl?,
      strayControl?_resolve (scope.inside (some ref.name)) true body]
  | .each ref _ body (some block) _ => by
    simp only [Stmt.resolve, Stmt.strayControl?,
      strayControl?_resolve (scope.inside (some ref.name)) true body,
      strayControl?_resolve scope inLoop block]
  | .repeatWhile _ body _ => by
    simp only [Stmt.resolve, Stmt.strayControl?,
      strayControl?_resolve (scope.inside none) true body]
  | .define _ _ params body _ => by
    simp only [Stmt.resolve, Stmt.strayControl?,
      strayControl?_resolve (Scope.body params body) false body]
  | .capture _ body => by
    simp only [Stmt.resolve, Stmt.strayControl?, strayControl?_resolve scope inLoop body]
  | .text _ | .output _ | .assign .. | .assignGlobal .. | .leave .. | .stop _ | .next _
  | .include .. => by simp only [Stmt.resolve, Stmt.strayControl?]

theorem strayControl?_resolve (scope : Scope) (inLoop : Bool) :
    ∀ b : List Stmt, strayControl? inLoop (resolveBlock scope b) = strayControl? inLoop b
  | [] => rfl
  | s :: rest => by
    simp only [resolveBlock, strayControl?, s.strayControl?_resolve scope inLoop,
      strayControl?_resolve scope inLoop rest]

theorem strayInBranches?_resolve (scope : Scope) (inLoop : Bool) :
    ∀ bs : List (Expr × List Stmt),
      strayInBranches? inLoop (resolveBranches scope bs) = strayInBranches? inLoop bs
  | [] => rfl
  | (_, body) :: rest => by
    simp only [resolveBranches, strayInBranches?, strayControl?_resolve scope inLoop body,
      strayInBranches?_resolve scope inLoop rest]

end

mutual

/-- Controls stand where they stood when functions are numbered. -/
theorem Stmt.strayControl?_identify (inLoop : Bool) :
    ∀ (s : Stmt) (n : Nat), (s.identify n).1.strayControl? inLoop = s.strayControl? inLoop
  | .choose branches none, n => by
    simp only [Stmt.identify, Stmt.strayControl?, strayInBranches?_identify inLoop branches]
  | .choose branches (some block), n => by
    simp only [Stmt.identify, Stmt.strayControl?, strayInBranches?_identify inLoop branches,
      strayControl?_identify inLoop block]
  | .each _ _ body none _, n => by
    simp only [Stmt.identify, Stmt.strayControl?, strayControl?_identify true body]
  | .each _ _ body (some block) _, n => by
    simp only [Stmt.identify, Stmt.strayControl?, strayControl?_identify true body,
      strayControl?_identify inLoop block]
  | .repeatWhile _ body _, n => by
    simp only [Stmt.identify, Stmt.strayControl?, strayControl?_identify true body]
  | .define _ _ _ body _, n => by
    simp only [Stmt.identify, Stmt.strayControl?, strayControl?_identify false body]
  | .capture _ body, n => by
    simp only [Stmt.identify, Stmt.strayControl?, strayControl?_identify inLoop body]
  | .text _, _ | .output _, _ | .assign .., _ | .assignGlobal .., _ | .leave .., _ | .stop _, _
  | .next _, _ | .include .., _ => by simp only [Stmt.identify, Stmt.strayControl?]

theorem strayControl?_identify (inLoop : Bool) :
    ∀ (b : List Stmt) (n : Nat), strayControl? inLoop (identifyBlock n b).1 = strayControl? inLoop b
  | [], _ => rfl
  | s :: rest, n => by
    simp only [identifyBlock, strayControl?, s.strayControl?_identify inLoop,
      strayControl?_identify inLoop rest]

theorem strayInBranches?_identify (inLoop : Bool) :
    ∀ (bs : List (Expr × List Stmt)) (n : Nat),
      strayInBranches? inLoop (identifyBranches n bs).1 = strayInBranches? inLoop bs
  | [], _ => rfl
  | (_, body) :: rest, n => by
    simp only [identifyBranches, strayInBranches?, strayControl?_identify inLoop body,
      strayInBranches?_identify inLoop rest]

end

/-! ## Bodies of functions -/

mutual

theorem Stmt.strayControl?_functions {inLoop : Bool} :
    ∀ s : Stmt, s.strayControl? inLoop = none →
      ∀ f ∈ s.functions, strayControl? false f.body = none
  | .choose branches none, h => by
    simp only [Stmt.strayControl?, Option.or_none] at h
    simpa only [Stmt.functions, List.append_nil] using strayControl?_functionsInBranches branches h
  | .choose branches (some block), h => by
    simp only [Stmt.strayControl?, Option.or_eq_none_iff] at h
    exact List.forall_mem_append.2
      ⟨strayControl?_functionsInBranches branches h.1, strayControl?_functionsIn block h.2⟩
  | .each _ _ body none _, h => by
    simp only [Stmt.strayControl?, Option.or_none] at h
    simpa only [Stmt.functions, List.append_nil] using strayControl?_functionsIn body h
  | .each _ _ body (some block) _, h => by
    simp only [Stmt.strayControl?, Option.or_eq_none_iff] at h
    exact List.forall_mem_append.2
      ⟨strayControl?_functionsIn body h.1, strayControl?_functionsIn block h.2⟩
  | .repeatWhile _ body _, h => by
    simp only [Stmt.strayControl?] at h
    exact strayControl?_functionsIn body h
  | .define _ _ _ body _, h => by
    simp only [Stmt.strayControl?] at h
    exact List.forall_mem_cons.2 ⟨h, strayControl?_functionsIn body h⟩
  | .capture _ body, h => by
    simp only [Stmt.strayControl?] at h
    exact strayControl?_functionsIn body h
  | .text _, _ | .output _, _ | .assign .., _ | .assignGlobal .., _ | .leave .., _ | .stop _, _
  | .next _, _ | .include .., _ => nofun

theorem strayControl?_functionsIn {inLoop : Bool} :
    ∀ b : List Stmt, strayControl? inLoop b = none →
      ∀ f ∈ functionsIn b, strayControl? false f.body = none
  | [], _ => nofun
  | s :: rest, h => by
    simp only [strayControl?, Option.or_eq_none_iff] at h
    exact List.forall_mem_append.2
      ⟨s.strayControl?_functions h.1, strayControl?_functionsIn rest h.2⟩

theorem strayControl?_functionsInBranches {inLoop : Bool} :
    ∀ bs : List (Expr × List Stmt), strayInBranches? inLoop bs = none →
      ∀ f ∈ functionsInBranches bs, strayControl? false f.body = none
  | [], _ => nofun
  | (_, body) :: rest, h => by
    simp only [strayInBranches?, Option.or_eq_none_iff] at h
    exact List.forall_mem_append.2
      ⟨strayControl?_functionsIn body h.1, strayControl?_functionsInBranches rest h.2⟩

end

/-! ## Stray controls -/

/-- The error of a control where no loop is around it. -/
def Stmt.control? : Stmt → Option ParseError
  | .stop p => some ⟨p, .outsideLoop "break"⟩
  | .next p => some ⟨p, .outsideLoop "continue"⟩
  | _ => none

/-- The error is that of a control in the block which no loop in the same function surrounds. -/
def Block.Strays (b : Block) (e : ParseError) : Prop :=
  ∃ path inside, Within b path inside ∧ ∃ s ∈ inside, s.control? = some e ∧
    ¬∃ a ∈ nearby path, a.isLoop = true

theorem Stmt.isLoopControl_iff {s : Stmt} :
    s.isLoopControl = true ↔ ∃ e, s.control? = some e := by
  cases s <;> simp [isLoopControl, control?]

/-- All controls stand in loops if and only if none is stray. -/
theorem Block.controlsLoops_iff {b : Block} : b.ControlsLoops ↔ ∀ e, ¬b.Strays e := by
  constructor
  · rintro h e ⟨path, inside, hinside, s, hs, hcontrol, hloop⟩
    exact hloop (h path inside hinside s hs (Stmt.isLoopControl_iff.2 ⟨e, hcontrol⟩))
  · intro h path inside hinside s hs hcontrol
    obtain ⟨e, he⟩ := Stmt.isLoopControl_iff.1 hcontrol
    by_contra hloop
    exact h e ⟨path, inside, hinside, s, hs, he, hloop⟩

/-! ## All stray controls -/

mutual

/-- The errors of the loop controls of a statement that no loop surrounds. -/
def Stmt.strays (inLoop : Bool) : Stmt → List ParseError
  | .stop p => if inLoop then [] else [⟨p, .outsideLoop "break"⟩]
  | .next p => if inLoop then [] else [⟨p, .outsideLoop "continue"⟩]
  | .choose branches otherwise =>
    straysInBranches inLoop branches ++
      match otherwise with
      | none => []
      | some block => strays inLoop block
  | .each _ _ body otherwise _ =>
    strays true body ++
      match otherwise with
      | none => []
      | some block => strays inLoop block
  | .repeatWhile _ body _ => strays true body
  | .define _ _ _ body _ => strays false body
  | .capture _ body => strays inLoop body
  | _ => []

/-- The errors of the loop controls of a block that no loop surrounds. -/
def strays (inLoop : Bool) : List Stmt → List ParseError
  | [] => []
  | s :: rest => s.strays inLoop ++ strays inLoop rest

/-- The errors of the loop controls in the bodies of branches that no loop surrounds. -/
def straysInBranches (inLoop : Bool) : List (Expr × List Stmt) → List ParseError
  | [] => []
  | (_, body) :: rest => strays inLoop body ++ straysInBranches inLoop rest

end

mutual

theorem Stmt.strayControl?_eq_head? (inLoop : Bool) :
    ∀ s : Stmt, s.strayControl? inLoop = (s.strays inLoop).head?
  | .stop p | .next p => by
    unfold Stmt.strayControl? Stmt.strays
    split <;> rfl
  | .choose branches none => by
    simp only [Stmt.strayControl?, Stmt.strays, List.append_nil, Option.or_none,
      strayInBranches?_eq_head? inLoop branches]
  | .choose branches (some block) => by
    simp only [Stmt.strayControl?, Stmt.strays, List.head?_append,
      strayInBranches?_eq_head? inLoop branches, strayControl?_eq_head? inLoop block]
  | .each _ _ body none _ => by
    simp only [Stmt.strayControl?, Stmt.strays, List.append_nil, Option.or_none,
      strayControl?_eq_head? true body]
  | .each _ _ body (some block) _ => by
    simp only [Stmt.strayControl?, Stmt.strays, List.head?_append,
      strayControl?_eq_head? true body, strayControl?_eq_head? inLoop block]
  | .repeatWhile _ body _ => by
    simp only [Stmt.strayControl?, Stmt.strays, strayControl?_eq_head? true body]
  | .define _ _ _ body _ => by
    simp only [Stmt.strayControl?, Stmt.strays, strayControl?_eq_head? false body]
  | .capture _ body => by
    simp only [Stmt.strayControl?, Stmt.strays, strayControl?_eq_head? inLoop body]
  | .text _ | .output _ | .assign .. | .assignGlobal .. | .leave .. | .include .. => by
    simp only [Stmt.strayControl?, Stmt.strays, List.head?_nil]

/-- The pass stops at the first of all stray controls. -/
theorem strayControl?_eq_head? (inLoop : Bool) :
    ∀ b : List Stmt, strayControl? inLoop b = (strays inLoop b).head?
  | [] => rfl
  | s :: rest => by
    simp only [strayControl?, strays, List.head?_append, s.strayControl?_eq_head? inLoop,
      strayControl?_eq_head? inLoop rest]

theorem strayInBranches?_eq_head? (inLoop : Bool) :
    ∀ bs : List (Expr × List Stmt),
      strayInBranches? inLoop bs = (straysInBranches inLoop bs).head?
  | [] => rfl
  | (_, body) :: rest => by
    simp only [strayInBranches?, straysInBranches, List.head?_append,
      strayControl?_eq_head? inLoop body, strayInBranches?_eq_head? inLoop rest]

end

/-! ## Which controls are stray -/

theorem mem_strays {inLoop : Bool} {b : Block} {e : ParseError} :
    e ∈ strays inLoop b ↔ ∃ s ∈ b, e ∈ s.strays inLoop := by
  induction b with
  | nil => simp [strays]
  | cons s rest ih => simp only [strays, List.mem_append, ih, List.exists_mem_cons_iff]

theorem mem_straysInBranches {inLoop : Bool} {bs : List (Expr × Block)} {e : ParseError} :
    e ∈ straysInBranches inLoop bs ↔ ∃ x ∈ bs, e ∈ strays inLoop x.2 := by
  induction bs with
  | nil => simp [straysInBranches]
  | cons x rest ih =>
    obtain ⟨c, body⟩ := x
    simp only [straysInBranches, List.mem_append, ih, List.exists_mem_cons_iff]

/-- A stray control of a statement is the statement itself or is in one of its blocks. -/
theorem Stmt.mem_strays {inLoop : Bool} {s : Stmt} {e : ParseError} :
    e ∈ s.strays inLoop ↔ (inLoop = false ∧ s.control? = some e) ∨
      ∃ x ∈ s.blocks, e ∈ TemplateEngine.strays (x.1.admits inLoop) x.2 := by
  cases s with
  | choose branches otherwise =>
    have hbranches : (∃ x ∈ branches, e ∈ TemplateEngine.strays inLoop x.2) ↔
        ∃ x ∈ branches.map fun branch => (Surround.plain, branch.2),
          e ∈ TemplateEngine.strays (x.1.admits inLoop) x.2 := by
      simp only [List.mem_map, exists_exists_and_eq_and, Surround.admits]
    cases otherwise with
    | none =>
      have hblocks : (Stmt.choose branches none).blocks =
          branches.map fun branch => (.plain, branch.2) := by simp [blocks]
      rw [hblocks, ← hbranches]
      simp [strays, mem_straysInBranches, control?]
    | some block =>
      have hblocks : (Stmt.choose branches (some block)).blocks =
          branches.map (fun branch => (.plain, branch.2)) ++ [(.plain, block)] := by simp [blocks]
      simp only [hblocks, List.mem_append, or_and_right, exists_or, ← hbranches]
      simp [strays, mem_straysInBranches, control?, Surround.admits]
  | each ref items body otherwise p =>
    cases otherwise <;> simp [strays, control?, blocks, Surround.admits]
  | repeatWhile | define | capture => simp [strays, control?, blocks, Surround.admits]
  | stop p | next p => cases inLoop <;> simp [strays, control?, blocks, eq_comm]
  | _ => simp [strays, control?, blocks]

/-- What is stray in a block that is in another is stray in the other. -/
theorem Within.mem_strays {root b : Block} {path : List Surround} (h : Within root path b)
    {e : ParseError} (he : e ∈ strays (admitsControl path) b) : e ∈ strays false root := by
  induction h with
  | root => exact he
  | inner _ hs hx ih =>
    exact ih (TemplateEngine.mem_strays.2 ⟨_, hs, Stmt.mem_strays.2 (.inr ⟨_, hx, he⟩)⟩)

/-- The list holds the errors of the stray controls, by induction on the blocks. -/
theorem mem_strays_iff {root : Block} {e : ParseError} :
    e ∈ strays false root ↔ root.Strays e := by
  have hloop (path : List Surround) :
      admitsControl path = false ↔ ¬∃ a ∈ nearby path, a.isLoop = true := by
    rw [← admitsControl_iff, Bool.not_eq_true]
  constructor
  · have hall : ∀ b : Block, ∀ path, Within root path b → e ∈ strays (admitsControl path) b →
        root.Strays e := by
      intro b
      induction b using Block.induction with
      | h b ih =>
        intro path hb he
        obtain ⟨s, hs, hes⟩ := mem_strays.1 he
        obtain ⟨hfree, hcontrol⟩ | ⟨x, hx, hex⟩ := Stmt.mem_strays.1 hes
        · exact ⟨path, b, hb, s, hs, hcontrol, (hloop path).1 hfree⟩
        · exact ih s hs x hx (x.1 :: path) (.inner hb hs hx) hex
    exact hall root [] .root
  · rintro ⟨path, inside, hinside, s, hs, hcontrol, hfree⟩
    exact hinside.mem_strays (mem_strays.2 ⟨s, hs, Stmt.mem_strays.2
      (.inl ⟨(hloop path).2 hfree, hcontrol⟩)⟩)

/-! ## The order of writing -/

/-- The place of a tag that is a loop control. -/
def Token.controlPlace? : Token → Option Position
  | .tag .break p | .tag .continue p => some p
  | _ => none

/-- The places of the loop controls in tokens. -/
def controlPlaces (ts : List Token) : List Position := ts.filterMap Token.controlPlace?

theorem controlPlaces_append (ts us : List Token) :
    controlPlaces (ts ++ us) = controlPlaces ts ++ controlPlaces us := List.filterMap_append

theorem controlPlaces_cons (t : Token) (ts : List Token) :
    (controlPlaces ts).Sublist (controlPlaces (t :: ts)) :=
  (List.sublist_cons_self t ts).filterMap _

theorem sublist_controlPlaces_append {ps : List Position} {ts : List Token}
    (h : ps.Sublist (controlPlaces ts)) (us : List Token) : ps.Sublist (controlPlaces (ts ++ us)) :=
  h.trans ((List.sublist_append_left ts us).filterMap _)

/-- The places of loop controls are kept in blocks. -/
theorem controlPlaces_forget (ts : List Token) :
    controlPlaces (ts.map Token.forget) = controlPlaces ts := by
  rw [controlPlaces, List.filterMap_map]
  refine List.filterMap_congr fun t _ => ?_
  rcases t with _ | _ | ⟨t, p⟩
  · rfl
  · rfl
  · cases t <;> rfl

mutual

theorem Stmt.strays_sublist (inLoop : Bool) : ∀ s : Stmt,
    ((s.strays inLoop).map (·.position)).Sublist (controlPlaces s.tokens)
  | .stop p | .next p => by
    cases inLoop
    · exact .refl _
    · exact List.nil_sublist _
  | .choose branches none => by
    simp only [Stmt.strays, Stmt.tokens, List.append_nil]
    exact sublist_controlPlaces_append (straysInBranches_sublist inLoop .if branches) _
  | .choose branches (some block) => by
    have hblock : ((strays inLoop block).map (·.position)).Sublist
        (controlPlaces (.tag .else .unknown :: blockTokens block)) := strays_sublist inLoop block
    simp only [Stmt.strays, Stmt.tokens, List.map_append]
    refine sublist_controlPlaces_append ?_ _
    rw [controlPlaces_append]
    exact (straysInBranches_sublist inLoop .if branches).append hblock
  | .each _ _ body none _ => by
    simp only [Stmt.strays, Stmt.tokens, List.append_nil]
    exact sublist_controlPlaces_append (strays_sublist true body) _
  | .each _ _ body (some block) _ => by
    have hbody : ((strays true body).map (·.position)).Sublist (controlPlaces (blockTokens body)) :=
      strays_sublist true body
    have hblock : ((strays inLoop block).map (·.position)).Sublist
        (controlPlaces (.tag .else .unknown :: blockTokens block)) := strays_sublist inLoop block
    simp only [Stmt.strays, Stmt.tokens, List.map_append]
    refine sublist_controlPlaces_append ?_ _
    rw [List.cons_append]
    refine .trans ?_ (controlPlaces_cons _ _)
    rw [controlPlaces_append]
    exact hbody.append hblock
  | .repeatWhile _ body _ => sublist_controlPlaces_append (strays_sublist true body) _
  | .define _ _ _ body _ => sublist_controlPlaces_append (strays_sublist false body) _
  | .capture _ body => sublist_controlPlaces_append (strays_sublist inLoop body) _
  | .text _ | .output _ | .assign .. | .assignGlobal .. | .leave .. | .include .. =>
    List.nil_sublist _

/-- The list is in the order of writing. -/
theorem strays_sublist (inLoop : Bool) : ∀ b : List Stmt,
    ((strays inLoop b).map (·.position)).Sublist (controlPlaces (blockTokens b))
  | [] => List.nil_sublist _
  | s :: rest => by
    simp only [strays, blockTokens, List.map_append, controlPlaces_append]
    exact (s.strays_sublist inLoop).append (strays_sublist inLoop rest)

theorem straysInBranches_sublist (inLoop : Bool) (begins : Expr → Tag) :
    ∀ bs : List (Expr × List Stmt),
      ((straysInBranches inLoop bs).map (·.position)).Sublist
        (controlPlaces (branchTokens begins bs))
  | [] => List.nil_sublist _
  | (c, body) :: rest => by
    simp only [straysInBranches, branchTokens, List.map_append, List.cons_append]
    refine .trans ?_ (controlPlaces_cons _ _)
    rw [controlPlaces_append]
    exact (strays_sublist inLoop body).append (straysInBranches_sublist inLoop .elif rest)

end

end TemplateEngine
