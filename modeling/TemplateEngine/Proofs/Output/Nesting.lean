import TemplateEngine.State.Region

/-!
# Buffers within buffers

Output can be written, captured, taken and turned off and on in any order. Whatever is done, the
buffer that is closed gives the texts that were written while it was on top and output was on, and
the buffers below are left as they were when it was opened, except that the root may have been
emptied in between (`output_nests`).

Calls reach the stack at both ends: writing and closing at the top, taking at the bottom. So one
lemma says what a call does to a buffer at some level, to the root and to the buffers between them
(`OutputCall.stands_change`), as long as that level stays open (`StaysOpen`); what a whole run does
follows by induction on the calls.
-/

namespace TemplateEngine

open TemplateEngine.Action

/-! ## Calls -/

/-- What can be done with the output of a context. -/
inductive OutputCall
  | push
  | pop
  | text (t : String)
  | value (v : Value) (p : Position)
  | take
  | enable (on : Bool)

namespace OutputCall

/-- Does it, without what it gives. -/
def act : OutputCall → Action Unit
  | push => pushOutput
  | pop => do let _ ← popOutput
  | text t => writeText t
  | value v p => writeValue v p
  | take => do let _ ← takeOutput
  | enable on => setOutputEnabled on

/-- The text to be written. An absent value has none; a value without a text fails, and then there
is none either. -/
def shown (s : Store) : OutputCall → String
  | text t => t
  | value v _ => if v.isAbsent then "" else ((s.toText v).toOption).getD ""
  | push | pop | take | enable _ => ""

/-- Whether the root buffer is emptied. -/
def takesRoot : OutputCall → Bool
  | take => true
  | push | pop | text _ | value _ _ | enable _ => false

end OutputCall

/-- The context after some calls, each of which may have failed. -/
def Context.afterCalls (c : Context) (calls : List OutputCall) : Context :=
  calls.foldl (fun c call => (call.act c).2) c

/-- Before, between and after the calls, the buffer at a level is open. The root is at level 1. -/
def StaysOpen (level : Nat) : List OutputCall → Context → Prop
  | [], c => level ≤ c.output.depth
  | call :: rest, c => level ≤ c.output.depth ∧ StaysOpen level rest (call.act c).2

/-- The texts that the calls write while the buffer on top is at a level and output is on, one after
the other. -/
def writtenAt (level : Nat) : List OutputCall → Context → String
  | [], _ => ""
  | call :: rest, c =>
    (if c.output.depth = level ∧ c.output.enabled then call.shown c.store else "") ++
      writtenAt level rest (call.act c).2

/-- The same buffers, but with nothing in the root if it has been taken. -/
def Stack.emptied (buffers : Stack String) (taken : Bool) : Stack String :=
  ⟨if taken then "" else buffers.ground, buffers.above⟩

/-- The same context with other buffers. -/
def Context.withBuffers (c : Context) (buffers : Stack String) : Context :=
  { c with output := { c.output with buffers := buffers } }

/-! ## Reading runs -/

namespace Context

variable (c : Context)

@[simp] theorem afterCalls_nil : c.afterCalls [] = c := rfl

@[simp] theorem afterCalls_cons (call : OutputCall) (rest : List OutputCall) :
    c.afterCalls (call :: rest) = (call.act c).2.afterCalls rest := rfl

@[simp] theorem afterCalls_append (calls rest : List OutputCall) :
    c.afterCalls (calls ++ rest) = (c.afterCalls calls).afterCalls rest := List.foldl_append

end Context

theorem StaysOpen.le_depth {level : Nat} {calls : List OutputCall} {c : Context}
    (h : StaysOpen level calls c) : level ≤ c.output.depth := by
  cases calls with
  | nil => exact h
  | cons call rest => exact h.1

@[simp] theorem Stack.emptied_emptied (buffers : Stack String) (a b : Bool) :
    (buffers.emptied a).emptied b = buffers.emptied (a || b) := by
  cases a <;> cases b <;> rfl

@[simp] theorem Stack.size_emptied (buffers : Stack String) (taken : Bool) :
    (buffers.emptied taken).size = buffers.size := rfl

/-! ## One call -/

/-- Writing nothing does nothing. -/
theorem Output.write_empty (o : Output) : o.write "" = o := by
  obtain ⟨⟨ground, above⟩, enabled⟩ := o
  cases above <;> simp [Output.write, Stack.modifyTop]

namespace OutputCall

/-- What a call makes of the output. -/
def change (s : Store) (o : Output) : OutputCall → Output
  | push => o.push
  | pop => (o.pop?.map (·.2)).getD o
  | text t => o.write t
  | value v p => o.write ((value v p).shown s)
  | take => o.takeRoot.2
  | enable on => o.enable on

/-- Whether a call succeeds or fails, it changes the output and nothing else. -/
theorem act_snd (call : OutputCall) (c : Context) :
    (call.act c).2 = { c with output := call.change c.store c.output } := by
  cases call with
  | pop =>
    simp only [act, change, popOutput, bind_apply]
    cases c.output.pop? <;> rfl
  | value v p =>
    simp only [act, change, shown, writeValue]
    split
    · simp [Output.write_empty]
    · simp only [bind_apply, toText, tryView]
      cases c.store.toText v with
      | ok t => rfl
      | error e =>
        change c = { c with output := c.output.write "" }
        rw [Output.write_empty]
  | push | text t | take | enable on => rfl

end OutputCall

/-- The buffer above some others holds a text, whatever has been opened on top of it. -/
def Output.Stands (o : Output) (below : Stack String) (content : String) : Prop :=
  ∃ upper, o.buffers = ⟨below.ground, upper ++ content :: below.above⟩

namespace Output

variable {o : Output} {below : Stack String} {content : String}

/-- Every buffer but the root stands on others. -/
theorem exists_stands {level : Nat} (htwo : 2 ≤ level) (hle : level ≤ o.depth) :
    ∃ below content, o.Stands below content ∧ level = below.size + 1 := by
  obtain ⟨⟨ground, above⟩, enabled⟩ := o
  have hle : level ≤ above.length + 1 := hle
  cases hdrop : above.drop (above.length + 1 - level) with
  | nil =>
    have := congrArg List.length hdrop
    simp only [List.length_drop, List.length_nil] at this
    omega
  | cons content lower =>
    refine ⟨⟨ground, lower⟩, content, ⟨above.take (above.length + 1 - level), ?_⟩, ?_⟩
    · simp [← hdrop]
    · have := congrArg List.length hdrop
      simp only [List.length_drop, List.length_cons] at this
      simp only [Stack.size]
      omega

/-- Writing reaches the buffer only if it is on top. -/
theorem Stands.write (h : o.Stands below content) (t : String) :
    (o.write t).Stands below
      (content ++ if o.depth = below.size + 1 ∧ o.enabled then t else "") := by
  obtain ⟨upper, h⟩ := h
  cases hon : o.enabled with
  | false => exact ⟨upper, by simp [Output.write, hon, h]⟩
  | true =>
    cases upper with
    | nil =>
      refine ⟨[], ?_⟩
      simp [Output.write, Output.depth, Stack.size, Stack.modifyTop, hon, h]
    | cons u upper =>
      have hdepth : ¬o.depth = below.size + 1 := by
        simp only [Output.depth, Stack.size, h, List.length_append, List.length_cons]
        omega
      exact ⟨(u ++ t) :: upper, by simp [Output.write, Stack.modifyTop, hon, h, hdepth]⟩

end Output

/-- A call that leaves a buffer open adds to it what it writes there, empties the root if it takes
it, and does nothing else to the buffers below. -/
theorem OutputCall.stands_change {o : Output} {below : Stack String} {content : String}
    (h : o.Stands below content) (s : Store) (call : OutputCall)
    (hopen : below.size + 1 ≤ (call.change s o).depth) :
    (call.change s o).Stands (below.emptied call.takesRoot)
      (content ++ if o.depth = below.size + 1 ∧ o.enabled then call.shown s else "") := by
  cases call with
  | text t | value v p => exact h.write _
  | push =>
    obtain ⟨upper, h⟩ := h
    refine ⟨"" :: upper, ?_⟩
    simp [change, shown, Output.push, Stack.push, h, Stack.emptied, takesRoot]
  | pop =>
    obtain ⟨upper, h⟩ := h
    cases upper with
    | nil =>
      simp only [change, Output.pop?, Stack.pop?, Output.depth, Stack.size, h, List.nil_append,
        Option.map_some, Option.getD_some] at hopen
      omega
    | cons u upper =>
      refine ⟨upper, ?_⟩
      simp [change, shown, Output.pop?, Stack.pop?, h, Stack.emptied, takesRoot]
  | take =>
    obtain ⟨upper, h⟩ := h
    exact ⟨upper, by simp [change, shown, Output.takeRoot, h, Stack.emptied, takesRoot]⟩
  | enable on =>
    obtain ⟨upper, h⟩ := h
    exact ⟨upper, by simp [change, shown, Output.enable, h, Stack.emptied, takesRoot]⟩

/-- Only opening a buffer makes the stack higher. -/
theorem OutputCall.depth_change (s : Store) (o : Output) (call : OutputCall) :
    (call.change s o).depth ≤ o.depth ∨ call = .push := by
  cases call with
  | push => exact .inr rfl
  | text t | value v p => exact .inl (Nat.le_of_eq (Output.depth_write o _))
  | take | enable on => exact .inl (Nat.le_refl _)
  | pop =>
    left
    obtain ⟨⟨ground, above⟩, enabled⟩ := o
    cases above <;> simp [change, Output.pop?, Stack.pop?, Output.depth, Stack.size]

/-! ## Runs -/

/-- Over a run that leaves a buffer open, it gathers what is written to it, and the buffers below
stay as they are, but for the root. -/
theorem StaysOpen.stands {calls : List OutputCall} {c : Context} {below : Stack String}
    {content : String} (hopen : StaysOpen (below.size + 1) calls c)
    (h : c.output.Stands below content) :
    (c.afterCalls calls).output.Stands (below.emptied (calls.any OutputCall.takesRoot))
      (content ++ writtenAt (below.size + 1) calls c) := by
  induction calls generalizing c below content with
  | nil => simpa [writtenAt, Stack.emptied] using h
  | cons call rest ih =>
    obtain ⟨-, hrest⟩ := hopen
    have hstep : (call.act c).2.output.Stands (below.emptied call.takesRoot)
        (content ++ if c.output.depth = below.size + 1 ∧ c.output.enabled
          then call.shown c.store else "") := by
      have hle := hrest.le_depth
      rw [call.act_snd] at hle ⊢
      exact call.stands_change h c.store hle
    have hrest : StaysOpen ((below.emptied call.takesRoot).size + 1) rest (call.act c).2 := hrest
    have hrun := ih hrest hstep
    simpa only [Context.afterCalls_cons, Stack.emptied_emptied, List.any_cons, Stack.size_emptied,
      writtenAt, String.append_assoc] using hrun

/-- A level that is open at the end has been open all the time, or else there is a last call that
opened it. -/
theorem staysOpen_or_opened (level : Nat) (calls : List OutputCall) (c : Context)
    (h : level ≤ (c.afterCalls calls).output.depth) :
    StaysOpen level calls c ∨
      ∃ before middle, calls = before ++ .push :: middle ∧
        (c.afterCalls before).output.depth + 1 = level ∧
        StaysOpen level middle (c.afterCalls (before ++ [.push])) := by
  induction calls generalizing c with
  | nil => exact .inl h
  | cons call rest ih =>
    obtain hrest | ⟨before, middle, rfl, hlevel, hmiddle⟩ := ih (call.act c).2 h
    · by_cases hle : level ≤ c.output.depth
      · exact .inl ⟨hle, hrest⟩
      · have hdepth := hrest.le_depth
        rw [call.act_snd] at hdepth
        obtain hlow | rfl := call.depth_change c.store c.output
        · exact absurd (Nat.le_trans hdepth hlow) hle
        · have hpush : level ≤ c.output.depth + 1 := hdepth
          exact .inr ⟨[], rest, rfl, by simp only [Context.afterCalls_nil]; omega, hrest⟩
    · exact .inr ⟨call :: before, middle, rfl, hlevel, hmiddle⟩

/-- Closing a buffer gives what it gathered and leaves those below it. -/
theorem popOutput_of_stands {d : Context} {below : Stack String} {content : String}
    (h : d.output.Stands below content) (hdepth : d.output.depth = below.size + 1) :
    popOutput d = (.ok content, d.withBuffers below) := by
  obtain ⟨upper, h⟩ := h
  cases upper with
  | nil => simp [popOutput, Output.pop?, Stack.pop?, h, Context.withBuffers]
  | cons u upper =>
    simp only [Output.depth, Stack.size, h, List.length_append, List.length_cons] at hdepth
    omega

/-- A buffer that is closed gives the texts that were written while it was on top and output was on,
behind what it held already if it was open before the run, and leaves the buffers below as they were
when it was opened, without the text of the root if that was taken since. Taking empties the root
and no other buffer, however many are open. Closing fails when only the root is left, and then
changes nothing. -/
theorem output_nests (c : Context) (calls : List OutputCall) :
    let d := c.afterCalls calls
    takeOutput d = (.ok d.output.buffers.ground, d.withBuffers (d.output.buffers.emptied true)) ∧
    if d.output.depth = 1 then popOutput d = (.error (.usage .rootBuffer), d)
    else
      (∃ before middle, calls = before ++ .push :: middle ∧
        let b := c.afterCalls before
        let opened := c.afterCalls (before ++ [.push])
        d.output.depth = b.output.depth + 1 ∧ StaysOpen d.output.depth middle opened ∧
        popOutput d = (.ok (writtenAt d.output.depth middle opened),
          d.withBuffers (b.output.buffers.emptied (middle.any OutputCall.takesRoot)))) ∨
      (∃ below content, c.output.Stands below content ∧ d.output.depth = below.size + 1 ∧
        StaysOpen d.output.depth calls c ∧
        popOutput d = (.ok (content ++ writtenAt d.output.depth calls c),
          d.withBuffers (below.emptied (calls.any OutputCall.takesRoot)))) := by
  intro d
  refine ⟨rfl, ?_⟩
  split
  case isTrue hroot =>
    have hpop : d.output.buffers.pop? = none := Stack.pop?_eq_none_iff.2 hroot
    simp [popOutput, Output.pop?, hpop]
  case isFalse hroot =>
    obtain hopen | ⟨before, middle, hcalls, hlevel, hopen⟩ :=
      staysOpen_or_opened d.output.depth calls c (Nat.le_refl _)
    · -- The buffer was open before the run.
      have htwo : 2 ≤ d.output.depth := by
        have : d.output.depth = d.output.buffers.above.length + 1 := rfl
        omega
      obtain ⟨below, content, hc, hsize⟩ := Output.exists_stands htwo hopen.le_depth
      rw [hsize] at hopen ⊢
      exact .inr ⟨below, content, hc, rfl, hopen, popOutput_of_stands (hopen.stands hc) hsize⟩
    · -- The run opened it.
      left
      refine ⟨before, middle, hcalls, hlevel.symm, hopen, ?_⟩
      have hd : d = (c.afterCalls (before ++ [.push])).afterCalls middle := by
        simp [d, hcalls]
      have hnew : (c.afterCalls (before ++ [.push])).output.Stands
          (c.afterCalls before).output.buffers "" := by
        rw [Context.afterCalls_append]
        exact ⟨[], rfl⟩
      rw [← hlevel] at hopen ⊢
      have hgathered := hopen.stands hnew
      rw [← hd, String.empty_append] at hgathered
      exact popOutput_of_stands hgathered hlevel.symm

end TemplateEngine
