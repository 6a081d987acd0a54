import Toolpath.Run.Machine

/-!
# Runs without a stack

The meaning of a program by recursion on its blocks. A range of lines is executed in order, every
line is read anew, and a command to repeat executes its block as a range of its own, once for each
further pass, before the line after the command.
-/

namespace Toolpath

namespace State

/-- Coordinates meant as they were recorded for line `line`. -/
def restore (s : State) (line : Nat) : State :=
  s.setPositioning ((s.modes.get? line).getD s.modal.positioning)

/-- Executes a pass `n` times, unless one of them ends the run. -/
def passes (pass : State → State ⊕ Finished) : (n : Nat) → State → State ⊕ Finished
  | 0, s => .inl s
  | n + 1, s =>
    match pass s with
    | .inl s => passes pass n s
    | .inr finished => .inr finished

theorem passes_succ_inl {pass : State → State ⊕ Finished} {n : Nat} {s t : State}
    (h : pass s = .inl t) : passes pass (n + 1) s = passes pass n t := by
  rw [passes, h]

theorem passes_succ_inr {pass : State → State ⊕ Finished} {n : Nat} {s : State} {f : Finished}
    (h : pass s = .inr f) : passes pass (n + 1) s = .inr f := by
  rw [passes, h]

end State

namespace Program

/-- Executes the lines from `first` up to `last`, with the blocks open that start at the lines
`active`. A command to repeat leaves the positioning of its block behind, whether or not there is
anything to repeat. -/
def executeLines (p : Program) (o : Options) (active : List Nat) (first last : Nat) (s : State) :
    State ⊕ Finished :=
  if first < last then
    match p.line? first with
    | none => .inl s
    | some text =>
      let site := o.site first text
      let reading := Statement.read text.toList
      let s := reading.remarks.foldl (fun s r => s.note (site.notice r)) s
      match reading.result with
      | .error refusal => .inr (s.refuse site refusal)
      | .ok statement =>
        let s := statement.labels.foldl (State.declare active first) s
        match statement.action with
        | .again command =>
          match s.loop first command with
          | .error cause => .inr (s.fail site cause)
          | .ok loop =>
            if loop.passes = 0 ∨ loop.stop ≤ loop.start then
              p.executeLines o active (first + 1) last (s.restore loop.start)
            else if active.length < o.depth then
              let pass := fun (s : State) =>
                p.executeLines o (loop.start :: active) loop.start loop.stop (s.restore loop.start)
              match State.passes pass loop.passes s with
              | .inl s => p.executeLines o active (first + 1) last (s.restore loop.start)
              | .inr finished => .inr finished
            else .inr (s.fail site (.nestingTooDeep o.depth))
        | action =>
          match s.act site action with
          | (s, .halt) => .inr ⟨s, .halted site.line⟩
          | (s, .fail cause) => .inr (s.fail site cause)
          | (s, _) => p.executeLines o active (first + 1) last s
  else .inl s
termination_by (o.depth - active.length, last - first)

/-- Executes a program block by block. -/
def runStructured (p : Program) (o : Options) : Finished :=
  match p.executeLines o.usable [] 0 p.size o.opening with
  | .inl s => ⟨s, .completed⟩
  | .inr finished => finished

end Program

end Toolpath
