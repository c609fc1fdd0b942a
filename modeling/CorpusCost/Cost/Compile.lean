import CorpusCost.Cost.Rule
import CorpusCost.Cost.Weights
import CorpusCost.Cost.WildcardRun
import CorpusCost.Machine.Run
import CorpusCost.Outline.Walk

/-!
# Cost programs of queries

One walk over a query emits its cost program. A node that costs anything leaves one value on the
stack: on entering it, its constant is pushed; on leaving it, the values it holds by then are
combined, capped and scaled by the rule of its kind. In an unbroken row of an expression, signs for
any character that stand next to each other are counted, and pushed as one value when the next part
of the row is entered or the row is left. A condition on an attribute with few values has an extra
factor, and a negated condition leaves one minus its value, capped.
-/

set_option autoImplicit false

namespace CorpusCost

open Machine

variable {α : Type} [Scalar α]

/-- The instruction that combines two values. -/
def Combine.instruction : Combine → Instruction α
  | .add => .add
  | .multiply => .multiply

/-- Pushes the value of a slot. -/
def Weights.push (weights : Weights α) (slot : Slot) : Instruction α := .push (weights.get slot)

/-- Multiplies by the value of a slot. -/
def Weights.scale (weights : Weights α) (slot : Slot) : Program α :=
  [weights.push slot, .multiply]

/-- The value of a run of signs for any character. -/
def Weights.wildcardRun (weights : Weights α) (length : Nat) : α :=
  weights.get .wildcard * WildcardRun.probability length

/-! ## Open nodes -/

/-- What is known of a node that the walk is in. -/
structure Frame where
  /-- The kind of the node. -/
  kind : Kind
  /-- The values that the node and its parts have left on the stack so far. -/
  values : Nat
  /-- The signs for any character that stand next to each other and are not pushed yet. -/
  pending : Nat
  /-- Whether the node is not scaled: it has a constant, or it is counted in a run. -/
  seeded : Bool
  deriving DecidableEq, Repr

/-- What a node does with the values it holds when it is left: combines, caps and scales them, and
adjusts the result for conditions. -/
def Frame.finish (frame : Frame) (weights : Weights α) (node : Node) : Program α :=
  let rule := frame.kind.rule
  List.replicate (frame.values - 1) rule.combine.instruction ++
    (if rule.clamp then [.clamp] else []) ++
    (match frame.seeded, rule.scale with
      | false, some slot => weights.scale slot
      | _, _ => []) ++
    (if node.isOnSmallAttribute then weights.scale .smallAttribute else []) ++
    (if node.isNegation then [.clamp, .negate] else [])

/-! ## Emission -/

/-- A cost program in the making. -/
structure Emitter (α : Type) where
  /-- What is emitted so far. -/
  program : Program α
  /-- The nodes that the walk is in, the innermost first. -/
  frames : List Frame
  /-- The values that stand for the whole query. -/
  results : Nat

namespace Emitter

omit [Scalar α] in
/-- Nothing emitted yet. -/
def start : Emitter α := ⟨[], [], 0⟩

omit [Scalar α] in
/-- Whether the innermost node is an unbroken row. -/
def inRow (emitter : Emitter α) : Bool :=
  match emitter.frames with
  | frame :: _ => frame.kind = .row
  | [] => false

omit [Scalar α] in
/-- One more value on the stack that belongs to the innermost node, or to the whole query. -/
def addValue (emitter : Emitter α) : Emitter α :=
  match emitter.frames with
  | frame :: frames =>
    { emitter with frames := { frame with values := frame.values + 1 } :: frames }
  | [] => { emitter with results := emitter.results + 1 }

/-- Pushes the run of signs for any character that the innermost node has pending. -/
def flush (emitter : Emitter α) (weights : Weights α) : Emitter α :=
  match emitter.frames with
  | frame :: frames =>
    if frame.pending = 0 then emitter
    else
      { emitter with
        program := emitter.program ++ [.push (weights.wildcardRun frame.pending)]
        frames := { frame with values := frame.values + 1, pending := 0 } :: frames }
  | [] => emitter

/-- A node becomes the innermost one, and its constant is pushed. -/
def openFrame (emitter : Emitter α) (weights : Weights α) (node : Node) : Emitter α :=
  match node.constant? with
  | some slot =>
    { emitter with
      program := emitter.program ++ [weights.push slot]
      frames := ⟨node.kind, 1, 0, true⟩ :: emitter.frames }
  | none => { emitter with frames := ⟨node.kind, 0, 0, false⟩ :: emitter.frames }

/-- The walk comes to a node. -/
def enter (emitter : Emitter α) (weights : Weights α) (node : Node) : Emitter α :=
  let emitter :=
    if emitter.inRow && !node.isWildcardSymbol then emitter.flush weights else emitter
  match emitter.frames with
  | inner :: outer :: frames =>
    if node.kind = .wildcard ∧ outer.kind = .row then
      { emitter with
        frames :=
          ⟨.wildcard, 0, 0, true⟩ :: inner :: { outer with pending := outer.pending + 1 } :: frames }
    else emitter.openFrame weights node
  | _ => emitter.openFrame weights node

/-- The walk is done with a node. -/
def leave (emitter : Emitter α) (weights : Weights α) (node : Node) : Emitter α :=
  let emitter := if node.kind = .row then emitter.flush weights else emitter
  match emitter.frames with
  | frame :: frames =>
    if frame.values = 0 then { emitter with frames }
    else
      addValue { emitter with program := emitter.program ++ frame.finish weights node, frames }
  | [] => emitter

/-- A step of the walk. -/
def visit (weights : Weights α) (emitter : Emitter α) (visit : Visit) : Emitter α :=
  match visit.turn with
  | .enter => emitter.enter weights visit.node
  | .leave => emitter.leave weights visit.node

/-- All steps of a walk. -/
def visitAll (weights : Weights α) (emitter : Emitter α) (visits : List Visit) : Emitter α :=
  visits.foldl (visit weights) emitter

end Emitter

namespace Query

/-- The cost program of a query. -/
def compile (query : Query) (weights : Weights α) : Except CostError (Program α) :=
  let emitter := Emitter.start.visitAll weights query.outline.visits
  if emitter.results = 0 then .error .emptyQuery else .ok emitter.program

end Query

end CorpusCost
