import BracketScript.Proofs.Eval.Points
import BracketScript.Proofs.Tree.Chains

/-!
# What is under way within a call

While a node is evaluated, evaluations of nodes inside of it begin before its own
has ended.  `Underway` lists the nodes whose evaluations are under way at once,
from the outermost inwards, as long as no call is entered.  Each of them is
directly inside the one before, so together they are a chain of the tree
(`Underway.chain`).  Going on with a list, a loop or the next case is part of the
same evaluation and adds nothing.
-/

namespace BracketScript

namespace Job

/-- The node that a job evaluates. -/
def node? : Job → Option TreeNode
  | .expr e => some (.expr e)
  | .stmt s => some (.stmt s)
  | _ => none

/-- The nodes whose evaluations can be the first to begin in a job. -/
def nodes : Job → List TreeNode
  | .expr e => [.expr e]
  | .exprs es => es.map .expr
  | .call _ _ _ | .native _ _ _ _ => []
  | .fields _ entries => entries.map fun entry => .expr entry.value
  | .stmt s => [.stmt s]
  | .stmts ss _ => ss.map .stmt
  | .rounds _ condition body _ => [.expr condition, .stmt body]
  | .cases _ _ entries => entries.flatMap fun entry => [.expr entry.pattern, .stmt entry.consequence]

theorem nodes_of_node? {job : Job} {n : TreeNode} (h : job.node? = some n) : job.nodes = [n] := by
  cases job <;> cases h <;> rfl

end Job

/-- While a job is done, and before a call that it makes is entered, the nodes are
under evaluation at once, each begun after those before it. -/
inductive Underway (setup : Setup) : Nat → Job → Machine → List TreeNode → Prop
  | here {n : Nat} {job : Job} {m : Machine} : Underway setup n job m job.node?.toList
  | inside {n : Nat} {job job' : Job} {m m' : Machine} {nodes : List TreeNode}
    (h : Part setup n job m job' m') (hcall : job.isCall = false)
    (rest : Underway setup n job' m' nodes) :
    Underway setup (n + 1) job m (job.node?.toList ++ nodes)

section Parts

variable {setup : Setup} {n : Nat} {job job' : Job} {m m' : Machine}

open TreeNode

/-- What begins in a part of the evaluation of a node is directly inside of that
node. -/
theorem Part.has {node : TreeNode} (h : Part setup n job m job' m') (hnode : job.node? = some node) :
    ∀ inner ∈ job'.nodes, ∃ way, Has node way inner := by
  cases h <;> cases hnode
  case grouping => exact List.forall_mem_singleton.mpr ⟨_, .grouped⟩
  case assigned => exact List.forall_mem_singleton.mpr ⟨_, .assigned⟩
  case operand => exact List.forall_mem_singleton.mpr ⟨_, .operand⟩
  case left => exact List.forall_mem_singleton.mpr ⟨_, .left⟩
  case right => exact List.forall_mem_singleton.mpr ⟨_, .right⟩
  case deciding => exact List.forall_mem_singleton.mpr ⟨_, .deciding⟩
  case undecided => exact List.forall_mem_singleton.mpr ⟨_, .undecided⟩
  case callee => exact List.forall_mem_singleton.mpr ⟨_, .callee⟩
  case arguments => exact List.forall_mem_map.mpr fun _ he => ⟨_, .argument he⟩
  case call => exact fun _ h => nomatch h
  case object => exact List.forall_mem_singleton.mpr ⟨_, .object⟩
  case expression => exact List.forall_mem_singleton.mpr ⟨_, .expression⟩
  case block => exact List.forall_mem_map.mpr fun _ hs => ⟨_, .block hs⟩
  case question => exact List.forall_mem_singleton.mpr ⟨_, .question⟩
  case consequence => exact List.forall_mem_singleton.mpr ⟨_, .consequence⟩
  case otherwise => exact List.forall_mem_singleton.mpr ⟨_, .otherwise⟩
  case loop =>
    exact List.forall_mem_cons.mpr ⟨⟨_, .guard⟩, List.forall_mem_singleton.mpr ⟨_, .round⟩⟩
  case subject => exact List.forall_mem_singleton.mpr ⟨_, .subject⟩
  case cases =>
    refine List.forall_mem_flatMap.mpr fun entry hentry => ?_
    exact List.forall_mem_cons.mpr
      ⟨⟨_, .pattern hentry⟩, List.forall_mem_singleton.mpr ⟨_, .fitting hentry⟩⟩
  case returned => exact List.forall_mem_singleton.mpr ⟨_, .returned⟩

/-- What begins in a part of another job, not of a call, can begin in the job. -/
theorem Part.nodes_subset (h : Part setup n job m job' m') (hnode : job.node? = none)
    (hcall : job.isCall = false) : ∀ inner ∈ job'.nodes, inner ∈ job.nodes := by
  cases h <;> first | cases hnode; done | cases hcall; done | skip
  case head | first | field | guard | pattern =>
    exact List.forall_mem_singleton.mpr List.mem_cons_self
  case tail | rest | fields | round => exact fun _ h => List.mem_cons_of_mem _ h
  case rounds => exact fun _ h => h
  case wildcard | fitting =>
    exact List.forall_mem_singleton.mpr (List.mem_cons_of_mem _ List.mem_cons_self)
  case unfitting => exact fun _ h => List.mem_append_right _ h

/-- What is under way at once is a chain of the tree. -/
theorem Underway.chain {nodes : List TreeNode} (h : Underway setup n job m nodes) :
    nodes = [] ∨ ∃ root ∈ job.nodes, ∃ steps : List (Way × TreeNode),
      nodes = root :: steps.map Prod.snd ∧ Chain root steps := by
  induction h with
  | @here n job m =>
      cases hnode : job.node? with
      | none => exact Or.inl rfl
      | some node =>
          have hmem : node ∈ job.nodes := by simp [Job.nodes_of_node? hnode]
          exact Or.inr ⟨node, hmem, [], rfl, .here node⟩
  | @inside n job job' m m' nodes hpart hcall _ ih =>
      cases hnode : job.node? with
      | none =>
          rcases ih with hnone | ⟨root, hroot, rest⟩
          · exact Or.inl hnone
          · exact Or.inr ⟨root, hpart.nodes_subset hnode hcall root hroot, rest⟩
      | some node =>
          have hmem : node ∈ job.nodes := by simp [Job.nodes_of_node? hnode]
          rcases ih with rfl | ⟨root, hroot, steps, rfl, hchain⟩
          · exact Or.inr ⟨node, hmem, [], rfl, .here node⟩
          · obtain ⟨way, hhas⟩ := hpart.has hnode root hroot
            exact Or.inr ⟨node, hmem, (way, root) :: steps, rfl, .inwards hhas hchain⟩

end Parts

end BracketScript
