/-!
# Dependency order

A list of nodes, each with the nodes it needs, is put into an order in which every node follows what
it needs. The walk goes depth first, takes the nodes in the order of the list and the needs of a
node in their own order, so the result is a function of those orders alone. If a node needs itself,
directly or through others, the walk returns one such cycle.

* `Graph.visit`: the walk from one node.
* `Graph.order`: the order of all nodes, or a cycle.
-/

namespace Interchange.Graph

variable {α : Type} [DecidableEq α]

/-- The nodes of `nodes` that are not on the way to the current node. -/
def fresh (nodes stack : List α) : List α :=
  nodes.filter fun node => decide (node ∉ stack)

theorem fresh_cons_length_lt {nodes stack : List α} {node : α} (hMem : node ∈ nodes)
    (hNew : node ∉ stack) : (fresh nodes (node :: stack)).length < (fresh nodes stack).length := by
  have hSub : fresh nodes (node :: stack) =
      (fresh nodes stack).filter (fun n => decide (n ≠ node)) := by
    simp only [fresh, List.filter_filter]
    congr 1
    funext n
    simp
  have hIn : node ∈ fresh nodes stack := by
    simp [fresh, hMem, hNew]
  rw [hSub]
  have hLe := List.length_filter_lt_length_iff_exists (p := fun n => decide (n ≠ node))
    (l := fresh nodes stack)
  exact hLe.2 ⟨node, hIn, by simp⟩

/-- The cycle that closes when `node` is reached again. The stack holds the way to the current node,
the latest node first. -/
def cycle (node : α) (stack : List α) : List α :=
  node :: (stack.takeWhile fun n => decide (n ≠ node)).reverse ++ [node]

/-- Walks from `node` and adds to `done`, which is in order already, what the walk finishes. -/
def visit (nodes : List α) (needs : α → List α) (stack done : List α) (node : α) :
    Except (List α) (List α) :=
  if node ∈ done then .ok done
  else if _hNew : node ∉ stack then
    if _hMem : node ∈ nodes then
      match (needs node).foldlM
        (fun sofar next => visit nodes needs (node :: stack) sofar next) done with
      | .ok sofar => .ok (sofar ++ [node])
      | .error path => .error path
    else .ok done
  else .error (cycle node stack)
termination_by (fresh nodes stack).length
decreasing_by exact fresh_cons_length_lt _hMem _hNew

/-- The nodes in dependency order, or a cycle. -/
def order (nodes : List α) (needs : α → List α) : Except (List α) (List α) :=
  nodes.foldlM (fun done node => visit nodes needs [] done node) []

end Interchange.Graph
