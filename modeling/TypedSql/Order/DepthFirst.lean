/-!
# Depth-first order

Orders the nodes of a graph so that the targets of a node come before it.
The nodes are visited in the order in which they are given; a node is put
into the result when all its targets have been, so independent nodes keep
their order as far as their targets allow. A node that is met again while
its own targets are being visited closes a cycle, and the first cycle that
closes is the answer.
-/

namespace TypedSql.Order

variable {α : Type} [DecidableEq α]

/-- The cycle that closes when a path comes back to one of its nodes: from
that node on, and the node once more. -/
def closedPath (path : List α) (a : α) : List α := path.dropWhile (· ≠ a) ++ [a]

/-- **Visits a node**: puts its targets and then the node itself behind what
is in order already. The number counts the nodes that are not on the path;
when there is none left, every node is on it. -/
def visit (targets : α → List α) : Nat → List α → List α → α → Except (List α) (List α)
  | 0, path, _, a => .error (closedPath path a)
  | free + 1, path, done, a =>
    if a ∈ done then .ok done
    else if a ∈ path then .error (closedPath path a)
    else do
      let done ← (targets a).foldlM (visit targets free (path ++ [a])) done
      return done ++ [a]

/-- **All nodes in order, or a cycle.** -/
def depthFirst (nodes : List α) (targets : α → List α) : Except (List α) (List α) :=
  nodes.foldlM (visit targets nodes.length []) []

end TypedSql.Order
