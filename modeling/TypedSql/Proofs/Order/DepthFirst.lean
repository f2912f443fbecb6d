import TypedSql.Order.DepthFirst
import Mathlib.Data.List.Chain
import Mathlib.Data.List.Nodup
import Mathlib.Data.List.Perm.Subperm
import Mathlib.Logic.Relation

/-!
# What a depth-first order is

A visit keeps two things apart: the nodes that are in order already, and the
path from the root to the node that is visited. `Order.Arranged` is what the
first have in common – no node twice, the targets of a node before it – and
`Order.Trail` is what the second is, a walk without repetition that avoids
the first. A visit takes the one to a longer one (`Order.Settles`) or comes
back to its trail, and then `Order.closedPath` is a `Order.Cycle`.

`Order.depthFirst_spec` puts it together for a list of nodes that is closed
under targets: the answer is an arrangement of exactly these nodes, or a
cycle among them. The two exclude each other
(`Order.Arranged.not_transGen_self`).
-/

namespace TypedSql.Order

variable {α : Type} {targets : α → List α}

/-- **An arrangement**: no node twice, and the targets of a node before
it. -/
structure Arranged (targets : α → List α) (order : List α) : Prop where
  /-- No node twice. -/
  nodup : order.Nodup
  /-- The targets of a node stand before it. -/
  before : ∀ pre a post, order = pre ++ a :: post → ∀ b ∈ targets a, b ∈ pre

/-- **A cycle as it is reported**: a walk of at least one step that ends
where it began and passes no other node twice. -/
structure Cycle (edge : α → α → Prop) (cycle : List α) : Prop where
  /-- Every two neighbours are an edge. -/
  walk : cycle.IsChain edge
  /-- The last node is the first one. -/
  closed : cycle.head? = cycle.getLast?
  /-- There is a step. -/
  step : 2 ≤ cycle.length
  /-- Up to the last node, none repeats. -/
  nodup : cycle.dropLast.Nodup

/-! ## Arrangements -/

namespace Arranged

theorem nil : Arranged targets [] where
  nodup := List.nodup_nil
  before pre a post h := by simp at h

/-- **A node joins an arrangement** when its targets have. -/
theorem concat {order : List α} (h : Arranged targets order) {a : α} (new : a ∉ order)
    (ready : ∀ b ∈ targets a, b ∈ order) : Arranged targets (order ++ [a]) where
  nodup := by
    rw [List.nodup_append]
    refine ⟨h.nodup, List.nodup_singleton a, fun x hx y hy hxy => ?_⟩
    rw [List.mem_singleton] at hy
    exact new (hy ▸ hxy ▸ hx)
  before pre c post heq := by
    rcases List.eq_nil_or_concat' post with rfl | ⟨rest, d, rfl⟩
    · -- the node that joined is the last one
      obtain ⟨hpre, hc⟩ := List.append_inj' heq rfl
      have hca : a = c := by simpa using hc
      rw [← hpre, ← hca]
      exact ready
    · rw [← List.cons_append, ← List.append_assoc] at heq
      exact h.before pre c rest (List.append_inj' heq rfl).1

theorem mem_of_target {order : List α} (h : Arranged targets order) {a b : α}
    (ha : a ∈ order) (hb : b ∈ targets a) : b ∈ order := by
  obtain ⟨pre, post, rfl⟩ := List.append_of_mem ha
  exact List.mem_append_left _ (h.before pre a post rfl b hb)

variable [DecidableEq α]

/-- The target of a node has the smaller index. -/
theorem idxOf_lt {order : List α} (h : Arranged targets order) {a b : α}
    (ha : a ∈ order) (hb : b ∈ targets a) : order.idxOf b < order.idxOf a := by
  obtain ⟨pre, post, rfl⟩ := List.append_of_mem ha
  have hpre : b ∈ pre := h.before pre a post rfl b hb
  have hout : a ∉ pre := fun hin =>
    (List.nodup_append.mp h.nodup).2.2 a hin a List.mem_cons_self rfl
  rw [List.idxOf_append_of_mem hpre, List.idxOf_append_of_notMem hout, List.idxOf_cons_self]
  exact List.idxOf_lt_length_of_mem hpre

/-- **No walk returns to an arranged node**: along a walk the index falls. -/
theorem not_transGen_self {order : List α} (h : Arranged targets order) {a : α}
    (ha : a ∈ order) : ¬ Relation.TransGen (fun x y => y ∈ targets x) a a := by
  intro walk
  have falls : ∀ b, Relation.TransGen (fun x y => y ∈ targets x) a b →
      b ∈ order ∧ order.idxOf b < order.idxOf a := by
    intro b hab
    induction hab with
    | single hb => exact ⟨h.mem_of_target ha hb, h.idxOf_lt ha hb⟩
    | tail _ hc ih => exact ⟨h.mem_of_target ih.1 hc, (h.idxOf_lt ih.1 hc).trans ih.2⟩
  exact (falls a walk).2.false

end Arranged

/-! ## Cycles

A cycle is a list whose first node comes again at its end, as it is shown to a
user. As a statement about the graph it is a walk from a node to itself; the
nodes between say that it is a simple one. -/

namespace Cycle

variable {edge : α → α → Prop}

/-- A cycle leaves its first node and comes back to it. -/
theorem exists_eq {cycle : List α} (h : Cycle edge cycle) :
    ∃ a inner, cycle = a :: inner ++ [a] := by
  obtain ⟨a, rest, rfl⟩ := List.exists_cons_of_length_pos
    (show 0 < cycle.length from Nat.lt_of_lt_of_le Nat.two_pos h.step)
  rcases List.eq_nil_or_concat' rest with rfl | ⟨inner, b, rfl⟩
  · exact absurd h.step (by simp)
  · have hclosed := h.closed
    rw [List.head?_cons, ← List.cons_append, List.getLast?_concat] at hclosed
    exact ⟨a, inner, by rw [Option.some.inj hclosed, List.cons_append]⟩

/-- **A cycle is a walk from a node to itself.** -/
theorem exists_transGen {cycle : List α} (h : Cycle edge cycle) :
    ∃ a ∈ cycle, Relation.TransGen edge a a := by
  obtain ⟨a, inner, rfl⟩ := h.exists_eq
  refine ⟨a, by simp, ?_⟩
  have hpair := List.isChain_iff_pairwise.mp
    (h.walk.imp fun _ _ => Relation.TransGen.single)
  rw [List.pairwise_append] at hpair
  exact hpair.2.2 a List.mem_cons_self a (List.mem_singleton_self a)

/-- A cycle passes through a second node if no node is its own neighbour. -/
theorem three_le_length {cycle : List α} (h : Cycle edge cycle) (irrefl : ∀ a, ¬ edge a a) :
    3 ≤ cycle.length := by
  obtain ⟨a, inner, rfl⟩ := h.exists_eq
  rcases inner with _ | ⟨b, inner⟩
  · exact absurd (by simpa using h.walk) (irrefl a)
  · simp

end Cycle

variable [DecidableEq α]

/-- A path that comes back to one of its nodes splits there. -/
theorem exists_closedPath_eq {path : List α} {a : α} (h : a ∈ path) :
    ∃ pre post, path = pre ++ a :: post ∧ closedPath path a = a :: post ++ [a] := by
  induction path with
  | nil => exact absurd h List.not_mem_nil
  | cons b path ih =>
    by_cases hba : b = a
    · exact ⟨[], path, by rw [hba, List.nil_append], by simp [closedPath, hba]⟩
    · obtain ⟨pre, post, hpath, hclosed⟩ := ih ((List.mem_cons.mp h).resolve_left (Ne.symm hba))
      refine ⟨b :: pre, post, by rw [hpath, List.cons_append], ?_⟩
      rw [← hclosed, closedPath, closedPath, List.dropWhile_cons_of_pos (by simpa using hba)]

/-- **Coming back to a path closes a cycle.** -/
theorem cycle_closedPath {path : List α} {a : α} (walk : path.IsChain fun x y => y ∈ targets x)
    (nodup : path.Nodup) (ha : a ∈ path) (back : ∀ b ∈ path.getLast?, a ∈ targets b) :
    Cycle (fun x y => y ∈ targets x) (closedPath path a) := by
  obtain ⟨pre, post, rfl, hclosed⟩ := exists_closedPath_eq ha
  rw [hclosed]
  have hsuffix : a :: post <:+ pre ++ a :: post := List.suffix_append pre _
  constructor
  · rw [List.isChain_append]
    refine ⟨walk.suffix hsuffix, List.isChain_singleton a, fun x hx y hy => ?_⟩
    rw [List.head?_cons, Option.mem_some_iff] at hy
    rw [← hy]
    refine back x ?_
    rwa [List.getLast?_append_of_ne_nil _ (List.cons_ne_nil a post)]
  · rw [List.cons_append, List.head?_cons, ← List.cons_append, List.getLast?_concat]
  · simp
  · rw [List.dropLast_concat]
    exact nodup.sublist hsuffix.sublist

/-! ## Visits

The recursion of a visit is on a number that falls with every step, and nothing
in the code says that this number is enough. `Trail.count` says it: the nodes
on the path and the number together are all nodes. When the number is zero the
path has met every node, so the node that is visited is on it, and the visit
has come back (`Trail.mem_path_of_full`). The answer for lack of fuel and the
answer for a cycle are one and the same. -/

variable {nodes path done : List α} {free : Nat} {a : α}

/-- **The path of a visit**: a walk among the nodes that repeats none, meets
no node that is in order already and may go on to the node that is visited.
Together with the free nodes it makes up all of them. -/
structure Trail (targets : α → List α) (nodes path done : List α) (free : Nat) (a : α) :
    Prop where
  /-- Every node on the path is a target of the one before. -/
  walk : path.IsChain fun x y => y ∈ targets x
  /-- No node is on the path twice. -/
  nodup : path.Nodup
  /-- The path leads through the nodes. -/
  subset : path ⊆ nodes
  /-- The nodes off the path are counted. -/
  count : path.length + free = nodes.length
  /-- No node on the path is in order yet. -/
  disjoint : path.Disjoint done
  /-- The path goes on to the node that is visited. -/
  next : ∀ b ∈ path.getLast?, a ∈ targets b
  /-- That node is one of the nodes. -/
  mem : a ∈ nodes

/-- **What a visit answers**: a longer arrangement of nodes off the path, the
visited ones among them, or a cycle. -/
def Settles (targets : α → List α) (nodes path done visited : List α) :
    Except (List α) (List α) → Prop
  | .ok order => Arranged targets order ∧ order ⊆ nodes ∧ done ⊆ order ∧ visited ⊆ order ∧
      path.Disjoint order
  | .error cycle => Cycle (fun x y => y ∈ targets x) cycle

namespace Trail

omit [DecidableEq α] in
/-- **A full path has met every node**, so the visited one closes a cycle. -/
theorem mem_path_of_full (h : Trail targets nodes path done 0 a) : a ∈ path :=
  ((List.subperm_of_subset h.nodup h.subset).perm_of_length_le
    (Nat.le_of_eq h.count.symm)).mem_iff.mpr h.mem

theorem cycle (h : Trail targets nodes path done free a) (ha : a ∈ path) :
    Cycle (fun x y => y ∈ targets x) (closedPath path a) :=
  cycle_closedPath h.walk h.nodup ha h.next

omit [DecidableEq α] in
/-- **A visit steps onto a new node**, and goes on to one of its targets
with whatever has been put in order meanwhile. -/
theorem step (h : Trail targets nodes path done (free + 1) a) (ha : a ∉ path)
    {order : List α} (apart : (path ++ [a]).Disjoint order) {b : α} (hb : b ∈ targets a)
    (hmem : b ∈ nodes) : Trail targets nodes (path ++ [a]) order free b where
  walk := by
    rw [List.isChain_append]
    refine ⟨h.walk, List.isChain_singleton a, fun x hx y hy => ?_⟩
    rw [List.head?_cons, Option.mem_some_iff] at hy
    exact hy ▸ h.next x hx
  nodup := by
    rw [List.nodup_append]
    refine ⟨h.nodup, List.nodup_singleton a, fun x hx y hy hxy => ?_⟩
    rw [List.mem_singleton] at hy
    exact ha (hy ▸ hxy ▸ hx)
  subset := List.append_subset.mpr ⟨h.subset, by simpa using h.mem⟩
  count := by
    have hcount := h.count
    rw [List.length_append, List.length_singleton]
    omega
  disjoint := apart
  next c hc := by
    rw [List.getLast?_concat, Option.mem_some_iff] at hc
    exact hc ▸ hb
  mem := hmem

end Trail

omit [DecidableEq α] in
/-- **Visiting one node after the other.** If every visit settles, so do all
of them together. -/
theorem settles_foldlM {f : List α → α → Except (List α) (List α)} {bs : List α}
    (harr : Arranged targets done) (hsub : done ⊆ nodes) (hdis : path.Disjoint done)
    (hf : ∀ b ∈ bs, ∀ order, Arranged targets order → order ⊆ nodes → path.Disjoint order →
      Settles targets nodes path order [b] (f order b)) :
    Settles targets nodes path done bs (bs.foldlM f done) := by
  induction bs generalizing done with
  | nil => exact ⟨harr, hsub, List.Subset.refl done, List.nil_subset done, hdis⟩
  | cons b bs ih =>
    have hb := hf b List.mem_cons_self done harr hsub hdis
    rw [List.foldlM_cons]
    cases hfb : f done b with
    | error cycle => rwa [hfb] at hb
    | ok order =>
      rw [hfb] at hb
      -- what one visit leaves is all that the next one starts from
      obtain ⟨harr', hsub', hdone, hvisited, hdis'⟩ := hb
      have hbs := ih harr' hsub' hdis' fun c hc => hf c (List.mem_cons_of_mem b hc)
      show Settles targets nodes path done (b :: bs) (bs.foldlM f order)
      cases hrest : bs.foldlM f order with
      | error cycle => rwa [hrest] at hbs
      | ok final =>
        rw [hrest] at hbs
        obtain ⟨harr'', hsub'', hdone', hvisited', hdis''⟩ := hbs
        refine ⟨harr'', hsub'', fun x hx => hdone' (hdone hx), ?_, hdis''⟩
        exact List.cons_subset.mpr
          ⟨hdone' (hvisited (List.mem_singleton_self b)), hvisited'⟩

/-- **A visit settles its node.** The induction is on the number of nodes off
the path; the trail says that a visit without one has come back. -/
theorem settles_visit (inside : ∀ a ∈ nodes, targets a ⊆ nodes)
    (h : Trail targets nodes path done free a) (harr : Arranged targets done)
    (hsub : done ⊆ nodes) :
    Settles targets nodes path done [a] (visit targets free path done a) := by
  induction free generalizing path done a with
  | zero => exact h.cycle h.mem_path_of_full
  | succ free ih =>
    rw [visit]
    by_cases hdone : a ∈ done
    · rw [if_pos hdone]
      exact ⟨harr, hsub, List.Subset.refl done, by simpa using hdone, h.disjoint⟩
    rw [if_neg hdone]
    by_cases hpath : a ∈ path
    · rw [if_pos hpath]
      exact h.cycle hpath
    rw [if_neg hpath]
    have apart : (path ++ [a]).Disjoint done := by
      rw [List.disjoint_append_left]
      exact ⟨h.disjoint, List.singleton_disjoint.mpr hdone⟩
    -- the targets are visited with the node on the path and one free node less
    have hall := settles_foldlM harr hsub apart
      fun b hb order harr' hsub' apart' =>
        ih (h.step hpath apart' hb (inside a h.mem hb)) harr' hsub'
    cases hfold : (targets a).foldlM (visit targets free (path ++ [a])) done with
    | error cycle => rwa [hfold] at hall
    | ok order =>
      rw [hfold] at hall
      obtain ⟨harr', hsub', hgrown, hready, apart'⟩ := hall
      rw [List.disjoint_append_left, List.singleton_disjoint] at apart'
      -- the node itself comes behind all of its targets
      refine ⟨harr'.concat apart'.2 hready, ?_, ?_, ?_, ?_⟩
      · exact List.append_subset.mpr ⟨hsub', by simpa using h.mem⟩
      · exact fun x hx => List.mem_append_left [a] (hgrown hx)
      · exact List.subset_append_right order [a]
      · rw [List.disjoint_append_right, List.disjoint_singleton]
        exact ⟨apart'.1, hpath⟩

/-- **Visiting some of the nodes** with nothing in order yet settles them. -/
theorem settles_roots {roots : List α} (inside : ∀ a ∈ nodes, targets a ⊆ nodes)
    (hroots : roots ⊆ nodes) :
    Settles targets nodes [] [] roots (roots.foldlM (visit targets nodes.length []) []) := by
  have start : ∀ a ∈ roots, ∀ done, Trail targets nodes [] done nodes.length a :=
    fun a ha done => ⟨List.isChain_nil, List.nodup_nil, List.nil_subset nodes, Nat.zero_add _,
      List.disjoint_nil_left done, fun b hb => absurd hb (by simp), hroots ha⟩
  exact settles_foldlM Arranged.nil (List.nil_subset nodes)
    (List.disjoint_nil_left []) fun a ha done harr hsub _ =>
      settles_visit inside (start a ha done) harr hsub

/-- **Depth-first order, or a cycle.** Of nodes that are closed under
targets the answer is an arrangement that holds each of them once, or else a
cycle. -/
theorem depthFirst_spec (nodup : nodes.Nodup) (inside : ∀ a ∈ nodes, targets a ⊆ nodes) :
    match depthFirst nodes targets with
    | .ok order => Arranged targets order ∧ order.Perm nodes
    | .error cycle => Cycle (fun x y => y ∈ targets x) cycle := by
  have hall := settles_roots inside (List.Subset.refl nodes)
  show match nodes.foldlM (visit targets nodes.length []) [] with
    | .ok order => Arranged targets order ∧ order.Perm nodes
    | .error cycle => Cycle (fun x y => y ∈ targets x) cycle
  cases hfold : nodes.foldlM (visit targets nodes.length []) [] with
  | error cycle => rwa [hfold] at hall
  | ok order =>
    rw [hfold] at hall
    obtain ⟨harr, hsub, -, hvisited, -⟩ := hall
    refine ⟨harr, (List.perm_ext_iff_of_nodup harr.nodup nodup).mpr fun a => ?_⟩
    exact ⟨fun h => hsub h, fun h => hvisited h⟩

end TypedSql.Order
