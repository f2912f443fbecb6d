import TypedSql.Proofs.Order.DepthFirst
import TypedSql.Proofs.Steps

/-!
# A depth-first order follows the input

A visit leaves what is in order already where it is and adds only what can be
reached from its node (`Order.Adds`). So when the first nodes of the input
have been visited, what is in order are these nodes and everything that can
be reached from them, and the rest of the answer comes behind
(`Order.exists_closure`). A node that cannot be reached from an earlier one
therefore stays behind it.

Where every node of the input stands behind its targets there is nothing to
move, and the answer is the input (`Order.depthFirst_of_arranged`).

A visit answers with a longer list or with an error, and only the first answer
has anything to add. So what is said with `Order.Adds` takes apart a run that
succeeded, without an invariant about the path, and the number of free nodes
plays no part in it.
-/

namespace TypedSql.Order

variable {α : Type} {targets : α → List α}

/-- **What visits of some roots add**: nothing in front of what was in order
before, and behind it only what can be reached from the roots. -/
structure Adds (targets : α → List α) (roots done order : List α) : Prop where
  /-- What was in order stays where it is. -/
  grown : done <+: order
  /-- What comes behind can be reached. -/
  reached : ∀ b ∈ order, b ∈ done ∨
    ∃ a ∈ roots, Relation.ReflTransGen (fun x y => y ∈ targets x) a b

namespace Adds

/-- **Visits one after the other** add what each of them adds. -/
theorem of_foldlM {f : List α → α → Except (List α) (List α)} {roots done order : List α}
    (hf : ∀ a ∈ roots, ∀ before after, f before a = .ok after → Adds targets [a] before after)
    (h : roots.foldlM f done = .ok order) : Adds targets roots done order := by
  induction roots generalizing done with
  | nil =>
    obtain rfl := Except.ok.inj h
    exact ⟨List.prefix_refl done, fun b hb => .inl hb⟩
  | cons a roots ih =>
    rw [List.foldlM_cons] at h
    obtain ⟨middle, hfirst, h⟩ := exists_of_bind_eq_ok h
    have hmiddle := hf a List.mem_cons_self done middle hfirst
    have hrest := ih (fun c hc => hf c (List.mem_cons_of_mem a hc)) h
    refine ⟨hmiddle.grown.trans hrest.grown, fun b hb => ?_⟩
    rcases hrest.reached b hb with hb | ⟨c, hc, walk⟩
    · refine (hmiddle.reached b hb).imp_right fun ⟨c, hc, walk⟩ => ⟨c, ?_, walk⟩
      exact List.mem_cons.mpr (.inl (List.mem_singleton.mp hc))
    · exact .inr ⟨c, List.mem_cons_of_mem a hc, walk⟩

end Adds

variable [DecidableEq α]

/-- **A visit adds its node and what can be reached from it.** -/
theorem adds_visit {free : Nat} {path done order : List α} {a : α}
    (h : visit targets free path done a = .ok order) : Adds targets [a] done order := by
  induction free generalizing path done order a with
  | zero => cases h
  | succ free ih =>
    rw [visit] at h
    split at h
    · obtain rfl := Except.ok.inj h
      exact ⟨List.prefix_refl done, fun b hb => .inl hb⟩
    split at h
    · cases h
    obtain ⟨ready, hfold, h⟩ := exists_of_bind_eq_ok h
    obtain rfl := Except.ok.inj h
    have hready := Adds.of_foldlM (fun b _ before after => ih) hfold
    refine ⟨hready.grown.trans (List.prefix_append ready [a]), fun b hb => ?_⟩
    rcases List.mem_append.mp hb with hb | hb
    · -- what a target reaches, its node reaches through it
      refine (hready.reached b hb).imp_right fun hwalk => ?_
      obtain ⟨c, hc, walk⟩ := hwalk
      exact ⟨a, List.mem_singleton_self a, walk.head hc⟩
    · exact .inr ⟨b, hb, .refl⟩

/-- **When the first nodes have been visited**, they and all that can be
reached from them are in order, and nothing else. -/
theorem exists_closure {pre post order : List α}
    (inside : ∀ a ∈ pre ++ post, targets a ⊆ pre ++ post)
    (h : depthFirst (pre ++ post) targets = .ok order) :
    ∃ front back, order = front ++ back ∧ ∀ b, b ∈ front ↔
      ∃ a ∈ pre, Relation.ReflTransGen (fun x y => y ∈ targets x) a b := by
  have hsettles := settles_roots inside (List.subset_append_left pre post)
  rw [depthFirst, List.foldlM_append] at h
  obtain ⟨front, hfront, h⟩ := exists_of_bind_eq_ok h
  rw [hfront] at hsettles
  obtain ⟨harr, -, -, hvisited, -⟩ := hsettles
  have hadds := Adds.of_foldlM (fun a _ before after => adds_visit) hfront
  obtain ⟨back, rfl⟩ :=
    (Adds.of_foldlM (fun a _ before after => adds_visit) h).grown
  refine ⟨front, back, rfl, fun b => ⟨fun hb => ?_, ?_⟩⟩
  · exact (hadds.reached b hb).resolve_left List.not_mem_nil
  · -- an arrangement is closed under targets
    rintro ⟨a, ha, walk⟩
    induction walk with
    | refl => exact hvisited ha
    | tail _ hstep ih => exact harr.mem_of_target ih hstep

/-! ## Input that is arranged -/

/-- Nodes that are in order already need no visit. -/
theorem foldlM_visit_of_subset {free : Nat} {path done bs : List α} (h : bs ⊆ done) :
    bs.foldlM (visit targets (free + 1) path) done = .ok done := by
  induction bs with
  | nil => rfl
  | cons b bs ih =>
    rw [List.cons_subset] at h
    rw [List.foldlM_cons, visit, if_pos h.1]
    exact ih h.2

/-- **Nodes that stand behind their targets stay where they are.** -/
theorem depthFirst_of_arranged {nodes : List α} (h : Arranged targets nodes) :
    depthFirst nodes targets = .ok nodes := by
  have hsuffix : ∀ post pre, nodes = pre ++ post →
      post.foldlM (visit targets nodes.length []) pre = .ok nodes := by
    intro post
    induction post with
    | nil =>
      intro pre hsplit
      rw [hsplit, List.append_nil]
      rfl
    | cons a post ih =>
      intro pre hsplit
      have hready : targets a ⊆ pre := fun b hb => h.before pre a post hsplit b hb
      have hnew : a ∉ pre := fun ha =>
        (List.nodup_append.mp (hsplit ▸ h.nodup)).2.2 a ha a List.mem_cons_self rfl
      have htargets : ∀ free, free + 1 = nodes.length →
          (targets a).foldlM (visit targets free ([] ++ [a])) pre = .ok pre := by
        intro free hfree
        cases free with
        | zero =>
          -- the only node has no node before it, and so no target
          have hpre : pre = [] := by
            rw [hsplit, List.length_append, List.length_cons] at hfree
            exact List.length_eq_zero_iff.mp (by omega)
          rw [hpre, List.subset_nil] at hready
          rw [hready]
          rfl
        | succ free => exact foldlM_visit_of_subset hready
      have hvisit : visit targets nodes.length [] pre a = .ok (pre ++ [a]) := by
        obtain ⟨free, hfree⟩ : ∃ free, nodes.length = free + 1 :=
          Nat.exists_eq_add_one.mpr (by rw [hsplit, List.length_append, List.length_cons]; omega)
        rw [hfree, visit, if_neg hnew, if_neg List.not_mem_nil, htargets free hfree.symm]
        rfl
      rw [List.foldlM_cons, hvisit]
      exact ih (pre ++ [a]) (by rw [hsplit, List.append_assoc, List.singleton_append])
  exact hsuffix nodes [] rfl

end TypedSql.Order
