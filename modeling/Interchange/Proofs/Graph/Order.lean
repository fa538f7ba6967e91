import Interchange.Graph.Order
import Mathlib.Data.List.Chain
import Mathlib.Data.List.Nodup
import Mathlib.Logic.Relation

/-!
# Walks through a graph

The depth-first walk of `Graph.visit` keeps a list of finished nodes in which every node stands
behind what it needs. The walk ends early only where the way to the current node meets itself, and
then the stretch of the way between the two visits is a cycle.

* `visit_outcome`: what one walk does to the finished nodes, or the cycle it found.
* `order_outcome`: all nodes in order, or a cycle.
* `Ordered.acyclic`: no cycle runs through nodes that stand in order.
-/

namespace Interchange.Graph

variable {α : Type}

/-! ## Lists in order -/

/-- Nodes of a graph, each at most once and behind every node of the graph that it needs. -/
structure Ordered (nodes : List α) (needs : α → List α) (done : List α) : Prop where
  nodup : done.Nodup
  known : ∀ node ∈ done, node ∈ nodes
  settled : ∀ before node after, done = before ++ node :: after →
    ∀ next ∈ needs node, next ∈ nodes → next ∈ before

theorem ordered_nil (nodes : List α) (needs : α → List α) : Ordered nodes needs [] where
  nodup := List.nodup_nil
  known _ hNode := nomatch hNode
  settled before node after hSplit := by simp at hSplit

/-- A node whose needs are finished may be finished next. -/
theorem Ordered.snoc {nodes done : List α} {needs : α → List α} {node : α}
    (hDone : Ordered nodes needs done) (hMem : node ∈ nodes) (hNew : node ∉ done)
    (hNeeds : ∀ next ∈ needs node, next ∈ nodes → next ∈ done) :
    Ordered nodes needs (done ++ [node]) where
  nodup := by
    refine List.Nodup.append hDone.nodup (List.nodup_singleton node) ?_
    intro other hOther hEq
    obtain rfl := List.mem_singleton.1 hEq
    exact hNew hOther
  known other hOther := by
    rcases List.mem_append.1 hOther with hOther | hOther
    · exact hDone.known other hOther
    · obtain rfl := List.mem_singleton.1 hOther
      exact hMem
  settled before other after hSplit := by
    -- The new node is the last one, so either nothing stands behind `other` or it was there before.
    rcases List.eq_nil_or_concat after with rfl | ⟨front, last, rfl⟩
    · obtain ⟨rfl, hLast⟩ := List.append_inj' hSplit rfl
      obtain rfl : node = other := by simpa using hLast
      exact hNeeds
    · rw [List.concat_eq_append, ← List.cons_append, ← List.append_assoc] at hSplit
      obtain ⟨hDoneSplit, _⟩ := List.append_inj' hSplit rfl
      exact hDone.settled before other front hDoneSplit

/-! ## Cycles -/

/-- A way that ends where it starts and meets no other node twice. -/
def IsCycle (needs : α → List α) (path : List α) : Prop :=
  ∃ node inner, path = node :: inner ++ [node] ∧ (node :: inner).Nodup ∧
    path.IsChain fun a b => b ∈ needs a

/-- Following a cycle leads from its first node back to it. -/
theorem IsCycle.transGen {needs : α → List α} {path : List α} (hCycle : IsCycle needs path) :
    ∃ node, Relation.TransGen (fun a b => b ∈ needs a) node node := by
  obtain ⟨node, inner, rfl, _, hChain⟩ := hCycle
  refine ⟨node, ?_⟩
  -- The first step leads to the head of what follows, and the rest of the way ends at `node`.
  obtain ⟨next, rest, hTail⟩ := List.exists_cons_of_ne_nil (l := inner ++ [node]) (by simp)
  rw [List.cons_append, hTail, List.isChain_cons_cons] at hChain
  have hLast : (next :: rest).getLast (by simp) = node := by simp [← hTail]
  exact .head' hChain.1 (List.relationReflTransGen_of_exists_isChain_cons rest hChain.2 hLast)

/-- The way to a node, the latest node first: each node is needed by the one behind it. -/
def IsWay (needs : α → List α) (way : List α) : Prop :=
  way.IsChain fun a b => a ∈ needs b

/-- Where a way meets itself it closes a cycle. -/
theorem isCycle_cycle [DecidableEq α] {needs : α → List α} {stack : List α} {node : α}
    (hWay : IsWay needs (node :: stack)) (hNodup : stack.Nodup) (hMem : node ∈ stack) :
    IsCycle needs (cycle node stack) := by
  obtain ⟨front, back, rfl, hFront⟩ := List.eq_append_cons_of_mem hMem
  have hTake : (front ++ node :: back).takeWhile (fun n => decide (n ≠ node)) = front := by
    rw [List.takeWhile_append_of_pos, List.takeWhile_cons_of_neg (by simp), List.append_nil]
    intro other hOther
    have hNe : other ≠ node := fun hEq => hFront (hEq ▸ hOther)
    simpa using hNe
  have hStretch : IsWay needs ((node :: front) ++ [node]) := by
    have hLong : IsWay needs (((node :: front) ++ [node]) ++ back) := by simpa using hWay
    exact hLong.left_of_append
  refine ⟨node, front.reverse, by rw [cycle, hTake], ?_, ?_⟩
  · have hFrontNodup : front.Nodup := (List.nodup_append.1 hNodup).1
    refine List.nodup_cons.2 ⟨?_, List.nodup_reverse.2 hFrontNodup⟩
    simpa using hFront
  · have hReverse : cycle node (front ++ node :: back) = ((node :: front) ++ [node]).reverse := by
      rw [cycle, hTake]
      simp
    rw [hReverse, List.isChain_reverse]
    exact hStretch

/-! ## One walk -/

/-- What a walk adds to the finished nodes: they stay in order, the old ones stay in front, and no
node of the way to the current one is among the new ones. -/
structure Extends (nodes : List α) (needs : α → List α) (stack done later : List α) : Prop where
  ordered : Ordered nodes needs later
  grown : done <+: later
  avoids : ∀ node ∈ later, node ∈ done ∨ node ∉ stack

theorem Extends.refl {nodes : List α} {needs : α → List α} {stack done : List α}
    (hDone : Ordered nodes needs done) : Extends nodes needs stack done done :=
  ⟨hDone, List.prefix_refl done, fun _ hNode => Or.inl hNode⟩

theorem Extends.trans {nodes : List α} {needs : α → List α} {stack done middle later : List α}
    (hFirst : Extends nodes needs stack done middle)
    (hSecond : Extends nodes needs stack middle later) : Extends nodes needs stack done later where
  ordered := hSecond.ordered
  grown := hFirst.grown.trans hSecond.grown
  avoids node hNode := by
    rcases hSecond.avoids node hNode with hMiddle | hOff
    · exact hFirst.avoids node hMiddle
    · exact Or.inr hOff

/-- A walk either finishes the nodes it was sent to, or finds a cycle. -/
def Outcome (nodes : List α) (needs : α → List α) (stack done wanted : List α) :
    Except (List α) (List α) → Prop
  | .ok later => Extends nodes needs stack done later ∧ ∀ node ∈ wanted, node ∈ nodes → node ∈ later
  | .error path => IsCycle needs path

/-- Walks from several nodes, one after the other. -/
theorem foldlM_outcome {nodes : List α} {needs : α → List α}
    {walk : List α → α → Except (List α) (List α)} (stack wanted : List α)
    (hWalk : ∀ done, Ordered nodes needs done → ∀ node ∈ wanted,
      Outcome nodes needs stack done [node] (walk done node))
    {done : List α} (hDone : Ordered nodes needs done) :
    Outcome nodes needs stack done wanted (wanted.foldlM walk done) := by
  induction wanted generalizing done with
  | nil => exact ⟨Extends.refl hDone, fun _ hNode => nomatch hNode⟩
  | cons first rest ih =>
    have hFirst := hWalk done hDone first List.mem_cons_self
    rw [List.foldlM_cons]
    cases hRun : walk done first with
    | error path =>
      rw [hRun] at hFirst
      exact hFirst
    | ok middle =>
      rw [hRun] at hFirst
      obtain ⟨hExtends, hReached⟩ := hFirst
      have hRest := ih (fun later hLater node hNode =>
        hWalk later hLater node (List.mem_cons_of_mem _ hNode)) hExtends.ordered
      show Outcome nodes needs stack done (first :: rest) (rest.foldlM walk middle)
      cases hLater : rest.foldlM walk middle with
      | error path =>
        rw [hLater] at hRest
        exact hRest
      | ok later =>
        rw [hLater] at hRest
        obtain ⟨hExtends', hReached'⟩ := hRest
        refine ⟨hExtends.trans hExtends', ?_⟩
        intro node hNode hKnown
        rcases List.mem_cons.1 hNode with rfl | hNode
        · exact hExtends'.grown.subset (hReached node List.mem_cons_self hKnown)
        · exact hReached' node hNode hKnown

/-- The walk from one node. The induction follows the walk inward: the way to the current node grows
by that node, and what is finished below avoids it, so that it can be finished last. -/
theorem visit_outcome [DecidableEq α] {nodes : List α} {needs : α → List α} (stack done : List α)
    (node : α) (hDone : Ordered nodes needs done) (hWay : IsWay needs (node :: stack))
    (hNodup : stack.Nodup) :
    Outcome nodes needs stack done [node] (visit nodes needs stack done node) := by
  induction stack, done, node using visit.induct nodes needs with
  | case1 stack done node hFinished =>
    rw [visit, if_pos hFinished]
    refine ⟨Extends.refl hDone, ?_⟩
    intro other hOther _
    obtain rfl := List.mem_singleton.1 hOther
    exact hFinished
  | case2 stack done node hNew hFree hMem sofar hRun ih =>
    have hBelow := foldlM_outcome (node :: stack) (needs node) (fun earlier hEarlier next hNext =>
      ih earlier next hEarlier (hWay.cons_cons hNext) (List.nodup_cons.2 ⟨hFree, hNodup⟩)) hDone
    rw [hRun] at hBelow
    obtain ⟨hExtends, hReached⟩ := hBelow
    have hStillNew : node ∉ sofar := by
      intro hNode
      rcases hExtends.avoids node hNode with hOld | hOff
      · exact hNew hOld
      · exact hOff List.mem_cons_self
    rw [visit, if_neg hNew, dif_pos hFree, dif_pos hMem, hRun]
    refine ⟨⟨hExtends.ordered.snoc hMem hStillNew hReached, ?_, ?_⟩, ?_⟩
    · exact hExtends.grown.trans (List.prefix_append sofar [node])
    · intro other hOther
      rcases List.mem_append.1 hOther with hOther | hOther
      · rcases hExtends.avoids other hOther with hOld | hOff
        · exact Or.inl hOld
        · exact Or.inr fun hStack => hOff (List.mem_cons_of_mem _ hStack)
      · obtain rfl := List.mem_singleton.1 hOther
        exact Or.inr hFree
    · intro other hOther _
      exact List.mem_append_right sofar hOther
  | case3 stack done node hNew hFree hMem path hRun ih =>
    have hBelow := foldlM_outcome (node :: stack) (needs node) (fun earlier hEarlier next hNext =>
      ih earlier next hEarlier (hWay.cons_cons hNext) (List.nodup_cons.2 ⟨hFree, hNodup⟩)) hDone
    rw [visit, if_neg hNew, dif_pos hFree, dif_pos hMem, hRun]
    rw [hRun] at hBelow
    exact hBelow
  | case4 stack done node hNew hFree hUnknown =>
    rw [visit, if_neg hNew, dif_pos hFree, dif_neg hUnknown]
    refine ⟨Extends.refl hDone, ?_⟩
    intro other hOther hKnown
    obtain rfl := List.mem_singleton.1 hOther
    exact absurd hKnown hUnknown
  | case5 stack done node hNew hMet =>
    rw [visit, if_neg hNew, dif_neg hMet]
    exact isCycle_cycle hWay hNodup (not_not.1 hMet)

/-! ## All walks -/

/-- The order of a whole graph holds every node, or there is a cycle. -/
theorem order_outcome [DecidableEq α] (nodes : List α) (needs : α → List α) :
    Outcome nodes needs [] [] nodes (order nodes needs) :=
  foldlM_outcome [] nodes (fun done hDone node _ =>
    visit_outcome [] done node hDone (List.IsChain.singleton node) List.nodup_nil)
    (ordered_nil nodes needs)

/-- A step to a needed node leads to an earlier place. -/
theorem Ordered.idxOf_lt [DecidableEq α] {nodes done : List α} {needs : α → List α} {node next : α}
    (hDone : Ordered nodes needs done) (hNode : node ∈ done) (hNext : next ∈ needs node)
    (hKnown : next ∈ nodes) : next ∈ done ∧ done.idxOf next < done.idxOf node := by
  obtain ⟨before, after, rfl, hBefore⟩ := List.eq_append_cons_of_mem hNode
  have hEarlier := hDone.settled before node after rfl next hNext hKnown
  refine ⟨List.mem_append_left _ hEarlier, ?_⟩
  have hPlace : (before ++ node :: after).idxOf node = before.length := by
    rw [List.idxOf_append_of_notMem hBefore, List.idxOf_cons_self, Nat.add_zero]
  rw [hPlace, List.idxOf_append_of_mem hEarlier]
  exact List.idxOf_lt_length_iff.2 hEarlier

/-- No cycle runs through nodes that stand in order. -/
theorem Ordered.acyclic [DecidableEq α] {nodes done : List α} {needs : α → List α}
    (hDone : Ordered nodes needs done) (hAll : ∀ node ∈ nodes, node ∈ done)
    (hClosed : ∀ node, ∀ next ∈ needs node, node ∈ nodes ∧ next ∈ nodes) (node : α) :
    ¬ Relation.TransGen (fun a b => b ∈ needs a) node node := by
  intro hCycle
  have hFalls : ∀ {a b}, Relation.TransGen (fun a b => b ∈ needs a) a b →
      done.idxOf b < done.idxOf a := by
    intro a b hPath
    induction hPath with
    | single hEdge =>
      obtain ⟨hFrom, hTo⟩ := hClosed _ _ hEdge
      exact (hDone.idxOf_lt (hAll _ hFrom) hEdge hTo).2
    | tail _ hEdge ih =>
      obtain ⟨hFrom, hTo⟩ := hClosed _ _ hEdge
      exact (hDone.idxOf_lt (hAll _ hFrom) hEdge hTo).2.trans ih
  exact Nat.lt_irrefl _ (hFalls hCycle)

end Interchange.Graph
