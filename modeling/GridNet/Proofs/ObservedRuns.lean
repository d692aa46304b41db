import GridNet.Proofs.Compilation
import GridNet.Proofs.RunValues
import Mathlib.Data.List.Nodup

/-!
# What a run observes

A run that succeeds observes each result of each node, once and under its number. This needs nothing
of the blueprint: each graph that is compiled is made by calls of the recorder, so that its tensors
are numbered in the order of the nodes.

* `Build.finish_reachable`, `Model.compile_reachable` — compiled graphs are made by calls
  of the recorder.
* `Graph.results` — the results of the nodes with their numbers;
  `Graph.WellFormed.results_ascending`.
* `Model.observations_of_run` — the results that a run observes.
-/

namespace GridNet

/-! ## Compiled graphs -/

namespace Build

open Emit

variable {b : Blueprint} {p : Progress} {d d' : Draft}

theorem mark_reachable {t : TensorId} {name : String} {u : Unit}
    (h : record (fun g => (g.markOutput t name).map (·, ())) d = .ok u d')
    (hd : d.graph.Reachable) :
    d'.graph.Reachable := by
  obtain ⟨g, hg, rfl⟩ := record_eq_ok.mp h
  obtain ⟨g', hg', hpair⟩ := Outcome.map_eq_ok.mp hg
  obtain ⟨rfl, -⟩ := Prod.mk.inj hpair
  obtain ⟨ht, hfresh, rfl⟩ := Graph.markOutput_eq_ok hg'
  exact hd.output ht hfresh

theorem forM_mark_reachable {pairs : List (TensorId × String)} {u : Unit}
    (h : (pairs.forM fun (t, name) => record fun g => (g.markOutput t name).map (·, ())) d =
      .ok u d') (hd : d.graph.Reachable) : d'.graph.Reachable := by
  induction pairs generalizing d with
  | nil =>
    obtain ⟨-, rfl⟩ := pure_eq_ok.mp h
    exact hd
  | cons pair rest ih =>
    obtain ⟨_, d₁, hfirst, hrest⟩ := bind_eq_ok.mp h
    exact ih hrest (mark_reachable hfirst hd)

theorem markDecoded_reachable {ids : List TensorId} {outputs : NetworkOutputs}
    (h : markDecoded ids d = .ok outputs d') (hd : d.graph.Reachable) : d'.graph.Reachable := by
  unfold markDecoded at h
  split at h
  · obtain ⟨_, _, hmarked, h⟩ := bind_eq_ok.mp h
    obtain ⟨-, rfl⟩ := pure_eq_ok.mp h
    exact forM_mark_reachable hmarked hd
  · cases (lift_eq_ok.mp h).1

/-- Naming the outputs is done by the recorder. -/
theorem finish_reachable {outputs : NetworkOutputs} (h : finish b p d = .ok outputs d')
    (hd : d.graph.Reachable) :
    d'.graph.Reachable := by
  rw [finish] at h
  split at h
  · obtain ⟨_, _, hmark, h⟩ := bind_eq_ok.mp h
    obtain ⟨-, rfl⟩ := pure_eq_ok.mp h
    exact mark_reachable hmark hd
  · obtain ⟨decoder, _, hmake, h⟩ := bind_eq_ok.mp h
    obtain ⟨-, rfl⟩ := lift_eq_ok.mp hmake
    obtain ⟨ids, _, hdecode, h⟩ := bind_eq_ok.mp h
    obtain ⟨g, hg, rfl⟩ := record_eq_ok.mp hdecode
    obtain ⟨shapes, haccepts, hpush⟩ := Graph.addDecode_eq_ok hg
    obtain ⟨rfl, rfl⟩ := Prod.mk.inj hpush
    exact markDecoded_reachable h (hd.node haccepts)

end Build

/-- **Every compiled graph** is made by calls of the recorder. -/
theorem Model.compile_reachable {b : Blueprint} {weights : WeightBuffer} {m : Model}
    (h : compile b weights = .ok m) : m.graph.Reachable := by
  rw [compile] at h
  split at h
  · next built dend hnetwork =>
    obtain rfl := (Except.ok.inj h).symm
    obtain ⟨start, p, dpass, hbody, -, hclose⟩ := Build.network_eq_ok.mp hnetwork
    obtain ⟨shape, d₀, -, hdeclared, hpass⟩ := Build.body_eq_ok.mp hbody
    obtain ⟨rfl, rfl⟩ := Build.start_eq_ok hdeclared
    obtain ⟨outputs, hfinish, -⟩ := Build.close_eq_ok hclose
    have hgrows := Build.pass_extends _ _ _ _ _ hpass
    exact Build.finish_reachable hfinish (hgrows.reachable (Build.startGraph_reachable shape))
  · cases h

/-! ## Observations -/

namespace Graph

variable {g : Graph}

/-- The results of the nodes, each with its node, in the order of the nodes. -/
def results (g : Graph) : List (Node × TensorId) :=
  g.nodes.toList.flatMap fun node => node.outputs.map fun t => (node, t)

theorem mem_results {node : Node} {t : TensorId} :
    (node, t) ∈ g.results ↔ node ∈ g.nodes.toList ∧ t ∈ node.outputs := by
  simp [results]

/-- **Results are numbered** in the order of the nodes. -/
theorem WellFormed.results_ascending (hg : g.WellFormed) : g.results.Pairwise (·.2 < ·.2) := by
  have hnumbers : g.results.map (·.2) = List.range g.tensors.size := by
    rw [← hg.outputs, results, List.map_flatMap]
    exact List.flatMap_congr fun node _ => by simp
  rw [← List.pairwise_map (f := fun r : Node × TensorId => r.2) (R := (· < ·)), hnumbers]
  exact List.pairwise_lt_range

/-- No tensor is a result of two nodes. -/
theorem WellFormed.results_unique (hg : g.WellFormed) {node node' : Node} {t : TensorId}
    (h : (node, t) ∈ g.results) (h' : (node', t) ∈ g.results) : node = node' := by
  have hnodup : (g.results.map (·.2)).Nodup :=
    List.pairwise_map.mpr (hg.results_ascending.imp Nat.ne_of_lt)
  exact congrArg Prod.fst (List.inj_on_of_nodup_map hnodup h h' rfl)

/-- **A run that succeeds observes** the results of all nodes, and nothing else. -/
theorem observations_of_runNamed {feeds : Feeds} {outputs : List (String × Tensor)}
    (hg : g.WellFormed)
    (hrun : (g.runNamed feeds).outputs = .ok outputs) {node : Node} {t : TensorId} :
    (∃ o ∈ (g.runNamed feeds).observations, o.node = node ∧ o.id = t) ↔ (node, t) ∈ g.results := by
  obtain ⟨vs, hv⟩ := (runNamed_isOk_iff hg).mp ⟨outputs, hrun⟩
  rw [hv.runNamed hg, mem_results]
  simp only [List.mem_flatMap, Node.observations, List.mem_filterMap]
  constructor
  · rintro ⟨o, ⟨node', hnode, t', ht', ho⟩, rfl, rfl⟩
    obtain ⟨v, -, rfl⟩ := Option.map_eq_some_iff.mp ho
    exact ⟨hnode, ht'⟩
  · rintro ⟨hnode, ht⟩
    have hlt : t < vs.length := by
      have hmem : t ∈ g.nodes.toList.flatMap (·.outputs) := List.mem_flatMap.mpr ⟨node, hnode, ht⟩
      rw [hg.outputs, List.mem_range, ← hv.length_eq] at hmem
      exact hmem
    exact ⟨⟨node, t, vs[t]⟩, ⟨node, hnode, t, ht, by simp [hlt]⟩, rfl, rfl⟩

end Graph

/-- **What a run of a compiled model observes.** -/
theorem Model.observations_of_run {b : Blueprint} {weights : WeightBuffer} {m : Model} {x : Tensor}
    {outputs : List (String × Tensor)} (h : compile b weights = .ok m)
    (hrun : (m.run x).outputs = .ok outputs) {node : Node} {t : TensorId} :
    (∃ o ∈ (m.run x).observations, o.node = node ∧ o.id = t) ↔ (node, t) ∈ m.graph.results := by
  rw [run, Graph.run] at hrun ⊢
  split at hrun
  · next hdims =>
    rw [if_pos hdims]
    split at hrun
    · exact Graph.observations_of_runNamed (compile_reachable h).wellFormed hrun
    · cases hrun
  · cases hrun

end GridNet
