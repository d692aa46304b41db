import GridNet.Proofs.FrontRuns
import GridNet.Proofs.JoinedTensors
import GridNet.Proofs.LayerSizes
import Mathlib.Algebra.Order.BigOperators.Group.List

/-!
# Routes keep what they are given

A route passes a single tensor on, and lays several ones end to end along an axis that the
description counts without the batch, or backwards. It may keep one of several equal parts of the
channels. Nothing is lost and nothing changes its place among its own: each source is found again in
the result, and the parts of all groups make the route without groups.

* `Emit.found_recorded`, `Emit.reads_of_finds` — what an evaluation has found, in front of a call
  and behind it.
* `Emit.found_route`, `Emit.route_goesOn` — what a route finds, and that it finds it.
* `Emit.route_keeps_sources` — the sources in the result, and the result from the parts of
  all groups.
-/

namespace GridNet

/-- What is read of the first values. -/
theorem Reads.of_front {front whole xs : List Tensor} {ids : List TensorId} (h : Reads front ids xs)
    (hfront : front <+: whole) : Reads whole ids xs :=
      h.imp fun _ _ hvalue => getElem?_of_front hfront hvalue

namespace Graph

/-- Values that are found in a graph are found in one that has grown from it. -/
theorem finds_of_within {g g' : Graph} {feeds : Feeds} {ids : List TensorId} {xs ys : List Tensor}
    (hxs : List.Forall₂ (g.Finds feeds) ids xs) (hys : List.Forall₂ (g'.Finds feeds) ids ys)
    (h : g.Within g') (hg : g.WellFormed) (hg' : g'.WellFormed) : ys = xs := by
  induction hxs generalizing ys with
  | nil => exact List.forall₂_nil_left_iff.mp hys
  | cons hx _ ih =>
    obtain ⟨y, rest, hy, hrest, rfl⟩ := List.forall₂_cons_left_iff.mp hys
    rw [hx.of_within hy h hg hg', ih hrest]

theorem Finds.spans {g : Graph} {feeds : Feeds} {t : TensorId} {v : Tensor} (h : g.Finds feeds t v)
    (hg : g.WellFormed) : g.Spans t v.dims := by
  obtain ⟨vs, hv, hvalue⟩ := (finds_iff hg).mp h
  exact hv.shapeOf hvalue

end Graph

namespace Emit

variable {feeds : Feeds} {d d' : Draft} {vs xs : List Tensor} {sources : List TensorId}
  {t : TensorId} {y : Tensor}
  {axis : Int} {block : Nat}

/-! ## Values in front of a call and behind it -/

/-- Values that are found come with all other ones. -/
theorem reads_of_finds (hg : d.graph.Reachable) {ids : List TensorId} (hne : ids ≠ [])
    (h : List.Forall₂ (d.graph.Finds feeds) ids xs) :
    ∃ vs, d.Valued feeds vs ∧ Reads vs ids xs := by
  cases h with
  | nil => exact absurd rfl hne
  | @cons id x ids xs hx hxs =>
    obtain ⟨e, hrun, hvalue⟩ := hx
    obtain ⟨vs, hv, he⟩ := Graph.evaluate_eq_ok hg.wellFormed hrun
    refine ⟨vs, ⟨hg.wellFormed, hv⟩, .cons (he.value hvalue) (hxs.imp fun i v hfinds => ?_)⟩
    obtain ⟨e', hrun', hvalue'⟩ := hfinds
    obtain ⟨-, rfl⟩ := EStateM.Result.ok.inj (hrun.symm.trans hrun')
    exact he.value hvalue'

/-- **What is found of a new node** is what its operation makes of the values that were
found before. -/
theorem found_recorded {f : Graph → Outcome Graph.Recorded} {op : Operation}
    {inputs : List TensorId}
    (hf : ∀ g r, f g = .ok r → g.Records op inputs r) (hg : d.graph.Reachable)
    (h : record f d = .ok t d')
    (hxs : List.Forall₂ (d.graph.Finds feeds) inputs xs) (hy : d'.graph.Finds feeds t y) :
    op.apply feeds xs y.dims = .ok [y] ∧ y.data.size < Word.signedModulus := by
  obtain ⟨g, hrecorded, rfl⟩ := record_eq_ok.mp h
  obtain ⟨shape, haccepts, heq⟩ := hf _ _ hrecorded
  obtain ⟨rfl, rfl⟩ := Prod.mk.inj heq
  have hwhole := (hg.node haccepts).wellFormed
  obtain ⟨vs, hv, ht⟩ := (Graph.finds_iff hwhole).mp hy
  obtain ⟨operands, results, hoperands, hresults, happly⟩ := hv.computed _ Graph.mem_push_nodes
  obtain rfl : results = [y] := hresults.unique (.cons ht .nil)
  obtain rfl : operands = xs := Graph.finds_of_within hxs
    (hoperands.imp fun i v hvalue => (Graph.finds_iff hwhole).mpr ⟨vs, hv, hvalue⟩)
    (Graph.within_push _ _ _ _) hg.wellFormed hwhole
  exact ⟨happly, hv.small y (List.mem_of_getElem? ht)⟩

/-- The axis is one behind the batch, and a signed word. -/
theorem routeAxis_eq_ok_iff {rank a : Nat} :
    routeAxis axis rank block = .ok a ↔
      1 ≤ a ∧ a < rank ∧ a < Word.signedModulus ∧ (a : Int) = joinedAxis axis rank := by
  simp only [routeAxis, joinedAxis, Outcome.bind_eq_ok, Outcome.demand_eq_ok, Outcome.ensure_eq_ok,
    Outcome.pure_eq_ok, Bool.and_eq_true, decide_eq_true_eq]
  generalize (if axis < 0 then (rank : Int) + axis else axis + 1) = resolved
  constructor
  · rintro ⟨-, hword, -, ⟨hle, hlt⟩, rfl⟩
    omega
  · rintro ⟨hle, hlt, hword, ha⟩
    exact ⟨(), by omega, (), by omega, by omega⟩

/-! ## What a route finds -/

/-- What the interpreter makes of several tensors is laid out along an axis behind the batch. -/
theorem interpreter_route_eq_some {first second : Tensor} {rest : List Tensor}
    (h : Interpreter.route axis none (first :: second :: rest) = some y) :
    ∃ a : Nat, 1 ≤ a ∧ a < first.dims.length ∧ first.dims.length = y.dims.length ∧
      (a : Int) = joinedAxis axis first.dims.length ∧
      Tensor.join a (first :: second :: rest) = some y := by
  change (if 1 ≤ joinedAxis axis first.dims.length then
    (Tensor.join (joinedAxis axis first.dims.length).toNat (first :: second :: rest)).bind
      some else none) = some y at h
  split at h
  · next hle =>
    rw [Option.bind_fun_some] at h
    have hjoined := h
    obtain ⟨whole, hwhole, rfl⟩ := Option.map_eq_some_iff.mp hjoined
    obtain ⟨haxis, -, hdims⟩ := concatExtents_eq_some hwhole
    have hrank : first.dims.length = whole.length :=
      (congrArg List.length (hdims first.dims List.mem_cons_self)).trans List.length_set
    rw [← hrank] at haxis
    exact ⟨(joinedAxis axis first.dims.length).toNat, by omega, haxis, hrank, by omega, hjoined⟩
  · cases h

/-- **A route that has been accepted**: what is found of it is what the interpreter makes
of the sources. -/
theorem found_route (hg : d.graph.Reachable) (hxs : List.Forall₂ (d.graph.Finds feeds) sources xs)
    (h : route sources axis none block d = .ok t d') (hy : d'.graph.Finds feeds t y) :
    Interpreter.route axis none xs = some y ∧ y.data.size < Word.signedModulus := by
  have hall := hxs
  cases hxs with
  | nil => cases h
  | @cons first x rest xs hx hrest =>
    cases hrest with
    | nil =>
      obtain ⟨rfl, rfl⟩ := pure_eq_ok.mp (route_single first axis block ▸ h)
      obtain rfl := hx.of_within hy (.refl _) hg.wellFormed hg.wellFormed
      obtain ⟨vs, hv, hvalue⟩ := (Graph.finds_iff hg.wellFormed).mp hy
      exact ⟨rfl, hv.small _ (List.mem_of_getElem? hvalue)⟩
    | @cons second x₂ rest xs hsecond hrest =>
      obtain ⟨dims, a, hspans, haxis, hrecord⟩ := route_several_eq_ok.mp h
      obtain rfl := hspans.unique (hx.spans hg.wellFormed)
      obtain ⟨happly, hsmall⟩ :=
        found_recorded (fun _ _ => Graph.addConcat_eq_ok) hg hrecord hall hy
      refine ⟨?_, hsmall⟩
      rw [interpreter_route_of_axis rfl haxis, Tensor.join]
      cases hwhole : concatExtents a ((x :: x₂ :: xs).map (·.dims)) with
      | none => simp only [Operation.apply, hwhole] at happly; cases happly
      | some whole =>
        simp only [Operation.apply, hwhole] at happly
        obtain rfl := List.singleton_inj.mp (Except.ok.inj happly)
        rfl

/-- **A route is accepted** on values that the interpreter can lay end to end, if an array can hold
the result. -/
theorem route_goesOn (hd : d.Valued feeds vs) (hxs : Reads vs sources xs)
    (hroute : Interpreter.route axis none xs = some y) (hpositive : ∀ e ∈ y.dims, 0 < e)
    (hrank : y.dims.length ≤ Word.signedModulus) (hsmall : volume y.dims < Word.signedModulus)
    (block : Nat) :
    GoesOn feeds d vs (route sources axis none block) fun t vs' => vs'[t]? = some y := by
  have hall := hxs
  cases hxs with
  | nil => cases hroute
  | @cons first x rest xs hx hrest =>
    cases hrest with
    | nil =>
      obtain rfl := Option.some.inj hroute
      exact ⟨first, d, vs, pure_eq_ok.mpr ⟨rfl, rfl⟩, hd, List.prefix_rfl, hx⟩
    | @cons second x₂ rest xs hsecond hrest =>
      obtain ⟨a, hle, hlt, hsame, ha, hjoin⟩ := interpreter_route_eq_some hroute
      have haxis : routeAxis axis x.dims.length block = .ok a :=
        routeAxis_eq_ok_iff.mpr ⟨hle, hlt, (hsame ▸ hlt).trans_le hrank, ha⟩
      obtain ⟨whole, hwhole, rfl⟩ := Option.map_eq_some_iff.mp hjoin
      obtain ⟨t, d', vs', hrecord, hd', hfront, hvalue⟩ :=
        concat_goesOn hd hall hwhole hpositive hsmall
      obtain ⟨s, hs, hdims⟩ := hd.valued.shapeOf hx
      exact ⟨t, d', vs', route_several_eq_ok.mpr ⟨x.dims, a, ⟨s, hs, hdims⟩, haxis, hrecord⟩, hd',
        hfront, hvalue⟩

/-- **One of several equal parts** of the channels is kept. -/
theorem channelPart_goesOn {input : TensorId} {x : Tensor} {n c height width groups k : Nat}
    (hd : d.Valued feeds vs) (hx : vs[input]? = some x) (hdims : x.dims = [n, c, height, width])
    (hdvd : groups ∣ c) (hk : k < groups) (block : Nat) :
    GoesOn feeds d vs (channelPart input ⟨groups, k⟩ block) fun t vs' =>
      vs'[t]? = some (x.portion 1 (k * (c / groups)) (c / groups)) := by
  have hpositive : ∀ e ∈ [n, c, height, width], 0 < e := hdims ▸ extents_pos hd hx
  obtain ⟨hn, hc, hh, hw⟩ := forall_mem_extents.mp hpositive
  have hvolume : volume [n, c, height, width] < Word.signedModulus := hdims ▸ volume_lt hd hx
  have hword : ∀ e ∈ [n, c, height, width], e ≤ Word.modulus := fun e he =>
    ((le_volume hpositive e he).trans_lt (Word.lt_modulus hvolume)).le
  obtain ⟨hnword, hcword, hhword, hwword⟩ := forall_mem_extents.mp hword
  have hsize : 0 < c / groups := Nat.div_pos (Nat.le_of_dvd hc hdvd) (Nat.zero_lt_of_lt hk)
  have hlast : k * (c / groups) + c / groups ≤ c := ChannelGroup.end_le ⟨groups, k⟩ hk c
  have hstart : Word.mul k (c / groups) = .ok (k * (c / groups)) := Word.mul_of_lt (by omega)
  have hportion : x.portion 1 (k * (c / groups)) (c / groups) =
      x.slice [0, k * (c / groups), 0, 0] [n, c / groups, height, width] [1, 1, 1, 1] := by
    rw [← Tensor.channelPart_eq_portion hdims]
    simp [Interpreter.channelPart, Tensor.extent, hdims]
  rw [hportion]
  refine .after_nchw hd hx (s := ⟨n, c, height, width⟩) hdims ?_
  refine .after_lift (if_neg (Nat.zero_lt_of_lt hk).ne') ?_
  refine .after_lift (a := ()) (by simp [ensure, Nat.mod_eq_zero_of_dvd hdvd]) ?_
  refine .after_lift hstart
    (slice_goesOn hd hx ?_ (List.cons_ne_nil _ _) (Graph.checkSlice_of_forall ?_) ?_ ?_)
  · simp [SliceWindow.fits, SliceWindow.reach, hdims]
    omega
  · intro part hpart
    simp only [hdims, List.zip_cons_cons, List.zip_nil_right, List.mem_cons, List.not_mem_nil,
      or_false] at hpart
    rcases hpart with rfl | rfl | rfl | rfl <;> dsimp only <;> omega
  · exact forall_mem_extents.mpr ⟨hn, hsize, hh, hw⟩
  · refine lt_of_le_of_lt ?_ hvolume
    exact Nat.mul_le_mul_left n (Nat.mul_le_mul_right _ (Nat.div_le_self c groups))

/-! ## Groups -/

/-- **A part of a route**, for one of several groups. -/
theorem group_goesOn {n c height width groups k : Nat} (hd : d.Valued feeds vs)
    (hxs : Reads vs sources xs)
    (hroute : Interpreter.route axis none xs = some y) (hsmall : volume y.dims < Word.signedModulus)
    (hpositive : ∀ e ∈ y.dims, 0 < e) (hdims : y.dims = [n, c, height, width]) (hdvd : groups ∣ c)
    (hk : k < groups) (block : Nat) :
    GoesOn feeds d vs (route sources axis (some ⟨groups, k⟩) block) fun t vs' =>
      vs'[t]? = some (y.portion 1 (k * (c / groups)) (c / groups)) := by
  have hrank : y.dims.length ≤ Word.signedModulus := by simp [hdims, Word.signedModulus]
  rw [route_eq_bind]
  exact .bind (route_goesOn hd hxs hroute hpositive hrank hsmall block) fun t d' vs' hd' _ ht =>
    channelPart_goesOn hd' ht hdims hdvd hk block

/-- The interpreter lays equal parts of the channels end to end again. -/
theorem interpreter_route_cut {n c height width groups : Nat}
    (hdims : y.dims = [n, c, height, width])
    (hgroups : 0 < groups) (hdvd : groups ∣ c) :
    Interpreter.route 0 none (y.cut 1 groups) = some y := by
  have haxis : 1 < y.dims.length := by simp [hdims]
  have hextent : y.extent 1 = c := by simp [Tensor.extent, hdims]
  have hjoin := Tensor.join_cut haxis hgroups (hextent ▸ hdvd)
  have hlength : (y.cut 1 groups).length = groups := by simp [Tensor.cut]
  rcases hparts : y.cut 1 groups with _ | ⟨first, _ | ⟨second, rest⟩⟩
  · rw [hparts, List.length_nil] at hlength
    omega
  · -- there is one group, whose part leaves nothing out
    obtain rfl : groups = 1 := by simpa [hparts] using hlength.symm
    have hfirst : (y.cut 1 1)[0]? = some first := by
      rw [hparts]
      rfl
    obtain ⟨-, rfl⟩ := Tensor.getElem?_cut hfirst
    rw [Nat.div_one, Nat.zero_mul, Tensor.portion_whole haxis]
    rfl
  · rw [hparts] at hjoin
    have hrank : 1 < first.dims.length := by
      have hfirst : (y.cut 1 groups)[0]? = some first := by
        rw [hparts]
        rfl
      obtain ⟨-, rfl⟩ := Tensor.getElem?_cut hfirst
      simp [hdims]
    have hone : routeAxis 0 first.dims.length 0 = .ok 1 :=
      routeAxis_eq_ok_iff.mpr ⟨le_refl 1, hrank, by decide, rfl⟩
    rw [interpreter_route_of_axis rfl hone, hjoin]
    rfl

/-- **The parts of all groups**, laid end to end. -/
theorem groups_goesOn {n c height width groups : Nat} (hd : d.Valued feeds vs)
    (hxs : Reads vs sources xs)
    (hroute : Interpreter.route axis none xs = some y) (hsmall : volume y.dims < Word.signedModulus)
    (hpositive : ∀ e ∈ y.dims, 0 < e) (hdims : y.dims = [n, c, height, width])
    (hgroups : 0 < groups) (hdvd : groups ∣ c) (block : Nat) :
    GoesOn feeds d vs (do
      let parts ← (List.range groups).mapM fun k => route sources axis (some ⟨groups, k⟩) block
      route parts 0 none block) fun t vs' => vs'[t]? = some y := by
  have hextent : y.extent 1 = c := by simp [Tensor.extent, hdims]
  have hmapM : GoesOn feeds d vs
      ((List.range groups).mapM fun k => route sources axis (some ⟨groups, k⟩) block)
      fun parts vs' => Reads vs' parts
        ((List.range groups).map fun k => y.portion 1 (k * (c / groups)) (c / groups)) :=
    .mapM hd fun k hk d' vs' hd' hfront =>
      group_goesOn hd' (hxs.of_front hfront) hroute hsmall hpositive hdims hdvd
        (List.mem_range.mp hk) block
  have hrank : y.dims.length ≤ Word.signedModulus := by simp [hdims, Word.signedModulus]
  refine .bind hmapM fun parts d' vs' hd' _ hparts =>
    route_goesOn hd' hparts ?_ hpositive hrank hsmall block
  have hcut := interpreter_route_cut hdims hgroups hdvd
  rwa [Tensor.cut, hextent] at hcut

/-! ## What is kept -/

/-- **A route finds a value** if an array can hold the elements of all sources. -/
theorem exists_route (hg : d.graph.Reachable) (hxs : List.Forall₂ (d.graph.Finds feeds) sources xs)
    (h : route sources axis none block d = .ok t d')
    (hsmall : (xs.map fun x => volume x.dims).sum < Word.signedModulus) :
    ∃ y, d'.graph.Finds feeds t y := by
  have hall := hxs
  cases hxs with
  | nil => cases h
  | @cons first x rest xs hx hrest =>
    cases hrest with
    | nil =>
      obtain ⟨rfl, rfl⟩ := pure_eq_ok.mp (route_single first axis block ▸ h)
      exact ⟨x, hx⟩
    | @cons second x₂ rest xs hsecond hrest =>
      obtain ⟨dims, a, hspans, haxis, hrecord⟩ := route_several_eq_ok.mp h
      obtain ⟨vs, hd, hreads⟩ := reads_of_finds hg (List.cons_ne_nil _ _) hall
      obtain ⟨-, whole, hwhole, hspans'⟩ := concat_spans hrecord
        (List.forall₂_map_right_iff.mpr (hd.valued.spans hreads))
      have hjoin : Tensor.join a (x :: x₂ :: xs) = some (.concat a whole (x :: x₂ :: xs)) := by
        rw [Tensor.join, hwhole, Option.map_some]
      have hvolume : volume whole = ((x :: x₂ :: xs).map fun v => volume v.dims).sum :=
        Tensor.volume_join hjoin
      obtain ⟨t', d₁, hrecord', hfinds⟩ := (concat_goesOn hd hreads hwhole hspans'.extents.1
        (hvolume.trans_lt hsmall)).finds
      obtain ⟨rfl, rfl⟩ := EStateM.Result.ok.inj (hrecord.symm.trans hrecord')
      exact ⟨_, hfinds⟩

/-- A route over several tensors has as many elements as all of them. -/
theorem volume_route (h : Interpreter.route axis none xs = some y) :
    volume y.dims = (xs.map fun x => volume x.dims).sum := by
  match xs with
  | [] => cases h
  | [only] =>
    obtain rfl := Option.some.inj h
    simp
  | first :: second :: rest =>
    obtain ⟨a, -, -, -, -, hjoin⟩ := interpreter_route_eq_some h
    exact Tensor.volume_join hjoin

/-- The sources of a route over several tensors, in what the route finds. -/
theorem found_several {first second : TensorId} {rest : List TensorId} {x : Tensor}
    (hg : d.graph.Reachable)
    (hxs : List.Forall₂ (d.graph.Finds feeds) (first :: second :: rest) (x :: xs))
    (h : route (first :: second :: rest) axis none block d = .ok t d') :
    ∃ a : Nat, (a : Int) = joinedAxis axis x.dims.length ∧ 1 ≤ a ∧ a < x.dims.length ∧
      ∀ y, d'.graph.Finds feeds t y → y.LaidOut a (x :: xs) := by
  obtain ⟨dims, a, hspans, haxis, -⟩ := route_several_eq_ok.mp h
  have hall := hxs
  obtain ⟨hx, hrest⟩ := List.forall₂_cons.mp hxs
  obtain ⟨x₂, others, -, -, rfl⟩ := List.forall₂_cons_left_iff.mp hrest
  obtain rfl := hspans.unique (hx.spans hg.wellFormed)
  obtain ⟨hle, hlt, -, ha⟩ := routeAxis_eq_ok_iff.mp haxis
  refine ⟨a, ha, hle, hlt, fun y hy => ?_⟩
  have hroute := (found_route hg hall h hy).1
  rw [interpreter_route_of_axis rfl haxis] at hroute
  exact (Tensor.laidOut_of_join ((Option.bind_fun_some _).symm.trans hroute)).2

/-- **A route keeps its sources.** A single one is passed on, and nothing is recorded. Several ones
are laid out along the axis behind the batch that the description names, and are found again in
whatever value is computed. There is such a value just if an array can hold the elements of all
sources. With groups, each part of the channels is the one that the group stands for, and the parts
of all groups, laid end to end, are the route without groups. -/
theorem route_keeps_sources (hg : d.graph.Reachable)
    (hxs : List.Forall₂ (d.graph.Finds feeds) sources xs)
    (h : route sources axis none block d = .ok t d') :
    (∀ only, sources = [only] → t = only ∧ d' = d) ∧
    (2 ≤ sources.length → ∃ a rank : Nat, (∀ x ∈ xs.head?, x.dims.length = rank) ∧
      (a : Int) = joinedAxis axis rank ∧ 1 ≤ a ∧ a < rank ∧ ∀ y, d'.graph.Finds feeds t y →
      y.LaidOut a xs) ∧
    ((∃ y, d'.graph.Finds feeds t y) ↔ (xs.map fun x => volume x.dims).sum < Word.signedModulus) ∧
    ∀ y n c height width groups, d'.graph.Finds feeds t y →
      y.dims = [n, c, height, width] → 0 < groups →
      groups ∣ c →
      (∀ k < groups, ∃ part e, route sources axis (some ⟨groups, k⟩) block d = .ok part e ∧
        e.graph.Finds feeds part (y.portion 1 (k * (c / groups)) (c / groups))) ∧
      ∃ joined e, (do
          let parts ← (List.range groups).mapM fun k => route sources axis (some ⟨groups, k⟩) block
          route parts 0 none block) d = .ok joined e ∧ e.graph.Finds feeds joined y := by
  refine ⟨?_, fun hlength => ?_, ⟨?_, exists_route hg hxs h⟩, ?_⟩
  · rintro only rfl
    obtain ⟨rfl, rfl⟩ := pure_eq_ok.mp (route_single only axis block ▸ h)
    exact ⟨rfl, rfl⟩
  · obtain ⟨first, second, rest, rfl⟩ : ∃ first second rest, sources = first :: second :: rest := by
      match sources, hlength with
      | first :: second :: rest, _ => exact ⟨first, second, rest, rfl⟩
    obtain ⟨x, others, -, -, rfl⟩ := List.forall₂_cons_left_iff.mp hxs
    obtain ⟨a, ha, hle, hlt, hlaid⟩ := found_several hg hxs h
    exact ⟨a, x.dims.length, by simp, ha, hle, hlt, hlaid⟩
  · rintro ⟨y, hy⟩
    obtain ⟨hroute, hsmall⟩ := found_route hg hxs h hy
    rwa [← volume_route hroute, ← y.size_eq]
  · intro y n c height width groups hy hdims hgroups hdvd
    obtain ⟨hroute, hsize⟩ := found_route hg hxs h hy
    have hsmall : volume y.dims < Word.signedModulus := y.size_eq ▸ hsize
    have hpositive : ∀ e ∈ y.dims, 0 < e := by
      have hg' : d'.graph.Reachable :=
        (adds_closed.route sources axis none block d t d' h).1.reachable hg
      obtain ⟨vs', hd', hvalue⟩ := valued_of_finds hg' hy
      exact extents_pos hd' hvalue
    have hne : sources ≠ [] := by
      rintro rfl
      cases h
    obtain ⟨vs, hd, hreads⟩ := reads_of_finds hg hne hxs
    exact ⟨fun k hk => (group_goesOn hd hreads hroute hsmall hpositive hdims hdvd hk block).finds,
      (groups_goesOn hd hreads hroute hsmall hpositive hdims hgroups hdvd block).finds⟩

/-- One input twice, along the channels. -/
theorem route_keeps_sources_fourChannels :
    let x := Tensor.ofFn [1, 4, 2, 2] Scalar.ofNat
    ∃ t d', route [0, 0] 0 none 1 Draft.fourChannels = .ok t d' ∧
      ∃ y, d'.graph.Finds [("data", x)] t y ∧ y.LaidOut 1 [x, x] := by
  intro x
  obtain ⟨hg, hx⟩ := Draft.fourChannels_finds Scalar.ofNat
  have hroute : ∃ t d', route [0, 0] 0 none 1 Draft.fourChannels = .ok t d' := ⟨_, _, rfl⟩
  obtain ⟨t, d', h⟩ := hroute
  refine ⟨t, d', h, ?_⟩
  obtain ⟨-, hseveral, hfinds, -⟩ := route_keeps_sources hg (.cons hx (.cons hx .nil)) h
  obtain ⟨a, rank, hrank, ha, -, -, hlaid⟩ := hseveral (by decide)
  obtain rfl : 4 = rank := hrank x rfl
  obtain rfl : a = 1 := Int.ofNat.inj ha
  obtain ⟨y, hy⟩ := hfinds.mpr (by decide)
  exact ⟨y, hy, hlaid y hy⟩

end Emit

end GridNet
