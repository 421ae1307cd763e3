import KernelFusion.Proofs.Ownership

/-!
The check of a schedule accepts every single-stream schedule.

At a boundary the flags are raised one after the other and lowered in the same order, so that the walk
over the flags finds none raised at its end. An edge has its signal and its wait at the boundary of its
consumer, or a barrier stands in for them.
-/

namespace KernelFusion

open List

namespace Schedule

variable {g : Graph}

/-! ### Walking over the flags -/

theorem followAll_append (live : LiveFlags) (xs ys : List Step) :
    followAll g live (xs ++ ys) = followAll g live xs >>= fun live => followAll g live ys := by
  induction xs generalizing live with
  | nil => rfl
  | cons s ss ih =>
    rw [List.cons_append, followAll, followAll, bind_assoc]
    exact congrArg _ (funext fun live => ih live)

/-- The walk passes over all steps but signals and waits. -/
theorem followAll_filter (live : LiveFlags) (steps : List Step) :
    followAll g live (steps.filter Step.isFlag) = followAll g live steps := by
  induction steps generalizing live with
  | nil => rfl
  | cons s ss ih =>
    cases s with
    | signal edge producer pipe flag =>
      rw [List.filter_cons_of_pos rfl, followAll, followAll]
      exact congrArg _ (funext fun live => ih live)
    | wait edge consumer flag =>
      rw [List.filter_cons_of_pos rfl, followAll, followAll]
      exact congrArg _ (funext fun live => ih live)
    | _ => exact ih live

/-- The flags that are raised for edges on their channels, the last one first. -/
def raised (gs : List (Edge × Nat)) : LiveFlags :=
  (gs.map fun a => (Flag.channel a.2, a.1.id)).reverse

theorem holder_raised_none {gs : List (Edge × Nat)} {channel : Nat}
    (h : channel ∉ gs.map Prod.snd) : holder (raised gs) (.channel channel) = none := by
  have hfind : ((raised gs).find? fun h => decide (h.1 = .channel channel)) = none := by
    refine List.find?_eq_none.mpr fun q hq => ?_
    obtain ⟨a, ha, rfl⟩ := List.mem_map.mp (List.mem_reverse.mp hq)
    simp only [decide_eq_true_eq, Flag.channel.injEq]
    exact fun hc => h (List.mem_map.mpr ⟨a, ha, hc⟩)
  rw [holder, hfind]
  rfl

theorem followAll_signals (gs hs : List (Edge × Nat)) (h : ((gs ++ hs).map Prod.snd).Nodup) :
    followAll g (raised gs) (hs.map SingleStream.signalOf) = .ok (raised (gs ++ hs)) := by
  induction hs generalizing gs with
  | nil => simp [followAll]
  | cons a hs ih =>
    have hfree : a.2 ∉ gs.map Prod.snd := by
      rw [List.map_append] at h
      exact fun hmem => (List.disjoint_of_nodup_append h) hmem (by simp)
    have hnext : followAll g (raised (gs ++ [a])) (hs.map SingleStream.signalOf)
        = .ok (raised (gs ++ a :: hs)) := by
      simpa using ih (gs ++ [a]) (by simpa using h)
    rw [List.map_cons, followAll, SingleStream.signalOf, follow, holder_raised_none hfree, ← hnext]
    simp [raised, bind, Except.bind]

theorem followAll_waits {gs : List (Edge × Nat)} (h : (gs.map Prod.snd).Nodup) :
    followAll g (raised gs) (gs.map SingleStream.waitOf) = .ok [] := by
  induction gs with
  | nil => rfl
  | cons a gs ih =>
    obtain ⟨ha, h⟩ := List.nodup_cons.mp h
    have hraised : raised (a :: gs) = raised gs ++ [(.channel a.2, a.1.id)] := by simp [raised]
    have hholder : holder (raised (a :: gs)) (.channel a.2) = some a.1.id := by
      have hnone := holder_raised_none ha
      rw [holder, Option.map_eq_none_iff] at hnone
      simp [holder, hraised, List.find?_append, hnone]
    have hdrop : ((raised (a :: gs)).filter fun h => decide (h.1 ≠ .channel a.2)) = raised gs := by
      have hself : ((raised gs).filter fun h => decide (h.1 ≠ .channel a.2)) = raised gs := by
        refine List.filter_eq_self.mpr fun q hq => ?_
        obtain ⟨b, hb, rfl⟩ := List.mem_map.mp (List.mem_reverse.mp hq)
        simp only [ne_eq, Flag.channel.injEq, decide_eq_true_eq]
        exact fun hc => ha (List.mem_map.mpr ⟨b, hb, hc⟩)
      rw [hraised, List.filter_append, hself]
      simp
    rw [List.map_cons, followAll, SingleStream.waitOf, follow, hholder]
    simp only [if_true, hdrop]
    exact ih h

theorem followAll_flagSteps (op : Nat) :
    followAll g [] (SingleStream.flagSteps g op) = .ok [] := by
  have hch := Rules.granted_nodup_channels (g := g) op
  have hsignals : followAll g [] ((Rules.granted g op).map SingleStream.signalOf)
      = .ok (raised (Rules.granted g op)) := by
    simpa [raised] using followAll_signals (g := g) [] (Rules.granted g op) hch
  rw [SingleStream.flagSteps, followAll_append, hsignals]
  exact followAll_waits hch

/-! ### Edges that are realized -/

variable {steps : List Step} {e : Edge}

theorem checkEdge_local (hs : e.explicitSync = false)
    (hsignals : steps.filter (Step.isSignalOf e.id) = [])
    (hwaits : steps.filter (Step.isWaitOf e.id) = []) : checkEdge steps e = .ok () := by
  simp [checkEdge, hs, positions_of_filter_nil hsignals, positions_of_filter_nil hwaits]

/-- One signal and one wait between the calls of the ends realize an edge. -/
theorem checkEdge_signalled (hlone : (invocations steps).Nodup) (hp : e.producer ∈ invocations steps)
    (hc : e.consumer ∈ invocations steps) (hs : e.explicitSync = true) {signal wait : Step}
    (hsignals : steps.filter (Step.isSignalOf e.id) = [signal])
    (hwaits : steps.filter (Step.isWaitOf e.id) = [wait])
    (horder : [.invoke e.producer, signal, wait, .invoke e.consumer] <+ steps) :
    checkEdge steps e = .ok () := by
  obtain ⟨i, hi, _⟩ := positions_invoke hlone hp
  obtain ⟨j, hj, _⟩ := positions_invoke hlone hc
  obtain ⟨s, hsig, _⟩ := positions_of_filter_singleton hsignals
  obtain ⟨w, hwt, _⟩ := positions_of_filter_singleton hwaits
  have hsignal : Step.isSignalOf e.id signal = true :=
    List.of_mem_filter (hsignals ▸ List.mem_singleton_self signal)
  have hwait : Step.isWaitOf e.id wait = true :=
    List.of_mem_filter (hwaits ▸ List.mem_singleton_self wait)
  have his : i < s := position_lt ((List.prefix_append [_, _] [_, _]).sublist.trans horder)
    hi (beq_self_eq_true _) hsig hsignal
  have hsw : s < w := position_lt (((List.prefix_append [_, _] [_]).sublist.trans
    (List.sublist_cons_self _ _)).trans horder) hsig hsignal hwt hwait
  have hwj : w < j := position_lt (((List.sublist_cons_self _ _).trans
    (List.sublist_cons_self _ _)).trans horder) hwt hwait hj (beq_self_eq_true _)
  simp [checkEdge, hs, invocation_of_positions hi, invocation_of_positions hj, hsig, hwt,
    checkRealized, his, hsw, hwj, bind, Except.bind]

/-- So does a barrier between the calls, if there is neither signal nor wait. -/
theorem checkEdge_barrier (hlone : (invocations steps).Nodup) (hp : e.producer ∈ invocations steps)
    (hc : e.consumer ∈ invocations steps) (hs : e.explicitSync = true)
    (hsignals : steps.filter (Step.isSignalOf e.id) = [])
    (hwaits : steps.filter (Step.isWaitOf e.id) = []) {b : Step} (hb : isBarrierFor e b = true)
    (horder : [.invoke e.producer, b, .invoke e.consumer] <+ steps) : checkEdge steps e = .ok () := by
  obtain ⟨i, hi, _⟩ := positions_invoke hlone hp
  obtain ⟨j, hj, _⟩ := positions_invoke hlone hc
  have hinvoke : ∀ op, Step.isInvokeOf op (.invoke op) = true := fun op => beq_self_eq_true op
  have hspan := any_span_of_sublist horder hi (hinvoke _) hj (hinvoke _) hb
  have hij : ¬j < i := by
    obtain ⟨k, s, hik, hkj, _⟩ := any_span.mp hspan
    omega
  simp [checkEdge, hs, invocation_of_positions hi, invocation_of_positions hj,
    positions_of_filter_nil hsignals, positions_of_filter_nil hwaits, checkRealized, hij, hspan, bind,
    Except.bind]

end Schedule

namespace SingleStream

open Schedule

variable {l : Launch} {e : Edge}

theorem checkFlags_steps
    (hf : ∀ e ∈ l.graph.edges, e.producer < e.consumer) :
    checkFlags l.graph (steps l) = .ok () := by
  have hblocks : ∀ ops : List Nat, followAll l.graph [] (ops.flatMap (flagSteps l.graph)) = .ok [] := by
    intro ops
    induction ops with
    | nil => rfl
    | cons op ops ih =>
      rw [List.flatMap_cons, followAll_append, followAll_flagSteps]
      exact ih
  have hall : followAll l.graph [] (steps l) = .ok [] := by
    rw [← followAll_filter, flags_steps hf]
    split
    · exact hblocks l.ids
    · rfl
  rw [checkFlags, hall]
  rfl

/-! ### Signals and waits of an edge -/

/-- The channel of an edge at its boundary, if it got one. -/
def grantOf (g : Graph) (e : Edge) : List (Edge × Nat) :=
  (Rules.granted g e.consumer).filter fun a => a.1.id == e.id

theorem mem_granted {g : Graph} {op : Nat} {a : Edge × Nat} (h : a ∈ Rules.granted g op) :
    a.1 ∈ g.edges ∧ a.1.consumer = op ∧ a.1.needsSignal = true :=
  Rules.mem_crossing.mp (List.of_mem_zip h).1

theorem grantOf_nil (hg : l.graph.WellFormed) (he : e ∈ l.graph.edges)
    (hs : e.needsSignal = false) : grantOf l.graph e = [] := by
  refine List.filter_eq_nil_iff.mpr fun a ha hid => ?_
  obtain ⟨hmem, _, hneeds⟩ := mem_granted ha
  rw [hg.id_injective hmem he (beq_iff_eq.mp hid), hs] at hneeds
  cases hneeds

/-- An edge that needs a signal holds one channel, or all channels are taken. -/
theorem grantOf_cases (hg : l.graph.WellFormed) (he : e ∈ l.graph.edges) (hs : e.needsSignal = true) :
    (∃ channel, (e, channel) ∈ Rules.granted l.graph e.consumer ∧
      grantOf l.graph e = [(e, channel)]) ∨
    (grantOf l.graph e = [] ∧ Rules.overflow l.graph e.consumer = [Rules.overflowBarrier]) := by
  have hcross : e ∈ Rules.crossing l.graph e.consumer := Rules.mem_crossing.mpr ⟨he, rfl, hs⟩
  have hids : ((Rules.granted l.graph e.consumer).map fun a => a.1.id).Nodup := by
    have := (Rules.crossing_nodup_ids hg e.consumer).sublist
      ((Rules.map_fst_zip_sublist _ Channels.all).map Edge.id)
    rwa [List.map_map] at this
  by_cases hgrant : ∃ channel, (e, channel) ∈ Rules.granted l.graph e.consumer
  · obtain ⟨channel, hmem⟩ := hgrant
    obtain ⟨before, behind, hsplit⟩ := List.append_of_mem hmem
    refine .inl ⟨channel, hmem, ?_⟩
    have hother : ∀ a ∈ before ++ behind, (a.1.id == e.id) = false := by
      rw [hsplit, List.map_append, List.map_cons] at hids
      intro a ha
      rw [beq_eq_false_iff_ne]
      intro hid
      refine (List.nodup_middle.mp hids).notMem ?_
      rw [← List.map_append]
      exact List.mem_map.mpr ⟨a, ha, hid⟩
    have hbefore : before.filter (fun a => a.1.id == e.id) = [] :=
      List.filter_eq_nil_iff.mpr fun a ha => by simp [hother a (by simp [ha])]
    have hbehind : behind.filter (fun a => a.1.id == e.id) = [] :=
      List.filter_eq_nil_iff.mpr fun a ha => by simp [hother a (by simp [ha])]
    rw [grantOf, hsplit, List.filter_append, List.filter_cons_of_pos (by simp), hbefore, hbehind]
    rfl
  · refine .inr ⟨List.filter_eq_nil_iff.mpr fun a ha hid => ?_, ?_⟩
    · have := hg.id_injective (mem_granted ha).1 he (beq_iff_eq.mp hid)
      exact hgrant ⟨a.2, this ▸ ha⟩
    · -- An edge at a position below the number of channels would have got the channel there.
      obtain ⟨i, hi⟩ := List.getElem?_of_mem hcross
      have hlen : Channels.all.length ≤ i := by
        by_contra hlt
        have hch := List.getElem?_eq_getElem (Nat.lt_of_not_le hlt)
        exact hgrant ⟨_, List.mem_of_getElem? (List.getElem?_zip_eq_some.mpr ⟨hi, hch⟩)⟩
      have hlt : i < (Rules.crossing l.graph e.consumer).length :=
        (List.getElem?_eq_some_iff.mp hi).1
      rw [Rules.overflow, if_pos (by omega)]

/-- A test that only flags pass, and of them only those of one edge, finds them at one boundary. -/
theorem filter_steps (hg : l.graph.WellFormed) (hf : ∀ e ∈ l.graph.edges, e.producer < e.consumer)
    (he : e ∈ l.graph.edges) {test : Step → Bool} (htest : ∀ s, test s = true → s.isFlag = true)
    {only : Edge × Nat → Step}
    (hflag : ∀ op, (flagSteps l.graph op).filter test
      = ((Rules.granted l.graph op).filter fun a => a.1.id == e.id).map only) :
    (steps l).filter test = if l.earlyStart then (grantOf l.graph e).map only else [] := by
  rw [← filter_filter_class htest, flags_steps hf]
  split
  · rw [List.filter_flatMap]
    refine (flatMap_eq_of_unique List.nodup_range
      (List.mem_range.mpr (hg.ends e he).2) fun op _ hop => ?_).trans (hflag e.consumer)
    rw [hflag, List.map_eq_nil_iff]
    refine List.filter_eq_nil_iff.mpr fun a ha hid => ?_
    obtain ⟨hmem, hconsumer, _⟩ := mem_granted ha
    rw [hg.id_injective hmem he (beq_iff_eq.mp hid)] at hconsumer
    exact hop hconsumer.symm
  · rfl

theorem signals_steps (hg : l.graph.WellFormed) (hf : ∀ e ∈ l.graph.edges, e.producer < e.consumer)
    (he : e ∈ l.graph.edges) : (steps l).filter (Step.isSignalOf e.id)
      = if l.earlyStart then (grantOf l.graph e).map signalOf else [] := by
  refine filter_steps hg hf he (fun s hs => ?_) fun op => ?_
  · cases s <;> simp_all [Step.isSignalOf, Step.isFlag]
  · have hwaits : ((Rules.granted l.graph op).map waitOf).filter (Step.isSignalOf e.id) = [] := by
      rw [List.filter_map, List.map_eq_nil_iff]
      exact List.filter_eq_nil_iff.mpr fun a _ => Bool.false_ne_true
    rw [flagSteps, List.filter_append, hwaits, List.filter_map, List.append_nil]
    rfl

theorem waits_steps (hg : l.graph.WellFormed) (hf : ∀ e ∈ l.graph.edges, e.producer < e.consumer)
    (he : e ∈ l.graph.edges) : (steps l).filter (Step.isWaitOf e.id)
      = if l.earlyStart then (grantOf l.graph e).map waitOf else [] := by
  refine filter_steps hg hf he (fun s hs => ?_) fun op => ?_
  · cases s <;> simp_all [Step.isWaitOf, Step.isFlag]
  · have hsignals : ((Rules.granted l.graph op).map signalOf).filter (Step.isWaitOf e.id) = [] := by
      rw [List.filter_map, List.map_eq_nil_iff]
      exact List.filter_eq_nil_iff.mpr fun a _ => Bool.false_ne_true
    rw [flagSteps, List.filter_append, hsignals, List.filter_map, List.nil_append]
    rfl

/-! ### Edges -/

/-- An edge that is not signalled has a barrier that realizes it between the calls of its ends. -/
theorem exists_barrierFor (hg : l.graph.WellFormed)
    (hf : ∀ e ∈ l.graph.edges, e.producer < e.consumer) (he : e ∈ l.graph.edges)
    (hs : e.explicitSync = true) (hnone : l.earlyStart = true → grantOf l.graph e = []) :
    ∃ s, isBarrierFor e s = true ∧ [.invoke e.producer, s, .invoke e.consumer] <+ steps l := by
  have hpc := hf e he
  have hc := (hg.ends e he).2
  cases hearly : l.earlyStart with
  | false =>
    obtain ⟨b, hscope, hb⟩ := exists_fullBarrier hearly (e.consumer - 1) e.consumer
    refine ⟨.barrier b, ?_, order_before_consumer hpc hc (List.singleton_sublist.mpr hb)⟩
    simp [isBarrierFor, Step.isFullBarrier, hscope]
  | true =>
    cases hcross : e.pair.isCross with
    | false =>
      obtain ⟨b, hscope, hb⟩ := exists_domainBarrier (guards_producer he hs)
      refine ⟨.barrier b, ?_, ?_⟩
      · simp [isBarrierFor, hcross, Step.meets, Barrier.covers, hscope]
      · simpa using order_behind_producer hearly hpc hc hb (List.nil_sublist _)
    | true =>
      have hneeds : e.needsSignal = true := by simp [Edge.needsSignal, hs, hcross]
      rcases grantOf_cases hg he hneeds with ⟨channel, _, hgrant⟩ | ⟨_, hover⟩
      · rw [hnone hearly] at hgrant
        cases hgrant
      · exact ⟨Rules.overflowBarrier, rfl,
          order_before_consumer hpc hc (overflow_sublist_syncSteps hearly hover)⟩

theorem order_signalled (hg : l.graph.WellFormed)
    (hf : ∀ e ∈ l.graph.edges, e.producer < e.consumer) (hearly : l.earlyStart = true)
    {a : Edge × Nat} (ha : a ∈ Rules.granted l.graph a.1.consumer) :
    [.invoke a.1.producer, signalOf a, waitOf a, .invoke a.1.consumer] <+ steps l := by
  obtain ⟨he, _, _⟩ := mem_granted ha
  exact order_before_consumer (hf a.1 he) (hg.ends a.1 he).2
    ((flags_sublist_crossSteps ha).trans (crossSteps_sublist_syncSteps hearly _ _))

theorem checkEdge_steps (hg : l.graph.WellFormed)
    (hf : ∀ e ∈ l.graph.edges, e.producer < e.consumer) (he : e ∈ l.graph.edges) :
    checkEdge (steps l) e = .ok () := by
  have hsignals := signals_steps hg hf he
  have hwaits := waits_steps hg hf he
  have hlone := nodup_invocations (l := l)
  have hp := mem_invocations (hg.ends e he).1
  have hc := mem_invocations (hg.ends e he).2
  cases hs : e.explicitSync with
  | false =>
    rw [grantOf_nil hg he (by simp [Edge.needsSignal, hs])] at hsignals hwaits
    exact checkEdge_local hs (hsignals.trans (by simp)) (hwaits.trans (by simp))
  | true =>
    by_cases hgrant : ∃ channel, (e, channel) ∈ Rules.granted l.graph e.consumer ∧
        l.earlyStart = true ∧ grantOf l.graph e = [(e, channel)]
    · obtain ⟨channel, hmem, hearly, hgrant⟩ := hgrant
      rw [if_pos hearly, hgrant] at hsignals hwaits
      exact checkEdge_signalled hlone hp hc hs hsignals hwaits (order_signalled hg hf hearly hmem)
    · have hnone : l.earlyStart = true → grantOf l.graph e = [] := by
        intro hearly
        cases hneeds : e.needsSignal with
        | false => exact grantOf_nil hg he hneeds
        | true =>
          rcases grantOf_cases hg he hneeds with ⟨channel, hmem, hgr⟩ | ⟨hnil, _⟩
          · exact absurd ⟨channel, hmem, hearly, hgr⟩ hgrant
          · exact hnil
      have hnothing : ∀ step : Edge × Nat → Step,
          (if l.earlyStart = true then (grantOf l.graph e).map step else []) = [] := by
        intro step
        split
        · rw [hnone (by assumption)]
          rfl
        · rfl
      obtain ⟨b, hb, horder⟩ := exists_barrierFor hg hf he hs hnone
      exact checkEdge_barrier hlone hp hc hs (hsignals.trans (hnothing _))
        (hwaits.trans (hnothing _)) hb horder

/-- Every single-stream schedule is accepted. -/
theorem verify_steps (hg : l.graph.WellFormed)
    (hf : ∀ e ∈ l.graph.edges, e.producer < e.consumer) :
    verify l.graph (steps l) = .ok (stats (steps l)) := by
  have hedges : l.graph.edges.forM (checkEdge (steps l)) = .ok () :=
    forM_eq_ok fun e he => checkEdge_steps hg hf he
  rw [verify, checkFlags_steps hf]
  simp only [bind, Except.bind, hedges]
  rfl

/-- CORRECT: for a graph as the store keeps it whose edges point forward, whatever they are, a schedule is
built that calls every operator once in order, its own check accepts it, and so does the check of the
locks, for every table of the graph. Options, events, shape and the handshake are free. -/
theorem single_stream_accepted (l : Launch) {ops : List Operator} (hg : l.graph.WellFormed)
    (ho : l.graph.order = .ok ops) :
    ∃ steps, build l = .ok steps ∧ invocations steps = List.range l.graph.size ∧
    verify l.graph steps = .ok (stats steps) ∧
    ∀ p workspace profiling,
      Ownership.check l.graph (.assign l.graph p workspace profiling) steps = .ok () :=
  ⟨steps l, build_eq hg, invocations_steps, verify_steps hg (Graph.order_forward ho), ownership_steps⟩

/-- Nine vector operators in front of a dynamic one on cube units, which waits for all of them and finds
a channel for eight. -/
def fanIn : Launch where
  kernelName := "fan_in"
  options := default
  graph := {
    units := ⟨24, 48⟩
    operators := List.replicate 9 { (default : Operator) with kernelType := .aivOnly }
      ++ [{ (default : Operator) with kernelType := .aicOnly, dispatch := .dynamic [] }]
    edges := (List.range 9).map fun i => ⟨i, i, 9, ⟨.vector, .cube⟩, .event 0, true⟩ }
  events := ⟨.singleStream, [], [], []⟩
  table := ⟨[], [], none, none, none⟩
  shape := .fedBy [] 0
  earlyStart := true

theorem fanIn_accepted : fanIn.graph.WellFormed ∧
    ∃ steps, build fanIn = .ok steps ∧ verify fanIn.graph steps = .ok (stats steps) := by
  have hg : fanIn.graph.WellFormed := ⟨by decide, by decide⟩
  obtain ⟨steps, hbuild, _, hverify, _⟩ := single_stream_accepted fanIn hg rfl
  exact ⟨hg, steps, hbuild, hverify⟩

end SingleStream

end KernelFusion
