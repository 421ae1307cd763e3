import KernelFusion.Proofs.Order
import KernelFusion.Proofs.Store

/-!
What the check of a single-stream schedule accepts, for every list of steps.

The check walks once over all steps with the flags that are raised. Seen from one flag, the walk is an
automaton with two states, and steps on other flags do not move it:

        free ──── signal e ───▶ held e
          ▲                       │
          └─────── wait e ────────┘        anything else is refused

So the walk ends with no flag raised exactly if the steps on each flag are signals, each followed by the
wait of its edge. The edges are checked by positions afterwards.
-/

namespace KernelFusion

/-- Whether a step raises a flag or waits for it. -/
def Step.isOn (flag : Flag) : Step → Bool
  | .signal _ _ _ f => decide (f = flag)
  | .wait _ _ f => decide (f = flag)
  | _ => false

def Step.isSignal : Step → Bool
  | .signal .. => true
  | _ => false

theorem Flag.le_total (a b : Flag) : a.le b = true ∨ b.le a = true := by
  cases a <;> cases b <;> simp [Flag.le]
  omega

theorem Flag.le_trans {a b c : Flag} (hab : a.le b = true) (hbc : b.le c = true) : a.le c = true := by
  cases a <;> cases b <;> cases c <;> simp_all [Flag.le]
  omega

namespace Schedule

variable {g : Graph} {steps : List Step} {live : LiveFlags}

/-! ### What is asked of a schedule -/

/-- Signals, each followed by the wait of its edge. -/
inductive Matched : List Step → Prop where
  | nil : Matched []
  | pair {edge : Nat} {producer consumer : Domain} {pipe : Pipe} {flag : Flag} {rest : List Step}
      (h : Matched rest) :
      Matched (.signal edge producer pipe flag :: .wait edge consumer flag :: rest)

/-- The first call of an operator is at this position. -/
def FirstCall (steps : List Step) (op i : Nat) : Prop :=
  steps[i]? = some (.invoke op) ∧ ∀ j < i, steps[j]? ≠ some (.invoke op)

/-- The step at this position passes a test, and no other step does. -/
def OnlyAt (steps : List Step) (test : Step → Bool) (i : Nat) : Prop :=
  ∀ j, (∃ s, steps[j]? = some s ∧ test s = true) ↔ j = i

/-- No step passes a test. -/
def Nowhere (steps : List Step) (test : Step → Bool) : Prop := ∀ s ∈ steps, test s = false

/-- What realizes an edge whose ends are called at `p` and `c`: its one signal and its one wait, or a
barrier, over both domains or over the one domain of an edge that stays inside. -/
inductive Realized (steps : List Step) (e : Edge) (p c : Nat) : Prop where
  | signalled {s w : Nat} (hsignal : OnlyAt steps (Step.isSignalOf e.id) s)
      (hwait : OnlyAt steps (Step.isWaitOf e.id) w) (hps : p < s) (hsw : s < w) (hwc : w < c)
  | covered {i : Nat} {b : Barrier} (hsignal : Nowhere steps (Step.isSignalOf e.id))
      (hwait : Nowhere steps (Step.isWaitOf e.id)) (hpi : p < i) (hic : i < c)
      (hbarrier : steps[i]? = some (.barrier b))
      (hscope : b.scope = .full ∨ e.pair.isCross = false ∧ b.scope = .domain e.pair.producer)

/-- Flags are used in pairs, edges that stay on their units use none, and all others are realized. -/
structure WellSynchronized (g : Graph) (steps : List Step) : Prop where
  flags : ∀ flag, Matched (steps.filter (Step.isOn flag))
  locals : ∀ e ∈ g.edges, e.explicitSync = false →
    Nowhere steps (Step.isSignalOf e.id) ∧ Nowhere steps (Step.isWaitOf e.id)
  edges : ∀ e ∈ g.edges, e.explicitSync = true → ∃ p c,
    FirstCall steps e.producer p ∧ FirstCall steps e.consumer c ∧ Realized steps e p c

/-! ### One flag -/

/-- What is left to come on a flag that holds an edge, or none. -/
def MatchedFrom : Option Nat → List Step → Prop
  | none, rest => Matched rest
  | some edge, rest => ∃ consumer flag after, rest = .wait edge consumer flag :: after ∧ Matched after

theorem holder_nil (flag : Flag) : holder [] flag = none := rfl

theorem holder_cons (flag f : Flag) (edge : Nat) :
    holder ((flag, edge) :: live) f = if f = flag then some edge else holder live f := by
  by_cases h : f = flag
  · simp [holder, h]
  · rw [if_neg h, holder, holder, List.find?_cons_of_neg (by simpa using Ne.symm h)]

theorem holder_filter (flag f : Flag) :
    holder (live.filter fun h => decide (h.1 ≠ flag)) f = if f = flag then none else holder live f := by
  induction live with
  | nil => simp [holder_nil]
  | cons a live ih =>
    obtain ⟨flag', edge⟩ := a
    by_cases hdrop : flag' = flag
    · rw [List.filter_cons_of_neg (by simpa using hdrop), ih, holder_cons]
      by_cases hf : f = flag <;> simp [hf, hdrop]
    · rw [List.filter_cons_of_pos (by simpa using hdrop), holder_cons, holder_cons, ih]
      by_cases hf : f = flag'
      · rw [if_pos hf, if_pos hf, if_neg (hf ▸ hdrop)]
      · rw [if_neg hf, if_neg hf]

theorem holder_eq_none_iff : (∀ flag, holder live flag = none) ↔ live = [] := by
  constructor
  · intro h
    cases live with
    | nil => rfl
    | cons a live =>
      have hhead := h a.1
      rw [holder_cons, if_pos rfl] at hhead
      cases hhead
  · rintro rfl flag
    exact holder_nil flag

theorem matchedFrom_nil {held : Option Nat} : MatchedFrom held [] ↔ held = none := by
  cases held with
  | none => exact iff_of_true .nil rfl
  | some edge => simp [MatchedFrom]

theorem matchedFrom_signal {held : Option Nat} {edge : Nat} {producer : Domain} {pipe : Pipe}
    {flag : Flag} {rest : List Step} (hrest : ∀ s ∈ rest, Step.isOn flag s = true) :
    MatchedFrom held (.signal edge producer pipe flag :: rest)
      ↔ held = none ∧ MatchedFrom (some edge) rest := by
  cases held with
  | some other => simp [MatchedFrom]
  | none =>
    simp only [MatchedFrom, true_and]
    constructor
    · rintro (_ | ⟨hafter⟩)
      exact ⟨_, _, _, rfl, hafter⟩
    · rintro ⟨consumer, flag', after, rfl, hafter⟩
      obtain rfl : flag' = flag := of_decide_eq_true (hrest _ List.mem_cons_self)
      exact .pair hafter

theorem matchedFrom_wait {held : Option Nat} {edge : Nat} {consumer : Domain} {flag : Flag}
    {rest : List Step} :
    MatchedFrom held (.wait edge consumer flag :: rest)
      ↔ held = some edge ∧ MatchedFrom none rest := by
  cases held with
  | none =>
    simp only [MatchedFrom, reduceCtorEq, false_and, iff_false]
    nofun
  | some other =>
    simp only [MatchedFrom, Option.some.injEq]
    constructor
    · rintro ⟨_, _, _, heq, hafter⟩
      obtain ⟨⟨rfl, -, -⟩, rfl⟩ : (edge = other ∧ consumer = _ ∧ flag = _) ∧ rest = _ := by
        simpa using heq
      exact ⟨rfl, hafter⟩
    · rintro ⟨rfl, hafter⟩
      exact ⟨_, _, _, rfl, hafter⟩

/-! ### The walk over all flags -/

theorem filter_isOn (flag : Flag) (steps : List Step) :
    ∀ s ∈ steps.filter (Step.isOn flag), Step.isOn flag s = true :=
  fun _ hs => (List.mem_filter.mp hs).2

theorem filter_isOn_cons {s : Step} {flag : Flag} (hs : ∀ f, Step.isOn f s = decide (flag = f))
    (rest : List Step) (f : Flag) : (s :: rest).filter (Step.isOn f)
      = if f = flag then s :: rest.filter (Step.isOn f) else rest.filter (Step.isOn f) := by
  rw [List.filter_cons, hs]
  by_cases hf : f = flag
  · simp [hf]
  · simp [hf, Ne.symm hf]

section Step

variable {edge : Nat} {producer consumer : Domain} {pipe : Pipe} {flag : Flag} {live' : LiveFlags}

theorem follow_signal : follow g live (.signal edge producer pipe flag) = .ok live' ↔
    holder live flag = none ∧ (flag, edge) :: live = live' := by
  rw [follow]
  cases holder live flag <;> simp

theorem follow_wait : follow g live (.wait edge consumer flag) = .ok live' ↔
    holder live flag = some edge ∧ live.filter (fun h => decide (h.1 ≠ flag)) = live' := by
  rw [follow]
  cases holder live flag with
  | none => simp
  | some held => by_cases hheld : held = edge <;> simp [hheld]

/-- A step moves only the flag that it is on. -/
theorem matched_cons_iff {s : Step} {rest : List Step} {held : Option Nat} {allowed : Prop}
    (hs : ∀ f, Step.isOn f s = decide (flag = f))
    (hlive : ∀ f, holder live' f = if f = flag then held else holder live f)
    (hflag : MatchedFrom (holder live flag) (s :: rest.filter (Step.isOn flag))
      ↔ allowed ∧ MatchedFrom held (rest.filter (Step.isOn flag))) :
    (∀ f, MatchedFrom (holder live f) ((s :: rest).filter (Step.isOn f))) ↔
      allowed ∧ ∀ f, MatchedFrom (holder live' f) (rest.filter (Step.isOn f)) := by
  have hfilter := filter_isOn_cons hs rest
  constructor
  · intro h
    have hmoved := h flag
    rw [hfilter, if_pos rfl, hflag] at hmoved
    refine ⟨hmoved.1, fun f => ?_⟩
    rw [hlive]
    by_cases hf : f = flag
    · rw [if_pos hf, hf]
      exact hmoved.2
    · have hother := h f
      rw [hfilter, if_neg hf] at hother
      rwa [if_neg hf]
  · rintro ⟨hallowed, h⟩ f
    have hrest := h f
    rw [hlive] at hrest
    rw [hfilter]
    by_cases hf : f = flag
    · rw [if_pos hf, hf] at hrest
      rw [if_pos hf, hf, hflag]
      exact ⟨hallowed, hrest⟩
    · rw [if_neg hf] at hrest
      rwa [if_neg hf]

end Step

/-- The walk gets to its end with no flag raised exactly if each flag, by itself, does. -/
theorem followAll_ok_iff (live : LiveFlags) (steps : List Step) : followAll g live steps = .ok [] ↔
    ∀ flag, MatchedFrom (holder live flag) (steps.filter (Step.isOn flag)) := by
  induction steps generalizing live with
  | nil =>
    simp only [followAll, Except.ok.injEq, List.filter_nil, matchedFrom_nil]
    exact holder_eq_none_iff.symm
  | cons s rest ih =>
    cases s with
    | signal edge producer pipe flag =>
      rw [followAll, bind_eq_ok, matched_cons_iff (fun _ => rfl) (holder_cons flag · edge)
        (matchedFrom_signal (filter_isOn flag rest))]
      simp only [follow_signal, and_assoc, exists_and_left, exists_eq_left', ih]
    | wait edge consumer flag =>
      rw [followAll, bind_eq_ok, matched_cons_iff (fun _ => rfl) (holder_filter flag)
        matchedFrom_wait]
      simp only [follow_wait, and_assoc, exists_and_left, exists_eq_left', ih]
    | _ => exact ih live

/-- Among flags that are raised there is a lowest one. -/
theorem exists_lowest (hne : live ≠ []) : ∃ h ∈ live, ∀ o ∈ live, h.1.le o.1 = true := by
  induction live with
  | nil => exact absurd rfl hne
  | cons a live ih =>
    have hself : a.1.le a.1 = true := (Flag.le_total a.1 a.1).elim id id
    by_cases hnil : live = []
    · exact ⟨a, List.mem_cons_self, by simpa [hnil] using hself⟩
    · obtain ⟨b, hb, hmin⟩ := ih hnil
      rcases Flag.le_total a.1 b.1 with hab | hba
      · refine ⟨a, List.mem_cons_self, fun o ho => ?_⟩
        rcases List.mem_cons.mp ho with rfl | ho
        · exact hself
        · exact Flag.le_trans hab (hmin o ho)
      · refine ⟨b, List.mem_cons_of_mem _ hb, fun o ho => ?_⟩
        rcases List.mem_cons.mp ho with rfl | ho
        · exact hba
        · exact hmin o ho

theorem lowest_eq_none_iff : lowest live = none ↔ live = [] := by
  constructor
  · intro h
    by_contra hne
    obtain ⟨a, ha, hmin⟩ := exists_lowest hne
    exact List.find?_eq_none.mp h a ha (List.all_eq_true.mpr hmin)
  · rintro rfl
    rfl

theorem checkFlags_ok_iff :
    checkFlags g steps = .ok () ↔ ∀ flag, Matched (steps.filter (Step.isOn flag)) := by
  have hwalk : checkFlags g steps = .ok () ↔ followAll g [] steps = .ok [] := by
    rw [checkFlags, bind_eq_ok]
    constructor
    · rintro ⟨live, hlive, hlowest⟩
      cases hl : lowest live with
      | none => exact hlive.trans (congrArg _ (lowest_eq_none_iff.mp hl))
      | some h => simp [hl, throw, throwThe, MonadExceptOf.throw] at hlowest
    · intro h
      exact ⟨[], h, rfl⟩
  rw [hwalk, followAll_ok_iff]
  rfl

/-! ### Counts -/

/-- The flags that are raised, each of them once. -/
def Distinct (live : LiveFlags) : Prop := (live.map Prod.fst).Nodup

theorem flag_notMem_of_holder {flag : Flag} (h : holder live flag = none) : flag ∉ live.map Prod.fst := by
  rw [holder, Option.map_eq_none_iff, List.find?_eq_none] at h
  intro hmem
  obtain ⟨a, ha, rfl⟩ := List.mem_map.mp hmem
  exact h a ha (decide_eq_true rfl)

theorem flag_mem_of_holder {flag : Flag} {edge : Nat} (h : holder live flag = some edge) :
    flag ∈ live.map Prod.fst := by
  obtain ⟨a, ha, _⟩ := Option.map_eq_some_iff.mp h
  have hflag : a.1 = flag := by simpa using List.find?_some ha
  exact List.mem_map.mpr ⟨a, List.mem_of_find?_eq_some ha, hflag⟩

theorem length_lower {flag : Flag} (hn : Distinct live) (h : flag ∈ live.map Prod.fst) :
    (live.filter fun h => decide (h.1 ≠ flag)).length + 1 = live.length := by
  have hone : live.countP (fun h => decide (h.1 = flag)) = 1 := by
    have hcount := List.count_eq_one_of_mem hn h
    rw [List.count, List.countP_map] at hcount
    rw [← hcount]
    refine List.countP_congr fun a _ => ?_
    simp
  have hsplit := List.length_eq_countP_add_countP (fun h : Flag × Nat => decide (h.1 = flag)) (l := live)
  rw [← List.countP_eq_length_filter]
  simp only [hone, decide_eq_true_eq] at hsplit
  simp only [ne_eq]
  omega

/-- A signal raises a flag, a wait lowers one, and no other step does either. -/
theorem follow_count {s : Step} {live' : LiveFlags} (h : follow g live s = .ok live')
    (hn : Distinct live) : Distinct live' ∧
      live.length + [s].countP Step.isSignal = live'.length + [s].countP Step.isWait := by
  cases s with
  | signal edge producer pipe flag =>
    obtain ⟨hfree, rfl⟩ := follow_signal.mp h
    exact ⟨List.nodup_cons.mpr ⟨flag_notMem_of_holder hfree, hn⟩, rfl⟩
  | wait edge consumer flag =>
    obtain ⟨hheld, rfl⟩ := follow_wait.mp h
    refine ⟨hn.sublist (List.filter_sublist.map _), ?_⟩
    exact (length_lower hn (flag_mem_of_holder hheld)).symm
  | _ =>
    cases h
    exact ⟨hn, rfl⟩

theorem followAll_count {live' : LiveFlags} (h : followAll g live steps = .ok live')
    (hn : Distinct live) :
    live.length + steps.countP Step.isSignal = live'.length + steps.countP Step.isWait := by
  induction steps generalizing live with
  | nil =>
    cases h
    rfl
  | cons s rest ih =>
    obtain ⟨next, hs, hrest⟩ := bind_eq_ok.mp h
    obtain ⟨hnext, hcount⟩ := follow_count hs hn
    have hrest := ih hrest hnext
    rw [← List.singleton_append, List.countP_append, List.countP_append]
    omega

theorem countP_signals_eq_waits (h : ∀ flag, Matched (steps.filter (Step.isOn flag))) :
    steps.countP Step.isSignal = steps.countP Step.isWait := by
  have hwalk : followAll (Graph.empty ⟨0, 0⟩) [] steps = .ok [] := (followAll_ok_iff [] steps).mpr h
  simpa using followAll_count hwalk List.nodup_nil

/-! ### Edges -/

variable {e : Edge} {p c : Nat}

theorem invocation_eq_ok {op i : Nat} : invocation steps op = .ok i ↔ FirstCall steps op i := by
  have htest : ∀ s, Step.isInvokeOf op s = true ↔ s = .invoke op := by
    intro s
    cases s <;> simp [Step.isInvokeOf]
  have hfind : invocation steps op = .ok i ↔ steps.findIdx? (Step.isInvokeOf op) = some i := by
    rw [invocation]
    cases steps.findIdx? (Step.isInvokeOf op) <;> simp
  rw [hfind, List.findIdx?_eq_some_iff_getElem, FirstCall]
  constructor
  · rintro ⟨hlt, hi, hbefore⟩
    refine ⟨by rw [List.getElem?_eq_getElem hlt, (htest _).mp hi], fun j hj hcall => ?_⟩
    obtain ⟨hjlt, hj'⟩ := List.getElem?_eq_some_iff.mp hcall
    exact hbefore j hj ((htest _).mpr hj')
  · rintro ⟨hi, hbefore⟩
    obtain ⟨hlt, hi⟩ := List.getElem?_eq_some_iff.mp hi
    refine ⟨hlt, (htest _).mpr hi, fun j hj hcall => hbefore j hj ?_⟩
    rw [List.getElem?_eq_getElem (by omega), (htest _).mp hcall]

theorem nodup_positions (test : Step → Bool) (steps : List Step) : (positions test steps).Nodup := by
  have hall : (steps.zipIdx.map Prod.snd).Nodup := by
    rw [List.zipIdx_map_snd]
    exact List.nodup_range'
  exact hall.sublist (List.filter_sublist.map _)

theorem positions_eq_singleton {test : Step → Bool} {i : Nat} :
    positions test steps = [i] ↔ OnlyAt steps test i := by
  constructor
  · intro h j
    rw [← mem_positions, h, List.mem_singleton]
  · intro h
    refine List.perm_singleton.mp ((List.perm_ext_iff_of_nodup (nodup_positions _ _)
      (List.nodup_singleton i)).mpr fun j => ?_)
    rw [mem_positions, h j, List.mem_singleton]

theorem positions_eq_nil {test : Step → Bool} : positions test steps = [] ↔ Nowhere steps test := by
  rw [← List.length_eq_zero_iff, length_positions, List.length_eq_zero_iff, List.filter_eq_nil_iff]
  simp [Nowhere]

theorem isBarrierFor_iff {s : Step} : isBarrierFor e s = true ↔ ∃ b : Barrier, s = .barrier b ∧
    (b.scope = .full ∨ e.pair.isCross = false ∧ b.scope = .domain e.pair.producer) := by
  cases s with
  | barrier b =>
    cases hcross : e.pair.isCross <;> simp [isBarrierFor, Step.isFullBarrier, Step.meets, Barrier.covers, hcross]
  | _ => simp [isBarrierFor, Step.isFullBarrier, Step.meets]

/-- The two ways in which the positions of signals and waits can be accepted. -/
theorem checkRealized_ok_iff {signals waits : List Nat} :
    checkRealized steps e p c signals waits = .ok () ↔
      (∃ s w, signals = [s] ∧ waits = [w] ∧ p < s ∧ s < w ∧ w < c) ∨
      signals = [] ∧ waits = [] ∧ (span steps p c).any (isBarrierFor e) = true := by
  unfold checkRealized
  split
  next s w =>
    simp
  next =>
    by_cases hback : c < p
    · have hspan : span steps p c = [] := by
        rw [span, List.drop_eq_nil_iff, List.length_take]
        omega
      simp [hback, hspan]
    · simp [hback]
  next hone hnone =>
    refine iff_of_false (by simp) ?_
    rintro (⟨s, w, rfl, rfl, _⟩ | ⟨rfl, rfl, _⟩)
    · exact hone s w rfl rfl
    · exact hnone rfl rfl

theorem checkRealized_positions (hp : steps[p]? = some (.invoke e.producer)) :
    checkRealized steps e p c (positions (Step.isSignalOf e.id) steps)
      (positions (Step.isWaitOf e.id) steps) = .ok () ↔ Realized steps e p c := by
  rw [checkRealized_ok_iff]
  simp only [positions_eq_singleton, positions_eq_nil, any_span, isBarrierFor_iff]
  constructor
  · rintro (⟨s, w, hsignal, hwait, hps, hsw, hwc⟩ | ⟨hsignal, hwait, i, _, hpi, hic, hi, b, rfl, hscope⟩)
    · exact .signalled hsignal hwait hps hsw hwc
    · have hne : p ≠ i := by
        rintro rfl
        cases hp.symm.trans hi
      exact .covered hsignal hwait (by omega) hic hi hscope
  · rintro (⟨hsignal, hwait, hps, hsw, hwc⟩ | ⟨hsignal, hwait, hpi, hic, hi, hscope⟩)
    · exact .inl ⟨_, _, hsignal, hwait, hps, hsw, hwc⟩
    · exact .inr ⟨hsignal, hwait, _, _, hpi.le, hic, hi, _, rfl, hscope⟩

theorem checkEdge_local_iff (hs : e.explicitSync = false) : checkEdge steps e = .ok () ↔
    Nowhere steps (Step.isSignalOf e.id) ∧ Nowhere steps (Step.isWaitOf e.id) := by
  rw [← positions_eq_nil, ← positions_eq_nil]
  simp [checkEdge, hs]

theorem checkEdge_explicit_iff (hs : e.explicitSync = true) : checkEdge steps e = .ok () ↔
    ∃ p c, FirstCall steps e.producer p ∧ FirstCall steps e.consumer c ∧ Realized steps e p c := by
  rw [checkEdge, if_pos hs]
  simp only [bind_eq_ok, invocation_eq_ok]
  constructor
  · rintro ⟨p, hp, c, hc, hrealized⟩
    exact ⟨p, c, hp, hc, (checkRealized_positions hp.1).mp hrealized⟩
  · rintro ⟨p, c, hp, hc, hrealized⟩
    exact ⟨p, hp, c, hc, (checkRealized_positions hp.1).mpr hrealized⟩

/-! ### The check -/

/-- CORRECT: the check accepts a list of steps exactly if it is well synchronized, whatever the graph and
the steps are. What it reports are the numbers of the steps; signals and waits are equally many. -/
theorem verify_ok_iff (g : Graph) (steps : List Step) (s : SyncStats) : verify g steps = .ok s ↔
    WellSynchronized g steps ∧
    s.signalPairs = steps.countP Step.isWait ∧ s.signalPairs = steps.countP Step.isSignal ∧
    s.fullBarriers = steps.countP Step.isFullBarrier ∧
    s.domainBarriers = steps.countP Step.isDomainBarrier := by
  have haccepts : verify g steps = .ok s ↔ WellSynchronized g steps ∧ stats steps = s := by
    simp only [verify, bind_eq_ok]
    constructor
    · rintro ⟨_, hflags, _, hedges, hstats⟩
      have hedges := forM_ok_iff.mp hedges
      refine ⟨⟨checkFlags_ok_iff.mp hflags, fun e he hs => ?_, fun e he hs => ?_⟩,
        Except.ok.inj hstats⟩
      · exact (checkEdge_local_iff hs).mp (hedges e he)
      · exact (checkEdge_explicit_iff hs).mp (hedges e he)
    · rintro ⟨⟨hflags, hlocals, hedges⟩, hstats⟩
      refine ⟨(), checkFlags_ok_iff.mpr hflags, (), forM_ok_iff.mpr fun e he => ?_,
        congrArg _ hstats⟩
      cases hs : e.explicitSync with
      | false => exact (checkEdge_local_iff hs).mpr (hlocals e he hs)
      | true => exact (checkEdge_explicit_iff hs).mpr (hedges e he hs)
  rw [haccepts]
  refine and_congr_right fun hwell => ?_
  have hpairs := countP_signals_eq_waits hwell.flags
  constructor
  · rintro rfl
    exact ⟨rfl, hpairs.symm, rfl, rfl⟩
  · rintro ⟨hwaits, _, hfull, hdomain⟩
    rw [stats, ← hwaits, ← hfull, ← hdomain]

end Schedule

end KernelFusion
