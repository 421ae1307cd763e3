import KernelFusion.Proofs.Neutral
import KernelFusion.Proofs.Tiling

/-!
What outputs show of a request.

Some texts of a request are never checked: the names of parameters, functions in domains that an operator
does not run on, all functions of an operator that is chosen by a table, and the wording of debug options.
`shown` leaves them out, and `unnamed` leaves the names of arguments out of a parameter table. Requests that
read alike have launches that are shown alike:

        request ──── operators ──── graph ──── launch
                         │            │           │
                       shown        shown       shown
-/

namespace KernelFusion

/-! ### Operators -/

namespace FunctionNames

variable {f f' : FunctionNames} {a : Affinity} {d : Domain}

/-- The functions of the domains of an affinity. -/
def within (f : FunctionNames) (a : Affinity) : FunctionNames :=
  ⟨if a.contains .vector then f.vector else none, if a.contains .cube then f.cube else none⟩

theorem get?_within (h : d ∈ a.domains) : (f.within a).get? d = f.get? d := by
  have hcontains : a.contains d = true := List.contains_iff_mem.mpr h
  cases d <;> simp [within, get?, hcontains]

theorem within_congr (h : ∀ d ∈ a.domains, f'.get? d = f.get? d) : f'.within a = f.within a := by
  cases a <;> simp_all [within, Affinity.contains, Affinity.domains, get?]

end FunctionNames

def TilingEntry.shown (e : TilingEntry) : TilingEntry :=
  { e with functions := e.functions.within e.kernelType.affinity }

def Dispatch.shown : Dispatch → Dispatch
  | .static => .static
  | .dynamic table => .dynamic (table.map TilingEntry.shown)

namespace Operator

/-- The operator without texts that are never checked. -/
def shown (o : Operator) : Operator :=
  { o with
    dispatch := o.dispatch.shown
    params := o.params.map fun _ => ""
    functions := if o.isDynamic then ⟨none, none⟩ else o.functions.within o.affinity
    textSize := if o.isDynamic then ⟨0, 0⟩ else o.textSize
    debugOptions := "" }

theorem isDynamic_shown (o : Operator) : o.shown.isDynamic = o.isDynamic := by
  unfold isDynamic shown
  cases o.dispatch <;> rfl

theorem tiling_shown (o : Operator) : o.shown.tiling = o.tiling.map TilingEntry.shown := by
  unfold tiling shown
  cases o.dispatch <;> rfl

theorem neutral_shown : Neutral shown where
  default := rfl
  name _ := rfl
  kernelType _ := rfl
  blockCount _ := rfl
  isDynamic := isDynamic_shown
  stream _ := rfl
  sendEvents _ := rfl
  recvEvents _ := rfl
  unitLocal _ := rfl

end Operator

/-! ### Parameter tables -/

/-- A slot without the name of its argument. -/
def Slot.unnamed : Slot → Slot
  | .argument operator _ => .argument operator ""
  | s => s

namespace Table

/-- The table without the names of arguments. -/
def unnamed (t : Table) : Table := { t with slots := t.slots.map Slot.unnamed }

def Entry.unnamed (e : Entry) : Entry := { e with params := e.params.map fun _ => "" }

theorem entries_shown (p : EventPlan) (i : Nat) (ops : List Operator) :
    entries p i (ops.map Operator.shown) = (entries p i ops).map Entry.unnamed := by
  induction ops generalizing i with
  | nil => rfl
  | cons o ops ih =>
    simp only [List.map_cons, entries, ih, Operator.isDynamic_shown]
    rfl

theorem argumentSlots_unnamed (e : Entry) :
    argumentSlots e.unnamed = (argumentSlots e).map Slot.unnamed := by
  simp only [argumentSlots, Entry.unnamed, List.map_map]
  rfl

theorem map_unnamed_lockSlots (e : Entry) : (lockSlots e).map Slot.unnamed = lockSlots e := by
  simp only [lockSlots, List.map_append, List.map_map]
  rfl

theorem map_unnamed_dynamicSlots (e : Entry) : (dynamicSlots e).map Slot.unnamed = dynamicSlots e := by
  unfold dynamicSlots
  split <;> rfl

theorem argumentBases_unnamed (base : Nat) (es : List Entry) :
    argumentBases base (es.map Entry.unnamed) = argumentBases base es := by
  induction es generalizing base with
  | nil => rfl
  | cons e es ih => simp only [List.map_cons, argumentBases, ih, Entry.unnamed, List.length_map]

theorem lockBases_unnamed (base : Nat) (es : List Entry) :
    lockBases base (es.map Entry.unnamed) = lockBases base es := by
  induction es generalizing base with
  | nil => rfl
  | cons e es ih => simp only [List.map_cons, lockBases, ih, Entry.unnamed]

theorem dynamicBases_unnamed (base : Nat) (es : List Entry) :
    dynamicBases base (es.map Entry.unnamed) = dynamicBases base es := by
  induction es generalizing base with
  | nil => rfl
  | cons e es ih => simp only [List.map_cons, dynamicBases, ih, Entry.unnamed]

/-- Slots have their places whatever the names of arguments are. -/
theorem assign_shown (g : Graph) (p : EventPlan) (workspace profiling : Bool) :
    assign (g.mapOperators Operator.shown) p workspace profiling
      = (assign g p workspace profiling).unnamed := by
  have hentries : entries p 0 (g.mapOperators Operator.shown).operators
      = (entries p 0 g.operators).map Entry.unnamed := entries_shown p 0 g.operators
  have hlocks : ∀ e, lockSlots (Entry.unnamed e) = lockSlots e := fun _ => rfl
  have hcells : ∀ e, dynamicSlots (Entry.unnamed e) = dynamicSlots e := fun _ => rfl
  simp only [assign, hentries, unnamed, argumentBases_unnamed, lockBases_unnamed, dynamicBases_unnamed,
    List.flatMap_map, hlocks, hcells, argumentSlots_unnamed, List.map_cons, List.map_append,
    List.map_flatMap, List.length_flatMap, List.length_map, map_unnamed_lockSlots,
    map_unnamed_dynamicSlots]
  cases workspace <;> cases profiling <;> rfl

end Table

/-! ### Launches -/

namespace LaunchShape

/-- The shape without the wording of debug options. -/
def unworded (s : LaunchShape) : LaunchShape := { s with debugOptions := [] }

theorem needsWorkspace_unworded (s : LaunchShape) : s.unworded.needsWorkspace = s.needsWorkspace := rfl

theorem fedBy_shown (ops : List Operator) (bytes : Nat) :
    (fedBy (ops.map Operator.shown) bytes).unworded = (fedBy ops bytes).unworded := by
  have hdump : (ops.map Operator.shown).filter Operator.dump
      = (ops.filter Operator.dump).map Operator.shown := List.filter_map
  simp only [fedBy, unworded, blocksOf_map Operator.neutral_shown, maxUnitsOf_map Operator.neutral_shown,
    hdump, List.isEmpty_map, List.foldl_map, List.length_map]
  rfl

theorem of_shown (ops : List Operator) (feedSyncAll : Bool) :
    (LaunchShape.of (ops.map Operator.shown) feedSyncAll).map unworded
      = (LaunchShape.of ops feedSyncAll).map unworded := by
  have hfed : unworded ∘ fedBy (ops.map Operator.shown) = unworded ∘ fedBy ops :=
    funext (fedBy_shown ops)
  cases feedSyncAll with
  | false => exact congrArg some (fedBy_shown ops 0)
  | true =>
    simp only [LaunchShape.of, if_true, Option.map_map, hfed, blocksOf_map Operator.neutral_shown,
      List.length_map]

end LaunchShape

/-- The launch without texts that are never checked. -/
def Launch.shown (l : Launch) : Launch :=
  { l with
    graph := l.graph.mapOperators Operator.shown
    table := l.table.unnamed
    shape := l.shape.unworded }

theorem Launch.mapped_shown (l : Launch) : Launch.Mapped Operator.shown l l.shown :=
  ⟨Operator.neutral_shown, rfl, rfl, rfl, rfl⟩

/-! ### Requests that read alike -/

/-- Functions agree in the domains of the type with a name. -/
def FunctionNames.AgreeOn (typeName : String) (f f' : FunctionNames) : Prop :=
  ∀ t, KernelType.ofName? typeName = some t → ∀ d ∈ t.affinity.domains, f'.get? d = f.get? d

theorem FunctionNames.agreeOn_of_type {typeName : String} {t : KernelType} {f f' : FunctionNames}
    (ht : KernelType.ofName? typeName = some t) (h : ∀ d ∈ t.affinity.domains, f'.get? d = f.get? d) :
    f.AgreeOn typeName f' := by
  intro t' ht'
  cases Option.some.inj (ht.symm.trans ht')
  exact h

/-- Cases of a table that differ in functions outside of their domains only. -/
structure TilingCase.ReadsLike (c c' : TilingCase) : Prop where
  key : c'.tilingKey = c.tilingKey
  kernelType : c'.kernelType = c.kernelType
  functions : c.functions.AgreeOn c.kernelType c'.functions

/-- Operators that differ in texts that are never checked only. A dynamic operator has neither functions
nor sizes of its own that are used. -/
structure OperatorDescriptor.ReadsLike (o o' : OperatorDescriptor) : Prop where
  others : o' = { o with
    params := o'.params, functions := o'.functions, textSize := o'.textSize, blockDim := o'.blockDim
    debugOptions := o'.debugOptions, tiling := o'.tiling }
  params : o'.params.length = o.params.length
  dump : o'.needsDump = o.needsDump
  tiling : List.Forall₂ TilingCase.ReadsLike o.tiling o'.tiling
  functions : o.isDynamic = false → o.functions.AgreeOn o.kernelType o'.functions
  textSize : o.isDynamic = false → o'.textSize = o.textSize
  blockDim : o.isDynamic = false → o'.blockDim = o.blockDim

structure Request.ReadsLike (r r' : Request) : Prop where
  others : r' = { r with operators := r'.operators }
  operators : List.Forall₂ OperatorDescriptor.ReadsLike r.operators r'.operators

theorem ofName?_of_resolveType {operator typeName : String} {t : KernelType}
    (h : resolveType operator typeName = .ok t) : KernelType.ofName? typeName = some t := by
  unfold resolveType at h
  split at h
  next htype => rw [htype, Except.ok.inj h]
  · cases h

namespace Operator

variable {d d' : OperatorDescriptor} {t : KernelType} {u : Units}

theorem sortEntries_shown (es : List TilingEntry) :
    (sortEntries es).map TilingEntry.shown = sortEntries (es.map TilingEntry.shown) :=
  List.map_mergeSort fun _ _ _ _ => rfl

theorem tilingEntry_shown {operator : String} {c c' : TilingCase} {e e' : TilingEntry}
    (h : c.ReadsLike c') (he : tilingEntry operator c = .ok e) (he' : tilingEntry operator c' = .ok e') :
    e'.shown = e.shown := by
  obtain ⟨t, ht, he⟩ := bind_eq_ok.mp he
  obtain ⟨t', ht', he'⟩ := bind_eq_ok.mp he'
  rw [h.kernelType, ht] at ht'
  cases Except.ok.inj ht'
  cases Except.ok.inj he
  cases Except.ok.inj he'
  have hfunctions := FunctionNames.within_congr (h.functions t (ofName?_of_resolveType ht))
  simp only [TilingEntry.shown, h.key, hfunctions]

theorem tilingEntries_shown {operator : String} {cs cs' : List TilingCase} {es es' : List TilingEntry}
    (h : List.Forall₂ TilingCase.ReadsLike cs cs') (he : cs.mapM (tilingEntry operator) = .ok es)
    (he' : cs'.mapM (tilingEntry operator) = .ok es') :
    es'.map TilingEntry.shown = es.map TilingEntry.shown := by
  induction h generalizing es es' with
  | nil =>
    cases Except.ok.inj he
    cases Except.ok.inj he'
    rfl
  | cons hc _ ih =>
    rw [List.mapM_cons] at he he'
    obtain ⟨e, hentry, he⟩ := bind_eq_ok.mp he
    obtain ⟨es, hrest, he⟩ := bind_eq_ok.mp he
    obtain ⟨e', hentry', he'⟩ := bind_eq_ok.mp he'
    obtain ⟨es', hrest', he'⟩ := bind_eq_ok.mp he'
    cases Except.ok.inj he
    cases Except.ok.inj he'
    rw [List.map_cons, List.map_cons, tilingEntry_shown hc hentry hentry', ih hrest hrest']

/-- How an operator is run, as far as it is shown. -/
theorem dispatchOf_shown {x x' : Dispatch × Nat} (h : d.ReadsLike d')
    (hx : dispatchOf d t u = .ok x) (hx' : dispatchOf d' t u = .ok x') :
    x'.1.shown = x.1.shown ∧ x'.2 = x.2 := by
  have hname : d'.name = d.name := by rw [h.others]
  have hdynamic : d'.isDynamic = d.isDynamic := by rw [h.others]; rfl
  unfold dispatchOf at hx hx'
  rw [hdynamic, hname] at hx'
  cases hd : d.isDynamic with
  | true =>
    rw [hd, if_pos rfl] at hx hx'
    obtain ⟨es, hes, hx⟩ := bind_eq_ok.mp hx
    obtain ⟨es', hes', hx'⟩ := bind_eq_ok.mp hx'
    cases Except.ok.inj hx
    cases Except.ok.inj hx'
    have htable := tilingEntries_shown h.tiling hes hes'
    refine ⟨?_, rfl⟩
    rw [Dispatch.shown, Dispatch.shown, sortEntries_shown, sortEntries_shown, htable]
  | false =>
    rw [hd] at hx hx'
    cases Except.ok.inj hx
    cases Except.ok.inj hx'
    exact ⟨rfl, congrArg UInt32.toNat (h.blockDim hd)⟩

/-- An operator of a request, as far as it is shown. -/
theorem ofDescriptor_shown {options : Options} {index : Nat} {o o' : Operator} (h : d.ReadsLike d')
    (ho : ofDescriptor options u index d = .ok o) (ho' : ofDescriptor options u index d' = .ok o') :
    o'.shown = o.shown := by
  have hdynamic : o.isDynamic = d.isDynamic := isDynamic_ofDescriptor ho
  have hdynamic' : o'.isDynamic = d.isDynamic := by
    rw [isDynamic_ofDescriptor ho', h.others]
    rfl
  obtain ⟨t, ht, ho⟩ := bind_eq_ok.mp ho
  obtain ⟨_, _, ho⟩ := bind_eq_ok.mp ho
  obtain ⟨_, _, ho⟩ := bind_eq_ok.mp ho
  obtain ⟨⟨x, n⟩, hx, ho⟩ := bind_eq_ok.mp ho
  rw [h.others] at ho'
  obtain ⟨t', ht', ho'⟩ := bind_eq_ok.mp ho'
  obtain ⟨_, _, ho'⟩ := bind_eq_ok.mp ho'
  obtain ⟨_, _, ho'⟩ := bind_eq_ok.mp ho'
  obtain ⟨⟨x', n'⟩, hx', ho'⟩ := bind_eq_ok.mp ho'
  rw [← h.others] at hx'
  cases Except.ok.inj (ht.symm.trans ht')
  obtain ⟨hdispatch, hcount⟩ : x'.shown = x.shown ∧ n' = n := dispatchOf_shown h hx hx'
  have hparams : d'.params.map (fun _ => "") = d.params.map fun _ => "" := by
    rw [List.map_const', List.map_const', h.params]
  have hdump := h.dump
  rw [h.others] at hdump
  -- what a dynamic operator has in place of its table is left out, and otherwise it is the same
  have hfunctions : (if d.isDynamic then ⟨none, none⟩ else d'.functions.within t.affinity)
      = if d.isDynamic then ⟨none, none⟩ else d.functions.within t.affinity := by
    cases hd : d.isDynamic with
    | true => rfl
    | false => exact FunctionNames.within_congr (h.functions hd t (ofName?_of_resolveType ht))
  have htextSize : (if d.isDynamic then ⟨0, 0⟩ else d'.textSize)
      = if d.isDynamic then ⟨0, 0⟩ else d.textSize := by
    cases hd : d.isDynamic with
    | true => rfl
    | false => exact h.textSize hd
  cases Except.ok.inj ho
  cases Except.ok.inj ho'
  simp only [isDynamic] at hdynamic hdynamic'
  simp only [shown, isDynamic, affinity, hdynamic, hdynamic', hfunctions, htextSize, hdispatch, hcount, hdump,
    List.map_map, Function.comp_def, hparams]
  rfl

/-- The operators of requests that read alike are shown alike. -/
theorem ofDescriptors_shown {options : Options} {index : Nat} {ds ds' : List OperatorDescriptor}
    {ops ops' : List Operator} (h : List.Forall₂ OperatorDescriptor.ReadsLike ds ds')
    (hops : ofDescriptors options u index ds = .ok ops)
    (hops' : ofDescriptors options u index ds' = .ok ops') : ops'.map shown = ops.map shown := by
  induction h generalizing index ops ops' with
  | nil =>
    cases Except.ok.inj hops
    cases Except.ok.inj hops'
    rfl
  | cons hd _ ih =>
    obtain ⟨o, ho, hops⟩ := bind_eq_ok.mp hops
    obtain ⟨rest, hrest, hops⟩ := bind_eq_ok.mp hops
    obtain ⟨o', ho', hops'⟩ := bind_eq_ok.mp hops'
    obtain ⟨rest', hrest', hops'⟩ := bind_eq_ok.mp hops'
    cases Except.ok.inj hops
    cases Except.ok.inj hops'
    rw [List.map_cons, List.map_cons, ofDescriptor_shown hd ho ho', ih hrest hrest']

end Operator

namespace Generator

variable {u : Units} {ops ops' : List Operator} {p : EventPlan} {g g' : Graph}

theorem graph_shown (hops : ops'.map Operator.shown = ops.map Operator.shown)
    (h : graph u ops p = .ok g) (h' : graph u ops' p = .ok g') :
    g'.mapOperators Operator.shown = g.mapOperators Operator.shown := by
  obtain ⟨_, hconnect, _⟩ := graph_ok_iff.mp h
  obtain ⟨_, hconnect', _⟩ := graph_ok_iff.mp h'
  have hkept : ∀ ops, Graph.SplitsKept Operator.shown ⟨u, ops, []⟩ := fun _ _ _ _ _ => Iff.rfl
  have hround := EventPlan.connect_congr (p := p) Operator.neutral_shown (hkept ops) (hkept ops') hops
  rw [hconnect, hconnect'] at hround
  exact congrArg Prod.fst hround

/-- Requests that read alike have launches that are shown alike. -/
theorem launch_shown {r r' : Request} {l l' : Launch} (h : r.ReadsLike r') (hl : launch r = .ok l)
    (hl' : launch r' = .ok l') : l'.shown = l.shown := by
  rw [h.others] at hl'
  obtain ⟨o, ops, p, s, g, ho, _, hops, hplan, hs, hgraph, rfl⟩ := launch_ok_iff.mp hl
  obtain ⟨o', ops', p', s', g', ho', _, hops', hplan', hs', hgraph', rfl⟩ := launch_ok_iff.mp hl'
  cases Except.ok.inj (ho.symm.trans ho')
  have hmap : ops'.map Operator.shown = ops.map Operator.shown :=
    Operator.ofDescriptors_shown h.operators hops hops'
  obtain rfl : p = p' := by
    rw [← EventPlan.analyze_map Operator.neutral_shown, hmap,
      EventPlan.analyze_map Operator.neutral_shown, hplan] at hplan'
    exact Except.ok.inj hplan'
  have hg := graph_shown hmap hgraph hgraph'
  have hshape : s'.unworded = s.unworded := by
    have hof := LaunchShape.of_shown ops' o.feedSyncAll
    rw [hmap, LaunchShape.of_shown, hs, hs'] at hof
    exact (Option.some.inj hof).symm
  have hworkspace : s'.needsWorkspace = s.needsWorkspace := by
    rw [← LaunchShape.needsWorkspace_unworded, hshape, LaunchShape.needsWorkspace_unworded]
  simp only [Launch.shown, launchOf, ← Table.assign_shown, hg, hshape, hworkspace]

end Generator

end KernelFusion
