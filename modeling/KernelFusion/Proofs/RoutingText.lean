import KernelFusion.Device.Body
import KernelFusion.Proofs.VariantRun

/-!
Which variant a unit runs, by the text that is written.

The text of a guarded choice is read and run on a unit, in the code for one domain or for both. It runs
one variant on the blocks of the operator and none on the other units, as the rule says that the host
goes by, for core numbers of eight bits.
-/

namespace KernelFusion

open Branching

/-! ### The gate -/

namespace Guarded

variable {g : Guarded} {u : Machine} {s : State} {n index core : Nat} {f : Frame} {fs : List Frame}

/-- The text of a variant is one statement, and the other lines of the choice can be read. -/
structure Readable (g : Guarded) : Prop where
  single : ∀ s ∈ g.variants, ∃ statement, statements? s.render = some [statement]
  before : ∀ s ∈ g.before, s.Readable
  after : ∀ s ∈ g.after, s.Readable
  tail : ∀ s ∈ g.tail, s.Readable
  complement : ∀ s ∈ g.complement, s.Readable

theorem Readable.variants (hg : g.Readable) : ∀ s ∈ g.variants, s.Readable := by
  intro s hs
  obtain ⟨statement, hstatement⟩ := hg.single s hs
  rw [Stmt.Readable, hstatement]
  rfl

/-- The end of the gate, with what is run outside of it. -/
def gateEnd (g : Guarded) : List Piece :=
  match g.complement with
  | some s => [.otherwise, .line s, .leave]
  | none => [.leave]

theorem pieces_gate (g : Guarded) : g.gate.pieces
    = .branch (.blockBelow g.index g.limit) :: (variantChain g.variants g.tail).pieces ++ g.gateEnd := by
  unfold gate gateEnd
  cases g.complement <;> simp

theorem leads_gateEnd (hg : g.Readable) (hs : s.frames = f :: fs) (hactive : isActive fs = true) :
    u.Leads s (g.gateEnd.flatMap Piece.clauses) fs
      (if f.taken then [] else g.complement.toList.flatMap Stmt.statements) := by
  unfold gateEnd
  cases hc : g.complement with
  | none =>
    have hleave := leads_leave (u := u) hs
    simpa using hleave
  | some c =>
    have hsimple := (hg.complement c hc).spec.2
    obtain ⟨known, hrun⟩ := run_otherwise (u := u) hs hactive
    simp only [List.flatMap_cons, List.flatMap_nil, List.append_nil, Option.toList_some]
    refine .after hrun rfl ?_
    cases hf : f.taken with
    | true =>
      obtain ⟨b, hidle⟩ := run_statements_idle (u := u)
        (s := ⟨.passed true :: fs, known, s.trace, none⟩) hsimple rfl
      exact .after hidle rfl (leads_leave rfl)
    | false =>
      have hlead := (leads_statements (u := u) (s := ⟨.ran :: fs, known, s.trace, none⟩) hsimple
        rfl).append fun s' hs' => leads_leave hs'
      simpa [Piece.clauses] using hlead

theorem eval_blockBelow (hindex : u.answer g.index.function.toList = some index) (n : Nat) :
    (Test.holds (.binary .less (.call g.index.function.toList) (.number n))).eval u.domain u.answer s.known
      = some (decide (index < n)) := by
  by_cases h : index < n <;> simp [Test.eval, Expr.eval, hindex, BinaryOp.apply, h]

theorem run_gate (hlimit : g.limit = .count n) (hactive : isActive s.frames = true)
    (hindex : u.answer g.index.function.toList = some index) :
    (Piece.branch (.blockBelow g.index g.limit)).clauses.foldlM u.run s
      = some { s with frames := .ofTest (decide (index < n)) :: s.frames, behind := none } := by
  rw [hlimit]
  exact run_branch (test_blockBelow g.index n) hactive (eval_blockBelow hindex n)

/-- A block of the operator runs one variant. -/
theorem leads_gate_open (hg : g.Readable) (hne : g.variants ≠ []) (hlimit : g.limit = .count n)
    (hactive : isActive s.frames = true) (hindex : u.answer g.index.function.toList = some index)
    (hcore : u.answer coreFunction = some core) (hlt : index < n) :
    ∃ st, g.variants[core % 256 % g.variants.length]? = some st ∧
      u.Leads s (g.gate.pieces.flatMap Piece.clauses) s.frames
        (coreStatements g.variants.length ++ bodyStatements g.tail st) := by
  have hrun := run_gate hlimit hactive hindex
  rw [decide_eq_true hlt] at hrun
  obtain ⟨st, hget, hchain⟩ := leads_variantChain (u := u)
    (s := { s with frames := .ran :: s.frames, behind := none }) hne hg.tail hg.variants hcore rfl
  have hlead := hchain.append fun s' hs' => leads_gateEnd hg hs' hactive
  rw [show Frame.ran.taken = true from rfl, if_pos rfl, List.append_nil] at hlead
  rw [pieces_gate, List.cons_append, List.flatMap_cons, List.flatMap_append]
  exact ⟨st, hget, .after hrun rfl hlead⟩

/-- Another unit runs none of them. -/
theorem leads_gate_closed (hg : g.Readable) (hlimit : g.limit = .count n)
    (hactive : isActive s.frames = true) (hindex : u.answer g.index.function.toList = some index)
    (hge : n ≤ index) : u.Leads s (g.gate.pieces.flatMap Piece.clauses) s.frames
      (g.complement.toList.flatMap Stmt.statements) := by
  have hrun := run_gate hlimit hactive hindex
  rw [decide_eq_false (Nat.not_lt.mpr hge)] at hrun
  have hchain := leads_idle (u := u) (s := { s with frames := .passed false :: s.frames, behind := none })
    (readable_variantChain hg.tail hg.variants) rfl
  have hlead := hchain.append fun s' hs' => leads_gateEnd hg hs' hactive
  rw [List.nil_append] at hlead
  rw [pieces_gate, List.cons_append, List.flatMap_cons, List.flatMap_append]
  exact .after hrun rfl hlead

/-! ### The whole choice -/

/-- The part on the units of the domain, with what stands around the gate. -/
def body (g : Guarded) : Code := .stmts g.before ++ g.gate ++ .stmts g.after

theorem code_eq (g : Guarded) (arch : Option Domain) : g.code arch
    = (if arch = some g.domain then g.body else .when (.onDomain g.domain) g.body) ++ .empty := rfl

theorem readable_body (hg : g.Readable) (hlimit : g.limit = .count n) :
    ∀ q ∈ g.body.pieces, q.Readable := by
  have hend : ∀ q ∈ g.gateEnd, q.Readable := by
    unfold gateEnd
    cases hc : g.complement with
    | none => simp [Piece.Readable]
    | some c => simpa [Piece.Readable] using hg.complement c hc
  have hgate : ∀ q ∈ g.gate.pieces, q.Readable := by
    rw [pieces_gate, hlimit, List.cons_append]
    refine List.forall_mem_cons.mpr ⟨trivial, List.forall_mem_append.mpr ⟨?_, hend⟩⟩
    exact readable_variantChain hg.tail hg.variants
  rw [body, Code.pieces_append, Code.pieces_append, Code.pieces_stmts, Code.pieces_stmts]
  exact List.forall_mem_append.mpr
    ⟨List.forall_mem_append.mpr ⟨readable_lines hg.before, hgate⟩, readable_lines hg.after⟩

theorem readable_code (hg : g.Readable) (hlimit : g.limit = .count n) (arch : Option Domain) :
    ∀ q ∈ (g.code arch).pieces, q.Readable := by
  have hbody := readable_body hg hlimit
  rw [code_eq, Code.pieces_append]
  refine List.forall_mem_append.mpr ⟨?_, by simp [Piece.Readable]⟩
  split
  next => exact hbody
  next =>
    rw [Code.pieces_when, List.cons_append]
    exact List.forall_mem_cons.mpr
      ⟨trivial, List.forall_mem_append.mpr ⟨hbody, by simp [Piece.Readable]⟩⟩

/-- What a unit of the domain runs, from what it runs in the gate. -/
def around (g : Guarded) (inner : List Statement) : List Statement :=
  g.before.flatMap Stmt.statements ++ inner ++ g.after.flatMap Stmt.statements

theorem leads_body {inner : List Statement} (hg : g.Readable)
    (hgate : ∀ s : State, isActive s.frames = true →
      u.Leads s (g.gate.pieces.flatMap Piece.clauses) s.frames inner)
    (hactive : isActive s.frames = true) :
    u.Leads s (g.body.pieces.flatMap Piece.clauses) s.frames (g.around inner) := by
  rw [body, Code.pieces_append, Code.pieces_append, Code.pieces_stmts, Code.pieces_stmts,
    List.flatMap_append, List.flatMap_append]
  have hinner (s' : State) (hs' : s'.frames = s.frames) :
      u.Leads s' (g.gate.pieces.flatMap Piece.clauses) s.frames inner :=
    hs' ▸ hgate s' (hs' ▸ hactive)
  have hafter (s' : State) (hs' : s'.frames = s.frames) : u.Leads s'
      ((g.after.map Piece.line).flatMap Piece.clauses) s.frames (g.after.flatMap Stmt.statements) :=
    hs' ▸ leads_lines hg.after (hs' ▸ hactive)
  exact ((leads_lines hg.before hactive).append hinner).append hafter

theorem run_domain (hactive : isActive s.frames = true) (d : Domain) :
    (Piece.branch (.onDomain d)).clauses.foldlM u.run s
      = some { s with frames := .ofTest (decide (u.domain = d)) :: s.frames, behind := none } :=
  run_branch (test_onDomain d) hactive rfl

/-- The line behind the code says nothing. -/
theorem clauses_code (g : Guarded) (arch : Option Domain) : (g.code arch).pieces.flatMap Piece.clauses
    = if arch = some g.domain then g.body.pieces.flatMap Piece.clauses
      else (Piece.branch (.onDomain g.domain)).clauses
        ++ (g.body.pieces.flatMap Piece.clauses ++ Piece.leave.clauses) := by
  rw [code_eq]
  split <;> simp [Piece.clauses]

theorem leads_code_on {ran : List Statement} (hdomain : u.domain = g.domain)
    (hbody : ∀ s : State, isActive s.frames = true →
      u.Leads s (g.body.pieces.flatMap Piece.clauses) s.frames ran)
    (hactive : isActive s.frames = true) (arch : Option Domain) :
    u.Leads s ((g.code arch).pieces.flatMap Piece.clauses) s.frames ran := by
  rw [clauses_code]
  split
  next => exact hbody s hactive
  next =>
    have hrun := run_domain (u := u) hactive g.domain
    rw [decide_eq_true hdomain] at hrun
    have hlead := (hbody { s with frames := .ran :: s.frames, behind := none } rfl).append
      fun s' hs' => leads_leave hs'
    rw [List.append_nil] at hlead
    exact .after hrun rfl hlead

theorem leads_code_off (hg : g.Readable) (hlimit : g.limit = .count n) (hdomain : u.domain ≠ g.domain)
    (hactive : isActive s.frames = true) {arch : Option Domain} (harch : arch ≠ some g.domain) :
    u.Leads s ((g.code arch).pieces.flatMap Piece.clauses) s.frames [] := by
  have hrun := run_domain (u := u) hactive g.domain
  rw [decide_eq_false hdomain] at hrun
  have hidle := leads_idle (u := u) (s := { s with frames := .passed false :: s.frames, behind := none })
    (readable_body hg hlimit) rfl
  rw [clauses_code, if_neg harch]
  exact .after hrun rfl (hidle.append fun s' hs' => leads_leave hs')

/-! ### Units -/

end Guarded

/-- A unit as code sees it: one function answers the number of its block, one that of its core. -/
def PhysicalUnit.machine (p : PhysicalUnit) (index : BlockIndex) : Machine where
  domain := p.domain
  answer f :=
    if f = coreFunction then some p.coreId
    else if f = index.function.toList then some p.blockIndex else none

namespace PhysicalUnit

variable (p : PhysicalUnit) (index : BlockIndex)

theorem answer_core : (p.machine index).answer coreFunction = some p.coreId := by simp [machine]

theorem answer_index : (p.machine index).answer index.function.toList = some p.blockIndex := by
  have hne : index.function.toList ≠ coreFunction := by cases index <;> decide +kernel
  simp [machine, hne]

end PhysicalUnit

theorem Branching.Machine.trace?_write {u : Machine} {c : Code} {ran : List Statement}
    (hc : ∀ q ∈ c.pieces, q.Readable)
    (hlead : u.Leads ⟨[], [], [], none⟩ (c.pieces.flatMap Piece.clauses) [] ran) (w : Writer) :
    ∃ text, (c.write w).text = w.text ++ text ∧ u.trace? text = some ran := by
  obtain ⟨text, htext, hread⟩ := Piece.read?_foldl hc w
  obtain ⟨s, hrun, hframes, htrace⟩ := hlead
  refine ⟨text, by rw [Code.write_eq_foldl, htext], ?_⟩
  simp [Machine.trace?, hread, hrun, hframes, htrace]

namespace Guarded

variable {g : Guarded} {n i : Nat} {p : PhysicalUnit}

/-- By the text for the units of a domain, or of all, a unit runs these statements. -/
def Traces (g : Guarded) (p : PhysicalUnit) (ran : List Statement) : Prop :=
  ∀ (arch : Option Domain) (w : Writer), (∀ a ∈ arch, p.domain = a) →
    ∃ text, ((g.code arch).write w).text = w.text ++ text ∧ (p.machine g.index).trace? text = some ran

/-- A unit runs the statement of one variant, and of no other. -/
def Runs (g : Guarded) (p : PhysicalUnit) (i : Nat) : Prop :=
  ∃ st statement, g.variants[i]? = some st ∧ statements? st.render = some [statement] ∧
    g.Traces p (g.around (coreStatements g.variants.length
      ++ statement :: g.tail.toList.flatMap Stmt.statements))

/-- A unit runs no variant. -/
def Skips (g : Guarded) (p : PhysicalUnit) : Prop :=
  g.Traces p (if p.domain = g.domain then g.around (g.complement.toList.flatMap Stmt.statements) else [])

theorem traces_on {inner : List Statement} (hg : g.Readable) (hlimit : g.limit = .count n)
    (hdomain : p.domain = g.domain)
    (hgate : ∀ s : State, isActive s.frames = true →
      (p.machine g.index).Leads s (g.gate.pieces.flatMap Piece.clauses) s.frames inner) :
    g.Traces p (g.around inner) := by
  intro arch w _
  refine Machine.trace?_write (readable_code hg hlimit arch) ?_ w
  exact leads_code_on hdomain (fun s hs => leads_body hg hgate hs) rfl arch

theorem runs_variant (hg : g.Readable) (hlimit : g.limit = .count n) (hne : g.variants ≠ [])
    (hdomain : p.domain = g.domain) (hblock : p.blockIndex < n) :
    g.Runs p (p.coreId % 256 % g.variants.length) := by
  have hindex : p.coreId % 256 % g.variants.length < g.variants.length :=
    Nat.mod_lt _ (List.length_pos_iff.mpr hne)
  obtain ⟨st, hget⟩ : ∃ st, g.variants[p.coreId % 256 % g.variants.length]? = some st :=
    ⟨_, List.getElem?_eq_getElem hindex⟩
  obtain ⟨statement, hstatement⟩ := hg.single st (List.mem_of_getElem? hget)
  refine ⟨st, statement, hget, hstatement, traces_on hg hlimit hdomain fun s hs => ?_⟩
  obtain ⟨st', hget', hlead⟩ := leads_gate_open hg hne hlimit hs (p.answer_index g.index)
    (p.answer_core g.index) hblock
  cases hget.symm.trans hget'
  rwa [bodyStatements, List.flatMap_cons, Stmt.statements, hstatement] at hlead

theorem skips_unit (hg : g.Readable) (hlimit : g.limit = .count n)
    (hout : ¬(p.domain = g.domain ∧ p.blockIndex < n)) : g.Skips p := by
  unfold Skips
  split
  next hdomain =>
    have hblock : n ≤ p.blockIndex := Nat.le_of_not_lt fun hlt => hout ⟨hdomain, hlt⟩
    exact traces_on hg hlimit hdomain fun s hs =>
      leads_gate_closed hg hlimit hs (p.answer_index g.index) hblock
  next hdomain =>
    intro arch w harch
    -- code without a test of the domain is for units of that domain alone
    have hother : arch ≠ some g.domain := fun h => hdomain (harch _ h)
    exact Machine.trace?_write (readable_code hg hlimit arch)
      (leads_code_off hg hlimit hdomain rfl hother) w

/-- Numbers that follow one another have all remainders. -/
theorem exists_remainder {split : Nat} (hi : i < split) (first : Nat) :
    ∃ k < split, (first + k) % split = i := by
  have hbelow : first % split < split := Nat.mod_lt _ (Nat.zero_lt_of_lt hi)
  have hfirst : first % split + split * (first / split) = first := Nat.mod_add_div first split
  by_cases hle : first % split ≤ i
  · refine ⟨i - first % split, by omega, ?_⟩
    have hsum : first + (i - first % split) = i + split * (first / split) := by omega
    rw [hsum, Nat.add_mul_mod_self_left, Nat.mod_eq_of_lt hi]
  · refine ⟨i + split - first % split, by omega, ?_⟩
    have hsum : first + (i + split - first % split) = i + split + split * (first / split) := by omega
    rw [hsum, Nat.add_mul_mod_self_left, Nat.add_mod_right, Nat.mod_eq_of_lt hi]

/-- CORRECT: a unit runs a variant by the text exactly if it is a block of the operator, and then the one
of its core number, of which the text keeps eight bits. That is the variant of the rule where these are
all its bits, and cores that follow one another reach all variants. -/
theorem text_routes_units (hg : g.Readable) (hlimit : g.limit = .count n) (hne : g.variants ≠ []) :
    (∀ p : PhysicalUnit, if p.domain = g.domain ∧ p.blockIndex < n
      then g.Runs p (p.coreId % 256 % g.variants.length) else g.Skips p) ∧
    (∀ p : PhysicalUnit, p.coreId < 256 → (RoutingRule.make g.domain n g.variants.length).route p
      = if p.domain = g.domain ∧ p.blockIndex < n
        then .variant (p.coreId % 256 % g.variants.length) else .skip) ∧
    ∀ (units : List PhysicalUnit) (first : Nat), first + g.variants.length ≤ 256 →
      (∀ k < g.variants.length, ∃ p ∈ units, p.domain = g.domain ∧ p.blockIndex < n ∧
        p.coreId = first + k) →
      ∀ i < g.variants.length, ∃ p ∈ units, g.Runs p i := by
  refine ⟨fun p => ?_, fun p hcore => ?_, fun units first hfirst hunits i hi => ?_⟩
  · split
    next h => exact runs_variant hg hlimit hne h.1 h.2
    next h => exact skips_unit hg hlimit h
  · have hlength : max g.variants.length 1 = g.variants.length :=
      Nat.max_eq_left (List.length_pos_iff.mpr hne)
    rw [RoutingRule.route, RoutingRule.make, hlength, Nat.mod_eq_of_lt hcore]
    by_cases hdomain : p.domain = g.domain <;> by_cases hblock : p.blockIndex < n <;>
      simp [hdomain, hblock, Nat.not_le.mpr, Nat.le_of_not_lt]
  · obtain ⟨k, hk, hremainder⟩ := exists_remainder hi first
    obtain ⟨p, hp, hdomain, hblock, hcore⟩ := hunits k hk
    have hruns := runs_variant hg hlimit hne hdomain hblock
    rw [hcore, Nat.mod_eq_of_lt (show first + k < 256 by omega), hremainder] at hruns
    exact ⟨p, hp, hruns⟩

/-- An operator of three variants that feeds its own barrier, called by four blocks of vector units. -/
def tripleAdd : Guarded where
  domain := .vector
  index := .logical
  limit := .count 4
  variants := (variantSymbols "add" 3).map fun symbol => .call symbol 2
  before := Body.flush true "dcci-before-kernel-start"
  after := []
  tail := some (.text "AscendC::SuperKernelAutoSyncAllEndImpl();")
  complement := some (.text "AscendC::SuperKernelAutoSyncAllComplementImpl();")

theorem tripleAdd_readable : tripleAdd.Readable where
  single st hst := by
    have hsymbols : ∀ symbol ∈ variantSymbols "add" 3, symbol.toList ≠ [] ∧
        symbol.toList.all isWordChar = true ∧ symbol.toList ∉ keywords := by decide +kernel
    obtain ⟨symbol, hsymbol, rfl⟩ := List.mem_map.mp hst
    obtain ⟨hne, hword, hkeyword⟩ := hsymbols symbol hsymbol
    exact ⟨_, Stmt.statements?_call hne hword hkeyword 2⟩
  before := by decide +kernel
  after := by decide
  tail := by decide +kernel
  complement := by decide +kernel

/-- The cores 7, 8 and 9 run all three variants. Of the core 300 eight bits are 44, with the remainder 2,
where the rule goes by 300 itself. -/
theorem tripleAdd_routed :
    (∀ i < 3, ∃ p ∈ [⟨.vector, 0, 7⟩, ⟨.vector, 1, 8⟩, ⟨.vector, 2, 9⟩], tripleAdd.Runs p i) ∧
    tripleAdd.Runs ⟨.vector, 3, 300⟩ 2 ∧ tripleAdd.Skips ⟨.vector, 4, 8⟩ ∧
    tripleAdd.Skips ⟨.cube, 0, 8⟩ ∧
    (RoutingRule.make .vector 4 3).route ⟨.vector, 1, 8⟩ = .variant 2 ∧
    (RoutingRule.make .vector 4 3).route ⟨.vector, 3, 300⟩ = .variant 0 := by
  obtain ⟨hunits, hroute, hreached⟩ :=
    text_routes_units tripleAdd_readable rfl (List.ne_nil_of_length_pos (by decide))
  refine ⟨hreached _ 7 (by decide) (by decide), hunits ⟨.vector, 3, 300⟩, hunits ⟨.vector, 4, 8⟩,
    hunits ⟨.cube, 0, 8⟩, hroute ⟨.vector, 1, 8⟩ (by decide), by decide⟩

end Guarded

end KernelFusion
