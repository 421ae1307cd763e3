import KernelFusion.Proofs.Mentions

/-!
What device code mentions, and what is declared.

The functions of the fused kernels are foreign to the code that calls them, loads them ahead or takes
their address, so that each needs a declaration. Declarations are collected from the operators; the
code that uses the functions goes through operators, domains and variants by itself, and leaves out what
a step or a domain does not need. Read from their lines, both name the same functions.

The functions of a dynamic operator are written once for all operators of its name. Requests are
accepted only if these have one table, so the functions are those of each of them.
-/

namespace KernelFusion

open LineText

/-- Symbols of all variants in a domain. -/
def FunctionNames.symbolsIn (f : FunctionNames) (split : Nat) (d : Domain) : List String :=
  match f.get? d with
  | some base => variantSymbols base split
  | none => []

theorem FunctionNames.Proper.isWord_symbol {f : FunctionNames} {t : KernelType} (h : f.Proper t)
    {d : Domain} (hd : d ∈ t.affinity.domains) {split : Nat} {x : String} (hx : x ∈ f.symbolsIn split d) :
    IsWord x.toList := by
  unfold symbolsIn at hx
  cases hbase : f.get? d with
  | none => simp [hbase] at hx
  | some base =>
    simp only [hbase, variantSymbols] at hx
    obtain ⟨i, _, rfl⟩ := List.mem_map.mp hx
    exact isWord_variantSymbol (isWord_of_isIdentifier (h d hd base hbase)) i

theorem filterMap_map_self {f : Stmt → Option String} {g : String → Stmt} {xs : List String}
    (h : ∀ x ∈ xs, f (g x) = some x) : (xs.map g).filterMap f = xs := by
  rw [List.filterMap_map]
  exact (List.filterMap_congr h).trans List.filterMap_some

theorem mem_of_mem_ite {c : Prop} [Decidable c] {x : String} {xs : List String}
    (h : x ∈ if c then [] else xs) : x ∈ xs := by
  split at h
  · cases h
  · exact h

/-! ### Calls and loads -/

section Static

variable {o : Operator}

theorem Source.operatorSymbols_of_static (hstatic : o.isDynamic = false) :
    Source.operatorSymbols o = o.affinity.domains.flatMap (o.functions.symbolsIn o.split) := by
  cases hd : o.dispatch with
  | «static» =>
    rw [Source.operatorSymbols, hd]
    rfl
  | dynamic table => simp [Operator.isDynamic, hd] at hstatic

/-- Flushing caches calls no function. -/
theorem Body.named_flush (wanted : Bool) (option : String) :
    (flush wanted option).filterMap (Stmt.named? .calling) = [] := by
  have hoption : Stmt.named? .calling (.text s!"// option: {option}") = none :=
    Mention.read_of_front (m := .calling) (by decide) option
  have hflush : Stmt.named? .calling (.text Sync.flushAll) = none :=
    Mention.read_literal (m := .calling) (by decide)
  have hblank : Stmt.named? .calling (.text "") = none := Mention.calling.read_blank
  cases wanted with
  | false => rfl
  | true => simp only [flush, if_pos, List.filterMap_cons, hoption, hflush, hblank, List.filterMap_nil]

theorem Body.named_feeding {line : String} (h : Mention.calling.read line = none) (feeds : Bool) :
    (if feeds then some (Stmt.text line) else none).toList.filterMap (Stmt.named? .calling) = [] := by
  cases feeds with
  | false => rfl
  | true => exact List.filterMap_cons_none h

/-- The call in a domain is written for all units, or for those of that domain. -/
theorem Body.named_callIn (n : Nat) (feeds : Bool) (arch : Option Domain) {d : Domain}
    (hwords : ∀ x ∈ o.functions.symbolsIn o.split d, IsWord x.toList) :
    (callIn o n feeds arch d).named (Stmt.named? .calling)
      = if arch.isSome ∧ arch ≠ some d then [] else o.functions.symbolsIn o.split d := by
  unfold callIn
  unfold FunctionNames.symbolsIn at hwords ⊢
  cases hbase : o.functions.get? d with
  | none => simp
  | some base =>
    simp only [hbase] at hwords ⊢
    split
    · rfl
    · rw [Guarded.named_code (Stmt.named?_readCore (.inl rfl)) (named_flush ..) (named_flush ..)]
      · exact filterMap_map_self fun x hx => Stmt.named?_call (hwords x hx) n
      · exact named_feeding (Mention.read_literal (by decide)) feeds
      · exact named_feeding (Mention.read_literal (by decide)) feeds

theorem Prefetch.named_staticPart (arch : Option Domain) {d : Domain}
    (hwords : ∀ x ∈ o.functions.symbolsIn o.split d, IsWord x.toList) :
    (staticPart o arch d).named (Stmt.named? .loading)
      = if units (o.textSize.get d) = 0 ∨ (arch.isSome ∧ arch ≠ some d) then []
        else o.functions.symbolsIn o.split d := by
  unfold staticPart
  unfold FunctionNames.symbolsIn at hwords ⊢
  cases hbase : o.functions.get? d with
  | none => simp
  | some base =>
    simp only [hbase] at hwords ⊢
    split
    · rfl
    · rw [guarded, Guarded.named_code (Stmt.named?_readCore (.inr rfl)) rfl rfl rfl rfl]
      exact filterMap_map_self fun x hx => Stmt.named?_prefetch (hwords x hx) _

theorem Prefetch.units_pos {size : Nat} (h : 0 < size) : units size ≠ 0 := by
  simp only [units, mostBytes, granule]
  omega

end Static

namespace Launch

variable {l : Launch} {op : Nat}

/-- The functions of a static operator that a step for all units, or for those of a domain, calls. -/
theorem mentions_invoke (hnames : (l.operator op).ProperNames) (hstatic : (l.operator op).isDynamic = false)
    (arch : Option Domain) (depth : Nat) :
    (Body.step l arch (.invoke op)).mentions .calling depth = (l.operator op).affinity.domains.flatMap
      fun d => if arch.isSome ∧ arch ≠ some d then []
        else (l.operator op).functions.symbolsIn (l.operator op).split d := by
  rw [Code.mentions, Code.mentions_eq, ← Code.named, Body.step, Body.invoke, if_neg (by simp [hstatic]),
    Body.callStatic, Code.named_concat, List.flatMap_map]
  refine List.flatMap_congr fun d hd => ?_
  exact Body.named_callIn _ _ arch fun x hx => (hnames.functions hstatic).isWord_symbol hd hx

/-- A dynamic operator is called by no name of its own. -/
theorem mentions_invoke_dynamic (hnames : (l.operator op).ProperNames)
    (hdynamic : (l.operator op).isDynamic = true) (arch : Option Domain) (depth : Nat) :
    (Body.step l arch (.invoke op)).mentions .calling depth = [] := by
  rw [Code.mentions, Code.mentions_eq, ← Code.named, Body.step, Body.invoke, if_pos hdynamic,
    Dynamic.invokeCode, Code.named_append, Code.named_append, Code.named_stmts, Code.named_stmts,
    Body.before, Body.after, Body.named_flush, Body.named_flush,
    Code.named_text (Dynamic.read_invocation hnames _)]
  rfl

/-- The functions of a static operator that a step loads: those of the domains in which it has code. -/
theorem mentions_preload (hnames : (l.operator op).ProperNames) (hstatic : (l.operator op).isDynamic = false)
    (arch : Option Domain) (depth : Nat) :
    (Body.step l arch (.preload op)).mentions .loading depth = (l.operator op).affinity.domains.flatMap
      fun d => if Prefetch.units ((l.operator op).textSize.get d) = 0 ∨ (arch.isSome ∧ arch ≠ some d) then []
        else (l.operator op).functions.symbolsIn (l.operator op).split d := by
  rw [Code.mentions, Code.mentions_eq, ← Code.named, Body.step, Prefetch.code, if_neg (by simp [hstatic]),
    Prefetch.staticCode, Code.named_concat, List.flatMap_map]
  refine List.flatMap_congr fun d hd => ?_
  exact Prefetch.named_staticPart arch fun x hx => (hnames.functions hstatic).isWord_symbol hd hx

/-- Positions behind the graph have no operator, and no functions. -/
theorem lt_size_of_symbol {x : String} (hx : x ∈ Source.operatorSymbols (l.operator op)) :
    op < l.graph.size := by
  by_contra hop
  have hnone : l.graph.operators[op]? = none := List.getElem?_eq_none (Nat.le_of_not_lt hop)
  rw [operator, Graph.operator, List.getD_eq_getElem?_getD, hnone] at hx
  cases hx

end Launch

/-! ### Addresses -/

namespace Dynamic

theorem named_addressesOf {e : TilingEntry} (he : e.functions.Proper e.kernelType) (split : Nat)
    (d : Domain) : (addressesOf e split d).filterMap (Stmt.named? .addressing)
      = if e.kernelType.affinity.contains d then e.functions.symbolsIn split d else [] := by
  unfold addressesOf
  split
  next hd =>
    have hdomain : d ∈ e.kernelType.affinity.domains := by simpa [Affinity.contains] using hd
    have hwords (x : String) (hx : x ∈ e.functions.symbolsIn split d) := he.isWord_symbol hdomain hx
    unfold FunctionNames.symbolsIn at hwords ⊢
    cases hbase : e.functions.get? d with
    | none => rfl
    | some base =>
      simp only [hbase] at hwords ⊢
      rw [VariantRef.all, List.map_map, List.filterMap_map, variantSymbols]
      refine List.filterMap_eq_map_iff_forall_eq_some.mpr fun i hi => ?_
      rw [Function.comp_apply, Function.comp_apply, Stmt.named?_setAddress (hwords _ (List.mem_map_of_mem hi))]
  next => rfl

theorem mem_named_select {split : Nat} {e : TilingEntry} (he : e.functions.Proper e.kernelType)
    {x : String} : x ∈ (select split e).named (Stmt.named? .addressing)
      ↔ x ∈ Source.symbolsOf e.kernelType e.functions split := by
  have hsymbols : Source.symbolsOf e.kernelType e.functions split
      = e.kernelType.affinity.domains.flatMap (e.functions.symbolsIn split) := rfl
  rw [hsymbols, select, Code.named_stmts, List.filterMap_append, List.filterMap_append,
    named_addressesOf he, named_addressesOf he]
  cases e.kernelType.affinity <;>
    simp [Affinity.contains, Affinity.domains, Stmt.named?_publish, or_comm]

/-- The search takes addresses of all entries and of no other. -/
theorem mem_named_search {split : Nat} {table : List TilingEntry}
    (htable : ∀ e ∈ table, e.functions.Proper e.kernelType) {x : String} :
    x ∈ (search split table).named (Stmt.named? .addressing)
      ↔ ∃ e ∈ table, x ∈ Source.symbolsOf e.kernelType e.functions split := by
  fun_induction search split table with
  | case1 => simp
  | case2 e => simp [mem_named_select (htable e (by simp))]
  | case3 a b => simp [mem_named_select (htable a (by simp)), mem_named_select (htable b (by simp))]
  | case4 a b c rest entries middle ihlow ihhigh =>
    have hall : a :: b :: c :: rest = entries.take middle ++ entries.drop middle :=
      (List.take_append_drop middle entries).symm
    rw [hall] at htable ⊢
    rw [Code.named_either, List.mem_append, ihlow fun e he => htable e (List.mem_append_left _ he),
      ihhigh fun e he => htable e (List.mem_append_right _ he)]
    simp only [List.mem_append, or_and_right, exists_or]

theorem named?_bindCell (cell expression : String) (isVolatile : Bool) :
    (Stmt.bindCell cell expression isVolatile).named? .addressing = none := by
  change Mention.addressing.read ("__gm__ " ++ (if isVolatile then "volatile " else "") ++ "uint64_t* " ++ cell
    ++ " = reinterpret_cast<__gm__ uint64_t*>(" ++ expression ++ ");") = none
  rw [String.append_assoc, String.append_assoc, String.append_assoc, Mention.read, words?_of_front,
    Option.bind_none]
  unfold Mention.addressing
  repeat rewrite [String.toList_append]
  cases isVolatile with
  | false =>
    rewrite [if_neg Bool.false_ne_true]
    repeat rewrite [String.toList_ofList]
    decide
  | true =>
    rewrite [if_pos rfl]
    repeat rewrite [String.toList_ofList]
    decide

theorem named_spin (cell : String) (value : Nat) :
    (Sync.spin cell value).named (Stmt.named? .addressing) = [] := by
  have hflush : Mention.addressing.read (Sync.flushCell cell) = none := by
    change Mention.addressing.read ("dcci(" ++ cell ++ ", 0, 2);") = none
    rw [String.append_assoc]
    exact Mention.read_of_front (by decide) _
  have hspin : Sync.spin cell value = Code.text (Sync.flushCell cell)
      ++ Code.block (.spin cell value) (.text (Sync.flushCell cell)) .done := rfl
  rw [hspin, Code.named_append, Code.named_block, Code.named_text hflush]
  rfl

theorem mem_mentions_switchFunction {o : Operator} (ho : o.ProperNames) {depth : Nat} {x : String} :
    x ∈ (switchFunction o).mentions .addressing depth
      ↔ o.isDynamic = true ∧ x ∈ Source.operatorSymbols o := by
  have hremark : (Code.text s!"// begin implement of dynamic op {o.name}").named
      (Stmt.named? .addressing) = [] := Code.named_text (Mention.read_remark o.name)
  have hfront : (Code.stmts [.bindCell "tilingKeyAddr" "__ac_dynamic_tiling_key" false,
      .bindCell "blockNumAddr" "__ac_dynamic_block_num" false,
      .bindCell "lockAddr" "__ac_dynamic_lock" true]
      ++ Sync.spin "lockAddr" LockState.ready.value).named (Stmt.named? .addressing) = [] := by
    simp [named?_bindCell, named_spin]
  have hback : (Code.text "return;").named (Stmt.named? .addressing) = [] := by
    exact Code.named_text (Mention.read_literal (by decide))
  have hswitch : (switchFunction o).mentions .addressing depth
      = (search o.split o.tiling).named (Stmt.named? .addressing) := by
    rw [Code.mentions, Code.mentions_eq, ← Code.named, switchFunction, switchBody, Code.routine,
      Code.named_append, Code.named_append, hremark, Code.named_block, Code.named_append, Code.named_append,
      Code.named_append, hfront, hback]
    simp
  rw [hswitch, mem_named_search ho.table, Source.operatorSymbols]
  cases hd : o.dispatch with
  | «static» => simp [Operator.isDynamic, Operator.tiling, hd]
  | dynamic table => simp [Operator.isDynamic, Operator.tiling, hd]

end Dynamic

/-! ### Declarations -/

namespace Source

theorem nodup_eraseDups (xs : List String) : xs.eraseDups.Nodup := by
  cases xs with
  | nil => exact .nil
  | cons x xs =>
    rw [List.eraseDups_cons, List.nodup_cons]
    refine ⟨fun hx => ?_, nodup_eraseDups (xs.filter fun y => !y == x)⟩
    simp [List.mem_eraseDups] at hx
termination_by xs.length
decreasing_by exact Nat.lt_succ_of_le (List.length_filter_le ..)

theorem mem_declared {g : Graph} {x : String} :
    x ∈ declared g ↔ ∃ o ∈ g.operators, x ∈ operatorSymbols o := by
  rw [declared, List.mem_eraseDups, List.mem_flatMap]

/-- What is declared is a word in every declaration. -/
theorem isWord_operatorSymbols {o : Operator} (ho : o.ProperNames) {x : String}
    (hx : x ∈ operatorSymbols o) : IsWord x.toList := by
  cases hd : o.dispatch with
  | «static» =>
    have hstatic : o.isDynamic = false := by rw [Operator.isDynamic, hd]
    rw [operatorSymbols_of_static hstatic] at hx
    obtain ⟨d, hdomain, hx⟩ := List.mem_flatMap.mp hx
    exact (ho.functions hstatic).isWord_symbol hdomain hx
  | dynamic table =>
    rw [operatorSymbols, hd] at hx
    obtain ⟨e, he, hx⟩ := List.mem_flatMap.mp hx
    obtain ⟨d, hdomain, hx⟩ := List.mem_flatMap.mp hx
    have htable : e ∈ o.tiling := by rwa [Operator.tiling, hd]
    exact (ho.table e htable).isWord_symbol hdomain hx

theorem read_declarations {g : Graph} (hg : ∀ o ∈ g.operators, o.ProperNames) :
    (declarations g).toLines.map Mention.declaring.read = (declared g).map some := by
  rw [declarations, Code.toLines_texts, List.map_map]
  refine List.map_congr_left fun x hx => ?_
  obtain ⟨o, ho, hx⟩ := mem_declared.mp hx
  rw [Function.comp_apply, read_declaration (isWord_operatorSymbols (hg o ho) hx)]

section Distinct

variable {name : String} {seen : List String} {ops : List Operator}

theorem filter_distinctDynamic_of_mem (hseen : name ∈ seen) :
    (distinctDynamic seen ops).filter (fun o => o.name == name) = [] := by
  fun_induction distinctDynamic seen ops with
  | case1 => rfl
  | case2 seen o os hnew ih =>
    have hne : o.name ≠ name := by
      rintro rfl
      simp [hseen] at hnew
    rw [List.filter_cons_of_neg (by simpa using hne), ih (List.mem_cons_of_mem _ hseen)]
  | case3 seen o os _ ih => exact ih hseen

/-- Of the dynamic operators of a name the first one stands for all. -/
theorem filter_distinctDynamic (hseen : name ∉ seen) :
    (distinctDynamic seen ops).filter (fun o => o.name == name)
      = (ops.find? fun o => o.isDynamic && o.name == name).toList := by
  fun_induction distinctDynamic seen ops with
  | case1 => rfl
  | case2 seen o os hnew ih =>
    have hdynamic : o.isDynamic = true := (Bool.and_eq_true_iff.mp hnew).1
    by_cases hname : o.name = name
    · have hfirst : (o.isDynamic && o.name == name) = true := by simp [hdynamic, hname]
      rw [List.filter_cons_of_pos (by simpa using hname),
        filter_distinctDynamic_of_mem (by simp [hname])]
      simp only [List.find?_cons, hfirst, Option.toList]
    · have hother : (o.isDynamic && o.name == name) = false := by simp [hname]
      rw [List.filter_cons_of_neg (by simpa using hname)]
      simp only [List.find?_cons, hother]
      exact ih (by simp [hseen, Ne.symm hname])
  | case3 seen o os hold ih =>
    -- an operator that is left out is static, or has a name that was seen
    have hother : (o.isDynamic && o.name == name) = false := by
      refine Bool.eq_false_iff.mpr fun h => ?_
      obtain ⟨hdynamic, hname⟩ := Bool.and_eq_true_iff.mp h
      rw [eq_of_beq hname] at hold
      simp [hdynamic, hseen] at hold
    simp only [List.find?_cons, hother]
    exact ih hseen

end Distinct

end Source

/-! ### One table for a name -/

namespace Request

/-- Every operator has the table of the first one of its name. -/
theorem checkShared_ok {firsts ds : List OperatorDescriptor} (h : checkShared firsts ds = .ok ()) :
    ∀ d ∈ ds, ∃ f, ((firsts ++ ds).find? fun f => f.name == d.name) = some f ∧
      f.sortedTiling = d.sortedTiling := by
  induction ds generalizing firsts with
  | nil => simp
  | cons e ds ih =>
    rw [checkShared] at h
    cases hfirst : firsts.find? fun f => f.name == e.name with
    | none =>
      rw [hfirst] at h
      have hrest := ih h
      rw [List.append_assoc, List.singleton_append] at hrest
      have he : ((firsts ++ e :: ds).find? fun f => f.name == e.name) = some e := by
        simp [List.find?_append, hfirst]
      exact List.forall_mem_cons.mpr ⟨⟨e, he, rfl⟩, hrest⟩
    | some first =>
      rw [hfirst] at h
      by_cases hsame : first.sameTable e = true
      · simp only [hsame, if_true] at h
        have htable : first.sortedTiling = e.sortedTiling :=
          of_decide_eq_true (Bool.and_eq_true_iff.mp hsame).2
        -- the operator is not the first of its name, so that a search passes it
        have hfind (name : String) : ((firsts ++ e :: ds).find? fun f => f.name == name)
            = ((firsts ++ ds).find? fun f => f.name == name) := by
          rw [List.find?_append, List.find?_append]
          by_cases hname : e.name = name
          · rw [← hname, hfirst]
            rfl
          · rw [List.find?_cons_of_neg (by simpa using hname)]
        refine List.forall_mem_cons.mpr ⟨⟨first, ?_, htable⟩, fun d hd => ?_⟩
        · rw [List.find?_append, hfirst]
          rfl
        · rw [hfind]
          exact ih h d hd
      · simp [hsame] at h

theorem check_shared {r : Request} (h : r.check = .ok ()) {d d' : OperatorDescriptor}
    (hd : d ∈ r.operators) (hd' : d' ∈ r.operators) (hdynamic : d.isDynamic = true)
    (hdynamic' : d'.isDynamic = true) (hname : d'.name = d.name) : d'.sortedTiling = d.sortedTiling := by
  rw [check] at h
  obtain ⟨_, h⟩ := refuse_eq_ok h
  obtain ⟨_, h⟩ := refuse_eq_ok h
  obtain ⟨_, h⟩ := refuse_eq_ok h
  obtain ⟨_, _, hshared⟩ := bind_eq_ok.mp h
  have hfirst := checkShared_ok hshared
  obtain ⟨f, hfound, hf⟩ := hfirst d (List.mem_filter.mpr ⟨hd, hdynamic⟩)
  obtain ⟨f', hfound', hf'⟩ := hfirst d' (List.mem_filter.mpr ⟨hd', hdynamic'⟩)
  rw [hname, hfound] at hfound'
  rw [← hf, ← hf', Option.some.inj hfound']

end Request

theorem mem_of_mapM {α β : Type} {f : α → Except Error β} {xs : List α} {ys : List β}
    (h : xs.mapM f = .ok ys) {y : β} : y ∈ ys ↔ ∃ x ∈ xs, f x = .ok y := by
  refine ⟨exists_of_forall₂ (mapM_eq_ok h), ?_⟩
  rintro ⟨x, hx, hxy⟩
  obtain ⟨y', hy', hxy'⟩ := exists_of_forall₂ (mapM_eq_ok h).flip hx
  cases Except.ok.inj (hxy.symm.trans hxy')
  exact hy'

/-- Tables in the order of their keys that have the same entries. -/
theorem eq_of_increasing {a b : List TilingEntry} (ha : a.Pairwise fun e f => e.key < f.key)
    (hb : b.Pairwise fun e f => e.key < f.key) (hmem : ∀ e, e ∈ a ↔ e ∈ b) : a = b := by
  have hnodup {t : List TilingEntry} (ht : t.Pairwise fun e f => e.key < f.key) : t.Nodup := by
    refine ht.imp fun {e f} hlt => ?_
    rintro rfl
    exact Nat.lt_irrefl _ hlt
  refine List.Perm.eq_of_pairwise (fun e f _ _ hef hfe => ?_) ha hb
    ((List.perm_ext_iff_of_nodup (hnodup ha) (hnodup hb)).mpr hmem)
  exact absurd hef (Nat.lt_asymm hfe)

namespace Operator

variable {options : Options} {units : Units} {i i' : Nat} {d d' : OperatorDescriptor} {o o' : Operator}

/-- Cases that agree after sorting resolve to one table. -/
theorem tiling_eq (h : ofDescriptor options units i d = .ok o)
    (h' : ofDescriptor options units i' d' = .ok o') (hcheck : d.check = .ok ())
    (hcheck' : d'.check = .ok ()) (hdynamic : o.isDynamic = true) (hdynamic' : o'.isDynamic = true)
    (hname : d'.name = d.name) (hsorted : d'.sortedTiling = d.sortedTiling) : o'.tiling = o.tiling := by
  obtain ⟨hd, entries, hentries, htiling⟩ := ofDescriptor_tiling h hdynamic
  obtain ⟨hd', entries', hentries', htiling'⟩ := ofDescriptor_tiling h' hdynamic'
  have hcases := OperatorDescriptor.check_cases hcheck hd
  have hcases' := OperatorDescriptor.check_cases hcheck' hd'
  have hperm : d'.tiling.Perm d.tiling := by
    have hleft : d'.sortedTiling.Perm d'.tiling := List.mergeSort_perm _ _
    have hright : d.sortedTiling.Perm d.tiling := List.mergeSort_perm _ _
    exact hleft.symm.trans (hsorted ▸ hright)
  rw [htiling, htiling']
  refine eq_of_increasing (tiled_sortEntries hcases' hentries').increasing
    (tiled_sortEntries hcases hentries).increasing fun e => ?_
  rw [sortEntries, sortEntries, (List.mergeSort_perm entries' _).mem_iff,
    (List.mergeSort_perm entries _).mem_iff, mem_of_mapM hentries', mem_of_mapM hentries, hname]
  simp only [hperm.mem_iff]

end Operator

/-- Dynamic operators of one name have one table and one number of variants. -/
theorem Generator.launch_shared {r : Request} {l : Launch} (hl : launch r = .ok l) {o o' : Operator}
    (ho : o ∈ l.graph.operators) (ho' : o' ∈ l.graph.operators) (hdynamic : o.isDynamic = true)
    (hdynamic' : o'.isDynamic = true) (hname : o'.name = o.name) :
    o'.tiling = o.tiling ∧ o'.split = o.split := by
  obtain ⟨options, ops, hcheck, hops, haccepted, _⟩ := launch_eq_ok hl
  rw [haccepted.spec.1] at ho ho'
  obtain ⟨d, hd, i, hofd⟩ := Operator.ofDescriptors_mem hops ho
  obtain ⟨d', hd', i', hofd'⟩ := Operator.ofDescriptors_mem hops ho'
  have hnames : d'.name = d.name := by
    rw [← Operator.name_ofDescriptor hofd, ← Operator.name_ofDescriptor hofd', hname]
  have hsorted := Request.check_shared hcheck hd hd'
    ((Operator.isDynamic_ofDescriptor hofd).symm.trans hdynamic)
    ((Operator.isDynamic_ofDescriptor hofd').symm.trans hdynamic') hnames
  refine ⟨Operator.tiling_eq hofd hofd' (Request.check_operators hcheck d hd)
    (Request.check_operators hcheck d' hd') hdynamic hdynamic' hnames hsorted, ?_⟩
  rw [(Operator.ofDescriptor_eq_ok hofd).2.2.2, (Operator.ofDescriptor_eq_ok hofd').2.2.2]

/-- The functions of a dynamic operator depend on its name, its table and its number of variants. -/
theorem Dynamic.functions_congr {o o' : Operator} (hname : o'.name = o.name)
    (htiling : o'.tiling = o.tiling) (hsplit : o'.split = o.split) :
    switchFunction o' = switchFunction o ∧ callFunction o' = callFunction o := by
  simp only [switchFunction, switchRoutine, switchBody, callFunction, callRoutine, callBody, hname,
    htiling, hsplit, and_self]

theorem Generator.launch_functions {r : Request} {l : Launch} (hl : launch r = .ok l) {o o' : Operator}
    (ho : o ∈ l.graph.operators) (ho' : o' ∈ l.graph.operators) (hdynamic : o.isDynamic = true)
    (hdynamic' : o'.isDynamic = true) (hname : o'.name = o.name) :
    Dynamic.switchFunction o' = Dynamic.switchFunction o ∧
      Dynamic.callFunction o' = Dynamic.callFunction o := by
  obtain ⟨htiling, hsplit⟩ := launch_shared hl ho ho' hdynamic hdynamic' hname
  exact Dynamic.functions_congr hname htiling hsplit

/-- The functions that are written for a name are those of every dynamic operator of that name. -/
theorem Generator.launch_distinct {r : Request} {l : Launch} (hl : launch r = .ok l) {o : Operator}
    (ho : o ∈ l.graph.operators) (hdynamic : o.isDynamic = true) :
    ((Source.distinctDynamic [] l.graph.operators).filter fun f => f.name == o.name).map Dynamic.functions
      = [Dynamic.functions o] := by
  rw [Source.filter_distinctDynamic (List.not_mem_nil)]
  cases hfind : l.graph.operators.find? fun f => f.isDynamic && f.name == o.name with
  | none =>
    have hnone := List.find?_eq_none.mp hfind o ho
    simp [hdynamic] at hnone
  | some f =>
    have hfound : (f.isDynamic && f.name == o.name) = true := by simpa using List.find?_some hfind
    obtain ⟨hf, hname⟩ := Bool.and_eq_true_iff.mp hfound
    have hsame := launch_functions hl ho (List.mem_of_find?_eq_some hfind) hdynamic hf (eq_of_beq hname)
    simp only [Option.toList, List.map_cons, List.map_nil, Dynamic.functions, hsame.1, hsame.2]

/-- CORRECT: read from the lines of an accepted request's code, every foreign function is declared once.
The lines of steps are those of each step. Whatever operator is called, for all units or for those of a domain,
the functions that are called are declared, and so are those that are loaded for a static operator and those
whose address a dynamic operator takes; what is declared is used. A static operator that has code in each
domain is loaded under the names under which it is called. The functions of a dynamic operator are written
once for its name, and are the same for all operators of that name. -/
theorem Launch.symbols_declared_once {r : Request} {l : Launch} (hl : Generator.launch r = .ok l) :
    ∃ xs : List String,
      (Source.declarations l.graph).toLines.map Mention.declaring.read = xs.map some ∧ xs.Nodup ∧
      (∀ arch ss depth, (Body.steps l arch ss).linesAt depth
        = ss.flatMap fun s => (Body.step l arch s).linesAt depth) ∧
      (∀ arch op depth, ∀ x ∈ (Body.step l arch (.invoke op)).mentions .calling depth, x ∈ xs) ∧
      (∀ arch op depth, (l.operator op).isDynamic = false →
        ∀ x ∈ (Body.step l arch (.preload op)).mentions .loading depth, x ∈ xs) ∧
      (∀ o ∈ l.graph.operators, ∀ depth, ∀ x ∈ (Dynamic.switchFunction o).mentions .addressing depth,
        x ∈ xs) ∧
      (∀ x ∈ xs, ∃ op < l.graph.size, ∀ depth,
        x ∈ (Body.step l none (.invoke op)).mentions .calling depth ∨
        x ∈ (Dynamic.switchFunction (l.operator op)).mentions .addressing depth) ∧
      (∀ op, (l.operator op).isDynamic = false → (∀ d, 0 < (l.operator op).textSize.get d) →
        ∀ arch depth, (Body.step l arch (.preload op)).mentions .loading depth
          = (Body.step l arch (.invoke op)).mentions .calling depth) ∧
      ∀ o ∈ l.graph.operators, o.isDynamic = true →
        (∀ o' ∈ l.graph.operators, o'.isDynamic = true → o'.name = o.name →
          Dynamic.switchFunction o' = Dynamic.switchFunction o ∧
          Dynamic.callFunction o' = Dynamic.callFunction o) ∧
        ((Source.distinctDynamic [] l.graph.operators).filter fun f => f.name == o.name).map
          Dynamic.functions = [Dynamic.functions o] := by
  have hnames := Generator.launch_properNames hl
  have hproper : ∀ o ∈ l.graph.operators, o.ProperNames := by
    intro o ho
    obtain ⟨op, _, rfl⟩ := exists_operator ho
    exact hnames op
  have hdeclared (op : Nat) {x : String} (hx : x ∈ Source.operatorSymbols (l.operator op)) :
      x ∈ Source.declared l.graph :=
    Source.mem_declared.mpr ⟨_, operator_mem (lt_size_of_symbol hx), hx⟩
  refine ⟨Source.declared l.graph, Source.read_declarations hproper, Source.nodup_eraseDups _,
    fun arch ss depth => ?_, fun arch op depth x hx => ?_, fun arch op depth hstatic x hx => ?_,
    fun o ho depth x hx => ?_, fun x hx => ?_, fun op hstatic hsize arch depth => ?_, fun o ho hdynamic =>
      ⟨fun o' ho' hdynamic' hname => ?_, ?_⟩⟩
  · rw [Body.steps, Code.linesAt_concat, List.flatMap_map]
  · cases hdynamic : (l.operator op).isDynamic with
    | true =>
      rw [mentions_invoke_dynamic (hnames op) hdynamic] at hx
      cases hx
    | false =>
      rw [mentions_invoke (hnames op) hdynamic] at hx
      obtain ⟨d, hd, hx⟩ := List.mem_flatMap.mp hx
      refine hdeclared op ?_
      rw [Source.operatorSymbols_of_static hdynamic]
      exact List.mem_flatMap.mpr ⟨d, hd, mem_of_mem_ite hx⟩
  · rw [mentions_preload (hnames op) hstatic] at hx
    obtain ⟨d, hd, hx⟩ := List.mem_flatMap.mp hx
    refine hdeclared op ?_
    rw [Source.operatorSymbols_of_static hstatic]
    exact List.mem_flatMap.mpr ⟨d, hd, mem_of_mem_ite hx⟩
  · have hx := (Dynamic.mem_mentions_switchFunction (hproper o ho)).mp hx
    exact Source.mem_declared.mpr ⟨o, ho, hx.2⟩
  · obtain ⟨o, ho, hx⟩ := Source.mem_declared.mp hx
    obtain ⟨op, hop, rfl⟩ := exists_operator ho
    refine ⟨op, hop, fun depth => ?_⟩
    cases hdynamic : (l.operator op).isDynamic with
    | false =>
      rw [Source.operatorSymbols_of_static hdynamic] at hx
      left
      rw [mentions_invoke (hnames op) hdynamic]
      simpa using hx
    | true => exact .inr ((Dynamic.mem_mentions_switchFunction (hnames op)).mpr ⟨hdynamic, hx⟩)
  · rw [mentions_preload (hnames op) hstatic, mentions_invoke (hnames op) hstatic]
    simp only [Prefetch.units_pos (hsize _), false_or]
  · exact Generator.launch_functions hl ho ho' hdynamic hdynamic' hname
  · exact Generator.launch_distinct hl ho hdynamic

/-- A static operator between two dynamic ones that share a name, all in two variants. -/
def Launch.sharedNameRequest : Request :=
  .ofOperators "split-mode=2" [
    .choosing "pick" .aivOnly [⟨7, KernelType.aivOnly.name, ⟨some "pick_vec", none⟩⟩],
    .onStream 0 "middle" .mixAic11 [] [],
    .choosing "pick" .aivOnly [⟨7, KernelType.aivOnly.name, ⟨some "pick_vec", none⟩⟩]]

/-- Both dynamic operators mention one function in each variant, which is declared once, and their own
functions agree. -/
theorem Launch.sharedNameRequest_declared :
    ∃ l, Generator.launch sharedNameRequest = .ok l ∧
      Source.declared l.graph = ["pick_vec", "pick_vec_split1", "middle_cube", "middle_cube_split1",
        "middle_vec", "middle_vec_split1"] ∧
      ∃ xs : List String,
        (Source.declarations l.graph).toLines.map Mention.declaring.read = xs.map some ∧ xs.Nodup ∧
        (∀ x ∈ (Body.step l none (.invoke 1)).mentions .calling 1, x ∈ xs) ∧
        (∀ x ∈ (Body.step l none (.preload 1)).mentions .loading 1, x ∈ xs) ∧
        (∀ x ∈ (Dynamic.switchFunction (l.operator 2)).mentions .addressing 0, x ∈ xs) ∧
        Dynamic.functions (l.operator 2) = Dynamic.functions (l.operator 0) := by
  obtain ⟨l, hl, htest⟩ : ∃ l, Generator.launch sharedNameRequest = .ok l ∧
      decide (Source.declared l.graph = ["pick_vec", "pick_vec_split1", "middle_cube",
          "middle_cube_split1", "middle_vec", "middle_vec_split1"] ∧ l.graph.size = 3 ∧
        (l.operator 0).isDynamic = true ∧ (l.operator 1).isDynamic = false ∧
        (l.operator 2).isDynamic = true ∧ (l.operator 2).name = (l.operator 0).name) = true :=
    Generator.exists_of_test (by decide +kernel)
  obtain ⟨hdeclared, hsize, hfirst, hmiddle, hlast, hname⟩ := of_decide_eq_true htest
  obtain ⟨xs, hlines, hnodup, -, hcalled, hloaded, hswitch, -, -, hshared⟩ := symbols_declared_once hl
  have hmem (op : Nat) (hop : op < 3) : l.operator op ∈ l.graph.operators :=
    operator_mem (hsize ▸ hop)
  have hsame := (hshared _ (hmem 0 (by decide)) hfirst).1 _ (hmem 2 (by decide)) hlast hname
  refine ⟨l, hl, hdeclared, xs, hlines, hnodup, hcalled none 1 1, hloaded none 1 1 hmiddle,
    hswitch _ (hmem 2 (by decide)) 0, ?_⟩
  rw [Dynamic.functions, Dynamic.functions, hsame.1, hsame.2]

end KernelFusion
