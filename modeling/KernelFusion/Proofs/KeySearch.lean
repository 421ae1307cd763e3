import KernelFusion.Proofs.DeviceRun
import KernelFusion.Proofs.Tiling

/-!
The function that chooses an entry of a dynamic operator.

It waits for the host, searches the table for the key and stores the addresses of the entry, together
with its class and the block count in one word. What is stored for a variant is what the name of its
function stands for inside this function: the function of that name, unless a variable has the name.
-/

namespace KernelFusion

open Device

/-! ### Names of variants -/

/-- What the number of a variant adds to a name. -/
def variantSuffix (i : Nat) : List Char := if i = 0 then [] else "_split".toList ++ Nat.toDigits 10 i

theorem toList_variantSymbol (base : String) (i : Nat) :
    (variantSymbol base i).toList = base.toList ++ variantSuffix i := by
  unfold variantSymbol variantSuffix
  split
  · simp
  · change (base ++ "_split" ++ toString i).toList = _
    simp [String.toList_append]

theorem variantSuffix_injective {i j : Nat} (h : variantSuffix i = variantSuffix j) : i = j := by
  unfold variantSuffix at h
  split at h <;> split at h
  · omega
  · simp at h
  · simp at h
  · have hdigits := List.append_cancel_left h
    have hnumber := congrArg (fun ds => Nat.ofDigitChars 10 ds 0) hdigits
    simpa using hnumber

theorem variantSymbol_inj {a b : String} {i j : Nat} (hlength : a.toList.length = b.toList.length)
    (h : variantSymbol a i = variantSymbol b j) : a = b ∧ i = j := by
  have hlist := congrArg String.toList h
  rw [toList_variantSymbol, toList_variantSymbol] at hlist
  obtain ⟨hbase, hsuffix⟩ := List.append_inj hlist hlength
  exact ⟨String.toList_inj.mp hbase, variantSuffix_injective hsuffix⟩

/-- None of two words begins with the other. -/
def Apart (a b : String) : Prop := ¬a.toList <+: b.toList ∧ ¬b.toList <+: a.toList

instance (a b : String) : Decidable (Apart a b) := inferInstanceAs (Decidable (_ ∧ _))

theorem Apart.variantSymbol_ne {a b : String} (h : Apart a b) (i j : Nat) :
    variantSymbol a i ≠ variantSymbol b j := by
  intro hij
  have hlist := congrArg String.toList hij
  rw [toList_variantSymbol, toList_variantSymbol] at hlist
  rcases List.prefix_or_prefix_of_prefix (List.prefix_append a.toList (variantSuffix i))
    (hlist ▸ List.prefix_append b.toList (variantSuffix j)) with hprefix | hprefix
  · exact h.1 hprefix
  · exact h.2 hprefix

theorem Domain.mem_all (d : Domain) : d ∈ Domain.all := by cases d <;> decide

namespace VariantRef

variable {split : Nat} {v w : VariantRef}

/-- Names that are made of a word for the domain and the number of the variant. -/
theorem injective_of_word (word : Domain → String)
    (hlength : (word .cube).toList.length = (word .vector).toList.length)
    (hne : word .cube ≠ word .vector) :
    Function.Injective fun v : VariantRef => variantSymbol (word v.domain) v.index := by
  rintro ⟨d, i⟩ ⟨d', i'⟩ h
  cases d <;> cases d' <;> simp only at h
  · exact congrArg _ (variantSymbol_inj rfl h).2
  · exact absurd (variantSymbol_inj hlength h).1 hne
  · exact absurd (variantSymbol_inj hlength.symm h).1.symm hne
  · exact congrArg _ (variantSymbol_inj rfl h).2

theorem address_injective : Function.Injective address :=
  injective_of_word (fun d => s!"{d.arch}_func_addr") (by decide) (by decide)

theorem parameter_injective : Function.Injective parameter :=
  injective_of_word (fun d => s!"dy_{d.arch}_func_ptr") (by decide) (by decide)

theorem pointer_injective : Function.Injective pointer :=
  injective_of_word (fun d => s!"{d.arch}_ptr") (by decide) (by decide)

theorem address_ne {x : String} (h : ∀ d ∈ Domain.all, Apart s!"{d.arch}_func_addr" x) (v : VariantRef) :
    v.address ≠ x :=
  (h v.domain v.domain.mem_all).variantSymbol_ne v.index 0

theorem parameter_ne {x : String} (h : ∀ d ∈ Domain.all, Apart s!"dy_{d.arch}_func_ptr" x)
    (v : VariantRef) : v.parameter ≠ x :=
  (h v.domain v.domain.mem_all).variantSymbol_ne v.index 0

theorem pointer_ne {x : String} (h : ∀ d ∈ Domain.all, Apart s!"{d.arch}_ptr" x) (v : VariantRef) :
    v.pointer ≠ x :=
  (h v.domain v.domain.mem_all).variantSymbol_ne v.index 0

theorem pointer_ne_parameter (v w : VariantRef) : v.pointer ≠ w.parameter := by
  have h : ∀ d ∈ Domain.all, ∀ e ∈ Domain.all, Apart s!"{d.arch}_ptr" s!"dy_{e.arch}_func_ptr" := by
    decide
  exact (h v.domain v.domain.mem_all w.domain w.domain.mem_all).variantSymbol_ne v.index w.index

theorem mem_all {d : Domain} : v ∈ all split d ↔ v.domain = d ∧ v.index < max split 1 := by
  obtain ⟨d', i⟩ := v
  simp only [all, List.mem_map, List.mem_range]
  constructor
  · rintro ⟨j, hj, hv⟩
    cases hv
    exact ⟨rfl, hj⟩
  · rintro ⟨rfl, hi⟩
    exact ⟨i, hi, rfl⟩

end VariantRef

/-- The name of the function for a variant. -/
def FunctionNames.symbol (f : FunctionNames) (v : VariantRef) : String :=
  variantSymbol ((f.get? v.domain).getD "") v.index

namespace Dynamic

variable {split : Nat} {v : VariantRef}

theorem mem_variants : v ∈ variants split ↔ v.index < max split 1 := by
  rw [variants, List.mem_append, VariantRef.mem_all, VariantRef.mem_all, ← or_and_right]
  cases v.domain <;> simp

theorem nodup_variants : (variants split).Nodup := by
  have hall : ∀ d, (VariantRef.all split d).Nodup := fun d =>
    List.nodup_range.map fun i j h => congrArg VariantRef.index h
  refine List.nodup_append.mpr ⟨hall _, hall _, fun v hv w hw hvw => ?_⟩
  have hvector := (VariantRef.mem_all.mp hv).1
  rw [hvw, (VariantRef.mem_all.mp hw).1] at hvector
  cases hvector

/-! ### The search -/

variable {site : Site} {s s' : State} {e : TilingEntry}

theorem holds_keyIs (hkey : s.env.lookup "tilingKeyAddr" = some (.cell .tilingKey)) (key : Nat) :
    (Cond.keyIs key).holds? site s = some (decide ((site.cells .tilingKey).toNat = key)) := by
  simp [Cond.holds?, Site.read?, hkey]

theorem holds_keyBelow (hkey : s.env.lookup "tilingKeyAddr" = some (.cell .tilingKey)) (key : Nat) :
    (Cond.keyBelow key).holds? site s = some (decide ((site.cells .tilingKey).toNat < key)) := by
  simp [Cond.holds?, Site.read?, hkey]

/-- Half of a table that is cut at an entry has the smaller keys. -/
theorem mem_half {entries : List TilingEntry} (hinc : entries.Pairwise fun a b => a.key < b.key)
    {middle : Nat} {m : TilingEntry} (hm : entries[middle]? = some m) (he : e ∈ entries) :
    e.key < m.key ∧ e ∈ entries.take middle ∨ ¬e.key < m.key ∧ e ∈ entries.drop middle := by
  have hdrop : entries.drop middle = m :: entries.drop (middle + 1) := by
    obtain ⟨hlt, rfl⟩ := List.getElem?_eq_some_iff.mp hm
    exact List.drop_eq_getElem_cons hlt
  rw [← List.take_append_drop middle entries] at hinc he
  obtain ⟨_, hback, hacross⟩ := List.pairwise_append.mp hinc
  rcases List.mem_append.mp he with he | he
  · exact .inl ⟨hacross e he m (hdrop ▸ List.mem_cons_self), he⟩
  · refine .inr ⟨?_, he⟩
    rw [hdrop] at hback he
    rcases List.mem_cons.mp he with rfl | he
    · exact Nat.lt_irrefl _
    · exact Nat.not_lt_of_gt ((List.pairwise_cons.mp hback).1 e he)

/-- The search comes to the entry of the key. -/
theorem exec_search {entries : List TilingEntry}
    (hkey : s.env.lookup "tilingKeyAddr" = some (.cell .tilingKey))
    (hinc : entries.Pairwise fun a b => a.key < b.key) (he : e ∈ entries)
    (hcell : (site.cells .tilingKey).toNat = e.key)
    (hselect : (select split e).exec site s = some s') (hlength : s'.env.length = s.env.length) :
    (search split entries).exec site s = some s' := by
  have hleave := State.leave_of_length hlength
  fun_induction search split entries with
  | case1 => cases he
  | case2 a =>
    obtain rfl := List.mem_singleton.mp he
    rw [Code.exec_when (holds_keyIs hkey _), hcell]
    simp [hselect, hleave]
  | case3 a b =>
    rw [Code.exec_either (holds_keyIs hkey _), hcell]
    rcases List.mem_cons.mp he with rfl | hb
    · simp [hselect, hleave]
    · obtain rfl := List.mem_singleton.mp hb
      have hlt : a.key < e.key := (List.pairwise_cons.mp hinc).1 e List.mem_cons_self
      simp [Nat.ne_of_gt hlt, hselect, hleave]
  | case4 a b c rest entries middle ihFirst ihSecond =>
    have hmiddle : middle < entries.length := by
      simp only [middle, entries, List.length_cons]
      omega
    have hm : entries[middle]? = some (entries.getD middle a) := by
      rw [List.getD_eq_getElem?_getD, List.getElem?_eq_getElem hmiddle, Option.getD_some]
    rw [Code.exec_either (holds_keyBelow hkey _), hcell]
    rcases mem_half hinc hm he with ⟨hlt, hfirst⟩ | ⟨hge, hsecond⟩
    · rw [decide_eq_true hlt, if_pos rfl, ihFirst (hinc.sublist (List.take_sublist _ _)) hfirst,
        Option.map_some, hleave]
    · rw [decide_eq_false hge, if_neg Bool.false_ne_true,
        ihSecond (hinc.sublist (List.drop_sublist _ _)) hsecond, Option.map_some, hleave]

/-! ### What is stored -/

/-- No variable has the address of a function that a variable hides. -/
def Clean (env : Env) : Prop := ∀ x symbol, env.lookup x = some (.function symbol) → symbol ∉ env.names

theorem evaluate_of_notMem {name : String} (h : name ∉ s.env.names) :
    s.evaluate name = .function name := by
  rw [State.evaluate, Env.lookup_eq_none h, Option.getD_none]

theorem evaluate_ne_of_mem {name : String} (hclean : Clean s.env) (h : name ∈ s.env.names) :
    s.evaluate name ≠ .function name := by
  obtain ⟨v, hv⟩ := Env.mem_names.mp h
  rw [State.evaluate, hv, Option.getD_some]
  rintro rfl
  exact hclean name name hv h

/-- What a statement that stores an address changes. -/
theorem exec_setAddress (site : Site) (symbol : String) (hv : v.address ∈ s.env.names) :
    ∃ s', (Stmt.setAddress v symbol).exec site s = some s' ∧ s'.env.names = s.env.names ∧
      s'.calls = s.calls ∧ ∀ x, s'.env.lookup x
        = if x = v.address then some (s.evaluate symbol) else s.env.lookup x := by
  obtain ⟨env, henv⟩ := Env.exists_assign hv (s.evaluate symbol)
  exact ⟨⟨env, s.calls⟩, by rw [Stmt.exec, State.assign, henv, Option.map_some], Env.names_assign henv,
    rfl, Env.lookup_assign henv⟩

/-- After the addresses of some variants have been stored: that of the function, where no variable has
its name, and otherwise that of something else. -/
structure Stored (symbol : VariantRef → String) (vs : List VariantRef) (s s' : State) : Prop where
  names : s'.env.names = s.env.names
  calls : s'.calls = s.calls
  other : ∀ x, (∀ v ∈ vs, v.address ≠ x) → s'.env.lookup x = s.env.lookup x
  visible : ∀ v ∈ vs, symbol v ∉ s.env.names → s'.env.lookup v.address = some (.function (symbol v))
  hidden : Clean s.env → ∀ v ∈ vs, symbol v ∈ s.env.names →
    s'.env.lookup v.address ≠ some (.function (symbol v))

theorem clean_setAddress {symbol : String} {s₁ : State} (hclean : Clean s.env)
    (hnames : s₁.env.names = s.env.names) (hlookup : ∀ x, s₁.env.lookup x
      = if x = v.address then some (s.evaluate symbol) else s.env.lookup x) : Clean s₁.env := by
  intro x y hx
  rw [hlookup] at hx
  rw [hnames]
  split at hx
  · by_cases hmem : symbol ∈ s.env.names
    · obtain ⟨w, hw⟩ := Env.mem_names.mp hmem
      rw [State.evaluate, hw, Option.getD_some] at hx
      exact hclean symbol y (hw.trans hx)
    · rw [evaluate_of_notMem hmem] at hx
      cases hx
      exact hmem
  · exact hclean x y hx

theorem exec_setAddresses (site : Site) (symbol : VariantRef → String) {vs : List VariantRef}
    (hnodup : vs.Nodup) (hvs : ∀ v ∈ vs, v.address ∈ s.env.names) :
    ∃ s', (Code.stmts (vs.map fun v => .setAddress v (symbol v))).exec site s = some s' ∧
      Stored symbol vs s s' := by
  induction vs generalizing s with
  | nil => exact ⟨s, rfl, rfl, rfl, fun _ _ => rfl, by simp, by simp⟩
  | cons v vs ih =>
    obtain ⟨hv, hnodup⟩ := List.nodup_cons.mp hnodup
    obtain ⟨s₁, hexec, hnames, hcalls, hlookup⟩ :=
      exec_setAddress site (symbol v) (hvs v List.mem_cons_self)
    obtain ⟨s', hrest, hstored⟩ := ih hnodup (s := s₁)
      (fun w hw => hnames ▸ hvs w (List.mem_cons_of_mem _ hw))
    -- The other variants leave the variable of this one alone.
    have hfirst : s'.env.lookup v.address = some (s.evaluate (symbol v)) := by
      have hother : ∀ w ∈ vs, w.address ≠ v.address := fun w hw h =>
        hv (VariantRef.address_injective h ▸ hw)
      rw [hstored.other _ hother, hlookup, if_pos rfl]
    refine ⟨s', ?_, hstored.names.trans hnames, hstored.calls.trans hcalls, ?_, ?_, ?_⟩
    · rw [List.map_cons, Code.exec_stmts_cons, hexec, Option.bind_some, hrest]
    · intro x hx
      rw [hstored.other x fun w hw => hx w (List.mem_cons_of_mem _ hw), hlookup,
        if_neg (hx v List.mem_cons_self).symm]
    · rw [List.forall_mem_cons]
      refine ⟨fun hfree => ?_, fun w hw hfree => hstored.visible w hw (hnames ▸ hfree)⟩
      rw [hfirst, evaluate_of_notMem hfree]
    · intro hclean
      rw [List.forall_mem_cons]
      refine ⟨fun hmem => ?_, fun w hw hmem =>
        hstored.hidden (clean_setAddress hclean hnames hlookup) w hw (hnames ▸ hmem)⟩
      rw [hfirst, Ne, Option.some.injEq]
      exact evaluate_ne_of_mem hclean hmem

/-- The variants that an entry stores addresses for. -/
def storedVariants (e : TilingEntry) (split : Nat) : List VariantRef :=
  (variants split).filter fun v => e.kernelType.affinity.contains v.domain

theorem mem_storedVariants : v ∈ storedVariants e split ↔
    v.index < max split 1 ∧ v.domain ∈ e.kernelType.affinity.domains := by
  rw [storedVariants, List.mem_filter, mem_variants, Affinity.contains, List.contains_iff_mem]

theorem addressesOf_eq (hcallable : e.Callable) (d : Domain) : addressesOf e split d =
    ((VariantRef.all split d).filter fun v => e.kernelType.affinity.contains v.domain).map
      fun v => .setAddress v (e.functions.symbol v) := by
  unfold addressesOf
  by_cases hd : e.kernelType.affinity.contains d = true
  · obtain ⟨base, hbase⟩ := hcallable d (List.contains_iff_mem.mp hd)
    have hall : (VariantRef.all split d).filter (fun v => e.kernelType.affinity.contains v.domain)
        = VariantRef.all split d :=
      List.filter_eq_self.mpr fun v hv => (VariantRef.mem_all.mp hv).1 ▸ hd
    rw [if_pos hd, hbase, hall]
    refine List.map_congr_left fun v hv => ?_
    rw [FunctionNames.symbol, (VariantRef.mem_all.mp hv).1, hbase, Option.getD_some]
  · have hnone : (VariantRef.all split d).filter (fun v => e.kernelType.affinity.contains v.domain)
        = [] := List.filter_eq_nil_iff.mpr fun v hv => (VariantRef.mem_all.mp hv).1 ▸ hd
    rw [if_neg hd, hnone, List.map_nil]

theorem select_eq (hcallable : e.Callable) : select split e
    = .stmts (((storedVariants e split).map fun v => .setAddress v (e.functions.symbol v))
      ++ [.publish e.kernelType.code]) := by
  rw [select, addressesOf_eq hcallable, addressesOf_eq hcallable, ← List.map_append,
    ← List.filter_append]
  rfl

/-- The word in which a class and a block count are passed on. -/
def packed (t : KernelType) (count : UInt64) : UInt64 := UInt64.ofNat t.code <<< 32 ||| count

/-- After the choice of an entry: its class and the count of the host are stored, and an address for
each variant in a domain of the entry. -/
structure Chosen (site : Site) (e : TilingEntry) (split : Nat) (s s' : State) : Prop where
  names : s'.env.names = s.env.names
  calls : s'.calls = s.calls
  count : s'.env.lookup "dy_block_num" = some (.word (packed e.kernelType (site.cells .blockCount)))
  visible : ∀ v ∈ storedVariants e split, e.functions.symbol v ∉ s.env.names →
    s'.env.lookup v.address = some (.function (e.functions.symbol v))
  hidden : Clean s.env → ∀ v ∈ storedVariants e split, e.functions.symbol v ∈ s.env.names →
    s'.env.lookup v.address ≠ some (.function (e.functions.symbol v))

theorem exec_select (site : Site) (hcallable : e.Callable)
    (hcell : s.env.lookup "blockNumAddr" = some (.cell .blockCount))
    (hcount : "dy_block_num" ∈ s.env.names) (hvs : ∀ v ∈ variants split, v.address ∈ s.env.names) :
    ∃ s', (select split e).exec site s = some s' ∧ Chosen site e split s s' := by
  have hvs' : ∀ v ∈ storedVariants e split, v.address ∈ s.env.names := fun v hv =>
    hvs v (List.mem_filter.mp hv).1
  have hnodup : (storedVariants e split).Nodup := nodup_variants.filter _
  obtain ⟨s₁, hexec, hstored⟩ := exec_setAddresses site e.functions.symbol hnodup hvs'
  have hcell₁ : s₁.env.lookup "blockNumAddr" = some (.cell .blockCount) := by
    rw [hstored.other _ fun v _ => VariantRef.address_ne (by decide) v, hcell]
  obtain ⟨env, henv⟩ := Env.exists_assign (hstored.names ▸ hcount)
    (.word (packed e.kernelType (site.cells .blockCount)))
  have hlookup := Env.lookup_assign henv
  have haddress : ∀ v : VariantRef, env.lookup v.address = s₁.env.lookup v.address := fun v => by
    rw [hlookup, if_neg (VariantRef.address_ne (by decide) v)]
  refine ⟨⟨env, s₁.calls⟩, ?_, (Env.names_assign henv).trans hstored.names, hstored.calls, ?_, ?_, ?_⟩
  · rw [select_eq hcallable, Code.exec_stmts_append, hexec, Option.bind_some, Code.exec_stmts_cons]
    simp only [Stmt.exec, Site.read?, hcell₁, Option.bind_some, State.assign]
    rw [← packed, henv]
    rfl
  · rw [hlookup, if_pos rfl]
  · exact fun v hv hfree => (haddress v).trans (hstored.visible v hv hfree)
  · exact fun hclean v hv hmem => (haddress v).symm ▸ hstored.hidden hclean v hv hmem

/-! ### The function that chooses -/

/-- What the function is called with: the cells, and variables of the caller with what they have. -/
def switchArguments (o : Operator) (start : VariantRef → Value) (count : Value) : List Value :=
  [.cell .tilingKey, .cell .blockCount, .cell .readyLock] ++ (variants o.split).map start ++ [count]

/-- The variables that are in scope where an entry is chosen. -/
def inScope (o : Operator) : List String :=
  ["lockAddr", "blockNumAddr", "tilingKeyAddr"] ++ (switchRoutine o).parameters.map Parameter.name

variable {o : Operator} {start : VariantRef → Value} {count : Value}

/-- The state in which an entry is searched. -/
def searching (o : Operator) (start : VariantRef → Value) (count : Value) : State :=
  ⟨[("lockAddr", .cell .readyLock), ("blockNumAddr", .cell .blockCount),
      ("tilingKeyAddr", .cell .tilingKey), ("__ac_dynamic_tiling_key", .cell .tilingKey),
      ("__ac_dynamic_block_num", .cell .blockCount), ("__ac_dynamic_lock", .cell .readyLock)]
    ++ ((variants o.split).map (fun v => (v.address, start v)) ++ [("dy_block_num", count)]), []⟩

theorem exec_bindCells : (Code.stmts [.bindCell "tilingKeyAddr" "__ac_dynamic_tiling_key" false,
    .bindCell "blockNumAddr" "__ac_dynamic_block_num" false,
    .bindCell "lockAddr" "__ac_dynamic_lock" true]).exec site
      ((switchRoutine o).frame (switchArguments o start count)) = some (searching o start count) := by
  have hframe : (switchRoutine o).frame (switchArguments o start count)
      = ⟨[("__ac_dynamic_tiling_key", .cell .tilingKey), ("__ac_dynamic_block_num", .cell .blockCount),
          ("__ac_dynamic_lock", .cell .readyLock)]
        ++ ((variants o.split).map (fun v => (v.address, start v)) ++ [("dy_block_num", count)]), []⟩ := by
    simp [Routine.frame, switchRoutine, switchArguments, List.zip_append, List.zip_map',
      Function.comp_def]
  simp [hframe, Stmt.exec, State.declare, searching]

theorem names_searching : (searching o start count).env.names = inScope o := by
  simp [searching, inScope, Env.names, switchRoutine, Function.comp_def]

theorem address_mem_searching (hv : v ∈ variants o.split) :
    v.address ∈ (searching o start count).env.names := by
  rw [names_searching, inScope, switchRoutine]
  simp only [List.map_append, List.map_map, List.mem_append]
  exact .inr (.inl (.inr (List.mem_map.mpr ⟨v, hv, rfl⟩)))

theorem exec_spin (hlock : (site.cells .readyLock).toNat = LockState.ready.value)
    (hs : s.env.lookup "lockAddr" = some (.cell .readyLock)) :
    (Sync.spin "lockAddr" LockState.ready.value).exec site s = some s := by
  simp [Sync.spin, Code.exec, Stmt.exec, Head.exec, Site.read?, hs, hlock]

/-- The function comes to the entry of the key and stores what it has. -/
theorem exec_switchBody (htiled : Tiled o.tiling) (he : e ∈ o.tiling)
    (hlock : (site.cells .readyLock).toNat = LockState.ready.value)
    (hkey : (site.cells .tilingKey).toNat = e.key) (start : VariantRef → Value) (count : Value) :
    ∃ s', (switchBody o).exec site ((switchRoutine o).frame (switchArguments o start count)) = some s' ∧
      Chosen site e o.split (searching o start count) s' := by
  obtain ⟨s', hselect, hchosen⟩ := exec_select site (htiled.callable e he)
    (s := searching o start count) (by simp [searching]) (by simp [searching, Env.names])
    fun v hv => address_mem_searching hv
  have hlength : s'.env.length = (searching o start count).env.length := by
    simpa [Env.names] using congrArg List.length hchosen.names
  have hsearch := exec_search (by simp [searching]) htiled.increasing he hkey hselect hlength
  refine ⟨s', ?_, hchosen⟩
  rw [switchBody, Code.exec_append, Code.exec_append, Code.exec_append, Code.exec_append,
    exec_bindCells, Option.bind_some, exec_spin hlock (by simp [searching]), Option.bind_some,
    Code.exec_empty, Option.bind_some, hsearch, Option.bind_some, Code.exec_text]

end Dynamic

end KernelFusion
