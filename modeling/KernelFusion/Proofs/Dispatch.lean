import KernelFusion.Proofs.KeySearch

/-!
A dynamic operator calls what a static one would call.

The function that chooses leaves addresses, and one word with the class and the block count. The function
that calls takes the word apart and gates the call by class and count, as the code of a static operator
of that class does. So both come to the same variant on every unit. They call the same function as well
if its name stands for the same thing in both places.

        key ─ search ─ store ─┐            ┌─ class, count ─ gate ─ variant
                              └─ one word ─┘
-/

namespace KernelFusion

open Device

/-- The variant that a unit runs, of a kernel type with a number of blocks. -/
def Device.Site.variant? (site : Site) (t : KernelType) (count split : Nat) : Option VariantRef :=
  if site.domain ∈ t.affinity.domains ∧ site.blockIndex (t.blockIndex site.domain) < count then
    some ⟨site.domain, site.variantOf (max split 1)⟩
  else none

/-- The call of a variant, where there is one. -/
def Device.calling (callee : VariantRef → Value) (offset : UInt64) (v : Option VariantRef) : List Call :=
  v.toList.map fun v => ⟨callee v, offset⟩

namespace Dynamic

variable {site : Site} {s s' : State} {e : TilingEntry} {o : Operator} {v : VariantRef} {split : Nat}
variable {t : KernelType} {count : UInt64}

/-! ### One word for a class and a count -/

theorem toNat_packed (hcount : count.toNat < UInt32.size) :
    (packed t count).toNat = t.code * UInt32.size + count.toNat := by
  have hcode : (UInt64.ofNat t.code <<< 32).toNat = t.code <<< 32 := by cases t <;> rfl
  rw [packed, UInt64.toNat_or, hcode, ← Nat.shiftLeft_add_eq_or_of_lt hcount, Nat.shiftLeft_eq]

theorem packed_class (hcount : count.toNat < UInt32.size) : (packed t count >>> 32).toNat = t.code := by
  rw [UInt64.toNat_shiftRight, toNat_packed hcount, Nat.shiftRight_eq_div_pow]
  change (t.code * UInt32.size + count.toNat) / UInt32.size = t.code
  rw [Nat.mul_comm, Nat.mul_add_div (by decide), Nat.div_eq_of_lt hcount, Nat.add_zero]

theorem packed_count (hcount : count.toNat < UInt32.size) :
    (packed t count &&& 0xFFFFFFFF).toNat = count.toNat := by
  rw [UInt64.toNat_and, toNat_packed hcount]
  change _ &&& (2 ^ 32 - 1) = _
  rw [Nat.and_two_pow_sub_one_eq_mod]
  change (t.code * UInt32.size + count.toNat) % UInt32.size = _
  rw [Nat.mul_comm, Nat.mul_add_mod, Nat.mod_eq_of_lt hcount]

/-! ### The function that calls -/

/-- What the calls find: pointers, the place of arguments, and the class and count that were passed. -/
structure Bound (split : Nat) (callee : VariantRef → Value) (offset : UInt64) (t : KernelType)
    (count : UInt64) (s : State) : Prop where
  offset : s.env.lookup "args_offset" = some (.word offset)
  pointer : ∀ v ∈ variants split, s.env.lookup v.pointer = some (callee v)
  code : ∃ w, s.word? "kernelType" = some w ∧ w.toNat = t.code
  count : ∃ w, s.word? "numBlocks" = some w ∧ w.toNat = count.toNat

variable {callee : VariantRef → Value} {offset : UInt64}

theorem exec_callPointer (hbound : Bound split callee offset t count s) (hv : v ∈ variants split)
    (n : Nat) : (Stmt.callPointer v).exec site (s.inChain site n)
      = some ⟨(s.inChain site n).env, s.calls ++ [⟨callee v, offset⟩]⟩ := by
  have hpointer : (s.inChain site n).env.lookup v.pointer = some (callee v) := by
    rw [State.lookup_inChain (VariantRef.pointer_ne (by decide) v), hbound.pointer v hv]
  have hoffset : (s.inChain site n).word? "args_offset" = some offset := by
    rw [State.word?, State.lookup_inChain (by decide), hbound.offset]
  rw [Stmt.exec, hpointer, Option.bind_some, hoffset, Option.map_some, State.call, State.calls_inChain]

theorem exec_calls (hbound : Bound split callee offset t count s) (d : Domain) :
    (calls split d).exec site s = some ⟨(s.inChain site (max split 1)).env,
      s.calls ++ [⟨callee ⟨d, site.variantOf (max split 1)⟩, offset⟩]⟩ := by
  have hpos : 0 < max split 1 := by omega
  have hlt : site.variantOf (max split 1) < max split 1 := Nat.mod_lt _ hpos
  rw [calls, VariantRef.all, List.map_map]
  exact exec_variantChain_range hpos isText_none (exec_callPointer hbound (mem_variants.mpr hlt) _)

theorem holds_onDomain (d : Domain) :
    (Cond.onDomain d).holds? site s = some (decide (site.domain = d)) := rfl

theorem exec_callsIn (hbound : Bound split callee offset t count s) (d : Domain) :
    (Code.when (.onDomain d) (calls split d)).exec site s = some ⟨s.env, s.calls ++
      if site.domain = d then [⟨callee ⟨site.domain, site.variantOf (max split 1)⟩, offset⟩] else []⟩ := by
  rw [Code.exec_when (holds_onDomain d)]
  by_cases hd : site.domain = d
  · simp [hd, exec_calls hbound]
  · simp [hd]

theorem exec_callsAmong (hbound : Bound split callee offset t count s) :
    (Code.either (.onDomain .cube) (calls split .cube) (calls split .vector)).exec site s
      = some ⟨s.env, s.calls ++ [⟨callee ⟨site.domain, site.variantOf (max split 1)⟩, offset⟩]⟩ := by
  rw [Code.exec_either (holds_onDomain .cube)]
  cases hd : site.domain <;> simp [exec_calls hbound]

theorem gateIndex_eq {d : Domain} (hd : d ∈ t.affinity.domains) :
    gateIndex t.affinity = t.blockIndex d := by
  revert hd
  unfold KernelType.blockIndex
  cases t.affinity <;> cases d <;> decide

/-- The gate comes before the test of the domain. -/
theorem calling_variant? (n : Nat) : calling callee offset (site.variant? t n split) =
    if site.blockIndex (gateIndex t.affinity) < n then
      if site.domain ∈ t.affinity.domains then
        [⟨callee ⟨site.domain, site.variantOf (max split 1)⟩, offset⟩] else []
    else [] := by
  unfold Site.variant? calling
  by_cases hd : site.domain ∈ t.affinity.domains
  · rw [gateIndex_eq hd]
    by_cases hlt : site.blockIndex (t.blockIndex site.domain) < n <;> simp [hd, hlt]
  · simp [hd]

/-- The code for an affinity calls the variant of the unit. -/
theorem exec_callOf (hbound : Bound split callee offset t count s) :
    (callOf split t.affinity).exec site s
      = some ⟨s.env, s.calls ++ calling callee offset (site.variant? t count.toNat split)⟩ := by
  obtain ⟨w, hw, hcount⟩ := hbound.count
  have hgate : (Cond.blockBelow (gateIndex t.affinity) (.runtime "numBlocks")).holds? site s
      = some (decide (site.blockIndex (gateIndex t.affinity) < count.toNat)) := by
    simp [Cond.holds?, hw, hcount]
  unfold callOf
  rw [Code.exec_when hgate, calling_variant?]
  by_cases hlt : site.blockIndex (gateIndex t.affinity) < count.toNat
  · rw [decide_eq_true hlt, if_pos rfl, if_pos hlt]
    cases t.affinity with
    | mixed =>
      have hdomain : site.domain ∈ Affinity.mixed.domains := by cases site.domain <;> decide
      simp [exec_callsAmong hbound, hdomain]
    | cubeOnly => simp [exec_callsIn hbound, Affinity.primary, Affinity.domains]
    | vectorOnly => simp [exec_callsIn hbound, Affinity.primary, Affinity.domains]
  · simp [hlt]

theorem contains_codes (a : Affinity) : (codes a).contains t.code = decide (t.affinity = a) := by
  cases t <;> cases a <;> decide

theorem exec_callArms (site : Site) (hbound : Bound split callee offset t count s) {as : List Affinity}
    (ha : t.affinity ∈ as) : (callArms split as).exec site s = (callOf split t.affinity).exec site s := by
  obtain ⟨w, hw, hcode⟩ := hbound.code
  induction as with
  | nil => cases ha
  | cons a as ih =>
    have hclass : (Cond.classIn (codes a)).holds? site s = some (decide (t.affinity = a)) := by
      rw [Cond.holds?, hw, Option.map_some, hcode, contains_codes]
    rw [callArms, Arms.exec, hclass, Option.bind_some]
    by_cases hta : t.affinity = a
    · simp [hta]
    · simpa [hta] using ih ((List.mem_cons.mp ha).resolve_left hta)

theorem exec_callByClass (hbound : Bound split callee offset t count s) {as : List Affinity}
    (ha : t.affinity ∈ as) : (callByClass split as).exec site s
      = some ⟨s.env, s.calls ++ calling callee offset (site.variant? t count.toNat split)⟩ := by
  match as, ha with
  | a :: as, ha =>
    have harms := exec_callArms site hbound ha
    rw [exec_callOf hbound, callArms] at harms
    rw [callByClass, Code.exec_choose, harms, Option.map_some, State.leave_self]

theorem mem_affinities {table : List TilingEntry} (he : e ∈ table) :
    e.kernelType.affinity ∈ affinities table := by
  refine List.mem_filter.mpr ⟨?_, List.any_eq_true.mpr ⟨e, he, decide_eq_true rfl⟩⟩
  cases e.kernelType.affinity <;> decide

theorem exec_bindPointers {vs : List VariantRef}
    (hvs : ∀ v ∈ vs, s.env.lookup v.parameter = some (callee v)) :
    (Code.stmts (vs.map .bindPointer)).exec site s
      = some ⟨vs.reverse.map (fun v => (v.pointer, callee v)) ++ s.env, s.calls⟩ := by
  induction vs generalizing s with
  | nil => rfl
  | cons v vs ih =>
    have hrest : ∀ w ∈ vs, (s.declare v.pointer (callee v)).env.lookup w.parameter
        = some (callee w) := by
      intro w hw
      rw [State.declare, Env.lookup_cons, if_neg (VariantRef.pointer_ne_parameter v w).symm]
      exact hvs w (List.mem_cons_of_mem _ hw)
    rw [List.map_cons, Code.exec_stmts_cons, Stmt.exec, hvs v List.mem_cons_self, Option.map_some,
      Option.bind_some, ih hrest]
    simp [State.declare]

/-- What the function is called with. -/
def callArguments (o : Operator) (offset : UInt64) (callee : VariantRef → Value) (word : UInt64) :
    List Value := .word offset :: ((variants o.split).map callee ++ [.word word])

/-- The state in which pointers are bound. -/
def unpacked (o : Operator) (offset : UInt64) (callee : VariantRef → Value) (word : UInt64) : State :=
  ⟨("numBlocks", .word (word &&& 0xFFFFFFFF)) :: ("kernelType", .word (word >>> 32))
    :: ("args_offset", .word offset) :: ((variants o.split).map (fun v => (v.parameter, callee v))
      ++ [("dy_block_num", .word word)]), []⟩

theorem exec_unpack {word : UInt64} (a b : String) :
    (Code.stmts [.unpackClass, .unpackCount, .text a, .text b]).exec site
      ((callRoutine o).frame (callArguments o offset callee word))
        = some (unpacked o offset callee word) := by
  have hframe : (callRoutine o).frame (callArguments o offset callee word)
      = ⟨("args_offset", .word offset) :: ((variants o.split).map (fun v => (v.parameter, callee v))
        ++ [("dy_block_num", .word word)]), []⟩ := by
    simp [Routine.frame, callRoutine, callArguments, List.zip_append, List.zip_map', Function.comp_def]
  have hword : List.lookup "dy_block_num" ((variants o.split).map (fun v => (v.parameter, callee v))
      ++ [("dy_block_num", .word word)]) = some (.word word) := by
    rw [Env.lookup_map_of_ne callee fun v _ => VariantRef.parameter_ne (by decide) v]
    rfl
  simp [hframe, Stmt.exec, State.word?, State.declare, hword, unpacked]

theorem lookup_parameter {word : UInt64} (hv : v ∈ variants o.split) :
    (unpacked o offset callee word).env.lookup v.parameter = some (callee v) := by
  have hne : v.parameter ≠ "numBlocks" ∧ v.parameter ≠ "kernelType" ∧ v.parameter ≠ "args_offset" :=
    ⟨VariantRef.parameter_ne (by decide) v, VariantRef.parameter_ne (by decide) v,
      VariantRef.parameter_ne (by decide) v⟩
  simp only [unpacked, Env.lookup_cons, hne, if_false]
  exact Env.lookup_map VariantRef.parameter_injective callee hv _

theorem bound_unpacked (hcount : count.toNat < UInt32.size) : Bound o.split callee offset t count
    ⟨(variants o.split).reverse.map (fun v => (v.pointer, callee v))
      ++ (unpacked o offset callee (packed t count)).env,
        (unpacked o offset callee (packed t count)).calls⟩ where
  offset := by
    rw [Env.lookup_map_of_ne callee fun v _ => VariantRef.pointer_ne (by decide) v]
    simp [unpacked]
  pointer := fun v hv =>
    Env.lookup_map VariantRef.pointer_injective callee (List.mem_reverse.mpr hv) _
  code := by
    refine ⟨packed t count >>> 32, ?_, packed_class hcount⟩
    rw [State.word?, Env.lookup_map_of_ne callee fun v _ => VariantRef.pointer_ne (by decide) v]
    simp [unpacked]
  count := by
    refine ⟨packed t count &&& 0xFFFFFFFF, ?_, packed_count hcount⟩
    rw [State.word?, Env.lookup_map_of_ne callee fun v _ => VariantRef.pointer_ne (by decide) v]
    simp [unpacked]

/-- The function calls the variant of the unit, by the class and count of the word. -/
theorem exec_callBody (site : Site) (callee : VariantRef → Value) (offset : UInt64) (he : e ∈ o.tiling)
    (hcount : count.toNat < UInt32.size) :
    ∃ s', (callBody o).exec site
        ((callRoutine o).frame (callArguments o offset callee (packed e.kernelType count))) = some s' ∧
      s'.calls = calling callee offset (site.variant? e.kernelType count.toNat o.split) ∧
      Bound o.split callee offset e.kernelType count s' := by
  have hbound : Bound o.split callee offset e.kernelType count _ := bound_unpacked hcount
  rw [callBody, Code.exec_append, Code.exec_stmts_append, exec_unpack, Option.bind_some,
    exec_bindPointers fun v hv => lookup_parameter hv, Option.bind_some,
    exec_callByClass hbound (mem_affinities he)]
  exact ⟨_, rfl, rfl, hbound.offset, hbound.pointer, hbound.code, hbound.count⟩

/-! ### Both functions together -/

/-- What the caller finds in a variable. -/
def storedIn (s : State) (v : VariantRef) : Value := (s.env.lookup v.address).getD (.word 0)

/-- The caller finds an address for each variant, and the word. -/
theorem stored_chosen {start : VariantRef → Value} {before : Value}
    (hchosen : Chosen site e o.split (searching o start before) s) :
    (switchRoutine o).stored s = some ((variants o.split).map (storedIn s)
      ++ [.word (packed e.kernelType (site.cells .blockCount))]) := by
  have hnames : ((switchRoutine o).parameters.filter Parameter.isReference).map Parameter.name
      = (variants o.split).map VariantRef.address ++ ["dy_block_num"] := by
    simp [switchRoutine, List.filter_map, Function.comp_def]
  have haddress : ∀ v ∈ variants o.split, s.env.lookup v.address = some (storedIn s v) := by
    intro v hv
    have hmem : v.address ∈ s.env.names := hchosen.names ▸ address_mem_searching hv
    obtain ⟨w, hw⟩ := Env.mem_names.mp hmem
    rw [storedIn, hw, Option.getD_some]
  rw [Routine.stored, hnames, List.mapM_append, mapM_map_eq_some haddress]
  simp [hchosen.count]

end Dynamic

/-- The calls of a dynamic operator on a unit: one function chooses, another one is called with what the
caller then finds in its variables. -/
def Operator.dynamicCalls (o : Operator) (site : Site) (start : VariantRef → Value) (before : Value)
    (offset : Nat) : Option (List Call) := do
  let chosen ← (Dynamic.switchBody o).exec site
    ((Dynamic.switchRoutine o).frame (Dynamic.switchArguments o start before))
  let stored ← (Dynamic.switchRoutine o).stored chosen
  let called ← (Dynamic.callBody o).exec site
    ((Dynamic.callRoutine o).frame (.word (UInt64.ofNat offset) :: stored))
  return chosen.calls ++ called.calls

namespace Dynamic

variable {site : Site} {e : TilingEntry} {o : Operator}

theorem dynamicCalls_eq (htiled : Tiled o.tiling) (he : e ∈ o.tiling)
    (hlock : (site.cells .readyLock).toNat = LockState.ready.value)
    (hkey : (site.cells .tilingKey).toNat = e.key)
    (hcount : (site.cells .blockCount).toNat < UInt32.size) (start : VariantRef → Value) (before : Value)
    (offset : Nat) : ∃ s, Chosen site e o.split (searching o start before) s ∧
      o.dynamicCalls site start before offset = some (calling (storedIn s) (UInt64.ofNat offset)
        (site.variant? e.kernelType (site.cells .blockCount).toNat o.split)) := by
  obtain ⟨s, hswitch, hchosen⟩ := exec_switchBody htiled he hlock hkey start before
  obtain ⟨s', hcall, hcalls, _⟩ := exec_callBody site (storedIn s) (UInt64.ofNat offset) he hcount
  have hnone : s.calls = [] := hchosen.calls
  rw [callArguments] at hcall
  refine ⟨s, hchosen, ?_⟩
  simp only [Operator.dynamicCalls, hswitch, stored_chosen hchosen, hcall, hcalls, hnone,
    Option.bind_eq_bind, Option.bind_some, List.nil_append, Option.pure_def]

end Dynamic

/-! ### The code of a static operator -/

section Static

variable {site : Site} {s s' : State} {g : Guarded} {arch : Option Domain} {d : Domain} {o : Operator}

theorem Guarded.exec_gate {b : Bool} (hgate : (Cond.blockBelow g.index g.limit).holds? site s = some b)
    (hcomplement : IsText g.complement)
    (hchain : (variantChain g.variants g.tail).exec site s = some s') :
    g.gate.exec site s = some (if b then s.leave s' else s) := by
  unfold gate
  cases hc : g.complement with
  | none => cases b <;> simp [Code.exec_when hgate, hchain]
  | some st =>
    obtain ⟨line, rfl⟩ := hcomplement st hc
    cases b <;> simp [Code.exec_either hgate, hchain, Stmt.exec]

/-- On a unit of the domain it makes no difference whether the code tests the domain. -/
theorem Guarded.exec_code {calls : List Call} (hd : site.domain = g.domain)
    (hbefore : ∀ s, (Code.stmts g.before).exec site s = some s)
    (hafter : ∀ s, (Code.stmts g.after).exec site s = some s)
    (hgate : g.gate.exec site s = some ⟨s.env, calls⟩) :
    (g.code arch).exec site s = some ⟨s.env, calls⟩ := by
  have hbody : (Code.stmts g.before ++ g.gate ++ .stmts g.after).exec site s = some ⟨s.env, calls⟩ := by
    rw [Code.exec_append, Code.exec_append, hbefore, Option.bind_some, hgate, Option.bind_some, hafter]
  simp only [code, Code.exec_append _ Code.empty]
  split
  · rw [hbody, Option.bind_some, Code.exec_empty]
  · rw [Code.exec_when (Dynamic.holds_onDomain _), hd]
    simp [hbody]

theorem Guarded.exec_code_of_ne (hd : site.domain ≠ g.domain) (harch : arch ≠ some g.domain) :
    (g.code arch).exec site s = some s := by
  simp only [code, if_neg harch, Code.exec_append _ Code.empty, Code.exec_when (Dynamic.holds_onDomain _)]
  simp [hd]

namespace Body

theorem exec_flush (wanted : Bool) (option : String) (s : State) :
    (Code.stmts (flush wanted option)).exec site s = some s := by
  unfold flush
  split <;> rfl

/-- What the name of a function stands for where its variant is called. -/
def named (site : Site) (s : State) (o : Operator) (v : VariantRef) : Value :=
  (s.inChain site (max o.split 1)).evaluate (o.functions.symbol v)

theorem exec_callChain (site : Site) (s : State) (o : Operator) (offset : Nat) {base : String}
    (hbase : o.functions.get? d = some base) {tail : Option Stmt} (htail : IsText tail) :
    (variantChain ((variantSymbols base o.split).map fun symbol => .call symbol offset) tail).exec site s
      = some ⟨(s.inChain site (max o.split 1)).env,
        s.calls ++ [⟨named site s o ⟨d, site.variantOf (max o.split 1)⟩, UInt64.ofNat offset⟩]⟩ := by
  rw [variantSymbols, List.map_map]
  refine exec_variantChain_range (by omega) htail ?_
  rw [named, FunctionNames.symbol, hbase, Option.getD_some]
  simp [Stmt.exec, State.call, State.calls_inChain]

/-- The code of a domain calls on its units, if they are blocks of the operator. -/
theorem exec_callIn (harch : ∀ a ∈ arch, a = site.domain) {base : String}
    (hbase : o.functions.get? d = some base) (offset : Nat) (feeds : Bool) (s : State) :
    (callIn o offset feeds arch d).exec site s = some ⟨s.env, s.calls ++
      if site.domain = d ∧ site.blockIndex (o.kernelType.blockIndex d) < o.blockCount then
        [⟨named site s o ⟨d, site.variantOf (max o.split 1)⟩, UInt64.ofNat offset⟩] else []⟩ := by
  unfold callIn
  rw [hbase]
  dsimp only
  by_cases hd : site.domain = d
  · -- Code for one domain alone is code for the domain of the unit, so it is not left out.
    have hhere : ¬(arch.isSome ∧ arch ≠ some d) := by
      rintro ⟨hsome, hne⟩
      obtain ⟨a, rfl⟩ := Option.isSome_iff_exists.mp hsome
      exact hne (congrArg some ((harch a rfl).trans hd))
    have htext : ∀ line, IsText (if feeds then some (.text line) else none) := by
      intro line
      cases feeds
      · exact isText_none
      · exact isText_some line
    rw [if_neg hhere]
    refine Guarded.exec_code hd (exec_flush _ _) (exec_flush _ _) ?_
    rw [Guarded.exec_gate rfl (htext _) (exec_callChain site s o offset hbase (htext _))]
    by_cases hlt : site.blockIndex (o.kernelType.blockIndex d) < o.blockCount <;> simp [hd, hlt]
  · simp only [hd, false_and, if_false, List.append_nil]
    split
    · rfl
    next hother =>
      have hnone : arch = none := by
        cases arch with
        | none => rfl
        | some a => exact absurd ⟨rfl, fun h => hd ((harch a rfl).symm.trans (Option.some.inj h))⟩ hother
      exact Guarded.exec_code_of_ne hd (hnone ▸ nofun)

theorem exec_callDomains (harch : ∀ a ∈ arch, a = site.domain) {ds : List Domain} (hnodup : ds.Nodup)
    (hcallable : ∀ d ∈ ds, ∃ base, o.functions.get? d = some base) (offset : Nat) (feeds : Bool)
    (s : State) : (Code.concat (ds.map (callIn o offset feeds arch))).exec site s = some ⟨s.env, s.calls ++
      if site.domain ∈ ds ∧ site.blockIndex (o.kernelType.blockIndex site.domain) < o.blockCount then
        [⟨named site s o ⟨site.domain, site.variantOf (max o.split 1)⟩, UInt64.ofNat offset⟩] else []⟩ := by
  induction ds generalizing s with
  | nil => simp
  | cons d ds ih =>
    obtain ⟨hd, hnodup⟩ := List.nodup_cons.mp hnodup
    obtain ⟨⟨base, hbase⟩, hrest⟩ := List.forall_mem_cons.mp hcallable
    rw [List.map_cons, Code.exec_concat_cons, exec_callIn harch hbase, Option.bind_some, ih hnodup hrest]
    by_cases hsite : site.domain = d
    · subst hsite
      simp [hd]
    · simp [hsite]

/-- The code of a static operator calls the variant of the unit. -/
theorem exec_callStatic (harch : ∀ a ∈ arch, a = site.domain)
    (hcallable : ∀ d ∈ o.affinity.domains, ∃ base, o.functions.get? d = some base)
    (offset : Nat) (feeds : Bool) (s : State) : (callStatic o offset feeds arch).exec site s
      = some ⟨s.env, s.calls ++ calling (named site s o) (UInt64.ofNat offset)
        (site.variant? o.kernelType o.blockCount o.split)⟩ := by
  have hnodup : o.affinity.domains.Nodup := by cases o.affinity <;> decide
  rw [callStatic, exec_callDomains harch hnodup hcallable]
  unfold Site.variant? calling Operator.affinity
  split <;> simp

end Body

end Static

/-- The calls of a static operator on a unit, with no variables around. -/
def Operator.staticCalls (o : Operator) (site : Site) (offset : Nat) (feeds : Bool)
    (arch : Option Domain) : Option (List Call) :=
  ((Body.callStatic o offset feeds arch).exec site ⟨[], []⟩).map State.calls

/-- An operator as if it had been static, with an entry and the block count that the host gave. -/
def Operator.resolved (o : Operator) (e : TilingEntry) (count : Nat) : Operator :=
  { o with kernelType := e.kernelType, functions := e.functions, blockCount := count, dispatch := .static }

/-- Names that are those of variables where a function is named: in the choice of an entry, and in the
choice among several variants. -/
def Operator.taken (o : Operator) : List String :=
  Dynamic.inScope o ++ if 1 < o.split then ["coreid"] else []

namespace Dynamic

variable {site : Site} {s : State} {e : TilingEntry} {o : Operator} {v : VariantRef}

/-- What a name stands for in the code of a static operator. -/
theorem named_resolved (count : Nat) : Body.named site ⟨[], []⟩ (o.resolved e count) v
    = if 1 < o.split ∧ e.functions.symbol v = "coreid" then .word site.core
      else .function (e.functions.symbol v) := by
  unfold Body.named State.inChain State.evaluate
  change (List.lookup (e.functions.symbol v)
    (if max o.split 1 ≤ 1 then (⟨[], []⟩ : State) else _).env).getD (.function (e.functions.symbol v)) = _
  by_cases hsplit : 1 < o.split
  · have hmax : ¬max o.split 1 ≤ 1 := by omega
    by_cases hcore : e.functions.symbol v = "coreid" <;> simp [hsplit, hmax, hcore, State.declare]
  · have hmax : max o.split 1 ≤ 1 := by omega
    simp [hsplit, hmax]

theorem mem_storedVariants_of_variant? {count : Nat}
    (hv : v ∈ site.variant? e.kernelType count o.split) : v ∈ storedVariants e o.split := by
  unfold Site.variant? at hv
  split at hv
  next hblock =>
    cases Option.some.inj hv
    exact mem_storedVariants.mpr ⟨Nat.mod_lt _ (by omega), hblock.1⟩
  · cases hv

/-- A function whose name no variable has is called in both ways. -/
theorem storedIn_of_notMem {start : VariantRef → Value} {before : Value}
    (hchosen : Chosen site e o.split (searching o start before) s) (hv : v ∈ storedVariants e o.split)
    (hfree : e.functions.symbol v ∉ o.taken) (count : Nat) :
    storedIn s v = Body.named site ⟨[], []⟩ (o.resolved e count) v := by
  have hscope : e.functions.symbol v ∉ inScope o := fun h => hfree (List.mem_append_left _ h)
  have hcore : ¬(1 < o.split ∧ e.functions.symbol v = "coreid") := by
    rintro ⟨hsplit, hname⟩
    exact hfree (List.mem_append_right _ (by rw [if_pos hsplit, hname]; exact List.mem_cons_self))
  rw [named_resolved, if_neg hcore, storedIn, hchosen.visible v hv (names_searching ▸ hscope),
    Option.getD_some]

theorem coreid_notMem_inScope : "coreid" ∉ inScope o := by
  intro h
  simp only [inScope, switchRoutine, List.map_append, List.map_map, List.mem_append, List.mem_map] at h
  obtain h | (h | ⟨v, _, hname⟩) | h := h
  · exact absurd h (by decide)
  · exact absurd h (by decide)
  · exact VariantRef.address_ne (by decide) v hname
  · exact absurd h (by decide)

/-- Before anything is chosen, no variable has the address of a function. -/
theorem clean_searching : Clean (searching o (fun _ => .word 0) (.word 0)).env := by
  intro x symbol hx
  have hmem := Env.mem_of_lookup hx
  simp [searching] at hmem

/-- A function whose name a variable has is called in one of both ways only. -/
theorem storedIn_of_mem (hchosen : Chosen site e o.split (searching o (fun _ => .word 0) (.word 0)) s)
    (hv : v ∈ storedVariants e o.split) (htaken : e.functions.symbol v ∈ o.taken) (count : Nat) :
    storedIn s v ≠ Body.named site ⟨[], []⟩ (o.resolved e count) v := by
  rw [named_resolved]
  by_cases hscope : e.functions.symbol v ∈ inScope o
  · -- A variable of the choice: something else than the function is stored.
    have hcore : ¬(1 < o.split ∧ e.functions.symbol v = "coreid") := fun h =>
      coreid_notMem_inScope (h.2 ▸ hscope)
    have hhidden := hchosen.hidden clean_searching v hv (names_searching ▸ hscope)
    rw [if_neg hcore, storedIn]
    intro hsame
    cases hlookup : s.env.lookup v.address with
    | none => simp [hlookup] at hsame
    | some w =>
      rw [hlookup, Option.getD_some] at hsame
      exact hhidden (hlookup.trans (congrArg some hsame))
  · -- The core number: the function is stored, and a number is called.
    have hcore : 1 < o.split ∧ e.functions.symbol v = "coreid" := by
      have hmem := (List.mem_append.mp htaken).resolve_left hscope
      by_cases hsplit : 1 < o.split
      · rw [if_pos hsplit] at hmem
        exact ⟨hsplit, List.mem_singleton.mp hmem⟩
      · rw [if_neg hsplit] at hmem
        cases hmem
    rw [if_pos hcore, storedIn, hchosen.visible v hv (names_searching ▸ hscope), Option.getD_some]
    nofun

theorem staticCalls_resolved (hcallable : e.Callable) {arch : Option Domain}
    (harch : ∀ a ∈ arch, a = site.domain) (count offset : Nat) (feeds : Bool) :
    (o.resolved e count).staticCalls site offset feeds arch
      = some (calling (Body.named site ⟨[], []⟩ (o.resolved e count)) (UInt64.ofNat offset)
        (site.variant? e.kernelType count o.split)) := by
  rw [Operator.staticCalls, Body.exec_callStatic (o := o.resolved e count) harch hcallable]
  rfl

theorem calling_eq_iff {f g : VariantRef → Value} {offset : UInt64} {v? : Option VariantRef} :
    calling f offset v? = calling g offset v? ↔ ∀ v ∈ v?, f v = g v := by
  cases v? <;> simp [calling]

end Dynamic

/-- CORRECT (exact condition): a dynamic operator of a launch calls on every unit the variant that a static
one would call, with the type and functions of the entry of the key and the block count of the host. It
is the same function, whatever the variables had before, exactly if none of them has its name. -/
theorem Launch.dynamicCalls_eq_staticCalls_iff {r : Request} {l : Launch}
    (hl : Generator.launch r = .ok l) {op : Nat} (hdynamic : (l.operator op).isDynamic = true)
    {e : TilingEntry} (he : e ∈ (l.operator op).tiling) {site : Site}
    (hlock : site.cells .readyLock = UInt64.ofNat LockState.ready.value)
    (hkey : site.cells .tilingKey = UInt64.ofNat e.key)
    (hcount : (site.cells .blockCount).toNat < UInt32.size) {arch : Option Domain}
    (harch : ∀ a ∈ arch, a = site.domain) (offset : Nat) (feeds : Bool) :
    ∃ calls, ((l.operator op).resolved e (site.cells .blockCount).toNat).staticCalls site offset feeds arch
        = some calls ∧
      (∀ start before, ∃ calls', (l.operator op).dynamicCalls site start before offset = some calls' ∧
        calls'.length = calls.length) ∧
      ((∀ start before, (l.operator op).dynamicCalls site start before offset = some calls) ↔
        ∀ v ∈ site.variant? e.kernelType (site.cells .blockCount).toNat (l.operator op).split,
          e.functions.symbol v ∉ (l.operator op).taken) := by
  have htiled := Generator.launch_tiled hl hdynamic
  have hlock' : (site.cells .readyLock).toNat = LockState.ready.value := by rw [hlock]; rfl
  have hkey' : (site.cells .tilingKey).toNat = e.key := by
    rw [hkey, UInt64.toNat_ofNat_of_lt' (htiled.bounded e he)]
  have hrun := Dynamic.dynamicCalls_eq htiled he hlock' hkey' hcount
  refine ⟨_, Dynamic.staticCalls_resolved (htiled.callable e he) harch _ offset feeds,
    fun start before => ?_, fun h v hv htaken => ?_, fun h start before => ?_⟩
  · obtain ⟨s, _, hs⟩ := hrun start before offset
    exact ⟨_, hs, by simp [calling]⟩
  · obtain ⟨s, hchosen, hs⟩ := hrun (fun _ => .word 0) (.word 0) offset
    rw [h] at hs
    exact Dynamic.storedIn_of_mem hchosen (Dynamic.mem_storedVariants_of_variant? hv) htaken _
      (Dynamic.calling_eq_iff.mp (Option.some.inj hs) v hv).symm
  · obtain ⟨s, hchosen, hs⟩ := hrun start before offset
    rw [hs]
    exact congrArg some (Dynamic.calling_eq_iff.mpr fun v hv => Dynamic.storedIn_of_notMem hchosen
      (Dynamic.mem_storedVariants_of_variant? hv) (h v hv) _)

namespace Launch

/-- A vector unit of the second block, on the fourth core. -/
def fourthCore : Site :=
  ⟨.vector, fun _ => 1, 3, fun
    | .tilingKey => 5
    | .blockCount => 2
    | .readyLock => 1⟩

def distinctEntry : TilingEntry := ⟨5, .mixAic12, ⟨some "only_vec", some "only_cube"⟩⟩

def distinctRequest : Request :=
  .ofOperators "" [.choosing "only" .mixAic12 [⟨5, KernelType.mixAic12.name, distinctEntry.functions⟩]]

/-- The fourth core calls the fourth variant, in both ways. -/
theorem distinctRequest_agrees : ∃ l, Generator.launch distinctRequest = .ok l ∧
    (l.operator 0).isDynamic = true ∧ distinctEntry ∈ (l.operator 0).tiling ∧
    ((l.operator 0).resolved distinctEntry 2).staticCalls fourthCore 6 false none
      = some [⟨.function "only_vec_split3", 6⟩] ∧
    ∀ start before, (l.operator 0).dynamicCalls fourthCore start before 6
      = some [⟨.function "only_vec_split3", 6⟩] := by
  obtain ⟨l, hl, htest⟩ : ∃ l, Generator.launch distinctRequest = .ok l ∧
      decide ((l.operator 0).isDynamic = true ∧ distinctEntry ∈ (l.operator 0).tiling ∧
        ((l.operator 0).resolved distinctEntry 2).staticCalls fourthCore 6 false none
          = some [⟨.function "only_vec_split3", 6⟩] ∧
        ∀ v ∈ (fourthCore.variant? .mixAic12 2 (l.operator 0).split).toList,
          distinctEntry.functions.symbol v ∉ (l.operator 0).taken) = true :=
    Generator.exists_of_test (by decide +kernel)
  obtain ⟨hdynamic, he, hstatic, hfree⟩ := of_decide_eq_true htest
  have hlock : fourthCore.cells .readyLock = UInt64.ofNat LockState.ready.value := rfl
  have hkey : fourthCore.cells .tilingKey = UInt64.ofNat distinctEntry.key := rfl
  have hcount : (fourthCore.cells .blockCount).toNat < UInt32.size := by decide
  have harch : ∀ a ∈ (none : Option Domain), a = fourthCore.domain := nofun
  obtain ⟨calls, hcalls, _, hiff⟩ :=
    dynamicCalls_eq_staticCalls_iff hl hdynamic he hlock hkey hcount harch 6 false
  obtain rfl := Option.some.inj (hcalls.symm.trans hstatic)
  exact ⟨l, hl, hdynamic, he, hstatic, hiff.mpr fun v hv => hfree v (Option.mem_toList.mpr hv)⟩

def capturedEntry : TilingEntry := ⟨5, .aivOnly, ⟨some "aiv_func_addr", none⟩⟩

def capturedRequest : Request :=
  .ofOperators "" [.choosing "only" .aivOnly [⟨5, KernelType.aivOnly.name, capturedEntry.functions⟩]]

/-- The request is accepted, and the variable that was to have the address is stored in itself. -/
theorem capturedRequest_diverges : ∃ l, Generator.launch capturedRequest = .ok l ∧
    (l.operator 0).isDynamic = true ∧ capturedEntry ∈ (l.operator 0).tiling ∧
    ((l.operator 0).resolved capturedEntry 2).staticCalls fourthCore 6 false none
      = some [⟨.function "aiv_func_addr_split3", 6⟩] ∧
    (l.operator 0).dynamicCalls fourthCore (fun _ => .word 0) (.word 0) 6 = some [⟨.word 0, 6⟩] := by
  obtain ⟨l, hl, htest⟩ : ∃ l, Generator.launch capturedRequest = .ok l ∧
      decide ((l.operator 0).isDynamic = true ∧ capturedEntry ∈ (l.operator 0).tiling ∧
        ((l.operator 0).resolved capturedEntry 2).staticCalls fourthCore 6 false none
          = some [⟨.function "aiv_func_addr_split3", 6⟩] ∧
        (l.operator 0).dynamicCalls fourthCore (fun _ => .word 0) (.word 0) 6
          = some [⟨.word 0, 6⟩]) = true :=
    Generator.exists_of_test (by decide +kernel)
  exact ⟨l, hl, of_decide_eq_true htest⟩

end Launch

end KernelFusion
