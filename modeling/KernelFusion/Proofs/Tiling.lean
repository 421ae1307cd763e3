import KernelFusion.Proofs.Launch

/-!
The tables of dynamic operators in accepted requests.

The checks of a request see to it that keys are not repeated and that every entry has the functions of
its kernel type. Resolving an operator sorts the entries, so that keys increase along the table.
-/

namespace KernelFusion

theorem mapM_eq_ok {α β : Type} {f : α → Except Error β} {xs : List α} {ys : List β}
    (h : xs.mapM f = .ok ys) : List.Forall₂ (fun x y => f x = .ok y) xs ys := by
  induction xs generalizing ys with
  | nil =>
    cases Except.ok.inj h
    exact .nil
  | cons x xs ih =>
    rw [List.mapM_cons] at h
    obtain ⟨y, hy, h⟩ := bind_eq_ok.mp h
    obtain ⟨ys, hys, h⟩ := bind_eq_ok.mp h
    cases Except.ok.inj h
    exact .cons hy (ih hys)

theorem mapM_map_eq_some {α β γ : Type} {f : β → Option γ} {name : α → β} {g : α → γ} {as : List α}
    (h : ∀ a ∈ as, f (name a) = some (g a)) : (as.map name).mapM f = some (as.map g) := by
  induction as with
  | nil => rfl
  | cons a as ih =>
    obtain ⟨ha, has⟩ := List.forall_mem_cons.mp h
    rw [List.map_cons, List.mapM_cons, ha, ih has]
    rfl

theorem exists_of_forall₂ {α β : Type} {p : α → β → Prop} {xs : List α} {ys : List β}
    (h : List.Forall₂ p xs ys) {y : β} (hy : y ∈ ys) : ∃ x ∈ xs, p x y := by
  induction h with
  | nil => cases hy
  | @cons x y' xs ys hxy _ ih =>
    rcases List.mem_cons.mp hy with rfl | hy
    · exact ⟨x, List.mem_cons_self, hxy⟩
    · obtain ⟨x', hx', hp⟩ := ih hy
      exact ⟨x', List.mem_cons_of_mem _ hx', hp⟩

/-- A refusal in front of a computation. -/
theorem refuse_eq_ok {α : Type} {c : Prop} [Decidable c] {e : Error} {f : PUnit → Except Error α} {a : α}
    (h : (if c then throw e >>= f else f ⟨⟩) = .ok a) : ¬c ∧ f ⟨⟩ = .ok a := by
  by_cases hc : c
  · rw [if_pos hc] at h
    cases h
  · rw [if_neg hc] at h
    exact ⟨hc, h⟩

/-- An entry has functions for all domains of its kernel type. -/
def TilingEntry.Callable (e : TilingEntry) : Prop :=
  ∀ d ∈ e.kernelType.affinity.domains, ∃ base, e.functions.get? d = some base

/-- A table in which an entry can be searched by its key, and called. -/
structure Tiled (table : List TilingEntry) : Prop where
  increasing : table.Pairwise fun a b => a.key < b.key
  bounded : ∀ e ∈ table, e.key < UInt64.size
  callable : ∀ e ∈ table, e.Callable

/-! ### What the checks see to -/

theorem checkFunctions_ok {operator : String} {t : KernelType} {f : FunctionNames}
    (h : checkFunctions operator t f = .ok ()) :
    ∀ d ∈ t.affinity.domains, ∃ base, f.get? d = some base := by
  intro d hd
  have hcheck := forM_ok_iff.mp h d hd
  cases hbase : f.get? d with
  | none =>
    rw [hbase] at hcheck
    cases hcheck
  | some base => exact ⟨base, rfl⟩

namespace OperatorDescriptor

/-- The cases of a table have keys of their own, and functions for their kernel types. -/
theorem checkCases_ok {operator : String} {seen : List UInt64} {cs : List TilingCase}
    (h : checkCases operator seen cs = .ok ()) :
    (cs.map TilingCase.tilingKey).Nodup ∧ (∀ c ∈ cs, c.tilingKey ∉ seen) ∧
      ∀ c ∈ cs, ∀ t, resolveType operator c.kernelType = .ok t →
        checkFunctions operator t c.functions = .ok () := by
  induction cs generalizing seen with
  | nil => simp
  | cons c cs ih =>
    rw [checkCases] at h
    obtain ⟨hseen, h⟩ := refuse_eq_ok h
    obtain ⟨t, htype, h⟩ := bind_eq_ok.mp h
    obtain ⟨_, hfunctions, h⟩ := bind_eq_ok.mp h
    obtain ⟨hnodup, hrest, hcases⟩ := ih h
    have hnew : c.tilingKey ∉ seen := by simpa using hseen
    refine ⟨List.nodup_cons.mpr ⟨?_, hnodup⟩, List.forall_mem_cons.mpr ⟨hnew, ?_⟩,
      List.forall_mem_cons.mpr ⟨?_, hcases⟩⟩
    · intro hmem
      obtain ⟨c', hc', hkey⟩ := List.mem_map.mp hmem
      exact hrest c' hc' (hkey ▸ List.mem_cons_self)
    · exact fun c' hc' hmem => hrest c' hc' (List.mem_cons_of_mem _ hmem)
    · intro t' ht'
      cases Except.ok.inj (htype.symm.trans ht')
      exact hfunctions

theorem check_cases {o : OperatorDescriptor} (h : o.check = .ok ()) (hdynamic : o.isDynamic = true) :
    checkCases o.name [] o.tiling = .ok () := by
  rw [check] at h
  obtain ⟨_, h⟩ := refuse_eq_ok h
  obtain ⟨t, _, h⟩ := bind_eq_ok.mp h
  obtain ⟨_, hdispatch, _⟩ := bind_eq_ok.mp h
  rw [checkDispatch, if_pos hdynamic] at hdispatch
  split at hdispatch
  · cases hdispatch
  · exact hdispatch

theorem check_static {o : OperatorDescriptor} (h : o.check = .ok ()) (hstatic : o.isDynamic = false)
    {t : KernelType} (ht : o.resolvedType = .ok t) : checkFunctions o.name t o.functions = .ok () := by
  rw [check] at h
  obtain ⟨_, h⟩ := refuse_eq_ok h
  obtain ⟨t', ht', h⟩ := bind_eq_ok.mp h
  obtain ⟨_, hdispatch, _⟩ := bind_eq_ok.mp h
  cases ht.symm.trans ht'
  rw [checkDispatch, if_neg (by simp [hstatic])] at hdispatch
  split at hdispatch
  · cases hdispatch
  split at hdispatch
  · cases hdispatch
  · exact hdispatch

end OperatorDescriptor

/-! ### Resolved tables -/

namespace Operator

theorem tilingEntry_eq_ok {operator : String} {c : TilingCase} {e : TilingEntry}
    (h : tilingEntry operator c = .ok e) : e.key = c.tilingKey.toNat ∧ e.functions = c.functions ∧
      resolveType operator c.kernelType = .ok e.kernelType := by
  obtain ⟨t, ht, h⟩ := bind_eq_ok.mp h
  cases Except.ok.inj h
  exact ⟨rfl, rfl, ht⟩

theorem keys_eq {operator : String} {cs : List TilingCase} {entries : List TilingEntry}
    (h : List.Forall₂ (fun c e => tilingEntry operator c = .ok e) cs entries) :
    entries.map TilingEntry.key = (cs.map TilingCase.tilingKey).map UInt64.toNat := by
  induction h with
  | nil => rfl
  | cons hentry _ ih => simp [ih, (tilingEntry_eq_ok hentry).1]

theorem sortEntries_increasing {entries : List TilingEntry}
    (h : (entries.map TilingEntry.key).Nodup) : (sortEntries entries).Pairwise fun a b => a.key < b.key := by
  have hperm : (sortEntries entries).Perm entries := List.mergeSort_perm _ _
  have hle : (sortEntries entries).Pairwise fun a b => a.key ≤ b.key := by
    refine (List.pairwise_mergeSort ?_ ?_ entries).imp of_decide_eq_true
    · simp only [decide_eq_true_eq]
      exact fun a b c => Nat.le_trans
    · simp only [Bool.or_eq_true, decide_eq_true_eq]
      exact fun a b => Nat.le_total a.key b.key
  have hne : (sortEntries entries).Pairwise fun a b => a.key ≠ b.key :=
    List.pairwise_map.mp ((hperm.map TilingEntry.key).nodup_iff.mpr h)
  exact (hle.and hne).imp fun ⟨hab, hab'⟩ => Nat.lt_of_le_of_ne hab hab'

/-- Checked cases resolve to a table that can be searched. -/
theorem tiled_sortEntries {operator : String} {cs : List TilingCase} {entries : List TilingEntry}
    (hcheck : OperatorDescriptor.checkCases operator [] cs = .ok ())
    (hentries : cs.mapM (tilingEntry operator) = .ok entries) : Tiled (sortEntries entries) := by
  obtain ⟨hnodup, _, hfunctions⟩ := OperatorDescriptor.checkCases_ok hcheck
  have hall := mapM_eq_ok hentries
  have hperm : (sortEntries entries).Perm entries := List.mergeSort_perm _ _
  have hcase : ∀ e ∈ sortEntries entries, ∃ c ∈ cs, tilingEntry operator c = .ok e := by
    intro e he
    exact exists_of_forall₂ hall (hperm.mem_iff.mp he)
  refine ⟨sortEntries_increasing ?_, fun e he => ?_, fun e he => ?_⟩
  · rw [keys_eq hall]
    exact hnodup.map fun a b hab => UInt64.toNat_inj.mp hab
  · obtain ⟨c, _, hentry⟩ := hcase e he
    rw [(tilingEntry_eq_ok hentry).1]
    exact c.tilingKey.toNat_lt
  · obtain ⟨c, hc, hentry⟩ := hcase e he
    obtain ⟨_, hsame, htype⟩ := tilingEntry_eq_ok hentry
    rw [TilingEntry.Callable, hsame]
    exact checkFunctions_ok (hfunctions c hc _ htype)

section

variable {options : Options} {units : Units} {index : Nat} {d : OperatorDescriptor} {o : Operator}

/-- What an operator has from its descriptor and how it is run. -/
theorem ofDescriptor_eq_ok (h : ofDescriptor options units index d = .ok o) :
    d.resolvedType = .ok o.kernelType ∧ dispatchOf d o.kernelType units = .ok (o.dispatch, o.blockCount) ∧
      o.functions = d.functions ∧ o.split = options.splitMode := by
  obtain ⟨t, ht, h⟩ := bind_eq_ok.mp h
  obtain ⟨_, _, h⟩ := bind_eq_ok.mp h
  obtain ⟨_, _, h⟩ := bind_eq_ok.mp h
  obtain ⟨⟨dispatch, count⟩, hdispatch, h⟩ := bind_eq_ok.mp h
  cases Except.ok.inj h
  exact ⟨ht, hdispatch, rfl, rfl⟩

theorem isDynamic_ofDescriptor (h : ofDescriptor options units index d = .ok o) :
    o.isDynamic = d.isDynamic := by
  obtain ⟨_, hdispatch, _⟩ := ofDescriptor_eq_ok h
  unfold dispatchOf at hdispatch
  split at hdispatch
  next hd =>
    obtain ⟨entries, _, heq⟩ := bind_eq_ok.mp hdispatch
    rw [isDynamic, ← (Prod.mk.inj (Except.ok.inj heq)).1, hd]
  next hd =>
    rw [isDynamic, ← (Prod.mk.inj (Except.ok.inj hdispatch)).1, Bool.eq_false_iff.mpr hd]

theorem ofDescriptor_static (h : ofDescriptor options units index d = .ok o)
    (hstatic : o.isDynamic = false) :
    d.isDynamic = false ∧ d.resolvedType = .ok o.kernelType ∧ o.functions = d.functions := by
  obtain ⟨htype, _, hfunctions, _⟩ := ofDescriptor_eq_ok h
  exact ⟨(isDynamic_ofDescriptor h).symm.trans hstatic, htype, hfunctions⟩

theorem name_ofDescriptor (h : ofDescriptor options units index d = .ok o) : o.name = d.name := by
  obtain ⟨_, _, h⟩ := bind_eq_ok.mp h
  obtain ⟨_, _, h⟩ := bind_eq_ok.mp h
  obtain ⟨_, _, h⟩ := bind_eq_ok.mp h
  obtain ⟨_, _, h⟩ := bind_eq_ok.mp h
  cases Except.ok.inj h
  rfl

theorem ofDescriptor_tiling (h : ofDescriptor options units index d = .ok o) (hdynamic : o.isDynamic = true) :
    d.isDynamic = true ∧ ∃ entries, d.tiling.mapM (tilingEntry d.name) = .ok entries ∧
      o.tiling = sortEntries entries := by
  have hd : d.isDynamic = true := (isDynamic_ofDescriptor h).symm.trans hdynamic
  obtain ⟨_, hdispatch, _⟩ := ofDescriptor_eq_ok h
  rw [dispatchOf, if_pos hd] at hdispatch
  obtain ⟨entries, hentries, heq⟩ := bind_eq_ok.mp hdispatch
  refine ⟨hd, entries, hentries, ?_⟩
  rw [tiling, ← (Prod.mk.inj (Except.ok.inj heq)).1]

end

theorem ofDescriptors_mem {options : Options} {units : Units} {index : Nat}
    {ds : List OperatorDescriptor} {ops : List Operator} {o : Operator}
    (h : ofDescriptors options units index ds = .ok ops) (ho : o ∈ ops) :
    ∃ d ∈ ds, ∃ i, ofDescriptor options units i d = .ok o := by
  induction ds generalizing index ops with
  | nil =>
    cases Except.ok.inj h
    cases ho
  | cons d ds ih =>
    obtain ⟨first, hfirst, h⟩ := bind_eq_ok.mp h
    obtain ⟨rest, hrest, h⟩ := bind_eq_ok.mp h
    cases Except.ok.inj h
    rcases List.mem_cons.mp ho with rfl | ho
    · exact ⟨d, List.mem_cons_self, index, hfirst⟩
    · obtain ⟨d', hd', hi⟩ := ih hrest ho
      exact ⟨d', List.mem_cons_of_mem _ hd', hi⟩

end Operator

theorem Request.check_operators {r : Request} (h : r.check = .ok ()) :
    ∀ d ∈ r.operators, d.check = .ok () := by
  rw [check] at h
  obtain ⟨_, h⟩ := refuse_eq_ok h
  obtain ⟨_, h⟩ := refuse_eq_ok h
  obtain ⟨_, h⟩ := refuse_eq_ok h
  obtain ⟨_, hoperators, _⟩ := bind_eq_ok.mp h
  exact forM_ok_iff.mp hoperators

/-- Every dynamic operator of a launch has a table that can be searched. -/
theorem Generator.launch_tiled {r : Request} {l : Launch} (h : launch r = .ok l) {op : Nat}
    (hdynamic : (l.operator op).isDynamic = true) : Tiled (l.operator op).tiling := by
  obtain ⟨options, ops, hcheck, hops, haccepted, _⟩ := launch_eq_ok h
  have hmem : l.operator op ∈ ops :=
    haccepted.spec.1 ▸ Launch.operator_mem (Launch.lt_size_of_isDynamic hdynamic)
  obtain ⟨d, hd, i, hofDescriptor⟩ := Operator.ofDescriptors_mem hops hmem
  obtain ⟨hdynamic', entries, hentries, htiling⟩ := Operator.ofDescriptor_tiling hofDescriptor hdynamic
  have hcases := OperatorDescriptor.check_cases (Request.check_operators hcheck d hd) hdynamic'
  rw [htiling]
  exact Operator.tiled_sortEntries hcases hentries

end KernelFusion
