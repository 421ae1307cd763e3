import KernelFusion.Proofs.Tiling

/-!
Names in a launch.

What a request adds to the text of device code are the names of its operators and of their functions. A
request is accepted only if these are identifiers.
-/

namespace KernelFusion

/-- The functions that a kernel type uses have identifiers as names. -/
def FunctionNames.Proper (f : FunctionNames) (t : KernelType) : Prop :=
  ∀ d ∈ t.affinity.domains, ∀ base, f.get? d = some base → Text.isIdentifier base = true

theorem FunctionNames.proper_of_check {operator : String} {t : KernelType} {f : FunctionNames}
    (h : checkFunctions operator t f = .ok ()) : f.Proper t := by
  intro d hd base hbase
  have hcheck := forM_ok_iff.mp h d hd
  rw [hbase] at hcheck
  by_cases hname : Text.isIdentifier base = true
  · exact hname
  · simp [hname] at hcheck

namespace Operator

/-- The names of an operator that device code uses. -/
structure ProperNames (o : Operator) : Prop where
  name : o.name.toList.all (fun c => Text.isLetter c || c.isDigit) = true
  functions : o.isDynamic = false → o.functions.Proper o.kernelType
  table : ∀ e ∈ o.tiling, e.functions.Proper e.kernelType

theorem isDynamic_of_mem_tiling {o : Operator} {e : TilingEntry} (he : e ∈ o.tiling) :
    o.isDynamic = true := by
  cases hd : o.dispatch with
  | «static» => simp [tiling, hd] at he
  | dynamic table => rw [isDynamic, hd]

end Operator

theorem Text.all_of_isIdentifier {s : String} (h : isIdentifier s = true) :
    s.toList.all (fun c => isLetter c || c.isDigit) = true := by
  unfold isIdentifier at h
  split at h
  next => cases h
  next c cs hcs =>
    obtain ⟨hc, hall⟩ := Bool.and_eq_true_iff.mp h
    rw [hcs, List.all_cons, hall, hc]
    rfl

theorem OperatorDescriptor.isIdentifier_name {d : OperatorDescriptor} (h : d.check = .ok ()) :
    Text.isIdentifier d.name = true := by
  rw [check] at h
  obtain ⟨hname, _⟩ := refuse_eq_ok h
  simpa using hname

namespace Operator

theorem properNames_ofDescriptor {options : Options} {units : Units} {index : Nat}
    {d : OperatorDescriptor} {o : Operator} (h : ofDescriptor options units index d = .ok o)
    (hcheck : d.check = .ok ()) : o.ProperNames := by
  refine ⟨?_, fun hstatic => ?_, fun e he => ?_⟩
  · rw [name_ofDescriptor h]
    exact Text.all_of_isIdentifier (OperatorDescriptor.isIdentifier_name hcheck)
  · obtain ⟨hstatic', htype, hfunctions⟩ := ofDescriptor_static h hstatic
    rw [hfunctions]
    exact FunctionNames.proper_of_check (OperatorDescriptor.check_static hcheck hstatic' htype)
  · obtain ⟨hdynamic, entries, hentries, htiling⟩ := ofDescriptor_tiling h (isDynamic_of_mem_tiling he)
    have hcases := OperatorDescriptor.checkCases_ok (OperatorDescriptor.check_cases hcheck hdynamic)
    rw [htiling] at he
    have hmem : e ∈ entries := (List.mergeSort_perm entries _).mem_iff.mp he
    obtain ⟨c, hc, hentry⟩ := exists_of_forall₂ (mapM_eq_ok hentries) hmem
    obtain ⟨_, hfunctions, htype⟩ := tilingEntry_eq_ok hentry
    rw [hfunctions]
    exact FunctionNames.proper_of_check (hcases.2.2 c hc _ htype)

/-- A position without an operator has no names. -/
theorem properNames_default : (default : Operator).ProperNames where
  name := rfl
  functions := fun _ d _ base hbase => by cases d <;> cases hbase
  table := fun _ he => (List.not_mem_nil he).elim

end Operator

theorem Generator.launch_properNames {r : Request} {l : Launch} (hl : launch r = .ok l) (op : Nat) :
    (l.operator op).ProperNames := by
  obtain ⟨options, ops, hcheck, hops, haccepted, _⟩ := launch_eq_ok hl
  by_cases hop : op < l.graph.size
  · have hmem : l.operator op ∈ ops := haccepted.spec.1 ▸ Launch.operator_mem hop
    obtain ⟨d, hd, i, hofDescriptor⟩ := Operator.ofDescriptors_mem hops hmem
    exact Operator.properNames_ofDescriptor hofDescriptor (Request.check_operators hcheck d hd)
  · have hnone : l.graph.operators[op]? = none := List.getElem?_eq_none (Nat.le_of_not_lt hop)
    rw [Launch.operator, Graph.operator, List.getD_eq_getElem?_getD, hnone]
    exact Operator.properNames_default

end KernelFusion
