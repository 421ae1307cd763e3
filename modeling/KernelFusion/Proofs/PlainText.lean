import KernelFusion.Proofs.CodePieces
import KernelFusion.Proofs.ProperNames

/-!
Text without braces.

Blocks of device code are opened and closed by braces. All braces of a schedule's code are those that
open and close its blocks: statements, conditions and the heads of blocks have none. What a request adds
to them are names, and these are identifiers.
-/

namespace KernelFusion

namespace Text

def Plain (s : String) : Prop := ∀ c ∈ s.toList, c ≠ '\x7b' ∧ c ≠ '\x7d'

def isPlainChar (c : Char) : Bool := c != '\x7b' && c != '\x7d'

/-- A text that is given by its characters, as a literal is. -/
theorem plain_literal {cs : List Char} (h : cs.all isPlainChar = true) : Plain (String.ofList cs) := by
  intro c hc
  rw [String.toList_ofList] at hc
  simpa [isPlainChar] using List.all_eq_true.mp h c hc

theorem Plain.append {a b : String} (ha : Plain a) (hb : Plain b) : Plain (a ++ b) := by
  intro c hc
  rw [String.toList_append, List.mem_append] at hc
  exact hc.elim (ha c) (hb c)

theorem plain_nil : Plain "" := plain_literal (by simp)

theorem plain_ite {c : Prop} [Decidable c] {a b : String} (ha : Plain a) (hb : Plain b) :
    Plain (if c then a else b) := by
  split
  · exact ha
  · exact hb

theorem plain_nat (n : Nat) : Plain (toString n) := by
  change Plain (String.ofList (Nat.toDigits 10 n))
  refine plain_literal (List.all_eq_true.mpr fun c hc => ?_)
  have hdigit : c.isDigit = true := Nat.isDigit_of_mem_toDigits (by decide) (by decide) hc
  have hplain : c ≠ '\x7b' ∧ c ≠ '\x7d' := by
    constructor <;> rintro rfl <;> exact absurd hdigit (by decide)
  simpa [isPlainChar] using hplain

theorem plain_bool (b : Bool) : Plain (toString b) := by
  cases b <;> exact plain_literal (by decide)

theorem plain_intercalate {sep : String} {parts : List String} (hsep : Plain sep)
    (hparts : ∀ s ∈ parts, Plain s) : Plain (sep.intercalate parts) := by
  intro c hc
  rw [String.toList_intercalate] at hc
  induction parts with
  | nil => simp [List.intercalate] at hc
  | cons s parts ih =>
    obtain ⟨hs, hparts⟩ := List.forall_mem_cons.mp hparts
    cases parts with
    | nil => exact hs c (by simpa [List.intercalate] using hc)
    | cons s' parts =>
      rw [List.map_cons, List.map_cons, List.intercalate_cons_cons, List.mem_append, List.mem_append] at hc
      rcases hc with (hc | hc) | hc
      · exact hs c hc
      · exact hsep c hc
      · exact ih hparts hc

theorem plain_of_all {s : String} (h : s.toList.all (fun c => isLetter c || c.isDigit) = true) :
    Plain s := by
  intro c hc
  have hc := List.all_eq_true.mp h c hc
  constructor <;> rintro rfl <;> exact absurd hc (by decide)

end Text

open Text

/-! ### Words of the device -/

theorem Domain.plain_guard (d : Domain) : Plain d.guard := by
  cases d <;> exact plain_literal (by decide)

theorem Domain.plain_arch (d : Domain) : Plain d.arch := by
  cases d <;> exact plain_literal (by decide)

theorem BlockIndex.plain_function (index : BlockIndex) : Plain index.function := by
  cases index <;> exact plain_literal (by decide)

theorem plain_variantSymbol {base : String} (hbase : Plain base) (i : Nat) :
    Plain (variantSymbol base i) := by
  unfold variantSymbol
  split
  · exact hbase
  · exact .append (.append hbase (plain_literal (by decide))) (plain_nat i)

namespace VariantRef

variable (v : VariantRef)

theorem plain_address : Plain v.address :=
  plain_variantSymbol (.append v.domain.plain_arch (plain_literal (by decide))) _

theorem plain_parameter : Plain v.parameter := by
  refine plain_variantSymbol (.append (.append ?_ v.domain.plain_arch) ?_) _ <;>
    exact plain_literal (by decide)

theorem plain_pointer : Plain v.pointer :=
  plain_variantSymbol (.append v.domain.plain_arch (plain_literal (by decide))) _

end VariantRef

/-! ### Statements, conditions, heads -/

/-- What a statement takes from elsewhere has no braces. -/
def Stmt.Plain : Stmt → Prop
  | .text line => Text.Plain line
  | .bindCell cell expression _ => Text.Plain cell ∧ Text.Plain expression
  | .call symbol _ => Text.Plain symbol
  | .prefetch symbol _ => Text.Plain symbol
  | .setAddress _ symbol => Text.Plain symbol
  | _ => True

theorem Stmt.plain_render {s : Stmt} (h : s.Plain) : Text.Plain s.render := by
  -- the text of each is literal parts with names and numbers between them
  cases s with
  | text line => exact h
  | bindCell cell expression isVolatile =>
    refine .append (.append (.append (.append (.append (.append ?_ ?_) ?_) h.1) ?_) h.2) ?_
    case refine_2 => cases isVolatile <;> exact plain_literal (by decide)
    all_goals exact plain_literal (by decide)
  | readCore => exact plain_literal (by decide)
  | call symbol n =>
    refine .append (.append (.append h ?_) (plain_nat n)) ?_ <;> exact plain_literal (by decide)
  | prefetch symbol n =>
    refine .append (.append (.append (.append ?_ h) ?_) (plain_nat n)) ?_ <;> exact plain_literal (by decide)
  | prefetchVariant v n =>
    refine .append (.append (.append (.append ?_ v.plain_address) ?_) (plain_nat n)) ?_ <;>
      exact plain_literal (by decide)
  | setAddress v symbol =>
    refine .append (.append (.append v.plain_address ?_) h) ?_ <;> exact plain_literal (by decide)
  | publish code => refine .append (.append ?_ (plain_nat code)) ?_ <;> exact plain_literal (by decide)
  | unpackClass => exact plain_literal (by decide)
  | unpackCount => exact plain_literal (by decide)
  | bindPointer v =>
    refine .append (.append (.append (.append ?_ v.plain_pointer) ?_) v.plain_parameter) ?_ <;>
      exact plain_literal (by decide)
  | callPointer v => exact .append v.plain_pointer (plain_literal (by decide))
  | feedArea skipped position =>
    have htarget : Text.Plain feedTarget := plain_literal (by decide)
    cases skipped with
    | none =>
      refine .append (.append (.append (.append (.append htarget ?_) (plain_nat position)) ?_)
        (plain_nat _)) ?_ <;> exact plain_literal (by decide)
    | some n =>
      refine .append (.append (.append (.append (.append (.append (.append (.append (.append htarget ?_)
        (plain_nat n)) ?_) (plain_nat _)) ?_) (plain_nat position)) ?_) (plain_nat _)) ?_ <;>
        exact plain_literal (by decide)

/-- As for statements. -/
def Cond.Plain : Cond → Prop
  | .blockBelow _ (.runtime e) => Text.Plain e
  | .present name => Text.Plain name
  | _ => True

theorem Cond.plain_text {c : Cond} (h : c.Plain) : Text.Plain c.text := by
  cases c with
  | onDomain d => exact d.plain_guard
  | blockBelow index limit =>
    have hlimit : Text.Plain limit.text := by
      cases limit with
      | count n => exact plain_nat n
      | runtime e => exact h
    refine .append (.append (.append (.append ?_ index.plain_function) ?_) hlimit) ?_ <;>
      exact plain_literal (by decide)
  | blockFrom index n =>
    refine .append (.append (.append (.append ?_ index.plain_function) ?_) (plain_nat n)) ?_ <;>
      exact plain_literal (by decide)
  | firstBlock index =>
    refine .append (.append ?_ index.plain_function) ?_ <;> exact plain_literal (by decide)
  | coreIs split remainder =>
    refine .append (.append (.append (.append ?_ (plain_nat split)) ?_) (plain_nat remainder)) ?_ <;>
      exact plain_literal (by decide)
  | keyIs key => refine .append (.append ?_ (plain_nat key)) ?_ <;> exact plain_literal (by decide)
  | keyBelow key => refine .append (.append ?_ (plain_nat key)) ?_ <;> exact plain_literal (by decide)
  | classIn codes =>
    refine .append (.append ?_ (plain_intercalate ?_ fun s hs => ?_)) ?_
    case refine_3 =>
      obtain ⟨code, _, rfl⟩ := List.mem_map.mp hs
      exact .append (plain_literal (by decide)) (plain_nat code)
    all_goals exact plain_literal (by decide)
  | always => exact plain_literal (by decide)
  | present name => refine .append (.append ?_ h) ?_ <;> exact plain_literal (by decide)

def Parameter.Plain (p : Parameter) : Prop := Text.Plain p.type ∧ Text.Plain p.name

/-- As for statements. -/
def Head.Plain : Head → Prop
  | .function signature => Text.Plain signature
  | .routine r => Text.Plain r.kind ∧ Text.Plain r.name ∧ ∀ p ∈ r.parameters, p.Plain
  | .spin cell _ => Text.Plain cell
  | .times bound => Text.Plain bound

theorem Parameter.plain_text {p : Parameter} (h : p.Plain) : Text.Plain p.text := by
  refine .append (.append (.append h.1 ?_) ?_) h.2
  · cases p.isReference <;> exact plain_literal (by decide)
  · exact plain_literal (by decide)

theorem Head.plain_text {head : Head} (h : head.Plain) : Text.Plain head.text := by
  cases head with
  | function signature => exact h
  | routine r =>
    have hparameters : Text.Plain (", ".intercalate (r.parameters.map Parameter.text)) := by
      refine plain_intercalate (plain_literal (by decide)) fun s hs => ?_
      obtain ⟨p, hp, rfl⟩ := List.mem_map.mp hs
      exact Parameter.plain_text (h.2.2 p hp)
    refine .append (.append (.append (.append (.append h.1 ?_) h.2.1) ?_) hparameters) ?_ <;>
      exact plain_literal (by decide)
  | spin cell value =>
    refine .append (.append (.append (.append ?_ h) ?_) (plain_nat value)) ?_ <;>
      exact plain_literal (by decide)
  | times bound => refine .append (.append ?_ h) ?_ <;> exact plain_literal (by decide)

end KernelFusion
