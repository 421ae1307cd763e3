import KernelFusion.Device.Body
import Mathlib.Data.List.Basic

/-!
What device code does on a unit.

A unit runs a body of code with the variables that are in scope. A variable hides a function of its
name, and goes out of scope with the block that declares it. Of all that a unit does, the calls are kept:
what was called, and the place of its arguments. A line of text calls nothing and changes no variable
that decides a call.

        scope   [(variable, value), …]     innermost first
        block   ─ enter ─ declare ─ … ─ leave ─     back to the variables from before
-/

namespace KernelFusion

namespace Device

/-- The cells that the host fills for a dynamic operator. -/
inductive Cell where | tilingKey | blockCount | readyLock
  deriving DecidableEq

inductive Value where
  | word (w : UInt64)
  /-- the address of a function -/
  | function (symbol : String)
  /-- the address of a cell -/
  | cell (c : Cell)
  deriving DecidableEq

/-- A unit that runs code, and what it finds in the cells. -/
structure Site where
  domain : Domain
  blockIndex : BlockIndex → Nat
  coreId : Nat
  cells : Cell → UInt64

/-- Variables in scope, the innermost first. -/
abbrev Env := List (String × Value)

structure Call where
  callee : Value
  /-- place of the arguments in the parameter table -/
  offset : UInt64
  deriving DecidableEq

structure State where
  env : Env
  calls : List Call
  deriving DecidableEq

namespace Env

def names (env : Env) : List String := env.map Prod.fst

/-- Changes the innermost variable of a name. -/
def assign (name : String) (v : Value) : Env → Option Env
  | [] => none
  | (k, w) :: rest => if k = name then some ((k, v) :: rest) else (assign name v rest).map ((k, w) :: ·)

variable {env env' : Env} {name x : String} {v : Value}

@[simp] theorem lookup_cons (k : String) : List.lookup x ((k, v) :: env)
    = if x = k then some v else List.lookup x env := by
  rw [List.lookup_cons]
  by_cases h : x = k
  · rw [if_pos h, beq_iff_eq.mpr h]
  · rw [if_neg h, beq_eq_false_iff_ne.mpr h]

theorem mem_names : name ∈ env.names ↔ ∃ v, env.lookup name = some v := by
  induction env with
  | nil => simp [names]
  | cons entry env ih =>
    obtain ⟨k, w⟩ := entry
    have hcons : name ∈ names ((k, w) :: env) ↔ name = k ∨ name ∈ names env := by simp [names]
    rw [hcons, lookup_cons, ih]
    by_cases h : name = k <;> simp [h]

theorem lookup_eq_none (h : name ∉ env.names) : env.lookup name = none := by
  rw [Option.eq_none_iff_forall_ne_some]
  exact fun v hv => h (mem_names.mpr ⟨v, hv⟩)

theorem mem_of_lookup (h : env.lookup name = some v) : (name, v) ∈ env := by
  induction env with
  | nil => cases h
  | cons entry env ih =>
    obtain ⟨k, w⟩ := entry
    rw [lookup_cons] at h
    split at h
    next hk => simp_all
    · exact List.mem_cons_of_mem _ (ih h)

theorem exists_assign (h : name ∈ env.names) (v : Value) : ∃ env', assign name v env = some env' := by
  induction env with
  | nil => simp [names] at h
  | cons entry env ih =>
    obtain ⟨k, w⟩ := entry
    by_cases hk : k = name
    · exact ⟨_, by rw [assign, if_pos hk]⟩
    · have hrest : name ∈ names env := by simpa [names, Ne.symm hk] using h
      obtain ⟨rest, hassign⟩ := ih hrest
      exact ⟨_, by rw [assign, if_neg hk, hassign, Option.map_some]⟩

theorem names_assign (h : assign name v env = some env') : env'.names = env.names := by
  induction env generalizing env' with
  | nil => cases h
  | cons entry env ih =>
    obtain ⟨k, w⟩ := entry
    rw [assign] at h
    split at h
    · cases h
      rfl
    · obtain ⟨rest, hrest, rfl⟩ := Option.map_eq_some_iff.mp h
      simpa [names] using ih hrest

theorem lookup_assign (h : assign name v env = some env') (x : String) :
    env'.lookup x = if x = name then some v else env.lookup x := by
  induction env generalizing env' with
  | nil => cases h
  | cons entry env ih =>
    obtain ⟨k, w⟩ := entry
    rw [assign] at h
    split at h
    next hk =>
      cases h
      by_cases hx : x = k <;> simp [hx, ← hk]
    next hk =>
      obtain ⟨rest, hrest, rfl⟩ := Option.map_eq_some_iff.mp h
      rw [lookup_cons, lookup_cons, ih hrest]
      by_cases hx : x = k
      · simp [hx, hk]
      · simp [hx]

/-- A name among those given to the elements of a list. -/
theorem lookup_map {α : Type} {f : α → String} (hf : Function.Injective f) (g : α → Value) {a : α}
    {as : List α} (ha : a ∈ as) (rest : Env) :
    List.lookup (f a) (as.map (fun a => (f a, g a)) ++ rest) = some (g a) := by
  induction as with
  | nil => cases ha
  | cons b as ih =>
    rw [List.map_cons, List.cons_append, lookup_cons]
    by_cases hab : f a = f b
    · rw [if_pos hab, hf hab]
    · rw [if_neg hab]
      exact ih ((List.mem_cons.mp ha).resolve_left fun h => hab (congrArg f h))

theorem lookup_map_of_ne {α : Type} {f : α → String} (g : α → Value) {as : List α}
    (hx : ∀ a ∈ as, f a ≠ x) (rest : Env) :
    List.lookup x (as.map (fun a => (f a, g a)) ++ rest) = List.lookup x rest := by
  induction as with
  | nil => rfl
  | cons b as ih =>
    rw [List.map_cons, List.cons_append, lookup_cons, if_neg (hx b List.mem_cons_self).symm]
    exact ih fun a ha => hx a (List.mem_cons_of_mem _ ha)

end Env

namespace State

/-- What a name stands for: a variable in scope, or else a function. -/
def evaluate (s : State) (name : String) : Value := (s.env.lookup name).getD (.function name)

def word? (s : State) (name : String) : Option UInt64 :=
  match s.env.lookup name with
  | some (.word w) => some w
  | _ => none

def declare (s : State) (name : String) (v : Value) : State := { s with env := (name, v) :: s.env }

def assign (s : State) (name : String) (v : Value) : Option State :=
  (Env.assign name v s.env).map fun env => { s with env := env }

def call (s : State) (callee : Value) (offset : UInt64) : State :=
  { s with calls := s.calls ++ [⟨callee, offset⟩] }

/-- Back in the block outside of one that has been run. -/
def leave (outer inner : State) : State :=
  { inner with env := inner.env.drop (inner.env.length - outer.env.length) }

theorem leave_of_length {outer inner : State} (h : inner.env.length = outer.env.length) :
    outer.leave inner = inner := by
  rw [leave, h, Nat.sub_self, List.drop_zero]

@[simp] theorem leave_refl (s : State) : s.leave s = s := leave_of_length rfl

@[simp] theorem leave_self (s : State) (calls : List Call) : s.leave ⟨s.env, calls⟩ = ⟨s.env, calls⟩ :=
  leave_of_length rfl

end State

namespace Site

/-- The core number that code reads. -/
def core (site : Site) : UInt64 := UInt64.ofNat (site.coreId % UInt8.size)

/-- The variant of several that the core number gives. -/
def variantOf (site : Site) (count : Nat) : Nat := site.coreId % UInt8.size % count

theorem toNat_core (site : Site) (count : Nat) : site.core.toNat % count = site.variantOf count := by
  have hlt : site.coreId % UInt8.size < UInt64.size :=
    Nat.lt_trans (Nat.mod_lt _ (by decide)) (by decide)
  rw [core, UInt64.toNat_ofNat_of_lt' hlt, variantOf]

/-- The content of the cell whose address a variable has. -/
def read? (site : Site) (s : State) (name : String) : Option UInt64 :=
  match s.env.lookup name with
  | some (.cell c) => some (site.cells c)
  | _ => none

end Site

/-- Runs something again and again; each time its variables are new. -/
def repeated (body : State → Option State) : Nat → State → Option State
  | 0, s => some s
  | n + 1, s => ((body s).map s.leave).bind (repeated body n)

end Device

open Device

/-- Whether a test passes, where it can be made. -/
def Cond.holds? (site : Site) (s : State) : Cond → Option Bool
  | .onDomain d => some (decide (site.domain = d))
  | .blockBelow index (.count n) => some (decide (site.blockIndex index < n))
  | .blockBelow index (.runtime e) => (s.word? e).map fun w => decide (site.blockIndex index < w.toNat)
  | .blockFrom index n => some (decide (n ≤ site.blockIndex index))
  | .firstBlock index => some (decide (site.blockIndex index = 0))
  | .coreIs split remainder => (s.word? "coreid").map fun w => decide (w.toNat % split = remainder)
  | .keyIs key => (site.read? s "tilingKeyAddr").map fun w => decide (w.toNat = key)
  | .keyBelow key => (site.read? s "tilingKeyAddr").map fun w => decide (w.toNat < key)
  | .classIn codes => (s.word? "kernelType").map fun w => codes.contains w.toNat
  | .always => some true
  | .present name => some (decide (s.evaluate name ≠ .word 0))

def Stmt.exec (site : Site) : Stmt → State → Option State
  | .text _, s => some s
  | .bindCell cell expression _, s => (s.env.lookup expression).map (s.declare cell)
  | .readCore, s => some (s.declare "coreid" (.word site.core))
  | .call symbol argsOffset, s => some (s.call (s.evaluate symbol) (UInt64.ofNat argsOffset))
  | .prefetch _ _, s => some s
  | .prefetchVariant _ _, s => some s
  | .setAddress v symbol, s => s.assign v.address (s.evaluate symbol)
  | .publish code, s => (site.read? s "blockNumAddr").bind fun n =>
      s.assign "dy_block_num" (.word (UInt64.ofNat code <<< 32 ||| n))
  | .unpackClass, s =>
      (s.word? "dy_block_num").map fun (w : UInt64) => s.declare "kernelType" (.word (w >>> 32))
  | .unpackCount, s =>
      (s.word? "dy_block_num").map fun (w : UInt64) => s.declare "numBlocks" (.word (w &&& 0xFFFFFFFF))
  | .bindPointer v, s => (s.env.lookup v.parameter).map (s.declare v.pointer)
  | .callPointer v, s => (s.env.lookup v.pointer).bind fun f => (s.word? "args_offset").map (s.call f)
  | .feedArea _ _, s => some s

/-- Blocks other than conditionals. The definition of a function runs nothing, and a wait for a cell ends
only if the cell has its value. -/
def Head.exec (site : Site) (body : State → Option State) : Head → State → Option State
  | .function _, s => some s
  | .routine _, s => some s
  | .spin cell value, s => (site.read? s cell).bind fun w => if w.toNat = value then some s else none
  | .times bound, s => (s.word? bound).bind fun w => repeated body w.toNat s

mutual

/-- The state behind a body of code; none where the unit does not come to its end. -/
def Code.exec (site : Site) : Code → State → Option State
  | .done, s => some s
  | .line st rest, s => (st.exec site s).bind (rest.exec site)
  | .blank rest, s => rest.exec site s
  | .block h body rest, s => (h.exec site (body.exec site) s).bind (rest.exec site)
  | .choose c yes more rest, s =>
    ((c.holds? site s).bind fun b =>
      (if b then yes.exec site s else more.exec site s).map s.leave).bind (rest.exec site)

def Arms.exec (site : Site) : Arms → State → Option State
  | .none, s => some s
  | .otherwise no, s => no.exec site s
  | .orWhen c yes more, s =>
    (c.holds? site s).bind fun b => if b then yes.exec site s else more.exec site s

end

/-- The variables of a function when it is called. -/
def Routine.frame (r : Routine) (arguments : List Value) : State :=
  ⟨(r.parameters.map Parameter.name).zip arguments, []⟩

/-- What the caller finds in the variables that it has lent to a function. -/
def Routine.stored (r : Routine) (s : State) : Option (List Value) :=
  ((r.parameters.filter Parameter.isReference).map Parameter.name).mapM fun name => s.env.lookup name

/-! ### Parts of code -/

namespace Code

variable {site : Site} {s s' : State}

theorem exec_append (a b : Code) (s : State) :
    (a ++ b).exec site s = (a.exec site s).bind (b.exec site) := by
  change (a.append b).exec site s = _
  cases a with
  | done => rfl
  | line st rest =>
    rw [append, exec, exec, Option.bind_assoc]
    exact congrArg _ (funext fun s => exec_append rest b s)
  | blank rest =>
    rw [append, exec, exec]
    exact exec_append rest b s
  | block h body rest =>
    rw [append, exec, exec, Option.bind_assoc]
    exact congrArg _ (funext fun s => exec_append rest b s)
  | choose c yes more rest =>
    simp only [append, exec, Option.bind_assoc]
    have hrest : (rest.append b).exec site = fun s => (rest.exec site s).bind (b.exec site) :=
      funext fun s => exec_append rest b s
    simp only [hrest]

@[simp] theorem exec_done : (done).exec site s = some s := rfl

@[simp] theorem exec_empty : empty.exec site s = some s := rfl

@[simp] theorem exec_stmts_nil : (stmts []).exec site s = some s := rfl

@[simp] theorem exec_stmts_cons (st : Stmt) (sts : List Stmt) :
    (stmts (st :: sts)).exec site s = (st.exec site s).bind ((stmts sts).exec site) := rfl

@[simp] theorem exec_stmt (st : Stmt) : (stmt st).exec site s = st.exec site s := by
  rw [stmt, exec]
  exact Option.bind_fun_some _

@[simp] theorem exec_text (line : String) : (text line).exec site s = some s := rfl

theorem exec_stmts_append (as bs : List Stmt) (s : State) :
    (stmts (as ++ bs)).exec site s = ((stmts as).exec site s).bind ((stmts bs).exec site) := by
  induction as generalizing s with
  | nil => rfl
  | cons a as ih =>
    rw [List.cons_append, exec_stmts_cons, exec_stmts_cons, Option.bind_assoc]
    exact congrArg _ (funext ih)

@[simp] theorem exec_concat_nil : (concat []).exec site s = some s := rfl

@[simp] theorem exec_concat_cons (c : Code) (cs : List Code) :
    (concat (c :: cs)).exec site s = (c.exec site s).bind ((concat cs).exec site) :=
  exec_append c (concat cs) s

/-- The first branch of a conditional is tested as the further ones are. -/
theorem exec_choose (c : Cond) (yes : Code) (more : Arms) :
    (choose c yes more done).exec site s = ((Arms.orWhen c yes more).exec site s).map s.leave := by
  rw [exec, Arms.exec, Option.map_bind]
  exact Option.bind_fun_some _

/-- A conditional runs the branch that its test tells. -/
theorem exec_when {c : Cond} {b : Bool} (hc : c.holds? site s = some b) (yes : Code) :
    (when c yes).exec site s = (if b then yes.exec site s else some s).map s.leave := by
  rw [when, exec, hc]
  exact Option.bind_fun_some _

theorem exec_either {c : Cond} {b : Bool} (hc : c.holds? site s = some b) (yes no : Code) :
    (either c yes no).exec site s = (if b then yes.exec site s else no.exec site s).map s.leave := by
  rw [either, exec, hc]
  exact Option.bind_fun_some _

end Code

/-! ### The choice among variants -/

namespace Device

/-- The state in which a variant is chosen; among several, the core number is read before. -/
def State.inChain (site : Site) (count : Nat) (s : State) : State :=
  if count ≤ 1 then s else s.declare "coreid" (.word site.core)

@[simp] theorem State.leave_inChain (site : Site) (count : Nat) (s : State) (calls : List Call) :
    s.leave ⟨(s.inChain site count).env, calls⟩ = ⟨s.env, calls⟩ := by
  unfold inChain
  split
  · exact s.leave_self calls
  · simp [leave, declare]

@[simp] theorem State.calls_inChain (site : Site) (count : Nat) (s : State) :
    (s.inChain site count).calls = s.calls := by
  unfold inChain
  split <;> rfl

theorem State.lookup_inChain {site : Site} {count : Nat} {s : State} {name : String}
    (h : name ≠ "coreid") : (s.inChain site count).env.lookup name = s.env.lookup name := by
  unfold inChain
  split
  · rfl
  · simp [declare, h]

end Device

section Variants

variable {site : Site} {s : State} {tail : Option Stmt} {st : Stmt} {ss : List Stmt}

/-- What follows a variant is text. -/
def IsText (tail : Option Stmt) : Prop := ∀ st ∈ tail, ∃ line, st = .text line

theorem isText_none : IsText none := by simp [IsText]

theorem isText_some (line : String) : IsText (some (.text line)) := by simp [IsText]

theorem exec_variantBody (htail : IsText tail) : (variantBody tail st).exec site s = st.exec site s := by
  have hrest : (Code.stmts tail.toList).exec site = some := by
    cases tail with
    | none => rfl
    | some t =>
      obtain ⟨line, rfl⟩ := htail t rfl
      rfl
  rw [variantBody, Code.exec_stmts_cons, hrest, Option.bind_fun_some]

theorem exec_variantArms {split i : Nat} (htail : IsText tail)
    (hcore : s.word? "coreid" = some site.core) (hi : i ≤ site.variantOf split)
    (hst : ss[site.variantOf split - i]? = some st) :
    (variantArms split tail i ss).exec site s = st.exec site s := by
  fun_induction variantArms split tail i ss with
  | case1 i => simp at hst
  | case2 i t =>
    obtain ⟨_, rfl⟩ : site.variantOf split - i = 0 ∧ t = st := by
      cases hr : site.variantOf split - i <;> simp_all
    exact exec_variantBody htail
  | case3 i t ss hss ih =>
    have hholds : (Cond.coreIs split i).holds? site s = some (decide (site.variantOf split = i)) := by
      simp [Cond.holds?, hcore, site.toNat_core]
    rw [Arms.exec, hholds, Option.bind_some]
    by_cases hr : site.variantOf split = i
    · obtain rfl : t = st := by simpa [hr] using hst
      simpa [hr] using exec_variantBody htail
    · have hnext : site.variantOf split - i = site.variantOf split - (i + 1) + 1 := by omega
      rw [hnext, List.getElem?_cons_succ] at hst
      simpa [hr] using ih (by omega) hst

/-- A chain of variants runs the one of the core number. -/
theorem exec_variantChain (htail : IsText tail) {calls : List Call}
    (hst : ss[site.variantOf ss.length]? = some st)
    (hexec : st.exec site (s.inChain site ss.length) = some ⟨(s.inChain site ss.length).env, calls⟩) :
    (variantChain ss tail).exec site s = some ⟨(s.inChain site ss.length).env, calls⟩ := by
  match ss, hst, hexec with
  | [t], hst, hexec =>
    obtain rfl : t = st := by simpa [Site.variantOf, Nat.mod_one] using hst
    rw [variantChain, exec_variantBody htail]
    exact hexec
  | t :: t' :: ss, hst, hexec =>
    have hchain : s.inChain site (t :: t' :: ss).length = s.declare "coreid" (.word site.core) :=
      if_neg (by simp)
    have hcore : (s.declare "coreid" (.word site.core)).word? "coreid" = some site.core := by
      simp [State.word?, State.declare]
    have harms : (variantArms (t :: t' :: ss).length tail 0 (t :: t' :: ss)).exec site
        (s.declare "coreid" (.word site.core)) = _ :=
      exec_variantArms htail hcore (Nat.zero_le _) hst
    rw [hchain] at hexec ⊢
    rw [hexec, variantArms] at harms
    · rw [variantChain, Code.exec, Stmt.exec, Option.bind_some, Code.exec_choose, harms,
        Option.map_some, State.leave_self]
      nofun
    · nofun

/-- The statements of a chain are those of all numbers below some positive one. -/
theorem exec_variantChain_range {n : Nat} (hn : 0 < n) {f : Nat → Stmt} (htail : IsText tail)
    {calls : List Call} (hexec : (f (site.variantOf n)).exec site (s.inChain site n)
      = some ⟨(s.inChain site n).env, calls⟩) :
    (variantChain ((List.range n).map f) tail).exec site s = some ⟨(s.inChain site n).env, calls⟩ := by
  have hlt : site.variantOf n < n := Nat.mod_lt _ hn
  have hst : ((List.range n).map f)[site.variantOf n]? = some (f (site.variantOf n)) := by
    rw [List.getElem?_map, List.getElem?_range hlt, Option.map_some]
  have hlength : ((List.range n).map f).length = n := by rw [List.length_map, List.length_range]
  generalize (List.range n).map f = ss at hlength hst
  subst hlength
  exact exec_variantChain htail hst hexec

end Variants

end KernelFusion
