import KernelFusion.Proofs.LineText

/-!
The foreign functions that lines of code mention.

The functions of the fused kernels are foreign to the code that uses them. It mentions them in lines of four
forms; which function that is, is read from the line.

        declaring    extern "C"  __aicore__ void add_vec(uint64_t args_offset);
        calling      add_vec(3);
        loading      preload((const void *)add_vec, 4);
        addressing   aiv_func_addr = (uint64_t)(add_vec);

All of them end with a semicolon, so that no line that opens or closes a block is of such a form. What code
mentions is what its statements mention, in their order and at every depth.
-/

namespace KernelFusion

open Branching LineText

/-- A form of lines that mention a function. -/
structure Mention where
  form : List Char
  /-- the hole in which the function stands -/
  place : Nat
  ends : (tokens form).getLast? = some (.mark [';'])

namespace Mention

def declaring : Mention :=
  ⟨"extern \"C\" __aicore__ void #(uint64_t args_offset);".toList, 0, by rw [String.toList_ofList]; decide⟩

def calling : Mention := ⟨"#(#);".toList, 0, by rw [String.toList_ofList]; decide⟩

def loading : Mention := ⟨"preload((const void *)#, #);".toList, 0, by rw [String.toList_ofList]; decide⟩

def addressing : Mention := ⟨"# = (uint64_t)(#);".toList, 1, by rw [String.toList_ofList]; decide⟩

/-- The function that a line mentions, if it is of the form. -/
def read (m : Mention) (line : String) : Option String :=
  (words? m.form line.toList).bind fun ws => ws[m.place]?.map String.ofList

variable (m : Mention)

theorem read_indented (depth : Nat) (line : String) : m.read (Writer.indented depth line) = m.read line := by
  rw [read, words?_indented, read]

theorem read_eq_none {line : String} (h : (tokens line.toList).getLast? ≠ some (.mark [';'])) :
    m.read line = none := by
  cases hwords : words? m.form line.toList with
  | none => rw [read, hwords, Option.bind_none]
  | some ws => exact absurd (getLast?_of_fill hwords (by decide) m.ends) h

theorem read_blank : m.read "" = none := m.read_eq_none (by decide)

theorem read_opening (head : String) : m.read (head ++ " \x7b") = none := by
  refine m.read_eq_none ?_
  have hspace : isWordChar ' ' = false := by decide
  have hlast : (tokens [' ', '\x7b']).getLast? = some (.mark ['\x7b']) := by decide
  rw [String.toList_append, show " \x7b".toList = [' ', '\x7b'] from String.toList_ofList,
    tokens_append hspace, List.getLast?_append, hlast, Option.some_or]
  decide

theorem read_closing : m.read "\x7d" = none := m.read_eq_none (by decide)

/-- A line is of another form if it begins as no line of this form does. -/
theorem read_of_front {m : Mention} {front : List Char}
    (h : (endsOutside front && clashes (tokens m.form) (tokens front)) = true) (s : String) :
    m.read (String.ofList front ++ s) = none := by
  rw [read, words?_of_front (by rwa [String.toList_ofList]), Option.bind_none]

theorem read_literal {m : Mention} {line : List Char}
    (h : (endsOutside line && clashes (tokens m.form) (tokens line)) = true) :
    m.read (String.ofList line) = none := by
  have hnone := read_of_front h ""
  rwa [String.append_empty] at hnone

end Mention

/-! ### Lines and statements -/

/-- What a piece mentions, by what statements mention. -/
def Piece.named? (f : Stmt → Option String) : Piece → Option String
  | .line s => f s
  | _ => none

def Code.named (f : Stmt → Option String) (c : Code) : List String := c.pieces.filterMap (Piece.named? f)

def Stmt.named? (m : Mention) (s : Stmt) : Option String := m.read s.render

/-- What the lines of code mention at a depth. -/
def Code.mentions (c : Code) (m : Mention) (depth : Nat) : List String := (c.linesAt depth).filterMap m.read

mutual

/-- Only statements mention functions. -/
theorem Code.mentions_eq (c : Code) (m : Mention) (depth : Nat) :
    (c.linesAt depth).filterMap m.read = c.pieces.filterMap (Piece.named? (Stmt.named? m)) := by
  match c with
  | .done => rfl
  | .line s rest =>
    simp only [Code.linesAt, Code.pieces, List.filterMap_cons, m.read_indented, Code.mentions_eq rest,
      Piece.named?, Stmt.named?]
  | .blank rest =>
    simp only [Code.linesAt, Code.pieces, List.filterMap_cons, m.read_blank, Code.mentions_eq rest,
      Piece.named?]
  | .block h body rest =>
    simp only [Code.linesAt, Code.pieces, List.cons_append, List.filterMap_cons, List.filterMap_append,
      m.read_indented, m.read_opening, m.read_closing, Code.mentions_eq body, Code.mentions_eq rest,
      Piece.named?]
  | .choose t yes more rest =>
    simp only [Code.linesAt, Code.pieces, List.cons_append, List.filterMap_cons, List.filterMap_append,
      m.read_indented, m.read_opening, m.read_closing, Code.mentions_eq yes, Arms.mentions_eq more,
      Code.mentions_eq rest, Piece.named?]

theorem Arms.mentions_eq (a : Arms) (m : Mention) (depth : Nat) :
    (a.linesAt depth).filterMap m.read = a.pieces.filterMap (Piece.named? (Stmt.named? m)) := by
  match a with
  | .none => rfl
  | .otherwise no =>
    have helse : m.read "\x7d else \x7b" = Option.none := m.read_opening "\x7d else"
    simp only [Arms.linesAt, Arms.pieces, List.filterMap_cons, m.read_indented, helse, Code.mentions_eq no,
      Piece.named?]
  | .orWhen t yes more =>
    simp only [Arms.linesAt, Arms.pieces, List.cons_append, List.filterMap_cons, List.filterMap_append,
      m.read_indented, m.read_opening, Code.mentions_eq yes, Arms.mentions_eq more, Piece.named?]

end

theorem Code.named_text {m : Mention} {line : String} (h : m.read line = none) :
    (Code.text line).named (Stmt.named? m) = [] := by
  have hpiece : Piece.named? (Stmt.named? m) (.line (.text line)) = none := h
  rw [named, pieces_text, List.filterMap_cons, hpiece]
  rfl

namespace Code

variable (f : Stmt → Option String)

@[simp] theorem named_done : done.named f = [] := rfl

@[simp] theorem named_empty : empty.named f = [] := rfl

@[simp] theorem named_append (a b : Code) : (a ++ b).named f = a.named f ++ b.named f := by
  simp [named]

@[simp] theorem named_concat (cs : List Code) : (concat cs).named f = cs.flatMap (named f) := by
  simp only [named, pieces_concat, List.filterMap_flatMap]
  rfl

@[simp] theorem named_stmts (ss : List Stmt) : (stmts ss).named f = ss.filterMap f := by
  rw [named, pieces_stmts, List.filterMap_map]
  rfl

@[simp] theorem named_stmt (s : Stmt) : (stmt s).named f = (f s).toList := by
  simp only [named, pieces_stmt, List.filterMap_cons, List.filterMap_nil, Piece.named?]
  cases f s <;> rfl

@[simp] theorem named_when (c : Cond) (yes : Code) : (when c yes).named f = yes.named f := by
  simp [named, List.filterMap_cons, Piece.named?]

@[simp] theorem named_either (c : Cond) (yes no : Code) :
    (either c yes no).named f = yes.named f ++ no.named f := by
  simp [named, List.filterMap_cons, Piece.named?]

@[simp] theorem named_block (h : Head) (body : Code) : (Code.block h body done).named f = body.named f := by
  simp [named, List.filterMap_cons, Piece.named?]

end Code

/-! ### Choices among variants -/

section Variants

variable {f : Stmt → Option String} {tail : Option Stmt}

theorem filterMap_cons_toList (s : Stmt) (ss : List Stmt) :
    (s :: ss).filterMap f = (f s).toList ++ ss.filterMap f := by
  rw [List.filterMap_cons]
  cases f s <;> rfl

theorem named_variantBody (htail : tail.toList.filterMap f = []) (s : Stmt) :
    (variantBody tail s).named f = (f s).toList := by
  rw [variantBody, Code.named_stmts, filterMap_cons_toList, htail, List.append_nil]

theorem named_variantArms (htail : tail.toList.filterMap f = []) (split i : Nat) (ss : List Stmt) :
    (variantArms split tail i ss).pieces.filterMap (Piece.named? f) = ss.filterMap f := by
  have hbody (s : Stmt) : (variantBody tail s).pieces.filterMap (Piece.named? f) = (f s).toList :=
    named_variantBody htail s
  induction ss generalizing i with
  | nil => rfl
  | cons s ss ih =>
    rw [filterMap_cons_toList, ← ih (i + 1)]
    cases ss with
    | nil =>
      rw [pieces_variantArms_last, List.filterMap_cons]
      simp only [Piece.named?, hbody, pieces_variantArms_nil, List.filterMap_nil, List.append_nil]
    | cons t ss =>
      rw [pieces_variantArms_cons, List.cons_append, List.filterMap_cons, List.filterMap_append, hbody]
      rfl

/-- A choice among variants mentions what they mention. -/
theorem named_variantChain (hcore : f .readCore = none) (htail : tail.toList.filterMap f = [])
    (ss : List Stmt) : (variantChain ss tail).named f = ss.filterMap f := by
  have hbody (s : Stmt) : (variantBody tail s).pieces.filterMap (Piece.named? f) = (f s).toList :=
    named_variantBody htail s
  cases ss with
  | nil => exact (Code.named_stmts f _).trans htail
  | cons s ss =>
    rw [filterMap_cons_toList]
    cases ss with
    | nil => exact (named_variantBody htail s).trans (List.append_nil _).symm
    | cons t ss =>
      rw [Code.named, pieces_variantChain_cons, List.cons_append, List.cons_append, List.cons_append,
        List.cons_append, List.filterMap_cons, List.filterMap_cons, List.filterMap_append,
        List.filterMap_append, hbody, named_variantArms htail]
      simp [Piece.named?, hcore]

end Variants

/-- Guarded statements mention what the variants mention, if nothing around them does. -/
theorem Guarded.named_code {f : Stmt → Option String} {g : Guarded} (hcore : f .readCore = none)
    (hbefore : g.before.filterMap f = []) (hafter : g.after.filterMap f = [])
    (htail : g.tail.toList.filterMap f = []) (hcomplement : g.complement.toList.filterMap f = [])
    (arch : Option Domain) : (g.code arch).named f = g.variants.filterMap f := by
  have hgate : g.gate.named f = g.variants.filterMap f := by
    unfold gate
    cases hc : g.complement with
    | none => simp [named_variantChain hcore htail]
    | some s =>
      have hs : [s].filterMap f = [] := by rwa [hc] at hcomplement
      have hs : (Code.stmt s).named f = [] := (Code.named_stmts f [s]).trans hs
      simp only [Code.named_either, named_variantChain hcore htail, hs, List.append_nil]
  unfold code
  split <;> simp [hgate, hbefore, hafter]

/-! ### The statements that mention functions -/

namespace Mention

/-- A line in which words stand between the texts of the form. -/
theorem read_joined (m : Mention) (front : String) (ws texts : List String)
    (h : fits m.form front.toList (texts.map String.toList) = true) (hlength : ws.length = texts.length)
    (hwords : ∀ w ∈ ws, IsWord w.toList) : m.read (joined front ws texts) = ws[m.place]? := by
  rw [read, words?_joined front ws texts h hlength hwords, Option.bind_some, List.getElem?_map]
  cases ws[m.place]? with
  | none => rfl
  | some w => exact congrArg some String.ofList_toList

end Mention

namespace Stmt

variable {symbol : String}

theorem named?_call (h : IsWord symbol.toList) (n : Nat) :
    (call symbol n).named? .calling = some symbol := by
  have hline : (call symbol n).render = joined "" [symbol, toString n] ["(", ");"] := by
    change symbol ++ "(" ++ toString n ++ ");" = "" ++ symbol ++ "(" ++ toString n ++ ");"
    rw [String.empty_append]
  have hform : fits Mention.calling.form "".toList ["(".toList, ");".toList] = true := by
    unfold Mention.calling
    dsimp only [-String.reduceToList]
    repeat rw [String.toList_ofList]
    decide
  rw [named?, hline]
  exact Mention.calling.read_joined _ _ _ hform rfl (List.forall_mem_cons.mpr ⟨h, isWord_numbers [n]⟩)

theorem named?_prefetch (h : IsWord symbol.toList) (units : Nat) :
    (prefetch symbol units).named? .loading = some symbol := by
  have hform : fits Mention.loading.form "preload((const void *)".toList [", ".toList, ");".toList]
      = true := by
    unfold Mention.loading
    dsimp only [-String.reduceToList]
    repeat rw [String.toList_ofList]
    decide
  exact Mention.loading.read_joined "preload((const void *)" [symbol, toString units] [", ", ");"] hform rfl
    (List.forall_mem_cons.mpr ⟨h, isWord_numbers [units]⟩)

theorem named?_readCore {m : Mention} (h : m = .calling ∨ m = .loading) : readCore.named? m = none := by
  change m.read "uint8_t coreid = (uint8_t)get_coreid();" = none
  rcases h with rfl | rfl
  · exact Mention.read_literal (by decide)
  · exact Mention.read_literal (by decide)

theorem isWord_address (v : VariantRef) : IsWord v.address.toList := by
  have harch : IsWord v.domain.arch.toList := by
    cases v.domain with
    | cube =>
      change IsWord "aic".toList
      exact isWord_literal (by decide)
    | vector =>
      change IsWord "aiv".toList
      exact isWord_literal (by decide)
  have hmark : "_func_addr".toList.all isWordChar = true := (isWord_literal (by decide)).2
  exact isWord_variantSymbol (harch.append hmark) v.index

theorem named?_setAddress (h : IsWord symbol.toList) (v : VariantRef) :
    (setAddress v symbol).named? .addressing = some symbol := by
  have hline : (setAddress v symbol).render = joined "" [v.address, symbol] [" = (uint64_t)(", ");"] := by
    change v.address ++ " = (uint64_t)(" ++ symbol ++ ");"
      = "" ++ v.address ++ " = (uint64_t)(" ++ symbol ++ ");"
    rw [String.empty_append]
  have hform : fits Mention.addressing.form "".toList [" = (uint64_t)(".toList, ");".toList] = true := by
    unfold Mention.addressing
    dsimp only [-String.reduceToList]
    repeat rw [String.toList_ofList]
    decide
  rw [named?, hline]
  exact Mention.addressing.read_joined _ _ _ hform rfl
    (List.forall_mem_cons.mpr ⟨isWord_address v, List.forall_mem_cons.mpr ⟨h, by simp⟩⟩)

/-- Packing a class takes no address. -/
theorem named?_publish (code : Nat) : (publish code).named? .addressing = none := by
  change Mention.addressing.read ("dy_block_num = ((uint64_t)" ++ toString code ++ ") << 32 | (*blockNumAddr);")
    = none
  rw [String.append_assoc]
  exact Mention.read_of_front (by decide) _

end Stmt

/-- A dynamic operator is called through a function of its own, with more than the place of its arguments. -/
theorem Dynamic.read_invocation {o : Operator} (ho : o.ProperNames) (n : Nat) : Mention.calling.read
    s!"call_func_of_{o.name}({n}, {addresses o.split}, dy_blockNum);" = none := by
  have hword : IsWord ("call_func_of_" ++ o.name).toList :=
    IsWord.append (isWord_literal (by decide)) (all_isWordChar_of_letters ho.name)
  have htexts : ["(".toList, ", ".toList].all outside = true := by
    repeat rw [String.toList_ofList]
    decide
  have htokens := tokens_joined "" ["call_func_of_" ++ o.name, toString n] ["(", ", "]
    (List.forall_mem_cons.mpr ⟨hword, isWord_numbers [n]⟩) (by decide) htexts
  have hline : s!"call_func_of_{o.name}({n}, {addresses o.split}, dy_blockNum);"
      = joined "" ["call_func_of_" ++ o.name, toString n] ["(", ", "]
        ++ (addresses o.split ++ ", dy_blockNum);") := by
    change "call_func_of_" ++ o.name ++ "(" ++ toString n ++ ", " ++ addresses o.split ++ ", dy_blockNum);"
      = "" ++ ("call_func_of_" ++ o.name) ++ "(" ++ toString n ++ ", "
        ++ (addresses o.split ++ ", dy_blockNum);")
    simp only [String.append_assoc, String.empty_append]
  have hends : endsOutside (joined "" ["call_func_of_" ++ o.name, toString n] ["(", ", "]).toList = true := by
    rw [joined, joined, joined, String.toList_append]
    · refine endsOutside_append _ ?_
      rw [String.toList_ofList]
      decide
    · simp
  rw [hline, Mention.read, words?_of_front, Option.bind_none]
  rw [hends, Bool.true_and, htokens]
  generalize "call_func_of_" ++ o.name = function, toString n = digits
  unfold Mention.calling
  dsimp only [joinedTokens, -String.reduceToList]
  repeat rewrite [String.toList_ofList]
  rfl

/-- A remark takes no address. -/
theorem Mention.read_remark (s : String) : addressing.read ("// begin implement of dynamic op " ++ s) = none :=
  read_of_front (by decide) s

theorem Source.read_declaration {symbol : String} (h : IsWord symbol.toList) :
    Mention.declaring.read (declaration symbol) = some symbol := by
  have hform : fits Mention.declaring.form "extern \"C\"  __aicore__ void ".toList
      ["(uint64_t args_offset);".toList] = true := by
    unfold Mention.declaring
    dsimp only [-String.reduceToList]
    repeat rw [String.toList_ofList]
    decide
  exact Mention.declaring.read_joined "extern \"C\"  __aicore__ void " [symbol] ["(uint64_t args_offset);"]
    hform rfl (List.forall_mem_cons.mpr ⟨h, by simp⟩)

end KernelFusion
