import KernelFusion.Proofs.PieceText
import KernelFusion.Proofs.ProperNames

/-!
What a line of device code names.

A line is cut into words and marks, and read by a form: a text that shows the words and marks of the line,
with `#` in the place of each word that it leaves open.

        form     preload((const void *)#, #);
        line     preload((const void *)add_vec, 4);
        words    add_vec, 4

A line of another form has no such words, so that a form tells which lines it is of.
-/

namespace KernelFusion.LineText

open Branching

/-! ### Words and marks -/

/-- The word that ends behind these characters, if there are any. -/
def ended (word : List Char) : List Token := if word = [] then [] else [.word word]

/-- Words and marks of a text, from the characters of the word so far. -/
def tokensFrom : List Char → List Char → List Token
  | word, [] => ended word
  | word, c :: cs =>
    if isWordChar c then tokensFrom (word ++ [c]) cs
    else ended word ++ ((if c = ' ' then [] else [.mark [c]]) ++ tokensFrom [] cs)

def tokens (cs : List Char) : List Token := tokensFrom [] cs

/-- Characters that are one word. -/
def IsWord (w : List Char) : Prop := w ≠ [] ∧ w.all isWordChar = true

variable {w pre post cs : List Char} {c : Char}

/-- A word ends before a character that no word goes on with. -/
theorem tokensFrom_append (hc : isWordChar c = false) (word a : List Char) :
    tokensFrom word (a ++ c :: cs) = tokensFrom word a ++ tokens (c :: cs) := by
  induction a generalizing word with
  | nil => simp [tokensFrom, tokens, hc, ended]
  | cons b a ih =>
    rw [List.cons_append, tokensFrom, tokensFrom]
    split
    · exact ih _
    · simp only [ih [], List.append_assoc]

theorem tokens_append (hc : isWordChar c = false) (a : List Char) :
    tokens (a ++ c :: cs) = tokens a ++ tokens (c :: cs) := tokensFrom_append hc [] a

theorem tokens_cons (hc : isWordChar c = false) (cs : List Char) :
    tokens (c :: cs) = tokens [c] ++ tokens cs := by
  simp [tokens, tokensFrom, hc, ended]

theorem tokensFrom_word (hw : w.all isWordChar = true) (word : List Char) :
    tokensFrom word w = ended (word ++ w) := by
  induction w generalizing word with
  | nil => rw [tokensFrom, List.append_nil]
  | cons c w ih =>
    obtain ⟨hc, hw⟩ := Bool.and_eq_true_iff.mp hw
    rw [tokensFrom, if_pos hc, ih hw, List.append_assoc, List.singleton_append]

theorem tokens_word (hw : IsWord w) : tokens w = [.word w] := by
  rw [tokens, tokensFrom_word hw.2, List.nil_append, ended, if_neg hw.1]

/-- Whether no word goes on behind a text. -/
def endsOutside (text : List Char) : Bool := text.getLast?.all (!isWordChar ·)

/-- Whether a text is there that no word goes on in or goes on from. -/
def outside (text : List Char) : Bool := text.head?.any (!isWordChar ·) && endsOutside text

/-- Words with texts behind them, behind a text. -/
def joined (front : String) : List String → List String → String
  | w :: ws, t :: ts => joined (front ++ w ++ t) ws ts
  | _, _ => front

/-- Words and marks of words with texts behind them. -/
def joinedTokens : List String → List String → List Token
  | w :: ws, t :: ts => .word w.toList :: (tokens t.toList ++ joinedTokens ws ts)
  | _, _ => []

/-- What follows such a text begins with a word or mark of its own. -/
theorem tokens_behind (hpre : endsOutside pre = true) (cs : List Char) :
    tokens (pre ++ cs) = tokens pre ++ tokens cs := by
  rcases List.eq_nil_or_concat' pre with rfl | ⟨front, c, rfl⟩
  · rfl
  · have hc : isWordChar c = false := by simpa [endsOutside] using hpre
    rw [List.append_assoc, List.singleton_append, tokens_append hc, tokens_append hc, tokens_cons hc,
      List.append_assoc]

theorem endsOutside_append (front : List Char) {text : List Char} (h : outside text = true) :
    endsOutside (front ++ text) = true := by
  obtain ⟨hhead, hlast⟩ := Bool.and_eq_true_iff.mp h
  have hne : text.getLast? ≠ none := fun hnone => by
    rw [List.getLast?_eq_none_iff.mp hnone] at hhead
    cases hhead
  obtain ⟨c, hc⟩ := Option.ne_none_iff_exists'.mp hne
  rw [endsOutside, hc] at hlast
  rw [endsOutside, List.getLast?_append, hc]
  exact hlast

theorem tokens_between (hpre : endsOutside pre = true) (hw : IsWord w) (hpost : outside post = true) :
    tokens (pre ++ w ++ post) = tokens pre ++ .word w :: tokens post := by
  cases post with
  | nil => cases hpost
  | cons c post =>
    have hc : isWordChar c = false := by simpa using (Bool.and_eq_true_iff.mp hpost).1
    rw [List.append_assoc, tokens_behind hpre, tokens_append hc, tokens_word hw, List.singleton_append]

theorem tokens_joined (front : String) (ws texts : List String) (hwords : ∀ w ∈ ws, IsWord w.toList)
    (hfront : endsOutside front.toList = true) (htexts : (texts.map String.toList).all outside = true) :
    tokens (joined front ws texts).toList = tokens front.toList ++ joinedTokens ws texts := by
  induction ws generalizing front texts with
  | nil => rw [joined, joinedTokens, List.append_nil] <;> simp
  | cons w ws ih =>
    cases texts with
    | nil => rw [joined, joinedTokens, List.append_nil] <;> simp
    | cons s texts =>
      obtain ⟨hw, hws⟩ := List.forall_mem_cons.mp hwords
      obtain ⟨hs, htexts⟩ := Bool.and_eq_true_iff.mp htexts
      have hnext : (front ++ w ++ s).toList = front.toList ++ w.toList ++ s.toList := by
        rw [String.toList_append, String.toList_append]
      rw [joined, ih _ _ hws (hnext ▸ endsOutside_append _ hs) htexts, hnext, tokens_between hfront hw hs,
        joinedTokens, List.append_assoc, List.cons_append]

theorem tokens_blanks (n : Nat) (cs : List Char) : tokens (List.replicate n ' ' ++ cs) = tokens cs := by
  have hblank : isWordChar ' ' = false := by decide
  induction n with
  | zero => rfl
  | succ n ih =>
    rw [← ih]
    simp [List.replicate_succ, tokens, tokensFrom, hblank, ended]

theorem tokens_indented (depth : Nat) (s : String) :
    tokens (Writer.indented depth s).toList = tokens s.toList := by
  unfold Writer.indented
  split
  next hempty => rw [String.isEmpty_iff.mp hempty]
  next => rw [String.toList_append, Writer.indentation, String.toList_ofList, tokens_blanks]

theorem isWord_toString (n : Nat) : IsWord (toString n).toList := by
  rw [toList_toString]
  refine ⟨Nat.toDigits_ne_nil, List.all_eq_true.mpr fun d hd => ?_⟩
  have hdigit : d.isDigit = true := Nat.isDigit_of_mem_toDigits (by decide) (by decide) hd
  simp [isWordChar, hdigit]

theorem isWord_numbers (ns : List Nat) : ∀ w ∈ ns.map toString, IsWord w.toList := by
  intro w hw
  obtain ⟨n, _, rfl⟩ := List.mem_map.mp hw
  exact isWord_toString n

theorem all_isWordChar_of_letters {s : String}
    (h : s.toList.all (fun c => Text.isLetter c || c.isDigit) = true) : s.toList.all isWordChar = true := by
  refine List.all_eq_true.mpr fun c hc => ?_
  have hc := List.all_eq_true.mp h c hc
  rw [isWordChar, hc, Bool.true_or]

theorem isWord_of_isIdentifier {s : String} (h : Text.isIdentifier s = true) : IsWord s.toList := by
  refine ⟨fun hnil => ?_, all_isWordChar_of_letters (Text.all_of_isIdentifier h)⟩
  rw [Text.isIdentifier, hnil] at h
  cases h

theorem isWord_literal (h : (!cs.isEmpty && cs.all isWordChar) = true) : IsWord (String.ofList cs).toList := by
  rw [Bool.and_eq_true_iff] at h
  rw [String.toList_ofList]
  exact ⟨fun hnil => by simp [hnil] at h, h.2⟩

/-- A word goes on with characters of words. -/
theorem IsWord.append {a b : String} (ha : IsWord a.toList) (hb : b.toList.all isWordChar = true) :
    IsWord (a ++ b).toList := by
  rw [String.toList_append]
  refine ⟨fun hnil => ha.1 (List.append_eq_nil_iff.mp hnil).1, ?_⟩
  rw [List.all_append, ha.2, hb]
  rfl

theorem isWord_variantSymbol {base : String} (hbase : IsWord base.toList) (i : Nat) :
    IsWord (variantSymbol base i).toList := by
  have hmark : "_split".toList.all isWordChar = true := (isWord_literal (by decide)).2
  unfold variantSymbol
  split
  next => exact hbase
  next => exact (hbase.append hmark).append (isWord_toString i).2

/-! ### Forms -/

/-- Stands in a form for any word. -/
def hole : Token := .mark ['#']

/-- The words of a line at the holes of a form. -/
def fill : List Token → List Token → Option (List (List Char))
  | [], [] => some []
  | f :: fs, t :: ts =>
    if f = hole then
      match t with
      | .word w => (fill fs ts).map (w :: ·)
      | .mark _ => none
    else if f = t then fill fs ts else none
  | _, _ => none

def words? (form line : List Char) : Option (List (List Char)) := fill (tokens form) (tokens line)

/-- A number in decimal digits or, behind `0x`, in hexadecimal ones. -/
def number? : List Char → Option Nat
  | '0' :: 'x' :: cs => cs.foldlM (fun n c => (Json.hexDigit? c).map fun d => 16 * n + d) 0
  | cs => if Text.isDecimal cs then some (Text.decimalValue cs) else none

theorem number?_toString (n : Nat) : number? (toString n).toList = some n := by
  rw [toList_toString]
  have hall : Text.isDecimal (Nat.toDigits 10 n) = true :=
    List.all_eq_true.mpr fun d hd => Nat.isDigit_of_mem_toDigits (by decide) (by decide) hd
  have hvalue : Text.decimalValue (Nat.toDigits 10 n) = n := by simp [Text.decimalValue]
  have hx : 'x' ∉ Nat.toDigits 10 n := fun h =>
    absurd (Nat.isDigit_of_mem_toDigits (by decide) (by decide) h) (by decide)
  unfold number?
  split
  next cs hcs => simp [hcs] at hx
  next => rw [if_pos hall, hvalue]

/-- Whether a form has these texts, with a hole in front of each one but the first. -/
def fits (form front : List Char) (texts : List (List Char)) : Bool :=
  decide (tokens form = tokens front ++ texts.flatMap fun text => hole :: tokens text)
    && (front :: texts).all (fun text => !(tokens text).contains hole)
    && endsOutside front && texts.all outside

theorem fill_append {ts : List Token} (hts : (!ts.contains hole) = true) (form line : List Token) :
    fill (ts ++ form) (ts ++ line) = fill form line := by
  induction ts with
  | nil => rfl
  | cons t ts ih =>
    rw [List.contains_cons, Bool.not_or, Bool.and_eq_true_iff] at hts
    have ht : t ≠ hole := fun ht => by simp [ht] at hts
    change (if t = hole then _ else if t = t then fill (ts ++ form) (ts ++ line) else none) = _
    rw [if_neg ht, if_pos rfl, ih hts.2]

theorem fill_joined {ws texts : List String} (hlength : ws.length = texts.length)
    (htexts : (texts.map String.toList).all (fun text => !(tokens text).contains hole) = true) :
    fill ((texts.map String.toList).flatMap fun text => hole :: tokens text) (joinedTokens ws texts)
      = some (ws.map String.toList) := by
  induction ws generalizing texts with
  | nil =>
    rw [List.eq_nil_of_length_eq_zero hlength.symm]
    rfl
  | cons w ws ih =>
    cases texts with
    | nil => cases hlength
    | cons t texts =>
      obtain ⟨ht, htexts⟩ := Bool.and_eq_true_iff.mp htexts
      have hrest := fill_append ht ((texts.map String.toList).flatMap fun text => hole :: tokens text)
        (joinedTokens ws texts)
      rw [ih (Nat.succ.inj hlength) htexts] at hrest
      exact congrArg (Option.map (w.toList :: ·)) hrest

/-- Words with the texts of a form between them are the words of the line. -/
theorem words?_joined {form : List Char} (front : String) (ws texts : List String)
    (h : fits form front.toList (texts.map String.toList) = true) (hlength : ws.length = texts.length)
    (hwords : ∀ w ∈ ws, IsWord w.toList) :
    words? form (joined front ws texts).toList = some (ws.map String.toList) := by
  simp only [fits, Bool.and_eq_true, decide_eq_true_iff, List.all_cons] at h
  obtain ⟨⟨⟨hform, hfree, htexts⟩, hfront⟩, houtside⟩ := h
  rw [words?, tokens_joined front ws texts hwords hfront houtside, hform, fill_append hfree,
    fill_joined hlength htexts]

/-- Whether no line of a form begins with these words and marks. -/
def clashes : List Token → List Token → Bool
  | f :: fs, t :: ts =>
    if f = hole then
      match t with
      | .word _ => clashes fs ts
      | .mark _ => true
    else !decide (f = t) || clashes fs ts
  | _, _ => false

theorem fill_of_clashes {form front : List Token} (h : clashes form front = true) (rest : List Token) :
    fill form (front ++ rest) = none := by
  fun_induction clashes form front with
  | case1 fs ts word ih =>
    change (fill fs (ts ++ rest)).map (word :: ·) = none
    rw [ih h, Option.map_none]
  | case2 => rfl
  | case3 f fs t ts hf ih =>
    change (if f = hole then _ else if f = t then fill fs (ts ++ rest) else none) = none
    rw [if_neg hf]
    split
    next heq => exact ih (by simpa [heq] using h)
    next => rfl
  | case4 => cases h

theorem words?_of_front {form : List Char} {front : String}
    (h : (endsOutside front.toList && clashes (tokens form) (tokens front.toList)) = true) (s : String) :
    words? form (front ++ s).toList = none := by
  obtain ⟨hfront, hclash⟩ := Bool.and_eq_true_iff.mp h
  rw [words?, String.toList_append, tokens_behind hfront, fill_of_clashes hclash]

theorem words?_indented (form : List Char) (depth : Nat) (line : String) :
    words? form (Writer.indented depth line).toList = words? form line.toList := by
  rw [words?, tokens_indented, words?]

/-- A form is of lines that end as it does. -/
theorem getLast?_of_fill {form line : List Token} {ws : List (List Char)} (h : fill form line = some ws)
    {t : Token} (ht : t ≠ hole) (hform : form.getLast? = some t) : line.getLast? = some t := by
  have hcons {x : Token} {xs : List Token} (hxs : xs.getLast? = some t) : (x :: xs).getLast? = some t := by
    rw [List.getLast?_cons, hxs, Option.getD_some]
  fun_induction fill form line generalizing ws with
  | case1 => cases hform
  | case2 fs ts word ih =>
    obtain ⟨rest, hrest, _⟩ := Option.map_eq_some_iff.mp h
    cases fs with
    | nil => exact absurd (Option.some.inj hform).symm ht
    | cons f fs => exact hcons (ih hrest (List.getLast?_cons_cons ▸ hform))
  | case3 => cases h
  | case4 fs f ts hf ih =>
    cases fs with
    | nil =>
      cases ts with
      | nil => exact hform
      | cons t' ts => cases h
    | cons f' fs => exact hcons (ih h (List.getLast?_cons_cons ▸ hform))
  | case5 => cases h
  | case6 => cases h

end KernelFusion.LineText
