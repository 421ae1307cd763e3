import KernelFusion.Json.Printer
import KernelFusion.Json.Reader

/-!
A JSON text reads back as the value from which it was written.

Reading takes two passes, so the way back goes by the tokens of a value. The printer puts blanks between
them, which the scanner passes over, and the reader builds the value from the tokens alone. Strings
and brackets show their own end. A number does not, so what stands behind a value matters to it.

        value ──── printer ──── text
          └─ reader ─ tokens ─ scanner ─┘
-/

namespace KernelFusion.Json

/-- Values as records are written: every string denotes a text, and every number is a count of at most
64 bits. -/
inductive Plain : Json → Prop where
  | null : Plain .null
  | bool (b : Bool) : Plain (.bool b)
  | nat {n : Nat} (h : n < UInt64.size) : Plain (.nat n)
  | text (s : String) : Plain (.text s)
  | arr {items : List Json} (h : ∀ v ∈ items, Plain v) : Plain (.arr items)
  | record {members : List (String × Json)} (h : ∀ m ∈ members, Plain m.2) : Plain (.record members)

mutual

/-- The tokens that spell a value. -/
def tokens : Json → List Token
  | .null => [.null]
  | .bool b => [.bool b]
  | .num n => [.num n]
  | .str s => [.str s]
  | .arr [] => [.openArr, .closeArr]
  | .arr (v :: vs) => .openArr :: (tokens v ++ itemTokens vs ++ [.closeArr])
  | .obj [] => [.openObj, .closeObj]
  | .obj ((k, v) :: ms) => .openObj :: .str k :: .colon :: (tokens v ++ memberTokens ms ++ [.closeObj])

/-- The items behind the first one. -/
def itemTokens : List Json → List Token
  | [] => []
  | v :: vs => .comma :: (tokens v ++ itemTokens vs)

/-- The members behind the first one. -/
def memberTokens : List (Option String × Json) → List Token
  | [] => []
  | (k, v) :: ms => .comma :: .str k :: .colon :: (tokens v ++ memberTokens ms)

end

/-! ### Strings -/

theorem hexDigit?_hexDigit : ∀ n < 16, hexDigit? (hexDigit n) = some n := by decide

theorem unitChars_code {n : Nat} (h : n < 0x20) (us : List StrUnit) :
    unitChars (.code n :: us) = (unitChars us).map (Char.ofNat n :: ·) := by
  have hhigh : isHighSurrogate n = false := by simp [isHighSurrogate]; omega
  have hlow : isLowSurrogate n = false := by simp [isLowSurrogate]; omega
  cases us with
  | nil => simp [unitChars, hhigh, hlow]
  | cons u us => cases u <;> simp [unitChars, hhigh, hlow]

theorem hexCode?_control {n : Nat} (h : n < 0x20) :
    hexCode? '0' '0' (hexDigit (n / 16)) (hexDigit (n % 16)) = some n := by
  have hzero : hexDigit? '0' = some 0 := rfl
  rw [hexCode?, hzero, hexDigit?_hexDigit _ (by omega), hexDigit?_hexDigit _ (by omega)]
  simp
  omega

theorem scanString_short {c e : Char} (h : shortEscape? e = some c) (rest : List Char) :
    scanString ('\\' :: e :: rest) = (scanString rest).map fun p => (.char c :: p.1, p.2) := by
  have hne : e ≠ 'u' := by
    rintro rfl
    cases h
  rw [scanString]
  · rw [h]
    cases scanString rest <;> rfl
  · intros
    exact hne ‹_›

theorem scanString_code {n : Nat} {a b c d : Char} (h : hexCode? a b c d = some n) (rest : List Char) :
    scanString ('\\' :: 'u' :: a :: b :: c :: d :: rest)
      = (scanString rest).map fun p => (.code n :: p.1, p.2) := by
  rw [scanString, h]
  cases scanString rest <;> rfl

theorem scanString_char {c : Char} (hquote : c ≠ '"') (hslash : c ≠ '\\') (h : ¬c.toNat < 0x20)
    (rest : List Char) :
    scanString (c :: rest) = (scanString rest).map fun p => (.char c :: p.1, p.2) := by
  rw [scanString, if_neg h]
  · cases scanString rest <;> rfl
  · exact hquote
  · intro a b c d rest' hc
    exact absurd hc hslash
  · intro c' rest' hc
    exact absurd hc hslash

/-- The three ways to write a character: by a letter, by its code, or as it is. -/
theorem escape_cases (c : Char) : (∃ e, escape c = ['\\', e] ∧ shortEscape? e = some c) ∨
    (escape c = ['\\', 'u', '0', '0', hexDigit (c.toNat / 16), hexDigit (c.toNat % 16)] ∧
      c.toNat < 0x20) ∨
    (escape c = [c] ∧ c ≠ '"' ∧ c ≠ '\\' ∧ ¬c.toNat < 0x20) := by
  unfold escape
  split
  next h => exact .inl ⟨'"', rfl, by subst h; rfl⟩
  split
  next h => exact .inl ⟨'\\', rfl, by subst h; rfl⟩
  next hquote hslash =>
    repeat' split
    next h => exact .inl ⟨'b', rfl, by subst h; rfl⟩
    next h => exact .inl ⟨'f', rfl, by subst h; rfl⟩
    next h => exact .inl ⟨'n', rfl, by subst h; rfl⟩
    next h => exact .inl ⟨'r', rfl, by subst h; rfl⟩
    next h => exact .inl ⟨'t', rfl, by subst h; rfl⟩
    next h => exact .inr (.inl ⟨rfl, h⟩)
    next h => exact .inr (.inr ⟨rfl, hquote, hslash, h⟩)

/-- A written character is one unit of a string body, and that unit denotes it. -/
theorem scanString_escape (c : Char) : ∃ u, (∀ rest, scanString (escape c ++ rest)
      = (scanString rest).map fun p => (u :: p.1, p.2)) ∧
    ∀ us, unitChars (u :: us) = (unitChars us).map (c :: ·) := by
  rcases escape_cases c with ⟨e, hescape, he⟩ | ⟨hescape, hcode⟩ | ⟨hescape, hquote, hslash, hcode⟩
  · exact ⟨.char c, hescape ▸ scanString_short he, fun us => by rw [unitChars]⟩
  · refine ⟨.code c.toNat, hescape ▸ scanString_code (hexCode?_control hcode), fun us => ?_⟩
    rw [unitChars_code hcode, Char.ofNat_toNat]
  · exact ⟨.char c, hescape ▸ scanString_char hquote hslash hcode, fun us => by rw [unitChars]⟩

/-- The string body of a text ends with its quote. -/
theorem scanString_flatMap (cs rest : List Char) : ∃ units,
    scanString (cs.flatMap escape ++ '"' :: rest) = some (units, rest) ∧ unitChars units = some cs := by
  induction cs with
  | nil => exact ⟨[], by simp [scanString], by simp [unitChars]⟩
  | cons c cs ih =>
    obtain ⟨u, hscan, hchars⟩ := scanString_escape c
    obtain ⟨units, ih, hunits⟩ := ih
    refine ⟨u :: units, ?_, ?_⟩
    · rw [List.flatMap_cons, List.append_assoc, hscan, ih]
      rfl
    · rw [hchars, hunits]
      rfl

theorem scanToken_quote (s : String) (rest : List Char) :
    scanToken (quote s ++ rest) = some (.str (some s), rest) := by
  obtain ⟨units, hscan, hunits⟩ := scanString_flatMap s.toList rest
  have htoken : scanToken (quote s ++ rest) = (scanString (s.toList.flatMap escape ++ '"' :: rest)).map
      fun p => (.str ((unitChars p.1).map String.ofList), p.2) := by
    rw [quote, List.cons_append, List.append_assoc]
    rfl
  rw [htoken, hscan, Option.map_some, hunits, Option.map_some, String.ofList_toList]

/-! ### Numbers -/

/-- What may stand behind a value: a comma, the end of a line, or nothing. -/
def Stops (rest : List Char) : Prop := ∀ c ∈ rest.head?, c = ',' ∨ c = '\n'

@[elab_as_elim]
theorem Stops.elim {motive : List Char → Prop} {rest : List Char} (h : Stops rest) (nil : motive [])
    (comma : ∀ cs, motive (',' :: cs)) (line : ∀ cs, motive ('\n' :: cs)) : motive rest := by
  cases rest with
  | nil => exact nil
  | cons c cs =>
    rcases h c rfl with rfl | rfl
    · exact comma cs
    · exact line cs

/-- A written count starts with a digit, which is a zero for the number zero only. -/
theorem exists_cons_toDigits (n : Nat) :
    ∃ c cs, Nat.toDigits 10 n = c :: cs ∧ c.isDigit = true ∧ (0 < n → c ≠ '0') := by
  induction n using Nat.strongRecOn with
  | ind n ih =>
    by_cases hlt : n < 10
    · refine ⟨_, [], Nat.toDigits_of_lt_base hlt, ?_, ?_⟩
      · simpa [Nat.isDigit_digitChar] using hlt
      · simp [Nat.pos_iff_ne_zero]
    · obtain ⟨c, cs, hcs, hdigit, hzero⟩ := ih (n / 10) (by omega)
      refine ⟨c, cs ++ [Nat.digitChar (n % 10)], ?_, hdigit, fun _ => hzero (by omega)⟩
      rw [Nat.toDigits_of_base_le (by omega) (by omega), hcs, List.cons_append]

theorem scanDigits_toDigits (n : Nat) {rest : List Char} (h : Stops rest) :
    scanDigits (Nat.toDigits 10 n ++ rest) = some (Nat.toDigits 10 n, rest) := by
  have hdigits : ∀ c ∈ Nat.toDigits 10 n, c.isDigit = true :=
    fun c hc => Nat.isDigit_of_mem_toDigits (by decide) (by decide) hc
  have htake : rest.takeWhile Char.isDigit = [] ∧ rest.dropWhile Char.isDigit = rest :=
    h.elim ⟨rfl, rfl⟩ (fun _ => ⟨rfl, rfl⟩) fun _ => ⟨rfl, rfl⟩
  have hne : Nat.toDigits 10 n ≠ [] := Nat.toDigits_ne_nil
  rw [scanDigits, List.takeWhile_append_of_pos hdigits, List.dropWhile_append_of_pos hdigits,
    htake.1, htake.2, List.append_nil]
  split
  next hnil => exact absurd hnil hne
  next => rfl

theorem scanWhole_toDigits (n : Nat) {rest : List Char} (h : Stops rest) :
    scanWhole (Nat.toDigits 10 n ++ rest) = some (Nat.toDigits 10 n, rest) := by
  rcases Nat.eq_zero_or_pos n with rfl | hpos
  · rfl
  · obtain ⟨c, cs, hcs, _, hzero⟩ := exists_cons_toDigits n
    rw [← scanDigits_toDigits n h, hcs, List.cons_append, scanWhole]
    exact fun _ heq => hzero hpos (List.cons.inj heq).1

theorem scanNumber_toDigits (n : Nat) {rest : List Char} (h : Stops rest) :
    scanNumber false (Nat.toDigits 10 n ++ rest) = some (.count n, rest) := by
  have hfraction : scanFraction rest = some (none, rest) := h.elim rfl (fun _ => rfl) fun _ => rfl
  have hexponent : scanExponent rest = some (none, rest) := h.elim rfl (fun _ => rfl) fun _ => rfl
  simp [scanNumber, scanWhole_toDigits n h, hfraction, hexponent, Text.decimalValue]

theorem scanToken_digit {c : Char} (h : c.isDigit = true) (cs : List Char) :
    scanToken (c :: cs) = (scanNumber false (c :: cs)).map fun p => (.num p.1, p.2) := by
  rw [scanToken]
  all_goals
    intro rest heq
    obtain ⟨rfl, _⟩ := List.cons.inj heq
    cases h

theorem scanToken_toDigits (n : Nat) {rest : List Char} (h : Stops rest) :
    scanToken (Nat.toDigits 10 n ++ rest) = some (.num (.count n), rest) := by
  have hnumber := scanNumber_toDigits n h
  obtain ⟨c, cs, hcs, hdigit, _⟩ := exists_cons_toDigits n
  rw [hcs] at hnumber ⊢
  rw [List.cons_append, scanToken_digit hdigit, ← List.cons_append, hnumber]
  rfl

/-! ### Texts -/

/-- Fuel that is left over changes nothing. -/
theorem scanAll_mono {n m : Nat} {cs : List Char} {ts : List Token} (h : scanAll n cs = some ts)
    (hle : n ≤ m) : scanAll m cs = some ts := by
  induction n generalizing m cs ts with
  | zero =>
    cases cs with
    | nil => cases m <;> exact h
    | cons c cs => cases h
  | succ n ih =>
    obtain ⟨m, rfl⟩ : ∃ k, m = k + 1 := ⟨m - 1, by omega⟩
    have hle' : n ≤ m := by omega
    cases cs with
    | nil => exact h
    | cons c cs =>
      rw [scanAll] at h ⊢
      split at h
      next hspace => rw [if_pos hspace]; exact ih h hle'
      next hspace =>
        rw [if_neg hspace]
        obtain ⟨⟨token, rest⟩, htoken, h⟩ := Option.bind_eq_some_iff.mp h
        obtain ⟨us, hus, h⟩ := Option.bind_eq_some_iff.mp h
        refine Option.bind_eq_some_iff.mpr ⟨_, htoken, ?_⟩
        exact Option.bind_eq_some_iff.mpr ⟨us, ih hus hle', h⟩

namespace Token

theorem scan_space {c : Char} (h : isSpace c = true) (cs : List Char) : scan (c :: cs) = scan cs := by
  rw [scan, List.length_cons, scanAll, if_pos h, scan]

theorem scan_newLine (level : Nat) (rest : List Char) : scan (newLine level ++ rest) = scan rest := by
  have hblanks : ∀ n, scan (List.replicate n ' ' ++ rest) = scan rest := by
    intro n
    induction n with
    | zero => rfl
    | succ n ih => rw [List.replicate_succ, List.cons_append, scan_space rfl, ih]
  rw [newLine, List.cons_append, scan_space rfl, hblanks]

/-- A token in front of a text. -/
theorem scan_cons {c : Char} {cs rest : List Char} {t : Token} {ts : List Token}
    (hspace : isSpace c = false) (h : scanToken (c :: (cs ++ rest)) = some (t, rest))
    (hrest : scan rest = some ts) : scan (c :: (cs ++ rest)) = some (t :: ts) := by
  have hfuel : scanAll (cs ++ rest).length rest = some ts := scanAll_mono hrest (by simp)
  rw [scan, List.length_cons, scanAll, if_neg (by simp [hspace]), h]
  exact Option.bind_eq_some_iff.mpr ⟨_, rfl, Option.bind_eq_some_iff.mpr ⟨ts, hfuel, rfl⟩⟩

/-- A token of one character. -/
theorem scan_mark {c : Char} {rest : List Char} {t : Token} {ts : List Token}
    (hspace : isSpace c = false) (h : scanToken (c :: rest) = some (t, rest))
    (hrest : scan rest = some ts) : scan (c :: rest) = some (t :: ts) :=
  @scan_cons c [] rest t ts hspace h hrest

end Token

theorem stops_cons {c : Char} (h : c = ',' ∨ c = '\n') (cs : List Char) : Stops (c :: cs) := by
  intro c' hc'
  cases hc'
  exact h

/-- The printer spells the tokens of a value, at any level and in front of any text where it stops. -/
def Spells (v : Json) : Prop := ∀ (level : Nat) (rest : List Char) (ts : List Token), Stops rest →
  Token.scan rest = some ts → Token.scan (prettyChars level v ++ rest) = some (tokens v ++ ts)

theorem spells_text (s : String) : Spells (.text s) := by
  intro level rest ts _ hrest
  have hquote := scanToken_quote s rest
  rw [text, prettyChars, Option.getD_some, tokens]
  exact Token.scan_cons rfl hquote hrest

theorem spells_nat (n : Nat) : Spells (.nat n) := by
  intro level rest ts hstop hrest
  have htoken := scanToken_toDigits n hstop
  obtain ⟨c, cs, hcs, hdigit, _⟩ := exists_cons_toDigits n
  have hspace : isSpace c = false := by
    rw [Bool.eq_false_iff]
    intro hspace
    simp only [isSpace, Bool.or_eq_true, beq_iff_eq] at hspace
    rcases hspace with ((rfl | rfl) | rfl) | rfl <;> cases hdigit
  rw [nat, prettyChars, numeral, tokens]
  rw [hcs] at htoken ⊢
  exact Token.scan_cons hspace htoken hrest

section

variable (level : Nat) {rest : List Char} {ts : List Token}

theorem stops_prettyItems (vs : List Json) (h : Stops rest) : Stops (prettyItems level vs ++ rest) := by
  cases vs with
  | nil => rwa [prettyItems]
  | cons v vs =>
    rw [prettyItems]
    exact stops_cons (.inl rfl) _

theorem stops_prettyMembers (ms : List (Option String × Json)) (h : Stops rest) :
    Stops (prettyMembers level ms ++ rest) := by
  cases ms with
  | nil => rwa [prettyMembers]
  | cons m ms =>
    rw [prettyMembers]
    exact stops_cons (.inl rfl) _

theorem scan_prettyItems {vs : List Json} (h : ∀ v ∈ vs, Spells v) (hstop : Stops rest)
    (hrest : Token.scan rest = some ts) :
    Token.scan (prettyItems level vs ++ rest) = some (itemTokens vs ++ ts) := by
  induction vs with
  | nil => rwa [prettyItems, itemTokens]
  | cons v vs ih =>
    obtain ⟨hv, hvs⟩ := List.forall_mem_cons.mp h
    have hvalue := hv level _ _ (stops_prettyItems level vs hstop) (ih hvs)
    rw [← Token.scan_newLine level] at hvalue
    rw [prettyItems, itemTokens]
    simp only [List.cons_append, List.append_assoc]
    exact Token.scan_mark rfl rfl hvalue

/-- A member in front of a text. -/
theorem scan_member {v : Json} (h : Spells v) (k : String) (hstop : Stops rest)
    (hrest : Token.scan rest = some ts) :
    Token.scan (newLine level ++ (quote k ++ (':' :: ' ' :: (prettyChars level v ++ rest))))
      = some (.str (some k) :: .colon :: (tokens v ++ ts)) := by
  have hvalue := h level rest ts hstop hrest
  rw [← Token.scan_space (c := ' ') rfl] at hvalue
  have hcolon := Token.scan_mark (c := ':') rfl rfl hvalue
  rw [Token.scan_newLine]
  exact Token.scan_cons rfl (scanToken_quote k _) hcolon

theorem scan_prettyMembers {ms : List (String × Json)} (h : ∀ m ∈ ms, Spells m.2) (hstop : Stops rest)
    (hrest : Token.scan rest = some ts) :
    Token.scan (prettyMembers level (ms.map fun m => (some m.1, m.2)) ++ rest)
      = some (memberTokens (ms.map fun m => (some m.1, m.2)) ++ ts) := by
  induction ms with
  | nil => rwa [List.map_nil, prettyMembers, memberTokens]
  | cons m ms ih =>
    obtain ⟨hm, hms⟩ := List.forall_mem_cons.mp h
    have hmember := scan_member level hm m.1 (stops_prettyMembers level _ hstop) (ih hms)
    rw [List.map_cons, prettyMembers, memberTokens]
    simp only [List.cons_append, List.append_assoc, Option.getD_some, List.nil_append]
    exact Token.scan_mark rfl rfl hmember

end

/-- An array of values that are printed as their tokens is so itself. -/
theorem spells_arr {vs : List Json} (h : ∀ v ∈ vs, Spells v) : Spells (.arr vs) := by
  intro level rest ts hstop hrest
  cases vs with
  | nil => exact Token.scan_mark rfl rfl (Token.scan_mark rfl rfl hrest)
  | cons v vs =>
    obtain ⟨hv, hvs⟩ := List.forall_mem_cons.mp h
    have hclose := Token.scan_mark (c := ']') rfl rfl hrest
    rw [← Token.scan_newLine level] at hclose
    have hline : Stops (newLine level ++ ']' :: rest) := stops_cons (.inr rfl) _
    have hitems := scan_prettyItems (level + 1) hvs hline hclose
    have hvalue := hv (level + 1) _ _ (stops_prettyItems _ vs hline) hitems
    rw [← Token.scan_newLine (level + 1)] at hvalue
    rw [prettyChars, tokens]
    simp only [List.cons_append, List.append_assoc, List.nil_append]
    exact Token.scan_mark rfl rfl hvalue

theorem spells_record {ms : List (String × Json)} (h : ∀ m ∈ ms, Spells m.2) : Spells (.record ms) := by
  intro level rest ts hstop hrest
  cases ms with
  | nil => exact Token.scan_mark rfl rfl (Token.scan_mark rfl rfl hrest)
  | cons m ms =>
    obtain ⟨hm, hms⟩ := List.forall_mem_cons.mp h
    have hclose := Token.scan_mark (c := '\x7d') rfl rfl hrest
    rw [← Token.scan_newLine level] at hclose
    have hline : Stops (newLine level ++ '\x7d' :: rest) := stops_cons (.inr rfl) _
    have hmembers := scan_prettyMembers (level + 1) hms hline hclose
    have hmember := scan_member (level + 1) hm m.1 (stops_prettyMembers _ _ hline) hmembers
    rw [record, List.map_cons, prettyChars, tokens]
    simp only [List.cons_append, List.append_assoc, List.nil_append, Option.getD_some]
    exact Token.scan_mark rfl rfl hmember

/-- Plain values are printed as their tokens. -/
theorem Plain.spells {v : Json} (h : Plain v) : Spells v := by
  induction h with
  | null =>
    intro level rest ts _ hrest
    exact @Token.scan_cons 'n' ['u', 'l', 'l'] rest .null ts rfl rfl hrest
  | bool b =>
    intro level rest ts _ hrest
    cases b
    · exact @Token.scan_cons 'f' ['a', 'l', 's', 'e'] rest (.bool false) ts rfl rfl hrest
    · exact @Token.scan_cons 't' ['r', 'u', 'e'] rest (.bool true) ts rfl rfl hrest
  | @nat n _ => exact spells_nat n
  | text s => exact spells_text s
  | arr _ ih => exact spells_arr ih
  | record _ ih => exact spells_record ih

/-! ### Values -/

/-- The first token of a value does not end an array. -/
theorem takeAll_item (v : Json) (stack : List Frame) (ts : List Token) :
    (Expect.item stack).takeAll (tokens v ++ ts)
      = (Expect.value (.arr [] :: stack)).takeAll (tokens v ++ ts) := by
  cases v with
  | arr items => cases items <;> rfl
  | obj members => cases members <;> rfl
  | _ => rfl

mutual

/-- The reader builds a value from its tokens. -/
theorem takeAll_tokens (v : Json) (stack : List Frame) (ts : List Token) :
    (Expect.value stack).takeAll (tokens v ++ ts) = (Expect.next v stack).takeAll ts := by
  cases v with
  | arr items =>
    cases items with
    | nil => rfl
    | cons v vs =>
      rw [tokens, List.cons_append, List.append_assoc, List.append_assoc]
      calc _ = (Expect.value (.arr [] :: stack)).takeAll _ := takeAll_item v stack _
        _ = (Expect.next v (.arr [] :: stack)).takeAll _ := takeAll_tokens v _ _
        _ = _ := takeAll_itemTokens vs v [] stack ts
  | obj members =>
    cases members with
    | nil => rfl
    | cons m ms =>
      obtain ⟨k, v⟩ := m
      rw [tokens, List.cons_append, List.cons_append, List.cons_append, List.append_assoc,
        List.append_assoc]
      exact (takeAll_tokens v _ _).trans (takeAll_memberTokens ms k v [] stack ts)
  | _ => rfl

/-- Items behind those that are there, up to the end of the array. -/
theorem takeAll_itemTokens (vs : List Json) (v : Json) (items : List Json) (stack : List Frame)
    (ts : List Token) :
    (Expect.next v (.arr items :: stack)).takeAll (itemTokens vs ++ ([.closeArr] ++ ts))
      = (Expect.next (.arr (items.reverse ++ v :: vs)) stack).takeAll ts := by
  cases vs with
  | nil =>
    rw [← List.reverse_cons]
    rfl
  | cons w vs =>
    have hrest := takeAll_itemTokens vs w (v :: items) stack ts
    rw [List.reverse_cons, List.append_assoc, List.singleton_append] at hrest
    rw [itemTokens, List.cons_append, List.append_assoc]
    exact (takeAll_tokens w _ _).trans hrest

theorem takeAll_memberTokens (ms : List (Option String × Json)) (k : Option String) (v : Json)
    (members : List (Option String × Json)) (stack : List Frame) (ts : List Token) :
    (Expect.next v (.obj members k :: stack)).takeAll (memberTokens ms ++ ([.closeObj] ++ ts))
      = (Expect.next (.obj (members.reverse ++ (k, v) :: ms)) stack).takeAll ts := by
  cases ms with
  | nil =>
    rw [← List.reverse_cons]
    rfl
  | cons m ms =>
    obtain ⟨l, w⟩ := m
    have hrest := takeAll_memberTokens ms l w ((k, v) :: members) stack ts
    rw [List.reverse_cons, List.append_assoc, List.singleton_append] at hrest
    rw [memberTokens, List.cons_append, List.cons_append, List.cons_append, List.append_assoc]
    exact (takeAll_tokens w _ _).trans hrest

end

theorem ofTokens?_tokens (v : Json) : ofTokens? (tokens v) = some v := by
  have htokens := takeAll_tokens v [] []
  rw [List.append_nil] at htokens
  rw [ofTokens?, htokens]
  rfl

/-- CORRECT: a plain value is read back from its text. -/
theorem parse?_pretty {v : Json} (h : Plain v) : parse? v.pretty = some v := by
  have hscan := h.spells 0 [] [] (fun _ hc => by cases hc) rfl
  rw [List.append_nil, List.append_nil] at hscan
  rw [parse?, pretty, String.toList_ofList, hscan]
  exact ofTokens?_tokens v

end KernelFusion.Json
