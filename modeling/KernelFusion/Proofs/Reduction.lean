import KernelFusion.Proofs.Store
import KernelFusion.Schedule.TwoStream
import Mathlib.Data.List.MinMax
import Mathlib.Order.Basic
import Mathlib.Order.Nat

/-!
What is left when the edges across the domains are thinned out.

An edge lies within another of its pair if it starts no earlier and ends no later; a signal for the
first then orders the ends of the second. Each of the three passes drops an edge only for a narrower one
within it, so that every edge keeps one within it to the end. What is left of a pair does not cross:
senders and receivers come in the same order.

        p ───────────────▶ c        dropped
             q ──────▶ d            kept: p ≤ q and d ≤ c

The passes compare places of operators in the lists of the domains, and keep an edge for each key while
they go through the edges. In a graph as events connect it, places are in the order of the operators and
no two edges of a key are equally wide, so that what is kept is known from the ends of the edges alone.
-/

namespace KernelFusion

/-- An edge that starts no earlier and ends no later than another one of its pair. -/
structure Edge.Within (k e : Edge) : Prop where
  pair : k.pair = e.pair
  starts : e.producer ≤ k.producer
  ends : k.consumer ≤ e.consumer

namespace Edge

variable {e k m : Edge}

/-- Number of operators that an edge spans. -/
def width (e : Edge) : Nat := e.consumer - e.producer

theorem Within.refl (e : Edge) : e.Within e := ⟨rfl, le_rfl, le_rfl⟩

theorem Within.trans (h : k.Within m) (h' : m.Within e) : k.Within e :=
  ⟨h.pair.trans h'.pair, h'.starts.trans h.starts, h.ends.trans h'.ends⟩

theorem needsSignal_iff : e.needsSignal = true ↔ e.explicitSync = true ∧ e.pair.isCross = true := by
  simp [needsSignal]

end Edge

namespace TwoStream

variable {g : Graph} {es : List Edge} {a b e k : Edge}

/-! ### Places of operators -/

theorem mem_membersOf {d : Domain} {op : Nat} : op ∈ membersOf g d ↔
    op < g.size ∧ (g.operator op).affinity.contains d = true := by
  simp [membersOf]

theorem membersOf_increasing (g : Graph) (d : Domain) : (membersOf g d).Pairwise (· < ·) :=
  List.pairwise_lt_range.filter _

theorem position_eq {d : Domain} {op : Nat} (h : op ∈ membersOf g d) :
    ∃ i, ∃ hi : i < (membersOf g d).length, position g d op = i ∧ (membersOf g d)[i] = op := by
  cases hfind : (membersOf g d).findIdx? (· == op) with
  | none => exact absurd (List.findIdx?_eq_none_iff.mp hfind op h) (by simp)
  | some i =>
    obtain ⟨hi, heq, _⟩ := List.findIdx?_eq_some_iff_getElem.mp hfind
    exact ⟨i, hi, by rw [position, hfind]; rfl, beq_iff_eq.mp heq⟩

/-- Operators of a domain are placed in their order. -/
theorem position_lt_iff {d : Domain} {x y : Nat} (hx : x ∈ membersOf g d) (hy : y ∈ membersOf g d) :
    position g d x < position g d y ↔ x < y := by
  obtain ⟨i, hi, hposx, hatx⟩ := position_eq hx
  obtain ⟨j, hj, hposy, haty⟩ := position_eq hy
  have hmono := List.pairwise_iff_getElem.mp (membersOf_increasing g d)
  rw [hposx, hposy, ← hatx, ← haty]
  constructor
  · exact hmono i j hi hj
  · intro hlt
    rcases lt_trichotomy i j with h | h | h
    · exact h
    · subst h
      exact absurd hlt (lt_irrefl _)
    · exact absurd (hmono j i hj hi h) (not_lt.mpr hlt.le)

section Linked

variable (hg : g.Linked)
include hg

theorem producer_mem_membersOf (he : e ∈ g.edges) : e.producer ∈ membersOf g e.pair.producer :=
  mem_membersOf.mpr ⟨(hg.ends e he).1,
    List.elem_eq_true_of_mem (DomainPair.between_domains _ _ _ (hg.pairs e he)).1⟩

theorem consumer_mem_membersOf (he : e ∈ g.edges) : e.consumer ∈ membersOf g e.pair.consumer :=
  mem_membersOf.mpr ⟨(hg.ends e he).2,
    List.elem_eq_true_of_mem (DomainPair.between_domains _ _ _ (hg.pairs e he)).2⟩

theorem starts_lt_iff (ha : a ∈ g.edges) (hb : b ∈ g.edges) (hpair : b.pair = a.pair) :
    position g a.pair.producer a.producer < position g a.pair.producer b.producer ↔
      a.producer < b.producer :=
  position_lt_iff (producer_mem_membersOf hg ha) (hpair ▸ producer_mem_membersOf hg hb)

theorem ends_lt_iff (ha : a ∈ g.edges) (hb : b ∈ g.edges) (hpair : b.pair = a.pair) :
    position g a.pair.consumer a.consumer < position g a.pair.consumer b.consumer ↔
      a.consumer < b.consumer :=
  position_lt_iff (consumer_mem_membersOf hg ha) (hpair ▸ consumer_mem_membersOf hg hb)

end Linked

/-! ### One edge for each key -/

section KeepOne

variable {replaces : Nat → Nat → Bool} {key : EdgeKey} {id : Nat} {kept : List (EdgeKey × Nat)}

theorem keys_note : (note replaces key id kept).map Prod.fst
    = if key ∈ kept.map Prod.fst then kept.map Prod.fst else kept.map Prod.fst ++ [key] := by
  induction kept with
  | nil => rfl
  | cons entry rest ih =>
    rw [note]
    split
    next h => simp [h]
    next h =>
      have hne : ¬key = entry.1 := fun heq => h heq.symm
      rw [List.map_cons, ih]
      simp only [List.map_cons, List.mem_cons, hne, false_or]
      split <;> rfl

theorem nodup_note (h : (kept.map Prod.fst).Nodup) :
    ((note replaces key id kept).map Prod.fst).Nodup := by
  rw [keys_note]
  split
  · exact h
  next hnew =>
    refine List.nodup_append.mpr ⟨h, List.nodup_singleton _, fun k hk k' hk' heq => ?_⟩
    rw [heq, List.mem_singleton.mp hk'] at hk
    exact hnew hk

/-- A note changes what stands under its own key. -/
theorem lookup_note (k : EdgeKey) : (note replaces key id kept).lookup k
    = if k = key then some (((kept.lookup key).map fun old => if replaces id old then id else old).getD id)
      else kept.lookup k := by
  induction kept with
  | nil =>
    by_cases hk : k = key
    · simp [note, hk]
    · simp [note, List.lookup_cons, hk, beq_false_of_ne hk]
  | cons entry rest ih =>
    obtain ⟨k', old⟩ := entry
    rw [note]
    by_cases hkey : k' = key
    · subst hkey
      by_cases hk : k = k'
      · simp [hk]
      · simp [List.lookup_cons, hk, beq_false_of_ne hk]
    · have hne : (key == k') = false := beq_false_of_ne (Ne.symm hkey)
      rw [if_neg hkey, List.lookup_cons, List.lookup_cons, List.lookup_cons, ih, hne]
      by_cases hk : k = k'
      · subst hk
        simp [hkey]
      · simp [beq_false_of_ne hk]

/-- Entries under different keys are found again. -/
theorem mem_iff_lookup (h : (kept.map Prod.fst).Nodup) :
    id ∈ kept.map Prod.snd ↔ ∃ k, kept.lookup k = some id := by
  induction kept with
  | nil => simp
  | cons entry rest ih =>
    obtain ⟨k', old⟩ := entry
    obtain ⟨hfirst, hrest⟩ := List.nodup_cons.mp h
    have hmissing : rest.lookup k' = none := by
      refine List.lookup_eq_none_iff.mpr fun p hp => bne_iff_ne.mpr ?_
      rintro rfl
      exact hfirst (List.mem_map.mpr ⟨p, hp, rfl⟩)
    rw [List.map_cons, List.mem_cons, ih hrest]
    constructor
    · rintro (rfl | ⟨k, hk⟩)
      · exact ⟨k', by simp⟩
      · refine ⟨k, ?_⟩
        have hne : k ≠ k' := by
          rintro rfl
          rw [hmissing] at hk
          cases hk
        rw [List.lookup_cons, beq_false_of_ne hne]
        exact hk
    · rintro ⟨k, hk⟩
      by_cases hkey : k = k'
      · subst hkey
        simp at hk
        exact .inl hk.symm
      · rw [List.lookup_cons, beq_false_of_ne hkey] at hk
        exact .inr ⟨k, hk⟩

variable (replaces) (keyOf : Nat → EdgeKey) (rank : Nat → Nat)

/-- Going through edges leaves, under each key, the first one of the least rank. -/
theorem lookup_foldl_note (ids : List Nat) (hreplaces : ∀ i ∈ ids, ∀ j ∈ ids, keyOf i = keyOf j →
      replaces i j = decide (rank i < rank j)) (k : EdgeKey) :
    (ids.foldl (fun kept i => note replaces (keyOf i) i kept) []).lookup k
      = (ids.filter fun i => keyOf i = k).argmin rank := by
  induction ids using List.reverseRecOn with
  | nil => rfl
  | append_singleton ids i ih =>
    have hprevious := ih fun a ha b hb =>
      hreplaces a (List.mem_append_left _ ha) b (List.mem_append_left _ hb)
    rw [List.foldl_append, List.foldl_cons, List.foldl_nil, lookup_note, List.filter_append]
    by_cases hk : k = keyOf i
    · subst hk
      rw [if_pos rfl, hprevious, List.filter_cons_of_pos (by simp), List.filter_nil, List.argmin_concat]
      cases hmin : (ids.filter fun j => keyOf j = keyOf i).argmin rank with
      | none => rfl
      | some old =>
        obtain ⟨hmem, hkey⟩ := List.mem_filter.mp (List.argmin_mem hmin)
        have hnew := hreplaces i (by simp) old (List.mem_append_left _ hmem) (of_decide_eq_true hkey).symm
        simp only [Option.map_some, Option.getD_some, hnew, decide_eq_true_eq]
        split <;> rfl
    · have hne : ¬keyOf i = k := fun heq => hk heq.symm
      rw [if_neg hk, hprevious, List.filter_cons_of_neg (by simpa using hne), List.filter_nil,
        List.append_nil]

theorem nodup_foldl_note (ids : List Nat) (h : (kept.map Prod.fst).Nodup) :
    ((ids.foldl (fun kept i => note replaces (keyOf i) i kept) kept).map Prod.fst).Nodup := by
  induction ids generalizing kept with
  | nil => exact h
  | cons i ids ih => exact ih (nodup_note h)

end KeepOne

/-- Whether no edge of the same key has a lower rank. -/
def isLeast (key : Edge → EdgeKey) (rank : Edge → Nat) (es : List Edge) (e : Edge) : Bool :=
  es.all fun o => !decide (key o = key e) || decide (rank e ≤ rank o)

theorem isLeast_iff {key : Edge → EdgeKey} {rank : Edge → Nat} :
    isLeast key rank es e = true ↔ ∀ o ∈ es, key o = key e → rank e ≤ rank o := by
  simp only [isLeast, List.all_eq_true, Bool.or_eq_true, Bool.not_eq_true', decide_eq_false_iff_not,
    decide_eq_true_eq, ← imp_iff_not_or]

/-- Where edges of one key differ in rank, those of the least rank are kept. -/
theorem keepOne_map {key : Edge → EdgeKey} {replaces : Edge → Edge → Bool} {rank : Edge → Nat}
    (hid : ∀ e ∈ es, g.edge e.id = e)
    (hreplaces : ∀ a ∈ es, ∀ b ∈ es, key a = key b → replaces a b = decide (rank a < rank b))
    (hrank : ∀ a ∈ es, ∀ b ∈ es, key a = key b → rank a = rank b → a = b) :
    keepOne g key replaces (es.map Edge.id) = (es.filter (isLeast key rank es)).map Edge.id := by
  have hlookup := lookup_foldl_note (fun i j => replaces (g.edge i) (g.edge j))
    (fun i => key (g.edge i)) (fun i => rank (g.edge i)) (es.map Edge.id) (by
      simp only [List.forall_mem_map]
      intro a ha b hb hkey
      rw [hid a ha, hid b hb] at hkey ⊢
      exact hreplaces a ha b hb hkey)
  rw [keepOne, List.filter_map]
  refine congrArg _ (List.filter_congr fun e he => Bool.eq_iff_iff.mpr ?_)
  have hkeys := nodup_foldl_note (fun i j => replaces (g.edge i) (g.edge j))
    (fun i => key (g.edge i)) (es.map Edge.id)
    (show (([] : List (EdgeKey × Nat)).map Prod.fst).Nodup from List.nodup_nil)
  rw [Function.comp_apply, List.contains_iff_mem, mem_iff_lookup hkeys]
  have hclass : ∀ o ∈ es, ∀ k,
      o.id ∈ (es.map Edge.id).filter (fun i => key (g.edge i) = k) ↔ key o = k := by
    intro o ho k
    rw [List.mem_filter, and_iff_right (List.mem_map_of_mem ho), hid o ho, decide_eq_true_iff]
  simp only [hlookup, List.argmin_eq_some_iff, isLeast_iff]
  constructor
  · rintro ⟨k, hmem, hleast, _⟩ o ho hkey
    have hek := (hclass e he k).mp hmem
    simpa only [hid e he, hid o ho] using hleast o.id ((hclass o ho k).mpr (hkey.trans hek))
  · intro hleast
    refine ⟨key e, (hclass e he _).mpr rfl, ?_, ?_⟩
    · intro i hi
      obtain ⟨o, ho, rfl⟩ := List.mem_map.mp (List.mem_of_mem_filter hi)
      simpa only [hid e he, hid o ho] using hleast o ho ((hclass o ho _).mp hi)
    · intro i hi hle
      obtain ⟨o, ho, rfl⟩ := List.mem_map.mp (List.mem_of_mem_filter hi)
      have hkey := (hclass o ho _).mp hi
      simp only [hid e he, hid o ho] at hle
      rw [hrank e he o ho hkey.symm (le_antisymm (hleast o ho hkey) hle)]

/-! ### The passes -/

/-- Whether another edge of the pair starts later and ends earlier. -/
def isCrossedIn (es : List Edge) (e : Edge) : Bool :=
  es.any fun o => decide (o.pair = e.pair) && decide (o.consumer < e.consumer)
    && decide (e.producer < o.producer)

theorem isCrossedIn_iff : isCrossedIn es e = true ↔
    ∃ o ∈ es, o.pair = e.pair ∧ o.consumer < e.consumer ∧ e.producer < o.producer := by
  simp [isCrossedIn, and_assoc]

def sender (e : Edge) : EdgeKey := (e.producer, e.pair)

def receiver (e : Edge) : EdgeKey := (e.consumer, e.pair)

/-- The narrowest edge of each key. -/
def narrowest (key : Edge → EdgeKey) (es : List Edge) : List Edge :=
  es.filter (isLeast key Edge.width es)

def uncrossed (es : List Edge) : List Edge := es.filter fun e => !isCrossedIn es e

/-- What the passes leave, by the ends of edges alone. -/
def thinned (g : Graph) : List Edge :=
  narrowest receiver (narrowest sender (uncrossed (g.edges.filter Edge.needsSignal)))

section Linked

variable (hg : g.Linked)
include hg

theorem dropCrossed_map (hes : ∀ e ∈ es, e ∈ g.edges) :
    dropCrossed g (es.map Edge.id) = (uncrossed es).map Edge.id := by
  rw [dropCrossed, List.filter_map]
  refine congrArg _ (List.filter_congr fun e he => ?_)
  have hcrossed : isCrossed g (es.map Edge.id) e.id = isCrossedIn es e := by
    refine Bool.eq_iff_iff.mpr ?_
    rw [isCrossedIn_iff]
    simp only [isCrossed, List.any_map, List.any_eq_true, Function.comp_apply, Bool.and_eq_true,
      decide_eq_true_eq, hg.edge_id (hes e he)]
    refine exists_congr fun o => and_congr_right fun ho => ?_
    rw [hg.edge_id (hes o ho), and_assoc]
    refine and_congr_right fun hpair => ?_
    rw [starts_lt_iff hg (hes e he) (hes o ho) hpair, ← hpair,
      ends_lt_iff hg (hes o ho) (hes e he) hpair.symm]
  rw [Function.comp_apply, hcrossed]

theorem keepEarliest_map (hes : ∀ e ∈ es, e ∈ g.edges) :
    keepEarliest g (es.map Edge.id) = (narrowest sender es).map Edge.id := by
  refine keepOne_map (fun e he => hg.edge_id (hes e he)) ?_ ?_
  · intro a ha b hb hkey
    obtain ⟨hp, hpair⟩ := Prod.mk.inj hkey
    have hfa := hg.forward a (hes a ha)
    have hfb := hg.forward b (hes b hb)
    rw [decide_eq_decide, ends_lt_iff hg (hes a ha) (hes b hb) hpair.symm, Edge.width, Edge.width]
    omega
  · intro a ha b hb hkey hwidth
    obtain ⟨hp, hpair⟩ := Prod.mk.inj hkey
    have hfa := hg.forward a (hes a ha)
    have hfb := hg.forward b (hes b hb)
    rw [Edge.width, Edge.width] at hwidth
    exact hg.unique a (hes a ha) b (hes b hb) hp (by omega) hpair

theorem keepLatest_map (hes : ∀ e ∈ es, e ∈ g.edges) :
    keepLatest g (es.map Edge.id) = (narrowest receiver es).map Edge.id := by
  refine keepOne_map (fun e he => hg.edge_id (hes e he)) ?_ ?_
  · intro a ha b hb hkey
    obtain ⟨hc, hpair⟩ := Prod.mk.inj hkey
    have hfa := hg.forward a (hes a ha)
    have hfb := hg.forward b (hes b hb)
    rw [decide_eq_decide, hpair, starts_lt_iff hg (hes b hb) (hes a ha) hpair, Edge.width, Edge.width]
    omega
  · intro a ha b hb hkey hwidth
    obtain ⟨hc, hpair⟩ := Prod.mk.inj hkey
    have hfa := hg.forward a (hes a ha)
    have hfb := hg.forward b (hes b hb)
    rw [Edge.width, Edge.width] at hwidth
    exact hg.unique a (hes a ha) b (hes b hb) (by omega) hc hpair

/-- Positions and the order of edges decide nothing: the passes only look at the ends of edges. -/
theorem reduce_eq : reduce g = (thinned g).map Edge.id := by
  have h₀ : ∀ e ∈ g.edges.filter Edge.needsSignal, e ∈ g.edges := fun e he => List.mem_of_mem_filter he
  have h₁ : ∀ e ∈ uncrossed (g.edges.filter Edge.needsSignal), e ∈ g.edges :=
    fun e he => h₀ e (List.mem_of_mem_filter he)
  have h₂ : ∀ e ∈ narrowest sender (uncrossed (g.edges.filter Edge.needsSignal)), e ∈ g.edges :=
    fun e he => h₁ e (List.mem_of_mem_filter he)
  rw [reduce, signalled, dropCrossed_map hg h₀, keepEarliest_map hg h₁, keepLatest_map hg h₂, thinned]

end Linked

/-! ### Every edge keeps one within it -/

/-- A pass that drops an edge only for a narrower one within it leaves one within each. -/
theorem exists_filter_within {keep : Edge → Bool}
    (h : ∀ e ∈ es, keep e = false → ∃ o ∈ es, o.Within e ∧ o.width < e.width) (he : e ∈ es) :
    ∃ k ∈ es.filter keep, k.Within e := by
  induction hw : e.width using Nat.strong_induction_on generalizing e with
  | _ w ih =>
    cases hk : keep e with
    | true => exact ⟨e, List.mem_filter.mpr ⟨he, hk⟩, .refl e⟩
    | false =>
      obtain ⟨o, ho, hin, hlt⟩ := h e he hk
      obtain ⟨k, hkept, hko⟩ := ih o.width (hw ▸ hlt) ho rfl
      exact ⟨k, hkept, hko.trans hin⟩

section Passes

variable (hf : ∀ e ∈ es, e.producer < e.consumer)
include hf

theorem exists_uncrossed (he : e ∈ es) : ∃ k ∈ uncrossed es, k.Within e := by
  refine exists_filter_within (fun e he hk => ?_) he
  obtain ⟨o, ho, hpair, hc, hp⟩ := isCrossedIn_iff.mp (Bool.not_eq_false' .. ▸ hk)
  have := hf e he
  exact ⟨o, ho, ⟨hpair, hp.le, hc.le⟩, by simp only [Edge.width]; omega⟩

omit hf in
theorem exists_narrowest {key : Edge → EdgeKey}
    (hkey : ∀ a ∈ es, ∀ b ∈ es, key a = key b → a.width < b.width → a.Within b) (he : e ∈ es) :
    ∃ k ∈ narrowest key es, k.Within e := by
  refine exists_filter_within (fun e he hk => ?_) he
  rw [← Bool.not_eq_true, isLeast_iff] at hk
  push Not at hk
  obtain ⟨o, ho, hsame, hlt⟩ := hk
  exact ⟨o, ho, hkey o ho e he hsame hlt, hlt⟩

theorem within_of_sender (ha : a ∈ es) (hb : b ∈ es) (hkey : sender a = sender b)
    (hwidth : a.width < b.width) : a.Within b := by
  obtain ⟨hp, hpair⟩ := Prod.mk.inj hkey
  have hfa := hf a ha
  have hfb := hf b hb
  rw [Edge.width, Edge.width] at hwidth
  exact ⟨hpair, hp.ge, by omega⟩

theorem within_of_receiver (ha : a ∈ es) (hb : b ∈ es) (hkey : receiver a = receiver b)
    (hwidth : a.width < b.width) : a.Within b := by
  obtain ⟨hc, hpair⟩ := Prod.mk.inj hkey
  have hfa := hf a ha
  have hfb := hf b hb
  rw [Edge.width, Edge.width] at hwidth
  exact ⟨hpair, by omega, hc.le⟩

end Passes

theorem mem_thinned (h : k ∈ thinned g) : k ∈ g.edges ∧ k.needsSignal = true := by
  have hk := List.mem_of_mem_filter (List.mem_of_mem_filter (List.mem_of_mem_filter h))
  exact List.mem_filter.mp hk

section Forward

variable (hf : ∀ e ∈ g.edges, e.producer < e.consumer)
include hf

/-- Every edge that needs a signal has one within it that is signalled. -/
theorem exists_thinned (he : e ∈ g.edges) (hs : e.needsSignal = true) : ∃ k ∈ thinned g, k.Within e := by
  have h₀ : ∀ e ∈ g.edges.filter Edge.needsSignal, e.producer < e.consumer :=
    fun e he => hf e (List.mem_of_mem_filter he)
  have h₁ : ∀ e ∈ uncrossed (g.edges.filter Edge.needsSignal), e.producer < e.consumer :=
    fun e he => h₀ e (List.mem_of_mem_filter he)
  have h₂ : ∀ e ∈ narrowest sender (uncrossed (g.edges.filter Edge.needsSignal)),
      e.producer < e.consumer := fun e he => h₁ e (List.mem_of_mem_filter he)
  obtain ⟨a, ha, hae⟩ := exists_uncrossed h₀ (List.mem_filter.mpr ⟨he, hs⟩)
  obtain ⟨b, hb, hba⟩ := exists_narrowest (fun x hx y hy => within_of_sender h₁ hx hy) ha
  obtain ⟨k, hk, hkb⟩ := exists_narrowest (fun x hx y hy => within_of_receiver h₂ hx hy) hb
  exact ⟨k, hk, (hkb.trans hba).trans hae⟩

/-! ### Signals of one pair do not cross -/

section Order

variable (ha : a ∈ thinned g) (hb : b ∈ thinned g) (hpair : a.pair = b.pair)
include ha hb hpair

theorem thinned_sender (hp : a.producer = b.producer) : a.consumer = b.consumer := by
  obtain ⟨ha₁, ha₂⟩ := List.mem_filter.mp (List.mem_of_mem_filter ha)
  obtain ⟨hb₁, hb₂⟩ := List.mem_filter.mp (List.mem_of_mem_filter hb)
  have hkey : sender a = sender b := by rw [sender, sender, hp, hpair]
  have hab := isLeast_iff.mp ha₂ b hb₁ hkey.symm
  have hba := isLeast_iff.mp hb₂ a ha₁ hkey
  have hfa := hf a (mem_thinned ha).1
  have hfb := hf b (mem_thinned hb).1
  rw [Edge.width, Edge.width] at hab hba
  omega

theorem thinned_receiver (hc : a.consumer = b.consumer) : a.producer = b.producer := by
  obtain ⟨ha₁, ha₂⟩ := List.mem_filter.mp ha
  obtain ⟨hb₁, hb₂⟩ := List.mem_filter.mp hb
  have hkey : receiver a = receiver b := by rw [receiver, receiver, hc, hpair]
  have hab := isLeast_iff.mp ha₂ b hb₁ hkey.symm
  have hba := isLeast_iff.mp hb₂ a ha₁ hkey
  have hfa := hf a (mem_thinned ha).1
  have hfb := hf b (mem_thinned hb).1
  rw [Edge.width, Edge.width] at hab hba
  omega

theorem thinned_ends (hp : a.producer < b.producer) : a.consumer < b.consumer := by
  have hcross := (List.mem_filter.mp (List.mem_of_mem_filter (List.mem_of_mem_filter ha))).2
  have hb' := List.mem_of_mem_filter (List.mem_of_mem_filter (List.mem_of_mem_filter hb))
  have hle : a.consumer ≤ b.consumer := by
    by_contra hlt
    rw [isCrossedIn_iff.mpr ⟨b, hb', hpair.symm, not_le.mp hlt, hp⟩] at hcross
    cases hcross
  refine lt_of_le_of_ne hle fun hc => ?_
  have := thinned_receiver hf ha hb hpair hc
  omega

/-- Of two signalled edges of a pair, the one that starts first ends first. -/
theorem thinned_order : a.producer < b.producer ↔ a.consumer < b.consumer := by
  refine ⟨thinned_ends hf ha hb hpair, fun hc => ?_⟩
  rcases lt_trichotomy a.producer b.producer with h | h | h
  · exact h
  · have := thinned_sender hf ha hb hpair h
    omega
  · have := thinned_ends hf hb ha hpair.symm h
    omega

end Order

end Forward

/-! ### Edges that are kept -/

section Linked

variable (hg : g.Linked)
include hg

theorem mem_keptEdges : k ∈ keptEdges g ↔
    k ∈ g.edges ∧ k.explicitSync = true ∧ (k.pair.isCross = false ∨ k ∈ thinned g) := by
  have hid : k ∈ g.edges → ((∃ a ∈ thinned g, a.id = k.id) ↔ k ∈ thinned g) := by
    intro hk
    refine ⟨?_, fun h => ⟨k, h, rfl⟩⟩
    rintro ⟨a, ha, hid⟩
    exact hg.id_injective (mem_thinned ha).1 hk hid ▸ ha
  simp only [keptEdges, reduce_eq hg, List.mem_filter, Bool.and_eq_true, Bool.or_eq_true,
    Bool.not_eq_true', List.contains_iff_mem, List.mem_map]
  exact and_congr_right fun hk => and_congr_right fun _ => or_congr_right (hid hk)

theorem mem_keptEdges_cross : (k ∈ keptEdges g ∧ k.pair.isCross = true) ↔ k ∈ thinned g := by
  constructor
  · rintro ⟨hk, hcross⟩
    obtain ⟨_, _, hk | hk⟩ := (mem_keptEdges hg).mp hk
    · rw [hcross] at hk
      cases hk
    · exact hk
  · intro hk
    obtain ⟨hmem, hs⟩ := mem_thinned hk
    obtain ⟨hexp, hcross⟩ := Edge.needsSignal_iff.mp hs
    exact ⟨(mem_keptEdges hg).mpr ⟨hmem, hexp, .inr hk⟩, hcross⟩

end Linked

end TwoStream

end KernelFusion
