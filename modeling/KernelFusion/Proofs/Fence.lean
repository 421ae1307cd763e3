import KernelFusion.Proofs.TwoStreamOrder

/-!
Order of two steps that need not be calls, such as the steps on outer events.

Only block 0 of one domain carries out a step on events. Its place in a list therefore says nothing of
the other units: all units of a domain are behind a step only where they meet behind it, and those of
the other domain only where that is signalled to them, or where both domains meet.

        first ─── barrier ─────────────── last        one domain
        first ─── barrier ─ signal
                              ╲
                              wait ────── last        two domains
        first ─── full barrier ────────── last        any
-/

namespace KernelFusion

open List

/-! ### Between two steps that stand once in a list -/

variable {α : Type}

theorem sublist_behind {a : α} {bs us vs : List α} (ha : a ∉ us) (h : a :: bs <+ us ++ a :: vs) :
    bs <+ vs := by
  induction us with
  | nil => exact List.cons_sublist_cons.mp h
  | cons u us ih =>
    obtain ⟨hne, hus⟩ := List.ne_and_not_mem_of_not_mem_cons ha
    exact ih hus (h.of_cons_of_ne hne)

/-- What stands between two steps is a part of what is written there. -/
theorem sublist_between_iff {a z : α} {xs us mid vs : List α} (ha : a ∉ us) (hz : z ∉ vs) :
    a :: (xs ++ [z]) <+ us ++ a :: (mid ++ z :: vs) ↔ xs <+ mid := by
  constructor
  · intro h
    have hreverse : z :: xs.reverse <+ vs.reverse ++ z :: mid.reverse := by
      simpa using (sublist_behind ha h).reverse
    exact List.reverse_sublist.mp (sublist_behind (by simpa using hz) hreverse)
  · intro h
    have hlast : [z] <+ z :: vs := List.singleton_sublist.mpr List.mem_cons_self
    exact ((h.append hlast).cons_cons a).trans (List.sublist_append_right _ _)

theorem not_mem_of_nodup {test : α → Bool} {a : α} {us vs : List α}
    (hn : ((us ++ a :: vs).filter test).Nodup) (ha : test a = true) : a ∉ us ∧ a ∉ vs := by
  rw [List.filter_append, List.filter_cons_of_pos ha] at hn
  obtain ⟨_, hvs, hdisjoint⟩ := List.nodup_append.mp hn
  constructor
  · intro hmem
    exact hdisjoint a (List.mem_filter.mpr ⟨hmem, ha⟩) a List.mem_cons_self rfl
  · intro hmem
    exact (List.nodup_cons.mp hvs).1 (List.mem_filter.mpr ⟨hmem, ha⟩)

theorem sublist_between_iff_of_nodup {test : α → Bool} {a z : α} {xs us mid vs : List α}
    (hn : ((us ++ a :: (mid ++ z :: vs)).filter test).Nodup) (ha : test a = true) (hz : test z = true) :
    a :: (xs ++ [z]) <+ us ++ a :: (mid ++ z :: vs) ↔ xs <+ mid := by
  have hfirst := (not_mem_of_nodup hn ha).1
  rw [← List.cons_append, ← List.append_assoc] at hn
  exact sublist_between_iff hfirst (not_mem_of_nodup hn hz).2

/-- Blocks of different operators have nothing in common where each step tells its operator. -/
theorem nodup_blocks {ops : List Nat} (hops : ops.Nodup) {f : Nat → List α} (hf : ∀ op, (f op).Nodup)
    (tag : α → Nat) (htag : ∀ op, ∀ s ∈ f op, tag s = op) : (ops.flatMap f).Nodup := by
  refine List.nodup_flatMap.mpr ⟨fun op _ => hf op, hops.imp fun hne s hs hs' => hne ?_⟩
  rw [← htag _ s hs, ← htag _ s hs']

/-- Neighbours in an increasing list of operators stand side by side. -/
theorem exists_split_next {ops : List Nat} (hinc : ops.Pairwise (· < ·)) {op : Nat} (h : op ∈ ops)
    (hnext : op + 1 ∈ ops) : ∃ before after, ops = before ++ op :: (op + 1) :: after := by
  obtain ⟨before, rest, rfl⟩ := List.append_of_mem h
  obtain ⟨_, hrest, hbefore⟩ := List.pairwise_append.mp hinc
  obtain ⟨hbehind, hrest⟩ := List.pairwise_cons.mp hrest
  have hmem : op + 1 ∈ rest := by
    rcases List.mem_append.mp hnext with hmem | hmem
    · have := hbefore _ hmem op List.mem_cons_self
      omega
    · exact (List.mem_cons.mp hmem).resolve_left (by omega)
  cases rest with
  | nil => cases hmem
  | cons next after =>
    have hlt := hbehind next List.mem_cons_self
    rcases List.mem_cons.mp hmem with rfl | hmem
    · exact ⟨before, after, rfl⟩
    · have := (List.pairwise_cons.mp hrest).1 _ hmem
      omega

/-! ### One list -/

namespace Schedule

variable {dp dc : Domain} {xs ys steps : List Step}

/-- `Fence dp dc xs`: units of domain `dc` get past the steps `xs` only when all of `dp` have come to
them. -/
inductive Fence (dp : Domain) : Domain → List Step → Prop where
  | meeting {dc : Domain} {b : Barrier} (hb : b.scope = .full) : Fence dp dc [.barrier b]
  | barrier {b : Barrier} (hb : b.scope = .domain dp) : Fence dp dp [.barrier b]
  | signal {dc : Domain} {edge : Nat} {b : Barrier} {pipe : Pipe} {flag : Flag}
      (hb : b.scope = .domain dp) :
      Fence dp dc [.barrier b, .signal edge dp pipe flag, .wait edge dc flag]

/-- Some steps of a list are a fence. -/
def Fences (steps : List Step) (dp dc : Domain) : Prop := ∃ xs, Fence dp dc xs ∧ xs <+ steps

/-- `Fenced steps first dp last dc`: units of `dc` come to `last` only when all of `dp` are behind
`first`. -/
def Fenced (steps : List Step) (first : Step) (dp : Domain) (last : Step) (dc : Domain) : Prop :=
  ∃ xs, Fence dp dc xs ∧ first :: (xs ++ [last]) <+ steps

theorem Fences.mono (h : Fences xs dp dc) (hsub : xs <+ ys) : Fences ys dp dc := by
  obtain ⟨zs, hfence, hzs⟩ := h
  exact ⟨zs, hfence, hzs.trans hsub⟩

theorem Fenced.fences {first last : Step} (h : Fenced steps first dp last dc) : Fences steps dp dc := by
  obtain ⟨xs, hfence, hsub⟩ := h
  exact ⟨xs, hfence, ((List.sublist_append_left xs _).trans (List.sublist_cons_self _ _)).trans hsub⟩

/-- Two steps that stand once are fenced by the steps between them. -/
theorem fenced_of_nodup {test : Step → Bool} {first last : Step} {front mid back : List Step}
    (hn : ((front ++ first :: (mid ++ last :: back)).filter test).Nodup) (hfirst : test first = true)
    (hlast : test last = true) :
    Fenced (front ++ first :: (mid ++ last :: back)) first dp last dc ↔ Fences mid dp dc := by
  simp only [Fenced, Fences, sublist_between_iff_of_nodup hn hfirst hlast]

/-- A full barrier fences, and a barrier of the first domain where there is no second one, or where
the second waits for something. -/
theorem Fences.cases (h : Fences steps dp dc) :
    (∃ b : Barrier, b.scope = .full ∧ .barrier b ∈ steps) ∨
    (∃ b : Barrier, b.scope = .domain dp ∧ .barrier b ∈ steps) ∧
      (dp = dc ∨ ∃ edge flag, .wait edge dc flag ∈ steps) := by
  obtain ⟨xs, hfence, hsub⟩ := h
  cases hfence with
  | meeting hb => exact .inl ⟨_, hb, hsub.subset (by simp)⟩
  | barrier hb => exact .inr ⟨⟨_, hb, hsub.subset (by simp)⟩, .inl rfl⟩
  | @signal _ edge b pipe flag hb =>
    exact .inr ⟨⟨b, hb, hsub.subset (by simp)⟩, .inr ⟨edge, flag, hsub.subset (by simp)⟩⟩

theorem fences_full {b : Barrier} (hb : b.scope = .full) (h : .barrier b ∈ steps) : Fences steps dp dc :=
  ⟨_, .meeting hb, List.singleton_sublist.mpr h⟩

theorem fences_domain {d : Domain} {b : Barrier} (hb : b.scope = .domain d) (h : .barrier b ∈ steps) :
    Fences steps d d :=
  ⟨_, .barrier hb, List.singleton_sublist.mpr h⟩

/-- A barrier over a kernel type fences between domains of it. -/
theorem fences_covering {t : KernelType} (h : .barrier (.covering t) ∈ steps)
    (hp : dp ∈ t.affinity.domains) (hc : dc ∈ t.affinity.domains) : Fences steps dp dc := by
  by_cases hmixed : t.affinity = .mixed
  · exact fences_full (by simp [Barrier.covering, hmixed]) h
  · obtain rfl := Affinity.domain_unique hmixed hp hc
    refine fences_domain ?_ h
    have hprimary : t.affinity.primary = dp := by
      cases ha : t.affinity <;> simp_all [Affinity.domains, Affinity.primary]
    unfold Barrier.covering
    split
    · contradiction
    · rw [hprimary, Barrier.domain]

end Schedule

/-! ### Two lists -/

/-- The same of a schedule that has a list for each domain. -/
inductive StreamSteps.Fenced (s : StreamSteps) (first : Step) (dp : Domain) (last : Step)
    (dc : Domain) : Prop where
  | barrier {b : Barrier} (hd : dp = dc) (hb : b.covers dp = true)
      (horder : [first, .barrier b, last] <+ s.get dp) : Fenced s first dp last dc
  | signal {i j : Nat} {b : Barrier} {flag : Flag} (hne : dp ≠ dc) (hb : b.covers dp = true)
      (hbehind : [first, .barrier b] <+ (s.get dp).take i)
      (hpaired : Paired (s.get dp) (Step.isSignalOn flag) i (s.get dc) (Step.isWaitOn flag) j)
      (hbefore : last ∈ (s.get dc).drop j) : Fenced s first dp last dc
  | meeting {i j : Nat} (hne : dp ≠ dc) (hbehind : first ∈ (s.get dp).take i)
      (hpaired : Paired (s.get dp) Step.isFullBarrier i (s.get dc) Step.isFullBarrier j)
      (hbefore : last ∈ (s.get dc).drop j) : Fenced s first dp last dc

theorem StreamSteps.fenced_self {s : StreamSteps} {first last : Step} {d : Domain} :
    s.Fenced first d last d ↔
      ∃ b : Barrier, b.covers d = true ∧ [first, .barrier b, last] <+ s.get d := by
  constructor
  · intro h
    cases h with
    | barrier _ hb horder => exact ⟨_, hb, horder⟩
    | signal hne => exact absurd rfl hne
    | meeting hne => exact absurd rfl hne
  · rintro ⟨b, hb, horder⟩
    exact .barrier rfl hb horder

end KernelFusion
