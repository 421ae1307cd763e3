import KernelFusion.Schedule.Channels
import Mathlib.Data.List.Nodup
import Mathlib.Order.Bounds.Defs

/-!
The pool of channels under any sequence of calls.

An edge may ask for a channel at any time, also if it holds one already, and any number may be given back,
also one that is free or no channel at all. A log notes what comes of each call. Behind all calls the pool
is what the log says: a channel is in use exactly if the last thing that has happened to it is that it was
handed out, and the edge that it was handed out to is the one that is told when it comes back.

        acquire a   acquire b   release 1   release 1   acquire c   release 1
        1           2           a           nothing     1           c

So no channel has two edges, and a signal on it is for the edge that holds it.
-/

namespace KernelFusion.Channels

variable {c : Channels} {n k edge : Nat}

/-- The channels in use. -/
def inUse (c : Channels) : List Nat := c.live.map Prod.fst

/-- The channels that are left. -/
def free (c : Channels) : Set Nat := {n | 1 ≤ n ∧ n ≤ 8 ∧ n ∉ c.inUse}

theorem holds_iff : c.holds n = true ↔ n ∈ c.inUse := by
  simp [holds, inUse]

theorem mem_inUse : n ∈ c.inUse ↔ ∃ edge, (n, edge) ∈ c.live := by
  simp [inUse]

/-! ### One call on a pool -/

/-- A channel is asked for in vain exactly if none is free; otherwise the lowest free one is handed out. -/
theorem acquire_cases (c : Channels) (e : Edge) :
    ((∀ n, 1 ≤ n → n ≤ 8 → n ∈ c.inUse) ∧ c.acquire e = (.error (.channelExhausted e), c)) ∨
    ∃ n, IsLeast c.free n ∧ c.acquire e = (.ok n, ⟨(n, e.id) :: c.live⟩) := by
  have hall : all = List.range' 1 8 := rfl
  cases hfind : all.find? fun channel => !c.holds channel with
  | none =>
    refine .inl ⟨fun n hlow hhigh => ?_, by rw [acquire, hfind]⟩
    rw [hall, List.find?_range'_eq_none] at hfind
    have hheld := hfind n hlow (by omega)
    rwa [Bool.not_not, holds_iff] at hheld
  | some n =>
    refine .inr ⟨n, ?_, by rw [acquire, hfind]⟩
    rw [hall, List.find?_range'_eq_some] at hfind
    obtain ⟨hn, hmem, hbelow⟩ := hfind
    obtain ⟨hlow, hhigh⟩ := List.mem_range'_1.mp hmem
    refine ⟨⟨hlow, by omega, ?_⟩, ?_⟩
    · rw [← holds_iff, Bool.not_eq_true, ← Bool.not_eq_true']
      exact hn
    · -- the search has passed over all lower channels, each of them in use
      rintro k ⟨hk, _, hfree⟩
      refine Nat.le_of_not_lt fun hlt => hfree ?_
      have hheld := hbelow k hk hlt
      rwa [Bool.not_not, holds_iff] at hheld

theorem mem_release :
    (k, edge) ∈ (c.release n).2.live ↔ k ≠ n ∧ (k, edge) ∈ c.live := by
  simp [release, and_comm]

/-- A number comes back from the edge that holds it, if there is one. -/
theorem release_cases (c : Channels) (n : Nat) :
    (n ∉ c.inUse ∧ c.release n = (Option.none, c)) ∨
    ∃ edge, (n, edge) ∈ c.live ∧ (c.release n).1 = some edge := by
  cases hfind : c.live.find? fun h => h.1 == n with
  | none =>
    rw [List.find?_eq_none] at hfind
    have hne : ∀ h ∈ c.live, h.1 ≠ n := fun h hh => by simpa using hfind h hh
    have hkeep : c.live.filter (fun h => h.1 != n) = c.live :=
      List.filter_eq_self.mpr fun h hh => bne_iff_ne.mpr (hne h hh)
    refine .inl ⟨fun hn => ?_, ?_⟩
    · obtain ⟨edge, hedge⟩ := mem_inUse.mp hn
      exact hne _ hedge rfl
    · rw [release, List.find?_eq_none.mpr hfind, hkeep]
      rfl
  | some h =>
    obtain ⟨k, edge⟩ := h
    have hk : k = n := by simpa using List.find?_some hfind
    refine .inr ⟨edge, hk ▸ List.mem_of_find?_eq_some hfind, ?_⟩
    rw [release, hfind]
    rfl

/-- No more than one channel comes back. -/
theorem inFlight_release (hc : c.inUse.Nodup) (hn : n ∈ c.inUse) :
    (c.release n).2.inFlight + 1 = c.inFlight := by
  have hone : c.live.countP (fun h => h.1 == n) = 1 := by
    have hcount : c.inUse.count n = 1 := List.count_eq_one_of_mem hc hn
    rwa [inUse, List.count, List.countP_map] at hcount
  have hrest : (c.release n).2.inFlight = c.live.countP fun h => decide ¬(h.1 == n) = true := by
    rw [inFlight, release, ← List.countP_eq_length_filter]
    exact List.countP_congr fun h _ => by simp
  rw [hrest, inFlight, List.length_eq_countP_add_countP (fun h => h.1 == n), hone, Nat.add_comm]

/-! ### Calls and what comes of them -/

/-- What the pool can be asked for. -/
inductive Call where
  | acquire (e : Edge)
  | release (channel : Nat)

/-- What comes of a call. -/
inductive Event where
  /-- a channel is handed out to an edge -/
  | granted (channel edge : Nat)
  /-- no channel is left to hand out -/
  | refused
  /-- a channel comes back from an edge -/
  | returned (channel edge : Nat)
  /-- a number comes back that no edge holds -/
  | unheld
  deriving DecidableEq

namespace Event

/-- Whether something happens to a channel. -/
def concerns (channel : Nat) : Event → Bool
  | .granted n _ => n == channel
  | .returned n _ => n == channel
  | .refused => false
  | .unheld => false

def isGranted : Event → Bool
  | .granted .. => true
  | _ => false

def isReturned : Event → Bool
  | .returned .. => true
  | _ => false

end Event

/-- What comes of a call, and the pool behind it. -/
def answer (c : Channels) : Call → Event × Channels
  | .acquire e =>
    match c.acquire e with
    | (.ok channel, c') => (.granted channel e.id, c')
    | (.error _, c') => (.refused, c')
  | .release channel =>
    match c.release channel with
    | (some edge, c') => (.returned channel edge, c')
    | (Option.none, c') => (.unheld, c')

theorem answer_release (c : Channels) (n : Nat) :
    c.answer (.release n) = ((c.release n).1.elim .unheld (.returned n), (c.release n).2) := by
  rw [answer]
  rcases c.release n with ⟨_ | edge, c'⟩ <;> rfl

/-- A pool in use, with what has come of all calls so far. -/
structure Usage where
  pool : Channels
  log : List Event

/-- One call more. -/
def Usage.next (u : Usage) (call : Call) : Usage :=
  ⟨(u.pool.answer call).2, u.log ++ [(u.pool.answer call).1]⟩

/-- The pool behind calls, with all channels free before the first of them. -/
def usage (calls : List Call) : Usage := calls.foldl Usage.next ⟨.none, []⟩

/-! ### What a log says of a channel -/

/-- The edge got the channel last, and nothing has happened to the channel since. -/
def HeldBy (log : List Event) (n edge : Nat) : Prop :=
  (log.filter (Event.concerns n)).getLast? = some (.granted n edge)

instance (log : List Event) (n edge : Nat) : Decidable (HeldBy log n edge) :=
  inferInstanceAs (Decidable (_ = _))

variable {log : List Event} {ev : Event}

theorem heldBy_concat_of_concerns (h : ev.concerns n = true) :
    HeldBy (log ++ [ev]) n edge ↔ ev = .granted n edge := by
  simp [HeldBy, List.filter_append, h]

theorem heldBy_concat_of_not_concerns (h : ev.concerns n = false) :
    HeldBy (log ++ [ev]) n edge ↔ HeldBy log n edge := by
  simp [HeldBy, List.filter_append, h]

theorem HeldBy.unique {edge' : Nat} (h : HeldBy log n edge) (h' : HeldBy log n edge') :
    edge = edge' := by
  rw [HeldBy, h] at h'
  cases h'
  rfl

/-! ### One step -/

namespace Usage

variable {u : Usage}

/-- The pool is what the log says. -/
structure Kept (u : Usage) : Prop where
  distinct : u.pool.inUse.Nodup
  numbers : ∀ n ∈ u.pool.inUse, 1 ≤ n ∧ n ≤ 8
  holders : ∀ n edge, (n, edge) ∈ u.pool.live ↔ HeldBy u.log n edge
  balance : u.pool.inFlight + u.log.countP Event.isReturned = u.log.countP Event.isGranted

theorem Kept.granted (h : u.Kept) (hn : n ∈ u.pool.free) (edge : Nat) :
    Kept ⟨⟨(n, edge) :: u.pool.live⟩, u.log ++ [.granted n edge]⟩ := by
  obtain ⟨hlow, hhigh, hfree⟩ := hn
  constructor
  case distinct => exact List.nodup_cons.mpr ⟨hfree, h.distinct⟩
  case numbers =>
    intro k hk
    rcases List.mem_cons.mp hk with rfl | hk
    · exact ⟨hlow, hhigh⟩
    · exact h.numbers k hk
  case holders =>
    intro k edge'
    by_cases hk : k = n
    · -- the channel was free, so that no edge but the new one has it
      subst hk
      have hnone : (k, edge') ∉ u.pool.live := fun hmem => hfree (mem_inUse.mpr ⟨edge', hmem⟩)
      rw [heldBy_concat_of_concerns (by simp [Event.concerns])]
      simp [hnone, eq_comm]
    · rw [heldBy_concat_of_not_concerns (by simp [Event.concerns, Ne.symm hk]), ← h.holders]
      simp [hk]
  case balance =>
    have hbalance := h.balance
    simp only [inFlight, List.length_cons, List.countP_append, List.countP_singleton,
      Event.isReturned, Event.isGranted, Bool.false_eq_true, if_true, if_false] at hbalance ⊢
    omega

theorem Kept.returned (h : u.Kept) (hn : (n, edge) ∈ u.pool.live) :
    Kept ⟨(u.pool.release n).2, u.log ++ [.returned n edge]⟩ := by
  have hsub : (u.pool.release n).2.live.Sublist u.pool.live := List.filter_sublist
  constructor
  case distinct => exact h.distinct.sublist (hsub.map Prod.fst)
  case numbers => exact fun k hk => h.numbers k ((hsub.map Prod.fst).subset hk)
  case holders =>
    intro k edge'
    rw [mem_release]
    by_cases hk : k = n
    · subst hk
      rw [heldBy_concat_of_concerns (by simp [Event.concerns])]
      simp
    · rw [heldBy_concat_of_not_concerns (by simp [Event.concerns, Ne.symm hk]), ← h.holders]
      simp [hk]
  case balance =>
    have hbalance := h.balance
    have hlength := inFlight_release h.distinct (mem_inUse.mpr ⟨edge, hn⟩)
    simp only [List.countP_append, List.countP_singleton, Event.isReturned, Event.isGranted,
      Bool.false_eq_true, if_true, if_false]
    omega

/-- A call that comes to nothing changes the log only. -/
theorem Kept.idle (h : u.Kept) (hev : ev = .refused ∨ ev = .unheld) :
    Kept ⟨u.pool, u.log ++ [ev]⟩ := by
  have hother : ∀ n, ev.concerns n = false := by
    rcases hev with rfl | rfl <;> exact fun _ => rfl
  have hcount : ev.isReturned = false ∧ ev.isGranted = false := by
    rcases hev with rfl | rfl <;> exact ⟨rfl, rfl⟩
  refine ⟨h.distinct, h.numbers, fun n edge => ?_, ?_⟩
  · rw [heldBy_concat_of_not_concerns (hother n)]
    exact h.holders n edge
  · simpa [List.countP_append, hcount] using h.balance

theorem Kept.next (h : u.Kept) (call : Call) : (u.next call).Kept := by
  unfold Usage.next
  cases call with
  | acquire e =>
    rcases acquire_cases u.pool e with ⟨_, hfail⟩ | ⟨n, hleast, hok⟩
    · rw [answer, hfail]
      exact h.idle (.inl rfl)
    · rw [answer, hok]
      exact h.granted hleast.1 e.id
  | release n =>
    rcases release_cases u.pool n with ⟨_, hnone⟩ | ⟨edge, hmem, hsome⟩
    · rw [answer_release, hnone]
      exact h.idle (.inr rfl)
    · rw [answer_release, hsome]
      exact h.returned hmem

/-! ### All calls -/

theorem kept_start : Kept ⟨.none, []⟩ where
  distinct := List.nodup_nil
  numbers := by simp [inUse, Channels.none]
  holders := by simp [HeldBy, Channels.none]
  balance := rfl

theorem kept_usage (calls : List Call) : (usage calls).Kept :=
  List.foldlRecOn calls next kept_start fun _ h call _ => h.next call

/-- What an edge gets that asks for a channel: the lowest free one, and none only if all are in use. -/
structure Serves (u : Usage) (e : Edge) : Prop where
  fails : (∃ err c, u.pool.acquire e = (.error err, c)) ↔ ∀ n, 1 ≤ n → n ≤ 8 → n ∈ u.pool.inUse
  unchanged : ∀ err c, u.pool.acquire e = (.error err, c) →
    c = u.pool ∧ (u.next (.acquire e)).pool = u.pool
  lowest : ∀ n c, u.pool.acquire e = (.ok n, c) → IsLeast u.pool.free n
  records : ∀ n c, u.pool.acquire e = (.ok n, c) → (u.next (.acquire e)).pool = c ∧
    ∀ k edge, (k, edge) ∈ c.live ↔ (k = n ∧ edge = e.id) ∨ (k, edge) ∈ u.pool.live

theorem serves (u : Usage) (e : Edge) : u.Serves e := by
  rcases acquire_cases u.pool e with ⟨hall, hfail⟩ | ⟨n, hleast, hok⟩
  · constructor
    case fails => exact ⟨fun _ => hall, fun _ => ⟨_, _, hfail⟩⟩
    case unchanged =>
      intro err c hc
      rw [hfail] at hc
      cases hc
      rw [Usage.next, answer, hfail]
      exact ⟨rfl, rfl⟩
    case lowest => simp [hfail]
    case records => simp [hfail]
  · obtain ⟨hlow, hhigh, hfree⟩ := hleast.1
    constructor
    case fails =>
      refine ⟨?_, fun hall => absurd (hall n hlow hhigh) hfree⟩
      rintro ⟨err, c, herr⟩
      rw [hok] at herr
      cases herr
    case unchanged => simp [hok]
    case lowest =>
      intro k c hc
      rw [hok] at hc
      cases hc
      exact hleast
    case records =>
      intro k c hc
      rw [hok] at hc
      cases hc
      rw [Usage.next, answer, hok]
      simp

/-- What happens to a number that comes back: the edge that holds it is told, and only this channel is free
then; nothing if there is no such edge. -/
structure TakesBack (u : Usage) (n : Nat) : Prop where
  tells : ∀ edge, HeldBy u.log n edge → (u.pool.release n).1 = some edge
  frees : (u.next (.release n)).pool = (u.pool.release n).2 ∧
    ∀ k edge, (k, edge) ∈ (u.pool.release n).2.live ↔ k ≠ n ∧ (k, edge) ∈ u.pool.live
  unheld : (∀ edge, ¬HeldBy u.log n edge) → u.pool.release n = (Option.none, u.pool)

theorem Kept.takesBack (h : u.Kept) (n : Nat) : u.TakesBack n := by
  have hpool : (u.next (.release n)).pool = (u.pool.release n).2 := by
    rw [Usage.next, answer_release]
  refine ⟨fun edge hedge => ?_, ⟨hpool, fun _ _ => mem_release⟩, fun hnone => ?_⟩
  · rcases release_cases u.pool n with ⟨hfree, _⟩ | ⟨edge', hmem, hsome⟩
    · exact absurd (mem_inUse.mpr ⟨edge, (h.holders n edge).mpr hedge⟩) hfree
    · -- the log has one last event for the channel, so that both edges are the same
      rw [hsome, ((h.holders n edge').mp hmem).unique hedge]
  · rcases release_cases u.pool n with ⟨_, hsame⟩ | ⟨edge, hmem, _⟩
    · exact hsame
    · exact absurd ((h.holders n edge).mp hmem) (hnone edge)

end Usage

/-- CORRECT: behind any calls, the channels in use are different numbers from 1 to 8, each held by the edge
that got it last, and as many as were handed out and have not come back. A further edge gets the lowest free
channel, and none exactly if all eight are in use; a number that comes back frees the channel of that number
and no other, and changes nothing if no edge holds it. -/
theorem pool_follows_calls (calls : List Call) :
    (usage calls).Kept ∧ (∀ e, (usage calls).Serves e) ∧ ∀ n, (usage calls).TakesBack n :=
  ⟨Usage.kept_usage calls, Usage.serves _, (Usage.kept_usage calls).takesBack⟩

/-- Ten edges that ask for a channel. -/
def crowd : List Call :=
  (List.range 10).map fun id => .acquire ⟨id, id, 10, ⟨.vector, .cube⟩, .sequence, true⟩

/-- The same edges, and then the third channel given back. -/
def crowdServed : List Call := crowd ++ [.release 3]

/-- The ninth edge and the tenth find no channel; the third channel comes back from the third edge, and only
once. -/
theorem crowd_followed :
    (usage crowd).pool.inFlight = 8 ∧
    (∃ err c, (usage crowd).pool.acquire default = (.error err, c)) ∧
    HeldBy (usage crowd).log 3 2 ∧ ((usage crowd).pool.release 3).1 = some 2 ∧
    IsLeast (usage crowdServed).pool.free 3 ∧ (∀ edge, ¬HeldBy (usage crowdServed).log 3 edge) ∧
    (usage crowdServed).pool.release 3 = (Option.none, (usage crowdServed).pool) := by
  obtain ⟨_, hserves, hback⟩ := pool_follows_calls crowd
  obtain ⟨_, hserves', hback'⟩ := pool_follows_calls crowdServed
  have hfull : (usage crowd).pool.inUse = [8, 7, 6, 5, 4, 3, 2, 1] := by decide
  have hheld : HeldBy (usage crowd).log 3 2 := by decide
  have hlast : ((usage crowdServed).log.filter (Event.concerns 3)).getLast? = some (.returned 3 2) := by
    decide
  have hunheld : ∀ edge, ¬HeldBy (usage crowdServed).log 3 edge := by
    intro edge hedge
    rw [HeldBy, hlast] at hedge
    cases hedge
  refine ⟨by decide, (hserves default).fails.mpr ?_, hheld, (hback 3).tells 2 hheld,
    (hserves' default).lowest 3 _ rfl, hunheld, (hback' 3).unheld hunheld⟩
  intro n hlow hhigh
  rw [hfull]
  simp only [List.mem_cons, List.not_mem_nil, or_false]
  omega

end KernelFusion.Channels
