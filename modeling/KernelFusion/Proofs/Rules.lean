import KernelFusion.Schedule.Rules
import KernelFusion.Proofs.Store

/-!
What the synchronization rules do at one boundary.

A boundary starts with no channel in use. Its edges across the domains take the channels from the lowest
one on, in order (`granted`); those behind the last channel share the overflow barrier. All channels are
given back by the waits, so that the next boundary starts with none in use again.
-/

namespace KernelFusion.Rules

open List

variable {g : Graph} {gs : List (Edge × Nat)} {es : List Edge} {e : Edge}

/-- The state in which edges are signalled, each on its channel. -/
def holding (gs : List (Edge × Nat)) : Rules where
  earlyStart := true
  channels := ⟨(gs.map fun a => (a.2, a.1.id)).reverse⟩
  pending := (gs.map fun a => (a.1.id, a.2)).reverse

theorem holding_nil : holding [] = initial true := rfl

/-! ### Signals -/

theorem holds_holding {channel : Nat} :
    (holding gs).channels.holds channel = true ↔ channel ∈ gs.map Prod.snd := by
  simp [holding, Channels.holds]

/-- With the lowest channels in use, the lowest free one is the first of the others. -/
theorem find_free {used free : List Nat} (hall : Channels.all = used ++ free)
    (hused : gs.map Prod.snd = used) :
    (Channels.all.find? fun channel => !(holding gs).channels.holds channel) = free.head? := by
  have hheld : (used.find? fun channel => !(holding gs).channels.holds channel) = none := by
    refine List.find?_eq_none.mpr fun channel hmem => ?_
    simp [holds_holding.mpr (hused ▸ hmem)]
  have hnodup : (used ++ free).Nodup := hall ▸ by decide
  rw [hall, List.find?_append, hheld, Option.none_or]
  cases free with
  | nil => rfl
  | cons channel rest =>
    have hfree : (holding gs).channels.holds channel = false := by
      rw [Bool.eq_false_iff]
      intro hholds
      rw [holds_holding, hused] at hholds
      exact (List.disjoint_of_nodup_append hnodup) hholds List.mem_cons_self
    simp [hfree]

theorem note_holding {channel : Nat} (he : e.id ∉ gs.map fun a => a.1.id) :
    (holding gs).note e channel ⟨(channel, e.id) :: (holding gs).channels.live⟩
      = holding (gs ++ [(e, channel)]) := by
  have hkeep : (gs.map fun a => (a.1.id, a.2)).reverse.filter (fun q => q.1 != e.id)
      = (gs.map fun a => (a.1.id, a.2)).reverse := by
    refine List.filter_eq_self.mpr fun q hq => ?_
    obtain ⟨a, ha, rfl⟩ := List.mem_map.mp (List.mem_reverse.mp hq)
    exact bne_iff_ne.mpr fun h => he (List.mem_map.mpr ⟨a, ha, h⟩)
  simp [note, holding, hkeep]

/-- Signals take the free channels in order; an edge that finds none sets the overflow mark, and nothing
else goes wrong. -/
theorem signalAll_holding (used free : List Nat) (hall : Channels.all = used ++ free)
    (hused : gs.map Prod.snd = used) (hids : ((gs.map fun a => a.1.id) ++ es.map Edge.id).Nodup) :
    (holding gs).signalAll es = .ok ((es.zip free).flatMap fun a => signalSteps a.1 a.2,
      holding (gs ++ es.zip free), decide (free.length < es.length)) := by
  induction es generalizing gs used free with
  | nil => simp [signalAll]
  | cons e es ih =>
    cases free with
    | nil =>
      have hids' : ((gs.map fun a => a.1.id) ++ es.map Edge.id).Nodup :=
        hids.sublist (Sublist.append_left (List.sublist_cons_self _ _) _)
      rw [signalAll, Channels.acquire, find_free hall hused]
      have hrest := ih used [] hall hused hids'
      simp only [List.head?_nil, hrest]
      simp [bind, Except.bind, pure, Except.pure]
    | cons channel rest =>
      have he : e.id ∉ gs.map fun a => a.1.id := fun h =>
        (List.disjoint_of_nodup_append hids) h List.mem_cons_self
      have hall' : Channels.all = (used ++ [channel]) ++ rest := by rw [hall]; simp
      have hused' : (gs ++ [(e, channel)]).map Prod.snd = used ++ [channel] := by simp [hused]
      have hids' : (((gs ++ [(e, channel)]).map fun a => a.1.id) ++ es.map Edge.id).Nodup := by
        simpa using hids
      rw [signalAll, Channels.acquire, find_free hall hused]
      simp only [List.head?_cons, note_holding he, ih (used ++ [channel]) rest hall' hused' hids']
      simp [bind, Except.bind, pure, Except.pure]

/-! ### Waits -/

theorem settle_other (he : e.id ∉ gs.map fun a => a.1.id) : (holding gs).settle e = none := by
  have hfind : ((holding gs).pending.find? fun q => q.1 == e.id) = none := by
    refine List.find?_eq_none.mpr fun q hq => ?_
    obtain ⟨a, ha, rfl⟩ := List.mem_map.mp (List.mem_reverse.mp hq)
    exact fun h => he (List.mem_map.mpr ⟨a, ha, beq_iff_eq.mp h⟩)
  rw [settle, hfind]
  rfl

theorem settle_first {channel : Nat} (he : e.id ∉ gs.map fun a => a.1.id)
    (hc : channel ∉ gs.map Prod.snd) :
    (holding ((e, channel) :: gs)).settle e = some (channel, holding gs) := by
  have hothers : ∀ q ∈ (gs.map fun a => (a.1.id, a.2)).reverse, q.1 ≠ e.id := by
    intro q hq
    obtain ⟨a, ha, rfl⟩ := List.mem_map.mp (List.mem_reverse.mp hq)
    exact fun h => he (List.mem_map.mpr ⟨a, ha, h⟩)
  have hlive : ∀ q ∈ (gs.map fun a => (a.2, a.1.id)).reverse, q.1 ≠ channel := by
    intro q hq
    obtain ⟨a, ha, rfl⟩ := List.mem_map.mp (List.mem_reverse.mp hq)
    exact fun h => hc (List.mem_map.mpr ⟨a, ha, h⟩)
  have hfind : ((holding ((e, channel) :: gs)).pending.find? fun q => q.1 == e.id)
      = some (e.id, channel) := by
    have hnone : ((gs.map fun a => (a.1.id, a.2)).reverse.find? fun q => q.1 == e.id) = none :=
      List.find?_eq_none.mpr fun q hq h => hothers q hq (beq_iff_eq.mp h)
    simp [holding, List.find?_append, hnone]
  have hpending : (holding ((e, channel) :: gs)).pending.filter (fun q => q.1 != e.id)
      = (holding gs).pending := by
    have hself := List.filter_eq_self.mpr fun q hq => bne_iff_ne.mpr (hothers q hq)
    simp only [holding, List.map_cons, List.reverse_cons, List.filter_append, hself]
    simp
  have hchannels : ((holding ((e, channel) :: gs)).channels.release channel).2
      = (holding gs).channels := by
    have hself := List.filter_eq_self.mpr fun q hq => bne_iff_ne.mpr (hlive q hq)
    simp only [holding, Channels.release, List.map_cons, List.reverse_cons, List.filter_append, hself]
    simp
  rw [settle, hfind, Option.map_some, hpending, hchannels]
  rfl

/-- Waits settle all edges that are signalled and leave no channel in use. -/
theorem waitAll_holding (hsub : gs.map Prod.fst <+ es) (hids : (es.map Edge.id).Nodup)
    (hch : (gs.map Prod.snd).Nodup) :
    (holding gs).waitAll es = (gs.flatMap fun a => waitSteps a.1 a.2, initial true) := by
  induction es generalizing gs with
  | nil =>
    cases List.map_eq_nil_iff.mp (List.sublist_nil.mp hsub)
    rfl
  | cons e es ih =>
    obtain ⟨he, htail⟩ := List.nodup_cons.mp hids
    have hnot : ∀ {hs : List (Edge × Nat)}, hs.map Prod.fst <+ es → e.id ∉ hs.map fun a => a.1.id := by
      intro hs hs' hmem
      refine he ((hs'.map Edge.id).subset ?_)
      rwa [List.map_map]
    rcases List.sublist_cons_iff.mp hsub with hsub | ⟨rest, hgs, hsub⟩
    · rw [waitAll, settle_other (hnot hsub)]
      exact ih hsub htail hch
    · obtain ⟨⟨e', channel⟩, gs, rfl⟩ := List.exists_cons_of_ne_nil
        (show gs ≠ [] by rintro rfl; cases hgs)
      obtain ⟨rfl, rfl⟩ := List.cons.inj hgs
      obtain ⟨hc, hch⟩ := List.nodup_cons.mp hch
      rw [waitAll, settle_first (hnot hsub) hc]
      simp [ih hsub htail hch]

/-! ### A boundary -/

theorem map_fst_zip_sublist {α β : Type} : ∀ (xs : List α) (ys : List β),
    (xs.zip ys).map Prod.fst <+ xs
  | [], _ => by simp
  | _ :: _, [] => by simp
  | x :: xs, _ :: ys => (map_fst_zip_sublist xs ys).cons_cons x

theorem map_snd_zip_sublist {α β : Type} : ∀ (xs : List α) (ys : List β),
    (xs.zip ys).map Prod.snd <+ ys
  | [], _ => by simp
  | _ :: _, [] => by simp
  | _ :: xs, y :: ys => (map_snd_zip_sublist xs ys).cons_cons y

/-- Edges into an operator that are to be signalled. -/
def crossing (g : Graph) (op : Nat) : List Edge := (g.incoming op).filter Edge.needsSignal

/-- Those of them for which there is a channel, with it. -/
def granted (g : Graph) (op : Nat) : List (Edge × Nat) := (crossing g op).zip Channels.all

theorem crossing_nodup_ids (hg : g.WellFormed) (op : Nat) : ((crossing g op).map Edge.id).Nodup :=
  hg.nodup_ids.sublist ((List.filter_sublist.trans List.filter_sublist).map _)

theorem mem_crossing {op : Nat} :
    e ∈ crossing g op ↔ e ∈ g.edges ∧ e.consumer = op ∧ e.needsSignal = true := by
  simp [crossing, Graph.mem_incoming, and_assoc]

theorem granted_nodup_channels (op : Nat) : ((granted g op).map Prod.snd).Nodup :=
  List.Nodup.sublist (map_snd_zip_sublist _ _) (show Channels.all.Nodup by decide)

/-- The overflow barrier, if there are more edges than channels. -/
def overflow (g : Graph) (op : Nat) : List Step :=
  if Channels.all.length < (crossing g op).length then [overflowBarrier] else []

theorem producerSide_initial (hg : g.WellFormed) (prev cur : Nat) :
    (initial true).producerSide g prev cur = .ok (domainBarriers g prev
      ++ ((granted g cur).flatMap fun a => signalSteps a.1 a.2) ++ overflow g cur,
      holding (granted g cur)) := by
  have hids : ((([] : List (Edge × Nat)).map fun a => a.1.id)
      ++ (crossing g cur).map Edge.id).Nodup := crossing_nodup_ids hg cur
  have hsignal := signalAll_holding [] Channels.all rfl rfl hids
  rw [holding_nil] at hsignal
  simp only [crossing] at hsignal
  rw [producerSide, if_pos (show (initial true).earlyStart = true from rfl), hsignal]
  by_cases hover : Channels.all.length < (crossing g cur).length
  · rw [overflow, if_pos hover]
    simp only [crossing] at hover
    simp [granted, crossing, hover, bind, Except.bind, pure, Except.pure]
  · rw [overflow, if_neg hover]
    simp only [crossing] at hover
    simp [granted, crossing, hover, bind, Except.bind, pure, Except.pure]

theorem consumerSide_granted (hg : g.WellFormed) (cur : Nat) :
    (holding (granted g cur)).consumerSide g cur
      = ((granted g cur).flatMap fun a => waitSteps a.1 a.2, initial true) := by
  exact waitAll_holding (map_fst_zip_sublist _ _) (crossing_nodup_ids hg cur)
    (granted_nodup_channels cur)

/-! ### Full barriers -/

/-- Only the overflow barrier brings the units of both domains together. -/
theorem full_domainBarriers (g : Graph) (op : Nat) :
    (domainBarriers g op).any Step.isFullBarrier = false := by
  simp [domainBarriers, Step.isFullBarrier]

theorem full_signalSteps (gs : List (Edge × Nat)) :
    (gs.flatMap fun a => signalSteps a.1 a.2).any Step.isFullBarrier = false := by
  simp [List.any_eq_false, signalSteps, Step.isFullBarrier]

theorem full_waitSteps (gs : List (Edge × Nat)) :
    (gs.flatMap fun a => waitSteps a.1 a.2).any Step.isFullBarrier = false := by
  simp [List.any_eq_false, waitSteps, Step.isFullBarrier]

end KernelFusion.Rules
