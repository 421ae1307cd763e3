import KernelFusion.Proofs.Connect
import KernelFusion.Proofs.SingleStreamCheck

/-!
Order of work along the dependencies of a single-stream schedule.

One list drives the units of both domains, and each unit skips what is not for it: the order of two calls
in the list alone orders nothing. Work is ordered by a full barrier, by a barrier of the domain that both
have part in, or by such a barrier with a signal behind it that the other domain waits for. The barrier
stands behind the producer, the signal and the wait in front of the consumer, so that steps of two
boundaries work together.
-/

namespace KernelFusion

open List

namespace Schedule

/-- `Precedes steps dp p dc c`: the work of operator `p` on domain `dp` is done before the work of
operator `c` on domain `dc` begins. -/
inductive Precedes (steps : List Step) : Domain → Nat → Domain → Nat → Prop where
  | meeting {dp dc : Domain} {p c : Nat} {b : Barrier} (hb : b.scope = .full)
      (horder : [.invoke p, .barrier b, .invoke c] <+ steps) : Precedes steps dp p dc c
  | barrier {d : Domain} {p c : Nat} {b : Barrier} (hb : b.scope = .domain d)
      (horder : [.invoke p, .barrier b, .invoke c] <+ steps) : Precedes steps d p d c
  | signal {dp dc : Domain} {p c edge : Nat} {b : Barrier} {pipe : Pipe} {flag : Flag}
      (hb : b.scope = .domain dp)
      (horder : [.invoke p, .barrier b, .signal edge dp pipe flag, .wait edge dc flag, .invoke c]
        <+ steps) : Precedes steps dp p dc c

end Schedule

namespace SingleStream

open Schedule

variable {l : Launch} {e : Edge}

/-- All domains of a producer meet behind it: the one that its edge leaves from, and for a mixed one also
the one that the edge goes to. -/
theorem guards_domains (hg : l.graph.Linked) (he : e ∈ l.graph.edges) (hs : e.explicitSync = true)
    {d : Domain} (hd : d ∈ (l.operator e.producer).affinity.domains) :
    Rules.guards l.graph e.producer d = true := by
  have hpair := hg.pairs e he
  refine List.any_eq_true.mpr ⟨e, Graph.mem_outgoing.mpr ⟨he, rfl⟩, ?_⟩
  by_cases hmixed : (l.graph.operator e.producer).affinity = .mixed
  · have hcross := DomainPair.isCross_iff.mp (DomainPair.between_mixed _ _ hmixed _ hpair)
    have hend : e.pair.producer = d ∨ e.pair.consumer = d := by
      revert hcross
      rcases e.pair with ⟨dp, dc⟩
      cases dp <;> cases dc <;> cases d <;> decide
    simpa [hs, hmixed] using hend
  · have hproducer : e.pair.producer = d :=
      Affinity.domain_unique hmixed (DomainPair.between_domains _ _ _ hpair).1 hd
    simp [hs, hproducer]

/-- A producer and a consumer that share a domain have a barrier of it between them. -/
theorem precedes_inside (hg : l.graph.Linked) (he : e ∈ l.graph.edges) (hs : e.explicitSync = true)
    (hearly : l.earlyStart = true) {d : Domain}
    (hd : d ∈ (l.operator e.producer).affinity.domains) :
    Precedes (steps l) d e.producer d e.consumer := by
  obtain ⟨b, hscope, hb⟩ := exists_domainBarrier (guards_domains hg he hs hd)
  have horder := order_behind_producer hearly (hg.forward e he) (hg.ends e he).2 hb
    (List.nil_sublist _)
  exact .barrier hscope (by simpa using horder)

/-- An edge across the domains has a signal behind the barrier, or a full barrier where no channel is
left for it. -/
theorem precedes_across (hg : l.graph.Linked) (he : e ∈ l.graph.edges) (hs : e.needsSignal = true)
    (hearly : l.earlyStart = true) :
    Precedes (steps l) e.pair.producer e.producer e.pair.consumer e.consumer := by
  have hpc := hg.forward e he
  have hc := (hg.ends e he).2
  rcases grantOf_cases hg.toWellFormed he hs with ⟨channel, hmem, _⟩ | ⟨_, hover⟩
  · have hexplicit : e.explicitSync = true := by simp_all [Edge.needsSignal]
    obtain ⟨b, hscope, hb⟩ := exists_domainBarrier (guards_producer he hexplicit)
    exact .signal hscope
      (order_behind_producer hearly hpc hc hb (flags_sublist_crossSteps hmem))
  · exact .meeting rfl
      (order_before_consumer hpc hc (overflow_sublist_syncSteps hearly hover))

/-- Without the handshake every edge has a full barrier between its ends. -/
theorem precedes_meeting (hg : l.graph.Linked) (he : e ∈ l.graph.edges) (hearly : l.earlyStart = false)
    (dp dc : Domain) : Precedes (steps l) dp e.producer dc e.consumer := by
  obtain ⟨b, hscope, hb⟩ := exists_fullBarrier hearly (e.consumer - 1) e.consumer
  exact .meeting hscope (order_before_consumer (hg.forward e he) (hg.ends e he).2
    (List.singleton_sublist.mpr hb))

/-- CORRECT: along every edge that needs synchronization, work of the producer on each of its domains
comes before work of the consumer on each of its own, with the handshake or without. -/
theorem single_stream_order {units : Units} {ops : List Operator} {fusion : Bool}
    (h : l.Accepted units ops fusion) (he : e ∈ l.graph.edges) (hs : e.explicitSync = true)
    {dp dc : Domain} (hdp : dp ∈ (l.operator e.producer).affinity.domains)
    (hdc : dc ∈ (l.operator e.consumer).affinity.domains) :
    Precedes (steps l) dp e.producer dc e.consumer := by
  cases hearly : l.earlyStart with
  | false => exact precedes_meeting h.linked he hearly dp dc
  | true =>
    by_cases hd : dp = dc
    · exact hd ▸ precedes_inside h.linked he hs hearly hdp
    · -- The edge of this pair of domains may be another one between the same operators.
      obtain ⟨k, hk, hkp, hkc, hpair, hsignal⟩ := h.exists_cross he hdp hdc hd
      have hprecedes := precedes_across h.linked hk hsignal hearly
      rwa [hkp, hkc, hpair] at hprecedes

/-- A mixed operator whose events go to an operator on cube units and to one on vector units behind it. -/
def fanOut : Launch :=
  .ofOperators
    [.onStream 0 "mixed" .mixAic11 [1, 3] [], .onStream 1 "cube" .aicOnly [2] [1],
      .onStream 2 "vector" .aivOnly [] [2, 3]]
    ⟨.singleStream, [⟨1, 0, 1⟩, ⟨3, 0, 2⟩, ⟨2, 1, 2⟩], [[], [], []], [[], [], []]⟩ true

theorem fanOut_ordered : fanOut.Accepted ⟨24, 48⟩ fanOut.graph.operators false ∧
    Precedes (steps fanOut) .cube 0 .vector 2 ∧ Precedes (steps fanOut) .vector 0 .vector 2 := by
  have h : fanOut.Accepted ⟨24, 48⟩ fanOut.graph.operators false := ⟨rfl, _, rfl, rfl⟩
  have he : ⟨2, 0, 2, ⟨.cube, .vector⟩, .event 3, true⟩ ∈ fanOut.graph.edges := by decide
  exact ⟨h, single_stream_order h he rfl (by decide) (by decide),
    single_stream_order h he rfl (by decide) (by decide)⟩

end SingleStream

end KernelFusion
