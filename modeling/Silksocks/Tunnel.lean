import Mathlib.Data.List.Chain
import Silksocks.RelayRefinement

/-! Tunnels: the relays of several instances in a row, each of which has the next one for its
upstream proxy.  The instances may be of different builds.  A tunnel conveys what one relay
conveys. -/

namespace Silksocks

open Conduit

/-- What a relay of one of the builds can have done when it holds `up` for the proxy and `down` for
the client. -/
inductive Relayed : List UInt8 → List UInt8 → List (Peer × Io UInt8) → Prop → Prop
  | poll (setup : Setup) (answers : List Answer) (h : Compliant (negotiate setup answers).2) :
    Relayed (negotiate setup answers).1.toBuf.pending (negotiate setup answers).1.frBuf.pending
      ((negotiate setup answers).2.flatMap RelayCall.ios)
      (∃ status, (negotiate setup answers).1.pc = .done status)
  | select (setup : Setup) (answers : List SelectAnswer)
    (h : ∀ c ∈ (negotiateSelect setup answers).2, c.compliant = true) :
    Relayed (negotiateSelect setup answers).1.toBuf.pending
      (negotiateSelect setup answers).1.frBuf.pending
      ((negotiateSelect setup answers).2.flatMap SelectCall.ios)
      (∃ status, (negotiateSelect setup answers).1.pc = .done status)
  | splice (capacity : Nat) (setup : SpliceSetup) (answers : List SpliceAnswer)
    (h : ∀ c ∈ (negotiateSplice capacity setup answers).2, c.compliant = true) :
    Relayed (negotiateSplice capacity setup answers).1.pipecli
      (negotiateSplice capacity setup answers).1.pipesrv
      ((negotiateSplice capacity setup answers).2.flatMap SpliceCall.ios)
      (∃ status, (negotiateSplice capacity setup answers).1.pc = .done status)

theorem Relayed.conveyed {up down : List UInt8} {ios : List (Peer × Io UInt8)} {done : Prop}
    (h : Relayed up down ios done) : Conveyed up down ios := by
  cases h with
  | poll setup answers h => exact (negotiate_relays setup answers h).conveyed
  | select setup answers h => exact (negotiateSelect_relays setup answers h).relays.conveyed
  | splice capacity setup answers h =>
    exact (negotiateSplice_relays capacity setup answers h).relays.conveyed

/-- An instance of a tunnel, as far as its relay has come. -/
structure Station where
  up : List UInt8
  down : List UInt8
  ios : List (Peer × Io UInt8)
  /-- `negotiate` has returned, and both connections are closed then. -/
  done : Prop
  relayed : Relayed up down ios done

namespace Station

/-- The direction from the client to the proxy. -/
def upward (s : Station) : Stage UInt8 :=
  ⟨s.up, Lts.only .client s.ios, s.done, s.relayed.conveyed.toProxy⟩

/-- The direction from the proxy to the client. -/
def downward (s : Station) : Stage UInt8 :=
  ⟨s.down, Lts.only .proxy s.ios, s.done, s.relayed.conveyed.toClient⟩

/-- The proxy of the one is the client of the other. -/
structure Linked (a b : Station) : Prop where
  up : a.upward.Feeds b.upward
  down : b.downward.Feeds a.downward

end Station

variable {stations : List Station} {first last : Station}

/-- At every point of every run of a tunnel, what its last relay has written to its proxy is a
prefix of what its first one has read from its client, and what the first one has written to its
client is a prefix of what the last one has read from its proxy.  Where the last relay has shut down
its proxy and no earlier one has ended, the client of the first one is at its end, all that it sent
has been written to the proxy, and nothing for the proxy is pending in any relay. -/
theorem tunnel_conveys (h : stations.IsChain Station.Linked) (hfirst : stations.head? = some first)
    (hlast : stations.getLast? = some last) :
    Conduit.sent (Lts.only .client last.ios) <+: Conduit.received (Lts.only .client first.ios) ∧
    Conduit.sent (Lts.only .proxy first.ios) <+: Conduit.received (Lts.only .proxy last.ios) ∧
    (.close ∈ Lts.only .client last.ios → (∀ s ∈ stations.dropLast, ¬ s.done) →
      .eof ∈ Lts.only .client first.ios ∧
      Conduit.sent (Lts.only .client last.ios) = Conduit.received (Lts.only .client first.ios) ∧
      ∀ s ∈ stations, s.up = []) := by
  have hup : (stations.map Station.upward).IsChain Stage.Feeds :=
    (List.isChain_map _).mpr (h.imp fun _ _ hl => hl.up)
  have hdown : (stations.map Station.downward).reverse.IsChain Stage.Feeds :=
    List.isChain_reverse.mpr ((List.isChain_map _).mpr (h.imp fun _ _ hl => hl.down))
  refine ⟨?_, ?_, fun hclose hdone => ?_⟩
  · exact series_stream first.upward last.upward hup (by simp [hfirst]) (by simp [hlast])
  · exact series_stream last.downward first.downward hdown (by simp [hlast]) (by simp [hfirst])
  · obtain ⟨hall, heof, hpending⟩ := series_closed first.upward last.upward hup
      (by simp [hfirst]) (by simp [hlast]) hclose (by
        rw [← List.map_dropLast, List.forall_mem_map]
        exact hdone)
    exact ⟨heof, hall, List.forall_mem_map.mp hpending⟩

/-- A relay whose client has sent a byte and closed. -/
def byteStation : Station :=
  ⟨_, _, _, _, .poll ⟨true, true, fun _ => 0, fun _ => 0⟩ byteThenClose (by decide)⟩

theorem byteStation_linked : byteStation.Linked byteStation := by
  refine ⟨⟨?_, fun _ => ⟨rfl, .inl ?_⟩⟩, ⟨?_, fun heof => ?_⟩⟩
  · exact List.prefix_rfl
  · exact List.mem_of_getElem? (i := 3) rfl
  · exact List.prefix_rfl
  · cases heof

theorem tunnel_conveys_byte : ∃ first last : Station,
    [byteStation, byteStation].head? = some first ∧ [byteStation, byteStation].getLast? = some last ∧
    Conduit.sent (Lts.only .client last.ios) = [65] ∧ .eof ∈ Lts.only .client first.ios ∧
      Conduit.sent (Lts.only .client last.ios) = Conduit.received (Lts.only .client first.ios) := by
  have hchain : [byteStation, byteStation].IsChain Station.Linked :=
    List.isChain_pair.mpr byteStation_linked
  have h := tunnel_conveys hchain rfl rfl
  have hrunning : ¬ byteStation.done := by
    rintro ⟨status, hdone⟩
    exact Section.noConfusion hdone
  obtain ⟨heof, hall, -⟩ := h.2.2 (List.mem_of_getElem? (i := 3) rfl) (by
    simpa using hrunning)
  exact ⟨_, _, rfl, rfl, rfl, heof, hall⟩

end Silksocks
