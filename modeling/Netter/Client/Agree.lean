import Netter.Client.Recv
import Netter.Conn.Growth

/-!
# The two readers of a stream

What `RecvPacket` returns for a stream is what `_ParsePkt` passes to `HandlePkt` for it, as long as the sizes of the
receive buffer are computed without a carry.
-/

namespace Netter.ClientConn

open Lib Framing BaseConn

variable {handlePkt : List Received → List HandlerAct} {c : ClientState} {s : ConnState}

/-- **The blocking reader and the event-driven reader accept the same packets**, and the latter keeps the offsets of
its buffer inside the block, if and only if the exact size of the block stays below `2 ^ 32`. -/
theorem streams_agree_iff (handlePkt : List Received → List HandlerAct) (stays : ∀ seen, closes (handlePkt seen) = false)
    (connected : Connected c) (fresh : Fresh s) {events : List (List Chunk)} (cut : streamOf events = c.socket.stream) :
    ∃ accepted u, (recvPackets (c.socket.stream.length + 1)).run c = .ok accepted u ∧
      ((∃ t, (deliver (quiet handlePkt) events).run s = .ok () t ∧ packets t.trace = accepted ∧ t.conn.inBuf.WF) ↔
        capacity handlePkt events 0 (.waiting ([], false) []) < 2 ^ 32) := by
  obtain ⟨accepted, u, run, reads⟩ := wp_never.mp (recvPackets_wp stays [] connected (Nat.lt_succ_self _))
  refine ⟨accepted, u, run, ?_⟩
  have wf : s.conn.inBuf.WF := fresh.empty ▸ SimpleBuffer.wf_init
  have size : s.conn.inBuf.allocSize.toNat = 0 := by
    rw [fresh.empty]
    rfl
  rcases deliver_size handlePkt events fresh.matched wf size with ⟨fits, ends⟩ | ⟨wraps, ends⟩
  · obtain ⟨_, t, run', matched, wf'⟩ := wp_never.mp ends
    have start : (greedy handlePkt).run ([], false) [] = .waiting ([], false) [] := Decoder.run_of_more rfl
    rw [← start, Decoder.foldl_feed, List.nil_append, ← List.flatMap_def] at matched
    have decoded : events.flatMap chunkBytes = c.socket.stream := cut
    rw [decoded] at matched
    exact ⟨fun _ => fits, fun _ => ⟨t, run', matched.observed.1.trans reads.symm, wf'⟩⟩
  · refine ⟨?_, fun fits => absurd fits (Nat.not_lt_of_le wraps)⟩
    rintro ⟨t, run', -, wf'⟩
    unfold wp at ends
    rw [run'] at ends
    exact absurd ends.1 (Nat.not_lt_of_le wf'.write_le)

/-- A client that has just connected, and a connection that has just been accepted. -/
def connectedTo (stream : List UInt8) (recvs : List (Option Nat)) : ClientState :=
  ⟨⟨1, kInitAllocSize, ⟨List.replicate 4096 0, List.length_replicate⟩⟩, ⟨stream, recvs⟩⟩

theorem connected_connectedTo {stream : List UInt8} {recvs : List (Option Nat)} (healthy : none ∉ recvs) :
    Connected (connectedTo stream recvs) :=
  ⟨(by decide : (1 : NetHandle) ≠ invalidHandle), Int.le_refl _, healthy⟩

def accepted : ConnState := ⟨{ BaseConn.init with handle := 1 }, ⟨.connected, [], false, [], [], true⟩, []⟩

theorem fresh_accepted : Fresh accepted := ⟨by decide, rfl, rfl⟩

/-- A heartbeat and the first byte of another one. -/
def heartbeatChunk : Chunk := ⟨[0, 0, 0, 16, 0, 1, 0, 0, 0, 0, 0, 1, 0, 0, 0, 7, 0], by decide, by decide⟩

theorem streams_agree_heartbeat : ∃ pkts u t,
    (recvPackets 18).run (connectedTo heartbeatChunk.bytes [some 5, some 20]) = .ok pkts u ∧
      (deliver (quiet fun _ => [.header (.setSeqNo 9)]) [[heartbeatChunk]]).run accepted = .ok () t ∧
      packets t.trace = pkts := by
  have connected : Connected (connectedTo heartbeatChunk.bytes [some 5, some 20]) :=
    connected_connectedTo (by decide)
  have cut : streamOf [[heartbeatChunk]] = heartbeatChunk.bytes := rfl
  obtain ⟨pkts, u, run, agree⟩ :=
    streams_agree_iff (fun _ => [.header (.setSeqNo 9)]) (fun _ => rfl) connected fresh_accepted cut
  have small : roomFor (roomFor 0 0) (0 + 17) < 2 ^ 32 := by decide
  obtain ⟨t, run', same, -⟩ := agree.mpr small
  exact ⟨pkts, u, t, run, run', same⟩

/-- More bytes in one `OnRead` than the offsets can count. -/
theorem deliver_large {chunks : List Chunk} (fresh : Fresh s) (large : 2 ^ 32 ≤ (chunkBytes chunks).length) :
    ¬ ∃ t, (deliver (quiet handlePkt) [chunks]).run s = .ok () t := by
  have fails : wp (deliver (quiet handlePkt) [chunks]) (fun _ _ => False) (fun _ _ => True) s := by
    simp only [deliver, wp_bind, wp_get]
    rw [if_pos fresh.registered, wp_bind, wp_modify, wp_bind]
    simp only [onRead, wp_bind, wp_get]
    refine (recvData_whole rfl).mono ?_ fun _ _ _ => trivial
    rintro - t ⟨-, calls, received⟩
    have wf : s.conn.inBuf.WF := fresh.empty ▸ SimpleBuffer.wf_init
    have bound : _ + (chunkBytes chunks).length < _ := receive_length wf received
    omega
  rintro ⟨t, run⟩
  unfold wp at fails
  rw [run] at fails
  exact fails

/-- Every byte is 255, and so the announced length is `2 ^ 32 - 1`. -/
def fullChunk : Chunk where
  bytes := List.replicate 2048 255
  pos := by rw [List.length_replicate]; decide
  le := by rw [List.length_replicate]; decide

theorem length_fullChunks (n : Nat) : (chunkBytes (List.replicate n fullChunk)).length = n * 2048 := by
  rw [chunkBytes, List.length_flatMap, List.map_replicate, List.sum_replicate_nat, fullChunk, List.length_replicate]

/-- The blocking reader comes to the end of such a stream, and the other one does not. -/
theorem disagree_of_large {chunks : List Chunk} (large : 2 ^ 32 ≤ (chunkBytes chunks).length) :
    Connected (connectedTo (streamOf [chunks]) []) ∧
      ∃ pkts u, (recvPackets ((streamOf [chunks]).length + 1)).run (connectedTo (streamOf [chunks]) []) = .ok pkts u ∧
        ¬ ∃ t, (deliver (quiet fun _ => []) [chunks]).run accepted = .ok () t ∧ packets t.trace = pkts := by
  have connected : Connected (connectedTo (streamOf [chunks]) []) := connected_connectedTo nofun
  obtain ⟨pkts, u, run, -⟩ := streams_agree_iff (fun _ => []) (fun _ => rfl) connected fresh_accepted rfl
  refine ⟨connected, pkts, u, run, ?_⟩
  rintro ⟨t, run', -⟩
  exact deliver_large fresh_accepted large ⟨t, run'⟩

/-- `2 ^ 32` bytes. -/
def flood : List Chunk := List.replicate (2 ^ 21) fullChunk

theorem not_streams_agree : Connected (connectedTo (streamOf [flood]) []) ∧
    ∃ pkts u, (recvPackets ((streamOf [flood]).length + 1)).run (connectedTo (streamOf [flood]) []) = .ok pkts u ∧
      ¬ ∃ t, (deliver (quiet fun _ => []) [flood]).run accepted = .ok () t ∧ packets t.trace = pkts :=
  disagree_of_large (by rw [flood, length_fullChunks]; decide)

end Netter.ClientConn
