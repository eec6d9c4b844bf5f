import Netter.Conn.Receive
import Netter.Conn.Send

/-!
# A stream of packets

`Frames` reads a stream that has no malformed packet: the packets at its front, and a rest that is not complete yet.
A front part of packets that were sent one after the other reads as the first of them.
-/

namespace Netter

open PktBase BaseConn

/-- The packets at the front of `data`, and the incomplete rest. -/
inductive Frames : List UInt8 → List Received → List UInt8 → Prop where
  | done {data : List UInt8} (frame : frameAt data = .incomplete) : Frames data [] data
  | packet {data rest : List UInt8} {pkts : List Received} {len : UInt32} (frame : frameAt data = .packet len)
      (others : Frames (data.drop len.toNat) pkts rest) : Frames data (receivedAt data len :: pkts) rest

/-- The bytes of a packet that is sent are one packet for the receiver. -/
def HeapPkt.Framed (pkt : HeapPkt) : Prop := frameAt pkt.bytes = .packet pkt.pkt.buf.writeOffset

instance (pkt : HeapPkt) : Decidable pkt.Framed := inferInstanceAs (Decidable (_ = _))

/-- What the receiver's `HandlePkt` gets. -/
def HeapPkt.received (pkt : HeapPkt) : Received := receivedAt pkt.bytes pkt.pkt.buf.writeOffset

/-- The bytes of packets that are sent one after the other. -/
def encode (pkts : List HeapPkt) : List UInt8 := pkts.flatMap HeapPkt.bytes

variable {data more rest rest' : List UInt8} {pkts pkts' : List Received} {sent : List HeapPkt}

@[simp] theorem encode_nil : encode [] = [] := rfl

@[simp] theorem encode_append (sent sent' : List HeapPkt) : encode (sent ++ sent') = encode sent ++ encode sent' :=
  List.flatMap_append

theorem encode_cons (pkt : HeapPkt) (sent : List HeapPkt) : encode (pkt :: sent) = pkt.bytes ++ encode sent :=
  List.flatMap_cons

theorem frameAt_nil : frameAt [] = .incomplete := rfl

namespace Frames

theorem unique (frames : Frames data pkts rest) (frames' : Frames data pkts' rest') : pkts' = pkts ∧ rest' = rest := by
  induction frames generalizing pkts' with
  | done frame =>
    cases frames' with
    | done frame' => exact ⟨rfl, rfl⟩
    | packet frame' others' =>
      rw [frame] at frame'
      cases frame'
  | packet frame others ih =>
    cases frames' with
    | done frame' =>
      rw [frame] at frame'
      cases frame'
    | packet frame' others' =>
      rw [frame] at frame'
      cases frame'
      obtain ⟨rfl, rfl⟩ := ih others'
      exact ⟨rfl, rfl⟩

/-- When more has arrived, the packets that were there are still the first ones. -/
theorem split (frames : Frames data pkts rest) (longer : Frames (data ++ more) pkts' rest') :
    ∃ news, pkts' = pkts ++ news ∧ Frames (rest ++ more) news rest' := by
  induction frames generalizing pkts' with
  | done frame => exact ⟨pkts', rfl, longer⟩
  | @packet data rest pkts len frame others ih =>
    have same : frameAt (data ++ more) = .packet len := by rw [frameAt_append more (by simp [frame]), frame]
    obtain ⟨-, inside, -⟩ := le_of_frameAt frame
    cases longer with
    | done frame' =>
      rw [same] at frame'
      cases frame'
    | packet frame' others' =>
      rw [same] at frame'
      cases frame'
      rw [List.drop_append_of_le_length inside] at others'
      obtain ⟨news, rfl, frames'⟩ := ih others'
      exact ⟨news, by rw [receivedAt_append more frame, List.cons_append], frames'⟩

/-- A packet takes its header at least. -/
theorem length_pkts (frames : Frames data pkts rest) : 16 * pkts.length + rest.length ≤ data.length := by
  induction frames with
  | done frame => simp
  | packet frame others ih =>
    obtain ⟨header, inside, -⟩ := le_of_frameAt frame
    rw [List.length_drop] at ih
    rw [List.length_cons]
    omega

end Frames

/-- What has arrived of packets that were sent is the first of them and a part of the next. -/
theorem frames_of_prefix (framed : ∀ pkt ∈ sent, pkt.Framed) (front : data <+: encode sent) :
    ∃ n rest, n ≤ sent.length ∧ Frames data ((sent.take n).map HeapPkt.received) rest := by
  induction sent generalizing data with
  | nil =>
    rw [encode_nil, List.prefix_nil] at front
    subst front
    exact ⟨0, [], Nat.le_refl _, .done frameAt_nil⟩
  | cons pkt sent ih =>
    have frame : frameAt pkt.bytes = .packet pkt.pkt.buf.writeOffset := framed pkt List.mem_cons_self
    have size := HeapPkt.length_bytes pkt
    rw [encode_cons] at front
    by_cases whole : pkt.bytes.length ≤ data.length
    · -- the first packet is there in full
      obtain ⟨tail, rfl⟩ := List.prefix_of_prefix_length_le (List.prefix_append _ _) front whole
      rw [List.prefix_append_right_inj] at front
      obtain ⟨n, rest, few, frames⟩ := ih (fun other member => framed other (List.mem_cons_of_mem _ member)) front
      have first : frameAt (pkt.bytes ++ tail) = .packet pkt.pkt.buf.writeOffset := by
        rw [frameAt_append tail (by simp [frame]), frame]
      refine ⟨n + 1, rest, Nat.succ_le_succ few, ?_⟩
      rw [List.take_succ_cons, List.map_cons, HeapPkt.received, ← receivedAt_append tail frame]
      apply Frames.packet first
      rw [← size, List.drop_left]
      exact frames
    · refine ⟨0, data, Nat.zero_le _, .done ?_⟩
      obtain ⟨tail, joined⟩ := front
      by_contra complete
      have same := frameAt_append tail complete
      rw [joined, frameAt_append _ (by simp [frame]), frame] at same
      obtain ⟨-, inside, -⟩ := le_of_frameAt same.symm
      omega

/-- All the packets have arrived. -/
theorem frames_encode (framed : ∀ pkt ∈ sent, pkt.Framed) : Frames (encode sent) (sent.map HeapPkt.received) [] := by
  induction sent with
  | nil => exact .done frameAt_nil
  | cons pkt sent ih =>
    have frame : frameAt pkt.bytes = .packet pkt.pkt.buf.writeOffset := framed pkt List.mem_cons_self
    rw [encode_cons, List.map_cons, HeapPkt.received, ← receivedAt_append (encode sent) frame]
    apply Frames.packet
    · rw [frameAt_append _ (by simp [frame]), frame]
    · rw [← HeapPkt.length_bytes pkt, List.drop_left]
      exact ih fun other member => framed other (List.mem_cons_of_mem _ member)

end Netter
