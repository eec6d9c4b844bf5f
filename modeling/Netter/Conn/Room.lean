import Netter.Lib.Run
import Netter.Conn.Receive

/-!
# Room in the receive buffer

Each round of `_RecvData` makes room for `kReadBufSize` bytes after the write offset, and the last round
adds nothing. So `recv` never writes past the allocation, and the byte after the last one, where
`HttpConn::OnRead` puts a NUL, is still inside.
-/

namespace Netter.BaseConn

open Lib SimpleBuffer

/-- `_RecvData` as it treats `m_in_buf`: the buffers that `recv` is called with, and what is there in the end. -/
def receive : List Chunk → SimpleBuffer → Option (List SimpleBuffer × SimpleBuffer)
  | [], b => some ([makeRoom b], makeRoom b)
  | chunk :: chunks, b => do
    let filled ← (makeRoom b).fill chunk.bytes
    let (calls, after) ← receive chunks (filled.incWriteOffset (UInt32.ofNat chunk.bytes.length))
    some (makeRoom b :: calls, after)

/-- `in_buf[buf_len] = '\0'` in `HttpConn::OnRead`. -/
def terminate (b : SimpleBuffer) : Option SimpleBuffer := b.fill [0]

/-- What happens to the `m_in_buf` of a connection. -/
inductive InBufStep where
  | recvData (chunks : List Chunk)
  /-- `_RecvData` in `HttpConn::OnRead`, with the NUL behind it. -/
  | httpRecvData (chunks : List Chunk)
  /-- A packet has been handled. -/
  | read (len : UInt32)
  | resetOffset

/-- `SimpleBuffer` after the step, or `none` if it leaves the allocation. -/
def InBufStep.exec (b : SimpleBuffer) : InBufStep → Option SimpleBuffer
  | .recvData chunks => do
    let (_, after) ← receive chunks b
    some after
  | .httpRecvData chunks => do
    let (_, after) ← receive chunks b
    terminate after
  | .read len => some (b.readNull len)
  | .resetOffset => b.resetOffset

/-- With `total` bytes more the buffer is small enough for one more `Extend(kReadBufSize)`. -/
def StaysSmall (b : SimpleBuffer) (total : Nat) : Prop :=
  b.writeOffset.toNat + total + 2048 + (b.writeOffset.toNat + total + 2048) / 4 < 2 ^ 32

def InBufStep.Small (b : SimpleBuffer) : InBufStep → Prop
  | .recvData chunks | .httpRecvData chunks => StaysSmall b (chunkBytes chunks).length
  | _ => True

variable {b after : SimpleBuffer} {chunks : List Chunk}

/-! ## `_RecvData` -/

/-- `receive` is what `_RecvData` does to the buffer. -/
theorem recvData_receive {fuel : Nat} {s : ConnState} (enough : s.socket.recvs.length < fuel) :
    wp (recvData fuel) (fun _ t => ∃ calls, receive s.socket.recvs s.conn.inBuf = some (calls, t.conn.inBuf))
      (fun stop _ => stop = .undefined ∧ receive s.socket.recvs s.conn.inBuf = none) s := by
  induction fuel generalizing s with
  | zero => omega
  | succ fuel ih =>
    cases recvs : s.socket.recvs with
    | nil =>
      simp only [recvData, wp_bind, wp_get, BaseSocket.recv, recvs, wp_set]
      exact ⟨_, rfl⟩
    | cons chunk rest =>
      rw [recvs] at enough
      simp only [recvData, wp_bind, wp_get, BaseSocket.recv, recvs, orUndefined, receive]
      cases filled : (makeRoom s.conn.inBuf).fill chunk.bytes with
      | none => exact ⟨rfl, rfl⟩
      | some m =>
        simp only [Stop.ofOption, wp_ofExcept_ok, wp_set]
        refine (ih (by simpa using enough)).mono ?_ ?_
        · rintro - t ⟨calls, received⟩
          refine ⟨makeRoom s.conn.inBuf :: calls, ?_⟩
          show (receive rest _).bind _ = _
          rw [received]
          rfl
        · rintro stop t ⟨undefined, fails⟩
          refine ⟨undefined, ?_⟩
          show (receive rest _).bind _ = _
          rw [fails]
          rfl

/-- A call of `recv` finds room for all it may write, and what was there before. -/
structure HasRoom (before call : SimpleBuffer) : Prop where
  wf : call.WF
  room : call.writeOffset.toNat + kReadBufSize.toNat ≤ call.allocSize.toNat
  kept : before.content <+: call.content

/-- What is there when `_RecvData` returns. -/
structure ReceivedAll (before after : SimpleBuffer) (bytes : List UInt8) : Prop extends HasRoom before after where
  content : after.content = before.content ++ bytes
  write : after.writeOffset.toNat = before.writeOffset.toNat + bytes.length
  read : after.readOffset = before.readOffset

theorem ReceivedAll.spare {bytes : List UInt8} (all : ReceivedAll b after bytes) :
    after.writeOffset.toNat < after.allocSize.toNat :=
  Nat.lt_of_lt_of_le (Nat.lt_add_of_pos_right (by decide)) all.room

theorem StaysSmall.grows {total : Nat} (fits : StaysSmall b total) : b.Grows kReadBufSize := by
  have width : kReadBufSize.toNat = 2048 := rfl
  unfold StaysSmall at fits
  unfold SimpleBuffer.Grows
  omega

theorem hasRoom_makeRoom (wf : b.WF) (grows : b.Grows kReadBufSize) : HasRoom b (makeRoom b) := by
  obtain ⟨wf', same, -, write, room⟩ := makeRoom_spec wf grows
  refine ⟨wf', ?_, ⟨[], by rw [same, List.append_nil]⟩⟩
  rw [write]
  exact room

/-- Each round has room, and the last one leaves it. -/
theorem receive_spec (wf : b.WF) (fits : StaysSmall b (chunkBytes chunks).length) :
    ∃ calls after, receive chunks b = some (calls, after) ∧ (∀ call ∈ calls, HasRoom b call) ∧
      ReceivedAll b after (chunkBytes chunks) := by
  induction chunks generalizing b with
  | nil =>
    obtain ⟨wf', same, read, write, room⟩ := makeRoom_spec wf fits.grows
    have here := hasRoom_makeRoom wf fits.grows
    refine ⟨[makeRoom b], makeRoom b, rfl, ?_, here, ?_, ?_, read⟩
    · intro call member
      rw [List.mem_singleton.mp member]
      exact here
    · rw [same]
      exact (List.append_nil _).symm
    · rw [write]
      rfl
  | cons chunk rest ih =>
    obtain ⟨wf', same, read, write, room⟩ := makeRoom_spec wf fits.grows
    have width := chunk.le
    have buffer : kReadBufSize.toNat = 2048 := rfl
    have count : (UInt32.ofNat chunk.bytes.length).toNat = chunk.bytes.length :=
      UInt32.toNat_ofNat_of_lt' (show chunk.bytes.length < 2 ^ 32 by omega)
    obtain ⟨m, filled, moved, queue, read', last, -⟩ :=
      SimpleBuffer.fill_spec wf' count (by rw [write]; omega)
    rw [same] at queue
    rw [write] at last
    have total : (chunkBytes (chunk :: rest)).length = chunk.bytes.length + (chunkBytes rest).length := by
      rw [chunkBytes, List.flatMap_cons, List.length_append]
      rfl
    have smaller : StaysSmall (m.incWriteOffset (UInt32.ofNat chunk.bytes.length)) (chunkBytes rest).length := by
      unfold StaysSmall at fits ⊢
      rw [total] at fits
      omega
    obtain ⟨calls, after, received, rooms, all⟩ := ih moved smaller
    have front : b.content <+: (m.incWriteOffset (UInt32.ofNat chunk.bytes.length)).content := by
      rw [queue]
      exact List.prefix_append _ _
    refine ⟨makeRoom b :: calls, after, by simp [receive, filled, received], ?_, ⟨all.wf, all.room, ?_⟩, ?_, ?_, ?_⟩
    · intro call member
      rcases List.mem_cons.mp member with rfl | later
      · exact hasRoom_makeRoom wf fits.grows
      · have there := rooms call later
        exact ⟨there.wf, there.room, front.trans there.kept⟩
    · exact front.trans all.kept
    · rw [all.content, queue, List.append_assoc]
      rfl
    · rw [all.write, last, total]
      omega
    · rw [all.read, ← read]
      exact read'

/-- A buffer whose bytes are still inside keeps them. -/
theorem makeRoom_of_le (wf : b.WF) (inside : b.writeOffset.toNat ≤ (makeRoom b).allocSize.toNat) :
    (makeRoom b).WF ∧ (makeRoom b).content = b.content ∧ (makeRoom b).readOffset = b.readOffset := by
  unfold makeRoom at inside ⊢
  split
  next short =>
    rw [if_pos short] at inside
    refine ⟨⟨wf.read_le, inside⟩, ?_, rfl⟩
    show ((b.buffer.realloc 0 (b.extend kReadBufSize).allocSize.toNat).cells.take b.writeOffset.toNat).drop _ = _
    rw [Block.realloc_take _ _ wf.write_le inside]
    rfl
  next => exact ⟨wf, rfl, rfl⟩

@[simp] theorem makeRoom_writeOffset (b : SimpleBuffer) : (makeRoom b).writeOffset = b.writeOffset := by
  unfold makeRoom
  split <;> rfl

/-- Whatever the sizes are: a chunk that has been stored is behind what was there. -/
theorem receive_cons_of_some {chunk : Chunk} {calls : List SimpleBuffer} (wf : b.WF)
    (received : receive (chunk :: chunks) b = some (calls, after)) :
    ∃ (next : SimpleBuffer) (later : List SimpleBuffer), next.WF ∧ next.content = b.content ++ chunk.bytes ∧
      next.readOffset = b.readOffset ∧ receive chunks next = some (later, after) := by
  simp only [receive, Option.bind_eq_bind, Option.bind_eq_some_iff] at received
  obtain ⟨m, filled, ⟨calls, last⟩, received, same⟩ := received
  cases same
  have store := filled
  simp only [fill, Option.bind_eq_bind, Option.bind_eq_some_iff] at store
  obtain ⟨cells, stored, -⟩ := store
  obtain ⟨room, -⟩ := Block.of_store stored
  have inside : (makeRoom b).writeOffset.toNat ≤ (makeRoom b).allocSize.toNat := Nat.le_of_add_right_le room
  rw [makeRoom_writeOffset] at inside
  obtain ⟨wf', same, read⟩ := makeRoom_of_le wf inside
  have width := chunk.le
  have buffer : kReadBufSize.toNat = 2048 := rfl
  have count : (UInt32.ofNat chunk.bytes.length).toNat = chunk.bytes.length :=
    UInt32.toNat_ofNat_of_lt' (show chunk.bytes.length < 2 ^ 32 by omega)
  obtain ⟨m', filled', moved, queue, read', -⟩ := SimpleBuffer.fill_spec wf' count room
  rw [filled] at filled'
  cases filled'
  exact ⟨_, _, moved, by rw [queue, same], read'.trans read, received⟩

/-- Whatever the sizes are: a `_RecvData` that stays inside its allocations appends all that `recv` gives. -/
theorem receive_of_some {calls : List SimpleBuffer} (wf : b.WF) (received : receive chunks b = some (calls, after))
    (inside : after.writeOffset.toNat ≤ after.allocSize.toNat) :
    after.WF ∧ after.content = b.content ++ chunkBytes chunks ∧ after.readOffset = b.readOffset := by
  induction chunks generalizing b calls with
  | nil =>
    cases received
    rw [makeRoom_writeOffset] at inside
    obtain ⟨wf', same, read⟩ := makeRoom_of_le wf inside
    exact ⟨wf', by rw [same]; exact (List.append_nil _).symm, read⟩
  | cons chunk rest ih =>
    obtain ⟨next, later, wf', queue, read, received⟩ := receive_cons_of_some wf received
    obtain ⟨wf'', content, start⟩ := ih wf' received
    refine ⟨wf'', ?_, start.trans read⟩
    rw [content, queue, List.append_assoc]
    rfl

/-- There are at most as many bytes as the offsets can count. -/
theorem receive_length {calls : List SimpleBuffer} (wf : b.WF) (received : receive chunks b = some (calls, after)) :
    b.content.length + (chunkBytes chunks).length < 2 ^ 32 := by
  induction chunks generalizing b calls with
  | nil =>
    have bound := b.writeOffset.toNat_lt
    show b.content.length + 0 < 2 ^ 32
    rw [wf.length_content]
    omega
  | cons chunk rest ih =>
    obtain ⟨next, later, wf', queue, -, received⟩ := receive_cons_of_some wf received
    have fits := ih wf' received
    have total : (chunkBytes (chunk :: rest)).length = chunk.bytes.length + (chunkBytes rest).length := List.length_append
    rw [queue, List.length_append] at fits
    rw [total]
    omega

/-- A byte behind the last one overwrites none of them. -/
theorem terminate_spec (wf : b.WF) (room : b.writeOffset.toNat < b.allocSize.toNat) :
    ∃ ended, terminate b = some ended ∧ ended.WF ∧ ended.content = b.content ∧ ended.readOffset = b.readOffset ∧
      ended.writeOffset = b.writeOffset ∧
      ended.buffer.cells.take b.writeOffset.toNat = b.buffer.cells.take b.writeOffset.toNat := by
  have inside : b.writeOffset.toNat + [(0 : UInt8)].length ≤ b.allocSize.toNat := Nat.succ_le_of_lt room
  obtain ⟨m, stored, -⟩ := b.buffer.store_eq_some inside
  have kept := Block.store_take stored (Nat.le_refl b.writeOffset.toNat)
  refine ⟨{ b with buffer := m }, by simp [terminate, fill, stored], ⟨wf.read_le, wf.write_le⟩, ?_, rfl, rfl, kept⟩
  show (m.cells.take b.writeOffset.toNat).drop b.readOffset.toNat = b.content
  rw [kept]
  rfl

/-! ## Any history -/

theorem InBufStep.exec_wf {step : InBufStep} (wf : b.WF) (small : step.Small b) :
    ∃ t, step.exec b = some t ∧ t.WF := by
  cases step with
  | recvData chunks =>
    obtain ⟨calls, after, received, -, all⟩ := receive_spec wf small
    exact ⟨after, by simp [exec, received], all.wf⟩
  | httpRecvData chunks =>
    obtain ⟨calls, after, received, -, all⟩ := receive_spec wf small
    obtain ⟨ended, stored, wf', -⟩ := terminate_spec all.wf all.spare
    exact ⟨ended, by simp [exec, received, stored], wf'⟩
  | read len => exact ⟨_, rfl, (readNull_spec wf len).1⟩
  | resetOffset =>
    obtain ⟨t, moved, wf', -⟩ := resetOffset_spec wf
    exact ⟨t, moved, wf'⟩

/-- What the next `_RecvData` of the connection finds and leaves, whatever `recv` gives. -/
def AlwaysRoom (b : SimpleBuffer) : Prop :=
  ∀ s : ConnState, s.conn.inBuf = b → StaysSmall b (chunkBytes s.socket.recvs).length →
    wp (recvData (s.socket.recvs.length + 1)) (fun _ t => ∃ calls,
      receive s.socket.recvs b = some (calls, t.conn.inBuf) ∧ (∀ call ∈ calls, HasRoom b call) ∧
        t.conn.inBuf.content = b.content ++ chunkBytes s.socket.recvs ∧
        t.conn.inBuf.writeOffset < t.conn.inBuf.allocSize ∧
        ∃ ended, terminate t.conn.inBuf = some ended ∧ ended.writeOffset = t.conn.inBuf.writeOffset ∧
          ended.buffer.cells.take t.conn.inBuf.writeOffset.toNat =
            t.conn.inBuf.buffer.cells.take t.conn.inBuf.writeOffset.toNat) Never s

/-- **The receive loop always has room**, and one byte to spare when it returns. -/
theorem recv_room (steps : List InBufStep)
    (small : AlongPartial InBufStep.exec (fun b step => step.Small b) .init steps) :
    ∃ b, runPartial InBufStep.exec .init steps = some b ∧ AlwaysRoom b := by
  obtain ⟨b, ran, wf⟩ := runPartial_along (I := SimpleBuffer.WF) (fun b step wf small => step.exec_wf wf small)
    wf_init small
  refine ⟨b, ran, fun s here fits => ?_⟩
  subst here
  obtain ⟨calls, after, received, rooms, all⟩ := receive_spec wf fits
  have spare := all.spare
  obtain ⟨ended, stored, -, -, -, same, kept⟩ := terminate_spec all.wf spare
  refine (recvData_receive (Nat.lt_succ_self _)).mono ?_ ?_
  · rintro - t ⟨calls', is⟩
    rw [received] at is
    cases is
    exact ⟨calls, received, rooms, all.content, UInt32.lt_iff_toNat_lt.mpr spare, ended, stored, same, kept⟩
  · rintro stop t ⟨-, fails⟩
    rw [received] at fails
    cases fails

theorem recv_room_hello : ∃ b,
    runPartial InBufStep.exec .init [.httpRecvData [⟨[104, 105], by decide, by decide⟩], .read 1, .resetOffset] = some b ∧
      AlwaysRoom b :=
  recv_room _ ⟨by unfold InBufStep.Small StaysSmall; decide, fun _ _ => ⟨trivial, fun _ _ => ⟨trivial, fun _ _ => trivial⟩⟩⟩

end Netter.BaseConn
