import Netter.Conn.Send

/-!
# Closing

`Close` closes the descriptor whatever is left in `m_out_buf`. A run here is the life of an open
connection: calls on the loop thread, packets posted from other threads, and passes of
`loop_callback` that process them; it ends with `Close`, called directly or through a posted
`CloseHandle`. The bytes accepted before the close have all reached the kernel exactly when the
connection is not busy as `Close` begins.
-/

namespace Netter.BaseConn

open Lib

/-- An event before the close. The results of `send(2)` come with each call, and with each packet
of a callback. -/
inductive Event where
  | call (call : SendCall) (sends : List Int)
  /-- `SendPkt(handle, pkt)` from another thread. -/
  | post (pkt : HeapPkt)
  | callback (sends : List (List Int))

/-- The first loop of `loop_callback` for the packets of one connection. -/
def sendPosted : List HeapPkt → List (List Int) → ConnM Unit
  | [], _ => return
  | pkt :: pkts, sends => do
    modify fun s => { s with socket := { s.socket with sends := sends.headD [] } }
    if (← get).conn.isOpen then
      discard <| sendPkt pkt.pkt
    else
      addToWaitPktList pkt
    sendPosted pkts sends.tail

/-- The second loop, for as many posted closes of the connection; a closed one is not found. -/
def closePosted : Nat → ConnM Unit
  | 0 => return
  | n + 1 => do
    if (← get).conn.handle ≠ invalidHandle then
      close
    closePosted n

/-- `loop_callback` with the two lists it has swapped out. -/
def loopCallback (pktList : List HeapPkt) (sends : List (List Int)) (closes : Nat) : ConnM Unit := do
  sendPosted pktList sends
  closePosted closes

/-- The events up to the close; `pktList` is the shared list of posted packets. -/
def runEvents : List Event → List HeapPkt → ConnM (List HeapPkt)
  | [], pktList => return pktList
  | .call call sends :: events, pktList => do
    modify fun s => { s with socket := { s.socket with sends } }
    discard call.exec
    runEvents events pktList
  | .post pkt :: events, pktList => runEvents events (pktList ++ [pkt])
  | .callback sends :: events, pktList => do
    loopCallback pktList sends 0
    runEvents events []

/-- How the connection is closed. After a posted `CloseHandle` other threads may still post packets
before the callback that closes runs. -/
inductive Closing where
  | close
  | closeHandle (later : List HeapPkt) (sends : List (List Int))

def Closing.exec (pktList : List HeapPkt) : Closing → ConnM Unit
  | .close => BaseConn.close
  | .closeHandle later sends => loopCallback (pktList ++ later) sends 1

/-- What is done before `Close` is called. -/
def Closing.upToClose (pktList : List HeapPkt) : Closing → ConnM Unit
  | .close => return
  | .closeHandle later sends => sendPosted (pktList ++ later) sends

/-! ## The calls of a run -/

/-- Posted packets of an open connection are `SendPkt` calls. -/
def postedCalls : List HeapPkt → List (List Int) → List (SendCall × List Int)
  | [], _ => []
  | pkt :: pkts, sends => (.sendPkt pkt, sends.headD []) :: postedCalls pkts sends.tail

def callsOf : List Event → List HeapPkt → List (SendCall × List Int)
  | [], _ => []
  | .call call sends :: events, pktList => (call, sends) :: callsOf events pktList
  | .post pkt :: events, pktList => callsOf events (pktList ++ [pkt])
  | .callback sends :: events, pktList => postedCalls pktList sends ++ callsOf events []

/-- The packets that are still posted at the end. -/
def postedAfter : List Event → List HeapPkt → List HeapPkt
  | [], pktList => pktList
  | .call _ _ :: events, pktList => postedAfter events pktList
  | .post pkt :: events, pktList => postedAfter events (pktList ++ [pkt])
  | .callback _ :: events, _ => postedAfter events []

def Closing.calls (pktList : List HeapPkt) : Closing → List (SendCall × List Int)
  | .close => []
  | .closeHandle later sends => postedCalls (pktList ++ later) sends

/-- All calls made before `Close`. -/
def allCalls (events : List Event) (closing : Closing) : List (SendCall × List Int) :=
  callsOf events [] ++ closing.calls (postedAfter events [])

/-! ## The invariant along a run -/

/-- Where an open connection stands when the calls `rest` are still to come. -/
structure Running (s : ConnState) (a : Account) (rest : List (SendCall × List Int)) : Prop where
  flow : Flow s a
  isOpen : a.isOpen = true
  registered : a.handle ≠ invalidHandle
  fits : RunFits rest s

theorem Account.run_append (a : Account) (calls rest : List (SendCall × List Int)) :
    (a.run (calls ++ rest)).2 = ((a.run calls).2.run rest).2 := by
  induction calls generalizing a with
  | nil => rfl
  | cons first calls ih =>
    obtain ⟨call, sends⟩ := first
    exact ih _

theorem Account.step_isOpen {a : Account} (isOpen : a.isOpen = true) (call : SendCall) :
    (a.step call).2.isOpen = true := by
  cases call <;> simp [Account.step, Account.send, isOpen]

theorem Account.step_handle (a : Account) (call : SendCall) : (a.step call).2.handle = a.handle := by
  cases call <;> simp [Account.step, Account.send] <;> split <;> rfl

/-- One of the calls to come. -/
theorem Running.exec_wp {s : ConnState} {a : Account} {call : SendCall} {sends : List Int}
    {rest : List (SendCall × List Int)} (stands : Running s a ((call, sends) :: rest)) :
    wp call.exec (fun _ t => Running t (a.step call).2 rest) Never
      { s with socket := { s.socket with sends } } := by
  obtain ⟨flow, isOpen, registered, fits, later⟩ := stands
  apply wp.call_run (call.exec_wp (flow.sends sends) fits)
  rintro r t run ⟨-, flow'⟩
  exact ⟨flow', a.step_isOpen isOpen call, by rw [a.step_handle]; exact registered, later r t run⟩

/-- A posted packet of an open connection is sent like any other. -/
theorem sendPosted_wp {pkts : List HeapPkt} {sends : List (List Int)} {s : ConnState} {a : Account}
    {rest : List (SendCall × List Int)} (stands : Running s a (postedCalls pkts sends ++ rest)) :
    wp (sendPosted pkts sends) (fun _ t => Running t (a.run (postedCalls pkts sends)).2 rest) Never s := by
  induction pkts generalizing sends s a with
  | nil =>
    rw [sendPosted, wp_pure]
    exact stands
  | cons pkt pkts ih =>
    have isOpen : s.conn.isOpen = true := stands.flow.isOpen.trans stands.isOpen
    have sent := stands.exec_wp
    simp only [SendCall.exec, wp_bind, wp_pure] at sent
    simp only [sendPosted, wp_bind, wp_modify, wp_get, isOpen, if_true, wp_discard]
    apply wp.call sent
    rintro - t stands'
    exact ih stands'

theorem runEvents_wp {events : List Event} {pktList : List HeapPkt} {s : ConnState} {a : Account}
    {rest : List (SendCall × List Int)} (stands : Running s a (callsOf events pktList ++ rest)) :
    wp (runEvents events pktList) (fun posted t => posted = postedAfter events pktList ∧
      Running t (a.run (callsOf events pktList)).2 rest) Never s := by
  induction events generalizing pktList s a with
  | nil =>
    rw [runEvents, wp_pure]
    exact ⟨rfl, stands⟩
  | cons event events ih =>
    cases event with
    | call call sends =>
      simp only [runEvents, wp_bind, wp_modify, wp_discard]
      apply wp.call stands.exec_wp
      rintro - t stands'
      exact ih stands'
    | post pkt => exact ih stands
    | callback sends =>
      rw [callsOf, List.append_assoc] at stands
      simp only [runEvents, loopCallback, closePosted, wp_bind, wp_pure]
      apply wp.call (sendPosted_wp stands)
      rintro - t stands'
      rw [callsOf, Account.run_append]
      exact ih stands'

theorem upToClose_wp {closing : Closing} {pktList : List HeapPkt} {s : ConnState} {a : Account}
    (stands : Running s a (closing.calls pktList)) :
    wp (closing.upToClose pktList) (fun _ t => Running t (a.run (closing.calls pktList)).2 []) Never s := by
  cases closing with
  | close => exact stands
  | closeHandle later sends => exact sendPosted_wp (by rw [List.append_nil]; exact stands)

/-- Both ways of closing end with `Close`. -/
theorem exec_eq (closing : Closing) (pktList : List HeapPkt) {s t : ConnState}
    (before : (closing.upToClose pktList).run s = .ok () t) (registered : t.conn.handle ≠ invalidHandle) :
    (closing.exec pktList).run s = close.run t := by
  cases closing with
  | close =>
    cases before
    rfl
  | closeHandle later sends =>
    have before : (sendPosted (pktList ++ later) sends).run s = .ok () t := before
    simp only [Closing.exec, loopCallback, EStateM.run_bind, before, closePosted, EStateM.run_get, ne_eq,
      registered, not_false_eq_true, if_true, bind_pure_unit]

end Netter.BaseConn
