import PicoJvm.Lib.Ring
import PicoJvm.Lib.Transducer

/-!
# Receiving on a TCP socket

The network stack hands packets to `on_tcp_recv`, which copies them into a ring; the
virtual machine takes bytes out of it with `tcp_receive`. Bytes that were copied are
credited back to the stack, which lets the peer send more.
-/

namespace PicoJvm.Network

open PicoJvm.Lib

/-- `TCP_RECV_BUF_SIZE`. -/
def tcpRecvBufSize : Nat := 2048

/-- `TCP_WND`, four segments of `TCP_MSS`. -/
def tcpWnd : Nat := 4 * 1460

/-- `ERR_OK` of the network stack. -/
def errOk : Int := 0

/-- `sock_state`. -/
inductive SockState
  | none
  | connecting
  | connected
  | closed
  | error
  deriving DecidableEq, Repr

/-- `socket_ctx_t`, as a TCP socket uses it. -/
structure Socket where
  pcb : Bool
  state : SockState
  error : Int
  recvBuf : List UInt8
  recvHead : Nat
  recvTail : Nat
  recvEof : Bool
  deriving DecidableEq, Repr

namespace Socket

/-- A socket of `alloc_socket`, connected. -/
def connected : Socket :=
  { pcb := true, state := .connected, error := 0,
    recvBuf := List.replicate tcpRecvBufSize 0, recvHead := 0, recvTail := 0,
    recvEof := false }

/-- `recv_buf_used`. -/
def recvBufUsed (socket : Socket) : Nat :=
  (socket.recvHead + tcpRecvBufSize - socket.recvTail) % tcpRecvBufSize

/-- `recv_buf_free`: one byte stays unused. -/
def recvBufFree (socket : Socket) : Nat :=
  tcpRecvBufSize - 1 - socket.recvBufUsed

end Socket

/-- What happens to a socket: a packet, the end of the stream (`on_tcp_recv` without a
packet), an error, or a call of `tcp_receive`. -/
inductive Event
  | recv (payload : List UInt8) (err : Int)
  | closed
  | err (code : Int)
  | receive (len : Nat)
  deriving DecidableEq, Repr

/-- What comes of it: `consumed` is `ERR_OK` with what was credited, `waits` a call of
`tcp_receive` that sleeps on. -/
inductive Response
  | consumed (credit : Nat)
  | refused (err : Int)
  | noted
  | data (bytes : List UInt8)
  | endOfStream
  | error
  | waits
  deriving DecidableEq, Repr

namespace Socket

variable (socket : Socket)

/-- `on_tcp_recv` with a packet. -/
def onTcpRecv (payload : List UInt8) (err : Int) : Response × Socket :=
  if err ≠ errOk then
    (.refused err, { socket with state := .error, error := err })
  else
    let toCopy := min payload.length socket.recvBufFree
    if toCopy > 0 then
      (.consumed toCopy,
        { socket with
          recvBuf := Ring.deposit socket.recvBuf socket.recvHead (payload.take toCopy)
          recvHead := (socket.recvHead + toCopy) % tcpRecvBufSize })
    else
      (.consumed 0, socket)

/-- `on_tcp_err`. -/
def onTcpErr (code : Int) : Response × Socket :=
  (.noted, { socket with state := .error, error := code, pcb := false })

/-- `tcp_receive` into an array that has room for `len` bytes. -/
def tcpReceive (len : Nat) : Response × Socket :=
  if socket.recvBufUsed = 0 ∧ socket.recvEof = false ∧ socket.state ≠ .error then
    (.waits, socket)
  else if socket.state = .error then
    (.error, socket)
  else
    let avail := socket.recvBufUsed
    if avail = 0 ∧ socket.recvEof then
      (.endOfStream, socket)
    else
      let toCopy := min len avail
      (.data (Ring.withdraw socket.recvBuf socket.recvTail toCopy),
        { socket with recvTail := (socket.recvTail + toCopy) % tcpRecvBufSize })

def respond : Event → Response × Socket
  | .recv payload err => socket.onTcpRecv payload err
  | .closed => (.noted, { socket with recvEof := true })
  | .err code => socket.onTcpErr code
  | .receive len => socket.tcpReceive len

end Socket

/-! ## Runs -/

/-- The events of a run with what came of them. -/
abbrev History := List (Event × Response)

/-- The events of a run on a connected socket with what came of them. -/
def historyOf (events : List Event) : History :=
  Transducer.historyOf Socket.respond .connected events

def socketAfter (events : List Event) : Socket :=
  Transducer.stateAfter Socket.respond .connected events

/-- The bytes of the packets that `on_tcp_recv` returned `ERR_OK` for. -/
def consumedBytes (history : History) : List UInt8 :=
  history.flatMap fun
    | (.recv payload _, .consumed _) => payload
    | _ => []

/-- The bytes that `tcp_receive` returned. -/
def returnedBytes (history : History) : List UInt8 :=
  history.flatMap fun
    | (.receive _, .data bytes) => bytes
    | _ => []

/-- The total of the calls of `tcp_recved`. -/
def credited (history : History) : Nat :=
  (history.map fun
    | (_, .consumed credit) => credit
    | _ => 0).sum

/-- The bytes delivered and not yet credited. -/
def uncredited (history : History) : Nat :=
  (history.map fun
    | (.recv payload _, _) => payload.length
    | _ => 0).sum - credited history

/-- The stack keeps within the window it advertised. -/
def WithinWindow (events : List Event) : Prop :=
  ∀ before payload err after, events = before ++ Event.recv payload err :: after →
    uncredited (historyOf before) + payload.length ≤ tcpWnd

/-- The bytes in the ring, in the order they are taken out. -/
def Socket.contents (socket : Socket) : List UInt8 :=
  Ring.slice socket.recvBuf socket.recvTail socket.recvBufUsed

/-- No byte is lost, doubled or out of order, none is left when the end of the stream or an
error is reported, and all are credited. -/
structure Delivers (history : History) (socket : Socket) : Prop where
  order : returnedBytes history ++ socket.contents = consumedBytes history
  next : ∀ len, socket.state ≠ .error → socket.contents ≠ [] →
    (socket.respond (.receive len)).1 = .data (socket.contents.take len)
  complete : ∀ before len report after, history = before ++ (.receive len, report) :: after →
    report = .endOfStream ∨ report = .error → returnedBytes before = consumedBytes before
  creditedAll : credited history = (consumedBytes history).length

/-- A packet fits into what is free of the ring, and `tcp_receive` is not called after an
error while there are bytes in the ring. -/
def Event.Fits (socket : Socket) : Event → Prop
  | .recv payload status => status = errOk → payload.length ≤ socket.recvBufFree
  | .receive _ => socket.state = .error → socket.recvBufUsed = 0
  | _ => True

/-! ## The ring of a socket -/

namespace Socket

/-- The ring is as long as it should be, and its ends are in it. -/
structure WellFormed (socket : Socket) : Prop where
  bufLength : socket.recvBuf.length = tcpRecvBufSize
  head_lt : socket.recvHead < tcpRecvBufSize
  tail_lt : socket.recvTail < tcpRecvBufSize

theorem connected_wellFormed : WellFormed connected :=
  ⟨List.length_replicate, by decide, by decide⟩

section Ring

variable {socket : Socket}

theorem recvBufUsed_lt (socket : Socket) : socket.recvBufUsed < tcpRecvBufSize :=
  Nat.mod_lt _ (by decide)

@[simp] theorem contents_length (socket : Socket) :
    socket.contents.length = socket.recvBufUsed :=
  Ring.slice_length _ _ _

theorem contents_eq_nil_iff (socket : Socket) :
    socket.contents = [] ↔ socket.recvBufUsed = 0 := by
  rw [← contents_length, List.length_eq_zero_iff]

/-- The head lies behind the bytes in the ring. -/
theorem head_eq (wellFormed : WellFormed socket) :
    socket.recvHead = (socket.recvTail + socket.recvBufUsed) % tcpRecvBufSize := by
  have := wellFormed.head_lt
  have := wellFormed.tail_lt
  unfold recvBufUsed
  rw [Nat.add_mod_mod, show socket.recvTail + (socket.recvHead + tcpRecvBufSize - socket.recvTail) =
    socket.recvHead + tcpRecvBufSize by omega, Nat.add_mod_right,
    Nat.mod_eq_of_lt wellFormed.head_lt]

theorem used_of_head
    {tail used : Nat}
    (tailBelow : tail < tcpRecvBufSize)
    (usedBelow : used < tcpRecvBufSize) :
    ((tail + used) % tcpRecvBufSize + tcpRecvBufSize - tail) % tcpRecvBufSize = used := by
  rcases Nat.lt_or_ge (tail + used) tcpRecvBufSize with below | above
  · rw [Nat.mod_eq_of_lt below, show tail + used + tcpRecvBufSize - tail =
      used + tcpRecvBufSize by omega, Nat.add_mod_right, Nat.mod_eq_of_lt usedBelow]
  · rw [Nat.mod_eq_sub_mod above, Nat.mod_eq_of_lt (show tail + used - tcpRecvBufSize <
      tcpRecvBufSize by omega), show tail + used - tcpRecvBufSize + tcpRecvBufSize - tail = used by
      omega, Nat.mod_eq_of_lt usedBelow]

/-- What a packet leaves behind: the bytes that fit. -/
theorem onTcpRecv_spec
    (wellFormed : WellFormed socket)
    (payload : List UInt8) :
    let toCopy := min payload.length socket.recvBufFree
    (socket.onTcpRecv payload errOk).1 = .consumed toCopy ∧
      WellFormed (socket.onTcpRecv payload errOk).2 ∧
        (socket.onTcpRecv payload errOk).2.contents = socket.contents ++ payload.take toCopy := by
  intro toCopy
  have usedBelow := recvBufUsed_lt socket
  have fits : socket.recvBufUsed + toCopy < tcpRecvBufSize := by
    have : toCopy ≤ tcpRecvBufSize - 1 - socket.recvBufUsed := Nat.min_le_right _ _
    omega
  have takeLength : (payload.take toCopy).length = toCopy := by
    rw [List.length_take]
    exact Nat.min_eq_left (Nat.min_le_left _ _)
  unfold onTcpRecv
  rw [if_neg (by simp)]
  by_cases some : toCopy > 0
  · simp only
    rw [if_pos some]
    have bufLength := wellFormed.bufLength
    have headInside : socket.recvHead < socket.recvBuf.length := by
      rw [bufLength]
      exact wellFormed.head_lt
    refine ⟨rfl, ⟨?_, Nat.mod_lt _ (by decide), wellFormed.tail_lt⟩, ?_⟩
    · simp only
      rw [Ring.deposit_length headInside (by rw [takeLength, bufLength]; omega), bufLength]
    · have used : ({ socket with
          recvBuf := Ring.deposit socket.recvBuf socket.recvHead (payload.take toCopy)
          recvHead := (socket.recvHead + toCopy) % tcpRecvBufSize } : Socket).recvBufUsed =
          socket.recvBufUsed + toCopy := by
        change ((socket.recvHead + toCopy) % tcpRecvBufSize + tcpRecvBufSize -
          socket.recvTail) % tcpRecvBufSize = _
        rw [head_eq wellFormed, Nat.mod_add_mod, Nat.add_assoc]
        exact used_of_head wellFormed.tail_lt fits
      unfold contents
      rw [used]
      simp only
      have tailInside : socket.recvTail < socket.recvBuf.length := by
        rw [bufLength]
        exact wellFormed.tail_lt
      have roomLeft : socket.recvBufUsed + (payload.take toCopy).length ≤
          socket.recvBuf.length := by
        rw [takeLength, bufLength]
        omega
      have deposited := Ring.slice_deposit tailInside roomLeft
      rw [takeLength, bufLength, ← head_eq wellFormed] at deposited
      exact deposited
  · have none : toCopy = 0 := by omega
    simp only
    rw [if_neg some, none]
    exact ⟨rfl, wellFormed, by simp⟩

/-- What `tcp_receive` takes out stood in front. -/
theorem tcpReceive_data
    (wellFormed : WellFormed socket)
    (len : Nat)
    (noError : socket.state ≠ .error)
    (nonempty : socket.recvBufUsed ≠ 0) :
    (socket.tcpReceive len).1 = .data (socket.contents.take len) ∧
      WellFormed (socket.tcpReceive len).2 ∧
        (socket.tcpReceive len).2.contents = socket.contents.drop len := by
  have usedBelow := recvBufUsed_lt socket
  have bufLength := wellFormed.bufLength
  unfold tcpReceive
  rw [if_neg (fun all => nonempty all.1), if_neg noError]
  simp only
  rw [if_neg (fun all => nonempty all.1)]
  generalize taken : min len socket.recvBufUsed = toCopy
  have split : socket.contents =
      Ring.slice socket.recvBuf socket.recvTail toCopy ++
        Ring.slice socket.recvBuf ((socket.recvTail + toCopy) % tcpRecvBufSize)
          (socket.recvBufUsed - toCopy) := by
    unfold contents
    rw [← bufLength, ← Ring.slice_add, show toCopy + (socket.recvBufUsed - toCopy) =
      socket.recvBufUsed by omega]
  have front : (Ring.slice socket.recvBuf socket.recvTail toCopy).length = toCopy :=
    Ring.slice_length _ _ _
  refine ⟨?_, ⟨bufLength, wellFormed.head_lt, Nat.mod_lt _ (by decide)⟩, ?_⟩
  · simp only
    rw [Ring.withdraw_eq_slice (by rw [bufLength]; exact wellFormed.tail_lt)
      (by rw [bufLength]; omega)]
    congr 1
    rcases Nat.lt_or_ge len socket.recvBufUsed with fewer | enough
    · have same : len = toCopy := by omega
      rw [split, same, List.take_left' front]
    · have same : toCopy = socket.recvBufUsed := by omega
      rw [List.take_of_length_le (by rw [contents_length]; omega), same]
      rfl
  · have used : ({ socket with
        recvTail := (socket.recvTail + toCopy) % tcpRecvBufSize } : Socket).recvBufUsed =
        socket.recvBufUsed - toCopy := by
      change (socket.recvHead + tcpRecvBufSize -
        (socket.recvTail + toCopy) % tcpRecvBufSize) % tcpRecvBufSize = _
      rw [head_eq wellFormed]
      have tailInside : (socket.recvTail + toCopy) % tcpRecvBufSize < tcpRecvBufSize :=
        Nat.mod_lt _ (by decide)
      have usedInside : socket.recvBufUsed - toCopy < tcpRecvBufSize := by
        omega
      have := used_of_head tailInside usedInside
      rw [Nat.mod_add_mod, show socket.recvTail + toCopy + (socket.recvBufUsed - toCopy) =
        socket.recvTail + socket.recvBufUsed by omega] at this
      exact this
    unfold contents at split ⊢
    rw [used, split]
    simp only
    rcases Nat.lt_or_ge len socket.recvBufUsed with fewer | enough
    · have same : len = toCopy := by omega
      rw [same, List.drop_left' front]
    · have same : toCopy = socket.recvBufUsed := by omega
      rw [same, Nat.sub_self, Ring.slice_zero, List.append_nil,
        List.drop_of_length_le (by rw [Ring.slice_length]; omega)]

end Ring

theorem respond_wellFormed
    {socket : Socket}
    (wellFormed : WellFormed socket)
    (event : Event) :
    WellFormed (socket.respond event).2 := by
  cases event with
  | recv payload status =>
      by_cases ok : status = errOk
      · subst ok
        exact (onTcpRecv_spec wellFormed payload).2.1
      · simp only [respond, onTcpRecv, ne_eq, ok, not_false_eq_true, if_true]
        exact ⟨wellFormed.bufLength, wellFormed.head_lt, wellFormed.tail_lt⟩
  | closed =>
      exact ⟨wellFormed.bufLength, wellFormed.head_lt, wellFormed.tail_lt⟩
  | err code =>
      exact ⟨wellFormed.bufLength, wellFormed.head_lt, wellFormed.tail_lt⟩
  | receive len =>
      simp only [respond, tcpReceive]
      split
      · exact wellFormed
      · split
        · exact wellFormed
        · split
          · exact wellFormed
          · exact ⟨wellFormed.bufLength, wellFormed.head_lt, Nat.mod_lt _ (by decide)⟩

end Socket

/-! ## Runs event by event -/

theorem socketAfter_wellFormed (events : List Event) :
    Socket.WellFormed (socketAfter events) :=
  Transducer.state_induction Socket.connected_wellFormed
    (fun _ event wellFormed => Socket.respond_wellFormed wellFormed event) events

/-- The next step answers as long as no error is recorded. -/
theorem tcpReceive_next
    {socket : Socket}
    (wellFormed : Socket.WellFormed socket)
    (len : Nat)
    (noError : socket.state ≠ .error)
    (nonempty : socket.contents ≠ []) :
    (socket.respond (.receive len)).1 = .data (socket.contents.take len) :=
  (Socket.tcpReceive_data wellFormed len noError
    (fun none => nonempty ((Socket.contents_eq_nil_iff socket).mpr none))).1

namespace Delivers

variable {history : History} {socket : Socket}

/-- A step with no report, which takes from the ring what it returns and puts into it what
it consumes. -/
theorem snoc
    (delivers : Delivers history socket)
    {event : Event} {response : Response} {next : Socket}
    (wellFormed : Socket.WellFormed next)
    (order : returnedBytes [(event, response)] ++ next.contents =
      socket.contents ++ consumedBytes [(event, response)])
    (credit : credited [(event, response)] = (consumedBytes [(event, response)]).length)
    (complete : ∀ len, event = .receive len → response = .endOfStream ∨ response = .error →
      socket.contents = []) :
    Delivers (history ++ [(event, response)]) next where
  order := by
    have before := delivers.order
    unfold returnedBytes consumedBytes at order before ⊢
    rw [List.flatMap_append, List.flatMap_append, List.append_assoc, order, ← List.append_assoc,
      before]
  next := fun len noError nonempty => tcpReceive_next wellFormed len noError nonempty
  complete := by
    intro before len report after split isReport
    rcases Transducer.snoc_eq_append_cons split with ⟨same, sameHistory⟩ | ⟨after', earlier⟩
    · obtain ⟨rfl, rfl⟩ := Prod.mk.inj same
      have none := complete len rfl isReport
      have order := delivers.order
      rw [none, List.append_nil] at order
      rw [← sameHistory]
      exact order
    · exact delivers.complete before len report after' earlier isReport
  creditedAll := by
    have before := delivers.creditedAll
    unfold credited consumedBytes at credit before ⊢
    rw [List.map_append, List.sum_append, List.flatMap_append, List.length_append, before, credit]

/-- What a step that meets the condition preserves. -/
theorem step
    (delivers : Delivers history socket)
    (wellFormed : Socket.WellFormed socket)
    {event : Event}
    (fits : event.Fits socket) :
    Delivers (history ++ [(event, (socket.respond event).1)]) (socket.respond event).2 := by
  have wellFormed' := Socket.respond_wellFormed wellFormed event
  cases event with
  | recv payload status =>
      by_cases ok : status = errOk
      · subst ok
        obtain ⟨response, _, contents⟩ := Socket.onTcpRecv_spec wellFormed payload
        have all : min payload.length socket.recvBufFree = payload.length :=
          Nat.min_eq_left (fits rfl)
        rw [all] at response contents
        refine delivers.snoc wellFormed' ?_ ?_ ?_
        · simp only [Socket.respond]
          rw [response, contents]
          simp [returnedBytes, consumedBytes]
        · simp only [Socket.respond]
          rw [response]
          simp [credited, consumedBytes]
        · intro len isReceive
          cases isReceive
      · refine delivers.snoc wellFormed' ?_ ?_ ?_
        · simp [Socket.respond, Socket.onTcpRecv, ok, returnedBytes, consumedBytes,
            Socket.contents, Socket.recvBufUsed]
        · simp [Socket.respond, Socket.onTcpRecv, ok, credited, consumedBytes]
        · intro len isReceive
          cases isReceive
  | closed =>
      refine delivers.snoc wellFormed' ?_ rfl ?_
      · simp [Socket.respond, returnedBytes, consumedBytes, Socket.contents, Socket.recvBufUsed]
      · intro len isReceive
        cases isReceive
  | err code =>
      refine delivers.snoc wellFormed' ?_ rfl ?_
      · simp [Socket.respond, Socket.onTcpErr, returnedBytes, consumedBytes, Socket.contents,
          Socket.recvBufUsed]
      · intro len isReceive
        cases isReceive
  | receive len =>
      by_cases empty : socket.recvBufUsed = 0
      · have none := (Socket.contents_eq_nil_iff socket).mpr empty
        have same : (socket.respond (.receive len)).2 = socket ∧
            (socket.respond (.receive len)).1 ∈
              [Response.waits, Response.error, Response.endOfStream] := by
          simp only [Socket.respond, Socket.tcpReceive, empty, true_and]
          split
          · simp
          · split
            · simp
            · rename_i notWaiting noError
              have eof : socket.recvEof = true := by
                by_contra noEof
                exact notWaiting ⟨by simpa using noEof, noError⟩
              simp [eof]
        obtain ⟨sameSocket, response⟩ := same
        rw [sameSocket]
        refine delivers.snoc wellFormed ?_ ?_ (fun _ _ _ => none)
        · rw [none]
          simp only [List.mem_cons, List.not_mem_nil, or_false] at response
          rcases response with is | is | is <;> rw [is] <;> rfl
        · simp only [List.mem_cons, List.not_mem_nil, or_false] at response
          rcases response with is | is | is <;> rw [is] <;> rfl
      · have noError : socket.state ≠ .error := fun isError => empty (fits isError)
        obtain ⟨response, _, contents⟩ := Socket.tcpReceive_data wellFormed len noError empty
        refine delivers.snoc wellFormed' ?_ ?_ ?_
        · simp only [Socket.respond]
          rw [response, contents]
          simp [returnedBytes, consumedBytes]
        · simp only [Socket.respond]
          rw [response]
          rfl
        · intro _ _ isReport
          simp only [Socket.respond] at isReport
          rw [response] at isReport
          rcases isReport with is | is <;> cases is

/-- A step that does not meet the condition breaks the property. -/
theorem fits_of_step
    (delivers : Delivers history socket)
    (wellFormed : Socket.WellFormed socket)
    {event : Event}
    (after : Delivers (history ++ [(event, (socket.respond event).1)])
      (socket.respond event).2) :
    event.Fits socket := by
  cases event with
  | recv payload status =>
      rintro rfl
      have response := (Socket.onTcpRecv_spec wellFormed payload).1
      have before := delivers.creditedAll
      have creditedAll := after.creditedAll
      simp only [Socket.respond] at creditedAll
      rw [response] at creditedAll
      unfold credited consumedBytes at before creditedAll
      simp only [List.map_append, List.sum_append, List.flatMap_append, List.length_append,
        before, List.map_cons, List.map_nil, List.sum_cons, List.sum_nil, List.flatMap_cons,
        List.flatMap_nil, List.append_nil] at creditedAll
      omega
  | closed =>
      trivial
  | err code =>
      trivial
  | receive len =>
      intro isError
      have response : (socket.respond (.receive len)).1 = .error := by
        simp [Socket.respond, Socket.tcpReceive, isError]
      have complete := after.complete history len _ [] rfl (Or.inr response)
      have order := delivers.order
      rw [complete] at order
      rw [← Socket.contents_eq_nil_iff]
      exact List.append_right_eq_self.mp order

end Delivers

theorem connected_delivers : Delivers [] Socket.connected where
  order := rfl
  next := fun len noError nonempty =>
    tcpReceive_next Socket.connected_wellFormed len noError nonempty
  complete := by
    intro before len report after split
    simp at split
  creditedAll := rfl

theorem delivers_of_fits
    {events : List Event}
    (fits : Transducer.StepsMeet Socket.respond .connected (fun socket event => event.Fits socket)
      events) :
    Delivers (historyOf events) (socketAfter events) := by
  induction events using List.reverseRecOn with
  | nil =>
      exact connected_delivers
  | append_singleton events event inductionHypothesis =>
      unfold historyOf socketAfter
      rw [Transducer.historyOf_snoc, Transducer.stateAfter_snoc]
      exact (inductionHypothesis fits.of_append).step (socketAfter_wellFormed events) fits.last

theorem fits_of_delivers
    {before : List Event} {event : Event}
    (delivers : Delivers (historyOf before) (socketAfter before))
    (after : Delivers (historyOf (before ++ [event])) (socketAfter (before ++ [event]))) :
    event.Fits (socketAfter before) := by
  unfold historyOf socketAfter at after
  rw [Transducer.historyOf_snoc, Transducer.stateAfter_snoc] at after
  exact delivers.fits_of_step (socketAfter_wellFormed before) after

/-- Throughout a run bytes are delivered as they should be, if and only if every packet fits
into the ring when it comes, and `tcp_receive` finds no bytes left after an error. -/
theorem receiving_delivers_iff (events : List Event) :
    (∀ before after, events = before ++ after →
        Delivers (historyOf before) (socketAfter before)) ↔
      ∀ before event after, events = before ++ event :: after →
        event.Fits (socketAfter before) := by
  constructor
  · intro delivers before event after split
    refine fits_of_delivers (delivers before (event :: after) split)
      (delivers (before ++ [event]) after ?_)
    rw [split, List.append_assoc]
    rfl
  · intro fits before after split
    refine delivers_of_fits ?_
    intro before' event after' split'
    exact fits before' event (after' ++ after) (by rw [split, split']; simp)

/-- Two segments that arrive before `tcp_receive` is called. -/
def twoSegments (first second : List UInt8) : List Event :=
  [.recv first errOk, .recv second errOk]

theorem twoSegments_withinWindow
    {first second : List UInt8}
    (firstLength : first.length = 1460)
    (secondLength : second.length = 1460) :
    WithinWindow (twoSegments first second) := by
  have stored := (Socket.onTcpRecv_spec Socket.connected_wellFormed first).1
  have free : Socket.connected.recvBufFree = 2047 := rfl
  have window : tcpWnd = 5840 := rfl
  have history : historyOf [Event.recv first errOk] =
      [(Event.recv first errOk, (Socket.connected.onTcpRecv first errOk).1)] :=
    rfl
  rw [firstLength, free] at stored
  intro before payload status after split
  rcases before with _ | ⟨event, _ | ⟨event', rest⟩⟩
  · simp only [twoSegments, List.nil_append, List.cons.injEq, Event.recv.injEq] at split
    rw [← split.1.1, firstLength, window]
    change 0 + 1460 ≤ 5840
    omega
  · simp only [twoSegments, List.singleton_append, List.cons.injEq, Event.recv.injEq] at split
    rw [← split.1, ← split.2.1.1, secondLength, window, history, stored]
    simp [uncredited, credited, firstLength]
  · have lengths := congrArg List.length split
    simp [twoSegments] at lengths

theorem twoSegments_not_delivered
    {first second : List UInt8}
    (firstLength : first.length = 1460)
    (secondLength : second.length = 1460) :
    ¬ Delivers (historyOf (twoSegments first second)) (socketAfter (twoSegments first second)) := by
  intro delivers
  have free : Socket.connected.recvBufFree = 2047 := rfl
  have stored := (Socket.onTcpRecv_spec Socket.connected_wellFormed first).2.2
  have afterFirst : socketAfter [Event.recv first errOk] =
      (Socket.connected.onTcpRecv first errOk).2 :=
    rfl
  have firstDelivered :
      Delivers (historyOf [Event.recv first errOk]) (socketAfter [Event.recv first errOk]) := by
    refine delivers_of_fits ?_
    intro before event after split
    rcases before with _ | ⟨event', rest⟩
    · simp only [List.nil_append, List.cons.injEq] at split
      rw [← split.1]
      intro _
      change _ ≤ Socket.connected.recvBufFree
      rw [free, firstLength]
      omega
    · have lengths := congrArg List.length split
      simp at lengths
  have fits : second.length ≤ (socketAfter [Event.recv first errOk]).recvBufFree :=
    fits_of_delivers firstDelivered delivers rfl
  have used := congrArg List.length stored
  rw [firstLength, free] at used
  rw [afterFirst, secondLength] at fits
  unfold Socket.recvBufFree at fits
  rw [← Socket.contents_length, used] at fits
  simp [Socket.contents_length, tcpRecvBufSize, firstLength] at fits
  omega

/-- Two full segments are let through by the window, but half of the second one does not fit
into the ring and is lost. -/
theorem twoFullSegments_lose_bytes :
    let segments := twoSegments (List.replicate 1460 0) (List.replicate 1460 1)
    WithinWindow segments ∧ ¬ Delivers (historyOf segments) (socketAfter segments) :=
  ⟨twoSegments_withinWindow List.length_replicate List.length_replicate,
    twoSegments_not_delivered List.length_replicate List.length_replicate⟩

end PicoJvm.Network
