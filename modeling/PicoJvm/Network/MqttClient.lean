import PicoJvm.Lib.Ring
import PicoJvm.Lib.Transducer

/-!
# Receiving from an MQTT broker

The network stack announces a message with `mqtt_incoming_publish_cb` and hands its payload
to `mqtt_incoming_data_cb` in fragments. The payload is put together in the slot from which
`mqtt_receive` takes messages, while the topic is kept elsewhere until the last fragment.
-/

namespace PicoJvm.Network

open PicoJvm.Lib

/-- `MQTT_MSG_BUF_SIZE`. -/
def mqttMsgBufSize : Nat := 1024

/-- `MQTT_TOPIC_MAX`, with the terminator. -/
def mqttTopicMax : Nat := 128

/-- `mqtt_msg_t`. -/
structure MqttMsg where
  topic : List UInt8
  topicLen : Nat
  payload : List UInt8
  payloadLen : Nat
  ready : Bool
  deriving DecidableEq, Repr

/-- `mqtt_ctx_t`, as far as incoming messages go. -/
structure MqttCtx where
  msg : MqttMsg
  incomingTopic : List UInt8
  incomingTopicLen : Nat
  incomingPayloadPos : Nat
  deriving DecidableEq, Repr

/-- What happens to a client. The topic is a C string, given without its terminator; a call of
`mqtt_receive` looks at the connection and at its timeout, and has room for so many bytes of
the topic and of the payload. -/
inductive MqttEvent
  | publish (topic : List UInt8)
  | data (bytes : List UInt8) (last : Bool)
  | receive (isConnected expired : Bool) (topicRoom payloadRoom : Nat)
  deriving DecidableEq, Repr

/-- What comes of it: `message` is what `mqtt_receive` returns and has copied, `waits` a call
that sleeps on. -/
inductive MqttResponse
  | noted
  | message (result : Nat) (topic payload : List UInt8)
  | timeout
  | error
  | waits
  deriving DecidableEq, Repr

namespace MqttCtx

/-- A client of `alloc_mqtt`. -/
def allocated : MqttCtx :=
  { msg :=
      { topic := List.replicate mqttTopicMax 0, topicLen := 0,
        payload := List.replicate mqttMsgBufSize 0, payloadLen := 0, ready := false }
    incomingTopic := List.replicate mqttTopicMax 0, incomingTopicLen := 0,
    incomingPayloadPos := 0 }

variable (ctx : MqttCtx)

/-- `mqtt_incoming_publish_cb`. -/
def mqttIncomingPublish (topic : List UInt8) : MqttCtx :=
  let tlen := if topic.length ≥ mqttTopicMax then mqttTopicMax - 1 else topic.length
  { ctx with
    incomingTopic := Ring.overwrite (Ring.overwrite ctx.incomingTopic 0 (topic.take tlen)) tlen [0]
    incomingTopicLen := tlen
    incomingPayloadPos := 0 }

/-- The bytes of a fragment, as far as there is space. -/
def storeFragment (data : List UInt8) : MqttCtx :=
  let space := mqttMsgBufSize - ctx.incomingPayloadPos
  let toCopy := if data.length > space then space else data.length
  if toCopy > 0 then
    { ctx with
      msg.payload := Ring.overwrite ctx.msg.payload ctx.incomingPayloadPos (data.take toCopy)
      incomingPayloadPos := ctx.incomingPayloadPos + toCopy }
  else
    ctx

/-- The end of a message: it is dropped when another one is still to be received. -/
def completeMessage : MqttCtx :=
  if ctx.msg.ready then
    { ctx with incomingPayloadPos := 0 }
  else
    { ctx with
      msg :=
        { topic := Ring.overwrite
            (Ring.overwrite ctx.msg.topic 0 (ctx.incomingTopic.take ctx.incomingTopicLen))
            ctx.incomingTopicLen [0]
          topicLen := ctx.incomingTopicLen
          payload := ctx.msg.payload
          payloadLen := ctx.incomingPayloadPos
          ready := true }
      incomingPayloadPos := 0 }

/-- `mqtt_incoming_data_cb`; no data is an empty fragment. -/
def mqttIncomingData (data : List UInt8) (last : Bool) : MqttCtx :=
  let stored := if data.length > 0 then ctx.storeFragment data else ctx
  if last then stored.completeMessage else stored

/-- `mqtt_receive`. -/
def mqttReceive (isConnected expired : Bool) (topicRoom payloadRoom : Nat) :
    MqttResponse × MqttCtx :=
  if ctx.msg.ready then
    let tCopy := if ctx.msg.topicLen > topicRoom then topicRoom else ctx.msg.topicLen
    let pCopy := if ctx.msg.payloadLen > payloadRoom then payloadRoom else ctx.msg.payloadLen
    (.message (tCopy <<< 16 ||| pCopy &&& 0xFFFF)
        (ctx.msg.topic.take tCopy) (ctx.msg.payload.take pCopy),
      { ctx with msg.ready := false })
  else if !isConnected then
    (.error, ctx)
  else if expired then
    (.timeout, ctx)
  else
    (.waits, ctx)

def respond : MqttEvent → MqttResponse × MqttCtx
  | .publish topic => (.noted, ctx.mqttIncomingPublish topic)
  | .data bytes last => (.noted, ctx.mqttIncomingData bytes last)
  | .receive isConnected expired topicRoom payloadRoom =>
      ctx.mqttReceive isConnected expired topicRoom payloadRoom

end MqttCtx

/-! ## What is published -/

/-- A message as the broker sent it. -/
structure Message where
  topic : List UInt8
  payload : List UInt8
  deriving DecidableEq, Repr

/-- The messages that are complete, and the one that has begun. -/
structure Arrivals where
  published : List Message
  current : Option Message
  deriving DecidableEq, Repr

def Arrivals.extend (arrivals : Arrivals) : MqttEvent → Arrivals
  | .publish topic => { arrivals with current := some ⟨topic, []⟩ }
  | .data bytes last =>
      match arrivals.current with
      | none => arrivals
      | some message =>
          let longer : Message := { message with payload := message.payload ++ bytes }
          if last then
            { published := arrivals.published ++ [longer], current := none }
          else
            { arrivals with current := some longer }
  | .receive .. => arrivals

/-- What has arrived with the events of a run. -/
def arrivalsOf (events : List MqttEvent) : Arrivals :=
  events.foldl Arrivals.extend ⟨[], none⟩

/-- A fragment belongs to a message that was announced. -/
def MqttEvent.BelongsTo (arrivals : Arrivals) : MqttEvent → Prop
  | .data .. => arrivals.current ≠ none
  | _ => True

instance (arrivals : Arrivals) : DecidablePred (MqttEvent.BelongsTo arrivals)
  | .publish _ => instDecidableTrue
  | .data .. => inferInstanceAs (Decidable (_ ≠ _))
  | .receive .. => instDecidableTrue

/-- The network stack announces a message before it hands out fragments of it. -/
def Announced (events : List MqttEvent) : Prop :=
  ∀ before event after, events = before ++ event :: after → event.BelongsTo (arrivalsOf before)

instance (events : List MqttEvent) : Decidable (Announced events) :=
  decidable_of_iff _ (Transducer.forall_splits_iff events).symm

/-- The client behind the events of a run. -/
def clientAfter (events : List MqttEvent) : MqttCtx :=
  Transducer.stateAfter MqttCtx.respond .allocated events

/-- Whatever is received is one published message, cut to the room there is, and a message
that is ready stays as it is until it is received. -/
structure HandsOver (events : List MqttEvent) : Prop where
  received : ∀ before isConnected expired topicRoom payloadRoom after result topic payload,
    events = before ++ .receive isConnected expired topicRoom payloadRoom :: after →
    ((clientAfter before).respond (.receive isConnected expired topicRoom payloadRoom)).1 =
      .message result topic payload →
    ∃ message ∈ (arrivalsOf before).published,
      topic = (message.topic.take (mqttTopicMax - 1)).take topicRoom ∧
        payload = (message.payload.take mqttMsgBufSize).take payloadRoom
  unchanged : ∀ before event after, events = before ++ event :: after →
    (clientAfter before).msg.ready →
    (∀ isConnected expired topicRoom payloadRoom,
      event ≠ .receive isConnected expired topicRoom payloadRoom) →
    (clientAfter (before ++ [event])).msg = (clientAfter before).msg

/-- No fragment with a byte in it comes while a message is ready. -/
def MqttEvent.LeavesReady (ctx : MqttCtx) : MqttEvent → Prop
  | .data bytes _ => ctx.msg.ready → bytes = []
  | _ => True

instance (ctx : MqttCtx) : DecidablePred (MqttEvent.LeavesReady ctx)
  | .publish _ => instDecidableTrue
  | .data .. => inferInstanceAs (Decidable (_ → _))
  | .receive .. => instDecidableTrue

/-! ## What the client keeps -/

/-- A C string behind a copy of bytes and their terminator. -/
theorem take_terminated
    {buffer bytes : List UInt8}
    (fits : bytes.length < buffer.length) :
    (Ring.overwrite (Ring.overwrite buffer 0 bytes) bytes.length [0]).take bytes.length =
      bytes := by
  have copied : (Ring.overwrite buffer 0 bytes).length = buffer.length :=
    Ring.overwrite_length (by omega)
  have front : (Ring.overwrite buffer 0 bytes).take bytes.length = bytes := by
    simp [Ring.overwrite]
  have bounded : (bytes.take bytes.length).length = bytes.length := by
    simp
  rw [Ring.overwrite, List.append_assoc, front, List.take_left' rfl]

theorem terminated_length
    {buffer bytes : List UInt8}
    (fits : bytes.length < buffer.length) :
    (Ring.overwrite (Ring.overwrite buffer 0 bytes) bytes.length [0]).length =
      buffer.length := by
  have copied : (Ring.overwrite buffer 0 bytes).length = buffer.length :=
    Ring.overwrite_length (by omega)
  rw [Ring.overwrite_length, copied]
  rw [copied, List.length_singleton]
  exact fits

namespace MqttCtx

/-- The buffers are as long as they should be, and the lengths stay inside them. -/
structure WellFormed (ctx : MqttCtx) : Prop where
  topicLength : ctx.msg.topic.length = mqttTopicMax
  payloadLength : ctx.msg.payload.length = mqttMsgBufSize
  incomingTopicLength : ctx.incomingTopic.length = mqttTopicMax
  incomingTopicLen_lt : ctx.incomingTopicLen < mqttTopicMax
  incomingPayloadPos_le : ctx.incomingPayloadPos ≤ mqttMsgBufSize

/-- The message under way is staged: its topic apart, and its payload in the slot. -/
structure Stages (ctx : MqttCtx) (message : Message) : Prop where
  topic : ctx.incomingTopic.take ctx.incomingTopicLen = message.topic.take (mqttTopicMax - 1)
  pos : ctx.incomingPayloadPos = min message.payload.length mqttMsgBufSize
  payload : ctx.msg.payload.take ctx.incomingPayloadPos = message.payload.take mqttMsgBufSize

/-- The slot holds a message. -/
structure Holds (ctx : MqttCtx) (message : Message) : Prop where
  topic : ctx.msg.topic.take ctx.msg.topicLen = message.topic.take (mqttTopicMax - 1)
  payload : ctx.msg.payload.take ctx.msg.payloadLen = message.payload.take mqttMsgBufSize

/-- How the client stands to what has arrived. -/
structure Reflects (ctx : MqttCtx) (arrivals : Arrivals) : Prop where
  wellFormed : WellFormed ctx
  stages : ∀ message, arrivals.current = some message → Stages ctx message
  fresh : ctx.msg.ready → ctx.incomingPayloadPos = 0
  holds : ctx.msg.ready → ∃ message ∈ arrivals.published, Holds ctx message

theorem allocated_reflects : Reflects allocated ⟨[], none⟩ where
  wellFormed := ⟨List.length_replicate, List.length_replicate, List.length_replicate,
    by decide, by decide⟩
  stages := by
    intro message none
    cases none
  fresh := by
    intro ready
    cases ready
  holds := by
    intro ready
    cases ready

section Steps

variable {ctx : MqttCtx} {arrivals : Arrivals}

theorem publish_reflects
    (reflects : Reflects ctx arrivals)
    (topic : List UInt8) :
    Reflects (ctx.mqttIncomingPublish topic) (arrivals.extend (.publish topic)) := by
  have wellFormed := reflects.wellFormed
  have cut : (if topic.length ≥ mqttTopicMax then mqttTopicMax - 1 else topic.length) =
      (topic.take (mqttTopicMax - 1)).length := by
    rw [List.length_take]
    split <;> omega
  have sameTopic : topic.take (topic.take (mqttTopicMax - 1)).length =
      topic.take (mqttTopicMax - 1) := by
    rw [List.take_eq_take_iff, List.length_take]
    omega
  have below : (topic.take (mqttTopicMax - 1)).length < mqttTopicMax := by
    rw [List.length_take]
    have : mqttTopicMax = 128 := rfl
    omega
  have fits : (topic.take (mqttTopicMax - 1)).length < ctx.incomingTopic.length := by
    rw [wellFormed.incomingTopicLength]
    exact below
  unfold mqttIncomingPublish
  rw [cut]
  dsimp only
  rw [sameTopic]
  constructor
  · exact ⟨wellFormed.topicLength, wellFormed.payloadLength,
      (terminated_length fits).trans wellFormed.incomingTopicLength, below, Nat.zero_le _⟩
  · intro message current
    obtain rfl : ⟨topic, []⟩ = message := Option.some.inj current
    exact ⟨take_terminated fits, rfl, rfl⟩
  · intro _
    rfl
  · intro ready
    obtain ⟨message, published, holds⟩ := reflects.holds ready
    exact ⟨message, published, holds.topic, holds.payload⟩

/-- A fragment is cut to the space there is. -/
theorem storeFragment_eq (ctx : MqttCtx) (data : List UInt8) :
    let stored := data.take (mqttMsgBufSize - ctx.incomingPayloadPos)
    ctx.storeFragment data =
      { ctx with
        msg.payload := Ring.overwrite ctx.msg.payload ctx.incomingPayloadPos stored
        incomingPayloadPos := ctx.incomingPayloadPos + stored.length } := by
  intro stored
  have count : (if data.length > mqttMsgBufSize - ctx.incomingPayloadPos then
      mqttMsgBufSize - ctx.incomingPayloadPos else data.length) = stored.length := by
    rw [List.length_take]
    split <;> omega
  have copied : data.take stored.length = stored := by
    rw [List.take_eq_take_iff, List.length_take]
    omega
  unfold storeFragment
  dsimp only
  rw [count, copied]
  split
  · rfl
  · have none : stored = [] := List.length_eq_zero_iff.mp (by omega)
    simp [none, Ring.overwrite]

theorem storeFragment_wellFormed
    (wellFormed : WellFormed ctx)
    (data : List UInt8) :
    WellFormed (ctx.storeFragment data) := by
  have posBelow := wellFormed.incomingPayloadPos_le
  have length := wellFormed.payloadLength
  rw [storeFragment_eq]
  refine ⟨wellFormed.topicLength, ?_, wellFormed.incomingTopicLength,
    wellFormed.incomingTopicLen_lt, ?_⟩
  · refine (Ring.overwrite_length ?_).trans length
    rw [List.length_take, length]
    omega
  · rw [List.length_take]
    dsimp only
    omega

/-- A fragment goes behind the payload staged so far. -/
theorem storeFragment_stages
    (wellFormed : WellFormed ctx)
    {message : Message}
    (stages : Stages ctx message)
    (data : List UInt8) :
    Stages (ctx.storeFragment data) { message with payload := message.payload ++ data } := by
  have posBelow := wellFormed.incomingPayloadPos_le
  have pos := stages.pos
  have frontLength : (message.payload.take mqttMsgBufSize).length = ctx.incomingPayloadPos := by
    rw [List.length_take]
    omega
  rw [storeFragment_eq]
  refine ⟨stages.topic, ?_, ?_⟩
  · simp only [List.length_append, List.length_take]
    omega
  · dsimp only
    rw [Ring.overwrite, stages.payload, List.take_left', List.take_append]
    · congr 2
      omega
    · rw [List.length_append, frontLength]

/-- The last fragment puts the message into the slot, unless that is taken. -/
theorem completeMessage_reflects
    (wellFormed : WellFormed ctx)
    (fresh : ctx.msg.ready → ∃ message ∈ arrivals.published, Holds ctx message)
    {message : Message}
    (stages : Stages ctx message) :
    Reflects ctx.completeMessage
      { published := arrivals.published ++ [message], current := none } := by
  have copied : (ctx.incomingTopic.take ctx.incomingTopicLen).length = ctx.incomingTopicLen := by
    have := wellFormed.incomingTopicLen_lt
    rw [List.length_take, wellFormed.incomingTopicLength]
    omega
  have fits : (ctx.incomingTopic.take ctx.incomingTopicLen).length < ctx.msg.topic.length := by
    rw [copied, wellFormed.topicLength]
    exact wellFormed.incomingTopicLen_lt
  have terminated := take_terminated fits
  have topicLength := terminated_length fits
  rw [copied] at terminated topicLength
  unfold completeMessage
  split
  · rename_i ready
    refine ⟨⟨wellFormed.topicLength, wellFormed.payloadLength, wellFormed.incomingTopicLength,
      wellFormed.incomingTopicLen_lt, Nat.zero_le _⟩, ?_, fun _ => rfl, ?_⟩
    · intro message' current
      cases current
    · intro _
      obtain ⟨held, published, holds⟩ := fresh ready
      exact ⟨held, List.mem_append_left _ published, holds.topic, holds.payload⟩
  · refine ⟨⟨topicLength.trans wellFormed.topicLength, wellFormed.payloadLength,
      wellFormed.incomingTopicLength, wellFormed.incomingTopicLen_lt, Nat.zero_le _⟩, ?_,
      fun _ => rfl, ?_⟩
    · intro message' current
      cases current
    · intro _
      exact ⟨message, by simp, terminated.trans stages.topic, stages.payload⟩

/-- A fragment of an announced message, which carries no byte while another one is ready. -/
theorem data_reflects
    (reflects : Reflects ctx arrivals)
    {bytes : List UInt8}
    (leaves : ctx.msg.ready → bytes = [])
    (announced : arrivals.current ≠ none)
    (last : Bool) :
    Reflects (ctx.mqttIncomingData bytes last) (arrivals.extend (.data bytes last)) := by
  obtain ⟨message, current⟩ := Option.ne_none_iff_exists'.mp announced
  have stages := reflects.stages message current
  have stored : (if bytes.length > 0 then ctx.storeFragment bytes else ctx) =
      ctx.storeFragment bytes := by
    split
    · rfl
    · have none : bytes = [] := List.length_eq_zero_iff.mp (by omega)
      simp [none, storeFragment]
  have kept : ctx.msg.ready → ctx.storeFragment bytes = ctx := by
    intro ready
    simp [leaves ready, storeFragment]
  have stillReady : (ctx.storeFragment bytes).msg.ready = ctx.msg.ready := by
    rw [storeFragment_eq]
  have wellFormed := storeFragment_wellFormed reflects.wellFormed bytes
  have longer := storeFragment_stages reflects.wellFormed stages bytes
  have holds : (ctx.storeFragment bytes).msg.ready →
      ∃ held ∈ arrivals.published, Holds (ctx.storeFragment bytes) held := by
    intro ready
    rw [stillReady] at ready
    rw [kept ready]
    exact reflects.holds ready
  simp only [mqttIncomingData, stored, Arrivals.extend, current]
  cases last with
  | true =>
      exact completeMessage_reflects wellFormed holds longer
  | false =>
      refine ⟨wellFormed, ?_, ?_, holds⟩
      · intro message' same
        obtain rfl := Option.some.inj same
        exact longer
      · intro ready
        rw [if_neg (by decide), stillReady] at ready
        rw [if_neg (by decide), kept ready]
        exact reflects.fresh ready

theorem receive_reflects
    (reflects : Reflects ctx arrivals)
    (isConnected expired : Bool) (topicRoom payloadRoom : Nat) :
    Reflects (ctx.mqttReceive isConnected expired topicRoom payloadRoom).2 arrivals := by
  have wellFormed := reflects.wellFormed
  unfold mqttReceive
  split
  · refine ⟨⟨wellFormed.topicLength, wellFormed.payloadLength, wellFormed.incomingTopicLength,
      wellFormed.incomingTopicLen_lt, wellFormed.incomingPayloadPos_le⟩, ?_, ?_, ?_⟩
    · intro message current
      have stages := reflects.stages message current
      exact ⟨stages.topic, stages.pos, stages.payload⟩
    · intro ready
      cases ready
    · intro ready
      cases ready
  · split
    · exact reflects
    · split <;> exact reflects

/-- What `mqtt_receive` copies out is a published message. -/
theorem receive_published
    (reflects : Reflects ctx arrivals)
    {isConnected expired : Bool} {topicRoom payloadRoom result : Nat}
    {topic payload : List UInt8}
    (received : (ctx.mqttReceive isConnected expired topicRoom payloadRoom).1 =
      .message result topic payload) :
    ∃ message ∈ arrivals.published,
      topic = (message.topic.take (mqttTopicMax - 1)).take topicRoom ∧
        payload = (message.payload.take mqttMsgBufSize).take payloadRoom := by
  have cut : ∀ (bytes : List UInt8) (length room : Nat),
      bytes.take (if length > room then room else length) = (bytes.take length).take room := by
    intro bytes length room
    rw [List.take_take]
    congr 1
    split <;> omega
  unfold mqttReceive at received
  split at received
  · rename_i ready
    obtain ⟨message, published, holds⟩ := reflects.holds ready
    simp only [MqttResponse.message.injEq, cut] at received
    refine ⟨message, published, ?_, ?_⟩
    · rw [← received.2.1, holds.topic]
    · rw [← received.2.2, holds.payload]
  · split at received
    · cases received
    · split at received <;> cases received

/-- Only `mqtt_receive` changes a message that is ready. -/
theorem respond_msg
    {event : MqttEvent}
    (leaves : event.LeavesReady ctx)
    (ready : ctx.msg.ready)
    (noReceive : ∀ isConnected expired topicRoom payloadRoom,
      event ≠ .receive isConnected expired topicRoom payloadRoom) :
    (ctx.respond event).2.msg = ctx.msg := by
  cases event with
  | publish topic =>
      rfl
  | data bytes last =>
      have none : bytes = [] := leaves ready
      subst none
      cases last with
      | true => simp [respond, mqttIncomingData, completeMessage, ready]
      | false => simp [respond, mqttIncomingData]
  | receive isConnected expired topicRoom payloadRoom =>
      exact absurd rfl (noReceive isConnected expired topicRoom payloadRoom)

end Steps

end MqttCtx

/-! ## Runs -/

theorem arrivalsOf_snoc (events : List MqttEvent) (event : MqttEvent) :
    arrivalsOf (events ++ [event]) = (arrivalsOf events).extend event := by
  simp [arrivalsOf]

theorem clientAfter_snoc (events : List MqttEvent) (event : MqttEvent) :
    clientAfter (events ++ [event]) = ((clientAfter events).respond event).2 :=
  Transducer.stateAfter_snoc _ _ events event

theorem Announced.of_append
    {events events' : List MqttEvent}
    (announced : Announced (events ++ events')) :
    Announced events := by
  intro before event after split
  exact announced before event (after ++ events') (by rw [split]; simp)

/-- The steps of a run, as long as fragments leave ready messages alone. -/
abbrev LeaveReady (events : List MqttEvent) : Prop :=
  Transducer.StepsMeet MqttCtx.respond .allocated (fun ctx event => event.LeavesReady ctx) events

theorem clientAfter_reflects
    {events : List MqttEvent}
    (announced : Announced events)
    (leave : LeaveReady events) :
    MqttCtx.Reflects (clientAfter events) (arrivalsOf events) := by
  induction events using List.reverseRecOn with
  | nil =>
      exact MqttCtx.allocated_reflects
  | append_singleton events event inductionHypothesis =>
      have reflects := inductionHypothesis announced.of_append leave.of_append
      have leaves := leave.last
      rw [clientAfter_snoc, arrivalsOf_snoc]
      cases event with
      | publish topic =>
          exact MqttCtx.publish_reflects reflects topic
      | data bytes last =>
          exact MqttCtx.data_reflects reflects leaves (announced events _ [] rfl) last
      | receive isConnected expired topicRoom payloadRoom =>
          exact MqttCtx.receive_reflects reflects isConnected expired topicRoom payloadRoom

/-- Messages are handed over in every run in which no byte arrives while one is ready. -/
theorem receiving_handsOver
    (events : List MqttEvent)
    (announced : Announced events)
    (leave : LeaveReady events) :
    HandsOver events where
  received := by
    intro before isConnected expired topicRoom payloadRoom after result topic payload split
      received
    rw [split] at announced leave
    exact MqttCtx.receive_published
      (clientAfter_reflects announced.of_append leave.of_append) received
  unchanged := by
    intro before event after split ready noReceive
    rw [clientAfter_snoc]
    exact MqttCtx.respond_msg (leave before event after split) ready noReceive

/-- Two messages of one fragment each, the second one sent when the first has been received. -/
def messagesInTurn : List MqttEvent :=
  [.publish [97], .data [1, 2] true, .receive true false 8 8, .publish [98], .data [3] true]

/-- They are handed over as sent. -/
theorem messagesInTurn_handsOver : HandsOver messagesInTurn :=
  receiving_handsOver messagesInTurn (by decide) (by decide)

/-- A second message is under way before the first one is received. -/
def messagesCollide : List MqttEvent :=
  [.publish [97], .data [1, 2] true, .publish [98], .data [3] false, .receive true false 8 8]

/-- The topic of the first message comes with a byte of the second. -/
theorem messagesCollide_mix : Announced messagesCollide ∧ ¬ HandsOver messagesCollide := by
  refine ⟨by decide, ?_⟩
  intro handsOver
  have received : ((clientAfter (messagesCollide.take 4)).respond (.receive true false 8 8)).1 =
      .message (1 <<< 16 ||| 2) [97] [3, 2] := by
    decide
  obtain ⟨message, published, topic, payload⟩ :=
    handsOver.received (messagesCollide.take 4) true false 8 8 [] _ _ _ rfl received
  have only : (arrivalsOf (messagesCollide.take 4)).published = [⟨[97], [1, 2]⟩] := by
    decide
  rw [only, List.mem_singleton] at published
  rw [published] at payload
  revert payload
  decide

end PicoJvm.Network
