import PicoJvm.Lib.Polling
import PicoJvm.Network.MqttClient

/-!
# Waiting for an MQTT message

`MQTTClient.receive` on both sides of the native boundary. The native function polls the slot
of incoming messages once a millisecond and packs the two lengths into one `int`, in which zero
stands for no message.
-/

namespace PicoJvm.Network

open PicoJvm.Lib

/-- `MAX_MQTT_CLIENTS`. -/
def maxMqttClients : Int := 2

/-- What a round of the loop finds: the client as the network stack has left it, and whether
the broker is there. -/
structure Poll where
  client : MqttCtx
  isConnected : Bool
  topicLen_lt : client.msg.topicLen < mqttTopicMax
  payloadLen_le : client.msg.payloadLen ≤ mqttMsgBufSize

/-- What the native function returns, and the lengths of the message that it has consumed. -/
structure NativeReturn where
  result : Int
  consumed : Option (Int × Int)
  deriving DecidableEq, Repr

/-- What a call of `receive` comes to, and how often it slept. -/
structure ReceiveCall where
  answer : Except String (Option (Int × Int))
  consumed : Option (Int × Int)
  waited : Nat
  deriving DecidableEq, Repr

namespace Poll

variable (poll : Poll) (topicRoom payloadRoom : Nat)

/-- The lengths that are copied. -/
def copied : Int × Int :=
  ((min poll.client.msg.topicLen topicRoom : Nat),
    (min poll.client.msg.payloadLen payloadRoom : Nat))

/-- One round of the loop, and what follows it when there is something to return. -/
def attempt (timeoutMs waited : Nat) : Option NativeReturn :=
  match (poll.client.mqttReceive poll.isConnected
      (decide (0 < timeoutMs ∧ timeoutMs ≤ waited)) topicRoom payloadRoom).1 with
  | .message result _ _ => some ⟨result, some (poll.copied topicRoom payloadRoom)⟩
  | .error => some ⟨-1, none⟩
  | .timeout => some ⟨0, none⟩
  | .waits => none
  | .noted => none

/-- The loop sleeps after this round. -/
def Sleeps : Prop :=
  poll.client.msg.ready = false ∧ poll.isConnected = true

instance : Decidable poll.Sleeps :=
  inferInstanceAs (Decidable (_ ∧ _))

end Poll

/-- What the Java side makes of the result. -/
def receiveAnswer (result : Int) : Except String (Option (Int × Int)) :=
  if result < 0 then
    .error "MQTT receive failed"
  else if result = 0 then
    .ok none
  else
    .ok (some (result / 65536 % 65536, result % 65536))

/-- `MQTTClient.receive`, in so many rounds of the native loop at most. -/
def receive (handle : Int) (inUse : Int → Bool) (polls : Nat → Poll)
    (topicRoom payloadRoom timeoutMs rounds : Nat) : Option ReceiveCall :=
  if handle < 0 then
    some ⟨.error "Not connected", none, 0⟩
  else if maxMqttClients ≤ handle ∨ inUse handle = false then
    some ⟨receiveAnswer (-1), none, 0⟩
  else
    (Polling.firstAnswer
      (fun waited => (polls waited).attempt topicRoom payloadRoom timeoutMs waited) rounds 0).map
      fun found => ⟨receiveAnswer found.2.result, found.2.consumed, found.1⟩

/-! ## What a call should come to -/

/-- The call ends after a round for every millisecond and one more, and lengths are returned
just when a message of these lengths was consumed. -/
def ReceiveMeets (handle : Int) (inUse : Int → Bool) (polls : Nat → Poll)
    (topicRoom payloadRoom timeoutMs : Nat) : Prop :=
  ∃ call, receive handle inUse polls topicRoom payloadRoom timeoutMs (timeoutMs + 1) =
      some call ∧ call.waited ≤ timeoutMs ∧
    (call.answer = .ok none → call.consumed = none) ∧
    ∀ lengths, call.consumed = some lengths ↔ call.answer = .ok (some lengths)

/-- The handle of a client in use. -/
def ValidHandle (handle : Int) (inUse : Int → Bool) : Prop :=
  0 ≤ handle ∧ handle < maxMqttClients ∧ inUse handle = true

/-- Without a timeout there is something to return at once, and a message that comes in time
has a byte that is copied. -/
structure Unhindered (polls : Nat → Poll) (topicRoom payloadRoom timeoutMs : Nat) : Prop where
  atOnce : timeoutMs = 0 → ¬ (polls 0).Sleeps
  nonempty : ∀ round ≤ timeoutMs, (∀ earlier < round, (polls earlier).Sleeps) →
    (polls round).client.msg.ready = true → (polls round).copied topicRoom payloadRoom ≠ (0, 0)

namespace Poll

variable {poll : Poll} {topicRoom payloadRoom timeoutMs waited : Nat}

/-- The two lengths in one `int`. -/
theorem packed (topicLen payloadLen : Nat) (small : payloadLen < 65536) :
    topicLen <<< 16 ||| payloadLen &&& 0xFFFF = topicLen * 65536 + payloadLen := by
  have masked : payloadLen &&& 0xFFFF = payloadLen := by
    rw [Nat.and_two_pow_sub_one_eq_mod payloadLen 16, Nat.mod_eq_of_lt small]
  rw [masked, ← Nat.shiftLeft_add_eq_or_of_lt small, Nat.shiftLeft_eq]

theorem attempt_of_ready
    (ready : poll.client.msg.ready = true) :
    poll.attempt topicRoom payloadRoom timeoutMs waited =
      some ⟨(poll.copied topicRoom payloadRoom).1 * 65536 +
        (poll.copied topicRoom payloadRoom).2, some (poll.copied topicRoom payloadRoom)⟩ := by
  have topic : (if poll.client.msg.topicLen > topicRoom then topicRoom
      else poll.client.msg.topicLen) = min poll.client.msg.topicLen topicRoom := by
    split <;> omega
  have payload : (if poll.client.msg.payloadLen > payloadRoom then payloadRoom
      else poll.client.msg.payloadLen) = min poll.client.msg.payloadLen payloadRoom := by
    split <;> omega
  have small : min poll.client.msg.payloadLen payloadRoom < 65536 := by
    have bounded := poll.payloadLen_le
    have : mqttMsgBufSize = 1024 := rfl
    omega
  rw [attempt, MqttCtx.mqttReceive, if_pos ready]
  dsimp only
  rw [topic, payload, packed _ _ small, copied]
  push_cast
  rfl

theorem attempt_of_not_ready
    (notReady : poll.client.msg.ready = false) :
    poll.attempt topicRoom payloadRoom timeoutMs waited =
      if poll.isConnected = false then some ⟨-1, none⟩
      else if 0 < timeoutMs ∧ timeoutMs ≤ waited then some ⟨0, none⟩ else none := by
  rw [attempt, MqttCtx.mqttReceive, if_neg (by rw [notReady]; decide)]
  cases poll.isConnected with
  | false =>
      rfl
  | true =>
      by_cases expired : 0 < timeoutMs ∧ timeoutMs ≤ waited <;> simp [expired]

theorem attempt_eq_none_iff :
    poll.attempt topicRoom payloadRoom timeoutMs waited = none ↔
      poll.Sleeps ∧ ¬ (0 < timeoutMs ∧ timeoutMs ≤ waited) := by
  cases slot : poll.client.msg.ready with
  | true =>
      rw [attempt_of_ready slot, Sleeps, slot]
      simp
  | false =>
      rw [attempt_of_not_ready slot, Sleeps, slot]
      cases poll.isConnected <;> simp

end Poll

/-! ## The lengths of a client -/

/-- The lengths of the slot and of what is under way stay inside the buffers. -/
structure Bounded (ctx : MqttCtx) : Prop where
  topicLen_lt : ctx.msg.topicLen < mqttTopicMax
  payloadLen_le : ctx.msg.payloadLen ≤ mqttMsgBufSize
  incomingTopicLen_lt : ctx.incomingTopicLen < mqttTopicMax
  incomingPayloadPos_le : ctx.incomingPayloadPos ≤ mqttMsgBufSize

theorem storeFragment_bounded
    {ctx : MqttCtx}
    (bounded : Bounded ctx)
    (data : List UInt8) :
    Bounded (ctx.storeFragment data) := by
  have pos := bounded.incomingPayloadPos_le
  rw [MqttCtx.storeFragment_eq]
  refine ⟨bounded.topicLen_lt, bounded.payloadLen_le, bounded.incomingTopicLen_lt, ?_⟩
  dsimp only
  rw [List.length_take]
  omega

theorem completeMessage_bounded
    {ctx : MqttCtx}
    (bounded : Bounded ctx) :
    Bounded ctx.completeMessage := by
  rw [MqttCtx.completeMessage]
  split
  · exact ⟨bounded.topicLen_lt, bounded.payloadLen_le, bounded.incomingTopicLen_lt,
      Nat.zero_le _⟩
  · exact ⟨bounded.incomingTopicLen_lt, bounded.incomingPayloadPos_le,
      bounded.incomingTopicLen_lt, Nat.zero_le _⟩

theorem respond_bounded
    {ctx : MqttCtx}
    (bounded : Bounded ctx)
    (event : MqttEvent) :
    Bounded (ctx.respond event).2 := by
  cases event with
  | publish topic =>
      refine ⟨bounded.topicLen_lt, bounded.payloadLen_le, ?_, Nat.zero_le _⟩
      have topicMax : mqttTopicMax = 128 := rfl
      simp only [MqttCtx.respond, MqttCtx.mqttIncomingPublish]
      split <;> omega
  | data bytes last =>
      have stored : Bounded (if bytes.length > 0 then ctx.storeFragment bytes else ctx) := by
        split
        · exact storeFragment_bounded bounded bytes
        · exact bounded
      cases last with
      | false =>
          exact stored
      | true =>
          exact completeMessage_bounded stored
  | receive isConnected expired topicRoom payloadRoom =>
      simp only [MqttCtx.respond, MqttCtx.mqttReceive]
      split
      · exact ⟨bounded.topicLen_lt, bounded.payloadLen_le, bounded.incomingTopicLen_lt,
          bounded.incomingPayloadPos_le⟩
      · split
        · exact bounded
        · split <;> exact bounded

/-- Whatever the network stack does, the client is one that a round can find. -/
theorem clientAfter_bounded (events : List MqttEvent) : Bounded (clientAfter events) := by
  apply Transducer.state_induction
  · exact ⟨by decide, by decide, by decide, by decide⟩
  · intro ctx event bounded
    exact respond_bounded bounded event

/-- A round of the loop behind these events. -/
def Poll.behind (events : List MqttEvent) (isConnected : Bool) : Poll where
  client := clientAfter events
  isConnected := isConnected
  topicLen_lt := (clientAfter_bounded events).topicLen_lt
  payloadLen_le := (clientAfter_bounded events).payloadLen_le

/-! ## When a call comes to that -/

/-- Two lengths that are not both zero come through. -/
theorem receiveAnswer_packed
    {topicLen payloadLen : Int}
    (topicFits : 0 ≤ topicLen ∧ topicLen < 65536)
    (payloadFits : 0 ≤ payloadLen ∧ payloadLen < 65536)
    (nonempty : (topicLen, payloadLen) ≠ (0, 0)) :
    receiveAnswer (topicLen * 65536 + payloadLen) = .ok (some (topicLen, payloadLen)) := by
  have positive : 0 < topicLen * 65536 + payloadLen := by
    by_contra zero
    exact nonempty (Prod.ext (by omega) (by omega))
  have high : (topicLen * 65536 + payloadLen) / 65536 % 65536 = topicLen := by
    omega
  have low : (topicLen * 65536 + payloadLen) % 65536 = payloadLen := by
    omega
  rw [receiveAnswer, if_neg (by omega), if_neg (by omega), high, low]

variable {handle : Int} {inUse : Int → Bool} {polls : Nat → Poll}
  {topicRoom payloadRoom timeoutMs : Nat}

/-- A message is consumed in the round in which it is first seen. -/
theorem firstAnswer_of_message
    {round : Nat}
    (inTime : round ≤ timeoutMs)
    (sleeps : ∀ earlier < round, (polls earlier).Sleeps)
    (ready : (polls round).client.msg.ready = true)
    (topicRoom payloadRoom : Nat) :
    Polling.firstAnswer
        (fun waited => (polls waited).attempt topicRoom payloadRoom timeoutMs waited)
        (timeoutMs + 1) 0 =
      some (round, ⟨((polls round).copied topicRoom payloadRoom).1 * 65536 +
        ((polls round).copied topicRoom payloadRoom).2,
        some ((polls round).copied topicRoom payloadRoom)⟩) := by
  rw [Polling.firstAnswer_eq_some_iff]
  refine ⟨Nat.zero_le _, by omega, Poll.attempt_of_ready ready, ?_⟩
  intro earlier _ before
  exact Poll.attempt_eq_none_iff.mpr ⟨sleeps earlier before, by omega⟩

/-- With a client, the call is what the loop finds. -/
theorem receive_of_valid
    (valid : ValidHandle handle inUse)
    (rounds : Nat) :
    receive handle inUse polls topicRoom payloadRoom timeoutMs rounds =
      (Polling.firstAnswer
        (fun waited => (polls waited).attempt topicRoom payloadRoom timeoutMs waited) rounds 0).map
        fun found => ⟨receiveAnswer found.2.result, found.2.consumed, found.1⟩ := by
  have known := valid.1
  have below := valid.2.1
  rw [receive, if_neg (by omega), if_neg]
  rintro (above | unused)
  · omega
  · rw [valid.2.2] at unused
    cases unused

theorem unhindered_of_meets
    (valid : ValidHandle handle inUse)
    (meets : ReceiveMeets handle inUse polls topicRoom payloadRoom timeoutMs) :
    Unhindered polls topicRoom payloadRoom timeoutMs := by
  obtain ⟨call, received, -, nothing, -⟩ := meets
  rw [receive_of_valid valid, Option.map_eq_some_iff] at received
  obtain ⟨⟨round, native⟩, found, rfl⟩ := received
  constructor
  · rintro rfl sleeps
    obtain ⟨-, before, asked, -⟩ := Polling.firstAnswer_eq_some_iff.mp found
    have first : round = 0 := by omega
    have unanswered : (polls 0).attempt topicRoom payloadRoom 0 0 = none :=
      Poll.attempt_eq_none_iff.mpr ⟨sleeps, by omega⟩
    rw [first, unanswered] at asked
    cases asked
  · intro round' inTime sleeps ready empty
    have message := firstAnswer_of_message inTime sleeps ready topicRoom payloadRoom
    rw [found] at message
    cases message
    rw [empty] at nothing
    cases nothing rfl

theorem copied_bounds (poll : Poll) (topicRoom payloadRoom : Nat) :
    (0 ≤ (poll.copied topicRoom payloadRoom).1 ∧
        (poll.copied topicRoom payloadRoom).1 < 65536) ∧
      0 ≤ (poll.copied topicRoom payloadRoom).2 ∧
        (poll.copied topicRoom payloadRoom).2 < 65536 := by
  have topic := poll.topicLen_lt
  have payload := poll.payloadLen_le
  have topicMax : mqttTopicMax = 128 := rfl
  have bufSize : mqttMsgBufSize = 1024 := rfl
  simp only [Poll.copied]
  omega

theorem meets_of_unhindered
    (valid : ValidHandle handle inUse)
    (unhindered : Unhindered polls topicRoom payloadRoom timeoutMs) :
    ReceiveMeets handle inUse polls topicRoom payloadRoom timeoutMs := by
  rw [ReceiveMeets, receive_of_valid valid]
  cases found : Polling.firstAnswer
      (fun waited => (polls waited).attempt topicRoom payloadRoom timeoutMs waited)
      (timeoutMs + 1) 0 with
  | none =>
      have silent := Polling.firstAnswer_eq_none_iff.mp found timeoutMs (by omega) (by omega)
      rw [Poll.attempt_eq_none_iff] at silent
      have zero : timeoutMs = 0 := by omega
      subst zero
      exact absurd silent.1 (unhindered.atOnce rfl)
  | some answer =>
      obtain ⟨round, native⟩ := answer
      obtain ⟨-, before, asked, silent⟩ := Polling.firstAnswer_eq_some_iff.mp found
      refine ⟨_, rfl, by dsimp only; omega, ?_⟩
      cases slot : (polls round).client.msg.ready with
      | true =>
          have sleeps : ∀ earlier < round, (polls earlier).Sleeps := by
            intro earlier below
            exact (Poll.attempt_eq_none_iff.mp (silent earlier (by omega) below)).1
          have nonempty := unhindered.nonempty round (by omega) sleeps slot
          have bounds := copied_bounds (polls round) topicRoom payloadRoom
          rw [Poll.attempt_of_ready slot] at asked
          cases asked
          have decoded := receiveAnswer_packed bounds.1 bounds.2 nonempty
          dsimp only
          rw [decoded]
          simp
      | false =>
          rw [Poll.attempt_of_not_ready slot] at asked
          split at asked
          · cases asked
            simp [receiveAnswer]
          · split at asked
            · cases asked
              simp [receiveAnswer]
            · cases asked

/-- Without a client, the call throws and takes nothing. -/
theorem meets_of_invalid
    (invalid : ¬ ValidHandle handle inUse) :
    ReceiveMeets handle inUse polls topicRoom payloadRoom timeoutMs := by
  rw [ReceiveMeets, receive]
  split
  · exact ⟨_, rfl, Nat.zero_le _, by simp⟩
  · next known =>
      split
      · exact ⟨_, rfl, Nat.zero_le _, by simp [receiveAnswer]⟩
      · next valid =>
          rw [not_or, Bool.not_eq_false] at valid
          exact absurd ⟨by omega, by omega, valid.2⟩ invalid

theorem receive_meets_iff (handle : Int) (inUse : Int → Bool) (polls : Nat → Poll)
    (topicRoom payloadRoom timeoutMs : Nat) :
    ReceiveMeets handle inUse polls topicRoom payloadRoom timeoutMs ↔
      (ValidHandle handle inUse → Unhindered polls topicRoom payloadRoom timeoutMs) := by
  constructor
  · intro meets valid
    exact unhindered_of_meets valid meets
  · intro unhindered
    by_cases valid : ValidHandle handle inUse
    · exact meets_of_unhindered valid (unhindered valid)
    · exact meets_of_invalid valid

/-! ## A call that goes wrong -/

/-- A client with a message of two empty parts. -/
def emptyMessage : Poll where
  client := { MqttCtx.allocated with msg.ready := true }
  isConnected := true
  topicLen_lt := by decide
  payloadLen_le := by decide

theorem emptyMessage_dropped :
    ¬ ReceiveMeets 0 (fun _ => true) (fun _ => emptyMessage) 16 16 100 := by
  have dropped : receive 0 (fun _ => true) (fun _ => emptyMessage) 16 16 100 101 =
      some ⟨.ok none, some (0, 0), 0⟩ := by
    decide
  rintro ⟨call, received, -, nothing, -⟩
  rw [dropped] at received
  cases received
  cases nothing rfl

end PicoJvm.Network
