import TermChat.Proto.Messages

/-! The chain of tests by which `ListenerLoop` decides what an envelope is. -/
namespace TermChat
open Proto

/-- What `ListenerLoop` takes an envelope for. Whatever it does not recognise is a response. -/
inductive Received where
  | friendRequest (req : FriendReqPush)
  | friendStatus (status : FriendStatusPush)
  | message (msg : P2PMessage)
  | ack (ack : MessageAck)
  | ackBatch (acks : List MessageAck)
  | response
  deriving DecidableEq

/-- A push is recognised by its command, whatever it carries; an ack is one only with the
sequence number 0 and with a payload. -/
def classify (env : Envelope) : Received :=
  match env.cmd with
  | .friendReqPush =>
    .friendRequest (match env.payload with | some (.friendReqPush req) => req | _ => {})
  | .friendStatusPush =>
    .friendStatus (match env.payload with | some (.friendStatusPush status) => status | _ => {})
  | .p2pMsgPush => .message (match env.payload with | some (.p2pMsgPush msg) => msg | _ => {})
  | .msgAck =>
    match env.payload with
    | some (.msgAck ack) => if env.seq = 0 then .ack ack else .response
    | _ => .response
  | .msgAckBatch =>
    match env.payload with
    | some (.msgAckBatch acks) => if env.seq = 0 then .ackBatch acks else .response
    | _ => .response
  | _ => .response

end TermChat
