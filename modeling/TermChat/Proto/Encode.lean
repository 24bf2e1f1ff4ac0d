import TermChat.Base.Wire
import TermChat.Proto.Messages
import Mathlib.Algebra.Group.Action.Defs
import Mathlib.Algebra.Order.BigOperators.Group.List

/-! What `SerializeToString` writes for messages and sync responses, field by field. -/
namespace TermChat.Proto
open Wire

def CommandType.number : CommandType → Int32
  | .unknown => 0
  | .registerReq => 1
  | .registerRes => 2
  | .loginReq => 3
  | .loginRes => 4
  | .addFriendReq => 5
  | .addFriendRes => 6
  | .friendReqPush => 7
  | .handleFriendReq => 8
  | .handleFriendRes => 9
  | .friendStatusPush => 10
  | .getFriendListReq => 11
  | .getFriendListRes => 12
  | .p2pMsgReq => 50
  | .p2pMsgPush => 51
  | .msgAck => 52
  | .syncMsgsReq => 53
  | .syncMsgsRes => 54
  | .msgAckBatch => 55
  | .heartbeat => 99
  | .unrecognized value _ => value

def ContentType.number : ContentType → Int32
  | .text => 0
  | .image => 1
  | .file => 2
  | .audio => 3
  | .video => 4
  | .unrecognized value _ => value

/-- An enumeration is extended to 64 bits, with its sign. -/
def enumField (field : ℕ) (value : Int32) : Bytes := uintField field value.toInt64.toUInt64.toNat

def int64Field (field : ℕ) (value : Int64) : Bytes := uintField field value.toUInt64.toNat

def P2PMessage.encode (m : P2PMessage) : Bytes :=
  uintField 1 m.msgId.toNat ++ uintField 2 m.senderId.toNat ++ uintField 3 m.receiverId.toNat ++
    enumField 4 m.contentType.number ++ bytesField 5 m.content ++ int64Field 6 m.timestamp ++
    uintField 7 m.clientMsgId.toNat

def SyncMessagesResp.encode (resp : SyncMessagesResp) : Bytes :=
  uintField 1 resp.success.toNat ++ bytesField 2 resp.errorMsg.toUTF8.data.toList ++
    resp.messages.flatMap (fun m => messageField 3 m.encode) ++
    uintField 4 resp.nextAckMsgId.toNat ++ uintField 5 resp.hasMore.toNat

/-- An envelope around a payload that is encoded already. -/
def encodeEnvelope (seq : UInt64) (cmd : CommandType) (timestamp : Int64) (field : ℕ)
    (payload : Bytes) : Bytes :=
  uintField 1 seq.toNat ++ enumField 2 cmd.number ++ int64Field 3 timestamp ++
    messageField field payload

def encodeP2pMsgReq (seq : UInt64) (timestamp : Int64) (req : P2PMessage) : Bytes :=
  encodeEnvelope seq .p2pMsgReq timestamp 300 req.encode

def encodeSyncMsgsRes (seq : UInt64) (timestamp : Int64) (resp : SyncMessagesResp) : Bytes :=
  encodeEnvelope seq .syncMsgsRes timestamp 304 resp.encode

theorem length_encode_le (m : P2PMessage) : m.encode.length ≤ m.content.length + 140 := by
  have h1 := length_uintField_le 1 m.msgId.toNat
  have h2 := length_uintField_le 2 m.senderId.toNat
  have h3 := length_uintField_le 3 m.receiverId.toNat
  have h4 := length_uintField_le 4 m.contentType.number.toInt64.toUInt64.toNat
  have h5 := length_bytesField_le 5 m.content
  have h6 := length_uintField_le 6 m.timestamp.toUInt64.toNat
  have h7 := length_uintField_le 7 m.clientMsgId.toNat
  simp only [P2PMessage.encode, enumField, int64Field, List.length_append]
  omega

private theorem le_length_encode (m : P2PMessage) : m.content.length ≤ m.encode.length := by
  have h5 := le_length_bytesField 5 m.content
  simp only [P2PMessage.encode, List.length_append]
  omega

/-- The bytes of the messages in a response, each with its tag and its length. -/
def messagesLength (msgs : List P2PMessage) : ℕ := (msgs.map fun m => (messageField 3 m.encode).length).sum

theorem length_encode_resp {resp : SyncMessagesResp} (hsucc : resp.success = true)
    (herr : resp.errorMsg = "") :
    resp.encode.length = messagesLength resp.messages + (uintField 4 resp.nextAckMsgId.toNat).length +
      (if resp.hasMore then 2 else 0) + 2 := by
  have hok : (uintField 1 resp.success.toNat).length = 2 := by
    rw [hsucc]
    rfl
  have herr' : bytesField 2 resp.errorMsg.toUTF8.data.toList = [] := by
    rw [herr]
    rfl
  have hmore : (uintField 5 resp.hasMore.toNat).length = if resp.hasMore then 2 else 0 := by
    cases resp.hasMore <;> rfl
  simp only [SyncMessagesResp.encode, List.length_append, hok, herr', hmore, List.length_nil,
    List.length_flatMap, messagesLength]
  omega

/-- The envelope of a response has two bytes for its command, two for the tag of the payload and
the bytes of its length. -/
theorem length_encodeSyncMsgsRes (seq : UInt64) (timestamp : Int64) (resp : SyncMessagesResp) :
    (encodeSyncMsgsRes seq timestamp resp).length =
      (uintField 1 seq.toNat).length + (int64Field 3 timestamp).length +
        (varint resp.encode.length).length + resp.encode.length + 4 := by
  have hcmd : (enumField 2 CommandType.syncMsgsRes.number).length = 2 := by decide
  have htag : (tag 304 2).length = 2 := by decide
  simp only [encodeSyncMsgsRes, encodeEnvelope, List.length_append, length_messageField, hcmd, htag]
  omega

theorem messagesLength_le {msgs : List P2PMessage} {n : ℕ} (h : ∀ m ∈ msgs, m.content.length ≤ n) :
    messagesLength msgs ≤ msgs.length * (n + 160) := by
  have hfield : ∀ x ∈ msgs.map fun m => (messageField 3 m.encode).length, x ≤ n + 160 := by
    intro x hx
    obtain ⟨m, hm, rfl⟩ := List.mem_map.mp hx
    have hcontent := h m hm
    have henc := length_encode_le m
    have hmsg := length_messageField_le 3 m.encode
    omega
  have hsum := List.sum_le_card_nsmul _ _ hfield
  rwa [List.length_map, smul_eq_mul] at hsum

theorem le_messagesLength {msgs : List P2PMessage} {n : ℕ} (h : ∀ m ∈ msgs, n ≤ m.content.length) :
    msgs.length * n ≤ messagesLength msgs := by
  have hfield : ∀ x ∈ msgs.map fun m => (messageField 3 m.encode).length, n ≤ x := by
    intro x hx
    obtain ⟨m, hm, rfl⟩ := List.mem_map.mp hx
    have hcontent := h m hm
    have henc := le_length_encode m
    rw [length_messageField]
    omega
  have hsum := List.card_nsmul_le_sum _ _ hfield
  rwa [List.length_map, smul_eq_mul] at hsum

end TermChat.Proto
