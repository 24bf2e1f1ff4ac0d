import Mathlib.Data.UInt

/-! The protobuf messages of `proto/`, with proto3 defaults. Enumerations are open:
a number outside the schema is kept as received, a number of the schema never is. -/
namespace TermChat

/-- Payload bytes: `std::string` and protobuf `bytes`. -/
abbrev Bytes := List UInt8

namespace Proto

def commandNumbers : List Int32 :=
  [0, 1, 2, 3, 4, 5, 6, 7, 8, 9, 10, 11, 12, 50, 51, 52, 53, 54, 55, 99]

inductive CommandType where
  | unknown
  | registerReq | registerRes | loginReq | loginRes
  | addFriendReq | addFriendRes | friendReqPush | handleFriendReq | handleFriendRes
  | friendStatusPush | getFriendListReq | getFriendListRes
  | p2pMsgReq | p2pMsgPush | msgAck | syncMsgsReq | syncMsgsRes | msgAckBatch
  | heartbeat
  | unrecognized (value : Int32) (h : value ∉ commandNumbers)
  deriving DecidableEq, Repr

inductive MessageAckStatus where
  | unknown | received | persisted | enqueued | delivered | read
  | unrecognized (value : Int32) (h : value ∉ ([0, 1, 2, 3, 4, 5] : List Int32))
  deriving DecidableEq, Repr

inductive ContentType where
  | text | image | file | audio | video
  | unrecognized (value : Int32) (h : value ∉ ([0, 1, 2, 3, 4] : List Int32))
  deriving DecidableEq, Repr

inductive FriendAction where
  | reject | accept
  | unrecognized (value : Int32) (h : value ∉ ([0, 1] : List Int32))
  deriving DecidableEq, Repr

inductive UserStatus where
  | unspecified | offline | online
  | unrecognized (value : Int32) (h : value ∉ ([0, 1, 2] : List Int32))
  deriving DecidableEq, Repr

structure User where
  userId : UInt64 := 0
  username : String := ""
  status : UserStatus := .unspecified
  deriving DecidableEq, Repr

structure RegisterReq where
  username : String := ""
  password : String := ""
  deriving DecidableEq, Repr

structure RegisterResp where
  success : Bool := false
  errorMsg : String := ""
  userId : UInt64 := 0
  deriving DecidableEq, Repr

structure LoginReq where
  username : String := ""
  password : String := ""
  deriving DecidableEq, Repr

structure LoginResp where
  success : Bool := false
  errorMsg : String := ""
  userInfo : User := {}
  token : String := ""
  deriving DecidableEq, Repr

structure AddFriendReq where
  receiverId : UInt64 := 0
  verifyMsg : String := ""
  deriving DecidableEq, Repr

structure AddFriendResp where
  success : Bool := false
  errorMsg : String := ""
  deriving DecidableEq, Repr

structure FriendReqPush where
  reqId : UInt64 := 0
  senderId : UInt64 := 0
  senderName : String := ""
  verifyMsg : String := ""
  timestamp : Int64 := 0
  deriving DecidableEq, Repr

structure HandleFriendReq where
  reqId : UInt64 := 0
  senderId : UInt64 := 0
  action : FriendAction := .reject
  deriving DecidableEq, Repr

structure HandleFriendResp where
  success : Bool := false
  errorMsg : String := ""
  senderId : UInt64 := 0
  deriving DecidableEq, Repr

structure FriendStatusPush where
  receiverId : UInt64 := 0
  receiverName : String := ""
  action : FriendAction := .reject
  deriving DecidableEq, Repr

structure GetFriendListResp where
  success : Bool := false
  errorMsg : String := ""
  friendList : List User := []
  deriving DecidableEq, Repr

structure P2PMessage where
  msgId : UInt64 := 0
  senderId : UInt64 := 0
  receiverId : UInt64 := 0
  contentType : ContentType := .text
  content : Bytes := []
  timestamp : Int64 := 0
  clientMsgId : UInt64 := 0
  deriving DecidableEq, Repr

structure MessageAck where
  msgId : UInt64 := 0
  refSeq : UInt64 := 0
  success : Bool := false
  errorMsg : String := ""
  status : MessageAckStatus := .unknown
  senderId : UInt64 := 0
  receiverId : UInt64 := 0
  deriving DecidableEq, Repr

structure SyncMessagesReq where
  userId : UInt64 := 0
  lastAckMsgId : UInt64 := 0
  limit : UInt32 := 0
  deriving DecidableEq, Repr

structure SyncMessagesResp where
  success : Bool := false
  errorMsg : String := ""
  messages : List P2PMessage := []
  nextAckMsgId : UInt64 := 0
  hasMore : Bool := false
  deriving DecidableEq, Repr

inductive Payload where
  | registerReq (m : RegisterReq) | registerRes (m : RegisterResp)
  | loginReq (m : LoginReq) | loginRes (m : LoginResp)
  | addFriendReq (m : AddFriendReq) | addFriendRes (m : AddFriendResp)
  | friendReqPush (m : FriendReqPush)
  | handleFriendReq (m : HandleFriendReq) | handleFriendRes (m : HandleFriendResp)
  | friendStatusPush (m : FriendStatusPush)
  | getFriendListReq | getFriendListRes (m : GetFriendListResp)
  | p2pMsgReq (m : P2PMessage) | p2pMsgPush (m : P2PMessage)
  | msgAck (m : MessageAck)
  | syncMsgsReq (m : SyncMessagesReq) | syncMsgsRes (m : SyncMessagesResp)
  | msgAckBatch (acks : List MessageAck)
  deriving DecidableEq, Repr

structure Envelope where
  seq : UInt64 := 0
  cmd : CommandType := .unknown
  timestamp : Int64 := 0
  payload : Option Payload := none
  deriving DecidableEq, Repr

end Proto
end TermChat
