import TermChat.Dao.Friend
import TermChat.Service.Push

/-! `FriendService`, over the table of `FriendDao` and with the pushes to the other user. -/
namespace TermChat
open Proto

/-- What a call reads from its surroundings: whether the database serves it, the database's
clock, and the two readings of the server's clock for a push. -/
structure FriendEnv where
  ok : Bool := true
  createdAt : Int64 := 0
  now : Int64 := 0
  now' : Int64 := 0
  deriving DecidableEq, Repr

namespace FriendService

variable (c : Codec) (findById : UInt64 → User)

/-- `findById` is `UserDao::FindById`. -/
def addFriend (env : FriendEnv) (senderId : UInt64) (req : AddFriendReq) (t : FriendTable)
    (p : PushService) : AddFriendResp × FriendTable × PushService :=
  match FriendDao.addFriend t env.ok env.createdAt senderId req.receiverId req.verifyMsg with
  | ((.success, reqId), t) =>
    ({ success := true }, t,
      p.pushFriendReq c env.now env.now' reqId senderId (findById senderId).username
        req.receiverId req.verifyMsg)
  | ((.alreadyExists, _), t) =>
    ({ success := false, errorMsg := "Friend request already sent or exists" }, t, p)
  | ((.dbError, _), t) => ({ success := false, errorMsg := "Internal Database Error" }, t, p)

/-- Every action other than `ACTION_ACCEPT` rejects. -/
def handleFriend (env : FriendEnv) (receiverId : UInt64) (req : HandleFriendReq) (t : FriendTable)
    (p : PushService) : HandleFriendResp × FriendTable × PushService :=
  match FriendDao.handleFriend t env.ok env.createdAt receiverId req.senderId
      (req.action = .accept) with
  | (some senderId, t) =>
    ({ success := true, senderId := senderId }, t,
      p.pushFriendStatus c env.now req.senderId receiverId (findById receiverId).username req.action)
  | (none, t) => ({ success := false, errorMsg := "Transaction Failed" }, t, p)

def getFriendList (t : FriendTable) (username : UInt64 → Option String) (ok : Bool)
    (userId : UInt64) : GetFriendListResp :=
  if ok then { success := true, friendList := FriendDao.getFriendList t username userId }
  else { success := false, errorMsg := "Internal Database Error" }

variable (env : FriendEnv) (t : FriendTable) (p : PushService)

theorem addFriend_cases (senderId : UInt64) (req : AddFriendReq) :
    let r := addFriend c findById env senderId req t p
    (r.1.success = true ∧ t.status senderId req.receiverId = none ∧
      ∀ a b, r.2.1.status a b =
        if (a, b) = (senderId, req.receiverId) then some .pending else t.status a b) ∨
    (r.1.success = false ∧ r.2.1 = t) := by
  intro r
  rcases FriendDao.addFriend_cases t env.ok env.createdAt senderId req.receiverId req.verifyMsg with
    ⟨h, heq⟩ | ⟨res, hres, heq⟩
  · left
    simp only [r, addFriend, heq]
    refine ⟨trivial, by rw [FriendTable.status, h]; rfl, fun a b => ?_⟩
    exact FriendTable.status_insertRow _ _ _ _ _ _ h a b
  · right
    simp only [r, addFriend, heq]
    cases res with
    | success => exact absurd rfl hres
    | alreadyExists => exact ⟨rfl, rfl⟩
    | dbError => exact ⟨rfl, rfl⟩

/-- What a call that the database serves does to the rows. -/
theorem handleFriend_spec (receiverId : UInt64) (req : HandleFriendReq) :
    let r := handleFriend c findById env receiverId req t p
    r.1.success = env.ok ∧
      r.2.1 =
        if env.ok = true then
          if req.action = .accept then FriendDao.acceptRows t env.createdAt receiverId req.senderId
          else t.setStatus req.senderId receiverId .rejected
        else t := by
  intro r
  simp only [r, handleFriend, FriendDao.handleFriend]
  cases env.ok with
  | false => exact ⟨rfl, rfl⟩
  | true => exact ⟨rfl, by simp⟩

theorem addFriend_push (senderId : UInt64) (req : AddFriendReq) :
    ∃ xs, (addFriend c findById env senderId req t p).2.2 = p.sendAll c xs ∧
      ∀ x ∈ xs, ∃ m, x.2.cmd = .friendReqPush ∧ x.2.payload = some (.friendReqPush m) := by
  rcases FriendDao.addFriend_cases t env.ok env.createdAt senderId req.receiverId req.verifyMsg with
    ⟨h, heq⟩ | ⟨res, hres, heq⟩
  · simp only [addFriend, heq]
    refine ⟨_, p.sendEnvelope_snd c _ _, fun x hx => ?_⟩
    rw [List.mem_singleton.mp hx]
    exact ⟨_, rfl, rfl⟩
  · refine ⟨[], ?_, fun x hx => absurd hx List.not_mem_nil⟩
    simp only [addFriend, heq, PushService.sendAll_nil]
    cases res with
    | success => exact absurd rfl hres
    | alreadyExists => rfl
    | dbError => rfl

theorem handleFriend_push (receiverId : UInt64) (req : HandleFriendReq) :
    ∃ xs, (handleFriend c findById env receiverId req t p).2.2 = p.sendAll c xs ∧
      ∀ x ∈ xs, ∃ m, x.2.cmd = .friendStatusPush ∧ x.2.payload = some (.friendStatusPush m) := by
  simp only [handleFriend, FriendDao.handleFriend]
  cases env.ok with
  | false => exact ⟨[], by simp, fun x hx => absurd hx List.not_mem_nil⟩
  | true =>
    refine ⟨_, p.sendEnvelope_snd c _ _, fun x hx => ?_⟩
    rw [List.mem_singleton.mp hx]
    exact ⟨_, rfl, rfl⟩

end FriendService
end TermChat
