import TermChat.Base.Keyed
import TermChat.Proto.Messages

/-! `FriendDao` on the table `im_friend`. A friendship is two rows, one in each direction.
A call whose database work fails leaves the table as it was: `AddFriend` has one statement
that writes, and `HandleFriend` is a transaction. -/
namespace TermChat
open Proto

/-- `STATUS_PENDING`, `STATUS_ACCEPTED` and `STATUS_REJECTED`. -/
inductive FriendStatus where
  | pending | accepted | rejected
  deriving DecidableEq, Repr

structure FriendRow where
  id : ℕ
  userId : UInt64
  friendId : UInt64
  status : FriendStatus
  verifyMsg : String := ""
  createdAt : Int64
  deriving DecidableEq, Repr

/-- The unique key `uk_user_friend`. -/
def FriendRow.key (r : FriendRow) : UInt64 × UInt64 := (r.userId, r.friendId)

def FriendRow.setStatus (status : FriendStatus) (r : FriendRow) : FriendRow :=
  { r with status := status }

/-- `nextId` is the `AUTO_INCREMENT` of the column `id`. -/
structure FriendTable extends Keyed FriendRow.key where
  nextId : ℕ

inductive AddFriendResult where
  | success | alreadyExists | dbError
  deriving DecidableEq, Repr

namespace FriendTable

def empty : FriendTable := ⟨.empty, 1⟩

def status (t : FriendTable) (user friend : UInt64) : Option FriendStatus :=
  (t.find (user, friend)).map FriendRow.status

/-- `UPDATE im_friend SET status = ? WHERE user_id = ? AND friend_id = ?`. -/
def setStatus (t : FriendTable) (user friend : UInt64) (status : FriendStatus) : FriendTable :=
  { t with toKeyed := t.update (user, friend) (FriendRow.setStatus status) fun _ => rfl }

def insertRow (t : FriendTable) (user friend : UInt64) (status : FriendStatus) (verifyMsg : String)
    (now : Int64) (h : t.find (user, friend) = none) : FriendTable where
  toKeyed := t.insert ⟨t.nextId, user, friend, status, verifyMsg, now⟩ h
  nextId := t.nextId + 1

theorem status_setStatus (t : FriendTable) (user friend : UInt64) (st : FriendStatus)
    (a b : UInt64) :
    (t.setStatus user friend st).status a b =
      if (a, b) = (user, friend) then (t.status user friend).map fun _ => st else t.status a b := by
  have hfind : (t.setStatus user friend st).find (a, b) =
      if (a, b) = (user, friend) then (t.find (user, friend)).map (FriendRow.setStatus st)
      else t.find (a, b) :=
    t.find_update (user, friend) (FriendRow.setStatus st) (fun _ => rfl) (a, b)
  rw [status, hfind]
  split_ifs
  · rw [status, Option.map_map, Option.map_map]
    rfl
  · rfl

theorem status_insertRow (t : FriendTable) (user friend : UInt64) (st : FriendStatus) (msg : String)
    (now : Int64) (h : t.find (user, friend) = none) (a b : UInt64) :
    (t.insertRow user friend st msg now h).status a b =
      if (a, b) = (user, friend) then some st else t.status a b := by
  have hfind : (t.insertRow user friend st msg now h).find (a, b) =
      if (a, b) = (user, friend) then some ⟨t.nextId, user, friend, st, msg, now⟩
      else t.find (a, b) :=
    t.find_insert ⟨t.nextId, user, friend, st, msg, now⟩ h (a, b)
  rw [status, hfind]
  split_ifs
  · rfl
  · rfl

end FriendTable

namespace FriendDao

/-- `ok` tells whether the database serves the call, and `now` is its clock. -/
def addFriend (t : FriendTable) (ok : Bool) (now : Int64) (senderId receiverId : UInt64)
    (verifyMsg : String) : (AddFriendResult × UInt64) × FriendTable :=
  if ok then
    match h : t.find (senderId, receiverId) with
    | some _ => ((.alreadyExists, 0), t)
    | none =>
      ((.success, UInt64.ofNat t.nextId), t.insertRow senderId receiverId .pending verifyMsg now h)
  else ((.dbError, 0), t)

/-- The two directions of an accepted friendship; the row of the receiver may be new. -/
def acceptRows (t : FriendTable) (now : Int64) (receiverId senderId : UInt64) : FriendTable :=
  let t := t.setStatus senderId receiverId .accepted
  match h : t.find (receiverId, senderId) with
  | none => t.insertRow receiverId senderId .accepted "" now h
  | some _ => t.setStatus receiverId senderId .accepted

def handleFriend (t : FriendTable) (ok : Bool) (now : Int64) (receiverId senderId : UInt64)
    (accept : Bool) : Option UInt64 × FriendTable :=
  if ok then
    (some senderId,
      if accept then acceptRows t now receiverId senderId
      else t.setStatus senderId receiverId .rejected)
  else (none, t)

/-- The inner join with `im_user`, of which `username` gives the names by user id. -/
def getFriendList (t : FriendTable) (username : UInt64 → Option String) (userId : UInt64) :
    List User :=
  t.rows.filterMap fun row =>
    if row.userId = userId ∧ row.status = .accepted then
      (username row.friendId).map fun name =>
        { userId := row.friendId, username := name, status := .online }
    else none

def getPendingRequests (t : FriendTable) (username : UInt64 → Option String) (userId : UInt64) :
    List FriendReqPush :=
  t.rows.filterMap fun row =>
    if row.friendId = userId ∧ row.status = .pending then
      (username row.userId).map fun name =>
        { reqId := UInt64.ofNat row.id, senderId := row.userId, senderName := name
          verifyMsg := row.verifyMsg, timestamp := row.createdAt }
    else none

theorem addFriend_cases (t : FriendTable) (ok : Bool) (now : Int64) (senderId receiverId : UInt64)
    (verifyMsg : String) :
    (∃ h : t.find (senderId, receiverId) = none,
      addFriend t ok now senderId receiverId verifyMsg =
        ((.success, UInt64.ofNat t.nextId),
          t.insertRow senderId receiverId .pending verifyMsg now h)) ∨
    ∃ res, res ≠ .success ∧ addFriend t ok now senderId receiverId verifyMsg = ((res, 0), t) := by
  unfold addFriend
  split_ifs
  · split
    · exact .inr ⟨_, by simp, rfl⟩
    · next h => exact .inl ⟨h, rfl⟩
  · exact .inr ⟨_, by simp, rfl⟩

theorem addFriend_of_find_some {t : FriendTable} {senderId receiverId : UInt64} {row : FriendRow}
    (h : t.find (senderId, receiverId) = some row) (now : Int64) (verifyMsg : String) :
    addFriend t true now senderId receiverId verifyMsg = ((.alreadyExists, 0), t) := by
  unfold addFriend
  rw [if_pos rfl]
  split
  · rfl
  · rename_i hnone
    rw [h] at hnone
    cases hnone

theorem addFriend_of_find_none {t : FriendTable} {senderId receiverId : UInt64}
    (h : t.find (senderId, receiverId) = none) (now : Int64) (verifyMsg : String) :
    addFriend t true now senderId receiverId verifyMsg =
      ((.success, UInt64.ofNat t.nextId),
        t.insertRow senderId receiverId .pending verifyMsg now h) := by
  unfold addFriend
  rw [if_pos rfl]
  split
  · rename_i row hsome
    rw [h] at hsome
    cases hsome
  · rfl

theorem status_acceptRows (t : FriendTable) (now : Int64) (r s a b : UInt64) :
    (acceptRows t now r s).status a b =
      if (a, b) = (r, s) then some .accepted
      else if (a, b) = (s, r) then (t.status s r).map fun _ => .accepted
      else t.status a b := by
  unfold acceptRows
  dsimp only
  split
  · rw [FriendTable.status_insertRow, FriendTable.status_setStatus]
  · next row hrow =>
    -- the row of the receiver is there after the first update
    have hsome : ((t.setStatus s r .accepted).status r s).map (fun _ => FriendStatus.accepted) =
        some .accepted := by
      rw [FriendTable.status, hrow]
      rfl
    rw [FriendTable.status_setStatus, hsome, FriendTable.status_setStatus]

/-- The friend list holds the accepted rows of the user whose friend is registered. -/
theorem mem_getFriendList {t : FriendTable} {username : UInt64 → Option String} {a b : UInt64} :
    b ∈ (getFriendList t username a).map User.userId ↔
      t.status a b = some .accepted ∧ (username b).isSome := by
  simp only [getFriendList, List.mem_map, List.mem_filterMap, FriendTable.status,
    Option.map_eq_some_iff, t.find_eq_some_iff, FriendRow.key]
  constructor
  · rintro ⟨_, ⟨row, hmem, hrow⟩, rfl⟩
    split_ifs at hrow with hif
    obtain ⟨name, hname, rfl⟩ := Option.map_eq_some_iff.mp hrow
    exact ⟨⟨row, ⟨hmem, by rw [hif.1]⟩, hif.2⟩, by rw [hname]; rfl⟩
  · rintro ⟨⟨row, ⟨hmem, hkey⟩, hst⟩, hreg⟩
    obtain ⟨name, hname⟩ := Option.isSome_iff_exists.mp hreg
    obtain ⟨huser, rfl⟩ := Prod.mk.inj hkey
    exact ⟨_, ⟨row, hmem, by rw [if_pos ⟨huser, hst⟩, hname]; rfl⟩, rfl⟩

end FriendDao
end TermChat
