import TermChat.Base.Keyed
import TermChat.Proto.Messages

/-! `AuthService` over the queries of `UserDao`. Each query can fail on its own, and a failed
query returns the default value of its type. -/
namespace TermChat
open Proto

structure UserRow where
  userId : UInt64
  username : String
  password : String
  deriving DecidableEq, Repr

/-- The row that `WHERE username = ?` selects; the column is unique. -/
abbrev UserTable := String → Option UserRow

abbrev Users := Keyed UserRow.username

/-- Which of the three queries of a login reach the database and return. -/
structure LoginQueries where
  queryExist : Bool
  verifyUser : Bool
  findByUsername : Bool
  deriving DecidableEq, Repr

namespace UserDao

def queryExist (db : UserTable) (ok : Bool) (username : String) : Bool :=
  ok && (db username).isSome

def verifyUser (db : UserTable) (ok : Bool) (username password : String) : Bool :=
  ok && match db username with
    | none => false
    | some row => row.password == password

def findByUsername (db : UserTable) (ok : Bool) (username : String) : User :=
  if ok then
    match db username with
    | none => {}
    | some row => { userId := row.userId, username := row.username, status := .online }
  else {}

/-- The columns `user_id` and `username` are both unique. -/
def insert (users : Users) (ok : Bool) (userId : UInt64) (username password : String) :
    Bool × Users :=
  if ok = true ∧ (users.rows.find? (·.userId = userId)).isNone = true then
    match h : users.find username with
    | none => (true, Keyed.insert users ⟨userId, username, password⟩ h)
    | some _ => (false, users)
  else (false, users)

def findById (users : Users) (ok : Bool) (userId : UInt64) : User :=
  if ok then
    match users.rows.find? (·.userId = userId) with
    | none => {}
    | some row => { userId := row.userId, username := row.username, status := .offline }
  else {}

end UserDao

/-- Which of the two queries of a registration reach the database and return, and the id that
`GenerateRandId` draws. -/
structure RegisterQueries where
  queryExist : Bool
  insert : Bool
  randId : UInt64
  deriving DecidableEq, Repr

def userRegister (users : Users) (q : RegisterQueries) (req : RegisterReq) : RegisterResp × Users :=
  if req.username = "" ∨ req.password = "" then
    ({ errorMsg := "Username or password cannot be empty" }, users)
  else if UserDao.queryExist users.find q.queryExist req.username then
    ({ errorMsg := "Username already exists" }, users)
  else
    match UserDao.insert users q.insert q.randId req.username req.password with
    | (true, users) => ({ success := true, userId := q.randId }, users)
    | (false, users) => ({ errorMsg := "Database internal error" }, users)

/-- The response, and the id with which `set_user_id` is called, if it is.
`createToken` is `TokenUtil::create_token`. -/
def userLogin (createToken : UInt64 → String → String) (db : UserTable) (q : LoginQueries)
    (req : LoginReq) : LoginResp × Option UInt64 :=
  if req.username = "" ∨ req.password = "" then
    ({ errorMsg := "Username or password cannot be empty" }, none)
  else if !UserDao.queryExist db q.queryExist req.username then
    ({ errorMsg := "Username not found" }, none)
  else if UserDao.verifyUser db q.verifyUser req.username req.password then
    let user := UserDao.findByUsername db q.findByUsername req.username
    ({ success := true, userInfo := user, token := createToken user.userId user.username },
      some user.userId)
  else ({ errorMsg := "Database internal error" }, none)

/-- Behind every `set_user_id` stands the password of the user, whose id it is, or 0 when the
last query fails. -/
theorem userLogin_verified {createToken : UInt64 → String → String} {db : UserTable}
    {q : LoginQueries} {req : LoginReq} {id : UInt64}
    (h : (userLogin createToken db q req).2 = some id) :
    ∃ row, db req.username = some row ∧ row.password = req.password ∧ (id = row.userId ∨ id = 0) := by
  unfold userLogin at h
  split_ifs at h with _ _ hverify
  unfold UserDao.verifyUser at hverify
  cases hrow : db req.username with
  | none => simp [hrow] at hverify
  | some row =>
    have hpw : row.password = req.password := by
      have hboth : q.verifyUser = true ∧ row.password = req.password := by
        simpa [hrow] using hverify
      exact hboth.2
    refine ⟨row, rfl, hpw, ?_⟩
    obtain rfl := Option.some.inj h
    unfold UserDao.findByUsername
    split_ifs
    · rw [hrow]
      exact .inl rfl
    · exact .inr rfl

end TermChat
