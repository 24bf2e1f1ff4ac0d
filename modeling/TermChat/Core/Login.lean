import TermChat.Core.Sessions

/-! `user_login` on a connection: whether the response says what the session and the registry say.
The three queries of a login fail independently of each other. -/
namespace TermChat
open Proto

/-- The request passes the checks before `FindByUsername`: both queries return, and find `row` with
the password of the request. -/
structure Verified (db : UserTable) (q : LoginQueries) (req : LoginReq) (row : UserRow) : Prop where
  username : req.username ≠ ""
  password : req.password ≠ ""
  queryExist : q.queryExist = true
  verifyUser : q.verifyUser = true
  found : db req.username = some row
  samePassword : row.password = req.password

namespace Sessions

variable (createToken : UInt64 → String → String) (h : Sessions) (c : ConnId) (db : UserTable)
  (q : LoginQueries) (req : LoginReq)

def login : LoginResp × Sessions :=
  let r := userLogin createToken db q req
  (r.1, match r.2 with
    | none => h
    | some u => h.setUserId c u)

def LoggedInByName (username : String) : Prop :=
  ∃ row, db username = some row ∧ row.userId ≠ 0 ∧
    (h.conns[c]?).map Session.userId = some row.userId ∧
    h.push.findConnection row.userId = some c

/-- The response is positive exactly when the connection is logged in as the user of the request
afterwards, and a negative response leaves the connection and the registry as they were. -/
structure LoginMatches : Prop where
  success_iff : (h.login createToken c db q req).1.success = true ↔
    (h.login createToken c db q req).2.LoggedInByName c db req.username
  unchanged : (h.login createToken c db q req).1.success = false →
    (h.login createToken c db q req).2.conns = h.conns ∧
      (h.login createToken c db q req).2.push = h.push

end Sessions

section Outcome

variable (createToken : UInt64 → String → String) {db : UserTable} {q : LoginQueries}
  {req : LoginReq}

theorem Verified.userLogin {row : UserRow} (hv : Verified db q req row) :
    (userLogin createToken db q req).1.success = true ∧
      (userLogin createToken db q req).2 = some (if q.findByUsername then row.userId else 0) := by
  have hnonempty : ¬ (req.username = "" ∨ req.password = "") :=
    not_or.mpr ⟨hv.username, hv.password⟩
  have hexist : UserDao.queryExist db q.queryExist req.username = true := by
    simp [UserDao.queryExist, hv.queryExist, hv.found]
  have hverify : UserDao.verifyUser db q.verifyUser req.username req.password = true := by
    simp [UserDao.verifyUser, hv.verifyUser, hv.found, hv.samePassword]
  unfold TermChat.userLogin
  simp only [if_neg hnonempty, hexist, hverify, Bool.not_true, Bool.false_eq_true, if_false, if_true,
    UserDao.findByUsername, hv.found]
  refine ⟨trivial, ?_⟩
  split_ifs <;> rfl

theorem userLogin_refused (hv : ∀ row, ¬ Verified db q req row) :
    (userLogin createToken db q req).1.success = false ∧
      (userLogin createToken db q req).2 = none := by
  unfold TermChat.userLogin
  split_ifs with hempty hexist hverify
  · exact ⟨rfl, rfl⟩
  · exact ⟨rfl, rfl⟩
  · exfalso
    obtain ⟨hname, hpw⟩ := not_or.mp hempty
    unfold UserDao.verifyUser at hverify
    cases hrow : db req.username with
    | none => simp [hrow] at hverify
    | some row =>
      have hboth : q.verifyUser = true ∧ row.password = req.password := by
        simpa [hrow] using hverify
      have hq : q.queryExist = true := by
        simpa [UserDao.queryExist, hrow] using hexist
      exact hv row ⟨hname, hpw, hq, hboth.1, hrow, hboth.2⟩
  · exact ⟨rfl, rfl⟩

end Outcome

namespace Sessions

variable (createToken : UInt64 → String → String) (h : Sessions) (c : ConnId) (db : UserTable)
  (q : LoginQueries) (req : LoginReq)

theorem loggedInByName_setUserId {s : Session} (hc : h.conns[c]? = some s) (u : UInt64)
    {username : String} {row : UserRow} (hrow : db username = some row) :
    (h.setUserId c u).LoggedInByName c db username ↔ u = row.userId ∧ u ≠ 0 := by
  have hid : ((h.setUserId c u).conns[c]?).map Session.userId = some u := by
    simp [setUserId, hc]
  have hreg : (h.setUserId c u).push.findConnection u = some c := by
    simp [setUserId, PushService.findConnection_addClient]
  constructor
  · rintro ⟨row', hrow', hne, huser, -⟩
    obtain rfl := Option.some.inj (hrow'.symm.trans hrow)
    have hu : u = row'.userId := Option.some.inj (hid.symm.trans huser)
    exact ⟨hu, hu ▸ hne⟩
  · rintro ⟨rfl, hne⟩
    exact ⟨row, hrow, hne, hid, hreg⟩

/-- The response matches the session exactly when the last query of a verified request returns a
non-zero id, and a refused request does not come from a connection that was logged in under that
name before. -/
theorem loginMatches_iff (s : Session) (hc : h.conns[c]? = some s) :
    h.LoginMatches createToken c db q req ↔
      (∀ row, Verified db q req row → q.findByUsername = true ∧ row.userId ≠ 0) ∧
      ((∀ row, ¬ Verified db q req row) → ¬ h.LoggedInByName c db req.username) := by
  by_cases hv : ∃ row, Verified db q req row
  · obtain ⟨row, hv⟩ := hv
    obtain ⟨hsuccess, hid⟩ := hv.userLogin createToken
    have hafter : (h.login createToken c db q req).2 =
        h.setUserId c (if q.findByUsername then row.userId else 0) := by
      simp only [login, hid]
    have hmatch : h.LoginMatches createToken c db q req ↔
        (h.login createToken c db q req).2.LoggedInByName c db req.username := by
      constructor
      · exact fun hm => hm.success_iff.mp hsuccess
      · intro hlog
        exact ⟨iff_of_true hsuccess hlog, fun hfail => absurd (hsuccess.symm.trans hfail) (by simp)⟩
    rw [hmatch, hafter, loggedInByName_setUserId h c db hc _ hv.found]
    constructor
    · rintro ⟨hu, hne⟩
      refine ⟨fun row' hv' => ?_, fun hnone => absurd hv (hnone row)⟩
      obtain rfl := Option.some.inj (hv'.found.symm.trans hv.found)
      cases hq : q.findByUsername with
      | false => simp [hq] at hne
      | true => simpa [hq] using hne
    · rintro ⟨hall, -⟩
      obtain ⟨hq, hne⟩ := hall row hv
      simp [hq, hne]
  · have hnone : ∀ row, ¬ Verified db q req row := not_exists.mp hv
    obtain ⟨hsuccess, hid⟩ := userLogin_refused createToken hnone
    have hafter : (h.login createToken c db q req).2 = h := by
      simp only [login, hid]
    have hresp : ¬ (h.login createToken c db q req).1.success = true := by
      rw [login, hsuccess]
      simp
    constructor
    · intro hm
      refine ⟨fun row hrow => absurd hrow (hnone row), fun _ hlog => hresp (hm.success_iff.mpr ?_)⟩
      rwa [hafter]
    · rintro ⟨-, hbefore⟩
      refine ⟨iff_of_false hresp ?_, fun _ => by rw [hafter]; exact ⟨rfl, rfl⟩⟩
      rw [hafter]
      exact hbefore hnone

/-- User `a` logs in on a fresh connection. -/
theorem loginMatches_a : ((init UInt64.toNat).accept).LoginMatches (fun _ _ => "") 0 twoUsers
    ⟨true, true, true⟩ ⟨"a", "pw"⟩ := by
  rw [loginMatches_iff (fun _ _ => "") _ 0 twoUsers ⟨true, true, true⟩ ⟨"a", "pw"⟩ ⟨false, 0⟩ rfl]
  constructor
  · intro row hv
    obtain rfl : ⟨1, "a", "pw"⟩ = row := Option.some.inj hv.found
    exact ⟨rfl, by decide⟩
  · intro hnone
    exact absurd ⟨by decide, by decide, rfl, rfl, rfl, rfl⟩ (hnone ⟨1, "a", "pw"⟩)

/-- The last query fails: the response says success, with `user_id_` 0. -/
theorem login_reports_success_without_user :
    ((init UInt64.toNat).accept.login (fun _ _ => "") 0 twoUsers ⟨true, true, false⟩
        ⟨"a", "pw"⟩).1.success = true ∧
      ((init UInt64.toNat).accept.login (fun _ _ => "") 0 twoUsers ⟨true, true, false⟩
        ⟨"a", "pw"⟩).2.conns = [⟨false, 0⟩] ∧
      ¬ ((init UInt64.toNat).accept).LoginMatches (fun _ _ => "") 0 twoUsers ⟨true, true, false⟩
        ⟨"a", "pw"⟩ := by
  refine ⟨by decide, by decide, fun hm => ?_⟩
  obtain ⟨row, -, hne, huser, -⟩ := hm.success_iff.mp (by decide)
  have hzero : some (0 : UInt64) = some row.userId := huser
  exact hne (Option.some.inj hzero).symm

end Sessions
end TermChat
