import TermChat.Core.Sessions

/-! Whether a user who is online can be found: the connection of the user's most recent
login against the connection that `FindConnection` returns. -/
namespace TermChat
namespace Sessions

/-- The latest login of `u` was on `c`, and `c` has not logged in as anyone since. -/
def LatestLogin (h : Sessions) (u : UInt64) (c : ConnId) : Prop :=
  ∃ older newer, h.logins = older ++ (c, u) :: newer ∧
    (∀ d, (d, u) ∉ newer) ∧ ∀ v, (c, v) ∉ newer

/-- A user whose latest login is on a connection that is still open is found there. -/
def OnlineReachable (h : Sessions) : Prop :=
  ∀ u c s, h.LatestLogin u c → h.conns[c]? = some s → s.isClose = false →
    h.push.findConnection u = some c

/-- A connection logged in as `u` is closed only while no other open connection that is
logged in as `u` is the registered one. -/
def KeepsOthersReachable (h : Sessions) : Action → Prop
  | .close c => ∀ u d, u ≠ 0 → h.LoggedInAs c u → h.push.findConnection u = some d →
      d ≠ c → ¬ h.LoggedInAs d u
  | _ => True

theorem LatestLogin.mem {h : Sessions} {u : UInt64} {c : ConnId} (hl : h.LatestLogin u c) :
    (c, u) ∈ h.logins := by
  obtain ⟨older, newer, hsplit, -⟩ := hl
  simp [hsplit]

/-- What every run keeps: the log names accepted connections, the last login of a
connection is its `user_id_`, and a registered connection is that of the latest login. -/
structure LoginLog (h : Sessions) : Prop where
  accepted : ∀ c u, (c, u) ∈ h.logins → c < h.conns.length
  current : ∀ c s older u newer, h.conns[c]? = some s → h.logins = older ++ (c, u) :: newer →
    (∀ v, (c, v) ∉ newer) → s.userId = u
  registered : ∀ u c, h.push.findConnection u = some c →
    ∃ older newer, h.logins = older ++ (c, u) :: newer ∧ ∀ d, (d, u) ∉ newer

private theorem append_singleton_eq_split {α : Type*} {l older newer : List α} {x y : α}
    (h : l ++ [x] = older ++ y :: newer) :
    (newer = [] ∧ x = y ∧ l = older) ∨
      ∃ rest, newer = rest ++ [x] ∧ l = older ++ y :: rest := by
  rcases List.eq_nil_or_concat newer with rfl | ⟨rest, z, rfl⟩
  · obtain ⟨hl, hx⟩ := List.append_inj' h rfl
    exact Or.inl ⟨rfl, List.cons.inj hx |>.1, hl⟩
  · have h' : l ++ [x] = (older ++ y :: rest) ++ [z] := by simpa using h
    obtain ⟨hl, hx⟩ := List.append_inj' h' rfl
    obtain rfl := (List.cons.inj hx).1
    exact Or.inr ⟨rest, by simp, hl⟩

theorem LoginLog.accept {h : Sessions} (hl : h.LoginLog) : h.accept.LoginLog where
  accepted c u hm := by
    simp only [Sessions.accept, List.length_append, List.length_singleton]
    exact Nat.lt_succ_of_lt (hl.accepted c u hm)
  current c s older u newer hc hd hn := by
    have hlt := hl.accepted c u (hd ▸ by simp)
    exact hl.current c s older u newer (List.getElem?_append_left hlt ▸ hc) hd hn
  registered := hl.registered

theorem LoginLog.setUserId {h : Sessions} (hl : h.LoginLog) {c : ConnId} (hc : c < h.conns.length)
    (u : UInt64) : (h.setUserId c u).LoginLog where
  accepted d v hm := by
    simp only [Sessions.setUserId, List.mem_append, List.mem_singleton, Prod.mk.injEq,
      List.length_modify] at hm ⊢
    rcases hm with hm | ⟨rfl, rfl⟩
    · exact hl.accepted d v hm
    · exact hc
  current d s older v newer hd hsplit hn := by
    simp only [Sessions.setUserId, List.getElem?_modify] at hd hsplit
    rcases append_singleton_eq_split hsplit with ⟨-, heq, -⟩ | ⟨rest, rfl, hold⟩
    · obtain ⟨rfl, rfl⟩ := Prod.mk.inj heq
      obtain ⟨s', -, rfl⟩ := Option.map_eq_some_iff.mp hd
      simp
    · have hcd : c ≠ d := fun he => hn u (by simp [he])
      simp only [if_neg hcd, Option.map_eq_map, Option.map_id'] at hd
      exact hl.current d s older v rest hd hold fun w hw => hn w (by simp [hw])
  registered v d hv := by
    simp only [Sessions.setUserId, PushService.findConnection_addClient] at hv ⊢
    split_ifs at hv with hvu
    · obtain rfl := hvu
      obtain rfl := Option.some.inj hv
      exact ⟨h.logins, [], by simp⟩
    · obtain ⟨older, newer, hsplit, hn⟩ := hl.registered v d hv
      refine ⟨older, newer ++ [(c, u)], by simp [hsplit], ?_⟩
      intro e he
      rcases List.mem_append.mp he with he | he
      · exact hn e he
      · exact hvu (Prod.mk.inj (List.mem_singleton.mp he)).2

theorem LoginLog.closeConn {h : Sessions} (hl : h.LoginLog) (c : ConnId) (s : Session) :
    (h.closeConn c s).LoginLog := by
  unfold Sessions.closeConn
  split_ifs
  · exact hl
  all_goals
    refine ⟨by simpa using hl.accepted, ?_, ?_⟩
    · intro d t older u newer hd hsplit hn
      simp only [List.getElem?_modify] at hd
      obtain ⟨t', ht', rfl⟩ := Option.map_eq_some_iff.mp hd
      have := hl.current d t' older u newer ht' hsplit hn
      split_ifs <;> exact this
    · intro u d hu
      first
        | exact hl.registered u d hu
        | rw [PushService.findConnection_removeClient] at hu
          split_ifs at hu
          exact hl.registered u d hu

theorem step_loginLog (createToken : UInt64 → String → String) {h t : Sessions} {a : Action}
    (hl : h.LoginLog) (ht : step createToken h a = some t) : t.LoginLog := by
  cases a with
  | accept => cases ht; exact hl.accept
  | login c db q req =>
    obtain ⟨s, hc, rfl⟩ := Option.map_eq_some_iff.mp ht
    cases (userLogin createToken db q req).2 with
    | none => exact hl
    | some u => exact hl.setUserId (List.getElem?_eq_some_iff.mp hc).1 u
  | close c =>
    obtain ⟨s, hc, rfl⟩ := Option.map_eq_some_iff.mp ht
    exact hl.closeConn c s

theorem latestLogin_setUserId {h : Sessions} {c d : ConnId} {u v : UInt64}
    (hd : (h.setUserId c u).LatestLogin v d) :
    (v = u ∧ d = c) ∨ (v ≠ u ∧ d ≠ c ∧ h.LatestLogin v d) := by
  obtain ⟨older, newer, hsplit, hu, hc⟩ := hd
  rcases append_singleton_eq_split hsplit with ⟨-, heq, -⟩ | ⟨rest, rfl, hold⟩
  · obtain ⟨rfl, rfl⟩ := Prod.mk.inj heq
    exact Or.inl ⟨rfl, rfl⟩
  · refine Or.inr ⟨fun hv => hu c (by simp [hv]), fun he => hc u (by simp [he]), older, rest, hold, ?_, ?_⟩
    · exact fun e he => hu e (by simp [he])
    · exact fun w hw => hc w (by simp [hw])

/-- The registered connection of `u`, still logged in as `u`, is that of `u`'s latest login. -/
theorem LoginLog.latest {h : Sessions} (hl : h.LoginLog) {u : UInt64} {c : ConnId}
    (hr : h.push.findConnection u = some c) (hc : h.LoggedInAs c u) : h.LatestLogin u c := by
  obtain ⟨older, newer, hsplit, hn⟩ := hl.registered u c hr
  refine ⟨older, newer, hsplit, hn, ?_⟩
  -- A later login on `c` would have changed its `user_id_`: take the last such login.
  suffices ∀ n, n.length ≤ newer.length → n <:+ newer → ∀ v, (c, v) ∉ n from
    this newer le_rfl List.suffix_rfl
  intro n
  induction n with
  | nil => simp
  | cons e rest ih =>
    intro hlen hsuf v hv
    have hrest := ih (by simp at hlen; omega) ((List.suffix_cons e rest).trans hsuf)
    rcases List.mem_cons.mp hv with rfl | hv
    · obtain ⟨front, rfl⟩ := hsuf
      have huv : u = v := hl.current c ⟨false, u⟩ (older ++ (c, u) :: front) v rest hc (by simp [hsplit]) hrest
      exact hn c (by simp [huv])
    · exact hrest v hv

theorem closeConn_reachable_iff {h : Sessions} (hl : h.LoginLog) (hp : h.OnlineReachable)
    {c : ConnId} {s : Session} (hc : h.conns[c]? = some s) :
    (h.closeConn c s).OnlineReachable ↔ h.KeepsOthersReachable (.close c) := by
  unfold closeConn KeepsOthersReachable
  split_ifs with hcl hu
  · refine iff_of_true hp ?_
    rintro u d - hcu
    obtain rfl := Option.some.inj (hc.symm.trans hcu)
    cases hcl
  · -- the entry of `s.userId` is erased, whoever it belongs to
    constructor
    · rintro hn u d - hcu hreg hdc hdu
      obtain rfl := Option.some.inj (hc.symm.trans hcu)
      have hd : (h.conns.modify c fun s => { s with isClose := true })[d]? = some ⟨false, u⟩ := by
        simpa [LoggedInAs, Ne.symm hdc] using hdu
      have := hn u d ⟨false, u⟩ (hl.latest hreg hdu) hd rfl
      simp at this
    · intro hcond u d s' hlat hd ho
      simp only [List.getElem?_modify] at hd
      obtain ⟨t, ht, rfl⟩ := Option.map_eq_some_iff.mp hd
      have hdc : d ≠ c := by
        rintro rfl
        simp at ho
      rw [if_neg hdc.symm] at ho
      have hreg := hp u d t hlat ht ho
      simp only [PushService.findConnection_removeClient]
      rw [if_neg, hreg]
      rintro rfl
      obtain ⟨older, newer, hsplit, -, hnc⟩ := hlat
      have htu := hl.current d t older s.userId newer ht hsplit hnc
      exact hcond s.userId d hu (loggedInAs_of_open hc (by simpa using hcl)) hreg hdc
        (htu ▸ loggedInAs_of_open ht ho)
  · refine iff_of_true ?_ ?_
    · intro u d s' hlat hd ho
      simp only [List.getElem?_modify] at hd
      obtain ⟨t, ht, rfl⟩ := Option.map_eq_some_iff.mp hd
      refine hp u d t hlat ht ?_
      split_ifs at ho
      exact ho
    · intro u d hu0 hcu
      obtain rfl := Option.some.inj (hc.symm.trans hcu)
      exact absurd hu0 hu

theorem step_reachable_iff (createToken : UInt64 → String → String) {h t : Sessions} {a : Action}
    (hl : h.LoginLog) (hp : h.OnlineReachable) (ht : step createToken h a = some t) :
    t.OnlineReachable ↔ h.KeepsOthersReachable a := by
  cases a with
  | accept =>
    cases ht
    refine iff_of_true ?_ trivial
    intro u c s hlat hc ho
    have hlt := hl.accepted c u hlat.mem
    exact hp u c s hlat (List.getElem?_append_left hlt ▸ hc) ho
  | login c db q req =>
    obtain ⟨s, hc, rfl⟩ := Option.map_eq_some_iff.mp ht
    refine iff_of_true ?_ trivial
    cases (userLogin createToken db q req).2 with
    | none => exact hp
    | some u =>
      intro v d s' hlat hd ho
      simp only [setUserId, PushService.findConnection_addClient]
      rcases latestLogin_setUserId hlat with ⟨rfl, rfl⟩ | ⟨hvu, hdc, hold⟩
      · simp
      · rw [if_neg hvu]
        have hd' : h.conns[d]? = some s' := by
          simpa [setUserId, List.getElem?_modify, Ne.symm hdc] using hd
        exact hp v d s' hold hd' ho
  | close c =>
    obtain ⟨s, hc, rfl⟩ := Option.map_eq_some_iff.mp ht
    exact closeConn_reachable_iff hl hp hc

theorem init_loginLog (hash : UInt64 → ℕ) : (init hash).LoginLog := by
  refine ⟨?_, ?_, ?_⟩ <;> simp [init]

/-- In a run, every user whose latest login is still good is found on that connection in
every state, exactly when every close of the run meets `KeepsOthersReachable`. -/
theorem online_reachable_along_iff (createToken : UInt64 → String → String) (hash : UInt64 → ℕ)
    (as : List Action) :
    Steps.Along (step createToken) OnlineReachable (init hash) as ↔
      Steps.Meets (step createToken) KeepsOthersReachable (init hash) as := by
  refine Steps.along_iff_meets (I := LoginLog) (fun _ _ _ => step_loginLog createToken)
    (fun _ _ _ => step_reachable_iff createToken) ?_ as (init_loginLog hash) ?_
  · intro h a ha
    cases a with
    | accept => trivial
    | login c db q req => trivial
    | close c =>
      intro u d hu hc
      rw [LoggedInAs] at hc
      simp [step, hc] at ha
  · intro u c s hl
    have hm := hl.mem
    simp [init] at hm

/-- User 1 logs in on connection 0 and then on connection 1; closing connection 0 makes
the user unreachable although connection 1 is open. -/
theorem close_of_older_connection_hides_user :
    ∃ h, Steps.run (step fun _ _ => "") (init UInt64.toNat)
        [.accept, .accept, .login 0 twoUsers ⟨true, true, true⟩ ⟨"a", "pw"⟩,
          .login 1 twoUsers ⟨true, true, true⟩ ⟨"a", "pw"⟩, .close 0] = some h ∧
      h.LatestLogin 1 1 ∧ h.LoggedInAs 1 1 ∧ h.push.findConnection 1 = none ∧
      ¬ h.OnlineReachable := by
  let h := (((init UInt64.toNat).accept.accept.setUserId 0 1).setUserId 1 1).closeConn 0 ⟨false, 1⟩
  have hlat : h.LatestLogin 1 1 := ⟨[(0, 1)], [], rfl, by simp, by simp⟩
  have hopen : h.LoggedInAs 1 1 := rfl
  have hfind : h.push.findConnection 1 = none := rfl
  refine ⟨h, rfl, hlat, hopen, hfind, fun hr => ?_⟩
  have := hr 1 1 _ hlat hopen rfl
  simp [hfind] at this

end Sessions
end TermChat
