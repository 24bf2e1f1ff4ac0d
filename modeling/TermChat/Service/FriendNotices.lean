import TermChat.Base.Steps
import TermChat.Base.Threads
import TermChat.Dao.Scylla
import TermChat.Service.Friend

/-! Friend requests and logins at the same time. `AddFriend` inserts its row before it looks whether
the receiver is online, and a login makes the user known to the push service before a task of the
pool looks for pending rows. One step is one statement on the database, one look at the registry, one
push or one hand-over to the pool. -/
namespace TermChat
open Proto

/-- Where `FriendService::AddFriend` stands. -/
inductive AddFriendPc where
  | existsQuery
  | insert
  | findById (reqId : UInt64)
  | push (reqId : UInt64) (senderName : String)
  | enqueue (item : PushItem)
  deriving DecidableEq, Repr

structure AddFriendCall where
  senderId : UInt64
  req : AddFriendReq
  pc : AddFriendPc
  deriving DecidableEq, Repr

/-- Where the task stands that `HandleLogin` gives to the pool. -/
inductive PendingPc where
  | query
  | push (reqs : List FriendReqPush)
  | enqueue (item : PushItem) (req : FriendReqPush) (reqs : List FriendReqPush)
  deriving DecidableEq, Repr

structure PendingTask where
  userId : UInt64
  pc : PendingPc
  deriving DecidableEq, Repr

/-- `logins` are the users of `HandleLogin` calls that are past `set_user_id` and not past `AddTask`.
`told` records whose requests have been queued for a user since the last `add_client` for them. -/
structure FriendNotices where
  friends : FriendTable
  push : PushService
  adds : List AddFriendCall
  logins : List UInt64
  tasks : List PendingTask
  told : UInt64 → List UInt64

def AddFriendCall.goto (call : AddFriendCall) (pc : AddFriendPc) : AddFriendCall :=
  { call with pc := pc }

def PendingTask.goto (task : PendingTask) (pc : PendingPc) : PendingTask := { task with pc := pc }

namespace FriendNotices

def init (hash : UInt64 → ℕ) (friends : FriendTable) : FriendNotices :=
  ⟨friends, .init hash, [], [], [], fun _ => []⟩

inductive Action where
  | addFriend (senderId : UInt64) (req : AddFriendReq)
  | add (i : ℕ) (out : InsertOutcome) (env : FriendEnv)
  | handleFriend (receiverId senderId : UInt64) (accept : Bool) (env : FriendEnv)
  | login (conn : ConnId) (userId : UInt64)
  | addTask (i : ℕ)
  | task (i : ℕ) (env : FriendEnv)
  | close (userId : UInt64)
  | flush (maxCount : ℕ)

/-- The item is queued for the user, and tells them of a request. -/
def enqueue (s : FriendNotices) (userId senderId : UInt64) (item : PushItem) : FriendNotices :=
  { s with
    push := { s.push with pushQueue := s.push.pushQueue ++ [item] }
    told := Function.update s.told userId (s.told userId ++ [senderId]) }

variable (c : Codec) (username : UInt64 → Option String) (findById : UInt64 → User)

def reqPush (call : AddFriendCall) (env : FriendEnv) (reqId : UInt64) (senderName : String) :
    Envelope :=
  { cmd := .friendReqPush, timestamp := env.now
    payload := some (.friendReqPush
      { reqId := reqId, senderId := call.senderId, senderName := senderName
        verifyMsg := call.req.verifyMsg, timestamp := env.now' }) }

/-- The next step of a call; it is over when no next one is returned. `out` is how its statement
ends: a row that another call has inserted since the test violates the unique key, and an insert that
is reported as failed may have been applied. -/
def advanceAdd (s : FriendNotices) (call : AddFriendCall) (out : InsertOutcome) (env : FriendEnv) :
    FriendNotices × Option AddFriendCall :=
  match call.pc with
  | .existsQuery =>
    if out.success ∧ s.friends.find (call.senderId, call.req.receiverId) = none then
      (s, some (call.goto .insert))
    else (s, none)
  | .insert =>
    match h : s.friends.find (call.senderId, call.req.receiverId) with
    | some _ => (s, none)
    | none =>
      if out.applied then
        ({ s with
          friends := s.friends.insertRow call.senderId call.req.receiverId .pending
            call.req.verifyMsg env.createdAt h },
          if out.success then some (call.goto (.findById (UInt64.ofNat s.friends.nextId)))
          else none)
      else (s, none)
  | .findById reqId => (s, some (call.goto (.push reqId (findById call.senderId).username)))
  | .push reqId senderName =>
    match s.push.pushItem c (call.req.receiverId, reqPush call env reqId senderName) with
    | none => (s, none)
    | some item => (s, some (call.goto (.enqueue item)))
  | .enqueue item => (s.enqueue call.req.receiverId call.senderId item, none)

def pendingPush (env : FriendEnv) (req : FriendReqPush) : Envelope :=
  { cmd := .friendReqPush, timestamp := env.now, payload := some (.friendReqPush req) }

def advanceTask (s : FriendNotices) (task : PendingTask) (env : FriendEnv) :
    FriendNotices × Option PendingTask :=
  match task.pc with
  | .query =>
    let reqs := if env.ok then FriendDao.getPendingRequests s.friends username task.userId else []
    (s, some (task.goto (.push reqs)))
  | .push [] => (s, none)
  | .push (req :: reqs) =>
    match s.push.pushItem c (task.userId, pendingPush env req) with
    | none => (s, some (task.goto (.push reqs)))
    | some item => (s, some (task.goto (.enqueue item req reqs)))
  | .enqueue item req reqs =>
    (s.enqueue task.userId req.senderId item, some (task.goto (.push reqs)))

/-- `HandleFriend` is one transaction; its own push is of another kind and left out here. -/
def step (s : FriendNotices) : Action → Option FriendNotices
  | .addFriend senderId req => some { s with adds := s.adds ++ [⟨senderId, req, .existsQuery⟩] }
  | .add i out env =>
    (s.adds[i]?).map fun call =>
      let r := advanceAdd c findById s call out env
      { r.1 with adds := Threads.advance s.adds i r.2 }
  | .handleFriend receiverId senderId accept env =>
    some { s with
      friends := (FriendDao.handleFriend s.friends env.ok env.createdAt receiverId senderId accept).2 }
  | .login conn userId =>
    some { s with
      push := s.push.addClient userId conn
      logins := s.logins ++ [userId]
      told := Function.update s.told userId [] }
  | .addTask i =>
    (s.logins[i]?).map fun userId =>
      { s with logins := Threads.others s.logins i, tasks := s.tasks ++ [⟨userId, .query⟩] }
  | .task i env =>
    (s.tasks[i]?).map fun task =>
      let r := advanceTask c username s task env
      { r.1 with tasks := Threads.advance s.tasks i r.2 }
  | .close userId => some { s with push := s.push.removeClient userId }
  | .flush maxCount => some { s with push := (s.push.flushPending maxCount).2 }

def serializes (e : Envelope) : Bool := (c.serialize e).any fun data => !data.isEmpty

/-- Envelopes can be sent, the query of a task is served, and no insert is applied that is reported
as failed. -/
def serves (s : FriendNotices) : Action → Bool
  | .add i out env =>
    match s.adds[i]? with
    | some ⟨_, _, .insert⟩ => out ≠ .error true
    | some ⟨senderId, req, .push reqId name⟩ =>
      serializes c (reqPush ⟨senderId, req, .push reqId name⟩ env reqId name)
    | _ => true
  | .task i env =>
    match s.tasks[i]? with
    | some ⟨_, .query⟩ => env.ok
    | some ⟨_, .push (req :: _)⟩ => serializes c (pendingPush env req)
    | _ => true
  | _ => true

inductive Adds (s : FriendNotices) (call : AddFriendCall) (out : InsertOutcome) (env : FriendEnv) :
    FriendNotices × Option AddFriendCall → Prop where
  | refused (hpc : call.pc = .existsQuery ∨ call.pc = .insert) : Adds s call out env (s, none)
  | absent (hpc : call.pc = .existsQuery) : Adds s call out env (s, some (call.goto .insert))
  | inserted (hpc : call.pc = .insert)
      (h : s.friends.find (call.senderId, call.req.receiverId) = none) :
      Adds s call out env
        ({ s with
          friends := s.friends.insertRow call.senderId call.req.receiverId .pending
            call.req.verifyMsg env.createdAt h },
          some (call.goto (.findById (UInt64.ofNat s.friends.nextId))))
  | lost (hpc : call.pc = .insert) (hout : out = .error true)
      (h : s.friends.find (call.senderId, call.req.receiverId) = none) :
      Adds s call out env
        ({ s with
          friends := s.friends.insertRow call.senderId call.req.receiverId .pending
            call.req.verifyMsg env.createdAt h },
          none)
  | named (reqId : UInt64) (hpc : call.pc = .findById reqId) :
      Adds s call out env (s, some (call.goto (.push reqId (findById call.senderId).username)))
  | unheard (reqId : UInt64) (name : String) (hpc : call.pc = .push reqId name)
      (hnone : s.push.pushItem c (call.req.receiverId, reqPush call env reqId name) = none) :
      Adds s call out env (s, none)
  | heard (reqId : UInt64) (name : String) (item : PushItem) (hpc : call.pc = .push reqId name) :
      Adds s call out env (s, some (call.goto (.enqueue item)))
  | enqueued (item : PushItem) (hpc : call.pc = .enqueue item) :
      Adds s call out env (s.enqueue call.req.receiverId call.senderId item, none)

theorem adds_advanceAdd (s : FriendNotices) (call : AddFriendCall) (out : InsertOutcome)
    (env : FriendEnv) :
    Adds c findById s call out env (advanceAdd c findById s call out env) := by
  unfold advanceAdd
  cases hpc : call.pc with
  | existsQuery =>
    dsimp only
    split_ifs
    · exact .absent hpc
    · exact .refused (.inl hpc)
  | insert =>
    dsimp only
    split
    · exact .refused (.inr hpc)
    · cases out with
      | ok => exact .inserted hpc _
      | error applied =>
        cases applied with
        | true => exact .lost hpc rfl _
        | false => exact .refused (.inr hpc)
  | findById reqId => exact .named reqId hpc
  | push reqId name =>
    dsimp only
    split
    · exact .unheard reqId name hpc (by assumption)
    · exact .heard reqId name _ hpc
  | enqueue item => exact .enqueued item hpc

inductive Tasks (s : FriendNotices) (task : PendingTask) (env : FriendEnv) :
    FriendNotices × Option PendingTask → Prop where
  | queried (hpc : task.pc = .query) :
      Tasks s task env (s, some (task.goto (.push
        (if env.ok then FriendDao.getPendingRequests s.friends username task.userId else []))))
  | done (hpc : task.pc = .push []) : Tasks s task env (s, none)
  | unheard (req : FriendReqPush) (reqs : List FriendReqPush) (hpc : task.pc = .push (req :: reqs))
      (hnone : s.push.pushItem c (task.userId, pendingPush env req) = none) :
      Tasks s task env (s, some (task.goto (.push reqs)))
  | heard (req : FriendReqPush) (reqs : List FriendReqPush) (item : PushItem)
      (hpc : task.pc = .push (req :: reqs)) :
      Tasks s task env (s, some (task.goto (.enqueue item req reqs)))
  | enqueued (item : PushItem) (req : FriendReqPush) (reqs : List FriendReqPush)
      (hpc : task.pc = .enqueue item req reqs) :
      Tasks s task env (s.enqueue task.userId req.senderId item, some (task.goto (.push reqs)))

theorem tasks_advanceTask (s : FriendNotices) (task : PendingTask) (env : FriendEnv) :
    Tasks c username s task env (advanceTask c username s task env) := by
  unfold advanceTask
  cases hpc : task.pc with
  | query => exact .queried hpc
  | push reqs =>
    cases reqs with
    | nil => exact .done hpc
    | cons req reqs =>
      dsimp only
      split
      · exact .unheard req reqs hpc (by assumption)
      · exact .heard req reqs _ hpc
  | enqueue item req reqs => exact .enqueued item req reqs hpc

private theorem advanceAdd_insert {s : FriendNotices} {senderId : UInt64} {req : AddFriendReq}
    (env : FriendEnv) (h : s.friends.find (senderId, req.receiverId) = none) :
    advanceAdd c findById s ⟨senderId, req, .insert⟩ .ok env =
      ({ s with
        friends := s.friends.insertRow senderId req.receiverId .pending req.verifyMsg
          env.createdAt h },
        some ⟨senderId, req, .findById (UInt64.ofNat s.friends.nextId)⟩) := by
  unfold advanceAdd
  dsimp only
  split
  · rename_i row hrow
    rw [h] at hrow
    cases hrow
  · rfl

private theorem finish_push (s : FriendNotices) (call : AddFriendCall) (env : FriendEnv) (reqId : UInt64)
    (name : String) :
    let r := (Threads.finish (fun s call => advanceAdd c findById s call .ok env) 2 s
      (call.goto (.push reqId name))).1
    (r.friends, r.push) =
      (s.friends, s.push.sendAll c [(call.req.receiverId, reqPush call env reqId name)]) := by
  have hlook : advanceAdd c findById s (call.goto (.push reqId name)) .ok env =
      match s.push.pushItem c (call.req.receiverId, reqPush call env reqId name) with
      | none => (s, none)
      | some item => (s, some (call.goto (.enqueue item))) := rfl
  simp only [Threads.finish, hlook, PushService.sendAll, List.filterMap_cons, List.filterMap_nil]
  cases s.push.pushItem c (call.req.receiverId, reqPush call env reqId name) with
  | none => simp only [List.append_nil]
  | some item => rfl

/-- A call that nothing comes in between does what `FriendService.addFriend` does. -/
theorem finish_addFriend (s : FriendNotices) (senderId : UInt64) (req : AddFriendReq)
    (env : FriendEnv) :
    let out := if env.ok then InsertOutcome.ok else .error false
    let r := (Threads.finish (fun s call => advanceAdd c findById s call out env) 5 s
      ⟨senderId, req, .existsQuery⟩).1
    (r.friends, r.push) =
      (FriendService.addFriend c findById env senderId req s.friends s.push).2 := by
  cases hok : env.ok with
  | false =>
    simp [Threads.finish, advanceAdd, InsertOutcome.success, FriendService.addFriend,
      FriendDao.addFriend, hok]
  | true =>
    simp only [if_true]
    cases hfind : s.friends.find (senderId, req.receiverId) with
    | some row =>
      have hdao := FriendDao.addFriend_of_find_some hfind env.createdAt req.verifyMsg
      simp [Threads.finish, advanceAdd, hok, hfind, FriendService.addFriend, hdao]
    | none =>
      have hdao := FriendDao.addFriend_of_find_none hfind env.createdAt req.verifyMsg
      have hexists : advanceAdd c findById s ⟨senderId, req, .existsQuery⟩ .ok env =
          (s, some ⟨senderId, req, .insert⟩) := if_pos ⟨rfl, hfind⟩
      have hinsert := advanceAdd_insert c findById env hfind
      simp only [FriendService.addFriend, hok, hdao, PushService.pushFriendReq,
        PushService.sendEnvelope_snd]
      rw [Threads.finish, hexists]
      dsimp only
      rw [Threads.finish, hinsert]
      exact finish_push c findById _ _ env _ _

variable {c username findById} {s t : FriendNotices} {a b : UInt64}

/-- The call has inserted the row of `a` and `b`, and goes on to tell `b`. -/
def Announces (a b : UInt64) (call : AddFriendCall) : Prop :=
  call.senderId = a ∧ call.req.receiverId = b ∧ call.pc ≠ .existsQuery ∧ call.pc ≠ .insert

/-- The task goes on to tell `b` of a pending request of `a`. -/
def Covers (a b : UInt64) (task : PendingTask) : Prop :=
  task.userId = b ∧
    match task.pc with
    | .query => True
    | .push reqs => a ∈ reqs.map FriendReqPush.senderId
    | .enqueue _ req reqs => a = req.senderId ∨ a ∈ reqs.map FriendReqPush.senderId

/-- `b` has been told of the request of `a`, or will be. -/
def Aware (s : FriendNotices) (a b : UInt64) : Prop :=
  a ∈ s.told b ∨ (∃ call ∈ s.adds, Announces a b call) ∨ b ∈ s.logins ∨
    ∃ task ∈ s.tasks, Covers a b task

/-- A request that waits for an answer of `b`, who is online. -/
structure Waits (username : UInt64 → Option String) (s : FriendNotices) (a b : UInt64) : Prop where
  receiver : b ≠ 0
  pending : s.friends.status a b = some .pending
  registered : (username a).isSome = true
  online : (s.push.findConnection b).isSome = true

def Informed (username : UInt64 → Option String) (s : FriendNotices) : Prop :=
  ∀ a b, s.Waits username a b → s.Aware a b

theorem pushItem_ne_none {push : PushService} {e : Envelope} (hserial : serializes c e = true)
    (hb : b ≠ 0) (honline : (push.findConnection b).isSome = true) :
    push.pushItem c (b, e) ≠ none := by
  unfold serializes at hserial
  unfold PushService.pushItem
  cases hdata : c.serialize e with
  | none =>
    rw [hdata] at hserial
    cases hserial
  | some data =>
    rw [hdata] at hserial
    have hne : data ≠ [] := by
      rintro rfl
      cases hserial
    have hnot : ¬ (b = 0 ∨ data = [] ∨ push.findConnection b = none) := by
      rintro (h | h | h)
      · exact hb h
      · exact hne h
      · rw [h] at honline
        cases honline
    simp only [if_neg hnot]
    exact Option.some_ne_none _

theorem mem_told_enqueue (s : FriendNotices) (userId senderId : UInt64) (item : PushItem) :
    a ∈ (s.enqueue userId senderId item).told b ↔
      a ∈ s.told b ∨ b = userId ∧ a = senderId := by
  unfold enqueue
  by_cases hb : b = userId
  · simp [hb]
  · simp [hb]

/-- A step of a call keeps what `b` knows or will know, if it sees to its own request. -/
theorem Aware.add {i : ℕ} {call : AddFriendCall} {r : FriendNotices × Option AddFriendCall}
    (hi : s.adds[i]? = some call) (h : s.Aware a b) (hlogins : r.1.logins = s.logins)
    (htasks : r.1.tasks = s.tasks) (htold : a ∈ s.told b → a ∈ r.1.told b)
    (hcall : Announces a b call → a ∈ r.1.told b ∨ ∃ next ∈ r.2, Announces a b next) :
    Aware { r.1 with adds := Threads.advance s.adds i r.2 } a b := by
  unfold Aware
  rw [Threads.exists_mem_advance hi, hlogins, htasks]
  rcases h with h | h | h | h
  · exact .inl (htold h)
  · rcases (Threads.exists_mem_iff hi).mp h with hown | hother
    · rcases hcall hown with h | h
      · exact .inl h
      · exact .inr (.inl (.inl h))
    · exact .inr (.inl (.inr hother))
  · exact .inr (.inr (.inl h))
  · exact .inr (.inr (.inr h))

theorem Aware.task {i : ℕ} {task : PendingTask} {r : FriendNotices × Option PendingTask}
    (hi : s.tasks[i]? = some task) (h : s.Aware a b) (hadds : r.1.adds = s.adds)
    (hlogins : r.1.logins = s.logins) (htold : a ∈ s.told b → a ∈ r.1.told b)
    (htask : Covers a b task → a ∈ r.1.told b ∨ ∃ next ∈ r.2, Covers a b next) :
    Aware { r.1 with tasks := Threads.advance s.tasks i r.2 } a b := by
  unfold Aware
  rw [Threads.exists_mem_advance hi, hadds, hlogins]
  rcases h with h | h | h | h
  · exact .inl (htold h)
  · exact .inr (.inl h)
  · exact .inr (.inr (.inl h))
  · rcases (Threads.exists_mem_iff hi).mp h with hown | hother
    · rcases htask hown with h | h
      · exact .inl h
      · exact .inr (.inr (.inr (.inl h)))
    · exact .inr (.inr (.inr (.inr hother)))

private theorem serves_push {i : ℕ} {call : AddFriendCall} {out : InsertOutcome} {env : FriendEnv}
    {reqId : UInt64} {name : String} (hi : s.adds[i]? = some call) (hpc : call.pc = .push reqId name)
    (h : serves c s (.add i out env) = true) : serializes c (reqPush call env reqId name) = true := by
  obtain ⟨senderId, req, pc⟩ := call
  obtain rfl : pc = .push reqId name := hpc
  simpa only [serves, hi] using h

private theorem serves_insert {i : ℕ} {call : AddFriendCall} {out : InsertOutcome} {env : FriendEnv}
    (hi : s.adds[i]? = some call) (hpc : call.pc = .insert)
    (h : serves c s (.add i out env) = true) : out ≠ .error true := by
  obtain ⟨senderId, req, pc⟩ := call
  obtain rfl : pc = .insert := hpc
  simpa only [serves, hi, decide_eq_true_eq] using h

/-- A step of `AddFriend`. The row is there before the call looks for the receiver. -/
theorem Informed.add (h : Informed username s) {i : ℕ} {out : InsertOutcome} {env : FriendEnv}
    (hserves : serves c s (.add i out env) = true)
    (hstep : step c username findById s (.add i out env) = some t) : Informed username t := by
  obtain ⟨call, hi, rfl⟩ := Option.map_eq_some_iff.mp hstep
  have hadds := adds_advanceAdd c findById s call out env
  dsimp only
  generalize advanceAdd c findById s call out env = r at hadds ⊢
  intro a b hwaits
  have hnext : ∀ pc, pc ≠ .existsQuery → pc ≠ .insert → Announces a b call →
      Announces a b (call.goto pc) := fun pc h₁ h₂ hcall => ⟨hcall.1, hcall.2.1, h₁, h₂⟩
  cases hadds with
  | refused hpc =>
    refine (h a b ⟨hwaits.1, hwaits.2, hwaits.3, hwaits.4⟩).add hi rfl rfl id fun hcall => ?_
    rcases hpc with hpc | hpc
    · exact absurd hpc hcall.2.2.1
    · exact absurd hpc hcall.2.2.2
  | absent hpc =>
    refine (h a b ⟨hwaits.1, hwaits.2, hwaits.3, hwaits.4⟩).add hi rfl rfl id fun hcall => ?_
    exact absurd hpc hcall.2.2.1
  | inserted hpc hfind =>
    have hpending := hwaits.pending
    rw [FriendTable.status_insertRow] at hpending
    by_cases hnew : (a, b) = (call.senderId, call.req.receiverId)
    · obtain ⟨rfl, rfl⟩ := Prod.mk.inj hnew
      refine .inr (.inl ((Threads.exists_mem_advance hi).mpr (.inl ⟨_, rfl, rfl, rfl, ?_, ?_⟩)))
      · exact nofun
      · exact nofun
    · rw [if_neg hnew] at hpending
      refine (h a b ⟨hwaits.1, hpending, hwaits.3, hwaits.4⟩).add hi rfl rfl id fun hcall => ?_
      exact absurd hpc hcall.2.2.2
  | lost hpc hout hfind => exact absurd hout (serves_insert hi hpc hserves)
  | named reqId hpc =>
    refine (h a b ⟨hwaits.1, hwaits.2, hwaits.3, hwaits.4⟩).add hi rfl rfl id fun hcall => ?_
    exact .inr ⟨_, rfl, hnext _ nofun nofun hcall⟩
  | unheard reqId name hpc hnone =>
    refine (h a b ⟨hwaits.1, hwaits.2, hwaits.3, hwaits.4⟩).add hi rfl rfl id fun hcall => ?_
    rw [hcall.2.1] at hnone
    exact absurd hnone (pushItem_ne_none (serves_push hi hpc hserves) hwaits.1 hwaits.4)
  | heard reqId name item hpc =>
    refine (h a b ⟨hwaits.1, hwaits.2, hwaits.3, hwaits.4⟩).add hi rfl rfl id fun hcall => ?_
    exact .inr ⟨_, rfl, hnext _ nofun nofun hcall⟩
  | enqueued item hpc =>
    refine (h a b ⟨hwaits.1, hwaits.2, hwaits.3, hwaits.4⟩).add hi rfl rfl ?_ fun hcall => ?_
    · exact fun hold => (s.mem_told_enqueue _ _ item).mpr (.inl hold)
    · exact .inl ((s.mem_told_enqueue _ _ item).mpr (.inr ⟨hcall.2.1.symm, hcall.1.symm⟩))

/-- The query finds the pending rows of registered senders. -/
theorem mem_getPendingRequests {friends : FriendTable} (hpending : friends.status a b = some .pending)
    (hregistered : (username a).isSome = true) :
    a ∈ (FriendDao.getPendingRequests friends username b).map FriendReqPush.senderId := by
  obtain ⟨row, hrow, hstatus⟩ := Option.map_eq_some_iff.mp hpending
  obtain ⟨hmem, hkey⟩ := friends.find_eq_some_iff.mp hrow
  obtain ⟨name, hname⟩ := Option.isSome_iff_exists.mp hregistered
  obtain ⟨rfl, rfl⟩ := Prod.mk.inj hkey
  let req : FriendReqPush :=
    { reqId := UInt64.ofNat row.id, senderId := row.userId, senderName := name
      verifyMsg := row.verifyMsg, timestamp := row.createdAt }
  refine List.mem_map.mpr ⟨req, List.mem_filterMap.mpr ⟨row, hmem, ?_⟩, rfl⟩
  rw [if_pos ⟨rfl, hstatus⟩, hname]
  rfl

theorem serves_task {i : ℕ} {task : PendingTask} {env : FriendEnv} (hi : s.tasks[i]? = some task)
    (h : serves c s (.task i env) = true) :
    (task.pc = .query → env.ok = true) ∧ ∀ req reqs, task.pc = .push (req :: reqs) →
      serializes c (pendingPush env req) = true := by
  obtain ⟨userId, pc⟩ := task
  constructor
  · intro hpc
    obtain rfl : pc = .query := hpc
    simpa only [serves, hi] using h
  · intro req reqs hpc
    obtain rfl : pc = .push (req :: reqs) := hpc
    simpa only [serves, hi] using h

/-- A step of a task. The user is online before the query. -/
theorem Informed.task (h : Informed username s) {i : ℕ} {env : FriendEnv}
    (hserves : serves c s (.task i env) = true)
    (hstep : step c username findById s (.task i env) = some t) : Informed username t := by
  obtain ⟨task, hi, rfl⟩ := Option.map_eq_some_iff.mp hstep
  obtain ⟨hquery, hserial⟩ := serves_task hi hserves
  have htasks := tasks_advanceTask c username s task env
  dsimp only
  generalize advanceTask c username s task env = r at htasks ⊢
  intro a b hwaits
  cases htasks with
  | queried hpc =>
    refine (h a b ⟨hwaits.1, hwaits.2, hwaits.3, hwaits.4⟩).task hi rfl rfl id fun hcovers => ?_
    refine .inr ⟨_, rfl, hcovers.1, ?_⟩
    have hfound := mem_getPendingRequests hwaits.2 hwaits.3
    rw [hquery hpc, if_pos rfl, hcovers.1]
    exact hfound
  | done hpc =>
    refine (h a b ⟨hwaits.1, hwaits.2, hwaits.3, hwaits.4⟩).task hi rfl rfl id fun hcovers => ?_
    have hnone := hcovers.2
    rw [hpc] at hnone
    cases hnone
  | unheard req reqs hpc hnone =>
    refine (h a b ⟨hwaits.1, hwaits.2, hwaits.3, hwaits.4⟩).task hi rfl rfl id fun hcovers => ?_
    rw [hcovers.1] at hnone
    exact absurd hnone (pushItem_ne_none (hserial req reqs hpc) hwaits.1 hwaits.4)
  | heard req reqs item hpc =>
    refine (h a b ⟨hwaits.1, hwaits.2, hwaits.3, hwaits.4⟩).task hi rfl rfl id fun hcovers => ?_
    have hsome := hcovers.2
    rw [hpc] at hsome
    exact .inr ⟨_, rfl, hcovers.1, List.mem_cons.mp hsome⟩
  | enqueued item req reqs hpc =>
    refine (h a b ⟨hwaits.1, hwaits.2, hwaits.3, hwaits.4⟩).task hi rfl rfl ?_ fun hcovers => ?_
    · exact fun hold => (s.mem_told_enqueue _ _ item).mpr (.inl hold)
    · have hsome := hcovers.2
      rw [hpc] at hsome
      rcases hsome with hown | hrest
      · exact .inl ((s.mem_told_enqueue _ _ item).mpr (.inr ⟨hcovers.1.symm, hown⟩))
      · exact .inr ⟨_, rfl, hcovers.1, hrest⟩

theorem pending_of_handleFriend {friends : FriendTable} {ok : Bool} {now : Int64}
    {receiverId senderId : UInt64} {accept : Bool}
    (h : (FriendDao.handleFriend friends ok now receiverId senderId accept).2.status a b =
      some .pending) : friends.status a b = some .pending := by
  unfold FriendDao.handleFriend at h
  split_ifs at h
  · dsimp only at h
    rw [FriendDao.status_acceptRows] at h
    split_ifs at h
    · cases h
    · obtain ⟨st, -, hst⟩ := Option.map_eq_some_iff.mp h
      cases hst
    · exact h
  · dsimp only at h
    rw [FriendTable.status_setStatus] at h
    split_ifs at h
    · obtain ⟨st, -, hst⟩ := Option.map_eq_some_iff.mp h
      cases hst
    · exact h
  · exact h

/-- A login starts with nothing told, and its task is still to come. -/
theorem Informed.login (h : Informed username s) {conn : ConnId} {userId : UInt64}
    (hstep : step c username findById s (.login conn userId) = some t) : Informed username t := by
  obtain rfl := Option.some.inj hstep
  intro a b hwaits
  by_cases hb : b = userId
  · exact .inr (.inr (.inl (List.mem_append_right _ (List.mem_singleton.mpr hb))))
  · have honline := hwaits.4
    simp only [PushService.findConnection_addClient, if_neg hb] at honline
    rcases h a b ⟨hwaits.1, hwaits.2, hwaits.3, honline⟩ with htold | hadd | hlogin | htask
    · left
      change a ∈ Function.update s.told userId [] b
      rwa [Function.update_of_ne hb]
    · exact .inr (.inl hadd)
    · exact .inr (.inr (.inl (List.mem_append_left _ hlogin)))
    · exact .inr (.inr (.inr htask))

theorem Informed.addTask (h : Informed username s) {i : ℕ}
    (hstep : step c username findById s (.addTask i) = some t) : Informed username t := by
  obtain ⟨userId, hi, rfl⟩ := Option.map_eq_some_iff.mp hstep
  intro a b hwaits
  rcases h a b ⟨hwaits.1, hwaits.2, hwaits.3, hwaits.4⟩ with htold | hadd | hlogin | htask
  · exact .inl htold
  · exact .inr (.inl hadd)
  · rcases (Threads.mem_iff hi).mp hlogin with hown | hother
    · refine .inr (.inr (.inr ⟨⟨userId, .query⟩, List.mem_append_right _ List.mem_cons_self, ?_⟩))
      exact ⟨hown.symm, trivial⟩
    · exact .inr (.inr (.inl hother))
  · obtain ⟨task, hmem, hcovers⟩ := htask
    exact .inr (.inr (.inr ⟨task, List.mem_append_left _ hmem, hcovers⟩))

theorem Informed.step (h : Informed username s) {act : Action} (hserves : serves c s act = true)
    (hstep : step c username findById s act = some t) : Informed username t := by
  cases act with
  | addFriend senderId req =>
    obtain rfl := Option.some.inj hstep
    intro a b hwaits
    rcases h a b ⟨hwaits.1, hwaits.2, hwaits.3, hwaits.4⟩ with htold | ⟨call, hmem, hcall⟩ | hrest
    · exact .inl htold
    · exact .inr (.inl ⟨call, List.mem_append_left _ hmem, hcall⟩)
    · exact .inr (.inr hrest)
  | add i out env => exact h.add hserves hstep
  | handleFriend receiverId senderId accept env =>
    obtain rfl := Option.some.inj hstep
    intro a b hwaits
    exact h a b ⟨hwaits.1, pending_of_handleFriend hwaits.2, hwaits.3, hwaits.4⟩
  | login conn userId => exact h.login hstep
  | addTask i => exact h.addTask hstep
  | task i env => exact h.task hserves hstep
  | close userId =>
    obtain rfl := Option.some.inj hstep
    intro a b hwaits
    have honline := hwaits.4
    simp only [PushService.findConnection_removeClient] at honline
    split_ifs at honline
    · cases honline
    · exact h a b ⟨hwaits.1, hwaits.2, hwaits.3, honline⟩
  | flush maxCount =>
    obtain rfl := Option.some.inj hstep
    intro a b hwaits
    exact h a b ⟨hwaits.1, hwaits.2, hwaits.3, hwaits.4⟩

/-- In every interleaving of friend requests, answers to them, logins, closings and tasks, in which
envelopes can be sent, the tasks' queries are served and no insert is applied that is reported as
failed: when no call, login or task for a user is under way who is online, every pending request to
them has been queued for them since they came online. -/
theorem online_user_told (c : Codec) (username : UInt64 → Option String) (findById : UInt64 → User)
    (hash : UInt64 → ℕ) (friends : FriendTable) (as : List Action) (s : FriendNotices)
    (hrun : Steps.run (step c username findById) (init hash friends) as = some s)
    (hserves : Steps.Meets (step c username findById) (fun s a => serves c s a = true)
      (init hash friends) as)
    (b : UInt64) (hb : b ≠ 0) (honline : (s.push.findConnection b).isSome = true)
    (hadds : ∀ call ∈ s.adds, call.req.receiverId ≠ b) (hlogins : b ∉ s.logins)
    (htasks : ∀ task ∈ s.tasks, task.userId ≠ b) (a : UInt64)
    (hpending : s.friends.status a b = some .pending) (hregistered : (username a).isSome = true) :
    a ∈ s.told b := by
  have hinformed : Informed username s := by
    refine Steps.invariant_of_meets (fun _ _ _ h hC hstep => Informed.step h hC hstep) ?_ hserves hrun
    intro a b hwaits
    exact absurd hwaits.4 Bool.false_ne_true
  rcases hinformed a b ⟨hb, hpending, hregistered, honline⟩ with
    htold | ⟨call, hmem, hcall⟩ | hlogin | ⟨task, hmem, hcovers⟩
  · exact htold
  · exact absurd hcall.2.1 (hadds call hmem)
  · exact absurd hlogin hlogins
  · exact absurd hcovers.1 (htasks task hmem)

/-- User 2 comes online while the call of user 1 stands between the insert and the look at the
registry, so that the call and the task both tell them. -/
def askedAtLogin : List Action :=
  [.addFriend 1 { receiverId := 2 }, .add 0 .ok {}, .add 0 .ok {}, .add 0 .ok {}, .login 0 2,
    .addTask 0, .task 0 {}, .add 0 .ok {}, .task 0 {}, .add 0 .ok {}, .task 0 {}, .task 0 {}]

def askedCodec : Codec :=
  .ofTable
    [(pendingPush {} { reqId := 1, senderId := 1, senderName := "ann" },
      [0x10, 7, 0xD2, 0x0C, 9, 0x08, 1, 0x10, 1, 0x1A, 3, 97, 110, 110])]
    (by decide)

theorem online_user_told_asked_at_login :
    ∃ s, Steps.run (step askedCodec (fun _ => some "ann") fun _ => { username := "ann" })
        (init (fun _ => 0) .empty) askedAtLogin = some s ∧
      s.push.pushQueue.length = 2 ∧ 1 ∈ s.told 2 := by
  have hserves : Steps.Meets
      (step askedCodec (fun _ => some "ann") fun _ => { username := "ann" })
      (fun s a => serves askedCodec s a = true) (init (fun _ => 0) .empty) askedAtLogin := by decide
  refine ⟨_, rfl, by decide, ?_⟩
  exact online_user_told _ _ _ _ _ _ _ rfl hserves 2 (by decide) (by decide) (by decide) (by decide)
    (by decide) 1 (by decide) rfl

end FriendNotices
end TermChat
