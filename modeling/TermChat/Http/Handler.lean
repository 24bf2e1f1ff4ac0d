import TermChat.Core.Detection
import TermChat.Http.Get

/-! `HttpHandler::Process` under TCP segmentation. Every call with bytes in the buffer answers, and
it answers what stands there as if it were one request. -/
namespace TermChat
open Lines

/-- What `Init` is called with; the source directory is fixed. -/
structure HttpResponse where
  path : Bytes := []
  isKeepAlive : Bool := false
  code : ℤ := -1

structure HttpState where
  request : HttpRequest := {}
  response : HttpResponse := {}

namespace HttpState

def respond (ok : Bool) (request : HttpRequest) : HttpResponse :=
  if ok then ⟨request.path, request.isKeepAlive, 200⟩ else ⟨request.path, false, 400⟩

variable (form : HttpRequest → Form) (makeResponse : HttpResponse → Bytes)

def process (h : HttpState) (rb wb : Buffer) : Bool × HttpState × Buffer × Buffer :=
  if rb.readableBytes = 0 then (false, { h with request := {} }, rb, wb)
  else
    let (ok, request, rb) := HttpRequest.parse form {} rb
    let response := respond ok request
    (true, ⟨request, response⟩, rb, wb.append (makeResponse response))

def handler : HttpHandler HttpState where
  init := {}
  process := process form makeResponse

/-- A response, and what it is built from. -/
structure Answer where
  method : Bytes
  path : Bytes
  version : Bytes
  header : Bytes → Option Bytes
  response : HttpResponse

def answer (h : HttpState) : Answer :=
  ⟨h.request.method, h.request.path, h.request.version, h.request.header, h.response⟩

/-- What `process` answers to `text`. -/
def answerTo (text : Bytes) : Answer :=
  let out := HttpRequest.scan form {} text
  answer ⟨out.2.1, respond out.1 out.2.1⟩

theorem process_spec (h : HttpState) (rb wb : Buffer) (hne : rb.readable ≠ []) :
    (process form makeResponse h rb wb).1 = true ∧
      (process form makeResponse h rb wb).2.1.answer = answerTo form rb.readable ∧
      (process form makeResponse h rb wb).2.2.1.readable =
        (HttpRequest.scan form {} rb.readable).2.2 := by
  have hpos : rb.readableBytes ≠ 0 := by
    rw [← Buffer.length_readable]
    exact fun h0 => hne (List.length_eq_zero_iff.mp h0)
  obtain ⟨hok, hreq, hrest⟩ := HttpRequest.parseLoop_spec form {} rb
  unfold process
  simp only [if_neg hpos, HttpRequest.parse]
  refine ⟨trivial, ?_, hrest⟩
  unfold answerTo
  rw [hok, hreq]

end HttpState

namespace GetRequest
open HttpState

/-- The answer to a request: from its own path, version and headers. -/
def own (r : GetRequest) : Answer where
  method := ascii "GET"
  path := HttpRequest.parsePath r.path
  version := r.version
  header := headerMap r.headers fun _ => none
  response := ⟨HttpRequest.parsePath r.path, (r.parsed []).isKeepAlive, 200⟩

/-- The requests of which all bytes are among the first `n`. -/
def received : List GetRequest → ℕ → List GetRequest
  | [], _ => []
  | r :: rs, n => if r.encode.length ≤ n then r :: received rs (n - r.encode.length) else []

variable (form : HttpRequest → Form)

theorem answerTo_encode (r : GetRequest) (rest : Bytes) :
    answerTo form (r.encode ++ rest) = r.own := by
  obtain ⟨body, hscan⟩ := r.scan_encode form rest
  unfold answerTo
  rw [hscan]
  rfl

theorem left_encode (r : GetRequest) (rest : Bytes) :
    (HttpRequest.scan form {} (r.encode ++ rest)).2.2 = (line 13 10 rest).2.getD [] := by
  obtain ⟨body, hscan⟩ := r.scan_encode form rest
  rw [hscan]

/-- The answers to a list of chunks, with `unread` in the buffer. -/
def answersTo (unread : Bytes) : List Bytes → List Answer
  | [] => []
  | chunk :: chunks =>
    answerTo form (unread ++ chunk) ::
      answersTo (HttpRequest.scan form {} (unread ++ chunk)).2.2 chunks

theorem answersTo_encode (rs : List GetRequest) :
    answersTo form [] (rs.map encode) = rs.map own := by
  induction rs with
  | nil => rfl
  | cons r rs ih =>
    have hanswer := r.answerTo_encode form []
    have hleft := r.left_encode form []
    rw [List.append_nil] at hanswer hleft
    simp only [List.map_cons, answersTo, List.nil_append, hanswer, hleft]
    exact congrArg _ ih

theorem length_answersTo (unread : Bytes) (chunks : List Bytes) :
    (answersTo form unread chunks).length = chunks.length := by
  induction chunks generalizing unread with
  | nil => rfl
  | cons chunk chunks ih => simp [answersTo, ih]

theorem received_encode (rs : List GetRequest) (k : ℕ) :
    received rs ((rs.map encode).take k).flatten.length = rs.take k := by
  induction rs generalizing k with
  | nil => simp [received]
  | cons r rs ih =>
    cases k with
    | zero =>
      have hlong : ¬ r.encode.length ≤ 0 :=
        Nat.not_le_of_lt (List.length_pos_of_ne_nil r.encode_ne_nil)
      exact if_neg hlong
    | succ k =>
      simp only [List.map_cons, List.take_succ_cons, List.flatten_cons, List.length_append, received,
        if_pos (Nat.le_add_right _ _), Nat.add_sub_cancel_left, ih]

/-- A chunk that ends inside a request makes the next answer a wrong one. -/
theorem method_answerTo_cut (r : GetRequest) {rest chunk more behind : Bytes} (hrest : rest ≠ [])
    (hflat : rest ++ (chunk ++ more) = r.encode ++ behind) :
    (answerTo form ((line 13 10 rest).2.getD [] ++ chunk)).method ≠ ascii "GET" := by
  have hpiece : rest <+: r.encode ++ behind := ⟨_, hflat⟩
  rw [r.left_of_isPrefix hpiece]
  -- the place in the request at which the next call starts
  set j := min rest.length (r.requestLine.length + 2) with hj
  have hpos : 0 < j := by
    have := List.length_pos_of_ne_nil hrest
    omega
  have hdrop : rest.drop (r.requestLine.length + 2) = rest.drop j := by
    rcases Nat.le_total rest.length (r.requestLine.length + 2) with hle | hle
    · rw [List.drop_eq_nil_of_le hle, List.drop_eq_nil_of_le (by omega)]
    · rw [hj, Nat.min_eq_right hle]
  have hnext : rest.drop j ++ chunk <+: (r.encode ++ behind).drop j := by
    rw [← hflat, List.drop_append_of_le_length (by omega), ← List.append_assoc]
    exact List.prefix_append _ _
  rw [hdrop]
  exact r.method_of_cut form hpos (by omega) hnext

/-- After a first chunk with one answer, the first request is there, and not the second. -/
theorem of_received_singleton {rs : List GetRequest} {chunk more : Bytes}
    (hflat : chunk ++ more = rs.flatMap encode)
    (hone : (received rs chunk.length).length = 1) :
    ∃ r rs' rest, rs = r :: rs' ∧ chunk = r.encode ++ rest ∧ rest ++ more = rs'.flatMap encode ∧
      received rs' rest.length = [] := by
  cases rs with
  | nil => cases hone
  | cons r rs =>
    simp only [received] at hone
    split_ifs at hone with hle
    · obtain ⟨rest, rfl⟩ : r.encode <+: chunk :=
        List.prefix_of_prefix_length_le ⟨rs.flatMap encode, hflat.symm⟩ ⟨more, rfl⟩ hle
      refine ⟨r, rs, rest, rfl, rfl, ?_, ?_⟩
      · rw [List.append_assoc] at hflat
        exact List.append_cancel_left hflat
      · rw [List.length_append, Nat.add_sub_cancel_left, List.length_cons] at hone
        exact List.length_eq_zero_iff.mp (by omega)

/-- What is left over belongs to a request that goes on in the next chunk. -/
theorem exists_next {rs : List GetRequest} {rest : Bytes} {chunks : List Bytes} (hcut : rest ≠ [])
    (hflat : rest ++ chunks.flatten = rs.flatMap encode) (hnone : received rs rest.length = []) :
    ∃ r rs' chunk chunks', rs = r :: rs' ∧ chunks = chunk :: chunks' := by
  cases rs with
  | nil => exact absurd (List.append_eq_nil_iff.mp hflat).1 hcut
  | cons r rs =>
    cases chunks with
    | cons chunk chunks => exact ⟨r, rs, chunk, chunks, rfl, rfl⟩
    | nil =>
      have hlen := congrArg List.length hflat
      simp only [List.flatten_nil, List.append_nil, List.flatMap_cons, List.length_append] at hlen
      simp only [received, hlen, if_pos (Nat.le_add_right _ _)] at hnone
      cases hnone

/-- If after every chunk the requests received are the ones answered, the chunks are the requests. -/
theorem eq_encode_of_answersTo {rs : List GetRequest} {chunks : List Bytes}
    (hne : ∀ chunk ∈ chunks, chunk ≠ []) (hflat : chunks.flatten = rs.flatMap encode)
    (hall : ∀ k, answersTo form [] (chunks.take k) =
      (received rs (chunks.take k).flatten.length).map own) :
    chunks = rs.map encode := by
  induction chunks generalizing rs with
  | nil =>
    cases rs with
    | nil => rfl
    | cons r rs =>
      have hnil : r.encode ++ rs.flatMap encode = [] := hflat.symm
      exact absurd (List.append_eq_nil_iff.mp hnil).1 r.encode_ne_nil
  | cons chunk chunks ih =>
    have hone : (received rs chunk.length).length = 1 := by
      have hfirst := congrArg List.length (hall 1)
      simpa [length_answersTo] using hfirst.symm
    obtain ⟨r, rs, rest, rfl, rfl, hrest, hnone⟩ := of_received_singleton hflat hone
    have hanswer := r.answerTo_encode form rest
    have hleft := r.left_encode form rest
    by_cases hcut : rest = []
    · subst hcut
      rw [List.append_nil] at hanswer hleft ⊢
      congr 1
      apply ih (fun c hc => hne c (List.mem_cons_of_mem _ hc)) hrest
      intro k
      have hk := hall (k + 1)
      simpa [answersTo, hanswer, hleft, received, line] using hk
    · -- the rest of the chunk is lost for the next request
      obtain ⟨r', rs, chunk', chunks, rfl, rfl⟩ := exists_next hcut hrest hnone
      have hbad := method_answerTo_cut form r' hcut hrest
      have hmem : answerTo form ((line 13 10 rest).2.getD [] ++ chunk') ∈
          answersTo form [] (((r.encode ++ rest) :: chunk' :: chunks).take 2) := by
        simp [answersTo, hleft]
      rw [hall 2] at hmem
      obtain ⟨r'', -, hown⟩ := List.mem_map.mp hmem
      rw [← hown] at hbad
      exact absurd rfl hbad

end GetRequest

namespace TcpConnection
open HttpState GetRequest

variable {σ : Type} (form : HttpRequest → Form) (makeResponse : HttpResponse → Bytes) (c : Codec)
variable (svc : Services σ)

/-- The chunks arrive one after another; `process` runs after each, and what it produced is
written out. -/
def answers (conn : TcpConnection HttpState σ) : List Bytes → List Answer
  | [] => []
  | chunk :: chunks =>
    let (produced, conn) := process (handler form makeResponse) c svc
      { conn with readBuff := readAll conn.readBuff chunk }
    let later := answers { conn with writeBuff := conn.writeBuff.retrieveAll } chunks
    match produced, conn.protocol with
    | true, .http h => h.answer :: later
    | _, _ => later

/-- The bytes in the buffer go to the HTTP handler. -/
def TakesHttp (conn : TcpConnection HttpState σ) : Prop :=
  (∃ h, conn.protocol = .http h) ∨
    conn.protocol = .undetermined ∧ isHttpRequest conn.readBuff.readable = true

def Answered (text : Bytes) (out : Bool × TcpConnection HttpState σ) : Prop :=
  ∃ h, out.1 = true ∧ out.2.protocol = .http h ∧ h.answer = answerTo form text ∧
    out.2.readBuff.readable = (HttpRequest.scan form {} text).2.2

theorem process_http {conn : TcpConnection HttpState σ} {h : HttpState}
    (hp : conn.protocol = .http h) (hne : conn.readBuff.readable ≠ []) :
    Answered form conn.readBuff.readable (process (handler form makeResponse) c svc conn) := by
  obtain ⟨hok, hanswer, hread⟩ :=
    process_spec form makeResponse h conn.readBuff conn.writeBuff hne
  have hproc : process (handler form makeResponse) c svc conn =
      ((HttpState.process form makeResponse h conn.readBuff conn.writeBuff).1,
        { conn with
          readBuff := (HttpState.process form makeResponse h conn.readBuff conn.writeBuff).2.2.1
          writeBuff := (HttpState.process form makeResponse h conn.readBuff conn.writeBuff).2.2.2
          protocol := .http (HttpState.process form makeResponse h conn.readBuff conn.writeBuff).2.1 }) := by
    simp [process, runHandler, hp, handler]
  rw [hproc]
  exact ⟨_, hok, rfl, hanswer, hread⟩

theorem process_takesHttp {conn : TcpConnection HttpState σ} (h : conn.TakesHttp)
    (hne : conn.readBuff.readable ≠ []) :
    Answered form conn.readBuff.readable (process (handler form makeResponse) c svc conn) := by
  rcases h with ⟨h, hp⟩ | ⟨hp, hhttp⟩
  · exact process_http form makeResponse c svc hp hne
  · let conn' : TcpConnection HttpState σ :=
      { conn with protocol := .http (handler form makeResponse).init }
    have hsame : process (handler form makeResponse) c svc conn =
        process (handler form makeResponse) c svc conn' := by
      rw [process_of_undetermined _ c svc hp hne, process_of_determined _ c svc (by simp [conn'])]
      simp [determine, hhttp, conn']
    rw [hsame]
    exact process_http form makeResponse c svc (rfl : conn'.protocol = _) hne

/-- What the chunks are answered with depends on the bytes alone. -/
theorem answers_eq {conn : TcpConnection HttpState σ} {chunks : List Bytes}
    (hne : ∀ chunk ∈ chunks, chunk ≠ [])
    (h : ∀ chunk ∈ chunks.head?,
      TakesHttp { conn with readBuff := readAll conn.readBuff chunk }) :
    answers form makeResponse c svc conn chunks =
      answersTo form conn.readBuff.readable chunks := by
  induction chunks generalizing conn with
  | nil => rfl
  | cons chunk chunks ih =>
    let conn₁ : TcpConnection HttpState σ := { conn with readBuff := readAll conn.readBuff chunk }
    have hbytes : conn₁.readBuff.readable = conn.readBuff.readable ++ chunk := readable_readAll _ _
    have hread : conn₁.readBuff.readable ≠ [] := by
      rw [hbytes]
      exact List.append_ne_nil_of_right_ne_nil _ (hne chunk List.mem_cons_self)
    obtain ⟨h', hok, hproto, hanswer, hleft⟩ :=
      process_takesHttp form makeResponse c svc (h chunk rfl : conn₁.TakesHttp) hread
    let conn₂ : TcpConnection HttpState σ := (process (handler form makeResponse) c svc conn₁).2
    have hlater : answers form makeResponse c svc
        { conn₂ with writeBuff := conn₂.writeBuff.retrieveAll } chunks =
          answersTo form conn₂.readBuff.readable chunks :=
      ih (fun c hc => hne c (List.mem_cons_of_mem _ hc)) (fun _ _ => .inl ⟨h', hproto⟩)
    have hstep : answers form makeResponse c svc conn (chunk :: chunks) =
        h'.answer :: answers form makeResponse c svc
          { conn₂ with writeBuff := conn₂.writeBuff.retrieveAll } chunks := by
      show (match (process (handler form makeResponse) c svc conn₁).1, conn₂.protocol with
        | true, .http h => h.answer :: answers form makeResponse c svc
          { conn₂ with writeBuff := conn₂.writeBuff.retrieveAll } chunks
        | _, _ => answers form makeResponse c svc
          { conn₂ with writeBuff := conn₂.writeBuff.retrieveAll } chunks) = _
      rw [hok, hproto]
    rw [hstep, hanswer, hlater, hleft, hbytes]
    rfl

/-- A stream of requests is taken by the HTTP handler if its first chunk has four bytes. -/
theorem takesHttp_init {w : σ} {chunk more : Bytes} {rs : List GetRequest}
    (hlen : 4 ≤ chunk.length) (hflat : chunk ++ more = rs.flatMap encode) :
    TakesHttp { init (η := HttpState) w with readBuff := readAll (init (η := HttpState) w).readBuff chunk } := by
  refine .inr ⟨rfl, ?_⟩
  have hread : (readAll (init (η := HttpState) w).readBuff chunk).readable = chunk := by
    rw [readable_readAll]
    exact List.nil_append chunk
  show isHttpRequest (readAll (init (η := HttpState) w).readBuff chunk).readable = true
  rw [hread, isHttpRequest_iff_of_isPrefix ⟨more, hflat⟩]
  refine ⟨hlen, ?_⟩
  cases rs with
  | nil =>
    rw [(List.append_eq_nil_iff.mp hflat).1] at hlen
    cases hlen
  | cons r rs =>
    rw [List.flatMap_cons, encode_append, requestLine_eq]
    show ([71, 69, 84, 32] : Bytes) ∈ methods
    decide

/-- For every stream of requests and every way to cut it: after every chunk the requests received
so far are answered, once and in order, exactly if every chunk is one request. -/
theorem answers_iff_whole_requests (w : σ) (rs : List GetRequest) (chunks : List Bytes)
    (hne : ∀ chunk ∈ chunks, chunk ≠ []) (hflat : chunks.flatten = rs.flatMap encode)
    (hfirst : ∀ chunk ∈ chunks.head?, 4 ≤ chunk.length) :
    (∀ k, answers form makeResponse c svc (init w) (chunks.take k) =
        (received rs (chunks.take k).flatten.length).map own) ↔
      chunks = rs.map encode := by
  have hbytes : ∀ k, answers form makeResponse c svc (init w) (chunks.take k) =
      answersTo form [] (chunks.take k) := by
    intro k
    apply answers_eq form makeResponse c svc (fun chunk hc => hne chunk (List.mem_of_mem_take hc))
    intro chunk hc
    cases chunks with
    | nil => simp at hc
    | cons first chunks =>
      cases k with
      | zero => cases hc
      | succ k =>
        obtain rfl : first = chunk := Option.some.inj hc
        exact takesHttp_init (hfirst first rfl) hflat
  constructor
  · intro hall
    exact eq_encode_of_answersTo form hne hflat fun k => (hbytes k).symm.trans (hall k)
  · rintro rfl k
    rw [hbytes, received_encode, ← List.map_take, answersTo_encode]

/-- `GET / HTTP/1.1` without headers. -/
def rootRequest : GetRequest where
  path := ascii "/"
  version := ascii "1.1"
  headers := []
  path_ok := by
    have hpath : ascii "/" = [47] := by decide
    simp [hpath]
  version_ok := by
    have hversion : ascii "1.1" = [49, 46, 49] := by decide
    simp [hversion]
  header_ok := by simp

def keepForm (req : HttpRequest) : Form := ⟨req.path, req.body, req.post⟩

/-- Two requests in two chunks. -/
theorem answers_iff_whole_requests_root :
    answers keepForm (fun _ => []) heartbeatCodec (clockServices 0) (init ())
      [rootRequest.encode, rootRequest.encode] = [rootRequest.own, rootRequest.own] := by
  have hall := (answers_iff_whole_requests keepForm (fun _ => []) heartbeatCodec (clockServices 0) ()
    [rootRequest, rootRequest] [rootRequest.encode, rootRequest.encode] (by decide) (by decide)
    (by decide)).mpr rfl 2
  have hreceived := received_encode [rootRequest, rootRequest] 2
  exact hall.trans (congrArg (List.map own) hreceived)

/-- One request in two chunks: two answers, the first of them about a path that nobody asked for. -/
theorem two_answers_to_one_request :
    ∃ (r : GetRequest) (a b : Bytes), 4 ≤ a.length ∧ b ≠ [] ∧ a ++ b = r.encode ∧
      (answers keepForm (fun _ => []) heartbeatCodec (clockServices 0) (init ()) [a, b]).map
        (fun x => (x.path, x.response.code)) = [([], 400), (ascii "/index.html", 200)] := by
  have hsplit : ascii "GET /" ++ rootRequest.encode.drop 5 = [rootRequest].flatMap encode := by decide
  have htakes : ∀ chunk ∈ [ascii "GET /", rootRequest.encode.drop 5].head?,
      TakesHttp { init (η := HttpState) () with
        readBuff := readAll (init (η := HttpState) ()).readBuff chunk } := by
    intro chunk hc
    obtain rfl : ascii "GET /" = chunk := Option.some.inj hc
    exact takesHttp_init (by decide) hsplit
  -- the first line does not match, and stays in the buffer
  have hfailed : HttpRequest.scan keepForm {} (ascii "GET /") = (false, {}, ascii "GET /") :=
    HttpRequest.scan_failed (by decide) (by decide) rfl
  have hwhole : answerTo keepForm (ascii "GET /" ++ rootRequest.encode.drop 5) = rootRequest.own :=
    answerTo_encode keepForm rootRequest []
  refine ⟨rootRequest, ascii "GET /", rootRequest.encode.drop 5, by decide, by decide, by decide, ?_⟩
  rw [answers_eq keepForm _ heartbeatCodec (clockServices 0) (by decide) htakes]
  show [answerTo keepForm (ascii "GET /"), answerTo keepForm
    ((HttpRequest.scan keepForm {} (ascii "GET /")).2.2 ++ rootRequest.encode.drop 5)].map _ = _
  rw [hfailed, hwhole]
  simp only [answerTo, hfailed]
  rfl

end TcpConnection
end TermChat
