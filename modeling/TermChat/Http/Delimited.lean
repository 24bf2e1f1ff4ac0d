import TermChat.Base.Headed
import TermChat.Http.Response

/-! What an HTTP connection sends, as the client at the other end reads it: status lines, headers and
bodies of the announced length, one response for every call of `Process`. Nothing of a request gets
into a response but the choice of the file. -/
namespace TermChat

namespace HttpResponse

def lengthName : Bytes := ascii "Content-length: "

variable (fs : FileSystem) (srcDir : Bytes)

/-- The body of the response: the file, or a page that says that there is none. -/
def shownBody (r : HttpResponse) : Option Bytes :=
  (addContent fs srcDir (shownPath fs srcDir r) (shownSize fs srcDir r) (shownCode fs srcDir r)).map
    fun content => content.2.getD (errorPage (shownCode fs srcDir r) "File NotFound!")

def message (r : HttpResponse) : Option Headed.Message :=
  (shownBody fs srcDir r).map fun body =>
    ⟨ascii (stateText (shownCode fs srcDir r)),
      headerLines r.isKeepAlive (shownPath fs srcDir r) body.length, body⟩

/-- The bytes of the response, the file behind the buffer. -/
def reply (r : HttpResponse) : Bytes := text fs srcDir r ++ (mapped fs srcDir r).getD []

variable {fs srcDir} {r : HttpResponse}

private theorem shownCode_mem (r : HttpResponse) :
    shownCode fs srcDir r ∈ [200, 400, 403, 404] := by
  unfold shownCode
  split_ifs with h
  · unfold codeStatus at h
    split_ifs at h with h200 h400 h403 h404
    · simp [h200]
    · simp [h400]
    · simp [h403]
    · simp [h404]
    · cases h
  · simp

private theorem cr_notMem_stateText {code : ℤ} (h : code ∈ [200, 400, 403, 404]) :
    13 ∉ ascii (stateText code) := by
  have hall : ∀ code ∈ [200, 400, 403, 404], 13 ∉ ascii (stateText code) := by decide +kernel
  exact hall code h

private theorem stateLine_eq (code : ℤ) :
    stateLine code = ascii (stateText code) ++ Headed.crlf := by
  have hcrlf : ascii "\r\n" = Headed.crlf := by decide
  rw [stateLine, ascii_append, hcrlf]

theorem shownSize_eq {othersRead mayOpen : Bool} {content : Bytes}
    (h : stat fs srcDir (shownPath fs srcDir r) = some (.file othersRead mayOpen content)) :
    shownSize fs srcDir r = content.length := by
  unfold shownSize
  unfold shownPath at h
  cases hcode : codePath (checkedCode fs srcDir r) with
  | none =>
    rw [hcode, Option.getD_none] at h
    simp only [h, Option.map_some, Option.getD_some, FileNode.size]
  | some path =>
    rw [hcode, Option.getD_some] at h
    simp only [h, Option.map_some, Option.getD_some, FileNode.size]

private theorem bodyLength_headerLines (isKeepAlive : Bool) (path : Bytes) (size : ℕ) :
    Headed.bodyLength lengthName (headerLines isKeepAlive path size) = some size := by
  have hkeep : ¬ lengthName <+: ascii "Connection: keep-alive" := by decide
  have hmax : ¬ lengthName <+: ascii "keep-alive: max=6, timeout=120" := by decide
  have hclose : ¬ lengthName <+: ascii "Connection: close" := by decide
  have htype : ¬ lengthName <+: ascii ("Content-type: " ++ getFileType path) := by
    rintro ⟨rest, heq⟩
    -- the ninth byte differs
    have hnine := congrArg (List.take 9) heq
    rw [ascii_append, List.take_append_of_le_length (by decide),
      List.take_append_of_le_length (by decide)] at hnine
    exact absurd hnine (by decide)
  have hlength : lengthName <+: ascii ("Content-length: " ++ toString size) := by
    rw [ascii_append]
    exact List.prefix_append _ _
  have hnumber : Headed.number ((ascii ("Content-length: " ++ toString size)).drop lengthName.length) =
      some size := by
    rw [ascii_append, show ascii "Content-length: " = lengthName from rfl, List.drop_left]
    exact Headed.number_digits size
  cases isKeepAlive with
  | false =>
    simp only [Headed.bodyLength, headerLines, Bool.false_eq_true, if_false, List.cons_append,
      List.nil_append, List.findSome?_cons, if_neg hclose, if_neg htype, if_pos hlength, hnumber]
  | true =>
    simp only [Headed.bodyLength, headerLines, if_true, List.cons_append, List.nil_append,
      List.findSome?_cons, if_neg hkeep, if_neg hmax, if_neg htype, if_pos hlength, hnumber]

theorem delimited_message {m : Headed.Message} (h : message fs srcDir r = some m) :
    m.Delimited lengthName := by
  obtain ⟨body, -, rfl⟩ := Option.map_eq_some_iff.mp h
  exact ⟨cr_notMem_stateText (shownCode_mem r), headerLines_ok _ _ _, bodyLength_headerLines _ _ _⟩

theorem addContent_cases {path content : Bytes} {size : ℕ} {code : ℤ} {file : Option Bytes}
    (h : addContent fs srcDir path size code = some (content, file)) :
    (file = none ∧ content = errorContent code "File NotFound!") ∨
      ∃ othersRead body, stat fs srcDir path = some (.file othersRead true body) ∧
        file = some body ∧ content = contentLength size := by
  unfold addContent at h
  split at h
  · cases h
    exact .inl ⟨rfl, rfl⟩
  · cases h
  · rename_i othersRead mayOpen body hstat
    split_ifs at h with hopen hsize hones
    · cases h
      exact .inl ⟨rfl, rfl⟩
    · cases h
      exact .inl ⟨rfl, rfl⟩
    · cases h
      rw [Bool.not_eq_false] at hopen
      subst hopen
      exact .inr ⟨othersRead, body, hstat, rfl, rfl⟩

theorem reply_eq {m : Headed.Message} (h : message fs srcDir r = some m) :
    reply fs srcDir r = m.encode := by
  obtain ⟨body, hbody, rfl⟩ := Option.map_eq_some_iff.mp h
  obtain ⟨⟨content, file⟩, hcontent, rfl⟩ := Option.map_eq_some_iff.mp hbody
  have hmake : makeResponse fs srcDir r = some
      (stateLine (shownCode fs srcDir r) ++ header r.isKeepAlive (shownPath fs srcDir r) ++ content,
        file) := by
    simp only [makeResponse, hcontent]
    rfl
  have hhead : ∀ size body, stateLine (shownCode fs srcDir r) ++
      header r.isKeepAlive (shownPath fs srcDir r) ++ (contentLength size ++ body) =
      Headed.Message.encode ⟨ascii (stateText (shownCode fs srcDir r)),
        headerLines r.isKeepAlive (shownPath fs srcDir r) size, body⟩ := by
    intro size body
    have hlines := header_contentLength r.isKeepAlive (shownPath fs srcDir r) size
    rw [← List.append_assoc, List.append_assoc _ _ (contentLength size), hlines, stateLine_eq]
    simp only [Headed.Message.encode, List.append_assoc]
    rfl
  rw [reply, text, mapped, hmake]
  rcases addContent_cases hcontent with ⟨rfl, rfl⟩ | ⟨othersRead, body, hstat, rfl, rfl⟩
  · simp only [Option.map_some, Option.bind_some, Option.getD_some, Option.getD_none,
      List.append_nil]
    exact hhead _ _
  · simp only [Option.map_some, Option.bind_some, Option.getD_some]
    rw [List.append_assoc, shownSize_eq hstat]
    exact hhead _ _

/-- No file that can be opened is empty, and no error page is a directory. Otherwise `mmap` fails. -/
structure Servable (fs : FileSystem) (srcDir : Bytes) : Prop where
  files : ∀ path othersRead, fs path ≠ some (.file othersRead true [])
  pages : ∀ code path size, codePath code = some path → stat fs srcDir path ≠ some (.directory size)

/-- What is shown is no directory: for one, the error page of code 404 is shown instead. -/
theorem shownPath_not_directory (h : Servable fs srcDir) (r : HttpResponse) (size : ℕ) :
    stat fs srcDir (shownPath fs srcDir r) ≠ some (.directory size) := by
  cases hcode : codePath (checkedCode fs srcDir r) with
  | some path =>
    rw [shownPath, hcode, Option.getD_some]
    exact h.pages _ _ _ hcode
  | none =>
    rw [shownPath, hcode, Option.getD_none]
    intro hdir
    have hchecked : checkedCode fs srcDir r = 404 := by
      rw [checkedCode, hdir]
    rw [hchecked] at hcode
    cases hcode

theorem message_ne_none (h : Servable fs srcDir) (r : HttpResponse) :
    message fs srcDir r ≠ none := by
  have hcontent : addContent fs srcDir (shownPath fs srcDir r) (shownSize fs srcDir r)
      (shownCode fs srcDir r) ≠ none := by
    unfold addContent
    split
    · exact Option.some_ne_none _
    · rename_i size hdir
      exact absurd hdir (shownPath_not_directory h r size)
    · rename_i othersRead mayOpen content hfile
      have hsize := shownSize_eq hfile
      split_ifs with hopen hzero hones
      · exact Option.some_ne_none _
      · rw [Bool.not_eq_false] at hopen
        subst hopen
        rw [hzero] at hsize
        rw [List.length_eq_zero_iff.mp hsize.symm] at hfile
        exact absurd hfile (h.files _ _)
      · exact Option.some_ne_none _
      · exact Option.some_ne_none _
  simpa only [message, shownBody, Ne, Option.map_eq_none_iff] using hcontent

/-- A response that can be made is read as its message, whatever follows. -/
theorem reply_eq_encode (h : Servable fs srcDir) (r : HttpResponse) :
    ∃ m, message fs srcDir r = some m ∧ reply fs srcDir r = m.encode ∧ m.Delimited lengthName := by
  obtain ⟨m, hm⟩ := Option.ne_none_iff_exists'.mp (message_ne_none h r)
  exact ⟨m, hm, reply_eq hm, delimited_message hm⟩

theorem exists_messages (h : Servable fs srcDir) (rs : List HttpResponse) :
    ∃ ms : List Headed.Message, rs.map (message fs srcDir) = ms.map some ∧
      rs.flatMap (reply fs srcDir) = ms.flatMap Headed.Message.encode ∧
      ∀ m ∈ ms, m.Delimited lengthName := by
  induction rs with
  | nil => exact ⟨[], rfl, rfl, fun m hm => absurd hm List.not_mem_nil⟩
  | cons r rs ih =>
    obtain ⟨ms, hms, hreplies, hdelimited⟩ := ih
    obtain ⟨m, hm, hreply, hd⟩ := reply_eq_encode h r
    refine ⟨m :: ms, ?_, ?_, ?_⟩
    · rw [List.map_cons, List.map_cons, hm, hms]
    · rw [List.flatMap_cons, List.flatMap_cons, hreply, hreplies]
    · intro m' hm'
      rcases List.mem_cons.mp hm' with rfl | hm'
      · exact hd
      · exact hdelimited m' hm'

end HttpResponse

namespace HttpRequest

/-- The body that `ParsePost_` decodes as a form when it parses `text`. -/
def formBody (text : Bytes) : Option Bytes :=
  let req := (scan TcpConnection.keepForm {} text).2.1
  if req.method = ascii "POST" ∧
      req.header (ascii "Content-Type") = some (ascii "application/x-www-form-urlencoded") then
    some req.body
  else none

/-- If `text` has a form, it is decoded without leaving it. -/
def FormFits (text : Bytes) : Prop :=
  ∀ body ∈ formBody text, (parseFromUrlencoded body fun _ => none).isOk = true

instance (text : Bytes) : Decidable (FormFits text) :=
  inferInstanceAs (Decidable (∀ body ∈ formBody text, _))

end HttpRequest

namespace TcpConnection
open HttpState HttpResponse

/-- What the database answers to a login or a registration. -/
abbrev UserCheck := Bytes → Bytes → Bool → Bool

variable {σ : Type} (fs : FileSystem) (srcDir : Bytes) (c : Codec) (svc : Services σ) (out : HttpOut)

/-- The chunks arrive one after another; `process` runs after each, and `write` sends out what it has
set up. For each chunk, what `MakeResponse` is called for and the bytes that are sent; `none` if a
form is read out of bounds, behind which nothing is defined. -/
def served (conn : TcpConnection HttpState σ) :
    List (UserCheck × Bytes) → Option (List (HttpResponse × Bytes))
  | [] => some []
  | (dao, chunk) :: chunks =>
    let conn := { conn with readBuff := readAll conn.readBuff chunk }
    let (produced, conn') := process (handler (HttpRequest.formOf dao) (text fs srcDir)) c svc conn
    let later := served { conn' with writeBuff := conn'.writeBuff.retrieveAll } chunks
    match produced, conn'.protocol with
    | true, .http h =>
      let sent := { out with writeBuff := conn'.writeBuff }.setupIovForHttp (mapped fs srcDir h.response)
      if HttpRequest.FormFits conn.readBuff.readable then
        later.map ((h.response, sent.gathered) :: ·)
      else none
    | _, _ => later

/-- No chunk has a form that is read out of bounds, with `unread` in the buffer. -/
def FormsFit (unread : Bytes) : List (UserCheck × Bytes) → Prop
  | [] => True
  | (dao, chunk) :: chunks =>
    HttpRequest.FormFits (unread ++ chunk) ∧
      FormsFit (HttpRequest.scan (HttpRequest.formOf dao) {} (unread ++ chunk)).2.2 chunks

theorem writeBuff_process (form : HttpRequest → Form) {conn : TcpConnection HttpState σ}
    (makeResponse : HttpResponse → Bytes) (h : conn.TakesHttp) (hne : conn.readBuff.readable ≠ [])
    {h' : HttpState}
    (hproto : (process (handler form makeResponse) c svc conn).2.protocol = .http h') :
    (process (handler form makeResponse) c svc conn).2.writeBuff.readable =
      conn.writeBuff.readable ++ makeResponse h'.response := by
  have hwrites : ∀ conn : TcpConnection HttpState σ, ∀ h₀, conn.protocol = .http h₀ →
      conn.readBuff.readable ≠ [] →
      (process (handler form makeResponse) c svc conn).2.protocol = .http h' →
      (process (handler form makeResponse) c svc conn).2.writeBuff.readable =
        conn.writeBuff.readable ++ makeResponse h'.response := by
    intro conn h₀ hp hne hproto
    have hpos : conn.readBuff.readableBytes ≠ 0 := by
      rw [← Buffer.length_readable]
      exact fun h0 => hne (List.length_eq_zero_iff.mp h0)
    simp only [process, runHandler, hp, handler, HttpState.process, if_neg hpos] at hproto ⊢
    cases hproto
    exact Buffer.readable_append _ _
  rcases h with ⟨h₀, hp⟩ | ⟨hp, hhttp⟩
  · exact hwrites conn h₀ hp hne hproto
  · let conn' : TcpConnection HttpState σ :=
      { conn with protocol := .http (handler form makeResponse).init }
    have hsame : process (handler form makeResponse) c svc conn =
        process (handler form makeResponse) c svc conn' := by
      rw [process_of_undetermined _ c svc hp hne, process_of_determined _ c svc (by simp [conn'])]
      simp [determine, hhttp, conn']
    rw [hsame] at hproto ⊢
    exact hwrites conn' _ rfl hne hproto

variable {out}

theorem gathered_setup (hqueue : out.outgoingQueue = []) (wb : Buffer) (file : Option Bytes) :
    ({ out with writeBuff := wb }.setupIovForHttp file).gathered = wb.readable ++ file.getD [] := by
  have hsent := (HttpOut.sending_setup { out with writeBuff := wb } hqueue file).bytes
  rwa [List.nil_append] at hsent

/-- Every chunk is answered, with the bytes of its response. -/
theorem exists_served (hqueue : out.outgoingQueue = []) {conn : TcpConnection HttpState σ}
    {chunks : List (UserCheck × Bytes)} (hne : ∀ x ∈ chunks, x.2 ≠ [])
    (h : ∀ x ∈ chunks.head?, TakesHttp { conn with readBuff := readAll conn.readBuff x.2 })
    (hforms : FormsFit conn.readBuff.readable chunks) (hdrained : conn.writeBuff.readable = []) :
    ∃ rs : List HttpResponse, served fs srcDir c svc out conn chunks =
        some (rs.map fun r => (r, reply fs srcDir r)) ∧ rs.length = chunks.length := by
  induction chunks generalizing conn with
  | nil => exact ⟨[], rfl, rfl⟩
  | cons x chunks ih =>
    obtain ⟨dao, chunk⟩ := x
    let conn₁ : TcpConnection HttpState σ := { conn with readBuff := readAll conn.readBuff chunk }
    have hbytes : conn₁.readBuff.readable = conn.readBuff.readable ++ chunk := readable_readAll _ _
    have hread : conn₁.readBuff.readable ≠ [] := by
      rw [hbytes]
      exact List.append_ne_nil_of_right_ne_nil _ (hne (dao, chunk) List.mem_cons_self)
    have htakes : conn₁.TakesHttp := h (dao, chunk) rfl
    obtain ⟨h', hok, hproto, -, hleft⟩ :=
      process_takesHttp (HttpRequest.formOf dao) (text fs srcDir) c svc htakes hread
    have hwrote := writeBuff_process c svc (HttpRequest.formOf dao) (text fs srcDir) htakes hread hproto
    obtain ⟨hfits, hforms⟩ := hforms
    rw [← hbytes] at hfits hforms
    rw [← hleft] at hforms
    rw [served]
    generalize process (handler (HttpRequest.formOf dao) (text fs srcDir)) c svc conn₁ = step at *
    obtain ⟨produced, conn₂⟩ := step
    subst hok
    dsimp only at hproto hwrote hforms
    obtain ⟨rs, hlater, hlength⟩ : ∃ rs : List HttpResponse,
        served fs srcDir c svc out { conn₂ with writeBuff := conn₂.writeBuff.retrieveAll } chunks =
          some (rs.map fun r => (r, reply fs srcDir r)) ∧ rs.length = chunks.length :=
      ih (fun x hx => hne x (List.mem_cons_of_mem _ hx)) (fun _ _ => .inl ⟨h', hproto⟩) hforms
        (Buffer.readable_retrieveAll _)
    have hsent : ({ out with writeBuff := conn₂.writeBuff }.setupIovForHttp
        (mapped fs srcDir h'.response)).gathered = reply fs srcDir h'.response := by
      rw [gathered_setup hqueue, hwrote, hdrained, List.nil_append]
      rfl
    refine ⟨h'.response :: rs, ?_, congrArg Nat.succ hlength⟩
    simp only [hproto] at hlater ⊢
    rw [if_pos (show HttpRequest.FormFits (readAll conn.readBuff chunk).readable from hfits), hlater,
      hsent]
    rfl

/-- Whatever arrives on an HTTP connection, in whatever pieces and with forms that are decoded in
bounds, is answered with one response for each piece, and a client that reads what is sent by the
announced lengths gets these responses, with the files or error pages as their bodies. -/
theorem responses_delimited (fs : FileSystem) (srcDir : Bytes) (c : Codec) (svc : Services σ) (w : σ)
    (out : HttpOut) (hqueue : out.outgoingQueue = []) (hfs : Servable fs srcDir)
    (chunks : List (UserCheck × Bytes)) (hne : ∀ x ∈ chunks, x.2 ≠ [])
    (hfirst : ∀ x ∈ chunks.head?, isHttpRequest x.2 = true) (hforms : FormsFit [] chunks) :
    ∃ sent ms, served fs srcDir c svc out (init w) chunks = some sent ∧
      sent.length = chunks.length ∧
      Headed.readAll lengthName (sent.flatMap Prod.snd) = some ms ∧
      sent.map (fun x => message fs srcDir x.1) = ms.map some := by
  have htakes : ∀ x ∈ chunks.head?, TakesHttp { init (η := HttpState) w with
      readBuff := readAll (init (η := HttpState) w).readBuff x.2 } := by
    intro x hx
    have hread : (readAll (init (η := HttpState) w).readBuff x.2).readable = x.2 := by
      rw [readable_readAll]
      exact List.nil_append x.2
    refine .inr ⟨rfl, ?_⟩
    show isHttpRequest (readAll (init (η := HttpState) w).readBuff x.2).readable = true
    rw [hread]
    exact hfirst x hx
  obtain ⟨rs, hserved, hlength⟩ := exists_served fs srcDir c svc hqueue hne htakes hforms rfl
  obtain ⟨ms, hms, hreplies, hdelimited⟩ := exists_messages hfs rs
  refine ⟨_, ms, hserved, (List.length_map _).trans hlength, ?_, ?_⟩
  · rw [List.flatMap_map, hreplies]
    exact Headed.readAll_encode hdelimited
  · rw [List.map_map, ← hms]
    rfl

private theorem servable_onePage : Servable (onePage [1, 2, 3]) (ascii "/srv/resources/") := by
  have hfile : ∀ path node, onePage [1, 2, 3] path = some node → node = .file true true [1, 2, 3] := by
    intro path node h
    unfold onePage at h
    split_ifs at h
    exact (Option.some.inj h).symm
  constructor
  · intro path othersRead h
    cases hfile _ _ h
  · intro code path size _ h
    cases hfile _ _ h

/-- A request for a page, a form, and then something that is no request. -/
def pageAndForm : List (UserCheck × Bytes) :=
  [ascii "GET /page HTTP/1.1\r\n\r\n",
    ascii "POST /login HTTP/1.1\r\nContent-Type: application/x-www-form-urlencoded\r\n\r\nusername=%41",
    ascii "no request\r\n\r\n"].map fun chunk => (fun _ _ _ => false, chunk)

theorem responses_delimited_page :
    ∃ sent ms, served (onePage [1, 2, 3]) (ascii "/srv/resources/") heartbeatCodec (clockServices 0)
        freshOut (init ()) pageAndForm = some sent ∧
      Headed.readAll lengthName (sent.flatMap Prod.snd) = some ms ∧ sent.length = 3 := by
  have hforms : FormsFit [] pageAndForm :=
    ⟨by decide +kernel, by decide +kernel, by decide +kernel, trivial⟩
  obtain ⟨sent, ms, hserved, hlength, hread, -⟩ := responses_delimited (onePage [1, 2, 3])
    (ascii "/srv/resources/") heartbeatCodec (clockServices 0) () freshOut rfl servable_onePage
    pageAndForm (by decide) (by decide) hforms
  exact ⟨sent, ms, hserved, hread, hlength⟩

end TcpConnection
end TermChat
