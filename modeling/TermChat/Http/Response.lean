import TermChat.Base.Decimal
import TermChat.Core.ScatterWrite
import TermChat.Http.Form
import TermChat.Http.Handler

/-! `HttpResponse`: the status line and the headers go into the write buffer, a file is mapped and
sent behind them. -/
namespace TermChat

/-- What the system calls find under a path; `mayOpen` is whether `open` succeeds. -/
inductive FileNode where
  | directory (size : ℕ)
  | file (othersRead mayOpen : Bool) (content : Bytes)
  deriving DecidableEq, Repr

def FileNode.size : FileNode → ℕ
  | .directory size => size
  | .file _ _ content => content.length

abbrev FileSystem := Bytes → Option FileNode

namespace HttpResponse

/-- A path as a system call reads it. -/
def cString (path : Bytes) : Bytes := path.takeWhile (· ≠ 0)

def suffixType : List (String × String) :=
  [(".html", "text/html"), (".xml", "text/xml"), (".xhtml", "application/xhtml+xml"),
    (".txt", "text/plain"), (".rtf", "application/rtf"), (".pdf", "application/pdf"),
    (".word", "application/nsword"), (".png", "image/png"), (".gif", "image/gif"),
    (".jpg", "image/jpeg"), (".jpeg", "image/jpeg"), (".au", "audio/basic"),
    (".mpeg", "video/mpeg"), (".mpg", "video/mpeg"), (".avi", "video/x-msvideo"),
    (".gz", "application/x-gzip"), (".tar", "application/x-tar"), (".css", "text/css "),
    (".js", "text/javascript ")]

def codeStatus (code : ℤ) : Option String :=
  if code = 200 then some "OK"
  else if code = 400 then some "Bad Request"
  else if code = 403 then some "Forbidden"
  else if code = 404 then some "Not Found"
  else none

def codePath (code : ℤ) : Option Bytes :=
  if code = 400 then some (ascii "/400.html")
  else if code = 403 then some (ascii "/403.html")
  else if code = 404 then some (ascii "/404.html")
  else none

def suffix (path : Bytes) : Option Bytes :=
  if 46 ∈ path then some (46 :: (path.reverse.takeWhile (· ≠ 46)).reverse) else none

def getFileType (path : Bytes) : String :=
  match suffix path with
  | none => "text/plain"
  | some s => ((suffixType.find? fun e => ascii e.1 = s).map Prod.snd).getD "text/plain"

variable (fs : FileSystem) (srcDir : Bytes)

/-- `stat` of `path` below the source directory. -/
def stat (path : Bytes) : Option FileNode := fs (cString (srcDir ++ path))

/-- The code after the tests of `MakeResponse`. -/
def checkedCode (r : HttpResponse) : ℤ :=
  match stat fs srcDir r.path with
  | none => 404
  | some (.directory _) => 404
  | some (.file othersRead _ _) =>
    if othersRead = false then 403 else if r.code = -1 then 200 else r.code

/-- `path_` behind `ErrorHtml_`. -/
def shownPath (r : HttpResponse) : Bytes := (codePath (checkedCode fs srcDir r)).getD r.path

/-- `mmFileStat_.st_size` behind `ErrorHtml_`; a `stat` that fails leaves it as it was. -/
def shownSize (r : HttpResponse) : ℕ :=
  let size := ((stat fs srcDir r.path).map FileNode.size).getD 0
  match codePath (checkedCode fs srcDir r) with
  | none => size
  | some path => ((stat fs srcDir path).map FileNode.size).getD size

/-- `code_` behind `AddStateLine_`. -/
def shownCode (r : HttpResponse) : ℤ :=
  if (codeStatus (checkedCode fs srcDir r)).isSome then checkedCode fs srcDir r else 400

/-- The status line without its end. -/
def stateText (code : ℤ) : String :=
  "HTTP/1.1 " ++ toString code ++ " " ++ (codeStatus code).getD "Bad Request"

def stateLine (code : ℤ) : Bytes := ascii (stateText code ++ "\r\n")

def header (isKeepAlive : Bool) (path : Bytes) : Bytes :=
  ascii "Connection: " ++
    (if isKeepAlive then ascii "keep-alive\r\n" ++ ascii "keep-alive: max=6, timeout=120\r\n"
      else ascii "close\r\n") ++
    ascii ("Content-type: " ++ getFileType path ++ "\r\n")

def contentLength (size : ℕ) : Bytes := ascii ("Content-length: " ++ toString size ++ "\r\n\r\n")

def errorPage (code : ℤ) (message : String) : Bytes :=
  ascii ("<html><title>Error</title>" ++ "<body bgcolor=\"ffffff\">" ++
    toString code ++ " : " ++ (codeStatus code).getD "Bad Request" ++ "\n" ++
    "<p>" ++ message ++ "</p>" ++ "<hr><em>WebServer</em></body></html>")

def errorContent (code : ℤ) (message : String) : Bytes :=
  let body := errorPage code message
  contentLength body.length ++ body

/-- `*mmRet == -1`: the first `int` of the mapping, which has zeros behind a short file. -/
def firstIntIsMinusOne (mapped : Bytes) : Bool :=
  (mapped ++ [0, 0, 0, 0]).take 4 = [255, 255, 255, 255]

/-- `AddContent_`, with the mapping that it leaves. `none` when `mmap` fails, which it does for a
directory and for a length of zero: then `MAP_FAILED` is dereferenced. -/
def addContent (path : Bytes) (size : ℕ) (code : ℤ) : Option (Bytes × Option Bytes) :=
  match stat fs srcDir path with
  | none => some (errorContent code "File NotFound!", none)
  | some (.directory _) => none
  | some (.file _ mayOpen content) =>
    if mayOpen = false then some (errorContent code "File NotFound!", none)
    else if size = 0 then none
    else if firstIntIsMinusOne content then some (errorContent code "File NotFound!", none)
    else some (contentLength size, some content)

/-- `MakeResponse`: what goes into the buffer, and the mapped file. -/
def makeResponse (r : HttpResponse) : Option (Bytes × Option Bytes) := do
  let path := shownPath fs srcDir r
  let code := shownCode fs srcDir r
  let (content, file) ← addContent fs srcDir path (shownSize fs srcDir r) code
  return (stateLine code ++ header r.isKeepAlive path ++ content, file)

def text (r : HttpResponse) : Bytes := ((makeResponse fs srcDir r).map Prod.fst).getD []

def mapped (r : HttpResponse) : Option Bytes := (makeResponse fs srcDir r).bind Prod.snd

/-- A response with status 200, the length of `content`, and `content` behind the blank line. -/
def IsFileResponse (reply content : Bytes) : Prop :=
  ∃ headers : List Bytes, (∀ line ∈ headers, line ≠ [] ∧ 13 ∉ line) ∧
    ascii ("Content-length: " ++ toString content.length) ∈ headers ∧
    reply = ascii "HTTP/1.1 200 OK\r\n" ++ headers.flatMap (fun line => line ++ [13, 10]) ++
      [13, 10] ++ content

theorem ascii_append (s t : String) : ascii (s ++ t) = ascii s ++ ascii t := by
  rw [ascii, String.toList_append, List.map_append]
  rfl

private theorem isDigit_of_mem_ascii {n : ℕ} {b : UInt8} (h : b ∈ ascii (toString n)) :
    48 ≤ b.toNat ∧ b.toNat ≤ 57 := by
  obtain ⟨c, hc, rfl⟩ := List.mem_map.mp h
  have hdigit := Decimal.isDigit_of_mem hc
  simp only [Char.isDigit, Bool.and_eq_true, decide_eq_true_eq] at hdigit
  have hlow : 48 ≤ c.val.toNat := UInt32.le_iff_toNat_le.mp hdigit.1
  have hhigh : c.val.toNat ≤ 57 := UInt32.le_iff_toNat_le.mp hdigit.2
  have hbyte : c.toUInt8.toNat = c.val.toNat % 2 ^ 8 := UInt32.toNat_toUInt8 c.val
  omega

theorem getFileType_mem (path : Bytes) :
    getFileType path ∈ "text/plain" :: suffixType.map Prod.snd := by
  unfold getFileType
  split
  · exact List.mem_cons_self
  · rename_i s _
    cases hfind : suffixType.find? fun e => ascii e.1 = s with
    | none => exact List.mem_cons_self
    | some e => exact List.mem_cons_of_mem _ (List.mem_map_of_mem (List.mem_of_find?_eq_some hfind))

theorem printable_of_mem_getFileType {path : Bytes} {b : UInt8}
    (h : b ∈ ascii (getFileType path)) : 32 ≤ b.toNat ∧ b.toNat ≤ 126 := by
  have htypes : ∀ t ∈ "text/plain" :: suffixType.map Prod.snd,
      (ascii t).all (fun b => 32 ≤ b.toNat ∧ b.toNat ≤ 126) = true := by decide +kernel
  have hprintable := List.all_eq_true.mp (htypes _ (getFileType_mem path)) b h
  exact of_decide_eq_true hprintable

def headerLines (isKeepAlive : Bool) (path : Bytes) (size : ℕ) : List Bytes :=
  (if isKeepAlive then [ascii "Connection: keep-alive", ascii "keep-alive: max=6, timeout=120"]
    else [ascii "Connection: close"]) ++
  [ascii ("Content-type: " ++ getFileType path), ascii ("Content-length: " ++ toString size)]

theorem header_contentLength (isKeepAlive : Bool) (path : Bytes) (size : ℕ) :
    header isKeepAlive path ++ contentLength size =
      (headerLines isKeepAlive path size).flatMap (fun line => line ++ [13, 10]) ++ [13, 10] := by
  have hcrlf : ascii "\r\n" = [13, 10] := by decide
  have hblank : ascii "\r\n\r\n" = [13, 10, 13, 10] := by decide
  have hclose : ascii "close\r\n" = ascii "close" ++ [13, 10] := by decide
  have hkeep : ascii "keep-alive\r\n" = ascii "keep-alive" ++ [13, 10] := by decide
  have hmax : ascii "keep-alive: max=6, timeout=120\r\n" =
      ascii "keep-alive: max=6, timeout=120" ++ [13, 10] := by decide
  have hconn : ascii "Connection: close" = ascii "Connection: " ++ ascii "close" := by decide
  have hconn' : ascii "Connection: keep-alive" = ascii "Connection: " ++ ascii "keep-alive" := by decide
  cases isKeepAlive <;>
    simp [header, contentLength, headerLines, ascii_append, hcrlf, hblank, hclose, hkeep, hmax,
      hconn, hconn']

theorem headerLines_ok (isKeepAlive : Bool) (path : Bytes) (size : ℕ) :
    ∀ line ∈ headerLines isKeepAlive path size, line ≠ [] ∧ 13 ∉ line := by
  have h13 : (13 : UInt8).toNat = 13 := rfl
  have htype : 13 ∉ ascii (getFileType path) := by
    intro h
    have hbounds := printable_of_mem_getFileType h
    omega
  have hdigits : 13 ∉ ascii (toString size) := by
    intro h
    have hbounds := isDigit_of_mem_ascii h
    omega
  have hctype : 13 ∉ ascii "Content-type: " ∧ ascii "Content-type: " ≠ [] := by decide
  have hclen : 13 ∉ ascii "Content-length: " ∧ ascii "Content-length: " ≠ [] := by decide
  have hfixed : ∀ line ∈ [ascii "Connection: keep-alive", ascii "keep-alive: max=6, timeout=120",
      ascii "Connection: close"], line ≠ [] ∧ 13 ∉ line := by decide
  have hnamed : ∀ name value : Bytes, 13 ∉ name ∧ name ≠ [] → 13 ∉ value →
      name ++ value ≠ [] ∧ 13 ∉ name ++ value := by
    intro name value hname hvalue
    simp [hname, hvalue]
  intro line hline
  simp only [headerLines, ascii_append, List.mem_append, List.mem_cons, List.not_mem_nil,
    or_false] at hline
  rcases hline with hline | rfl | rfl
  · apply hfixed
    split_ifs at hline with h
    · simp only [List.mem_cons, List.not_mem_nil, or_false] at hline
      rcases hline with rfl | rfl <;> simp
    · rw [List.mem_singleton.mp hline]
      simp
  · exact hnamed _ _ hctype htype
  · exact hnamed _ _ hclen hdigits

theorem firstIntIsMinusOne_iff (content : Bytes) :
    firstIntIsMinusOne content = true ↔ [255, 255, 255, 255] <+: content := by
  unfold firstIntIsMinusOne
  rw [decide_eq_true_eq]
  match content with
  | [] => decide
  | [a] => simp
  | [a, b] => simp
  | [a, b, c] => simp
  | a :: b :: c :: d :: rest =>
    simp [List.cons_prefix_cons, eq_comm]

section Served

variable {fs srcDir} {r : HttpResponse} {content : Bytes}
  (hfile : stat fs srcDir r.path = some (.file true true content)) (hcode : r.code = 200)
include hfile hcode

private theorem checkedCode_of_file : checkedCode fs srcDir r = 200 := by
  simp [checkedCode, hfile, hcode]

theorem makeResponse_of_file (hne : content ≠ []) :
    makeResponse fs srcDir r = some
      (if firstIntIsMinusOne content then
        (stateLine 200 ++ header r.isKeepAlive r.path ++ errorContent 200 "File NotFound!", none)
      else
        (stateLine 200 ++ header r.isKeepAlive r.path ++ contentLength content.length,
          some content)) := by
  have hchecked := checkedCode_of_file hfile hcode
  have hpath : shownPath fs srcDir r = r.path := by
    rw [shownPath, hchecked]
    rfl
  have hsize : shownSize fs srcDir r = content.length := by
    rw [shownSize, hchecked, hfile]
    rfl
  have hshown : shownCode fs srcDir r = 200 := by
    rw [shownCode, hchecked]
    rfl
  have hlen : content.length ≠ 0 := fun h => hne (List.length_eq_zero_iff.mp h)
  simp only [makeResponse, hpath, hsize, hshown, addContent, hfile, Bool.true_eq_false, if_false,
    if_neg hlen]
  split_ifs <;> rfl

end Served

/-- No byte of an error page is 255. -/
theorem notMem_errorReply (isKeepAlive : Bool) (path : Bytes) :
    255 ∉ stateLine 200 ++ header isKeepAlive path ++ errorContent 200 "File NotFound!" := by
  have htype : 255 ∉ ascii (getFileType path) := by
    intro h
    have hbounds := printable_of_mem_getFileType h
    have h255 : (255 : UInt8).toNat = 255 := rfl
    omega
  have hstate : 255 ∉ stateLine 200 := by decide
  have herror : 255 ∉ errorContent 200 "File NotFound!" := by decide +kernel
  have hconn : 255 ∉ ascii "Connection: " ++ (if isKeepAlive then
      ascii "keep-alive\r\n" ++ ascii "keep-alive: max=6, timeout=120\r\n"
      else ascii "close\r\n") := by
    cases isKeepAlive <;> decide
  have hctype : 255 ∉ ascii "Content-type: " := by decide
  have hcrlf : 255 ∉ ascii "\r\n" := by decide
  simp only [header, ascii_append, List.mem_append, not_or] at hconn ⊢
  exact ⟨⟨hstate, hconn, ⟨hctype, htype⟩, hcrlf⟩, herror⟩

/-- The reply to a request for a file is the file, but for one that begins with the bytes of the
integer -1. -/
theorem isFileResponse_iff {r : HttpResponse} {content : Bytes}
    (hfile : stat fs srcDir r.path = some (.file true true content)) (hcode : r.code = 200)
    (hne : content ≠ []) :
    IsFileResponse (text fs srcDir r ++ (mapped fs srcDir r).getD []) content ↔
      ¬ [255, 255, 255, 255] <+: content := by
  rw [← firstIntIsMinusOne_iff]
  have hreply := makeResponse_of_file hfile hcode hne
  constructor
  · intro hserved hones
    rw [if_pos hones] at hreply
    obtain ⟨headers, -, -, heq⟩ := hserved
    have hmem : 255 ∈ content := by
      obtain ⟨rest, rfl⟩ := (firstIntIsMinusOne_iff content).mp hones
      exact List.mem_cons_self
    have hreplied : 255 ∈ text fs srcDir r ++ (mapped fs srcDir r).getD [] := by
      rw [heq]
      exact List.mem_append_right _ hmem
    simp only [text, mapped, hreply, Option.map_some, Option.bind_some, Option.getD_some,
      Option.getD_none, List.append_nil] at hreplied
    exact notMem_errorReply _ _ hreplied
  · intro hones
    rw [if_neg hones] at hreply
    have hstate : stateLine 200 = ascii "HTTP/1.1 200 OK\r\n" := by decide
    refine ⟨headerLines r.isKeepAlive r.path content.length, headerLines_ok _ _ _, ?_, ?_⟩
    · simp [headerLines]
    · simp only [text, mapped, hreply, Option.map_some, Option.bind_some, Option.getD_some, hstate]
      rw [List.append_assoc _ (header _ _), header_contentLength, List.append_assoc, List.append_assoc,
        List.append_assoc, List.append_assoc]

/-- What `writev` is given after `Process` and `setup_iov_for_http`. -/
def gatheredAfter (form : HttpRequest → Form) (h : HttpState) (rb : Buffer) (out : HttpOut) : Bytes :=
  let after := HttpState.process form (text fs srcDir) h rb out.writeBuff
  ({ out with writeBuff := after.2.2.2 }.setupIovForHttp
    (mapped fs srcDir after.2.1.response)).gathered

/-- The reply to a request that is parsed stands behind what is in the write buffer. -/
theorem gatheredAfter_eq (form : HttpRequest → Form) (h : HttpState) (rb : Buffer) (out : HttpOut)
    (hqueue : out.outgoingQueue = []) (hok : (HttpRequest.parse form {} rb).1 = true) :
    gatheredAfter fs srcDir form h rb out = out.writeBuff.readable ++
      (text fs srcDir (HttpState.respond true (HttpRequest.parse form {} rb).2.1) ++
        (mapped fs srcDir (HttpState.respond true (HttpRequest.parse form {} rb).2.1)).getD []) := by
  have hpos : rb.readableBytes ≠ 0 := by
    intro hzero
    rw [HttpRequest.parse, if_pos hzero] at hok
    cases hok
  simp only [gatheredAfter, HttpState.process, if_neg hpos, hok]
  set response := HttpState.respond true (HttpRequest.parse form {} rb).2.1
  have hsent := (HttpOut.sending_setup
    { out with writeBuff := out.writeBuff.append (text fs srcDir response) } hqueue
    (mapped fs srcDir response)).bytes
  rw [List.nil_append] at hsent
  rw [hsent, Buffer.readable_append, List.append_assoc]

/-- A request for a file that is not empty and that everyone may read is answered with the file,
exactly when the file does not begin with four bytes 255. -/
theorem static_file_served_iff (form : HttpRequest → Form) (fs : FileSystem) (srcDir : Bytes)
    (h : HttpState) (rb : Buffer) (out : HttpOut) (content : Bytes)
    (hqueue : out.outgoingQueue = []) (hok : (HttpRequest.parse form {} rb).1 = true)
    (hfile : stat fs srcDir (HttpRequest.parse form {} rb).2.1.path = some (.file true true content))
    (hne : content ≠ []) :
    ∃ reply, gatheredAfter fs srcDir form h rb out = out.writeBuff.readable ++ reply ∧
      (IsFileResponse reply content ↔ ¬ [255, 255, 255, 255] <+: content) := by
  refine ⟨_, gatheredAfter_eq fs srcDir form h rb out hqueue hok, ?_⟩
  exact isFileResponse_iff fs srcDir hfile rfl hne

def pageRequest : Buffer := (Buffer.init 64).append (ascii "GET /page HTTP/1.1\r\n\r\n")

def freshOut : HttpOut := ⟨Buffer.init 64, [], [], ⟨0, 0⟩, ⟨0, 0⟩, 0⟩

def noForm : HttpRequest → Form := HttpRequest.formOf fun _ _ _ => false

def onePage (content : Bytes) : FileSystem :=
  fun path => if path = ascii "/srv/resources//page" then some (.file true true content) else none

theorem parse_pageRequest : (HttpRequest.parse noForm {} pageRequest).1 = true ∧
    (HttpRequest.parse noForm {} pageRequest).2.1.path = ascii "/page" := by
  decide +kernel

theorem stat_pageRequest (content : Bytes) :
    stat (onePage content) (ascii "/srv/resources/")
      (HttpRequest.parse noForm {} pageRequest).2.1.path = some (.file true true content) := by
  have hpath : cString (ascii "/srv/resources/" ++ ascii "/page") = ascii "/srv/resources//page" := by
    decide
  rw [parse_pageRequest.2, stat, hpath]
  exact if_pos rfl

theorem static_file_served_page :
    ∃ reply, gatheredAfter (onePage [1, 2, 3]) (ascii "/srv/resources/") noForm {} pageRequest freshOut =
        freshOut.writeBuff.readable ++ reply ∧ IsFileResponse reply [1, 2, 3] := by
  obtain ⟨reply, hgathered, hserved⟩ := static_file_served_iff noForm (onePage [1, 2, 3])
    (ascii "/srv/resources/") {} pageRequest freshOut [1, 2, 3] rfl parse_pageRequest.1
    (stat_pageRequest [1, 2, 3]) (by decide)
  exact ⟨reply, hgathered, hserved.mpr (by decide)⟩

/-- A file of four bytes 255: what is sent is not the file. -/
theorem ones_not_served :
    (HttpRequest.parse noForm {} pageRequest).1 = true ∧
    stat (onePage [255, 255, 255, 255]) (ascii "/srv/resources/")
      (HttpRequest.parse noForm {} pageRequest).2.1.path =
        some (.file true true [255, 255, 255, 255]) ∧
    ¬ IsFileResponse (gatheredAfter (onePage [255, 255, 255, 255]) (ascii "/srv/resources/") noForm {}
      pageRequest freshOut) [255, 255, 255, 255] := by
  have hfile := stat_pageRequest [255, 255, 255, 255]
  have hempty : freshOut.writeBuff.readable = [] := by decide
  refine ⟨parse_pageRequest.1, hfile, ?_⟩
  rw [gatheredAfter_eq _ _ noForm {} pageRequest freshOut rfl parse_pageRequest.1, hempty,
    List.nil_append, isFileResponse_iff _ _ hfile rfl (by decide)]
  decide

end HttpResponse
end TermChat
