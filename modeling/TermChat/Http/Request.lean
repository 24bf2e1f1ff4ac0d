import TermChat.Core.Buffer
import TermChat.Base.Lines

/-! `HttpRequest`: the state machine of `parse`, one line of the buffer at a time. What `ParsePost_`
makes of a form is a parameter. -/
namespace TermChat
open Lines

def ascii (s : String) : Bytes := s.toList.map Char.toUInt8

inductive ParseState where
  | requestLine
  | headers
  | body
  | finish
  deriving DecidableEq, Repr

/-- A fresh object, and one after `Init`, has the defaults. -/
structure HttpRequest where
  state : ParseState := .requestLine
  method : Bytes := []
  path : Bytes := []
  version : Bytes := []
  body : Bytes := []
  header : Bytes → Option Bytes := fun _ => none
  post : Bytes → Option Bytes := fun _ => none

/-- What `ParseFromUrlencoded_` and the verification of the user leave behind. -/
structure Form where
  path : Bytes
  body : Bytes
  post : Bytes → Option Bytes

namespace HttpRequest

def defaultHtml : List Bytes :=
  ["/index", "/register", "/login", "/welcome", "/video", "/picture"].map ascii

/-- The groups of `^([^ ]*) ([^ ]*) HTTP/([^ ]*)$`. -/
def matchRequestLine (line : Bytes) : Option (Bytes × Bytes × Bytes) := do
  let (method, rest) ← cut 32 line
  let (path, rest) ← cut 32 rest
  if ascii "HTTP/" <+: rest ∧ 32 ∉ rest then some (method, path, rest.drop 5) else none

/-- The groups of `^([^:]*): ?(.*)$`; a dot matches neither CR nor LF. -/
def matchHeader (line : Bytes) : Option (Bytes × Bytes) := do
  let (name, rest) ← cut 58 line
  let value := if rest.head? = some 32 then rest.tail else rest
  if 13 ∉ value ∧ 10 ∉ value then some (name, value) else none

def parseRequestLine (req : HttpRequest) (line : Bytes) : Option HttpRequest :=
  (matchRequestLine line).map fun (method, path, version) =>
    { req with method := method, path := path, version := version, state := .headers }

def parsePath (path : Bytes) : Bytes :=
  if path = ascii "/" then ascii "/index.html"
  else if path ∈ defaultHtml then path ++ ascii ".html"
  else path

def parseHeader (req : HttpRequest) (line : Bytes) : HttpRequest :=
  match matchHeader line with
  | some (name, value) => { req with header := Function.update req.header name (some value) }
  | none => { req with state := .body }

variable (form : HttpRequest → Form)

/-- `operator[]` leaves an entry for `Content-Type` behind. -/
def parsePost (req : HttpRequest) : HttpRequest :=
  if req.method = ascii "POST" then
    let type := (req.header (ascii "Content-Type")).getD []
    let req := { req with header := Function.update req.header (ascii "Content-Type") (some type) }
    if type = ascii "application/x-www-form-urlencoded" then
      { req with path := (form req).path, body := (form req).body, post := (form req).post }
    else req
  else req

def parseBody (req : HttpRequest) (line : Bytes) : HttpRequest :=
  { parsePost form { req with body := line } with state := .finish }

/-- The switch of the loop, with `readable` bytes in the buffer; `none` where `parse` returns
false. -/
def parseLine (readable : ℕ) (line : Bytes) (req : HttpRequest) : Option HttpRequest :=
  match req.state with
  | .requestLine =>
    (req.parseRequestLine line).map fun req => { req with path := parsePath req.path }
  | .headers =>
    let req := req.parseHeader line
    some (if readable ≤ 2 then { req with state := .finish } else req)
  | .body => some (req.parseBody form line)
  | .finish => some req

theorem length_line {b : Buffer} {rest : Bytes} (h : (line 13 10 b.readable).2 = some rest) :
    (line 13 10 b.readable).1.length + 2 ≤ b.readableBytes := by
  have hlen := congrArg List.length (of_line_some h)
  simp only [List.length_append, List.length_cons, Buffer.length_readable] at hlen
  omega

/-- The loop of `parse`. The end of the buffer ends a line as well. -/
def parseLoop (req : HttpRequest) (b : Buffer) : Bool × HttpRequest × Buffer :=
  if b.readableBytes = 0 ∨ req.state = .finish then (true, req, b)
  else
    match req.parseLine form b.readableBytes (line 13 10 b.readable).1 with
    | none => (false, req, b)
    | some req =>
      match h : (line 13 10 b.readable).2 with
      | none => (true, req, b.retrieveAll)
      | some _ =>
        parseLoop req (b.retrieve ((line 13 10 b.readable).1.length + 2) (length_line h))
termination_by b.readableBytes
decreasing_by
  have hlen := length_line h
  simp only [← Buffer.length_readable, Buffer.readable_retrieve, List.length_drop] at hlen ⊢
  omega

def parse (req : HttpRequest) (b : Buffer) : Bool × HttpRequest × Buffer :=
  if b.readableBytes = 0 then (false, req, b) else parseLoop form req b

def isKeepAlive (req : HttpRequest) : Bool :=
  req.header (ascii "Connection") = some (ascii "keep-alive") && req.version = ascii "1.1"

/-- `parse` on the readable bytes. -/
def scan (req : HttpRequest) (text : Bytes) : Bool × HttpRequest × Bytes :=
  if text = [] ∨ req.state = .finish then (true, req, text)
  else
    match req.parseLine form text.length (line 13 10 text).1 with
    | none => (false, req, text)
    | some req =>
      match _h : (line 13 10 text).2 with
      | none => (true, req, [])
      | some rest => scan req rest
termination_by text.length
decreasing_by
  have hlen := congrArg List.length (of_line_some _h)
  simp only [List.length_append, List.length_cons] at hlen
  omega

section Scan

variable {form} {req req' : HttpRequest} {text rest : Bytes}

theorem scan_failed (hne : text ≠ []) (hstate : req.state ≠ .finish)
    (hline : req.parseLine form text.length (line 13 10 text).1 = none) :
    scan form req text = (false, req, text) := by
  rw [scan, if_neg (not_or.mpr ⟨hne, hstate⟩), hline]

theorem scan_line (hne : text ≠ []) (hstate : req.state ≠ .finish)
    (hline : req.parseLine form text.length (line 13 10 text).1 = some req') :
    scan form req text =
      match (line 13 10 text).2 with
      | none => (true, req', [])
      | some rest => scan form req' rest := by
  rw [scan, if_neg (not_or.mpr ⟨hne, hstate⟩), hline]
  simp only
  split <;> simp_all

theorem scan_finish (hstate : req.state = .finish) : scan form req text = (true, req, text) := by
  rw [scan, if_pos (.inr hstate)]

theorem scan_append {l : Bytes} (hl : 13 ∉ l) (hstate : req.state ≠ .finish)
    (hline : req.parseLine form (l.length + 2 + rest.length) l = some req') :
    scan form req (l ++ 13 :: 10 :: rest) = scan form req' rest := by
  have hcut := line_append (b := 10) hl rest
  have hlen : (l ++ 13 :: 10 :: rest).length = l.length + 2 + rest.length := by
    simp only [List.length_append, List.length_cons]
    omega
  rw [scan_line (by simp) hstate (by rw [hcut, hlen]; exact hline), hcut]

end Scan

/-- The loop leaves in the buffer what `scan` leaves. -/
theorem parseLoop_spec (req : HttpRequest) (b : Buffer) :
    (parseLoop form req b).1 = (scan form req b.readable).1 ∧
      (parseLoop form req b).2.1 = (scan form req b.readable).2.1 ∧
      (parseLoop form req b).2.2.readable = (scan form req b.readable).2.2 := by
  have hempty : b.readableBytes = 0 ↔ b.readable = [] := by
    rw [← List.length_eq_zero_iff, Buffer.length_readable]
  induction hn : b.readableBytes using Nat.strong_induction_on generalizing req b with
  | _ n ih =>
    subst hn
    rw [parseLoop]
    split_ifs with h
    · rw [scan, if_pos (by rwa [hempty] at h)]
      exact ⟨rfl, rfl, rfl⟩
    · rw [hempty, not_or] at h
      cases hline : req.parseLine form b.readableBytes (line 13 10 b.readable).1 with
      | none =>
        rw [scan_failed h.1 h.2 (by rw [Buffer.length_readable]; exact hline)]
        exact ⟨rfl, rfl, rfl⟩
      | some req' =>
        have hscan := scan_line h.1 h.2 (by rw [Buffer.length_readable]; exact hline)
        simp only
        split
        · rename_i hend
          rw [hend] at hscan
          rw [hscan]
          exact ⟨rfl, rfl, Buffer.readable_retrieveAll b⟩
        · rename_i rest hend
          rw [hend] at hscan
          rw [hscan]
          -- what `retrieve_until` leaves is what stands behind the line
          have hrest : (b.retrieve ((line 13 10 b.readable).1.length + 2)
              (length_line hend)).readable = rest := by
            rw [Buffer.readable_retrieve]
            nth_rewrite 2 [of_line_some hend]
            rw [List.drop_append]
            simp
          have hlt : (b.retrieve ((line 13 10 b.readable).1.length + 2)
              (length_line hend)).readableBytes < b.readableBytes := by
            have hlen := length_line hend
            simp only [← Buffer.length_readable, Buffer.readable_retrieve, List.length_drop] at hlen ⊢
            omega
          have hind := ih _ hlt req' _ (by rw [← List.length_eq_zero_iff, Buffer.length_readable]) rfl
          rw [hrest] at hind
          exact hind

private theorem method_parseHeader (req : HttpRequest) (line : Bytes) :
    (req.parseHeader line).method = req.method := by
  unfold parseHeader
  split <;> rfl

private theorem method_parsePost (req : HttpRequest) :
    (parsePost form req).method = req.method := by
  unfold parsePost
  simp only
  split_ifs <;> rfl

/-- Once the request line is read, a line cannot fail, and the method stays. -/
theorem parseLine_method (readable : ℕ) (line : Bytes) {req : HttpRequest}
    (hstate : req.state ≠ .requestLine) :
    ∃ req', req.parseLine form readable line = some req' ∧ req'.state ≠ .requestLine ∧
      req'.method = req.method := by
  cases hs : req.state with
  | requestLine => exact absurd hs hstate
  | headers =>
    simp only [parseLine, hs]
    refine ⟨_, rfl, ?_, ?_⟩
    · split_ifs
      · simp
      · unfold parseHeader
        split <;> simp [hs]
    · rw [← method_parseHeader req line]
      split_ifs <;> rfl
  | body =>
    simp only [parseLine, hs]
    exact ⟨_, rfl, by simp [parseBody], method_parsePost form _⟩
  | finish =>
    simp only [parseLine, hs]
    exact ⟨_, rfl, hstate, rfl⟩

theorem method_scan (req : HttpRequest) (text : Bytes) (hstate : req.state ≠ .requestLine) :
    (scan form req text).2.1.method = req.method := by
  induction hn : text.length using Nat.strong_induction_on generalizing req text with
  | _ n ih =>
    by_cases hstop : text = [] ∨ req.state = .finish
    · rw [scan, if_pos hstop]
    · rw [not_or] at hstop
      obtain ⟨req', hline, hstate', hmethod⟩ :=
        parseLine_method form text.length (line 13 10 text).1 hstate
      rw [scan_line hstop.1 hstop.2 hline]
      cases hend : (line 13 10 text).2 with
      | none => exact hmethod
      | some rest =>
        have hlen := congrArg List.length (of_line_some hend)
        simp only [List.length_append, List.length_cons] at hlen
        show (scan form req' rest).2.1.method = _
        rw [ih rest.length (by omega) req' rest hstate' rfl, hmethod]

end HttpRequest
end TermChat
