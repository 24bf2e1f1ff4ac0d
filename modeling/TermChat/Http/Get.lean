import TermChat.Http.Request
import Mathlib.Data.List.Infix
import Mathlib.Tactic.IntervalCases

/-! Well-formed GET requests without a body, and what `parse` makes of their bytes: of a whole
request, of what stands behind one, and of the rest of one that was cut. -/
namespace TermChat
open Lines

/-- No field holds a byte that would end it: no blank in the path and the version, no blank and no
colon in the name of a header, and no line end anywhere. -/
structure GetRequest where
  path : Bytes
  version : Bytes
  headers : List (Bytes × Bytes)
  path_ok : ∀ b ∈ path, b ∉ [32, 13, 10]
  version_ok : ∀ b ∈ version, b ∉ [32, 13, 10]
  header_ok : ∀ h ∈ headers, (∀ b ∈ h.1, b ∉ [58, 32, 13, 10]) ∧ ∀ b ∈ h.2, b ∉ [13, 10]

namespace GetRequest

def crlf : Bytes := [13, 10]

def requestLine (r : GetRequest) : Bytes :=
  ascii "GET " ++ r.path ++ ascii " HTTP/" ++ r.version

def headerLine (h : Bytes × Bytes) : Bytes := h.1 ++ ascii ": " ++ h.2

def headerLines (headers : List (Bytes × Bytes)) : Bytes :=
  headers.flatMap fun h => headerLine h ++ crlf

def encode (r : GetRequest) : Bytes :=
  r.requestLine ++ crlf ++ headerLines r.headers ++ crlf

/-- A later header of one name replaces an earlier one. -/
def headerMap (headers : List (Bytes × Bytes)) (m : Bytes → Option Bytes) : Bytes → Option Bytes :=
  headers.foldl (fun m h => Function.update m h.1 (some h.2)) m

/-- The request as `parse` records it, with what it took for a body. -/
def parsed (r : GetRequest) (body : Bytes) : HttpRequest where
  state := .finish
  method := ascii "GET"
  path := HttpRequest.parsePath r.path
  version := r.version
  body := body
  header := headerMap r.headers fun _ => none

variable (r : GetRequest)

theorem requestLine_eq :
    r.requestLine = [71, 69, 84] ++ 32 :: (r.path ++ 32 :: (ascii "HTTP/" ++ r.version)) := by
  have hget : ascii "GET " = [71, 69, 84, 32] := by decide
  have hhttp : ascii " HTTP/" = 32 :: ascii "HTTP/" := by decide
  simp [requestLine, hget, hhttp]

theorem headerLine_eq (h : Bytes × Bytes) : headerLine h = h.1 ++ 58 :: 32 :: h.2 := by
  have hcolon : ascii ": " = [58, 32] := by decide
  simp [headerLine, hcolon]

theorem encode_append (more : Bytes) :
    r.encode ++ more = r.requestLine ++ 13 :: 10 :: (headerLines r.headers ++ 13 :: 10 :: more) := by
  simp [encode, crlf]

theorem headerLines_cons (h : Bytes × Bytes) (headers : List (Bytes × Bytes)) :
    headerLines (h :: headers) = headerLine h ++ 13 :: 10 :: headerLines headers := by
  simp [headerLines, crlf]

theorem space_notMem_path : 32 ∉ r.path := fun h => r.path_ok _ h (by decide)

theorem space_notMem_version : 32 ∉ ascii "HTTP/" ++ r.version := by
  rw [List.mem_append, not_or]
  exact ⟨by decide, fun h => r.version_ok _ h (by decide)⟩

theorem cr_notMem_requestLine : 13 ∉ r.requestLine := by
  have hpath : 13 ∉ r.path := fun h => r.path_ok _ h (by decide)
  have hversion : 13 ∉ r.version := fun h => r.version_ok _ h (by decide)
  have hhttp : 13 ∉ ascii "HTTP/" := by decide
  simp [requestLine_eq, hpath, hversion, hhttp]

private theorem lf_notMem_requestLine : 10 ∉ r.requestLine := by
  have hpath : 10 ∉ r.path := fun h => r.path_ok _ h (by decide)
  have hversion : 10 ∉ r.version := fun h => r.version_ok _ h (by decide)
  have hhttp : 10 ∉ ascii "HTTP/" := by decide
  simp [requestLine_eq, hpath, hversion, hhttp]

theorem encode_ne_nil : r.encode ≠ [] := by
  simp [encode, crlf]

/-! The lines, one by one. -/

private theorem matchRequestLine_requestLine :
    HttpRequest.matchRequestLine r.requestLine = some (ascii "GET", r.path, r.version) := by
  have hmethod : (32 : UInt8) ∉ [71, 69, 84] := by decide
  have hhttp : ascii "HTTP/" <+: ascii "HTTP/" ++ r.version ∧ 32 ∉ ascii "HTTP/" ++ r.version :=
    ⟨List.prefix_append _ _, r.space_notMem_version⟩
  have hdrop : (ascii "HTTP/" ++ r.version).drop 5 = r.version := List.drop_left' rfl
  simp only [HttpRequest.matchRequestLine, requestLine_eq, cut_append hmethod,
    cut_append r.space_notMem_path, Option.bind_eq_bind, Option.bind_some, if_pos hhttp, hdrop]
  rfl

private theorem matchHeader_headerLine {h : Bytes × Bytes} (hname : ∀ b ∈ h.1, b ∉ [58, 32, 13, 10])
    (hvalue : ∀ b ∈ h.2, b ∉ [13, 10]) :
    HttpRequest.matchHeader (headerLine h) = some h := by
  have hcolon : 58 ∉ h.1 := fun hb => hname _ hb (by decide)
  have hline : 13 ∉ h.2 ∧ 10 ∉ h.2 :=
    ⟨fun hb => hvalue _ hb (by decide), fun hb => hvalue _ hb (by decide)⟩
  simp only [HttpRequest.matchHeader, headerLine_eq, cut_append hcolon, Option.bind_eq_bind,
    Option.bind_some, List.head?_cons, List.tail_cons, if_true, if_pos hline]

private theorem cr_notMem_headerLine {h : Bytes × Bytes} (hname : ∀ b ∈ h.1, b ∉ [58, 32, 13, 10])
    (hvalue : ∀ b ∈ h.2, b ∉ [13, 10]) : 13 ∉ headerLine h := by
  have h1 : 13 ∉ h.1 := fun hb => hname _ hb (by decide)
  have h2 : 13 ∉ h.2 := fun hb => hvalue _ hb (by decide)
  simp [headerLine_eq, h1, h2]

variable (form : HttpRequest → Form)

theorem scan_headerLines {headers : List (Bytes × Bytes)}
    (hok : ∀ h ∈ headers, (∀ b ∈ h.1, b ∉ [58, 32, 13, 10]) ∧ ∀ b ∈ h.2, b ∉ [13, 10])
    {req : HttpRequest} (hstate : req.state = .headers) (rest : Bytes) :
    HttpRequest.scan form req (headerLines headers ++ rest) =
      HttpRequest.scan form { req with header := headerMap headers req.header } rest := by
  induction headers generalizing req with
  | nil => rfl
  | cons h headers ih =>
    obtain ⟨hname, hvalue⟩ := hok h List.mem_cons_self
    have hline : req.parseLine form ((headerLine h).length + 2 + (headerLines headers ++ rest).length)
        (headerLine h) = some { req with header := Function.update req.header h.1 (some h.2) } := by
      have hlong : ¬ (headerLine h).length + 2 + (headerLines headers ++ rest).length ≤ 2 := by
        simp only [headerLine_eq, List.length_append, List.length_cons]
        omega
      simp only [HttpRequest.parseLine, hstate, if_neg hlong, HttpRequest.parseHeader,
        matchHeader_headerLine hname hvalue]
    rw [headerLines_cons, List.append_assoc, List.cons_append, List.cons_append,
      HttpRequest.scan_append (cr_notMem_headerLine hname hvalue) (by rw [hstate]; decide) hline,
      ih (fun h' hm => hok h' (List.mem_cons_of_mem h hm)) (by exact hstate)]
    rfl

/-- The blank line ends the request if nothing follows it; otherwise what follows is the body, up
to the end of its line. -/
theorem scan_blank {req : HttpRequest} (hstate : req.state = .headers)
    (hmethod : req.method ≠ ascii "POST") (rest : Bytes) :
    ∃ body, HttpRequest.scan form req (13 :: 10 :: rest) =
      (true, { req with body := body, state := .finish }, (line 13 10 rest).2.getD []) := by
  have hheader : req.parseHeader [] = { req with state := .body } := by
    simp [HttpRequest.parseHeader, HttpRequest.matchHeader, cut]
  have hcr : (13 : UInt8) ∉ ([] : Bytes) := List.not_mem_nil
  have hne : req.state ≠ .finish := by
    rw [hstate]
    decide
  cases rest with
  | nil =>
    have hline : req.parseLine form (([] : Bytes).length + 2 + ([] : Bytes).length) [] =
        some { req with state := .finish } := by
      simp [HttpRequest.parseLine, hstate, hheader]
    refine ⟨req.body, ?_⟩
    rw [← List.nil_append (13 :: 10 :: []), HttpRequest.scan_append hcr hne hline,
      HttpRequest.scan_finish rfl]
    rfl
  | cons x rest =>
    have hline : req.parseLine form (([] : Bytes).length + 2 + (x :: rest).length) [] =
        some { req with state := .body } := by
      simp [HttpRequest.parseLine, hstate, hheader]
    have hbody : HttpRequest.parseLine form (x :: rest).length (line 13 10 (x :: rest)).1
        { req with state := .body } =
          some { req with body := (line 13 10 (x :: rest)).1, state := .finish } := by
      simp [HttpRequest.parseLine, HttpRequest.parseBody, HttpRequest.parsePost, hmethod]
    refine ⟨(line 13 10 (x :: rest)).1, ?_⟩
    rw [← List.nil_append (13 :: 10 :: x :: rest), HttpRequest.scan_append hcr hne hline,
      HttpRequest.scan_line (by simp) (by simp) hbody]
    cases (line 13 10 (x :: rest)).2 with
    | none => rfl
    | some left => exact HttpRequest.scan_finish rfl

/-- A whole request is parsed as it was written. The line behind it, if there is one, is lost. -/
theorem scan_encode (rest : Bytes) :
    ∃ body, HttpRequest.scan form {} (r.encode ++ rest) =
      (true, r.parsed body, (line 13 10 rest).2.getD []) := by
  -- the request after its first line, and after its headers
  let first : HttpRequest :=
    { method := ascii "GET", path := HttpRequest.parsePath r.path, version := r.version,
      state := .headers }
  let last : HttpRequest := { first with header := headerMap r.headers first.header }
  have hline : HttpRequest.parseLine form
      (r.requestLine.length + 2 + (headerLines r.headers ++ 13 :: 10 :: rest).length)
      r.requestLine {} = some first := by
    simp [first, HttpRequest.parseLine, HttpRequest.parseRequestLine, matchRequestLine_requestLine]
  have hget : ascii "GET" ≠ ascii "POST" := by decide
  obtain ⟨body, hblank⟩ := scan_blank form (rfl : last.state = .headers) hget rest
  refine ⟨body, ?_⟩
  rw [encode_append, HttpRequest.scan_append r.cr_notMem_requestLine (by decide) hline,
    scan_headerLines form r.header_ok rfl, hblank]
  rfl

/-! The rest of a request that was cut in or behind its first line. -/

/-- Behind the first line of a piece of a request is what is behind its request line. -/
theorem left_of_isPrefix {text more : Bytes} (hpiece : text <+: r.encode ++ more) :
    (line 13 10 text).2.getD [] = text.drop (r.requestLine.length + 2) := by
  have hfirst : r.requestLine ++ [13, 10] <+: r.encode ++ more := by
    rw [encode_append]
    exact ⟨headerLines r.headers ++ 13 :: 10 :: more, by simp⟩
  rcases Nat.lt_or_ge text.length (r.requestLine.length + 2) with hshort | hlong
  · -- the LF of the first line is still missing
    have hfront : text <+: r.requestLine ++ [13] := by
      rw [encode_append] at hpiece
      apply List.prefix_of_prefix_length_le hpiece
      · exact ⟨10 :: (headerLines r.headers ++ 13 :: 10 :: more), by simp⟩
      · simp only [List.length_append, List.length_singleton]
        omega
    have hnone : (line 13 10 text).2 = none := by
      cases hend : (line 13 10 text).2 with
      | none => rfl
      | some rest =>
        have hlf : 10 ∈ text := by
          rw [of_line_some hend]
          simp
        have hmem := hfront.subset hlf
        rw [List.mem_append] at hmem
        exact hmem.elim (fun h => absurd h r.lf_notMem_requestLine) (fun h => absurd h (by decide))
    rw [hnone, List.drop_eq_nil_of_le hshort.le]
    rfl
  · obtain ⟨rest, rfl⟩ := List.prefix_of_prefix_length_le hfirst hpiece (by simpa using hlong)
    have hcut := line_append (b := 10) r.cr_notMem_requestLine rest
    rw [List.append_assoc, List.cons_append, List.singleton_append, hcut, List.drop_append]
    simp

private theorem of_method_eq_get {text : Bytes}
    (h : (HttpRequest.scan form {} text).2.1.method = ascii "GET") :
    ∃ a b, (line 13 10 text).1 = [71, 69, 84] ++ 32 :: (a ++ 32 :: b) := by
  by_cases hne : text = []
  · rw [hne, HttpRequest.scan, if_pos (.inl rfl)] at h
    exact absurd h (by decide)
  · cases hm : HttpRequest.matchRequestLine (line 13 10 text).1 with
    | none =>
      rw [HttpRequest.scan_failed hne (by decide)
        (by simp [HttpRequest.parseLine, HttpRequest.parseRequestLine, hm])] at h
      exact absurd h (show ([] : Bytes) ≠ ascii "GET" by decide)
    | some groups =>
      -- the method is the first group, whatever the other lines hold
      have hmethod : groups.1 = ascii "GET" := by
        rw [← h, HttpRequest.scan_line hne (by decide)
          (by simp only [HttpRequest.parseLine, HttpRequest.parseRequestLine, hm, Option.map_some]; rfl)]
        cases (line 13 10 text).2 with
        | none => rfl
        | some rest => rw [HttpRequest.method_scan form _ rest (by simp)]
      simp only [HttpRequest.matchRequestLine, Option.bind_eq_bind, Option.bind_eq_some_iff] at hm
      obtain ⟨⟨method, rest⟩, hcut, ⟨path, rest'⟩, hcut', hgroups⟩ := hm
      simp only at hgroups
      split_ifs at hgroups with hok
      cases hgroups
      obtain ⟨hline, -⟩ := of_cut hcut
      obtain ⟨rfl, -⟩ := of_cut hcut'
      refine ⟨path, rest', ?_⟩
      rw [hline, show method = ascii "GET" from hmethod]
      rfl

private theorem count_requestLine : (r.requestLine.drop 4).count 32 = 1 := by
  have hdrop : r.requestLine.drop 4 = r.path ++ 32 :: (ascii "HTTP/" ++ r.version) := by
    rw [requestLine_eq]
    rfl
  rw [hdrop, List.count_append, List.count_cons_self,
    List.count_eq_zero_of_not_mem r.space_notMem_path,
    List.count_eq_zero_of_not_mem r.space_notMem_version]

/-- The first line of what is left has at most one blank. -/
theorem count_line_of_cut {j : ℕ} (hge : 4 ≤ j) (hle : j ≤ r.requestLine.length)
    {text more : Bytes} (hpiece : text <+: (r.encode ++ more).drop j) :
    (line 13 10 text).1.count 32 ≤ 1 := by
  have hcr : 13 ∉ r.requestLine.drop j := fun h => r.cr_notMem_requestLine (List.mem_of_mem_drop h)
  have hline : (line 13 10 text).1 <+: r.requestLine.drop j ++ [13] := by
    rw [encode_append, List.drop_append_of_le_length hle] at hpiece
    exact line_isPrefix_of_isPrefix hcr hpiece
  have hsub : (r.requestLine.drop j).Sublist (r.requestLine.drop 4) :=
    List.drop_sublist_drop_left _ hge
  calc (line 13 10 text).1.count 32
      ≤ (r.requestLine.drop j ++ [13]).count 32 := hline.sublist.count_le 32
    _ = (r.requestLine.drop j).count 32 := by simp
    _ ≤ (r.requestLine.drop 4).count 32 := hsub.count_le 32
    _ = 1 := r.count_requestLine

/-- Header lines, or the blank line, do not begin with `GET` and a blank. -/
theorem not_get_headerLines (more x : Bytes) :
    [71, 69, 84] ++ 32 :: x ≠ headerLines r.headers ++ 13 :: 10 :: more := by
  intro h
  cases hh : r.headers with
  | nil =>
    rw [hh] at h
    cases h
  | cons header headers =>
    have hname : 32 ∉ header.1 ++ [58] := by
      have hok := (r.header_ok header (by rw [hh]; exact List.mem_cons_self)).1
      rw [List.mem_append, not_or]
      exact ⟨fun hb => hok _ hb (by decide), by decide⟩
    have hcut : headerLines r.headers ++ 13 :: 10 :: more = (header.1 ++ [58]) ++
        32 :: (header.2 ++ 13 :: 10 :: (headerLines headers ++ 13 :: 10 :: more)) := by
      rw [hh, headerLines_cons, headerLine_eq]
      simp
    have hfirst : [71, 69, 84] = header.1 ++ [58] := eq_of_cut (by decide) hname (h.trans hcut)
    have hlast := congrArg List.getLast? hfirst
    rw [List.getLast?_concat] at hlast
    cases hlast

/-- What is left of a request without its first byte is not taken for a GET request. -/
theorem method_of_cut {j : ℕ} (hpos : 0 < j) (hle : j ≤ r.requestLine.length + 2)
    {text more : Bytes} (hpiece : text <+: (r.encode ++ more).drop j) :
    (HttpRequest.scan form {} text).2.1.method ≠ ascii "GET" := by
  intro hget
  obtain ⟨a, b, hline⟩ := of_method_eq_get form hget
  obtain ⟨x, hx⟩ : ∃ x, (r.encode ++ more).drop j = [71, 69, 84] ++ 32 :: x := by
    have htext : (line 13 10 text).1 <+: (r.encode ++ more).drop j :=
      (line_isPrefix text).trans hpiece
    rw [hline] at htext
    obtain ⟨x, hx⟩ := htext
    exact ⟨_, hx.symm.trans (List.append_assoc _ _ _)⟩
  have hhead : (r.encode ++ more)[j]? = some 71 := by
    rw [← List.head?_drop, hx]
    rfl
  rcases Nat.lt_or_ge j 4 with hshort | hlong
  · -- `ET `, `T ` or a blank
    rw [encode_append, requestLine_eq] at hhead
    interval_cases j <;> cases hhead
  · rcases Nat.lt_or_ge r.requestLine.length j with hbehind | hin
    · rcases Nat.lt_or_ge (r.requestLine.length + 1) j with hnext | hlf
      · -- behind the line end
        have hj : j = r.requestLine.length + 2 := by omega
        rw [encode_append, hj, List.drop_append] at hx
        apply r.not_get_headerLines more x
        rw [← hx]
        simp
      · -- between CR and LF
        have hj : j = r.requestLine.length + 1 := by omega
        rw [encode_append, hj, List.getElem?_append_right (by omega)] at hhead
        simp at hhead
    · -- in the path or the version
      have hcount := r.count_line_of_cut hlong hin hpiece
      rw [hline] at hcount
      simp at hcount

end GetRequest
end TermChat
