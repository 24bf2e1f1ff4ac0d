import TermChat.Base.Lexical
import TermChat.Http.Response

/-! Which files a request reaches. Nothing looks at the components of the path of a request. -/
namespace TermChat
open Lines

namespace HttpResponse

/-- The components of a path, without the empty ones and those that stay where they are. -/
def components (path : Bytes) : List Bytes :=
  (path.splitOnP (· == 47)).filter fun c => c ≠ [] ∧ c ≠ [46]

def dotDot : Bytes := [46, 46]

def resolved (path : Bytes) : List Bytes := Lexical.resolve dotDot [] (components path)

/-- The path is that of `dir` or of something below it. -/
def Inside (dir path : Bytes) : Prop := resolved dir <+: resolved path

instance (dir path : Bytes) : Decidable (Inside dir path) := inferInstanceAs (Decidable (_ <+: _))

def srcDirOf (cwd : Bytes) : Bytes := cwd ++ ascii "/resources/"

/-- The paths that `MakeResponse` passes to `stat` and `open`. -/
def touched (fs : FileSystem) (srcDir : Bytes) (r : HttpResponse) : List Bytes :=
  cString (srcDir ++ r.path) ::
    (codePath (checkedCode fs srcDir r)).toList.map (fun path => cString (srcDir ++ path)) ++
    [cString (srcDir ++ shownPath fs srcDir r)]

/-- The response depends on no other file. -/
theorem makeResponse_congr {fs fs' : FileSystem} {srcDir : Bytes} {r : HttpResponse}
    (h : ∀ path ∈ touched fs srcDir r, fs path = fs' path) :
    makeResponse fs srcDir r = makeResponse fs' srcDir r := by
  have hstat : stat fs srcDir r.path = stat fs' srcDir r.path := h _ List.mem_cons_self
  have hcode : checkedCode fs srcDir r = checkedCode fs' srcDir r := by
    rw [checkedCode, checkedCode, hstat]
  have hshown : stat fs srcDir (shownPath fs srcDir r) = stat fs' srcDir (shownPath fs srcDir r) := by
    apply h
    exact List.mem_append_right _ (List.mem_singleton_self _)
  have hpath : shownPath fs srcDir r = shownPath fs' srcDir r := by
    rw [shownPath, shownPath, hcode]
  have hsize : shownSize fs srcDir r = shownSize fs' srcDir r := by
    rw [shownSize, shownSize, ← hcode, hstat]
    cases hpage : codePath (checkedCode fs srcDir r) with
    | none => rfl
    | some path =>
      have hpage' : stat fs srcDir path = stat fs' srcDir path := by
        rw [shownPath, hpage] at hshown
        exact hshown
      simp only [hpage']
  simp only [makeResponse, addContent, hshown, ← hpath, hsize, shownCode, hcode]

/-- The path of a request leads to a place inside the directory: it names again the components that
it climbs out of. -/
def Stays (dir path : Bytes) : Prop :=
  (resolved dir).drop ((resolved dir).length -
      (Lexical.relative dotDot (components (cString path))).1) <+:
    (Lexical.relative dotDot (components (cString path))).2

instance (dir path : Bytes) : Decidable (Stays dir path) := inferInstanceAs (Decidable (_ <+: _))

private theorem components_append (dir path : Bytes) :
    components (dir ++ 47 :: path) = components dir ++ components path := by
  rw [components, List.splitOnP_append_cons _ _ rfl, List.filter_append]
  rfl

private theorem cString_append {dir : Bytes} (h : 0 ∉ dir) (path : Bytes) :
    cString (dir ++ path) = dir ++ cString path := by
  apply List.takeWhile_append_of_pos
  intro b hb
  rw [decide_eq_true_eq]
  rintro rfl
  exact h hb

section Source

variable {cwd : Bytes} (hcwd : 0 ∉ cwd)
include hcwd

/-- What a system call is given lies inside the source directory exactly when the path stays. -/
theorem inside_cString_iff (path : Bytes) :
    Inside (srcDirOf cwd) (cString (srcDirOf cwd ++ path)) ↔ Stays (srcDirOf cwd) path := by
  have hslash : srcDirOf cwd = cwd ++ ascii "/resources" ++ [47] := by
    have hdir : ascii "/resources/" = ascii "/resources" ++ [47] := by decide
    rw [srcDirOf, hdir, List.append_assoc]
  have hzero : 0 ∉ srcDirOf cwd := by
    have hdir : 0 ∉ ascii "/resources/" := by decide
    rw [srcDirOf, List.mem_append, not_or]
    exact ⟨hcwd, hdir⟩
  have hempty : components [] = [] := by decide
  have hcomponents : components (srcDirOf cwd ++ cString path) =
      components (srcDirOf cwd) ++ components (cString path) := by
    rw [hslash, List.append_assoc, List.singleton_append, components_append, components_append, hempty,
      List.append_nil]
  rw [Inside, cString_append hzero, resolved, resolved, hcomponents, Lexical.resolve_append]
  exact Lexical.resolve_inside_iff _ _ _

end Source

def fixedPages : List Bytes :=
  ["/400.html", "/403.html", "/404.html", "/index.html", "/register.html", "/login.html",
    "/welcome.html", "/video.html", "/picture.html", "/error.html", "/", "/index", "/register",
    "/login", "/welcome", "/video", "/picture", ""].map ascii

theorem stays_of_no_climb {dir path : Bytes}
    (h : (Lexical.relative dotDot (components (cString path))).1 = 0) : Stays dir path := by
  rw [Stays, h, Nat.sub_zero, List.drop_length]
  exact List.nil_prefix

theorem stays_fixedPage {path : Bytes} (h : path ∈ fixedPages) (dir : Bytes) : Stays dir path := by
  have hall : ∀ page ∈ fixedPages, (Lexical.relative dotDot (components (cString page))).1 = 0 := by
    decide
  exact stays_of_no_climb (hall path h)

private theorem codePath_mem {code : ℤ} {page : Bytes} (h : codePath code = some page) :
    page ∈ fixedPages := by
  unfold codePath at h
  split_ifs at h <;> cases h <;> decide

/-- All paths of a response lie inside exactly when that of the request does. -/
theorem touched_inside_iff {cwd : Bytes} (hcwd : 0 ∉ cwd) (fs : FileSystem) (r : HttpResponse) :
    (∀ path ∈ touched fs (srcDirOf cwd) r, Inside (srcDirOf cwd) path) ↔
      Stays (srcDirOf cwd) r.path := by
  constructor
  · intro h
    exact (inside_cString_iff hcwd r.path).mp (h _ List.mem_cons_self)
  · intro h path hpath
    have hpage : ∀ page, codePath (checkedCode fs (srcDirOf cwd) r) = some page →
        Inside (srcDirOf cwd) (cString (srcDirOf cwd ++ page)) :=
      fun page hcode => (inside_cString_iff hcwd page).mpr (stays_fixedPage (codePath_mem hcode) _)
    have hown := (inside_cString_iff hcwd r.path).mpr h
    simp only [touched, List.cons_append, List.mem_cons, List.mem_append, List.mem_map,
      Option.mem_toList, List.not_mem_nil, or_false] at hpath
    rcases hpath with rfl | ⟨page, hcode, rfl⟩ | rfl
    · exact hown
    · exact hpage page hcode
    · rw [shownPath]
      cases hcode : codePath (checkedCode fs (srcDirOf cwd) r) with
      | none => exact hown
      | some page => exact hpage page hcode

end HttpResponse

namespace HttpRequest
open HttpResponse

/-- The path of the request line; an empty one if the line does not match. -/
def requestedPath (text : Bytes) : Bytes :=
  match matchRequestLine (line 13 10 text).1 with
  | none => []
  | some (_, path, _) => path

/-- A path is kept, or it is one of the pages behind a form. -/
def PathKept (path path' : Bytes) : Prop :=
  path' = path ∨ (defaultHtmlTag path).isSome ∧ (path' = ascii "/welcome.html" ∨ path' = ascii "/error.html")

theorem PathKept.trans {p q r : Bytes} (hpq : PathKept p q) (hqr : PathKept q r) : PathKept p r := by
  rcases hpq with rfl | ⟨hp, hq⟩
  · exact hqr
  · have hnone : defaultHtmlTag q = none := by
      rcases hq with rfl | rfl <;> decide
    rcases hqr with rfl | ⟨hsome, -⟩
    · exact .inr ⟨hp, hq⟩
    · rw [hnone] at hsome
      cases hsome

theorem stays_iff_of_pathKept {dir p q : Bytes} (h : PathKept p q) : Stays dir q ↔ Stays dir p := by
  rcases h with rfl | ⟨hp, hq⟩
  · exact Iff.rfl
  · have hq' : q ∈ fixedPages := by
      rcases hq with rfl | rfl <;> decide
    have hp' : p ∈ fixedPages := by
      unfold defaultHtmlTag at hp
      split_ifs at hp with hlogin hregister
      · rw [hlogin]
        decide
      · rw [hregister]
        decide
      · cases hp
    exact iff_of_true (stays_fixedPage hq' dir) (stays_fixedPage hp' dir)

theorem stays_parsePath_iff (dir path : Bytes) : Stays dir (parsePath path) ↔ Stays dir path := by
  unfold parsePath
  split_ifs with hroot hdefault
  · rw [hroot]
    exact iff_of_true (stays_fixedPage (by decide) dir) (stays_fixedPage (by decide) dir)
  · have hpages : ∀ page ∈ defaultHtml, page ∈ fixedPages ∧ page ++ ascii ".html" ∈ fixedPages := by
      decide
    obtain ⟨hpage, hhtml⟩ := hpages path hdefault
    exact iff_of_true (stays_fixedPage hhtml dir) (stays_fixedPage hpage dir)
  · exact Iff.rfl

section Path

variable (dao : Bytes → Bytes → Bool → Bool)

theorem pathKept_formOf (req : HttpRequest) : PathKept req.path (formOf dao req).path := by
  unfold formOf
  split
  · exact .inl rfl
  · split
    · exact .inl rfl
    · rename_i isLogin htag
      have hsome : (defaultHtmlTag req.path).isSome := by
        rw [htag]
        rfl
      simp only
      split_ifs
      · exact .inr ⟨hsome, .inl rfl⟩
      · exact .inr ⟨hsome, .inr rfl⟩

theorem pathKept_parsePost (req : HttpRequest) :
    PathKept req.path (parsePost (formOf dao) req).path := by
  unfold parsePost
  simp only
  split_ifs
  · exact pathKept_formOf dao _
  · exact .inl rfl
  · exact .inl rfl

private theorem path_parseHeader (req : HttpRequest) (line : Bytes) :
    (req.parseHeader line).path = req.path := by
  unfold parseHeader
  split <;> rfl

theorem parseLine_path (readable : ℕ) (line : Bytes) {req req' : HttpRequest}
    (hstate : req.state ≠ .requestLine)
    (h : req.parseLine (formOf dao) readable line = some req') : PathKept req.path req'.path := by
  cases hs : req.state with
  | requestLine => exact absurd hs hstate
  | headers =>
    simp only [parseLine, hs, Option.some.injEq] at h
    have hpath := path_parseHeader req line
    apply Or.inl
    rw [← h, ← hpath]
    split_ifs <;> rfl
  | body =>
    simp only [parseLine, hs, Option.some.injEq] at h
    rw [← h]
    exact pathKept_parsePost dao _
  | finish =>
    simp only [parseLine, hs, Option.some.injEq] at h
    rw [← h]
    exact .inl rfl

theorem pathKept_scan (req : HttpRequest) (text : Bytes) (hstate : req.state ≠ .requestLine) :
    PathKept req.path (scan (formOf dao) req text).2.1.path := by
  induction hn : text.length using Nat.strong_induction_on generalizing req text with
  | _ n ih =>
    by_cases hstop : text = [] ∨ req.state = .finish
    · rw [scan, if_pos hstop]
      exact .inl rfl
    · rw [not_or] at hstop
      obtain ⟨req', hline, hstate', -⟩ :=
        parseLine_method (formOf dao) text.length (line 13 10 text).1 hstate
      have hkept := parseLine_path dao _ _ hstate hline
      rw [scan_line hstop.1 hstop.2 hline]
      cases hend : (line 13 10 text).2 with
      | none => exact hkept
      | some rest =>
        have hlen := congrArg List.length (of_line_some hend)
        simp only [List.length_append, List.length_cons] at hlen
        exact hkept.trans (ih rest.length (by omega) req' rest hstate' rfl)

/-- The path of a parsed text stays exactly when that of its request line does. -/
theorem stays_scan_iff (dir text : Bytes) :
    Stays dir (scan (formOf dao) {} text).2.1.path ↔ Stays dir (requestedPath text) := by
  by_cases hne : text = []
  · subst hne
    have hscan : scan (formOf dao) {} [] = (true, {}, []) := by
      rw [scan, if_pos (.inl rfl)]
    rw [hscan]
    exact Iff.rfl
  have hstate : ({} : HttpRequest).state ≠ .finish := by decide
  cases hmatch : matchRequestLine (line 13 10 text).1 with
  | none =>
    have hline : ({} : HttpRequest).parseLine (formOf dao) text.length (line 13 10 text).1 = none := by
      simp only [parseLine, parseRequestLine, hmatch, Option.map_none]
    have hpath : requestedPath text = [] := by rw [requestedPath, hmatch]
    rw [scan_failed hne hstate hline, hpath]
  | some fields =>
    obtain ⟨method, path, version⟩ := fields
    set req : HttpRequest :=
      { method := method, path := parsePath path, version := version, state := .headers } with hreq
    have hline : ({} : HttpRequest).parseLine (formOf dao) text.length (line 13 10 text).1 =
        some req := by
      simp only [parseLine, parseRequestLine, hmatch, Option.map_some]
      rfl
    have hkept : PathKept req.path (scan (formOf dao) {} text).2.1.path := by
      rw [scan_line hne hstate hline]
      cases (line 13 10 text).2 with
      | none => exact .inl rfl
      | some rest => exact pathKept_scan dao req rest (by simp [hreq])
    have hpath : requestedPath text = path := by rw [requestedPath, hmatch]
    rw [stays_iff_of_pathKept hkept, hpath]
    exact stays_parsePath_iff dir path

end Path
end HttpRequest

namespace HttpState
open HttpRequest HttpResponse

private theorem path_respond (ok : Bool) (request : HttpRequest) :
    (respond ok request).path = request.path := by
  unfold respond
  split_ifs <;> rfl

/-- The paths that a request makes the server touch lie inside the source directory exactly when
the path of the request line names again every component of the directory that it climbs out of. -/
theorem requests_confined_iff (dao : Bytes → Bytes → Bool → Bool) (fs : FileSystem) (cwd : Bytes)
    (hcwd : 0 ∉ cwd) (h : HttpState) (rb wb : Buffer) (hrb : rb.readable ≠ []) :
    (∀ path ∈ touched fs (srcDirOf cwd) (process (formOf dao)
        (HttpResponse.text fs (srcDirOf cwd)) h rb wb).2.1.response, Inside (srcDirOf cwd) path) ↔
      Stays (srcDirOf cwd) (requestedPath rb.readable) := by
  obtain ⟨-, hanswer, -⟩ := process_spec (formOf dao) (HttpResponse.text fs (srcDirOf cwd)) h rb wb hrb
  have hresponse := congrArg Answer.response hanswer
  change (process (formOf dao) (HttpResponse.text fs (srcDirOf cwd)) h rb wb).2.1.response =
    respond _ (scan (formOf dao) {} rb.readable).2.1 at hresponse
  rw [hresponse, touched_inside_iff hcwd, path_respond]
  exact stays_scan_iff dao _ _

def passwdRequest : Buffer :=
  (Buffer.init 64).append (ascii "GET /../../etc/passwd HTTP/1.1\r\n\r\n")

/-- A request that climbs out of `/srv/resources/`. -/
theorem passwd_not_confined :
    ¬ ∀ path ∈ touched (fun _ => none) (srcDirOf (ascii "/srv")) (process noForm
        (HttpResponse.text (fun _ => none) (srcDirOf (ascii "/srv"))) {} passwdRequest
        (Buffer.init 64)).2.1.response, Inside (srcDirOf (ascii "/srv")) path := by
  have hpath : (process noForm (HttpResponse.text (fun _ => none) (srcDirOf (ascii "/srv"))) {}
      passwdRequest (Buffer.init 64)).2.1.response.path = ascii "/../../etc/passwd" := by
    decide +kernel
  intro hall
  have hinside := hall _ List.mem_cons_self
  rw [hpath] at hinside
  revert hinside
  decide

theorem requests_confined_page :
    Stays (srcDirOf (ascii "/srv")) (requestedPath pageRequest.readable) ∧
    ∀ path ∈ touched (onePage [1]) (srcDirOf (ascii "/srv")) (process noForm
        (HttpResponse.text (onePage [1]) (srcDirOf (ascii "/srv"))) {} pageRequest
        (Buffer.init 64)).2.1.response, Inside (srcDirOf (ascii "/srv")) path := by
  have hstays : Stays (srcDirOf (ascii "/srv")) (requestedPath pageRequest.readable) := by decide
  have hconfined := (requests_confined_iff (fun _ _ _ => false) (onePage [1]) (ascii "/srv")
    (by decide) {} pageRequest (Buffer.init 64) (by decide)).mpr hstays
  exact ⟨hstays, hconfined⟩

end HttpState
end TermChat
