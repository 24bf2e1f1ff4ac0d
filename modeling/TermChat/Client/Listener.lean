import TermChat.Base.Framing
import TermChat.Proto.Messages

/-! The framing of `NetworkManager::ListenerLoop`: four bytes of header, then the body, with
`recv` returning any part of what is asked for. -/
namespace TermChat
open Framing

namespace ListenerLoop

def maxPacket : ℕ := 10 * 1024 * 1024

inductive Phase where
  | header
  | body (msgLen : ℕ)
  deriving DecidableEq, Repr

end ListenerLoop

open ListenerLoop

/-- `buffer` is what has been received of the header or of the body. `bodies` records the
buffers that were given to `ParseFromString`. -/
structure ListenerLoop where
  phase : Phase
  buffer : Bytes
  bodies : List Bytes
  running : Bool
  deriving DecidableEq, Repr

namespace ListenerLoop

def init : ListenerLoop := ⟨.header, [], [], true⟩

def wanted (l : ListenerLoop) : ℕ :=
  match l.phase with
  | .header => 4 - l.buffer.length
  | .body msgLen => msgLen - l.buffer.length

def recv (l : ListenerLoop) (data : Bytes) : ListenerLoop :=
  let buffer := l.buffer ++ data
  match l.phase with
  | .header =>
    if buffer.length < 4 then { l with buffer := buffer }
    else if maxPacket < beNat buffer then { l with buffer := buffer, running := false }
    -- an empty body is complete without another `recv`
    else if beNat buffer = 0 then { l with buffer := [], bodies := l.bodies ++ [[]] }
    else { l with phase := .body (beNat buffer), buffer := [] }
  | .body msgLen =>
    if buffer.length < msgLen then { l with buffer := buffer }
    else { l with phase := .header, buffer := [], bodies := l.bodies ++ [buffer] }

/-- The loop on a stream, and what is left of it. Each number is the count that a `recv` returns,
within what it asks for and what there is; without bytes it waits. -/
def listen (l : ListenerLoop) : List ℕ → Bytes → ListenerLoop × Bytes
  | [], stream => (l, stream)
  | n :: ns, stream =>
    if l.running = false ∨ stream = [] then (l, stream)
    else
      let count := min (max n 1) l.wanted
      listen (l.recv (stream.take count)) ns (stream.drop count)

/-- What has been received since the last body. -/
def unfinished (l : ListenerLoop) : Bytes :=
  match l.phase with
  | .header => l.buffer
  | .body msgLen => be32 msgLen ++ l.buffer

def Receiving (l : ListenerLoop) : Prop :=
  match l.phase with
  | .header => l.buffer.length < 4
  | .body msgLen => l.buffer.length < msgLen ∧ msgLen ≤ maxPacket

/-- The loop has read the bytes, as whole frames and a piece of the next one. -/
structure HasRead (bytes : Bytes) (l : ListenerLoop) : Prop where
  running : l.running = true
  bytes : bytes = frames l.bodies ++ l.unfinished
  bodies : ∀ p ∈ l.bodies, p.length ≤ maxPacket
  receiving : l.Receiving

variable {l : ListenerLoop} {bytes data : Bytes} {ps : List Bytes}

theorem init_hasRead : HasRead [] init :=
  ⟨rfl, rfl, fun _ hp => absurd hp List.not_mem_nil, Nat.zero_lt_succ _⟩

theorem maxPacket_lt : maxPacket < 2 ^ 32 := by decide

theorem Receiving.wanted_pos (h : l.Receiving) : 0 < l.wanted := by
  unfold Receiving at h
  unfold wanted
  cases hphase : l.phase with
  | header =>
    rw [hphase] at h
    dsimp only at h ⊢
    omega
  | body msgLen =>
    rw [hphase] at h
    dsimp only at h ⊢
    omega

theorem HasRead.next (h : HasRead bytes l) (hps : ∀ p ∈ ps, p.length ≤ maxPacket) {more : Bytes}
    (hpre : bytes ++ more <+: frames ps) :
    ∃ todo, ps = l.bodies ++ todo ∧ l.unfinished ++ more <+: frames todo := by
  rw [h.bytes, List.append_assoc] at hpre
  exact exists_of_frames_isPrefix (fun p hp => (hps p hp).trans_lt maxPacket_lt)
    (fun p hp => (h.bodies p hp).trans_lt maxPacket_lt) hpre

theorem HasRead.unfinished_lt (h : HasRead bytes l) {p : Bytes} (hp : p.length ≤ maxPacket)
    (hpre : l.unfinished <+: frames (p :: ps)) : l.unfinished.length < (frame p).length := by
  have hrec := h.receiving
  obtain ⟨phase, buffer, bodies, running⟩ := l
  rw [length_frame]
  cases phase with
  | header =>
    simp only [unfinished, Receiving] at *
    omega
  | body msgLen =>
    simp only [unfinished, Receiving] at *
    rw [frames_cons] at hpre
    have hhead := take_four_of_isPrefix hpre (by simp)
    rw [List.take_left' (length_be32 _)] at hhead
    have hlen : msgLen = p.length := by
      rw [← beNat_be32_of_lt (hrec.2.trans_lt maxPacket_lt), hhead,
        beNat_be32_of_lt (hp.trans_lt maxPacket_lt)]
    rw [List.length_append, length_be32]
    omega

/-- A `recv` keeps the account of the bytes, as long as the loop goes on. -/
theorem HasRead.recv (h : HasRead bytes l) (hdata : data.length ≤ l.wanted)
    (hrun : (l.recv data).running = true) : HasRead (bytes ++ data) (l.recv data) := by
  obtain ⟨hl, hbytes, hbodies, hrec⟩ := h
  obtain ⟨phase, buffer, bodies, running⟩ := l
  cases phase with
  | header =>
    simp only [unfinished, wanted, Receiving, ListenerLoop.recv] at *
    split_ifs at hrun ⊢ with hshort hbig hzero
    · refine ⟨hl, ?_, hbodies, hshort⟩
      rw [hbytes, List.append_assoc]
      rfl
    all_goals
      have hfour : (buffer ++ data).length = 4 := by
        rw [List.length_append] at hshort ⊢
        omega
      have hhead := be32_beNat hfour
      rw [hbytes, List.append_assoc]
    · refine ⟨hl, ?_, ?_, Nat.zero_lt_succ _⟩
      · rw [← hhead, hzero]
        simp [frame, unfinished]
      · simpa [or_imp, forall_and] using hbodies
    · refine ⟨hl, ?_, hbodies, Nat.pos_of_ne_zero hzero, not_lt.mp hbig⟩
      simp [unfinished, hhead]
  | body msgLen =>
    simp only [unfinished, wanted, Receiving, ListenerLoop.recv] at *
    split_ifs with hshort
    · refine ⟨hl, ?_, hbodies, hshort, hrec.2⟩
      simp [hbytes, unfinished]
    · have hall : (buffer ++ data).length = msgLen := by
        rw [List.length_append] at hshort ⊢
        omega
      refine ⟨hl, ?_, ?_, Nat.zero_lt_succ _⟩
      · rw [← hall] at hbytes
        simp [hbytes, unfinished, frame]
      · intro p hp
        rcases List.mem_append.mp hp with hp | hp
        · exact hbodies p hp
        · rw [List.mem_singleton.mp hp, hall]
          exact hrec.2

theorem HasRead.recv_running (h : HasRead bytes l) (hps : ∀ p ∈ ps, p.length ≤ maxPacket)
    (hpre : bytes ++ data <+: frames ps) (hdata : data.length ≤ l.wanted) :
    (l.recv data).running = true := by
  obtain ⟨todo, rfl, htodo⟩ := h.next hps hpre
  obtain ⟨hl, -, -, hrec⟩ := h
  obtain ⟨phase, buffer, bodies, running⟩ := l
  cases phase with
  | body msgLen =>
    simp only [ListenerLoop.recv]
    split_ifs <;> exact hl
  | header =>
    simp only [unfinished, wanted, Receiving, ListenerLoop.recv] at *
    split_ifs with hshort hbig
    · exact hl
    · exfalso
      have hfour : (buffer ++ data).length = 4 := by
        rw [List.length_append] at hshort ⊢
        omega
      cases todo with
      | nil =>
        rw [frames_nil, List.prefix_nil] at htodo
        simp [htodo] at hfour
      | cons p todo =>
        -- the four bytes are the header of the frame that comes next
        rw [frames_cons] at htodo
        have hhead := take_four_of_isPrefix htodo hfour.ge
        rw [List.take_of_length_le hfour.le] at hhead
        have hle := hps p (by simp)
        rw [hhead, beNat_be32_of_lt (hle.trans_lt maxPacket_lt)] at hbig
        omega
    · exact hl
    · exact hl

/-- The loop on a stream of frames within the limit, however `recv` splits it: it goes on, has
read whole frames and a piece of the next one, and with enough calls it has read everything. -/
theorem HasRead.listen (h : HasRead bytes l) (hps : ∀ p ∈ ps, p.length ≤ maxPacket) {stream : Bytes}
    (hpre : bytes ++ stream <+: frames ps) (ns : List ℕ) :
    ∃ read, stream = read ++ (l.listen ns stream).2 ∧
      HasRead (bytes ++ read) (l.listen ns stream).1 ∧
      (stream.length ≤ ns.length → (l.listen ns stream).2 = []) := by
  induction ns generalizing bytes l stream with
  | nil =>
    refine ⟨[], rfl, by rwa [List.append_nil], fun hlen => ?_⟩
    exact List.length_eq_zero_iff.mp (Nat.le_zero.mp hlen)
  | cons n ns ih =>
    unfold ListenerLoop.listen
    by_cases hstream : stream = []
    · rw [if_pos (.inr hstream)]
      exact ⟨[], rfl, by rwa [List.append_nil], fun _ => hstream⟩
    · have hgo : ¬ (l.running = false ∨ stream = []) := by
        simp [h.running, hstream]
      rw [if_neg hgo]
      have hwanted := h.receiving.wanted_pos
      have hlen : (stream.take (min (max n 1) l.wanted)).length ≤ l.wanted := by
        rw [List.length_take]
        omega
      have hpre' : bytes ++ stream.take (min (max n 1) l.wanted) ++
          stream.drop (min (max n 1) l.wanted) <+: frames ps := by
        rwa [List.append_assoc, List.take_append_drop]
      have hnext := h.recv hlen (h.recv_running hps ((List.prefix_append _ _).trans hpre') hlen)
      obtain ⟨read, hread, hhas, hall⟩ := ih hnext hpre'
      refine ⟨stream.take (min (max n 1) l.wanted) ++ read, ?_, ?_, fun hns => ?_⟩
      · rw [List.append_assoc, ← hread, List.take_append_drop]
      · rwa [← List.append_assoc]
      · apply hall
        have hpos := List.length_pos_of_ne_nil hstream
        rw [List.length_drop]
        rw [List.length_cons] at hns
        omega

/-- A client that reads the start of a stream of frames within its limit, however `recv` splits it,
has the payloads of whole frames and less than the next frame besides, and with enough calls it has
read everything. -/
theorem listen_isPrefix {stream : Bytes} (hps : ∀ p ∈ ps, p.length ≤ maxPacket)
    (hpre : stream <+: frames ps) (ns : List ℕ) :
    let client := (init.listen ns stream).1
    let unread := (init.listen ns stream).2
    client.running = true ∧ (stream.length ≤ ns.length → unread = []) ∧
      ∃ todo tail, ps = client.bodies ++ todo ∧ stream = frames client.bodies ++ tail ++ unread ∧
        ∀ p ∈ todo.head?, tail.length < (frame p).length := by
  intro client unread
  obtain ⟨read, hread, hhas, hdone⟩ := init_hasRead.listen hps (show [] ++ stream <+: _ from hpre) ns
  rw [List.nil_append] at hhas
  have hreadpre : read ++ [] <+: frames ps := by
    rw [List.append_nil]
    exact (show read <+: stream from ⟨unread, hread.symm⟩).trans hpre
  obtain ⟨todo, htodo, htail⟩ := hhas.next hps hreadpre
  rw [List.append_nil] at htail
  refine ⟨hhas.running, hdone, todo, client.unfinished, htodo, ?_, fun p hp => ?_⟩
  · rw [← hhas.bytes]
    exact hread
  · cases todo with
    | nil => cases hp
    | cons q todo =>
      obtain rfl : q = p := Option.some.inj hp
      exact hhas.unfinished_lt (hps q (by rw [htodo]; simp)) htail

private theorem listen_of_stopped (h : l.running = false) (ns : List ℕ) (stream : Bytes) :
    l.listen ns stream = (l, stream) := by
  cases ns with
  | nil => rfl
  | cons n ns => rw [listen, if_pos (.inl h)]

/-- A receive that does not reach behind a header which announces too much: the header is not
complete yet, or the loop ends. -/
theorem recv_too_large {n : ℕ} (hbig : maxPacket < n) (hn : n < 2 ^ 32) {rest stream : Bytes}
    (hphase : l.phase = .header) (hstream : l.buffer ++ stream = be32 n ++ rest) {count : ℕ}
    (hcount : (l.buffer ++ stream.take count).length ≤ 4) :
    (l.buffer ++ stream.take count).length < 4 ∧
        l.recv (stream.take count) = { l with buffer := l.buffer ++ stream.take count } ∨
      (l.recv (stream.take count)).running = false := by
  by_cases hshort : (l.buffer ++ stream.take count).length < 4
  · left
    refine ⟨hshort, ?_⟩
    simp only [recv, hphase, if_pos hshort]
  · right
    have hfour : (l.buffer ++ stream.take count).length = 4 := by omega
    have hhead : l.buffer ++ stream.take count = be32 n := by
      have hfirst := congrArg (List.take 4) hstream
      rw [List.take_left' (length_be32 n), ← List.take_append_drop count stream,
        ← List.append_assoc, List.take_left' hfour] at hfirst
      exact hfirst
    simp only [recv, hphase, if_neg hshort]
    rw [hhead, beNat_be32_of_lt hn, if_pos hbig]

theorem listen_too_large {n : ℕ} (hbig : maxPacket < n) (hn : n < 2 ^ 32) {rest stream : Bytes}
    (hphase : l.phase = .header) (hbuffer : l.buffer.length < 4)
    (hstream : l.buffer ++ stream = be32 n ++ rest) {ns : List ℕ}
    (hns : 4 ≤ l.buffer.length + ns.length) : (l.listen ns stream).1.running = false := by
  induction ns generalizing l stream with
  | nil =>
    rw [List.length_nil] at hns
    omega
  | cons k ns ih =>
    have hlen : l.buffer.length + stream.length = 4 + rest.length := by
      rw [← List.length_append, hstream, List.length_append, length_be32]
    have hne : stream ≠ [] := by
      intro hnil
      rw [hnil, List.length_nil] at hlen
      omega
    by_cases hrun : l.running = false
    · rw [listen_of_stopped hrun]
      exact hrun
    rw [ListenerLoop.listen, if_neg (by simp [hrun, hne])]
    dsimp only
    have hwanted : l.wanted = 4 - l.buffer.length := by
      simp only [wanted, hphase]
    set count := min (max k 1) l.wanted with hcount
    have hgrown : (l.buffer ++ stream.take count).length = l.buffer.length + count := by
      rw [List.length_append, List.length_take]
      omega
    rcases recv_too_large hbig hn hphase hstream (hgrown.trans_le (by omega)) with
      ⟨hshort, hrecv⟩ | hrecv
    · rw [hrecv]
      apply ih (l := { l with buffer := l.buffer ++ stream.take count }) hphase hshort
      · show l.buffer ++ stream.take count ++ stream.drop count = be32 n ++ rest
        rw [List.append_assoc, List.take_append_drop, hstream]
      · show 4 ≤ (l.buffer ++ stream.take count).length + ns.length
        rw [List.length_cons] at hns
        omega
    · rw [listen_of_stopped hrecv]
      exact hrecv

/-- A packet is received as a whole exactly when it is within the limit. -/
theorem running_listen_frame_iff {p : Bytes} (hp : p.length < 2 ^ 32) {ns : List ℕ}
    (hns : (frame p).length ≤ ns.length) :
    (init.listen ns (frame p)).1.running = true ↔ p.length ≤ maxPacket := by
  rw [length_frame] at hns
  constructor
  · intro hrun
    by_contra hbig
    have hstop : (init.listen ns (frame p)).1.running = false :=
      listen_too_large (not_le.mp hbig) hp rfl (by decide)
        (rfl : init.buffer ++ frame p = be32 p.length ++ p) (by rw [init, List.length_nil]; omega)
    rw [hstop] at hrun
    cases hrun
  · intro hle
    have hall : ∀ q ∈ [p], q.length ≤ maxPacket := by simpa using hle
    exact (listen_isPrefix hall (show frame p <+: frames [p] by simp) ns).1

end ListenerLoop
end TermChat
