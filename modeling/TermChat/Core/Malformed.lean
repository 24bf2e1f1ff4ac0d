import TermChat.Core.Chunks

/-! Frames that do not parse and headers above the limit. `TryDecodeMessage` returns `false`
for both, as it does when bytes are missing, and the loop of `process` stops at the first
`false`: what follows in the buffer waits for the next call. -/
namespace TermChat.TcpConnection
open Proto Framing ProtobufHandler

variable {η σ : Type} (http : HttpHandler η) (c : Codec) (svc : Services σ) (w : σ)

/-- What was dispatched, and then a scan of the unread bytes, is a scan of all the bytes
delivered, whatever comes after them. -/
def InStep (delivered : Bytes) (conn : TcpConnection η σ) : Prop :=
  (∀ more, scan c.parse kMaxMessageSize (delivered ++ more) =
    conn.dispatched ++ scan c.parse kMaxMessageSize (conn.readBuff.readable ++ more)) ∧
  (conn.protocol = .protobuf ∨ conn.protocol = .undetermined ∧ conn.readBuff.readable = [])

theorem init_inStep : InStep c [] (init (η := η) w) := by
  constructor
  · intro more
    simp [init]
  · exact .inr ⟨rfl, by simp [init]⟩

variable {c}

theorem deliver_nil_of_undetermined {conn : TcpConnection η σ} (hp : conn.protocol = .undetermined)
    (hr : conn.readBuff.readable = []) : conn.deliver http c svc [] = conn := by
  have hread : readAll conn.readBuff [] = conn.readBuff := by
    rw [readAll, if_pos rfl]
  have hzero : conn.readBuff.readableBytes = 0 := by
    rw [← Buffer.length_readable, hr, List.length_nil]
  have hproc : process http c svc conn = (false, conn) := by
    simp [process, hp, hzero]
  rw [deliver, hread]
  exact congrArg Prod.snd hproc

/-- A chunk, not the start of an HTTP request if it is the first: the unread bytes after it
are those the decoder leaves. -/
theorem InStep.deliver {delivered chunk : Bytes} {conn : TcpConnection η σ}
    (h : InStep c delivered conn)
    (hs : conn.protocol = .undetermined → chunk ≠ [] → isHttpRequest chunk = false) :
    InStep c (delivered ++ chunk) (conn.deliver http c svc chunk) ∧
      (conn.deliver http c svc chunk).readBuff.readable =
        (decodeAll c.parse kMaxMessageSize (conn.readBuff.readable ++ chunk)).2 ∧
      ((conn.deliver http c svc chunk).protocol = .undetermined →
        conn.protocol = .undetermined ∧ chunk = []) := by
  have htakes : conn.TakesProtobuf chunk ∨ conn.protocol = .undetermined ∧
      conn.readBuff.readable = [] ∧ chunk = [] := by
    rcases h.2 with hp | ⟨hp, hr⟩
    · exact .inl (.inl hp)
    · by_cases hne : chunk = []
      · exact .inr ⟨hp, hr, hne⟩
      · have hhttp := hs hp hne
        exact .inl (.inr ⟨hp, by simpa [hr] using hne, by simpa [hr] using hhttp⟩)
  rcases htakes with ht | ⟨hp, hr, rfl⟩
  · obtain ⟨hproto, hread, hdisp, -⟩ := deliver_spec http c svc ht
    refine ⟨⟨?_, .inl hproto⟩, hread, fun hun => absurd (hproto.symm.trans hun) (by simp)⟩
    intro more
    rw [hread, hdisp, List.append_assoc, h.1, ← List.append_assoc conn.readBuff.readable,
      scan_append, List.append_assoc]
  · rw [deliver_nil_of_undetermined http svc hp hr, List.append_nil, List.append_nil, hr]
    have hd : decode c.parse kMaxMessageSize [] = ([], none) := decode_short (by simp)
    refine ⟨h, ?_, fun hun => ⟨hun, rfl⟩⟩
    rw [decodeAll_of_none (by rw [hd]), hd]

/-- The first bytes of all do not look like an HTTP request. -/
def StartsProtobuf (chunks : List Bytes) : Prop :=
  ∀ chunk ∈ chunks.find? (· ≠ []), isHttpRequest chunk = false

theorem startsProtobuf_cons {chunk : Bytes} {chunks : List Bytes}
    (h : StartsProtobuf (chunk :: chunks)) :
    (chunk ≠ [] → isHttpRequest chunk = false) ∧ (chunk = [] → StartsProtobuf chunks) := by
  constructor
  · intro hne
    exact h chunk (by simp [hne])
  · intro hnil
    simpa [StartsProtobuf, hnil] using h

theorem InStep.deliverAll {delivered : Bytes} {conn : TcpConnection η σ} (h : InStep c delivered conn)
    {chunks rest : List Bytes} (hs : conn.protocol = .undetermined → StartsProtobuf (chunks ++ rest)) :
    InStep c (delivered ++ chunks.flatten) (conn.deliverAll http c svc chunks) ∧
      ((conn.deliverAll http c svc chunks).protocol = .undetermined → StartsProtobuf rest) := by
  induction chunks generalizing delivered conn with
  | nil =>
    rw [List.flatten_nil, List.append_nil]
    exact ⟨h, hs⟩
  | cons chunk chunks ih =>
    obtain ⟨hstep, -, hun⟩ := h.deliver http svc fun hp => (startsProtobuf_cons (hs hp)).1
    rw [List.flatten_cons, ← List.append_assoc]
    apply ih hstep
    intro hp
    obtain ⟨hp, hnil⟩ := hun hp
    exact (startsProtobuf_cons (hs hp)).2 hnil

variable (c)

/-- Bytes in any chunking, with `process` after each chunk: what has been dispatched after the
last call is what a scan of all the bytes decodes, exactly when in the bytes that the last
call finds unread nothing decodes behind an attempt that fails. -/
theorem dispatched_eq_scan_iff (chunks : List Bytes) (last : Bytes)
    (hs : StartsProtobuf (chunks ++ [last])) :
    ((init (η := η) w).deliverAll http c svc (chunks ++ [last])).dispatched =
        scan c.parse kMaxMessageSize (chunks ++ [last]).flatten ↔
      NoneHidden c.parse kMaxMessageSize
        (((init (η := η) w).deliverAll http c svc chunks).readBuff.readable ++ last) := by
  obtain ⟨hbefore, hrest⟩ := (init_inStep c w (η := η)).deliverAll http svc fun _ => hs
  obtain ⟨hafter, hread, -⟩ := hbefore.deliver http svc fun hp => (startsProtobuf_cons (hrest hp)).1
  have hlast : (init (η := η) w).deliverAll http c svc (chunks ++ [last]) =
      ((init w).deliverAll http c svc chunks).deliver http c svc last := by
    simp only [TcpConnection.deliverAll, List.foldl_append, List.foldl_cons, List.foldl_nil]
  have hscan := hafter.1 []
  rw [List.append_nil, List.append_nil, hread, List.nil_append] at hscan
  rw [hlast, List.flatten_append, List.flatten_singleton, hscan, ← scan_decodeAll_eq_nil_iff]
  exact List.self_eq_append_right

/-- A frame whose one byte is the start of an unfinished field number. -/
def garbage : Bytes := frame [0xFF]

theorem decode_garbage (rest : Bytes) :
    decode heartbeatCodec.parse kMaxMessageSize (garbage ++ rest) = (rest, none) :=
  decode_frame (by decide) kMaxMessageSize_lt rest

theorem items_heartbeat :
    items heartbeatCodec.parse kMaxMessageSize (heartbeatCodec.packet (heartbeat 7)) =
      [some (heartbeat 7)] := by
  have hd : decode heartbeatCodec.parse kMaxMessageSize
      (heartbeatCodec.packet (heartbeat 7) ++ []) = ([], some (heartbeat 7)) :=
    decode_frame (by decide) kMaxMessageSize_lt []
  rw [List.append_nil] at hd
  rw [items_of_not_waiting (by decide), hd, items_of_waiting (by decide)]

/-- A frame that does not parse in one chunk, and a heartbeat in the next. -/
theorem heartbeat_after_garbage_dispatched :
    ((init (η := Unit) ()).deliverAll noHttp heartbeatCodec (clockServices 1700000000)
      ([garbage] ++ [heartbeatCodec.packet (heartbeat 7)])).dispatched =
    scan heartbeatCodec.parse kMaxMessageSize
      ([garbage] ++ [heartbeatCodec.packet (heartbeat 7)]).flatten := by
  apply (dispatched_eq_scan_iff noHttp heartbeatCodec (clockServices 1700000000) () [garbage]
    (heartbeatCodec.packet (heartbeat 7)) (by unfold StartsProtobuf; decide)).mpr
  have hhttp : isHttpRequest garbage = false := by decide
  obtain ⟨-, hread, -⟩ := (init_inStep (η := Unit) heartbeatCodec ()).deliver noHttp
    (clockServices 1700000000) fun _ _ => hhttp
  have hd := decode_garbage []
  rw [List.append_nil] at hd
  have hunread : ((init (η := Unit) ()).deliverAll noHttp heartbeatCodec
      (clockServices 1700000000) [garbage]).readBuff.readable = [] := by
    refine hread.trans ?_
    rw [init, Buffer.readable_init, List.nil_append, decodeAll_of_none (by rw [hd]), hd]
  rw [hunread, List.nil_append, NoneHidden, items_heartbeat]
  exact List.pairwise_singleton _ _

/-- The same bytes in one chunk: the heartbeat is a whole and valid frame, and it stays in the
buffer. -/
theorem heartbeat_hidden_behind_garbage :
    let bytes := garbage ++ heartbeatCodec.packet (heartbeat 7)
    StartsProtobuf [bytes] ∧
      scan heartbeatCodec.parse kMaxMessageSize bytes = [heartbeat 7] ∧
      ((init (η := Unit) ()).deliverAll noHttp heartbeatCodec (clockServices 1700000000)
        [bytes]).dispatched = [] := by
  intro bytes
  have hd : decode heartbeatCodec.parse kMaxMessageSize bytes = _ := decode_garbage _
  refine ⟨by unfold StartsProtobuf; decide, ?_, ?_⟩
  · rw [scan, items_of_not_waiting (by decide), hd, items_heartbeat]
    rfl
  · have ht : (init (η := Unit) ()).TakesProtobuf bytes := .inr ⟨rfl, by decide, by decide⟩
    obtain ⟨-, -, hdisp, -⟩ := deliver_spec noHttp heartbeatCodec (clockServices 1700000000) ht
    have hunread : (init (η := Unit) ()).readBuff.readable = [] := by simp [init]
    rw [hunread, List.nil_append, decodeAll_of_none (by rw [hd])] at hdisp
    exact hdisp

end TermChat.TcpConnection
