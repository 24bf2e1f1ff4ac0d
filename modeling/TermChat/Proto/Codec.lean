import TermChat.Proto.Messages
import TermChat.Base.Framing
import Mathlib.Data.List.Nodup

/-! The protobuf library as the code uses it. Serialisation may fail; what it produces
parses back to the same envelope. -/
namespace TermChat
open Proto

/-- `SerializeToString` and `ParseFromArray` of `im::Envelope`. -/
structure Codec where
  serialize : Envelope → Option Bytes
  parse : Bytes → Option Envelope
  parse_serialize : ∀ e s, serialize e = some s → parse s = some e

namespace Codec

/-- `SerializeAsString`: the empty string when serialisation fails. -/
def serializeAsString (c : Codec) (e : Envelope) : Bytes := (c.serialize e).getD []

/-- The packet that `NetworkManager::SendEnvelope` writes to the socket. -/
def packet (c : Codec) (e : Envelope) : Bytes := Framing.frame (c.serializeAsString e)

def stream (c : Codec) (es : List Envelope) : Bytes := Framing.frames (es.map c.serializeAsString)

/-- The codec that knows the wire bytes of the envelopes of a table and no others. -/
def ofTable (table : List (Envelope × Bytes)) (h : (table.map Prod.snd).Nodup) : Codec where
  serialize e := (table.find? (·.1 = e)).map Prod.snd
  parse s := (table.find? (·.2 = s)).map Prod.fst
  parse_serialize e s hs := by
    obtain ⟨entry, hfind, rfl⟩ := Option.map_eq_some_iff.mp hs
    have hmem := List.mem_of_find?_eq_some hfind
    obtain rfl : entry.1 = e := by simpa using List.find?_some hfind
    cases hf : table.find? (·.2 = entry.2) with
    | none => exact absurd (List.find?_eq_none.mp hf entry hmem) (by simp)
    | some other =>
      have heq : other.2 = entry.2 := by simpa using List.find?_some hf
      rw [List.inj_on_of_nodup_map h (List.mem_of_find?_eq_some hf) hmem heq]
      rfl

theorem serializeAsString_eq {c : Codec} {e : Envelope} {s : Bytes} (h : c.serialize e = some s) :
    c.serializeAsString e = s := by
  simp [serializeAsString, h]

theorem parse_serializeAsString {c : Codec} {e : Envelope} (h : (c.serialize e).isSome) :
    c.parse (c.serializeAsString e) = some e := by
  obtain ⟨s, hs⟩ := Option.isSome_iff_exists.mp h
  rw [serializeAsString_eq hs, c.parse_serialize e s hs]

end Codec
end TermChat
