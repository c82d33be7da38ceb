/-
A client that reads frames off what `WebsocketServer` has written behind the
response to the upgrade.
-/
import Jerry.StreamReader
import Jerry.WsEncoding
import Jerry.WsExchange

namespace Jerry

open CString WebsocketCodec

namespace WsFrame

/-- Frames are read one after the other. -/
def reader : StreamReader UInt8 WsFrame where
  parse := parse
  parse_nil := rfl
  parse_append := parse_append_more

end WsFrame

namespace WsAnswer

/-- The payload has a length that `EncodeFrameHead` encodes as a reader expects
it. -/
def Encodable (a : WsAnswer) : Prop :=
  a.payload.length < 2 ^ 63 ∧ EncodableLength a.payload.length

instance (a : WsAnswer) : Decidable a.Encodable :=
  inferInstanceAs (Decidable (_ ∧ _))

/-- The frame that the client is meant to read. -/
def frame (a : WsAnswer) : WsFrame :=
  finFrame a.payload .kText

end WsAnswer

theorem WsAnswer.Encodable.reads {a : WsAnswer} (h : a.Encodable) :
    WsFrame.reader.Reads WsAnswer.text WsAnswer.frame a :=
  (decodable_of_encodable h.1 h.2).parses

namespace WsExchange

open WsSession

variable {env : HandshakeEnv} {u : UpgradeRequest} {frames : List ClientFrame}
  {x : WsExchange}

/-- The response to the upgrade is one text. -/
theorem Greets.unique {greeting greeting' : List UInt8} (h : x.Greets env u greeting)
    (h' : x.Greets env u greeting') : greeting = greeting' := by
  cases hupgrade : x.upgrade with
  | some v =>
      simp only [Greets, hupgrade] at h h'
      exact h.1.trans h'.1.symm
  | none =>
      simp only [Greets, hupgrade] at h h'
      obtain ⟨key, hkey, htext⟩ := h
      obtain ⟨key', hkey', htext'⟩ := h'
      obtain rfl : key = key' := Option.some_inj.mp (hkey.symm.trans hkey')
      exact htext.trans htext'.symm

end WsExchange

end Jerry
