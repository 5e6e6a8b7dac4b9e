import Flip.JsonString

/-!
# Messages between the daemons

A message is built in two steps, a record and its text. The text is pasted
together from the fields, and what a JSON decoder makes of it is computed here
for every sender, receiver, clock value and payload.
-/

set_option autoImplicit false

namespace Flip.Msg
open Flip.CLib Flip.Decimal Flip.Utf8 Flip.JsonText Flip.JsonReading Flip.JsonString

inductive MessageType where
  | crawlerAskForConfiguration
  | collectorAskForConfiguration
  deriving DecidableEq

def MessageType.code : MessageType → ℕ
  | .crawlerAskForConfiguration => 0
  | .collectorAskForConfiguration => 1

structure MsgCtx where
  sender : Option CString
  recepient : Option CString
  timestamp : Int64
  messageType : MessageType
  data : Option CString

/-- `talloc_zero` of a `msg_ctx`: the zero message type is the crawler's. -/
def MsgCtx.zero : MsgCtx := ⟨none,none,0,.crawlerAskForConfiguration,none⟩

def tallocStrdup (ok : Bool) (s : CString) : Option CString := if ok then some s else none

structure CreateAlloc where
  tmpCtx : Bool
  msg : Bool
  sender : Bool
  recepient : Bool

/-- The `message_type` argument is not stored, and neither copy is checked. -/
def createMessage (a : CreateAlloc) (clock : Int64) (sender recepient : CString)
    (_messageType : MessageType) (data : Option CString) : Errno × Option MsgCtx :=
  if !a.tmpCtx then (.enomem,none)
  else if !a.msg then (.enomem,none)
  else (.eok,some { MsgCtx.zero with
    sender := tallocStrdup a.sender sender
    recepient := tallocStrdup a.recepient recepient
    timestamp := clock
    data := data })

def schema (sender recepient : CString) (timestamp : Int64) (messageType : MessageType)
    (data : Option CString) : Buf :=
  ascii "\x7b\"sender\": \"" ++ sender.bytes ++ ascii "\", \"recepient\":\"" ++ recepient.bytes ++
    ascii "\", \"timestamp\": " ++ decimal timestamp.toUInt64.toNat ++
    ascii ", \"message_type\": " ++ decimal messageType.code ++
    ascii ", \"message_data\": " ++ (data.map CString.bytes).getD (ascii "{}") ++ ascii "\x7d"

theorem decimal_nul_free (n : ℕ) : (0 : Byte) ∉ decimal n :=
  fun h => absurd (decimal_digits n 0 h) (by decide)

theorem schema_nul_free (s r : CString) (t : Int64) (ty : MessageType) (d : Option CString) :
    (0 : Byte) ∉ schema s r t ty d := by
  have hd : (0 : Byte) ∉ (d.map CString.bytes).getD (ascii "{}") := by
    cases d with
    | none => exact by decide
    | some d => exact d.nulFree
  simp only [schema, List.mem_append, not_or]
  exact ⟨⟨⟨⟨⟨⟨⟨⟨⟨⟨by decide,s.nulFree⟩,by decide⟩,r.nulFree⟩,by decide⟩,decimal_nul_free _⟩,
    by decide⟩,decimal_nul_free _⟩,by decide⟩,hd⟩,by decide⟩

structure SerializeAlloc where
  tmpCtx : Bool
  serializedMsg : Bool
  text : Bool

/-- The check after the allocation of the result looks at `msg` again. -/
def serializeMessage (a : SerializeAlloc) (msg : Option MsgCtx) :
    Except Fault (Errno × Option StringCtx) :=
  if !a.tmpCtx then .ok (.enomem,none)
  else
    match msg with
    | none => .ok (.enomem,none)
    | some m =>
      match m.sender, m.recepient with
      | some s, some r =>
        if !a.serializedMsg then .error .nullDeref
        else if !a.text then .error .nullDeref
        else
          let text : CString :=
            ⟨schema s r m.timestamp m.messageType m.data,schema_nul_free _ _ _ _ _⟩
          .ok (.eok,some ⟨some text,text.strlen⟩)
      | _, _ => .error .nullFormat

end Flip.Msg
