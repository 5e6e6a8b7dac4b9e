import Flip.MsgText
import Flip.Nbus

/-!
# Asking the root daemon for a configuration

The request type is chosen here, handed to `create_message` and printed by
`serialize_message`. The record keeps its zero type in between, which is the
crawler's request.
-/

set_option autoImplicit false

namespace Flip.CommonDaemon
open Flip.CLib Flip.JsonText Flip.Msg Flip.MsgText Flip.Nbus

def requestType : DaemonType → Option MessageType
  | .crawler => some .crawlerAskForConfiguration
  | .collector => some .collectorAskForConfiguration
  | _ => none

structure Outcome where
  tmpCtx : Bool
  create : CreateAlloc
  serialize : SerializeAlloc
  sent : Bool

def Outcome.good : Outcome := ⟨true,⟨true,true,true,true⟩,⟨true,true,true⟩,true⟩

def root : CString := ⟨ascii "root",by decide⟩

def sendSerialized (sent : Bool) (ctx : Option NbusCtx) (serialized : Option StringCtx)
    (bus : Bus) : Except Fault (Errno × Bus) :=
  match serialized with
  | none => .error .nullDeref
  | some s => (nbusSend sent ctx s.data s.size bus).map (fun r =>
      if r.1 ≠ .eok then (.einval,r.2) else (.eok,r.2))

def getConfigFromRootDaemon (o : Outcome) (clock : Int64) (ctx : Option NbusCtx)
    (identityName : CString) (daemonType : DaemonType) (bus : Bus) :
    Except Fault (Errno × Bus) :=
  if !o.tmpCtx then .ok (.enomem,bus)
  else
    match requestType daemonType with
    | none => .ok (.einval,bus)
    | some messageType =>
      let created := createMessage o.create clock identityName root messageType none
      if created.1 ≠ .eok then .ok (.einval,bus)
      else (serializeMessage o.serialize created.2).bind (fun serialized =>
        if serialized.1 ≠ .eok then .ok (.einval,bus)
        else sendSerialized o.sent ctx serialized.2 bus)

/-- The message that a worker's request is, whatever type it asked for. -/
def request (clock : Int64) (identityName : CString) : Message :=
  ⟨identityName,root,clock,.crawlerAskForConfiguration,none⟩

theorem create_message (clock : Int64) (identityName : CString) (messageType : MessageType) :
    createMessage Outcome.good.create clock identityName root messageType none =
      (.eok,some (request clock identityName).ctx) := rfl

theorem get_config_answers (sent : Bool) (clock : Int64) (ctx : NbusCtx) (identityName : CString)
    (daemonType : DaemonType) (bus : Bus) :
    getConfigFromRootDaemon { Outcome.good with sent := sent } clock (some ctx) identityName
        daemonType bus =
      match requestType daemonType with
      | none => .ok (.einval,bus)
      | some _ => .ok (if sent then (.eok,bus++[(request clock identityName).text])
          else (.einval,bus)) := by
  have hm := serialize_message (request clock identityName)
  have hs := send_outcome sent ctx (request clock identityName).cstring bus
  cases h : requestType daemonType with
  | none => simp [getConfigFromRootDaemon, h, Outcome.good]
  | some messageType =>
    have hsend : sendSerialized sent (some ctx)
        (some ⟨some (request clock identityName).cstring,
          (request clock identityName).cstring.strlen⟩) bus =
        .ok (if sent then (.eok,bus++[(request clock identityName).text])
          else (.einval,bus)) := by
      simp only [sendSerialized, hs]
      cases sent <;> rfl
    have hser : serializeMessage Outcome.good.serialize
        (some (request clock identityName).ctx) =
          .ok (.eok,some ⟨some (request clock identityName).cstring,
            (request clock identityName).cstring.strlen⟩) := hm
    simp [getConfigFromRootDaemon, h, create_message, hser, Except.bind, hsend,
      show Outcome.good.tmpCtx = true from rfl]

theorem get_config_sends (clock : Int64) (ctx : NbusCtx) (identityName : CString)
    (daemonType : DaemonType) (bus : Bus) :
    getConfigFromRootDaemon .good clock (some ctx) identityName daemonType bus =
      match requestType daemonType with
      | none => .ok (.einval,bus)
      | some _ => .ok (.eok,bus++[(request clock identityName).text]) :=
  get_config_answers true clock ctx identityName daemonType bus

theorem request_data (clock : Int64) (identityName : CString) :
    (request clock identityName).dataValue = some (.obj []) := rfl

theorem request_decodes (clock : Int64) (identityName : CString) (h : Clean identityName) :
    decode (request clock identityName).text =
      some (.obj [(ascii "sender",.str identityName.bytes),(ascii "recepient",.str (ascii "root")),
        (ascii "timestamp",.num clock.toUInt64.toNat 0),(ascii "message_type",.num 0 0),
        (ascii "message_data",.obj [])]) := by
  have hroot : Clean root := ⟨by decide,by decide⟩
  exact (decode_names_iff (request clock identityName) _ _ (request_data _ _)).mpr
    ⟨h,hroot,rfl⟩

def field (frame : Buf) (name : Buf) : Option JVal :=
  match decode frame with
  | some (.obj ms) => ms.lookup name
  | _ => none

/-- A worker of this type puts one request on the bus that names the worker,
the root daemon and the type it asks for; any other daemon sends nothing. -/
def Agrees (clock : Int64) (ctx : NbusCtx) (identityName : CString) (daemonType : DaemonType)
    (bus : Bus) : Prop :=
  match requestType daemonType with
  | some messageType => ∃ code frame,
      getConfigFromRootDaemon .good clock (some ctx) identityName daemonType bus =
        .ok (code,bus++[frame]) ∧
      field frame (ascii "sender") = some (.str identityName.bytes) ∧
      field frame (ascii "recepient") = some (.str (ascii "root")) ∧
      field frame (ascii "message_type") = some (.num messageType.code 0)
  | none => ∃ code,
      getConfigFromRootDaemon .good clock (some ctx) identityName daemonType bus =
        .ok (code,bus) ∧ code ≠ .eok

theorem request_field (clock : Int64) (identityName : CString) (h : Clean identityName) :
    field (request clock identityName).text (ascii "sender") = some (.str identityName.bytes) ∧
    field (request clock identityName).text (ascii "recepient") = some (.str (ascii "root")) ∧
    field (request clock identityName).text (ascii "message_type") = some (.num 0 0) := by
  simp only [field, request_decodes clock identityName h]
  exact ⟨rfl,rfl,rfl⟩

/-- Every daemon's request agrees with its type, except the collector's, and
the collector's request is the crawler's. -/
theorem request_agrees_iff (clock : Int64) (ctx : NbusCtx) (identityName : CString)
    (daemonType : DaemonType) (bus : Bus) (h : Clean identityName) :
    (Agrees clock ctx identityName daemonType bus ↔ daemonType ≠ .collector) ∧
    getConfigFromRootDaemon .good clock (some ctx) identityName .crawler bus =
      getConfigFromRootDaemon .good clock (some ctx) identityName .collector bus := by
  obtain ⟨hsender,hroot,htype⟩ := request_field clock identityName h
  refine ⟨?_,by rw [get_config_sends, get_config_sends]; rfl⟩
  simp only [Agrees, get_config_sends]
  cases daemonType with
  | flip => simp [requestType]
  | flipd => simp [requestType]
  | crawler =>
    simp only [requestType, MessageType.code]
    exact ⟨fun _ => (by decide),fun _ => ⟨_,_,rfl,hsender,hroot,htype⟩⟩
  | collector =>
    refine ⟨?_,fun hne => absurd rfl hne⟩
    rintro ⟨code,frame,hf,-,-,hty⟩
    simp only [requestType] at hf
    obtain ⟨-,rfl⟩ : _ ∧ (request clock identityName).text = frame := by
      simpa only [Except.ok.injEq, Prod.mk.injEq, List.append_cancel_left_eq, List.cons.injEq,
        and_true] using hf
    rw [htype] at hty
    simp [MessageType.code] at hty

def btcName : CString := ⟨ascii "btc",by decide⟩

theorem crawler_agrees :
    Clean btcName ∧ Agrees 0 ⟨0,0⟩ btcName .crawler [] := by
  have h : Clean btcName := ⟨by decide,by decide⟩
  exact ⟨h,(request_agrees_iff 0 ⟨0,0⟩ btcName .crawler [] h).1.mpr (by decide)⟩

theorem collector_asks_as_crawler :
    ¬∀ (clock : Int64) (ctx : NbusCtx) (identityName : CString) (daemonType : DaemonType)
      (bus : Bus), Clean identityName → Agrees clock ctx identityName daemonType bus := by
  intro h
  obtain ⟨code,frame,hf,-,-,hty⟩ := h 0 ⟨0,0⟩ btcName .collector [] ⟨by decide,by decide⟩
  rw [get_config_sends] at hf
  obtain ⟨-,rfl⟩ : _ ∧ (request 0 btcName).text = frame := by
    simpa only [requestType, Except.ok.injEq, Prod.mk.injEq, List.append_cancel_left_eq,
      List.cons.injEq, and_true] using hf
  have htype := (request_field 0 btcName ⟨by decide,by decide⟩).2.2
  rw [htype] at hty
  simp [MessageType.code] at hty

end Flip.CommonDaemon
