import Flip.CommonDaemon

/-!
# A request under failures

Eight allocations and the send can fail inside one request. Four of the
allocations are checked; the copies of the two names, the result of the
serializer and its text are not. The crawler's `main` gives up when a request
fails, closes its bus and exits with what the close returned.
-/

set_option autoImplicit false

namespace Flip.CrawlerMain
open Flip.CLib Flip.Msg Flip.MsgText Flip.Nbus Flip.CommonDaemon

def exitSuccess : ℤ := 0
def exitFailure : ℤ := 1

/-- From the label `done` on; `ret` is what `main` has come to so far. -/
def finish (shutdown : Bool) (rootNbusCtx : Option NbusCtx) (ret : ℤ) : ℤ :=
  match rootNbusCtx with
  | none => ret
  | some _ =>
    if nbusClose shutdown rootNbusCtx ≠ .eok then exitFailure
    else (nbusClose shutdown rootNbusCtx).code

structure Start where
  initMainContext : Bool
  parseWorkerArgs : Bool
  nbusInitPair : Option NbusCtx
  request : Outcome
  shutdown : Bool

def crawlerMain (m : Start) (clock : Int64) (identityName : CString) (bus : Bus) :
    Except Fault (ℤ × Bus) :=
  if m.initMainContext = false then .ok (finish m.shutdown none exitFailure,bus)
  else if m.parseWorkerArgs = false then .ok (finish m.shutdown none exitFailure,bus)
  else
    match m.nbusInitPair with
    | none => .ok (finish m.shutdown none exitFailure,bus)
    | some ctx =>
      (getConfigFromRootDaemon m.request clock (some ctx) identityName .crawler bus).map
        (fun result =>
          let ret := if result.1 ≠ .eok then exitFailure else exitSuccess
          (finish m.shutdown (some ctx) ret,result.2))

/-- One of the allocations fails whose result is checked. -/
def Detected (o : Outcome) : Prop :=
  o.tmpCtx = false ∨ o.create.tmpCtx = false ∨ o.create.msg = false ∨ o.serialize.tmpCtx = false

/-- The allocations succeed whose results are not checked. -/
def Supplied (o : Outcome) : Prop :=
  o.create.sender = true ∧ o.create.recepient = true ∧ o.serialize.serializedMsg = true ∧
    o.serialize.text = true

theorem create_eok_iff (a : CreateAlloc) (clock : Int64) (sender recepient : CString)
    (messageType : MessageType) (data : Option CString) :
    (createMessage a clock sender recepient messageType data).1 = .eok ↔
      a.tmpCtx = true ∧ a.msg = true := by
  cases htmp : a.tmpCtx <;> cases hmsg : a.msg <;> simp [createMessage, htmp, hmsg]

theorem request_detected (o : Outcome) (clock : Int64) (ctx : NbusCtx) (identityName : CString)
    (daemonType : DaemonType) (bus : Bus) (h : Detected o) :
    ∃ ret ≠ .eok, getConfigFromRootDaemon o clock (some ctx) identityName daemonType bus =
      .ok (ret,bus) := by
  by_cases htmp : o.tmpCtx = true
  · refine ⟨.einval,by decide,?_⟩
    cases htype : requestType daemonType with
    | none => simp [getConfigFromRootDaemon, htmp, htype]
    | some messageType =>
      by_cases hcreated :
          (createMessage o.create clock identityName root messageType none).1 = .eok
      · obtain ⟨hcreate,hmsg⟩ := (create_eok_iff _ _ _ _ _ _).mp hcreated
        have hserialize : o.serialize.tmpCtx = false := by
          simpa [Detected, htmp, hcreate, hmsg] using h
        have hrefused : ∀ msg, serializeMessage o.serialize msg = .ok (.enomem,none) := by
          simp [serializeMessage, hserialize]
        simp [getConfigFromRootDaemon, htmp, htype, hcreated, hrefused, Except.bind]
      · simp [getConfigFromRootDaemon, htmp, htype, hcreated]
  · exact ⟨.enomem,by decide,by simp [getConfigFromRootDaemon, htmp]⟩

theorem serialize_faults (o : Outcome) (clock : Int64) (identityName : CString)
    (htmp : o.serialize.tmpCtx = true) (hs : ¬Supplied o) :
    ∃ f, serializeMessage o.serialize (some { MsgCtx.zero with
        sender := tallocStrdup o.create.sender identityName
        recepient := tallocStrdup o.create.recepient root
        timestamp := clock }) = .error f := by
  cases hsender : o.create.sender with
  | false => exact ⟨.nullFormat,by simp [serializeMessage, htmp, tallocStrdup]⟩
  | true =>
    cases hrecepient : o.create.recepient with
    | false => exact ⟨.nullFormat,by simp [serializeMessage, htmp, tallocStrdup]⟩
    | true =>
      refine ⟨.nullDeref,?_⟩
      cases hser : o.serialize.serializedMsg with
      | false => simp [serializeMessage, htmp, tallocStrdup, hser]
      | true =>
        have htext : o.serialize.text = false := by
          simpa [Supplied, hsender, hrecepient, hser] using hs
        simp [serializeMessage, htmp, tallocStrdup, hser, htext]

theorem request_faults (o : Outcome) (clock : Int64) (ctx : NbusCtx) (identityName : CString)
    (daemonType : DaemonType) (messageType : MessageType) (bus : Bus)
    (htype : requestType daemonType = some messageType) (hd : ¬Detected o) (hs : ¬Supplied o) :
    ∃ f, getConfigFromRootDaemon o clock (some ctx) identityName daemonType bus = .error f := by
  simp only [Detected, not_or, Bool.not_eq_false] at hd
  obtain ⟨htmp,hcreate,hmsg,hserialize⟩ := hd
  have hcreated : createMessage o.create clock identityName root messageType none =
      (.eok,some { MsgCtx.zero with
        sender := tallocStrdup o.create.sender identityName
        recepient := tallocStrdup o.create.recepient root
        timestamp := clock }) := by
    simp [createMessage, hcreate, hmsg, MsgCtx.zero]
  obtain ⟨f,hf⟩ := serialize_faults o clock identityName hserialize hs
  refine ⟨f,?_⟩
  simp only [getConfigFromRootDaemon, htmp, htype, hcreated, hf, Bool.not_true, Bool.false_eq_true,
    if_false, ne_eq, not_true_eq_false]
  rfl

theorem supplied_outcome (o : Outcome) (hd : ¬Detected o) (hs : Supplied o) :
    o = { Outcome.good with sent := o.sent } := by
  simp only [Detected, not_or, Bool.not_eq_false] at hd
  obtain ⟨tmpCtx,⟨createTmp,msg,sender,recepient⟩,⟨serializeTmp,serializedMsg,text⟩,sent⟩ := o
  obtain ⟨rfl,rfl,rfl,rfl⟩ := hd
  obtain ⟨rfl,rfl,rfl,rfl⟩ := hs
  rfl

theorem request_cases (o : Outcome) (clock : Int64) (ctx : NbusCtx) (identityName : CString)
    (daemonType : DaemonType) (messageType : MessageType) (bus : Bus)
    (htype : requestType daemonType = some messageType) :
    (Detected o ∧ ∃ ret ≠ .eok,
      getConfigFromRootDaemon o clock (some ctx) identityName daemonType bus = .ok (ret,bus)) ∨
    (¬Detected o ∧ ¬Supplied o ∧ ∃ f,
      getConfigFromRootDaemon o clock (some ctx) identityName daemonType bus = .error f) ∨
    (¬Detected o ∧ Supplied o ∧
      getConfigFromRootDaemon o clock (some ctx) identityName daemonType bus =
        .ok (if o.sent then (.eok,bus++[(request clock identityName).text])
          else (.einval,bus))) := by
  by_cases hd : Detected o
  · exact .inl ⟨hd,request_detected o clock ctx identityName daemonType bus hd⟩
  · by_cases hs : Supplied o
    · refine .inr (.inr ⟨hd,hs,?_⟩)
      have hanswer := get_config_answers o.sent clock ctx identityName daemonType bus
      rw [← supplied_outcome o hd hs, htype] at hanswer
      exact hanswer
    · exact .inr (.inl ⟨hd,hs,
        request_faults o clock ctx identityName daemonType messageType bus htype hd hs⟩)

/-- The request returns; with `EOK` the bus carries one more frame, built from
both names, and with any other code it is as it was. -/
def Settles (o : Outcome) (clock : Int64) (ctx : NbusCtx) (identityName : CString)
    (daemonType : DaemonType) (bus : Bus) : Prop :=
  getConfigFromRootDaemon o clock (some ctx) identityName daemonType bus =
      .ok (.eok,bus++[(request clock identityName).text]) ∨
    ∃ ret ≠ .eok,
      getConfigFromRootDaemon o clock (some ctx) identityName daemonType bus = .ok (ret,bus)

def FailureKept (o : Outcome) (shutdown : Bool) (clock : Int64) (ctx : NbusCtx)
    (identityName : CString) (bus : Bus) : Prop :=
  ∀ ret bus', getConfigFromRootDaemon o clock (some ctx) identityName .crawler bus =
      .ok (ret,bus') → ret ≠ .eok →
    ∃ status ≠ exitSuccess,
      crawlerMain ⟨true,true,some ctx,o,shutdown⟩ clock identityName bus = .ok (status,bus')

theorem settles_iff (o : Outcome) (clock : Int64) (ctx : NbusCtx) (identityName : CString)
    (daemonType : DaemonType) (bus : Bus) :
    Settles o clock ctx identityName daemonType bus ↔
      requestType daemonType = none ∨ Detected o ∨ Supplied o := by
  cases htype : requestType daemonType with
  | none =>
    refine iff_of_true (.inr ?_) (.inl rfl)
    by_cases htmp : o.tmpCtx = true
    · exact ⟨.einval,by decide,by simp [getConfigFromRootDaemon, htmp, htype]⟩
    · exact ⟨.enomem,by decide,by simp [getConfigFromRootDaemon, htmp]⟩
  | some messageType =>
    rcases request_cases o clock ctx identityName daemonType messageType bus htype with
      ⟨hd,hret⟩ | ⟨hd,hs,f,hf⟩ | ⟨-,hs,hsend⟩
    · exact iff_of_true (.inr hret) (.inr (.inl hd))
    · refine iff_of_false ?_ (by simp [hd, hs])
      rintro (h | ⟨ret,-,h⟩) <;> rw [hf] at h <;> cases h
    · refine iff_of_true ?_ (.inr (.inr hs))
      cases hsent : o.sent <;> rw [hsent] at hsend
      · exact .inr ⟨.einval,by decide,hsend⟩
      · exact .inl hsend

theorem main_exit (o : Outcome) (shutdown : Bool) (clock : Int64) (ctx : NbusCtx)
    (identityName : CString) (bus bus' : Bus) (ret : Errno)
    (h : getConfigFromRootDaemon o clock (some ctx) identityName .crawler bus = .ok (ret,bus')) :
    crawlerMain ⟨true,true,some ctx,o,shutdown⟩ clock identityName bus =
      .ok (if shutdown then exitSuccess else exitFailure,bus') := by
  have hfinish : ∀ status, finish shutdown (some ctx) status =
      if shutdown then exitSuccess else exitFailure := by
    intro status
    cases shutdown <;> rfl
  simp only [crawlerMain, h, Except.map, hfinish, Bool.true_eq_false, if_false]

theorem failure_kept_iff (o : Outcome) (shutdown : Bool) (clock : Int64) (ctx : NbusCtx)
    (identityName : CString) (bus : Bus) :
    FailureKept o shutdown clock ctx identityName bus ↔
      (Detected o ∨ Supplied o ∧ o.sent = false → shutdown = false) := by
  have hfails : (∃ ret bus', getConfigFromRootDaemon o clock (some ctx) identityName .crawler
      bus = .ok (ret,bus') ∧ ret ≠ .eok) ↔ Detected o ∨ Supplied o ∧ o.sent = false := by
    rcases request_cases o clock ctx identityName .crawler _ bus rfl with
      ⟨hd,ret,hne,hret⟩ | ⟨hd,hs,f,hf⟩ | ⟨hd,hs,hsend⟩
    · exact iff_of_true ⟨ret,bus,hret,hne⟩ (.inl hd)
    · simp [hf, hd, hs]
    · cases hsent : o.sent <;> simp [hsend, hsent, hd, hs]
  rw [← hfails]
  constructor
  · rintro h ⟨ret,bus',hret,hne⟩
    obtain ⟨status,hstatus,hmain⟩ := h ret bus' hret hne
    rw [main_exit o shutdown clock ctx identityName bus bus' ret hret] at hmain
    cases shutdown
    · rfl
    · cases hmain
      exact absurd rfl hstatus
  · intro h ret bus' hret hne
    refine ⟨exitFailure,by decide,?_⟩
    rw [main_exit o shutdown clock ctx identityName bus bus' ret hret, h ⟨ret,bus',hret,hne⟩]
    rfl

/-- A request is all or nothing when no unchecked allocation fails unless a
checked one does, and its failure shows when the close fails too. -/
theorem all_or_nothing_iff (o : Outcome) (shutdown : Bool) (clock : Int64) (ctx : NbusCtx)
    (identityName : CString) (daemonType : DaemonType) (bus : Bus) :
    Settles o clock ctx identityName daemonType bus ∧
        FailureKept o shutdown clock ctx identityName bus ↔
      (requestType daemonType = none ∨ Detected o ∨ Supplied o) ∧
        (Detected o ∨ Supplied o ∧ o.sent = false → shutdown = false) := by
  rw [settles_iff, failure_kept_iff]

def senderLost : Outcome := { Outcome.good with create := ⟨true,true,false,true⟩ }

def sendLost : Outcome := { Outcome.good with sent := false }

theorem lost_request :
    getConfigFromRootDaemon senderLost 0 (some ⟨0,0⟩) btcName .crawler [] =
        .error .nullFormat ∧
      ¬Settles senderLost 0 ⟨0,0⟩ btcName .crawler [] ∧
      crawlerMain ⟨true,true,some ⟨0,0⟩,sendLost,true⟩ 0 btcName [] = .ok (exitSuccess,[]) ∧
      ¬FailureKept sendLost true 0 ⟨0,0⟩ btcName [] := by
  have hsend : getConfigFromRootDaemon sendLost 0 (some ⟨0,0⟩) btcName .crawler [] =
      .ok (.einval,[]) := get_config_answers false 0 ⟨0,0⟩ btcName .crawler []
  refine ⟨rfl,?_,main_exit sendLost true 0 ⟨0,0⟩ btcName [] [] .einval hsend,?_⟩
  · rw [settles_iff]
    simp [requestType, Detected, Supplied, senderLost, Outcome.good]
  · intro h
    obtain ⟨status,hstatus,hmain⟩ := h .einval [] hsend (by decide)
    rw [main_exit sendLost true 0 ⟨0,0⟩ btcName [] [] .einval hsend] at hmain
    cases hmain
    exact hstatus rfl

end Flip.CrawlerMain
