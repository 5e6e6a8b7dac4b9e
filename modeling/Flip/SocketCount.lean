import Flip.BusSetup
import Flip.FileFromUrl
import Flip.Nbus
import Flip.Runs

/-!
# The sockets of a process

An initialisation opens a socket and adds an endpoint to it. A close shuts the
endpoint down and frees the context, and no call closes the socket, which also
stays open when an initialisation fails later on. The sockets and the contexts
are therefore as many as each other only while nothing is closed and no
initialisation fails after its socket was opened.
-/

set_option autoImplicit false

namespace Flip.SocketCount
open Flip.CLib Flip.Runs Flip.FileFromUrl Flip.CBlock
open Flip.Nbus (NbusCtx)
open Flip.BusSetup (Protocol)

/-- The sockets that are open, their endpoints, and the contexts that an
initialisation returned and no close has freed. -/
structure Process where
  sockets : List ℤ
  endpoints : List (ℤ × ℤ)
  contexts : List NbusCtx
  deriving DecidableEq

def start : Process := ⟨[],[],[]⟩

/-- What the calls inside one initialisation give. `fileExists` is the answer
of `is_file_exist` for each name, and a negative endpoint is `none`. -/
structure InitOutcome where
  tmpCtx : Bool
  ctx : Bool
  socket : Bool
  setsockopt : Bool
  fileName : UrlAlloc
  fileExists : Buf → Bool
  connect : Option ℕ
  bind : Option ℕ

/-- Descriptors are handed out in order, since none is given back. -/
def nnSocket (p : Process) : ℤ × Process :=
  (p.sockets.length,{ p with sockets := p.sockets.length::p.sockets })

def addEndpoint (p : Process) (ctx : NbusCtx) : Process :=
  { p with
    endpoints := (ctx.sockFd,ctx.endpointId)::p.endpoints
    contexts := ctx::p.contexts }

def nbusInitPubsub (o : InitOutcome) (url : CString) (protocol : Protocol) (p : Process) :
    Except CopyFault (Errno × Process) :=
  if o.tmpCtx = false then .ok (.enomem,p)
  else if o.ctx = false then .ok (.enomem,p)
  else if o.socket = false then .ok (.enoent,p)
  else
    let (sockFd,p) := nnSocket p
    if protocol = .sub ∧ o.setsockopt = false then .ok (.enoent,p)
    else
      match getFileFromUrl o.fileName url with
      | .error fault => .error fault
      | .ok (.eok,some fileName) =>
        match if o.fileExists fileName.bytes then o.connect else o.bind with
        | none => .ok (.enoent,p)
        | some endpointId => .ok (.eok,addEndpoint p ⟨sockFd,endpointId⟩)
      | .ok (ret,_) => .ok (ret,p)

def nbusInitPair (o : InitOutcome) (url : CString) (p : Process) :
    Except CopyFault (Errno × Process) :=
  nbusInitPubsub o url .bus p

def nbusInitPub (o : InitOutcome) (url : CString) (p : Process) :
    Except CopyFault (Errno × Process) :=
  nbusInitPubsub o url .pub p

def nbusInitSub (o : InitOutcome) (url : CString) (p : Process) :
    Except CopyFault (Errno × Process) :=
  nbusInitPubsub o url .sub p

/-- `nn_shutdown` takes the endpoint away and leaves the socket. -/
def nbusClose (shutdown : Bool) (which : ℕ) (p : Process) : Errno × Process :=
  match p.contexts[which]? with
  | none => (.eok,p)
  | some ctx =>
    if shutdown then
      (.eok,{ p with
        endpoints := p.endpoints.erase (ctx.sockFd,ctx.endpointId)
        contexts := p.contexts.eraseIdx which })
    else (.enoent,p)

inductive Call where
  | initPair (url : CString) (o : InitOutcome)
  | initPub (url : CString) (o : InitOutcome)
  | initSub (url : CString) (o : InitOutcome)
  | close (which : ℕ) (shutdown : Bool)

def Call.run (p : Process) : Call → Except CopyFault (Errno × Process)
  | .initPair url o => nbusInitPair o url p
  | .initPub url o => nbusInitPub o url p
  | .initSub url o => nbusInitSub o url p
  | .close which shutdown => .ok (nbusClose shutdown which p)

def step (p : Process) (call : Call) : Option Process :=
  match call.run p with
  | .ok result => some result.2
  | .error _ => none

def Balanced (p : Process) : Prop := p.sockets.length = p.contexts.length

def Accounted (calls : List Call) : Prop :=
  ∀ before after, calls = before++after → ∃ p, run step start before = some p ∧ Balanced p

def InitOutcome.Opens (o : InitOutcome) : Prop :=
  o.tmpCtx = true ∧ o.ctx = true ∧ o.socket = true

instance (o : InitOutcome) : Decidable o.Opens := inferInstanceAs (Decidable (_ ∧ _))

structure InitOutcome.Completes (o : InitOutcome) (url : CString) (protocol : Protocol) :
    Prop where
  subscribed : protocol = .sub → o.setsockopt = true
  attached : ∃ fileName, getFileFromUrl o.fileName url = .ok (.eok,some fileName) ∧
    (if o.fileExists fileName.bytes then o.connect else o.bind).isSome

def InitOutcome.Keeps (o : InitOutcome) (url : CString) (protocol : Protocol) : Prop :=
  o.Opens → o.Completes url protocol

/-- An initialisation opens no socket or succeeds, and a close is handed NULL
or fails. -/
def Keeps (p : Process) : Call → Prop
  | .initPair url o => o.Keeps url .bus
  | .initPub url o => o.Keeps url .pub
  | .initSub url o => o.Keeps url .sub
  | .close which shutdown => p.contexts[which]? = none ∨ shutdown = false

section Init

variable (o : InitOutcome) (url : CString) (protocol : Protocol) (p : Process)

theorem init_unopened (h : ¬o.Opens) :
    ∃ ret, ret ≠ .eok ∧ nbusInitPubsub o url protocol p = .ok (ret,p) := by
  by_cases htmp : o.tmpCtx = false
  · exact ⟨.enomem,by decide,by rw [nbusInitPubsub, if_pos htmp]⟩
  by_cases hctx : o.ctx = false
  · exact ⟨.enomem,by decide,by rw [nbusInitPubsub, if_neg htmp, if_pos hctx]⟩
  by_cases hsocket : o.socket = false
  · exact ⟨.enoent,by decide,by rw [nbusInitPubsub, if_neg htmp, if_neg hctx, if_pos hsocket]⟩
  simp only [Bool.not_eq_false] at htmp hctx hsocket
  exact absurd ⟨htmp,hctx,hsocket⟩ h

theorem init_opened (h : o.Opens) :
    nbusInitPubsub o url protocol p =
      if protocol = .sub ∧ o.setsockopt = false then .ok (.enoent,(nnSocket p).2)
      else
        match getFileFromUrl o.fileName url with
        | .error fault => .error fault
        | .ok (.eok,some fileName) =>
          match if o.fileExists fileName.bytes then o.connect else o.bind with
          | none => .ok (.enoent,(nnSocket p).2)
          | some endpointId =>
            .ok (.eok,addEndpoint (nnSocket p).2 ⟨(nnSocket p).1,endpointId⟩)
        | .ok (ret,_) => .ok (ret,(nnSocket p).2) := by
  obtain ⟨htmp,hctx,hsocket⟩ := h
  simp only [nbusInitPubsub, htmp, hctx, hsocket, Bool.true_eq_false, if_false]

theorem init_completes (h : o.Opens) (hc : o.Completes url protocol) :
    ∃ endpointId : ℕ, nbusInitPubsub o url protocol p =
      .ok (.eok,addEndpoint (nnSocket p).2 ⟨(nnSocket p).1,endpointId⟩) := by
  obtain ⟨hsub,fileName,hfile,hattach⟩ := hc
  obtain ⟨endpointId,hid⟩ := Option.isSome_iff_exists.mp hattach
  have hset : ¬(protocol = .sub ∧ o.setsockopt = false) := by
    rintro ⟨hproto,hfalse⟩
    rw [hsub hproto] at hfalse
    cases hfalse
  refine ⟨endpointId,?_⟩
  rw [init_opened o url protocol p h, if_neg hset, hfile]
  simp only [hid]

theorem init_leaks (h : o.Opens) (hc : ¬o.Completes url protocol) (ret : Errno) (q : Process)
    (hrun : nbusInitPubsub o url protocol p = .ok (ret,q)) : q = (nnSocket p).2 := by
  rw [init_opened o url protocol p h] at hrun
  by_cases hset : protocol = .sub ∧ o.setsockopt = false
  · rw [if_pos hset] at hrun
    cases hrun
    rfl
  · rw [if_neg hset] at hrun
    have hsub : protocol = .sub → o.setsockopt = true := by simpa using hset
    split at hrun
    · cases hrun
    · rename_i fileName hfile
      split at hrun
      · cases hrun
        rfl
      · rename_i endpointId hid
        exact absurd ⟨hsub,fileName,hfile,by rw [hid]; rfl⟩ hc
    · cases hrun
      rfl

theorem init_keeps_iff (h : Balanced p) :
    (∃ ret q, nbusInitPubsub o url protocol p = .ok (ret,q) ∧ Balanced q) ↔
      o.Keeps url protocol := by
  by_cases hopen : o.Opens
  · by_cases hc : o.Completes url protocol
    · obtain ⟨endpointId,hrun⟩ := init_completes o url protocol p hopen hc
      exact iff_of_true ⟨_,_,hrun,congrArg (·+1) h⟩ (fun _ => hc)
    · refine iff_of_false ?_ (fun hkeep => hc (hkeep hopen))
      rintro ⟨ret,q,hrun,hq⟩
      rw [init_leaks o url protocol p hopen hc ret q hrun] at hq
      have hleak : p.sockets.length+1 = p.contexts.length := hq
      rw [Balanced] at h
      omega
  · obtain ⟨ret,-,hrun⟩ := init_unopened o url protocol p hopen
    exact iff_of_true ⟨ret,p,hrun,h⟩ (fun hopens => absurd hopens hopen)

end Init

theorem close_keeps_iff (shutdown : Bool) (which : ℕ) (p : Process) (h : Balanced p) :
    Balanced (nbusClose shutdown which p).2 ↔ p.contexts[which]? = none ∨ shutdown = false := by
  cases hctx : p.contexts[which]? with
  | none => simpa [nbusClose, hctx] using h
  | some ctx =>
    obtain ⟨hlt,-⟩ := List.getElem?_eq_some_iff.mp hctx
    cases shutdown with
    | false => simpa [nbusClose, hctx] using h
    | true =>
      refine iff_of_false ?_ (by simp)
      simp only [nbusClose, hctx, if_true, Balanced, List.length_eraseIdx_of_lt hlt]
      rw [Balanced] at h
      omega

theorem step_some_iff (p : Process) (call : Call) (P : Process → Prop) :
    (∃ q, step p call = some q ∧ P q) ↔ ∃ ret q, call.run p = .ok (ret,q) ∧ P q := by
  rw [step]
  cases call.run p with
  | error fault => simp
  | ok result => exact ⟨fun ⟨_,hq,hP⟩ => ⟨result.1,result.2,rfl,by cases hq; exact hP⟩,
      fun ⟨_,_,hr,hP⟩ => ⟨result.2,rfl,by cases hr; exact hP⟩⟩

theorem step_keeps_iff (p : Process) (call : Call) (h : Balanced p) :
    (∃ q, step p call = some q ∧ Balanced q) ↔ Keeps p call := by
  rw [step_some_iff p call Balanced]
  cases call with
  | initPair url o => exact init_keeps_iff o url .bus p h
  | initPub url o => exact init_keeps_iff o url .pub p h
  | initSub url o => exact init_keeps_iff o url .sub p h
  | close which shutdown =>
    rw [Keeps, ← close_keeps_iff shutdown which p h]
    constructor
    · rintro ⟨ret,q,hrun,hq⟩
      have hclose : nbusClose shutdown which p = (ret,q) := Except.ok.inj hrun
      rwa [hclose]
    · exact fun hq => ⟨_,_,rfl,hq⟩

/-- The sockets are accounted for after every call of a run exactly when no
initialisation fails after its socket and no context is closed. -/
theorem accounted_iff (calls : List Call) :
    Accounted calls ↔ Along step Keeps start calls :=
  prefixes_exact step Keeps Balanced step_keeps_iff calls start rfl

def InitOutcome.good : InitOutcome := ⟨true,true,true,true,.good,fun _ => true,some 0,some 0⟩

def openAndClose : List Call := [.initPair (ipcUrl slash) .good,.close 0 true]

theorem closed_context_leaks :
    run step start openAndClose = some ⟨[0],[],[]⟩ ∧ ¬∀ calls, Accounted calls := by
  have hleak : run step start openAndClose = some ⟨[0],[],[]⟩ := by decide
  refine ⟨hleak,fun hall => ?_⟩
  obtain ⟨p,hrun,hbalanced⟩ := hall openAndClose openAndClose [] (List.append_nil _).symm
  rw [hleak] at hrun
  cases hrun
  exact absurd hbalanced Nat.one_ne_zero

end Flip.SocketCount
