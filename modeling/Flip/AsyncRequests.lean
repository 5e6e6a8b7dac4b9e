import Flip.DaemonHandler
import Flip.Runs
import Flip.Tevent

/-!
# The asynchronous requests of the flip daemon

Listening and starting a worker both wait for a socket to become readable.
The request of a listener is finished as soon as it was set up, and the
request of a worker is finished as done whatever its socket's request came to.
Both defects need a certain outcome of the setup; without it every order of
events completes every request once and for the right reason.
-/

set_option autoImplicit false

namespace Flip.AsyncRequests
open Flip.CLib Flip.Runs Flip.Tevent Flip.DaemonHandler

structure ListenOutcome where
  req : Bool
  addFd : Bool

/-- A request that could not be created is handed to `tevent_req_error`. -/
def asyncListen (o : ListenOutcome) : Except Fault (Errno × Waiter Errno) :=
  if o.req = false then .error .nullDeref
  else if o.addFd = false then
    .ok (.enomem,⟨(Req.create.error .enomem).post,false,false⟩)
  else .ok (.eok,⟨Req.create.done.post,true,false⟩)

def asyncListenDone (w : Waiter Errno) : Waiter Errno := w.endWait

structure SocketOutcome where
  req : Bool
  nbusInit : Errno
  addFd : Bool

def createSocketSend (o : SocketOutcome) : Option (Waiter Errno) :=
  if o.req = false then none
  else if o.nbusInit ≠ .eok then some ⟨(Req.create.error .eio).post,false,false⟩
  else if o.addFd = false then some ⟨(Req.create.error .enomem).post,false,false⟩
  else some ⟨Req.create,true,false⟩

def createSocketDone (w : Waiter Errno) : Waiter Errno := w.endWait

structure WorkerOutcome where
  tmpCtx : Bool
  eventCtx : Bool
  req : Bool
  socket : SocketOutcome
  command : Bool
  system : Option Buf → ℤ
  immediate : Bool

/-- A worker's request, the request of its socket, the scheduled immediate and
what the call has returned. While it has not returned, its loop is running. -/
structure Worker where
  req : Req Errno
  subreq : Option (Waiter Errno)
  immediate : Bool
  ret : Option Errno
  deriving DecidableEq

def workerCommand (o : WorkerOutcome) (identityName pidFile urlRootIpc : CString) : Option Buf :=
  if o.command then some (commandLine .asyncStartWorkerDaemon identityName pidFile urlRootIpc)
  else none

/-- The call as far as its loop. An error is returned before there is a
request; what is freed with the temporary context stays on record. -/
def asyncStartWorkerDaemon (o : WorkerOutcome) (identityName pidFile urlRootIpc : CString) :
    Except Errno Worker :=
  if o.tmpCtx = false then .error .enomem
  else if o.eventCtx = false then .error .enomem
  else if o.req = false then .error .enomem
  else
    match createSocketSend o.socket with
    | none => .ok ⟨Req.create,none,false,some .enomem⟩
    | some subreq =>
      if o.system (workerCommand o identityName pidFile urlRootIpc) ≠ 0 then
        .ok ⟨Req.create,some subreq,false,some .eio⟩
      else if o.immediate = false then .ok ⟨Req.create,some subreq,false,some .enomem⟩
      else .ok ⟨Req.create,some { subreq with req := subreq.req.setCallback },true,none⟩

/-- The callback of the socket's request does not look at its state. -/
def asyncStartWorkerDaemonDone (w : Worker) : Worker := { w with req := w.req.done }

def Worker.onSubreq (f : Waiter Errno → Option (Waiter Errno)) (w : Worker) : Option Worker :=
  match w.ret, w.subreq with
  | none, some subreq =>
    (f subreq).map (fun subreq' =>
      let w := { w with subreq := some subreq' }
      if subreq'.req.callback then asyncStartWorkerDaemonDone w else w)
  | _, _ => none

/-- `async_start_worker_daemon_done_2` only logs. -/
def Worker.onImmediate (w : Worker) : Option Worker :=
  if w.ret = none ∧ w.immediate = true then some { w with immediate := false } else none

/-- The loop ends, with or without an error, and the call returns. -/
def Worker.onLoopEnd (w : Worker) : Option Worker :=
  if w.ret = none then some { w with ret := some .eok } else none

inductive Operation where
  | listen (w : Waiter Errno)
  | socket (w : Waiter Errno)
  | worker (w : Worker)
  deriving DecidableEq

inductive Event where
  | listen (o : ListenOutcome)
  | createSocket (o : SocketOutcome)
  | startWorker (o : WorkerOutcome) (identityName pidFile urlRootIpc : CString)
  | readable (i : ℕ)
  | posted (i : ℕ)
  | immediate (i : ℕ)
  | loopEnd (i : ℕ)

def Operation.onReadable : Operation → Option Operation
  | .listen w => (w.fire asyncListenDone).map .listen
  | .socket w => (w.fire createSocketDone).map .socket
  | .worker w => (w.onSubreq (Waiter.fire createSocketDone)).map .worker

def Operation.onPosted : Operation → Option Operation
  | .listen w => w.deliver.map .listen
  | .socket w => w.deliver.map .socket
  | .worker w => (w.onSubreq Waiter.deliver).map .worker

def Operation.onWorker (f : Worker → Option Worker) : Operation → Option Operation
  | .worker w => (f w).map .worker
  | _ => none

/-- A call or an event. What is not registered is not delivered, and a call
that faults has no successor. -/
def step (ops : List Operation) : Event → Option (List Operation)
  | .listen o =>
    match asyncListen o with
    | .ok (_,w) => some (ops++[.listen w])
    | .error _ => none
  | .createSocket o =>
    match createSocketSend o with
    | some w => some (ops++[.socket w])
    | none => some ops
  | .startWorker o identityName pidFile urlRootIpc =>
    match asyncStartWorkerDaemon o identityName pidFile urlRootIpc with
    | .ok w => some (ops++[.worker w])
    | .error _ => some ops
  | .readable i => updateAt ops i Operation.onReadable
  | .posted i => updateAt ops i Operation.onPosted
  | .immediate i => updateAt ops i (Operation.onWorker Worker.onImmediate)
  | .loopEnd i => updateAt ops i (Operation.onWorker Worker.onLoopEnd)

structure Worker.Sound (w : Worker) : Prop where
  once : w.req.finals.length ≤ 1
  done : .done ∈ w.req.finals → ∃ subreq, w.subreq = some subreq ∧ subreq.readable = true
  subreq : ∀ subreq, w.subreq = some subreq → subreq.Sound
  failed : ∀ subreq e ret, w.subreq = some subreq → .error e ∈ subreq.req.finals →
    w.ret = some ret → (∃ e', w.req.finals = [.error e']) ∧ ret ≠ .eok

def Operation.Holds (P : Waiter Errno → Prop) (Q : Worker → Prop) : Operation → Prop
  | .listen w => P w
  | .socket w => P w
  | .worker w => Q w

def Operation.Sound : Operation → Prop := Operation.Holds Waiter.Sound Worker.Sound

def Complete (ops : List Operation) : Prop := ∀ op ∈ ops, op.Sound

def SocketOutcome.Waits (o : SocketOutcome) : Prop := o.nbusInit = .eok ∧ o.addFd = true

/-- A listener is not set up, and a worker whose socket request is created has
its socket set up. -/
def Good : Event → Prop
  | .listen o => o.req = true → o.addFd = false
  | .startWorker o _ _ _ =>
    o.tmpCtx = true → o.eventCtx = true → o.req = true → o.socket.req = true → o.socket.Waits
  | _ => True

structure Worker.Inv (w : Worker) : Prop where
  subreq : ∀ subreq, w.subreq = some subreq →
    subreq.Inv ∧ subreq.req.posted = false ∧ ∀ e, .error e ∉ subreq.req.finals
  finals : w.req.finals = [] ∨
    w.req.finals = [.done] ∧
      ∃ subreq, w.subreq = some subreq ∧ subreq.fdEvent = false ∧ subreq.readable = true

def Operation.Inv : Operation → Prop := Operation.Holds Waiter.Inv Worker.Inv

theorem Worker.Inv.sound {w : Worker} (h : w.Inv) : w.Sound where
  once := by
    rcases h.finals with hnil | ⟨hdone,-⟩
    · rw [hnil]
      exact Nat.zero_le 1
    · rw [hdone, List.length_singleton]
  done hmem := by
    rcases h.finals with hnil | ⟨-,subreq,hsub,-,hreadable⟩
    · rw [hnil] at hmem
      cases hmem
    · exact ⟨subreq,hsub,hreadable⟩
  subreq subreq hsub := (h.subreq subreq hsub).1.toSound
  failed subreq e _ hsub herror _ := absurd herror ((h.subreq subreq hsub).2.2 e)

theorem Operation.Inv.sound {op : Operation} (h : op.Inv) : op.Sound := by
  cases op with
  | listen w => exact Waiter.Inv.toSound h
  | socket w => exact Waiter.Inv.toSound h
  | worker w => exact Worker.Inv.sound h

section Setup

theorem create_socket_inv (o : SocketOutcome) (w : Waiter Errno) (h : createSocketSend o = some w) :
    w.Inv := by
  rw [createSocketSend] at h
  split_ifs at h <;> cases h
  · exact failed_inv Errno.eio false
  · exact failed_inv Errno.enomem false
  · exact waiting_inv

theorem create_socket_awaits (o : SocketOutcome) (w : Waiter Errno)
    (h : createSocketSend o = some w) (hwaits : o.Waits) : w = ⟨Req.create,true,false⟩ := by
  rw [createSocketSend] at h
  split_ifs at h with hreq hinit hfd
  · exact absurd hwaits.1 hinit
  · rw [hwaits.2] at hfd
    cases hfd
  · exact (Option.some.inj h).symm

theorem create_socket_created (o : SocketOutcome) (w : Waiter Errno)
    (h : createSocketSend o = some w) : o.req = true := by
  by_contra hreq
  rw [createSocketSend, if_pos (Bool.eq_false_iff.mpr hreq)] at h
  cases h

theorem listen_inv (o : ListenOutcome) (ret : Errno) (w : Waiter Errno)
    (h : asyncListen o = .ok (ret,w)) (hgood : Good (.listen o)) : w.Inv := by
  rw [asyncListen] at h
  split_ifs at h with hreq hfd
  · cases h
    exact failed_inv Errno.enomem false
  · exact absurd (hgood (by simpa using hreq)) hfd

theorem unfinished_inv (subreq : Waiter Errno) (immediate : Bool) (ret : Option Errno)
    (hinv : subreq.Inv) (hposted : subreq.req.posted = false) (hfinals : subreq.req.finals = []) :
    Worker.Inv ⟨Req.create,some subreq,immediate,ret⟩ where
  subreq s hs := by
    obtain rfl := Option.some.inj hs
    exact ⟨hinv,hposted,fun e he => by rw [hfinals] at he; cases he⟩
  finals := .inl rfl

theorem start_inv (o : WorkerOutcome) (a b c : CString) (w : Worker)
    (h : asyncStartWorkerDaemon o a b c = .ok w) (hgood : Good (.startWorker o a b c)) :
    w.Inv := by
  by_cases htmp : o.tmpCtx = false
  · rw [asyncStartWorkerDaemon, if_pos htmp] at h
    cases h
  by_cases hevent : o.eventCtx = false
  · rw [asyncStartWorkerDaemon, if_neg htmp, if_pos hevent] at h
    cases h
  by_cases hreq : o.req = false
  · rw [asyncStartWorkerDaemon, if_neg htmp, if_neg hevent, if_pos hreq] at h
    cases h
  rw [asyncStartWorkerDaemon, if_neg htmp, if_neg hevent, if_neg hreq] at h
  cases hsub : createSocketSend o.socket with
  | none =>
    rw [hsub] at h
    cases h
    exact ⟨fun _ hnone => absurd hnone.symm (Option.some_ne_none _),.inl rfl⟩
  | some subreq =>
    have hwaits := hgood (by simpa using htmp) (by simpa using hevent) (by simpa using hreq)
      (create_socket_created o.socket subreq hsub)
    rw [hsub, create_socket_awaits o.socket subreq hsub hwaits] at h
    dsimp only at h
    split_ifs at h <;> cases h
    · exact unfinished_inv _ _ _ waiting_inv rfl rfl
    · exact unfinished_inv _ _ _ waiting_inv rfl rfl
    · exact unfinished_inv _ _ _ ⟨⟨Nat.zero_le 1,fun hdone => by cases hdone⟩,fun _ => rfl⟩ rfl rfl

end Setup

section Holds

variable (P : Waiter Errno → Prop) (Q : Worker → Prop)

theorem readable_holds (hP : ∀ w v, P w → w.fire .endWait = some v → P v)
    (hQ : ∀ w v, Q w → w.onSubreq (Waiter.fire createSocketDone) = some v → Q v)
    (op op' : Operation) (hop : op.Holds P Q) (h : op.onReadable = some op') :
    op'.Holds P Q := by
  cases op with
  | listen w =>
    obtain ⟨v,hv,rfl⟩ := Option.map_eq_some_iff.mp h
    exact hP w v hop hv
  | socket w =>
    obtain ⟨v,hv,rfl⟩ := Option.map_eq_some_iff.mp h
    exact hP w v hop hv
  | worker w =>
    obtain ⟨v,hv,rfl⟩ := Option.map_eq_some_iff.mp h
    exact hQ w v hop hv

theorem posted_holds (hP : ∀ w v, P w → w.deliver = some v → P v)
    (hQ : ∀ w v, Q w → w.onSubreq Waiter.deliver = some v → Q v) (op op' : Operation)
    (hop : op.Holds P Q) (h : op.onPosted = some op') : op'.Holds P Q := by
  cases op with
  | listen w =>
    obtain ⟨v,hv,rfl⟩ := Option.map_eq_some_iff.mp h
    exact hP w v hop hv
  | socket w =>
    obtain ⟨v,hv,rfl⟩ := Option.map_eq_some_iff.mp h
    exact hP w v hop hv
  | worker w =>
    obtain ⟨v,hv,rfl⟩ := Option.map_eq_some_iff.mp h
    exact hQ w v hop hv

theorem on_worker_holds (f : Worker → Option Worker) (hf : ∀ w v, Q w → f w = some v → Q v)
    (op op' : Operation) (hop : op.Holds P Q) (h : op.onWorker f = some op') :
    op'.Holds P Q := by
  cases op with
  | listen w => cases h
  | socket w => cases h
  | worker w =>
    obtain ⟨v,hv,rfl⟩ := Option.map_eq_some_iff.mp h
    exact hf w v hop hv

end Holds

section Delivery

theorem on_subreq_some {f : Waiter Errno → Option (Waiter Errno)} {w v : Worker}
    (h : w.onSubreq f = some v) :
    ∃ subreq subreq', w.ret = none ∧ w.subreq = some subreq ∧ f subreq = some subreq' ∧
      v = ⟨if subreq'.req.callback then w.req.done else w.req,some subreq',w.immediate,w.ret⟩ := by
  rw [Worker.onSubreq] at h
  split at h
  · rename_i subreq hret hsub
    obtain ⟨subreq',hf,hv⟩ := Option.map_eq_some_iff.mp h
    refine ⟨subreq,subreq',hret,hsub,hf,?_⟩
    rw [← hv]
    dsimp only
    split_ifs <;> rfl
  · cases h

theorem fire_worker_inv (w v : Worker) (hw : w.Inv)
    (h : w.onSubreq (Waiter.fire createSocketDone) = some v) : v.Inv := by
  obtain ⟨subreq,subreq',hret,hsub,hfire,rfl⟩ := on_subreq_some h
  obtain ⟨hinv,hposted,-⟩ := hw.subreq subreq hsub
  obtain ⟨hfinals,hreadable⟩ := fire_finals hinv hfire
  obtain ⟨hfd,hafter⟩ := fire_some hfire
  have hnil : w.req.finals = [] := by
    rcases hw.finals with hnil | ⟨-,s,hs,hgone,-⟩
    · exact hnil
    · rw [hsub] at hs
      obtain rfl := Option.some.inj hs
      rw [hfd] at hgone
      cases hgone
  constructor
  · intro s hs
    obtain rfl := Option.some.inj hs
    refine ⟨fire_inv hinv hfire,?_,fun e he => ?_⟩
    · rw [hafter]
      exact hposted
    · rw [hfinals] at he
      simp at he
  · dsimp only
    split_ifs
    · refine .inr ⟨?_,subreq',rfl,?_,hreadable⟩
      · rw [Req.done, hnil, List.nil_append]
      · rw [hafter]
        rfl
    · exact .inl hnil

theorem deliver_worker_inv (w v : Worker) (hw : w.Inv)
    (h : w.onSubreq Waiter.deliver = some v) : v.Inv := by
  obtain ⟨subreq,subreq',-,hsub,hdeliver,-⟩ := on_subreq_some h
  have hposted := (deliver_some hdeliver).1
  rw [(hw.subreq subreq hsub).2.1] at hposted
  cases hposted

theorem immediate_worker_inv (w v : Worker) (hw : w.Inv) (h : w.onImmediate = some v) :
    v.Inv := by
  rw [Worker.onImmediate] at h
  split_ifs at h
  cases h
  exact ⟨hw.subreq,hw.finals⟩

theorem loop_end_worker_inv (w v : Worker) (hw : w.Inv) (h : w.onLoopEnd = some v) : v.Inv := by
  rw [Worker.onLoopEnd] at h
  split_ifs at h
  cases h
  exact ⟨hw.subreq,hw.finals⟩

end Delivery

theorem step_inv (ops : List Operation) (e : Event) (ops' : List Operation)
    (hops : ∀ op ∈ ops, op.Inv) (hgood : Good e) (h : step ops e = some ops') :
    ∀ op ∈ ops', op.Inv := by
  cases e with
  | listen o =>
    rw [step] at h
    split at h
    · rename_i ret w hw
      cases h
      exact append_all Operation.Inv ops _ hops (listen_inv o ret w hw hgood)
    · cases h
  | createSocket o =>
    rw [step] at h
    split at h
    · rename_i w hw
      cases h
      exact append_all Operation.Inv ops _ hops (create_socket_inv o w hw)
    · cases h
      exact hops
  | startWorker o a b c =>
    rw [step] at h
    split at h
    · rename_i w hw
      cases h
      exact append_all Operation.Inv ops _ hops (start_inv o a b c w hw hgood)
    · cases h
      exact hops
  | readable i =>
    apply update_at_all Operation.Inv _ _ ops ops' i hops h
    exact readable_holds _ _ (fun _ _ hw hv => fire_inv hw hv) fire_worker_inv
  | posted i =>
    apply update_at_all Operation.Inv _ _ ops ops' i hops h
    exact posted_holds _ _ (fun _ _ hw hv => deliver_inv hw hv) deliver_worker_inv
  | immediate i =>
    apply update_at_all Operation.Inv _ _ ops ops' i hops h
    exact on_worker_holds _ _ _ immediate_worker_inv
  | loopEnd i =>
    apply update_at_all Operation.Inv _ _ ops ops' i hops h
    exact on_worker_holds _ _ _ loop_end_worker_inv

theorem good_run_complete (events : List Event)
    (hgood : Along step (fun _ e => Good e) [] events) (ops : List Operation)
    (hrun : run step [] events = some ops) : Complete ops := by
  have hinv := run_invariant step (fun _ e => Good e) (fun ops => ∀ op ∈ ops, op.Inv)
    (fun s e t hs he ht => step_inv s e t hs he ht) events [] ops (by simp) hgood hrun
  exact fun op hop => (hinv op hop).sound

/-- In every run without those setups every request completes as it should,
in whatever order the loop delivers. -/
theorem requests_complete (events : List Event)
    (hgood : Along step (fun _ e => Good e) [] events) (ops : List Operation)
    (hrun : run step [] events = some ops) : Complete ops :=
  good_run_complete events hgood ops hrun

section Exact

def Worker.Hides (w : Worker) : Prop :=
  (∃ subreq e, w.subreq = some subreq ∧ .error e ∈ subreq.req.finals) ∧
    ∀ e, .error e ∉ w.req.finals

def Operation.Hides : Operation → Prop := Operation.Holds (fun _ => False) Worker.Hides

theorem hides_returned {w : Worker} (h : w.Hides) (hret : w.ret ≠ none) : ¬w.Sound := by
  intro hsound
  obtain ⟨⟨subreq,e,hsub,he⟩,hno⟩ := h
  obtain ⟨ret,hret⟩ := Option.ne_none_iff_exists'.mp hret
  obtain ⟨⟨e',he'⟩,-⟩ := hsound.failed subreq e ret hsub he hret
  apply hno e'
  rw [he']
  exact List.mem_singleton_self _

theorem on_subreq_hides (f : Waiter Errno → Option (Waiter Errno))
    (hf : ∀ a b, f a = some b → ∀ x ∈ a.req.finals, x ∈ b.req.finals) (w v : Worker)
    (hw : w.Hides) (h : w.onSubreq f = some v) : v.Hides := by
  obtain ⟨subreq,subreq',-,hsub,hsome,rfl⟩ := on_subreq_some h
  obtain ⟨⟨s,e,hs,he⟩,hno⟩ := hw
  rw [hsub] at hs
  cases hs
  refine ⟨⟨subreq',e,rfl,hf _ _ hsome _ he⟩,fun e' he' => ?_⟩
  dsimp only at he'
  split_ifs at he'
  · rcases List.mem_append.mp he' with hold | hnew
    · exact hno e' hold
    · cases List.mem_singleton.mp hnew
  · exact hno e' he'

theorem fire_keeps (a b : Waiter Errno) (h : a.fire createSocketDone = some b) :
    ∀ x ∈ a.req.finals, x ∈ b.req.finals := by
  obtain ⟨-,rfl⟩ := fire_some h
  exact fun x hx => List.mem_append_left _ hx

theorem deliver_keeps (a b : Waiter Errno) (h : a.deliver = some b) :
    ∀ x ∈ a.req.finals, x ∈ b.req.finals := by
  obtain ⟨-,rfl⟩ := deliver_some h
  exact fun x hx => hx

theorem immediate_hides (w v : Worker) (hw : w.Hides) (h : w.onImmediate = some v) :
    v.Hides := by
  rw [Worker.onImmediate] at h
  split_ifs at h
  cases h
  exact hw

theorem loop_end_hides (w v : Worker) (hw : w.Hides) (h : w.onLoopEnd = some v) : v.Hides := by
  rw [Worker.onLoopEnd] at h
  split_ifs at h
  cases h
  exact hw

theorem append_hides (ops : List Operation) (new : List Operation)
    (hops : ∃ op ∈ ops, op.Hides) : ∃ op ∈ ops++new, op.Hides := by
  obtain ⟨op,hop,hhides⟩ := hops
  exact ⟨op,List.mem_append_left _ hop,hhides⟩

theorem step_hides (ops : List Operation) (e : Event) (ops' : List Operation)
    (hops : ∃ op ∈ ops, op.Hides) (h : step ops e = some ops') : ∃ op ∈ ops', op.Hides := by
  cases e with
  | listen o =>
    rw [step] at h
    split at h <;> cases h
    exact append_hides ops _ hops
  | createSocket o =>
    rw [step] at h
    split at h <;> cases h
    · exact append_hides ops _ hops
    · exact hops
  | startWorker o a b c =>
    rw [step] at h
    split at h <;> cases h
    · exact append_hides ops _ hops
    · exact hops
  | readable i =>
    apply update_at_exists Operation.Hides _ _ ops ops' i hops h
    exact readable_holds _ _ (fun _ _ hw _ => hw.elim) (on_subreq_hides _ fire_keeps)
  | posted i =>
    apply update_at_exists Operation.Hides _ _ ops ops' i hops h
    exact posted_holds _ _ (fun _ _ hw _ => hw.elim) (on_subreq_hides _ deliver_keeps)
  | immediate i =>
    apply update_at_exists Operation.Hides _ _ ops ops' i hops h
    exact on_worker_holds _ _ _ immediate_hides
  | loopEnd i =>
    apply update_at_exists Operation.Hides _ _ ops ops' i hops h
    exact on_worker_holds _ _ _ loop_end_hides

theorem create_socket_fails (o : SocketOutcome) (hreq : o.req = true) (h : ¬o.Waits) :
    ∃ e, createSocketSend o = some ⟨(Req.create.error e).post,false,false⟩ := by
  rw [createSocketSend, if_neg (by simp [hreq])]
  by_cases hinit : o.nbusInit = .eok
  · have hfd : o.addFd = false := by
      by_contra hfd
      exact h ⟨hinit,by simpa using hfd⟩
    exact ⟨.enomem,by rw [if_neg (not_not.mpr hinit), if_pos hfd]⟩
  · exact ⟨.eio,if_pos hinit⟩

theorem start_hides (o : WorkerOutcome) (a b c : CString)
    (hbad : ¬Good (.startWorker o a b c)) :
    ∃ w, asyncStartWorkerDaemon o a b c = .ok w ∧ w.Hides := by
  simp only [Good, Classical.not_imp] at hbad
  obtain ⟨htmp,hevent,hreq,hsocket,hwaits⟩ := hbad
  obtain ⟨e,he⟩ := create_socket_fails o.socket hsocket hwaits
  have hhides : ∀ r immediate ret, r.finals = [.error e] →
      Worker.Hides ⟨Req.create,some ⟨r,false,false⟩,immediate,ret⟩ := by
    intro r immediate ret hr
    refine ⟨⟨_,e,rfl,?_⟩,fun e' he' => by cases he'⟩
    rw [hr]
    exact List.mem_singleton_self _
  simp only [asyncStartWorkerDaemon, htmp, hevent, hreq, he, Bool.true_eq_false, if_false]
  split_ifs
  · exact ⟨_,rfl,hhides _ _ _ rfl⟩
  · exact ⟨_,rfl,hhides _ _ _ rfl⟩
  · exact ⟨_,rfl,hhides _ _ _ rfl⟩

theorem listen_early (o : ListenOutcome) (hbad : ¬Good (.listen o)) :
    ∃ w, asyncListen o = .ok (.eok,w) ∧ ¬w.Sound := by
  simp only [Good, Classical.not_imp] at hbad
  obtain ⟨hreq,hfd⟩ := hbad
  refine ⟨⟨Req.create.done.post,true,false⟩,?_,fun hsound => ?_⟩
  · rw [asyncListen, if_neg (by simp [hreq]), if_neg hfd]
  · cases hsound.done (List.mem_singleton_self _)

theorem bad_step (ops : List Operation) (e : Event) (hbad : ¬Good e) (ops' : List Operation)
    (h : step ops e = some ops') : ¬Complete ops' ∨ ∃ op ∈ ops', op.Hides := by
  cases e with
  | listen o =>
    obtain ⟨w,hw,hunsound⟩ := listen_early o hbad
    rw [step, hw] at h
    cases h
    exact .inl (fun hall => hunsound (hall (.listen w) (by simp)))
  | startWorker o a b c =>
    obtain ⟨w,hw,hhides⟩ := start_hides o a b c hbad
    rw [step, hw] at h
    cases h
    exact .inr ⟨.worker w,by simp,hhides⟩
  | _ => exact absurd trivial hbad

def Returned (ops : List Operation) : Prop := ∀ w, .worker w ∈ ops → w.ret ≠ none

theorem hides_incomplete (ops : List Operation) (hret : Returned ops)
    (h : ∃ op ∈ ops, op.Hides) : ¬Complete ops := by
  intro hall
  obtain ⟨op,hop,hhides⟩ := h
  cases op with
  | listen w => exact hhides
  | socket w => exact hhides
  | worker w => exact hides_returned hhides (hret w hop) (hall _ hop)

/-- Where every start has returned in the end, all requests complete as they
should at every point of the run exactly when no setup is of those kinds. -/
theorem complete_exactly (events : List Event) (ops : List Operation)
    (hrun : run step [] events = some ops) (hret : Returned ops) :
    (∀ before after, events = before++after →
      ∀ mid, run step [] before = some mid → Complete mid) ↔ ∀ e ∈ events, Good e := by
  constructor
  · intro hall e he
    by_contra hbad
    obtain ⟨before,after,rfl⟩ := List.append_of_mem he
    obtain ⟨mid,hmid,hrest⟩ : ∃ mid, run step [] before = some mid ∧
        run step mid (e::after) = some ops := by
      rwa [run_append, Option.bind_eq_some_iff] at hrun
    obtain ⟨next,hnext,htail⟩ := (run_cons step mid e after ops).mp hrest
    rcases bad_step mid e hbad next hnext with hincomplete | hhides
    · apply hincomplete
      apply hall (before++[e]) after (by simp)
      rw [run_append, hmid]
      simpa [run] using hnext
    · have hend := run_invariant step (fun _ _ => True) (fun ops => ∃ op ∈ ops, op.Hides)
        (fun s a t hs _ ht => step_hides s a t hs ht) after next ops hhides
        (along_always step next after) htail
      apply hides_incomplete ops hret hend
      exact hall (before++e::after) [] (List.append_nil _).symm ops hrun
  · intro hgood before after hsplit mid hmid
    apply good_run_complete before _ mid hmid
    apply along_of_labels
    intro e he
    apply hgood
    rw [hsplit]
    exact List.mem_append_left _ he

end Exact

def someOutcome (ret : Errno) : WorkerOutcome :=
  ⟨true,true,true,⟨true,ret,true⟩,true,fun _ => 0,true⟩

def startWorker (ret : Errno) : Event :=
  .startWorker (someOutcome ret) alpha alpha alpha

def goodRun : List Event :=
  [.listen ⟨true,false⟩,startWorker .eok,.posted 0,.immediate 1,.readable 1,.loopEnd 1]

def goodEnd : List Operation :=
  [.listen ⟨⟨[.error .enomem],false,false⟩,false,false⟩,
    .worker ⟨⟨[.done],false,false⟩,some ⟨⟨[.done],true,false⟩,false,true⟩,false,some .eok⟩]

theorem requests_complete_good : Complete goodEnd := by
  apply requests_complete goodRun _ goodEnd (by decide)
  refine ⟨fun _ => rfl,fun _ _ => ⟨fun _ _ _ _ => ⟨rfl,rfl⟩,fun _ _ => ?_⟩⟩
  exact ⟨trivial,fun _ _ => ⟨trivial,fun _ _ => ⟨trivial,fun _ _ => ⟨trivial,fun _ _ => trivial⟩⟩⟩⟩

def failedRun : List Event := [startWorker .eio,.posted 0,.immediate 0,.loopEnd 0]

/-- A listener is done before its socket is readable and again when it is, and
a worker is done and its start successful although its socket failed. -/
theorem requests_misreported :
    run step [] [.listen ⟨true,true⟩,.readable 0] =
        some [.listen ⟨⟨[.done,.done],false,true⟩,false,true⟩] ∧
      run step [] failedRun =
        some [.worker ⟨⟨[.done],false,false⟩,some ⟨⟨[.error .eio],true,false⟩,false,false⟩,false,
          some .eok⟩] ∧
      ¬∀ events ops, run step [] events = some ops → Complete ops := by
  have hlisten : run step [] [.listen ⟨true,true⟩,.readable 0] =
      some [.listen ⟨⟨[.done,.done],false,true⟩,false,true⟩] := by decide
  refine ⟨hlisten,by decide,fun hall => ?_⟩
  have hsound : Waiter.Sound _ := hall _ _ hlisten _ (List.mem_singleton_self _)
  exact absurd hsound.once (by decide)

end Flip.AsyncRequests
