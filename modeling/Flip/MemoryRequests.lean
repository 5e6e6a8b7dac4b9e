import Flip.AsyncRequests
import Flip.Memory

/-!
# What the asynchronous requests leave

A request owns its state and the state owns the event. The request of a worker
is made below the caller's context, everything else that a start needs below a
temporary one, so that each start leaves its request there.
-/

set_option autoImplicit false

namespace Flip.Memory
open Flip.CLib Flip.Talloc
open Flip.DaemonHandler (alpha alphaPid alphaIpc)
open Flip.AsyncRequests (SocketOutcome WorkerOutcome workerCommand)
open Flip.SocketCount (InitOutcome)

def teventReqCreate (ok : Bool) (memCtx : ℕ) : Mem (Option (ℕ × ℕ)) :=
  if ok then do
    let req ← talloc (some memCtx)
    let state ← talloc (some req)
    pure (some (req,state))
  else pure none

/-- A request that could not be created is handed to `tevent_req_error`. -/
def asyncListen (o : AsyncRequests.ListenOutcome) (memCtx : ℕ) : Call := do
  let req ← teventReqCreate o.req memCtx
  match req with
  | none => failure
  | some (_,state) =>
    if o.addFd = false then pure (.enomem,none)
    else do
      let fdEvent ← talloc (some state)
      pure (.eok,some fdEvent)

/-- The loop ends when it has no event, and the handler frees the one there is. -/
def teventLoopWait (fdEvent : Option ℕ) : Mem Unit :=
  match fdEvent with
  | none => pure ()
  | some p => tallocFree p

/-- `main` does not look at what its loop returns. One that fails leaves the event. -/
def listenLoop (loop : Bool) (fdEvent : Option ℕ) : Mem Unit :=
  if loop then teventLoopWait fdEvent else pure ()

/-- Without a request the result is NULL, and with one the event, if it was added. -/
def createSocketSend (o : SocketOutcome) (init : InitOutcome) (urlIpc : CString) (memCtx : ℕ) :
    Mem (Option (Option ℕ)) := do
  let req ← teventReqCreate o.req memCtx
  match req with
  | none => pure none
  | some (_,state) => do
    let (ret,_) ← nbusInitPubsub init urlIpc .bus (some memCtx)
    if ret ≠ .eok then pure (some none)
    else if o.addFd = false then pure (some none)
    else do
      let fdEvent ← talloc (some state)
      pure (some (some fdEvent))

def freeCommand (command : Option ℕ) : Mem Unit :=
  match command with
  | none => pure ()
  | some p => tallocFree p

def runCommand (o : WorkerOutcome) (identityName pidFile urlRootIpc : CString) (tmpCtx : ℕ) :
    Mem Errno := do
  let command ← tryTalloc o.command tmpCtx
  if o.system (workerCommand o identityName pidFile urlRootIpc) ≠ 0 then pure .eio
  else do
    freeCommand command
    if o.immediate = false then pure .enomem
    else do
      let _ ← talloc (some tmpCtx)
      pure .eok

def asyncStartWorkerDaemon (o : WorkerOutcome) (init : InitOutcome)
    (identityName pidFile urlRootIpc : CString) (memCtx : ℕ) : Mem Errno :=
  withTmpCtx o.tmpCtx .enomem fun tmpCtx =>
    if o.eventCtx = false then pure .enomem
    else do
      let _ ← talloc (some tmpCtx)
      let req ← teventReqCreate o.req memCtx
      if req = none then pure .enomem
      else do
        let subreq ← createSocketSend o.socket init urlRootIpc tmpCtx
        match subreq with
        | none => pure .enomem
        | some fdEvent => do
          let ret ← runCommand o identityName pidFile urlRootIpc tmpCtx
          if ret ≠ .eok then pure ret
          else do
            teventLoopWait fdEvent
            pure .eok

def returned (o : WorkerOutcome) (identityName pidFile urlRootIpc : CString) : Errno :=
  match AsyncRequests.asyncStartWorkerDaemon o identityName pidFile urlRootIpc with
  | .error ret => ret
  | .ok w => w.ret.getD .eok

def requests (memCtx : ℕ) (rs : List (ℕ × ℕ)) : List Chunk :=
  rs.flatMap (fun r => [⟨r.2,some r.1⟩,⟨r.1,some memCtx⟩])

def EventBelow (ds base : List Chunk) (fdEvent : Option ℕ) (h : Heap) : Prop :=
  match fdEvent with
  | none => Has (ds++base) h
  | some p => ∃ state ∈ ids ds, Has (⟨p,some state⟩::(ds++base)) h

section Requests

variable (root : Chunk)

theorem triple_req_create {β : Type} (ok : Bool) (q : ℕ) (ds base : List Chunk)
    (hs : Subtree root ds) (hq : q ∈ ids ds) (f : Option (ℕ × ℕ) → Mem β) (Q : β → Heap → Prop)
    (hnone : ok = false → Triple (Has (ds++base)) (f none) Q)
    (hsome : ok = true → ∀ req state ds', Subtree root ds' → state ∈ ids ds' →
      ids ds ⊆ ids ds' → Triple (Has (ds'++base)) (f (some (req,state))) Q) :
    Triple (Has (ds++base)) (teventReqCreate ok q >>= f) Q := by
  cases ok with
  | false => exact hnone rfl
  | true =>
    rw [teventReqCreate, if_pos rfl, bind_assoc]
    apply triple_talloc _ _ _ _ (live_left _ ds base (live_some q ds hq))
    intro req _
    rw [bind_assoc]
    apply triple_talloc _ _ _ _ (live_cons _ req _)
    intro state _
    exact hsome rfl req state (⟨state,some req⟩::⟨req,some q⟩::ds)
      (subtree_cons _ _ _ req List.mem_cons_self rfl (subtree_cons _ _ _ q hq rfl hs))
      List.mem_cons_self (fun _ hi => List.mem_cons_of_mem _ (List.mem_cons_of_mem _ hi))

theorem listen_grows (o : AsyncRequests.ListenOutcome) (loop : Bool) (hreq : o.req = true) :
    Grows root (do
      let (_,fdEvent) ← asyncListen o root.id
      listenLoop loop fdEvent) (fun _ => True) := by
  intro ms base hs
  rw [asyncListen, bind_assoc]
  apply triple_req_create root o.req root.id ms base hs (subtree_mem root ms hs)
  · intro h
    rw [hreq] at h
    cases h
  intro _ req state ds hds hstate hsub
  dsimp only
  by_cases hadd : o.addFd = false
  · rw [if_pos hadd]
    cases loop <;> exact triple_pure _ _ _ (fun h hh => ⟨trivial,ds,hds,hsub,hh⟩)
  · rw [if_neg hadd, bind_assoc]
    apply triple_closed
    intro hclosed
    apply triple_talloc _ _ _ _ (live_left _ ds base (live_some state ds hstate))
    intro fdEvent _
    rw [pure_bind]
    cases loop with
    | false =>
      have hevent := subtree_cons root ds ⟨fdEvent,some state⟩ state hstate rfl hds
      exact triple_pure _ _ _ (fun h hh =>
        ⟨trivial,_,hevent,fun _ hi => List.mem_cons_of_mem _ (hsub hi),hh⟩)
    | true =>
    dsimp only [listenLoop, teventLoopWait]
    rw [if_pos rfl, ← bind_pure (tallocFree fdEvent)]
    apply triple_free_made (some state) _ [⟨fdEvent,some state⟩] fdEvent _ _ (subtree_single _)
      hclosed.live
    exact triple_pure _ _ _ (fun h hh => ⟨trivial,ds,hds,hsub,hh⟩)

theorem create_socket_waits (o : SocketOutcome) (init : InitOutcome) (urlIpc : CString)
    (p : SocketCount.Process)
    (hbus : SocketCount.nbusInitPair init urlIpc SocketCount.start = .ok (o.nbusInit,p))
    (ds base : List Chunk) (hs : Subtree root ds) :
    Triple (Has (ds++base)) (createSocketSend o init urlIpc root.id) (fun r h =>
      r.isSome = (AsyncRequests.createSocketSend o).isSome ∧ ∃ ds', Subtree root ds' ∧
        ids ds ⊆ ids ds' ∧ EventBelow ds' base r.join h) := by
  apply triple_req_create root o.req root.id ds base hs (subtree_mem root ds hs)
  · intro hreq
    have hnone : AsyncRequests.createSocketSend o = none := if_pos hreq
    rw [hnone]
    exact triple_pure _ _ _ (fun h hh => ⟨rfl,ds,hs,fun _ hi => hi,hh⟩)
  intro hreq req state es hes hstate hsub
  have hsome : (AsyncRequests.createSocketSend o).isSome = true := by
    rw [AsyncRequests.createSocketSend, if_neg (by simp [hreq])]
    split_ifs <;> rfl
  rw [hsome]
  have hin := subtree_mem root es hes
  have hinit := init_pubsub_tidy (es++base) (some root.id)
    (live_left _ es base (live_some _ es hin)) init urlIpc .bus SocketCount.start p o.nbusInit hbus
  apply triple_bind _ _ _ _ _ hinit
  intro r h hr
  obtain ⟨ret,nbusCtx⟩ := r
  obtain ⟨ds',hds',hsub',hh⟩ := tidy_below base es [] root root.id nbusCtx h hin hes hr.2
  have hall : ids ds ⊆ ids ds' := fun i hi => hsub' (hsub hi)
  refine (?_ : Triple (Has (ds'++base)) _ _) h hh
  dsimp only
  by_cases hret : ret ≠ .eok
  · rw [if_pos hret]
    exact triple_pure _ _ _ (fun h hh => ⟨rfl,ds',hds',hall,hh⟩)
  rw [if_neg hret]
  by_cases hadd : o.addFd = false
  · rw [if_pos hadd]
    exact triple_pure _ _ _ (fun h hh => ⟨rfl,ds',hds',hall,hh⟩)
  rw [if_neg hadd]
  apply triple_talloc _ _ _ _ (live_left _ ds' base (live_some _ ds' (hsub' hstate)))
  intro fdEvent _
  exact triple_pure _ _ _ (fun h hh => ⟨rfl,ds',hds',hall,state,hsub' hstate,hh⟩)

theorem run_command_grows (o : WorkerOutcome) (identityName pidFile urlRootIpc : CString) :
    Grows root (runCommand o identityName pidFile urlRootIpc root.id) (fun ret => ret =
      if o.system (workerCommand o identityName pidFile urlRootIpc) ≠ 0 then .eio
      else if o.immediate = false then .enomem else .eok) := by
  intro ds base hs
  have hin := subtree_mem root ds hs
  have hlive : Live (some root.id) (ds++base) := live_left _ ds base (live_some _ ds hin)
  have hend : Triple (Has (ds++base))
      (if o.immediate = false then pure .enomem
        else do
          let _ ← talloc (some root.id)
          pure .eok) (fun ret h =>
        ret = (if o.immediate = false then Errno.enomem else .eok) ∧ ∃ ds', Subtree root ds' ∧
          ids ds ⊆ ids ds' ∧ Has (ds'++base) h) := by
    by_cases himmediate : o.immediate = false
    · rw [if_pos himmediate, if_pos himmediate]
      exact triple_pure _ _ _ (fun h hh => ⟨rfl,ds,hs,fun _ hi => hi,hh⟩)
    · rw [if_neg himmediate, if_neg himmediate]
      apply triple_talloc _ _ _ _ hlive
      intro x _
      exact triple_pure _ _ _ (fun h hh => ⟨rfl,⟨x,some root.id⟩::ds,
        subtree_cons root ds _ root.id hin rfl hs,fun _ hi => List.mem_cons_of_mem _ hi,hh⟩)
  rw [runCommand]
  apply triple_closed
  intro hclosed
  by_cases hsystem : o.system (workerCommand o identityName pidFile urlRootIpc) ≠ 0
  · simp only [if_pos hsystem]
    apply triple_try_talloc _ _ _ _ _ hlive
    · exact fun _ => triple_pure _ _ _ (fun h hh => ⟨rfl,ds,hs,fun _ hi => hi,hh⟩)
    · exact fun _ x _ => triple_pure _ _ _ (fun h hh => ⟨rfl,⟨x,some root.id⟩::ds,
        subtree_cons root ds _ root.id hin rfl hs,fun _ hi => List.mem_cons_of_mem _ hi,hh⟩)
  · simp only [if_neg hsystem]
    apply triple_try_talloc _ _ _ _ _ hlive
    · exact fun _ => hend
    · intro _ x _
      exact triple_free_made (some root.id) _ [⟨x,some root.id⟩] x _ _ (subtree_single _)
        hclosed.live hend

end Requests

def created (o : WorkerOutcome) : Bool := o.tmpCtx && o.eventCtx && o.req

section Start

variable (o : WorkerOutcome) (init : InitOutcome) (identityName pidFile urlRootIpc : CString)

theorem returned_created (ho : created o = true) : returned o identityName pidFile urlRootIpc =
    if (AsyncRequests.createSocketSend o.socket).isSome then
      if o.system (workerCommand o identityName pidFile urlRootIpc) ≠ 0 then .eio
      else if o.immediate = false then .enomem else .eok
    else .enomem := by
  simp only [created, Bool.and_eq_true] at ho
  obtain ⟨⟨htmp,hevent⟩,hreq⟩ := ho
  rw [returned, AsyncRequests.asyncStartWorkerDaemon, if_neg (by simp [htmp]),
    if_neg (by simp [hevent]), if_neg (by simp [hreq])]
  cases AsyncRequests.createSocketSend o.socket with
  | none => rfl
  | some subreq =>
    dsimp only [Option.isSome_some]
    rw [if_pos rfl]
    split_ifs <;> rfl

theorem returned_uncreated (ho : created o = false) :
    returned o identityName pidFile urlRootIpc = .enomem := by
  rw [returned, AsyncRequests.asyncStartWorkerDaemon]
  by_cases htmp : o.tmpCtx = false
  · rw [if_pos htmp]
  by_cases hevent : o.eventCtx = false
  · rw [if_neg htmp, if_pos hevent]
  have hreq : o.req = false := by
    simp only [Bool.not_eq_false] at htmp hevent
    simpa [created, htmp, hevent] using ho
  rw [if_neg htmp, if_neg hevent, if_pos hreq]

variable (memCtx : ℕ) (cs : List Chunk) (hlive : Live (some memCtx) cs)

include hlive

theorem self_owned_requests (hcs : SelfOwned cs) (rs : List (ℕ × ℕ)) :
    SelfOwned (requests memCtx rs++cs) := by
  induction rs with
  | nil => exact hcs
  | cons r rs ih =>
    exact self_owned_cons _ _ (live_cons _ r.1 _)
      (self_owned_cons _ _ (live_append _ _ _ hlive) ih)

theorem request_ends (hcs : SelfOwned cs) (t n : ℕ) (rs : List (ℕ × ℕ)) (ds : List Chunk)
    (hs : Subtree ⟨t,none⟩ ds) (hlength : rs.length = n) (ret ret' : Errno) (hret : ret = ret')
    (h : Heap) (hh : Has (ds++(requests memCtx rs++cs)) h) :
    ∃ ds kept, Subtree ⟨t,none⟩ ds ∧ Apart ds kept ∧ Has (ds++kept) h ∧ ret = ret' ∧
      ∃ rs : List (ℕ × ℕ), rs.length = n ∧ kept = requests memCtx rs++cs := by
  have hself := self_owned_requests memCtx cs hlive hcs rs
  exact ⟨ds,_,hs,apart_rest _ _ hself (has_closed _ h hh),hh,hret,rs,hlength,rfl⟩

theorem run_ends (hcs : SelfOwned cs) (t : ℕ) (rs : List (ℕ × ℕ)) (ds : List Chunk)
    (fdEvent : Option ℕ) (hs : Subtree ⟨t,none⟩ ds) :
    Triple (EventBelow ds (requests memCtx rs++cs) fdEvent)
      (do
        let ret ← runCommand o identityName pidFile urlRootIpc t
        if ret ≠ .eok then pure ret
        else do
          teventLoopWait fdEvent
          pure .eok)
      (fun ret h => ∃ ds kept, Subtree ⟨t,none⟩ ds ∧ Apart ds kept ∧ Has (ds++kept) h ∧
        ret = (if o.system (workerCommand o identityName pidFile urlRootIpc) ≠ 0 then .eio
          else if o.immediate = false then .enomem else .eok) ∧
        ∃ rs' : List (ℕ × ℕ), rs'.length = rs.length ∧ kept = requests memCtx rs'++cs) := by
  have hbase := self_owned_requests memCtx cs hlive hcs rs
  have hends := request_ends memCtx cs hlive hcs t rs.length rs
  have hgrows := run_command_grows ⟨t,none⟩ o identityName pidFile urlRootIpc ds
  cases fdEvent with
  | none =>
    apply triple_bind _ _ _ _ _ (hgrows _ hs)
    intro ret h hr
    obtain ⟨hret,ds',hds',-,hh⟩ := hr
    by_cases hok : ret ≠ .eok
    · rw [if_pos hok]
      exact triple_pure (Has _) _ _ (fun h hh => hends ds' hds' rfl _ _ hret h hh) h hh
    · rw [if_neg hok]
      rw [not_not.mp hok] at hret
      exact triple_pure (Has _) _ _ (fun h hh => hends ds' hds' rfl _ _ hret h hh) h hh
  | some p =>
    intro h hh
    obtain ⟨state,hstate,hh⟩ := hh
    have hswap := List.perm_append_comm_assoc ds [⟨p,some state⟩] (requests memCtx rs++cs)
    refine triple_bind _ _ _ _ _ (hgrows (⟨p,some state⟩::(requests memCtx rs++cs)) hs) ?_ h
      (hh.trans hswap.symm)
    intro ret h hr
    obtain ⟨hret,ds',hds',hsub,hh⟩ := hr
    have hswap' := List.perm_append_comm_assoc ds' [⟨p,some state⟩] (requests memCtx rs++cs)
    by_cases hok : ret ≠ .eok
    · rw [if_pos hok]
      have hall : Subtree ⟨t,none⟩ (⟨p,some state⟩::ds') :=
        subtree_cons _ ds' _ state (hsub hstate) rfl hds'
      exact triple_pure (Has _) _ _ (fun h hh =>
        hends _ hall rfl _ _ hret h (hh.trans hswap')) h hh
    · rw [if_neg hok]
      rw [not_not.mp hok] at hret
      have hself : SelfOwned (ds'++(requests memCtx rs++cs)) :=
        self_owned_subtree _ ds' t none hds' (fun q hq => by cases hq) hbase
      apply triple_free_made (some state) _ [⟨p,some state⟩] p _ _ (subtree_single _) hself _ h
        (hh.trans hswap')
      exact triple_pure _ _ _ (fun h hh => hends ds' hds' rfl _ _ hret h hh)

/-- A start leaves its request with its state, if it was made. -/
theorem start_leaves_request (p : SocketCount.Process)
    (hbus : SocketCount.nbusInitPair init urlRootIpc SocketCount.start =
      .ok (o.socket.nbusInit,p)) :
    Triple (Has cs) (asyncStartWorkerDaemon o init identityName pidFile urlRootIpc memCtx)
      (fun ret h => ∃ kept, Has kept h ∧ ret = returned o identityName pidFile urlRootIpc ∧
        ∃ rs : List (ℕ × ℕ), rs.length = (if created o then 1 else 0) ∧
          kept = requests memCtx rs++cs) := by
  apply triple_tmp_ctx cs o.tmpCtx _ _ (fun ret kept =>
    ret = returned o identityName pidFile urlRootIpc ∧ ∃ rs : List (ℕ × ℕ),
      rs.length = (if created o then 1 else 0) ∧ kept = requests memCtx rs++cs)
  · intro htmp
    have hnot : created o = false := by simp [created, htmp]
    rw [returned_uncreated o _ _ _ hnot, hnot]
    exact ⟨rfl,[],rfl,rfl⟩
  intro htmp hclosed t ht
  have hends := request_ends memCtx cs hlive hclosed.live t
  by_cases hevent : o.eventCtx = false
  · have hnot : created o = false := by simp [created, hevent]
    rw [if_pos hevent, returned_uncreated o _ _ _ hnot, hnot]
    exact triple_pure _ _ _ (fun h hh =>
      hends 0 [] [⟨t,none⟩] (subtree_single _) rfl _ _ rfl h hh)
  rw [if_neg hevent]
  apply triple_talloc _ _ _ _ (live_cons cs t none)
  intro event _
  have htree : Subtree ⟨t,none⟩ [⟨event,some t⟩,⟨t,none⟩] :=
    subtree_cons _ _ _ t (by simp [ids]) rfl (subtree_single _)
  cases hreq : o.req with
  | false =>
    have hnot : created o = false := by simp [created, hreq]
    rw [returned_uncreated o _ _ _ hnot, hnot]
    exact triple_pure _ _ _ (fun h hh => hends 0 [] _ htree rfl _ _ rfl h hh)
  | true =>
    have hcreated : created o = true := by
      simp only [Bool.not_eq_false] at hevent
      simp [created, htmp, hevent, hreq]
    rw [returned_created o _ _ _ hcreated, hcreated, teventReqCreate, if_pos rfl, bind_assoc]
    apply triple_talloc _ _ _ _ (live_tail _ _ _ (live_tail _ _ _ hlive))
    intro req _
    rw [bind_assoc]
    apply triple_talloc _ _ _ _ (live_cons _ req _)
    intro state _
    rw [pure_bind, if_neg (by simp)]
    apply triple_perm _ _ _ _
      (List.perm_append_comm_assoc [⟨state,some req⟩,⟨req,some memCtx⟩] [⟨event,some t⟩,⟨t,none⟩]
        cs)
    have hsocket := create_socket_waits ⟨t,none⟩ o.socket init urlRootIpc p hbus
      [⟨event,some t⟩,⟨t,none⟩] (requests memCtx [(req,state)]++cs) htree
    apply triple_bind _ _ _ _ _ hsocket
    intro subreq h hr
    obtain ⟨hsubreq,ds,hds,-,hh⟩ := hr
    rw [← hsubreq]
    cases subreq with
    | none =>
      exact triple_pure (Has _) _ _ (fun h hh => hends 1 [(req,state)] ds hds rfl _ _ rfl h hh) h hh
    | some fdEvent =>
      have hrun := run_ends o identityName pidFile urlRootIpc memCtx cs hlive hclosed.live t
        [(req,state)] ds fdEvent hds
      exact hrun h hh

end Start

structure WorkerStart where
  outcome : WorkerOutcome
  init : InitOutcome
  identityName : CString
  pidFile : CString
  urlRootIpc : CString

/-- What `nbus_init_pair` returns is what its calls give. -/
def WorkerStart.Consistent (w : WorkerStart) : Prop :=
  ∃ p, SocketCount.nbusInitPair w.init w.urlRootIpc SocketCount.start =
    .ok (w.outcome.socket.nbusInit,p)

def startAll (memCtx : ℕ) : List WorkerStart → Mem (List Errno)
  | [] => pure []
  | w::ws => do
    let ret ← asyncStartWorkerDaemon w.outcome w.init w.identityName w.pidFile w.urlRootIpc memCtx
    let rets ← startAll memCtx ws
    pure (ret::rets)

/-- After any number of starts the caller's context owns one more request for
each of them that came as far, whatever they returned, and nothing else. -/
theorem starts_leave_requests (memCtx : ℕ) (ws : List WorkerStart) (cs : List Chunk)
    (hlive : Live (some memCtx) cs) (hws : ∀ w ∈ ws, w.Consistent) :
    Triple (Has cs) (startAll memCtx ws) (fun rets h =>
      rets = ws.map (fun w => returned w.outcome w.identityName w.pidFile w.urlRootIpc) ∧
        ∃ rs : List (ℕ × ℕ), rs.length = ws.countP (fun w => created w.outcome) ∧
          Has (requests memCtx rs++cs) h) := by
  induction ws generalizing cs with
  | nil => exact triple_pure _ _ _ (fun h hh => ⟨rfl,[],rfl,hh⟩)
  | cons w ws ih =>
    obtain ⟨p,hbus⟩ := hws w List.mem_cons_self
    apply triple_bind _ _ _ _ _ (start_leaves_request w.outcome w.init w.identityName w.pidFile
      w.urlRootIpc memCtx cs hlive p hbus)
    intro ret h hr
    obtain ⟨kept,hh,rfl,rs,hrs,rfl⟩ := hr
    refine triple_bind _ _ _ _ _ (ih (requests memCtx rs++cs) (live_append _ _ _ hlive)
      (fun v hv => hws v (List.mem_cons_of_mem _ hv))) ?_ h hh
    intro rets h hr
    obtain ⟨rfl,qs,hqs,hh⟩ := hr
    refine triple_pure (Has _) _ _ (fun h hh => ⟨rfl,qs++rs,?_,?_⟩) h hh
    · rw [List.length_append, List.countP_cons, hqs, hrs]
    · rw [requests, List.flatMap_append, List.append_assoc]
      exact hh

def twoStarts : List WorkerStart :=
  [⟨AsyncRequests.someOutcome .eok,.good,alpha,alphaPid,alphaIpc⟩,
    ⟨{ AsyncRequests.someOutcome .eok with immediate := false },.good,alpha,alphaPid,alphaIpc⟩]

theorem two_starts_leave : ∃ h,
    startAll 0 twoStarts .single = some ([.eok,.enomem],h) ∧ h.chunks.length = 5 := by
  obtain ⟨rets,h,hrun,rfl,rs,hrs,hh⟩ := starts_leave_requests 0 twoStarts [⟨0,none⟩]
    (live_some 0 _ (by simp [ids]))
    (fun w hw => by
      simp only [twoStarts, List.mem_cons, List.not_mem_nil, or_false] at hw
      rcases hw with rfl | rfl <;> exact ⟨_,rfl⟩)
    .single (List.Perm.refl _)
  have htwo : rs.length = 2 := hrs
  refine ⟨h,hrun,hh.length_eq.trans ?_⟩
  rw [List.length_append, requests, List.length_flatMap]
  simp [htwo]

end Flip.Memory
