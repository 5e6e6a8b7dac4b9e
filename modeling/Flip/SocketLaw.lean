import Flip.SocketCount

/-!
# Who holds which socket

In every run the contexts of a process hold different sockets, all of them
open, and the endpoints are theirs. The open sockets that no context holds are
as many as the calls that leaked one.
-/

set_option autoImplicit false

namespace Flip.SocketLaw
open Flip.CLib Flip.Runs Flip.FileFromUrl Flip.CBlock Flip.SocketCount
open Flip.Nbus (NbusCtx)
open Flip.BusSetup (Protocol)
open scoped List

def endpoint (ctx : NbusCtx) : ℤ × ℤ := (ctx.sockFd,ctx.endpointId)

structure Held (p : Process) : Prop where
  distinct : p.sockets.Nodup
  held : p.contexts.map NbusCtx.sockFd <+ p.sockets
  endpoints : p.endpoints = p.contexts.map endpoint

structure Inv (p : Process) : Prop extends Held p where
  below : ∀ fd ∈ p.sockets, fd < p.sockets.length

/-- What a call does to the process, and whether it leaves a socket that no
context holds. -/
inductive Effect (p : Process) : Prop → Process → Prop where
  | same : Effect p False p
  | lost : Effect p True (nnSocket p).2
  | attached (endpointId : ℤ) :
    Effect p False (addEndpoint (nnSocket p).2 ⟨(nnSocket p).1,endpointId⟩)
  | closed (which : ℕ) (ctx : NbusCtx) (h : p.contexts[which]? = some ctx) :
    Effect p True { p with
      endpoints := p.endpoints.erase (endpoint ctx)
      contexts := p.contexts.eraseIdx which }

theorem init_effect (o : InitOutcome) (url : CString) (protocol : Protocol) (p q : Process)
    (ret : Errno) (h : nbusInitPubsub o url protocol p = .ok (ret,q)) :
    Effect p (¬o.Keeps url protocol) q := by
  by_cases hopen : o.Opens
  · by_cases hc : o.Completes url protocol
    · obtain ⟨endpointId,hrun⟩ := init_completes o url protocol p hopen hc
      rw [hrun] at h
      cases h
      have hkeep : o.Keeps url protocol := fun _ => hc
      simpa only [hkeep, not_true_eq_false] using Effect.attached (p := p) endpointId
    · have hlost : ¬o.Keeps url protocol := fun hkeep => hc (hkeep hopen)
      rw [init_leaks o url protocol p hopen hc ret q h]
      simpa only [hlost, not_false_eq_true] using Effect.lost (p := p)
  · obtain ⟨ret',-,hrun⟩ := init_unopened o url protocol p hopen
    rw [hrun] at h
    cases h
    have hkeep : o.Keeps url protocol := fun hopens => absurd hopens hopen
    simpa only [hkeep, not_true_eq_false] using Effect.same (p := p)

theorem close_effect (p : Process) (which : ℕ) (shutdown : Bool) :
    Effect p (¬Keeps p (.close which shutdown)) (nbusClose shutdown which p).2 := by
  cases hctx : p.contexts[which]? with
  | none => simpa [nbusClose, Keeps, hctx] using Effect.same (p := p)
  | some ctx =>
    cases shutdown with
    | false => simpa [nbusClose, Keeps, hctx] using Effect.same (p := p)
    | true => simpa [nbusClose, Keeps, hctx, endpoint] using Effect.closed which ctx hctx

theorem step_effect (p q : Process) (call : Call) (h : step p call = some q) :
    Effect p (¬Keeps p call) q := by
  obtain ⟨ret,r,hrun,rfl⟩ := (step_some_iff p call (fun r => r = q)).mp ⟨q,h,rfl⟩
  cases call with
  | initPair url o => exact init_effect o url .bus p r ret hrun
  | initPub url o => exact init_effect o url .pub p r ret hrun
  | initSub url o => exact init_effect o url .sub p r ret hrun
  | close which shutdown =>
    have hclose : nbusClose shutdown which p = (ret,r) := Except.ok.inj hrun
    have heffect := close_effect p which shutdown
    rwa [hclose] at heffect

theorem socket_new (p : Process) (hp : Inv p) : (p.sockets.length : ℤ) ∉ p.sockets :=
  fun hmem => absurd (hp.below _ hmem) (lt_irrefl _)

theorem inv_socket (p : Process) (hp : Inv p) : Inv (nnSocket p).2 where
  distinct := List.nodup_cons.mpr ⟨socket_new p hp,hp.distinct⟩
  held := hp.held.trans (List.sublist_cons_self _ _)
  endpoints := hp.endpoints
  below fd hfd := by
    have hlength : ((nnSocket p).2.sockets.length : ℤ) = p.sockets.length+1 := rfl
    rw [hlength]
    rcases List.mem_cons.mp hfd with rfl | hold
    · exact Int.lt_succ _
    · exact (hp.below fd hold).trans (Int.lt_succ _)

theorem inv_attach (p : Process) (endpointId : ℤ) (hp : Inv p) :
    Inv (addEndpoint (nnSocket p).2 ⟨(nnSocket p).1,endpointId⟩) where
  distinct := (inv_socket p hp).distinct
  held := hp.held.cons_cons _
  endpoints := congrArg (List.cons _) hp.endpoints
  below := (inv_socket p hp).below

theorem erase_endpoint (ctxs : List NbusCtx) (which : ℕ) (ctx : NbusCtx)
    (hdistinct : (ctxs.map NbusCtx.sockFd).Nodup) (h : ctxs[which]? = some ctx) :
    (ctxs.map endpoint).erase (endpoint ctx) = (ctxs.eraseIdx which).map endpoint := by
  induction ctxs generalizing which with
  | nil => cases h
  | cons c ctxs ih =>
    rw [List.map_cons, List.nodup_cons] at hdistinct
    cases which with
    | zero =>
      cases h
      exact List.erase_cons_head _ _
    | succ which =>
      have hmem : ctx ∈ ctxs := List.mem_of_getElem? h
      have hne : endpoint c ≠ endpoint ctx := by
        intro heq
        have hfd : c.sockFd = ctx.sockFd := congrArg Prod.fst heq
        exact hdistinct.1 (hfd ▸ List.mem_map_of_mem hmem)
      rw [List.map_cons, List.erase_cons_tail (by simpa using hne), ih which hdistinct.2 h]
      rfl

theorem inv_close (p : Process) (which : ℕ) (ctx : NbusCtx) (hp : Inv p)
    (h : p.contexts[which]? = some ctx) :
    Inv { p with
      endpoints := p.endpoints.erase (endpoint ctx)
      contexts := p.contexts.eraseIdx which } where
  distinct := hp.distinct
  held := ((List.eraseIdx_sublist _ _).map _).trans hp.held
  endpoints := by
    rw [hp.endpoints]
    exact erase_endpoint p.contexts which ctx (hp.distinct.sublist hp.held) h
  below := hp.below

theorem inv_step (p : Process) (call : Call) (q : Process) (hp : Inv p)
    (h : step p call = some q) : Inv q := by
  have heffect := step_effect p q call h
  generalize (¬Keeps p call) = leaks at heffect
  cases heffect with
  | same => exact hp
  | lost => exact inv_socket p hp
  | attached endpointId => exact inv_attach p endpointId hp
  | closed which ctx hctx => exact inv_close p which ctx hp hctx

def unheld (p : Process) : ℤ := p.sockets.length-p.contexts.length

open Classical in
theorem unheld_effect (p q : Process) (leaks : Prop) (h : Effect p leaks q) :
    unheld q = unheld p+(if leaks then 1 else 0) := by
  cases h with
  | same => simp
  | lost =>
    have hlength : ((nnSocket p).2.sockets.length : ℤ) = p.sockets.length+1 := rfl
    have hcontexts : (nnSocket p).2.contexts = p.contexts := rfl
    rw [unheld, hlength, hcontexts, unheld, if_pos trivial]
    ring
  | attached endpointId =>
    simp [unheld, addEndpoint, nnSocket]
  | closed which ctx hctx =>
    obtain ⟨hlt,-⟩ := List.getElem?_eq_some_iff.mp hctx
    have hlength : ((p.contexts.eraseIdx which).length : ℤ) = p.contexts.length-1 := by
      rw [List.length_eraseIdx_of_lt hlt, Nat.cast_sub (by omega), Nat.cast_one]
    rw [unheld, hlength, unheld, if_pos trivial]
    ring

open Classical in
theorem unheld_step (p : Process) (call : Call) (q : Process) (h : step p call = some q) :
    unheld q = unheld p+(if Keeps p call then 0 else 1) := by
  rw [unheld_effect p q _ (step_effect p q call h)]
  by_cases hkeep : Keeps p call
  · rw [if_pos hkeep, if_neg (not_not.mpr hkeep)]
  · rw [if_neg hkeep, if_pos hkeep]

/-- After every run of calls of one process the contexts hold different open
sockets, the endpoints are exactly theirs, and the sockets that no context
holds are as many as the calls were that failed after opening one or closed a
context. -/
theorem sockets_law (calls : List Call) (p : Process) (h : run step start calls = some p) :
    Held p ∧ (p.sockets.length : ℤ) = p.contexts.length+misses step Keeps start calls := by
  have hinv := run_invariant step (fun _ _ => True) Inv
    (fun p call q hp _ hstep => inv_step p call q hp hstep) calls start p
    ⟨⟨List.nodup_nil,List.Sublist.refl _,rfl⟩,by simp [start]⟩ (along_always step start calls) h
  have hcount := run_misses step Keeps unheld unheld_step calls start p h
  have hstart : unheld start = 0 := rfl
  rw [hstart, zero_add, unheld] at hcount
  exact ⟨hinv.toHeld,by omega⟩

def closeFirst : List Call :=
  [.initPair (ipcUrl slash) .good,.initSub (ipcUrl slash) .good,.close 1 true]

theorem close_first_law :
    run step start closeFirst = some ⟨[1,0],[(1,0)],[⟨1,0⟩]⟩ ∧
      Held ⟨[1,0],[(1,0)],[⟨1,0⟩]⟩ ∧ (2 : ℤ) = 1+misses step Keeps start closeFirst := by
  have hrun : run step start closeFirst = some ⟨[1,0],[(1,0)],[⟨1,0⟩]⟩ := by decide
  exact ⟨hrun,sockets_law closeFirst _ hrun⟩

end Flip.SocketLaw
