import Flip.MemoryCalls
import Flip.WorkerStart

/-!
# What waiting for the worker leaves

Every message that is received is a chunk below the caller's context, and its
string below nothing. The variable of the loop points at the chunk allocated
first or at the last one received, which is the one that is handed out.
-/

set_option autoImplicit false

namespace Flip.Memory
open Flip.CLib Flip.Talloc Flip.Nbus Flip.WorkerStart

/-- In the first round the worker is started. The command is freed when
`system` has succeeded. -/
def launchWorker (o : StartOutcome) (wdCtx : WorkerDaemonCtx) (tmpCtx i : ℕ) : Mem Bool :=
  if i ≠ 30 then pure true
  else do
    let command ← tryTalloc o.command tmpCtx
    if o.system (startCommand o wdCtx) ≠ 0 then pure false
    else
      match command with
      | none => pure true
      | some p => do
        tallocFree p
        pure true

/-- One attempt; the loop's variable `chunk` is a pointer here. -/
def recieveOnce (ctx : Option NbusCtx) (a : Attempt) (w : Wait) (chunk : ℕ)
    (memCtx : Option ℕ) : Mem (Errno × Wait × ℕ) := do
  let (ret,p) ← nbusRecieve a.outcome ctx (w.bus++a.arrived) memCtx
  pure (ret,(WorkerStart.recieveOnce ctx a w).2,p.getD chunk)

def waitLoop (o : StartOutcome) (wdCtx : WorkerDaemonCtx) (memCtx : Option ℕ) (tmpCtx : ℕ) :
    ℕ → Wait → ℕ → Mem (Errno × ℕ)
  | 0, _, chunk => pure (.eok,chunk)
  | i+1, w, chunk => do
    let launched ← launchWorker o wdCtx tmpCtx (i+1)
    if launched = false then pure (.eio,chunk)
    else do
      let (ret,w,chunk) ← recieveOnce wdCtx.nbusCtx (o.attempt (i+1)) w chunk memCtx
      if ret ≠ .eok ∧ ret ≠ .eagain then pure (.eio,chunk)
      else waitLoop o wdCtx memCtx tmpCtx i w chunk

def asyncStartWorkerDaemon2 (o : StartOutcome) (wdCtx : WorkerDaemonCtx) (bus : Bus)
    (memCtx : Option ℕ) : Call :=
  withTmpCtx o.tmpCtx (.enomem,none) fun tmpCtx =>
    if o.chunk = false then pure (.enomem,none)
    else do
      let chunk ← talloc (some tmpCtx)
      let (ret,chunk) ← waitLoop o wdCtx memCtx tmpCtx 30 ⟨.zero,bus,[]⟩ chunk
      if ret ≠ .eok then pure (ret,none)
      else do
        tallocSteal chunk memCtx
        pure (.eok,some chunk)

def startAndFree (o : StartOutcome) (wdCtx : WorkerDaemonCtx) (bus : Bus) (memCtx : ℕ) :
    Mem Errno := do
  let (ret,_) ← asyncStartWorkerDaemon2 o wdCtx bus (some memCtx)
  tallocFree memCtx
  pure ret

def stored (os : List Received) : ℕ := (messages (os.takeWhile (· ≠ .failed))).length

def received (o : StartOutcome) (wdCtx : WorkerDaemonCtx) (bus : Bus) : ℕ :=
  if o.tmpCtx = true ∧ o.chunk = true ∧ o.system (startCommand o wdCtx) = 0 then
    stored (attempted o wdCtx bus)
  else 0

def chunkOf (memCtx : Option ℕ) (p : ℕ × ℕ) : Chunk := ⟨p.1,memCtx⟩

def stringOf (p : ℕ × ℕ) : Chunk := ⟨p.2,none⟩

def delivered (memCtx : Option ℕ) (ps : List (ℕ × ℕ)) : List Chunk :=
  ps.map (chunkOf memCtx)++ps.map stringOf

def current (chunk : ℕ) (ps : List (ℕ × ℕ)) : ℕ := (ps.head?.map Prod.fst).getD chunk

theorem stored_cons (o : Received) (os : List Received) (h : o ≠ .failed) :
    stored (o::os) = (messages [o]).length+stored os := by
  rw [stored, List.takeWhile_cons_of_pos (by simpa using h), messages, messages, stored, messages]
  cases o <;> simp [List.filterMap_cons, Received.chunk?, Nat.add_comm]

theorem stored_failed (os : List Received) : stored (.failed::os) = 0 := rfl

theorem delivered_cons (memCtx : Option ℕ) (chunk data : ℕ) (ps : List (ℕ × ℕ))
    (base : List Chunk) : (⟨chunk,memCtx⟩::⟨data,none⟩::(delivered memCtx ps++base)).Perm
      (delivered memCtx ((chunk,data)::ps)++base) := by
  rw [delivered, delivered, List.map_cons, List.map_cons, List.cons_append, List.cons_append,
    List.append_assoc, List.append_assoc]
  exact List.perm_middle.symm.cons _

section Waiting

variable (cs : List Chunk) (memCtx : Option ℕ) (hlive : Live memCtx cs)

include hlive

theorem self_owned_delivered (hcs : SelfOwned cs) (ps : List (ℕ × ℕ)) :
    SelfOwned (delivered memCtx ps++cs) := by
  intro c hc q hq
  rw [ids_append]
  apply List.mem_append_right
  simp only [delivered, List.mem_append, List.mem_map] at hc
  rcases hc with (⟨p,-,rfl⟩ | ⟨p,-,rfl⟩) | hc
  · exact hlive q hq
  · cases hq
  · exact hcs c hc q hq

theorem recieve_once_keeps (ctx : Option NbusCtx) (a : Attempt) (w : Wait) (chunk : ℕ)
    (ps : List (ℕ × ℕ)) :
    Triple (Has (delivered memCtx ps++cs)) (recieveOnce ctx a w (current chunk ps) memCtx)
      (fun r h => r.1 = (WorkerStart.recieveOnce ctx a w).1 ∧
        r.2.1 = (WorkerStart.recieveOnce ctx a w).2 ∧ ∃ qs, r.2.2 = current chunk (qs++ps) ∧
          qs.length = (if r.1 = .eok then 1 else 0) ∧ Has (delivered memCtx (qs++ps)++cs) h) := by
  have hrecieve := recieve_keeps (delivered memCtx ps++cs) memCtx (live_append _ _ _ hlive)
    a.outcome ctx (w.bus++a.arrived)
  apply triple_bind _ _ _ _ _ hrecieve
  intro r h hr
  obtain ⟨ret,p⟩ := r
  obtain ⟨kept,hh,hret,hkept⟩ := hr
  obtain rfl : ret = (WorkerStart.recieveOnce ctx a w).1 := hret
  cases p with
  | none =>
    obtain ⟨hne,rfl⟩ := hkept
    exact triple_pure (Has _) _ _ (fun h hh => ⟨rfl,rfl,[],rfl,(if_neg hne).symm,hh⟩) h hh
  | some p =>
    obtain ⟨hok,data,rfl⟩ := hkept
    have hperm := delivered_cons memCtx p data ps cs
    exact triple_pure (Has _) _ _
      (fun h hh => ⟨rfl,rfl,[(p,data)],rfl,(if_pos hok).symm,hh.trans hperm⟩) h hh

theorem wait_loop_keeps (o : StartOutcome) (wdCtx : WorkerDaemonCtx)
    (hsystem : o.system (startCommand o wdCtx) = 0) (t chunk : ℕ)
    (hlaunch : ∀ i ps, Triple (Has (delivered memCtx ps++cs)) (launchWorker o wdCtx t i)
      (fun r h => r = true ∧ Has (delivered memCtx ps++cs) h))
    (i : ℕ) (w : Wait) (ps : List (ℕ × ℕ)) :
    Triple (Has (delivered memCtx ps++cs)) (waitLoop o wdCtx memCtx t i w (current chunk ps))
      (fun r h => r.1 = (WorkerStart.waitLoop o wdCtx i w).1 ∧ ∃ qs,
        r.2 = current chunk (qs++ps) ∧
          qs.length = stored (outcomes wdCtx.nbusCtx o.attempt i w) ∧
            Has (delivered memCtx (qs++ps)++cs) h) := by
  induction i generalizing w ps with
  | zero => exact triple_pure _ _ _ (fun h hh => ⟨rfl,[],rfl,rfl,hh⟩)
  | succ i ih =>
    rw [waitLoop]
    apply triple_bind _ _ _ _ _ (hlaunch (i+1) ps)
    intro launched h hr
    obtain ⟨rfl,hh⟩ := hr
    rw [if_neg (by decide)]
    refine triple_bind _ _ _ _ _ (recieve_once_keeps cs memCtx hlive wdCtx.nbusCtx
      (o.attempt (i+1)) w chunk ps) ?_ h hh
    intro r h hr
    obtain ⟨ret,w',c⟩ := r
    obtain ⟨hret,hw,qs,hc,hqs,hh⟩ := hr
    dsimp only at hret hw hc hqs ⊢
    have hloop : WorkerStart.waitLoop o wdCtx (i+1) w =
        if ret ≠ .eok ∧ ret ≠ .eagain then (.eio,w') else WorkerStart.waitLoop o wdCtx i w' := by
      rw [WorkerStart.waitLoop, if_neg (fun h => h.2 hsystem), hret, hw]
    have houtcomes : outcomes wdCtx.nbusCtx o.attempt (i+1) w =
        WorkerStart.received (ret,w')::outcomes wdCtx.nbusCtx o.attempt i w' := by
      rw [outcomes, hret, hw]
    rw [hloop, houtcomes, hc]
    by_cases herror : ret ≠ .eok ∧ ret ≠ .eagain
    · rw [if_pos herror, if_pos herror, received_error w' herror.1 herror.2, stored_failed]
      rw [if_neg herror.1] at hqs
      obtain rfl := List.length_eq_zero_iff.mp hqs
      exact triple_pure (Has _) _ _ (fun h hh => ⟨rfl,[],rfl,rfl,hh⟩) h hh
    · rw [if_neg herror, if_neg herror]
      apply triple_mono _ _ _ _ _ (ih w' (qs++ps)) (fun _ hh => hh) _ h hh
      intro r h hr
      obtain ⟨hret',rs,hcur,hrs,hh⟩ := hr
      refine ⟨hret',rs++qs,?_,?_,?_⟩
      · rw [hcur, List.append_assoc]
      · rw [List.length_append, hrs, hqs]
        cases ret with
        | eok => rw [stored_cons _ _ (by simp [WorkerStart.received]), Nat.add_comm]; rfl
        | eagain =>
          rw [stored_cons _ _ (by simp [WorkerStart.received]), Nat.add_comm]; rfl
        | _ => exact absurd (And.intro (by decide) (by decide)) herror
      · rw [List.append_assoc]
        exact hh

omit hlive in
theorem launch_restores (o : StartOutcome) (wdCtx : WorkerDaemonCtx)
    (hsystem : o.system (startCommand o wdCtx) = 0) (t i : ℕ) (hin : t ∈ ids cs) :
    Triple (Has cs) (launchWorker o wdCtx t i) (fun r h => r = true ∧ Has cs h) := by
  rw [launchWorker]
  by_cases hi : i ≠ 30
  · rw [if_pos hi]
    exact triple_pure _ _ _ (fun h hh => ⟨rfl,hh⟩)
  rw [if_neg hi]
  simp only [hsystem, ne_eq, not_true_eq_false, if_false]
  apply triple_closed
  intro hclosed
  apply triple_try_talloc _ _ _ _ _ (live_some t cs hin)
  · exact fun _ => triple_pure _ _ _ (fun h hh => ⟨rfl,hh⟩)
  · intro _ x _
    apply triple_free_made (some t) cs [⟨x,some t⟩] x _ _ (subtree_single _) hclosed.live
    exact triple_pure _ _ _ (fun h hh => ⟨rfl,hh⟩)

omit hlive in
theorem launch_fails (o : StartOutcome) (wdCtx : WorkerDaemonCtx)
    (hsystem : o.system (startCommand o wdCtx) ≠ 0) (t : ℕ) (ds : List Chunk)
    (hs : Subtree ⟨t,none⟩ ds) :
    Triple (Has (ds++cs)) (launchWorker o wdCtx t 30) (fun r h => r = false ∧
      ∃ ds', Subtree ⟨t,none⟩ ds' ∧ Has (ds'++cs) h) := by
  rw [launchWorker, if_neg (fun h => h rfl)]
  simp only [if_pos hsystem]
  have hlive : Live (some t) (ds++cs) :=
    live_left _ ds cs (live_some t ds (subtree_mem _ ds hs))
  apply triple_try_talloc _ _ _ _ _ hlive
  · exact fun _ => triple_pure _ _ _ (fun h hh => ⟨rfl,ds,hs,hh⟩)
  · intro _ x _
    exact triple_pure _ _ _ (fun h hh => ⟨rfl,⟨x,some t⟩::ds,
      subtree_cons _ ds _ t (subtree_mem _ ds hs) rfl hs,hh⟩)

/-- The messages, and without one the chunk that was allocated first. -/
def StartKeeps (n : ℕ) (ret : Errno) (r : Errno × Option ℕ) (kept : List Chunk) : Prop :=
  r.1 = ret ∧ ∃ ps, ps.length = n ∧
    match r.2 with
    | none => ret ≠ .eok ∧ kept = delivered memCtx ps++cs
    | some p => ret = .eok ∧ p = current p ps ∧
      kept = if ps = [] then ⟨p,memCtx⟩::cs else delivered memCtx ps++cs

theorem delivered_apart (hcs : SelfOwned cs) (ps : List (ℕ × ℕ)) (ds : List Chunk) (h : Heap)
    (hh : Has (delivered memCtx ps++(ds++cs)) h) :
    Apart ds (delivered memCtx ps++cs) ∧ Has (ds++(delivered memCtx ps++cs)) h := by
  have hperm : Has (ds++(delivered memCtx ps++cs)) h :=
    hh.trans (List.perm_append_comm_assoc _ _ _)
  have hself := self_owned_delivered cs memCtx hlive hcs ps
  exact ⟨apart_rest _ _ hself (has_closed _ h hperm),hperm⟩

theorem start_gives (t chunk : ℕ) (ps : List (ℕ × ℕ)) (hcs : Closed cs) (ht : t ∉ ids cs) :
    Triple (Has (delivered memCtx ps++(⟨chunk,some t⟩::⟨t,none⟩::cs)))
      (do
        tallocSteal (current chunk ps) memCtx
        pure (.eok,some (current chunk ps)))
      (fun (r : Errno × Option ℕ) h => ∃ ds kept, Subtree ⟨t,none⟩ ds ∧ Apart ds kept ∧
        Has (ds++kept) h ∧ StartKeeps cs memCtx ps.length .eok r kept) := by
  have hbehind : SelfOwned (⟨t,none⟩::cs) := (closed_root cs t hcs ht).live
  have hin : Live memCtx (⟨t,none⟩::cs) := live_tail cs memCtx _ hlive
  have htree : Subtree ⟨t,none⟩ [⟨chunk,some t⟩,⟨t,none⟩] :=
    subtree_cons _ _ _ t (by simp [ids]) rfl (subtree_single _)
  apply triple_closed
  intro hall
  cases ps with
  | nil =>
    apply triple_steal [⟨chunk,some t⟩] (⟨t,none⟩::cs) memCtx _ ⟨chunk,some t⟩ _ (subtree_single _)
      (apart_rest _ _ hbehind hall) hin
    intro _
    rw [List.map_singleton, reown_root]
    apply triple_pure
    intro h hh
    have hperm : Has ([⟨t,none⟩]++(⟨chunk,memCtx⟩::cs)) h := hh.trans (List.Perm.swap _ _ _)
    have hapart := apart_rest _ _ (self_owned_cons _ _ hlive hcs.live) (has_closed _ h hperm)
    exact ⟨[⟨t,none⟩],_,subtree_single _,hapart,hperm,rfl,[],rfl,rfl,rfl,rfl⟩
  | cons p ps =>
    obtain ⟨p,d⟩ := p
    have hperm := delivered_cons memCtx p d ps (⟨chunk,some t⟩::⟨t,none⟩::cs)
    have hrest : SelfOwned (⟨d,none⟩::(delivered memCtx ps++(⟨chunk,some t⟩::⟨t,none⟩::cs))) := by
      apply self_owned_cons _ _ (fun q hq => by cases hq)
      apply self_owned_delivered _ _ (live_tail _ _ _ hin)
      exact self_owned_cons _ _ (live_cons cs t none) hbehind
    apply triple_perm _ _ _ _ hperm.symm
    apply triple_steal [⟨p,memCtx⟩] _ memCtx _ ⟨p,memCtx⟩ _ (subtree_single _)
      (apart_rest _ _ hrest (closed_perm _ _ hperm.symm hall))
      (live_tail _ _ _ (live_append _ _ _ (live_tail _ _ _ hin)))
    intro _
    rw [List.map_singleton, reown_root]
    apply triple_pure
    intro h hh
    obtain ⟨hapart,hkept⟩ := delivered_apart cs memCtx hlive hcs.live ((p,d)::ps)
      [⟨chunk,some t⟩,⟨t,none⟩] h (hh.trans hperm)
    exact ⟨_,_,htree,hapart,hkept,rfl,(p,d)::ps,rfl,rfl,rfl,rfl⟩

theorem start_keeps (o : StartOutcome) (wdCtx : WorkerDaemonCtx) (bus : Bus)
    (out : Option StringCtx) :
    Triple (Has cs) (asyncStartWorkerDaemon2 o wdCtx bus memCtx) (fun r h => ∃ kept, Has kept h ∧
      StartKeeps cs memCtx (received o wdCtx bus)
        (WorkerStart.asyncStartWorkerDaemon2 o wdCtx bus out).ret r kept) := by
  apply triple_tmp_ctx cs o.tmpCtx _ _ (StartKeeps cs memCtx (received o wdCtx bus) _)
  · intro htmp
    rw [received, if_neg (by simp [htmp]), WorkerStart.asyncStartWorkerDaemon2, if_pos htmp]
    have hne : Errno.enomem ≠ .eok := by decide
    exact ⟨rfl,[],rfl,hne,rfl⟩
  intro htmp hclosed t ht
  have htmp' : ¬o.tmpCtx = false := by simp [htmp]
  rw [WorkerStart.asyncStartWorkerDaemon2, if_neg htmp']
  have hfail : ∀ ret ps ds h, ret ≠ .eok → Subtree ⟨t,none⟩ ds →
      Has (delivered memCtx ps++(ds++cs)) h → ∃ ds kept, Subtree ⟨t,none⟩ ds ∧ Apart ds kept ∧
        Has (ds++kept) h ∧ StartKeeps cs memCtx ps.length ret (ret,none) kept := by
    intro ret ps ds h hne hs hh
    obtain ⟨hapart,hkept⟩ := delivered_apart cs memCtx hlive hclosed.live ps ds h hh
    exact ⟨ds,_,hs,hapart,hkept,rfl,ps,rfl,hne,rfl⟩
  by_cases hchunk : o.chunk = false
  · rw [if_pos hchunk, if_pos hchunk, received, if_neg (by simp [hchunk])]
    exact triple_pure _ _ _ (fun h hh =>
      hfail .enomem [] [⟨t,none⟩] h (by decide) (subtree_single _) hh)
  rw [if_neg hchunk, if_neg hchunk]
  apply triple_talloc _ _ _ _ (live_cons cs t none)
  intro c _
  have htree : Subtree ⟨t,none⟩ [⟨c,some t⟩,⟨t,none⟩] :=
    subtree_cons _ _ _ t (by simp [ids]) rfl (subtree_single _)
  by_cases hsystem : o.system (startCommand o wdCtx) = 0
  swap
  · have hloop : WorkerStart.waitLoop o wdCtx 30 ⟨.zero,bus,[]⟩ = (.eio,⟨.zero,bus,[]⟩) := by
      rw [WorkerStart.waitLoop, if_pos ⟨rfl,hsystem⟩]
    rw [hloop, received, if_neg (fun h => hsystem h.2.2), waitLoop, bind_assoc]
    apply triple_bind _ _ _ _ _ (launch_fails cs o wdCtx hsystem t [⟨c,some t⟩,⟨t,none⟩] htree)
    intro launched h hr
    obtain ⟨rfl,ds,hs,hh⟩ := hr
    rw [if_pos rfl, pure_bind]
    exact triple_pure (Has (ds++cs)) _ _ (fun h hh => hfail .eio [] ds h (by decide) hs hh) h hh
  · have hlaunch : ∀ i ps, Triple (Has (delivered memCtx ps++(⟨c,some t⟩::⟨t,none⟩::cs)))
        (launchWorker o wdCtx t i)
        (fun r h => r = true ∧ Has (delivered memCtx ps++(⟨c,some t⟩::⟨t,none⟩::cs)) h) := by
      intro i ps
      apply launch_restores _ o wdCtx hsystem
      rw [ids_append]
      exact List.mem_append_right _ (List.mem_cons_of_mem _ List.mem_cons_self)
    have hcount : received o wdCtx bus = stored (attempted o wdCtx bus) := by
      rw [received, if_pos ⟨htmp,by simpa using hchunk,hsystem⟩]
    have hloop := wait_loop_keeps (⟨c,some t⟩::⟨t,none⟩::cs) memCtx
      (live_tail _ _ _ (live_tail _ _ _ hlive)) o wdCtx hsystem t c hlaunch 30 ⟨.zero,bus,[]⟩ []
    apply triple_bind _ _ _ _ _ hloop
    intro r h hr
    obtain ⟨ret,p⟩ := r
    obtain ⟨hret,ps,hp,hps,hh⟩ := hr
    rw [List.append_nil] at hp hh
    dsimp only at hret hp ⊢
    subst hp
    rw [hcount]
    by_cases hok : ret ≠ .eok
    · rw [if_pos hok]
      have hend : (WorkerStart.waitLoop o wdCtx 30 ⟨.zero,bus,[]⟩).1 = ret := hret.symm
      rw [hend, ← show ps.length = stored (attempted o wdCtx bus) from hps]
      exact triple_pure (Has _) _ _ (fun h hh =>
        hfail ret ps [⟨c,some t⟩,⟨t,none⟩] h hok htree hh) h hh
    · rw [if_neg hok]
      obtain rfl : ret = .eok := not_not.mp hok
      rw [← hret]
      rw [← show ps.length = stored (attempted o wdCtx bus) from hps]
      exact start_gives cs memCtx hlive t c ps hclosed ht h hh

end Waiting

theorem subtree_chunks (root : Chunk) (m : ℕ) (ms : List Chunk) (hs : Subtree root ms)
    (hin : m ∈ ids ms) (ps : List (ℕ × ℕ)) :
    Subtree root (ps.map (chunkOf (some m))++ms) := by
  induction ps with
  | nil => exact hs
  | cons p ps ih =>
    apply subtree_cons root _ _ m _ rfl ih
    rw [ids_append]
    exact List.mem_append_right _ hin

theorem self_owned_strings (rest : List Chunk) (hrest : SelfOwned rest) (ps : List (ℕ × ℕ)) :
    SelfOwned (ps.map stringOf++rest) := by
  induction ps with
  | nil => exact hrest
  | cons p ps ih => exact self_owned_cons _ _ (fun q hq => by cases hq) ih

/-- When the caller's context is freed the strings of all messages that were
received are left, and nothing else. -/
theorem start_leaves_strings (o : StartOutcome) (wdCtx : WorkerDaemonCtx) (bus : Bus)
    (out : Option StringCtx) (memCtx : ℕ) (owner : Option ℕ) (ms rest : List Chunk)
    (hs : Subtree ⟨memCtx,owner⟩ ms) (hrest : SelfOwned rest) :
    Triple (Has (ms++rest)) (startAndFree o wdCtx bus memCtx) (fun r h =>
      r = (WorkerStart.asyncStartWorkerDaemon2 o wdCtx bus out).ret ∧ ∃ strings : List Chunk,
        (∀ c ∈ strings, c.owner = none) ∧ strings.length = received o wdCtx bus ∧
          Has (strings++rest) h) := by
  have hin : memCtx ∈ ids ms := subtree_mem _ ms hs
  have hlive : Live (some memCtx) (ms++rest) := live_left _ ms rest (live_some memCtx ms hin)
  have hends : ∀ (ps : List (ℕ × ℕ)) (new kept : List Chunk) (ret : Errno) h,
      Subtree ⟨memCtx,owner⟩ new → kept.Perm (new++(ps.map stringOf++rest)) → Has kept h →
      ∃ a h', (do tallocFree memCtx; pure ret : Mem Errno) h = some (a,h') ∧ a = ret ∧
        ∃ strings : List Chunk, (∀ c ∈ strings, c.owner = none) ∧ strings.length = ps.length ∧
          Has (strings++rest) h' := by
    intro ps new kept ret h hnew hperm hh
    apply triple_free_made owner _ new memCtx _ _ hnew (self_owned_strings rest hrest ps) _ h
      (hh.trans hperm)
    apply triple_pure
    intro h hh
    refine ⟨rfl,ps.map stringOf,?_,List.length_map _,hh⟩
    intro c hc
    obtain ⟨p,-,rfl⟩ := List.mem_map.mp hc
    rfl
  apply triple_bind _ _ _ _ _ (start_keeps _ _ hlive o wdCtx bus out)
  intro r h hr
  obtain ⟨ret,p⟩ := r
  obtain ⟨kept,hh,rfl,ps,hps,hkept⟩ := hr
  rw [← hps]
  have hall : ∀ ps, (delivered (some memCtx) ps++(ms++rest)).Perm
      ((ps.map (chunkOf (some memCtx))++ms)++(ps.map stringOf++rest)) := by
    intro ps
    rw [delivered, List.append_assoc, List.append_assoc]
    exact (List.perm_append_comm_assoc _ _ _).append_left _
  cases p with
  | none =>
    obtain ⟨-,rfl⟩ := hkept
    exact hends ps _ _ _ h (subtree_chunks _ _ ms hs hin ps) (hall ps) hh
  | some p =>
    obtain ⟨-,-,rfl⟩ := hkept
    split_ifs at hh with hnil
    · subst hnil
      exact hends [] (⟨p,some memCtx⟩::ms) _ _ h (subtree_cons _ _ _ _ hin rfl hs)
        (List.Perm.refl _) hh
    · exact hends ps _ _ _ h (subtree_chunks _ _ ms hs hin ps) (hall ps) hh

theorem two_messages_leave : ∃ h,
    startAndFree silentStart someWorker [[104],[105]] 0 .single = some (.eok,h) ∧
      h.chunks.length = 2 := by
  obtain ⟨ret,h,hrun,hret,strings,-,hlength,hh⟩ := start_leaves_strings silentStart someWorker
    [[104],[105]] none 0 none [⟨0,none⟩] [] (subtree_single _)
    (fun c hc => absurd hc List.not_mem_nil) .single (List.Perm.refl _)
  obtain rfl : ret = .eok := hret.trans (by decide)
  refine ⟨h,hrun,hh.length_eq.trans ?_⟩
  rw [List.append_nil, hlength]
  decide

end Flip.Memory
