import Flip.BusHops
import Flip.CrawlerMain
import Flip.WorkerStart

/-!
# From the root daemon to a crawler and back

The root daemon pastes the strings of a worker into a command line, the shell
starts the crawler with them, and the crawler asks for its configuration on
the bus that the root daemon reads meanwhile. Where the strings pass the shell
the name that comes back is the name that was given away.
-/

set_option autoImplicit false

namespace Flip.LaunchRoundTrip
open Flip.CLib Flip.Args Flip.Shell Flip.JsonText Flip.MsgText Flip.Nbus
open Flip.DaemonHandler Flip.CommonDaemon Flip.CrawlerMain Flip.WorkerStart
open Flip.BusHops (counted strndup_bytes)

/-- How the calls of a program end that was started as the crawler and takes
itself to the background: `argp` with the status it exits with, `fork`, and what
`become_daemon` does after it. -/
structure Crawler where
  main : Start
  usage : ℤ
  fork : Bool
  daemon : Bool

def daemonFrames (c : Crawler) (clock : Int64) (identityName rootIpc : Buf) : List (Buf × Buf) :=
  if c.daemon = false then []
  else
    match crawlerMain c.main clock (tallocStrndup identityName identityName.length) [] with
    | .ok result => result.2.map (fun frame => (rootIpc,frame))
    | .error _ => []

/-- The status that the shell sees, and the frames. From the `fork` on the
shell sees success. -/
def crawler (c : Crawler) (clock : Int64) (argv : List Buf) : ℤ × List (Buf × Buf) :=
  if c.main.initMainContext = false then (exitFailure,[])
  else
    match parseWorkerArgs .crawler argv with
    | .exits => (c.usage,[])
    | .returns .eok (some ⟨some identityName,_,some rootIpc⟩) =>
      if c.main.parseWorkerArgs = false then (exitFailure,[])
      else if c.fork = false then (exitFailure,[])
      else (exitSuccess,daemonFrames c clock identityName rootIpc)
    | .returns _ _ => (exitFailure,[])

/-- What the calls of the root daemon give, what `system` says to NULL, and the
attempt before which the frames arrive, if it is one of the thirty. -/
structure Root where
  tmpCtx : Bool
  chunk : Bool
  command : Bool
  shell : ℤ
  recv : ℕ → RecvOutcome
  arrival : ℕ

def Root.attempt (r : Root) (frames : Bus) : ℕ → Attempt :=
  fun i => ⟨if i = r.arrival then frames else [],r.recv i⟩

def Root.starting (r : Root) (status : ℤ) (frames : Bus) : StartOutcome :=
  ⟨r.tmpCtx,r.chunk,r.command,fun command => if command.isSome then status else r.shell,
    r.attempt frames⟩

/-- The root daemon starts the worker, while what the shell has started runs,
and reads the socket that it gave the worker. -/
def launch (fnmatch : Word → Buf → Bool) (env : Env) (c : Crawler) (clock : Int64) (r : Root)
    (wdCtx : WorkerDaemonCtx) (out : Option StringCtx) : Started :=
  let command := commandLine .asyncStartWorkerDaemon2 wdCtx.identityName wdCtx.pidFile
    wdCtx.urlRootIpc
  let runs := (system fnmatch env command).map (crawler c clock)
  let status := (runs.getLast?.map Prod.fst).getD 0
  let frames := (runs.flatMap Prod.snd).filter (·.1 = wdCtx.urlRootIpc.bytes)
  asyncStartWorkerDaemon2 (r.starting status (frames.map Prod.snd)) wdCtx [] out

/-- The root daemon gets as far as starting the worker. -/
structure Root.Starts (r : Root) : Prop where
  tmpCtx : r.tmpCtx = true
  chunk : r.chunk = true
  command : r.command = true

def Root.InTime (r : Root) : Prop := 1 ≤ r.arrival ∧ r.arrival ≤ 30

structure Forks (c : Crawler) : Prop where
  initMainContext : c.main.initMainContext = true
  parseWorkerArgs : c.main.parseWorkerArgs = true
  fork : c.fork = true

structure Sends (c : Crawler) : Prop where
  daemon : c.daemon = true
  nbusInitPair : c.main.nbusInitPair.isSome
  undetected : ¬Detected c.main.request
  supplied : Supplied c.main.request
  sent : c.main.request.sent = true

/-- No attempt fails, and a request that comes is copied. -/
def Hears (c : Crawler) (r : Root) : Prop :=
  ∀ i, 1 ≤ i → i ≤ 30 → (r.recv i).Polls ∧ (Sends c → i = r.arrival → (r.recv i).data = true)

def Asks (chunk : StringCtx) (identityName : CString) : Prop :=
  ∃ text, chunk.data = some text ∧
    field text.bytes (ascii "sender") = some (.str identityName.bytes) ∧
    field text.bytes (ascii "recepient") = some (.str (ascii "root")) ∧
    field text.bytes (ascii "message_type") = some (.num 0 0)

section Crawler

variable (c : Crawler) (clock : Int64) (identityName : CString)

theorem crawler_main_request (ctx : NbusCtx) (hinit : c.main.initMainContext = true)
    (hargs : c.main.parseWorkerArgs = true) (hbus : c.main.nbusInitPair = some ctx) :
    crawlerMain c.main clock identityName [] =
      (getConfigFromRootDaemon c.main.request clock (some ctx) identityName .crawler []).map
        (fun result => (finish c.main.shutdown (some ctx)
          (if result.1 ≠ .eok then exitFailure else exitSuccess),result.2)) := by
  have hinit' : ¬c.main.initMainContext = false := by simp [hinit]
  have hargs' : ¬c.main.parseWorkerArgs = false := by simp [hargs]
  rw [crawlerMain, if_neg hinit', if_neg hargs', hbus]

theorem daemon_frames_bus (rootIpc : Buf) (ctx : NbusCtx) (hd : c.daemon = true) (hf : Forks c)
    (hbus : c.main.nbusInitPair = some ctx) :
    (Sends c → daemonFrames c clock identityName.bytes rootIpc =
      [(rootIpc,(request clock identityName).text)]) ∧
    (¬Sends c → daemonFrames c clock identityName.bytes rootIpc = []) := by
  have hmain := crawler_main_request c clock identityName ctx hf.initMainContext
    hf.parseWorkerArgs hbus
  have hd' : ¬c.daemon = false := by simp [hd]
  rw [daemonFrames, if_neg hd', strndup_bytes, hmain]
  rcases request_cases c.main.request clock ctx identityName .crawler _ [] rfl with
    ⟨hdetected,ret,-,hret⟩ | ⟨-,hs,f,hfault⟩ | ⟨hundetected,hs,hsend⟩
  · rw [hret]
    exact ⟨fun h => absurd hdetected h.undetected,fun _ => rfl⟩
  · rw [hfault]
    exact ⟨fun h => absurd h.supplied hs,fun _ => rfl⟩
  · rw [hsend]
    cases hsent : c.main.request.sent with
    | true =>
      refine ⟨fun _ => rfl,fun h => absurd ?_ h⟩
      exact ⟨hd,by rw [hbus]; rfl,hundetected,hs,hsent⟩
    | false =>
      refine ⟨fun h => ?_,fun _ => rfl⟩
      have hsends := h.sent
      rw [hsent] at hsends
      cases hsends

theorem daemon_frames (rootIpc : Buf) (hf : Forks c) :
    (Sends c → daemonFrames c clock identityName.bytes rootIpc =
      [(rootIpc,(request clock identityName).text)]) ∧
    (¬Sends c → daemonFrames c clock identityName.bytes rootIpc = []) := by
  by_cases hd : c.daemon = true
  · cases hbus : c.main.nbusInitPair with
    | some ctx => exact daemon_frames_bus c clock identityName rootIpc ctx hd hf hbus
    | none =>
      refine ⟨fun h => ?_,fun _ => ?_⟩
      · have hsome := h.nbusInitPair
        rw [hbus] at hsome
        cases hsome
      · have hd' : ¬c.daemon = false := by simp [hd]
        have hinit : ¬c.main.initMainContext = false := by simp [hf.initMainContext]
        have hargs : ¬c.main.parseWorkerArgs = false := by simp [hf.parseWorkerArgs]
        rw [daemonFrames, if_neg hd', crawlerMain, if_neg hinit, if_neg hargs, hbus]
        rfl
  · exact ⟨fun h => absurd h.daemon hd,fun _ => if_pos (by simpa using hd)⟩

theorem crawler_cases (argv : List Buf) (pidFile rootIpc : Buf)
    (h : parseWorkerArgs .crawler argv =
      .returns .eok (some ⟨some identityName.bytes,some pidFile,some rootIpc⟩)) :
    (Forks c → crawler c clock argv =
      (exitSuccess,daemonFrames c clock identityName.bytes rootIpc)) ∧
    (¬Forks c → crawler c clock argv = (exitFailure,[])) := by
  simp only [crawler, h]
  cases hinit : c.main.initMainContext
  · exact ⟨fun hf => by simp [hf.initMainContext] at hinit,fun _ => by simp⟩
  cases hargs : c.main.parseWorkerArgs
  · exact ⟨fun hf => by simp [hf.parseWorkerArgs] at hargs,fun _ => by simp⟩
  cases hfork : c.fork
  · exact ⟨fun hf => by simp [hf.fork] at hfork,fun _ => by simp⟩
  exact ⟨fun _ => by simp,fun hf => absurd ⟨hinit,hargs,hfork⟩ hf⟩

end Crawler

section Waiting

variable (ctx : NbusCtx) (chunk : StringCtx) (taken : List Buf)

theorem recieve_silence (o : RecvOutcome) (h : o.Polls) :
    recieveOnce (some ctx) ⟨[],o⟩ ⟨chunk,[],taken⟩ = (.eagain,⟨chunk,[],taken⟩) := by
  simp [recieveOnce, recieve_polls o ctx [] h]

theorem recieve_text (o : RecvOutcome) (text : CString) (h : o.Polls) (hdata : o.data = true) :
    recieveOnce (some ctx) ⟨[text.bytes],o⟩ ⟨chunk,[],taken⟩ =
      (.eok,⟨counted text,[],taken++[text.bytes]⟩) := by
  simp [recieveOnce, recieve_polls o ctx [text.bytes] h, hdata, strndup_bytes, counted,
    tallocArrayLength]

theorem recieve_refused (o : RecvOutcome) (arrived : Bus) (h : ¬o.Polls) :
    received (recieveOnce (some ctx) ⟨arrived,o⟩ ⟨chunk,[],taken⟩) = .failed := by
  obtain ⟨ret,hok,hagain,hrecv⟩ := recieve_fails o ctx arrived h
  simp only [recieveOnce, List.nil_append, hrecv]
  exact received_error _ hok hagain

theorem recieve_uncopied (o : RecvOutcome) (frame : Buf) (h : o.Polls) (hdata : ¬o.data = true) :
    received (recieveOnce (some ctx) ⟨[frame],o⟩ ⟨chunk,[],taken⟩) = .failed := by
  have hdata' : o.data = false := by simpa using hdata
  simp only [recieveOnce, List.nil_append, recieve_polls o ctx [frame] h, if_pos hdata']
  rfl

variable (r : Root)

theorem outcomes_silence (frames : Bus) (n : ℕ)
    (hnone : ∀ i, 1 ≤ i → i ≤ n → frames = [] ∨ i ≠ r.arrival) :
    ((∀ i, 1 ≤ i → i ≤ n → (r.recv i).Polls) →
      outcomes (some ctx) (r.attempt frames) n ⟨chunk,[],taken⟩ = List.replicate n .again) ∧
    ((∃ i, 1 ≤ i ∧ i ≤ n ∧ ¬(r.recv i).Polls) →
      .failed ∈ outcomes (some ctx) (r.attempt frames) n ⟨chunk,[],taken⟩) := by
  induction n with
  | zero => exact ⟨fun _ => rfl,fun ⟨i,hi,hi',_⟩ => by omega⟩
  | succ n ih =>
    have harrived : r.attempt frames (n+1) = ⟨[],r.recv (n+1)⟩ := by
      rw [Root.attempt]
      split_ifs with hk
      · rw [(hnone (n+1) (by omega) le_rfl).resolve_right (fun h => h hk)]
      · rfl
    obtain ⟨hall,hsome⟩ := ih (fun i hi hi' => hnone i hi (by omega))
    rw [outcomes, harrived]
    constructor
    · intro hpolls
      rw [recieve_silence ctx chunk taken _ (hpolls (n+1) (by omega) le_rfl),
        hall (fun i hi hi' => hpolls i hi (by omega)), List.replicate_succ]
      rfl
    · rintro ⟨i,hi,hi',hfails⟩
      by_cases hpolls : (r.recv (n+1)).Polls
      · rw [recieve_silence ctx chunk taken _ hpolls]
        have hin : i ≠ n+1 := fun h => hfails (h ▸ hpolls)
        exact List.mem_cons_of_mem _ (hsome ⟨i,hi,by omega,hfails⟩)
      · rw [recieve_refused ctx chunk taken _ _ hpolls]
        exact List.mem_cons_self

theorem outcomes_text (text : CString) (n : ℕ) (hk : 1 ≤ r.arrival) (hn : r.arrival ≤ n) :
    ((∀ i, 1 ≤ i → i ≤ n → (r.recv i).Polls ∧ (i = r.arrival → (r.recv i).data = true)) →
      outcomes (some ctx) (r.attempt [text.bytes]) n ⟨chunk,[],taken⟩ =
        List.replicate (n-r.arrival) .again++
          .message (counted text)::List.replicate (r.arrival-1) .again) ∧
    ((∃ i, 1 ≤ i ∧ i ≤ n ∧ ¬((r.recv i).Polls ∧ (i = r.arrival → (r.recv i).data = true))) →
      .failed ∈ outcomes (some ctx) (r.attempt [text.bytes]) n ⟨chunk,[],taken⟩) := by
  induction n with
  | zero => omega
  | succ n ih =>
    rw [outcomes]
    by_cases hpolls : (r.recv (n+1)).Polls
    swap
    · refine ⟨fun hall => absurd (hall (n+1) (by omega) le_rfl).1 hpolls,fun _ => ?_⟩
      rw [Root.attempt, recieve_refused ctx chunk taken _ _ hpolls]
      exact List.mem_cons_self
    by_cases heq : n+1 = r.arrival
    · have harrived : r.attempt [text.bytes] (n+1) = ⟨[text.bytes],r.recv (n+1)⟩ := by
        rw [Root.attempt, if_pos heq]
      rw [harrived]
      obtain ⟨hall,hsome⟩ := outcomes_silence ctx (counted text) (taken++[text.bytes]) r
        [text.bytes] n (fun i hi hi' => .inr (by omega))
      by_cases hdata : (r.recv (n+1)).data = true
      · rw [recieve_text ctx chunk taken _ text hpolls hdata]
        constructor
        · intro hgood
          rw [hall (fun i hi hi' => (hgood i hi (by omega)).1), ← heq, Nat.sub_self,
            Nat.add_sub_cancel]
          rfl
        · rintro ⟨i,hi,hi',hbad⟩
          by_cases hin : i = n+1
          · exact absurd ⟨hin ▸ hpolls,fun _ => hin ▸ hdata⟩ hbad
          · have hfails : ¬(r.recv i).Polls := fun h => hbad ⟨h,fun ha => by omega⟩
            exact List.mem_cons_of_mem _ (hsome ⟨i,hi,by omega,hfails⟩)
      · rw [recieve_uncopied ctx chunk taken _ _ hpolls hdata]
        exact ⟨fun hgood => absurd ((hgood (n+1) (by omega) le_rfl).2 heq) hdata,
          fun _ => List.mem_cons_self⟩
    · have harrived : r.attempt [text.bytes] (n+1) = ⟨[],r.recv (n+1)⟩ := by
        rw [Root.attempt, if_neg heq]
      have hsucc : n+1-r.arrival = (n-r.arrival)+1 := by omega
      obtain ⟨hall,hsome⟩ := ih (by omega)
      rw [harrived, recieve_silence ctx chunk taken _ hpolls]
      constructor
      · intro hgood
        rw [hall (fun i hi hi' => hgood i hi (by omega)), hsucc, List.replicate_succ]
        rfl
      · rintro ⟨i,hi,hi',hbad⟩
        by_cases hin : i = n+1
        · exact absurd ⟨hin ▸ hpolls,fun ha => absurd (hin.symm.trans ha) heq⟩ hbad
        · exact List.mem_cons_of_mem _ (hsome ⟨i,hi,by omega,hbad⟩)

end Waiting

theorem replicate_again (n : ℕ) : ∀ o ∈ List.replicate n Received.again, o = .again :=
  fun _ ho => List.eq_of_mem_replicate ho

section Start

variable (wdCtx : WorkerDaemonCtx) (r : Root) (hr : r.Starts) (out : Option StringCtx)

include hr

theorem starting_status (status : ℤ) (frames : Bus) :
    (r.starting status frames).system (startCommand (r.starting status frames) wdCtx) =
      status := by
  simp [startCommand, Root.starting, hr.command]

theorem start_refused (status : ℤ) (frames : Bus) (h : status ≠ 0) :
    asyncStartWorkerDaemon2 (r.starting status frames) wdCtx [] out = ⟨.eio,out,[],[]⟩ := by
  have hstatus := starting_status wdCtx r hr status frames
  have hloop : waitLoop (r.starting status frames) wdCtx 30 ⟨.zero,[],[]⟩ =
      (.eio,⟨.zero,[],[]⟩) := by
    rw [waitLoop, if_pos ⟨rfl,hstatus.symm ▸ h⟩]
  have htmp : ¬(r.starting status frames).tmpCtx = false := by simp [Root.starting, hr.tmpCtx]
  have hchunk : ¬(r.starting status frames).chunk = false := by simp [Root.starting, hr.chunk]
  rw [asyncStartWorkerDaemon2, if_neg htmp, if_neg hchunk, hloop]
  rfl

theorem start_launched (frames : Bus) : Launched (r.starting 0 frames) wdCtx :=
  ⟨hr.tmpCtx,hr.chunk,starting_status wdCtx r hr 0 frames⟩

theorem start_deaf (frames : Bus) (h : .failed ∈ attempted (r.starting 0 frames) wdCtx []) :
    (asyncStartWorkerDaemon2 (r.starting 0 frames) wdCtx [] out).ret = .eio ∧
    (asyncStartWorkerDaemon2 (r.starting 0 frames) wdCtx [] out).out = out :=
  start_failed (start_launched wdCtx r hr frames) [] out h

theorem start_silence (frames : Bus)
    (h : attempted (r.starting 0 frames) wdCtx [] = List.replicate 30 .again) :
    (asyncStartWorkerDaemon2 (r.starting 0 frames) wdCtx [] out).ret = .eok ∧
    (asyncStartWorkerDaemon2 (r.starting 0 frames) wdCtx [] out).out = some .zero := by
  obtain ⟨hret,hout,-⟩ := start_answered (start_launched wdCtx r hr frames) [] out (by rw [h]; simp)
  rw [h, messages_again _ (replicate_again 30)] at hout
  exact ⟨hret,hout⟩

theorem start_text (frames : Bus) (chunk : StringCtx) (m n : ℕ)
    (h : attempted (r.starting 0 frames) wdCtx [] =
      List.replicate m .again++.message chunk::List.replicate n .again) :
    (asyncStartWorkerDaemon2 (r.starting 0 frames) wdCtx [] out).ret = .eok ∧
    (asyncStartWorkerDaemon2 (r.starting 0 frames) wdCtx [] out).out = some chunk := by
  obtain ⟨hret,hout,-⟩ := start_answered (start_launched wdCtx r hr frames) [] out (by rw [h]; simp)
  rw [h, messages_first _ _ _ (replicate_again m), messages_again _ (replicate_again n)] at hout
  exact ⟨hret,hout⟩

variable (ctx : NbusCtx) (hctx : wdCtx.nbusCtx = some ctx)

include hctx

theorem start_unanswered (frames : Bus)
    (hnone : ∀ i, 1 ≤ i → i ≤ 30 → frames = [] ∨ i ≠ r.arrival) :
    ((∃ i, 1 ≤ i ∧ i ≤ 30 ∧ ¬(r.recv i).Polls) →
      (asyncStartWorkerDaemon2 (r.starting 0 frames) wdCtx [] out).ret = .eio ∧
      (asyncStartWorkerDaemon2 (r.starting 0 frames) wdCtx [] out).out = out) ∧
    ((∀ i, 1 ≤ i → i ≤ 30 → (r.recv i).Polls) →
      (asyncStartWorkerDaemon2 (r.starting 0 frames) wdCtx [] out).ret = .eok ∧
      (asyncStartWorkerDaemon2 (r.starting 0 frames) wdCtx [] out).out = some .zero) := by
  obtain ⟨hall,hsome⟩ := outcomes_silence ctx .zero [] r frames 30 hnone
  rw [← hctx] at hall hsome
  exact ⟨fun h => start_deaf wdCtx r hr out frames (hsome h),
    fun h => start_silence wdCtx r hr out frames (hall h)⟩

theorem start_answered_once (text : CString) (hin : r.InTime) :
    ((∃ i, 1 ≤ i ∧ i ≤ 30 ∧ ¬((r.recv i).Polls ∧ (i = r.arrival → (r.recv i).data = true))) →
      (asyncStartWorkerDaemon2 (r.starting 0 [text.bytes]) wdCtx [] out).ret = .eio ∧
      (asyncStartWorkerDaemon2 (r.starting 0 [text.bytes]) wdCtx [] out).out = out) ∧
    ((∀ i, 1 ≤ i → i ≤ 30 → (r.recv i).Polls ∧ (i = r.arrival → (r.recv i).data = true)) →
      (asyncStartWorkerDaemon2 (r.starting 0 [text.bytes]) wdCtx [] out).ret = .eok ∧
      (asyncStartWorkerDaemon2 (r.starting 0 [text.bytes]) wdCtx [] out).out =
        some (counted text)) := by
  obtain ⟨hall,hsome⟩ := outcomes_text ctx .zero [] r text 30 hin.1 hin.2
  rw [← hctx] at hall hsome
  exact ⟨fun h => start_deaf wdCtx r hr out _ (hsome h),
    fun h => start_text wdCtx r hr out _ _ _ _ (hall h)⟩

end Start

theorem passed_command (fnmatch : Word → Buf → Bool) (env : Env) (l : Launcher)
    (identityName pidFile rootIpc : CString)
    (hne : ∀ s ∈ [identityName,pidFile,rootIpc], s.bytes ≠ [])
    (hpass : ∀ s ∈ [identityName,pidFile,rootIpc], Passes fnmatch s) :
    ∃ argv, system fnmatch env (commandLine l identityName pidFile rootIpc) = [argv] ∧
      parseWorkerArgs .crawler argv = .returns .eok
        (some ⟨some identityName.bytes,some pidFile.bytes,some rootIpc.bytes⟩) := by
  have hfield : ∀ s ∈ [identityName,pidFile,rootIpc],
      fields fnmatch env (plainWord s.bytes) = [s.bytes] :=
    fun s hs => literal_fields fnmatch env s.bytes (hpass s hs).2.1
  refine ⟨_,launch_fields fnmatch l _ _ _ env _ _ _ hne (fun s hs => (hpass s hs).1)
    (hfield _ (by simp)) (hfield _ (by simp)) (hfield _ (by simp)),?_⟩
  rw [worker_args_iff]
  refine ⟨⟨rfl,rfl,rfl⟩,?_⟩
  simp only [List.mem_cons, List.not_mem_nil, or_false, forall_eq_or_imp, forall_eq] at hpass ⊢
  exact ⟨hpass.1.2.2,hpass.2.1.2.2,hpass.2.2.2.2⟩

/-- The root daemon learns of every failure before the `fork` and of none
after it: then it fails only by itself, and otherwise has the request, under
the name it gave the crawler, if that came in time, or a chunk without data. -/
theorem launch_round_trip (fnmatch : Word → Buf → Bool) (env : Env) (c : Crawler) (clock : Int64)
    (r : Root) (wdCtx : WorkerDaemonCtx) (ctx : NbusCtx) (out : Option StringCtx)
    (hr : r.Starts) (hctx : wdCtx.nbusCtx = some ctx)
    (hne : ∀ s ∈ [wdCtx.identityName,wdCtx.pidFile,wdCtx.urlRootIpc], s.bytes ≠ [])
    (hpass : ∀ s ∈ [wdCtx.identityName,wdCtx.pidFile,wdCtx.urlRootIpc], Passes fnmatch s)
    (hname : Clean wdCtx.identityName) :
    (¬Forks c → launch fnmatch env c clock r wdCtx out = ⟨.eio,out,[],[]⟩) ∧
    (Forks c →
      (¬Hears c r → (launch fnmatch env c clock r wdCtx out).ret = .eio ∧
        (launch fnmatch env c clock r wdCtx out).out = out) ∧
      (Hears c r → (launch fnmatch env c clock r wdCtx out).ret = .eok ∧
        ∃ chunk, (launch fnmatch env c clock r wdCtx out).out = some chunk ∧
          (Sends c ∧ r.InTime → Asks chunk wdCtx.identityName) ∧
          (¬(Sends c ∧ r.InTime) → chunk = .zero))) := by
  obtain ⟨argv,hsystem,hparse⟩ := passed_command fnmatch env .asyncStartWorkerDaemon2 _ _ _ hne
    hpass
  obtain ⟨hforks,hnot⟩ := crawler_cases c clock wdCtx.identityName argv _ _ hparse
  simp only [launch, hsystem, List.map_cons, List.map_nil]
  constructor
  · intro hf
    rw [hnot hf]
    exact start_refused wdCtx r hr out exitFailure [] (by decide)
  · intro hf
    rw [hforks hf]
    obtain ⟨hsends,hsilent⟩ := daemon_frames c clock wdCtx.identityName wdCtx.urlRootIpc.bytes hf
    have hdeaf : ¬Hears c r → ∃ i, 1 ≤ i ∧ i ≤ 30 ∧
        ¬((r.recv i).Polls ∧ (Sends c → i = r.arrival → (r.recv i).data = true)) := by
      simp only [Hears, not_forall]
      exact fun ⟨i,hi,hi',h⟩ => ⟨i,hi,hi',h⟩
    by_cases hcomes : Sends c ∧ r.InTime
    · obtain ⟨hs,hin⟩ := hcomes
      rw [hsends hs]
      have hframes : (([(exitSuccess,[(wdCtx.urlRootIpc.bytes,
          (request clock wdCtx.identityName).text)])].flatMap Prod.snd).filter
            (·.1 = wdCtx.urlRootIpc.bytes)).map Prod.snd =
          [(request clock wdCtx.identityName).cstring.bytes] := by simp [Message.cstring]
      obtain ⟨hfails,hanswers⟩ := start_answered_once wdCtx r hr out ctx hctx
        (request clock wdCtx.identityName).cstring hin
      rw [hframes]
      constructor
      · intro h
        obtain ⟨i,hi,hi',hbad⟩ := hdeaf h
        exact hfails ⟨i,hi,hi',fun hgood => hbad ⟨hgood.1,fun _ => hgood.2⟩⟩
      · intro h
        obtain ⟨hret,hout⟩ := hanswers (fun i hi hi' => ⟨(h i hi hi').1,(h i hi hi').2 hs⟩)
        exact ⟨hret,_,hout,fun _ => ⟨_,rfl,request_field clock wdCtx.identityName hname⟩,
          fun hno => absurd ⟨hs,hin⟩ hno⟩
    · have hnone : ∀ i, 1 ≤ i → i ≤ 30 →
          (([(exitSuccess,daemonFrames c clock wdCtx.identityName.bytes
            wdCtx.urlRootIpc.bytes)].flatMap Prod.snd).filter
              (·.1 = wdCtx.urlRootIpc.bytes)).map Prod.snd = [] ∨ i ≠ r.arrival := by
        intro i hi hi'
        by_cases hs : Sends c
        · exact .inr (fun hk => hcomes ⟨hs,hk ▸ hi,hk ▸ hi'⟩)
        · exact .inl (by simp [hsilent hs])
      obtain ⟨hfails,hsilence⟩ := start_unanswered wdCtx r hr out ctx hctx _ hnone
      constructor
      · intro h
        obtain ⟨i,hi,hi',hbad⟩ := hdeaf h
        refine hfails ⟨i,hi,hi',fun hpolls => hbad ⟨hpolls,fun hs hk => ?_⟩⟩
        exact absurd ⟨hs,hk ▸ hi,hk ▸ hi'⟩ hcomes
      · intro h
        obtain ⟨hret,hout⟩ := hsilence (fun i hi hi' => (h i hi hi').1)
        exact ⟨hret,.zero,hout,fun hno => absurd hno hcomes,fun _ => rfl⟩

def alphaWorker : WorkerDaemonCtx := ⟨alpha,alphaPid,alphaIpc,some ⟨0,0⟩⟩

def goodCrawler : Crawler := ⟨⟨true,true,some ⟨1,1⟩,.good,true⟩,64,true,true⟩

def goodRoot : Root := ⟨true,true,true,1,fun _ => .good,3⟩

theorem alpha_round_trip :
    ∃ chunk, (launch sameName .quiet goodCrawler 0 goodRoot alphaWorker none).ret = .eok ∧
      (launch sameName .quiet goodCrawler 0 goodRoot alphaWorker none).out = some chunk ∧
      Asks chunk alpha := by
  have hforks : Forks goodCrawler := ⟨rfl,rfl,rfl⟩
  have hsends : Sends goodCrawler := ⟨rfl,rfl,by simp [Detected, goodCrawler, Outcome.good],
    ⟨rfl,rfl,rfl,rfl⟩,rfl⟩
  have hhears : Hears goodCrawler goodRoot := fun _ _ _ => ⟨⟨rfl,rfl,rfl⟩,fun _ _ => rfl⟩
  have hpass : ∀ s ∈ [alpha,alphaPid,alphaIpc], Passes sameName s := by
    simp only [List.mem_cons, List.not_mem_nil, or_false, forall_eq_or_imp, forall_eq]
    exact ⟨passes_plain alpha (by decide) (by decide) (by decide),
      passes_plain alphaPid (by decide) (by decide) (by decide),
      passes_plain alphaIpc (by decide) (by decide) (by decide)⟩
  obtain ⟨hret,chunk,hout,hasks,-⟩ := ((launch_round_trip sameName .quiet goodCrawler 0 goodRoot
    alphaWorker ⟨0,0⟩ none ⟨rfl,rfl,rfl⟩ rfl (by decide) hpass ⟨by decide,by decide⟩).2
      hforks).2 hhears
  exact ⟨chunk,hret,hout,hasks ⟨hsends,by decide,by decide⟩⟩

end Flip.LaunchRoundTrip
