import Flip.Args
import Flip.CrawlerMain
import Flip.MemoryRequests

/-!
# How the daemons end

The `main` of a daemon makes its context below the event context, reads its
settings, leaves its parent, opens its bus, works and cleans up. Everything it
allocates is below its context, and once the bus is open the exit status is
that of the last close, whatever became of the work.
-/

set_option autoImplicit false

namespace Flip.Memory
open Flip.CLib Flip.Talloc Flip.Nbus
open Flip.CrawlerMain (exitSuccess exitFailure)

/-- The outcomes of the calls in every `main`. `usage` is the status of an exit
inside `argp`, and `becomeDaemon` that of an exit inside `become_daemon`. -/
structure MainOutcome where
  eventCtx : Bool
  mainCtx : Bool
  usage : ℤ
  becomeDaemon : Option ℤ
  nbusInitPair : SocketCount.InitOutcome
  nbusCtx : NbusCtx
  shutdown : Bool

structure Strings where
  identityName : Option CString
  pidFile : CString
  url : CString

inductive Settings where
  | usage
  | failed
  | ready (s : Strings)

inductive Daemon where
  | flipd (argv : List Buf) (args tmpCtx ctx : Bool) (files : Option Buf → Conf.IniFile)
    (listen : AsyncRequests.ListenOutcome) (loop : Bool)
  | crawler (argv : List Buf) (args : Bool) (request : CommonDaemon.Outcome) (clock : Int64)
  | collector (argv : List Buf) (args : Bool)

def cstring (arg : Buf) : CString := tallocStrndup arg arg.length

def workerSettings (daemonType : DaemonType) (argv : List Buf) (args : Bool) :
    Except Fault Settings :=
  match Args.parseWorkerArgs daemonType argv with
  | .exits => .ok .usage
  | .returns ret parsed =>
    if ret ≠ .eok then .ok .failed
    else
      match args, parsed with
      | true, some ⟨some identityName,some pidFile,some rootIpc⟩ =>
        .ok (.ready ⟨some (cstring identityName),cstring pidFile,cstring rootIpc⟩)
      | _, _ => .error .nullDeref

def flipdSettings (argv : List Buf) (args tmpCtx ctx : Bool)
    (files : Option Buf → Conf.IniFile) : Except Fault Settings :=
  match Args.parseFlipdArgs argv with
  | .exits => .ok .usage
  | .returns ret parsed =>
    if ret ≠ .eok then .ok .failed
    else
      match args, parsed with
      | true, some ⟨configFile⟩ =>
        match Conf.parseFlipdConfig tmpCtx ctx (files configFile) with
        | (.eok,some ⟨_,some pidFile,some ioSocket⟩) => .ok (.ready ⟨none,pidFile,ioSocket⟩)
        | (.eok,_) => .error .nullDeref
        | _ => .ok .failed
      | _, _ => .error .nullDeref

def Daemon.settings : Daemon → Except Fault Settings
  | .flipd argv args tmpCtx ctx files _ _ => flipdSettings argv args tmpCtx ctx files
  | .crawler argv args _ _ => workerSettings .crawler argv args
  | .collector argv args => workerSettings .collector argv args

def initMainContext (o : MainOutcome) (autofree : ℕ) : Mem (Errno × Option ℕ) :=
  if o.eventCtx = false then pure (.enomem,none)
  else do
    let eventCtx ← talloc (some autofree)
    if o.mainCtx = false then pure (.enomem,none)
    else do
      let mainCtx ← talloc (some eventCtx)
      pure (.eok,some mainCtx)

/-- The structure with the arguments is a copy below the context, and not
checked before it is used. -/
def workerPrepare (daemonType : DaemonType) (argv : List Buf) (args : Bool) (mainCtx : ℕ) :
    Mem Settings :=
  match Args.parseWorkerArgs daemonType argv with
  | .exits => pure .usage
  | .returns ret _ =>
    if ret ≠ .eok then pure .failed
    else do
      let _ ← tryTalloc args mainCtx
      match workerSettings daemonType argv args with
      | .ok settings => pure settings
      | .error _ => failure

def flipdPrepare (argv : List Buf) (args tmpCtx ctx : Bool) (files : Option Buf → Conf.IniFile)
    (mainCtx : ℕ) : Mem Settings :=
  match Args.parseFlipdArgs argv with
  | .exits => pure .usage
  | .returns ret parsed =>
    if ret ≠ .eok then pure .failed
    else do
      let args' ← tryTalloc args mainCtx
      match args', parsed with
      | some _, some ⟨configFile⟩ => do
        let (_,_) ← parseFlipdConfig tmpCtx ctx (files configFile) (some mainCtx)
        match flipdSettings argv args tmpCtx ctx files with
        | .ok settings => pure settings
        | .error _ => failure
      | _, _ => failure

def Daemon.prepare (mainCtx : ℕ) : Daemon → Mem Settings
  | .flipd argv args tmpCtx ctx files _ _ => flipdPrepare argv args tmpCtx ctx files mainCtx
  | .crawler argv args _ _ => workerPrepare .crawler argv args mainCtx
  | .collector argv args => workerPrepare .collector argv args mainCtx

def Daemon.work (o : MainOutcome) (s : Strings) (mainCtx : ℕ) : Daemon → Mem ℤ
  | .flipd _ _ _ _ _ listen loop => do
    let (_,fdEvent) ← asyncListen listen mainCtx
    listenLoop loop fdEvent
    pure exitSuccess
  | .crawler _ _ request clock =>
    match s.identityName with
    | none => failure
    | some identityName => do
      let (ret,_) ← getConfigFromRootDaemon request clock (some o.nbusCtx) identityName .crawler
      pure (if ret ≠ .eok then exitFailure else exitSuccess)
  | .collector _ _ => pure exitSuccess

/-- What hangs on the automatic context is freed at the exit. -/
def exitProgram (autofree : ℕ) (ret : ℤ) : Mem ℤ := do
  tallocFree autofree
  pure ret

def closeBus (shutdown : Bool) (nbusCtx : Option ℕ) (ret : ℤ) : Mem ℤ :=
  match nbusCtx with
  | none => pure ret
  | some p => do
    let ret ← nbusClose shutdown (some p)
    pure (if ret ≠ .eok then exitFailure else ret.code)

def finishMain (shutdown : Bool) (nbusCtx mainCtx : Option ℕ) (autofree : ℕ) (ret : ℤ) :
    Mem ℤ := do
  let ret ← closeBus shutdown nbusCtx ret
  match mainCtx with
  | none => exitProgram autofree ret
  | some p => do
    tallocFree p
    exitProgram autofree ret

def Daemon.main (d : Daemon) (o : MainOutcome) (autofree : ℕ) : Mem ℤ := do
  let (_,mainCtx) ← initMainContext o autofree
  match mainCtx with
  | none => finishMain o.shutdown none none autofree exitFailure
  | some m => do
    let settings ← d.prepare m
    match settings with
    | .usage => exitProgram autofree o.usage
    | .failed => finishMain o.shutdown none (some m) autofree exitFailure
    | .ready s =>
      match o.becomeDaemon with
      | some status => exitProgram autofree status
      | none => do
        let (ret,nbusCtx) ← nbusInitPubsub o.nbusInitPair s.url .bus (some m)
        if ret ≠ .eok then finishMain o.shutdown none (some m) autofree exitFailure
        else do
          let ret ← d.work o s m
          finishMain o.shutdown nbusCtx (some m) autofree ret

def status (o : MainOutcome) (settings : Settings) : ℤ :=
  if o.eventCtx = false ∨ o.mainCtx = false then exitFailure
  else
    match settings with
    | .usage => o.usage
    | .failed => exitFailure
    | .ready s =>
      match o.becomeDaemon with
      | some status => status
      | none =>
        match SocketCount.nbusInitPair o.nbusInitPair s.url SocketCount.start with
        | .ok (.eok,_) => if o.shutdown then exitSuccess else exitFailure
        | _ => exitFailure

def Daemon.Works (o : MainOutcome) (s : Strings) : Daemon → Prop
  | .flipd _ _ _ _ _ listen _ => listen.req = true
  | .crawler _ _ request clock => ∀ identityName, s.identityName = some identityName →
    ∃ result, CommonDaemon.getConfigFromRootDaemon request clock (some o.nbusCtx) identityName
      .crawler [] = .ok result
  | .collector _ _ => True

section Parts

variable (root : Chunk)

theorem worker_prepare_grows (daemonType : DaemonType) (argv : List Buf) (args : Bool)
    (settings : Settings) (h : workerSettings daemonType argv args = .ok settings) :
    Grows root (workerPrepare daemonType argv args root.id) (· = settings) := by
  rw [workerPrepare]
  cases hparse : Args.parseWorkerArgs daemonType argv with
  | exits =>
    rw [workerSettings, hparse] at h
    cases h
    exact grows_pure _ _ _ rfl
  | returns ret parsed =>
    dsimp only
    by_cases hret : ret ≠ .eok
    · rw [workerSettings, hparse] at h
      simp only [if_pos hret] at h
      cases h
      rw [if_pos hret]
      exact grows_pure _ _ _ rfl
    · rw [if_neg hret, h]
      exact grows_bind _ _ _ _ _ (grows_try_talloc root args) (fun _ _ => grows_pure _ _ _ rfl)

theorem flipd_prepare_grows (argv : List Buf) (args tmpCtx ctx : Bool)
    (files : Option Buf → Conf.IniFile) (settings : Settings)
    (h : flipdSettings argv args tmpCtx ctx files = .ok settings) :
    Grows root (flipdPrepare argv args tmpCtx ctx files root.id) (· = settings) := by
  rw [flipdPrepare]
  cases hparse : Args.parseFlipdArgs argv with
  | exits =>
    rw [flipdSettings, hparse] at h
    cases h
    exact grows_pure _ _ _ rfl
  | returns ret parsed =>
    dsimp only
    by_cases hret : ret ≠ .eok
    · rw [flipdSettings, hparse] at h
      simp only [if_pos hret] at h
      cases h
      rw [if_pos hret]
      exact grows_pure _ _ _ rfl
    · rw [if_neg hret, h]
      have hgiven : args = true ∧ ∃ configFile, parsed = some ⟨configFile⟩ := by
        rw [flipdSettings, hparse] at h
        simp only [if_neg hret] at h
        cases args with
        | false => cases h
        | true =>
          cases parsed with
          | none => cases h
          | some a => exact ⟨rfl,a.configFile,rfl⟩
      obtain ⟨rfl,configFile,rfl⟩ := hgiven
      apply grows_bind _ _ _ _ _ (grows_try_talloc root true)
      intro p hp
      obtain ⟨p,rfl⟩ := Option.isSome_iff_exists.mp hp
      have hconfig := grows_tidy root (fun r => r.1 = (Conf.parseFlipdConfig tmpCtx ctx
        (files configFile)).1) (parseFlipdConfig tmpCtx ctx (files configFile) (some root.id))
        Prod.snd (fun cs hlive => parse_config_tidy cs (some root.id) hlive tmpCtx ctx _)
      exact grows_bind _ _ _ _ _ hconfig (fun _ _ => grows_pure _ _ _ rfl)

theorem prepare_grows (d : Daemon) (settings : Settings) (h : d.settings = .ok settings) :
    Grows root (d.prepare root.id) (· = settings) := by
  cases d with
  | flipd argv args tmpCtx ctx files listen loop =>
    exact flipd_prepare_grows root argv args tmpCtx ctx files settings h
  | crawler argv args request clock => exact worker_prepare_grows root .crawler argv args settings h
  | collector argv args => exact worker_prepare_grows root .collector argv args settings h

theorem worker_settings_name (daemonType : DaemonType) (argv : List Buf) (args : Bool)
    (s : Strings) (h : workerSettings daemonType argv args = .ok (.ready s)) :
    ∃ identityName, s.identityName = some identityName := by
  rw [workerSettings] at h
  cases hparse : Args.parseWorkerArgs daemonType argv with
  | exits =>
    rw [hparse] at h
    cases h
  | returns ret parsed =>
    rw [hparse] at h
    dsimp only at h
    split_ifs at h
    · cases h
    · split at h
      · cases h
        exact ⟨_,rfl⟩
      · cases h

theorem work_grows (d : Daemon) (o : MainOutcome) (s : Strings)
    (hs : d.settings = .ok (.ready s)) (h : d.Works o s) :
    Grows root (d.work o s root.id) (fun _ => True) := by
  cases d with
  | flipd argv args tmpCtx ctx files listen loop =>
    have hlisten := grows_bind root _ (fun _ => True) _ (fun _ : Unit => pure exitSuccess)
      (listen_grows root listen loop h)
      (fun _ _ => grows_pure root (fun _ => True) exitSuccess trivial)
    simpa only [Daemon.work, bind_assoc] using hlisten
  | crawler argv args request clock =>
    obtain ⟨identityName,hname⟩ := worker_settings_name .crawler argv args s hs
    obtain ⟨⟨ret,bus⟩,hresult⟩ := h identityName hname
    rw [Daemon.work, hname]
    have hrequest := grows_tidy root (fun _ => True)
      (getConfigFromRootDaemon request clock (some o.nbusCtx) identityName .crawler) Prod.snd
    apply grows_bind _ _ _ _ _ (hrequest ?_) (fun _ _ => grows_pure _ _ _ trivial)
    intro cs _
    apply triple_mono _ _ _ _ _ (get_config_restores cs request clock (some o.nbusCtx)
      identityName .crawler [] bus ret hresult) (fun _ hh => hh)
    intro r h hr
    refine ⟨trivial,?_⟩
    rw [hr.1.2]
    have hkept := hr.2
    rw [hr.1.2] at hkept
    exact hkept
  | collector argv args => exact grows_pure _ _ _ trivial

end Parts

section Ends

variable (autofree : ℕ) (rest : List Chunk) (hrest : SelfOwned rest)

include hrest

theorem exit_ends (ds : List Chunk) (hs : Subtree ⟨autofree,none⟩ ds) (ret : ℤ) :
    Triple (Has (ds++rest)) (exitProgram autofree ret) (fun r h => r = ret ∧ Has rest h) :=
  triple_free_made none rest ds autofree _ _ hs hrest
    (triple_pure _ _ _ (fun _ hh => ⟨rfl,hh⟩))

theorem self_owned_base (e : ℕ) : SelfOwned (⟨e,some autofree⟩::⟨autofree,none⟩::rest) :=
  self_owned_cons _ _ (live_cons rest autofree none)
    (self_owned_cons _ _ (fun q hq => by cases hq) hrest)

theorem finish_ends (shutdown : Bool) (e m : ℕ) (ms : List Chunk) (hs : Subtree ⟨m,some e⟩ ms)
    (ret : ℤ) :
    Triple (Has (ms++(⟨e,some autofree⟩::⟨autofree,none⟩::rest)))
      (finishMain shutdown none (some m) autofree ret) (fun r h => r = ret ∧ Has rest h) := by
  have htree : Subtree ⟨autofree,none⟩ [⟨e,some autofree⟩,⟨autofree,none⟩] :=
    subtree_cons _ _ _ autofree (by simp [ids]) rfl (subtree_single _)
  have hexit := exit_ends autofree rest hrest _ htree ret
  exact triple_free_made (some e) _ ms m (fun _ => exitProgram autofree ret) _ hs
    (self_owned_base autofree rest hrest e) hexit

theorem finish_open_ends (shutdown : Bool) (e m p : ℕ) (ms new : List Chunk)
    (hs : Subtree ⟨m,some e⟩ ms) (hnew : Subtree ⟨p,some m⟩ new) (ret : ℤ) :
    Triple (Has (new++(ms++(⟨e,some autofree⟩::⟨autofree,none⟩::rest))))
      (finishMain shutdown (some p) (some m) autofree ret)
      (fun r h => r = (if shutdown then exitSuccess else exitFailure) ∧ Has rest h) := by
  cases shutdown with
  | true =>
    have hbelow := self_owned_subtree _ ms m (some e) hs (live_cons _ e _)
      (self_owned_base autofree rest hrest e)
    rw [finishMain, closeBus]
    simp only [nbusClose, if_true, bind_assoc, pure_bind]
    exact triple_free_made (some m) _ new p _ _ hnew hbelow
      (finish_ends autofree rest hrest true e m ms hs exitSuccess)
  | false =>
    have hall := subtree_append _ new ms p m hnew (subtree_mem _ ms hs) hs
    apply triple_perm _ _ _ _ (by rw [← List.append_assoc])
    exact finish_ends autofree rest hrest false e m _ hall exitFailure

theorem opened_ends (d : Daemon) (o : MainOutcome) (s : Strings) (ret : Errno)
    (opened : SocketCount.Process) (hsettings : d.settings = .ok (.ready s))
    (hopened : SocketCount.nbusInitPair o.nbusInitPair s.url SocketCount.start =
      .ok (ret,opened))
    (hwork : d.Works o s) (e m : ℕ) (ms : List Chunk) (hs : Subtree ⟨m,some e⟩ ms) :
    Triple (Has (ms++(⟨e,some autofree⟩::⟨autofree,none⟩::rest)))
      (do
        let (ret,nbusCtx) ← nbusInitPubsub o.nbusInitPair s.url .bus (some m)
        if ret ≠ .eok then finishMain o.shutdown none (some m) autofree exitFailure
        else do
          let ret ← d.work o s m
          finishMain o.shutdown nbusCtx (some m) autofree ret)
      (fun r h => r = (if ret = .eok then if o.shutdown then exitSuccess else exitFailure
        else exitFailure) ∧ Has rest h) := by
  have hin := subtree_mem _ ms hs
  have hlive : Live (some m) (ms++(⟨e,some autofree⟩::⟨autofree,none⟩::rest)) :=
    live_left _ ms _ (live_some m ms hin)
  apply triple_bind _ _ _ _ _ (init_pubsub_tidy _ (some m) hlive o.nbusInitPair s.url .bus
    SocketCount.start opened ret hopened)
  intro r h hr
  obtain ⟨ret',nbusCtx⟩ := r
  obtain ⟨⟨hret,hsome⟩,htidy⟩ := hr
  obtain rfl : ret' = ret := hret
  dsimp only
  by_cases hok : ret' = .eok
  · rw [if_pos hok, if_neg (not_not.mpr hok)]
    obtain ⟨p,rfl⟩ := Option.isSome_iff_exists.mp (hsome hok)
    obtain ⟨new,hnew,hh⟩ := htidy
    have hwork' := work_grows ⟨m,some e⟩ d o s hsettings hwork ms
      (new++(⟨e,some autofree⟩::⟨autofree,none⟩::rest)) hs
    refine triple_bind _ _ _ _ _ hwork' ?_ h (hh.trans (List.perm_append_comm_assoc _ _ _))
    intro ret h hr
    obtain ⟨-,ms',hs',-,hh⟩ := hr
    exact finish_open_ends autofree rest hrest o.shutdown e m p ms' new hs' hnew ret h
      (hh.trans (List.perm_append_comm_assoc _ _ _))
  · rw [if_neg hok, if_pos hok]
    obtain ⟨ms',hs',-,hh⟩ := tidy_below _ ms [] ⟨m,some e⟩ m nbusCtx h hin hs htidy
    exact finish_ends autofree rest hrest o.shutdown e m ms' hs' exitFailure h hh

/-- Whatever goes wrong, a daemon ends with the status that its settings, the
opening of the bus and its close give, and nothing is left of its memory. -/
theorem daemon_ends (d : Daemon) (o : MainOutcome) (settings : Settings)
    (hsettings : d.settings = .ok settings)
    (hbus : ∀ s, settings = .ready s → ∃ result,
      SocketCount.nbusInitPair o.nbusInitPair s.url SocketCount.start = .ok result)
    (hwork : ∀ s, settings = .ready s → d.Works o s) :
    Triple (Has (⟨autofree,none⟩::rest)) (d.main o autofree)
      (fun r h => r = status o settings ∧ Has rest h) := by
  have hsingle := subtree_single ⟨autofree,none⟩
  rw [Daemon.main, initMainContext]
  by_cases hevent : o.eventCtx = false
  · rw [if_pos hevent, pure_bind, show status o settings = exitFailure from if_pos (.inl hevent)]
    exact exit_ends autofree rest hrest [⟨autofree,none⟩] hsingle exitFailure
  rw [if_neg hevent, bind_assoc]
  apply triple_talloc _ _ _ _ (live_cons rest autofree none)
  intro e _
  have hbase : Subtree ⟨autofree,none⟩ [⟨e,some autofree⟩,⟨autofree,none⟩] :=
    subtree_cons _ _ _ autofree (by simp [ids]) rfl hsingle
  by_cases hmain : o.mainCtx = false
  · rw [if_pos hmain, pure_bind, show status o settings = exitFailure from if_pos (.inr hmain)]
    exact exit_ends autofree rest hrest _ hbase exitFailure
  have hcreated : ¬(o.eventCtx = false ∨ o.mainCtx = false) := by simp [hevent, hmain]
  rw [if_neg hmain, bind_assoc]
  apply triple_talloc _ _ _ _ (live_cons _ e _)
  intro m _
  rw [pure_bind]
  have hprepare := prepare_grows ⟨m,some e⟩ d settings hsettings [⟨m,some e⟩]
    (⟨e,some autofree⟩::⟨autofree,none⟩::rest) (subtree_single _)
  apply triple_bind _ _ _ _ _ hprepare
  intro settings' h hr
  obtain ⟨rfl,ms,hs,-,hh⟩ := hr
  have hall := subtree_append ⟨autofree,none⟩ ms _ m e hs (by simp [ids]) hbase
  have hexit : ∀ ret, Triple (Has (ms++(⟨e,some autofree⟩::⟨autofree,none⟩::rest)))
      (exitProgram autofree ret) (fun r h => r = ret ∧ Has rest h) := by
    intro ret
    have hends := exit_ends autofree rest hrest _ hall ret
    rwa [List.append_assoc] at hends
  cases settings' with
  | usage =>
    rw [show status o .usage = o.usage from if_neg hcreated]
    exact hexit o.usage h hh
  | failed =>
    rw [show status o .failed = exitFailure from if_neg hcreated]
    exact finish_ends autofree rest hrest o.shutdown e m ms hs exitFailure h hh
  | ready s =>
    obtain ⟨⟨ret,p'⟩,hopened⟩ := hbus s rfl
    cases hdaemon : o.becomeDaemon with
    | some ended =>
      have hstatus : status o (.ready s) = ended := by
        rw [status.eq_def, if_neg hcreated]
        simp only [hdaemon]
      rw [hstatus]
      exact hexit ended h hh
    | none =>
      have hstatus : status o (.ready s) =
          if ret = .eok then if o.shutdown then exitSuccess else exitFailure else exitFailure := by
        rw [status.eq_def, if_neg hcreated]
        simp only [hdaemon, hopened]
        cases ret <;> rfl
      rw [hstatus]
      exact opened_ends autofree rest hrest d o s ret p' hsettings hopened (hwork s rfl) e m ms hs
        h hh

end Ends

open Flip.DaemonHandler in
def unheardCrawler : Daemon :=
  .crawler [ascii "flip_crawler",alpha.bytes,alphaPid.bytes,alphaIpc.bytes] true
    CrawlerMain.sendLost 0

def goodMain : MainOutcome := ⟨true,true,64,none,.good,⟨0,0⟩,true⟩

theorem unheard_crawler_ends : ∃ h,
    unheardCrawler.main goodMain 0 .single = some (exitSuccess,h) ∧ h.chunks = [] := by
  have hwork : ∀ s, unheardCrawler.Works goodMain s := by
    intro s identityName _
    have hanswer := CommonDaemon.get_config_answers false 0 ⟨0,0⟩ identityName .crawler []
    exact ⟨_,hanswer⟩
  obtain ⟨r,h,hrun,rfl,hh⟩ := daemon_ends 0 [] (fun c hc => absurd hc List.not_mem_nil)
    unheardCrawler goodMain _ rfl (fun s hs => by cases hs; exact ⟨_,rfl⟩) (fun s _ => hwork s)
    .single (List.Perm.refl _)
  exact ⟨h,hrun,List.perm_nil.mp hh⟩

end Flip.Memory
