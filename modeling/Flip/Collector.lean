import Flip.Crawler
import Flip.CrawlerMain
import Flip.SqlLifecycle

/-!
# The collector

A round takes a frame from the bus, reads a ticker from it and stores it. The
insert never reports success, so the round that stores a tick is the last one,
and the only collectors that exit with success are those that nothing reached.
-/

set_option autoImplicit false

namespace Flip.Collector
open Flip.CLib Flip.Json Flip.Ticker Flip.Nbus Flip.Sql Flip.SqlLifecycle
open Flip.Crawler (parseChunk)
open Flip.CrawlerMain (exitSuccess exitFailure finish)

inductive Status where
  | running
  | exited (status : ℤ)
  | fault (f : Fault)
  deriving DecidableEq

structure Round (D : Type) where
  recv : RecvOutcome
  alloc : TickerAlloc
  mem : BtceTicker D
  answers : Answers

structure State (D : Type) where
  status : Status
  db : Db D

section Loop

variable {D : Type} [Zero D] (strtold : Buf → D) (jsmn : Jsmn) (nbusCtx : NbusCtx)

def parse (r : Round D) (chunk : StringCtx) : Except Fault (Outcome D) :=
  parseChunk strtold jsmn ⟨.ok chunk,r.alloc,r.mem,true⟩ chunk

/-- What a round does with the chunk it has received. A record that the parser
did not store is dereferenced by the insert. -/
def store (r : Round D) (chunk : StringCtx) (db : Db D) : State D :=
  match parse strtold jsmn r chunk with
  | .error f => ⟨.fault f,db⟩
  | .ok out =>
    if out.ret ≠ .eok then ⟨.exited exitFailure,db⟩
    else
      match out.tickerData with
      | none => ⟨.fault .nullDeref,db⟩
      | some t =>
        let (ret,db) := sqlInsertTick r.answers.toReplies t db
        if ret ≠ .eok then ⟨.exited exitFailure,db⟩ else ⟨.running,db⟩

def collectBody (r : Round D) (db : Db D) (bus : Bus) : State D × Bus :=
  match nbusRecieve r.recv (some nbusCtx) bus with
  | (.eok,some chunk,bus) => (store strtold jsmn r chunk db,bus)
  | (.eok,none,bus) => (⟨.fault .nullDeref,db⟩,bus)
  | (.eagain,_,bus) => (⟨.running,db⟩,bus)
  | (_,_,bus) => (⟨.exited exitFailure,db⟩,bus)

def act (s : State D) (r : Round D) (bus : Bus) : Option (State D × Bus) :=
  if s.status = .running then some (collectBody strtold jsmn nbusCtx r s.db bus) else none

/-- The loop, with the frames that arrive before each round; `main` does
twenty rounds. -/
def collect : List (Bus × Round D) → State D × Bus → State D × Bus
  | [], x => x
  | (arrived,r)::rs, (s,bus) =>
    match act strtold jsmn nbusCtx s r (bus++arrived) with
    | some x => collect rs x
    | none => (s,bus++arrived)

end Loop

def close {D : Type} (nbusCtx : NbusCtx) (shutdown : Bool) (rootNbusCtx : NbusCtx)
    (rootShutdown : Bool) (db : Db D) : State D :=
  let (ret,db) := sqlClose db
  if ret ≠ .eok then ⟨.exited exitFailure,db⟩
  else if nbusClose shutdown (some nbusCtx) ≠ .eok then ⟨.exited exitFailure,db⟩
  else ⟨.exited (finish rootShutdown (some rootNbusCtx) exitSuccess),db⟩

structure Work (D : Type) where
  nbusInitSub : Option NbusCtx
  sqlTmpCtx : Bool
  sqlCtx : Bool
  sqlOpen : SqliteRet
  exec : SqliteRet
  rounds : List (Bus × Round D)
  shutdown : Bool
  rootNbusCtx : NbusCtx
  rootShutdown : Bool

def work {D : Type} [Zero D] (strtold : Buf → D) (jsmn : Jsmn) (w : Work D)
    (rows : List (Row D)) : State D :=
  match w.nbusInitSub with
  | none => ⟨.exited exitFailure,⟨rows,0,false,false⟩⟩
  | some nbusCtx =>
    match sqlInit w.sqlTmpCtx w.sqlCtx w.sqlOpen rows with
    | (.eok,some db) =>
      let (ret,db) := sqlCreateTicksTable w.exec db
      if ret ≠ .eok then ⟨.exited exitFailure,db⟩
      else
        let s := (collect strtold jsmn nbusCtx w.rounds (⟨.running,db⟩,[])).1
        if s.status ≠ .running then s
        else close nbusCtx w.shutdown w.rootNbusCtx w.rootShutdown s.db
    | _ => ⟨.exited exitFailure,⟨rows,0,false,false⟩⟩

section Rounds

variable {D : Type} [Zero D] (strtold : Buf → D) (jsmn : Jsmn) (nbusCtx : NbusCtx)

def Reads (frame : Buf) (t : BtceTicker D) : Prop :=
  ∃ alloc mem released,
    parseBtcETicker strtold (tallocStrndup frame frame.length) alloc jsmn mem =
      .ok ⟨.eok,some t,released⟩

def EndsWith (frame : Buf) (db : Db D) (s : State D) : Prop :=
  s.status ≠ .running ∧ s.status ≠ .exited exitSuccess ∧
    (s.db.rows = db.rows ∨
      s.status = .exited exitFailure ∧
        ∃ t, Reads strtold jsmn frame t ∧ s.db.rows = db.rows++[tickRow t])

omit [Zero D] in
theorem insert_rows (a : Answers) (t : BtceTicker D) (db : Db D) :
    (sqlInsertTick a.toReplies t db).1 ≠ .eok ∧
      ((sqlInsertTick a.toReplies t db).2.rows = db.rows ∨
        (sqlInsertTick a.toReplies t db).2.rows = db.rows++[tickRow t]) := by
  by_cases h : a.Inserts
  · have hrun := insert_stored ⟨t,a⟩ db h
    rw [Call.run] at hrun
    rw [hrun]
    exact ⟨by simp,.inr rfl⟩
  · obtain ⟨hret,hrows⟩ := insert_refused ⟨t,a⟩ db h
    exact ⟨hret,.inl hrows⟩

theorem store_ends (r : Round D) (frame : Buf) (db : Db D) :
    EndsWith strtold jsmn frame db (store strtold jsmn r
      ⟨some (tallocStrndup frame frame.length),
        tallocArrayLength (tallocStrndup frame frame.length)⟩ db) := by
  simp only [store, parse, parseChunk]
  cases hparse : parseBtcETicker strtold (tallocStrndup frame frame.length) r.alloc jsmn r.mem with
  | error f => exact ⟨by simp,by simp,.inl rfl⟩
  | ok out =>
    obtain ⟨ret,tickerData,released⟩ := out
    dsimp only
    split_ifs with hret
    · exact ⟨by simp,by simp [exitFailure, exitSuccess],.inl rfl⟩
    · obtain rfl : ret = .eok := not_not.mp hret
      cases tickerData with
      | none => exact ⟨by simp,by simp,.inl rfl⟩
      | some t =>
        obtain ⟨hne,hrows⟩ := insert_rows r.answers t db
        simp only [if_pos hne]
        refine ⟨by simp,by simp [exitFailure, exitSuccess],hrows.imp id (fun h => ?_)⟩
        exact ⟨rfl,t,⟨r.alloc,r.mem,released,hparse⟩,h⟩

/-- A round goes on exactly when it finds the bus empty; otherwise it ends the
collector, and then it has taken one frame or none. -/
theorem collect_body_cases (r : Round D) (db : Db D) (bus : Bus) :
    (r.recv.Polls ∧ bus = [] ∧ collectBody strtold jsmn nbusCtx r db bus = (⟨.running,db⟩,[])) ∨
    (¬r.recv.Polls ∧
      collectBody strtold jsmn nbusCtx r db bus = (⟨.exited exitFailure,db⟩,bus)) ∨
    (r.recv.Polls ∧ ∃ frame rest s, bus = frame::rest ∧ EndsWith strtold jsmn frame db s ∧
      collectBody strtold jsmn nbusCtx r db bus = (s,rest)) := by
  by_cases hpolls : r.recv.Polls
  · have hrecv := recieve_polls r.recv nbusCtx bus hpolls
    cases bus with
    | nil => exact .inl ⟨hpolls,rfl,by simp [collectBody, hrecv]⟩
    | cons frame rest =>
      refine .inr (.inr ⟨hpolls,frame,rest,?_⟩)
      cases hdata : r.recv.data with
      | false =>
        rw [hdata] at hrecv
        exact ⟨⟨.exited exitFailure,db⟩,rfl,
          ⟨by simp,by simp [exitFailure, exitSuccess],.inl rfl⟩,by simp [collectBody, hrecv]⟩
      | true =>
        rw [hdata] at hrecv
        exact ⟨_,rfl,store_ends strtold jsmn r frame db,by simp [collectBody, hrecv]⟩
  · obtain ⟨ret,hok,hagain,hrecv⟩ := recieve_fails r.recv nbusCtx bus hpolls
    refine .inr (.inl ⟨hpolls,?_⟩)
    cases ret <;> simp_all [collectBody]

theorem act_leaves (s : State D) (r : Round D) (bus : Bus) (s' : State D) (bus' : Bus)
    (h : act strtold jsmn nbusCtx s r bus = some (s',bus')) : bus' <:+ bus := by
  rw [act] at h
  split_ifs at h
  have hbody := Option.some.inj h
  rcases collect_body_cases strtold jsmn nbusCtx r s.db bus with
    ⟨-,rfl,hrun⟩ | ⟨-,hrun⟩ | ⟨-,frame,rest,t,rfl,-,hrun⟩
  · rw [hrun] at hbody
    cases hbody
    exact List.suffix_refl _
  · rw [hrun] at hbody
    cases hbody
    exact List.suffix_refl _
  · rw [hrun] at hbody
    cases hbody
    exact List.suffix_cons _ _

theorem act_running (s : State D) (r : Round D) (bus : Bus) (h : s.status = .running) :
    act strtold jsmn nbusCtx s r bus = some (collectBody strtold jsmn nbusCtx r s.db bus) :=
  if_pos h

theorem act_ended (s : State D) (r : Round D) (bus : Bus) (h : s.status ≠ .running) :
    act strtold jsmn nbusCtx s r bus = none := if_neg h

theorem collect_ended (rounds : List (Bus × Round D)) (s : State D) (bus : Bus)
    (h : s.status ≠ .running) : (collect strtold jsmn nbusCtx rounds (s,bus)).1 = s := by
  cases rounds with
  | nil => rfl
  | cons round rounds =>
    obtain ⟨arrived,r⟩ := round
    rw [collect, act_ended strtold jsmn nbusCtx s r (bus++arrived) h]

def Quiet (round : Bus × Round D) : Prop := round.1 = [] ∧ round.2.recv.Polls

theorem collect_cases (rounds : List (Bus × Round D)) (db : Db D) :
    ((∀ round ∈ rounds, Quiet round) ∧
      (collect strtold jsmn nbusCtx rounds (⟨.running,db⟩,[])).1 = ⟨.running,db⟩) ∨
    ((¬∀ round ∈ rounds, Quiet round) ∧
      ((collect strtold jsmn nbusCtx rounds (⟨.running,db⟩,[])).1 = ⟨.exited exitFailure,db⟩ ∨
        ∃ frame, (rounds.flatMap Prod.fst).head? = some frame ∧
          EndsWith strtold jsmn frame db
            (collect strtold jsmn nbusCtx rounds (⟨.running,db⟩,[])).1)) := by
  induction rounds with
  | nil => exact .inl ⟨by simp,rfl⟩
  | cons round rounds ih =>
    obtain ⟨arrived,r⟩ := round
    rw [collect, act_running strtold jsmn nbusCtx _ r _ rfl, List.forall_mem_cons, List.nil_append,
      List.flatMap_cons]
    rcases collect_body_cases strtold jsmn nbusCtx r db arrived with
      ⟨hpolls,rfl,hrun⟩ | ⟨hfails,hrun⟩ | ⟨-,frame,rest,s,rfl,hends,hrun⟩
    · rw [hrun]
      have hquiet : Quiet (([] : Bus),r) := ⟨rfl,hpolls⟩
      simpa only [hquiet, true_and, List.nil_append] using ih
    · rw [hrun]
      refine .inr ⟨fun hall => hfails hall.1.2,.inl ?_⟩
      exact collect_ended strtold jsmn nbusCtx rounds _ _ (by simp)
    · rw [hrun]
      refine .inr ⟨fun hall => List.cons_ne_nil _ _ hall.1.1,.inr ⟨frame,rfl,?_⟩⟩
      dsimp only
      rw [collect_ended strtold jsmn nbusCtx rounds s rest hends.1]
      exact hends

end Rounds

section Work

variable {D : Type} [Zero D] (strtold : Buf → D) (jsmn : Jsmn)

structure Started (w : Work D) : Prop where
  nbusInitSub : w.nbusInitSub.isSome
  sqlTmpCtx : w.sqlTmpCtx = true
  sqlCtx : w.sqlCtx = true
  sqlOpen : w.sqlOpen = sqliteOk
  exec : w.exec = sqliteOk

structure Idle (w : Work D) : Prop extends Started w where
  rounds : ∀ round ∈ w.rounds, Quiet round
  shutdown : w.shutdown = true
  rootShutdown : w.rootShutdown = true

/-- The table is as it was, or the collector has failed and the table has the
tick of the first frame that arrived besides. -/
def StoresFirst (w : Work D) (rows : List (Row D)) (s : State D) : Prop :=
  s.db.rows = rows ∨
    s.status = .exited exitFailure ∧
      ∃ frame t, (w.rounds.flatMap Prod.fst).head? = some frame ∧ Reads strtold jsmn frame t ∧
        s.db.rows = rows++[tickRow t]

omit [Zero D] in
theorem close_rows (db : Db D) : (sqlClose db).2.rows = db.rows := by
  unfold sqlClose
  split <;> rfl

omit [Zero D] in
theorem close_ended (nbusCtx : NbusCtx) (shutdown : Bool) (rootNbusCtx : NbusCtx)
    (rootShutdown : Bool) (db : Db D) :
    (close nbusCtx shutdown rootNbusCtx rootShutdown db).status ≠ .running ∧
      (close nbusCtx shutdown rootNbusCtx rootShutdown db).db.rows = db.rows := by
  simp only [close]
  split_ifs <;> exact ⟨by simp,close_rows db⟩

theorem work_unstarted (w : Work D) (rows : List (Row D)) (h : ¬Started w) :
    (work strtold jsmn w rows).status = .exited exitFailure ∧
      (work strtold jsmn w rows).db.rows = rows := by
  unfold work
  cases hsub : w.nbusInitSub with
  | none => exact ⟨rfl,rfl⟩
  | some nbusCtx =>
    by_cases htmp : w.sqlTmpCtx = false
    · simp [sqlInit, htmp]
    by_cases hctx : w.sqlCtx = false
    · simp [sqlInit, htmp, hctx]
    by_cases hopen : w.sqlOpen = sqliteOk
    · have hexec : w.exec ≠ sqliteOk := fun hexec =>
        h ⟨by simp [hsub],by simpa using htmp,by simpa using hctx,hopen,hexec⟩
      simp [sqlInit, htmp, hctx, hopen, sqlCreateTicksTable, hexec, close_rows]
    · simp [sqlInit, htmp, hctx, hopen]

theorem work_started (w : Work D) (rows : List (Row D)) (h : Started w) :
    ∃ nbusCtx, work strtold jsmn w rows =
      let s := (collect strtold jsmn nbusCtx w.rounds (⟨.running,⟨rows,0,true,true⟩⟩,[])).1
      if s.status ≠ .running then s
      else close nbusCtx w.shutdown w.rootNbusCtx w.rootShutdown s.db := by
  obtain ⟨nbusCtx,hsub⟩ := Option.isSome_iff_exists.mp h.nbusInitSub
  refine ⟨nbusCtx,?_⟩
  simp only [work, hsub, sqlInit, h.sqlTmpCtx, h.sqlCtx, h.sqlOpen, sqlCreateTicksTable, h.exec,
    Bool.true_eq_false, if_false, ne_eq, not_true_eq_false]

theorem finish_success_iff (shutdown : Bool) (ctx : NbusCtx) :
    finish shutdown (some ctx) exitSuccess = exitSuccess ↔ shutdown = true := by
  cases shutdown
  · exact iff_of_false (fun h => absurd h Int.one_ne_zero) Bool.false_ne_true
  · exact iff_of_true rfl rfl

/-- The collector exits with success exactly when everything goes well and no
frame ever arrives. It stores at most one tick, which is read from the first
frame, and then it exits with a failure. -/
theorem work_outcome (w : Work D) (rows : List (Row D)) :
    ((work strtold jsmn w rows).status = .exited exitSuccess ↔ Idle w) ∧
      StoresFirst strtold jsmn w rows (work strtold jsmn w rows) := by
  by_cases hstarted : Started w
  · obtain ⟨nbusCtx,hwork⟩ := work_started strtold jsmn w rows hstarted
    rcases collect_cases strtold jsmn nbusCtx w.rounds ⟨rows,0,true,true⟩ with
      ⟨hquiet,hrun⟩ | ⟨hloud,hrun | ⟨frame,hframe,hends⟩⟩
    · have hclose := close_clean (⟨rows,0,true,true⟩ : Db D) ⟨rfl,rfl,rfl⟩
      rw [hrun] at hwork
      simp only [close, hclose, ne_eq, not_true_eq_false, if_false] at hwork
      rw [hwork]
      cases hdown : w.shutdown with
      | false =>
        refine ⟨iff_of_false (by simp [nbusClose, exitFailure, exitSuccess]) ?_,.inl rfl⟩
        intro hidle
        rw [hidle.shutdown] at hdown
        cases hdown
      | true =>
        refine ⟨?_,.inl rfl⟩
        simp only [nbusClose, if_true, not_true_eq_false, if_false, Status.exited.injEq]
        rw [finish_success_iff]
        exact ⟨fun hroot => ⟨hstarted,hquiet,hdown,hroot⟩,Idle.rootShutdown⟩
    · rw [hrun] at hwork
      rw [hwork]
      exact ⟨iff_of_false (by simp [exitFailure, exitSuccess]) (fun hidle => hloud hidle.rounds),
        .inl rfl⟩
    · simp only [if_pos hends.1] at hwork
      rw [hwork]
      refine ⟨iff_of_false hends.2.1 (fun hidle => hloud hidle.rounds),hends.2.2.imp id ?_⟩
      rintro ⟨hexit,t,hreads,hrows⟩
      exact ⟨hexit,frame,t,hframe,hreads,hrows⟩
  · obtain ⟨hexit,hrows⟩ := work_unstarted strtold jsmn w rows hstarted
    refine ⟨iff_of_false ?_ (fun hidle => hstarted hidle.toStarted),.inl hrows⟩
    rw [hexit]
    simp [exitFailure, exitSuccess]

end Work

end Flip.Collector
