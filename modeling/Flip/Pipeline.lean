import Flip.BusHops
import Flip.CBlock
import Flip.Channel
import Flip.Collector
import Flip.TickerBounds

/-!
# From the exchange to the table

One crawler publishes in its ten rounds and collectors store, one after the
other, each with twenty rounds and a queue of its own. The rounds of the two
interleave in any order. A frame that is published may never reach the queue,
and what waits there when a collector starts is discarded. The rows are ticks
of received frames in the order of their publication, so their times increase.
-/

set_option autoImplicit false

namespace Flip.Pipeline
open Flip.CLib Flip.Runs Flip.Channel Flip.Json Flip.Ticker Flip.Nbus Flip.Sql
open Flip.JsonDoc Flip.TickerDoc Flip.TickerBounds Flip.ExchangeDoc Flip.Crawler Flip.Collector
open scoped List

structure CrawlerState where
  updated : Except Halt Int32
  roundsLeft : ℕ

structure Collectors (D : Type) where
  collector : Collector.State D
  roundsLeft : ℕ
  started : ℕ

structure Sys (D : Type) where
  crawler : CrawlerState
  bus : Bus
  collectors : Collectors D

structure Ending where
  shutdown : Bool
  rootNbusCtx : NbusCtx
  rootShutdown : Bool

inductive Event (D : Type) where
  | crawl (r : Crawler.Round D) (delivered : Bool)
  | collect (r : Collector.Round D)
  | finish (e : Ending)
  | startCollector

def crawlerStart : CrawlerState := ⟨.ok 0,10⟩

def collectorStart {D : Type} (rows : List (Row D)) (n : ℕ) : Collectors D :=
  ⟨⟨.running,⟨rows,0,true,true⟩⟩,20,n⟩

section System

variable {D : Type} [Zero D] (strtold : Buf → D) (jsmn : Jsmn) (pub sub : NbusCtx)

/-- A round of the crawler. What it sends is not always delivered. -/
def crawl (s : Sys D) (r : Crawler.Round D) (delivered : Bool) : Option (Sys D) :=
  match s.crawler with
  | ⟨.ok updated,n+1⟩ =>
    match pollBody strtold jsmn pub r ⟨updated,s.bus⟩ with
    | .error h => some { s with crawler := ⟨.error h,n⟩ }
    | .ok p => some { s with
        crawler := ⟨.ok p.updated,n⟩
        bus := if delivered then p.bus else s.bus }
  | _ => none

def collect (c : Collectors D) (r : Collector.Round D) (bus : Bus) :
    Option (Collectors D × Bus) :=
  match c.roundsLeft with
  | 0 => none
  | n+1 => (act strtold jsmn sub c.collector r bus).map (fun x => (⟨x.1,n,c.started⟩,x.2))

def finish (c : Collectors D) (e : Ending) : Option (Collectors D) :=
  if c.collector.status = .running ∧ c.roundsLeft = 0 then
    some { c with
      collector := close sub e.shutdown e.rootNbusCtx e.rootShutdown c.collector.db }
  else none

def restart (c : Collectors D) : Option (Collectors D) :=
  if c.collector.status = .running then none
  else some (collectorStart c.collector.db.rows (c.started+1))

def step (s : Sys D) : Event D → Option (Sys D)
  | .crawl r delivered => crawl strtold jsmn pub s r delivered
  | .collect r =>
    (collect strtold jsmn sub s.collectors r s.bus).map (fun x =>
      { s with collectors := x.1, bus := x.2 })
  | .finish e => (finish sub s.collectors e).map (fun c => { s with collectors := c })
  | .startCollector => (restart s.collectors).map (fun c => { s with collectors := c, bus := [] })

def start (rows : List (Row D)) : Sys D := ⟨crawlerStart,[],collectorStart rows 1⟩

def Event.crawlRound : Event D → Option (Crawler.Round D)
  | .crawl r _ => some r
  | _ => none

def crawls (events : List (Event D)) : List (Crawler.Round D) :=
  events.filterMap Event.crawlRound

def crawler : Producer CrawlerState (Crawler.Round D) Buf
  | ⟨.ok updated,n+1⟩, r =>
    match pollBody strtold jsmn pub r ⟨updated,[]⟩ with
    | .error h => some (⟨.error h,n⟩,[])
    | .ok p => some (⟨.ok p.updated,n⟩,p.bus)
  | _, _ => none

def published (c : CrawlerState) (r : Crawler.Round D) : Bus :=
  ((crawler strtold jsmn pub c r).map Prod.snd).getD []

/-- What a collector takes off the queue in a step, what is in the queue when
the next one starts, and what never reaches it. -/
def receivedIn (s : Sys D) (e : Event D) (t : Sys D) : Bus :=
  match e with
  | .collect _ => removed s.bus t.bus
  | _ => []

def discardedIn (s : Sys D) (e : Event D) (_ : Sys D) : Bus :=
  match e with
  | .startCollector => s.bus
  | _ => []

def lostIn (s : Sys D) (e : Event D) (_ : Sys D) : Bus :=
  match e with
  | .crawl r false => published strtold jsmn pub s.crawler r
  | _ => []

def received (rows : List (Row D)) (events : List (Event D)) : Bus :=
  record (step strtold jsmn pub sub) receivedIn (start rows) events

def discarded (rows : List (Row D)) (events : List (Event D)) : Bus :=
  record (step strtold jsmn pub sub) discardedIn (start rows) events

def lost (rows : List (Row D)) (events : List (Event D)) : Bus :=
  record (step strtold jsmn pub sub) (lostIn strtold jsmn pub) (start rows) events

def collectors : Consumer (Collectors D) (Collector.Round D ⊕ Ending) Buf where
  act c b bus :=
    match b with
    | .inl r => collect strtold jsmn sub c r bus
    | .inr e => (finish sub c e).map (fun c => (c,bus))
  leaves c b bus c' bus' h := by
    cases b with
    | inl r =>
      obtain ⟨collector,roundsLeft,started⟩ := c
      cases roundsLeft with
      | zero => cases h
      | succ n =>
        obtain ⟨⟨s,rest⟩,hact,hx⟩ := Option.map_eq_some_iff.mp h
        cases hx
        exact act_leaves strtold jsmn sub _ r bus s _ hact
    | inr e =>
      obtain ⟨_,-,hx⟩ := Option.map_eq_some_iff.mp h
      cases hx
      exact List.suffix_refl _
  renew := restart

def system (s : Channel.State CrawlerState (Collectors D) Buf) : Sys D :=
  ⟨s.producer,s.queue,s.consumer⟩

def fresh (rows : List (Row D)) : Channel.State CrawlerState (Collectors D) Buf :=
  ⟨crawlerStart,[],collectorStart rows 1⟩

def Event.label : Event D → Channel.Label (Crawler.Round D) (Collector.Round D ⊕ Ending)
  | .crawl r delivered => .put r delivered
  | .collect r => .take (.inl r)
  | .finish e => .take (.inr e)
  | .startCollector => .renew

end System

section Refinement

variable {D : Type} [Zero D] (strtold : Buf → D) (jsmn : Jsmn) (pub sub : NbusCtx)

omit [Zero D] in
theorem publish_blind (r : Crawler.Round D) (chunk : StringCtx) (t : BtceTicker D)
    (updated : Int32) (bus : Bus) :
    publish pub r chunk t ⟨updated,bus⟩ =
      (publish pub r chunk t ⟨updated,[]⟩).map (fun p => ⟨p.updated,bus++p.bus⟩) := by
  simp only [publish]
  split_ifs with hnewer
  · simp only [nbusSend]
    cases readMemory chunk.data chunk.size with
    | error f => rfl
    | ok frame => cases r.sent <;> simp [Except.map]
  · simp [Except.map]

theorem poll_body_blind (r : Crawler.Round D) (updated : Int32) (bus : Bus) :
    pollBody strtold jsmn pub r ⟨updated,bus⟩ =
      (pollBody strtold jsmn pub r ⟨updated,[]⟩).map (fun p => ⟨p.updated,bus++p.bus⟩) := by
  simp only [pollBody]
  cases r.fetched with
  | error e => rfl
  | ok chunk =>
    dsimp only
    cases parseChunk strtold jsmn r chunk with
    | error f => rfl
    | ok out =>
      dsimp only
      split_ifs with hret
      · rfl
      · cases out.tickerData with
        | none => rfl
        | some t => exact publish_blind pub r chunk t updated bus

theorem step_system (s : Channel.State CrawlerState (Collectors D) Buf) (e : Event D) :
    step strtold jsmn pub sub (system s) e =
      (Channel.step (crawler strtold jsmn pub) (collectors strtold jsmn sub) s e.label).map
        system := by
  obtain ⟨⟨status,roundsLeft⟩,queue,consumer⟩ := s
  cases e with
  | crawl r delivered =>
    cases status with
    | error h => rfl
    | ok updated =>
      cases roundsLeft with
      | zero => rfl
      | succ n =>
        simp only [step, crawl, system, Event.label, Channel.step, put, crawler,
          poll_body_blind strtold jsmn pub r updated queue]
        cases pollBody strtold jsmn pub r ⟨updated,[]⟩ with
        | error h => simp [Except.map, system]
        | ok p => rfl
  | collect r =>
    simp only [step, system, Event.label, Channel.step, take, collectors, Option.map_map]
    rfl
  | finish e =>
    simp only [step, system, Event.label, Channel.step, take, collectors, Option.map_map]
    rfl
  | startCollector =>
    simp only [step, system, Event.label, Channel.step, renew, collectors, Option.map_map]
    rfl

theorem run_system (rows : List (Row D)) (events : List (Event D)) (s : Sys D)
    (h : run (step strtold jsmn pub sub) (start rows) events = some s) :
    ∃ t, system t = s ∧ run (Channel.step (crawler strtold jsmn pub)
      (collectors strtold jsmn sub)) (fresh rows) (events.map Event.label) = some t := by
  have hmap := run_map _ _ system Event.label (step_system strtold jsmn pub sub) (fresh rows)
    events
  obtain ⟨t,ht,hsystem⟩ := Option.map_eq_some_iff.mp (hmap.symm.trans h)
  exact ⟨t,hsystem,ht⟩

theorem received_taken (rows : List (Row D)) (events : List (Event D)) :
    received strtold jsmn pub sub rows events = taken (crawler strtold jsmn pub)
      (collectors strtold jsmn sub) (fresh rows) (events.map Event.label) := by
  refine record_map _ _ system Event.label (step_system strtold jsmn pub sub) takenIn receivedIn
    (fun s e t h => ?_) (fresh rows) events
  cases e with
  | crawl r delivered => rfl
  | collect r => rfl
  | finish e =>
    obtain ⟨⟨c,q⟩,hact,rfl⟩ := Option.map_eq_some_iff.mp h
    obtain ⟨_,-,hx⟩ := Option.map_eq_some_iff.mp hact
    cases hx
    exact (removed_self s.queue).symm
  | startCollector => rfl

theorem discarded_eq (rows : List (Row D)) (events : List (Event D)) :
    discarded strtold jsmn pub sub rows events = Channel.discarded (crawler strtold jsmn pub)
      (collectors strtold jsmn sub) (fresh rows) (events.map Event.label) := by
  refine record_map _ _ system Event.label (step_system strtold jsmn pub sub)
    Channel.discardedIn discardedIn (fun s e t h => ?_) (fresh rows) events
  cases e <;> rfl

theorem lost_eq (rows : List (Row D)) (events : List (Event D)) :
    lost strtold jsmn pub sub rows events = Channel.lost (crawler strtold jsmn pub)
      (collectors strtold jsmn sub) (fresh rows) (events.map Event.label) := by
  refine record_map _ _ system Event.label (step_system strtold jsmn pub sub)
    (Channel.lostIn _) (lostIn strtold jsmn pub) (fun s e t h => ?_) (fresh rows) events
  cases e with
  | crawl r delivered => cases delivered <;> rfl
  | collect r => rfl
  | finish e => rfl
  | startCollector => rfl

omit [Zero D] in
theorem puts_crawls (events : List (Event D)) :
    puts (events.map Event.label) = crawls events := by
  rw [puts, crawls, List.filterMap_map]
  congr 1
  funext e
  cases e <;> rfl

end Refinement

section Table

variable {D : Type} [Zero D] (strtold : Buf → D) (jsmn : Jsmn) (pub sub : NbusCtx)

def Stored (rows : List (Row D)) (taken : Bus) (db : Db D) (ts : List (BtceTicker D)) : Prop :=
  db.rows = rows++ts.map tickRow ∧
    ∃ frames, frames <+ taken ∧ List.Forall₂ (Reads strtold jsmn) frames ts

def Counted (c : Collectors D) (ts : List (BtceTicker D)) : Prop :=
  ts.length+(if c.collector.status = .running then 1 else 0) ≤ c.started

def Kept (rows : List (Row D)) (c : Collectors D) (taken : Bus) : Prop :=
  ∃ ts, Stored strtold jsmn rows taken c.collector.db ts ∧ Counted c ts

theorem stored_later (rows : List (Row D)) (taken more : Bus) (db : Db D)
    (ts : List (BtceTicker D)) (h : Stored strtold jsmn rows taken db ts) :
    Stored strtold jsmn rows (taken++more) db ts := by
  obtain ⟨hrows,frames,hframes,hreads⟩ := h
  exact ⟨hrows,frames,hframes.trans (List.sublist_append_left taken more),hreads⟩

theorem stored_next (rows : List (Row D)) (taken : Bus) (db db' : Db D)
    (ts : List (BtceTicker D)) (frame : Buf) (t : BtceTicker D)
    (h : Stored strtold jsmn rows taken db ts) (hread : Reads strtold jsmn frame t)
    (hrow : db'.rows = db.rows++[tickRow t]) :
    Stored strtold jsmn rows (taken++[frame]) db' (ts++[t]) := by
  obtain ⟨hrows,frames,hframes,hreads⟩ := h
  refine ⟨?_,frames++[frame],hframes.append_right [frame],?_⟩
  · rw [hrow, hrows, List.map_append, List.append_assoc]
    rfl
  · exact List.rel_append hreads (.cons hread .nil)

theorem round_kept (rows : List (Row D)) (c c' : Collectors D) (r : Collector.Round D)
    (bus bus' front : Bus) (hc : Kept strtold jsmn rows c front)
    (h : collect strtold jsmn sub c r bus = some (c',bus')) :
    Kept strtold jsmn rows c' (front++removed bus bus') := by
  obtain ⟨ts,hstored,hcounted⟩ := hc
  obtain ⟨collector,roundsLeft,started⟩ := c
  cases roundsLeft with
  | zero => cases h
  | succ n =>
  obtain ⟨⟨s,rest⟩,hact,hx⟩ := Option.map_eq_some_iff.mp h
  cases hx
  rw [act] at hact
  split_ifs at hact with hrunning
  have hbody := Option.some.inj hact
  rw [Counted, if_pos hrunning] at hcounted
  rcases collect_body_cases strtold jsmn sub r collector.db bus with
    ⟨-,rfl,hrun⟩ | ⟨-,hrun⟩ | ⟨-,frame,rest,s,rfl,hends,hrun⟩
  · rw [hrun] at hbody
    cases hbody
    exact ⟨ts,stored_later strtold jsmn rows front _ _ ts hstored,
      by rw [Counted, if_pos rfl]; exact hcounted⟩
  · rw [hrun] at hbody
    cases hbody
    exact ⟨ts,stored_later strtold jsmn rows front _ _ ts hstored,
      by rw [Counted, if_neg (by simp)]; exact Nat.le_of_succ_le hcounted⟩
  · rw [hrun] at hbody
    cases hbody
    rw [removed_cons]
    rcases hends.2.2 with hsame | ⟨-,t,hread,hrow⟩
    · refine ⟨ts,stored_later strtold jsmn rows front _ _ ts ⟨?_,hstored.2⟩,
        by rw [Counted, if_neg hends.1]; exact Nat.le_of_succ_le hcounted⟩
      exact hsame.trans hstored.1
    · refine ⟨ts++[t],stored_next strtold jsmn rows front _ _ ts frame t hstored hread hrow,?_⟩
      rw [Counted, if_neg hends.1, List.length_append, List.length_singleton]
      exact hcounted

omit [Zero D] in
theorem finish_ends (c c' : Collectors D) (e : Ending) (h : finish sub c e = some c') :
    c.collector.status = .running ∧ c'.collector.status ≠ .running ∧
      c'.collector.db.rows = c.collector.db.rows ∧ c'.started = c.started := by
  rw [finish] at h
  split_ifs at h with hthrough
  cases h
  obtain ⟨hended,hrows⟩ :=
    close_ended sub e.shutdown e.rootNbusCtx e.rootShutdown c.collector.db
  exact ⟨hthrough.1,hended,hrows,rfl⟩

theorem finish_kept (rows : List (Row D)) (c c' : Collectors D) (e : Ending) (front : Bus)
    (hc : Kept strtold jsmn rows c front) (h : finish sub c e = some c') :
    Kept strtold jsmn rows c' front := by
  obtain ⟨ts,hstored,hcounted⟩ := hc
  obtain ⟨hrunning,hended,hrows,hstarted⟩ := finish_ends sub c c' e h
  rw [Counted, if_pos hrunning] at hcounted
  refine ⟨ts,⟨hrows.trans hstored.1,hstored.2⟩,?_⟩
  rw [Counted, if_neg hended, hstarted]
  exact Nat.le_of_succ_le hcounted

theorem restart_kept (rows : List (Row D)) (c c' : Collectors D) (front : Bus)
    (hc : Kept strtold jsmn rows c front) (h : restart c = some c') :
    Kept strtold jsmn rows c' front := by
  obtain ⟨ts,hstored,hcounted⟩ := hc
  rw [restart] at h
  split_ifs at h with hrunning
  cases h
  rw [Counted, if_neg hrunning] at hcounted
  refine ⟨ts,hstored,?_⟩
  rw [Counted, collectorStart, if_pos rfl]
  exact Nat.add_le_add_right hcounted 1

theorem act_kept (rows : List (Row D)) (c : Collectors D) (b : Collector.Round D ⊕ Ending)
    (bus : Bus) (c' : Collectors D) (bus' front : Bus) (hc : Kept strtold jsmn rows c front)
    (h : (collectors strtold jsmn sub).act c b bus = some (c',bus')) :
    Kept strtold jsmn rows c' (front++removed bus bus') := by
  cases b with
  | inl r => exact round_kept strtold jsmn sub rows c c' r bus bus' front hc h
  | inr e =>
    obtain ⟨_,hfinish,hx⟩ := Option.map_eq_some_iff.mp h
    cases hx
    rw [removed_self, List.append_nil]
    exact finish_kept strtold jsmn sub rows c _ e front hc hfinish

theorem start_kept (rows : List (Row D)) :
    Kept strtold jsmn rows (collectorStart rows 1) [] :=
  ⟨[],⟨(List.append_nil rows).symm,[],List.Sublist.refl _,.nil⟩,le_refl 1⟩

/-- The crawler without collectors: how it is after these rounds, and what it has
published. -/
def alone (rounds : List (Crawler.Round D)) : Option (CrawlerState × Bus) :=
  produce (crawler strtold jsmn pub) crawlerStart rounds

/-- In every interleaving the crawler does what it does alone. Each frame that
it publishes is received, waits in the queue, is discarded when a collector
starts or is lost on the way. What is received, and then what waits, is some of
what is published, in order, and all of it exactly when nothing is discarded or
lost. The new rows are ticks of some of the frames received, in the same order,
and at most one for each collector. -/
theorem pipeline_in_order (rows : List (Row D)) (events : List (Event D)) (s : Sys D)
    (h : run (step strtold jsmn pub sub) (start rows) events = some s) :
    ∃ out ts, alone strtold jsmn pub (crawls events) = some (s.crawler,out) ∧
      received strtold jsmn pub sub rows events++s.bus <+ out ∧
      out ~ received strtold jsmn pub sub rows events++s.bus++
        (discarded strtold jsmn pub sub rows events++lost strtold jsmn pub sub rows events) ∧
      (received strtold jsmn pub sub rows events++s.bus = out ↔
        discarded strtold jsmn pub sub rows events = [] ∧
          lost strtold jsmn pub sub rows events = []) ∧
      Stored strtold jsmn rows (received strtold jsmn pub sub rows events)
        s.collectors.collector.db ts ∧
      ts.length ≤ s.collectors.started := by
  obtain ⟨t,rfl,ht⟩ := run_system strtold jsmn pub sub rows events s h
  have hout := run_produce _ (fresh rows) t ht
  rw [puts_crawls] at hout
  obtain ⟨ts,hstored,hcounted⟩ := run_consumer (Kept strtold jsmn rows)
    (fun c b q c' q' front hc hact => act_kept strtold jsmn sub rows c b q c' q' front hc hact)
    (fun c c' front hc hrenew => restart_kept strtold jsmn rows c c' front hc hrenew)
    _ (fresh rows) t [] (start_kept strtold jsmn rows) ht
  rw [received_taken, discarded_eq, lost_eq]
  exact ⟨_,ts,hout,run_in_order _ (fresh rows) t ht,run_accounted _ (fresh rows) t ht,
    run_complete_iff _ (fresh rows) t ht,hstored,(Nat.le_add_right _ _).trans hcounted⟩

end Table

section Times

variable {D : Type} [Zero D] (strtold : Buf → D) (jsmn : Jsmn) (pub sub : NbusCtx)

theorem poll_blind (rounds : List (Crawler.Round D)) (updated : Int32) (bus : Bus) :
    poll strtold jsmn pub rounds ⟨updated,bus⟩ =
      (poll strtold jsmn pub rounds ⟨updated,[]⟩).map (fun p => ⟨p.updated,bus++p.bus⟩) := by
  induction rounds generalizing updated bus with
  | nil => simp [poll, Except.map]
  | cons r rounds ih =>
    rw [poll, poll, poll_body_blind strtold jsmn pub r updated bus]
    cases pollBody strtold jsmn pub r ⟨updated,[]⟩ with
    | error h => rfl
    | ok p =>
      change poll strtold jsmn pub rounds ⟨p.updated,bus++p.bus⟩ =
        (poll strtold jsmn pub rounds ⟨p.updated,p.bus⟩).map _
      rw [ih p.updated (bus++p.bus), ih p.updated p.bus]
      cases poll strtold jsmn pub rounds ⟨p.updated,[]⟩ with
      | error h => rfl
      | ok q => simp [Except.map]

theorem produce_poll (rounds : List (Crawler.Round D)) (updated u : Int32) (out : Bus) (n : ℕ)
    (hn : rounds.length ≤ n) (h : poll strtold jsmn pub rounds ⟨updated,[]⟩ = .ok ⟨u,out⟩) :
    produce (crawler strtold jsmn pub) ⟨.ok updated,n⟩ rounds =
      some (⟨.ok u,n-rounds.length⟩,out) := by
  induction rounds generalizing updated out n with
  | nil =>
    cases h
    rfl
  | cons r rounds ih =>
    obtain ⟨n,rfl⟩ : ∃ k, n = k+1 := ⟨n-1,by simp only [List.length_cons] at hn; omega⟩
    rw [poll] at h
    obtain ⟨p,hbody,hrest⟩ := CBlock.ok_of_bind h
    rw [show p = ⟨p.updated,p.bus⟩ from rfl, poll_blind] at hrest
    cases hq : poll strtold jsmn pub rounds ⟨p.updated,[]⟩ with
    | error e =>
      rw [hq] at hrest
      cases hrest
    | ok q =>
      rw [hq] at hrest
      cases hrest
      have halone := ih p.updated q.bus n (by simpa using hn) hq
      simp only [produce, crawler, hbody, Option.bind_some, halone, Option.map_some,
        List.length_cons, Nat.add_sub_add_right]

/-- The ticker has the pair of the response, its time as an `int`, and every
other field from the member of that name. -/
structure ReadFrom (g : Response) (t : BtceTicker D) : Prop where
  pair : t.pair = g.key.text
  updated : t.updated = g.read
  fields : ∀ f ≠ .updated, ∀ front m back, g.members = front++m::back → m.key.text.bytes = f.key →
    t.get f = .double (strtold (g.fromValue m back)) ∧
      ∀ convert, strtold = JsonNumber.strtold convert →
        t.get f = .double (strtold m.value.text.bytes)

theorem read_ticker_stored_pair (json : CString) (a : TickerAlloc) (tokens : List JsmnTok)
    (mem t : BtceTicker D) (released : Bool)
    (h : readTicker strtold json a mem tokens = .ok ⟨.eok,some t,released⟩) : a.pair = true := by
  by_contra hp
  have hpair : a.pair = false := by simpa using hp
  match tokens with
  | [] => simp [readTicker] at h
  | [root] => by_cases hroot : root.type = .object <;> simp [readTicker, hroot] at h
  | root::key::tokens =>
    by_cases hroot : root.type = .object
    · by_cases hkey : key.type = .string <;> simp [readTicker, hroot, hkey, hpair] at h
    · simp [readTicker, hroot] at h

theorem parse_stored_good (json : CString) (a : TickerAlloc) (mem t : BtceTicker D)
    (released : Bool) (h : parseBtcETicker strtold json a jsmn mem = .ok ⟨.eok,some t,released⟩) :
    a = .good := by
  by_cases hctx : a.tmpCtx = true
  swap
  · simp [parseBtcETicker, hctx] at h
  by_cases hdata : a.tickerData = true
  swap
  · simp [parseBtcETicker, hctx, hdata] at h
  by_cases hseen : a.tokens = true ∧ ∃ tokens, Delivers jsmn json tokens
  swap
  · obtain ⟨e,hne,hout⟩ := parse_undelivered strtold jsmn json a mem hctx hdata hseen
    cases hout.symm.trans h
  obtain ⟨htokens,tokens,hd⟩ := hseen
  rw [parse_delivered strtold jsmn json a mem tokens hctx hdata htokens hd] at h
  have hpair := read_ticker_stored_pair strtold json a tokens mem t released h
  cases a
  simp_all [TickerAlloc.good]

theorem parse_response (g : Response) (a : TickerAlloc) (mem t : BtceTicker D) (released : Bool)
    (hg : Tokenises jsmn g.pairDocument.document)
    (h : parseBtcETicker strtold g.text a jsmn mem = .ok ⟨.eok,some t,released⟩) :
    ReadFrom strtold g t := by
  obtain rfl := parse_stored_good strtold jsmn _ a mem t released h
  obtain ⟨m,hm,hkey,hvalue⟩ := g.written
  obtain ⟨u,hu,hupdated⟩ := parse_exchange strtold jsmn g.toExchangeDocument hg m g.stamp hm hkey
    hvalue g.fits mem
  obtain ⟨token,hv,htoken⟩ := parse_own strtold jsmn g.toExchangeDocument hg mem
  obtain rfl : t = u := by
    cases h.symm.trans hu
    rfl
  obtain rfl : t = tickerOf strtold g.pairDocument token := by
    cases h.symm.trans hv
    rfl
  refine ⟨rfl,hupdated,fun f hf front m back hmembers hmkey => ?_⟩
  obtain ⟨htype,hstop,htext⟩ := htoken f front m back hmembers hmkey
  rw [ticker_of_get]
  exact value_number strtold g.toExchangeDocument m back f hf (token f) htype hstop htext

theorem reads_message (g : Response) (t : BtceTicker D)
    (hg : Tokenises jsmn g.pairDocument.document) (h : Reads strtold jsmn g.message t) :
    ReadFrom strtold g t := by
  obtain ⟨a,mem,released,hparse⟩ := h
  have htext : tallocStrndup g.message g.message.length = g.text := BusHops.strndup_memory g.text
  rw [htext] at hparse
  exact parse_response strtold jsmn g a mem t released hg hparse

def chunkOf (g : Response) : StringCtx := ⟨some g.text,tallocArrayLength g.text⟩

def chunks (rounds : List (Crawler.Round D)) : List StringCtx :=
  rounds.filterMap (fun r => r.fetched.toOption)

theorem round_publishes (r : Crawler.Round D) (g : Response) (s s' : Poll)
    (hfetched : r.fetched = .ok (chunkOf g)) (hg : Tokenises jsmn g.pairDocument.document)
    (h : pollBody strtold jsmn pub r s = .ok s') :
    s.updated < g.read ∧ s' = ⟨g.read,s.bus++[g.message]⟩ ∨ s' = s := by
  obtain ⟨json,size,t,released,hchunk,hparse,hpublish⟩ := body_reads strtold jsmn pub r s s' h
  cases hchunk.symm.trans hfetched
  rw [← (parse_response strtold jsmn g r.alloc r.mem t released hg hparse).updated]
  exact publish_whole pub r g.text t s s' hpublish

theorem produce_failed (e : Halt) (n : ℕ) (rounds : List (Crawler.Round D)) (c : CrawlerState)
    (out : Bus) (h : produce (crawler strtold jsmn pub) ⟨.error e,n⟩ rounds = some (c,out)) :
    out = [] := by
  cases rounds with
  | nil =>
    cases h
    rfl
  | cons r rounds => cases h

theorem rounds_publish (rounds : List (Crawler.Round D)) (updated : Int32) (n : ℕ)
    (c : CrawlerState) (out : Bus)
    (hexchange : ∀ chunk ∈ chunks rounds, ∃ g : Response, chunk = chunkOf g ∧
      Tokenises jsmn g.pairDocument.document)
    (h : produce (crawler strtold jsmn pub) ⟨.ok updated,n⟩ rounds = some (c,out)) :
    ∃ gs : List Response, out = gs.map Response.message ∧ gs.map chunkOf <+ chunks rounds ∧
      (∀ g ∈ gs, Tokenises jsmn g.pairDocument.document ∧ updated < g.read) ∧
      gs.Pairwise (fun f g => f.read < g.read) := by
  induction rounds generalizing updated n out with
  | nil =>
    cases h
    exact ⟨[],rfl,List.nil_sublist _,by simp,.nil⟩
  | cons r rounds ih =>
    obtain ⟨⟨next,frames⟩,hround,hrest⟩ := Option.bind_eq_some_iff.mp h
    obtain ⟨⟨c',out'⟩,hout,hx⟩ := Option.map_eq_some_iff.mp hrest
    cases hx
    have hlater : chunks rounds <+ chunks (r::rounds) := by
      cases hfetched : r.fetched.toOption with
      | none => simp [chunks, hfetched]
      | some chunk => simp [chunks, hfetched]
    cases n with
    | zero => cases hround
    | succ n =>
    cases hbody : pollBody strtold jsmn pub r ⟨updated,[]⟩ with
    | error e =>
      simp only [crawler, hbody, Option.some.injEq, Prod.mk.injEq] at hround
      obtain ⟨rfl,rfl⟩ := hround
      obtain rfl := produce_failed strtold jsmn pub e n rounds c' out' hout
      exact ⟨[],rfl,List.nil_sublist _,by simp,.nil⟩
    | ok p =>
      simp only [crawler, hbody, Option.some.injEq, Prod.mk.injEq] at hround
      obtain ⟨rfl,rfl⟩ := hround
      obtain ⟨json,size,-,-,hfetched,-⟩ := body_reads strtold jsmn pub r _ p hbody
      have hchunks : chunks (r::rounds) = ⟨some json,size⟩::chunks rounds := by
        simp [chunks, hfetched, Except.toOption]
      obtain ⟨f,hf,hdocument⟩ := hexchange ⟨some json,size⟩ (by simp [hchunks])
      rw [hf] at hfetched hchunks
      obtain ⟨gs,hgs,hsub,hnewer,hincreasing⟩ := ih p.updated n out'
        (fun chunk hc => hexchange chunk (hlater.subset hc)) hout
      rcases round_publishes strtold jsmn pub r f _ p hfetched hdocument hbody with
        ⟨hup,rfl⟩ | rfl
      · refine ⟨f::gs,?_,?_,?_,?_⟩
        · rw [hgs]
          rfl
        · rw [hchunks, List.map_cons]
          exact hsub.cons_cons _
        · intro g hg
          rcases List.mem_cons.mp hg with rfl | hg
          · exact ⟨hdocument,hup⟩
          · exact ⟨(hnewer g hg).1,Int32.lt_trans hup (hnewer g hg).2⟩
        · exact List.pairwise_cons.mpr ⟨fun g hg => (hnewer g hg).2,hincreasing⟩
      · exact ⟨gs,hgs,hsub.trans hlater,hnewer,hincreasing⟩

theorem read_all (gs : List Response) (ts : List (BtceTicker D))
    (h : ∀ g ∈ gs, Tokenises jsmn g.pairDocument.document)
    (hreads : List.Forall₂ (Reads strtold jsmn) (gs.map Response.message) ts) :
    List.Forall₂ (ReadFrom strtold) gs ts := by
  induction gs generalizing ts with
  | nil =>
    cases hreads
    exact .nil
  | cons g gs ih =>
    cases hreads with
    | cons hread hreads =>
      exact .cons (reads_message strtold jsmn g _ (h g (by simp)) hread)
        (ih _ (fun f hf => h f (by simp [hf])) hreads)

theorem read_times (gs : List Response) (ts : List (BtceTicker D))
    (h : List.Forall₂ (ReadFrom strtold) gs ts) :
    ts.map BtceTicker.updated = gs.map Response.read := by
  induction h with
  | nil => rfl
  | cons hread _ ih => rw [List.map_cons, List.map_cons, ih, hread.updated]

/-- Where all that the crawler fetches are responses of the exchange, the new
rows of the table are read exactly from some of them, in every interleaving and
whatever the crawler and the collectors run into, and each row is newer than
the ones before it. -/
theorem table_increases (rows : List (Row D)) (events : List (Event D)) (s : Sys D)
    (hexchange : ∀ chunk ∈ chunks (crawls events), ∃ g : Response, chunk = chunkOf g ∧
      Tokenises jsmn g.pairDocument.document)
    (h : run (step strtold jsmn pub sub) (start rows) events = some s) :
    ∃ gs ts, gs.map chunkOf <+ chunks (crawls events) ∧ List.Forall₂ (ReadFrom strtold) gs ts ∧
      s.collectors.collector.db.rows = rows++ts.map tickRow ∧
      (∀ t ∈ ts, 0 < t.updated) ∧ ts.Pairwise (fun t u => t.updated < u.updated) ∧
      ts.length ≤ s.collectors.started := by
  obtain ⟨out,ts,halone,hordered,-,-,⟨hrows,frames,hframes,hreads⟩,hcounted⟩ :=
    pipeline_in_order strtold jsmn pub sub rows events s h
  obtain ⟨fs,rfl,hfetched,hnewer,hincreasing⟩ :=
    rounds_publish strtold jsmn pub _ 0 10 s.crawler out hexchange halone
  obtain ⟨gs,hgs,rfl⟩ := List.sublist_map_iff.mp
    (hframes.trans ((List.sublist_append_left _ _).trans hordered))
  have hread := read_all strtold jsmn gs ts (fun g hg => (hnewer g (hgs.subset hg)).1) hreads
  have htimes := read_times strtold gs ts hread
  refine ⟨gs,ts,(hgs.map chunkOf).trans hfetched,hread,hrows,?_,?_,hcounted⟩
  · intro t ht
    have hmem : t.updated ∈ gs.map Response.read := htimes ▸ List.mem_map_of_mem ht
    obtain ⟨g,hg,hgt⟩ := List.mem_map.mp hmem
    exact hgt ▸ (hnewer g (hgs.subset hg)).2
  · have hsome := hincreasing.sublist hgs
    rwa [← List.pairwise_map (f := Response.read) (R := (· < ·)), ← htimes,
      List.pairwise_map] at hsome

end Times

section Samples

def goodRound : Collector.Round ℕ := ⟨.good,.good,filled 0 0,allSucceed⟩

/-- Two of three responses are published. The first of them is stored, and the
second is discarded when the next collector starts, which finds nothing. -/
def threeCollectors : List (Event ℕ) :=
  threeFetches.map (fun f => .crawl f.round true)++[.collect goodRound,.startCollector]++
    List.replicate 20 (.collect goodRound)++[.finish ⟨true,⟨2,0⟩,true⟩,.startCollector]

theorem three_collectors_run : ∃ s,
    run (step leadingDigits (knowing threeFetches) ⟨0,0⟩ ⟨1,0⟩) (start []) threeCollectors =
      some s ∧ s.collectors.collector.db.rows.length = 1 ∧ s.collectors.started = 3 := by
  have hrun : (run (step leadingDigits (knowing threeFetches) ⟨0,0⟩ ⟨1,0⟩) (start [])
      threeCollectors).any (fun s => s.collectors.collector.db.rows.length = 1 ∧
        s.collectors.started = 3) = true := by
    decide +kernel
  simpa [Option.any_eq_true] using hrun

theorem three_collectors_fates :
    (received leadingDigits (knowing threeFetches) ⟨0,0⟩ ⟨1,0⟩ [] threeCollectors).length = 1 ∧
    (discarded leadingDigits (knowing threeFetches) ⟨0,0⟩ ⟨1,0⟩ [] threeCollectors).length = 1 := by
  decide +kernel

theorem three_collectors_in_order : ∃ (s : Sys ℕ) (out : Bus) (ts : List (BtceTicker ℕ)),
    run (step leadingDigits (knowing threeFetches) ⟨0,0⟩ ⟨1,0⟩) (start []) threeCollectors =
      some s ∧
    alone leadingDigits (knowing threeFetches) ⟨0,0⟩ (crawls threeCollectors) =
      some (s.crawler,out) ∧
    received leadingDigits (knowing threeFetches) ⟨0,0⟩ ⟨1,0⟩ [] threeCollectors++s.bus <+ out ∧
    out ~ received leadingDigits (knowing threeFetches) ⟨0,0⟩ ⟨1,0⟩ [] threeCollectors++s.bus++
      (discarded leadingDigits (knowing threeFetches) ⟨0,0⟩ ⟨1,0⟩ [] threeCollectors++
        lost leadingDigits (knowing threeFetches) ⟨0,0⟩ ⟨1,0⟩ [] threeCollectors) ∧
    (received leadingDigits (knowing threeFetches) ⟨0,0⟩ ⟨1,0⟩ [] threeCollectors++s.bus = out ↔
      discarded leadingDigits (knowing threeFetches) ⟨0,0⟩ ⟨1,0⟩ [] threeCollectors = [] ∧
        lost leadingDigits (knowing threeFetches) ⟨0,0⟩ ⟨1,0⟩ [] threeCollectors = []) ∧
    Stored leadingDigits (knowing threeFetches) []
      (received leadingDigits (knowing threeFetches) ⟨0,0⟩ ⟨1,0⟩ [] threeCollectors)
      s.collectors.collector.db ts ∧
    ts.length ≤ s.collectors.started ∧
    (received leadingDigits (knowing threeFetches) ⟨0,0⟩ ⟨1,0⟩ [] threeCollectors).length = 1 ∧
    (discarded leadingDigits (knowing threeFetches) ⟨0,0⟩ ⟨1,0⟩ [] threeCollectors).length = 1 := by
  obtain ⟨s,hrun,-,-⟩ := three_collectors_run
  obtain ⟨out,ts,halone,hordered,haccounted,hall,hstored,hcounted⟩ :=
    pipeline_in_order leadingDigits _ ⟨0,0⟩ ⟨1,0⟩ [] _ s hrun
  obtain ⟨hreceived,hdiscarded⟩ := three_collectors_fates
  exact ⟨s,out,ts,hrun,halone,hordered,haccounted,hall,hstored,hcounted,hreceived,hdiscarded⟩

theorem three_responses : ∀ chunk ∈ chunks (crawls threeCollectors), ∃ g : Response,
    chunk = chunkOf g ∧ Tokenises (knowing threeFetches) g.pairDocument.document := by
  have hknown : ∀ f ∈ threeFetches,
      Tokenises (knowing threeFetches) f.response.pairDocument.document := by
    decide +kernel
  have hchunks : chunks (crawls threeCollectors) =
      threeFetches.map (fun f => chunkOf f.response) := rfl
  intro chunk hchunk
  rw [hchunks] at hchunk
  obtain ⟨f,hf,rfl⟩ := List.mem_map.mp hchunk
  exact ⟨f.response,rfl,hknown f hf⟩

theorem three_collectors_increase : ∃ (s : Sys ℕ) (gs : List Response)
    (ts : List (BtceTicker ℕ)),
    run (step leadingDigits (knowing threeFetches) ⟨0,0⟩ ⟨1,0⟩) (start []) threeCollectors =
      some s ∧
    gs.map chunkOf <+ chunks (crawls threeCollectors) ∧
    List.Forall₂ (ReadFrom leadingDigits) gs ts ∧ ts.length = 1 ∧
    s.collectors.collector.db.rows = ([] : List (Row ℕ))++ts.map tickRow ∧
    (∀ t ∈ ts, 0 < t.updated) ∧ ts.Pairwise (fun t u => t.updated < u.updated) ∧
    ts.length ≤ s.collectors.started := by
  obtain ⟨s,hrun,hrows,-⟩ := three_collectors_run
  obtain ⟨gs,ts,hsub,hread,htable,hpos,hincreasing,hcount⟩ :=
    table_increases leadingDigits (knowing threeFetches) ⟨0,0⟩ ⟨1,0⟩ [] threeCollectors s
      three_responses hrun
  have hone : ts.length = 1 := by simpa [htable] using hrows
  exact ⟨s,gs,ts,hrun,hsub,hread,hone,htable,hpos,hincreasing,hcount⟩

end Samples

end Flip.Pipeline
