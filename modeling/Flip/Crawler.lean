import Flip.ExchangeDoc
import Flip.Nbus
import Flip.Newest

/-!
# The polling loop of the crawler

A round fetches a response, parses it and sends it when its `updated` is above
the one that was sent last. That number is an `int`, so the loop keeps the
order of the responses only as long as their numbers fit.
-/

set_option autoImplicit false

namespace Flip.Crawler
open Flip.CLib Flip.Decimal Flip.Json Flip.Ticker Flip.JsonDoc Flip.TickerDoc Flip.ExchangeDoc
open Flip.Nbus Flip.Newest

structure Round (D : Type) where
  fetched : Except Errno StringCtx
  alloc : TickerAlloc
  mem : BtceTicker D
  sent : Bool

structure Poll where
  updated : Int32
  bus : Bus
  deriving DecidableEq

inductive Halt where
  | exitFailure
  | fault (f : Fault)
  deriving DecidableEq

section Loop

variable {D : Type} [Zero D] (strtold : Buf → D) (jsmn : Jsmn) (nbusCtx : NbusCtx)

/-- The text is looked at after the first two allocations. -/
def parseChunk (r : Round D) (chunk : StringCtx) : Except Fault (Outcome D) :=
  match chunk.data with
  | some json => parseBtcETicker strtold json r.alloc jsmn r.mem
  | none =>
    if !r.alloc.tmpCtx then .ok ⟨.enomem,none,true⟩
    else if !r.alloc.tickerData then .ok ⟨.enomem,none,false⟩
    else .error .nullDeref

def publish (r : Round D) (chunk : StringCtx) (t : BtceTicker D) (s : Poll) : Except Halt Poll :=
  if t.updated > s.updated then
    match nbusSend r.sent (some nbusCtx) chunk.data chunk.size s.bus with
    | .error f => .error (.fault f)
    | .ok (ret,bus) => if ret ≠ .eok then .error .exitFailure else .ok ⟨t.updated,bus⟩
  else .ok s

/-- The body of the loop. A record that the parser did not store leaves
`ticker_data` unset in the first round and NULL in the later ones. -/
def pollBody (r : Round D) (s : Poll) : Except Halt Poll :=
  match r.fetched with
  | .error _ => .error .exitFailure
  | .ok chunk =>
    match parseChunk strtold jsmn r chunk with
    | .error f => .error (.fault f)
    | .ok out =>
      if out.ret ≠ .eok then .error .exitFailure
      else
        match out.tickerData with
        | none => .error (.fault .nullDeref)
        | some t => publish nbusCtx r chunk t s

/-- The loop; `main` does ten rounds. -/
def poll : List (Round D) → Poll → Except Halt Poll
  | [], s => .ok s
  | r::rs, s => (pollBody strtold jsmn nbusCtx r s).bind (poll rs)

def start : Poll := ⟨0,[]⟩

theorem body_reads (r : Crawler.Round D) (s s' : Poll)
    (h : pollBody strtold jsmn nbusCtx r s = .ok s') :
    ∃ json size t released, r.fetched = .ok ⟨some json,size⟩ ∧
      parseBtcETicker strtold json r.alloc jsmn r.mem = .ok ⟨.eok,some t,released⟩ ∧
        publish nbusCtx r ⟨some json,size⟩ t s = .ok s' := by
  rw [pollBody] at h
  cases hfetched : r.fetched with
  | error e =>
    rw [hfetched] at h
    cases h
  | ok chunk =>
    rw [hfetched] at h
    dsimp only at h
    cases hparse : parseChunk strtold jsmn r chunk with
    | error f =>
      rw [hparse] at h
      cases h
    | ok out =>
      rw [hparse] at h
      obtain ⟨ret,tickerData,released⟩ := out
      dsimp only at h
      split_ifs at h with hret
      obtain rfl : ret = .eok := not_not.mp hret
      cases tickerData with
      | none => cases h
      | some t =>
        obtain ⟨data,size⟩ := chunk
        cases data with
        | some json => exact ⟨json,size,t,released,rfl,hparse,h⟩
        | none =>
          simp only [parseChunk] at hparse
          split_ifs at hparse <;> cases hparse

omit [Zero D] in
theorem publish_whole (r : Crawler.Round D) (json : CString) (t : BtceTicker D) (s s' : Poll)
    (h : publish nbusCtx r ⟨some json,tallocArrayLength json⟩ t s = .ok s') :
    s.updated < t.updated ∧ s' = ⟨t.updated,s.bus++[json.memory]⟩ ∨ s' = s := by
  rw [publish] at h
  split_ifs at h with hnewer
  · left
    refine ⟨hnewer,?_⟩
    cases hsent : r.sent with
    | true =>
      rw [hsent, tallocArrayLength] at h
      simp only [send_memory, ne_eq, not_true_eq_false, if_false] at h
      exact (Except.ok.inj h).symm
    | false =>
      rw [hsent] at h
      simp [nbusSend, readMemory, CString.memory, CString.strlen, tallocArrayLength,
        Except.map] at h
  · exact .inr (Except.ok.inj h).symm

end Loop

/-- A document of the exchange with a decimal `updated` that fits `long`. -/
structure Response extends ExchangeDocument where
  stamp : ℕ
  written : ∃ m ∈ members, m.key.text.bytes = Field.updated.key ∧
    m.value.text.bytes = decimal stamp
  fits : (stamp : ℤ) ≤ longMax

def Response.message (r : Response) : Buf := r.text.memory

structure Fetch (D : Type) where
  response : Response
  mem : BtceTicker D

def Fetch.round {D : Type} (f : Fetch D) : Round D where
  fetched := .ok ⟨some f.response.text,tallocArrayLength f.response.text⟩
  alloc := .good
  mem := f.mem
  sent := true

def Fetch.stamp {D : Type} (f : Fetch D) : ℤ := f.response.stamp

def Fetch.message {D : Type} (f : Fetch D) : Buf := f.response.message

def Response.read (r : Response) : Int32 := (Int64.ofInt r.stamp).toInt32

def Fetch.read {D : Type} (f : Fetch D) : Int32 := f.response.read

/-- The messages of the responses with a positive stamp above all stamps
before them. -/
def published {D : Type} (fs : List (Fetch D)) : Bus := (records Fetch.stamp 0 fs).map Fetch.message

theorem read_stamp {D : Type} (f : Fetch D) (h : f.stamp ≤ 2147483647) :
    f.read.toInt = f.stamp := by
  have hpos : (0 : ℤ) ≤ f.stamp := Int.natCast_nonneg _
  rw [Fetch.read, Response.read, Int64.toInt32_ofInt]
  exact Int32.toInt_ofInt_of_le (by unfold Fetch.stamp at hpos; omega)
    (by unfold Fetch.stamp at h; omega)

section Newest

variable {D : Type} [Zero D] (strtold : Buf → D) (jsmn : Jsmn) (nbusCtx : NbusCtx)

def NewestOnly (fs : List (Fetch D)) : Prop :=
  ∃ u, poll strtold jsmn nbusCtx (fs.map Fetch.round) start = .ok ⟨u,published fs⟩

theorem poll_body_fetch (f : Fetch D) (s : Poll)
    (h : Tokenises jsmn f.response.pairDocument.document) :
    pollBody strtold jsmn nbusCtx f.round s =
      .ok (if s.updated < f.read then ⟨f.read,s.bus++[f.message]⟩ else s) := by
  obtain ⟨m,hm,hkey,hvalue⟩ := f.response.written
  obtain ⟨t,hparse,hupdated⟩ := parse_exchange strtold jsmn f.response.toExchangeDocument h m
    f.response.stamp hm hkey hvalue f.response.fits f.mem
  have hread : t.updated = f.read := hupdated
  have hsend := send_memory nbusCtx f.response.text s.bus
  simp only [pollBody, Fetch.round, parseChunk, hparse, ne_eq, not_true_eq_false, if_false,
    publish, hread, gt_iff_lt, tallocArrayLength, hsend]
  split_ifs <;> rfl

theorem poll_fetches (fs : List (Fetch D)) (s : Poll)
    (h : ∀ f ∈ fs, Tokenises jsmn f.response.pairDocument.document) :
    ∃ u, poll strtold jsmn nbusCtx (fs.map Fetch.round) s =
      .ok ⟨u,s.bus++(newest (fun f => f.read.toInt) s.updated.toInt fs).map Fetch.message⟩ := by
  induction fs generalizing s with
  | nil => exact ⟨s.updated,by simp [poll, newest]⟩
  | cons f fs ih =>
    have hbody := poll_body_fetch strtold jsmn nbusCtx f s (h f (by simp))
    have hstep : poll strtold jsmn nbusCtx ((f::fs).map Fetch.round) s =
        poll strtold jsmn nbusCtx (fs.map Fetch.round)
          (if s.updated < f.read then ⟨f.read,s.bus++[f.message]⟩ else s) := by
      rw [List.map_cons, poll, hbody]
      rfl
    rw [hstep, newest]
    simp only [← Int32.lt_iff_toInt_lt]
    split_ifs
    · obtain ⟨u,hu⟩ := ih ⟨f.read,s.bus++[f.message]⟩ (fun g hg => h g (by simp [hg]))
      exact ⟨u,by simpa using hu⟩
    · exact ih s (fun g hg => h g (by simp [hg]))

/-- While the stamps fit an `int` exactly the newer responses are published. -/
theorem poll_newest (fs : List (Fetch D))
    (h : ∀ f ∈ fs, Tokenises jsmn f.response.pairDocument.document)
    (hstamp : ∀ f ∈ fs, f.stamp ≤ 2147483647) :
    NewestOnly strtold jsmn nbusCtx fs ∧
      (records Fetch.stamp 0 fs).Pairwise (fun f g => f.stamp < g.stamp) := by
  obtain ⟨u,hu⟩ := poll_fetches strtold jsmn nbusCtx fs start h
  have hnewest : newest (fun f => f.read.toInt) (0 : ℤ) fs = records Fetch.stamp 0 fs := by
    rw [newest_congr _ Fetch.stamp 0 fs (fun f hf => read_stamp f (hstamp f hf)),
      newest_eq_records]
  refine ⟨⟨u,?_⟩,records_increasing _ _ _⟩
  simpa [start, hnewest, published] using hu

end Newest

section Samples

def stampedMember (n : ℕ) (f : Field) : PrimMember :=
  .bare (fieldRaw f) (decimalPrimitive (if f = .updated then n else 1))

def stampedResponse (n : ℕ) (h : (n : ℤ) ≤ longMax) : Response where
  before := noBlanks
  blanks := noBlanks
  keyBefore := noBlanks
  key := btcUsd
  colonBefore := noBlanks
  colonAfter := noBlanks
  innerBlanks := noBlanks
  members := Field.all.map (stampedMember n)
  valueAfter := noBlanks
  after := noBlanks
  distinct := by
    have h : (Field.all.map (fun f => (fieldRaw f).name)).Nodup := by decide
    exact h
  fields f := ⟨_,List.mem_map_of_mem (mem_all f),rfl⟩
  stamp := n
  written := ⟨_,List.mem_map_of_mem (mem_all .updated),rfl,rfl⟩
  fits := h

def stampedFetch (n : ℕ) (h : (n : ℤ) ≤ longMax) : Fetch ℕ := ⟨stampedResponse n h,filled 0 0⟩

def knowing (fs : List (Fetch ℕ)) : Jsmn :=
  tableJsmn (fs.map (fun f => f.response.pairDocument.document))

def threeFetches : List (Fetch ℕ) :=
  [stampedFetch 1500000005 (by decide),stampedFetch 1500000003 (by decide),
    stampedFetch 1500000007 (by decide)]

theorem newer_two_published :
    NewestOnly leadingDigits (knowing threeFetches) ⟨0,0⟩ threeFetches ∧
      (records Fetch.stamp 0 threeFetches).Pairwise (fun f g => f.stamp < g.stamp) :=
  poll_newest leadingDigits _ _ threeFetches (by decide +kernel) (by decide +kernel)

def wrappingFetch : Fetch ℕ := stampedFetch 2147483648 (by decide)

theorem wrapped_response_dropped :
    Tokenises (knowing [wrappingFetch]) wrappingFetch.response.pairDocument.document ∧
    ¬NewestOnly leadingDigits (knowing [wrappingFetch]) ⟨0,0⟩ [wrappingFetch] := by
  have hjsmn : ∀ f ∈ [wrappingFetch],
      Tokenises (knowing [wrappingFetch]) f.response.pairDocument.document := by
    decide +kernel
  refine ⟨hjsmn _ (by simp),?_⟩
  rintro ⟨u,hu⟩
  obtain ⟨v,hv⟩ := poll_fetches leadingDigits _ ⟨0,0⟩ [wrappingFetch] start hjsmn
  have hbus := congrArg (Except.map Poll.bus) (hu.symm.trans hv)
  have hread : newest (fun f => f.read.toInt) (0 : ℤ) [wrappingFetch] = [] := by decide +kernel
  have hrecord : records Fetch.stamp 0 [wrappingFetch] = [wrappingFetch] := by
    rw [← newest_eq_records]
    exact if_pos (by decide)
  simp [Except.map, published, hrecord, start, hread] at hbus

end Samples

end Flip.Crawler
