import Flip.BusHops
import Flip.CBlock
import Flip.Crawler
import Flip.Url

/-!
# What the crawler publishes of a body in blocks

The callback keeps the last block alone. A round of the crawler therefore
parses the last block that has come in so far, in this transfer or an earlier
one, and what it publishes is that block and nothing of the others.
-/

set_option autoImplicit false

namespace Flip.CrawlBlocks
open Flip.CLib Flip.Json Flip.Ticker Flip.Nbus Flip.Url
open Flip.Crawler (Poll start parseChunk publish pollBody poll body_reads publish_whole)
open scoped List

def transferCode (t : Transfer) : Errno :=
  if t.tmpCtx = false then .enomem
  else if t.blocks.all Delivery.dup && t.completes then .eok else .enoent

def written (t : Transfer) (m : StringCtx) : StringCtx :=
  if t.tmpCtx then (curlEasyPerform t.blocks m).2 else m

structure Fetch (D : Type) where
  transfer : Transfer
  alloc : TickerAlloc
  mem : BtceTicker D
  sent : Bool

section Transfers

theorem perform_code (ds : List Delivery) (m : StringCtx) :
    (curlEasyPerform ds m).1 = ds.all Delivery.dup := by
  induction ds generalizing m with
  | nil => rfl
  | cons d ds ih =>
    rw [curlEasyPerform]
    cases hd : d.dup with
    | true =>
      rw [← hd, callback_stores d m hd, if_pos rfl, ih, List.all_cons, hd, Bool.true_and]
    | false =>
      have hne : ¬0 = d.contents.length := by simpa [eq_comm] using d.nonempty
      simp [writeMemoryCallback, hd, d.nonempty, hne]

theorem get_data_written (c : UrlConnCtx) (t : Transfer) (st : Store) :
    (urlGetData c t st).1 = transferCode t ∧
      (urlGetData c t st).2.2.cells c.writeData = written t (st.cells c.writeData) := by
  rw [transferCode, written, ← perform_code t.blocks (st.cells c.writeData)]
  simp only [urlGetData]
  cases t.tmpCtx with
  | false => exact ⟨rfl,rfl⟩
  | true =>
    simp only [Bool.not_true, Bool.false_eq_true, Bool.true_eq_false, if_false, if_true]
    split_ifs <;> simp [Store.update]

theorem transfer_succeeds (t : Transfer) (h : transferCode t = .eok) :
    t.tmpCtx = true ∧ ∀ d ∈ t.blocks, d.dup = true := by
  simp only [transferCode] at h
  split_ifs at h with htmp hall
  simp only [Bool.and_eq_true, List.all_eq_true] at hall
  exact ⟨by simpa using htmp,hall.1⟩

end Transfers

section Rounds

variable {D : Type}

def Fetch.round (f : Fetch D) (m : StringCtx) : Crawler.Round D where
  fetched := if transferCode f.transfer = .eok then .ok (written f.transfer m)
    else .error (transferCode f.transfer)
  alloc := f.alloc
  mem := f.mem
  sent := f.sent

def rounds : List (Fetch D) → StringCtx → List (Crawler.Round D)
  | [], _ => []
  | f::fs, m => f.round m::rounds fs (written f.transfer m)

/-- What the `string` holds when this was the last block. -/
def held : Option Delivery → StringCtx
  | none => .zero
  | some d => stored d

def lastBlocks : Option Delivery → List (Fetch D) → List (Option Delivery)
  | _, [] => []
  | last, f::fs =>
    f.transfer.blocks.getLast?.or last::lastBlocks (f.transfer.blocks.getLast?.or last) fs

structure Frame (D : Type) where
  block : Delivery
  ticker : BtceTicker D

def Frame.text (p : Frame D) : CString :=
  tallocStrndup p.block.contents p.block.contents.length

theorem written_held (t : Transfer) (last : Option Delivery) (h : transferCode t = .eok) :
    written t (held last) = held (t.blocks.getLast?.or last) := by
  obtain ⟨htmp,hdup⟩ := transfer_succeeds t h
  rw [written, if_pos htmp, perform_left t.blocks _ hdup, left]
  cases t.blocks.getLast? <;> rfl

variable [Zero D] (strtold : Buf → D) (jsmn : Jsmn) (nbusCtx : NbusCtx)

def Frame.Read (p : Frame D) : Prop :=
  ∃ alloc mem released,
    parseBtcETicker strtold p.text alloc jsmn mem = .ok ⟨.eok,some p.ticker,released⟩

theorem round_publishes (f : Fetch D) (last : Option Delivery) (s s' : Poll)
    (h : pollBody strtold jsmn nbusCtx (f.round (held last)) s = .ok s') :
    transferCode f.transfer = .eok ∧
      (s' = s ∨ ∃ p : Frame D, f.transfer.blocks.getLast?.or last = some p.block ∧
        p.Read strtold jsmn ∧ s.updated < p.ticker.updated ∧
          s' = ⟨p.ticker.updated,s.bus++[p.text.memory]⟩) := by
  obtain ⟨json,size,t,released,hfetched,hparse,hpublish⟩ := body_reads strtold jsmn nbusCtx _ s s' h
  have hcode : transferCode f.transfer = .eok := by
    by_contra hne
    rw [Fetch.round, if_neg hne] at hfetched
    cases hfetched
  refine ⟨hcode,?_⟩
  rw [Fetch.round, if_pos hcode, written_held f.transfer last hcode] at hfetched
  cases hlast : f.transfer.blocks.getLast?.or last with
  | none =>
    rw [hlast] at hfetched
    cases Except.ok.inj hfetched
  | some d =>
    rw [hlast] at hfetched
    cases Except.ok.inj hfetched
    rcases publish_whole nbusCtx _ _ t s s' hpublish with ⟨hnewer,hs⟩ | hs
    · exact .inr ⟨⟨d,t⟩,rfl,⟨_,_,released,hparse⟩,hnewer,hs⟩
    · exact .inl hs

theorem rounds_publish (fs : List (Fetch D)) (last : Option Delivery) (s s' : Poll)
    (h : poll strtold jsmn nbusCtx (rounds fs (held last)) s = .ok s') :
    ∃ ps : List (Frame D), s'.bus = s.bus++ps.map (fun p => p.text.memory) ∧
      ps.map (fun p => some p.block) <+ lastBlocks last fs ∧
      (∀ p ∈ ps, p.Read strtold jsmn ∧ s.updated < p.ticker.updated) ∧
      ps.Pairwise (fun p q => p.ticker.updated < q.ticker.updated) := by
  induction fs generalizing last s with
  | nil =>
    cases h
    exact ⟨[],by simp,by simp [lastBlocks],by simp,List.Pairwise.nil⟩
  | cons f fs ih =>
    rw [rounds, poll] at h
    obtain ⟨s₁,hbody,hrest⟩ := CBlock.ok_of_bind h
    obtain ⟨hcode,hstep⟩ := round_publishes strtold jsmn nbusCtx f last s s₁ hbody
    rw [written_held f.transfer last hcode] at hrest
    obtain ⟨ps,hbus,hsub,hread,hincreasing⟩ := ih _ s₁ hrest
    rcases hstep with rfl | ⟨p,hblock,hp,hnewer,rfl⟩
    · exact ⟨ps,hbus,hsub.cons _,hread,hincreasing⟩
    · refine ⟨p::ps,?_,?_,?_,?_⟩
      · rw [hbus, List.map_cons, List.append_assoc, List.singleton_append]
      · rw [List.map_cons, lastBlocks, hblock]
        rw [hblock] at hsub
        exact hsub.cons_cons _
      · intro q hq
        rcases List.mem_cons.mp hq with rfl | hq
        · exact ⟨hp,hnewer⟩
        · exact ⟨(hread q hq).1,Int32.lt_trans hnewer (hread q hq).2⟩
      · exact List.pairwise_cons.mpr ⟨fun q hq => (hread q hq).2,hincreasing⟩

/-- Whatever the transfers bring, each frame on the bus is the last block that
had arrived in its round, cut at its first NUL and with a terminator; at most
one for a round and in their order. It was read as a ticker and is newer than
all frames before it. -/
theorem frames_published (fs : List (Fetch D)) (s : Poll)
    (h : poll strtold jsmn nbusCtx (rounds fs .zero) start = .ok s) :
    ∃ ps : List (Frame D), s.bus = ps.map (fun p => p.text.memory) ∧
      ps.map (fun p => some p.block) <+ lastBlocks none fs ∧
      (∀ p ∈ ps, p.Read strtold jsmn ∧ 0 < p.ticker.updated) ∧
      ps.Pairwise (fun p q => p.ticker.updated < q.ticker.updated) := by
  obtain ⟨ps,hbus,hrest⟩ := rounds_publish strtold jsmn nbusCtx fs none start s h
  exact ⟨ps,by simpa [start] using hbus,hrest⟩

end Rounds

section Samples

open Flip.Crawler (stampedResponse stampedFetch knowing threeFetches poll_fetches)
open Flip.TickerDoc (filled)

theorem late_fits : ((1500000005 : ℕ) : ℤ) ≤ longMax := by decide

def lateResponse : Crawler.Response := stampedResponse 1500000005 late_fits

def lateText : Transfer where
  tmpCtx := true
  blocks := [⟨[0x7b],by decide,true⟩,⟨lateResponse.text.bytes,by decide +kernel,true⟩]
  completes := true

def lateFetch : Fetch ℕ := ⟨lateText,.good,filled 0 0,true⟩

theorem late_round :
    rounds [lateFetch] .zero = [stampedFetch 1500000005 late_fits].map Crawler.Fetch.round := by
  have hwritten : written lateText .zero = BusHops.counted lateResponse.text := by
    rw [written, show lateText.tmpCtx = true from rfl, if_pos rfl,
      perform_left lateText.blocks .zero (by simp [lateText])]
    exact congrArg BusHops.counted (BusHops.strndup_bytes _)
  simp only [rounds, lateFetch, Fetch.round, hwritten]
  rfl

theorem late_polls : ∃ s, poll TickerDoc.leadingDigits (knowing threeFetches) ⟨0,0⟩
    (rounds [lateFetch] .zero) start = .ok s ∧ s.bus.length = 1 := by
  have hjsmn : ∀ f ∈ [stampedFetch 1500000005 late_fits],
      JsonDoc.Tokenises (knowing threeFetches) f.response.pairDocument.document := by
    decide +kernel
  obtain ⟨u,hpoll⟩ := poll_fetches TickerDoc.leadingDigits (knowing threeFetches) ⟨0,0⟩ _ start
    hjsmn
  rw [← late_round] at hpoll
  refine ⟨_,hpoll,?_⟩
  rw [List.length_append, List.length_map]
  decide +kernel

theorem late_text_published : ∃ ps : List (Frame ℕ), ps.length = 1 ∧
    ps.map (fun p => some p.block) <+ [lateText.blocks.getLast?] ∧
    (∀ p ∈ ps, p.Read TickerDoc.leadingDigits (knowing threeFetches) ∧ 0 < p.ticker.updated) ∧
    ps.Pairwise (fun p q => p.ticker.updated < q.ticker.updated) := by
  obtain ⟨s,hpoll,hone⟩ := late_polls
  obtain ⟨ps,hbus,hrest⟩ := frames_published TickerDoc.leadingDigits (knowing threeFetches) ⟨0,0⟩
    [lateFetch] s hpoll
  rw [hbus, List.length_map] at hone
  exact ⟨ps,hone,hrest⟩

end Samples

end Flip.CrawlBlocks
