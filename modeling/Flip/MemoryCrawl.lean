import Flip.CrawlBlocks
import Flip.MemoryCalls

/-!
# What the crawler never frees

The callback copies each block below the copy before, and the first one below
nothing. The `string_ctx` is handed out and stays the one that the connection
writes to, and what its `data` points at is owned by neither, so that every
block ever copied is still there when the crawler frees all that it has.
-/

set_option autoImplicit false

namespace Flip.Memory
open Flip.CLib Flip.Talloc Flip.Url Flip.CrawlBlocks

structure Conn where
  conn : ℕ
  string : ℕ
  data : Option ℕ
  deriving DecidableEq

def urlInitCtx (ok : InitCall → Bool) (memCtx : Option ℕ) : Mem (Errno × Option Conn) :=
  withTmpCtx (ok .tallocNew) (.enomem,none) fun tmpCtx =>
    if ok .urlConnCtx = false then pure (.enomem,none)
    else do
      let conn ← talloc (some tmpCtx)
      if ok .string = false then pure (.enomem,none)
      else do
        let string ← talloc (some conn)
        if ok .easyInit = false then pure (.eio,none)
        else if ok .setUrl = false then pure (.enoent,none)
        else if ok .setWriteFunction = false then pure (.enoent,none)
        else if ok .setWriteData = false then pure (.enoent,none)
        else if ok .setUserAgent = false then pure (.enoent,none)
        else do
          tallocSteal conn memCtx
          pure (.eok,some ⟨conn,string,none⟩)

/-- The callbacks in order: each copies its block below the one before. -/
def curlEasyPerform : List Delivery → Option ℕ → Mem (Bool × Option ℕ)
  | [], data => pure (true,data)
  | d::ds, data =>
    if d.dup then do
      let data ← talloc data
      curlEasyPerform ds (some data)
    else pure (false,none)

/-- With `EOK` the `string` is handed out. -/
def urlGetData (t : Transfer) (memCtx : Option ℕ) (c : Conn) : Mem (Errno × Conn) :=
  withTmpCtx t.tmpCtx (.enomem,c) fun _ => do
    let (ok,data) ← curlEasyPerform t.blocks c.data
    if ok && t.completes then do
      tallocSteal c.string memCtx
      pure (.eok,{ c with data := data })
    else pure (.enoent,{ c with data := data })

def urlClose (c : Conn) : Mem Errno := do
  tallocFree c.conn
  pure .eok

def transfers (memCtx : Option ℕ) : List Transfer → Conn → Mem (List Errno × Conn)
  | [], c => pure ([],c)
  | t::ts, c => do
    let (ret,c) ← urlGetData t memCtx c
    let (rets,c) ← transfers memCtx ts c
    pure (ret::rets,c)

def download (ok : InitCall → Bool) (ts : List Transfer) (memCtx : Option ℕ) :
    Mem (Errno × List Errno) := do
  let (ret,c) ← urlInitCtx ok memCtx
  match c with
  | none => pure (ret,[])
  | some c => do
    let (rets,c) ← transfers memCtx ts c
    let _ ← urlClose c
    pure (ret,rets)

def copied (t : Transfer) : ℕ := if t.tmpCtx then (t.blocks.takeWhile Delivery.dup).length else 0

theorem copied_all (t : Transfer) (h : transferCode t = .eok) : copied t = t.blocks.length := by
  obtain ⟨htmp,hdup⟩ := transfer_succeeds t h
  rw [copied, if_pos htmp]
  exact congrArg List.length (List.takeWhile_eq_self_iff.mpr hdup)

/-- Blocks that only own each other, and the last one of them or none. -/
structure Blocks (bs : List Chunk) (n : ℕ) (data : Option ℕ) : Prop where
  length : bs.length = n
  owned : SelfOwned bs
  last : Live data bs

def connection (memCtx : Option ℕ) (c : Conn) (given : Bool) (bs cs : List Chunk) : List Chunk :=
  bs++(⟨c.string,if given then memCtx else some c.conn⟩::⟨c.conn,memCtx⟩::cs)

def Fetched (cs : List Chunk) (memCtx : Option ℕ) (t : Transfer) (c : Conn) (given : Bool) (n : ℕ)
    (r : Errno × Conn) (kept : List Chunk) : Prop :=
  r.1 = transferCode t ∧ r.2.conn = c.conn ∧ r.2.string = c.string ∧
    ∃ bs, Blocks bs (n+copied t) r.2.data ∧
      kept = connection memCtx r.2 (given || r.1 = .eok) bs cs

section Connections

theorem connection_perm (cs : List Chunk) (memCtx : Option ℕ) (c : Conn) (given : Bool)
    (bs new : List Chunk) :
    (connection memCtx c given bs (new++cs)).Perm (new++connection memCtx c given bs cs) := by
  apply List.Perm.trans _ (List.perm_append_comm_assoc bs new _)
  exact ((List.perm_middle.symm.cons _).trans List.perm_middle.symm).append_left bs

theorem no_blocks : Blocks [] 0 none :=
  ⟨rfl,fun _ h => absurd h List.not_mem_nil,fun _ h => by cases h⟩

theorem perform_copies (ds : List Delivery) (data : Option ℕ) (bs rest : List Chunk) (n : ℕ)
    (hb : Blocks bs n data) :
    Triple (Has (bs++rest)) (curlEasyPerform ds data) (fun r h =>
      r.1 = ds.all Delivery.dup ∧ ∃ bs', Blocks bs' (n+(ds.takeWhile Delivery.dup).length) r.2 ∧
        Has (bs'++rest) h) := by
  induction ds generalizing data bs n with
  | nil => exact triple_pure _ _ _ (fun h hh => ⟨rfl,bs,hb,hh⟩)
  | cons d ds ih =>
    rw [curlEasyPerform]
    cases hd : d.dup with
    | false =>
      refine triple_pure _ _ _ (fun h hh => ⟨by simp [hd],bs,?_,hh⟩)
      rw [List.takeWhile_cons_of_neg (by simp [hd])]
      exact ⟨hb.length,hb.owned,fun q hq => by cases hq⟩
    | true =>
      have hlive : Live data (bs++rest) := live_left data bs rest hb.last
      apply triple_talloc _ _ _ _ hlive
      intro i _
      have hnew : Blocks (⟨i,data⟩::bs) (n+1) (some i) :=
        ⟨by rw [List.length_cons, hb.length],self_owned_cons _ _ hb.last hb.owned,
          live_cons bs i data⟩
      apply triple_mono _ _ _ _ _ (ih (some i) (⟨i,data⟩::bs) (n+1) hnew) (fun _ hh => hh)
      intro r h hr
      rw [List.takeWhile_cons_of_pos hd, List.length_cons, Nat.add_comm _ 1, ← Nat.add_assoc]
      simpa [hd] using hr

variable (cs : List Chunk) (memCtx : Option ℕ) (hlive : Live memCtx cs) (hcs : SelfOwned cs)

include hlive hcs

theorem self_owned_connection (c : Conn) (given : Bool) (bs : List Chunk) (n : ℕ)
    (data : Option ℕ) (hb : Blocks bs n data) : SelfOwned (connection memCtx c given bs cs) := by
  apply self_owned_append bs _ hb.owned
  apply self_owned_cons
  · cases given with
    | true => exact live_tail _ memCtx _ hlive
    | false => exact live_cons cs c.conn memCtx
  · exact self_owned_cons _ _ hlive hcs

theorem get_data_ends (t : ℕ) (c c' : Conn) (given : Bool) (bs : List Chunk) (n : ℕ)
    (hconn : c'.conn = c.conn) (hstring : c'.string = c.string) (hb : Blocks bs n c'.data)
    (h : Heap)
    (hh : Has (bs++(⟨t,none⟩::⟨c.string,if given then memCtx else some c.conn⟩::
      ⟨c.conn,memCtx⟩::cs)) h) :
    ∃ ds kept, Subtree ⟨t,none⟩ ds ∧ Apart ds kept ∧ Has (ds++kept) h ∧
      kept = connection memCtx c' given bs cs := by
  have hperm : Has ([⟨t,none⟩]++connection memCtx c' given bs cs) h := by
    rw [connection, hconn, hstring]
    exact hh.trans List.perm_middle
  have hself := self_owned_connection cs memCtx hlive hcs c' given bs n c'.data hb
  exact ⟨[⟨t,none⟩],_,subtree_single _,apart_rest _ _ hself (has_closed _ h hperm),hperm,rfl⟩

theorem get_data_copies (t : Transfer) (c : Conn) (given : Bool) (bs : List Chunk) (n : ℕ)
    (hb : Blocks bs n c.data) :
    Triple (Has (connection memCtx c given bs cs)) (urlGetData t memCtx c)
      (fun r h => ∃ kept, Has kept h ∧ Fetched cs memCtx t c given n r kept) := by
  apply triple_tmp_ctx _ t.tmpCtx _ _ (Fetched cs memCtx t c given n)
  · intro htmp
    refine ⟨by simp [transferCode, htmp],rfl,rfl,bs,?_,by simp⟩
    simpa [copied, htmp] using hb
  · intro htmp hclosed tmpCtx hfresh
    have hcopied : copied t = (t.blocks.takeWhile Delivery.dup).length := by simp [copied, htmp]
    apply triple_perm _ (bs++(⟨tmpCtx,none⟩::⟨c.string,if given then memCtx else some c.conn⟩::
      ⟨c.conn,memCtx⟩::cs)) _ _ List.perm_middle.symm
    apply triple_bind _ _ _ _ _ (perform_copies t.blocks c.data bs _ n hb)
    intro r h hr
    obtain ⟨ok,data⟩ := r
    obtain ⟨hok,bs',hb',hh⟩ := hr
    dsimp only at hok ⊢
    by_cases hdone : (ok && t.completes) = true
    · rw [if_pos hdone]
      have hcode : transferCode t = .eok := by simp [transferCode, htmp, ← hok, hdone]
      refine (?_ : Triple (Has _) _ _) h hh
      apply triple_perm _ ([⟨c.string,if given then memCtx else some c.conn⟩]++
        (bs'++(⟨tmpCtx,none⟩::⟨c.conn,memCtx⟩::cs))) _ _
        ((List.Perm.swap _ _ _).append_left bs' |>.trans List.perm_middle)
      apply triple_closed
      intro hall
      have hrest : SelfOwned (bs'++(⟨tmpCtx,none⟩::⟨c.conn,memCtx⟩::cs)) :=
        self_owned_append _ _ hb'.owned (self_owned_cons _ _ (fun q hq => by cases hq)
          (self_owned_cons _ _ hlive hcs))
      apply triple_steal _ _ memCtx _ ⟨c.string,_⟩ _ (subtree_single _) (apart_rest _ _ hrest hall)
        (live_append _ _ _ (live_tail _ _ _ (live_tail _ _ _ hlive)))
      intro _
      rw [List.map_singleton, reown_root]
      apply triple_pure
      intro h hh
      have hback : (⟨c.string,memCtx⟩::(bs'++(⟨tmpCtx,none⟩::⟨c.conn,memCtx⟩::cs))).Perm
          (bs'++(⟨tmpCtx,none⟩::⟨c.string,memCtx⟩::⟨c.conn,memCtx⟩::cs)) :=
        List.perm_middle.symm.trans ((List.Perm.swap _ _ _).append_left bs')
      obtain ⟨ds,kept,hs,hapart,hkeep,heq⟩ := get_data_ends cs memCtx hlive hcs tmpCtx c
        { c with data := data } true bs' _ rfl rfl hb' h (hh.trans hback)
      exact ⟨ds,kept,hs,hapart,hkeep,hcode.symm,rfl,rfl,bs',hcopied ▸ hb',by simpa using heq⟩
    · rw [if_neg hdone]
      have hcode : transferCode t = .enoent := by simp [transferCode, htmp, ← hok, hdone]
      refine triple_pure _ _ _ (fun h hh => ?_) h hh
      obtain ⟨ds,kept,hs,hapart,hkeep,heq⟩ := get_data_ends cs memCtx hlive hcs tmpCtx c
        { c with data := data } given bs' _ rfl rfl hb' h hh
      exact ⟨ds,kept,hs,hapart,hkeep,hcode.symm,rfl,rfl,bs',hcopied ▸ hb',by simpa using heq⟩

def Opened (ret : Errno) (r : Errno × Option Conn) (kept : List Chunk) : Prop :=
  r.1 = ret ∧
    match r.2 with
    | none => ret ≠ .eok ∧ kept = cs
    | some c => ret = .eok ∧ c.data = none ∧ kept = connection memCtx c false [] cs

theorem init_opens (ok : InitCall → Bool) (st : Store) :
    Triple (Has cs) (urlInitCtx ok memCtx) (fun r h => ∃ kept, Has kept h ∧
      Opened cs memCtx (Url.urlInitCtx ok st).1 r kept) := by
  apply triple_tmp_ctx cs (ok .tallocNew) _ _ (Opened cs memCtx (Url.urlInitCtx ok st).1)
  · intro htmp
    simp [Opened, Url.urlInitCtx, htmp]
  · intro htmp hclosed t ht
    have hfail : ∀ ret ds h, (Url.urlInitCtx ok st).1 = ret → ret ≠ .eok → Subtree ⟨t,none⟩ ds →
        Has (ds++cs) h → ∃ ds kept, Subtree ⟨t,none⟩ ds ∧ Apart ds kept ∧ Has (ds++kept) h ∧
          Opened cs memCtx (Url.urlInitCtx ok st).1 (ret,none) kept := by
      intro ret ds h hcode hne hs hh
      have hapart := apart_rest cs ds hclosed.live (has_closed _ h hh)
      exact ⟨ds,cs,hs,hapart,hh,hcode.symm,hcode ▸ hne,rfl⟩
    by_cases hconn : ok .urlConnCtx = false
    · rw [if_pos hconn]
      exact triple_pure _ _ _ (hfail .enomem [⟨t,none⟩] · (by simp [Url.urlInitCtx, htmp, hconn])
        (by decide) (subtree_single _))
    rw [if_neg hconn]
    apply triple_talloc _ _ _ _ (live_cons cs t none)
    intro x hx
    have hx' : Subtree ⟨t,none⟩ [⟨x,some t⟩,⟨t,none⟩] :=
      subtree_cons _ _ _ t (by simp [ids]) rfl (subtree_single _)
    by_cases hstring : ok .string = false
    · rw [if_pos hstring]
      exact triple_pure _ _ _ (hfail .enomem _ · (by simp [Url.urlInitCtx, htmp, hconn, hstring])
        (by decide) hx')
    rw [if_neg hstring]
    apply triple_talloc _ _ _ _ (live_cons _ x (some t))
    intro y hy
    have hy' : Subtree ⟨t,none⟩ [⟨y,some x⟩,⟨x,some t⟩,⟨t,none⟩] :=
      subtree_cons _ _ _ x (by simp [ids]) rfl hx'
    by_cases heasy : ok .easyInit = false
    · rw [if_pos heasy]
      exact triple_pure _ _ _ (hfail .eio _ ·
        (by simp [Url.urlInitCtx, htmp, hconn, hstring, heasy]) (by decide) hy')
    rw [if_neg heasy]
    by_cases hset : ok .setUrl = false ∨ ok .setWriteFunction = false ∨
        ok .setWriteData = false ∨ ok .setUserAgent = false
    · have hcode : (Url.urlInitCtx ok st).1 = .enoent := by
        grind [Url.urlInitCtx]
      have hleave : ∀ x : Mem (Errno × Option Conn), (if ok .setUrl = false then
          pure (.enoent,none) else if ok .setWriteFunction = false then pure (.enoent,none)
          else if ok .setWriteData = false then pure (.enoent,none)
          else if ok .setUserAgent = false then pure (.enoent,none) else x) =
            pure (.enoent,none) := by
        intro x
        rcases hset with h | h | h | h <;> simp only [h] <;> split_ifs <;> rfl
      rw [hleave]
      exact triple_pure _ _ _ (hfail .enoent _ · hcode (by decide) hy')
    simp only [not_or, Bool.not_eq_false] at hset hconn hstring heasy
    obtain ⟨hurl,hfunction,hdata,hagent⟩ := hset
    have hcode : (Url.urlInitCtx ok st).1 = .eok := by
      simp [Url.urlInitCtx, htmp, hconn, hstring, heasy, hurl, hfunction, hdata, hagent]
    simp only [hurl, hfunction, hdata, hagent, Bool.true_eq_false, if_false]
    have hxy : y ≠ x := fun h => hy (h ▸ List.mem_cons_self)
    have htree : Subtree ⟨x,some t⟩ [⟨y,some x⟩,⟨x,some t⟩] :=
      subtree_cons _ _ _ x (by simp [ids]) rfl (subtree_single _)
    apply triple_closed
    intro hall
    apply triple_steal [⟨y,some x⟩,⟨x,some t⟩] (⟨t,none⟩::cs) memCtx _ ⟨x,some t⟩ _ htree
      (apart_given cs [⟨t,none⟩] _ t hclosed (subtree_single _) hall)
      (live_tail _ _ _ hlive)
    intro hnew
    rw [List.map_cons, List.map_singleton, reown_root,
      show reown x memCtx ⟨y,some x⟩ = ⟨y,some x⟩ from if_neg hxy] at hnew ⊢
    apply triple_pure
    intro h hh
    obtain ⟨ds,kept,hs,hapart,hkeep,heq⟩ := get_data_ends cs memCtx hlive hcs t ⟨x,y,none⟩
      ⟨x,y,none⟩ false [] 0 rfl rfl no_blocks h
      (hh.trans (((List.Perm.swap _ _ _).cons _).trans (List.Perm.swap _ _ _)))
    exact ⟨ds,kept,hs,hapart,hkeep,hcode.symm,hcode,rfl,heq⟩

theorem transfers_copy (ts : List Transfer) (c : Conn) (given : Bool) (bs : List Chunk) (n : ℕ)
    (hb : Blocks bs n c.data) :
    Triple (Has (connection memCtx c given bs cs)) (transfers memCtx ts c) (fun r h =>
      r.1 = ts.map transferCode ∧ ∃ bs', Blocks bs' (n+(ts.map copied).sum) r.2.data ∧
        Has (connection memCtx r.2 (given || .eok ∈ r.1) bs' cs) h) := by
  induction ts generalizing c given bs n with
  | nil => exact triple_pure _ _ _ (fun h hh => ⟨rfl,bs,hb,by simpa using hh⟩)
  | cons t ts ih =>
    rw [transfers]
    apply triple_bind _ _ _ _ _ (get_data_copies cs memCtx hlive hcs t c given bs n hb)
    intro r h hr
    obtain ⟨ret,c'⟩ := r
    obtain ⟨kept,hh,hret,-,-,bs',hb',rfl⟩ := hr
    obtain rfl : ret = transferCode t := hret
    refine triple_bind _ _ _ _ _ (ih c' _ bs' _ hb') ?_ h hh
    intro r h hr
    obtain ⟨rets,c'⟩ := r
    obtain ⟨hrets,bs',hb',hh⟩ := hr
    refine triple_pure (Has _) _ _ (fun h hh => ?_) h hh
    refine ⟨congrArg _ hrets,bs',?_,?_⟩
    · rw [List.map_cons, List.sum_cons, ← Nat.add_assoc]
      exact hb'
    · have hgiven : (given || decide (.eok ∈ transferCode t::rets)) =
          ((given || decide (transferCode t = .eok)) || decide (.eok ∈ rets)) := by
        simp only [List.mem_cons, Bool.decide_or, Bool.or_assoc, eq_comm]
      rw [hgiven]
      exact hh

theorem close_leaves {β : Type} (c : Conn) (given : Bool) (bs : List Chunk) (n : ℕ)
    (data : Option ℕ) (hb : Blocks bs n data) (b : β) (Q : β → Heap → Prop)
    (hq : ∀ h, Has (bs++if given then ⟨c.string,memCtx⟩::cs else cs) h → Q b h) :
    Triple (Has (connection memCtx c given bs cs)) (urlClose c >>= fun _ => pure b) Q := by
  have hself : SelfOwned (bs++if given then ⟨c.string,memCtx⟩::cs else cs) := by
    apply self_owned_append _ _ hb.owned
    cases given with
    | true => exact self_owned_cons _ _ hlive hcs
    | false => exact hcs
  have hfree : ∀ ds, Subtree ⟨c.conn,memCtx⟩ ds → (connection memCtx c given bs cs).Perm
      (ds++(bs++if given then ⟨c.string,memCtx⟩::cs else cs)) →
      Triple (Has (connection memCtx c given bs cs)) (urlClose c >>= fun _ => pure b) Q := by
    intro ds hs hperm
    apply triple_perm _ _ _ _ hperm
    rw [urlClose, bind_assoc]
    exact triple_free_made memCtx _ ds c.conn _ _ hs hself (triple_pure _ _ _ hq)
  cases given with
  | true =>
    apply hfree [⟨c.conn,memCtx⟩] (subtree_single _)
    exact ((List.Perm.swap _ _ _).append_left bs).trans List.perm_middle
  | false =>
    apply hfree [⟨c.string,some c.conn⟩,⟨c.conn,memCtx⟩]
      (subtree_cons _ _ _ c.conn (by simp [ids]) rfl (subtree_single _))
    exact List.perm_middle.trans (List.perm_middle.cons _)

/-- After a connection is closed there is a chunk for every block that was
copied, and the `string` exactly when a transfer has succeeded. -/
theorem download_leaves (ok : InitCall → Bool) (st : Store) (ts : List Transfer) :
    Triple (Has cs) (download ok ts memCtx) (fun r h => r.1 = (Url.urlInitCtx ok st).1 ∧
      if r.1 = .eok then r.2 = ts.map transferCode ∧ ∃ bs string, SelfOwned bs ∧
        bs.length = (ts.map copied).sum ∧
          Has (bs++if .eok ∈ r.2 then ⟨string,memCtx⟩::cs else cs) h
      else r.2 = [] ∧ Has cs h) := by
  apply triple_bind _ _ _ _ _ (init_opens cs memCtx hlive hcs ok st)
  intro r h hr
  obtain ⟨ret,c⟩ := r
  obtain ⟨kept,hh,hret,hopened⟩ := hr
  obtain rfl : ret = (Url.urlInitCtx ok st).1 := hret
  cases c with
  | none =>
    obtain ⟨hne,rfl⟩ := hopened
    refine triple_pure (Has _) _ _ (fun h hh => ⟨rfl,?_⟩) h hh
    rw [if_neg hne]
    exact ⟨rfl,hh⟩
  | some c =>
    obtain ⟨hok,hdata,rfl⟩ := hopened
    have hb : Blocks [] 0 c.data := hdata ▸ no_blocks
    refine triple_bind _ _ _ _ _ (transfers_copy cs memCtx hlive hcs ts c false [] 0 hb) ?_ h hh
    intro r h hr
    obtain ⟨rets,c'⟩ := r
    obtain ⟨hrets,bs,hb,hh⟩ := hr
    obtain rfl : rets = ts.map transferCode := hrets
    refine close_leaves cs memCtx hlive hcs c' _ bs _ _ hb _ _ (fun h hh => ⟨rfl,?_⟩) h hh
    rw [if_pos hok]
    refine ⟨rfl,bs,c'.string,hb.owned,by rw [hb.length, Nat.zero_add],?_⟩
    simpa using hh

end Connections

def twoTransfers : List Transfer :=
  [⟨true,[⟨[1],by decide,true⟩,⟨[2],by decide,true⟩],true⟩,⟨true,[⟨[3],by decide,true⟩],false⟩]

theorem two_transfers_leave : ∃ h, download (fun _ => true) twoTransfers none .empty =
    some ((.eok,[.eok,.enoent]),h) ∧ h.chunks.length = 4 := by
  obtain ⟨⟨ret,rets⟩,h,hrun,hret,hend⟩ := download_leaves [] none (fun q hq => by cases hq)
    (fun c hc => absurd hc List.not_mem_nil) (fun _ => true) ⟨fun _ => .zero,0⟩ twoTransfers
    .empty List.Perm.nil
  obtain rfl : ret = .eok := hret
  rw [if_pos rfl] at hend
  obtain ⟨hrets,bs,string,-,hlength,hh⟩ := hend
  obtain rfl : rets = [.eok,.enoent] := hrets
  refine ⟨h,hrun,hh.length_eq.trans ?_⟩
  rw [List.length_append, hlength]
  rfl

section Rounds

open Flip.Json Flip.Ticker Flip.Nbus
open Flip.Crawler (Poll pollBody poll body_reads)

variable {D : Type} [Zero D] (strtold : Buf → D) (jsmn : Jsmn) (nbusCtx : NbusCtx)

def crawlBody (f : Fetch D) (memCtx : Option ℕ) (s : Poll) (m : StringCtx) (c : Conn) :
    Mem (Poll × Conn) := do
  let (ret,c) ← urlGetData f.transfer memCtx c
  if ret ≠ .eok then failure
  else
    match (written f.transfer m).data with
    | none => failure
    | some json => do
      let (ret,tickerData) ← parseBtcETicker strtold json f.alloc jsmn f.mem memCtx
      if ret ≠ .eok then failure
      else
        match tickerData, pollBody strtold jsmn nbusCtx (f.round m) s with
        | some p, .ok s => do
          tallocFree p
          pure (s,c)
        | _, _ => failure

def crawl (memCtx : Option ℕ) : List (Fetch D) → Poll → StringCtx → Conn → Mem (Poll × Conn)
  | [], s, _, c => pure (s,c)
  | f::fs, s, m, c => do
    let (s,c) ← crawlBody strtold jsmn nbusCtx f memCtx s m c
    crawl memCtx fs s (written f.transfer m) c

variable (cs : List Chunk) (memCtx : Option ℕ) (hlive : Live memCtx cs) (hcs : SelfOwned cs)

include hlive hcs

theorem body_leaves (f : Fetch D) (s s' : Poll) (m : StringCtx) (c : Conn) (given : Bool)
    (bs : List Chunk) (n : ℕ) (hb : Blocks bs n c.data)
    (hpoll : pollBody strtold jsmn nbusCtx (f.round m) s = .ok s') :
    Triple (Has (connection memCtx c given bs cs))
      (crawlBody strtold jsmn nbusCtx f memCtx s m c) (fun r h => r.1 = s' ∧ ∃ bs',
        Blocks bs' (n+f.transfer.blocks.length) r.2.data ∧
          Has (connection memCtx r.2 true bs' cs) h) := by
  obtain ⟨json,size,t,released,hfetched,hparse,-⟩ := body_reads strtold jsmn nbusCtx _ s s' hpoll
  have hcode : transferCode f.transfer = .eok := by
    by_contra hne
    rw [Fetch.round, if_neg hne] at hfetched
    cases hfetched
  have hdata : (written f.transfer m).data = some json := by
    rw [Fetch.round, if_pos hcode] at hfetched
    rw [Except.ok.inj hfetched]
  apply triple_bind _ _ _ _ _ (get_data_copies cs memCtx hlive hcs f.transfer c given bs n hb)
  intro r h hr
  obtain ⟨ret,c'⟩ := r
  obtain ⟨kept,hh,hret,hconn,hstring,bs',hb',rfl⟩ := hr
  dsimp only at hret ⊢
  have hbase := has_closed _ h hh
  rw [if_neg (by rw [hret, hcode]; decide), hdata]
  have hgiven : (given || decide (ret = .eok)) = true := by simp [hret, hcode]
  rw [hgiven] at hh hbase
  have hlive' : Live memCtx (connection memCtx c' true bs' cs) :=
    live_append _ _ _ (live_tail _ _ _ (live_tail _ _ _ hlive))
  refine triple_bind _ _ _ _ _ (parse_ticker_keeps strtold json _ memCtx hlive' f.alloc jsmn f.mem
    _ hparse) ?_ h hh
  intro r h hr
  obtain ⟨code,tickerData⟩ := r
  obtain ⟨hok,hsome,hkeep⟩ := hr
  obtain rfl : code = .eok := hok
  obtain ⟨p,rfl⟩ : ∃ p, tickerData = some p := Option.isSome_iff_exists.mp hsome
  dsimp only at hkeep ⊢
  split_ifs at hkeep with hreleased
  · obtain ⟨new,hnew,hh⟩ := hkeep
    rw [if_neg (by decide), hpoll]
    apply triple_free_made memCtx _ new p _ _ hnew hbase.live _ h hh
    exact triple_pure _ _ _ (fun h hh => ⟨rfl,bs',copied_all _ hcode ▸ hb',hh⟩)
  · cases hkeep.1

theorem crawl_leaves (fs : List (Fetch D)) (s s' : Poll) (m : StringCtx) (c : Conn) (given : Bool)
    (bs : List Chunk) (n : ℕ) (hb : Blocks bs n c.data)
    (hpoll : poll strtold jsmn nbusCtx (rounds fs m) s = .ok s') :
    Triple (Has (connection memCtx c given bs cs)) (crawl strtold jsmn nbusCtx memCtx fs s m c)
      (fun r h => r.1 = s' ∧ ∃ bs' given',
        Blocks bs' (n+(fs.map (fun f => f.transfer.blocks.length)).sum) r.2.data ∧
          Has (connection memCtx r.2 given' bs' cs) h) := by
  induction fs generalizing s m c given bs n with
  | nil =>
    cases hpoll
    exact triple_pure _ _ _ (fun h hh => ⟨rfl,bs,given,hb,hh⟩)
  | cons f fs ih =>
    rw [rounds, poll] at hpoll
    obtain ⟨s₁,hbody,hrest⟩ := CBlock.ok_of_bind hpoll
    apply triple_bind _ _ _ _ _ (body_leaves strtold jsmn nbusCtx cs memCtx hlive hcs f s s₁ m c
      given bs n hb hbody)
    intro r h hr
    obtain ⟨s₂,c'⟩ := r
    obtain ⟨rfl,bs',hb',hh⟩ := hr
    apply triple_mono _ _ _ _ _ (ih s₂ (written f.transfer m) c' true bs' _ hb' hrest)
      (fun _ hh => hh) _ h hh
    intro r h hr
    rw [List.map_cons, List.sum_cons, ← Nat.add_assoc]
    exact hr

end Rounds

section Work

open Flip.SocketCount Flip.Json Flip.Ticker Flip.Nbus
open Flip.Crawler (Poll poll)

variable {D : Type} [Zero D] (strtold : Buf → D) (jsmn : Jsmn) (ctx : NbusCtx)

structure Work (D : Type) where
  nbusInitPub : InitOutcome
  url : CString
  urlGlobalInit : Bool
  urlInitCtx : InitCall → Bool
  fetches : List (Fetch D)
  shutdown : Bool
  rootShutdown : Bool

/-- `main` from `nbus_init_pub` on; every exit before its end is a failure. -/
def crawlerWork (w : Work D) (mainCtx rootNbusCtx : ℕ) : Mem Poll := do
  let (_,nbusCtx) ← nbusInitPubsub w.nbusInitPub w.url .pub (some mainCtx)
  if nbusCtx = none ∨ w.urlGlobalInit = false then failure
  else do
    let (_,urlConnCtx) ← urlInitCtx w.urlInitCtx (some mainCtx)
    match urlConnCtx with
    | none => failure
    | some c => do
      let (s,_) ← crawl strtold jsmn ctx (some mainCtx) w.fetches Crawler.start .zero c
      let ret ← nbusClose w.shutdown nbusCtx
      if ret ≠ .eok then failure
      else do
        let _ ← nbusClose w.rootShutdown (some rootNbusCtx)
        tallocFree mainCtx
        pure s

open Flip.SocketCount in
theorem nbus_close_either {β : Type} (shutdown : Bool) (p : ℕ) (memCtx : Option ℕ)
    (cs : List Chunk) (hcs : SelfOwned cs) (f : Errno → Mem β) (Q : β → Heap → Prop)
    (hkept : Triple (Has (⟨p,memCtx⟩::cs)) (f .enoent) Q) (hfreed : Triple (Has cs) (f .eok) Q) :
    Triple (Has (⟨p,memCtx⟩::cs)) (nbusClose shutdown (some p) >>= f) Q := by
  cases shutdown with
  | false => exact hkept
  | true =>
    rw [nbusClose, if_pos rfl, bind_assoc]
    exact triple_free_made memCtx cs [⟨p,memCtx⟩] p _ Q (subtree_single _) hcs hfreed

theorem free_main_leaves {α : Type} (rest : List Chunk) (hrest : SelfOwned rest) (mainCtx : ℕ)
    (owner : Option ℕ) (ds : List Chunk) (hds : Subtree ⟨mainCtx,owner⟩ ds) (c : Conn)
    (given : Bool) (bs : List Chunk) (n : ℕ) (hb : Blocks bs n c.data) (a : α) :
    Triple (Has (connection (some mainCtx) c given bs (ds++rest)))
      (tallocFree mainCtx >>= fun _ => pure a) (fun r h => r = a ∧ ∃ bs,
        SelfOwned bs ∧ bs.length = n ∧ Has (bs++rest) h) := by
  have hconn := subtree_cons _ ds ⟨c.conn,some mainCtx⟩ mainCtx (subtree_mem _ ds hds) rfl hds
  have hall : Subtree ⟨mainCtx,owner⟩ (⟨c.string,if given then some mainCtx else some c.conn⟩::
      ⟨c.conn,some mainCtx⟩::ds) := by
    cases given with
    | true => exact subtree_cons _ _ _ mainCtx (subtree_mem _ _ hconn) rfl hconn
    | false => exact subtree_cons _ _ _ c.conn (by simp [ids]) rfl hconn
  apply triple_perm _ _ _ _ (List.perm_append_comm_assoc bs (_::_::ds) rest)
  apply triple_free_made owner _ _ mainCtx _ _ hall (self_owned_append bs rest hb.owned hrest)
  exact triple_pure _ _ _ (fun h hh => ⟨rfl,bs,hb.owned,hb.length,hh⟩)

/-- When all goes well every block that was delivered is still there after
`main_ctx` is gone, whatever owns that. -/
theorem work_leaves (w : Work D) (mainCtx rootNbusCtx : ℕ) (owner : Option ℕ)
    (ms rest : List Chunk) (s : Poll) (p p' : Process) (hmain : Subtree ⟨mainCtx,owner⟩ ms)
    (howner : Live owner rest) (hrest : SelfOwned rest)
    (hbus : SocketCount.nbusInitPub w.nbusInitPub w.url p = .ok (.eok,p'))
    (hurl : w.urlGlobalInit = true) (hinit : ∀ call, w.urlInitCtx call = true)
    (hpoll : poll strtold jsmn ctx (rounds w.fetches .zero) Crawler.start = .ok s)
    (hshutdown : w.shutdown = true) :
    Triple (Has (⟨rootNbusCtx,some mainCtx⟩::(ms++rest)))
      (crawlerWork strtold jsmn ctx w mainCtx rootNbusCtx) (fun r h => r = s ∧ ∃ bs,
        SelfOwned bs ∧ bs.length = (w.fetches.map (fun f => f.transfer.blocks.length)).sum ∧
          Has (bs++rest) h) := by
  apply triple_closed
  intro hbase
  have hmainlive : Live (some mainCtx) (ms++rest) :=
    live_left _ ms rest (live_some mainCtx ms (subtree_mem _ ms hmain))
  have hlive : Live (some mainCtx) (⟨rootNbusCtx,some mainCtx⟩::(ms++rest)) :=
    live_tail _ _ _ hmainlive
  have hms : SelfOwned (ms++rest) :=
    self_owned_subtree rest ms mainCtx owner hmain howner hrest
  apply triple_bind _ _ _ _ _ (init_pubsub_tidy _ (some mainCtx) hlive w.nbusInitPub w.url .pub p
    p' .eok hbus)
  intro r h hr
  obtain ⟨ret,nbusCtx⟩ := r
  obtain ⟨⟨-,hsome⟩,htidy⟩ := hr
  obtain ⟨nb,rfl⟩ : ∃ nb, nbusCtx = some nb := Option.isSome_iff_exists.mp (hsome rfl)
  obtain ⟨new,hnew,hh⟩ := htidy
  have hnewbase := (has_closed _ h hh).live
  have hlive' := live_append (some mainCtx) _ new hlive
  dsimp only
  rw [if_neg (by simp [hurl])]
  refine triple_bind _ _ _ _ _ (init_opens _ (some mainCtx) hlive' hnewbase w.urlInitCtx
    ⟨fun _ => .zero,0⟩) ?_ h hh
  intro r h hr
  obtain ⟨ret,c⟩ := r
  obtain ⟨kept,hh,-,hopened⟩ := hr
  have hcode : (Url.urlInitCtx w.urlInitCtx ⟨fun _ => .zero,0⟩).1 = .eok := by
    simp [Url.urlInitCtx, hinit]
  cases c with
  | none => exact absurd hcode hopened.1
  | some c =>
    obtain ⟨-,hdata,rfl⟩ := hopened
    have hb : Blocks [] 0 c.data := hdata ▸ no_blocks
    refine triple_bind _ _ _ _ _ (crawl_leaves strtold jsmn ctx _ (some mainCtx) hlive' hnewbase
      w.fetches Crawler.start s .zero c false [] 0 hb hpoll) ?_ h hh
    intro r h hr
    obtain ⟨s',c'⟩ := r
    obtain ⟨rfl,bs,given,hb,hh⟩ := hr
    rw [Nat.zero_add] at hb
    have hself : ∀ cs, SelfOwned cs → Live (some mainCtx) cs →
        SelfOwned (connection (some mainCtx) c' given bs cs) :=
      fun cs hcs hlive => self_owned_connection cs _ hlive hcs c' given bs _ _ hb
    apply triple_perm _ _ _ _ (connection_perm _ _ c' given bs new) _ h hh
    rw [hshutdown, show nbusClose true (some nb) = (do tallocFree nb; pure .eok) from rfl,
      bind_assoc]
    apply triple_free_made (some mainCtx) _ new nb _ _ hnew (hself _ hbase.live hlive)
    rw [pure_bind, if_neg (by decide)]
    apply triple_perm _ _ _ _
      (connection_perm (ms++rest) _ c' given bs [⟨rootNbusCtx,some mainCtx⟩])
    apply nbus_close_either _ _ _ _ (hself _ hms hmainlive)
    · apply triple_perm _ _ _ _ (connection_perm (ms++rest) _ c' given bs [⟨rootNbusCtx,_⟩]).symm
      exact free_main_leaves rest hrest mainCtx owner (⟨rootNbusCtx,some mainCtx⟩::ms)
        (subtree_cons _ _ _ mainCtx (subtree_mem _ ms hmain) rfl hmain) c' given bs _ hb s'
    · exact free_main_leaves rest hrest mainCtx owner ms hmain c' given bs _ hb s'

end Work

section Samples

open Flip.Crawler (knowing threeFetches)
open Flip.FileFromUrl Flip.Nbus Flip.TickerDoc

def oneFetch : Work ℕ where
  nbusInitPub := .good
  url := ipcUrl slash
  urlGlobalInit := true
  urlInitCtx _ := true
  fetches := [lateFetch]
  shutdown := true
  rootShutdown := true

def mainMemory : Heap :=
  (Heap.single.push (some 0) (live_some 0 _ List.mem_cons_self)).push (some 1)
    (live_some 1 _ List.mem_cons_self)

theorem one_fetch_leaves : ∃ s h,
    crawlerWork leadingDigits (knowing threeFetches) ⟨0,0⟩ oneFetch 1 2 mainMemory = some (s,h) ∧
      s.bus.length = 1 ∧ h.chunks.length = 3 := by
  obtain ⟨s,hpoll,hone⟩ := late_polls
  obtain ⟨s,h,hrun,rfl,bs,-,hlength,hh⟩ := work_leaves leadingDigits (knowing threeFetches) ⟨0,0⟩
    oneFetch 1 2 (some 0) [⟨1,some 0⟩] [⟨0,none⟩] _ SocketCount.start _ (subtree_single _)
    (live_some 0 _ List.mem_cons_self)
    (self_owned_cons _ _ (fun q hq => by cases hq) (fun c hc => absurd hc List.not_mem_nil))
    rfl rfl (fun _ => rfl) hpoll rfl mainMemory (List.Perm.refl _)
  refine ⟨s,h,hrun,hone,hh.length_eq.trans ?_⟩
  rw [List.length_append, hlength]
  rfl

end Samples

end Flip.Memory
