import Flip.Memory
import Flip.TickerBounds

/-!
# No call leaks but one

Apart from the parser of tickers every function that works below a temporary
context leaves the memory as it was, or with its result in it. The parser
leaves before its cleanup when one of two allocations fails.
-/

set_option autoImplicit false

namespace Flip.Memory
open Flip.CLib Flip.Talloc

section Parser

open Flip.Json Flip.Ticker

variable {D : Type} [Zero D] (strtold : Buf → D) (json : CString)

def done (tmpCtx : ℕ) (r : Errno × Option ℕ) : Call := do
  tallocFree tmpCtx
  pure r

/-- A token that is not there ends the program. -/
def readTicker (a : TickerAlloc) (mem : BtceTicker D) (memCtx : Option ℕ)
    (tmpCtx tickerData : ℕ) : List JsmnTok → Call
  | [] => failure
  | root::tokens =>
    if root.type ≠ .object then done tmpCtx (.einval,none)
    else
      match tokens with
      | [] => failure
      | key::tokens =>
        if key.type ≠ .string then done tmpCtx (.einval,none)
        else if a.pair = false then pure (.eok,none)
        else do
          strdup true tickerData
          match readTokens strtold json 2 tokens
            { mem with pair := tallocStrndup (textFrom json key.start) (key.stop-key.start) } with
          | .error _ => failure
          | .ok _ => do
            tallocSteal tickerData memCtx
            done tmpCtx (.eok,some tickerData)

def parseBtcETicker (a : TickerAlloc) (jsmn : Jsmn) (mem : BtceTicker D)
    (memCtx : Option ℕ) : Call :=
  if a.tmpCtx = false then pure (.enomem,none)
  else do
    let tmpCtx ← talloc none
    if a.tickerData = false then pure (.enomem,none)
    else do
      let tickerData ← talloc (some tmpCtx)
      match getJsonTokenCount jsmn json with
      | .error e => done tmpCtx (e,none)
      | .ok n =>
        if a.tokens = false then done tmpCtx (.enomem,none)
        else do
          let _ ← talloc (some tmpCtx)
          let parsed := jsmn.parse json.bytes n
          if parsed.1 < 0 then done tmpCtx (jsmnError parsed.1,none)
          else if parsed.1 ≠ n then done tmpCtx (.einval,none)
          else readTicker strtold json a mem memCtx tmpCtx tickerData (parsed.2.take n)

def TickerKeeps (memCtx : Option ℕ) (cs : List Chunk) (out : Outcome D) (r : Errno × Option ℕ)
    (h : Heap) : Prop :=
  r.1 = out.ret ∧ r.2.isSome = out.tickerData.isSome ∧
    if out.released then Tidy memCtx cs r.2 h
    else r.2 = none ∧ ∃ t left, Subtree ⟨t,none⟩ left ∧ Has (left++cs) h

variable (cs : List Chunk) (memCtx : Option ℕ) (hlive : Live memCtx cs)

omit [Zero D] in
theorem done_keeps (hcs : Closed cs) (t : ℕ) (ds : List Chunk) (out : Outcome D) (ret : Errno)
    (hs : Subtree ⟨t,none⟩ ds) (hout : out = ⟨ret,none,true⟩) :
    Triple (Has (ds++cs)) (done t (ret,none)) (TickerKeeps memCtx cs out) := by
  subst hout
  apply triple_closed
  intro hall
  exact triple_free_pure ds cs _ ⟨t,none⟩ _ hs (apart_rest cs ds hcs.live hall)
    (fun h hh => ⟨rfl,rfl,hh⟩)

include hlive in
omit [Zero D] in
theorem steal_done_keeps (hcs : Closed cs) (t x : ℕ) (xs ds : List Chunk) (out : Outcome D)
    (ticker : BtceTicker D) (hxs : Subtree ⟨x,some t⟩ xs) (hds : Subtree ⟨t,none⟩ ds)
    (hout : out = ⟨.eok,some ticker,true⟩) :
    Triple (Has (xs++(ds++cs)))
      (tallocSteal x memCtx >>= fun _ => done t (.eok,some x)) (TickerKeeps memCtx cs out) := by
  subst hout
  apply triple_closed
  intro hall
  apply triple_steal xs (ds++cs) memCtx _ ⟨x,some t⟩ _ hxs
    (apart_given cs ds xs t hcs hds hall) (live_append memCtx cs ds hlive)
  intro hnew
  generalize xs.map (reown x memCtx) = new at hnew ⊢
  apply triple_perm _ (ds++(new++cs))
  · rw [← List.append_assoc, ← List.append_assoc]
    exact List.perm_append_comm.append_right cs
  · apply triple_closed
    intro hall
    exact triple_free_pure ds (new++cs) _ ⟨t,none⟩ _ hds
      (apart_kept memCtx cs ds new x hcs hlive hnew hall) (fun h hh => ⟨rfl,rfl,new,hnew,hh⟩)

include hlive in
theorem read_ticker_keeps (hcs : Closed cs) (a : TickerAlloc) (mem : BtceTicker D) (t x : ℕ)
    (ds : List Chunk) (hds : Subtree ⟨t,none⟩ ds) (tokens : List JsmnTok) (out : Outcome D)
    (hf : Ticker.readTicker strtold json a mem tokens = .ok out) :
    Triple (Has ([⟨x,some t⟩]++(ds++cs))) (readTicker strtold json a mem memCtx t x tokens)
      (TickerKeeps memCtx cs out) := by
  have htree : Subtree ⟨t,none⟩ ([⟨x,some t⟩]++ds) :=
    subtree_append _ [⟨x,some t⟩] ds x t (subtree_single _) (subtree_mem _ ds hds) hds
  cases tokens with
  | nil => cases hf
  | cons root tokens =>
    rw [Ticker.readTicker.eq_def] at hf
    rw [readTicker.eq_def]
    dsimp only at hf ⊢
    by_cases hroot : root.type ≠ .object
    · rw [if_pos hroot] at hf ⊢
      cases hf
      exact done_keeps cs memCtx hcs t _ _ .einval htree rfl
    rw [if_neg hroot] at hf ⊢
    cases tokens with
    | nil => cases hf
    | cons key tokens =>
      dsimp only at hf ⊢
      by_cases hkey : key.type ≠ .string
      · rw [if_pos hkey] at hf ⊢
        cases hf
        exact done_keeps cs memCtx hcs t _ _ .einval htree rfl
      rw [if_neg hkey] at hf ⊢
      cases hpair : a.pair with
      | false =>
        rw [hpair] at hf
        cases hf
        apply triple_pure
        intro h hh
        refine ⟨rfl,rfl,rfl,t,_,htree,?_⟩
        rw [List.append_assoc]
        exact hh
      | true =>
        rw [hpair] at hf
        simp only [Bool.not_true, Bool.false_eq_true, if_false, Bool.true_eq_false] at hf ⊢
        apply triple_strdup (ds++cs) true x ⟨x,some t⟩ [⟨x,some t⟩] _ _ (by simp [ids])
          (subtree_single _)
        intro xs hxs _
        cases hread : readTokens strtold json 2 tokens
            { mem with pair := tallocStrndup (textFrom json key.start) (key.stop-key.start) } with
        | error f =>
          rw [hread] at hf
          cases hf
        | ok ticker =>
          rw [hread] at hf
          cases hf
          exact steal_done_keeps cs memCtx hlive hcs t x xs ds _ ticker hxs hds rfl

include hlive in
theorem parse_ticker_keeps (a : TickerAlloc) (jsmn : Jsmn) (mem : BtceTicker D) (out : Outcome D)
    (hf : Ticker.parseBtcETicker strtold json a jsmn mem = .ok out) :
    Triple (Has cs) (parseBtcETicker strtold json a jsmn mem memCtx)
      (TickerKeeps memCtx cs out) := by
  apply triple_closed
  intro hcs
  rw [Ticker.parseBtcETicker] at hf
  rw [parseBtcETicker]
  cases htmp : a.tmpCtx with
  | false =>
    rw [htmp] at hf
    cases hf
    exact triple_pure _ _ _ (fun h hh => ⟨rfl,rfl,hh⟩)
  | true =>
    rw [htmp] at hf
    simp only [Bool.not_true, Bool.false_eq_true, if_false, Bool.true_eq_false] at hf ⊢
    apply triple_talloc _ none _ _ (fun q hq => by cases hq)
    intro t ht
    cases hdata : a.tickerData with
    | false =>
      rw [hdata] at hf
      cases hf
      exact triple_pure _ _ _ (fun h hh => ⟨rfl,rfl,rfl,t,[⟨t,none⟩],subtree_single _,hh⟩)
    | true =>
      rw [hdata] at hf
      simp only [Bool.not_true, Bool.false_eq_true, if_false, Bool.true_eq_false] at hf ⊢
      apply triple_talloc _ _ _ _ (live_cons cs t none)
      intro x hx
      have htree : Subtree ⟨t,none⟩ [⟨x,some t⟩,⟨t,none⟩] :=
        subtree_cons _ _ _ t (by simp [ids]) rfl (subtree_single _)
      cases hcount : getJsonTokenCount jsmn json with
      | error e =>
        rw [hcount] at hf
        cases hf
        exact done_keeps cs memCtx hcs t [⟨x,some t⟩,⟨t,none⟩] _ e htree rfl
      | ok n =>
        rw [hcount] at hf
        dsimp only at hf ⊢
        cases htokens : a.tokens with
        | false =>
          rw [htokens] at hf
          cases hf
          exact done_keeps cs memCtx hcs t [⟨x,some t⟩,⟨t,none⟩] _ .enomem htree rfl
        | true =>
          rw [htokens] at hf
          simp only [Bool.not_true, Bool.false_eq_true, if_false, Bool.true_eq_false] at hf ⊢
          have htmpCtx : Live (some t) ([⟨x,some t⟩]++(⟨t,none⟩::cs)) :=
            live_append (some t) _ [⟨x,some t⟩] (live_cons cs t none)
          apply triple_talloc _ _ _ _ htmpCtx
          intro k _
          have hks : Subtree ⟨t,none⟩ [⟨k,some t⟩,⟨t,none⟩] :=
            subtree_cons _ _ _ t (by simp [ids]) rfl (subtree_single _)
          apply triple_perm _ ([⟨x,some t⟩]++([⟨k,some t⟩,⟨t,none⟩]++cs)) _ _
            (List.Perm.swap _ _ _)
          have hall : Subtree ⟨t,none⟩ [⟨x,some t⟩,⟨k,some t⟩,⟨t,none⟩] :=
            subtree_cons _ _ _ t (by simp [ids]) rfl hks
          by_cases hneg : (jsmn.parse json.bytes n).1 < 0
          · rw [if_pos hneg] at hf ⊢
            cases hf
            exact done_keeps cs memCtx hcs t _ _ _ hall rfl
          rw [if_neg hneg] at hf ⊢
          by_cases hn : (jsmn.parse json.bytes n).1 ≠ n
          · rw [if_pos hn] at hf ⊢
            cases hf
            exact done_keeps cs memCtx hcs t _ _ _ hall rfl
          rw [if_neg hn] at hf ⊢
          exact read_ticker_keeps strtold json cs memCtx hlive hcs a mem t x _ hks _ out hf

end Parser

section Runs

open Flip.Ticker Flip.Json Flip.FileFromUrl Flip.SocketCount Flip.Msg Flip.CommonDaemon
open Flip.Nbus (NbusCtx)
open Flip.Sql (SqliteRet)
open Flip.Conf (IniFile)
open Flip.TickerBounds

variable {D : Type} [Zero D] (strtold : Buf → D)

/-- A call of one of the functions, with the outcomes of the calls in it. -/
inductive Invocation (D : Type) where
  | getFileFromUrl (a : UrlAlloc) (url : CString)
  | nbusInitPubsub (o : InitOutcome) (url : CString) (protocol : BusSetup.Protocol)
  | createMessage (a : CreateAlloc) (clock : Int64) (sender recepient : CString)
    (messageType : MessageType)
  | serializeMessage (a : SerializeAlloc) (msg : Option MsgCtx)
  | getConfigFromRootDaemon (o : CommonDaemon.Outcome) (clock : Int64) (ctx : Option NbusCtx)
    (identityName : CString) (daemonType : DaemonType)
  | sqlInit (tmpCtx ctx : Bool) (openRet close : SqliteRet)
  | parseFlipdConfig (tmpCtx ctx : Bool) (file : IniFile)
  | parseBtcETicker (json : CString) (a : TickerAlloc) (jsmn : Jsmn) (mem : BtceTicker D)

def invoke (memCtx : Option ℕ) : Invocation D → Call
  | .getFileFromUrl a url => getFileFromUrl a url memCtx
  | .nbusInitPubsub o url protocol => nbusInitPubsub o url protocol memCtx
  | .createMessage a _ _ _ _ => createMessage a memCtx
  | .serializeMessage a msg => serializeMessage a msg memCtx
  | .getConfigFromRootDaemon o clock ctx identityName daemonType =>
    getConfigFromRootDaemon o clock ctx identityName daemonType
  | .sqlInit tmpCtx ctx openRet close => sqlInit tmpCtx ctx openRet close memCtx
  | .parseFlipdConfig tmpCtx ctx file => parseFlipdConfig tmpCtx ctx file memCtx
  | .parseBtcETicker json a jsmn mem => parseBtcETicker strtold json a jsmn mem memCtx

/-- What is computed: the code and whether all that the call created is
released or handed out, unless the program ends in it. -/
def outcome : Invocation D → Option (Errno × Bool)
  | .getFileFromUrl a url =>
    (FileFromUrl.getFileFromUrl a url).toOption.map (fun r => (r.1,true))
  | .nbusInitPubsub o url protocol =>
    (SocketCount.nbusInitPubsub o url protocol start).toOption.map (fun r => (r.1,true))
  | .createMessage a clock sender recepient messageType =>
    some ((Msg.createMessage a clock sender recepient messageType none).1,true)
  | .serializeMessage a msg => (Msg.serializeMessage a msg).toOption.map (fun r => (r.1,true))
  | .getConfigFromRootDaemon o clock ctx identityName daemonType =>
    (CommonDaemon.getConfigFromRootDaemon o clock ctx identityName daemonType []).toOption.map
      (fun r => (r.1,true))
  | .sqlInit tmpCtx ctx openRet _ =>
    some ((SqlLifecycle.sqlInit (D := D) tmpCtx ctx openRet []).1,true)
  | .parseFlipdConfig tmpCtx ctx file => some ((Conf.parseFlipdConfig tmpCtx ctx file).1,true)
  | .parseBtcETicker json a jsmn mem =>
    (Ticker.parseBtcETicker strtold json a jsmn mem).toOption.map (fun r => (r.ret,r.released))

def callAndFree (call : Call) : Mem Errno := do
  let (ret,result) ← call
  match result with
  | none => pure ret
  | some p => do
    tallocFree p
    pure ret

def Leaves (memCtx : Option ℕ) (cs : List Chunk) (result : Option ℕ) (released : Bool)
    (h : Heap) : Prop :=
  if released then Tidy memCtx cs result h
  else result = none ∧ ∃ t left, Subtree ⟨t,none⟩ left ∧ Has (left++cs) h

theorem ok_of_to_option {ε α β : Type} (x : Except ε α) (f : α → β) (b : β)
    (h : x.toOption.map f = some b) : ∃ a, x = .ok a ∧ f a = b := by
  cases x with
  | error e => cases h
  | ok a => exact ⟨a,rfl,Option.some.inj h⟩

theorem calls_leave (call : Invocation D) (ret : Errno) (released : Bool)
    (hout : outcome strtold call = some (ret,released)) (cs : List Chunk) (memCtx : Option ℕ)
    (hlive : Live memCtx cs) :
    Triple (Has cs) (invoke strtold memCtx call)
      (fun r h => r.1 = ret ∧ Leaves memCtx cs r.2 released h) := by
  cases call with
  | getFileFromUrl a url =>
    obtain ⟨r,hf,heq⟩ := ok_of_to_option _ _ _ hout
    cases heq
    exact file_from_url_tidy cs memCtx hlive a url r.1 r.2 hf
  | nbusInitPubsub o url protocol =>
    obtain ⟨r,hf,heq⟩ := ok_of_to_option _ _ _ hout
    cases heq
    exact triple_mono _ _ _ _ _
      (init_pubsub_tidy cs memCtx hlive o url protocol start r.2 r.1 hf)
      (fun _ hh => hh) (fun _ _ hr => ⟨hr.1.1,hr.2⟩)
  | createMessage a clock sender recepient messageType =>
    cases hout
    exact create_message_tidy cs memCtx hlive a clock sender recepient messageType
  | serializeMessage a msg =>
    obtain ⟨r,hf,heq⟩ := ok_of_to_option _ _ _ hout
    cases heq
    exact triple_mono _ _ _ _ _ (serialize_message_tidy cs memCtx hlive a msg r.1 r.2 hf)
      (fun _ hh => hh) (fun _ _ hr => ⟨hr.1.1,hr.2⟩)
  | getConfigFromRootDaemon o clock ctx identityName daemonType =>
    obtain ⟨r,hf,heq⟩ := ok_of_to_option _ _ _ hout
    cases heq
    apply triple_mono _ _ _ _ _ (get_config_restores cs o clock ctx identityName daemonType [] r.2
      r.1 hf) (fun _ hh => hh)
    intro a h hr
    refine ⟨hr.1.1,?_⟩
    have htidy := hr.2
    rw [hr.1.2] at htidy ⊢
    exact htidy
  | sqlInit tmpCtx ctx openRet close =>
    cases hout
    exact sql_init_tidy cs memCtx hlive tmpCtx ctx openRet close []
  | parseFlipdConfig tmpCtx ctx file =>
    cases hout
    exact parse_config_tidy cs memCtx hlive tmpCtx ctx file
  | parseBtcETicker json a jsmn mem =>
    obtain ⟨out,hf,heq⟩ := ok_of_to_option _ _ _ hout
    cases heq
    exact triple_mono _ _ _ _ _ (parse_ticker_keeps strtold json cs memCtx hlive a jsmn mem out hf)
      (fun _ hh => hh) (fun _ _ hr => ⟨hr.1,hr.2.2⟩)

theorem call_and_free (call : Invocation D) (ret : Errno) (released : Bool)
    (hout : outcome strtold call = some (ret,released)) (cs : List Chunk) (memCtx : Option ℕ)
    (hlive : Live memCtx cs) :
    Triple (Has cs) (callAndFree (invoke strtold memCtx call)) (fun r h =>
      r = ret ∧ ∃ left, Has (left++cs) h ∧ (left = [] ↔ released = true)) := by
  apply triple_closed
  intro hcs
  apply triple_bind _ _ _ _ _ (calls_leave strtold call ret released hout cs memCtx hlive)
  intro r h hr
  obtain ⟨code,result⟩ := r
  obtain ⟨rfl,hleaves⟩ := hr
  rw [Leaves] at hleaves
  split_ifs at hleaves with hreleased
  · cases result with
    | none =>
      refine triple_pure (Has cs) code _ (fun h hh => ?_) h hleaves
      exact ⟨rfl,[],hh,iff_of_true rfl hreleased⟩
    | some p =>
      obtain ⟨new,hnew,hh⟩ := hleaves
      apply triple_free_made memCtx cs new p _ _ hnew hcs.live _ h hh
      exact triple_pure (Has cs) code _ (fun h hh => ⟨rfl,[],hh,iff_of_true rfl hreleased⟩)
  · obtain ⟨rfl,t,left,hs,hh⟩ := hleaves
    refine triple_pure (Has (left++cs)) code _ (fun h hh => ?_) h hh
    have hne : left ≠ [] := fun hnil => by
      rw [hnil] at hs
      exact hs
    exact ⟨rfl,left,hh,iff_of_false hne hreleased⟩

def session : List (Option ℕ × Invocation D) → Mem Unit
  | [] => pure ()
  | c::calls => do
    let _ ← callAndFree (invoke strtold c.1 c.2)
    session calls

/-- The parser leaves before its cleanup: the record cannot be allocated, or
the pair of a text with the shape of a ticker cannot be copied. -/
def EarlyExit : Invocation D → Prop
  | .parseBtcETicker json a jsmn _ =>
    a.tmpCtx = true ∧ (a.tickerData = false ∨ a.tokens = true ∧ a.pair = false ∧
      ∃ tokens, Delivers jsmn json tokens ∧ IsTicker tokens)
  | _ => False

theorem read_released_iff (json : CString) (a : TickerAlloc) (mem : BtceTicker D)
    (tokens : List JsmnTok) (out : Ticker.Outcome D)
    (hf : Ticker.readTicker strtold json a mem tokens = .ok out) :
    out.released = true ↔ ¬(a.pair = false ∧ IsTicker tokens) := by
  by_cases hearly : a.pair = false ∧ IsTicker tokens
  · cases (read_ticker_no_pair json strtold a hearly.1 tokens mem hearly.2).symm.trans hf
    simp [hearly]
  · have hpair : IsTicker tokens → a.pair = true := by
      intro hticker
      simpa [hticker] using hearly
    have hb := read_ticker_bounded json strtold a tokens mem hpair ⟨out,hf⟩
    by_cases hticker : IsTicker tokens
    · obtain ⟨t,ht⟩ := read_ticker_filled json strtold a (hpair hticker) tokens mem hb hticker
      cases ht.symm.trans hf
      exact iff_of_true rfl hearly
    · cases (read_ticker_rejected json strtold a tokens mem hb hticker).symm.trans hf
      exact iff_of_true rfl hearly

theorem parse_released_iff (json : CString) (a : TickerAlloc) (jsmn : Jsmn) (mem : BtceTicker D)
    (out : Ticker.Outcome D) (hf : Ticker.parseBtcETicker strtold json a jsmn mem = .ok out) :
    out.released = true ↔ ¬EarlyExit (.parseBtcETicker json a jsmn mem) := by
  by_cases htmp : a.tmpCtx = true
  swap
  · cases (show _ = Except.ok ⟨.enomem,none,true⟩ by
      simp [Ticker.parseBtcETicker, htmp]).symm.trans hf
    exact iff_of_true rfl (fun h => htmp h.1)
  by_cases hdata : a.tickerData = true
  swap
  · cases (show _ = Except.ok ⟨.enomem,none,false⟩ by
      simp [Ticker.parseBtcETicker, htmp, hdata]).symm.trans hf
    simp [EarlyExit, htmp, hdata]
  by_cases hseen : a.tokens = true ∧ ∃ tokens, Delivers jsmn json tokens
  swap
  · obtain ⟨e,-,hout⟩ := parse_undelivered strtold jsmn json a mem htmp hdata hseen
    cases hout.symm.trans hf
    refine iff_of_true rfl (fun h => hseen ?_)
    rcases h.2 with h | ⟨htokens,-,tokens,hd,-⟩
    · rw [hdata] at h
      cases h
    · exact ⟨htokens,tokens,hd⟩
  obtain ⟨htokens,tokens,hd⟩ := hseen
  rw [parse_delivered strtold jsmn json a mem tokens htmp hdata htokens hd] at hf
  rw [read_released_iff strtold json a mem tokens out hf]
  apply not_congr
  constructor
  · exact fun h => ⟨htmp,.inr ⟨htokens,h.1,tokens,hd,h.2⟩⟩
  · intro h
    rcases h.2 with h | ⟨-,hpair,tokens',hd',hticker⟩
    · rw [hdata] at h
      cases h
    · exact ⟨hpair,delivers_unique jsmn json hd hd' ▸ hticker⟩

theorem outcome_released_iff (call : Invocation D) (ret : Errno) (released : Bool)
    (hout : outcome strtold call = some (ret,released)) : released = true ↔ ¬EarlyExit call := by
  cases call with
  | parseBtcETicker json a jsmn mem =>
    obtain ⟨out,hf,heq⟩ := ok_of_to_option _ _ _ hout
    cases heq
    exact parse_released_iff strtold json a jsmn mem out hf
  | createMessage => cases hout; exact iff_of_true rfl id
  | sqlInit => cases hout; exact iff_of_true rfl id
  | parseFlipdConfig => cases hout; exact iff_of_true rfl id
  | getFileFromUrl | nbusInitPubsub | serializeMessage | getConfigFromRootDaemon =>
    obtain ⟨out,hf,heq⟩ := ok_of_to_option _ _ _ hout
    cases heq
    exact iff_of_true rfl id

theorem session_leaves (calls : List (Option ℕ × Invocation D)) (cs left : List Chunk)
    (hlive : ∀ c ∈ calls, Live c.1 cs) (hends : ∀ c ∈ calls, (outcome strtold c.2).isSome) :
    Triple (Has (left++cs)) (session strtold calls) (fun _ h => ∃ rest, Has (rest++cs) h ∧
      (rest = [] ↔ left = [] ∧ ∀ c ∈ calls, ¬EarlyExit c.2)) := by
  induction calls generalizing left with
  | nil => exact triple_pure _ _ _ (fun h hh => ⟨left,hh,by simp⟩)
  | cons c calls ih =>
    obtain ⟨⟨ret,released⟩,hout⟩ := Option.isSome_iff_exists.mp (hends c List.mem_cons_self)
    have hcall := call_and_free strtold c.2 ret released hout (left++cs) c.1
      (live_append c.1 cs left (hlive c List.mem_cons_self))
    apply triple_bind _ _ _ _ _ hcall
    intro r h hr
    obtain ⟨-,more,hh,hmore⟩ := hr
    rw [← List.append_assoc] at hh
    have hrest := ih (more++left) (fun d hd => hlive d (List.mem_cons_of_mem _ hd))
      (fun d hd => hends d (List.mem_cons_of_mem _ hd))
    apply triple_mono _ _ _ _ _ hrest (fun _ hh => hh) _ h hh
    intro u h hr
    obtain ⟨rest,hh,hiff⟩ := hr
    refine ⟨rest,hh,hiff.trans ?_⟩
    rw [List.append_eq_nil_iff, hmore, outcome_released_iff strtold c.2 ret released hout,
      List.forall_mem_cons]
    tauto

/-- After a run of calls that return, in which every result is freed, the memory
is what it was before exactly when the parser has never left early. -/
theorem session_restores_iff (calls : List (Option ℕ × Invocation D)) (cs : List Chunk)
    (hlive : ∀ c ∈ calls, Live c.1 cs) (hends : ∀ c ∈ calls, (outcome strtold c.2).isSome) :
    Triple (Has cs) (session strtold calls) (fun _ h =>
      Has cs h ↔ ∀ c ∈ calls, ¬EarlyExit c.2) := by
  apply triple_mono _ _ _ _ _ (session_leaves strtold calls cs [] hlive hends) (fun _ hh => hh)
  intro u h hr
  obtain ⟨rest,hh,hiff⟩ := hr
  have hrest : Has cs h ↔ rest = [] := by
    constructor
    · intro hcs
      have hlength := (hh.symm.trans hcs).length_eq
      simpa using hlength
    · rintro rfl
      exact hh
  rw [hrest, hiff]
  simp

end Runs

def twoCalls : List (Option ℕ × Invocation ℕ) :=
  [(none,.sqlInit true true 1 1),(none,.createMessage ⟨true,true,true,true⟩ 0 CommonDaemon.root
    CommonDaemon.root .crawlerAskForConfiguration)]

theorem two_calls_restored : ∃ h,
    session TickerDoc.leadingDigits twoCalls .empty = some ((),h) ∧ h.chunks = [] := by
  have hlive : ∀ c ∈ twoCalls, Live c.1 ([] : List Chunk) := by
    intro c hc q hq
    simp only [twoCalls, List.mem_cons, List.not_mem_nil, or_false] at hc
    rcases hc with rfl | rfl <;> cases hq
  have hends : ∀ c ∈ twoCalls, (outcome TickerDoc.leadingDigits c.2).isSome := by decide
  obtain ⟨u,h,hrun,hiff⟩ := session_restores_iff TickerDoc.leadingDigits twoCalls [] hlive hends
    .empty List.Perm.nil
  refine ⟨h,hrun,List.perm_nil.mp (hiff.mpr ?_)⟩
  intro c hc
  simp only [twoCalls, List.mem_cons, List.not_mem_nil, or_false] at hc
  rcases hc with rfl | rfl <;> exact id

end Flip.Memory
