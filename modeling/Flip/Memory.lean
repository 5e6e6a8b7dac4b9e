import Flip.CommonDaemon
import Flip.Conf
import Flip.SocketCount
import Flip.SqlLifecycle
import Flip.TallocRules

/-!
# What the calls leave in memory

The functions that return something allocate it below a temporary context and
steal it for the caller at the end. Here each of them is what it does to the
memory, with the outcomes of its calls as in the model of what it computes.
-/

set_option autoImplicit false

namespace Flip.Memory
open Flip.CLib Flip.Talloc

abbrev Call := Mem (Errno × Option ℕ)

/-- A copy whose result is not checked. -/
def strdup (ok : Bool) (owner : ℕ) : Mem Unit :=
  if ok then do
    let _ ← talloc (some owner)
    pure ()
  else pure ()

section Bus

open Flip.FileFromUrl Flip.SocketCount
open Flip.BusSetup (Protocol)

/-- A copy out of bounds ends the program. -/
def getFileFromUrl (a : UrlAlloc) (url : CString) (memCtx : Option ℕ) : Call :=
  withTmpCtx a.tmpCtx (.enomem,none) fun tmpCtx =>
    if a.fileName = false then pure (.enomem,none)
    else do
      let fileName ← talloc (some tmpCtx)
      match FileFromUrl.getFileFromUrl a url with
      | .error _ => failure
      | .ok _ => do
        tallocSteal fileName memCtx
        pure (.eok,some fileName)

def nbusInitPubsub (o : InitOutcome) (url : CString) (protocol : Protocol)
    (memCtx : Option ℕ) : Call :=
  withTmpCtx o.tmpCtx (.enomem,none) fun tmpCtx =>
    if o.ctx = false then pure (.enomem,none)
    else do
      let nbusCtx ← talloc (some tmpCtx)
      if o.socket = false then pure (.enoent,none)
      else if protocol = .sub ∧ o.setsockopt = false then pure (.enoent,none)
      else do
        let (_,_) ← getFileFromUrl o.fileName url (some tmpCtx)
        match FileFromUrl.getFileFromUrl o.fileName url with
        | .ok (.eok,some fileName) =>
          match if o.fileExists fileName.bytes then o.connect else o.bind with
          | none => pure (.enoent,none)
          | some _ => do
            tallocSteal nbusCtx memCtx
            pure (.eok,some nbusCtx)
        | .ok (ret,_) => pure (ret,none)
        | .error _ => failure

open Flip.Nbus (NbusCtx Bus RecvOutcome) in
/-- The string is copied below the data of the fresh chunk, which is NULL. -/
def nbusRecieve (o : RecvOutcome) (ctx : Option NbusCtx) (bus : Bus) (memCtx : Option ℕ) : Call :=
  match ctx with
  | none => pure (.enoent,none)
  | some _ =>
    withTmpCtx o.tmpCtx (.enomem,none) fun tmpCtx =>
      if o.chunk = false then pure (.enomem,none)
      else do
        let chunk ← talloc (some tmpCtx)
        if o.recv = false then pure (.eio,none)
        else
          match bus with
          | [] => pure (.eagain,none)
          | _::_ =>
            if o.data = false then pure (.enomem,none)
            else do
              let _ ← talloc none
              tallocSteal chunk memCtx
              pure (.eok,some chunk)

def nbusClose (shutdown : Bool) (nbusCtx : Option ℕ) : Mem Errno :=
  match nbusCtx with
  | none => pure .eok
  | some p =>
    if shutdown then do
      tallocFree p
      pure .eok
    else pure .enoent

end Bus

section Messages

open Flip.Msg Flip.CommonDaemon Flip.Nbus

def createMessage (a : CreateAlloc) (memCtx : Option ℕ) : Call :=
  withTmpCtx a.tmpCtx (.enomem,none) fun tmpCtx =>
    if a.msg = false then pure (.enomem,none)
    else do
      let msg ← talloc (some tmpCtx)
      strdup a.sender msg
      strdup a.recepient msg
      tallocSteal msg memCtx
      pure (.eok,some msg)

/-- The result is not checked before it is used. -/
def serializeMessage (a : SerializeAlloc) (msg : Option MsgCtx) (memCtx : Option ℕ) : Call :=
  withTmpCtx a.tmpCtx (.enomem,none) fun tmpCtx => do
    let serializedMsg ← tryTalloc a.serializedMsg tmpCtx
    match msg with
    | none => pure (.enomem,none)
    | some m =>
      match serializedMsg, m.sender, m.recepient with
      | some p, some _, some _ =>
        if a.text = false then failure
        else do
          strdup true p
          tallocSteal p memCtx
          pure (.eok,some p)
      | _, _, _ => failure

def getConfigFromRootDaemon (o : Outcome) (clock : Int64) (ctx : Option NbusCtx)
    (identityName : CString) (daemonType : DaemonType) : Call :=
  withTmpCtx o.tmpCtx (.enomem,none) fun tmpCtx =>
    match requestType daemonType with
    | none => pure (.einval,none)
    | some messageType => do
      let (ret,_) ← createMessage o.create (some tmpCtx)
      if ret ≠ .eok then pure (.einval,none)
      else do
        let msg := (Msg.createMessage o.create clock identityName root messageType none).2
        let (ret,serializedMsg) ← serializeMessage o.serialize msg (some tmpCtx)
        if ret ≠ .eok then pure (.einval,none)
        else
          match serializedMsg, ctx with
          | none, _ => failure
          | some _, none => pure (.einval,none)
          | some _, some _ => if o.sent then pure (.eok,none) else pure (.einval,none)

end Messages

section Sql

open Flip.Sql

def sqlClose (close : SqliteRet) (sqlCtx : ℕ) : Mem Errno :=
  if close ≠ sqliteOk then pure .eio
  else do
    tallocFree sqlCtx
    pure .eok

def sqlInit (tmpCtx ctx : Bool) (openRet close : SqliteRet) (memCtx : Option ℕ) : Call :=
  withTmpCtx tmpCtx (.enomem,none) fun tmpCtx =>
    if ctx = false then pure (.enomem,none)
    else do
      let sqlCtx ← talloc (some tmpCtx)
      if openRet ≠ sqliteOk then do
        let _ ← sqlClose close sqlCtx
        pure (.eio,none)
      else do
        tallocSteal sqlCtx memCtx
        pure (.eok,some sqlCtx)

end Sql

section Config

open Flip.Conf

/-- Each value that is stored is a copy of its own. -/
def flipdHandler (config : ℕ) (e : Entry) : Mem Unit :=
  strdup ((Conf.flipdHandler ConfigCtx.zero e).1 ≠ 0) config

def deliver (config : ℕ) : List Entry → Mem Unit
  | [] => pure ()
  | e::entries => do
    flipdHandler config e
    deliver config entries

def parseFlipdConfig (tmpCtx ctx : Bool) (file : IniFile) (memCtx : Option ℕ) : Call :=
  withTmpCtx tmpCtx (.enomem,none) fun tmpCtx =>
    if ctx = false then pure (.enomem,none)
    else do
      let config ← talloc (some tmpCtx)
      if file.readable then deliver config file.entries else pure ()
      if (iniParse Conf.flipdHandler ConfigCtx.zero file).1 then do
        tallocSteal config memCtx
        pure (.eok,some config)
      else pure (.einval,none)

end Config

def RecieveKeeps (memCtx : Option ℕ) (cs : List Chunk) (ret : Errno) (r : Errno × Option ℕ)
    (kept : List Chunk) : Prop :=
  r.1 = ret ∧
    match r.2 with
    | none => ret ≠ .eok ∧ kept = cs
    | some chunk => ret = .eok ∧ ∃ data, kept = ⟨chunk,memCtx⟩::⟨data,none⟩::cs

section Specs

variable (cs : List Chunk) (memCtx : Option ℕ) (hlive : Live memCtx cs)

open Flip.FileFromUrl in
theorem file_from_url_cases (a : UrlAlloc) (url : CString) (ret : Errno)
    (block : Option CBlock.Block) (hf : FileFromUrl.getFileFromUrl a url = .ok (ret,block)) :
    a.tmpCtx = true ∧ a.fileName = true ∧ ret = .eok ∧ block.isSome ∨
      (a.tmpCtx = false ∨ a.fileName = false) ∧ ret = .enomem ∧ block = none := by
  obtain ⟨tmpCtx,fileName⟩ := a
  cases tmpCtx with
  | false =>
    cases hf
    exact .inr ⟨.inl rfl,rfl,rfl⟩
  | true =>
    cases fileName with
    | false =>
      cases hf
      exact .inr ⟨.inr rfl,rfl,rfl⟩
    | true =>
      simp only [FileFromUrl.getFileFromUrl, Bool.true_eq_false, if_false] at hf
      obtain ⟨kept,-,hf⟩ := CBlock.ok_of_bind hf
      obtain ⟨size,-,hf⟩ := CBlock.ok_of_bind hf
      obtain ⟨name,-,hf⟩ := CBlock.ok_of_bind hf
      cases hf
      exact .inl ⟨rfl,rfl,rfl,rfl⟩

theorem live_cons (i : ℕ) (owner : Option ℕ) : Live (some i) (⟨i,owner⟩::cs) :=
  live_some i _ List.mem_cons_self

theorem live_tail (owner : Option ℕ) (c : Chunk) (h : Live owner cs) : Live owner (c::cs) :=
  fun q hq => List.mem_cons_of_mem _ (h q hq)

include hlive

open Flip.FileFromUrl in
theorem file_from_url_tidy (a : UrlAlloc) (url : CString) (ret : Errno)
    (block : Option CBlock.Block)
    (hf : FileFromUrl.getFileFromUrl a url = .ok (ret,block)) :
    Triple (Has cs) (getFileFromUrl a url memCtx)
      (fun r h => r.1 = ret ∧ Tidy memCtx cs r.2 h) := by
  apply triple_closed
  intro hclosed
  apply triple_with_tmp_ctx memCtx cs _ _ _ Prod.snd (fun r => r.1 = ret) hlive
  · intro htmp
    rcases file_from_url_cases a url ret block hf with ⟨htmp',-,-,-⟩ | ⟨-,rfl,-⟩
    · rw [htmp] at htmp'
      cases htmp'
    · exact ⟨rfl,rfl⟩
  · intro htmp t ht
    rcases file_from_url_cases a url ret block hf with ⟨-,hname,rfl,-⟩ | ⟨hfail,rfl,-⟩
    · rw [if_neg (by simp [hname])]
      apply triple_talloc _ _ _ _ (live_cons cs t none)
      intro x hx
      rw [hf]
      apply triple_give memCtx cs [⟨t,none⟩] [⟨x,some t⟩] x t _ _ hclosed hlive
        (subtree_single _) (subtree_single _)
      exact fun h hh => ⟨rfl,hh⟩
    · have hname : a.fileName = false := by simpa [htmp] using hfail
      rw [if_pos hname]
      exact triple_fail memCtx cs [⟨t,none⟩] t _ _ (subtree_single _) (fun h hh => ⟨rfl,hh⟩)

open Flip.SocketCount in
theorem init_pubsub_tidy (o : InitOutcome) (url : CString) (protocol : BusSetup.Protocol)
    (p p' : Process) (ret : Errno)
    (hf : SocketCount.nbusInitPubsub o url protocol p = .ok (ret,p')) :
    Triple (Has cs) (nbusInitPubsub o url protocol memCtx)
      (fun r h => (r.1 = ret ∧ (ret = .eok → r.2.isSome)) ∧ Tidy memCtx cs r.2 h) := by
  apply triple_closed
  intro hclosed
  apply triple_with_tmp_ctx memCtx cs _ _ _ Prod.snd
    (fun r => r.1 = ret ∧ (ret = .eok → r.2.isSome)) hlive
  · intro htmp
    rw [SocketCount.nbusInitPubsub, if_pos htmp] at hf
    cases hf
    exact ⟨⟨rfl,fun h => by cases h⟩,rfl⟩
  · intro htmp t ht
    rw [SocketCount.nbusInitPubsub, if_neg (by simp [htmp])] at hf
    by_cases hctx : o.ctx = false
    · rw [if_pos hctx] at hf ⊢
      cases hf
      exact triple_fail memCtx cs [⟨t,none⟩] t _ _ (subtree_single _)
        (fun h hh => ⟨⟨rfl,fun h => by cases h⟩,hh⟩)
    rw [if_neg hctx] at hf ⊢
    apply triple_talloc _ _ _ _ (live_cons cs t none)
    intro x hx
    have htree : Subtree ⟨t,none⟩ [⟨x,some t⟩,⟨t,none⟩] :=
      subtree_append _ [⟨x,some t⟩] [⟨t,none⟩] x t (subtree_single _) (by simp [ids])
        (subtree_single _)
    by_cases hsocket : o.socket = false
    · rw [if_pos hsocket] at hf ⊢
      cases hf
      exact triple_fail memCtx cs _ t _ _ htree (fun h hh => ⟨⟨rfl,fun h => by cases h⟩,hh⟩)
    rw [if_neg hsocket] at hf ⊢
    by_cases hsub : protocol = .sub ∧ o.setsockopt = false
    · simp only [if_pos hsub] at hf ⊢
      cases hf
      exact triple_fail memCtx cs _ t _ _ htree (fun h hh => ⟨⟨rfl,fun h => by cases h⟩,hh⟩)
    simp only [if_neg hsub] at hf ⊢
    cases hfile : FileFromUrl.getFileFromUrl o.fileName url with
    | error fault =>
      rw [hfile] at hf
      cases hf
    | ok result =>
      rw [hfile] at hf
      have hbelow := file_from_url_tidy ([⟨x,some t⟩]++([⟨t,none⟩]++cs)) (some t)
        (live_tail _ _ _ (live_cons cs t none)) o.fileName url result.1 result.2 hfile
      apply triple_bind _ _ _ _ _ hbelow
      intro r h hr
      obtain ⟨ds,hds,-,hh⟩ := tidy_below cs [⟨t,none⟩] [⟨x,some t⟩] ⟨t,none⟩ t r.2 h (by simp [ids])
        (subtree_single _) hr.2
      have hall : Subtree ⟨t,none⟩ ([⟨x,some t⟩]++ds) :=
        subtree_append _ [⟨x,some t⟩] ds x t (subtree_single _) (subtree_mem _ ds hds) hds
      obtain ⟨code,file⟩ := result
      refine triple_perm _ _ _ _ (by rw [← List.append_assoc]) ?_ h hh
      rcases file_from_url_cases o.fileName url code file hfile with
        ⟨-,-,rfl,hname⟩ | ⟨-,rfl,rfl⟩
      · obtain ⟨name,rfl⟩ := Option.isSome_iff_exists.mp hname
        dsimp only at hf ⊢
        cases hend : if o.fileExists name.bytes then o.connect else o.bind with
        | none =>
          rw [hend] at hf
          cases hf
          exact triple_fail memCtx cs _ t _ _ hall (fun h hh => ⟨⟨rfl,fun h => by cases h⟩,hh⟩)
        | some endpointId =>
          rw [hend] at hf
          cases hf
          apply triple_perm _ _ _ _ (by rw [List.append_assoc])
          exact triple_give memCtx cs ds [⟨x,some t⟩] x t _ _ hclosed hlive (subtree_single _) hds
            (fun h hh => ⟨⟨rfl,fun _ => rfl⟩,hh⟩)
      · cases hf
        exact triple_fail memCtx cs _ t _ _ hall (fun h hh => ⟨⟨rfl,fun h => by cases h⟩,hh⟩)

omit hlive in
theorem triple_strdup {β : Type} (ok : Bool) (q : ℕ) (root : Chunk) (ds : List Chunk)
    (f : Unit → Mem β) (Q : β → Heap → Prop) (hq : q ∈ ids ds) (hs : Subtree root ds)
    (hf : ∀ ds', Subtree root ds' → q ∈ ids ds' → Triple (Has (ds'++cs)) (f ()) Q) :
    Triple (Has (ds++cs)) (strdup ok q >>= f) Q := by
  cases ok with
  | false => exact hf ds hs hq
  | true =>
    have hlive : Live (some q) (ds++cs) := live_left _ ds cs (live_some q ds hq)
    have hcopy : Triple (Has (ds++cs)) (strdup true q)
        (fun _ h => ∃ i, Has (⟨i,some q⟩::(ds++cs)) h) :=
      triple_talloc _ _ _ _ hlive (fun i _ => triple_pure _ _ _ (fun h hh => ⟨i,hh⟩))
    apply triple_bind _ _ _ _ _ hcopy
    intro u h hh
    obtain ⟨i,hh⟩ := hh
    exact hf (⟨i,some q⟩::ds) (subtree_cons root ds _ q hq rfl hs) (List.mem_cons_of_mem _ hq) h hh

open Flip.Msg in
theorem create_message_tidy (a : CreateAlloc) (clock : Int64) (sender recepient : CString)
    (messageType : MessageType) :
    Triple (Has cs) (createMessage a memCtx) (fun r h =>
      r.1 = (Msg.createMessage a clock sender recepient messageType none).1 ∧
        Tidy memCtx cs r.2 h) := by
  apply triple_closed
  intro hclosed
  apply triple_with_tmp_ctx memCtx cs _ _ _ Prod.snd _ hlive
  · intro htmp
    simp [Msg.createMessage, htmp]
  · intro htmp t ht
    by_cases hmsg : a.msg = false
    · rw [if_pos hmsg]
      have hcode : (Msg.createMessage a clock sender recepient messageType none).1 = .enomem := by
        simp [Msg.createMessage, htmp, hmsg]
      exact triple_fail memCtx cs [⟨t,none⟩] t _ _ (subtree_single _)
        (fun h hh => ⟨hcode.symm,hh⟩)
    · rw [if_neg hmsg]
      have hcode : (Msg.createMessage a clock sender recepient messageType none).1 = .eok := by
        simp [Msg.createMessage, htmp, hmsg]
      apply triple_talloc _ _ _ _ (live_cons cs t none)
      intro x hx
      apply triple_strdup (⟨t,none⟩::cs) a.sender x ⟨x,some t⟩ [⟨x,some t⟩] _ _ (by simp [ids])
        (subtree_single _)
      intro xs hxs hin
      apply triple_strdup (⟨t,none⟩::cs) a.recepient x ⟨x,some t⟩ xs _ _ hin hxs
      intro xs hxs _
      exact triple_give memCtx cs [⟨t,none⟩] xs x t _ _ hclosed hlive hxs (subtree_single _)
        (fun h hh => ⟨hcode.symm,hh⟩)

open Flip.Msg in
theorem serialize_message_tidy (a : SerializeAlloc) (msg : Option MsgCtx) (ret : Errno)
    (chunk : Option StringCtx) (hf : Msg.serializeMessage a msg = .ok (ret,chunk)) :
    Triple (Has cs) (serializeMessage a msg memCtx)
      (fun r h => (r.1 = ret ∧ (r.2 = none → ret ≠ .eok)) ∧ Tidy memCtx cs r.2 h) := by
  apply triple_closed
  intro hclosed
  apply triple_with_tmp_ctx memCtx cs _ _ _ Prod.snd
    (fun r => r.1 = ret ∧ (r.2 = none → ret ≠ .eok)) hlive
  · intro htmp
    rw [Msg.serializeMessage.eq_def, htmp] at hf
    cases hf
    exact ⟨⟨rfl,fun _ => by decide⟩,rfl⟩
  · intro htmp t ht
    rw [Msg.serializeMessage.eq_def, htmp] at hf
    cases msg with
    | none =>
      cases hf
      apply triple_try_talloc _ _ _ _ _ (live_cons cs t none)
      · intro _
        exact triple_fail memCtx cs [⟨t,none⟩] t _ _ (subtree_single _)
          (fun h hh => ⟨⟨rfl,fun _ => by decide⟩,hh⟩)
      · intro _ x _
        exact triple_fail memCtx cs [⟨x,some t⟩,⟨t,none⟩] t _ _
          (subtree_cons _ _ _ t (by simp [ids]) rfl (subtree_single _))
          (fun h hh => ⟨⟨rfl,fun _ => by decide⟩,hh⟩)
    | some m =>
      obtain ⟨sender,recepient,timestamp,messageType,data⟩ := m
      cases sender with
      | none => cases hf
      | some sender =>
        cases recepient with
        | none => cases hf
        | some recepient =>
          cases hser : a.serializedMsg with
          | false =>
            rw [hser] at hf
            cases hf
          | true =>
            cases htext : a.text with
            | false =>
              rw [hser, htext] at hf
              cases hf
            | true =>
              rw [hser, htext] at hf
              cases hf
              apply triple_try_talloc _ _ _ _ _ (live_cons cs t none) (fun h => by cases h)
              intro _ x _
              simp only [Bool.true_eq_false, if_false]
              apply triple_strdup (⟨t,none⟩::cs) true x ⟨x,some t⟩ [⟨x,some t⟩] _ _
                (by simp [ids]) (subtree_single _)
              intro xs hxs _
              exact triple_give memCtx cs [⟨t,none⟩] xs x t _ _ hclosed hlive hxs
                (subtree_single _) (fun h hh => ⟨⟨rfl,fun h => by cases h⟩,hh⟩)

open Flip.CommonDaemon Flip.Nbus in
omit hlive in
theorem send_serialized_code (sent : Bool) (ctx : Option NbusCtx) (serialized : Option StringCtx)
    (bus : Bus) (result : Errno × Bus) (hf : sendSerialized sent ctx serialized bus = .ok result) :
    result.1 = if ctx.isSome ∧ sent = true then .eok else .einval := by
  cases serialized with
  | none => cases hf
  | some s =>
    cases ctx with
    | none =>
      cases hf
      rfl
    | some ctx =>
      simp only [sendSerialized, nbusSend] at hf
      cases hread : readMemory s.data s.size with
      | error f =>
        rw [hread] at hf
        cases hf
      | ok frame =>
        rw [hread] at hf
        cases sent <;> cases hf <;> rfl

open Flip.CommonDaemon Flip.Nbus in
omit hlive in
theorem get_config_restores (o : Outcome) (clock : Int64) (ctx : Option NbusCtx)
    (identityName : CString) (daemonType : DaemonType) (bus bus' : Bus) (ret : Errno)
    (hf : CommonDaemon.getConfigFromRootDaemon o clock ctx identityName daemonType bus =
      .ok (ret,bus')) :
    Triple (Has cs) (getConfigFromRootDaemon o clock ctx identityName daemonType)
      (fun r h => (r.1 = ret ∧ r.2 = none) ∧ Tidy none cs r.2 h) := by
  have hnone : Live none cs := fun q hq => by cases hq
  apply triple_with_tmp_ctx none cs _ _ _ Prod.snd (fun r => r.1 = ret ∧ r.2 = none) hnone
  · intro htmp
    rw [CommonDaemon.getConfigFromRootDaemon.eq_def, htmp] at hf
    cases hf
    exact ⟨⟨rfl,rfl⟩,rfl⟩
  · intro htmp t ht
    rw [CommonDaemon.getConfigFromRootDaemon.eq_def, htmp] at hf
    cases htype : requestType daemonType with
    | none =>
      rw [htype] at hf
      cases hf
      exact triple_fail none cs [⟨t,none⟩] t _ _ (subtree_single _) (fun h hh => ⟨⟨rfl,rfl⟩,hh⟩)
    | some messageType =>
      rw [htype] at hf
      have hcreate := create_message_tidy (⟨t,none⟩::cs) (some t) (live_cons cs t none) o.create
        clock identityName root messageType
      apply triple_bind _ _ _ _ _ hcreate
      intro r h hr
      obtain ⟨ds,hds,-,hh⟩ := tidy_below cs [⟨t,none⟩] [] ⟨t,none⟩ t r.2 h (by simp [ids])
        (subtree_single _) hr.2
      refine (?_ : Triple (Has (ds++cs)) _ _) h hh
      obtain ⟨code,msg⟩ := r
      obtain rfl := hr.1
      dsimp only at hf ⊢
      by_cases hcode :
          (Msg.createMessage o.create clock identityName root messageType none).1 ≠ .eok
      · rw [if_pos hcode] at hf ⊢
        cases hf
        exact triple_fail none cs ds t _ _ hds (fun h hh => ⟨⟨rfl,rfl⟩,hh⟩)
      · rw [if_neg hcode] at hf ⊢
        obtain ⟨serialized,hser,hf⟩ := CBlock.ok_of_bind hf
        have hlive : Live (some t) (ds++cs) :=
          live_left _ ds cs (live_some t ds (subtree_mem _ ds hds))
        have hserialize := serialize_message_tidy (ds++cs) (some t) hlive o.serialize _
          serialized.1 serialized.2 hser
        apply triple_bind _ _ _ _ _ hserialize
        intro r h hr
        obtain ⟨ds,hds,-,hh⟩ := tidy_below cs ds [] ⟨t,none⟩ t r.2 h (subtree_mem _ ds hds) hds hr.2
        refine (?_ : Triple (Has (ds++cs)) _ _) h hh
        obtain ⟨code,chunk⟩ := r
        obtain ⟨⟨rfl,hsome⟩,-⟩ := hr
        dsimp only at hf ⊢
        by_cases hok : serialized.1 ≠ .eok
        · rw [if_pos hok] at hf ⊢
          cases hf
          exact triple_fail none cs ds t _ _ hds (fun h hh => ⟨⟨rfl,rfl⟩,hh⟩)
        · rw [if_neg hok] at hf ⊢
          obtain ⟨p,rfl⟩ := Option.ne_none_iff_exists'.mp (fun hnone => hok (hsome hnone))
          have hcode := send_serialized_code o.sent ctx serialized.2 bus _ hf
          cases ctx with
          | none =>
            obtain rfl : ret = .einval := hcode
            exact triple_fail none cs ds t _ _ hds (fun h hh => ⟨⟨rfl,rfl⟩,hh⟩)
          | some ctx =>
            cases hsent : o.sent with
            | false =>
              obtain rfl : ret = .einval := by simpa [hsent] using hcode
              exact triple_fail none cs ds t _ _ hds (fun h hh => ⟨⟨rfl,rfl⟩,hh⟩)
            | true =>
              obtain rfl : ret = .eok := by simpa [hsent] using hcode
              exact triple_fail none cs ds t _ _ hds (fun h hh => ⟨⟨rfl,rfl⟩,hh⟩)

omit hlive in
open Flip.Sql in
theorem sql_close_either (close : SqliteRet) (sqlCtx : Chunk) (hapart : Apart [sqlCtx] cs) :
    Triple (Has (sqlCtx::cs)) (sqlClose close sqlCtx.id)
      (fun _ h => Has (sqlCtx::cs) h ∨ Has cs h) := by
  rw [sqlClose]
  split_ifs
  · exact triple_pure _ _ _ (fun h hh => .inl hh)
  · exact triple_free_pure [sqlCtx] cs _ sqlCtx _ (subtree_single _) hapart (fun h hh => .inr hh)

open Flip.Sql in
theorem sql_init_tidy {D : Type} (tmpCtx ctx : Bool) (openRet close : SqliteRet)
    (rows : List (Row D)) :
    Triple (Has cs) (sqlInit tmpCtx ctx openRet close memCtx) (fun r h =>
      r.1 = (SqlLifecycle.sqlInit tmpCtx ctx openRet rows).1 ∧ Tidy memCtx cs r.2 h) := by
  apply triple_closed
  intro hclosed
  apply triple_with_tmp_ctx memCtx cs _ _ _ Prod.snd _ hlive
  · rintro rfl
    exact ⟨rfl,rfl⟩
  · rintro rfl t ht
    cases ctx with
    | false =>
      exact triple_fail memCtx cs [⟨t,none⟩] t _ _ (subtree_single _) (fun h hh => ⟨rfl,hh⟩)
    | true =>
      apply triple_talloc _ _ _ _ (live_cons cs t none)
      intro x hx
      by_cases hopen : openRet ≠ sqliteOk
      · have hcode : (SqlLifecycle.sqlInit true true openRet rows).1 = .eio := by
          simp [SqlLifecycle.sqlInit, hopen]
        rw [if_pos hopen]
        have hbehind : Closed (⟨t,none⟩::cs) := closed_root cs t hclosed ht
        have hapart : Apart [⟨x,some t⟩] (⟨t,none⟩::cs) :=
          apart_old _ _ hbehind.live (fun q hq => (List.mem_singleton.mp hq) ▸ hx)
        apply triple_bind _ _ _ _ _ (sql_close_either (⟨t,none⟩::cs) close ⟨x,some t⟩ hapart)
        intro r h hr
        rcases hr with hh | hh
        · have htree : Subtree ⟨t,none⟩ [⟨x,some t⟩,⟨t,none⟩] :=
            subtree_cons _ _ _ t (by simp [ids]) rfl (subtree_single _)
          exact triple_fail memCtx cs _ t _ _ htree (fun h hh => ⟨hcode.symm,hh⟩) h hh
        · exact triple_fail memCtx cs [⟨t,none⟩] t _ _ (subtree_single _)
            (fun h hh => ⟨hcode.symm,hh⟩) h hh
      · have hcode : (SqlLifecycle.sqlInit true true openRet rows).1 = .eok := by
          simp [SqlLifecycle.sqlInit, hopen]
        rw [if_neg hopen]
        exact triple_give memCtx cs [⟨t,none⟩] [⟨x,some t⟩] x t _ _ hclosed hlive
          (subtree_single _) (subtree_single _) (fun h hh => ⟨hcode.symm,hh⟩)

omit hlive in
open Flip.Conf in
theorem triple_deliver {β : Type} (config : ℕ) (root : Chunk) (entries : List Entry)
    (ds : List Chunk) (f : Unit → Mem β) (Q : β → Heap → Prop) (hin : config ∈ ids ds)
    (hs : Subtree root ds)
    (hf : ∀ ds', Subtree root ds' → config ∈ ids ds' → Triple (Has (ds'++cs)) (f ()) Q) :
    Triple (Has (ds++cs)) (deliver config entries >>= f) Q := by
  induction entries generalizing ds with
  | nil => exact hf ds hs hin
  | cons e entries ih =>
    rw [deliver, bind_assoc]
    apply triple_strdup cs _ config root ds _ _ hin hs
    intro ds' hs' hin'
    exact ih ds' hin' hs'

open Flip.Conf in
theorem parse_config_tidy (tmpCtx ctx : Bool) (file : IniFile) :
    Triple (Has cs) (parseFlipdConfig tmpCtx ctx file memCtx) (fun r h =>
      r.1 = (Conf.parseFlipdConfig tmpCtx ctx file).1 ∧ Tidy memCtx cs r.2 h) := by
  apply triple_closed
  intro hclosed
  apply triple_with_tmp_ctx memCtx cs _ _ _ Prod.snd _ hlive
  · rintro rfl
    exact ⟨rfl,rfl⟩
  · rintro rfl t ht
    cases ctx with
    | false =>
      exact triple_fail memCtx cs [⟨t,none⟩] t _ _ (subtree_single _) (fun h hh => ⟨rfl,hh⟩)
    | true =>
      apply triple_talloc _ _ _ _ (live_cons cs t none)
      intro x hx
      have hrest : ∀ ds, Subtree ⟨x,some t⟩ ds → Triple (Has (ds++(⟨t,none⟩::cs)))
          (if (iniParse Conf.flipdHandler ConfigCtx.zero file).1 then do
            tallocSteal x memCtx
            pure (.eok,some x)
          else pure (.einval,none)) (fun r h =>
            r.1 = (Conf.parseFlipdConfig true true file).1 ∧ InTmpCtx t memCtx cs r.2 h) := by
        intro ds hds
        cases hparse : (iniParse Conf.flipdHandler ConfigCtx.zero file).1 with
        | true =>
          have hcode : (Conf.parseFlipdConfig true true file).1 = .eok := by
            simp [Conf.parseFlipdConfig, hparse]
          exact triple_give memCtx cs [⟨t,none⟩] ds x t _ _ hclosed hlive hds (subtree_single _)
            (fun h hh => ⟨hcode.symm,hh⟩)
        | false =>
          have hcode : (Conf.parseFlipdConfig true true file).1 = .einval := by
            simp [Conf.parseFlipdConfig, hparse]
          have htree : Subtree ⟨t,none⟩ (ds++[⟨t,none⟩]) :=
            subtree_append _ ds _ x t hds (by simp [ids]) (subtree_single _)
          apply triple_perm _ ((ds++[⟨t,none⟩])++cs) _ _ (by simp)
          exact triple_fail memCtx cs _ t _ _ htree (fun h hh => ⟨hcode.symm,hh⟩)
      have hin : x ∈ ids [⟨x,some t⟩] := by simp [ids]
      cases hreadable : file.readable with
      | false => exact hrest [⟨x,some t⟩] (subtree_single _)
      | true =>
        exact triple_deliver (⟨t,none⟩::cs) x ⟨x,some t⟩ file.entries [⟨x,some t⟩] _ _ hin
          (subtree_single _) (fun ds hds _ => hrest ds hds)

open Flip.Nbus in
theorem recieve_keeps (o : RecvOutcome) (ctx : Option NbusCtx) (bus : Bus) :
    Triple (Has cs) (nbusRecieve o ctx bus memCtx) (fun r h =>
      ∃ kept, Has kept h ∧ RecieveKeeps memCtx cs (Nbus.nbusRecieve o ctx bus).1 r kept) := by
  cases ctx with
  | none => exact triple_pure _ _ _ (fun h hh => ⟨cs,hh,rfl,by simp [Nbus.nbusRecieve]⟩)
  | some ctx =>
    obtain ⟨tmpCtx,chunk,recv,data⟩ := o
    apply triple_tmp_ctx cs tmpCtx _ _ (RecieveKeeps memCtx cs _)
    · rintro rfl
      exact ⟨rfl,by simp [Nbus.nbusRecieve]⟩
    · rintro rfl hclosed t ht
      have hfail : ∀ ret ds h, ret ≠ .eok → Subtree ⟨t,none⟩ ds → Has (ds++cs) h →
          ∃ ds kept, Subtree ⟨t,none⟩ ds ∧ Apart ds kept ∧ Has (ds++kept) h ∧
            RecieveKeeps memCtx cs ret (ret,none) kept := by
        intro ret ds h hne hs hh
        exact ⟨ds,cs,hs,apart_rest cs ds hclosed.live (has_closed _ h hh),hh,rfl,hne,rfl⟩
      cases chunk with
      | false => exact triple_pure _ _ _ (hfail .enomem _ · (by decide) (subtree_single _))
      | true =>
        apply triple_talloc _ _ _ _ (live_cons cs t none)
        intro x hx
        have htree : Subtree ⟨t,none⟩ [⟨x,some t⟩,⟨t,none⟩] :=
          subtree_cons _ _ _ t (by simp [ids]) rfl (subtree_single _)
        cases recv with
        | false => exact triple_pure _ _ _ (hfail .eio _ · (by decide) htree)
        | true =>
          cases bus with
          | nil => exact triple_pure _ _ _ (hfail .eagain _ · (by decide) htree)
          | cons frame rest =>
            cases data with
            | false => exact triple_pure _ _ _ (hfail .enomem _ · (by decide) htree)
            | true =>
              apply triple_talloc _ none _ _ (fun q hq => by cases hq)
              intro d hd
              have hbehind : Closed (⟨d,none⟩::⟨t,none⟩::cs) :=
                closed_root _ d (closed_root cs t hclosed ht)
                  (fun h => hd (List.mem_cons_of_mem _ h))
              have hxd : x ∉ ids (⟨d,none⟩::⟨t,none⟩::cs) := by
                intro h
                rcases List.mem_cons.mp h with rfl | h
                · exact hd List.mem_cons_self
                · exact hx h
              apply triple_perm _ ([⟨x,some t⟩]++(⟨d,none⟩::⟨t,none⟩::cs)) _ _
                (List.Perm.swap _ _ _)
              apply triple_steal [⟨x,some t⟩] _ memCtx _ ⟨x,some t⟩ _ (subtree_single _)
                (apart_old _ _ hbehind.live (fun q hq => (List.mem_singleton.mp hq) ▸ hxd))
                (live_tail _ _ _ (live_tail _ _ _ hlive))
              intro _
              rw [List.map_singleton, reown_root]
              apply triple_pure
              intro h hh
              have hkept : Apart [⟨t,none⟩] (⟨x,memCtx⟩::⟨d,none⟩::cs) := by
                intro c hc q hq howner
                obtain rfl : q = t := List.mem_singleton.mp hq
                simp only [List.mem_cons] at hc
                rcases hc with rfl | rfl | hc
                · exact ht (hlive q howner)
                · cases howner
                · exact ht (hclosed.live c hc q howner)
              refine ⟨[⟨t,none⟩],_,subtree_single _,hkept,hh.trans ?_,rfl,rfl,d,rfl⟩
              exact ((List.Perm.swap _ _ _).cons _).trans (List.Perm.swap _ _ _)

end Specs

end Flip.Memory
