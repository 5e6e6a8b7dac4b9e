import Flip.DaemonHandler
import Flip.Nbus

/-!
# Waiting for the worker's first message

The worker is started once and the bus is read thirty times. One variable
holds the empty chunk allocated first and each chunk received, and the loop
ends early only on an error, so what it returns after an answer or without
one is whatever that variable holds in the end.
-/

set_option autoImplicit false

namespace Flip.WorkerStart
open Flip.CLib Flip.Nbus Flip.DaemonHandler

structure WorkerDaemonCtx where
  identityName : CString
  pidFile : CString
  urlRootIpc : CString
  nbusCtx : Option NbusCtx

structure Attempt where
  arrived : List Buf
  outcome : RecvOutcome

/-- The allocations, the result of `system` for a command, NULL included, and
the attempts by the loop's counter. -/
structure StartOutcome where
  tmpCtx : Bool
  chunk : Bool
  command : Bool
  system : Option Buf → ℤ
  attempt : ℕ → Attempt

structure Wait where
  chunk : StringCtx
  bus : Bus
  taken : List Buf
  deriving DecidableEq

/-- One `nbus_recieve` into the variable, which only a message changes. -/
def recieveOnce (ctx : Option NbusCtx) (a : Attempt) (w : Wait) : Errno × Wait :=
  let bus := w.bus++a.arrived
  let (ret,chunk,rest) := nbusRecieve a.outcome ctx bus
  (ret,⟨chunk.getD w.chunk,rest,w.taken++bus.take (bus.length-rest.length)⟩)

def startCommand (o : StartOutcome) (wdCtx : WorkerDaemonCtx) : Option Buf :=
  if o.command then
    some (commandLine .asyncStartWorkerDaemon2 wdCtx.identityName wdCtx.pidFile wdCtx.urlRootIpc)
  else none

/-- The loop from its counter down, with or without a message in the last
attempt. -/
def waitLoop (o : StartOutcome) (wdCtx : WorkerDaemonCtx) : ℕ → Wait → Errno × Wait
  | 0, w => (.eok,w)
  | i+1, w =>
    if i+1 = 30 ∧ o.system (startCommand o wdCtx) ≠ 0 then (.eio,w)
    else
      let (ret,w) := recieveOnce wdCtx.nbusCtx (o.attempt (i+1)) w
      if ret ≠ .eok ∧ ret ≠ .eagain then (.eio,w)
      else waitLoop o wdCtx i w

structure Started where
  ret : Errno
  out : Option StringCtx
  bus : Bus
  taken : List Buf
  deriving DecidableEq

def asyncStartWorkerDaemon2 (o : StartOutcome) (wdCtx : WorkerDaemonCtx) (bus : Bus)
    (out : Option StringCtx) : Started :=
  if o.tmpCtx = false then ⟨.enomem,out,bus,[]⟩
  else if o.chunk = false then ⟨.enomem,out,bus,[]⟩
  else
    let (ret,w) := waitLoop o wdCtx 30 ⟨.zero,bus,[]⟩
    ⟨ret,if ret = .eok then some w.chunk else out,w.bus,w.taken⟩

inductive Received where
  | again
  | failed
  | message (chunk : StringCtx)
  deriving DecidableEq

def received (result : Errno × Wait) : Received :=
  match result.1 with
  | .eok => .message result.2.chunk
  | .eagain => .again
  | _ => .failed

def outcomes (ctx : Option NbusCtx) (attempt : ℕ → Attempt) : ℕ → Wait → List Received
  | 0, _ => []
  | i+1, w =>
    received (recieveOnce ctx (attempt (i+1)) w)::
      outcomes ctx attempt i (recieveOnce ctx (attempt (i+1)) w).2

def attempted (o : StartOutcome) (wdCtx : WorkerDaemonCtx) (bus : Bus) : List Received :=
  outcomes wdCtx.nbusCtx o.attempt 30 ⟨.zero,bus,[]⟩

def FirstAnswer (os : List Received) (answer : Received) : Prop :=
  ∃ before after, os = before++answer::after ∧ (∀ o ∈ before, o = .again) ∧ answer ≠ .again

/-- What a caller may expect of a start whose attempts have these outcomes. -/
structure Handshake (os : List Received) (out : Option StringCtx) (s : Started) : Prop where
  answers : s.ret = .eok ↔ ∃ chunk, FirstAnswer os (.message chunk)
  returned : ∀ chunk, FirstAnswer os (.message chunk) →
    s.out = some chunk ∧ chunk.data ≠ none ∧ s.taken.length = 1
  unchanged : s.ret ≠ .eok → s.out = out

structure Launched (o : StartOutcome) (wdCtx : WorkerDaemonCtx) : Prop where
  tmpCtx : o.tmpCtx = true
  chunk : o.chunk = true
  system : o.system (startCommand o wdCtx) = 0

/-- The first answer is an error, or a message that nothing follows. -/
def OneAnswer (os : List Received) : Prop :=
  ∃ before answer after, os = before++answer::after ∧ (∀ o ∈ before, o = .again) ∧
    answer ≠ .again ∧ (answer ≠ .failed → ∀ o ∈ after, o = .again)

def Received.chunk? : Received → Option StringCtx
  | .message chunk => some chunk
  | _ => none

def messages (os : List Received) : List StringCtx := os.filterMap Received.chunk?

section Attempts

variable (ctx : Option NbusCtx) (a : Attempt) (w : Wait)

/-- Silence, a message or an error. Silence and an error leave the variable as
it is, and a message takes one frame off the bus. -/
theorem recieve_once_cases :
    (∃ bus, recieveOnce ctx a w = (.eagain,⟨w.chunk,bus,w.taken⟩)) ∨
    (∃ data size bus frame,
      recieveOnce ctx a w = (.eok,⟨⟨some data,size⟩,bus,w.taken++[frame]⟩)) ∨
    (∃ ret w', ret ≠ .eok ∧ ret ≠ .eagain ∧ recieveOnce ctx a w = (ret,w')) := by
  rw [recieveOnce]
  generalize w.bus++a.arrived = bus
  obtain ⟨arrived,tmpCtx,chunk,recv,data⟩ := a
  have herror : ∀ ret w', ret ≠ .eok → ret ≠ .eagain → ∃ r v, r ≠ .eok ∧ r ≠ .eagain ∧
      ((ret,w') : Errno × Wait) = (r,v) := fun ret w' hok hagain => ⟨ret,w',hok,hagain,rfl⟩
  cases ctx with
  | none => exact .inr (.inr (herror _ _ (by decide) (by decide)))
  | some ctx =>
    cases tmpCtx with
    | false => exact .inr (.inr (herror _ _ (by decide) (by decide)))
    | true =>
      cases chunk with
      | false => exact .inr (.inr (herror _ _ (by decide) (by decide)))
      | true =>
        cases recv with
        | false => exact .inr (.inr (herror _ _ (by decide) (by decide)))
        | true =>
          cases bus with
          | nil => exact .inl ⟨[],by simp [nbusRecieve]⟩
          | cons frame rest =>
            cases data with
            | false => exact .inr (.inr (herror _ _ (by decide) (by decide)))
            | true =>
              exact .inr (.inl ⟨tallocStrndup frame frame.length,_,rest,frame,
                by simp [nbusRecieve]; rfl⟩)

end Attempts

theorem outcomes_succ {ctx : Option NbusCtx} {attempt : ℕ → Attempt} {i : ℕ} {w w' : Wait}
    {ret : Errno} (hr : recieveOnce ctx (attempt (i+1)) w = (ret,w')) :
    outcomes ctx attempt (i+1) w = received (ret,w')::outcomes ctx attempt i w' := by
  rw [outcomes, hr]

theorem received_error {ret : Errno} (w : Wait) (hok : ret ≠ .eok) (hagain : ret ≠ .eagain) :
    received (ret,w) = .failed := by
  cases ret with
  | eok => exact absurd rfl hok
  | eagain => exact absurd rfl hagain
  | _ => rfl

theorem first_answer_iff (os : List Received) (answer : Received) :
    FirstAnswer os answer ↔ os.find? (· ≠ .again) = some answer := by
  rw [List.find?_eq_some_iff_append, FirstAnswer]
  simp only [decide_eq_true_eq, Bool.not_eq_true', decide_eq_false_iff_not, not_not, ne_eq]
  constructor
  · rintro ⟨before,after,hsplit,hbefore,hanswer⟩
    exact ⟨hanswer,before,after,hsplit,hbefore⟩
  · rintro ⟨hanswer,before,after,hsplit,hbefore⟩
    exact ⟨before,after,hsplit,hbefore,hanswer⟩

theorem first_answer_unique (os : List Received) (x y : Received) (hx : FirstAnswer os x)
    (hy : FirstAnswer os y) : x = y := by
  rw [first_answer_iff] at hx hy
  rw [hx] at hy
  exact Option.some.inj hy

theorem exists_first_answer (os : List Received) (o : Received) (ho : o ∈ os)
    (hagain : o ≠ .again) : ∃ answer, FirstAnswer os answer := by
  have hsome : (os.find? (· ≠ .again)).isSome := by
    rw [List.find?_isSome]
    exact ⟨o,ho,by simpa using hagain⟩
  obtain ⟨answer,hanswer⟩ := Option.isSome_iff_exists.mp hsome
  exact ⟨answer,(first_answer_iff os answer).mpr hanswer⟩

theorem messages_again (os : List Received) (h : ∀ o ∈ os, o = .again) : messages os = [] := by
  rw [messages, List.filterMap_eq_nil_iff]
  intro o ho
  rw [h o ho]
  rfl

theorem messages_first (before after : List Received) (chunk : StringCtx)
    (h : ∀ o ∈ before, o = .again) :
    messages (before++.message chunk::after) = chunk::messages after := by
  have hbefore := messages_again before h
  rw [messages] at hbefore
  rw [messages, List.filterMap_append, hbefore]
  rfl

theorem messages_eq_nil (os : List Received) (h : messages os = []) (hfailed : .failed ∉ os) :
    ∀ o ∈ os, o = .again := by
  intro o ho
  have hnone := List.filterMap_eq_nil_iff.mp h o ho
  cases o with
  | again => rfl
  | failed => exact absurd ho hfailed
  | message chunk => cases hnone

section Loop

variable {o : StartOutcome} {wdCtx : WorkerDaemonCtx} (h : Launched o wdCtx)

include h

theorem wait_loop_succ (i : ℕ) (w : Wait) :
    waitLoop o wdCtx (i+1) w =
      let (ret,w) := recieveOnce wdCtx.nbusCtx (o.attempt (i+1)) w
      if ret ≠ .eok ∧ ret ≠ .eagain then (.eio,w) else waitLoop o wdCtx i w := by
  rw [waitLoop, if_neg (fun hsystem => hsystem.2 h.system)]

theorem wait_loop_failed (i : ℕ) (w : Wait)
    (hf : .failed ∈ outcomes wdCtx.nbusCtx o.attempt i w) : (waitLoop o wdCtx i w).1 = .eio := by
  induction i generalizing w with
  | zero => cases hf
  | succ i ih =>
    rw [wait_loop_succ h]
    rcases recieve_once_cases wdCtx.nbusCtx (o.attempt (i+1)) w with
      ⟨bus,hr⟩ | ⟨data,size,bus,frame,hr⟩ | ⟨ret,w',hok,hagain,hr⟩
    · rw [outcomes_succ hr] at hf
      rw [hr]
      exact ih _ (List.mem_of_ne_of_mem (fun hne => by cases hne) hf)
    · rw [outcomes_succ hr] at hf
      rw [hr]
      exact ih _ (List.mem_of_ne_of_mem (fun hne => by cases hne) hf)
    · rw [hr]
      simp only [if_pos (And.intro hok hagain)]

theorem wait_loop_answered (i : ℕ) (w : Wait)
    (hf : .failed ∉ outcomes wdCtx.nbusCtx o.attempt i w) :
    ∃ w', waitLoop o wdCtx i w = (.eok,w') ∧
      w'.chunk = (messages (outcomes wdCtx.nbusCtx o.attempt i w)).getLast?.getD w.chunk ∧
      w'.taken.length =
        w.taken.length+(messages (outcomes wdCtx.nbusCtx o.attempt i w)).length := by
  induction i generalizing w with
  | zero => exact ⟨w,rfl,rfl,rfl⟩
  | succ i ih =>
    rw [wait_loop_succ h]
    rcases recieve_once_cases wdCtx.nbusCtx (o.attempt (i+1)) w with
      ⟨bus,hr⟩ | ⟨data,size,bus,frame,hr⟩ | ⟨ret,w',hok,hagain,hr⟩
    · rw [outcomes_succ hr] at hf ⊢
      rw [hr]
      exact ih _ (List.not_mem_of_not_mem_cons hf)
    · rw [outcomes_succ hr] at hf ⊢
      rw [hr]
      obtain ⟨w',hrun,hchunk,htaken⟩ := ih _ (List.not_mem_of_not_mem_cons hf)
      refine ⟨w',hrun,?_,?_⟩
      · change _ = (_::messages _).getLast?.getD _
        rw [hchunk, List.getLast?_cons, Option.getD_some]
      · change _ = w.taken.length+(_::messages _).length
        rw [htaken, List.length_append, List.length_cons, List.length_cons, List.length_nil]
        omega
    · rw [outcomes_succ hr, received_error w' hok hagain] at hf
      exact absurd (List.mem_cons_self) hf

end Loop

theorem message_data (ctx : Option NbusCtx) (attempt : ℕ → Attempt) (i : ℕ) (w : Wait)
    (chunk : StringCtx) (hm : .message chunk ∈ outcomes ctx attempt i w) : chunk.data ≠ none := by
  induction i generalizing w with
  | zero => cases hm
  | succ i ih =>
    rcases recieve_once_cases ctx (attempt (i+1)) w with
      ⟨bus,hr⟩ | ⟨data,size,bus,frame,hr⟩ | ⟨ret,w',hok,hagain,hr⟩
    · rw [outcomes_succ hr] at hm
      exact ih _ (List.mem_of_ne_of_mem (fun hne => by cases hne) hm)
    · rw [outcomes_succ hr] at hm
      rcases List.mem_cons.mp hm with hm | hm
      · cases hm
        exact Option.some_ne_none data
      · exact ih _ hm
    · rw [outcomes_succ hr, received_error w' hok hagain] at hm
      exact ih _ (List.mem_of_ne_of_mem (fun hne => by cases hne) hm)

section Start

variable {o : StartOutcome} {wdCtx : WorkerDaemonCtx} (h : Launched o wdCtx) (bus : Bus)
  (out : Option StringCtx)

include h

theorem start_loop :
    asyncStartWorkerDaemon2 o wdCtx bus out =
      let (ret,w) := waitLoop o wdCtx 30 ⟨.zero,bus,[]⟩
      ⟨ret,if ret = .eok then some w.chunk else out,w.bus,w.taken⟩ := by
  simp only [asyncStartWorkerDaemon2, h.tmpCtx, h.chunk, Bool.true_eq_false, if_false]

theorem start_failed (hf : .failed ∈ attempted o wdCtx bus) :
    (asyncStartWorkerDaemon2 o wdCtx bus out).ret = .eio ∧
      (asyncStartWorkerDaemon2 o wdCtx bus out).out = out := by
  have hret := wait_loop_failed h 30 ⟨.zero,bus,[]⟩ hf
  rw [start_loop h bus out]
  exact ⟨hret,if_neg (by rw [hret]; decide)⟩

theorem start_answered (hf : .failed ∉ attempted o wdCtx bus) :
    (asyncStartWorkerDaemon2 o wdCtx bus out).ret = .eok ∧
      (asyncStartWorkerDaemon2 o wdCtx bus out).out =
        some ((messages (attempted o wdCtx bus)).getLast?.getD .zero) ∧
      (asyncStartWorkerDaemon2 o wdCtx bus out).taken.length =
        (messages (attempted o wdCtx bus)).length := by
  obtain ⟨w,hrun,hchunk,htaken⟩ := wait_loop_answered h 30 ⟨.zero,bus,[]⟩ hf
  rw [start_loop h bus out, hrun]
  exact ⟨rfl,congrArg some hchunk,htaken.trans (Nat.zero_add _)⟩

theorem handshake_failed (hfirst : FirstAnswer (attempted o wdCtx bus) .failed) :
    Handshake (attempted o wdCtx bus) out (asyncStartWorkerDaemon2 o wdCtx bus out) := by
  have hno : ∀ chunk, ¬FirstAnswer (attempted o wdCtx bus) (.message chunk) := by
    intro chunk hmessage
    cases first_answer_unique _ _ _ hfirst hmessage
  obtain ⟨before,after,hsplit,-,-⟩ := hfirst
  obtain ⟨hret,hout⟩ := start_failed h bus out (by rw [hsplit]; simp)
  constructor
  · rw [hret]
    exact iff_of_false (by decide) (fun ⟨chunk,hmessage⟩ => hno chunk hmessage)
  · exact fun chunk hmessage => absurd hmessage (hno chunk)
  · exact fun _ => hout

theorem handshake_message (before after : List Received) (chunk : StringCtx)
    (hsplit : attempted o wdCtx bus = before++.message chunk::after)
    (hbefore : ∀ o ∈ before, o = .again) (hafter : ∀ o ∈ after, o = .again) :
    Handshake (attempted o wdCtx bus) out (asyncStartWorkerDaemon2 o wdCtx bus out) := by
  have hfirst : FirstAnswer (attempted o wdCtx bus) (.message chunk) :=
    ⟨before,after,hsplit,hbefore,fun hne => by cases hne⟩
  have hfailed : .failed ∉ attempted o wdCtx bus := by
    rw [hsplit, List.mem_append, List.mem_cons]
    rintro (hmem | hmem | hmem)
    · cases hbefore _ hmem
    · cases hmem
    · cases hafter _ hmem
  have hmessages : messages (attempted o wdCtx bus) = [chunk] := by
    rw [hsplit, messages_first before after chunk hbefore, messages_again after hafter]
  obtain ⟨hret,hout,htaken⟩ := start_answered h bus out hfailed
  rw [hmessages] at hout htaken
  constructor
  · exact iff_of_true hret ⟨chunk,hfirst⟩
  · intro c hc
    cases first_answer_unique _ _ _ hfirst hc
    have hmem : .message chunk ∈ attempted o wdCtx bus := by
      rw [hsplit]
      simp
    exact ⟨hout,message_data _ _ _ _ chunk hmem,htaken⟩
  · exact fun hne => absurd hret hne

theorem answered_once (hfailed : .failed ∉ attempted o wdCtx bus)
    (hs : Handshake (attempted o wdCtx bus) out (asyncStartWorkerDaemon2 o wdCtx bus out)) :
    OneAnswer (attempted o wdCtx bus) := by
  obtain ⟨hret,-,htaken⟩ := start_answered h bus out hfailed
  obtain ⟨chunk,hfirst⟩ := hs.answers.mp hret
  have hone := (hs.returned chunk hfirst).2.2
  obtain ⟨before,after,hsplit,hbefore,hanswer⟩ := hfirst
  rw [htaken, hsplit, messages_first before after chunk hbefore, List.length_cons] at hone
  have hnil : messages after = [] := List.length_eq_zero_iff.mp (Nat.succ_injective hone)
  have hafter : .failed ∉ after := by
    intro hmem
    rw [hsplit] at hfailed
    exact hfailed (List.mem_append_right _ (List.mem_cons_of_mem _ hmem))
  exact ⟨before,_,after,hsplit,hbefore,hanswer,fun _ => messages_eq_nil after hnil hafter⟩

end Start

/-- The handshake is kept exactly when the first attempt that is not silent
fails, or receives a message and only silence follows. -/
theorem handshake_iff (o : StartOutcome) (wdCtx : WorkerDaemonCtx) (h : Launched o wdCtx)
    (bus : Bus) (out : Option StringCtx) :
    Handshake (attempted o wdCtx bus) out (asyncStartWorkerDaemon2 o wdCtx bus out) ↔
      OneAnswer (attempted o wdCtx bus) := by
  constructor
  · intro hs
    by_cases hfailed : .failed ∈ attempted o wdCtx bus
    · obtain ⟨answer,hfirst⟩ := exists_first_answer _ _ hfailed (fun hne => by cases hne)
      obtain ⟨before,after,hsplit,hbefore,hanswer⟩ := hfirst
      refine ⟨before,answer,after,hsplit,hbefore,hanswer,fun hne => ?_⟩
      cases answer with
      | again => exact absurd rfl hanswer
      | failed => exact absurd rfl hne
      | message chunk =>
        have hret := hs.answers.mpr ⟨chunk,before,after,hsplit,hbefore,hanswer⟩
        rw [(start_failed h bus out hfailed).1] at hret
        cases hret
    · exact answered_once h bus out hfailed hs
  · rintro ⟨before,answer,after,hsplit,hbefore,hanswer,hafter⟩
    cases answer with
    | again => exact absurd rfl hanswer
    | failed => exact handshake_failed h bus out ⟨before,after,hsplit,hbefore,hanswer⟩
    | message chunk =>
      exact handshake_message h bus out before after chunk hsplit hbefore
        (hafter (fun hne => by cases hne))

def someWorker : WorkerDaemonCtx where
  identityName := ⟨ascii "worker",by decide⟩
  pidFile := ⟨ascii "worker.pid",by decide⟩
  urlRootIpc := ⟨ascii "ipc:///tmp",by decide⟩
  nbusCtx := some ⟨0,0⟩

def greeting : CString := ⟨ascii "hello",by decide⟩

def greetingStart : StartOutcome :=
  ⟨true,true,true,fun _ => 0,fun i => ⟨if i = 29 then [greeting.bytes] else [],.good⟩⟩

theorem greeting_handshake :
    Handshake (attempted greetingStart someWorker []) none
      (asyncStartWorkerDaemon2 greetingStart someWorker [] none) := by
  have hattempted : attempted greetingStart someWorker [] =
      [.again]++.message ⟨some greeting,tallocArrayLength greeting⟩::List.replicate 28 .again := by
    decide
  refine (handshake_iff greetingStart someWorker ⟨rfl,rfl,rfl⟩ [] none).mpr ?_
  exact ⟨_,_,_,hattempted,by simp,by simp,fun _ o ho => List.eq_of_mem_replicate ho⟩

def silentStart : StartOutcome := ⟨true,true,true,fun _ => 0,fun _ => ⟨[],.good⟩⟩

/-- Thirty silent attempts give a chunk without data and no error. -/
theorem silent_start_succeeds :
    asyncStartWorkerDaemon2 silentStart someWorker [] none = ⟨.eok,some .zero,[],[]⟩ ∧
      ¬∀ o wdCtx, Launched o wdCtx → ∀ bus out,
        Handshake (attempted o wdCtx bus) out (asyncStartWorkerDaemon2 o wdCtx bus out) := by
  have hrun : asyncStartWorkerDaemon2 silentStart someWorker [] none =
      ⟨.eok,some .zero,[],[]⟩ := by decide
  refine ⟨hrun,fun hall => ?_⟩
  have hs := hall silentStart someWorker ⟨rfl,rfl,rfl⟩ [] none
  obtain ⟨chunk,hfirst⟩ := hs.answers.mp (by rw [hrun])
  rw [first_answer_iff, show attempted silentStart someWorker [] = List.replicate 30 .again by
    decide] at hfirst
  cases hfirst

end Flip.WorkerStart
