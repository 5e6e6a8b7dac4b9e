import Flip.CLib

/-!
# Sending and receiving on a bus

A bus is the list of the frames that were put on it. `nn_send` either puts
all bytes on the bus and returns their number or puts nothing on it, and
`nn_recv` takes the oldest frame.
-/

set_option autoImplicit false

namespace Flip.Nbus
open Flip.CLib

structure NbusCtx where
  sockFd : ℤ
  endpointId : ℤ
  deriving DecidableEq

abbrev Bus := List Buf

def readMemory (msg : Option CString) (size : ℕ) : Except Fault Buf :=
  match msg with
  | none => .error .nullDeref
  | some s => if size ≤ s.memory.length then .ok (s.memory.take size)
      else .error (.outOfBounds s.memory.length)

def nbusSend (sent : Bool) (ctx : Option NbusCtx) (msg : Option CString) (size : ℕ) (bus : Bus) :
    Except Fault (Errno × Bus) :=
  match ctx with
  | none => .ok (.enoent,bus)
  | some _ => (readMemory msg size).map (fun frame =>
      if sent then (.eok,bus++[frame]) else (.eio,bus))

/-- Which of the calls inside one receive succeed. An empty bus is no failure
of `nn_recv`. -/
structure RecvOutcome where
  tmpCtx : Bool
  chunk : Bool
  recv : Bool
  data : Bool

def RecvOutcome.good : RecvOutcome := ⟨true,true,true,true⟩

def RecvOutcome.Polls (o : RecvOutcome) : Prop := o.tmpCtx = true ∧ o.chunk = true ∧ o.recv = true

instance (o : RecvOutcome) : Decidable o.Polls := inferInstanceAs (Decidable (_ ∧ _ ∧ _))

def nbusRecieve (o : RecvOutcome) (ctx : Option NbusCtx) (bus : Bus) :
    Errno × Option StringCtx × Bus :=
  match ctx with
  | none => (.enoent,none,bus)
  | some _ =>
    if !o.tmpCtx then (.enomem,none,bus)
    else if !o.chunk then (.enomem,none,bus)
    else if !o.recv then (.eio,none,bus)
    else
      match bus with
      | [] => (.eagain,none,[])
      | frame::rest =>
        if !o.data then (.enomem,none,rest)
        else
          let data := tallocStrndup frame frame.length
          (.eok,some ⟨some data,tallocArrayLength data⟩,rest)

def nbusClose (shutdown : Bool) (ctx : Option NbusCtx) : Errno :=
  match ctx with
  | none => .eok
  | some _ => if shutdown then .eok else .enoent

theorem send_outcome (sent : Bool) (ctx : NbusCtx) (s : CString) (bus : Bus) :
    nbusSend sent (some ctx) (some s) s.strlen bus =
      .ok (if sent then (.eok,bus++[s.bytes]) else (.eio,bus)) := by
  simp [nbusSend, readMemory, CString.memory, CString.strlen, Except.map]

/-- A string sent with its length arrives without the terminator. -/
theorem send_string (ctx : NbusCtx) (s : CString) (bus : Bus) :
    nbusSend true (some ctx) (some s) s.strlen bus = .ok (.eok,bus++[s.bytes]) :=
  send_outcome true ctx s bus

/-- A string sent with its length and one more arrives with the terminator. -/
theorem send_memory (ctx : NbusCtx) (s : CString) (bus : Bus) :
    nbusSend true (some ctx) (some s) (s.strlen+1) bus = .ok (.eok,bus++[s.memory]) := by
  simp [nbusSend, readMemory, CString.memory, CString.strlen, Except.map]

theorem recieve_polls (o : RecvOutcome) (ctx : NbusCtx) (bus : Bus) (h : o.Polls) :
    nbusRecieve o (some ctx) bus =
      match bus with
      | [] => (.eagain,none,[])
      | frame::rest =>
        if o.data = false then (.enomem,none,rest)
        else (.eok,some ⟨some (tallocStrndup frame frame.length),
          tallocArrayLength (tallocStrndup frame frame.length)⟩,rest) := by
  obtain ⟨htmp,hchunk,hrecv⟩ := h
  cases bus with
  | nil => simp [nbusRecieve, htmp, hchunk, hrecv]
  | cons frame rest => simp [nbusRecieve, htmp, hchunk, hrecv]

theorem recieve_fails (o : RecvOutcome) (ctx : NbusCtx) (bus : Bus) (h : ¬o.Polls) :
    ∃ ret, ret ≠ .eok ∧ ret ≠ .eagain ∧ nbusRecieve o (some ctx) bus = (ret,none,bus) := by
  obtain ⟨tmpCtx,chunk,recv,data⟩ := o
  cases tmpCtx with
  | false => exact ⟨.enomem,by simp,by simp,by simp [nbusRecieve]⟩
  | true =>
    cases chunk with
    | false => exact ⟨.enomem,by simp,by simp,by simp [nbusRecieve]⟩
    | true =>
      cases recv with
      | false => exact ⟨.eio,by simp,by simp,by simp [nbusRecieve]⟩
      | true => exact absurd ⟨rfl,rfl,rfl⟩ h

end Flip.Nbus
