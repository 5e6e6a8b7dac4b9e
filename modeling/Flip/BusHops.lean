import Flip.Msg
import Flip.Nbus
import Flip.Url

/-!
# Passing a chunk on

A chunk is sent with the size it says it has and the receiver makes a chunk of
what arrives. The fetched and the received chunks count their terminator in
the size, the serialized ones do not.
-/

set_option autoImplicit false

namespace Flip.BusHops
open Flip.CLib Flip.Msg Flip.Nbus Flip.Url

inductive Producer where
  | serializeMessage
  | writeMemoryCallback
  | nbusRecieve
  deriving DecidableEq

/-- A chunk that a producer makes of some bytes: of a message, of a body that
comes in one block, or of a frame. -/
inductive Produced : Producer → StringCtx → Prop where
  | serialized (a : SerializeAlloc) (msg : MsgCtx) (chunk : StringCtx)
      (h : serializeMessage a (some msg) = .ok (.eok,some chunk)) :
      Produced .serializeMessage chunk
  | fetched (block : Buf) (mem : StringCtx) (chunk : StringCtx) (hne : block ≠ [])
      (h : writeMemoryCallback true block 1 block.length mem = (block.length,chunk)) :
      Produced .writeMemoryCallback chunk
  | received (o : RecvOutcome) (ctx : NbusCtx) (frame : Buf) (rest : Bus) (chunk : StringCtx)
      (h : nbusRecieve o (some ctx) (frame::rest) = (.eok,some chunk,rest)) :
      Produced .nbusRecieve chunk

variable (sender receiver : NbusCtx)

def hop (chunk : StringCtx) : Option StringCtx :=
  match nbusSend true (some sender) chunk.data chunk.size [] with
  | .ok (.eok,bus) => (nbusRecieve .good (some receiver) bus).2.1
  | _ => none

def hops : ℕ → StringCtx → Option StringCtx
  | 0, chunk => some chunk
  | k+1, chunk => (hop sender receiver chunk).bind (hops k)

def counted (s : CString) : StringCtx := ⟨some s,s.strlen+1⟩

/-- The chunk of a string as the serializer makes it. -/
def uncounted (s : CString) : StringCtx := ⟨some s,s.strlen⟩

theorem strndup_memory (s : CString) : tallocStrndup s.memory s.memory.length = s := by
  have hall : ∀ c ∈ s.bytes, c ≠ 0 := fun c hc hz => s.nulFree (hz ▸ hc)
  have hwhole : (s.memory.take s.memory.length).takeWhile (· ≠ 0) = s.bytes := by
    rw [List.take_length, CString.memory, List.takeWhile_append_of_pos (by simpa using hall)]
    simp
  exact CString.ext hwhole

theorem strndup_bytes (s : CString) : tallocStrndup s.bytes s.bytes.length = s :=
  CString.ext (strndup_whole s.bytes s.nulFree)

theorem hop_counted (s : CString) : hop sender receiver (counted s) = some (counted s) := by
  simp only [hop, counted, send_memory, nbusRecieve, List.nil_append, RecvOutcome.good,
    Bool.not_true, Bool.false_eq_true, if_false, strndup_memory, tallocArrayLength]

theorem hop_uncounted (s : CString) : hop sender receiver (uncounted s) = some (counted s) := by
  simp only [hop, uncounted, counted, send_string, nbusRecieve, List.nil_append, RecvOutcome.good,
    Bool.not_true, Bool.false_eq_true, if_false, strndup_bytes, tallocArrayLength]

theorem hops_counted (k : ℕ) (s : CString) :
    hops sender receiver k (counted s) = some (counted s) := by
  induction k with
  | zero => rfl
  | succ k ih => rw [hops, hop_counted, Option.bind_some, ih]

theorem hops_uncounted (k : ℕ) (s : CString) :
    hops sender receiver (k+1) (uncounted s) = some (counted s) := by
  rw [hops, hop_uncounted, Option.bind_some, hops_counted]

theorem uncounted_changes (k : ℕ) (s : CString) :
    hops sender receiver (k+1) (uncounted s) ≠ some (uncounted s) := by
  rw [hops_uncounted]
  simp [counted, uncounted]

theorem produced_chunk (p : Producer) (chunk : StringCtx) (h : Produced p chunk) :
    ∃ s, chunk = if p = .serializeMessage then uncounted s else counted s := by
  cases h with
  | serialized a msg chunk h =>
    simp only [serializeMessage] at h
    split at h
    · cases h
    · split at h
      · split_ifs at h
        cases h
        exact ⟨_,rfl⟩
      · cases h
  | fetched block mem chunk hne h =>
    have hlength : block.length ≠ 0 := by simpa using hne
    simp only [writeMemoryCallback, Nat.one_mul, if_neg hlength, if_true] at h
    cases h
    exact ⟨_,rfl⟩
  | received o ctx frame rest chunk h =>
    simp only [nbusRecieve] at h
    split_ifs at h <;> cases h
    exact ⟨_,rfl⟩

/-- After any number of hops a chunk is what it was, unless it came from the
serializer: then it never is. -/
theorem hops_identity_iff (p : Producer) (chunk : StringCtx) (hp : Produced p chunk) (k : ℕ)
    (hk : 1 ≤ k) : hops sender receiver k chunk = some chunk ↔ p ≠ .serializeMessage := by
  obtain ⟨s,rfl⟩ := produced_chunk p chunk hp
  by_cases hserialize : p = .serializeMessage
  · obtain ⟨k,rfl⟩ := Nat.exists_eq_add_of_le' hk
    rw [if_pos hserialize]
    exact iff_of_false (uncounted_changes sender receiver k s) (fun hne => hne hserialize)
  · rw [if_neg hserialize, hops_counted]
    simp [hserialize]

theorem fetched_chunk_hops :
    hops ⟨0,0⟩ ⟨1,1⟩ 3 (counted ⟨ascii "body",by decide⟩) =
        some (counted ⟨ascii "body",by decide⟩) ↔
      Producer.writeMemoryCallback ≠ .serializeMessage :=
  hops_identity_iff ⟨0,0⟩ ⟨1,1⟩ .writeMemoryCallback (counted ⟨ascii "body",by decide⟩)
    (.fetched (ascii "body") .zero _ (by decide) rfl) 3 (by decide)

def plainMessage : MsgCtx :=
  { MsgCtx.zero with sender := some ⟨ascii "x",by decide⟩, recepient := some ⟨ascii "y",by decide⟩ }

theorem serialized_grows :
    ∃ s : CString,
      serializeMessage ⟨true,true,true⟩ (some plainMessage) = .ok (.eok,some ⟨some s,s.strlen⟩) ∧
      hops ⟨0,0⟩ ⟨1,1⟩ 1 ⟨some s,s.strlen⟩ = some ⟨some s,s.strlen+1⟩ ∧
      hops ⟨0,0⟩ ⟨1,1⟩ 1 ⟨some s,s.strlen⟩ ≠ some ⟨some s,s.strlen⟩ := by
  exact ⟨_,rfl,hops_uncounted ⟨0,0⟩ ⟨1,1⟩ 0 _,uncounted_changes ⟨0,0⟩ ⟨1,1⟩ 0 _⟩

end Flip.BusHops
