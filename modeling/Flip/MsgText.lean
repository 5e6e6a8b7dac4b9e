import Flip.Msg
import Flip.JsonObject

/-!
# What the text of a message decodes to

The text is read member by member. Sender and receiver are pasted between
quotes without escaping, so they come back exactly when they are plain UTF-8;
the clock is printed as an unsigned number, so it comes back exactly when it
is not negative.
-/

set_option autoImplicit false

namespace Flip.MsgText
open Flip.CLib Flip.Decimal Flip.Utf8 Flip.JsonText Flip.JsonReading Flip.JsonObject Flip.Msg

structure Message where
  sender : CString
  recepient : CString
  timestamp : Int64
  messageType : MessageType
  data : Option CString

def Message.ctx (m : Message) : MsgCtx :=
  ⟨some m.sender,some m.recepient,m.timestamp,m.messageType,m.data⟩

def Message.dataText (m : Message) : Buf := (m.data.map CString.bytes).getD (ascii "{}")

def Message.dataValue (m : Message) : Option JVal := decode m.dataText

def Message.text (m : Message) : Buf :=
  schema m.sender m.recepient m.timestamp m.messageType m.data

def Message.fields (m : Message) (v : JVal) : List (Buf × JVal) :=
  [(ascii "sender",.str m.sender.bytes),(ascii "recepient",.str m.recepient.bytes),
    (ascii "timestamp",.num m.timestamp.toInt 0),
    (ascii "message_type",.num m.messageType.code 0),(ascii "message_data",v)]

def Clean (s : CString) : Prop := Plain s.bytes ∧ Valid s.bytes

def dataPart (d : Buf) : Buf :=
  quote::(ascii "message_data"++quote::colon::32::(d++[rbrace]))

def typePart (ty : ℕ) (d : Buf) : Buf :=
  quote::(ascii "message_type"++quote::colon::32::(decimal ty++comma::32::dataPart d))

def timePart (t ty : ℕ) (d : Buf) : Buf :=
  quote::(ascii "timestamp"++quote::colon::32::(decimal t++comma::32::typePart ty d))

def recepientPart (r : Buf) (t ty : ℕ) (d : Buf) : Buf :=
  quote::(ascii "recepient"++quote::colon::quote::(r++quote::comma::32::timePart t ty d))

def senderPart (s r : Buf) (t ty : ℕ) (d : Buf) : Buf :=
  quote::(ascii "sender"++quote::colon::32::quote::
    (s++quote::comma::32::recepientPart r t ty d))

theorem text_parts (m : Message) :
    m.text = lbrace::senderPart m.sender.bytes m.recepient.bytes m.timestamp.toUInt64.toNat
      m.messageType.code m.dataText := by
  have h1 : ascii "\x7b\"sender\": \"" =
    lbrace::quote::(ascii "sender"++[quote,colon,32,quote]) := by decide
  have h2 : ascii "\", \"recepient\":\"" =
    quote::comma::32::quote::(ascii "recepient"++[quote,colon,quote]) := by decide
  have h3 : ascii "\", \"timestamp\": " =
    quote::comma::32::quote::(ascii "timestamp"++[quote,colon,32]) := by decide
  have h4 : ascii ", \"message_type\": " =
    comma::32::quote::(ascii "message_type"++[quote,colon,32]) := by decide
  have h5 : ascii ", \"message_data\": " =
    comma::32::quote::(ascii "message_data"++[quote,colon,32]) := by decide
  have h6 : ascii "\x7d" = [rbrace] := by decide
  simp [Message.text, schema, h1, h2, h3, h4, h5, h6, senderPart, recepientPart, timePart,
    typePart, dataPart, Message.dataText]

theorem decode_valid (text : Buf) (v : JVal) (h : decode text = some v) : Valid text := by
  by_contra hn
  simp [decode, hn] at h

theorem data_valid (n : ℕ) (d : Buf) (hd : Valid d) : Valid (decimal n++comma::32::d) := by
  rw [valid_ascii_append]
  · rw [valid_cons _ _ (by decide), valid_cons _ _ (by decide)]
    exact hd
  · intro c hc
    have := decimal_digits n c hc
    simp only [isDigit, Bool.and_eq_true, decide_eq_true_eq] at this
    exact UInt8.le_trans this.2 (by decide)

theorem time_part_valid (t ty : ℕ) (d : Buf) (hd : Valid d) : Valid (timePart t ty d) := by
  have hbrace : Valid (d++[rbrace]) := (valid_split d [] rbrace (by decide)).mpr ⟨hd,rfl⟩
  have hdata : Valid (dataPart d) := by
    rw [dataPart, valid_cons _ _ (by decide), valid_ascii_append _ _ (by decide)]
    simpa [valid_cons, show IsAscii quote by decide, show IsAscii colon by decide,
      show IsAscii 32 by decide] using hbrace
  have htype : Valid (typePart ty d) := by
    rw [typePart, valid_cons _ _ (by decide), valid_ascii_append _ _ (by decide)]
    simpa [valid_cons, show IsAscii quote by decide, show IsAscii colon by decide,
      show IsAscii 32 by decide] using data_valid ty _ hdata
  rw [timePart, valid_cons _ _ (by decide), valid_ascii_append _ _ (by decide)]
  simpa [valid_cons, show IsAscii quote by decide, show IsAscii colon by decide,
    show IsAscii 32 by decide] using data_valid t _ htype

theorem text_valid_iff (m : Message) (hd : Valid m.dataText) :
    Valid m.text ↔ Valid m.sender.bytes ∧ Valid m.recepient.bytes := by
  have ht := time_part_valid m.timestamp.toUInt64.toNat m.messageType.code _ hd
  have hq : IsAscii quote := by decide
  have hc : IsAscii colon := by decide
  have hb : IsAscii 32 := by decide
  have hm : IsAscii comma := by decide
  rw [text_parts, valid_cons _ _ (by decide), senderPart, valid_cons _ _ hq,
    valid_ascii_append _ _ (by decide), valid_cons _ _ hq, valid_cons _ _ hc, valid_cons _ _ hb,
    valid_cons _ _ hq, valid_split _ _ _ hq, valid_cons _ _ hm, valid_cons _ _ hb,
    recepientPart, valid_cons _ _ hq, valid_ascii_append _ _ (by decide), valid_cons _ _ hq,
    valid_cons _ _ hc, valid_cons _ _ hq, valid_split _ _ _ hq, valid_cons _ _ hm,
    valid_cons _ _ hb]
  simp [ht]

theorem read_data (n : ℕ) (d r : Buf) (v : JVal) (hv : value n d = some (v,r))
    (hr : skipBlanks r = []) :
    members (n+1) (dataPart d) = some ([(ascii "message_data",v)],[]) := by
  have hs := (stable_value n).1 d v r [] hv
  rw [dataPart, members_key n _ _ (by decide), value_blank, hs, Option.bind_some,
    member_tail_end n _ r [] v hr]

theorem read_type (n ty : ℕ) (d r : Buf) (v : JVal) (hv : value (n+1) d = some (v,r))
    (hr : skipBlanks r = []) :
    members (n+3) (typePart ty d) =
      some ([(ascii "message_type",.num ty 0),(ascii "message_data",v)],[]) := by
  have hd := read_data (n+1) d r v hv hr
  rw [dataPart] at hd
  rw [typePart, dataPart, decimal_member (n+1) ty _ _ (by decide), hd]
  rfl

theorem read_time (n t ty : ℕ) (d r : Buf) (v : JVal) (hv : value (n+1) d = some (v,r))
    (hr : skipBlanks r = []) :
    members (n+4) (timePart t ty d) =
      some ([(ascii "timestamp",.num t 0),(ascii "message_type",.num ty 0),
        (ascii "message_data",v)],[]) := by
  have ht := read_type n ty d r v hv hr
  rw [typePart] at ht
  rw [timePart, typePart, decimal_member (n+2) t _ _ (by decide), ht]
  rfl

theorem key_blank (n : ℕ) (k s : Buf) (hk : Plain k) :
    members (n+1) (quote::(k++quote::colon::32::s)) =
      members (n+1) (quote::(k++quote::colon::s)) := by
  rw [members_key n k _ hk, members_key n k _ hk, value_blank]

theorem read_message_iff (n t ty : ℕ) (s r d rd rest : Buf) (v : JVal)
    (tail : List (Buf × JVal)) (hv : value (n+1) d = some (v,rd)) (hr : skipBlanks rd = []) :
    members (n+6) (senderPart s r t ty d) =
        some ((ascii "sender",.str s)::(ascii "recepient",.str r)::tail,rest) ↔
      Plain s ∧ Plain r ∧ rest = [] ∧
        tail = [(ascii "timestamp",.num t 0),(ascii "message_type",.num ty 0),
          (ascii "message_data",v)] := by
  have ht := read_time n t ty d rd v hv hr
  rw [senderPart, key_blank _ _ _ (by decide), recepientPart,
    pasted_member _ _ _ _ _ _ (by decide)]
  rw [timePart] at ht ⊢
  rw [pasted_member _ _ _ _ _ _ (by decide), ht]
  simp only [Option.some.injEq, Prod.mk.injEq]
  tauto

theorem timestamp_unsigned (t : Int64) :
    ((t.toUInt64.toNat : ℤ) = t.toInt) ↔ 0 ≤ t.toInt := by
  have hb : t.toInt = (t.toUInt64.toNat : ℤ) ∨
      t.toInt = (t.toUInt64.toNat : ℤ)-2^64 := by
    have := BitVec.toInt_eq_toNat_cond t.toBitVec
    split_ifs at this
    · exact .inl this
    · exact .inr this
  have hlt := t.toUInt64.toNat_lt
  omega

theorem data_text_read (m : Message) (v : JVal) (hv : m.dataValue = some v) :
    Valid m.dataText ∧ ∃ rest, value (m.dataText.length+1) m.dataText = some (v,rest) ∧
      skipBlanks rest = [] := by
  have hd : Valid m.dataText := decode_valid _ _ hv
  refine ⟨hd,?_⟩
  simp only [Message.dataValue, decode, hd, if_true] at hv
  split at hv
  · rename_i w rest hw
    split_ifs at hv with hr
    cases hv
    exact ⟨rest,hw,hr⟩
  · cases hv

theorem text_length (m : Message) : m.dataText.length+7 ≤ m.text.length := by
  simp only [text_parts, senderPart, recepientPart, timePart, typePart, dataPart,
    List.length_cons, List.length_append]
  omega

theorem tail_iff (m : Message) (v : JVal) :
    [(ascii "timestamp",JVal.num m.timestamp.toInt 0),
        (ascii "message_type",.num m.messageType.code 0),(ascii "message_data",v)] =
      [(ascii "timestamp",.num m.timestamp.toUInt64.toNat 0),
        (ascii "message_type",.num m.messageType.code 0),(ascii "message_data",v)] ↔
      0 ≤ m.timestamp.toInt := by
  rw [← timestamp_unsigned]
  simp only [List.cons.injEq, Prod.mk.injEq, JVal.num.injEq, true_and, and_true]
  exact eq_comm

theorem decode_object_iff (text : Buf) (ms : List (Buf × JVal)) (p : Reader (List (Buf × JVal)))
    (hp : value (text.length+1) text = (p text.tail).map (fun r => (.obj r.1,r.2))) :
    decode text = some (.obj ms) ↔
      Valid text ∧ ∃ rest, p text.tail = some (ms,rest) ∧ skipBlanks rest = [] := by
  rw [decode, hp]
  cases h : p text.tail with
  | none => simp
  | some r =>
    obtain ⟨l,rest⟩ := r
    by_cases hr : skipBlanks rest = []
    · simp [hr]
    · simp [hr]

/-- What a text that starts with the two names can decode to: both names are
clean and the clock is read as an unsigned number. -/
theorem decode_names_iff (m : Message) (v : JVal) (tail : List (Buf × JVal))
    (hv : m.dataValue = some v) :
    decode m.text = some (.obj ((ascii "sender",.str m.sender.bytes)::
        (ascii "recepient",.str m.recepient.bytes)::tail)) ↔
      Clean m.sender ∧ Clean m.recepient ∧
        tail = [(ascii "timestamp",.num m.timestamp.toUInt64.toNat 0),
          (ascii "message_type",.num m.messageType.code 0),(ascii "message_data",v)] := by
  obtain ⟨hd,rd,hrd,hblank⟩ := data_text_read m v hv
  obtain ⟨n,hn⟩ := Nat.exists_eq_add_of_le (text_length m)
  have hfuel : value (m.dataText.length+n+2) m.dataText = some (v,rd) :=
    value_fuel (by omega) _ _ hrd
  have hread : value (m.text.length+1) m.text =
      (members (m.dataText.length+n+1+6) m.text.tail).map (fun r => (.obj r.1,r.2)) := by
    rw [hn, text_parts, senderPart, value_object, List.tail_cons]
    congr 2
    omega
  have hmembers := fun rest => read_message_iff (m.dataText.length+n+1)
    m.timestamp.toUInt64.toNat m.messageType.code m.sender.bytes m.recepient.bytes _ rd rest v
    tail hfuel hblank
  rw [decode_object_iff _ _ _ hread, text_valid_iff m hd, text_parts, List.tail_cons]
  constructor
  · rintro ⟨⟨hs,hr⟩,rest,hm,-⟩
    obtain ⟨ps,pr,-,ht⟩ := (hmembers rest).mp hm
    exact ⟨⟨ps,hs⟩,⟨pr,hr⟩,ht⟩
  · rintro ⟨⟨ps,hs⟩,⟨pr,hr⟩,ht⟩
    exact ⟨⟨hs,hr⟩,[],(hmembers []).mpr ⟨ps,pr,rfl,ht⟩,rfl⟩

def Message.Faithful (m : Message) : Prop :=
  Clean m.sender ∧ Clean m.recepient ∧ 0 ≤ m.timestamp.toInt

theorem decode_text_iff (m : Message) (v : JVal) (hv : m.dataValue = some v) :
    decode m.text = some (.obj (m.fields v)) ↔ m.Faithful := by
  rw [Message.Faithful, ← tail_iff m v]
  exact decode_names_iff m v _ hv

def Message.cstring (m : Message) : CString := ⟨m.text,schema_nul_free _ _ _ _ _⟩

theorem serialize_message (m : Message) :
    serializeMessage ⟨true,true,true⟩ (some m.ctx) =
      .ok (.eok,some ⟨some m.cstring,m.cstring.strlen⟩) := rfl

/-- The serialised text is one object with the five members of the message. -/
def Message.ReadsBack (m : Message) : Prop :=
  ∃ text v,
    serializeMessage ⟨true,true,true⟩ (some m.ctx) = .ok (.eok,some ⟨some text,text.strlen⟩) ∧
    m.dataValue = some v ∧ decode text.bytes = some (.obj (m.fields v))

theorem code_injective (a b : MessageType) (h : a.code = b.code) : a = b := by
  cases a <;> cases b <;> simp_all [MessageType.code]

theorem text_injective (m m' : Message) (v v' : JVal) (hv : m.dataValue = some v)
    (hv' : m'.dataValue = some v') (hm : m.Faithful) (hm' : m'.Faithful)
    (h : m.text = m'.text) :
    m.sender = m'.sender ∧ m.recepient = m'.recepient ∧ m.timestamp = m'.timestamp ∧
      m.messageType = m'.messageType ∧ m.dataText = m'.dataText := by
  have hd := (decode_text_iff m v hv).mpr hm
  rw [h, (decode_text_iff m' v' hv').mpr hm'] at hd
  simp only [Message.fields, Option.some.injEq, JVal.obj.injEq, List.cons.injEq, Prod.mk.injEq,
    JVal.str.injEq, JVal.num.injEq, true_and, and_true, Nat.cast_inj] at hd
  obtain ⟨hs,hr,ht,hy,-⟩ := hd
  have hy' := code_injective _ _ hy.symm
  have ht' := Int64.toInt_inj.mp ht
  refine ⟨CString.ext hs.symm,CString.ext hr.symm,ht'.symm,hy',?_⟩
  simpa [text_parts, senderPart, recepientPart, timePart, typePart, dataPart, hs, hr, ht', hy']
    using h

/-- A message is read back exactly when sender and receiver are plain UTF-8
and the clock is not negative, and such messages never share a text. -/
theorem serialized_reads_back_iff (m : Message) (v : JVal) (hv : m.dataValue = some v) :
    (m.ReadsBack ↔ m.Faithful) ∧
    (m.Faithful → ∀ m' : Message, m'.dataValue.isSome → m'.Faithful → m.text = m'.text →
      m.sender = m'.sender ∧ m.recepient = m'.recepient ∧ m.timestamp = m'.timestamp ∧
        m.messageType = m'.messageType ∧ m.dataText = m'.dataText) := by
  constructor
  · rw [← decode_text_iff m v hv]
    constructor
    · rintro ⟨text,w,hs,hw,hd⟩
      rw [serialize_message] at hs
      cases hs
      rwa [Option.some_inj.mp (hv.symm.trans hw)]
    · intro hd
      exact ⟨m.cstring,v,serialize_message m,hv,hd⟩
  · intro hm m' hv' hm' h
    obtain ⟨v',hv'⟩ := Option.isSome_iff_exists.mp hv'
    exact text_injective m m' v v' hv hv' hm hm' h

def plainMessage : Message :=
  ⟨⟨ascii "ticks",by decide⟩,⟨ascii "base",by decide⟩,1400000000,.collectorAskForConfiguration,none⟩

theorem plain_message_reads_back :
    plainMessage.dataValue = some (.obj []) ∧ plainMessage.ReadsBack := by
  have hv : plainMessage.dataValue = some (.obj []) := rfl
  refine ⟨hv,(serialized_reads_back_iff plainMessage _ hv).1.mpr ⟨⟨?_,?_⟩,⟨?_,?_⟩,?_⟩⟩ <;> decide

def quotedMessage : Message := { plainMessage with sender := ⟨[quote],by decide⟩ }

/-- A sender that is one quote ends its own string and the text is no JSON. -/
theorem quoted_sender_breaks_text :
    ¬∀ m : Message, m.dataValue.isSome → m.ReadsBack := by
  intro h
  obtain ⟨text,v,hs,-,hd⟩ := h quotedMessage rfl
  rw [serialize_message] at hs
  cases hs
  have hnone : (decode quotedMessage.text).isNone = true := by decide +kernel
  rw [show decode quotedMessage.text = _ from hd] at hnone
  cases hnone

end Flip.MsgText
