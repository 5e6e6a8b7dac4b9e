import Flip.CLib

/-!
# The configuration of the root daemon

The ini parser hands the entries of a file to a handler, one after the other.
The handler refuses an entry it does not know and stores the value of one it
knows; nothing asks at the end whether every entry was there.
-/

set_option autoImplicit false

namespace Flip.Conf
open Flip.CLib

structure Entry where
  sectionName : CString
  name : CString
  value : CString
  deriving DecidableEq

structure ConfigCtx where
  workDir : Option CString
  pidFile : Option CString
  ioSocket : Option CString
  deriving DecidableEq

def ConfigCtx.zero : ConfigCtx := ⟨none,none,none⟩

def nameMatch (e : Entry) (s n : String) : Bool :=
  e.sectionName.bytes = ascii s && e.name.bytes = ascii n

def flipdHandler (config : ConfigCtx) (e : Entry) : ℤ × ConfigCtx :=
  if nameMatch e "base" "work_dir" then (1,{ config with workDir := some e.value })
  else if nameMatch e "base" "pid_file" then (1,{ config with pidFile := some e.value })
  else if nameMatch e "base" "io_socket" then (1,{ config with ioSocket := some e.value })
  else (0,config)

structure IniFile where
  readable : Bool
  wellFormed : Bool
  entries : List Entry

section Inih

variable {α : Type} (handler : α → Entry → ℤ × α)

/-- One call for each entry, and whether none of them returned zero. -/
def deliver : α → List Entry → Bool × α
  | data, [] => (true,data)
  | data, e::entries =>
    let result := handler data e
    let rest := deliver result.2 entries
    (result.1 ≠ 0 && rest.1,rest.2)

def iniParse (data : α) (file : IniFile) : Bool × α :=
  if file.readable then
    let result := deliver handler data file.entries
    (file.wellFormed && result.1,result.2)
  else (false,data)

end Inih

def parseFlipdConfig (tmpCtx ctx : Bool) (file : IniFile) : Errno × Option ConfigCtx :=
  if tmpCtx = false then (.enomem,none)
  else if ctx = false then (.enomem,none)
  else
    let result := iniParse flipdHandler ConfigCtx.zero file
    if result.1 then (.eok,some result.2) else (.einval,none)

/-- What `main` goes on to pass to `become_daemon` and `nbus_init_pair`. -/
def passedOn (parsed : Errno × Option ConfigCtx) : Option (Option CString × Option CString) :=
  match parsed with
  | (.eok,some config) => some (config.pidFile,config.ioSocket)
  | _ => none

inductive Key where
  | workDir
  | pidFile
  | ioSocket
  deriving DecidableEq

def Key.text : Key → String
  | .workDir => "work_dir"
  | .pidFile => "pid_file"
  | .ioSocket => "io_socket"

def ConfigCtx.get (config : ConfigCtx) : Key → Option CString
  | .workDir => config.workDir
  | .pidFile => config.pidFile
  | .ioSocket => config.ioSocket

def ConfigCtx.set (config : ConfigCtx) (key : Key) (value : CString) : ConfigCtx :=
  match key with
  | .workDir => { config with workDir := some value }
  | .pidFile => { config with pidFile := some value }
  | .ioSocket => { config with ioSocket := some value }

theorem get_set (config : ConfigCtx) (key key' : Key) (value : CString) :
    (config.set key value).get key' = if key = key' then some value else config.get key' := by
  cases key <;> cases key' <;> rfl

def Entry.Is (e : Entry) (key : Key) : Prop := nameMatch e "base" key.text = true

instance (e : Entry) (key : Key) : Decidable (e.Is key) := inferInstanceAs (Decidable (_ = _))

def Known (e : Entry) : Prop := ∃ key, e.Is key

def lastValue (key : Key) (entries : List Entry) : Option CString :=
  ((entries.filter (·.Is key)).getLast?).map Entry.value

structure Acceptable (file : IniFile) : Prop where
  readable : file.readable = true
  wellFormed : file.wellFormed = true
  known : ∀ e ∈ file.entries, Known e
  complete : ∀ key, ∃ e ∈ file.entries, e.Is key

/-- Just the acceptable file is accepted, with the last value for each key, and
the daemon never goes on without its pid file or its socket. -/
structure Contract (file : IniFile) : Prop where
  accepts : (parseFlipdConfig true true file).1 = .eok ↔ Acceptable file
  copies : Acceptable file → ∃ config, parseFlipdConfig true true file = (.eok,some config) ∧
    ∀ key, ∃ v, lastValue key file.entries = some v ∧ config.get key = some v
  untouched : (parseFlipdConfig true true file).1 ≠ .eok →
    (parseFlipdConfig true true file).2 = none
  passes : ∀ pidFile ioSocket, passedOn (parseFlipdConfig true true file) =
    some (pidFile,ioSocket) → pidFile ≠ none ∧ ioSocket ≠ none

theorem text_injective (key key' : Key) (h : ascii key.text = ascii key'.text) : key = key' := by
  revert h
  cases key <;> cases key' <;> decide

theorem is_unique (e : Entry) (key key' : Key) (h : e.Is key) (h' : e.Is key') : key = key' := by
  simp only [Entry.Is, nameMatch, Bool.and_eq_true, decide_eq_true_eq] at h h'
  exact text_injective key key' (h.2.symm.trans h'.2)

theorem handler_known (config : ConfigCtx) (e : Entry) (key : Key) (h : e.Is key) :
    flipdHandler config e = (1,config.set key e.value) := by
  have hother : ∀ key' ≠ key, ¬e.Is key' := fun key' hne h' => hne (is_unique e key' key h' h)
  cases key with
  | workDir => exact if_pos h
  | pidFile => exact (if_neg (hother .workDir (by decide))).trans (if_pos h)
  | ioSocket =>
    exact (if_neg (hother .workDir (by decide))).trans
      ((if_neg (hother .pidFile (by decide))).trans (if_pos h))

theorem handler_unknown (config : ConfigCtx) (e : Entry) (h : ¬Known e) :
    flipdHandler config e = (0,config) := by
  have hnone : ∀ key, ¬e.Is key := not_exists.mp h
  exact (if_neg (hnone .workDir)).trans ((if_neg (hnone .pidFile)).trans (if_neg (hnone .ioSocket)))

theorem deliver_known_iff (entries : List Entry) (config : ConfigCtx) :
    (deliver flipdHandler config entries).1 = true ↔ ∀ e ∈ entries, Known e := by
  induction entries generalizing config with
  | nil => simp [deliver]
  | cons e entries ih =>
    rw [List.forall_mem_cons]
    by_cases h : Known e
    · obtain ⟨key,hkey⟩ := h
      simp [deliver, handler_known config e key hkey, ih, show Known e from ⟨key,hkey⟩]
    · simp [deliver, handler_unknown config e h, h]

theorem last_value_cons (key : Key) (e : Entry) (entries : List Entry) :
    lastValue key (e::entries) =
      (lastValue key entries).or (if e.Is key then some e.value else none) := by
  unfold lastValue
  by_cases h : e.Is key
  · cases hlast : (entries.filter (·.Is key)).getLast? <;>
      simp [h, List.getLast?_cons, hlast]
  · simp [h]

theorem deliver_get (entries : List Entry) (config : ConfigCtx) (key : Key) :
    (deliver flipdHandler config entries).2.get key =
      (lastValue key entries).or (config.get key) := by
  induction entries generalizing config with
  | nil => rfl
  | cons e entries ih =>
    have hstep : (flipdHandler config e).2.get key =
        (if e.Is key then some e.value else none).or (config.get key) := by
      by_cases h : Known e
      · obtain ⟨key',hkey'⟩ := h
        have hiff : e.Is key ↔ key' = key :=
          ⟨fun hkey => is_unique e key' key hkey' hkey,fun he => he ▸ hkey'⟩
        rw [handler_known config e key' hkey', get_set]
        by_cases he : key' = key <;> simp [hiff, he]
      · rw [handler_unknown config e h, if_neg (fun hkey => h ⟨key,hkey⟩)]
        rfl
    rw [last_value_cons, Option.or_assoc, ← hstep]
    exact ih _

theorem last_value_some (key : Key) (entries : List Entry) :
    (∃ v, lastValue key entries = some v) ↔ ∃ e ∈ entries, e.Is key := by
  simp [lastValue, ← Option.isSome_iff_exists]

theorem parse_accepts_iff (file : IniFile) :
    (parseFlipdConfig true true file).1 = .eok ↔
      file.readable = true ∧ file.wellFormed = true ∧ ∀ e ∈ file.entries, Known e := by
  rw [← deliver_known_iff file.entries ConfigCtx.zero]
  cases hr : file.readable <;> cases hw : file.wellFormed <;>
    cases hd : (deliver flipdHandler ConfigCtx.zero file.entries).1 <;>
      simp [parseFlipdConfig, iniParse, hr, hw, hd]

theorem parse_accepted (file : IniFile) (h : (parseFlipdConfig true true file).1 = .eok) :
    ∃ config, parseFlipdConfig true true file = (.eok,some config) ∧
      ∀ key, config.get key = lastValue key file.entries := by
  obtain ⟨hr,hw,hknown⟩ := (parse_accepts_iff file).mp h
  have hd := (deliver_known_iff file.entries ConfigCtx.zero).mpr hknown
  refine ⟨(deliver flipdHandler ConfigCtx.zero file.entries).2,?_,?_⟩
  · simp [parseFlipdConfig, iniParse, hr, hw, hd]
  · intro key
    have hzero : ConfigCtx.zero.get key = none := by cases key <;> rfl
    rw [deliver_get, hzero, Option.or_none]

theorem parse_refused (file : IniFile) (h : (parseFlipdConfig true true file).1 ≠ .eok) :
    (parseFlipdConfig true true file).2 = none := by
  simp only [parseFlipdConfig] at h ⊢
  split_ifs at h ⊢ <;> first | rfl | exact absurd rfl h

theorem passed_on_eok (parsed : Errno × Option ConfigCtx)
    (passed : Option CString × Option CString) (h : passedOn parsed = some passed) :
    parsed.1 = .eok := by
  unfold passedOn at h
  split at h
  · rfl
  · cases h

theorem acceptable_iff (file : IniFile) :
    Acceptable file ↔ (parseFlipdConfig true true file).1 = .eok ∧
      ∀ key, ∃ e ∈ file.entries, e.Is key := by
  rw [parse_accepts_iff]
  exact ⟨fun h => ⟨⟨h.readable,h.wellFormed,h.known⟩,h.complete⟩,
    fun ⟨⟨hr,hw,hknown⟩,hcomplete⟩ => ⟨hr,hw,hknown,hcomplete⟩⟩

/-- The contract is kept exactly by the files that are refused anyway or that
have each of the three keys. -/
theorem config_contract_iff (file : IniFile) :
    Contract file ↔
      (file.readable = true → file.wellFormed = true → (∀ e ∈ file.entries, Known e) →
        ∀ key, ∃ e ∈ file.entries, e.Is key) := by
  have heok := parse_accepts_iff file
  constructor
  · intro h hr hw hknown
    exact (h.accepts.mp (heok.mpr ⟨hr,hw,hknown⟩)).complete
  · intro h
    have haccept : (parseFlipdConfig true true file).1 = .eok ↔ Acceptable file := by
      rw [acceptable_iff]
      refine ⟨fun hret => ⟨hret,?_⟩,And.left⟩
      obtain ⟨hr,hw,hknown⟩ := heok.mp hret
      exact h hr hw hknown
    have hcopies : Acceptable file → ∃ config,
        parseFlipdConfig true true file = (.eok,some config) ∧
          ∀ key, ∃ v, lastValue key file.entries = some v ∧ config.get key = some v := by
      intro hacc
      obtain ⟨config,hparse,hget⟩ := parse_accepted file (haccept.mpr hacc)
      refine ⟨config,hparse,fun key => ?_⟩
      obtain ⟨v,hv⟩ := (last_value_some key file.entries).mpr (hacc.complete key)
      exact ⟨v,hv,(hget key).trans hv⟩
    refine ⟨haccept,hcopies,parse_refused file,?_⟩
    intro pidFile ioSocket hpass
    obtain ⟨config,hparse,hvalues⟩ := hcopies (haccept.mp (passed_on_eok _ _ hpass))
    rw [hparse] at hpass
    cases hpass
    obtain ⟨v,-,hpid⟩ := hvalues .pidFile
    obtain ⟨w,-,hio⟩ := hvalues .ioSocket
    exact ⟨fun hnone => by simp [ConfigCtx.get, hnone] at hpid,
      fun hnone => by simp [ConfigCtx.get, hnone] at hio⟩

def emptyFile : IniFile := ⟨true,true,[]⟩

/-- An empty file passes, and the daemon goes on with NULL for its pid file
and for its socket. -/
theorem empty_file_accepted :
    parseFlipdConfig true true emptyFile = (.eok,some ConfigCtx.zero) ∧
      passedOn (parseFlipdConfig true true emptyFile) = some (none,none) ∧
      ¬Contract emptyFile := by
  refine ⟨rfl,rfl,fun h => ?_⟩
  exact (h.passes none none rfl).1 rfl

end Flip.Conf
