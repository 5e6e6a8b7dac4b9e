import Flip.JsonText

/-!
# General properties of the JSON readers

The families of lemmas follow the way the decoder is put together: one for
each basic reader, one for sequencing, and where it recurs an induction on the
fuel that ties the knot.
-/

set_option autoImplicit false

namespace Flip.JsonReading
open Flip.CLib Flip.Decimal Flip.JsonText

variable {α β : Type}

theorem bind_reads {p : Reader α} {f : α → Reader β} {s r : Buf} {a : α}
    (h : p s = some (a,r)) : (p >>= f) s = f a r := by
  change andThen p f s = _
  simp [andThen, h]

theorem bind_some_iff {p : Reader α} {f : α → Reader β} {s t : Buf} {b : β} :
    (p >>= f) s = some (b,t) ↔ ∃ a r, p s = some (a,r) ∧ f a r = some (b,t) := by
  change andThen p f s = _ ↔ _
  simp [andThen, Option.bind_eq_some_iff]

theorem give_some_iff {a b : α} {s t : Buf} : give a s = some (b,t) ↔ a = b ∧ s = t := by
  simp [give]

/-- Reading in front of a closing brace gives the same value. -/
def Stable (p : Reader α) : Prop :=
  ∀ s a r t, p s = some (a,r) → p (s++rbrace::t) = some (a,r++rbrace::t)

theorem stable_give (a : α) : Stable (give a) := by
  rintro s b r t h
  cases h
  rfl

theorem stable_fail : Stable (fail : Reader α) := by
  rintro s b r t h
  cases h

theorem stable_bind {p : Reader α} {f : α → Reader β} (hp : Stable p) (hf : ∀ a, Stable (f a)) :
    Stable (p >>= f) := by
  intro s b r t h
  obtain ⟨a,u,hu,hb⟩ := bind_some_iff.mp h
  rw [bind_reads (hp s a u t hu)]
  exact hf a u b r t hb

theorem stable_ite {c : Prop} [Decidable c] {p q : Reader α} (hp : Stable p) (hq : Stable q) :
    Stable (if c then p else q) := by
  split
  · exact hp
  · exact hq

theorem stable_peek {f : Byte → Reader α} (hf : ∀ c, Stable (f c)) : Stable (peek f) := by
  intro s a r t h
  cases s with
  | nil => cases h
  | cons c s => exact hf c _ a r t h

theorem stable_expect (c : Byte) : Stable (expect c) := by
  intro s a r t h
  cases s with
  | nil => cases h
  | cons d s =>
    simp only [expect] at h ⊢
    split_ifs at h with hc
    cases h
    simp [hc]

theorem stable_accept (p : Byte → Bool) (hp : p rbrace = false) : Stable (accept p) := by
  intro s a r t h
  cases s with
  | nil =>
    cases h
    simp [accept, hp]
  | cons d s =>
    simp only [accept, List.cons_append] at h ⊢
    split_ifs at h with hd <;> cases h <;> simp [hd]

theorem drop_while_brace (p : Byte → Bool) (hp : p rbrace = false) (s t : Buf) :
    (s++rbrace::t).dropWhile p = s.dropWhile p++rbrace::t := by
  induction s with
  | nil => simp [hp]
  | cons c s ih => by_cases hc : p c = true <;> simp [hc, ih]

theorem take_while_brace (p : Byte → Bool) (hp : p rbrace = false) (s t : Buf) :
    (s++rbrace::t).takeWhile p = s.takeWhile p := by
  induction s with
  | nil => simp [hp]
  | cons c s ih => by_cases hc : p c = true <;> simp [hc, ih]

theorem stable_blanks : Stable blanks := by
  rintro s a r t h
  cases h
  simp [blanks, skipBlanks, drop_while_brace isBlank rfl s t]

theorem stable_keyword (w : Buf) (a : α) : Stable (keyword w a) := by
  intro s b r t h
  simp only [keyword] at h ⊢
  split_ifs at h with hw
  cases h
  obtain ⟨u,rfl⟩ := List.isPrefixOf_iff_prefix.mp hw
  simp

theorem stable_digits : Stable digits := by
  intro s a r t h
  simp only [digits, take_while_brace isDigit rfl, drop_while_brace isDigit rfl] at h ⊢
  split_ifs at h with hs
  cases h
  simp [hs]

theorem stable_fraction : Stable fraction :=
  stable_bind (stable_accept _ rfl) fun _ => stable_ite stable_digits (stable_give _)

theorem stable_exponent : Stable exponent := by
  have hs : Stable exponentSign :=
    stable_bind (stable_accept _ rfl) fun _ => stable_ite (stable_give _)
      (stable_bind (stable_accept _ rfl) fun _ => stable_give _)
  exact stable_bind (stable_accept _ rfl) fun _ => stable_ite
    (stable_bind hs fun _ => stable_bind stable_digits fun _ => stable_give _) (stable_give _)

theorem stable_number : Stable number :=
  stable_bind (stable_accept _ rfl) fun _ => stable_bind stable_digits fun _ =>
    stable_ite stable_fail (stable_bind stable_fraction fun _ =>
      stable_bind stable_exponent fun _ => stable_give _)

def Takes (P : Byte → Prop) (p : Reader α) : Prop :=
  ∀ s a r, p s = some (a,r) → ∃ front, s = front++r ∧ ∀ c ∈ front, P c

section Takes

variable {P : Byte → Prop}

theorem takes_give (a : α) : Takes P (give a) := by
  rintro s b r h
  cases h
  exact ⟨[],rfl,by simp⟩

theorem takes_fail : Takes P (fail : Reader α) := by
  rintro s b r h
  cases h

theorem takes_bind {p : Reader α} {f : α → Reader β} (hp : Takes P p) (hf : ∀ a, Takes P (f a)) :
    Takes P (p >>= f) := by
  intro s b r h
  obtain ⟨a,u,hu,hb⟩ := bind_some_iff.mp h
  obtain ⟨front,rfl,hfront⟩ := hp s a u hu
  obtain ⟨more,rfl,hmore⟩ := hf a u b r hb
  refine ⟨front++more,by rw [List.append_assoc],fun c hc => ?_⟩
  rcases List.mem_append.mp hc with hc | hc
  · exact hfront c hc
  · exact hmore c hc

theorem takes_ite {c : Prop} [Decidable c] {p q : Reader α} (hp : Takes P p) (hq : Takes P q) :
    Takes P (if c then p else q) := by
  split
  · exact hp
  · exact hq

theorem takes_accept (p : Byte → Bool) (hp : ∀ c, p c = true → P c) : Takes P (accept p) := by
  intro s a r h
  cases s with
  | nil =>
    cases h
    exact ⟨[],rfl,by simp⟩
  | cons d s =>
    simp only [accept] at h
    split_ifs at h with hd
    · cases h
      exact ⟨[d],rfl,by simpa using hp d hd⟩
    · cases h
      exact ⟨[],rfl,by simp⟩

theorem takes_digits (hp : ∀ c, isDigit c = true → P c) : Takes P digits := by
  intro s a r h
  simp only [digits] at h
  split_ifs at h
  cases h
  exact ⟨_,(List.takeWhile_append_dropWhile).symm,fun c hc => hp c (List.mem_takeWhile_imp hc)⟩

end Takes

def NumberByte (c : Byte) : Prop := isDigit c = true ∨ c ∈ ascii "+-.eE"

theorem takes_number : Takes NumberByte number := by
  have hds : Takes NumberByte digits := takes_digits (fun _ h => .inl h)
  have hone : ∀ d ∈ ascii "+-.eE", Takes NumberByte (accept (· = d)) :=
    fun d hd => takes_accept _ (fun c hc => .inr (of_decide_eq_true hc ▸ hd))
  have hletter : Takes NumberByte (accept (fun c => c = 101 || c = 69)) := by
    apply takes_accept
    intro c hc
    simp only [Bool.or_eq_true, decide_eq_true_eq] at hc
    rcases hc with rfl | rfl <;> exact .inr (by decide)
  have hfraction : Takes NumberByte fraction :=
    takes_bind (hone 46 (by decide)) fun _ => takes_ite hds (takes_give _)
  have hsign : Takes NumberByte exponentSign :=
    takes_bind (hone 45 (by decide)) fun _ => takes_ite (takes_give _)
      (takes_bind (hone 43 (by decide)) fun _ => takes_give _)
  have hexponent : Takes NumberByte exponent :=
    takes_bind hletter fun _ => takes_ite
      (takes_bind hsign fun _ => takes_bind hds fun _ => takes_give _) (takes_give _)
  exact takes_bind (hone 45 (by decide)) fun _ => takes_bind hds fun _ =>
    takes_ite takes_fail (takes_bind hfraction fun _ => takes_bind hexponent fun _ => takes_give _)

theorem raw_string_quote (s : Buf) : rawString (quote::s) = some ([],s) := by
  cases s <;> simp [rawString]

theorem raw_string_escape (c : Byte) (s : Buf) :
    rawString (backslash::c::s) = (rawString s).map (fun r => (backslash::c::r.1,r.2)) := by
  simp [rawString, show backslash ≠ quote by decide]

theorem raw_string_other (c : Byte) (s : Buf) (hq : c ≠ quote) (hb : c ≠ backslash) :
    rawString (c::s) = (rawString s).map (fun r => (c::r.1,r.2)) := by
  cases s <;> simp [rawString, hq, hb]

theorem raw_string_cases (s raw rest : Buf) (h : rawString s = some (raw,rest)) :
    (s = quote::rest ∧ raw = []) ∨
    (∃ c u raw', s = backslash::c::u ∧ raw = backslash::c::raw' ∧
      rawString u = some (raw',rest)) ∨
    (∃ c u raw', c ≠ quote ∧ c ≠ backslash ∧ s = c::u ∧ raw = c::raw' ∧
      rawString u = some (raw',rest)) := by
  cases s with
  | nil => cases h
  | cons c u =>
    by_cases hq : c = quote
    · subst hq
      rw [raw_string_quote] at h
      cases h
      exact .inl ⟨rfl,rfl⟩
    by_cases hb : c = backslash
    · subst hb
      cases u with
      | nil => simp [rawString, hq] at h
      | cons d u =>
        rw [raw_string_escape] at h
        obtain ⟨r,hr,he⟩ := Option.map_eq_some_iff.mp h
        cases he
        exact .inr (.inl ⟨d,u,r.1,rfl,rfl,hr⟩)
    · rw [raw_string_other c u hq hb] at h
      obtain ⟨r,hr,he⟩ := Option.map_eq_some_iff.mp h
      cases he
      exact .inr (.inr ⟨c,u,r.1,hq,hb,rfl,rfl,hr⟩)

theorem raw_string_append (s raw rest t : Buf) (h : rawString s = some (raw,rest)) :
    rawString (s++t) = some (raw,rest++t) := by
  obtain ⟨rfl,rfl⟩ | ⟨c,u,raw',rfl,rfl,hu⟩ | ⟨c,u,raw',hq,hb,rfl,rfl,hu⟩ :=
    raw_string_cases s raw rest h
  · exact raw_string_quote _
  · have ih := raw_string_append u raw' rest t hu
    rw [List.cons_append, List.cons_append, raw_string_escape, ih]
    rfl
  · have ih := raw_string_append u raw' rest t hu
    rw [List.cons_append, raw_string_other c _ hq hb, ih]
    rfl
termination_by s.length

theorem stable_string_body : Stable stringBody := by
  apply stable_bind (fun s a r t h => raw_string_append s a r _ h)
  intro raw
  cases unescape raw with
  | none => exact stable_fail
  | some s => exact stable_give s

theorem stable_string_literal : Stable stringLiteral :=
  stable_bind (stable_expect _) fun _ => stable_string_body

theorem stable_value (n : ℕ) :
    Stable (value n) ∧ Stable (members n) ∧ Stable (items n) := by
  induction n with
  | zero => exact ⟨stable_fail,stable_fail,stable_fail⟩
  | succ n ih =>
    obtain ⟨hv,hm,hi⟩ := ih
    have hobj : Stable (objectWith (members n)) :=
      stable_bind (stable_expect _) fun _ => stable_bind stable_blanks fun _ =>
        stable_peek fun _ => stable_ite
          (stable_bind (stable_expect _) fun _ => stable_give _)
          (stable_bind hm fun _ => stable_give _)
    have harr : Stable (arrayWith (items n)) :=
      stable_bind (stable_expect _) fun _ => stable_bind stable_blanks fun _ =>
        stable_peek fun _ => stable_ite
          (stable_bind (stable_expect _) fun _ => stable_give _)
          (stable_bind hi fun _ => stable_give _)
    refine ⟨?_,?_,?_⟩
    · exact stable_bind stable_blanks fun _ => stable_peek fun _ => stable_ite
        (stable_bind stable_string_literal fun _ => stable_give _) <| stable_ite hobj <|
        stable_ite harr <| stable_ite (stable_keyword _ _) <| stable_ite (stable_keyword _ _) <|
        stable_ite (stable_keyword _ _) stable_number
    · exact stable_bind stable_blanks fun _ => stable_bind stable_string_literal fun _ =>
        stable_bind stable_blanks fun _ => stable_bind (stable_expect _) fun _ =>
        stable_bind hv fun _ => stable_bind stable_blanks fun _ => stable_peek fun _ =>
        stable_ite
          (stable_bind (stable_expect _) fun _ => stable_bind hm fun _ => stable_give _)
          (stable_bind (stable_expect _) fun _ => stable_give _)
    · exact stable_bind hv fun _ => stable_bind stable_blanks fun _ => stable_peek fun _ =>
        stable_ite
          (stable_bind (stable_expect _) fun _ => stable_bind hi fun _ => stable_give _)
          (stable_bind (stable_expect _) fun _ => stable_give _)

def Extends (p q : Reader α) : Prop := ∀ s x, p s = some x → q s = some x

theorem extends_refl (p : Reader α) : Extends p p := fun _ _ h => h

theorem extends_bind {p q : Reader α} {f g : α → Reader β} (hp : Extends p q)
    (hf : ∀ a, Extends (f a) (g a)) : Extends (p >>= f) (q >>= g) := by
  rintro s ⟨b,t⟩ h
  obtain ⟨a,r,hr,hb⟩ := bind_some_iff.mp h
  exact bind_some_iff.mpr ⟨a,r,hp s _ hr,hf a r _ hb⟩

theorem extends_ite {c : Prop} [Decidable c] {p p' q q' : Reader α} (hp : Extends p p')
    (hq : Extends q q') : Extends (if c then p else q) (if c then p' else q') := by
  split
  · exact hp
  · exact hq

theorem extends_peek {f g : Byte → Reader α} (hf : ∀ c, Extends (f c) (g c)) :
    Extends (peek f) (peek g) := by
  intro s x h
  cases s with
  | nil => cases h
  | cons c s => exact hf c _ x h

theorem fuel_step (n : ℕ) :
    Extends (value n) (value (n+1)) ∧ Extends (members n) (members (n+1)) ∧
      Extends (items n) (items (n+1)) := by
  induction n with
  | zero => exact ⟨fun _ _ h => (by cases h),fun _ _ h => (by cases h),fun _ _ h => (by cases h)⟩
  | succ n ih =>
    obtain ⟨hv,hm,hi⟩ := ih
    have hobj : Extends (objectWith (members n)) (objectWith (members (n+1))) :=
      extends_bind (extends_refl _) fun _ => extends_bind (extends_refl _) fun _ =>
        extends_peek fun _ => extends_ite (extends_refl _)
          (extends_bind hm fun _ => extends_refl _)
    have harr : Extends (arrayWith (items n)) (arrayWith (items (n+1))) :=
      extends_bind (extends_refl _) fun _ => extends_bind (extends_refl _) fun _ =>
        extends_peek fun _ => extends_ite (extends_refl _)
          (extends_bind hi fun _ => extends_refl _)
    refine ⟨?_,?_,?_⟩
    · exact extends_bind (extends_refl _) fun _ => extends_peek fun _ =>
        extends_ite (extends_refl _) <| extends_ite hobj <| extends_ite harr (extends_refl _)
    · exact extends_bind (extends_refl _) fun _ => extends_bind (extends_refl _) fun _ =>
        extends_bind (extends_refl _) fun _ => extends_bind (extends_refl _) fun _ =>
        extends_bind hv fun _ => extends_bind (extends_refl _) fun _ => extends_peek fun _ =>
        extends_ite
          (extends_bind (extends_refl _) fun _ => extends_bind hm fun _ => extends_refl _)
          (extends_refl _)
    · exact extends_bind hv fun _ => extends_bind (extends_refl _) fun _ => extends_peek fun _ =>
        extends_ite
          (extends_bind (extends_refl _) fun _ => extends_bind hi fun _ => extends_refl _)
          (extends_refl _)

theorem value_fuel {n m : ℕ} (h : n ≤ m) : Extends (value n) (value m) := by
  induction m, h using Nat.le_induction with
  | base => exact extends_refl _
  | succ m _ ih => exact fun s x hx => (fuel_step m).1 s x (ih s x hx)

end Flip.JsonReading
