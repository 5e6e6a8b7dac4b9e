import Flip.Shell

/-!
# Which words a shell leaves alone

A line is a list of words with a blank after each. Reading a byte adds at most
one to the length of what has been read, counting one for the end of each
word, and a quote, a comment or an idle blank adds nothing. A line whose words
all arrive has no byte to lose, so that nothing in it can be special.
-/

set_option autoImplicit false

namespace Flip.Shell
open Flip.CLib Flip.Runs

def line (ws : List Buf) : Buf := ws.flatMap (·++[32])

theorem line_cons (w : Buf) (ws : List Buf) : line (w::ws) = w++32::line ws := by
  simp [line]

theorem line_mono (us vs : List Buf) (h : us.Sublist vs) :
    (line us).length ≤ (line vs).length := by
  induction h with
  | slnil => rfl
  | cons w _ ih =>
    rw [line_cons, List.length_append, List.length_cons]
    omega
  | cons_cons w _ ih =>
    simp only [line_cons, List.length_append, List.length_cons]
    omega

theorem sublist_line (us vs : List Buf) (h : us.Sublist vs)
    (hle : (line vs).length ≤ (line us).length) : us = vs := by
  induction h with
  | slnil => rfl
  | cons w hs ih =>
    have := line_mono _ _ hs
    rw [line_cons, List.length_append, List.length_cons] at hle
    omega
  | cons_cons w hs ih =>
    simp only [line_cons, List.length_append, List.length_cons] at hle
    rw [ih (by omega)]

def Token.weight : Token → ℕ
  | .word w => w.length+1
  | .op _ => 0

def total (ts : List Token) : ℕ := (ts.map Token.weight).sum

theorem total_append (ts us : List Token) : total (ts++us) = total ts+total us := by
  simp [total]

theorem total_cons (t : Token) (ts : List Token) : total (t::ts) = t.weight+total ts := by
  simp [total]

theorem last_total (T : List Token) (w : Word) (h : T.getLast? = some (.word w)) :
    1 ≤ total T := by
  obtain ⟨us,rfl⟩ := List.getLast?_eq_some_iff.mp h
  rw [total_append]
  simp [total, Token.weight]
  omega

theorem command_fits (T : List Token) (r : Bool) (words : List Word) (rest : List Token)
    (h : command r T = some (words,rest)) : (line (words.map bytes)).length ≤ total T := by
  induction T generalizing r words with
  | nil =>
    simp only [command] at h
    split_ifs at h
    cases h
    simp [line]
  | cons t T ih =>
    rw [total_cons]
    cases t with
    | word v =>
      cases r with
      | true =>
        have := ih false words (by simpa [command] using h)
        omega
      | false =>
        simp only [command, Bool.false_eq_true, if_false, Option.map_eq_some_iff] at h
        obtain ⟨⟨words',rest'⟩,h',he⟩ := h
        cases he
        have := ih false words' h'
        simp only [List.map_cons, line_cons, List.length_append, List.length_cons, bytes,
          List.length_map, Token.weight]
        omega
    | op c =>
      simp only [command] at h
      split_ifs at h
      · have := ih true words h
        omega
      · cases h
        simp [line]

theorem command_operator (T : List Token) (r : Bool) (words : List Word) (rest : List Token)
    (w : Word) (hlast : T.getLast? = some (.word w)) (h : command r T = some (words,rest))
    (hop : r = true ∨ ∃ c, .op c ∈ T) : (line (words.map bytes)).length+1 ≤ total T := by
  induction T generalizing r words with
  | nil => cases hlast
  | cons t T ih =>
    rw [total_cons]
    cases t with
    | word v =>
      cases r with
      | true =>
        have := command_fits T false words rest (by simpa [command] using h)
        rw [Token.weight]
        omega
      | false =>
        obtain ⟨c,hc⟩ : ∃ c, .op c ∈ T := by simpa using hop
        simp only [command, Bool.false_eq_true, if_false, Option.map_eq_some_iff] at h
        obtain ⟨⟨words',rest'⟩,h',he⟩ := h
        cases he
        have hT : T.getLast? = some (.word w) := by
          cases T with
          | nil => cases hc
          | cons u us => rwa [List.getLast?_cons_cons] at hlast
        have := ih false words' hT h' (.inr ⟨c,hc⟩)
        simp only [List.map_cons, line_cons, List.length_append, List.length_cons, bytes,
          List.length_map, Token.weight]
        omega
    | op c =>
      have hT : T.getLast? = some (.word w) := by
        cases T with
        | nil => simp at hlast
        | cons u us => rwa [List.getLast?_cons_cons] at hlast
      rw [Token.weight, zero_add]
      simp only [command] at h
      split_ifs at h
      · exact ih true words hT h (.inl rfl)
      · cases h
        have := last_total T w hT
        simpa [line] using this

theorem command_words (T : List Token) (words : List Word) (rest : List Token)
    (hop : ∀ c, .op c ∉ T) (h : command false T = some (words,rest)) :
    T = words.map .word := by
  induction T generalizing words with
  | nil =>
    simp only [command, Bool.false_eq_true, if_false, Option.some.injEq, Prod.mk.injEq] at h
    simp [← h.1]
  | cons t T ih =>
    cases t with
    | op c => exact absurd (by simp) (hop c)
    | word w =>
      simp only [command, Bool.false_eq_true, if_false, Option.map_eq_some_iff] at h
      obtain ⟨⟨words',rest'⟩,h',he⟩ := h
      cases he
      rw [List.map_cons, ← ih words' (fun c hc => hop c (by simp [hc])) h']

inductive LexRule (s : Lexer) (c : Byte) : Lexer → Prop where
  | finish (hm : s.mode = .plain) (hc : isSpace c = true) : LexRule s c s.finish
  | operator (hm : s.mode = .plain) : LexRule s c (s.operator c)
  | escape (hm : s.mode = .plain) (hc : c = 92) : LexRule s c { s with mode := .escape }
  | openSingle (hm : s.mode = .plain) : LexRule s c (s.push .single [])
  | openDouble (hm : s.mode = .plain) : LexRule s c (s.push .double [])
  | openComment (hm : s.mode = .plain) : LexRule s c { s with mode := .comment }
  | ordinary (hm : s.mode = .plain) (hc : isOrdinary c = true) :
      LexRule s c (s.push .plain [⟨c,false⟩])
  | joined (hm : s.mode = .escape) : LexRule s c { s with mode := .plain }
  | escaped (hm : s.mode = .escape) : LexRule s c (s.push .plain [⟨c,true⟩])
  | closeSingle (hm : s.mode = .single) : LexRule s c { s with mode := .plain }
  | single (hm : s.mode = .single) : LexRule s c (s.push .single [⟨c,true⟩])
  | closeDouble (hm : s.mode = .double) : LexRule s c { s with mode := .plain }
  | doubleEscape (hm : s.mode = .double) : LexRule s c { s with mode := .doubleEscape }
  | double (hm : s.mode = .double) : LexRule s c (s.push .double [⟨c,true⟩])
  | doubleJoined (hm : s.mode = .doubleEscape) : LexRule s c { s with mode := .double }
  | doubleEscaped (w : Word) (hm : s.mode = .doubleEscape) (hw : w.length ≤ 2) :
      LexRule s c (s.push .double w)
  | closeComment (hm : s.mode = .comment) : LexRule s c ({ s with mode := .plain }.operator c)
  | comment (hm : s.mode = .comment) : LexRule s c s

theorem lex_plain_rule (s t : Lexer) (c : Byte) (hm : s.mode = .plain)
    (h : lexPlain s c = some t) : LexRule s c t := by
  unfold lexPlain at h
  split_ifs at h with h1 h2 h3 h4 h5 h6 h7 h8 <;> cases h
  · exact .finish hm h1
  · exact .operator hm
  · exact .escape hm h3
  · exact .openSingle hm
  · exact .openDouble hm
  · exact .openComment hm
  · refine .ordinary hm ?_
    simp only [Bool.or_eq_true, not_or] at h2
    simp [isOrdinary, h1, h2, isQuoting, h3, h4, h5, h6]

theorem lex_step_rule (s t : Lexer) (c : Byte) (h : lexStep s c = some t) : LexRule s c t := by
  cases hm : s.mode with
  | plain => exact lex_plain_rule s t c hm (by simpa only [lexStep, hm] using h)
  | escape =>
    simp only [lexStep, hm] at h
    split_ifs at h <;> cases h
    · exact .joined hm
    · exact .escaped hm
  | single =>
    simp only [lexStep, hm] at h
    split_ifs at h <;> cases h
    · exact .closeSingle hm
    · exact .single hm
  | double =>
    simp only [lexStep, hm, lexDouble] at h
    split_ifs at h <;> cases h
    · exact .closeDouble hm
    · exact .doubleEscape hm
    · exact .double hm
  | doubleEscape =>
    simp only [lexStep, hm, lexDoubleEscape] at h
    split_ifs at h <;> cases h
    · exact .doubleJoined hm
    · exact .doubleEscaped _ hm (by simp)
    · exact .doubleEscaped _ hm (by simp)
  | comment =>
    simp only [lexStep, hm] at h
    split_ifs at h <;> cases h
    · exact .closeComment hm
    · exact .comment hm

/-- The bytes that brought the machine out of its plain mode. -/
def Mode.cost : Mode → ℕ
  | .plain => 0
  | .escape => 1
  | .single => 1
  | .double => 1
  | .doubleEscape => 2
  | .comment => 1

def Lexer.size (s : Lexer) : ℕ := total s.tokens+(s.current.map List.length).getD 0

def Lexer.potential (s : Lexer) : ℕ := s.size+s.mode.cost

theorem size_push (s : Lexer) (mode : Mode) (w : Word) :
    (s.push mode w).size = s.size+w.length := by
  cases h : s.current <;> simp [Lexer.size, Lexer.push, h]
  omega

theorem size_finish (s : Lexer) :
    s.finish.size = s.size+(if s.current.isSome then 1 else 0) := by
  cases h : s.current with
  | none => simp [Lexer.size, Lexer.finish, h]
  | some w => simp [Lexer.size, Lexer.finish, h, total, Token.weight]; omega

theorem size_operator (s : Lexer) (c : Byte) : (s.operator c).size ≤ s.finish.size := by
  have hop : ∀ u : Lexer, (Lexer.mk .plain none (u.tokens++[.op c])).size = total u.tokens := by
    intro u
    simp [Lexer.size, total, Token.weight]
  unfold Lexer.operator
  split_ifs
  · rw [hop, size_finish]
    simp only [Lexer.size]
    omega
  · rw [hop]
    simp only [Lexer.size]
    omega

theorem mode_push (s : Lexer) (mode : Mode) (w : Word) : (s.push mode w).mode = mode := rfl

theorem mode_finish (s : Lexer) : s.finish.mode = .plain := by
  unfold Lexer.finish
  split <;> rfl

theorem finish_potential (s : Lexer) : s.finish.potential ≤ s.size+1 := by
  rw [Lexer.potential, mode_finish, size_finish, Mode.cost]
  split <;> omega

theorem operator_potential (s : Lexer) (c : Byte) : (s.operator c).potential ≤ s.size+1 := by
  have := size_operator s c
  have := finish_potential s
  have hmode : (s.operator c).mode = .plain := rfl
  rw [Lexer.potential, mode_finish] at this
  rw [Lexer.potential, hmode]
  omega

theorem push_potential (s : Lexer) (mode : Mode) (w : Word) :
    (s.push mode w).potential = s.size+w.length+mode.cost := by
  rw [Lexer.potential, size_push, mode_push]

theorem with_potential (s : Lexer) (mode : Mode) :
    ({ s with mode := mode } : Lexer).potential = s.size+mode.cost := rfl

theorem comment_potential (s : Lexer) (c : Byte) :
    ({ s with mode := .plain }.operator c).potential ≤ s.size+1 :=
  operator_potential { s with mode := .plain } c

theorem step_potential (s t : Lexer) (c : Byte) (h : lexStep s c = some t) :
    t.potential ≤ s.potential+1 := by
  have hs : s.potential = s.size+s.mode.cost := rfl
  have hfinish := finish_potential s
  have hoperator := operator_potential s c
  have hcomment := comment_potential s c
  cases lex_step_rule s t c h with
  | doubleEscaped w hm hw =>
    rw [hm, Mode.cost] at hs
    rw [push_potential, Mode.cost]
    omega
  | finish hm | operator hm | closeComment hm | comment hm =>
    rw [hm, Mode.cost] at hs
    omega
  | _ hm =>
    rw [hm, Mode.cost] at hs
    simp only [push_potential, with_potential, Mode.cost, List.length_nil, List.length_singleton]
    omega

theorem run_potential (s t : Lexer) (bs : Buf) (h : run lexStep s bs = some t) :
    t.potential ≤ s.potential+bs.length := by
  induction bs generalizing s with
  | nil =>
    cases h
    simp
  | cons c bs ih =>
    obtain ⟨u,hu,hut⟩ := (run_cons lexStep s c bs t).mp h
    have hstep := step_potential s u c hu
    have hrest := ih u hut
    rw [List.length_cons]
    omega

/-- No byte of the run is lost. -/
def Tight (s : Lexer) (bs : Buf) (t : Lexer) : Prop :=
  run lexStep s bs = some t ∧ s.potential+bs.length ≤ t.potential

theorem tight_cons (s t : Lexer) (c : Byte) (bs : Buf) (h : Tight s (c::bs) t) :
    ∃ u, lexStep s c = some u ∧ s.potential+1 ≤ u.potential ∧ Tight u bs t := by
  obtain ⟨hr,hp⟩ := h
  obtain ⟨u,hu,hut⟩ := (run_cons lexStep s c bs t).mp hr
  have hstep := step_potential s u c hu
  have hrest := run_potential u t bs hut
  rw [List.length_cons] at hp
  exact ⟨u,hu,by omega,hut,by omega⟩

theorem operator_tokens (s : Lexer) (c : Byte) :
    ∃ us, (s.operator c).tokens = s.tokens++us++[.op c] := by
  unfold Lexer.operator
  split_ifs
  · exact ⟨[],by simp⟩
  · cases h : s.current with
    | none => exact ⟨[],by simp [Lexer.finish, h]⟩
    | some w => exact ⟨[.word w],by simp [Lexer.finish, h]⟩

theorem tight_step (s t : Lexer) (c : Byte) (h : lexStep s c = some t) (ht : t.mode = .plain)
    (hp : s.potential+1 ≤ t.potential) :
    s.mode = .plain ∧
      ((isOrdinary c = true ∧ t.tokens = s.tokens) ∨
        (isSpace c = true ∧ ∃ w, t.tokens = s.tokens++[.word w]) ∨
        ∃ us, t.tokens = s.tokens++us++[.op c]) := by
  have hs : s.potential = s.size+s.mode.cost := rfl
  cases lex_step_rule s t c h with
  | finish hm hc =>
    rw [hm, Mode.cost] at hs
    have hcurrent : s.current.isSome := by
      by_contra hn
      have hf : s.finish.potential = s.size := by
        simp [Lexer.potential, mode_finish, size_finish, hn, Mode.cost]
      omega
    obtain ⟨w,hw⟩ := Option.isSome_iff_exists.mp hcurrent
    exact ⟨hm,.inr (.inl ⟨hc,w,by simp [Lexer.finish, hw]⟩)⟩
  | operator hm => exact ⟨hm,.inr (.inr (operator_tokens s c))⟩
  | ordinary hm hc => exact ⟨hm,.inl ⟨hc,rfl⟩⟩
  | closeComment hm =>
    have := comment_potential s c
    rw [hm, Mode.cost] at hs
    omega
  | comment hm => cases hm.symm.trans ht
  | joined hm | escaped hm | closeSingle hm | closeDouble hm =>
    rw [hm, Mode.cost] at hs
    simp only [push_potential, with_potential, Mode.cost, List.length_singleton] at hp
    omega
  | _ => cases ht

theorem tight_plain (s t : Lexer) (bs : Buf) (h : Tight s bs t) (ht : t.mode = .plain) :
    s.mode = .plain ∧ s.tokens <+: t.tokens := by
  induction bs generalizing s with
  | nil =>
    cases h.1
    exact ⟨ht,List.prefix_refl _⟩
  | cons c bs ih =>
    obtain ⟨u,hu,hp,hut⟩ := tight_cons s t c bs h
    obtain ⟨hplain,hbefore⟩ := ih u hut
    obtain ⟨hs,hcases⟩ := tight_step s u c hu hplain hp
    refine ⟨hs,List.IsPrefix.trans ?_ hbefore⟩
    obtain ⟨-,h⟩ | ⟨-,w,h⟩ | ⟨us,h⟩ := hcases
    · rw [h]
    · rw [h]
      exact List.prefix_append _ _
    · rw [h, List.append_assoc]
      exact List.prefix_append _ _

theorem tight_run (s t : Lexer) (bs : Buf) (h : Tight s bs t) (ht : t.mode = .plain)
    (hop : ∀ c, .op c ∉ t.tokens) :
    (∀ c ∈ bs, isSpace c = true ∨ isOrdinary c = true) ∧
      t.tokens.length = s.tokens.length+bs.countP isSpace := by
  induction bs generalizing s with
  | nil =>
    cases h.1
    simp
  | cons c bs ih =>
    obtain ⟨u,hu,hp,hut⟩ := tight_cons s t c bs h
    obtain ⟨hplain,hbefore⟩ := tight_plain u t bs hut ht
    obtain ⟨hbytes,hcount⟩ := ih u hut
    obtain ⟨-,⟨hc,htokens⟩ | ⟨hc,w,htokens⟩ | ⟨us,htokens⟩⟩ := tight_step s u c hu hplain hp
    · have hspace : isSpace c = false := by
        simp only [isOrdinary, Bool.not_eq_true', Bool.or_eq_false_iff] at hc
        exact hc.1.1.1.1
      rw [htokens] at hcount
      exact ⟨by simpa [hc] using hbytes,by simpa [hspace] using hcount⟩
    · rw [htokens] at hcount
      refine ⟨by simpa [hc] using hbytes,?_⟩
      rw [hcount, List.countP_cons_of_pos hc]
      simp
      omega
    · exact absurd (hbefore.subset (by simp [htokens])) (hop c)

/-- A word that the shell takes as it is, apart from pathname expansion. -/
def Bare (w : Buf) : Prop :=
  (∀ c ∈ w, isOrdinary c = true) ∧ w.head? ≠ some 35 ∧ w.head? ≠ some 126

instance (w : Buf) : Decidable (Bare w) :=
  @instDecidableAnd _ _ (List.decidableBAll _ w) inferInstance

def plainWord (w : Buf) : Word := w.map (fun c => ⟨c,false⟩)

theorem bytes_plain_word (w : Buf) : bytes (plainWord w) = w := by
  simp [bytes, plainWord, Function.comp_def]

theorem lex_plain_ordinary (s : Lexer) (c : Byte) (hs : s.mode = .plain)
    (hc : isOrdinary c = true) (hfirst : s.current = none → c ≠ 35 ∧ c ≠ 126) :
    lexStep s c = some (s.push .plain [⟨c,false⟩]) := by
  simp only [isOrdinary, Bool.not_eq_true', Bool.or_eq_false_iff] at hc
  obtain ⟨⟨⟨⟨h1,h2⟩,h3⟩,h4⟩,h5⟩ := hc
  have h4' : c ≠ 92 ∧ c ≠ 39 ∧ c ≠ 34 := by simpa [isQuoting, and_assoc] using h4
  have h6 : ¬(c = 126 ∧ s.current = none) := fun h => (hfirst h.2).2 h.1
  have h7 : ¬(c = 35 ∧ s.current = none) := fun h => (hfirst h.2).1 h.1
  simp [lexStep, hs, lexPlain, h1, h2, h3, h4', h5, h6, h7]

theorem run_ordinary (w v : Buf) (ts : List Token) (hw : ∀ c ∈ w, isOrdinary c = true) :
    run lexStep ⟨.plain,some (plainWord v),ts⟩ w =
      some ⟨.plain,some (plainWord (v++w)),ts⟩ := by
  induction w generalizing v with
  | nil => simp [run]
  | cons c w ih =>
    have hstep := lex_plain_ordinary ⟨.plain,some (plainWord v),ts⟩ c rfl (hw c (by simp))
      (by simp)
    have hpush : Lexer.push ⟨.plain,some (plainWord v),ts⟩ .plain [⟨c,false⟩] =
        ⟨.plain,some (plainWord (v++[c])),ts⟩ := by
      simp [Lexer.push, plainWord]
    rw [hpush] at hstep
    rw [run, hstep, Option.bind_some, ih (v++[c]) (fun d hd => hw d (by simp [hd]))]
    simp

theorem run_word (w : Buf) (ts : List Token) (hw : Bare w) (hne : w ≠ []) :
    run lexStep ⟨.plain,none,ts⟩ (w++[32]) =
      some ⟨.plain,none,ts++[.word (plainWord w)]⟩ := by
  obtain ⟨hord,hhash,htilde⟩ := hw
  cases w with
  | nil => exact absurd rfl hne
  | cons c w =>
    have hstep := lex_plain_ordinary ⟨.plain,none,ts⟩ c rfl (hord c (by simp))
      (fun _ => ⟨by simpa using hhash,by simpa using htilde⟩)
    have hrest := run_ordinary w [c] ts (fun d hd => hord d (by simp [hd]))
    rw [List.cons_append, run, hstep, Option.bind_some, run_append]
    change (run lexStep ⟨.plain,some (plainWord [c]),ts⟩ w).bind _ = _
    rw [hrest]
    rfl

theorem run_line (ws : List Buf) (ts : List Token) (hws : ∀ w ∈ ws, Bare w ∧ w ≠ []) :
    run lexStep ⟨.plain,none,ts⟩ (line ws) =
      some ⟨.plain,none,ts++ws.map (fun w => .word (plainWord w))⟩ := by
  induction ws generalizing ts with
  | nil => simp [line, run]
  | cons w ws ih =>
    obtain ⟨hw,hne⟩ := hws w (by simp)
    have hline : line (w::ws) = (w++[32])++line ws := by simp [line]
    rw [hline, run_append, run_word w ts hw hne, Option.bind_some,
      ih _ (fun v hv => hws v (by simp [hv]))]
    simp

theorem command_plain (ws : List Word) :
    command false (ws.map .word) = some (ws,[]) := by
  induction ws with
  | nil => rfl
  | cons w ws ih => simp [command, ih]

/-- A line of bare words starts one program with these words, up to pathname
expansion. -/
theorem system_bare (fnmatch : Word → Buf → Bool) (env : Env) (ws : List Buf)
    (hws : ∀ w ∈ ws, Bare w ∧ w ≠ []) :
    system fnmatch env (line ws) = [ws.flatMap (fun w => fields fnmatch env (plainWord w))] := by
  have hrun := run_line ws [] hws
  have htokens : ws.map (fun w => Token.word (plainWord w)) = (ws.map plainWord).map .word := by
    simp
  rw [List.nil_append, htokens] at hrun
  rw [system, start, hrun]
  simp only [lexEnd, Lexer.finish, execute, command_plain]
  rw [List.flatMap_map]

theorem tight_append (s t : Lexer) (as bs : Buf) (h : Tight s (as++bs) t) :
    ∃ u, Tight s as u ∧ Tight u bs t := by
  induction as generalizing s with
  | nil => exact ⟨s,⟨rfl,by simp⟩,h⟩
  | cons c as ih =>
    obtain ⟨v,hv,hp,hvt⟩ := tight_cons s t c (as++bs) h
    obtain ⟨u,⟨hr,hpu⟩,hut⟩ := ih v hvt
    refine ⟨u,⟨(run_cons lexStep s c as u).mpr ⟨v,hv,hr⟩,?_⟩,hut⟩
    rw [List.length_cons]
    omega

theorem tight_bare (ws : List Buf) (ts : List Token) (t : Lexer) (hne : ∀ w ∈ ws, w ≠ [])
    (hord : ∀ w ∈ ws, ∀ c ∈ w, isOrdinary c = true)
    (h : Tight ⟨.plain,none,ts⟩ (line ws) t) (ht : t.mode = .plain) : ∀ w ∈ ws, Bare w := by
  induction ws generalizing ts with
  | nil => simp
  | cons w ws ih =>
    have hw : Bare w := by
      refine ⟨hord w (by simp),?_,?_⟩
      · intro hhead
        obtain ⟨v,rfl⟩ := List.head?_eq_some_iff.mp hhead
        rw [line_cons, List.cons_append] at h
        obtain ⟨u,hu,-,hut⟩ := tight_cons _ _ _ _ h
        cases hu
        cases (tight_plain _ _ _ hut ht).1
      · intro hhead
        obtain ⟨v,rfl⟩ := List.head?_eq_some_iff.mp hhead
        rw [line_cons, List.cons_append] at h
        obtain ⟨u,hu,-,-⟩ := tight_cons _ _ _ _ h
        cases hu
    have hsplit : line (w::ws) = (w++[32])++line ws := by simp [line]
    rw [hsplit] at h
    obtain ⟨u,hu,hut⟩ := tight_append _ _ _ _ h
    have hrun := run_word w ts hw (hne w (by simp))
    obtain rfl := Option.some_inj.mp (hrun.symm.trans hu.1)
    intro v hv
    rcases List.mem_cons.mp hv with rfl | hv
    · exact hw
    · exact ih _ (fun v hv => hne v (by simp [hv])) (fun v hv => hord v (by simp [hv])) hut v hv

theorem line_spaces (ws : List Buf) :
    (line ws).countP isSpace = ws.length+(ws.map (List.countP isSpace)).sum := by
  induction ws with
  | nil => rfl
  | cons w ws ih =>
    rw [line_cons, List.countP_append, List.countP_cons_of_pos (by decide), ih]
    simp
    omega

theorem words_ordinary (ws : List Buf)
    (hbytes : ∀ c ∈ line ws, isSpace c = true ∨ isOrdinary c = true)
    (hcount : (line ws).countP isSpace = ws.length) :
    ∀ w ∈ ws, ∀ c ∈ w, isOrdinary c = true := by
  intro w hw c hc
  have hsum : (ws.map (List.countP isSpace)).sum = 0 := by
    rw [line_spaces] at hcount
    omega
  have hzero : w.countP isSpace = 0 :=
    List.sum_eq_zero_iff.mp hsum _ (List.mem_map_of_mem hw)
  have hmem : c ∈ line ws := List.mem_flatMap.mpr ⟨w,hw,by simp [hc]⟩
  exact (hbytes c hmem).resolve_left (List.countP_eq_zero.mp hzero c hc)

theorem escape_step (s t : Lexer) (c : Byte) (h : lexStep s c = some t) (ht : t.mode = .escape) :
    c = 92 := by
  cases lex_step_rule s t c h with
  | escape hm hc => exact hc
  | finish hm hc =>
    rw [mode_finish] at ht
    cases ht
  | comment hm => cases hm.symm.trans ht
  | _ => cases ht

theorem line_snoc (ws : List Buf) (w : Buf) : line (ws++[w]) = line ws++w++[32] := by
  simp [line]

theorem all_words (ws : List Buf) (T : List Token) (words : List Word) (rest : List Token)
    (w : Word) (hlast : T.getLast? = some (.word w))
    (hcommand : command false T = some (words,rest)) (hsub : ws.Sublist (words.map bytes))
    (htotal : total T ≤ (line ws).length) :
    (∀ c, .op c ∉ T) ∧ T = words.map .word ∧ ws = words.map bytes := by
  have hfits := command_fits T false words rest hcommand
  have hop : ∀ c, .op c ∉ T := by
    intro c hc
    have := command_operator T false words rest w hlast hcommand (.inr ⟨c,hc⟩)
    have := line_mono _ _ hsub
    omega
  exact ⟨hop,command_words T words rest hop hcommand,sublist_line _ _ hsub (by omega)⟩

theorem plain_bare (ws : List Buf) (u : Lexer) (body : Buf) (words : List Word)
    (rest : List Token) (hne : ∀ w ∈ ws, w ≠ []) (hbody : line ws = body++[32])
    (hrun : run lexStep start body = some u) (hplain : u.mode = .plain)
    (hcommand : command false u.finish.tokens = some (words,rest))
    (hsub : ws.Sublist (words.map bytes)) : ∀ w ∈ ws, Bare w := by
  have hlen : (line ws).length = body.length+1 := by simp [hbody]
  have hfull := (line_mono _ _ hsub).trans (command_fits _ false words rest hcommand)
  have hpot := run_potential start u body hrun
  have hstart : start.potential = 0 := rfl
  have hsize : u.potential = u.size := by simp [Lexer.potential, hplain, Mode.cost]
  have hfinish : total u.finish.tokens ≤ u.finish.size := by simp [Lexer.size]
  have hfs := size_finish u
  obtain ⟨w,hw⟩ : ∃ w, u.current = some w := by
    cases hc : u.current with
    | none =>
      rw [hc] at hfs
      simp only [Option.isSome_none, Bool.false_eq_true, if_false] at hfs
      omega
    | some w => exact ⟨w,rfl⟩
  rw [hw] at hfs
  simp only [Option.isSome_some, if_true] at hfs
  have htokens : u.finish.tokens = u.tokens++[.word w] := by simp [Lexer.finish, hw]
  obtain ⟨hop,hall,hws⟩ :=
    all_words ws _ words rest w (by simp [htokens]) hcommand hsub (by omega)
  have hlast : lexStep u 32 = some u.finish := by simp [lexStep, hplain, lexPlain, isSpace]
  have htight : Tight start (line ws) u.finish := by
    constructor
    · rw [hbody, run_append, hrun, Option.bind_some, run, hlast]
      rfl
    · have : u.finish.potential = u.finish.size := by
        simp [Lexer.potential, mode_finish, Mode.cost]
      omega
  obtain ⟨hbytes,hcount⟩ := tight_run _ _ _ htight (mode_finish u) hop
  have hspaces : (line ws).countP isSpace = ws.length := by
    have hlength : u.finish.tokens.length = ws.length := by simp [hall, hws]
    simp only [start, List.length_nil, zero_add] at hcount
    exact hcount.symm.trans hlength
  exact tight_bare ws [] _ hne (words_ordinary ws hbytes hspaces) htight (mode_finish u)

theorem escape_impossible (ws : List Buf) (u : Lexer) (body : Buf) (words : List Word)
    (rest : List Token) (hbody : line ws = body++[32])
    (hrun : run lexStep start body = some u) (hescape : u.mode = .escape)
    (hcommand : command false (u.push .plain [⟨32,true⟩]).finish.tokens = some (words,rest))
    (hsub : ws.Sublist (words.map bytes)) : False := by
  have hlen : (line ws).length = body.length+1 := by simp [hbody]
  have hpot := run_potential start u body hrun
  have hstart : start.potential = 0 := rfl
  have hsize : u.potential = u.size+1 := by simp [Lexer.potential, hescape, Mode.cost]
  have htokens : (u.push .plain [⟨32,true⟩]).finish.tokens =
      u.tokens++[.word (u.current.getD []++[⟨32,true⟩])] := rfl
  have htotal : total (u.push .plain [⟨32,true⟩]).finish.tokens = u.size+2 := by
    rw [htokens, total_append]
    cases h : u.current <;> simp [Lexer.size, total, Token.weight, h]
    omega
  obtain ⟨-,hall,hws⟩ := all_words ws _ words rest (u.current.getD []++[⟨32,true⟩])
    (by simp [htokens]) hcommand hsub (by omega)
  have hne : words ≠ [] := by
    rintro rfl
    simp [htokens] at hall
  have hwords := List.dropLast_append_getLast hne
  have hx : words.getLast hne = u.current.getD []++[⟨32,true⟩] := by
    rw [htokens, ← hwords, List.map_append] at hall
    simpa using congrArg List.getLast? hall.symm
  -- the last word ends with a blank, but a backslash stands there in the line
  have hline : line ws =
      line (words.dropLast.map bytes)++bytes (u.current.getD [])++[32]++[32] := by
    rw [hws, ← hwords, hx, List.map_append, List.map_singleton, line_snoc]
    simp [bytes]
  have hbody' := List.append_cancel_right (hbody.symm.trans hline)
  rw [hbody', run_append] at hrun
  obtain ⟨v,-,hv⟩ := Option.bind_eq_some_iff.mp hrun
  obtain ⟨u',hu',hr⟩ := (run_cons lexStep v 32 [] u).mp hv
  cases hr
  exact absurd (escape_step v u 32 hu' hescape) (by decide)

theorem comment_impossible (ws : List Buf) (u : Lexer) (body : Buf) (words : List Word)
    (rest : List Token) (hbody : line ws = body++[32])
    (hrun : run lexStep start body = some u) (hcomment : u.mode = .comment)
    (hcommand : command false u.tokens = some (words,rest))
    (hsub : ws.Sublist (words.map bytes)) : False := by
  have hlen : (line ws).length = body.length+1 := by simp [hbody]
  have hpot := run_potential start u body hrun
  have hfull := (line_mono _ _ hsub).trans (command_fits _ false words rest hcommand)
  have hsize : u.potential = u.size+1 := by simp [Lexer.potential, hcomment, Mode.cost]
  have htotal : total u.tokens ≤ u.size := by simp [Lexer.size]
  have hstart : start.potential = 0 := rfl
  omega

theorem words_bare (ws : List Buf) (s : Lexer) (T : List Token) (words : List Word)
    (rest : List Token) (hws : ws ≠ []) (hne : ∀ w ∈ ws, w ≠ [])
    (hrun : run lexStep start (line ws) = some s) (hend : lexEnd s = some T)
    (hcommand : command false T = some (words,rest))
    (hsub : ws.Sublist (words.map bytes)) : ∀ w ∈ ws, Bare w := by
  obtain ⟨vs,v,hv⟩ : ∃ vs v, ws = vs++[v] := ⟨_,_,(List.dropLast_append_getLast hws).symm⟩
  have hbody : line ws = (line vs++v)++[32] := by rw [hv, line_snoc]
  have hrun' := hrun
  rw [hbody, run_append] at hrun'
  obtain ⟨u,hu,hlast⟩ := Option.bind_eq_some_iff.mp hrun'
  have hstep : lexStep u 32 = some s := by
    obtain ⟨s',hs',hr⟩ := (run_cons lexStep u 32 [] s).mp hlast
    cases hr
    exact hs'
  cases hm : u.mode with
  | plain =>
    obtain rfl : u.finish = s := by simpa [lexStep, hm, lexPlain, isSpace] using hstep
    have hfinish : u.finish.finish.tokens = u.finish.tokens := by
      cases h : u.current <;> simp [Lexer.finish, h]
    simp only [lexEnd, mode_finish, hfinish] at hend
    cases hend
    exact plain_bare ws u _ words rest hne hbody hu hm hcommand hsub
  | escape =>
    obtain rfl : u.push .plain [⟨32,true⟩] = s := by simpa [lexStep, hm] using hstep
    cases hend
    exact (escape_impossible ws u _ words rest hbody hu hm hcommand hsub).elim
  | single =>
    obtain rfl : u.push .single [⟨32,true⟩] = s := by simpa [lexStep, hm] using hstep
    cases hend
  | double =>
    obtain rfl : u.push .double [⟨32,true⟩] = s := by
      simpa [lexStep, hm, lexDouble, isExpanding] using hstep
    cases hend
  | doubleEscape =>
    obtain rfl : u.push .double [⟨92,true⟩,⟨32,true⟩] = s := by
      simpa [lexStep, hm, lexDoubleEscape, isExpanding] using hstep
    cases hend
  | comment =>
    obtain rfl : u = s := by simpa [lexStep, hm] using hstep
    have hT : T = u.tokens := by simpa [lexEnd, hm] using hend.symm
    exact (comment_impossible ws u _ words rest hbody hu hm (hT ▸ hcommand) hsub).elim

def Env.quiet : Env := ⟨fun _ => [],fun _ => some [],[],.nil⟩

theorem fields_quiet (fnmatch : Word → Buf → Bool) (words : List Word) :
    words.flatMap (fields fnmatch .quiet) = words.map bytes := by
  have hfield : ∀ w, fields fnmatch .quiet w = [bytes w] := by
    intro w
    simp [fields, Env.quiet]
  induction words with
  | nil => rfl
  | cons w words ih => rw [List.flatMap_cons, hfield, ih, List.map_cons, List.singleton_append]

/-- What the first command of a line gets contains the line's words only if
these are bare. -/
theorem quiet_bare (fnmatch : Word → Buf → Bool) (ws argv : List Buf) (hws : ws ≠ [])
    (hne : ∀ w ∈ ws, w ≠ []) (h : system fnmatch .quiet (line ws) = [argv])
    (hsub : ws.Sublist argv) : ∀ w ∈ ws, Bare w := by
  cases hrun : run lexStep start (line ws) with
  | none => simp [system, hrun, Env.quiet] at h
  | some s =>
    cases hend : lexEnd s with
    | none => simp [system, hrun, hend] at h
    | some T =>
      cases hcommand : command false T with
      | none => simp [system, hrun, hend, execute, hcommand] at h
      | some r =>
        obtain ⟨words,rest⟩ := r
        have hargv : words.map bytes = argv := by
          rw [← fields_quiet fnmatch words]
          cases rest with
          | nil => simpa [system, hrun, hend, execute, hcommand] using h
          | cons t ts =>
            have hlater : Env.quiet.later (t::ts) = some [] := rfl
            simpa [system, hrun, hend, execute, hcommand, hlater] using h
        exact words_bare ws s T words rest hws hne hrun hend hcommand (hargv ▸ hsub)

end Flip.Shell
