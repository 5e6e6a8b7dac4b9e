import Flip.CLib

/-!
# Command line arguments

`argp` hands the positional arguments over one by one with their index and
then says how many there were. The programs declare no option of their own. Of
those that `argp` adds, `--help`, `--usage` and `--version` print something and
exit, and the two it hides go on: `--program-name`, which takes a name, and
`--HANG`, which waits. Any other option is an error and exits. Options may
stand anywhere before a `--`, as they may unless `POSIXLY_CORRECT` is set.
-/

set_option autoImplicit false

namespace Flip.Args
open Flip.CLib

def OptionLike (arg : Buf) : Prop := arg.head? = some 45 ∧ arg ≠ [45]

instance (arg : Buf) : Decidable (OptionLike arg) := inferInstanceAs (Decidable (_ ∧ _))

/-- What `argp` does with an argument: an option that goes on may take the next
argument with it. -/
inductive Handling where
  | deliver
  | quote
  | skip
  | skipNext
  | exit
  deriving DecidableEq

def optionName (arg : Buf) : Buf := (arg.drop 2).takeWhile (· ≠ 61)

/-- A long option may be shortened: no two of the five names begin alike. -/
def handling (arg : Buf) : Handling :=
  if arg = ascii "--" then .quote
  else if ¬OptionLike arg then .deliver
  else if ¬ascii "--" <+: arg ∨ optionName arg = [] then .exit
  else if optionName arg <+: ascii "program-name" then if 61 ∈ arg then .skip else .skipNext
  else if optionName arg <+: ascii "HANG" then .skip
  else .exit

/-- The positional arguments, unless an option ends the program; `pending` when
the argument before is an option that lacks its value. -/
def scan : (pending : Bool) → List Buf → Option (List Buf)
  | false, [] => some []
  | true, [] => none
  | true, _::args => scan false args
  | false, arg::args =>
    match handling arg with
    | .deliver => (scan false args).map (arg::·)
    | .quote => some args
    | .skip => scan false args
    | .skipNext => scan true args
    | .exit => none

def positionals (args : List Buf) : Option (List Buf) := scan false args

section Argp

variable {α : Type} (parseArg : α → ℕ → Buf → Option α) (parseEnd : α → ℕ → Option α)

/-- The calls with `ARGP_KEY_ARG`; none when one of them ends in `argp_usage`. -/
def deliver (input : α) (argNum : ℕ) : List Buf → Option α
  | [] => some input
  | arg::args => (parseArg input argNum arg).bind (fun next => deliver next (argNum+1) args)

def argpParse (input : α) (argv : List Buf) : Option α := do
  let args ← positionals argv.tail
  let parsed ← deliver parseArg input 0 args
  parseEnd parsed args.length

end Argp

structure FlipdArgsCtx where
  configFile : Option Buf
  deriving DecidableEq

structure WorkerArgsCtx where
  identityName : Option Buf
  pidFile : Option Buf
  rootIpc : Option Buf
  deriving DecidableEq

def flipdParseArg (args : FlipdArgsCtx) (argNum : ℕ) (arg : Buf) : Option FlipdArgsCtx :=
  if argNum > 1 then none
  else if argNum = 0 then some ⟨some arg⟩
  else some args

def flipdParseEnd (args : FlipdArgsCtx) (argNum : ℕ) : Option FlipdArgsCtx :=
  if argNum < 1 then none else some args

/-- A fourth argument has index three and passes. -/
def workerParseArg (args : WorkerArgsCtx) (argNum : ℕ) (arg : Buf) : Option WorkerArgsCtx :=
  if argNum > 3 then none
  else if argNum = 0 then some { args with identityName := some arg }
  else if argNum = 1 then some { args with pidFile := some arg }
  else if argNum = 2 then some { args with rootIpc := some arg }
  else some args

def workerParseEnd (args : WorkerArgsCtx) (argNum : ℕ) : Option WorkerArgsCtx :=
  if argNum < 3 then none else some args

/-- A parser returns a code and its out parameter, or the program exits. -/
inductive Parsed (α : Type) where
  | exits
  | returns (ret : Errno) (args : Option α)
  deriving DecidableEq

def parseFlipdArgs (argv : List Buf) : Parsed FlipdArgsCtx :=
  match argpParse flipdParseArg flipdParseEnd ⟨none⟩ argv with
  | none => .exits
  | some args => .returns .eok (some args)

def parseWorkerArgs (daemonType : DaemonType) (argv : List Buf) : Parsed WorkerArgsCtx :=
  match daemonType with
  | .crawler | .collector =>
    match argpParse workerParseArg workerParseEnd ⟨none,none,none⟩ argv with
    | none => .exits
    | some args => .returns .eok (some args)
  | _ => .returns .einval none

theorem scan_sublist (pending : Bool) (argv args : List Buf)
    (h : scan pending argv = some args) : args.Sublist argv := by
  induction argv generalizing pending args with
  | nil =>
    cases pending with
    | true => cases h
    | false =>
      cases h
      exact List.Sublist.slnil
  | cons arg argv ih =>
    cases pending with
    | true => exact (ih false args h).cons arg
    | false =>
      rw [scan] at h
      cases hhandling : handling arg with
      | deliver =>
        rw [hhandling] at h
        obtain ⟨rest,hrest,rfl⟩ := Option.map_eq_some_iff.mp h
        exact (ih false rest hrest).cons_cons arg
      | quote =>
        rw [hhandling] at h
        cases h
        exact List.sublist_cons_self arg _
      | skip =>
        rw [hhandling] at h
        exact (ih false args h).cons arg
      | skipNext =>
        rw [hhandling] at h
        exact (ih true args h).cons arg
      | exit =>
        rw [hhandling] at h
        cases h

theorem positionals_sublist (argv args : List Buf) (h : positionals argv = some args) :
    args.Sublist argv :=
  scan_sublist false argv args h

example : positionals [ascii "--HANG=0",ascii "a",ascii "--prog",ascii "x",ascii "b"] =
    some [ascii "a",ascii "b"] := by decide

theorem handling_deliver_iff (arg : Buf) : handling arg = .deliver ↔ ¬OptionLike arg := by
  have hdash : OptionLike (ascii "--") := by decide
  unfold handling
  split_ifs <;> simp_all

theorem deliver_rest (args : List Buf) (input parsed : WorkerArgsCtx) (n : ℕ) (hn : 3 ≤ n)
    (h : deliver workerParseArg input n args = some parsed) : parsed = input := by
  induction args generalizing n with
  | nil => simpa [deliver] using h.symm
  | cons a args ih =>
    simp only [deliver, workerParseArg] at h
    split_ifs at h
    · cases h
    · omega
    · omega
    · omega
    · exact ih (n+1) (by omega) h

theorem worker_deliver (args : List Buf) (parsed : WorkerArgsCtx)
    (hlen : ¬args.length < 3)
    (h : deliver workerParseArg ⟨none,none,none⟩ 0 args = some parsed) :
    ∃ a b c rest, args = a::b::c::rest ∧ parsed = ⟨some a,some b,some c⟩ := by
  match args, hlen with
  | a::b::c::rest, _ =>
    refine ⟨a,b,c,rest,rfl,?_⟩
    exact deliver_rest rest ⟨some a,some b,some c⟩ parsed 3 le_rfl h
  | [], hlen => exact absurd (by simp) hlen
  | [_], hlen => exact absurd (by simp) hlen
  | [_,_], hlen => exact absurd (by simp) hlen

theorem worker_args_delivered (argv : List Buf) (a b c : Buf)
    (h : parseWorkerArgs .crawler argv = .returns .eok (some ⟨some a,some b,some c⟩)) :
    ∃ rest, positionals argv.tail = some (a::b::c::rest) := by
  simp only [parseWorkerArgs, argpParse] at h
  cases hp : positionals argv.tail with
  | none => simp [hp] at h
  | some args =>
    cases hd : deliver workerParseArg ⟨none,none,none⟩ 0 args with
    | none => simp [hp, hd] at h
    | some parsed =>
      by_cases hlen : args.length < 3
      · simp [hp, hd, workerParseEnd, hlen] at h
      · obtain ⟨x,y,z,rest,rfl,rfl⟩ := worker_deliver args parsed hlen hd
        simp only [hp, hd, workerParseEnd, hlen, if_false, Option.bind_eq_bind, Option.bind_some,
          Parsed.returns.injEq, Option.some.injEq, WorkerArgsCtx.mk.injEq, true_and] at h
        obtain ⟨rfl,rfl,rfl⟩ := h
        exact ⟨rest,rfl⟩

theorem worker_args_sublist (argv : List Buf) (a b c : Buf)
    (h : parseWorkerArgs .crawler argv = .returns .eok (some ⟨some a,some b,some c⟩)) :
    [a,b,c].Sublist argv.tail := by
  obtain ⟨rest,hp⟩ := worker_args_delivered argv a b c h
  exact List.Sublist.trans (by simp) (positionals_sublist _ _ hp)

theorem positionals_whole (args : List Buf) (h : ∀ a ∈ args, ¬OptionLike a) :
    positionals args = some args := by
  induction args with
  | nil => rfl
  | cons a args ih =>
    obtain ⟨ha,hargs⟩ := List.forall_mem_cons.mp h
    rw [positionals, scan, (handling_deliver_iff a).mpr ha]
    exact congrArg (Option.map (a::·)) (ih hargs)

theorem whole_positionals (args : List Buf) (h : positionals args = some args) :
    ∀ a ∈ args, ¬OptionLike a := by
  induction args with
  | nil => simp
  | cons a args ih =>
    have hshort : ∀ pending, scan pending args ≠ some (a::args) := by
      intro pending hscan
      exact absurd (scan_sublist pending args _ hscan).length_le (by simp)
    rw [positionals, scan] at h
    cases hhandling : handling a with
    | deliver =>
      rw [hhandling] at h
      obtain ⟨rest,hrest,he⟩ := Option.map_eq_some_iff.mp h
      obtain rfl : rest = args := by simpa using he
      exact List.forall_mem_cons.mpr ⟨(handling_deliver_iff a).mp hhandling,ih hrest⟩
    | quote =>
      rw [hhandling] at h
      exact absurd (congrArg (Option.map List.length) h) (by simp)
    | skip =>
      rw [hhandling] at h
      exact absurd h (hshort false)
    | skipNext =>
      rw [hhandling] at h
      exact absurd h (hshort true)
    | exit =>
      rw [hhandling] at h
      cases h

theorem worker_args_iff (prog a b c x y z : Buf) :
    parseWorkerArgs .crawler [prog,a,b,c] = .returns .eok (some ⟨some x,some y,some z⟩) ↔
      (a = x ∧ b = y ∧ c = z) ∧ ∀ s ∈ [a,b,c], ¬OptionLike s := by
  constructor
  · intro h
    obtain ⟨rest,hp⟩ := worker_args_delivered [prog,a,b,c] x y z h
    have hsub := positionals_sublist _ _ hp
    have hall : x::y::z::rest = [a,b,c] := hsub.eq_of_length_le (by simp)
    rw [hall] at hp
    simp only [List.cons.injEq] at hall
    obtain ⟨rfl,rfl,rfl,-⟩ := hall
    exact ⟨⟨rfl,rfl,rfl⟩,whole_positionals _ hp⟩
  · rintro ⟨⟨rfl,rfl,rfl⟩,hopt⟩
    simp only [parseWorkerArgs, argpParse, List.tail_cons, positionals_whole _ hopt]
    rfl

def FlipdArity (prog : Buf) (args : List Buf) : Prop :=
  parseFlipdArgs (prog::args) =
    match args with
    | [configFile] => .returns .eok (some ⟨some configFile⟩)
    | _ => .exits

instance (prog : Buf) (args : List Buf) : Decidable (FlipdArity prog args) :=
  inferInstanceAs (Decidable (_ = _))

def WorkerArity (daemonType : DaemonType) (prog : Buf) (args : List Buf) : Prop :=
  parseWorkerArgs daemonType (prog::args) =
    match args with
    | [identityName,pidFile,rootIpc] =>
      .returns .eok (some ⟨some identityName,some pidFile,some rootIpc⟩)
    | _ => .exits

instance (daemonType : DaemonType) (prog : Buf) (args : List Buf) :
    Decidable (WorkerArity daemonType prog args) := inferInstanceAs (Decidable (_ = _))

theorem argp_parse_whole {α : Type} (parseArg : α → ℕ → Buf → Option α)
    (parseEnd : α → ℕ → Option α) (input : α) (prog : Buf) (args : List Buf)
    (h : ∀ a ∈ args, ¬OptionLike a) :
    argpParse parseArg parseEnd input (prog::args) =
      (deliver parseArg input 0 args).bind (fun parsed => parseEnd parsed args.length) := by
  simp only [argpParse, List.tail_cons, positionals_whole args h, Option.bind_eq_bind,
    Option.bind_some]

theorem flipd_argp_parse (prog : Buf) (args : List Buf) (h : ∀ a ∈ args, ¬OptionLike a) :
    argpParse flipdParseArg flipdParseEnd ⟨none⟩ (prog::args) =
      if args.length = 1 ∨ args.length = 2 then some ⟨args[0]?⟩ else none := by
  rw [argp_parse_whole _ _ _ prog args h]
  match args with
  | [] | [_] | [_,_] => rfl
  | a::b::c::rest => simp [deliver, flipdParseArg]

theorem worker_argp_parse (prog : Buf) (args : List Buf) (h : ∀ a ∈ args, ¬OptionLike a) :
    argpParse workerParseArg workerParseEnd ⟨none,none,none⟩ (prog::args) =
      if args.length = 3 ∨ args.length = 4 then some ⟨args[0]?,args[1]?,args[2]?⟩ else none := by
  rw [argp_parse_whole _ _ _ prog args h]
  match args with
  | [] | [_] | [_,_] | [_,_,_] | [_,_,_,_] => rfl
  | a::b::c::d::e::rest => simp [deliver, workerParseArg]

theorem flipd_arity_iff (prog : Buf) (args : List Buf) (h : ∀ a ∈ args, ¬OptionLike a) :
    FlipdArity prog args ↔ args.length ≠ 2 := by
  simp only [FlipdArity, parseFlipdArgs, flipd_argp_parse prog args h]
  match args with
  | [] | [a] | [a,b] | a::b::c::rest => simp

theorem worker_arity_iff (daemonType : DaemonType)
    (htype : daemonType = .crawler ∨ daemonType = .collector) (prog : Buf) (args : List Buf)
    (h : ∀ a ∈ args, ¬OptionLike a) :
    WorkerArity daemonType prog args ↔ args.length ≠ 4 := by
  have hparse := worker_argp_parse prog args h
  rcases htype with rfl | rfl <;>
  · simp only [WorkerArity, parseWorkerArgs, hparse]
    match args with
    | [] | [a] | [a,b] | [a,b,c] | [a,b,c,d] | a::b::c::d::e::rest => simp

/-- Each program has the arity of its usage text except for one argument too many. -/
theorem arity_iff (prog : Buf) (args : List Buf) (h : ∀ a ∈ args, ¬OptionLike a) :
    (FlipdArity prog args ↔ args.length ≠ 2) ∧
      ∀ daemonType, daemonType = .crawler ∨ daemonType = .collector →
        (WorkerArity daemonType prog args ↔ args.length ≠ 4) :=
  ⟨flipd_arity_iff prog args h,fun daemonType htype =>
    worker_arity_iff daemonType htype prog args h⟩

theorem three_arguments_arity :
    (FlipdArity (ascii "flip_crawler") [ascii "btce",ascii "crawler.pid",ascii "root.ipc"] ↔
        3 ≠ 2) ∧
      ∀ daemonType, daemonType = .crawler ∨ daemonType = .collector →
        (WorkerArity daemonType (ascii "flip_crawler")
          [ascii "btce",ascii "crawler.pid",ascii "root.ipc"] ↔ 3 ≠ 4) :=
  arity_iff (ascii "flip_crawler") [ascii "btce",ascii "crawler.pid",ascii "root.ipc"]
    (by decide)

theorem extra_argument_ignored :
    ¬(FlipdArity (ascii "flipd") [ascii "flip.conf",ascii "other.conf"]) ∧
      parseFlipdArgs [ascii "flipd",ascii "flip.conf",ascii "other.conf"] =
        .returns .eok (some ⟨some (ascii "flip.conf")⟩) ∧
      ¬(WorkerArity .collector (ascii "flip_collector")
        [ascii "btce",ascii "collector.pid",ascii "root.ipc",ascii "other.ipc"]) := by
  decide

end Flip.Args
