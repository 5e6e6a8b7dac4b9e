import Flip.Args
import Flip.ShellLine

/-!
# Starting a worker daemon

The three strings of a worker are pasted into a command line, split by a shell
and taken from the argument vector again.
-/

set_option autoImplicit false

namespace Flip.DaemonHandler
open Flip.CLib Flip.Args Flip.Shell

inductive Launcher where
  | asyncStartWorkerDaemon
  | asyncStartWorkerDaemon2

def Launcher.program : Launcher → Buf
  | .asyncStartWorkerDaemon => ascii "/home/pcech/Projects/flip/x86_64/flip_crawler"
  | .asyncStartWorkerDaemon2 => ascii "/home/celestian/Projects/flip/x86_64/flip_crawler"

def commandLine (l : Launcher) (identityName pidFile rootIpc : CString) : Buf :=
  l.program ++ ascii " " ++ identityName.bytes ++ ascii " " ++ pidFile.bytes ++ ascii " " ++
    rootIpc.bytes ++ ascii " "

variable (fnmatch : Word → Buf → Bool)

def Launches (l : Launcher) (identityName pidFile rootIpc : CString) : Prop :=
  ∀ env, ∃ argv, system fnmatch env (commandLine l identityName pidFile rootIpc) = [argv] ∧
    argv.head? = some l.program ∧
    parseWorkerArgs .crawler argv = .returns .eok
      (some ⟨some identityName.bytes,some pidFile.bytes,some rootIpc.bytes⟩)

/-- As a pattern the string stands for no other name. -/
def Literal (s : Buf) : Prop :=
  (plainWord s).any isGlob = true → ∀ name, fnmatch (plainWord s) name = true → name = s

def Passes (s : CString) : Prop :=
  Bare s.bytes ∧ Literal fnmatch s.bytes ∧ ¬OptionLike s.bytes

theorem command_line_words (l : Launcher) (a b c : CString) :
    commandLine l a b c = line [l.program,a.bytes,b.bytes,c.bytes] := by
  have hspace : ascii " " = [32] := by decide
  simp [commandLine, line, hspace]

theorem program_bare (l : Launcher) : Bare l.program ∧ l.program ≠ [] := by
  cases l <;> decide +kernel

theorem program_fields (l : Launcher) (env : Env) :
    fields fnmatch env (plainWord l.program) = [l.program] := by
  have hglob : (plainWord l.program).any isGlob = false := by
    cases l <;> decide +kernel
  simp [fields, hglob, bytes_plain_word]

theorem nodup_constant (l : List Buf) (s : Buf) (hd : l.Nodup) (hne : l ≠ [])
    (h : ∀ a ∈ l, a = s) : l = [s] := by
  obtain ⟨a,l,rfl⟩ := List.exists_cons_of_ne_nil hne
  have ha := h a (by simp)
  cases l with
  | nil => rw [ha]
  | cons b l =>
    have hb := h b (by simp)
    simp [ha, hb] at hd

theorem literal_fields (env : Env) (s : Buf) (h : Literal fnmatch s) :
    fields fnmatch env (plainWord s) = [s] := by
  rw [fields, bytes_plain_word]
  split_ifs with hfound
  · simp only [Bool.and_eq_true, Bool.not_eq_true', List.isEmpty_eq_false_iff] at hfound
    apply nodup_constant _ s (env.distinct.filter _) hfound.2
    intro name hname
    exact h hfound.1 name (List.mem_filter.mp hname).2
  · rfl

def onlyName (name : Buf) : Env := ⟨fun _ => [],fun _ => some [],[name],by simp⟩

theorem only_name_fields (name s : Buf) :
    fields fnmatch (onlyName name) (plainWord s) =
      [if (plainWord s).any isGlob && fnmatch (plainWord s) name then name else s] := by
  rw [fields, bytes_plain_word, onlyName]
  cases hg : (plainWord s).any isGlob <;> cases hm : fnmatch (plainWord s) name <;> simp [hm]

theorem launch_bare (l : Launcher) (a b c : CString) (hne : ∀ s ∈ [a,b,c], s.bytes ≠ [])
    (h : Launches fnmatch l a b c) : ∀ s ∈ [a,b,c], Bare s.bytes := by
  obtain ⟨argv,hsystem,hhead,hparse⟩ := h .quiet
  rw [command_line_words] at hsystem
  have hprog := program_bare l
  obtain ⟨args,rfl⟩ : ∃ args, argv = l.program::args := List.head?_eq_some_iff.mp hhead
  have hsub := (worker_args_sublist _ _ _ _ hparse).cons_cons l.program
  have hbare := quiet_bare fnmatch _ _ (by simp) (by simpa [hprog.2] using hne) hsystem hsub
  intro s hs
  apply hbare
  simp only [List.mem_cons, List.not_mem_nil, or_false] at hs ⊢
  rcases hs with rfl | rfl | rfl <;> simp

/-- With bare strings the worker starts, and what it takes is what pathname
expansion makes of them. -/
theorem launch_fields (l : Launcher) (a b c : CString) (env : Env) (a' b' c' : Buf)
    (hne : ∀ s ∈ [a,b,c], s.bytes ≠ []) (hbare : ∀ s ∈ [a,b,c], Bare s.bytes)
    (ha : fields fnmatch env (plainWord a.bytes) = [a'])
    (hb : fields fnmatch env (plainWord b.bytes) = [b'])
    (hc : fields fnmatch env (plainWord c.bytes) = [c']) :
    system fnmatch env (commandLine l a b c) = [[l.program,a',b',c']] := by
  have hwords : ∀ w ∈ [l.program,a.bytes,b.bytes,c.bytes], Bare w ∧ w ≠ [] := by
    have hprog := program_bare l
    simp only [List.mem_cons, List.not_mem_nil, or_false] at hne hbare ⊢
    rintro w (rfl | rfl | rfl | rfl)
    · exact hprog
    · exact ⟨hbare a (.inl rfl),hne a (.inl rfl)⟩
    · exact ⟨hbare b (.inr (.inl rfl)),hne b (.inr (.inl rfl))⟩
    · exact ⟨hbare c (.inr (.inr rfl)),hne c (.inr (.inr rfl))⟩
  rw [command_line_words, system_bare fnmatch env _ hwords]
  simp [program_fields, ha, hb, hc]

theorem launch_literal (l : Launcher) (a b c : CString) (hne : ∀ s ∈ [a,b,c], s.bytes ≠ [])
    (h : Launches fnmatch l a b c) :
    ∀ s ∈ [a,b,c], Literal fnmatch s.bytes ∧ ¬OptionLike s.bytes := by
  have hbare := launch_bare fnmatch l a b c hne h
  have hname : ∀ name,
      (∀ s ∈ [a,b,c], (if (plainWord s.bytes).any isGlob && fnmatch (plainWord s.bytes) name then
        name else s.bytes) = s.bytes) ∧ ∀ s ∈ [a,b,c], ¬OptionLike s.bytes := by
    intro name
    obtain ⟨argv,hsystem,-,hparse⟩ := h (onlyName name)
    rw [launch_fields fnmatch l a b c (onlyName name) _ _ _ hne hbare (only_name_fields _ _ _)
      (only_name_fields _ _ _) (only_name_fields _ _ _)] at hsystem
    obtain rfl := List.singleton_inj.mp hsystem
    obtain ⟨⟨ha,hb,hc⟩,hopt⟩ := (worker_args_iff _ _ _ _ _ _ _).mp hparse
    rw [ha, hb, hc] at hopt
    simp only [List.mem_cons, List.not_mem_nil, or_false, forall_eq_or_imp, forall_eq] at hopt ⊢
    exact ⟨⟨ha,hb,hc⟩,hopt⟩
  intro s hs
  refine ⟨fun hg name hm => ?_,(hname []).2 s hs⟩
  have := (hname name).1 s hs
  rwa [hg, hm, Bool.and_self, if_pos rfl] at this

/-- A worker gets its three strings, whatever the environment of the shell,
exactly when each of them passes the shell and the argument parser as it is. -/
theorem launches_iff (l : Launcher) (identityName pidFile rootIpc : CString)
    (hne : ∀ s ∈ [identityName,pidFile,rootIpc], s.bytes ≠ []) :
    Launches fnmatch l identityName pidFile rootIpc ↔
      ∀ s ∈ [identityName,pidFile,rootIpc], Passes fnmatch s := by
  constructor
  · intro h s hs
    have hl := launch_literal fnmatch l _ _ _ hne h s hs
    exact ⟨launch_bare fnmatch l _ _ _ hne h s hs,hl.1,hl.2⟩
  · intro h env
    have hfield : ∀ s ∈ [identityName,pidFile,rootIpc],
        fields fnmatch env (plainWord s.bytes) = [s.bytes] :=
      fun s hs => literal_fields fnmatch env s.bytes (h s hs).2.1
    refine ⟨_,launch_fields fnmatch l _ _ _ env _ _ _ hne (fun s hs => (h s hs).1)
      (hfield _ (by simp)) (hfield _ (by simp)) (hfield _ (by simp)),rfl,?_⟩
    rw [worker_args_iff]
    refine ⟨⟨rfl,rfl,rfl⟩,?_⟩
    simp only [List.mem_cons, List.not_mem_nil, or_false, forall_eq_or_imp, forall_eq] at h ⊢
    exact ⟨h.1.2.2,h.2.1.2.2,h.2.2.2.2⟩

def alpha : CString := ⟨ascii "alpha",by decide⟩

def alphaPid : CString := ⟨ascii "/tmp/flip_crawler_alpha.pid",by decide⟩

def alphaIpc : CString := ⟨ascii "ipc:///tmp/root_flip_crawler_alpha.ipc",by decide⟩

def sameName (w : Word) (name : Buf) : Bool := bytes w = name

theorem passes_plain (s : CString) (hbare : Bare s.bytes)
    (hglob : (plainWord s.bytes).any isGlob = false) (hopt : ¬OptionLike s.bytes) :
    Passes sameName s :=
  ⟨hbare,fun h => absurd h (by simp [hglob]),hopt⟩

theorem alpha_launches :
    Launches sameName .asyncStartWorkerDaemon alpha alphaPid alphaIpc := by
  refine (launches_iff sameName .asyncStartWorkerDaemon alpha alphaPid alphaIpc
    (by decide)).mpr ?_
  simp only [List.mem_cons, List.not_mem_nil, or_false, forall_eq_or_imp, forall_eq]
  exact ⟨passes_plain alpha (by decide) (by decide) (by decide),
    passes_plain alphaPid (by decide) (by decide) (by decide),
    passes_plain alphaIpc (by decide) (by decide) (by decide)⟩

def twoWords : CString := ⟨ascii "a b",by decide⟩

/-- With a blank in the first string the worker takes `a`, `b` and the pid file. -/
theorem blank_shifts_strings :
    ¬∀ (l : Launcher) (identityName pidFile rootIpc : CString),
      (∀ s ∈ [identityName,pidFile,rootIpc], s.bytes ≠ []) →
        Launches sameName l identityName pidFile rootIpc := by
  intro h
  obtain ⟨argv,hsystem,-,hparse⟩ :=
    h .asyncStartWorkerDaemon twoWords alphaPid alphaIpc (by decide) .quiet
  have hline : commandLine .asyncStartWorkerDaemon twoWords alphaPid alphaIpc =
      line [Launcher.program .asyncStartWorkerDaemon,ascii "a",ascii "b",alphaPid.bytes,
        alphaIpc.bytes] := by decide
  rw [hline, system_bare sameName .quiet _ (by decide)] at hsystem
  obtain rfl := List.singleton_inj.mp hsystem
  have hshift : parseWorkerArgs .crawler [Launcher.program .asyncStartWorkerDaemon,ascii "a",
      ascii "b",alphaPid.bytes,alphaIpc.bytes] =
        .returns .eok (some ⟨some (ascii "a"),some (ascii "b"),some alphaPid.bytes⟩) := by decide
  have hfields : ∀ s : Buf, fields sameName .quiet (plainWord s) = [s] :=
    fun s => literal_fields sameName .quiet s (fun _ name hm => by
      simpa [sameName, bytes_plain_word, eq_comm] using hm)
  simp only [List.flatMap_cons, List.flatMap_nil, hfields, List.singleton_append,
    List.append_nil, hshift] at hparse
  revert hparse
  decide

end Flip.DaemonHandler
