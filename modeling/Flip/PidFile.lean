import Flip.Decimal
import Flip.Runs

/-!
# The pid file of a daemon

A process goes through `become_daemon`, its work and `stop_daemon`, one system
call at a step, and may fail at each of them. The disk maps directory entries
to files, so that a file outlives its entry while a process has it open. What
the kernel makes of a path is a parameter: `access` and `fopen` go on through a
symbolic link at its end, `unlink` removes the link.
-/

set_option autoImplicit false

namespace Flip.PidFile
open Flip.CLib Flip.Decimal

variable {Loc : Type} [DecidableEq Loc]

/-- Entries name files by number, and numbers from `next` on are unused. -/
structure Disk (Loc : Type) where
  entry : Loc → Option ℕ
  data : ℕ → Buf
  next : ℕ
  fresh : ∀ l i, entry l = some i → i < next

def Disk.empty : Disk Loc := ⟨fun _ => none,fun _ => [],0,fun _ _ h => by cases h⟩

def Disk.create (d : Disk Loc) (l : Loc) : Disk Loc where
  entry := Function.update d.entry l (some d.next)
  data := Function.update d.data d.next []
  next := d.next+1
  fresh := by
    intro m i h
    by_cases hm : m = l
    · subst hm
      simp only [Function.update_self, Option.some.injEq] at h
      omega
    · rw [Function.update_of_ne hm] at h
      have := d.fresh m i h
      omega

def Disk.store (d : Disk Loc) (i : ℕ) (b : Buf) : Disk Loc :=
  { d with data := Function.update d.data i b }

/-- `fopen` with mode "w+": the file it opens, emptied or new. -/
def Disk.fopen (d : Disk Loc) (l : Loc) : ℕ × Disk Loc :=
  match d.entry l with
  | some i => (i,d.store i [])
  | none => (d.next,d.create l)

def Disk.write (d : Disk Loc) (i : ℕ) (b : Buf) : Disk Loc :=
  d.store i (b++(d.data i).drop b.length)

def Disk.unlink (d : Disk Loc) (l : Loc) : Disk Loc where
  entry := Function.update d.entry l none
  data := d.data
  next := d.next
  fresh := by
    intro m i h
    by_cases hm : m = l
    · subst hm
      simp at h
    · rw [Function.update_of_ne hm] at h
      exact d.fresh m i h

/-- A relative path is read in the working directory of the caller. -/
def resolve (locate : Buf → Option Loc) (cwd path : Buf) : Option Loc :=
  if path = [] then none
  else if path.head? = some 47 then locate path
  else locate (cwd++47::path)

theorem resolve_absolute {Loc : Type} (locate : Buf → Option Loc) (cwd path : Buf)
    (h : path.head? = some 47) : resolve locate cwd path = locate path := by
  have hne : path ≠ [] := by
    rintro rfl
    cases h
  simp [resolve, h, hne]

/-- The entry that a path names in a working directory, and the entry that is
reached from there, which is no symbolic link itself. -/
structure Names (Loc : Type) where
  entry : Buf → Buf → Option Loc
  link : Loc → Option Loc
  final : ∀ m l, link m = some l → link l = some l

def Names.follow {Loc : Type} (names : Names Loc) (cwd path : Buf) : Option Loc :=
  (names.entry cwd path).bind names.link

theorem followed_final {Loc : Type} (names : Names Loc) (cwd path : Buf) (l : Loc)
    (h : names.follow cwd path = some l) : names.link l = some l := by
  obtain ⟨m,-,hm⟩ := Option.bind_eq_some_iff.mp h
  exact names.final m l hm

/-- No path ends in a symbolic link, and only a relative one depends on the
working directory. -/
def Names.plain {Loc : Type} (locate : Buf → Option Loc) : Names Loc where
  entry := resolve locate
  link := some
  final := fun _ _ _ => rfl

@[simp] theorem plain_entry {Loc : Type} (locate : Buf → Option Loc) (cwd path : Buf) :
    (Names.plain locate).entry cwd path = resolve locate cwd path := rfl

@[simp] theorem plain_follow {Loc : Type} (locate : Buf → Option Loc) (cwd path : Buf) :
    (Names.plain locate).follow cwd path = resolve locate cwd path :=
  Option.bind_fun_some _

def named (d : Disk Loc) (l : Option Loc) : Option ℕ := l.bind d.entry

def isFileExist (d : Disk Loc) (l : Option Loc) : Bool := (named d l).isSome

def pidText (pid : ℕ) : Buf := decimal pid++ascii "\n"

inductive Pc where
  | fork
  | setsid
  | access
  | fopen
  | fprintf (file : ℕ)
  | chdir
  | running
  | stopAccess
  | unlink
  | exited
  deriving DecidableEq

structure Proc where
  pc : Pc
  cwd : Buf
  deriving DecidableEq

/-- A system call and its outcome; `done` is any way to the label of that name. -/
inductive Call where
  | fork (ok : Bool)
  | setsid (ok : Bool)
  | access
  | fopen (ok : Bool)
  | fprintf (ok flushed : Bool)
  | chdir (ok : Bool)
  | done
  | unlink (ok : Bool)
  deriving DecidableEq

def tmp : Buf := ascii "/tmp"

section Process

variable (names : Names Loc) (path : CString)

def checkPid (d : Disk Loc) (q : Proc) (found absent : Pc) : Proc :=
  { q with pc := if isFileExist d (names.follow q.cwd path.bytes) then found else absent }

def openPid (d : Disk Loc) (q : Proc) : Disk Loc × Proc :=
  match names.follow q.cwd path.bytes with
  | some l => ((d.fopen l).2,{ q with pc := .fprintf (d.fopen l).1 })
  | none => (d,{ q with pc := .exited })

def unlinkPid (d : Disk Loc) (q : Proc) : Disk Loc × Proc :=
  match names.entry q.cwd path.bytes with
  | some l => (d.unlink l,{ q with pc := .exited })
  | none => (d,{ q with pc := .exited })

/-- One call of a process. A call that is not the next one has no successor. -/
def act (pid : ℕ) (d : Disk Loc) (q : Proc) : Call → Option (Disk Loc × Proc)
  | .fork ok =>
    if q.pc = .fork then some (d,{ q with pc := if ok then .setsid else .exited }) else none
  | .setsid ok =>
    if q.pc = .setsid then some (d,{ q with pc := if ok then .access else .exited }) else none
  | .access =>
    if q.pc = .access then some (d,checkPid names path d q .exited .fopen)
    else if q.pc = .stopAccess then some (d,checkPid names path d q .unlink .exited)
    else none
  | .fopen ok =>
    if q.pc = .fopen then
      some (if ok then openPid names path d q else (d,{ q with pc := .exited }))
    else none
  | .fprintf ok flushed =>
    match q.pc with
    | .fprintf i =>
      if ok then some (if flushed then d.write i (pidText pid) else d,{ q with pc := .chdir })
      else some (d,{ q with pc := .exited })
    | _ => none
  | .chdir ok =>
    if q.pc = .chdir then
      some (d,if ok then ⟨.running,tmp⟩ else { q with pc := .exited }) else none
  | .done => if q.pc = .running then some (d,{ q with pc := .stopAccess }) else none
  | .unlink ok =>
    if q.pc = .unlink then
      some (if ok then unlinkPid names path d q else (d,{ q with pc := .exited }))
    else none

end Process

end Flip.PidFile
