import Flip.Runs
import Flip.Sql

/-!
# The life of an SQL handle

`sql_init` opens the connection, the calls after it read the connection out of
the context and `sql_close` ends both. A statement that is prepared and not
finalized stays with the connection, and a table that cannot be created takes
the connection and the context with it.
-/

set_option autoImplicit false

namespace Flip.SqlLifecycle
open Flip.CLib Flip.Runs Flip.Ticker Flip.Sql

variable {D : Type}

/-- The handle of a database file with these rows, when all goes well. The
connection of a failed open is closed again. -/
def sqlInit (tmpCtx ctx : Bool) (openRet : SqliteRet) (rows : List (Row D)) :
    Errno × Option (Db D) :=
  if tmpCtx = false then (.enomem,none)
  else if ctx = false then (.enomem,none)
  else if openRet ≠ sqliteOk then (.eio,none)
  else (.eok,some ⟨rows,0,true,true⟩)

inductive Use (D : Type) where
  | createTicksTable (exec : SqliteRet)
  | insertTick (replies : Replies) (ticker : BtceTicker D)
  | close

/-- Each of them reads the connection from the context. -/
def Use.run : Use D → Db D → Except Fault (Errno × Db D)
  | use, db =>
    if db.ctxAllocated then
      match use with
      | .createTicksTable exec => .ok (sqlCreateTicksTable exec db)
      | .insertTick replies ticker => .ok (sqlInsertTick replies ticker db)
      | .close => .ok (sqlClose db)
    else .error .useAfterFree

def handle (db : Db D) (use : Use D) : Option (Db D) :=
  match use.run db with
  | .ok result => some result.2
  | .error _ => none

def session (exec : SqliteRet) (ticks : List (Replies × BtceTicker D)) : List (Use D) :=
  .createTicksTable exec::ticks.map (fun tick => .insertTick tick.1 tick.2)

structure Clean (db : Db D) : Prop where
  finalized : db.unfinalized = 0
  connected : db.isOpen = true
  allocated : db.ctxAllocated = true

structure Sound (calls : List (Use D)) (db : Db D) : Prop where
  between : ∀ before after, calls = before++after → ∃ d, run handle db before = some d ∧ Clean d
  closes : ∃ d closed, run handle db calls = some d ∧ Use.close.run d = .ok (.eok,closed) ∧
    closed.isOpen = false ∧ closed.ctxAllocated = false

/-- A statement that gets prepared gets to its `sqlite3_finalize`. -/
def Finalizes (a : Replies) : Prop := a.prepare = sqliteOk → a.Inserts

def Tame : Use D → Prop
  | .createTicksTable exec => exec = sqliteOk
  | .insertTick replies _ => Finalizes replies
  | .close => False

theorem create_clean_iff (exec : SqliteRet) (db : Db D) (h : Clean db) :
    Clean (sqlCreateTicksTable exec db).2 ↔ exec = sqliteOk := by
  by_cases hexec : exec = sqliteOk
  · simpa [sqlCreateTicksTable, hexec] using h
  · have hclosed : (sqlCreateTicksTable exec db).2.isOpen = false := by
      simp [sqlCreateTicksTable, sqlClose, hexec, h.connected, h.finalized]
    refine iff_of_false (fun hclean => ?_) hexec
    simp [hclean.connected] at hclosed

theorem insert_clean_iff (a : Replies) (t : BtceTicker D) (db : Db D) (h : Clean db) :
    Clean (sqlInsertTick a t db).2 ↔ Finalizes a := by
  by_cases hp : a.prepare = sqliteOk
  · by_cases ha : a.Inserts
    · rw [insert_done a t db ha]
      exact iff_of_true ⟨h.finalized,h.connected,h.allocated⟩ (fun _ => ha)
    · obtain ⟨ret,-,hrun⟩ := insert_unfinished a t db hp ha
      rw [hrun]
      exact iff_of_false (fun hclean => Nat.succ_ne_zero _ hclean.finalized)
        (fun hfin => ha (hfin hp))
  · rw [insert_unprepared a t db hp]
    exact iff_of_true h (fun hok => absurd hok hp)

theorem close_clean (db : Db D) (h : Clean db) :
    sqlClose db = (.eok,{ db with isOpen := false, ctxAllocated := false }) := by
  simp [sqlClose, h.connected, h.finalized]

theorem handle_clean_iff (db : Db D) (use : Use D) (h : Clean db) :
    ∃ d, handle db use = some d ∧ (Clean d ↔ Tame use) := by
  cases use with
  | createTicksTable exec =>
    exact ⟨_,by rw [handle, Use.run, if_pos h.allocated],create_clean_iff exec db h⟩
  | insertTick replies ticker =>
    exact ⟨_,by rw [handle, Use.run, if_pos h.allocated],insert_clean_iff replies ticker db h⟩
  | close =>
    refine ⟨_,by rw [handle, Use.run, if_pos h.allocated],?_⟩
    rw [close_clean db h]
    exact iff_of_false (fun hclean => Bool.false_ne_true hclean.connected) id

theorem sound_iff (calls : List (Use D)) (db : Db D) (h : Clean db) :
    Sound calls db ↔ ∀ use ∈ calls, Tame use := by
  rw [← along_labels handle Clean Tame handle_clean_iff calls db h,
    ← prefixes_iff handle _ Clean handle_clean_iff calls db h]
  refine ⟨Sound.between,fun hall => ⟨hall,?_⟩⟩
  obtain ⟨d,hd,hclean⟩ := hall calls [] (by simp)
  refine ⟨d,_,hd,by rw [Use.run, if_pos hclean.allocated, close_clean d hclean],rfl,rfl⟩

theorem init_clean (tmpCtx ctx : Bool) (openRet : SqliteRet) (rows : List (Row D)) (db : Db D)
    (h : sqlInit tmpCtx ctx openRet rows = (.eok,some db)) : Clean db := by
  simp only [sqlInit] at h
  split_ifs at h
  · simp at h
  · simp at h
  · simp at h
  · cases h
    exact ⟨rfl,rfl,rfl⟩

/-- A handle lives as it should exactly when the table can be created and no
insert stops between its prepare and its finalize. -/
theorem session_sound_iff (tmpCtx ctx : Bool) (openRet : SqliteRet) (rows : List (Row D))
    (db : Db D) (hinit : sqlInit tmpCtx ctx openRet rows = (.eok,some db)) (exec : SqliteRet)
    (ticks : List (Replies × BtceTicker D)) :
    Sound (session exec ticks) db ↔
      exec = sqliteOk ∧ ∀ tick ∈ ticks, Finalizes tick.1 := by
  rw [sound_iff _ db (init_clean tmpCtx ctx openRet rows db hinit), session,
    List.forall_mem_cons, List.forall_mem_map]
  rfl

theorem sample_session_sound :
    Sound (session sqliteOk [(allSucceed.toReplies,sampleTicker)]) emptyDb ↔
      sqliteOk = sqliteOk ∧
        ∀ tick ∈ [(allSucceed.toReplies,sampleTicker)], Finalizes tick.1 :=
  session_sound_iff true true sqliteOk [] emptyDb rfl sqliteOk [(allSucceed.toReplies,sampleTicker)]

def stepBusy : Replies := ⟨sqliteOk,fun _ => sqliteOk,5,sqliteOk⟩

theorem failed_step_leaks :
    sqlInit true true sqliteOk [] = (.eok,some emptyDb) ∧
    (∃ d, run handle emptyDb (session sqliteOk [(stepBusy,sampleTicker)]) = some d ∧
      d.unfinalized = 1 ∧ Use.close.run d = .ok (.eio,d)) ∧
    ¬Sound (session sqliteOk [(stepBusy,sampleTicker)]) emptyDb ∧
    (∃ d, run handle emptyDb (session 1 []) = some d ∧ Use.close.run d = .error .useAfterFree) := by
  have hclean : Clean emptyDb := ⟨rfl,rfl,rfl⟩
  refine ⟨rfl,⟨_,rfl,rfl,rfl⟩,?_,⟨_,rfl,rfl⟩⟩
  intro hsound
  have htame := (sound_iff _ emptyDb hclean).mp hsound
  have hfin : Finalizes stepBusy := htame (.insertTick stepBusy sampleTicker) (by simp [session])
  exact absurd (hfin rfl).2.2 (by decide)

end Flip.SqlLifecycle
