import Flip.Ticker

/-!
# Storing ticks

Every answer of SQLite is an input of the call that receives it, so one
theorem covers all thirteen fallible calls of an insert. The return code and
the stored rows are two outputs of the same function; whether they agree is
what the results below decide, call by call and over a whole run.
-/

set_option autoImplicit false

namespace Flip.Sql
open Flip.CLib Flip.Ticker

variable {D : Type}

inductive Column where
  | pair
  | high
  | low
  | avg
  | vol
  | volCur
  | last
  | buy
  | sell
  | updated
  deriving DecidableEq

inductive Value (D : Type) where
  | null
  | text (bytes : Buf)
  | real (d : D)
  | int (i : Int32)

abbrev Row (D : Type) := Column → Value D

def tickRow (t : BtceTicker D) : Row D
  | .pair => .text t.pair.bytes
  | .high => .real t.high
  | .low => .real t.low
  | .avg => .real t.avg
  | .vol => .real t.vol
  | .volCur => .real t.volCur
  | .last => .real t.last
  | .buy => .real t.buy
  | .sell => .real t.sell
  | .updated => .int t.updated

abbrev SqliteRet := ℤ

def sqliteOk : SqliteRet := 0
def sqliteMisuse : SqliteRet := 21
def sqliteDone : SqliteRet := 101

structure Replies where
  prepare : SqliteRet
  bind : ℕ → SqliteRet
  step : SqliteRet
  finalize : SqliteRet

/-- What SQLite answers inside one insert. A step that is done leaves nothing
for `sqlite3_finalize` to report. -/
structure Answers extends Replies where
  finalize_done : step = sqliteDone → finalize = sqliteOk

structure Db (D : Type) where
  rows : List (Row D)
  unfinalized : ℕ
  isOpen : Bool
  ctxAllocated : Bool

abbrev Bindings (D : Type) := ℕ → Value D

/-- A statement that fails to compile leaves the pointer NULL. -/
def sqlite3PrepareV2 (a : Replies) : Option (Bindings D) :=
  if a.prepare = sqliteOk then some (fun _ => .null) else none

-- A NaN would be stored as NULL. Here it is stored as it is, like any other number.
def sqlite3Bind (ret : SqliteRet) (statement : Option (Bindings D)) (k : ℕ) (v : Value D) :
    SqliteRet × Option (Bindings D) :=
  match statement with
  | none => (sqliteMisuse,none)
  | some b => (ret,some (if ret = sqliteOk then Function.update b k v else b))

/-- The column list of the `INSERT`; placeholder `k` belongs to its `k`-th name. -/
def insertColumns : List Column :=
  [.pair,.high,.low,.avg,.vol,.volCur,.last,.buy,.sell,.updated]

def insertedRow (b : Bindings D) : Row D := fun c => b (insertColumns.idxOf c+1)

def tickBinds (t : BtceTicker D) : List (ℕ × Value D) :=
  [(1,.text t.pair.bytes),(2,.real t.high),(3,.real t.low),(4,.real t.avg),(5,.real t.vol),
    (6,.real t.volCur),(7,.real t.last),(8,.real t.buy),(9,.real t.sell),(10,.int t.updated)]

def bindAll (a : Replies) : List (ℕ × Value D) → Option (Bindings D) →
    Except Errno (Option (Bindings D))
  | [], statement => .ok statement
  | (k,v)::rest, statement =>
    let r := sqlite3Bind (a.bind k) statement k v
    if r.1 ≠ sqliteOk then .error .einval else bindAll a rest r.2

/-- A failed prepare is only logged: the function goes on to the binds. -/
def sqlInsertTick (a : Replies) (t : BtceTicker D) (db : Db D) : Errno × Db D :=
  let statement : Option (Bindings D) := sqlite3PrepareV2 a
  let prepared := { db with unfinalized := db.unfinalized+(if statement.isSome then 1 else 0) }
  match bindAll a (tickBinds t) statement with
  | .error e => (e,prepared)
  | .ok none => (.eio,prepared)
  | .ok (some b) =>
    if a.step ≠ sqliteDone then (.eio,prepared)
    else
      let stored := { prepared with
        rows := prepared.rows++[insertedRow b]
        unfinalized := prepared.unfinalized-1 }
      -- The source compares the answer of `sqlite3_finalize` with `SQLITE_DONE`.
      if a.finalize ≠ sqliteDone then (.eio,stored) else (.eok,stored)

/-- `sqlite3_close` refuses while a statement is unfinalized. -/
def sqlClose (db : Db D) : Errno × Db D :=
  if db.isOpen && db.unfinalized = 0 then
    (.eok,{ db with isOpen := false, ctxAllocated := false })
  else (.eio,db)

def sqlCreateTicksTable (exec : SqliteRet) (db : Db D) : Errno × Db D :=
  if exec ≠ sqliteOk then (.eio,(sqlClose db).2) else (.eok,db)

structure Call (D : Type) where
  ticker : BtceTicker D
  answers : Answers

def Call.run (c : Call D) (db : Db D) : Errno × Db D :=
  sqlInsertTick c.answers.toReplies c.ticker db

def inserts (calls : List (Call D)) (db : Db D) : Db D :=
  calls.foldl (fun db c => (c.run db).2) db

def reported : List (Call D) → Db D → List (BtceTicker D)
  | [], _ => []
  | c::cs, db =>
    let r := c.run db
    if r.1 = .eok then c.ticker::reported cs r.2 else reported cs r.2

def Replies.Inserts (a : Replies) : Prop :=
  a.prepare = sqliteOk ∧ (∀ k ∈ Finset.Icc 1 10, a.bind k = sqliteOk) ∧ a.step = sqliteDone

def bound (l : List (ℕ × Value D)) (b : Bindings D) : Bindings D :=
  l.foldl (fun b kv => Function.update b kv.1 kv.2) b

theorem bind_all_ok (a : Replies) (l : List (ℕ × Value D)) (b : Bindings D)
    (h : ∀ kv ∈ l, a.bind kv.1 = sqliteOk) : bindAll a l (some b) = .ok (some (bound l b)) := by
  induction l generalizing b with
  | nil => rfl
  | cons kv l ih =>
    have hk : a.bind kv.1 = sqliteOk := h kv (by simp)
    simp only [bindAll, sqlite3Bind, hk, ne_eq, not_true_eq_false, if_false, if_true]
    exact ih _ (fun e he => h e (by simp [he]))

theorem bind_all_fails (a : Replies) (l : List (ℕ × Value D)) (b : Bindings D)
    (h : ∃ kv ∈ l, a.bind kv.1 ≠ sqliteOk) : bindAll a l (some b) = .error .einval := by
  induction l generalizing b with
  | nil => simp at h
  | cons kv l ih =>
    by_cases hk : a.bind kv.1 = sqliteOk
    · simp only [bindAll, sqlite3Bind, hk, ne_eq, not_true_eq_false, if_false, if_true]
      apply ih
      obtain ⟨e,he,hne⟩ := h
      rcases List.mem_cons.mp he with rfl | hl
      · exact absurd hk hne
      · exact ⟨e,hl,hne⟩
    · simp [bindAll, sqlite3Bind, hk]

theorem bind_all_null (a : Replies) (l : List (ℕ × Value D)) (h : l ≠ []) :
    bindAll a l none = .error .einval := by
  cases l with
  | nil => exact absurd rfl h
  | cons kv l => simp [bindAll, sqlite3Bind, sqliteMisuse, sqliteOk]

theorem bound_row (t : BtceTicker D) (b : Bindings D) :
    insertedRow (bound (tickBinds t) b) = tickRow t := by
  funext c
  cases c <;> rfl

theorem tick_binds_keys (a : Replies) (t : BtceTicker D) :
    (∀ kv ∈ tickBinds t, a.bind kv.1 = sqliteOk) ↔
      ∀ k ∈ Finset.Icc 1 10, a.bind k = sqliteOk := by
  have hk : (tickBinds t).map Prod.fst = List.range' 1 10 := rfl
  constructor
  · intro h k hm
    have hr : k ∈ (tickBinds t).map Prod.fst := by
      rw [hk, List.mem_range'_1]
      have := Finset.mem_Icc.mp hm
      omega
    obtain ⟨kv,hkv,rfl⟩ := List.mem_map.mp hr
    exact h kv hkv
  · intro h kv hkv
    apply h
    have hr : kv.1 ∈ (tickBinds t).map Prod.fst := List.mem_map_of_mem hkv
    rw [hk, List.mem_range'_1] at hr
    exact Finset.mem_Icc.mpr (by omega)

theorem insert_done (a : Replies) (t : BtceTicker D) (db : Db D) (h : a.Inserts) :
    sqlInsertTick a t db =
      (if a.finalize = sqliteDone then .eok else .eio,
        { db with rows := db.rows++[tickRow t] }) := by
  obtain ⟨hp,hb,hs⟩ := h
  have hall := bind_all_ok a (tickBinds t) (fun _ => .null) ((tick_binds_keys _ _).mpr hb)
  simp only [sqlInsertTick, sqlite3PrepareV2, hp, hall, hs, bound_row, if_true, ne_eq,
    not_true_eq_false, if_false, ite_not, Option.isSome_some, Nat.add_sub_cancel]
  split <;> rfl

theorem insert_unfinished (a : Replies) (t : BtceTicker D) (db : Db D)
    (hp : a.prepare = sqliteOk) (h : ¬a.Inserts) :
    ∃ ret ≠ .eok, sqlInsertTick a t db = (ret,{ db with unfinalized := db.unfinalized+1 }) := by
  by_cases hb : ∀ kv ∈ tickBinds t, a.bind kv.1 = sqliteOk
  · have hs : a.step ≠ sqliteDone := fun hs => h ⟨hp,(tick_binds_keys _ _).mp hb,hs⟩
    exact ⟨.eio,by decide,by simp [sqlInsertTick, sqlite3PrepareV2, hp, bind_all_ok _ _ _ hb, hs]⟩
  · push Not at hb
    exact ⟨.einval,by decide,by simp [sqlInsertTick, sqlite3PrepareV2, hp, bind_all_fails _ _ _ hb]⟩

theorem insert_unprepared (a : Replies) (t : BtceTicker D) (db : Db D)
    (hp : a.prepare ≠ sqliteOk) : sqlInsertTick a t db = (.einval,db) := by
  have hn := bind_all_null a (tickBinds t) (by simp [tickBinds])
  simp [sqlInsertTick, sqlite3PrepareV2, hp, hn]

theorem insert_stored (c : Call D) (db : Db D) (h : c.answers.Inserts) :
    c.run db = (.eio,{ db with rows := db.rows++[tickRow c.ticker] }) := by
  have hf := c.answers.finalize_done h.2.2
  rw [Call.run, insert_done _ _ db h, hf]
  rfl

theorem insert_refused (c : Call D) (db : Db D) (h : ¬c.answers.Inserts) :
    (c.run db).1 ≠ .eok ∧ (c.run db).2.rows = db.rows := by
  rw [Call.run]
  by_cases hp : c.answers.prepare = sqliteOk
  · obtain ⟨ret,hret,hrun⟩ := insert_unfinished c.answers.toReplies c.ticker db hp h
    rw [hrun]
    exact ⟨hret,rfl⟩
  · rw [insert_unprepared _ _ db hp]
    exact ⟨by simp,rfl⟩

theorem insert_never_eok (c : Call D) (db : Db D) : (c.run db).1 ≠ .eok := by
  by_cases h : c.answers.Inserts
  · simp [insert_stored c db h]
  · exact (insert_refused c db h).1

theorem reported_nil (calls : List (Call D)) (db : Db D) : reported calls db = [] := by
  induction calls generalizing db with
  | nil => rfl
  | cons c cs ih => simp [reported, insert_never_eok c db, ih]

theorem insert_rows_length (c : Call D) (db : Db D) :
    db.rows.length ≤ (c.run db).2.rows.length ∧
      (c.answers.Inserts → db.rows.length < (c.run db).2.rows.length) := by
  by_cases h : c.answers.Inserts
  · simp [insert_stored c db h]
  · simp [(insert_refused c db h).2, h]

theorem inserts_rows_length (calls : List (Call D)) (db : Db D) :
    db.rows.length ≤ (inserts calls db).rows.length := by
  induction calls generalizing db with
  | nil => exact le_refl _
  | cons c cs ih => exact (insert_rows_length c db).1.trans (ih _)

theorem inserts_rows_iff (calls : List (Call D)) (db : Db D) :
    (inserts calls db).rows = db.rows ↔ ∀ c ∈ calls, ¬c.answers.Inserts := by
  induction calls generalizing db with
  | nil => simp [inserts]
  | cons c cs ih =>
    have hc : inserts (c::cs) db = inserts cs (c.run db).2 := rfl
    rw [hc, List.forall_mem_cons]
    by_cases h : c.answers.Inserts
    · have hl := (insert_rows_length c db).2 h
      have hr := inserts_rows_length cs (c.run db).2
      simp only [h, not_true_eq_false, false_and, iff_false]
      intro he
      rw [he] at hr
      omega
    · have hi := ih (c.run db).2
      rw [(insert_refused c db h).2] at hi
      simpa [h] using hi

/-- Return codes and stored rows agree: the new rows are the tickers reported
as stored, in order, and a call that reports a failure leaves the table alone. -/
structure Agree (calls : List (Call D)) (db : Db D) : Prop where
  appended : (inserts calls db).rows = db.rows++(reported calls db).map tickRow
  silent : ∀ before c after, calls = before++c::after →
    (c.run (inserts before db)).1 ≠ .eok →
      (c.run (inserts before db)).2.rows = (inserts before db).rows

/-- Codes and table agree in a run exactly when no insert of it reaches its last
step, since a row that is stored is never reported. -/
theorem agree_iff (calls : List (Call D)) (db : Db D) :
    Agree calls db ↔ ∀ c ∈ calls, ¬c.answers.Inserts := by
  constructor
  · intro h
    apply (inserts_rows_iff calls db).mp
    simpa [reported_nil] using h.appended
  · intro h
    refine ⟨by simpa [reported_nil] using (inserts_rows_iff calls db).mpr h,?_⟩
    rintro before c after rfl -
    exact (insert_refused c _ (h c (by simp))).2

def sampleTicker : BtceTicker ℕ := ⟨⟨ascii "btc_usd",by decide⟩,9,1,5,2,3,4,6,7,8⟩

def allSucceed : Answers := ⟨⟨sqliteOk,fun _ => sqliteOk,sqliteDone,sqliteOk⟩,fun _ => rfl⟩

def emptyDb : Db ℕ := ⟨[],0,true,true⟩

theorem insert_reports_eio :
    ((⟨sampleTicker,allSucceed⟩ : Call ℕ).run emptyDb).1 = .eio ∧
      ((⟨sampleTicker,allSucceed⟩ : Call ℕ).run emptyDb).2.rows = [tickRow sampleTicker] ∧
      ¬Agree [⟨sampleTicker,allSucceed⟩] emptyDb := by
  have hi : (⟨sampleTicker,allSucceed⟩ : Call ℕ).answers.Inserts :=
    ⟨rfl,fun _ _ => rfl,rfl⟩
  have hr := insert_stored ⟨sampleTicker,allSucceed⟩ emptyDb hi
  refine ⟨by rw [hr],by rw [hr]; rfl,?_⟩
  intro h
  have hrows := (inserts_rows_iff [⟨sampleTicker,allSucceed⟩] emptyDb).mp
    (by simpa [reported_nil] using h.appended)
  exact hrows _ (by simp) hi

end Flip.Sql
