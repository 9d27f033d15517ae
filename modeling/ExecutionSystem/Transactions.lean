import Mathlib.Data.List.Basic

/-!
# A connection with an open transaction

What is executed on a connection stands in its open transaction until the
transaction is committed, and only then in the table. Rolling it back, or
closing the connection, drops it. Requests may fail: an insertion that
fails inserts nothing, and a commit that fails leaves the transaction
open.

The rows of a connection (`Connection.rows`) are those of the table and,
behind them, those of the open transaction: a commit does not change
them, an insertion adds to their end, and only a rollback takes any away.
-/

/-- **A connection**: the rows of the table, and those of the transaction
that is open on it. -/
structure Connection (α : Type*) where
  stored : List α
  uncommitted : List α
  deriving DecidableEq, Repr

namespace Connection

variable {α : Type*} (c : Connection α)

/-- Insert rows, where the request succeeds. -/
def insert (items : List α) (ok : Bool) : Connection α :=
  if ok then { c with uncommitted := c.uncommitted ++ items } else c

/-- Commit the open transaction, where the request succeeds. -/
def commit (ok : Bool) : Connection α :=
  if ok then ⟨c.stored ++ c.uncommitted, []⟩ else c

/-- Roll the open transaction back. Closing the connection does the same. -/
def rollback : Connection α := { c with uncommitted := [] }

/-- **The rows**, as the connection itself would read them. -/
def rows : List α := c.stored ++ c.uncommitted

@[simp] theorem insert_true (items : List α) :
    c.insert items true = ⟨c.stored, c.uncommitted ++ items⟩ := rfl

@[simp] theorem insert_false (items : List α) : c.insert items false = c := rfl

@[simp] theorem commit_true : c.commit true = ⟨c.stored ++ c.uncommitted, []⟩ := rfl

@[simp] theorem commit_false : c.commit false = c := rfl

@[simp] theorem stored_rollback : c.rollback.stored = c.stored := rfl

@[simp] theorem uncommitted_rollback : c.rollback.uncommitted = [] := rfl

theorem rows_insert_true (items : List α) : (c.insert items true).rows = c.rows ++ items :=
  (List.append_assoc _ _ _).symm

/-- **A commit changes no row.** -/
theorem rows_commit (ok : Bool) : (c.commit ok).rows = c.rows := by
  cases ok with
  | true => exact List.append_nil _
  | false => rfl

theorem rows_rollback : c.rollback.rows = c.stored := List.append_nil _

theorem rows_of_uncommitted {c : Connection α} (h : c.uncommitted = []) : c.rows = c.stored := by
  rw [rows, h, List.append_nil]

end Connection
